/-
This file says when a view is in sync with what the client has been told by the
server, and that every operation keeps it so. The server's data a view has is
what the server has told of its place, and once that is complete, or a pending
write decides all of it, the view shows what has been told after the pending
writes. A view an operation does not reach is in sync as it is.
-/

import PhotoMap.Routing
import PhotoMap.WaitingViews

namespace PhotoMap

open Overlay

/-! ### Pending writes and places -/

namespace WriteTreeRef

variable {writes : WriteTreeRef}

/-- What is decided by a pending write does not depend on the server. -/
theorem shown_of_shadowed (tracks : writes.writeTree.Tracks)
    (shadowed : (writes.shadowingWriteAtPath []).isSome = true) (first second : Data Text Leaf) :
    writes.shown first = writes.shown second := by
  obtain ⟨write, member, covers⟩ := (shadowing_iff tracks []).mp shadowed
  have here := List.prefix_nil.mp covers
  funext path
  refine Data.afterAll_fixed ⟨write, member, fun first second => ?_⟩
  rw [here]
  rfl

/-- Pending writes that fit the server's data keep its leaves at every place. -/
theorem keeps_of_fits (tracks : writes.writeTree.Tracks) {server : Node}
    (fits : writes.writeTree.Fits server) : writes.Keeps (Data.below server.dataAt writes.path) := by
  refine (seenFrom_seenWrites writes.path _).safe ?_
  intro write member nothing above isPrefix different
  have writeFormed := WriteTree.wellFormed_pendingWrites tracks.formed write member
  exact Option.map_eq_none_iff.mpr
    (fits.noLeafAbove write member (writeFormed.isEmpty_iff_dataAt.mpr nothing) above isPrefix
      different)

end WriteTreeRef

namespace Operation

/-- What a view is told to write is what is seen from its place. -/
theorem WellFormed.afterAll_seenWrites {operation : Operation} (formed : operation.WellFormed)
    (path : Path) (data : Data Text Leaf) :
    Data.afterAll Node.dataAt (seenWrites path operation.writes) data =
      Data.afterAll Node.dataAt (writesOf (operation.operationForPath path)) data := by
  have seen := (seenFrom_seenWrites path operation.writes).afterAll_below
    (Data.overwrite path data fun _ => none)
  have told := formed.below_writes path (Data.overwrite path data fun _ => none)
  have below : (Data.overwrite path data fun _ => none).below path = data :=
    funext fun rest => Data.overwrite_append path rest data fun _ => none
  rw [below] at seen told
  exact seen.symm.trans told

end Operation

namespace ViewProcessor

/-! ### Views in sync -/

/-- What a view shows is known when it has the server's data of its place or when a pending write
decides all of it. -/
def IsKnown (writes : WriteTreeRef) (viewCache : ViewCache) : Prop :=
  viewCache.cachedServerSnap.isFullyInitialized = true ∨
    (writes.shadowingWriteAtPath []).isSome = true

/-- A view that has what the server has told of its place and shows it after the pending writes,
as far as both are known. -/
structure InSync (writes : WriteTreeRef) (told : Data Text Leaf) (viewCache : ViewCache) : Prop where
  wellFormed : viewCache.WellFormed
  server : viewCache.cachedServerSnap.isFullyInitialized = true →
    viewCache.server = told.below writes.path
  event : IsKnown writes viewCache → viewCache.cachedEventSnap.isFullyInitialized = true ∧
    viewCache.event = writes.shown (told.below writes.path)

variable {writes : WriteTreeRef} {viewCache new : ViewCache} {told : Data Text Leaf}

theorem viewCache_of_reached {operation : Operation} {result : Result}
    (reached : SyncTree.Reached writes viewCache operation result) :
    ∃ completeCache : Option Node, (∀ node, completeCache = some node → node.WellFormed) ∧
      result.viewCache = (process writes completeCache viewCache operation).1 := by
  obtain ⟨completeCache, formed, applied⟩ := reached
  obtain ⟨changes, -, rfl⟩ := Option.map_eq_some_iff.mp applied
  exact ⟨completeCache, formed, rfl⟩

/-- Caches that lead to what has been told and is to be shown are in sync. -/
theorem Leads.inSync {processed : Processed}
    (leads : Leads processed (told.below writes.path) (writes.shown (told.below writes.path))) :
    InSync writes told processed.1 where
  wellFormed := leads.complete.toWellFormed
  server _ := leads.server
  event _ := ⟨leads.complete.eventInitialized, leads.event⟩

/-- A view that waits stays in sync, whatever the server tells. -/
theorem Waits.inSync {processed : Processed} {toldNew : Data Text Leaf}
    (tracks : writes.writeTree.Tracks) (waits : Waits writes viewCache processed)
    (wellFormed : processed.1.WellFormed)
    (waiting : ¬ viewCache.cachedServerSnap.isFullyInitialized = true)
    (inSync : InSync writes told viewCache) : InSync writes toldNew processed.1 := by
  have stillWaiting : ¬ processed.1.cachedServerSnap.isFullyInitialized = true := by
    rw [waits.server]
    exact waiting
  refine ⟨wellFormed, fun complete => absurd complete stillWaiting, fun known => ?_⟩
  have shadowed := known.resolve_left stillWaiting
  obtain ⟨initialized, event⟩ := inSync.event (Or.inr shadowed)
  have same := waits.event shadowed
  refine ⟨same ▸ initialized, ?_⟩
  rw [ViewCache.event, same]
  exact event.trans (WriteTreeRef.shown_of_shadowed tracks shadowed _ _)

theorem InSync.complete (inSync : InSync writes told viewCache)
    (initialized : viewCache.cachedServerSnap.isFullyInitialized = true) : viewCache.Complete :=
  { inSync.wellFormed with
    serverInitialized := initialized
    eventInitialized := (inSync.event (Or.inl initialized)).1 }

/-- A view is in sync with the writes that are recorded, however their tree was built. -/
theorem InSync.of_same_records {next : WriteTreeRef} (samePlace : next.path = writes.path)
    (same : next.writeTree.allWrites = writes.writeTree.allWrites)
    (tracks : writes.writeTree.Tracks) (nextTracks : next.writeTree.Tracks)
    (inSync : InSync writes told viewCache) : InSync next told viewCache := by
  have seen : next.seen = writes.seen := by
    rw [WriteTreeRef.seen, WriteTreeRef.seen, samePlace, same]
  refine ⟨inSync.wellFormed, samePlace ▸ inSync.server, fun known => ?_⟩
  rw [WriteTreeRef.shown, seen, samePlace]
  refine inSync.event (known.imp_right fun shadowed => ?_)
  rw [WriteTreeRef.shadowing_iff nextTracks, seen] at shadowed
  exact (WriteTreeRef.shadowing_iff tracks []).mpr shadowed

/-! ### Writes of the user -/

theorem cachedServerSnap_applyUserOverwrite (writes : WriteTreeRef) (completeCache : Option Node)
    (viewCache : ViewCache) (changePath : Path) (changedSnap : Node) :
    (applyUserOverwrite writes completeCache viewCache changePath changedSnap).1.cachedServerSnap =
      viewCache.cachedServerSnap := by
  cases changePath with
  | nil => rfl
  | cons childKey childPath =>
    rw [applyUserOverwrite]
    dsimp only
    split <;> rfl

theorem cachedServerSnap_applyUserMerge (writes : WriteTreeRef) (completeCache : Option Node)
    (viewCache : ViewCache) (path : Path) (changedChildren : CompoundWrite) :
    (applyUserMerge writes completeCache viewCache path changedChildren).1.cachedServerSnap =
      viewCache.cachedServerSnap := by
  rw [applyUserMerge]
  dsimp only
  generalize List.filter _ _ ++ List.filter _ _ = new
  induction new generalizing viewCache with
  | nil => rfl
  | cons write rest inductionHypothesis =>
    rw [applyEach_cons]
    exact (inductionHypothesis _).trans (cachedServerSnap_applyUserOverwrite _ _ _ _ _)

variable {operation : Operation} {completeCache : Option Node}

/-- A write of the user leaves the server's data. -/
theorem cachedServerSnap_process (isWrite : operation.IsWriteOf true) :
    (process writes completeCache viewCache operation).1.cachedServerSnap =
      viewCache.cachedServerSnap := by
  cases operation with
  | overwrite fromUser path snap =>
    obtain rfl : fromUser = true := isWrite
    exact cachedServerSnap_applyUserOverwrite _ _ _ _ _
  | merge fromUser path children =>
    obtain rfl : fromUser = true := isWrite.1
    exact cachedServerSnap_applyUserMerge _ _ _ _ _
  | ackUserWrite path affectedTree revert => exact isWrite.elim
  | listenComplete path => exact isWrite.elim

/-- A write of the user is made in what is shown, when that is complete or is overwritten. -/
theorem makes_process (formed : writes.writeTree.visibleWrites.WellFormed)
    (serverFormed : ∀ node, completeCache = some node → node.WellFormed)
    (operationFormed : operation.WellFormed) (isWrite : operation.IsWriteOf true)
    (wellFormed : viewCache.WellFormed)
    (known : viewCache.cachedEventSnap.isFullyInitialized = true ∨
      ∃ write ∈ operation.writes, write.1 = []) :
    Makes viewCache (process writes completeCache viewCache operation)
      (Data.afterAll Node.dataAt operation.writes viewCache.event) := by
  cases operation with
  | overwrite fromUser path snap =>
    obtain rfl : fromUser = true := isWrite
    refine makes_applyUserOverwrite writes wellFormed operationFormed completeCache ?_
    refine known.imp_right fun ⟨write, member, here⟩ => ?_
    rw [List.mem_singleton.mp member] at here
    exact here
  | merge fromUser path children =>
    obtain rfl : fromUser = true := isWrite.1
    refine makes_applyUserMerge formed serverFormed operationFormed path wellFormed ?_
    refine known.imp_right fun ⟨write, member, here⟩ => ?_
    -- a write of the whole place is the only one
    obtain ⟨found, there, rfl⟩ := List.mem_map.mp member
    obtain ⟨rfl, root⟩ := List.append_eq_nil_iff.mp here
    have mergeFormed : children.WellFormed := operationFormed
    have written := (mergeFormed.mem_enumerateWrites found.1 found.2).mp there
    rw [root] at written
    refine ⟨found.2, ?_⟩
    rw [mergedWrites, mergeFormed.enumerateWrites_of_rootWrite written]
    rfl
  | ackUserWrite path affectedTree revert => exact isWrite.elim
  | listenComplete path => exact isWrite.elim

section UserWrites

variable {next : WriteTreeRef} (samePlace : next.path = writes.path)
  (recorded : pendingWrites next.writeTree.allWrites =
    pendingWrites writes.writeTree.allWrites ++ operation.writes)

include samePlace recorded

theorem seen_of_recorded : next.seen = writes.seen ++ seenWrites writes.path operation.writes := by
  rw [WriteTreeRef.seen, samePlace, recorded, seenWrites, List.filterMap_append]
  rfl

/-- What is to be shown after a write of the user is what was, with what the view is told. -/
theorem shown_of_recorded (formed : operation.WellFormed) (data : Data Text Leaf) :
    next.shown data = Data.afterAll Node.dataAt
      (Operation.writesOf (operation.operationForPath writes.path)) (writes.shown data) := by
  rw [WriteTreeRef.shown, seen_of_recorded samePlace recorded, Data.afterAll_append,
    formed.afterAll_seenWrites]
  rfl

/-- What is decided after a write of the user was decided before, or by what the view is told. -/
theorem shadowed_of_recorded (tracks : writes.writeTree.Tracks) (nextTracks : next.writeTree.Tracks)
    (formed : operation.WellFormed)
    (shadowed : (next.shadowingWriteAtPath []).isSome = true) :
    (writes.shadowingWriteAtPath []).isSome = true ∨
      ∃ write ∈ Operation.writesOf (operation.operationForPath writes.path), write.1 = [] := by
  obtain ⟨write, member, covers⟩ := (WriteTreeRef.shadowing_iff nextTracks []).mp shadowed
  rw [seen_of_recorded samePlace recorded] at member
  rcases List.mem_append.mp member with old | new
  · exact Or.inl ((WriteTreeRef.shadowing_iff tracks []).mpr ⟨write, old, covers⟩)
  · refine Or.inr (formed.covered_below ?_)
    have covered := ((seenFrom_seenWrites writes.path operation.writes).covered_iff []).mp
      ⟨write, new, covers⟩
    rwa [List.append_nil] at covered

/-- A write of the user keeps a view in sync. -/
theorem InSync.userWrite (tracks : writes.writeTree.Tracks) (nextTracks : next.writeTree.Tracks)
    (formed : operation.WellFormed) (isWrite : operation.IsWriteOf true)
    (inSync : InSync writes told viewCache)
    (handled : SyncTree.Handled next viewCache (operation.operationForPath writes.path) new) :
    InSync next told new := by
  have shown := shown_of_recorded samePlace recorded formed
  have shadowed := shadowed_of_recorded samePlace recorded tracks nextTracks formed
  cases onward : operation.operationForPath writes.path with
  | none =>
    rw [onward] at handled shown shadowed
    obtain rfl : new = viewCache := handled
    refine ⟨inSync.wellFormed, samePlace ▸ inSync.server, fun known => ?_⟩
    rw [shown, samePlace]
    refine inSync.event (known.imp_right fun covered => (shadowed covered).resolve_right ?_)
    exact fun ⟨write, member, _⟩ => List.not_mem_nil member
  | some reachedOperation =>
    rw [onward] at handled shown shadowed
    obtain ⟨result, reached, rfl⟩ := handled
    obtain ⟨completeCache, serverFormed, processed⟩ := viewCache_of_reached reached
    have reachedFormed := formed.operationForPath onward
    have reachedWrite := isWrite.operationForPath onward
    have tracked := tracked_process nextTracks.wellFormed inSync.wellFormed serverFormed
      reachedFormed
    have server : result.viewCache.cachedServerSnap = viewCache.cachedServerSnap := by
      rw [processed]
      exact cachedServerSnap_process reachedWrite
    have makes := makes_process nextTracks.wellFormed serverFormed reachedFormed reachedWrite
      inSync.wellFormed
    refine ⟨processed ▸ tracked.wellFormed, fun complete => ?_, fun known => ?_⟩
    · rw [ViewCache.server, server, samePlace]
      exact inSync.server (server ▸ complete)
    · rw [processed, shown, samePlace]
      by_cases before : IsKnown writes viewCache
      · obtain ⟨initialized, event⟩ := inSync.event before
        have made := makes (Or.inl initialized)
        exact ⟨made.initialized, made.event.trans (event ▸ rfl)⟩
      · -- the write decides all that is at the place, whatever was shown before
        have covered := known.resolve_left fun complete => before (Or.inl (server ▸ complete))
        have whole := (shadowed covered).resolve_left fun earlier => before (Or.inr earlier)
        have made := makes (Or.inr whole)
        obtain ⟨write, member, here⟩ := whole
        refine ⟨made.initialized, made.event.trans (funext fun path => ?_)⟩
        refine Data.afterAll_fixed ⟨write, member, fun first second => ?_⟩
        rw [here]
        rfl

end UserWrites

/-! ### Messages of the server -/

/-- A merge without a write at its root has none at the place of the view. -/
theorem rootWrite_actualMerge {changed : CompoundWrite} (formed : changed.WellFormed)
    (noRoot : changed.rootWrite = none) (path : Path) :
    (actualMerge path changed).rootWrite = none := by
  refine Option.eq_none_iff_forall_ne_some.mpr fun node root => ?_
  have member := ((wellFormed_actualMerge path formed).mem_enumerateWrites [] node).mpr root
  obtain ⟨found, there, same⟩ :=
    List.mem_map.mp ((mem_enumerateWrites_actualMerge formed path ([], node)).mp member)
  obtain ⟨-, here⟩ := List.append_eq_nil_iff.mp (congrArg Prod.fst same)
  have written := (formed.mem_enumerateWrites found.1 found.2).mp there
  rw [here] at written
  exact absurd (noRoot.symm.trans written) (Option.some_ne_none found.2).symm

/-- A message of the server keeps a view up to date. -/
theorem Current.serverWrite (tracks : writes.writeTree.Tracks) (current : Current writes viewCache)
    (completeCache : Option Node) (formed : operation.WellFormed) (isWrite : operation.IsWriteOf false)
    (keeps : writes.Keeps viewCache.server)
    (keepsNew : writes.Keeps (Data.afterAll Node.dataAt operation.writes viewCache.server)) :
    Leads (process writes completeCache viewCache operation)
      (Data.afterAll Node.dataAt operation.writes viewCache.server)
      (writes.shown (Data.afterAll Node.dataAt operation.writes viewCache.server)) := by
  cases operation with
  | overwrite fromUser path snap =>
    obtain rfl : fromUser = false := isWrite
    exact current.applyServerOverwrite tracks formed path keeps keepsNew
  | merge fromUser path children =>
    obtain ⟨rfl, noRoot⟩ := isWrite
    exact current.applyServerMerge tracks formed path
      (rootWrite_actualMerge formed (noRoot rfl) path) keeps keepsNew
  | ackUserWrite path affectedTree revert => exact isWrite.elim
  | listenComplete path => exact isWrite.elim

/-- A message of the server completes a view that waits, or leaves it waiting. -/
theorem leads_or_waits (tracks : writes.writeTree.Tracks) (completeCache : Option Node)
    (formed : operation.WellFormed) (isWrite : operation.IsWriteOf false)
    (inSync : InSync writes told viewCache)
    (keepsNew : writes.Keeps
      (Data.afterAll Node.dataAt operation.writes (told.below writes.path))) :
    Leads (process writes completeCache viewCache operation)
        (Data.afterAll Node.dataAt operation.writes (told.below writes.path))
        (writes.shown (Data.afterAll Node.dataAt operation.writes (told.below writes.path))) ∨
      Waits writes viewCache (process writes completeCache viewCache operation) := by
  cases operation with
  | overwrite fromUser path snap =>
    obtain rfl : fromUser = false := isWrite
    cases path with
    | nil =>
      have leads := leads_applyServerOverwrite_root tracks inSync.wellFormed formed keepsNew
        fun shadowed => (inSync.event (Or.inr shadowed)).1
      refine Or.inl { leads with event := leads.event.trans ?_ }
      by_cases shadowed : (writes.shadowingWriteAtPath []).isSome = true
      · rw [if_pos shadowed, (inSync.event (Or.inr shadowed)).2]
        exact WriteTreeRef.shown_of_shadowed tracks shadowed _ _
      · rw [if_neg shadowed]
        rfl
    | cons childKey childPath =>
      exact Or.inr (waits_applyServerOverwrite tracks viewCache childKey childPath snap)
  | merge fromUser path children =>
    obtain rfl : fromUser = false := isWrite.1
    exact Or.inr (waits_applyServerMerge tracks viewCache path children)
  | ackUserWrite path affectedTree revert => exact isWrite.elim
  | listenComplete path => exact isWrite.elim

/-- A message of the server keeps a view in sync. -/
theorem InSync.serverWrite (tracks : writes.writeTree.Tracks) (formed : operation.WellFormed)
    (isWrite : operation.IsWriteOf false) (inSync : InSync writes told viewCache)
    (keeps : writes.Keeps (told.below writes.path))
    (keepsNew : writes.Keeps
      ((Data.afterAll Node.dataAt operation.writes told).below writes.path))
    (handled : SyncTree.Handled writes viewCache (operation.operationForPath writes.path) new) :
    InSync writes (Data.afterAll Node.dataAt operation.writes told) new := by
  have below := formed.below_writes writes.path told
  cases onward : operation.operationForPath writes.path with
  | none =>
    rw [onward] at handled below
    obtain rfl : new = viewCache := handled
    refine ⟨inSync.wellFormed, fun complete => ?_, fun known => ?_⟩
    · exact (inSync.server complete).trans below.symm
    · rw [below]
      exact inSync.event known
  | some reachedOperation =>
    rw [onward] at handled below
    obtain ⟨result, reached, rfl⟩ := handled
    obtain ⟨completeCache, serverFormed, processed⟩ := viewCache_of_reached reached
    have reachedFormed := formed.operationForPath onward
    have reachedWrite := isWrite.operationForPath onward
    have made : Data.afterAll Node.dataAt reachedOperation.writes (told.below writes.path) =
        (Data.afterAll Node.dataAt operation.writes told).below writes.path := below.symm
    rw [processed]
    by_cases initialized : viewCache.cachedServerSnap.isFullyInitialized = true
    · have server := inSync.server initialized
      have current : Current writes viewCache :=
        ⟨inSync.complete initialized, by rw [server]; exact (inSync.event (Or.inl initialized)).2⟩
      have leads := current.serverWrite tracks completeCache reachedFormed
        reachedWrite (server ▸ keeps) (by rw [server, made]; exact keepsNew)
      rw [server, made] at leads
      exact leads.inSync
    · rcases leads_or_waits tracks completeCache reachedFormed reachedWrite inSync
        (by rw [made]; exact keepsNew) with leads | waits
      · rw [made] at leads
        exact leads.inSync
      · have tracked := tracked_process tracks.wellFormed inSync.wellFormed serverFormed
          reachedFormed
        exact waits.inSync tracks tracked.wellFormed initialized inSync

/-- A listen that completes keeps a view in sync, when all that is at or below its place has been
sent. -/
theorem InSync.listenComplete (tracks : writes.writeTree.Tracks)
    (inSync : InSync writes told viewCache) (keeps : writes.Keeps (told.below writes.path))
    {path : Path} (sent : path <+: writes.path → viewCache.server = told.below writes.path)
    (handled : SyncTree.Handled writes viewCache
      (Operation.operationForPath writes.path (.listenComplete path)) new) :
    InSync writes told new := by
  cases onward : Operation.operationForPath writes.path (.listenComplete path) with
  | none =>
    rw [onward] at handled
    obtain rfl : new = viewCache := handled
    exact inSync
  | some reachedOperation =>
    rw [onward] at handled
    obtain ⟨result, reached, rfl⟩ := handled
    obtain ⟨completeCache, serverFormed, processed⟩ := viewCache_of_reached reached
    obtain ⟨rest, rfl, inside⟩ := Operation.operationForPath_listenComplete onward
    rw [processed]
    show InSync writes told (ViewProcessor.listenComplete writes viewCache rest).1
    by_cases initialized : viewCache.cachedServerSnap.isFullyInitialized = true
    · have server := inSync.server initialized
      have current : Current writes viewCache :=
        ⟨inSync.complete initialized, by rw [server]; exact (inSync.event (Or.inl initialized)).2⟩
      have leads := current.listenComplete tracks rest (server ▸ keeps)
      rw [server] at leads
      exact leads.inSync
    · cases rest with
      | nil =>
        have server := sent (inside rfl)
        have shadowedKnown := fun shadowed => inSync.event (Or.inr shadowed)
        have same : ViewProcessor.listenComplete writes viewCache [] =
            applyServerOverwrite writes viewCache [] viewCache.cachedServerSnap.node := by
          rw [ViewProcessor.listenComplete, inSync.wellFormed.serverUnfiltered]
          exact congrArg (fun initialized => generateEventCacheAfterServerEvent writes
            (viewCache.updateServerSnap _ initialized false) []) (Bool.or_true _)
        have keepsServer : writes.Keeps viewCache.server := server ▸ keeps
        have leads := leads_applyServerOverwrite_root tracks inSync.wellFormed
          inSync.wellFormed.serverFormed keepsServer fun shadowed => (shadowedKnown shadowed).1
        rw [same]
        refine Leads.inSync ⟨leads.complete, leads.server.trans server, leads.event.trans ?_⟩
        rw [← server]
        split
        · rename_i shadowed
          rw [(shadowedKnown shadowed).2, server]
        · rfl
      | cons childKey childPath =>
        have tracked := tracked_listenComplete tracks.wellFormed inSync.wellFormed
          (childKey :: childPath)
        exact (waits_listenComplete tracks viewCache childKey childPath).inSync tracks
          tracked.wellFormed initialized inSync

end ViewProcessor

end PhotoMap
