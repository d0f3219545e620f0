/-
This file is about how the end of a pending write reaches a view. A view on the
way to the path of the record sees the record with the rest of the path, a view
below it sees the part of what was written at its place, and a view beside it
never saw the record. When the record is the first of the pending ones, the view
still shows what it wrote, and after the operation it is in sync with the writes
that are left. A record that a later one shadows ends without an operation.
-/

import PhotoMap.InSync

namespace PhotoMap

open Overlay

/-! ### What a record writes -/

namespace WriteRecord

/-- What a record writes, with the paths below its own. -/
def content : WriteRecord → List (Path × Node)
  | .overwrite _ node _ _ => [([], node)]
  | .merge _ changed _ => changed.enumerateWrites

theorem writes_eq (record : WriteRecord) :
    record.writes = record.content.map fun write => (record.path ++ write.1, write.2) := by
  cases record with
  | overwrite path node writeId visible =>
    rw [writes, content, List.map_singleton, WriteRecord.path, List.append_nil]
  | merge path changed writeId => rfl

theorem WellFormed.pairwise_content {record : WriteRecord} (formed : record.WellFormed) :
    record.content.Pairwise fun first second => Apart first.1 second.1 := by
  cases record with
  | overwrite path node writeId visible => exact List.pairwise_singleton _ _
  | merge path changed writeId => exact CompoundWrite.WellFormed.pairwise_enumerateWrites formed

/-- Everything a record writes is affected when it ends. -/
theorem isSome_affectedTree {record : WriteRecord} {write : Path × Node}
    (member : write ∈ record.content) :
    ((SyncTree.affectedTree record).valueAtPath write.1).isSome = true := by
  cases record with
  | overwrite path node writeId visible =>
    rw [List.mem_singleton.mp member]
    rfl
  | merge path changed writeId =>
    have set : ∀ (new : List (Path × Node)) (affected : ImmutableTree Unit),
        write ∈ new ∨ (affected.valueAtPath write.1).isSome = true →
        ((new.foldl (fun affected found => affected.setValue () found.1) affected).valueAtPath
          write.1).isSome = true := by
      intro new
      induction new with
      | nil => exact fun affected known => known.resolve_left List.not_mem_nil
      | cons found rest inductionHypothesis =>
        intro affected known
        refine inductionHypothesis _ ?_
        rcases known with member | there
        · refine (List.mem_cons.mp member).symm.imp_right fun same => ?_
          rw [same, ImmutableTree.valueAtPath_setValue_self]
          rfl
        · exact Or.inr (ImmutableTree.valueAtPath_setValue_isSome () there)
    exact set changed.enumerateWrites .empty (Or.inl member)

end WriteRecord

/-! ### Records as a view sees them -/

theorem seenWrites_prefixed (place : Path) (new : List (Path × Node)) :
    seenWrites place (new.map fun write => (place ++ write.1, write.2)) = new := by
  rw [seenWrites, List.filterMap_map]
  refine Eq.trans (List.filterMap_congr fun write _ => ?_) List.filterMap_some
  show (if Path.contains place (place ++ write.1) then _ else _) = some write
  rw [if_pos (Path.contains_iff.mpr (List.prefix_append place write.1)), relativePathFrom_append]

theorem seenWrites_of_apart {place : Path} {new : List (Path × Node)}
    (apart : ∀ write ∈ new, Apart write.1 place) : seenWrites place new = [] := by
  refine List.filterMap_eq_nil_iff.mpr fun write member => ?_
  obtain ⟨notAbove, notBelow⟩ := apart write member
  rw [if_neg (mt Path.contains_iff.mp notBelow), if_neg (mt Path.contains_iff.mp notAbove)]

theorem mem_seenWrites {place : Path} {new : List (Path × Node)} {seen : Path × Node}
    (member : seen ∈ seenWrites place new) :
    ∃ write ∈ new, (write.1 = place ++ seen.1 ∧ write.2 = seen.2) ∨
      (seen.1 = [] ∧ write.1 <+: place) := by
  obtain ⟨write, there, same⟩ := List.mem_filterMap.mp member
  refine ⟨write, there, ?_⟩
  by_cases inside : place <+: write.1
  · obtain ⟨rest, split⟩ := inside
    rw [← split, if_pos (Path.contains_iff.mpr (List.prefix_append place rest)),
      relativePathFrom_append, Option.some_inj] at same
    rw [← same]
    exact Or.inl ⟨split.symm, rfl⟩
  · rw [if_neg (mt Path.contains_iff.mp inside)] at same
    obtain ⟨above, same⟩ := Option.ite_none_right_eq_some.mp same
    rw [← Option.some.inj same]
    exact Or.inr ⟨rfl, Path.contains_iff.mp above⟩

namespace ViewProcessor

/-- Leaves of the server that are not above what a record wrote are not above what is seen of
it. -/
theorem NoLeafAbove.seen {new : List (Path × Node)} {told : Data Text Leaf}
    (noLeaf : NoLeafAbove new told) (place : Path) :
    NoLeafAbove (seenWrites place new) (told.below place) := by
  intro seen member
  obtain ⟨write, there, ⟨split, same⟩ | ⟨here, -⟩⟩ := mem_seenWrites member
  · rw [← same]
    refine (noLeaf write there).imp_right fun noItem above isPrefix different => ?_
    refine noItem (place ++ above) ?_ ?_
    · rw [split]
      exact (List.prefix_append_right_inj place).mpr isPrefix
    · rw [split]
      exact fun same => different (List.append_cancel_left same)
  · refine Or.inr fun above isPrefix different => ?_
    rw [here] at isPrefix different
    exact absurd (List.prefix_nil.mp isPrefix) different

/-- How the end of a record reaches a view on the way to the path of the record or below it. -/
structure Retires (place : Path) (removed : WriteRecord) (rest : Path)
    (restTree : ImmutableTree Unit) : Prop where
  within : removed.path <+: place ++ rest
  inside : ∀ write ∈ seenWrites place removed.writes, rest <+: write.1
  once : ∀ data : Data Text Leaf, data.Solid → ∃ change : Data Text Leaf,
    Data.afterAll Node.dataAt (seenWrites place removed.writes) data =
      Data.overwrite rest change data
  paths : restTree.value = none → ∀ write ∈ seenWrites place removed.writes,
    ∃ found ∈ restTree.forEach, write.1 = rest ++ found.1

variable {place : Path} {removed : WriteRecord}

theorem retires_above (formed : removed.WellFormed) {rest : Path}
    (onTheWay : removed.path = place ++ rest) :
    Retires place removed rest (SyncTree.affectedTree removed) := by
  have seen : seenWrites place removed.writes =
      removed.content.map fun write => (rest ++ write.1, write.2) := by
    rw [removed.writes_eq, onTheWay, ← seenWrites_prefixed place
      (removed.content.map fun write => (rest ++ write.1, write.2)), List.map_map]
    simp only [Function.comp_def, List.append_assoc]
  refine ⟨onTheWay ▸ List.prefix_refl _, fun write member => ?_, fun data solid => ?_,
    fun _ write member => ?_⟩
  · rw [seen] at member
    obtain ⟨found, -, rfl⟩ := List.mem_map.mp member
    exact List.prefix_append rest found.1
  · rw [seen]
    exact ⟨_, Data.afterAll_prefixed rest formed.pairwise_content solid
      fun write _ => write.2.solid_dataAt⟩
  · rw [seen] at member
    obtain ⟨found, there, rfl⟩ := List.mem_map.mp member
    obtain ⟨value, stored⟩ := Option.isSome_iff_exists.mp (WriteRecord.isSome_affectedTree there)
    exact ⟨(found.1, value), ImmutableTree.mem_forEach_of_valueAtPath stored, rfl⟩

theorem retires_below {rest : Path} (below : place = removed.path ++ rest)
    {restTree : ImmutableTree Unit} (reached : restTree.value = none →
      restTree = (SyncTree.affectedTree removed).subtreeAtPath rest ∧
        ∀ above, above <+: rest → (SyncTree.affectedTree removed).valueAtPath above = none) :
    Retires place removed [] restTree := by
  refine ⟨?_, fun _ _ => List.nil_prefix, fun data _ => ⟨_, rfl⟩, fun noValue seen member => ?_⟩
  · rw [List.append_nil, below]
    exact List.prefix_append removed.path rest
  · obtain ⟨rfl, noneAbove⟩ := reached noValue
    obtain ⟨write, there, location⟩ := mem_seenWrites member
    rw [removed.writes_eq] at there
    obtain ⟨found, foundMember, rfl⟩ := List.mem_map.mp there
    obtain ⟨value, stored⟩ :=
      Option.isSome_iff_exists.mp (WriteRecord.isSome_affectedTree foundMember)
    rw [below] at location
    rcases location with ⟨split, -⟩ | ⟨-, above⟩
    · rw [List.append_assoc, List.append_cancel_left_eq] at split
      refine ⟨(seen.1, value), ImmutableTree.mem_forEach_of_valueAtPath ?_, rfl⟩
      rw [ImmutableTree.valueAtPath_subtreeAtPath, ← split]
      exact stored
    · have isPrefix := (List.prefix_append_right_inj removed.path).mp above
      exact absurd ((noneAbove found.1 isPrefix).symm.trans stored) (Option.some_ne_none value).symm

/-- A view is beside the path of the record, or the end of the record reaches it. -/
theorem beside_or_retires (formed : removed.WellFormed) (place : Path) (revert : Bool) :
    Apart removed.path place ∨ ∃ rest restTree, Retires place removed rest restTree ∧
      Operation.operationForPath place
        (.ackUserWrite removed.path (SyncTree.affectedTree removed) revert) =
          some (.ackUserWrite rest restTree revert) := by
  by_cases onTheWay : place <+: removed.path
  · obtain ⟨rest, split⟩ := onTheWay
    refine Or.inr ⟨rest, _, retires_above formed split.symm, ?_⟩
    rw [← split]
    exact Operation.operationForPath_ackUserWrite_above _ _ _ _
  by_cases below : removed.path <+: place
  · obtain ⟨rest, split⟩ := below
    obtain ⟨restTree, reached, known⟩ := Operation.operationForPath_ackUserWrite_below
      (SyncTree.affectedTree removed) revert removed.path rest
    refine Or.inr ⟨[], restTree, retires_below split.symm known, ?_⟩
    rw [← split]
    exact reached
  · exact Or.inl ⟨below, onTheWay⟩

/-! ### The view after the end -/

section Ends

variable {writes next : WriteTreeRef} {viewCache new : ViewCache} {told : Data Text Leaf}
  (samePlace : next.path = writes.path)
  (records : writes.writeTree.allWrites = removed :: next.writeTree.allWrites)

include samePlace records

theorem seen_of_removed : writes.seen = seenWrites writes.path removed.writes ++ next.seen := by
  rw [WriteTreeRef.seen, WriteTreeRef.seen, samePlace, records, WriteTree.pendingWrites_cons,
    seenWrites, List.filterMap_append]
  rfl

/-- What was to be shown is what the writes that are left make of what the record wrote. -/
theorem shown_of_removed (data : Data Text Leaf) :
    writes.shown data = next.shown
      (Data.afterAll Node.dataAt (seenWrites writes.path removed.writes) data) := by
  rw [WriteTreeRef.shown, seen_of_removed samePlace records, Data.afterAll_append]
  rfl

theorem shadowed_of_removed (tracks : writes.writeTree.Tracks) (nextTracks : next.writeTree.Tracks)
    {path : Path} (shadowed : (next.shadowingWriteAtPath path).isSome = true) :
    (writes.shadowingWriteAtPath path).isSome = true := by
  obtain ⟨write, member, covers⟩ := (WriteTreeRef.shadowing_iff nextTracks path).mp shadowed
  refine (WriteTreeRef.shadowing_iff tracks path).mpr ⟨write, ?_, covers⟩
  rw [seen_of_removed samePlace records]
  exact List.mem_append_right _ member

/-- A view that waits is in sync with the writes that are left. -/
theorem InSync.waiting (tracks : writes.writeTree.Tracks) (nextTracks : next.writeTree.Tracks)
    (inSync : InSync writes told viewCache)
    (waiting : ¬ viewCache.cachedServerSnap.isFullyInitialized = true) :
    InSync next told viewCache := by
  refine ⟨inSync.wellFormed, fun complete => absurd complete waiting, fun known => ?_⟩
  have shadowed := known.resolve_left waiting
  obtain ⟨initialized, event⟩ :=
    inSync.event (Or.inr (shadowed_of_removed samePlace records tracks nextTracks shadowed))
  refine ⟨initialized, event.trans ?_⟩
  rw [shown_of_removed samePlace records, samePlace]
  exact WriteTreeRef.shown_of_shadowed nextTracks shadowed _ _

/-- A view beside the record is in sync with the writes that are left. -/
theorem InSync.beside (tracks : writes.writeTree.Tracks) (nextTracks : next.writeTree.Tracks)
    (inSync : InSync writes told viewCache) (apart : Apart removed.path writes.path) :
    InSync next told viewCache := by
  have unseen : seenWrites writes.path removed.writes = [] := by
    refine seenWrites_of_apart fun write member => ?_
    have below := WriteRecord.path_prefix write member
    refine ⟨fun above => apart.1 (below.trans above), fun inside => ?_⟩
    rcases List.prefix_or_prefix_of_prefix below inside with isPrefix | isPrefix
    · exact apart.1 isPrefix
    · exact apart.2 isPrefix
  refine ⟨inSync.wellFormed, samePlace ▸ inSync.server, fun known => ?_⟩
  obtain ⟨initialized, event⟩ := inSync.event (known.imp_right
    (shadowed_of_removed samePlace records tracks nextTracks))
  refine ⟨initialized, event.trans ?_⟩
  rw [shown_of_removed samePlace records, unseen, samePlace]
  rfl

/-- A view with the server's data of its place lags behind the end of the record. -/
theorem InSync.lags (inSync : InSync writes told viewCache)
    (initialized : viewCache.cachedServerSnap.isFullyInitialized = true)
    (keeps : next.Keeps (told.below writes.path)) {rest : Path} {restTree : ImmutableTree Unit}
    (retires : Retires writes.path removed rest restTree) :
    Lags next rest (seenWrites writes.path removed.writes) viewCache := by
  have server := inSync.server initialized
  refine ⟨inSync.complete initialized, server ▸ keeps, retires.inside,
    retires.once _ viewCache.solid_server, ?_⟩
  rw [server, ← shown_of_removed samePlace records]
  exact (inSync.event (Or.inl initialized)).2

/-- The end of the first record keeps a view in sync. -/
theorem InSync.acknowledge (tracks : writes.writeTree.Tracks) (nextTracks : next.writeTree.Tracks)
    (formed : removed.WellFormed) (inSync : InSync writes told viewCache)
    (keeps : next.Keeps (told.below writes.path)) (revert : Bool)
    (noLeaf : revert = false → NoLeafAbove removed.writes told)
    (handled : SyncTree.Handled next viewCache (Operation.operationForPath writes.path
      (.ackUserWrite removed.path (SyncTree.affectedTree removed) revert)) new) :
    InSync next told new := by
  rcases beside_or_retires formed writes.path revert with apart | ⟨rest, restTree, retires, onward⟩
  · rw [Operation.operationForPath_ackUserWrite_beside _ _ apart] at handled
    obtain rfl : new = viewCache := handled
    exact inSync.beside samePlace records tracks nextTracks apart
  rw [onward] at handled
  obtain ⟨result, reached, rfl⟩ := handled
  obtain ⟨completeCache, serverFormed, processed⟩ := viewCache_of_reached reached
  have operationFormed : (Operation.ackUserWrite rest restTree revert).WellFormed := trivial
  have tracked := tracked_process nextTracks.wellFormed inSync.wellFormed serverFormed
    operationFormed
  rw [processed]
  by_cases initialized : viewCache.cachedServerSnap.isFullyInitialized = true
  · have server := inSync.server initialized
    have lags := inSync.lags samePlace records initialized keeps retires
    have leads : Leads (process next completeCache viewCache (.ackUserWrite rest restTree revert))
        viewCache.server (next.shown viewCache.server) := by
      cases revert with
      | true => exact lags.revertUserWrite nextTracks
      | false =>
        exact lags.ackUserWrite nextTracks (server ▸ (noLeaf rfl).seen writes.path) retires.paths
    rw [server, ← samePlace] at leads
    exact leads.inSync
  · have inSyncNext := inSync.waiting samePlace records tracks nextTracks initialized
    have waits : Waits next viewCache (process next completeCache viewCache
        (.ackUserWrite rest restTree revert)) := by
      cases revert with
      | true => exact waits_revertUserWrite nextTracks viewCache rest
      | false =>
        exact waits_ackUserWrite nextTracks (Bool.not_eq_true _ ▸ initialized) rest restTree
    exact waits.inSync nextTracks tracked.wellFormed initialized inSyncNext

/-- A record that a later one shadows ends without a change of what is shown. -/
theorem InSync.shadowed (tracks : writes.writeTree.Tracks) (nextTracks : next.writeTree.Tracks)
    (formed : removed.WellFormed) (inSync : InSync writes told viewCache)
    (keeps : next.Keeps (told.below writes.path))
    (later : ∃ record ∈ next.writeTree.allWrites, record.containsPath removed.path = true) :
    InSync next told viewCache := by
  by_cases initialized : viewCache.cachedServerSnap.isFullyInitialized = true
  · rcases beside_or_retires formed writes.path true with apart | ⟨rest, restTree, retires, -⟩
    · exact inSync.beside samePlace records tracks nextTracks apart
    · have server := inSync.server initialized
      have lags := inSync.lags samePlace records initialized keeps retires
      obtain ⟨record, member, contains⟩ := later
      obtain ⟨write, there, covers⟩ := WriteRecord.containsPath_iff.mp contains
      have shadowed : (next.shadowingWriteAtPath rest).isSome = true := by
        rw [WriteTreeRef.shadowing_iff nextTracks, WriteTreeRef.seen,
          (seenFrom_seenWrites next.path _).covered_iff, samePlace]
        exact ⟨write, List.mem_flatMap.mpr ⟨record, member, there⟩, covers.trans retires.within⟩
      have leads := lags.leads_unchanged nextTracks shadowed
      rw [server, ← samePlace] at leads
      exact leads.inSync
  · exact inSync.waiting samePlace records tracks nextTracks initialized

end Ends

/-- When all the pending writes are given up, a view is in sync without them. -/
theorem InSync.removeAllWrites {writes next : WriteTreeRef} {viewCache new : ViewCache}
    {told : Data Text Leaf} (samePlace : next.path = writes.path)
    (nothing : next.writeTree.allWrites = []) (nextTracks : next.writeTree.Tracks)
    (inSync : InSync writes told viewCache)
    (handled : SyncTree.Handled next viewCache (Operation.operationForPath writes.path
      (.ackUserWrite [] (ImmutableTree.empty.setValue () []) true)) new) :
    InSync next told new := by
  have unseen : next.seen = [] := by
    rw [WriteTreeRef.seen, nothing]
    rfl
  have shown : ∀ data, next.shown data = data := by
    intro data
    rw [WriteTreeRef.shown, unseen]
    rfl
  obtain ⟨restTree, onward, -⟩ := Operation.operationForPath_ackUserWrite_below
    (ImmutableTree.empty.setValue () []) true [] writes.path
  rw [List.nil_append] at onward
  rw [onward] at handled
  obtain ⟨result, reached, rfl⟩ := handled
  obtain ⟨completeCache, -, processed⟩ := viewCache_of_reached reached
  have rejected : result.viewCache = (ViewProcessor.revertUserWrite next viewCache []).1 := processed
  rw [rejected]
  by_cases initialized : viewCache.cachedServerSnap.isFullyInitialized = true
  · have server := inSync.server initialized
    have lags : Lags next [] writes.seen viewCache := by
      refine ⟨inSync.complete initialized, ?_, fun _ _ => List.nil_prefix, ⟨_, rfl⟩, ?_⟩
      · rw [WriteTreeRef.Keeps, unseen]
        exact fun write member => absurd member List.not_mem_nil
      · rw [shown, server]
        exact (inSync.event (Or.inl initialized)).2
    have leads := lags.revertUserWrite nextTracks
    rw [server, ← samePlace] at leads
    exact leads.inSync
  · have tracked := tracked_revertUserWrite nextTracks.wellFormed inSync.wellFormed []
    have waits := waits_revertUserWrite nextTracks viewCache []
    have stillWaiting : ¬ (ViewProcessor.revertUserWrite next viewCache
        []).1.cachedServerSnap.isFullyInitialized = true := by
      rw [waits.server]
      exact initialized
    refine ⟨tracked.wellFormed, fun complete => absurd complete stillWaiting, fun known => ?_⟩
    obtain ⟨write, member, -⟩ := (WriteTreeRef.shadowing_iff nextTracks []).mp
      (known.resolve_left stillWaiting)
    rw [unseen] at member
    cases member

end ViewProcessor

end PhotoMap
