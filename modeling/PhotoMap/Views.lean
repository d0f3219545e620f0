/-
This file is about all the views of the client together. When they are in sync
with what the server has told, they are so after a write of the user, a message
of the server, the end of a pending write, and after a view is added or removed.
-/

import PhotoMap.Retired

namespace PhotoMap

open Overlay

namespace SyncTree

/-! ### A view that is added -/

section Adding

variable {writes : WriteTreeRef} {told : Node}

/-- What a pending write decides is calculated without the server's data. -/
theorem calculateCompleteEventCache_of_shadowed (server : Option Node) {node : Node}
    (shadowed : writes.shadowingWriteAtPath [] = some node) :
    writes.calculateCompleteEventCache server = some node := by
  rw [WriteTreeRef.shadowingWriteAtPath, List.append_nil] at shadowed
  rw [WriteTreeRef.calculateCompleteEventCache, WriteTree.calculateCompleteEventCache]
  simp only [Option.isNone_none, Bool.not_false, Bool.true_and, if_true]
  rw [WriteTree.shadowingWrite] at shadowed
  rw [shadowed]

/-- A view that is added with what is known of the server's data is in sync. -/
theorem inSync_initialViewCache (tracks : writes.writeTree.Tracks)
    (fits : writes.writeTree.Fits told) {serverCache : CacheNode}
    (formed : serverCache.node.WellFormed) (unfiltered : serverCache.isFiltered = false)
    (known : serverCache.isFullyInitialized = true →
      serverCache.node.dataAt = Data.below told.dataAt writes.path) :
    ViewProcessor.InSync writes told.dataAt (initialViewCache writes serverCache) := by
  have keeps := WriteTreeRef.keeps_of_fits tracks fits
  have serverFormed : ∀ node, (if serverCache.isFullyInitialized then some serverCache.node
      else none) = some node → node.WellFormed := by
    intro node given
    obtain ⟨-, same⟩ := Option.ite_none_right_eq_some.mp given
    cases same
    exact formed
  rw [initialViewCache]
  cases calculated : writes.calculateCompleteEventCache
      (if serverCache.isFullyInitialized then some serverCache.node else none) with
  | some eventCache =>
    have eventFormed := WriteTreeRef.wellFormed_calculateCompleteEventCache tracks.wellFormed
      serverFormed calculated
    refine ⟨⟨formed, unfiltered, eventFormed, rfl⟩, known, fun decided => ⟨rfl, ?_⟩⟩
    show eventCache.dataAt = _
    rcases decided with complete | shadowed
    · have initialized : serverCache.isFullyInitialized = true := complete
      obtain ⟨node, same, holds⟩ := WriteTreeRef.calculateCompleteEventCache_holds tracks formed
        (known initialized ▸ keeps)
      rw [if_pos initialized, same] at calculated
      cases calculated
      rw [holds.same, known initialized]
    · obtain ⟨node, shadowing⟩ := Option.isSome_iff_exists.mp shadowed
      have holds := WriteTreeRef.holds_complete tracks (fits.wellFormed.getChild writes.path)
        ((Node.dataAt_getChild told writes.path).symm ▸ keeps) shadowing
      rw [calculateCompleteEventCache_of_shadowed _ shadowing] at calculated
      cases calculated
      rw [holds.same, Node.dataAt_getChild]
      rfl
  | none =>
    have undecided : ¬ ViewProcessor.IsKnown writes ⟨⟨writes.calculateCompleteEventChildren
        serverCache.node, false, false⟩, serverCache⟩ := by
      rintro (complete | shadowed)
      · have initialized : serverCache.isFullyInitialized = true := complete
        obtain ⟨node, same, -⟩ := WriteTreeRef.calculateCompleteEventCache_holds tracks formed
          (known initialized ▸ keeps)
        rw [if_pos initialized, same] at calculated
        cases calculated
      · obtain ⟨node, shadowing⟩ := Option.isSome_iff_exists.mp shadowed
        rw [calculateCompleteEventCache_of_shadowed _ shadowing] at calculated
        cases calculated
    refine ⟨⟨formed, unfiltered, ?_, rfl⟩, known, fun decided => absurd decided undecided⟩
    exact WriteTreeRef.wellFormed_calculateCompleteEventChildren tracks.wellFormed formed

end Adding

/-! ### All the views -/

/-- All the views of the client are in sync with what it has been told, and its pending writes
fit that. -/
structure Synced (tree : SyncTree) (told : Node) : Prop where
  tracks : tree.pendingWriteTree.Tracks
  fits : tree.pendingWriteTree.Fits told
  views : ∀ view ∈ tree.syncPointTree.forEach,
    ViewProcessor.InSync ⟨view.1, tree.pendingWriteTree⟩ told.dataAt view.2

variable {tree : SyncTree} {told : Node}

/-- What is known of the server's data for a place is what has been told of it. -/
theorem Synced.serverCacheForQuery (synced : tree.Synced told) (path : Path) :
    (tree.serverCacheForQuery path).node.WellFormed ∧
      ((tree.serverCacheForQuery path).isFullyInitialized = true →
        (tree.serverCacheForQuery path).node.dataAt = Data.below told.dataAt path) := by
  have complete : ∀ view ∈ tree.syncPointTree.forEach, ∀ node,
      view.2.completeServerSnap = some node →
        node.WellFormed ∧ node.dataAt = Data.below told.dataAt view.1 := by
    intro view member node given
    obtain ⟨initialized, same⟩ := Option.ite_none_right_eq_some.mp given
    cases same
    have inSync := synced.views view member
    exact ⟨inSync.wellFormed.serverFormed, inSync.server initialized⟩
  rw [SyncTree.serverCacheForQuery]
  split
  · rename_i serverCacheNode located
    obtain ⟨above, rest, viewCache, rfl, value, given⟩ :=
      ImmutableTree.exists_of_findOnPath located
    obtain ⟨node, known, rfl⟩ := Option.map_eq_some_iff.mp given
    obtain ⟨formed, same⟩ := complete (above, viewCache)
      (ImmutableTree.mem_forEach_of_valueAtPath value) node known
    refine ⟨formed.getChild rest, fun _ => ?_⟩
    rw [Node.dataAt_getChild, same]
    exact funext fun other => congrArg told.dataAt (List.append_assoc above rest other).symm
  · refine ⟨?_, fun initialized => absurd initialized Bool.false_ne_true⟩
    refine List.foldlRecOn (motive := Node.WellFormed) _ _ Node.wellFormed_emptyNode
      fun node nodeFormed child member => nodeFormed.updateImmediateChild child.1 ?_
    obtain ⟨found, there, same⟩ := List.mem_filterMap.mp member
    obtain ⟨server, known, rfl⟩ := Option.map_eq_some_iff.mp same
    exact (complete _ (ImmutableTree.mem_forEach_subtreeAtPath
      (ImmutableTree.mem_forEach_childValues there)) server known).1

/-- Listening at a place keeps all the views in sync, the new one included. -/
theorem Synced.addEventRegistration (synced : tree.Synced told) (path : Path) :
    (tree.addEventRegistration path).1.Synced told := by
  rw [SyncTree.addEventRegistration]
  split
  · exact synced
  · obtain ⟨formed, known⟩ := synced.serverCacheForQuery path
    have unfiltered : (tree.serverCacheForQuery path).isFiltered = false := by
      rw [SyncTree.serverCacheForQuery]
      split <;> rfl
    refine ⟨synced.tracks, synced.fits, fun view member => ?_⟩
    rcases ImmutableTree.mem_forEach_setValue member with rfl | old
    · exact inSync_initialViewCache synced.tracks synced.fits formed unfiltered known
    · exact synced.views view old

theorem Synced.removeEventRegistration (synced : tree.Synced told) (path : Path) :
    (tree.removeEventRegistration path).Synced told := by
  rw [SyncTree.removeEventRegistration]
  split
  · exact ⟨synced.tracks, synced.fits, fun view member =>
      synced.views view (ImmutableTree.mem_forEach_removeValueAtPath member)⟩
  · exact synced

/-! ### Operations on all the views -/

theorem keeps_at {writeTree : WriteTree} (place : Path) (tracks : writeTree.Tracks)
    (fits : writeTree.Fits told) :
    (⟨place, writeTree⟩ : WriteTreeRef).Keeps (Data.below told.dataAt place) :=
  WriteTreeRef.keeps_of_fits tracks fits

theorem Synced.viewsFormed (synced : tree.Synced told) :
    ∀ view ∈ tree.syncPointTree.forEach, view.2.WellFormed :=
  fun view member => (synced.views view member).wellFormed

section Operations

variable {operation : Operation} (formed : tree.pendingWriteTree.visibleWrites.WellFormed)
  (viewsFormed : ∀ view ∈ tree.syncPointTree.forEach, view.2.WellFormed)
  (operationFormed : operation.WellFormed)

include formed viewsFormed operationFormed

/-- No operation fails on the way through the views. -/
theorem exists_applied : ∃ next raised,
    tree.applyOperationToSyncPoints operation = some (next, raised) ∧
      next.pendingWriteTree = tree.pendingWriteTree ∧
      Passed tree.pendingWriteTree [] operation tree.syncPointTree.forEach
        next.syncPointTree.forEach raised := by
  obtain ⟨applied, done, passed⟩ := applyOperationHelper_passes formed tree.syncPointTree [] none
    operation operationFormed (fun _ given => absurd given (Option.some_ne_none _).symm) viewsFormed
  exact ⟨_, _, congrArg (Option.map _) done, rfl, passed⟩

theorem passed_of_applied {next : SyncTree} {raised : Raised}
    (done : tree.applyOperationToSyncPoints operation = some (next, raised)) :
    next.pendingWriteTree = tree.pendingWriteTree ∧
      Passed tree.pendingWriteTree [] operation tree.syncPointTree.forEach
        next.syncPointTree.forEach raised := by
  obtain ⟨reached, told, applied, same⟩ := exists_applied formed viewsFormed operationFormed
  cases applied.symm.trans done
  exact same

end Operations

/-- The views are in sync after an operation that keeps each of them so. -/
theorem synced_of_applied {operation : Operation} {next : SyncTree} {raised : Raised}
    (done : tree.applyOperationToSyncPoints operation = some (next, raised))
    (tracks : tree.pendingWriteTree.Tracks)
    (viewsFormed : ∀ view ∈ tree.syncPointTree.forEach, view.2.WellFormed)
    (operationFormed : operation.WellFormed) (fits : next.pendingWriteTree.Fits told)
    (kept : tree.pendingWriteTree.Fits told → ∀ view ∈ tree.syncPointTree.forEach, ∀ new,
      Handled ⟨view.1, tree.pendingWriteTree⟩ view.2 (operation.operationForPath view.1) new →
        ViewProcessor.InSync ⟨view.1, tree.pendingWriteTree⟩ told.dataAt new) :
    next.Synced told := by
  obtain ⟨same, passed⟩ := passed_of_applied tracks.wellFormed viewsFormed operationFormed done
  refine ⟨same ▸ tracks, fits, fun view member => ?_⟩
  rw [same] at fits ⊢
  obtain ⟨old, there, place, handled⟩ := passed.exists_old view member
  rw [← place]
  exact kept fits old there view.2 handled

/-! ### Writes of the user -/

/-- A write of the user keeps all the views in sync. -/
theorem Synced.userWrite {recorded next : SyncTree} {raised : Raised} {operation : Operation}
    (synced : tree.Synced told)
    (done : recorded.applyOperationToSyncPoints operation = some (next, raised))
    (sameViews : recorded.syncPointTree = tree.syncPointTree)
    (tracks : recorded.pendingWriteTree.Tracks)
    (written : pendingWrites recorded.pendingWriteTree.allWrites =
      pendingWrites tree.pendingWriteTree.allWrites ++ operation.writes)
    (operationFormed : operation.WellFormed) (isWrite : operation.IsWriteOf true)
    (fits : next.pendingWriteTree.Fits told) : next.Synced told := by
  have viewsFormed := synced.viewsFormed
  rw [← sameViews] at viewsFormed
  refine synced_of_applied done tracks viewsFormed operationFormed fits
    fun _ view member new handled => ?_
  rw [sameViews] at member
  have samePlace : (⟨view.1, recorded.pendingWriteTree⟩ : WriteTreeRef).path =
    (⟨view.1, tree.pendingWriteTree⟩ : WriteTreeRef).path := rfl
  exact (synced.views view member).userWrite samePlace written synced.tracks tracks operationFormed
    isWrite handled

theorem Synced.applyUserOverwrite {next : SyncTree} {raised : Raised} (synced : tree.Synced told)
    {path : Path} {newData : Node} {writeId : Int} (formed : newData.WellFormed)
    (done : tree.applyUserOverwrite path newData writeId true = some (next, raised))
    (fits : next.pendingWriteTree.Fits told) : next.Synced told := by
  have tracks := synced.tracks.addOverwrite formed path writeId
  have applied : SyncTree.applyOperationToSyncPoints { tree with
      pendingWriteTree := tree.pendingWriteTree.addOverwrite path newData writeId true }
    (.overwrite true path newData) = some (next, raised) := done
  refine synced.userWrite applied rfl tracks ?_ formed rfl fits
  exact WriteTree.pendingWrites_append _ _

theorem Synced.applyUserMerge {next : SyncTree} {raised : Raised} (synced : tree.Synced told)
    {path : Path} {changed : CompoundWrite} {writeId : Int} (formed : changed.WellFormed)
    (done : tree.applyUserMerge path changed writeId = some (next, raised))
    (fits : next.pendingWriteTree.Fits told) : next.Synced told := by
  have tracks := synced.tracks.addMerge formed path writeId
  have applied : SyncTree.applyOperationToSyncPoints { tree with
      pendingWriteTree := tree.pendingWriteTree.addMerge path changed writeId }
    (.merge true path changed) = some (next, raised) := done
  have isWrite : (Operation.merge true path changed).IsWriteOf true := ⟨rfl, nofun⟩
  refine synced.userWrite applied rfl tracks ?_ formed isWrite fits
  refine (WriteTree.pendingWrites_append _ _).trans (congrArg _ ?_)
  exact List.append_nil _

/-! ### Messages of the server -/

/-- The server's data after writes the server tells of. -/
def tell (told : Node) (new : List (Path × Node)) : Node :=
  new.foldl (fun told write => told.updateChild write.1 write.2) told

/-- A message of the server keeps all the views in sync. -/
theorem Synced.serverWrite {next : SyncTree} {raised : Raised} {operation : Operation}
    (synced : tree.Synced told) (operationFormed : operation.WellFormed)
    (isWrite : operation.IsWriteOf false)
    (done : tree.applyOperationToSyncPoints operation = some (next, raised))
    (fits : next.pendingWriteTree.Fits (tell told operation.writes)) :
    next.Synced (tell told operation.writes) := by
  have written : (tell told operation.writes).dataAt =
      Data.afterAll Node.dataAt operation.writes told.dataAt :=
    synced.fits.wellFormed.dataAt_foldl_updateChild operationFormed.writes
  refine synced_of_applied done synced.tracks synced.viewsFormed operationFormed fits
    fun fitsNew view member new handled => ?_
  have keeps := keeps_at view.1 synced.tracks synced.fits
  have keepsNew := keeps_at view.1 synced.tracks fitsNew
  rw [written] at keepsNew ⊢
  exact (synced.views view member).serverWrite synced.tracks operationFormed isWrite keeps keepsNew
    handled

/-- A listen that completes keeps all the views in sync. -/
theorem Synced.listenComplete {next : SyncTree} {raised : Raised} (synced : tree.Synced told)
    {path : Path} (sent : ∀ view ∈ tree.syncPointTree.forEach, path <+: view.1 →
      view.2.server = Data.below told.dataAt view.1)
    (done : tree.applyListenComplete path = some (next, raised))
    (fits : next.pendingWriteTree.Fits told) : next.Synced told := by
  have operationFormed : (Operation.listenComplete path).WellFormed := trivial
  refine synced_of_applied done synced.tracks synced.viewsFormed operationFormed fits
    fun _ view member new handled => ?_
  have keeps := keeps_at view.1 synced.tracks synced.fits
  exact (synced.views view member).listenComplete synced.tracks keeps (sent view member) handled

/-! ### The end of pending writes -/

theorem find?_of_first {record : WriteRecord} {records : List WriteRecord} {writeId : Int}
    (first : tree.pendingWriteTree.allWrites = record :: records)
    (identified : record.writeId = writeId) :
    tree.pendingWriteTree.allWrites.find? (fun record => record.writeId == writeId) =
      some record := by
  rw [first, List.find?_cons, identified, beq_self_eq_true]

/-- The first pending write can be ended. -/
theorem Synced.exists_ackUserWrite {record : WriteRecord} {records : List WriteRecord}
    {writeId : Int} (synced : tree.Synced told)
    (first : tree.pendingWriteTree.allWrites = record :: records)
    (identified : record.writeId = writeId)
    (removable : tree.pendingWriteTree.Removable writeId) (revert : Bool) :
    ∃ done, tree.ackUserWrite writeId revert = some done := by
  have located := find?_of_first first identified
  have index : tree.pendingWriteTree.allWrites.findIdx?
      (fun record => record.writeId == writeId) = some 0 := by
    rw [first, List.findIdx?_cons, identified, beq_self_eq_true, if_pos rfl]
  obtain ⟨⟨rest, reevaluate⟩, removed⟩ :
      ∃ removed, tree.pendingWriteTree.removeWriteId writeId = some removed := by
    rw [WriteTree.removeWriteId, index, Option.bind_some, first, List.getElem?_cons_zero]
    exact ⟨_, rfl⟩
  rw [SyncTree.ackUserWrite, located, Option.bind_some, removed, Option.bind_some]
  dsimp only
  split
  · exact ⟨_, rfl⟩
  · have tracks := synced.tracks.removed removable removed
    have operationFormed : (Operation.ackUserWrite record.path (affectedTree record)
      revert).WellFormed := trivial
    obtain ⟨next, raised, done, -⟩ :=
      @exists_applied { tree with pendingWriteTree := rest } _ tracks.wellFormed synced.viewsFormed
        operationFormed
    exact ⟨_, done⟩

/-- The end of the first pending write, inverted: the record is out, and an operation went through
the views unless a later record shadows it. -/
theorem ackUserWrite_inv {next : SyncTree} {raised : Raised} {record : WriteRecord}
    {records : List WriteRecord} {writeId : Int} {revert : Bool} (synced : tree.Synced told)
    (first : tree.pendingWriteTree.allWrites = record :: records)
    (identified : record.writeId = writeId)
    (removable : tree.pendingWriteTree.Removable writeId)
    (done : tree.ackUserWrite writeId revert = some (next, raised)) :
    ∃ rest : WriteTree, rest.allWrites = records ∧ rest.Tracks ∧
      ((raised = [] ∧ next = { tree with pendingWriteTree := rest } ∧
          ∃ later ∈ records, later.containsPath record.path = true) ∨
        SyncTree.applyOperationToSyncPoints { tree with pendingWriteTree := rest }
          (.ackUserWrite record.path (affectedTree record) revert) = some (next, raised)) := by
  obtain ⟨write, found, done⟩ := Option.bind_eq_some_iff.mp done
  obtain ⟨⟨rest, reevaluate⟩, removed, done⟩ := Option.bind_eq_some_iff.mp done
  have located := find?_of_first first identified
  obtain rfl : record = write := Option.some.inj (located.symm.trans found)
  have tracks := synced.tracks.removed removable removed
  obtain ⟨before, gone, after, split, left, removal⟩ := WriteTree.removeWriteId_eq_some removed
  -- nothing is recorded before the first record
  obtain ⟨rfl, rfl, rfl⟩ : before = [] ∧ gone = record ∧ after = records := by
    have whole := first.symm.trans split.records
    cases before with
    | nil =>
      obtain ⟨same, others⟩ := List.cons.inj whole
      exact ⟨rfl, same.symm, others.symm⟩
    | cons head others =>
      have same := (List.cons.inj whole).1
      exact absurd (same ▸ identified) (split.first head List.mem_cons_self)
  refine ⟨rest, left, tracks, ?_⟩
  generalize rest.visibleWrites = visibleWrites at removal
  cases removal with
  | hidden invisible =>
    have visible := synced.tracks.visible gone (first ▸ List.mem_cons_self)
    exact absurd (visible.symm.trans invisible) nofun
  | shadowed later =>
    cases done
    exact Or.inl ⟨rfl, rfl, later⟩
  | rebuilt => exact Or.inr done
  | taken notShadowed noneWithin => exact Or.inr done

/-- The end of the first pending write keeps all the views in sync. -/
theorem Synced.ackUserWrite {next : SyncTree} {raised : Raised} {record : WriteRecord}
    {records : List WriteRecord} {writeId : Int} {revert : Bool} (synced : tree.Synced told)
    (first : tree.pendingWriteTree.allWrites = record :: records)
    (identified : record.writeId = writeId)
    (removable : tree.pendingWriteTree.Removable writeId)
    (noLeaf : revert = false → ViewProcessor.NoLeafAbove record.writes told.dataAt)
    (done : tree.ackUserWrite writeId revert = some (next, raised))
    (fits : next.pendingWriteTree.Fits told) : next.Synced told := by
  obtain ⟨rest, left, tracks, ended⟩ := ackUserWrite_inv synced first identified removable done
  have recordFormed := synced.tracks.formed record (first ▸ List.mem_cons_self)
  have samePlace : ∀ place, (⟨place, rest⟩ : WriteTreeRef).path =
    (⟨place, tree.pendingWriteTree⟩ : WriteTreeRef).path := fun _ => rfl
  have out : tree.pendingWriteTree.allWrites = record :: rest.allWrites := left ▸ first
  rcases ended with ⟨-, rfl, later⟩ | applied
  · refine ⟨tracks, fits, fun view member => ?_⟩
    exact (synced.views view member).shadowed (samePlace view.1) out synced.tracks tracks
      recordFormed (keeps_at view.1 tracks fits) (left ▸ later)
  · have operationFormed : (Operation.ackUserWrite record.path (affectedTree record)
      revert).WellFormed := trivial
    refine synced_of_applied applied tracks synced.viewsFormed operationFormed fits
      fun fitsNew view member new handled => ?_
    exact (synced.views view member).acknowledge (samePlace view.1) out synced.tracks tracks
      recordFormed (keeps_at view.1 tracks fitsNew) revert noLeaf handled

/-- Giving up all the pending writes keeps all the views in sync. -/
theorem Synced.removeAllWrites {next : SyncTree} {raised : Raised} (synced : tree.Synced told)
    (done : tree.removeAllWrites = some (next, raised))
    (fits : next.pendingWriteTree.Fits told) : next.Synced told := by
  have tracks := synced.tracks.removeAllWrites
  have samePlace : ∀ place, (⟨place, tree.pendingWriteTree.removeAllWrites⟩ : WriteTreeRef).path =
    (⟨place, tree.pendingWriteTree⟩ : WriteTreeRef).path := fun _ => rfl
  rw [SyncTree.removeAllWrites] at done
  split at done
  · rename_i nothing
    cases done
    refine ⟨tracks, fits, fun view member => ?_⟩
    exact (synced.views view member).of_same_records (samePlace view.1)
      (List.isEmpty_iff.mp nothing).symm synced.tracks tracks
  · have operationFormed : (Operation.ackUserWrite [] (ImmutableTree.empty.setValue () [])
      true).WellFormed := trivial
    refine synced_of_applied done tracks synced.viewsFormed operationFormed fits
      fun _ view member new handled => ?_
    exact (synced.views view member).removeAllWrites (samePlace view.1) rfl tracks handled

end SyncTree

end PhotoMap
