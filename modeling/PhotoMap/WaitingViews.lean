/-
This file is about a view that waits for the data of its place. Until all of it
has been sent, what the view shows is not complete, unless a pending write
decides all that is there. Whatever the server sends of a part and however
pending writes end, the view still waits, and what a pending write decides stays
as it is.
-/

import PhotoMap.Acknowledgements

namespace PhotoMap

open Overlay

namespace ViewProcessor

variable {writes : WriteTreeRef} {viewCache : ViewCache}

/-- The server's data is as complete as before, and what is shown is unchanged when a pending write
decides all of it. -/
structure Waits (writes : WriteTreeRef) (viewCache : ViewCache) (processed : Processed) : Prop where
  server : processed.1.cachedServerSnap.isFullyInitialized =
    viewCache.cachedServerSnap.isFullyInitialized
  event : (writes.shadowingWriteAtPath []).isSome = true →
    processed.1.cachedEventSnap = viewCache.cachedEventSnap

theorem waits_refl (writes : WriteTreeRef) (viewCache : ViewCache) (tracked : ChildChanges) :
    Waits writes viewCache (viewCache, tracked) :=
  ⟨rfl, fun _ => rfl⟩

theorem Waits.trans {first second : Processed} (before : Waits writes viewCache first)
    (after : Waits writes first.1 second) : Waits writes viewCache second :=
  ⟨after.server.trans before.server, fun shadowed =>
    (after.event shadowed).trans (before.event shadowed)⟩

/-- A write that decides all that is at the place decides what is below it. -/
theorem shadowed_below (tracks : writes.writeTree.Tracks)
    (shadowed : (writes.shadowingWriteAtPath []).isSome = true) (path : Path) :
    (writes.shadowingWriteAtPath path).isSome = true := by
  obtain ⟨write, member, covers⟩ := (WriteTreeRef.shadowing_iff tracks []).mp shadowed
  exact (WriteTreeRef.shadowing_iff tracks path).mpr
    ⟨write, member, covers.trans List.nil_prefix⟩

section Operations

variable (tracks : writes.writeTree.Tracks)

include tracks

theorem waits_generateEventCache (viewCache : ViewCache) (changePath : Path) :
    Waits writes viewCache (generateEventCacheAfterServerEvent writes viewCache changePath) := by
  constructor
  · unfold generateEventCacheAfterServerEvent
    dsimp only
    split <;> rfl
  · intro shadowed
    rw [generateEventCache_of_shadowed _ (shadowed_below tracks shadowed changePath)]

theorem waits_applyServerOverwrite (viewCache : ViewCache) (childKey : Text) (childPath : Path)
    (changedSnap : Node) :
    Waits writes viewCache
      (applyServerOverwrite writes viewCache (childKey :: childPath) changedSnap) := by
  rw [applyServerOverwrite]
  dsimp only
  split
  · exact waits_refl writes viewCache []
  · have waits := waits_generateEventCache tracks (viewCache.updateServerSnap
      (IndexedFilter.updateChildIn viewCache.cachedServerSnap.node childKey
        ((viewCache.cachedServerSnap.node.getImmediateChild childKey).updateChild childPath
          changedSnap) childPath).1 viewCache.cachedServerSnap.isFullyInitialized false)
      (childKey :: childPath)
    exact ⟨waits.server, waits.event⟩

omit tracks in
theorem waits_applyEach {Change : Type} (step : ViewCache → Change → Processed)
    (each : ∀ viewCache change, Waits writes viewCache (step viewCache change))
    (viewCache : ViewCache) (changes : List Change) :
    Waits writes viewCache (applyEach step viewCache changes) := by
  induction changes generalizing viewCache with
  | nil => exact waits_refl writes viewCache []
  | cons change rest inductionHypothesis =>
    have next := (each viewCache change).trans (inductionHypothesis (step viewCache change).1)
    rw [applyEach_cons]
    exact ⟨next.server, next.event⟩

theorem waits_applyServerMerge (viewCache : ViewCache) (path : Path) (changed : CompoundWrite) :
    Waits writes viewCache (applyServerMerge writes viewCache path changed) := by
  rw [applyServerMerge]
  split
  · exact waits_refl writes viewCache []
  · refine waits_applyEach _ (fun viewCache child => ?_) viewCache _
    exact waits_applyServerOverwrite tracks viewCache child.1 [] _

/-- An acknowledgement does not complete the server's data. -/
theorem waits_ackUserWrite (waiting : viewCache.cachedServerSnap.isFullyInitialized = false)
    (ackPath : Path) (affectedTree : ImmutableTree Unit) :
    Waits writes viewCache (ackUserWrite writes viewCache ackPath affectedTree) := by
  rw [ackUserWrite]
  split
  · exact waits_refl writes viewCache []
  · split
    · cases ackPath with
      | nil =>
        rw [CacheNode.isCompleteForPath, waiting, Bool.and_false, Bool.false_and, Bool.or_false,
          if_neg Bool.false_ne_true]
        split
        · exact waits_applyServerMerge tracks viewCache [] _
        · exact waits_refl writes viewCache []
      | cons childKey childPath =>
        split
        · exact waits_applyServerOverwrite tracks viewCache childKey childPath _
        · exact waits_refl writes viewCache []
    · exact waits_applyServerMerge tracks viewCache ackPath _

theorem waits_revertUserWrite (viewCache : ViewCache) (path : Path) :
    Waits writes viewCache (revertUserWrite writes viewCache path) := by
  constructor
  · rw [revertUserWrite]
    split <;> rfl
  · intro shadowed
    rw [revertUserWrite, if_pos (shadowed_below tracks shadowed path)]

theorem waits_listenComplete (viewCache : ViewCache) (childKey : Text) (childPath : Path) :
    Waits writes viewCache (listenComplete writes viewCache (childKey :: childPath)) := by
  have waits := waits_generateEventCache tracks (viewCache.updateServerSnap
    viewCache.cachedServerSnap.node (viewCache.cachedServerSnap.isFullyInitialized || false)
    viewCache.cachedServerSnap.isFiltered) (childKey :: childPath)
  exact ⟨waits.server.trans (Bool.or_false _), waits.event⟩

end Operations

end ViewProcessor

end PhotoMap
