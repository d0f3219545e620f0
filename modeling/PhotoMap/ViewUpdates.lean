/-
This file says what a write of the user and a change of the server do to a view
that has all the data of its place. What is shown should be the server's data
after the pending writes as they are seen from the place of the view. A write of
the user is made in what is shown, and after a change of the server what is shown
is brought up to date by replacing what is below one path, although it is nowhere
calculated in full.
-/

import PhotoMap.SeenWrites
import PhotoMap.ViewChanges

namespace PhotoMap

open Overlay

/-! ### Replacing what is below a path of a node -/

namespace IndexedFilter

variable {node newChildSnap : Node}

/-- A child that is changed below the affected path alone is settled there. -/
theorem settled_updateChild (wellFormed : node.WellFormed) (new : newChildSnap.WellFormed)
    (affectedPath : Path) :
    Settled node (node.updateChild affectedPath newChildSnap) affectedPath := by
  intro same _
  rw [Node.dataAt_getChild, Node.dataAt_getChild, wellFormed.dataAt_updateChild affectedPath new]
    at same
  have written : Data.below (Data.overwrite affectedPath newChildSnap.dataAt node.dataAt)
      affectedPath = newChildSnap.dataAt :=
    funext (Data.overwrite_append affectedPath · newChildSnap.dataAt node.dataAt)
  rw [written] at same
  rw [wellFormed.dataAt_updateChild affectedPath new, ← same]
  exact (node.solid_dataAt.overwrite_self affectedPath).symm

theorem overwrite_updateChild (wellFormed : node.WellFormed) (new : newChildSnap.WellFormed)
    (childKey : Text) (childPath : Path) :
    Data.overwrite [childKey]
        ((node.getImmediateChild childKey).updateChild childPath newChildSnap).dataAt node.dataAt =
      Data.overwrite (childKey :: childPath) newChildSnap.dataAt node.dataAt := by
  have childFormed := wellFormed.getImmediateChild childKey
  rw [← wellFormed.dataAt_updateChild (childKey :: childPath) new,
    ← wellFormed.dataAt_updateChild [childKey] (childFormed.updateChild childPath new)]
  rfl

/-- Replacing a child that is changed below a path writes there. -/
theorem dataAt_updateChildIn_updateChild (wellFormed : node.WellFormed)
    (new : newChildSnap.WellFormed) (childKey : Text) (childPath : Path) :
    (updateChildIn node childKey
        ((node.getImmediateChild childKey).updateChild childPath newChildSnap) childPath).1.dataAt =
      Data.overwrite (childKey :: childPath) newChildSnap.dataAt node.dataAt := by
  have childFormed := wellFormed.getImmediateChild childKey
  rw [dataAt_updateChildIn wellFormed (childFormed.updateChild childPath new)
    (settled_updateChild childFormed new childPath), overwrite_updateChild wellFormed new]

end IndexedFilter

/-! ### Views with all the data of their place -/

/-- The caches are as the client builds them, and both are complete. -/
structure ViewCache.Complete (viewCache : ViewCache) : Prop extends viewCache.WellFormed where
  serverInitialized : viewCache.cachedServerSnap.isFullyInitialized = true
  eventInitialized : viewCache.cachedEventSnap.isFullyInitialized = true

theorem CacheNode.isCompleteForChild_of_initialized {cache : CacheNode}
    (initialized : cache.isFullyInitialized = true) (unfiltered : cache.isFiltered = false)
    (childKey : Text) : cache.isCompleteForChild childKey = true := by
  rw [isCompleteForChild, initialized, unfiltered]
  rfl

theorem CacheNode.isCompleteForPath_of_initialized {cache : CacheNode}
    (initialized : cache.isFullyInitialized = true) (unfiltered : cache.isFiltered = false)
    (path : Path) : cache.isCompleteForPath path = true := by
  cases path with
  | nil => rw [isCompleteForPath, initialized, unfiltered]; rfl
  | cons childKey path => exact isCompleteForChild_of_initialized initialized unfiltered childKey

namespace ViewCache

variable {viewCache : ViewCache}

theorem WellFormed.eventComplete (wellFormed : viewCache.WellFormed)
    (initialized : viewCache.cachedEventSnap.isFullyInitialized = true) (path : Path) :
    viewCache.cachedEventSnap.isCompleteForPath path = true :=
  CacheNode.isCompleteForPath_of_initialized initialized wellFormed.eventUnfiltered path

theorem Complete.updateServerSnap (complete : viewCache.Complete) {node : Node}
    (new : node.WellFormed) : (viewCache.updateServerSnap node true false).Complete :=
  { complete.toWellFormed.updateServerSnap new true with
    serverInitialized := rfl
    eventInitialized := complete.eventInitialized }

/-- The data of the server is that of a node. -/
theorem solid_server (viewCache : ViewCache) : viewCache.server.Solid :=
  viewCache.cachedServerSnap.node.solid_dataAt

end ViewCache

namespace ViewProcessor

variable {writes : WriteTreeRef} {viewCache : ViewCache}

/-- Caches that are complete, with the data they have. -/
structure Leads (processed : Processed) (server event : Data Text Leaf) : Prop where
  complete : processed.1.Complete
  server : processed.1.server = server
  event : processed.1.event = event

theorem leads_refl (complete : viewCache.Complete) :
    Leads (viewCache, []) viewCache.server viewCache.event :=
  ⟨complete, rfl, rfl⟩

theorem Leads.append {processed : Processed} {server event : Data Text Leaf}
    (leads : Leads processed server event) (before : ChildChanges) :
    Leads (processed.1, before ++ processed.2) server event :=
  ⟨leads.complete, leads.server, leads.event⟩

/-- Replacing what is shown, when the server's data is complete. -/
theorem leads_updateEventSnap (wellFormed : viewCache.WellFormed)
    (initialized : viewCache.cachedServerSnap.isFullyInitialized = true) {node : Node}
    (new : node.WellFormed) (tracked : ChildChanges) :
    Leads (viewCache.updateEventSnap node true false, tracked) viewCache.server node.dataAt where
  complete := { wellFormed.updateEventSnap new true with
    serverInitialized := initialized
    eventInitialized := rfl }
  server := rfl
  event := rfl

/-! ### What is shown after a change of the server -/

theorem generateEventCache_of_shadowed (viewCache : ViewCache) {changePath : Path}
    (shadowed : (writes.shadowingWriteAtPath changePath).isSome = true) :
    generateEventCacheAfterServerEvent writes viewCache changePath = (viewCache, []) :=
  if_pos shadowed

/-- A change at the place of the view itself makes what is shown complete. -/
theorem leads_generateEventCache_root (tracks : writes.writeTree.Tracks)
    (wellFormed : viewCache.WellFormed)
    (initialized : viewCache.cachedServerSnap.isFullyInitialized = true)
    (keeps : writes.Keeps viewCache.server)
    (unshadowed : writes.shadowingWriteAtPath [] = none) :
    Leads (generateEventCacheAfterServerEvent writes viewCache []) viewCache.server
      (writes.shown viewCache.server) := by
  obtain ⟨node, calculated, holds⟩ :=
    WriteTreeRef.calculateCompleteEventCache_holds tracks wellFormed.serverFormed keeps
  have known : viewCache.completeServerSnap = some viewCache.cachedServerSnap.node :=
    if_pos initialized
  unfold generateEventCacheAfterServerEvent
  rw [unshadowed]
  dsimp only
  rw [if_neg (by rw [Option.isSome_none]; exact Bool.false_ne_true), List.isEmpty_nil, Bool.or_true,
    if_neg (by rw [wellFormed.serverUnfiltered]; exact Bool.false_ne_true), known, calculated,
    Option.getD_some]
  exact holds.same ▸ leads_updateEventSnap wellFormed initialized holds.wellFormed _

/-- After a server event, what is shown below its path is what should be. -/
theorem leads_generateEventCache (tracks : writes.writeTree.Tracks) (complete : viewCache.Complete)
    (keeps : writes.Keeps viewCache.server) (changePath : Path)
    (unshadowed : writes.shadowingWriteAtPath changePath = none) :
    Leads (generateEventCacheAfterServerEvent writes viewCache changePath)
      viewCache.server (Data.overwrite changePath
        (Data.below (writes.shown viewCache.server) changePath) viewCache.event) := by
  cases changePath with
  | nil =>
    exact leads_generateEventCache_root tracks complete.toWellFormed complete.serverInitialized
      keeps unshadowed
  | cons childKey childPath =>
    have eventFormed := complete.eventFormed
    obtain ⟨update, calculated, holds⟩ :=
      WriteTreeRef.calculateEventCacheAfterServerOverwrite_holds tracks complete.serverFormed keeps
        unshadowed
    have childFormed := (eventFormed.getImmediateChild childKey).updateChild childPath
      holds.wellFormed
    have written := IndexedFilter.dataAt_updateChildIn_updateChild eventFormed holds.wellFormed
      childKey childPath
    rw [holds.same] at written
    unfold generateEventCacheAfterServerEvent
    rw [unshadowed]
    dsimp only
    rw [if_neg (by rw [Option.isSome_none]; exact Bool.false_ne_true), complete.eventInitialized,
      Bool.true_or, if_pos (CacheNode.isCompleteForChild_of_initialized complete.eventInitialized
        complete.eventUnfiltered childKey), calculated]
    exact written ▸ leads_updateEventSnap complete.toWellFormed complete.serverInitialized
      (IndexedFilter.wellFormed_updateChildIn eventFormed childFormed childKey childPath) _

/-- All the data of the place, sent by the server, completes the view. -/
theorem leads_applyServerOverwrite_root (tracks : writes.writeTree.Tracks)
    (wellFormed : viewCache.WellFormed) {changedSnap : Node} (snapFormed : changedSnap.WellFormed)
    (keeps : writes.Keeps changedSnap.dataAt)
    (shadowed : (writes.shadowingWriteAtPath []).isSome = true →
      viewCache.cachedEventSnap.isFullyInitialized = true) :
    Leads (applyServerOverwrite writes viewCache [] changedSnap) changedSnap.dataAt
      (if (writes.shadowingWriteAtPath []).isSome then viewCache.event
      else writes.shown changedSnap.dataAt) := by
  have updated := wellFormed.updateServerSnap snapFormed true
  rw [applyServerOverwrite]
  by_cases covered : (writes.shadowingWriteAtPath []).isSome = true
  · rw [if_pos covered, generateEventCache_of_shadowed _ covered]
    exact leads_refl { updated with
      serverInitialized := rfl
      eventInitialized := shadowed covered }
  · rw [if_neg covered]
    exact leads_generateEventCache_root tracks updated rfl keeps
      (Option.not_isSome_iff_eq_none.mp covered)

/-- An overwrite by the server is made in its data, and what is shown is brought up to date below
its path unless a pending write shadows it. -/
theorem leads_applyServerOverwrite (tracks : writes.writeTree.Tracks)
    (complete : viewCache.Complete) {changedSnap : Node} (snapFormed : changedSnap.WellFormed)
    (changePath : Path)
    (keeps : writes.Keeps (Data.overwrite changePath changedSnap.dataAt viewCache.server)) :
    Leads (applyServerOverwrite writes viewCache changePath changedSnap)
      (Data.overwrite changePath changedSnap.dataAt viewCache.server)
      (if (writes.shadowingWriteAtPath changePath).isSome then viewCache.event
      else Data.overwrite changePath (Data.below (writes.shown
        (Data.overwrite changePath changedSnap.dataAt viewCache.server)) changePath)
          viewCache.event) := by
  cases changePath with
  | nil =>
    exact leads_applyServerOverwrite_root tracks complete.toWellFormed snapFormed keeps
      fun _ => complete.eventInitialized
  | cons childKey childPath =>
    have serverFormed := complete.serverFormed
    have childFormed := (serverFormed.getImmediateChild childKey).updateChild childPath snapFormed
    have known := CacheNode.isCompleteForChild_of_initialized complete.serverInitialized
      complete.serverUnfiltered childKey
    have written := IndexedFilter.dataAt_updateChildIn_updateChild serverFormed snapFormed childKey
      childPath
    have updated := complete.updateServerSnap
      (IndexedFilter.wellFormed_updateChildIn serverFormed childFormed childKey childPath)
    rw [applyServerOverwrite]
    dsimp only
    rw [known, Bool.not_true, Bool.false_and, if_neg Bool.false_ne_true,
      complete.serverInitialized]
    rw [ViewCache.server, ← written] at keeps ⊢
    by_cases shadowed : (writes.shadowingWriteAtPath (childKey :: childPath)).isSome = true
    · rw [if_pos shadowed, generateEventCache_of_shadowed _ shadowed]
      exact leads_refl updated
    · rw [if_neg shadowed]
      exact leads_generateEventCache tracks updated keeps (childKey :: childPath)
        (Option.not_isSome_iff_eq_none.mp shadowed)

/-! ### Views that are up to date -/

/-- A view that is complete and shows the server's data after the pending writes. -/
structure Current (writes : WriteTreeRef) (viewCache : ViewCache) : Prop where
  complete : viewCache.Complete
  shows : viewCache.event = writes.shown viewCache.server

theorem Leads.current {processed : Processed} {server : Data Text Leaf}
    (leads : Leads processed server (writes.shown server)) : Current writes processed.1 :=
  ⟨leads.complete, leads.server.symm ▸ leads.event⟩

/-- After an overwrite by the server, the view shows the new data after the pending writes. -/
theorem Current.applyServerOverwrite (tracks : writes.writeTree.Tracks)
    (current : Current writes viewCache) {changedSnap : Node} (snapFormed : changedSnap.WellFormed)
    (changePath : Path) (keeps : writes.Keeps viewCache.server)
    (keepsNew : writes.Keeps (Data.overwrite changePath changedSnap.dataAt viewCache.server)) :
    Leads (applyServerOverwrite writes viewCache changePath changedSnap)
      (Data.overwrite changePath changedSnap.dataAt viewCache.server)
      (writes.shown (Data.overwrite changePath changedSnap.dataAt viewCache.server)) := by
  have leads := leads_applyServerOverwrite tracks current.complete snapFormed changePath keepsNew
  refine { leads with event := leads.event.trans ?_ }
  rw [current.shows]
  by_cases shadowed : (writes.shadowingWriteAtPath changePath).isSome = true
  · rw [if_pos shadowed]
    exact (keeps.afterAll_covered ((WriteTreeRef.shadowing_iff tracks changePath).mp shadowed)
      changedSnap.dataAt).symm
  · rw [if_neg shadowed]
    have uncovered : ∀ write ∈ writes.seen, ¬ write.1 <+: changePath := fun write member isPrefix =>
      shadowed ((WriteTreeRef.shadowing_iff tracks changePath).mpr ⟨write, member, isPrefix⟩)
    refine (keeps.afterAll_overwrite uncovered changedSnap.dataAt ?_).symm
    exact WriteTreeRef.solid_shown (Data.solid_overwrite viewCache.solid_server
      changedSnap.solid_dataAt changePath)

/-- A listen that completes leaves a complete view as it is. -/
theorem Current.listenComplete (tracks : writes.writeTree.Tracks) (current : Current writes viewCache)
    (path : Path) (keeps : writes.Keeps viewCache.server) :
    Leads (listenComplete writes viewCache path) viewCache.server
      (writes.shown viewCache.server) := by
  have complete := current.complete
  have updated := complete.updateServerSnap complete.serverFormed
  rw [ViewProcessor.listenComplete, complete.serverInitialized, complete.serverUnfiltered,
    Bool.true_or]
  by_cases shadowed : (writes.shadowingWriteAtPath path).isSome = true
  · rw [generateEventCache_of_shadowed _ shadowed, ← current.shows]
    exact leads_refl updated
  · have leads := leads_generateEventCache tracks updated keeps path
      (Option.not_isSome_iff_eq_none.mp shadowed)
    refine { leads with event := leads.event.trans ?_ }
    show Data.overwrite path (Data.below (writes.shown viewCache.server) path) viewCache.event = _
    rw [current.shows]
    exact (WriteTreeRef.solid_shown viewCache.solid_server).overwrite_self path

/-! ### Writes of the user -/

/-- Caches with the same data of the server and new data to show, all of it. -/
structure Makes (viewCache : ViewCache) (processed : Processed) (event : Data Text Leaf) : Prop where
  server : processed.1.cachedServerSnap = viewCache.cachedServerSnap
  initialized : processed.1.cachedEventSnap.isFullyInitialized = true
  event : processed.1.event = event

theorem Makes.append {other : ViewCache} {processed : Processed} {event : Data Text Leaf}
    (makes : Makes other processed event) (before : ChildChanges)
    (same : other.cachedServerSnap = viewCache.cachedServerSnap) :
    Makes viewCache (processed.1, before ++ processed.2) event :=
  ⟨makes.server.trans same, makes.initialized, makes.event⟩

/-- A write of the user is made in what is shown, when that is complete or is overwritten. -/
theorem makes_applyUserOverwrite (writes : WriteTreeRef) (wellFormed : viewCache.WellFormed)
    {changedSnap : Node} (snapFormed : changedSnap.WellFormed) (completeCache : Option Node)
    {changePath : Path}
    (known : viewCache.cachedEventSnap.isFullyInitialized = true ∨ changePath = []) :
    Makes viewCache (applyUserOverwrite writes completeCache viewCache changePath changedSnap)
      (Data.overwrite changePath changedSnap.dataAt viewCache.event) := by
  cases changePath with
  | nil => exact ⟨rfl, rfl, rfl⟩
  | cons childKey childPath =>
    have initialized := known.resolve_right (List.cons_ne_nil childKey childPath)
    have eventFormed := wellFormed.eventFormed
    have newChild : overwrittenChild writes completeCache viewCache childKey childPath changedSnap =
        (viewCache.cachedEventSnap.node.getImmediateChild childKey).updateChild childPath
          changedSnap := by
      cases childPath with
      | nil => rfl
      | cons key rest =>
        have found : completeChild writes viewCache completeCache childKey =
            some (viewCache.cachedEventSnap.node.getImmediateChild childKey) :=
          if_pos (CacheNode.isCompleteForChild_of_initialized initialized
            wellFormed.eventUnfiltered childKey)
        rw [overwrittenChild, found]
    have childFormed := eventFormed.getImmediateChild childKey
    have newFormed := childFormed.updateChild childPath snapFormed
    unfold applyUserOverwrite
    dsimp only
    rw [newChild]
    split
    · rename_i unchanged
      rw [childFormed.isEqual_iff newFormed] at unchanged
      refine ⟨rfl, initialized, Eq.trans ?_ (IndexedFilter.overwrite_updateChild eventFormed
        snapFormed childKey childPath)⟩
      rw [← unchanged]
      exact (viewCache.cachedEventSnap.node.solid_dataAt.overwrite_self [childKey]).symm
    · exact ⟨rfl, initialized, IndexedFilter.dataAt_updateChildIn_updateChild eventFormed snapFormed
        childKey childPath⟩

end ViewProcessor

end PhotoMap
