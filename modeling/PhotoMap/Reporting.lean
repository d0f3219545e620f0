/-
This file says what a view raises. The changes of the children are told once for
each child, and say of each what became of it; the value is told when anything
the view shows has changed, and is all that it shows then. A view that raises no
value shows what it showed before. A new listener is told all that is there.
-/

import PhotoMap.Routing

namespace PhotoMap

open Overlay

namespace ViewProcessor

/-- What is raised leads from what was shown to what is shown. -/
structure Reported (old : ViewCache) (result : Result) : Prop where
  distinct : result.childChanges.NodupKeys
  children : ∀ key, Reports (old.event.under key) (result.viewCache.event.under key)
    (result.childChanges.dlookup key)
  value : ∀ node, result.value = some node → result.viewCache.completeEventSnap = some node
  unchanged : result.value = none →
    result.viewCache.cachedEventSnap.isFullyInitialized = true →
      old.cachedEventSnap.isFullyInitialized = true ∧ result.viewCache.event = old.event

variable {old new : ViewCache} {changes : ChildChanges}

/-- Data with the same children that is a leaf on neither side, or the same, is the same. -/
theorem event_eq_of_children {first second : Data Text Leaf} (firstSolid : first.Solid)
    (children : ∀ key, first.under key = second.under key) (root : second [] = none)
    (stored : ¬ second.IsEmpty) : second = first := by
  obtain ⟨path, item⟩ := not_forall.mp stored
  have firstRoot : first [] = none := by
    cases path with
    | nil => exact absurd root item
    | cons key rest =>
      have same : first (key :: rest) = second (key :: rest) := congrFun (children key) rest
      exact firstSolid.none_at_root (same ▸ item)
  funext other
  cases other with
  | nil => exact root.trans firstRoot.symm
  | cons key rest => exact (congrFun (children key) rest).symm

/-- A view that raises no value shows what it showed before. -/
theorem event_eq_of_no_value (oldFormed : old.WellFormed) (newFormed : new.WellFormed)
    (children : ∀ key, Reports (old.event.under key) (new.event.under key) (changes.dlookup key))
    (nothing : maybeAddValue old new changes = none)
    (initialized : new.cachedEventSnap.isFullyInitialized = true) :
    old.cachedEventSnap.isFullyInitialized = true ∧ new.event = old.event := by
  rw [maybeAddValue] at nothing
  dsimp only at nothing
  rw [if_pos initialized] at nothing
  split at nothing
  · cases nothing
  · rename_i quiet
    simp only [Bool.or_eq_true, Bool.and_eq_true, Bool.not_eq_true', not_or, not_and,
      Bool.not_eq_false] at quiet
    obtain ⟨⟨noChange, oldInitialized⟩, same⟩ := quiet
    rw [List.isEmpty_iff] at noChange
    subst noChange
    refine ⟨oldInitialized, ?_⟩
    by_cases leafOrEmpty : new.cachedEventSnap.node.isLeafNode = true ∨
        new.cachedEventSnap.node.isEmpty = true
    · have equal := same leafOrEmpty
      rw [ViewCache.completeEventSnap, if_pos oldInitialized, Option.any_some,
        newFormed.eventFormed.isEqual_iff oldFormed.eventFormed] at equal
      exact equal
    · obtain ⟨notLeaf, notEmpty⟩ := not_or.mp leafOrEmpty
      refine event_eq_of_children (Node.solid_dataAt _) (fun key => children key) ?_ ?_
      · exact Classical.byContradiction fun leaf => notLeaf (Node.isLeafNode_of_dataAt leaf)
      · exact fun empty => notEmpty (newFormed.eventFormed.isEmpty_iff_dataAt.mpr empty)

/-- What a view raises for an operation leads from what was shown to what is shown. -/
theorem reported_of_reached {writes : WriteTreeRef}
    (formed : writes.writeTree.visibleWrites.WellFormed) (oldFormed : old.WellFormed)
    {operation : Operation} (operationFormed : operation.WellFormed) {result : Result}
    (reached : SyncTree.Reached writes old operation result) : Reported old result := by
  obtain ⟨completeCache, serverFormed, applied⟩ := reached
  have tracked := tracked_process formed oldFormed serverFormed operationFormed
  have nothing : ∀ key, Reports (old.event.under key) (old.event.under key)
      (List.dlookup key ([] : ChildChanges)) := fun _ => rfl
  obtain ⟨changes, told, distinct, children⟩ :=
    tracked.tells.accumulate List.nodupKeys_nil nothing
  obtain ⟨found, same, rfl⟩ := Option.map_eq_some_iff.mp applied
  obtain rfl : changes = found := Option.some.inj (told.symm.trans same)
  refine ⟨distinct, children, fun node raised => ?_,
    event_eq_of_no_value oldFormed tracked.wellFormed children⟩
  dsimp only at raised ⊢
  rw [maybeAddValue] at raised
  dsimp only at raised
  rw [ViewCache.completeEventSnap]
  split at raised
  · rename_i initialized
    rw [if_pos initialized]
    split at raised
    · exact raised
    · cases raised
  · cases raised

/-- A view that shows nothing yet. -/
def blank : ViewCache := ⟨⟨.emptyNode, false, false⟩, ⟨.emptyNode, false, false⟩⟩

theorem event_blank (path : Path) : blank.event path = none := Node.dataAt_emptyNode path

/-- A new listener is told all that the view shows. -/
theorem reported_initialEvents (newFormed : new.WellFormed) :
    Reported blank (SyncTree.initialEvents new) := by
  have formed := newFormed.eventFormed
  refine ⟨?_, fun key => ?_, fun node raised => raised, fun nothing initialized => ?_⟩
  · have keys : (SyncTree.initialEvents new).childChanges.keys =
        new.cachedEventSnap.node.childNodes.keys := by
      rw [SyncTree.initialEvents, List.keys, List.map_map]
      rfl
    exact (congrArg List.Nodup keys).mpr (IndexedFilter.nodupKeys_childNodes formed)
  · have told : (SyncTree.initialEvents new).childChanges.dlookup key =
        (new.cachedEventSnap.node.childNodes.dlookup key).map .childAdded := by
      have mapped : (new.cachedEventSnap.node.childNodes.map
            (Sigma.map id fun _ => ChildChange.childAdded) : ChildChanges).dlookup key =
          (new.cachedEventSnap.node.childNodes.dlookup key).map ChildChange.childAdded :=
        List.dlookup_map₂ key
      exact mapped
    have noneBefore : Data.IsEmpty (blank.event.under key) := fun path => event_blank (key :: path)
    have child : new.event.under key = (new.cachedEventSnap.node.getImmediateChild key).dataAt :=
      IndexedFilter.under_dataAt new.cachedEventSnap.node key
    rw [told]
    show Reports (blank.event.under key) (new.event.under key) _
    rw [child]
    cases found : new.cachedEventSnap.node.childNodes.dlookup key with
    | none =>
      have missing : ¬ new.cachedEventSnap.node.hasChild key = true := by
        rw [← IndexedFilter.mem_keys_childNodes formed, ← List.dlookup_isSome, found]
        exact Bool.false_ne_true
      rw [IndexedFilter.hasChild_iff formed, not_not, IndexedFilter.under_dataAt] at missing
      exact funext fun path => (noneBefore path).trans (missing path).symm
    | some node =>
      have member := List.of_mem_dlookup found
      have same := IndexedFilter.getImmediateChild_of_mem formed member
      have stored := IndexedFilter.not_isEmpty_of_mem formed member
      dsimp only at same stored
      rw [same]
      exact ⟨noneBefore, stored, rfl⟩
  · have raised : (SyncTree.initialEvents new).value = some new.cachedEventSnap.node :=
      if_pos initialized
    rw [raised] at nothing
    cases nothing

end ViewProcessor

end PhotoMap
