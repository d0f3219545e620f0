/-
This file models the filter of a view that shows all the data of its place
(`FIndexedFilter`, without priorities) and the accumulator of what it tells
(`FChildChangeAccumulator`). The filter replaces a child or the whole node and
tracks a change for every child it finds different. The changes tracked one
after the other lead from the old children to the new ones; put together for
each child, they never clash and say of each child what became of it.
-/

import PhotoMap.NodeEquality

namespace PhotoMap

open Overlay

/-! ### Changes of children -/

/-- An `FChange` of a child, without its key. -/
inductive ChildChange where
  | childAdded (node : Node)
  | childRemoved (node : Node)
  | childChanged (node oldNode : Node)

/-- Tracked changes, each with the key of its child. -/
abbrev ChildChanges := List (Σ _ : Text, ChildChange)

namespace ChildChange

/-- Two changes of one child as one, if they make one; else the client throws. -/
def merged : ChildChange → ChildChange → Option (Option ChildChange)
  | .childRemoved oldNode, .childAdded node => some (some (.childChanged node oldNode))
  | .childAdded _, .childRemoved _ => some none
  | .childChanged _ oldNode, .childRemoved _ => some (some (.childRemoved oldNode))
  | .childAdded _, .childChanged node _ => some (some (.childAdded node))
  | .childChanged _ oldNode, .childChanged node _ => some (some (.childChanged node oldNode))
  | _, _ => none

end ChildChange

/-- `trackChildChange:` on the map of the accumulator. -/
def trackChildChange (changeMap : ChildChanges) (change : Σ _ : Text, ChildChange) :
    Option ChildChanges :=
  match changeMap.dlookup change.1 with
  | none => some (changeMap.kinsert change.1 change.2)
  | some oldChange => (oldChange.merged change.2).map fun newChange =>
    match newChange with
    | some newChange => changeMap.kinsert change.1 newChange
    | none => changeMap.kerase change.1

/-- The map of the accumulator after tracked changes. -/
def accumulated (tracked : ChildChanges) : Option ChildChanges :=
  tracked.foldlM trackChildChange []

/-! ### The filter -/

def Node.isLeafNode : Node → Bool
  | .leaf _ => true
  | .children _ => false

theorem Node.isLeafNode_of_dataAt {node : Node} (leaf : node.dataAt [] ≠ none) :
    node.isLeafNode = true := by
  cases node with
  | leaf value => rfl
  | children kids => exact absurd (Node.dataAt_children_nil kids) leaf

/-- The children with their keys, as `enumerateChildrenUsingBlock:` meets them. -/
def Node.childNodes : Node → List (Σ _ : Text, Node)
  | .leaf _ => []
  | .children kids => kids

namespace IndexedFilter

/-- `updateChildIn:forChildKey:newChild:affectedPath:fromSource:accumulator:`, with the changes it
tracks. -/
def updateChildIn (node : Node) (childKey : Text) (newChildSnap : Node) (affectedPath : Path) :
    Node × ChildChanges :=
  let oldChildSnap := node.getImmediateChild childKey
  if (oldChildSnap.getChild affectedPath).isEqual (newChildSnap.getChild affectedPath) &&
      oldChildSnap.isEmpty == newChildSnap.isEmpty then (node, [])
  else
    let tracked : ChildChanges :=
      if newChildSnap.isEmpty then
        if node.hasChild childKey then [⟨childKey, .childRemoved oldChildSnap⟩] else []
      else if oldChildSnap.isEmpty then [⟨childKey, .childAdded newChildSnap⟩]
      else [⟨childKey, .childChanged newChildSnap oldChildSnap⟩]
    if node.isLeafNode && newChildSnap.isEmpty then (node, tracked)
    else (node.updateImmediateChild childKey newChildSnap, tracked)

/-- `updateFullNode:withNewNode:accumulator:`, with the changes it tracks. -/
def updateFullNode (oldSnap newSnap : Node) : Node × ChildChanges :=
  let removed : ChildChanges := oldSnap.childNodes.filterMap fun child =>
    if newSnap.hasChild child.1 then none else some ⟨child.1, .childRemoved child.2⟩
  let changed : ChildChanges := newSnap.childNodes.filterMap fun child =>
    if oldSnap.hasChild child.1 then
      let oldChildSnap := oldSnap.getImmediateChild child.1
      if oldChildSnap.isEqual child.2 then none
      else some ⟨child.1, .childChanged child.2 oldChildSnap⟩
    else some ⟨child.1, .childAdded child.2⟩
  (newSnap, removed ++ changed)

end IndexedFilter

/-! ### What a change reports -/

/-- What is reported of a child that had the one data and has the other now. Nothing is reported only
when they are the same. -/
def Reports (old new : Data Text Leaf) : Option ChildChange → Prop
  | none => old = new
  | some (.childAdded node) => old.IsEmpty ∧ ¬ new.IsEmpty ∧ node.dataAt = new
  | some (.childRemoved node) => ¬ old.IsEmpty ∧ new.IsEmpty ∧ node.dataAt = old
  | some (.childChanged node oldNode) =>
    ¬ old.IsEmpty ∧ ¬ new.IsEmpty ∧ node.dataAt = new ∧ oldNode.dataAt = old

/-- Two changes one after the other make one that reports the same. -/
theorem Reports.merged {old middle new : Data Text Leaf} {oldChange change : ChildChange}
    (before : Reports old middle (some oldChange)) (after : Reports middle new (some change)) :
    ∃ newChange, oldChange.merged change = some newChange ∧ Reports old new newChange := by
  cases oldChange with
  | childAdded oldNode =>
    obtain ⟨oldEmpty, stored, -⟩ := before
    cases change with
    | childAdded node => exact absurd after.1 stored
    | childRemoved node =>
      refine ⟨none, rfl, ?_⟩
      exact funext fun path => (oldEmpty path).trans (after.2.1 path).symm
    | childChanged node _ => exact ⟨some (.childAdded node), rfl, oldEmpty, after.2.1, after.2.2.1⟩
  | childRemoved oldNode =>
    obtain ⟨oldStored, empty, same⟩ := before
    cases change with
    | childAdded node =>
      exact ⟨some (.childChanged node oldNode), rfl, oldStored, after.2.1, after.2.2, same⟩
    | childRemoved node => exact absurd empty after.1
    | childChanged node _ => exact absurd empty after.1
  | childChanged _ oldNode =>
    obtain ⟨oldStored, stored, -, same⟩ := before
    cases change with
    | childAdded node => exact absurd after.1 stored
    | childRemoved node => exact ⟨some (.childRemoved oldNode), rfl, oldStored, after.2.1, same⟩
    | childChanged node _ =>
      exact ⟨some (.childChanged node oldNode), rfl, oldStored, after.2.1, after.2.2.1, same⟩

/-- Changes that lead from the children of one data to those of another. -/
def Tells (old : Data Text Leaf) : ChildChanges → Data Text Leaf → Prop
  | [], new => ∀ key, old.under key = new.under key
  | change :: rest, new => ∃ middle : Data Text Leaf,
    Reports (old.under change.1) (middle.under change.1) (some change.2) ∧
      (∀ key, key ≠ change.1 → old.under key = middle.under key) ∧ Tells middle rest new

theorem Tells.of_same {old middle new : Data Text Leaf} {tracked : ChildChanges}
    (same : ∀ key, old.under key = middle.under key) (tells : Tells middle tracked new) :
    Tells old tracked new := by
  cases tracked with
  | nil => exact fun key => (same key).trans (tells key)
  | cons change rest =>
    obtain ⟨next, reports, others, restTells⟩ := tells
    exact ⟨next, same change.1 ▸ reports, fun key different =>
      (same key).trans (others key different), restTells⟩

theorem Tells.append {old middle new : Data Text Leaf} {first second : ChildChanges}
    (before : Tells old first middle) (after : Tells middle second new) :
    Tells old (first ++ second) new := by
  induction first generalizing old with
  | nil => exact after.of_same before
  | cons change rest inductionHypothesis =>
    obtain ⟨next, reports, others, restTells⟩ := before
    exact ⟨next, reports, others, inductionHypothesis restTells⟩

/-- The accumulator never throws on such changes, and reports of each child what became of it. -/
theorem Tells.accumulate {start old new : Data Text Leaf} {tracked changeMap : ChildChanges}
    (tells : Tells old tracked new) (distinct : changeMap.NodupKeys)
    (reports : ∀ key, Reports (start.under key) (old.under key) (changeMap.dlookup key)) :
    ∃ changes, tracked.foldlM trackChildChange changeMap = some changes ∧ changes.NodupKeys ∧
      ∀ key, Reports (start.under key) (new.under key) (changes.dlookup key) := by
  induction tracked generalizing old changeMap with
  | nil => exact ⟨changeMap, rfl, distinct, fun key => tells key ▸ reports key⟩
  | cons change rest inductionHypothesis =>
    obtain ⟨middle, changed, others, restTells⟩ := tells
    have elsewhere : ∀ key, key ≠ change.1 →
        Reports (start.under key) (middle.under key) (changeMap.dlookup key) :=
      fun key different => others key different ▸ reports key
    have here := reports change.1
    rw [List.foldlM_cons]
    cases found : changeMap.dlookup change.1 with
    | none =>
      rw [found] at here
      have tracked : trackChildChange changeMap change =
          some (changeMap.kinsert change.1 change.2) := by
        rw [trackChildChange, found]
      rw [tracked]
      refine inductionHypothesis restTells (List.kinsert_nodupKeys _ _ distinct) fun key => ?_
      by_cases same : key = change.1
      · subst same
        rw [List.dlookup_kinsert]
        have sameData : start.under change.1 = old.under change.1 := here
        rwa [sameData]
      · rw [List.dlookup_kinsert_ne same]
        exact elsewhere key same
    | some oldChange =>
      rw [found] at here
      obtain ⟨newChange, mergedChange, nowReports⟩ := here.merged changed
      cases newChange with
      | some newChange =>
        have tracked : trackChildChange changeMap change =
            some (changeMap.kinsert change.1 newChange) := by
          rw [trackChildChange, found]
          simp only [mergedChange, Option.map_some]
        rw [tracked]
        refine inductionHypothesis restTells (List.kinsert_nodupKeys _ _ distinct) fun key => ?_
        by_cases same : key = change.1
        · subst same
          rw [List.dlookup_kinsert]
          exact nowReports
        · rw [List.dlookup_kinsert_ne same]
          exact elsewhere key same
      | none =>
        have tracked : trackChildChange changeMap change =
            some (changeMap.kerase change.1) := by
          rw [trackChildChange, found]
          simp only [mergedChange, Option.map_some]
        rw [tracked]
        refine inductionHypothesis restTells (distinct.kerase change.1) fun key => ?_
        by_cases same : key = change.1
        · subst same
          rw [List.dlookup_kerase _ distinct]
          exact nowReports
        · rw [List.dlookup_kerase_ne same]
          exact elsewhere key same

/-- Changes of distinct children, each of them right, lead from the old children to the new ones
when every other child is the same. -/
theorem tells_of_nodupKeys {old new : Data Text Leaf} {tracked : ChildChanges}
    (distinct : tracked.NodupKeys)
    (each : ∀ change ∈ tracked, Reports (old.under change.1) (new.under change.1) (some change.2))
    (others : ∀ key, key ∉ tracked.keys → old.under key = new.under key) :
    Tells old tracked new := by
  induction tracked generalizing old with
  | nil => exact fun key => others key List.not_mem_nil
  | cons change rest inductionHypothesis =>
    obtain ⟨notLater, restDistinct⟩ := List.nodupKeys_cons.mp distinct
    obtain ⟨first, later⟩ := List.forall_mem_cons.mp each
    -- the data with the new child under this key alone
    let middle : Data Text Leaf := fun
      | [] => old []
      | key :: path => if key = change.1 then new (key :: path) else old (key :: path)
    have here : middle.under change.1 = new.under change.1 := funext fun path => if_pos rfl
    have elsewhere : ∀ key, key ≠ change.1 → middle.under key = old.under key :=
      fun key different => funext fun path => if_neg different
    refine ⟨middle, here ▸ first, fun key different => (elsewhere key different).symm,
      inductionHypothesis restDistinct (fun found member => ?_) fun key missing => ?_⟩
    · have different : found.1 ≠ change.1 :=
        fun same => notLater (same ▸ List.mem_keys_of_mem member)
      rw [elsewhere _ different]
      exact later found member
    · by_cases same : key = change.1
      · rw [same, here]
      · rw [elsewhere key same]
        refine others key fun member => ?_
        rw [List.keys_cons, List.mem_cons] at member
        exact member.elim same missing

/-! ### What the filter does -/

namespace IndexedFilter

variable {node newChildSnap oldSnap newSnap : Node}

theorem under_dataAt (node : Node) (key : Text) :
    node.dataAt.under key = (node.getImmediateChild key).dataAt := rfl

/-- A child that is the same at the affected path, and empty when the old one is, is the same. -/
def Settled (oldChildSnap newChildSnap : Node) (affectedPath : Path) : Prop :=
  (oldChildSnap.getChild affectedPath).dataAt = (newChildSnap.getChild affectedPath).dataAt →
    oldChildSnap.isEmpty = newChildSnap.isEmpty → oldChildSnap.dataAt = newChildSnap.dataAt

theorem wellFormed_updateChildIn (wellFormed : node.WellFormed) (new : newChildSnap.WellFormed)
    (childKey : Text) (affectedPath : Path) :
    (updateChildIn node childKey newChildSnap affectedPath).1.WellFormed := by
  rw [updateChildIn]
  dsimp only
  split
  · exact wellFormed
  · split
    · exact wellFormed
    · exact wellFormed.updateImmediateChild childKey new

/-- Replacing a child writes its data under its key. -/
theorem dataAt_updateChildIn (wellFormed : node.WellFormed) (new : newChildSnap.WellFormed)
    {childKey : Text} {affectedPath : Path}
    (settled : Settled (node.getImmediateChild childKey) newChildSnap affectedPath) :
    (updateChildIn node childKey newChildSnap affectedPath).1.dataAt =
      Data.overwrite [childKey] newChildSnap.dataAt node.dataAt := by
  have written := wellFormed.dataAt_updateChild [childKey] new
  have childFormed := wellFormed.getImmediateChild childKey
  rw [updateChildIn]
  dsimp only
  split
  · rename_i unchanged
    rw [Bool.and_eq_true, beq_iff_eq, (childFormed.getChild affectedPath).isEqual_iff
      (new.getChild affectedPath)] at unchanged
    have same := settled unchanged.1 unchanged.2
    funext path
    cases path with
    | nil =>
      rw [Data.overwrite_cons_nil]
      by_cases nothing : Data.IsEmpty newChildSnap.dataAt
      · rw [if_pos nothing]
      · rw [if_neg nothing]
        rw [← same] at nothing
        obtain ⟨rest, stored⟩ := not_forall.mp nothing
        exact node.solid_dataAt.none_at_root stored
    | cons key path =>
      by_cases here : key = childKey
      · subst here
        rw [Data.overwrite_cons_self]
        exact congrFun same path
      · rw [Data.overwrite_cons_ne _ _ here]
  · split
    · rename_i ignored
      rw [Bool.and_eq_true] at ignored
      rw [← written]
      cases node with
      | leaf value => exact congrArg Node.dataAt (if_pos ignored.2).symm
      | children kids => exact absurd ignored.1 Bool.false_ne_true
    · exact written

/-- The changes that are tracked lead to the new children. -/
theorem tells_updateChildIn (wellFormed : node.WellFormed) (new : newChildSnap.WellFormed)
    (childKey : Text) (affectedPath : Path) :
    Tells node.dataAt (updateChildIn node childKey newChildSnap affectedPath).2
      (updateChildIn node childKey newChildSnap affectedPath).1.dataAt := by
  have childFormed := wellFormed.getImmediateChild childKey
  rw [updateChildIn]
  dsimp only
  split
  · exact fun key => rfl
  · -- the node that is returned has the new child under the key, and the old ones elsewhere
    have updated : (if node.isLeafNode && newChildSnap.isEmpty then node
        else node.updateImmediateChild childKey newChildSnap) =
          node.updateImmediateChild childKey newChildSnap := by
      split
      · rename_i ignored
        rw [Bool.and_eq_true] at ignored
        cases node with
        | leaf value => exact (if_pos ignored.2).symm
        | children kids => exact absurd ignored.1 Bool.false_ne_true
      · rfl
    have here : (node.updateImmediateChild childKey newChildSnap).dataAt.under childKey =
        newChildSnap.dataAt :=
      (wellFormed.getImmediateChild_update_self childKey new).dataAt
    have elsewhere : ∀ key, key ≠ childKey → node.dataAt.under key =
        (node.updateImmediateChild childKey newChildSnap).dataAt.under key :=
      fun key different => congrArg Node.dataAt
        (Node.getImmediateChild_update_other node newChildSnap different).symm
    rw [apply_ite Prod.fst, apply_ite Prod.snd, ite_self, updated]
    by_cases newEmpty : newChildSnap.isEmpty = true
    · rw [if_pos newEmpty]
      have newNothing := new.isEmpty_iff_dataAt.mp newEmpty
      by_cases stored : node.hasChild childKey = true
      · rw [if_pos stored]
        rw [Node.hasChild, Bool.not_eq_true', Bool.eq_false_iff, Ne,
          childFormed.isEmpty_iff_dataAt] at stored
        exact ⟨_, ⟨stored, here ▸ newNothing, rfl⟩, elsewhere, fun _ => rfl⟩
      · rw [if_neg stored]
        rw [Node.hasChild, Bool.not_eq_true', Bool.not_eq_false,
          childFormed.isEmpty_iff_dataAt] at stored
        intro key
        by_cases same : key = childKey
        · subst same
          rw [here]
          exact funext fun path => (stored path).trans (newNothing path).symm
        · exact elsewhere key same
    · rw [if_neg newEmpty]
      rw [new.isEmpty_iff_dataAt] at newEmpty
      by_cases oldEmpty : (node.getImmediateChild childKey).isEmpty = true
      · rw [if_pos oldEmpty]
        have oldNothing := childFormed.isEmpty_iff_dataAt.mp oldEmpty
        exact ⟨_, ⟨oldNothing, here ▸ newEmpty, here.symm⟩, elsewhere, fun _ => rfl⟩
      · rw [if_neg oldEmpty]
        rw [childFormed.isEmpty_iff_dataAt] at oldEmpty
        exact ⟨_, ⟨oldEmpty, here ▸ newEmpty, here.symm, rfl⟩, elsewhere, fun _ => rfl⟩

/-- Changes that keep the keys of the children have their keys among those of the children. -/
theorem keys_filterMap_sublist {change : (Σ _ : Text, Node) → Option (Σ _ : Text, ChildChange)}
    (sameKey : ∀ child found, change child = some found → found.1 = child.1)
    (kids : List (Σ _ : Text, Node)) : (kids.filterMap change).keys.Sublist kids.keys := by
  induction kids with
  | nil => exact .slnil
  | cons child rest inductionHypothesis =>
    cases found : change child with
    | none =>
      rw [List.filterMap_cons_none found, List.keys_cons]
      exact inductionHypothesis.cons child.1
    | some entry =>
      rw [List.filterMap_cons_some found, List.keys_cons, List.keys_cons, sameKey child entry found]
      exact inductionHypothesis.cons_cons child.1

/-- The children of a node, found by their keys. -/
theorem getImmediateChild_of_mem (wellFormed : node.WellFormed) {child : Σ _ : Text, Node}
    (member : child ∈ node.childNodes) : node.getImmediateChild child.1 = child.2 := by
  cases node with
  | leaf value => exact absurd member List.not_mem_nil
  | children kids => exact wellFormed.getImmediateChild_of_mem member

theorem not_isEmpty_of_mem (wellFormed : node.WellFormed) {child : Σ _ : Text, Node}
    (member : child ∈ node.childNodes) : ¬ Data.IsEmpty child.2.dataAt := by
  cases wellFormed with
  | leaf value => exact absurd member List.not_mem_nil
  | children kids distinct stored each =>
    rw [← (each child member).isEmpty_iff_dataAt, stored child member]
    exact Bool.false_ne_true

theorem hasChild_iff (wellFormed : node.WellFormed) (key : Text) :
    node.hasChild key = true ↔ ¬ Data.IsEmpty (node.dataAt.under key) := by
  rw [Node.hasChild, Bool.not_eq_true', under_dataAt,
    ← (wellFormed.getImmediateChild key).isEmpty_iff_dataAt, Bool.not_eq_true]

theorem mem_keys_childNodes (wellFormed : node.WellFormed) (key : Text) :
    key ∈ node.childNodes.keys ↔ node.hasChild key = true := by
  cases node with
  | leaf value => exact ⟨fun member => absurd member List.not_mem_nil, fun has => by cases has⟩
  | children kids =>
    rw [Node.hasChild, Bool.not_eq_true']
    exact wellFormed.mem_keys_iff key

theorem nodupKeys_childNodes (wellFormed : node.WellFormed) : node.childNodes.NodupKeys := by
  cases wellFormed with
  | leaf value => exact List.nodupKeys_nil
  | children kids distinct stored each => exact distinct

/-- The changes that are tracked for a whole node lead from the old children to the new ones. -/
theorem tells_updateFullNode (oldFormed : oldSnap.WellFormed) (newFormed : newSnap.WellFormed) :
    Tells oldSnap.dataAt (updateFullNode oldSnap newSnap).2 newSnap.dataAt := by
  rw [updateFullNode]
  dsimp only
  set removed : ChildChanges := oldSnap.childNodes.filterMap fun child =>
    if newSnap.hasChild child.1 then none else some ⟨child.1, .childRemoved child.2⟩ with isRemoved
  set changed : ChildChanges := newSnap.childNodes.filterMap fun child =>
    if oldSnap.hasChild child.1 then
      if (oldSnap.getImmediateChild child.1).isEqual child.2 then none
      else some ⟨child.1, .childChanged child.2 (oldSnap.getImmediateChild child.1)⟩
    else some ⟨child.1, .childAdded child.2⟩ with isChanged
  have removedKeys : removed.keys.Sublist oldSnap.childNodes.keys := by
    refine keys_filterMap_sublist (fun child found same => ?_) _
    split at same
    · cases same
    · rw [← Option.some.inj same]
  have changedKeys : changed.keys.Sublist newSnap.childNodes.keys := by
    refine keys_filterMap_sublist (fun child found same => ?_) _
    split at same
    · split at same
      · cases same
      · rw [← Option.some.inj same]
    · rw [← Option.some.inj same]
  have gone : ∀ change ∈ removed, newSnap.hasChild change.1 = false ∧
      Reports (oldSnap.dataAt.under change.1) (newSnap.dataAt.under change.1) (some change.2) := by
    intro change member
    obtain ⟨child, there, same⟩ := List.mem_filterMap.mp member
    split at same
    · cases same
    · rename_i missing
      cases same
      rw [Bool.not_eq_true] at missing
      have newNothing := mt (hasChild_iff newFormed child.1).mpr (by rw [missing]; decide)
      rw [under_dataAt, getImmediateChild_of_mem oldFormed there]
      exact ⟨missing, not_isEmpty_of_mem oldFormed there, not_not.mp newNothing, rfl⟩
  have here : ∀ change ∈ changed,
      Reports (oldSnap.dataAt.under change.1) (newSnap.dataAt.under change.1) (some change.2) := by
    intro change member
    obtain ⟨child, there, same⟩ := List.mem_filterMap.mp member
    have newStored := not_isEmpty_of_mem newFormed there
    have newChild := congrArg Node.dataAt (getImmediateChild_of_mem newFormed there)
    split at same
    · rename_i stored
      split at same
      · cases same
      · cases same
        rw [hasChild_iff oldFormed] at stored
        rw [under_dataAt newSnap, newChild]
        exact ⟨stored, newStored, rfl, rfl⟩
    · rename_i missing
      cases same
      rw [hasChild_iff oldFormed, not_not] at missing
      rw [under_dataAt newSnap, newChild]
      exact ⟨missing, newStored, rfl⟩
  refine tells_of_nodupKeys ?_ ?_ ?_
  · rw [List.NodupKeys, List.keys_append, List.nodup_append]
    refine ⟨List.Nodup.sublist removedKeys (nodupKeys_childNodes oldFormed),
      List.Nodup.sublist changedKeys (nodupKeys_childNodes newFormed), ?_⟩
    rintro key inRemoved _ inChanged rfl
    obtain ⟨change, member⟩ := List.exists_of_mem_keys inRemoved
    have missing := (gone _ member).1
    rw [(mem_keys_childNodes newFormed key).mp (changedKeys.subset inChanged)] at missing
    cases missing
  · intro change member
    rcases List.mem_append.mp member with inRemoved | inChanged
    · exact (gone change inRemoved).2
    · exact here change inChanged
  · intro key untracked
    rw [List.keys_append, List.mem_append, not_or] at untracked
    obtain ⟨notRemoved, notChanged⟩ := untracked
    by_cases newHas : newSnap.hasChild key = true
    · obtain ⟨child, there⟩ := List.exists_of_mem_keys ((mem_keys_childNodes newFormed key).mpr newHas)
      have newChild := getImmediateChild_of_mem newFormed there
      have quiet : ∀ entry, (if oldSnap.hasChild key then
          if (oldSnap.getImmediateChild key).isEqual child then none
          else some ⟨key, .childChanged child (oldSnap.getImmediateChild key)⟩
        else some ⟨key, .childAdded child⟩ : Option (Σ _ : Text, ChildChange)) ≠ some entry := by
        intro entry found
        refine notChanged ?_
        have sameKey : entry.1 = key := by
          split at found
          · split at found
            · cases found
            · rw [← Option.some.inj found]
          · rw [← Option.some.inj found]
        rw [← sameKey]
        exact List.mem_keys_of_mem (List.mem_filterMap.mpr ⟨⟨key, child⟩, there, found⟩)
      split at quiet
      · split at quiet
        · rename_i equal
          rw [under_dataAt, under_dataAt, newChild]
          refine ((oldFormed.getImmediateChild key).isEqual_iff ?_).mp equal
          exact newChild ▸ newFormed.getImmediateChild key
        · exact absurd rfl (quiet _)
      · exact absurd rfl (quiet _)
    · by_cases oldHas : oldSnap.hasChild key = true
      · obtain ⟨child, there⟩ :=
          List.exists_of_mem_keys ((mem_keys_childNodes oldFormed key).mpr oldHas)
        have entry : (⟨key, .childRemoved child⟩ : Σ _ : Text, ChildChange) ∈ removed :=
          List.mem_filterMap.mpr ⟨⟨key, child⟩, there, if_neg newHas⟩
        exact absurd (List.mem_keys_of_mem entry) notRemoved
      · rw [hasChild_iff newFormed, not_not] at newHas
        rw [hasChild_iff oldFormed, not_not] at oldHas
        exact funext fun path => (oldHas path).trans (newHas path).symm

end IndexedFilter

end PhotoMap
