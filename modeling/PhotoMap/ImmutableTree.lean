/-
This file models the immutable tree the database client keeps its pending writes
in (`FImmutableTree`): an optional value and children by key. Its children are a
list of entries with distinct keys, in any order. A tree whose values are all at
its ends is read as the map from the paths of the values to the values, and
setting a value or a subtree is a change of that map.
-/

import Mathlib.Data.List.Sigma
import PhotoMap.Overlay
import PhotoMap.Snapshot

namespace PhotoMap

open Overlay

/-- `FImmutableTree`. -/
inductive ImmutableTree (Content : Type) where
  | mk (value : Option Content) (children : List (Σ _ : Text, ImmutableTree Content))

/-- `FPath relativePathFrom:to:`, of a path within the outer one. It throws on any other. -/
def relativePathFrom : Path → Path → Path
  | [], inner => inner
  | _ :: outer, inner => relativePathFrom outer inner.tail

theorem relativePathFrom_append (outer rest : Path) :
    relativePathFrom outer (outer ++ rest) = rest := by
  induction outer with
  | nil => rfl
  | cons key outer inductionHypothesis => exact inductionHypothesis

namespace ImmutableTree

variable {Content : Type}

def value : ImmutableTree Content → Option Content
  | .mk value _ => value

def children : ImmutableTree Content → List (Σ _ : Text, ImmutableTree Content)
  | .mk _ children => children

/-- `initWithValue:`. -/
def initWithValue (value : Content) : ImmutableTree Content := .mk (some value) []

def empty : ImmutableTree Content := .mk none []

def isEmpty (tree : ImmutableTree Content) : Bool :=
  tree.value.isNone && tree.children.isEmpty

/-- The child under a key, where `FImmutableTree` has `nil` for a child that is missing. -/
def child? (tree : ImmutableTree Content) (key : Text) : Option (ImmutableTree Content) :=
  tree.children.dlookup key

/-! ### The operations -/

/-- `findRootMostMatchingPath:predicate:`. -/
def findRootMostMatchingPath (predicate : Content → Bool) :
    ImmutableTree Content → Path → Option (Path × Content)
  | tree, relativePath =>
    match tree.value.filter predicate with
    | some value => some ([], value)
    | none =>
      match relativePath with
      | [] => none
      | front :: rest =>
        match tree.child? front with
        | some child => (child.findRootMostMatchingPath predicate rest).map fun found =>
            (front :: found.1, found.2)
        | none => none
termination_by structural _ relativePath => relativePath

def findRootMostValueAndPath (tree : ImmutableTree Content) (relativePath : Path) :
    Option (Path × Content) :=
  tree.findRootMostMatchingPath (fun _ => true) relativePath

def subtreeAtPath : ImmutableTree Content → Path → ImmutableTree Content
  | tree, [] => tree
  | tree, front :: rest =>
    match tree.child? front with
    | some childTree => childTree.subtreeAtPath rest
    | none => empty

/-- `setValue:atPath:`. -/
def setValue (newValue : Content) : ImmutableTree Content → Path → ImmutableTree Content
  | tree, [] => .mk (some newValue) tree.children
  | tree, front :: rest =>
    .mk tree.value (tree.children.kinsert front
      (((tree.child? front).getD empty).setValue newValue rest))

def valueAtPath : ImmutableTree Content → Path → Option Content
  | tree, [] => tree.value
  | tree, front :: rest =>
    match tree.child? front with
    | some child => child.valueAtPath rest
    | none => none

/-- `setTree:atPath:`: a child that becomes empty is removed. -/
def setTree : ImmutableTree Content → ImmutableTree Content → Path → ImmutableTree Content
  | _, newTree, [] => newTree
  | tree, newTree, front :: rest =>
    let newChild := ((tree.child? front).getD empty).setTree newTree rest
    .mk tree.value
      (if newChild.isEmpty then tree.children.kerase front
      else tree.children.kinsert front newChild)

mutual

/-- `forEach:`, as the list of the calls of its block: the children come before the value. -/
def forEach : ImmutableTree Content → List (Path × Content)
  | .mk value children =>
    forEachChild children ++ value.toList.map fun value => ([], value)
termination_by structural tree => tree

def forEachChild : List (Σ _ : Text, ImmutableTree Content) → List (Path × Content)
  | [] => []
  | ⟨childKey, childTree⟩ :: rest =>
    childTree.forEach.map (fun found => (childKey :: found.1, found.2)) ++ forEachChild rest
termination_by structural children => children

end

/-! ### Trees with values at their ends -/

/-- A value has no children beside it, and the keys of the children are distinct. -/
inductive Proper : ImmutableTree Content → Prop
  | value (value : Content) : Proper (.mk (some value) [])
  | children (kids : List (Σ _ : Text, ImmutableTree Content)) (distinct : kids.NodupKeys)
      (each : ∀ kid ∈ kids, Proper kid.2) : Proper (.mk none kids)

theorem proper_empty : (empty : ImmutableTree Content).Proper :=
  .children [] List.nodupKeys_nil fun _ member => absurd member List.not_mem_nil

variable {tree kid newTree : ImmutableTree Content}

theorem Proper.child (proper : tree.Proper) {key : Text} (found : tree.child? key = some kid) :
    kid.Proper := by
  cases proper with
  | value value => cases found
  | children kids distinct each => exact each ⟨key, kid⟩ (List.of_mem_dlookup found)

theorem Proper.child_getD (proper : tree.Proper) (key : Text) :
    ((tree.child? key).getD empty).Proper := by
  cases found : tree.child? key with
  | none => exact proper_empty
  | some child => exact proper.child found

theorem Proper.distinct (proper : tree.Proper) : tree.children.NodupKeys := by
  cases proper with
  | value value => exact List.nodupKeys_nil
  | children kids distinct each => exact distinct

theorem valueAtPath_empty (path : Path) : (empty : ImmutableTree Content).valueAtPath path = none := by
  cases path <;> rfl

theorem valueAtPath_cons (tree : ImmutableTree Content) (key : Text) (path : Path) :
    tree.valueAtPath (key :: path) = ((tree.child? key).getD empty).valueAtPath path := by
  rw [valueAtPath]
  cases tree.child? key with
  | none => exact (valueAtPath_empty path).symm
  | some child => rfl

/-- A tree that is empty has no value. -/
theorem valueAtPath_of_isEmpty (nothing : tree.isEmpty = true) (path : Path) :
    tree.valueAtPath path = none := by
  obtain ⟨value, children⟩ := tree
  cases value with
  | some value => cases nothing
  | none =>
    cases children with
    | nil => exact valueAtPath_empty path
    | cons kid rest => cases nothing

/-- No value is below another one. -/
theorem Proper.valueAtPath_below (proper : tree.Proper) {value : Content}
    (here : tree.value = some value) (key : Text) (path : Path) :
    tree.valueAtPath (key :: path) = none := by
  cases proper with
  | value value => rfl
  | children kids distinct each => cases here

theorem valueAtPath_subtreeAtPath (tree : ImmutableTree Content) (path rest : Path) :
    (tree.subtreeAtPath path).valueAtPath rest = tree.valueAtPath (path ++ rest) := by
  induction path generalizing tree with
  | nil => rfl
  | cons key path inductionHypothesis =>
    rw [List.cons_append, valueAtPath, subtreeAtPath]
    cases tree.child? key with
    | none => exact valueAtPath_empty rest
    | some child => exact inductionHypothesis child

theorem Proper.subtreeAtPath (proper : tree.Proper) (path : Path) :
    (tree.subtreeAtPath path).Proper := by
  induction path generalizing tree with
  | nil => exact proper
  | cons key path inductionHypothesis =>
    rw [ImmutableTree.subtreeAtPath]
    cases found : tree.child? key with
    | none => exact proper_empty
    | some child => exact inductionHypothesis (proper.child found)

/-! ### Setting a subtree -/

/-- Putting a tree under a key, or removing the key when the tree is empty. -/
theorem valueAtPath_replaceChild (proper : tree.Proper) (front key : Text) (path : Path)
    (newChild : ImmutableTree Content) :
    (ImmutableTree.mk tree.value (if newChild.isEmpty then tree.children.kerase front
      else tree.children.kinsert front newChild)).valueAtPath (key :: path) =
      if key = front then newChild.valueAtPath path else tree.valueAtPath (key :: path) := by
  rw [valueAtPath_cons, valueAtPath_cons]
  by_cases same : key = front
  · subst same
    rw [if_pos rfl]
    split
    · rename_i nothing
      have removed : (ImmutableTree.mk tree.value (tree.children.kerase key)).child? key = none :=
        List.dlookup_kerase key proper.distinct
      rw [removed, Option.getD_none, valueAtPath_empty, valueAtPath_of_isEmpty nothing]
    · have inserted : (ImmutableTree.mk tree.value
          (tree.children.kinsert key newChild)).child? key = some newChild :=
        List.dlookup_kinsert tree.children
      rw [inserted, Option.getD_some]
  · rw [if_neg same]
    have kept : (ImmutableTree.mk tree.value (if newChild.isEmpty then tree.children.kerase front
        else tree.children.kinsert front newChild)).child? key = tree.child? key := by
      split
      · exact List.dlookup_kerase_ne same
      · exact List.dlookup_kinsert_ne same
    rw [kept]

theorem Proper.replaceChild (proper : tree.Proper) (noValue : tree.value = none) (front : Text)
    {newChild : ImmutableTree Content} (new : newChild.Proper) :
    (ImmutableTree.mk tree.value (if newChild.isEmpty then tree.children.kerase front
      else tree.children.kinsert front newChild)).Proper := by
  rw [noValue]
  have sublist := List.kerase_sublist front tree.children
  have each : ∀ kid ∈ tree.children, kid.2.Proper := by
    cases proper with
    | value value => cases noValue
    | children kids distinct each => exact each
  split
  · exact .children _ (proper.distinct.sublist sublist)
      fun kid member => each kid (sublist.subset member)
  · refine .children _ (List.kinsert_nodupKeys front newChild proper.distinct) fun kid member => ?_
    rcases List.mem_cons.mp member with rfl | member
    · exact new
    · exact each kid (sublist.subset member)

/-- Setting a subtree replaces what is at the path and below it. -/
theorem Proper.valueAtPath_setTree (proper : tree.Proper) (path other : Path) :
    (tree.setTree newTree path).valueAtPath other =
      if path <+: other then newTree.valueAtPath (other.drop path.length)
      else tree.valueAtPath other := by
  induction path generalizing tree other with
  | nil => rw [if_pos List.nil_prefix]; rfl
  | cons front rest inductionHypothesis =>
    cases other with
    | nil => rw [if_neg (fun isPrefix => by simp at isPrefix)]; rfl
    | cons key other =>
      rw [setTree, valueAtPath_replaceChild proper]
      by_cases same : key = front
      · subst same
        rw [if_pos rfl, inductionHypothesis (proper.child_getD key)]
        simp only [List.prefix_cons_inj, List.length_cons, List.drop_succ_cons]
        rw [valueAtPath_cons]
      · rw [if_neg same, if_neg]
        rintro ⟨tail, equal⟩
        exact same (List.cons.inj equal).1.symm

/-! ### The writes of a tree, one by one -/

theorem mem_forEachChild {kids : List (Σ _ : Text, ImmutableTree Content)}
    {path : Path} {value : Content} :
    (path, value) ∈ forEachChild kids ↔
      ∃ kid ∈ kids, ∃ rest, path = kid.1 :: rest ∧ (rest, value) ∈ kid.2.forEach := by
  induction kids with
  | nil => simp [forEachChild]
  | cons kid others inductionHypothesis =>
    rw [forEachChild, List.mem_append, inductionHypothesis, List.exists_mem_cons_iff]
    refine or_congr_left ?_
    simp only [List.mem_map, Prod.exists, Prod.mk.injEq]
    constructor
    · rintro ⟨rest, _, member, rfl, rfl⟩
      exact ⟨rest, rfl, member⟩
    · rintro ⟨rest, rfl, member⟩
      exact ⟨rest, value, member, rfl, rfl⟩

/-- Without a value of its own, a tree has its values below. -/
theorem forEach_ne_nil (noValue : tree.value = none) :
    ∀ found ∈ tree.forEach, found.1 ≠ [] := by
  intro found member
  obtain ⟨value, kids⟩ := tree
  obtain rfl : value = none := noValue
  rw [forEach, Option.toList_none, List.map_nil, List.append_nil] at member
  obtain ⟨kid, -, rest, place, -⟩ := mem_forEachChild.mp member
  rw [place]
  exact List.cons_ne_nil kid.1 rest

/-- A value at a path is met there. -/
theorem mem_forEach_of_valueAtPath {path : Path} {value : Content}
    (found : tree.valueAtPath path = some value) : (path, value) ∈ tree.forEach := by
  induction path generalizing tree with
  | nil =>
    obtain ⟨here, kids⟩ := tree
    obtain rfl : here = some value := found
    rw [forEach]
    exact List.mem_append_right _ (List.mem_singleton.mpr rfl)
  | cons front rest inductionHypothesis =>
    obtain ⟨here, kids⟩ := tree
    rw [valueAtPath] at found
    split at found
    · rename_i child located
      rw [forEach]
      refine List.mem_append_left _ (mem_forEachChild.mpr ?_)
      exact ⟨⟨front, child⟩, List.of_mem_dlookup located, rest, rfl, inductionHypothesis found⟩
    · cases found

theorem valueAtPath_setValue_self (tree : ImmutableTree Content) (path : Path) (value : Content) :
    (tree.setValue value path).valueAtPath path = some value := by
  induction path generalizing tree with
  | nil => rfl
  | cons front rest inductionHypothesis =>
    rw [setValue, valueAtPath, child?, children, List.dlookup_kinsert]
    exact inductionHypothesis _

/-- Setting a value takes none away. -/
theorem valueAtPath_setValue_isSome {path other : Path} (value : Content)
    (found : (tree.valueAtPath other).isSome = true) :
    ((tree.setValue value path).valueAtPath other).isSome = true := by
  induction path generalizing tree other with
  | nil =>
    cases other with
    | nil => rfl
    | cons key rest => exact found
  | cons front rest inductionHypothesis =>
    cases other with
    | nil => exact found
    | cons key other =>
      rw [valueAtPath_cons] at found ⊢
      rw [setValue, child?, children]
      by_cases same : key = front
      · subst same
        rw [List.dlookup_kinsert, Option.getD_some]
        exact inductionHypothesis found
      · rw [List.dlookup_kinsert_ne same]
        exact found

/-- The values of a tree are those at its paths. -/
theorem Proper.mem_forEach (proper : tree.Proper) (path : Path) (value : Content) :
    (path, value) ∈ tree.forEach ↔ tree.valueAtPath path = some value := by
  induction path generalizing tree with
  | nil =>
    cases proper with
    | value here => simp [forEach, forEachChild, valueAtPath, ImmutableTree.value, eq_comm]
    | children kids distinct each =>
      simp [forEach, mem_forEachChild, valueAtPath, ImmutableTree.value]
  | cons key path inductionHypothesis =>
    cases proper with
    | value here => simp [forEach, forEachChild, valueAtPath, child?, ImmutableTree.children]
    | children kids distinct each =>
      rw [forEach, Option.toList_none, List.map_nil, List.append_nil, mem_forEachChild,
        valueAtPath_cons]
      constructor
      · rintro ⟨kid, member, rest, same, there⟩
        obtain ⟨rfl, rfl⟩ := List.cons.inj same
        have found : kids.dlookup kid.1 = some kid.2 :=
          (List.mem_dlookup_iff distinct).mpr member
        rw [show (ImmutableTree.mk none kids).child? kid.1 = some kid.2 from found, Option.getD_some]
        exact (inductionHypothesis (each kid member)).mp there
      · intro there
        cases found : (ImmutableTree.mk none kids).child? key with
        | none =>
          rw [found, Option.getD_none, valueAtPath_empty] at there
          cases there
        | some child =>
          rw [found, Option.getD_some] at there
          have member := List.of_mem_dlookup (show child ∈ kids.dlookup key from found)
          exact ⟨⟨key, child⟩, member, path, rfl, (inductionHypothesis (each _ member)).mpr there⟩

/-- No path of a value is above the path of another one. -/
theorem pairwise_forEachChild {kids : List (Σ _ : Text, ImmutableTree Content)}
    (distinct : kids.NodupKeys)
    (each : ∀ kid ∈ kids, kid.2.forEach.Pairwise fun first second => Apart first.1 second.1) :
    (forEachChild kids).Pairwise fun first second => Apart first.1 second.1 := by
  induction kids with
  | nil => exact List.Pairwise.nil
  | cons kid rest inductionHypothesis =>
    obtain ⟨fresh, others⟩ := List.nodupKeys_cons.mp distinct
    rw [forEachChild, List.pairwise_append]
    refine ⟨?_, inductionHypothesis others fun kid member =>
      each kid (List.mem_cons_of_mem _ member), ?_⟩
    · rw [List.pairwise_map]
      exact (each kid List.mem_cons_self).imp apart_cons_iff.mpr
    · intro first firstMember second secondMember
      obtain ⟨found, -, rfl⟩ := List.mem_map.mp firstMember
      obtain ⟨other, otherMember, tail, same, -⟩ := mem_forEachChild.mp
        (show (second.1, second.2) ∈ forEachChild rest from secondMember)
      rw [same]
      refine apart_of_ne fun equal => fresh ?_
      rw [equal]
      exact List.mem_map_of_mem otherMember

theorem Proper.pairwise_forEach (proper : tree.Proper) :
    tree.forEach.Pairwise fun first second => Apart first.1 second.1 := by
  induction proper with
  | value value => exact List.pairwise_singleton _ _
  | children kids distinct each inductionHypothesis =>
    rw [forEach, Option.toList_none, List.map_nil, List.append_nil]
    exact pairwise_forEachChild distinct inductionHypothesis

end ImmutableTree

end PhotoMap
