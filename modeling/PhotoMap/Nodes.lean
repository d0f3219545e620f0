/-
This file reads a node of the database as data: the value of a leaf at the path
of the leaf. A node as the client builds it has distinct keys and stores no
empty child, so it is empty exactly when no value is stored in it. Writing a node
at a path (`updateChild:withNewChild:`) writes its data there.
-/

import PhotoMap.Overlay
import PhotoMap.Snapshot

namespace PhotoMap

open Overlay

namespace Node

/-! ### The data of a node -/

/-- The value of the leaf at a path. -/
def leafAt (node : Node) (path : Path) : Option Leaf :=
  match node.getChild path with
  | .leaf value => some value
  | .children _ => none

/-- Two nodes with the same values at the same paths. -/
def Same (first second : Node) : Prop := ∀ path, first.leafAt path = second.leafAt path

theorem leafAt_cons (node : Node) (key : Text) (path : Path) :
    node.leafAt (key :: path) = (node.getImmediateChild key).leafAt path := rfl

theorem leafAt_emptyNode (path : Path) : emptyNode.leafAt path = none := by
  induction path with
  | nil => rfl
  | cons key path inductionHypothesis => exact inductionHypothesis

theorem getChild_append (node : Node) (path rest : Path) :
    node.getChild (path ++ rest) = (node.getChild path).getChild rest := by
  induction path generalizing node with
  | nil => rfl
  | cons key path inductionHypothesis => exact inductionHypothesis _

/-- The data of a child is the data below its path. -/
theorem leafAt_getChild (node : Node) (path rest : Path) :
    (node.getChild path).leafAt rest = node.leafAt (path ++ rest) := by
  rw [leafAt, leafAt, getChild_append]

theorem below_leafAt (node : Node) (path : Path) :
    (node.getChild path).leafAt = Data.below node.leafAt path :=
  funext (leafAt_getChild node path)

/-! ### Nodes as the client builds them -/

/-- The keys of the children are distinct, and no child is empty. -/
inductive WellFormed : Node → Prop
  | leaf (value : Leaf) : WellFormed (.leaf value)
  | children (kids : List (Σ _ : Text, Node)) (distinct : kids.NodupKeys)
      (stored : ∀ kid ∈ kids, kid.2.isEmpty = false) (each : ∀ kid ∈ kids, WellFormed kid.2) :
      WellFormed (.children kids)

theorem wellFormed_emptyNode : emptyNode.WellFormed :=
  .children [] List.nodupKeys_nil (fun _ member => absurd member List.not_mem_nil)
    fun _ member => absurd member List.not_mem_nil

theorem WellFormed.getImmediateChild {node : Node} (wellFormed : node.WellFormed) (key : Text) :
    (node.getImmediateChild key).WellFormed := by
  cases wellFormed with
  | leaf value => exact wellFormed_emptyNode
  | children kids distinct stored each =>
    show ((kids.dlookup key).getD emptyNode).WellFormed
    cases found : kids.dlookup key with
    | none => exact wellFormed_emptyNode
    | some kid => exact each ⟨key, kid⟩ (List.of_mem_dlookup found)

theorem WellFormed.getChild {node : Node} (wellFormed : node.WellFormed) (path : Path) :
    (node.getChild path).WellFormed := by
  induction path generalizing node with
  | nil => exact wellFormed
  | cons key path inductionHypothesis => exact inductionHypothesis (wellFormed.getImmediateChild key)

/-- A node is empty exactly when no value is stored in it. -/
theorem WellFormed.isEmpty_iff {node : Node} (wellFormed : node.WellFormed) :
    node.isEmpty = true ↔ Data.IsEmpty node.leafAt := by
  induction wellFormed with
  | leaf value =>
    refine ⟨fun empty => absurd empty Bool.false_ne_true, fun empty => ?_⟩
    exact absurd (empty []) (Option.some_ne_none value)
  | children kids distinct stored each inductionHypothesis =>
    cases kids with
    | nil => exact ⟨fun _ => leafAt_emptyNode, fun _ => rfl⟩
    | cons kid rest =>
      refine ⟨fun empty => absurd empty Bool.false_ne_true, fun empty => ?_⟩
      have kidEmpty : Data.IsEmpty kid.2.leafAt := by
        intro path
        have there := empty (kid.1 :: path)
        rw [leafAt_cons] at there
        have found : (Node.children (kid :: rest)).getImmediateChild kid.1 = kid.2 := by
          show ((kid :: rest).dlookup kid.1).getD emptyNode = kid.2
          rw [List.dlookup_cons_eq, Option.getD_some]
        rwa [found] at there
      have nonEmpty := stored kid List.mem_cons_self
      rw [(inductionHypothesis kid List.mem_cons_self).mpr kidEmpty] at nonEmpty
      cases nonEmpty

/-! ### Writing -/

variable {node newChild : Node}

theorem WellFormed.updateImmediateChild (wellFormed : node.WellFormed) (childName : Text)
    (new : newChild.WellFormed) : (node.updateImmediateChild childName newChild).WellFormed := by
  cases empty : newChild.isEmpty with
  | true =>
    cases wellFormed with
    | leaf value =>
      show (if newChild.isEmpty then _ else _ : Node).WellFormed
      rw [if_pos empty]
      exact .leaf value
    | children kids distinct stored each =>
      show (if newChild.isEmpty then _ else _ : Node).WellFormed
      rw [if_pos empty]
      have sublist := List.kerase_sublist childName kids
      exact .children _ (distinct.sublist sublist)
        (fun kid member => stored kid (sublist.subset member))
        fun kid member => each kid (sublist.subset member)
  | false =>
    have kept : ∀ kids : List (Σ _ : Text, Node), kids.NodupKeys →
        (∀ kid ∈ kids, kid.2.isEmpty = false) → (∀ kid ∈ kids, kid.2.WellFormed) →
          (Node.children (kids.kinsert childName newChild)).WellFormed := by
      intro kids distinct stored each
      have sublist := List.kerase_sublist childName kids
      refine .children _ (List.kinsert_nodupKeys childName newChild distinct) ?_ ?_
      · intro kid member
        rcases List.mem_cons.mp member with rfl | member
        · exact empty
        · exact stored kid (sublist.subset member)
      · intro kid member
        rcases List.mem_cons.mp member with rfl | member
        · exact new
        · exact each kid (sublist.subset member)
    cases wellFormed with
    | leaf value =>
      show (if newChild.isEmpty then _ else _ : Node).WellFormed
      rw [if_neg (by rw [empty]; exact Bool.false_ne_true)]
      exact kept [] List.nodupKeys_nil (fun _ member => absurd member List.not_mem_nil)
        fun _ member => absurd member List.not_mem_nil
    | children kids distinct stored each =>
      show (if newChild.isEmpty then _ else _ : Node).WellFormed
      rw [if_neg (by rw [empty]; exact Bool.false_ne_true)]
      exact kept kids distinct stored each

theorem WellFormed.updateChild (wellFormed : node.WellFormed) (path : Path)
    (new : newChild.WellFormed) : (node.updateChild path newChild).WellFormed := by
  induction path generalizing node with
  | nil => exact new
  | cons front rest inductionHypothesis =>
    exact wellFormed.updateImmediateChild front
      (inductionHypothesis (wellFormed.getImmediateChild front))

/-- The child that was written, whether it is stored or not. -/
theorem WellFormed.getImmediateChild_update_self (wellFormed : node.WellFormed) (childName : Text)
    (new : newChild.WellFormed) :
    ((node.updateImmediateChild childName newChild).getImmediateChild childName).Same newChild := by
  intro path
  cases empty : newChild.isEmpty with
  | false => rw [getImmediateChild_updateImmediateChild node childName newChild empty]
  | true =>
    rw [new.isEmpty_iff.mp empty path]
    cases wellFormed with
    | leaf value =>
      show ((if newChild.isEmpty then _ else _ : Node).getImmediateChild childName).leafAt path = none
      rw [if_pos empty]
      exact leafAt_emptyNode path
    | children kids distinct stored each =>
      show ((if newChild.isEmpty then _ else _ : Node).getImmediateChild childName).leafAt path = none
      rw [if_pos empty]
      show (((kids.kerase childName).dlookup childName).getD emptyNode).leafAt path = none
      rw [List.dlookup_kerase childName distinct]
      exact leafAt_emptyNode path

theorem getImmediateChild_update_other (node : Node) {childName other : Text} (newChild : Node)
    (different : other ≠ childName) :
    (node.updateImmediateChild childName newChild).getImmediateChild other =
      node.getImmediateChild other := by
  cases empty : newChild.isEmpty with
  | false => exact getImmediateChild_updateImmediateChild_ne node newChild empty different
  | true =>
    cases node with
    | leaf value =>
      show ((if newChild.isEmpty then _ else _ : Node).getImmediateChild other) = _
      rw [if_pos empty]
    | children kids =>
      show ((if newChild.isEmpty then _ else _ : Node).getImmediateChild other) = _
      rw [if_pos empty]
      show ((kids.kerase childName).dlookup other).getD emptyNode = _
      rw [List.dlookup_kerase_ne different]
      rfl

/-- A node that gets a child keeps its value only when the child is empty. -/
theorem leafAt_nil_update (node : Node) (childName : Text) (newChild : Node) :
    (node.updateImmediateChild childName newChild).leafAt [] =
      if newChild.isEmpty then node.leafAt [] else none := by
  cases node with
  | leaf value =>
    show (if newChild.isEmpty then _ else _ : Node).leafAt [] = _
    split <;> rfl
  | children kids =>
    show (if newChild.isEmpty then _ else _ : Node).leafAt [] = _
    split <;> rfl

/-- Writing a node at a path writes its data there. -/
theorem WellFormed.leafAt_updateChild (wellFormed : node.WellFormed) (path : Path)
    (new : newChild.WellFormed) :
    (node.updateChild path newChild).leafAt = Data.overwrite path newChild.leafAt node.leafAt := by
  induction path generalizing node with
  | nil => rfl
  | cons front rest inductionHypothesis =>
    have childFormed := wellFormed.getImmediateChild front
    have written := inductionHypothesis childFormed
    have updatedFormed := childFormed.updateChild rest new
    funext other
    cases other with
    | nil =>
      rw [Data.overwrite_cons_nil, Node.updateChild, leafAt_nil_update]
      cases node with
      | children kids => exact (ite_self _).trans (ite_self _).symm
      | leaf value =>
        -- below a leaf there is nothing, so the child is empty exactly when nothing is written
        change (emptyNode.updateChild rest newChild).leafAt = _ at written
        change (emptyNode.updateChild rest newChild).WellFormed at updatedFormed
        by_cases nothing : Data.IsEmpty newChild.leafAt
        · have empty : Data.IsEmpty (emptyNode.updateChild rest newChild).leafAt := by
            rw [written]
            exact nothing.overwrite leafAt_emptyNode
          rw [if_pos nothing]
          exact if_pos (updatedFormed.isEmpty_iff.mpr empty)
        · have notEmpty : ¬ Data.IsEmpty (emptyNode.updateChild rest newChild).leafAt := by
            rw [written]
            exact Data.not_isEmpty_overwrite nothing
          rw [if_neg nothing]
          exact if_neg fun empty => notEmpty (updatedFormed.isEmpty_iff.mp empty)
    | cons key other =>
      rw [Node.updateChild, leafAt_cons]
      by_cases same : key = front
      · subst same
        rw [Data.overwrite_cons_self,
          wellFormed.getImmediateChild_update_self key updatedFormed other, written]
        rfl
      · rw [Data.overwrite_cons_ne _ _ same, getImmediateChild_update_other node _ same]
        rfl

/-- Nodes are written as data is. -/
theorem lawful : Writes.Lawful leafAt updateChild WellFormed where
  read_update _ path _ wellFormed new := wellFormed.leafAt_updateChild path new
  valid_update _ path _ wellFormed new := wellFormed.updateChild path new

theorem WellFormed.foldl_updateChild (nodeFormed : node.WellFormed) {new : List (Path × Node)}
    (formed : ∀ found ∈ new, found.2.WellFormed) :
    (new.foldl (fun node found => node.updateChild found.1 found.2) node).WellFormed := by
  induction new generalizing node with
  | nil => exact nodeFormed
  | cons found rest inductionHypothesis =>
    obtain ⟨first, later⟩ := List.forall_mem_cons.mp formed
    exact inductionHypothesis (nodeFormed.updateChild found.1 first) later

/-- The node that was written is there. -/
theorem getChild_updateChild_emptyNode (path : Path) (new : Node) :
    (emptyNode.updateChild path new).getChild path = new := by
  induction path with
  | nil => rfl
  | cons key path inductionHypothesis =>
    show ((emptyNode.updateImmediateChild key (emptyNode.updateChild path new)).getImmediateChild
      key).getChild path = new
    cases empty : (emptyNode.updateChild path new).isEmpty with
    | false => rw [getImmediateChild_updateImmediateChild _ key _ empty, inductionHypothesis]
    | true =>
      have nothing : emptyNode.updateChild path new = emptyNode := by
        cases found : emptyNode.updateChild path new with
        | leaf value =>
          rw [found] at empty
          cases empty
        | children kids =>
          rw [found] at empty
          exact congrArg Node.children (List.isEmpty_iff.mp empty)
      rw [nothing] at inductionHypothesis ⊢
      exact inductionHypothesis

/-- Writing nodes one after the other writes their data. -/
theorem WellFormed.leafAt_foldl_updateChild (nodeFormed : node.WellFormed)
    {new : List (Path × Node)} (formed : ∀ found ∈ new, found.2.WellFormed) :
    (new.foldl (fun node found => node.updateChild found.1 found.2) node).leafAt =
      Data.afterAll Node.leafAt new node.leafAt := by
  induction new generalizing node with
  | nil => rfl
  | cons found rest inductionHypothesis =>
    have first := formed found List.mem_cons_self
    rw [List.foldl_cons, inductionHypothesis (nodeFormed.updateChild found.1 first)
      fun found member => formed found (List.mem_cons_of_mem _ member),
      nodeFormed.leafAt_updateChild found.1 first]
    rfl

end Node

end PhotoMap
