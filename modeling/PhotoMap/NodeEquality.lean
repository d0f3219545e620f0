/-
This file models the equality by which the client tells whether a node has
changed (`isEqual:` of `FLeafNode` and `FChildrenNode`). A whole number is equal
to the floating-point number of its value, so the equality is that of the data
with every number in one form.
-/

import PhotoMap.Nodes
import PhotoMap.Rebase

namespace PhotoMap

open Binary64 Overlay

/-! ### Leaves -/

/-- `isEqual:` of two leaves. A boolean has a type of its own, numbers are compared by their
values. -/
def Leaf.isEqual : Leaf → Leaf → Bool
  | .bool value, .bool other => value == other
  | .integer value, .integer other => value == other
  | .integer value, .double other => other.exactInt64? == some value
  | .double value, .integer other => value.exactInt64? == some other
  | .double value, .double other => value == other
  | .string value, .string other => value == other
  | _, _ => false

/-- The leaf with a number that is a 64-bit integer written as one. -/
def Leaf.canonical : Leaf → Leaf
  | .double value =>
    match value.exactInt64? with
    | some whole => .integer whole
    | none => .double value
  | value => value

/-- A number that is a 64-bit integer is known from it. -/
theorem eq_of_exactInt64? {value other : Double} {whole : Int64}
    (first : value.exactInt64? = some whole) (second : other.exactInt64? = some whole) :
    value = other := by
  have known : ∀ number : Double, number.exactInt64? = some whole →
      number.value? = some (whole.toInt : ℚ) := by
    intro number exact_
    cases number with
    | infinite negative => cases exact_
    | nan => cases exact_
    | finite rational representable =>
      obtain ⟨same, converted⟩ := Option.ite_none_right_eq_some.mp exact_
      rw [Double.value?, ← same, int64?_toInt converted]
  refine Double.place_injective ?_
  rw [Double.place_of_value? (known value first), Double.place_of_value? (known other second)]

@[simp]
theorem Leaf.canonical_bool (value : Bool) : (Leaf.bool value).canonical = .bool value := rfl

@[simp]
theorem Leaf.canonical_integer (value : Int64) :
    (Leaf.integer value).canonical = .integer value := rfl

@[simp]
theorem Leaf.canonical_string (value : Text) : (Leaf.string value).canonical = .string value := rfl

theorem Leaf.canonical_double (value : Double) :
    (∃ whole, value.exactInt64? = some whole ∧ (Leaf.double value).canonical = .integer whole) ∨
      value.exactInt64? = none ∧ (Leaf.double value).canonical = .double value := by
  rw [canonical]
  cases value.exactInt64? with
  | none => exact Or.inr ⟨rfl, rfl⟩
  | some whole => exact Or.inl ⟨whole, rfl, rfl⟩

/-- Leaves are equal when they are the same in one form. -/
theorem Leaf.isEqual_iff (value other : Leaf) :
    value.isEqual other = true ↔ value.canonical = other.canonical := by
  cases value with
  | bool value =>
    cases other with
    | bool other => simp [isEqual]
    | double other =>
      rcases canonical_double other with ⟨_, -, form⟩ | ⟨-, form⟩ <;>
        simp [isEqual, form]
    | integer other => simp [isEqual]
    | string other => simp [isEqual]
  | integer value =>
    cases other with
    | integer other => simp [isEqual]
    | double other =>
      rcases canonical_double other with ⟨_, exact_, form⟩ | ⟨exact_, form⟩ <;>
          rw [isEqual, beq_iff_eq, form, exact_, canonical_integer]
      · rw [Option.some.injEq, Leaf.integer.injEq, eq_comm]
      · simp
    | bool other => simp [isEqual]
    | string other => simp [isEqual]
  | double value =>
    rcases canonical_double value with ⟨whole, exact_, form⟩ | ⟨exact_, form⟩
    · cases other with
      | double other =>
        rcases canonical_double other with ⟨otherWhole, otherExact, otherForm⟩ |
          ⟨otherExact, otherForm⟩
        · rw [isEqual, beq_iff_eq, form, otherForm, Leaf.integer.injEq]
          refine ⟨fun same => ?_, fun same => eq_of_exactInt64? exact_ (same ▸ otherExact)⟩
          rw [same, otherExact] at exact_
          exact (Option.some.inj exact_).symm
        · rw [isEqual, beq_iff_eq, form, otherForm]
          refine ⟨fun same => ?_, fun same => absurd same (by simp)⟩
          rw [same, otherExact] at exact_
          cases exact_
      | integer other => simp [isEqual, form, exact_]
      | bool other => simp [isEqual, form]
      | string other => simp [isEqual, form]
    · cases other with
      | double other =>
        rcases canonical_double other with ⟨otherWhole, otherExact, otherForm⟩ |
          ⟨otherExact, otherForm⟩
        · rw [isEqual, beq_iff_eq, form, otherForm]
          refine ⟨fun same => ?_, fun same => absurd same (by simp)⟩
          rw [same, otherExact] at exact_
          cases exact_
        · simp [isEqual, form, otherForm]
      | integer other => simp [isEqual, form, exact_]
      | bool other => simp [isEqual, form]
      | string other => simp [isEqual, form]
  | string value =>
    cases other with
    | string other => simp [isEqual]
    | double other =>
      rcases canonical_double other with ⟨_, -, form⟩ | ⟨-, form⟩ <;>
        simp [isEqual, form]
    | integer other => simp [isEqual]
    | bool other => simp [isEqual]

/-! ### Nodes -/

namespace Node

mutual

/-- `isEqual:` of two nodes. -/
def isEqual : Node → Node → Bool
  | .leaf value, .leaf other => value.isEqual other
  | .leaf _, .children _ => false
  | .children _, .leaf _ => false
  | .children kids, .children others =>
    kids.isEmpty && others.isEmpty ||
      kids.length == others.length && kidsEqual kids (.children others)
termination_by structural node => node

def kidsEqual : List (Σ _ : Text, Node) → Node → Bool
  | [], _ => true
  | ⟨key, node⟩ :: rest, other =>
    node.isEqual (other.getImmediateChild key) && kidsEqual rest other
termination_by structural kids => kids

end

/-- `hasChild:`. -/
def hasChild (node : Node) (childName : Text) : Bool := !(node.getImmediateChild childName).isEmpty

/-! ### Equality is equality of data -/

/-- The value of the leaf at a path, with numbers in one form. -/
def dataAt (node : Node) : Data Text Leaf := Data.map Leaf.canonical node.leafAt

theorem dataAt_leaf_nil (value : Leaf) : (leaf value).dataAt [] = some value.canonical := rfl

theorem dataAt_children_nil (kids : List (Σ _ : Text, Node)) : (children kids).dataAt [] = none :=
  rfl

theorem dataAt_cons (node : Node) (key : Text) (path : Path) :
    node.dataAt (key :: path) = (node.getImmediateChild key).dataAt path := rfl

theorem dataAt_emptyNode (path : Path) : emptyNode.dataAt path = none := by
  rw [dataAt, Data.map, leafAt_emptyNode]
  rfl

/-- The data of a child is the data below its path. -/
theorem dataAt_getChild (node : Node) (path : Path) :
    (node.getChild path).dataAt = Data.below node.dataAt path :=
  funext fun rest => congrArg (Option.map Leaf.canonical) (leafAt_getChild node path rest)

/-- Nothing is stored below a leaf. -/
theorem solid_dataAt (node : Node) : Data.Solid node.dataAt := by
  intro path key rest stored
  have below := congrFun (dataAt_getChild node path) (key :: rest)
  refine below.symm.trans ?_
  have here := congrFun (dataAt_getChild node path) []
  rw [Data.below, List.append_nil] at here
  rw [← here] at stored
  cases found : node.getChild path with
  | leaf value => exact dataAt_emptyNode rest
  | children kids =>
    rw [found] at stored
    exact absurd rfl stored

theorem Same.dataAt {first second : Node} (same : first.Same second) :
    first.dataAt = second.dataAt :=
  funext fun path => congrArg (Option.map Leaf.canonical) (same path)

theorem WellFormed.isEmpty_iff_dataAt {node : Node} (wellFormed : node.WellFormed) :
    node.isEmpty = true ↔ Data.IsEmpty node.dataAt :=
  wellFormed.isEmpty_iff.trans (Data.isEmpty_map_iff Leaf.canonical node.leafAt).symm

theorem WellFormed.dataAt_updateChild {node newChild : Node} (wellFormed : node.WellFormed)
    (path : Path) (new : newChild.WellFormed) :
    (node.updateChild path newChild).dataAt =
      Data.overwrite path newChild.dataAt node.dataAt := by
  rw [dataAt, wellFormed.leafAt_updateChild path new, Data.map_overwrite]
  rfl

theorem lawful_dataAt : Writes.Lawful dataAt updateChild WellFormed where
  read_update _ path _ nodeFormed new := nodeFormed.dataAt_updateChild path new
  valid_update _ path _ nodeFormed new := nodeFormed.updateChild path new

theorem kidsEqual_iff (kids : List (Σ _ : Text, Node)) (other : Node) :
    kidsEqual kids other = true ↔
      ∀ kid ∈ kids, kid.2.isEqual (other.getImmediateChild kid.1) = true := by
  induction kids with
  | nil => simp [kidsEqual]
  | cons kid rest inductionHypothesis =>
    rw [kidsEqual, Bool.and_eq_true, inductionHypothesis, List.forall_mem_cons]

/-- A key has a child that is not empty exactly when it is one of the keys. -/
theorem WellFormed.mem_keys_iff {kids : List (Σ _ : Text, Node)}
    (wellFormed : (Node.children kids).WellFormed) (key : Text) :
    key ∈ kids.keys ↔ ((Node.children kids).getImmediateChild key).isEmpty = false := by
  cases wellFormed with
  | children _ distinct stored each =>
    show _ ↔ ((kids.dlookup key).getD emptyNode).isEmpty = false
    cases found : kids.dlookup key with
    | none => simpa [emptyNode, isEmpty] using List.dlookup_eq_none.mp found
    | some kid =>
      have member := List.of_mem_dlookup found
      exact ⟨fun _ => stored _ member, fun _ => List.mem_keys_of_mem member⟩

theorem WellFormed.getImmediateChild_of_mem {kids : List (Σ _ : Text, Node)}
    (wellFormed : (Node.children kids).WellFormed) {kid : Σ _ : Text, Node} (member : kid ∈ kids) :
    (Node.children kids).getImmediateChild kid.1 = kid.2 := by
  cases wellFormed with
  | children _ distinct stored each =>
    show (kids.dlookup kid.1).getD emptyNode = kid.2
    rw [List.mem_dlookup distinct (a := kid.1) (b := kid.2) member]
    rfl

/-- `isEqual:` holds exactly when the nodes store the same values. -/
theorem WellFormed.isEqual_iff {first second : Node} (firstFormed : first.WellFormed)
    (secondFormed : second.WellFormed) :
    first.isEqual second = true ↔ first.dataAt = second.dataAt := by
  induction firstFormed generalizing second with
  | leaf value =>
    cases second with
    | leaf other =>
      rw [isEqual, Leaf.isEqual_iff]
      constructor
      · intro same
        funext path
        cases path with
        | nil => rw [dataAt_leaf_nil, dataAt_leaf_nil, same]
        | cons key path => rfl
      · intro same
        have root := congrFun same []
        rwa [dataAt_leaf_nil, dataAt_leaf_nil, Option.some_inj] at root
    | children others =>
      refine ⟨fun equal => absurd equal Bool.false_ne_true, fun same => ?_⟩
      have root := congrFun same []
      rw [dataAt_leaf_nil, dataAt_children_nil] at root
      cases root
  | children kids distinct stored each inductionHypothesis =>
    have firstFormed := WellFormed.children kids distinct stored each
    cases second with
    | leaf other =>
      refine ⟨fun equal => absurd equal Bool.false_ne_true, fun same => ?_⟩
      have root := congrFun same []
      rw [dataAt_leaf_nil, dataAt_children_nil] at root
      cases root
    | children others =>
      rw [isEqual, Bool.or_eq_true, Bool.and_eq_true, Bool.and_eq_true, beq_iff_eq,
        kidsEqual_iff, List.isEmpty_iff, List.isEmpty_iff]
      have lengths : ∀ kids : List (Σ _ : Text, Node), kids.keys.length = kids.length :=
        fun _ => List.length_map _
      have secondKeys := secondFormed.mem_keys_iff
      have secondDistinct : others.NodupKeys := by cases secondFormed; assumption
      have nonEmpty : ∀ kid ∈ kids, ¬ Data.IsEmpty kid.2.dataAt := fun kid member empty => by
        have kidEmpty := (each kid member).isEmpty_iff_dataAt.mpr empty
        rw [stored kid member] at kidEmpty
        cases kidEmpty
      -- equal children under every key of the first node make the keys of the second among them
      have keysSubset : (∀ kid ∈ kids, kid.2.dataAt =
          ((Node.children others).getImmediateChild kid.1).dataAt) → kids.keys ⊆ others.keys := by
        intro same key member
        obtain ⟨node, there⟩ := List.exists_of_mem_keys member
        rw [secondKeys, Bool.eq_false_iff, Ne,
          (secondFormed.getImmediateChild key).isEmpty_iff_dataAt, ← same _ there]
        exact nonEmpty _ there
      have children : (∀ kid ∈ kids,
          kid.2.isEqual ((Node.children others).getImmediateChild kid.1) = true) ↔
            ∀ kid ∈ kids, kid.2.dataAt =
              ((Node.children others).getImmediateChild kid.1).dataAt :=
        forall₂_congr fun kid member =>
          inductionHypothesis kid member (secondFormed.getImmediateChild kid.1)
      rw [children]
      constructor
      · rintro (⟨rfl, rfl⟩ | ⟨sameLength, same⟩)
        · rfl
        · have back : others.keys ⊆ kids.keys := by
            refine (List.Subperm.perm_of_length_le
              (List.subperm_of_subset distinct (keysSubset same)) ?_).symm.subset
            exact ((lengths others).trans (sameLength.symm.trans (lengths kids).symm)).le
          funext path
          cases path with
          | nil => rfl
          | cons key path =>
            rw [dataAt_cons, dataAt_cons]
            by_cases member : key ∈ kids.keys
            · obtain ⟨node, there⟩ := List.exists_of_mem_keys member
              rw [firstFormed.getImmediateChild_of_mem there, same _ there]
            · have firstEmpty := mt (firstFormed.mem_keys_iff key).mpr member
              have secondEmpty := mt (secondKeys key).mpr (mt (@back key) member)
              rw [Bool.not_eq_false,
                (firstFormed.getImmediateChild key).isEmpty_iff_dataAt] at firstEmpty
              rw [Bool.not_eq_false,
                (secondFormed.getImmediateChild key).isEmpty_iff_dataAt] at secondEmpty
              rw [firstEmpty path, secondEmpty path]
      · intro same
        have below : ∀ key, ((Node.children kids).getImmediateChild key).dataAt =
            ((Node.children others).getImmediateChild key).dataAt :=
          fun key => funext fun path => congrFun same (key :: path)
        have sameKeys : kids.keys.Perm others.keys := by
          refine (List.perm_ext_iff_of_nodup distinct secondDistinct).mpr fun key => ?_
          rw [firstFormed.mem_keys_iff, secondKeys, Bool.eq_false_iff, Bool.eq_false_iff, Ne, Ne,
            (firstFormed.getImmediateChild key).isEmpty_iff_dataAt,
            (secondFormed.getImmediateChild key).isEmpty_iff_dataAt, below key]
        refine Or.inr ⟨?_, fun kid member => ?_⟩
        · exact (lengths kids).symm.trans (sameKeys.length_eq.trans (lengths others))
        · rw [← below kid.1, firstFormed.getImmediateChild_of_mem member]

end Node

end PhotoMap
