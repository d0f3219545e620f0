/-
This file models the part of the Firebase database client the program reads and
writes through: the tree of nodes, the write of a node at a path
(`FChildrenNode updateChild:withNewChild:`), the node of a value
(`FSnapshotUtilities nodeFrom:`), and the value of a node as a snapshot hands
it out (`FChildrenNode valForExport:` without priorities). The last one decides
on the whole set of keys whether the program receives a dictionary or an array.

A dictionary is a list of entries with distinct keys. Its order is the order of
one iteration, so a fact about every iteration order is a fact about every
permutation of the list.
-/

import Mathlib.Data.List.Sigma
import PhotoMap.Photo

namespace PhotoMap

open Binary64

/-! ### Values -/

/-- What a snapshot hands to Swift as `Any`. -/
inductive Value where
  | null
  | bool (value : Bool)
  | integer (value : Int64)
  | double (value : Double)
  | string (value : Text)
  | array (items : List Value)
  | dictionary (entries : List (Σ _ : Text, Value))

/-- The entries of a dictionary, in the order of one iteration. -/
abbrev Entries := List (Σ _ : Text, Value)

/-- `as? [String: Any]`. -/
def Value.asDictionary? : Value → Option Entries
  | .dictionary entries => some entries
  | _ => none

/-- The value as an iteration meets it: the entries of a dictionary in an order of its keys. -/
def Value.iterate? : Value → List Text → Option Value
  | .dictionary entries, order =>
    if order.Perm entries.keys then
      some (.dictionary (order.filterMap fun key => (entries.dlookup key).map fun value =>
        ⟨key, value⟩))
    else none
  | value, [] => some value
  | _, _ :: _ => none

/-- `as? String`. -/
def Value.asString? : Value → Option Text
  | .string value => some value
  | _ => none

/-- `as? Int`: a number is bridged when an `Int` holds exactly its value. -/
def Value.asInt? : Value → Option Int64
  | .bool value => some (if value then 1 else 0)
  | .integer value => some value
  | .double value => value.exactInt64?
  | _ => none

/-- `as? Double`: a number is bridged when a `Double` holds exactly its value. -/
def Value.asDouble? : Value → Option Double
  | .bool value => some (.ofInt64 (if value then 1 else 0))
  | .integer value => Double.exactly? value
  | .double .nan => none
  | .double value => some value
  | _ => none

/-! ### Nodes -/

/-- A value without children. -/
inductive Leaf where
  | bool (value : Bool)
  | integer (value : Int64)
  | double (value : Double)
  | string (value : Text)
deriving DecidableEq

/-- A node of the database, without priorities. The empty node is the one without children. -/
inductive Node where
  | leaf (value : Leaf)
  | children (kids : List (Σ _ : Text, Node))

def Node.emptyNode : Node := .children []

def Node.isEmpty : Node → Bool
  | .leaf _ => false
  | .children kids => kids.isEmpty

/-- The steps from the root to a node. -/
abbrev Path := List Text

/-- The keys of the children. -/
def Node.keys : Node → List Text
  | .leaf _ => []
  | .children kids => kids.keys

def Node.getImmediateChild : Node → Text → Node
  | .leaf _, _ => .emptyNode
  | .children kids, childName => (kids.dlookup childName).getD .emptyNode

def Node.getChild : Node → Path → Node
  | node, [] => node
  | node, front :: rest => (node.getImmediateChild front).getChild rest

/-- `updateImmediateChild:withNewChild:`: an empty child is removed, and a leaf that gets a
child forgets its value. -/
def Node.updateImmediateChild : Node → Text → Node → Node
  | .leaf value, childName, newChild =>
    if newChild.isEmpty then .leaf value else .children [⟨childName, newChild⟩]
  | .children kids, childName, newChild =>
    if newChild.isEmpty then .children (kids.kerase childName)
    else .children (kids.kinsert childName newChild)

def Node.updateChild : Node → Path → Node → Node
  | _, [], newChild => newChild
  | node, front :: rest, newChild =>
    node.updateImmediateChild front ((node.getImmediateChild front).updateChild rest newChild)

theorem Node.getImmediateChild_updateImmediateChild (node : Node) (childName : Text)
    (newChild : Node) (stored : newChild.isEmpty = false) :
    (node.updateImmediateChild childName newChild).getImmediateChild childName = newChild := by
  cases node <;> simp [updateImmediateChild, getImmediateChild, stored]

theorem Node.updateImmediateChild_isEmpty (node : Node) (childName : Text) (newChild : Node)
    (stored : newChild.isEmpty = false) :
    (node.updateImmediateChild childName newChild).isEmpty = false := by
  cases node <;>
    simp only [updateImmediateChild, stored, Bool.false_eq_true, if_false] <;> rfl

theorem Node.updateChild_isEmpty (node : Node) (path : Path) (newChild : Node)
    (stored : newChild.isEmpty = false) : (node.updateChild path newChild).isEmpty = false := by
  induction path generalizing node with
  | nil => exact stored
  | cons front rest inductionHypothesis =>
    exact updateImmediateChild_isEmpty node front _ (inductionHypothesis _)

/-- A node that is written at a path is read there. -/
theorem Node.getChild_updateChild (node : Node) (path : Path) (newChild : Node)
    (stored : newChild.isEmpty = false) :
    (node.updateChild path newChild).getChild path = newChild := by
  induction path generalizing node with
  | nil => rfl
  | cons front rest inductionHypothesis =>
    rw [updateChild, getChild, getImmediateChild_updateImmediateChild node front _
      (updateChild_isEmpty _ rest newChild stored)]
    exact inductionHypothesis _

theorem Node.getImmediateChild_updateImmediateChild_ne (node : Node) {childName other : Text}
    (newChild : Node) (stored : newChild.isEmpty = false) (different : other ≠ childName) :
    (node.updateImmediateChild childName newChild).getImmediateChild other =
      node.getImmediateChild other := by
  cases node with
  | leaf value =>
    have missing : List.dlookup other ([⟨childName, newChild⟩] : List (Σ _ : Text, Node)) =
        none := by
      rw [List.dlookup_eq_none, List.keys_cons, List.keys_nil, List.mem_singleton]
      exact different
    simp only [updateImmediateChild, stored, Bool.false_eq_true, if_false, getImmediateChild,
      missing, Option.getD_none]
  | children kids =>
    simp only [updateImmediateChild, stored, Bool.false_eq_true, if_false, getImmediateChild]
    rw [List.dlookup_kinsert_ne different]

/-- What is written under one key leaves the children beside it as they are. -/
theorem Node.getChild_updateChild_sibling (node : Node) (path : Path) {key other : Text}
    (newChild : Node) (stored : newChild.isEmpty = false) (different : other ≠ key) :
    (node.updateChild (path ++ [key]) newChild).getChild (path ++ [other]) =
      node.getChild (path ++ [other]) := by
  induction path generalizing node with
  | nil => exact getImmediateChild_updateImmediateChild_ne node newChild stored different
  | cons front rest inductionHypothesis =>
    rw [List.cons_append, List.cons_append, updateChild, getChild, getChild,
      getImmediateChild_updateImmediateChild node front _
        (updateChild_isEmpty _ (rest ++ [key]) newChild stored)]
    exact inductionHypothesis _

/-! ### The node of a value -/

mutual

/-- `nodeFrom:`, of a value without priorities: children that are empty are not stored. -/
def Value.nodeFrom : Value → Node
  | .null => .emptyNode
  | .bool value => .leaf (.bool value)
  | .integer value => .leaf (.integer value)
  | .double value => .leaf (.double value)
  | .string value => .leaf (.string value)
  | .array items => .children (Value.nodesFromItems 0 items)
  | .dictionary entries => .children (Value.nodesFromEntries entries)
termination_by structural value => value

def Value.nodesFromItems (index : Nat) : List Value → List (Σ _ : Text, Node)
  | [] => []
  | item :: rest =>
    if item.nodeFrom.isEmpty then Value.nodesFromItems (index + 1) rest
    else ⟨decimal index, item.nodeFrom⟩ :: Value.nodesFromItems (index + 1) rest
termination_by structural items => items

def Value.nodesFromEntries : Entries → List (Σ _ : Text, Node)
  | [] => []
  | ⟨key, value⟩ :: rest =>
    if value.nodeFrom.isEmpty then Value.nodesFromEntries rest
    else ⟨key, value.nodeFrom⟩ :: Value.nodesFromEntries rest
termination_by structural entries => entries

end

/-! ### Integer keys -/

/-- What Foundation decides about the characters of a key: which characters are decimal digits,
and the number a scanner reads. A letter is not a decimal digit. -/
structure Foundation where
  decimalDigit : Character → Bool
  scanInteger : Text → Option Int64
  letter : ∀ scalar : Char, scalar.isAlpha = true →
    decimalDigit (.ofScalar scalar) = false

/-- The number of a string of decimal digits. -/
def Foundation.intForString (foundation : Foundation) (string : Text) : Option Int64 :=
  if string.all foundation.decimalDigit then foundation.scanInteger string else none

/-- A scanned number that no `NSInteger` holds is the largest one. -/
def saturate (number : Nat) : Int64 :=
  if number ≤ Int64.maxValue.toInt.toNat then Int64.ofNat number else Int64.maxValue

theorem not_isDigit_of_isAlpha (scalar : Char) (letter : scalar.isAlpha = true) :
    scalar.isDigit = false := by
  delta Char.isAlpha Char.isUpper Char.isLower at letter
  delta Char.isDigit
  simp only [Bool.or_eq_true, Bool.and_eq_true, decide_eq_true_eq, Bool.and_eq_false_iff,
    decide_eq_false_iff_not, ge_iff_le, UInt32.le_iff_toNat_le] at letter ⊢
  simp at letter ⊢
  omega

/-- Foundation on the ASCII characters. -/
def Foundation.ascii : Foundation where
  decimalDigit character := (asciiDigit? character).isSome
  scanInteger string :=
    if string.isEmpty then none
    else some (saturate (string.foldl (fun number character =>
      10 * number + (asciiDigit? character).getD 0) 0))
  letter scalar letter := by
    simp [asciiDigit?, Character.ofScalar, not_isDigit_of_isAlpha scalar letter]

/-- The state of the enumeration in `valForExport:`. -/
structure KeyScan where
  numKeys : Nat := 0
  maxKey : Int := 0
  allIntegerKeys : Bool := true

/-- One key of the enumeration. A leading zero that is not the whole key makes it a string. -/
def Foundation.visitKey (foundation : Foundation) (scan : KeyScan) (key : Text) : KeyScan :=
  let counted := { scan with numKeys := scan.numKeys + 1 }
  if !scan.allIntegerKeys then counted
  else if key.head? = some (.ofScalar '0') ∧ 1 < key.length then
    { counted with allIntegerKeys := false }
  else
    match foundation.intForString key with
    | some keyAsInt =>
      if scan.maxKey < keyAsInt.toInt then { counted with maxKey := keyAsInt.toInt } else counted
    | none => { counted with allIntegerKeys := false }

/-- The number a key stands for, when it is not taken as a string. -/
def Foundation.integerKey? (foundation : Foundation) (key : Text) : Option Int64 :=
  if key.head? = some (.ofScalar '0') ∧ 1 < key.length then none
  else foundation.intForString key

/-- A set of keys is array-like when every key is an integer below twice their number. -/
def Foundation.ArrayLike (foundation : Foundation) (keys : List Text) : Prop :=
  ∀ key ∈ keys, ∃ number, foundation.integerKey? key = some number ∧
    number.toInt < 2 * keys.length

/-- The keys are not array-like when one of them is not an integer or too large. -/
theorem Foundation.not_arrayLike_iff (foundation : Foundation) (keys : List Text) :
    ¬ foundation.ArrayLike keys ↔
      (∃ key ∈ keys, foundation.integerKey? key = none) ∨
        ∃ key ∈ keys, ∃ number, foundation.integerKey? key = some number ∧
          2 * (keys.length : ℤ) ≤ number.toInt := by
  constructor
  · intro notArrayLike
    simp only [ArrayLike, not_forall] at notArrayLike
    obtain ⟨key, member, notBelow⟩ := notArrayLike
    cases integer : foundation.integerKey? key with
    | none => exact Or.inl ⟨key, member, integer⟩
    | some number =>
      refine Or.inr ⟨key, member, number, integer, ?_⟩
      by_contra below
      exact notBelow ⟨number, integer, by omega⟩
  · rintro (⟨key, member, string⟩ | ⟨key, member, large, integer, above⟩) likeArray
    · obtain ⟨number, integer, -⟩ := likeArray key member
      rw [string] at integer
      cases integer
    · obtain ⟨number, same, below⟩ := likeArray key member
      rw [integer, Option.some_inj] at same
      rw [← same] at below
      omega

theorem Foundation.ArrayLike.perm {foundation : Foundation} {first second : List Text}
    (likeArray : foundation.ArrayLike first) (same : first.Perm second) :
    foundation.ArrayLike second := by
  intro key member
  obtain ⟨number, integer, below⟩ := likeArray key (same.mem_iff.mpr member)
  exact ⟨number, integer, by rw [← same.length_eq]; exact below⟩

/-- One key keeps the scan going when it is an integer, and raises the maximum to it. -/
theorem Foundation.visitKey_eq (foundation : Foundation) (scan : KeyScan) (key : Text) :
    foundation.visitKey scan key =
      match foundation.integerKey? key with
      | some number =>
        { numKeys := scan.numKeys + 1
          maxKey := if scan.allIntegerKeys then max scan.maxKey number.toInt else scan.maxKey
          allIntegerKeys := scan.allIntegerKeys }
      | none => { scan with numKeys := scan.numKeys + 1, allIntegerKeys := false } := by
  obtain ⟨numKeys, maxKey, allIntegerKeys⟩ := scan
  unfold visitKey integerKey?
  cases allIntegerKeys with
  | false =>
    simp only [Bool.not_false, if_true, Bool.false_eq_true, if_false]
    split <;> rfl
  | true =>
    simp only [Bool.not_true, Bool.false_eq_true, if_false, if_true]
    by_cases zero : key.head? = some (.ofScalar '0') ∧ 1 < key.length
    · rw [if_pos zero, if_pos zero]
    · rw [if_neg zero, if_neg zero]
      cases foundation.intForString key with
      | none => rfl
      | some number =>
        dsimp only
        split
        · rename_i less
          rw [max_eq_right (le_of_lt less)]
        · rename_i notLess
          rw [max_eq_left (not_lt.mp notLess)]

theorem Foundation.scan_numKeys (foundation : Foundation) (scan : KeyScan) (keys : List Text) :
    (keys.foldl foundation.visitKey scan).numKeys = scan.numKeys + keys.length := by
  induction keys generalizing scan with
  | nil => rfl
  | cons key rest inductionHypothesis =>
    rw [List.foldl_cons, inductionHypothesis, visitKey_eq, List.length_cons]
    split <;> simp only <;> omega

/-- The enumeration ends with every key an integer below the bound exactly when it started so
and every key it visited is one. -/
theorem Foundation.scan_below (foundation : Foundation) (scan : KeyScan) (keys : List Text)
    (bound : Int) :
    ((keys.foldl foundation.visitKey scan).allIntegerKeys = true ∧
        (keys.foldl foundation.visitKey scan).maxKey < bound) ↔
      (scan.allIntegerKeys = true ∧ scan.maxKey < bound) ∧
        ∀ key ∈ keys, ∃ number, foundation.integerKey? key = some number ∧
          number.toInt < bound := by
  induction keys generalizing scan with
  | nil => simp
  | cons key rest inductionHypothesis =>
    rw [List.foldl_cons, inductionHypothesis, visitKey_eq, List.forall_mem_cons]
    cases foundation.integerKey? key with
    | none => simp
    | some number =>
      cases scan.allIntegerKeys with
      | false => simp
      | true =>
        simp only [if_true, true_and, max_lt_iff, Option.some_inj, exists_eq_left', and_assoc]

/-! ### The value of a node -/

def Leaf.val : Leaf → Value
  | .bool value => .bool value
  | .integer value => .integer value
  | .double value => .double value
  | .string value => .string value

/-- The end of `valForExport:`: an array with holes for array-like keys, and the dictionary
otherwise. -/
def Foundation.exportChildren (foundation : Foundation) (obj : Entries) : Value :=
  let scan := obj.keys.foldl foundation.visitKey {}
  if scan.allIntegerKeys ∧ scan.maxKey < 2 * scan.numKeys then
    .array ((List.range (scan.maxKey.toNat + 1)).map fun index =>
      (obj.dlookup (decimal index)).getD .null)
  else
    .dictionary obj

mutual

/-- `valForExport:NO`. -/
def Foundation.val (foundation : Foundation) : Node → Value
  | .leaf value => value.val
  | .children kids =>
    if kids.isEmpty then .null else foundation.exportChildren (foundation.vals kids)
termination_by structural node => node

def Foundation.vals (foundation : Foundation) : List (Σ _ : Text, Node) → Entries
  | [] => []
  | ⟨key, childNode⟩ :: rest => ⟨key, foundation.val childNode⟩ :: foundation.vals rest
termination_by structural kids => kids

end

theorem Foundation.vals_eq_map (foundation : Foundation) (kids : List (Σ _ : Text, Node)) :
    foundation.vals kids = kids.map fun kid => ⟨kid.1, foundation.val kid.2⟩ := by
  induction kids with
  | nil => rfl
  | cons kid rest inductionHypothesis => rw [vals, inductionHypothesis, List.map_cons]

theorem Foundation.keys_vals (foundation : Foundation) (kids : List (Σ _ : Text, Node)) :
    (foundation.vals kids).keys = kids.keys := by
  rw [vals_eq_map, List.keys, List.map_map]
  rfl

/-- Children whose keys are not array-like are handed out as a dictionary. -/
theorem Foundation.val_dictionary (foundation : Foundation) (kids : List (Σ _ : Text, Node))
    (stored : kids ≠ []) (strings : ¬ foundation.ArrayLike kids.keys) :
    foundation.val (.children kids) = .dictionary (foundation.vals kids) := by
  rw [val, if_neg (by simpa using stored), exportChildren]
  refine if_neg fun likeArray => strings fun key member => ?_
  rw [scan_numKeys, keys_vals] at likeArray
  have below := ((scan_below foundation {} kids.keys _).mp likeArray).2 key member
  simpa [List.length_map, List.keys] using below

/-- Array-like children are handed out as an array. -/
theorem Foundation.val_array (foundation : Foundation) (kids : List (Σ _ : Text, Node))
    (stored : kids ≠ []) (likeArray : foundation.ArrayLike kids.keys) :
    ∃ items, foundation.val (.children kids) = .array items := by
  have positive : 0 < kids.keys.length := by
    simpa [List.keys, List.length_pos_iff] using stored
  rw [val, if_neg (by simpa using stored), exportChildren, if_pos]
  · exact ⟨_, rfl⟩
  · rw [scan_numKeys, keys_vals]
    refine (scan_below foundation {} kids.keys _).mpr ⟨⟨rfl, ?_⟩, ?_⟩
    · simp only [zero_add]
      omega
    · intro key member
      obtain ⟨number, integer, below⟩ := likeArray key member
      exact ⟨number, integer, by simpa using below⟩

/-- A key that starts with a letter is not an integer. -/
theorem Foundation.integerKey?_letter (foundation : Foundation) (scalar : Char)
    (letter : scalar.isAlpha = true) (rest : Text) :
    foundation.integerKey? (.ofScalar scalar :: rest) = none := by
  have notDigit := foundation.letter scalar letter
  unfold integerKey? intForString
  split
  · rfl
  · simp [notDigit]

end PhotoMap
