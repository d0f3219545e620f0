/-
This file models the pending writes of the database client as one tree of nodes
(`FCompoundWrite`), without priorities. A write below an earlier one is made in
the node of the earlier one, so on the way to any path there is at most one
write. The tree is read as writes laid over data: adding a write is adding it
to them, and applying the tree to a node lays them over the data of the node.
-/

import PhotoMap.ImmutableTree
import PhotoMap.Nodes

namespace PhotoMap

open Overlay

/-- `FCompoundWrite`. -/
structure CompoundWrite where
  writeTree : ImmutableTree Node

namespace CompoundWrite

/-! ### The operations -/

def emptyWrite : CompoundWrite := ⟨.empty⟩

/-- `addWrite:atPath:`. -/
def addWrite (write : CompoundWrite) (node : Node) (path : Path) : CompoundWrite :=
  match path with
  | [] => ⟨.initWithValue node⟩
  | _ :: _ =>
    match write.writeTree.findRootMostValueAndPath path with
    | some rootMost =>
      let value := rootMost.2.updateChild (relativePathFrom rootMost.1 path) node
      ⟨write.writeTree.setValue value rootMost.1⟩
    | none => ⟨write.writeTree.setTree (.initWithValue node) path⟩

/-- The calls of the block of `enumerateWrites:`. -/
def enumerateWrites (write : CompoundWrite) : List (Path × Node) := write.writeTree.forEach

/-- `addCompoundWrite:atPath:`. -/
def addCompoundWrite (write compoundWrite : CompoundWrite) (path : Path) : CompoundWrite :=
  compoundWrite.enumerateWrites.foldl
    (fun newWrite found => newWrite.addWrite found.2 (path ++ found.1)) write

/-- `removeWriteAtPath:`. -/
def removeWriteAtPath (write : CompoundWrite) (path : Path) : CompoundWrite :=
  match path with
  | [] => emptyWrite
  | _ :: _ => ⟨write.writeTree.setTree .empty path⟩

/-- `completeNodeAtPath:`. -/
def completeNodeAtPath (write : CompoundWrite) (path : Path) : Option Node :=
  (write.writeTree.findRootMostValueAndPath path).map fun rootMost =>
    rootMost.2.getChild (relativePathFrom rootMost.1 path)

def hasCompleteWriteAtPath (write : CompoundWrite) (path : Path) : Bool :=
  (write.completeNodeAtPath path).isSome

/-- `childCompoundWriteAtPath:`. -/
def childCompoundWriteAtPath (write : CompoundWrite) (path : Path) : CompoundWrite :=
  match path with
  | [] => write
  | _ :: _ =>
    match write.completeNodeAtPath path with
    | some shadowingNode => ⟨.initWithValue shadowingNode⟩
    | none => ⟨write.writeTree.subtreeAtPath path⟩

mutual

/-- `applySubtreeWrite:atPath:toNode:`. -/
def applySubtreeWrite : ImmutableTree Node → Path → Node → Node
  | .mk (some value) _, relativePath, node => node.updateChild relativePath value
  | .mk none children, relativePath, node => applyChildWrites children relativePath node
termination_by structural subtreeWrite => subtreeWrite

def applyChildWrites : List (Σ _ : Text, ImmutableTree Node) → Path → Node → Node
  | [], _, node => node
  | ⟨childKey, childTree⟩ :: rest, relativePath, node =>
    applyChildWrites rest relativePath
      (applySubtreeWrite childTree (relativePath ++ [childKey]) node)
termination_by structural children => children

end

/-- `applyToNode:`. -/
def applyToNode (write : CompoundWrite) (node : Node) : Node :=
  applySubtreeWrite write.writeTree [] node

def isEmpty (write : CompoundWrite) : Bool := write.writeTree.isEmpty

/-! ### The writes of a tree -/

/-- The tree as a map from paths to nodes. -/
def writes (write : CompoundWrite) : Writes Text Node := write.writeTree.valueAtPath

/-- Every value is at an end of the tree, and the nodes are as the client builds them. -/
structure WellFormed (write : CompoundWrite) : Prop where
  proper : write.writeTree.Proper
  nodes : write.writes.AllValid Node.WellFormed

end CompoundWrite

namespace ImmutableTree

variable {tree : ImmutableTree Node} {node : Node}

theorem findRootMost_of_value {value : Node} (path : Path) (here : tree.value = some value) :
    tree.findRootMostValueAndPath path = some ([], value) := by
  cases path <;>
    rw [findRootMostValueAndPath, findRootMostMatchingPath, here] <;> rfl

theorem findRootMost_cons (noValue : tree.value = none) (key : Text) (path : Path) :
    tree.findRootMostValueAndPath (key :: path) =
      (((tree.child? key).getD empty).findRootMostValueAndPath path).map fun found =>
        (key :: found.1, found.2) := by
  rw [findRootMostValueAndPath, findRootMostMatchingPath, noValue, Option.filter_none]
  cases tree.child? key with
  | none => cases path <;> rfl
  | some child => rfl

/-- The root-most value on a path is the write found on the way to it. -/
theorem findRootMost_eq (tree : ImmutableTree Node) (path : Path) :
    (tree.findRootMostValueAndPath path).map (fun rootMost =>
        (rootMost.2, relativePathFrom rootMost.1 path)) =
      Writes.find path tree.valueAtPath := by
  induction path generalizing tree with
  | nil =>
    cases here : tree.value with
    | some value =>
      rw [findRootMost_of_value [] here, Writes.find, valueAtPath, here]
      rfl
    | none =>
      rw [findRootMostValueAndPath, findRootMostMatchingPath, here, Writes.find, valueAtPath, here]
      rfl
  | cons key path inductionHypothesis =>
    cases here : tree.value with
    | some value =>
      rw [findRootMost_of_value _ here, Writes.find, valueAtPath, here]
      rfl
    | none =>
      rw [findRootMost_cons here, Writes.find, valueAtPath, here]
      have child : Writes.under tree.valueAtPath key = ((tree.child? key).getD empty).valueAtPath :=
        funext fun rest => valueAtPath_cons tree key rest
      rw [child, ← inductionHypothesis, Option.map_map]
      rfl

/-- Adding a write: it is made in the node of the root-most value on the path, or is put there as
a tree of its own. -/
def addValue (tree : ImmutableTree Node) (path : Path) (node : Node) : ImmutableTree Node :=
  match tree.findRootMostValueAndPath path with
  | some rootMost =>
    tree.setValue (rootMost.2.updateChild (relativePathFrom rootMost.1 path) node) rootMost.1
  | none => tree.setTree (.initWithValue node) path

theorem addValue_of_value {value : Node} (path : Path) (here : tree.value = some value) :
    tree.addValue path node = .mk (some (value.updateChild path node)) tree.children := by
  rw [addValue, findRootMost_of_value path here]
  rfl

/-- One level of adding, when the child that is added is not empty. -/
theorem addValue_cons_of_stored (noValue : tree.value = none) (key : Text) (path : Path)
    (stored : (((tree.child? key).getD empty).addValue path node).isEmpty = false) :
    tree.addValue (key :: path) node =
      .mk none (tree.children.kinsert key (((tree.child? key).getD empty).addValue path node)) := by
  rw [addValue] at stored ⊢
  rw [findRootMost_cons noValue, addValue]
  cases found : ((tree.child? key).getD empty).findRootMostValueAndPath path with
  | none =>
    rw [found] at stored
    show ImmutableTree.mk tree.value (if _ then _ else _) = _
    rw [noValue, stored]
    rfl
  | some rootMost =>
    show ImmutableTree.mk tree.value _ = _
    rw [noValue]
    rfl

theorem addValue_nil (noValue : tree.value = none) :
    tree.addValue [] node = .initWithValue node := by
  have missing : tree.findRootMostValueAndPath [] = none := by
    rw [findRootMostValueAndPath, findRootMostMatchingPath, noValue]
    rfl
  rw [addValue, missing]
  rfl

theorem isEmpty_addValue (tree : ImmutableTree Node) (path : Path) (node : Node) :
    (tree.addValue path node).isEmpty = false := by
  induction path generalizing tree with
  | nil =>
    cases here : tree.value with
    | some value => rw [addValue_of_value [] here]; rfl
    | none => rw [addValue_nil here]; rfl
  | cons key path inductionHypothesis =>
    cases here : tree.value with
    | some value => rw [addValue_of_value _ here]; rfl
    | none => rw [addValue_cons_of_stored here key path (inductionHypothesis _)]; rfl

theorem addValue_cons (noValue : tree.value = none) (key : Text) (path : Path) :
    tree.addValue (key :: path) node =
      .mk none (tree.children.kinsert key (((tree.child? key).getD empty).addValue path node)) :=
  addValue_cons_of_stored noValue key path (isEmpty_addValue _ path node)

theorem Proper.addValue (proper : tree.Proper) (path : Path) (node : Node) :
    (tree.addValue path node).Proper := by
  induction path generalizing tree with
  | nil =>
    cases proper with
    | value value =>
      rw [addValue_of_value [] rfl]
      exact .value _
    | children kids distinct each =>
      rw [addValue_nil rfl]
      exact .value node
  | cons key path inductionHypothesis =>
    cases proper with
    | value value =>
      rw [addValue_of_value _ rfl]
      exact .value _
    | children kids distinct each =>
      have whole : (ImmutableTree.mk none kids).Proper := .children kids distinct each
      have replaced := whole.replaceChild rfl key (inductionHypothesis (whole.child_getD key))
      rw [isEmpty_addValue] at replaced
      rw [addValue_cons rfl]
      exact replaced

/-- Adding a value to the tree adds the write to its map. -/
theorem Proper.valueAtPath_addValue (proper : tree.Proper) (path : Path) (node : Node) :
    (tree.addValue path node).valueAtPath = Writes.add Node.updateChild path node tree.valueAtPath := by
  induction path generalizing tree with
  | nil =>
    funext other
    cases here : tree.value with
    | some value =>
      rw [addValue_of_value [] here]
      cases other with
      | nil => rfl
      | cons key other =>
        have nothing := proper.valueAtPath_below here key other
        exact nothing
    | none =>
      rw [addValue_nil here]
      cases other <;> rfl
  | cons front rest inductionHypothesis =>
    funext other
    cases here : tree.value with
    | some value =>
      have shadowed : tree.valueAtPath [] = some value := here
      rw [addValue_of_value _ here]
      cases other with
      | nil => exact (Writes.add_shadowed shadowed).1.symm
      | cons key other => exact ((Writes.add_shadowed shadowed).2 key other).symm
    | none =>
      have isOpen : tree.valueAtPath [] = none := here
      rw [addValue_cons here]
      cases other with
      | nil => exact (Writes.add_open_nil isOpen).symm
      | cons key other =>
        rw [Writes.add_open_cons isOpen]
        have replaced := valueAtPath_replaceChild proper front key other
          (((tree.child? front).getD empty).addValue rest node)
        rw [isEmpty_addValue, here] at replaced
        refine replaced.trans ?_
        by_cases same : key = front
        · subst same
          rw [if_pos rfl, if_pos rfl, inductionHypothesis (proper.child_getD key)]
          refine congrArg (fun writes => Writes.add _ rest node writes other) ?_
          exact funext fun path => (valueAtPath_cons tree key path).symm
        · rw [if_neg same, if_neg same]

/-! ### Removing a subtree -/

theorem isEmpty_setTree_empty (path : Path) :
    ((empty : ImmutableTree Node).setTree empty path).isEmpty = true := by
  induction path with
  | nil => rfl
  | cons key path inductionHypothesis =>
    show (ImmutableTree.mk none (if (empty.setTree empty path).isEmpty then _ else _)).isEmpty = true
    rw [if_pos inductionHypothesis]
    rfl

theorem Proper.setTree_empty (proper : tree.Proper) (path : Path) :
    (tree.setTree empty path).Proper := by
  induction path generalizing tree with
  | nil => exact proper_empty
  | cons key path inductionHypothesis =>
    cases proper with
    | value value =>
      show (ImmutableTree.mk (some value)
        (if (empty.setTree empty path).isEmpty then _ else _)).Proper
      rw [if_pos (isEmpty_setTree_empty path)]
      exact .value value
    | children kids distinct each =>
      have whole : (ImmutableTree.mk none kids).Proper := .children kids distinct each
      exact whole.replaceChild rfl key (inductionHypothesis (whole.child_getD key))

end ImmutableTree

/-! ### Pending writes as writes laid over data -/

namespace CompoundWrite

variable {write compoundWrite : CompoundWrite} {node : Node}

theorem writes_emptyWrite : emptyWrite.writes = Writes.empty :=
  funext ImmutableTree.valueAtPath_empty

theorem wellFormed_emptyWrite : emptyWrite.WellFormed := by
  refine ⟨ImmutableTree.proper_empty, fun path node written => ?_⟩
  rw [writes_emptyWrite] at written
  cases written

theorem writeTree_addWrite (write : CompoundWrite) (node : Node) (key : Text) (path : Path) :
    (write.addWrite node (key :: path)).writeTree =
      write.writeTree.addValue (key :: path) node := by
  rw [addWrite, ImmutableTree.addValue]
  split <;> rfl

/-- `addWrite:atPath:` adds a write to the map. -/
theorem WellFormed.writes_addWrite (wellFormed : write.WellFormed) (node : Node) (path : Path) :
    (write.addWrite node path).writes = Writes.add Node.updateChild path node write.writes := by
  cases path with
  | nil =>
    funext other
    cases other <;> rfl
  | cons key path =>
    rw [writes, writeTree_addWrite]
    exact wellFormed.proper.valueAtPath_addValue (key :: path) node

theorem WellFormed.addWrite (wellFormed : write.WellFormed) (nodeFormed : node.WellFormed)
    (path : Path) : (write.addWrite node path).WellFormed := by
  constructor
  · cases path with
    | nil => exact .value node
    | cons key path =>
      rw [writeTree_addWrite]
      exact wellFormed.proper.addValue (key :: path) node
  · rw [wellFormed.writes_addWrite]
    exact wellFormed.nodes.add Node.lawful nodeFormed

/-- `removeWriteAtPath:` forgets the writes at a path and below it. -/
theorem WellFormed.writes_removeWriteAtPath (wellFormed : write.WellFormed) (path : Path) :
    (write.removeWriteAtPath path).writes = Writes.forget [path] write.writes := by
  funext other
  have inside : (∃ place ∈ [path], place <+: other) ↔ path <+: other := by simp
  cases path with
  | nil =>
    rw [Writes.forget, if_pos (inside.mpr List.nil_prefix)]
    exact ImmutableTree.valueAtPath_empty other
  | cons key path =>
    show (write.writeTree.setTree .empty (key :: path)).valueAtPath other = _
    rw [wellFormed.proper.valueAtPath_setTree, Writes.forget]
    by_cases below : key :: path <+: other
    · rw [if_pos below, if_pos (inside.mpr below), ImmutableTree.valueAtPath_empty]
    · rw [if_neg below, if_neg (mt inside.mp below)]
      rfl

theorem WellFormed.removeWriteAtPath (wellFormed : write.WellFormed) (path : Path) :
    (write.removeWriteAtPath path).WellFormed := by
  constructor
  · cases path with
    | nil => exact ImmutableTree.proper_empty
    | cons key path => exact wellFormed.proper.setTree_empty (key :: path)
  · intro other node written
    rw [wellFormed.writes_removeWriteAtPath, Writes.forget] at written
    split at written
    · cases written
    · exact wellFormed.nodes other node written

/-- The writes of `enumerateWrites:` are those of the map. -/
theorem WellFormed.mem_enumerateWrites (wellFormed : write.WellFormed) (path : Path)
    (node : Node) : (path, node) ∈ write.enumerateWrites ↔ write.writes path = some node :=
  wellFormed.proper.mem_forEach path node

theorem WellFormed.pairwise_enumerateWrites (wellFormed : write.WellFormed) :
    write.enumerateWrites.Pairwise fun first second => Apart first.1 second.1 :=
  wellFormed.proper.pairwise_forEach

theorem completeNodeAtPath_eq (write : CompoundWrite) (path : Path) :
    write.completeNodeAtPath path =
      (Writes.find path write.writes).map fun found => found.1.getChild found.2 := by
  rw [writes, ← ImmutableTree.findRootMost_eq, Option.map_map]
  rfl

section Reading

variable {Item : Type} {read : Node → Data Text Item}
  (cut : ∀ node path, read (node.getChild path) = Data.below (read node) path)

include cut

/-- A complete node is what the data is below its path, whatever was there before. -/
theorem overlaid_of_completeNodeAtPath {path : Path}
    (complete : write.completeNodeAtPath path = some node) (data : Data Text Item) (rest : Path) :
    Writes.overlaid read (path ++ rest) write.writes data = read node rest := by
  rw [completeNodeAtPath_eq, Option.map_eq_some_iff] at complete
  obtain ⟨found, there, rfl⟩ := complete
  rw [Writes.overlaid_append_of_find there, cut]
  rfl

/-- The writes below a path, laid over the data below it. -/
theorem overlaid_childCompoundWriteAtPath (write : CompoundWrite) (path : Path)
    (data : Data Text Item) (rest : Path) :
    Writes.overlaid read rest (write.childCompoundWriteAtPath path).writes
        (fun rest => data (path ++ rest)) =
      Writes.overlaid read (path ++ rest) write.writes data := by
  cases path with
  | nil => rfl
  | cons key path =>
    rw [childCompoundWriteAtPath]
    cases complete : write.completeNodeAtPath (key :: path) with
    | some shadowingNode =>
      rw [overlaid_of_completeNodeAtPath cut complete]
      exact Writes.overlaid_shadowed rfl
    | none =>
      rw [completeNodeAtPath_eq, Option.map_eq_none_iff] at complete
      rw [Writes.overlaid_append_of_find_none complete]
      refine congrArg (fun writes => Writes.overlaid read rest writes _) (funext fun other => ?_)
      exact ImmutableTree.valueAtPath_subtreeAtPath write.writeTree (key :: path) other

end Reading

theorem WellFormed.completeNodeAtPath (wellFormed : write.WellFormed) {path : Path}
    (complete : write.completeNodeAtPath path = some node) : node.WellFormed := by
  rw [completeNodeAtPath_eq, Option.map_eq_some_iff] at complete
  obtain ⟨found, there, rfl⟩ := complete
  obtain ⟨above, written, -⟩ := Writes.exists_of_find there
  exact (wellFormed.nodes above found.1 written).getChild found.2

theorem WellFormed.childCompoundWriteAtPath (wellFormed : write.WellFormed) (path : Path) :
    (write.childCompoundWriteAtPath path).WellFormed := by
  cases path with
  | nil => exact wellFormed
  | cons key path =>
    rw [CompoundWrite.childCompoundWriteAtPath]
    cases complete : write.completeNodeAtPath (key :: path) with
    | some shadowingNode =>
      have formed := wellFormed.completeNodeAtPath complete
      refine ⟨.value _, fun other node at_ => ?_⟩
      cases other with
      | nil =>
        cases at_
        exact formed
      | cons key other => cases at_
    | none =>
      refine ⟨wellFormed.proper.subtreeAtPath (key :: path), fun other node written => ?_⟩
      refine wellFormed.nodes (key :: path ++ other) node ?_
      rw [writes, ImmutableTree.valueAtPath_subtreeAtPath] at written
      exact written

/-! ### Applying the writes -/

/-- Applying a subtree makes its writes one after the other. -/
theorem applySubtreeWrite_eq {tree : ImmutableTree Node} (proper : tree.Proper)
    (relativePath : Path) (node : Node) :
    applySubtreeWrite tree relativePath node =
      tree.forEach.foldl (fun node found => node.updateChild (relativePath ++ found.1) found.2)
        node := by
  induction proper generalizing relativePath node with
  | value value =>
    show node.updateChild relativePath value = node.updateChild (relativePath ++ []) value
    rw [List.append_nil]
  | children kids distinct each inductionHypothesis =>
    rw [applySubtreeWrite, ImmutableTree.forEach, Option.toList_none, List.map_nil,
      List.append_nil]
    clear distinct
    induction kids generalizing node with
    | nil => rfl
    | cons kid rest restHypothesis =>
      rw [applyChildWrites, ImmutableTree.forEachChild, List.foldl_append, List.foldl_map,
        inductionHypothesis kid List.mem_cons_self,
        restHypothesis (fun kid member => each kid (List.mem_cons_of_mem _ member))
          fun kid member => inductionHypothesis kid (List.mem_cons_of_mem _ member)]
      simp only [List.append_assoc, List.singleton_append]

theorem WellFormed.enumerateWrites (wellFormed : write.WellFormed) :
    ∀ found ∈ write.enumerateWrites, found.2.WellFormed := fun found member =>
  wellFormed.nodes found.1 found.2 ((wellFormed.mem_enumerateWrites _ _).mp member)

theorem applyToNode_eq (wellFormed : write.WellFormed) (node : Node) :
    write.applyToNode node = write.enumerateWrites.foldl
      (fun node found => node.updateChild found.1 found.2) node := by
  rw [applyToNode, applySubtreeWrite_eq wellFormed.proper]
  rfl

theorem WellFormed.applyToNode (wellFormed : write.WellFormed) (nodeFormed : node.WellFormed) :
    (write.applyToNode node).WellFormed := by
  rw [applyToNode_eq wellFormed]
  exact nodeFormed.foldl_updateChild wellFormed.enumerateWrites

/-- Making the writes one after the other is laying them over the data. -/
theorem WellFormed.afterAll_enumerateWrites {Item : Type} {read : Node → Data Text Item}
    (wellFormed : write.WellFormed) (lawful : Writes.Lawful read Node.updateChild Node.WellFormed)
    (data : Data Text Item) :
    Data.afterAll read write.enumerateWrites data =
      fun path => Writes.overlaid read path write.writes data := by
  have layered : Writes.layer Node.updateChild write.enumerateWrites Writes.empty =
      write.writes := by
    funext path
    refine Option.ext fun node => ?_
    rw [Writes.layer_eq_some_iff wellFormed.pairwise_enumerateWrites
      fun found _ => Writes.apart_empty found.1, wellFormed.mem_enumerateWrites]
    exact or_iff_right (Option.some_ne_none node).symm
  rw [← layered, Writes.overlaid_layer_empty_of_apart lawful wellFormed.enumerateWrites
    wellFormed.pairwise_enumerateWrites]

/-- `applyToNode:` lays the writes over the data of the node. -/
theorem WellFormed.leafAt_applyToNode (wellFormed : write.WellFormed)
    (nodeFormed : node.WellFormed) :
    (write.applyToNode node).leafAt =
      fun path => Writes.overlaid Node.leafAt path write.writes node.leafAt := by
  rw [applyToNode_eq wellFormed, ← wellFormed.afterAll_enumerateWrites Node.lawful]
  exact nodeFormed.leafAt_foldl_updateChild wellFormed.enumerateWrites

end CompoundWrite

end PhotoMap
