/-
This file is about the way of an operation down the tree of the views. A view
below the end of the operation's path sees the part that concerns its place, a
view on the path sees the operation with the rest of the path, and a view beside
it is not visited. What a visited view is told to write is what the operation
writes below its place, and the tree is gone through to its end when no view
fails.
-/

import PhotoMap.SyncTree
import PhotoMap.ViewMerges

namespace PhotoMap

open Overlay

/-! ### Operations on their way -/

namespace CompoundWrite

variable {write : CompoundWrite} {childKey : Text}

/-- The writes of a child, made in its data, are those of the merge made in the whole data. -/
theorem WellFormed.afterAll_under (formed : write.WellFormed) (childKey : Text)
    (data : Data Text Leaf) :
    (Data.afterAll Node.dataAt write.enumerateWrites data).under childKey =
      Data.afterAll Node.dataAt
        (write.childCompoundWriteAtPath [childKey]).enumerateWrites (data.under childKey) := by
  rw [formed.afterAll_enumerateWrites Node.lawful_dataAt,
    (formed.childCompoundWriteAtPath [childKey]).afterAll_enumerateWrites Node.lawful_dataAt]
  exact funext fun path =>
    (overlaid_childCompoundWriteAtPath Node.dataAt_getChild write [childKey] data path).symm

/-- What a merge covers under a key is covered by the writes of the child. -/
theorem Covers.child {path : Path} (covered : write.writes.Covers (childKey :: path)) :
    (write.childCompoundWriteAtPath [childKey]).writes.Covers path := by
  obtain ⟨above, isPrefix, written⟩ := covered
  rw [childCompoundWriteAtPath]
  cases complete : write.completeNodeAtPath [childKey] with
  | some shadowingNode => exact ⟨[], List.nil_prefix, Option.some_ne_none shadowingNode⟩
  | none =>
    rw [completeNodeAtPath_eq, Option.map_eq_none_iff] at complete
    cases above with
    | nil => exact absurd (Writes.find_eq_none_iff.mp complete [] List.nil_prefix) written
    | cons front rest =>
      obtain ⟨rfl, tail⟩ := List.cons_prefix_cons.mp isPrefix
      refine ⟨rest, tail, ?_⟩
      rw [writes, ImmutableTree.valueAtPath_subtreeAtPath]
      exact written

theorem WellFormed.covers_iff (formed : write.WellFormed) (path : Path) :
    write.writes.Covers path ↔ ∃ found ∈ write.enumerateWrites, found.1 <+: path := by
  constructor
  · rintro ⟨above, isPrefix, written⟩
    obtain ⟨node, stored⟩ := Option.ne_none_iff_exists'.mp written
    exact ⟨(above, node), (formed.mem_enumerateWrites above node).mpr stored, isPrefix⟩
  · rintro ⟨found, member, isPrefix⟩
    refine ⟨found.1, isPrefix, ?_⟩
    rw [(formed.mem_enumerateWrites found.1 found.2).mp member]
    exact Option.some_ne_none found.2

theorem enumerateWrites_of_isEmpty (formed : write.WellFormed) (nothing : write.isEmpty = true) :
    write.enumerateWrites = [] := by
  refine List.eq_nil_iff_forall_not_mem.mpr fun found member => ?_
  have written := (formed.mem_enumerateWrites found.1 found.2).mp member
  rw [writes, ImmutableTree.valueAtPath_of_isEmpty nothing] at written
  cases written

/-- A merge with a write at its root writes nothing else. -/
theorem WellFormed.enumerateWrites_of_rootWrite (formed : write.WellFormed) {node : Node}
    (root : write.rootWrite = some node) : write.enumerateWrites = [([], node)] := by
  obtain ⟨tree⟩ := write
  have proper := formed.proper
  cases proper with
  | value value =>
    cases root
    rfl
  | children kids distinct each => cases root

end CompoundWrite

namespace Operation

/-- The operation that reaches the view of a path. -/
def operationForPath : Path → Operation → Option Operation
  | [], operation => some operation
  | childKey :: rest, operation =>
    (operation.operationForVisited childKey).bind (operationForPath rest)

/-- What an operation writes. -/
def writes : Operation → List (Path × Node)
  | .overwrite _ path snap => [(path, snap)]
  | .merge _ path children => ViewProcessor.mergedWrites path children
  | .ackUserWrite _ _ _ => []
  | .listenComplete _ => []

/-- What an operation writes, if there is one. -/
def writesOf (operation : Option Operation) : List (Path × Node) := operation.elim [] writes

/-- A write of the user or of the server. A merge of the server has no write at its root. -/
def IsWriteOf (fromUser : Bool) : Operation → Prop
  | .overwrite source _ _ => source = fromUser
  | .merge source _ children =>
    source = fromUser ∧ (source = false → children.rootWrite = none)
  | .ackUserWrite _ _ _ => False
  | .listenComplete _ => False

variable {operation next : Operation} {childKey : Text}

theorem WellFormed.writes (formed : operation.WellFormed) :
    ∀ write ∈ operation.writes, write.2.WellFormed := by
  intro write member
  cases operation with
  | overwrite fromUser path snap =>
    rw [List.mem_singleton.mp member]
    exact formed
  | merge fromUser path children =>
    exact ViewProcessor.wellFormed_mergedWrites formed path write member
  | ackUserWrite path affectedTree revert => cases member
  | listenComplete path => cases member

/-! ### One key further -/

theorem operationForVisited_overwrite_cons (fromUser : Bool) (front : Text) (rest : Path)
    (snap : Node) (childKey : Text) :
    (Operation.overwrite fromUser (front :: rest) snap).operationForVisited childKey =
      if front = childKey then some (.overwrite fromUser rest snap) else none := rfl

theorem operationForVisited_merge_cons (fromUser : Bool) (front : Text) (rest : Path)
    (children : CompoundWrite) (childKey : Text) :
    (Operation.merge fromUser (front :: rest) children).operationForVisited childKey =
      if front = childKey then some (.merge fromUser rest children) else none := rfl

theorem operationForVisited_ackUserWrite_cons (front : Text) (rest : Path)
    (affectedTree : ImmutableTree Unit) (revert : Bool) (childKey : Text) :
    (Operation.ackUserWrite (front :: rest) affectedTree revert).operationForVisited childKey =
      if front = childKey then some (.ackUserWrite rest affectedTree revert) else none := rfl

theorem operationForVisited_listenComplete_cons (front : Text) (rest : Path) (childKey : Text) :
    (Operation.listenComplete (front :: rest)).operationForVisited childKey =
      if front = childKey then some (.listenComplete rest) else none := rfl

/-- A merge at its end reaches a child with what it writes there. -/
theorem operationForVisited_merge (fromUser : Bool) (children : CompoundWrite) (childKey : Text) :
    (Operation.merge fromUser [] children).operationForVisited childKey =
      if (children.childCompoundWriteAtPath [childKey]).isEmpty then none
      else
        match (children.childCompoundWriteAtPath [childKey]).rootWrite with
        | some rootWrite => some (.overwrite fromUser [] rootWrite)
        | none => some (.merge fromUser [] (children.childCompoundWriteAtPath [childKey])) := rfl

/-- The end of a pending write reaches every child, with what is affected of it. -/
theorem operationForVisited_ackUserWrite (affectedTree : ImmutableTree Unit) (revert : Bool)
    (childKey : Text) :
    ∃ childTree, (Operation.ackUserWrite [] affectedTree revert).operationForVisited childKey =
        some (.ackUserWrite [] childTree revert) ∧
      (childTree.value = none →
        affectedTree.value = none ∧ childTree = affectedTree.subtreeAtPath [childKey]) := by
  cases value : affectedTree.value with
  | some here =>
    refine ⟨affectedTree, ?_, fun noValue => absurd (value.symm.trans noValue) nofun⟩
    simp only [Operation.operationForVisited, path, operationForChild, value]
  | none =>
    refine ⟨affectedTree.subtreeAtPath [childKey], ?_, fun _ => ⟨rfl, rfl⟩⟩
    simp only [Operation.operationForVisited, path, operationForChild, value]

theorem WellFormed.operationForVisited (formed : operation.WellFormed)
    (visited : operation.operationForVisited childKey = some next) : next.WellFormed := by
  cases operation with
  | overwrite fromUser path snap =>
    cases path with
    | nil =>
      cases visited
      exact Node.WellFormed.getImmediateChild formed childKey
    | cons front rest =>
      obtain ⟨-, same⟩ := Option.ite_none_right_eq_some.mp visited
      cases same
      exact formed
  | merge fromUser path children =>
    cases path with
    | nil =>
      have childFormed := CompoundWrite.WellFormed.childCompoundWriteAtPath formed [childKey]
      rw [operationForVisited_merge, Option.ite_none_left_eq_some] at visited
      obtain ⟨-, visited⟩ := visited
      split at visited
      · rename_i rootWrite root
        cases visited
        exact childFormed.nodes [] rootWrite root
      · cases visited
        exact childFormed
    | cons front rest =>
      obtain ⟨-, same⟩ := Option.ite_none_right_eq_some.mp visited
      cases same
      exact formed
  | ackUserWrite path affectedTree revert =>
    cases path with
    | nil =>
      obtain ⟨childTree, reached, -⟩ :=
        operationForVisited_ackUserWrite affectedTree revert childKey
      cases reached.symm.trans visited
      trivial
    | cons front rest =>
      obtain ⟨-, same⟩ := Option.ite_none_right_eq_some.mp visited
      cases same
      trivial
  | listenComplete path =>
    cases path with
    | nil =>
      cases visited
      trivial
    | cons front rest =>
      obtain ⟨-, same⟩ := Option.ite_none_right_eq_some.mp visited
      cases same
      trivial

/-- A write reaches a child as a write of the same source. -/
theorem IsWriteOf.operationForVisited {fromUser : Bool} (isWrite : operation.IsWriteOf fromUser)
    (visited : operation.operationForVisited childKey = some next) : next.IsWriteOf fromUser := by
  cases operation with
  | overwrite source path snap =>
    cases path with
    | nil =>
      cases visited
      exact isWrite
    | cons front rest =>
      obtain ⟨-, same⟩ := Option.ite_none_right_eq_some.mp visited
      cases same
      exact isWrite
  | merge source path children =>
    obtain ⟨rfl, noRoot⟩ := isWrite
    cases path with
    | nil =>
      rw [operationForVisited_merge, Option.ite_none_left_eq_some] at visited
      obtain ⟨-, visited⟩ := visited
      split at visited
      · cases visited
        exact rfl
      · rename_i childNoRoot
        cases visited
        exact ⟨rfl, fun _ => childNoRoot⟩
    | cons front rest =>
      obtain ⟨-, same⟩ := Option.ite_none_right_eq_some.mp visited
      cases same
      exact ⟨rfl, noRoot⟩
  | ackUserWrite path affectedTree revert => exact isWrite.elim
  | listenComplete path => exact isWrite.elim

/-- What is written under a key reaches the child as it is there. -/
theorem WellFormed.under_writes (formed : operation.WellFormed) (childKey : Text)
    (data : Data Text Leaf) :
    (Data.afterAll Node.dataAt operation.writes data).under childKey =
      Data.afterAll Node.dataAt (writesOf (operation.operationForVisited childKey))
        (data.under childKey) := by
  cases operation with
  | overwrite fromUser path snap =>
    cases path with
    | nil => exact (IndexedFilter.under_dataAt snap childKey).symm
    | cons front rest =>
      rw [operationForVisited_overwrite_cons]
      by_cases same : front = childKey
      · subst same
        rw [if_pos rfl]
        exact funext fun other => Data.overwrite_cons_self _ _
      · rw [if_neg same]
        exact funext fun other => Data.overwrite_cons_ne _ _ (Ne.symm same)
  | merge fromUser path children =>
    cases path with
    | nil =>
      have childFormed := CompoundWrite.WellFormed.childCompoundWriteAtPath formed [childKey]
      have whole : (Operation.merge fromUser [] children).writes = children.enumerateWrites :=
        List.map_id _
      rw [whole, CompoundWrite.WellFormed.afterAll_under formed, operationForVisited_merge]
      refine congrArg (Data.afterAll Node.dataAt · (data.under childKey)) ?_
      split
      · rename_i nothing
        exact CompoundWrite.enumerateWrites_of_isEmpty childFormed nothing
      · split
        · rename_i rootWrite root
          exact childFormed.enumerateWrites_of_rootWrite root
        · exact (List.map_id _).symm
    | cons front rest =>
      rw [operationForVisited_merge_cons]
      by_cases same : front = childKey
      · subst same
        rw [if_pos rfl]
        refine Eq.trans ?_ (Data.afterAll_prefixed_below [front]
          (ViewProcessor.mergedWrites rest children) data)
        rw [ViewProcessor.mergedWrites, List.map_map]
        rfl
      · rw [if_neg same]
        refine funext fun other => Data.afterAll_of_apart (fun write member => ?_) data
        obtain ⟨found, -, rfl⟩ := List.mem_map.mp member
        exact apart_of_ne same
  | ackUserWrite path affectedTree revert =>
    have nothing : writesOf ((Operation.ackUserWrite path affectedTree revert).operationForVisited
        childKey) = [] := by
      cases path with
      | nil =>
        obtain ⟨childTree, reached, -⟩ :=
          operationForVisited_ackUserWrite affectedTree revert childKey
        rw [reached]
        rfl
      | cons front rest =>
        rw [operationForVisited_ackUserWrite_cons]
        split <;> rfl
    rw [nothing]
    rfl
  | listenComplete path =>
    cases path with
    | nil => rfl
    | cons front rest =>
      rw [operationForVisited_listenComplete_cons]
      split <;> rfl

/-- What is covered under a key is covered by what reaches the child. -/
theorem WellFormed.covered_under (formed : operation.WellFormed) {path : Path}
    (covered : ∃ write ∈ operation.writes, write.1 <+: childKey :: path) :
    ∃ write ∈ writesOf (operation.operationForVisited childKey), write.1 <+: path := by
  obtain ⟨write, member, isPrefix⟩ := covered
  cases operation with
  | overwrite fromUser place snap =>
    obtain rfl := List.mem_singleton.mp member
    cases place with
    | nil => exact ⟨([], snap.getImmediateChild childKey), List.mem_singleton.mpr rfl, List.nil_prefix⟩
    | cons front rest =>
      obtain ⟨rfl, tail⟩ := List.cons_prefix_cons.mp isPrefix
      rw [operationForVisited_overwrite_cons, if_pos rfl]
      exact ⟨(rest, snap), List.mem_singleton.mpr rfl, tail⟩
  | merge fromUser place children =>
    obtain ⟨found, there, rfl⟩ := List.mem_map.mp member
    cases place with
    | nil =>
      have childFormed := CompoundWrite.WellFormed.childCompoundWriteAtPath formed [childKey]
      have childCovered := (childFormed.covers_iff path).mp (CompoundWrite.Covers.child
        ((CompoundWrite.WellFormed.covers_iff formed _).mpr ⟨found, there, isPrefix⟩))
      obtain ⟨inner, innerMember, innerPrefix⟩ := childCovered
      rw [operationForVisited_merge]
      split
      · rename_i nothing
        rw [CompoundWrite.enumerateWrites_of_isEmpty childFormed nothing] at innerMember
        cases innerMember
      · split
        · rename_i rootWrite root
          exact ⟨([], rootWrite), List.mem_singleton.mpr rfl, List.nil_prefix⟩
        · exact ⟨inner, List.mem_map.mpr ⟨inner, innerMember, rfl⟩, innerPrefix⟩
    | cons front rest =>
      obtain ⟨rfl, tail⟩ := List.cons_prefix_cons.mp isPrefix
      rw [operationForVisited_merge_cons, if_pos rfl]
      exact ⟨(rest ++ found.1, found.2), List.mem_map.mpr ⟨found, there, rfl⟩, tail⟩
  | ackUserWrite place affectedTree revert => cases member
  | listenComplete place => cases member

/-! ### All the way to a view -/

theorem WellFormed.operationForPath {path : Path} (formed : operation.WellFormed)
    (reached : operationForPath path operation = some next) : next.WellFormed := by
  induction path generalizing operation with
  | nil =>
    cases reached
    exact formed
  | cons childKey rest inductionHypothesis =>
    obtain ⟨child, visited, onward⟩ := Option.bind_eq_some_iff.mp reached
    exact inductionHypothesis (formed.operationForVisited visited) onward

theorem IsWriteOf.operationForPath {fromUser : Bool} {path : Path}
    (isWrite : operation.IsWriteOf fromUser)
    (reached : Operation.operationForPath path operation = some next) :
    next.IsWriteOf fromUser := by
  induction path generalizing operation with
  | nil =>
    cases reached
    exact isWrite
  | cons childKey rest inductionHypothesis =>
    obtain ⟨child, visited, onward⟩ := Option.bind_eq_some_iff.mp reached
    exact inductionHypothesis (isWrite.operationForVisited visited) onward

/-- A view is told to write what the operation writes below its place. -/
theorem WellFormed.below_writes (formed : operation.WellFormed) (path : Path)
    (data : Data Text Leaf) :
    (Data.afterAll Node.dataAt operation.writes data).below path =
      Data.afterAll Node.dataAt (writesOf (Operation.operationForPath path operation))
        (data.below path) := by
  induction path generalizing operation data with
  | nil => rfl
  | cons childKey rest inductionHypothesis =>
    have under := formed.under_writes childKey data
    rw [Operation.operationForPath]
    cases visited : operation.operationForVisited childKey with
    | none =>
      rw [visited] at under
      exact congrArg (Data.below · rest) under
    | some child =>
      rw [visited] at under
      exact (congrArg (Data.below · rest) under).trans
        (inductionHypothesis (formed.operationForVisited visited) (data.under childKey))

/-- A view is told to write all of its place when the operation does. -/
theorem WellFormed.covered_below (formed : operation.WellFormed) {path : Path}
    (covered : ∃ write ∈ operation.writes, write.1 <+: path) :
    ∃ write ∈ writesOf (Operation.operationForPath path operation), write.1 = [] := by
  induction path generalizing operation with
  | nil =>
    obtain ⟨write, member, isPrefix⟩ := covered
    exact ⟨write, member, List.prefix_nil.mp isPrefix⟩
  | cons childKey rest inductionHypothesis =>
    have under := formed.covered_under covered
    rw [Operation.operationForPath]
    cases visited : operation.operationForVisited childKey with
    | none =>
      rw [visited] at under
      obtain ⟨write, member, -⟩ := under
      cases member
    | some child =>
      rw [visited] at under
      exact inductionHypothesis (formed.operationForVisited visited) under

/-! ### The end of a pending write and of a listen -/

theorem operationForPath_cons_of_visited {rest : Path}
    (visited : operation.operationForVisited childKey = some next) :
    operationForPath (childKey :: rest) operation = operationForPath rest next := by
  rw [Operation.operationForPath, visited]
  rfl

section Ends

variable (affectedTree : ImmutableTree Unit) (revert : Bool)

/-- A view on the way to the path of the write sees the rest of the path. -/
theorem operationForPath_ackUserWrite_above (place rest : Path) :
    operationForPath place (.ackUserWrite (place ++ rest) affectedTree revert) =
      some (.ackUserWrite rest affectedTree revert) := by
  induction place with
  | nil => rfl
  | cons key place inductionHypothesis =>
    have visited :=
      operationForVisited_ackUserWrite_cons key (place ++ rest) affectedTree revert key
    rw [if_pos rfl] at visited
    exact (operationForPath_cons_of_visited visited).trans inductionHypothesis

/-- A view below the path of the write sees what is affected of its place, or that all of it is. -/
theorem operationForPath_ackUserWrite_below (path rest : Path) :
    ∃ restTree, operationForPath (path ++ rest) (.ackUserWrite path affectedTree revert) =
        some (.ackUserWrite [] restTree revert) ∧
      (restTree.value = none → restTree = affectedTree.subtreeAtPath rest ∧
        ∀ above, above <+: rest → affectedTree.valueAtPath above = none) := by
  induction path with
  | nil =>
    induction rest generalizing affectedTree with
    | nil =>
      refine ⟨affectedTree, rfl, fun noValue => ⟨rfl, fun above isPrefix => ?_⟩⟩
      rw [List.prefix_nil.mp isPrefix]
      exact noValue
    | cons key rest inductionHypothesis =>
      obtain ⟨childTree, visited, child⟩ :=
        operationForVisited_ackUserWrite affectedTree revert key
      obtain ⟨restTree, reached, below⟩ := inductionHypothesis childTree
      refine ⟨restTree, (operationForPath_cons_of_visited visited).trans reached, fun noValue => ?_⟩
      obtain ⟨same, noneAbove⟩ := below noValue
      obtain ⟨noValueHere, rfl⟩ := child (noneAbove [] List.nil_prefix)
      refine ⟨same.trans ?_, fun above isPrefix => ?_⟩
      · rw [ImmutableTree.subtreeAtPath, ImmutableTree.subtreeAtPath]
        cases affectedTree.child? key with
        | none => cases rest <;> rfl
        | some found => rfl
      · cases above with
        | nil => exact noValueHere
        | cons front above =>
          obtain ⟨rfl, tail⟩ := List.cons_prefix_cons.mp isPrefix
          rw [← noneAbove above tail]
          exact (ImmutableTree.valueAtPath_subtreeAtPath affectedTree [front] above).symm
  | cons key path inductionHypothesis =>
    obtain ⟨restTree, reached, below⟩ := inductionHypothesis
    have visited := operationForVisited_ackUserWrite_cons key path affectedTree revert key
    rw [if_pos rfl] at visited
    exact ⟨restTree, (operationForPath_cons_of_visited visited).trans reached, below⟩

/-- A view beside the path of the write is not visited. -/
theorem operationForPath_ackUserWrite_beside {path place : Path} (apart : Apart path place) :
    operationForPath place (.ackUserWrite path affectedTree revert) = none := by
  induction place generalizing path with
  | nil => exact absurd List.nil_prefix apart.2
  | cons key place inductionHypothesis =>
    cases path with
    | nil => exact absurd List.nil_prefix apart.1
    | cons front path =>
      rw [Operation.operationForPath, operationForVisited_ackUserWrite_cons]
      by_cases same : front = key
      · rw [if_pos same]
        exact inductionHypothesis (apart_cons_iff.mp (same ▸ apart))
      · rw [if_neg same]
        rfl

end Ends

/-- A view that a listen reaches at its end is at the place of the listen or below it. -/
theorem operationForPath_listenComplete {path place : Path}
    (reached : operationForPath place (.listenComplete path) = some next) :
    ∃ rest, next = .listenComplete rest ∧ (rest = [] → path <+: place) := by
  induction place generalizing path with
  | nil =>
    cases reached
    exact ⟨path, rfl, fun here => here ▸ List.nil_prefix⟩
  | cons key place inductionHypothesis =>
    obtain ⟨child, visited, onward⟩ := Option.bind_eq_some_iff.mp reached
    cases path with
    | nil =>
      cases visited
      obtain ⟨rest, same, -⟩ := inductionHypothesis onward
      exact ⟨rest, same, fun _ => List.nil_prefix⟩
    | cons front path =>
      rw [operationForVisited_listenComplete_cons] at visited
      obtain ⟨rfl, same⟩ := Option.ite_none_right_eq_some.mp visited
      cases same
      obtain ⟨rest, same, inside⟩ := inductionHypothesis onward
      exact ⟨rest, same, fun here => (List.prefix_cons_inj front).mpr (inside here)⟩

end Operation

/-! ### Through the tree of the views -/

namespace SyncTree

/-- An operation reaches a view, with the server's data from the views above if they have it. -/
def Reached (writes : WriteTreeRef) (old : ViewCache) (operation : Operation)
    (result : ViewProcessor.Result) : Prop :=
  ∃ completeCache : Option Node, (∀ node, completeCache = some node → node.WellFormed) ∧
    ViewProcessor.applyOperation writes completeCache old operation = some result

/-- What becomes of a view when an operation reaches it, or when none does. -/
def Handled (writes : WriteTreeRef) (old : ViewCache) : Option Operation → ViewCache → Prop
  | none, new => new = old
  | some operation, new => ∃ result, Reached writes old operation result ∧ result.viewCache = new

/-- The views after an operation went through them, each with its path below the place where the
operation started, and what was raised by those it reached. -/
structure Passed (writeTree : WriteTree) (path : Path) (operation : Operation)
    (before after : List (Path × ViewCache)) (raised : Raised) : Prop where
  views : List.Forall₂ (fun old new : Path × ViewCache => old.1 = new.1 ∧
    Handled ⟨path ++ old.1, writeTree⟩ old.2 (operation.operationForPath old.1) new.2) before after
  told : ∀ event ∈ raised, ∃ old ∈ before, event.1 = path ++ old.1 ∧
    (old.1, event.2.viewCache) ∈ after ∧ ∃ next, operation.operationForPath old.1 = some next ∧
      Reached ⟨path ++ old.1, writeTree⟩ old.2 next event.2
  silent : ∀ new ∈ after, new ∈ before ∨
    ∃ event ∈ raised, event.1 = path ++ new.1 ∧ event.2.viewCache = new.2
  order : (raised.map Prod.fst).Sublist (before.map fun view => path ++ view.1)

section Passing

variable {writeTree : WriteTree} {path : Path} {operation : Operation}

/-- A view before an operation is there after it. -/
theorem Passed.exists_new {before after : List (Path × ViewCache)} {raised : Raised}
    (passed : Passed writeTree path operation before after raised) :
    ∀ old ∈ before, ∃ new ∈ after, new.1 = old.1 := by
  obtain ⟨views, -, -, -⟩ := passed
  induction views with
  | nil => exact fun old member => absurd member List.not_mem_nil
  | cons handled _ inductionHypothesis =>
    refine List.forall_mem_cons.mpr ⟨⟨_, List.mem_cons_self, handled.1.symm⟩, fun old member => ?_⟩
    obtain ⟨new, there, place⟩ := inductionHypothesis old member
    exact ⟨new, List.mem_cons_of_mem _ there, place⟩

/-- A view after an operation is what became of one before it. -/
theorem Passed.exists_old {before after : List (Path × ViewCache)} {raised : Raised}
    (passed : Passed writeTree path operation before after raised) :
    ∀ new ∈ after, ∃ old ∈ before, old.1 = new.1 ∧
      Handled ⟨path ++ old.1, writeTree⟩ old.2 (operation.operationForPath old.1) new.2 := by
  obtain ⟨views, -, -, -⟩ := passed
  induction views with
  | nil => exact fun new member => absurd member List.not_mem_nil
  | cons handled _ inductionHypothesis =>
    refine List.forall_mem_cons.mpr ⟨⟨_, List.mem_cons_self, handled⟩, fun new member => ?_⟩
    obtain ⟨old, there, related⟩ := inductionHypothesis new member
    exact ⟨old, List.mem_cons_of_mem _ there, related⟩

theorem passed_nil : Passed writeTree path operation [] [] [] :=
  ⟨.nil, fun _ member => absurd member List.not_mem_nil, fun _ => Or.inl, .slnil⟩

theorem Passed.append {before after before' after' : List (Path × ViewCache)}
    {raised raised' : Raised} (first : Passed writeTree path operation before after raised)
    (second : Passed writeTree path operation before' after' raised') :
    Passed writeTree path operation (before ++ before') (after ++ after') (raised ++ raised') := by
  refine ⟨List.rel_append first.views second.views, fun event member => ?_, fun new member => ?_,
    ?_⟩
  · rcases List.mem_append.mp member with early | late
    · obtain ⟨old, there, place, left, reached⟩ := first.told event early
      exact ⟨old, List.mem_append_left _ there, place, List.mem_append_left _ left, reached⟩
    · obtain ⟨old, there, place, left, reached⟩ := second.told event late
      exact ⟨old, List.mem_append_right _ there, place, List.mem_append_right _ left, reached⟩
  · rcases List.mem_append.mp member with early | late
    · exact (first.silent new early).imp (List.mem_append_left _) fun ⟨event, there, same⟩ =>
        ⟨event, List.mem_append_left _ there, same⟩
    · exact (second.silent new late).imp (List.mem_append_right _) fun ⟨event, there, same⟩ =>
        ⟨event, List.mem_append_right _ there, same⟩
  · rw [List.map_append, List.map_append]
    exact first.order.append second.order

/-- Views below a child, as they are seen from the place of its parent. -/
theorem Passed.child {childKey : Text} {next : Operation}
    (visited : operation.operationForVisited childKey = some next)
    {before after : List (Path × ViewCache)} {raised : Raised}
    (passed : Passed writeTree (path ++ [childKey]) next before after raised) :
    Passed writeTree path operation (before.map fun found => (childKey :: found.1, found.2))
      (after.map fun found => (childKey :: found.1, found.2)) raised := by
  have place : ∀ rest, path ++ childKey :: rest = path ++ [childKey] ++ rest := by simp
  constructor
  · rw [List.forall₂_map_left_iff, List.forall₂_map_right_iff]
    refine passed.views.imp fun old new handled => ⟨congrArg (List.cons childKey) handled.1, ?_⟩
    rw [Operation.operationForPath_cons_of_visited visited, place]
    exact handled.2
  · intro event member
    obtain ⟨old, there, same, left, reached⟩ := passed.told event member
    refine ⟨_, List.mem_map_of_mem there, same.trans (place old.1).symm,
      List.mem_map.mpr ⟨_, left, rfl⟩, ?_⟩
    rw [Operation.operationForPath_cons_of_visited visited, place]
    exact reached
  · intro new member
    obtain ⟨inner, there, rfl⟩ := List.mem_map.mp member
    refine (passed.silent inner there).imp (fun old => List.mem_map.mpr ⟨inner, old, rfl⟩) ?_
    rintro ⟨event, eventMember, same, left⟩
    exact ⟨event, eventMember, same.trans (place inner.1).symm, left⟩
  · have places : (before.map fun found => (childKey :: found.1, found.2)).map
        (fun view => path ++ view.1) = before.map fun view => path ++ [childKey] ++ view.1 := by
      rw [List.map_map]
      exact List.map_congr_left fun found _ => place found.1
    rw [places]
    exact passed.order

/-- Views below a child that is not visited. -/
theorem passed_of_not_visited {childKey : Text}
    (notVisited : operation.operationForVisited childKey = none)
    (views : List (Path × ViewCache)) :
    Passed writeTree path operation (views.map fun found => (childKey :: found.1, found.2))
      (views.map fun found => (childKey :: found.1, found.2)) [] := by
  refine ⟨List.forall₂_same.mpr fun found member => ⟨rfl, ?_⟩, fun _ member => absurd member
    List.not_mem_nil, fun _ => Or.inl, List.nil_sublist _⟩
  obtain ⟨inner, -, rfl⟩ := List.mem_map.mp member
  rw [Operation.operationForPath, notVisited]
  exact rfl

/-- No operation fails on a view whose caches are as the client builds them. -/
theorem exists_result {writes : WriteTreeRef} (formed : writes.writeTree.visibleWrites.WellFormed)
    {viewCache : ViewCache} (wellFormed : viewCache.WellFormed)
    (operationFormed : operation.WellFormed) {completeCache : Option Node}
    (serverFormed : ∀ node, completeCache = some node → node.WellFormed) :
    ∃ result, ViewProcessor.applyOperation writes completeCache viewCache operation =
      some result := by
  have tracked := ViewProcessor.tracked_process formed wellFormed serverFormed operationFormed
  have nothing : ∀ key, Reports (viewCache.event.under key) (viewCache.event.under key)
      (List.dlookup key ([] : ChildChanges)) := fun _ => rfl
  obtain ⟨changes, told, -⟩ := tracked.tells.accumulate List.nodupKeys_nil nothing
  exact ⟨_, congrArg (Option.map _) told⟩

mutual

/-- An operation passes through all the views of a tree. -/
theorem applyOperationHelper_passes (formed : writeTree.visibleWrites.WellFormed) :
    ∀ (tree : ImmutableTree ViewCache) (path : Path) (serverCache : Option Node)
      (operation : Operation), operation.WellFormed →
      (∀ node, serverCache = some node → node.WellFormed) →
      (∀ found ∈ tree.forEach, found.2.WellFormed) →
      ∃ applied, applyOperationHelper writeTree tree path serverCache operation = some applied ∧
        Passed writeTree path operation tree.forEach applied.1.forEach applied.2
  | .mk syncPoint children, path, serverCache, operation, operationFormed, serverFormed, each => by
    rw [ImmutableTree.forEach] at each ⊢
    obtain ⟨eachBelow, eachHere⟩ := List.forall_mem_append.mp each
    have resolvedFormed : ∀ node,
        serverCache.or (syncPoint.bind ViewCache.completeServerSnap) = some node →
          node.WellFormed := by
      intro node resolved
      rcases Option.or_eq_some_iff.mp resolved with given | ⟨-, found⟩
      · exact serverFormed node given
      · obtain ⟨viewCache, rfl, known⟩ := Option.bind_eq_some_iff.mp found
        obtain ⟨-, same⟩ := Option.ite_none_right_eq_some.mp known
        cases same
        exact (eachHere ([], viewCache) (List.mem_singleton.mpr rfl)).serverFormed
    obtain ⟨below, applied, passed⟩ := applyToChildren_passes formed children path
      (serverCache.or (syncPoint.bind ViewCache.completeServerSnap)) operation operationFormed
      resolvedFormed eachBelow
    rw [applyOperationHelper, applied, Option.bind_some]
    cases syncPoint with
    | none =>
      refine ⟨_, rfl, ?_⟩
      rw [ImmutableTree.forEach, Option.toList_none, List.map_nil, List.append_nil,
        List.append_nil]
      exact passed
    | some viewCache =>
      have wellFormed := eachHere ([], viewCache) (List.mem_singleton.mpr rfl)
      have reached : (⟨path, writeTree⟩ : WriteTreeRef).writeTree.visibleWrites.WellFormed := formed
      obtain ⟨result, done⟩ := exists_result reached wellFormed operationFormed resolvedFormed
      dsimp only
      rw [done]
      refine ⟨_, rfl, ?_⟩
      rw [ImmutableTree.forEach]
      have here : path ++ [] = path := List.append_nil path
      refine passed.append ⟨.cons ⟨rfl, ?_⟩ .nil, fun event member => ?_, fun new member => ?_, ?_⟩
      · rw [here]
        exact ⟨result, ⟨_, resolvedFormed, done⟩, rfl⟩
      · obtain rfl := List.mem_singleton.mp member
        refine ⟨([], viewCache), List.mem_singleton.mpr rfl, here.symm, List.mem_singleton.mpr rfl,
          operation, rfl, ?_⟩
        rw [here]
        exact ⟨_, resolvedFormed, done⟩
      · obtain rfl := List.mem_singleton.mp member
        exact Or.inr ⟨(path, result), List.mem_singleton.mpr rfl, here.symm, rfl⟩
      · show [path].Sublist [path ++ []]
        rw [here]
termination_by structural tree => tree

theorem applyToChildren_passes (formed : writeTree.visibleWrites.WellFormed) :
    ∀ (children : List (Σ _ : Text, ImmutableTree ViewCache)) (path : Path)
      (serverCache : Option Node) (operation : Operation), operation.WellFormed →
      (∀ node, serverCache = some node → node.WellFormed) →
      (∀ found ∈ ImmutableTree.forEachChild children, found.2.WellFormed) →
      ∃ applied, applyToChildren writeTree children path serverCache operation = some applied ∧
        Passed writeTree path operation (ImmutableTree.forEachChild children)
          (ImmutableTree.forEachChild applied.1) applied.2
  | [], path, serverCache, operation, _, _, _ => ⟨([], []), rfl, passed_nil⟩
  | ⟨childKey, childTree⟩ :: rest, path, serverCache, operation, operationFormed, serverFormed,
      each => by
    rw [ImmutableTree.forEachChild] at each ⊢
    obtain ⟨eachFirst, eachLater⟩ := List.forall_mem_append.mp each
    have firstFormed : ∀ found ∈ childTree.forEach, found.2.WellFormed :=
      fun found member => eachFirst (childKey :: found.1, found.2)
        (List.mem_map.mpr ⟨found, member, rfl⟩)
    obtain ⟨others, othersApplied, othersPassed⟩ := applyToChildren_passes formed rest path
      serverCache operation operationFormed serverFormed eachLater
    rw [applyToChildren]
    cases visited : operation.operationForVisited childKey with
    | none =>
      rw [othersApplied]
      exact ⟨_, rfl, (passed_of_not_visited visited _).append othersPassed⟩
    | some next =>
      have childFormed : ∀ node, serverCache.map (fun server : Node =>
          server.getImmediateChild childKey) = some node → node.WellFormed := by
        intro node found
        obtain ⟨server, given, rfl⟩ := Option.map_eq_some_iff.mp found
        exact (serverFormed server given).getImmediateChild childKey
      obtain ⟨first, firstApplied, firstPassed⟩ := applyOperationHelper_passes formed childTree
        (path ++ [childKey]) _ next (operationFormed.operationForVisited visited) childFormed
        firstFormed
      dsimp only
      rw [firstApplied, othersApplied]
      exact ⟨_, rfl, (firstPassed.child visited).append othersPassed⟩
termination_by structural children => children

end

mutual

/-- An operation leaves the keys of the tree as they are. -/
theorem keyed_applyOperationHelper : ∀ (tree : ImmutableTree ViewCache) (path : Path)
    (serverCache : Option Node) (operation : Operation)
    (applied : ImmutableTree ViewCache × Raised), tree.Keyed →
      applyOperationHelper writeTree tree path serverCache operation = some applied →
        applied.1.Keyed
  | .mk syncPoint children, path, serverCache, operation, applied, keyed, done => by
    cases keyed with
    | mk _ _ distinct each =>
      rw [applyOperationHelper] at done
      obtain ⟨below, passed, done⟩ := Option.bind_eq_some_iff.mp done
      obtain ⟨keys, keyedBelow⟩ := keyed_applyToChildren children path _ operation below each passed
      have distinctBelow : below.1.NodupKeys := by
        rw [List.NodupKeys, keys]
        exact distinct
      cases syncPoint with
      | none =>
        cases done
        exact .mk _ _ distinctBelow keyedBelow
      | some viewCache =>
        obtain ⟨result, -, rfl⟩ := Option.map_eq_some_iff.mp done
        exact .mk _ _ distinctBelow keyedBelow
termination_by structural tree => tree

theorem keyed_applyToChildren : ∀ (children : List (Σ _ : Text, ImmutableTree ViewCache))
    (path : Path) (serverCache : Option Node) (operation : Operation)
    (applied : List (Σ _ : Text, ImmutableTree ViewCache) × Raised),
      (∀ kid ∈ children, kid.2.Keyed) →
        applyToChildren writeTree children path serverCache operation = some applied →
          applied.1.keys = children.keys ∧ ∀ kid ∈ applied.1, kid.2.Keyed
  | [], path, serverCache, operation, applied, _, done => by
    cases done
    exact ⟨rfl, fun _ member => absurd member List.not_mem_nil⟩
  | ⟨childKey, childTree⟩ :: rest, path, serverCache, operation, applied, each, done => by
    obtain ⟨childKeyed, restKeyed⟩ := List.forall_mem_cons.mp each
    rw [applyToChildren] at done
    obtain ⟨first, visited, done⟩ := Option.bind_eq_some_iff.mp done
    obtain ⟨others, passed, rfl⟩ := Option.map_eq_some_iff.mp done
    obtain ⟨keys, othersKeyed⟩ := keyed_applyToChildren rest path serverCache operation others
      restKeyed passed
    have firstKeyed : first.1.Keyed := by
      cases concerned : operation.operationForVisited childKey with
      | none =>
        rw [concerned] at visited
        cases visited
        exact childKeyed
      | some next =>
        rw [concerned] at visited
        exact keyed_applyOperationHelper childTree _ _ next first childKeyed visited
    exact ⟨congrArg (List.cons childKey) keys, List.forall_mem_cons.mpr ⟨firstKeyed, othersKeyed⟩⟩
termination_by structural children => children

end

end Passing

end SyncTree

end PhotoMap
