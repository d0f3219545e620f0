/-
This file models the writes the database client has sent and the server has not
yet acknowledged (`FWriteTree`). Every pending write is recorded in order, and
the visible ones are kept a second time, merged into one tree, so that what the
program is shown is computed without going through the records. An
acknowledgement removes a record: its writes are left in the tree when a later
record is above them, the tree is rebuilt when another record is within the
removed one, and otherwise its writes are taken out of the tree.
-/

import PhotoMap.CompoundWrite

namespace PhotoMap

open Overlay

/-- `FPath contains:`. -/
def Path.contains (path other : Path) : Bool := path.isPrefixOf other

theorem Path.contains_iff {path other : Path} : Path.contains path other = true ↔ path <+: other :=
  List.isPrefixOf_iff_prefix

/-! ### Records -/

/-- `FWriteRecord`: a merge is always visible. -/
inductive WriteRecord where
  | overwrite (path : Path) (node : Node) (writeId : Int) (visible : Bool)
  | merge (path : Path) (merge : CompoundWrite) (writeId : Int)

namespace WriteRecord

def path : WriteRecord → Path
  | .overwrite path _ _ _ => path
  | .merge path _ _ => path

def writeId : WriteRecord → Int
  | .overwrite _ _ writeId _ => writeId
  | .merge _ _ writeId => writeId

def visible : WriteRecord → Bool
  | .overwrite _ _ _ visible => visible
  | .merge _ _ _ => true

/-- `record:containsPath:`. -/
def containsPath (record : WriteRecord) (path : Path) : Bool :=
  match record with
  | .overwrite place _ _ _ => Path.contains place path
  | .merge place changed _ =>
    changed.enumerateWrites.any fun found => Path.contains (place ++ found.1) path

/-- The nodes a record writes, with their paths. -/
def writes : WriteRecord → List (Path × Node)
  | .overwrite path node _ _ => [(path, node)]
  | .merge path changed _ => changed.enumerateWrites.map fun found => (path ++ found.1, found.2)

/-- The nodes of a record are as the client builds them. -/
def WellFormed : WriteRecord → Prop
  | .overwrite _ node _ _ => node.WellFormed
  | .merge _ changed _ => changed.WellFormed

theorem WellFormed.writes {record : WriteRecord} (wellFormed : record.WellFormed) :
    ∀ write ∈ record.writes, write.2.WellFormed := by
  intro write member
  cases record with
  | overwrite path node writeId visible =>
    rw [List.mem_singleton.mp member]
    exact wellFormed
  | merge path changed writeId =>
    obtain ⟨found, there, rfl⟩ := List.mem_map.mp member
    exact CompoundWrite.WellFormed.nodes wellFormed found.1 found.2
      ((CompoundWrite.WellFormed.mem_enumerateWrites wellFormed _ _).mp there)

/-- Everything a record writes is at its path or below it. -/
theorem path_prefix {record : WriteRecord} : ∀ write ∈ record.writes, record.path <+: write.1 := by
  intro write member
  cases record with
  | overwrite path node writeId visible =>
    rw [List.mem_singleton.mp member]
    exact List.prefix_refl _
  | merge path changed writeId =>
    obtain ⟨found, -, rfl⟩ := List.mem_map.mp member
    exact List.prefix_append path found.1

theorem containsPath_iff {record : WriteRecord} {path : Path} :
    record.containsPath path = true ↔ ∃ write ∈ record.writes, write.1 <+: path := by
  cases record with
  | overwrite place node writeId visible =>
    simp [containsPath, writes, Path.contains_iff]
  | merge place changed writeId =>
    simp only [containsPath, writes, List.any_eq_true, Path.contains_iff]
    constructor
    · rintro ⟨found, member, isPrefix⟩
      exact ⟨_, List.mem_map_of_mem member, isPrefix⟩
    · rintro ⟨write, member, isPrefix⟩
      obtain ⟨found, there, rfl⟩ := List.mem_map.mp member
      exact ⟨found, there, isPrefix⟩

/-- Two writes of one record are not above each other. -/
theorem WellFormed.separate {record : WriteRecord} (wellFormed : record.WellFormed) :
    ∀ first ∈ record.writes, ∀ second ∈ record.writes, first.1 <+: second.1 →
      second.1 = first.1 := by
  intro first firstMember second secondMember isPrefix
  cases record with
  | overwrite path node writeId visible =>
    rw [List.mem_singleton.mp firstMember, List.mem_singleton.mp secondMember]
  | merge path changed writeId =>
    obtain ⟨one, oneMember, rfl⟩ := List.mem_map.mp firstMember
    obtain ⟨other, otherMember, rfl⟩ := List.mem_map.mp secondMember
    by_cases same : one = other
    · rw [same]
    · have : Std.Symm fun first second : Path × Node => Apart first.1 second.1 :=
        ⟨fun _ _ => Apart.symm⟩
      have apart := (CompoundWrite.WellFormed.pairwise_enumerateWrites wellFormed).forall
        oneMember otherMember same
      exact absurd ((List.prefix_append_right_inj path).mp isPrefix) apart.1

end WriteRecord

/-- The nodes of several records, in their order. -/
def pendingWrites (records : List WriteRecord) : List (Path × Node) :=
  records.flatMap WriteRecord.writes

/-! ### The tree of the writes -/

/-- `FWriteTree`. -/
structure WriteTree where
  visibleWrites : CompoundWrite
  allWrites : List WriteRecord
  lastWriteId : Int

namespace WriteTree

def init : WriteTree where
  visibleWrites := .emptyWrite
  allWrites := []
  lastWriteId := -1

/-- `addOverwriteAtPath:newData:writeId:isVisible:`. -/
def addOverwrite (tree : WriteTree) (path : Path) (newData : Node) (writeId : Int)
    (visible : Bool) : WriteTree where
  visibleWrites :=
    if visible then tree.visibleWrites.addWrite newData path else tree.visibleWrites
  allWrites := tree.allWrites ++ [.overwrite path newData writeId visible]
  lastWriteId := writeId

/-- `addMergeAtPath:changedChildren:writeId:`. -/
def addMerge (tree : WriteTree) (path : Path) (changedChildren : CompoundWrite) (writeId : Int) :
    WriteTree where
  visibleWrites := tree.visibleWrites.addCompoundWrite changedChildren path
  allWrites := tree.allWrites ++ [.merge path changedChildren writeId]
  lastWriteId := writeId

/-- One record of `layerTreeFromWrites:filter:treeRoot:`. -/
def layerRecord (treeRoot : Path) (compoundWrite : CompoundWrite) (record : WriteRecord) :
    CompoundWrite :=
  match record with
  | .overwrite writePath overwrite _ _ =>
    if Path.contains treeRoot writePath then
      compoundWrite.addWrite overwrite (relativePathFrom treeRoot writePath)
    else if Path.contains writePath treeRoot then
      compoundWrite.addWrite (overwrite.getChild (relativePathFrom writePath treeRoot)) []
    else compoundWrite
  | .merge writePath changed _ =>
    if Path.contains treeRoot writePath then
      compoundWrite.addCompoundWrite changed (relativePathFrom treeRoot writePath)
    else if Path.contains writePath treeRoot then
      match relativePathFrom writePath treeRoot with
      | [] => compoundWrite.addCompoundWrite changed []
      | front :: rest =>
        match changed.completeNodeAtPath (front :: rest) with
        | some child => compoundWrite.addWrite (child.getChild rest) []
        | none => compoundWrite
    else compoundWrite

/-- `layerTreeFromWrites:filter:treeRoot:`. -/
def layerTreeFromWrites (writes : List WriteRecord) (filter : WriteRecord → Bool)
    (treeRoot : Path) : CompoundWrite :=
  (writes.filter filter).foldl (layerRecord treeRoot) .emptyWrite

/-- `defaultFilter` keeps every record, hidden ones too. -/
def defaultFilter (_ : WriteRecord) : Bool := true

/-- `resetTree`. -/
def resetTree (tree : WriteTree) : WriteTree where
  visibleWrites := layerTreeFromWrites tree.allWrites defaultFilter []
  allWrites := tree.allWrites
  lastWriteId := ((tree.allWrites.getLast?).map WriteRecord.writeId).getD (-1)

/-- The loop of `removeWriteId:` over the records that are left, from the last one down, with
its two flags: the removed write was visible, and it overlaps with other writes. -/
def scanWrites (writeToRemove : WriteRecord) (index : Nat) :
    List (WriteRecord × Nat) → Bool × Bool → Bool × Bool
  | [], flags => flags
  | (currentWrite, i) :: rest, (removedWriteWasVisible, overlaps) =>
    if !removedWriteWasVisible then (removedWriteWasVisible, overlaps)
    else if !currentWrite.visible then
      scanWrites writeToRemove index rest (removedWriteWasVisible, overlaps)
    else if index ≤ i ∧ currentWrite.containsPath writeToRemove.path = true then
      scanWrites writeToRemove index rest (false, overlaps)
    else if Path.contains writeToRemove.path currentWrite.path then
      scanWrites writeToRemove index rest (removedWriteWasVisible, true)
    else scanWrites writeToRemove index rest (removedWriteWasVisible, overlaps)

/-- Takes the writes of a record out of the tree. -/
def removeFromVisibleWrites (visibleWrites : CompoundWrite) (writeToRemove : WriteRecord) :
    CompoundWrite :=
  match writeToRemove with
  | .overwrite path _ _ _ => visibleWrites.removeWriteAtPath path
  | .merge path changed _ =>
    changed.enumerateWrites.foldl
      (fun visibleWrites found => visibleWrites.removeWriteAtPath (path ++ found.1)) visibleWrites

/-- `removeWriteId:`, which throws when no record has the identifier. It also says whether the
write may have been visible. -/
def removeWriteId (tree : WriteTree) (writeId : Int) : Option (WriteTree × Bool) :=
  (tree.allWrites.findIdx? fun record => record.writeId == writeId).bind fun index =>
    (tree.allWrites[index]?).map fun writeToRemove =>
      let allWrites := tree.allWrites.eraseIdx index
      let rest : WriteTree := { tree with allWrites := allWrites }
      let (removedWriteWasVisible, removedWriteOverlapsWithOtherWrites) :=
        scanWrites writeToRemove index allWrites.zipIdx.reverse (writeToRemove.visible, false)
      if !removedWriteWasVisible then (rest, false)
      else if removedWriteOverlapsWithOtherWrites then (rest.resetTree, true)
      else ({ rest with
        visibleWrites := removeFromVisibleWrites tree.visibleWrites writeToRemove }, true)

/-- `removeAllWrites`. -/
def removeAllWrites (tree : WriteTree) : WriteTree :=
  { tree with visibleWrites := .emptyWrite, allWrites := [] }

/-! ### Adding records -/

end WriteTree

namespace CompoundWrite

variable {write : CompoundWrite}

theorem WellFormed.writes_foldl_addWrite {new : List (Path × Node)}
    (wellFormed : write.WellFormed) (formed : ∀ found ∈ new, found.2.WellFormed) :
    (new.foldl (fun newWrite found => newWrite.addWrite found.2 found.1) write).WellFormed ∧
      (new.foldl (fun newWrite found => newWrite.addWrite found.2 found.1) write).writes =
        Writes.layer Node.updateChild new write.writes := by
  induction new generalizing write with
  | nil => exact ⟨wellFormed, rfl⟩
  | cons found rest inductionHypothesis =>
    have first := formed found List.mem_cons_self
    obtain ⟨restFormed, layered⟩ := inductionHypothesis (wellFormed.addWrite first found.1)
      fun found member => formed found (List.mem_cons_of_mem _ member)
    refine ⟨restFormed, layered.trans ?_⟩
    rw [Writes.layer_cons, wellFormed.writes_addWrite]

end CompoundWrite

namespace WriteTree

/-- Adding the writes of a record to a tree of writes. -/
def addRecord (visibleWrites : CompoundWrite) (record : WriteRecord) : CompoundWrite :=
  record.writes.foldl (fun newWrite found => newWrite.addWrite found.2 found.1) visibleWrites

theorem addRecord_merge (visibleWrites changed : CompoundWrite) (path : Path) (writeId : Int) :
    addRecord visibleWrites (.merge path changed writeId) =
      visibleWrites.addCompoundWrite changed path := by
  rw [addRecord, WriteRecord.writes, List.foldl_map]
  rfl

theorem layerRecord_root (visibleWrites : CompoundWrite) (record : WriteRecord) :
    layerRecord [] visibleWrites record = addRecord visibleWrites record := by
  cases record with
  | overwrite path node writeId visible => rfl
  | merge path changed writeId =>
    rw [addRecord_merge]
    rfl

/-- From the root every record is layered with all its writes. -/
theorem layerTreeFromWrites_root {records : List WriteRecord}
    (formed : ∀ record ∈ records, record.WellFormed) :
    (layerTreeFromWrites records defaultFilter []).WellFormed ∧
      (layerTreeFromWrites records defaultFilter []).writes =
        Writes.layer Node.updateChild (pendingWrites records) Writes.empty := by
  have all : layerTreeFromWrites records defaultFilter [] =
      (pendingWrites records).foldl (fun newWrite found => newWrite.addWrite found.2 found.1)
        .emptyWrite := by
    have kept : records.filter defaultFilter = records := List.filter_eq_self.mpr fun _ _ => rfl
    rw [layerTreeFromWrites, kept, pendingWrites, List.foldl_flatMap]
    refine congrArg (fun step => records.foldl step CompoundWrite.emptyWrite) ?_
    exact funext fun visibleWrites => funext fun record => layerRecord_root visibleWrites record
  rw [all, ← CompoundWrite.writes_emptyWrite]
  refine CompoundWrite.wellFormed_emptyWrite.writes_foldl_addWrite fun found member => ?_
  obtain ⟨record, recordMember, there⟩ := List.mem_flatMap.mp member
  exact (formed record recordMember).writes found there

/-! ### Removing a record -/

theorem scanWrites_false (writeToRemove : WriteRecord) (index : Nat)
    (records : List (WriteRecord × Nat)) (overlaps : Bool) :
    scanWrites writeToRemove index records (false, overlaps) = (false, overlaps) := by
  cases records <;> rfl

/-- A visible record at the removed write's index or later that contains its path. -/
def Shadows (writeToRemove : WriteRecord) (index : Nat) (entry : WriteRecord × Nat) : Prop :=
  entry.1.visible = true ∧ index ≤ entry.2 ∧ entry.1.containsPath writeToRemove.path = true

/-- A visible record within the path of the removed write. -/
def IsWithin (writeToRemove : WriteRecord) (entry : WriteRecord × Nat) : Prop :=
  entry.1.visible = true ∧ writeToRemove.path <+: entry.1.path

/-- The scan finds the removed write shadowed exactly when a record shadows it, and else finds
an overlap exactly when a record is within it. -/
theorem scanWrites_spec (writeToRemove : WriteRecord) (index : Nat)
    (records : List (WriteRecord × Nat)) (overlaps : Bool) :
    ((∃ entry ∈ records, Shadows writeToRemove index entry) ∧
        (scanWrites writeToRemove index records (true, overlaps)).1 = false) ∨
      ((∀ entry ∈ records, ¬ Shadows writeToRemove index entry) ∧
        (scanWrites writeToRemove index records (true, overlaps)).1 = true ∧
        ((scanWrites writeToRemove index records (true, overlaps)).2 = true ↔
          overlaps = true ∨ ∃ entry ∈ records, IsWithin writeToRemove entry)) := by
  induction records generalizing overlaps with
  | nil => simp [scanWrites]
  | cons entry rest inductionHypothesis =>
    obtain ⟨currentWrite, i⟩ := entry
    rw [scanWrites]
    simp only [Bool.not_true, Bool.false_eq_true, if_false, List.exists_mem_cons_iff,
      List.forall_mem_cons]
    by_cases visible : currentWrite.visible = true
    · rw [if_neg (by simp [visible])]
      by_cases shadows : index ≤ i ∧ currentWrite.containsPath writeToRemove.path = true
      · rw [if_pos shadows, scanWrites_false]
        exact Or.inl ⟨Or.inl ⟨visible, shadows⟩, rfl⟩
      · rw [if_neg shadows]
        have notShadows : ¬ Shadows writeToRemove index (currentWrite, i) :=
          fun holds => shadows holds.2
        by_cases within : Path.contains writeToRemove.path currentWrite.path = true
        · rw [if_pos within]
          have isWithin : IsWithin writeToRemove (currentWrite, i) :=
            ⟨visible, Path.contains_iff.mp within⟩
          rcases inductionHypothesis true with ⟨found, scanned⟩ | ⟨none, scanned, overlap⟩
          · exact Or.inl ⟨Or.inr found, scanned⟩
          · refine Or.inr ⟨⟨notShadows, none⟩, scanned, overlap.trans ?_⟩
            simp [isWithin]
        · rw [if_neg within]
          have notWithin : ¬ IsWithin writeToRemove (currentWrite, i) :=
            fun holds => within (Path.contains_iff.mpr holds.2)
          rcases inductionHypothesis overlaps with ⟨found, scanned⟩ | ⟨none, scanned, overlap⟩
          · exact Or.inl ⟨Or.inr found, scanned⟩
          · refine Or.inr ⟨⟨notShadows, none⟩, scanned, overlap.trans ?_⟩
            simp [notWithin]
    · rw [if_pos (by simp [visible])]
      have notShadows : ¬ Shadows writeToRemove index (currentWrite, i) :=
        fun holds => visible holds.1
      have notWithin : ¬ IsWithin writeToRemove (currentWrite, i) := fun holds => visible holds.1
      rcases inductionHypothesis overlaps with ⟨found, scanned⟩ | ⟨none, scanned, overlap⟩
      · exact Or.inl ⟨Or.inr found, scanned⟩
      · refine Or.inr ⟨⟨notShadows, none⟩, scanned, overlap.trans ?_⟩
        simp [notWithin]

/-- Whether removing a record asks to reevaluate, and what it leaves of the tree of the
writes. -/
inductive Removal (tree : WriteTree) (before : List WriteRecord) (removed : WriteRecord)
    (after : List WriteRecord) : Bool → CompoundWrite → Prop
  | hidden (invisible : removed.visible = false) :
    Removal tree before removed after false tree.visibleWrites
  | shadowed (later : ∃ record ∈ after, record.containsPath removed.path = true) :
    Removal tree before removed after false tree.visibleWrites
  | rebuilt : Removal tree before removed after true
      (layerTreeFromWrites (before ++ after) defaultFilter [])
  | taken
    (notShadowed : ∀ record ∈ after, record.visible = true →
      record.containsPath removed.path = false)
    (noneWithin : ∀ record ∈ before ++ after, record.visible = true →
      ¬ removed.path <+: record.path) :
    Removal tree before removed after true (removeFromVisibleWrites tree.visibleWrites removed)

/-- The first record with an identifier, among the records before and after it. -/
structure Found (tree : WriteTree) (writeId : Int) (before : List WriteRecord)
    (removed : WriteRecord) (after : List WriteRecord) : Prop where
  records : tree.allWrites = before ++ removed :: after
  identified : removed.writeId = writeId
  first : ∀ record ∈ before, record.writeId ≠ writeId

theorem split_of_findIdx? {records : List WriteRecord} {writeId : Int} {index : Nat}
    (located : records.findIdx? (fun record => record.writeId == writeId) = some index) :
    ∃ before removed after, records = before ++ removed :: after ∧ before.length = index ∧
      removed.writeId = writeId ∧ ∀ record ∈ before, record.writeId ≠ writeId := by
  obtain ⟨bound, holds, first⟩ := List.findIdx?_eq_some_iff_getElem.mp located
  refine ⟨records.take index, records[index], records.drop (index + 1), ?_, ?_, ?_, ?_⟩
  · rw [← List.drop_eq_getElem_cons bound, List.take_append_drop]
  · rw [List.length_take, Nat.min_eq_left bound.le]
  · simpa using holds
  · intro record member
    obtain ⟨earlier, less, rfl⟩ := List.mem_take_iff_getElem.mp member
    simpa using first earlier (by omega)

/-- Removing a record, inverted. -/
theorem removeWriteId_eq_some {tree next : WriteTree} {writeId : Int} {reevaluate : Bool}
    (done : tree.removeWriteId writeId = some (next, reevaluate)) :
    ∃ before removed after, Found tree writeId before removed after ∧
      next.allWrites = before ++ after ∧
      Removal tree before removed after reevaluate next.visibleWrites := by
  obtain ⟨index, located, done⟩ := Option.bind_eq_some_iff.mp done
  obtain ⟨before, removed, after, records, rfl, identified, first⟩ := split_of_findIdx? located
  have there : tree.allWrites[before.length]? = some removed := by
    rw [records, List.getElem?_append_right le_rfl, Nat.sub_self, List.getElem?_cons_zero]
  have erased : tree.allWrites.eraseIdx before.length = before ++ after := by
    rw [records, List.eraseIdx_append_of_length_le le_rfl, Nat.sub_self, List.eraseIdx_cons_zero]
  have entries : ∀ entry, entry ∈ (before ++ after).zipIdx.reverse ↔
      entry ∈ before.zipIdx ∨ entry ∈ after.zipIdx before.length := by
    intro entry
    rw [List.mem_reverse, List.zipIdx_append, List.mem_append, Nat.zero_add]
  refine ⟨before, removed, after, ⟨records, identified, first⟩, ?_⟩
  rw [there, Option.map_some, Option.some_inj, erased] at done
  dsimp only at done
  generalize scan : scanWrites removed before.length (before ++ after).zipIdx.reverse
    (removed.visible, false) = flags at done
  obtain ⟨wasVisible, overlaps⟩ := flags
  cases visible : removed.visible with
  | false =>
    rw [visible, scanWrites_false] at scan
    cases scan
    cases done
    exact ⟨rfl, .hidden visible⟩
  | true =>
    rw [visible] at scan
    have specification := scanWrites_spec removed before.length (before ++ after).zipIdx.reverse
      false
    rw [scan] at specification
    rcases specification with ⟨⟨entry, member, -, late, contains⟩, rfl⟩ | ⟨noShadow, rfl, overlap⟩
    · cases done
      refine ⟨rfl, .shadowed ⟨entry.1, ?_, contains⟩⟩
      rcases (entries entry).mp member with early | later
      · have bound := (List.mem_zipIdx early).2.1
        omega
      · exact List.fst_mem_of_mem_zipIdx later
    · cases overlaps with
      | true =>
        cases done
        exact ⟨rfl, .rebuilt⟩
      | false =>
        cases done
        refine ⟨rfl, .taken ?_ ?_⟩
        · intro record member shown
          obtain ⟨i, bound, rfl⟩ := List.mem_iff_getElem.mp member
          by_contra contains
          rw [Bool.not_eq_false] at contains
          refine noShadow (after[i], before.length + i) ((entries _).mpr (Or.inr ?_))
            ⟨shown, Nat.le_add_right _ _, contains⟩
          rw [List.mk_mem_zipIdx_iff_le_and_getElem?_sub, Nat.add_sub_cancel_left]
          exact ⟨Nat.le_add_right _ _, List.getElem?_eq_getElem bound⟩
        · intro record member shown within
          obtain ⟨i, bound, rfl⟩ := List.mem_iff_getElem.mp member
          refine absurd (overlap.mpr (Or.inr ⟨((before ++ after)[i], i), ?_, shown, within⟩))
            Bool.false_ne_true
          rw [List.mem_reverse, List.mem_zipIdx_iff_getElem?]
          exact List.getElem?_eq_getElem bound

end WriteTree

end PhotoMap
