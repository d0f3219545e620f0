/-
This file models how the client computes what the program is shown at a path
from its pending writes and from what it knows of the server's data
(`FWriteTree calculateCompleteEventCacheAtPath:` and its siblings). Without
exclusions the merged tree of the writes answers; with excluded or hidden writes
the records are layered again for the path. In a run of allowed steps both
answers are the server's data after the pending writes, and without the server's
data an answer is given exactly when a pending write decides it.
-/

import PhotoMap.PendingWrites

namespace PhotoMap

open Overlay Transition

namespace WriteTree

/-! ### The calculations -/

/-- The filter of `calculateCompleteEventCacheAtPath:`. -/
def isLayered (treePath : Path) (writeIdsToExclude : Option (List Int))
    (includeHiddenWrites : Bool) (record : WriteRecord) : Bool :=
  (record.visible || includeHiddenWrites) &&
    !(writeIdsToExclude.any fun excluded => excluded.contains record.writeId) &&
    (Path.contains record.path treePath || Path.contains treePath record.path)

/-- `calculateCompleteEventCacheAtPath:completeServerCache:excludeWriteIds:includeHiddenWrites:`. -/
def calculateCompleteEventCache (tree : WriteTree) (treePath : Path)
    (completeServerCache : Option Node) (writeIdsToExclude : Option (List Int))
    (includeHiddenWrites : Bool) : Option Node :=
  if writeIdsToExclude.isNone && !includeHiddenWrites then
    match tree.visibleWrites.completeNodeAtPath treePath with
    | some shadowingNode => some shadowingNode
    | none =>
      let subMerge := tree.visibleWrites.childCompoundWriteAtPath treePath
      if subMerge.isEmpty then completeServerCache
      else if completeServerCache.isNone && !subMerge.hasCompleteWriteAtPath [] then none
      else some (subMerge.applyToNode (completeServerCache.getD .emptyNode))
  else
    let merge := tree.visibleWrites.childCompoundWriteAtPath treePath
    if !includeHiddenWrites && merge.isEmpty then completeServerCache
    else if !includeHiddenWrites && completeServerCache.isNone &&
        !merge.hasCompleteWriteAtPath [] then none
    else
      let filter := isLayered treePath writeIdsToExclude includeHiddenWrites
      let mergeAtPath := layerTreeFromWrites tree.allWrites filter treePath
      some (mergeAtPath.applyToNode (completeServerCache.getD .emptyNode))

/-- `calculateEventCacheAfterServerOverwriteAtPath:childPath:existingEventSnap:existingServerSnap:`
without its unused event snap. -/
def calculateEventCacheAfterServerOverwrite (tree : WriteTree) (treePath childPath : Path)
    (existingServerSnap : Node) : Option Node :=
  let path := treePath ++ childPath
  if tree.visibleWrites.hasCompleteWriteAtPath path then none
  else
    let childMerge := tree.visibleWrites.childCompoundWriteAtPath path
    if childMerge.isEmpty then some (existingServerSnap.getChild childPath)
    else some (childMerge.applyToNode (existingServerSnap.getChild childPath))

/-- `shadowingWriteAtPath:`. -/
def shadowingWrite (tree : WriteTree) (path : Path) : Option Node :=
  tree.visibleWrites.completeNodeAtPath path

/-! ### The merged tree answers -/

variable {tree : WriteTree} {server : Node}

/-- What the tree writes completely at a path is there after the pending writes. -/
theorem Tracks.complete_eq (tracks : tree.Tracks) (fits : tree.Fits server) {path : Path}
    {shown : Node} (complete : tree.visibleWrites.completeNodeAtPath path = some shown) :
    shown.Same ((tree.withPending server).getChild path) := by
  intro rest
  rw [Node.leafAt_getChild, ← tracks.overlaid_eq fits]
  exact (CompoundWrite.overlaid_of_completeNodeAtPath Node.below_leafAt complete _ rest).symm

/-- The writes below a path, applied to the server's data there, give what the pending writes
make of it. -/
theorem Tracks.applied_eq (tracks : tree.Tracks) (fits : tree.Fits server) (path : Path) :
    ((tree.visibleWrites.childCompoundWriteAtPath path).applyToNode (server.getChild path)).Same
      ((tree.withPending server).getChild path) := by
  intro rest
  have formed := tracks.wellFormed.childCompoundWriteAtPath path
  rw [formed.leafAt_applyToNode (fits.wellFormed.getChild path), Node.leafAt_getChild,
    ← tracks.overlaid_eq fits, ← CompoundWrite.overlaid_childCompoundWriteAtPath Node.below_leafAt]
  exact congrArg (Writes.overlaid Node.leafAt rest _) (funext (Node.leafAt_getChild server path))

/-- A tree without writes below a path leaves the server's data there. -/
theorem Tracks.unchanged (tracks : tree.Tracks) (fits : tree.Fits server) {path : Path}
    (nothing : (tree.visibleWrites.childCompoundWriteAtPath path).isEmpty = true) :
    (server.getChild path).Same ((tree.withPending server).getChild path) := by
  intro rest
  have noWrites : (tree.visibleWrites.childCompoundWriteAtPath path).writes = Writes.empty :=
    funext (ImmutableTree.valueAtPath_of_isEmpty nothing)
  rw [Node.leafAt_getChild, Node.leafAt_getChild, ← tracks.overlaid_eq fits,
    ← CompoundWrite.overlaid_childCompoundWriteAtPath Node.below_leafAt, noWrites, Writes.overlaid_empty]

/-- The tree writes a path completely exactly when a pending write contains it. -/
theorem Tracks.complete_iff (tracks : tree.Tracks) (path : Path) :
    (tree.visibleWrites.completeNodeAtPath path).isSome = true ↔
      ∃ record ∈ tree.allWrites, record.containsPath path = true := by
  have covered : (tree.visibleWrites.completeNodeAtPath path).isSome = true ↔
      tree.visibleWrites.writes.Covers path := by
    rw [← Option.ne_none_iff_isSome, CompoundWrite.completeNodeAtPath_eq, Ne,
      Option.map_eq_none_iff, Writes.find_eq_none_iff, Writes.Covers]
    push Not
    rfl
  rw [covered, tracks.layered, Writes.covers_layer_iff]
  constructor
  · rintro (⟨above, -, written⟩ | ⟨write, member, isPrefix⟩)
    · exact absurd rfl written
    · obtain ⟨record, recordMember, there⟩ := List.mem_flatMap.mp member
      exact ⟨record, recordMember, WriteRecord.containsPath_iff.mpr ⟨write, there, isPrefix⟩⟩
  · rintro ⟨record, recordMember, contains⟩
    obtain ⟨write, there, isPrefix⟩ := WriteRecord.containsPath_iff.mp contains
    exact Or.inr ⟨write, List.mem_flatMap.mpr ⟨record, recordMember, there⟩, isPrefix⟩

/-- Without a complete write at a path, the writes below it are not complete there either. -/
theorem not_hasCompleteWriteAtPath_nil {path : Path}
    (incomplete : tree.visibleWrites.completeNodeAtPath path = none) :
    (tree.visibleWrites.childCompoundWriteAtPath path).hasCompleteWriteAtPath [] = false := by
  cases path with
  | nil =>
    show (tree.visibleWrites.completeNodeAtPath []).isSome = false
    rw [incomplete]
    rfl
  | cons key path =>
    have noWrite := incomplete
    rw [CompoundWrite.completeNodeAtPath_eq, Option.map_eq_none_iff,
      Writes.find_eq_none_iff] at noWrite
    have missing : ((⟨tree.visibleWrites.writeTree.subtreeAtPath (key :: path)⟩ :
        CompoundWrite).completeNodeAtPath []) = none := by
      rw [CompoundWrite.completeNodeAtPath_eq, Option.map_eq_none_iff, Writes.find_eq_none_iff]
      intro above isPrefix
      rw [List.prefix_nil.mp isPrefix, CompoundWrite.writes,
        ImmutableTree.valueAtPath_subtreeAtPath, List.append_nil]
      exact noWrite _ (List.prefix_refl _)
    rw [CompoundWrite.childCompoundWriteAtPath, incomplete]
    show (CompoundWrite.completeNodeAtPath _ []).isSome = false
    rw [missing]
    rfl

/-- No merge from above the path: `layerTreeFromWrites:` loses the parts of such a merge. -/
def NoMergeAbove (treeRoot : Path) : WriteRecord → Prop
  | .overwrite _ _ _ _ => True
  | .merge path _ _ => path <+: treeRoot → path = treeRoot

/-- What layering a record for a path adds: its writes as they are seen from the path. -/
structure LayersAs (treeRoot : Path) (record : WriteRecord) (seen : List (Path × Node)) : Prop where
  seenFrom : SeenFrom Node.leafAt treeRoot record.writes seen
  formed : ∀ found ∈ seen, found.2.WellFormed
  added : ∀ compoundWrite, layerRecord treeRoot compoundWrite record =
    seen.foldl (fun newWrite found => newWrite.addWrite found.2 found.1) compoundWrite

/-- Writes below a path are seen from it by the rests of their paths. -/
theorem seenFrom_inside (treeRoot : Path) (seen : List (Path × Node)) :
    SeenFrom Node.leafAt treeRoot (seen.map fun found => (treeRoot ++ found.1, found.2)) seen := by
  induction seen with
  | nil => exact .nil
  | cons found rest inductionHypothesis => exact inductionHypothesis.inside found.1 found.2

/-- A record at a path, above it or below it is layered as it is seen from there. -/
theorem exists_layersAs {treeRoot : Path} {record : WriteRecord} (formed : record.WellFormed)
    (noMerge : NoMergeAbove treeRoot record)
    (related : (Path.contains record.path treeRoot || Path.contains treeRoot record.path) = true) :
    ∃ seen, LayersAs treeRoot record seen := by
  rw [Bool.or_eq_true, Path.contains_iff, Path.contains_iff] at related
  by_cases below : treeRoot <+: record.path
  · have contains := Path.contains_iff.mpr below
    cases record with
    | overwrite path node writeId visible =>
      obtain ⟨rest, rfl⟩ := below
      refine ⟨[(rest, node)], SeenFrom.nil.inside rest node,
        List.forall_mem_singleton.mpr formed, fun compoundWrite => ?_⟩
      refine (if_pos contains).trans ?_
      rw [relativePathFrom_append]
      rfl
    | merge path changed writeId =>
      obtain ⟨rest, rfl⟩ := below
      refine ⟨changed.enumerateWrites.map fun found => (rest ++ found.1, found.2), ?_, ?_,
        fun compoundWrite => ?_⟩
      · have inside := seenFrom_inside treeRoot
          (changed.enumerateWrites.map fun found => (rest ++ found.1, found.2))
        rw [List.map_map] at inside
        rw [WriteRecord.writes]
        simpa only [Function.comp_def, List.append_assoc] using inside
      · intro found member
        obtain ⟨write, there, rfl⟩ := List.mem_map.mp member
        exact WriteRecord.WellFormed.writes formed (treeRoot ++ rest ++ write.1, write.2)
          (List.mem_map.mpr ⟨write, there, rfl⟩)
      · refine (if_pos contains).trans ?_
        rw [relativePathFrom_append, CompoundWrite.addCompoundWrite, List.foldl_map]
  · have notContains : Path.contains treeRoot record.path = false :=
      Bool.eq_false_iff.mpr fun contains => below (Path.contains_iff.mp contains)
    have above := related.resolve_right below
    have contains := Path.contains_iff.mpr above
    cases record with
    | overwrite path node writeId visible =>
      change path <+: treeRoot at above
      obtain ⟨rest, rfl⟩ := above
      refine ⟨[([], node.getChild rest)], SeenFrom.nil.above rfl ?_,
        List.forall_mem_singleton.mpr (Node.WellFormed.getChild formed rest),
        fun compoundWrite => ?_⟩
      · exact funext (Node.leafAt_getChild node rest)
      · refine (if_neg (ne_true_of_eq_false notContains)).trans ((if_pos contains).trans ?_)
        rw [relativePathFrom_append]
        rfl
    | merge path changed writeId =>
      have same : path = treeRoot := noMerge above
      exact absurd (same ▸ List.prefix_refl path) below

/-- The records that are layered for a path add what all kept records show there. -/
theorem exists_layered {treeRoot : Path} (excluded : Option (List Int)) (hidden : Bool)
    {records : List WriteRecord} (formed : ∀ record ∈ records, record.WellFormed)
    (visible : ∀ record ∈ records, record.visible = true)
    (noMerge : ∀ record ∈ records, NoMergeAbove treeRoot record) :
    ∃ seen, SeenFrom Node.leafAt treeRoot (pendingWrites (records.filter fun record =>
        !excluded.any fun excluded => excluded.contains record.writeId)) seen ∧
      (∀ found ∈ seen, found.2.WellFormed) ∧
      ∀ compoundWrite, (records.filter (isLayered treeRoot excluded hidden)).foldl
          (layerRecord treeRoot) compoundWrite =
        seen.foldl (fun newWrite found => newWrite.addWrite found.2 found.1) compoundWrite := by
  induction records with
  | nil => exact ⟨[], .nil, fun _ member => absurd member List.not_mem_nil, fun _ => rfl⟩
  | cons record rest inductionHypothesis =>
    obtain ⟨recordFormed, formed⟩ := List.forall_mem_cons.mp formed
    obtain ⟨recordVisible, visible⟩ := List.forall_mem_cons.mp visible
    obtain ⟨recordMerge, noMerge⟩ := List.forall_mem_cons.mp noMerge
    obtain ⟨seen, seenFrom, seenFormed, added⟩ := inductionHypothesis formed visible noMerge
    cases gone : excluded.any fun excluded => excluded.contains record.writeId with
    | true =>
      have notLayered : isLayered treeRoot excluded hidden record = false := by
        rw [isLayered, gone, Bool.not_true, Bool.and_false, Bool.false_and]
      rw [List.filter_cons_of_neg (by rw [gone]; decide),
        List.filter_cons_of_neg (by rw [notLayered]; decide)]
      exact ⟨seen, seenFrom, seenFormed, added⟩
    | false =>
      rw [List.filter_cons_of_pos (by rw [gone]; rfl), pendingWrites_cons]
      have layered : isLayered treeRoot excluded hidden record =
          (Path.contains record.path treeRoot || Path.contains treeRoot record.path) := by
        rw [isLayered, gone, recordVisible, Bool.true_or, Bool.not_false, Bool.true_and,
          Bool.true_and]
      cases related : Path.contains record.path treeRoot || Path.contains treeRoot record.path with
      | true =>
        obtain ⟨own, ownSeen, ownFormed, ownAdded⟩ :=
          exists_layersAs recordFormed recordMerge related
        refine ⟨own ++ seen, ownSeen.append seenFrom,
          List.forall_mem_append.mpr ⟨ownFormed, seenFormed⟩, fun compoundWrite => ?_⟩
        rw [List.filter_cons_of_pos (by rw [layered, related]), List.foldl_cons, ownAdded, added,
          List.foldl_append]
      | false =>
        rw [List.filter_cons_of_neg (by rw [layered, related]; exact Bool.false_ne_true)]
        refine ⟨seen, ?_, seenFormed, added⟩
        rw [Bool.or_eq_false_iff] at related
        refine (SeenFrom.of_beside fun write member => ?_).append seenFrom
        have place := WriteRecord.path_prefix write member
        constructor
        · intro above
          refine absurd (Path.contains_iff.mpr (place.trans above)) ?_
          rw [related.1]
          exact Bool.false_ne_true
        · intro below
          rcases List.prefix_or_prefix_of_prefix place below with isPrefix | isPrefix
          · refine absurd (Path.contains_iff.mpr isPrefix) ?_
            rw [related.1]
            exact Bool.false_ne_true
          · refine absurd (Path.contains_iff.mpr isPrefix) ?_
            rw [related.2]
            exact Bool.false_ne_true

/-- When nothing is written below a path, nothing is written above it either. -/
theorem noWrite_of_isEmpty {path : Path}
    (nothing : (tree.visibleWrites.childCompoundWriteAtPath path).isEmpty = true) (other : Path)
    (related : other <+: path ∨ path <+: other) : tree.visibleWrites.writes other = none := by
  have noWrites := ImmutableTree.valueAtPath_of_isEmpty nothing
  cases path with
  | nil => exact noWrites other
  | cons key path =>
    rw [CompoundWrite.childCompoundWriteAtPath] at noWrites
    cases complete : tree.visibleWrites.completeNodeAtPath (key :: path) with
    | some shadowingNode =>
      rw [complete] at noWrites
      cases noWrites []
    | none =>
      rw [complete] at noWrites
      rcases related with above | ⟨rest, rfl⟩
      · rw [CompoundWrite.completeNodeAtPath_eq, Option.map_eq_none_iff,
          Writes.find_eq_none_iff] at complete
        exact complete other above
      · have noWrite := noWrites rest
        rwa [ImmutableTree.valueAtPath_subtreeAtPath] at noWrite

/-- When nothing is written below a path, every pending write is beside it. -/
theorem Tracks.beside (tracks : tree.Tracks) {path : Path}
    (nothing : (tree.visibleWrites.childCompoundWriteAtPath path).isEmpty = true) :
    ∀ write ∈ pendingWrites tree.allWrites, Apart write.1 path := by
  intro write member
  have covered : tree.visibleWrites.writes.Covers write.1 := by
    rw [tracks.layered, Writes.covers_layer_iff]
    exact Or.inr ⟨write, member, List.prefix_refl _⟩
  obtain ⟨above, isPrefix, written⟩ := covered
  refine ⟨fun onTheWay => written (noWrite_of_isEmpty nothing above ?_), fun below => ?_⟩
  · exact Or.inl (isPrefix.trans onTheWay)
  · exact written (noWrite_of_isEmpty nothing above
      (List.prefix_or_prefix_of_prefix isPrefix below))

end WriteTree

end PhotoMap
