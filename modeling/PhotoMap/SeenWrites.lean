/-
This file is about the pending writes as they are seen from the place of a view
(`FWriteTreeRef`): a write below the place is seen with the rest of its path, a
write above it as a write of all that is there. What the seen writes make of the
server's data at the place is what the view should show, and what is calculated
from the tree of the writes is just that, in whole, of a child or below a path.
-/

import PhotoMap.ViewProcessor

namespace PhotoMap

open Overlay

/-! ### The pending writes as a view sees them -/

/-- Writes as they are seen from a path. -/
def seenWrites (path : Path) (writes : List (Path × Node)) : List (Path × Node) :=
  writes.filterMap fun write =>
    if Path.contains path write.1 then some (relativePathFrom path write.1, write.2)
    else if Path.contains write.1 path then
      some ([], write.2.getChild (relativePathFrom write.1 path))
    else none

theorem seenFrom_seenWrites (path : Path) (writes : List (Path × Node)) :
    SeenFrom Node.dataAt path writes (seenWrites path writes) := by
  induction writes with
  | nil => exact .nil
  | cons write rest inductionHypothesis =>
    obtain ⟨place, node⟩ := write
    rw [seenWrites, List.filterMap_cons]
    dsimp only
    by_cases inside : path <+: place
    · obtain ⟨tail, rfl⟩ := inside
      rw [if_pos (Path.contains_iff.mpr (List.prefix_append path tail)), relativePathFrom_append]
      exact inductionHypothesis.inside tail node
    · rw [if_neg (mt Path.contains_iff.mp inside)]
      by_cases above : place <+: path
      · obtain ⟨tail, rfl⟩ := above
        rw [if_pos (Path.contains_iff.mpr (List.prefix_append place tail)),
          relativePathFrom_append]
        exact inductionHypothesis.above rfl (Node.dataAt_getChild node tail)
      · rw [if_neg (mt Path.contains_iff.mp above)]
        exact inductionHypothesis.beside ⟨above, inside⟩

namespace Node

/-- The data of a node after writes made one after the other. -/
theorem WellFormed.dataAt_foldl_updateChild {node : Node} (nodeFormed : node.WellFormed)
    {new : List (Path × Node)} (formed : ∀ write ∈ new, write.2.WellFormed) :
    (new.foldl (fun node write => node.updateChild write.1 write.2) node).dataAt =
      Data.afterAll dataAt new node.dataAt := by
  induction new generalizing node with
  | nil => rfl
  | cons write rest inductionHypothesis =>
    obtain ⟨first, later⟩ := List.forall_mem_cons.mp formed
    rw [List.foldl_cons, inductionHypothesis (nodeFormed.updateChild write.1 first) later,
      nodeFormed.dataAt_updateChild write.1 first]
    rfl

end Node

namespace WriteTreeRef

/-- The pending writes as the view sees them. -/
def seen (writes : WriteTreeRef) : List (Path × Node) :=
  seenWrites writes.path (pendingWrites writes.writeTree.allWrites)

/-- What the pending writes make of the server's data at the place of the view. -/
noncomputable def shown (writes : WriteTreeRef) (server : Data Text Leaf) : Data Text Leaf :=
  Data.afterAll Node.dataAt writes.seen server

/-- No pending write removes data below a leaf of the server. -/
def Keeps (writes : WriteTreeRef) (server : Data Text Leaf) : Prop :=
  Data.Safe Node.dataAt writes.seen server

/-- The server's data with nothing beside the place of the view. -/
def serverAt (writes : WriteTreeRef) (server : Node) : Node :=
  Node.emptyNode.updateChild writes.path server

variable {writes : WriteTreeRef} {server node : Node}

theorem wellFormed_serverAt (formed : server.WellFormed) : (writes.serverAt server).WellFormed :=
  Node.wellFormed_emptyNode.updateChild writes.path formed

theorem getChild_serverAt : (writes.serverAt server).getChild writes.path = server :=
  Node.getChild_updateChild_emptyNode writes.path server

theorem below_serverAt : Data.below (writes.serverAt server).dataAt writes.path = server.dataAt := by
  rw [← Node.dataAt_getChild, getChild_serverAt]

/-- The pending writes fit the server's data when they keep its leaves. -/
theorem fits_serverAt (formed : server.WellFormed) (keeps : writes.Keeps server.dataAt)
    (tracks : writes.writeTree.Tracks) : writes.writeTree.Fits (writes.serverAt server) := by
  refine ⟨wellFormed_serverAt formed, fun write member nothing above isPrefix different => ?_⟩
  have writeFormed := WriteTree.wellFormed_pendingWrites tracks.formed write member
  by_cases below : writes.path <+: above
  · obtain ⟨rest, rfl⟩ := below
    obtain ⟨tail, place⟩ := (List.prefix_append writes.path rest).trans isPrefix
    rw [← place, List.prefix_append_right_inj] at isPrefix
    have seenMember : (tail, write.2) ∈ writes.seen := by
      refine List.mem_filterMap.mpr ⟨write, member, ?_⟩
      rw [← place, if_pos (Path.contains_iff.mpr (List.prefix_append writes.path tail)),
        relativePathFrom_append]
    have noLeaf := keeps _ seenMember (writeFormed.isEmpty_iff_dataAt.mp nothing) rest isPrefix
      fun same => different (by rw [same, place])
    rw [← Node.leafAt_getChild, getChild_serverAt]
    exact Option.map_eq_none_iff.mp noLeaf
  · have written := Node.wellFormed_emptyNode.leafAt_updateChild writes.path formed
    rw [serverAt, written]
    by_cases onTheWay : above <+: writes.path
    · refine Data.overwrite_none_above _ onTheWay (fun same => below ?_)
        (Node.leafAt_emptyNode above)
      exact same ▸ List.prefix_refl above
    · rw [Data.overwrite_of_apart _ _ ⟨below, onTheWay⟩]
      exact Node.leafAt_emptyNode above

/-- The server's data after the pending writes, below a path of the view. -/
theorem shown_eq (tracks : writes.writeTree.Tracks) (formed : server.WellFormed) (cut : Path) :
    ((writes.writeTree.withPending (writes.serverAt server)).getChild (writes.path ++ cut)).dataAt =
      Data.below (writes.shown server.dataAt) cut := by
  have pending := WriteTree.wellFormed_pendingWrites tracks.formed
  have seenFrom := seenFrom_seenWrites writes.path (pendingWrites writes.writeTree.allWrites)
  have below := seenFrom.afterAll_below (writes.serverAt server).dataAt
  rw [below_serverAt] at below
  rw [Node.dataAt_getChild, WriteTree.withPending, WriteTree.withRecords,
    (wellFormed_serverAt formed).dataAt_foldl_updateChild pending]
  funext rest
  have here := congrFun below (cut ++ rest)
  rw [Data.below, ← List.append_assoc] at here
  exact here

/-- A path is shadowed exactly when what is seen covers it. -/
theorem shadowing_iff (tracks : writes.writeTree.Tracks) (cut : Path) :
    (writes.shadowingWriteAtPath cut).isSome = true ↔ ∃ write ∈ writes.seen, write.1 <+: cut := by
  rw [seen, (seenFrom_seenWrites writes.path _).covered_iff cut]
  refine (tracks.complete_iff (writes.path ++ cut)).trans ?_
  constructor
  · rintro ⟨record, member, contains⟩
    obtain ⟨write, there, isPrefix⟩ := WriteRecord.containsPath_iff.mp contains
    exact ⟨write, List.mem_flatMap.mpr ⟨record, member, there⟩, isPrefix⟩
  · rintro ⟨write, member, isPrefix⟩
    obtain ⟨record, recordMember, there⟩ := List.mem_flatMap.mp member
    exact ⟨record, recordMember, WriteRecord.containsPath_iff.mpr ⟨write, there, isPrefix⟩⟩

/-- Nothing is below a leaf of what is shown. -/
theorem solid_shown {server : Data Text Leaf} (solid : server.Solid) : (writes.shown server).Solid :=
  Data.solid_afterAll solid fun write _ => write.2.solid_dataAt

/-! ### The calculations are right -/

/-- A node with some data, as the client builds it. -/
structure Holds (node : Node) (data : Data Text Leaf) : Prop where
  wellFormed : node.WellFormed
  same : node.dataAt = data

section Calculations

variable (tracks : writes.writeTree.Tracks) (formed : server.WellFormed)
  (keeps : writes.Keeps server.dataAt)

include tracks formed keeps

theorem holds_complete {cut : Path} (complete : writes.shadowingWriteAtPath cut = some node) :
    Holds node (Data.below (writes.shown server.dataAt) cut) := by
  refine ⟨tracks.wellFormed.completeNodeAtPath complete, ?_⟩
  rw [← shown_eq tracks formed cut]
  exact (tracks.complete_eq (fits_serverAt formed keeps tracks) complete).dataAt

theorem holds_applied (cut : Path) :
    Holds ((writes.writeTree.visibleWrites.childCompoundWriteAtPath
      (writes.path ++ cut)).applyToNode (server.getChild cut))
        (Data.below (writes.shown server.dataAt) cut) := by
  have child : (writes.serverAt server).getChild (writes.path ++ cut) = server.getChild cut := by
    rw [Node.getChild_append, getChild_serverAt]
  refine ⟨(tracks.wellFormed.childCompoundWriteAtPath _).applyToNode (formed.getChild cut), ?_⟩
  rw [← shown_eq tracks formed cut, ← child]
  exact (tracks.applied_eq (fits_serverAt formed keeps tracks) (writes.path ++ cut)).dataAt

theorem holds_unchanged (cut : Path) (nothing : (writes.writeTree.visibleWrites.childCompoundWriteAtPath
    (writes.path ++ cut)).isEmpty = true) :
    Holds (server.getChild cut) (Data.below (writes.shown server.dataAt) cut) := by
  have child : (writes.serverAt server).getChild (writes.path ++ cut) = server.getChild cut := by
    rw [Node.getChild_append, getChild_serverAt]
  refine ⟨formed.getChild cut, ?_⟩
  rw [← shown_eq tracks formed cut, ← child]
  exact (tracks.unchanged (fits_serverAt formed keeps tracks) nothing).dataAt

/-- The whole event cache is calculated when the server's data is complete. -/
theorem calculateCompleteEventCache_holds :
    ∃ node, writes.calculateCompleteEventCache (some server) = some node ∧
      Holds node (writes.shown server.dataAt) := by
  have here : writes.path ++ [] = writes.path := List.append_nil writes.path
  have general := holds_applied tracks formed keeps []
  have complete : ∀ node, writes.shadowingWriteAtPath [] = some node → _ :=
    fun node => holds_complete tracks formed keeps
  have unchanged := holds_unchanged tracks formed keeps []
  rw [here] at general unchanged
  rw [shadowingWriteAtPath, WriteTree.shadowingWrite, here] at complete
  rw [calculateCompleteEventCache, WriteTree.calculateCompleteEventCache]
  simp only [Option.isNone_none, Bool.not_false, Bool.true_and, if_true]
  cases found : writes.writeTree.visibleWrites.completeNodeAtPath writes.path with
  | some node => exact ⟨node, rfl, complete node found⟩
  | none =>
    dsimp only
    split
    · rename_i nothing
      exact ⟨server, rfl, unchanged nothing⟩
    · exact ⟨_, rfl, general⟩

/-- What is to be shown below a path that is not shadowed is calculated. -/
theorem calculateEventCacheAfterServerOverwrite_holds {cut : Path}
    (unshadowed : writes.shadowingWriteAtPath cut = none) :
    ∃ node, writes.calculateEventCacheAfterServerOverwrite cut server = some node ∧
      Holds node (Data.below (writes.shown server.dataAt) cut) := by
  have incomplete : writes.writeTree.visibleWrites.hasCompleteWriteAtPath (writes.path ++ cut) =
      false := by
    rw [CompoundWrite.hasCompleteWriteAtPath]
    exact congrArg Option.isSome unshadowed
  rw [calculateEventCacheAfterServerOverwrite, WriteTree.calculateEventCacheAfterServerOverwrite]
  dsimp only
  rw [if_neg (ne_true_of_eq_false incomplete)]
  split
  · rename_i nothing
    exact ⟨_, rfl, holds_unchanged tracks formed keeps cut nothing⟩
  · exact ⟨_, rfl, holds_applied tracks formed keeps cut⟩

/-- What is to be shown of a child is calculated. -/
theorem calculateCompleteChild_holds (childKey : Text) {cache : CacheNode}
    (complete : cache.isCompleteForChild childKey = true) (cached : cache.node = server) :
    ∃ node, writes.calculateCompleteChild childKey cache = some node ∧
      Holds node (Data.below (writes.shown server.dataAt) [childKey]) := by
  rw [calculateCompleteChild]
  dsimp only
  cases found : writes.writeTree.visibleWrites.completeNodeAtPath (writes.path ++ [childKey]) with
  | some node => exact ⟨node, rfl, holds_complete tracks formed keeps found⟩
  | none =>
    refine ⟨_, if_pos complete, ?_⟩
    rw [cached]
    exact holds_applied tracks formed keeps [childKey]

end Calculations

end WriteTreeRef

end PhotoMap
