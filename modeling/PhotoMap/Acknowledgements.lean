/-
This file is about the end of a pending write. The record is out of the tree of
the writes, and the view still shows what it wrote. When the server has made the
write, its data at the affected paths is applied again, now that the record does
not shadow it; when it has rejected the write, what is shown is calculated again
below the path of the record. Either way the view then shows the server's data
after the writes that are still pending, unless a leaf of the server was above
what an acknowledged record wrote.
-/

import PhotoMap.ViewMerges

namespace PhotoMap

open Overlay

namespace ViewProcessor

/-- A view that still shows what a record wrote that is pending no more. Its writes are below one
path of the view, and come to one write there. -/
structure Lags (writes : WriteTreeRef) (path : Path) (gone : List (Path × Node))
    (viewCache : ViewCache) : Prop where
  complete : viewCache.Complete
  keeps : writes.Keeps viewCache.server
  inside : ∀ write ∈ gone, path <+: write.1
  once : ∃ change : Data Text Leaf, Data.afterAll Node.dataAt gone viewCache.server =
    Data.overwrite path change viewCache.server
  shows : viewCache.event = writes.shown (Data.afterAll Node.dataAt gone viewCache.server)

/-- No leaf of the server is above what the record wrote, unless it wrote nothing there. -/
def NoLeafAbove (gone : List (Path × Node)) (server : Data Text Leaf) : Prop :=
  ∀ write ∈ gone, Data.IsEmpty write.2.dataAt ∨ server.NoItemAbove write.1

variable {writes : WriteTreeRef} {path : Path} {gone : List (Path × Node)} {viewCache : ViewCache}

/-- A record that another pending write shadows leaves what is shown. -/
theorem Lags.covered (tracks : writes.writeTree.Tracks) (lags : Lags writes path gone viewCache)
    (shadowed : (writes.shadowingWriteAtPath path).isSome = true) :
    viewCache.event = writes.shown viewCache.server := by
  obtain ⟨change, once⟩ := lags.once
  rw [lags.shows, once]
  exact lags.keeps.afterAll_covered ((WriteTreeRef.shadowing_iff tracks path).mp shadowed) change

theorem Lags.leads_unchanged (tracks : writes.writeTree.Tracks)
    (lags : Lags writes path gone viewCache)
    (shadowed : (writes.shadowingWriteAtPath path).isSome = true) :
    Leads (viewCache, []) viewCache.server (writes.shown viewCache.server) :=
  ⟨lags.complete, rfl, lags.covered tracks shadowed⟩

/-- The record changed the server's data below its path alone. -/
theorem Lags.agree (lags : Lags writes path gone viewCache)
    (noLeaf : NoLeafAbove gone viewCache.server) (other : Path) (outside : ¬ path <+: other) :
    Data.afterAll Node.dataAt gone viewCache.server other = viewCache.server other := by
  by_cases isPrefix : other <+: path
  · have above : ∀ write ∈ gone, other <+: write.1 ∧ other ≠ write.1 := fun write member =>
      ⟨isPrefix.trans (lags.inside write member), fun same =>
        outside (same ▸ lags.inside write member)⟩
    refine Data.afterAll_above above fun write member => ?_
    obtain ⟨within, different⟩ := above write member
    exact (noLeaf write member).imp_right fun noItem => noItem other within different
  · obtain ⟨change, once⟩ := lags.once
    rw [once]
    exact Data.overwrite_of_apart _ _ ⟨outside, isPrefix⟩

/-! ### The server has made the write -/

/-- Applying the server's data at the path of the record again brings the view up to date. -/
theorem Lags.applyServerOverwrite (tracks : writes.writeTree.Tracks)
    (lags : Lags writes path gone viewCache) (noLeaf : NoLeafAbove gone viewCache.server)
    (unshadowed : ¬ (writes.shadowingWriteAtPath path).isSome = true) :
    Leads (applyServerOverwrite writes viewCache path
        (viewCache.cachedServerSnap.node.getChild path))
      viewCache.server (writes.shown viewCache.server) := by
  have unchanged : Data.overwrite path (viewCache.cachedServerSnap.node.getChild path).dataAt
      viewCache.server = viewCache.server := by
    rw [Node.dataAt_getChild]
    exact viewCache.solid_server.overwrite_self path
  have leads := leads_applyServerOverwrite tracks lags.complete
    (lags.complete.serverFormed.getChild path) path (unchanged.symm ▸ lags.keeps)
  rw [unchanged, if_neg unshadowed, lags.shows] at leads
  refine { leads with event := leads.event.trans ?_ }
  exact (Data.afterAll_without (lags.agree noLeaf)
    (WriteTreeRef.solid_shown viewCache.solid_server)).symm

/-- A key that a merge covers is a child of it. -/
theorem mem_keys_actualMerge {changed : CompoundWrite} (formed : changed.WellFormed)
    {found rest : Path} {key : Text} (noRoot : path = [] → changed.writes [] = none)
    (covered : changed.writes.Covers found) (head : path ++ found = key :: rest) :
    key ∈ (actualMerge path changed).childCompoundWrites.map Prod.fst := by
  obtain ⟨above, isPrefix, written⟩ := covered
  obtain ⟨node, stored⟩ := Option.ne_none_iff_exists'.mp written
  have mergeFormed := wellFormed_actualMerge path formed
  -- the write that covers the path is in the merge, below the same key
  have there : (actualMerge path changed).writes (path ++ above) = some node := by
    rw [← mergeFormed.mem_enumerateWrites, mem_enumerateWrites_actualMerge formed]
    exact List.mem_map.mpr ⟨(above, node), (formed.mem_enumerateWrites above node).mpr stored, rfl⟩
  have below : path ++ above <+: key :: rest :=
    head ▸ (List.prefix_append_right_inj path).mpr isPrefix
  cases place : path ++ above with
  | nil =>
    obtain ⟨rfl, rfl⟩ := List.append_eq_nil_iff.mp place
    exact absurd (noRoot rfl) written
  | cons front tail =>
    rw [place] at below there
    obtain rfl := (List.cons_prefix_cons.mp below).1
    rw [CompoundWrite.writes, ImmutableTree.valueAtPath] at there
    cases child : (actualMerge path changed).writeTree.child? front with
    | none =>
      rw [child] at there
      cases there
    | some childTree =>
      rw [CompoundWrite.childCompoundWrites, List.map_map]
      exact List.mem_map.mpr ⟨⟨front, childTree⟩, List.of_mem_dlookup child, rfl⟩

/-- The writes of the server's data at the affected paths. -/
def serverWrites (server : Node) (path : Path) (affectedTree : ImmutableTree Unit) :
    List (Path × Node) :=
  affectedTree.forEach.map fun found => (found.1, server.getChild (path ++ found.1))

/-- A merge of the server's data at the affected paths. -/
structure IsMirror (server : Node) (path : Path) (affectedTree : ImmutableTree Unit)
    (changed : CompoundWrite) : Prop where
  formed : changed.WellFormed
  layered : changed.writes =
    Writes.layer Node.updateChild (serverWrites server path affectedTree) Writes.empty

section Mirrors

variable {server : Node} {affectedTree : ImmutableTree Unit} {changed : CompoundWrite}

theorem isMirror_foldl (formed : server.WellFormed) (path : Path)
    (affectedTree : ImmutableTree Unit) :
    IsMirror server path affectedTree (affectedTree.forEach.foldl (fun changedChildren found =>
      changedChildren.addWrite (server.getChild (path ++ found.1)) found.1) .emptyWrite) := by
  have nodes : ∀ write ∈ serverWrites server path affectedTree, write.2.WellFormed := by
    intro write member
    obtain ⟨found, -, rfl⟩ := List.mem_map.mp member
    exact formed.getChild (path ++ found.1)
  obtain ⟨changedFormed, layered⟩ :=
    CompoundWrite.wellFormed_emptyWrite.writes_foldl_addWrite nodes
  rw [serverWrites, List.foldl_map] at changedFormed layered
  rw [CompoundWrite.writes_emptyWrite] at layered
  exact ⟨changedFormed, layered⟩

/-- Everything in the merge is what the server has there. -/
theorem IsMirror.mirrored (mirror : IsMirror server path affectedTree changed)
    (formed : server.WellFormed) :
    ∀ found ∈ changed.enumerateWrites,
      found.2.dataAt = Data.below server.dataAt (path ++ found.1) := by
  intro found member
  have mirrors : Writes.Mirrors Node.dataAt changed.writes (server.getChild path).dataAt := by
    rw [mirror.layered]
    refine Writes.mirrors_layer Node.lawful_dataAt (Node.solid_dataAt _) (fun write there => ?_)
      (fun write there => ?_) Writes.allValid_empty Writes.mirrors_empty
    · obtain ⟨inner, -, rfl⟩ := List.mem_map.mp there
      exact formed.getChild (path ++ inner.1)
    · obtain ⟨inner, -, rfl⟩ := List.mem_map.mp there
      rw [Node.getChild_append, Node.dataAt_getChild]
  rw [mirrors found.1 found.2 ((mirror.formed.mem_enumerateWrites found.1 found.2).mp member),
    ← Node.dataAt_getChild, ← Node.getChild_append, Node.dataAt_getChild]

theorem IsMirror.covers (mirror : IsMirror server path affectedTree changed)
    {found : Path × Unit} (member : found ∈ affectedTree.forEach) : changed.writes.Covers found.1 := by
  rw [mirror.layered, Writes.covers_layer_iff]
  exact Or.inr ⟨_, List.mem_map_of_mem member, List.prefix_refl found.1⟩

/-- The merge has no write at its root when the root is not affected. -/
theorem IsMirror.noRoot (mirror : IsMirror server path affectedTree changed)
    (noValue : affectedTree.value = none) : changed.writes [] = none := by
  rw [mirror.layered]
  by_contra written
  rcases Writes.written_of_layer written with nothing | ⟨write, member, root⟩
  · exact nothing rfl
  · obtain ⟨found, there, rfl⟩ := List.mem_map.mp member
    exact ImmutableTree.forEach_ne_nil noValue found there root

end Mirrors

/-- A merge of what the server has brings the children it writes up to date. -/
theorem leads_applyServerMerge_mirrored (tracks : writes.writeTree.Tracks)
    (complete : viewCache.Complete) (keeps : writes.Keeps viewCache.server)
    {changed : CompoundWrite} (formed : changed.WellFormed)
    (mirrored : ∀ found ∈ changed.enumerateWrites,
      found.2.dataAt = Data.below viewCache.server (path ++ found.1)) :
    ∃ keys, (∀ key, key ∈ keys ↔
        key ∈ (actualMerge path changed).childCompoundWrites.map Prod.fst) ∧
      Leads (applyServerMerge writes viewCache path changed) viewCache.server
        (Data.sweep (writes.shown viewCache.server) (IsShadowed writes) keys viewCache.event) := by
  have serverFormed := complete.serverFormed
  have mergeFormed := wellFormed_actualMerge path formed
  obtain ⟨children, same, applied⟩ := applyServerMerge_eq writes complete path changed
  -- every write of the merge at the place of the view is what the server has there
  have allMirrored : ∀ write ∈ (actualMerge path changed).enumerateWrites,
      write.2.dataAt = Data.below viewCache.server write.1 := by
    intro write member
    have there := (mem_enumerateWrites_actualMerge formed path write).mp member
    obtain ⟨found, foundMember, rfl⟩ := List.mem_map.mp there
    exact mirrored found foundMember
  have childSame : ∀ child ∈ children, (child.2.applyToNode
      (viewCache.cachedServerSnap.node.getImmediateChild child.1)).dataAt =
        viewCache.server.under child.1 := by
    intro child member
    have there := same.mem_iff.mp member
    have childFormed := mergeFormed.childCompoundWrites child there
    rw [CompoundWrite.dataAt_applyToNode childFormed (serverFormed.getImmediateChild child.1)]
    refine Data.afterAll_mirrored (Node.solid_dataAt _) fun write written => ?_
    obtain ⟨kid, kidMember, rfl⟩ := List.mem_map.mp there
    refine (allMirrored (kid.1 :: write.1, write.2) ?_).trans rfl
    rw [mergeFormed.mem_enumerateWrites, ← mergeFormed.valueAtPath_child kidMember]
    exact (childFormed.mem_enumerateWrites write.1 write.2).mp written
  refine ⟨(CompoundWrite.childOverwrites viewCache.cachedServerSnap.node children).map Prod.fst,
    fun key => ?_, ?_⟩
  · rw [CompoundWrite.childOverwrites, List.map_map]
    exact (same.map Prod.fst).mem_iff
  · rw [applied]
    refine leads_applyServerOverwrites tracks complete (fun change member => ?_)
      (fun change member => ?_) keeps
    · obtain ⟨child, there, rfl⟩ := List.mem_map.mp member
      exact (mergeFormed.childCompoundWrites child (same.mem_iff.mp there)).applyToNode
        (serverFormed.getImmediateChild child.1)
    · obtain ⟨child, there, rfl⟩ := List.mem_map.mp member
      exact childSame child there

/-- What is shown under a key that a pending write shadows does not depend on the server. -/
theorem shown_under_of_isShadowed (tracks : writes.writeTree.Tracks) {key : Text}
    (shadowed : IsShadowed writes key) (first second : Data Text Leaf) :
    (writes.shown first).under key = (writes.shown second).under key := by
  obtain ⟨write, member, covers⟩ := (WriteTreeRef.shadowing_iff tracks [key]).mp shadowed
  funext rest
  refine Data.afterAll_fixed ⟨write, member, fun first second => ?_⟩
  obtain ⟨tail, place⟩ := covers.trans (List.prefix_append [key] rest)
  have here : key :: rest = write.1 ++ tail := place.symm
  rw [here, Data.overwrite_append, Data.overwrite_append]

/-- After an acknowledgement the view shows the server's data after the writes still pending. -/
theorem Lags.ackUserWrite (tracks : writes.writeTree.Tracks)
    (lags : Lags writes path gone viewCache) (noLeaf : NoLeafAbove gone viewCache.server)
    {affectedTree : ImmutableTree Unit} (paths : affectedTree.value = none →
      ∀ write ∈ gone, ∃ found ∈ affectedTree.forEach, write.1 = path ++ found.1) :
    Leads (ackUserWrite writes viewCache path affectedTree) viewCache.server
      (writes.shown viewCache.server) := by
  have complete := lags.complete
  have known : ∀ place, viewCache.cachedServerSnap.isCompleteForPath place = true :=
    CacheNode.isCompleteForPath_of_initialized complete.serverInitialized
      complete.serverUnfiltered
  rw [ViewProcessor.ackUserWrite]
  by_cases shadowed : (writes.shadowingWriteAtPath path).isSome = true
  · rw [if_pos shadowed]
    exact lags.leads_unchanged tracks shadowed
  rw [if_neg shadowed]
  cases value : affectedTree.value with
  | some _ =>
    dsimp only
    rw [known, Bool.or_true, if_pos rfl]
    exact lags.applyServerOverwrite tracks noLeaf shadowed
  | none =>
    simp only [known, if_true]
    have mirror := isMirror_foldl complete.serverFormed path affectedTree
    obtain ⟨keys, mem_keys, leads⟩ := leads_applyServerMerge_mirrored tracks complete lags.keeps
      mirror.formed (mirror.mirrored complete.serverFormed)
    refine { leads with event := leads.event.trans ?_ }
    -- what the record wrote is below the children that are swept
    have swept : ∀ write ∈ gone, ∃ key ∈ keys, ∃ rest, write.1 = key :: rest := by
      intro write member
      obtain ⟨found, there, place⟩ := paths value write member
      cases head : write.1 with
      | nil =>
        refine absurd ?_ (ImmutableTree.forEach_ne_nil value found there)
        exact (List.append_eq_nil_iff.mp (place.symm.trans head)).2
      | cons key rest =>
        refine ⟨key, (mem_keys key).mpr ?_, rest, rfl⟩
        exact mem_keys_actualMerge mirror.formed (fun _ => mirror.noRoot value)
          (mirror.covers there) (place.symm.trans head)
    refine Data.sweep_eq (WriteTreeRef.solid_shown viewCache.solid_server) ?_ fun key missing => ?_
    · rw [lags.shows]
      refine Data.afterAll_congr (Data.afterAll_above (fun write member => ?_) fun write member => ?_)
      · obtain ⟨key, -, rest, place⟩ := swept write member
        exact place ▸ ⟨List.nil_prefix, (List.cons_ne_nil key rest).symm⟩
      · obtain ⟨key, -, rest, place⟩ := swept write member
        refine (noLeaf write member).imp_right fun noItem => noItem [] List.nil_prefix ?_
        exact place ▸ (List.cons_ne_nil key rest).symm
    · rw [lags.shows]
      rcases missing with missing | shadowedChild
      · refine funext fun rest => Data.afterAll_congr (Data.afterAll_of_apart ?_ _)
        intro write member
        obtain ⟨other, otherMember, tail, place⟩ := swept write member
        rw [place]
        exact apart_of_ne fun same => missing (same ▸ otherMember)
      · exact shown_under_of_isShadowed tracks shadowedChild _ _

/-! ### The server has rejected the write -/

/-- The child that is put back is settled below the path of the record. -/
theorem Lags.settled (tracks : writes.writeTree.Tracks) {childKey : Text} {childPath : Path}
    (lags : Lags writes (childKey :: childPath) gone viewCache)
    (unshadowed : ¬ (writes.shadowingWriteAtPath (childKey :: childPath)).isSome = true)
    {newChild : Node}
    (holds : newChild.dataAt = (writes.shown viewCache.server).under childKey) :
    IndexedFilter.Settled (viewCache.cachedEventSnap.node.getImmediateChild childKey) newChild
      childPath := by
  intro same _
  obtain ⟨change, once⟩ := lags.once
  have shows := lags.shows
  rw [once] at shows
  have uncovered : ∀ write ∈ writes.seen, ¬ write.1 <+: childKey :: childPath :=
    fun write member covers =>
      unshadowed ((WriteTreeRef.shadowing_iff tracks _).mpr ⟨write, member, covers⟩)
  have solid := viewCache.solid_server
  have changeSolid : (writes.shown (Data.overwrite (childKey :: childPath) change
      viewCache.server)).Solid := shows ▸ Node.solid_dataAt _
  have below : (writes.shown (Data.overwrite (childKey :: childPath) change
        viewCache.server)).below (childKey :: childPath) =
      (writes.shown viewCache.server).below (childKey :: childPath) := by
    rw [Node.dataAt_getChild, Node.dataAt_getChild, holds] at same
    rw [← shows]
    exact same
  have everywhere := lags.keeps.afterAll_without_eq uncovered below changeSolid
    (WriteTreeRef.solid_shown solid)
  rw [holds, ← IndexedFilter.under_dataAt]
  exact congrArg (Data.under · childKey) (shows.trans everywhere)

/-- At the root of the view the writes still pending show what the record left of the server's
leaf, or the same as without the record. -/
theorem Lags.root {childKey : Text} {childPath : Path}
    (lags : Lags writes (childKey :: childPath) gone viewCache) :
    viewCache.event [] = none ∨ viewCache.event [] = writes.shown viewCache.server [] := by
  obtain ⟨change, once⟩ := lags.once
  rw [lags.shows, once]
  rcases Data.afterAll_kept_or_fixed Node.dataAt writes.seen [] with kept | fixed
  · have shown : ∀ server, writes.shown server [] = server [] := kept
    rw [shown, shown, Data.overwrite_cons_nil]
    split
    · exact Or.inr rfl
    · exact Or.inl rfl
  · exact Or.inr (fixed _ _)

/-- With the child put back, only a leaf that the record had hidden may be missing. -/
theorem Lags.putBack {childKey : Text} {childPath : Path}
    (lags : Lags writes (childKey :: childPath) gone viewCache)
    (different : Data.overwrite [childKey] ((writes.shown viewCache.server).under childKey)
      viewCache.event ≠ writes.shown viewCache.server) :
    Data.IsEmpty (Data.overwrite [childKey] ((writes.shown viewCache.server).under childKey)
      viewCache.event) ∧ writes.shown viewCache.server [] ≠ none := by
  have solid : (writes.shown viewCache.server).Solid :=
    WriteTreeRef.solid_shown viewCache.solid_server
  generalize again : Data.overwrite [childKey] ((writes.shown viewCache.server).under childKey)
    viewCache.event = put at different ⊢
  have below : ∀ key rest, put (key :: rest) = writes.shown viewCache.server (key :: rest) := by
    intro key rest
    rw [← again]
    by_cases same : key = childKey
    · subst same
      exact Data.overwrite_cons_self _ _
    · obtain ⟨change, once⟩ := lags.once
      rw [Data.overwrite_cons_ne _ _ same, lags.shows, once]
      exact Data.afterAll_congr (Data.overwrite_cons_ne _ _ same)
  have root : put [] ≠ writes.shown viewCache.server [] := by
    intro same
    refine different (funext fun path => ?_)
    cases path with
    | nil => exact same
    | cons key rest => exact below key rest
  have put_nil : put [] = viewCache.event [] ∨ put [] = none := by
    rw [← again, Data.overwrite_cons_nil]
    split
    · exact Or.inl rfl
    · exact Or.inr rfl
  have put_none : put [] = none := by
    rcases put_nil with kept | removed
    · rw [kept] at root ⊢
      exact lags.root.resolve_right root
    · exact removed
  have leaf : writes.shown viewCache.server [] ≠ none := fun missing =>
    root (put_none.trans missing.symm)
  refine ⟨fun path => ?_, leaf⟩
  cases path with
  | nil => exact put_none
  | cons key rest => exact (below key rest).trans (solid [] key rest leaf)

/-- After a rejection the view shows the server's data after the writes still pending. -/
theorem Lags.revertUserWrite (tracks : writes.writeTree.Tracks)
    (lags : Lags writes path gone viewCache) :
    Leads (revertUserWrite writes viewCache path) viewCache.server
      (writes.shown viewCache.server) := by
  have complete := lags.complete
  have eventFormed := complete.eventFormed
  obtain ⟨completeNode, calculated, completeHolds⟩ :=
    WriteTreeRef.calculateCompleteEventCache_holds tracks complete.serverFormed lags.keeps
  have known : viewCache.completeServerSnap = some viewCache.cachedServerSnap.node :=
    if_pos complete.serverInitialized
  rw [ViewProcessor.revertUserWrite]
  by_cases shadowed : (writes.shadowingWriteAtPath path).isSome = true
  · rw [if_pos shadowed]
    exact lags.leads_unchanged tracks shadowed
  rw [if_neg shadowed, complete.serverInitialized, known, calculated]
  simp only [Option.getD_some, Bool.and_true, Bool.true_or, if_true]
  cases path with
  | nil =>
    exact completeHolds.same ▸ leads_updateEventSnap complete.toWellFormed
      complete.serverInitialized completeHolds.wellFormed _
  | cons childKey childPath =>
    obtain ⟨newChild, childCalculated, childHolds⟩ :=
      WriteTreeRef.calculateCompleteChild_holds tracks complete.serverFormed lags.keeps childKey
        (CacheNode.isCompleteForChild_of_initialized complete.serverInitialized
          complete.serverUnfiltered childKey) rfl
    have reverted : revertedChild writes viewCache childKey = some newChild := by
      rw [revertedChild, childCalculated]
    have putFormed := IndexedFilter.wellFormed_updateChildIn eventFormed childHolds.wellFormed
      childKey childPath
    have put := IndexedFilter.dataAt_updateChildIn eventFormed childHolds.wellFormed
      (lags.settled tracks shadowed childHolds.same)
    rw [childHolds.same] at put
    dsimp only
    rw [reverted, ViewProcessor.putBack]
    generalize IndexedFilter.updateChildIn viewCache.cachedEventSnap.node childKey newChild
      childPath = replaced at put putFormed ⊢
    have leads := fun (node : Node) (new : node.WellFormed)
        (same : node.dataAt = writes.shown viewCache.server) (tracked : ChildChanges) =>
      same ▸ leads_updateEventSnap complete.toWellFormed complete.serverInitialized new tracked
    have onlyLeaf := fun different : replaced.1.dataAt ≠ writes.shown viewCache.server =>
      lags.putBack (put ▸ different)
    split
    · split
      · exact leads completeNode completeHolds.wellFormed completeHolds.same _
      · rename_i notLeaf
        refine leads _ putFormed (Classical.byContradiction fun different => notLeaf ?_) _
        have shows := congrFun completeHolds.same []
        exact Node.isLeafNode_of_dataAt fun missing =>
          (onlyLeaf different).2 (shows.symm.trans missing)
    · rename_i stored
      refine leads _ putFormed (Classical.byContradiction fun different => stored ?_) _
      rw [putFormed.isEmpty_iff_dataAt, put]
      exact (onlyLeaf different).1

end ViewProcessor

end PhotoMap
