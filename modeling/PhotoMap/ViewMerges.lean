/-
This file is about a merge the server makes in its data. The client makes it
child by child: every child that is written is replaced by what the merge makes
of it, and what is shown of the child is brought up to date. The children are the
same in the end as if all that is merged had been written in the server's data,
one after the other, and the view shows the new data after the pending writes.
-/

import PhotoMap.ViewUpdates

namespace PhotoMap

open Overlay

/-! ### The children of a merge -/

namespace CompoundWrite

variable {merge changed : CompoundWrite}

/-- The overwrites of children that a merge comes to, for a node. -/
def childOverwrites (node : Node) (children : List (Text × CompoundWrite)) : List (Text × Node) :=
  children.map fun child => (child.1, child.2.applyToNode (node.getImmediateChild child.1))

/-- Children under their keys, as writes. -/
def childWrites (changes : List (Text × Node)) : List (Path × Node) :=
  changes.map fun change => ([change.1], change.2)

theorem dataAt_applyToNode (formed : merge.WellFormed) {node : Node}
    (nodeFormed : node.WellFormed) :
    (merge.applyToNode node).dataAt =
      Data.afterAll Node.dataAt merge.enumerateWrites node.dataAt := by
  rw [applyToNode_eq formed]
  exact nodeFormed.dataAt_foldl_updateChild formed.enumerateWrites

theorem afterAll_childOverwrites_kids {kids : List (Σ _ : Text, ImmutableTree Node)}
    (distinct : kids.NodupKeys) (each : ∀ kid ∈ kids, (CompoundWrite.mk kid.2).WellFormed)
    {node : Node} (nodeFormed : node.WellFormed) {data : Data Text Leaf} (solid : data.Solid)
    (same : ∀ kid ∈ kids, data.under kid.1 = (node.getImmediateChild kid.1).dataAt) :
    Data.afterAll Node.dataAt (childWrites (childOverwrites node
        (kids.map fun kid => (kid.1, ⟨kid.2⟩)))) data =
      Data.afterAll Node.dataAt (ImmutableTree.forEachChild kids) data := by
  induction kids generalizing data with
  | nil => rfl
  | cons kid rest inductionHypothesis =>
    obtain ⟨key, tree⟩ := kid
    obtain ⟨notLater, restDistinct⟩ := List.nodupKeys_cons.mp distinct
    obtain ⟨first, later⟩ := List.forall_mem_cons.mp each
    obtain ⟨firstSame, laterSame⟩ := List.forall_mem_cons.mp same
    -- the writes of the first child are one write under its key
    have child := dataAt_applyToNode first (nodeFormed.getImmediateChild key)
    have prefixed := Data.afterAll_prefixed [key] first.pairwise_enumerateWrites solid
      fun write _ => write.2.solid_dataAt
    have written : Data.afterAll Node.dataAt (tree.forEach.map fun found =>
          (key :: found.1, found.2)) data =
        Data.overwrite [key] ((CompoundWrite.mk tree).applyToNode
          (node.getImmediateChild key)).dataAt data := by
      rw [child, ← firstSame]
      exact prefixed
    rw [ImmutableTree.forEachChild, Data.afterAll_append, written]
    refine inductionHypothesis restDistinct later
      (Data.solid_overwrite solid (Node.solid_dataAt _) [key]) fun kid member => ?_
    have keyMember := List.mem_keys_of_mem member
    have different : kid.1 ≠ key := by
      intro equal
      rw [equal] at keyMember
      exact notLater keyMember
    rw [← laterSame kid member]
    exact funext fun path => Data.overwrite_cons_ne _ _ different

/-- Making a merge child by child is making all its writes. -/
theorem afterAll_childOverwrites (formed : merge.WellFormed) (noRoot : merge.rootWrite = none)
    {node : Node} (nodeFormed : node.WellFormed) :
    Data.afterAll Node.dataAt (childWrites (childOverwrites node merge.childCompoundWrites))
        node.dataAt =
      Data.afterAll Node.dataAt merge.enumerateWrites node.dataAt := by
  obtain ⟨value, kids⟩ := merge
  obtain rfl : value = none := noRoot
  have all : (CompoundWrite.mk (.mk none kids)).enumerateWrites =
      ImmutableTree.forEachChild kids := List.append_nil _
  rw [all]
  refine afterAll_childOverwrites_kids formed.proper.distinct (fun kid member => ?_) nodeFormed
    node.solid_dataAt fun _ _ => rfl
  exact formed.childCompoundWrites (kid.1, ⟨kid.2⟩) (List.mem_map.mpr ⟨kid, member, rfl⟩)

theorem mem_enumerateWrites_emptyWrite (formed : changed.WellFormed) (path : Path)
    (write : Path × Node) :
    write ∈ (emptyWrite.addCompoundWrite changed path).enumerateWrites ↔
      write ∈ changed.enumerateWrites.map fun found => (path ++ found.1, found.2) := by
  have nodes : ∀ found ∈ changed.enumerateWrites.map fun found => (path ++ found.1, found.2),
      found.2.WellFormed := by
    intro found member
    obtain ⟨inner, there, rfl⟩ := List.mem_map.mp member
    exact formed.enumerateWrites inner there
  have added : emptyWrite.addCompoundWrite changed path =
      (changed.enumerateWrites.map fun found => (path ++ found.1, found.2)).foldl
        (fun newWrite found => newWrite.addWrite found.2 found.1) emptyWrite := by
    rw [List.foldl_map]
    rfl
  obtain ⟨addedFormed, layered⟩ := wellFormed_emptyWrite.writes_foldl_addWrite nodes
  rw [added, addedFormed.mem_enumerateWrites write.1 write.2, layered, writes_emptyWrite,
    Writes.layer_eq_some_iff (Data.pairwise_prefixed path formed.pairwise_enumerateWrites)
      fun found _ => Writes.apart_empty found.1]
  exact or_iff_right (Option.some_ne_none write.2).symm

end CompoundWrite

/-! ### Children overwritten by the server -/

namespace ViewProcessor

variable {writes : WriteTreeRef} {viewCache : ViewCache} {changes : List (Text × Node)}

/-- Overwrites of children by the server, one after the other. -/
def applyServerOverwrites (writes : WriteTreeRef) (viewCache : ViewCache)
    (changes : List (Text × Node)) : Processed :=
  applyEach (fun viewCache change => applyServerOverwrite writes viewCache [change.1] change.2)
    viewCache changes

theorem applyServerOverwrites_cons (writes : WriteTreeRef) (viewCache : ViewCache)
    (change : Text × Node) (rest : List (Text × Node)) :
    applyServerOverwrites writes viewCache (change :: rest) =
      ((applyServerOverwrites writes
          (applyServerOverwrite writes viewCache [change.1] change.2).1 rest).1,
        (applyServerOverwrite writes viewCache [change.1] change.2).2 ++
          (applyServerOverwrites writes
            (applyServerOverwrite writes viewCache [change.1] change.2).1 rest).2) :=
  applyEach_cons _ viewCache change rest

/-- Between the old data of the server and the new, a child has the one or the other. -/
theorem keeps_overwritten {server : Data Text Leaf} {change : Text × Node}
    (notLater : change.1 ∉ changes.map Prod.fst) (keeps : writes.Keeps server)
    (keepsNew : writes.Keeps (Data.afterAll Node.dataAt (CompoundWrite.childWrites changes)
      (Data.overwrite [change.1] change.2.dataAt server))) :
    writes.Keeps (Data.overwrite [change.1] change.2.dataAt server) := by
  refine Data.Safe.between keeps keepsNew fun path => ?_
  cases path with
  | nil =>
    rw [Data.overwrite_cons_nil]
    split
    · exact Or.inl rfl
    · exact Or.inr (Or.inr rfl)
  | cons key path =>
    by_cases same : key = change.1
    · refine Or.inr (Or.inl (Data.afterAll_of_apart (fun write member => ?_) _).symm)
      obtain ⟨later, there, rfl⟩ := List.mem_map.mp member
      refine apart_of_ne fun equal => notLater ?_
      exact same ▸ equal ▸ List.mem_map_of_mem there
    · exact Or.inl (Data.overwrite_cons_ne _ _ same)

/-- Overwrites of different children keep the view up to date. -/
theorem Current.applyServerOverwrites (tracks : writes.writeTree.Tracks)
    (current : Current writes viewCache) (formed : ∀ change ∈ changes, change.2.WellFormed)
    (distinct : (changes.map Prod.fst).Nodup) (keeps : writes.Keeps viewCache.server)
    (keepsNew : writes.Keeps (Data.afterAll Node.dataAt (CompoundWrite.childWrites changes)
      viewCache.server)) :
    Leads (applyServerOverwrites writes viewCache changes)
      (Data.afterAll Node.dataAt (CompoundWrite.childWrites changes) viewCache.server)
      (writes.shown (Data.afterAll Node.dataAt (CompoundWrite.childWrites changes)
        viewCache.server)) := by
  induction changes generalizing viewCache with
  | nil => exact ⟨current.complete, rfl, current.shows⟩
  | cons change rest inductionHypothesis =>
    obtain ⟨first, later⟩ := List.forall_mem_cons.mp formed
    obtain ⟨notLater, restDistinct⟩ := List.nodup_cons.mp distinct
    have keepsNext := keeps_overwritten notLater keeps keepsNew
    have step := current.applyServerOverwrite tracks first [change.1] keeps keepsNext
    have server := step.server
    rw [← server] at keepsNext step
    have next := inductionHypothesis step.current later restDistinct keepsNext
      (by rw [server]; exact keepsNew)
    rw [server] at next
    rw [applyServerOverwrites_cons]
    exact next.append _

/-- A child is shadowed when a pending write decides all of it. -/
def IsShadowed (writes : WriteTreeRef) (childKey : Text) : Prop :=
  (writes.shadowingWriteAtPath [childKey]).isSome = true

/-- Overwrites of children with what the server has already bring what is shown of them up to
date, where no pending write shadows it. -/
theorem leads_applyServerOverwrites (tracks : writes.writeTree.Tracks)
    (complete : viewCache.Complete) (formed : ∀ change ∈ changes, change.2.WellFormed)
    (same : ∀ change ∈ changes, change.2.dataAt = viewCache.server.under change.1)
    (keeps : writes.Keeps viewCache.server) :
    Leads (applyServerOverwrites writes viewCache changes) viewCache.server
      (Data.sweep (writes.shown viewCache.server) (IsShadowed writes) (changes.map Prod.fst)
        viewCache.event) := by
  induction changes generalizing viewCache with
  | nil => exact leads_refl complete
  | cons change rest inductionHypothesis =>
    obtain ⟨first, later⟩ := List.forall_mem_cons.mp formed
    obtain ⟨firstSame, laterSame⟩ := List.forall_mem_cons.mp same
    have unchanged : Data.overwrite [change.1] change.2.dataAt viewCache.server =
        viewCache.server := by
      rw [firstSame]
      exact viewCache.cachedServerSnap.node.solid_dataAt.overwrite_self [change.1]
    have step := leads_applyServerOverwrite tracks complete first [change.1]
      (unchanged.symm ▸ keeps)
    rw [unchanged] at step
    have server := step.server
    have next := inductionHypothesis step.complete later (server.symm ▸ laterSame)
      (server.symm ▸ keeps)
    rw [server] at next
    rw [applyServerOverwrites_cons, List.map_cons]
    by_cases shadowed : IsShadowed writes change.1
    · rw [step.event.trans (if_pos shadowed)] at next
      rw [Data.sweep_cons_skipped _ shadowed]
      exact next.append _
    · rw [step.event.trans (if_neg shadowed)] at next
      rw [Data.sweep_cons_swept _ shadowed]
      exact next.append _

/-! ### Merges -/

/-- A merge by the server overwrites the children it writes, in some order. -/
theorem applyServerMerge_eq (writes : WriteTreeRef) (complete : viewCache.Complete) (path : Path)
    (changed : CompoundWrite) :
    ∃ children, children.Perm (actualMerge path changed).childCompoundWrites ∧
      applyServerMerge writes viewCache path changed = applyServerOverwrites writes viewCache
        (CompoundWrite.childOverwrites viewCache.cachedServerSnap.node children) := by
  have known : ∀ childKey, viewCache.cachedServerSnap.isCompleteForChild childKey = true :=
    CacheNode.isCompleteForChild_of_initialized complete.serverInitialized
      complete.serverUnfiltered
  refine ⟨_, List.filter_append_perm
    (fun child => viewCache.cachedServerSnap.node.hasChild child.1) _, ?_⟩
  rw [applyServerMerge, complete.serverInitialized]
  simp only [known, Bool.not_true, Bool.and_false, Bool.false_and, Bool.not_false, Bool.and_true,
    Bool.false_eq_true, if_false]
  rw [applyServerOverwrites, applyEach, applyEach, CompoundWrite.childOverwrites, List.foldl_map]

theorem nodup_childOverwrites {merge : CompoundWrite} (formed : merge.WellFormed) (node : Node)
    {children : List (Text × CompoundWrite)} (same : children.Perm merge.childCompoundWrites) :
    ((CompoundWrite.childOverwrites node children).map Prod.fst).Nodup := by
  have keys : (CompoundWrite.childOverwrites node children).map Prod.fst =
      children.map Prod.fst := by
    rw [CompoundWrite.childOverwrites, List.map_map]
    rfl
  have distinct : (merge.childCompoundWrites.map Prod.fst).Nodup := by
    rw [CompoundWrite.childCompoundWrites, List.map_map]
    exact formed.proper.distinct
  rw [keys]
  exact (same.map Prod.fst).nodup_iff.mpr distinct

theorem pairwise_childWrites {changes : List (Text × Node)}
    (distinct : (changes.map Prod.fst).Nodup) :
    (CompoundWrite.childWrites changes).Pairwise fun first second => Apart first.1 second.1 :=
  List.pairwise_map.mpr ((List.pairwise_map.mp distinct).imp apart_of_ne)

/-- The writes of a merge below a path, as they are made in the data of the place. -/
def mergedWrites (path : Path) (changed : CompoundWrite) : List (Path × Node) :=
  changed.enumerateWrites.map fun found => (path ++ found.1, found.2)

theorem mem_enumerateWrites_actualMerge {changed : CompoundWrite} (formed : changed.WellFormed)
    (path : Path) (write : Path × Node) :
    write ∈ (actualMerge path changed).enumerateWrites ↔ write ∈ mergedWrites path changed := by
  rw [actualMerge]
  split
  · rename_i here
    rw [List.isEmpty_iff.mp here]
    exact Iff.of_eq (congrArg (write ∈ ·) (List.map_id changed.enumerateWrites).symm)
  · exact CompoundWrite.mem_enumerateWrites_emptyWrite formed path write

theorem afterAll_actualMerge {changed : CompoundWrite} (formed : changed.WellFormed) (path : Path)
    (data : Data Text Leaf) :
    Data.afterAll Node.dataAt (actualMerge path changed).enumerateWrites data =
      Data.afterAll Node.dataAt (mergedWrites path changed) data :=
  Data.afterAll_of_same_members (wellFormed_actualMerge path formed).pairwise_enumerateWrites
    (Data.pairwise_prefixed path formed.pairwise_enumerateWrites)
    (mem_enumerateWrites_actualMerge formed path) data

/-- After a merge by the server, the view shows the new data after the pending writes. -/
theorem Current.applyServerMerge (tracks : writes.writeTree.Tracks)
    (current : Current writes viewCache) {changed : CompoundWrite} (formed : changed.WellFormed)
    (path : Path) (noRoot : (actualMerge path changed).rootWrite = none)
    (keeps : writes.Keeps viewCache.server)
    (keepsNew : writes.Keeps (Data.afterAll Node.dataAt (mergedWrites path changed)
      viewCache.server)) :
    Leads (applyServerMerge writes viewCache path changed)
      (Data.afterAll Node.dataAt (mergedWrites path changed) viewCache.server)
      (writes.shown (Data.afterAll Node.dataAt (mergedWrites path changed) viewCache.server)) := by
  have serverFormed := current.complete.serverFormed
  have mergeFormed := wellFormed_actualMerge path formed
  obtain ⟨children, same, applied⟩ := applyServerMerge_eq writes current.complete path changed
  have distinct := nodup_childOverwrites mergeFormed viewCache.cachedServerSnap.node same
  -- the overwrites of the children make all the writes of the merge
  have made : Data.afterAll Node.dataAt (CompoundWrite.childWrites (CompoundWrite.childOverwrites
        viewCache.cachedServerSnap.node children)) viewCache.server =
      Data.afterAll Node.dataAt (mergedWrites path changed) viewCache.server := by
    have ordered : (CompoundWrite.childWrites (CompoundWrite.childOverwrites
          viewCache.cachedServerSnap.node children)).Perm (CompoundWrite.childWrites
        (CompoundWrite.childOverwrites viewCache.cachedServerSnap.node
          (actualMerge path changed).childCompoundWrites)) := (same.map _).map _
    rw [← afterAll_actualMerge formed path,
      Data.afterAll_perm ordered (pairwise_childWrites distinct)]
    exact CompoundWrite.afterAll_childOverwrites mergeFormed noRoot serverFormed
  rw [← made] at keepsNew ⊢
  rw [applied]
  refine current.applyServerOverwrites tracks (fun change member => ?_) distinct keeps keepsNew
  obtain ⟨child, there, rfl⟩ := List.mem_map.mp member
  exact (mergeFormed.childCompoundWrites child (same.mem_iff.mp there)).applyToNode
    (serverFormed.getImmediateChild child.1)

theorem wellFormed_mergedWrites {changed : CompoundWrite} (formed : changed.WellFormed)
    (path : Path) : ∀ write ∈ mergedWrites path changed, write.2.WellFormed := by
  intro write member
  obtain ⟨found, there, rfl⟩ := List.mem_map.mp member
  exact formed.enumerateWrites found there

/-- Writes of the user are made one after the other in what is shown, when that is complete. -/
theorem makes_applyEach (formed : writes.writeTree.visibleWrites.WellFormed)
    {completeCache : Option Node}
    (serverFormed : ∀ node, completeCache = some node → node.WellFormed)
    {new : List (Path × Node)} (newFormed : ∀ write ∈ new, write.2.WellFormed)
    (wellFormed : viewCache.WellFormed)
    (initialized : viewCache.cachedEventSnap.isFullyInitialized = true) :
    Makes viewCache (applyEach (fun viewCache write =>
        applyUserOverwrite writes completeCache viewCache write.1 write.2) viewCache new)
      (Data.afterAll Node.dataAt new viewCache.event) := by
  induction new generalizing viewCache with
  | nil => exact ⟨rfl, initialized, rfl⟩
  | cons write rest inductionHypothesis =>
    obtain ⟨first, later⟩ := List.forall_mem_cons.mp newFormed
    have step := makes_applyUserOverwrite writes wellFormed first completeCache
      (Or.inl initialized : _ ∨ write.1 = [])
    have stepFormed := tracked_applyUserOverwrite formed wellFormed serverFormed write.1 first
    have next := inductionHypothesis later stepFormed.wellFormed step.initialized
    rw [step.event] at next
    rw [applyEach_cons]
    exact next.append _ step.server

/-- A merge of the user is made in what is shown, when that is complete or is overwritten. -/
theorem makes_applyUserMerge (formed : writes.writeTree.visibleWrites.WellFormed)
    {completeCache : Option Node}
    (serverFormed : ∀ node, completeCache = some node → node.WellFormed)
    {changed : CompoundWrite} (changedFormed : changed.WellFormed) (path : Path)
    (wellFormed : viewCache.WellFormed)
    (known : viewCache.cachedEventSnap.isFullyInitialized = true ∨
      ∃ node, mergedWrites path changed = [([], node)]) :
    Makes viewCache (applyUserMerge writes completeCache viewCache path changed)
      (Data.afterAll Node.dataAt (mergedWrites path changed) viewCache.event) := by
  have newFormed := wellFormed_mergedWrites changedFormed path
  rw [applyUserMerge]
  dsimp only
  rw [← mergedWrites]
  generalize mergedWrites path changed = new at newFormed known ⊢
  rcases known with initialized | ⟨node, rfl⟩
  · have filtered : (new.filter fun write => viewCache.cachedEventSnap.isCompleteForPath write.1) ++
        new.filter (fun write => !viewCache.cachedEventSnap.isCompleteForPath write.1) = new := by
      simp only [wellFormed.eventComplete initialized, Bool.not_true, List.filter_true,
        List.filter_false, List.append_nil]
    rw [filtered]
    exact makes_applyEach formed serverFormed newFormed wellFormed initialized
  · have filtered : ([([], node)].filter fun write : Path × Node =>
          viewCache.cachedEventSnap.isCompleteForPath write.1) ++
        [([], node)].filter (fun write : Path × Node =>
          !viewCache.cachedEventSnap.isCompleteForPath write.1) = [([], node)] := by
      cases inView : viewCache.cachedEventSnap.isCompleteForPath [] <;> simp [inView]
    rw [filtered]
    exact ⟨rfl, rfl, rfl⟩

end ViewProcessor

end PhotoMap
