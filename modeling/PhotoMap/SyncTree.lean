/-
This file models the part of the database client that keeps its views and its
pending writes together (`FSyncTree`, `FSyncPoint`), for views that show all the
data of their place and without persistence. A write of the user or a message of
the server is turned into an operation, which goes down the tree of the views to
every view it concerns; an acknowledgement takes the write out of the pending
ones first. A view that is added takes its data from a view above it.
-/

import PhotoMap.ViewProcessor

namespace PhotoMap

/-! ### Trees of views -/

namespace ImmutableTree

variable {Content : Type}

/-- `forEachOnPath:whileBlock:`: the first that a block finds on a path, from the root down. The
block is given the rest of the path. -/
def findOnPath {Found : Type} (block : Path → Content → Option Found) :
    ImmutableTree Content → Path → Option Found
  | tree, path =>
    match tree.value.bind (block path) with
    | some found => some found
    | none =>
      match path with
      | [] => none
      | front :: rest =>
        match tree.child? front with
        | some child => child.findOnPath block rest
        | none => none
termination_by structural _ path => path

/-- `forEachChild:`, as the list of the calls of its block. -/
def childValues (tree : ImmutableTree Content) : List (Text × Content) :=
  tree.children.filterMap fun child => child.2.value.map fun value => (child.1, value)

/-- `removeValueAtPath:`. -/
def removeValueAtPath : ImmutableTree Content → Path → ImmutableTree Content
  | tree, [] => if tree.children.isEmpty then .empty else .mk none tree.children
  | tree, front :: rest =>
    match tree.child? front with
    | some child =>
      let newChild := child.removeValueAtPath rest
      let newChildren :=
        if newChild.isEmpty then tree.children.kerase front
        else tree.children.kinsert front newChild
      if tree.value.isNone && newChildren.isEmpty then .empty else .mk tree.value newChildren
    | none => tree

variable {tree : ImmutableTree Content} {path : Path}

/-- What is found on a path is found at a place on the way. -/
theorem exists_of_findOnPath {Found : Type} {block : Path → Content → Option Found} {found : Found}
    (located : tree.findOnPath block path = some found) :
    ∃ above rest content, path = above ++ rest ∧ tree.valueAtPath above = some content ∧
      block rest content = some found := by
  induction path generalizing tree with
  | nil =>
    rw [findOnPath] at located
    split at located
    · rename_i here
      cases located
      obtain ⟨content, value, blocked⟩ := Option.bind_eq_some_iff.mp here
      exact ⟨[], [], content, rfl, value, blocked⟩
    · cases located
  | cons front rest inductionHypothesis =>
    rw [findOnPath] at located
    split at located
    · rename_i here
      cases located
      obtain ⟨content, value, blocked⟩ := Option.bind_eq_some_iff.mp here
      exact ⟨[], front :: rest, content, rfl, value, blocked⟩
    · split at located
      · rename_i child kid
        obtain ⟨above, below, content, rfl, value, blocked⟩ := inductionHypothesis located
        refine ⟨front :: above, below, content, rfl, ?_, blocked⟩
        rw [valueAtPath, kid]
        exact value
      · cases located

theorem mem_forEach_iff {found : Path × Content} :
    found ∈ tree.forEach ↔ found ∈ forEachChild tree.children ∨
      found.1 = [] ∧ tree.value = some found.2 := by
  obtain ⟨value, kids⟩ := tree
  obtain ⟨place, content⟩ := found
  rw [forEach, List.mem_append]
  refine or_congr_right ?_
  cases value with
  | none => simp [ImmutableTree.value]
  | some here => simp [ImmutableTree.value, eq_comm]

theorem mem_forEach_child {front : Text} {kid : ImmutableTree Content} {found : Path × Content}
    (located : tree.child? front = some kid) (member : found ∈ kid.forEach) :
    (front :: found.1, found.2) ∈ tree.forEach :=
  mem_forEach_iff.mpr (Or.inl (mem_forEachChild.mpr
    ⟨⟨front, kid⟩, List.of_mem_dlookup located, found.1, rfl, member⟩))

theorem mem_forEach_subtreeAtPath {found : Path × Content}
    (member : found ∈ (tree.subtreeAtPath path).forEach) :
    (path ++ found.1, found.2) ∈ tree.forEach := by
  induction path generalizing tree with
  | nil => exact member
  | cons front rest inductionHypothesis =>
    rw [subtreeAtPath] at member
    split at member
    · rename_i child located
      exact mem_forEach_child located (inductionHypothesis member)
    · cases member

theorem mem_forEach_childValues {child : Text × Content} (member : child ∈ tree.childValues) :
    ([child.1], child.2) ∈ tree.forEach := by
  obtain ⟨kid, there, same⟩ := List.mem_filterMap.mp member
  obtain ⟨content, value, rfl⟩ := Option.map_eq_some_iff.mp same
  refine mem_forEach_iff.mpr (Or.inl (mem_forEachChild.mpr ⟨kid, there, [], rfl, ?_⟩))
  exact mem_forEach_iff.mpr (Or.inr ⟨rfl, value⟩)

/-- Setting a value adds no other. -/
theorem mem_forEach_setValue {value : Content} {found : Path × Content}
    (member : found ∈ (tree.setValue value path).forEach) :
    found = (path, value) ∨ found ∈ tree.forEach := by
  induction path generalizing tree found with
  | nil =>
    rcases mem_forEach_iff.mp member with below | ⟨here, same⟩
    · exact Or.inr (mem_forEach_iff.mpr (Or.inl below))
    · exact Or.inl (Prod.ext here (Option.some.inj same).symm)
  | cons front rest inductionHypothesis =>
    rcases mem_forEach_iff.mp member with below | here
    · obtain ⟨kid, kidMember, tail, place, there⟩ := mem_forEachChild.mp below
      rcases List.mem_cons.mp kidMember with rfl | old
      · rcases inductionHypothesis there with same | inside
        · cases same
          exact Or.inl (Prod.ext place rfl)
        · cases located : tree.child? front with
          | none =>
            rw [located] at inside
            cases inside
          | some child =>
            rw [located] at inside
            have kept := mem_forEach_child located inside
            rw [← place] at kept
            exact Or.inr kept
      · refine Or.inr (mem_forEach_iff.mpr (Or.inl (mem_forEachChild.mpr ?_)))
        exact ⟨kid, (List.kerase_sublist front tree.children).subset old, tail, place, there⟩
    · exact Or.inr (mem_forEach_iff.mpr (Or.inr here))

/-- Removing a value adds none. -/
theorem mem_forEach_removeValueAtPath {found : Path × Content}
    (member : found ∈ (tree.removeValueAtPath path).forEach) : found ∈ tree.forEach := by
  induction path generalizing tree found with
  | nil =>
    rw [removeValueAtPath] at member
    split at member
    · cases member
    · rcases mem_forEach_iff.mp member with below | ⟨-, nothing⟩
      · exact mem_forEach_iff.mpr (Or.inl below)
      · cases nothing
  | cons front rest inductionHypothesis =>
    rw [removeValueAtPath] at member
    split at member
    · rename_i child located
      dsimp only at member
      generalize cut : (if (child.removeValueAtPath rest).isEmpty = true then
        tree.children.kerase front
        else tree.children.kinsert front (child.removeValueAtPath rest)) = kids at member
      split at member
      · cases member
      · rcases mem_forEach_iff.mp member with below | here
        · obtain ⟨kid, kidMember, tail, place, there⟩ := mem_forEachChild.mp below
          have sublist := List.kerase_sublist front tree.children
          have old : kid ∈ tree.children → found ∈ tree.forEach := fun oldMember =>
            mem_forEach_iff.mpr (Or.inl (mem_forEachChild.mpr ⟨kid, oldMember, tail, place, there⟩))
          rw [ImmutableTree.children, ← cut] at kidMember
          split at kidMember
          · exact old (sublist.subset kidMember)
          · rcases List.mem_cons.mp kidMember with rfl | kept
            · have inside := mem_forEach_child located (inductionHypothesis there)
              rw [← place] at inside
              exact inside
            · exact old (sublist.subset kept)
        · exact mem_forEach_iff.mpr (Or.inr here)
    · exact member

/-! ### Distinct keys -/

/-- The keys of the children are distinct at every place. -/
inductive Keyed : ImmutableTree Content → Prop
  | mk (value : Option Content) (kids : List (Σ _ : Text, ImmutableTree Content))
      (distinct : kids.NodupKeys) (each : ∀ kid ∈ kids, Keyed kid.2) : Keyed (.mk value kids)

theorem keyed_empty : (empty : ImmutableTree Content).Keyed :=
  .mk none [] List.nodupKeys_nil fun _ member => absurd member List.not_mem_nil

theorem Keyed.child (keyed : tree.Keyed) {key : Text} {kid : ImmutableTree Content}
    (found : tree.child? key = some kid) : kid.Keyed := by
  cases keyed with
  | mk value kids distinct each => exact each ⟨key, kid⟩ (List.of_mem_dlookup found)

theorem Keyed.mem_forEach_iff (keyed : tree.Keyed) {value : Content} :
    (path, value) ∈ tree.forEach ↔ tree.valueAtPath path = some value := by
  refine ⟨fun member => ?_, mem_forEach_of_valueAtPath⟩
  induction path generalizing tree with
  | nil =>
    rcases ImmutableTree.mem_forEach_iff.mp member with below | here
    · obtain ⟨kid, -, rest, same, -⟩ := mem_forEachChild.mp below
      exact absurd same.symm (List.cons_ne_nil kid.1 rest)
    · exact here.2
  | cons front rest inductionHypothesis =>
    rcases ImmutableTree.mem_forEach_iff.mp member with below | here
    · obtain ⟨kid, kidMember, tail, same, there⟩ := mem_forEachChild.mp below
      obtain ⟨rfl, rfl⟩ := List.cons.inj same
      cases keyed with
      | mk value kids distinct each =>
        have found : (ImmutableTree.mk value kids).child? kid.1 = some kid.2 :=
          (List.mem_dlookup_iff distinct).mpr kidMember
        rw [valueAtPath, found]
        exact inductionHypothesis (each kid kidMember) there
    · exact absurd here.1 (List.cons_ne_nil front rest)

theorem Keyed.replaceChild (keyed : tree.Keyed) (value : Option Content) (front : Text)
    {child : ImmutableTree Content} (childKeyed : child.Keyed) :
    (ImmutableTree.mk value (tree.children.kinsert front child)).Keyed := by
  cases keyed with
  | mk here kids distinct each =>
    refine .mk value _ (List.kinsert_nodupKeys front child distinct) fun kid member => ?_
    rcases List.mem_cons.mp member with rfl | old
    · exact childKeyed
    · exact each kid ((List.kerase_sublist front kids).subset old)

theorem Keyed.setValue (keyed : tree.Keyed) (value : Content) (path : Path) :
    (tree.setValue value path).Keyed := by
  induction path generalizing tree with
  | nil =>
    cases keyed with
    | mk here kids distinct each => exact .mk _ kids distinct each
  | cons front rest inductionHypothesis =>
    refine keyed.replaceChild _ front (inductionHypothesis ?_)
    cases found : tree.child? front with
    | none => exact keyed_empty
    | some child => exact keyed.child found

theorem Keyed.valueAtPath_setValue_of_ne (keyed : tree.Keyed) {value content : Content}
    {other : Path} (different : other ≠ path) (found : tree.valueAtPath other = some content) :
    (tree.setValue value path).valueAtPath other = some content := by
  have still : ((tree.setValue value path).valueAtPath other).isSome = true :=
    valueAtPath_setValue_isSome value (Option.isSome_iff_exists.mpr ⟨content, found⟩)
  obtain ⟨kept, now⟩ := Option.isSome_iff_exists.mp still
  rcases mem_forEach_setValue (mem_forEach_of_valueAtPath now) with same | old
  · exact absurd (congrArg Prod.fst same) different
  · rw [now, ← keyed.mem_forEach_iff.mp old]
    exact found

theorem removeValueAtPath_nil (tree : ImmutableTree Content) :
    tree.removeValueAtPath [] = .mk none tree.children := by
  rw [removeValueAtPath]
  split
  · rename_i nothing
    rw [List.isEmpty_iff.mp nothing]
    rfl
  · rfl

/-- The children after a removal below one of them. -/
def removeFromChild (tree child : ImmutableTree Content) (front : Text) (rest : Path) :
    List (Σ _ : Text, ImmutableTree Content) :=
  if (child.removeValueAtPath rest).isEmpty then tree.children.kerase front
  else tree.children.kinsert front (child.removeValueAtPath rest)

theorem removeValueAtPath_cons {front : Text} {rest : Path} {child : ImmutableTree Content}
    (located : tree.child? front = some child) :
    tree.removeValueAtPath (front :: rest) =
      .mk tree.value (removeFromChild tree child front rest) := by
  rw [removeValueAtPath, located]
  show (if (tree.value.isNone && (removeFromChild tree child front rest).isEmpty) = true
    then empty else mk tree.value (removeFromChild tree child front rest)) = _
  split
  · rename_i nothing
    obtain ⟨noValue, noChildren⟩ := Bool.and_eq_true_iff.mp nothing
    rw [Option.isNone_iff_eq_none.mp noValue, List.isEmpty_iff.mp noChildren]
    rfl
  · rfl

theorem Keyed.removeValueAtPath (keyed : tree.Keyed) (path : Path) :
    (tree.removeValueAtPath path).Keyed := by
  induction path generalizing tree with
  | nil =>
    rw [removeValueAtPath_nil]
    cases keyed with
    | mk here kids distinct each => exact .mk _ kids distinct each
  | cons front rest inductionHypothesis =>
    cases located : tree.child? front with
    | none =>
      rw [ImmutableTree.removeValueAtPath, located]
      exact keyed
    | some child =>
      rw [removeValueAtPath_cons located, removeFromChild]
      split
      · cases keyed with
        | mk here kids distinct each =>
          have sublist := List.kerase_sublist front kids
          exact .mk _ _ (distinct.sublist sublist) fun kid member =>
            each kid (sublist.subset member)
      · exact keyed.replaceChild _ front (inductionHypothesis (keyed.child located))

/-- Removing a value leaves the others. -/
theorem Keyed.valueAtPath_removeValueAtPath_of_ne (keyed : tree.Keyed) {other : Path}
    (different : other ≠ path) :
    (tree.removeValueAtPath path).valueAtPath other = tree.valueAtPath other := by
  induction path generalizing tree other with
  | nil =>
    rw [removeValueAtPath_nil]
    cases other with
    | nil => exact absurd rfl different
    | cons key tail => rfl
  | cons front rest inductionHypothesis =>
    cases located : tree.child? front with
    | none => rw [ImmutableTree.removeValueAtPath, located]
    | some child =>
      rw [removeValueAtPath_cons located]
      cases other with
      | nil => rfl
      | cons key tail =>
        rw [valueAtPath_cons, valueAtPath_cons, child?, ImmutableTree.children, removeFromChild]
        by_cases same : key = front
        · subst same
          have tailDifferent : tail ≠ rest := fun equal => different (equal ▸ rfl)
          have below := inductionHypothesis (keyed.child located) tailDifferent
          rw [located, Option.getD_some, ← below]
          split
          · rename_i nothing
            cases keyed with
            | mk here kids distinct each =>
              rw [ImmutableTree.children, List.dlookup_kerase _ distinct, Option.getD_none,
                valueAtPath_empty, valueAtPath_of_isEmpty nothing]
          · rw [List.dlookup_kinsert, Option.getD_some]
        · split
          · rw [List.dlookup_kerase_ne same]
            rfl
          · rw [List.dlookup_kinsert_ne same]
            rfl

mutual

/-- The places of the values are distinct. -/
theorem nodup_forEach : ∀ tree : ImmutableTree Content, tree.Keyed →
    (tree.forEach.map Prod.fst).Nodup
  | .mk value kids, keyed => by
    cases keyed with
    | mk _ _ distinct each =>
      have below := nodup_forEachChild kids distinct each
      rw [forEach, List.map_append]
      refine List.nodup_append.mpr ⟨below, ?_, fun place inside other here same => ?_⟩
      · cases value with
        | none => exact List.nodup_nil
        | some value => exact List.nodup_singleton _
      · obtain ⟨found, member, rfl⟩ := List.mem_map.mp inside
        obtain ⟨kid, -, rest, cons, -⟩ := mem_forEachChild.mp member
        obtain ⟨top, topMember, rfl⟩ := List.mem_map.mp here
        obtain ⟨_, -, rfl⟩ := List.mem_map.mp topMember
        exact List.cons_ne_nil kid.1 rest (cons.symm.trans same)
termination_by structural tree => tree

theorem nodup_forEachChild : ∀ kids : List (Σ _ : Text, ImmutableTree Content), kids.NodupKeys →
    (∀ kid ∈ kids, kid.2.Keyed) → ((forEachChild kids).map Prod.fst).Nodup
  | [], _, _ => List.nodup_nil
  | ⟨key, tree⟩ :: rest, distinct, each => by
    obtain ⟨fresh, distinct⟩ := List.nodupKeys_cons.mp distinct
    have here := nodup_forEach tree (each _ List.mem_cons_self)
    have later := nodup_forEachChild rest distinct fun kid member =>
      each kid (List.mem_cons_of_mem _ member)
    rw [forEachChild, List.map_append, List.map_map]
    refine List.nodup_append.mpr ⟨?_, later, fun place inside other below same => ?_⟩
    · have places : tree.forEach.map (Prod.fst ∘ fun found => (key :: found.1, found.2)) =
          (tree.forEach.map Prod.fst).map (List.cons key) := by
        rw [List.map_map]
        rfl
      rw [places]
      exact here.map List.cons_injective
    · obtain ⟨found, -, rfl⟩ := List.mem_map.mp inside
      obtain ⟨later, member, rfl⟩ := List.mem_map.mp below
      obtain ⟨kid, kidMember, tail, cons, -⟩ := mem_forEachChild.mp member
      refine fresh ?_
      rw [(List.cons.inj (same.trans cons)).1]
      exact List.mem_map.mpr ⟨kid, kidMember, rfl⟩
termination_by structural kids => kids

end

end ImmutableTree

/-- The views by their places, and the pending writes. -/
structure SyncTree where
  syncPointTree : ImmutableTree ViewCache
  pendingWriteTree : WriteTree

/-- What the views raise, each with its place. -/
abbrev Raised := List (Path × ViewProcessor.Result)

namespace SyncTree

def init : SyncTree where
  syncPointTree := .empty
  pendingWriteTree := .init

/-! ### Operations -/

mutual

/-- `applyOperationHelper:syncPointTree:serverCache:writesCache:` and
`applyOperationDescendantsHelper:`: the views below come before the view of the place. -/
def applyOperationHelper (writeTree : WriteTree) :
    ImmutableTree ViewCache → Path → Option Node → Operation →
      Option (ImmutableTree ViewCache × Raised)
  | .mk syncPoint children, path, serverCache, operation =>
    let resolvedServerCache := serverCache.or (syncPoint.bind ViewCache.completeServerSnap)
    (applyToChildren writeTree children path resolvedServerCache operation).bind fun below =>
      match syncPoint with
      | none => some (.mk none below.1, below.2)
      | some viewCache =>
        (ViewProcessor.applyOperation ⟨path, writeTree⟩ resolvedServerCache viewCache operation).map
          fun result => (.mk (some result.viewCache) below.1, below.2 ++ [(path, result)])
termination_by structural tree => tree

def applyToChildren (writeTree : WriteTree) :
    List (Σ _ : Text, ImmutableTree ViewCache) → Path → Option Node → Operation →
      Option (List (Σ _ : Text, ImmutableTree ViewCache) × Raised)
  | [], _, _, _ => some ([], [])
  | ⟨childKey, childTree⟩ :: rest, path, serverCache, operation =>
    let visited :=
      match operation.operationForVisited childKey with
      | some childOperation =>
        applyOperationHelper writeTree childTree (path ++ [childKey])
          (serverCache.map fun server : Node => server.getImmediateChild childKey) childOperation
      | none => some (childTree, [])
    visited.bind fun first =>
      (applyToChildren writeTree rest path serverCache operation).map
        fun others : List (Σ _ : Text, ImmutableTree ViewCache) × Raised =>
          (⟨childKey, first.1⟩ :: others.1, first.2 ++ others.2)
termination_by structural children => children

end

def applyOperationToSyncPoints (tree : SyncTree) (operation : Operation) :
    Option (SyncTree × Raised) :=
  (applyOperationHelper tree.pendingWriteTree tree.syncPointTree [] none operation).map
    fun applied => ({ tree with syncPointTree := applied.1 }, applied.2)

/-! ### Writes of the user -/

/-- `applyUserOverwriteAtPath:newData:writeId:isVisible:`. -/
def applyUserOverwrite (tree : SyncTree) (path : Path) (newData : Node) (writeId : Int)
    (visible : Bool) : Option (SyncTree × Raised) :=
  let recorded := { tree with
    pendingWriteTree := tree.pendingWriteTree.addOverwrite path newData writeId visible }
  if !visible then some (recorded, [])
  else recorded.applyOperationToSyncPoints (.overwrite true path newData)

/-- `applyUserMergeAtPath:changedChildren:writeId:`. -/
def applyUserMerge (tree : SyncTree) (path : Path) (changedChildren : CompoundWrite)
    (writeId : Int) : Option (SyncTree × Raised) :=
  let recorded := { tree with
    pendingWriteTree := tree.pendingWriteTree.addMerge path changedChildren writeId }
  recorded.applyOperationToSyncPoints (.merge true path changedChildren)

/-- The affected tree of `ackUserWriteWithWriteId:`. -/
def affectedTree : WriteRecord → ImmutableTree Unit
  | .overwrite _ _ _ _ => ImmutableTree.empty.setValue () []
  | .merge _ merge _ =>
    merge.enumerateWrites.foldl (fun affected found => affected.setValue () found.1) .empty

/-- `ackUserWriteWithWriteId:revert:persist:clock:`, which throws when no write has the
identifier. -/
def ackUserWrite (tree : SyncTree) (writeId : Int) (revert : Bool) : Option (SyncTree × Raised) :=
  (tree.pendingWriteTree.allWrites.find? fun record => record.writeId == writeId).bind fun write =>
    (tree.pendingWriteTree.removeWriteId writeId).bind fun removed =>
      let rest := { tree with pendingWriteTree := removed.1 }
      if !removed.2 then some (rest, [])
      else
        rest.applyOperationToSyncPoints (.ackUserWrite write.path (affectedTree write) revert)

/-- `removeAllWrites`. -/
def removeAllWrites (tree : SyncTree) : Option (SyncTree × Raised) :=
  let rest := { tree with pendingWriteTree := tree.pendingWriteTree.removeAllWrites }
  if tree.pendingWriteTree.allWrites.isEmpty then some (rest, [])
  else rest.applyOperationToSyncPoints
    (.ackUserWrite [] (ImmutableTree.empty.setValue () []) true)

/-! ### Messages of the server -/

def applyServerOverwrite (tree : SyncTree) (path : Path) (newData : Node) :
    Option (SyncTree × Raised) :=
  tree.applyOperationToSyncPoints (.overwrite false path newData)

def applyServerMerge (tree : SyncTree) (path : Path) (changedChildren : CompoundWrite) :
    Option (SyncTree × Raised) :=
  tree.applyOperationToSyncPoints (.merge false path changedChildren)

def applyListenComplete (tree : SyncTree) (path : Path) : Option (SyncTree × Raised) :=
  tree.applyOperationToSyncPoints (.listenComplete path)

/-! ### Views -/

/-- `serverCacheForQuery:`: the data of a complete view above, else what complete views have of the
children. -/
def serverCacheForQuery (tree : SyncTree) (path : Path) : CacheNode :=
  match tree.syncPointTree.findOnPath (fun relativePath viewCache =>
    viewCache.completeServerSnap.map fun server => server.getChild relativePath) path with
  | some serverCacheNode => ⟨serverCacheNode, true, false⟩
  | none =>
    let known := (tree.syncPointTree.subtreeAtPath path).childValues.filterMap fun child =>
      child.2.completeServerSnap.map fun server => (child.1, server)
    ⟨known.foldl (fun server child => server.updateImmediateChild child.1 child.2) .emptyNode,
      false, false⟩

/-- The caches of a view that is added (`addEventRegistration:forNonExistingViewForQuery:`). -/
def initialViewCache (writesCache : WriteTreeRef) (serverCache : CacheNode) : ViewCache :=
  let completeServerCache :=
    if serverCache.isFullyInitialized then some serverCache.node else none
  match writesCache.calculateCompleteEventCache completeServerCache with
  | some eventCache => ⟨⟨eventCache, true, false⟩, serverCache⟩
  | none =>
    ⟨⟨writesCache.calculateCompleteEventChildren serverCache.node, false, false⟩, serverCache⟩

/-- `initialEvents:`. -/
def initialEvents (viewCache : ViewCache) : ViewProcessor.Result where
  viewCache := viewCache
  childChanges := viewCache.cachedEventSnap.node.childNodes.map fun child =>
    ⟨child.1, .childAdded child.2⟩
  value := viewCache.completeEventSnap

/-- `addEventRegistration:forQuery:` for all the data of a place. -/
def addEventRegistration (tree : SyncTree) (path : Path) : SyncTree × Raised :=
  match tree.syncPointTree.valueAtPath path with
  | some viewCache => (tree, [(path, initialEvents viewCache)])
  | none =>
    let viewCache := initialViewCache ⟨path, tree.pendingWriteTree⟩ (tree.serverCacheForQuery path)
    ({ tree with syncPointTree := tree.syncPointTree.setValue viewCache path },
      [(path, initialEvents viewCache)])

/-- `removeEventRegistration:forQuery:cancelError:` for the last registration of a place. -/
def removeEventRegistration (tree : SyncTree) (path : Path) : SyncTree :=
  match tree.syncPointTree.valueAtPath path with
  | some _ => { tree with syncPointTree := tree.syncPointTree.removeValueAtPath path }
  | none => tree

end SyncTree

end PhotoMap
