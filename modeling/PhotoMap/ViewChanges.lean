/-
This file says what holds of every operation on a view, whatever its caches know
of the data of their place. The caches stay as the client builds them, and the
changes that are tracked lead from the children that were shown to those that are
shown then. So the accumulator never throws, and what is told of a child is what
became of it.
-/

import PhotoMap.ViewProcessor

namespace PhotoMap

open Overlay

/-! ### Nodes that are calculated -/

namespace CompoundWrite

variable {write changed : CompoundWrite}

theorem WellFormed.addCompoundWrite (wellFormed : write.WellFormed) (formed : changed.WellFormed)
    (path : Path) : (write.addCompoundWrite changed path).WellFormed :=
  List.foldlRecOn (motive := WellFormed) _ _ wellFormed fun _ writeFormed found member =>
    writeFormed.addWrite (formed.enumerateWrites found member) (path ++ found.1)

/-- A child of the writes is found under its key. -/
theorem WellFormed.valueAtPath_child (wellFormed : write.WellFormed)
    {child : Σ _ : Text, ImmutableTree Node} (member : child ∈ write.writeTree.children)
    (path : Path) : child.2.valueAtPath path = write.writes (child.1 :: path) := by
  have found : write.writeTree.child? child.1 = some child.2 :=
    (List.mem_dlookup_iff wellFormed.proper.distinct).mpr member
  rw [writes, ImmutableTree.valueAtPath_cons, found, Option.getD_some]

theorem WellFormed.childCompoundWrites (wellFormed : write.WellFormed) :
    ∀ child ∈ write.childCompoundWrites, child.2.WellFormed := by
  intro child member
  obtain ⟨found, there, rfl⟩ := List.mem_map.mp member
  refine ⟨wellFormed.proper.child ((List.mem_dlookup_iff wellFormed.proper.distinct).mpr there), ?_⟩
  intro path node written
  rw [writes, wellFormed.valueAtPath_child there] at written
  exact wellFormed.nodes _ node written

theorem WellFormed.completeChildren (wellFormed : write.WellFormed) :
    ∀ child ∈ write.completeChildren, child.2.WellFormed := by
  intro child member
  rw [CompoundWrite.completeChildren] at member
  cases root : write.writeTree.value with
  | some node =>
    rw [root] at member
    have nodeFormed : node.WellFormed := wellFormed.nodes [] node root
    cases nodeFormed with
    | leaf value => cases member
    | children kids distinct stored each => exact each child member
  | none =>
    rw [root] at member
    obtain ⟨found, there, same⟩ := List.mem_filterMap.mp member
    obtain ⟨node, value, rfl⟩ := Option.map_eq_some_iff.mp same
    have written := wellFormed.valueAtPath_child there []
    exact wellFormed.nodes [found.1] node (written.symm.trans value)

end CompoundWrite

namespace Node

/-- Children put into a node one after the other. -/
theorem WellFormed.foldl_updateImmediateChild {node : Node} (wellFormed : node.WellFormed)
    {kids : List (Σ _ : Text, Node)} (formed : ∀ kid ∈ kids, kid.2.WellFormed)
    (change : (Σ _ : Text, Node) → Node → Node)
    (changed : ∀ kid newChild, newChild.WellFormed → (change kid newChild).WellFormed) :
    (kids.foldl (fun node kid => node.updateImmediateChild kid.1 (change kid kid.2))
      node).WellFormed :=
  List.foldlRecOn (motive := Node.WellFormed) _ _ wellFormed fun _ nodeFormed kid member =>
    nodeFormed.updateImmediateChild kid.1 (changed kid kid.2 (formed kid member))

theorem WellFormed.childNodes {node : Node} (wellFormed : node.WellFormed) :
    ∀ child ∈ node.childNodes, child.2.WellFormed := by
  cases wellFormed with
  | leaf value => exact fun child member => absurd member List.not_mem_nil
  | children kids distinct stored each => exact each

end Node

namespace WriteTreeRef

variable {writes : WriteTreeRef} {node : Node}
  (formed : writes.writeTree.visibleWrites.WellFormed)

include formed

theorem wellFormed_calculateCompleteEventCache {server : Option Node}
    (serverFormed : ∀ node, server = some node → node.WellFormed)
    (calculated : writes.calculateCompleteEventCache server = some node) : node.WellFormed := by
  rw [calculateCompleteEventCache, WriteTree.calculateCompleteEventCache] at calculated
  simp only [Option.isNone_none, Bool.not_false, Bool.true_and, if_true] at calculated
  split at calculated
  · rename_i shadowingNode complete
    cases calculated
    exact formed.completeNodeAtPath complete
  · split at calculated
    · exact serverFormed node calculated
    · split at calculated
      · cases calculated
      · cases calculated
        refine (formed.childCompoundWriteAtPath _).applyToNode ?_
        cases server with
        | none => exact Node.wellFormed_emptyNode
        | some known => exact serverFormed known rfl

theorem wellFormed_calculateCompleteEventChildren {children : Node}
    (childrenFormed : children.WellFormed) :
    (writes.calculateCompleteEventChildren children).WellFormed := by
  rw [calculateCompleteEventChildren]
  split
  · rename_i topLevelSet complete
    exact Node.wellFormed_emptyNode.foldl_updateImmediateChild
      (formed.completeNodeAtPath complete).childNodes (fun _ newChild => newChild)
      fun _ _ newFormed => newFormed
  · have merge := formed.childCompoundWriteAtPath writes.path
    refine Node.WellFormed.foldl_updateImmediateChild ?_ merge.completeChildren
      (fun _ newChild => newChild) fun _ _ newFormed => newFormed
    exact Node.wellFormed_emptyNode.foldl_updateImmediateChild childrenFormed.childNodes
      (fun child newChild => ((writes.writeTree.visibleWrites.childCompoundWriteAtPath
        writes.path).childCompoundWriteAtPath [child.1]).applyToNode newChild)
      fun child _ newFormed => (merge.childCompoundWriteAtPath [child.1]).applyToNode newFormed

theorem wellFormed_calculateEventCacheAfterServerOverwrite {childPath : Path} {server : Node}
    (serverFormed : server.WellFormed)
    (calculated : writes.calculateEventCacheAfterServerOverwrite childPath server = some node) :
    node.WellFormed := by
  rw [calculateEventCacheAfterServerOverwrite,
    WriteTree.calculateEventCacheAfterServerOverwrite] at calculated
  dsimp only at calculated
  split at calculated
  · cases calculated
  · split at calculated
    · cases calculated
      exact serverFormed.getChild childPath
    · cases calculated
      exact (formed.childCompoundWriteAtPath _).applyToNode (serverFormed.getChild childPath)

theorem wellFormed_calculateCompleteChild {childKey : Text} {cache : CacheNode}
    (cacheFormed : cache.node.WellFormed)
    (calculated : writes.calculateCompleteChild childKey cache = some node) : node.WellFormed := by
  rw [calculateCompleteChild] at calculated
  dsimp only at calculated
  split at calculated
  · rename_i shadowingNode complete
    cases calculated
    exact formed.completeNodeAtPath complete
  · split at calculated
    · cases calculated
      exact (formed.childCompoundWriteAtPath _).applyToNode
        (cacheFormed.getImmediateChild childKey)
    · cases calculated

end WriteTreeRef

/-! ### Caches and their changes -/

/-- The nodes of the caches are as the client builds them, and nothing is filtered out of them. -/
structure ViewCache.WellFormed (viewCache : ViewCache) : Prop where
  serverFormed : viewCache.cachedServerSnap.node.WellFormed
  serverUnfiltered : viewCache.cachedServerSnap.isFiltered = false
  eventFormed : viewCache.cachedEventSnap.node.WellFormed
  eventUnfiltered : viewCache.cachedEventSnap.isFiltered = false

theorem ViewCache.WellFormed.updateEventSnap {viewCache : ViewCache}
    (wellFormed : viewCache.WellFormed) {node : Node} (new : node.WellFormed) (complete : Bool) :
    (viewCache.updateEventSnap node complete false).WellFormed :=
  { wellFormed with eventFormed := new, eventUnfiltered := rfl }

theorem ViewCache.WellFormed.updateServerSnap {viewCache : ViewCache}
    (wellFormed : viewCache.WellFormed) {node : Node} (new : node.WellFormed) (complete : Bool) :
    (viewCache.updateServerSnap node complete false).WellFormed :=
  { wellFormed with serverFormed := new, serverUnfiltered := rfl }

/-- The data of the server a view has. -/
def ViewCache.server (viewCache : ViewCache) : Data Text Leaf :=
  viewCache.cachedServerSnap.node.dataAt

/-- The data a view shows. -/
def ViewCache.event (viewCache : ViewCache) : Data Text Leaf :=
  viewCache.cachedEventSnap.node.dataAt

/-- The nodes an operation brings are as the client builds them. -/
def Operation.WellFormed : Operation → Prop
  | .overwrite _ _ snap => snap.WellFormed
  | .merge _ _ children => children.WellFormed
  | .ackUserWrite _ _ _ => True
  | .listenComplete _ => True

namespace ViewProcessor

/-- Caches as the client builds them, with changes that lead from what was shown to what is
shown. -/
structure Tracked (viewCache : ViewCache) (processed : Processed) : Prop where
  wellFormed : processed.1.WellFormed
  tells : Tells viewCache.event processed.2 processed.1.event

variable {writes : WriteTreeRef} {viewCache : ViewCache}

theorem tracked_refl (wellFormed : viewCache.WellFormed) : Tracked viewCache (viewCache, []) :=
  ⟨wellFormed, fun _ => rfl⟩

theorem Tracked.of_event_eq {other : ViewCache} {processed : Processed}
    (tracked : Tracked other processed) (same : other.event = viewCache.event) :
    Tracked viewCache processed :=
  ⟨tracked.wellFormed, same ▸ tracked.tells⟩

theorem Tracked.trans {first second : Processed} (before : Tracked viewCache first)
    (after : Tracked first.1 second) : Tracked viewCache (second.1, first.2 ++ second.2) :=
  ⟨after.wellFormed, before.tells.append after.tells⟩

theorem applyEach_cons {Change : Type} (step : ViewCache → Change → Processed)
    (viewCache : ViewCache) (change : Change) (rest : List Change) :
    applyEach step viewCache (change :: rest) =
      ((applyEach step (step viewCache change).1 rest).1,
        (step viewCache change).2 ++ (applyEach step (step viewCache change).1 rest).2) := by
  have collected : ∀ (changes : List Change) (start : ViewCache) (tracked : ChildChanges),
      changes.foldl (fun processed change =>
        ((step processed.1 change).1, processed.2 ++ (step processed.1 change).2)) (start, tracked) =
        ((applyEach step start changes).1, tracked ++ (applyEach step start changes).2) := by
    intro changes
    induction changes with
    | nil =>
      intro start tracked
      exact Prod.ext rfl (List.append_nil tracked).symm
    | cons next changes inductionHypothesis =>
      intro start tracked
      have first := inductionHypothesis (step start next).1 (step start next).2
      have whole : applyEach step start (next :: changes) =
          ((applyEach step (step start next).1 changes).1,
            (step start next).2 ++ (applyEach step (step start next).1 changes).2) := first
      rw [List.foldl_cons, inductionHypothesis, whole, List.append_assoc]
  exact collected rest (step viewCache change).1 ([] ++ (step viewCache change).2)

/-- Changes made one after the other are tracked when each of them is. -/
theorem tracked_applyEach {Change : Type} {step : ViewCache → Change → Processed}
    {changes : List Change}
    (each : ∀ change ∈ changes, ∀ viewCache : ViewCache, viewCache.WellFormed →
      Tracked viewCache (step viewCache change))
    (wellFormed : viewCache.WellFormed) :
    Tracked viewCache (applyEach step viewCache changes) := by
  induction changes generalizing viewCache with
  | nil => exact tracked_refl wellFormed
  | cons change rest inductionHypothesis =>
    obtain ⟨first, later⟩ := List.forall_mem_cons.mp each
    have tracked := first viewCache wellFormed
    rw [applyEach_cons]
    exact tracked.trans (inductionHypothesis later tracked.wellFormed)

/-! ### Every operation -/

/-- Replacing a child of what is shown. -/
theorem tracked_updateChildIn (wellFormed : viewCache.WellFormed) (childKey : Text)
    {newChild : Node} (new : newChild.WellFormed) (affectedPath : Path) (complete : Bool) :
    Tracked viewCache (viewCache.updateEventSnap (IndexedFilter.updateChildIn
        viewCache.cachedEventSnap.node childKey newChild affectedPath).1 complete false,
      (IndexedFilter.updateChildIn viewCache.cachedEventSnap.node childKey newChild
        affectedPath).2) :=
  ⟨wellFormed.updateEventSnap
      (IndexedFilter.wellFormed_updateChildIn wellFormed.eventFormed new _ _) complete,
    IndexedFilter.tells_updateChildIn wellFormed.eventFormed new _ _⟩

/-- Replacing all that is shown. -/
theorem tracked_updateFullNode (wellFormed : viewCache.WellFormed) {newNode : Node}
    (new : newNode.WellFormed) (complete : Bool) :
    Tracked viewCache (viewCache.updateEventSnap (IndexedFilter.updateFullNode
        viewCache.cachedEventSnap.node newNode).1 complete false,
      (IndexedFilter.updateFullNode viewCache.cachedEventSnap.node newNode).2) :=
  ⟨wellFormed.updateEventSnap new complete,
    IndexedFilter.tells_updateFullNode wellFormed.eventFormed new⟩

/-- Leaving what is shown, whether it is complete or not. -/
theorem tracked_unchanged (wellFormed : viewCache.WellFormed) (complete : Bool) :
    Tracked viewCache
      (viewCache.updateEventSnap viewCache.cachedEventSnap.node complete false, []) :=
  ⟨wellFormed.updateEventSnap wellFormed.eventFormed complete, fun _ => rfl⟩

section Operations

variable (formed : writes.writeTree.visibleWrites.WellFormed)

include formed

theorem tracked_generateEventCache (wellFormed : viewCache.WellFormed) (changePath : Path) :
    Tracked viewCache (generateEventCacheAfterServerEvent writes viewCache changePath) := by
  unfold generateEventCacheAfterServerEvent
  dsimp only
  split
  · exact tracked_refl wellFormed
  · cases changePath with
    | nil =>
      have serverFormed : ∀ node, viewCache.completeServerSnap = some node → node.WellFormed := by
        intro node known
        rw [ViewCache.completeServerSnap] at known
        split at known
        · cases known
          exact wellFormed.serverFormed
        · cases known
      refine tracked_updateFullNode wellFormed ?_ _
      split
      · refine WriteTreeRef.wellFormed_calculateCompleteEventChildren formed ?_
        cases known : viewCache.completeServerSnap with
        | none => exact Node.wellFormed_emptyNode
        | some node => exact serverFormed node known
      · cases calculated : writes.calculateCompleteEventCache viewCache.completeServerSnap with
        | none => exact Node.wellFormed_emptyNode
        | some node =>
          exact WriteTreeRef.wellFormed_calculateCompleteEventCache formed serverFormed calculated
    | cons childKey childPath =>
      have oldChild := wellFormed.eventFormed.getImmediateChild childKey
      dsimp only
      split
      · rename_i newEventChild found
        refine tracked_updateChildIn wellFormed childKey ?_ childPath _
        split at found
        · split at found
          · rename_i update calculated
            cases found
            exact oldChild.updateChild childPath
              (WriteTreeRef.wellFormed_calculateEventCacheAfterServerOverwrite formed
                wellFormed.serverFormed calculated)
          · cases found
            exact oldChild
        · exact WriteTreeRef.wellFormed_calculateCompleteChild formed wellFormed.serverFormed found
      · exact tracked_unchanged wellFormed _

theorem tracked_applyServerOverwrite (wellFormed : viewCache.WellFormed) (changePath : Path)
    {changedSnap : Node} (snapFormed : changedSnap.WellFormed) :
    Tracked viewCache (applyServerOverwrite writes viewCache changePath changedSnap) := by
  -- the server's data is replaced, and what is shown is brought up to date
  have updated : ∀ (node : Node), node.WellFormed → ∀ (complete : Bool) (path : Path),
      Tracked viewCache (generateEventCacheAfterServerEvent writes
        (viewCache.updateServerSnap node complete false) path) :=
    fun node nodeFormed complete path => (tracked_generateEventCache formed
      (wellFormed.updateServerSnap nodeFormed complete) path).of_event_eq rfl
  cases changePath with
  | nil => exact updated changedSnap snapFormed _ _
  | cons childKey childPath =>
    rw [applyServerOverwrite]
    dsimp only
    split
    · exact tracked_refl wellFormed
    · have childFormed := wellFormed.serverFormed.getImmediateChild childKey
      exact updated _ (IndexedFilter.wellFormed_updateChildIn wellFormed.serverFormed
        (childFormed.updateChild childPath snapFormed) childKey childPath) _ _

theorem wellFormed_completeChild (wellFormed : viewCache.WellFormed)
    {completeCache : Option Node} (serverFormed : ∀ node, completeCache = some node →
      node.WellFormed) {childKey : Text} {node : Node}
    (found : completeChild writes viewCache completeCache childKey = some node) :
    node.WellFormed := by
  unfold completeChild at found
  dsimp only at found
  split at found
  · cases found
    exact wellFormed.eventFormed.getImmediateChild childKey
  · split at found
    · rename_i server
      have cacheFormed : (CacheNode.mk server true false).node.WellFormed := serverFormed server rfl
      exact WriteTreeRef.wellFormed_calculateCompleteChild formed cacheFormed found
    · exact WriteTreeRef.wellFormed_calculateCompleteChild formed wellFormed.serverFormed found

theorem tracked_applyUserOverwrite (wellFormed : viewCache.WellFormed)
    {completeCache : Option Node} (serverFormed : ∀ node, completeCache = some node →
      node.WellFormed) (changePath : Path) {changedSnap : Node}
    (snapFormed : changedSnap.WellFormed) :
    Tracked viewCache
      (applyUserOverwrite writes completeCache viewCache changePath changedSnap) := by
  cases changePath with
  | nil => exact tracked_updateFullNode wellFormed snapFormed true
  | cons childKey childPath =>
    have newFormed : (overwrittenChild writes completeCache viewCache childKey childPath
        changedSnap).WellFormed := by
      cases childPath with
      | nil => exact snapFormed
      | cons key rest =>
        rw [overwrittenChild]
        split
        · rename_i childNode found
          exact (wellFormed_completeChild formed wellFormed serverFormed found).updateChild _
            snapFormed
        · exact Node.wellFormed_emptyNode
    rw [applyUserOverwrite]
    dsimp only
    split
    · exact tracked_refl wellFormed
    · exact tracked_updateChildIn wellFormed childKey newFormed childPath _

theorem tracked_applyUserMerge (wellFormed : viewCache.WellFormed) {completeCache : Option Node}
    (serverFormed : ∀ node, completeCache = some node → node.WellFormed) (path : Path)
    {changedChildren : CompoundWrite} (childrenFormed : changedChildren.WellFormed) :
    Tracked viewCache
      (applyUserMerge writes completeCache viewCache path changedChildren) := by
  rw [applyUserMerge]
  refine tracked_applyEach (fun write member viewCache wellFormed => ?_) wellFormed
  refine tracked_applyUserOverwrite formed wellFormed serverFormed write.1 ?_
  have there : write ∈ changedChildren.enumerateWrites.map
      fun found => (path ++ found.1, found.2) :=
    (List.mem_append.mp member).elim List.mem_of_mem_filter List.mem_of_mem_filter
  obtain ⟨found, foundMember, rfl⟩ := List.mem_map.mp there
  exact childrenFormed.enumerateWrites found foundMember

omit formed in
theorem wellFormed_actualMerge (path : Path) {changedChildren : CompoundWrite}
    (childrenFormed : changedChildren.WellFormed) :
    (actualMerge path changedChildren).WellFormed := by
  rw [actualMerge]
  split
  · exact childrenFormed
  · exact CompoundWrite.wellFormed_emptyWrite.addCompoundWrite childrenFormed path

theorem tracked_applyServerMerge (wellFormed : viewCache.WellFormed) (path : Path)
    {changedChildren : CompoundWrite} (childrenFormed : changedChildren.WellFormed) :
    Tracked viewCache (applyServerMerge writes viewCache path changedChildren) := by
  have mergeFormed := wellFormed_actualMerge path childrenFormed
  rw [applyServerMerge]
  split
  · exact tracked_refl wellFormed
  · have serverFormed := wellFormed.serverFormed
    refine tracked_applyEach (fun child member viewCache wellFormed => ?_) wellFormed
    refine tracked_applyServerOverwrite formed wellFormed _ ?_
    have there := (List.mem_append.mp member).elim List.mem_of_mem_filter List.mem_of_mem_filter
    exact (mergeFormed.childCompoundWrites child there).applyToNode
      (serverFormed.getImmediateChild child.1)

theorem tracked_ackUserWrite (wellFormed : viewCache.WellFormed) (ackPath : Path)
    (affectedTree : ImmutableTree Unit) :
    Tracked viewCache (ackUserWrite writes viewCache ackPath affectedTree) := by
  rw [ackUserWrite]
  split
  · exact tracked_refl wellFormed
  · split
    · split
      · exact tracked_applyServerOverwrite formed wellFormed _ (wellFormed.serverFormed.getChild ackPath)
      · split
        · refine tracked_applyServerMerge formed wellFormed _ ?_
          exact List.foldlRecOn (motive := CompoundWrite.WellFormed) _ _
            CompoundWrite.wellFormed_emptyWrite fun _ writeFormed child member =>
              writeFormed.addWrite (wellFormed.serverFormed.childNodes child member) _
        · exact tracked_refl wellFormed
    · refine tracked_applyServerMerge formed wellFormed _ ?_
      refine List.foldlRecOn (motive := CompoundWrite.WellFormed) _ _
        CompoundWrite.wellFormed_emptyWrite fun changedChildren writeFormed found _ => ?_
      split
      · exact writeFormed.addWrite (wellFormed.serverFormed.getChild _) _
      · exact writeFormed

theorem tracked_listenComplete (wellFormed : viewCache.WellFormed) (path : Path) :
    Tracked viewCache (listenComplete writes viewCache path) := by
  rw [listenComplete, wellFormed.serverUnfiltered]
  exact (tracked_generateEventCache formed
    (wellFormed.updateServerSnap wellFormed.serverFormed _) path).of_event_eq rfl

omit formed in
theorem tracked_putBack (wellFormed : viewCache.WellFormed) (childKey : Text)
    {newChild : Option Node} (new : ∀ node, newChild = some node → node.WellFormed)
    (childPath : Path) (complete : Bool) :
    Tracked viewCache (viewCache.updateEventSnap (putBack viewCache.cachedEventSnap.node childKey
        newChild childPath).1 complete false,
      (putBack viewCache.cachedEventSnap.node childKey newChild childPath).2) := by
  cases newChild with
  | some node => exact tracked_updateChildIn wellFormed childKey (new node rfl) childPath complete
  | none =>
    rw [putBack]
    split
    · exact tracked_updateChildIn wellFormed childKey Node.wellFormed_emptyNode childPath complete
    · exact tracked_unchanged wellFormed complete

theorem wellFormed_revertedChild (wellFormed : viewCache.WellFormed) {childKey : Text} {node : Node}
    (found : revertedChild writes viewCache childKey = some node) : node.WellFormed := by
  unfold revertedChild at found
  split at found
  · rename_i newChild calculated
    cases found
    exact WriteTreeRef.wellFormed_calculateCompleteChild formed wellFormed.serverFormed calculated
  · split at found
    · cases found
      exact wellFormed.eventFormed.getImmediateChild childKey
    · cases found

theorem tracked_revertUserWrite (wellFormed : viewCache.WellFormed) (path : Path) :
    Tracked viewCache (revertUserWrite writes viewCache path) := by
  have serverFormed : ∀ node, viewCache.completeServerSnap = some node → node.WellFormed := by
    intro node known
    rw [ViewCache.completeServerSnap] at known
    split at known
    · cases known
      exact wellFormed.serverFormed
    · cases known
  have completeFormed : ((writes.calculateCompleteEventCache
      viewCache.completeServerSnap).getD .emptyNode).WellFormed := by
    cases calculated : writes.calculateCompleteEventCache viewCache.completeServerSnap with
    | none => exact Node.wellFormed_emptyNode
    | some node =>
      exact WriteTreeRef.wellFormed_calculateCompleteEventCache formed serverFormed calculated
  rw [revertUserWrite]
  dsimp only
  split
  · exact tracked_refl wellFormed
  · cases path with
    | nil =>
      refine tracked_updateFullNode wellFormed ?_ _
      split
      · exact completeFormed
      · exact WriteTreeRef.wellFormed_calculateCompleteEventChildren formed wellFormed.serverFormed
    | cons childKey childPath =>
      have newFormed : ∀ node, revertedChild writes viewCache childKey = some node →
          node.WellFormed := fun node => wellFormed_revertedChild formed wellFormed
      have replaced := tracked_putBack wellFormed childKey newFormed childPath
      dsimp only
      split
      · split
        · exact (replaced true).trans (tracked_updateFullNode (replaced true).wellFormed
            completeFormed _)
        · exact replaced _
      · exact replaced _

theorem tracked_process (wellFormed : viewCache.WellFormed) {completeCache : Option Node}
    (serverFormed : ∀ node, completeCache = some node → node.WellFormed) {operation : Operation}
    (operationFormed : operation.WellFormed) :
    Tracked viewCache (process writes completeCache viewCache operation) := by
  cases operation with
  | overwrite fromUser path snap =>
    cases fromUser with
    | true => exact tracked_applyUserOverwrite formed wellFormed serverFormed path operationFormed
    | false => exact tracked_applyServerOverwrite formed wellFormed path operationFormed
  | merge fromUser path children =>
    cases fromUser with
    | true => exact tracked_applyUserMerge formed wellFormed serverFormed path operationFormed
    | false => exact tracked_applyServerMerge formed wellFormed path operationFormed
  | ackUserWrite path affectedTree revert =>
    cases revert with
    | true => exact tracked_revertUserWrite formed wellFormed path
    | false => exact tracked_ackUserWrite formed wellFormed path affectedTree
  | listenComplete path => exact tracked_listenComplete formed wellFormed path

end Operations

end ViewProcessor

end PhotoMap
