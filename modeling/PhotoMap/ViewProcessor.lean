/-
This file models how a view of the database client keeps what it shows up to
date (`FViewProcessor`), for a view that shows all the data of its place, without
priorities and queries. A view caches the server's data and what is shown, which
is the server's data under the pending writes. Every operation, a write of the
user, a change of the server, or the end of a pending write, changes the caches
at its path and tracks the changes of the children.
-/

import PhotoMap.EventCache
import PhotoMap.IndexedFilter

namespace PhotoMap

/-! ### Parts of a compound write -/

namespace CompoundWrite

def rootWrite (write : CompoundWrite) : Option Node := write.writeTree.value

def childCompoundWrites (write : CompoundWrite) : List (Text × CompoundWrite) :=
  write.writeTree.children.map fun child => (child.1, ⟨child.2⟩)

/-- `completeChildren`. -/
def completeChildren (write : CompoundWrite) : List (Σ _ : Text, Node) :=
  match write.writeTree.value with
  | some node => node.childNodes
  | none => write.writeTree.children.filterMap fun child =>
    child.2.value.map fun node => ⟨child.1, node⟩

end CompoundWrite

/-! ### The caches of a view -/

/-- `FCacheNode`. -/
structure CacheNode where
  node : Node
  isFullyInitialized : Bool
  isFiltered : Bool

namespace CacheNode

def isCompleteForChild (cache : CacheNode) (childKey : Text) : Bool :=
  cache.isFullyInitialized && !cache.isFiltered || cache.node.hasChild childKey

/-- `isCompleteForPath:`, and also `isCompleteForChild:` for the front of a path, which is `nil`
when the path is empty. -/
def isCompleteForPath (cache : CacheNode) : Path → Bool
  | [] => cache.isFullyInitialized && !cache.isFiltered
  | childKey :: _ => cache.isCompleteForChild childKey

end CacheNode

/-- `FViewCache`. -/
structure ViewCache where
  cachedEventSnap : CacheNode
  cachedServerSnap : CacheNode

namespace ViewCache

def updateEventSnap (viewCache : ViewCache) (eventSnap : Node) (complete filtered : Bool) :
    ViewCache :=
  { viewCache with cachedEventSnap := ⟨eventSnap, complete, filtered⟩ }

def updateServerSnap (viewCache : ViewCache) (serverSnap : Node) (complete filtered : Bool) :
    ViewCache :=
  { viewCache with cachedServerSnap := ⟨serverSnap, complete, filtered⟩ }

def completeEventSnap (viewCache : ViewCache) : Option Node :=
  if viewCache.cachedEventSnap.isFullyInitialized then some viewCache.cachedEventSnap.node else none

def completeServerSnap (viewCache : ViewCache) : Option Node :=
  if viewCache.cachedServerSnap.isFullyInitialized then some viewCache.cachedServerSnap.node
  else none

end ViewCache

/-! ### The writes as a view sees them -/

/-- `FWriteTreeRef`: the pending writes seen from a path. -/
structure WriteTreeRef where
  path : Path
  writeTree : WriteTree

namespace WriteTreeRef

def shadowingWriteAtPath (writes : WriteTreeRef) (path : Path) : Option Node :=
  writes.writeTree.shadowingWrite (writes.path ++ path)

def calculateCompleteEventCache (writes : WriteTreeRef) (completeServerCache : Option Node) :
    Option Node :=
  writes.writeTree.calculateCompleteEventCache writes.path completeServerCache none false

/-- `calculateCompleteEventChildrenWithCompleteServerChildren:`. -/
def calculateCompleteEventChildren (writes : WriteTreeRef) (completeServerChildren : Node) : Node :=
  match writes.writeTree.visibleWrites.completeNodeAtPath writes.path with
  | some topLevelSet => topLevelSet.childNodes.foldl
    (fun completeChildren child => completeChildren.updateImmediateChild child.1 child.2) .emptyNode
  | none =>
    let merge := writes.writeTree.visibleWrites.childCompoundWriteAtPath writes.path
    let layered := completeServerChildren.childNodes.foldl (fun completeChildren child =>
      completeChildren.updateImmediateChild child.1
        ((merge.childCompoundWriteAtPath [child.1]).applyToNode child.2)) .emptyNode
    merge.completeChildren.foldl
      (fun completeChildren child => completeChildren.updateImmediateChild child.1 child.2) layered

def calculateEventCacheAfterServerOverwrite (writes : WriteTreeRef) (childPath : Path)
    (existingServerSnap : Node) : Option Node :=
  writes.writeTree.calculateEventCacheAfterServerOverwrite writes.path childPath existingServerSnap

/-- `calculateCompleteChild:cache:`. -/
def calculateCompleteChild (writes : WriteTreeRef) (childKey : Text)
    (existingServerCache : CacheNode) : Option Node :=
  let path := writes.path ++ [childKey]
  match writes.writeTree.visibleWrites.completeNodeAtPath path with
  | some shadowingNode => some shadowingNode
  | none =>
    if existingServerCache.isCompleteForChild childKey then
      let childMerge := writes.writeTree.visibleWrites.childCompoundWriteAtPath path
      some (childMerge.applyToNode (existingServerCache.node.getImmediateChild childKey))
    else none

end WriteTreeRef

/-! ### Operations -/

/-- An `FOperation` of a source without a query. The affected paths of an acknowledgement are those
with a value. -/
inductive Operation where
  | overwrite (fromUser : Bool) (path : Path) (snap : Node)
  | merge (fromUser : Bool) (path : Path) (children : CompoundWrite)
  | ackUserWrite (path : Path) (affectedTree : ImmutableTree Unit) (revert : Bool)
  | listenComplete (path : Path)

namespace Operation

def path : Operation → Path
  | .overwrite _ path _ => path
  | .merge _ path _ => path
  | .ackUserWrite path _ _ => path
  | .listenComplete path => path

/-- `operationForChild:`. -/
def operationForChild (childKey : Text) : Operation → Option Operation
  | .overwrite fromUser [] snap => some (.overwrite fromUser [] (snap.getImmediateChild childKey))
  | .overwrite fromUser (_ :: rest) snap => some (.overwrite fromUser rest snap)
  | .merge fromUser [] children =>
    let childTree := children.childCompoundWriteAtPath [childKey]
    if childTree.isEmpty then none
    else
      match childTree.rootWrite with
      | some rootWrite => some (.overwrite fromUser [] rootWrite)
      | none => some (.merge fromUser [] childTree)
  | .merge fromUser (_ :: rest) children => some (.merge fromUser rest children)
  | .ackUserWrite [] affectedTree revert =>
    match affectedTree.value with
    | some _ => some (.ackUserWrite [] affectedTree revert)
    | none => some (.ackUserWrite [] (affectedTree.subtreeAtPath [childKey]) revert)
  | .ackUserWrite (_ :: rest) affectedTree revert => some (.ackUserWrite rest affectedTree revert)
  | .listenComplete [] => some (.listenComplete [])
  | .listenComplete (_ :: rest) => some (.listenComplete rest)

/-- The operation for a child that is visited: `applyOperationHelper:` follows the path of the
operation, and from its end `applyOperationDescendantsHelper:` goes to every child. -/
def operationForVisited (operation : Operation) (childKey : Text) : Option Operation :=
  match operation.path with
  | [] => operation.operationForChild childKey
  | front :: _ => if front = childKey then operation.operationForChild childKey else none

end Operation

namespace ViewProcessor

/-! ### The processor -/

/-- Caches with the changes that were tracked on the way to them. -/
abbrev Processed := ViewCache × ChildChanges

/-- Applies a step to each item, one after the other. -/
def applyEach {Change : Type} (step : ViewCache → Change → Processed) (viewCache : ViewCache)
    (changes : List Change) : Processed :=
  changes.foldl (fun processed change =>
    let next := step processed.1 change
    (next.1, processed.2 ++ next.2)) (viewCache, [])

/-- `completeChild:` of the source of complete children. -/
def completeChild (writesCache : WriteTreeRef) (viewCache : ViewCache)
    (optCompleteServerCache : Option Node) (childKey : Text) : Option Node :=
  let node := viewCache.cachedEventSnap
  if node.isCompleteForChild childKey then some (node.node.getImmediateChild childKey)
  else
    match optCompleteServerCache with
    | some server => writesCache.calculateCompleteChild childKey ⟨server, true, false⟩
    | none => writesCache.calculateCompleteChild childKey viewCache.cachedServerSnap

/-- `generateEventCacheAfterServerEvent:path:writesCache:source:accumulator:`. The server's data is
complete when the path is empty, so the event cache that is calculated then is not `nil`. -/
def generateEventCacheAfterServerEvent (writesCache : WriteTreeRef) (viewCache : ViewCache)
    (changePath : Path) : Processed :=
  let oldEventSnap := viewCache.cachedEventSnap
  if (writesCache.shadowingWriteAtPath changePath).isSome then (viewCache, [])
  else
    let newEventCache : Node × ChildChanges :=
      match changePath with
      | [] =>
        let nodeWithLocalWrites :=
          if viewCache.cachedServerSnap.isFiltered then
            writesCache.calculateCompleteEventChildren
              (viewCache.completeServerSnap.getD .emptyNode)
          else
            (writesCache.calculateCompleteEventCache viewCache.completeServerSnap).getD .emptyNode
        IndexedFilter.updateFullNode oldEventSnap.node nodeWithLocalWrites
      | childKey :: childChangePath =>
        let oldEventChild := oldEventSnap.node.getImmediateChild childKey
        let newEventChild :=
          if oldEventSnap.isCompleteForChild childKey then
            match writesCache.calculateEventCacheAfterServerOverwrite (childKey :: childChangePath)
              viewCache.cachedServerSnap.node with
            | some update => some (oldEventChild.updateChild childChangePath update)
            | none => some oldEventChild
          else writesCache.calculateCompleteChild childKey viewCache.cachedServerSnap
        match newEventChild with
        | some newEventChild =>
          IndexedFilter.updateChildIn oldEventSnap.node childKey newEventChild childChangePath
        | none => (oldEventSnap.node, [])
    (viewCache.updateEventSnap newEventCache.1
      (oldEventSnap.isFullyInitialized || changePath.isEmpty) false, newEventCache.2)

/-- `applyServerOverwriteTo:changePath:snap:writesCache:completeCache:filterServerNode:` -/
def applyServerOverwrite (writesCache : WriteTreeRef) (oldViewCache : ViewCache)
    (changePath : Path) (changedSnap : Node) : Processed :=
  let oldServerSnap := oldViewCache.cachedServerSnap
  match changePath with
  | [] =>
    generateEventCacheAfterServerEvent writesCache
      (oldViewCache.updateServerSnap changedSnap true false) []
  | childKey :: childChangePath =>
    if !oldServerSnap.isCompleteForChild childKey && !childChangePath.isEmpty then
      (oldViewCache, [])
    else
      let childNode := oldServerSnap.node.getImmediateChild childKey
      let newChildNode := childNode.updateChild childChangePath changedSnap
      let newServerCache :=
        (IndexedFilter.updateChildIn oldServerSnap.node childKey newChildNode childChangePath).1
      generateEventCacheAfterServerEvent writesCache
        (oldViewCache.updateServerSnap newServerCache oldServerSnap.isFullyInitialized false)
        (childKey :: childChangePath)

/-- The new child of `applyUserOverwriteTo:`. A child that is not complete becomes empty. -/
def overwrittenChild (writesCache : WriteTreeRef) (completeCache : Option Node)
    (oldViewCache : ViewCache) (childKey : Text) (childChangePath : Path) (changedSnap : Node) :
    Node :=
  match childChangePath with
  | [] => changedSnap
  | _ :: _ =>
    match completeChild writesCache oldViewCache completeCache childKey with
    | some childNode => childNode.updateChild childChangePath changedSnap
    | none => .emptyNode

/-- `applyUserOverwriteTo:changePath:changedSnap:writesCache:completeCache:accumulator:`. -/
def applyUserOverwrite (writesCache : WriteTreeRef) (completeCache : Option Node)
    (oldViewCache : ViewCache) (changePath : Path) (changedSnap : Node) : Processed :=
  let oldEventSnap := oldViewCache.cachedEventSnap
  match changePath with
  | [] =>
    let newEventCache := IndexedFilter.updateFullNode oldEventSnap.node changedSnap
    (oldViewCache.updateEventSnap newEventCache.1 true false, newEventCache.2)
  | childKey :: childChangePath =>
    let oldChild := oldEventSnap.node.getImmediateChild childKey
    let newChild := overwrittenChild writesCache completeCache oldViewCache childKey childChangePath
      changedSnap
    if oldChild.isEqual newChild then (oldViewCache, [])
    else
      let newEventSnap :=
        IndexedFilter.updateChildIn oldEventSnap.node childKey newChild childChangePath
      (oldViewCache.updateEventSnap newEventSnap.1 oldEventSnap.isFullyInitialized false,
        newEventSnap.2)

/-- `applyUserMergeTo:path:changedChildren:writesCache:completeCache:accumulator:`: the writes to
children in view come first. -/
def applyUserMerge (writesCache : WriteTreeRef) (completeCache : Option Node)
    (viewCache : ViewCache) (path : Path) (changedChildren : CompoundWrite) : Processed :=
  let writes := changedChildren.enumerateWrites.map fun found => (path ++ found.1, found.2)
  let inView := fun write : Path × Node => viewCache.cachedEventSnap.isCompleteForPath write.1
  applyEach (fun viewCache write =>
      applyUserOverwrite writesCache completeCache viewCache write.1 write.2) viewCache
    (writes.filter inView ++ writes.filter fun write => !inView write)

/-- A merge below a path as a merge at the place of the view. -/
def actualMerge (path : Path) (changedChildren : CompoundWrite) : CompoundWrite :=
  if path.isEmpty then changedChildren
  else CompoundWrite.emptyWrite.addCompoundWrite changedChildren path

/-- `applyServerMergeTo:path:changedChildren:writesCache:completeCache:filterServerNode:`: the
children the server has come first. -/
def applyServerMerge (writesCache : WriteTreeRef) (viewCache : ViewCache) (path : Path)
    (changedChildren : CompoundWrite) : Processed :=
  let serverSnap := viewCache.cachedServerSnap
  if serverSnap.node.isEmpty && !serverSnap.isFullyInitialized then (viewCache, [])
  else
    let children := (actualMerge path changedChildren).childCompoundWrites
    let known := children.filter fun child => serverSnap.node.hasChild child.1
    let unknown := children.filter fun child =>
      let isUnknownDeepMerge := !serverSnap.isCompleteForChild child.1 && child.2.rootWrite.isNone
      !serverSnap.node.hasChild child.1 && !isUnknownDeepMerge
    applyEach (fun viewCache child =>
        applyServerOverwrite writesCache viewCache [child.1]
          (child.2.applyToNode (serverSnap.node.getImmediateChild child.1))) viewCache
      (known ++ unknown)

/-- `ackUserWriteOn:ackPath:affectedTree:writesCache:completeCache:accumulator:`: the server's data
at the affected paths is applied again, now that it is not shadowed. -/
def ackUserWrite (writesCache : WriteTreeRef) (viewCache : ViewCache) (ackPath : Path)
    (affectedTree : ImmutableTree Unit) : Processed :=
  let serverCache := viewCache.cachedServerSnap
  if (writesCache.shadowingWriteAtPath ackPath).isSome then (viewCache, [])
  else
    match affectedTree.value with
    | some _ =>
      if ackPath.isEmpty && serverCache.isFullyInitialized ||
          serverCache.isCompleteForPath ackPath then
        applyServerOverwrite writesCache viewCache ackPath (serverCache.node.getChild ackPath)
      else if ackPath.isEmpty then
        applyServerMerge writesCache viewCache ackPath (serverCache.node.childNodes.foldl
          (fun changedChildren child => changedChildren.addWrite child.2 [child.1]) .emptyWrite)
      else (viewCache, [])
    | none =>
      applyServerMerge writesCache viewCache ackPath (affectedTree.forEach.foldl
        (fun changedChildren found =>
          if serverCache.isCompleteForPath (ackPath ++ found.1) then
            changedChildren.addWrite (serverCache.node.getChild (ackPath ++ found.1)) found.1
          else changedChildren) .emptyWrite)

/-- The child that `revertUserWriteOn:` puts back, or `nil` to remove it. -/
def revertedChild (writesCache : WriteTreeRef) (viewCache : ViewCache) (childKey : Text) :
    Option Node :=
  match writesCache.calculateCompleteChild childKey viewCache.cachedServerSnap with
  | some newChild => some newChild
  | none =>
    if viewCache.cachedServerSnap.isCompleteForChild childKey then
      some (viewCache.cachedEventSnap.node.getImmediateChild childKey)
    else none

/-- Puts the child back, or removes it. -/
def putBack (oldEventCache : Node) (childKey : Text) (newChild : Option Node) (childPath : Path) :
    Node × ChildChanges :=
  match newChild with
  | some newChild => IndexedFilter.updateChildIn oldEventCache childKey newChild childPath
  | none =>
    if oldEventCache.hasChild childKey then
      IndexedFilter.updateChildIn oldEventCache childKey .emptyNode childPath
    else (oldEventCache, [])

/-- `revertUserWriteOn:path:writesCache:completeCache:accumulator:`. -/
def revertUserWrite (writesCache : WriteTreeRef) (viewCache : ViewCache) (path : Path) :
    Processed :=
  let serverCache := viewCache.cachedServerSnap
  if (writesCache.shadowingWriteAtPath path).isSome then (viewCache, [])
  else
    let oldEventCache := viewCache.cachedEventSnap.node
    let newEventCache : Node × ChildChanges :=
      match path with
      | [] =>
        let newNode :=
          if serverCache.isFullyInitialized then
            (writesCache.calculateCompleteEventCache viewCache.completeServerSnap).getD .emptyNode
          else writesCache.calculateCompleteEventChildren serverCache.node
        IndexedFilter.updateFullNode oldEventCache newNode
      | childKey :: childPath =>
        let replaced := putBack oldEventCache childKey
          (revertedChild writesCache viewCache childKey) childPath
        if replaced.1.isEmpty && serverCache.isFullyInitialized then
          -- the reverted write may have hidden a leaf
          let complete :=
            (writesCache.calculateCompleteEventCache viewCache.completeServerSnap).getD .emptyNode
          if complete.isLeafNode then
            let full := IndexedFilter.updateFullNode replaced.1 complete
            (full.1, replaced.2 ++ full.2)
          else replaced
        else replaced
    let complete := serverCache.isFullyInitialized || (writesCache.shadowingWriteAtPath []).isSome
    (viewCache.updateEventSnap newEventCache.1 complete false, newEventCache.2)

/-- `listenCompleteOldCache:path:writesCache:serverCache:accumulator:`. -/
def listenComplete (writesCache : WriteTreeRef) (viewCache : ViewCache) (path : Path) :
    Processed :=
  let oldServerNode := viewCache.cachedServerSnap
  generateEventCacheAfterServerEvent writesCache
    (viewCache.updateServerSnap oldServerNode.node
      (oldServerNode.isFullyInitialized || path.isEmpty) oldServerNode.isFiltered) path

/-- What `applyOperationOn:operation:writesCache:completeCache:` does to the caches. -/
def process (writesCache : WriteTreeRef) (completeCache : Option Node) (viewCache : ViewCache) :
    Operation → Processed
  | .overwrite true path snap => applyUserOverwrite writesCache completeCache viewCache path snap
  | .overwrite false path snap => applyServerOverwrite writesCache viewCache path snap
  | .merge true path children => applyUserMerge writesCache completeCache viewCache path children
  | .merge false path children => applyServerMerge writesCache viewCache path children
  | .ackUserWrite path affectedTree false => ackUserWrite writesCache viewCache path affectedTree
  | .ackUserWrite path _ true => revertUserWrite writesCache viewCache path
  | .listenComplete path => listenComplete writesCache viewCache path

/-- `FViewProcessorResult`: the changes of the children, and the node of a value change. -/
structure Result where
  viewCache : ViewCache
  childChanges : ChildChanges
  value : Option Node

/-- `maybeAddValueFromOldViewCache:newViewCache:changes:`. -/
def maybeAddValue (oldViewCache newViewCache : ViewCache) (changes : ChildChanges) : Option Node :=
  let eventSnap := newViewCache.cachedEventSnap
  if eventSnap.isFullyInitialized then
    let isLeafOrEmpty := eventSnap.node.isLeafNode || eventSnap.node.isEmpty
    if !changes.isEmpty || !oldViewCache.cachedEventSnap.isFullyInitialized ||
        isLeafOrEmpty && !oldViewCache.completeEventSnap.any eventSnap.node.isEqual then
      some eventSnap.node
    else none
  else none

/-- `applyOperationOn:operation:writesCache:completeCache:`, if the accumulator does not throw. -/
def applyOperation (writesCache : WriteTreeRef) (completeCache : Option Node)
    (oldViewCache : ViewCache) (operation : Operation) : Option Result :=
  let processed := process writesCache completeCache oldViewCache operation
  (accumulated processed.2).map fun changes =>
    { viewCache := processed.1
      childChanges := changes
      value := maybeAddValue oldViewCache processed.1 changes }

end ViewProcessor

end PhotoMap
