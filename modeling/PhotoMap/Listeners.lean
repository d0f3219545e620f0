/-
This file is about the listeners of the program (`FEventRegistration`) and what
they are told. A view keeps the registrations of its place and raises the events
of its changes to each, by their types; a new one is told all that is there.
Along any run a listener that only keeps what it is told never meets a change it
cannot make, and has what its view shows: the children are those of the view, and
the last value is the server's data of the place after the pending writes.
-/

import PhotoMap.Exchange
import PhotoMap.Reporting

namespace PhotoMap

open Overlay Transition

/-! ### What an operation raises -/

namespace SyncTree

open ViewProcessor

/-- What the views raise leads from the views before to the views after. A place raises at most
once, and the view of a place that does not raise stays. -/
structure Conveyed (before after : ImmutableTree ViewCache) (raised : Raised) : Prop where
  keyed : after.Keyed
  distinct : (raised.map Prod.fst).Nodup
  told : ∀ event ∈ raised, ∃ old, before.valueAtPath event.1 = some old ∧
    after.valueAtPath event.1 = some event.2.viewCache ∧ Reported old event.2
  kept : ∀ place old, before.valueAtPath place = some old → place ∉ raised.map Prod.fst →
    after.valueAtPath place = some old

theorem conveyed_nothing {views : ImmutableTree ViewCache} (keyed : views.Keyed) :
    Conveyed views views [] :=
  ⟨keyed, List.nodup_nil, fun _ member => absurd member List.not_mem_nil, fun _ _ found _ => found⟩

section Conveying

variable {writeTree : WriteTree} {operation : Operation} {before after : ImmutableTree ViewCache}
  {raised : Raised}

theorem conveyed_of_passed (keyed : before.Keyed) (afterKeyed : after.Keyed)
    (formed : writeTree.visibleWrites.WellFormed)
    (viewsFormed : ∀ view ∈ before.forEach, view.2.WellFormed)
    (operationFormed : operation.WellFormed)
    (passed : Passed writeTree [] operation before.forEach after.forEach raised) :
    Conveyed before after raised := by
  constructor
  · exact afterKeyed
  · refine passed.order.nodup ?_
    exact ImmutableTree.nodup_forEach before keyed
  · rintro ⟨place, result⟩ member
    obtain ⟨⟨_, old⟩, there, rfl, left, next, concerned, reached⟩ :=
      passed.told (place, result) member
    have reported : Reported old result := by
      refine reported_of_reached ?_ (viewsFormed _ there)
        (operationFormed.operationForPath concerned) reached
      exact formed
    exact ⟨old, keyed.mem_forEach_iff.mp there, afterKeyed.mem_forEach_iff.mp left, reported⟩
  · intro place old found silent
    obtain ⟨new, there, rfl⟩ := passed.exists_new (place, old)
      (ImmutableTree.mem_forEach_of_valueAtPath found)
    have now := afterKeyed.mem_forEach_iff.mp there
    rcases passed.silent new there with stayed | ⟨event, raisedThere, same, -⟩
    · rw [now, ← keyed.mem_forEach_iff.mp stayed]
      exact found
    · exact absurd (List.mem_map.mpr ⟨event, raisedThere, same⟩) silent

theorem conveyed_of_applied {tree next : SyncTree} (keyed : tree.syncPointTree.Keyed)
    (formed : tree.pendingWriteTree.visibleWrites.WellFormed)
    (viewsFormed : ∀ view ∈ tree.syncPointTree.forEach, view.2.WellFormed)
    (operationFormed : operation.WellFormed)
    (done : tree.applyOperationToSyncPoints operation = some (next, raised)) :
    Conveyed tree.syncPointTree next.syncPointTree raised := by
  obtain ⟨-, passed⟩ := passed_of_applied formed viewsFormed operationFormed done
  refine conveyed_of_passed keyed ?_ formed viewsFormed operationFormed passed
  obtain ⟨applied, gone, same⟩ := Option.map_eq_some_iff.mp done
  cases same
  exact keyed_applyOperationHelper _ _ _ _ applied keyed gone

end Conveying

/-- A registration is told of one view, which is there, and leaves the others. -/
theorem addEventRegistration_view {tree : SyncTree} (keyed : tree.syncPointTree.Keyed)
    (place : Path) : ∃ viewCache,
      (tree.addEventRegistration place).2 = [(place, initialEvents viewCache)] ∧
      (tree.addEventRegistration place).1.syncPointTree.Keyed ∧
      (tree.addEventRegistration place).1.syncPointTree.valueAtPath place = some viewCache ∧
      ∀ other content, tree.syncPointTree.valueAtPath other = some content →
        (tree.addEventRegistration place).1.syncPointTree.valueAtPath other = some content := by
  rw [addEventRegistration]
  split
  · rename_i viewCache found
    exact ⟨viewCache, rfl, keyed, found, fun _ _ => id⟩
  · rename_i missing
    refine ⟨_, rfl, keyed.setValue _ place, ImmutableTree.valueAtPath_setValue_self _ _ _, ?_⟩
    intro other content found
    refine keyed.valueAtPath_setValue_of_ne ?_ found
    rintro rfl
    exact absurd (missing.symm.trans found) (Option.some_ne_none content).symm

/-- The end of a view leaves the others. -/
theorem removeEventRegistration_view {tree : SyncTree} (keyed : tree.syncPointTree.Keyed)
    (place : Path) : (tree.removeEventRegistration place).syncPointTree.Keyed ∧
      ∀ other, other ≠ place →
        (tree.removeEventRegistration place).syncPointTree.valueAtPath other =
          tree.syncPointTree.valueAtPath other := by
  rw [removeEventRegistration]
  split
  · exact ⟨keyed.removeValueAtPath place, fun other different =>
      keyed.valueAtPath_removeValueAtPath_of_ne different⟩
  · exact ⟨keyed, fun _ _ => rfl⟩

end SyncTree

namespace Exchange

open SyncTree

/-- Whether an event goes through the views; else a listener comes or goes. -/
def Event.isOperation : Event → Bool
  | .addEventRegistration _ => false
  | .removeEventRegistration _ => false
  | _ => true

variable {exchange next : Exchange} {event : Event} {raised : Raised}

/-- What an event raises leads from the views before it to the views after it. -/
theorem conveyed_applied (synced : exchange.client.Synced exchange.told)
    (keyed : exchange.client.syncPointTree.Keyed) (sound : exchange.Sound event)
    (isOperation : event.isOperation = true)
    (done : exchange.applied event = some (next, raised)) :
    Conveyed exchange.client.syncPointTree next.client.syncPointTree raised := by
  have passes {tree : SyncTree} {operation : Operation}
      (applied : tree.applyOperationToSyncPoints operation = some (next.client, raised))
      (tracks : tree.pendingWriteTree.Tracks)
      (sameViews : tree.syncPointTree = exchange.client.syncPointTree)
      (operationFormed : operation.WellFormed) :
      Conveyed exchange.client.syncPointTree next.client.syncPointTree raised := by
    have viewsFormed := synced.viewsFormed
    rw [← sameViews] at keyed viewsFormed ⊢
    exact conveyed_of_applied keyed tracks.wellFormed viewsFormed operationFormed applied
  cases event with
  | setValue path newData writeId =>
    rw [applied, if_pos sound.1, withClient_eq_some] at done
    exact passes done.2 (synced.tracks.addOverwrite sound.2 path writeId) rfl sound.2
  | updateChildren path changedChildren writeId =>
    rw [applied, if_pos sound.1, withClient_eq_some] at done
    exact passes done.2 (synced.tracks.addMerge sound.2 path writeId) rfl sound.2
  | acknowledge writeId revert =>
    rw [applied, withClient_eq_some] at done
    obtain ⟨removable, record, records, first, identified, -⟩ := sound
    obtain ⟨rest, -, tracks, ended⟩ :=
      ackUserWrite_inv synced first identified removable done.2
    rcases ended with ⟨rfl, same, -⟩ | gone
    · rw [same]
      exact conveyed_nothing keyed
    · exact passes gone tracks rfl trivial
  | removeAllWrites =>
    rw [applied, withClient_eq_some, SyncTree.removeAllWrites] at done
    obtain ⟨-, done⟩ := done
    split at done
    · obtain ⟨same, rfl⟩ := Prod.mk.inj (Option.some.inj done)
      rw [← same]
      exact conveyed_nothing keyed
    · exact passes done synced.tracks.removeAllWrites rfl trivial
  | serverOverwrite path newData =>
    rw [applied, withClient_eq_some] at done
    exact passes done.2 synced.tracks rfl sound
  | serverMerge path changedChildren =>
    rw [applied, withClient_eq_some] at done
    exact passes done.2 synced.tracks rfl sound.1
  | listenComplete path =>
    rw [applied, withClient_eq_some] at done
    exact passes done.2 synced.tracks rfl trivial
  | addEventRegistration path => cases isOperation
  | removeEventRegistration path => cases isOperation

end Exchange

/-! ### Registrations -/

/-- `FIRDataEventType`. Without priorities no child moves. -/
inductive EventType where
  | childAdded
  | childRemoved
  | childMoved
  | childChanged
  | value
deriving DecidableEq

/-- An `FValueEventRegistration`, or an `FChildEventRegistration` with the types it has callbacks
for. -/
inductive EventRegistration where
  | value (handle : Nat)
  | child (handle : Nat) (callbacks : List EventType)

namespace EventRegistration

def handle : EventRegistration → Nat
  | .value handle => handle
  | .child handle _ => handle

def responseTo : EventRegistration → EventType → Bool
  | .value _, eventType => eventType == .value
  | .child _ callbacks, eventType => callbacks.contains eventType

/-- It has callbacks for all that becomes of the children. -/
def WatchesChildren (registration : EventRegistration) : Prop :=
  registration.responseTo .childAdded = true ∧ registration.responseTo .childRemoved = true ∧
    registration.responseTo .childChanged = true

end EventRegistration

namespace ChildChange

def eventType : ChildChange → EventType
  | .childAdded _ => .childAdded
  | .childRemoved _ => .childRemoved
  | .childChanged _ _ => .childChanged

/-- The node of the snapshot: what is there, and of a removed child what was there. -/
def snapshot : ChildChange → Node
  | .childAdded node => node
  | .childRemoved node => node
  | .childChanged node _ => node

end ChildChange

/-- `FDataEvent`. The value of a place has no child key. -/
structure DataEvent where
  eventType : EventType
  childKey : Option Text
  snapshot : Node

/-- `createEventFrom:query:` for a change of a child. -/
def DataEvent.ofChange (change : Σ _ : Text, ChildChange) : DataEvent :=
  ⟨change.2.eventType, some change.1, change.2.snapshot⟩

/-- `generateEvents:forType:changes:eventCache:eventRegistrations:` for the changes of children. -/
def generateEvents (eventType : EventType) (changes : ChildChanges) : List DataEvent :=
  (changes.filter fun change => change.2.eventType == eventType).map DataEvent.ofChange

/-- The events of the children, by their types. -/
def childEvents (changes : ChildChanges) : List DataEvent :=
  generateEvents .childRemoved changes ++ generateEvents .childAdded changes ++
    generateEvents .childChanged changes

def valueEvents (value : Option Node) : List DataEvent :=
  value.toList.map fun node => ⟨.value, none, node⟩

/-- `generateEventsForChanges:eventCache:eventRegistrations:` for one registration. -/
def generateEventsForChanges (registration : EventRegistration) (result : ViewProcessor.Result) :
    List DataEvent :=
  (childEvents result.childChanges ++ valueEvents result.value).filter
    fun event => registration.responseTo event.eventType

/-! ### What a listener has of the events -/

/-- What a listener keeps of the children. It adds a child only when it does not have it, and
removes or changes one only when it does. -/
def keep (children : List (Σ _ : Text, Node)) (event : DataEvent) :
    Option (List (Σ _ : Text, Node)) :=
  match event.childKey with
  | none => some children
  | some childKey =>
    match event.eventType with
    | .childAdded =>
      if childKey ∈ children.keys then none else some (children.kinsert childKey event.snapshot)
    | .childRemoved => if childKey ∈ children.keys then some (children.kerase childKey) else none
    | .childChanged =>
      if childKey ∈ children.keys then some (children.kinsert childKey event.snapshot) else none
    | _ => some children

/-- The children after all the events, when none is missing or told twice. -/
def replay (log : List DataEvent) : Option (List (Σ _ : Text, Node)) := log.foldlM keep []

def latest (last : Option Node) (event : DataEvent) : Option Node :=
  if event.eventType = .value then some event.snapshot else last

/-- The last value of the place. -/
def lastValue (log : List DataEvent) : Option Node := log.foldl latest none

/-- The children are those of the data. -/
structure Pictures (children : List (Σ _ : Text, Node)) (data : Text → Data Text Leaf) :
    Prop where
  distinct : children.NodupKeys
  missing : ∀ key, children.dlookup key = none → (data key).IsEmpty
  there : ∀ key node, children.dlookup key = some node →
    ¬ (data key).IsEmpty ∧ node.dataAt = data key

theorem pictures_nil {data : Text → Data Text Leaf} (nothing : ∀ key, (data key).IsEmpty) :
    Pictures [] data :=
  ⟨List.nodupKeys_nil, fun key _ => nothing key, fun _ _ found => by cases found⟩

section Keeping

variable {children : List (Σ _ : Text, Node)} {data : Text → Data Text Leaf}

theorem Pictures.mem_keys_iff (pictures : Pictures children data) (key : Text) :
    key ∈ children.keys ↔ ¬ (data key).IsEmpty := by
  rw [← List.dlookup_isSome]
  cases found : children.dlookup key with
  | none => simpa using pictures.missing key found
  | some node => simpa using (pictures.there key node found).1

theorem Pictures.insert (pictures : Pictures children data) {key : Text} {node : Node}
    {now : Data Text Leaf} (stored : ¬ now.IsEmpty) (same : node.dataAt = now) :
    Pictures (children.kinsert key node) (Function.update data key now) := by
  refine ⟨List.kinsert_nodupKeys key node pictures.distinct, fun other => ?_, fun other kept => ?_⟩
  · by_cases equal : other = key
    · subst equal
      rw [List.dlookup_kinsert]
      exact fun found => absurd found (Option.some_ne_none node)
    · rw [List.dlookup_kinsert_ne equal, Function.update_of_ne equal]
      exact pictures.missing other
  · by_cases equal : other = key
    · subst equal
      rw [List.dlookup_kinsert, Function.update_self]
      rintro ⟨⟩
      exact ⟨stored, same⟩
    · rw [List.dlookup_kinsert_ne equal, Function.update_of_ne equal]
      exact pictures.there other kept

theorem Pictures.erase (pictures : Pictures children data) {key : Text} {now : Data Text Leaf}
    (nothing : now.IsEmpty) :
    Pictures (children.kerase key) (Function.update data key now) := by
  refine ⟨pictures.distinct.kerase key, fun other => ?_, fun other kept => ?_⟩
  · by_cases equal : other = key
    · subst equal
      rw [Function.update_self]
      exact fun _ => nothing
    · rw [List.dlookup_kerase_ne equal, Function.update_of_ne equal]
      exact pictures.missing other
  · by_cases equal : other = key
    · subst equal
      rw [List.dlookup_kerase _ pictures.distinct]
      exact fun found => absurd found (Option.some_ne_none kept).symm
    · rw [List.dlookup_kerase_ne equal, Function.update_of_ne equal]
      exact pictures.there other kept

/-- A listener can make a change that reports what became of the child. -/
theorem Pictures.keep (pictures : Pictures children data) {key : Text} {change : ChildChange}
    {now : Data Text Leaf} (reports : Reports (data key) now (some change)) :
    ∃ kept, PhotoMap.keep children (.ofChange ⟨key, change⟩) = some kept ∧
      Pictures kept (Function.update data key now) := by
  have has := pictures.mem_keys_iff key
  cases change with
  | childAdded node =>
    obtain ⟨empty, stored, same⟩ := reports
    exact ⟨_, if_neg fun member => has.mp member empty, pictures.insert stored same⟩
  | childRemoved node =>
    obtain ⟨stored, empty, -⟩ := reports
    exact ⟨_, if_pos (has.mpr stored), pictures.erase empty⟩
  | childChanged node oldNode =>
    obtain ⟨stored, stays, same, -⟩ := reports
    exact ⟨_, if_pos (has.mpr stored), pictures.insert stays same⟩

/-- A listener can make changes that report, child by child, what became of all of them. -/
theorem Pictures.foldlM_keep {changes : ChildChanges} {now : Text → Data Text Leaf}
    (distinct : changes.NodupKeys) (pictures : Pictures children data)
    (reports : ∀ key, Reports (data key) (now key) (changes.dlookup key)) :
    ∃ kept, (changes.map DataEvent.ofChange).foldlM PhotoMap.keep children = some kept ∧
      Pictures kept now := by
  induction changes generalizing children data with
  | nil =>
    obtain rfl : data = now := funext reports
    exact ⟨children, rfl, pictures⟩
  | cons change rest inductionHypothesis =>
    obtain ⟨key, change⟩ := change
    obtain ⟨fresh, distinct⟩ := List.nodupKeys_cons.mp distinct
    have here := reports key
    rw [List.dlookup_cons_eq] at here
    obtain ⟨kept, made, keptPictures⟩ := pictures.keep here
    obtain ⟨last, rest, lastPictures⟩ := inductionHypothesis distinct keptPictures fun other => by
      by_cases equal : other = key
      · subst equal
        rw [Function.update_self, List.dlookup_eq_none.mpr fresh]
        exact rfl
      · rw [Function.update_of_ne equal]
        have there := reports other
        rwa [List.dlookup_cons_ne _ _ equal] at there
    refine ⟨last, ?_, lastPictures⟩
    rw [List.map_cons, List.foldlM_cons, made]
    exact rest

end Keeping

/-! ### The events of a result -/

/-- The events of the children are those of all the changes, ordered by their types. -/
theorem exists_childEvents (changes : ChildChanges) :
    ∃ ordered : ChildChanges, ordered.Perm changes ∧
      childEvents changes = ordered.map DataEvent.ofChange := by
  refine ⟨_, ?_, by rw [childEvents, generateEvents, generateEvents, generateEvents,
    ← List.map_append, ← List.map_append]⟩
  induction changes with
  | nil => exact List.Perm.refl _
  | cons change rest inductionHypothesis =>
    obtain ⟨key, change⟩ := change
    cases change with
    | childAdded node =>
      refine List.Perm.trans ?_ (inductionHypothesis.cons _)
      rw [List.append_assoc, List.append_assoc]
      exact List.perm_middle
    | childRemoved node => exact inductionHypothesis.cons _
    | childChanged node oldNode =>
      exact List.perm_middle.trans (inductionHypothesis.cons _)

theorem eventType_ne_value {changes : ChildChanges} :
    ∀ event ∈ childEvents changes, event.eventType ≠ .value := by
  obtain ⟨ordered, -, same⟩ := exists_childEvents changes
  rw [same]
  intro event member
  obtain ⟨⟨key, change⟩, -, rfl⟩ := List.mem_map.mp member
  cases change <;> exact EventType.noConfusion

theorem responseTo_childEvents {registration : EventRegistration}
    (watches : registration.WatchesChildren) {changes : ChildChanges} :
    ∀ event ∈ childEvents changes, registration.responseTo event.eventType = true := by
  obtain ⟨ordered, -, same⟩ := exists_childEvents changes
  rw [same]
  intro event member
  obtain ⟨⟨key, change⟩, -, rfl⟩ := List.mem_map.mp member
  obtain ⟨added, removed, changed⟩ := watches
  cases change with
  | childAdded node => exact added
  | childRemoved node => exact removed
  | childChanged node oldNode => exact changed

/-- A listener to the children keeps up with a result. -/
theorem Pictures.generateEvents {registration : EventRegistration}
    (watches : registration.WatchesChildren) {children : List (Σ _ : Text, Node)}
    {old : ViewCache} {result : ViewProcessor.Result}
    (pictures : Pictures children fun key => old.event.under key)
    (reported : ViewProcessor.Reported old result) :
    ∃ kept, (generateEventsForChanges registration result).foldlM PhotoMap.keep children = some kept ∧
      Pictures kept fun key => result.viewCache.event.under key := by
  obtain ⟨ordered, perm, same⟩ := exists_childEvents result.childChanges
  have distinct : ordered.NodupKeys := (List.perm_nodupKeys perm).mpr reported.distinct
  obtain ⟨kept, made, keptPictures⟩ := Pictures.foldlM_keep distinct pictures fun key => by
    rw [List.perm_dlookup key distinct perm]
    exact reported.children key
  refine ⟨kept, ?_, keptPictures⟩
  rw [generateEventsForChanges, List.filter_append,
    List.filter_eq_self.mpr (responseTo_childEvents watches), same, List.foldlM_append, made]
  show List.foldlM PhotoMap.keep kept _ = some kept
  cases result.value with
  | none => rfl
  | some node =>
    show List.foldlM PhotoMap.keep kept (List.filter _ [_]) = some kept
    rw [List.filter_singleton]
    dsimp only
    cases registration.responseTo .value <;> rfl

theorem foldl_latest_of_ne {events : List DataEvent} (last : Option Node)
    (noValue : ∀ event ∈ events, event.eventType ≠ .value) : events.foldl latest last = last := by
  refine List.foldlRecOn (motive := fun found => found = last) events latest rfl
    fun found same event member => ?_
  rw [latest, if_neg (noValue event member), same]

/-- The last value for a listener to values, after a result. -/
theorem foldl_latest_generateEvents {registration : EventRegistration}
    (responds : registration.responseTo .value = true) (result : ViewProcessor.Result)
    (last : Option Node) :
    (generateEventsForChanges registration result).foldl latest last = result.value.or last := by
  rw [generateEventsForChanges, List.filter_append, List.foldl_append,
    foldl_latest_of_ne last fun event member => eventType_ne_value event (List.mem_of_mem_filter member)]
  cases result.value with
  | none => rfl
  | some node =>
    show List.foldl latest last (List.filter _ [_]) = some node
    rw [List.filter_singleton]
    dsimp only
    rw [responds]
    rfl
/-! ### Listeners -/

/-- A registration of a place, and the events it has been told. -/
structure Listener where
  place : Path
  registration : EventRegistration
  log : List DataEvent

namespace Listener

/-- What a listener hears of what the views raise: what its place raises. -/
def hear (raised : Raised) (listener : Listener) : Listener :=
  let here := raised.filter fun told => told.1 == listener.place
  let events := here.flatMap fun told => generateEventsForChanges listener.registration told.2
  { listener with log := listener.log ++ events }

/-- What a listener has been told is what its view shows. -/
structure Heard (listener : Listener) (viewCache : ViewCache) : Prop where
  children : listener.registration.WatchesChildren → ∃ children,
    replay listener.log = some children ∧ Pictures children fun key => viewCache.event.under key
  value : listener.registration.responseTo .value = true →
    viewCache.cachedEventSnap.isFullyInitialized = true →
      ∃ node, lastValue listener.log = some node ∧ node.WellFormed ∧ node.dataAt = viewCache.event

variable {listener : Listener} {old : ViewCache} {result : ViewProcessor.Result} {raised : Raised}

theorem heard_blank (place : Path) (registration : EventRegistration) :
    Heard ⟨place, registration, []⟩ ViewProcessor.blank where
  children _ := ⟨[], rfl, pictures_nil fun key path => ViewProcessor.event_blank (key :: path)⟩
  value _ initialized := absurd initialized Bool.false_ne_true

/-- A listener that is told what its view raises has what the view shows then. -/
theorem Heard.told (heard : Heard listener old) (reported : ViewProcessor.Reported old result)
    (formed : result.viewCache.WellFormed) {log : List DataEvent}
    (logged : log = listener.log ++ generateEventsForChanges listener.registration result) :
    Heard { listener with log := log } result.viewCache := by
  subst logged
  constructor
  · intro watches
    obtain ⟨children, replayed, pictures⟩ := heard.children watches
    obtain ⟨kept, made, keptPictures⟩ := pictures.generateEvents watches reported
    refine ⟨kept, ?_, keptPictures⟩
    rw [replay, List.foldlM_append]
    rw [replay] at replayed
    rw [replayed]
    exact made
  · intro responds initialized
    have last : lastValue (listener.log ++ generateEventsForChanges listener.registration result) =
        result.value.or (lastValue listener.log) := by
      rw [lastValue, List.foldl_append, foldl_latest_generateEvents responds]
      rfl
    dsimp only at responds ⊢
    rw [last]
    cases raised : result.value with
    | none =>
      obtain ⟨oldInitialized, same⟩ := reported.unchanged raised initialized
      rw [Option.none_or, same]
      exact heard.value responds oldInitialized
    | some node =>
      have complete := reported.value node raised
      obtain ⟨-, shown⟩ := Option.ite_none_right_eq_some.mp complete
      cases shown
      exact ⟨_, rfl, formed.eventFormed, rfl⟩

/-- A listener hears nothing when its place raises nothing. -/
theorem hear_of_silent (silent : listener.place ∉ raised.map Prod.fst) :
    listener.hear raised = listener := by
  have nothing : raised.filter (fun told => told.1 == listener.place) = [] := by
    rw [List.filter_eq_nil_iff]
    intro told member same
    exact silent (List.mem_map.mpr ⟨told, member, eq_of_beq same⟩)
  rw [hear, nothing, List.flatMap_nil, List.append_nil]

/-- A listener hears the one result of its place. -/
theorem hear_of_told (distinct : (raised.map Prod.fst).Nodup) {told : Path × ViewProcessor.Result}
    (member : told ∈ raised) (here : told.1 = listener.place) :
    listener.hear raised = { listener with
      log := listener.log ++ generateEventsForChanges listener.registration told.2 } := by
  have only : raised.filter (fun told => told.1 == listener.place) = [told] := by
    induction raised with
    | nil => cases member
    | cons first rest inductionHypothesis =>
      obtain ⟨fresh, distinct⟩ := List.nodup_cons.mp distinct
      rcases List.mem_cons.mp member with rfl | later
      · have others : rest.filter (fun told => told.1 == listener.place) = [] := by
          rw [List.filter_eq_nil_iff]
          intro other otherMember same
          refine fresh (List.mem_map.mpr ⟨other, otherMember, ?_⟩)
          exact (eq_of_beq same).trans here.symm
        rw [List.filter_cons, if_pos (beq_iff_eq.mpr here), others]
      · rw [List.filter_cons_of_neg, inductionHypothesis distinct later]
        intro same
        exact fresh (List.mem_map.mpr ⟨told, later, here.trans (eq_of_beq same).symm⟩)
  rw [hear, only, List.flatMap_singleton]

end Listener

/-! ### Runs with listeners -/

/-- The client with the listeners of the program. -/
structure Audience where
  exchange : Exchange
  listeners : List Listener

namespace Audience

open SyncTree Exchange

def init : Audience := ⟨.init, []⟩

inductive Event where
  | operation (event : Exchange.Event)
  | addEventRegistration (place : Path) (registration : EventRegistration)
  | removeEventRegistration (place : Path) (handle : Nat)

/-- One step. A view is removed with its last registration. -/
def step (audience : Audience) : Event → Option Audience
  | .operation event =>
    if event.isOperation then
      (audience.exchange.applied event).map fun done =>
        ⟨done.1, audience.listeners.map (Listener.hear done.2)⟩
    else none
  | .addEventRegistration place registration =>
    (audience.exchange.applied (.addEventRegistration place)).map fun done =>
      ⟨done.1, audience.listeners ++ [Listener.hear done.2 ⟨place, registration, []⟩]⟩
  | .removeEventRegistration place handle =>
    let left := audience.listeners.filter fun listener =>
      !(listener.place == place && listener.registration.handle == handle)
    if left.any fun listener => listener.place == place then
      some { audience with listeners := left }
    else
      (audience.exchange.applied (.removeEventRegistration place)).map fun done => ⟨done.1, left⟩

/-- Listeners may come and go at any time; other events are those of the exchange. -/
def Allowed (audience : Audience) : Event → Prop
  | .operation event => audience.exchange.Allowed event
  | .addEventRegistration _ _ => True
  | .removeEventRegistration _ _ => True

/-- All the views are in sync, and every listener has been told what its view shows. -/
structure Attended (audience : Audience) : Prop where
  synced : audience.exchange.client.Synced audience.exchange.told
  keyed : audience.exchange.client.syncPointTree.Keyed
  heard : ∀ listener ∈ audience.listeners, ∃ viewCache,
    audience.exchange.client.syncPointTree.valueAtPath listener.place = some viewCache ∧
      listener.Heard viewCache

theorem attended_init : init.Attended where
  synced := synced_init
  keyed := ImmutableTree.keyed_empty
  heard _ member := absurd member List.not_mem_nil

variable {audience next : Audience} {event : Event}

/-- A listener hears what becomes of its view. -/
theorem heard_of_conveyed {before after : ImmutableTree ViewCache} {raised : Raised}
    (conveyed : Conveyed before after raised)
    (formed : ∀ view ∈ after.forEach, view.2.WellFormed) {listener : Listener} {old : ViewCache}
    (found : before.valueAtPath listener.place = some old) (heard : listener.Heard old) :
    ∃ viewCache, after.valueAtPath listener.place = some viewCache ∧
      (listener.hear raised).Heard viewCache := by
  by_cases silent : listener.place ∈ raised.map Prod.fst
  · obtain ⟨told, member, here⟩ := List.mem_map.mp silent
    obtain ⟨before, was, now, reported⟩ := conveyed.told told member
    rw [here] at was now
    obtain rfl : old = before := Option.some.inj (found.symm.trans was)
    rw [Listener.hear_of_told conveyed.distinct member here]
    have nowFormed := formed _ (ImmutableTree.mem_forEach_of_valueAtPath now)
    exact ⟨told.2.viewCache, now, heard.told reported nowFormed rfl⟩
  · rw [Listener.hear_of_silent silent]
    exact ⟨old, conveyed.kept _ old found silent, heard⟩

theorem Attended.operation {event : Exchange.Event} (attended : audience.Attended)
    (allowed : audience.exchange.Allowed event) (isOperation : event.isOperation = true)
    {done : Exchange × Raised} (applied : audience.exchange.applied event = some done) :
    Attended ⟨done.1, audience.listeners.map (Listener.hear done.2)⟩ := by
  have fits := allowed.2 done.1 (congrArg (Option.map Prod.fst) applied)
  have synced := synced_step attended.synced allowed.1 applied fits
  have conveyed := conveyed_applied attended.synced attended.keyed allowed.1 isOperation applied
  refine ⟨synced, conveyed.keyed, fun listener member => ?_⟩
  obtain ⟨before, there, rfl⟩ := List.mem_map.mp member
  obtain ⟨old, found, heard⟩ := attended.heard before there
  exact heard_of_conveyed conveyed synced.viewsFormed found heard

/-- A new listener is told all that its view shows. -/
theorem Attended.addEventRegistration (attended : audience.Attended) (place : Path)
    (registration : EventRegistration) {done : Exchange × Raised}
    (applied : audience.exchange.applied (.addEventRegistration place) = some done) :
    Attended ⟨done.1, audience.listeners ++ [Listener.hear done.2 ⟨place, registration, []⟩]⟩ := by
  obtain rfl := Option.some.inj applied
  obtain ⟨viewCache, raised, keyed, found, kept⟩ := addEventRegistration_view attended.keyed place
  have synced := attended.synced.addEventRegistration place
  refine ⟨synced, keyed, fun listener member => ?_⟩
  rcases List.mem_append.mp member with old | new
  · obtain ⟨old, was, heard⟩ := attended.heard listener old
    exact ⟨old, kept _ old was, heard⟩
  · obtain rfl := List.mem_singleton.mp new
    have formed := synced.viewsFormed _ (ImmutableTree.mem_forEach_of_valueAtPath found)
    refine ⟨viewCache, found, ?_⟩
    have distinct : ([(place, initialEvents viewCache)].map Prod.fst).Nodup :=
      List.nodup_singleton place
    dsimp only
    rw [raised, Listener.hear_of_told distinct (List.mem_singleton.mpr rfl) rfl]
    exact (Listener.heard_blank place registration).told
      (ViewProcessor.reported_initialEvents formed) formed rfl

theorem Attended.removeEventRegistration (attended : audience.Attended) {place : Path}
    {handle : Nat} (removed : audience.step (.removeEventRegistration place handle) = some next) :
    next.Attended := by
  have heardLeft : ∀ listener ∈ audience.listeners.filter (fun listener =>
      !(listener.place == place && listener.registration.handle == handle)), ∃ viewCache,
        audience.exchange.client.syncPointTree.valueAtPath listener.place = some viewCache ∧
          listener.Heard viewCache :=
    fun listener member => attended.heard listener (List.mem_of_mem_filter member)
  rw [step] at removed
  split at removed
  · obtain rfl := Option.some.inj removed
    exact ⟨attended.synced, attended.keyed, heardLeft⟩
  · rename_i noneLeft
    obtain ⟨done, applied, rfl⟩ := Option.map_eq_some_iff.mp removed
    obtain rfl := Option.some.inj applied
    obtain ⟨keyed, kept⟩ := removeEventRegistration_view attended.keyed place
    refine ⟨attended.synced.removeEventRegistration place, keyed, fun listener member => ?_⟩
    obtain ⟨viewCache, found, heard⟩ := heardLeft listener member
    refine ⟨viewCache, (kept _ fun same => ?_).trans found, heard⟩
    exact noneLeft (List.any_eq_true.mpr ⟨listener, member, beq_iff_eq.mpr same⟩)

/-- One allowed step keeps all the listeners up to date. -/
theorem Attended.step (attended : audience.Attended) (allowed : audience.Allowed event)
    (stepped : audience.step event = some next) : next.Attended := by
  cases event with
  | operation event =>
    rw [Audience.step, Option.ite_none_right_eq_some] at stepped
    obtain ⟨isOperation, stepped⟩ := stepped
    obtain ⟨done, applied, rfl⟩ := Option.map_eq_some_iff.mp stepped
    exact attended.operation allowed isOperation applied
  | addEventRegistration place registration =>
    rw [Audience.step, Option.map_eq_some_iff] at stepped
    obtain ⟨done, applied, rfl⟩ := stepped
    exact attended.addEventRegistration place registration applied
  | removeEventRegistration place handle => exact attended.removeEventRegistration stepped

theorem attended_of_run {events : List Event} (along : Along step Allowed init events)
    (reached : run step init events = some audience) : audience.Attended :=
  run_invariant_along Attended attended_init
    (fun _ _ _ attended allowed stepped => attended.step allowed stepped) along reached

/-- The program listens to the photo of the lake and to its children, is told of the photo, names
it, and the server rejects the name. -/
def lakeEvents : List Event :=
  [.addEventRegistration [text "lake"] (.value 1),
    .addEventRegistration [text "lake"] (.child 2 [.childAdded, .childRemoved, .childChanged]),
    .operation (.serverOverwrite [] WriteTree.lakeServer),
    .operation (.setValue [text "lake", text "name"] (.leaf (.string (text "Lake"))) 0),
    .operation (.acknowledge 0 true)]

theorem along_lakeEvents : Along step Allowed init lakeEvents := by
  have noWrites {property : Path × Node → Prop} : ∀ write ∈ [], property write :=
    fun _ member => absurd member List.not_mem_nil
  have server := WriteTree.fits_lakeTree.wellFormed
  refine along_cons_of_eq trivial rfl (along_cons_of_eq trivial rfl ?_)
  refine along_cons_of_eq (allowed_of_eq server rfl (WriteTree.fits_of_stored server noWrites))
    rfl ?_
  refine along_cons_of_eq (allowed_of_eq ⟨by decide, .leaf _⟩ rfl
    (WriteTree.fits_of_stored server (List.forall_mem_singleton.mpr rfl))) rfl ?_
  refine along_cons_of_eq (allowed_of_eq ⟨?_, _, [], rfl, rfl, nofun⟩ rfl
    (WriteTree.fits_of_stored server noWrites)) rfl trivial
  exact WriteTree.removable_of_first rfl rfl fun _ member => absurd member List.not_mem_nil

/-- Along a run, the last value a listener was told is the server's data of its place after the
pending writes, when its view has the server's data or a pending write decides the place. -/
theorem lastValue_current {events : List Event} (along : Along step Allowed init events)
    (reached : run step init events = some audience) {listener : Listener}
    (member : listener ∈ audience.listeners)
    (responds : listener.registration.responseTo .value = true) {viewCache : ViewCache}
    (found : audience.exchange.client.syncPointTree.valueAtPath listener.place = some viewCache)
    (known : ViewProcessor.IsKnown ⟨listener.place, audience.exchange.client.pendingWriteTree⟩
      viewCache) :
    ∃ node, lastValue listener.log = some node ∧ node.isEqual
      ((audience.exchange.client.pendingWriteTree.withPending audience.exchange.told).getChild
        listener.place) = true := by
  have attended := attended_of_run along reached
  obtain ⟨old, was, heard⟩ := attended.heard listener member
  obtain rfl : viewCache = old := Option.some.inj (found.symm.trans was)
  obtain ⟨shown, complete, -, same⟩ := shows_of_synced attended.synced found known
  obtain ⟨initialized, here⟩ := Option.ite_none_right_eq_some.mp complete
  cases here
  obtain ⟨node, last, formed, told⟩ := heard.value responds initialized
  refine ⟨node, last, ?_⟩
  rw [formed.isEqual_iff ((wellFormed_withPending attended.synced).getChild listener.place),
    Node.dataAt_getChild, told]
  exact same

theorem lastValue_current_lake : ∃ audience listener,
    run step init lakeEvents = some audience ∧ listener ∈ audience.listeners ∧
      ∃ node, lastValue listener.log = some node ∧ node.isEqual
        ((audience.exchange.client.pendingWriteTree.withPending audience.exchange.told).getChild
          listener.place) = true :=
  ⟨_, _, rfl, List.mem_cons_self,
    lastValue_current along_lakeEvents rfl List.mem_cons_self rfl rfl (Or.inl rfl)⟩

/-- Along a run, a listener to the children never meets a change it cannot make, and has the
children of the server's data of its place after the pending writes, when its view has the
server's data or a pending write decides the place. -/
theorem replay_current {events : List Event} (along : Along step Allowed init events)
    (reached : run step init events = some audience) {listener : Listener}
    (member : listener ∈ audience.listeners)
    (watches : listener.registration.WatchesChildren) :
    ∃ children, replay listener.log = some children ∧ children.NodupKeys ∧ ∀ viewCache,
      audience.exchange.client.syncPointTree.valueAtPath listener.place = some viewCache →
        ViewProcessor.IsKnown ⟨listener.place, audience.exchange.client.pendingWriteTree⟩
          viewCache →
        ∀ key, (key ∈ children.keys ↔
            ((audience.exchange.client.pendingWriteTree.withPending audience.exchange.told).getChild
              listener.place).hasChild key = true) ∧
          ∀ node, children.dlookup key = some node → node.dataAt =
            (((audience.exchange.client.pendingWriteTree.withPending
              audience.exchange.told).getChild listener.place).getImmediateChild key).dataAt := by
  have attended := attended_of_run along reached
  obtain ⟨old, was, heard⟩ := attended.heard listener member
  obtain ⟨children, replayed, pictures⟩ := heard.children watches
  refine ⟨children, replayed, pictures.distinct, fun viewCache found known key => ?_⟩
  obtain rfl : viewCache = old := Option.some.inj (found.symm.trans was)
  obtain ⟨shown, complete, -, same⟩ := shows_of_synced attended.synced found known
  obtain ⟨-, here⟩ := Option.ite_none_right_eq_some.mp complete
  cases here
  have formed := (wellFormed_withPending attended.synced).getChild listener.place
  have current : viewCache.event.under key =
      (((audience.exchange.client.pendingWriteTree.withPending
        audience.exchange.told).getChild listener.place).getImmediateChild key).dataAt := by
    rw [← IndexedFilter.under_dataAt, Node.dataAt_getChild]
    exact congrArg (fun data => Data.under data key) same
  refine ⟨?_, fun node kept => (pictures.there key node kept).2.trans current⟩
  rw [pictures.mem_keys_iff, IndexedFilter.hasChild_iff formed, IndexedFilter.under_dataAt, current]

theorem replay_current_lake : ∃ audience listener children,
    run step init lakeEvents = some audience ∧ listener ∈ audience.listeners ∧
      replay listener.log = some children ∧
        ∀ key, key ∈ children.keys ↔ ((audience.exchange.client.pendingWriteTree.withPending
          audience.exchange.told).getChild listener.place).hasChild key = true := by
  obtain ⟨children, replayed, -, current⟩ := replay_current along_lakeEvents rfl
    (List.mem_cons_of_mem _ List.mem_cons_self) ⟨rfl, rfl, rfl⟩
  exact ⟨_, _, children, rfl, List.mem_cons_of_mem _ List.mem_cons_self, replayed,
    fun key => (current _ rfl (Or.inl rfl) key).1⟩

end Audience

end PhotoMap
