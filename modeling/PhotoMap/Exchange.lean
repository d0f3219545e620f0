/-
This file runs the client: the program writes, listens and stops listening, and
the server acknowledges the writes, rejects them and tells of its data. Along any
run all the views are in sync: what a view shows is what the server has told of
its place after the writes that are still pending. So no view ever misses an
update, shows a write twice or keeps one that was rejected, however the messages
of the server and the writes of the program are interleaved.
-/

import PhotoMap.Reporting
import PhotoMap.Views

namespace PhotoMap

open Overlay Transition

/-! ### Runs -/

/-- The client, and what the server has told it of its data. -/
structure Exchange where
  told : Node
  client : SyncTree

namespace Exchange

open SyncTree

def init : Exchange where
  told := .emptyNode
  client := .init

/-- What the program and the server do to the client. -/
inductive Event where
  | setValue (path : Path) (newData : Node) (writeId : Int)
  | updateChildren (path : Path) (changedChildren : CompoundWrite) (writeId : Int)
  | acknowledge (writeId : Int) (revert : Bool)
  | removeAllWrites
  | serverOverwrite (path : Path) (newData : Node)
  | serverMerge (path : Path) (changedChildren : CompoundWrite)
  | listenComplete (path : Path)
  | addEventRegistration (path : Path)
  | removeEventRegistration (path : Path)

/-- The client after a step that may throw, and what its views raise. -/
def withClient (exchange : Exchange) (done : Option (SyncTree × Raised)) :
    Option (Exchange × Raised) :=
  done.map fun done => ({ exchange with client := done.1 }, done.2)

/-- One step, with what the views raise. The assertion that identifiers grow does not let an older
write in. -/
def applied (exchange : Exchange) : Event → Option (Exchange × Raised)
  | .setValue path newData writeId =>
    if exchange.client.pendingWriteTree.lastWriteId < writeId then
      exchange.withClient (exchange.client.applyUserOverwrite path newData writeId true)
    else none
  | .updateChildren path changedChildren writeId =>
    if exchange.client.pendingWriteTree.lastWriteId < writeId then
      exchange.withClient (exchange.client.applyUserMerge path changedChildren writeId)
    else none
  | .acknowledge writeId revert =>
    exchange.withClient (exchange.client.ackUserWrite writeId revert)
  | .removeAllWrites => exchange.withClient exchange.client.removeAllWrites
  | .serverOverwrite path newData =>
    let told := tell exchange.told (Operation.overwrite false path newData).writes
    { exchange with told := told }.withClient (exchange.client.applyServerOverwrite path newData)
  | .serverMerge path changedChildren =>
    let told := tell exchange.told (Operation.merge false path changedChildren).writes
    { exchange with told := told }.withClient
      (exchange.client.applyServerMerge path changedChildren)
  | .listenComplete path => exchange.withClient (exchange.client.applyListenComplete path)
  | .addEventRegistration path =>
    exchange.withClient (some (exchange.client.addEventRegistration path))
  | .removeEventRegistration path =>
    exchange.withClient (some (exchange.client.removeEventRegistration path, []))

def step (exchange : Exchange) (event : Event) : Option Exchange :=
  (exchange.applied event).map Prod.fst

/-- What the program and the server keep to. Nodes are as the client builds them, writes end in
their order and where the removal is safe, the server has a write it acknowledges, a merge of the
server does not write its own place, and a listen completes when the data has been sent. -/
def Sound (exchange : Exchange) : Event → Prop
  | .setValue _ newData writeId =>
    exchange.client.pendingWriteTree.lastWriteId < writeId ∧ newData.WellFormed
  | .updateChildren _ changedChildren writeId =>
    exchange.client.pendingWriteTree.lastWriteId < writeId ∧ changedChildren.WellFormed
  | .acknowledge writeId revert =>
    exchange.client.pendingWriteTree.Removable writeId ∧ ∃ record records,
      exchange.client.pendingWriteTree.allWrites = record :: records ∧
        record.writeId = writeId ∧
          (revert = false → ViewProcessor.NoLeafAbove record.writes exchange.told.dataAt)
  | .removeAllWrites => True
  | .serverOverwrite _ newData => newData.WellFormed
  | .serverMerge _ changedChildren =>
    changedChildren.WellFormed ∧ changedChildren.rootWrite = none
  | .listenComplete path => ∀ view ∈ exchange.client.syncPointTree.forEach, path <+: view.1 →
    view.2.server = Data.below exchange.told.dataAt view.1
  | .addEventRegistration _ => True
  | .removeEventRegistration _ => True

/-- A sound event after which the pending writes still fit the server's data. -/
def Allowed (exchange : Exchange) (event : Event) : Prop :=
  exchange.Sound event ∧ ∀ next, exchange.step event = some next →
    next.client.pendingWriteTree.Fits next.told

variable {exchange next : Exchange} {event : Event} {raised : Raised}

theorem synced_init : init.client.Synced init.told where
  tracks := WriteTree.tracks_init
  fits := ⟨Node.wellFormed_emptyNode, fun _ member => absurd member List.not_mem_nil⟩
  views := fun _ member => absurd member List.not_mem_nil

theorem withClient_eq_some {done : Option (SyncTree × Raised)} :
    exchange.withClient done = some (next, raised) ↔
      next.told = exchange.told ∧ done = some (next.client, raised) := by
  obtain ⟨told, client⟩ := next
  simp only [withClient, Option.map_eq_some_iff, Prod.mk.injEq, Exchange.mk.injEq]
  constructor
  · rintro ⟨⟨reached, events⟩, rfl, ⟨rfl, rfl⟩, rfl⟩
    exact ⟨rfl, rfl⟩
  · rintro ⟨rfl, rfl⟩
    exact ⟨_, rfl, ⟨rfl, rfl⟩, rfl⟩

/-- One step keeps all the views in sync. -/
theorem synced_step (synced : exchange.client.Synced exchange.told) (sound : exchange.Sound event)
    (done : exchange.applied event = some (next, raised))
    (fits : next.client.pendingWriteTree.Fits next.told) : next.client.Synced next.told := by
  cases event with
  | setValue path newData writeId =>
    rw [applied, if_pos sound.1, withClient_eq_some] at done
    rw [done.1] at fits ⊢
    exact synced.applyUserOverwrite sound.2 done.2 fits
  | updateChildren path changedChildren writeId =>
    rw [applied, if_pos sound.1, withClient_eq_some] at done
    rw [done.1] at fits ⊢
    exact synced.applyUserMerge sound.2 done.2 fits
  | acknowledge writeId revert =>
    rw [applied, withClient_eq_some] at done
    rw [done.1] at fits ⊢
    obtain ⟨removable, record, records, first, identified, noLeaf⟩ := sound
    exact synced.ackUserWrite first identified removable noLeaf done.2 fits
  | removeAllWrites =>
    rw [applied, withClient_eq_some] at done
    rw [done.1] at fits ⊢
    exact synced.removeAllWrites done.2 fits
  | serverOverwrite path newData =>
    rw [applied, withClient_eq_some] at done
    rw [done.1] at fits ⊢
    exact synced.serverWrite sound rfl done.2 fits
  | serverMerge path changedChildren =>
    rw [applied, withClient_eq_some] at done
    rw [done.1] at fits ⊢
    exact synced.serverWrite sound.1 ⟨rfl, fun _ => sound.2⟩ done.2 fits
  | listenComplete path =>
    rw [applied, withClient_eq_some] at done
    rw [done.1] at fits ⊢
    exact synced.listenComplete sound done.2 fits
  | addEventRegistration path =>
    rw [applied, withClient_eq_some, Option.some_inj] at done
    obtain ⟨told, same⟩ := done
    have added := synced.addEventRegistration path
    rw [same] at added
    exact told ▸ added
  | removeEventRegistration path =>
    rw [applied, withClient_eq_some, Option.some_inj] at done
    obtain ⟨told, same⟩ := done
    rw [told, ← (Prod.mk.inj same).1]
    exact synced.removeEventRegistration path

/-- Along a run all the views are in sync. -/
theorem synced_of_run {events : List Event} (along : Along step Allowed init events)
    (reached : run step init events = some exchange) : exchange.client.Synced exchange.told := by
  refine run_invariant_along (fun exchange => exchange.client.Synced exchange.told) synced_init
    (fun exchange event next synced allowed stepped => ?_) along reached
  obtain ⟨⟨reached, raised⟩, done, rfl⟩ := Option.map_eq_some_iff.mp stepped
  exact synced_step synced allowed.1 done (allowed.2 _ stepped)

/-! ### What the views show -/

/-- What is to be shown at a place, as a node. -/
theorem dataAt_withPending (synced : exchange.client.Synced exchange.told) (place : Path) :
    ((exchange.client.pendingWriteTree.withPending exchange.told).getChild place).dataAt =
      (⟨place, exchange.client.pendingWriteTree⟩ : WriteTreeRef).shown
        (Data.below exchange.told.dataAt place) := by
  rw [Node.dataAt_getChild, WriteTree.withPending, WriteTree.withRecords,
    synced.fits.wellFormed.dataAt_foldl_updateChild
      (WriteTree.wellFormed_pendingWrites synced.tracks.formed)]
  exact (seenFrom_seenWrites place _).afterAll_below exchange.told.dataAt

/-- A view that knows what to show shows what the server has told after the pending writes. -/
theorem shows_of_synced (synced : exchange.client.Synced exchange.told) {place : Path}
    {viewCache : ViewCache}
    (found : exchange.client.syncPointTree.valueAtPath place = some viewCache)
    (known : ViewProcessor.IsKnown ⟨place, exchange.client.pendingWriteTree⟩ viewCache) :
    ∃ shown, viewCache.completeEventSnap = some shown ∧ shown.WellFormed ∧
      shown.dataAt = Data.below
        (exchange.client.pendingWriteTree.withPending exchange.told).dataAt place := by
  have inSync := synced.views (place, viewCache) (ImmutableTree.mem_forEach_of_valueAtPath found)
  obtain ⟨initialized, event⟩ := inSync.event known
  refine ⟨_, if_pos initialized, inSync.wellFormed.eventFormed, event.trans ?_⟩
  exact (dataAt_withPending synced place).symm.trans (Node.dataAt_getChild _ place)

theorem wellFormed_withPending (synced : exchange.client.Synced exchange.told) :
    (exchange.client.pendingWriteTree.withPending exchange.told).WellFormed :=
  WriteTree.wellFormed_withRecords synced.fits.wellFormed synced.tracks.formed

/-- Along a run, a view that has the server's data of its place, or all of whose place a pending
write decides, shows what the server has told after all the pending writes. -/
theorem views_show {events : List Event} (along : Along step Allowed init events)
    (reached : run step init events = some exchange) {place : Path} {viewCache : ViewCache}
    (found : exchange.client.syncPointTree.valueAtPath place = some viewCache)
    (known : ViewProcessor.IsKnown ⟨place, exchange.client.pendingWriteTree⟩ viewCache) :
    ∃ shown, viewCache.completeEventSnap = some shown ∧ shown.isEqual
      ((exchange.client.pendingWriteTree.withPending exchange.told).getChild place) = true := by
  have synced := synced_of_run along reached
  obtain ⟨shown, complete, formed, same⟩ := shows_of_synced synced found known
  refine ⟨shown, complete, ?_⟩
  rw [formed.isEqual_iff ((wellFormed_withPending synced).getChild place), Node.dataAt_getChild]
  exact same

theorem allowed_of_eq (sound : exchange.Sound event) (stepped : exchange.step event = some next)
    (fits : next.client.pendingWriteTree.Fits next.told) : exchange.Allowed event := by
  refine ⟨sound, fun reached arrived => ?_⟩
  obtain rfl : next = reached := Option.some.inj (stepped.symm.trans arrived)
  exact fits

/-- The program listens to the photo of the lake and to its name, is told of the photo, and names
it. -/
def lakeEvents : List Event :=
  [.addEventRegistration [text "lake"], .addEventRegistration [text "lake", text "name"],
    .serverOverwrite [] WriteTree.lakeServer,
    .setValue [text "lake", text "name"] (.leaf (.string (text "Lake"))) 0]

theorem along_lakeEvents : Along step Allowed init lakeEvents := by
  have noWrites {property : Path × Node → Prop} : ∀ write ∈ [], property write :=
    fun _ member => absurd member List.not_mem_nil
  have before := Node.wellFormed_emptyNode
  have after := WriteTree.fits_lakeTree.wellFormed
  refine along_cons_of_eq (allowed_of_eq trivial rfl (WriteTree.fits_of_stored before noWrites))
    rfl ?_
  refine along_cons_of_eq (allowed_of_eq trivial rfl (WriteTree.fits_of_stored before noWrites))
    rfl ?_
  refine along_cons_of_eq (allowed_of_eq after rfl (WriteTree.fits_of_stored after noWrites))
    rfl ?_
  refine along_cons_of_eq (allowed_of_eq ⟨by decide, .leaf _⟩ rfl
    (WriteTree.fits_of_stored after ?_)) rfl trivial
  exact List.forall_mem_singleton.mpr rfl

theorem views_show_lake : ∃ exchange viewCache, run step init lakeEvents = some exchange ∧
    exchange.client.syncPointTree.valueAtPath [text "lake"] = some viewCache ∧
    ∃ shown, viewCache.completeEventSnap = some shown ∧ shown.isEqual
      ((exchange.client.pendingWriteTree.withPending exchange.told).getChild [text "lake"]) = true :=
  ⟨_, _, rfl, rfl, views_show along_lakeEvents rfl rfl (Or.inl rfl)⟩

/-- Along a run, what a view shows of a place below it is what a view of that place shows. -/
theorem overlapping_views_agree {events : List Event} (along : Along step Allowed init events)
    (reached : run step init events = some exchange) {place rest : Path} {outer inner : ViewCache}
    (outerFound : exchange.client.syncPointTree.valueAtPath place = some outer)
    (innerFound : exchange.client.syncPointTree.valueAtPath (place ++ rest) = some inner)
    (outerKnown : ViewProcessor.IsKnown ⟨place, exchange.client.pendingWriteTree⟩ outer)
    (innerKnown :
      ViewProcessor.IsKnown ⟨place ++ rest, exchange.client.pendingWriteTree⟩ inner) :
    ∃ outerShown innerShown, outer.completeEventSnap = some outerShown ∧
      inner.completeEventSnap = some innerShown ∧
        (outerShown.getChild rest).isEqual innerShown = true := by
  have synced := synced_of_run along reached
  obtain ⟨outerShown, outerComplete, outerFormed, outerSame⟩ :=
    shows_of_synced synced outerFound outerKnown
  obtain ⟨innerShown, innerComplete, innerFormed, innerSame⟩ :=
    shows_of_synced synced innerFound innerKnown
  refine ⟨outerShown, innerShown, outerComplete, innerComplete, ?_⟩
  rw [(outerFormed.getChild rest).isEqual_iff innerFormed, Node.dataAt_getChild, outerSame,
    innerSame]
  exact funext fun other => congrArg _ (List.append_assoc place rest other).symm

theorem overlapping_views_agree_lake : ∃ exchange outer inner,
    run step init lakeEvents = some exchange ∧
    exchange.client.syncPointTree.valueAtPath [text "lake"] = some outer ∧
    exchange.client.syncPointTree.valueAtPath [text "lake", text "name"] = some inner ∧
    ∃ outerShown innerShown, outer.completeEventSnap = some outerShown ∧
      inner.completeEventSnap = some innerShown ∧
        (outerShown.getChild [text "name"]).isEqual innerShown = true := by
  refine ⟨_, _, _, rfl, rfl, rfl, ?_⟩
  exact @overlapping_views_agree _ _ along_lakeEvents rfl [text "lake"] [text "name"] _ _ rfl rfl
    (Or.inl rfl) (Or.inl rfl)

/-! ### No step fails -/

/-- An event does not fail when what it does to the client does not. -/
theorem exists_withClient {done : Option (SyncTree × Raised)} (some : ∃ found, done = some found) :
    ∃ applied, exchange.withClient done = .some applied := by
  obtain ⟨found, rfl⟩ := some
  exact ⟨_, rfl⟩

theorem exists_applied_event (synced : exchange.client.Synced exchange.told)
    (sound : exchange.Sound event) : ∃ applied, exchange.applied event = some applied := by
  have passes {tree : SyncTree} {operation : Operation}
      (tracks : tree.pendingWriteTree.Tracks)
      (sameViews : tree.syncPointTree = exchange.client.syncPointTree)
      (operationFormed : operation.WellFormed) :
      ∃ found, tree.applyOperationToSyncPoints operation = some found := by
    obtain ⟨next, raised, done, -⟩ := exists_applied tracks.wellFormed
      (sameViews ▸ synced.viewsFormed) operationFormed
    exact ⟨_, done⟩
  cases event with
  | setValue path newData writeId =>
    rw [applied, if_pos sound.1]
    exact exists_withClient (passes (synced.tracks.addOverwrite sound.2 path writeId) rfl sound.2)
  | updateChildren path changedChildren writeId =>
    rw [applied, if_pos sound.1]
    exact exists_withClient (passes (synced.tracks.addMerge sound.2 path writeId) rfl sound.2)
  | acknowledge writeId revert =>
    obtain ⟨removable, record, records, first, identified, -⟩ := sound
    exact exists_withClient (synced.exists_ackUserWrite first identified removable revert)
  | removeAllWrites =>
    refine exists_withClient ?_
    rw [SyncTree.removeAllWrites]
    split
    · exact ⟨_, rfl⟩
    · exact passes synced.tracks.removeAllWrites rfl trivial
  | serverOverwrite path newData => exact exists_withClient (passes synced.tracks rfl sound)
  | serverMerge path changedChildren => exact exists_withClient (passes synced.tracks rfl sound.1)
  | listenComplete path => exact exists_withClient (passes synced.tracks rfl trivial)
  | addEventRegistration path => exact exists_withClient ⟨_, rfl⟩
  | removeEventRegistration path => exact exists_withClient ⟨_, rfl⟩

/-- No event the program and the server may send fails, after any run. -/
theorem exists_next {events : List Event} (along : Along step Allowed init events)
    (reached : run step init events = some exchange) (sound : exchange.Sound event) :
    ∃ next, exchange.step event = some next := by
  obtain ⟨applied, done⟩ := exists_applied_event (synced_of_run along reached) sound
  exact ⟨_, congrArg (Option.map Prod.fst) done⟩

/-- The server rejects the name. -/
theorem exists_next_lake : ∃ exchange, run step init lakeEvents = some exchange ∧
    ∃ next, exchange.step (.acknowledge 0 true) = some next := by
  refine ⟨_, rfl, exists_next along_lakeEvents rfl ⟨?_, _, [], rfl, rfl, nofun⟩⟩
  exact WriteTree.removable_of_first rfl rfl fun _ member => absurd member List.not_mem_nil

end Exchange

end PhotoMap
