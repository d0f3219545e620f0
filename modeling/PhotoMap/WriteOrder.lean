/-
This file is about the order in which the connection answers the writes of the
program. A write waits for its answer in flight, is held back behind a listen
that is not answered, and is sent again when its connection is lost. When the
server answers the requests in their order and no transaction runs, the blocks of
the writes are called in the order of the writes, as the model of the sync tree
takes its acknowledgements. One thing breaks the order: a write held back when
the connection is lost, and no listen to wait for on the next one.
-/

import PhotoMap.Connection

namespace PhotoMap

open Transition

namespace PersistentConnection

variable {Params Data Token : Type} [DecidableEq Params]
  {connection : PersistentConnection Params Data Token}

/-! ### What waits for an answer -/

def blocks (connection : PersistentConnection Params Data Token) : List (ResponseBlock Params) :=
  connection.requestCBHash.map Prod.snd

/-- The writes among the blocks. -/
def put? : ResponseBlock Params → Option ℕ
  | .put index => some index
  | _ => none

/-- When the state is sent again, the writes held back wait for a listen. -/
def Settled (connection : PersistentConnection Params Data Token) : Prop :=
  connection.putsToAck = [] ∨ connection.listens ≠ []

/-- The server answers in the order of the requests, no transaction runs, and no write is held
back without a listen when the state is sent again. -/
def Regular (connection : PersistentConnection Params Data Token) :
    Event Params Data Token → Prop
  | .onReady => connection.authToken = none → connection.Settled
  | .onDataMessage requestNumber _ _ =>
    (∀ block, connection.requestCBHash.find? (fun request => request.1 = requestNumber) =
      some (requestNumber, block) →
        connection.requestCBHash.head? = some (requestNumber, block)) ∧
      (connection.connectionState = .authenticating → connection.Settled)
  | .putData _ _ hash => hash = none
  | _ => True

/-- What waits for an answer. The writes that were sent wait in their order; while the connection
authenticates, the state is sent again at the end of it. -/
def Phase (connection : PersistentConnection Params Data Token) : Prop :=
  match connection.connectionState with
  | .connected =>
    (connection.blocks.filterMap put?).filter (· ∈ connection.outstandingPuts.map Prod.fst) =
      connection.outstandingPuts.map Prod.fst ∧
    .auth true ∉ connection.blocks ∧
    (connection.unackedListensCount = 0 → connection.putsToAck = [])
  | .authenticating => ∃ stats rest, connection.blocks = stats ++ .auth true :: rest ∧
    (∀ block ∈ stats, block = .stats) ∧ rest.filterMap put? = [] ∧ .auth true ∉ rest
  | _ => connection.blocks = []

/-- The writes are at their places in their order. -/
structure Ordered (connection : PersistentConnection Params Data Token) : Prop where
  order : connection.issued = List.range connection.putCounter
  plain : ∀ entry ∈ connection.outstandingPuts, entry.2.hash = none
  made : ∀ index ∈ connection.blocks.filterMap put?, index < connection.putCounter
  phase : connection.Phase

/-! ### Requests that are sent -/

/-- Requests were sent, and nothing else changed but which writes were sent. -/
structure Requested (connection next : PersistentConnection Params Data Token)
    (added : List (ResponseBlock Params)) : Prop where
  state : next.connectionState = connection.connectionState
  keys : next.outstandingPuts.map Prod.fst = connection.outstandingPuts.map Prod.fst
  plain : (∀ entry ∈ connection.outstandingPuts, entry.2.hash = none) →
    ∀ entry ∈ next.outstandingPuts, entry.2.hash = none
  completed : next.completed = connection.completed
  putsToAck : next.putsToAck = connection.putsToAck
  putCounter : next.putCounter = connection.putCounter
  unacked : next.unackedListensCount = connection.unackedListensCount + added.countP isListen
  blocks : next.blocks = connection.blocks ++ added

section Order

omit [DecidableEq Params]

variable {next : PersistentConnection Params Data Token} {added : List (ResponseBlock Params)}

theorem requested_refl (connection : PersistentConnection Params Data Token) :
    Requested connection connection [] :=
  ⟨rfl, rfl, id, rfl, rfl, rfl, rfl, (List.append_nil _).symm⟩

theorem Requested.trans {last : PersistentConnection Params Data Token}
    {more : List (ResponseBlock Params)} (first : Requested connection next added)
    (second : Requested next last more) : Requested connection last (added ++ more) where
  state := second.state.trans first.state
  keys := second.keys.trans first.keys
  plain := fun plain => second.plain (first.plain plain)
  completed := second.completed.trans first.completed
  putsToAck := second.putsToAck.trans first.putsToAck
  putCounter := second.putCounter.trans first.putCounter
  unacked := by rw [second.unacked, first.unacked, List.countP_append, Nat.add_assoc]
  blocks := by rw [second.blocks, first.blocks, List.append_assoc]

theorem requested_sendAction {block : ResponseBlock Params} (other : isListen block = false) :
    Requested connection (connection.sendAction (some block)) [block] :=
  ⟨rfl, rfl, id, rfl, rfl, rfl, by rw [List.countP_singleton, other]; rfl, List.map_append⟩

theorem requested_sendListen (listenSpec : OutstandingQuery Params) :
    Requested connection (connection.sendListen listenSpec) [.listen listenSpec] :=
  ⟨rfl, rfl, id, rfl, rfl, rfl, rfl, List.map_append⟩

theorem requested_sendListens (listens : List (OutstandingQuery Params)) :
    Requested connection (listens.foldl sendListen connection) (listens.map .listen) := by
  induction listens generalizing connection with
  | nil => exact requested_refl connection
  | cons listenSpec rest inductionHypothesis =>
    exact (requested_sendListen listenSpec).trans inductionHypothesis

theorem requested_sendPut {index : ℕ} (done : connection.sendPut index = some next) :
    Requested connection next [.put index] := by
  rw [sendPut] at done
  split at done
  · obtain rfl := Option.some.inj done
    refine ⟨rfl, keys_markSent index _, fun plain entry member => ?_, rfl, rfl, rfl, rfl,
      List.map_append⟩
    obtain ⟨unmarked, there, rfl⟩ := List.mem_map.mp member
    rw [markSent]
    split
    · exact plain unmarked there
    · exact plain unmarked there
  · cases done

theorem requested_sendPuts {indices : List ℕ}
    (done : indices.foldlM sendPut connection = some next) :
    Requested connection next (indices.map .put) := by
  induction indices generalizing connection with
  | nil =>
    obtain rfl := Option.some.inj done
    exact requested_refl connection
  | cons index rest inductionHypothesis =>
    rw [List.foldlM_cons, Option.bind_eq_bind, Option.bind_eq_some_iff] at done
    obtain ⟨middle, sent, restSent⟩ := done
    exact (requested_sendPut sent).trans (inductionHypothesis restSent)

theorem requested_restoreState (done : connection.restoreState = some next) :
    Requested connection next (connection.listens.map .listen ++
      (connection.outstandingPuts.map Prod.fst).map .put) := by
  rw [restoreState] at done
  split at done
  · have listening := @requested_sendListens _ _ _ connection connection.listens
    refine listening.trans ?_
    rw [← listening.keys]
    exact requested_sendPuts done
  · cases done

theorem filterMap_put (indices : List ℕ) :
    (indices.map (ResponseBlock.put : ℕ → ResponseBlock Params)).filterMap put? = indices := by
  rw [List.filterMap_map]
  exact List.filterMap_some

theorem filterMap_listen (listens : List (OutstandingQuery Params)) :
    (listens.map ResponseBlock.listen).filterMap put? = [] := by
  rw [List.filterMap_map]
  exact List.filterMap_eq_nil_iff.mpr fun _ _ => rfl

/-- Sending the state again puts the writes in flight in their order. -/
theorem ordered_restoreState (order : connection.issued = List.range connection.putCounter)
    (plain : ∀ entry ∈ connection.outstandingPuts, entry.2.hash = none)
    (state : connection.connectionState = .connected)
    (noWrites : connection.blocks.filterMap put? = []) (restored : .auth true ∉ connection.blocks)
    (settled : connection.Settled) (done : connection.restoreState = some next) :
    next.Ordered := by
  have requested := requested_restoreState done
  have inFlight : next.blocks.filterMap put? = next.outstandingPuts.map Prod.fst := by
    rw [requested.blocks, List.filterMap_append, List.filterMap_append, noWrites, filterMap_put,
      filterMap_listen, requested.keys]
    rfl
  have nextOrder : next.issued = List.range next.putCounter := by
    rw [issued, requested.completed, requested.putsToAck, requested.keys, requested.putCounter]
    exact order
  refine ⟨nextOrder, requested.plain plain, fun index member => ?_, ?_⟩
  · rw [inFlight] at member
    exact List.mem_range.mp (nextOrder ▸ List.mem_append_right _ member)
  · rw [Phase, requested.state.trans state]
    refine ⟨?_, ?_, fun none => ?_⟩
    · rw [inFlight]
      exact List.filter_eq_self.mpr fun index member => decide_eq_true member
    · rw [requested.blocks]
      simp [restored]
    · rw [requested.putsToAck]
      refine settled.resolve_right fun listens => ?_
      rw [requested.unacked, List.countP_append] at none
      have heard : (connection.listens.map ResponseBlock.listen).countP isListen =
          connection.listens.length := by
        rw [List.countP_map]
        exact List.countP_eq_length.mpr fun _ _ => rfl
      have length := List.length_pos_of_ne_nil listens
      omega

/-! ### What keeps the order -/

theorem ordered_onDisconnect (order : connection.issued = List.range connection.putCounter)
    (plain : ∀ entry ∈ connection.outstandingPuts, entry.2.hash = none) :
    connection.onDisconnect.Ordered := by
  let isCancelled := fun entry : ℕ × OutstandingPut Data => entry.2.hash.isSome && entry.2.sent
  have cancelled : connection.outstandingPuts.filter isCancelled = [] := by
    refine List.filter_eq_nil_iff.mpr fun entry member => ?_
    simp [isCancelled, plain entry member]
  have kept : (connection.outstandingPuts.filter fun entry => !isCancelled entry) =
      connection.outstandingPuts := by
    refine List.filter_eq_self.mpr fun entry member => ?_
    simp [isCancelled, plain entry member]
  refine ⟨?_, fun entry member => plain entry (List.mem_of_mem_filter member),
    fun index member => absurd member List.not_mem_nil, rfl⟩
  show List.map Completion.index (connection.completed ++
    (connection.outstandingPuts.filter isCancelled).map fun entry => Completion.mk entry.1 _ _) ++
      connection.putsToAck.map Completion.index ++
        (connection.outstandingPuts.filter fun entry => !isCancelled entry).map Prod.fst = _
  rw [cancelled, kept, List.map_nil, List.append_nil]
  exact order

/-- Nothing waits for an answer before the connection is open. -/
theorem Ordered.quiet (ordered : connection.Ordered) (idle : connection.connected = false) :
    connection.blocks = [] := by
  have phase := ordered.phase
  rw [Phase] at phase
  rw [connected] at idle
  split at phase
  next state => simp [state] at idle
  next state => simp [state] at idle
  next => exact phase

/-- More requests that are no writes, and do not send the state again, change no order. -/
theorem Ordered.requested (ordered : connection.Ordered) (isConnected : connection.connected)
    (requested : Requested connection next added) (noWrites : added.filterMap put? = [])
    (noRestore : .auth true ∉ added) : next.Ordered := by
  have inFlight : next.blocks.filterMap put? = connection.blocks.filterMap put? := by
    rw [requested.blocks, List.filterMap_append, noWrites, List.append_nil]
  have phase := ordered.phase
  refine ⟨?_, requested.plain ordered.plain, fun index member => ?_, ?_⟩
  · rw [issued, requested.completed, requested.putsToAck, requested.keys, requested.putCounter]
    exact ordered.order
  · rw [requested.putCounter]
    exact ordered.made index (inFlight ▸ member)
  · rw [Phase] at phase
    rw [Phase, requested.state]
    rw [connected] at isConnected
    split at phase
    next state =>
      obtain ⟨inOrder, restored, held⟩ := phase
      refine ⟨?_, ?_, fun none => ?_⟩
      · rw [inFlight, requested.keys]
        exact inOrder
      · rw [requested.blocks]
        exact fun member => (List.mem_append.mp member).elim restored noRestore
      · rw [requested.putsToAck]
        exact held (Nat.eq_zero_of_add_eq_zero_right (requested.unacked ▸ none))
    next state =>
      obtain ⟨stats, rest, same, quiet, noMore, once⟩ := phase
      refine ⟨stats, rest ++ added, ?_, quiet, ?_, ?_⟩
      · rw [requested.blocks, same, List.append_assoc]
        rfl
      · rw [List.filterMap_append, noMore, noWrites]
        rfl
      · exact fun member => (List.mem_append.mp member).elim once noRestore
    next different authenticating =>
      exact ((of_decide_eq_true isConnected).elim authenticating different).elim

theorem ordered_restoreAuth (order : connection.issued = List.range connection.putCounter)
    (plain : ∀ entry ∈ connection.outstandingPuts, entry.2.hash = none)
    (onlyStats : ∀ block ∈ connection.blocks, block = .stats)
    (settled : connection.authToken = none → connection.Settled)
    (done : connection.restoreAuth = some next) : next.Ordered := by
  have noWrites : connection.blocks.filterMap put? = [] :=
    List.filterMap_eq_nil_iff.mpr fun block member => onlyStats block member ▸ rfl
  rw [restoreAuth] at done
  split at done
  · split at done
    next token =>
      refine @ordered_restoreState _ _ _ { connection with connectionState := .connected } _ order
        plain rfl noWrites (fun member => ?_) (settled token) done
      cases onlyStats _ member
    next =>
      rw [sendAuthAndRestoreStateAfterComplete] at done
      split at done
      · obtain rfl := Option.some.inj done
        have same : (connection.sendAction (some (.auth true))).blocks =
            connection.blocks ++ [ResponseBlock.auth true] := List.map_append
        refine ⟨order, plain, fun index member => ?_, connection.blocks, [], same, onlyStats, rfl,
          List.not_mem_nil⟩
        have sent : index ∈ (connection.blocks ++ [ResponseBlock.auth true]).filterMap put? :=
          same ▸ member
        rw [List.filterMap_append, noWrites] at sent
        exact absurd sent List.not_mem_nil
      · cases done
  · cases done

theorem Ordered.onReady (ordered : connection.Ordered)
    (connecting : connection.connectionState = .connecting)
    (settled : connection.authToken = none → connection.Settled)
    (done : connection.onReady = some next) : next.Ordered := by
  have quiet := ordered.quiet (by rw [connected, connecting]; rfl)
  obtain ⟨restored, ready, rfl⟩ := Option.map_eq_some_iff.mp done
  have kept : restored.Ordered := by
    split at ready
    · refine @ordered_restoreAuth _ _ _ connection.sendConnectStats _ ordered.order ordered.plain
        (fun block member => ?_) settled ready
      have same : connection.sendConnectStats.blocks = connection.blocks ++ [.stats] :=
        List.map_append
      rw [same, quiet] at member
      exact List.mem_singleton.mp member
    · refine ordered_restoreAuth ordered.order ordered.plain (fun block member => ?_) settled ready
      rw [quiet] at member
      exact absurd member List.not_mem_nil
  exact ⟨kept.order, kept.plain, kept.made, kept.phase⟩

/-- While no write can be sent, only the requests count. -/
theorem Ordered.phase_of_not_connected (ordered : connection.Ordered)
    (state : connection.connectionState ≠ .connected)
    (sameState : next.connectionState = connection.connectionState)
    (sameBlocks : next.blocks = connection.blocks) : next.Phase := by
  have phase := ordered.phase
  rw [Phase] at phase
  rw [Phase, sameState, sameBlocks]
  split at phase
  next here => exact absurd here state
  next => exact phase
  next => exact phase

theorem Ordered.putInternal (ordered : connection.Ordered) {action : PutAction}
    {pathString : Text} {data : Data}
    (done : connection.putInternal action pathString data none = some next) : next.Ordered := by
  have order : connection.issued ++ [connection.putCounter] =
      List.range (connection.putCounter + 1) := by
    rw [ordered.order, List.range_succ]
  have plain : ∀ entry ∈ connection.outstandingPuts ++ [(connection.putCounter,
      OutstandingPut.mk action pathString data none false)], entry.2.hash = none := by
    intro entry member
    rcases List.mem_append.mp member with old | new
    · exact ordered.plain entry old
    · rw [List.mem_singleton.mp new]
  have phase := ordered.phase
  rw [PersistentConnection.putInternal] at done
  split at done
  next canSend =>
    have state : connection.connectionState = .connected := of_decide_eq_true canSend
    have requested := requested_sendPut done
    have keys : next.outstandingPuts.map Prod.fst =
        connection.outstandingPuts.map Prod.fst ++ [connection.putCounter] :=
      requested.keys.trans List.map_append
    have sent : next.blocks.filterMap put? =
        connection.blocks.filterMap put? ++ [connection.putCounter] := by
      rw [requested.blocks, List.filterMap_append]
      rfl
    rw [Phase, state] at phase
    obtain ⟨inOrder, restored, held⟩ := phase
    refine ⟨?_, requested.plain plain, fun index member => ?_, ?_⟩
    · rw [issued, requested.completed, requested.putsToAck, keys, requested.putCounter,
        ← List.append_assoc]
      exact order
    · rw [requested.putCounter]
      rw [sent] at member
      rcases List.mem_append.mp member with old | new
      · exact Nat.lt_succ_of_lt (ordered.made index old)
      · exact List.mem_singleton.mp new ▸ Nat.lt_succ_self _
    · rw [Phase, requested.state.trans state]
      refine ⟨?_, ?_, ?_⟩
      · have fresh : (connection.blocks.filterMap put?).filter (· ∈
            connection.outstandingPuts.map Prod.fst ++ [connection.putCounter]) =
              connection.outstandingPuts.map Prod.fst := by
          refine Eq.trans (List.filter_congr fun index member => ?_) inOrder
          have older := Nat.ne_of_lt (ordered.made index member)
          simp [older]
        rw [sent, keys, List.filter_append, fresh]
        simp
      · rw [requested.blocks]
        exact fun member => (List.mem_append.mp member).elim restored (by simp)
      · rw [requested.unacked, requested.putsToAck]
        exact held
  next cannotSend =>
    obtain rfl := Option.some.inj done
    refine ⟨?_, plain, fun index member => Nat.lt_succ_of_lt (ordered.made index member), ?_⟩
    · rw [issued, List.map_append, ← List.append_assoc]
      exact order
    · have state : connection.connectionState ≠ .connected :=
        fun same => cannotSend (decide_eq_true same)
      exact ordered.phase_of_not_connected state rfl rfl

/-- A request whose answer nothing waits for. -/
theorem Ordered.sendNothing (ordered : connection.Ordered) :
    (connection.sendAction none).Ordered := by
  have same : (connection.sendAction none).blocks = connection.blocks := by
    rw [blocks, sendAction, Option.map_none, Option.toList_none, List.append_nil]
    rfl
  have phase := ordered.phase
  rw [Phase] at phase
  refine ⟨ordered.order, ordered.plain, ?_, ?_⟩
  · rw [same]
    exact ordered.made
  · rw [Phase, same]
    exact phase

theorem Ordered.refreshAuthToken (ordered : connection.Ordered) {token : Option Token}
    (done : connection.refreshAuthToken token = some next) : next.Ordered := by
  have refreshed : { connection with authToken := token }.Ordered :=
    ⟨ordered.order, ordered.plain, ordered.made, ordered.phase⟩
  cases token with
  | none =>
    rw [PersistentConnection.refreshAuthToken] at done
    split at done
    · obtain rfl := Option.some.inj done
      exact refreshed.sendNothing
    · obtain rfl := Option.some.inj done
      exact refreshed
  | some credential =>
    rw [PersistentConnection.refreshAuthToken] at done
    split at done
    next isConnected =>
      rw [sendAuthAndRestoreStateAfterComplete] at done
      split at done
      · obtain rfl := Option.some.inj done
        exact refreshed.requested isConnected (requested_sendAction rfl) rfl (by simp)
      · cases done
    next =>
      obtain rfl := Option.some.inj done
      exact refreshed

theorem Ordered.purgeOutstandingWrites (ordered : connection.Ordered) :
    connection.purgeOutstandingWrites.Ordered := by
  refine ⟨?_, fun entry member => absurd member List.not_mem_nil, ordered.made, ?_⟩
  · show List.map Completion.index (connection.completed ++ connection.putsToAck ++
      connection.outstandingPuts.map fun entry : ℕ × OutstandingPut Data =>
        Completion.mk entry.1 _ _) ++ [] ++ [] = _
    rw [List.append_nil, List.append_nil, List.map_append, List.map_append, List.map_map]
    exact ordered.order
  · by_cases state : connection.connectionState = .connected
    · have phase := ordered.phase
      have nextState : connection.purgeOutstandingWrites.connectionState = .connected := state
      rw [Phase, state] at phase
      rw [Phase, nextState]
      refine ⟨List.filter_eq_nil_iff.mpr fun index _ => ?_, phase.2.1, fun _ => rfl⟩
      simp [PersistentConnection.purgeOutstandingWrites]
    · exact ordered.phase_of_not_connected state rfl rfl

/-- An answered request that leaves the order of the writes is forgotten. -/
theorem ordered_answered {block : ResponseBlock Params} (ordered : connection.Ordered)
    (state : connection.connectionState = .connected)
    (order : next.issued = List.range next.putCounter)
    (plain : ∀ entry ∈ next.outstandingPuts, entry.2.hash = none)
    (nextState : next.connectionState = .connected)
    (nextCounter : next.putCounter = connection.putCounter)
    (first : connection.blocks = block :: next.blocks)
    (inOrder : (next.blocks.filterMap put?).filter (· ∈ next.outstandingPuts.map Prod.fst) =
      next.outstandingPuts.map Prod.fst)
    (held : next.unackedListensCount = 0 → next.putsToAck = []) : next.Ordered := by
  have phase := ordered.phase
  rw [Phase, state] at phase
  refine ⟨order, plain, fun index member => ?_, ?_⟩
  · rw [nextCounter]
    refine ordered.made index ?_
    obtain ⟨sent, there, same⟩ := List.mem_filterMap.mp member
    exact List.mem_filterMap.mpr ⟨sent, first ▸ List.mem_cons_of_mem _ there, same⟩
  · rw [Phase, nextState]
    exact ⟨inOrder, fun member => phase.2.1 (first ▸ List.mem_cons_of_mem _ member), held⟩

theorem Ordered.inOrder (ordered : connection.Ordered)
    (state : connection.connectionState = .connected) :
    (connection.blocks.filterMap put?).filter (· ∈ connection.outstandingPuts.map Prod.fst) =
      connection.outstandingPuts.map Prod.fst := by
  have phase := ordered.phase
  rw [Phase, state] at phase
  exact phase.1

theorem Ordered.held (ordered : connection.Ordered)
    (state : connection.connectionState = .connected) (none : connection.unackedListensCount = 0) :
    connection.putsToAck = [] := by
  have phase := ordered.phase
  rw [Phase, state] at phase
  exact phase.2.2 none

/-- An answer to a request that is no write leaves the writes in flight. -/
theorem Ordered.inOrder_rest (ordered : connection.Ordered)
    (state : connection.connectionState = .connected) {block : ResponseBlock Params}
    {rest : List (ResponseBlock Params)} (first : connection.blocks = block :: rest)
    (noWrite : put? block = none) :
    (rest.filterMap put?).filter (· ∈ connection.outstandingPuts.map Prod.fst) =
      connection.outstandingPuts.map Prod.fst := by
  rw [← List.filterMap_cons_none noWrite, ← first]
  exact ordered.inOrder state

theorem Ordered.countListen (ordered : connection.Ordered)
    (state : connection.connectionState = .connected) {listenSpec : OutstandingQuery Params}
    {rest : List (ℕ × ResponseBlock Params)}
    (first : connection.blocks = .listen listenSpec :: rest.map Prod.snd)
    (listens : List (OutstandingQuery Params)) :
    { connection with listens := listens, requestCBHash := rest }.countListen.Ordered := by
  have inOrder := ordered.inOrder_rest state first rfl
  rw [PersistentConnection.countListen]
  split
  · refine ordered_answered ordered state ?_ ordered.plain state rfl first inOrder fun _ => rfl
    rw [issued, PersistentConnection.ackPuts, List.map_append, List.map_nil, List.append_nil]
    exact ordered.order
  next waits =>
    exact ordered_answered ordered state ordered.order ordered.plain state rfl first inOrder
      fun none => absurd none waits

theorem filter_later {front : ℕ} {later sent : List ℕ}
    (inOrder : sent.filter (· ∈ front :: later) = later) : sent.filter (· ∈ later) = later := by
  have twice := congrArg (List.filter (· ∈ later)) inOrder
  rw [List.filter_filter] at twice
  refine Eq.trans (List.filter_congr fun index _ => ?_)
    (twice.trans (List.filter_eq_self.mpr fun index member => decide_eq_true member))
  by_cases member : index ∈ later
  · simp [member]
  · simp [member]

/-- The write that is answered is the first one that is not answered. -/
theorem Ordered.putResponse (ordered : connection.Ordered)
    (state : connection.connectionState = .connected) {index : ℕ}
    {rest : List (ℕ × ResponseBlock Params)}
    (first : connection.blocks = .put index :: rest.map Prod.snd) (status : Text)
    (errorReason : Option Text) :
    ({ connection with requestCBHash := rest }.putResponse index status errorReason).Ordered := by
  have inOrder := ordered.inOrder state
  rw [first, List.filterMap_cons_some (show put? (.put index : ResponseBlock Params) = some index
    from rfl)] at inOrder
  rw [PersistentConnection.putResponse]
  split
  next member =>
    have there : index ∈ connection.outstandingPuts.map Prod.fst := member
    rw [List.filter_cons, if_pos (decide_eq_true there)] at inOrder
    cases puts : connection.outstandingPuts with
    | nil => exact absurd (puts ▸ there) List.not_mem_nil
    | cons entry later =>
      have keys : connection.outstandingPuts.map Prod.fst = entry.1 :: later.map Prod.fst := by
        rw [puts, List.map_cons]
      obtain ⟨same, restInOrder⟩ := List.cons.inj (inOrder.trans keys)
      subst same
      have erased : (entry :: later).eraseP (fun other => other.1 = entry.1) = later :=
        List.eraseP_cons_of_pos (decide_eq_true rfl)
      rw [keys] at restInOrder
      have laterInOrder := filter_later restInOrder
      have laterPlain : ∀ other ∈ later, other.2.hash = none := fun other member =>
        ordered.plain other (puts ▸ List.mem_cons_of_mem _ member)
      have order := ordered.order
      rw [issued, keys] at order
      rw [erased]
      split
      next none =>
        have nothing : connection.putsToAck = [] := ordered.held state none
        refine ordered_answered ordered state ?_ laterPlain state rfl first laterInOrder
          fun _ => nothing
        rw [nothing, List.map_nil, List.append_nil] at order
        rw [issued, nothing, List.map_append, List.map_nil, List.append_nil, List.append_assoc]
        exact order
      next waits =>
        refine ordered_answered ordered state ?_ laterPlain state rfl first laterInOrder
          fun none => absurd none waits
        rw [issued, List.map_append, ← List.append_assoc, List.append_assoc]
        exact order
  next missing =>
    have gone : index ∉ connection.outstandingPuts.map Prod.fst := missing
    rw [List.filter_cons, if_neg fun here => gone (of_decide_eq_true here)] at inOrder
    exact ordered_answered ordered state ordered.order ordered.plain state rfl first inOrder
      (ordered.held state)

/-- A later credential is answered: the state was sent before. -/
theorem Ordered.authResponse (ordered : connection.Ordered)
    (state : connection.connectionState = .connected) {restores : Bool}
    {rest : List (ℕ × ResponseBlock Params)}
    (first : connection.blocks = .auth restores :: rest.map Prod.snd) {status : Text}
    (done : { connection with requestCBHash := rest }.authResponse restores status = some next) :
    next.Ordered := by
  have phase := ordered.phase
  rw [Phase, state] at phase
  rw [PersistentConnection.authResponse] at done
  split at done
  · split at done
    next again => exact absurd (first ▸ again ▸ List.mem_cons_self) phase.2.1
    next =>
      obtain rfl := Option.some.inj done
      exact ordered_answered ordered state ordered.order ordered.plain rfl rfl first
        (ordered.inOrder_rest state first rfl) (ordered.held state)
  · obtain rfl := Option.some.inj done
    exact ordered_onDisconnect ordered.order ordered.plain

/-- The credential is answered first, then the state is sent again. -/
theorem Ordered.stateRestored (ordered : connection.Ordered)
    {rest : List (ℕ × ResponseBlock Params)}
    (noWrites : (rest.map Prod.snd).filterMap put? = []) (once : .auth true ∉ rest.map Prod.snd)
    (settled : connection.Settled) {status : Text}
    (done : { connection with requestCBHash := rest }.authResponse true status = some next) :
    next.Ordered := by
  rw [PersistentConnection.authResponse] at done
  split at done
  · rw [if_pos rfl] at done
    exact @ordered_restoreState _ _ _
      { connection with connectionState := .connected, requestCBHash := rest } _ ordered.order
      ordered.plain rfl noWrites once settled done
  · obtain rfl := Option.some.inj done
    exact ordered_onDisconnect ordered.order ordered.plain

theorem ordered_init : (init : PersistentConnection Params Data Token).Ordered :=
  ⟨rfl, fun _ member => absurd member List.not_mem_nil,
    fun _ member => absurd member List.not_mem_nil, rfl⟩

end Order

variable {next : PersistentConnection Params Data Token}

theorem Ordered.listenResponse (ordered : connection.Ordered)
    (state : connection.connectionState = .connected) {listenSpec : OutstandingQuery Params}
    {rest : List (ℕ × ResponseBlock Params)}
    (first : connection.blocks = .listen listenSpec :: rest.map Prod.snd) {status : Text}
    (done : { connection with requestCBHash := rest }.listenResponse listenSpec status =
      some next) : next.Ordered := by
  rw [PersistentConnection.listenResponse] at done
  split at done
  · cases done
  · split at done
    · obtain rfl := Option.some.inj done
      exact ordered.countListen state first _
    · obtain rfl := Option.some.inj done
      exact ordered.countListen state first connection.listens

/-- The answer to the first request, when the connection is there. -/
theorem Ordered.onDataMessage (ordered : connection.Ordered) {requestNumber : ℕ} {status : Text}
    {errorReason : Option Text}
    (inTurn : ∀ block, connection.requestCBHash.find? (fun request =>
      request.1 = requestNumber) = some (requestNumber, block) →
        connection.requestCBHash.head? = some (requestNumber, block))
    (settled : connection.connectionState = .authenticating → connection.Settled)
    (done : connection.onDataMessage requestNumber status errorReason = some next) :
    next.Ordered := by
  rw [PersistentConnection.onDataMessage] at done
  cases found : connection.requestCBHash.find? fun request => request.1 = requestNumber with
  | none =>
    rw [found] at done
    exact Option.some.inj done ▸ ordered
  | some request =>
    obtain ⟨number, block⟩ := request
    obtain rfl : number = requestNumber := by simpa using List.find?_some found
    obtain ⟨rest, requests⟩ := List.head?_eq_some_iff.mp (inTurn block found)
    have erased : (connection.requestCBHash.eraseP fun request => request.1 = number) = rest := by
      rw [requests]
      exact List.eraseP_cons_of_pos (decide_eq_true rfl)
    have first : connection.blocks = block :: rest.map Prod.snd := by
      rw [blocks, requests, List.map_cons]
    rw [found, erased] at done
    by_cases state : connection.connectionState = .connected
    · cases block with
      | stats =>
        obtain rfl := Option.some.inj done
        exact ordered_answered ordered state ordered.order ordered.plain state rfl first
          (ordered.inOrder_rest state first rfl) (ordered.held state)
      | auth restores => exact ordered.authResponse state first done
      | listen listenSpec => exact ordered.listenResponse state first done
      | put index =>
        obtain rfl := Option.some.inj done
        exact ordered.putResponse state first status errorReason
    · have phase := ordered.phase
      rw [Phase] at phase
      split at phase
      next here => exact absurd here state
      next authenticating =>
        obtain ⟨stats, more, same, onlyStats, noWrites, once⟩ := phase
        rw [first] at same
        cases stats with
        | nil =>
          obtain ⟨rfl, tail⟩ := List.cons.inj same
          rw [← tail] at noWrites once
          exact ordered.stateRestored noWrites once (settled authenticating) done
        | cons front others =>
          obtain ⟨front, tail⟩ := List.cons.inj same
          subst front
          obtain rfl := onlyStats block List.mem_cons_self
          obtain rfl := Option.some.inj done
          refine ⟨ordered.order, ordered.plain, fun index member => ordered.made index ?_, ?_⟩
          · rw [first, List.filterMap_cons_none rfl]
            exact member
          · have nextPhase : ∃ stats more, rest.map Prod.snd = stats ++ .auth true :: more ∧
                (∀ block ∈ stats, block = .stats) ∧ more.filterMap put? = [] ∧ .auth true ∉ more :=
              ⟨others, more, tail,
                fun block member => onlyStats block (List.mem_cons_of_mem _ member), noWrites, once⟩
            rw [Phase, show _ = ConnectionState.authenticating from authenticating]
            exact nextPhase
      next => exact absurd (first.symm.trans phase) (List.cons_ne_nil _ _)

/-! ### The order of a run -/

/-- An event that can happen and is regular keeps the order. -/
theorem Ordered.step (ordered : connection.Ordered) {event : Event Params Data Token}
    (possible : connection.Possible event) (regular : connection.Regular event)
    (done : connection.step event = some next) : next.Ordered := by
  have quiet (idle : connection.connected = false) : connection.blocks = [] := ordered.quiet idle
  have disconnected : connection.onDisconnect.Ordered :=
    ordered_onDisconnect ordered.order ordered.plain
  cases event with
  | fetchToken =>
    obtain rfl := Option.some.inj ((if_pos possible).symm.trans done)
    have state : connection.connectionState = .disconnected := possible
    exact ⟨ordered.order, ordered.plain, ordered.made, quiet (by rw [connected, state]; rfl)⟩
  | fetchedToken token =>
    obtain rfl := Option.some.inj ((if_pos possible).symm.trans done)
    have state : connection.connectionState = .gettingToken := possible
    exact ⟨ordered.order, ordered.plain, ordered.made, quiet (by rw [connected, state]; rfl)⟩
  | fetchFailed =>
    obtain rfl := Option.some.inj done
    have state : connection.connectionState = .gettingToken := possible
    exact ⟨ordered.order, ordered.plain, ordered.made, quiet (by rw [connected, state]; rfl)⟩
  | onReady => exact ordered.onReady possible regular done
  | onDisconnect => exact Option.some.inj done ▸ disconnected
  | interruptForReason =>
    obtain rfl := Option.some.inj done
    rw [PersistentConnection.interruptForReason]
    split
    next => exact disconnected
    next closed =>
      refine ⟨ordered.order, ordered.plain, ordered.made, quiet (Bool.eq_false_iff.mpr ?_)⟩
      exact fun isConnected => closed (decide_eq_true (Or.inr isConnected))
  | onDataMessage requestNumber status errorReason =>
    exact ordered.onDataMessage regular.1 regular.2 done
  | onAuthRevoked =>
    obtain rfl := Option.some.inj done
    exact ordered_onDisconnect ordered.order ordered.plain
  | onListenRevoked path =>
    obtain rfl := Option.some.inj done
    exact ⟨ordered.order, ordered.plain, ordered.made, ordered.phase⟩
  | putData pathString data hash =>
    obtain rfl : hash = none := regular
    exact ordered.putInternal done
  | mergeData pathString data => exact ordered.putInternal done
  | listen query =>
    have added : { connection with
        allocated := connection.allocated + 1
        listens := connection.listens ++
          [OutstandingQuery.mk query connection.allocated] }.Ordered :=
      ⟨ordered.order, ordered.plain, ordered.made, ordered.phase⟩
    obtain rfl := Option.some.inj ((if_neg possible).symm.trans done)
    split
    next isConnected =>
      exact added.requested isConnected
        (requested_sendListen (OutstandingQuery.mk query connection.allocated)) rfl (by simp)
    next => exact added
  | unlisten query =>
    obtain rfl := Option.some.inj done
    have removed : (connection.removeListen query).Ordered :=
      ⟨ordered.order, ordered.plain, ordered.made, ordered.phase⟩
    rw [PersistentConnection.unlisten]
    split
    · exact removed.sendNothing
    · exact removed
  | refreshAuthToken token => exact ordered.refreshAuthToken done
  | purgeOutstandingWrites => exact Option.some.inj done ▸ ordered.purgeOutstandingWrites

theorem ordered_of_run {events : List (Event Params Data Token)}
    (along : Along PersistentConnection.step
      (fun connection event => connection.Possible event ∧ connection.Regular event) init events)
    (reached : run PersistentConnection.step init events = some connection) :
    connection.Ordered := by
  refine run_invariant_along Ordered ordered_init ?_ along reached
  intro before event next ordered allowed stepped
  exact ordered.step allowed.1 allowed.2 stepped

/-- When the server answers in the order it is asked, the blocks of the writes are called in the
order of the writes, whatever connections are lost in between. -/
theorem completed_in_order {events : List (Event Params Data Token)}
    (along : Along PersistentConnection.step
      (fun connection event => connection.Possible event ∧ connection.Regular event) init events)
    (reached : run PersistentConnection.step init events = some connection) :
    connection.completed.map Completion.index ++ connection.putsToAck.map Completion.index ++
      connection.outstandingPuts.map Prod.fst = List.range connection.putCounter :=
  (ordered_of_run along reached).order

theorem along_lakeConnection_regular : Along PersistentConnection.step
    (fun connection event => connection.Possible event ∧ connection.Regular event) init
      lakeConnection := by
  have elsewhere : QuerySpec.mk [text "hill"] () ∉ [QuerySpec.mk [text "lake"] ()] := by decide
  refine along_cons_of_eq ⟨trivial, rfl⟩ rfl (along_cons_of_eq ⟨List.not_mem_nil, trivial⟩ rfl ?_)
  refine along_cons_of_eq ⟨rfl, trivial⟩ rfl (along_cons_of_eq ⟨rfl, trivial⟩ rfl ?_)
  refine along_cons_of_eq ⟨rfl, fun _ => Or.inl rfl⟩ rfl ?_
  refine along_cons_of_eq ⟨trivial, fun _ found => found, fun _ => Or.inl rfl⟩ rfl ?_
  refine along_cons_of_eq ⟨trivial, fun _ found => found, fun _ => Or.inl rfl⟩ rfl ?_
  refine along_cons_of_eq ⟨elsewhere, trivial⟩ rfl ?_
  refine along_cons_of_eq ⟨trivial, fun _ found => found, fun _ => Or.inl rfl⟩ rfl ?_
  refine along_cons_of_eq ⟨trivial, fun _ found => found, fun _ => Or.inl rfl⟩ rfl ?_
  refine along_cons_of_eq ⟨trivial, rfl⟩ rfl (along_cons_of_eq ⟨rfl, trivial⟩ rfl ?_)
  refine along_cons_of_eq ⟨rfl, trivial⟩ rfl (along_cons_of_eq ⟨rfl, trivial⟩ rfl ?_)
  exact along_cons_of_eq ⟨rfl, fun _ => Or.inr (List.cons_ne_nil _ _)⟩ rfl trivial

/-- The second write waits behind the first, over the loss of the connection. -/
theorem completed_in_order_lake : ∃ connection,
    run PersistentConnection.step init lakeConnection = some connection ∧
    connection.completed.map Completion.index ++ connection.putsToAck.map Completion.index ++
      connection.outstandingPuts.map Prod.fst = List.range 2 :=
  ⟨_, rfl, completed_in_order along_lakeConnection_regular rfl⟩

/-- A write that is held back when its connection is lost is overtaken, when there is no listen on
the next one. -/
example : (run PersistentConnection.step (init : PersistentConnection Unit ℕ Unit)
    [.listen ⟨[text "lake"], ()⟩, .putData (text "/lake") 0 none, .fetchToken, .fetchedToken none,
      .onReady, .listen ⟨[text "hill"], ()⟩, .onDataMessage 0 (text "ok") none,
      .onDataMessage 1 (text "ok") none, .onDataMessage 2 (text "ok") none, .onDisconnect,
      .unlisten ⟨[text "lake"], ()⟩, .unlisten ⟨[text "hill"], ()⟩,
      .putData (text "/hill") 1 none, .fetchToken, .fetchedToken none, .onReady,
      .onDataMessage 4 (text "ok") none, .purgeOutstandingWrites]).map
        (fun connection => connection.completed.map Completion.index) = some [1, 0] := rfl

end PersistentConnection

end PhotoMap
