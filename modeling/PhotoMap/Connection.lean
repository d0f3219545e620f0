/-
This file is about the connection to the server (`FPersistentConnection`): its
states, the listens and the writes it keeps over a loss of the network, the
requests that wait for an answer, and the answers to writes it holds back while a
listen is not answered. The server may answer in any order, or not at all, and
the connection may be lost at any time. No write is lost on the way and none is
answered twice, and no assertion of the code fails.
-/

import PhotoMap.Snapshot
import PhotoMap.Transition

namespace PhotoMap

open Transition

/-! ### The connection -/

/-- What a connection is doing (`ConnectionState`). -/
inductive ConnectionState where
  | disconnected
  | gettingToken
  | connecting
  | authenticating
  | connected
  deriving DecidableEq, Repr

/-- A place and the parameters of a query of it (`FQuerySpec`). -/
structure QuerySpec (Params : Type) where
  path : Path
  params : Params
  deriving DecidableEq

/-- A listen the program asked for (`FOutstandingQuery`). The number tells apart two listens of
one query, as their addresses do. -/
structure OutstandingQuery (Params : Type) where
  query : QuerySpec Params
  object : ℕ
  deriving DecidableEq

/-- What a write asks of the server. -/
inductive PutAction where
  | put
  | merge
  deriving DecidableEq, Repr

/-- A write the server has not answered (`FOutstandingPut`). Only the write of a transaction has a
hash. -/
structure OutstandingPut (Data : Type) where
  action : PutAction
  pathString : Text
  data : Data
  hash : Option Text
  sent : Bool

/-- The block that runs when the server answers a request. -/
inductive ResponseBlock (Params : Type) where
  | stats
  | auth (restoreStateAfterComplete : Bool)
  | listen (listenSpec : OutstandingQuery Params)
  | put (index : ℕ)

/-- A call of the block of a write: its index, its status and the reason of an error. -/
structure Completion where
  index : ℕ
  status : Text
  errorReason : Option Text

/-- The state of the connection (`FPersistentConnection`). The writes are in the order of their
indices, the requests in the order they were sent. The blocks that were called are `completed`. -/
structure PersistentConnection (Params Data Token : Type) where
  connectionState : ConnectionState
  firstConnection : Bool
  authToken : Option Token
  listens : List (OutstandingQuery Params)
  allocated : ℕ
  outstandingPuts : List (ℕ × OutstandingPut Data)
  putCounter : ℕ
  requestNumber : ℕ
  requestCBHash : List (ℕ × ResponseBlock Params)
  unackedListensCount : ℕ
  putsToAck : List Completion
  completed : List Completion

namespace PersistentConnection

variable {Params Data Token : Type} [DecidableEq Params]

def init : PersistentConnection Params Data Token where
  connectionState := .disconnected
  firstConnection := true
  authToken := none
  listens := []
  allocated := 0
  outstandingPuts := []
  putCounter := 0
  requestNumber := 0
  requestCBHash := []
  unackedListensCount := 0
  putsToAck := []
  completed := []

variable (connection : PersistentConnection Params Data Token)

/-- Whether requests can be sent (`connected`). -/
def connected : Bool :=
  connection.connectionState = .authenticating ∨ connection.connectionState = .connected

def canSendWrites : Bool := connection.connectionState = .connected

/-- Whether there is a connection to close (`realtime`). -/
def hasRealtime : Bool := connection.connectionState = .connecting ∨ connection.connected

/-! ### What the connection sends -/

/-- Sends a request, and keeps the block for its answer when there is one. -/
def sendAction (onMessage : Option (ResponseBlock Params)) :
    PersistentConnection Params Data Token :=
  { connection with
    requestNumber := connection.requestNumber + 1
    requestCBHash := connection.requestCBHash ++
      (onMessage.map fun block => (connection.requestNumber, block)).toList }

def sendListen (listenSpec : OutstandingQuery Params) : PersistentConnection Params Data Token :=
  { connection.sendAction (some (.listen listenSpec)) with
    unackedListensCount := connection.unackedListensCount + 1 }

def markSent (index : ℕ) (entry : ℕ × OutstandingPut Data) : ℕ × OutstandingPut Data :=
  if entry.1 = index then (entry.1, { entry.2 with sent := true }) else entry

/-- Sends a write. It fails when writes cannot be sent, or when there is no such write. -/
def sendPut (index : ℕ) : Option (PersistentConnection Params Data Token) :=
  if connection.canSendWrites ∧ index ∈ connection.outstandingPuts.map Prod.fst then
    some ({ connection with
      outstandingPuts := connection.outstandingPuts.map (markSent index) }.sendAction
        (some (.put index)))
  else none

/-- Sends everything the server has to know again: the listens, then the writes in their order. -/
def restoreState : Option (PersistentConnection Params Data Token) :=
  if connection.connectionState = .connected then
    let listening := connection.listens.foldl sendListen connection
    (listening.outstandingPuts.map Prod.fst).foldlM sendPut listening
  else none

/-- Sends the credential. It fails when the connection is not there, or when there is none. -/
def sendAuthAndRestoreStateAfterComplete (restoreStateAfterComplete : Bool) :
    Option (PersistentConnection Params Data Token) :=
  if connection.connected ∧ connection.authToken.isSome then
    some (connection.sendAction (some (.auth restoreStateAfterComplete)))
  else none

def restoreAuth : Option (PersistentConnection Params Data Token) :=
  if connection.connectionState = .connecting then
    match connection.authToken with
    | none => { connection with connectionState := .connected }.restoreState
    | some _ =>
      { connection with connectionState := .authenticating }.sendAuthAndRestoreStateAfterComplete
        true
  else none

def sendConnectStats : PersistentConnection Params Data Token :=
  connection.sendAction (some .stats)

/-- The connection is open. -/
def onReady : Option (PersistentConnection Params Data Token) :=
  let greeted := if connection.firstConnection then connection.sendConnectStats else connection
  greeted.restoreAuth.map fun restored => { restored with firstConnection := false }

/-! ### What the program asks for -/

def putInternal (action : PutAction) (pathString : Text) (data : Data) (hash : Option Text) :
    Option (PersistentConnection Params Data Token) :=
  let index := connection.putCounter
  let added := { connection with
    putCounter := index + 1
    outstandingPuts := connection.outstandingPuts ++
      [(index, OutstandingPut.mk action pathString data hash false)] }
  if added.canSendWrites then added.sendPut index else some added

def putData (pathString : Text) (data : Data) (hash : Option Text) :
    Option (PersistentConnection Params Data Token) :=
  connection.putInternal .put pathString data hash

def mergeData (pathString : Text) (data : Data) : Option (PersistentConnection Params Data Token) :=
  connection.putInternal .merge pathString data none

def refreshAuthToken (token : Option Token) : Option (PersistentConnection Params Data Token) :=
  let refreshed := { connection with authToken := token }
  if refreshed.connected then
    match token with
    | some _ => refreshed.sendAuthAndRestoreStateAfterComplete false
    | none => some (refreshed.sendAction none)
  else some refreshed

def ackPuts : PersistentConnection Params Data Token :=
  { connection with completed := connection.completed ++ connection.putsToAck, putsToAck := [] }

/-- Calls the blocks of all the writes, those held back first, and forgets the writes. -/
def purgeOutstandingWrites : PersistentConnection Params Data Token :=
  let acked := connection.ackPuts
  { acked with
    completed := acked.completed ++
      acked.outstandingPuts.map fun entry => ⟨entry.1, text "write_canceled", none⟩
    outstandingPuts := [] }

/-- Starts to listen. It fails when the program listens to the query already. -/
def listen (query : QuerySpec Params) : Option (PersistentConnection Params Data Token) :=
  if query ∈ connection.listens.map OutstandingQuery.query then none
  else
    let outstanding := OutstandingQuery.mk query connection.allocated
    let added := { connection with
      allocated := connection.allocated + 1, listens := connection.listens ++ [outstanding] }
    some (if added.connected then added.sendListen outstanding else added)

def removeListen (query : QuerySpec Params) : PersistentConnection Params Data Token :=
  { connection with listens := connection.listens.filter fun listened => listened.query ≠ query }

def unlisten (query : QuerySpec Params) : PersistentConnection Params Data Token :=
  let removed := connection.removeListen query
  if query ∈ connection.listens.map OutstandingQuery.query ∧ connection.connected then
    removed.sendAction none
  else removed

/-! ### What the server and the network do -/

/-- Gives up the writes of transactions that were sent. The code takes them as they come; here
they are taken in the order of their indices. -/
def cancelSentTransactions : PersistentConnection Params Data Token :=
  let isCancelled := fun entry : ℕ × OutstandingPut Data => entry.2.hash.isSome && entry.2.sent
  { connection with
    completed := connection.completed ++
      (connection.outstandingPuts.filter isCancelled).map fun entry =>
        ⟨entry.1, text "disconnect",
          some (text "Client was disconnected while running a transaction")⟩
    outstandingPuts := connection.outstandingPuts.filter fun entry => !isCancelled entry }

def onDisconnect : PersistentConnection Params Data Token :=
  { { connection with connectionState := .disconnected }.cancelSentTransactions with
    requestCBHash := []
    unackedListensCount := 0 }

/-- Closing a connection that is there ends as losing it does. -/
def interruptForReason : PersistentConnection Params Data Token :=
  if connection.hasRealtime then connection.onDisconnect
  else { connection with connectionState := .disconnected }

def onAuthRevoked : PersistentConnection Params Data Token :=
  { connection with authToken := none }.onDisconnect

def onListenRevoked (path : Path) : PersistentConnection Params Data Token :=
  { connection with listens := connection.listens.filter fun listened => listened.query.path ≠ path }

def authResponse (restoreStateAfterComplete : Bool) (status : Text) :
    Option (PersistentConnection Params Data Token) :=
  let authenticated := { connection with connectionState := .connected }
  if status = text "ok" then
    if restoreStateAfterComplete then authenticated.restoreState else some authenticated
  else some { authenticated with authToken := none }.onDisconnect

/-- The block of a write is called at once, or after the listens that are not answered. An index
is never used again, so a write with the index is the one the request was for. -/
def putResponse (index : ℕ) (status : Text) (errorReason : Option Text) :
    PersistentConnection Params Data Token :=
  if index ∈ connection.outstandingPuts.map Prod.fst then
    let removed := { connection with
      outstandingPuts := connection.outstandingPuts.eraseP fun entry => entry.1 = index }
    if connection.unackedListensCount = 0 then
      { removed with completed := connection.completed ++ [⟨index, status, errorReason⟩] }
    else { removed with putsToAck := connection.putsToAck ++ [⟨index, status, errorReason⟩] }
  else connection

/-- One listen less waits for its answer. After the last one the writes held back are answered. -/
def countListen : PersistentConnection Params Data Token :=
  let counted := { connection with unackedListensCount := connection.unackedListensCount - 1 }
  if counted.unackedListensCount = 0 then counted.ackPuts else counted

/-- A listen that is refused is forgotten, unless the program has replaced it. It fails when no
listen waits for an answer. -/
def listenResponse (listenSpec : OutstandingQuery Params) (status : Text) :
    Option (PersistentConnection Params Data Token) :=
  if connection.unackedListensCount = 0 then none
  else if listenSpec ∈ connection.listens ∧ status ≠ text "ok" then
    some (connection.removeListen listenSpec.query).countListen
  else some connection.countListen

/-- The answer to a request. Nothing happens when no block waits for it. -/
def onDataMessage (requestNumber : ℕ) (status : Text) (errorReason : Option Text) :
    Option (PersistentConnection Params Data Token) :=
  match connection.requestCBHash.find? fun request => request.1 = requestNumber with
  | none => some connection
  | some (_, block) =>
    let answered := { connection with
      requestCBHash := connection.requestCBHash.eraseP fun request => request.1 = requestNumber }
    match block with
    | .stats => some answered
    | .auth restoreStateAfterComplete => answered.authResponse restoreStateAfterComplete status
    | .listen listenSpec => answered.listenResponse listenSpec status
    | .put index => some (answered.putResponse index status errorReason)

/-! ### Runs of the connection -/

/-- What happens to a connection, in any order. -/
inductive Event (Params Data Token : Type) where
  | fetchToken
  | fetchedToken (token : Option Token)
  | fetchFailed
  | onReady
  | onDisconnect
  | interruptForReason
  | onDataMessage (requestNumber : ℕ) (status : Text) (errorReason : Option Text)
  | onAuthRevoked
  | onListenRevoked (path : Path)
  | putData (pathString : Text) (data : Data) (hash : Option Text)
  | mergeData (pathString : Text) (data : Data)
  | listen (query : QuerySpec Params)
  | unlisten (query : QuerySpec Params)
  | refreshAuthToken (token : Option Token)
  | purgeOutstandingWrites

/-- One event. It fails when an assertion of the code does. -/
def step : Event Params Data Token → Option (PersistentConnection Params Data Token)
  | .fetchToken =>
    if connection.connectionState = .disconnected then
      some { connection with connectionState := .gettingToken }
    else none
  | .fetchedToken token =>
    if connection.connectionState = .gettingToken then
      some { connection with authToken := token, connectionState := .connecting }
    else none
  | .fetchFailed => some { connection with connectionState := .disconnected }
  | .onReady => connection.onReady
  | .onDisconnect => some connection.onDisconnect
  | .interruptForReason => some connection.interruptForReason
  | .onDataMessage requestNumber status errorReason =>
    connection.onDataMessage requestNumber status errorReason
  | .onAuthRevoked => some connection.onAuthRevoked
  | .onListenRevoked path => some (connection.onListenRevoked path)
  | .putData pathString data hash => connection.putData pathString data hash
  | .mergeData pathString data => connection.mergeData pathString data
  | .listen query => connection.listen query
  | .unlisten query => some (connection.unlisten query)
  | .refreshAuthToken token => connection.refreshAuthToken token
  | .purgeOutstandingWrites => some connection.purgeOutstandingWrites

/-- What can happen next: a token is fetched and a connection is opened once each, a connection is
lost only when it is there, and the program does not listen to a query twice. -/
def Possible : Event Params Data Token → Prop
  | .fetchToken => connection.connectionState = .disconnected
  | .fetchedToken _ => connection.connectionState = .gettingToken
  | .fetchFailed => connection.connectionState = .gettingToken
  | .onReady => connection.connectionState = .connecting
  | .onDisconnect => connection.hasRealtime
  | .onAuthRevoked => connection.connected
  | .listen query => query ∉ connection.listens.map OutstandingQuery.query
  | _ => True

/-! ### No write is lost, and none is answered twice -/

def isListen : ResponseBlock Params → Bool
  | .listen _ => true
  | _ => false

/-- The writes whose blocks were called, then those whose answer is held back, then those that are
not answered. -/
def issued : List ℕ :=
  connection.completed.map Completion.index ++ connection.putsToAck.map Completion.index ++
    connection.outstandingPuts.map Prod.fst

/-- Every write is at one place, once, and the listens that are not answered are counted. -/
structure Accounted : Prop where
  ledger : connection.issued.Perm (List.range connection.putCounter)
  unacked : connection.unackedListensCount =
    connection.requestCBHash.countP fun request => isListen request.2

variable {connection}

section Writes

omit [DecidableEq Params]

theorem accounted_init : (init : PersistentConnection Params Data Token).Accounted :=
  ⟨List.Perm.refl _, rfl⟩

/-- Taking the first entry out of a dictionary leaves the others. -/
theorem perm_eraseP {Entry : Type} {taken : Entry → Bool} {entries : List Entry} {entry : Entry}
    (found : entries.find? taken = some entry) : entries.Perm (entry :: entries.eraseP taken) := by
  induction entries with
  | nil => exact absurd found nofun
  | cons head rest inductionHypothesis =>
    by_cases here : taken head = true
    · rw [List.find?_cons_of_pos here, Option.some_inj] at found
      rw [List.eraseP_cons_of_pos here, found]
    · rw [List.find?_cons_of_neg here] at found
      rw [List.eraseP_cons_of_neg here]
      exact ((inductionHypothesis found).cons head).trans (List.Perm.swap entry head _)

theorem exists_find?_of_mem_keys {Content : Type} {index : ℕ} {entries : List (ℕ × Content)}
    (member : index ∈ entries.map Prod.fst) :
    ∃ content, entries.find? (fun entry => entry.1 = index) = some (index, content) := by
  obtain ⟨entry, there, rfl⟩ := List.mem_map.mp member
  have here : (entries.find? fun other => other.1 = entry.1).isSome :=
    List.find?_isSome.mpr ⟨entry, there, decide_eq_true rfl⟩
  obtain ⟨found, taken⟩ := Option.isSome_iff_exists.mp here
  have same : found.1 = entry.1 := by simpa using List.find?_some taken
  exact ⟨found.2, same ▸ taken⟩

/-- Sending a request that is no listen changes no account. -/
theorem Accounted.sendAction (accounted : connection.Accounted)
    {onMessage : Option (ResponseBlock Params)}
    (other : ∀ block, onMessage = some block → isListen block = false) :
    (connection.sendAction onMessage).Accounted := by
  refine ⟨accounted.ledger, accounted.unacked.trans ?_⟩
  rw [PersistentConnection.sendAction, List.countP_append]
  cases onMessage with
  | none => rfl
  | some block =>
    rw [Option.map_some, Option.toList_some, List.countP_singleton, other block rfl]
    rfl

theorem Accounted.sendListen (accounted : connection.Accounted)
    (listenSpec : OutstandingQuery Params) : (connection.sendListen listenSpec).Accounted := by
  refine ⟨accounted.ledger, (congrArg (· + 1) accounted.unacked).trans ?_⟩
  rw [PersistentConnection.sendListen, PersistentConnection.sendAction, List.countP_append]
  rfl

theorem connectionState_foldl_sendListen (listens : List (OutstandingQuery Params)) :
    (listens.foldl PersistentConnection.sendListen connection).connectionState =
      connection.connectionState := by
  induction listens generalizing connection with
  | nil => rfl
  | cons listenSpec rest inductionHypothesis => exact inductionHypothesis

theorem Accounted.foldl_sendListen (accounted : connection.Accounted)
    (listens : List (OutstandingQuery Params)) :
    (listens.foldl PersistentConnection.sendListen connection).Accounted := by
  induction listens generalizing connection with
  | nil => exact accounted
  | cons listenSpec rest inductionHypothesis =>
    exact inductionHypothesis (accounted.sendListen listenSpec)

theorem markSent_fst (index : ℕ) (entry : ℕ × OutstandingPut Data) :
    (markSent index entry).1 = entry.1 := by
  rw [markSent]
  split <;> rfl

theorem keys_markSent (index : ℕ) (puts : List (ℕ × OutstandingPut Data)) :
    (puts.map (markSent index)).map Prod.fst = puts.map Prod.fst := by
  rw [List.map_map]
  exact List.map_congr_left fun entry _ => markSent_fst index entry

/-- Sending a write that is there, to a server that takes writes. -/
theorem Accounted.exists_sendPut (accounted : connection.Accounted) {index : ℕ}
    (canSend : connection.connectionState = .connected)
    (member : index ∈ connection.outstandingPuts.map Prod.fst) :
    ∃ next, connection.sendPut index = some next ∧ next.Accounted ∧
      next.connectionState = .connected ∧
      next.outstandingPuts.map Prod.fst = connection.outstandingPuts.map Prod.fst := by
  have marked : { connection with
      outstandingPuts := connection.outstandingPuts.map (markSent index) }.Accounted := by
    refine ⟨?_, accounted.unacked⟩
    rw [issued, keys_markSent]
    exact accounted.ledger
  refine ⟨_, if_pos ⟨decide_eq_true canSend, member⟩, marked.sendAction ?_, canSend,
    keys_markSent index _⟩
  intro block same
  rw [← Option.some.inj same]
  rfl

theorem Accounted.exists_sendPuts (accounted : connection.Accounted) {indices : List ℕ}
    (canSend : connection.connectionState = .connected)
    (members : ∀ index ∈ indices, index ∈ connection.outstandingPuts.map Prod.fst) :
    ∃ next, indices.foldlM PersistentConnection.sendPut connection = some next ∧
      next.Accounted := by
  induction indices generalizing connection with
  | nil => exact ⟨connection, rfl, accounted⟩
  | cons index rest inductionHypothesis =>
    obtain ⟨next, sent, nextAccounted, nextConnected, sameKeys⟩ :=
      accounted.exists_sendPut canSend (members index List.mem_cons_self)
    obtain ⟨last, restSent, lastAccounted⟩ := inductionHypothesis nextAccounted nextConnected
      fun other member => sameKeys ▸ members other (List.mem_cons_of_mem _ member)
    refine ⟨last, ?_, lastAccounted⟩
    rw [List.foldlM_cons, sent]
    exact restSent

theorem Accounted.exists_restoreState (accounted : connection.Accounted)
    (isConnected : connection.connectionState = .connected) :
    ∃ next, connection.restoreState = some next ∧ next.Accounted := by
  rw [restoreState, if_pos isConnected]
  exact (accounted.foldl_sendListen connection.listens).exists_sendPuts
    ((connectionState_foldl_sendListen connection.listens).trans isConnected) fun _ member => member

theorem Accounted.exists_sendAuth (accounted : connection.Accounted) (restores : Bool)
    (isConnected : connection.connected) (hasToken : connection.authToken.isSome) :
    ∃ next, connection.sendAuthAndRestoreStateAfterComplete restores = some next ∧
      next.Accounted := by
  refine ⟨_, if_pos ⟨isConnected, hasToken⟩, accounted.sendAction fun block same => ?_⟩
  rw [← Option.some.inj same]
  rfl

theorem Accounted.exists_restoreAuth (accounted : connection.Accounted)
    (connecting : connection.connectionState = .connecting) :
    ∃ next, connection.restoreAuth = some next ∧ next.Accounted := by
  rw [restoreAuth, if_pos connecting]
  cases token : connection.authToken with
  | none => exact exists_restoreState ⟨accounted.ledger, accounted.unacked⟩ rfl
  | some credential =>
    have authenticating : { connection with
        connectionState := .authenticating, authToken := some credential }.Accounted :=
      ⟨accounted.ledger, accounted.unacked⟩
    exact authenticating.exists_sendAuth true (decide_eq_true (Or.inl rfl)) rfl

theorem Accounted.exists_onReady (accounted : connection.Accounted)
    (connecting : connection.connectionState = .connecting) :
    ∃ next, connection.onReady = some next ∧ next.Accounted := by
  obtain ⟨restored, done, kept⟩ : ∃ restored,
      (if connection.firstConnection then connection.sendConnectStats else connection).restoreAuth =
        some restored ∧ restored.Accounted := by
    split
    · refine (accounted.sendAction fun block same => ?_).exists_restoreAuth connecting
      rw [← Option.some.inj same]
      rfl
    · exact accounted.exists_restoreAuth connecting
  rw [onReady, done]
  exact ⟨_, rfl, kept.ledger, kept.unacked⟩

theorem Accounted.exists_putInternal (accounted : connection.Accounted) (action : PutAction)
    (pathString : Text) (data : Data) (hash : Option Text) :
    ∃ next, connection.putInternal action pathString data hash = some next ∧ next.Accounted := by
  have added : { connection with
      putCounter := connection.putCounter + 1
      outstandingPuts := connection.outstandingPuts ++
        [(connection.putCounter, OutstandingPut.mk action pathString data hash false)] }.Accounted := by
    refine ⟨?_, accounted.unacked⟩
    rw [issued, List.map_append, ← List.append_assoc, List.range_succ]
    exact accounted.ledger.append_right _
  rw [putInternal]
  split
  next canSend =>
    obtain ⟨next, sent, nextAccounted, -⟩ := added.exists_sendPut
      (of_decide_eq_true canSend) (by
        rw [List.map_append]
        exact List.mem_append_right _ List.mem_cons_self)
    exact ⟨next, sent, nextAccounted⟩
  next => exact ⟨_, rfl, added⟩

theorem Accounted.exists_refreshAuthToken (accounted : connection.Accounted)
    (token : Option Token) :
    ∃ next, connection.refreshAuthToken token = some next ∧ next.Accounted := by
  have refreshed : { connection with authToken := token }.Accounted :=
    ⟨accounted.ledger, accounted.unacked⟩
  cases token with
  | none =>
    rw [refreshAuthToken]
    split
    · exact ⟨_, rfl, refreshed.sendAction nofun⟩
    · exact ⟨_, rfl, refreshed⟩
  | some credential =>
    rw [refreshAuthToken]
    split
    next isConnected => exact refreshed.exists_sendAuth false isConnected rfl
    next => exact ⟨_, rfl, refreshed⟩

theorem Accounted.ackPuts (accounted : connection.Accounted) : connection.ackPuts.Accounted := by
  refine ⟨?_, accounted.unacked⟩
  rw [issued, PersistentConnection.ackPuts, List.map_append, List.map_nil, List.append_nil]
  exact accounted.ledger

theorem Accounted.purgeOutstandingWrites (accounted : connection.Accounted) :
    connection.purgeOutstandingWrites.Accounted := by
  refine ⟨?_, accounted.unacked⟩
  show (List.map Completion.index (connection.completed ++ connection.putsToAck ++
    connection.outstandingPuts.map fun entry : ℕ × OutstandingPut Data =>
      Completion.mk entry.1 _ _) ++ [] ++ []).Perm _
  rw [List.append_nil, List.append_nil, List.map_append, List.map_append, List.map_map]
  exact accounted.ledger

/-- Moving some writes from the last place to the first. -/
theorem perm_moved {first moved held rest all : List ℕ} (parted : (moved ++ rest).Perm all) :
    (first ++ moved ++ held ++ rest).Perm (first ++ held ++ all) := by
  have swapped : (first ++ (moved ++ held) ++ rest).Perm (first ++ (held ++ moved) ++ rest) :=
    (List.perm_append_comm.append_left first).append_right rest
  rw [← List.append_assoc, ← List.append_assoc, List.append_assoc (first ++ held)] at swapped
  exact swapped.trans (parted.append_left _)

/-- Giving up the writes of transactions only moves them. -/
theorem Accounted.onDisconnect (accounted : connection.Accounted) :
    connection.onDisconnect.Accounted := by
  refine ⟨?_, rfl⟩
  let isCancelled := fun entry : ℕ × OutstandingPut Data => entry.2.hash.isSome && entry.2.sent
  have parted : ((connection.outstandingPuts.filter isCancelled).map Prod.fst ++
      (connection.outstandingPuts.filter fun entry => !isCancelled entry).map Prod.fst).Perm
        (connection.outstandingPuts.map Prod.fst) := by
    rw [← List.map_append]
    exact (List.filter_append_perm isCancelled connection.outstandingPuts).map Prod.fst
  show (List.map Completion.index (connection.completed ++
    (connection.outstandingPuts.filter isCancelled).map fun entry => Completion.mk entry.1 _ _) ++
      connection.putsToAck.map Completion.index ++
        (connection.outstandingPuts.filter fun entry => !isCancelled entry).map Prod.fst).Perm _
  rw [List.map_append, List.map_map]
  exact (perm_moved parted).trans accounted.ledger

theorem Accounted.authResponse (accounted : connection.Accounted) (restores : Bool)
    (status : Text) :
    ∃ next, connection.authResponse restores status = some next ∧ next.Accounted := by
  have authenticated : { connection with connectionState := .connected }.Accounted :=
    ⟨accounted.ledger, accounted.unacked⟩
  rw [PersistentConnection.authResponse]
  split
  · split
    · exact authenticated.exists_restoreState rfl
    · exact ⟨_, rfl, authenticated⟩
  · exact ⟨_, rfl, onDisconnect ⟨accounted.ledger, accounted.unacked⟩⟩

theorem Accounted.putResponse (accounted : connection.Accounted) (index : ℕ) (status : Text)
    (errorReason : Option Text) :
    (connection.putResponse index status errorReason).Accounted := by
  rw [PersistentConnection.putResponse]
  split
  next member =>
    obtain ⟨put, found⟩ := exists_find?_of_mem_keys member
    have taken := ((perm_eraseP found).map Prod.fst).symm
    split
    · refine ⟨?_, accounted.unacked⟩
      rw [issued, List.map_append]
      exact (@perm_moved _ [index] _ _ _ taken).trans accounted.ledger
    · refine ⟨?_, accounted.unacked⟩
      rw [issued, List.map_append, ← List.append_assoc, List.append_assoc]
      exact (taken.append_left _).trans accounted.ledger
  next => exact accounted

theorem Accounted.countListen (ledger : connection.issued.Perm (List.range connection.putCounter))
    (counted : connection.unackedListensCount =
      (connection.requestCBHash.countP fun request => isListen request.2) + 1) :
    connection.countListen.Accounted := by
  have fewer : connection.unackedListensCount - 1 =
      connection.requestCBHash.countP fun request => isListen request.2 := by
    rw [counted, Nat.add_sub_cancel]
  rw [PersistentConnection.countListen]
  split
  · exact ackPuts ⟨ledger, fewer⟩
  · exact ⟨ledger, fewer⟩

theorem Accounted.interruptForReason (accounted : connection.Accounted) :
    connection.interruptForReason.Accounted := by
  rw [PersistentConnection.interruptForReason]
  split
  · exact accounted.onDisconnect
  · exact ⟨accounted.ledger, accounted.unacked⟩

end Writes

theorem exists_listenResponse (ledger : connection.issued.Perm (List.range connection.putCounter))
    (counted : connection.unackedListensCount =
      (connection.requestCBHash.countP fun request => isListen request.2) + 1)
    (listenSpec : OutstandingQuery Params) (status : Text) :
    ∃ next, connection.listenResponse listenSpec status = some next ∧ next.Accounted := by
  have waits : connection.unackedListensCount ≠ 0 := counted ▸ Nat.succ_ne_zero _
  rw [listenResponse, if_neg waits]
  split
  · exact ⟨_, rfl, Accounted.countListen ledger counted⟩
  · exact ⟨_, rfl, Accounted.countListen ledger counted⟩

/-- Any answer can come: to any request, in any order, also to one that no block waits for. -/
theorem Accounted.exists_onDataMessage (accounted : connection.Accounted) (requestNumber : ℕ)
    (status : Text) (errorReason : Option Text) :
    ∃ next, connection.onDataMessage requestNumber status errorReason = some next ∧
      next.Accounted := by
  rw [onDataMessage]
  cases found : connection.requestCBHash.find? fun request => request.1 = requestNumber with
  | none => exact ⟨_, rfl, accounted⟩
  | some request =>
    obtain ⟨number, block⟩ := request
    let answered := { connection with
      requestCBHash := connection.requestCBHash.eraseP fun request => request.1 = requestNumber }
    have counts : connection.unackedListensCount =
        (answered.requestCBHash.countP fun request => isListen request.2) +
          if isListen block then 1 else 0 :=
      accounted.unacked.trans
        (((perm_eraseP found).countP_eq fun request => isListen request.2).trans List.countP_cons)
    have ledger : answered.issued.Perm (List.range answered.putCounter) := accounted.ledger
    have kept (other : isListen block = false) : answered.Accounted :=
      ⟨ledger, by rw [counts, other]; rfl⟩
    cases block with
    | stats => exact ⟨_, rfl, kept rfl⟩
    | auth restores => exact (kept rfl).authResponse restores status
    | listen listenSpec => exact exists_listenResponse ledger counts listenSpec status
    | put index => exact ⟨_, rfl, (kept rfl).putResponse index status errorReason⟩

theorem Accounted.exists_listen (accounted : connection.Accounted) {query : QuerySpec Params}
    (unheard : query ∉ connection.listens.map OutstandingQuery.query) :
    ∃ next, connection.listen query = some next ∧ next.Accounted := by
  have added : { connection with
      allocated := connection.allocated + 1
      listens := connection.listens ++
        [OutstandingQuery.mk query connection.allocated] }.Accounted :=
    ⟨accounted.ledger, accounted.unacked⟩
  rw [listen, if_neg unheard]
  refine ⟨_, rfl, ?_⟩
  split
  · exact added.sendListen _
  · exact added

theorem Accounted.unlisten (accounted : connection.Accounted) (query : QuerySpec Params) :
    (connection.unlisten query).Accounted := by
  have removed : (connection.removeListen query).Accounted :=
    ⟨accounted.ledger, accounted.unacked⟩
  rw [PersistentConnection.unlisten]
  split
  · exact removed.sendAction nofun
  · exact removed

/-- An event that can happen fails no assertion, and keeps the accounts. -/
theorem Accounted.exists_step (accounted : connection.Accounted) {event : Event Params Data Token}
    (possible : connection.Possible event) :
    ∃ next, connection.step event = some next ∧ next.Accounted := by
  cases event with
  | fetchToken => exact ⟨_, if_pos possible, accounted.ledger, accounted.unacked⟩
  | fetchedToken token => exact ⟨_, if_pos possible, accounted.ledger, accounted.unacked⟩
  | fetchFailed => exact ⟨_, rfl, accounted.ledger, accounted.unacked⟩
  | onReady => exact accounted.exists_onReady possible
  | onDisconnect => exact ⟨_, rfl, accounted.onDisconnect⟩
  | interruptForReason => exact ⟨_, rfl, accounted.interruptForReason⟩
  | onDataMessage requestNumber status errorReason =>
    exact accounted.exists_onDataMessage requestNumber status errorReason
  | onAuthRevoked => exact ⟨_, rfl, onDisconnect ⟨accounted.ledger, accounted.unacked⟩⟩
  | onListenRevoked path => exact ⟨_, rfl, accounted.ledger, accounted.unacked⟩
  | putData pathString data hash => exact accounted.exists_putInternal _ _ _ _
  | mergeData pathString data => exact accounted.exists_putInternal _ _ _ _
  | listen query => exact accounted.exists_listen possible
  | unlisten query => exact ⟨_, rfl, accounted.unlisten query⟩
  | refreshAuthToken token => exact accounted.exists_refreshAuthToken token
  | purgeOutstandingWrites => exact ⟨_, rfl, accounted.purgeOutstandingWrites⟩

theorem accounted_of_run {events : List (Event Params Data Token)}
    (along : Along step Possible init events) (reached : run step init events = some connection) :
    connection.Accounted := by
  refine run_invariant_along Accounted accounted_init ?_ along reached
  intro before event next accounted possible stepped
  obtain ⟨found, done, kept⟩ := accounted.exists_step possible
  exact Option.some.inj (done.symm.trans stepped) ▸ kept

/-- In every run, each write is at one place, once: its block was called, or its answer is held
back, or it is kept to be sent again. -/
theorem each_write_once {events : List (Event Params Data Token)}
    (along : Along step Possible init events) (reached : run step init events = some connection) :
    (connection.completed.map Completion.index ++ connection.putsToAck.map Completion.index ++
      connection.outstandingPuts.map Prod.fst).Perm (List.range connection.putCounter) :=
  (accounted_of_run along reached).ledger

def lakeConnection : List (Event Unit ℕ Unit) :=
  [.putData (text "/lake") 0 none, .listen ⟨[text "lake"], ()⟩, .fetchToken, .fetchedToken (some ()),
    .onReady, .onDataMessage 0 (text "ok") none, .onDataMessage 1 (text "ok") none,
    .listen ⟨[text "hill"], ()⟩, .onDataMessage 2 (text "ok") none, .onDataMessage 3 (text "ok") none,
    .putData (text "/hill") 1 none,
    .onDisconnect, .fetchToken, .fetchedToken none, .onReady]

theorem along_lakeConnection : Along step Possible init lakeConnection := by
  have elsewhere : QuerySpec.mk [text "hill"] () ∉ [QuerySpec.mk [text "lake"] ()] := by decide
  refine along_cons_of_eq trivial rfl (along_cons_of_eq List.not_mem_nil rfl ?_)
  refine along_cons_of_eq rfl rfl (along_cons_of_eq rfl rfl (along_cons_of_eq rfl rfl ?_))
  refine along_cons_of_eq trivial rfl (along_cons_of_eq trivial rfl ?_)
  refine along_cons_of_eq elsewhere rfl ?_
  refine along_cons_of_eq trivial rfl (along_cons_of_eq trivial rfl ?_)
  refine along_cons_of_eq trivial rfl (along_cons_of_eq rfl rfl ?_)
  exact along_cons_of_eq rfl rfl (along_cons_of_eq rfl rfl (along_cons_of_eq rfl rfl trivial))

/-- One write is held back, and one was lost with its connection and is sent again. -/
theorem each_write_once_lake : ∃ connection, run step init lakeConnection = some connection ∧
    (connection.completed.map Completion.index ++ connection.putsToAck.map Completion.index ++
      connection.outstandingPuts.map Prod.fst).Perm (List.range 2) :=
  ⟨_, rfl, each_write_once along_lakeConnection rfl⟩

/-- No assertion of the code fails, whatever the server answers. -/
theorem assertions_hold {events : List (Event Params Data Token)}
    (along : Along step Possible init events) (reached : run step init events = some connection)
    {event : Event Params Data Token} (possible : connection.Possible event) :
    ∃ next, connection.step event = some next := by
  obtain ⟨next, done, -⟩ := (accounted_of_run along reached).exists_step possible
  exact ⟨next, done⟩

/-- The token of the program changes. -/
theorem assertions_hold_lake : ∃ connection, run step init lakeConnection = some connection ∧
    ∃ next, connection.step (.refreshAuthToken (some ())) = some next :=
  ⟨_, rfl, assertions_hold along_lakeConnection rfl trivial⟩

end PersistentConnection

end PhotoMap
