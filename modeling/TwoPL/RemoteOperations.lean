/-
# Operations at other nodes

`execute_remote_operation` sends an `op_req` and waits for the `op_resp`.  The value travels in two
steps: the handler on the other side puts it in a JSON value, and `handle_operation_response` puts
it in `remote_results[tx_id][key]`, from where the waiting call takes it.

Two things get lost on this way.

* ABSENCE.  A read of a key without a list is answered with `null`, and `null` is stored as an EMPTY
  list.  A remote read agrees with a local one exactly on the keys that have a list
  (`remote_read_eq_local_iff`).
* WHICH OPERATION IT WAS.  A response names the transaction and the key, and that is all the waiting
  call looks for.  When a wait times out, the transaction goes on; if a later operation of it is on
  the same key, the late answer to the earlier one ends its wait and is returned in its place
  (`late_response_returned`).  As long as no late response is handled while an operation on its key
  is in progress, every operation returns its own response (`remote_operation_own_response`).
-/
import TwoPL.Cluster
import TwoPL.OpenNode

namespace TwoPL

open Lib

/-! ## 1. A remote read and a local read -/

/-- The response a handler is about to send. -/
def Handler.response : Handler → Option Message
  | .acquiring _ _ _ => none
  | .responding msg => some msg

/-- A read of `key` by the call `t` on the node `n`, from the handling of its `op_req` on the node
`p` to the step of the call that retrieves the result.  `self` and `peer` are the numbers of `n` and
`p`. -/
def remoteRead (n p : Node) (self peer : NodeID) (t : TxnThread) (key : KeyType) :
    Option TxnStep := do
  let (_, handler) ← handlePeerMessage p self (Message.opReq t.txId (.read key)).toJson
  let response ← handler.bind Handler.response
  let (n', _) ← handlePeerMessage n peer response.toJson
  let awake ← stepTxn n' t {}
  stepTxn awake.node awake.thread {}

/-- The call has sent its read of `key` to `peer` and is waiting, or about to. -/
def WaitsForRead (n : Node) (peer : NodeID) (t : TxnThread) (key : KeyType)
    (rest : List Operation) (results : Results) : Prop :=
  n.primary key = peer ∧
    (t.pc = .opChecking (.read key) rest results ∨ t.pc = .opWaiting (.read key) rest results)

section Read

variable {n p : Node} {peer : NodeID} {t : TxnThread} {key : KeyType}
  {rest : List Operation} {results : Results}

/-- The handler of a response stores its value and ends the wait. -/
theorem handleOperationResponse_spec (n : Node) (peer : NodeID) (txId : TransactionId)
    (key : KeyType) (values : ValueContainer) :
    (n.handleOperationResponse peer txId key values).remoteResult txId key = some values ∧
      (n.handleOperationResponse peer txId key values).opPending txId (peer, key) = false := by
  constructor
  · simp [Node.handleOperationResponse, Node.remoteResult]
  · simp [Node.handleOperationResponse, Node.erasePendingOp, Node.opPending]

/-- A handled response, in memory. -/
theorem handlePeerMessage_opResp (hmutex : n.distributedMutex = false) (peer : NodeID)
    (txId : TransactionId) (key : KeyType) (result : Option ValueContainer) :
    handlePeerMessage n peer (Message.opResp txId key result).toJson =
      some (n.handleOperationResponse peer txId key (result.getD []), none) := by
  simp [handlePeerMessage, dispatch_toJson, Message.dispatched, hmutex]

/-- A call whose response is there retrieves it with its next two steps. -/
theorem stepTxn_retrieves (hmutex : n.distributedMutex = false)
    (ht : WaitsForRead n peer t key rest results)
    (hanswered : n.opPending t.txId (peer, key) = false) :
    ((stepTxn n t {}).bind fun awake => stepTxn awake.node awake.thread {}) = some
      { node := n
        thread := t.goto (.executing rest
          (collect results (.read key) (.remote (n.remoteResult t.txId key))))
        event := some (.ran (.read key) (.remote (n.remoteResult t.txId key))) } := by
  obtain ⟨hprimary, hpc⟩ := ht
  have hawake : stepTxn n t {} = some
      { node := n, thread := t.goto (.opRetrieving (.read key) rest results) } := by
    rcases hpc with hpc | hpc
    · simp [stepTxn, hpc, TxnThread.stepOpChecking, hmutex, Operation.key, hprimary, hanswered]
    · simp [stepTxn, hpc, TxnThread.stepOpWaiting, hmutex, Operation.key, hprimary, hanswered]
  rw [hawake]
  simp [stepTxn, TxnThread.goto, TxnThread.stepOpRetrieving, hmutex, Operation.key]

/-- **What a remote read comes to**: a key without a list is read as an empty list. -/
theorem remoteRead_eq (self : NodeID) (hmutex : n.distributedMutex = false)
    (ht : WaitsForRead n peer t key rest results) :
    ∃ node, remoteRead n p self peer t key = some
      { node := node
        thread := t.goto (.executing rest
          (collect results (.read key) (.remote (some ((p.store.get key).getD [])))))
        event := some (.ran (.read key) (.remote (some ((p.store.get key).getD [])))) } := by
  obtain ⟨hresult, hpending⟩ :=
    handleOperationResponse_spec n peer t.txId key ((p.store.get key).getD [])
  have hrequest : handlePeerMessage p self (Message.opReq t.txId (.read key)).toJson =
      some (p, some (.responding (.opResp t.txId key (p.store.get key)))) := by
    simp [handlePeerMessage, dispatch_toJson, Message.dispatched, Node.handleOperationRequest,
      NaiveOpExecutor.accept, Operation.key]
  refine ⟨n.handleOperationResponse peer t.txId key ((p.store.get key).getD []), ?_⟩
  have hretrieves := stepTxn_retrieves
    (n := n.handleOperationResponse peer t.txId key ((p.store.get key).getD [])) hmutex ht hpending
  rw [hresult] at hretrieves
  rw [← hretrieves]
  simp only [remoteRead, hrequest, Handler.response, Option.bind_eq_bind, Option.bind_some,
    handlePeerMessage_opResp hmutex]

/-- **A remote read returns what a local read would** exactly when the key has a list: the value,
and the pair in the result vector. -/
theorem remote_read_eq_local_iff (n p : Node) (self peer : NodeID) (t : TxnThread) (key : KeyType)
    (rest : List Operation) (results : Results) (hmutex : n.distributedMutex = false)
    (ht : WaitsForRead n peer t key rest results) :
    (∃ step, remoteRead n p self peer t key = some step ∧
      step.event = some (.ran (.read key)
        (.remote (NaiveOpExecutor.accept p.store (.read key)).2)) ∧
      step.thread.pc = .executing rest (collect results (.read key)
        (.local (NaiveOpExecutor.accept p.store (.read key)).2))) ↔
    p.store.get key ≠ none := by
  obtain ⟨node, hread⟩ := remoteRead_eq (p := p) self hmutex ht
  rw [hread]
  cases hget : p.store.get key with
  | none => simp [NaiveOpExecutor.accept, hget]
  | some values =>
    simp [NaiveOpExecutor.accept, hget, TxnThread.goto, collect, localResult, Operation.type,
      Operation.key]

/-- Node 0 of the cluster of three, and node 2 with this store. -/
def readingNode : Node := .fresh (Cluster.threeNodes.routing 0) (Cluster.emptyStores 0)

def servingNode (store : ThreadSafeKVStore) : Node := .fresh (Cluster.threeNodes.routing 2) store

/-- A call on node 0 that waits for its read of key 2. -/
def waitingRead : TxnThread where
  tx := [.read 2]
  txId := 1
  pc := .opWaiting (.read 2) [] []

theorem waitsForRead_waitingRead : WaitsForRead readingNode 2 waitingRead 2 [] [] :=
  ⟨by decide, .inr rfl⟩

/-- A key with one element. -/
theorem remote_read_eq_local_present :
    ∃ step, remoteRead readingNode (servingNode ((Cluster.emptyStores 2).append 2 7)) 0 2
        waitingRead 2 = some step ∧
      step.event = some (.ran (.read 2) (.remote (NaiveOpExecutor.accept
        (servingNode ((Cluster.emptyStores 2).append 2 7)).store (.read 2)).2)) ∧
      step.thread.pc = .executing [] (collect [] (.read 2) (.local (NaiveOpExecutor.accept
        (servingNode ((Cluster.emptyStores 2).append 2 7)).store (.read 2)).2)) :=
  (remote_read_eq_local_iff _ _ _ _ _ _ [] [] rfl waitsForRead_waitingRead).mpr (by decide)

/-- **A key without a list**: the remote read returns an empty list, the local one nothing. -/
theorem absent_key_read_as_empty :
    WaitsForRead readingNode 2 waitingRead 2 [] [] ∧
      (NaiveOpExecutor.accept (servingNode (Cluster.emptyStores 2)).store (.read 2)).2 = none ∧
      (remoteRead readingNode (servingNode (Cluster.emptyStores 2)) 0 2 waitingRead 2).map
        (fun step => (step.event, step.thread.pc))
          = some (some (.ran (.read 2) (.remote (some []))), .executing [] [(2, some [])]) ∧
      ¬ ∃ step, remoteRead readingNode (servingNode (Cluster.emptyStores 2)) 0 2 waitingRead 2
          = some step ∧
        step.event = some (.ran (.read 2) (.remote (NaiveOpExecutor.accept
          (servingNode (Cluster.emptyStores 2)).store (.read 2)).2)) := by
  have hlocal : (NaiveOpExecutor.accept (servingNode (Cluster.emptyStores 2)).store (.read 2)).2
      = none := by decide
  obtain ⟨node, hread⟩ := remoteRead_eq (p := servingNode (Cluster.emptyStores 2)) 0 rfl
    waitsForRead_waitingRead
  have hget : ((servingNode (Cluster.emptyStores 2)).store.get 2).getD [] = [] := by decide
  rw [hget] at hread
  refine ⟨waitsForRead_waitingRead, hlocal, by rw [hread]; rfl, ?_⟩
  rintro ⟨step, hstep, hevent⟩
  rw [hread, Option.some.injEq] at hstep
  rw [← hstep, hlocal] at hevent
  exact absurd hevent (by simp)

end Read

/-! ## 2. One call and the responses to its operations -/

/-- The operation a call has begun at another node and not finished. -/
def Pc.remoteOp : Pc → Option Operation
  | .opSending op _ _ | .opChecking op _ _ | .opWaiting op _ _ | .opRetrieving op _ _ => some op
  | _ => none

/-- What is recorded of the operations, each with its number among those the call has begun. -/
inductive RemoteEvent
  /-- `handle_operation_request` of a peer has sent the response to operation `i`. -/
  | answered (i : ℕ) (op : Operation) (response : Message)
  /-- `handle_operation_response` has handled it. -/
  | processed (i : ℕ) (response : Message)
  /-- `execute_remote_operation` has returned a value for operation `i`. -/
  | returned (i : ℕ) (op : Operation) (values : ValueContainer)
  deriving DecidableEq

/-- A call on a node, and what is under way between the node and its peers. -/
structure RemoteOps where
  node : Node
  thread : TxnThread
  /-- The operations begun so far, the current one last. -/
  begun : List Operation
  /-- The requests a peer has not handled. -/
  requests : NodeID → List (ℕ × Operation)
  /-- The responses a peer has sent, first in first out. -/
  responses : NodeID → List (ℕ × Message)
  hist : List RemoteEvent

inductive RemoteLabel
  /-- A step of the call. -/
  | call (c : Choice)
  /-- `peer`, in the state `p`, handles one of the requests of the call. -/
  | answer (peer : NodeID) (pos : ℕ) (p : Node)
  /-- The next response from `peer` is handled. -/
  | deliver (peer : NodeID)
  /-- Anything else happens on the node. -/
  | env (n : Node)

namespace RemoteOps

/-- A call that has not been made, on any node. -/
def initial (n : Node) (tx : Transaction) : RemoteOps where
  node := n
  thread := .fresh tx
  begun := []
  requests := fun _ => []
  responses := fun _ => []
  hist := []

/-- What other transactions and other messages leave alone: the routing, and the entries of the
call's own id. -/
def meanwhile (w : RemoteOps) (n : Node) : Node :=
  { n with
    routing := w.node.routing
    pendingRemoteOps := Function.update n.pendingRemoteOps w.thread.txId
      (w.node.pendingRemoteOps w.thread.txId)
    remoteResults := Function.update n.remoteResults w.thread.txId
      (w.node.remoteResults w.thread.txId) }

/-- The operation a step of the call begins. -/
def begins (r : TxnStep) : List Operation :=
  match r.thread.pc with
  | .opSending op _ _ => [op]
  | _ => []

/-- The request a step of the call sends. -/
def request (r : TxnStep) : Option (NodeID × Operation) :=
  match r.sent with
  | some (dest, .opReq _ op) => some (dest, op)
  | _ => none

/-- The value a step of the call returns for its operation. -/
def value (r : TxnStep) : Option (Operation × ValueContainer) :=
  match r.event with
  | some (.ran op (.remote (some values))) => some (op, values)
  | _ => none

/-- The number of the current operation. -/
def current (w : RemoteOps) : ℕ := w.begun.length - 1

def step (w : RemoteOps) : RemoteLabel → Option RemoteOps
  | .call c =>
    (stepTxn w.node w.thread c).map fun r =>
      { w with
        node := r.node
        thread := r.thread
        begun := w.begun ++ begins r
        requests := match request r with
          | some (dest, op) =>
            Function.update w.requests dest (w.requests dest ++ [(w.current, op)])
          | none => w.requests
        hist := w.hist ++ (value r).toList.map fun v => .returned w.current v.1 v.2 }
  | .answer peer pos p =>
    (w.requests peer)[pos]?.map fun q =>
      let response := (p.handleOperationRequest w.thread.txId q.2.key (some q.2)).2
      { w with
        requests := Function.update w.requests peer ((w.requests peer).eraseIdx pos)
        responses := Function.update w.responses peer (w.responses peer ++ [(q.1, response)])
        hist := w.hist ++ [.answered q.1 q.2 response] }
  | .deliver peer =>
    match w.responses peer with
    | [] => none
    | (i, response) :: rest =>
      (handlePeerMessage w.node peer response.toJson).map fun x =>
        { w with
          node := x.1
          responses := Function.update w.responses peer rest
          hist := w.hist ++ [.processed i response] }
  | .env n => some { w with node := w.meanwhile n }

/-- The key of a response. -/
def responseKey : Message → Option KeyType
  | .opResp _ key _ => some key
  | _ => none

/-- A response is handled only if no operation on its key is in progress, or if it is the response
to that one. -/
def onTime (w : RemoteOps) : RemoteLabel → Bool
  | .deliver peer =>
    match w.responses peer with
    | [] => true
    | (i, response) :: _ =>
      match w.thread.pc.remoteOp with
      | none => true
      | some op => responseKey response ≠ some op.key || i = w.current
  | _ => true

/-- **Every value comes from the operation's own response**: the response that some peer sent for
this very operation has been handled, and the value is what it carries. -/
def OwnResponses (w : RemoteOps) : Prop :=
  ∀ i op values, .returned i op values ∈ w.hist →
    ∃ result, .answered i op (.opResp w.thread.txId op.key result) ∈ w.hist ∧
      .processed i (.opResp w.thread.txId op.key result) ∈ w.hist ∧ values = result.getD []

/-! ## 3. What a step of the call does to its operation -/

section Effect

variable {n : Node} {t : TxnThread} {c : Choice} {r : TxnStep}

/-- **A step of a call, as its remote operations see it**: it begins one, goes on with it, or leaves
it, with the stored result if it returns one. -/
theorem remote_effect (h : TxnStepped n t c r) :
    (∃ op, r.thread.pc.remoteOp = some op ∧ begins r = [op] ∧ request r = none ∧ value r = none ∧
      (∀ rest results, r.thread.pc ≠ .opRetrieving op rest results) ∧
      r.node = n.insertPendingOp t.txId (n.primary op.key, op.key)) ∨
    (∃ op, t.pc.remoteOp = some op ∧ r.thread.pc.remoteOp = some op ∧ begins r = [] ∧
      (∀ q, request r = some q → q.2 = op) ∧ value r = none ∧ r.node = n) ∨
    (r.thread.pc.remoteOp = none ∧ begins r = [] ∧ request r = none ∧
      ∀ op values, value r = some (op, values) →
        (∃ rest results, t.pc = .opRetrieving op rest results) ∧
        n.remoteResult t.txId op.key = some values) := by
  cases h with
  | opBegin _ _ _ =>
    exact .inl ⟨_, rfl, rfl, rfl, rfl, by simp [TxnThread.goto], rfl⟩
  | opSent hpc _ =>
    refine .inr (.inl ⟨_, by rw [hpc]; rfl, rfl, rfl, fun q hq => ?_, rfl, rfl⟩)
    simp only [request, Option.some.injEq] at hq
    rw [← hq]
  | opChecked hpc => exact .inr (.inl ⟨_, by rw [hpc]; rfl, rfl, rfl, by simp [request], rfl, rfl⟩)
  | opAnswered hpc =>
    refine .inr (.inl ⟨_, ?_, rfl, rfl, by simp [request], rfl, rfl⟩)
    rcases hpc with hpc | hpc <;> rw [hpc] <;> rfl
  | opSleptOn hpc =>
    exact .inr (.inl ⟨_, by rw [hpc]; rfl, by rw [hpc]; rfl, by simp [begins, hpc],
      by simp [request], rfl, rfl⟩)
  | @opRetrieved op rest results hpc =>
    refine .inr (.inr ⟨rfl, rfl, rfl, fun op' values hv => ?_⟩)
    simp only [value] at hv
    split at hv
    · rename_i heq
      simp only [Option.some.injEq, TxnEvent.ran.injEq, Outcome.remote.injEq] at heq
      simp only [Option.some.injEq, Prod.mk.injEq] at hv
      obtain ⟨rfl, hresult⟩ := heq
      obtain ⟨rfl, rfl⟩ := hv
      exact ⟨⟨rest, results, hpc⟩, hresult⟩
    · exact absurd hv (by simp)
  | sleptOn hpc _ _ _ =>
    exact .inr (.inr ⟨by rw [hpc]; rfl, by simp [begins, hpc], rfl, by simp [value]⟩)
  | @aborting stage _ _ _ _ =>
    refine .inr (.inr ⟨rfl, rfl, rfl, ?_⟩)
    rcases stage.event_cases with hnone | ⟨key, hsome⟩
    · simp [value, hnone]
    · simp [value, hsome]
  | @releasing stage _ _ _ _ _ _ =>
    refine .inr (.inr ⟨rfl, rfl, rfl, ?_⟩)
    rcases stage.event_cases with hnone | ⟨key, hsome⟩
    · simp [value, hnone]
    · simp [value, hsome]
  | _ => exact .inr (.inr ⟨rfl, rfl, rfl, by simp [value]⟩)

/-- The call goes to retrieve the result only when its operation is not pending. -/
theorem not_opPending_of_retrieving (h : stepTxn n t c = some r) {op : Operation}
    {rest : List Operation} {results : Results}
    (hpc : r.thread.pc = .opRetrieving op rest results) :
    n.opPending t.txId (n.primary op.key, op.key) = false := by
  have hs := stepTxn_spec h
  generalize hr : r = r' at hs
  cases hs with
  | @opAnswered op' rest' results' hwaits =>
    subst hr
    obtain ⟨rfl, -, -⟩ : op' = op ∧ rest' = rest ∧ results' = results := by
      simpa [TxnThread.goto] using hpc
    by_contra hpending
    rw [Bool.not_eq_false] at hpending
    -- with the operation pending, neither test of the loop condition leaves the loop
    rcases hwaits with hwaits | hwaits
    · simp [stepTxn, hwaits, TxnThread.stepOpChecking, hpending, TxnThread.goto,
        Option.ite_none_left_eq_some] at h
    · simp only [stepTxn, hwaits, TxnThread.stepOpWaiting, hpending, if_true] at h
      split at h
      · exact absurd h (by simp)
      · split at h <;> rw [Option.some.injEq] at h
        · exact absurd (congrArg (fun r => r.thread.pc) h) (by simp [TxnThread.goto])
        · exact absurd (congrArg (fun r => r.thread.pc) h) (by simp [TxnThread.goto, hwaits])
  | sleptOn hwaits _ _ _ => rw [hr, hwaits] at hpc; exact absurd hpc (by simp)
  | opSleptOn hwaits => rw [hr, hwaits] at hpc; exact absurd hpc (by simp)
  | _ => rw [hr] at hpc; exact absurd hpc (by simp [TxnThread.goto])

end Effect

/-! ## 4. Responses in time -/

/-- The response to the current operation has been handled, and its value is the stored one. -/
def Stored (w : RemoteOps) (op : Operation) : Prop :=
  ∃ result, .answered w.current op (.opResp w.thread.txId op.key result) ∈ w.hist ∧
    .processed w.current (.opResp w.thread.txId op.key result) ∈ w.hist ∧
    w.node.remoteResult w.thread.txId op.key = some (result.getD [])

/-- The invariant of the operation in progress: while it is not pending any more, its own result is
stored. -/
structure InProgress (w : RemoteOps) (op : Operation) : Prop where
  current : w.begun[w.current]? = some op
  answered : w.node.opPending w.thread.txId (w.node.primary op.key, op.key) = true ∨ w.Stored op
  retrieving : ∀ rest results, w.thread.pc = .opRetrieving op rest results → w.Stored op

/-- The invariant. -/
structure Inv (w : RemoteOps) : Prop where
  /-- Before the call nothing is under way. -/
  idle : w.thread.pc = .idle →
    w.hist = [] ∧ (∀ peer, w.requests peer = []) ∧ ∀ peer, w.responses peer = []
  requests : ∀ peer i op, (i, op) ∈ w.requests peer → w.begun[i]? = some op
  responses : ∀ peer i msg, (i, msg) ∈ w.responses peer → ∃ op result,
    msg = .opResp w.thread.txId op.key result ∧ .answered i op msg ∈ w.hist ∧
      w.begun[i]? = some op
  progress : ∀ op, w.thread.pc.remoteOp = some op → w.InProgress op
  own : w.OwnResponses

theorem inv_initial (n : Node) (tx : Transaction) : Inv (initial n tx) where
  idle _ := ⟨rfl, fun _ => rfl, fun _ => rfl⟩
  requests _ _ _ h := absurd h (by simp [initial])
  responses _ _ _ h := absurd h (by simp [initial])
  progress _ h := absurd h (by simp [initial, TxnThread.fresh, Pc.remoteOp])
  own _ _ _ h := absurd h (by simp [initial])

section Step

variable {w w' : RemoteOps}

/-- A stored result stays stored while nothing overwrites it. -/
theorem Stored.mono {op : Operation} (h : w.Stored op) (hid : w'.thread.txId = w.thread.txId)
    (hcurrent : w'.current = w.current) (hhist : ∀ e ∈ w.hist, e ∈ w'.hist)
    (hresult : w'.node.remoteResult w.thread.txId op.key
      = w.node.remoteResult w.thread.txId op.key) : w'.Stored op := by
  obtain ⟨result, hanswered, hprocessed, hstored⟩ := h
  refine ⟨result, ?_, ?_, ?_⟩
  · rw [hid, hcurrent]
    exact hhist _ hanswered
  · rw [hid, hcurrent]
    exact hhist _ hprocessed
  · rw [hid, hresult, hstored]

/-- Values that were returned stay accounted for. -/
theorem OwnResponses.mono (h : w.OwnResponses) (hid : w'.thread.txId = w.thread.txId)
    (hhist : ∀ e ∈ w.hist, e ∈ w'.hist)
    (hnew : ∀ i op values, .returned i op values ∈ w'.hist → .returned i op values ∈ w.hist) :
    w'.OwnResponses := by
  intro i op values hret
  obtain ⟨result, hanswered, hprocessed, hvalues⟩ := h i op values (hnew i op values hret)
  rw [hid]
  exact ⟨result, hhist _ hanswered, hhist _ hprocessed, hvalues⟩

/-- A peer answers a request. -/
theorem inv_answer (h : w.Inv) {peer : NodeID} {pos : ℕ} {p : Node}
    (hs : w.step (.answer peer pos p) = some w') : w'.Inv := by
  obtain ⟨⟨i, op⟩, hq, rfl⟩ := Option.map_eq_some_iff.mp hs
  have hmem : (i, op) ∈ w.requests peer := List.mem_of_getElem? hq
  have hbegun := h.requests peer i op hmem
  obtain ⟨result, hresponse⟩ : ∃ result,
      (p.handleOperationRequest w.thread.txId op.key (some op)).2
        = .opResp w.thread.txId op.key result := ⟨_, rfl⟩
  have hhist : ∀ e ∈ w.hist, e ∈ w.hist ++ [RemoteEvent.answered i op
      (p.handleOperationRequest w.thread.txId op.key (some op)).2] :=
    fun e he => List.mem_append_left _ he
  refine ⟨fun hidle => ?_, fun peer' i' op' hr => ?_, fun peer' i' msg hr => ?_, fun op' hop => ?_,
    h.own.mono rfl hhist (by simp)⟩
  · rw [(h.idle hidle).2.1 peer] at hmem
    exact absurd hmem (by simp)
  · by_cases hpeer : peer' = peer
    · subst hpeer
      simp only [Function.update_self] at hr
      exact h.requests peer' i' op' (List.mem_of_mem_eraseIdx hr)
    · simp only [Function.update_of_ne hpeer] at hr
      exact h.requests peer' i' op' hr
  · have hold : (i', msg) ∈ w.responses peer' ∨
        (i', msg) = (i, (p.handleOperationRequest w.thread.txId op.key (some op)).2) := by
      by_cases hpeer : peer' = peer
      · subst hpeer
        simp only [Function.update_self, List.mem_append, List.mem_singleton] at hr
        exact hr
      · simp only [Function.update_of_ne hpeer] at hr
        exact .inl hr
    rcases hold with hold | hnew
    · obtain ⟨op', result', hmsg, hanswered, hb⟩ := h.responses peer' i' msg hold
      exact ⟨op', result', hmsg, hhist _ hanswered, hb⟩
    · rw [Prod.mk.injEq] at hnew
      obtain ⟨rfl, rfl⟩ := hnew
      exact ⟨op, result, hresponse, List.mem_append_right _ (List.mem_singleton.mpr rfl), hbegun⟩
  · have hold := h.progress op' hop
    exact ⟨hold.current, hold.answered.imp id fun hst => hst.mono rfl rfl hhist rfl,
      fun rest results hpc => (hold.retrieving rest results hpc).mono rfl rfl hhist rfl⟩

/-- Something else happens on the node. -/
theorem inv_env (h : w.Inv) (n : Node) : ({ w with node := w.meanwhile n } : RemoteOps).Inv := by
  have hresult : ∀ key, (w.meanwhile n).remoteResult w.thread.txId key
      = w.node.remoteResult w.thread.txId key := fun key => by
    simp [meanwhile, Node.remoteResult]
  have hpending : ∀ q, (w.meanwhile n).opPending w.thread.txId q
      = w.node.opPending w.thread.txId q := fun q => by
    simp [meanwhile, Node.opPending]
  refine ⟨h.idle, h.requests, h.responses, fun op hop => ?_, h.own⟩
  have hold := h.progress op hop
  refine ⟨hold.current, ?_, fun rest results hpc => ?_⟩
  · rw [hpending]
    exact hold.answered.imp id fun hst => hst.mono rfl rfl (fun _ he => he) (hresult op.key)
  · exact (hold.retrieving rest results hpc).mono rfl rfl (fun _ he => he) (hresult op.key)

/-- What a handled response leaves alone: the operations and results of other keys. -/
theorem handleOperationResponse_of_ne (n : Node) (peer : NodeID) (txId : TransactionId)
    {key key' : KeyType} (hne : key' ≠ key) (values : ValueContainer) (p : NodeID) :
    (n.handleOperationResponse peer txId key values).remoteResult txId key'
        = n.remoteResult txId key' ∧
      (n.handleOperationResponse peer txId key values).opPending txId (p, key')
        = n.opPending txId (p, key') := by
  constructor
  · cases hresults : n.remoteResults txId <;>
      simp [Node.handleOperationResponse, Node.remoteResult, hresults, hne]
  · simp [Node.handleOperationResponse, Node.erasePendingOp, Node.opPending, hne]

/-- A response is handled, in time. -/
theorem inv_deliver (h : w.Inv) {peer : NodeID} (hok : w.onTime (.deliver peer) = true)
    (hs : w.step (.deliver peer) = some w') : w'.Inv := by
  simp only [step] at hs
  split at hs
  · exact absurd hs (by simp)
  · rename_i i msg rest hqueue
    obtain ⟨x, hx, rfl⟩ := Option.map_eq_some_iff.mp hs
    have hhead : (i, msg) ∈ w.responses peer := by simp [hqueue]
    obtain ⟨op, result, rfl, hanswered, hbegun⟩ := h.responses peer i msg hhead
    have hmutex : w.node.distributedMutex = false := by
      by_contra hheld
      rw [Bool.not_eq_false] at hheld
      simp [handlePeerMessage, dispatch_toJson, Message.dispatched, hheld] at hx
    rw [handlePeerMessage_opResp hmutex, Option.some.injEq] at hx
    subst hx
    have hhist : ∀ e ∈ w.hist, e ∈ w.hist ++
        [RemoteEvent.processed i (.opResp w.thread.txId op.key result)] :=
      fun e he => List.mem_append_left _ he
    refine ⟨fun hidle => ?_, h.requests, fun peer' i' msg hr => ?_, fun op' hop => ?_,
      h.own.mono rfl hhist (by simp)⟩
    · rw [(h.idle hidle).2.2 peer] at hhead
      exact absurd hhead (by simp)
    · have hold : (i', msg) ∈ w.responses peer' := by
        by_cases hpeer : peer' = peer
        · subst hpeer
          simp only [Function.update_self] at hr
          exact hqueue ▸ List.mem_cons_of_mem _ hr
        · simpa only [Function.update_of_ne hpeer] using hr
      obtain ⟨op', result', hmsg, hans, hb⟩ := h.responses peer' i' msg hold
      exact ⟨op', result', hmsg, hhist _ hans, hb⟩
    · have hold := h.progress op' hop
      by_cases hkey : op'.key = op.key
      · -- the response is to the operation in progress
        have hi : i = w.current := by
          simp only [onTime, hqueue] at hok
          rw [hop] at hok
          simpa [responseKey, hkey] using hok
        have hop' : op = op' := by
          rw [hi, hold.current, Option.some.injEq] at hbegun
          exact hbegun.symm
        subst hop'
        have hst : Stored
            { w with
              node := w.node.handleOperationResponse peer w.thread.txId op.key (result.getD [])
              responses := Function.update w.responses peer rest
              hist := w.hist ++ [.processed i (.opResp w.thread.txId op.key result)] } op :=
          ⟨result, List.mem_append_left _ (hi ▸ hanswered),
            List.mem_append_right _ (by simp [hi, current]),
            (handleOperationResponse_spec _ _ _ _ _).1⟩
        exact ⟨hold.current, .inr hst, fun _ _ _ => hst⟩
      · obtain ⟨hresult, hpending⟩ := handleOperationResponse_of_ne w.node peer w.thread.txId hkey
          (result.getD []) (w.node.primary op'.key)
        refine ⟨hold.current, ?_, fun rest' results hpc => ?_⟩
        · refine hold.answered.imp (fun hp => ?_) fun hst => hst.mono rfl rfl hhist hresult
          exact hpending.trans hp
        · exact (hold.retrieving rest' results hpc).mono rfl rfl hhist hresult

/-- The state after a step of the call with the result `r`. -/
def afterCall (w : RemoteOps) (r : TxnStep) : RemoteOps :=
  { w with
    node := r.node
    thread := r.thread
    begun := w.begun ++ begins r
    requests := match request r with
      | some (dest, op) => Function.update w.requests dest (w.requests dest ++ [(w.current, op)])
      | none => w.requests
    hist := w.hist ++ (value r).toList.map fun v => .returned w.current v.1 v.2 }

/-- The call is made: nothing has been begun. -/
theorem inv_call_idle (h : w.Inv) {c : Choice} {r : TxnStep}
    (hs : TxnStepped w.node w.thread c r) (hidle : w.thread.pc = .idle) : (w.afterCall r).Inv := by
  obtain ⟨hhist, hrequests, hresponses⟩ := h.idle hidle
  cases hs with
  | call _ _ =>
    refine ⟨fun hpc => absurd hpc (by simp [afterCall]), fun peer i op hr => ?_,
      fun peer i msg hr => ?_, fun op hop => absurd hop (by simp [afterCall, Pc.remoteOp]), ?_⟩
    · have hr' : (i, op) ∈ w.requests peer := hr
      rw [hrequests peer] at hr'
      exact absurd hr' (by simp)
    · have hr' : (i, msg) ∈ w.responses peer := hr
      rw [hresponses peer] at hr'
      exact absurd hr' (by simp)
    · intro i op values hret
      simp [afterCall, hhist, value] at hret
  | opAnswered hpc => rcases hpc with hpc | hpc <;> simp [hidle] at hpc
  | _ => simp_all

/-- What was begun keeps its number. -/
theorem getElem?_begun {i : ℕ} {op : Operation} (h : w.begun[i]? = some op)
    (more : List Operation) : (w.begun ++ more)[i]? = some op := by
  obtain ⟨hlt, -⟩ := List.getElem?_eq_some_iff.mp h
  rw [List.getElem?_append_left hlt]
  exact h

/-- The parts of the invariant that a step of the call keeps whatever it does, when the request it
sends is for the current operation. -/
theorem inv_afterCall (h : w.Inv) {c : Choice} {r : TxnStep}
    (hs : TxnStepped w.node w.thread c r) (hcalled : w.thread.pc ≠ .idle)
    (hrequest : ∀ q, request r = some q → w.begun[w.current]? = some q.2)
    (hprogress : ∀ op, r.thread.pc.remoteOp = some op → (w.afterCall r).InProgress op)
    (hown : (w.afterCall r).OwnResponses) : (w.afterCall r).Inv := by
  obtain ⟨hid, hpc, -⟩ := hs.id_of_called hcalled
  refine ⟨fun hidle => absurd hidle hpc, fun peer i op hr => ?_, fun peer i msg hr => ?_, hprogress,
    hown⟩
  · refine getElem?_begun ?_ (begins r)
    cases hreq : request r with
    | none =>
      simp only [afterCall, hreq] at hr
      exact h.requests peer i op hr
    | some q =>
      obtain ⟨dest, op'⟩ := q
      simp only [afterCall, hreq] at hr
      by_cases hpeer : peer = dest
      · subst hpeer
        simp only [Function.update_self, List.mem_append, List.mem_singleton, Prod.mk.injEq] at hr
        rcases hr with hr | ⟨rfl, rfl⟩
        · exact h.requests peer i op hr
        · exact hrequest _ hreq
      · simp only [Function.update_of_ne hpeer] at hr
        exact h.requests peer i op hr
  · obtain ⟨op, result, hmsg, hanswered, hbegun⟩ := h.responses peer i msg hr
    exact ⟨op, result, hid.symm ▸ hmsg, List.mem_append_left _ hanswered,
      getElem?_begun hbegun (begins r)⟩

/-- A step of the call. -/
theorem inv_call (h : w.Inv) {c : Choice} (hs : w.step (.call c) = some w') : w'.Inv := by
  obtain ⟨r, hr, rfl⟩ := Option.map_eq_some_iff.mp hs
  have hstepped := stepTxn_spec hr
  by_cases hidle : w.thread.pc = .idle
  · exact inv_call_idle h hstepped hidle
  have hid := (hstepped.id_of_called hidle).1
  have hprimary : ∀ key, r.node.primary key = w.node.primary key := fun key => by
    rw [Node.primary, hstepped.routing_eq, Node.primary]
  rcases remote_effect hstepped with ⟨op, hop, hbegins, hrequest, hvalue, hpc, hnode⟩ |
    ⟨op, hold, hop, hbegins, hrequest, hvalue, hnode⟩ | ⟨hop, hbegins, hrequest, hvalue⟩
  · -- an operation begins: it is pending
    refine inv_afterCall h hstepped hidle (by simp [hrequest]) (fun op' hop' => ?_)
      (h.own.mono hid (fun e he => List.mem_append_left _ he) (by simp [afterCall, hvalue]))
    obtain rfl : op = op' := Option.some.inj (hop.symm.trans hop')
    refine ⟨by simp [afterCall, current, hbegins], .inl ?_, fun rest results h' =>
      absurd h' (hpc rest results)⟩
    simp only [afterCall, hid, hprimary]
    simp [hnode, Node.insertPendingOp, Node.opPending]
  · -- it goes on: nothing changes but the request, and the end of the wait
    have hin := h.progress op hold
    have hcurrent : (w.afterCall r).current = w.current := by simp [afterCall, current, hbegins]
    have hmono : w.Stored op → (w.afterCall r).Stored op := fun hst =>
      hst.mono hid hcurrent (fun e he => List.mem_append_left _ he) (by simp [afterCall, hnode])
    refine inv_afterCall h hstepped hidle (fun q hq => hrequest q hq ▸ hin.current)
      (fun op' hop' => ?_)
      (h.own.mono hid (fun e he => List.mem_append_left _ he) (by simp [afterCall, hvalue]))
    obtain rfl : op = op' := Option.some.inj (hop.symm.trans hop')
    refine ⟨?_, ?_, fun rest results hretrieving => ?_⟩
    · rw [hcurrent]
      exact getElem?_begun hin.current (begins r)
    · refine hin.answered.imp (fun hp => ?_) hmono
      simpa only [afterCall, hid, hnode] using hp
    · have hnot := not_opPending_of_retrieving hr hretrieving
      exact hmono (hin.answered.resolve_left (by simp [hnot]))
  · -- it is left, and a value is the stored one
    refine inv_afterCall h hstepped hidle (by simp [hrequest])
      (fun op' hop' => absurd (hop.symm.trans hop') (by simp)) fun i op values hret => ?_
    simp only [afterCall, List.mem_append, List.mem_map, Option.mem_toList] at hret
    rcases hret with hret | ⟨⟨op', values'⟩, hv, heq⟩
    · obtain ⟨result, hanswered, hprocessed, hvalues⟩ := h.own i op values hret
      rw [show (w.afterCall r).thread.txId = w.thread.txId from hid]
      exact ⟨result, List.mem_append_left _ hanswered, List.mem_append_left _ hprocessed, hvalues⟩
    · simp only [RemoteEvent.returned.injEq] at heq
      obtain ⟨rfl, rfl, rfl⟩ := heq
      obtain ⟨⟨rest, results, hpc⟩, hresult⟩ := hvalue _ _ hv
      have hin := h.progress op' (by rw [hpc]; rfl)
      obtain ⟨result, hanswered, hprocessed, hstored⟩ := hin.retrieving rest results hpc
      rw [show (w.afterCall r).thread.txId = w.thread.txId from hid]
      rw [hresult, Option.some.injEq] at hstored
      exact ⟨result, List.mem_append_left _ hanswered, List.mem_append_left _ hprocessed, hstored⟩

theorem inv_step (h : w.Inv) {l : RemoteLabel} (hok : w.onTime l = true)
    (hs : w.step l = some w') : w'.Inv := by
  cases l with
  | call c => exact inv_call h hs
  | answer peer pos p => exact inv_answer h hs
  | deliver peer => exact inv_deliver h hok hs
  | env n =>
    rw [step, Option.some.injEq] at hs
    exact hs ▸ inv_env h n

end Step

theorem inv_of_run {n : Node} {tx : Transaction} {w : RemoteOps}
    (h : Run step (fun w l => w.onTime l = true) (initial n tx) w) : w.Inv :=
  h.invariant (inv_initial n tx) fun _ _ _ hinv hok hs => inv_step hinv hok hs

/-- **A remote operation returns its own response**, in every run in which no late response is
handled while an operation of the call on its key is in progress. -/
theorem remote_operation_own_response (n : Node) (tx : Transaction) {w : RemoteOps}
    (h : Run step (fun w l => w.onTime l = true) (initial n tx) w) : w.OwnResponses :=
  (inv_of_run h).own

/-- An append to key 2 and a read of it, called on node 0: up to the end of the append's wait, which
times out. -/
def appendTimesOut : List RemoteLabel :=
  [.call {}, .call { pairs := [(2, 2)] }, .call {}, .call {}, .env readingNode, .call {},
    .call {}, .call {}, .call {}, .call { timeout := true }]

/-- Node 2, with this store, answers the request that waits longest, and its answer is handled. -/
def answersNext (store : ThreadSafeKVStore) : List RemoteLabel :=
  [.answer 2 0 (servingNode store), .deliver 2]

/-- The read begins, is sent and tests for its answer. -/
def beginRead : List RemoteLabel := [.call {}, .call {}, .call {}]

/-- The read retrieves what is there. -/
def endRead : List RemoteLabel := [.call {}, .call {}]

/-- The answer to the append comes before the read begins. -/
def lateInTime : List RemoteLabel :=
  appendTimesOut ++ answersNext (Cluster.emptyStores 2) ++ beginRead ++
    answersNext ((Cluster.emptyStores 2).append 2 5) ++ endRead

theorem remote_operation_own_response_late :
    ∃ w, Run step (fun w l => w.onTime l = true) (initial readingNode [.append 2 5, .read 2]) w ∧
      .returned 1 (.read 2) [5] ∈ w.hist ∧ w.OwnResponses := by
  have hrun : ((runChecked step onTime (initial readingNode [.append 2 5, .read 2])
      lateInTime).map fun w => decide (.returned 1 (.read 2) [5] ∈ w.hist)) = some true := by
    decide +kernel
  obtain ⟨w, hw, hmem⟩ := Option.map_eq_some_iff.mp hrun
  have hr := run_of_runChecked _ .refl hw
  exact ⟨w, hr, of_decide_eq_true hmem, remote_operation_own_response _ _ hr⟩

/-- The answer to the append comes while the read waits. -/
def lateDuringRead : List RemoteLabel :=
  appendTimesOut ++ beginRead ++ answersNext (Cluster.emptyStores 2) ++ endRead

/-- **The late answer to the append is returned as the value of the read**, which no peer has
answered. -/
theorem late_response_returned :
    ∃ w, Reachable step (initial readingNode [.append 2 5, .read 2]) w ∧
      w.hist = [.answered 0 (.append 2 5) (.opResp 1 2 none), .processed 0 (.opResp 1 2 none),
        .returned 1 (.read 2) []] ∧
      ¬ w.OwnResponses := by
  have hrun : ((runLabels step (initial readingNode [.append 2 5, .read 2])
      lateDuringRead).map fun w => decide (w.hist = [.answered 0 (.append 2 5) (.opResp 1 2 none),
        .processed 0 (.opResp 1 2 none), .returned 1 (.read 2) []])) = some true := by
    decide +kernel
  obtain ⟨w, hw, hfacts⟩ := Option.map_eq_some_iff.mp hrun
  have hhist := of_decide_eq_true hfacts
  refine ⟨w, reachable_of_runLabels _ hw, hhist, fun hown => ?_⟩
  obtain ⟨result, hanswered, -, -⟩ := hown 1 (.read 2) [] (by simp [hhist])
  simp [hhist] at hanswered

end RemoteOps

end TwoPL
