/-
# The scheduler: one node, and one call of `execute_transaction`

`TwoPLScheduler.cpp`.  A call of `execute_transaction` is a small program (`Pc`): take an id,
acquire the local keys one poll at a time, ask the primaries of the remote keys and wait for
their answers, run the operations one by one, give everything back.  `stepTxn` is one step of
one call on one node; `Choice` holds what the environment decides in that step:

* `keys`, `pairs`: the order in which an unordered container is iterated;
* `throws`: whether the `TransactionServer::send` of this step throws;
* `timeout`: whether a `wait_until` of this step reports a timeout.

A step is as large as the mutexes make it: one section of the lock manager, one store access,
one send, or one section of `distributed_mutex`.  That mutex is HELD across the sends of
`acquire_remote_locks_with_retry` (`distributedMutex`), so no response is handled in between.

`operator[]` on the three bookkeeping maps creates the entry it does not find, and the model
creates it too.

The other half of the file is the message handlers, as functions on a node.  The only handler
that is not one step is that of a lock request, which polls (`Handler`).
-/
import Mathlib.Data.Finmap
import TwoPL.Coordinator
import TwoPL.Json
import TwoPL.LockManager

namespace TwoPL

/-! ## 1. The node -/

/-- Node to keys, an element of `pending_remote_locks`. -/
abbrev NodeKeys := Finmap (fun _ : NodeID => Finset KeyType)

/-- The (node, key) pairs that two nested loops over the map visit. -/
def NodeKeys.pairs (m : NodeKeys) : Finset (NodeID × KeyType) :=
  m.keys.biUnion fun n => ((m.lookup n).getD ∅).image fun k => (n, k)

/-- `m[node].insert(key)`. -/
def NodeKeys.add (m : NodeKeys) (p : NodeID × KeyType) : NodeKeys :=
  m.insert p.1 (insert p.2 ((m.lookup p.1).getD ∅))

theorem NodeKeys.mem_pairs {m : NodeKeys} {q : NodeID × KeyType} :
    q ∈ m.pairs ↔ q.2 ∈ (m.lookup q.1).getD ∅ := by
  obtain ⟨n, k⟩ := q
  simp only [NodeKeys.pairs, Finset.mem_biUnion, Finset.mem_image, Prod.mk.injEq]
  constructor
  · rintro ⟨n', -, k', hk, rfl, rfl⟩
    exact hk
  · intro hk
    refine ⟨n, ?_, k, hk, rfl, rfl⟩
    -- a key in the set of a node: the node is in the map
    by_contra hn
    rw [Finmap.mem_keys, ← Finmap.lookup_eq_none] at hn
    exact absurd hk (by simp [hn])

@[simp] theorem NodeKeys.pairs_empty : NodeKeys.pairs ∅ = ∅ := rfl

theorem NodeKeys.pairs_add (m : NodeKeys) (p : NodeID × KeyType) :
    (m.add p).pairs = insert p m.pairs := by
  ext ⟨n, k⟩
  obtain ⟨n', k'⟩ := p
  simp only [NodeKeys.add, NodeKeys.mem_pairs, Finset.mem_insert, Prod.mk.injEq]
  by_cases hn : n = n'
  · subst hn
    simp
  · simp [Finmap.lookup_insert_of_ne _ hn, hn]

/-- The loop that fills the pending map adds the pairs it visits. -/
theorem NodeKeys.pairs_foldl_add (l : List (NodeID × KeyType)) (m : NodeKeys) :
    (l.foldl NodeKeys.add m).pairs = m.pairs ∪ l.toFinset := by
  induction l generalizing m with
  | nil => simp
  | cons p l ih =>
    rw [List.foldl_cons, ih, NodeKeys.pairs_add]
    ext q
    simp only [Finset.mem_union, Finset.mem_insert, List.mem_toFinset, List.mem_cons]
    tauto

/-- A scheduler.  `distributedMutex` says whether `distributed_mutex` is held between two
steps. -/
structure Node where
  routing : Routing
  nextTxId : TransactionId
  lockManager : LockManager
  store : ThreadSafeKVStore
  distributedMutex : Bool
  pendingRemoteLocks : TransactionId → Option NodeKeys
  pendingRemoteOps : TransactionId → Option (Finset (NodeID × KeyType))
  remoteResults : TransactionId → Option (KeyType → Option ValueContainer)

/-- A node right after `start`. -/
def Node.fresh (routing : Routing) (store : ThreadSafeKVStore) : Node where
  routing := routing
  nextTxId := 1
  lockManager := .empty
  store := store
  distributedMutex := false
  pendingRemoteLocks := fun _ => none
  pendingRemoteOps := fun _ => none
  remoteResults := fun _ => none

namespace Node

/-- The primary of a key, as this node sees it. -/
def primary (n : Node) (key : KeyType) : NodeID := n.routing.primary key

/-- The keys of `node_to_keys[local_node_id]`. -/
def localKeys (n : Node) (tx : Transaction) : Finset KeyType :=
  (tx.map Operation.key).toFinset.filter fun k => n.primary k = n.routing.localNodeId

/-- The pairs of `node_to_keys` for the other nodes. -/
def remotePairs (n : Node) (tx : Transaction) : Finset (NodeID × KeyType) :=
  ((tx.map Operation.key).toFinset.filter fun k => n.primary k ≠ n.routing.localNodeId).image
    fun k => (n.primary k, k)

/-- Both depend on the routing of the node and on nothing else of it. -/
theorem localKeys_congr {n n' : Node} (h : n'.routing = n.routing) (tx : Transaction) :
    n'.localKeys tx = n.localKeys tx := by
  unfold localKeys primary
  rw [h]

theorem remotePairs_congr {n n' : Node} (h : n'.routing = n.routing) (tx : Transaction) :
    n'.remotePairs tx = n.remotePairs tx := by
  unfold remotePairs primary
  rw [h]

/-- `pending_remote_locks[tx_id]`, which creates the entry. -/
def pendingLocks (n : Node) (txId : TransactionId) : NodeKeys :=
  (n.pendingRemoteLocks txId).getD ∅

/-- Lines 447-452: every requested pair goes into the pending map. -/
def initPending (n : Node) (txId : TransactionId) (pairs : List (NodeID × KeyType)) : Node :=
  { n with
    pendingRemoteLocks := Function.update n.pendingRemoteLocks txId
      (some (pairs.foldl NodeKeys.add (n.pendingLocks txId))) }

/-- The entry after a test `pending_remote_locks[tx_id].empty()`. -/
def touchPending (n : Node) (txId : TransactionId) : Node :=
  { n with
    pendingRemoteLocks := Function.update n.pendingRemoteLocks txId
      (some (n.pendingLocks txId)) }

def erasePending (n : Node) (txId : TransactionId) : Node :=
  { n with pendingRemoteLocks := Function.update n.pendingRemoteLocks txId none }

@[simp] theorem pendingLocks_initPending (n : Node) (txId : TransactionId)
    (pairs : List (NodeID × KeyType)) :
    (n.initPending txId pairs).pendingLocks txId
      = pairs.foldl NodeKeys.add (n.pendingLocks txId) := by
  simp [initPending, pendingLocks]

@[simp] theorem pendingLocks_touchPending (n : Node) (txId txId' : TransactionId) :
    (n.touchPending txId').pendingLocks txId = n.pendingLocks txId := by
  by_cases h : txId = txId'
  · subst h
    simp [touchPending, pendingLocks]
  · simp [touchPending, pendingLocks, Function.update_of_ne h]

theorem pendingLocks_erasePending (n : Node) (txId txId' : TransactionId) :
    (n.erasePending txId').pendingLocks txId
      = if txId = txId' then ∅ else n.pendingLocks txId := by
  split
  · rename_i h
    subst h
    simp [erasePending, pendingLocks]
  · rename_i h
    simp [erasePending, pendingLocks, Function.update_of_ne h]

/-- `pending_remote_ops[tx_id].insert({target_node, key})`. -/
def insertPendingOp (n : Node) (txId : TransactionId) (p : NodeID × KeyType) : Node :=
  { n with
    pendingRemoteOps := Function.update n.pendingRemoteOps txId
      (some (insert p ((n.pendingRemoteOps txId).getD ∅))) }

/-- `pending_remote_ops[tx_id].erase({target_node, key})`. -/
def erasePendingOp (n : Node) (txId : TransactionId) (p : NodeID × KeyType) : Node :=
  { n with
    pendingRemoteOps := Function.update n.pendingRemoteOps txId
      (some (((n.pendingRemoteOps txId).getD ∅).erase p)) }

/-- The condition of the waiting loop of `execute_remote_operation`. -/
def opPending (n : Node) (txId : TransactionId) (p : NodeID × KeyType) : Bool :=
  p ∈ (n.pendingRemoteOps txId).getD ∅

/-- Lines 551-556: the stored result, if there is one. -/
def remoteResult (n : Node) (txId : TransactionId) (key : KeyType) : Option ValueContainer :=
  (n.remoteResults txId).bind fun results => results key

end Node

/-! ## 2. A call of `execute_transaction` -/

/-- Where a call is. -/
inductive Pc
  /-- Not called yet. -/
  | idle
  /-- `acquire_all_locks`: these local keys are still to lock, the first one is being
  acquired. -/
  | locking (todo : List KeyType) (stage : AcquireStage)
  /-- `acquire_all_locks` gives up: `release_all`, then `return false`. -/
  | aborting (stage : ReleaseAllStage)
  /-- `acquire_remote_locks_with_retry`: these requests are still to send. -/
  | requesting (todo : List (NodeID × KeyType))
  /-- ... asleep in `wait_until`. -/
  | waiting
  /-- ... timed out: these releases are still to send. -/
  | timingOut (todo : List (NodeID × KeyType))
  /-- Phase 2: these operations are still to run. -/
  | executing (rest : List Operation) (results : Results)
  /-- `execute_remote_operation`: about to send, about to test the loop condition, asleep in
  `wait_until`, about to retrieve the result. -/
  | opSending (op : Operation) (rest : List Operation) (results : Results)
  | opChecking (op : Operation) (rest : List Operation) (results : Results)
  | opWaiting (op : Operation) (rest : List Operation) (results : Results)
  | opRetrieving (op : Operation) (rest : List Operation) (results : Results)
  /-- Phase 3, `release_all_locks`: the local part.  `rethrow` when it is the one of the
  `catch` block. -/
  | releasing (stage : ReleaseAllStage) (results : Results) (rethrow : Bool)
  /-- ... the messages. -/
  | sendingReleases (todo : List (NodeID × KeyType)) (results : Results) (rethrow : Bool)
  | returned (results : Results)
  | threw
  deriving DecidableEq

/-- The call has been made and has neither returned nor thrown. -/
def Pc.live : Pc → Bool
  | .idle | .returned _ | .threw => false
  | _ => true

/-- The call is in `acquire_remote_locks_with_retry`. -/
def Pc.asking : Pc → Bool
  | .requesting _ | .waiting | .timingOut _ => true
  | _ => false

/-- After the locks and before the end: the operations and the releases. -/
def Pc.running : Pc → Bool
  | .executing _ _ => true
  | .opSending _ _ _ => true
  | .opChecking _ _ _ => true
  | .opWaiting _ _ _ => true
  | .opRetrieving _ _ _ => true
  | .releasing _ _ _ => true
  | .sendingReleases _ _ _ => true
  | _ => false

/-- A call: its transaction, its id once it has one, and where it is. -/
structure TxnThread where
  tx : Transaction
  txId : TransactionId
  pc : Pc

/-- A call that has not been made yet. -/
def TxnThread.fresh (tx : Transaction) : TxnThread where
  tx := tx
  txId := 0
  pc := .idle

/-- What the environment decides in one step. -/
structure Choice where
  keys : List KeyType := []
  pairs : List (NodeID × KeyType) := []
  throws : Bool := false
  timeout : Bool := false

/-- What one operation of phase 2 came to: a local one gives the visitor's result, a remote
one what `execute_remote_operation` returned. -/
inductive Outcome
  | «local» (result : Option ValueContainer)
  | remote (result : Option ValueContainer)
  deriving DecidableEq

/-- What a step is worth recording for. -/
inductive TxnEvent
  | called (txId : TransactionId)
  /-- A local `acquire` returned `ACQUIRED`. -/
  | granted (key : KeyType)
  /-- A `release(key, tx_id)` of a local `release_all`. -/
  | released (key : KeyType)
  /-- `acquire_all_locks` returned true. -/
  | locked
  /-- `acquire_all_locks` is to return false. -/
  | aborted
  | ran (op : Operation) (outcome : Outcome)
  | returned (results : Results)
  | threw
  deriving DecidableEq

/-- The event of a section of `release_all`. -/
def ReleaseAllStage.event : ReleaseAllStage → Option TxnEvent
  | .releasing (key :: _) => some (.released key)
  | _ => none

/-- ... which is there only when it releases a key. -/
theorem ReleaseAllStage.event_cases (stage : ReleaseAllStage) :
    stage.event = none ∨ ∃ key, stage.event = some (.released key) := by
  cases stage with
  | take => exact .inl rfl
  | releasing keys =>
    cases keys with
    | nil => exact .inl rfl
    | cons key keys => exact .inr ⟨key, rfl⟩

/-- The result vector after an operation: a local append adds nothing, a remote operation of
either kind adds what it returned (lines 375-388). -/
def collect (results : Results) (op : Operation) : Outcome → Results
  | .local result => results ++ localResult op result
  | .remote (some values) => results ++ [(op.key, some values)]
  | .remote none => results

/-- A step: the node and the call afterwards, the message sent, the event. -/
structure TxnStep where
  node : Node
  thread : TxnThread
  sent : Option (NodeID × Message) := none
  event : Option TxnEvent := none

namespace TxnThread

/-- The call moves on. -/
def goto (t : TxnThread) (pc : Pc) : TxnThread := { t with pc }

/-- `execute_transaction` takes an id and `execute_with_distributed_support` groups the keys;
`keys` is the order in which `local_keys` will be iterated. -/
def stepCall (n : Node) (t : TxnThread) (c : Choice) : Option TxnStep :=
  if Enumerates c.keys (n.localKeys t.tx) then
    some { node := { n with nextTxId := n.nextTxId + 1 }
           thread := { t with txId := n.nextTxId, pc := .locking c.keys .emplace }
           event := some (.called n.nextTxId) }
  else none

/-- The loop over the local keys (lines 421-428), one section of `acquire` at a time. -/
def stepLocking (n : Node) (t : TxnThread) (c : Choice) (stage : AcquireStage) :
    List KeyType → Option TxnStep
  | key :: todo =>
    match acquireStep n.lockManager key t.txId stage with
    | (lm, .inl stage') =>
      some { node := { n with lockManager := lm }
             thread := t.goto (.locking (key :: todo) stage') }
    | (lm, .inr .ACQUIRED) =>
      some { node := { n with lockManager := lm }
             thread := t.goto (.locking todo .emplace)
             event := some (.granted key) }
    | (lm, .inr .ABORTED) =>
      some { node := { n with lockManager := lm }
             thread := t.goto (.aborting .take)
             event := some .aborted }
  | [] =>
    if n.remotePairs t.tx = ∅ then
      some { node := n, thread := t.goto (.executing t.tx []), event := some .locked }
    -- lines 445-452: the mutex is taken and stays held
    else if n.distributedMutex = false ∧ Enumerates c.pairs (n.remotePairs t.tx) then
      some { node := { n.initPending t.txId c.pairs with distributedMutex := true }
             thread := t.goto (.requesting c.pairs) }
    else none

/-- `lock_manager->release_all(tx_id); return false;` and then `return {}`. -/
def stepAborting (n : Node) (t : TxnThread) (c : Choice) (stage : ReleaseAllStage) :
    Option TxnStep :=
  match releaseAllStep n.lockManager t.txId c.keys stage with
  | none => none
  | some (lm, some stage') =>
    some { node := { n with lockManager := lm }
           thread := t.goto (.aborting stage')
           event := stage.event }
  | some (lm, none) =>
    some { node := { n with lockManager := lm }
           thread := t.goto (.returned [])
           event := some (.returned []) }

/-- The requests (lines 454-463), and the first test of the waiting loop. -/
def stepRequesting (n : Node) (t : TxnThread) (c : Choice) :
    List (NodeID × KeyType) → Option TxnStep
  | p :: todo =>
    if c.throws then
      some { node := { n with distributedMutex := false }
             thread := t.goto .threw
             event := some .threw }
    else
      some { node := n
             thread := t.goto (.requesting todo)
             sent := some (p.1, .lockReq t.txId p.2) }
  | [] =>
    if n.pendingLocks t.txId = ∅ then
      some { node := { n.touchPending t.txId with distributedMutex := false }
             thread := t.goto (.executing t.tx [])
             event := some .locked }
    else
      some { node := { n.touchPending t.txId with distributedMutex := false }
             thread := t.goto .waiting }

/-- `wait_until` returns: with a timeout, or with another test of the loop condition. -/
def stepWaiting (n : Node) (t : TxnThread) (c : Choice) : Option TxnStep :=
  if n.distributedMutex then none
  else if c.timeout then
    if Enumerates c.pairs (n.pendingLocks t.txId).pairs then
      some { node := { n.touchPending t.txId with distributedMutex := true }
             thread := t.goto (.timingOut c.pairs) }
    else none
  else if n.pendingLocks t.txId = ∅ then
    some { node := n.touchPending t.txId
           thread := t.goto (.executing t.tx [])
           event := some .locked }
  else some { node := n.touchPending t.txId, thread := t }

/-- The releases after a timeout (lines 470-482): one for each pair still PENDING. -/
def stepTimingOut (n : Node) (t : TxnThread) (c : Choice) :
    List (NodeID × KeyType) → Option TxnStep
  | p :: todo =>
    if c.throws then
      some { node := { n with distributedMutex := false }
             thread := t.goto .threw
             event := some .threw }
    else
      some { node := n
             thread := t.goto (.timingOut todo)
             sent := some (p.1, .lockRel t.txId p.2) }
  | [] =>
    some { node := { n.erasePending t.txId with distributedMutex := false }
           thread := t.goto (.aborting .take)
           event := some .aborted }

/-- Phase 2: the next operation, here or at the key's primary. -/
def stepExecuting (n : Node) (t : TxnThread) (results : Results) :
    List Operation → Option TxnStep
  | op :: rest =>
    if n.primary op.key = n.routing.localNodeId then
      let (store, result) := NaiveOpExecutor.accept n.store op
      some { node := { n with store }
             thread := t.goto (.executing rest (collect results op (.local result)))
             event := some (.ran op (.local result)) }
    else if n.distributedMutex then none
    else
      some { node := n.insertPendingOp t.txId (n.primary op.key, op.key)
             thread := t.goto (.opSending op rest results) }
  | [] => some { node := n, thread := t.goto (.releasing .take results false) }

/-- The request of `execute_remote_operation`; an exception becomes `nullopt`. -/
def stepOpSending (n : Node) (t : TxnThread) (c : Choice) (op : Operation)
    (rest : List Operation) (results : Results) : Option TxnStep :=
  if c.throws then
    some { node := n
           thread := t.goto (.executing rest results)
           event := some (.ran op (.remote none)) }
  else
    some { node := n
           thread := t.goto (.opChecking op rest results)
           sent := some (n.primary op.key, .opReq t.txId op) }

/-- The loop condition of `execute_remote_operation`, before any waiting. -/
def stepOpChecking (n : Node) (t : TxnThread) (op : Operation) (rest : List Operation)
    (results : Results) : Option TxnStep :=
  if n.distributedMutex then none
  else if n.opPending t.txId (n.primary op.key, op.key) then
    some { node := n, thread := t.goto (.opWaiting op rest results) }
  else some { node := n, thread := t.goto (.opRetrieving op rest results) }

/-- `wait_until` returns: with a timeout, or with another test of the loop condition. -/
def stepOpWaiting (n : Node) (t : TxnThread) (c : Choice) (op : Operation)
    (rest : List Operation) (results : Results) : Option TxnStep :=
  if n.distributedMutex then none
  else if c.timeout then
    some { node := n.erasePendingOp t.txId (n.primary op.key, op.key)
           thread := t.goto (.executing rest results)
           event := some (.ran op (.remote none)) }
  else if n.opPending t.txId (n.primary op.key, op.key) then some { node := n, thread := t }
  else some { node := n, thread := t.goto (.opRetrieving op rest results) }

/-- The end of `execute_remote_operation`. -/
def stepOpRetrieving (n : Node) (t : TxnThread) (op : Operation) (rest : List Operation)
    (results : Results) : Option TxnStep :=
  if n.distributedMutex then none
  else
    let outcome := Outcome.remote (n.remoteResult t.txId op.key)
    some { node := n
           thread := t.goto (.executing rest (collect results op outcome))
           event := some (.ran op outcome) }

/-- `release_all_locks`, its local part; `pairs` is the order of the messages that follow. -/
def stepReleasing (n : Node) (t : TxnThread) (c : Choice) (stage : ReleaseAllStage)
    (results : Results) (rethrow : Bool) : Option TxnStep :=
  match releaseAllStep n.lockManager t.txId c.keys stage with
  | none => none
  | some (lm, some stage') =>
    some { node := { n with lockManager := lm }
           thread := t.goto (.releasing stage' results rethrow)
           event := stage.event }
  | some (lm, none) =>
    if Enumerates c.pairs (n.remotePairs t.tx) then
      some { node := { n with lockManager := lm }
             thread := t.goto (.sendingReleases c.pairs results rethrow) }
    else none

/-- `release_all_locks`, its messages.  An exception enters the `catch` block, which releases
everything once more and rethrows; an exception there leaves the call. -/
def stepSendingReleases (n : Node) (t : TxnThread) (c : Choice) (results : Results)
    (rethrow : Bool) : List (NodeID × KeyType) → Option TxnStep
  | p :: todo =>
    if c.throws then
      if rethrow then some { node := n, thread := t.goto .threw, event := some .threw }
      else some { node := n, thread := t.goto (.releasing .take results true) }
    else
      some { node := n
             thread := t.goto (.sendingReleases todo results rethrow)
             sent := some (p.1, .lockRel t.txId p.2) }
  | [] =>
    if rethrow then some { node := n, thread := t.goto .threw, event := some .threw }
    else
      some { node := n
             thread := t.goto (.returned results)
             event := some (.returned results) }

end TxnThread

open TxnThread in
/-- One step of one call of `execute_transaction`. -/
def stepTxn (n : Node) (t : TxnThread) (c : Choice) : Option TxnStep :=
  match t.pc with
  | .idle => stepCall n t c
  | .locking todo stage => stepLocking n t c stage todo
  | .aborting stage => stepAborting n t c stage
  | .requesting todo => stepRequesting n t c todo
  | .waiting => stepWaiting n t c
  | .timingOut todo => stepTimingOut n t c todo
  | .executing rest results => stepExecuting n t results rest
  | .opSending op rest results => stepOpSending n t c op rest results
  | .opChecking op rest results => stepOpChecking n t op rest results
  | .opWaiting op rest results => stepOpWaiting n t c op rest results
  | .opRetrieving op rest results => stepOpRetrieving n t op rest results
  | .releasing stage results rethrow => stepReleasing n t c stage results rethrow
  | .sendingReleases todo results rethrow => stepSendingReleases n t c results rethrow todo
  | .returned _ => none
  | .threw => none

/-! ## 3. Everything a step of a call can do -/

/-- **Everything a step of a call can do**, with what it tested. -/
inductive TxnStepped (n : Node) (t : TxnThread) (c : Choice) : TxnStep → Prop
  | call {keys} : t.pc = .idle → Enumerates keys (n.localKeys t.tx) →
      TxnStepped n t c
        { node := { n with nextTxId := n.nextTxId + 1 }
          thread := { t with txId := n.nextTxId, pc := .locking keys .emplace }
          event := some (.called n.nextTxId) }
  | poll {key todo stage stage' lm} : t.pc = .locking (key :: todo) stage →
      AcquireStep n.lockManager key t.txId stage lm (.inl stage') →
      TxnStepped n t c
        { node := { n with lockManager := lm }
          thread := t.goto (.locking (key :: todo) stage') }
  | acquired {key todo stage lm} : t.pc = .locking (key :: todo) stage →
      AcquireStep n.lockManager key t.txId stage lm (.inr .ACQUIRED) →
      TxnStepped n t c
        { node := { n with lockManager := lm }
          thread := t.goto (.locking todo .emplace)
          event := some (.granted key) }
  | refused {key todo stage lm} : t.pc = .locking (key :: todo) stage →
      AcquireStep n.lockManager key t.txId stage lm (.inr .ABORTED) →
      TxnStepped n t c
        { node := { n with lockManager := lm }
          thread := t.goto (.aborting .take)
          event := some .aborted }
  | lockedLocal {stage} : t.pc = .locking [] stage → n.remotePairs t.tx = ∅ →
      TxnStepped n t c
        { node := n, thread := t.goto (.executing t.tx []), event := some .locked }
  | beginRemote {stage pairs} : t.pc = .locking [] stage → n.remotePairs t.tx ≠ ∅ →
      n.distributedMutex = false → Enumerates pairs (n.remotePairs t.tx) →
      TxnStepped n t c
        { node := { n.initPending t.txId pairs with distributedMutex := true }
          thread := t.goto (.requesting pairs) }
  | aborting {stage stage' lm} : t.pc = .aborting stage →
      ReleaseAllStep n.lockManager t.txId stage lm (some stage') →
      TxnStepped n t c
        { node := { n with lockManager := lm }
          thread := t.goto (.aborting stage')
          event := stage.event }
  | aborted {stage lm} : t.pc = .aborting stage →
      ReleaseAllStep n.lockManager t.txId stage lm none →
      TxnStepped n t c
        { node := { n with lockManager := lm }
          thread := t.goto (.returned [])
          event := some (.returned []) }
  | request {p todo} : t.pc = .requesting (p :: todo) → c.throws = false →
      TxnStepped n t c
        { node := n
          thread := t.goto (.requesting todo)
          sent := some (p.1, .lockReq t.txId p.2) }
  | requestThrew {p todo} : t.pc = .requesting (p :: todo) → c.throws = true →
      TxnStepped n t c
        { node := { n with distributedMutex := false }
          thread := t.goto .threw
          event := some .threw }
  | requestedNothing : t.pc = .requesting [] → n.pendingLocks t.txId = ∅ →
      TxnStepped n t c
        { node := { n.touchPending t.txId with distributedMutex := false }
          thread := t.goto (.executing t.tx [])
          event := some .locked }
  | requested : t.pc = .requesting [] → n.pendingLocks t.txId ≠ ∅ →
      TxnStepped n t c
        { node := { n.touchPending t.txId with distributedMutex := false }
          thread := t.goto .waiting }
  | timedOut {pairs} : t.pc = .waiting → n.distributedMutex = false → c.timeout = true →
      Enumerates pairs (n.pendingLocks t.txId).pairs →
      TxnStepped n t c
        { node := { n.touchPending t.txId with distributedMutex := true }
          thread := t.goto (.timingOut pairs) }
  | woken : t.pc = .waiting → n.distributedMutex = false → c.timeout = false →
      n.pendingLocks t.txId = ∅ →
      TxnStepped n t c
        { node := n.touchPending t.txId
          thread := t.goto (.executing t.tx [])
          event := some .locked }
  | sleptOn : t.pc = .waiting → n.distributedMutex = false → c.timeout = false →
      n.pendingLocks t.txId ≠ ∅ →
      TxnStepped n t c { node := n.touchPending t.txId, thread := t }
  | timeoutRelease {p todo} : t.pc = .timingOut (p :: todo) → c.throws = false →
      TxnStepped n t c
        { node := n
          thread := t.goto (.timingOut todo)
          sent := some (p.1, .lockRel t.txId p.2) }
  | timeoutThrew {p todo} : t.pc = .timingOut (p :: todo) → c.throws = true →
      TxnStepped n t c
        { node := { n with distributedMutex := false }
          thread := t.goto .threw
          event := some .threw }
  | timeoutDone : t.pc = .timingOut [] →
      TxnStepped n t c
        { node := { n.erasePending t.txId with distributedMutex := false }
          thread := t.goto (.aborting .take)
          event := some .aborted }
  | ranLocal {op rest results} : t.pc = .executing (op :: rest) results →
      n.primary op.key = n.routing.localNodeId →
      TxnStepped n t c
        { node := { n with store := (NaiveOpExecutor.accept n.store op).1 }
          thread := t.goto (.executing rest
            (collect results op (.local (NaiveOpExecutor.accept n.store op).2)))
          event := some (.ran op (.local (NaiveOpExecutor.accept n.store op).2)) }
  | opBegin {op rest results} : t.pc = .executing (op :: rest) results →
      n.primary op.key ≠ n.routing.localNodeId → n.distributedMutex = false →
      TxnStepped n t c
        { node := n.insertPendingOp t.txId (n.primary op.key, op.key)
          thread := t.goto (.opSending op rest results) }
  | allRan {results} : t.pc = .executing [] results →
      TxnStepped n t c { node := n, thread := t.goto (.releasing .take results false) }
  | opThrew {op rest results} : t.pc = .opSending op rest results → c.throws = true →
      TxnStepped n t c
        { node := n
          thread := t.goto (.executing rest results)
          event := some (.ran op (.remote none)) }
  | opSent {op rest results} : t.pc = .opSending op rest results → c.throws = false →
      TxnStepped n t c
        { node := n
          thread := t.goto (.opChecking op rest results)
          sent := some (n.primary op.key, .opReq t.txId op) }
  | opChecked {op rest results} : t.pc = .opChecking op rest results →
      TxnStepped n t c { node := n, thread := t.goto (.opWaiting op rest results) }
  | opAnswered {op rest results} :
      t.pc = .opChecking op rest results ∨ t.pc = .opWaiting op rest results →
      TxnStepped n t c { node := n, thread := t.goto (.opRetrieving op rest results) }
  | opTimedOut {op rest results} : t.pc = .opWaiting op rest results →
      TxnStepped n t c
        { node := n.erasePendingOp t.txId (n.primary op.key, op.key)
          thread := t.goto (.executing rest results)
          event := some (.ran op (.remote none)) }
  | opSleptOn {op rest results} : t.pc = .opWaiting op rest results →
      TxnStepped n t c { node := n, thread := t }
  | opRetrieved {op rest results} : t.pc = .opRetrieving op rest results →
      TxnStepped n t c
        { node := n
          thread := t.goto (.executing rest
            (collect results op (.remote (n.remoteResult t.txId op.key))))
          event := some (.ran op (.remote (n.remoteResult t.txId op.key))) }
  | releasing {stage stage' lm results rethrow} : t.pc = .releasing stage results rethrow →
      ReleaseAllStep n.lockManager t.txId stage lm (some stage') →
      TxnStepped n t c
        { node := { n with lockManager := lm }
          thread := t.goto (.releasing stage' results rethrow)
          event := stage.event }
  | releasedLocal {stage lm pairs results rethrow} : t.pc = .releasing stage results rethrow →
      ReleaseAllStep n.lockManager t.txId stage lm none →
      Enumerates pairs (n.remotePairs t.tx) →
      TxnStepped n t c
        { node := { n with lockManager := lm }
          thread := t.goto (.sendingReleases pairs results rethrow) }
  | sendRelease {p todo results rethrow} :
      t.pc = .sendingReleases (p :: todo) results rethrow → c.throws = false →
      TxnStepped n t c
        { node := n
          thread := t.goto (.sendingReleases todo results rethrow)
          sent := some (p.1, .lockRel t.txId p.2) }
  | sendThrew {p todo results} : t.pc = .sendingReleases (p :: todo) results false →
      c.throws = true →
      TxnStepped n t c { node := n, thread := t.goto (.releasing .take results true) }
  | rethrown {todo results} : t.pc = .sendingReleases todo results true →
      (todo ≠ [] → c.throws = true) →
      TxnStepped n t c { node := n, thread := t.goto .threw, event := some .threw }
  | returned {results} : t.pc = .sendingReleases [] results false →
      TxnStepped n t c
        { node := n
          thread := t.goto (.returned results)
          event := some (.returned results) }

namespace TxnThread

variable {n : Node} {t : TxnThread} {c : Choice} {r : TxnStep}

theorem stepCall_spec (hpc : t.pc = .idle) (h : stepCall n t c = some r) :
    TxnStepped n t c r := by
  unfold stepCall at h
  split at h
  · rename_i hen
    rw [Option.some.injEq] at h
    exact h ▸ .call hpc hen
  · exact absurd h (by simp)

theorem stepLocking_spec {stage : AcquireStage} {todo : List KeyType}
    (hpc : t.pc = .locking todo stage) (h : stepLocking n t c stage todo = some r) :
    TxnStepped n t c r := by
  cases todo with
  | nil =>
    simp only [stepLocking] at h
    split at h
    · rename_i hrem
      rw [Option.some.injEq] at h
      exact h ▸ .lockedLocal hpc hrem
    · rename_i hrem
      split at h
      · rename_i hc
        rw [Option.some.injEq] at h
        exact h ▸ .beginRemote hpc hrem hc.1 hc.2
      · exact absurd h (by simp)
  | cons key todo =>
    have hspec := acquireStep_spec n.lockManager key t.txId stage
    simp only [stepLocking] at h
    split at h <;> (rename_i heq; rw [heq] at hspec; rw [Option.some.injEq] at h)
    · exact h ▸ .poll hpc hspec
    · exact h ▸ .acquired hpc hspec
    · exact h ▸ .refused hpc hspec

theorem stepAborting_spec {stage : ReleaseAllStage} (hpc : t.pc = .aborting stage)
    (h : stepAborting n t c stage = some r) : TxnStepped n t c r := by
  unfold stepAborting at h
  split at h
  · exact absurd h (by simp)
  · rename_i lm stage' heq
    rw [Option.some.injEq] at h
    subst h
    exact .aborting hpc (releaseAllStep_spec heq)
  · rename_i lm heq
    rw [Option.some.injEq] at h
    exact h ▸ .aborted hpc (releaseAllStep_spec heq)

theorem stepRequesting_spec {todo : List (NodeID × KeyType)} (hpc : t.pc = .requesting todo)
    (h : stepRequesting n t c todo = some r) : TxnStepped n t c r := by
  cases todo with
  | nil =>
    simp only [stepRequesting] at h
    split at h <;> (rename_i hp; rw [Option.some.injEq] at h)
    · exact h ▸ .requestedNothing hpc hp
    · exact h ▸ .requested hpc hp
  | cons p todo =>
    simp only [stepRequesting] at h
    split at h <;> (rename_i hth; rw [Option.some.injEq] at h)
    · exact h ▸ .requestThrew hpc hth
    · exact h ▸ .request hpc (by simpa using hth)

theorem stepWaiting_spec (hpc : t.pc = .waiting) (h : stepWaiting n t c = some r) :
    TxnStepped n t c r := by
  unfold stepWaiting at h
  split at h
  · exact absurd h (by simp)
  · rename_i hm
    rw [Bool.not_eq_true] at hm
    split at h <;> rename_i htime
    · split at h
      · rename_i hen
        rw [Option.some.injEq] at h
        exact h ▸ .timedOut hpc hm htime hen
      · exact absurd h (by simp)
    · rw [Bool.not_eq_true] at htime
      split at h <;> (rename_i hp; rw [Option.some.injEq] at h)
      · exact h ▸ .woken hpc hm htime hp
      · exact h ▸ .sleptOn hpc hm htime hp

theorem stepTimingOut_spec {todo : List (NodeID × KeyType)} (hpc : t.pc = .timingOut todo)
    (h : stepTimingOut n t c todo = some r) : TxnStepped n t c r := by
  cases todo with
  | nil =>
    rw [stepTimingOut, Option.some.injEq] at h
    exact h ▸ .timeoutDone hpc
  | cons p todo =>
    simp only [stepTimingOut] at h
    split at h <;> (rename_i hth; rw [Option.some.injEq] at h)
    · exact h ▸ .timeoutThrew hpc hth
    · exact h ▸ .timeoutRelease hpc (by simpa using hth)

theorem stepExecuting_spec {rest : List Operation} {results : Results}
    (hpc : t.pc = .executing rest results) (h : stepExecuting n t results rest = some r) :
    TxnStepped n t c r := by
  cases rest with
  | nil =>
    rw [stepExecuting, Option.some.injEq] at h
    exact h ▸ .allRan hpc
  | cons op rest =>
    simp only [stepExecuting] at h
    split at h
    · rename_i hl
      rw [Option.some.injEq] at h
      exact h ▸ .ranLocal hpc hl
    · rename_i hl
      split at h
      · exact absurd h (by simp)
      · rename_i hm
        rw [Option.some.injEq] at h
        exact h ▸ .opBegin hpc hl (by simpa using hm)

theorem stepOpSending_spec {op : Operation} {rest : List Operation} {results : Results}
    (hpc : t.pc = .opSending op rest results) (h : stepOpSending n t c op rest results = some r) :
    TxnStepped n t c r := by
  unfold stepOpSending at h
  split at h <;> (rename_i hth; rw [Option.some.injEq] at h)
  · exact h ▸ .opThrew hpc hth
  · exact h ▸ .opSent hpc (by simpa using hth)

theorem stepOpChecking_spec {op : Operation} {rest : List Operation} {results : Results}
    (hpc : t.pc = .opChecking op rest results) (h : stepOpChecking n t op rest results = some r) :
    TxnStepped n t c r := by
  unfold stepOpChecking at h
  split at h
  · exact absurd h (by simp)
  · split at h <;> rw [Option.some.injEq] at h
    · exact h ▸ .opChecked hpc
    · exact h ▸ .opAnswered (.inl hpc)

theorem stepOpWaiting_spec {op : Operation} {rest : List Operation} {results : Results}
    (hpc : t.pc = .opWaiting op rest results) (h : stepOpWaiting n t c op rest results = some r) :
    TxnStepped n t c r := by
  unfold stepOpWaiting at h
  split at h
  · exact absurd h (by simp)
  · split at h
    · rw [Option.some.injEq] at h
      exact h ▸ .opTimedOut hpc
    · split at h <;> rw [Option.some.injEq] at h
      · exact h ▸ .opSleptOn hpc
      · exact h ▸ .opAnswered (.inr hpc)

theorem stepOpRetrieving_spec {op : Operation} {rest : List Operation} {results : Results}
    (hpc : t.pc = .opRetrieving op rest results)
    (h : stepOpRetrieving n t op rest results = some r) : TxnStepped n t c r := by
  unfold stepOpRetrieving at h
  split at h
  · exact absurd h (by simp)
  · rw [Option.some.injEq] at h
    exact h ▸ .opRetrieved hpc

theorem stepReleasing_spec {stage : ReleaseAllStage} {results : Results} {rethrow : Bool}
    (hpc : t.pc = .releasing stage results rethrow)
    (h : stepReleasing n t c stage results rethrow = some r) : TxnStepped n t c r := by
  unfold stepReleasing at h
  split at h
  · exact absurd h (by simp)
  · rename_i lm stage' heq
    rw [Option.some.injEq] at h
    subst h
    exact .releasing hpc (releaseAllStep_spec heq)
  · rename_i lm heq
    split at h
    · rename_i hen
      rw [Option.some.injEq] at h
      exact h ▸ .releasedLocal hpc (releaseAllStep_spec heq) hen
    · exact absurd h (by simp)

theorem stepSendingReleases_spec {todo : List (NodeID × KeyType)} {results : Results}
    {rethrow : Bool} (hpc : t.pc = .sendingReleases todo results rethrow)
    (h : stepSendingReleases n t c results rethrow todo = some r) : TxnStepped n t c r := by
  cases todo with
  | nil =>
    cases rethrow <;> simp only [stepSendingReleases, Bool.false_eq_true, if_false, if_true,
      Option.some.injEq] at h
    · exact h ▸ .returned hpc
    · exact h ▸ .rethrown hpc (by simp)
  | cons p todo =>
    simp only [stepSendingReleases] at h
    split at h <;> rename_i hth
    · cases rethrow <;> simp only [Bool.false_eq_true, if_false, if_true, Option.some.injEq] at h
      · exact h ▸ .sendThrew hpc hth
      · exact h ▸ .rethrown hpc fun _ => hth
    · rw [Option.some.injEq] at h
      exact h ▸ .sendRelease hpc (by simpa using hth)

end TxnThread

open TxnThread in
theorem stepTxn_spec {n : Node} {t : TxnThread} {c : Choice} {r : TxnStep}
    (h : stepTxn n t c = some r) : TxnStepped n t c r := by
  unfold stepTxn at h
  split at h <;> rename_i hpc
  · exact stepCall_spec hpc h
  · exact stepLocking_spec hpc h
  · exact stepAborting_spec hpc h
  · exact stepRequesting_spec hpc h
  · exact stepWaiting_spec hpc h
  · exact stepTimingOut_spec hpc h
  · exact stepExecuting_spec hpc h
  · exact stepOpSending_spec hpc h
  · exact stepOpChecking_spec hpc h
  · exact stepOpWaiting_spec hpc h
  · exact stepOpRetrieving_spec hpc h
  · exact stepReleasing_spec hpc h
  · exact stepSendingReleases_spec hpc h
  · exact absurd h (by simp)
  · exact absurd h (by simp)

section Facts

variable {n : Node} {t : TxnThread} {c : Choice} {r : TxnStep}

/-- A call keeps its transaction. -/
theorem TxnStepped.tx_eq (h : TxnStepped n t c r) : r.thread.tx = t.tx := by
  cases h <;> rfl

/-- Routing is decided by `start` and by nothing else. -/
theorem TxnStepped.routing_eq (h : TxnStepped n t c r) : r.node.routing = n.routing := by
  cases h <;> rfl

/-- The step that makes a call takes the next id. -/
theorem TxnStepped.id_of_idle (h : TxnStepped n t c r) (hpc : t.pc = .idle) :
    r.thread.txId = n.nextTxId ∧ r.thread.pc ≠ .idle ∧ r.node.nextTxId = n.nextTxId + 1 := by
  cases h <;> simp_all

/-- ... and no other step touches the id or the counter. -/
theorem TxnStepped.id_of_called (h : TxnStepped n t c r) (hpc : t.pc ≠ .idle) :
    r.thread.txId = t.txId ∧ r.thread.pc ≠ .idle ∧ r.node.nextTxId = n.nextTxId := by
  cases h with
  | call hidle _ => exact absurd hidle hpc
  | _ => first | exact ⟨rfl, hpc, rfl⟩ | exact ⟨rfl, by simp [TxnThread.goto], rfl⟩

/-- **What a step of a call does to the lock table of its node**: it is granted a key, it gives one
back, or it changes no owner. -/
theorem TxnStepped.lock_effect (h : TxnStepped n t c r) :
    (∃ key todo stage, t.pc = .locking (key :: todo) stage ∧ r.event = some (.granted key) ∧
      AcquireStep n.lockManager key t.txId stage r.node.lockManager (.inr .ACQUIRED)) ∨
    (∃ key keys, (t.pc = .aborting (.releasing (key :: keys)) ∨
        ∃ results rethrow, t.pc = .releasing (.releasing (key :: keys)) results rethrow) ∧
      r.event = some (.released key) ∧
      r.node.lockManager = n.lockManager.release key t.txId) ∨
    ((∀ key, r.event ≠ some (.granted key)) ∧ (∀ key, r.event ≠ some (.released key)) ∧
      ∀ k, r.node.lockManager.owner k = n.lockManager.owner k) := by
  cases h with
  | acquired hpc hacq => exact .inl ⟨_, _, _, hpc, rfl, hacq⟩
  | poll _ hacq => exact .inr (.inr ⟨by simp, by simp, hacq.owner_unchanged (by simp)⟩)
  | refused _ hacq => exact .inr (.inr ⟨by simp, by simp, hacq.owner_unchanged (by simp)⟩)
  | aborting hpc hrel =>
    cases hrel with
    | take _ => exact .inr (.inr ⟨by simp [ReleaseAllStage.event], by simp [ReleaseAllStage.event],
        fun k => rfl⟩)
    | release => exact .inr (.inl ⟨_, _, .inl hpc, rfl, rfl⟩)
  | aborted _ hrel =>
    cases hrel with
    | done => exact .inr (.inr ⟨by simp, by simp, fun k => rfl⟩)
  | releasing hpc hrel =>
    cases hrel with
    | take _ => exact .inr (.inr ⟨by simp [ReleaseAllStage.event], by simp [ReleaseAllStage.event],
        fun k => rfl⟩)
    | release => exact .inr (.inl ⟨_, _, .inr ⟨_, _, hpc⟩, rfl, rfl⟩)
  | releasedLocal _ hrel _ =>
    cases hrel with
    | done => exact .inr (.inr ⟨by simp, by simp, fun k => rfl⟩)
  | _ => exact .inr (.inr ⟨by simp, by simp, fun k => rfl⟩)

/-- The ids in the lock messages that a call sends are its own. -/
theorem TxnStepped.sent_id (h : TxnStepped n t c r) {dest : NodeID} {msg : Message}
    {t' : TransactionId} {k : KeyType} (hs : r.sent = some (dest, msg))
    (hmsg : msg = .lockReq t' k ∨ msg = .lockRel t' k) : t' = t.txId ∧ t.pc ≠ .idle := by
  cases h <;> simp_all <;> rcases hmsg with hmsg | hmsg <;> simp_all

/-- ... and so is the id of the pending entry it creates. -/
theorem TxnStepped.pending_id (h : TxnStepped n t c r) (t' : TransactionId) :
    r.node.pendingRemoteLocks t' = n.pendingRemoteLocks t' ∨ (t' = t.txId ∧ t.pc ≠ .idle) := by
  rcases eq_or_ne t' t.txId with rfl | hne
  · cases h with
    | call hpc _ => exact .inl rfl
    | _ => simp_all
  · refine .inl ?_
    cases h <;> simp [Node.initPending, Node.touchPending, Node.erasePending, Node.insertPendingOp,
      Node.erasePendingOp, hne]

/-- ... and so is the id in the lock table entries it fills. -/
theorem TxnStepped.owner_id (h : TxnStepped n t c r) {t' : TransactionId} {k : KeyType}
    (ho : r.node.lockManager.owner k = some t') :
    n.lockManager.owner k = some t' ∨ (t' = t.txId ∧ t.pc ≠ .idle) := by
  rcases h.lock_effect with ⟨key, todo, stage, hpc, -, hacq⟩ | ⟨key, keys, -, -, hlm⟩ |
    ⟨-, -, hown⟩
  · exact (hacq.owner_cases ho).imp id fun hk => ⟨hk.2, by simp [hpc]⟩
  · rw [hlm] at ho
    exact .inl (LockManager.owner_of_release ho)
  · exact .inl ((hown k).symm.trans ho)

/-- A call that has returned takes no step. -/
theorem TxnStepped.ne_returned (h : TxnStepped n t c r) (results : Results) :
    t.pc ≠ .returned results := by
  intro hpc
  cases h <;> simp_all

end Facts

/-! ## 4. The message handlers -/

namespace Node

/-- `handle_lock_response`.  A grant takes its own pair out of the pending map, a denial takes
the whole entry out. -/
def handleLockResponse (n : Node) (peer : NodeID) (txId : TransactionId) (key : KeyType)
    (granted : Bool) : Node :=
  if granted then
    match n.pendingRemoteLocks txId with
    | none => n
    | some pending =>
      match pending.lookup peer with
      | none => n
      | some keys =>
        if key ∈ keys then
          let pending' :=
            if keys.erase key = ∅ then pending.erase peer
            else pending.insert peer (keys.erase key)
          { n with
            pendingRemoteLocks := Function.update n.pendingRemoteLocks txId (some pending') }
        else n
  else n.erasePending txId

/-- It leaves the rest of the node alone. -/
theorem handleLockResponse_frame (n : Node) (peer : NodeID) (txId : TransactionId)
    (key : KeyType) (granted : Bool) :
    (n.handleLockResponse peer txId key granted).routing = n.routing ∧
    (n.handleLockResponse peer txId key granted).lockManager = n.lockManager ∧
    (n.handleLockResponse peer txId key granted).pendingRemoteOps = n.pendingRemoteOps ∧
    (n.handleLockResponse peer txId key granted).remoteResults = n.remoteResults := by
  unfold handleLockResponse
  repeat' split
  all_goals exact ⟨rfl, rfl, rfl, rfl⟩

/-- `handle_lock_release`. -/
def handleLockRelease (n : Node) (txId : TransactionId) (key : KeyType) : Node :=
  { n with lockManager := n.lockManager.release key txId }

/-- `handle_operation_request` up to the response it builds.  No lock is asked for. -/
def handleOperationRequest (n : Node) (txId : TransactionId) (key : KeyType) :
    Option Operation → Node × Message
  | some op =>
    let (store, result) := NaiveOpExecutor.accept n.store op
    ({ n with store }, .opResp txId key result)
  | none => (n, .opResp txId key none)

/-- It leaves all but the store alone. -/
theorem handleOperationRequest_frame (n : Node) (txId : TransactionId) (key : KeyType)
    (op : Option Operation) :
    (n.handleOperationRequest txId key op).1
      = { n with store := (n.handleOperationRequest txId key op).1.store } := by
  cases op <;> rfl

/-- `handle_operation_response`. -/
def handleOperationResponse (n : Node) (peer : NodeID) (txId : TransactionId) (key : KeyType)
    (values : ValueContainer) : Node :=
  let results := (n.remoteResults txId).getD fun _ => none
  { n.erasePendingOp txId (peer, key) with
    remoteResults := Function.update n.remoteResults txId
      (some (Function.update results key (some values))) }

end Node

/-- A handler that takes more than one step: that of a lock request while it polls, and either
kind of request once the response is there to be sent. -/
inductive Handler
  | acquiring (txId : TransactionId) (key : KeyType) (stage : AcquireStage)
  | responding (msg : Message)
  deriving DecidableEq

/-- `handle_peer_message` from the call to the end of the first section of the handler: the node
and what is left of the handler.  `none` while the handler is blocked on `distributed_mutex`, and
for a message that makes the function throw. -/
def handlePeerMessage (n : Node) (peer : NodeID) (msg : JsonObject) :
    Option (Node × Option Handler) :=
  match dispatch msg with
  | none => none
  | some (.lockRequest txId key) => some (n, some (.acquiring txId key .emplace))
  | some (.lockResponse txId key granted) =>
    if n.distributedMutex then none
    else some (n.handleLockResponse peer txId key granted, none)
  | some (.lockRelease txId key) => some (n.handleLockRelease txId key, none)
  | some (.opRequest txId key op) =>
    let (n', response) := n.handleOperationRequest txId key op
    some (n', some (.responding response))
  | some (.opResponse txId key values) =>
    if n.distributedMutex then none
    else some (n.handleOperationResponse peer txId key values, none)
  -- the answer to a prepare is a `txn_commit`, which its receiver ignores
  | some (.prepare _) => some (n, none)
  | some .ignored => some (n, none)

/-- The next section of a handler: the node, what is left of the handler, and the message it
sent.  A send that throws is caught and logged. -/
def stepHandler (n : Node) (throws : Bool) : Handler → Node × Option Handler × Option Message
  | .acquiring txId key stage =>
    match acquireStep n.lockManager key txId stage with
    | (lm, .inl stage') => ({ n with lockManager := lm }, some (.acquiring txId key stage'), none)
    | (lm, .inr .ACQUIRED) =>
      ({ n with lockManager := lm }, some (.responding (.lockGranted txId key)), none)
    | (lm, .inr .ABORTED) =>
      ({ n with lockManager := lm }, some (.responding (.lockDenied txId key)), none)
  | .responding msg => (n, none, if throws then none else some msg)

end TwoPL
