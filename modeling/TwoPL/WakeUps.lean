/-
# Who sleeps on, and why

A call waits for its remote locks on `remote_lock_cv` and for the answer to a remote operation on
`remote_op_cv`, both shared by all calls of the node.  Going to sleep releases `distributed_mutex`,
so an answer can come in at any time after that; what gets the sleeper up is `notify_all`.  A
wake-up is LOST when what the call waits for is there and nobody has notified it: it then sleeps up
to its deadline, and a deadline is taken for a failure without another look.

`Monitored` is a node with everything around it (`OpenNode`) and, for every call, whether it has
been notified since it went to sleep.  The two handlers notify under different conditions:

* `handle_lock_response` notifies when it erases the entry of a transaction, or when the grant it
  counts was the last one.  A call that sleeps and has not been notified has something pending;
* `handle_operation_response` notifies when the set of the transaction has become EMPTY, while the
  sleeper waits for ONE pair to go.  A call has one operation under way at a time, so this comes to
  the same, but for one thing: an operation whose `send` throws leaves its pair behind.  From then
  on no answer on another pair wakes the call up (`no_lost_wakeup`, and the run `unheard`).
-/
import TwoPL.OpenNode
import TwoPL.Quiescence

namespace TwoPL

open Lib

/-! ## 1. `notify_all` -/

namespace Node

/-- `pending_remote_ops[tx_id]`. -/
def pendingOps (n : Node) (txId : TransactionId) : Finset (NodeID × KeyType) :=
  (n.pendingRemoteOps txId).getD ∅

theorem opPending_iff {n : Node} {txId : TransactionId} {q : NodeID × KeyType} :
    n.opPending txId q = true ↔ q ∈ n.pendingOps txId := by
  simp [opPending, pendingOps]

/-- `handle_lock_response` calls `remote_lock_cv.notify_all()`. -/
def notifiesLocks (n : Node) (peer : NodeID) (txId : TransactionId) (key : KeyType)
    (granted : Bool) : Bool :=
  if granted then
    match n.pendingRemoteLocks txId with
    | none => false
    | some pending =>
      match pending.lookup peer with
      | none => false
      | some keys =>
        if key ∈ keys then
          decide ((n.handleLockResponse peer txId key granted).pendingLocks txId = ∅)
        else false
  else true

/-- `handle_operation_response` calls `remote_op_cv.notify_all()`. -/
def notifiesOps (n : Node) (peer : NodeID) (txId : TransactionId) (key : KeyType) : Bool :=
  decide ((n.erasePendingOp txId (peer, key)).pendingOps txId = ∅)

/-- A response without a notification leaves something pending where something was. -/
theorem pendingLocks_of_not_notifies {n : Node} {peer : NodeID} {txId : TransactionId}
    {key : KeyType} {granted : Bool} (h : n.notifiesLocks peer txId key granted = false)
    (hpending : n.pendingLocks txId ≠ ∅) :
    (n.handleLockResponse peer txId key granted).pendingLocks txId ≠ ∅ := by
  cases granted with
  | false => exact absurd h (by simp [notifiesLocks])
  | true =>
    cases hp : n.pendingRemoteLocks txId with
    | none => exact absurd (by simp [pendingLocks, hp]) hpending
    | some pending =>
      cases hl : pending.lookup peer with
      | none => simpa [handleLockResponse, hp, hl] using hpending
      | some keys =>
        by_cases hk : key ∈ keys
        · simpa [notifiesLocks, hp, hl, hk] using h
        · simpa [handleLockResponse, hp, hl, hk] using hpending

/-- A lock response is about one transaction. -/
theorem pendingLocks_handleLockResponse_of_ne (n : Node) (peer : NodeID) {t txId : TransactionId}
    (hne : t ≠ txId) (key : KeyType) (granted : Bool) :
    (n.handleLockResponse peer txId key granted).pendingLocks t = n.pendingLocks t := by
  unfold handleLockResponse
  repeat' split
  all_goals simp [pendingLocks, erasePending, hne]

theorem nextTxId_handleLockResponse (n : Node) (peer : NodeID) (txId : TransactionId)
    (key : KeyType) (granted : Bool) :
    (n.handleLockResponse peer txId key granted).nextTxId = n.nextTxId := by
  unfold handleLockResponse
  repeat' split
  all_goals rfl

theorem pendingOps_erasePendingOp (n : Node) (t txId : TransactionId) (q : NodeID × KeyType) :
    (n.erasePendingOp txId q).pendingOps t
      = if t = txId then (n.pendingOps t).erase q else n.pendingOps t := by
  unfold pendingOps erasePendingOp
  by_cases h : t = txId
  · subst h
    simp
  · simp [h]

theorem pendingOps_insertPendingOp (n : Node) (t txId : TransactionId) (q : NodeID × KeyType) :
    (n.insertPendingOp txId q).pendingOps t
      = if t = txId then insert q (n.pendingOps t) else n.pendingOps t := by
  unfold pendingOps insertPendingOp
  by_cases h : t = txId
  · subst h
    simp
  · simp [h]

end Node

/-! ## 2. The system -/

/-- The operation whose pair a call has put into the pending set and waits for. -/
def Pc.awaited : Pc → Option Operation
  | .opSending op _ _ | .opChecking op _ _ | .opWaiting op _ _ => some op
  | _ => none

/-- The operation whose request is not sent, because `send` throws. -/
def TxnThread.unsentBy (t : TxnThread) (c : Choice) : List Operation :=
  match t.pc with
  | .opSending op _ _ => if c.throws then [op] else []
  | _ => []

/-- A node with its condition variables.  `unsent` only records. -/
structure Monitored (ι : Type*) where
  inner : OpenNode ι
  /-- `notify_all` has been called since the call went to sleep. -/
  notified : ι → Bool
  /-- The operations of the call whose requests could not be sent. -/
  unsent : ι → List Operation

namespace Monitored

variable {ι : Type*} [DecidableEq ι]

/-- The handler of a message gets call `i` up. -/
def wakes (w : OpenNode ι) (peer : NodeID) (msg : JsonObject) (i : ι) : Bool :=
  match dispatch msg, (w.txns i).pc with
  | some (.lockResponse t k granted), .waiting => w.node.notifiesLocks peer t k granted
  | some (.opResponse t k _), .opWaiting _ _ _ => w.node.notifiesOps peer t k
  | _, _ => false

def step (w : Monitored ι) (l : OpenLabel ι) : Option (Monitored ι) :=
  (w.inner.step l).map fun inner =>
    match l with
    -- it goes to sleep, or it is up
    | .txn i c =>
      { inner
        notified := Function.update w.notified i false
        unsent := Function.update w.unsent i (w.unsent i ++ (w.inner.txns i).unsentBy c) }
    | .receive peer msg =>
      { inner, notified := fun i => w.notified i || wakes w.inner peer msg i, unsent := w.unsent }
    | .handle _ _ => { w with inner }

def initial (routing : Routing) (store : ThreadSafeKVStore) (txs : ι → Transaction) :
    Monitored ι where
  inner := .initial routing store txs
  notified := fun _ => false
  unsent := fun _ => []

end Monitored

/-! ## 3. One call -/

section Call

variable {n n' : Node} {t : TxnThread} {c : Choice} {r : TxnStep}

/-- The loop of `execute_remote_operation`: it sleeps as long as the operation is pending, up to the
deadline. -/
theorem stepTxn_awaiting {op : Operation} {rest : List Operation} {results : Results}
    (h : stepTxn n t c = some r)
    (hpc : t.pc = .opChecking op rest results ∨ t.pc = .opWaiting op rest results) :
    (n.opPending t.txId (n.primary op.key, op.key) = true ∧
        r = { node := n, thread := t.goto (.opWaiting op rest results) }) ∨
      (n.opPending t.txId (n.primary op.key, op.key) = false ∧
        r = { node := n, thread := t.goto (.opRetrieving op rest results) }) ∨
      (t.pc = .opWaiting op rest results ∧ c.timeout = true ∧
        r = { node := n.erasePendingOp t.txId (n.primary op.key, op.key)
              thread := t.goto (.executing rest results)
              event := some (.ran op (.remote none)) }) := by
  rcases hpc with hpc | hpc
  · simp only [stepTxn, hpc, TxnThread.stepOpChecking] at h
    split at h
    · exact absurd h (by simp)
    · split at h <;> (rename_i hp; rw [Option.some.injEq] at h)
      · exact .inl ⟨hp, h.symm⟩
      · exact .inr (.inl ⟨by simpa using hp, h.symm⟩)
  · simp only [stepTxn, hpc, TxnThread.stepOpWaiting] at h
    split at h
    · exact absurd h (by simp)
    · split at h
      · rename_i htime
        rw [Option.some.injEq] at h
        exact .inr (.inr ⟨hpc, htime, h.symm⟩)
      · split at h <;> (rename_i hp; rw [Option.some.injEq] at h)
        · refine .inl ⟨hp, ?_⟩
          rw [← h, TxnThread.goto, ← hpc]
        · exact .inr (.inl ⟨by simpa using hp, h.symm⟩)

/-- **A call that is not overlooked.**  If it sleeps without having been notified, there is
something in the set it sleeps for; and what is in the set of operations is the one it waits for, or
one that was never sent. -/
structure TxnThread.Alert (n : Node) (t : TxnThread) (notified : Bool) (unsent : List Operation) :
    Prop where
  locks : t.pc = .waiting → notified = false → n.pendingLocks t.txId ≠ ∅
  ops : ∀ op rest results, t.pc = .opWaiting op rest results → notified = false →
    n.pendingOps t.txId ≠ ∅
  accounted : ∀ q ∈ n.pendingOps t.txId, ∃ op, q = (n.primary op.key, op.key) ∧
    (t.pc.awaited = some op ∨ op ∈ unsent)

/-- The sets of other transactions are not the affair of the call. -/
theorem TxnThread.Alert.of_same {b b' : Bool} {unsent : List Operation}
    (h : t.Alert n b unsent) (hb : b' = false → b = false)
    (hlocks : n'.pendingLocks t.txId = n.pendingLocks t.txId)
    (hops : n'.pendingOps t.txId = n.pendingOps t.txId) (hrouting : n'.routing = n.routing) :
    t.Alert n' b' unsent where
  locks hpc hb' := hlocks ▸ h.locks hpc (hb hb')
  ops op rest results hpc hb' := hops ▸ h.ops op rest results hpc (hb hb')
  accounted q hq := by
    obtain ⟨op, hop, hwhy⟩ := h.accounted q (hops ▸ hq)
    exact ⟨op, by rw [Node.primary, hrouting]; exact hop, hwhy⟩

/-- The pairs that are there after a step of the call itself. -/
theorem TxnThread.Alert.accounted_step {b : Bool} {unsent : List Operation} (h : t.Alert n b unsent)
    (hstep : stepTxn n t c = some r) (hcalled : t.pc ≠ .idle) {q : NodeID × KeyType}
    (hq : q ∈ r.node.pendingOps t.txId) :
    ∃ op, q = (n.primary op.key, op.key) ∧
      (r.thread.pc.awaited = some op ∨ op ∈ unsent ++ t.unsentBy c) := by
  have hunsent : ∀ op, op ∈ unsent → op ∈ unsent ++ t.unsentBy c := fun op => List.mem_append_left _
  -- nothing new, and the operation is awaited no longer
  have hkept : r.node.pendingOps t.txId = n.pendingOps t.txId → t.pc.awaited = none →
      ∃ op, q = (n.primary op.key, op.key) ∧
        (r.thread.pc.awaited = some op ∨ op ∈ unsent ++ t.unsentBy c) := by
    intro hops hnone
    obtain ⟨op, hop, hwhy⟩ := h.accounted q (hops ▸ hq)
    rw [hnone] at hwhy
    exact ⟨op, hop, .inr (hunsent op (hwhy.resolve_left (by simp)))⟩
  have hloop : ∀ op rest results,
      t.pc = .opChecking op rest results ∨ t.pc = .opWaiting op rest results →
      ∃ op, q = (n.primary op.key, op.key) ∧
        (r.thread.pc.awaited = some op ∨ op ∈ unsent ++ t.unsentBy c) := by
    intro op rest results hpc
    have hawaited : t.pc.awaited = some op := by
      rcases hpc with hpc | hpc <;> simp [hpc, Pc.awaited]
    rcases stepTxn_awaiting hstep hpc with ⟨-, rfl⟩ | ⟨hdone, rfl⟩ | ⟨-, -, rfl⟩
    · obtain ⟨op', hop, hwhy⟩ := h.accounted q hq
      exact ⟨op', hop, hwhy.imp hawaited.symm.trans (hunsent op')⟩
    · obtain ⟨op', hop, hwhy⟩ := h.accounted q hq
      refine ⟨op', hop, .inr (hunsent op' (hwhy.resolve_left fun ha => ?_))⟩
      rw [hawaited, Option.some.injEq] at ha
      subst ha
      rw [hop, ← Node.opPending_iff, hdone] at hq
      exact absurd hq (by simp)
    · rw [Node.pendingOps_erasePendingOp, if_pos rfl, Finset.mem_erase] at hq
      obtain ⟨op', hop, hwhy⟩ := h.accounted q hq.2
      refine ⟨op', hop, .inr (hunsent op' (hwhy.resolve_left fun ha => ?_))⟩
      rw [hawaited, Option.some.injEq] at ha
      subst ha
      exact hq.1 hop
  have hs := stepTxn_spec hstep
  cases hs with
  | call hpc _ => exact absurd hpc hcalled
  | @opBegin op rest results hpc _ _ =>
    rw [Node.pendingOps_insertPendingOp, if_pos rfl, Finset.mem_insert] at hq
    rcases hq with rfl | hq
    · exact ⟨op, rfl, .inl rfl⟩
    · obtain ⟨op', hop, hwhy⟩ := h.accounted q hq
      simp only [hpc, Pc.awaited] at hwhy
      exact ⟨op', hop, .inr (hunsent op' (hwhy.resolve_left (by simp)))⟩
  | @opThrew op rest results hpc hth =>
    obtain ⟨op', hop, hwhy⟩ := h.accounted q hq
    refine ⟨op', hop, .inr ?_⟩
    simp only [hpc, Pc.awaited, Option.some.injEq] at hwhy
    rcases hwhy with rfl | hwhy
    · exact List.mem_append_right _ (by simp [TxnThread.unsentBy, hpc, hth])
    · exact hunsent op' hwhy
  | @opSent op rest results hpc _ =>
    obtain ⟨op', hop, hwhy⟩ := h.accounted q hq
    simp only [hpc, Pc.awaited] at hwhy
    exact ⟨op', hop, hwhy.imp (fun ha => ha) (hunsent op')⟩
  | opChecked hpc => exact hloop _ _ _ (.inl hpc)
  | opAnswered hpc => exact hloop _ _ _ hpc
  | opTimedOut hpc => exact hloop _ _ _ (.inr hpc)
  | opSleptOn hpc => exact hloop _ _ _ (.inr hpc)
  | opRetrieved hpc => exact hkept rfl (by simp [hpc, Pc.awaited])
  | poll hpc _ | acquired hpc _ | refused hpc _ | lockedLocal hpc _ | beginRemote hpc _ _ _
  | aborting hpc _ | aborted hpc _ | request hpc _ | requestThrew hpc _ | requestedNothing hpc _
  | requested hpc _ | timedOut hpc _ _ _ | woken hpc _ _ _ | sleptOn hpc _ _ _
  | timeoutRelease hpc _ | timeoutThrew hpc _ | timeoutDone hpc | ranLocal hpc _ | allRan hpc
  | releasing hpc _ | releasedLocal hpc _ _ | sendRelease hpc _ | sendThrew hpc _ | rethrown hpc _
  | returned hpc =>
    exact hkept rfl (by simp [hpc, Pc.awaited])

/-- **A step of a call does not let it be overlooked.** -/
theorem TxnThread.Alert.step {b : Bool} {unsent : List Operation} (h : t.Alert n b unsent)
    (hstep : stepTxn n t c = some r) (hcalled : t.pc ≠ .idle) :
    r.thread.Alert r.node false (unsent ++ t.unsentBy c) := by
  have hs := stepTxn_spec hstep
  have hid : r.thread.txId = t.txId := (hs.id_of_called hcalled).1
  refine ⟨fun hpc _ => ?_, fun op rest results hpc _ => ?_, fun q hq => ?_⟩
  · -- it goes to sleep only when something is pending
    rw [hid]
    generalize hr : r = r' at hs
    cases hs with
    | requested _ hpending =>
      show (n.touchPending t.txId).pendingLocks t.txId ≠ ∅
      rwa [Node.pendingLocks_touchPending]
    | sleptOn _ _ _ hpending => simpa using hpending
    | opSleptOn hwaits => exact absurd hpc (by simp [hr, hwaits])
    | _ => exact absurd hpc (by simp [hr, TxnThread.goto])
  · rw [hid]
    have hwaits : t.pc = .opChecking op rest results ∨ t.pc = .opWaiting op rest results := by
      generalize hr : r = r' at hs
      cases hs with
      | opChecked hpc' =>
        rw [hr] at hpc
        simp only [TxnThread.goto, Pc.opWaiting.injEq] at hpc
        obtain ⟨rfl, rfl, rfl⟩ := hpc
        exact .inl hpc'
      | opSleptOn hpc' => exact .inr (by simpa [hr] using hpc)
      | sleptOn hpc' _ _ _ => exact absurd hpc (by simp [hr, hpc'])
      | _ => exact absurd hpc (by simp [hr, TxnThread.goto])
    rcases stepTxn_awaiting hstep hwaits with ⟨hpending, rfl⟩ | ⟨-, rfl⟩ | ⟨-, -, rfl⟩
    · exact Finset.ne_empty_of_mem (Node.opPending_iff.mp hpending)
    · exact absurd hpc (by simp [TxnThread.goto])
    · exact absurd hpc (by simp [TxnThread.goto])
  · rw [hid] at hq
    obtain ⟨op, hop, hwhy⟩ := h.accounted_step hstep hcalled hq
    exact ⟨op, by rw [Node.primary, hs.routing_eq]; exact hop, hwhy⟩

/-- A call that is being made finds nothing under its id. -/
theorem TxnThread.Alert.of_call (hstep : stepTxn n t c = some r) (hidle : t.pc = .idle)
    (hempty : n.pendingOps n.nextTxId = ∅) (unsent : List Operation) :
    r.thread.Alert r.node false unsent := by
  have hs := stepTxn_spec hstep
  cases hs with
  | call _ _ =>
    refine ⟨by simp, by simp, fun q hq => ?_⟩
    have hnone : q ∈ n.pendingOps n.nextTxId := hq
    rw [hempty] at hnone
    exact absurd hnone (by simp)
  | _ => simp_all

end Call

/-! ## 4. All calls -/

namespace Monitored

variable {ι : Type*} [DecidableEq ι] [Fintype ι]

/-- The calls of the node, as a family with their ids. -/
def calls (w : OpenNode ι) : SingleNode ι := { node := w.node, txns := w.txns, hist := [] }

/-- No call is overlooked, and an id that nobody has is waiting for nothing. -/
structure Inv (w : Monitored ι) : Prop extends SingleNode.IdInv (calls w.inner) where
  alert : ∀ i, (w.inner.txns i).pc ≠ .idle →
    (w.inner.txns i).Alert w.inner.node (w.notified i) (w.unsent i)
  unused : ∀ t, (∀ i, (w.inner.txns i).pc ≠ .idle → (w.inner.txns i).txId ≠ t) →
    w.inner.node.pendingOps t = ∅

omit [DecidableEq ι] in
theorem inv_initial (routing : Routing) (store : ThreadSafeKVStore) (txs : ι → Transaction) :
    Inv (initial routing store txs) where
  toIdInv := SingleNode.idInv_initial routing store txs
  alert _ hi := absurd rfl hi
  unused _ _ := rfl

end Monitored

/-- The sets of another id are not touched by a call. -/
theorem TxnStepped.pendingOps_of_ne {n : Node} {t : TxnThread} {c : Choice} {r : TxnStep}
    (h : TxnStepped n t c r) {id : TransactionId} (hne : t.pc ≠ .idle → id ≠ t.txId) :
    r.node.pendingOps id = n.pendingOps id := by
  cases h with
  | opBegin hpc _ _ => rw [Node.pendingOps_insertPendingOp, if_neg (hne (by simp [hpc]))]
  | opTimedOut hpc => rw [Node.pendingOps_erasePendingOp, if_neg (hne (by simp [hpc]))]
  | _ => rfl

theorem TxnStepped.pendingLocks_of_ne {n : Node} {t : TxnThread} {c : Choice} {r : TxnStep}
    (h : TxnStepped n t c r) {id : TransactionId} (hne : t.pc ≠ .idle → id ≠ t.txId) :
    r.node.pendingLocks id = n.pendingLocks id := by
  unfold Node.pendingLocks
  rcases h.pending_id id with heq | ⟨hid, hcalled⟩
  · rw [heq]
  · exact absurd hid (hne hcalled)

namespace Monitored

variable {ι : Type*} [DecidableEq ι] [Fintype ι] {w w' : Monitored ι} {l : OpenLabel ι}

/-- **A step of a call.** -/
theorem Inv.txn (hcard : Fintype.card ι < 2 ^ 64) (h : Inv w) {i : ι} {c : Choice} {r : TxnStep}
    (hr : stepTxn w.inner.node (w.inner.txns i) c = some r) :
    Inv { inner := { w.inner with node := r.node, txns := Function.update w.inner.txns i r.thread }
          notified := Function.update w.notified i false
          unsent := Function.update w.unsent i (w.unsent i ++ (w.inner.txns i).unsentBy c) } where
  toIdInv :=
    have hid := SingleNode.idInv_step hcard h.toIdInv (i := i) (stepTxn_spec hr)
    ⟨hid.next, hid.le, hid.inj⟩
  alert j hj := by
    dsimp only at hj ⊢
    have hs := stepTxn_spec hr
    rcases eq_or_ne j i with rfl | hne
    · simp only [Function.update_self]
      by_cases hidle : (w.inner.txns j).pc = .idle
      · refine .of_call hr hidle (h.unused _ fun k hk => ?_) _
        have hnot : j ∉ (calls w.inner).calledSet := by
          simpa [SingleNode.mem_calledSet, calls] using hidle
        exact h.next_unused hcard hnot k (SingleNode.mem_calledSet.mpr hk)
      · exact (h.alert j hidle).step hr hidle
    · simp only [Function.update_of_ne hne] at hj ⊢
      have hids : (w.inner.txns i).pc ≠ .idle → (w.inner.txns j).txId ≠ (w.inner.txns i).txId :=
        fun hi hid => hne (h.inj j (SingleNode.mem_calledSet.mpr hj) i
          (SingleNode.mem_calledSet.mpr hi) hid)
      exact (h.alert j hj).of_same id (hs.pendingLocks_of_ne hids) (hs.pendingOps_of_ne hids)
        hs.routing_eq
  unused t ht := by
    have hs := stepTxn_spec hr
    have hold : ∀ j, (w.inner.txns j).pc ≠ .idle → (w.inner.txns j).txId ≠ t := by
      intro j hj hid
      rcases eq_or_ne j i with rfl | hne
      · refine ht j ?_ ?_
        · simpa using (hs.id_of_called hj).2.1
        · simpa using (hs.id_of_called hj).1.trans hid
      · exact ht j (by simpa [hne] using hj) (by simpa [hne] using hid)
    exact (hs.pendingOps_of_ne fun hi hid => hold i hi hid.symm).trans (h.unused t hold)

omit [DecidableEq ι] in
/-- A step of the environment: the node changes, the calls do not. -/
theorem Inv.of_node (h : Inv w) {n : Node} {handlers : List Handler} {notified : ι → Bool}
    (hnext : n.nextTxId = w.inner.node.nextTxId)
    (halert : ∀ i, (w.inner.txns i).Alert w.inner.node (w.notified i) (w.unsent i) →
      (w.inner.txns i).Alert n (notified i) (w.unsent i))
    (hops : ∀ t, n.pendingOps t ⊆ w.inner.node.pendingOps t) :
    Inv { inner := { w.inner with node := n, handlers := handlers }
          notified := notified
          unsent := w.unsent } where
  next := hnext.trans h.next
  le := h.le
  inj := h.inj
  alert i hi := halert i (h.alert i hi)
  unused t ht := Finset.subset_empty.mp (h.unused t ht ▸ hops t)

omit [DecidableEq ι] [Fintype ι] in
/-- Whom a lock response does not wake up still has something pending. -/
theorem alert_lockResponse {i : ι} {peer : NodeID} {msg : JsonObject} {t : TransactionId}
    {k : KeyType} {granted : Bool} (hd : dispatch msg = some (.lockResponse t k granted))
    (h : (w.inner.txns i).Alert w.inner.node (w.notified i) (w.unsent i)) :
    (w.inner.txns i).Alert (w.inner.node.handleLockResponse peer t k granted)
      (w.notified i || wakes w.inner peer msg i) (w.unsent i) := by
  obtain ⟨hrouting, -, hops, -⟩ := w.inner.node.handleLockResponse_frame peer t k granted
  have hpending :
      (w.inner.node.handleLockResponse peer t k granted).pendingOps (w.inner.txns i).txId
        = w.inner.node.pendingOps (w.inner.txns i).txId := by
    rw [Node.pendingOps, hops, Node.pendingOps]
  have hsame : ∀ b : Bool, (w.notified i || b) = false → w.notified i = false := fun b hb => by
    rw [Bool.or_eq_false_iff] at hb
    exact hb.1
  by_cases hid : (w.inner.txns i).txId = t
  · refine ⟨fun hpc hb => ?_, fun op rest results hpc hb => ?_, fun q hq => ?_⟩
    · rw [Bool.or_eq_false_iff] at hb
      have hnot : w.inner.node.notifiesLocks peer t k granted = false := by
        simpa [wakes, hd, hpc] using hb.2
      rw [hid]
      exact Node.pendingLocks_of_not_notifies hnot (hid ▸ h.locks hpc hb.1)
    · rw [hpending]
      exact h.ops op rest results hpc (hsame _ hb)
    · obtain ⟨op, hop, hwhy⟩ := h.accounted q (hpending ▸ hq)
      exact ⟨op, by rw [Node.primary, hrouting]; exact hop, hwhy⟩
  · exact h.of_same (hsame _)
      (Node.pendingLocks_handleLockResponse_of_ne _ peer hid k granted) hpending hrouting

omit [DecidableEq ι] [Fintype ι] in
/-- Whom an operation response does not wake up still has an operation pending. -/
theorem alert_opResponse {i : ι} {peer : NodeID} {msg : JsonObject} {t : TransactionId}
    {k : KeyType} {values : ValueContainer} (hd : dispatch msg = some (.opResponse t k values))
    (h : (w.inner.txns i).Alert w.inner.node (w.notified i) (w.unsent i)) :
    (w.inner.txns i).Alert (w.inner.node.handleOperationResponse peer t k values)
      (w.notified i || wakes w.inner peer msg i) (w.unsent i) := by
  have hops :
      (w.inner.node.handleOperationResponse peer t k values).pendingOps (w.inner.txns i).txId
        = if (w.inner.txns i).txId = t then
            (w.inner.node.pendingOps (w.inner.txns i).txId).erase (peer, k)
          else w.inner.node.pendingOps (w.inner.txns i).txId :=
    w.inner.node.pendingOps_erasePendingOp _ _ _
  by_cases hid : (w.inner.txns i).txId = t
  · rw [if_pos hid] at hops
    refine ⟨fun hpc hb => ?_, fun op rest results hpc hb => ?_, fun q hq => ?_⟩
    · rw [Bool.or_eq_false_iff] at hb
      exact h.locks hpc hb.1
    · rw [Bool.or_eq_false_iff] at hb
      have hnot : w.inner.node.notifiesOps peer t k = false := by
        simpa [wakes, hd, hpc] using hb.2
      rw [Node.notifiesOps, decide_eq_false_iff_not, Node.pendingOps_erasePendingOp, if_pos rfl,
        ← hid] at hnot
      rwa [hops]
    · rw [hops] at hq
      exact h.accounted q (Finset.mem_of_mem_erase hq)
  · rw [if_neg hid] at hops
    refine h.of_same (fun hb => ?_) rfl hops rfl
    rw [Bool.or_eq_false_iff] at hb
    exact hb.1

omit [DecidableEq ι] in
/-- **A message comes in.** -/
theorem Inv.receive (h : Inv w) {peer : NodeID} {msg : JsonObject} {n : Node} {b : Option Handler}
    (hr : OpenNode.Received w.inner.node peer msg n b) :
    Inv { inner := { w.inner with node := n, handlers := w.inner.handlers ++ b.toList }
          notified := fun i => w.notified i || wakes w.inner peer msg i
          unsent := w.unsent } := by
  have hsame : ∀ i, (w.notified i || wakes w.inner peer msg i) = false → w.notified i = false := by
    intro i hb
    rw [Bool.or_eq_false_iff] at hb
    exact hb.1
  cases hr with
  | lockResponse hd _ =>
    refine h.of_node (Node.nextTxId_handleLockResponse ..) (fun i hi => alert_lockResponse hd hi)
      fun t => ?_
    obtain ⟨-, -, hops, -⟩ := w.inner.node.handleLockResponse_frame peer _ _ _
    rw [Node.pendingOps, hops, Node.pendingOps]
  | @opResponse t k values hd _ =>
    refine h.of_node rfl (fun i hi => alert_opResponse hd hi) fun t' => ?_
    have hops : (w.inner.node.handleOperationResponse peer t k values).pendingOps t'
        = if t' = t then (w.inner.node.pendingOps t').erase (peer, k)
          else w.inner.node.pendingOps t' :=
      w.inner.node.pendingOps_erasePendingOp _ _ _
    rw [hops]
    split
    · exact Finset.erase_subset ..
    · exact Finset.Subset.refl _
  | opRequest _ =>
    rw [Node.handleOperationRequest_frame]
    exact h.of_node rfl (fun i hi => hi.of_same (hsame i) rfl rfl rfl) fun t => Finset.Subset.refl _
  | lockRequest _ | lockRelease _ | nothing =>
    exact h.of_node rfl (fun i hi => hi.of_same (hsame i) rfl rfl rfl) fun t => Finset.Subset.refl _

theorem inv_step (hcard : Fintype.card ι < 2 ^ 64) (h : Inv w) (hs : w.step l = some w') :
    Inv w' := by
  obtain ⟨inner, hinner, rfl⟩ := Option.map_eq_some_iff.mp hs
  cases l with
  | txn i c =>
    obtain ⟨r, hr, rfl⟩ := Option.map_eq_some_iff.mp hinner
    exact h.txn hcard hr
  | receive peer msg =>
    obtain ⟨x, hx, rfl⟩ := Option.map_eq_some_iff.mp hinner
    exact h.receive (OpenNode.handlePeerMessage_received hx)
  | handle pos throws =>
    obtain ⟨a, -, rfl⟩ := Option.map_eq_some_iff.mp hinner
    have hnode := OpenNode.node_of_handlerStepped (Cluster.stepHandler_spec w.inner.node throws a)
    have hsame : ∀ t, (stepHandler w.inner.node throws a).1.pendingLocks t
          = w.inner.node.pendingLocks t ∧
        (stepHandler w.inner.node throws a).1.pendingOps t = w.inner.node.pendingOps t := by
      intro t
      rw [hnode]
      exact ⟨rfl, rfl⟩
    refine h.of_node (by rw [hnode]) (fun i hi => ?_) fun t => (hsame t).2.subset
    exact hi.of_same id (hsame _).1 (hsame _).2 (by rw [hnode])

/-- **No wake-up is lost, but for one reason.**  A node with any calls and any messages, at any time
and in any order.  A call that sleeps and has not been notified since it went to sleep

* on `remote_lock_cv`, has locks pending;
* on `remote_op_cv`, has its operation pending, or else an earlier operation of it, on another pair,
  whose request could not be sent. -/
theorem no_lost_wakeup (hcard : Fintype.card ι < 2 ^ 64) (routing : Routing)
    (store : ThreadSafeKVStore) (txs : ι → Transaction)
    (hr : Reachable step (initial routing store txs) w) {i : ι} (hnot : w.notified i = false) :
    ((w.inner.txns i).pc = .waiting →
      w.inner.node.pendingLocks (w.inner.txns i).txId ≠ ∅) ∧
    ∀ op rest results, (w.inner.txns i).pc = .opWaiting op rest results →
      w.inner.node.opPending (w.inner.txns i).txId (w.inner.node.primary op.key, op.key) = true ∨
      ∃ op' ∈ w.unsent i, op'.key ≠ op.key ∧
        w.inner.node.opPending (w.inner.txns i).txId (w.inner.node.primary op'.key, op'.key)
          = true := by
  have hinv : Inv w := Run.invariant (I := Inv) hr (inv_initial routing store txs)
    fun w l w' h _ hs => inv_step hcard h hs
  refine ⟨fun hpc => (hinv.alert i (by simp [hpc])).locks hpc hnot, fun op rest results hpc => ?_⟩
  have halert := hinv.alert i (by simp [hpc])
  obtain ⟨q, hq⟩ := Finset.nonempty_iff_ne_empty.mpr (halert.ops op rest results hpc hnot)
  obtain ⟨op', rfl, hwhy⟩ := halert.accounted q hq
  have hpending := Node.opPending_iff.mpr hq
  by_cases hkey : op'.key = op.key
  · exact .inl (hkey ▸ hpending)
  · refine .inr ⟨op', hwhy.resolve_left fun ha => ?_, hkey, hpending⟩
    simp only [hpc, Pc.awaited, Option.some.injEq] at ha
    exact hkey (congrArg Operation.key ha.symm)

/-- An append to key 1, on node 1, and one to key 2, on node 2. -/
def twoRemote : Bool → Transaction
  | false => [.append 1 5, .append 2 6]
  | true => []

/-- The request for key 1 cannot be sent; the answer for key 2 comes while the call sleeps. -/
def unheard : List (OpenLabel Bool) :=
  [.txn false {}, .txn false { pairs := [(1, 1), (2, 2)] }, .txn false {}, .txn false {},
    .txn false {}, .receive 1 (Message.lockGranted 1 1).toJson, .txn false {},
    .txn false {}, .txn false { throws := true },
    .txn false {}, .txn false {}, .txn false {}, .receive 2 (Message.opResp 1 2 none).toJson]

/-- The answer is there, and the call sleeps on: the pair of key 1 is still in its set. -/
theorem no_lost_wakeup_unheard :
    ∃ w : Monitored Bool,
      Reachable step
        (initial (Cluster.threeNodes.routing 0) (Cluster.emptyStores 0) twoRemote) w ∧
      w.notified false = false ∧ (w.inner.txns false).pc = .opWaiting (.append 2 6) [] [] ∧
      w.inner.node.opPending (w.inner.txns false).txId (w.inner.node.primary 2, 2) = false ∧
      ∃ op' ∈ w.unsent false, op'.key ≠ 2 ∧
        w.inner.node.opPending (w.inner.txns false).txId (w.inner.node.primary op'.key, op'.key)
          = true := by
  have hrun : ((runLabels step
      (initial (Cluster.threeNodes.routing 0) (Cluster.emptyStores 0) twoRemote) unheard).map
      fun w => decide (w.notified false = false ∧
        (w.inner.txns false).pc = .opWaiting (.append 2 6) [] [] ∧
        w.inner.node.opPending (w.inner.txns false).txId (w.inner.node.primary 2, 2) = false))
        = some true := by
    decide +kernel
  obtain ⟨w, hw, hasleep⟩ := Option.map_eq_some_iff.mp hrun
  obtain ⟨hnot, hpc, hdone⟩ := of_decide_eq_true hasleep
  have hr := reachable_of_runLabels _ hw
  refine ⟨w, hr, hnot, hpc, hdone, ?_⟩
  rcases (no_lost_wakeup (by decide) _ _ _ hr hnot).2 _ _ _ hpc with hpending | hstale
  · rw [Operation.key] at hpending
    exact absurd hpending (by simp [hdone])
  · exact hstale

end Monitored

end TwoPL
