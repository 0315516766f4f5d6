/-
# One node on its own: strict serializability

A scheduler started without peers, and any finite family of calls of `execute_transaction` on
it (`SingleNode`).  A step is one step of one call (`stepTxn`), so a run is an interleaving of
polls, store accesses and releases.

Without a coordinator every key is local, and the scheduler is strict two-phase locking: the
relation `Rel` maps every step to steps of `Lib/StrictTwoPhase.lean` (mostly to none), and
strict serializability (`strictly_serializable`) is read off the abstract run.

Lock-table entries name transaction IDS while the abstract protocol names clients, so the
simulation rests on ids being unique (`IdInv`): the counter is 64 bits wide, and fewer than
2^64 calls are made.
-/
import Mathlib.Data.Fintype.Card
import TwoPL.Lib.StrictTwoPhase
import TwoPL.Scheduler

namespace TwoPL

open Lib

/-! ## 1. The system -/

/-- A node, its calls, and what has happened so far. -/
structure SingleNode (ι : Type*) where
  node : Node
  txns : ι → TxnThread
  hist : List (ι × TxnEvent)

namespace SingleNode

variable {ι : Type*} [DecidableEq ι]

/-- One step of the call `l.1`. -/
def step (w : SingleNode ι) (l : ι × Choice) : Option (SingleNode ι) :=
  (stepTxn w.node (w.txns l.1) l.2).map fun r =>
    { node := r.node
      txns := Function.update w.txns l.1 r.thread
      hist := w.hist ++ r.event.toList.map (Prod.mk l.1) }

/-- Nothing has been called yet. -/
def initial (routing : Routing) (store : ThreadSafeKVStore) (txs : ι → Transaction) :
    SingleNode ι where
  node := .fresh routing store
  txns := fun i => .fresh (txs i)
  hist := []

/-- The state after a step of `i` with the result `r`. -/
def after (w : SingleNode ι) (i : ι) (r : TxnStep) : SingleNode ι where
  node := r.node
  txns := Function.update w.txns i r.thread
  hist := w.hist ++ r.event.toList.map (Prod.mk i)

theorem step_spec {w w' : SingleNode ι} {l : ι × Choice} (h : w.step l = some w') :
    ∃ r, TxnStepped w.node (w.txns l.1) l.2 r ∧ w' = w.after l.1 r := by
  obtain ⟨r, hr, rfl⟩ := Option.map_eq_some_iff.mp h
  exact ⟨r, stepTxn_spec hr, rfl⟩

@[simp] theorem after_txns_self (w : SingleNode ι) (i : ι) (r : TxnStep) :
    (w.after i r).txns i = r.thread := by simp [after]

theorem after_txns_of_ne (w : SingleNode ι) {i j : ι} (h : j ≠ i) (r : TxnStep) :
    (w.after i r).txns j = w.txns j := by simp [after, h]

/-- An event of somebody else, or an old one. -/
theorem mem_after_hist {w : SingleNode ι} {i j : ι} {r : TxnStep} {e : TxnEvent} :
    (j, e) ∈ (w.after i r).hist ↔ (j, e) ∈ w.hist ∨ (j = i ∧ r.event = some e) := by
  simp only [after, List.mem_append, List.mem_map, Option.mem_toList, Prod.mk.injEq]
  constructor
  · rintro (h | ⟨e', he', rfl, rfl⟩)
    · exact .inl h
    · exact .inr ⟨rfl, he'⟩
  · rintro (h | ⟨rfl, h⟩)
    · exact .inl h
    · exact .inr ⟨e, h, rfl, rfl⟩

/-! ## 2. Transaction ids -/

section Ids

variable [Fintype ι]

/-- The calls that have been made. -/
def calledSet (w : SingleNode ι) : Finset ι := Finset.univ.filter fun i => (w.txns i).pc ≠ .idle

/-- The counter counts the calls, and the calls have different ids below it. -/
structure IdInv (w : SingleNode ι) : Prop where
  next : w.node.nextTxId = UInt64.ofNat (w.calledSet.card + 1)
  le : ∀ i ∈ w.calledSet, (w.txns i).txId.toNat ≤ w.calledSet.card
  inj : ∀ i ∈ w.calledSet, ∀ j ∈ w.calledSet, (w.txns i).txId = (w.txns j).txId → i = j

omit [DecidableEq ι] in
theorem mem_calledSet {w : SingleNode ι} {i : ι} : i ∈ w.calledSet ↔ (w.txns i).pc ≠ .idle := by
  simp [calledSet]

omit [DecidableEq ι] in
theorem idInv_initial (routing : Routing) (store : ThreadSafeKVStore) (txs : ι → Transaction) :
    IdInv (initial routing store txs) where
  next := by simp [calledSet, initial, TxnThread.fresh, Node.fresh]
  le i hi := by simp [mem_calledSet, initial, TxnThread.fresh] at hi
  inj i hi := by simp [mem_calledSet, initial, TxnThread.fresh] at hi

theorem idInv_step {w : SingleNode ι} {i : ι} {c : Choice} {r : TxnStep}
    (hcard : Fintype.card ι < 2 ^ 64) (h : IdInv w) (hs : TxnStepped w.node (w.txns i) c r) :
    IdInv (w.after i r) := by
  by_cases hidle : (w.txns i).pc = .idle
  · -- a call: one more id, larger than all before it
    obtain ⟨hid, hpc, hnext⟩ := hs.id_of_idle hidle
    have hi : i ∉ w.calledSet := by simp [mem_calledSet, hidle]
    have hset : (w.after i r).calledSet = insert i w.calledSet := by
      ext j
      by_cases hj : j = i
      · subst hj; simp [mem_calledSet, hpc]
      · simp [mem_calledSet, after_txns_of_ne w hj, hj]
    have hlt : w.calledSet.card < Fintype.card ι := by
      have h1 := Finset.card_le_univ (insert i w.calledSet)
      rw [Finset.card_insert_of_notMem hi] at h1
      omega
    have hnew : r.thread.txId.toNat = w.calledSet.card + 1 := by
      rw [hid, h.next, UInt64.toNat_ofNat', Nat.mod_eq_of_lt (by omega)]
    have hold : ∀ j ∈ w.calledSet, (w.after i r).txns j = w.txns j := fun j hj =>
      after_txns_of_ne w (fun e : j = i => hi (e ▸ hj)) r
    refine ⟨?_, ?_, ?_⟩
    · show r.node.nextTxId = _
      rw [hnext, h.next, hset, Finset.card_insert_of_notMem hi]
      exact (UInt64.ofNat_add _ 1).symm
    · intro j hj
      rw [hset, Finset.mem_insert] at hj
      rw [hset, Finset.card_insert_of_notMem hi]
      rcases hj with rfl | hj
      · rw [after_txns_self, hnew]
      · rw [hold j hj]
        exact (h.le j hj).trans (Nat.le_succ _)
    · intro j hj k hk hjk
      rw [hset, Finset.mem_insert] at hj hk
      rcases hj with rfl | hj <;> rcases hk with rfl | hk
      · rfl
      · rw [after_txns_self, hold k hk] at hjk
        have := h.le k hk
        rw [← hjk, hnew] at this
        omega
      · rw [after_txns_self, hold j hj] at hjk
        have := h.le j hj
        rw [hjk, hnew] at this
        omega
      · rw [hold j hj, hold k hk] at hjk
        exact h.inj j hj k hk hjk
  · obtain ⟨hid, hpc, hnext⟩ := hs.id_of_called hidle
    have hset : (w.after i r).calledSet = w.calledSet := by
      ext j
      by_cases hj : j = i
      · subst hj; simp [mem_calledSet, hpc, hidle]
      · simp [mem_calledSet, after_txns_of_ne w hj]
    have hold : ∀ j, ((w.after i r).txns j).txId = (w.txns j).txId := by
      intro j
      by_cases hj : j = i
      · subst hj; rw [after_txns_self, hid]
      · rw [after_txns_of_ne w hj]
    refine ⟨?_, ?_, ?_⟩
    · rw [hset]; exact hnext.trans h.next
    · intro j hj
      rw [hset, hold] at *
      exact h.le j hj
    · intro j hj k hk hjk
      rw [hset] at hj hk
      rw [hold, hold] at hjk
      exact h.inj j hj k hk hjk

end Ids

/-! ## 3. The simulation -/

open StrictTwoPhase

/-- The transactions as programs of the abstract protocol. -/
def setup (txs : ι → Transaction) : Setup ι KeyType ThreadSafeKVStore Operation Results where
  acts := opActions
  key := Operation.key
  prog := txs
  indep := opActions_indep

/-- What an outside observer sees of an event. -/
def observed : ι × TxnEvent → Option (Event ι)
  | (i, .called _) => some (.called i)
  | (i, .returned _) => some (.returned i)
  | _ => none

/-- The operation an event says was executed. -/
def ranOp : TxnEvent → Option Operation
  | .ran op _ => some op
  | _ => none

/-- The operations `i` has executed. -/
def executed (hist : List (ι × TxnEvent)) (i : ι) : List Operation :=
  hist.filterMap fun e => if e.1 = i then ranOp e.2 else none

/-- Where a call is, in terms of the abstract protocol: its status `st`, the keys it owns, what
it ran and observed.  A call of a node without peers is never in one of the remote stages. -/
def Matches (t : TxnThread) (st : Status) (owns : KeyType → Prop) (ran : List Operation)
    (obs : List Results) : Prop :=
  match t.pc with
  | .idle => st = .idle ∧ ran = [] ∧ obs = []
  | .locking todo _ =>
    st = .growing ∧ (∀ op ∈ t.tx, op.key ∉ todo → owns op.key) ∧ ran = [] ∧ obs = []
  | .aborting _ => st = .aborting
  | .executing rest results => st = .running ∧ t.tx = ran ++ rest ∧ results = obs.flatten
  | .releasing _ results rethrow => st = .shrinking ∧ results = obs.flatten ∧ rethrow = false
  | .sendingReleases todo results rethrow =>
    st = .shrinking ∧ results = obs.flatten ∧ rethrow = false ∧ todo = []
  | .returned results =>
    (st = .done true ∧ results = obs.flatten) ∨ (st = .done false ∧ results = [])
  | _ => False

/-- Owning more keys does not hurt. -/
theorem Matches.mono {t : TxnThread} {st : Status} {owns owns' : KeyType → Prop}
    {ran : List Operation} {obs : List Results} (h : Matches t st owns ran obs)
    (himp : ∀ k, owns k → owns' k) : Matches t st owns' ran obs := by
  unfold Matches at *
  split <;> simp_all

variable [Fintype ι]

/-- **The simulation relation.** -/
structure Rel (txs : ι → Transaction) (w : SingleNode ι)
    (a : State ι KeyType ThreadSafeKVStore Operation Results) : Prop extends IdInv w where
  coordinator : w.node.routing.coordinator = none
  tx : ∀ i, (w.txns i).tx = txs i
  store : w.node.store = a.store
  /-- An entry names the id of the abstract owner. -/
  owner : ∀ k, w.node.lockManager.owner k = (a.owner k).map fun i => (w.txns i).txId
  owner_called : ∀ k i, a.owner k = some i → (w.txns i).pc ≠ .idle
  thread : ∀ i, Matches (w.txns i) (a.status i) (fun k => a.owner k = some i) (a.ran i) (a.obs i)
  hist : a.hist = w.hist.filterMap observed
  executed : ∀ i, executed w.hist i = a.ran i
  locked : ∀ i, (i, .locked) ∈ w.hist ↔ (a.status i).locked = true
  aborted : ∀ i, (i, .aborted) ∈ w.hist → a.status i = .aborting ∨ a.status i = .done false
  returned : ∀ i results, (i, .returned results) ∈ w.hist → (w.txns i).pc = .returned results

variable {txs : ι → Transaction} {w : SingleNode ι}
  {a a' : State ι KeyType ThreadSafeKVStore Operation Results}

omit [DecidableEq ι] in
/-- An entry with the id of a call that has been made is owned by that call. -/
theorem Rel.owner_of_id [DecidableEq ι] (h : Rel txs w a) {i : ι} (hi : (w.txns i).pc ≠ .idle)
    {k : KeyType} (hk : w.node.lockManager.owner k = some (w.txns i).txId) :
    a.owner k = some i := by
  rw [h.owner k] at hk
  obtain ⟨j, hj, hid⟩ := Option.map_eq_some_iff.mp hk
  have hji : j = i :=
    h.inj j (mem_calledSet.mpr (h.owner_called k j hj)) i (mem_calledSet.mpr hi) hid
  exact hji ▸ hj

omit [Fintype ι] in
theorem executed_after (w : SingleNode ι) (i j : ι) (r : TxnStep) :
    executed (w.after i r).hist j
      = executed w.hist j ++ (if j = i then (r.event.bind ranOp).toList else []) := by
  simp only [executed, after, List.filterMap_append, List.filterMap_map]
  congr 1
  cases r.event with
  | none => simp
  | some e =>
    by_cases hj : j = i
    · subst hj
      cases hop : ranOp e <;> simp [hop]
    · simp [hj, Ne.symm hj]

/-- What a step of `i` has to establish: the rest of the relation is about others, whom the
step leaves alone. -/
theorem Rel.after (hcard : Fintype.card ι < 2 ^ 64) (h : Rel txs w a) {i : ι} {c : Choice}
    {r : TxnStep} (hs : TxnStepped w.node (w.txns i) c r)
    (hstore : r.node.store = a'.store)
    (howner : ∀ k, r.node.lockManager.owner k
      = (a'.owner k).map fun j => ((w.after i r).txns j).txId)
    (hnew : ∀ k j, a'.owner k = some j → a.owner k = some j ∨ j = i)
    (hframe : ∀ j, j ≠ i → a'.status j = a.status j ∧ a'.ran j = a.ran j ∧ a'.obs j = a.obs j ∧
      ∀ k, a.owner k = some j → a'.owner k = some j)
    (hmatch : Matches r.thread (a'.status i) (fun k => a'.owner k = some i) (a'.ran i) (a'.obs i))
    (hhist : a'.hist = a.hist ++ (r.event.bind fun e => observed (i, e)).toList)
    (hran : a'.ran i = a.ran i ++ (r.event.bind ranOp).toList)
    (hlocked : (a'.status i).locked = true ↔
      r.event = some .locked ∨ (a.status i).locked = true)
    (habort : r.event = some .aborted ∨ a.status i = .aborting ∨ a.status i = .done false →
      a'.status i = .aborting ∨ a'.status i = .done false)
    (hret : ∀ results, r.event = some (.returned results) → r.thread.pc = .returned results) :
    Rel txs (w.after i r) a' where
  toIdInv := idInv_step hcard h.toIdInv hs
  coordinator := by
    show r.node.routing.coordinator = none
    rw [hs.routing_eq, h.coordinator]
  tx j := by
    by_cases hj : j = i
    · subst hj; rw [after_txns_self, hs.tx_eq, h.tx]
    · rw [after_txns_of_ne w hj, h.tx]
  store := hstore
  owner := howner
  owner_called k j hk := by
    by_cases hj : j = i
    · subst hj
      rw [after_txns_self]
      by_cases hidle : (w.txns j).pc = .idle
      · exact (hs.id_of_idle hidle).2.1
      · exact (hs.id_of_called hidle).2.1
    · rw [after_txns_of_ne w hj]
      rcases hnew k j hk with hold | hji
      · exact h.owner_called k j hold
      · exact absurd hji hj
  thread j := by
    by_cases hj : j = i
    · subst hj; rw [after_txns_self]; exact hmatch
    · obtain ⟨h1, h2, h3, h4⟩ := hframe j hj
      rw [after_txns_of_ne w hj, h1, h2, h3]
      exact (h.thread j).mono h4
  hist := by
    rw [hhist, h.hist]
    simp only [SingleNode.after, List.filterMap_append, List.filterMap_map]
    congr 1
    cases r.event with
    | none => rfl
    | some e => cases e <;> rfl
  executed j := by
    rw [executed_after]
    by_cases hj : j = i
    · subst hj; rw [h.executed, hran, if_pos rfl]
    · rw [if_neg hj, h.executed, (hframe j hj).2.1, List.append_nil]
  locked j := by
    rw [mem_after_hist]
    by_cases hj : j = i
    · subst hj
      rw [hlocked, h.locked]
      simp [or_comm]
    · rw [(hframe j hj).1, h.locked]
      simp [hj]
  aborted j hj := by
    rw [mem_after_hist] at hj
    rcases hj with hold | ⟨rfl, he⟩
    · by_cases hji : j = i
      · subst hji; exact habort (.inr (h.aborted j hold))
      · rw [(hframe j hji).1]; exact h.aborted j hold
    · exact habort (.inl he)
  returned j results hj := by
    rw [mem_after_hist] at hj
    rcases hj with hold | ⟨rfl, he⟩
    · have hpc := h.returned j results hold
      have hji : j ≠ i := by
        rintro rfl
        exact hs.ne_returned results hpc
      rw [after_txns_of_ne w hji, hpc]
    · rw [after_txns_self]; exact hret results he

omit [Fintype ι] in
/-- After its call, a step of `i` changes no id. -/
theorem after_txId {i : ι} {c : Choice} {r : TxnStep} (hs : TxnStepped w.node (w.txns i) c r)
    (hi : (w.txns i).pc ≠ .idle) (j : ι) : ((w.after i r).txns j).txId = (w.txns j).txId := by
  by_cases hj : j = i
  · subst hj; rw [after_txns_self, (hs.id_of_called hi).1]
  · rw [after_txns_of_ne w hj]

/-- A step of `i` that the abstract protocol answers with a change of status, or with nothing:
no owner and no store changes. -/
theorem Rel.status (hcard : Fintype.card ι < 2 ^ 64) (h : Rel txs w a) {i : ι} {c : Choice}
    {r : TxnStep} (hs : TxnStepped w.node (w.txns i) c r) (hi : (w.txns i).pc ≠ .idle)
    {x : Status} {hist : List (Event ι)} (hstore : r.node.store = w.node.store)
    (howner : ∀ k, r.node.lockManager.owner k = w.node.lockManager.owner k)
    (hmatch : Matches r.thread x (fun k => a.owner k = some i) (a.ran i) (a.obs i))
    (hhist : hist = a.hist ++ (r.event.bind fun e => observed (i, e)).toList)
    (hran : r.event.bind ranOp = none)
    (hlocked : x.locked = true ↔ r.event = some .locked ∨ (a.status i).locked = true)
    (habort : r.event = some .aborted ∨ a.status i = .aborting ∨ a.status i = .done false →
      x = .aborting ∨ x = .done false)
    (hret : ∀ results, r.event = some (.returned results) → r.thread.pc = .returned results) :
    Rel txs (w.after i r) { a.setStatus i x with hist := hist } := by
  refine h.after hcard hs (hstore.trans h.store) (fun k => ?_) (fun k j hk => .inl hk)
    (fun j hj => ⟨setStatus_of_ne hj x, rfl, rfl, fun k hk => hk⟩) ?_ hhist ?_ ?_ ?_ hret
  · simp only [after_txId hs hi]
    rw [howner k, h.owner k]
    rfl
  · simpa [State.setStatus] using hmatch
  · simp [hran, State.setStatus]
  · simpa [State.setStatus] using hlocked
  · simpa [State.setStatus] using habort

/-- A step that changes nothing the abstract protocol knows of. -/
theorem Rel.stutter (hcard : Fintype.card ι < 2 ^ 64) (h : Rel txs w a) {i : ι} {c : Choice}
    {r : TxnStep} (hs : TxnStepped w.node (w.txns i) c r) (hi : (w.txns i).pc ≠ .idle)
    (hstore : r.node.store = w.node.store)
    (howner : ∀ k, r.node.lockManager.owner k = w.node.lockManager.owner k)
    (hmatch : Matches r.thread (a.status i) (fun k => a.owner k = some i) (a.ran i) (a.obs i))
    (hevent : r.event = none ∨ ∃ key, r.event = some (.granted key) ∨
      r.event = some (.released key)) :
    Rel txs (w.after i r) a := by
  have hquiet : (r.event.bind fun e => observed (i, e)) = none ∧ r.event.bind ranOp = none ∧
      r.event ≠ some .locked ∧ r.event ≠ some .aborted ∧
      ∀ results, r.event ≠ some (.returned results) := by
    rcases hevent with he | ⟨key, he | he⟩ <;> simp [he, observed, ranOp]
  obtain ⟨h1, h2, h3, h4, h5⟩ := hquiet
  have := h.status hcard hs hi hstore howner hmatch (show a.hist = _ by simp [h1]) h2
    (by simp [h3]) (by simp [h4]) (fun results he => absurd he (h5 results))
  simpa [State.setStatus] using this

/-- A step of `i` that hands one key over, in both worlds. -/
theorem Rel.handOver (hcard : Fintype.card ι < 2 ^ 64) (h : Rel txs w a) {i : ι} {c : Choice}
    {r : TxnStep} (hs : TxnStepped w.node (w.txns i) c r) (hi : (w.txns i).pc ≠ .idle)
    {key : KeyType} {x : Option ι} (hx : x = none ∨ x = some i)
    (hkey : ∀ j, j ≠ i → a.owner key ≠ some j) (hstore : r.node.store = w.node.store)
    (howner : ∀ k, r.node.lockManager.owner k
      = if k = key then x.map fun j => (w.txns j).txId else w.node.lockManager.owner k)
    (hmatch : Matches r.thread (a.status i) (fun k => (a.setOwner key x).owner k = some i)
      (a.ran i) (a.obs i))
    (hevent : r.event = some (.granted key) ∨ r.event = some (.released key)) :
    Rel txs (w.after i r) (a.setOwner key x) := by
  refine h.after hcard hs (hstore.trans h.store) (fun k => ?_) (fun k j hk => ?_)
    (fun j hj => ⟨rfl, rfl, rfl, fun k hk => ?_⟩) hmatch ?_ ?_ ?_ ?_ ?_
  · simp only [after_txId hs hi]
    rw [howner k, h.owner k]
    by_cases hk : k = key
    · subst hk; simp [State.setOwner]
    · simp [State.setOwner, hk]
  · by_cases hkk : k = key
    · subst hkk
      rcases hx with rfl | rfl
      · simp [State.setOwner] at hk
      · simp only [State.setOwner, Function.update_self, Option.some.injEq] at hk
        exact .inr hk.symm
    · simp only [State.setOwner, Function.update_of_ne hkk] at hk
      exact .inl hk
  · have hkk : k ≠ key := by
      rintro rfl
      exact hkey j hj hk
    simpa [State.setOwner, hkk] using hk
  · rcases hevent with he | he <;> simp [he, observed, State.setOwner]
  · rcases hevent with he | he <;> simp [he, ranOp, State.setOwner]
  · rcases hevent with he | he <;> simp [he, State.setOwner]
  · rcases hevent with he | he <;> simp [he, State.setOwner]
  · rcases hevent with he | he <;> simp [he]

/-! ### Every step is simulated -/

section NoCoordinator

variable {n : Node}

theorem primary_of_coordinator_none (h : n.routing.coordinator = none) (key : KeyType) :
    n.primary key = n.routing.localNodeId := by
  simp [Node.primary, Routing.primary, Routing.isLocalKey, h]

theorem remotePairs_of_coordinator_none (h : n.routing.coordinator = none) (tx : Transaction) :
    n.remotePairs tx = ∅ := by
  simp [Node.remotePairs, primary_of_coordinator_none h]

/-- ... so that the releases that a call sends are none. -/
theorem eq_nil_of_coordinator_none (h : n.routing.coordinator = none) {tx : Transaction}
    {pairs : List (NodeID × KeyType)} (henum : Enumerates pairs (n.remotePairs tx)) :
    pairs = [] := by
  rw [remotePairs_of_coordinator_none h] at henum
  exact List.toFinset_eq_empty_iff _ |>.mp henum.2

theorem mem_localKeys_of_coordinator_none (h : n.routing.coordinator = none) (tx : Transaction)
    {op : Operation} (hop : op ∈ tx) : op.key ∈ n.localKeys tx := by
  simp only [Node.localKeys, Finset.mem_filter, List.mem_toFinset,
    primary_of_coordinator_none h, and_true]
  exact List.mem_map_of_mem hop

/-- The stages of a call on a node without peers. -/
def AlonePc : Pc → Prop
  | .idle => True
  | .locking _ _ => True
  | .aborting _ => True
  | .executing _ _ => True
  | .releasing _ _ rethrow => rethrow = false
  | .sendingReleases todo _ rethrow => todo = [] ∧ rethrow = false
  | .returned _ => True
  | _ => False

/-- **A call on a node without peers has returned or can go on.** -/
theorem exists_stepTxn {t : TxnThread} (h : n.routing.coordinator = none) (hpc : AlonePc t.pc) :
    (∃ results, t.pc = .returned results) ∨ ∃ c r, stepTxn n t c = some r := by
  obtain ⟨keys, hkeys⟩ := exists_enumerates (n.lockManager.keysToRelease t.txId)
  unfold stepTxn
  cases hp : t.pc with
  | idle =>
    obtain ⟨keys, hkeys⟩ := exists_enumerates (n.localKeys t.tx)
    exact .inr ⟨{ keys }, by simp only [TxnThread.stepCall, if_pos hkeys]; exact ⟨_, rfl⟩⟩
  | locking todo stage =>
    refine .inr ⟨{}, ?_⟩
    cases todo with
    | nil =>
      simp only [TxnThread.stepLocking, if_pos (remotePairs_of_coordinator_none h t.tx)]
      exact ⟨_, rfl⟩
    | cons key todo =>
      simp only [TxnThread.stepLocking]
      split <;> exact ⟨_, rfl⟩
  | aborting stage =>
    refine .inr ⟨{ keys }, ?_⟩
    cases stage with
    | take =>
      simp only [TxnThread.stepAborting, releaseAllStep, if_pos hkeys]
      exact ⟨_, rfl⟩
    | releasing todo =>
      cases todo <;> exact ⟨_, rfl⟩
  | executing rest results =>
    refine .inr ⟨{}, ?_⟩
    cases rest with
    | nil => exact ⟨_, rfl⟩
    | cons op rest =>
      simp only [TxnThread.stepExecuting, if_pos (primary_of_coordinator_none h op.key)]
      exact ⟨_, rfl⟩
  | releasing stage results rethrow =>
    have hnone : Enumerates [] (n.remotePairs t.tx) := by
      rw [remotePairs_of_coordinator_none h]
      exact ⟨List.nodup_nil, rfl⟩
    refine .inr ⟨{ keys }, ?_⟩
    cases stage with
    | take =>
      simp only [TxnThread.stepReleasing, releaseAllStep, if_pos hkeys]
      exact ⟨_, rfl⟩
    | releasing todo =>
      cases todo with
      | nil =>
        simp only [TxnThread.stepReleasing, releaseAllStep, if_pos hnone]
        exact ⟨_, rfl⟩
      | cons key todo => exact ⟨_, rfl⟩
  | sendingReleases todo results rethrow =>
    simp only [hp, AlonePc] at hpc
    obtain ⟨rfl, rfl⟩ := hpc
    exact .inr ⟨{}, _, rfl⟩
  | returned results => exact .inl ⟨_, rfl⟩
  | _ => simp [hp, AlonePc] at hpc

end NoCoordinator

/-- A section of `release_all` by `i` gives back a key of `i`, or changes no owner. -/
theorem Rel.releaseAll (hcard : Fintype.card ι < 2 ^ 64) (h : Rel txs w a) {i : ι} {c : Choice}
    {stage stage' : ReleaseAllStage} {lm : LockManager} {pc : Pc}
    {r : TxnStep} (hr : r = { node := { w.node with lockManager := lm }
                              thread := (w.txns i).goto pc
                              event := stage.event })
    (hs : TxnStepped w.node (w.txns i) c r)
    (hrel : ReleaseAllStep w.node.lockManager (w.txns i).txId stage lm (some stage'))
    (hi : (w.txns i).pc ≠ .idle) (hst : a.status i = .shrinking ∨ a.status i = .aborting)
    (hmatch : ∀ owns, Matches ((w.txns i).goto pc) (a.status i) owns (a.ran i) (a.obs i)) :
    ∃ a', Relation.ReflTransGen (Step (setup txs)) a a' ∧
      Rel txs (w.after i r) a' := by
  subst hr
  cases hrel with
  | take _ =>
    exact ⟨a, .refl, h.stutter hcard hs hi rfl (by simp) (hmatch _) (.inl rfl)⟩
  | @release key keys =>
    by_cases hown : w.node.lockManager.owner key = some (w.txns i).txId
    · have hai : a.owner key = some i := h.owner_of_id hi hown
      refine ⟨a.setOwner key none, .single (.release i key hst hai), ?_⟩
      refine h.handOver hcard hs hi (.inl rfl) (fun j hj => ?_) rfl (fun k => ?_) (hmatch _)
        (.inr rfl)
      · rw [hai, ne_eq, Option.some.injEq]; exact hj.symm
      · rw [LockManager.owner_release]
        simp [hown]
    · refine ⟨a, .refl, h.stutter hcard hs hi rfl (fun k => ?_) (hmatch _) (.inr ⟨key, .inr rfl⟩)⟩
      rw [LockManager.owner_release, if_neg fun e => hown e.2]

/-- **Every step of the node is a step of the abstract protocol, or none.** -/
theorem rel_step (hcard : Fintype.card ι < 2 ^ 64) {w w' : SingleNode ι} {l : ι × Choice}
    (h : Rel txs w a) (hstep : w.step l = some w') :
    ∃ a', Relation.ReflTransGen (Step (setup txs)) a a' ∧ Rel txs w' a' := by
  obtain ⟨r, hs, rfl⟩ := step_spec hstep
  obtain ⟨i, c⟩ := l
  dsimp only at hs ⊢
  have hm := h.thread i
  unfold Matches at hm
  have hs' := hs
  cases hs with
  | @call keys hpc henum =>
    simp only [hpc] at hm
    refine ⟨_, .single (.call i hm.1), ?_⟩
    refine h.after hcard hs' h.store (fun k => ?_) (fun k j hk => .inl hk)
      (fun j hj => ⟨setStatus_of_ne hj _, rfl, rfl, fun k hk => hk⟩) ?_ rfl ?_ ?_ ?_ (by simp)
    · -- the caller, whose id is new, owns nothing
      show w.node.lockManager.owner k = (a.owner k).map _
      rw [h.owner k]
      refine Option.map_congr fun j hj => ?_
      have hji : j ≠ i := by
        rintro rfl
        exact h.owner_called k j hj hpc
      rw [after_txns_of_ne w hji]
    · simp only [Matches, State.setStatus, Function.update_self]
      refine ⟨trivial, fun op hop hnot => ?_, hm.2⟩
      exact absurd ((henum.mem_iff _).mpr
        (mem_localKeys_of_coordinator_none h.coordinator _ hop)) hnot
    · simp [State.setStatus, ranOp]
    · simp [State.setStatus, Status.locked, hm.1]
    · simp [hm.1]
  | @poll key todo stage stage' lm hpc hacq =>
    simp only [hpc] at hm
    exact ⟨a, .refl, h.stutter hcard hs' (by simp [hpc]) rfl (hacq.owner_unchanged (by simp)) hm
      (.inl rfl)⟩
  | @acquired key todo stage lm hpc hacq =>
    simp only [hpc] at hm
    have hi : (w.txns i).pc ≠ .idle := by simp [hpc]
    cases hacq with
    | take _ hnone =>
      have hown : a.owner key = none := by
        rw [h.owner key, Option.map_eq_none_iff] at hnone
        exact hnone
      refine ⟨_, .single (.acquire i key hm.1 hown), ?_⟩
      refine h.handOver hcard hs' hi (.inr rfl) (fun j _ => by simp [hown]) rfl (fun k => ?_) ?_
        (.inl rfl)
      · simp
      · refine ⟨hm.1, fun op hop hnot => ?_, hm.2.2⟩
        by_cases hk : op.key = key
        · simp [State.setOwner, hk]
        · simpa [State.setOwner, hk] using hm.2.1 op hop (by simp [hk, hnot])
    | reenter hself =>
      have hown : a.owner key = some i := h.owner_of_id hi hself
      refine ⟨a, .refl, h.stutter hcard hs' hi rfl (fun k => rfl) ?_ (.inr ⟨key, .inl rfl⟩)⟩
      refine ⟨hm.1, fun op hop hnot => ?_, hm.2.2⟩
      by_cases hk : op.key = key
      · rw [hk]; exact hown
      · exact hm.2.1 op hop (by simp [hk, hnot])
  | @refused key todo stage lm hpc hacq =>
    simp only [hpc] at hm
    refine ⟨_, .single (.abort i hm.1), ?_⟩
    refine h.status hcard hs' (by simp [hpc]) rfl (hacq.owner_unchanged (by simp)) rfl
      (by simp [observed]) rfl ?_ (fun _ => .inl rfl) (by simp)
    simp [Status.locked, hm.1]
  | @lockedLocal stage hpc _ =>
    simp only [hpc] at hm
    have howns : ∀ o ∈ (setup txs).prog i, a.owner ((setup txs).key o) = some i :=
      fun o ho => hm.2.1 o ((h.tx i).symm ▸ ho) (by simp)
    refine ⟨_, .single (.lock i hm.1 howns), ?_⟩
    refine h.status hcard hs' (by simp [hpc]) rfl (fun k => rfl) ?_
      (by simp [observed]) rfl ?_ ?_ (by simp)
    · exact ⟨rfl, by simp [hm.2.2.1, TxnThread.goto], by simp [hm.2.2.2]⟩
    · simp [Status.locked]
    · simp [hm.1]
  | aborting hpc hrel =>
    simp only [hpc] at hm
    exact h.releaseAll hcard rfl hs' hrel (by simp [hpc]) (.inr hm) fun _ => hm
  | aborted hpc hrel =>
    simp only [hpc] at hm
    cases hrel with
    | done =>
      refine ⟨_, .single (.return i false hm), ?_⟩
      refine h.status hcard hs' (by simp [hpc]) rfl (fun k => rfl) (.inr ⟨rfl, rfl⟩) rfl rfl ?_
        (fun _ => .inr rfl) ?_
      · simp [Status.locked, hm]
      · simp [TxnThread.goto]
  | @ranLocal op rest results hpc _ =>
    simp only [hpc] at hm
    obtain ⟨hst, htx, hres⟩ := hm
    have hprog : (setup txs).prog i = a.ran i ++ op :: rest := (h.tx i).symm.trans htx
    refine ⟨_, .single (.exec i op rest hst hprog), ?_⟩
    refine h.after hcard hs' ?_ (fun k => ?_) (fun k j hk => .inl hk)
      (fun j hj => ⟨rfl, extend_of_ne hj op, by simp [hj], fun k hk => hk⟩) ?_ ?_ ?_ ?_ ?_ (by simp)
    · show _ = (NaiveOpExecutor.accept a.store op).1
      rw [← h.store]
    · simp only [after_txId hs' (by simp [hpc] : (w.txns i).pc ≠ .idle)]
      exact h.owner k
    · refine ⟨hst, ?_, ?_⟩
      · simp [TxnThread.goto, htx]
      · simp [hres, collect, setup, opActions, h.store]
    · simp [observed]
    · simp [ranOp]
    · simp
    · simp
  | @allRan results hpc =>
    simp only [hpc] at hm
    obtain ⟨hst, htx, hres⟩ := hm
    have hran : a.ran i = (setup txs).prog i := by
      rw [List.append_nil] at htx
      exact htx.symm.trans (h.tx i)
    refine ⟨_, .single (.finish i hst hran), ?_⟩
    refine h.status hcard hs' (by simp [hpc]) rfl (fun k => rfl) ⟨rfl, hres, rfl⟩
      (by simp) rfl ?_ ?_ (by simp)
    · simp [Status.locked, hst]
    · simp [hst]
  | releasing hpc hrel =>
    simp only [hpc] at hm
    exact h.releaseAll hcard rfl hs' hrel (by simp [hpc]) (.inl hm.1) fun _ => hm
  | @releasedLocal stage lm pairs results rethrow hpc hrel henum =>
    simp only [hpc] at hm
    cases hrel with
    | done =>
      have hpairs := eq_nil_of_coordinator_none h.coordinator henum
      exact ⟨a, .refl, h.stutter hcard hs' (by simp [hpc]) rfl (fun k => rfl)
        ⟨hm.1, hm.2.1, hm.2.2, hpairs⟩ (.inl rfl)⟩
  | @returned results hpc =>
    simp only [hpc] at hm
    refine ⟨_, .single (.return i true hm.1), ?_⟩
    refine h.status hcard hs' (by simp [hpc]) rfl (fun k => rfl) (.inl ⟨rfl, hm.2.1⟩) rfl rfl ?_
      ?_ ?_
    · simp [Status.locked, hm.1]
    · simp [hm.1]
    · simp [TxnThread.goto]
  | beginRemote _ hrem _ _ =>
    exact absurd (remotePairs_of_coordinator_none h.coordinator _) hrem
  | opBegin _ hremote _ =>
    exact absurd (primary_of_coordinator_none h.coordinator _) hremote
  | opAnswered hpc => rcases hpc with hpc | hpc <;> simp [hpc] at hm
  | sendRelease hpc _ => simp [hpc] at hm
  | sendThrew hpc _ => simp [hpc] at hm
  | rethrown hpc _ => simp [hpc] at hm
  | _ => simp [*] at hm

omit [Fintype ι] in
theorem rel_initial [Fintype ι] {routing : Routing} (hrouting : routing.coordinator = none)
    (store : ThreadSafeKVStore) (txs : ι → Transaction) :
    Rel txs (initial routing store txs) (init store) where
  toIdInv := idInv_initial routing store txs
  coordinator := hrouting
  tx _ := rfl
  store := rfl
  owner k := by simp [initial, Node.fresh, init]
  owner_called k i h := by simp [init] at h
  thread i := ⟨rfl, rfl, rfl⟩
  hist := rfl
  executed _ := rfl
  locked i := by simp [initial, init, Status.locked]
  aborted i h := by simp [initial] at h
  returned i results h := by simp [initial] at h

/-- A state that is reached is one of the abstract protocol, with its invariant. -/
theorem exists_rel (hcard : Fintype.card ι < 2 ^ 64) {routing : Routing}
    (hrouting : routing.coordinator = none) {store₀ : ThreadSafeKVStore}
    (hr : Reachable step (initial routing store₀ txs) w) :
    ∃ a order, Rel txs w a ∧ Inv (setup txs) store₀ a order := by
  obtain ⟨a, ha, hR⟩ := hr.simulation (rel_initial hrouting store₀ txs)
    fun s l s' a hR _ hs => rel_step hcard hR hs
  obtain ⟨order, hinv⟩ := exists_inv ha
  exact ⟨a, order, hR, hinv⟩

/-! ## 4. Strict serializability -/

/-- A transaction executed alone: the store afterwards, and what its reads returned. -/
def runAlone (store : ThreadSafeKVStore) : Transaction → ThreadSafeKVStore × Results
  | [] => (store, [])
  | op :: tx =>
    let (store', result) := NaiveOpExecutor.accept store op
    let (store'', results) := runAlone store' tx
    (store'', localResult op result ++ results)

/-- Transactions executed one after the other. -/
def runSerially (store : ThreadSafeKVStore) (txs : List Transaction) : ThreadSafeKVStore :=
  txs.foldl (fun store tx => (runAlone store tx).1) store

theorem runAlone_eq (store : ThreadSafeKVStore) (tx : Transaction) :
    runAlone store tx = (opActions.execAll store tx, (opActions.obsAll store tx).flatten) := by
  induction tx generalizing store with
  | nil => rfl
  | cons op tx ih => simp only [runAlone, ih]; rfl

/-- One more operation at the end. -/
theorem runAlone_concat (store : ThreadSafeKVStore) (tx : Transaction) (op : Operation) :
    runAlone store (tx ++ [op])
      = ((NaiveOpExecutor.accept (runAlone store tx).1 op).1,
        (runAlone store tx).2
          ++ localResult op (NaiveOpExecutor.accept (runAlone store tx).1 op).2) := by
  simp only [runAlone_eq, Actions.execAll_append, Actions.obsAll_append, List.flatten_append]
  simp [Actions.obsAll, opActions]

omit [DecidableEq ι] [Fintype ι] in
theorem runSerially_map (store : ThreadSafeKVStore) (blocks : ι → Transaction) (order : List ι) :
    runSerially store (order.map blocks) = serialState opActions store blocks order := by
  induction order generalizing store with
  | nil => rfl
  | cons i order ih =>
    have hcons : i :: order = [i] ++ order := rfl
    rw [hcons, serialState_append, serialState_singleton, ← ih]
    simp [runSerially, runAlone_eq]

omit [Fintype ι] in
/-- `order` is a strict serialization of what has happened on the node. -/
structure StrictSerialization (store₀ : ThreadSafeKVStore) (txs : ι → Transaction)
    (w : SingleNode ι) (order : List ι) : Prop where
  nodup : order.Nodup
  /-- It lists the calls that got past `acquire_all_locks`. -/
  mem_iff : ∀ i, i ∈ order ↔ (i, .locked) ∈ w.hist
  /-- What they have executed, executed one call after the other, gives the store. -/
  store_eq : w.node.store = runSerially store₀ (order.map (executed w.hist))
  /-- One that has returned has executed its whole transaction, and returned what its reads
  return in the serial execution. -/
  results_eq : ∀ before i behind results, order = before ++ i :: behind →
    (i, .returned results) ∈ w.hist →
    executed w.hist i = txs i ∧
      results = (runAlone (runSerially store₀ (before.map (executed w.hist))) (txs i)).2
  /-- When all of them have returned, this is the serial execution of whole transactions. -/
  finished : (∀ i ∈ order, ∃ results, (i, .returned results) ∈ w.hist) →
    w.node.store = runSerially store₀ (order.map txs) ∧
    ∀ before i behind results, order = before ++ i :: behind → (i, .returned results) ∈ w.hist →
      results = (runAlone (runSerially store₀ (before.map txs)) (txs i)).2
  /-- One that returned before another was called comes first. -/
  realtime : ∀ before i behind, order = before ++ i :: behind → ∀ j ∈ behind, ∀ results txId,
    ¬ Precedes w.hist (j, .returned results) (i, .called txId)
  /-- One that aborted is not in the order and has executed nothing. -/
  aborted : ∀ i, (i, .aborted) ∈ w.hist → i ∉ order ∧ executed w.hist i = []

/-- **Strict serializability on one node.**  A scheduler started without peers, any finite family
of fewer than 2^64 transactions, any store: whatever the interleaving of their polls, store
accesses and releases, what has happened is strictly serializable. -/
theorem strictly_serializable (hcard : Fintype.card ι < 2 ^ 64) {hash : KeyType → UInt64}
    {g : NodeID} {nodeID : String} {routing : Routing}
    (hstart : start hash (.fresh g) nodeID [] = .ok routing) (store₀ : ThreadSafeKVStore)
    (txs : ι → Transaction) {w : SingleNode ι}
    (hr : Reachable step (initial routing store₀ txs) w) :
    ∃ order, StrictSerialization store₀ txs w order := by
  have hrouting : routing.coordinator = none := start_nil_coordinator hstart
  obtain ⟨a, order, hR, hinv⟩ := exists_rel hcard hrouting hr
  have hexec : executed w.hist = a.ran := funext hR.executed
  have hret : ∀ i results, i ∈ order → (i, .returned results) ∈ w.hist →
      a.ran i = txs i ∧ results = (a.obs i).flatten := by
    intro i results hi hret
    have hm := hR.thread i
    simp only [Matches, hR.returned i results hret] at hm
    rcases hm with ⟨hst, hres⟩ | ⟨hst, -⟩
    · exact ⟨hinv.ran_all i (.inr hst), hres⟩
    · have := (hinv.mem_iff i).mp hi
      simp [hst, Status.locked] at this
  have hobs : ∀ before i behind results, order = before ++ i :: behind →
      (i, .returned results) ∈ w.hist → executed w.hist i = txs i ∧
        results = (runAlone (runSerially store₀ (before.map (executed w.hist))) (txs i)).2 := by
    intro before i behind results hord hi
    obtain ⟨hran, hres⟩ := hret i results (by simp [hord]) hi
    refine ⟨hexec ▸ hran, ?_⟩
    rw [hres, hinv.obs_eq before i behind hord, hexec, runSerially_map, runAlone_eq, hran]
    rfl
  have hstore : w.node.store = runSerially store₀ (order.map (executed w.hist)) := by
    rw [hR.store, hinv.store_eq, hexec, runSerially_map]
    rfl
  refine ⟨order, hinv.nodup, fun i => (hinv.mem_iff i).trans (hR.locked i).symm, hstore, hobs,
    fun hall => ?_, ?_, fun i hi => ?_⟩
  · -- every block is the whole transaction
    have hblocks : ∀ i ∈ order, executed w.hist i = txs i := by
      intro i hi
      obtain ⟨results, hres⟩ := hall i hi
      rw [hexec]
      exact (hret i results hi hres).1
    refine ⟨?_, fun before i behind results hord hi => ?_⟩
    · rw [hstore, List.map_congr_left hblocks]
    · have hbefore : before.map (executed w.hist) = before.map txs :=
        List.map_congr_left fun j hj => hblocks j (by simp [hord, hj])
      rw [← hbefore]
      exact (hobs before i behind results hord hi).2
  · intro before i behind hord j hj results txId hp
    refine hinv.realtime before i behind hord j hj ?_
    rw [hR.hist]
    exact hp.filterMap rfl rfl
  · have hst := hR.aborted i hi
    have hun : (a.status i).locked = false := by
      rcases hst with hst | hst <;> simp [hst, Status.locked]
    refine ⟨fun hmem => ?_, hexec ▸ (hinv.ran_nil i hun).1⟩
    have := (hinv.mem_iff i).mp hmem
    simp [hun] at this

/-- A store without keys, with the identity for a hash. -/
def emptyStore : ThreadSafeKVStore where
  hash key := key.toUInt64
  stripes := fun _ _ => none

/-- A writer (`false`) and a reader (`true`) of key 1. -/
def writerReader : Bool → Transaction
  | false => [.append 1 7]
  | true => [.read 1]

/-- The reader polls once while the writer holds the key, and gets it afterwards. -/
def contendedRun : List (Bool × Choice) :=
  [(false, { keys := [1] }), (false, {}), (false, {}), (false, {}), (false, {}),
    (true, { keys := [1] }), (true, {}), (true, {}), (true, {}),
    (false, {}), (false, {}), (false, { keys := [1] }), (false, {}), (false, {}), (false, {}),
    (true, {}), (true, {}), (true, {}), (true, {}), (true, { keys := [1] }), (true, {}),
    (true, {}), (true, {})]

/-- What `start "n0" []` leaves. -/
def aloneRouting : Routing := { Routing.fresh 0 with id := 0, localNodeId := 0 }

theorem strictly_serializable_contended :
    ∃ w : SingleNode Bool,
      start (fun key => key.toUInt64) (.fresh 0) "n0" [] = .ok aloneRouting ∧
      Reachable step (initial aloneRouting emptyStore writerReader) w ∧
      (true, .returned [(1, some [7])]) ∈ w.hist ∧
      ∃ order, StrictSerialization emptyStore writerReader w order := by
  have hstart : start (fun key => key.toUInt64) (.fresh 0) "n0" [] = .ok aloneRouting := by rfl
  have hrun : ((runLabels step (initial aloneRouting emptyStore writerReader) contendedRun).map
      fun w => decide ((true, .returned [(1, some [7])]) ∈ w.hist)) = some true := by
    decide +kernel
  obtain ⟨w, hw, hmem⟩ := Option.map_eq_some_iff.mp hrun
  have hr := reachable_of_runLabels _ hw
  exact ⟨w, hstart, hr, of_decide_eq_true hmem, strictly_serializable (by decide) hstart _ _ hr⟩

end SingleNode

end TwoPL
