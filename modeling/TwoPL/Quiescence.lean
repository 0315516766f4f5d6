/-
# A node on its own comes to rest

A node without peers and any finite family of calls of `execute_transaction`, with any keys in
common.  `acquire` waits for a key in two bounded loops and then gives up, so a call that is kept
waiting aborts, and what it had is given back.  No cycle of waiting calls can last:

* every run is finite (`Terminates`), whatever the scheduler does.  A step of a call decreases the
  measure of that call (`Pc.cost`) and of no other, so nobody can be kept busy by the others;
* a state from which nothing can move is one at rest (`AtRest`): every call has returned, none has
  thrown, no entry of the lock table has an owner and `held_locks` is empty.

The second half is about `held_locks` as much as about the owners.  A key is recorded there BEFORE
it is asked for, so an `acquire` that gives up leaves a record of a key it never owned; it is the
`release_all` on the way out that clears it.  The invariant is `Settled`, for every id.  It holds
while every `acquire` polls the entry of its own key (`LookupNode.lean` has the others).
-/
import TwoPL.CallProgress
import TwoPL.LocalLocks

namespace TwoPL

open Lib LockManager

/-! ## 1. A call without peers -/

section Call

variable {n : Node} {t : TxnThread} {c : Choice} {r : TxnStep}

/-- A call on a node without peers stays in the stages that need none. -/
theorem TxnStepped.alonePc (h : TxnStepped n t c r) (hcoord : n.routing.coordinator = none)
    (hpc : SingleNode.AlonePc t.pc) : SingleNode.AlonePc r.thread.pc := by
  cases h with
  | beginRemote _ hrem _ _ =>
    exact absurd (SingleNode.remotePairs_of_coordinator_none hcoord _) hrem
  | opBegin _ hremote _ =>
    exact absurd (SingleNode.primary_of_coordinator_none hcoord _) hremote
  | opAnswered hpc' => rcases hpc' with hpc' | hpc' <;> simp [hpc', SingleNode.AlonePc] at hpc
  | releasing hpc' _ =>
    rw [hpc'] at hpc
    exact hpc
  | releasedLocal hpc' _ henum =>
    rw [hpc'] at hpc
    exact ⟨SingleNode.eq_nil_of_coordinator_none hcoord henum, hpc⟩
  | sendRelease hpc' _ => simp [hpc', SingleNode.AlonePc] at hpc
  | sendThrew hpc' _ => simp [hpc', SingleNode.AlonePc] at hpc
  | rethrown hpc' _ => simp [hpc', SingleNode.AlonePc] at hpc
  | _ => simp_all [SingleNode.AlonePc, TxnThread.goto]

/-- In these stages it never sleeps. -/
theorem Pc.asleep_of_alonePc {pc : Pc} (h : SingleNode.AlonePc pc) : pc.asleep = false := by
  cases pc <;> first | rfl | exact absurd h (by simp [SingleNode.AlonePc])

/-! ## 2. What an id has left in the tables -/

/-- The tables have nothing of `t`. -/
structure LockManager.Cleared (lm : LockManager) (t : TransactionId) : Prop where
  owner : ∀ k, lm.owner k ≠ some t
  heldLocks : lm.heldLocks t = none

theorem LockManager.Cleared.of_sameFor {lm lm' : LockManager} {t : TransactionId}
    (h : lm.Cleared t) (hsame : SameFor lm lm' t) : lm'.Cleared t where
  owner k hk := h.owner k ((hsame.owner k).mp hk)
  heldLocks := hsame.heldLocks.trans h.heldLocks

/-- The call is past its `release_all`. -/
def Pc.released : Pc → Bool
  | .sendingReleases _ _ _ => true
  | .returned _ => true
  | _ => false

/-- What the tables have of a call: what it holds, and nothing once it has released. -/
def TxnThread.Settled (lm : LockManager) (localKeys : Finset KeyType) (t : TxnThread) : Prop :=
  if t.pc.released then lm.Cleared t.txId else t.pc.Holds lm localKeys t.txId

theorem TxnThread.Settled.of_sameFor {lm lm' : LockManager} {localKeys : Finset KeyType}
    (h : t.Settled lm localKeys) (hsame : SameFor lm lm' t.txId) : t.Settled lm' localKeys := by
  unfold TxnThread.Settled at *
  split at h
  · rename_i hrel
    rw [if_pos hrel]
    exact h.of_sameFor hsame
  · rename_i hrel
    rw [if_neg hrel]
    exact h.of_sameFor hsame

/-- **A step of a call keeps the tables right for it.** -/
theorem TxnStepped.settled (h : TxnStepped n t c r) (hcalled : t.pc ≠ .idle)
    (hpc : SingleNode.AlonePc t.pc) {localKeys : Finset KeyType}
    (ht : t.Settled n.lockManager localKeys) :
    r.thread.Settled r.node.lockManager localKeys := by
  have hid : r.thread.txId = t.txId := (h.id_of_called hcalled).1
  have hholds : t.pc.Holds n.lockManager localKeys t.txId →
      r.thread.pc.Holds r.node.lockManager localKeys t.txId := h.holds hcalled
  unfold TxnThread.Settled at *
  rw [hid]
  cases h with
  | aborted hpc' hrel =>
    rw [hpc'] at ht
    obtain ⟨howner, hheld⟩ := hrel.done_covers ht
    exact ⟨howner, hheld⟩
  | releasedLocal hpc' hrel _ =>
    rw [hpc'] at ht
    obtain ⟨howner, hheld⟩ := hrel.done_covers ht
    exact ⟨howner, hheld⟩
  | returned hpc' =>
    rw [hpc'] at ht
    exact ht
  | opAnswered hpc' => rcases hpc' with hpc' | hpc' <;> simp [hpc', SingleNode.AlonePc] at hpc
  | sendRelease hpc' _ => simp [hpc', SingleNode.AlonePc] at hpc
  | sendThrew hpc' _ => simp [hpc', SingleNode.AlonePc] at hpc
  | rethrown hpc' _ => simp [hpc', SingleNode.AlonePc] at hpc
  | _ => simp_all [Pc.released, TxnThread.goto]

/-- A call that is being made finds nothing under its id. -/
theorem TxnStepped.settled_of_idle (h : TxnStepped n t c r) (hidle : t.pc = .idle)
    (hclear : n.lockManager.Cleared n.nextTxId) :
    r.thread.Settled r.node.lockManager (n.localKeys t.tx) := by
  have hholds := h.holds_of_idle hidle hclear.owner
  cases h with
  | call _ _ => exact hholds
  | _ => simp_all

end Call

/-! ## 3. Runs -/

namespace SingleNode

variable {ι : Type*} [DecidableEq ι]

section Ends

variable [Finite ι] {routing : Routing} {store : ThreadSafeKVStore} {txs : ι → Transaction}
  {w : SingleNode ι}

omit [Finite ι] in
/-- No call of a node without peers is ever in a stage that needs one. -/
theorem alonePc_of_reachable (hcoord : routing.coordinator = none)
    (hr : Reachable step (initial routing store txs) w) :
    w.node.routing.coordinator = none ∧ ∀ i, AlonePc (w.txns i).pc := by
  refine Run.invariant (I := fun w : SingleNode ι => w.node.routing.coordinator = none ∧
    ∀ i, AlonePc (w.txns i).pc) hr ⟨hcoord, fun _ => trivial⟩ ?_
  rintro w ⟨i, c⟩ w' ⟨hc, hpc⟩ _ hs
  obtain ⟨r, hr, rfl⟩ := step_spec hs
  refine ⟨?_, fun j => ?_⟩
  · show r.node.routing.coordinator = none
    rw [hr.routing_eq, hc]
  · by_cases hj : j = i
    · subst hj
      rw [after_txns_self]
      exact hr.alonePc hc (hpc j)
    · rw [after_txns_of_ne w hj]
      exact hpc j

/-- **Every run ends.** -/
theorem terminates (hcoord : routing.coordinator = none) :
    Terminates step (initial routing store txs) := by
  refine terminates_of_parties (fun w i => (w.txns i).pc.cost) ?_
  rintro w ⟨i, c⟩ w' hr hs
  obtain ⟨hc, hpc⟩ := alonePc_of_reachable hcoord hr
  obtain ⟨r, hr, rfl⟩ := step_spec hs
  refine ⟨i, ?_, fun j hj => ?_⟩
  · rw [after_txns_self]
    refine hr.cost_lt.resolve_right fun hslept => ?_
    exact absurd hslept.1 (by simp [Pc.asleep_of_alonePc (hpc i)])
  · rw [after_txns_of_ne w hj]

end Ends

section Rest

variable [Fintype ι] {routing : Routing} {store : ThreadSafeKVStore} {txs : ι → Transaction}
  {w : SingleNode ι}

/-- What the tables of the node have, for every id. -/
structure TablesInv (w : SingleNode ι) : Prop extends IdInv w where
  /-- Of a call that has been made, what `Settled` says. -/
  settled : ∀ i ∈ w.calledSet,
    (w.txns i).Settled w.node.lockManager (w.node.localKeys (w.txns i).tx)
  /-- Of an id that no call has, nothing. -/
  unused : ∀ t, (∀ i ∈ w.calledSet, (w.txns i).txId ≠ t) → w.node.lockManager.Cleared t

omit [DecidableEq ι] in
theorem tablesInv_initial (routing : Routing) (store : ThreadSafeKVStore)
    (txs : ι → Transaction) : TablesInv (initial routing store txs) where
  toIdInv := idInv_initial routing store txs
  settled i hi := by simp [mem_calledSet, initial, TxnThread.fresh] at hi
  unused t _ := ⟨fun k => by simp [initial, Node.fresh], rfl⟩

omit [DecidableEq ι] in
/-- The id that the next call will get is nobody's. -/
theorem IdInv.next_unused (hcard : Fintype.card ι < 2 ^ 64) (h : IdInv w) {i : ι}
    (hi : i ∉ w.calledSet) : ∀ j ∈ w.calledSet, (w.txns j).txId ≠ w.node.nextTxId := by
  intro j hj hid
  have hlt : w.calledSet.card < Fintype.card ι :=
    Finset.card_lt_univ_of_notMem hi
  have hle := h.le j hj
  rw [hid, h.next, UInt64.toNat_ofNat', Nat.mod_eq_of_lt (by omega)] at hle
  omega

theorem tablesInv_step (hcard : Fintype.card ι < 2 ^ 64) (h : TablesInv w) {i : ι} {c : Choice}
    {r : TxnStep} (hpc : AlonePc (w.txns i).pc) (hs : TxnStepped w.node (w.txns i) c r) :
    TablesInv (w.after i r) where
  toIdInv := idInv_step hcard h.toIdInv hs
  settled j hj := by
    show ((w.after i r).txns j).Settled r.node.lockManager (r.node.localKeys _)
    rw [Node.localKeys_congr hs.routing_eq]
    by_cases hji : j = i
    · subst hji
      rw [after_txns_self, hs.tx_eq]
      by_cases hidle : (w.txns j).pc = .idle
      · have hnot : j ∉ w.calledSet := by simp [mem_calledSet, hidle]
        exact hs.settled_of_idle hidle (h.unused _ (h.next_unused hcard hnot))
      · exact hs.settled hidle hpc (h.settled j (mem_calledSet.mpr hidle))
    · rw [mem_calledSet, after_txns_of_ne w hji] at hj
      rw [after_txns_of_ne w hji]
      refine (h.settled j (mem_calledSet.mpr hj)).of_sameFor (hs.sameFor fun hcalled hid => ?_)
      exact hji (h.inj j (mem_calledSet.mpr hj) i (mem_calledSet.mpr hcalled) hid)
  unused t ht := by
    have hold : ∀ j ∈ w.calledSet, (w.txns j).txId ≠ t := by
      intro j hj hid
      rw [mem_calledSet] at hj
      have hj' : j ∈ (w.after i r).calledSet ∧ ((w.after i r).txns j).txId = t := by
        rw [mem_calledSet]
        by_cases hji : j = i
        · subst hji
          rw [after_txns_self]
          exact ⟨(hs.id_of_called hj).2.1, (hs.id_of_called hj).1.trans hid⟩
        · rw [after_txns_of_ne w hji]
          exact ⟨hj, hid⟩
      exact ht j hj'.1 hj'.2
    refine (h.unused t hold).of_sameFor (hs.sameFor fun hcalled hid => ?_)
    exact hold i (mem_calledSet.mpr hcalled) hid.symm

/-- **The node is at rest**: every call has returned, and its tables are as empty as before the
first one. -/
structure AtRest (w : SingleNode ι) : Prop where
  returned : ∀ i, ∃ results, (w.txns i).pc = .returned results
  owner : ∀ k, w.node.lockManager.owner k = none
  heldLocks : ∀ t, w.node.lockManager.heldLocks t = none

omit [DecidableEq ι] in
/-- When every call has returned, the tables are empty. -/
theorem TablesInv.atRest (h : TablesInv w)
    (hret : ∀ i, ∃ results, (w.txns i).pc = .returned results) : AtRest w := by
  have hclear : ∀ t, w.node.lockManager.Cleared t := by
    intro t
    by_cases ht : ∃ i ∈ w.calledSet, (w.txns i).txId = t
    · obtain ⟨i, hi, rfl⟩ := ht
      obtain ⟨results, hpc⟩ := hret i
      have hset := h.settled i hi
      simp only [TxnThread.Settled, hpc, Pc.released, if_true] at hset
      exact hset
    · exact h.unused t fun i hi hid => ht ⟨i, hi, hid⟩
  refine ⟨hret, fun k => ?_, fun t => (hclear t).heldLocks⟩
  cases hown : w.node.lockManager.owner k with
  | none => rfl
  | some t => exact absurd hown ((hclear t).owner k)

/-- **A node on its own comes to rest.**  Whatever keys the transactions share and whatever the
interleaving, no run goes on for ever, and a state from which no call can move is at rest: all
calls have returned and no lock and no record of one is left. -/
theorem comes_to_rest (hcard : Fintype.card ι < 2 ^ 64) {hash : KeyType → UInt64}
    {g : NodeID} {nodeID : String} {routing : Routing}
    (hstart : start hash (.fresh g) nodeID [] = .ok routing) (store₀ : ThreadSafeKVStore)
    (txs : ι → Transaction) :
    Terminates step (initial routing store₀ txs) ∧
      ∀ w, Reachable step (initial routing store₀ txs) w → (∀ l, w.step l = none) → AtRest w := by
  have hcoord : routing.coordinator = none := start_nil_coordinator hstart
  refine ⟨terminates hcoord, fun w hr hstuck => ?_⟩
  obtain ⟨hc, hpc⟩ := alonePc_of_reachable hcoord hr
  have htables : TablesInv w := by
    refine Run.invariant_of_run (I := TablesInv) hr (tablesInv_initial routing store₀ txs) ?_
    rintro w ⟨i, c⟩ w' hrun h _ hs
    obtain ⟨r, hr, rfl⟩ := step_spec hs
    exact tablesInv_step hcard h ((alonePc_of_reachable hcoord hrun).2 i) hr
  refine htables.atRest fun i => ?_
  rcases exists_stepTxn hc (hpc i) with hret | ⟨c, r, hs⟩
  · exact hret
  · have hnone := hstuck (i, c)
    simp [step, hs] at hnone

end Rest

end SingleNode

end TwoPL
