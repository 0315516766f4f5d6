/-
# The cluster comes to rest

Any cluster and any finite family of calls, with nothing assumed about them: nodes may disagree on
primaries, ids may coincide, messages may be lost, sends may throw.  Two calls on two nodes can each
hold what the other one asks for (`crossed`), with a handler polling for it on either side.  That is
no deadlock:

* **the cluster settles** (`Settles`).  A step of a call leaves less of that call (`Pc.cost`), and
  every other step leaves less work in the messages and the handlers (`load`); only a call that
  wakes up for nothing leaves everything as it is.  A message is worth the sections of its handler
  and the response, so handling one cannot go on forever;
* **rest can be reached from everywhere**, without losing a message: every call ends, every handler
  ends, every message to a member is handled (`AtRest`).

The second half is a matter of `distributed_mutex`.  It is held across sends, and everything that
needs it waits; but who holds it is always a call that is about to send (`MutexHeld`), and a send
returns or throws.  All other waiting is bounded: `acquire` gives up after its polls, and each
`wait_until` has its deadline.
-/
import Mathlib
import TwoPL.CallProgress
import TwoPL.Cluster

namespace TwoPL

open Lib

/-! ## 1. The work in a message -/

/-- The steps that a message and what it causes can still take. -/
def Message.cost : Message → ℕ
  | .lockReq _ _ => AcquireStage.emplace.cost + 4
  | .opReq _ _ => 3
  | _ => 1

def Handler.cost : Handler → ℕ
  | .acquiring _ _ stage => stage.cost + 3
  | .responding msg => msg.cost + 1

theorem Message.cost_pos (m : Message) : 0 < m.cost := by
  cases m <;> simp [Message.cost]

namespace Cluster

/-- Handing a message over leaves less than the message. -/
theorem Handled.cost_lt {n n' : Node} {peer : NodeID} {m : Message} {b : Option Handler}
    (h : Handled n peer m n' b) : (b.elim 0 Handler.cost) < m.cost := by
  cases h <;> simp [Handler.cost, Message.cost]

/-- A section of a handler leaves less than the handler, the message it sends included. -/
theorem HandlerStepped.cost_lt {n : Node} {throws : Bool} {a : Handler}
    {r : Node × Option Handler × Option Message} (h : HandlerStepped n throws a r) :
    r.2.1.elim 0 Handler.cost + r.2.2.elim 0 Message.cost < a.cost := by
  cases h with
  | poll hacq =>
    have hlt := hacq.cost_lt
    simp only [Option.elim, Handler.cost]
    omega
  | @decided _ _ _ _ result _ => cases result <;> simp [lockResponse, Handler.cost, Message.cost]
  | responded _ => simp [Handler.cost]
  | responseThrew _ => simp [Handler.cost]

variable {ι : Type*} [DecidableEq ι]

/-- The work in a channel. -/
def channelCost (packets : List (Packet ι)) : ℕ := (packets.map fun q => q.msg.cost).sum

/-- The work of a handler. -/
def handlerCost (handler : Option (ActiveHandler ι)) : ℕ := handler.elim 0 fun a => a.handler.cost

/-- The work under way in the whole cluster. -/
def load (w : Cluster ι) : ℕ :=
  ∑ ab, channelCost (w.channels ab) + ∑ ab, handlerCost (w.handlers ab)

section Load

variable {cfg : ClusterConfig ι} {w w' : Cluster ι} {l : ClusterLabel ι}

omit [DecidableEq ι] in
theorem channelCost_append (packets packets' : List (Packet ι)) :
    channelCost (packets ++ packets') = channelCost packets + channelCost packets' := by
  simp [channelCost]

omit [DecidableEq ι] in
/-- A message sent adds what it is worth. -/
theorem sum_push (src : NodeID) (i : ι) (sent : Option (NodeID × Message)) :
    ∑ ab, channelCost (w.push src i sent ab)
      = ∑ ab, channelCost (w.channels ab) + sent.elim 0 fun x => x.2.cost := by
  cases sent with
  | none =>
    have hpush : w.push src i none = w.channels := rfl
    rw [hpush, Option.elim_none, Nat.add_zero]
  | some x =>
    obtain ⟨dest, msg⟩ := x
    have hsum := sum_update_add w.channels channelCost (src, dest)
      (w.channels (src, dest) ++ [⟨i, msg⟩])
    rw [channelCost_append] at hsum
    have hone : channelCost [(⟨i, msg⟩ : Packet ι)] = msg.cost := by simp [channelCost]
    simp only [push, Option.elim]
    omega

omit [DecidableEq ι] in
theorem load_afterDeliver_lt {src dest : NodeID} {q : Packet ι} {rest : List (Packet ι)}
    {n n' : Node} {b : Option Handler} (hnone : w.handlers (src, dest) = none)
    (hch : w.channels (src, dest) = q :: rest) (hh : Handled n src q.msg n' b) :
    (w.afterDeliver src dest q rest n' b).load < w.load := by
  have hchannels := sum_update_add w.channels channelCost (src, dest) rest
  have hhandlers := sum_update_add w.handlers handlerCost (src, dest)
    (b.map (ActiveHandler.mk q.cause))
  have hlt := hh.cost_lt
  have hb : handlerCost (b.map (ActiveHandler.mk q.cause)) = b.elim 0 Handler.cost := by
    cases b <;> rfl
  have hq : channelCost (q :: rest) = q.msg.cost + channelCost rest := by simp [channelCost]
  have hn : handlerCost (none : Option (ActiveHandler ι)) = 0 := rfl
  rw [hch, hq] at hchannels
  rw [hnone, hb, hn] at hhandlers
  simp only [load, afterDeliver]
  omega

omit [DecidableEq ι] in
theorem load_afterHandle_lt {src dest : NodeID} {throws : Bool} {i : ι} {a : Handler} {n : Node}
    {r : Node × Option Handler × Option Message} (ha : w.handlers (src, dest) = some ⟨i, a⟩)
    (hs : HandlerStepped n throws a r) : (w.afterHandle src dest i r).load < w.load := by
  have hhandlers := sum_update_add w.handlers handlerCost (src, dest)
    (r.2.1.map (ActiveHandler.mk i))
  have hpush := w.sum_push dest i (r.2.2.map (Prod.mk src))
  have hlt := hs.cost_lt
  have hr : handlerCost (r.2.1.map (ActiveHandler.mk i)) = r.2.1.elim 0 Handler.cost := by
    cases r.2.1 <;> rfl
  have hsent : ((r.2.2.map (Prod.mk src)).elim 0 fun x => x.2.cost)
      = r.2.2.elim 0 Message.cost := by
    cases r.2.2 <;> rfl
  have ha' : handlerCost (some (⟨i, a⟩ : ActiveHandler ι)) = a.cost := rfl
  rw [ha, hr, ha'] at hhandlers
  rw [hsent] at hpush
  simp only [load, afterHandle]
  omega

omit [DecidableEq ι] in
theorem load_afterDrop_lt {src dest : NodeID} {pos : ℕ} {q : Packet ι}
    (hq : (w.channels (src, dest))[pos]? = some q) :
    (w.afterDrop src dest pos q).load < w.load := by
  have hchannels := sum_update_add w.channels channelCost (src, dest)
    ((w.channels (src, dest)).eraseIdx pos)
  obtain ⟨hpos, hget⟩ := List.getElem?_eq_some_iff.mp hq
  have herase : q.msg.cost + channelCost ((w.channels (src, dest)).eraseIdx pos)
      = channelCost (w.channels (src, dest)) := by
    have hperm := (List.getElem_cons_eraseIdx_perm hpos).map fun q : Packet ι => q.msg.cost
    have hsum := hperm.sum_eq
    rw [hget] at hsum
    simpa [channelCost] using hsum
  have hpos' := q.msg.cost_pos
  simp only [load, afterDrop]
  omega

/-! ## 2. Every run settles -/

/-- What is left of the calls and, when they do not move, of the messages. -/
def cost (w : Cluster ι) : (ι → ℕ ×ₗ (ℕ ×ₗ ℕ)) ×ₗ ℕ := toLex (fun i => (w.txns i).pc.cost, w.load)

omit [DecidableEq ι] in
theorem cost_lt_of_load (htxns : w'.txns = w.txns) (hload : w'.load < w.load) :
    w'.cost < w.cost :=
  Prod.Lex.toLex_lt_toLex.mpr (.inr ⟨by simp only [htxns], hload⟩)

theorem cost_afterTxn_lt {i : ι} {c : Choice} {r : TxnStep}
    (hlt : r.thread.pc.cost < (w.txns i).pc.cost) : (w.afterTxn cfg i c r).cost < w.cost := by
  refine Prod.Lex.toLex_lt_toLex.mpr (.inl (lt_of_party (i := i) ?_ fun j hj => ?_))
  · show ((w.afterTxn cfg i c r).txns i).pc.cost < _
    rwa [afterTxn_txns_self]
  · show ((w.afterTxn cfg i c r).txns j).pc.cost = _
    rw [afterTxn_txns_of_ne hj]

/-- A call that wakes up for nothing changes nothing. -/
theorem afterTxn_of_slept {i : ι} {c : Choice} (hasleep : (w.txns i).pc.asleep = true) :
    w.afterTxn cfg i c { node := w.nodes (cfg.origin i), thread := w.txns i } = w := by
  have hlost : (w.txns i).lostEvent c = none := by
    unfold TxnThread.lostEvent
    cases hpc : (w.txns i).pc with
    | opSending op rest results => simp [hpc, Pc.asleep] at hasleep
    | _ => rfl
  obtain ⟨nodes, txns, channels, handlers, locks, hist⟩ := w
  simp only [afterTxn, hlost, push, Function.update_eq_self, Option.bind_none, Option.toList_none,
    List.map_nil, List.append_nil]

/-- **Every step leaves less**, or leaves everything as it is. -/
theorem Stepped.cost_lt (h : Stepped cfg w l w') : w' = w ∨ w'.cost < w.cost := by
  cases h with
  | txn hs =>
    rcases hs.cost_lt with hlt | ⟨hasleep, rfl⟩
    · exact .inr (cost_afterTxn_lt hlt)
    · exact .inl (afterTxn_of_slept hasleep)
  | deliver _ _ hnone hch hh => exact .inr (cost_lt_of_load rfl (load_afterDeliver_lt hnone hch hh))
  | handle ha hs => exact .inr (cost_lt_of_load rfl (load_afterHandle_lt ha hs))
  | drop hq => exact .inr (cost_lt_of_load rfl (load_afterDrop_lt hq))

end Load

/-! ## 3. Who holds a mutex -/

variable {ι : Type*} [DecidableEq ι] {cfg : ClusterConfig ι} {w w' : Cluster ι}
  {l : ClusterLabel ι}

/-- Who holds a node's mutex is a call of that node, in one of its loops of sends. -/
def MutexHeld (cfg : ClusterConfig ι) (w : Cluster ι) : Prop :=
  ∀ p, (w.nodes p).distributedMutex = true →
    ∃ i, cfg.origin i = p ∧ (w.txns i).pc.holdsMutex = true

theorem Handled.mutex_eq {n n' : Node} {peer : NodeID} {m : Message} {a : Option Handler}
    (h : Handled n peer m n' a) : n'.distributedMutex = n.distributedMutex := by
  cases h <;> rfl

theorem HandlerStepped.mutex_eq {n : Node} {throws : Bool} {a : Handler}
    {r : Node × Option Handler × Option Message} (h : HandlerStepped n throws a r) :
    r.1.distributedMutex = n.distributedMutex := by
  cases h <;> rfl

theorem MutexHeld.step (h : MutexHeld cfg w) (hs : Stepped cfg w l w') : MutexHeld cfg w' := by
  intro p hp
  cases hs with
  | @txn i c r hs =>
    -- a holder other than the call that moves
    have hother : ∀ j, cfg.origin j = p → (w.txns j).pc.holdsMutex = true → j ≠ i →
        ∃ j, cfg.origin j = p ∧ ((w.afterTxn cfg i c r).txns j).pc.holdsMutex = true :=
      fun j hj hheld hne => ⟨j, hj, by rwa [afterTxn_txns_of_ne hne]⟩
    rcases eq_or_ne p (cfg.origin i) with rfl | hne
    · rw [afterTxn_nodes_self] at hp
      rcases hs.mutex_of hp with hown | ⟨hbefore, hnot⟩
      · exact ⟨i, rfl, by rwa [afterTxn_txns_self]⟩
      · obtain ⟨j, hj, hheld⟩ := h _ hbefore
        refine hother j hj hheld ?_
        rintro rfl
        exact absurd hheld (by simp [hnot])
    · rw [afterTxn_nodes_of_ne hne] at hp
      obtain ⟨j, hj, hheld⟩ := h p hp
      refine hother j hj hheld ?_
      rintro rfl
      exact hne hj.symm
  | deliver _ _ _ _ hh =>
    exact h p ((proj_update (f := Node.distributedMutex) hh.mutex_eq p).symm.trans hp)
  | handle _ hr =>
    exact h p ((proj_update (f := Node.distributedMutex) hr.mutex_eq p).symm.trans hp)
  | drop _ => exact h p hp

/-! ## 4. Rest -/

/-- **The cluster is at rest**: every call has ended, and no message to a member and no handler is
under way. -/
structure AtRest (cfg : ClusterConfig ι) (w : Cluster ι) : Prop where
  ended : ∀ i, (∃ results, (w.txns i).pc = .returned results) ∨ (w.txns i).pc = .threw
  mutex : ∀ p, (w.nodes p).distributedMutex = false
  handlers : ∀ ab, w.handlers ab = none
  channels : ∀ src dest, dest ∈ cfg.members → src ≠ dest → w.channels (src, dest) = []

/-- The step loses no message. -/
def Lossless (_ : Cluster ι) : ClusterLabel ι → Prop
  | .drop _ _ _ => False
  | _ => True

/-- **Where the cluster is not at rest, something can move.** -/
theorem atRest_or_step (h : MutexHeld cfg w) :
    AtRest cfg w ∨ ∃ l w', Lossless w l ∧ w.step cfg l = some w' ∧ w'.cost < w.cost := by
  by_contra hstuck
  obtain ⟨hrest, hnone⟩ := not_or.mp hstuck
  have hcall : ∀ i, ((w.nodes (cfg.origin i)).distributedMutex = false ∨
      (w.txns i).pc.holdsMutex = true) →
      (∃ results, (w.txns i).pc = .returned results) ∨ (w.txns i).pc = .threw := by
    intro i hmutex
    refine (exists_stepTxn_of_mutex hmutex).resolve_right ?_
    rintro ⟨c, r, hr, hlt⟩
    have hstep : w.step cfg (.txn i c) = some (w.afterTxn cfg i c r) := by
      simp only [step, hr, Option.map_some]
    exact hnone ⟨.txn i c, _, trivial, hstep, cost_afterTxn_lt hlt⟩
  -- the holder of a mutex could send
  have hfree : ∀ p, (w.nodes p).distributedMutex = false := by
    intro p
    by_contra hheld
    rw [Bool.not_eq_false] at hheld
    obtain ⟨i, -, hholds⟩ := h p hheld
    rcases hcall i (.inr hholds) with ⟨results, hpc⟩ | hpc
    · simp [hpc, Pc.holdsMutex] at hholds
    · simp [hpc, Pc.holdsMutex] at hholds
  have hhandlers : ∀ ab, w.handlers ab = none := by
    rintro ⟨src, dest⟩
    by_contra hsome
    obtain ⟨a, ha⟩ := Option.ne_none_iff_exists'.mp hsome
    have hstep : w.step cfg (.handle src dest false) = some (w.afterHandle src dest a.cause
        (stepHandler (w.nodes dest) false a.handler)) := by
      simp only [step, ha, Option.map_some]
    have hlt := load_afterHandle_lt ha (stepHandler_spec (w.nodes dest) false a.handler)
    exact hnone ⟨.handle src dest false, _, trivial, hstep, cost_lt_of_load rfl hlt⟩
  refine hrest ⟨fun i => hcall i (.inl (hfree _)), hfree, hhandlers, fun src dest hmem hne => ?_⟩
  cases hch : w.channels (src, dest) with
  | nil => rfl
  | cons q rest =>
    obtain ⟨x, hx⟩ := exists_handlePeerMessage (hfree dest) src q.msg
    have hguard : dest ∈ cfg.members ∧ src ≠ dest ∧ (w.handlers (src, dest)).isNone = true :=
      ⟨hmem, hne, by simp [hhandlers]⟩
    have hstep : w.step cfg (.deliver src dest)
        = some (w.afterDeliver src dest q rest x.1 x.2) := by
      simp only [step, if_pos hguard, hch, hx, Option.map_some]
    have hlt := load_afterDeliver_lt (hhandlers _) hch (handlePeerMessage_spec hx)
    exact absurd ⟨.deliver src dest, _, trivial, hstep, cost_lt_of_load rfl hlt⟩ hnone

/-- **The cluster comes to rest.**  No infinite run goes on changing anything, and from every state
that is reached a state at rest can be reached without losing a message: no state is a deadlock. -/
theorem comes_to_rest_cluster [Finite ι] (cfg : ClusterConfig ι)
    (stores : NodeID → ThreadSafeKVStore) (txs : ι → Transaction) :
    Settles (step cfg) (initial cfg stores txs) ∧
      ∀ w, Reachable (step cfg) (initial cfg stores txs) w →
        ∃ w', Run (step cfg) Lossless w w' ∧ AtRest cfg w' := by
  have hwf : WellFoundedLT (ι → ℕ ×ₗ (ℕ ×ₗ ℕ)) := Pi.wellFoundedLT
  refine ⟨settles_of_measure cost fun w l w' _ hs => (stepped_of_step hs).cost_lt, fun w hr => ?_⟩
  refine Run.exists_rest cost (fun w hr => atRest_or_step ?_) hr
  refine Run.invariant (I := MutexHeld cfg) hr (fun p hp => ?_) fun w l w' h _ hs =>
    h.step (stepped_of_step hs)
  exact absurd hp (by simp [initial, Node.fresh])

/-- Calls 0 and 1 on nodes 0 and 1; call 2 is there to use up the first id of node 1. -/
def crossing : ClusterConfig (Fin 3) :=
  { threeNodes with origin := fun i => if i = 0 then 0 else 1 }

/-- Each of the first two has a key on its own node and one on the other's. -/
def crossingTxs : Fin 3 → Transaction
  | 0 => [.append 0 5, .append 1 5]
  | 1 => [.append 1 6, .append 0 6]
  | 2 => []

/-- Call `i` locks the key of its node and asks the other node for its key. -/
def lockAndAsk (i : Fin 3) (own : KeyType) (other : NodeID × KeyType) :
    List (ClusterLabel (Fin 3)) :=
  [.txn i { keys := [own] }, .txn i {}, .txn i {}, .txn i {}, .txn i { pairs := [other] },
    .txn i {}, .txn i {}]

/-- The request is handed over and finds the key taken. -/
def askedInVain (src dest : NodeID) : List (ClusterLabel (Fin 3)) :=
  [.deliver src dest, .handle src dest false, .handle src dest false, .handle src dest false]

def crossed : List (ClusterLabel (Fin 3)) :=
  [.txn 2 {}] ++ lockAndAsk 0 0 (1, 1) ++ lockAndAsk 1 1 (0, 0) ++ askedInVain 0 1 ++
    askedInVain 1 0

/-- Each of the two calls holds what the other one waits for. -/
theorem comes_to_rest_crossed :
    ∃ w : Cluster (Fin 3),
      Reachable (step crossing) (initial crossing emptyStores crossingTxs) w ∧
      ((w.txns 0).pc = .waiting ∧ w.ownerAt 0 0 = some (w.txns 0).txId ∧
        (w.handlers (0, 1)).map ActiveHandler.handler = some (.acquiring 1 1 (.spin 1))) ∧
      ((w.txns 1).pc = .waiting ∧ w.ownerAt 1 1 = some (w.txns 1).txId ∧
        (w.handlers (1, 0)).map ActiveHandler.handler = some (.acquiring 2 0 (.spin 1))) ∧
      ∃ w', Run (step crossing) Lossless w w' ∧ AtRest crossing w' := by
  have hrun : ((runLabels (step crossing) (initial crossing emptyStores crossingTxs) crossed).map
      fun w => decide (((w.txns 0).pc = .waiting ∧ w.ownerAt 0 0 = some (w.txns 0).txId ∧
          (w.handlers (0, 1)).map ActiveHandler.handler = some (.acquiring 1 1 (.spin 1))) ∧
        ((w.txns 1).pc = .waiting ∧ w.ownerAt 1 1 = some (w.txns 1).txId ∧
          (w.handlers (1, 0)).map ActiveHandler.handler = some (.acquiring 2 0 (.spin 1)))))
        = some true := by
    decide +kernel
  obtain ⟨w, hw, hwait⟩ := Option.map_eq_some_iff.mp hrun
  have hr := reachable_of_runLabels _ hw
  obtain ⟨h0, h1⟩ := of_decide_eq_true hwait
  exact ⟨w, hr, h0, h1, (comes_to_rest_cluster crossing emptyStores crossingTxs).2 w hr⟩

end Cluster

end TwoPL
