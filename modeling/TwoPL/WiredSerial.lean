/-
# What the wired cluster guarantees

Messages do not get through (`WiredCluster`), so a transaction with a key on another node executes
nothing.  What is left of the cluster are its nodes, each with the transactions that have all their
keys there, and `wired_nodes_serializable` says that this much is right, in every run and without a
condition: the calls on a node, with those that wait in vain among them, are strictly serializable in
the sense of a node without peers (`SingleNode.StrictSerialization`).

The proof takes the node out of the cluster.  The calls made there, by themselves, are a cluster
whose calls are all on one node and which delivers no message (`Restricts`).  Two calls on one node
have different ids, a call with a remote key never gets past its locks, and one without never sends:
so each of its runs is orderly (`orderly_of_calls`), and the serialization of orderly runs
(`DistributedSerial`) applies.
-/
import TwoPL.DistributedSerial
import TwoPL.WiredCluster

namespace TwoPL

open Lib

/-! ## 1. One node of the cluster -/

/-- The cluster with the calls of one node only. -/
def ClusterConfig.onlyAt {ι : Type*} (cfg : ClusterConfig ι) (p : NodeID) :
    ClusterConfig {i // cfg.origin i = p} where
  members := cfg.members
  routing := cfg.routing
  localNodeId_eq := cfg.localNodeId_eq
  origin := fun _ => p

/-- What a call did itself. -/
def CallEvent.own? : CallEvent → Option TxnEvent
  | .own e => some e
  | _ => none

/-- An event without an operation of another node. -/
def CallEvent.Local : CallEvent → Prop
  | .served _ _ => False
  | .own (.ran _ (.remote _)) => False
  | _ => True

/-- The result of a remote operation is reported at the end of one. -/
theorem TxnStepped.atRemoteOp_of {n : Node} {t : TxnThread} {c : Choice} {r : TxnStep}
    (h : TxnStepped n t c r) {op : Operation} {result : Option ValueContainer}
    (he : r.event = some (.ran op (.remote result))) : t.pc.atRemoteOp = true := by
  cases h with
  | @aborting stage _ _ _ _ => rcases stage.event_cases with hs | ⟨key, hs⟩ <;> simp [hs] at he
  | @releasing stage _ _ _ _ _ _ =>
    rcases stage.event_cases with hs | ⟨key, hs⟩ <;> simp [hs] at he
  | _ => simp_all [Pc.atRemoteOp]

namespace Cluster

variable {ι : Type*} [DecidableEq ι] {cfg : ClusterConfig ι} {p : NodeID} {w w' : Cluster ι}
  {l : ClusterLabel ι} {envelope : Bool} {stores : NodeID → ThreadSafeKVStore}
  {txs : ι → Transaction}

/-- The events of the calls on node `p`. -/
def ownAt (cfg : ClusterConfig ι) (p : NodeID) (e : ι × CallEvent) : Option (ι × TxnEvent) :=
  if cfg.origin e.1 = p then e.2.own?.map (Prod.mk e.1) else none

/-- The node and its calls, as the node itself sees them. -/
def nodeView (cfg : ClusterConfig ι) (w : Cluster ι) (p : NodeID) : SingleNode ι :=
  { callsAt cfg w p with hist := w.hist.filterMap (ownAt cfg p) }

/-- Only calls move. -/
def OnlyCalls {ι : Type*} (_ : Cluster ι) : ClusterLabel ι → Prop
  | .txn _ _ => True
  | _ => False

omit [DecidableEq ι] in
theorem OnlyCalls.deaf (h : OnlyCalls w l) : Deaf w l := by
  cases l with
  | deliver _ _ => exact h
  | _ => trivial

/-- `v` is what happens on node `p` of `w`. -/
structure Restricts (cfg : ClusterConfig ι) (p : NodeID) (w : Cluster ι)
    (v : Cluster {i // cfg.origin i = p}) : Prop where
  node : v.nodes p = w.nodes p
  txns : ∀ i, v.txns i = w.txns i.1
  hist : v.hist.filterMap (fun e => e.2.own?.map (Prod.mk e.1.1)) = w.hist.filterMap (ownAt cfg p)

/-- A step of a call on the node, on both sides. -/
theorem Restricts.txn {v : Cluster {i // cfg.origin i = p}} (h : Restricts cfg p w v) {i : ι}
    (hi : cfg.origin i = p) {c : Choice} {r : TxnStep}
    (hstep : stepTxn (w.nodes (cfg.origin i)) (w.txns i) c = some r) :
    ∃ v', v.step (cfg.onlyAt p) (.txn ⟨i, hi⟩ c) = some v' ∧
      Restricts cfg p (w.afterTxn cfg i c r) v' := by
  have hsame : stepTxn (v.nodes p) (v.txns ⟨i, hi⟩) c = some r := by
    rw [h.node, h.txns, ← hstep, hi]
  refine ⟨v.afterTxn (cfg.onlyAt p) ⟨i, hi⟩ c r, Option.map_eq_some_iff.mpr ⟨r, hsame, rfl⟩, ?_, ?_,
    ?_⟩
  · have hself : (w.afterTxn cfg i c r).nodes (cfg.origin i) = r.node := afterTxn_nodes_self
    rw [hi] at hself
    rw [hself]
    exact Function.update_self ..
  · intro j
    by_cases hj : j = ⟨i, hi⟩
    · subst hj
      rw [afterTxn_txns_self, afterTxn_txns_self]
    · have hj' : j.1 ≠ i := fun he => hj (Subtype.ext he)
      rw [afterTxn_txns_of_ne hj, afterTxn_txns_of_ne hj', h.txns]
  · simp only [afterTxn, List.filterMap_append, h.hist, h.txns]
    congr 1
    · congr 1
      cases (w.txns i).lostEvent c with
      | none => rfl
      | some e => simp [List.filterMap_cons, ownAt, hi]
    · cases r.event with
      | none => rfl
      | some e => simp [List.filterMap_cons, ownAt, hi]

/-- A step of a call on another node. -/
theorem Restricts.elsewhere {v : Cluster {i // cfg.origin i = p}} (h : Restricts cfg p w v) {i : ι}
    (hi : cfg.origin i ≠ p) (c : Choice) (r : TxnStep) :
    Restricts cfg p (w.afterTxn cfg i c r) v where
  node := by rw [afterTxn_nodes_of_ne hi.symm, h.node]
  txns j := by
    have hj : j.1 ≠ i := by
      intro he
      exact hi (he ▸ j.2)
    rw [afterTxn_txns_of_ne hj, h.txns]
  hist := by
    rw [h.hist]
    simp [afterTxn, List.filterMap_append, List.filterMap_map, ownAt, hi]

/-- **What a step of the wired cluster is on one node**: a step of a call there, or nothing. -/
theorem Restricts.step {v : Cluster {i // cfg.origin i = p}} (h : Restricts cfg p w v)
    (hs : stepWired cfg envelope w l = some w') (hhandlers : ∀ ab, w.handlers ab = none)
    (hids : ∀ ab q, q ∈ w.channels ab → q.msg.txId.toNat < 2 ^ 63) :
    Restricts cfg p w' v ∨
      ∃ i c v', v.step (cfg.onlyAt p) (.txn i c) = some v' ∧ Restricts cfg p w' v' := by
  cases l with
  | txn i c =>
    obtain ⟨r, hstep, rfl⟩ := Option.map_eq_some_iff.mp hs
    by_cases hi : cfg.origin i = p
    · obtain ⟨v', hv', hrest⟩ := h.txn hi hstep
      exact .inr ⟨⟨i, hi⟩, c, v', hv', hrest⟩
    · exact .inl (h.elsewhere hi c r)
  | deliver src dest =>
    obtain ⟨q, rest, -, rfl⟩ := stepWired_deliver hs hhandlers hids
    exact .inl ⟨h.node, h.txns, h.hist⟩
  | handle src dest throws =>
    obtain ⟨a, ha, -⟩ := Option.map_eq_some_iff.mp hs
    exact absurd ha (by simp [hhandlers])
  | drop src dest pos =>
    obtain ⟨q, -, rfl⟩ := Option.map_eq_some_iff.mp hs
    refine .inl ⟨h.node, h.txns, h.hist.trans ?_⟩
    simp [afterDrop, ownAt, CallEvent.own?]

section OneNode

variable [Fintype ι]

theorem exists_restricts (hcard : Fintype.card ι < 2 ^ 63)
    (hr : Reachable (stepWired cfg envelope) (initial cfg stores txs) w) (p : NodeID) :
    ∃ v, Run (step (cfg.onlyAt p)) OnlyCalls (initial (cfg.onlyAt p) stores fun i => txs i.1) v ∧
      Restricts cfg p w v := by
  refine Run.invariant_of_run (I := fun w => ∃ v, Run (step (cfg.onlyAt p)) OnlyCalls
    (initial (cfg.onlyAt p) stores fun i => txs i.1) v ∧ Restricts cfg p w v) hr ?_ ?_
  · exact ⟨_, .refl, rfl, fun _ => rfl, rfl⟩
  · rintro w l w' hrun ⟨v, hv, hrest⟩ - hs
    obtain ⟨u, hu, hsame⟩ := exists_deaf hcard hrun
    have hhandlers : ∀ ab, w.handlers ab = none :=
      hsame.handlers ▸ (unanswered_of_run hcard hu).handlers
    have hids : ∀ ab q, q ∈ w.channels ab → q.msg.txId.toNat < 2 ^ 63 :=
      hsame.channels ▸ msg_txId_lt hcard hu
    rcases hrest.step hs hhandlers hids with hsame | ⟨i, c, v', hstep, hrest'⟩
    · exact ⟨v, hv, hsame⟩
    · exact ⟨v', hv.tail (l := .txn i c) trivial hstep, hrest'⟩

end OneNode

/-! ## 2. Calls that hear nothing are orderly -/

/-- In every run, the calls know their own transactions. -/
theorem sound_of_run {ok : Cluster ι → ClusterLabel ι → Prop}
    (hr : Run (step cfg) ok (initial cfg stores txs) w) (i : ι) :
    (w.txns i).Sound (w.nodes (cfg.origin i)) := by
  refine Run.invariant (I := fun w => ∀ i, (w.txns i).Sound (w.nodes (cfg.origin i))) hr ?_ ?_ i
  · exact fun i => ⟨fun op hop => absurd hop (by simp [initial, TxnThread.fresh, Pc.ops]),
      fun h => absurd h (by simp [initial, TxnThread.fresh, Pc.asking, Pc.atRemoteOp])⟩
  · intro w l w' h _ hs i
    have hstepped := stepped_of_step hs
    -- another call, or a message: only the routing of the node matters
    have hframe : w'.txns i = w.txns i → (w'.txns i).Sound (w'.nodes (cfg.origin i)) := by
      intro hsame
      refine ⟨by rw [hsame]; exact (h i).ops_mem, ?_⟩
      rw [hsame, Node.remotePairs_congr (hstepped.routing_eq _)]
      exact (h i).remote
    cases hstepped with
    | @txn j c r hstep =>
      by_cases hj : i = j
      · subst hj
        rw [afterTxn_txns_self, afterTxn_nodes_self]
        exact hstep.sound (h i)
      · exact hframe (afterTxn_txns_of_ne hj)
    | deliver _ _ _ _ _ => exact hframe rfl
    | handle _ _ => exact hframe rfl
    | drop _ => exact hframe rfl

/-- A call is busy with other nodes only if it has a key there. -/
theorem crossNode_of_remotePairs {ok : Cluster ι → ClusterLabel ι → Prop}
    (hr : Run (step cfg) ok (initial cfg stores txs) w) {i : ι}
    (hne : (w.nodes (cfg.origin i)).remotePairs (w.txns i).tx ≠ ∅) : CrossNode cfg txs i := by
  obtain ⟨hrouting, htx⟩ := run_routing hr
  obtain ⟨q, hq⟩ := Finset.nonempty_iff_ne_empty.mpr hne
  obtain ⟨op, hop, hprim⟩ : ∃ op ∈ (w.txns i).tx,
      (w.nodes (cfg.origin i)).primary op.key ≠ (w.nodes (cfg.origin i)).routing.localNodeId := by
    simp only [Node.remotePairs, Finset.mem_image, Finset.mem_filter, List.mem_toFinset,
      List.mem_map] at hq
    obtain ⟨k, ⟨⟨op, hop, rfl⟩, hk⟩, -⟩ := hq
    exact ⟨op, hop, hk⟩
  refine ⟨op, htx i ▸ hop, ?_⟩
  rwa [Node.primary, hrouting, cfg.localNodeId_eq] at hprim

section Orderly

variable [Fintype ι]

/-- No call gets to a remote operation. -/
theorem not_atRemoteOp (hcard : Fintype.card ι < 2 ^ 63)
    (hr : Run (step cfg) Deaf (initial cfg stores txs) w) (i : ι) :
    (w.txns i).pc.atRemoteOp = false := by
  by_contra hat
  rw [Bool.not_eq_false] at hat
  have hcross := crossNode_of_remotePairs hr ((sound_of_run hr i).remote (.inr hat))
  have hunheard := (unanswered_of_run hcard hr).unheard i hcross
  unfold TxnThread.Unheard at hunheard
  cases hpc : (w.txns i).pc <;> simp_all [Pc.atRemoteOp]

/-- **Calls on one node, none of which hears anything, are orderly.** -/
theorem orderly_of_calls (hcard : Fintype.card ι < 2 ^ 63) {prim : KeyType → NodeID}
    (hp : ∀ i, cfg.origin i = p) (hr : Run (step cfg) Deaf (initial cfg stores txs) w) (i : ι)
    (c : Choice) : OrderlyCall cfg prim w i c where
  fresh hidle j hj hid := by
    have hids := idInv_callsAt (by omega) hr p
    have hi : i ∉ (callsAt cfg w p).calledSet := by
      simp [SingleNode.mem_calledSet, callsAt, hp i, hidle]
    have hj' : j ∈ (callsAt cfg w p).calledSet := by
      simpa [SingleNode.mem_calledSet, callsAt, hp j, Called] using hj
    have hunused := hids.next_unused (by omega) hi j hj'
    rw [hp i] at hid
    exact absurd hid (by simpa [callsAt, hp j] using hunused)
  granted hempty hpc q hq := by
    have hcross := crossNode_of_remotePairs hr (Finset.nonempty_iff_ne_empty.mp ⟨q, hq⟩)
    have hunheard := (unanswered_of_run hcard hr).unheard i hcross
    unfold TxnThread.Unheard at hunheard
    rcases hpc with hpc | ⟨hpc, -⟩ <;> (rw [hpc] at hunheard; exact absurd hempty hunheard)
  sends op rest results hpc := by
    have hat := not_atRemoteOp hcard hr i
    simp [hpc, Pc.atRemoteOp] at hat
  waits op rest results hpc := by
    have hat := not_atRemoteOp hcard hr i
    simp [hpc, Pc.atRemoteOp] at hat

/-- Nothing is executed for a call on another node, and no call reports an operation of another
node. -/
theorem local_of_calls (hcard : Fintype.card ι < 2 ^ 63)
    (hr : Run (step cfg) OnlyCalls (initial cfg stores txs) w) : ∀ e ∈ w.hist, e.2.Local := by
  refine Run.invariant_of_run (I := fun w => ∀ e ∈ w.hist, e.2.Local) hr ?_ ?_
  · simp [initial]
  · intro w l w' hrun h hok hs
    cases l with
    | txn i c =>
      obtain ⟨r, hstep, rfl⟩ := Option.map_eq_some_iff.mp hs
      have hat := not_atRemoteOp hcard (hrun.mono fun w l => OnlyCalls.deaf) i
      intro e he
      simp only [afterTxn, List.mem_append, List.mem_map, Option.mem_toList] at he
      rcases he with (hold | ⟨x, hx, rfl⟩) | ⟨x, hx, rfl⟩
      · exact h e hold
      · unfold TxnThread.lostEvent at hx
        split at hx
        · obtain ⟨-, hlost⟩ := Option.ite_none_right_eq_some.mp hx
          rw [← Option.some.inj hlost]
          trivial
        · exact absurd hx (by simp)
      · unfold CallEvent.Local
        split
        · rename_i heq
          exact absurd heq (by simp)
        · rename_i heq
          rw [CallEvent.own.injEq] at heq
          have htrue := (stepTxn_spec hstep).atRemoteOp_of (heq ▸ hx)
          exact absurd (hat.symm.trans htrue) (by simp)
        · trivial
    | deliver _ _ => exact hok.elim
    | handle _ _ _ => exact hok.elim
    | drop _ _ _ => exact hok.elim

end Orderly

/-! ## 3. Serial executions on one node -/

section Serial

variable {prim : KeyType → NodeID}

/-- A transaction with all its keys on node `p` is executed there, as on a node by itself. -/
theorem runAlone_of_local {tx : Transaction} (h : ∀ op ∈ tx, prim op.key = p)
    (stores : NodeID → ThreadSafeKVStore) :
    runAlone prim p stores tx = (Function.update stores p (SingleNode.runAlone (stores p) tx).1,
      (SingleNode.runAlone (stores p) tx).2) := by
  induction tx generalizing stores with
  | nil => simp [runAlone, SingleNode.runAlone]
  | cons op tx ih =>
    have hop : prim op.key = p := h op List.mem_cons_self
    have htx : ∀ op ∈ tx, prim op.key = p := fun op hmem => h op (List.mem_cons_of_mem _ hmem)
    simp only [runAlone, SingleNode.runAlone, hop, ih htx, Function.update_self,
      Function.update_idem, shownResult, if_true, collect, List.nil_append]

theorem runSerially_of_local {blocks : List Transaction}
    (h : ∀ tx ∈ blocks, ∀ op ∈ tx, prim op.key = p) (stores : NodeID → ThreadSafeKVStore) :
    runSerially prim stores (blocks.map (Prod.mk p))
      = Function.update stores p (SingleNode.runSerially (stores p) blocks) := by
  induction blocks generalizing stores with
  | nil => simp [runSerially, SingleNode.runSerially]
  | cons tx blocks ih =>
    have htx := runAlone_of_local (h tx List.mem_cons_self) stores
    have hrest := ih (fun tx' hmem => h tx' (List.mem_cons_of_mem _ hmem))
      (runAlone prim p stores tx).1
    have hcons : runSerially prim stores ((tx :: blocks).map (Prod.mk p))
        = runSerially prim (runAlone prim p stores tx).1 (blocks.map (Prod.mk p)) := rfl
    rw [hcons, hrest, htx]
    simp [SingleNode.runSerially]

end Serial

omit [DecidableEq ι] in
/-- The events of a call on the node. -/
theorem Restricts.mem_hist {v : Cluster {i // cfg.origin i = p}} (h : Restricts cfg p w v) {i : ι}
    {e : TxnEvent} :
    (i, e) ∈ (nodeView cfg w p).hist ↔ ∃ hi : cfg.origin i = p, (⟨i, hi⟩, .own e) ∈ v.hist := by
  show (i, e) ∈ w.hist.filterMap (ownAt cfg p) ↔ _
  rw [← h.hist, List.mem_filterMap]
  constructor
  · rintro ⟨⟨⟨j, hj⟩, x⟩, hmem, hx⟩
    obtain ⟨x', hown, heq⟩ := Option.map_eq_some_iff.mp hx
    obtain ⟨rfl, rfl⟩ := Prod.mk.inj heq
    refine ⟨hj, ?_⟩
    cases x with
    | own x => rwa [← Option.some.inj hown]
    | _ => exact absurd hown (by simp [CallEvent.own?])
  · rintro ⟨hi, hmem⟩
    exact ⟨_, hmem, rfl⟩

omit [DecidableEq ι] in
/-- ... in the same order. -/
theorem Restricts.precedes {v : Cluster {i // cfg.origin i = p}} (h : Restricts cfg p w v)
    {i j : {i // cfg.origin i = p}} {e e' : TxnEvent}
    (hp : Precedes (nodeView cfg w p).hist (i.1, e) (j.1, e')) :
    Precedes v.hist (i, .own e) (j, .own e') := by
  have hown : ∀ {x : {i // cfg.origin i = p} × CallEvent} {i : {i // cfg.origin i = p}}
      {e : TxnEvent}, x.2.own?.map (Prod.mk x.1.1) = some (i.1, e) → x = (i, .own e) := by
    rintro ⟨k, x⟩ i e hx
    obtain ⟨x', hx', heq⟩ := Option.map_eq_some_iff.mp hx
    obtain ⟨hk, rfl⟩ := Prod.mk.inj heq
    cases x with
    | own x =>
      exact Prod.ext (Subtype.ext hk) (congrArg CallEvent.own (Option.some.inj hx'))
    | _ => exact absurd hx' (by simp [CallEvent.own?])
  rw [show (nodeView cfg w p).hist = w.hist.filterMap (ownAt cfg p) from rfl, ← h.hist] at hp
  obtain ⟨x, y, hxy, hx, hy⟩ := hp.of_filterMap
  rw [hown hx, hown hy] at hxy
  exact hxy

/-- What a call on the node has executed. -/
theorem Restricts.executed_eq {v : Cluster {i // cfg.origin i = p}} (h : Restricts cfg p w v)
    (hlocal : ∀ e ∈ v.hist, e.2.Local) (i : {i // cfg.origin i = p}) :
    SingleNode.executed (nodeView cfg w p).hist i.1 = ranOps (cfg.onlyAt p) v i := by
  show SingleNode.executed (w.hist.filterMap (ownAt cfg p)) i.1 = _
  rw [← h.hist]
  simp only [SingleNode.executed, ranOps, executed, eventsOf, List.filterMap_filterMap,
    List.map_filterMap]
  refine List.filterMap_congr fun e he => ?_
  obtain ⟨j, x⟩ := e
  have hx := hlocal _ he
  by_cases hj : j = i
  · subst hj
    cases x with
    | own x =>
      cases x with
      | ran op outcome =>
        cases outcome with
        | «local» result => simp [CallEvent.own?, CallEvent.executed, TxnEvent.ranLocally,
            SingleNode.ranOp]
        | remote result => exact hx.elim
      | _ => simp [CallEvent.own?, CallEvent.executed, TxnEvent.ranLocally, SingleNode.ranOp]
    | served _ _ => exact hx.elim
    | lost _ => simp [CallEvent.own?, CallEvent.executed]
  · have hj' : j.1 ≠ i.1 := fun he => hj (Subtype.ext he)
    cases x <;> simp [CallEvent.own?, hj, hj']

omit [DecidableEq ι] in
/-- A part of the order of the calls on the node. -/
theorem split_of_map_val {P : ι → Prop} {order : List {i // P i}} {before behind : List ι} {i : ι}
    (h : order.map Subtype.val = before ++ i :: behind) :
    ∃ (before' behind' : List {i // P i}) (i' : {i // P i}), order = before' ++ i' :: behind' ∧
      before = before'.map Subtype.val ∧ i = i'.1 ∧ behind = behind'.map Subtype.val := by
  obtain ⟨before', rest, rfl, rfl, hrest⟩ := List.map_eq_append_iff.mp h
  obtain ⟨i', behind', rfl, rfl, rfl⟩ := List.map_eq_cons_iff.mp hrest
  exact ⟨before', behind', i', rfl, rfl, rfl, rfl⟩

/-- An operation that was executed is one of the node. -/
theorem local_of_ranOps {v : Cluster {i // cfg.origin i = p}} {order : List {i // cfg.origin i = p}}
    (hlocal : ∀ e ∈ v.hist, e.2.Local) {prim : KeyType → NodeID}
    (hser : StrictSerialization (cfg.onlyAt p) prim stores (fun i => txs i.1) v order)
    {i : {i // cfg.origin i = p}} {op : Operation} (hop : op ∈ ranOps (cfg.onlyAt p) v i) :
    prim op.key = p := by
  obtain ⟨x, hx, rfl⟩ := List.mem_map.mp hop
  rw [← hser.placed i x hx]
  obtain ⟨e, he, hex⟩ := List.mem_filterMap.mp hx
  have hloc := hlocal _ (mem_eventsOf.mp he)
  cases e with
  | own e =>
    obtain ⟨op, -, rfl⟩ := Option.map_eq_some_iff.mp hex
    rfl
  | served _ _ => exact hloc.elim
  | lost _ => exact absurd hex (by simp [CallEvent.executed])

/-- **A serialization of the calls on the node is one of the node by itself.** -/
theorem Restricts.strictSerialization {v : Cluster {i // cfg.origin i = p}}
    (h : Restricts cfg p w v) (hlocal : ∀ e ∈ v.hist, e.2.Local) {prim : KeyType → NodeID}
    {order : List {i // cfg.origin i = p}}
    (hser : StrictSerialization (cfg.onlyAt p) prim stores (fun i => txs i.1) v order) :
    SingleNode.StrictSerialization (stores p) txs (nodeView cfg w p) (order.map Subtype.val) := by
  have hexec := h.executed_eq hlocal
  have hblocks : ∀ l : List {i // cfg.origin i = p},
      (l.map Subtype.val).map (SingleNode.executed (nodeView cfg w p).hist)
        = l.map (ranOps (cfg.onlyAt p) v) := by
    intro l
    rw [List.map_map]
    exact List.map_congr_left fun i _ => hexec i
  have hserial : ∀ l : List {i // cfg.origin i = p},
      runSerially prim stores (blocksOf (cfg.onlyAt p) (ranOps (cfg.onlyAt p) v) l)
        = Function.update stores p (SingleNode.runSerially (stores p)
            (l.map (ranOps (cfg.onlyAt p) v))) := by
    intro l
    rw [← runSerially_of_local, blocksOf, List.map_map]
    · rfl
    · intro tx htx op hop
      obtain ⟨i, -, rfl⟩ := List.mem_map.mp htx
      exact local_of_ranOps hlocal hser hop
  have hstore : (w.nodes p).store = SingleNode.runSerially (stores p)
      (order.map (ranOps (cfg.onlyAt p) v)) := by
    rw [← h.node, hser.store_eq p, hserial, Function.update_self]
  have hresults : ∀ before i behind results, order.map Subtype.val = before ++ i :: behind →
      (i, .returned results) ∈ (nodeView cfg w p).hist →
      SingleNode.executed (nodeView cfg w p).hist i = txs i ∧
        results = (SingleNode.runAlone (SingleNode.runSerially (stores p)
          (before.map (SingleNode.executed (nodeView cfg w p).hist))) (txs i)).2 := by
    intro before i behind results hord hret
    obtain ⟨before', behind', i', hord', rfl, rfl, -⟩ := split_of_map_val hord
    obtain ⟨_, hret'⟩ := h.mem_hist.mp hret
    obtain ⟨hall, hres⟩ := hser.results_eq before' i' behind' results hord' hret'
    refine ⟨(hexec i').trans hall, ?_⟩
    have htx : ∀ op ∈ txs i'.1, prim op.key = p := fun op hop =>
      local_of_ranOps hlocal hser (hall ▸ hop)
    rw [hres, hblocks, hserial, show (cfg.onlyAt p).origin i' = p from rfl,
      runAlone_of_local htx, Function.update_self]
  refine ⟨hser.nodup.map Subtype.val_injective, fun i => ?_, ?_, hresults, fun hall => ?_, ?_, ?_⟩
  · rw [h.mem_hist, List.mem_map]
    constructor
    · rintro ⟨i', hi', rfl⟩
      exact ⟨i'.2, (hser.mem_iff i').mp hi'⟩
    · rintro ⟨hi, hmem⟩
      exact ⟨⟨i, hi⟩, (hser.mem_iff _).mpr hmem, rfl⟩
  · rw [hblocks]
    exact hstore
  · -- every block is the whole transaction
    have hwhole : ∀ i ∈ order.map Subtype.val,
        SingleNode.executed (nodeView cfg w p).hist i = txs i := by
      intro i hi
      obtain ⟨before, behind, hord⟩ := List.append_of_mem hi
      obtain ⟨results, hret⟩ := hall i hi
      exact (hresults before i behind results hord hret).1
    refine ⟨?_, fun before i behind results hord hret => ?_⟩
    · rw [← List.map_congr_left hwhole, hblocks]
      exact hstore
    · have hbefore : before.map (SingleNode.executed (nodeView cfg w p).hist) = before.map txs :=
        List.map_congr_left fun j hj => hwhole j (by simp [hord, hj])
      rw [← hbefore]
      exact (hresults before i behind results hord hret).2
  · intro before i behind hord j hj results txId hprec
    obtain ⟨before', behind', i', hord', -, rfl, rfl⟩ := split_of_map_val hord
    obtain ⟨j', hj', rfl⟩ := List.mem_map.mp hj
    refine hser.realtime before' i' behind' hord' j' hj' results txId ?_
    exact h.precedes hprec
  · intro i hab
    obtain ⟨hi, hab'⟩ := h.mem_hist.mp hab
    obtain ⟨hnot, hnone⟩ := hser.aborted ⟨i, hi⟩ hab'
    refine ⟨fun hmem => ?_, (hexec ⟨i, hi⟩).trans hnone⟩
    obtain ⟨i', hi', rfl⟩ := List.mem_map.mp hmem
    exact hnot hi'

/-- **Every node of the wired cluster is strictly serializable.**  Any number of nodes, whether or
not they agree on the primaries, any calls on any of them, any stores; sends may throw, waits time
out, messages be lost or read in any order.  In every run, what has happened on a node is a serial
execution of the calls made there, with those that got no further than their locks left out. -/
theorem wired_nodes_serializable [Fintype ι] (hcard : Fintype.card ι < 2 ^ 63)
    (hr : Reachable (stepWired cfg envelope) (initial cfg stores txs) w) (p : NodeID) :
    ∃ order, SingleNode.StrictSerialization (stores p) txs (nodeView cfg w p) order := by
  obtain ⟨v, hv, hrest⟩ := exists_restricts hcard hr p
  have hcard' : Fintype.card {i // cfg.origin i = p} < 2 ^ 63 :=
    (Fintype.card_subtype_le _).trans_lt hcard
  have horderly : Run (step (cfg.onlyAt p)) (Orderly (cfg.onlyAt p) (cfg.routing p).primary)
      (initial (cfg.onlyAt p) stores fun i => txs i.1) v := by
    refine hv.mono_of_run fun u l u' hu hok _ => ?_
    cases l with
    | txn i c =>
      exact orderly_of_calls hcard' (fun _ => rfl) (hu.mono fun _ _ => OnlyCalls.deaf) i c
    | deliver _ _ => exact hok.elim
    | handle _ _ _ => exact hok.elim
    | drop _ _ _ => exact hok.elim
  obtain ⟨order, hser⟩ := exists_strictSerialization (fun _ _ => rfl) horderly
  exact ⟨_, hrest.strictSerialization (local_of_calls hcard' hv) hser⟩

end Cluster

end TwoPL
