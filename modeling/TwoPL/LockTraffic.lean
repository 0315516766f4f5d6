/-
# Whose lock messages they are

A lock table names its owners by bare transaction ids, and every node counts its own ids from 1.
This module says what the tables and the lock messages of a cluster are worth in the runs in which
the ids can be told apart where it matters: two calls that have a node in common, be it the node
they were made on or the primary of one of their keys, do not have the same id (`FreshId`).

Then, in every state (`LockTraffic`):

* a message or a handler that asks for a lock belongs to a call that uses the key, and is on its way
  from the node of the call to the primary of the key;
* a `lock_rel` under way belongs to a call that is on its way out (`Pc.leaving`) and will not run
  any more;
* an entry of a lock table has its primary's node, and names a call that uses the key;
* a `lock_granted` that has been sent was for a call that uses the key, and the entry names it until
  it is on its way out (`GrantTraffic`).

Nothing is asked of the order of messages, of timeouts or of the responses.
-/
import TwoPL.Cluster

namespace TwoPL

open Lib

/-! ## 1. One call -/

/-- The call is on its way out, or has ended: it runs no operation any more. -/
def Pc.leaving : Pc → Bool
  | .timingOut _ | .aborting _ | .releasing _ _ _ | .sendingReleases _ _ _ => true
  | .returned _ | .threw => true
  | _ => false

/-- The lists that a call works off: local keys, and remote keys with their primaries. -/
def TxnThread.Located (prim : KeyType → NodeID) (o : NodeID) (t : TxnThread) : Prop :=
  match t.pc with
  | .locking todo _ => ∀ k ∈ todo, prim k = o ∧ ∃ op ∈ t.tx, op.key = k
  | .requesting todo => ∀ q ∈ todo, q.1 = prim q.2 ∧ ∃ op ∈ t.tx, op.key = q.2
  | .timingOut todo => ∀ q ∈ todo, q.1 = prim q.2 ∧ ∃ op ∈ t.tx, op.key = q.2
  | .sendingReleases todo _ _ => ∀ q ∈ todo, q.1 = prim q.2 ∧ ∃ op ∈ t.tx, op.key = q.2
  | _ => True

section Call

variable {prim : KeyType → NodeID} {n : Node} {t : TxnThread} {c : Choice} {r : TxnStep}

/-- There is no way back. -/
theorem TxnStepped.leaving (h : TxnStepped n t c r) (ht : t.pc.leaving = true) :
    r.thread.pc.leaving = true := by
  cases h with
  | opAnswered hpc => rcases hpc with hpc | hpc <;> simp [hpc, Pc.leaving] at ht
  | _ => simp_all [Pc.leaving, TxnThread.goto]

/-- The pairs of a node's own grouping of keys. -/
theorem Node.mem_remotePairs_of (hprim : ∀ k, n.primary k = prim k) {tx : Transaction}
    {q : NodeID × KeyType} (hq : q ∈ n.remotePairs tx) :
    q.1 = prim q.2 ∧ ∃ op ∈ tx, op.key = q.2 := by
  simp only [Node.remotePairs, Finset.mem_image, Finset.mem_filter, List.mem_toFinset,
    List.mem_map] at hq
  obtain ⟨k, ⟨⟨op, hop, rfl⟩, -⟩, rfl⟩ := hq
  exact ⟨hprim _, op, hop, rfl⟩

/-- **A step of a call keeps its lists right.** -/
theorem TxnStepped.located (h : TxnStepped n t c r) (hprim : ∀ k, n.primary k = prim k)
    (hpend : ∀ q ∈ (n.pendingLocks t.txId).pairs, q.1 = prim q.2 ∧ ∃ op ∈ t.tx, op.key = q.2)
    (ht : t.Located prim n.routing.localNodeId) :
    r.thread.Located prim n.routing.localNodeId := by
  unfold TxnThread.Located at ht
  cases h with
  | call _ henum =>
    intro k hk
    rw [henum.mem_iff, Node.localKeys, Finset.mem_filter, List.mem_toFinset, List.mem_map] at hk
    exact ⟨(hprim k).symm.trans hk.2, hk.1⟩
  | poll hpc _ =>
    rw [hpc] at ht
    exact ht
  | acquired hpc _ =>
    rw [hpc] at ht
    exact fun k hk => ht k (List.mem_cons_of_mem _ hk)
  | beginRemote _ _ _ henum =>
    exact fun q hq => Node.mem_remotePairs_of hprim ((henum.mem_iff q).mp hq)
  | request hpc _ =>
    rw [hpc] at ht
    exact fun q hq => ht q (List.mem_cons_of_mem _ hq)
  | timedOut _ _ _ henum => exact fun q hq => hpend q ((henum.mem_iff q).mp hq)
  | timeoutRelease hpc _ =>
    rw [hpc] at ht
    exact fun q hq => ht q (List.mem_cons_of_mem _ hq)
  | releasedLocal _ _ henum =>
    exact fun q hq => Node.mem_remotePairs_of hprim ((henum.mem_iff q).mp hq)
  | sendRelease hpc _ =>
    rw [hpc] at ht
    exact fun q hq => ht q (List.mem_cons_of_mem _ hq)
  | sleptOn hpc _ _ _ => simp [TxnThread.Located, hpc]
  | opSleptOn hpc => simp [TxnThread.Located, hpc]
  | _ => simp [TxnThread.Located, TxnThread.goto]

/-- The lock messages of a call are about keys of its own, and a release says that it leaves. -/
theorem TxnStepped.lock_sent (h : TxnStepped n t c r)
    (ht : t.Located prim n.routing.localNodeId) {dest : NodeID} {msg : Message}
    {t' : TransactionId} {k : KeyType} (hsent : r.sent = some (dest, msg))
    (hmsg : msg = .lockReq t' k ∨ msg = .lockRel t' k) :
    dest = prim k ∧ (∃ op ∈ t.tx, op.key = k) ∧
      (msg = .lockRel t' k → r.thread.pc.leaving = true) := by
  unfold TxnThread.Located at ht
  cases h with
  | @request p todo hpc _ =>
    rw [hpc] at ht
    obtain ⟨hp, hop⟩ := ht p List.mem_cons_self
    simp only [Option.some.injEq, Prod.mk.injEq] at hsent
    obtain ⟨rfl, rfl⟩ := hsent
    rcases hmsg with hmsg | hmsg
    · obtain ⟨-, rfl⟩ := Message.lockReq.inj hmsg
      exact ⟨hp, hop, by simp⟩
    · exact absurd hmsg (by simp)
  | @timeoutRelease p todo hpc _ =>
    rw [hpc] at ht
    obtain ⟨hp, hop⟩ := ht p List.mem_cons_self
    simp only [Option.some.injEq, Prod.mk.injEq] at hsent
    obtain ⟨rfl, rfl⟩ := hsent
    rcases hmsg with hmsg | hmsg
    · exact absurd hmsg (by simp)
    · obtain ⟨-, rfl⟩ := Message.lockRel.inj hmsg
      exact ⟨hp, hop, fun _ => rfl⟩
  | @sendRelease p todo results rethrow hpc _ =>
    rw [hpc] at ht
    obtain ⟨hp, hop⟩ := ht p List.mem_cons_self
    simp only [Option.some.injEq, Prod.mk.injEq] at hsent
    obtain ⟨rfl, rfl⟩ := hsent
    rcases hmsg with hmsg | hmsg
    · exact absurd hmsg (by simp)
    · obtain ⟨-, rfl⟩ := Message.lockRel.inj hmsg
      exact ⟨hp, hop, fun _ => rfl⟩
  | opSent _ _ =>
    obtain ⟨-, rfl⟩ := Prod.mk.inj (Option.some.inj hsent)
    exact absurd hmsg (by simp)
  | _ => simp_all

/-- What a call adds to its pending entry are pairs of its own. -/
theorem TxnStepped.pendingLocks_of (h : TxnStepped n t c r) (hprim : ∀ k, n.primary k = prim k)
    {q : NodeID × KeyType} (hq : q ∈ (r.node.pendingLocks t.txId).pairs) :
    q ∈ (n.pendingLocks t.txId).pairs ∨
      (t.pc ≠ .idle ∧ q.1 = prim q.2 ∧ ∃ op ∈ t.tx, op.key = q.2) := by
  cases h with
  | @beginRemote stage pairs hpc _ _ henum =>
    have hpend : ({ n.initPending t.txId pairs with distributedMutex := true } : Node).pendingLocks
        t.txId = pairs.foldl NodeKeys.add (n.pendingLocks t.txId) :=
      Node.pendingLocks_initPending n t.txId pairs
    rw [hpend, NodeKeys.pairs_foldl_add, Finset.mem_union, List.mem_toFinset] at hq
    refine hq.imp_right fun hq => ⟨by simp [hpc], ?_⟩
    exact Node.mem_remotePairs_of hprim ((henum.mem_iff q).mp hq)
  | requestedNothing _ _ | requested _ _ | timedOut _ _ _ _ | woken _ _ _ _ | sleptOn _ _ _ _ =>
    rw [← Node.pendingLocks_touchPending n t.txId t.txId]
    exact .inl hq
  | timeoutDone _ =>
    have herased : q ∈ ((n.erasePending t.txId).pendingLocks t.txId).pairs := hq
    rw [Node.pendingLocks_erasePending, if_pos rfl] at herased
    exact absurd herased (by simp)
  | _ => exact .inl hq

end Call

/-! ## 2. The cluster -/

namespace Cluster

variable {ι : Type*}

/-- The key is one of the call's. -/
def Uses (w : Cluster ι) (i : ι) (k : KeyType) : Prop := ∃ op ∈ (w.txns i).tx, op.key = k

/-- The node has to do with the call: it was made there, or one of its keys is there. -/
def Touches (cfg : ClusterConfig ι) (prim : KeyType → NodeID) (w : Cluster ι) (i : ι)
    (p : NodeID) : Prop :=
  p = cfg.origin i ∨ ∃ op ∈ (w.txns i).tx, p = prim op.key

/-- A call that is being made does not get the id of a call that has a node in common with it. -/
def FreshId (cfg : ClusterConfig ι) (prim : KeyType → NodeID) (w : Cluster ι) :
    ClusterLabel ι → Prop
  | .txn i _ => (w.txns i).pc = .idle → ∀ j, w.Called j →
      (w.txns j).txId = (w.nodes (cfg.origin i)).nextTxId →
      ∀ p, Touches cfg prim w i p → ¬ Touches cfg prim w j p
  | _ => True

/-- A lock message of call `i`, or its handler, on its way along `ab`. -/
structure Asks (cfg : ClusterConfig ι) (prim : KeyType → NodeID) (w : Cluster ι) (i : ι)
    (ab : NodeID × NodeID) (t : TransactionId) (k : KeyType) : Prop where
  called : w.Called i
  route : ab = (cfg.origin i, prim k)
  txId : (w.txns i).txId = t
  uses : w.Uses i k

/-- **What the lock tables and the lock messages of a cluster are worth.** -/
structure LockTraffic (cfg : ClusterConfig ι) (prim : KeyType → NodeID) (w : Cluster ι) :
    Prop where
  routing : ∀ p, (w.nodes p).routing = cfg.routing p
  distinct : ∀ i j p, w.Called i → w.Called j → (w.txns i).txId = (w.txns j).txId →
    Touches cfg prim w i p → Touches cfg prim w j p → i = j
  located : ∀ i, (w.txns i).Located prim (cfg.origin i)
  owner : ∀ p k t, w.ownerAt p k = some t →
    p = prim k ∧ ∃ i, w.Called i ∧ (w.txns i).txId = t ∧ w.Uses i k
  acquiring : ∀ ab j t k st, w.handlers ab = some ⟨j, .acquiring t k st⟩ →
    Asks cfg prim w j ab t k
  responding : ∀ ab j m, w.handlers ab = some ⟨j, .responding m⟩ → m.IsResponse
  packet : ∀ ab q t k, q ∈ w.channels ab → q.msg = .lockReq t k ∨ q.msg = .lockRel t k →
    Asks cfg prim w q.cause ab t k
  leaving : ∀ ab q t k, q ∈ w.channels ab → q.msg = .lockRel t k →
    (w.txns q.cause).pc.leaving = true
  pending : ∀ p t q, q ∈ ((w.nodes p).pendingLocks t).pairs → ∃ i, w.Called i ∧
    cfg.origin i = p ∧ (w.txns i).txId = t ∧ q.1 = prim q.2 ∧ w.Uses i q.2

section Step

variable [DecidableEq ι] {cfg : ClusterConfig ι} {prim : KeyType → NodeID} {w w' : Cluster ι}
  {l : ClusterLabel ι}

theorem Stepped.uses_iff (h : Stepped cfg w l w') (i : ι) (k : KeyType) :
    w'.Uses i k ↔ w.Uses i k := by
  rw [Uses, Uses, h.tx_eq]

theorem Stepped.touches_iff (h : Stepped cfg w l w') (i : ι) (p : NodeID) :
    Touches cfg prim w' i p ↔ Touches cfg prim w i p := by
  rw [Touches, Touches, h.tx_eq]

omit [DecidableEq ι] in
/-- A call touches the primaries of the keys it uses. -/
theorem Uses.touches {i : ι} {k : KeyType} (h : w.Uses i k) : Touches cfg prim w i (prim k) := by
  obtain ⟨op, hop, rfl⟩ := h
  exact .inr ⟨op, hop, rfl⟩

omit [DecidableEq ι] in
theorem touches_origin (i : ι) : Touches cfg prim w i (cfg.origin i) := .inl rfl

theorem Asks.step {i : ι} {ab : NodeID × NodeID} {t : TransactionId} {k : KeyType}
    (h : Asks cfg prim w i ab t k) (hs : Stepped cfg w l w') : Asks cfg prim w' i ab t k where
  called := (hs.called h.called).1
  route := h.route
  txId := (hs.called h.called).2.trans h.txId
  uses := (hs.uses_iff i k).mpr h.uses

/-- A call that leaves goes on leaving. -/
theorem Stepped.leaving (h : Stepped cfg w l w') {i : ι} (hi : (w.txns i).pc.leaving = true) :
    (w'.txns i).pc.leaving = true := by
  cases h with
  | @txn j c r hs =>
    rcases eq_or_ne i j with rfl | hne
    · rw [afterTxn_txns_self]
      exact hs.leaving hi
    · rw [afterTxn_txns_of_ne hne]
      exact hi
  | _ => exact hi

/-- The owner of an entry after a step is the one before, or a call that uses the key. -/
theorem LockTraffic.owner_step (h : LockTraffic cfg prim w) (hs : Stepped cfg w l w') {p : NodeID}
    {k : KeyType} {t : TransactionId} (ho : w'.ownerAt p k = some t) :
    p = prim k ∧ ∃ i, w.Called i ∧ (w.txns i).txId = t ∧ w.Uses i k := by
  rcases hs.owner_of ho with hold | ⟨i, c, rfl, hcalled, rfl, rfl⟩ | ⟨a, j, st, ha⟩
  · exact h.owner p k t hold
  · -- a call becomes the owner of the key it is about to lock
    cases hs with
    | @txn _ _ r hs =>
      rw [ownerAt, afterTxn_nodes_self] at ho
      rcases hs.lock_effect with ⟨key, todo, stage, hpc, -, hacq⟩ | ⟨key, keys, -, -, hlm⟩ |
        ⟨-, -, hown⟩
      · rcases hacq.owner_cases ho with hold | ⟨rfl, -⟩
        · exact h.owner _ _ _ hold
        · have hloc := h.located i
          simp only [TxnThread.Located, hpc] at hloc
          obtain ⟨hprim, hop⟩ := hloc k List.mem_cons_self
          exact ⟨hprim.symm, i, hcalled, rfl, hop⟩
      · rw [hlm] at ho
        exact h.owner _ _ _ (LockManager.owner_of_release ho)
      · exact h.owner _ _ _ ((hown k).symm.trans ho)
  · have hask := h.acquiring _ _ _ _ _ ha
    exact ⟨(Prod.mk.inj hask.route).2, j, hask.called, hask.txId, hask.uses⟩

/-- The pending pairs after a step are those before, or pairs of the call that moves. -/
theorem LockTraffic.pending_step (h : LockTraffic cfg prim w)
    (hprim : ∀ i k, (cfg.routing (cfg.origin i)).primary k = prim k) (hs : Stepped cfg w l w')
    {p : NodeID} {t : TransactionId} {q : NodeID × KeyType}
    (hq : q ∈ ((w'.nodes p).pendingLocks t).pairs) :
    ∃ i, w.Called i ∧ cfg.origin i = p ∧ (w.txns i).txId = t ∧ q.1 = prim q.2 ∧
      w.Uses i q.2 := by
  rcases hs.pending_eq p t with heq | heq | ⟨i, c, rfl, hcalled, rfl, rfl⟩
  · rw [Node.pendingLocks, heq] at hq
    exact h.pending p t q hq
  · rw [Node.pendingLocks, heq] at hq
    exact absurd hq (by simp)
  · cases hs with
    | @txn _ _ r hs =>
      rw [afterTxn_nodes_self] at hq
      have hroute : ∀ k, (w.nodes (cfg.origin i)).primary k = prim k := by
        intro k
        rw [Node.primary, h.routing, hprim]
      rcases hs.pendingLocks_of hroute hq with hold | ⟨-, hq1, hop⟩
      · exact h.pending _ _ q hold
      · exact ⟨i, hcalled, rfl, rfl, hq1, hop⟩

/-- The call that moves keeps its lists right, and so does everybody else. -/
theorem LockTraffic.located_step (h : LockTraffic cfg prim w)
    (hprim : ∀ i k, (cfg.routing (cfg.origin i)).primary k = prim k) (hs : Stepped cfg w l w')
    (i : ι) : (w'.txns i).Located prim (cfg.origin i) := by
  cases hs with
  | @txn j c r hs =>
    rcases eq_or_ne i j with rfl | hne
    · rw [afterTxn_txns_self]
      have hlocal : (w.nodes (cfg.origin i)).routing.localNodeId = cfg.origin i := by
        rw [h.routing, cfg.localNodeId_eq]
      have hroute : ∀ k, (w.nodes (cfg.origin i)).primary k = prim k := by
        intro k
        rw [Node.primary, h.routing, hprim]
      have hloc := h.located i
      rw [← hlocal] at hloc ⊢
      by_cases hidle : (w.txns i).pc = .idle
      · -- a call that is being made looks at no pending entry
        cases hs with
        | call _ henum =>
          intro k hk
          rw [henum.mem_iff, Node.localKeys, Finset.mem_filter, List.mem_toFinset,
            List.mem_map] at hk
          exact ⟨(hroute k).symm.trans hk.2, hk.1⟩
        | _ => simp_all
      · refine hs.located hroute (fun q hq => ?_) hloc
        obtain ⟨j, hj, horig, hid, hq1, huses⟩ := h.pending _ _ q hq
        have hji : j = i := h.distinct j i (cfg.origin i) hj hidle hid
          (.inl horig.symm) (touches_origin i)
        exact ⟨hq1, hji ▸ huses⟩
    · rw [afterTxn_txns_of_ne hne]
      exact h.located i
  | _ => exact h.located i

/-- A call that is being made has its id to itself wherever it goes. -/
theorem LockTraffic.distinct_step (h : LockTraffic cfg prim w) (hok : FreshId cfg prim w l)
    (hs : Stepped cfg w l w') {i j : ι} {p : NodeID} (hi : w'.Called i) (hj : w'.Called j)
    (hid : (w'.txns i).txId = (w'.txns j).txId) (hpi : Touches cfg prim w i p)
    (hpj : Touches cfg prim w j p) : i = j := by
  -- a call made by this step, against one made before
  have hnew : ∀ {a b : ι}, w'.Called a → (w'.txns a).txId = (w'.txns b).txId → ¬ w.Called a →
      w.Called b → Touches cfg prim w a p → Touches cfg prim w b p → False := by
    intro a b ha hab hnot hb hpa hpb
    cases hs with
    | @txn m c r hr =>
      have ham : a = m := by
        by_contra hne
        rw [Called, afterTxn_txns_of_ne hne] at ha
        exact hnot ha
      subst ham
      have hidle : (w.txns a).pc = .idle := not_not.mp hnot
      have hba : b ≠ a := fun e => hnot (e ▸ hb)
      rw [afterTxn_txns_self, (hr.id_of_idle hidle).1, afterTxn_txns_of_ne hba] at hab
      exact hok hidle b hb hab.symm p hpa hpb
    | _ => exact hnot ha
  by_cases hci : w.Called i <;> by_cases hcj : w.Called j
  · rw [(hs.called hci).2, (hs.called hcj).2] at hid
    exact h.distinct i j p hci hcj hid hpi hpj
  · exact (hnew hj hid.symm hcj hci hpj hpi).elim
  · exact (hnew hi hid hci hcj hpi hpj).elim
  · -- one step makes one call
    cases hs with
    | @txn m c r hr =>
      have hm : ∀ {i : ι}, (w.afterTxn cfg m c r).Called i → ¬ w.Called i → i = m := by
        intro i hi hnot
        by_contra hne
        rw [Called, afterTxn_txns_of_ne hne] at hi
        exact hnot hi
      rw [hm hi hci, hm hj hcj]
    | _ => exact absurd hi hci

/-- A release that is sent says that its call is leaving. -/
theorem LockTraffic.leaving_step (h : LockTraffic cfg prim w) (hs : Stepped cfg w l w')
    {ab : NodeID × NodeID} {q : Packet ι} {t : TransactionId} {k : KeyType}
    (hq : q ∈ w'.channels ab) (hmsg : q.msg = .lockRel t k) :
    (w'.txns q.cause).pc.leaving = true := by
  have hs' := hs
  cases hs with
  | @txn i c r hr =>
    rcases mem_push hq with hold | ⟨dest, msg, hsent, -, rfl⟩
    · exact hs'.leaving (h.leaving ab q t k hold hmsg)
    · have hlocal : (w.nodes (cfg.origin i)).routing.localNodeId = cfg.origin i := by
        rw [h.routing, cfg.localNodeId_eq]
      rw [afterTxn_txns_self]
      exact (hr.lock_sent (hlocal.symm ▸ h.located i) hsent (.inr hmsg)).2.2 hmsg
  | _ =>
    rcases hs'.packet_of hq with hold | ⟨c, r, hl, -⟩ | hresp
    · exact hs'.leaving (h.leaving ab q t k hold hmsg)
    · exact absurd hl (by simp)
    · have hiresp := h.responding _ _ _ hresp
      rw [hmsg] at hiresp
      exact hiresp.elim

/-- **Every step keeps it.** -/
theorem lockTraffic_step (h : LockTraffic cfg prim w)
    (hprim : ∀ i k, (cfg.routing (cfg.origin i)).primary k = prim k)
    (hok : FreshId cfg prim w l) (hs : Stepped cfg w l w') : LockTraffic cfg prim w' where
  routing p := (hs.routing_eq p).trans (h.routing p)
  distinct i j p hi hj hid hpi hpj := h.distinct_step hok hs hi hj hid
    ((hs.touches_iff i p).mp hpi) ((hs.touches_iff j p).mp hpj)
  located := h.located_step hprim hs
  owner p k t ho := by
    obtain ⟨hp, i, hcalled, hid, huses⟩ := h.owner_step hs ho
    exact ⟨hp, i, (hs.called hcalled).1, (hs.called hcalled).2.trans hid,
      (hs.uses_iff i k).mpr huses⟩
  acquiring ab j t k st ha := by
    rcases hs.acquiring_of ha with ⟨st', hold⟩ | ⟨rest, hch⟩
    · exact (h.acquiring ab j t k st' hold).step hs
    · have hmem : (⟨j, .lockReq t k⟩ : Packet ι) ∈ w.channels ab := by simp [hch]
      exact (h.packet ab _ t k hmem (.inl rfl)).step hs
  responding ab j m ha := (hs.responding_of ha).elim (h.responding ab j m) id
  packet ab q t k hq hmsg := by
    rcases hs.packet_of hq with hold | ⟨c, r, rfl, hr, hsent, hab⟩ | hresp
    · exact (h.packet ab q t k hold hmsg).step hs
    · obtain ⟨rfl, hcalled⟩ := hr.sent_id hsent hmsg
      have hlocal : (w.nodes (cfg.origin q.cause)).routing.localNodeId = cfg.origin q.cause := by
        rw [h.routing, cfg.localNodeId_eq]
      obtain ⟨hdest, huses, -⟩ := hr.lock_sent (hlocal.symm ▸ h.located q.cause) hsent hmsg
      exact Asks.step ⟨hcalled, Prod.ext hab hdest, rfl, huses⟩ hs
    · have hiresp := h.responding _ _ _ hresp
      rcases hmsg with hmsg | hmsg <;> (rw [hmsg] at hiresp; exact hiresp.elim)
  leaving ab q t k hq hmsg := h.leaving_step hs hq hmsg
  pending p t q hq := by
    obtain ⟨i, hcalled, horig, hid, hq1, huses⟩ := h.pending_step hprim hs hq
    exact ⟨i, (hs.called hcalled).1, horig, (hs.called hcalled).2.trans hid, hq1,
      (hs.uses_iff i q.2).mpr huses⟩

omit [DecidableEq ι] in
theorem lockTraffic_initial (cfg : ClusterConfig ι) (prim : KeyType → NodeID)
    (stores : NodeID → ThreadSafeKVStore) (txs : ι → Transaction) :
    LockTraffic cfg prim (initial cfg stores txs) where
  routing _ := rfl
  distinct i j p hi := absurd rfl hi
  located _ := trivial
  owner p k t ho := by simp [ownerAt, initial, Node.fresh] at ho
  acquiring ab j t k st ha := by simp [initial] at ha
  responding ab j m ha := by simp [initial] at ha
  packet ab q t k hq := by simp [initial] at hq
  leaving ab q t k hq := by simp [initial] at hq
  pending p t q hq := by simp [initial, Node.fresh, Node.pendingLocks] at hq

/-! ## 3. Grants -/

/-- **No step takes a key from a call that is not on its way out.**  A release, wherever it is
executed, is that of a call on its way out, and no other call that the node has to do with has the
same id. -/
theorem LockTraffic.owner_kept (h : LockTraffic cfg prim w) (hs : Stepped cfg w l w')
    {k : KeyType} {j : ι} (hcalled : w.Called j) (huses : w.Uses j k)
    (hstays : (w.txns j).pc.leaving = false)
    (hown : w.ownerAt (prim k) k = some (w.txns j).txId) :
    w'.ownerAt (prim k) k = some (w'.txns j).txId := by
  -- who is on the way out and touches the primary of the key has another id
  have hother : ∀ i, w.Called i → (w.txns i).pc.leaving = true →
      Touches cfg prim w i (prim k) → (w.txns j).txId ≠ (w.txns i).txId := by
    intro i hi hleave htouch hid
    have hji := h.distinct j i (prim k) hcalled hi hid huses.touches htouch
    rw [hji, hleave] at hstays
    exact absurd hstays (by simp)
  rw [(hs.called hcalled).2]
  cases hs with
  | @txn i c r hs =>
    show (Function.update w.nodes (cfg.origin i) r.node (prim k)).lockManager.owner k = _
    rcases eq_or_ne (prim k) (cfg.origin i) with hp | hp
    · rw [hp, Function.update_self]
      rw [ownerAt, hp] at hown
      rcases hs.lock_effect with ⟨key, todo, stage, -, -, hacq⟩ | ⟨key, keys, hpc, -, hlm⟩ |
        ⟨-, -, hsame⟩
      · exact hacq.owner_of_some hown
      · have hleave : (w.txns i).pc.leaving = true := by
          rcases hpc with hpc | ⟨results, rethrow, hpc⟩ <;> simp [hpc, Pc.leaving]
        have hi : w.Called i := by
          rcases hpc with hpc | ⟨results, rethrow, hpc⟩ <;> simp [Called, hpc]
        rw [hlm]
        exact LockManager.owner_release_of_ne hown fun e => hother i hi hleave (.inl hp) e.2
      · exact (hsame k).trans hown
    · rw [Function.update_of_ne hp]
      exact hown
  | @deliver src dest q rest n a _ _ _ hch hh =>
    show (Function.update w.nodes dest n (prim k)).lockManager.owner k = _
    rcases eq_or_ne (prim k) dest with hp | hp
    · rw [hp, Function.update_self]
      rw [ownerAt, hp] at hown
      obtain ⟨cause, msg⟩ := q
      cases hh with
      | @lockRel t key =>
        have hmem : (⟨cause, .lockRel t key⟩ : Packet ι) ∈ w.channels (src, dest) := by simp [hch]
        have hask := h.packet _ _ t key hmem (.inr rfl)
        refine LockManager.owner_release_of_ne hown fun e => ?_
        refine hother cause hask.called (h.leaving _ _ t key hmem rfl) ?_ (e.2.trans hask.txId.symm)
        have hdest : dest = prim key := (Prod.mk.inj hask.route).2
        rw [hp, hdest]
        exact hask.uses.touches
      | _ => exact hown
    · rw [Function.update_of_ne hp]
      exact hown
  | @handle src dest throws i b r hi hs =>
    show (Function.update w.nodes dest r.1 (prim k)).lockManager.owner k = _
    rcases eq_or_ne (prim k) dest with hp | hp
    · rw [hp, Function.update_self]
      rw [ownerAt, hp] at hown
      cases hs with
      | poll hacq => exact hacq.owner_of_some hown
      | decided hacq => exact hacq.owner_of_some hown
      | _ => exact hown
    · rw [Function.update_of_ne hp]
      exact hown
  | drop _ => exact hown

/-- The node has granted the key to `x`, or its handler is about to say so. -/
def GivenTo (w : Cluster ι) (p : NodeID) (x : TxnName) (k : KeyType) : Prop :=
  .granted p x k ∈ w.locks ∨
    ∃ j, w.handlers (x.1, p) = some ⟨j, .responding (.lockGranted x.2 k)⟩

/-- **What a grant is worth**: it was given to a call that uses the key, and the entry names that
call until it is on its way out. -/
structure GrantTraffic (cfg : ClusterConfig ι) (prim : KeyType → NodeID) (w : Cluster ι) : Prop
    extends LockTraffic cfg prim w where
  given : ∀ p x k, w.GivenTo p x k → ∃ i, Asks cfg prim w i (x.1, p) x.2 k ∧
    ((w.txns i).pc.leaving = true ∨ w.ownerAt p k = some x.2)

/-- Where a grant comes from: it was there, or the step put the id into the entry. -/
theorem Stepped.given_of (hs : Stepped cfg w l w') {p : NodeID} {x : TxnName} {k : KeyType}
    (hgiven : w'.GivenTo p x k) :
    w.GivenTo p x k ∨
      (∃ i todo stage, w.Called i ∧ (w.txns i).pc = .locking (k :: todo) stage ∧
        x = (cfg.origin i, (w.txns i).txId) ∧ p = cfg.origin i ∧ w'.ownerAt p k = some x.2) ∨
      ∃ j stage, w.handlers (x.1, p) = some ⟨j, .acquiring x.2 k stage⟩ ∧
        w'.ownerAt p k = some x.2 := by
  cases hs with
  | @txn i c r hs =>
    rcases hgiven with hmem | hresp
    · rcases List.mem_append.mp hmem with hold | hnew
      · exact .inl (.inl hold)
      · rw [Option.mem_toList, Option.bind_eq_some_iff] at hnew
        obtain ⟨e, he, hgrant⟩ := hnew
        cases e with
        | granted key =>
          obtain ⟨rfl, rfl, rfl⟩ : cfg.origin i = p ∧ (cfg.origin i, r.thread.txId) = x ∧
              key = k := by simpa [TxnEvent.lockEvent] using hgrant
          rcases hs.lock_effect with ⟨key', todo, stage, hpc, hev, hacq⟩ | ⟨_, _, _, hev, _⟩ |
            ⟨hno, _⟩
          · rw [hev, Option.some.injEq, TxnEvent.granted.injEq] at he
            subst he
            have hcalled : w.Called i := by simp [Called, hpc]
            have hid := (hs.id_of_called hcalled).1
            refine .inr (.inl ⟨i, todo, stage, hcalled, hpc, by rw [hid], rfl, ?_⟩)
            rw [ownerAt, afterTxn_nodes_self, hacq.acquired.1, hid]
          · rw [hev] at he
            exact absurd he (by simp)
          · exact absurd he (hno key)
        | _ => exact absurd hgrant (by simp [TxnEvent.lockEvent])
    · exact .inl (.inr hresp)
  | @deliver src dest q rest n a _ _ hnone _ hh =>
    obtain ⟨cause, msg⟩ := q
    rcases hgiven with hmem | ⟨j, hresp⟩
    · rcases List.mem_append.mp hmem with hold | hnew
      · exact .inl (.inl hold)
      · cases msg <;> simp [Message.handledEvent] at hnew
    · rcases update_cases (P := fun a : Option (ActiveHandler ι) =>
          a = some ⟨j, .responding (.lockGranted x.2 k)⟩) hresp with ⟨-, hnew⟩ | ⟨-, hold⟩
      · -- no message is answered `lock_granted` at once
        cases hh <;> simp at hnew
      · exact .inl (.inr ⟨j, hold⟩)
  | @handle src dest throws i a r ha hs =>
    rcases hgiven with hmem | ⟨j, hresp⟩
    · rcases List.mem_append.mp hmem with hold | hnew
      · exact .inl (.inl hold)
      · rw [Option.mem_toList, Option.bind_eq_some_iff] at hnew
        obtain ⟨msg, hsent, hgrant⟩ := hnew
        cases msg with
        | lockGranted t key =>
          obtain ⟨rfl, rfl, rfl⟩ : dest = p ∧ (src, t) = x ∧ key = k := by
            simpa [Message.sentEvent] using hgrant
          exact .inl (.inr ⟨i, by rw [ha, hs.sent_of hsent]⟩)
        | _ => exact absurd hgrant (by simp [Message.sentEvent])
    · rcases update_cases (P := fun a : Option (ActiveHandler ι) =>
          a = some ⟨j, .responding (.lockGranted x.2 k)⟩) hresp with ⟨hab, hnew⟩ | ⟨-, hold⟩
      · obtain ⟨rfl, rfl⟩ := Prod.mk.inj hab
        cases hs with
        | poll _ => simp at hnew
        | @decided t key stage lm result hacq =>
          simp only [Option.map_some, Option.some.injEq, ActiveHandler.mk.injEq,
            Handler.responding.injEq] at hnew
          obtain ⟨rfl, hresult⟩ := hnew
          cases result with
          | ABORTED => exact absurd hresult (by simp [lockResponse])
          | ACQUIRED =>
            obtain ⟨rfl, rfl⟩ := Message.lockGranted.inj hresult
            refine .inr (.inr ⟨i, stage, ha, ?_⟩)
            simp [ownerAt, afterHandle, hacq.acquired.1]
        | responded _ | responseThrew _ => simp at hnew
      · exact .inl (.inr ⟨j, hold⟩)
  | drop _ => exact .inl hgiven

/-- **Every step keeps it.** -/
theorem grantTraffic_step (h : GrantTraffic cfg prim w)
    (hprim : ∀ i k, (cfg.routing (cfg.origin i)).primary k = prim k)
    (hok : FreshId cfg prim w l) (hs : Stepped cfg w l w') : GrantTraffic cfg prim w' where
  toLockTraffic := lockTraffic_step h.toLockTraffic hprim hok hs
  given p x k hgiven := by
    rcases hs.given_of hgiven with hold | ⟨i, todo, stage, hcalled, hpc, rfl, rfl, hown⟩ |
      ⟨j, stage, ha, hown⟩
    · obtain ⟨i, hask, hworth⟩ := h.given p x k hold
      refine ⟨i, hask.step hs, ?_⟩
      cases hstays : (w.txns i).pc.leaving with
      | true => exact .inl (hs.leaving hstays)
      | false =>
        obtain ⟨-, rfl⟩ := Prod.mk.inj hask.route
        have hown : w.ownerAt (prim k) k = some (w.txns i).txId := by
          rw [hask.txId]
          exact hworth.resolve_left (by simp [hstays])
        have hkept := h.owner_kept hs hask.called hask.uses hstays hown
        rw [(hs.called hask.called).2, hask.txId] at hkept
        exact .inr hkept
    · have hloc := h.located i
      simp only [TxnThread.Located, hpc] at hloc
      obtain ⟨hk, huses⟩ := hloc k List.mem_cons_self
      exact ⟨i, Asks.step ⟨hcalled, by rw [hk], rfl, huses⟩ hs, .inr hown⟩
    · exact ⟨j, (h.acquiring _ _ _ _ _ ha).step hs, .inr hown⟩

omit [DecidableEq ι] in
theorem grantTraffic_initial (cfg : ClusterConfig ι) (prim : KeyType → NodeID)
    (stores : NodeID → ThreadSafeKVStore) (txs : ι → Transaction) :
    GrantTraffic cfg prim (initial cfg stores txs) where
  toLockTraffic := lockTraffic_initial cfg prim stores txs
  given p x k h := by simp [GivenTo, initial] at h

omit [DecidableEq ι] in
/-- **A call that was granted a key is named by the entry** until it is on its way out. -/
theorem GrantTraffic.owner_of_granted (h : GrantTraffic cfg prim w) {i : ι} {p : NodeID}
    {k : KeyType} (hcalled : w.Called i) (hstays : (w.txns i).pc.leaving = false)
    (hgranted : .granted p (cfg.origin i, (w.txns i).txId) k ∈ w.locks) :
    w.ownerAt p k = some (w.txns i).txId := by
  obtain ⟨j, hask, hworth⟩ := h.given _ _ _ (.inl hgranted)
  -- no other call of the node has its id
  obtain rfl : j = i := h.distinct j i (cfg.origin i) hask.called hcalled hask.txId
    (.inl (Prod.mk.inj hask.route).1) (touches_origin i)
  exact hworth.resolve_left (by simp [hstays])

end Step

end Cluster

end TwoPL
