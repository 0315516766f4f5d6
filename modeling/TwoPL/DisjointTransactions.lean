/-
# Transactions without a key in common

A node on its own, and any finite family of transactions no two of which share a key.  The locks
then keep nobody waiting: an entry can only name a transaction that uses its key, so that the first
poll of every `acquire` succeeds, and nothing is ever aborted.

The transactions still share the lock table, the `held_locks` table, the counter of ids and the
stripes of the store.  What carries the result through them is `ApartInv`: every owned key is a key
of a call that has the owner's id, and the store is what the operations executed so far give when
they are executed one call after the other, in ANY fixed order of the calls.  Since operations on
different keys are independent, each call has seen exactly what it would have seen alone.

They share the table itself as well: linking one's entry can send the lookup of another call to the
wrong place, and then a call may abort after all.  Here every call finds its entry; the runs with
lookups are in `LookupNode.lean`.

Ids may even collide (the counter is 64 bits wide and may wrap): a `release_all` then gives back
somebody else's key too early, which no third transaction can notice.  So there is no bound on the
number of calls here, and the initial node may have any counter and any leftovers in `held_locks`.
-/
import TwoPL.Lib.Termination
import TwoPL.SingleNode

namespace TwoPL

open Lib

namespace SingleNode

variable {ι : Type*} [DecidableEq ι]

/-! ## 1. The system, and what a call that is not disturbed has done -/

/-- Nothing has been called yet on the node `n`. -/
def initialAt (n : Node) (txs : ι → Transaction) : SingleNode ι where
  node := n
  txns := fun i => .fresh (txs i)
  hist := []

/-- No two of the transactions have a key in common. -/
def Apart (txs : ι → Transaction) : Prop :=
  ∀ i j, i ≠ j → ∀ op ∈ txs i, ∀ op' ∈ txs j, op.key ≠ op'.key

/-- Where a call is that has executed `ran` and seen nothing of the others: it is never refused a
key, and its results are those of its operations, executed alone on `store`. -/
def Undisturbed (store : ThreadSafeKVStore) (t : TxnThread) (ran : List Operation) : Prop :=
  match t.pc with
  | .idle => ran = []
  | .locking todo stage =>
    ran = [] ∧ stage.NotWaited ∧ ∀ k ∈ todo, ∃ op ∈ t.tx, op.key = k
  | .executing rest results => t.tx = ran ++ rest ∧ results = (opActions.obsAll store ran).flatten
  | .releasing _ results rethrow =>
    ran = t.tx ∧ results = (opActions.obsAll store ran).flatten ∧ rethrow = false
  | .sendingReleases todo results rethrow =>
    ran = t.tx ∧ results = (opActions.obsAll store ran).flatten ∧ rethrow = false ∧ todo = []
  | .returned results => ran = t.tx ∧ results = (opActions.obsAll store ran).flatten
  | _ => False

/-- It has executed nothing but operations of its own. -/
theorem Undisturbed.subset {store : ThreadSafeKVStore} {t : TxnThread} {ran : List Operation}
    (h : Undisturbed store t ran) : ∀ op ∈ ran, op ∈ t.tx := by
  unfold Undisturbed at h
  split at h
  · simp [h]
  · simp [h.1]
  · intro op hop
    rw [h.1]
    exact List.mem_append_left _ hop
  · rw [h.1]; exact fun op hop => hop
  · rw [h.1]; exact fun op hop => hop
  · rw [h.1]; exact fun op hop => hop
  · exact absurd h id

/-- What is left of a call that is not disturbed. -/
def apartCost : Pc → ℕ ×ₗ ℕ
  | .idle => toLex (5, 0)
  | .locking todo .emplace => toLex (4, 3 * todo.length + 2)
  | .locking todo .track => toLex (4, 3 * todo.length + 1)
  | .locking todo _ => toLex (4, 3 * todo.length)
  | .executing rest _ => toLex (3, rest.length)
  | .releasing .take _ _ => toLex (2, 0)
  | .releasing (.releasing keys) _ _ => toLex (1, keys.length)
  | .sendingReleases _ _ _ => toLex (0, 1)
  | _ => toLex (0, 0)

/-- **The invariant of transactions that are apart.** -/
structure ApartInv (n₀ : Node) (txs : ι → Transaction) (w : SingleNode ι) : Prop where
  routing : w.node.routing = n₀.routing
  tx : ∀ i, (w.txns i).tx = txs i
  /-- An owned key is a key of a call with the owner's id. -/
  owner : ∀ k t, w.node.lockManager.owner k = some t →
    ∃ i, (w.txns i).pc ≠ .idle ∧ (w.txns i).txId = t ∧ ∃ op ∈ txs i, op.key = k
  /-- The store is that of the serial execution, in whatever order. -/
  store : ∀ order : List ι, order.Nodup → (∀ i, i ∈ order) →
    w.node.store = serialState opActions n₀.store (executed w.hist) order
  thread : ∀ i, Undisturbed n₀.store (w.txns i) (executed w.hist i)
  aborted : ∀ i, (i, .aborted) ∉ w.hist

/-! ## 2. The invariant is kept -/

section Step

variable {n₀ : Node} {txs : ι → Transaction} {w : SingleNode ι} {i : ι} {c : Choice} {r : TxnStep}

/-- An event that records no operation leaves what was executed. -/
theorem executed_after_of_none (w : SingleNode ι) (i : ι) (hran : r.event.bind ranOp = none) :
    executed (w.after i r).hist = executed w.hist := by
  funext j
  rw [executed_after, hran]
  simp

/-- One that does adds it to the operations of its call. -/
theorem executed_after_of_some (w : SingleNode ι) (i : ι) (op : Operation)
    (hran : r.event.bind ranOp = some op) :
    executed (w.after i r).hist = Lib.extend (executed w.hist) i op := by
  funext j
  rw [executed_after, hran]
  by_cases hj : j = i
  · subst hj; simp
  · simp [hj, extend_of_ne hj]

/-- What a step of `i` has to establish. -/
theorem ApartInv.after (h : ApartInv n₀ txs w) (hs : TxnStepped w.node (w.txns i) c r)
    (howner : ∀ k t, r.node.lockManager.owner k = some t →
      w.node.lockManager.owner k = some t ∨
        (t = r.thread.txId ∧ r.thread.pc ≠ .idle ∧ ∃ op ∈ txs i, op.key = k))
    (hstore : ∀ order : List ι, order.Nodup → (∀ i, i ∈ order) →
      r.node.store = serialState opActions n₀.store (executed (w.after i r).hist) order)
    (hothers : ∀ j, j ≠ i → executed (w.after i r).hist j = executed w.hist j)
    (hthread : Undisturbed n₀.store r.thread (executed (w.after i r).hist i))
    (hevent : r.event ≠ some .aborted) : ApartInv n₀ txs (w.after i r) where
  routing := hs.routing_eq.trans h.routing
  tx j := by
    by_cases hj : j = i
    · subst hj; rw [after_txns_self, hs.tx_eq, h.tx]
    · rw [after_txns_of_ne w hj, h.tx]
  owner k t hk := by
    rcases howner k t hk with hold | ⟨ht, hcalled, hop⟩
    · obtain ⟨j, hcalled, hid, hop⟩ := h.owner k t hold
      by_cases hj : j = i
      · subst hj
        obtain ⟨hid', hpc', -⟩ := hs.id_of_called hcalled
        exact ⟨j, by rwa [after_txns_self], by rw [after_txns_self, hid', hid], hop⟩
      · exact ⟨j, by rwa [after_txns_of_ne w hj], by rw [after_txns_of_ne w hj, hid], hop⟩
    · exact ⟨i, by rwa [after_txns_self], by rw [after_txns_self, ht], hop⟩
  store := hstore
  thread j := by
    by_cases hj : j = i
    · subst hj; rw [after_txns_self]; exact hthread
    · rw [after_txns_of_ne w hj, hothers j hj]
      exact h.thread j
  aborted j hj := by
    rcases mem_after_hist.mp hj with hold | ⟨-, he⟩
    · exact h.aborted j hold
    · exact hevent he

/-- A step that executes no operation. -/
theorem ApartInv.quiet (h : ApartInv n₀ txs w) (hs : TxnStepped w.node (w.txns i) c r)
    (howner : ∀ k t, r.node.lockManager.owner k = some t →
      w.node.lockManager.owner k = some t ∨
        (t = r.thread.txId ∧ r.thread.pc ≠ .idle ∧ ∃ op ∈ txs i, op.key = k))
    (hstore : r.node.store = w.node.store) (hran : r.event.bind ranOp = none)
    (hthread : Undisturbed n₀.store r.thread (executed w.hist i))
    (hevent : r.event ≠ some .aborted) : ApartInv n₀ txs (w.after i r) := by
  have hexec := executed_after_of_none w i hran
  refine h.after hs howner (fun order hnd hall => ?_) (fun j _ => by rw [hexec])
    (by rwa [hexec]) hevent
  rw [hstore, hexec]
  exact h.store order hnd hall

/-- The operations of `i` are independent of what the others have executed. -/
theorem ApartInv.indep (h : ApartInv n₀ txs w) (hapart : Apart txs) {op : Operation}
    (hop : op ∈ txs i) {j : ι} (hj : j ≠ i) :
    ∀ op' ∈ executed w.hist j, opActions.Indep op op' := by
  intro op' hop'
  have hmem : op' ∈ txs j := h.tx j ▸ (h.thread j).subset op' hop'
  exact opActions_indep op op' (hapart i j hj.symm op hop op' hmem)

/-- A step that executes `op`: the store is that of the serial execution with `op` at the end of
the operations of `i`, and `i` has seen what it sees alone. -/
theorem ApartInv.run (h : ApartInv n₀ txs w) (hapart : Apart txs) {op : Operation}
    (hop : op ∈ txs i) {order : List ι} (hnd : order.Nodup) (hall : ∀ i, i ∈ order) :
    (NaiveOpExecutor.accept w.node.store op).1
      = serialState opActions n₀.store (Lib.extend (executed w.hist) i op) order ∧
    localResult op (NaiveOpExecutor.accept w.node.store op).2
      = opActions.obs (opActions.execAll n₀.store (executed w.hist i)) op := by
  obtain ⟨P, Q, rfl⟩ := List.append_of_mem (hall i)
  obtain ⟨hP, hQ⟩ := notMem_of_split hnd
  have hstore := h.store _ hnd hall
  have hne : ∀ j ∈ P ++ Q, j ≠ i := by
    rintro j hj rfl
    exact (List.mem_append.mp hj).elim hP hQ
  have hind : ∀ j ∈ P ++ Q, ∀ o' ∈ executed w.hist j, opActions.Indep op o' := fun j hj =>
    h.indep hapart hop (hne j hj)
  constructor
  · rw [serialState_extend hP hQ fun j hj => hind j (List.mem_append_right _ hj), ← hstore]
    rfl
  · rw [← obs_serialState_of_indep hind, ← hstore]
    · rfl
    · intro j hj o' ho' o'' ho''
      have hji := hne j (List.mem_append_left _ hj)
      have hmem : o' ∈ txs j := h.tx j ▸ (h.thread j).subset o' ho'
      exact h.indep hapart hmem hji.symm o'' ho''

/-- The key that `i` polls is free, or has its id. -/
theorem ApartInv.free (h : ApartInv n₀ txs w) (hapart : Apart txs) {k : KeyType}
    (hk : ∃ op ∈ (w.txns i).tx, op.key = k) :
    w.node.lockManager.owner k = none ∨ w.node.lockManager.owner k = some (w.txns i).txId := by
  cases hown : w.node.lockManager.owner k with
  | none => exact .inl rfl
  | some t =>
    obtain ⟨j, -, hid, op', hop', hkey'⟩ := h.owner k t hown
    obtain ⟨op, hop, hkey⟩ := hk
    rw [h.tx i] at hop
    have hji : j = i := by
      by_contra hne
      exact hapart j i hne op' hop' op hop (hkey'.trans hkey.symm)
    exact .inr (by rw [← hji, hid])

/-- The events of `release_all` say which key is released, and nothing else. -/
theorem event_releaseAll (stage : ReleaseAllStage) :
    stage.event.bind ranOp = none ∧ stage.event ≠ some .aborted := by
  rcases stage.event_cases with hnone | ⟨key, hsome⟩
  · simp [hnone]
  · simp [hsome, ranOp]

/-- Where the cost of the locking phase stands. -/
theorem apartCost_locking (todo : List KeyType) (stage : AcquireStage) :
    ∃ m, apartCost (.locking todo stage) = toLex (4, 3 * todo.length + m) := by
  cases stage with
  | emplace => exact ⟨2, rfl⟩
  | track => exact ⟨1, rfl⟩
  | spin _ => exact ⟨0, rfl⟩
  | sleep _ => exact ⟨0, rfl⟩

/-- A section of an `acquire` that does not have to wait. -/
theorem apartCost_poll {lm lm' : LockManager} {key : KeyType} {txId : TransactionId}
    {stage stage' : AcquireStage} (hacq : AcquireStep lm key txId stage lm' (.inl stage'))
    (hst' : stage'.NotWaited) (todo : List KeyType) :
    apartCost (.locking todo stage') < apartCost (.locking todo stage) := by
  cases hacq with
  | emplace => exact Prod.Lex.toLex_lt_toLex.mpr (.inr ⟨rfl, by simp⟩)
  | track => exact Prod.Lex.toLex_lt_toLex.mpr (.inr ⟨rfl, by simp⟩)
  | spun _ _ =>
    split at hst' <;> exact absurd hst' (by simp [AcquireStage.NotWaited])
  | slept _ _ => exact absurd hst' (by simp [AcquireStage.NotWaited])

/-- **A call that is not disturbed gets nearer to its end with every step.** -/
theorem Undisturbed.apartCost_lt {n : Node} {t : TxnThread} {store : ThreadSafeKVStore}
    {ran ran' : List Operation} (h : Undisturbed store t ran)
    (h' : Undisturbed store r.thread ran') (hs : TxnStepped n t c r) :
    apartCost r.thread.pc < apartCost t.pc := by
  unfold Undisturbed at h h'
  cases hs with
  | call hpc _ =>
    rw [hpc]
    exact Prod.Lex.toLex_lt_toLex.mpr (.inl (by simp))
  | poll hpc hacq =>
    rw [hpc]
    exact apartCost_poll hacq h'.2.1 _
  | @acquired key todo stage _ hpc hacq =>
    obtain ⟨m, hm⟩ := apartCost_locking (key :: todo) stage
    rw [hpc, hm]
    refine Prod.Lex.toLex_lt_toLex.mpr (.inr ⟨rfl, ?_⟩)
    simp only [List.length_cons]
    omega
  | @lockedLocal stage hpc _ =>
    obtain ⟨m, hm⟩ := apartCost_locking [] stage
    rw [hpc, hm]
    exact Prod.Lex.toLex_lt_toLex.mpr (.inl (by simp))
  | ranLocal hpc _ =>
    rw [hpc]
    exact Prod.Lex.toLex_lt_toLex.mpr (.inr ⟨rfl, by simp⟩)
  | allRan hpc =>
    rw [hpc]
    exact Prod.Lex.toLex_lt_toLex.mpr (.inl (by simp))
  | releasing hpc hrel =>
    rw [hpc]
    cases hrel with
    | take _ => exact Prod.Lex.toLex_lt_toLex.mpr (.inl (by simp))
    | release => exact Prod.Lex.toLex_lt_toLex.mpr (.inr ⟨rfl, by simp⟩)
  | releasedLocal hpc hrel _ =>
    rw [hpc]
    cases hrel with
    | done => exact Prod.Lex.toLex_lt_toLex.mpr (.inl (by simp))
  | returned hpc =>
    rw [hpc]
    exact Prod.Lex.toLex_lt_toLex.mpr (.inr ⟨rfl, by simp⟩)
  | sendRelease hpc _ => simp [hpc] at h
  | rethrown hpc _ => simp [hpc] at h
  | _ => simp [*, TxnThread.goto] at h h'

variable [Fintype ι]

/-- **Every step keeps the invariant.** -/
theorem apartInv_step (hsingle : n₀.routing.coordinator = none) (hapart : Apart txs)
    (h : ApartInv n₀ txs w) (hs : TxnStepped w.node (w.txns i) c r) :
    ApartInv n₀ txs (w.after i r) := by
  have hcoord : w.node.routing.coordinator = none := by rw [h.routing, hsingle]
  have hm := h.thread i
  unfold Undisturbed at hm
  have hs' := hs
  cases hs with
  | @call keys hpc henum =>
    simp only [hpc] at hm
    refine h.quiet hs' (fun k t hk => .inl hk) rfl rfl ⟨hm, .inl rfl, fun k hk => ?_⟩ (by simp)
    rw [henum.mem_iff, Node.localKeys, Finset.mem_filter, List.mem_toFinset, List.mem_map] at hk
    exact hk.1
  | @poll key todo stage stage' lm hpc hacq =>
    simp only [hpc] at hm
    obtain ⟨hran, hst, htodo⟩ := hm
    rcases hacq.notWaited hst (h.free hapart (htodo key List.mem_cons_self)) with hr | ⟨_, hr, hst'⟩
    · exact absurd hr (by simp)
    rw [Sum.inl.injEq] at hr
    subst hr
    refine h.quiet hs' (fun k t hk => ?_) rfl rfl ⟨hran, hst', htodo⟩ (by simp)
    exact .inl (hacq.owner_unchanged (by simp) k ▸ hk)
  | @acquired key todo stage lm hpc hacq =>
    simp only [hpc] at hm
    obtain ⟨hran, hst, htodo⟩ := hm
    refine h.quiet hs' (fun k t hk => ?_) rfl rfl
      ⟨hran, .inl rfl, fun k hk => htodo k (List.mem_cons_of_mem _ hk)⟩ (by simp)
    refine (hacq.owner_cases hk).imp_right fun e => ⟨e.2, by simp [TxnThread.goto], ?_⟩
    rw [← h.tx i, e.1]
    exact htodo key List.mem_cons_self
  | @refused key todo stage lm hpc hacq =>
    simp only [hpc] at hm
    obtain ⟨-, hst, htodo⟩ := hm
    rcases hacq.notWaited hst (h.free hapart (htodo key List.mem_cons_self)) with hr | ⟨_, hr, -⟩
    · exact absurd hr (by simp)
    · exact absurd hr (by simp)
  | lockedLocal hpc _ =>
    simp only [hpc] at hm
    refine h.quiet hs' (fun k t hk => .inl hk) rfl rfl ?_ (by simp)
    exact ⟨by simp [hm.1, TxnThread.goto], by simp [hm.1]⟩
  | @ranLocal op rest results hpc _ =>
    simp only [hpc] at hm
    obtain ⟨htx, hres⟩ := hm
    have hop : op ∈ txs i := by rw [← h.tx i, htx]; simp
    refine h.after hs' (fun k t hk => .inl hk) (fun order hnd hall => ?_) (fun j hj => ?_) ?_
      (by simp)
    · rw [executed_after_of_some w i op (by rfl)]
      exact (h.run hapart hop hnd hall).1
    · rw [executed_after_of_some w i op (by rfl), extend_of_ne hj]
    · rw [executed_after_of_some w i op (by rfl), extend_self]
      refine ⟨by simp [TxnThread.goto, htx], ?_⟩
      have hsees := (h.run hapart hop (Finset.nodup_toList Finset.univ) (by simp)).2
      rw [Actions.obsAll_append, hres, collect, hsees]
      simp [Actions.obsAll]
  | allRan hpc =>
    simp only [hpc] at hm
    refine h.quiet hs' (fun k t hk => .inl hk) rfl rfl ?_ (by simp)
    exact ⟨by simpa [TxnThread.goto] using hm.1.symm, hm.2, rfl⟩
  | releasing hpc hrel =>
    simp only [hpc] at hm
    exact h.quiet hs' (fun k t hk => .inl (hrel.owner_of hk)) rfl
      (event_releaseAll _).1 hm (event_releaseAll _).2
  | @releasedLocal stage lm pairs results rethrow hpc hrel henum =>
    simp only [hpc] at hm
    have hpairs := eq_nil_of_coordinator_none hcoord henum
    exact h.quiet hs' (fun k t hk => .inl (hrel.owner_of hk)) rfl rfl
      ⟨hm.1, hm.2.1, hm.2.2, hpairs⟩ (by simp)
  | returned hpc =>
    simp only [hpc] at hm
    exact h.quiet hs' (fun k t hk => .inl hk) rfl rfl ⟨hm.1, hm.2.1⟩ (by simp)
  | beginRemote _ hrem _ _ =>
    exact absurd (remotePairs_of_coordinator_none hcoord _) hrem
  | opBegin _ hremote _ =>
    exact absurd (primary_of_coordinator_none hcoord _) hremote
  | opAnswered hpc => rcases hpc with hpc | hpc <;> simp [hpc] at hm
  | sendRelease hpc _ => simp [hpc] at hm
  | sendThrew hpc _ => simp [hpc] at hm
  | rethrown hpc _ => simp [hpc] at hm
  | _ => simp [*] at hm

omit [DecidableEq ι] [Fintype ι] in
/-- A call that is not disturbed and has not returned can go on. -/
theorem Undisturbed.exists_step {store : ThreadSafeKVStore} {n : Node} {t : TxnThread}
    {ran : List Operation} (h : Undisturbed store t ran) (hcoord : n.routing.coordinator = none) :
    (∃ results, t.pc = .returned results) ∨ ∃ c r, stepTxn n t c = some r := by
  refine exists_stepTxn hcoord ?_
  unfold Undisturbed at h
  split at h <;> simp_all [AlonePc]

end Step

/-! ## 3. Disjoint transactions do not disturb each other -/

section Runs

variable [Fintype ι] {n₀ : Node} {txs : ι → Transaction} {w : SingleNode ι}

omit [Fintype ι] in
theorem apartInv_initialAt (hfree : ∀ k, n₀.lockManager.owner k = none) :
    ApartInv n₀ txs (initialAt n₀ txs) where
  routing := rfl
  tx _ := rfl
  owner k t hk := by
    rw [initialAt, hfree k] at hk
    exact absurd hk (by simp)
  store order _ _ := by
    have hnil : order.flatMap (executed (initialAt n₀ txs).hist) = [] :=
      List.flatMap_eq_nil_iff.mpr fun _ _ => rfl
    rw [serialState, hnil]
    rfl
  thread _ := rfl
  aborted _ h := by simp [initialAt] at h

theorem apartInv_run (hsingle : n₀.routing.coordinator = none)
    (hfree : ∀ k, n₀.lockManager.owner k = none) (hapart : Apart txs)
    (hr : Reachable step (initialAt n₀ txs) w) : ApartInv n₀ txs w := by
  refine hr.invariant (apartInv_initialAt hfree) fun w l w' h _ hs => ?_
  obtain ⟨r, hstepped, rfl⟩ := step_spec hs
  exact apartInv_step hsingle hapart h hstepped

omit [Fintype ι] in
/-- A call that has returned has executed its transaction, and returned what it gives alone. -/
theorem ApartInv.returned (h : ApartInv n₀ txs w) {i : ι} {results : Results}
    (hret : (w.txns i).pc = .returned results) :
    executed w.hist i = txs i ∧ results = (runAlone n₀.store (txs i)).2 := by
  have hm := h.thread i
  simp only [Undisturbed, hret, h.tx i] at hm
  rw [runAlone_eq, hm.2, hm.1]
  exact ⟨rfl, rfl⟩

/-- **Disjoint transactions do not disturb each other.**  On a node started without peers, with any
store, any counter and any lock table without an owner, and for every finite family of transactions
no two of which have a key in common: no run is infinite; and in every state reached, no
transaction has aborted, each one has returned or can go on, what it has returned is what it returns
in every run in which it is the only one, and the store at the end does not depend on the run. -/
theorem disjoint_transactions {hash : KeyType → UInt64} {g : NodeID} {nodeID : String}
    (hstart : start hash (.fresh g) nodeID [] = .ok n₀.routing)
    (hfree : ∀ k, n₀.lockManager.owner k = none) (hapart : Apart txs) :
    Terminates step (initialAt n₀ txs) ∧
    ∀ w, Reachable step (initialAt n₀ txs) w →
      (∀ i, (i, .aborted) ∉ w.hist) ∧
      (∀ i, (∃ results, (w.txns i).pc = .returned results) ∨ ∃ c w', w.step (i, c) = some w') ∧
      (∀ i results, (w.txns i).pc = .returned results →
        ∀ v : SingleNode Unit, Reachable step (initialAt n₀ fun _ => txs i) v →
          ∀ results', (v.txns ()).pc = .returned results' → results = results') ∧
      (∀ w', Reachable step (initialAt n₀ txs) w' →
        (∀ i, ∃ results, (w.txns i).pc = .returned results) →
        (∀ i, ∃ results, (w'.txns i).pc = .returned results) → w.node.store = w'.node.store) := by
  have hsingle : n₀.routing.coordinator = none := start_nil_coordinator hstart
  have hinv : ∀ {w}, Reachable step (initialAt n₀ txs) w → ApartInv n₀ txs w :=
    apartInv_run hsingle hfree hapart
  -- a finished run has executed every transaction as a whole
  have hfinal : ∀ {w}, Reachable step (initialAt n₀ txs) w →
      (∀ i, ∃ results, (w.txns i).pc = .returned results) →
      w.node.store = serialState opActions n₀.store txs Finset.univ.toList := by
    intro w hr hall
    rw [(hinv hr).store Finset.univ.toList (Finset.nodup_toList _) (by simp)]
    refine serialState_congr fun i _ => ?_
    obtain ⟨results, hret⟩ := hall i
    exact ((hinv hr).returned hret).1
  refine ⟨?_, fun w hr => ⟨(hinv hr).aborted, fun i => ?_, ?_, fun w' hr' hall hall' => ?_⟩⟩
  · refine terminates_of_parties (fun w i => apartCost (w.txns i).pc) fun w l w' hr hs => ?_
    obtain ⟨r, hstepped, rfl⟩ := step_spec hs
    refine ⟨l.1, ?_, fun j hj => by rw [after_txns_of_ne w hj]⟩
    have hafter := (apartInv_step hsingle hapart (hinv hr) hstepped).thread l.1
    rw [after_txns_self] at hafter ⊢
    exact ((hinv hr).thread l.1).apartCost_lt hafter hstepped
  · have hcoord : w.node.routing.coordinator = none := by rw [(hinv hr).routing, hsingle]
    refine ((hinv hr).thread i).exists_step hcoord |>.imp_right ?_
    rintro ⟨c, r, hr⟩
    refine ⟨c, ?_⟩
    simp only [step, hr, Option.map_some, Option.some.injEq, exists_eq']
  · intro i results hret v hv results' hret'
    have halone : ApartInv n₀ (fun _ => txs i) v :=
      apartInv_run hsingle hfree (fun i j hne => absurd (Subsingleton.elim i j) hne) hv
    rw [((hinv hr).returned hret).2, (halone.returned hret').2]
  · rw [hfinal hr hall, hfinal hr' hall']

end Runs

end SingleNode

end TwoPL
