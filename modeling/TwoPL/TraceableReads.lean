/-
# Reads are traceable

A cluster may lose messages, time out, give two transactions one id and apply half a transaction.
Whatever it does, a list that a call returns for a key is one that the key's primary HELD.

* `reads_traceable`: it is a prefix of the list that the primary holds now, and that list is the
  initial one with the values of appends behind it, each of them executed there for a call that
  asked for it.  So of two lists returned for one key, one is a prefix of the other.
* `reads_never_go_back`: a call that is made after another one has returned is told at least as much
  about a key as that one was, or nothing: the answer to an append is an empty list, and a read may
  get it.

A list is on its way to a call in the hands of a handler, in a channel, or in `remote_results`,
until the call has collected it (`Told`).  A step moves lists along, and a new one is what the
primary holds at that moment (`Stepped.told`).
-/
import TwoPL.AllOrNothing
import TwoPL.Bookkeeping
import TwoPL.FilledReply
import TwoPL.Quiescence

namespace TwoPL

open Lib

/-! ## 1. Lists -/

/-- The list a node holds for a key, empty when there is none. -/
def Node.list (n : Node) (k : KeyType) : List ValueType := (n.store.get k).getD []

/-- What a call has collected. -/
def Pc.collected : Pc → Results
  | .executing _ results | .opSending _ _ results | .opChecking _ _ results
  | .opWaiting _ _ results | .opRetrieving _ _ results | .releasing _ results _
  | .sendingReleases _ results _ | .returned results => results
  | _ => []

/-- Behind the list of a store stands what operations append. -/
theorem get_execAll (s : ThreadSafeKVStore) (ops : List Operation) (k : KeyType) :
    ((opActions.execAll s ops).get k).getD [] = (s.get k).getD [] ++ appended k ops := by
  induction ops generalizing s with
  | nil => simp [appended, Actions.execAll]
  | cons op ops ih =>
    have hstep : opActions.execAll s (op :: ops) =
        opActions.execAll (opActions.exec s op) ops := rfl
    rw [hstep, ih]
    cases op with
    | read key => rfl
    | append key value =>
      show ((s.append key value).get k).getD [] ++ _ = _
      rw [ThreadSafeKVStore.get_append]
      by_cases hk : k = key
      · subst hk
        simp [appended]
      · simp [appended, hk, Ne.symm hk]

/-- The answer to an operation is the list of its key, or an empty one. -/
theorem accept_answer (s : ThreadSafeKVStore) (op : Operation) :
    (NaiveOpExecutor.accept s op).2.getD [] = [] ∨
      (NaiveOpExecutor.accept s op).2.getD [] = (s.get op.key).getD [] := by
  cases op with
  | read key => exact .inr rfl
  | append key value => exact .inl rfl

/-- A handled response is stored under its transaction and key. -/
theorem Node.remoteResult_handleOperationResponse (n : Node) (peer : NodeID)
    (t t' : TransactionId) (k k' : KeyType) (values : ValueContainer) :
    (n.handleOperationResponse peer t k values).remoteResult t' k'
      = if t' = t ∧ k' = k then some values else n.remoteResult t' k' := by
  by_cases ht : t' = t
  · subst ht
    by_cases hk : k' = k
    · subst hk
      simp [handleOperationResponse, remoteResult]
    · cases hres : n.remoteResults t' <;>
        simp [handleOperationResponse, remoteResult, hres, hk]
  · simp [handleOperationResponse, erasePendingOp, remoteResult, ht]

section Call

variable {n : Node} {t : TxnThread} {c : Choice} {r : TxnStep}

/-- **Where a call has a list from**: it had it, it read it here, or it was in `remote_results`. -/
theorem TxnStepped.collected_of (h : TxnStepped n t c r) {k : KeyType} {values : ValueContainer}
    (hmem : (k, some values) ∈ r.thread.pc.collected) :
    (k, some values) ∈ t.pc.collected ∨
      (n.primary k = n.routing.localNodeId ∧ values = n.list k ∧ t.pc ≠ .idle) ∨
      (n.remoteResult t.txId k = some values ∧ t.pc ≠ .idle) := by
  cases h with
  | @ranLocal op rest results hpc hlocal =>
    simp only [TxnThread.goto, Pc.collected, collect, List.mem_append] at hmem
    rcases hmem with hold | hnew
    · exact .inl (by rw [hpc]; exact hold)
    · cases op with
      | read key =>
        simp only [localResult, Operation.type, Operation.key, if_true, List.mem_singleton,
          Prod.mk.injEq, NaiveOpExecutor.accept] at hnew
        obtain ⟨rfl, hvalues⟩ := hnew
        exact .inr (.inl ⟨hlocal, by rw [Node.list, ← hvalues]; rfl, by simp [hpc]⟩)
      | append key value => simp [localResult, Operation.type] at hnew
  | @opRetrieved op rest results hpc =>
    cases hres : n.remoteResult t.txId op.key with
    | none =>
      simp only [TxnThread.goto, Pc.collected, hres, collect] at hmem
      exact .inl (by rw [hpc]; exact hmem)
    | some stored =>
      simp only [TxnThread.goto, Pc.collected, hres, collect, List.mem_append,
        List.mem_singleton, Prod.mk.injEq, Option.some.injEq] at hmem
      rcases hmem with hold | ⟨rfl, rfl⟩
      · exact .inl (by rw [hpc]; exact hold)
      · exact .inr (.inr ⟨hres, by simp [hpc]⟩)
  | sleptOn _ _ _ _ => exact .inl hmem
  | opSleptOn _ => exact .inl hmem
  | opAnswered hpc =>
    refine .inl ?_
    rcases hpc with hpc | hpc <;> (rw [hpc]; exact hmem)
  | _ =>
    refine .inl ?_
    simp_all [TxnThread.goto, Pc.collected]

/-- A call sends no responses. -/
theorem TxnStepped.sent_not_opResp (h : TxnStepped n t c r) {dest : NodeID} {t' : TransactionId}
    {k : KeyType} {result : Option ValueContainer} :
    r.sent ≠ some (dest, .opResp t' k result) := by
  cases h <;> simp

/-- The operation requests that a call sends. -/
theorem TxnStepped.sent_opReq (h : TxnStepped n t c r) {dest : NodeID} {t' : TransactionId}
    {op : Operation} (hsent : r.sent = some (dest, .opReq t' op)) :
    dest = n.primary op.key ∧ t' = t.txId ∧ t.pc ≠ .idle := by
  cases h with
  | opSent hpc _ =>
    simp only [Option.some.injEq, Prod.mk.injEq, Message.opReq.injEq] at hsent
    obtain ⟨rfl, rfl, rfl⟩ := hsent
    exact ⟨rfl, rfl, by simp [hpc]⟩
  | _ => exact absurd hsent (by simp)

end Call

namespace Cluster

variable {ι : Type*} [DecidableEq ι] {cfg : ClusterConfig ι} {w w' : Cluster ι}
  {l : ClusterLabel ι}

/-- **Lists only grow.** -/
theorem Stepped.list_prefix (h : Stepped cfg w l w') (p : NodeID) (k : KeyType) :
    (w.nodes p).list k <+: (w'.nodes p).list k := by
  have hgrow : ∀ (s : ThreadSafeKVStore) (ops : List Operation),
      (s.get k).getD [] <+: ((opActions.execAll s ops).get k).getD [] := fun s ops => by
    rw [get_execAll]
    exact List.prefix_append _ _
  have hupdate : ∀ (d : NodeID) (n : Node), (w.nodes d).list k <+: n.list k →
      (w.nodes p).list k <+: (Function.update w.nodes d n p).list k := by
    intro d n hn
    rcases eq_or_ne p d with rfl | hne
    · rwa [Function.update_self]
    · rw [Function.update_of_ne hne]
  cases h with
  | txn hs =>
    refine hupdate _ _ ?_
    rw [Node.list, Node.list, hs.store_eq]
    exact hgrow _ _
  | @deliver src dest q rest n a _ _ _ _ hh =>
    refine hupdate _ _ ?_
    obtain ⟨cause, msg⟩ := q
    cases hh with
    | @opReq t op => exact hgrow (w.nodes dest).store [op]
    | _ => exact List.prefix_rfl
  | handle _ hs =>
    refine hupdate _ _ ?_
    cases hs <;> exact List.prefix_rfl
  | drop _ => exact List.prefix_rfl

/-! ## 2. The way of a list -/

/-- Transaction `t` of node `a` is told this list for a key. -/
inductive Told (cfg : ClusterConfig ι) (w : Cluster ι) (a : NodeID) (t : TransactionId)
    (k : KeyType) (values : ValueContainer) : Prop
  /-- A handler is about to send it. -/
  | responding {p j result} : w.handlers (a, p) = some ⟨j, .responding (.opResp t k result)⟩ →
      result.getD [] = values → Told cfg w a t k values
  | underWay {p q result} : q ∈ w.channels (p, a) → q.msg = .opResp t k result →
      result.getD [] = values → Told cfg w a t k values
  | stored : (w.nodes a).remoteResult t k = some values → Told cfg w a t k values
  | collected {i} : cfg.origin i = a → (w.txns i).txId = t → w.Called i →
      (k, some values) ∈ (w.txns i).pc.collected → Told cfg w a t k values

/-- A call of this node has this id. -/
def Named (cfg : ClusterConfig ι) (w : Cluster ι) (a : NodeID) (t : TransactionId) : Prop :=
  ∃ i, w.Called i ∧ cfg.origin i = a ∧ (w.txns i).txId = t

/-- **The operation messages of a cluster**: a request goes from its call to the primary of its
key, and whatever is told is told to a call. -/
structure OpNames (cfg : ClusterConfig ι) (w : Cluster ι) : Prop where
  routing : ∀ p, (w.nodes p).routing = cfg.routing p
  request : ∀ a p q t op, q ∈ w.channels (a, p) → q.msg = .opReq t op →
    p = (cfg.routing a).primary op.key ∧ Named cfg w a t
  told : ∀ a t k values, Told cfg w a t k values → Named cfg w a t

/-- What a primary answers now: the list it holds, or the empty one. -/
def AnsweredNow (cfg : ClusterConfig ι) (w : Cluster ι) (a : NodeID) (k : KeyType)
    (values : ValueContainer) : Prop :=
  values = [] ∨ values = (w.nodes ((cfg.routing a).primary k)).list k

theorem Named.step {a : NodeID} {t : TransactionId} (h : Named cfg w a t)
    (hs : Stepped cfg w l w') : Named cfg w' a t := by
  obtain ⟨i, hcalled, horigin, hid⟩ := h
  exact ⟨i, (hs.called hcalled).1, horigin, (hs.called hcalled).2.trans hid⟩

/-- **What a step tells**: what was told before, or what a primary answers now to a call. -/
theorem Stepped.told (hs : Stepped cfg w l w') (hn : OpNames cfg w) {a : NodeID}
    {t : TransactionId} {k : KeyType} {values : ValueContainer}
    (ht : Told cfg w' a t k values) :
    Told cfg w a t k values ∨ (AnsweredNow cfg w a k values ∧ Named cfg w a t) := by
  cases ht with
  | @responding p j result ha hval =>
    cases hs with
    | txn _ => exact .inl (.responding ha hval)
    | @deliver src dest q rest n h hmem hne hnone hch hh =>
      rcases update_cases (P := fun x => x = some (ActiveHandler.mk j
        (.responding (.opResp t k result)))) ha with ⟨heq, hnew⟩ | ⟨-, hold⟩
      · obtain ⟨rfl, rfl⟩ := Prod.mk.inj heq
        obtain ⟨cause, msg⟩ := q
        cases hh with
        | @opReq t' op =>
          simp only [Option.map_some, Option.some.injEq, ActiveHandler.mk.injEq,
            Handler.responding.injEq, Message.opResp.injEq] at hnew
          obtain ⟨-, rfl, rfl, rfl⟩ := hnew
          obtain ⟨hp, hname⟩ := hn.request a p ⟨cause, .opReq t' op⟩ t' op (by simp [hch]) rfl
          refine .inr ⟨?_, hname⟩
          rw [AnsweredNow, ← hval, ← hp]
          exact accept_answer _ op
        | _ => exact absurd hnew (by simp)
      · exact .inl (.responding hold hval)
    | @handle src dest throws i h r hi hstep =>
      rcases update_cases (P := fun x => x = some (ActiveHandler.mk j
        (.responding (.opResp t k result)))) ha with ⟨-, hnew⟩ | ⟨-, hold⟩
      · cases hstep with
        | @decided t' k' _ _ res _ => cases res <;> exact absurd hnew (by simp [lockResponse])
        | _ => exact absurd hnew (by simp)
      · exact .inl (.responding hold hval)
    | drop _ => exact .inl (.responding ha hval)
  | @underWay p q result hq hmsg hval =>
    rcases hs.packet_of hq with hold | ⟨c, r, -, hstep, hsent, -⟩ | hhandler
    · exact .inl (.underWay hold hmsg hval)
    · rw [hmsg] at hsent
      exact absurd hsent hstep.sent_not_opResp
    · rw [hmsg] at hhandler
      exact .inl (.responding hhandler hval)
  | stored hres =>
    cases hs with
    | @txn i c r hstep =>
      have hsame : r.node.remoteResult t k = (w.nodes (cfg.origin i)).remoteResult t k := by
        rw [Node.remoteResult, hstep.remoteResults_eq, Node.remoteResult]
      exact .inl (.stored
        ((proj_update (f := fun n => n.remoteResult t k) hsame a).symm.trans hres))
    | @deliver src dest q rest n h hmem hne hnone hch hh =>
      rcases update_cases (P := fun n : Node => n.remoteResult t k = some values) hres with
        ⟨rfl, hnew⟩ | ⟨-, hold⟩
      · obtain ⟨cause, msg⟩ := q
        cases hh with
        | @opResp t' k' result hm =>
          rw [Node.remoteResult_handleOperationResponse] at hnew
          split at hnew
          · rename_i hhere
            obtain ⟨rfl, rfl⟩ := hhere
            have hhead : ⟨cause, .opResp t k result⟩ ∈ w.channels (src, a) := by simp [hch]
            exact .inl (.underWay hhead rfl (Option.some.inj hnew))
          · exact .inl (.stored hnew)
        | _ => exact .inl (.stored hnew)
      · exact .inl (.stored hold)
    | @handle src dest throws i h r hi hstep =>
      have hsame : r.1.remoteResult t k = (w.nodes dest).remoteResult t k := by
        cases hstep <;> rfl
      exact .inl (.stored
        ((proj_update (f := fun n => n.remoteResult t k) hsame a).symm.trans hres))
    | drop _ => exact .inl (.stored hres)
  | @collected i horigin hid hcalled hmem =>
    cases hs with
    | @txn j c r hstep =>
      rcases eq_or_ne i j with rfl | hne
      · rw [afterTxn_txns_self] at hid hmem
        rcases hstep.collected_of hmem with hold | ⟨hlocal, hval, hbefore⟩ | ⟨hres, hbefore⟩
        · have hbefore : w.Called i := by
            intro hidle
            rw [hidle] at hold
            exact absurd hold (by simp [Pc.collected])
          exact .inl
            (.collected horigin ((hstep.id_of_called hbefore).1.symm.trans hid) hbefore hold)
        · have hid' := (hstep.id_of_called hbefore).1.symm.trans hid
          refine .inr ⟨.inr ?_, i, hbefore, horigin, hid'⟩
          have hprim : (cfg.routing a).primary k = a := by
            rw [← horigin, ← hn.routing]
            rw [Node.primary, hn.routing] at hlocal
            rw [hn.routing, hlocal, cfg.localNodeId_eq]
          rw [hprim, hval, horigin]
        · have hid' := (hstep.id_of_called hbefore).1.symm.trans hid
          refine .inl (.stored ?_)
          rw [← horigin, ← hid', hres]
      · unfold Called at hcalled
        rw [afterTxn_txns_of_ne hne] at hid hmem hcalled
        exact .inl (.collected horigin hid hcalled hmem)
    | deliver _ _ _ _ _ => exact .inl (.collected horigin hid hcalled hmem)
    | handle _ _ => exact .inl (.collected horigin hid hcalled hmem)
    | drop _ => exact .inl (.collected horigin hid hcalled hmem)

/-- **A step keeps the names.** -/
theorem OpNames.step (h : OpNames cfg w) (hs : Stepped cfg w l w')
    (hresp : ∀ ab j m, w.handlers ab = some ⟨j, .responding m⟩ → m.IsResponse) :
    OpNames cfg w' where
  routing p := (hs.routing_eq p).trans (h.routing p)
  request a p q t op hq hmsg := by
    rcases hs.packet_of hq with hold | ⟨c, r, -, hstep, hsent, horigin⟩ | hhandler
    · obtain ⟨hp, hname⟩ := h.request a p q t op hold hmsg
      exact ⟨hp, hname.step hs⟩
    · rw [hmsg] at hsent
      obtain ⟨hp, rfl, hcalled⟩ := hstep.sent_opReq hsent
      have horigin : a = cfg.origin q.cause := horigin
      rw [Node.primary, h.routing, ← horigin] at hp
      exact ⟨hp, (show Named cfg w a _ from ⟨q.cause, hcalled, horigin.symm, rfl⟩).step hs⟩
    · rw [hmsg] at hhandler
      exact (hresp _ _ _ hhandler).elim
  told a t k values ht := by
    rcases hs.told h ht with hold | ⟨-, hname⟩
    · exact (h.told a t k values hold).step hs
    · exact hname.step hs

section Runs

variable {stores : NodeID → ThreadSafeKVStore} {txs : ι → Transaction}

omit [DecidableEq ι] in
/-- In the beginning nobody is told anything. -/
theorem not_told_initial {a : NodeID} {t : TransactionId} {k : KeyType} {values : ValueContainer} :
    ¬ Told cfg (initial cfg stores txs) a t k values := by
  intro ht
  cases ht with
  | responding ha _ => exact absurd ha (by simp [initial])
  | underWay hq _ _ => exact absurd hq (by simp [initial])
  | stored hres => exact absurd hres (by simp [initial, Node.remoteResult, Node.fresh])
  | collected _ _ hcalled _ => exact hcalled rfl

theorem opNames_of_run {ok : Cluster ι → ClusterLabel ι → Prop}
    (hr : Run (step cfg) ok (initial cfg stores txs) w) : OpNames cfg w := by
  refine Run.invariant_of_run (I := OpNames cfg) hr ?_ ?_
  · exact ⟨fun _ => rfl, fun a p q t op hq => absurd hq (by simp [initial]),
      fun a t k values ht => absurd ht not_told_initial⟩
  · intro w l w' hrun h _ hs
    exact h.step (stepped_of_step hs) fun _ _ _ ha => run_responses hrun ha

/-! ## 3. Prefixes -/

/-- Whatever is told is a prefix of what the primary holds. -/
theorem told_prefix {ok : Cluster ι → ClusterLabel ι → Prop}
    (hr : Run (step cfg) ok (initial cfg stores txs) w) {a : NodeID} {t : TransactionId}
    {k : KeyType} {values : ValueContainer} (ht : Told cfg w a t k values) :
    values <+: (w.nodes ((cfg.routing a).primary k)).list k := by
  refine Run.invariant_of_run (I := fun w => ∀ a t k values, Told cfg w a t k values →
    values <+: (w.nodes ((cfg.routing a).primary k)).list k) hr ?_ ?_ a t k values ht
  · intro a t k values ht
    exact absurd ht not_told_initial
  · intro w l w' hrun h _ hs a t k values ht
    have hstepped := stepped_of_step hs
    have hgrow := hstepped.list_prefix ((cfg.routing a).primary k) k
    rcases hstepped.told (opNames_of_run hrun) ht with hold | ⟨rfl | rfl, -⟩
    · exact (h a t k values hold).trans hgrow
    · exact List.nil_prefix
    · exact hgrow

/-- **What can be traced.** -/
structure Traceable (cfg : ClusterConfig ι) (stores : NodeID → ThreadSafeKVStore)
    (txs : ι → Transaction) (w : Cluster ι) : Prop where
  /-- A node holds the initial list, and behind it the values of the appends it has executed. -/
  lists : ∀ p k, (w.nodes p).list k
    = ((stores p).get k).getD [] ++ appended k (executedAt cfg p w.hist)
  /-- An operation is executed at its primary, and not more often than its transaction has it. -/
  executed : ∀ i p op, (executed cfg w i).count (p, op)
    ≤ if p = primaryOf cfg i op then (txs i).count op else 0
  /-- A list that a call returned is a prefix of what the primary of the key holds. -/
  reads : ∀ i results, (w.txns i).pc = .returned results → ∀ k values,
    (k, some values) ∈ results →
    values <+: (w.nodes ((cfg.routing (cfg.origin i)).primary k)).list k
  /-- Of two lists for a key, one is a prefix of the other. -/
  comparable : ∀ i j results results', (w.txns i).pc = .returned results →
    (w.txns j).pc = .returned results' → ∀ k values values', (k, some values) ∈ results →
    (k, some values') ∈ results' →
    (cfg.routing (cfg.origin i)).primary k = (cfg.routing (cfg.origin j)).primary k →
    values <+: values' ∨ values' <+: values

/-- **Reads are traceable**, in every run of every cluster, whatever is delayed, lost or thrown and
whenever waits time out. -/
theorem reads_traceable (hr : Reachable (step cfg) (initial cfg stores txs) w) :
    Traceable cfg stores txs w := by
  have hreads : ∀ i results, (w.txns i).pc = .returned results → ∀ k values,
      (k, some values) ∈ results →
      values <+: (w.nodes ((cfg.routing (cfg.origin i)).primary k)).list k := by
    intro i results hpc k values hmem
    refine told_prefix hr (.collected rfl rfl ?_ ?_)
    · simp [Called, hpc]
    · rwa [hpc]
  refine ⟨fun p k => ?_, fun i p op => ?_, hreads, ?_⟩
  · rw [Node.list, store_eq_replay hr, get_execAll]
  · obtain ⟨begun, rest, htx, -, hcons⟩ := conserved hr i
    split
    · rename_i hp
      subst hp
      have hbal := hcons.balance op
      have hcount : (txs i).count op = begun.count op + rest.count op := by
        rw [htx, List.count_append]
      omega
    · rename_i hp
      refine (List.count_eq_zero.mpr fun hmem => hp ?_).le
      exact hcons.placed (p, op) hmem
  · intro i j results results' hi hj k values values' hv hv' hprim
    have hp := hreads i results hi k values hv
    rw [hprim] at hp
    exact List.prefix_or_prefix_of_prefix hp (hreads j results' hj k values' hv')

/-! ## 4. Reads do not go back -/

section Ids

variable [Fintype ι]

/-- The calls of one node, by themselves. -/
def callsAt (cfg : ClusterConfig ι) (w : Cluster ι) (a : NodeID) : SingleNode ι where
  node := w.nodes a
  txns := fun i => if cfg.origin i = a then w.txns i else .fresh []
  hist := []

omit [DecidableEq ι] in
theorem idInv_of_same {v v' : SingleNode ι} (h : SingleNode.IdInv v)
    (hnext : v'.node.nextTxId = v.node.nextTxId) (htxns : v'.txns = v.txns) :
    SingleNode.IdInv v' := by
  have hset : v'.calledSet = v.calledSet := by
    unfold SingleNode.calledSet
    rw [htxns]
  refine ⟨?_, ?_, ?_⟩
  · rw [hnext, hset, h.next]
  · rw [hset, htxns]
    exact h.le
  · rw [hset, htxns]
    exact h.inj

/-- In every run, the calls of a node have different ids. -/
theorem idInv_callsAt (hcard : Fintype.card ι < 2 ^ 64) {ok : Cluster ι → ClusterLabel ι → Prop}
    (hr : Run (step cfg) ok (initial cfg stores txs) w) (a : NodeID) :
    SingleNode.IdInv (callsAt cfg w a) := by
  refine Run.invariant (I := fun w => SingleNode.IdInv (callsAt cfg w a)) hr ?_ ?_
  · refine idInv_of_same (SingleNode.idInv_initial (cfg.routing a) (stores a)
      fun i => if cfg.origin i = a then txs i else []) rfl ?_
    funext i
    simp only [callsAt, initial, SingleNode.initial]
    split <;> rfl
  · intro w l w' h _ hs
    have hupdate : ∀ (d : NodeID) (n : Node), n.nextTxId = (w.nodes d).nextTxId →
        (Function.update w.nodes d n a).nextTxId = (w.nodes a).nextTxId := fun d n hn =>
      proj_update (f := Node.nextTxId) hn a
    cases stepped_of_step hs with
    | @txn i c r hstep =>
      by_cases hi : cfg.origin i = a
      · have hthread : (callsAt cfg w a).txns i = w.txns i := if_pos hi
        have hnode : (callsAt cfg w a).node = w.nodes (cfg.origin i) := by rw [hi]; rfl
        rw [← hthread, ← hnode] at hstep
        refine idInv_of_same (SingleNode.idInv_step hcard h hstep) ?_ ?_
        · show (Function.update w.nodes (cfg.origin i) r.node a).nextTxId = r.node.nextTxId
          rw [hi, Function.update_self]
        · funext j
          rcases eq_or_ne j i with rfl | hne
          · simp [callsAt, hi]
          · simp [callsAt, SingleNode.after_txns_of_ne _ hne, afterTxn_txns_of_ne hne]
      · refine idInv_of_same h ?_ ?_
        · show (Function.update w.nodes (cfg.origin i) r.node a).nextTxId = _
          rw [Function.update_of_ne (Ne.symm hi)]
          rfl
        · funext j
          rcases eq_or_ne j i with rfl | hne
          · simp [callsAt, hi]
          · simp [callsAt, afterTxn_txns_of_ne hne]
    | @deliver src dest q rest n x _ _ _ _ hh =>
      obtain ⟨cause, msg⟩ := q
      exact idInv_of_same h (hupdate dest n (by cases hh <;> rfl)) rfl
    | @handle src dest throws i x r _ hstep =>
      exact idInv_of_same h (hupdate dest r.1 (by cases hstep <;> rfl)) rfl
    | drop _ => exact idInv_of_same h rfl rfl

/-- A call that is being made gets an id that no call of its node has. -/
theorem not_named_of_call (hcard : Fintype.card ι < 2 ^ 64) {ok : Cluster ι → ClusterLabel ι → Prop}
    (hr : Run (step cfg) ok (initial cfg stores txs) w) {j : ι} (hj : (w.txns j).pc = .idle) :
    ¬ Named cfg w (cfg.origin j) (w.nodes (cfg.origin j)).nextTxId := by
  rintro ⟨i, hcalled, horigin, hid⟩
  have hids := idInv_callsAt hcard hr (cfg.origin j)
  have hjout : j ∉ (callsAt cfg w (cfg.origin j)).calledSet := by
    simp [SingleNode.mem_calledSet, callsAt, hj]
  refine hids.next_unused hcard hjout i ?_ ?_
  · simpa [SingleNode.mem_calledSet, callsAt, horigin, Called] using hcalled
  · simpa [callsAt, horigin] using hid

/-- **Reads do not go back.**  A call is made after another one has returned: about a key that both
have the same primary for, it returns at least what that one returned, or an empty list. -/
theorem reads_never_go_back (hcard : Fintype.card ι < 2 ^ 64) {w₁ : Cluster ι}
    (hr₁ : Reachable (step cfg) (initial cfg stores txs) w₁) (hr : Reachable (step cfg) w₁ w)
    {i j : ι} {results results' : Results} (hi : (w₁.txns i).pc = .returned results)
    (hj : (w₁.txns j).pc = .idle) (hj' : (w.txns j).pc = .returned results') {k : KeyType}
    (hprim : (cfg.routing (cfg.origin i)).primary k = (cfg.routing (cfg.origin j)).primary k)
    {values values' : ValueContainer} (hv : (k, some values) ∈ results)
    (hv' : (k, some values') ∈ results') : values' = [] ∨ values <+: values' := by
  set p := (cfg.routing (cfg.origin j)).primary k with hp
  have hbefore : values <+: (w₁.nodes p).list k :=
    hprim ▸ (reads_traceable hr₁).reads i results hi k values hv
  -- from here on the primary holds at least that, and answers no less
  have hinv : values <+: (w.nodes p).list k ∧ (w.Called j → ∀ told,
      Told cfg w (cfg.origin j) (w.txns j).txId k told → told = [] ∨ values <+: told) := by
    refine Run.invariant_of_run (I := fun w => values <+: (w.nodes p).list k ∧
      (w.Called j → ∀ told, Told cfg w (cfg.origin j) (w.txns j).txId k told →
        told = [] ∨ values <+: told)) hr ⟨hbefore, fun hcalled => absurd hj hcalled⟩ ?_
    rintro w l w' hrun ⟨hlist, htold⟩ - hs
    have hstepped := stepped_of_step hs
    have hreach : Reachable (step cfg) (initial cfg stores txs) w := hr₁.trans hrun
    refine ⟨hlist.trans (hstepped.list_prefix p k), fun hcalled' told ht => ?_⟩
    have hfrom := hstepped.told (opNames_of_run hreach) ht
    by_cases hcalled : w.Called j
    · rw [(hstepped.called hcalled).2] at hfrom
      rcases hfrom with hold | ⟨rfl | rfl, -⟩
      · exact htold hcalled told hold
      · exact .inl rfl
      · exact .inr hlist
    · -- the call is made now, under an id that has been told nothing
      have hidle : (w.txns j).pc = .idle := by simpa [Called] using hcalled
      have hid : (w'.txns j).txId = (w.nodes (cfg.origin j)).nextTxId := by
        cases hstepped with
        | @txn i' c r hstep =>
          rcases eq_or_ne j i' with rfl | hne
          · rw [afterTxn_txns_self]
            exact (hstep.id_of_idle hidle).1
          · exact absurd (by rw [afterTxn_txns_of_ne hne, hidle]) hcalled'
        | deliver _ _ _ _ _ => exact absurd hidle hcalled'
        | handle _ _ => exact absurd hidle hcalled'
        | drop _ => exact absurd hidle hcalled'
      rw [hid] at hfrom
      have hfresh := not_named_of_call hcard hreach hidle
      rcases hfrom with hold | ⟨-, hnamed⟩
      · exact absurd ((opNames_of_run hreach).told _ _ _ _ hold) hfresh
      · exact absurd hnamed hfresh
  refine hinv.2 (by simp [Called, hj']) values' (.collected rfl rfl (by simp [Called, hj']) ?_)
  rwa [hj']

end Ids

end Runs

/-! ## 5. Two calls on two nodes -/

/-- Both append to key 2, which is on node 2, and read it. -/
def appendRead : Bool → Transaction
  | false => [.append 2 5, .read 2]
  | true => [.append 2 6, .read 2]

/-- An operation on key 2, by way of node 2. -/
def operateAt2 (src : NodeID) (i : Bool) : List (ClusterLabel Bool) :=
  [.txn i {}, .txn i {}, .txn i {}, .deliver src 2, .handle src 2 false, .deliver 2 src, .txn i {},
    .txn i {}]

/-- A call on node `src`, from its beginning to its end. -/
def visitKey2 (src : NodeID) (i : Bool) : List (ClusterLabel Bool) :=
  requestKey2 i ++ serveAt2 src ++ [.deliver 2 src, .txn i {}] ++ operateAt2 src i ++
    operateAt2 src i ++ [.txn i {}, .txn i {}, .txn i { pairs := [(2, 2)] }, .txn i {}, .txn i {},
    .deliver src 2]

/-- The second call is made when the first one has returned. -/
theorem exists_visits :
    ∃ w₁ w : Cluster Bool,
      Reachable (step threeNodes) (initial threeNodes emptyStores appendRead) w₁ ∧
      Reachable (step threeNodes) w₁ w ∧
      ((w₁.txns false).pc = .returned [(2, some []), (2, some [5])] ∧
        (w₁.txns true).pc = .idle) ∧
      (w.txns true).pc = .returned [(2, some []), (2, some [5, 6])] := by
  have hrun : ((runLabels (step threeNodes) (initial threeNodes emptyStores appendRead)
      (visitKey2 0 false)).bind fun w₁ => (runLabels (step threeNodes) w₁ (visitKey2 1 true)).map
        fun w => decide (((w₁.txns false).pc = .returned [(2, some []), (2, some [5])] ∧
          (w₁.txns true).pc = .idle) ∧
          (w.txns true).pc = .returned [(2, some []), (2, some [5, 6])])) = some true := by
    decide +kernel
  obtain ⟨w₁, hw₁, hrun⟩ := Option.bind_eq_some_iff.mp hrun
  obtain ⟨w, hw, hpcs⟩ := Option.map_eq_some_iff.mp hrun
  exact ⟨w₁, w, reachable_of_runLabels _ hw₁, reachable_of_runLabels _ hw, of_decide_eq_true hpcs⟩

theorem reads_traceable_visits :
    ∃ w : Cluster Bool,
      Reachable (step threeNodes) (initial threeNodes emptyStores appendRead) w ∧
      (w.txns true).pc = .returned [(2, some []), (2, some [5, 6])] ∧
      Traceable threeNodes emptyStores appendRead w := by
  obtain ⟨w₁, w, hr₁, hr, -, htrue⟩ := exists_visits
  exact ⟨w, hr₁.trans hr, htrue, reads_traceable (hr₁.trans hr)⟩

theorem reads_never_go_back_visits :
    ∃ w₁ w : Cluster Bool,
      Reachable (step threeNodes) (initial threeNodes emptyStores appendRead) w₁ ∧
      Reachable (step threeNodes) w₁ w ∧
      (w₁.txns false).pc = .returned [(2, some []), (2, some [5])] ∧ (w₁.txns true).pc = .idle ∧
      (w.txns true).pc = .returned [(2, some []), (2, some [5, 6])] ∧
      (([5, 6] : ValueContainer) = [] ∨ ([5] : ValueContainer) <+: [5, 6]) := by
  obtain ⟨w₁, w, hr₁, hr, ⟨hfalse, hidle⟩, htrue⟩ := exists_visits
  exact ⟨w₁, w, hr₁, hr, hfalse, hidle, htrue,
    reads_never_go_back (by decide) hr₁ hr hfalse hidle htrue rfl (k := 2) (by simp) (by simp)⟩

end Cluster

end TwoPL
