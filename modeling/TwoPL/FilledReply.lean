/-
# The reply to a committed transaction is its request, filled in

One node without peers.  Phase 2 of `execute_with_distributed_support` pushes an entry for each
read, and `createReply` pops one for each read of the request; the two loops test "is a read" on
different data (`op->type()`, and the tag of a JSON array), and the entries have no positions.

Two facts make the cursor land where it should:

* the result vector is that of the transaction executed ALONE on the store it found when it had
  its locks (`ran_of_reachable`): others run in between, but not on its keys, which it owns;
* in the vector of a transaction executed alone, the entry of a read has as many entries before
  it as there are reads before the read (`getElem?_runAlone`), and it is the entry the cursor is
  on when it comes to that read (`readSlots_runAlone`).

The second is an induction over the operations, the store and the vector at once.  That a key may
be read several times does not matter to it, although the key check of `createReply` would not
notice a cursor that is off by one there.
-/
import TwoPL.MessageHandler
import TwoPL.SingleNode

namespace TwoPL

open Lib

/-! ## 1. What is held for a key in the middle of a transaction -/

/-- The values the operations append to a key, in order. -/
def appended (key : KeyType) (ops : List Operation) : List ValueType :=
  ops.filterMap fun
    | .append key' value => if key' = key then some value else none
    | .read _ => none

/-- The list held for a key after these operations, on a store that nobody else writes the key of:
the list of the store, and behind it what the operations append; absent when there is neither. -/
def heldAfter (store : ThreadSafeKVStore) (ops : List Operation) (key : KeyType) :
    Option ValueContainer :=
  match appended key ops with
  | [] => store.get key
  | values => some ((store.get key).getD [] ++ values)

/-- The number of reads among the first `j` operations. -/
def readsBefore (tx : Transaction) (j : Nat) : Nat :=
  (tx.take j).countP fun op => op.type = .READ

theorem heldAfter_append (store : ThreadSafeKVStore) (ops : List Operation) (key key' : KeyType)
    (value : ValueType) :
    heldAfter (store.append key' value) ops key
      = heldAfter store (.append key' value :: ops) key := by
  by_cases hk : key' = key
  · subst hk
    simp only [heldAfter, appended, List.filterMap_cons, if_pos]
    cases hops : appended key' ops with
    | nil =>
      simp only [appended] at hops
      simp [hops, ThreadSafeKVStore.get_append]
    | cons v vs =>
      simp only [appended] at hops
      simp [hops, ThreadSafeKVStore.get_append]
  · have hget : (store.append key' value).get key = store.get key :=
      ThreadSafeKVStore.get_append_of_ne store (Ne.symm hk) value
    simp only [heldAfter, appended, List.filterMap_cons, if_neg hk, hget]

/-- `SingleNode.runAlone` leaves what is held. -/
theorem get_runAlone (store : ThreadSafeKVStore) (tx : Transaction) (key : KeyType) :
    (SingleNode.runAlone store tx).1.get key = heldAfter store tx key := by
  induction tx generalizing store with
  | nil => rfl
  | cons op tx ih =>
    cases op with
    | read k => exact ih store
    | append k v => exact (ih (store.append k v)).trans (heldAfter_append store tx key k v)

/-! ## 2. The cursor -/

open SingleNode in
/-- The vector has one entry for each read. -/
theorem length_runAlone (store : ThreadSafeKVStore) (tx : Transaction) :
    (runAlone store tx).2.length = readsBefore tx tx.length := by
  induction tx generalizing store with
  | nil => rfl
  | cons op tx ih =>
    simp only [readsBefore, List.take_length] at ih ⊢
    cases op with
    | read k => simp [runAlone, localResult, Operation.type, NaiveOpExecutor.accept, ih]
    | append k v => simp [runAlone, localResult, Operation.type, NaiveOpExecutor.accept, ih]

open SingleNode in
/-- **The entry of a read** stands behind those of the reads before it. -/
theorem getElem?_runAlone (store : ThreadSafeKVStore) (tx : Transaction) {j : Nat} {key : KeyType}
    (hj : tx[j]? = some (.read key)) :
    (runAlone store tx).2[readsBefore tx j]?
      = some (key, (runAlone store (tx.take j)).1.get key) := by
  induction tx generalizing store j with
  | nil => simp at hj
  | cons op tx ih =>
    cases j with
    | zero =>
      rw [List.getElem?_cons_zero, Option.some.injEq] at hj
      subst hj
      rfl
    | succ j =>
      rw [List.getElem?_cons_succ] at hj
      have htail := ih (NaiveOpExecutor.accept store op).1 hj
      cases op with
      | read k =>
        simpa [runAlone, readsBefore, localResult, Operation.type, Operation.key,
          NaiveOpExecutor.accept] using htail
      | append k v =>
        simpa [runAlone, readsBefore, localResult, Operation.type,
          NaiveOpExecutor.accept] using htail

open SingleNode in
/-- **The cursor never slips**: a read gets the entry of that very read. -/
theorem readSlots_runAlone (store : ThreadSafeKVStore) (tx : Transaction) {j : Nat}
    {key : KeyType} (hj : tx[j]? = some (.read key)) :
    (readSlots tx (runAlone store tx).2)[j]? = some ((runAlone store (tx.take j)).1.get key) := by
  induction tx generalizing store j with
  | nil => simp at hj
  | cons op tx ih =>
    cases op with
    | read k =>
      cases j with
      | zero =>
        rw [List.getElem?_cons_zero, Option.some.injEq, Operation.read.injEq] at hj
        subst hj
        simp [runAlone, readSlots, localResult, Operation.type, Operation.key,
          NaiveOpExecutor.accept]
      | succ j =>
        rw [List.getElem?_cons_succ] at hj
        simpa [runAlone, readSlots, localResult, Operation.type, Operation.key,
          NaiveOpExecutor.accept] using ih store hj
    | append k v =>
      cases j with
      | zero => simp at hj
      | succ j =>
        rw [List.getElem?_cons_succ] at hj
        simpa [runAlone, readSlots, localResult, Operation.type,
          NaiveOpExecutor.accept] using ih (store.append k v) hj

/-- **The request with its reads filled in**: `body` is the body of the reply, `elems` its `txn`
array, `store` the store on which the transaction started. -/
structure FilledIn (request : TxnRequest) (store : ThreadSafeKVStore) (reads : Results)
    (body : JsonObject) (elems : List Json) : Prop where
  txn : body.at? "txn" = some (.array elems)
  /-- As many operations as in the request ... -/
  length : elems.length = request.ops.length
  /-- ... and as many results as reads. -/
  reads_length : reads.length = readsBefore request.transaction request.ops.length
  /-- The slot of a read is filled from the result that has as many results before it as there are
  reads before the read.  That is what is held for the key at that point of the transaction. -/
  read_filled : ∀ (j : Nat) (key : KeyType) (slot : Json),
    request.ops[j]? = some (.read key slot) →
      ∃ value, reads[readsBefore request.transaction j]? = some (key, value) ∧
        value = heldAfter store (request.transaction.take j) key ∧
        elems[j]? = some (.array [.string "r", .int64 key, slotJson value])
  /-- An append is as it was. -/
  append_kept : ∀ (j : Nat) (key : KeyType) (value : ValueType),
    request.ops[j]? = some (.append key value) →
      elems[j]? = some (.array [.string "append", .int64 key, .int64 value])
  /-- And so are the other fields. -/
  other_kept : ∀ name, name ≠ "txn" → body.at? name = request.message.body.at? name

/-- The reply to a transaction executed alone. -/
theorem filledIn_runAlone (request : TxnRequest) (store : ThreadSafeKVStore) {reads : Results}
    (hreads : reads = (SingleNode.runAlone store request.transaction).2) :
    ∃ body elems, createReply request.message.body reads = some body ∧
      FilledIn request store reads body elems := by
  subst hreads
  have hop : ∀ {j : Nat} {op : TxnOp}, request.ops[j]? = some op →
      request.transaction[j]? = some op.operation := by
    intro j op hj
    simp [TxnRequest.transaction, hj]
  refine ⟨request.message.body.set "txn" (.array (List.zipWith TxnOp.fill request.ops
    (readSlots request.transaction (SingleNode.runAlone store request.transaction).2))), _, ?_,
    by rw [JsonObject.at?_set, if_pos rfl], ?_, ?_, ?_, ?_, ?_⟩
  · simp [createReply, request.txn_eq, fillSlots_toJson, TxnRequest.transaction]
  · simp [TxnRequest.transaction]
  · simpa [TxnRequest.transaction] using length_runAlone store request.transaction
  · intro j key slot hj
    refine ⟨_, getElem?_runAlone store _ (hop hj), get_runAlone store _ key, ?_⟩
    rw [List.getElem?_zipWith, hj, readSlots_runAlone store _ (hop hj)]
    rfl
  · intro j key value hj
    have hlt : j < request.transaction.length := (List.getElem?_eq_some_iff.mp (hop hj)).1
    obtain ⟨slot, hslot⟩ : ∃ slot, (readSlots request.transaction
        (SingleNode.runAlone store request.transaction).2)[j]? = some slot :=
      ⟨_, List.getElem?_eq_getElem (by rwa [length_readSlots])⟩
    rw [List.getElem?_zipWith, hj, hslot]
    rfl
  · intro name hname
    rw [JsonObject.at?_set, if_neg hname]

/-! ## 3. A call that has its locks -/

namespace SingleNode

/-- What a call that had its locks when the store was `start` has done since: it has run some of
its operations, with the results it would have had alone, and for its keys the store holds what
it would have left alone. -/
def Ran (start store : ThreadSafeKVStore) (t : TxnThread) : Prop :=
  match t.pc with
  | .executing rest results => ∃ done, t.tx = done ++ rest ∧ results = (runAlone start done).2 ∧
      ∀ op ∈ t.tx, store.get op.key = (runAlone start done).1.get op.key
  | .releasing _ results _ => results = (runAlone start t.tx).2
  | .sendingReleases _ results _ => results = (runAlone start t.tx).2
  | .returned results => results = (runAlone start t.tx).2
  | .threw => True
  | _ => False

/-- What an operation does to a key and what it returns depends on what is held for its key. -/
theorem get_accept_congr {s s' : ThreadSafeKVStore} {op : Operation} {key : KeyType}
    (hop : s.get op.key = s'.get op.key) (hkey : s.get key = s'.get key) :
    (NaiveOpExecutor.accept s op).1.get key = (NaiveOpExecutor.accept s' op).1.get key := by
  cases op with
  | read k => exact hkey
  | append k v =>
    simp only [Operation.key] at hop
    simp only [NaiveOpExecutor.accept, ThreadSafeKVStore.get_append, hop, hkey]

theorem accept_result_congr {s s' : ThreadSafeKVStore} {op : Operation}
    (hop : s.get op.key = s'.get op.key) :
    (NaiveOpExecutor.accept s op).2 = (NaiveOpExecutor.accept s' op).2 := by
  cases op with
  | read k => exact hop
  | append k v => rfl

/-- ... and it changes no other key. -/
theorem get_accept_of_ne (s : ThreadSafeKVStore) {op : Operation} {key : KeyType}
    (h : key ≠ op.key) : (NaiveOpExecutor.accept s op).1.get key = s.get key := by
  cases op with
  | read k => rfl
  | append k v => exact ThreadSafeKVStore.get_append_of_ne s h v

/-- A step of the call itself. -/
theorem Ran.step {start : ThreadSafeKVStore} {n : Node} {t : TxnThread} {c : Choice} {r : TxnStep}
    (hlocal : n.routing.coordinator = none) (h : Ran start n.store t)
    (hs : TxnStepped n t c r) : Ran start r.node.store r.thread := by
  unfold Ran at h
  cases hs with
  | @ranLocal op rest results hpc _ =>
    simp only [hpc] at h
    obtain ⟨done, htx, hres, hget⟩ := h
    have hop : n.store.get op.key = (runAlone start done).1.get op.key :=
      hget op (by rw [htx]; simp)
    refine ⟨done ++ [op], ?_, ?_, fun o ho => ?_⟩
    · simp [TxnThread.goto, htx]
    · rw [runAlone_concat, hres, collect, accept_result_congr hop]
    · rw [runAlone_concat]
      exact get_accept_congr hop (hget o ho)
  | @allRan results hpc =>
    simp only [hpc] at h
    obtain ⟨done, htx, hres, -⟩ := h
    rw [List.append_nil] at htx
    simp only [Ran, TxnThread.goto, htx, hres]
  | opBegin _ hremote _ => exact absurd (primary_of_coordinator_none hlocal _) hremote
  | releasing hpc _ => simpa [Ran, TxnThread.goto, hpc] using h
  | releasedLocal hpc _ _ => simpa [Ran, TxnThread.goto, hpc] using h
  | sendRelease hpc _ => simpa [Ran, TxnThread.goto, hpc] using h
  | sendThrew hpc _ => simpa [Ran, TxnThread.goto, hpc] using h
  | rethrown hpc _ => simp [Ran, TxnThread.goto]
  | returned hpc => simpa [Ran, TxnThread.goto, hpc] using h
  | opAnswered hpc => rcases hpc with hpc | hpc <;> simp [hpc] at h
  | _ => simp [*] at h

/-- A step of another call, which leaves the keys of this one alone while it runs. -/
theorem Ran.frame {start store store' : ThreadSafeKVStore} {t : TxnThread}
    (h : Ran start store t)
    (hget : ∀ rest results, t.pc = .executing rest results →
      ∀ op ∈ t.tx, store'.get op.key = store.get op.key) : Ran start store' t := by
  cases hpc : t.pc with
  | executing rest results =>
    simp only [Ran, hpc] at h ⊢
    obtain ⟨done, htx, hres, hold⟩ := h
    exact ⟨done, htx, hres, fun op hop => (hget rest results hpc op hop).trans (hold op hop)⟩
  | _ => simp_all [Ran]

/-- The store changes only when the call that steps runs an operation. -/
theorem store_cases {n : Node} {t : TxnThread} {c : Choice} {r : TxnStep}
    (hs : TxnStepped n t c r) :
    r.node.store = n.store ∨ ∃ op rest results, t.pc = .executing (op :: rest) results ∧
      r.node.store = (NaiveOpExecutor.accept n.store op).1 := by
  cases hs with
  | ranLocal hpc _ => exact .inr ⟨_, _, _, hpc, rfl⟩
  | _ => exact .inl rfl

/-- `acquire_all_locks` returns true: phase 2 begins. -/
theorem thread_of_locked {n : Node} {t : TxnThread} {c : Choice} {r : TxnStep}
    (hs : TxnStepped n t c r) (hevent : r.event = some .locked) :
    r.thread = t.goto (.executing t.tx []) := by
  cases hs with
  | lockedLocal => rfl
  | requestedNothing => rfl
  | woken => rfl
  | @aborting stage =>
    rcases stage.event_cases with he | ⟨key, he⟩ <;> simp [he] at hevent
  | @releasing stage =>
    rcases stage.event_cases with he | ⟨key, he⟩ <;> simp [he] at hevent
  | _ => simp at hevent

variable {ι : Type*} [DecidableEq ι] [Fintype ι] {routing : Routing}
  {store₀ : ThreadSafeKVStore} {txs : ι → Transaction} {w : SingleNode ι}

/-- Two calls that run at the same time have no key in common. -/
theorem keys_apart {a : StrictTwoPhase.State ι KeyType ThreadSafeKVStore Operation Results}
    {order : List ι} (hR : Rel txs w a) (hinv : StrictTwoPhase.Inv (setup txs) store₀ a order)
    {i j : ι} (hij : i ≠ j) {rest rest' : List Operation} {results results' : Results}
    (hi : (w.txns i).pc = .executing rest results)
    (hj : (w.txns j).pc = .executing rest' results') {op op' : Operation}
    (hop : op ∈ txs i) (hop' : op' ∈ rest') : op.key ≠ op'.key := by
  have hmi := hR.thread i
  have hmj := hR.thread j
  simp only [Matches, hi] at hmi
  simp only [Matches, hj] at hmj
  have hmem : op' ∈ txs j := by
    rw [← hR.tx j, hmj.2.1]
    exact List.mem_append_right _ hop'
  intro hkey
  have h1 : a.owner op.key = some i := hinv.owns i hmi.1 op hop
  have h2 : a.owner op'.key = some j := hinv.owns j hmj.1 op' hmem
  rw [hkey, h2, Option.some.injEq] at h1
  exact hij h1.symm

/-- **A call that has its locks runs as if it were alone** on the store it found then. -/
theorem ran_of_reachable (hcard : Fintype.card ι < 2 ^ 64) (hrouting : routing.coordinator = none)
    (hr : Reachable step (initial routing store₀ txs) w) (i : ι) (hi : (i, .locked) ∈ w.hist) :
    ∃ w₁, Reachable step (initial routing store₀ txs) w₁ ∧ Reachable step w₁ w ∧
      (w₁.txns i).pc = .executing (txs i) [] ∧
      Ran w₁.node.store w.node.store (w.txns i) := by
  refine Run.invariant_of_run
    (I := fun w => ∀ i, (i, .locked) ∈ w.hist →
      ∃ w₁, Reachable step (initial routing store₀ txs) w₁ ∧ Reachable step w₁ w ∧
        (w₁.txns i).pc = .executing (txs i) [] ∧ Ran w₁.node.store w.node.store (w.txns i))
    hr (by simp [initial]) (fun w l w' hr ih hok hstep i hi => ?_) i hi
  obtain ⟨j, c⟩ := l
  obtain ⟨a, order, hR, hinv⟩ := exists_rel hcard hrouting hr
  obtain ⟨r, hs, rfl⟩ := step_spec hstep
  rw [mem_after_hist] at hi
  rcases hi with hold | ⟨rfl, hevent⟩
  · obtain ⟨w₁, h₁, hrun, hpc, hran⟩ := ih i hold
    refine ⟨w₁, h₁, hrun.tail hok hstep, hpc, ?_⟩
    by_cases hij : i = j
    · subst hij
      rw [after_txns_self]
      exact hran.step hR.coordinator hs
    · -- a step of another call: while this one runs, not on a key of it
      rw [after_txns_of_ne w hij]
      refine hran.frame fun rest results hexec op hop => ?_
      rcases store_cases hs with hstore | ⟨op', rest', results', hexec', hstore⟩
      · exact congrArg (·.get op.key) hstore
      · have hne : op.key ≠ op'.key :=
          keys_apart hR hinv hij hexec hexec' (hR.tx i ▸ hop) List.mem_cons_self
        exact (congrArg (·.get op.key) hstore).trans (get_accept_of_ne _ hne)
  · -- the step with which the call has its locks
    have hthread := thread_of_locked hs hevent
    refine ⟨_, hr.tail hok hstep, .refl, ?_, ?_⟩
    · rw [after_txns_self, hthread, ← hR.tx i]
      rfl
    · rw [after_txns_self, hthread]
      exact ⟨[], rfl, rfl, fun op _ => rfl⟩

/-! ## 4. The reply -/

/-- **The reply to a committed transaction is the request with its reads filled in.**  A scheduler
without peers, any finite family of calls, any store and any interleaving: when the call `i` has
its locks (at `w₁`) and later returns `reads`, `createReply` yields the body of the request in which
the slot of each read is its own element of `reads`, and that is what the store of `w₁` held for the
key, with what the transaction itself had appended by then. -/
theorem reply_filled_in (hcard : Fintype.card ι < 2 ^ 64) {hash : KeyType → UInt64} {g : NodeID}
    {nodeID : String} (hstart : start hash (.fresh g) nodeID [] = .ok routing)
    (hr : Reachable step (initial routing store₀ txs) w) {i : ι} {reads : Results}
    (hlocked : (i, .locked) ∈ w.hist) (hreads : (w.txns i).pc = .returned reads)
    (request : TxnRequest) (htx : request.transaction = txs i) :
    ∃ w₁, Reachable step (initial routing store₀ txs) w₁ ∧ Reachable step w₁ w ∧
      (w₁.txns i).pc = .executing (txs i) [] ∧
      ∃ body elems, createReply request.message.body reads = some body ∧
        FilledIn request w₁.node.store reads body elems := by
  have hrouting : routing.coordinator = none := start_nil_coordinator hstart
  obtain ⟨w₁, h₁, hrun, hpc, hran⟩ := ran_of_reachable hcard hrouting hr i hlocked
  obtain ⟨a, order, hR, -⟩ := exists_rel hcard hrouting hr
  simp only [Ran, hreads, hR.tx i, ← htx] at hran
  exact ⟨w₁, h₁, hrun, hpc, filledIn_runAlone request w₁.node.store hran⟩

/-- `[["r", 1, null], ["append", 1, 7], ["r", 1, null], ["r", 3, null]]`. -/
def repeatedReads : TxnRequest :=
  .ofOps [.read 1 .null, .append 1 7, .read 1 .null, .read 3 .null]

/-- A writer (`false`) of key 1, and the transaction above. -/
def writerRepeated : Bool → Transaction
  | false => [.append 1 9]
  | true => repeatedReads.transaction

/-- The writer has key 1 when the other asks for it, and gives it back. -/
def repeatedRun : List (Bool × Choice) :=
  [(false, { keys := [1] }), (false, {}), (false, {}), (false, {}), (false, {}),
    (true, { keys := [1, 3] }), (true, {}), (true, {}), (true, {}),
    (false, {}), (false, {}), (false, { keys := [1] }), (false, {}), (false, {}), (false, {}),
    (true, {}), (true, {}), (true, {}), (true, {}), (true, {}),
    (true, {}), (true, {}), (true, {}), (true, {}), (true, {}),
    (true, { keys := [3, 1] }), (true, {}), (true, {}), (true, {}), (true, {})]

theorem reply_filled_in_repeated :
    ∃ w : SingleNode Bool,
      start (fun key => key.toUInt64) (.fresh 0) "n0" [] = .ok aloneRouting ∧
      Reachable step (initial aloneRouting emptyStore writerRepeated) w ∧
      (true, .locked) ∈ w.hist ∧
      (w.txns true).pc = .returned [(1, some [9]), (1, some [9, 7]), (3, none)] ∧
      ∃ w₁, Reachable step (initial aloneRouting emptyStore writerRepeated) w₁ ∧
        Reachable step w₁ w ∧ (w₁.txns true).pc = .executing repeatedReads.transaction [] ∧
        ∃ body elems, createReply repeatedReads.message.body
            [(1, some [9]), (1, some [9, 7]), (3, none)] = some body ∧
          FilledIn repeatedReads w₁.node.store [(1, some [9]), (1, some [9, 7]), (3, none)]
            body elems := by
  have hstart : start (fun key => key.toUInt64) (.fresh 0) "n0" [] = .ok aloneRouting := by rfl
  have hrun : ((runLabels step (initial aloneRouting emptyStore writerRepeated) repeatedRun).map
      fun w => decide ((true, .locked) ∈ w.hist ∧
        (w.txns true).pc = .returned [(1, some [9]), (1, some [9, 7]), (3, none)]))
      = some true := by
    decide +kernel
  obtain ⟨w, hw, hmem⟩ := Option.map_eq_some_iff.mp hrun
  obtain ⟨hlocked, hpc⟩ := of_decide_eq_true hmem
  have hr := reachable_of_runLabels _ hw
  exact ⟨w, hstart, hr, hlocked, hpc,
    reply_filled_in (by decide) hstart hr hlocked hpc repeatedReads rfl⟩

end SingleNode

end TwoPL
