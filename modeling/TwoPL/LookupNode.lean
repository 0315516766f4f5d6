/-
# The lookup of `acquire`, in a call of `execute_transaction`

The loop over the local keys calls `acquire`, and each of these looks an entry up without the mutex
of the table (`LookupClients.lean`).  The step functions of a call and of a handler go on with the
right entry; `stepTxnOn` and `stepHandlerOn` go on with the one that was found, and differ from them
in nothing else.

For a node on its own this makes the difference between transactions that do not disturb each other
and transactions that do.  Two calls without a key in common: one gets the entry of the other's key
and locks it, and the other one polls it 1500 times and aborts (`disjoint_call_aborts`).  As long as
no `try_emplace` links an entry while another call is in its lookup, what is proved of the coarser
steps holds: calls without a common key do not disturb each other
(`disjoint_transactions_unless_raced`), and the node comes to rest with no lock left
(`comes_to_rest_unless_raced`).
-/
import TwoPL.DisjointTransactions
import TwoPL.LookupClients
import TwoPL.Quiescence

namespace TwoPL

open Lib

/-! ## 1. A call and its lookup -/

/-- The key that the call looks up in the local lock table. -/
def Pc.wants : Pc → Option KeyType
  | .locking (key :: _) stage => stage.wants key
  | _ => none

/-- The key whose entry the next step of the call links. -/
def Pc.links (lm : LockManager) : Pc → Option KeyType
  | .locking (key :: _) stage => stage.links lm key
  | _ => none

/-- A step of a call that has found the entry of `entry`. -/
def stepTxnOn (entry : KeyType) (n : Node) (t : TxnThread) (c : Choice) : Option TxnStep :=
  match t.pc with
  | .locking (key :: todo) stage =>
    match acquireOn n.lockManager entry key t.txId stage with
    | (lm, .inl stage') =>
      some { node := { n with lockManager := lm }
             thread := t.goto (.locking (key :: todo) stage') }
    | (lm, .inr .ACQUIRED) =>
      some { node := { n with lockManager := lm }
             thread := t.goto (.locking todo .emplace)
             event := some (.granted key) }
    | (lm, .inr .ABORTED) =>
      some { node := { n with lockManager := lm }
             thread := t.goto (.aborting .take)
             event := some .aborted }
  | _ => stepTxn n t c

section Calls

variable {n : Node} {t : TxnThread} {c : Choice} {r : TxnStep} {k k' : KeyType}

theorem Pc.wants_cases {pc : Pc} (h : pc.wants = some k) :
    ∃ todo stage, pc = .locking (k :: todo) stage ∧ stage.wants k = some k := by
  unfold wants at h
  split at h
  · rename_i key todo stage
    obtain rfl := AcquireStage.wants_eq h
    exact ⟨todo, stage, rfl, h⟩
  · exact absurd h (by simp)

/-- On the entry of the call's own key it is the step of the call. -/
theorem stepTxnOn_self (h : t.pc.wants = some k) : stepTxnOn k n t c = stepTxn n t c := by
  obtain ⟨todo, stage, hpc, -⟩ := Pc.wants_cases h
  rcases hres : acquireStep n.lockManager k t.txId stage with ⟨lm, stage' | _ | _⟩ <;>
    simp only [stepTxnOn, stepTxn, hpc, acquireOn_self, TxnThread.stepLocking, hres]

/-- A call wants the entry of one key at a time. -/
theorem TxnStepped.wants_eq (h : TxnStepped n t c r) (hk : t.pc.wants = some k)
    (hk' : r.thread.pc.wants = some k') : k' = k := by
  obtain ⟨todo, stage, hpc, -⟩ := Pc.wants_cases hk
  obtain ⟨todo', stage', hpc', hstage'⟩ := Pc.wants_cases hk'
  cases h with
  | poll hpc₁ _ =>
    rw [hpc, Pc.locking.injEq, List.cons.injEq] at hpc₁
    simp only [TxnThread.goto, Pc.locking.injEq, List.cons.injEq] at hpc'
    exact hpc'.1.1.symm.trans hpc₁.1.1.symm
  | acquired _ _ =>
    -- the next key has not been looked up yet
    simp only [TxnThread.goto, Pc.locking.injEq] at hpc'
    rw [← hpc'.2] at hstage'
    exact absurd hstage' (by simp [AcquireStage.wants])
  | _ => simp_all [TxnThread.goto]

end Calls

/-! ## 2. A node on its own -/

namespace SingleNode

variable {ι : Type*} [DecidableEq ι]

variable (ι) in
/-- The calls of a node, with the lookup of `acquire` as a step. -/
def lookups : Lookups (SingleNode ι) (ι × Choice) ι KeyType where
  step := step
  stepOn entry w l := (stepTxnOn entry w.node (w.txns l.1) l.2).map (w.after l.1)
  party l := some l.1
  wants w i := (w.txns i).pc.wants
  links w l _ := (w.txns l.1).pc.links w.node.lockManager
  origin _ _ p := p
  stepOn_self {w l p k} hp hk := by
    obtain rfl := Option.some.inj hp
    rw [stepTxnOn_self hk]
    rfl
  wants_eq {w l w' i k k'} hs hk hk' := by
    obtain ⟨r, hr, rfl⟩ := step_spec hs
    by_cases hi : i = l.1
    · subst hi
      rw [after_txns_self] at hk'
      exact hr.wants_eq hk hk'
    · rw [after_txns_of_ne w hi] at hk'
      exact Option.some.inj (hk'.symm.trans hk)

/-- A call that can move can move, or look up. -/
theorem exists_raceStep_of_step {w : Racing (SingleNode ι) ι KeyType}
    (h : Lookups.Sound (lookups ι) w) {i : ι} {c : Choice} {s' : SingleNode ι}
    (hs : w.sys.step (i, c) = some s') :
    ∃ x w', (lookups ι).mover x = some i ∧ (lookups ι).raceStep w x = some w' :=
  Lookups.exists_raceStep h (Y := lookups ι) (l := (i, c)) hs

/-- The calls of a node on which there is one call only are not raced. -/
theorem raceFree_unit (w : Racing (SingleNode Unit) Unit KeyType)
    (x : RaceLabel (Unit × Choice) Unit KeyType) : (lookups Unit).RaceFree w x :=
  Lookups.raceFree_of_alone (fun _ _ => rfl) x

/-! ## 3. Disjoint transactions -/

/-- A writer and reader of key 1, and a writer of key 257, which is in the same stripe. -/
def twoApart : Bool → Transaction
  | false => [.append 1 7, .read 1]
  | true => [.append 257 8]

theorem apart_twoApart : Apart twoApart := by
  intro i j hne
  cases i <;> cases j
  · exact absurd rfl hne
  · decide
  · decide
  · exact absurd rfl hne

/-- The writer and reader of key 1 looks its entry up while that of key 257 is linked.  It locks the
entry it gets, and the other call looks up the same one. -/
def racedPrefix : List (RaceLabel (Bool × Choice) Bool KeyType) :=
  [.act (false, { keys := [1] }), .act (false, {}), .search false,
    .act (true, { keys := [257] }), .act (true, {}), .find false 257, .act (false, {}),
    .act (false, {}), .search true, .find true 257]

/-- **A call that is aborted by another one with which it has no key in common.** -/
theorem disjoint_call_aborts :
    Apart twoApart ∧ start (fun key => key.toUInt64) (.fresh 0) "n0" []
        = .ok (Node.fresh aloneRouting emptyStore).routing ∧
      ∃ w, Reachable (lookups Bool).raceStep
          (Lookups.start (initialAt (.fresh aloneRouting emptyStore) twoApart)) w ∧
        (true, .aborted) ∈ w.sys.hist := by
  refine ⟨apart_twoApart, by rfl, ?_⟩
  -- up to the lookups, and then 1500 polls on the entry that the other call owns
  have hrun : ((runLabels (lookups Bool).raceStep
      (Lookups.start (initialAt (.fresh aloneRouting emptyStore) twoApart)) racedPrefix).bind
        fun w => (runChecked ((lookups Bool).stepOn 257)
          (fun s l => decide ((lookups Bool).party l = some true)
            && ((lookups Bool).wants s true).isSome) w.sys
          (List.replicate (1 + maxSpins + maxYields) (true, {}))).map fun s =>
            decide (w.lookups true = .found 257 ∧ (true, .aborted) ∈ s.hist)) = some true := by
    decide +kernel
  obtain ⟨w, hw, hrest⟩ := Option.bind_eq_some_iff.mp hrun
  obtain ⟨s, hs, hfacts⟩ := Option.map_eq_some_iff.mp hrest
  obtain ⟨hfound, habort⟩ := of_decide_eq_true hfacts
  obtain ⟨w', hr, rfl⟩ :=
    Lookups.exists_raceRun_on (fun _ _ _ => rfl) _ (.inl hfound) hs
  exact ⟨w', (reachable_of_runLabels _ hw).trans hr, habort⟩

variable [Fintype ι] {n₀ : Node} {txs : ι → Transaction}

/-- **Disjoint transactions do not disturb each other, unless a lookup is raced.**  On a node started
without peers, with any store, any counter and any lock table without an owner, and for every finite
family of transactions no two of which have a key in common, in the runs in which no `try_emplace`
links an entry while another call looks its own up: no run is infinite; and in every state reached,
no transaction has aborted, each one has returned or can go on, what it has returned is what it
returns in every run in which it is the only one, and the store at the end does not depend on the
run. -/
theorem disjoint_transactions_unless_raced {hash : KeyType → UInt64} {g : NodeID} {nodeID : String}
    (hstart : start hash (.fresh g) nodeID [] = .ok n₀.routing)
    (hfree : ∀ k, n₀.lockManager.owner k = none) (hapart : Apart txs) :
    TerminatesWithin (lookups ι).raceStep (lookups ι).RaceFree
      (Lookups.start (initialAt n₀ txs)) ∧
    ∀ w, Run (lookups ι).raceStep (lookups ι).RaceFree (Lookups.start (initialAt n₀ txs)) w →
      (∀ i, (i, .aborted) ∉ w.sys.hist) ∧
      (∀ i, (∃ results, (w.sys.txns i).pc = .returned results) ∨
        ∃ x w', (lookups ι).mover x = some i ∧ (lookups ι).raceStep w x = some w') ∧
      (∀ i results, (w.sys.txns i).pc = .returned results →
        ∀ v, Reachable (lookups Unit).raceStep
            (Lookups.start (initialAt n₀ fun _ => txs i)) v →
          ∀ results', (v.sys.txns ()).pc = .returned results' → results = results') ∧
      (∀ w', Run (lookups ι).raceStep (lookups ι).RaceFree
            (Lookups.start (initialAt n₀ txs)) w' →
        (∀ i, ∃ results, (w.sys.txns i).pc = .returned results) →
        (∀ i, ∃ results, (w'.sys.txns i).pc = .returned results) →
          w.sys.node.store = w'.sys.node.store) := by
  obtain ⟨hterm, hall⟩ := disjoint_transactions hstart hfree hapart
  refine ⟨Lookups.terminatesWithin_of_terminates hterm, fun w hr => ?_⟩
  obtain ⟨hrun, hsound⟩ := Lookups.reachable_of_raceRun hr
  obtain ⟨habort, hgo, halone, hstore⟩ := hall w.sys hrun
  refine ⟨habort, fun i => (hgo i).imp_right ?_, fun i results hret v hv => ?_, fun w' hr' => ?_⟩
  · rintro ⟨c, s', hs⟩
    exact exists_raceStep_of_step hsound hs
  · have hv' := Lookups.reachable_of_raceRun (hv.mono fun v x _ => raceFree_unit v x)
    exact halone i results hret v.sys hv'.1
  · exact hstore w'.sys (Lookups.reachable_of_raceRun hr').1

/-- The two calls take turns, and so do their lookups. -/
def turnsRun : List (RaceLabel (Bool × Choice) Bool KeyType) :=
  [.act (false, { keys := [1] }), .act (true, { keys := [257] }), .act (false, {}),
    .act (true, {}), .search false, .search true, .find false 1, .find true 257, .act (false, {}),
    .act (true, {}), .act (false, {}), .act (true, {}), .act (false, {}), .act (true, {}),
    .act (false, {}), .act (true, {}), .act (false, {}), .act (true, {}), .act (false, {}),
    .act (true, { keys := [257] }), .act (false, { keys := [1] }), .act (true, {}),
    .act (true, {}), .act (true, {}), .act (false, {}), .act (false, {}), .act (false, {})]

theorem disjoint_transactions_turns :
    ∃ w, Run (lookups Bool).raceStep (lookups Bool).RaceFree
        (Lookups.start (initialAt (.fresh aloneRouting emptyStore) twoApart)) w ∧
      (w.sys.txns false).pc = .returned [(1, some [7])] ∧
      (w.sys.txns true).pc = .returned [] ∧ ∀ i, (i, .aborted) ∉ w.sys.hist := by
  have hstart : start (fun key => key.toUInt64) (.fresh 0) "n0" []
      = .ok (Node.fresh aloneRouting emptyStore).routing := by rfl
  obtain ⟨w, hr, hfalse, htrue⟩ : ∃ w, Run (lookups Bool).raceStep (lookups Bool).RaceFree
      (Lookups.start (initialAt (.fresh aloneRouting emptyStore) twoApart)) w ∧
      (w.sys.txns false).pc = .returned [(1, some [7])] ∧
      (w.sys.txns true).pc = .returned [] :=
    exists_run_of_runChecked turnsRun (by decide +kernel)
  have hfacts := (disjoint_transactions_unless_raced hstart (fun k => rfl) apart_twoApart).2 w hr
  exact ⟨w, hr, hfalse, htrue, hfacts.1⟩

/-! ## 4. A node comes to rest -/

/-- **A node on its own comes to rest, unless a lookup is raced.**  Fewer than 2^64 calls, whatever
keys they share, and no `try_emplace` that links an entry while another call looks its own up: no
run goes on for ever, and a state from which no call can move is at rest: all calls have returned,
and no lock and no record of one is left. -/
theorem comes_to_rest_unless_raced (hcard : Fintype.card ι < 2 ^ 64) {hash : KeyType → UInt64}
    {g : NodeID} {nodeID : String} {routing : Routing}
    (hstart : start hash (.fresh g) nodeID [] = .ok routing) (store₀ : ThreadSafeKVStore)
    (txs : ι → Transaction) :
    TerminatesWithin (lookups ι).raceStep (lookups ι).RaceFree
      (Lookups.start (initial routing store₀ txs)) ∧
    ∀ w, Run (lookups ι).raceStep (lookups ι).RaceFree
        (Lookups.start (initial routing store₀ txs)) w →
      (∀ x, (lookups ι).raceStep w x = none) → AtRest w.sys := by
  obtain ⟨hterm, hrest⟩ := comes_to_rest hcard hstart store₀ txs
  refine ⟨Lookups.terminatesWithin_of_terminates hterm, fun w hr hstuck => ?_⟩
  obtain ⟨hrun, hsound⟩ := Lookups.reachable_of_raceRun hr
  refine hrest w.sys hrun fun l => ?_
  by_contra hstep
  obtain ⟨s', hs⟩ := Option.ne_none_iff_exists'.mp hstep
  obtain ⟨x, w', -, hx⟩ := exists_raceStep_of_step hsound hs
  exact absurd (hstuck x) (by simp [hx])

/-- The writer and the reader of `contendedRun`, at the end. -/
theorem comes_to_rest_contended :
    ∃ w, Run (lookups Bool).raceStep (lookups Bool).RaceFree
        (Lookups.start (initial aloneRouting emptyStore writerReader)) w ∧
      (w.sys.txns true).pc = .returned [(1, some [7])] ∧
      (∀ x, (lookups Bool).raceStep w x = none) ∧ AtRest w.sys := by
  have hstart : start (fun key => key.toUInt64) (.fresh 0) "n0" [] = .ok aloneRouting := by rfl
  have hrest := comes_to_rest_unless_raced (by decide) hstart emptyStore writerReader
  have hrun : ((runLabels step (initial aloneRouting emptyStore writerReader) contendedRun).map
      fun w => decide ((w.txns false).pc = .returned [] ∧
        (w.txns true).pc = .returned [(1, some [7])])) = some true := by
    decide +kernel
  obtain ⟨s, hs, hpcs⟩ := Option.map_eq_some_iff.mp hrun
  obtain ⟨hfalse, htrue⟩ := of_decide_eq_true hpcs
  obtain ⟨w, hr, rfl, -⟩ :=
    Lookups.exists_raceRun (Y := lookups Bool) (reachable_of_runLabels _ hs)
  have hstuck : ∀ x, (lookups Bool).raceStep w x = none := by
    refine Lookups.raceStep_eq_none ?_ ?_
    · rintro ⟨_ | _, c⟩ <;> simp [lookups, step, stepTxn, hfalse, htrue]
    · rintro (_ | _) <;> simp [lookups, hfalse, htrue, Pc.wants]
  have hr := hr.mono fun _ _ hok => hok.1
  exact ⟨w, hr, htrue, hstuck, hrest.2 w hr hstuck⟩

end SingleNode

end TwoPL
