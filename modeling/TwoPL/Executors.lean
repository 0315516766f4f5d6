/-
# The two executors of one node

`TwoPLScheduler` has a second way to execute a transaction, `execute_with_id`, for a node without
peers.  It collects the keys into one set, without grouping them by node, has ONE visitor for all
operations, where `execute_with_distributed_support` makes a new one for each, gives everything
back with a plain `release_all`, and says in a flag whether it succeeded.

Here both run on their own: the lock table may name other transactions, but they do nothing during
the call.  `PlainCall` is a call of `execute_with_id`, one section of the lock manager or one
operation a step; `SoloCall` is a call of `execute_with_distributed_support`, that is, `stepTxn` and
nobody else.  What the environment still decides is the order in which the sets are iterated.

* `PlainInv` says where a `PlainCall` can be: it has taken only free keys, those that it has are on
  record for `release_all`, and in the sleeping loop the owner is somebody else.  From it the
  outcome can be read off (`Meets`).
* `SameCall` simulates a `SoloCall` by a `PlainCall`; the only step without a counterpart is the one
  between the local part of `release_all_locks` and its messages, of which there are none.
-/
import TwoPL.Lib.Termination
import TwoPL.SingleNode

namespace TwoPL

open Lib

/-! ## 1. `execute_with_id` -/

/-- `op.Accept(&visitor)` on a visitor that has been used before: a read overwrites its result, an
append leaves it. -/
def NaiveOpExecutor.acceptAgain (store : ThreadSafeKVStore) (result : Option ValueContainer) :
    Operation → ThreadSafeKVStore × Option ValueContainer
  | .read key => (store, store.get key)
  | .append key value => (store.append key value, result)

/-- What is left of the operations before shows in no result. -/
theorem NaiveOpExecutor.acceptAgain_eq (store : ThreadSafeKVStore)
    (result : Option ValueContainer) (op : Operation) :
    (acceptAgain store result op).1 = (accept store op).1 ∧
      localResult op (acceptAgain store result op).2 = localResult op (accept store op).2 := by
  cases op with
  | read key => exact ⟨rfl, rfl⟩
  | append key value => exact ⟨rfl, rfl⟩

/-- Where a call of `execute_with_id` is. -/
inductive PlainPc
  /-- Phase 1: these keys are still to lock, the first one is being acquired. -/
  | locking (todo : List KeyType) (stage : AcquireStage)
  /-- ... `release_all` after an abort. -/
  | aborting (stage : ReleaseAllStage)
  /-- Phase 2: these operations are still to run; `visitor` is the result of the visitor. -/
  | executing (rest : List Operation) (results : Results) (visitor : Option ValueContainer)
  /-- Phase 3. -/
  | releasing (stage : ReleaseAllStage) (results : Results)
  | returned (results : Results) (success : Bool)
  deriving DecidableEq

/-- A call of `execute_with_id`.  Its `held_locks` is only written. -/
structure PlainCall where
  lockManager : LockManager
  store : ThreadSafeKVStore
  tx : Transaction
  txId : TransactionId
  pc : PlainPc

/-- How a call came out: whether it aborted, what it returned and what it left. -/
@[ext] structure CallOutcome where
  aborted : Bool
  results : Results
  store : ThreadSafeKVStore
  owner : KeyType → Option TransactionId

namespace PlainCall

/-- The call is made; `keys` is the order in which `keys_to_lock` is iterated. -/
def start (lm : LockManager) (store : ThreadSafeKVStore) (tx : Transaction)
    (txId : TransactionId) (keys : List KeyType) : PlainCall where
  lockManager := lm
  store := store
  tx := tx
  txId := txId
  pc := .locking keys .emplace

/-- One step; `order` is the order in which a `release_all` iterates its keys. -/
def step (p : PlainCall) (order : List KeyType) : Option PlainCall :=
  match p.pc with
  | .locking (key :: todo) stage =>
    match acquireStep p.lockManager key p.txId stage with
    | (lm, .inl stage') =>
      some { p with lockManager := lm, pc := .locking (key :: todo) stage' }
    | (lm, .inr .ACQUIRED) => some { p with lockManager := lm, pc := .locking todo .emplace }
    | (lm, .inr .ABORTED) => some { p with lockManager := lm, pc := .aborting .take }
  | .locking [] _ => some { p with pc := .executing p.tx [] none }
  | .aborting stage =>
    match releaseAllStep p.lockManager p.txId order stage with
    | none => none
    | some (lm, some stage') => some { p with lockManager := lm, pc := .aborting stage' }
    | some (lm, none) => some { p with lockManager := lm, pc := .returned [] false }
  | .executing (op :: rest) results visitor =>
    let (store, visitor') := NaiveOpExecutor.acceptAgain p.store visitor op
    some { p with store, pc := .executing rest (results ++ localResult op visitor') visitor' }
  | .executing [] results _ => some { p with pc := .releasing .take results }
  | .releasing stage results =>
    match releaseAllStep p.lockManager p.txId order stage with
    | none => none
    | some (lm, some stage') => some { p with lockManager := lm, pc := .releasing stage' results }
    | some (lm, none) => some { p with lockManager := lm, pc := .returned results true }
  | .returned _ _ => none

/-- The outcome, once the call has returned. -/
def outcome (p : PlainCall) : Option CallOutcome :=
  match p.pc with
  | .returned results success =>
    some { aborted := !success, results, store := p.store, owner := p.lockManager.owner }
  | _ => none

/-- **Everything a step can do.** -/
inductive Stepped (p : PlainCall) : PlainCall → Prop
  | poll {key todo stage stage' lm} : p.pc = .locking (key :: todo) stage →
      AcquireStep p.lockManager key p.txId stage lm (.inl stage') →
      Stepped p { p with lockManager := lm, pc := .locking (key :: todo) stage' }
  | acquired {key todo stage lm} : p.pc = .locking (key :: todo) stage →
      AcquireStep p.lockManager key p.txId stage lm (.inr .ACQUIRED) →
      Stepped p { p with lockManager := lm, pc := .locking todo .emplace }
  | refused {key todo stage lm} : p.pc = .locking (key :: todo) stage →
      AcquireStep p.lockManager key p.txId stage lm (.inr .ABORTED) →
      Stepped p { p with lockManager := lm, pc := .aborting .take }
  | locked {stage} : p.pc = .locking [] stage →
      Stepped p { p with pc := .executing p.tx [] none }
  | aborting {stage stage' lm} : p.pc = .aborting stage →
      ReleaseAllStep p.lockManager p.txId stage lm (some stage') →
      Stepped p { p with lockManager := lm, pc := .aborting stage' }
  | aborted {stage lm} : p.pc = .aborting stage →
      ReleaseAllStep p.lockManager p.txId stage lm none →
      Stepped p { p with lockManager := lm, pc := .returned [] false }
  | ran {op rest results visitor} : p.pc = .executing (op :: rest) results visitor →
      Stepped p { p with
        store := (NaiveOpExecutor.acceptAgain p.store visitor op).1
        pc := .executing rest
          (results ++ localResult op (NaiveOpExecutor.acceptAgain p.store visitor op).2)
          (NaiveOpExecutor.acceptAgain p.store visitor op).2 }
  | allRan {results visitor} : p.pc = .executing [] results visitor →
      Stepped p { p with pc := .releasing .take results }
  | releasing {stage stage' lm results} : p.pc = .releasing stage results →
      ReleaseAllStep p.lockManager p.txId stage lm (some stage') →
      Stepped p { p with lockManager := lm, pc := .releasing stage' results }
  | returned {stage lm results} : p.pc = .releasing stage results →
      ReleaseAllStep p.lockManager p.txId stage lm none →
      Stepped p { p with lockManager := lm, pc := .returned results true }

theorem step_spec {p p' : PlainCall} {order : List KeyType} (h : p.step order = some p') :
    Stepped p p' := by
  unfold step at h
  split at h
  · rename_i key todo stage hpc
    have hspec := acquireStep_spec p.lockManager key p.txId stage
    split at h <;> (rename_i heq; rw [heq] at hspec; rw [Option.some.injEq] at h)
    · exact h ▸ .poll hpc hspec
    · exact h ▸ .acquired hpc hspec
    · exact h ▸ .refused hpc hspec
  · rename_i hpc
    rw [Option.some.injEq] at h
    exact h ▸ .locked hpc
  · rename_i hpc
    split at h
    · exact absurd h (by simp)
    · rename_i heq
      rw [Option.some.injEq] at h
      exact h ▸ .aborting hpc (releaseAllStep_spec heq)
    · rename_i heq
      rw [Option.some.injEq] at h
      exact h ▸ .aborted hpc (releaseAllStep_spec heq)
  · rename_i hpc
    rw [Option.some.injEq] at h
    exact h ▸ .ran hpc
  · rename_i hpc
    rw [Option.some.injEq] at h
    exact h ▸ .allRan hpc
  · rename_i hpc
    split at h
    · exact absurd h (by simp)
    · rename_i heq
      rw [Option.some.injEq] at h
      exact h ▸ .releasing hpc (releaseAllStep_spec heq)
    · rename_i heq
      rw [Option.some.injEq] at h
      exact h ▸ .returned hpc (releaseAllStep_spec heq)
  · exact absurd h (by simp)

/-- A call has returned or can go on. -/
theorem exists_step (p : PlainCall) :
    (∃ o, p.outcome = some o) ∨ ∃ order p', p.step order = some p' := by
  obtain ⟨keys, hkeys⟩ := exists_enumerates (p.lockManager.keysToRelease p.txId)
  unfold outcome step
  cases hpc : p.pc with
  | locking todo stage =>
    cases todo with
    | nil => exact .inr ⟨[], _, rfl⟩
    | cons key todo =>
      refine .inr ⟨[], ?_⟩
      dsimp only
      split <;> exact ⟨_, rfl⟩
  | aborting stage =>
    refine .inr ⟨keys, ?_⟩
    cases stage with
    | take => simp only [releaseAllStep, if_pos hkeys]; exact ⟨_, rfl⟩
    | releasing todo => cases todo <;> exact ⟨_, rfl⟩
  | executing rest results visitor => cases rest <;> exact .inr ⟨[], _, rfl⟩
  | releasing stage results =>
    refine .inr ⟨keys, ?_⟩
    cases stage with
    | take => simp only [releaseAllStep, if_pos hkeys]; exact ⟨_, rfl⟩
    | releasing todo => cases todo <;> exact ⟨_, rfl⟩
  | returned results success => exact .inl ⟨_, rfl⟩

end PlainCall

/-! ## 2. Every call ends -/

/-- The sections that an `acquire` still has before it at most. -/
def AcquireStage.cost : AcquireStage → ℕ
  | .emplace => maxSpins + maxYields + 3
  | .track => maxSpins + maxYields + 2
  | .spin n => maxSpins - n + maxYields + 1
  | .sleep n => maxYields - n

theorem AcquireStep.cost_lt {lm lm' : LockManager} {key : KeyType} {txId : TransactionId}
    {stage stage' : AcquireStage} (h : AcquireStep lm key txId stage lm' (.inl stage')) :
    stage'.cost < stage.cost := by
  cases h with
  | emplace => simp [AcquireStage.cost]
  | track => simp [AcquireStage.cost]
  | spun _ _ =>
    split
    · simp only [AcquireStage.cost]
      omega
    · simp only [AcquireStage.cost]
      omega
  | slept _ hlt =>
    simp only [AcquireStage.cost]
    omega

/-- What is left of a `release_all`: its first section fixes how many others there are. -/
def ReleaseAllStage.cost : ReleaseAllStage → ℕ ×ₗ ℕ
  | .take => toLex (2, 0)
  | .releasing keys => toLex (1, keys.length)

theorem ReleaseAllStep.cost_lt {lm lm' : LockManager} {txId : TransactionId}
    {stage stage' : ReleaseAllStage} (h : ReleaseAllStep lm txId stage lm' (some stage')) :
    stage'.cost < stage.cost := by
  cases h with
  | take _ => exact Prod.Lex.toLex_lt_toLex.mpr (.inl (by simp))
  | release => exact Prod.Lex.toLex_lt_toLex.mpr (.inr ⟨rfl, by simp⟩)

theorem ReleaseAllStage.cost_pos (stage : ReleaseAllStage) : toLex (0, 0) < stage.cost := by
  cases stage <;> exact Prod.Lex.toLex_lt_toLex.mpr (.inl (by simp))

namespace PlainCall

/-- What is left of a call. -/
def cost (p : PlainCall) : ℕ ×ₗ ℕ :=
  match p.pc with
  | .locking todo stage => toLex (p.tx.length + 4 + todo.length, stage.cost)
  | .executing rest _ _ => toLex (rest.length + 3, 0)
  | .aborting stage => stage.cost
  | .releasing stage _ => stage.cost
  | .returned _ _ => toLex (0, 0)

theorem Stepped.cost_lt {p p' : PlainCall} (h : Stepped p p') : p'.cost < p.cost := by
  unfold cost
  cases h with
  | poll hpc hacq =>
    rw [hpc]
    exact Prod.Lex.toLex_lt_toLex.mpr (.inr ⟨rfl, hacq.cost_lt⟩)
  | acquired hpc _ =>
    rw [hpc]
    exact Prod.Lex.toLex_lt_toLex.mpr (.inl (by simp))
  | refused hpc _ =>
    rw [hpc]
    exact Prod.Lex.toLex_lt_toLex.mpr (.inl (by simp; omega))
  | locked hpc =>
    rw [hpc]
    exact Prod.Lex.toLex_lt_toLex.mpr (.inl (by simp))
  | aborting hpc hrel =>
    rw [hpc]
    exact hrel.cost_lt
  | aborted hpc _ =>
    rw [hpc]
    exact ReleaseAllStage.cost_pos _
  | ran hpc =>
    rw [hpc]
    exact Prod.Lex.toLex_lt_toLex.mpr (.inl (by simp))
  | allRan hpc =>
    rw [hpc]
    exact Prod.Lex.toLex_lt_toLex.mpr (.inl (by simp))
  | releasing hpc hrel =>
    rw [hpc]
    exact hrel.cost_lt
  | returned hpc _ =>
    rw [hpc]
    exact ReleaseAllStage.cost_pos _

theorem returns (p₀ : PlainCall) : Returns step outcome p₀ where
  terminates := terminates_of_measure cost fun _ _ _ _ hs => (step_spec hs).cost_lt
  result_of_stuck p _ hstuck := by
    rcases p.exists_step with hret | ⟨order, p', hs⟩
    · exact hret
    · rw [hstuck order] at hs
      exact absurd hs (by simp)

end PlainCall

/-! ## 3. The outcome -/

/-- Some key of the transaction is owned by another one. -/
def Blocked (lm : LockManager) (tx : Transaction) (txId : TransactionId) : Prop :=
  ∃ op ∈ tx, ∃ o, lm.owner op.key = some o ∧ o ≠ txId

/-- **The outcome of a transaction executed on its own**, on these tables and this store. -/
structure Meets (lm : LockManager) (store : ThreadSafeKVStore) (tx : Transaction)
    (txId : TransactionId) (o : CallOutcome) : Prop where
  aborted_iff : o.aborted = true ↔ Blocked lm tx txId
  owner : o.owner = lm.owner
  of_aborted : o.aborted = true → o.store = store ∧ o.results = []
  of_ran : o.aborted = false →
    o.store = (SingleNode.runAlone store tx).1 ∧ o.results = (SingleNode.runAlone store tx).2

theorem Meets.unique {lm : LockManager} {store : ThreadSafeKVStore} {tx : Transaction}
    {txId : TransactionId} {o o' : CallOutcome} (h : Meets lm store tx txId o)
    (h' : Meets lm store tx txId o') : o = o' := by
  have hab : o.aborted = o'.aborted := by
    rw [Bool.eq_iff_iff, h.aborted_iff, h'.aborted_iff]
  cases hb : o.aborted with
  | true =>
    obtain ⟨hs, hr⟩ := h.of_aborted hb
    obtain ⟨hs', hr'⟩ := h'.of_aborted (hab ▸ hb)
    exact CallOutcome.ext hab (hr.trans hr'.symm) (hs.trans hs'.symm) (h.owner.trans h'.owner.symm)
  | false =>
    obtain ⟨hs, hr⟩ := h.of_ran hb
    obtain ⟨hs', hr'⟩ := h'.of_ran (hab ▸ hb)
    exact CallOutcome.ext hab (hr.trans hr'.symm) (hs.trans hs'.symm) (h.owner.trans h'.owner.symm)

section Invariant

variable {lm₀ : LockManager} {store₀ : ThreadSafeKVStore} {tx : Transaction}
  {txId : TransactionId} {p p' : PlainCall}

/-- The owners are those of `lm₀`, but for free keys that `txId` has taken. -/
def TakesFree (lm₀ : LockManager) (txId : TransactionId) (lm : LockManager) : Prop :=
  ∀ k, lm.owner k = lm₀.owner k ∨ (lm₀.owner k = none ∧ lm.owner k = some txId)

theorem TakesFree.acquire {lm lm' : LockManager} {key : KeyType} {stage : AcquireStage}
    {r : AcquireStage ⊕ AcquireResult} (h : TakesFree lm₀ txId lm)
    (hacq : AcquireStep lm key txId stage lm' r) : TakesFree lm₀ txId lm' := by
  intro k
  rcases hacq.owner_eq k with hsame | ⟨rfl, hnone, hself, -⟩
  · rw [hsame]
    exact h k
  · rcases h k with hold | ⟨hnone', -⟩
    · exact .inr ⟨hold.symm.trans hnone, hself⟩
    · exact .inr ⟨hnone', hself⟩

theorem TakesFree.releaseAll {lm lm' : LockManager} {stage : ReleaseAllStage}
    {stage' : Option ReleaseAllStage} (hfree : ∀ k, lm₀.owner k ≠ some txId)
    (h : TakesFree lm₀ txId lm) (hrel : ReleaseAllStep lm txId stage lm' stage') :
    TakesFree lm₀ txId lm' := by
  cases hrel with
  | take _ => exact h
  | done => exact h
  | @release key keys =>
    intro k
    rw [LockManager.owner_release]
    split
    · -- a key that is given back was free
      rename_i hk
      obtain ⟨rfl, hown⟩ := hk
      rcases h k with hold | ⟨hnone, -⟩
      · exact absurd (hold.symm.trans hown) (hfree k)
      · exact .inl hnone.symm
    · exact h k

/-- An owner that is not `txId` itself was there before. -/
theorem TakesFree.blocked {lm : LockManager} (h : TakesFree lm₀ txId lm) {op : Operation}
    (hop : op ∈ tx) {o : TransactionId} (hown : lm.owner op.key = some o)
    (hne : lm.owner op.key ≠ some txId) :
    Blocked lm₀ tx txId := by
  rcases h op.key with hold | ⟨-, hself⟩
  · refine ⟨op, hop, o, hold.symm.trans hown, ?_⟩
    rintro rfl
    exact hne hown
  · exact absurd hself hne

/-- A call that owns its keys is not blocked. -/
theorem TakesFree.not_blocked {lm : LockManager} (h : TakesFree lm₀ txId lm)
    (hown : ∀ op ∈ tx, lm.owner op.key = some txId) : ¬ Blocked lm₀ tx txId := by
  rintro ⟨op, hop, o, ho, hne⟩
  rcases h op.key with hold | ⟨hnone, -⟩
  · rw [← hold, hown op hop, Option.some.injEq] at ho
    exact hne ho.symm
  · rw [hnone] at ho
    exact absurd ho (by simp)

/-- The operations `done` have been executed, and nothing else. -/
def Executed (store₀ : ThreadSafeKVStore) (done : Transaction) (store : ThreadSafeKVStore)
    (results : Results) : Prop :=
  store = (SingleNode.runAlone store₀ done).1 ∧ results = (SingleNode.runAlone store₀ done).2

/-- What a call has done, by where it is. -/
def AtPc (lm₀ : LockManager) (store₀ : ThreadSafeKVStore) (p : PlainCall) : Prop :=
  match p.pc with
  | .locking todo stage =>
    p.store = store₀ ∧ p.lockManager.Recorded p.txId [] ∧
    (∀ op ∈ p.tx, op.key ∈ todo ∨ p.lockManager.owner op.key = some p.txId) ∧
    (∀ k ∈ todo, ∃ op ∈ p.tx, op.key = k) ∧
    ∀ k ∈ todo.head?, (stage.polls = true → k ∈ p.lockManager.keysToRelease p.txId) ∧
      ∀ n, stage = .sleep n → p.lockManager.owner k ≠ some p.txId
  | .aborting stage =>
    p.store = store₀ ∧ stage.Covers p.lockManager p.txId ∧ Blocked lm₀ p.tx p.txId
  | .executing rest results _ =>
    (∃ done, p.tx = done ++ rest ∧ Executed store₀ done p.store results) ∧
    p.lockManager.Recorded p.txId [] ∧ ¬ Blocked lm₀ p.tx p.txId
  | .releasing stage results =>
    Executed store₀ p.tx p.store results ∧ stage.Covers p.lockManager p.txId ∧
    ¬ Blocked lm₀ p.tx p.txId
  | .returned results success =>
    (∀ k, p.lockManager.owner k ≠ some p.txId) ∧
    (if success then Executed store₀ p.tx p.store results ∧ ¬ Blocked lm₀ p.tx p.txId
      else p.store = store₀ ∧ results = [] ∧ Blocked lm₀ p.tx p.txId)

/-- **The invariant of a call on its own.** -/
structure PlainInv (lm₀ : LockManager) (store₀ : ThreadSafeKVStore) (tx : Transaction)
    (txId : TransactionId) (p : PlainCall) : Prop where
  tx : p.tx = tx
  txId : p.txId = txId
  takesFree : TakesFree lm₀ p.txId p.lockManager
  atPc : AtPc lm₀ store₀ p

theorem Executed.run {done : Transaction} {store : ThreadSafeKVStore} {results : Results}
    (h : Executed store₀ done store results) (visitor : Option ValueContainer) (op : Operation) :
    Executed store₀ (done ++ [op]) (NaiveOpExecutor.acceptAgain store visitor op).1
      (results ++ localResult op (NaiveOpExecutor.acceptAgain store visitor op).2) := by
  obtain ⟨rfl, rfl⟩ := h
  obtain ⟨hstore, hresult⟩ :=
    NaiveOpExecutor.acceptAgain_eq (SingleNode.runAlone store₀ done).1 visitor op
  rw [Executed, SingleNode.runAlone_concat, hstore, hresult]
  exact ⟨rfl, rfl⟩

/-- **Every step keeps the invariant.** -/
theorem PlainInv.step (hfree : ∀ k, lm₀.owner k ≠ some txId) (h : PlainInv lm₀ store₀ tx txId p)
    (hs : p.Stepped p') : PlainInv lm₀ store₀ tx txId p' := by
  have hfree' : ∀ k, lm₀.owner k ≠ some p.txId := h.txId ▸ hfree
  have hat := h.atPc
  unfold AtPc at hat
  cases hs with
  | @poll key todo stage stage' lm hpc hacq =>
    simp only [hpc] at hat
    obtain ⟨hstore, hrec, hkeys, htodo, hhead⟩ := hat
    obtain ⟨hpolls, hsleep⟩ := hhead key (by simp)
    refine ⟨h.tx, h.txId, h.takesFree.acquire hacq, hstore, hacq.recorded hrec hpolls, ?_, htodo,
      ?_⟩
    · exact fun op hop => (hkeys op hop).imp_right hacq.owner_of_some
    · intro k hk
      rw [List.head?_cons, Option.mem_some_iff] at hk
      subst hk
      refine ⟨hacq.polls_recorded hpolls, ?_⟩
      rintro n rfl
      exact hacq.sleep_owner hsleep
  | @acquired key todo stage lm hpc hacq =>
    simp only [hpc] at hat
    obtain ⟨hstore, hrec, hkeys, htodo, hhead⟩ := hat
    obtain ⟨hpolls, -⟩ := hhead key (by simp)
    refine ⟨h.tx, h.txId, h.takesFree.acquire hacq, hstore, hacq.recorded hrec hpolls, ?_, ?_, ?_⟩
    · intro op hop
      rcases hkeys op hop with hmem | hown
      · rcases List.mem_cons.mp hmem with hkey | hmem
        · exact .inr (hkey ▸ hacq.acquired.1)
        · exact .inl hmem
      · exact .inr (hacq.owner_of_some hown)
    · exact fun k hk => htodo k (List.mem_cons_of_mem _ hk)
    · exact fun k _ => ⟨by simp [AcquireStage.polls], by simp⟩
  | @refused key todo stage lm hpc hacq =>
    simp only [hpc] at hat
    obtain ⟨hstore, hrec, -, htodo, hhead⟩ := hat
    obtain ⟨hpolls, hsleep⟩ := hhead key (by simp)
    refine ⟨h.tx, h.txId, h.takesFree.acquire hacq, hstore, hacq.recorded hrec hpolls, ?_⟩
    obtain ⟨op, hop, rfl⟩ := htodo key List.mem_cons_self
    cases hacq with
    | giveUp hown _ => exact h.takesFree.blocked hop hown (hsleep _ rfl)
  | @locked stage hpc =>
    simp only [hpc] at hat
    obtain ⟨hstore, hrec, hkeys, -, -⟩ := hat
    have hown : ∀ op ∈ p.tx, p.lockManager.owner op.key = some p.txId := fun op hop =>
      (hkeys op hop).resolve_left (by simp)
    exact ⟨h.tx, h.txId, h.takesFree, ⟨[], rfl, hstore, rfl⟩, hrec, h.takesFree.not_blocked hown⟩
  | aborting hpc hrel =>
    simp only [hpc] at hat
    obtain ⟨hstore, hcov, hblocked⟩ := hat
    exact ⟨h.tx, h.txId, h.takesFree.releaseAll hfree' hrel, hstore, hrel.covers hcov, hblocked⟩
  | aborted hpc hrel =>
    simp only [hpc] at hat
    obtain ⟨hstore, hcov, hblocked⟩ := hat
    exact ⟨h.tx, h.txId, h.takesFree.releaseAll hfree' hrel, (hrel.done_covers hcov).1, hstore, rfl,
      hblocked⟩
  | @ran op rest results visitor hpc =>
    simp only [hpc] at hat
    obtain ⟨⟨done, htx, hexec⟩, hrec, hnot⟩ := hat
    refine ⟨h.tx, h.txId, h.takesFree, ⟨done ++ [op], ?_, hexec.run visitor op⟩, hrec, hnot⟩
    simpa using htx
  | @allRan results visitor hpc =>
    simp only [hpc] at hat
    obtain ⟨⟨done, htx, hexec⟩, hrec, hnot⟩ := hat
    rw [List.append_nil] at htx
    exact ⟨h.tx, h.txId, h.takesFree, htx ▸ hexec, hrec, hnot⟩
  | releasing hpc hrel =>
    simp only [hpc] at hat
    obtain ⟨hexec, hcov, hnot⟩ := hat
    exact ⟨h.tx, h.txId, h.takesFree.releaseAll hfree' hrel, hexec, hrel.covers hcov, hnot⟩
  | returned hpc hrel =>
    simp only [hpc] at hat
    obtain ⟨hexec, hcov, hnot⟩ := hat
    exact ⟨h.tx, h.txId, h.takesFree.releaseAll hfree' hrel, (hrel.done_covers hcov).1, hexec, hnot⟩

theorem plainInv_start (hfree : ∀ k, lm₀.owner k ≠ some txId) {keys : List KeyType}
    (hkeys : Enumerates keys (tx.map Operation.key).toFinset) :
    PlainInv lm₀ store₀ tx txId (.start lm₀ store₀ tx txId keys) where
  tx := rfl
  txId := rfl
  takesFree k := .inl rfl
  atPc := by
    refine ⟨rfl, fun k hk => absurd hk (hfree k), fun op hop => .inl ?_, fun k hk => ?_,
      fun k _ => ⟨by simp [AcquireStage.polls], by simp⟩⟩
    · rw [hkeys.mem_iff, List.mem_toFinset]
      exact List.mem_map_of_mem hop
    · rw [hkeys.mem_iff, List.mem_toFinset, List.mem_map] at hk
      exact hk

/-- **What a call that has returned comes to.** -/
theorem PlainInv.meets (h : PlainInv lm₀ store₀ tx txId p) {o : CallOutcome}
    (ho : p.outcome = some o) : Meets lm₀ store₀ tx txId o := by
  have hat := h.atPc
  unfold AtPc at hat
  unfold PlainCall.outcome at ho
  split at ho
  · rename_i results success hpc
    rw [Option.some.injEq] at ho
    subst ho
    simp only [hpc, h.tx, h.txId] at hat
    obtain ⟨hnone, hend⟩ := hat
    have howner : p.lockManager.owner = lm₀.owner := by
      funext k
      rcases h.takesFree k with hold | ⟨-, hself⟩
      · exact hold
      · exact absurd (h.txId ▸ hself) (hnone k)
    cases success with
    | true =>
      obtain ⟨hexec, hnot⟩ := hend
      exact ⟨by simp [hnot], howner, by simp, fun _ => hexec⟩
    | false =>
      obtain ⟨hstore, hres, hblocked⟩ := hend
      exact ⟨by simp [hblocked], howner, fun _ => ⟨hstore, hres⟩, by simp⟩
  · exact absurd ho (by simp)

end Invariant

/-! ## 4. `execute_with_distributed_support`, on its own -/

/-- A call of `execute_with_distributed_support` and its node; `aborted` once `acquire_all_locks`
has given up. -/
structure SoloCall where
  node : Node
  thread : TxnThread
  aborted : Bool

namespace SoloCall

/-- The call is made; `keys` is the order in which `local_keys` is iterated. -/
def start (n : Node) (tx : Transaction) (txId : TransactionId) (keys : List KeyType) :
    SoloCall where
  node := n
  thread := { tx, txId, pc := .locking keys .emplace }
  aborted := false

/-- One step of the call, and nobody else's. -/
def step (s : SoloCall) (c : Choice) : Option SoloCall :=
  (stepTxn s.node s.thread c).map fun r =>
    { node := r.node
      thread := r.thread
      aborted := s.aborted || decide (r.event = some .aborted) }

/-- The outcome, once the call has returned. -/
def outcome (s : SoloCall) : Option CallOutcome :=
  match s.thread.pc with
  | .returned results =>
    some { aborted := s.aborted, results, store := s.node.store
           owner := s.node.lockManager.owner }
  | _ => none

end SoloCall

/-- The call has given up. -/
def PlainPc.aborted : PlainPc → Bool
  | .aborting _ => true
  | .returned _ success => !success
  | _ => false

/-- Where the one call is, when the other one is at `q`. -/
def SamePc : Pc → PlainPc → Prop
  | .locking todo stage, q => q = .locking todo stage
  | .aborting stage, q => q = .aborting stage
  | .executing rest results, q => ∃ visitor, q = .executing rest results visitor
  | .releasing stage results rethrow, q => rethrow = false ∧ q = .releasing stage results
  | .sendingReleases todo results rethrow, q =>
    todo = [] ∧ rethrow = false ∧ q = .releasing (.releasing []) results
  | .returned results, q => ∃ success, q = .returned results success
  | _, _ => False

/-- **The simulation relation.** -/
structure SameCall (s : SoloCall) (p : PlainCall) : Prop where
  coordinator : s.node.routing.coordinator = none
  lockManager : s.node.lockManager = p.lockManager
  store : s.node.store = p.store
  tx : s.thread.tx = p.tx
  txId : s.thread.txId = p.txId
  pc : SamePc s.thread.pc p.pc
  aborted : s.aborted = p.pc.aborted

/-- The step from the local part of `release_all_locks` to its messages is still to come. -/
def SoloCall.rank (s : SoloCall) : ℕ :=
  match s.thread.pc with
  | .releasing _ _ _ => 1
  | _ => 0

/-- **A step of the one call is a step of the other**, or the one between the two parts of
`release_all_locks`. -/
theorem SameCall.step {s s' : SoloCall} {p : PlainCall} {c : Choice} (h : SameCall s p)
    (hstep : s.step c = some s') :
    (∃ p', p.Stepped p' ∧ SameCall s' p') ∨ (SameCall s' p ∧ s'.rank < s.rank) := by
  obtain ⟨r, hr, rfl⟩ := Option.map_eq_some_iff.mp hstep
  have hs := stepTxn_spec hr
  have hm := h.pc
  have hab := h.aborted
  unfold SamePc at hm
  cases hs with
  | poll hpc hacq =>
    simp only [hpc] at hm
    rw [h.lockManager, h.txId] at hacq
    refine .inl ⟨_, .poll hm hacq, ⟨h.coordinator, rfl, h.store, h.tx, h.txId, rfl, ?_⟩⟩
    simpa [hm, PlainPc.aborted] using hab
  | acquired hpc hacq =>
    simp only [hpc] at hm
    rw [h.lockManager, h.txId] at hacq
    refine .inl ⟨_, .acquired hm hacq, ⟨h.coordinator, rfl, h.store, h.tx, h.txId, rfl, ?_⟩⟩
    simpa [hm, PlainPc.aborted] using hab
  | refused hpc hacq =>
    simp only [hpc] at hm
    rw [h.lockManager, h.txId] at hacq
    refine .inl ⟨_, .refused hm hacq, ⟨h.coordinator, rfl, h.store, h.tx, h.txId, rfl, ?_⟩⟩
    simp [PlainPc.aborted]
  | lockedLocal hpc _ =>
    simp only [hpc] at hm
    refine .inl ⟨_, .locked hm, ⟨h.coordinator, h.lockManager, h.store, h.tx, h.txId, ?_, ?_⟩⟩
    · exact ⟨none, by rw [h.tx]⟩
    · simpa [hm, PlainPc.aborted] using hab
  | @aborting stage stage' lm hpc hrel =>
    simp only [hpc] at hm
    rw [h.lockManager, h.txId] at hrel
    refine .inl ⟨_, .aborting hm hrel, ⟨h.coordinator, rfl, h.store, h.tx, h.txId, rfl, ?_⟩⟩
    simp [hab, hm, PlainPc.aborted]
  | aborted hpc hrel =>
    simp only [hpc] at hm
    rw [h.lockManager, h.txId] at hrel
    refine .inl ⟨_, .aborted hm hrel, ⟨h.coordinator, rfl, h.store, h.tx, h.txId, ⟨_, rfl⟩, ?_⟩⟩
    simp [hab, hm, PlainPc.aborted]
  | @ranLocal op rest results hpc _ =>
    simp only [hpc] at hm
    obtain ⟨visitor, hq⟩ := hm
    obtain ⟨hstore, hresult⟩ := NaiveOpExecutor.acceptAgain_eq p.store visitor op
    refine .inl ⟨_, .ran hq, ⟨h.coordinator, h.lockManager, ?_, h.tx, h.txId,
      ⟨(NaiveOpExecutor.acceptAgain p.store visitor op).2, ?_⟩, ?_⟩⟩
    · show (NaiveOpExecutor.accept s.node.store op).1 = _
      rw [h.store, hstore]
    · show _ = PlainPc.executing rest (collect results op _) _
      rw [collect, h.store, hresult]
    · simpa [hq, PlainPc.aborted] using hab
  | allRan hpc =>
    simp only [hpc] at hm
    obtain ⟨visitor, hq⟩ := hm
    refine .inl ⟨_, .allRan hq, ⟨h.coordinator, h.lockManager, h.store, h.tx, h.txId,
      ⟨rfl, rfl⟩, ?_⟩⟩
    simpa [hq, PlainPc.aborted] using hab
  | @releasing stage stage' lm results rethrow hpc hrel =>
    simp only [hpc] at hm
    rw [h.lockManager, h.txId] at hrel
    refine .inl ⟨_, .releasing hm.2 hrel, ⟨h.coordinator, rfl, h.store, h.tx, h.txId,
      ⟨hm.1, rfl⟩, ?_⟩⟩
    rcases stage.event_cases with he | ⟨key, he⟩ <;> simpa [he, hm.2, PlainPc.aborted] using hab
  | @releasedLocal stage lm pairs results rethrow hpc hrel henum =>
    simp only [hpc] at hm
    cases hrel with
    | done =>
      have hpairs := SingleNode.eq_nil_of_coordinator_none h.coordinator henum
      refine .inr ⟨⟨h.coordinator, h.lockManager, h.store, h.tx, h.txId, ⟨hpairs, hm.1, hm.2⟩, ?_⟩,
        by simp [SoloCall.rank, hpc, TxnThread.goto]⟩
      simpa using hab
  | returned hpc =>
    simp only [hpc] at hm
    obtain ⟨-, -, hq⟩ := hm
    refine .inl ⟨_, .returned hq .done, ⟨h.coordinator, h.lockManager, h.store, h.tx, h.txId,
      ⟨_, rfl⟩, ?_⟩⟩
    simpa [hq, PlainPc.aborted] using hab
  | beginRemote _ hrem _ _ =>
    exact absurd (SingleNode.remotePairs_of_coordinator_none h.coordinator _) hrem
  | opBegin _ hremote _ =>
    exact absurd (SingleNode.primary_of_coordinator_none h.coordinator _) hremote
  | opAnswered hpc => rcases hpc with hpc | hpc <;> simp [hpc] at hm
  | sendRelease hpc _ => simp [hpc] at hm
  | sendThrew hpc _ => simp [hpc] at hm
  | rethrown hpc _ => simp [hpc] at hm
  | _ => simp [*] at hm

/-- The two have the same outcome. -/
theorem SameCall.outcome_eq {s : SoloCall} {p : PlainCall} (h : SameCall s p) {o : CallOutcome}
    (ho : s.outcome = some o) : p.outcome = some o := by
  have hm := h.pc
  have hab := h.aborted
  unfold SoloCall.outcome at ho
  split at ho
  · rename_i results hpc
    rw [Option.some.injEq] at ho
    simp only [SamePc, hpc] at hm
    obtain ⟨success, hq⟩ := hm
    rw [hq] at hab
    rw [PlainCall.outcome, hq, ← ho, h.store, h.lockManager, hab]
    rfl
  · exact absurd ho (by simp)

/-- A call is never in a stage that needs peers. -/
theorem SameCall.alonePc {s : SoloCall} {p : PlainCall} (h : SameCall s p) :
    SingleNode.AlonePc s.thread.pc := by
  have hm := h.pc
  unfold SamePc at hm
  split at hm <;> simp_all [SingleNode.AlonePc]

section Executors

variable {n : Node} {tx : Transaction} {txId : TransactionId} {keys : List KeyType}

theorem sameCall_start (hsingle : n.routing.coordinator = none) (tx : Transaction)
    (txId : TransactionId) (keys : List KeyType) :
    SameCall (.start n tx txId keys) (.start n.lockManager n.store tx txId keys) where
  coordinator := hsingle
  lockManager := rfl
  store := rfl
  tx := rfl
  txId := rfl
  pc := rfl
  aborted := rfl

/-- Every run of the one is a run of the other. -/
theorem exists_sameCall (hsingle : n.routing.coordinator = none) {s : SoloCall}
    (hr : Reachable SoloCall.step (.start n tx txId keys) s) :
    ∃ p, Relation.ReflTransGen PlainCall.Stepped (.start n.lockManager n.store tx txId keys) p ∧
      SameCall s p := by
  refine hr.simulation (sameCall_start hsingle tx txId keys) fun s c s' p h _ hs => ?_
  rcases h.step hs with ⟨p', hp, h'⟩ | ⟨h', -⟩
  · exact ⟨p', .single hp, h'⟩
  · exact ⟨p, .refl, h'⟩

theorem SoloCall.returns (hsingle : n.routing.coordinator = none) (tx : Transaction)
    (txId : TransactionId) (keys : List KeyType) :
    Returns SoloCall.step SoloCall.outcome (.start n tx txId keys) where
  terminates := terminates_of_simulation PlainCall.cost SoloCall.rank
    (sameCall_start hsingle tx txId keys) (fun _ _ hp => hp.cost_lt) fun _ _ _ _ h hs => h.step hs
  result_of_stuck s hr hstuck := by
    obtain ⟨p, -, h⟩ := exists_sameCall hsingle hr
    rcases SingleNode.exists_stepTxn h.coordinator h.alonePc with ⟨results, hpc⟩ | ⟨c, r, hs⟩
    · exact ⟨_, by rw [SoloCall.outcome, hpc]⟩
    · have := hstuck c
      simp [SoloCall.step, hs] at this

/-- Without a coordinator `local_keys` is the set of all keys. -/
theorem localKeys_of_coordinator_none (hsingle : n.routing.coordinator = none)
    (tx : Transaction) : n.localKeys tx = (tx.map Operation.key).toFinset := by
  simp [Node.localKeys, SingleNode.primary_of_coordinator_none hsingle]

/-- **The two executors agree.**  A node without peers, any tables and any store, any transaction
and any id that owns nothing, and nobody else at work: however the sets are iterated, both
executors return, and with the same outcome.  They abort exactly when some key of the transaction
is owned by another one, and then leave the store; otherwise they return what the reads of the
transaction return and leave the store it leaves.  The owner of every key is the one before the
call. -/
theorem executors_agree (hsingle : n.routing.coordinator = none) (tx : Transaction)
    (hfree : ∀ k, n.lockManager.owner k ≠ some txId) {keys keys' : List KeyType}
    (hkeys : Enumerates keys (tx.map Operation.key).toFinset)
    (hkeys' : Enumerates keys' (n.localKeys tx)) :
    Returns PlainCall.step PlainCall.outcome (.start n.lockManager n.store tx txId keys) ∧
    Returns SoloCall.step SoloCall.outcome (.start n tx txId keys') ∧
    ∀ p s o o', Reachable PlainCall.step (.start n.lockManager n.store tx txId keys) p →
      Reachable SoloCall.step (.start n tx txId keys') s →
      p.outcome = some o → s.outcome = some o' →
      o = o' ∧ Meets n.lockManager n.store tx txId o := by
  refine ⟨PlainCall.returns _, SoloCall.returns hsingle tx txId keys', ?_⟩
  intro p s o o' hp hs ho ho'
  have hplain : Meets n.lockManager n.store tx txId o := by
    refine PlainInv.meets (p := p) ?_ ho
    exact hp.invariant (plainInv_start hfree hkeys) fun p l p' h _ hs =>
      h.step hfree (PlainCall.step_spec hs)
  have hsolo : Meets n.lockManager n.store tx txId o' := by
    obtain ⟨q, hq, hsame⟩ := exists_sameCall hsingle hs
    rw [localKeys_of_coordinator_none hsingle] at hkeys'
    refine PlainInv.meets (p := q) ?_ (hsame.outcome_eq ho')
    clear hsame
    induction hq with
    | refl => exact plainInv_start hfree hkeys'
    | tail _ hstep ih => exact ih.step hfree hstep
  exact ⟨hplain.unique hsolo, hplain⟩

end Executors

/-- Transaction 4 owns key 9. -/
def foreignNode : Node :=
  { Node.fresh SingleNode.aloneRouting SingleNode.emptyStore with
    lockManager := LockManager.empty.setOwner 9 (some 4) }

/-- Append to key 1, and read keys 1 and 2. -/
def appendReads : Transaction := [.append 1 7, .read 1, .read 2]

/-- Append to key 1, and read key 9. -/
def appendReadForeign : Transaction := [.append 1 7, .read 9]

/-- Transaction 5; the two executors lock the keys in different orders.  The first transaction gets
all its keys, the second one does not. -/
theorem executors_agree_foreign :
    (∃ p s o, Reachable PlainCall.step
        (.start foreignNode.lockManager foreignNode.store appendReads 5 [1, 2]) p ∧
      Reachable SoloCall.step (.start foreignNode appendReads 5 [2, 1]) s ∧
      p.outcome = some o ∧ s.outcome = some o ∧
      o.aborted = false ∧ o.results = [(1, some [7]), (2, none)] ∧ o.store.get 1 = some [7]) ∧
    ∃ p s o, Reachable PlainCall.step
        (.start foreignNode.lockManager foreignNode.store appendReadForeign 5 [1, 9]) p ∧
      Reachable SoloCall.step (.start foreignNode appendReadForeign 5 [9, 1]) s ∧
      p.outcome = some o ∧ s.outcome = some o ∧
      o.aborted = true ∧ o.results = [] ∧ o.store.get 1 = none ∧ o.owner 9 = some 4 := by
  have hfree : ∀ k, foreignNode.lockManager.owner k ≠ some 5 := by
    intro k
    simp only [foreignNode, LockManager.owner_setOwner, LockManager.owner_empty]
    split <;> decide
  -- both calls return, and with one outcome
  have hboth : ∀ tx keys keys', Enumerates keys (tx.map Operation.key).toFinset →
      Enumerates keys' (foreignNode.localKeys tx) → ∃ p s o,
        Reachable PlainCall.step (.start foreignNode.lockManager foreignNode.store tx 5 keys) p ∧
        Reachable SoloCall.step (.start foreignNode tx 5 keys') s ∧
        p.outcome = some o ∧ s.outcome = some o ∧
        Meets foreignNode.lockManager foreignNode.store tx 5 o := by
    intro tx keys keys' hkeys hkeys'
    obtain ⟨hplain, hsolo, hagree⟩ := executors_agree rfl tx hfree hkeys hkeys'
    obtain ⟨p, o, hp, ho⟩ := hplain.exists_result
    obtain ⟨s, o', hs, ho'⟩ := hsolo.exists_result
    obtain ⟨rfl, hmeets⟩ := hagree p s o o' hp hs ho ho'
    exact ⟨p, s, o, hp, hs, ho, ho', hmeets⟩
  constructor
  · obtain ⟨p, s, o, hp, hs, ho, ho', hmeets⟩ :=
      hboth appendReads [1, 2] [2, 1] (by decide) (by decide)
    have hnone : ∀ op ∈ appendReads, foreignNode.lockManager.owner op.key = none := by decide
    have hran : o.aborted = false := by
      rw [← Bool.not_eq_true, hmeets.aborted_iff]
      rintro ⟨op, hop, owner, howner, -⟩
      rw [hnone op hop] at howner
      exact absurd howner (by simp)
    obtain ⟨hstore, hresults⟩ := hmeets.of_ran hran
    refine ⟨p, s, o, hp, hs, ho, ho', hran, ?_, ?_⟩
    · rw [hresults]
      decide
    · rw [hstore]
      decide
  · obtain ⟨p, s, o, hp, hs, ho, ho', hmeets⟩ :=
      hboth appendReadForeign [1, 9] [9, 1] (by decide) (by decide)
    have haborted : o.aborted = true :=
      hmeets.aborted_iff.mpr ⟨.read 9, by decide, 4, by decide, by decide⟩
    obtain ⟨hstore, hresults⟩ := hmeets.of_aborted haborted
    refine ⟨p, s, o, hp, hs, ho, ho', haborted, hresults, ?_, ?_⟩
    · rw [hstore]
      decide
    · rw [hmeets.owner]
      decide

end TwoPL
