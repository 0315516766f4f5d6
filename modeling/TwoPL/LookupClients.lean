/-
# The lookup of `acquire`

`acquire` creates the entry of its key under `table_mutex`, gives the mutex up, and only then looks
the entry up: `auto& lock_entry = lock_table.at(key)`.  The header says of the table that access to
it is protected by a mutex.  This access is not.  While another thread's `try_emplace` links a new
entry, the lookup can come back with that entry in the place of the key's own: the bucket's first
node is read after the bucket has been found.

The sections of `LockManager.lean` go on with the right entry.  Here they go on with the one that
was found (`acquireOn`), and the lookup is two steps, its begin and its end (`lookups`, after
`Lib/UnlockedLookup.lean`).  Of what the race may come to, this is the outcome that goes unnoticed:
an `out_of_range` or a crash is not modelled.

* `acquired_other_entry`: `acquire(1, 1)` returns `ACQUIRED` and nobody owns key 1;
  `release_all_leaves_entry`: then `release_all(1)` frees nothing;
* `mutual_exclusion_unless_raced`, `release_all_complete_unless_raced`: as long as no `try_emplace`
  links an entry while another thread is in its lookup, neither happens.
-/
import TwoPL.Lib.UnlockedLookup
import TwoPL.LockRecords

namespace TwoPL

open Lib

/-! ## 1. The sections of `acquire`, on the entry that was found -/

/-- One section of `acquire(key, tx_id)` that has found the entry of `entry`.  What is recorded in
`held_locks` is the key that was asked for. -/
def acquireOn (lm : LockManager) (entry key : KeyType) (txId : TransactionId)
    (stage : AcquireStage) : LockManager × (AcquireStage ⊕ AcquireResult) :=
  acquireStep lm (if stage.polls then entry else key) txId stage

@[simp] theorem acquireOn_self (lm : LockManager) (key : KeyType) (txId : TransactionId)
    (stage : AcquireStage) : acquireOn lm key key txId stage = acquireStep lm key txId stage := by
  rw [acquireOn, ite_self]

/-- The key whose entry is looked up: after the section that creates the entry. -/
def AcquireStage.wants (key : KeyType) : AcquireStage → Option KeyType
  | .emplace => none
  | _ => some key

/-- The key whose entry `lock_table.try_emplace(key)` links, if there is none yet. -/
def AcquireStage.links (lm : LockManager) (key : KeyType) : AcquireStage → Option KeyType
  | .emplace => if (lm.lockTable key).isSome then none else some key
  | _ => none

theorem AcquireStage.wants_eq {key k : KeyType} {stage : AcquireStage}
    (h : stage.wants key = some k) : k = key := by
  cases stage <;> simp_all [wants]

namespace Clients

variable {τ : Type*} [DecidableEq τ]

/-! ## 2. The threads and their lookups -/

/-- The next section of a thread's call, on the given entry if it is an `acquire`. -/
def stepOn (entry : KeyType) (w : Clients τ) : ClientLabel τ → Option (Clients τ)
  | .invoke thread req => w.step (.invoke thread req)
  | .advance thread order =>
    match w.calls thread with
    | some (.acquire key txId stage) =>
      match acquireOn w.lm entry key txId stage with
      | (lm, .inl stage') =>
        some { w with lm, calls := w.setCall thread (some (.acquire key txId stage')) }
      | (lm, .inr result) => some (w.respond thread (.acquire key txId) (some result) lm)
    | _ => w.step (.advance thread order)

/-- The key that the thread's call looks up. -/
def wants (w : Clients τ) (thread : τ) : Option KeyType :=
  match w.calls thread with
  | some (.acquire key _ stage) => stage.wants key
  | _ => none

/-- The key whose entry a step links. -/
def links (w : Clients τ) : ClientLabel τ → Option KeyType
  | .invoke _ _ => none
  | .advance thread _ =>
    match w.calls thread with
    | some (.acquire key _ stage) => stage.links w.lm key
    | _ => none

/-- The thread that takes a step. -/
def mover : ClientLabel τ → τ
  | .invoke thread _ => thread
  | .advance thread _ => thread

omit [DecidableEq τ] in
theorem wants_cases {w : Clients τ} {thread : τ} {k : KeyType} (h : w.wants thread = some k) :
    ∃ txId stage, w.calls thread = some (.acquire k txId stage) := by
  unfold wants at h
  split at h
  · rename_i key txId stage hcall
    exact ⟨txId, stage, by rw [hcall, AcquireStage.wants_eq h]⟩
  · exact absurd h (by simp)

/-- A thread that has looked an entry up is in the same call until it wants none any more. -/
theorem wants_of_step {w w' : Clients τ} {l : ClientLabel τ} {th : τ} {k k' : KeyType}
    (hs : w.step l = some w') (h : w.wants th = some k) (h' : w'.wants th = some k') : k' = k := by
  obtain ⟨txId, stage, hcall⟩ := wants_cases h
  obtain ⟨txId', stage', hcall'⟩ := wants_cases h'
  -- the calls of the others stay, and that of the thread that moves keeps its key
  have hother : ∀ thread c, w'.calls = w.setCall thread c → th ≠ thread → k' = k := by
    intro thread c hcalls hne
    rw [hcalls, setCall, Function.update_of_ne hne, hcall, Option.some.injEq,
      Call.acquire.injEq] at hcall'
    exact hcall'.1.symm
  cases l with
  | invoke thread req =>
    cases stepped_of_step hs with
    | invoke hidle =>
      refine hother thread _ rfl ?_
      rintro rfl
      rw [hidle] at hcall
      exact absurd hcall (by simp)
  | advance thread order =>
    by_cases hth : th = thread
    · subst hth
      cases sectioned_of_step hs with
      | acquiring hc _ =>
        rw [hcall, Option.some.injEq, Call.acquire.injEq] at hc
        simp only [setCall, Function.update_self, Option.some.injEq, Call.acquire.injEq] at hcall'
        rw [hc.1, hcall'.1]
      | acquired _ _ | released _ | releasingAll _ _ | releasedAll _ _ =>
        simp [respond, setCall] at hcall'
    · cases sectioned_of_step hs with
      | acquiring _ _ | acquired _ _ | released _ | releasingAll _ _ | releasedAll _ _ =>
        exact hother thread _ rfl hth

variable (τ) in
/-- The threads, with the lookup of `acquire` as a step. -/
def lookups : Lookups (Clients τ) (ClientLabel τ) τ KeyType where
  step := step
  stepOn := stepOn
  party l := some (mover l)
  wants := wants
  links w l _ := w.links l
  origin _ _ p := p
  stepOn_self {w l p k} hp hk := by
    obtain rfl := Option.some.inj hp
    obtain ⟨txId, stage, hcall⟩ := wants_cases hk
    cases l with
    | invoke thread req => rfl
    | advance thread order =>
      have hcall : w.calls thread = some (.acquire k txId stage) := hcall
      rcases hres : acquireStep w.lm k txId stage with ⟨lm, stage' | result⟩ <;>
        simp only [stepOn, step, hcall, acquireOn_self, hres]
  wants_eq hs h h' := wants_of_step hs h h'

/-! ## 3. Mutual exclusion -/

/-- Thread `false` acquires key 1 for transaction 1.  While its lookup is under way, thread `true`
links the entry of key 2. -/
def racedLabels : List (RaceLabel (ClientLabel Bool) Bool KeyType) :=
  [.act (.invoke false (.acquire 1 1)), .act (.advance false []), .search false,
    .act (.invoke true (.acquire 2 2)), .act (.advance true []), .find false 2,
    .act (.advance false []), .act (.advance false [])]

/-- **An `acquire` that got the entry of another key.**  `acquire(1, 1)` has returned `ACQUIRED`, and
the entry of key 1 names nobody: transaction 1 owns key 2. -/
theorem acquired_other_entry :
    ∃ w, Run (lookups Bool).raceStep (Lookups.OnActs NoOverlap) (Lookups.start (initial Bool)) w ∧
      Holds w.sys.hist 1 1 ∧ w.sys.lm.lockTable 1 = some ⟨none⟩ ∧
      w.sys.lm.lockTable 2 = some ⟨some 1⟩ := by
  obtain ⟨w, hr, hhist, h1, h2⟩ : ∃ w, Run (lookups Bool).raceStep (Lookups.OnActs NoOverlap)
      (Lookups.start (initial Bool)) w ∧ w.sys.hist = [.invoked false (.acquire 1 1),
        .invoked true (.acquire 2 2), .responded false (.acquire 1 1) (some .ACQUIRED)] ∧
      w.sys.lm.lockTable 1 = some ⟨none⟩ ∧ w.sys.lm.lockTable 2 = some ⟨some 1⟩ :=
    exists_run_of_runChecked racedLabels (by decide +kernel)
  exact ⟨w, hr, ⟨false, [_, _], [], hhist, by simp⟩, h1, h2⟩

/-- **Mutual exclusion, unless a lookup is raced.**  In every run in which the calls for one
transaction do not overlap, and no `try_emplace` links an entry while another thread looks its own
up: while `t` holds `k`, the entry of `k` names `t`, the next step grants `k` to nobody else, and a
`release` or `release_all` of another transaction leaves the owner of `k` alone. -/
theorem mutual_exclusion_unless_raced {w : Racing (Clients τ) τ KeyType}
    (hr : Run (lookups τ).raceStep ((lookups τ).RaceFreeAnd NoOverlap)
      (Lookups.start (initial τ)) w)
    {k : KeyType} {t : TransactionId} (hheld : Holds w.sys.hist k t) :
    w.sys.lm.lockTable k = some ⟨some t⟩ ∧
      ∀ x w', (lookups τ).RaceFreeAnd NoOverlap w x → (lookups τ).raceStep w x = some w' →
        (∀ thread t', t' ≠ t →
          w'.sys.hist ≠ w.sys.hist ++ [.responded thread (.acquire k t') (some .ACQUIRED)]) ∧
        (∀ thread order c t', t' ≠ t → x = .act (.advance thread order) →
          w.sys.calls thread = some c → c.request = .release k t' ∨ c.request = .releaseAll t' →
          w'.sys.lm.owner k = w.sys.lm.owner k) := by
  obtain ⟨hrun, hsound⟩ := Lookups.run_of_raceRun hr
  obtain ⟨hentry, hnext⟩ := mutual_exclusion hrun hheld
  refine ⟨hentry, fun x w' hok hs => ?_⟩
  rcases Lookups.sys_of_raceStep hsound hs with ⟨l, rfl, hstep⟩ | ⟨hnot, hsame⟩
  · obtain ⟨hgrant, hrelease⟩ := hnext l w'.sys (hok.2 l rfl) hstep
    refine ⟨hgrant, fun thread order c t' hne hl => hrelease thread order c t' hne ?_⟩
    exact RaceLabel.act.inj hl
  · rw [hsame]
    exact ⟨fun thread t' _ => by simp, fun thread order c t' _ hx => absurd hx (hnot _)⟩

/-- Thread `false` acquires key 7 for transaction 1; thread `true` asks for it for transaction 2 and
polls once.  Their lookups overlap each other, which does no harm: the entry is there. -/
def contendedLabels : List (RaceLabel (ClientLabel Bool) Bool KeyType) :=
  [.act (.invoke false (.acquire 7 1)), .act (.advance false []),
    .act (.invoke true (.acquire 7 2)), .act (.advance true []), .search false, .search true,
    .find false 7, .act (.advance false []), .act (.advance false []), .find true 7,
    .act (.advance true []), .act (.advance true [])]

theorem mutual_exclusion_contended :
    ∃ w, Run (lookups Bool).raceStep ((lookups Bool).RaceFreeAnd NoOverlap)
        (Lookups.start (initial Bool)) w ∧
      w.sys.calls true = some (.acquire 7 2 (.spin 1)) ∧ Holds w.sys.hist 7 1 ∧
      w.sys.lm.lockTable 7 = some ⟨some 1⟩ := by
  obtain ⟨w, hr, hcall, hhist⟩ : ∃ w, Run (lookups Bool).raceStep
      ((lookups Bool).RaceFreeAnd NoOverlap) (Lookups.start (initial Bool)) w ∧
      w.sys.calls true = some (.acquire 7 2 (.spin 1)) ∧
      w.sys.hist = [.invoked false (.acquire 7 1), .invoked true (.acquire 7 2),
        .responded false (.acquire 7 1) (some .ACQUIRED)] :=
    exists_run_of_runChecked contendedLabels (by decide +kernel)
  have hheld : Holds w.sys.hist 7 1 := ⟨false, [_, _], [], hhist, by simp⟩
  exact ⟨w, hr, hcall, hheld, (mutual_exclusion_unless_raced hr hheld).1⟩

/-! ## 4. `release_all` -/

/-- Then transaction 1 gives everything back, and its `release_all` is about to return. -/
def racedReleaseLabels : List (RaceLabel (ClientLabel Bool) Bool KeyType) :=
  racedLabels ++ [.act (.invoke false (.releaseAll 1)), .act (.advance false [1]),
    .act (.advance false [])]

/-- **A `release_all` that frees nothing**: it knows of key 1 only, and key 2 stays with
transaction 1 when it returns. -/
theorem release_all_leaves_entry :
    ∃ w w', Run (lookups Bool).raceStep (Lookups.OnActs (NoOverlapFor 1))
        (Lookups.start (initial Bool)) w ∧
      w.sys.calls false = some (.releaseAll 1 (.releasing [])) ∧
      (lookups Bool).raceStep w (.act (.advance false [])) = some w' ∧
      w'.sys.calls false = none ∧ w'.sys.lm.lockTable 2 = some ⟨some 1⟩ := by
  obtain ⟨w, hr, hcall, h2⟩ : ∃ w, Run (lookups Bool).raceStep
      (Lookups.OnActs (NoOverlapFor 1)) (Lookups.start (initial Bool)) w ∧
      w.sys.calls false = some (.releaseAll 1 (.releasing [])) ∧
      w.sys.lm.lockTable 2 = some ⟨some 1⟩ :=
    exists_run_of_runChecked racedReleaseLabels (by decide +kernel)
  have hs : (lookups Bool).step w.sys (.advance false [])
      = some (w.sys.respond false (.releaseAll 1) none w.sys.lm) := by
    simp only [lookups, step, hcall, releaseAllStep]
  have hwanted : (lookups Bool).wanted w.sys (.advance false []) = none := by
    simp [Lookups.wanted, lookups, mover, wants, hcall]
  exact ⟨w, _, hr, hcall, Lookups.raceStep_of_wanted_none hwanted hs,
    by simp [Lookups.after, respond, setCall], h2⟩

/-- **`release_all(t)` is complete and touches nothing else, unless a lookup is raced.**  In every
run in which the calls for `t` do not overlap, and no `try_emplace` links an entry while another
thread looks its own up: no section of `release_all(t)` changes the set of another transaction or
the owner of a key that another transaction owns; and when it returns, `t` owns no key and has no
set in `held_locks`. -/
theorem release_all_complete_unless_raced {t : TransactionId}
    {w w' : Racing (Clients τ) τ KeyType}
    (hr : Run (lookups τ).raceStep ((lookups τ).RaceFreeAnd (NoOverlapFor t))
      (Lookups.start (initial τ)) w)
    {thread : τ} {order : List KeyType} {stage : ReleaseAllStage}
    (hc : w.sys.calls thread = some (.releaseAll t stage))
    (hs : (lookups τ).raceStep w (.act (.advance thread order)) = some w') :
    (∀ t', t' ≠ t → w'.sys.lm.heldLocks t' = w.sys.lm.heldLocks t' ∧
      ∀ k, w.sys.lm.owner k = some t' → w'.sys.lm.owner k = some t') ∧
    (w'.sys.calls thread = none →
      (∀ k, w'.sys.lm.owner k ≠ some t) ∧ w'.sys.lm.heldLocks t = none) := by
  obtain ⟨hrun, hsound⟩ := Lookups.run_of_raceRun hr
  rcases Lookups.sys_of_raceStep hsound hs with ⟨l, hl, hstep⟩ | ⟨hnot, -⟩
  · obtain rfl := RaceLabel.act.inj hl
    exact release_all_complete hrun hc hstep
  · exact absurd rfl (hnot _)

/-- A call of `acquire` and its first `n` sections. -/
def acquireLabels (thread : Bool) (key : KeyType) (t : TransactionId) (n : ℕ) :
    List (ClientLabel Bool) :=
  .invoke thread (.acquire key t) :: List.replicate n (.advance thread [])

/-- Transaction 2 owns key 8.  Transaction 1 acquires key 7, is refused key 8, acquires key 9 and
releases it, and acquires key 7 again; transaction 2 begins to wait for key 7.  Then transaction 1
gives everything back, and transaction 2 gets key 7 meanwhile. -/
def mixedLabels : List (ClientLabel Bool) :=
  acquireLabels true 8 2 3 ++ acquireLabels false 7 1 3 ++
    acquireLabels false 8 1 (2 + maxSpins + maxYields) ++ acquireLabels false 9 1 3 ++
    [.invoke false (.release 9 1), .advance false []] ++
    acquireLabels false 7 1 3 ++ acquireLabels true 7 2 3 ++
    [.invoke false (.releaseAll 1), .advance false [7, 8], .advance true [],
      .advance false [], .advance true [], .advance false []]

/-- What transaction 1 has seen by then. -/
def mixedAnswers : List (Request × Option AcquireResult) :=
  [(.acquire 7 1, some .ACQUIRED), (.acquire 8 1, some .ABORTED), (.acquire 9 1, some .ACQUIRED),
    (.release 9 1, none), (.acquire 7 1, some .ACQUIRED)]

/-- The answers to a thread. -/
def answersTo (thread : Bool) (hist : List (ClientEvent Bool)) :
    List (Request × Option AcquireResult) :=
  hist.filterMap fun
    | .responded th req result => if th = thread then some (req, result) else none
    | .invoked _ _ => none

theorem release_all_complete_mixed :
    ∃ w w', Run (lookups Bool).raceStep ((lookups Bool).RaceFreeAnd (NoOverlapFor 1))
        (Lookups.start (initial Bool)) w ∧
      answersTo false w.sys.hist = mixedAnswers ∧
      w.sys.calls false = some (.releaseAll 1 (.releasing [])) ∧
      (lookups Bool).raceStep w (.act (.advance false [])) = some w' ∧
      w'.sys.calls false = none ∧
      (∀ k, w'.sys.lm.owner k ≠ some 1) ∧ w'.sys.lm.heldLocks 1 = none ∧
      w'.sys.lm.owner 7 = some 2 ∧ w'.sys.lm.owner 8 = some 2 := by
  obtain ⟨_, hrun, hhist, hcall, h7, h8⟩ : ∃ s : Clients Bool,
      Run step (NoOverlapFor 1) (initial Bool) s ∧
      answersTo false s.hist = mixedAnswers ∧
      s.calls false = some (.releaseAll 1 (.releasing [])) ∧
      s.lm.owner 7 = some 2 ∧ s.lm.owner 8 = some 2 :=
    exists_run_of_runChecked mixedLabels (by decide +kernel)
  -- with the lookups, each made where nothing is linked
  obtain ⟨w, hr, rfl, -⟩ := Lookups.exists_raceRun (Y := lookups Bool) hrun
  have hstep : (lookups Bool).step w.sys (.advance false [])
      = some (w.sys.respond false (.releaseAll 1) none w.sys.lm) := by
    simp only [lookups, step, hcall, releaseAllStep]
  have hwanted : (lookups Bool).wanted w.sys (.advance false []) = none := by
    simp [Lookups.wanted, lookups, mover, wants, hcall]
  have hs := Lookups.raceStep_of_wanted_none hwanted hstep
  have hends : (w.sys.respond false (.releaseAll 1) none w.sys.lm).calls false = none := by
    simp [respond, setCall]
  obtain ⟨hframe, hdone⟩ := release_all_complete_unless_raced hr hcall hs
  exact ⟨w, _, hr, hhist, hcall, hs, hends, (hdone hends).1, (hdone hends).2,
    (hframe 2 (by decide)).2 7 h7, (hframe 2 (by decide)).2 8 h8⟩

end Clients

end TwoPL
