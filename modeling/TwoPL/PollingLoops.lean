/-
# The two polling loops of `acquire_with_wait_die`

`acquire_with_wait_die` looks at the owner of its entry up to 1500 times: 1000 rounds with a
`yield` between them, and then 500 with a short sleep.  Other threads change the entry between two
rounds, so that the call sees an arbitrary sequence of owners; here it is the sequence of lock
managers `tables`, poll number `i` being made on `tables i`.

Both loops take an entry without an owner.  The first one also returns `ACQUIRED` when the owner is
the caller itself.  The second one DOES NOT test for that: an entry that becomes the caller's own
only after round 1000 (by another call of the same transaction) is polled on and on, until somebody
frees it or the call gives up.

`polls_decide_iff` says that this is the only case in which the loops do not decide alike.
-/
import Mathlib.Data.Nat.Find
import TwoPL.LockManager

namespace TwoPL

/-! ## 1. The polls of one call -/

/-- The number of polls. -/
def maxPolls : ℕ := maxSpins + maxYields

/-- The round in which poll number `i` is made. -/
def pollStage (i : ℕ) : AcquireStage :=
  if i < maxSpins then .spin i else .sleep (i - maxSpins)

/-- From poll number `i` on: the number of the poll that returns, the tables it leaves and its
result. -/
def pollsFrom (tables : ℕ → LockManager) (key : KeyType) (txId : TransactionId) :
    ℕ → ℕ → AcquireStage → Option (ℕ × LockManager × AcquireResult)
  | 0, _, _ => none
  | fuel + 1, i, stage =>
    match acquireStep (tables i) key txId stage with
    | (lm, .inr result) => some (i, lm, result)
    | (_, .inl stage') => pollsFrom tables key txId fuel (i + 1) stage'

/-- `acquire_with_wait_die`. -/
def acquireWithWaitDie (tables : ℕ → LockManager) (key : KeyType) (txId : TransactionId) :
    Option (ℕ × LockManager × AcquireResult) :=
  pollsFrom tables key txId maxPolls 0 (pollStage 0)

section Polls

variable {tables : ℕ → LockManager} {key : KeyType} {txId : TransactionId}

/-- Poll `i` finds no owner, or the caller itself. -/
def FreeOrOwn (tables : ℕ → LockManager) (key : KeyType) (txId : TransactionId) (i : ℕ) : Prop :=
  (tables i).owner key = none ∨ (tables i).owner key = some txId

/-- Poll `i` returns `ACQUIRED`: the caller's own id counts in the first loop only. -/
def Takes (tables : ℕ → LockManager) (key : KeyType) (txId : TransactionId) (i : ℕ) : Prop :=
  (tables i).owner key = none ∨ (i < maxSpins ∧ (tables i).owner key = some txId)

theorem Takes.freeOrOwn {i : ℕ} (h : Takes tables key txId i) : FreeOrOwn tables key txId i :=
  h.imp id And.right

/-- The stage after a poll that does not return. -/
theorem pollStage_succ (i : ℕ) :
    pollStage (i + 1) = if i + 1 < maxSpins then .spin (i + 1) else .sleep (i + 1 - maxSpins) :=
  rfl

/-- **A poll that takes the key.** -/
theorem acquireStep_of_takes {i : ℕ} (h : Takes tables key txId i) :
    ∃ lm, acquireStep (tables i) key txId (pollStage i) = (lm, .inr .ACQUIRED) ∧
      lm.owner key = some txId := by
  unfold pollStage
  rcases h with hnone | ⟨hi, hown⟩
  · refine ⟨(tables i).setOwner key (some txId), ?_, by simp⟩
    split <;> simp [acquireStep, hnone]
  · refine ⟨tables i, ?_, hown⟩
    simp [hi, acquireStep, hown]

/-- **A poll that does not**: it changes nothing, and the next one follows, or the call gives up. -/
theorem acquireStep_of_not_takes {i : ℕ} (hi : i < maxPolls) (h : ¬ Takes tables key txId i) :
    acquireStep (tables i) key txId (pollStage i) =
      (tables i, if i + 1 < maxPolls then .inl (pollStage (i + 1)) else .inr .ABORTED) := by
  obtain ⟨hsome, hown⟩ := not_or.mp h
  obtain ⟨o, ho⟩ := Option.ne_none_iff_exists'.mp hsome
  unfold maxPolls at *
  by_cases hspin : i < maxSpins
  · have hne : o ≠ txId := fun e => hown ⟨hspin, e ▸ ho⟩
    have hmore : i + 1 < maxSpins + maxYields := by
      have : 0 < maxYields := by decide
      omega
    rw [if_pos hmore, pollStage, if_pos hspin, pollStage_succ]
    simp only [acquireStep, ho, if_neg hne]
    split
    · rfl
    · rename_i hlast
      rw [show i + 1 - maxSpins = 0 by omega]
  · have hnext : ¬ i + 1 < maxSpins := by omega
    rw [pollStage, if_neg hspin, pollStage_succ, if_neg hnext]
    simp only [acquireStep, ho]
    by_cases hmore : i + 1 < maxSpins + maxYields
    · rw [if_pos hmore, if_pos (by omega), show i + 1 - maxSpins = i - maxSpins + 1 by omega]
    · rw [if_neg hmore, if_neg (by omega)]

/-- The call returns `ACQUIRED` at the first poll that takes the key. -/
theorem pollsFrom_of_takes {i j : ℕ} (hij : i ≤ j) (hj : j < maxPolls)
    (htakes : Takes tables key txId j) (hfirst : ∀ l, i ≤ l → l < j → ¬ Takes tables key txId l) :
    ∃ lm, pollsFrom tables key txId (maxPolls - i) i (pollStage i) = some (j, lm, .ACQUIRED) ∧
      lm.owner key = some txId := by
  induction hn : j - i generalizing i with
  | zero =>
    have heq : i = j := by omega
    subst heq
    obtain ⟨lm, hstep, hown⟩ := acquireStep_of_takes htakes
    refine ⟨lm, ?_, hown⟩
    rw [show maxPolls - i = (maxPolls - (i + 1)) + 1 by omega, pollsFrom, hstep]
  | succ n ih =>
    have hstep := acquireStep_of_not_takes (by omega) (hfirst i le_rfl (by omega))
    rw [if_pos (by omega)] at hstep
    rw [show maxPolls - i = (maxPolls - (i + 1)) + 1 by omega, pollsFrom, hstep]
    exact ih (by omega) (fun l hl hlj => hfirst l (by omega) hlj) (by omega)

/-- ... and `ABORTED` when there is none. -/
theorem pollsFrom_of_not_takes {i : ℕ} (hi : i < maxPolls)
    (hnone : ∀ l, i ≤ l → l < maxPolls → ¬ Takes tables key txId l) :
    pollsFrom tables key txId (maxPolls - i) i (pollStage i)
      = some (maxPolls - 1, tables (maxPolls - 1), .ABORTED) := by
  induction hn : maxPolls - 1 - i generalizing i with
  | zero =>
    have heq : i = maxPolls - 1 := by omega
    have hstep := acquireStep_of_not_takes hi (hnone i le_rfl hi)
    rw [if_neg (by omega)] at hstep
    rw [show maxPolls - i = 0 + 1 by omega, pollsFrom, hstep, heq]
  | succ n ih =>
    have hstep := acquireStep_of_not_takes hi (hnone i le_rfl hi)
    rw [if_pos (by omega)] at hstep
    rw [show maxPolls - i = (maxPolls - (i + 1)) + 1 by omega, pollsFrom, hstep]
    exact ih (by omega) (fun l hl hlt => hnone l (by omega) hlt) (by omega)

/-! ## 2. When the loops decide alike -/

/-- The call returns; it returns `ACQUIRED` if and only if some poll finds no owner or the caller
itself, at the first such poll and with the key its own, and otherwise no poll has changed an
owner. -/
structure Decides (tables : ℕ → LockManager) (key : KeyType) (txId : TransactionId) (i : ℕ)
    (lm : LockManager) (result : AcquireResult) : Prop where
  returns : acquireWithWaitDie tables key txId = some (i, lm, result)
  acquired_iff : result = .ACQUIRED ↔ ∃ j, j < maxPolls ∧ FreeOrOwn tables key txId j
  first : result = .ACQUIRED → FreeOrOwn tables key txId i ∧ i < maxPolls ∧
    (∀ j, j < i → ¬ FreeOrOwn tables key txId j) ∧ lm.owner key = some txId
  unchanged : result = .ABORTED → ∀ j, j < maxPolls → ∀ k,
    (acquireStep (tables j) key txId (pollStage j)).1.owner k = (tables j).owner k

/-- The first poll that finds no owner or the caller itself, if there is one, finds no owner or is
one of the first loop. -/
def FirstInSpin (tables : ℕ → LockManager) (key : KeyType) (txId : TransactionId) : Prop :=
  ∀ j, j < maxPolls → FreeOrOwn tables key txId j →
    (∀ l, l < j → ¬ FreeOrOwn tables key txId l) →
    (tables j).owner key = none ∨ j < maxSpins

/-- The least number with a property, if there is one. -/
theorem exists_first {p : ℕ → Prop} {n : ℕ} (h : ∃ j, j < n ∧ p j) :
    ∃ j, j < n ∧ p j ∧ ∀ l, l < j → ¬ p l := by
  classical
  have hex : ∃ j, p j := h.imp fun j hj => hj.2
  obtain ⟨j, hj, hp⟩ := h
  exact ⟨Nat.find hex, lt_of_le_of_lt (Nat.find_min' hex hp) hj, Nat.find_spec hex,
    fun l hl => Nat.find_min hex hl⟩

/-- No poll takes the key: the call aborts. -/
theorem acquireWithWaitDie_aborted (h : ∀ l, l < maxPolls → ¬ Takes tables key txId l) :
    acquireWithWaitDie tables key txId
      = some (maxPolls - 1, tables (maxPolls - 1), .ABORTED) := by
  have hpos : 0 < maxPolls := by decide
  exact pollsFrom_of_not_takes hpos fun l _ hl => h l hl

/-- The first poll that takes the key returns. -/
theorem acquireWithWaitDie_acquired {j : ℕ} (hj : j < maxPolls) (htakes : Takes tables key txId j)
    (hfirst : ∀ l, l < j → ¬ Takes tables key txId l) :
    ∃ lm, acquireWithWaitDie tables key txId = some (j, lm, .ACQUIRED) ∧
      lm.owner key = some txId :=
  pollsFrom_of_takes (Nat.zero_le j) hj htakes fun l _ hl => hfirst l hl

/-- **The two loops decide alike** exactly when the caller's own id, if it is what comes first,
comes in the first loop. -/
theorem polls_decide_iff (tables : ℕ → LockManager) (key : KeyType) (txId : TransactionId) :
    (∃ i lm result, Decides tables key txId i lm result) ↔ FirstInSpin tables key txId := by
  constructor
  · rintro ⟨i, lm, result, hdec⟩ j hj hfree hfirst
    by_contra hlate
    obtain ⟨hsome, hsleep⟩ := not_or.mp hlate
    -- poll `j` finds the caller itself in the second loop, and does not return
    have hacq : result = .ACQUIRED := hdec.acquired_iff.mpr ⟨j, hj, hfree⟩
    obtain ⟨hi, hlt, hbefore, -⟩ := hdec.first hacq
    have hij : i = j := by
      rcases Nat.lt_trichotomy i j with h | h | h
      · exact absurd hi (hfirst i h)
      · exact h
      · exact absurd hfree (hbefore j h)
    have hnot : ∀ l, l ≤ j → ¬ Takes tables key txId l := by
      intro l hl htakes
      rcases Nat.lt_or_eq_of_le hl with hl | rfl
      · exact hfirst l hl htakes.freeOrOwn
      · rcases htakes with h | h
        · exact hsome h
        · exact hsleep h.1
    have hreturns := hdec.returns
    by_cases htaken : ∃ l, l < maxPolls ∧ Takes tables key txId l
    · obtain ⟨l, hl, htakes, hmin⟩ := exists_first htaken
      obtain ⟨lm', hret, -⟩ := acquireWithWaitDie_acquired hl htakes hmin
      rw [hret, Option.some.injEq, Prod.mk.injEq] at hreturns
      exact hnot l (hreturns.1.trans hij).le htakes
    · rw [acquireWithWaitDie_aborted fun l hl h => htaken ⟨l, hl, h⟩, hacq] at hreturns
      exact absurd hreturns (by simp)
  · intro hspin
    by_cases hsome : ∃ j, j < maxPolls ∧ FreeOrOwn tables key txId j
    · obtain ⟨j, hj, hfree, hfirst⟩ := exists_first hsome
      have htakes : Takes tables key txId j := by
        rcases hspin j hj hfree hfirst with hnone | hlt
        · exact .inl hnone
        · exact hfree.imp id fun hown => ⟨hlt, hown⟩
      obtain ⟨lm, hret, hown⟩ := acquireWithWaitDie_acquired hj htakes
        fun l hl h => hfirst l hl h.freeOrOwn
      exact ⟨j, lm, .ACQUIRED, hret, by simp [hsome], fun _ => ⟨hfree, hj, hfirst, hown⟩, by simp⟩
    · have hnot : ∀ l, l < maxPolls → ¬ Takes tables key txId l := fun l hl h =>
        hsome ⟨l, hl, h.freeOrOwn⟩
      refine ⟨_, _, .ABORTED, acquireWithWaitDie_aborted hnot, by simp [hsome], by simp,
        fun _ j hj k => ?_⟩
      rw [acquireStep_of_not_takes hj (hnot j hj)]

/-- The key is somebody else's during the first loop, and the caller's own ever after. -/
def lateOwn (i : ℕ) : LockManager :=
  LockManager.empty.setOwner 0 (if i < 1000 then some 2 else some 1)

/-- **A key that becomes the caller's own in the second loop**: the call polls it 500 times and
aborts. -/
theorem own_key_aborted :
    (lateOwn 1000).owner 0 = some 1 ∧
      acquireWithWaitDie lateOwn 0 1 = some (1499, lateOwn 1499, .ABORTED) ∧
      ¬ ∃ i lm result, Decides lateOwn 0 1 i lm result := by
  have hown : (lateOwn 1000).owner 0 = some 1 := by decide
  have hnot : ∀ l, l < maxPolls → ¬ Takes lateOwn 0 1 l := by
    intro l _ htakes
    simp only [Takes, lateOwn, LockManager.owner_setOwner, if_true, maxSpins] at htakes
    split at htakes
    · exact absurd htakes (by simp)
    · rename_i hlate
      rcases htakes with h | h
      · exact absurd h (by simp)
      · exact hlate h.1
  have haborted := acquireWithWaitDie_aborted hnot
  refine ⟨hown, haborted, ?_⟩
  rintro ⟨i, lm, result, hdec⟩
  have hacq : result = .ACQUIRED := hdec.acquired_iff.mpr ⟨1000, by decide, .inr hown⟩
  have hreturns := hdec.returns
  rw [haborted, hacq] at hreturns
  exact absurd hreturns (by simp)

end Polls

end TwoPL
