/-
# Runs that end

A system terminates from a state when no infinite run starts there (`Terminates`).  The rule for
proving it is the usual one: a measure in a well-founded order that every step decreases.

For a system of several parties the measure is one of each party (`terminates_of_parties`): a step
decreases that of the party that moves and leaves the others'.  With finitely many parties the
product order is well-founded, so the measures need not be numbers, and no bound on the length of a
run has to be known.

A system that a terminating one simulates terminates too (`terminates_of_simulation`), provided that
it does not go on forever with steps that the other one answers with none.

A system with idle steps (somebody wakes up and goes back to sleep) does not terminate, but it can
still settle: an infinite run stops changing the state (`Settles`).  The rule is the same, with idle
steps allowed.  What a settled system is left with is said by `Run.exists_rest`: if the measure can
be decreased wherever the system is not at rest, rest can be reached from everywhere.
-/
import Mathlib.Algebra.BigOperators.Pi
import Mathlib.Data.DFinsupp.WellFounded
import TwoPL.Lib.Runs

namespace TwoPL.Lib

variable {S L ρ ι : Type*} {step : S → L → Option S} {s₀ : S}

/-- No infinite run starts at `s₀`. -/
def Terminates (step : S → L → Option S) (s₀ : S) : Prop :=
  ¬ ∃ run : ℕ → S, run 0 = s₀ ∧ ∀ n, ∃ l, step (run n) l = some (run (n + 1))

/-- No infinite run whose steps all meet `ok` starts at `s₀`. -/
def TerminatesWithin (step : S → L → Option S) (ok : S → L → Prop) (s₀ : S) : Prop :=
  ¬ ∃ run : ℕ → S, run 0 = s₀ ∧
    ∀ n, ∃ l, ok (run n) l ∧ step (run n) l = some (run (n + 1))

/-- Where no infinite run starts, one may argue by induction on the steps. -/
theorem acc_of_terminates (h : Terminates step s₀) :
    Acc (fun s' s => ∃ l, step s l = some s') s₀ := by
  by_contra hacc
  obtain ⟨run, hrun⟩ := not_acc_iff_exists_descending_chain.mp hacc
  exact h ⟨run, hrun⟩

/-- Where no infinite run starts, some state is reached from which there is no step. -/
theorem exists_stuck_of_terminates (h : Terminates step s₀) :
    ∃ s, Reachable step s₀ s ∧ ∀ l, step s l = none := by
  induction acc_of_terminates h with
  | intro s _ ih =>
    by_cases hstuck : ∀ l, step s l = none
    · exact ⟨s, .refl, hstuck⟩
    · push Not at hstuck
      obtain ⟨l, hl⟩ := hstuck
      obtain ⟨s', hs⟩ := Option.ne_none_iff_exists'.mp hl
      have hrest : Terminates step s' := by
        rintro ⟨run, rfl, hrun⟩
        refine h ⟨fun n => n.casesOn s run, rfl, fun n => ?_⟩
        cases n with
        | zero => exact ⟨l, hs⟩
        | succ n => exact hrun n
      obtain ⟨s'', hr, hend⟩ := ih s' ⟨l, hs⟩ hrest
      exact ⟨s'', (Run.tail .refl trivial hs : Reachable step s s').trans hr, hend⟩

/-- The states of an infinite run are all reached. -/
theorem reachable_of_infinite {run : ℕ → S} (h₀ : run 0 = s₀)
    (hrun : ∀ n, ∃ l, step (run n) l = some (run (n + 1))) (n : ℕ) :
    Reachable step s₀ (run n) := by
  induction n with
  | zero => exact h₀ ▸ .refl
  | succ n ih =>
    obtain ⟨l, hl⟩ := hrun n
    exact ih.tail trivial hl

/-- **The measure rule.** -/
theorem terminates_of_measure [LT ρ] [WellFoundedLT ρ] (μ : S → ρ)
    (hdec : ∀ s l s', Reachable step s₀ s → step s l = some s' → μ s' < μ s) :
    Terminates step s₀ := by
  rintro ⟨run, h₀, hrun⟩
  refine (wellFounded_iff_isEmpty_descending_chain.mp (wellFounded_lt (α := ρ))).false
    ⟨fun n => μ (run n), fun n => ?_⟩
  obtain ⟨l, hl⟩ := hrun n
  exact hdec _ l _ (reachable_of_infinite h₀ hrun n) hl

/-- One party's measure goes down, the others stay. -/
theorem lt_of_party [Preorder ρ] {a b : ι → ρ} {i : ι} (hi : a i < b i)
    (hothers : ∀ j, j ≠ i → a j = b j) : a < b := by
  refine lt_of_le_not_ge (fun j => ?_) fun hge => lt_irrefl _ (lt_of_lt_of_le hi (hge i))
  by_cases hj : j = i
  · exact hj ▸ hi.le
  · exact (hothers j hj).le

/-- **The measure rule for several parties.** -/
theorem terminates_of_parties [Finite ι] [Preorder ρ] [WellFoundedLT ρ] (μ : S → ι → ρ)
    (hdec : ∀ s l s', Reachable step s₀ s → step s l = some s' →
      ∃ i, μ s' i < μ s i ∧ ∀ j, j ≠ i → μ s' j = μ s j) :
    Terminates step s₀ := by
  have hwf : WellFoundedLT (ι → ρ) := Pi.wellFoundedLT
  refine terminates_of_measure μ fun s l s' hr hs => ?_
  obtain ⟨i, hi, hothers⟩ := hdec s l s' hr hs
  exact lt_of_party hi hothers

/-- **Termination by simulation.**  Every step is matched by a step of a relation that decreases a
measure, or by none and decreases a rank. -/
theorem terminates_of_simulation {A : Type*} [PartialOrder ρ] [WellFoundedLT ρ] {R : S → A → Prop}
    {astep : A → A → Prop} {a₀ : A} (μ : A → ρ) (rank : S → ℕ) (h₀ : R s₀ a₀)
    (hμ : ∀ a a', astep a a' → μ a' < μ a)
    (hstep : ∀ s l s' a, R s a → step s l = some s' →
      (∃ a', astep a a' ∧ R s' a') ∨ (R s' a ∧ rank s' < rank s)) : Terminates step s₀ := by
  -- by induction on the measure and, where it stays, on the rank
  suffices hall : ∀ (x : ρ ×ₗ ℕ) (s : S) (a : A), R s a → toLex (μ a, rank s) = x →
      Terminates step s from hall _ s₀ a₀ h₀ rfl
  intro x
  induction x using WellFoundedLT.induction with
  | ind x ih =>
    rintro s a hR rfl ⟨run, hrun₀, hrun⟩
    obtain ⟨l, hl⟩ := hrun 0
    rw [hrun₀] at hl
    have hrest : ¬ Terminates step (run 1) := fun h =>
      h ⟨fun n => run (n + 1), rfl, fun n => hrun (n + 1)⟩
    rcases hstep s l (run 1) a hR hl with ⟨a', ha, hR'⟩ | ⟨hR', hrank⟩
    · have hlt : toLex (μ a', rank (run 1)) < toLex (μ a, rank s) :=
        Prod.Lex.toLex_lt_toLex.mpr (.inl (hμ a a' ha))
      exact hrest (ih _ hlt (run 1) a' hR' rfl)
    · have hlt : toLex (μ a, rank (run 1)) < toLex (μ a, rank s) :=
        Prod.Lex.toLex_lt_toLex.mpr (.inr ⟨rfl, hrank⟩)
      exact hrest (ih _ hlt (run 1) a hR' rfl)

/-- A sum over a family with one member replaced. -/
theorem sum_update_add {α β : Type*} [Fintype α] [DecidableEq α] (f : α → β) (g : β → ℕ) (a : α)
    (b : β) : ∑ x, g (Function.update f a b x) + g (f a) = ∑ x, g (f x) + g b := by
  have hcomp : (fun x => g (Function.update f a b x)) = Function.update (g ∘ f) a (g b) :=
    Function.comp_update g f a b
  have hsum := Finset.add_sum_erase Finset.univ (g ∘ f) (Finset.mem_univ a)
  rw [hcomp, Finset.sum_update_of_mem (Finset.mem_univ a), ← Finset.erase_eq]
  simp only [Function.comp_apply] at hsum ⊢
  omega

/-- Every infinite run stops changing the state. -/
def Settles (step : S → L → Option S) (s₀ : S) : Prop :=
  ∀ run : ℕ → S, run 0 = s₀ → (∀ n, ∃ l, step (run n) l = some (run (n + 1))) →
    ∃ n, ∀ m, n ≤ m → run m = run n

/-- **The measure rule, with idle steps.** -/
theorem settles_of_measure [LT ρ] [WellFoundedLT ρ] (μ : S → ρ)
    (hdec : ∀ s l s', Reachable step s₀ s → step s l = some s' → s' = s ∨ μ s' < μ s) :
    Settles step s₀ := by
  intro run h₀ hrun
  -- from where the measure is least on, no step decreases it
  obtain ⟨_, ⟨n, rfl⟩, hmin⟩ := (wellFounded_lt (α := ρ)).has_min (Set.range fun n => μ (run n))
    ⟨_, 0, rfl⟩
  refine ⟨n, fun m hm => ?_⟩
  induction m, hm using Nat.le_induction with
  | base => rfl
  | succ m _ ih =>
    obtain ⟨l, hl⟩ := hrun m
    rcases hdec _ l _ (reachable_of_infinite h₀ hrun m) hl with hidle | hlt
    · exact hidle.trans ih
    · rw [ih] at hlt
      exact absurd hlt (hmin _ ⟨m + 1, rfl⟩)

/-- **Rest can be reached**, by allowed steps, when one of them decreases the measure wherever the
system is not at rest. -/
theorem Run.exists_rest [LT ρ] [WellFoundedLT ρ] (μ : S → ρ) {ok : S → L → Prop} {Rest : S → Prop}
    (hgo : ∀ s, Reachable step s₀ s → Rest s ∨
      ∃ l s', ok s l ∧ step s l = some s' ∧ μ s' < μ s)
    {s : S} (hr : Reachable step s₀ s) : ∃ s', Run step ok s s' ∧ Rest s' := by
  suffices hall : ∀ (x : ρ) (s : S), μ s = x → Reachable step s₀ s →
      ∃ s', Run step ok s s' ∧ Rest s' from hall _ s rfl hr
  intro x
  induction x using WellFoundedLT.induction with
  | ind x ih =>
    rintro s rfl hr
    rcases hgo s hr with hrest | ⟨l, s', hok, hs, hlt⟩
    · exact ⟨s, .refl, hrest⟩
    · obtain ⟨s'', hrun, hrest⟩ := ih _ hlt s' rfl (hr.tail trivial hs)
      have hone : Run step ok s s' := .tail .refl hok hs
      exact ⟨s'', hone.trans hrun, hrest⟩

/-- Every run ends, and one that cannot go on has a result. -/
structure Returns {R : Type*} (step : S → L → Option S) (result : S → Option R) (s₀ : S) :
    Prop where
  terminates : Terminates step s₀
  result_of_stuck : ∀ s, Reachable step s₀ s → (∀ l, step s l = none) → ∃ r, result s = some r

/-- So there is a run with a result. -/
theorem Returns.exists_result {R : Type*} {result : S → Option R} (h : Returns step result s₀) :
    ∃ s r, Reachable step s₀ s ∧ result s = some r := by
  obtain ⟨s, hr, hstuck⟩ := exists_stuck_of_terminates h.terminates
  obtain ⟨r, hresult⟩ := h.result_of_stuck s hr hstuck
  exact ⟨s, r, hr, hresult⟩

end TwoPL.Lib
