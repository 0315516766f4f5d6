/-
# Runs of a labelled system

A system is a partial step function: `step s l = some s'` when the label `l` is enabled at
`s` and leads to `s'`, and `none` otherwise.  A label carries everything the environment
decides (who moves, in which order a container is iterated, whether a wait times out), so
that a run is a list of labels and can be evaluated.

`Run step ok s₀ s` says that `s` is reached from `s₀` by steps that all meet `ok`.  The
condition is about the label and the state BEFORE the step; with `ok` always true a run is
an arbitrary interleaving.

Two rules carry every proof about runs:

* `Run.invariant`: what holds initially and is kept by a step that meets `ok` holds in
  every state of every run;
* `Run.simulation`: if each step of the system is matched by some steps of an abstract
  transition relation, every run is matched by an abstract run.
-/
import Mathlib.Logic.Relation

namespace TwoPL.Lib

variable {S L A : Type*}

/-! ## 1. Runs -/

/-- `s` is reached from `s₀` by steps that all meet `ok`. -/
inductive Run (step : S → L → Option S) (ok : S → L → Prop) (s₀ : S) : S → Prop
  | refl : Run step ok s₀ s₀
  | tail {s s' : S} {l : L} :
      Run step ok s₀ s → ok s l → step s l = some s' → Run step ok s₀ s'

/-- Every step is allowed: an arbitrary interleaving. -/
def anyStep : S → L → Prop := fun _ _ => True

/-- The states reached by some interleaving. -/
abbrev Reachable (step : S → L → Option S) : S → S → Prop := Run step anyStep

section Rules

variable {step : S → L → Option S} {ok : S → L → Prop} {s₀ s : S}

/-- **The invariant rule.** -/
theorem Run.invariant {I : S → Prop} (h : Run step ok s₀ s) (h₀ : I s₀)
    (hstep : ∀ s l s', I s → ok s l → step s l = some s' → I s') : I s := by
  induction h with
  | refl => exact h₀
  | tail _ hok hs ih => exact hstep _ _ _ ih hok hs

/-- The invariant rule, for an invariant whose step needs the state to be reached: the
earlier invariants of the same run are at hand. -/
theorem Run.invariant_of_run {I : S → Prop} (h : Run step ok s₀ s) (h₀ : I s₀)
    (hstep : ∀ s l s', Run step ok s₀ s → I s → ok s l → step s l = some s' → I s') : I s := by
  induction h with
  | refl => exact h₀
  | tail hr hok hs ih => exact hstep _ _ _ hr ih hok hs

/-- A run may be continued by another. -/
theorem Run.trans {s' : S} (h : Run step ok s₀ s) (h' : Run step ok s s') :
    Run step ok s₀ s' := by
  induction h' with
  | refl => exact h
  | tail _ hok hs ih => exact ih.tail hok hs

/-- A run whose steps meet a stronger condition meets the weaker one. -/
theorem Run.mono {ok' : S → L → Prop} (h : Run step ok s₀ s)
    (himp : ∀ s l, ok s l → ok' s l) : Run step ok' s₀ s := by
  induction h with
  | refl => exact .refl
  | tail _ hok hs ih => exact .tail ih (himp _ _ hok) hs

/-- The same, where the condition follows with the help of the run so far. -/
theorem Run.mono_of_run {ok' : S → L → Prop} (h : Run step ok s₀ s)
    (himp : ∀ s l s', Run step ok s₀ s → ok s l → step s l = some s' → ok' s l) :
    Run step ok' s₀ s := by
  induction h with
  | refl => exact .refl
  | tail hr hok hs ih => exact ih.tail (himp _ _ _ hr hok hs) hs

/-- Every run is a run of the unrestricted system. -/
theorem Run.reachable (h : Run step ok s₀ s) : Reachable step s₀ s :=
  h.mono fun _ _ _ => trivial

/-- **The simulation rule.**  `R` relates the initial states, and whatever a step does is
matched by finitely many abstract steps, possibly none. -/
theorem Run.simulation {R : S → A → Prop} {astep : A → A → Prop} {a₀ : A}
    (h : Run step ok s₀ s) (h₀ : R s₀ a₀)
    (hstep : ∀ s l s' a, R s a → ok s l → step s l = some s' →
      ∃ a', Relation.ReflTransGen astep a a' ∧ R s' a') :
    ∃ a, Relation.ReflTransGen astep a₀ a ∧ R s a := by
  induction h with
  | refl => exact ⟨a₀, .refl, h₀⟩
  | tail _ hok hs ih =>
    obtain ⟨a, ha, hR⟩ := ih
    obtain ⟨a', ha', hR'⟩ := hstep _ _ _ _ hR hok hs
    exact ⟨a', ha.trans ha', hR'⟩

end Rules

/-! ## 2. Runs given by their labels -/

/-- The state after the labels `ls`, when all of them are enabled in turn. -/
def runLabels (step : S → L → Option S) : S → List L → Option S
  | s, [] => some s
  | s, l :: ls => (step s l).bind fun s' => runLabels step s' ls

/-- Every label of the list meets `ok` at the state it is taken in. -/
def OkLabels (step : S → L → Option S) (ok : S → L → Prop) : S → List L → Prop
  | _, [] => True
  | s, l :: ls => ok s l ∧ ∀ s', step s l = some s' → OkLabels step ok s' ls

/-- Evaluating a list of labels that meet `ok` reaches the state it returns. -/
theorem run_of_runLabels {step : S → L → Option S} {ok : S → L → Prop} {s₀ : S} :
    ∀ (ls : List L) {s s' : S}, Run step ok s₀ s → OkLabels step ok s ls →
      runLabels step s ls = some s' → Run step ok s₀ s'
  | [], s, s', hs, _, h => by
    rw [runLabels, Option.some.injEq] at h
    exact h ▸ hs
  | l :: ls, s, s', hs, hok, h => by
    obtain ⟨t, ht, htl⟩ := Option.bind_eq_some_iff.mp h
    exact run_of_runLabels ls (hs.tail hok.1 ht) (hok.2 t ht) htl

theorem okLabels_anyStep (step : S → L → Option S) :
    ∀ (ls : List L) (s : S), OkLabels step anyStep s ls
  | [], _ => trivial
  | _ :: ls, _ => ⟨trivial, fun s' _ => okLabels_anyStep step ls s'⟩

/-- Evaluating a list of labels reaches the state it returns. -/
theorem reachable_of_runLabels {step : S → L → Option S} {s₀ s : S} (ls : List L)
    (h : runLabels step s₀ ls = some s) : Reachable step s₀ s :=
  run_of_runLabels ls .refl (okLabels_anyStep step ls s₀) h

/-- The state after the labels `ls`, when all of them are enabled in turn and meet a condition that
can be evaluated. -/
def runChecked (step : S → L → Option S) (ok : S → L → Bool) : S → List L → Option S
  | s, [] => some s
  | s, l :: ls => if ok s l then (step s l).bind fun s' => runChecked step ok s' ls else none

theorem run_of_runChecked {step : S → L → Option S} {ok : S → L → Bool} {s₀ : S} :
    ∀ (ls : List L) {s s' : S}, Run step (fun s l => ok s l = true) s₀ s →
      runChecked step ok s ls = some s' → Run step (fun s l => ok s l = true) s₀ s'
  | [], s, s', hs, h => by
    rw [runChecked, Option.some.injEq] at h
    exact h ▸ hs
  | l :: ls, s, s', hs, h => by
    rw [runChecked] at h
    split at h
    · rename_i hok
      obtain ⟨t, ht, htl⟩ := Option.bind_eq_some_iff.mp h
      exact run_of_runChecked ls (hs.tail hok ht) htl
    · exact absurd h (by simp)

/-- Evaluating a list of labels whose steps meet the condition reaches a state that meets what can be
evaluated of it. -/
theorem exists_run_of_runChecked {step : S → L → Option S} {ok : S → L → Prop} {facts : S → Prop}
    [∀ s l, Decidable (ok s l)] [∀ s, Decidable (facts s)] {s₀ : S} (ls : List L)
    (h : ((runChecked step (fun s l => decide (ok s l)) s₀ ls).map fun s => decide (facts s))
      = some true) : ∃ s, Run step ok s₀ s ∧ facts s := by
  obtain ⟨s, hs, hfacts⟩ := Option.map_eq_some_iff.mp h
  have hr := run_of_runChecked ls .refl hs
  exact ⟨s, hr.mono fun _ _ => of_decide_eq_true, of_decide_eq_true hfacts⟩

/-- **The simulation rule for labels.**  Each step is matched by the abstract step of the same
label, or by none: then so is a run, by some of its labels. -/
theorem runLabels_simulation {A : Type*} {R : S → A → Prop} {step : S → L → Option S}
    {astep : A → L → Option A}
    (hstep : ∀ s l s' a, R s a → step s l = some s' →
      R s' a ∨ ∃ a', astep a l = some a' ∧ R s' a') :
    ∀ (ls : List L) {s s' : S} {a : A}, R s a → runLabels step s ls = some s' →
      ∃ ls' a', ls'.Sublist ls ∧ runLabels astep a ls' = some a' ∧ R s' a'
  | [], s, s', a, hR, h => by
    rw [runLabels, Option.some.injEq] at h
    exact ⟨[], a, List.Sublist.refl [], rfl, h ▸ hR⟩
  | l :: ls, s, s', a, hR, h => by
    obtain ⟨t, ht, htl⟩ := Option.bind_eq_some_iff.mp h
    rcases hstep s l t a hR ht with hsame | ⟨a₁, ha₁, hR₁⟩
    · obtain ⟨ls', a', hsub, hrun, hR'⟩ := runLabels_simulation hstep ls hsame htl
      exact ⟨ls', a', hsub.cons l, hrun, hR'⟩
    · obtain ⟨ls', a', hsub, hrun, hR'⟩ := runLabels_simulation hstep ls hR₁ htl
      refine ⟨l :: ls', a', hsub.cons_cons l, ?_, hR'⟩
      rw [runLabels, ha₁, Option.bind_some, hrun]

/-- A list of labels may be evaluated in two parts. -/
theorem runLabels_append (step : S → L → Option S) :
    ∀ (ls ms : List L) (s : S),
      runLabels step s (ls ++ ms) = (runLabels step s ls).bind fun s' => runLabels step s' ms
  | [], ms, s => by simp [runLabels]
  | l :: ls, ms, s => by
    simp only [List.cons_append, runLabels, Option.bind_assoc]
    congr 1
    funext s'
    exact runLabels_append step ls ms s'

/-! ## 3. Histories of several parties -/

section Parties

variable {ι E : Type*} [DecidableEq ι]

/-- The events of one party. -/
def eventsOf (hist : List (ι × E)) (i : ι) : List E :=
  hist.filterMap fun e => if e.1 = i then some e.2 else none

theorem mem_eventsOf {hist : List (ι × E)} {i : ι} {e : E} :
    e ∈ eventsOf hist i ↔ (i, e) ∈ hist := by
  simp only [eventsOf, List.mem_filterMap]
  constructor
  · rintro ⟨⟨j, e'⟩, hmem, heq⟩
    split at heq
    · rename_i hj
      rw [Option.some.injEq] at heq
      exact hj ▸ heq ▸ hmem
    · exact absurd heq (by simp)
  · exact fun h => ⟨(i, e), h, by simp⟩

theorem eventsOf_append (hist hist' : List (ι × E)) (i : ι) :
    eventsOf (hist ++ hist') i = eventsOf hist i ++ eventsOf hist' i := List.filterMap_append

/-- Events of one party, seen by it and by another. -/
theorem eventsOf_map_self (events : List E) (i : ι) :
    eventsOf (events.map (Prod.mk i)) i = events := by
  induction events with
  | nil => rfl
  | cons e events ih =>
    have hcons : eventsOf ((e :: events).map (Prod.mk i)) i
        = e :: eventsOf (events.map (Prod.mk i)) i := by simp [eventsOf]
    rw [hcons, ih]

theorem eventsOf_map_of_ne (events : List E) {i j : ι} (h : j ≠ i) :
    eventsOf (events.map (Prod.mk i)) j = [] := by
  simp [eventsOf, h.symm]

end Parties

/-! ## 4. The order of events in a history -/

/-- `x` happened, and `y` happened after it. -/
def Precedes {E : Type*} (h : List E) (x y : E) : Prop :=
  ∃ h₁ h₂, h = h₁ ++ h₂ ∧ x ∈ h₁ ∧ y ∈ h₂

/-- An event that is new at the end of the history comes before nothing. -/
theorem Precedes.of_append_right {E : Type*} {h : List E} {x y e : E}
    (hp : Precedes (h ++ [e]) x y) (hy : y ≠ e) : Precedes h x y := by
  obtain ⟨h₁, h₂, heq, hx, hy₂⟩ := hp
  rcases List.eq_nil_or_concat h₂ with rfl | ⟨t, z, rfl⟩
  · simp at hy₂
  · rw [List.concat_eq_append, ← List.append_assoc] at heq
    obtain ⟨rfl, hz⟩ := List.append_inj' heq rfl
    rw [List.concat_eq_append, List.mem_append, List.mem_singleton] at hy₂
    rcases hy₂ with hy₂ | rfl
    · exact ⟨h₁, t, rfl, hx, hy₂⟩
    · exact absurd (List.singleton_inj.mp hz).symm hy

/-- The order of what has happened does not change. -/
theorem Precedes.append_right {E : Type*} {h : List E} {x y : E} (hp : Precedes h x y)
    (h' : List E) : Precedes (h ++ h') x y := by
  obtain ⟨h₁, h₂, rfl, hx, hy⟩ := hp
  exact ⟨h₁, h₂ ++ h', List.append_assoc .., hx, List.mem_append_left _ hy⟩

/-- Whatever has happened precedes an event that is new. -/
theorem precedes_concat {E : Type*} {h : List E} {x : E} (hx : x ∈ h) (y : E) :
    Precedes (h ++ [y]) x y :=
  ⟨h, [y], rfl, hx, List.mem_singleton_self y⟩

/-- What precedes has happened. -/
theorem Precedes.mem_left {E : Type*} {h : List E} {x y : E} (hp : Precedes h x y) : x ∈ h := by
  obtain ⟨h₁, h₂, rfl, hx, -⟩ := hp
  exact List.mem_append_left _ hx

/-- The order of events survives a projection of the history. -/
theorem Precedes.filterMap {E F : Type*} {f : E → Option F} {h : List E} {x y : E} {x' y' : F}
    (hp : Precedes h x y) (hx' : f x = some x') (hy' : f y = some y') :
    Precedes (h.filterMap f) x' y' := by
  obtain ⟨h₁, h₂, rfl, hx, hy⟩ := hp
  exact ⟨h₁.filterMap f, h₂.filterMap f, List.filterMap_append,
    List.mem_filterMap.mpr ⟨x, hx, hx'⟩, List.mem_filterMap.mpr ⟨y, hy, hy'⟩⟩

/-- ... and is that of the events it comes from. -/
theorem Precedes.of_filterMap {E F : Type*} {f : E → Option F} {h : List E} {x' y' : F}
    (hp : Precedes (h.filterMap f) x' y') :
    ∃ x y, Precedes h x y ∧ f x = some x' ∧ f y = some y' := by
  obtain ⟨h₁, h₂, heq, hx', hy'⟩ := hp
  obtain ⟨l₁, l₂, rfl, rfl, rfl⟩ := List.filterMap_eq_append_iff.mp heq
  obtain ⟨x, hx, hfx⟩ := List.mem_filterMap.mp hx'
  obtain ⟨y, hy, hfy⟩ := List.mem_filterMap.mp hy'
  exact ⟨x, y, ⟨l₁, l₂, rfl, hx, hy⟩, hfx, hfy⟩

/-- Something that meets `start` has happened, and since then nothing that meets `stop`. -/
def Since {E : Type*} (start stop : E → Prop) (h : List E) : Prop :=
  ∃ h₁ e h₂, h = h₁ ++ e :: h₂ ∧ start e ∧ ∀ e' ∈ h₂, ¬ stop e'

theorem not_since_nil {E : Type*} (start stop : E → Prop) : ¬ Since start stop [] := by
  rintro ⟨h₁, e, h₂, heq, -⟩
  simp at heq

/-- One more event: it starts the matter, or does not stop it. -/
theorem since_append {E : Type*} {start stop : E → Prop} {h : List E} {e : E} :
    Since start stop (h ++ [e]) ↔ start e ∨ (Since start stop h ∧ ¬ stop e) := by
  constructor
  · rintro ⟨h₁, x, h₂, heq, hx, hno⟩
    rcases List.eq_nil_or_concat h₂ with rfl | ⟨h₂, z, rfl⟩
    · obtain ⟨-, hlast⟩ := List.append_inj' heq rfl
      rw [List.singleton_inj] at hlast
      exact .inl (hlast ▸ hx)
    · rw [List.concat_eq_append, ← List.cons_append, ← List.append_assoc] at heq
      obtain ⟨rfl, hlast⟩ := List.append_inj' heq rfl
      rw [List.singleton_inj] at hlast
      subst hlast
      simp only [List.concat_eq_append, List.mem_append, List.mem_singleton] at hno
      exact .inr ⟨⟨h₁, x, h₂, rfl, hx, fun e' he' => hno e' (.inl he')⟩, hno e (.inr rfl)⟩
  · rintro (he | ⟨⟨h₁, x, h₂, rfl, hx, hno⟩, he⟩)
    · exact ⟨h, e, [], rfl, he, by simp⟩
    · refine ⟨h₁, x, h₂ ++ [e], by simp, hx, fun e' he' => ?_⟩
      rw [List.mem_append, List.mem_singleton] at he'
      rcases he' with he' | rfl
      · exact hno e' he'
      · exact he

end TwoPL.Lib
