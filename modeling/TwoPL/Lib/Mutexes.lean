/-
# Threads with blocking mutexes

A thread is a value of a type `P` of local states, and `code : P → Instr M D C P` says what it does
next: lock a mutex (which blocks while another thread has it), unlock one, run a section on the
shared data, or nothing more.  A section may depend on a choice `C` that the environment makes.

Two questions are answered by annotating the local states.

* `Disciplined`: `held x` are the mutexes a thread in `x` has, and every `lock` takes one of a
  higher rank than all of them.  Then no reachable state is a deadlock (`exists_step_of_live`): a
  thread that waits is waiting for one that waits, if at all, for a higher mutex, and ranks are
  bounded.
* a cost that every instruction decreases: then every run ends (`terminates_of_cost`).

Instructions can be relabelled (`Instr.map`), so that the code of a call is written once and its
annotations are carried into the thread that makes the call.
-/
import Mathlib.Data.Finset.Basic
import TwoPL.Lib.Termination

namespace TwoPL.Lib

/-! ## 1. Instructions, and what they lead to -/

/-- What a thread does next, and the local state after it. -/
inductive Instr (M D C P : Type*)
  | lock (m : M) (next : P)
  | unlock (m : M) (next : P)
  /-- A section on the shared data; `none` says that the choice is not possible. -/
  | run (f : D → C → Option (D × P))
  | halt

namespace Instr

variable {M D C P Q : Type*}

/-- A section that needs no choice. -/
def act (f : D → D × P) : Instr M D C P := .run fun d _ => some (f d)

def map (g : P → Q) : Instr M D C P → Instr M D C Q
  | lock m next => .lock m (g next)
  | unlock m next => .unlock m (g next)
  | run f => .run fun d c => (f d c).map (Prod.map id g)
  | halt => .halt

theorem map_eq_halt_iff {g : P → Q} {i : Instr M D C P} : i.map g = .halt ↔ i = .halt := by
  cases i <;> simp [map]

/-- Every local state that the instruction can lead to, with the data `d`, meets `R`. -/
def Leads (d : D) (R : P → Prop) : Instr M D C P → Prop
  | lock _ next => R next
  | unlock _ next => R next
  | run f => ∀ c d' next, f d c = some (d', next) → R next
  | halt => True

section Leads

variable {d : D} {m : M} {next : P} {R : P → Prop}

@[simp] theorem leads_lock : (lock m next : Instr M D C P).Leads d R ↔ R next := Iff.rfl

@[simp] theorem leads_unlock : (unlock m next : Instr M D C P).Leads d R ↔ R next := Iff.rfl

@[simp] theorem leads_act [Nonempty C] {f : D → D × P} :
    (act f : Instr M D C P).Leads d R ↔ R (f d).2 := by
  refine ⟨fun h => h (Classical.arbitrary C) _ _ rfl, fun h c d' next hf => ?_⟩
  rwa [Option.some.inj hf] at h

theorem Leads.map {g : P → Q} {R' : Q → Prop} {i : Instr M D C P} (h : i.Leads d R)
    (himp : ∀ x, R x → R' (g x)) : (i.map g).Leads d R' := by
  cases i with
  | lock m next => exact himp next h
  | unlock m next => exact himp next h
  | run f =>
    intro c d' next hf
    obtain ⟨⟨d₁, x⟩, hf', heq⟩ := Option.map_eq_some_iff.mp hf
    rw [Prod.map_apply, Prod.mk.injEq] at heq
    exact heq.2 ▸ himp x (h c d₁ x hf')
  | halt => trivial

theorem Leads.imp {R' : P → Prop} {i : Instr M D C P} (h : i.Leads d R)
    (himp : ∀ x, R x → R' x) : i.Leads d R' := by
  cases i with
  | lock m next => exact himp next h
  | unlock m next => exact himp next h
  | run f => exact fun c d' next hf => himp next (h c d' next hf)
  | halt => trivial

/-- What the relabelling gives in any case. -/
theorem leads_map {g : P → Q} {R' : Q → Prop} {i : Instr M D C P} (h : ∀ x, R' (g x)) :
    (i.map g).Leads d R' := by
  refine Leads.map (R := fun _ => True) ?_ fun x _ => h x
  cases i with
  | run f => exact fun _ _ _ _ => trivial
  | _ => trivial

end Leads

/-- Whatever the instruction does to the data `d`, and wherever it leads, meets `Q`; the first
argument is the choice. -/
def Effects (d : D) (Q : C → D → P → Prop) : Instr M D C P → Prop
  | lock _ next => ∀ c, Q c d next
  | unlock _ next => ∀ c, Q c d next
  | run f => ∀ c d' next, f d c = some (d', next) → Q c d' next
  | halt => True

section Effects

variable {d : D} {m : M} {next : P} {Q : C → D → P → Prop}

@[simp] theorem effects_lock : (lock m next : Instr M D C P).Effects d Q ↔ ∀ c, Q c d next :=
  Iff.rfl

@[simp] theorem effects_unlock : (unlock m next : Instr M D C P).Effects d Q ↔ ∀ c, Q c d next :=
  Iff.rfl

@[simp] theorem effects_act {f : D → D × P} :
    (act f : Instr M D C P).Effects d Q ↔ ∀ c, Q c (f d).1 (f d).2 := by
  constructor
  · intro h c
    exact h c _ _ rfl
  · intro h c d' next hf
    obtain ⟨rfl, rfl⟩ := Prod.mk.inj (Option.some.inj hf)
    exact h c

theorem Effects.map {P' : Type*} {g : P → P'} {Q' : C → D → P' → Prop} {i : Instr M D C P}
    (h : i.Effects d Q) (himp : ∀ c d' x, Q c d' x → Q' c d' (g x)) : (i.map g).Effects d Q' := by
  cases i with
  | lock m next => exact fun c => himp c d next (h c)
  | unlock m next => exact fun c => himp c d next (h c)
  | run f =>
    intro c d' next hf
    obtain ⟨⟨d₁, x⟩, hf', heq⟩ := Option.map_eq_some_iff.mp hf
    rw [Prod.map_apply, Prod.mk.injEq] at heq
    obtain ⟨rfl, rfl⟩ := heq
    exact himp c d₁ x (h c d₁ x hf')
  | halt => trivial

end Effects

variable [DecidableEq M]

/-- A thread that has the mutexes `has` may execute the instruction, and has those that `held` says
afterwards: it locks in the order of ranks, unlocks what it has, is never refused a section, and
has nothing when it halts. -/
def Respects (rank : M → ℕ) (has : Finset M) (held : P → Finset M) : Instr M D C P → Prop
  | lock m next => (∀ m' ∈ has, rank m' < rank m) ∧ held next = insert m has
  | unlock m next => m ∈ has ∧ held next = has.erase m
  | run f => (∀ d, ∃ c r, f d c = some r) ∧
      ∀ d c d' next, f d c = some (d', next) → held next = has
  | halt => has = ∅

section Instructions

variable {rank : M → ℕ} {has : Finset M} {held : P → Finset M}

@[simp] theorem respects_lock {m : M} {next : P} :
    (lock m next : Instr M D C P).Respects rank has held ↔
      (∀ m' ∈ has, rank m' < rank m) ∧ held next = insert m has := Iff.rfl

@[simp] theorem respects_unlock {m : M} {next : P} :
    (unlock m next : Instr M D C P).Respects rank has held ↔
      m ∈ has ∧ held next = has.erase m := Iff.rfl

@[simp] theorem respects_act [Nonempty C] {f : D → D × P} :
    (act f : Instr M D C P).Respects rank has held ↔ ∀ d, held (f d).2 = has := by
  refine ⟨fun h d => h.2 d (Classical.arbitrary C) _ _ rfl, fun h => ⟨fun d => ?_, ?_⟩⟩
  · exact ⟨Classical.arbitrary C, f d, rfl⟩
  · intro d c d' next hf
    have hd := h d
    rw [Option.some.inj hf] at hd
    exact hd

end Instructions

theorem Respects.map {rank : M → ℕ} {has : Finset M} {held : P → Finset M}
    {held' : Q → Finset M} {g : P → Q} {i : Instr M D C P} (h : i.Respects rank has held)
    (hheld : ∀ x, held' (g x) = held x) : (i.map g).Respects rank has held' := by
  cases i with
  | lock m next => exact ⟨h.1, (hheld next).trans h.2⟩
  | unlock m next => exact ⟨h.1, (hheld next).trans h.2⟩
  | run f =>
    refine ⟨fun d => ?_, fun d c d' next hf => ?_⟩
    · obtain ⟨c, r, hf⟩ := h.1 d
      exact ⟨c, Prod.map id g r, by simp [hf]⟩
    · obtain ⟨⟨d₁, x⟩, hf', heq⟩ := Option.map_eq_some_iff.mp hf
      rw [Prod.map_apply, Prod.mk.injEq] at heq
      exact heq.2 ▸ (hheld x).trans (h.2 d c d₁ x hf')
  | halt => exact h

end Instr

/-! ## 2. The system -/

/-- The shared data, who has each mutex, and where each thread is. -/
structure Threaded (τ M D P : Type*) where
  data : D
  holder : M → Option τ
  locals : τ → P

namespace Threaded

variable {τ M D C P ρ : Type*} [DecidableEq τ] [DecidableEq M] {code : P → Instr M D C P}

/-- The next instruction of a thread; a thread that waits, or has halted, makes no step. -/
def step (code : P → Instr M D C P) (s : Threaded τ M D P) :
    τ × C → Option (Threaded τ M D P)
  | (p, c) =>
    match code (s.locals p) with
    | .lock m next =>
      if s.holder m = none then
        some { s with
          holder := Function.update s.holder m (some p)
          locals := Function.update s.locals p next }
      else none
    | .unlock m next =>
      some { s with
        holder := Function.update s.holder m none
        locals := Function.update s.locals p next }
    | .run f =>
      match f s.data c with
      | some (data, next) => some { s with data, locals := Function.update s.locals p next }
      | none => none
    | .halt => none

/-- **Everything a step can do.** -/
inductive Stepped (code : P → Instr M D C P) (s : Threaded τ M D P) (p : τ) :
    Threaded τ M D P → Prop
  | lock {m next} : code (s.locals p) = .lock m next → s.holder m = none →
      Stepped code s p { s with
        holder := Function.update s.holder m (some p)
        locals := Function.update s.locals p next }
  | unlock {m next} : code (s.locals p) = .unlock m next →
      Stepped code s p { s with
        holder := Function.update s.holder m none
        locals := Function.update s.locals p next }
  | run {f c data next} : code (s.locals p) = .run f → f s.data c = some (data, next) →
      Stepped code s p { s with data, locals := Function.update s.locals p next }

theorem stepped_of_step {s s' : Threaded τ M D P} {l : τ × C} (h : s.step code l = some s') :
    Stepped code s l.1 s' := by
  obtain ⟨p, c⟩ := l
  simp only [step] at h
  split at h
  · rename_i m next hcode
    split at h
    · rename_i hfree
      rw [Option.some.injEq] at h
      exact h ▸ .lock hcode hfree
    · exact absurd h (by simp)
  · rename_i m next hcode
    rw [Option.some.injEq] at h
    exact h ▸ .unlock hcode
  · rename_i f hcode
    split at h
    · rename_i data next hf
      rw [Option.some.injEq] at h
      exact h ▸ .run hcode hf
    · exact absurd h (by simp)
  · exact absurd h (by simp)

/-- The other threads stay where they are. -/
theorem Stepped.locals_of_ne {s s' : Threaded τ M D P} {p q : τ} (h : Stepped code s p s')
    (hq : q ≠ p) : s'.locals q = s.locals q := by
  cases h <;> exact Function.update_of_ne hq _ _

/-- The thread that moves is where its instruction leads. -/
theorem Stepped.leads {s s' : Threaded τ M D P} {p : τ} {R : P → Prop}
    (h : Stepped code s p s') (hR : (code (s.locals p)).Leads s.data R) : R (s'.locals p) := by
  cases h with
  | lock hcode _ =>
    rw [hcode] at hR
    simpa using hR
  | unlock hcode =>
    rw [hcode] at hR
    simpa using hR
  | run hcode hf =>
    rw [hcode] at hR
    simpa using hR _ _ _ hf

/-- The data and the thread that moves are what its instruction makes of them. -/
theorem effects_of_step {s s' : Threaded τ M D P} {p : τ} {c : C} {Q : C → D → P → Prop}
    (h : s.step code (p, c) = some s') (hQ : (code (s.locals p)).Effects s.data Q) :
    Q c s'.data (s'.locals p) := by
  simp only [step] at h
  split at h
  · rename_i m next hcode
    rw [hcode] at hQ
    split at h
    · rw [Option.some.injEq] at h
      subst h
      simpa using hQ c
    · exact absurd h (by simp)
  · rename_i m next hcode
    rw [hcode] at hQ
    rw [Option.some.injEq] at h
    subst h
    simpa using hQ c
  · rename_i f hcode
    rw [hcode] at hQ
    split at h
    · rename_i data next hf
      rw [Option.some.injEq] at h
      subst h
      simpa using hQ c data next hf
    · exact absurd h (by simp)
  · exact absurd h (by simp)

/-! ## 3. No deadlock -/

/-- Every local state respects the annotation of the ones it leads to. -/
def Disciplined (code : P → Instr M D C P) (rank : M → ℕ) (held : P → Finset M) : Prop :=
  ∀ x, (code x).Respects rank (held x) held

/-- Who has a mutex is what the local states say. -/
def HoldersInv (held : P → Finset M) (s : Threaded τ M D P) : Prop :=
  ∀ m p, s.holder m = some p ↔ m ∈ held (s.locals p)

variable {rank : M → ℕ} {held : P → Finset M} {s s' : Threaded τ M D P}

theorem holdersInv_step (hd : Disciplined code rank held) (h : HoldersInv held s) {l : τ × C}
    (hs : s.step code l = some s') : HoldersInv held s' := by
  have hresp := hd (s.locals l.1)
  intro m q
  cases stepped_of_step hs with
  | @lock m' next hcode hfree =>
    rw [hcode] at hresp
    by_cases hq : q = l.1
    · subst hq
      by_cases hm : m = m'
      · subst hm; simp [hresp.2]
      · simp [hm, hresp.2, h m l.1]
    · by_cases hm : m = m'
      · subst hm
        have hnot : m ∉ held (s.locals q) := fun hmem => by
          rw [← h, hfree] at hmem
          exact absurd hmem (by simp)
        simp [hq, Ne.symm hq, hnot]
      · simp [hm, hq, h m q]
  | @unlock m' next hcode =>
    rw [hcode] at hresp
    have hown : s.holder m' = some l.1 := (h m' l.1).mpr hresp.1
    by_cases hq : q = l.1
    · subst hq
      by_cases hm : m = m'
      · subst hm; simp [hresp.2]
      · simp [hm, hresp.2, h m l.1]
    · by_cases hm : m = m'
      · subst hm
        have hnot : m ∉ held (s.locals q) := fun hmem => by
          rw [← h, hown, Option.some.injEq] at hmem
          exact hq hmem.symm
        simp [hq, hnot]
      · simp [hm, hq, h m q]
  | @run f c data next hcode hf =>
    rw [hcode] at hresp
    by_cases hq : q = l.1
    · subst hq
      simp [hresp.2 _ _ _ _ hf, h m l.1]
    · simp [hq, h m q]

section Progress

variable [Nonempty C]

/-- A thread that has not halted moves, unless it waits for a mutex. -/
theorem exists_step (hd : Disciplined code rank held) {p : τ} (hlive : code (s.locals p) ≠ .halt)
    (hfree : ∀ m next, code (s.locals p) = .lock m next → s.holder m = none) :
    ∃ l s', s.step code l = some s' := by
  have hresp := hd (s.locals p)
  cases hp : code (s.locals p) with
  | lock m next =>
    refine ⟨(p, Classical.arbitrary C), ?_⟩
    simp only [step, hp, hfree m next hp, if_true, Option.some.injEq, exists_eq']
  | unlock m next =>
    refine ⟨(p, Classical.arbitrary C), ?_⟩
    simp only [step, hp, Option.some.injEq, exists_eq']
  | run f =>
    rw [hp] at hresp
    obtain ⟨c, r, hf⟩ := hresp.1 s.data
    refine ⟨(p, c), ?_⟩
    simp only [step, hp, hf, Option.some.injEq, exists_eq']
  | halt => exact absurd hp hlive

/-- A thread that waits for a mutex, and those that it waits for: one of them can move. -/
theorem exists_step_of_waiting (hd : Disciplined code rank held) (h : HoldersInv held s)
    {bound : ℕ} (hbound : ∀ m, rank m ≤ bound) {p : τ} {m : M} {next : P}
    (hcode : code (s.locals p) = .lock m next) : ∃ l s', s.step code l = some s' := by
  -- the mutexes along the chain have higher and higher ranks
  induction hn : bound - rank m using Nat.strong_induction_on generalizing p m next with
  | _ n ih =>
    cases hholder : s.holder m with
    | none =>
      refine exists_step hd (p := p) (by simp [hcode]) fun m' next' hcode' => ?_
      rw [hcode, Instr.lock.injEq] at hcode'
      exact hcode'.1 ▸ hholder
    | some q =>
      have hmem : m ∈ held (s.locals q) := (h m q).mp hholder
      have hresp := hd (s.locals q)
      by_cases hwaits : ∃ m' next', code (s.locals q) = .lock m' next'
      · obtain ⟨m', next', hq⟩ := hwaits
        rw [hq] at hresp
        have hlt : rank m < rank m' := hresp.1 m hmem
        have hle := hbound m'
        exact ih (bound - rank m') (by omega) hq rfl
      · refine exists_step hd (p := q) (fun hhalt => ?_) fun m' next' hq => ?_
        · rw [hhalt] at hresp
          rw [show held (s.locals q) = ∅ from hresp] at hmem
          exact absurd hmem (by simp)
        · exact absurd ⟨m', next', hq⟩ hwaits

/-- **No deadlock.**  As long as some thread has not halted, some thread can move. -/
theorem exists_step_of_live (hd : Disciplined code rank held) (h : HoldersInv held s) {bound : ℕ}
    (hbound : ∀ m, rank m ≤ bound) {p : τ} (hlive : code (s.locals p) ≠ .halt) :
    ∃ l s', s.step code l = some s' := by
  by_cases hwaits : ∃ m next, code (s.locals p) = .lock m next
  · obtain ⟨m, next, hp⟩ := hwaits
    exact exists_step_of_waiting hd h hbound hp
  · exact exists_step hd hlive fun m next hp => absurd ⟨m, next, hp⟩ hwaits

end Progress

/-! ## 4. Every run ends -/

/-- **Termination.**  Every instruction decreases a cost, and the threads are finitely many. -/
theorem terminates_of_cost [Finite τ] [Preorder ρ] [WellFoundedLT ρ] (cost : P → ρ)
    (hcost : ∀ x d, (code x).Leads d fun y => cost y < cost x) (s₀ : Threaded τ M D P) :
    Terminates (step code) s₀ := by
  refine terminates_of_parties (fun s p => cost (s.locals p)) fun s l s' _ hs => ?_
  have hstepped := stepped_of_step hs
  refine ⟨l.1, hstepped.leads (hcost _ _), fun q hq => ?_⟩
  rw [hstepped.locals_of_ne hq]

end Threaded

end TwoPL.Lib
