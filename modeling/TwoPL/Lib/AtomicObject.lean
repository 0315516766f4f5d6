/-
# The atomic object

What a shared object that several parties call looks like when every call takes effect at one
moment: a party makes a call, some time later the call is TAKEN (the state changes and the result is
fixed), and later still the result is returned.  The moment itself cannot be seen from outside.

A history of calls and returns is linearizable when the atomic object has a run with that history.
That a call which returned before another was made comes first needs no mention: it is taken before
it returns.

* `state_of_runLabels`: the state is that after the taken calls, in the order in which they were
  taken.
* `taken_of_party`: of each party, these are the calls it has made, up to the one that is pending.
* `exists_runLabels_of_rel`: an object that is implemented by another one has its histories.
-/
import TwoPL.Lib.Runs
import TwoPL.Lib.Serial

namespace TwoPL.Lib

variable {τ S T O R : Type*}

/-! ## 1. Calls, in three steps -/

/-- Where a party is with its call. -/
inductive ObjectPhase (O R : Type*)
  | idle
  | called (op : O)
  | taken (result : R)
  deriving DecidableEq

/-- What can be seen of a call. -/
inductive ObjectEvent (O R : Type*)
  | call (op : O)
  | ret (result : R)
  deriving DecidableEq

inductive ObjectLabel (τ O R : Type*)
  | call (p : τ) (op : O)
  | take (p : τ) (op : O)
  | ret (p : τ) (result : R)

/-- Only the moment at which a call is taken is not seen. -/
def ObjectLabel.event? : ObjectLabel τ O R → Option (τ × ObjectEvent O R)
  | call p op => some (p, .call op)
  | take _ _ => none
  | ret p result => some (p, .ret result)

def ObjectLabel.taken? : ObjectLabel τ O R → Option (τ × O)
  | call _ _ => none
  | take p op => some (p, op)
  | ret _ _ => none

def ObjectEvent.op? : ObjectEvent O R → Option O
  | call op => some op
  | ret _ => none

/-- The call of a party that has not been taken. -/
def ObjectPhase.pending : ObjectPhase O R → List O
  | idle => []
  | called op => [op]
  | taken _ => []

structure AtomicObject (τ S O R : Type*) where
  state : S
  phase : τ → ObjectPhase O R

namespace AtomicObject

/-- No call has been made. -/
def initial (s : S) : AtomicObject τ S O R := ⟨s, fun _ => .idle⟩

variable [DecidableEq τ]

/-- The party gets to the next phase of its call. -/
def goto (o : AtomicObject τ S O R) (s : S) (p : τ) (phase : ObjectPhase O R) :
    AtomicObject τ S O R := ⟨s, Function.update o.phase p phase⟩

/-- A step of the object, on a state with the actions `a`. -/
def step [DecidableEq O] [DecidableEq R] (a : Actions S O R) (o : AtomicObject τ S O R) :
    ObjectLabel τ O R → Option (AtomicObject τ S O R)
  | .call p op => if o.phase p = .idle then some (o.goto o.state p (.called op)) else none
  | .take p op =>
    if o.phase p = .called op then
      some (o.goto (a.exec o.state op) p (.taken (a.obs o.state op)))
    else none
  | .ret p result => if o.phase p = .taken result then some (o.goto o.state p .idle) else none

/-- **Everything a step can do.** -/
inductive Stepped (a : Actions S O R) (o : AtomicObject τ S O R) :
    ObjectLabel τ O R → AtomicObject τ S O R → Prop
  | call {p op} : o.phase p = .idle → Stepped a o (.call p op) (o.goto o.state p (.called op))
  | take {p op} : o.phase p = .called op →
      Stepped a o (.take p op) (o.goto (a.exec o.state op) p (.taken (a.obs o.state op)))
  | ret {p result} : o.phase p = .taken result →
      Stepped a o (.ret p result) (o.goto o.state p .idle)

variable [DecidableEq O] [DecidableEq R] {a : Actions S O R} {o o' : AtomicObject τ S O R}
  {l : ObjectLabel τ O R}

theorem stepped_iff : o.step a l = some o' ↔ Stepped a o l o' := by
  constructor
  · intro h
    cases l with
    | call p op =>
      obtain ⟨hphase, heq⟩ := Option.ite_none_right_eq_some.mp h
      rw [← Option.some.inj heq]
      exact .call hphase
    | take p op =>
      obtain ⟨hphase, heq⟩ := Option.ite_none_right_eq_some.mp h
      rw [← Option.some.inj heq]
      exact .take hphase
    | ret p result =>
      obtain ⟨hphase, heq⟩ := Option.ite_none_right_eq_some.mp h
      rw [← Option.some.inj heq]
      exact .ret hphase
  · rintro (hphase | hphase | hphase) <;> simp [step, hphase]

/-! ## 2. The order in which calls are taken -/

/-- The state is that after the taken calls. -/
theorem state_of_runLabels :
    ∀ (ls : List (ObjectLabel τ O R)) {o o' : AtomicObject τ S O R},
      runLabels (step a) o ls = some o' →
      o'.state = a.execAll o.state ((ls.filterMap ObjectLabel.taken?).map Prod.snd)
  | [], o, o', h => by
    rw [runLabels, Option.some.injEq] at h
    simp [h]
  | l :: ls, o, o', h => by
    obtain ⟨o₁, ho₁, hrest⟩ := Option.bind_eq_some_iff.mp h
    rw [state_of_runLabels ls hrest]
    cases stepped_iff.mp ho₁ with
    | call _ => rfl
    | take _ => rfl
    | ret _ => rfl

omit [DecidableEq O] [DecidableEq R] in
/-- A call of a party is pending until it is taken. -/
theorem Stepped.pending_eq (h : Stepped a o l o') (p : τ) :
    (o.phase p).pending ++ (eventsOf l.event?.toList p).filterMap ObjectEvent.op? =
      eventsOf l.taken?.toList p ++ (o'.phase p).pending := by
  cases h with
  | @call q op hphase =>
    by_cases hq : q = p
    · subst hq
      simp [eventsOf, ObjectLabel.event?, ObjectLabel.taken?, ObjectEvent.op?, ObjectPhase.pending, goto,
        hphase]
    · simp [eventsOf, ObjectLabel.event?, ObjectLabel.taken?, hq, Ne.symm hq, goto]
  | @take q op hphase =>
    by_cases hq : q = p
    · subst hq
      simp [eventsOf, ObjectLabel.event?, ObjectLabel.taken?, ObjectPhase.pending, goto, hphase]
    · simp [eventsOf, ObjectLabel.event?, ObjectLabel.taken?, hq, Ne.symm hq, goto]
  | @ret q result hphase =>
    by_cases hq : q = p
    · subst hq
      simp [eventsOf, ObjectLabel.event?, ObjectLabel.taken?, ObjectEvent.op?, ObjectPhase.pending, goto,
        hphase]
    · simp [eventsOf, ObjectLabel.event?, ObjectLabel.taken?, hq, Ne.symm hq, goto]

/-- The calls that a party has made are those of it that have been taken, and the pending one. -/
theorem taken_of_party (p : τ) :
    ∀ (ls : List (ObjectLabel τ O R)) {o o' : AtomicObject τ S O R},
      runLabels (step a) o ls = some o' →
      (o.phase p).pending ++ (eventsOf (ls.filterMap ObjectLabel.event?) p).filterMap ObjectEvent.op? =
        eventsOf (ls.filterMap ObjectLabel.taken?) p ++ (o'.phase p).pending
  | [], o, o', h => by
    rw [runLabels, Option.some.injEq] at h
    simp [h, eventsOf]
  | l :: ls, o, o', h => by
    obtain ⟨o₁, ho₁, hrest⟩ := Option.bind_eq_some_iff.mp h
    have ih := taken_of_party p ls hrest
    have hfirst := (stepped_iff.mp ho₁).pending_eq p
    have hevents : (l :: ls).filterMap ObjectLabel.event?
        = l.event?.toList ++ ls.filterMap ObjectLabel.event? := by
      cases hl : l.event? <;> simp [hl]
    have htaken : (l :: ls).filterMap ObjectLabel.taken?
        = l.taken?.toList ++ ls.filterMap ObjectLabel.taken? := by
      cases hl : l.taken? <;> simp [hl]
    rw [hevents, htaken, eventsOf_append, eventsOf_append, List.filterMap_append,
      ← List.append_assoc, hfirst, List.append_assoc, ih, List.append_assoc]

/-! ## 3. An object that implements another -/

/-- **Refinement of the state.**  If the actions `a` and `b` return the same on related states and
lead to related states, the two objects have the same histories. -/
theorem exists_runLabels_of_rel {b : Actions T O R} {Rel : S → T → Prop}
    (hobs : ∀ s t op, Rel s t → a.obs s op = b.obs t op)
    (hexec : ∀ s t op, Rel s t → Rel (a.exec s op) (b.exec t op)) :
    ∀ (ls : List (ObjectLabel τ O R)) {o o' : AtomicObject τ S O R} {t : T}, Rel o.state t →
      runLabels (step a) o ls = some o' →
      ∃ t', Rel o'.state t' ∧ runLabels (step b) ⟨t, o.phase⟩ ls = some ⟨t', o'.phase⟩
  | [], o, o', t, hrel, h => by
    rw [runLabels, Option.some.injEq] at h
    subst h
    exact ⟨t, hrel, rfl⟩
  | l :: ls, o, o', t, hrel, h => by
    obtain ⟨o₁, ho₁, hrest⟩ := Option.bind_eq_some_iff.mp h
    have hstep : ∃ t₁, Rel o₁.state t₁ ∧ step b ⟨t, o.phase⟩ l = some ⟨t₁, o₁.phase⟩ := by
      cases stepped_iff.mp ho₁ with
      | call hphase => exact ⟨t, hrel, stepped_iff.mpr (.call hphase)⟩
      | @take p op hphase =>
        refine ⟨b.exec t op, hexec _ _ _ hrel, ?_⟩
        have htaken := stepped_iff.mpr (Stepped.take (a := b) (o := ⟨t, o.phase⟩) hphase)
        rw [htaken]
        simp only [goto, hobs _ _ op hrel]
      | ret hphase => exact ⟨t, hrel, stepped_iff.mpr (.ret hphase)⟩
    obtain ⟨t₁, hrel₁, hstep₁⟩ := hstep
    obtain ⟨t', hrel', hrun⟩ := exists_runLabels_of_rel hobs hexec ls hrel₁ hrest
    refine ⟨t', hrel', ?_⟩
    rw [runLabels, hstep₁]
    exact hrun

end AtomicObject

end TwoPL.Lib
