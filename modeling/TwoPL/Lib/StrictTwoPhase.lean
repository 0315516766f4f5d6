/-
# Strict two-phase locking, abstractly

Any number of clients `i`, each with a program `prog i` of operations on one shared state;
every operation has a key.  A client first ACQUIRES keys, one at a time and in any order
(`growing`); once it owns every key of its program it passes its LOCK POINT (`running`),
executes its program, and only then gives keys back (`shrinking`).  A client may give up
before its lock point (`aborting`), and then gives back what it had.

This file states that protocol as a transition relation over arbitrary types and proves that
every reachable state is strictly serializable (`Serial`): listing the clients by lock point
gives an order such that

* the shared state is the one the blocks executed so far give when run whole in that order;
* every client has observed exactly what it observes in that serial run;
* a client that returned before another was called comes first.

The invariant that does the work is `Inv.apart`: while `i` is still running it owns the keys of
its program, so no client that passed its lock point AFTER `i` shares a key with it.  Its next
operation is therefore independent of every block the order puts behind it, and
`Lib/Serial.lean` moves it into place.
-/
import TwoPL.Lib.Runs
import TwoPL.Lib.Serial

namespace TwoPL.Lib.StrictTwoPhase

open TwoPL.Lib

variable {ι K S O R : Type*}

/-! ## 1. The protocol -/

/-- Where a client is.  `done` carries whether it passed its lock point. -/
inductive Status
  | idle
  | growing
  | running
  | shrinking
  | aborting
  | done (locked : Bool)
  deriving DecidableEq

/-- The client passed its lock point. -/
def Status.locked : Status → Bool
  | .running | .shrinking | .done true => true
  | _ => false

/-- Calls and returns, as an outside observer sees them. -/
inductive Event (ι : Type*)
  | called (i : ι)
  | returned (i : ι)

structure State (ι K S O R : Type*) where
  store : S
  owner : K → Option ι
  status : ι → Status
  /-- The operations the client has executed. -/
  ran : ι → List O
  /-- What it observed, one observation an operation. -/
  obs : ι → List R
  hist : List (Event ι)

/-- The programs, and what their operations are. -/
structure Setup (ι K S O R : Type*) where
  acts : Actions S O R
  key : O → K
  prog : ι → List O
  /-- Operations on different keys are independent. -/
  indep : ∀ o o', key o ≠ key o' → acts.Indep o o'

section Protocol

variable [DecidableEq ι] [DecidableEq K] (p : Setup ι K S O R)

/-- The client's status after a step. -/
def State.setStatus (s : State ι K S O R) (i : ι) (x : Status) : State ι K S O R :=
  { s with status := Function.update s.status i x }

/-- The owner of a key after a step. -/
def State.setOwner (s : State ι K S O R) (k : K) (x : Option ι) : State ι K S O R :=
  { s with owner := Function.update s.owner k x }

/-- One step of one client. -/
inductive Step : State ι K S O R → State ι K S O R → Prop
  | call {s} (i : ι) : s.status i = .idle →
      Step s { s.setStatus i .growing with hist := s.hist ++ [.called i] }
  | acquire {s} (i : ι) (k : K) : s.status i = .growing → s.owner k = none →
      Step s (s.setOwner k (some i))
  | lock {s} (i : ι) : s.status i = .growing → (∀ o ∈ p.prog i, s.owner (p.key o) = some i) →
      Step s (s.setStatus i .running)
  | exec {s} (i : ι) (o : O) (rest : List O) : s.status i = .running →
      p.prog i = s.ran i ++ o :: rest →
      Step s { s with
        store := p.acts.exec s.store o
        ran := extend s.ran i o
        obs := Function.update s.obs i (s.obs i ++ [p.acts.obs s.store o]) }
  | finish {s} (i : ι) : s.status i = .running → s.ran i = p.prog i →
      Step s (s.setStatus i .shrinking)
  | abort {s} (i : ι) : s.status i = .growing → Step s (s.setStatus i .aborting)
  | release {s} (i : ι) (k : K) : s.status i = .shrinking ∨ s.status i = .aborting →
      s.owner k = some i → Step s (s.setOwner k none)
  | return {s} (i : ι) (b : Bool) : s.status i = (if b then .shrinking else .aborting) →
      Step s { s.setStatus i (.done b) with hist := s.hist ++ [.returned i] }

/-- Nobody has been called, no key is owned. -/
def init (s₀ : S) : State ι K S O R where
  store := s₀
  owner := fun _ => none
  status := fun _ => .idle
  ran := fun _ => []
  obs := fun _ => []
  hist := []

/-- The keys of `ks` that the client owns are given back. -/
def State.giveBack (s : State ι K S O R) (i : ι) (ks : List K) : State ι K S O R :=
  { s with owner := fun k => if k ∈ ks ∧ s.owner k = some i then none else s.owner k }

/-- What is owned afterwards was owned before, and is not a key that was given back. -/
theorem owner_of_giveBack {s : State ι K S O R} {i j : ι} {ks : List K} {k : K}
    (h : (s.giveBack i ks).owner k = some j) : s.owner k = some j ∧ (j = i → k ∉ ks) := by
  by_cases hk : k ∈ ks ∧ s.owner k = some i
  · simp [State.giveBack, hk] at h
  · simp only [State.giveBack, if_neg hk] at h
    refine ⟨h, ?_⟩
    rintro rfl hmem
    exact hk ⟨hmem, h⟩

/-- The others keep what they own. -/
theorem giveBack_owner_of_ne {s : State ι K S O R} {i j : ι} (ks : List K) {k : K} (hj : j ≠ i)
    (h : s.owner k = some j) : (s.giveBack i ks).owner k = some j := by
  have hne : ¬ (k ∈ ks ∧ s.owner k = some i) := fun e => hj (Option.some.inj (h.symm.trans e.2))
  simpa only [State.giveBack, if_neg hne] using h

/-- A client that gives keys back may give back any list of them. -/
theorem giveBack_reached {s : State ι K S O R} {i : ι}
    (h : s.status i = .shrinking ∨ s.status i = .aborting) (ks : List K) :
    Relation.ReflTransGen (Step p) s (s.giveBack i ks) := by
  induction ks with
  | nil => simp [State.giveBack, Relation.ReflTransGen.refl]
  | cons k ks ih =>
    by_cases hk : (s.giveBack i ks).owner k = some i
    · have heq : s.giveBack i (k :: ks) = (s.giveBack i ks).setOwner k none := by
        simp only [State.giveBack, State.setOwner, State.mk.injEq, true_and, and_true]
        funext k'
        by_cases hk' : k' = k
        · subst hk'
          have hown : s.owner k' = some i := by
            by_contra hne
            simp [State.giveBack, hne] at hk
          simp [hown]
        · simp [hk']
      rw [heq]
      exact ih.tail (.release i k h hk)
    · have heq : s.giveBack i (k :: ks) = s.giveBack i ks := by
        simp only [State.giveBack, State.mk.injEq, true_and, and_true]
        funext k'
        by_cases hk' : k' = k
        · subst hk'
          by_cases hmem : k' ∈ ks
          · simp [hmem]
          · have hown : s.owner k' ≠ some i := by
              simpa [State.giveBack, hmem] using hk
            simp [hown]
        · simp [hk']
      rw [heq]
      exact ih

end Protocol

/-! ## 2. Strict serializability -/

/-- `order` is a strict serialization of the state `s`, reached from the store `s₀`. -/
structure Serial (p : Setup ι K S O R) (s₀ : S) (s : State ι K S O R) (order : List ι) :
    Prop where
  nodup : order.Nodup
  /-- The clients of the order are those past their lock point. -/
  mem_iff : ∀ i, i ∈ order ↔ (s.status i).locked = true
  /-- Running the executed blocks whole, in this order, gives the store. -/
  store_eq : s.store = serialState p.acts s₀ s.ran order
  /-- ... and every client has seen what it sees in that run. -/
  obs_eq : SerialObs p.acts s₀ s.ran order s.obs
  /-- Nobody behind `i` in the order returned before `i` was called. -/
  realtime : ∀ P i Q, order = P ++ i :: Q → ∀ j ∈ Q,
    ¬ Precedes s.hist (.returned j) (.called i)

/-- What the protocol keeps along with a serialization. -/
structure Inv (p : Setup ι K S O R) (s₀ : S) (s : State ι K S O R) (order : List ι) : Prop
    extends Serial p s₀ s order where
  /-- A running client owns every key of its program. -/
  owns : ∀ i, s.status i = .running → ∀ o ∈ p.prog i, s.owner (p.key o) = some i
  /-- While `i` is running, nobody behind it in the order shares a key with it. -/
  apart : ∀ P i Q, order = P ++ i :: Q → s.status i = .running → ∀ j ∈ Q,
    ∀ o ∈ p.prog i, ∀ o' ∈ p.prog j, p.key o ≠ p.key o'
  /-- A client has executed a prefix of its program. -/
  ran_prefix : ∀ i, s.ran i <+: p.prog i
  /-- ... nothing before its lock point ... -/
  ran_nil : ∀ i, (s.status i).locked = false → s.ran i = [] ∧ s.obs i = []
  /-- ... and all of it once it gives keys back. -/
  ran_all : ∀ i, s.status i = .shrinking ∨ s.status i = .done true → s.ran i = p.prog i
  returned_done : ∀ i, .returned i ∈ s.hist → ∃ b, s.status i = .done b

section Preservation

variable {p : Setup ι K S O R} {s₀ : S} {s s' : State ι K S O R} {order : List ι}

theorem inv_init (p : Setup ι K S O R) (s₀ : S) : Inv p s₀ (init s₀) [] where
  nodup := List.nodup_nil
  mem_iff i := by simp [init, Status.locked]
  store_eq := rfl
  obs_eq := by intro P i Q h; simp at h
  realtime := by intro P i Q h; simp at h
  owns := by intro i h; simp [init] at h
  apart := by intro P i Q h; simp at h
  ran_prefix := by intro i; simp [init]
  ran_nil := by intro i _; exact ⟨rfl, rfl⟩
  ran_all := by intro i h; simp [init] at h
  returned_done := by intro i h; simp [init] at h

/-- **A call is harmless.**  The new client is in no order yet. -/
theorem Inv.called (h : Inv p s₀ s order) {i : ι} (hi : i ∉ order) :
    Inv p s₀ { s with hist := s.hist ++ [.called i] } order :=
  { h with
    realtime := by
      intro P j Q hord j' hj' hp
      have hij : (Event.called j : Event ι) ≠ .called i := by
        intro e
        rw [Event.called.injEq] at e
        exact hi (by rw [← e, hord]; simp)
      exact h.realtime P j Q hord j' hj' (hp.of_append_right hij)
    returned_done := by
      intro j hj
      rcases List.mem_append.mp hj with hj | hj
      · exact h.returned_done j hj
      · simp at hj }

/-- **A return is harmless.**  Every call of the history came before it. -/
theorem Inv.returned (h : Inv p s₀ s order) {i : ι} {b : Bool} (hi : s.status i = .done b) :
    Inv p s₀ { s with hist := s.hist ++ [.returned i] } order :=
  { h with
    realtime := by
      intro P j Q hord j' hj' hp
      exact h.realtime P j Q hord j' hj' (hp.of_append_right (by simp))
    returned_done := by
      intro j hj
      rcases List.mem_append.mp hj with hj | hj
      · exact h.returned_done j hj
      · rw [List.mem_singleton, Event.returned.injEq] at hj
        exact ⟨b, hj ▸ hi⟩ }

section Owner

variable [DecidableEq K]

/-- **A change of owner that takes no key from a running client is harmless.** -/
theorem Inv.setOwner (h : Inv p s₀ s order) {k : K} {x : Option ι}
    (hk : ∀ i, s.status i = .running → s.owner k ≠ some i) :
    Inv p s₀ (s.setOwner k x) order :=
  { h with
    owns := by
      intro i hi o ho
      have hown := h.owns i hi o ho
      have hne : p.key o ≠ k := fun e => hk i hi (e ▸ hown)
      simpa [State.setOwner, hne] using hown }

end Owner

variable [DecidableEq ι]

@[simp] theorem setStatus_self (s : State ι K S O R) (i : ι) (x : Status) :
    (s.setStatus i x).status i = x := by simp [State.setStatus]

theorem setStatus_of_ne {s : State ι K S O R} {i j : ι} (h : j ≠ i) (x : Status) :
    (s.setStatus i x).status j = s.status j := by simp [State.setStatus, h]

/-- **A change of status that crosses no lock point keeps the invariant.**  The client is not
running afterwards, and what it has executed fits the new status. -/
theorem Inv.setStatus (h : Inv p s₀ s order) {i : ι} {x : Status}
    (hlocked : x.locked = (s.status i).locked) (hrun : x ≠ .running)
    (hall : x = .shrinking ∨ x = .done true → s.ran i = p.prog i)
    (hdone : ∀ b, s.status i ≠ .done b) : Inv p s₀ (s.setStatus i x) order where
  nodup := h.nodup
  mem_iff j := by
    by_cases hj : j = i
    · subst hj; rw [setStatus_self, hlocked]; exact h.mem_iff j
    · rw [setStatus_of_ne hj]; exact h.mem_iff j
  store_eq := h.store_eq
  obs_eq := h.obs_eq
  realtime := h.realtime
  owns j hj := by
    by_cases hji : j = i
    · subst hji; rw [setStatus_self] at hj; exact absurd hj hrun
    · rw [setStatus_of_ne hji] at hj; exact h.owns j hj
  apart P j Q hord hj := by
    by_cases hji : j = i
    · subst hji; rw [setStatus_self] at hj; exact absurd hj hrun
    · rw [setStatus_of_ne hji] at hj; exact h.apart P j Q hord hj
  ran_prefix := h.ran_prefix
  ran_nil j hj := by
    by_cases hji : j = i
    · subst hji; rw [setStatus_self, hlocked] at hj; exact h.ran_nil j hj
    · rw [setStatus_of_ne hji] at hj; exact h.ran_nil j hj
  ran_all j hj := by
    by_cases hji : j = i
    · subst hji; rw [setStatus_self] at hj; exact hall hj
    · rw [setStatus_of_ne hji] at hj; exact h.ran_all j hj
  returned_done j hj := by
    obtain ⟨b, hb⟩ := h.returned_done j hj
    have hji : j ≠ i := fun e => hdone b (e ▸ hb)
    exact ⟨b, by rw [setStatus_of_ne hji]; exact hb⟩

/-- **The lock point.**  The client joins the order at its end.  It owns its keys, and so does
every client that is still running, so the two programs have no key in common. -/
theorem Inv.lock (h : Inv p s₀ s order) {i : ι} (hi : s.status i = .growing)
    (howns : ∀ o ∈ p.prog i, s.owner (p.key o) = some i) :
    Inv p s₀ (s.setStatus i .running) (order ++ [i]) := by
  have hni : i ∉ order := fun hmem => by
    have := (h.mem_iff i).mp hmem
    simp [hi, Status.locked] at this
  have hnil := h.ran_nil i (by simp [hi, Status.locked])
  -- a split of the longer order is a split of the old one, or the new client's own
  have hsplit : ∀ P j Q, order ++ [i] = P ++ j :: Q →
      (Q = [] ∧ j = i ∧ P = order) ∨ ∃ Q', Q = Q' ++ [i] ∧ order = P ++ j :: Q' := by
    intro P j Q heq
    rcases List.eq_nil_or_concat Q with rfl | ⟨Q', z, rfl⟩
    · obtain ⟨hP, hj⟩ := List.append_inj' heq rfl
      rw [List.singleton_inj] at hj
      exact .inl ⟨rfl, hj.symm, hP.symm⟩
    · rw [List.concat_eq_append, ← List.cons_append, ← List.append_assoc] at heq
      obtain ⟨hP, hz⟩ := List.append_inj' heq rfl
      rw [List.singleton_inj] at hz
      exact .inr ⟨Q', by rw [List.concat_eq_append, hz], hP⟩
  refine
    { nodup := List.nodup_append.mpr ⟨h.nodup, by simp, ?_⟩
      mem_iff := ?_, store_eq := ?_, obs_eq := h.obs_eq.concat hnil.1 hnil.2
      realtime := ?_, owns := ?_, apart := ?_, ran_prefix := h.ran_prefix
      ran_nil := ?_, ran_all := ?_, returned_done := ?_ }
  · rintro j hj j' hj' rfl
    exact hni (List.mem_singleton.mp hj' ▸ hj)
  · intro j
    by_cases hji : j = i
    · subst hji; simp [Status.locked]
    · rw [setStatus_of_ne hji]; simp [h.mem_iff j, hji]
  · rw [serialState_append, serialState_singleton]
    simpa [State.setStatus, hnil.1] using h.store_eq
  · intro P j Q heq j' hj' hp
    rcases hsplit P j Q heq with ⟨rfl, -, -⟩ | ⟨Q', rfl, hord⟩
    · simp at hj'
    · rcases List.mem_append.mp hj' with hj' | hj'
      · exact h.realtime P j Q' hord j' hj' hp
      · -- the new client has not returned
        obtain ⟨b, hb⟩ := h.returned_done j' hp.mem_left
        rw [List.mem_singleton.mp hj', hi] at hb
        exact absurd hb (by simp)
  · intro j hj
    by_cases hji : j = i
    · exact hji ▸ howns
    · rw [setStatus_of_ne hji] at hj; exact h.owns j hj
  · intro P j Q heq hj j' hj' o ho o' ho'
    rcases hsplit P j Q heq with ⟨rfl, -, -⟩ | ⟨Q', rfl, hord⟩
    · simp at hj'
    · have hji : j ≠ i := fun e => hni (by rw [← e, hord]; simp)
      rw [setStatus_of_ne hji] at hj
      rcases List.mem_append.mp hj' with hj' | hj'
      · exact h.apart P j Q' hord hj j' hj' o ho o' ho'
      · -- `j` still owns its key `key o`, the new client owns `key o'`
        rw [List.mem_singleton] at hj'
        intro hkey
        have h1 := h.owns j hj o ho
        have h2 := howns o' (hj' ▸ ho')
        rw [hkey, h2, Option.some.injEq] at h1
        exact hji h1.symm
  · intro j hj
    by_cases hji : j = i
    · subst hji; exact hnil
    · rw [setStatus_of_ne hji] at hj; exact h.ran_nil j hj
  · intro j hj
    by_cases hji : j = i
    · subst hji; simp at hj
    · rw [setStatus_of_ne hji] at hj; exact h.ran_all j hj
  · intro j hj
    obtain ⟨b, hb⟩ := h.returned_done j hj
    have hji : j ≠ i := fun e => by rw [e, hi] at hb; exact absurd hb (by simp)
    exact ⟨b, by rw [setStatus_of_ne hji]; exact hb⟩

/-- **One operation.**  It is independent of every block behind its own, so it may as well have
been executed inside its block. -/
theorem Inv.exec (h : Inv p s₀ s order) {i : ι} {o : O} {rest : List O}
    (hi : s.status i = .running) (hprog : p.prog i = s.ran i ++ o :: rest) :
    Inv p s₀ { s with
      store := p.acts.exec s.store o
      ran := extend s.ran i o
      obs := Function.update s.obs i (s.obs i ++ [p.acts.obs s.store o]) } order := by
  have hmem : i ∈ order := (h.mem_iff i).mpr (by simp [hi, Status.locked])
  obtain ⟨P, Q, hord⟩ := List.append_of_mem hmem
  have ho : o ∈ p.prog i := by rw [hprog]; simp
  have hind : ∀ j ∈ Q, ∀ o' ∈ s.ran j, p.acts.Indep o o' := fun j hj o' ho' =>
    p.indep o o' (h.apart P i Q hord hi j hj o ho o' ((h.ran_prefix j).subset ho'))
  refine { h with store_eq := ?_, obs_eq := ?_, ran_prefix := ?_, ran_nil := ?_, ran_all := ?_ }
  · have hnot := notMem_of_split (hord ▸ h.nodup)
    rw [hord, serialState_extend hnot.1 hnot.2 hind, ← hord, ← h.store_eq]
  · have := h.obs_eq.extend h.nodup hord hind
    rwa [← h.store_eq] at this
  · intro j
    by_cases hji : j = i
    · subst hji
      exact ⟨rest, by simp [hprog]⟩
    · simpa [extend_of_ne hji] using h.ran_prefix j
  · intro j hj
    have hji : j ≠ i := fun e => by simp [e, hi, Status.locked] at hj
    simpa [extend_of_ne hji, hji] using h.ran_nil j hj
  · intro j hj
    have hji : j ≠ i := fun e => by simp [e, hi] at hj
    simpa [extend_of_ne hji] using h.ran_all j hj

variable [DecidableEq K]

/-- **Every step keeps a serialization.**  Only a lock point makes the order longer. -/
theorem inv_step (h : Inv p s₀ s order) (hs : Step p s s') : ∃ order', Inv p s₀ s' order' := by
  cases hs with
  | call i hi =>
    have hni : i ∉ order := fun hmem => by
      have := (h.mem_iff i).mp hmem
      simp [hi, Status.locked] at this
    have h1 := h.setStatus (i := i) (x := .growing) (by simp [hi, Status.locked]) (by simp)
      (by simp) (by simp [hi])
    exact ⟨order, h1.called hni⟩
  | acquire i k hi hk => exact ⟨order, h.setOwner fun j _ => by simp [hk]⟩
  | lock i hi howns => exact ⟨order ++ [i], h.lock hi howns⟩
  | exec i o rest hi hprog => exact ⟨order, h.exec hi hprog⟩
  | finish i hi hran =>
    exact ⟨order, h.setStatus (by simp [hi, Status.locked]) (by simp) (fun _ => hran)
      (by simp [hi])⟩
  | abort i hi =>
    exact ⟨order, h.setStatus (by simp [hi, Status.locked]) (by simp) (by simp) (by simp [hi])⟩
  | release i k hi hk =>
    refine ⟨order, h.setOwner fun j hj hown => ?_⟩
    rw [hk, Option.some.injEq] at hown
    subst hown
    rcases hi with hi | hi <;> simp [hi] at hj
  | «return» i b hi =>
    have h1 : Inv p s₀ (s.setStatus i (.done b)) order := by
      refine h.setStatus ?_ (by simp) (fun hb => h.ran_all i (.inl ?_)) ?_
      · cases b <;> simp [hi, Status.locked]
      · cases b <;> simp_all
      · cases b <;> simp [hi]
    exact ⟨order, h1.returned (setStatus_self s i _)⟩

/-- **Strict two-phase locking is strictly serializable**: in every reachable state there is an
order of the clients past their lock point that serializes the state. -/
theorem exists_inv (hr : Relation.ReflTransGen (Step p) (init s₀) s) :
    ∃ order, Inv p s₀ s order := by
  induction hr with
  | refl => exact ⟨[], inv_init p s₀⟩
  | tail _ hs ih =>
    obtain ⟨order, hinv⟩ := ih
    exact inv_step hinv hs

end Preservation

end TwoPL.Lib.StrictTwoPhase
