/-
# A lookup that no lock protects

The steps of a system act on entries of a table, and the party that takes such a step has looked its
entry up before.  Where the lookup is made under the lock of the table it can be counted to the
step.  Where it is not, it takes time, and other parties link new entries into the table meanwhile:
the lookup may then come back with one of those.

`Lookups` says what such a system is: its steps, the key whose entry a party wants, and which steps
link an entry.  `raceStep` is the same system with the lookup in two steps of its own, its begin and
its end; everything else is as coarse as it was.

The two are compared step by step:

* `step_of_raceStep`, `run_of_raceRun`: while no entry is linked during somebody else's lookup
  (`RaceFree`), every lookup finds the entry of its own key and the runs are runs of the system;
* `exists_raceRun`: every run of the system is such a run;
* `exists_raceStep`, `terminatesWithin_of_terminates`: a party that can go on can go on, and nobody
  goes on for ever by looking up.
-/
import TwoPL.Lib.Termination

namespace TwoPL.Lib

variable {S L P K : Type*}

/-! ## 1. Lookups that take time -/

/-- Where the lookup of a party is. -/
inductive Lookup (K : Type*)
  /-- None has been made for what the party does next. -/
  | idle
  /-- Under way; these entries have been linked since it began. -/
  | searching (linked : List K)
  | found (entry : K)
  deriving DecidableEq

/-- It is under way. -/
def Lookup.isSearching : Lookup K → Bool
  | .searching _ => true
  | _ => false

/-- The lookup after one more entry has been linked, if one has. -/
def Lookup.disturb : Lookup K → Option K → Lookup K
  | .searching linked, some key => .searching (key :: linked)
  | lookup, _ => lookup

@[simp] theorem Lookup.disturb_none (lookup : Lookup K) : lookup.disturb none = lookup := by
  cases lookup <;> rfl

@[simp] theorem Lookup.disturb_eq_idle {lookup : Lookup K} {key : Option K} :
    lookup.disturb key = .idle ↔ lookup = .idle := by
  cases lookup <;> cases key <;> simp [disturb]

@[simp] theorem Lookup.disturb_eq_found {lookup : Lookup K} {key : Option K} {entry : K} :
    lookup.disturb key = .found entry ↔ lookup = .found entry := by
  cases lookup <;> cases key <;> simp [disturb]

/-- What is left of a lookup. -/
def Lookup.rank : Lookup K → ℕ
  | .idle => 2
  | .searching _ => 1
  | .found _ => 0

/-- A system whose parties look entries up: the system as it is when every lookup finds the entry of
its key. -/
structure Lookups (S L P K : Type*) where
  step : S → L → Option S
  /-- The step, on the given entry in the place of the one that its party wants. -/
  stepOn : K → S → L → Option S
  /-- Who takes the step, if it is one of the parties. -/
  party : L → Option P
  /-- The key whose entry the steps of the party act on. -/
  wants : S → P → Option K
  /-- The key of the entry that a step links into the table in which the party looks up. -/
  links : S → L → P → Option K
  /-- Who a party was before the step. -/
  origin : S → L → P → P
  stepOn_self : ∀ {s l p k}, party l = some p → wants s p = some k → stepOn k s l = step s l
  /-- A party that wants an entry wants no other one before it has stopped to want it. -/
  wants_eq : ∀ {s l s' p k k'}, step s l = some s' → wants s (origin s l p) = some k →
    wants s' p = some k' → k' = k

/-- A state, and the lookups under way in it. -/
structure Racing (S P K : Type*) where
  sys : S
  lookups : P → Lookup K

inductive RaceLabel (L P K : Type*)
  | act (l : L)
  /-- The lookup of `p` begins. -/
  | search (p : P)
  /-- It ends, with this entry. -/
  | find (p : P) (entry : K)
  deriving DecidableEq

namespace Lookups

variable (Y : Lookups S L P K)

/-- Nobody has looked anything up. -/
def start (s : S) : Racing S P K where
  sys := s
  lookups := fun _ => .idle

/-- The key whose entry a step acts on. -/
def wanted (s : S) (l : L) : Option K := (Y.party l).bind (Y.wants s)

variable [DecidableEq P]

/-- The entry that a step links while the party `p`, somebody else, may be searching. -/
def disturbs (s : S) (l : L) (p : P) : Option K :=
  if Y.party l = some p then none else Y.links s l p

/-- The state after a step of the system; the lookup of a party that wants no entry any more is
over. -/
def after (w : Racing S P K) (l : L) (s' : S) : Racing S P K where
  sys := s'
  lookups p :=
    if (Y.wants s' p).isNone then .idle
    else (w.lookups (Y.origin w.sys l p)).disturb (Y.disturbs w.sys l (Y.origin w.sys l p))

/-- The system with the lookups as steps.  A lookup ends with the entry of its key, or with one that
was linked while it was under way. -/
def raceStep [DecidableEq K] (w : Racing S P K) : RaceLabel L P K → Option (Racing S P K)
  | .act l =>
    if (Y.wanted w.sys l).isNone then (Y.step w.sys l).map (Y.after w l)
    else
      match (Y.party l).map w.lookups with
      | some (.found entry) => (Y.stepOn entry w.sys l).map (Y.after w l)
      | _ => none
  | .search p =>
    match Y.wants w.sys p, w.lookups p with
    | some _, .idle => some { w with lookups := Function.update w.lookups p (.searching []) }
    | _, _ => none
  | .find p entry =>
    match Y.wants w.sys p, w.lookups p with
    | some key, .searching linked =>
      if entry = key ∨ entry ∈ linked then
        some { w with lookups := Function.update w.lookups p (.found entry) }
      else none
    | _, _ => none

/-- The party that moves. -/
def mover : RaceLabel L P K → Option P
  | .act l => Y.party l
  | .search p => some p
  | .find p _ => some p

/-- The step links no entry while another party is searching for one. -/
def RaceFree (w : Racing S P K) : RaceLabel L P K → Prop
  | .act l => ∀ p, (w.lookups p).isSearching = true → Y.disturbs w.sys l p = none
  | _ => True

/-- A condition on the steps of the system, where the lookups are steps too. -/
def OnActs (ok : S → L → Prop) (w : Racing S P K) (x : RaceLabel L P K) : Prop :=
  ∀ l, x = .act l → ok w.sys l

/-- Both. -/
def RaceFreeAnd (ok : S → L → Prop) (w : Racing S P K) (x : RaceLabel L P K) : Prop :=
  Y.RaceFree w x ∧ OnActs ok w x

instance [Fintype P] (w : Racing S P K) : (x : RaceLabel L P K) → Decidable (Y.RaceFree w x)
  | .act l => inferInstanceAs
      (Decidable (∀ p, (w.lookups p).isSearching = true → Y.disturbs w.sys l p = none))
  | .search _ => .isTrue trivial
  | .find _ _ => .isTrue trivial

instance {ok : S → L → Prop} [∀ s l, Decidable (ok s l)] (w : Racing S P K) :
    (x : RaceLabel L P K) → Decidable (OnActs ok w x)
  | .act l => decidable_of_iff (ok w.sys l) (by simp [OnActs])
  | .search _ => .isTrue (by simp [OnActs])
  | .find _ _ => .isTrue (by simp [OnActs])

instance {ok : S → L → Prop} [Fintype P] [∀ s l, Decidable (ok s l)] (w : Racing S P K)
    (x : RaceLabel L P K) : Decidable (Y.RaceFreeAnd ok w x) :=
  inferInstanceAs (Decidable (_ ∧ _))

/-- **Everything a step can do.** -/
inductive RaceStepped (w : Racing S P K) : RaceLabel L P K → Racing S P K → Prop
  /-- A step that acts on no entry. -/
  | act {l s'} : Y.wanted w.sys l = none → Y.step w.sys l = some s' →
      RaceStepped w (.act l) (Y.after w l s')
  /-- A step on the entry that its party has found. -/
  | actOn {l p key entry s'} : Y.party l = some p → Y.wants w.sys p = some key →
      w.lookups p = .found entry → Y.stepOn entry w.sys l = some s' →
      RaceStepped w (.act l) (Y.after w l s')
  | search {p key} : Y.wants w.sys p = some key → w.lookups p = .idle →
      RaceStepped w (.search p)
        { w with lookups := Function.update w.lookups p (.searching []) }
  | find {p key linked entry} : Y.wants w.sys p = some key →
      w.lookups p = .searching linked → entry = key ∨ entry ∈ linked →
      RaceStepped w (.find p entry)
        { w with lookups := Function.update w.lookups p (.found entry) }

variable {Y} {w w' : Racing S P K} {l : L} {s₀ s' : S}

theorem raceStepped_of_raceStep [DecidableEq K] {x : RaceLabel L P K}
    (h : Y.raceStep w x = some w') : RaceStepped Y w x w' := by
  cases x with
  | act l =>
    simp only [raceStep] at h
    split at h
    · rename_i hwanted
      obtain ⟨s', hs, rfl⟩ := Option.map_eq_some_iff.mp h
      exact .act (Option.isNone_iff_eq_none.mp hwanted) hs
    · rename_i hwanted
      split at h
      · rename_i entry hentry
        obtain ⟨s', hs, rfl⟩ := Option.map_eq_some_iff.mp h
        obtain ⟨p, hp, hfound⟩ := Option.map_eq_some_iff.mp hentry
        obtain ⟨key, hkey⟩ := Option.ne_none_iff_exists'.mp
          (mt Option.isNone_iff_eq_none.mpr hwanted)
        rw [wanted, hp, Option.bind_some] at hkey
        exact .actOn hp hkey hfound hs
      · exact absurd h (by simp)
  | search p =>
    simp only [raceStep] at h
    split at h
    · rename_i hkey hidle
      rw [Option.some.injEq] at h
      exact h ▸ .search hkey hidle
    · exact absurd h (by simp)
  | find p entry =>
    simp only [raceStep] at h
    split at h
    · rename_i key linked hkey hsearching
      split at h
      · rename_i hentry
        rw [Option.some.injEq] at h
        exact h ▸ .find hkey hsearching hentry
      · exact absurd h (by simp)
    · exact absurd h (by simp)

/-- A step that acts on no entry is one of the system. -/
theorem raceStep_of_wanted_none [DecidableEq K] (hwanted : Y.wanted w.sys l = none)
    (hs : Y.step w.sys l = some s') : Y.raceStep w (.act l) = some (Y.after w l s') := by
  simp [raceStep, hwanted, hs]

/-- A party that is alone disturbs nobody. -/
theorem raceFree_of_alone (h : ∀ l p, Y.party l = some p) (x : RaceLabel L P K) :
    Y.RaceFree w x := by
  cases x with
  | act l => exact fun p _ => by rw [disturbs, if_pos (h l p)]
  | search p => trivial
  | find p entry => trivial

/-! ## 2. Runs without a race -/

/-- Every lookup is about the entry of its own key, and none has been disturbed. -/
structure Sound (Y : Lookups S L P K) (w : Racing S P K) : Prop where
  wanted : ∀ p, Y.wants w.sys p = none → w.lookups p = .idle
  searching : ∀ p linked, w.lookups p = .searching linked → linked = []
  found : ∀ p entry, w.lookups p = .found entry → Y.wants w.sys p = some entry

omit [DecidableEq P] in
theorem sound_start (Y : Lookups S L P K) (s : S) : Sound Y (start s) where
  wanted _ _ := rfl
  searching _ _ h := by simp [start] at h
  found _ _ h := by simp [start] at h

/-- A step of the system that disturbs nobody. -/
theorem Sound.after (h : Sound Y w) (hs : Y.step w.sys l = some s')
    (hfree : Y.RaceFree w (.act l : RaceLabel L P K)) : Sound Y (Y.after w l s') where
  wanted p hp := by
    have hp : Y.wants s' p = none := hp
    simp [Lookups.after, hp]
  searching p linked hl := by
    simp only [Lookups.after] at hl
    split at hl
    · exact absurd hl (by simp)
    · cases hd : Y.disturbs w.sys l (Y.origin w.sys l p) with
      | none =>
        rw [hd, Lookup.disturb_none] at hl
        exact h.searching _ _ hl
      | some key =>
        -- an entry is linked: then the lookup is not under way
        cases hlook : w.lookups (Y.origin w.sys l p) with
        | searching linked' =>
          have hnone := hfree (Y.origin w.sys l p) (by rw [hlook]; rfl)
          exact absurd (hd.symm.trans hnone) (by simp)
        | idle => simp [hlook, Lookup.disturb] at hl
        | found entry => simp [hlook, Lookup.disturb] at hl
  found p entry hl := by
    simp only [Lookups.after] at hl
    split at hl
    · exact absurd hl (by simp)
    · rename_i hsome
      obtain ⟨key, hkey⟩ := Option.ne_none_iff_exists'.mp
        (mt Option.isNone_iff_eq_none.mpr hsome)
      rw [Lookup.disturb_eq_found] at hl
      show Y.wants s' p = some entry
      rw [hkey, Y.wants_eq hs (h.found _ _ hl) hkey]

/-- A lookup goes on. -/
theorem Sound.update (h : Sound Y w) {p : P} {key : K} {lookup : Lookup K}
    (hkey : Y.wants w.sys p = some key)
    (hsearching : ∀ linked, lookup = .searching linked → linked = [])
    (hfound : ∀ entry, lookup = .found entry → entry = key) :
    Sound Y { w with lookups := Function.update w.lookups p lookup } where
  wanted q hq := by
    have hqp : q ≠ p := by
      rintro rfl
      exact absurd (hkey.symm.trans hq) (by simp)
    simpa [hqp] using h.wanted q hq
  searching q linked hq := by
    by_cases hqp : q = p
    · subst hqp
      exact hsearching linked (by simpa using hq)
    · exact h.searching q linked (by simpa [hqp] using hq)
  found q entry hq := by
    by_cases hqp : q = p
    · subst hqp
      rw [hfound entry (by simpa using hq)]
      exact hkey
    · exact h.found q entry (by simpa [hqp] using hq)

/-- **In a sound state a step is a step of the system**, on the right entry. -/
theorem step_of_raceStepped (h : Sound Y w) {x : RaceLabel L P K} (hs : RaceStepped Y w x w') :
    (∃ l, x = .act l ∧ Y.step w.sys l = some w'.sys ∧ w' = Y.after w l w'.sys) ∨
      ((∀ l, x ≠ .act l) ∧ w'.sys = w.sys) := by
  cases hs with
  | act _ hs => exact .inl ⟨_, rfl, hs, rfl⟩
  | actOn hp hkey hfound hs =>
    have hself := h.found _ _ hfound
    rw [Y.stepOn_self hp hself] at hs
    exact .inl ⟨_, rfl, hs, rfl⟩
  | search _ _ => exact .inr ⟨by simp, rfl⟩
  | find _ _ _ => exact .inr ⟨by simp, rfl⟩

theorem sound_step (h : Sound Y w) {x : RaceLabel L P K} (hfree : Y.RaceFree w x)
    (hs : RaceStepped Y w x w') : Sound Y w' := by
  have hs' := hs
  cases hs with
  | act _ hs => exact h.after hs hfree
  | actOn hp hkey hfound hs =>
    rw [Y.stepOn_self hp (h.found _ _ hfound)] at hs
    exact h.after hs hfree
  | search hkey _ => exact h.update hkey (by simp) (by simp)
  | @find p key linked entry hkey hsearching hentry =>
    -- nothing was linked, so that it is the entry of the key
    rw [h.searching _ _ hsearching] at hentry
    exact h.update hkey (by simp) fun e he => by simpa [← Lookup.found.inj he] using hentry

variable [DecidableEq K]

/-- **A run in which no lookup is disturbed is a run of the system.** -/
theorem run_of_raceRun_from {ok : S → L → Prop} (h : Sound Y w)
    (hr : Run Y.raceStep (Y.RaceFreeAnd ok) w w') : Run Y.step ok w.sys w'.sys ∧ Sound Y w' := by
  induction hr with
  | refl => exact ⟨.refl, h⟩
  | tail _ hok hs ih =>
    obtain ⟨hrun, hsound⟩ := ih
    have hstepped := raceStepped_of_raceStep hs
    refine ⟨?_, sound_step hsound hok.1 hstepped⟩
    rcases step_of_raceStepped hsound hstepped with ⟨l, rfl, hstep, -⟩ | ⟨-, hsame⟩
    · exact hrun.tail (hok.2 l rfl) hstep
    · rwa [hsame]

/-- ... from the start. -/
theorem run_of_raceRun {ok : S → L → Prop} (hr : Run Y.raceStep (Y.RaceFreeAnd ok) (start s₀) w) :
    Run Y.step ok s₀ w.sys ∧ Sound Y w :=
  run_of_raceRun_from (sound_start Y s₀) hr

/-- What a step comes to in such a run. -/
theorem sys_of_raceStep (h : Sound Y w) {x : RaceLabel L P K} (hs : Y.raceStep w x = some w') :
    (∃ l, x = .act l ∧ Y.step w.sys l = some w'.sys) ∨
      ((∀ l, x ≠ .act l) ∧ w'.sys = w.sys) := by
  rcases step_of_raceStepped h (raceStepped_of_raceStep hs) with ⟨l, hx, hstep, -⟩ | hsame
  · exact .inl ⟨l, hx, hstep⟩
  · exact .inr hsame

/-- The same without a condition on the steps of the system. -/
theorem reachable_of_raceRun (hr : Run Y.raceStep Y.RaceFree (start s₀) w) :
    Reachable Y.step s₀ w.sys ∧ Sound Y w :=
  run_of_raceRun (hr.mono fun _ _ hok => ⟨hok, fun _ _ => trivial⟩)

/-! ## 3. Every run of the system is one of them -/

/-- Nobody is searching. -/
def Quiet (w : Racing S P K) : Prop := ∀ p, (w.lookups p).isSearching = false

omit [DecidableEq K] in
theorem Quiet.raceFree (h : Quiet w) (x : RaceLabel L P K) : Y.RaceFree w x := by
  cases x with
  | act l => exact fun p hp => absurd hp (by simp [h p])
  | search p => trivial
  | find p entry => trivial

omit [DecidableEq K] in
theorem Quiet.after (h : Quiet w) (l : L) (s' : S) : Quiet (Y.after w l s') := by
  intro p
  have hp := h (Y.origin w.sys l p)
  simp only [Lookups.after]
  split
  · rfl
  · cases hlook : w.lookups (Y.origin w.sys l p) with
    | searching linked => simp [hlook, Lookup.isSearching] at hp
    | idle => rfl
    | found entry => rfl

/-- A party can look up what it wants without being disturbed. -/
theorem exists_found {ok : S → L → Prop} (hq : Quiet w) (h : Sound Y w) {p : P} {key : K}
    (hkey : Y.wants w.sys p = some key) :
    ∃ w', Run Y.raceStep (Y.RaceFreeAnd ok) w w' ∧ w'.sys = w.sys ∧ w'.lookups p = .found key ∧
      Quiet w' := by
  cases hlook : w.lookups p with
  | searching linked => exact absurd (hq p) (by simp [hlook, Lookup.isSearching])
  | found entry =>
    have he : entry = key := Option.some.inj ((h.found _ _ hlook).symm.trans hkey)
    exact ⟨w, .refl, rfl, by rw [hlook, he], hq⟩
  | idle =>
    -- it begins to search, and finds its own entry at once
    have hsearch : Y.raceStep w (.search p)
        = some { w with lookups := Function.update w.lookups p (.searching []) } := by
      simp [raceStep, hkey, hlook]
    have hfind : Y.raceStep { w with lookups := Function.update w.lookups p (.searching []) }
        (.find p key) = some { w with lookups := Function.update w.lookups p (.found key) } := by
      simp [raceStep, hkey]
    refine ⟨_, ((Run.refl.tail ?_ hsearch).tail ?_ hfind), rfl, by simp, fun q => ?_⟩
    · exact ⟨trivial, by simp [OnActs]⟩
    · exact ⟨trivial, by simp [OnActs]⟩
    · by_cases hqp : q = p
      · subst hqp
        simp [Lookup.isSearching]
      · simpa [hqp] using hq q

/-- **Every run of the system is a run in which no lookup is disturbed.** -/
theorem exists_raceRun {ok : S → L → Prop} {s : S} (hr : Run Y.step ok s₀ s) :
    ∃ w, Run Y.raceStep (Y.RaceFreeAnd ok) (start s₀) w ∧ w.sys = s ∧ Quiet w := by
  induction hr with
  | refl => exact ⟨start s₀, .refl, rfl, fun p => rfl⟩
  | @tail s s' l _ hok hs ih =>
    obtain ⟨w, hrun, rfl, hq⟩ := ih
    cases hwanted : Y.wanted w.sys l with
    | none =>
      have hact := raceStep_of_wanted_none hwanted hs
      refine ⟨_, hrun.tail ⟨hq.raceFree _, ?_⟩ hact, rfl, hq.after l s'⟩
      rintro l' ⟨⟩
      exact hok
    | some key =>
      obtain ⟨p, hp, hkey⟩ := Option.bind_eq_some_iff.mp hwanted
      obtain ⟨w₁, hrun₁, hsys, hfound, hq₁⟩ := exists_found hq (run_of_raceRun hrun).2 hkey
      rw [← hsys] at hs hwanted hkey hok
      have hact : Y.raceStep w₁ (.act l) = some (Y.after w₁ l s') := by
        simp [raceStep, hwanted, hp, hfound, Y.stepOn_self hp hkey, hs]
      refine ⟨_, (hrun.trans hrun₁).tail ⟨hq₁.raceFree _, ?_⟩ hact, rfl, hq₁.after l s'⟩
      rintro l' ⟨⟩
      exact hok

/-! ## 4. Progress -/

/-- **A party that can go on in the system can go on**: with its step, or with its lookup. -/
theorem exists_raceStep (h : Sound Y w) (hs : Y.step w.sys l = some s') :
    ∃ x w', Y.mover x = Y.party l ∧ Y.raceStep w x = some w' := by
  cases hwanted : Y.wanted w.sys l with
  | none => exact ⟨.act l, _, rfl, raceStep_of_wanted_none hwanted hs⟩
  | some key =>
    obtain ⟨p, hp, hkey⟩ := Option.bind_eq_some_iff.mp hwanted
    cases hlook : w.lookups p with
    | idle => exact ⟨.search p, _, hp.symm, by simp only [raceStep, hkey, hlook]; rfl⟩
    | searching linked =>
      exact ⟨.find p key, _, hp.symm, by
        simp only [raceStep, hkey, hlook, true_or, if_true]; rfl⟩
    | found entry =>
      have hself : Y.stepOn entry w.sys l = some s' := by
        rw [Y.stepOn_self hp (h.found _ _ hlook), hs]
      refine ⟨.act l, Y.after w l s', rfl, ?_⟩
      simp [raceStep, hwanted, hp, hlook, hself]

/-- Where the system is stuck and nobody wants an entry, nobody can move. -/
theorem raceStep_eq_none (hstuck : ∀ l, Y.step w.sys l = none)
    (hwants : ∀ p, Y.wants w.sys p = none) (x : RaceLabel L P K) : Y.raceStep w x = none := by
  by_contra hstep
  obtain ⟨w', hs⟩ := Option.ne_none_iff_exists'.mp hstep
  cases raceStepped_of_raceStep hs with
  | act _ hact => exact absurd hact (by simp [hstuck])
  | actOn _ hkey _ _ | search hkey _ | find hkey _ _ => exact absurd hkey (by simp [hwants])

omit [DecidableEq K] in
/-- What is left of the lookups goes down with every step that is none of the system. -/
theorem rank_lt [Fintype P] {x : RaceLabel L P K} (hx : ∀ l, x ≠ .act l)
    (hs : RaceStepped Y w x w') :
    ∑ p, (w'.lookups p).rank < ∑ p, (w.lookups p).rank := by
  cases hs with
  | act _ _ => exact absurd rfl (hx _)
  | actOn _ _ _ _ => exact absurd rfl (hx _)
  | @search p key _ hidle =>
    have hsum := sum_update_add w.lookups Lookup.rank p (.searching [])
    simp only [hidle, Lookup.rank] at hsum ⊢
    omega
  | @find p key linked entry _ hsearching _ =>
    have hsum := sum_update_add w.lookups Lookup.rank p (.found entry)
    simp only [hsearching, Lookup.rank] at hsum ⊢
    omega

/-- A party that has found an entry goes on with it until it wants none any more. -/
theorem exists_raceRun_on (horigin : ∀ s l p, Y.origin s l p = p) {p : P} {entry : K} :
    ∀ (ls : List L) {w : Racing S P K} {s' : S},
      w.lookups p = .found entry ∨ Y.wants w.sys p = none →
      runChecked (Y.stepOn entry) (fun s l => decide (Y.party l = some p) && (Y.wants s p).isSome)
        w.sys ls = some s' →
      ∃ w', Reachable Y.raceStep w w' ∧ w'.sys = s'
  | [], w, s', _, h => by
    rw [runChecked, Option.some.injEq] at h
    exact ⟨w, .refl, h⟩
  | l :: ls, w, s', hp, h => by
    rw [runChecked] at h
    split at h
    · rename_i hok
      rw [Bool.and_eq_true, decide_eq_true_eq, Option.isSome_iff_exists] at hok
      obtain ⟨hparty, key, hkey⟩ := hok
      obtain ⟨s₁, hs₁, hrest⟩ := Option.bind_eq_some_iff.mp h
      have hfound : w.lookups p = .found entry := hp.resolve_right (by rw [hkey]; simp)
      have hact : Y.raceStep w (.act l) = some (Y.after w l s₁) := by
        simp [raceStep, wanted, hparty, hkey, hfound, hs₁]
      have hnext : (Y.after w l s₁).lookups p = .found entry ∨ Y.wants s₁ p = none := by
        cases hwants : Y.wants s₁ p with
        | none => exact .inr rfl
        | some key' => exact .inl (by simp [Lookups.after, horigin, hwants, hfound])
      obtain ⟨w', hr, hsys⟩ := exists_raceRun_on horigin ls (w := Y.after w l s₁) hnext hrest
      exact ⟨w', (Run.refl.tail trivial hact).trans hr, hsys⟩
    · exact absurd h (by simp)

/-- **Nobody goes on for ever by looking up**: where the system has no infinite run, the system with
lookups has none whose steps are free of races. -/
theorem terminatesWithin_of_terminates [Finite P] (h : Terminates Y.step s₀) :
    TerminatesWithin Y.raceStep Y.RaceFree (start s₀) := by
  have := Fintype.ofFinite P
  suffices hall : ∀ s, Acc (fun s' s => ∃ l, Y.step s l = some s') s →
      ∀ n w, w.sys = s → ∑ p, (w.lookups p).rank = n → Sound Y w →
        TerminatesWithin Y.raceStep Y.RaceFree w from
    hall s₀ (acc_of_terminates h) _ (start s₀) rfl rfl (sound_start Y s₀)
  intro s hacc
  induction hacc with
  | intro s _ ih =>
    intro n
    induction n using Nat.strong_induction_on with
    | h n ihn =>
      rintro w rfl rfl hsound ⟨run, hrun₀, hrun⟩
      obtain ⟨x, hfree, hx⟩ := hrun 0
      rw [hrun₀] at hx hfree
      have hstepped := raceStepped_of_raceStep hx
      have hsound' := sound_step hsound hfree hstepped
      have hrest : ¬ TerminatesWithin Y.raceStep Y.RaceFree (run 1) := fun h =>
        h ⟨fun n => run (n + 1), rfl, fun n => hrun (n + 1)⟩
      rcases step_of_raceStepped hsound hstepped with ⟨l, -, hs, -⟩ | ⟨hnot, hsame⟩
      · exact hrest (ih _ ⟨l, hs⟩ _ (run 1) rfl rfl hsound')
      · exact hrest (ihn _ (rank_lt hnot hstepped) (run 1) hsame rfl hsound')

end Lookups

end TwoPL.Lib
