/-
# What the lock manager knows of a transaction

`held_locks` lists, for each transaction id, the keys that `release_all` will give back, and it is
what `holds_lock` reads.  `acquire` enters a key BEFORE it has the lock, and takes it out again on
no path: only a `release` that frees the key does, and `release_all`.

For `release_all` this is the right way round.  Whatever a transaction owns is recorded, because it
was recorded first (`HeldInv`), so nothing is left behind when `release_all` returns
(`release_all_complete`).  All that is asked is that the calls made for the transaction itself do
not overlap; what others do is arbitrary.  It has to be the entry of the recorded key that is polled
afterwards: `LookupClients.lean` has the `acquire` that finds another one.

For `holds_lock` it is the wrong one.  An `acquire` that gave up leaves its key in the list, and
`holds_lock` then answers yes for a key that somebody else owns.  Exactly then (`holds_lock_iff`).
-/
import TwoPL.LockClients

namespace TwoPL

open Lib

namespace Clients

variable {τ : Type*} [DecidableEq τ] {t : TransactionId} {w w' : Clients τ}

/-! ## 1. Every owned key is recorded -/

/-- A call for `t` starts only while no other call for `t` is under way. -/
def NoOverlapFor (t : TransactionId) (w : Clients τ) : ClientLabel τ → Prop
  | .invoke _ req => req.txId = t → ∀ thread c, w.calls thread = some c → c.txId ≠ t
  | .advance _ _ => True

instance [Fintype τ] (t : TransactionId) (w : Clients τ) :
    (l : ClientLabel τ) → Decidable (w.NoOverlapFor t l)
  | .invoke _ req => inferInstanceAs
      (Decidable (req.txId = t → ∀ thread c, w.calls thread = some c → c.txId ≠ t))
  | .advance _ _ => .isTrue trivial

/-- The calls of a single thread follow each other, so that those for `t` do not overlap. -/
theorem run_of_sequential [Subsingleton τ] (hr : Reachable step (initial τ) w) :
    Run step (NoOverlapFor t) (initial τ) w := by
  induction hr with
  | refl => exact .refl
  | @tail w w' l _ _ hs ih =>
    refine ih.tail ?_ hs
    cases l with
    | invoke thread req =>
      intro _ th c hc
      cases stepped_of_step hs with
      | invoke hidle =>
        rw [Subsingleton.elim th thread, hidle] at hc
        exact absurd hc (by simp)
    | advance thread order => trivial

/-- What the tables say of `t` while this call of it is under way. -/
def Tracked (lm : LockManager) (t : TransactionId) : Call → Prop
  | .acquire k _ stage =>
    lm.Recorded t [] ∧ (stage.polls = true → k ∈ lm.keysToRelease t) ∧
      ∀ n, stage = .sleep n → lm.owner k ≠ some t
  | .release _ _ => lm.Recorded t []
  | .releaseAll _ stage => stage.Covers lm t

/-- The invariant of a run in which the calls for `t` do not overlap. -/
structure HeldInv (t : TransactionId) (w : Clients τ) : Prop where
  alone : ∀ th th' c c', w.calls th = some c → w.calls th' = some c' → c.txId = t →
    c'.txId = t → th = th'
  busy : ∀ th c, w.calls th = some c → c.txId = t → Tracked w.lm t c
  idle : (∀ th c, w.calls th = some c → c.txId ≠ t) → w.lm.Recorded t []

theorem Tracked.of_sameFor {lm lm' : LockManager} {c : Call} (h : Tracked lm t c)
    (hsame : lm.SameFor lm' t) : Tracked lm' t c := by
  cases c with
  | acquire k t' stage =>
    refine ⟨hsame.recorded h.1, fun hp => ?_, fun n hn hk => ?_⟩
    · rw [hsame.keysToRelease]
      exact h.2.1 hp
    · exact h.2.2 n hn ((hsame.owner k).mp hk)
  | release k t' => exact hsame.recorded h
  | releaseAll t' stage => exact ReleaseAllStage.Covers.of_sameFor h hsame

/-- A call has recorded nothing less when it begins. -/
theorem tracked_begin {lm : LockManager} (req : Request) (h : lm.Recorded t []) :
    Tracked lm t req.begin := by
  cases req with
  | acquire k t' => exact ⟨h, by simp [AcquireStage.polls], by simp⟩
  | release k t' => exact h
  | releaseAll t' => exact h

omit [DecidableEq τ] in
theorem heldInv_initial (t : TransactionId) : HeldInv t (initial τ) where
  alone := by simp [initial]
  busy := by simp [initial]
  idle _ k hk := by simp [initial] at hk

/-- The calls after one of them has moved or ended. -/
theorem setCall_cases {thread th : τ} {c : Option Call} {d : Call}
    (h : w.setCall thread c th = some d) :
    (th = thread ∧ c = some d) ∨ (th ≠ thread ∧ w.calls th = some d) := by
  by_cases hth : th = thread
  · subst hth
    exact .inl ⟨rfl, by simpa [setCall] using h⟩
  · exact .inr ⟨hth, by simpa [setCall, hth] using h⟩

/-- A section of a call for another transaction. -/
theorem HeldInv.of_other (h : HeldInv t w) {thread : τ} {c : Call} {c' : Option Call}
    {lm : LockManager} {hist : List (ClientEvent τ)} (hc : w.calls thread = some c)
    (hne : c.txId ≠ t) (hreq : ∀ d, c' = some d → d.txId = c.txId)
    (hsame : w.lm.SameFor lm t) : HeldInv t ⟨lm, w.setCall thread c', hist⟩ := by
  have hold : ∀ {th d}, w.setCall thread c' th = some d → d.txId = t → w.calls th = some d := by
    intro th d hd hdt
    rcases setCall_cases hd with ⟨rfl, hd'⟩ | ⟨-, hd'⟩
    · exact absurd ((hreq d hd').symm.trans hdt) hne
    · exact hd'
  refine ⟨fun th th' d d' hd hd' hdt hdt' => ?_, fun th d hd hdt => ?_, fun hidle => ?_⟩
  · exact h.alone th th' d d' (hold hd hdt) (hold hd' hdt') hdt hdt'
  · exact (h.busy th d (hold hd hdt) hdt).of_sameFor hsame
  · refine hsame.recorded (h.idle fun th d hd hdt => ?_)
    by_cases hth : th = thread
    · subst hth
      rw [hc, Option.some.injEq] at hd
      exact hne (hd ▸ hdt)
    · exact hidle th d (by simpa [setCall, hth] using hd) hdt

/-- A section of the call for `t`, which goes on or ends. -/
theorem HeldInv.of_own (h : HeldInv t w) {thread : τ} {c : Call} {c' : Option Call}
    {lm : LockManager} {hist : List (ClientEvent τ)} (hc : w.calls thread = some c)
    (ht : c.txId = t) (hgoes : ∀ d, c' = some d → Tracked lm t d)
    (hends : c' = none → lm.Recorded t []) (hreq : ∀ d, c' = some d → d.txId = t) :
    HeldInv t ⟨lm, w.setCall thread c', hist⟩ := by
  -- no other call for `t` is under way
  have hown : ∀ {th d}, w.setCall thread c' th = some d → d.txId = t →
      th = thread ∧ c' = some d := by
    intro th d hd hdt
    rcases setCall_cases hd with hnew | ⟨hth, hold⟩
    · exact hnew
    · exact absurd (h.alone th thread d c hold hc hdt ht) hth
  refine ⟨fun th th' d d' hd hd' hdt hdt' => ?_, fun th d hd hdt => ?_, fun hidle => ?_⟩
  · exact (hown hd hdt).1.trans (hown hd' hdt').1.symm
  · exact hgoes d (hown hd hdt).2
  · refine hends ?_
    cases c' with
    | none => rfl
    | some d => exact absurd (hreq d rfl) (hidle thread d (by simp [setCall]))

theorem heldInv_invoke (h : HeldInv t w) {thread : τ} {req : Request}
    (hidle : w.calls thread = none)
    (hok : req.txId = t → ∀ th c, w.calls th = some c → c.txId ≠ t) :
    HeldInv t { w with
      calls := w.setCall thread (some req.begin), hist := w.hist ++ [.invoked thread req] } := by
  have hreq : req.begin.txId = req.txId := congrArg Request.txId req.request_begin
  refine ⟨fun th th' d d' hd hd' hdt hdt' => ?_, fun th d hd hdt => ?_, fun hno => ?_⟩
  · rcases setCall_cases hd with ⟨rfl, hnew⟩ | ⟨hth, hold⟩ <;>
      rcases setCall_cases hd' with ⟨rfl, hnew'⟩ | ⟨hth', hold'⟩
    · rfl
    · rw [Option.some.injEq] at hnew
      exact absurd hdt' (hok (hreq ▸ hnew ▸ hdt) th' d' hold')
    · rw [Option.some.injEq] at hnew'
      exact absurd hdt (hok (hreq ▸ hnew' ▸ hdt') th d hold)
    · exact h.alone th th' d d' hold hold' hdt hdt'
  · rcases setCall_cases hd with ⟨rfl, hnew⟩ | ⟨hth, hold⟩
    · rw [Option.some.injEq] at hnew
      exact hnew ▸ tracked_begin req (h.idle (hok (hreq ▸ hnew ▸ hdt)))
    · exact h.busy th d hold hdt
  · refine h.idle fun th d hd => hno th d ?_
    by_cases hth : th = thread
    · subst hth
      rw [hidle] at hd
      exact absurd hd (by simp)
    · simpa [setCall, hth] using hd

theorem heldInv_section (h : HeldInv t w) {thread : τ} (hs : Sectioned w thread w') :
    HeldInv t w' := by
  cases hs with
  | @acquiring key txId stage stage' lm hc hacq =>
    by_cases ht : txId = t
    · subst ht
      obtain ⟨hrec, hkey, hsleep⟩ := h.busy thread _ hc rfl
      refine h.of_own hc rfl ?_ (by simp) ?_
      · rintro _ ⟨⟩
        refine ⟨hacq.recorded hrec hkey, hacq.polls_recorded hkey, fun n hn => ?_⟩
        subst hn
        exact hacq.sleep_owner hsleep
      · rintro _ ⟨⟩; rfl
    · refine h.of_other hc ht ?_ (hacq.sameFor (Ne.symm ht))
      rintro _ ⟨⟩; rfl
  | @acquired key txId stage lm result hc hacq =>
    by_cases ht : txId = t
    · subst ht
      obtain ⟨hrec, hkey, -⟩ := h.busy thread _ hc rfl
      exact h.of_own hc rfl (by simp) (fun _ => hacq.recorded hrec hkey) (by simp)
    · exact h.of_other hc ht (by simp) (hacq.sameFor (Ne.symm ht))
  | @released key txId hc =>
    by_cases ht : txId = t
    · subst ht
      have hrec : w.lm.Recorded txId [] := h.busy thread _ hc rfl
      refine h.of_own hc rfl (by simp) (fun _ => ?_) (by simp)
      exact LockManager.Recorded.release fun k hk => (hrec k hk).imp_right (by simp)
    · exact h.of_other hc ht (by simp) (LockManager.sameFor_release _ _ (Ne.symm ht))
  | @releasingAll txId stage stage' lm hc hrel =>
    by_cases ht : txId = t
    · subst ht
      have htracked := h.busy thread _ hc rfl
      refine h.of_own hc rfl ?_ (by simp) ?_
      · rintro _ ⟨⟩
        exact hrel.covers htracked
      · rintro _ ⟨⟩; rfl
    · refine h.of_other hc ht ?_ (hrel.sameFor (Ne.symm ht))
      rintro _ ⟨⟩; rfl
  | @releasedAll txId stage lm hc hrel =>
    by_cases ht : txId = t
    · subst ht
      have htracked := h.busy thread _ hc rfl
      refine h.of_own hc rfl (by simp) (fun _ k hk => ?_) (by simp)
      exact absurd hk ((hrel.done_covers htracked).1 k)
    · exact h.of_other hc ht (by simp) (hrel.sameFor (Ne.symm ht))

theorem heldInv_step (h : HeldInv t w) {l : ClientLabel τ} (hok : w.NoOverlapFor t l)
    (hs : w.step l = some w') : HeldInv t w' := by
  cases l with
  | invoke thread req =>
    cases stepped_of_step hs with
    | invoke hidle => exact heldInv_invoke h hidle hok
  | advance thread order => exact heldInv_section h (sectioned_of_step hs)

/-- Along every run in which the calls for `t` do not overlap, what `t` owns is recorded. -/
theorem heldInv_run (hr : Run step (NoOverlapFor t) (initial τ) w) : HeldInv t w :=
  hr.invariant (heldInv_initial t) fun _ _ _ h hok hs => heldInv_step h hok hs

/-! ## 2. `release_all` is complete -/

/-- **`release_all(t)` is complete, and touches nothing else.**  None of its sections changes the
set of another transaction, or the owner of a key that another transaction owns; and when it
returns, `t` owns no key and has no set in `held_locks`. -/
theorem release_all_complete (hr : Run step (NoOverlapFor t) (initial τ) w) {thread : τ}
    {order : List KeyType} {stage : ReleaseAllStage}
    (hc : w.calls thread = some (.releaseAll t stage))
    (hs : w.step (.advance thread order) = some w') :
    (∀ t', t' ≠ t → w'.lm.heldLocks t' = w.lm.heldLocks t' ∧
      ∀ k, w.lm.owner k = some t' → w'.lm.owner k = some t') ∧
    (w'.calls thread = none → (∀ k, w'.lm.owner k ≠ some t) ∧ w'.lm.heldLocks t = none) := by
  have htracked := (heldInv_run hr).busy thread _ hc rfl
  cases sectioned_of_step hs with
  | acquiring hc' _ => rw [hc] at hc'; exact absurd hc' (by simp)
  | acquired hc' _ => rw [hc] at hc'; exact absurd hc' (by simp)
  | released hc' => rw [hc] at hc'; exact absurd hc' (by simp)
  | releasingAll hc' hrel =>
    rw [hc, Option.some.injEq, Call.releaseAll.injEq] at hc'
    obtain ⟨rfl, rfl⟩ := hc'
    refine ⟨fun t' hne => ?_, fun hends => ?_⟩
    · have hsame := hrel.sameFor hne
      exact ⟨hsame.heldLocks, fun k => (hsame.owner k).mpr⟩
    · exact absurd hends (by simp [setCall])
  | releasedAll hc' hrel =>
    rw [hc, Option.some.injEq, Call.releaseAll.injEq] at hc'
    obtain ⟨rfl, rfl⟩ := hc'
    refine ⟨fun t' hne => ?_, fun _ => hrel.done_covers htracked⟩
    have hsame := hrel.sameFor hne
    exact ⟨hsame.heldLocks, fun k => (hsame.owner k).mpr⟩

/-! ## 3. `holds_lock` -/

/-- An `acquire(k, t)` that gave up. -/
def GaveUp (k : KeyType) (t : TransactionId) : ClientEvent τ → Prop
  | .responded _ req result => req = .acquire k t ∧ result = some .ABORTED
  | .invoked _ _ => False

/-- What makes the record of `k` right again: `t` gets the key, or gives everything back. -/
def Mends (k : KeyType) (t : TransactionId) : ClientEvent τ → Prop
  | .responded _ req result =>
    (req = .acquire k t ∧ result = some .ACQUIRED) ∨ req = .releaseAll t
  | .invoked _ _ => False

/-- An `acquire(k, t)` has returned `ABORTED`, and since then neither has an `acquire(k, t)`
returned `ACQUIRED` nor has a `release_all(t)` returned. -/
def Stale (hist : List (ClientEvent τ)) (k : KeyType) (t : TransactionId) : Prop :=
  Since (GaveUp k t) (Mends k t) hist

section Events

omit [DecidableEq τ]

variable {hist : List (ClientEvent τ)} {k : KeyType} {thread : τ} {req : Request}
  {result : Option AcquireResult}

theorem stale_append {e : ClientEvent τ} :
    Stale (hist ++ [e]) k t ↔ GaveUp k t e ∨ (Stale hist k t ∧ ¬ Mends k t e) :=
  since_append

@[simp] theorem stale_invoked :
    Stale (hist ++ [.invoked thread req]) k t ↔ Stale hist k t := by
  simp [stale_append, GaveUp, Mends]

/-- What is neither an `acquire(k, t)` nor a `release_all(t)` says nothing about it. -/
theorem stale_responded (hacq : req ≠ .acquire k t) (hrel : req ≠ .releaseAll t) :
    Stale (hist ++ [.responded thread req result]) k t ↔ Stale hist k t := by
  simp [stale_append, GaveUp, Mends, hacq, hrel]

/-- An `acquire(k, t)` that is granted mends the record of `k`. -/
theorem not_stale_acquired :
    ¬ Stale (hist ++ [.responded thread (.acquire k t) (some .ACQUIRED)]) k t := by
  simp [stale_append, GaveUp, Mends]

theorem stale_responded_of_ne (h : req.txId ≠ t) :
    Stale (hist ++ [.responded thread req result]) k t ↔ Stale hist k t :=
  stale_responded (by rintro rfl; exact h rfl) (by rintro rfl; exact h rfl)

end Events

/-- The keys in the set of `t` are those it owns, those an `acquire` is polling, and the stale
ones, which it does not own. -/
structure StaleInv (t : TransactionId) (w : Clients τ) : Prop where
  tracked : ∀ k, k ∈ w.lm.keysToRelease t → w.lm.owner k = some t ∨ Stale w.hist k t ∨
    ∃ th stage, w.calls th = some (.acquire k t stage) ∧ stage.polls = true
  foreign : ∀ k, Stale w.hist k t → w.lm.owner k ≠ some t
  kept : ∀ k, Stale w.hist k t → k ∈ w.lm.keysToRelease t ∨
    ∃ th keys, w.calls th = some (.releaseAll t (.releasing keys))

omit [DecidableEq τ] in
theorem staleInv_initial (t : TransactionId) : StaleInv t (initial τ) where
  tracked k hk := by simp [initial, LockManager.keysToRelease, LockManager.empty] at hk
  foreign k hk := absurd hk (not_since_nil _ _)
  kept k hk := absurd hk (not_since_nil _ _)

omit [DecidableEq τ] in
/-- What does not concern `t`: its tables, its calls and its part of the history stay. -/
theorem StaleInv.of_same (h : StaleInv t w) (hsame : w.lm.SameFor w'.lm t)
    (hcalls : ∀ th c, w.calls th = some c → c.txId = t → w'.calls th = some c)
    (hstale : ∀ k, Stale w'.hist k t ↔ Stale w.hist k t) : StaleInv t w' where
  tracked k hk := by
    rw [hsame.keysToRelease] at hk
    rw [hsame.owner, hstale]
    refine (h.tracked k hk).imp_right (Or.imp_right ?_)
    rintro ⟨th, stage, hc, hpolls⟩
    exact ⟨th, stage, hcalls th _ hc rfl, hpolls⟩
  foreign k hk := fun hown => h.foreign k ((hstale k).mp hk) ((hsame.owner k).mp hown)
  kept k hk := by
    rw [hsame.keysToRelease]
    refine (h.kept k ((hstale k).mp hk)).imp_right ?_
    rintro ⟨th, keys, hc⟩
    exact ⟨th, keys, hcalls th _ hc rfl⟩

/-- A thread that is in another call moves. -/
theorem setCall_of_call {thread th : τ} {c d : Call} {c' : Option Call}
    (hc : w.calls thread = some c) (hd : w.calls th = some d) (hne : d ≠ c) :
    w.setCall thread c' th = some d := by
  have hth : th ≠ thread := by
    rintro rfl
    rw [hc, Option.some.injEq] at hd
    exact hne hd.symm
  simpa [setCall, hth] using hd

theorem staleInv_acquiring (h : StaleInv t w) {thread : τ} {key : KeyType}
    {stage stage' : AcquireStage} {lm : LockManager}
    (hc : w.calls thread = some (.acquire key t stage))
    (hacq : AcquireStep w.lm key t stage lm (.inl stage')) :
    StaleInv t { w with lm, calls := w.setCall thread (some (.acquire key t stage')) } where
  tracked k hk := by
    have hself : w.setCall thread (some (.acquire key t stage')) thread
        = some (.acquire key t stage') := by simp [setCall]
    rcases hacq.keysToRelease_cases hk with hold | ⟨rfl, hspin⟩
    · rcases h.tracked k hold with hown | hstale | ⟨th, stage'', hd, hpolls⟩
      · exact .inl (hacq.owner_of_some hown)
      · exact .inr (.inl hstale)
      · by_cases hsame : Call.acquire k t stage'' = .acquire key t stage
        · -- the call that moves is the one that polls `k`
          rw [Call.acquire.injEq] at hsame
          obtain ⟨rfl, -, rfl⟩ := hsame
          exact .inr (.inr ⟨thread, stage', hself, hacq.polls_of_polls hpolls⟩)
        · exact .inr (.inr ⟨th, stage'', setCall_of_call hc hd hsame, hpolls⟩)
    · rw [Sum.inl.injEq] at hspin
      subst hspin
      exact .inr (.inr ⟨thread, .spin 0, hself, rfl⟩)
  foreign k hk := by
    rw [hacq.owner_unchanged (by simp)]
    exact h.foreign k hk
  kept k hk := by
    refine (h.kept k hk).imp hacq.mem_keysToRelease ?_
    rintro ⟨th, keys, hd⟩
    exact ⟨th, keys, setCall_of_call hc hd (by simp)⟩

/-- An `acquire` of `t` that gives up has its key recorded, and the key is somebody else's. -/
theorem Tracked.giveUp {lm lm' : LockManager} {key : KeyType} {stage : AcquireStage}
    (h : Tracked lm t (.acquire key t stage))
    (hacq : AcquireStep lm key t stage lm' (.inr .ABORTED)) :
    key ∈ lm'.keysToRelease t ∧ lm'.owner key ≠ some t := by
  cases hacq with
  | giveUp _ _ => exact ⟨h.2.1 rfl, h.2.2 _ rfl⟩

theorem staleInv_acquired (hheld : HeldInv t w) (h : StaleInv t w) {thread : τ} {key : KeyType}
    {stage : AcquireStage} {lm : LockManager} {result : AcquireResult}
    (hc : w.calls thread = some (.acquire key t stage))
    (hacq : AcquireStep w.lm key t stage lm (.inr result)) :
    StaleInv t (w.respond thread (.acquire key t) (some result) lm) := by
  have htracked := hheld.busy thread _ hc rfl
  -- the answer is about `key`; the other keys are as they were
  have hstale : ∀ k, k ≠ key →
      (Stale (w.hist ++ [.responded thread (.acquire key t) (some result)]) k t ↔
        Stale w.hist k t) := fun k hk => stale_responded (by simp [hk.symm]) (by simp)
  refine ⟨fun k hk => ?_, fun k hk => ?_, fun k hk => ?_⟩
  · by_cases hkey : k = key
    · subst hkey
      cases result with
      | ACQUIRED => exact .inl hacq.acquired.1
      | ABORTED => exact .inr (.inl (stale_append.mpr (.inl ⟨rfl, rfl⟩)))
    · have hold := (hacq.keysToRelease_cases hk).resolve_right (by simp)
      rcases h.tracked k hold with hown | hst | ⟨th, stage', hd, hpolls⟩
      · exact .inl (hacq.owner_of_some hown)
      · exact .inr (.inl ((hstale k hkey).mpr hst))
      · exact .inr (.inr ⟨th, stage', setCall_of_call hc hd (by simp [hkey]), hpolls⟩)
  · by_cases hkey : k = key
    · subst hkey
      cases result with
      | ACQUIRED => exact absurd hk not_stale_acquired
      | ABORTED => exact (htracked.giveUp hacq).2
    · rcases hacq.owner_eq k with hsame | ⟨hk', -⟩
      · exact fun hown => h.foreign k ((hstale k hkey).mp hk) (hsame ▸ hown)
      · exact absurd hk' hkey
  · by_cases hkey : k = key
    · subst hkey
      cases result with
      | ACQUIRED => exact absurd hk not_stale_acquired
      | ABORTED => exact .inl (htracked.giveUp hacq).1
    · refine (h.kept k ((hstale k hkey).mp hk)).imp hacq.mem_keysToRelease ?_
      rintro ⟨th, keys, hd⟩
      exact ⟨th, keys, setCall_of_call hc hd (by simp)⟩

theorem staleInv_released (h : StaleInv t w) {thread : τ} {key : KeyType}
    (hc : w.calls thread = some (.release key t)) :
    StaleInv t (w.respond thread (.release key t) none (w.lm.release key t)) := by
  have hstale : ∀ k, Stale (w.hist ++ [.responded thread (.release key t) none]) k t
      ↔ Stale w.hist k t := fun k => stale_responded (by simp) (by simp)
  refine ⟨fun k hk => ?_, fun k hk => ?_, fun k hk => ?_⟩
  · -- a key that stays in the set is not the one that was freed
    have hold : k ∈ w.lm.keysToRelease t ∧ ¬ (k = key ∧ w.lm.owner key = some t) := by
      simp only [respond, LockManager.keysToRelease_release] at hk
      split at hk
      · exact ⟨Finset.mem_of_mem_erase hk, fun e => Finset.ne_of_mem_erase hk e.1⟩
      · rename_i hown
        exact ⟨hk, fun e => hown e.2⟩
    rcases h.tracked k hold.1 with hown | hst | ⟨th, stage, hd, hpolls⟩
    · refine .inl (LockManager.owner_release_of_ne hown fun e => hold.2 ⟨e.1, e.1 ▸ hown⟩)
    · exact .inr (.inl ((hstale k).mpr hst))
    · exact .inr (.inr ⟨th, stage, setCall_of_call hc hd (by simp), hpolls⟩)
  · exact fun hown => h.foreign k ((hstale k).mp hk) (LockManager.owner_of_release hown)
  · have hne := h.foreign k ((hstale k).mp hk)
    refine (h.kept k ((hstale k).mp hk)).imp (fun hmem => ?_) ?_
    · simp only [respond, LockManager.keysToRelease_release]
      split
      · rename_i hown
        exact Finset.mem_erase.mpr ⟨fun e => hne (e ▸ hown), hmem⟩
      · exact hmem
    · rintro ⟨th, keys, hd⟩
      exact ⟨th, keys, setCall_of_call hc hd (by simp)⟩

theorem staleInv_releasingAll (hheld : HeldInv t w) (h : StaleInv t w) {thread : τ}
    {stage stage' : ReleaseAllStage} {lm : LockManager}
    (hc : w.calls thread = some (.releaseAll t stage))
    (hrel : ReleaseAllStep w.lm t stage lm (some stage')) :
    StaleInv t { w with lm, calls := w.setCall thread (some (.releaseAll t stage')) } := by
  have htracked := hheld.busy thread _ hc rfl
  -- from its first section on, `t` has no set
  obtain ⟨keys, rfl, hnone⟩ : ∃ keys, stage' = .releasing keys ∧ lm.heldLocks t = none := by
    cases hrel with
    | take _ => exact ⟨_, rfl, by simp [LockManager.takeHeld]⟩
    | release => exact ⟨_, rfl, LockManager.heldLocks_release_of_none _ _ htracked.2⟩
  refine ⟨fun k hk => ?_, fun k hk hown => ?_, fun k _ => .inr ⟨thread, keys, by simp [setCall]⟩⟩
  · rw [LockManager.keysToRelease, hnone] at hk
    exact absurd hk (by simp)
  · exact h.foreign k hk (hrel.owner_of hown)

theorem staleInv_releasedAll (hheld : HeldInv t w) {thread : τ} {stage : ReleaseAllStage}
    {lm : LockManager} (hc : w.calls thread = some (.releaseAll t stage))
    (hrel : ReleaseAllStep w.lm t stage lm none) :
    StaleInv t (w.respond thread (.releaseAll t) none lm) := by
  have hfresh : ∀ k, ¬ Stale (w.hist ++ [.responded thread (.releaseAll t) none]) k t := by
    simp [stale_append, GaveUp, Mends]
  cases hrel with
  | done =>
    have htracked := hheld.busy thread _ hc rfl
    refine ⟨fun k hk => ?_, fun k hk => absurd hk (hfresh k), fun k hk => absurd hk (hfresh k)⟩
    rw [respond, LockManager.keysToRelease, htracked.2] at hk
    exact absurd hk (by simp)

/-- A section of a call for another transaction. -/
theorem staleInv_other (h : StaleInv t w) {thread : τ} {c : Call} {c' : Option Call}
    {lm : LockManager} {hist : List (ClientEvent τ)} (hc : w.calls thread = some c)
    (hne : c.txId ≠ t) (hsame : w.lm.SameFor lm t)
    (hstale : ∀ k, Stale hist k t ↔ Stale w.hist k t) :
    StaleInv t ⟨lm, w.setCall thread c', hist⟩ := by
  refine h.of_same hsame (fun th d hd hdt => setCall_of_call hc hd ?_) hstale
  rintro rfl
  exact hne hdt

theorem staleInv_section (hheld : HeldInv t w) (h : StaleInv t w) {thread : τ}
    (hs : Sectioned w thread w') : StaleInv t w' := by
  cases hs with
  | @acquiring key txId stage stage' lm hc hacq =>
    by_cases ht : txId = t
    · subst ht
      exact staleInv_acquiring h hc hacq
    · exact staleInv_other h hc ht (hacq.sameFor (Ne.symm ht)) fun k => Iff.rfl
  | @acquired key txId stage lm result hc hacq =>
    by_cases ht : txId = t
    · subst ht
      exact staleInv_acquired hheld h hc hacq
    · exact staleInv_other h hc ht (hacq.sameFor (Ne.symm ht)) fun k => stale_responded_of_ne ht
  | @released key txId hc =>
    by_cases ht : txId = t
    · subst ht
      exact staleInv_released h hc
    · exact staleInv_other h hc ht (LockManager.sameFor_release _ _ (Ne.symm ht)) fun k =>
        stale_responded_of_ne ht
  | @releasingAll txId stage stage' lm hc hrel =>
    by_cases ht : txId = t
    · subst ht
      exact staleInv_releasingAll hheld h hc hrel
    · exact staleInv_other h hc ht (hrel.sameFor (Ne.symm ht)) fun k => Iff.rfl
  | @releasedAll txId stage lm hc hrel =>
    by_cases ht : txId = t
    · subst ht
      exact staleInv_releasedAll hheld hc hrel
    · exact staleInv_other h hc ht (hrel.sameFor (Ne.symm ht)) fun k => stale_responded_of_ne ht

theorem staleInv_step (hheld : HeldInv t w) (h : StaleInv t w) {l : ClientLabel τ}
    (hs : w.step l = some w') : StaleInv t w' := by
  cases l with
  | invoke thread req =>
    cases stepped_of_step hs with
    | invoke hidle =>
      refine h.of_same ⟨rfl, fun k => Iff.rfl⟩ (fun th c hc _ => ?_) fun k => stale_invoked
      have hth : th ≠ thread := by
        rintro rfl
        rw [hidle] at hc
        exact absurd hc (by simp)
      simpa [setCall, hth] using hc
  | advance thread order => exact staleInv_section hheld h (sectioned_of_step hs)

theorem staleInv_run (hr : Run step (NoOverlapFor t) (initial τ) w) : StaleInv t w :=
  hr.invariant_of_run (staleInv_initial t) fun _ _ _ hr h _ hs =>
    staleInv_step (heldInv_run hr) h hs

omit [DecidableEq τ] in
theorem holdsLock_iff_mem (lm : LockManager) (k : KeyType) (t : TransactionId) :
    lm.holdsLock k t = true ↔ k ∈ lm.keysToRelease t := by
  unfold LockManager.holdsLock LockManager.keysToRelease
  split
  · rename_i hnone
    simp [hnone]
  · rename_i keys hkeys
    simp [hkeys]

/-- **When `holds_lock` tells the truth.**  In every state in which no call for `t` is under way,
`holds_lock(k, t)` answers yes exactly when the entry of `k` exists and names `t`, UNLESS an
`acquire(k, t)` has given up and nothing has mended the record since; then it is wrong. -/
theorem holds_lock_iff (hr : Run step (NoOverlapFor t) (initial τ) w)
    (hquiet : ∀ th c, w.calls th = some c → c.txId ≠ t) (k : KeyType) :
    (w.lm.holdsLock k t = true ↔ w.lm.lockTable k = some ⟨some t⟩) ↔ ¬ Stale w.hist k t := by
  have hheld := heldInv_run hr
  have hinv := staleInv_run hr
  have howner : w.lm.lockTable k = some ⟨some t⟩ ↔ w.lm.owner k = some t :=
    ⟨fun h => by simp [LockManager.owner, h], LockManager.lockTable_of_owner⟩
  rw [holdsLock_iff_mem, howner]
  constructor
  · intro htruth hstale
    rcases hinv.kept k hstale with hmem | ⟨th, keys, hc⟩
    · exact hinv.foreign k hstale (htruth.mp hmem)
    · exact hquiet th _ hc rfl
  · intro hfresh
    constructor
    · intro hmem
      rcases hinv.tracked k hmem with hown | hstale | ⟨th, stage, hc, -⟩
      · exact hown
      · exact absurd hstale hfresh
      · exact absurd rfl (hquiet th _ hc)
    · intro hown
      exact (hheld.idle hquiet k hown).resolve_right (by simp)

/-- Transaction 1 acquires key 7; then transaction 2 asks for it, and gives up after its last
poll. -/
def gaveUpLabels : List (ClientLabel Unit) :=
  [.invoke () (.acquire 7 1), .advance () [], .advance () [], .advance () []] ++
    .invoke () (.acquire 7 2) :: List.replicate (2 + maxSpins + maxYields) (.advance () [])

/-- Then transaction 1 releases the key, and transaction 2 asks again and gets it. -/
def mendedLabels : List (ClientLabel Unit) :=
  gaveUpLabels ++ [.invoke () (.release 7 1), .advance () [], .invoke () (.acquire 7 2),
    .advance () [], .advance () [], .advance () []]

theorem holds_lock_mended :
    ∃ w : Clients Unit, Run step (NoOverlapFor 2) (initial Unit) w ∧
      (.responded () (.acquire 7 2) (some .ABORTED)) ∈ w.hist ∧ ¬ Stale w.hist 7 2 ∧
      (w.lm.holdsLock 7 2 = true ↔ w.lm.lockTable 7 = some ⟨some 2⟩) := by
  have hrun : ((runLabels step (initial Unit) mendedLabels).map fun w =>
      decide (w.calls () = none ∧ w.hist = [.invoked () (.acquire 7 1),
        .responded () (.acquire 7 1) (some .ACQUIRED), .invoked () (.acquire 7 2),
        .responded () (.acquire 7 2) (some .ABORTED), .invoked () (.release 7 1),
        .responded () (.release 7 1) none, .invoked () (.acquire 7 2),
        .responded () (.acquire 7 2) (some .ACQUIRED)])) = some true := by
    decide +kernel
  obtain ⟨w, hw, hfacts⟩ := Option.map_eq_some_iff.mp hrun
  obtain ⟨hc, hhist⟩ := of_decide_eq_true hfacts
  have hr : Run step (NoOverlapFor 2) (initial Unit) w :=
    run_of_sequential (reachable_of_runLabels _ hw)
  have hquiet : ∀ th c, w.calls th = some c → c.txId ≠ 2 := by simp [hc]
  -- the last answer mends what the refusal has left
  have hfresh : ¬ Stale w.hist 7 2 := by
    rw [hhist, ← List.dropLast_append_getLast (List.cons_ne_nil _ _)]
    exact not_stale_acquired
  exact ⟨w, hr, by simp [hhist], hfresh, (holds_lock_iff hr hquiet 7).mpr hfresh⟩

/-- **`holds_lock` says yes of a key that somebody else owns**, after completed calls only. -/
theorem holds_lock_after_abort :
    ∃ w : Clients Unit, Reachable step (initial Unit) w ∧ w.calls () = none ∧
      w.lm.holdsLock 7 2 = true ∧ w.lm.lockTable 7 = some ⟨some 1⟩ ∧
      ¬ (w.lm.holdsLock 7 2 = true ↔ w.lm.lockTable 7 = some ⟨some 2⟩) := by
  have hrun : ((runLabels step (initial Unit) gaveUpLabels).map fun w =>
      decide (w.calls () = none ∧ w.lm.holdsLock 7 2 = true ∧
        w.lm.lockTable 7 = some ⟨some 1⟩)) = some true := by
    decide +kernel
  obtain ⟨w, hw, hfacts⟩ := Option.map_eq_some_iff.mp hrun
  obtain ⟨hc, hyes, hother⟩ := of_decide_eq_true hfacts
  refine ⟨w, reachable_of_runLabels _ hw, hc, hyes, hother, fun htruth => ?_⟩
  rw [hother] at htruth
  exact absurd (htruth.mp hyes) (by simp)

end Clients

end TwoPL
