/-
# The lock manager under arbitrary clients

Any number of threads call `acquire`, `release` and `release_all` with any keys and any
transaction ids, and the sections of their calls interleave in any way (`Clients.step`).  The
only assumption is that the calls made for ONE transaction id do not overlap each other
(`NoOverlap`): that is how the scheduler uses the manager, a transaction being run by one
thread.

The result is mutual exclusion over whole runs in which every `acquire` has found the entry of its
key (`mutual_exclusion`; for those in which it has not, see `LookupClients.lean`): from the moment
`acquire(k, t)` has returned `ACQUIRED` up to the next call of `release(k, t)` or
`release_all(t)`, the entry of `k` names `t`, nobody else is granted `k`, and nobody else's
release touches it.  The invariant (`ClientInv`) carries one more fact than the statement:
while `t` holds a key in this sense, no `release_all(t)` or `release(k, t)` is under way.
-/
import Mathlib.Data.Fintype.Basic
import TwoPL.Lib.Runs
import TwoPL.LockManager

namespace TwoPL

open Lib

/-! ## 1. Threads and their calls -/

/-- A call as its caller writes it. -/
inductive Request
  | acquire (key : KeyType) (txId : TransactionId)
  | release (key : KeyType) (txId : TransactionId)
  | releaseAll (txId : TransactionId)
  deriving DecidableEq

/-- A call under way. -/
inductive Call
  | acquire (key : KeyType) (txId : TransactionId) (stage : AcquireStage)
  | release (key : KeyType) (txId : TransactionId)
  | releaseAll (txId : TransactionId) (stage : ReleaseAllStage)
  deriving DecidableEq

def Request.txId : Request → TransactionId
  | acquire _ t | release _ t | releaseAll t => t

/-- The call before its first section. -/
def Request.begin : Request → Call
  | acquire k t => .acquire k t .emplace
  | release k t => .release k t
  | releaseAll t => .releaseAll t .take

def Call.request : Call → Request
  | acquire k t _ => .acquire k t
  | release k t => .release k t
  | releaseAll t _ => .releaseAll t

/-- The id the call is made for. -/
abbrev Call.txId (c : Call) : TransactionId := c.request.txId

@[simp] theorem Request.request_begin (req : Request) : req.begin.request = req := by
  cases req <;> rfl

inductive ClientEvent (τ : Type*)
  | invoked (thread : τ) (req : Request)
  | responded (thread : τ) (req : Request) (result : Option AcquireResult)
  deriving DecidableEq

/-- The lock manager, the call each thread is in, and what has happened so far. -/
structure Clients (τ : Type*) where
  lm : LockManager
  calls : τ → Option Call
  hist : List (ClientEvent τ)

inductive ClientLabel (τ : Type*)
  | invoke (thread : τ) (req : Request)
  /-- The next section of the thread's call; `order` is how `release_all` iterates its set. -/
  | advance (thread : τ) (order : List KeyType)

namespace Clients

variable {τ : Type*} [DecidableEq τ]

/-- The call of `thread` after one of its sections. -/
def setCall (w : Clients τ) (thread : τ) (c : Option Call) : τ → Option Call :=
  Function.update w.calls thread c

/-- The last section of a call. -/
def respond (w : Clients τ) (thread : τ) (req : Request) (result : Option AcquireResult)
    (lm : LockManager) : Clients τ where
  lm := lm
  calls := w.setCall thread none
  hist := w.hist ++ [.responded thread req result]

def step (w : Clients τ) : ClientLabel τ → Option (Clients τ)
  | .invoke thread req =>
    if w.calls thread = none then
      some { w with
        calls := w.setCall thread (some req.begin)
        hist := w.hist ++ [.invoked thread req] }
    else none
  | .advance thread order =>
    match w.calls thread with
    | none => none
    | some (.acquire key txId stage) =>
      match acquireStep w.lm key txId stage with
      | (lm, .inl stage') =>
        some { w with lm, calls := w.setCall thread (some (.acquire key txId stage')) }
      | (lm, .inr result) => some (w.respond thread (.acquire key txId) (some result) lm)
    | some (.release key txId) =>
      some (w.respond thread (.release key txId) none (w.lm.release key txId))
    | some (.releaseAll txId stage) =>
      match releaseAllStep w.lm txId order stage with
      | none => none
      | some (lm, some stage') =>
        some { w with lm, calls := w.setCall thread (some (.releaseAll txId stage')) }
      | some (lm, none) => some (w.respond thread (.releaseAll txId) none lm)

/-- An empty manager, no call under way. -/
def initial (τ : Type*) : Clients τ where
  lm := .empty
  calls := fun _ => none
  hist := []

/-- A call starts only while no other call for the same id is under way. -/
def NoOverlap (w : Clients τ) : ClientLabel τ → Prop
  | .invoke _ req => ∀ thread c, w.calls thread = some c → c.txId ≠ req.txId
  | .advance _ _ => True

/-- None of the calls under way meets `p`, which can be evaluated. -/
instance [Fintype τ] (w : Clients τ) (p : Call → Prop) [DecidablePred p] :
    Decidable (∀ thread c, w.calls thread = some c → p c) :=
  decidable_of_iff (∀ thread, ∀ c ∈ w.calls thread, p c) Iff.rfl

instance [Fintype τ] (w : Clients τ) : (l : ClientLabel τ) → Decidable (w.NoOverlap l)
  | .invoke _ req => inferInstanceAs
      (Decidable (∀ thread c, w.calls thread = some c → c.txId ≠ req.txId))
  | .advance _ _ => .isTrue trivial

/-- **A section of the call that a thread is in.** -/
inductive Sectioned (w : Clients τ) (thread : τ) : Clients τ → Prop
  | acquiring {key txId stage stage' lm} : w.calls thread = some (.acquire key txId stage) →
      AcquireStep w.lm key txId stage lm (.inl stage') →
      Sectioned w thread
        { w with lm, calls := w.setCall thread (some (.acquire key txId stage')) }
  | acquired {key txId stage lm result} : w.calls thread = some (.acquire key txId stage) →
      AcquireStep w.lm key txId stage lm (.inr result) →
      Sectioned w thread (w.respond thread (.acquire key txId) (some result) lm)
  | released {key txId} : w.calls thread = some (.release key txId) →
      Sectioned w thread (w.respond thread (.release key txId) none (w.lm.release key txId))
  | releasingAll {txId stage stage' lm} : w.calls thread = some (.releaseAll txId stage) →
      ReleaseAllStep w.lm txId stage lm (some stage') →
      Sectioned w thread { w with lm, calls := w.setCall thread (some (.releaseAll txId stage')) }
  | releasedAll {txId stage lm} : w.calls thread = some (.releaseAll txId stage) →
      ReleaseAllStep w.lm txId stage lm none →
      Sectioned w thread (w.respond thread (.releaseAll txId) none lm)

theorem sectioned_of_step {w w' : Clients τ} {thread : τ} {order : List KeyType}
    (h : w.step (.advance thread order) = some w') : Sectioned w thread w' := by
  simp only [step] at h
  split at h
  · exact absurd h (by simp)
  · rename_i key txId stage hcall
    have hspec := acquireStep_spec w.lm key txId stage
    split at h <;> (rename_i heq; rw [heq] at hspec; rw [Option.some.injEq] at h)
    · exact h ▸ .acquiring hcall hspec
    · exact h ▸ .acquired hcall hspec
  · rename_i key txId hcall
    rw [Option.some.injEq] at h
    exact h ▸ .released hcall
  · rename_i txId stage hcall
    split at h
    · exact absurd h (by simp)
    · rename_i lm stage' heq
      rw [Option.some.injEq] at h
      exact h ▸ .releasingAll hcall (releaseAllStep_spec heq)
    · rename_i lm heq
      rw [Option.some.injEq] at h
      exact h ▸ .releasedAll hcall (releaseAllStep_spec heq)

/-- **Everything a step can do**, as far as owners are concerned. -/
inductive Stepped (w : Clients τ) : ClientLabel τ → Clients τ → Prop
  | invoke {thread req} : w.calls thread = none →
      Stepped w (.invoke thread req) { w with
        calls := w.setCall thread (some req.begin)
        hist := w.hist ++ [.invoked thread req] }
  /-- A section of `acquire` or `release_all` after which the call goes on. -/
  | proceed {thread order c c' lm} : w.calls thread = some c → c'.request = c.request →
      (∀ k t, w.lm.owner k = some t → lm.owner k = some t ∨ c.request = .releaseAll t) →
      Stepped w (.advance thread order) { w with lm, calls := w.setCall thread (some c') }
  | acquired {thread order key txId stage lm result} :
      w.calls thread = some (.acquire key txId stage) →
      AcquireStep w.lm key txId stage lm (.inr result) →
      Stepped w (.advance thread order)
        (w.respond thread (.acquire key txId) (some result) lm)
  | released {thread order key txId} : w.calls thread = some (.release key txId) →
      Stepped w (.advance thread order)
        (w.respond thread (.release key txId) none (w.lm.release key txId))
  | releasedAll {thread order txId stage} : w.calls thread = some (.releaseAll txId stage) →
      Stepped w (.advance thread order) (w.respond thread (.releaseAll txId) none w.lm)

theorem stepped_of_step {w w' : Clients τ} {l : ClientLabel τ} (h : w.step l = some w') :
    Stepped w l w' := by
  cases l with
  | invoke thread req =>
    simp only [step] at h
    split at h
    · rename_i hidle
      rw [Option.some.injEq] at h
      exact h ▸ .invoke hidle
    · exact absurd h (by simp)
  | advance thread order =>
    cases sectioned_of_step h with
    | acquiring hcall hacq =>
      exact .proceed hcall rfl fun k t hk => .inl (hacq.owner_of_some hk)
    | acquired hcall hacq => exact .acquired hcall hacq
    | released hcall => exact .released hcall
    | @releasingAll txId stage stage' lm hcall hrel =>
      refine .proceed hcall rfl fun k t hk => ?_
      by_cases ht : t = txId
      · exact .inr (by rw [ht]; rfl)
      · exact .inl (((hrel.sameFor ht).owner k).mpr hk)
    | releasedAll hcall hrel =>
      cases hrel with
      | done => exact .releasedAll hcall

/-! ## 2. The invariant -/

/-- The history says that `t` holds `k`: `acquire(k, t)` returned `ACQUIRED`, and neither
`release(k, t)` nor `release_all(t)` has been called since. -/
def Holds (hist : List (ClientEvent τ)) (k : KeyType) (t : TransactionId) : Prop :=
  ∃ thread h₁ h₂, hist = h₁ ++ .responded thread (.acquire k t) (some .ACQUIRED) :: h₂ ∧
    ∀ thread', .invoked thread' (.release k t) ∉ h₂ ∧ .invoked thread' (.releaseAll t) ∉ h₂

omit [DecidableEq τ] in
/-- A holding that is there after one more event was there before it, or is what the event
says; and the event does not end it. -/
theorem Holds.of_append {hist : List (ClientEvent τ)} {e : ClientEvent τ} {k : KeyType}
    {t : TransactionId} (h : Holds (hist ++ [e]) k t) :
    (∃ thread, e = .responded thread (.acquire k t) (some .ACQUIRED)) ∨
      (Holds hist k t ∧ ∀ thread, e ≠ .invoked thread (.release k t) ∧
        e ≠ .invoked thread (.releaseAll t)) := by
  obtain ⟨thread, h₁, h₂, heq, hno⟩ := h
  rcases List.eq_nil_or_concat h₂ with rfl | ⟨h₂, z, rfl⟩
  · exact .inl ⟨thread, List.singleton_inj.mp (List.append_inj' heq rfl).2⟩
  · rw [List.concat_eq_append, ← List.cons_append, ← List.append_assoc] at heq
    obtain ⟨hhist, hz⟩ := List.append_inj' heq rfl
    rw [List.singleton_inj] at hz
    subst hz
    simp only [List.concat_eq_append, List.mem_append, List.mem_singleton, not_or] at hno
    refine .inr ⟨⟨thread, h₁, h₂, hhist, fun th => ⟨(hno th).1.1, (hno th).2.1⟩⟩, fun th => ?_⟩
    exact ⟨fun e => (hno th).1.2 e.symm, fun e => (hno th).2.2 e.symm⟩

/-- The invariant of a run without overlapping calls. -/
structure ClientInv (w : Clients τ) : Prop where
  /-- At most one call is under way for an id. -/
  alone : ∀ th th' c c', w.calls th = some c → w.calls th' = some c' → c.txId = c'.txId → th = th'
  /-- A held key names its holder. -/
  owner : ∀ k t, Holds w.hist k t → w.lm.owner k = some t
  /-- ... and nobody is about to give it back. -/
  quiet : ∀ k t, Holds w.hist k t → ∀ th c, w.calls th = some c →
    c.request ≠ .release k t ∧ c.request ≠ .releaseAll t

omit [DecidableEq τ] in
theorem clientInv_initial : ClientInv (initial τ) where
  alone := by simp [initial]
  owner := by rintro k t ⟨th, h₁, h₂, heq, -⟩; simp [initial] at heq
  quiet := by rintro k t ⟨th, h₁, h₂, heq, -⟩; simp [initial] at heq

/-- When a call responds, the other calls are those that were under way, for other ids. -/
theorem alone_respond {w : Clients τ} (h : ClientInv w) {thread : τ} {c : Call}
    (hc : w.calls thread = some c) {th : τ} {c' : Call}
    (hc' : w.setCall thread none th = some c') :
    w.calls th = some c' ∧ c'.txId ≠ c.txId := by
  have hth : th ≠ thread := by
    rintro rfl
    simp [setCall] at hc'
  have hcalls : w.calls th = some c' := by simpa [setCall, hth] using hc'
  exact ⟨hcalls, fun e => hth (h.alone th thread c' c hcalls hc e)⟩

theorem clientInv_respond {w : Clients τ} (h : ClientInv w) {thread : τ} {c : Call}
    {lm : LockManager} {result : Option AcquireResult} (hc : w.calls thread = some c)
    (hkeep : ∀ k t, w.lm.owner k = some t → lm.owner k = some t ∨
      c.request = .release k t ∨ c.request = .releaseAll t)
    (hnew : ∀ k t, c.request = .acquire k t → result = some .ACQUIRED → lm.owner k = some t) :
    ClientInv (w.respond thread c.request result lm) where
  alone th th' d d' hd hd' hid :=
    h.alone th th' d d' (alone_respond h hc hd).1 (alone_respond h hc hd').1 hid
  owner k t hh := by
    rcases hh.of_append with ⟨th, he⟩ | ⟨hold, -⟩
    · rw [ClientEvent.responded.injEq] at he
      exact hnew k t he.2.1 he.2.2
    · rcases hkeep k t (h.owner k t hold) with hk | hk | hk
      · exact hk
      · exact absurd hk (h.quiet k t hold thread c hc).1
      · exact absurd hk (h.quiet k t hold thread c hc).2
  quiet k t hh th d hd := by
    obtain ⟨hcalls, hne⟩ := alone_respond h hc hd
    rcases hh.of_append with ⟨th', he⟩ | ⟨hold, -⟩
    · -- the grant just made: `thread` made the only call for `t`
      rw [ClientEvent.responded.injEq] at he
      have hct : c.txId = t := by simp only [Call.txId, he.2.1]; rfl
      constructor <;> intro hreq <;> exact hne (by rw [hct, Call.txId, hreq]; rfl)
    · exact h.quiet k t hold th d hcalls

theorem clientInv_step {w w' : Clients τ} {l : ClientLabel τ} (h : ClientInv w)
    (hok : w.NoOverlap l) (hs : w.step l = some w') : ClientInv w' := by
  cases stepped_of_step hs with
  | @invoke thread req hidle =>
    have hcall : ∀ th c, w.setCall thread (some req.begin) th = some c →
        (th = thread ∧ c.request = req) ∨ (th ≠ thread ∧ w.calls th = some c) := by
      intro th c hc
      by_cases hth : th = thread
      · subst hth
        simp only [setCall, Function.update_self, Option.some.injEq] at hc
        exact .inl ⟨rfl, by rw [← hc, Request.request_begin]⟩
      · exact .inr ⟨hth, by simpa [setCall, hth] using hc⟩
    refine ⟨?_, ?_, ?_⟩
    · intro th th' c c' hc hc' hid
      rcases hcall th c hc with ⟨rfl, hreq⟩ | ⟨-, hold⟩ <;>
        rcases hcall th' c' hc' with ⟨rfl, hreq'⟩ | ⟨-, hold'⟩
      · rfl
      · exact absurd (by rw [← hid, Call.txId, hreq]) (hok th' c' hold')
      · exact absurd (by rw [hid, Call.txId, hreq']) (hok th c hold)
      · exact h.alone th th' c c' hold hold' hid
    · intro k t hh
      rcases hh.of_append with ⟨th, he⟩ | ⟨hold, -⟩
      · exact absurd he (by simp)
      · exact h.owner k t hold
    · intro k t hh th c hc
      rcases hh.of_append with ⟨th, he⟩ | ⟨hold, hne⟩
      · exact absurd he (by simp)
      · rcases hcall th c hc with ⟨-, hreq⟩ | ⟨-, hcold⟩
        · exact ⟨fun e => (hne thread).1 (by rw [← hreq, e]),
            fun e => (hne thread).2 (by rw [← hreq, e])⟩
        · exact h.quiet k t hold th c hcold
  | @proceed thread order c c' lm hc hreq hkeep =>
    have hcall : ∀ th d, w.setCall thread (some c') th = some d →
        ∃ d', w.calls th = some d' ∧ d.request = d'.request := by
      intro th d hd
      by_cases hth : th = thread
      · subst hth
        simp only [setCall, Function.update_self, Option.some.injEq] at hd
        exact ⟨c, hc, by rw [← hd, hreq]⟩
      · exact ⟨d, by simpa [setCall, hth] using hd, rfl⟩
    refine ⟨?_, ?_, ?_⟩
    · intro th th' d d' hd hd' hid
      obtain ⟨e, he, hde⟩ := hcall th d hd
      obtain ⟨e', he', hde'⟩ := hcall th' d' hd'
      exact h.alone th th' e e' he he' (by simpa only [Call.txId, hde, hde'] using hid)
    · intro k t hh
      rcases hkeep k t (h.owner k t hh) with hk | hk
      · exact hk
      · exact absurd hk (h.quiet k t hh thread c hc).2
    · intro k t hh th d hd
      obtain ⟨e, he, hde⟩ := hcall th d hd
      rw [hde]
      exact h.quiet k t hh th e he
  | @acquired thread order key txId stage lm result hc hacq =>
    refine clientInv_respond h hc (fun k t hk => .inl (hacq.owner_of_some hk)) ?_
    rintro k t hreq hres
    rw [Option.some.injEq] at hres
    subst hres
    simp only [Call.request, Request.acquire.injEq] at hreq
    obtain ⟨rfl, rfl⟩ := hreq
    exact hacq.acquired.1
  | @released thread order key txId hc =>
    refine clientInv_respond h hc (fun k t hk => ?_) (by simp)
    by_cases hkt : k = key ∧ t = txId
    · exact .inr (.inl (by rw [hkt.1, hkt.2]; rfl))
    · exact .inl (LockManager.owner_release_of_ne hk hkt)
  | @releasedAll thread order txId stage hc =>
    exact clientInv_respond h hc (fun k t hk => .inl hk) (by simp)

/-! ## 3. Mutual exclusion -/

/-- Along every run, held keys name their holders. -/
theorem clientInv_run {w : Clients τ} (hr : Run step NoOverlap (initial τ) w) : ClientInv w :=
  hr.invariant clientInv_initial fun _ _ _ h hok hs => clientInv_step h hok hs

/-- A section of somebody else's call leaves a held key with its holder. -/
theorem owner_of_other_call {w w' : Clients τ} {thread : τ} {order : List KeyType} {c : Call}
    {k : KeyType} {t : TransactionId} (hk : w.lm.owner k = some t)
    (hc : w.calls thread = some c) (hne : c.txId ≠ t)
    (hs : w.step (.advance thread order) = some w') : w'.lm.owner k = some t := by
  cases stepped_of_step hs with
  | proceed hc' _ hkeep =>
    rw [hc, Option.some.injEq] at hc'
    subst hc'
    rcases hkeep k t hk with h | h
    · exact h
    · exact absurd (by rw [Call.txId, h]; rfl) hne
  | acquired _ hacq => exact hacq.owner_of_some hk
  | released hc' =>
    rw [hc, Option.some.injEq] at hc'
    subst hc'
    exact LockManager.owner_release_of_ne hk fun e => hne e.2.symm
  | releasedAll _ => exact hk

/-- **Mutual exclusion over whole runs.**  While `t` holds `k`, the entry of `k` names `t`, the
next step grants `k` to nobody else, and a `release` or `release_all` of another transaction
leaves the owner of `k` alone. -/
theorem mutual_exclusion {w : Clients τ} (hr : Run step NoOverlap (initial τ) w) {k : KeyType}
    {t : TransactionId} (hheld : Holds w.hist k t) :
    w.lm.lockTable k = some ⟨some t⟩ ∧
      ∀ l w', w.NoOverlap l → w.step l = some w' →
        (∀ thread t', t' ≠ t →
          w'.hist ≠ w.hist ++ [.responded thread (.acquire k t') (some .ACQUIRED)]) ∧
        (∀ thread order c t', t' ≠ t → l = .advance thread order → w.calls thread = some c →
          c.request = .release k t' ∨ c.request = .releaseAll t' →
          w'.lm.owner k = w.lm.owner k) := by
  have hown : w.lm.owner k = some t := (clientInv_run hr).owner k t hheld
  refine ⟨LockManager.lockTable_of_owner hown, fun l w' _ hs => ⟨?_, ?_⟩⟩
  · intro thread t' hne hhist
    cases stepped_of_step hs with
    | invoke _ => simp at hhist
    | proceed _ _ _ => simp at hhist
    | acquired _ hacq =>
      simp only [respond, List.append_cancel_left_eq, List.cons.injEq,
        ClientEvent.responded.injEq, Request.acquire.injEq, Option.some.injEq] at hhist
      obtain ⟨⟨-, ⟨rfl, rfl⟩, rfl⟩, -⟩ := hhist
      rcases hacq.acquired.2 with h | h
      · rw [hown] at h; exact absurd h (by simp)
      · rw [hown, Option.some.injEq] at h; exact hne h.symm
    | released _ => simp [respond] at hhist
    | releasedAll _ => simp [respond] at hhist
  · rintro thread order c t' hne rfl hc hreq
    rw [hown]
    refine owner_of_other_call hown hc (fun e => hne ?_) hs
    rcases hreq with h | h <;> rw [← e, Call.txId, h] <;> rfl

end Clients

end TwoPL
