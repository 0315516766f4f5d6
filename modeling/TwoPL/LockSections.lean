/-
# A section is one step

Everything above the lock manager takes a section that is protected by a mutex for ONE step
(`acquireStep`, `LockManager.release`, `releaseAllStep`).  `LockMutexes.lean` has the code as it is,
with every lock and unlock a step of its own.  Here the first is justified by the second.

`LockSections` are threads whose calls are made of whole sections.  Where a thread is in its code
says where it is in its sections (`LockThread.abstract`), and each step of the code is the next
section or nothing at all:

* a section of `acquire` happens when it touches the data, and its last poll decides its result,
  even if the code has to unlock the entry, and after a refused last poll to lock it once more,
  before it can return.  Its lookup is none: it finds what was emplaced (`LookupClients.lean` has
  the lookups that do not);
* `release` writes twice, under two mutexes: first the owner goes, then the key of `held_locks`.  It
  happens with the SECOND write.  In between the entry is locked, and nobody can see that it has no
  owner (`Alike`).

`sections_atomic`: whatever threads do to each other in any interleaving of their code, they could
have done in some interleaving of whole sections, made of steps of the same threads in the same
order.
-/
import TwoPL.LockMutexes

namespace TwoPL

open Lib

/-! ## 1. Threads made of sections -/

/-- The call a thread is in, and the section it is before. -/
inductive SectionPc
  | idle
  | acquire (key : KeyType) (txId : TransactionId) (stage : AcquireStage)
  | release (key : KeyType) (txId : TransactionId)
  | releaseAll (txId : TransactionId) (stage : ReleaseAllStage)
  | holdsLock (key : KeyType) (txId : TransactionId)
  deriving DecidableEq

structure SectionThread where
  todo : List LockCall
  pc : SectionPc
  answers : List LockAnswer
  deriving DecidableEq

def LockCall.firstSection : LockCall → SectionPc
  | acquire key txId => .acquire key txId .emplace
  | release key txId => .release key txId
  | releaseAll txId => .releaseAll txId .take
  | holdsLock key txId => .holdsLock key txId

namespace SectionThread

def goto (x : SectionThread) (pc : SectionPc) : SectionThread := { x with pc }

def answer (x : SectionThread) (a : LockAnswer) : SectionThread :=
  { x with pc := .idle, answers := x.answers ++ [a] }

/-- The next section of a thread; `order` is how `release_all` iterates its set. -/
def step (x : SectionThread) (lm : LockManager) (order : List KeyType) :
    Option (LockManager × SectionThread) :=
  match x.pc with
  | .idle =>
    match x.todo with
    | [] => none
    | call :: todo => some (lm, { x with todo, pc := call.firstSection })
  | .acquire key txId stage =>
    match acquireStep lm key txId stage with
    | (lm', .inl stage') => some (lm', x.goto (.acquire key txId stage'))
    | (lm', .inr result) => some (lm', x.answer (.acquired result))
  | .release key txId => some (lm.release key txId, x.answer .released)
  | .releaseAll txId stage =>
    match releaseAllStep lm txId order stage with
    | none => none
    | some (lm', some stage') => some (lm', x.goto (.releaseAll txId stage'))
    | some (lm', none) => some (lm', x.answer .releasedAll)
  | .holdsLock key txId => some (lm, x.answer (.holds (lm.holdsLock key txId)))

end SectionThread

/-- The lock manager, and the threads that call it. -/
structure LockSections (τ : Type*) where
  lm : LockManager
  threads : τ → SectionThread

namespace LockSections

variable {τ : Type*} [DecidableEq τ]

def step (w : LockSections τ) : τ × List KeyType → Option (LockSections τ)
  | (p, order) => ((w.threads p).step w.lm order).map fun r =>
    { lm := r.1, threads := Function.update w.threads p r.2 }

def initial (lm : LockManager) (calls : τ → List LockCall) : LockSections τ where
  lm := lm
  threads := fun p => ⟨calls p, .idle, []⟩

end LockSections

/-! ## 2. Where the code is in its sections -/

/-- The section that a call of `acquire` is before, or what it will return. -/
def AcquirePc.stage : AcquirePc → AcquireStage ⊕ AcquireResult
  | lockTable | emplace => .inl .emplace
  | unlockTable | lookup | lockEntry | lockHeld | track => .inl .track
  | unlockHeld => .inl (.spin 0)
  | spin left | spinUnlock left | spinLock left =>
    .inl (if left = 0 then .sleep 0 else .spin (maxSpins - left))
  | sleep left | sleepUnlock left | sleepLock left =>
    if left = 0 then .inr .ABORTED else .inl (.sleep (maxYields - left))
  | returning result => .inr result

/-- The loops count down from their bounds. -/
def AcquirePc.Bounded : AcquirePc → Prop
  | spin left | spinUnlock left | spinLock left => left ≤ maxSpins
  | sleep left | sleepUnlock left | sleepLock left => left ≤ maxYields
  | _ => True

/-- The section of `release` is still to come. -/
def ReleasePc.pending : ReleasePc → Bool
  | lockTable | contains | lockEntry | check | lockHeld | untrack => true
  | unlockHeld | unlockEntry | unlockTable => false

/-- The entry has lost its owner, and `held_locks` still has the key. -/
def ReleasePc.halfway : ReleasePc → Bool
  | lockHeld | untrack => true
  | _ => false

def ReleaseAllPc.stage : ReleaseAllPc → ReleaseAllStage
  | lockHeld | take => .take
  | unlockHeld keys | next keys => .releasing keys
  | releasing key pc keys => .releasing (if pc.pending then key :: keys else keys)

/-- The key that a call is halfway through releasing, and for whom. -/
def LockPc.halfway : LockPc → Option (KeyType × TransactionId)
  | release key txId pc => if pc.halfway then some (key, txId) else none
  | releaseAll txId (.releasing key pc _) => if pc.halfway then some (key, txId) else none
  | _ => none

def LockPc.Bounded : LockPc → Prop
  | acquire _ _ pc => pc.Bounded
  | _ => True

namespace SectionThread

/-- A thread whose `acquire` is before a section, or has been decided. -/
def acquiring (todo : List LockCall) (answers : List LockAnswer) (key : KeyType)
    (txId : TransactionId) : AcquireStage ⊕ AcquireResult → SectionThread
  | .inl stage => ⟨todo, .acquire key txId stage, answers⟩
  | .inr result => ⟨todo, .idle, answers ++ [.acquired result]⟩

/-- A thread whose `release` is to come, or has happened. -/
def releasing (todo : List LockCall) (answers : List LockAnswer) (key : KeyType)
    (txId : TransactionId) : Bool → SectionThread
  | true => ⟨todo, .release key txId, answers⟩
  | false => ⟨todo, .idle, answers ++ [.released]⟩

end SectionThread

namespace LockThread

/-- The thread, as far as sections go. -/
def abstract (x : LockThread) : SectionThread :=
  match x.pc with
  | .idle => ⟨x.todo, .idle, x.answers⟩
  | .acquire key txId pc => .acquiring x.todo x.answers key txId pc.stage
  | .release key txId pc => .releasing x.todo x.answers key txId pc.pending
  | .releaseAll txId pc => ⟨x.todo, .releaseAll txId pc.stage, x.answers⟩
  | .holdsLock _ _ (.unlockHeld result) => ⟨x.todo, .idle, x.answers ++ [.holds result]⟩
  | .holdsLock key txId _ => ⟨x.todo, .holdsLock key txId, x.answers⟩

def halfway (x : LockThread) : Option (KeyType × TransactionId) := x.pc.halfway

end LockThread

/-- A release that is halfway through has the entry. -/
theorem ReleasePc.entry_mem_held {key : KeyType} {pc : ReleasePc} (h : pc.halfway = true) :
    Mutex.entry key ∈ pc.held key := by
  cases pc <;> simp_all [ReleasePc.halfway, ReleasePc.held]

theorem LockThread.entry_mem_held {x : LockThread} {key : KeyType} {txId : TransactionId}
    (h : x.halfway = some (key, txId)) : Mutex.entry key ∈ x.held := by
  unfold LockThread.halfway LockPc.halfway at h
  unfold LockThread.held LockPc.held
  split at h
  · split at h
    · rename_i hpc hhalf
      obtain ⟨rfl, rfl⟩ := Prod.mk.inj (Option.some.inj h)
      rw [hpc]
      exact ReleasePc.entry_mem_held hhalf
    · exact absurd h (by simp)
  · split at h
    · rename_i hpc hhalf
      obtain ⟨rfl, rfl⟩ := Prod.mk.inj (Option.some.inj h)
      rw [hpc]
      exact ReleasePc.entry_mem_held hhalf
    · exact absurd h (by simp)
  · exact absurd h (by simp)

/-! ## 3. What the tables of the two levels have in common -/

/-- **Alike**: the tables are the same, but for the entries of keys that are halfway released.
Those have no owner in the code, and still have it as far as sections go.  `half` are these keys,
with their owners. -/
structure Alike (lm d : LockManager) (half : KeyType → Option TransactionId) : Prop where
  held : lm.heldLocks = d.heldLocks
  settled : ∀ k, half k = none → lm.lockTable k = d.lockTable k
  halfway : ∀ k t, half k = some t → lm.lockTable k = some ⟨some t⟩ ∧ d.lockTable k = some ⟨none⟩

section Alike

variable {lm d : LockManager} {half : KeyType → Option TransactionId} {key : KeyType}
  {txId : TransactionId}

theorem Alike.isSome (h : Alike lm d half) (k : KeyType) :
    (lm.lockTable k).isSome = (d.lockTable k).isSome := by
  cases hk : half k with
  | none => rw [h.settled k hk]
  | some t => simp [h.halfway k t hk]

/-- Who has an entry locked, and is not releasing it, sees its owner. -/
theorem Alike.owner (h : Alike lm d half) (hk : half key = none) : lm.owner key = d.owner key := by
  rw [LockManager.owner, h.settled key hk, LockManager.owner]

/-- The same change of `held_locks` on both levels. -/
theorem Alike.of_lockTable {lm' d' : LockManager} (h : Alike lm d half)
    (hlm : lm'.lockTable = lm.lockTable) (hd : d'.lockTable = d.lockTable)
    (hheld : lm'.heldLocks = d'.heldLocks) : Alike lm' d' half where
  held := hheld
  settled k hk := by rw [hlm, hd, h.settled k hk]
  halfway k t hk := by rw [hlm, hd]; exact h.halfway k t hk

theorem Alike.setOwner (h : Alike lm d half) (hk : half key = none) (o : Option TransactionId) :
    Alike (lm.setOwner key o) (d.setOwner key o) half where
  held := h.held
  settled k hk := by
    simp only [LockManager.setOwner]
    rcases eq_or_ne k key with rfl | hne
    · simp
    · rw [Function.update_of_ne hne, Function.update_of_ne hne, h.settled k hk]
  halfway k t ht := by
    have hne : k ≠ key := by
      rintro rfl
      exact absurd ht (by simp [hk])
    simp only [LockManager.setOwner]
    rw [Function.update_of_ne hne, Function.update_of_ne hne]
    exact h.halfway k t ht

theorem Alike.tryEmplace (h : Alike lm d half) (key : KeyType) :
    Alike (lm.tryEmplace key) (d.tryEmplace key) half := by
  unfold LockManager.tryEmplace
  rw [h.isSome]
  split
  · exact h
  · rename_i hnone
    refine h.setOwner ?_ none
    cases hk : half key with
    | none => rfl
    | some t => exact absurd (by simp [h.halfway key t hk]) hnone

theorem Alike.track (h : Alike lm d half) (key : KeyType) (txId : TransactionId) :
    Alike (lm.track key txId) (d.track key txId) half := by
  refine h.of_lockTable rfl rfl ?_
  simp only [LockManager.track, h.held]

theorem Alike.takeHeld (h : Alike lm d half) (txId : TransactionId) :
    Alike (lm.takeHeld txId) (d.takeHeld txId) half := by
  refine h.of_lockTable rfl rfl ?_
  simp only [LockManager.takeHeld, h.held]

/-- The first write of `release`: as far as sections go, nothing has happened. -/
theorem Alike.firstWrite (h : Alike lm d half) (hk : half key = none)
    (hown : d.owner key = some txId) :
    Alike lm (d.setOwner key none) (Function.update half key (some txId)) where
  held := h.held
  settled k hk' := by
    have hne : k ≠ key := by
      rintro rfl
      exact absurd hk' (by simp)
    rw [Function.update_of_ne hne] at hk'
    rw [h.settled k hk', LockManager.setOwner]
    exact (Function.update_of_ne hne ..).symm
  halfway k t ht := by
    rcases eq_or_ne k key with rfl | hne
    · rw [Function.update_self, Option.some.injEq] at ht
      subst ht
      rw [h.settled k hk]
      exact ⟨LockManager.lockTable_of_owner hown, Function.update_self ..⟩
    · rw [Function.update_of_ne hne] at ht
      rw [LockManager.setOwner]
      exact ⟨(h.halfway k t ht).1, (Function.update_of_ne hne ..).trans (h.halfway k t ht).2⟩

/-- The second write: now it has. -/
theorem Alike.secondWrite (h : Alike lm d half) (hk : half key = some txId) :
    Alike (lm.release key txId) (d.untrack key txId) (Function.update half key none) := by
  obtain ⟨hlm, hd⟩ := h.halfway key txId hk
  have hrelease : lm.release key txId = (lm.setOwner key none).untrack key txId := by
    simp [LockManager.release, hlm]
  have htable : ∀ lm' : LockManager, (lm'.untrack key txId).lockTable = lm'.lockTable := by
    intro lm'
    unfold LockManager.untrack
    split <;> rfl
  rw [hrelease]
  refine ⟨?_, fun k hk' => ?_, fun k t ht => ?_⟩
  · have hsame : (lm.setOwner key none).heldLocks = d.heldLocks := h.held
    unfold LockManager.untrack
    rw [hsame]
    split
    · exact hsame
    · rfl
  · rw [htable, htable, LockManager.setOwner]
    rcases eq_or_ne k key with rfl | hne
    · rw [hd]
      exact Function.update_self ..
    · rw [Function.update_of_ne hne] at hk'
      exact (Function.update_of_ne hne ..).trans (h.settled k hk')
  · have hne : k ≠ key := by
      rintro rfl
      exact absurd ht (by simp)
    rw [Function.update_of_ne hne] at ht
    rw [htable, htable, LockManager.setOwner]
    exact ⟨(Function.update_of_ne hne ..).trans (h.halfway k t ht).1, (h.halfway k t ht).2⟩

/-- A `release` by somebody who does not own the key does nothing. -/
theorem release_of_owner_ne (h : lm.owner key ≠ some txId) : lm.release key txId = lm := by
  unfold LockManager.release
  split
  · rfl
  · rename_i entry hentry
    rw [if_pos]
    simpa [LockManager.owner, hentry] using h

end Alike

/-! ## 4. Every instruction is a section or nothing -/

section Instructions

variable {lm d : LockManager} {half : KeyType → Option TransactionId}

/-- Where a call of `acquire` is after an instruction. -/
def stageAfter : AcquirePc ⊕ AcquireResult → AcquireStage ⊕ AcquireResult :=
  Sum.elim AcquirePc.stage .inr

/-- **An instruction of `acquire`.** -/
inductive AcquireMoves (lm d : LockManager) (half : KeyType → Option TransactionId) (key : KeyType)
    (txId : TransactionId) (pc : AcquirePc) (d' : LockManager) (next : AcquirePc ⊕ AcquireResult) :
    Prop
  | nothing : d' = d → stageAfter next = pc.stage →
      AcquireMoves lm d half key txId pc d' next
  | sectioned {stage lm'} : pc.stage = .inl stage →
      acquireStep lm key txId stage = (lm', stageAfter next) → Alike lm' d' half →
      AcquireMoves lm d half key txId pc d' next

/-- A poll of the spinning loop. -/
theorem acquireMoves_spin (h : Alike lm d half) {key : KeyType} {txId : TransactionId} {left : ℕ}
    (hfree : half key = none) (hleft : left + 1 ≤ maxSpins) :
    (acquireCode key txId (.spin (left + 1))).Effects d fun _ d' next =>
      AcquireMoves lm d half key txId (.spin (left + 1)) d' next ∧
        Sum.elim AcquirePc.Bounded (fun _ => True) next := by
  rw [acquireCode, Instr.effects_act]
  intro _
  have hown := h.owner hfree
  cases ho : d.owner key with
  | none =>
    refine ⟨.sectioned rfl ?_ (h.setOwner hfree (some txId)), trivial⟩
    simp only [acquireStep, Nat.add_one_ne_zero, if_false, hown, ho]
    rfl
  | some o =>
    by_cases heq : o = txId
    · simp only [heq, if_true]
      refine ⟨.sectioned rfl ?_ h, trivial⟩
      simp only [acquireStep, Nat.add_one_ne_zero, if_false, hown, ho, heq, if_true]
      rfl
    · simp only [heq, if_false]
      refine ⟨.sectioned rfl ?_ h, ?_⟩
      · simp only [acquireStep, Nat.add_one_ne_zero, if_false, hown, ho, heq, stageAfter,
          Sum.elim_inl, AcquirePc.stage]
        by_cases hzero : left = 0
        · subst hzero
          simp [maxSpins]
        · have hlt : maxSpins - left < maxSpins := by omega
          have hnext : maxSpins - (left + 1) + 1 = maxSpins - left := by omega
          simp only [hnext, hlt, if_true, hzero, if_false]
      · show left ≤ maxSpins
        omega

/-- A poll of the sleeping loop. -/
theorem acquireMoves_sleep (h : Alike lm d half) {key : KeyType} {txId : TransactionId} {left : ℕ}
    (hfree : half key = none) (hleft : left + 1 ≤ maxYields) :
    (acquireCode key txId (.sleep (left + 1))).Effects d fun _ d' next =>
      AcquireMoves lm d half key txId (.sleep (left + 1)) d' next ∧
        Sum.elim AcquirePc.Bounded (fun _ => True) next := by
  rw [acquireCode, Instr.effects_act]
  intro _
  have hown := h.owner hfree
  have hstage : (AcquirePc.sleep (left + 1)).stage = .inl (.sleep (maxYields - (left + 1))) := by
    simp [AcquirePc.stage]
  cases ho : d.owner key with
  | none =>
    refine ⟨.sectioned hstage ?_ (h.setOwner hfree (some txId)), trivial⟩
    simp only [acquireStep, hown, ho]
    rfl
  | some o =>
    refine ⟨.sectioned hstage ?_ h, ?_⟩
    · simp only [acquireStep, hown, ho, stageAfter, Sum.elim_inl, AcquirePc.stage]
      by_cases hzero : left = 0
      · subst hzero
        simp [maxYields]
      · have hlt : maxYields - left < maxYields := by omega
        have hnext : maxYields - (left + 1) + 1 = maxYields - left := by omega
        simp only [hnext, hlt, if_true, hzero, if_false]
    · show left ≤ maxYields
      omega

theorem acquireCode_effects (h : Alike lm d half) {key : KeyType} {txId : TransactionId}
    {pc : AcquirePc} (hfree : .entry key ∈ pc.held key → half key = none) (hb : pc.Bounded) :
    (acquireCode key txId pc).Effects d fun _ d' next =>
      AcquireMoves lm d half key txId pc d' next ∧
        Sum.elim AcquirePc.Bounded (fun _ => True) next := by
  have hheld : (∃ left, pc = .spin left ∨ pc = .sleep left) → half key = none := by
    rintro ⟨left, rfl | rfl⟩ <;> exact hfree (by simp [AcquirePc.held])
  cases pc with
  | emplace =>
    exact Instr.effects_act.mpr fun c => ⟨.sectioned rfl rfl (h.tryEmplace key), trivial⟩
  | lookup => exact Instr.effects_act.mpr fun c => ⟨.nothing rfl rfl, trivial⟩
  | track =>
    exact Instr.effects_act.mpr fun c => ⟨.sectioned rfl rfl (h.track key txId), trivial⟩
  | unlockHeld => exact fun c => ⟨.nothing rfl rfl, le_refl _⟩
  | spin left =>
    cases left with
    | zero => exact Instr.effects_act.mpr fun c => ⟨.nothing rfl rfl, le_refl _⟩
    | succ left => exact acquireMoves_spin h (hheld ⟨_, .inl rfl⟩) hb
  | sleep left =>
    cases left with
    | zero => exact Instr.effects_act.mpr fun c => ⟨.nothing rfl rfl, trivial⟩
    | succ left => exact acquireMoves_sleep h (hheld ⟨_, .inr rfl⟩) hb
  | _ => exact fun c => ⟨.nothing rfl rfl, hb⟩

/-- **An instruction of `release`**; `none` says that it has returned. -/
inductive ReleaseMoves (lm d : LockManager) (half : KeyType → Option TransactionId) (key : KeyType)
    (txId : TransactionId) (pc : ReleasePc) (d' : LockManager) (next : Option ReleasePc) : Prop
  | nothing : d' = d → next.elim false ReleasePc.pending = pc.pending →
      next.elim false ReleasePc.halfway = pc.halfway →
      ReleaseMoves lm d half key txId pc d' next
  /-- There is nothing to release. -/
  | vain : d' = d → lm.release key txId = lm → pc.pending = true →
      next.elim false ReleasePc.pending = false → pc.halfway = false →
      next.elim false ReleasePc.halfway = false → ReleaseMoves lm d half key txId pc d' next
  | firstWrite : d' = d.setOwner key none → d.owner key = some txId → half key = none →
      pc.pending = true → next.elim false ReleasePc.pending = true → pc.halfway = false →
      next.elim false ReleasePc.halfway = true → ReleaseMoves lm d half key txId pc d' next
  | secondWrite : d' = d.untrack key txId → pc.pending = true →
      next.elim false ReleasePc.pending = false → pc.halfway = true →
      next.elim false ReleasePc.halfway = false → ReleaseMoves lm d half key txId pc d' next

theorem releaseCode_effects (h : Alike lm d half) {key : KeyType} {txId : TransactionId}
    {pc : ReleasePc} (hfree : .entry key ∈ pc.held key → pc.halfway = false → half key = none) :
    (releaseCode key txId pc).Effects d fun _ d' next =>
      ReleaseMoves lm d half key txId pc d' next := by
  cases pc with
  | contains =>
    rw [releaseCode, Instr.effects_act]
    intro _
    split
    · exact .nothing rfl rfl rfl
    · rename_i hnone
      refine .vain rfl (release_of_owner_ne ?_) rfl rfl rfl rfl
      have hlm : lm.lockTable key = none := by
        rw [← Option.not_isSome_iff_eq_none, h.isSome]
        exact hnone
      simp [LockManager.owner, hlm]
  | check =>
    rw [releaseCode, Instr.effects_act]
    intro _
    have hkey : half key = none := hfree (by simp [ReleasePc.held]) rfl
    split
    · rename_i hne
      exact .vain rfl (release_of_owner_ne (by rwa [h.owner hkey])) rfl rfl rfl rfl
    · rename_i hown
      exact .firstWrite rfl (not_not.mp hown) hkey rfl rfl rfl rfl
  | untrack => exact Instr.effects_act.mpr fun c => .secondWrite rfl rfl rfl rfl rfl
  | _ => exact fun c => .nothing rfl rfl rfl

end Instructions

/-! ## 5. Threads -/

/-- **A step of a thread**, as far as sections go: none, the next one, or the first or second write
of a release. -/
inductive Moves (lm d : LockManager) (half : KeyType → Option TransactionId) (x : LockThread)
    (order : List KeyType) (d' : LockManager) (y : LockThread) : Prop
  | nothing : d' = d → y.abstract = x.abstract → y.halfway = x.halfway →
      Moves lm d half x order d' y
  | sectioned {lm'} : x.abstract.step lm order = some (lm', y.abstract) → Alike lm' d' half →
      y.halfway = x.halfway → Moves lm d half x order d' y
  | firstWrite {key txId} : d' = d.setOwner key none → d.owner key = some txId →
      half key = none → y.abstract = x.abstract → x.halfway = none →
      y.halfway = some (key, txId) → Moves lm d half x order d' y
  | secondWrite {key txId} : d' = d.untrack key txId →
      x.abstract.step lm order = some (lm.release key txId, y.abstract) →
      x.halfway = some (key, txId) → y.halfway = none → Moves lm d half x order d' y

section Threads

variable {lm d : LockManager} {half : KeyType → Option TransactionId} {todo : List LockCall}
  {answers : List LockAnswer} {key : KeyType} {txId : TransactionId}

/-- An instruction of `acquire`, as a step of its thread. -/
theorem AcquireMoves.moves {pc : AcquirePc} {d' : LockManager} {next : AcquirePc ⊕ AcquireResult}
    (h : AcquireMoves lm d half key txId pc d' next) (order : List KeyType) {y : LockThread}
    (hy : y.abstract = .acquiring todo answers key txId (stageAfter next))
    (hhalf : y.halfway = none) :
    Moves lm d half ⟨todo, .acquire key txId pc, answers⟩ order d' y := by
  cases h with
  | nothing hd hstage => exact .nothing hd (by rw [hy, hstage]; rfl) hhalf
  | @sectioned stage lm' hstage hstep halike =>
    have hx : (⟨todo, .acquire key txId pc, answers⟩ : LockThread).abstract
        = ⟨todo, .acquire key txId stage, answers⟩ := by
      simp only [LockThread.abstract, hstage, SectionThread.acquiring]
    refine .sectioned ?_ halike hhalf
    rw [hx, hy]
    simp only [SectionThread.step, hstep]
    cases stageAfter next <;> rfl

/-- An instruction of `release`, as a step of its thread. -/
theorem ReleaseMoves.moves {pc : ReleasePc} {d' : LockManager} {next : Option ReleasePc}
    (h : ReleaseMoves lm d half key txId pc d' next) (order : List KeyType) {x y : LockThread}
    (before after : SectionThread)
    (hstep : before.step lm order = some (lm.release key txId, after))
    (hx : x.abstract = if pc.pending then before else after)
    (hxhalf : x.halfway = if pc.halfway then some (key, txId) else none)
    (hy : y.abstract = if next.elim false ReleasePc.pending then before else after)
    (hyhalf : y.halfway
      = if next.elim false ReleasePc.halfway then some (key, txId) else none)
    (halike : Alike lm d half) : Moves lm d half x order d' y := by
  cases h with
  | nothing hd hpending hhalf =>
    exact .nothing hd (by rw [hy, hx, hpending]) (by rw [hyhalf, hxhalf, hhalf])
  | vain hd hvain hpending hpending' hhalf hhalf' =>
    subst hd
    refine .sectioned ?_ halike (by rw [hyhalf, hxhalf, hhalf, hhalf'])
    rw [hx, hy, hpending, hpending', if_pos rfl, if_neg (by simp), hstep, hvain]
  | firstWrite hd hown hkey hpending hpending' hhalf hhalf' =>
    exact .firstWrite hd hown hkey (by rw [hy, hx, hpending, hpending'])
      (by rw [hxhalf, hhalf]; rfl) (by rw [hyhalf, hhalf']; rfl)
  | secondWrite hd hpending hpending' hhalf hhalf' =>
    refine .secondWrite hd ?_ (by rw [hxhalf, hhalf]; rfl) (by rw [hyhalf, hhalf']; rfl)
    rw [hx, hy, hpending, hpending', if_pos rfl, if_neg (by simp), hstep]

end Threads

/-- **Every instruction of a thread is a section or nothing.** -/
theorem code_effects {lm d : LockManager} {half : KeyType → Option TransactionId} {x : LockThread}
    (h : Alike lm d half)
    (hfree : ∀ key, .entry key ∈ x.held → x.halfway = none → half key = none)
    (hb : x.pc.Bounded) :
    x.code.Effects d fun order d' y => Moves lm d half x order d' y ∧ y.pc.Bounded := by
  obtain ⟨todo, pc, answers⟩ := x
  cases pc with
  | idle =>
    cases todo with
    | nil => trivial
    | cons call todo =>
      refine Instr.effects_act.mpr fun order => ⟨.sectioned ?_ h ?_, ?_⟩
      · cases call <;> rfl
      · cases call <;> rfl
      · cases call <;> trivial
  | acquire key txId pc =>
    refine (acquireCode_effects h (fun hmem => hfree key hmem rfl) hb).map ?_
    rintro order d' (pc' | result) ⟨hmoves, hb'⟩
    · exact ⟨hmoves.moves order rfl rfl, hb'⟩
    · exact ⟨hmoves.moves order rfl rfl, trivial⟩
  | release key txId pc =>
    refine (releaseCode_effects h (fun hmem hhalf => hfree key hmem ?_)).map ?_
    · simp [LockThread.halfway, LockPc.halfway, hhalf]
    · rintro order d' next hmoves
      refine ⟨hmoves.moves order ⟨todo, .release key txId, answers⟩
        ⟨todo, .idle, answers ++ [.released]⟩ rfl ?_ rfl ?_ ?_ h, ?_⟩
      · cases hp : pc.pending <;> simp [LockThread.abstract, SectionThread.releasing, hp]
      · cases next with
        | none => rfl
        | some pc' =>
          cases hp : pc'.pending <;>
            simp [LockThread.abstract, LockThread.goto, SectionThread.releasing, hp]
      · cases next <;> rfl
      · cases next <;> trivial
  | releaseAll txId pc =>
    cases pc with
    | lockHeld => exact fun order => ⟨.nothing rfl rfl rfl, trivial⟩
    | take =>
      intro order d' y hf
      obtain ⟨⟨d₁, next⟩, hf', heq⟩ := Option.map_eq_some_iff.mp hf
      obtain ⟨henum, htake⟩ := Option.ite_none_right_eq_some.mp hf'
      rw [Option.some.injEq, Prod.mk.injEq] at htake
      obtain ⟨rfl, rfl⟩ := htake
      obtain ⟨rfl, rfl⟩ := Prod.mk.inj heq
      refine ⟨.sectioned ?_ (h.takeHeld txId) rfl, trivial⟩
      have henum' : Enumerates order (lm.keysToRelease txId) := by
        rw [LockManager.keysToRelease, h.held]
        exact henum
      simp only [LockThread.abstract, ReleaseAllPc.stage, SectionThread.step, releaseAllStep,
        if_pos henum']
      rfl
    | unlockHeld keys => exact fun order => ⟨.nothing rfl rfl rfl, trivial⟩
    | next keys =>
      cases keys with
      | nil =>
        intro order d' y hf
        simp only [Option.map_some, Option.some.injEq, Prod.map_apply, Prod.mk.injEq, id] at hf
        obtain ⟨rfl, rfl⟩ := hf
        exact ⟨.sectioned rfl h rfl, trivial⟩
      | cons key keys =>
        intro order d' y hf
        simp only [Option.map_some, Option.some.injEq, Prod.map_apply, Prod.mk.injEq, id] at hf
        obtain ⟨rfl, rfl⟩ := hf
        exact ⟨.nothing rfl rfl rfl, trivial⟩
    | releasing key pc keys =>
      have hrel : (releaseAllCode txId (.releasing key pc keys)).Effects d fun _ d' z =>
          ∃ next, ReleaseMoves lm d half key txId pc d' next ∧
            z = some (next.elim (.next keys) fun pc' => .releasing key pc' keys) := by
        refine (releaseCode_effects h (fun hmem hhalf => hfree key hmem ?_)).map ?_
        · simp [LockThread.halfway, LockPc.halfway, hhalf]
        · intro _ d' next hmoves
          exact ⟨next, hmoves, by cases next <;> rfl⟩
      refine hrel.map ?_
      rintro order d' z ⟨next, hmoves, rfl⟩
      refine ⟨hmoves.moves order ⟨todo, .releaseAll txId (.releasing (key :: keys)), answers⟩
        ⟨todo, .releaseAll txId (.releasing keys), answers⟩ rfl ?_ rfl ?_ ?_ h, trivial⟩
      · cases hp : pc.pending <;> simp [LockThread.abstract, ReleaseAllPc.stage, hp]
      · cases next with
        | none => rfl
        | some pc' =>
          cases hp : pc'.pending <;>
            simp [LockThread.abstract, LockThread.goto, ReleaseAllPc.stage, hp]
      · cases next <;> rfl
  | holdsLock key txId pc =>
    cases pc with
    | find =>
      intro order d' y hf
      simp only [Option.map_some, Option.some.injEq, Prod.map_apply, Prod.mk.injEq, id] at hf
      obtain ⟨rfl, rfl⟩ := hf
      refine ⟨.sectioned ?_ h rfl, trivial⟩
      have hholds : lm.holdsLock key txId = d.holdsLock key txId := by
        rw [LockManager.holdsLock, h.held, LockManager.holdsLock]
      simp only [LockThread.abstract, LockThread.goto, SectionThread.step, hholds]
      rfl
    | _ => exact fun order => ⟨.nothing rfl rfl rfl, trivial⟩

/-! ## 6. The lock manager -/

namespace LockThreads

variable {τ : Type*} [DecidableEq τ]

/-- **The refinement.**  `half` are the keys that some thread is halfway through releasing. -/
structure Refines (s : LockThreads τ) (w : LockSections τ)
    (half : KeyType → Option TransactionId) : Prop where
  holders : Threaded.HoldersInv LockThread.held s
  bounded : ∀ p, (s.locals p).pc.Bounded
  threads : ∀ p, w.threads p = (s.locals p).abstract
  half_iff : ∀ k t, half k = some t ↔ ∃ p, (s.locals p).halfway = some (k, t)
  alike : Alike w.lm s.data half

section Step

variable {s s' : LockThreads τ} {w : LockSections τ} {half : KeyType → Option TransactionId}
  {p : τ} {order : List KeyType}

omit [DecidableEq τ] in
/-- Only one thread has an entry. -/
theorem Refines.eq_of_entry (h : Refines s w half) {p q : τ} {k : KeyType}
    (hp : .entry k ∈ (s.locals p).held) (hq : .entry k ∈ (s.locals q).held) : p = q := by
  rw [← h.holders] at hp hq
  exact Option.some.inj (hp.symm.trans hq)

omit [DecidableEq τ] in
/-- Who has an entry and is not releasing it finds it settled. -/
theorem Refines.free (h : Refines s w half) {k : KeyType} (hmem : .entry k ∈ (s.locals p).held)
    (hnot : (s.locals p).halfway = none) : half k = none := by
  cases hk : half k with
  | none => rfl
  | some t =>
    obtain ⟨q, hq⟩ := (h.half_iff k t).mp hk
    obtain rfl := h.eq_of_entry hmem (LockThread.entry_mem_held hq)
    exact absurd hq (by simp [hnot])

/-- What the threads are halfway through after a step of one of them. -/
theorem halfway_step (hs : step s (p, order) = some s') (q : τ) :
    (s'.locals q).halfway
      = if q = p then (s'.locals p).halfway else (s.locals q).halfway := by
  split
  · rename_i hq
    rw [hq]
  · rename_i hq
    rw [(Threaded.stepped_of_step hs).locals_of_ne hq]

/-- The thread that moves has nothing new under way. -/
theorem Refines.half_iff_of_same (h : Refines s w half) (hs : step s (p, order) = some s')
    (hsame : (s'.locals p).halfway = (s.locals p).halfway) (k : KeyType) (t : TransactionId) :
    half k = some t ↔ ∃ q, (s'.locals q).halfway = some (k, t) := by
  have heq : ∀ q, (s'.locals q).halfway = (s.locals q).halfway := by
    intro q
    rw [halfway_step hs]
    split
    · rename_i hq
      rw [hq, hsame]
    · rfl
  simp only [heq]
  exact h.half_iff k t

/-- The first write of a release. -/
theorem Refines.half_iff_of_first (h : Refines s w half) (hs : step s (p, order) = some s')
    {key : KeyType} {txId : TransactionId} (hkey : half key = none)
    (hbefore : (s.locals p).halfway = none) (hafter : (s'.locals p).halfway = some (key, txId))
    (k : KeyType) (t : TransactionId) :
    Function.update half key (some txId) k = some t ↔
      ∃ q, (s'.locals q).halfway = some (k, t) := by
  constructor
  · intro hk
    rcases eq_or_ne k key with rfl | hne
    · rw [Function.update_self, Option.some.injEq] at hk
      exact ⟨p, hk ▸ hafter⟩
    · rw [Function.update_of_ne hne] at hk
      obtain ⟨q, hq⟩ := (h.half_iff k t).mp hk
      have hqp : q ≠ p := by
        rintro rfl
        exact absurd hq (by simp [hbefore])
      exact ⟨q, by rw [halfway_step hs, if_neg hqp, hq]⟩
  · rintro ⟨q, hq⟩
    rw [halfway_step hs] at hq
    split at hq
    · rw [hafter, Option.some.injEq, Prod.mk.injEq] at hq
      obtain ⟨rfl, rfl⟩ := hq
      exact Function.update_self ..
    · have hk := (h.half_iff k t).mpr ⟨q, hq⟩
      have hne : k ≠ key := by
        rintro rfl
        exact absurd hk (by simp [hkey])
      rw [Function.update_of_ne hne, hk]

/-- The second one. -/
theorem Refines.half_iff_of_second (h : Refines s w half) (hs : step s (p, order) = some s')
    {key : KeyType} {txId : TransactionId} (hbefore : (s.locals p).halfway = some (key, txId))
    (hafter : (s'.locals p).halfway = none) (k : KeyType) (t : TransactionId) :
    Function.update half key none k = some t ↔ ∃ q, (s'.locals q).halfway = some (k, t) := by
  constructor
  · intro hk
    have hne : k ≠ key := by
      rintro rfl
      exact absurd hk (by simp)
    rw [Function.update_of_ne hne] at hk
    obtain ⟨q, hq⟩ := (h.half_iff k t).mp hk
    have hqp : q ≠ p := by
      rintro rfl
      rw [hbefore, Option.some.injEq, Prod.mk.injEq] at hq
      exact hne hq.1.symm
    exact ⟨q, by rw [halfway_step hs, if_neg hqp, hq]⟩
  · rintro ⟨q, hq⟩
    rw [halfway_step hs] at hq
    split at hq
    · exact absurd hq (by simp [hafter])
    · rename_i hqp
      have hne : k ≠ key := by
        rintro rfl
        exact hqp (h.eq_of_entry (LockThread.entry_mem_held hq) (LockThread.entry_mem_held hbefore))
      rw [Function.update_of_ne hne]
      exact (h.half_iff k t).mpr ⟨q, hq⟩

/-- **Each step of the code is a section of the same thread, or none.** -/
theorem Refines.step (h : Refines s w half) (hs : step s (p, order) = some s') :
    (∃ half', Refines s' w half') ∨
      ∃ w' half', LockSections.step w (p, order) = some w' ∧ Refines s' w' half' := by
  have hothers : ∀ q, q ≠ p → s'.locals q = s.locals q := fun q hq =>
    (Threaded.stepped_of_step hs).locals_of_ne hq
  obtain ⟨hmoves, hbounded⟩ := Threaded.effects_of_step hs
    (code_effects h.alike (fun key hmem hnot => h.free hmem hnot) (h.bounded p))
  have hholders := Threaded.holdersInv_step code_disciplined h.holders hs
  have hbounded' : ∀ q, (s'.locals q).pc.Bounded := by
    intro q
    rcases eq_or_ne q p with rfl | hne
    · exact hbounded
    · rw [hothers q hne]
      exact h.bounded q
  -- as far as sections go, the other threads stand still
  have hstill : (s'.locals p).abstract = (s.locals p).abstract →
      ∀ q, w.threads q = (s'.locals q).abstract := by
    intro heq q
    rcases eq_or_ne q p with rfl | hne
    · rw [heq, h.threads]
    · rw [hothers q hne, h.threads]
  have hmoved : ∀ q, Function.update w.threads p (s'.locals p).abstract q
      = (s'.locals q).abstract := by
    intro q
    rcases eq_or_ne q p with rfl | hne
    · rw [Function.update_self]
    · rw [Function.update_of_ne hne, h.threads, hothers q hne]
  have hsection : ∀ lm', (s.locals p).abstract.step w.lm order
      = some (lm', (s'.locals p).abstract) → LockSections.step w (p, order)
        = some ⟨lm', Function.update w.threads p (s'.locals p).abstract⟩ := by
    intro lm' hstep
    rw [LockSections.step, h.threads, hstep]
    rfl
  cases hmoves with
  | nothing hd habs hhalf =>
    exact .inl ⟨half, hholders, hbounded', hstill habs, h.half_iff_of_same hs hhalf,
      hd ▸ h.alike⟩
  | @sectioned lm' hstep halike hhalf =>
    exact .inr ⟨_, half, hsection lm' hstep, hholders, hbounded', hmoved,
      h.half_iff_of_same hs hhalf, halike⟩
  | firstWrite hd hown hkey habs hbefore hafter =>
    exact .inl ⟨_, hholders, hbounded', hstill habs, h.half_iff_of_first hs hkey hbefore hafter,
      hd ▸ h.alike.firstWrite hkey hown⟩
  | @secondWrite key txId hd hstep hbefore hafter =>
    have hkey : half key = some txId := (h.half_iff key txId).mpr ⟨p, hbefore⟩
    exact .inr ⟨_, _, hsection _ hstep, hholders, hbounded', hmoved,
      h.half_iff_of_second hs hbefore hafter, hd ▸ h.alike.secondWrite hkey⟩

end Step

/-- **Sections are atomic.**  Whatever the threads call, and however the steps of their code
interleave: some of these steps, in their order, taken for whole sections, bring every thread where
its code has brought it, with the same answers.  `held_locks` is the same, and so is every entry
that nobody has locked. -/
theorem sections_atomic (lm : LockManager) (calls : τ → List LockCall)
    {labels : List (τ × List KeyType)} {s : LockThreads τ}
    (hrun : runLabels step (initial lm calls) labels = some s) :
    ∃ sections w, sections.Sublist labels ∧
      runLabels LockSections.step (LockSections.initial lm calls) sections = some w ∧
      (∀ p, w.threads p = (s.locals p).abstract) ∧ w.lm.heldLocks = s.data.heldLocks ∧
      ∀ k, s.holder (.entry k) = none → w.lm.lockTable k = s.data.lockTable k := by
  have hinitial : ∃ half, Refines (initial lm calls) (LockSections.initial lm calls) half := by
    refine ⟨fun _ => none, holdersInv_initial lm calls, fun p => trivial, fun p => rfl,
      fun k t => ?_, rfl, fun k _ => rfl, fun k t ht => absurd ht (by simp)⟩
    simp [initial, LockThread.halfway, LockPc.halfway]
  have hstep : ∀ (s : LockThreads τ) l s' w, (∃ half, Refines s w half) → step s l = some s' →
      (∃ half, Refines s' w half) ∨
        ∃ w', LockSections.step w l = some w' ∧ ∃ half, Refines s' w' half := by
    rintro s ⟨p, order⟩ s' w ⟨half, h⟩ hs
    rcases h.step hs with hsame | ⟨w', half', hstep, h'⟩
    · exact .inl hsame
    · exact .inr ⟨w', hstep, half', h'⟩
  obtain ⟨sections, w, hsub, hsections, half, h⟩ :=
    runLabels_simulation hstep labels hinitial hrun
  refine ⟨sections, w, hsub, hsections, h.threads, h.alike.held, fun k hk => ?_⟩
  refine h.alike.settled k ?_
  cases hhalf : half k with
  | none => rfl
  | some t =>
    obtain ⟨p, hp⟩ := (h.half_iff k t).mp hhalf
    have hholder := (h.holders _ p).mpr (LockThread.entry_mem_held hp)
    exact absurd hholder (by simp [hk])

/-- One thread acquires key 7 for transaction 1 and gives it back; the other asks who has it. -/
def givenBack : Bool → List LockCall
  | false => [.acquire 7 1, .release 7 1]
  | true => [.holdsLock 7 1]

/-- The question is asked between the two writes of the release. -/
def askedHalfway : List (Bool × List KeyType) :=
  List.replicate 16 (false, []) ++ List.replicate 4 (true, [])

theorem sections_atomic_halfway :
    ∃ s : LockThreads Bool, runLabels step (initial .empty givenBack) askedHalfway = some s ∧
      s.data.owner 7 = none ∧ (s.locals true).answers = [.holds true] ∧
      ∃ sections w, sections.Sublist askedHalfway ∧
        runLabels LockSections.step (LockSections.initial .empty givenBack) sections = some w ∧
        (∀ p, w.threads p = (s.locals p).abstract) ∧ w.lm.heldLocks = s.data.heldLocks ∧
        ∀ k, s.holder (.entry k) = none → w.lm.lockTable k = s.data.lockTable k := by
  have hrun : ((runLabels step (initial .empty givenBack) askedHalfway).map fun s =>
      decide (s.data.owner 7 = none ∧ (s.locals true).answers = [.holds true])) = some true := by
    decide +kernel
  obtain ⟨s, hs, hfacts⟩ := Option.map_eq_some_iff.mp hrun
  obtain ⟨hown, hanswers⟩ := of_decide_eq_true hfacts
  exact ⟨s, hs, hown, hanswers, sections_atomic .empty givenBack hs⟩

end LockThreads

end TwoPL
