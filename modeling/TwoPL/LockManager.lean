/-
# The lock manager

`transactions/LockManager.{h,cpp}`: two tables, `lock_table` (each key's entry, with the id of
its owner) and `held_locks` (for each transaction id, the keys it may have to give back).

A call is not atomic.  `acquire` first creates the entry under the table mutex, then records
its interest in `held_locks`, and then POLLS the entry up to 1500 times, dropping the entry's
mutex between two polls; `release_all` first takes the transaction's key set out of
`held_locks` and then releases one key after the other.  Each mutex-protected section is one
step here: `acquireStep` is one section of `acquire`, `release` is one section, and
`ReleaseAllStage` is where a `release_all` call is.  Between two sections anything may happen.

`held_locks` is written under two mutexes at once in `acquire` (the entry's and its own); the
model lets other calls run between that write and the first poll, which the code does not.

One access is in no section: between its first and its second, `acquire` looks its entry up without
`table_mutex`.  `acquireStep` goes on with the entry of its key.  That is right while no other
thread links a new entry during the lookup, and not otherwise: `LookupClients.lean` has the lookup
as steps of its own, and what is proved about the sections holds of the code as long as no lookup
is raced.

What a section can do is said once (`AcquireStep`, `owner_release`); every invariant of the
lock table is derived from these.
-/
import Mathlib.Data.Finset.Basic
import TwoPL.Storage

namespace TwoPL

/-! ## 1. The tables -/

/-- `LockEntry`, without its mutex. -/
structure LockEntry where
  owner : Option TransactionId := none
  deriving DecidableEq

structure LockManager where
  lockTable : KeyType → Option LockEntry
  heldLocks : TransactionId → Option (Finset KeyType)

/-- `LockManager::AcquireResult`. -/
inductive AcquireResult
  | ACQUIRED
  | ABORTED
  deriving DecidableEq

namespace LockManager

/-- `LockManager() = default`. -/
def empty : LockManager where
  lockTable := fun _ => none
  heldLocks := fun _ => none

/-- The owner in the key's entry; `none` also when there is no entry yet. -/
def owner (lm : LockManager) (key : KeyType) : Option TransactionId :=
  (lm.lockTable key).bind LockEntry.owner

/-- `lock_entry.owner = owner`, for an existing entry. -/
def setOwner (lm : LockManager) (key : KeyType) (owner : Option TransactionId) : LockManager :=
  { lm with lockTable := Function.update lm.lockTable key (some ⟨owner⟩) }

/-- `if (!lock_table.contains(key)) lock_table.try_emplace(key)`. -/
def tryEmplace (lm : LockManager) (key : KeyType) : LockManager :=
  if (lm.lockTable key).isSome then lm else lm.setOwner key none

/-- `held_locks[tx_id].insert(key)`. -/
def track (lm : LockManager) (key : KeyType) (txId : TransactionId) : LockManager :=
  { lm with
    heldLocks := Function.update lm.heldLocks txId
      (some (insert key ((lm.heldLocks txId).getD ∅))) }

/-- A key with an owner has an entry that names it. -/
theorem lockTable_of_owner {lm : LockManager} {k : KeyType} {t : TransactionId}
    (h : lm.owner k = some t) : lm.lockTable k = some ⟨some t⟩ := by
  obtain ⟨entry, hentry, howner⟩ := Option.bind_eq_some_iff.mp h
  rw [hentry, ← howner]

@[simp] theorem owner_setOwner (lm : LockManager) (key k : KeyType) (o : Option TransactionId) :
    (lm.setOwner key o).owner k = if k = key then o else lm.owner k := by
  by_cases h : k = key
  · subst h; simp [owner, setOwner]
  · simp [owner, setOwner, h]

@[simp] theorem owner_tryEmplace (lm : LockManager) (key k : KeyType) :
    (lm.tryEmplace key).owner k = lm.owner k := by
  unfold tryEmplace
  split
  · rfl
  · rename_i hnone
    rw [owner_setOwner]
    split
    · rename_i hk
      subst hk
      simp only [Bool.not_eq_true, Option.isSome_eq_false_iff, Option.isNone_iff_eq_none] at hnone
      simp [owner, hnone]
    · rfl

@[simp] theorem owner_track (lm : LockManager) (key k : KeyType) (txId : TransactionId) :
    (lm.track key txId).owner k = lm.owner k := rfl

@[simp] theorem owner_empty (k : KeyType) : empty.owner k = none := rfl

end LockManager

/-! ## 2. `acquire`, one section at a time -/

/-- `MAX_SPINS`. -/
def maxSpins : Nat := 1000

/-- `MAX_YIELDS`. -/
def maxYields : Nat := 500

/-- Where a call of `acquire` is: before the table section, before the write to `held_locks`,
about to make poll number `n` of the spinning loop, or of the sleeping loop. -/
inductive AcquireStage
  | emplace
  | track
  | spin (n : Nat)
  | sleep (n : Nat)
  deriving DecidableEq

/-- The call is in one of its two loops. -/
def AcquireStage.polls : AcquireStage → Bool
  | .spin _ | .sleep _ => true
  | _ => false

/-- One section of `acquire(key, tx_id)`, on the entry of its key: the tables afterwards, and where
the call is then or what it returned.  The lookup behind the first section is not among them. -/
def acquireStep (lm : LockManager) (key : KeyType) (txId : TransactionId) :
    AcquireStage → LockManager × (AcquireStage ⊕ AcquireResult)
  | .emplace => (lm.tryEmplace key, .inl .track)
  | .track => (lm.track key txId, .inl (.spin 0))
  | .spin n =>
    match lm.owner key with
    | none => (lm.setOwner key (some txId), .inr .ACQUIRED)
    | some ownerId =>
      if ownerId = txId then (lm, .inr .ACQUIRED)
      else (lm, .inl (if n + 1 < maxSpins then .spin (n + 1) else .sleep 0))
  | .sleep n =>
    -- unlike the spinning loop, this one does not test for the caller's own id
    match lm.owner key with
    | none => (lm.setOwner key (some txId), .inr .ACQUIRED)
    | some _ => (lm, if n + 1 < maxYields then .inl (.sleep (n + 1)) else .inr .ABORTED)

/-- **Everything a section of `acquire` can do.** -/
inductive AcquireStep (lm : LockManager) (key : KeyType) (txId : TransactionId) :
    AcquireStage → LockManager → AcquireStage ⊕ AcquireResult → Prop
  | emplace : AcquireStep lm key txId .emplace (lm.tryEmplace key) (.inl .track)
  | track : AcquireStep lm key txId .track (lm.track key txId) (.inl (.spin 0))
  /-- A poll of either loop finds no owner. -/
  | take {st} : st.polls = true → lm.owner key = none →
      AcquireStep lm key txId st (lm.setOwner key (some txId)) (.inr .ACQUIRED)
  /-- A poll of the spinning loop finds the caller itself. -/
  | reenter {n} : lm.owner key = some txId →
      AcquireStep lm key txId (.spin n) lm (.inr .ACQUIRED)
  /-- A poll of the spinning loop finds somebody else, and another poll follows. -/
  | spun {n o} : lm.owner key = some o → o ≠ txId →
      AcquireStep lm key txId (.spin n) lm
        (.inl (if n + 1 < maxSpins then .spin (n + 1) else .sleep 0))
  /-- A poll of the sleeping loop finds an owner, and another poll follows. -/
  | slept {n o} : lm.owner key = some o → n + 1 < maxYields →
      AcquireStep lm key txId (.sleep n) lm (.inl (.sleep (n + 1)))
  /-- The last poll of the sleeping loop finds an owner. -/
  | giveUp {n o} : lm.owner key = some o → maxYields ≤ n + 1 →
      AcquireStep lm key txId (.sleep n) lm (.inr .ABORTED)

theorem acquireStep_spec (lm : LockManager) (key : KeyType) (txId : TransactionId)
    (st : AcquireStage) :
    AcquireStep lm key txId st (acquireStep lm key txId st).1 (acquireStep lm key txId st).2 := by
  cases st with
  | emplace => exact .emplace
  | track => exact .track
  | spin n =>
    cases ho : lm.owner key with
    | none => simpa only [acquireStep, ho] using .take rfl ho
    | some o =>
      simp only [acquireStep, ho]
      by_cases heq : o = txId
      · rw [if_pos heq]; exact .reenter (heq ▸ ho)
      · rw [if_neg heq]; exact .spun ho heq
  | sleep n =>
    cases ho : lm.owner key with
    | none => simpa only [acquireStep, ho] using .take rfl ho
    | some o =>
      simp only [acquireStep, ho]
      split
      · rename_i hlt
        exact .slept ho hlt
      · exact .giveUp ho (by omega)

/-- The call has not found its key taken. -/
def AcquireStage.NotWaited (stage : AcquireStage) : Prop :=
  stage = .emplace ∨ stage = .track ∨ stage = .spin 0

section AcquireFacts

variable {lm lm' : LockManager} {key k : KeyType} {txId t : TransactionId} {st : AcquireStage}
  {r : AcquireStage ⊕ AcquireResult}

/-- A section of `acquire` takes no key from its owner. -/
theorem AcquireStep.owner_of_some (h : AcquireStep lm key txId st lm' r)
    (hk : lm.owner k = some t) : lm'.owner k = some t := by
  cases h with
  | emplace => simpa using hk
  | track => simpa using hk
  | take _ hnone =>
    have hne : k ≠ key := fun e => by rw [← e, hk] at hnone; exact absurd hnone (by simp)
    simpa [hne] using hk
  | reenter _ => exact hk
  | spun _ _ => exact hk
  | slept _ _ => exact hk
  | giveUp _ _ => exact hk

/-- It changes no owner but that of its own key, and that one only to its own id. -/
theorem AcquireStep.owner_eq (h : AcquireStep lm key txId st lm' r) (k : KeyType) :
    lm'.owner k = lm.owner k ∨
      (k = key ∧ lm.owner key = none ∧ lm'.owner key = some txId ∧ r = .inr .ACQUIRED) := by
  cases h with
  | emplace => exact .inl (by simp)
  | track => exact .inl (by simp)
  | take _ hnone =>
    by_cases hk : k = key
    · exact .inr ⟨hk, hnone, by simp, rfl⟩
    · exact .inl (by simp [hk])
  | reenter _ => exact .inl rfl
  | spun _ _ => exact .inl rfl
  | slept _ _ => exact .inl rfl
  | giveUp _ _ => exact .inl rfl

/-- A call that goes on, or is refused, has changed no owner. -/
theorem AcquireStep.owner_unchanged (h : AcquireStep lm key txId st lm' r)
    (hr : r ≠ .inr .ACQUIRED) (k : KeyType) : lm'.owner k = lm.owner k := by
  rcases h.owner_eq k with heq | ⟨-, -, -, hacq⟩
  · exact heq
  · exact absurd hacq hr

theorem AcquireStep.owner_cases (h : AcquireStep lm key txId st lm' r)
    (hk : lm'.owner k = some t) : lm.owner k = some t ∨ (k = key ∧ t = txId) := by
  rcases h.owner_eq k with heq | ⟨rfl, -, hself, -⟩
  · exact .inl (heq ▸ hk)
  · exact .inr ⟨rfl, Option.some.inj (hk.symm.trans hself)⟩

/-- `ACQUIRED` means that the caller's id is in the entry, and that nobody else's was. -/
theorem AcquireStep.acquired (h : AcquireStep lm key txId st lm' (.inr .ACQUIRED)) :
    lm'.owner key = some txId ∧ (lm.owner key = none ∨ lm.owner key = some txId) := by
  cases h with
  | take _ hnone => exact ⟨by simp, .inl hnone⟩
  | reenter hself => exact ⟨hself, .inr hself⟩

/-- While its key is free or its own, a call does not have to wait, and is not refused. -/
theorem AcquireStep.notWaited (h : AcquireStep lm key txId st lm' r) (hst : st.NotWaited)
    (hown : lm.owner key = none ∨ lm.owner key = some txId) :
    r = .inr .ACQUIRED ∨ ∃ st', r = .inl st' ∧ st'.NotWaited := by
  cases h with
  | emplace => exact .inr ⟨_, rfl, .inr (.inl rfl)⟩
  | track => exact .inr ⟨_, rfl, .inr (.inr rfl)⟩
  | take _ _ => exact .inl rfl
  | reenter _ => exact .inl rfl
  | spun ho hne => simp [ho, hne] at hown
  | slept _ _ => simp [AcquireStage.NotWaited] at hst
  | giveUp _ _ => simp [AcquireStage.NotWaited] at hst

end AcquireFacts

/-! ## 3. `release`, `release_all` and `holds_lock` -/

namespace LockManager

/-- The end of `release`: `key` leaves the set of `tx_id` in `held_locks`, and an empty set
leaves the table. -/
def untrack (lm : LockManager) (key : KeyType) (txId : TransactionId) : LockManager :=
  match lm.heldLocks txId with
  | none => lm
  | some keys =>
    { lm with
      heldLocks := Function.update lm.heldLocks txId
        (if keys.erase key = ∅ then none else some (keys.erase key)) }

/-- `release(key, tx_id)`: one section, under all three mutexes. -/
def release (lm : LockManager) (key : KeyType) (txId : TransactionId) : LockManager :=
  match lm.lockTable key with
  | none => lm
  | some entry =>
    if entry.owner ≠ some txId then lm else (lm.setOwner key none).untrack key txId

/-- The first section of `release_all(tx_id)`: the key set it takes out of `held_locks`. -/
def keysToRelease (lm : LockManager) (txId : TransactionId) : Finset KeyType :=
  (lm.heldLocks txId).getD ∅

/-- ... and the tables it leaves. -/
def takeHeld (lm : LockManager) (txId : TransactionId) : LockManager :=
  { lm with heldLocks := Function.update lm.heldLocks txId none }

def holdsLock (lm : LockManager) (key : KeyType) (txId : TransactionId) : Bool :=
  match lm.heldLocks txId with
  | none => false
  | some keys => key ∈ keys

@[simp] theorem owner_untrack (lm : LockManager) (key k : KeyType) (txId : TransactionId) :
    (lm.untrack key txId).owner k = lm.owner k := by
  unfold untrack
  split <;> rfl

/-- **What `release` does to the owners**: it frees the key if the caller owns it, and nothing
else. -/
theorem owner_release (lm : LockManager) (key : KeyType) (txId : TransactionId) (k : KeyType) :
    (lm.release key txId).owner k
      = if k = key ∧ lm.owner key = some txId then none else lm.owner k := by
  cases hentry : lm.lockTable key with
  | none => simp [release, owner, hentry]
  | some entry =>
    have howner : lm.owner key = entry.owner := by simp [owner, hentry]
    simp only [release, hentry, howner]
    by_cases h : entry.owner = some txId
    · simp [h]
    · simp [h]

@[simp] theorem owner_takeHeld (lm : LockManager) (txId : TransactionId) (k : KeyType) :
    (lm.takeHeld txId).owner k = lm.owner k := rfl

/-- Only the owner's own `release` takes a key from it. -/
theorem owner_release_of_ne {lm : LockManager} {key k : KeyType} {txId t : TransactionId}
    (hk : lm.owner k = some t) (hne : ¬ (k = key ∧ t = txId)) :
    (lm.release key txId).owner k = some t := by
  rw [owner_release, if_neg, hk]
  rintro ⟨rfl, h⟩
  rw [hk, Option.some.injEq] at h
  exact hne ⟨rfl, h⟩

/-- `release` gives no key to anybody. -/
theorem owner_of_release {lm : LockManager} {key k : KeyType} {txId t : TransactionId}
    (hk : (lm.release key txId).owner k = some t) : lm.owner k = some t := by
  rw [owner_release] at hk
  split at hk
  · exact absurd hk (by simp)
  · exact hk

/-- After `release(key, tx_id)` the caller does not own the key. -/
theorem owner_release_self (lm : LockManager) (key : KeyType) (txId : TransactionId) :
    (lm.release key txId).owner key ≠ some txId := by
  rw [owner_release]
  split
  · simp
  · rename_i h
    exact fun e => h ⟨rfl, e⟩

end LockManager

/-- Where a call of `release_all` is: before its first section, or with these keys of its set
still to release, in the order the set is iterated. -/
inductive ReleaseAllStage
  | take
  | releasing (keys : List KeyType)
  deriving DecidableEq

/-- `l` lists the set `s` in some order: what iterating an unordered container can give. -/
def Enumerates {α : Type*} [DecidableEq α] (l : List α) (s : Finset α) : Prop :=
  l.Nodup ∧ l.toFinset = s

instance {α : Type*} [DecidableEq α] (l : List α) (s : Finset α) : Decidable (Enumerates l s) :=
  inferInstanceAs (Decidable (_ ∧ _))

theorem Enumerates.mem_iff {α : Type*} [DecidableEq α] {l : List α} {s : Finset α}
    (h : Enumerates l s) (x : α) : x ∈ l ↔ x ∈ s := by
  rw [← h.2, List.mem_toFinset]

/-- Some order in which a set can be iterated. -/
theorem exists_enumerates {α : Type*} [DecidableEq α] (s : Finset α) :
    ∃ l : List α, Enumerates l s :=
  ⟨s.toList, s.nodup_toList, Finset.toList_toFinset s⟩

/-- One section of `release_all(tx_id)`; `order` is the order in which its key set is iterated.
`none` in the second component says that the call has returned. -/
def releaseAllStep (lm : LockManager) (txId : TransactionId) (order : List KeyType) :
    ReleaseAllStage → Option (LockManager × Option ReleaseAllStage)
  | .take =>
    if Enumerates order (lm.keysToRelease txId) then
      some (lm.takeHeld txId, some (.releasing order))
    else none
  | .releasing [] => some (lm, none)
  | .releasing (key :: keys) => some (lm.release key txId, some (.releasing keys))

/-- **Everything a section of `release_all` can do.** -/
inductive ReleaseAllStep (lm : LockManager) (txId : TransactionId) :
    ReleaseAllStage → LockManager → Option ReleaseAllStage → Prop
  | take {keys} : Enumerates keys (lm.keysToRelease txId) →
      ReleaseAllStep lm txId .take (lm.takeHeld txId) (some (.releasing keys))
  | release {key keys} :
      ReleaseAllStep lm txId (.releasing (key :: keys)) (lm.release key txId)
        (some (.releasing keys))
  | done : ReleaseAllStep lm txId (.releasing []) lm none

theorem releaseAllStep_spec {lm : LockManager} {txId : TransactionId} {order : List KeyType}
    {stage : ReleaseAllStage} {r : LockManager × Option ReleaseAllStage}
    (h : releaseAllStep lm txId order stage = some r) :
    ReleaseAllStep lm txId stage r.1 r.2 := by
  cases stage with
  | take =>
    simp only [releaseAllStep] at h
    split at h
    · rename_i henum
      rw [Option.some.injEq] at h
      exact h ▸ .take henum
    · exact absurd h (by simp)
  | releasing keys =>
    cases keys with
    | nil =>
      rw [releaseAllStep, Option.some.injEq] at h
      exact h ▸ .done
    | cons key keys =>
      rw [releaseAllStep, Option.some.injEq] at h
      exact h ▸ .release

/-! ## 4. What `held_locks` knows of a transaction -/

namespace LockManager

/-- Nothing of `t` differs: neither the keys it owns nor its set in `held_locks`. -/
structure SameFor (lm lm' : LockManager) (t : TransactionId) : Prop where
  heldLocks : lm'.heldLocks t = lm.heldLocks t
  owner : ∀ k, lm'.owner k = some t ↔ lm.owner k = some t

/-- Every key that `t` owns is in its set in `held_locks`, or one of `keys`. -/
def Recorded (lm : LockManager) (t : TransactionId) (keys : List KeyType) : Prop :=
  ∀ k, lm.owner k = some t → k ∈ lm.keysToRelease t ∨ k ∈ keys

variable {lm lm' : LockManager} {key k : KeyType} {txId t : TransactionId}

theorem SameFor.refl (lm : LockManager) (t : TransactionId) : SameFor lm lm t :=
  ⟨rfl, fun _ => Iff.rfl⟩

theorem SameFor.trans {lm'' : LockManager} (h : SameFor lm lm' t) (h' : SameFor lm' lm'' t) :
    SameFor lm lm'' t :=
  ⟨h'.heldLocks.trans h.heldLocks, fun k => (h'.owner k).trans (h.owner k)⟩

theorem SameFor.keysToRelease (h : SameFor lm lm' t) :
    lm'.keysToRelease t = lm.keysToRelease t := by
  rw [LockManager.keysToRelease, h.heldLocks, LockManager.keysToRelease]

theorem SameFor.recorded (h : SameFor lm lm' t) {keys : List KeyType}
    (hrec : lm.Recorded t keys) : lm'.Recorded t keys := by
  intro k hk
  rw [h.keysToRelease]
  exact hrec k ((h.owner k).mp hk)

@[simp] theorem heldLocks_setOwner (lm : LockManager) (key : KeyType) (o : Option TransactionId) :
    (lm.setOwner key o).heldLocks = lm.heldLocks := rfl

@[simp] theorem heldLocks_tryEmplace (lm : LockManager) (key : KeyType) :
    (lm.tryEmplace key).heldLocks = lm.heldLocks := by
  unfold tryEmplace
  split <;> rfl

@[simp] theorem keysToRelease_track (lm : LockManager) (key : KeyType) (txId : TransactionId) :
    (lm.track key txId).keysToRelease txId = insert key (lm.keysToRelease txId) := by
  simp [track, keysToRelease]

/-- What the end of `release` leaves in the set of its transaction. -/
theorem keysToRelease_untrack (lm : LockManager) (key : KeyType) (txId : TransactionId) :
    (lm.untrack key txId).keysToRelease txId = (lm.keysToRelease txId).erase key := by
  unfold untrack keysToRelease
  cases hheld : lm.heldLocks txId with
  | none => simp [hheld]
  | some keys =>
    simp only [Function.update_self, Option.getD_some]
    split
    · rename_i hempty
      rw [hempty, Option.getD_none]
    · rfl

/-- **What `release` does to the set of its transaction**: it takes the key out if it frees it. -/
theorem keysToRelease_release (lm : LockManager) (key : KeyType) (txId : TransactionId) :
    (lm.release key txId).keysToRelease txId
      = if lm.owner key = some txId then (lm.keysToRelease txId).erase key
        else lm.keysToRelease txId := by
  cases hentry : lm.lockTable key with
  | none => simp [release, owner, hentry]
  | some entry =>
    have howner : lm.owner key = entry.owner := by simp [owner, hentry]
    simp only [release, hentry, howner]
    by_cases h : entry.owner = some txId
    · simp only [h, ne_eq, not_true_eq_false, if_false, if_true, keysToRelease_untrack]
      rfl
    · simp [h]

theorem heldLocks_release_of_ne (lm : LockManager) (key : KeyType) (h : t ≠ txId) :
    (lm.release key txId).heldLocks t = lm.heldLocks t := by
  unfold release untrack
  split
  · rfl
  · split
    · rfl
    · split
      · rfl
      · simp [h]

/-- A set that is not there stays away. -/
theorem heldLocks_release_of_none (lm : LockManager) (key : KeyType)
    (h : lm.heldLocks txId = none) : (lm.release key txId).heldLocks txId = none := by
  unfold release untrack
  split
  · exact h
  · split
    · exact h
    · simp [h]

/-- `release` is the affair of its own transaction. -/
theorem sameFor_release (lm : LockManager) (key : KeyType) (h : t ≠ txId) :
    SameFor lm (lm.release key txId) t where
  heldLocks := heldLocks_release_of_ne lm key h
  owner _ := ⟨owner_of_release, fun hk => owner_release_of_ne hk fun e => h e.2⟩

theorem Recorded.release {keys : List KeyType} (h : lm.Recorded txId (key :: keys)) :
    (lm.release key txId).Recorded txId keys := by
  intro k hk
  have hne : k ≠ key := by
    rintro rfl
    exact owner_release_self lm k txId hk
  rw [keysToRelease_release]
  rcases h k (owner_of_release hk) with hheld | hmem
  · refine .inl ?_
    split
    · exact Finset.mem_erase.mpr ⟨hne, hheld⟩
    · exact hheld
  · exact .inr (List.mem_of_ne_of_mem hne hmem)

end LockManager

section Record

open LockManager

variable {lm lm' : LockManager} {key : KeyType} {txId t : TransactionId} {st : AcquireStage}
  {r : AcquireStage ⊕ AcquireResult} {stage : ReleaseAllStage} {stage' : Option ReleaseAllStage}

/-- So is `acquire`. -/
theorem AcquireStep.sameFor (h : AcquireStep lm key txId st lm' r) (hne : t ≠ txId) :
    SameFor lm lm' t where
  heldLocks := by
    cases h with
    | emplace => rw [heldLocks_tryEmplace]
    | track => simp [LockManager.track, hne]
    | take _ _ => rfl
    | _ => rfl
  owner _ := by
    refine ⟨fun hk => ?_, h.owner_of_some⟩
    rcases h.owner_cases hk with hold | ⟨-, ht⟩
    · exact hold
    · exact absurd ht hne

/-- ... and so is `release_all`. -/
theorem ReleaseAllStep.sameFor (h : ReleaseAllStep lm txId stage lm' stage') (hne : t ≠ txId) :
    SameFor lm lm' t := by
  cases h with
  | take _ => exact ⟨by simp [takeHeld, hne], fun _ => Iff.rfl⟩
  | release => exact sameFor_release lm _ hne
  | done => exact .refl lm t

/-- It gives no key to anybody. -/
theorem ReleaseAllStep.owner_of (h : ReleaseAllStep lm txId stage lm' stage') {k : KeyType}
    (hk : lm'.owner k = some t) : lm.owner k = some t := by
  cases h with
  | take _ => exact hk
  | release => exact owner_of_release hk
  | done => exact hk

/-- A section of `acquire` takes nothing out of the set of its transaction. -/
theorem AcquireStep.mem_keysToRelease (h : AcquireStep lm key txId st lm' r) {k : KeyType}
    (hk : k ∈ lm.keysToRelease txId) : k ∈ lm'.keysToRelease txId := by
  cases h with
  | emplace => rwa [keysToRelease, heldLocks_tryEmplace]
  | track => rw [keysToRelease_track]; exact Finset.mem_insert_of_mem hk
  | _ => exact hk

/-- ... and puts nothing in but its own key, before it polls. -/
theorem AcquireStep.keysToRelease_cases (h : AcquireStep lm key txId st lm' r) {k : KeyType}
    (hk : k ∈ lm'.keysToRelease txId) :
    k ∈ lm.keysToRelease txId ∨ (k = key ∧ r = .inl (.spin 0)) := by
  cases h with
  | emplace =>
    rw [keysToRelease, heldLocks_tryEmplace] at hk
    exact .inl hk
  | track =>
    rw [keysToRelease_track, Finset.mem_insert] at hk
    exact hk.symm.imp_right fun e => ⟨e, rfl⟩
  | _ => exact .inl hk

/-- A call that polls goes on polling. -/
theorem AcquireStep.polls_of_polls {st' : AcquireStage}
    (h : AcquireStep lm key txId st lm' (.inl st')) (hpolls : st.polls = true) :
    st'.polls = true := by
  cases h with
  | emplace => exact absurd hpolls (by simp [AcquireStage.polls])
  | track => rfl
  | spun _ _ => split <;> rfl
  | slept _ _ => rfl

/-- **A call of `acquire` that polls has recorded its key.** -/
theorem AcquireStep.recorded (h : AcquireStep lm key txId st lm' r) {keys : List KeyType}
    (hrec : lm.Recorded txId keys) (hkey : st.polls = true → key ∈ lm.keysToRelease txId) :
    lm'.Recorded txId keys := by
  intro k hk
  rcases h.owner_eq k with hsame | ⟨rfl, hnone, -, -⟩
  · exact (hrec k (hsame ▸ hk)).imp h.mem_keysToRelease id
  · -- the section gave `k` its owner, so it is a poll
    refine .inl (h.mem_keysToRelease (hkey ?_))
    cases h with
    | take hpolls _ => exact hpolls
    | emplace => simp [hnone] at hk
    | track => simp [hnone] at hk
    | _ => simp_all

/-- ... and it polls only after that. -/
theorem AcquireStep.polls_recorded (h : AcquireStep lm key txId st lm' (.inl st'))
    (hkey : st.polls = true → key ∈ lm.keysToRelease txId) (hpolls : st'.polls = true) :
    key ∈ lm'.keysToRelease txId := by
  cases h with
  | emplace => exact absurd hpolls (by simp [AcquireStage.polls])
  | track => simp
  | spun _ _ => exact hkey rfl
  | slept _ _ => exact hkey rfl

/-- A call that sleeps has seen somebody else own its key; and while that call is the only one of
its transaction, the key does not become its own. -/
theorem AcquireStep.sleep_owner {n : Nat} (h : AcquireStep lm key txId st lm' (.inl (.sleep n)))
    (hsleep : ∀ m, st = .sleep m → lm.owner key ≠ some txId) : lm'.owner key ≠ some txId := by
  generalize hst : AcquireStage.sleep n = st' at h
  cases h with
  | emplace => exact absurd hst (by simp)
  | track => exact absurd hst (by simp)
  | spun ho hne => rw [ho]; simpa using hne
  | slept _ _ => exact hsleep _ rfl

/-- What a `release_all` of `t` will release from here on covers what `t` owns. -/
def ReleaseAllStage.Covers (lm : LockManager) (t : TransactionId) : ReleaseAllStage → Prop
  | .take => lm.Recorded t []
  | .releasing keys => lm.Recorded t keys ∧ lm.heldLocks t = none

theorem ReleaseAllStage.Covers.of_sameFor (h : stage.Covers lm t) (hsame : SameFor lm lm' t) :
    stage.Covers lm' t := by
  cases stage with
  | take => exact hsame.recorded h
  | releasing keys => exact ⟨hsame.recorded h.1, hsame.heldLocks.trans h.2⟩

theorem ReleaseAllStep.covers {st' : ReleaseAllStage}
    (h : ReleaseAllStep lm txId stage lm' (some st')) (hst : stage.Covers lm txId) :
    st'.Covers lm' txId := by
  cases h with
  | take henum =>
    refine ⟨fun k hk => .inr ((henum.mem_iff k).mpr ?_), by simp [takeHeld]⟩
    exact (hst k hk).resolve_right (by simp)
  | release => exact ⟨hst.1.release, heldLocks_release_of_none lm _ hst.2⟩

/-- **When `release_all` returns, nothing is left.** -/
theorem ReleaseAllStep.done_covers (h : ReleaseAllStep lm txId stage lm' none)
    (hst : stage.Covers lm txId) :
    (∀ k, lm'.owner k ≠ some txId) ∧ lm'.heldLocks txId = none := by
  cases h with
  | done =>
    refine ⟨fun k hk => ?_, hst.2⟩
    -- nothing is left to release, and nothing is recorded
    rcases hst.1 k hk with hheld | hmem
    · rw [keysToRelease, hst.2] at hheld
      exact absurd hheld (by simp)
    · exact absurd hmem (by simp)

end Record

end TwoPL
