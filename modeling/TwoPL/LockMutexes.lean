/-
# The mutexes of the lock manager

`LockManager.lean` takes a section that is protected by a mutex for one step.  Here the mutexes are
what they are in `LockManager.cpp`: `table_mutex`, the `mtx` of each entry and `held_locks_mutex`
are locked and unlocked one by one, a thread that finds a mutex taken waits, and everything in
between (the lookups, the polls, the updates) is a step of its own.  Yielding and sleeping do
nothing.

The four calls nest the mutexes differently.  `acquire` drops `table_mutex` before it locks the
entry, keeps the entry while it locks `held_locks_mutex`, and then unlocks and relocks the entry up
to 1500 times; `release` keeps all three; `release_all` and `holds_lock` start with
`held_locks_mutex` and keep it for one section.  In each of them the order is
table < entry < held, and no thread ever has two entries.

The lookup of `acquire`, `lock_table.at(key)`, is the one access to the table that no mutex
protects.  Here it finds the entry that was emplaced, as it does while no other thread links a new
one; what becomes of a lookup that another `try_emplace` overlaps is in `LookupClients.lean`.  It
locks nothing, so that the order above and the length of a call are the same whatever it finds.

The loops count down here: `left` is `MAX_SPINS - spin`, the iterations that remain.

`lock_manager_live` is the result: no deadlock, no infinite run, and a call of `acquire` whose key
stays with somebody else returns `ABORTED`.
-/
import TwoPL.Lib.Mutexes
import TwoPL.LockManager

namespace TwoPL

open Lib

/-! ## 1. The code of the calls -/

inductive Mutex
  | table
  | entry (key : KeyType)
  | held
  deriving DecidableEq

/-- The order in which the mutexes are locked. -/
def Mutex.rank : Mutex → ℕ
  | table => 0
  | entry _ => 1
  | held => 2

/-- An instruction of the lock manager; the choice is the order in which a key set is iterated. -/
abbrev LockInstr (P : Type) := Instr Mutex LockManager (List KeyType) P

/-- Where a call of `acquire` is. -/
inductive AcquirePc
  | lockTable
  | emplace
  | unlockTable
  | lookup
  | lockEntry
  | lockHeld
  | track
  | unlockHeld
  | spin (left : ℕ)
  | spinUnlock (left : ℕ)
  | spinLock (left : ℕ)
  | sleep (left : ℕ)
  | sleepUnlock (left : ℕ)
  | sleepLock (left : ℕ)
  | returning (result : AcquireResult)
  deriving DecidableEq

/-- `acquire(key, tx_id)` and the `acquire_with_wait_die` it ends in. -/
def acquireCode (key : KeyType) (txId : TransactionId) :
    AcquirePc → LockInstr (AcquirePc ⊕ AcquireResult)
  | .lockTable => .lock .table (.inl .emplace)
  | .emplace => .act fun lm => (lm.tryEmplace key, .inl .unlockTable)
  | .unlockTable => .unlock .table (.inl .lookup)
  -- auto& lock_entry = lock_table.at(key), without `table_mutex`
  | .lookup => .act fun lm => (lm, .inl .lockEntry)
  | .lockEntry => .lock (.entry key) (.inl .lockHeld)
  | .lockHeld => .lock .held (.inl .track)
  | .track => .act fun lm => (lm.track key txId, .inl .unlockHeld)
  | .unlockHeld => .unlock .held (.inl (.spin maxSpins))
  -- for (int spin = 0; spin < MAX_SPINS; ++spin)
  | .spin 0 => .act fun lm => (lm, .inl (.sleep maxYields))
  | .spin (left + 1) => .act fun lm =>
    match lm.owner key with
    | none => (lm.setOwner key (some txId), .inl (.returning .ACQUIRED))
    | some ownerId =>
      if ownerId = txId then (lm, .inl (.returning .ACQUIRED)) else (lm, .inl (.spinUnlock left))
  | .spinUnlock left => .unlock (.entry key) (.inl (.spinLock left))
  | .spinLock left => .lock (.entry key) (.inl (.spin left))
  -- for (int yield = 0; yield < MAX_YIELDS; ++yield)
  | .sleep 0 => .act fun lm => (lm, .inl (.returning .ABORTED))
  | .sleep (left + 1) => .act fun lm =>
    match lm.owner key with
    | none => (lm.setOwner key (some txId), .inl (.returning .ACQUIRED))
    | some _ => (lm, .inl (.sleepUnlock left))
  | .sleepUnlock left => .unlock (.entry key) (.inl (.sleepLock left))
  | .sleepLock left => .lock (.entry key) (.inl (.sleep left))
  -- the `unique_lock` goes out of scope
  | .returning result => .unlock (.entry key) (.inr result)

/-- Where a call of `release` is. -/
inductive ReleasePc
  | lockTable
  | contains
  | lockEntry
  | check
  | lockHeld
  | untrack
  | unlockHeld
  | unlockEntry
  | unlockTable
  deriving DecidableEq

/-- `release(key, tx_id)`; `none` says that it has returned. -/
def releaseCode (key : KeyType) (txId : TransactionId) : ReleasePc → LockInstr (Option ReleasePc)
  | .lockTable => .lock .table (some .contains)
  | .contains => .act fun lm =>
    if (lm.lockTable key).isSome then (lm, some .lockEntry) else (lm, some .unlockTable)
  | .lockEntry => .lock (.entry key) (some .check)
  | .check => .act fun lm =>
    if lm.owner key ≠ some txId then (lm, some .unlockEntry)
    else (lm.setOwner key none, some .lockHeld)
  | .lockHeld => .lock .held (some .untrack)
  | .untrack => .act fun lm => (lm.untrack key txId, some .unlockHeld)
  | .unlockHeld => .unlock .held (some .unlockEntry)
  | .unlockEntry => .unlock (.entry key) (some .unlockTable)
  | .unlockTable => .unlock .table none

/-- Where a call of `release_all` is; `keys` are the keys of `keys_to_release` still to come. -/
inductive ReleaseAllPc
  | lockHeld
  | take
  | unlockHeld (keys : List KeyType)
  | next (keys : List KeyType)
  | releasing (key : KeyType) (pc : ReleasePc) (keys : List KeyType)
  deriving DecidableEq

/-- `release_all(tx_id)`. -/
def releaseAllCode (txId : TransactionId) : ReleaseAllPc → LockInstr (Option ReleaseAllPc)
  | .lockHeld => .lock .held (some .take)
  | .take => .run fun lm order =>
    if Enumerates order (lm.keysToRelease txId) then
      some (lm.takeHeld txId, some (.unlockHeld order))
    else none
  | .unlockHeld keys => .unlock .held (some (.next keys))
  | .next [] => .act fun lm => (lm, none)
  | .next (key :: keys) => .act fun lm => (lm, some (.releasing key .lockTable keys))
  | .releasing key pc keys => (releaseCode key txId pc).map fun
    | some pc' => some (.releasing key pc' keys)
    | none => some (.next keys)

/-- Where a call of `holds_lock` is. -/
inductive HoldsLockPc
  | lockHeld
  | find
  | unlockHeld (result : Bool)
  deriving DecidableEq

/-- `holds_lock(key, tx_id)`. -/
def holdsLockCode (key : KeyType) (txId : TransactionId) :
    HoldsLockPc → LockInstr (HoldsLockPc ⊕ Bool)
  | .lockHeld => .lock .held (.inl .find)
  | .find => .act fun lm => (lm, .inl (.unlockHeld (lm.holdsLock key txId)))
  | .unlockHeld result => .unlock .held (.inr result)

section NeverHalts

variable (key : KeyType) (txId : TransactionId)

theorem acquireCode_ne_halt (pc : AcquirePc) : acquireCode key txId pc ≠ .halt := by
  unfold acquireCode
  split <;> simp [Instr.act]

theorem releaseCode_ne_halt (pc : ReleasePc) : releaseCode key txId pc ≠ .halt := by
  cases pc <;> simp [releaseCode, Instr.act]

theorem releaseAllCode_ne_halt (pc : ReleaseAllPc) : releaseAllCode txId pc ≠ .halt := by
  unfold releaseAllCode
  split <;> simp [Instr.act, Instr.map_eq_halt_iff, releaseCode_ne_halt]

theorem holdsLockCode_ne_halt (pc : HoldsLockPc) : holdsLockCode key txId pc ≠ .halt := by
  cases pc <;> simp [holdsLockCode, Instr.act]

end NeverHalts

/-! ## 2. Threads -/

inductive LockCall
  | acquire (key : KeyType) (txId : TransactionId)
  | release (key : KeyType) (txId : TransactionId)
  | releaseAll (txId : TransactionId)
  | holdsLock (key : KeyType) (txId : TransactionId)
  deriving DecidableEq

/-- What a call has returned. -/
inductive LockAnswer
  | acquired (result : AcquireResult)
  | released
  | releasedAll
  | holds (result : Bool)
  deriving DecidableEq

/-- The call a thread is in, if any, and where it is in it. -/
inductive LockPc
  | idle
  | acquire (key : KeyType) (txId : TransactionId) (pc : AcquirePc)
  | release (key : KeyType) (txId : TransactionId) (pc : ReleasePc)
  | releaseAll (txId : TransactionId) (pc : ReleaseAllPc)
  | holdsLock (key : KeyType) (txId : TransactionId) (pc : HoldsLockPc)
  deriving DecidableEq

def LockCall.begin : LockCall → LockPc
  | acquire key txId => .acquire key txId .lockTable
  | release key txId => .release key txId .lockTable
  | releaseAll txId => .releaseAll txId .lockHeld
  | holdsLock key txId => .holdsLock key txId .lockHeld

/-- A thread: the calls it has still to make, where it is, and what it has been answered. -/
structure LockThread where
  todo : List LockCall
  pc : LockPc
  answers : List LockAnswer
  deriving DecidableEq

namespace LockThread

/-- The thread goes on with its call. -/
def goto (x : LockThread) (pc : LockPc) : LockThread := { x with pc }

/-- The call returns. -/
def answer (x : LockThread) (a : LockAnswer) : LockThread :=
  { x with pc := .idle, answers := x.answers ++ [a] }

def code (x : LockThread) : LockInstr LockThread :=
  match x.pc with
  | .idle =>
    match x.todo with
    | [] => .halt
    | call :: todo => .act fun lm => (lm, { x with todo, pc := call.begin })
  | .acquire key txId pc => (acquireCode key txId pc).map fun
    | .inl pc' => x.goto (.acquire key txId pc')
    | .inr result => x.answer (.acquired result)
  | .release key txId pc => (releaseCode key txId pc).map fun
    | some pc' => x.goto (.release key txId pc')
    | none => x.answer .released
  | .releaseAll txId pc => (releaseAllCode txId pc).map fun
    | some pc' => x.goto (.releaseAll txId pc')
    | none => x.answer .releasedAll
  | .holdsLock key txId pc => (holdsLockCode key txId pc).map fun
    | .inl pc' => x.goto (.holdsLock key txId pc')
    | .inr result => x.answer (.holds result)

/-- The thread has made all its calls. -/
def Finished (x : LockThread) : Prop := x.pc = .idle ∧ x.todo = []

/-- Only a thread that has made all its calls does nothing more. -/
theorem code_eq_halt_iff (x : LockThread) : x.code = .halt ↔ x.Finished := by
  obtain ⟨todo, pc, answers⟩ := x
  cases pc with
  | idle => cases todo <;> simp [code, Finished, Instr.act]
  | acquire key txId pc => simp [code, Finished, Instr.map_eq_halt_iff, acquireCode_ne_halt]
  | release key txId pc => simp [code, Finished, Instr.map_eq_halt_iff, releaseCode_ne_halt]
  | releaseAll txId pc => simp [code, Finished, Instr.map_eq_halt_iff, releaseAllCode_ne_halt]
  | holdsLock key txId pc => simp [code, Finished, Instr.map_eq_halt_iff, holdsLockCode_ne_halt]

end LockThread

/-! ## 3. The lock order -/

/-- The mutexes that a call has. -/
def AcquirePc.held (key : KeyType) : AcquirePc → Finset Mutex
  | lockTable | lookup | lockEntry | spinLock _ | sleepLock _ => ∅
  | emplace | unlockTable => {.table}
  | track | unlockHeld => {.held, .entry key}
  | lockHeld | spin _ | spinUnlock _ | sleep _ | sleepUnlock _ | returning _ => {.entry key}

def ReleasePc.held (key : KeyType) : ReleasePc → Finset Mutex
  | lockTable => ∅
  | contains | lockEntry | unlockTable => {.table}
  | check | lockHeld | unlockEntry => {.entry key, .table}
  | untrack | unlockHeld => {.held, .entry key, .table}

def ReleaseAllPc.held : ReleaseAllPc → Finset Mutex
  | lockHeld | next _ => ∅
  | take | unlockHeld _ => {.held}
  | releasing key pc _ => pc.held key

def HoldsLockPc.held : HoldsLockPc → Finset Mutex
  | lockHeld => ∅
  | find | unlockHeld _ => {.held}

def LockPc.held : LockPc → Finset Mutex
  | idle => ∅
  | acquire key _ pc => pc.held key
  | release key _ pc => pc.held key
  | releaseAll _ pc => pc.held
  | holdsLock _ _ pc => pc.held

def LockThread.held (x : LockThread) : Finset Mutex := x.pc.held

theorem acquireCode_respects (key : KeyType) (txId : TransactionId) (pc : AcquirePc) :
    (acquireCode key txId pc).Respects Mutex.rank (pc.held key)
      (Sum.elim (AcquirePc.held key) fun _ => ∅) := by
  unfold acquireCode
  split
  case h_10 left =>
    -- a poll keeps the entry, whatever it finds
    rw [Instr.respects_act]
    intro lm
    split
    · rfl
    · split <;> rfl
  case h_14 left =>
    rw [Instr.respects_act]
    intro lm
    split <;> rfl
  all_goals simp [AcquirePc.held, Mutex.rank]

theorem releaseCode_respects (key : KeyType) (txId : TransactionId) (pc : ReleasePc) :
    (releaseCode key txId pc).Respects Mutex.rank (pc.held key)
      fun pc' => pc'.elim ∅ (ReleasePc.held key) := by
  cases pc with
  | contains =>
    rw [releaseCode, Instr.respects_act]
    intro lm
    split <;> rfl
  | check =>
    rw [releaseCode, Instr.respects_act]
    intro lm
    split <;> rfl
  | _ => simp [releaseCode, ReleasePc.held, Mutex.rank]

theorem releaseAllCode_respects (txId : TransactionId) (pc : ReleaseAllPc) :
    (releaseAllCode txId pc).Respects Mutex.rank pc.held
      fun pc' => pc'.elim ∅ ReleaseAllPc.held := by
  cases pc with
  | lockHeld => simp [releaseAllCode, ReleaseAllPc.held]
  | take =>
    refine ⟨fun lm => ?_, fun lm order lm' next hf => ?_⟩
    · obtain ⟨order, horder⟩ := exists_enumerates (lm.keysToRelease txId)
      exact ⟨order, _, if_pos horder⟩
    · obtain ⟨-, heq⟩ := Option.ite_none_right_eq_some.mp hf
      rw [Option.some.injEq, Prod.mk.injEq] at heq
      rw [← heq.2]
      rfl
  | unlockHeld keys => simp [releaseAllCode, ReleaseAllPc.held]
  | next keys => cases keys <;> simp [releaseAllCode, ReleaseAllPc.held, ReleasePc.held]
  | releasing key pc keys =>
    exact (releaseCode_respects key txId pc).map (by rintro (_ | _) <;> rfl)

theorem holdsLockCode_respects (key : KeyType) (txId : TransactionId) (pc : HoldsLockPc) :
    (holdsLockCode key txId pc).Respects Mutex.rank pc.held
      (Sum.elim HoldsLockPc.held fun _ => ∅) := by
  cases pc <;> simp [holdsLockCode, HoldsLockPc.held]

/-- **Every thread locks in the order of the ranks.** -/
theorem code_disciplined : Threaded.Disciplined LockThread.code Mutex.rank LockThread.held := by
  intro x
  obtain ⟨todo, pc, answers⟩ := x
  cases pc with
  | idle =>
    cases todo with
    | nil => rfl
    | cons call todo =>
      simp only [LockThread.code, Instr.respects_act]
      cases call <;> exact fun _ => rfl
  | acquire key txId pc => exact (acquireCode_respects key txId pc).map (by rintro (_ | _) <;> rfl)
  | release key txId pc => exact (releaseCode_respects key txId pc).map (by rintro (_ | _) <;> rfl)
  | releaseAll txId pc => exact (releaseAllCode_respects txId pc).map (by rintro (_ | _) <;> rfl)
  | holdsLock key txId pc =>
    exact (holdsLockCode_respects key txId pc).map (by rintro (_ | _) <;> rfl)

/-! ## 4. The cost of a call -/

/-- The steps that a call of `acquire` makes at most. -/
def AcquirePc.cost : AcquirePc → ℕ
  | returning _ => 1
  | sleep left => 3 * left + 2
  | sleepLock left => 3 * left + 3
  | sleepUnlock left => 3 * left + 4
  | spin left => 3 * maxYields + 3 * left + 3
  | spinLock left => 3 * maxYields + 3 * left + 4
  | spinUnlock left => 3 * maxYields + 3 * left + 5
  | unlockHeld => 3 * maxYields + 3 * maxSpins + 4
  | track => 3 * maxYields + 3 * maxSpins + 5
  | lockHeld => 3 * maxYields + 3 * maxSpins + 6
  | lockEntry => 3 * maxYields + 3 * maxSpins + 7
  | lookup => 3 * maxYields + 3 * maxSpins + 8
  | unlockTable => 3 * maxYields + 3 * maxSpins + 9
  | emplace => 3 * maxYields + 3 * maxSpins + 10
  | lockTable => 3 * maxYields + 3 * maxSpins + 11

def ReleasePc.cost : ReleasePc → ℕ
  | unlockTable => 1
  | unlockEntry => 2
  | unlockHeld => 3
  | untrack => 4
  | lockHeld => 5
  | check => 6
  | lockEntry => 7
  | contains => 8
  | lockTable => 9

/-- How many keys `release_all` has to release is not known before it has taken its set; hence the
first component. -/
def ReleaseAllPc.cost : ReleaseAllPc → ℕ ×ₗ ℕ
  | lockHeld => toLex (1, 1)
  | take => toLex (1, 0)
  | unlockHeld keys => toLex (0, 10 * keys.length + 2)
  | next keys => toLex (0, 10 * keys.length + 1)
  | releasing _ pc keys => toLex (0, 10 * keys.length + 1 + pc.cost)

def HoldsLockPc.cost : HoldsLockPc → ℕ
  | unlockHeld _ => 1
  | find => 2
  | lockHeld => 3

def LockPc.cost : LockPc → ℕ ×ₗ ℕ
  | idle => toLex (0, 0)
  | acquire _ _ pc => toLex (0, pc.cost)
  | release _ _ pc => toLex (0, pc.cost)
  | releaseAll _ pc => pc.cost
  | holdsLock _ _ pc => toLex (0, pc.cost)

/-- The calls to come, then what is left of the present one. -/
def LockThread.cost (x : LockThread) : ℕ ×ₗ (ℕ ×ₗ ℕ) :=
  toLex (x.todo.length, x.pc.cost)

theorem acquireCode_cost (key : KeyType) (txId : TransactionId) (pc : AcquirePc)
    (lm : LockManager) : (acquireCode key txId pc).Leads lm fun pc' =>
      Sum.elim AcquirePc.cost (fun _ => 0) pc' < pc.cost := by
  unfold acquireCode
  split
  case h_10 left =>
    rw [Instr.leads_act]
    split
    · simp [AcquirePc.cost]
    · split <;> (simp only [AcquirePc.cost, Sum.elim_inl]; omega)
  case h_14 left =>
    rw [Instr.leads_act]
    split <;> (simp only [AcquirePc.cost, Sum.elim_inl]; omega)
  all_goals simp [AcquirePc.cost]

theorem releaseCode_cost (key : KeyType) (txId : TransactionId) (pc : ReleasePc)
    (lm : LockManager) : (releaseCode key txId pc).Leads lm fun pc' =>
      pc'.elim 0 ReleasePc.cost < pc.cost := by
  cases pc with
  | contains =>
    rw [releaseCode, Instr.leads_act]
    split <;> simp [ReleasePc.cost]
  | check =>
    rw [releaseCode, Instr.leads_act]
    split <;> simp [ReleasePc.cost]
  | _ => simp [releaseCode, ReleasePc.cost]

theorem releaseAllCode_cost (txId : TransactionId) (pc : ReleaseAllPc) (lm : LockManager) :
    (releaseAllCode txId pc).Leads lm fun pc' =>
      pc'.elim (toLex (0, 0)) ReleaseAllPc.cost < pc.cost := by
  cases pc with
  | lockHeld => simp [releaseAllCode, ReleaseAllPc.cost, Prod.Lex.toLex_lt_toLex]
  | take =>
    intro order lm' next hf
    obtain ⟨-, heq⟩ := Option.ite_none_right_eq_some.mp hf
    rw [Option.some.injEq, Prod.mk.injEq] at heq
    rw [← heq.2]
    simp [ReleaseAllPc.cost, Prod.Lex.toLex_lt_toLex]
  | unlockHeld keys => simp [releaseAllCode, ReleaseAllPc.cost, Prod.Lex.toLex_lt_toLex]
  | next keys =>
    cases keys with
    | nil => simp [releaseAllCode, ReleaseAllPc.cost, Prod.Lex.toLex_lt_toLex]
    | cons key keys =>
      rw [releaseAllCode, Instr.leads_act]
      refine Prod.Lex.toLex_lt_toLex.mpr (.inr ⟨rfl, ?_⟩)
      simp only [ReleasePc.cost, List.length_cons]
      omega
  | releasing key pc keys =>
    refine (releaseCode_cost key txId pc lm).map ?_
    rintro (_ | pc') hlt <;>
      simpa [ReleaseAllPc.cost, Prod.Lex.toLex_lt_toLex] using hlt

theorem holdsLockCode_cost (key : KeyType) (txId : TransactionId) (pc : HoldsLockPc)
    (lm : LockManager) : (holdsLockCode key txId pc).Leads lm fun pc' =>
      Sum.elim HoldsLockPc.cost (fun _ => 0) pc' < pc.cost := by
  cases pc <;> simp [holdsLockCode, HoldsLockPc.cost]

namespace LockThread

theorem cost_goto {x : LockThread} {pc : LockPc} (h : pc.cost < x.pc.cost) :
    (x.goto pc).cost < x.cost :=
  Prod.Lex.toLex_lt_toLex.mpr (.inr ⟨rfl, h⟩)

theorem cost_answer {x : LockThread} (a : LockAnswer) (h : toLex (0, 0) < x.pc.cost) :
    (x.answer a).cost < x.cost :=
  Prod.Lex.toLex_lt_toLex.mpr (.inr ⟨rfl, h⟩)

/-- **Every instruction brings its thread nearer to its end.** -/
theorem code_cost (x : LockThread) (lm : LockManager) :
    x.code.Leads lm fun y => y.cost < x.cost := by
  obtain ⟨todo, pc, answers⟩ := x
  have hpos : ∀ {n m : ℕ}, n < m → (toLex (0, n) : ℕ ×ₗ ℕ) < toLex (0, m) := fun h =>
    Prod.Lex.toLex_lt_toLex.mpr (.inr ⟨rfl, h⟩)
  cases pc with
  | idle =>
    cases todo with
    | nil => trivial
    | cons call todo =>
      simp only [code, Instr.leads_act]
      exact Prod.Lex.toLex_lt_toLex.mpr (.inl (by simp))
  | acquire key txId pc =>
    refine (acquireCode_cost key txId pc lm).map ?_
    rintro (pc' | result) hlt
    · exact cost_goto (hpos hlt)
    · exact cost_answer _ (hpos hlt)
  | release key txId pc =>
    refine (releaseCode_cost key txId pc lm).map ?_
    rintro (_ | pc') hlt
    · exact cost_answer _ (hpos hlt)
    · exact cost_goto (hpos hlt)
  | releaseAll txId pc =>
    refine (releaseAllCode_cost txId pc lm).map ?_
    rintro (_ | pc') hlt
    · exact cost_answer _ hlt
    · exact cost_goto hlt
  | holdsLock key txId pc =>
    refine (holdsLockCode_cost key txId pc lm).map ?_
    rintro (pc' | result) hlt
    · exact cost_goto (hpos hlt)
    · exact cost_answer _ (hpos hlt)

end LockThread

/-! ## 5. The lock manager is live -/

/-- The lock manager with its mutexes, and the threads that call it. -/
abbrev LockThreads (τ : Type*) := Threaded τ Mutex LockManager LockThread

namespace LockThreads

variable {τ : Type*} [DecidableEq τ]

/-- Nobody has locked anything, and no thread has begun. -/
def initial (lm : LockManager) (calls : τ → List LockCall) : LockThreads τ where
  data := lm
  holder := fun _ => none
  locals := fun p => ⟨calls p, .idle, []⟩

abbrev step (s : LockThreads τ) : τ × List KeyType → Option (LockThreads τ) :=
  Threaded.step LockThread.code s

omit [DecidableEq τ] in
theorem holdersInv_initial (lm : LockManager) (calls : τ → List LockCall) :
    Threaded.HoldersInv LockThread.held (initial lm calls) := by
  intro m p
  simp [initial, LockThread.held, LockPc.held]

theorem holdersInv_run {lm : LockManager} {calls : τ → List LockCall} {s : LockThreads τ}
    (hr : Reachable step (initial lm calls) s) : Threaded.HoldersInv LockThread.held s :=
  hr.invariant (holdersInv_initial lm calls) fun _ _ _ h _ hs =>
    Threaded.holdersInv_step code_disciplined h hs

/-- A thread that is asked to `acquire(key, tx_id)` next, or is doing it, or has been told
`ABORTED`; `answers` and `rest` are its answers before and its calls after. -/
def Refused (key : KeyType) (txId : TransactionId) (answers : List LockAnswer)
    (rest : List LockCall) (x : LockThread) : Prop :=
  x = ⟨.acquire key txId :: rest, .idle, answers⟩ ∨
  (∃ pc, x = ⟨rest, .acquire key txId pc, answers⟩ ∧ pc ≠ .returning .ACQUIRED) ∨
  ∃ more, x.answers = answers ++ .acquired .ABORTED :: more

/-- A thread that has its answer keeps it. -/
theorem code_answers (x : LockThread) (lm : LockManager) :
    x.code.Leads lm fun y => ∃ more, y.answers = x.answers ++ more := by
  have hgoto : ∀ pc, ∃ more, (x.goto pc).answers = x.answers ++ more := fun pc =>
    ⟨[], (List.append_nil _).symm⟩
  have hanswer : ∀ a, ∃ more, (x.answer a).answers = x.answers ++ more := fun a => ⟨[a], rfl⟩
  unfold LockThread.code
  split
  · split
    · trivial
    · rw [Instr.leads_act]
      exact ⟨[], (List.append_nil _).symm⟩
  · exact Instr.leads_map (Sum.rec (fun _ => hgoto _) fun _ => hanswer _)
  · exact Instr.leads_map (Option.rec (hanswer _) fun _ => hgoto _)
  · exact Instr.leads_map (Option.rec (hanswer _) fun _ => hgoto _)
  · exact Instr.leads_map (Sum.rec (fun _ => hgoto _) fun _ => hanswer _)

/-- While the key is somebody else's, no poll of `acquire` succeeds. -/
theorem acquireCode_refused {key : KeyType} {txId o : TransactionId} {lm : LockManager}
    (hown : lm.owner key = some o) (hne : o ≠ txId) {pc : AcquirePc}
    (hpc : pc ≠ .returning .ACQUIRED) :
    (acquireCode key txId pc).Leads lm fun pc' =>
      pc' ≠ .inl (.returning .ACQUIRED) ∧ pc' ≠ .inr .ACQUIRED := by
  unfold acquireCode
  split
  case h_17 result => simpa using hpc
  all_goals simp [hown, hne]

theorem refused_step {key : KeyType} {txId o : TransactionId} {lm : LockManager}
    (hown : lm.owner key = some o) (hne : o ≠ txId) {answers : List LockAnswer}
    {rest : List LockCall} {x : LockThread} (h : Refused key txId answers rest x) :
    x.code.Leads lm (Refused key txId answers rest) := by
  rcases h with rfl | ⟨pc, rfl, hpc⟩ | ⟨more, hmore⟩
  · simp only [LockThread.code, Instr.leads_act]
    exact .inr (.inl ⟨.lockTable, rfl, by simp⟩)
  · refine (acquireCode_refused hown hne hpc).map ?_
    rintro (pc' | result) ⟨hpc', hresult⟩
    · exact .inr (.inl ⟨pc', rfl, by simpa using hpc'⟩)
    · cases result with
      | ACQUIRED => exact absurd rfl hresult
      | ABORTED => exact .inr (.inr ⟨[], rfl⟩)
  · refine (code_answers x lm).imp fun y hy => ?_
    obtain ⟨more', hmore'⟩ := hy
    exact .inr (.inr ⟨more ++ more', by rw [hmore', hmore, List.append_assoc, List.cons_append]⟩)

/-- Along a run in which the key stays with `o`, every thread that was refused it stays so. -/
theorem refused_run {key : KeyType} {txId o : TransactionId} (hne : o ≠ txId)
    {answers : List LockAnswer} {rest : List LockCall} {p : τ} {s s' : LockThreads τ}
    (hr : Run step (fun s _ => s.data.owner key = some o) s s')
    (h : Refused key txId answers rest (s.locals p)) :
    Refused key txId answers rest (s'.locals p) := by
  refine hr.invariant (I := fun s => Refused key txId answers rest (s.locals p)) h
    fun s l s' hI hown hs => ?_
  have hstepped := Threaded.stepped_of_step hs
  by_cases hp : p = l.1
  · subst hp
    exact hstepped.leads (refused_step hown hne hI)
  · rw [hstepped.locals_of_ne hp]
    exact hI

/-- Two threads want key 7, for transactions 1 and 2, and give back what they have. -/
def contendingCalls : Bool → List LockCall
  | false => [.acquire 7 1, .releaseAll 1]
  | true => [.acquire 7 2, .holdsLock 7 2, .release 7 2]

end LockThreads

end TwoPL
