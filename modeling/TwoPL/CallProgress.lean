/-
# What is left of a call

Every step of a call of `execute_transaction` leaves less of it (`Pc.cost`), but for one kind: a
call that sleeps in a `wait_until` may wake up for nothing and go back to sleep, and then nothing
has changed at all (`TxnStepped.cost_lt`).

And a call that has not ended can make such a step (`exists_stepTxn_of_mutex`), unless it needs
`distributed_mutex` and somebody else holds it.  Who holds it is in one of the two loops of sends of
`acquire_remote_locks_with_retry` (`Pc.holdsMutex`), and those need nothing.  All other waiting is
bounded: `acquire` gives up after its polls, each `wait_until` has its deadline.
-/
import TwoPL.Executors

namespace TwoPL

open Lib LockManager

/-! ## 1. What is left of a call -/

/-- What is left of a call: the stage it is in, then how far it is in that stage. -/
def Pc.cost : Pc → ℕ ×ₗ (ℕ ×ₗ ℕ)
  | .idle => toLex (11, toLex (0, 0))
  | .locking todo stage => toLex (10, toLex (todo.length, stage.cost))
  | .requesting todo => toLex (9, toLex (todo.length, 0))
  | .waiting => toLex (8, toLex (0, 0))
  | .timingOut todo => toLex (7, toLex (todo.length, 0))
  | .executing rest _ => toLex (6, toLex (rest.length, 0))
  | .opSending _ rest _ => toLex (6, toLex (rest.length, 4))
  | .opChecking _ rest _ => toLex (6, toLex (rest.length, 3))
  | .opWaiting _ rest _ => toLex (6, toLex (rest.length, 2))
  | .opRetrieving _ rest _ => toLex (6, toLex (rest.length, 1))
  -- a release that throws is made once more, and not a third time
  | .releasing stage _ false => toLex (5, stage.cost)
  | .sendingReleases todo _ false => toLex (4, toLex (todo.length, 0))
  | .releasing stage _ true => toLex (3, stage.cost)
  | .sendingReleases todo _ true => toLex (2, toLex (todo.length, 0))
  | .aborting stage => toLex (1, stage.cost)
  | .returned _ | .threw => toLex (0, toLex (0, 0))

/-- The call is in one of the two `wait_until`. -/
def Pc.asleep : Pc → Bool
  | .waiting | .opWaiting _ _ _ => true
  | _ => false

section Call

variable {n : Node} {t : TxnThread} {c : Choice} {r : TxnStep}

/-- The next phase of a call. -/
theorem Pc.cost_phase {a b : ℕ} {x y : ℕ ×ₗ ℕ} (h : a < b) :
    (toLex (a, x) : ℕ ×ₗ (ℕ ×ₗ ℕ)) < toLex (b, y) :=
  Prod.Lex.toLex_lt_toLex.mpr (.inl h)

/-- The same phase, one step on. -/
theorem Pc.cost_within {a : ℕ} {x y : ℕ ×ₗ ℕ} (h : x < y) :
    (toLex (a, x) : ℕ ×ₗ (ℕ ×ₗ ℕ)) < toLex (a, y) :=
  Prod.Lex.toLex_lt_toLex.mpr (.inr ⟨rfl, h⟩)

/-- ... with one element less to go through. -/
theorem Pc.cost_shorter {a b b' x y : ℕ} (h : b < b') :
    (toLex (a, toLex (b, x)) : ℕ ×ₗ (ℕ ×ₗ ℕ)) < toLex (a, toLex (b', y)) :=
  Pc.cost_within (Prod.Lex.toLex_lt_toLex.mpr (.inl h))

/-- ... further on with the same element. -/
theorem Pc.cost_further {a b x y : ℕ} (h : x < y) :
    (toLex (a, toLex (b, x)) : ℕ ×ₗ (ℕ ×ₗ ℕ)) < toLex (a, toLex (b, y)) :=
  Pc.cost_within (Prod.Lex.toLex_lt_toLex.mpr (.inr ⟨rfl, h⟩))

/-- `operator[]` does nothing to an entry that is there. -/
theorem Node.touchPending_eq {txId : TransactionId} (h : n.pendingLocks txId ≠ ∅) :
    n.touchPending txId = n := by
  have hentry : some (n.pendingLocks txId) = n.pendingRemoteLocks txId := by
    unfold Node.pendingLocks at h ⊢
    cases hp : n.pendingRemoteLocks txId with
    | none => exact absurd (by simp [hp]) h
    | some m => rfl
  simp only [Node.touchPending, hentry, Function.update_eq_self]

/-- **A step of a call leaves less of it**, unless it wakes up for nothing. -/
theorem TxnStepped.cost_lt (h : TxnStepped n t c r) :
    r.thread.pc.cost < t.pc.cost ∨ (t.pc.asleep = true ∧ r = { node := n, thread := t }) := by
  cases h with
  | sleptOn hpc _ _ hpending =>
    rw [Node.touchPending_eq hpending]
    exact .inr ⟨by simp [hpc, Pc.asleep], rfl⟩
  | opSleptOn hpc => exact .inr ⟨by simp [hpc, Pc.asleep], rfl⟩
  | poll hpc hacq =>
    rw [hpc]
    exact .inl (Pc.cost_further hacq.cost_lt)
  | aborting hpc hrel =>
    rw [hpc]
    exact .inl (Pc.cost_within hrel.cost_lt)
  | @releasing _ _ _ _ rethrow hpc hrel =>
    rw [hpc]
    cases rethrow with
    | false => exact .inl (Pc.cost_within hrel.cost_lt)
    | true => exact .inl (Pc.cost_within hrel.cost_lt)
  | @releasedLocal _ _ _ _ rethrow hpc _ _ =>
    rw [hpc]
    cases rethrow with
    | false => exact .inl (Pc.cost_phase (by simp))
    | true => exact .inl (Pc.cost_phase (by simp))
  | @sendRelease _ _ _ rethrow hpc _ =>
    rw [hpc]
    cases rethrow with
    | false => exact .inl (Pc.cost_shorter (by simp))
    | true => exact .inl (Pc.cost_shorter (by simp))
  | acquired hpc _ | request hpc _ | timeoutRelease hpc _ | ranLocal hpc _ | opBegin hpc _ _ =>
    rw [hpc]
    exact .inl (Pc.cost_shorter (by simp))
  | opThrew hpc _ | opSent hpc _ | opChecked hpc | opTimedOut hpc | opRetrieved hpc =>
    rw [hpc]
    exact .inl (Pc.cost_further (by simp))
  | opAnswered hpc =>
    rcases hpc with hpc | hpc
    · rw [hpc]
      exact .inl (Pc.cost_further (by simp))
    · rw [hpc]
      exact .inl (Pc.cost_further (by simp))
  | call hpc _ | refused hpc _ | lockedLocal hpc _ | beginRemote hpc _ _ _ | aborted hpc _
  | requestThrew hpc _ | requestedNothing hpc _ | requested hpc _ | timedOut hpc _ _ _
  | woken hpc _ _ _ | timeoutThrew hpc _ | timeoutDone hpc | allRan hpc | sendThrew hpc _
  | rethrown hpc _ | returned hpc =>
    rw [hpc]
    exact .inl (Pc.cost_phase (by simp))

/-! ## 2. Who holds `distributed_mutex` -/

/-- The call is in a loop of sends that holds the mutex. -/
def Pc.holdsMutex : Pc → Bool
  | .requesting _ | .timingOut _ => true
  | _ => false

/-- A mutex that is held after a step of a call is held by that call or by somebody else before. -/
theorem TxnStepped.mutex_of (h : TxnStepped n t c r) (hheld : r.node.distributedMutex = true) :
    r.thread.pc.holdsMutex = true ∨ (n.distributedMutex = true ∧ t.pc.holdsMutex = false) := by
  cases h with
  | opAnswered hpc => rcases hpc with hpc | hpc <;> exact .inr ⟨hheld, by simp [hpc, Pc.holdsMutex]⟩
  | beginRemote _ _ _ _ | request _ _ | timedOut _ _ _ _ | timeoutRelease _ _ => exact .inl rfl
  | requestThrew _ _ | requestedNothing _ _ | requested _ _ | timeoutThrew _ _ | timeoutDone _ =>
    exact absurd hheld (by simp)
  | call hpc _ | poll hpc _ | acquired hpc _ | refused hpc _ | lockedLocal hpc _ | aborting hpc _
  | aborted hpc _ | woken hpc _ _ _ | sleptOn hpc _ _ _ | ranLocal hpc _ | opBegin hpc _ _
  | allRan hpc | opThrew hpc _ | opSent hpc _ | opChecked hpc | opTimedOut hpc | opSleptOn hpc
  | opRetrieved hpc | releasing hpc _ | releasedLocal hpc _ _ | sendRelease hpc _ | sendThrew hpc _
  | rethrown hpc _ | returned hpc =>
    exact .inr ⟨hheld, by simp [hpc, Pc.holdsMutex]⟩

/-! ## 3. A call that has not ended can go on -/

/-- The next section of `release_all`, with some order of its keys. -/
theorem exists_releaseAllStep (lm : LockManager) (txId : TransactionId) (stage : ReleaseAllStage) :
    ∃ keys x, releaseAllStep lm txId keys stage = some x := by
  obtain ⟨keys, hkeys⟩ := exists_enumerates (lm.keysToRelease txId)
  refine ⟨keys, ?_⟩
  cases stage with
  | take => exact ⟨_, if_pos hkeys⟩
  | releasing todo => cases todo <;> exact ⟨_, rfl⟩

/-- **A call has ended or can go on**, unless it waits for the mutex.  One that sleeps can wake up
by its deadline. -/
theorem exists_stepTxn_of_mutex (hmutex : n.distributedMutex = false ∨ t.pc.holdsMutex = true) :
    ((∃ results, t.pc = .returned results) ∨ t.pc = .threw) ∨
      ∃ c r, stepTxn n t c = some r ∧ r.thread.pc.cost < t.pc.cost := by
  suffices hgo : ((∃ results, t.pc = .returned results) ∨ t.pc = .threw) ∨
      ∃ c r, stepTxn n t c = some r ∧ (t.pc.asleep = true → r.thread ≠ t) by
    refine hgo.imp id ?_
    rintro ⟨c, r, hr, hawake⟩
    refine ⟨c, r, hr, (stepTxn_spec hr).cost_lt.resolve_right ?_⟩
    rintro ⟨hasleep, rfl⟩
    exact hawake hasleep rfl
  obtain ⟨pairs, hpairs⟩ := exists_enumerates (n.remotePairs t.tx)
  unfold stepTxn
  cases hp : t.pc with
  | idle =>
    obtain ⟨keys, hkeys⟩ := exists_enumerates (n.localKeys t.tx)
    exact .inr ⟨{ keys }, _, if_pos hkeys, by simp [Pc.asleep]⟩
  | locking todo stage =>
    refine .inr ⟨{ pairs }, ?_⟩
    cases todo with
    | nil =>
      have hfree : n.distributedMutex = false := hmutex.resolve_right (by simp [hp, Pc.holdsMutex])
      simp only [TxnThread.stepLocking]
      split
      · exact ⟨_, rfl, by simp [Pc.asleep]⟩
      · exact ⟨_, if_pos ⟨hfree, hpairs⟩, by simp [Pc.asleep]⟩
    | cons key todo =>
      simp only [TxnThread.stepLocking]
      split <;> exact ⟨_, rfl, by simp [Pc.asleep]⟩
  | aborting stage =>
    obtain ⟨keys, ⟨lm, stage'⟩, hx⟩ := exists_releaseAllStep n.lockManager t.txId stage
    refine .inr ⟨{ keys }, ?_⟩
    simp only [TxnThread.stepAborting, hx]
    cases stage' <;> exact ⟨_, rfl, by simp [Pc.asleep]⟩
  | requesting todo =>
    refine .inr ⟨{}, ?_⟩
    cases todo with
    | nil =>
      simp only [TxnThread.stepRequesting]
      split <;> exact ⟨_, rfl, by simp [Pc.asleep]⟩
    | cons p todo => exact ⟨_, rfl, by simp [Pc.asleep]⟩
  | waiting =>
    obtain ⟨todo, htodo⟩ := exists_enumerates (n.pendingLocks t.txId).pairs
    have hfree : n.distributedMutex = false := hmutex.resolve_right (by simp [hp, Pc.holdsMutex])
    refine .inr ⟨{ pairs := todo, timeout := true }, ?_⟩
    simp only [TxnThread.stepWaiting, hfree, Bool.false_eq_true, if_false, if_true, if_pos htodo]
    exact ⟨_, rfl, fun _ heq => absurd (congrArg TxnThread.pc heq) (by simp [TxnThread.goto, hp])⟩
  | timingOut todo => cases todo <;> exact .inr ⟨{}, _, rfl, by simp [Pc.asleep]⟩
  | executing rest results =>
    refine .inr ⟨{}, ?_⟩
    cases rest with
    | nil => exact ⟨_, rfl, by simp [Pc.asleep]⟩
    | cons op rest =>
      have hfree : n.distributedMutex = false := hmutex.resolve_right (by simp [hp, Pc.holdsMutex])
      simp only [TxnThread.stepExecuting, hfree, Bool.false_eq_true, if_false]
      split <;> exact ⟨_, rfl, by simp [Pc.asleep]⟩
  | opSending op rest results => exact .inr ⟨{}, _, rfl, by simp [Pc.asleep]⟩
  | opChecking op rest results =>
    have hfree : n.distributedMutex = false := hmutex.resolve_right (by simp [hp, Pc.holdsMutex])
    refine .inr ⟨{}, ?_⟩
    simp only [TxnThread.stepOpChecking, hfree, Bool.false_eq_true, if_false]
    split <;> exact ⟨_, rfl, by simp [Pc.asleep]⟩
  | opWaiting op rest results =>
    have hfree : n.distributedMutex = false := hmutex.resolve_right (by simp [hp, Pc.holdsMutex])
    refine .inr ⟨{ timeout := true }, ?_⟩
    simp only [TxnThread.stepOpWaiting, hfree, Bool.false_eq_true, if_false, if_true]
    exact ⟨_, rfl, fun _ heq => absurd (congrArg TxnThread.pc heq) (by simp [TxnThread.goto, hp])⟩
  | opRetrieving op rest results =>
    have hfree : n.distributedMutex = false := hmutex.resolve_right (by simp [hp, Pc.holdsMutex])
    refine .inr ⟨{}, ?_⟩
    simp only [TxnThread.stepOpRetrieving, hfree, Bool.false_eq_true, if_false]
    exact ⟨_, rfl, by simp [Pc.asleep]⟩
  | releasing stage results rethrow =>
    obtain ⟨keys, ⟨lm, stage'⟩, hx⟩ := exists_releaseAllStep n.lockManager t.txId stage
    refine .inr ⟨{ keys, pairs }, ?_⟩
    simp only [TxnThread.stepReleasing, hx]
    cases stage' with
    | none => exact ⟨_, if_pos hpairs, by simp [Pc.asleep]⟩
    | some stage' => exact ⟨_, rfl, by simp [Pc.asleep]⟩
  | sendingReleases todo results rethrow =>
    refine .inr ⟨{}, ?_⟩
    cases todo with
    | nil => cases rethrow <;> exact ⟨_, rfl, by simp [Pc.asleep]⟩
    | cons p todo => exact ⟨_, rfl, by simp [Pc.asleep]⟩
  | returned results => exact .inl (.inl ⟨_, rfl⟩)
  | threw => exact .inl (.inr rfl)

end Call

/-- A message is handled when nobody holds the mutex. -/
theorem exists_handlePeerMessage {n : Node} (hmutex : n.distributedMutex = false) (peer : NodeID)
    (m : Message) : ∃ x, handlePeerMessage n peer m.toJson = some x := by
  unfold handlePeerMessage
  rw [dispatch_toJson]
  cases m <;> simp [Message.dispatched, hmutex]

end TwoPL
