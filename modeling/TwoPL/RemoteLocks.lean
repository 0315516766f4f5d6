/-
# Are the remote locks held when acquiring them succeeds?

`acquire_remote_locks_with_retry` sends a request for every remote key and sleeps until its
pending entry is empty.  `handle_lock_response` is meant to take one pair out for a grant and the
whole entry for a denial.  It does the second for BOTH: it tells them apart by comparing a
`const char*` into the message with `MessageType::LOCK_GRANTED`, two addresses that are never
equal.  And an entry that a denial has removed reads as an empty one, which is success.

So the first response of any kind ends the waiting, with `true`, at the next time the call is
woken.  `remote_locks_granted_iff` says exactly in which orders of responses, wake-ups and
timeouts this does no harm, for every map of remote nodes to keys: those in which the call is not
woken between the first response and the last, and no response is a denial.
-/
import TwoPL.Cluster

namespace TwoPL

open Lib

/-! ## 1. A call that waits for its remote locks, and what reaches it -/

/-- What happens to the call: a message was processed by its node, `wait_until` returned without or
with a timeout, `acquire_remote_locks_with_retry` returned true, an operation was run. -/
inductive WaitEvent
  | processed (peer : NodeID) (msg : Message)
  | woke
  | timedOut
  | locked
  | ran (op : Operation)
  deriving DecidableEq

structure Waiter where
  node : Node
  thread : TxnThread
  log : List WaitEvent

inductive WaitLabel
  | txn (c : Choice)
  | message (peer : NodeID) (msg : Message)

/-- How `wait_until` returns. -/
def TxnThread.wakeEvent (t : TxnThread) (c : Choice) : Option WaitEvent :=
  match t.pc with
  | .waiting => some (if c.timeout then .timedOut else .woke)
  | _ => none

def TxnEvent.waitEvent : TxnEvent → Option WaitEvent
  | .locked => some .locked
  | .ran op _ => some (.ran op)
  | _ => none

namespace Waiter

/-- The waiter after a step of the call. -/
def afterTxn (s : Waiter) (c : Choice) (r : TxnStep) : Waiter where
  node := r.node
  thread := r.thread
  log := s.log ++ (s.thread.wakeEvent c).toList ++ (r.event.bind TxnEvent.waitEvent).toList

/-- The waiter after a message. -/
def afterMessage (s : Waiter) (peer : NodeID) (msg : Message) (n : Node) : Waiter where
  node := n
  thread := s.thread
  log := s.log ++ [.processed peer msg]

/-- A step of the call, or a message of a peer that is handled in one section: a response or a
release. -/
def step (s : Waiter) : WaitLabel → Option Waiter
  | .txn c => (stepTxn s.node s.thread c).map (s.afterTxn c)
  | .message peer msg =>
    match handlePeerMessage s.node peer msg.toJson with
    | some (n, none) => some (s.afterMessage peer msg n)
    | _ => none

/-- `acquire_remote_locks_with_retry` is called for these pairs: they are in the pending map, and
the mutex is held until the requests are sent. -/
def initial (n : Node) (tx : Transaction) (txId : TransactionId)
    (pairs : List (NodeID × KeyType)) : Waiter where
  node := { n.initPending txId pairs with distributedMutex := true }
  thread := { tx, txId, pc := .requesting pairs }
  log := []

end Waiter

/-! ## 2. What success is to mean -/

/-- A response to a request of the transaction. -/
def WaitEvent.Answers (txId : TransactionId) : WaitEvent → Prop
  | .processed _ (.lockGranted t _) => t = txId
  | .processed _ (.lockDenied t _) => t = txId
  | _ => False

/-- Every pair was granted, and nothing was denied. -/
def AllGranted (txId : TransactionId) (pairs : List (NodeID × KeyType)) (log : List WaitEvent) :
    Prop :=
  (∀ q ∈ pairs, .processed q.1 (.lockGranted txId q.2) ∈ log) ∧
    ∀ peer key, .processed peer (.lockDenied txId key) ∉ log

/-- `acquire_remote_locks_with_retry` has returned true only after every pair was granted and
nothing denied, and operations were run only after that. -/
def OnlyWhenGranted (txId : TransactionId) (pairs : List (NodeID × KeyType))
    (log : List WaitEvent) : Prop :=
  (∀ h₁ h₂, log = h₁ ++ .locked :: h₂ → AllGranted txId pairs h₁) ∧
    ∀ h₁ op h₂, log = h₁ ++ .ran op :: h₂ →
      ∃ g₁ g₂, h₁ = g₁ ++ .locked :: g₂ ∧ AllGranted txId pairs g₁

/-- **The orders that do no harm**: the call is woken before the first response, or when it has
all grants and no denial.  A timeout does no harm at any time. -/
def WokenInTime (txId : TransactionId) (pairs : List (NodeID × KeyType))
    (log : List WaitEvent) : Prop :=
  ∀ h₁ h₂, log = h₁ ++ .woke :: h₂ →
    (∀ e ∈ h₁, ¬ e.Answers txId) ∨ AllGranted txId pairs h₁

/-! ## 3. How the log grows -/

/-- The call has not succeeded, and has not been woken since the first response. -/
structure Undecided (txId : TransactionId) (log : List WaitEvent) : Prop where
  notLocked : .locked ∉ log
  notRan : ∀ op, .ran op ∉ log
  unanswered : ∀ h₁ h₂, log = h₁ ++ .woke :: h₂ → ∀ e ∈ h₁, ¬ e.Answers txId

/-- The call has succeeded: at once if nothing was pending, else at the first wake-up after a
response. -/
inductive Succeeded (txId : TransactionId) (pending : NodeKeys) : List WaitEvent → Prop
  | atOnce {h h₂} : pending = ∅ → Undecided txId h → (∀ e ∈ h, ¬ e.Answers txId) →
      .locked ∉ h₂ → .woke ∉ h₂ → Succeeded txId pending (h ++ .locked :: h₂)
  | woken {h h₂} : pending ≠ ∅ → Undecided txId h → (∃ e ∈ h, e.Answers txId) →
      .locked ∉ h₂ → .woke ∉ h₂ → Succeeded txId pending (h ++ .woke :: .locked :: h₂)

section Log

variable {txId : TransactionId} {pairs : List (NodeID × KeyType)} {pending : NodeKeys}
  {log : List WaitEvent} {e : WaitEvent}

theorem Undecided.nil : Undecided txId [] := by
  constructor
  · simp
  · simp
  · intro h₁ h₂ heq
    exact absurd heq (by simp)

theorem Undecided.append (h : Undecided txId log) (hl : e ≠ .locked) (hr : ∀ op, e ≠ .ran op)
    (hw : e = .woke → ∀ e' ∈ log, ¬ e'.Answers txId) : Undecided txId (log ++ [e]) := by
  constructor
  · simp [h.notLocked, hl.symm]
  · intro op
    simp [h.notRan op, (hr op).symm]
  · intro h₁ h₂ heq
    rcases List.eq_nil_or_concat h₂ with rfl | ⟨h₂, z, rfl⟩
    · obtain ⟨rfl, hlast⟩ := List.append_inj' heq rfl
      exact hw (List.singleton_inj.mp hlast)
    · have heq' : log ++ [e] = (h₁ ++ .woke :: h₂) ++ [z] := by simpa using heq
      exact h.unanswered h₁ h₂ (List.append_inj' heq' rfl).1

theorem Succeeded.append (h : Succeeded txId pending log) (hl : e ≠ .locked) (hw : e ≠ .woke) :
    Succeeded txId pending (log ++ [e]) := by
  cases h with
  | @atOnce h h₂ hp hu hno hl₂ hw₂ =>
    rw [List.append_assoc, List.cons_append]
    exact .atOnce hp hu hno (by simp [hl₂, hl.symm]) (by simp [hw₂, hw.symm])
  | @woken h h₂ hp hu hans hl₂ hw₂ =>
    rw [List.append_assoc, List.cons_append, List.cons_append]
    exact .woken hp hu hans (by simp [hl₂, hl.symm]) (by simp [hw₂, hw.symm])

/-- A call that has not succeeded does nothing wrong. -/
theorem Undecided.onlyWhenGranted (h : Undecided txId log) : OnlyWhenGranted txId pairs log := by
  constructor
  · rintro h₁ h₂ rfl
    exact absurd h.notLocked (by simp)
  · rintro h₁ op h₂ rfl
    exact absurd (h.notRan op) (by simp)

/-- A call that has succeeded did so once, and has run operations only afterwards: all depends on
what was granted by then. -/
theorem onlyWhenGranted_locked {h₁ h₂ : List WaitEvent} (hl₁ : .locked ∉ h₁)
    (hr₁ : ∀ op, .ran op ∉ h₁) (hl₂ : .locked ∉ h₂) :
    OnlyWhenGranted txId pairs (h₁ ++ .locked :: h₂) ↔ AllGranted txId pairs h₁ := by
  constructor
  · intro h
    exact h.1 h₁ h₂ rfl
  · intro hall
    constructor
    · intro g₁ g₂ heq
      obtain ⟨rfl, -⟩ := (List.append_cons_inj_of_notMem hl₁ hl₂).mp heq
      exact hall
    · intro g₁ op g₂ heq
      rcases List.append_eq_append_iff.mp heq with ⟨c, rfl, hc⟩ | ⟨c, rfl, hc⟩
      · cases c with
        | nil => exact absurd hc (by simp)
        | cons x c =>
          obtain ⟨rfl, -⟩ := List.cons.inj hc
          exact ⟨h₁, c, rfl, hall⟩
      · cases c with
        | nil => exact absurd hc (by simp)
        | cons x c =>
          obtain ⟨rfl, -⟩ := List.cons.inj hc
          exact absurd (hr₁ op) (by simp)

theorem allGranted_woke : AllGranted txId pairs (log ++ [.woke]) ↔ AllGranted txId pairs log := by
  simp [AllGranted]

/-- What the log of a successful call is worth. -/
theorem Succeeded.onlyWhenGranted_iff (h : Succeeded txId pending log)
    (hpairs : pending = ∅ → pairs = []) :
    OnlyWhenGranted txId pairs log ↔ pending = ∅ ∨ WokenInTime txId pairs log := by
  cases h with
  | @atOnce h h₂ hp hu hno hl₂ hw₂ =>
    rw [onlyWhenGranted_locked hu.notLocked hu.notRan hl₂]
    constructor
    · intro _
      exact .inl hp
    · intro _
      refine ⟨by simp [hpairs hp], ?_⟩
      intro peer key hden
      exact hno _ hden rfl
  | @woken h h₂ hp hu hans hl₂ hw₂ =>
    have hsplit : h ++ .woke :: .locked :: h₂ = (h ++ [.woke]) ++ .locked :: h₂ := by simp
    rw [hsplit, onlyWhenGranted_locked (by simp [hu.notLocked]) (by simp [hu.notRan]) hl₂,
      allGranted_woke, ← hsplit]
    constructor
    · intro hall
      refine .inr ?_
      intro g₁ g₂ heq
      -- this is the last wake-up, or an earlier one, before the first response
      rcases List.append_eq_append_iff.mp heq with ⟨c, rfl, hc⟩ | ⟨c, rfl, hc⟩
      · cases c with
        | nil => exact .inr (by simpa using hall)
        | cons x c =>
          have htail : .locked :: h₂ = c ++ .woke :: g₂ := (List.cons.inj hc).2
          have hmem : WaitEvent.woke ∈ .locked :: h₂ := by simp [htail]
          exact absurd hmem (by simp [hw₂])
      · cases c with
        | nil => exact .inr (by simpa using hall)
        | cons x c =>
          obtain ⟨rfl, -⟩ := List.cons.inj hc
          exact .inl (hu.unanswered g₁ c rfl)
    · rintro (hp' | hin)
      · exact absurd hp' hp
      · rcases hin h _ rfl with hno | hall
        · obtain ⟨e, he, hea⟩ := hans
          exact absurd hea (hno e he)
        · exact hall

end Log

/-! ## 4. What holds of the waiting call in every state -/

/-- A call that has its locks keeps running until it ends, and acquires no more. -/
theorem TxnStepped.of_running {n : Node} {t : TxnThread} {c : Choice} {r : TxnStep}
    (h : TxnStepped n t c r) (hpc : t.pc.running = true) :
    r.event ≠ some .locked ∧ (r.thread.pc.running = true ∨
      (∃ results, r.thread.pc = .returned results) ∨ r.thread.pc = .threw) := by
  cases h with
  | releasing hrel hstep => cases hstep <;> simp [Pc.running, TxnThread.goto, ReleaseAllStage.event]
  | _ => simp_all [Pc.running, TxnThread.goto]

namespace Waiter

/-- Where the call is, and what its log looks like there.  `pending` is what was pending when the
waiting began. -/
inductive Phase (txId : TransactionId) (pending : NodeKeys) (s : Waiter) : Prop
  | requesting {todo} : s.thread.pc = .requesting todo → Undecided txId s.log →
      (∀ e ∈ s.log, ¬ e.Answers txId) → s.node.pendingLocks txId = pending →
      s.node.distributedMutex = true → Phase txId pending s
  | waiting : s.thread.pc = .waiting → Undecided txId s.log → pending ≠ ∅ →
      (s.node.pendingLocks txId = ∅ ↔ ∃ e ∈ s.log, e.Answers txId) → Phase txId pending s
  | failing : ((∃ todo, s.thread.pc = .timingOut todo) ∨ ∃ stage, s.thread.pc = .aborting stage) →
      Undecided txId s.log → Phase txId pending s
  | running : s.thread.pc.running = true → Succeeded txId pending s.log → Phase txId pending s
  | ended : ((∃ results, s.thread.pc = .returned results) ∨ s.thread.pc = .threw) →
      (Undecided txId s.log ∨ Succeeded txId pending s.log) → Phase txId pending s

section Preservation

variable {txId : TransactionId} {pending : NodeKeys} {s : Waiter} {c : Choice} {r : TxnStep}

theorem afterTxn_log_of_ne (hpc : s.thread.pc ≠ .waiting) :
    (s.afterTxn c r).log = s.log ++ (r.event.bind TxnEvent.waitEvent).toList := by
  have hwake : s.thread.wakeEvent c = none := by
    unfold TxnThread.wakeEvent
    split
    · rename_i hw
      exact absurd hw hpc
    · rfl
  simp [afterTxn, hwake]

theorem phase_requesting {todo : List (NodeID × KeyType)} (hid : s.thread.txId = txId)
    (hpc : s.thread.pc = .requesting todo) (hu : Undecided txId s.log)
    (hno : ∀ e ∈ s.log, ¬ e.Answers txId) (hpend : s.node.pendingLocks txId = pending)
    (hmutex : s.node.distributedMutex = true) (hs : TxnStepped s.node s.thread c r) :
    Phase txId pending (s.afterTxn c r) := by
  have hlog := afterTxn_log_of_ne (s := s) (c := c) (r := r) (by simp [hpc])
  subst hid
  cases hs with
  | request hreq hth =>
    simp only [Option.bind_none, Option.toList_none, List.append_nil] at hlog
    exact .requesting rfl (hlog ▸ hu) (hlog ▸ hno) hpend hmutex
  | requestThrew hreq hth =>
    simp only [Option.bind_some, TxnEvent.waitEvent, Option.toList_none, List.append_nil] at hlog
    exact .ended (.inr rfl) (.inl (hlog ▸ hu))
  | requestedNothing hreq hempty =>
    refine .running rfl ?_
    rw [hlog]
    exact .atOnce (hpend ▸ hempty) hu hno (by simp) (by simp)
  | requested hreq hne =>
    simp only [Option.bind_none, Option.toList_none, List.append_nil] at hlog
    refine .waiting rfl (hlog ▸ hu) (hpend ▸ hne) ?_
    constructor
    · intro hempty
      exact absurd ((Node.pendingLocks_touchPending _ _ _).symm.trans hempty) hne
    · rintro ⟨e, he, hea⟩
      exact absurd hea (hno e (hlog ▸ he))
  | _ => simp_all

theorem phase_waiting (hid : s.thread.txId = txId) (hpc : s.thread.pc = .waiting)
    (hu : Undecided txId s.log) (hne : pending ≠ ∅)
    (hans : s.node.pendingLocks txId = ∅ ↔ ∃ e ∈ s.log, e.Answers txId)
    (hs : TxnStepped s.node s.thread c r) : Phase txId pending (s.afterTxn c r) := by
  have htimed : c.timeout = true → r.event = none →
      (s.afterTxn c r).log = s.log ++ [.timedOut] := by
    intro htime hev
    simp [afterTxn, TxnThread.wakeEvent, hpc, htime, hev]
  have hwoke : c.timeout = false → (s.afterTxn c r).log
      = s.log ++ .woke :: (r.event.bind TxnEvent.waitEvent).toList := by
    intro htime
    simp [afterTxn, TxnThread.wakeEvent, hpc, htime]
  subst hid
  cases hs with
  | timedOut hwait hmutex htime henum =>
    refine .failing (.inl ⟨_, rfl⟩) ?_
    rw [htimed htime rfl]
    exact hu.append (by simp) (by simp) (by simp)
  | woken hwait hmutex htime hempty =>
    refine .running rfl ?_
    rw [hwoke htime]
    exact .woken hne hu (hans.mp hempty) (by simp) (by simp)
  | sleptOn hwait hmutex htime hpend =>
    replace hwoke := hwoke htime
    have hquiet : ∀ e ∈ s.log, ¬ e.Answers s.thread.txId := by
      intro e he hea
      exact hpend (hans.mpr ⟨e, he, hea⟩)
    refine .waiting hpc ?_ hne ?_
    · rw [hwoke]
      exact hu.append (by simp) (by simp) fun _ => hquiet
    · constructor
      · intro hempty
        exact absurd ((Node.pendingLocks_touchPending _ _ _).symm.trans hempty) hpend
      · rintro ⟨e, he, hea⟩
        rw [hwoke, List.mem_append, Option.bind_none, Option.toList_none, List.mem_singleton] at he
        rcases he with he | rfl
        · exact absurd hea (hquiet e he)
        · exact hea.elim
  | _ => simp_all

theorem phase_failing
    (hpc : (∃ todo, s.thread.pc = .timingOut todo) ∨ ∃ stage, s.thread.pc = .aborting stage)
    (hu : Undecided txId s.log) (hs : TxnStepped s.node s.thread c r) :
    Phase txId pending (s.afterTxn c r) := by
  have hlog := afterTxn_log_of_ne (s := s) (c := c) (r := r) (by
    rcases hpc with ⟨_, h⟩ | ⟨_, h⟩ <;> simp [h])
  -- nothing that a failing call does is logged
  have hkeep : r.event.bind TxnEvent.waitEvent = none → Undecided txId (s.afterTxn c r).log := by
    intro hnone
    rw [hlog, hnone]
    simpa using hu
  cases hs with
  | timeoutRelease => exact .failing (.inl ⟨_, rfl⟩) (hkeep rfl)
  | timeoutThrew => exact .ended (.inr rfl) (.inl (hkeep rfl))
  | timeoutDone => exact .failing (.inr ⟨_, rfl⟩) (hkeep rfl)
  | aborting _ hrel =>
    refine .failing (.inr ⟨_, rfl⟩) (hkeep ?_)
    cases hrel <;> rfl
  | aborted => exact .ended (.inl ⟨_, rfl⟩) (.inl (hkeep rfl))
  | opAnswered hop => rcases hop with hop | hop <;> simp_all
  | _ => simp_all

theorem phase_running (hpc : s.thread.pc.running = true) (hsucc : Succeeded txId pending s.log)
    (hs : TxnStepped s.node s.thread c r) : Phase txId pending (s.afterTxn c r) := by
  obtain ⟨hev, hnext⟩ := hs.of_running hpc
  have hlog := afterTxn_log_of_ne (s := s) (c := c) (r := r) (by
    intro hw
    simp [hw, Pc.running] at hpc)
  have hsucc' : Succeeded txId pending (s.afterTxn c r).log := by
    rw [hlog]
    cases he : r.event with
    | none => simpa using hsucc
    | some e =>
      cases e with
      | locked => exact absurd he hev
      | ran op outcome => exact hsucc.append (by simp) (by simp)
      | _ => simpa [TxnEvent.waitEvent] using hsucc
  rcases hnext with hrun | hend
  · exact .running hrun hsucc'
  · exact .ended hend (.inr hsucc')

/-- **A response of either kind empties the entry of its transaction**, and nothing else that a
peer sends touches it. -/
theorem pendingLocks_handled (txId : TransactionId) {n n' : Node} {peer : NodeID}
    {msg : Message} {h : Option Handler} (hh : Cluster.Handled n peer msg n' h) :
    ((WaitEvent.processed peer msg).Answers txId ∧ n'.pendingLocks txId = ∅) ∨
      (¬ (WaitEvent.processed peer msg).Answers txId ∧
        n'.pendingLocks txId = n.pendingLocks txId) := by
  have herase : ∀ t, t = txId ∧ (n.erasePending t).pendingLocks txId = ∅ ∨
      ¬ t = txId ∧ (n.erasePending t).pendingLocks txId = n.pendingLocks txId := by
    intro t
    rw [Node.pendingLocks_erasePending]
    rcases eq_or_ne t txId with rfl | hne
    · exact .inl ⟨rfl, if_pos rfl⟩
    · exact .inr ⟨hne, if_neg hne.symm⟩
  cases hh with
  | lockGranted => exact herase _
  | lockDenied => exact herase _
  | _ => exact .inr ⟨id, rfl⟩

theorem phase_message {n : Node} {peer : NodeID} {msg : Message} (h : Phase txId pending s)
    (hh : Cluster.Handled s.node peer msg n none) :
    Phase txId pending (s.afterMessage peer msg n) := by
  have hundecided : Undecided txId s.log → Undecided txId (s.afterMessage peer msg n).log := by
    intro hu
    exact hu.append (by simp) (by simp) (by simp)
  have hsucceeded : Succeeded txId pending s.log →
      Succeeded txId pending (s.afterMessage peer msg n).log := by
    intro hs
    exact hs.append (by simp) (by simp)
  cases h with
  | requesting hpc hu hno hpend hmutex =>
    -- the mutex keeps responses out
    cases hh with
    | lockRel =>
      refine .requesting hpc (hundecided hu) ?_ hpend hmutex
      intro e he
      rw [afterMessage, List.mem_append, List.mem_singleton] at he
      rcases he with he | rfl
      · exact hno e he
      · exact id
    | lockGranted hfree => exact absurd (hmutex.symm.trans hfree) (by simp)
    | lockDenied hfree => exact absurd (hmutex.symm.trans hfree) (by simp)
    | opResp hfree => exact absurd (hmutex.symm.trans hfree) (by simp)
  | waiting hpc hu hne hans =>
    refine .waiting hpc (hundecided hu) hne ?_
    simp only [afterMessage, List.mem_append, List.mem_singleton, or_and_right, exists_or,
      exists_eq_left]
    rcases pendingLocks_handled txId hh with ⟨ha, hempty⟩ | ⟨ha, hsame⟩
    · simp [ha, hempty]
    · simp [ha, hsame, hans]
  | failing hpc hu => exact .failing hpc (hundecided hu)
  | running hpc hsucc => exact .running hpc (hsucceeded hsucc)
  | ended hpc hor => exact .ended hpc (hor.imp hundecided hsucceeded)

theorem Phase.decided (h : Phase txId pending s) :
    Undecided txId s.log ∨ Succeeded txId pending s.log := by
  cases h with
  | requesting _ hu _ _ _ => exact .inl hu
  | waiting _ hu _ _ => exact .inl hu
  | failing _ hu => exact .inl hu
  | running _ hsucc => exact .inr hsucc
  | ended _ hor => exact hor

end Preservation

/-- The id, and the phase. -/
structure Inv (txId : TransactionId) (pending : NodeKeys) (s : Waiter) : Prop where
  txId_eq : s.thread.txId = txId
  phase : Phase txId pending s

theorem inv_step {txId : TransactionId} {pending : NodeKeys} {s s' : Waiter} {l : WaitLabel}
    (h : Inv txId pending s) (hs : s.step l = some s') : Inv txId pending s' := by
  cases l with
  | txn c =>
    obtain ⟨r, hr, rfl⟩ := Option.map_eq_some_iff.mp hs
    have hstep := stepTxn_spec hr
    have hcalled : s.thread.pc ≠ .idle := by
      intro hidle
      cases h.phase <;> simp_all [Pc.running]
    refine ⟨(hstep.id_of_called hcalled).1.trans h.txId_eq, ?_⟩
    cases h.phase with
    | requesting hpc hu hno hpend hmutex =>
      exact phase_requesting h.txId_eq hpc hu hno hpend hmutex hstep
    | waiting hpc hu hne hans => exact phase_waiting h.txId_eq hpc hu hne hans hstep
    | failing hpc hu => exact phase_failing hpc hu hstep
    | running hpc hsucc => exact phase_running hpc hsucc hstep
    | ended hpc _ =>
      rcases hpc with ⟨results, hpc⟩ | hpc
      · exact absurd hpc (hstep.ne_returned results)
      · exact absurd hr (by simp [stepTxn, hpc])
  | message peer msg =>
    simp only [step] at hs
    split at hs
    · rename_i n hn
      rw [Option.some.injEq] at hs
      exact hs ▸ ⟨h.txId_eq, phase_message h.phase (Cluster.handlePeerMessage_spec hn)⟩
    · exact absurd hs (by simp)

theorem inv_run {n : Node} {tx : Transaction} {txId : TransactionId}
    {pairs : List (NodeID × KeyType)} {s : Waiter}
    (hr : Reachable step (initial n tx txId pairs) s) :
    Inv txId ((initial n tx txId pairs).node.pendingLocks txId) s := by
  refine hr.invariant ⟨rfl, .requesting rfl .nil (by simp [initial]) rfl rfl⟩ ?_
  intro s l s' h _ hs
  exact inv_step h hs

/-- Nothing is pending at the start only if nothing was requested. -/
theorem pairs_eq_nil {n : Node} {tx : Transaction} {txId : TransactionId}
    {pairs : List (NodeID × KeyType)}
    (h : (initial n tx txId pairs).node.pendingLocks txId = ∅) : pairs = [] := by
  have hpairs : ((n.initPending txId pairs).pendingLocks txId).pairs = ∅ := by
    rw [show (n.initPending txId pairs).pendingLocks txId = ∅ from h, NodeKeys.pairs_empty]
  rw [Node.pendingLocks_initPending, NodeKeys.pairs_foldl_add] at hpairs
  simpa using (Finset.union_eq_empty.mp hpairs).2

/-! ## 5. When acquiring the remote locks is sound -/

/-- **In which orders success means that everything was granted.**  For every node, transaction, id
and set of remote pairs, and every order of responses, wake-ups and timeouts: the call succeeds,
and goes on to its operations, only with every pair granted and nothing denied, IF AND ONLY IF
nothing was requested, or the call is never woken after a response of its own without having all
grants and no denial. -/
theorem remote_locks_granted_iff (n : Node) (tx : Transaction) (txId : TransactionId)
    (pairs : List (NodeID × KeyType)) {s : Waiter}
    (hr : Reachable step (initial n tx txId pairs) s) :
    OnlyWhenGranted txId pairs s.log ↔
      (initial n tx txId pairs).node.pendingLocks txId = ∅ ∨ WokenInTime txId pairs s.log := by
  rcases (inv_run hr).phase.decided with hu | hsucc
  · constructor
    · intro _
      refine .inr ?_
      intro h₁ h₂ heq
      exact .inl (hu.unanswered h₁ h₂ heq)
    · intro _
      exact hu.onlyWhenGranted
  · exact hsucc.onlyWhenGranted_iff pairs_eq_nil

/-- Node 0 of three, with an empty store. -/
def node0 : Node := .fresh (Cluster.threeNodes.routing 0) (Cluster.emptyStores 0)

/-- Keys 1 and 2 are on nodes 1 and 2; both are granted before the call is woken. -/
def grantedRun : List WaitLabel :=
  [.txn {}, .txn {}, .txn {}, .message 2 (.lockGranted 1 2), .message 1 (.lockGranted 1 1),
    .txn {}]

theorem remote_locks_granted_both :
    ∃ s, Reachable step (initial node0 [.append 1 7, .append 2 8] 1 [(1, 1), (2, 2)]) s ∧
      s.log = [.processed 2 (.lockGranted 1 2), .processed 1 (.lockGranted 1 1), .woke, .locked] ∧
      OnlyWhenGranted 1 [(1, 1), (2, 2)] s.log := by
  have hrun : ((runLabels step
      (initial node0 [.append 1 7, .append 2 8] 1 [(1, 1), (2, 2)]) grantedRun).map fun s =>
        decide (s.log = [.processed 2 (.lockGranted 1 2), .processed 1 (.lockGranted 1 1), .woke,
          .locked])) = some true := by
    decide +kernel
  obtain ⟨s, hs, hlog⟩ := Option.map_eq_some_iff.mp hrun
  have hr := reachable_of_runLabels _ hs
  have hlog := of_decide_eq_true hlog
  refine ⟨s, hr, hlog, (remote_locks_granted_iff _ _ _ _ hr).mpr (.inr ?_)⟩
  intro h₁ h₂ heq
  have hsplit : [.processed 2 (.lockGranted 1 2), .processed 1 (.lockGranted 1 1)] ++
      WaitEvent.woke :: [.locked] = h₁ ++ .woke :: h₂ := hlog.symm.trans heq
  obtain ⟨rfl, -⟩ := (List.append_cons_inj_of_notMem (by simp) (by simp)).mp hsplit
  exact .inr ⟨by simp, by simp⟩

/-- The one remote lock is denied. -/
def deniedRun : List WaitLabel :=
  [.txn {}, .txn {}, .message 2 (.lockDenied 1 2), .txn {}, .txn {}]

/-- **A denied transaction runs.**  Node 0 asks node 2 for key 2 and is denied; the call succeeds
all the same, and applies its append to key 0. -/
theorem denied_and_ran :
    node0.remotePairs [.append 0 5, .append 2 7] = {(2, 2)} ∧
    ∃ s, Reachable step (initial node0 [.append 0 5, .append 2 7] 1 [(2, 2)]) s ∧
      s.log = [.processed 2 (.lockDenied 1 2), .woke, .locked, .ran (.append 0 5)] ∧
      ¬ OnlyWhenGranted 1 [(2, 2)] s.log := by
  refine ⟨by decide +kernel, ?_⟩
  have hrun : ((runLabels step
      (initial node0 [.append 0 5, .append 2 7] 1 [(2, 2)]) deniedRun).map fun s =>
        decide (s.log = [.processed 2 (.lockDenied 1 2), .woke, .locked, .ran (.append 0 5)]))
      = some true := by
    decide +kernel
  obtain ⟨s, hs, hlog⟩ := Option.map_eq_some_iff.mp hrun
  have hlog := of_decide_eq_true hlog
  refine ⟨s, reachable_of_runLabels _ hs, hlog, ?_⟩
  intro honly
  have hall := honly.1 [.processed 2 (.lockDenied 1 2), .woke] [.ran (.append 0 5)] hlog
  exact hall.2 2 2 (by simp)

end Waiter

end TwoPL
