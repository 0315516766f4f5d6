/-
# The lookup of `acquire`, among calls and handlers

On a node with peers the lock table is used by the calls of the node and by the handlers of lock
requests, and each of them looks its entry up without the mutex of the table.  A handler is known by
its place in the list of those under way, which changes when one in front of it ends.

The local locks of a call (`LocalLocks.lean`) are then freed when the call ends, unless it ends by a
send in `acquire_remote_locks_with_retry`, provided that no lookup is raced
(`local_locks_freed_unless_raced_iff`).
-/
import TwoPL.LocalLocks
import TwoPL.LookupNode

namespace TwoPL

open Lib

/-! ## 1. A handler and its lookup -/

/-- The key that the handler of a lock request looks up. -/
def Handler.wants : Handler → Option KeyType
  | .acquiring _ key stage => stage.wants key
  | .responding _ => none

/-- The key whose entry its next section links. -/
def Handler.links (lm : LockManager) : Handler → Option KeyType
  | .acquiring _ key stage => stage.links lm key
  | .responding _ => none

/-- The next section of a handler that has found the entry of `entry`. -/
def stepHandlerOn (entry : KeyType) (n : Node) (throws : Bool) :
    Handler → Node × Option Handler × Option Message
  | .acquiring txId key stage =>
    match acquireOn n.lockManager entry key txId stage with
    | (lm, .inl stage') => ({ n with lockManager := lm }, some (.acquiring txId key stage'), none)
    | (lm, .inr .ACQUIRED) =>
      ({ n with lockManager := lm }, some (.responding (.lockGranted txId key)), none)
    | (lm, .inr .ABORTED) =>
      ({ n with lockManager := lm }, some (.responding (.lockDenied txId key)), none)
  | .responding msg => stepHandler n throws (.responding msg)

section Handlers

variable {n : Node} {throws : Bool} {h : Handler} {k k' : KeyType}

theorem Handler.wants_cases (hk : h.wants = some k) :
    ∃ txId stage, h = .acquiring txId k stage := by
  cases h with
  | acquiring txId key stage => exact ⟨txId, stage, by rw [AcquireStage.wants_eq hk]⟩
  | responding msg => exact absurd hk (by simp [wants])

theorem stepHandlerOn_self (hk : h.wants = some k) :
    stepHandlerOn k n throws h = stepHandler n throws h := by
  obtain ⟨txId, stage, rfl⟩ := Handler.wants_cases hk
  rcases hres : acquireStep n.lockManager k txId stage with ⟨lm, stage' | _ | _⟩ <;>
    simp only [stepHandlerOn, stepHandler, acquireOn_self, hres]

/-- A handler wants the entry of its own key as long as it wants one. -/
theorem Cluster.HandlerStepped.wants_eq {r : Node × Option Handler × Option Message}
    (hs : Cluster.HandlerStepped n throws h r) (hk : h.wants = some k)
    (hk' : r.2.1.bind Handler.wants = some k') : k' = k := by
  cases hs with
  | poll _ => rw [AcquireStage.wants_eq hk, AcquireStage.wants_eq hk']
  | decided _ | responded _ | responseThrew _ => simp [Handler.wants] at hk'

/-- It is over when it has sent its response, and not before. -/
theorem Cluster.HandlerStepped.over_iff {r : Node × Option Handler × Option Message}
    (hs : Cluster.HandlerStepped n throws h r) :
    r.2.1 = none ↔ ∃ msg, h = .responding msg := by
  cases hs <;> simp

end Handlers

namespace OpenNode

variable {ι : Type*} [DecidableEq ι]

/-! ## 2. A node with calls and handlers -/

/-- The key that a call, or the handler at a place in the list, looks up. -/
def wants (w : OpenNode ι) : ι ⊕ ℕ → Option KeyType
  | .inl i => (w.txns i).pc.wants
  | .inr pos => w.handlers[pos]?.bind Handler.wants

/-- The key whose entry a step links. -/
def links (w : OpenNode ι) : OpenLabel ι → Option KeyType
  | .txn i _ => (w.txns i).pc.links w.node.lockManager
  | .receive _ _ => none
  | .handle pos _ => w.handlers[pos]?.bind (Handler.links w.node.lockManager)

/-- Who takes a step; handing over a message is nobody's. -/
def mover : OpenLabel ι → Option (ι ⊕ ℕ)
  | .txn i _ => some (.inl i)
  | .receive _ _ => none
  | .handle pos _ => some (.inr pos)

/-- The place that a handler had before the one at `pos` moved: one more, if that one has ended in
front of it. -/
def handlerBefore (w : OpenNode ι) (pos q : ℕ) : ℕ :=
  match w.handlers[pos]? with
  | some (.responding _) => if q < pos then q else q + 1
  | _ => q

/-- Who it was, before a step. -/
def placeBefore (w : OpenNode ι) : OpenLabel ι → ι ⊕ ℕ → ι ⊕ ℕ
  | .handle pos _, .inr q => .inr (w.handlerBefore pos q)
  | _, p => p

/-- A step on the given entry. -/
def stepOn (entry : KeyType) (w : OpenNode ι) : OpenLabel ι → Option (OpenNode ι)
  | .txn i c =>
    (stepTxnOn entry w.node (w.txns i) c).map fun r =>
      { w with node := r.node, txns := Function.update w.txns i r.thread }
  | .receive peer msg => w.step (.receive peer msg)
  | .handle pos throws =>
    w.handlers[pos]?.map fun h =>
      let x := stepHandlerOn entry w.node throws h
      { w with node := x.1, handlers := w.setHandler pos x.2.1 }

theorem stepOn_self {w : OpenNode ι} {l : OpenLabel ι} {p : ι ⊕ ℕ} {k : KeyType}
    (hp : mover l = some p) (hk : w.wants p = some k) : stepOn k w l = w.step l := by
  cases l with
  | txn i c =>
    obtain rfl := Option.some.inj hp
    have hk : (w.txns i).pc.wants = some k := hk
    simp only [stepOn, step, stepTxnOn_self hk]
  | receive peer msg => rfl
  | handle pos throws =>
    obtain rfl := Option.some.inj hp
    obtain ⟨h, hh, hk⟩ := Option.bind_eq_some_iff.mp hk
    simp only [stepOn, step, hh, Option.map_some, stepHandlerOn_self hk]

omit [DecidableEq ι] in
/-- Who is where after a section of the handler at `pos`. -/
theorem getElem?_setHandler {w : OpenNode ι} {pos : ℕ} {throws : Bool} {h : Handler}
    {r : Node × Option Handler × Option Message} (hh : w.handlers[pos]? = some h)
    (hs : Cluster.HandlerStepped w.node throws h r) (q : ℕ) :
    (w.setHandler pos r.2.1)[q]? =
      if q = pos ∧ r.2.1 ≠ none then r.2.1 else w.handlers[w.handlerBefore pos q]? := by
  have hpos : pos < w.handlers.length := (List.getElem?_eq_some_iff.mp hh).1
  cases h with
  | responding msg =>
    have hover : r.2.1 = none := hs.over_iff.mpr ⟨msg, rfl⟩
    simp only [setHandler, hover, handlerBefore, hh, List.getElem?_eraseIdx]
    split <;> simp_all
  | acquiring txId key stage =>
    obtain ⟨h', hh'⟩ := Option.ne_none_iff_exists'.mp
      (mt hs.over_iff.mp (by simp) : r.2.1 ≠ none)
    simp only [setHandler, hh', handlerBefore, hh]
    by_cases hq : q = pos
    · subst hq
      simp [hpos]
    · simp [hq, List.getElem?_set_ne (Ne.symm hq)]

omit [DecidableEq ι] in
/-- A handler that goes on has its place. -/
theorem handlerBefore_self {w : OpenNode ι} {pos : ℕ} {throws : Bool} {h : Handler}
    {r : Node × Option Handler × Option Message} (hh : w.handlers[pos]? = some h)
    (hs : Cluster.HandlerStepped w.node throws h r) (hr : r.2.1 ≠ none) :
    w.handlerBefore pos pos = pos := by
  cases h with
  | responding msg => exact absurd (hs.over_iff.mpr ⟨msg, rfl⟩) hr
  | acquiring txId key stage => simp [handlerBefore, hh]

/-- Whoever has looked an entry up wants that one until it wants none any more. -/
theorem wants_of_step {w w' : OpenNode ι} {l : OpenLabel ι} {p : ι ⊕ ℕ} {k k' : KeyType}
    (hs : w.step l = some w') (hk : w.wants (w.placeBefore l p) = some k)
    (hk' : w'.wants p = some k') : k' = k := by
  have hsame : w'.wants p = w.wants (w.placeBefore l p) → k' = k := fun h =>
    Option.some.inj (hk'.symm.trans (h.trans hk))
  cases l with
  | txn i c =>
    obtain ⟨r, hr, rfl⟩ := Option.map_eq_some_iff.mp hs
    cases p with
    | inr q => exact hsame rfl
    | inl j =>
      by_cases hj : j = i
      · subst hj
        simp only [wants, Function.update_self] at hk'
        exact (stepTxn_spec hr).wants_eq hk hk'
      · exact hsame (by simp [wants, placeBefore, hj])
  | receive peer msg =>
    obtain ⟨x, -, rfl⟩ := Option.map_eq_some_iff.mp hs
    cases p with
    | inl j => exact hsame rfl
    | inr q =>
      -- the handlers that were there are where they were
      obtain ⟨h, hh, -⟩ := Option.bind_eq_some_iff.mp hk
      have hq : q < w.handlers.length := (List.getElem?_eq_some_iff.mp hh).1
      exact hsame (by simp [wants, placeBefore, List.getElem?_append_left hq])
  | handle pos throws =>
    obtain ⟨h, hh, rfl⟩ := Option.map_eq_some_iff.mp hs
    have hstepped := Cluster.stepHandler_spec w.node throws h
    cases p with
    | inl j => exact hsame rfl
    | inr q =>
      have hget := getElem?_setHandler hh hstepped q
      split at hget
      · -- the handler that moved
        rename_i hmoved
        obtain ⟨rfl, hr⟩ := hmoved
        simp only [wants, placeBefore, handlerBefore_self hh hstepped hr, hh,
          Option.bind_some] at hk
        simp only [wants, hget] at hk'
        exact hstepped.wants_eq hk hk'
      · exact hsame (by simp [wants, placeBefore, hget])

variable (ι) in
/-- A node, its calls and its handlers, with the lookup of `acquire` as a step. -/
def lookups : Lookups (OpenNode ι) (OpenLabel ι) (ι ⊕ ℕ) KeyType where
  step := step
  stepOn := stepOn
  party := mover
  wants := wants
  links w l _ := w.links l
  origin := placeBefore
  stepOn_self := stepOn_self
  wants_eq := wants_of_step

/-! ## 3. The local locks of a call -/

/-- A step with which a call ends links no entry. -/
theorem links_of_ends {w w' : OpenNode ι} {i : ι} {c : Choice}
    (hs : w.step (.txn i c) = some w') (hends : (w'.txns i).pc.live = false) :
    w.links (.txn i c) = none := by
  obtain ⟨r, hr, rfl⟩ := Option.map_eq_some_iff.mp hs
  have hr := stepTxn_spec hr
  simp only [Function.update_self] at hends
  cases hr with
  | opAnswered hpc => rcases hpc with hpc | hpc <;> simp [links, hpc, Pc.links]
  | _ => simp_all [links, Pc.links, Pc.live, TxnThread.goto]

/-- **When local locks are freed, unless a lookup is raced.**  Call `i` has the id `t` to itself, and
no `try_emplace` links an entry while somebody else on the node looks its own up.  The call ends with
a step from `w` to `w'`, by returning or by throwing.  From then on, in `w'` and in every later
state, no entry of the lock table is owned by `t`, if and only if the call does not end in
`acquire_remote_locks_with_retry` or has no local key. -/
theorem local_locks_freed_unless_raced_iff {i : ι} {t : TransactionId} {routing : Routing}
    {store : ThreadSafeKVStore} {txs : ι → Transaction}
    {w w' w'' : Racing (OpenNode ι) (ι ⊕ ℕ) KeyType} {c : Choice}
    (hrun : Run (lookups ι).raceStep ((lookups ι).RaceFreeAnd (OnlyUser i t))
      (Lookups.start (initial routing store txs)) w)
    (hid : (w.sys.txns i).txId = t)
    (hs : (lookups ι).raceStep w (.act (.txn i c)) = some w')
    (hends : (∃ results, (w'.sys.txns i).pc = .returned results) ∨
      (w'.sys.txns i).pc = .threw)
    (hlater : Run (lookups ι).raceStep ((lookups ι).RaceFreeAnd (OnlyUser i t)) w' w'') :
    (∀ k, w''.sys.node.lockManager.owner k ≠ some t) ↔
      ((w.sys.txns i).pc.asking = true → w.sys.node.localKeys (w.sys.txns i).tx = ∅) := by
  obtain ⟨hr, hsound⟩ := Lookups.run_of_raceRun hrun
  have hstepped := Lookups.raceStepped_of_raceStep hs
  rcases Lookups.sys_of_raceStep hsound hs with ⟨l, hl, hstep⟩ | ⟨hnot, -⟩
  · obtain rfl := RaceLabel.act.inj hl
    have hended : (w'.sys.txns i).pc.live = false := by
      rcases hends with ⟨results, hpc⟩ | hpc <;> simp [hpc, Pc.live]
    have hfree : (lookups ι).RaceFree w (.act (.txn i c)) := by
      intro p _
      rw [Lookups.disturbs]
      split
      · rfl
      · exact links_of_ends hstep hended
    have hsound' := Lookups.sound_step hsound hfree hstepped
    have hlater' := (Lookups.run_of_raceRun_from hsound' hlater).1
    exact local_locks_freed_iff hr hid hstep hends hlater'
  · exact absurd rfl (hnot _)

/-- The call asks for its remote key, is not answered in time, and aborts; the grant comes while it
does. -/
def abortedRun : List (OpenLabel Bool) :=
  lockKey0 ++ [.txn false {}, .txn false {}, .txn false { pairs := [(2, 2)], timeout := true },
    .txn false {}, .txn false {}, .receive 2 (Message.lockGranted 1 2).toJson,
    .txn false { keys := [0] }, .txn false {}]

theorem local_locks_freed_aborted :
    ∃ w w' : Racing (OpenNode Bool) (Bool ⊕ ℕ) KeyType,
      Run (lookups Bool).raceStep ((lookups Bool).RaceFreeAnd (OnlyUser false 1))
        (Lookups.start (node0 fun _ => keys0And2)) w ∧
      (lookups Bool).raceStep w (.act (.txn false {})) = some w' ∧
      (w'.sys.txns false).pc = .returned [] ∧ w.sys.node.localKeys keys0And2 = {0} ∧
      ∀ k, w'.sys.node.lockManager.owner k ≠ some 1 := by
  have hrun : ((runChecked step (onlyUses false 1) (node0 fun _ => keys0And2) abortedRun).bind
      fun w => (w.step (.txn false {})).map fun w' =>
        decide ((w.txns false).txId = 1 ∧ (w.txns false).pc = .aborting (.releasing []) ∧
          (w'.txns false).pc = .returned [] ∧ w.node.localKeys keys0And2 = {0})) = some true := by
    decide +kernel
  obtain ⟨s, hs, hstep⟩ := Option.bind_eq_some_iff.mp hrun
  obtain ⟨s', hs', hpcs⟩ := Option.map_eq_some_iff.mp hstep
  obtain ⟨hid, hpc, hret, hkeys⟩ := of_decide_eq_true hpcs
  have hr := (run_of_runChecked _ .refl hs).mono fun _ _ => onlyUser_of_onlyUses
  obtain ⟨w, hw, rfl, -⟩ := Lookups.exists_raceRun (Y := lookups Bool) hr
  have hwanted : (lookups Bool).wanted w.sys (.txn false {}) = none := by
    simp [Lookups.wanted, lookups, mover, wants, hpc, Pc.wants]
  have hact := Lookups.raceStep_of_wanted_none hwanted hs'
  refine ⟨w, _, hw, hact, hret, hkeys, ?_⟩
  exact (local_locks_freed_unless_raced_iff hw hid hact (.inl ⟨_, hret⟩) .refl).mpr
    (by simp [hpc, Pc.asking])

/-- Two transactions with one local key each. -/
def keys0And3 : Bool → Transaction
  | false => [.append 0 5]
  | true => [.append 3 7]

/-- The first call looks key 0 up while the second one links the entry of key 3. -/
def racedRun : List (RaceLabel (OpenLabel Bool) (Bool ⊕ ℕ) KeyType) :=
  [.act (.txn false { keys := [0] }), .act (.txn false {}), .search (.inl false),
    .act (.txn true { keys := [3] }), .act (.txn true {}), .find (.inl false) 3,
    .act (.txn false {}), .act (.txn false {}), .act (.txn false {}), .act (.txn false {}),
    .act (.txn false {}), .act (.txn false { keys := [0] }), .act (.txn false {}),
    .act (.txn false {}), .act (.txn false {})]

/-- **The condition on the lookups is needed**: a call whose lookup was raced has returned, and the
other call's key is owned by its id. -/
theorem raced_call_leaves_lock :
    ∃ w, Run (lookups Bool).raceStep (Lookups.OnActs (OnlyUser false 1))
        (Lookups.start (node0 keys0And3)) w ∧
      (w.sys.txns false).txId = 1 ∧ (w.sys.txns false).pc = .returned [] ∧
      w.sys.node.lockManager.owner 3 = some 1 := by
  obtain ⟨w, hr, hfacts⟩ : ∃ w, Run (lookups Bool).raceStep
      (Lookups.OnActs fun w l => onlyUses false 1 w l = true) (Lookups.start (node0 keys0And3)) w ∧
      (w.sys.txns false).txId = 1 ∧ (w.sys.txns false).pc = .returned [] ∧
      w.sys.node.lockManager.owner 3 = some 1 :=
    exists_run_of_runChecked racedRun (by decide +kernel)
  exact ⟨w, hr.mono fun _ _ hok l hl => onlyUser_of_onlyUses (hok l hl), hfacts⟩

end OpenNode

end TwoPL
