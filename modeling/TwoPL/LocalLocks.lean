/-
# The local locks of a call

`execute_with_distributed_support` gives the local locks back at the end of phase 3, when it aborts
in phase 1, and in a `catch` block ("Exception occurred - clean up locks").  The `try` begins after
phase 1.  A `send` that throws in `acquire_remote_locks_with_retry`, where the requests go out and
where the releases of a timeout do, leaves the function past all three, with every local key of the
transaction locked.

That is the one way out that frees nothing (`local_locks_freed_iff`): whenever a call ends, its id
is in no entry of the lock table, then and ever after, unless it ends by such a `send` and has a
local key.  In that case the keys stay locked for ever (`request_threw_locked`).  Here an `acquire`
polls the entry of its key; one that has found another leaves a lock behind too, in
`LookupHandlers.lean`.

The id of the call is taken to be its own: no other call of the node draws it, and no peer asks for
a lock or releases one under it.  Nothing else is asked of the messages.
-/
import TwoPL.OpenNode

namespace TwoPL

open Lib

/-! ## 1. What a call holds -/

/-- What the lock tables say of a call with id `t` and these local keys, by where it is: what it
owns is recorded, so that `release_all` will find it, and until it runs it owns the local keys that
it has passed. -/
def Pc.Holds (lm : LockManager) (localKeys : Finset KeyType) (t : TransactionId) : Pc → Prop
  | .locking todo stage =>
    lm.Recorded t [] ∧ (stage.polls = true → ∀ k ∈ todo.head?, k ∈ lm.keysToRelease t) ∧
    (∀ k ∈ todo, k ∈ localKeys) ∧ (∀ k, lm.owner k = some t → k ∈ localKeys) ∧
    ∀ k ∈ localKeys, k ∈ todo ∨ lm.owner k = some t
  | .requesting _ | .waiting | .timingOut _ =>
    lm.Recorded t [] ∧ ∀ k, lm.owner k = some t ↔ k ∈ localKeys
  | .aborting stage | .releasing stage _ _ => stage.Covers lm t
  | .sendingReleases _ _ _ => ∀ k, lm.owner k ≠ some t
  | .idle | .returned _ | .threw => True
  | _ => lm.Recorded t []

open LockManager

section Steps

variable {lm lm' : LockManager} {localKeys : Finset KeyType} {t : TransactionId}

/-- What does not touch the tables of `t` leaves its call what it holds. -/
theorem Pc.Holds.of_sameFor {pc : Pc} (h : pc.Holds lm localKeys t) (hsame : SameFor lm lm' t) :
    pc.Holds lm' localKeys t := by
  cases pc with
  | locking todo stage =>
    simp only [Holds, hsame.keysToRelease, hsame.owner] at h ⊢
    exact ⟨hsame.recorded h.1, h.2⟩
  | requesting _ | waiting | timingOut _ =>
    exact ⟨hsame.recorded h.1, fun k => (hsame.owner k).trans (h.2 k)⟩
  | aborting _ | releasing _ _ _ => exact ReleaseAllStage.Covers.of_sameFor h hsame
  | sendingReleases _ _ _ => exact fun k hk => h k ((hsame.owner k).mp hk)
  | idle | returned _ | threw => trivial
  | executing _ _ | opSending _ _ _ | opChecking _ _ _ | opWaiting _ _ _ | opRetrieving _ _ _ =>
    exact hsame.recorded h

variable {n : Node} {x : TxnThread} {c : Choice} {r : TxnStep}

/-- **A step of a call keeps what it holds accounted for.** -/
theorem TxnStepped.holds (h : TxnStepped n x c r) (hcalled : x.pc ≠ .idle)
    (hx : x.pc.Holds n.lockManager localKeys x.txId) :
    r.thread.pc.Holds r.node.lockManager localKeys x.txId := by
  cases h with
  | call hidle _ => exact absurd hidle hcalled
  | poll hpc hacq =>
    rw [hpc] at hx
    obtain ⟨hrec, hpolls, htodo, hlocal, howned⟩ := hx
    have hkey := fun hp => hpolls hp _ rfl
    refine ⟨hacq.recorded hrec hkey, fun hp k hk => ?_, htodo, fun k hk => ?_, fun k hk => ?_⟩
    · rw [List.head?_cons, Option.mem_some_iff] at hk
      exact hk ▸ hacq.polls_recorded hkey hp
    · rcases hacq.owner_cases hk with hold | ⟨rfl, -⟩
      · exact hlocal k hold
      · exact htodo k (by simp)
    · exact (howned k hk).imp_right hacq.owner_of_some
  | acquired hpc hacq =>
    rw [hpc] at hx
    obtain ⟨hrec, hpolls, htodo, hlocal, howned⟩ := hx
    refine ⟨hacq.recorded hrec fun hp => hpolls hp _ rfl, by simp [AcquireStage.polls],
      fun k hk => htodo k (by simp [hk]), fun k hk => ?_, fun k hk => ?_⟩
    · rcases hacq.owner_cases hk with hold | ⟨rfl, -⟩
      · exact hlocal k hold
      · exact htodo k (by simp)
    · -- the key that leaves `todo` is the one that was granted
      rcases howned k hk with hmem | hown
      · rcases List.mem_cons.mp hmem with rfl | hmem
        · exact .inr hacq.acquired.1
        · exact .inl hmem
      · exact .inr (hacq.owner_of_some hown)
  | refused hpc hacq =>
    rw [hpc] at hx
    obtain ⟨hrec, hpolls, -⟩ := hx
    exact hacq.recorded hrec fun hp => hpolls hp _ rfl
  | beginRemote hpc _ _ _ =>
    rw [hpc] at hx
    obtain ⟨hrec, -, -, hlocal, howned⟩ := hx
    exact ⟨hrec, fun k => ⟨hlocal k, fun hk => (howned k hk).resolve_left (by simp)⟩⟩
  | aborting hpc hrel | releasing hpc hrel =>
    rw [hpc] at hx
    exact hrel.covers hx
  | releasedLocal hpc hrel _ =>
    rw [hpc] at hx
    exact (hrel.done_covers hx).1
  | opAnswered hpc =>
    rcases hpc with hpc | hpc <;> (rw [hpc] at hx; exact hx)
  | sendThrew hpc _ =>
    -- the `catch` block starts another `release_all`, with nothing left to release
    rw [hpc] at hx
    exact fun k hk => absurd hk (hx k)
  | _ => simp_all [Pc.Holds, ReleaseAllStage.Covers, TxnThread.goto, Node.touchPending,
      Node.erasePending, Node.insertPendingOp, Node.erasePendingOp]

/-- A call that is being made holds nothing yet. -/
theorem TxnStepped.holds_of_idle (h : TxnStepped n x c r) (hidle : x.pc = .idle)
    (hfree : ∀ k, n.lockManager.owner k ≠ some t) :
    r.thread.pc.Holds r.node.lockManager (n.localKeys x.tx) t := by
  cases h with
  | call _ henum =>
    exact ⟨fun k hk => absurd hk (hfree k), by simp [AcquireStage.polls],
      fun k => (henum.mem_iff k).mp, fun k hk => absurd hk (hfree k),
      fun k hk => .inl ((henum.mem_iff k).mpr hk)⟩
  | _ => simp_all

/-- The tables of `t` are not the affair of a call with another id. -/
theorem TxnStepped.sameFor (h : TxnStepped n x c r) (hne : x.pc ≠ .idle → t ≠ x.txId) :
    SameFor n.lockManager r.node.lockManager t := by
  cases h with
  | poll hpc hacq | acquired hpc hacq | refused hpc hacq =>
    exact hacq.sameFor (hne (by simp [hpc]))
  | aborting hpc hrel | aborted hpc hrel | releasing hpc hrel | releasedLocal hpc hrel _ =>
    exact hrel.sameFor (hne (by simp [hpc]))
  | _ => exact .refl _ _

/-- A call that has ended takes no step. -/
theorem TxnStepped.live_of_called (h : TxnStepped n x c r) (hcalled : x.pc ≠ .idle) :
    x.pc.live = true := by
  cases h with
  | opAnswered hpc => rcases hpc with hpc | hpc <;> simp [hpc, Pc.live]
  | _ => simp_all [Pc.live]

/-- **What is left when a call ends**: nothing, or all its local keys if it was asking for remote
locks. -/
theorem TxnStepped.owner_of_end (h : TxnStepped n x c r)
    (hx : x.pc.Holds n.lockManager localKeys x.txId) (hcalled : x.pc ≠ .idle)
    (hends : r.thread.pc.live = false) :
    (∀ k, r.node.lockManager.owner k ≠ some x.txId) ↔
      (x.pc.asking = true → localKeys = ∅) := by
  cases h with
  | call hidle _ => exact absurd hidle hcalled
  | requestThrew hpc _ | timeoutThrew hpc _ =>
    rw [hpc] at hx ⊢
    simp only [Pc.asking, true_imp_iff, ne_eq, hx.2, Finset.eq_empty_iff_forall_notMem]
  | aborted hpc hrel =>
    rw [hpc] at hx ⊢
    exact iff_of_true (hrel.done_covers hx).1 (by simp [Pc.asking])
  | rethrown hpc _ | returned hpc =>
    rw [hpc] at hx ⊢
    exact iff_of_true hx (by simp [Pc.asking])
  | _ => simp_all [Pc.live, TxnThread.goto]

end Steps

/-! ## 2. A call that has its id to itself -/

namespace OpenNode

variable {ι : Type*} {i : ι} {t : TransactionId} {w w' : OpenNode ι}

/-- No call but `i` draws the id `t`, and no peer asks for a lock or releases one under it. -/
def OnlyUser (i : ι) (t : TransactionId) (w : OpenNode ι) : OpenLabel ι → Prop
  | .txn j _ => (w.txns j).pc = .idle → w.node.nextTxId = t → j = i
  | .receive _ msg => ∀ k, dispatch msg ≠ some (.lockRequest t k) ∧
      dispatch msg ≠ some (.lockRelease t k)
  | .handle _ _ => True

/-- The call has been made, under the id `t`. -/
def CalledAs (w : OpenNode ι) (i : ι) (t : TransactionId) : Prop :=
  (w.txns i).pc ≠ .idle ∧ (w.txns i).txId = t

/-- The invariant of a run in which `i` has the id `t` to itself. -/
structure Accountable (i : ι) (t : TransactionId) (w : OpenNode ι) : Prop where
  handlers : ∀ k stage, Handler.acquiring t k stage ∉ w.handlers
  only : ∀ j, w.CalledAs j t → j = i
  holds : w.CalledAs i t →
    (w.txns i).pc.Holds w.node.lockManager (w.node.localKeys (w.txns i).tx) t
  free : ¬ w.CalledAs i t → ∀ k, w.node.lockManager.owner k ≠ some t

theorem accountable_initial (routing : Routing) (store : ThreadSafeKVStore)
    (txs : ι → Transaction) : Accountable i t (initial routing store txs) where
  handlers := by simp [initial]
  only := by simp [CalledAs, initial, TxnThread.fresh]
  holds := by simp [CalledAs, initial, TxnThread.fresh]
  free := by simp [initial, Node.fresh]

/-- A message under another id, or of another kind, leaves the tables of `t` alone. -/
theorem Received.sameFor {n n' : Node} {peer : NodeID} {msg : JsonObject} {h : Option Handler}
    (hr : Received n peer msg n' h) (hrel : ∀ k, dispatch msg ≠ some (.lockRelease t k)) :
    SameFor n.lockManager n'.lockManager t := by
  cases hr with
  | lockResponse _ _ =>
    rw [(Node.handleLockResponse_frame n _ _ _ _).2.1]
    exact .refl _ _
  | opRequest _ =>
    rw [Node.handleOperationRequest_frame]
    exact .refl _ _
  | @lockRelease t' k hd =>
    refine sameFor_release _ _ ?_
    rintro rfl
    exact hrel k hd
  | _ => exact .refl _ _

/-- A handler polls for the id in a lock request. -/
theorem Received.acquiring {n n' : Node} {peer : NodeID} {msg : JsonObject} {k : KeyType}
    {stage : AcquireStage} (hr : Received n peer msg n' (some (.acquiring t k stage))) :
    dispatch msg = some (.lockRequest t k) := by
  cases hr with
  | lockRequest hd => exact hd

/-- A section of a handler is the affair of the id it polls for, which it keeps. -/
theorem handlerStepped_cases {n : Node} {throws : Bool} {h : Handler}
    {r : Node × Option Handler × Option Message} (hs : Cluster.HandlerStepped n throws h r)
    (hne : ∀ k stage, h ≠ .acquiring t k stage) :
    SameFor n.lockManager r.1.lockManager t ∧ ∀ k stage, r.2.1 ≠ some (.acquiring t k stage) := by
  cases hs with
  | @poll t' k' stage' _ _ hacq =>
    have ht : t ≠ t' := fun e => hne k' stage' (e ▸ rfl)
    exact ⟨hacq.sameFor ht, by simp [ht.symm]⟩
  | @decided t' k' stage' _ _ hacq =>
    have ht : t ≠ t' := fun e => hne k' stage' (e ▸ rfl)
    exact ⟨hacq.sameFor ht, by simp⟩
  | responded _ | responseThrew _ => exact ⟨.refl _ _, by simp⟩

/-- What a step of somebody else leaves of the call. -/
theorem Accountable.of_sameFor (h : Accountable i t w) (hi : w'.txns i = w.txns i)
    (hrouting : w'.node.routing = w.node.routing)
    (hsame : SameFor w.node.lockManager w'.node.lockManager t)
    (hhandlers : ∀ k stage, Handler.acquiring t k stage ∉ w'.handlers)
    (honly : ∀ j, w'.CalledAs j t → j = i) : Accountable i t w' where
  handlers := hhandlers
  only := honly
  holds hcalled := by
    rw [CalledAs, hi] at hcalled
    rw [hi, Node.localKeys_congr hrouting]
    exact (h.holds hcalled).of_sameFor hsame
  free hnot k hk := by
    rw [CalledAs, hi] at hnot
    exact h.free hnot k ((hsame.owner k).mp hk)

variable [DecidableEq ι]

/-- A step that is not one of the call leaves the call and the tables of `t` alone. -/
theorem Accountable.other (h : Accountable i t w) {l : OpenLabel ι} (hok : OnlyUser i t w l)
    (hs : Stepped w l w') (hl : ∀ c, l ≠ .txn i c) :
    w'.txns i = w.txns i ∧ SameFor w.node.lockManager w'.node.lockManager t ∧
      Accountable i t w' := by
  cases hs with
  | @txn j c r hs =>
    have hji : i ≠ j := by
      rintro rfl
      exact hl c rfl
    have hne : (w.txns j).pc ≠ .idle → t ≠ (w.txns j).txId := fun hcalled htid =>
      hji (h.only j ⟨hcalled, htid.symm⟩).symm
    have hsame := hs.sameFor hne
    have hi : Function.update w.txns j r.thread i = w.txns i := Function.update_of_ne hji _ _
    refine ⟨hi, hsame, h.of_sameFor hi hs.routing_eq hsame h.handlers fun j' hj' => ?_⟩
    rcases eq_or_ne j' j with rfl | hj
    · -- the call that moved: it has just been made, or its id is the old one
      simp only [CalledAs, Function.update_self] at hj'
      by_cases hidle : (w.txns j').pc = .idle
      · exact hok hidle ((hs.id_of_idle hidle).1.symm.trans hj'.2)
      · exact absurd ((hs.id_of_called hidle).1.symm.trans hj'.2) (Ne.symm (hne hidle))
    · simp only [CalledAs, Function.update_of_ne hj] at hj'
      exact h.only j' hj'
  | receive hr =>
    have hsame := hr.sameFor fun k => (hok k).2
    refine ⟨rfl, hsame, h.of_sameFor rfl hr.routing_eq hsame (fun k stage hmem => ?_) h.only⟩
    rcases List.mem_append.mp hmem with hold | hnew
    · exact h.handlers k stage hold
    · rw [Option.mem_toList] at hnew
      exact (hok k).1 (Received.acquiring (hnew ▸ hr))
  | handle hmem hh =>
    obtain ⟨hsame, hleft⟩ := handlerStepped_cases hh fun k stage e => h.handlers k stage (e ▸ hmem)
    refine ⟨rfl, hsame, h.of_sameFor rfl ?_ hsame (fun k stage hk => ?_) h.only⟩
    · rw [node_of_handlerStepped hh]
    · exact (mem_setHandler hk).elim (h.handlers k stage) (hleft k stage)

/-- A step of the call. -/
theorem Accountable.own (h : Accountable i t w) {c : Choice} {r : TxnStep}
    (hs : TxnStepped w.node (w.txns i) c r) :
    Accountable i t { w with node := r.node, txns := Function.update w.txns i r.thread } where
  handlers := h.handlers
  only j hj := by
    by_contra hji
    simp only [CalledAs, Function.update_of_ne hji] at hj
    exact hji (h.only j hj)
  holds hcalled := by
    simp only [CalledAs, Function.update_self] at hcalled ⊢
    rw [hs.tx_eq, Node.localKeys_congr hs.routing_eq]
    by_cases hidle : (w.txns i).pc = .idle
    · exact hs.holds_of_idle hidle (h.free fun hc => hc.1 hidle)
    · have hid : (w.txns i).txId = t := (hs.id_of_called hidle).1.symm.trans hcalled.2
      subst hid
      exact hs.holds hidle (h.holds ⟨hidle, rfl⟩)
  free hnot k hk := by
    simp only [CalledAs, Function.update_self] at hnot
    have hnot' : ¬ w.CalledAs i t := by
      rintro ⟨hpc, hid⟩
      obtain ⟨hid', hpc', -⟩ := hs.id_of_called hpc
      exact hnot ⟨hpc', hid'.trans hid⟩
    have hsame := hs.sameFor fun hpc htid => hnot' ⟨hpc, htid.symm⟩
    exact h.free hnot' k ((hsame.owner k).mp hk)

theorem Accountable.step (h : Accountable i t w) {l : OpenLabel ι} (hok : OnlyUser i t w l)
    (hs : Stepped w l w') : Accountable i t w' := by
  by_cases hl : ∃ c, l = .txn i c
  · obtain ⟨c, rfl⟩ := hl
    cases hs with
    | txn hs => exact h.own hs
  · exact (h.other hok hs fun c hc => hl ⟨c, hc⟩).2.2

/-! ## 3. The end of a call -/

/-- What is left of the locks of a call that has ended is left for ever. -/
theorem Accountable.sameFor_of_run (h : Accountable i t w) (hcalled : (w.txns i).pc ≠ .idle)
    (hended : (w.txns i).pc.live = false) (hr : Run OpenNode.step (OnlyUser i t) w w') :
    SameFor w.node.lockManager w'.node.lockManager t := by
  have hinv : Accountable i t w' ∧ w'.txns i = w.txns i ∧
      SameFor w.node.lockManager w'.node.lockManager t := by
    refine hr.invariant (I := fun v => Accountable i t v ∧ v.txns i = w.txns i ∧
      SameFor w.node.lockManager v.node.lockManager t) ⟨h, rfl, .refl _ _⟩ ?_
    rintro v l v' ⟨hv, hi, hsame⟩ hok hs
    have hl : ∀ c, l ≠ .txn i c := by
      rintro c rfl
      cases stepped_of_step hs with
      | txn hst =>
        rw [hi] at hst
        exact absurd (hst.live_of_called hcalled) (by simp [hended])
    obtain ⟨hi', hsame', hv'⟩ := hv.other hok (stepped_of_step hs) hl
    exact ⟨hv', hi'.trans hi, hsame.trans hsame'⟩
  exact hinv.2.2

theorem accountable_run {routing : Routing} {store : ThreadSafeKVStore} {txs : ι → Transaction}
    (hr : Run step (OnlyUser i t) (initial routing store txs) w) : Accountable i t w :=
  hr.invariant (accountable_initial routing store txs) fun _ _ _ hI hok hs =>
    hI.step hok (stepped_of_step hs)

/-- **When local locks are freed.**  Call `i` has the id `t` to itself and ends with a step from `w`
to `w'`, by returning or by throwing.  From then on, in `w'` and in every later state, no entry of
the lock table is owned by `t`, if and only if the call does not end in
`acquire_remote_locks_with_retry` or has no local key. -/
theorem local_locks_freed_iff {routing : Routing} {store : ThreadSafeKVStore}
    {txs : ι → Transaction} {w'' : OpenNode ι} {c : Choice}
    (hrun : Run step (OnlyUser i t) (initial routing store txs) w)
    (hid : (w.txns i).txId = t) (hs : w.step (.txn i c) = some w')
    (hends : (∃ results, (w'.txns i).pc = .returned results) ∨ (w'.txns i).pc = .threw)
    (hlater : Run step (OnlyUser i t) w' w'') :
    (∀ k, w''.node.lockManager.owner k ≠ some t) ↔
      ((w.txns i).pc.asking = true → w.node.localKeys (w.txns i).tx = ∅) := by
  have hw := accountable_run hrun
  have hended : (w'.txns i).pc.live = false ∧ (w'.txns i).pc ≠ .idle := by
    rcases hends with ⟨results, hpc⟩ | hpc <;> simp [hpc, Pc.live]
  cases stepped_of_step hs with
  | @txn _ _ r hst =>
    have hsame := (hw.own hst).sameFor_of_run hended.2 hended.1 hlater
    simp only [Function.update_self] at hended
    have hcalled : (w.txns i).pc ≠ .idle := by
      intro hidle
      cases hst <;> simp_all
    subst hid
    rw [← hst.owner_of_end (hw.holds ⟨hcalled, rfl⟩) hcalled hended.1]
    exact forall_congr' fun k => not_congr (hsame.owner k)

/-- `OnlyUser`, as a check. -/
def onlyUses (i : ι) (t : TransactionId) (w : OpenNode ι) : OpenLabel ι → Bool
  | .txn j _ => decide ((w.txns j).pc = .idle → w.node.nextTxId = t → j = i)
  | .receive _ msg =>
    match dispatch msg with
    | some (.lockRequest t' _) | some (.lockRelease t' _) => t' ≠ t
    | _ => true
  | .handle _ _ => true

theorem onlyUser_of_onlyUses {l : OpenLabel ι} (h : onlyUses i t w l = true) :
    OnlyUser i t w l := by
  cases l with
  | txn j c =>
    rw [onlyUses, decide_eq_true_eq] at h
    exact h
  | receive peer msg =>
    refine fun k => ⟨fun hd => ?_, fun hd => ?_⟩ <;> simp [onlyUses, hd] at h
  | handle pos throws => trivial

/-- A transaction with local key 0 and remote key 2. -/
def keys0And2 : Transaction := [.append 0 5, .append 2 7]

/-- The call has its local key and is to ask for the remote one. -/
def lockKey0 : List (OpenLabel Bool) :=
  [.txn false { keys := [0] }, .txn false {}, .txn false {}, .txn false {},
    .txn false { pairs := [(2, 2)] }]

/-- **A request that throws leaves the local keys locked.**  The first `send` of
`acquire_remote_locks_with_retry` throws, and so does the call; key 0 is owned by its id in every
later state. -/
theorem request_threw_locked :
    ∃ w w' : OpenNode Bool,
      Run step (OnlyUser false 1) (node0 fun _ => keys0And2) w ∧
      w.step (.txn false { throws := true }) = some w' ∧ (w.txns false).txId = 1 ∧
      (w'.txns false).pc = .threw ∧
      ∀ w'', Run step (OnlyUser false 1) w' w'' → w''.node.lockManager.owner 0 = some 1 := by
  have hrun : ((runChecked step (onlyUses false 1) (node0 fun _ => keys0And2) lockKey0).bind
      fun w => (w.step (.txn false { throws := true })).map fun w' =>
        decide ((w.txns false).txId = 1 ∧ (w'.txns false).pc = .threw ∧
          w'.node.lockManager.owner 0 = some 1)) = some true := by
    decide +kernel
  obtain ⟨w, hw, hstep⟩ := Option.bind_eq_some_iff.mp hrun
  obtain ⟨w', hw', hpcs⟩ := Option.map_eq_some_iff.mp hstep
  obtain ⟨hid, hpc, howner⟩ := of_decide_eq_true hpcs
  have hr := (run_of_runChecked _ .refl hw).mono fun _ _ => onlyUser_of_onlyUses
  refine ⟨w, w', hr, hw', hid, hpc, fun w'' hlater => ?_⟩
  have hok : OnlyUser false 1 w (.txn false { throws := true }) := fun _ _ => rfl
  have hinv := accountable_run (hr.tail hok hw')
  have hsame := hinv.sameFor_of_run (by simp [hpc]) (by simp [hpc, Pc.live]) hlater
  exact (hsame.owner 0).mpr howner

end OpenNode

end TwoPL
