/-
# What the program prints is strictly serializable

A process whose `init` names no other node, with any lines on its standard input.  Requests are
handled concurrently by the pool, and what a client sees is the order in which lines are read and
replies are printed (`Process.trace`).

`exists_wireSerialization`: there is an order of the requests such that every reply that has been
printed is the one its handler gives when the transactions are executed alone, one after the other
in that order; and a request that was answered before another one was read comes before it.  The
exception are requests whose locks were given up, after `acquire` returned `ABORTED`.  Such a
request is not in the order, has executed nothing, and is answered as if its transaction had
returned nothing; and there is another request with a key in common with it.

The calls of the process are those of a node on its own (`Mirrors`), and its history is one of
`SingleNode`: a call is made after its line is read and returns before its reply is printed, so the
order of lines and replies on the wire is among the orders that the history respects.
-/
import TwoPL.Process
import TwoPL.Quiescence

namespace TwoPL

open Lib

/-! ## 1. A history of the calls -/

/-- A call that returns says so. -/
theorem TxnStepped.event_of_returned {n : Node} {t : TxnThread} {c : Choice} {r : TxnStep}
    (h : TxnStepped n t c r) {results : Results} (hpc : r.thread.pc = .returned results) :
    r.event = some (.returned results) := by
  have hno := h.ne_returned results
  cases h with
  | aborted _ _ =>
    simp only [TxnThread.goto, Pc.returned.injEq] at hpc
    rw [hpc]
  | returned _ =>
    simp only [TxnThread.goto, Pc.returned.injEq] at hpc
    rw [hpc]
  | sleptOn _ _ _ _ => exact absurd hpc hno
  | opSleptOn _ => exact absurd hpc hno
  | _ => exact absurd hpc (by simp [TxnThread.goto])

/-- A request for which a call of `execute_transaction` is made. -/
def Input.Calls (x : Input) (i : x.Req) : Prop :=
  (x.message i).map (·.type) = some "txn" ∧ (x.transaction i).isSome = true

/-- The keys that a call has still to lock. -/
def Pc.untaken : Pc → List KeyType
  | .locking todo _ => todo
  | _ => []

/-- The call knows whether it got its locks. -/
def Pc.decided : Pc → Bool
  | .aborting _ | .returned _ => true
  | pc => pc.running

/-- Keys are locked in the order in which they are enumerated. -/
theorem TxnStepped.untaken_suffix {n : Node} {t : TxnThread} {c : Choice} {r : TxnStep}
    (h : TxnStepped n t c r) (hpc : t.pc ≠ .idle) : r.thread.pc.untaken <:+ t.pc.untaken := by
  cases h with
  | call hidle _ => exact absurd hidle hpc
  | poll hpc _ => rw [hpc]; exact List.suffix_rfl
  | acquired hpc _ => rw [hpc]; exact List.suffix_cons ..
  | sleptOn _ _ _ _ => exact List.suffix_rfl
  | opSleptOn _ => exact List.suffix_rfl
  | _ => exact List.nil_suffix

/-- A key that has been granted is not locked again. -/
theorem TxnStepped.untaken_of_granted {n : Node} {t : TxnThread} {c : Choice} {r : TxnStep}
    (h : TxnStepped n t c r) {key : KeyType} {todo : List KeyType} {stage : AcquireStage}
    (hpc : t.pc = .locking (key :: todo) stage) (hevent : r.event = some (.granted key)) :
    r.thread.pc.untaken = todo := by
  cases h with
  | acquired hpc' _ =>
    rw [hpc, Pc.locking.injEq, List.cons.injEq] at hpc'
    exact hpc'.1.2.symm
  | _ => simp_all

/-- A call that comes to know whether it got its locks says so. -/
theorem TxnStepped.decided {n : Node} {t : TxnThread} {c : Choice} {r : TxnStep}
    (h : TxnStepped n t c r) (hpc : r.thread.pc.decided = true) :
    t.pc.decided = true ∨ r.event = some .locked ∨ r.event = some .aborted := by
  cases h with
  | lockedLocal _ _ | requestedNothing _ _ | woken _ _ _ _ => exact .inr (.inl rfl)
  | refused _ _ | timeoutDone _ => exact .inr (.inr rfl)
  | sleptOn hwaiting _ _ _ => exact absurd hpc (by simp [hwaiting, Pc.decided, Pc.running])
  | opAnswered hwaits => rcases hwaits with hwaits | hwaits <;> exact .inl (by rw [hwaits]; rfl)
  | _ => simp_all [TxnThread.goto, Pc.decided, Pc.running]

namespace SingleNode

variable {ι : Type*} [DecidableEq ι]

/-- **Who owns the keys, and who gives up.**  An owned key is one of a call that has been made and
has it already, and whoever gives up does so for somebody else with a common key. -/
structure GiveUpInv (w : SingleNode ι) : Prop where
  owner : ∀ k t, w.node.lockManager.owner k = some t → ∃ j, (w.txns j).pc ≠ .idle ∧
    (w.txns j).txId = t ∧ (∃ op ∈ (w.txns j).tx, op.key = k) ∧ k ∉ (w.txns j).pc.untaken
  untaken : ∀ i, (w.txns i).pc.untaken.Nodup ∧
    ∀ k ∈ (w.txns i).pc.untaken, ∃ op ∈ (w.txns i).tx, op.key = k
  decided : ∀ i, (w.txns i).pc.decided = true → (i, .locked) ∈ w.hist ∨ (i, .aborted) ∈ w.hist
  contested : ∀ i, (i, .aborted) ∈ w.hist → ∃ j, j ≠ i ∧ (w.txns j).pc ≠ .idle ∧
    ∃ op ∈ (w.txns i).tx, ∃ op' ∈ (w.txns j).tx, op.key = op'.key

section GiveUp

variable {w : SingleNode ι} {i : ι} {c : Choice} {r : TxnStep}

/-- A call stays made, with its transaction. -/
theorem after_called (hs : TxnStepped w.node (w.txns i) c r) {j : ι} (hj : (w.txns j).pc ≠ .idle) :
    ((w.after i r).txns j).pc ≠ .idle ∧ ((w.after i r).txns j).txId = (w.txns j).txId ∧
      ((w.after i r).txns j).pc.untaken <:+ (w.txns j).pc.untaken := by
  rcases eq_or_ne j i with rfl | hne
  · rw [after_txns_self]
    obtain ⟨hid, hpc, -⟩ := hs.id_of_called hj
    exact ⟨hpc, hid, hs.untaken_suffix hj⟩
  · rw [after_txns_of_ne w hne]
    exact ⟨hj, rfl, List.suffix_rfl⟩

theorem after_tx (hs : TxnStepped w.node (w.txns i) c r) (j : ι) :
    ((w.after i r).txns j).tx = (w.txns j).tx := by
  rcases eq_or_ne j i with rfl | hne
  · rw [after_txns_self, hs.tx_eq]
  · rw [after_txns_of_ne w hne]

/-- The owner of a key is whoever was, or the call that has just been granted it. -/
theorem GiveUpInv.owner_after (h : GiveUpInv w) (hs : TxnStepped w.node (w.txns i) c r)
    {k : KeyType} {t : TransactionId} (ho : r.node.lockManager.owner k = some t) :
    ∃ j, ((w.after i r).txns j).pc ≠ .idle ∧ ((w.after i r).txns j).txId = t ∧
      (∃ op ∈ ((w.after i r).txns j).tx, op.key = k) ∧ k ∉ ((w.after i r).txns j).pc.untaken := by
  have hold : w.node.lockManager.owner k = some t → ∃ j, ((w.after i r).txns j).pc ≠ .idle ∧
      ((w.after i r).txns j).txId = t ∧ (∃ op ∈ ((w.after i r).txns j).tx, op.key = k) ∧
      k ∉ ((w.after i r).txns j).pc.untaken := by
    intro ho
    obtain ⟨j, hpc, hid, hop, hk⟩ := h.owner k t ho
    obtain ⟨hpc', hid', hsuffix⟩ := after_called hs hpc
    exact ⟨j, hpc', hid'.trans hid, (after_tx hs j).symm ▸ hop,
      fun hmem => hk (hsuffix.subset hmem)⟩
  rcases hs.lock_effect with ⟨key, todo, stage, hpc, hevent, hacq⟩ | ⟨key, keys, -, -, hlm⟩ |
    ⟨-, -, hown⟩
  · rcases hacq.owner_cases ho with ho | ⟨rfl, rfl⟩
    · exact hold ho
    · -- the call itself has got the key, which it asked for once
      obtain ⟨hpc', hid', -⟩ := after_called hs (j := i) (by simp [hpc])
      obtain ⟨hnodup, hops⟩ := h.untaken i
      refine ⟨i, hpc', hid', ?_, ?_⟩
      · rw [after_tx hs]
        exact hops k (by simp [hpc, Pc.untaken])
      · rw [after_txns_self]
        rw [hs.untaken_of_granted hpc hevent]
        rw [hpc] at hnodup
        exact (List.nodup_cons.mp hnodup).1
  · rw [hlm] at ho
    exact hold (LockManager.owner_of_release ho)
  · exact hold ((hown k).symm.trans ho)

omit [DecidableEq ι] in
/-- **A call gives up a key that somebody else has.** -/
theorem GiveUpInv.contested_of_aborted (h : GiveUpInv w) (halone : AlonePc (w.txns i).pc)
    (hs : TxnStepped w.node (w.txns i) c r) (hevent : r.event = some .aborted) :
    ∃ j, j ≠ i ∧ (w.txns j).pc ≠ .idle ∧
      ∃ op ∈ (w.txns i).tx, ∃ op' ∈ (w.txns j).tx, op.key = op'.key := by
  cases hs with
  | @refused key todo stage lm hpc hacq =>
    obtain ⟨t, ho⟩ : ∃ t, w.node.lockManager.owner key = some t := by
      cases hacq with
      | giveUp ho _ => exact ⟨_, ho⟩
    obtain ⟨j, hj, -, ⟨op', hop', hkey'⟩, hnot⟩ := h.owner key t ho
    obtain ⟨op, hop, hkey⟩ := (h.untaken i).2 key (by simp [hpc, Pc.untaken])
    refine ⟨j, ?_, hj, op, hop, op', hop', hkey.trans hkey'.symm⟩
    -- it is not one of the keys that the call itself has
    rintro rfl
    exact hnot (by simp [hpc, Pc.untaken])
  | timeoutDone hpc => rw [hpc] at halone; exact halone.elim
  | @aborting stage _ _ _ _ => rcases stage.event_cases with he | ⟨key, he⟩ <;> simp_all
  | @releasing stage _ _ _ _ _ _ => rcases stage.event_cases with he | ⟨key, he⟩ <;> simp_all
  | _ => simp at hevent

theorem giveUpInv_step (h : GiveUpInv w) (halone : AlonePc (w.txns i).pc)
    (hs : TxnStepped w.node (w.txns i) c r) : GiveUpInv (w.after i r) where
  owner k t ho := h.owner_after hs ho
  untaken j := by
    rcases eq_or_ne j i with rfl | hne
    · rw [after_txns_self]
      obtain ⟨hnodup, hops⟩ := h.untaken j
      by_cases hidle : (w.txns j).pc = .idle
      · cases hs with
        | call _ henum =>
          refine ⟨henum.1, fun k hk => ?_⟩
          have hlocal : k ∈ w.node.localKeys (w.txns j).tx :=
            henum.2 ▸ List.mem_toFinset.mpr hk
          simp only [Node.localKeys, Finset.mem_filter, List.mem_toFinset, List.mem_map] at hlocal
          exact hlocal.1
        | opAnswered hpc => rcases hpc with hpc | hpc <;> simp [hidle] at hpc
        | _ => simp_all
      · have hsuffix := hs.untaken_suffix hidle
        rw [hs.tx_eq]
        exact ⟨hnodup.sublist hsuffix.sublist, fun k hk => hops k (hsuffix.subset hk)⟩
    · rw [after_txns_of_ne w hne]
      exact h.untaken j
  decided j hj := by
    simp only [mem_after_hist]
    rcases eq_or_ne j i with rfl | hne
    · rw [after_txns_self] at hj
      rcases hs.decided hj with hbefore | hevent | hevent
      · exact (h.decided j hbefore).imp .inl .inl
      · exact .inl (.inr ⟨rfl, hevent⟩)
      · exact .inr (.inr ⟨rfl, hevent⟩)
    · rw [after_txns_of_ne w hne] at hj
      exact (h.decided j hj).imp .inl .inl
  contested j hj := by
    have hkeep : (∃ k, k ≠ j ∧ (w.txns k).pc ≠ .idle ∧
        ∃ op ∈ (w.txns j).tx, ∃ op' ∈ (w.txns k).tx, op.key = op'.key) →
        ∃ k, k ≠ j ∧ ((w.after i r).txns k).pc ≠ .idle ∧ ∃ op ∈ ((w.after i r).txns j).tx,
          ∃ op' ∈ ((w.after i r).txns k).tx, op.key = op'.key := by
      rintro ⟨k, hkj, hk, hops⟩
      refine ⟨k, hkj, (after_called hs hk).1, ?_⟩
      rw [after_tx hs, after_tx hs]
      exact hops
    rcases mem_after_hist.mp hj with hold | ⟨rfl, hevent⟩
    · exact hkeep (h.contested j hold)
    · exact hkeep (h.contested_of_aborted halone hs hevent)

/-- ... in every reachable state. -/
theorem giveUpInv_of_reachable {routing : Routing} {store : ThreadSafeKVStore}
    {txs : ι → Transaction} (hcoord : routing.coordinator = none)
    (hr : Reachable step (initial routing store txs) w) : GiveUpInv w := by
  have hboth : Reachable step (initial routing store txs) w ∧ GiveUpInv w := by
    refine Run.invariant (I := fun w => Reachable step (initial routing store txs) w ∧
      GiveUpInv w) hr ⟨.refl, ?_⟩ ?_
    · refine ⟨fun k t ho => absurd ho ?_, fun i => ⟨List.nodup_nil, ?_⟩, ?_, ?_⟩
      · simp [initial, Node.fresh, LockManager.owner, LockManager.empty]
      · simp [initial, TxnThread.fresh, Pc.untaken]
      · simp [initial, TxnThread.fresh, Pc.decided, Pc.running]
      · simp [initial]
    · rintro w ⟨i, c⟩ w' ⟨hreach, hinv⟩ _ hs
      obtain ⟨r, hr, rfl⟩ := step_spec hs
      exact ⟨hreach.tail trivial hs,
        giveUpInv_step hinv ((alonePc_of_reachable hcoord hreach).2 i) hr⟩
  exact hboth.2

end GiveUp

end SingleNode

namespace Process

variable {x : Input}

/-- There are no peers to send anything. -/
def Alone (_ : Process x) : ProcessLabel x → Prop
  | .receive _ _ | .handle _ _ => False
  | _ => True

/-- The scheduler of the process, with a history. -/
structure Mirrors (routing : Routing) (store : ThreadSafeKVStore) (p : Process x)
    (s : SingleNode x.Req) : Prop where
  reached : Reachable SingleNode.step (SingleNode.initial routing store x.txs) s
  node : s.node = p.inner.node
  txns : s.txns = p.inner.txns
  hist : s.hist = p.hist
  /-- A call that has been made, or has returned, says so. -/
  made : ∀ i, (s.txns i).pc ≠ .idle → ∃ txId, (i, .called txId) ∈ s.hist
  ended : ∀ i results, (s.txns i).pc = .returned results → (i, .returned results) ∈ s.hist
  /-- A call is made after its line is read, and has returned before its reply is printed. -/
  called : ∀ i txId, (i, .called txId) ∈ s.hist → p.tasks i ≠ .unread
  printed : ∀ i reply, .printed i reply ∈ p.trace → x.Calls i →
    ∃ m results, x.message i = some m ∧ (i, .returned results) ∈ s.hist ∧
      handleReply m (some results) = some reply
  /-- So a call whose line is read after a reply is made after that reply's call returned. -/
  order : ∀ i j reply txId, Precedes p.trace (.printed j reply) (.read i) → x.Calls j →
    (i, .called txId) ∈ s.hist → ∃ results, Precedes s.hist (j, .returned results) (i, .called txId)

section Mirror

variable {routing : Routing} {store : ThreadSafeKVStore} {p p' : Process x} {s : SingleNode x.Req}
  {l : ProcessLabel x}

/-- A step of the main thread or the pool that is no step of a call and prints nothing. -/
theorem Mirrors.of_same (h : Mirrors routing store p s) (hinner : p'.inner = p.inner)
    (hhist : p'.hist = p.hist)
    (htasks : ∀ i, p.tasks i ≠ .unread → p'.tasks i ≠ .unread)
    (hprinted : ∀ i reply, .printed i reply ∈ p'.trace → .printed i reply ∈ p.trace)
    (horder : ∀ i j reply, p.tasks i ≠ .unread → Precedes p'.trace (.printed j reply) (.read i) →
      Precedes p.trace (.printed j reply) (.read i)) : Mirrors routing store p' s where
  reached := h.reached
  node := hinner ▸ h.node
  txns := hinner ▸ h.txns
  hist := hhist ▸ h.hist
  made := h.made
  ended := h.ended
  called i txId hi := htasks i (h.called i txId hi)
  printed i reply hi hcalls := h.printed i reply (hprinted i reply hi) hcalls
  order i j reply txId hp hcalls hi :=
    h.order i j reply txId (horder i j reply (h.called i txId hi) hp) hcalls hi

/-- **A step of a call.** -/
theorem Mirrors.ran (h : Mirrors routing store p s) {i : x.Req} {c : Choice} {r : TxnStep}
    (hrun : p.tasks i = .running) (hr : stepTxn p.inner.node (p.inner.txns i) c = some r) :
    Mirrors routing store (p.afterRun i r) (s.after i r) := by
  have hstep : s.step (i, c) = some (s.after i r) := by
    simp only [SingleNode.step, h.node, h.txns, hr, Option.map_some]
    rw [SingleNode.after, h.txns]
  have hs := stepTxn_spec hr
  have hkept : ∀ j e, (j, e) ∈ s.hist → (j, e) ∈ (s.after i r).hist := fun j e he =>
    SingleNode.mem_after_hist.mpr (.inl he)
  refine ⟨h.reached.tail trivial hstep, rfl, ?_, ?_, fun j hj => ?_, fun j results hj => ?_,
    fun j txId hj => ?_, fun j reply hj hcalls => ?_, fun j k reply txId hp hcalls hj => ?_⟩
  · show Function.update s.txns i r.thread = Function.update p.inner.txns i r.thread
    rw [h.txns]
  · show s.hist ++ _ = p.hist ++ _
    rw [h.hist]
  · rcases eq_or_ne j i with rfl | hne
    · by_cases hidle : (s.txns j).pc = .idle
      · rw [h.txns] at hidle
        refine ⟨r.thread.txId, SingleNode.mem_after_hist.mpr (.inr ⟨rfl, ?_⟩)⟩
        cases hs with
        | call _ _ => rfl
        | _ => simp_all
      · obtain ⟨txId, hmem⟩ := h.made j hidle
        exact ⟨txId, hkept _ _ hmem⟩
    · rw [SingleNode.after_txns_of_ne s hne] at hj
      obtain ⟨txId, hmem⟩ := h.made j hj
      exact ⟨txId, hkept _ _ hmem⟩
  · rcases eq_or_ne j i with rfl | hne
    · rw [SingleNode.after_txns_self] at hj
      exact SingleNode.mem_after_hist.mpr (.inr ⟨rfl, hs.event_of_returned hj⟩)
    · rw [SingleNode.after_txns_of_ne s hne] at hj
      exact hkept _ _ (h.ended j results hj)
  · rcases SingleNode.mem_after_hist.mp hj with hold | ⟨rfl, -⟩
    · exact h.called j txId hold
    · show p.tasks j ≠ .unread
      simp [hrun]
  · obtain ⟨m, results, hm, hret, hreply⟩ := h.printed j reply hj hcalls
    exact ⟨m, results, hm, hkept _ _ hret, hreply⟩
  · rcases SingleNode.mem_after_hist.mp hj with hold | ⟨rfl, hevent⟩
    · obtain ⟨results, hprec⟩ := h.order j k reply txId hp hcalls hold
      exact ⟨results, hprec.append_right _⟩
    · -- the call is made now, and the other one has returned
      obtain ⟨-, results, -, hret, -⟩ := h.printed k reply hp.mem_left hcalls
      refine ⟨results, ?_⟩
      rw [SingleNode.after, hevent]
      exact precedes_concat hret _

/-- **A reply is printed.** -/
theorem Mirrors.replied (h : Mirrors routing store p s) (hcoord : routing.coordinator = none)
    {i : x.Req} {m reply : Maelstrom.Message} (hm : x.message i = some m)
    (hreply : p.replyOf i m = some reply) :
    Mirrors routing store { p with tasks := Function.update p.tasks i .answered
                                   trace := p.trace ++ [.printed i reply] } s := by
  refine ⟨h.reached, h.node, h.txns, h.hist, h.made, h.ended, fun j txId hj => ?_,
    fun j reply' hj hcalls => ?_, fun j k reply' txId hp hcalls hj => ?_⟩
  · rcases eq_or_ne j i with rfl | hne
    · simp only [Function.update_self]
      simp
    · simp only [Function.update_of_ne hne]
      exact h.called j txId hj
  · rw [List.mem_append, List.mem_singleton] at hj
    rcases hj with hold | hnew
    · exact h.printed j reply' hold hcalls
    · obtain ⟨rfl, rfl⟩ := WireEvent.printed.inj hnew
      obtain ⟨htype, htx⟩ := hcalls
      obtain ⟨tx, htx⟩ := Option.isSome_iff_exists.mp htx
      simp only [hm, Option.map_some, Option.some.injEq] at htype
      have hne : m.type ≠ "echo" := by simp [htype]
      simp only [replyOf, if_neg hne, htx] at hreply
      obtain ⟨outcome, hout, hreply⟩ := Option.bind_eq_some_iff.mp hreply
      -- a node on its own does not throw
      have halone := (SingleNode.alonePc_of_reachable hcoord h.reached).2 j
      unfold TxnThread.outcome at hout
      split at hout
      · rename_i results hpc
        rw [Option.some.injEq] at hout
        subst hout
        exact ⟨m, results, hm, h.ended j results (by rw [h.txns, hpc]), hreply⟩
      · rename_i hpc
        rw [h.txns, hpc] at halone
        exact absurd halone (by simp [SingleNode.AlonePc])
      · exact absurd hout (by simp)
  · exact h.order j k reply' txId (hp.of_append_right (by simp)) hcalls hj

/-- **Every step of the process is one of the history, or none.** -/
theorem exists_mirrors_step (h : Mirrors routing store p s) (hcoord : routing.coordinator = none)
    (hinv : Inv p) (halone : Alone p l) (hs : Stepped p l p') :
    ∃ s', Mirrors routing store p' s' := by
  cases hs with
  | @posted i m hi hm hreg =>
    have hunread : p.tasks i = .unread := by
      have hacc := hinv.accounted i
      unfold Accounted at hacc
      split at hacc
      · assumption
      all_goals omega
    refine ⟨s, h.of_same rfl rfl (fun j hj => ?_) (fun j reply hj => ?_) fun j k reply hj hp => ?_⟩
    · simp only [goOn]
      rcases eq_or_ne j i with rfl | hne
      · simp
      · rwa [Function.update_of_ne hne]
    · simpa [goOn] using hj
    · have hne : (WireEvent.read j : WireEvent x.Req) ≠ .read i := by
        intro e
        rw [WireEvent.read.injEq] at e
        exact hj (e ▸ hunread)
      exact hp.of_append_right hne
  | stage _ => exact ⟨s, h.of_same rfl rfl (fun _ hj => hj) (fun _ _ hj => hj) fun _ _ _ _ hp => hp⟩
  | @begun i hq =>
    refine ⟨s, h.of_same rfl rfl (fun j hj => ?_) (fun _ _ hj => hj) fun _ _ _ _ hp => hp⟩
    dsimp only
    rcases eq_or_ne j i with rfl | hne
    · simp
    · rwa [Function.update_of_ne hne]
  | ran hrun _ _ _ hr => exact ⟨_, h.ran hrun hr⟩
  | replied _ hm hreply => exact ⟨s, h.replied hcoord hm hreply⟩
  | received _ => exact halone.elim
  | handled _ => exact halone.elim

end Mirror

/-! ## 2. Strict serializability on the wire -/

/-- **`order` explains what has been printed.**  `ran i` is what request `i` has executed so far. -/
structure WireSerialization (store : ThreadSafeKVStore) (p : Process x) (order : List x.Req)
    (ran : x.Req → Transaction) : Prop where
  nodup : order.Nodup
  read : ∀ i ∈ order, .read i ∈ p.trace ∧ x.Calls i
  ran_isPrefix : ∀ i, ran i <+: x.txs i
  /-- The store is that of the serial execution. -/
  store_eq : p.inner.node.store = SingleNode.runSerially store (order.map ran)
  /-- The reply to a request whose locks were not given up is that of the serial execution, with the
  whole transaction executed. -/
  replies : ∀ i reply, .printed i reply ∈ p.trace → x.Calls i → (i, .aborted) ∉ p.hist →
    ∃ m before behind, x.message i = some m ∧ order = before ++ i :: behind ∧ ran i = x.txs i ∧
      handleReply m (some (SingleNode.runAlone
        (SingleNode.runSerially store (before.map ran)) (x.txs i)).2) = some reply
  /-- One whose locks were given up has executed nothing and is answered as if it had returned
  nothing; and another request with a common key has been read. -/
  givenUp : ∀ i, (i, .aborted) ∈ p.hist → i ∉ order ∧ ran i = [] ∧
    (∀ reply, .printed i reply ∈ p.trace →
      ∃ m, x.message i = some m ∧ handleReply m (some []) = some reply) ∧
    ∃ j, j ≠ i ∧ .read j ∈ p.trace ∧ x.Calls j ∧
      ∃ op ∈ x.txs i, ∃ op' ∈ x.txs j, op.key = op'.key
  /-- A request that was answered before another one was read comes first. -/
  realtime : ∀ before i behind, order = before ++ i :: behind → ∀ j ∈ behind, ∀ reply,
    ¬ Precedes p.trace (.printed j reply) (.read i)

/-- Whoever has made a call has been read. -/
theorem Inv.read_of_called {p : Process x} (h : Inv p) {i : x.Req}
    (hi : (p.inner.txns i).pc ≠ .idle) : .read i ∈ p.trace ∧ x.Calls i := by
  refine ⟨?_, h.called i hi⟩
  have hacc := h.accounted i
  unfold Accounted at hacc
  split at hacc
  · exact absurd hacc.2.2 hi
  · exact hacc.2.1
  · exact hacc.2.1
  · obtain ⟨-, -, line, m, reply, -, -, -, -, hprec⟩ := hacc
    exact hprec.mem_left

open SingleNode StrictTwoPhase in
/-- A history explains what has been printed. -/
theorem Mirrors.exists_wireSerialization {routing : Routing} {store : ThreadSafeKVStore}
    {p : Process x} {s : SingleNode x.Req} (h : Mirrors routing store p s) (hinv : Inv p)
    (hcard : x.lines.length < 2 ^ 64) (hcoord : routing.coordinator = none) :
    ∃ order ran, WireSerialization store p order ran := by
  obtain ⟨a, order, hR, ha⟩ := exists_rel (by simpa using hcard) hcoord h.reached
  have hgive := giveUpInv_of_reachable hcoord h.reached
  have hlocked : ∀ i, i ∈ order ↔ (i, .locked) ∈ s.hist := fun i =>
    (ha.mem_iff i).trans (hR.locked i).symm
  have hmem : ∀ i ∈ order, (p.inner.txns i).pc ≠ .idle := by
    intro i hi hidle
    have hm := hR.thread i
    rw [h.txns] at hm
    simp only [Matches, hidle] at hm
    have hst := (ha.mem_iff i).mp hi
    simp [hm.1, Status.locked] at hst
  refine ⟨order, a.ran, ha.nodup, fun i hi => hinv.read_of_called (hmem i hi), ha.ran_prefix, ?_,
    ?_, fun i hi => ?_, ?_⟩
  · rw [← h.node, hR.store, ha.store_eq, runSerially_map]
    rfl
  · intro i reply hi hcalls hkept
    obtain ⟨m, results, hm, hret, hreply⟩ := h.printed i reply hi hcalls
    have hpc := hR.returned i results hret
    have hi : i ∈ order := (hlocked i).mpr
      ((hgive.decided i (by rw [hpc]; rfl)).resolve_right (h.hist ▸ hkept))
    have hthread := hR.thread i
    simp only [Matches, hpc] at hthread
    rcases hthread with ⟨hst, hres⟩ | ⟨hst, -⟩
    · obtain ⟨before, behind, hord⟩ := List.append_of_mem hi
      refine ⟨m, before, behind, hm, hord, ha.ran_all i (.inr hst), ?_⟩
      rw [← hreply, hres, ha.obs_eq before i behind hord, runSerially_map, runAlone_eq,
        ha.ran_all i (.inr hst)]
      rfl
    · have := (ha.mem_iff i).mp hi
      simp [hst, Status.locked] at this
  · rw [← h.hist] at hi
    have hun : (a.status i).locked = false := by
      rcases hR.aborted i hi with hst | hst <;> simp [hst, Status.locked]
    obtain ⟨j, hji, hj, hops⟩ := hgive.contested i hi
    rw [h.txns] at hj
    obtain ⟨hread, hcalls⟩ := hinv.read_of_called hj
    refine ⟨fun hmem => ?_, (ha.ran_nil i hun).1, fun reply hprinted => ?_, j, hji, hread, hcalls,
      by simpa only [hR.tx] using hops⟩
    · have := (ha.mem_iff i).mp hmem
      simp [hun] at this
    · have hcalled : (p.inner.txns i).pc ≠ .idle := by
        intro hidle
        have hm := hR.thread i
        rw [h.txns] at hm
        simp only [Matches, hidle] at hm
        rcases hR.aborted i hi with hst | hst <;> simp [hm.1] at hst
      obtain ⟨m, results, hm, hret, hreply⟩ :=
        h.printed i reply hprinted (hinv.read_of_called hcalled).2
      have hthread := hR.thread i
      simp only [Matches, hR.returned i results hret] at hthread
      rcases hthread with ⟨hst, -⟩ | ⟨-, hres⟩
      · simp [hst, Status.locked] at hun
      · exact ⟨m, hm, hres ▸ hreply⟩
  · intro before i behind hord j hj reply hp
    have hi : i ∈ order := by simp [hord]
    have hj' : j ∈ order := by simp [hord, hj]
    obtain ⟨txId, hcalled⟩ := h.made i (by rw [h.txns]; exact hmem i hi)
    obtain ⟨results, hprec⟩ :=
      h.order i j reply txId hp (hinv.read_of_called (hmem j hj')).2 hcalled
    refine ha.realtime before i behind hord j hj ?_
    rw [hR.hist]
    exact hprec.filterMap rfl rfl

/-- After the first line, with no other node in it. -/
theorem mirrors_boot {hash : KeyType → UInt64} {g : NodeID} {store : ThreadSafeKVStore}
    {first response : Maelstrom.Message} {p : Process x}
    (h : boot hash g store x first = some (p, response)) (hpeers : p.main.peerIds = []) :
    ∃ routing, routing.coordinator = none ∧
      Mirrors routing store p (SingleNode.initial routing store x.txs) := by
  unfold boot at h
  split at h
  · obtain ⟨⟨main, reply⟩, -, heq⟩ := Option.map_eq_some_iff.mp h
    obtain ⟨rfl, -⟩ := Prod.mk.inj heq
    refine ⟨startedRouting hash g main, ?_, .refl, rfl, rfl, rfl, fun i hi => absurd rfl hi,
      fun i results hi => absurd hi (by simp [SingleNode.initial, TxnThread.fresh]),
      fun i txId hi => absurd hi (by simp [SingleNode.initial]),
      fun i reply hi => absurd hi (by simp), fun i j reply txId hp => absurd hp.mem_left (by simp)⟩
    dsimp only at hpeers
    unfold startedRouting
    rw [hpeers]
    split
    · rename_i hstart
      exact start_nil_coordinator hstart
    · rfl
  · exact absurd h (by simp)

/-- **What the program prints is strictly serializable.**  A process that has been initialized
without peers, any lines, any constructor of transactions, any order in which the pool does its
work: the replies printed so far and the store are those of a serial execution, in an order that
respects which reply was printed before which line was read. -/
theorem exists_wireSerialization (hcard : x.lines.length < 2 ^ 64) {hash : KeyType → UInt64}
    {g : NodeID} {store : ThreadSafeKVStore} {first response : Maelstrom.Message}
    {p₀ p : Process x} (hboot : boot hash g store x first = some (p₀, response))
    (hpeers : p₀.main.peerIds = []) (hr : Run step Alone p₀ p) :
    ∃ order ran, WireSerialization store p order ran := by
  obtain ⟨routing, hcoord, h₀⟩ := mirrors_boot hboot hpeers
  have hmirror : Inv p ∧ ∃ s, Mirrors routing store p s := by
    refine Run.invariant (I := fun q => Inv q ∧ ∃ s, Mirrors routing store q s) hr
      ⟨inv_boot hboot, _, h₀⟩ ?_
    rintro q l q' ⟨hq, s, hs⟩ halone hstep
    have hstepped := stepped_of_step hq.initialized hstep
    exact ⟨inv_step hq hstepped, exists_mirrors_step hs hcoord hq halone hstepped⟩
  obtain ⟨hinv, s, hs⟩ := hmirror
  exact hs.exists_wireSerialization hinv hcard hcoord

/-- From `echoFirst` on, until all three are answered. -/
def thenBoth : List (ProcessLabel threeRequests) :=
  [.run writing {}, .run writing {}, .run writing { keys := [1] }, .run writing {},
    .run writing {}, .run writing {}, .reply writing, .run reading {}, .run reading {},
    .run reading {}, .run reading {}, .run reading { keys := [1] }, .run reading {},
    .run reading {}, .run reading {}, .read, .reply reading]

instance (p : Process x) : (l : ProcessLabel x) → Decidable (Alone p l)
  | .read | .stop | .begin _ | .run _ _ | .reply _ => .isTrue trivial
  | .receive _ _ | .handle _ _ => .isFalse id

end Process

end TwoPL
