/-
# Is a `txn_ok` true?

Requests handled concurrently by one node on its own (`SingleNode`), each by its own call of
`TransactionMessageHandler::handle`.  `handle` answers `txn_ok` whenever `execute_transaction`
RETURNS; and that function returns an empty vector both for a transaction without reads and for
one whose locks it could not get.

A reply is `Truthful` when the operations of its request have been executed, each once and in
order, and every read slot holds what that read saw.  `txn_ok_truthful_iff`: the reply to a
request is truthful exactly when the polls of its lock acquisitions did not run out.  A run in
which they do is `exhaustedRun`.

That an executed operation has really changed, or read, the store is `replay`: the events of the
history, replayed from the initial store, give the present one, and every recorded outcome is
what the store held at that moment.
-/
import TwoPL.MessageHandler
import TwoPL.SingleNode

namespace TwoPL

open Lib

namespace SingleNode

variable {ι : Type*} [DecidableEq ι]

/-! ## 1. The history, replayed -/

/-- The store after the operations of a history, when each outcome on record is the one it gives;
a node on its own executes no operation remotely. -/
def replay (store : ThreadSafeKVStore) : List (ι × TxnEvent) → Option ThreadSafeKVStore
  | [] => some store
  | (_, .ran op (.local result)) :: hist =>
    if (NaiveOpExecutor.accept store op).2 = result then
      replay (NaiveOpExecutor.accept store op).1 hist
    else none
  | (_, .ran _ (.remote _)) :: _ => none
  | _ :: hist => replay store hist

omit [DecidableEq ι] in
theorem replay_append (store : ThreadSafeKVStore) (hist hist' : List (ι × TxnEvent)) :
    replay store (hist ++ hist') = (replay store hist).bind fun store' => replay store' hist' := by
  fun_induction replay store hist with
  | case1 store => rfl
  | case2 store j op hist ih => simpa [replay] using ih
  | case3 store j op result hist hne => simp [replay, hne]
  | case4 store j op result hist => rfl
  | case5 store e hist hlocal hremote ih =>
    rw [← ih]
    obtain ⟨j, e⟩ := e
    cases e with
    | ran op outcome =>
      cases outcome with
      | «local» result => exact absurd rfl (hlocal j op result)
      | remote result => exact absurd rfl (hremote j op result)
    | _ => rfl

omit [DecidableEq ι] in
/-- Every operation of a history that can be replayed was local, and an append obtained
nothing. -/
theorem fits_of_replay {store store' : ThreadSafeKVStore} {hist : List (ι × TxnEvent)}
    (h : replay store hist = some store') {i : ι} {op : Operation} {outcome : Outcome}
    (hmem : (i, .ran op outcome) ∈ hist) : Fits (op, .local) outcome := by
  fun_induction replay store hist with
  | case1 store => simp at hmem
  | case2 store j op' hist ih =>
    rcases List.mem_cons.mp hmem with heq | hmem
    · simp only [Prod.mk.injEq, TxnEvent.ran.injEq] at heq
      obtain ⟨-, rfl, rfl⟩ := heq
      refine ⟨rfl, fun htype => ?_⟩
      cases op with
      | read k => exact absurd htype (by simp [Operation.type])
      | append k v => rfl
    · exact ih h hmem
  | case3 store j op' result hist hne => simp at h
  | case4 store j op' result hist => simp at h
  | case5 store e hist hlocal hremote ih =>
    rcases List.mem_cons.mp hmem with rfl | hmem
    · cases outcome with
      | «local» result => exact absurd rfl (hlocal i op result)
      | remote result => exact absurd rfl (hremote i op result)
    · exact ih h hmem

/-! ## 2. What a run keeps -/

theorem eventsOf_after (w : SingleNode ι) (i j : ι) (r : TxnStep) :
    eventsOf (w.after i r).hist j
      = eventsOf w.hist j ++ if j = i then r.event.toList else [] := by
  rw [show (w.after i r).hist = w.hist ++ r.event.toList.map (Prod.mk i) from rfl,
    eventsOf_append]
  split
  · rename_i hj
    rw [hj, eventsOf_map_self]
  · rename_i hj
    rw [eventsOf_map_of_ne _ hj]

/-- A call of a node on its own is never in one of the remote stages of phase 2. -/
def NoRemoteOp : Pc → Prop
  | .opSending _ _ _ | .opChecking _ _ _ | .opWaiting _ _ _ | .opRetrieving _ _ _ => False
  | _ => True

/-- What a run of a node on its own keeps. -/
structure Replayable (store₀ : ThreadSafeKVStore) (txs : ι → Transaction) (w : SingleNode ι) :
    Prop where
  coordinator : w.node.routing.coordinator = none
  tx : ∀ i, (w.txns i).tx = txs i
  noRemoteOp : ∀ i, NoRemoteOp (w.txns i).pc
  replay : replay store₀ w.hist = some w.node.store
  traced : ∀ i, Traced (w.txns i) (eventsOf w.hist i)

omit [DecidableEq ι] in
/-- One step on its own: the operation it records is one the store has seen. -/
theorem replay_step {n : Node} {t : TxnThread} {c : Choice} {r : TxnStep}
    (hs : TxnStepped n t c r) (hn : n.routing.coordinator = none) (hpc : NoRemoteOp t.pc) (i : ι) :
    NoRemoteOp r.thread.pc ∧
      replay n.store (r.event.toList.map (Prod.mk i)) = some r.node.store := by
  cases hs with
  | ranLocal _ _ => exact ⟨trivial, by simp [SingleNode.replay]⟩
  | opBegin _ hremote _ => exact absurd (primary_of_coordinator_none hn _) hremote
  | opThrew h _ => rw [h] at hpc; exact hpc.elim
  | opSent h _ => rw [h] at hpc; exact hpc.elim
  | opChecked h => rw [h] at hpc; exact hpc.elim
  | opAnswered h => rcases h with h | h <;> (rw [h] at hpc; exact hpc.elim)
  | opTimedOut h => rw [h] at hpc; exact hpc.elim
  | opSleptOn h => rw [h] at hpc; exact hpc.elim
  | opRetrieved h => rw [h] at hpc; exact hpc.elim
  | sleptOn _ _ _ _ => exact ⟨hpc, rfl⟩
  | @aborting stage _ _ _ _ =>
    refine ⟨trivial, ?_⟩
    cases stage with
    | take => rfl
    | releasing keys => cases keys <;> rfl
  | @releasing stage _ _ _ _ _ _ =>
    refine ⟨trivial, ?_⟩
    cases stage with
    | take => rfl
    | releasing keys => cases keys <;> rfl
  | _ => exact ⟨trivial, rfl⟩

theorem replayable_step {store₀ : ThreadSafeKVStore} {txs : ι → Transaction}
    {w w' : SingleNode ι} {l : ι × Choice} (h : Replayable store₀ txs w)
    (hstep : w.step l = some w') : Replayable store₀ txs w' := by
  obtain ⟨r, hs, rfl⟩ := step_spec hstep
  obtain ⟨hpc, hreplay⟩ := replay_step hs h.coordinator (h.noRemoteOp l.1) l.1
  refine ⟨?_, fun j => ?_, fun j => ?_, ?_, fun j => ?_⟩
  · show r.node.routing.coordinator = none
    rw [hs.routing_eq, h.coordinator]
  · by_cases hj : j = l.1
    · rw [hj, after_txns_self, hs.tx_eq, h.tx]
    · rw [after_txns_of_ne w hj, h.tx]
  · by_cases hj : j = l.1
    · rw [hj, after_txns_self]; exact hpc
    · rw [after_txns_of_ne w hj]; exact h.noRemoteOp j
  · show replay store₀ (w.hist ++ _) = some r.node.store
    rw [replay_append, h.replay]
    exact hreplay
  · rw [eventsOf_after]
    by_cases hj : j = l.1
    · subst hj
      rw [after_txns_self, if_pos rfl]
      exact traced_step (h.traced l.1) hs
    · rw [after_txns_of_ne w hj, if_neg hj, List.append_nil]
      exact h.traced j

theorem replayable_of_reachable {hash : KeyType → UInt64} {g : NodeID} {nodeID : String}
    {routing : Routing} (hstart : start hash (.fresh g) nodeID [] = .ok routing)
    {store₀ : ThreadSafeKVStore} {txs : ι → Transaction} {w : SingleNode ι}
    (hr : Reachable step (initial routing store₀ txs) w) : Replayable store₀ txs w :=
  hr.invariant
    ⟨start_nil_coordinator hstart, fun _ => rfl, fun _ => trivial, rfl,
      fun i => traced_fresh (txs i)⟩
    fun _ _ _ h _ hs => replayable_step h hs

/-! ## 3. Truthful replies -/

/-- The reply to request `i`, once its call has come to an end. -/
def replyOf (requests : ι → TxnRequest) (w : SingleNode ι) (i : ι) : Option Maelstrom.Message :=
  match (w.txns i).pc with
  | .returned results => handleReply (requests i).message (some results)
  | .threw => handleReply (requests i).message none
  | _ => none

/-- Every operation of the request has been executed, once and in the request's order, and every
read slot of the reply holds the value that read saw. -/
structure Truthful (request : TxnRequest) (events : List TxnEvent) (reply : Maelstrom.Message) :
    Prop where
  executed : (ranEvents events).map Prod.fst = request.transaction
  slots : ∀ (j : Nat) (key : KeyType) (slot : Json) (outcome : Outcome),
    request.ops[j]? = some (.read key slot) →
    (ranEvents events)[j]? = some (.read key, outcome) →
    replySlot reply.body j = some (slotJson outcome.value)

omit [DecidableEq ι] in
theorem aligned_local (tx : Transaction) : Aligned (tx.map fun op => (op, .local)) := by
  induction tx with
  | nil => trivial
  | cons op tx ih => cases op <;> exact ih

omit [DecidableEq ι] in
/-- Local operations get their own slots. -/
theorem ownSlots_of_local {request : TxnRequest} {ran : List (Operation × Outcome)}
    (hran : ran.map Prod.fst = request.transaction)
    (hfits : ∀ x ∈ ran, Fits (x.1, .local) x.2) : OwnSlots request (ran.map Prod.snd) := by
  have hlen : (ran.map Prod.snd).length = request.ops.length := by
    have := congrArg List.length hran
    simpa [TxnRequest.transaction] using this
  have hf : List.Forall₂ Fits (request.transaction.map fun op => (op, .local))
      (ran.map Prod.snd) := by
    rw [← hran, List.map_map, List.forall₂_map_left_iff, List.forall₂_map_right_iff]
    exact List.forall₂_same.mpr hfits
  rw [ownSlots_iff_own hlen]
  have hfst : (Prod.fst ∘ fun op : Operation => (op, Fate.local)) = id := rfl
  have := own_of_aligned hf (aligned_local _)
  rwa [withOutcomes, List.map_map, hfst, List.map_id] at this

/-- **When a `txn_ok` is true.**  Requests handled concurrently by a node without peers, any store
and any interleaving: a request that is answered `txn_ok` is answered truthfully if and only if
no lock acquisition of it was given up.  The operations on record are those the store has seen. -/
theorem txn_ok_truthful_iff {hash : KeyType → UInt64} {g : NodeID} {nodeID : String}
    {routing : Routing} (hstart : start hash (.fresh g) nodeID [] = .ok routing)
    (store₀ : ThreadSafeKVStore) (requests : ι → TxnRequest) {w : SingleNode ι}
    (hr : Reachable step (initial routing store₀ fun i => (requests i).transaction) w) :
    replay store₀ w.hist = some w.node.store ∧
      ∀ i reply, replyOf requests w i = some reply → reply.type = "txn_ok" →
        (Truthful (requests i) (eventsOf w.hist i) reply ↔ (i, .aborted) ∉ w.hist) := by
  have h := replayable_of_reachable hstart hr
  refine ⟨h.replay, fun i reply hreply htype => ?_⟩
  unfold replyOf at hreply
  split at hreply
  · rename_i results hpc
    obtain ⟨body, hbody, -⟩ := createReply_spec (requests i) results
    simp only [handleReply, Option.bind_some, hbody] at hreply
    have htrace := (h.traced i).returned hpc
    rw [h.tx i] at htrace
    constructor
    · -- an aborted request has a transaction, and has executed nothing of it
      intro htrue hab
      rw [if_pos (mem_eventsOf.mpr hab)] at htrace
      have hexec := htrue.executed
      rw [htrace.2.1] at hexec
      exact htrace.1 hexec.symm
    · intro hab
      rw [if_neg (fun hmem => hab (mem_eventsOf.mp hmem))] at htrace
      obtain ⟨hran, hres⟩ := htrace
      have hfits : ∀ x ∈ ranEvents (eventsOf w.hist i), Fits (x.1, .local) x.2 := by
        intro x hx
        obtain ⟨e, he, hex⟩ := List.mem_filterMap.mp hx
        cases e with
        | ran op outcome =>
          simp only [ranEvent, Option.some.injEq] at hex
          subst hex
          exact fits_of_replay h.replay (mem_eventsOf.mp he)
        | _ => exact absurd hex (by simp [ranEvent])
      obtain ⟨body', hbody', hslots⟩ := ownSlots_of_local hran hfits
      have hzip : (requests i).transaction.zip ((ranEvents (eventsOf w.hist i)).map Prod.snd)
          = ranEvents (eventsOf w.hist i) := by
        rw [← hran]
        exact (List.zip_of_prod rfl rfl).symm
      rw [hzip, ← hres, hbody, Option.some.injEq] at hbody'
      subst hbody'
      refine ⟨hran, fun j key slot outcome hop hout => ?_⟩
      have hslot := hslots j key slot outcome hop (by simp [hout])
      obtain ⟨m, hm, -, hmtxn⟩ := Maelstrom.Message.make_reply_body
        (requests i).message.recipient (requests i).message.sender "txn_ok" body
        (requests i).message.msgId (by decide : "txn" ≠ "type" ∧ "txn" ≠ _ ∧ "txn" ≠ _)
      rw [hm, Option.some.injEq] at hreply
      subst hreply
      simpa only [replySlot, hmtxn] using hslot
  · -- a call that threw is answered with an error
    have htype' : reply.type = "error" := by
      simp only [handleReply, Option.bind_none, Maelstrom.Message.make, Option.isSome_none,
        Bool.false_eq_true, false_and, if_false, Option.some.injEq] at hreply
      rw [← hreply]
    rw [htype] at htype'
    exact absurd htype' (by decide)
  · exact absurd hreply (by simp)

/-- The requests of a writer and a reader of key 1. -/
def writerReaderRequests : Bool → TxnRequest
  | false => .ofOps [.append 1 7]
  | true => .ofOps [.read 1 .null]

theorem txn_ok_truthful_contended :
    ∃ (w : SingleNode Bool) (reply : Maelstrom.Message),
      Reachable step
        (initial aloneRouting emptyStore fun i => (writerReaderRequests i).transaction) w ∧
      replyOf writerReaderRequests w true = some reply ∧ reply.type = "txn_ok" ∧
      Truthful (writerReaderRequests true) (eventsOf w.hist true) reply := by
  have hstart : start (fun key => key.toUInt64) (.fresh 0) "n0" [] = .ok aloneRouting := by rfl
  have hrun : ((runLabels step
      (initial aloneRouting emptyStore fun i => (writerReaderRequests i).transaction)
      contendedRun).map fun w => decide ((w.txns true).pc = .returned [(1, some [7])] ∧
        (true, .aborted) ∉ w.hist)) = some true := by
    decide +kernel
  obtain ⟨w, hw, hfacts⟩ := Option.map_eq_some_iff.mp hrun
  obtain ⟨hpc, hab⟩ := of_decide_eq_true hfacts
  have hr := reachable_of_runLabels _ hw
  have hreply : ∃ reply, replyOf writerReaderRequests w true = some reply ∧
      reply.type = "txn_ok" := by
    simp only [replyOf, hpc]
    exact ⟨_, rfl, rfl⟩
  obtain ⟨reply, hreply, htype⟩ := hreply
  exact ⟨w, reply, hr, hreply, htype,
    ((txn_ok_truthful_iff hstart emptyStore writerReaderRequests hr).2 true reply hreply htype).mpr
      hab⟩

/-- Two requests to append to key 1. -/
def twoAppends : Bool → TxnRequest
  | false => .ofOps [.append 1 7]
  | true => .ofOps [.append 1 8]

/-- Request `false` gets the lock; request `true` is called and reaches its first poll. -/
def firstPoll : List (Bool × Choice) :=
  [(false, { keys := [1] }), (false, {}), (false, {}), (false, {}), (true, { keys := [1] }),
    (true, {}), (true, {})]

/-- The end of a call that has given up on key 1. -/
def givenUp : List (Bool × Choice) := [(true, { keys := [1] }), (true, {}), (true, {})]

/-- All 1500 polls of request `true` find the key taken. -/
def exhaustedRun : List (Bool × Choice) :=
  firstPoll ++ List.replicate (maxSpins + maxYields) (true, ({} : Choice)) ++ givenUp

/-- **An aborted transaction is answered `txn_ok`.**  Nothing of request `true` has been executed,
and its append has not been applied. -/
theorem aborted_answered_ok :
    ∃ (w : SingleNode Bool) (reply : Maelstrom.Message),
      start (fun key => key.toUInt64) (.fresh 0) "n0" [] = .ok aloneRouting ∧
      Reachable step (initial aloneRouting emptyStore fun i => (twoAppends i).transaction) w ∧
      replyOf twoAppends w true = some reply ∧ reply.type = "txn_ok" ∧
      (true, .aborted) ∈ w.hist ∧ w.node.store.get 1 = none ∧
      ¬ Truthful (twoAppends true) (eventsOf w.hist true) reply := by
  have hrun : ((runLabels step
      (initial aloneRouting emptyStore fun i => (twoAppends i).transaction) exhaustedRun).map
      fun w => decide ((w.txns true).pc = .returned [] ∧ (true, .aborted) ∈ w.hist ∧
        w.node.store.get 1 = none ∧ ranEvents (eventsOf w.hist true) = [])) = some true := by
    decide +kernel
  obtain ⟨w, hw, hfacts⟩ := Option.map_eq_some_iff.mp hrun
  obtain ⟨hpc, hab, hget, hran⟩ := of_decide_eq_true hfacts
  have hreply : ∃ reply, replyOf twoAppends w true = some reply ∧ reply.type = "txn_ok" := by
    simp only [replyOf, hpc]
    exact ⟨_, rfl, rfl⟩
  obtain ⟨reply, hreply, htype⟩ := hreply
  refine ⟨w, reply, rfl, reachable_of_runLabels _ hw, hreply, htype, hab, hget, fun htrue => ?_⟩
  have hexec := htrue.executed
  rw [hran] at hexec
  exact absurd hexec (by simp [twoAppends, TxnRequest.transaction, TxnRequest.ofOps])

end SingleNode

end TwoPL
