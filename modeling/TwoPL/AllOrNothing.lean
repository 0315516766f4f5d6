/-
# All or nothing?

Phase 2 runs the operations one by one, the local ones on the node's own store and the others by a
request to the key's primary.  A request can be lost: its `send` throws, or it is never delivered.
`execute_remote_operation` returns `nullopt` then, and the loop goes ON with the next operation, as
it does after a timeout.  Nothing is ever undone.

So what is applied is what is not lost.  This is a law of conservation (`conserved`): in every
state of every run, each operation that the call has begun has been executed exactly once, at the
primary of its key and nowhere else, or is lost, or is under way.  `all_or_nothing_iff` reads off
when the outcome is all or nothing: when no append is lost, or all of them are.

`store_eq_replay` ties the history to the stores: the store of a node is what the operations
recorded for it make of the initial one.
-/
import TwoPL.Cluster

namespace TwoPL

open Lib

/-! ## 1. Executed, lost, under way -/

/-- The operation that a request carries. -/
def Message.operation? : Message → Option Operation
  | .opReq _ op => some op
  | _ => none

theorem Message.servedEvent_eq (msg : Message) (dest : NodeID) :
    msg.servedEvent dest = msg.operation?.map (CallEvent.served dest) := by
  cases msg <;> rfl

theorem Message.IsResponse.operation?_eq {msg : Message} (h : msg.IsResponse) :
    msg.operation? = none := by
  cases msg with
  | opReq _ _ => exact h.elim
  | _ => rfl

/-- An operation that the call executed on its own node. -/
def TxnEvent.ranLocally : TxnEvent → Option Operation
  | .ran op (.local _) => some op
  | _ => none

/-- An operation that was executed, and where.  `o` is the node of the call. -/
def CallEvent.executed (o : NodeID) : CallEvent → Option (NodeID × Operation)
  | .own e => e.ranLocally.map (Prod.mk o)
  | .served p op => some (p, op)
  | .lost _ => none

/-- An operation whose request was lost. -/
def CallEvent.lostOp : CallEvent → Option Operation
  | .lost msg => msg.operation?
  | _ => none

/-- The packet carries this operation of this call. -/
def Packet.carries {ι : Type*} [DecidableEq ι] (i : ι) (op : Operation) (q : Packet ι) : Bool :=
  q.cause = i ∧ q.msg.operation? = some op

/-- The operations that a call has not begun: executed, or tried to send.  A call that has ended
has begun all or none. -/
def Pc.Left (tx : Transaction) (rest : List Operation) : Pc → Prop
  | .executing ops _ => rest = ops
  | .opSending op ops _ => rest = op :: ops
  | .opChecking _ ops _ => rest = ops
  | .opWaiting _ ops _ => rest = ops
  | .opRetrieving _ ops _ => rest = ops
  | .releasing _ _ _ => rest = []
  | .sendingReleases _ _ _ => rest = []
  | .returned _ => rest = [] ∨ rest = tx
  | .threw => rest = [] ∨ rest = tx
  | _ => rest = tx

/-- What a step of a call does with its next operation. -/
inductive Begins (n : Node) (t : TxnThread) (c : Choice) (r : TxnStep) (op : Operation) : Prop
  /-- It executes it here. -/
  | executes : n.primary op.key = n.routing.localNodeId →
      r.event.bind TxnEvent.ranLocally = some op → r.sent = none → t.lostEvent c = none →
      Begins n t c r op
  /-- It sends it to its primary. -/
  | sends : r.event.bind TxnEvent.ranLocally = none →
      r.sent = some (n.primary op.key, .opReq t.txId op) → t.lostEvent c = none →
      Begins n t c r op
  /-- It fails to. -/
  | loses : r.event.bind TxnEvent.ranLocally = none → r.sent = none →
      t.lostEvent c = some (.lost (.opReq t.txId op)) → Begins n t c r op

/-- **A step begins the next operation, or does nothing that counts.** -/
theorem TxnStepped.left {n : Node} {t : TxnThread} {c : Choice} {r : TxnStep}
    (h : TxnStepped n t c r) {rest : List Operation} (hleft : t.pc.Left t.tx rest) :
    (∃ op rest', rest = op :: rest' ∧ r.thread.pc.Left t.tx rest' ∧ Begins n t c r op) ∨
      (r.thread.pc.Left t.tx rest ∧ t.lostEvent c = none ∧
        (∀ dest msg, r.sent = some (dest, msg) → msg.operation? = none) ∧
        r.event.bind TxnEvent.ranLocally = none) := by
  cases h with
  | @ranLocal op ops results hpc hlocal =>
    rw [hpc] at hleft
    exact .inl ⟨op, ops, hleft, rfl, .executes hlocal rfl rfl (by simp [TxnThread.lostEvent, hpc])⟩
  | @opSent op ops results hpc hth =>
    rw [hpc] at hleft
    exact .inl ⟨op, ops, hleft, rfl, .sends rfl rfl (by simp [TxnThread.lostEvent, hpc, hth])⟩
  | @opThrew op ops results hpc hth =>
    rw [hpc] at hleft
    exact .inl ⟨op, ops, hleft, rfl, .loses rfl rfl (by simp [TxnThread.lostEvent, hpc, hth])⟩
  | opAnswered hpc =>
    refine .inr ?_
    rcases hpc with hpc | hpc <;> simp_all [Pc.Left, TxnThread.goto, TxnThread.lostEvent]
  | aborting hpc hrel =>
    refine .inr ?_
    cases hrel <;> simp_all [Pc.Left, TxnThread.goto, TxnThread.lostEvent, ReleaseAllStage.event,
      TxnEvent.ranLocally]
  | releasing hpc hrel =>
    refine .inr ?_
    cases hrel <;> simp_all [Pc.Left, TxnThread.goto, TxnThread.lostEvent, ReleaseAllStage.event,
      TxnEvent.ranLocally]
  | _ =>
    refine .inr ?_
    simp_all [Pc.Left, TxnThread.goto, TxnThread.lostEvent, TxnEvent.ranLocally,
      Message.operation?]

/-- A step of a call changes the store by what it records. -/
theorem TxnStepped.store_eq {n : Node} {t : TxnThread} {c : Choice} {r : TxnStep}
    (h : TxnStepped n t c r) :
    r.node.store = opActions.execAll n.store (r.event.bind TxnEvent.ranLocally).toList := by
  cases h with
  | aborting _ hrel => cases hrel <;> rfl
  | releasing _ hrel => cases hrel <;> rfl
  | _ => rfl

namespace Cluster

variable {ι : Type*} [DecidableEq ι]

/-- The operations of a call that were executed, with the nodes that did. -/
def executed (cfg : ClusterConfig ι) (w : Cluster ι) (i : ι) : List (NodeID × Operation) :=
  (eventsOf w.hist i).filterMap (CallEvent.executed (cfg.origin i))

/-- The operations of a call that were lost. -/
def lostOps (w : Cluster ι) (i : ι) : List Operation :=
  (eventsOf w.hist i).filterMap CallEvent.lostOp

/-- How often an operation of a call is under way on a channel. -/
def inFlight (w : Cluster ι) (i : ι) (op : Operation) (ab : NodeID × NodeID) : Nat :=
  (w.channels ab).countP (Packet.carries i op)

/-! ## 2. What each step does to them -/

section Accounts

variable {cfg : ClusterConfig ι} {w : Cluster ι} {i j : ι} {op : Operation}
  {ab cd : NodeID × NodeID}

theorem eventsOf_afterTxn_self (c : Choice) (r : TxnStep) :
    eventsOf (w.afterTxn cfg i c r).hist i
      = eventsOf w.hist i ++ ((w.txns i).lostEvent c).toList ++ r.event.toList.map .own := by
  have hown : (r.event.toList.map fun e => (i, CallEvent.own e))
      = (r.event.toList.map CallEvent.own).map (Prod.mk i) := by simp
  simp only [afterTxn, eventsOf_append, hown, eventsOf_map_self]

theorem eventsOf_afterTxn_of_ne (hne : i ≠ j) (c : Choice) (r : TxnStep) :
    eventsOf (w.afterTxn cfg j c r).hist i = eventsOf w.hist i := by
  have hown : (r.event.toList.map fun e => (j, CallEvent.own e))
      = (r.event.toList.map CallEvent.own).map (Prod.mk j) := by simp
  simp only [afterTxn, eventsOf_append, hown, eventsOf_map_of_ne _ hne, List.append_nil]

theorem executed_afterTxn_self (c : Choice) (r : TxnStep) :
    executed cfg (w.afterTxn cfg i c r) i = executed cfg w i ++
      ((r.event.bind TxnEvent.ranLocally).map (Prod.mk (cfg.origin i))).toList := by
  have hlost : ((w.txns i).lostEvent c).toList.filterMap (CallEvent.executed (cfg.origin i))
      = [] := by
    unfold TxnThread.lostEvent
    split
    · split <;> rfl
    · rfl
  rw [executed, eventsOf_afterTxn_self, List.filterMap_append, List.filterMap_append, hlost,
    List.append_nil, executed]
  congr 1
  cases r.event with
  | none => rfl
  | some e => cases he : e.ranLocally <;> simp [CallEvent.executed, he]

theorem lostOps_afterTxn_self (c : Choice) (r : TxnStep) :
    lostOps (w.afterTxn cfg i c r) i
      = lostOps w i ++ (((w.txns i).lostEvent c).bind CallEvent.lostOp).toList := by
  have hown : (r.event.toList.map CallEvent.own).filterMap CallEvent.lostOp = [] := by
    cases r.event <;> rfl
  rw [lostOps, eventsOf_afterTxn_self, List.filterMap_append, List.filterMap_append, hown,
    List.append_nil, lostOps]
  congr 1
  cases he : (w.txns i).lostEvent c with
  | none => rfl
  | some e => cases hl : e.lostOp <;> simp [hl]

theorem eventsOf_afterDeliver (src dest : NodeID) (q : Packet ι) (rest : List (Packet ι))
    (n : Node) (a : Option Handler) :
    eventsOf (w.afterDeliver src dest q rest n a).hist i = eventsOf w.hist i ++
      if q.cause = i then (q.msg.operation?.map (CallEvent.served dest)).toList else [] := by
  simp only [afterDeliver, eventsOf_append, Message.servedEvent_eq]
  split
  · rename_i hq
    rw [hq, eventsOf_map_self]
  · rename_i hq
    rw [eventsOf_map_of_ne _ (Ne.symm hq)]

theorem eventsOf_afterDrop (src dest : NodeID) (pos : Nat) (q : Packet ι) :
    eventsOf (w.afterDrop src dest pos q).hist i
      = eventsOf w.hist i ++ if q.cause = i then [.lost q.msg] else [] := by
  have hlost : [(q.cause, CallEvent.lost q.msg)] = [CallEvent.lost q.msg].map (Prod.mk q.cause) :=
    rfl
  simp only [afterDrop, eventsOf_append]
  rw [hlost]
  split
  · rename_i hq
    rw [hq, eventsOf_map_self]
  · rename_i hq
    rw [eventsOf_map_of_ne _ (Ne.symm hq)]

theorem executed_afterDeliver (src dest : NodeID) (q : Packet ι) (rest : List (Packet ι))
    (n : Node) (a : Option Handler) :
    executed cfg (w.afterDeliver src dest q rest n a) i = executed cfg w i ++
      if q.cause = i then (q.msg.operation?.map (Prod.mk dest)).toList else [] := by
  rw [executed, eventsOf_afterDeliver, List.filterMap_append, executed]
  congr 1
  split
  · cases q.msg.operation? <;> rfl
  · rfl

theorem lostOps_afterDeliver (src dest : NodeID) (q : Packet ι) (rest : List (Packet ι))
    (n : Node) (a : Option Handler) :
    lostOps (w.afterDeliver src dest q rest n a) i = lostOps w i := by
  rw [lostOps, eventsOf_afterDeliver, List.filterMap_append, lostOps, List.append_right_eq_self]
  split
  · cases q.msg.operation? <;> rfl
  · rfl

theorem executed_afterDrop (src dest : NodeID) (pos : Nat) (q : Packet ι) :
    executed cfg (w.afterDrop src dest pos q) i = executed cfg w i := by
  rw [executed, eventsOf_afterDrop, List.filterMap_append, executed, List.append_right_eq_self]
  split <;> rfl

theorem lostOps_afterDrop (src dest : NodeID) (pos : Nat) (q : Packet ι) :
    lostOps (w.afterDrop src dest pos q) i = lostOps w i ++
      if q.cause = i then q.msg.operation?.toList else [] := by
  rw [lostOps, eventsOf_afterDrop, List.filterMap_append, lostOps]
  congr 1
  split
  · cases hop : q.msg.operation? <;> simp [CallEvent.lostOp, hop]
  · rfl

/-- A send that carries no operation of the call. -/
theorem inFlight_push (src : NodeID) {sent : Option (NodeID × Message)}
    (hno : ∀ dest msg, sent = some (dest, msg) → Packet.carries i op ⟨j, msg⟩ = false)
    (ab : NodeID × NodeID) :
    (w.push src j sent ab).countP (Packet.carries i op) = w.inFlight i op ab := by
  rcases w.push_cases src j sent ab with heq | ⟨dest, msg, hsent, -, heq⟩
  · rw [heq, inFlight]
  · rw [heq, List.countP_append, inFlight]
    simp [hno dest msg hsent]

/-- A packet is taken out of a channel. -/
theorem inFlight_update (i : ι) (op : Operation) (ab : NodeID × NodeID) {q : Packet ι}
    {ch : List (Packet ι)} (hperm : (w.channels cd).Perm (q :: ch)) :
    (Function.update w.channels cd ch ab).countP (Packet.carries i op)
      + (if ab = cd ∧ q.carries i op = true then 1 else 0) = w.inFlight i op ab := by
  rcases eq_or_ne ab cd with rfl | hne
  · rw [Function.update_self, inFlight, hperm.countP_eq, List.countP_cons]
    simp
  · rw [Function.update_of_ne hne, inFlight]
    simp [hne]

theorem carries_iff {q : Packet ι} :
    q.carries i op = true ↔ q.cause = i ∧ q.msg.operation? = some op := by
  simp [Packet.carries]

/-- The operation of a packet, seen by its call and by another. -/
theorem count_taken (q : Packet ι) (p dest : NodeID) :
    (if q.cause = i then (q.msg.operation?.map (Prod.mk dest)).toList else []).count (p, op)
      = if dest = p ∧ q.carries i op = true then 1 else 0 := by
  simp only [carries_iff]
  by_cases hq : q.cause = i
  · cases hop : q.msg.operation? with
    | none => simp [hq]
    | some op' => simp [hq, List.count_cons]
  · simp [hq]

theorem count_lost (q : Packet ι) :
    (if q.cause = i then q.msg.operation?.toList else []).count op
      = if q.carries i op = true then 1 else 0 := by
  simp only [carries_iff]
  by_cases hq : q.cause = i
  · cases hop : q.msg.operation? with
    | none => simp [hq]
    | some op' => simp [hq, List.count_cons]
  · simp [hq]

end Accounts

/-! ## 3. Nothing is executed twice, elsewhere, or forgotten -/

/-- The primary of an operation's key, as the node of the call sees it. -/
def primaryOf (cfg : ClusterConfig ι) (i : ι) (op : Operation) : NodeID :=
  (cfg.routing (cfg.origin i)).primary op.key

/-- **Conservation.**  Of the operations begun, each is executed at its primary, or lost, or under
way to its primary. -/
structure Conserved (cfg : ClusterConfig ι) (w : Cluster ι) (i : ι) (begun : List Operation) :
    Prop where
  placed : ∀ x ∈ executed cfg w i, x.1 = primaryOf cfg i x.2
  addressed : ∀ ab, ∀ q ∈ w.channels ab, q.cause = i → ∀ op, q.msg.operation? = some op →
    ab = (cfg.origin i, primaryOf cfg i op)
  balance : ∀ op, begun.count op = (executed cfg w i).count (primaryOf cfg i op, op)
    + (lostOps w i).count op + w.inFlight i op (cfg.origin i, primaryOf cfg i op)

section Preservation

variable {cfg : ClusterConfig ι} {w w' : Cluster ι} {l : ClusterLabel ι} {i : ι}
  {begun : List Operation}

/-- A packet of the call is taken out: it goes where the operation belongs. -/
theorem Conserved.dest_of_carries (h : Conserved cfg w i begun) {ab : NodeID × NodeID}
    {q : Packet ι} {op : Operation} (hq : q ∈ w.channels ab) (hc : q.carries i op = true) :
    ab = (cfg.origin i, primaryOf cfg i op) := by
  obtain ⟨hcause, hop⟩ := carries_iff.mp hc
  exact h.addressed ab q hq hcause op hop

/-- The messages of the call stay on their way, whoever moves, unless the call itself sends. -/
theorem addressed_of_other (h : Conserved cfg w i begun) (hs : Stepped cfg w l w')
    (hresp : ∀ ab j m, w.handlers ab = some ⟨j, .responding m⟩ → m.IsResponse)
    (hother : ∀ c, l ≠ .txn i c) :
    ∀ ab, ∀ q ∈ w'.channels ab, q.cause = i → ∀ op, q.msg.operation? = some op →
      ab = (cfg.origin i, primaryOf cfg i op) := by
  intro ab q hq hcause op hop
  rcases hs.packet_of hq with hold | ⟨c, r, rfl, -, -, -⟩ | hha
  · exact h.addressed ab q hold hcause op hop
  · exact absurd (hcause ▸ rfl) (hother c)
  · rw [(hresp _ _ _ hha).operation?_eq] at hop
    exact absurd hop (by simp)

/-- A step that executes nothing, loses nothing and sends nothing. -/
theorem Conserved.of_same (h : Conserved cfg w i begun)
    (hexec : executed cfg w' i = executed cfg w i) (hlost : lostOps w' i = lostOps w i)
    (hflight : ∀ op ab, w'.inFlight i op ab = w.inFlight i op ab)
    (haddr : ∀ ab, ∀ q ∈ w'.channels ab, q.cause = i → ∀ op, q.msg.operation? = some op →
      ab = (cfg.origin i, primaryOf cfg i op)) : Conserved cfg w' i begun where
  placed := by
    rw [hexec]
    exact h.placed
  addressed := haddr
  balance := by
    intro op
    rw [hexec, hlost, hflight]
    exact h.balance op

/-- A request is handled: it leaves its channel, and its operation is executed. -/
theorem conserved_of_deliver {src dest : NodeID} {q : Packet ι} {rest : List (Packet ι)}
    {n : Node} {a : Option Handler} (h : Conserved cfg w i begun)
    (hch : w.channels (src, dest) = q :: rest)
    (haddr : ∀ ab, ∀ q' ∈ (w.afterDeliver src dest q rest n a).channels ab, q'.cause = i →
      ∀ op, q'.msg.operation? = some op → ab = (cfg.origin i, primaryOf cfg i op)) :
    Conserved cfg (w.afterDeliver src dest q rest n a) i begun := by
  have hq : q ∈ w.channels (src, dest) := by simp [hch]
  refine ⟨?_, haddr, ?_⟩
  · intro x hx
    rw [executed_afterDeliver, List.mem_append] at hx
    rcases hx with hx | hx
    · exact h.placed x hx
    · split at hx
      · rename_i hcause
        rw [Option.mem_toList, Option.map_eq_some_iff] at hx
        obtain ⟨op, hop, rfl⟩ := hx
        exact (Prod.mk.inj (h.addressed _ q hq hcause op hop)).2
      · exact absurd hx (by simp)
  · intro op
    have hflight := inFlight_update i op (cfg.origin i, primaryOf cfg i op)
      (.of_eq hch : (w.channels (src, dest)).Perm _)
    have hbal := h.balance op
    rw [executed_afterDeliver, lostOps_afterDeliver, List.count_append, count_taken]
    simp only [inFlight, afterDeliver]
    cases hc : q.carries i op with
    | true =>
      obtain ⟨rfl, rfl⟩ := Prod.mk.inj (h.dest_of_carries hq hc)
      simp only [hc, and_self, if_true] at hflight ⊢
      omega
    | false =>
      simp only [hc, Bool.false_eq_true, and_false, if_false] at hflight ⊢
      omega

/-- A request is dropped: it leaves its channel, and its operation is lost. -/
theorem conserved_of_drop {src dest : NodeID} {pos : Nat} {q : Packet ι}
    (h : Conserved cfg w i begun) (hpos : (w.channels (src, dest))[pos]? = some q)
    (haddr : ∀ ab, ∀ q' ∈ (w.afterDrop src dest pos q).channels ab, q'.cause = i →
      ∀ op, q'.msg.operation? = some op → ab = (cfg.origin i, primaryOf cfg i op)) :
    Conserved cfg (w.afterDrop src dest pos q) i begun := by
  have hperm : (w.channels (src, dest)).Perm (q :: (w.channels (src, dest)).eraseIdx pos) := by
    obtain ⟨hlt, rfl⟩ := List.getElem?_eq_some_iff.mp hpos
    exact (List.getElem_cons_eraseIdx_perm hlt).symm
  refine ⟨?_, haddr, ?_⟩
  · rw [executed_afterDrop]
    exact h.placed
  · intro op
    have hflight := inFlight_update i op (cfg.origin i, primaryOf cfg i op) hperm
    have hbal := h.balance op
    rw [executed_afterDrop, lostOps_afterDrop, List.count_append, count_lost]
    simp only [inFlight, afterDrop]
    cases hc : q.carries i op with
    | true =>
      obtain ⟨rfl, rfl⟩ := Prod.mk.inj (h.dest_of_carries (List.mem_of_getElem? hpos) hc)
      simp only [hc, and_self, if_true] at hflight ⊢
      omega
    | false =>
      simp only [hc, Bool.false_eq_true, and_false, if_false] at hflight ⊢
      omega

theorem conserved_of_other (h : Conserved cfg w i begun) (hs : Stepped cfg w l w')
    (hresp : ∀ ab j m, w.handlers ab = some ⟨j, .responding m⟩ → m.IsResponse)
    (hother : ∀ c, l ≠ .txn i c) : Conserved cfg w' i begun := by
  have haddr := addressed_of_other h hs hresp hother
  cases hs with
  | @txn j c r hstep =>
    have hne : i ≠ j := by
      rintro rfl
      exact hother c rfl
    have hevents : eventsOf (w.afterTxn cfg j c r).hist i = eventsOf w.hist i :=
      eventsOf_afterTxn_of_ne hne c r
    refine h.of_same (by rw [executed, hevents, executed]) (by rw [lostOps, hevents, lostOps])
      ?_ haddr
    intro op ab
    refine inFlight_push (cfg.origin j) ?_ ab
    intro dest msg _
    simp [Packet.carries, hne.symm]
  | deliver _ _ _ hch _ => exact conserved_of_deliver h hch haddr
  | @handle src dest throws j a r hi hstep =>
    refine h.of_same rfl rfl ?_ haddr
    intro op ab
    refine inFlight_push dest ?_ ab
    intro d msg hsent
    obtain ⟨m, hm, heq⟩ := Option.map_eq_some_iff.mp hsent
    obtain ⟨-, rfl⟩ := Prod.mk.inj heq
    have hnone := (hresp _ _ _ (hstep.sent_of hm ▸ hi)).operation?_eq
    simp [Packet.carries, hnone]
  | drop hpos => exact conserved_of_drop h hpos haddr

/-- A step of the call that begins no operation. -/
theorem conserved_of_none {c : Choice} {r : TxnStep} (h : Conserved cfg w i begun)
    (hlost : (w.txns i).lostEvent c = none)
    (hsent : ∀ dest msg, r.sent = some (dest, msg) → msg.operation? = none)
    (hevent : r.event.bind TxnEvent.ranLocally = none) :
    Conserved cfg (w.afterTxn cfg i c r) i begun := by
  refine h.of_same (by simp [executed_afterTxn_self, hevent])
    (by simp [lostOps_afterTxn_self, hlost]) ?_ ?_
  · intro op ab
    refine inFlight_push (cfg.origin i) ?_ ab
    intro dest msg hs
    simp [Packet.carries, hsent dest msg hs]
  · intro ab q hq hcause op hop
    rcases mem_push hq with hold | ⟨dest, msg, hs, -, rfl⟩
    · exact h.addressed ab q hold hcause op hop
    · exact absurd hop (by simp [hsent dest msg hs])

/-- What is under way after a step that sends nothing. -/
theorem afterTxn_channels {c : Choice} {r : TxnStep} (hsent : r.sent = none) :
    (w.afterTxn cfg i c r).channels = w.channels := by
  simp [afterTxn, hsent, push]

/-- The next operation is executed here, where it belongs. -/
theorem conserved_of_executes {c : Choice} {r : TxnStep} {op : Operation}
    (h : Conserved cfg w i begun) (hhere : cfg.origin i = primaryOf cfg i op)
    (hevent : r.event.bind TxnEvent.ranLocally = some op) (hsent : r.sent = none)
    (hlost : (w.txns i).lostEvent c = none) :
    Conserved cfg (w.afterTxn cfg i c r) i (begun ++ [op]) := by
  have hexec : executed cfg (w.afterTxn cfg i c r) i
      = executed cfg w i ++ [(cfg.origin i, op)] := by
    simp [executed_afterTxn_self, hevent]
  have hlostOps : lostOps (w.afterTxn cfg i c r) i = lostOps w i := by
    simp [lostOps_afterTxn_self, hlost]
  refine ⟨?_, ?_, ?_⟩
  · intro x hx
    rw [hexec, List.mem_append, List.mem_singleton] at hx
    rcases hx with hx | rfl
    · exact h.placed x hx
    · exact hhere
  · rw [afterTxn_channels hsent]
    exact h.addressed
  · intro op'
    have hone : [(cfg.origin i, op)].count (primaryOf cfg i op', op') = [op].count op' := by
      rcases eq_or_ne op op' with rfl | hne
      · simp [← hhere]
      · simp [hne]
    rw [hexec, hlostOps, inFlight, afterTxn_channels hsent, List.count_append, List.count_append,
      hone, h.balance op', inFlight]
    omega

/-- The next operation is sent to its primary. -/
theorem conserved_of_sends {c : Choice} {r : TxnStep} {op : Operation} {t : TransactionId}
    (h : Conserved cfg w i begun) (hevent : r.event.bind TxnEvent.ranLocally = none)
    (hsent : r.sent = some (primaryOf cfg i op, .opReq t op))
    (hlost : (w.txns i).lostEvent c = none) :
    Conserved cfg (w.afterTxn cfg i c r) i (begun ++ [op]) := by
  have hexec : executed cfg (w.afterTxn cfg i c r) i = executed cfg w i := by
    simp [executed_afterTxn_self, hevent]
  have hlostOps : lostOps (w.afterTxn cfg i c r) i = lostOps w i := by
    simp [lostOps_afterTxn_self, hlost]
  refine ⟨?_, ?_, ?_⟩
  · rw [hexec]
    exact h.placed
  · intro ab q hq hcause op' hop'
    rcases mem_push hq with hold | ⟨dest, msg, hs, rfl, rfl⟩
    · exact h.addressed ab q hold hcause op' hop'
    · obtain ⟨rfl, rfl⟩ := Prod.mk.inj (Option.some.inj (hsent.symm.trans hs))
      obtain rfl : op = op' := by simpa [Message.operation?] using hop'
      rfl
  · intro op'
    have hflight : (w.afterTxn cfg i c r).inFlight i op' (cfg.origin i, primaryOf cfg i op')
        = w.inFlight i op' (cfg.origin i, primaryOf cfg i op') + [op].count op' := by
      rcases eq_or_ne op op' with rfl | hne
      · have hpush : (w.afterTxn cfg i c r).channels (cfg.origin i, primaryOf cfg i op)
            = w.channels (cfg.origin i, primaryOf cfg i op) ++ [⟨i, .opReq t op⟩] := by
          simp [afterTxn, hsent, push]
        rw [inFlight, hpush, List.countP_append, inFlight]
        simp [Packet.carries, Message.operation?]
      · have hno : ∀ dest msg, r.sent = some (dest, msg) →
            Packet.carries i op' ⟨i, msg⟩ = false := by
          intro dest msg hs
          obtain ⟨-, rfl⟩ := Prod.mk.inj (Option.some.inj (hsent.symm.trans hs))
          simp [Packet.carries, Message.operation?, hne]
        rw [List.count_eq_zero.mpr (by simp [hne.symm])]
        exact inFlight_push _ hno _
    rw [hexec, hlostOps, hflight, List.count_append, h.balance op']
    omega

/-- The next operation is lost. -/
theorem conserved_of_loses {c : Choice} {r : TxnStep} {op : Operation} {t : TransactionId}
    (h : Conserved cfg w i begun) (hevent : r.event.bind TxnEvent.ranLocally = none)
    (hsent : r.sent = none) (hlost : (w.txns i).lostEvent c = some (.lost (.opReq t op))) :
    Conserved cfg (w.afterTxn cfg i c r) i (begun ++ [op]) := by
  have hexec : executed cfg (w.afterTxn cfg i c r) i = executed cfg w i := by
    simp [executed_afterTxn_self, hevent]
  have hlostOps : lostOps (w.afterTxn cfg i c r) i = lostOps w i ++ [op] := by
    rw [lostOps_afterTxn_self, hlost]
    rfl
  refine ⟨?_, ?_, ?_⟩
  · rw [hexec]
    exact h.placed
  · rw [afterTxn_channels hsent]
    exact h.addressed
  · intro op'
    rw [hexec, hlostOps, inFlight, afterTxn_channels hsent, List.count_append, List.count_append,
      h.balance op', inFlight]
    omega

/-- A step of the call that begins an operation. -/
theorem conserved_of_begins {c : Choice} {r : TxnStep} {op : Operation}
    (h : Conserved cfg w i begun)
    (hrouting : (w.nodes (cfg.origin i)).routing = cfg.routing (cfg.origin i))
    (hb : Begins (w.nodes (cfg.origin i)) (w.txns i) c r op) :
    Conserved cfg (w.afterTxn cfg i c r) i (begun ++ [op]) := by
  have hprimary : (w.nodes (cfg.origin i)).primary op.key = primaryOf cfg i op := by
    simp [Node.primary, hrouting, primaryOf]
  cases hb with
  | executes hlocal hevent hsent hlost =>
    have hhere : cfg.origin i = primaryOf cfg i op := by
      rw [← hprimary, hlocal, hrouting, cfg.localNodeId_eq]
    exact conserved_of_executes h hhere hevent hsent hlost
  | sends hevent hsent hlost => exact conserved_of_sends h hevent (hprimary ▸ hsent) hlost
  | loses hevent hsent hlost => exact conserved_of_loses h hevent hsent hlost

end Preservation

theorem conserved_initial (cfg : ClusterConfig ι) (stores : NodeID → ThreadSafeKVStore)
    (txs : ι → Transaction) (i : ι) : Conserved cfg (initial cfg stores txs) i [] where
  placed := by
    intro x hx
    exact absurd hx (by simp [executed, eventsOf, initial])
  addressed := by
    intro ab q hq
    exact absurd hq (by simp [initial])
  balance := by
    intro op
    simp [executed, lostOps, inFlight, eventsOf, initial]

/-- **In every state of every run**, the operations that a call has begun are the first ones of its
transaction, and they are accounted for. -/
theorem conserved {cfg : ClusterConfig ι} {ok : Cluster ι → ClusterLabel ι → Prop}
    {stores : NodeID → ThreadSafeKVStore} {txs : ι → Transaction} {w : Cluster ι}
    (hr : Run (step cfg) ok (initial cfg stores txs) w) (i : ι) :
    ∃ begun rest, txs i = begun ++ rest ∧ (w.txns i).pc.Left (txs i) rest ∧
      Conserved cfg w i begun := by
  refine hr.invariant_of_run (I := fun w => ∃ begun rest, txs i = begun ++ rest ∧
    (w.txns i).pc.Left (txs i) rest ∧ Conserved cfg w i begun)
    ⟨[], txs i, rfl, rfl, conserved_initial cfg stores txs i⟩ ?_
  rintro w l w' hr ⟨begun, rest, htx, hleft, h⟩ _ hs
  obtain ⟨hrouting, htxs⟩ := run_routing hr
  have hstepped := stepped_of_step hs
  by_cases hown : ∃ c, l = .txn i c
  · obtain ⟨c, rfl⟩ := hown
    cases hstepped with
    | @txn _ _ r hstep =>
      rw [← htxs i] at hleft
      rw [afterTxn_txns_self, ← htxs i]
      rcases hstep.left hleft with ⟨op, rest', rfl, hleft', hb⟩ | ⟨hleft', hlost, hsent, hevent⟩
      · refine ⟨begun ++ [op], rest', ?_, hleft', conserved_of_begins h (hrouting _) hb⟩
        rw [htxs i, htx, List.append_assoc]
        rfl
      · exact ⟨begun, rest, (htxs i).trans htx, hleft', conserved_of_none h hlost hsent hevent⟩
  · have hthread : w'.txns i = w.txns i := by
      cases hstepped with
      | @txn j c r _ =>
        refine afterTxn_txns_of_ne ?_
        rintro rfl
        exact hown ⟨c, rfl⟩
      | _ => rfl
    rw [hthread]
    exact ⟨begun, rest, htx, hleft,
      conserved_of_other h hstepped (fun _ _ _ => run_responses hr) (not_exists.mp hown)⟩

/-! ## 4. The history and the stores -/

/-- The operations that a node executed, for whomever, in order. -/
def executedAt (cfg : ClusterConfig ι) (p : NodeID) (hist : List (ι × CallEvent)) :
    List Operation :=
  hist.filterMap fun e =>
    (e.2.executed (cfg.origin e.1)).bind fun x => if x.1 = p then some x.2 else none

omit [DecidableEq ι] in
theorem execAll_executedAt_append (cfg : ClusterConfig ι) (p : NodeID) (s : ThreadSafeKVStore)
    (hist hist' : List (ι × CallEvent)) :
    opActions.execAll s (executedAt cfg p (hist ++ hist'))
      = opActions.execAll (opActions.execAll s (executedAt cfg p hist))
          (executedAt cfg p hist') := by
  simp [executedAt, Actions.execAll]

/-- **The history is true**: replayed from the initial stores, it gives the present ones. -/
theorem store_eq_replay {cfg : ClusterConfig ι} {ok : Cluster ι → ClusterLabel ι → Prop}
    {stores : NodeID → ThreadSafeKVStore} {txs : ι → Transaction} {w : Cluster ι}
    (hr : Run (step cfg) ok (initial cfg stores txs) w) (p : NodeID) :
    (w.nodes p).store = opActions.execAll (stores p) (executedAt cfg p w.hist) := by
  refine hr.invariant (I := fun w => (w.nodes p).store
    = opActions.execAll (stores p) (executedAt cfg p w.hist)) rfl ?_
  intro w l w' h _ hs
  cases stepped_of_step hs with
  | @txn i c r hstep =>
    have hlost : executedAt cfg p (((w.txns i).lostEvent c).toList.map (Prod.mk i)) = [] := by
      unfold TxnThread.lostEvent
      split
      · split <;> rfl
      · rfl
    simp only [afterTxn]
    rw [execAll_executedAt_append, execAll_executedAt_append, hlost, ← h]
    rcases eq_or_ne p (cfg.origin i) with rfl | hne
    · rw [Function.update_self, hstep.store_eq]
      cases r.event with
      | none => rfl
      | some e =>
        cases he : e.ranLocally <;> simp [executedAt, CallEvent.executed, he, Actions.execAll]
    · rw [Function.update_of_ne hne]
      cases r.event with
      | none => rfl
      | some e =>
        cases he : e.ranLocally <;>
          simp [executedAt, CallEvent.executed, he, Actions.execAll, hne.symm]
  | @deliver src dest q rest n a _ _ _ hch hh =>
    obtain ⟨cause, msg⟩ := q
    simp only [afterDeliver]
    rw [execAll_executedAt_append, ← h]
    rcases eq_or_ne p dest with rfl | hne
    · rw [Function.update_self]
      cases hh <;> simp [executedAt, Message.servedEvent, CallEvent.executed, Actions.execAll,
        Node.erasePending, Node.handleLockRelease, Node.handleOperationResponse,
        Node.erasePendingOp, opActions]
    · rw [Function.update_of_ne hne]
      cases hh <;> simp [executedAt, Message.servedEvent, CallEvent.executed, Actions.execAll,
        hne.symm]
  | @handle src dest throws j a r hi hstep =>
    refine (proj_update (f := Node.store) ?_ p).trans h
    cases hstep <;> rfl
  | drop _ =>
    simp only [afterDrop]
    rw [execAll_executedAt_append, ← h]
    rfl

/-! ## 5. When it is all or nothing -/

/-- The appends of a transaction. -/
def appends (ops : List Operation) : List Operation := ops.filter fun op => op.type = .APPEND

/-- The appends of a call that were applied, with the nodes that did. -/
def applied (cfg : ClusterConfig ι) (w : Cluster ι) (i : ι) : List (NodeID × Operation) :=
  (executed cfg w i).filter fun x => x.2.type = .APPEND

/-- The operations of a transaction at the primaries of their keys. -/
def atPrimaries (cfg : ClusterConfig ι) (i : ι) (ops : List Operation) :
    List (NodeID × Operation) :=
  ops.map fun op => (primaryOf cfg i op, op)

omit [DecidableEq ι] in
theorem appends_atPrimaries (cfg : ClusterConfig ι) (i : ι) (ops : List Operation) :
    (atPrimaries cfg i ops).filter (fun x => x.2.type = .APPEND)
      = atPrimaries cfg i (appends ops) := by
  simp [atPrimaries, appends, List.filter_map, Function.comp_def]

omit [DecidableEq ι] in
theorem count_atPrimaries (cfg : ClusterConfig ι) (i : ι) (ops : List Operation)
    (op : Operation) : (atPrimaries cfg i ops).count (primaryOf cfg i op, op) = ops.count op :=
  List.count_map_of_injective ops _ (fun _ _ heq => (Prod.mk.inj heq).2) op

/-- Of two parts of a list, one is everything just when the other is nothing. -/
theorem perm_append_iff {α : Type*} {l a b : List α} (h : l.Perm (a ++ b)) :
    a.Perm l ↔ b = [] := by
  constructor
  · intro ha
    have hlen := ha.length_eq.trans h.length_eq
    rw [List.length_append] at hlen
    exact List.eq_nil_of_length_eq_zero (by omega)
  · rintro rfl
    rw [List.append_nil] at h
    exact h.symm

/-- A call that has returned and has nothing under way: what was executed and what was lost make
up its transaction, or there is neither. -/
theorem executed_add_lost {cfg : ClusterConfig ι} {ok : Cluster ι → ClusterLabel ι → Prop}
    {stores : NodeID → ThreadSafeKVStore} {txs : ι → Transaction} {w : Cluster ι}
    (hr : Run (step cfg) ok (initial cfg stores txs) w) (i : ι) {results : Results}
    (hret : (w.txns i).pc = .returned results) (hquiet : w.Quiet i) :
    ∃ ops, executed cfg w i = atPrimaries cfg i ops ∧
      ((txs i).Perm (ops ++ lostOps w i) ∨ (ops = [] ∧ lostOps w i = [])) := by
  obtain ⟨begun, rest, htx, hleft, h⟩ := conserved hr i
  -- the operations executed, without their places
  have hexec : executed cfg w i = atPrimaries cfg i ((executed cfg w i).map Prod.snd) := by
    rw [atPrimaries, List.map_map]
    refine (List.map_id _).symm.trans (List.map_congr_left ?_)
    intro x hx
    exact Prod.ext (h.placed x hx) rfl
  have hflight : ∀ op ab, w.inFlight i op ab = 0 := by
    intro op ab
    rw [inFlight, List.countP_eq_zero]
    intro q hq hc
    exact hquiet.channels ab q hq (carries_iff.mp hc).1
  have hperm : begun.Perm ((executed cfg w i).map Prod.snd ++ lostOps w i) := by
    rw [List.perm_iff_count]
    intro op
    have hbal := h.balance op
    rw [hexec, count_atPrimaries, hflight] at hbal
    rw [List.count_append]
    exact hbal
  refine ⟨_, hexec, ?_⟩
  rw [hret] at hleft
  rcases hleft with rfl | rfl
  · rw [List.append_nil] at htx
    exact .inl (htx ▸ hperm)
  · obtain rfl : begun = [] := by simpa using htx
    exact .inr (List.append_eq_nil_iff.mp hperm.nil_eq.symm)

/-- **When it is all or nothing.**  In every run of every cluster, whatever is delayed, lost or
thrown and whenever waits time out: for a call that has returned and has nothing under way, either
every append of it has been applied exactly once, at its key's primary, or none has been applied
anywhere, IF AND ONLY IF none of its appends was lost, or all of them were. -/
theorem all_or_nothing_iff (cfg : ClusterConfig ι) (stores : NodeID → ThreadSafeKVStore)
    (txs : ι → Transaction) {w : Cluster ι}
    (hr : Reachable (step cfg) (initial cfg stores txs) w) (i : ι) {results : Results}
    (hret : (w.txns i).pc = .returned results) (hquiet : w.Quiet i) :
    ((applied cfg w i).Perm (atPrimaries cfg i (appends (txs i))) ∨ applied cfg w i = []) ↔
      appends (lostOps w i) = [] ∨ (appends (lostOps w i)).Perm (appends (txs i)) := by
  obtain ⟨ops, hexec, hor⟩ := executed_add_lost hr i hret hquiet
  have happlied : applied cfg w i = atPrimaries cfg i (appends ops) := by
    rw [applied, hexec, appends_atPrimaries]
  have hinj : Function.Injective fun op => (primaryOf cfg i op, op) := by
    intro op op' heq
    exact (Prod.mk.inj heq).2
  rw [happlied, atPrimaries, atPrimaries, List.map_perm_map_iff hinj, List.map_eq_nil_iff]
  rcases hor with hperm | ⟨rfl, hnone⟩
  · have hparts : (appends (txs i)).Perm (appends ops ++ appends (lostOps w i)) := by
      simpa [appends] using hperm.filter fun op => op.type = .APPEND
    rw [perm_append_iff hparts, ← perm_append_iff (hparts.trans List.perm_append_comm)]
  · simp [appends, hnone]

/-- A call of node 0 with one local and one remote append. -/
def localAndRemote : Transaction := [.append 0 5, .append 2 7]

/-- It acquires both locks, executes the local append and is about to send the remote one. -/
def halfwayRun : List (ClusterLabel Bool) :=
  [.txn false { keys := [0] }, .txn false {}, .txn false {}, .txn false {},
    .txn false { pairs := [(2, 2)] }, .txn false {}, .txn false {}] ++
    serveAt2 0 ++ [.deliver 2 0, .txn false {}, .txn false {}, .txn false {}]

/-- It releases both locks and returns. -/
def releaseRun : List (ClusterLabel Bool) :=
  [.txn false {}, .txn false { keys := [0] }, .txn false {}, .txn false { pairs := [(2, 2)] },
    .txn false {}, .txn false {}, .deliver 0 2]

/-- The remote append is sent, executed and answered. -/
def answeredRun : List (ClusterLabel Bool) :=
  halfwayRun ++ [.txn false {}, .deliver 0 2, .handle 0 2 false, .deliver 2 0, .txn false {},
    .txn false {}] ++ releaseRun

theorem all_or_nothing_answered :
    ∃ w : Cluster Bool,
      Reachable (step threeNodes) (initial threeNodes emptyStores fun _ => localAndRemote) w ∧
      (w.txns false).pc = .returned [(2, some [])] ∧
      (w.nodes 0).store.get 0 = some [5] ∧ (w.nodes 2).store.get 2 = some [7] ∧
      ((applied threeNodes w false).Perm (atPrimaries threeNodes false (appends localAndRemote)) ∨
        applied threeNodes w false = []) := by
  have hrun : ((runChecked (step threeNodes) (staysOn threeNodes [(0, 2), (2, 0)])
      (initial threeNodes emptyStores fun _ => localAndRemote) answeredRun).map fun w =>
        decide ((w.txns false).pc = .returned [(2, some [])] ∧
          (w.nodes 0).store.get 0 = some [5] ∧ (w.nodes 2).store.get 2 = some [7] ∧
          appends (lostOps w false) = [] ∧ silentOn [(0, 2), (2, 0)] w = true)) = some true := by
    decide +kernel
  obtain ⟨w, hw, hend⟩ := Option.map_eq_some_iff.mp hrun
  obtain ⟨hret, hget0, hget2, hlost, hsilent⟩ := of_decide_eq_true hend
  have hr := run_of_runChecked _ .refl hw
  exact ⟨w, hr.reachable, hret, hget0, hget2,
    (all_or_nothing_iff threeNodes emptyStores _ hr.reachable false hret
      (quiet_of_silentOn hr hsilent false)).mpr (.inl hlost)⟩

/-- The send of the remote append throws. -/
def halfLostRun : List (ClusterLabel Bool) :=
  halfwayRun ++ [.txn false { throws := true }] ++ releaseRun

/-- **Half a transaction.**  The local append is applied, the remote one is lost, and the call
returns normally. -/
theorem half_applied :
    ∃ w : Cluster Bool,
      Reachable (step threeNodes) (initial threeNodes emptyStores fun _ => localAndRemote) w ∧
      (w.txns false).pc = .returned [] ∧ w.Quiet false ∧
      (w.nodes 0).store.get 0 = some [5] ∧ (w.nodes 2).store.get 2 = none ∧
      ¬ ((applied threeNodes w false).Perm
          (atPrimaries threeNodes false (appends localAndRemote)) ∨
        applied threeNodes w false = []) := by
  have hrun : ((runChecked (step threeNodes) (staysOn threeNodes [(0, 2), (2, 0)])
      (initial threeNodes emptyStores fun _ => localAndRemote) halfLostRun).map fun w =>
        decide ((w.txns false).pc = .returned [] ∧
          (w.nodes 0).store.get 0 = some [5] ∧ (w.nodes 2).store.get 2 = none ∧
          applied threeNodes w false = [(0, .append 0 5)] ∧
          silentOn [(0, 2), (2, 0)] w = true)) = some true := by
    decide +kernel
  obtain ⟨w, hw, hend⟩ := Option.map_eq_some_iff.mp hrun
  obtain ⟨hret, hget0, hget2, happlied, hsilent⟩ := of_decide_eq_true hend
  have hr := run_of_runChecked _ .refl hw
  refine ⟨w, hr.reachable, hret, quiet_of_silentOn hr hsilent false, hget0, hget2, ?_⟩
  rw [happlied]
  rintro (hperm | hnil)
  · exact absurd hperm.length_eq (by decide)
  · exact absurd hnil (by simp)

end Cluster

end TwoPL
