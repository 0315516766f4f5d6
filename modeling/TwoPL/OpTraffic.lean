/-
# The operation messages of a call

A remote operation is an exchange of two messages: an `op_req` from the node of the call to the
primary, and an `op_resp` back.  In between the response is in the hands of a handler, which will
put it at the END of the channel back.  So the messages of a call from one node to another are
counted channel first, handler last (`opTraffic`), and a handler that sends changes nothing.

What a step does to this list is all there is to know here:

* a step of the call that sends an `op_req` adds it (`opTraffic_afterTxn_sent`);
* an `op_req` that is handled turns into an `op_resp` the other way (`opTraffic_afterDeliver_req`);
* any other delivery, a section of a handler and a lost message leave a sublist
  (`opTraffic_afterDeliver`, `opTraffic_afterHandle`, `opTraffic_afterDrop`).

So a call that waits for every operation before it begins the next has at most one message under
way, and it is of that operation.
-/
import TwoPL.Cluster

namespace TwoPL

open Lib

/-- The message is about an operation. -/
def Message.isOp : Message → Bool
  | .opReq _ _ | .opResp _ _ _ => true
  | _ => false

/-- The operation message of call `i` that a packet carries. -/
def Packet.opOf {ι : Type*} [DecidableEq ι] (i : ι) (q : Packet ι) : Option Message :=
  if q.cause = i ∧ q.msg.isOp = true then some q.msg else none

/-- The operation message of call `i` that a handler is about to send. -/
def ActiveHandler.opOf {ι : Type*} [DecidableEq ι] (i : ι) (a : ActiveHandler ι) :
    Option Message :=
  match a.handler with
  | .responding m => if a.cause = i ∧ m.isOp = true then some m else none
  | .acquiring _ _ _ => none

namespace Cluster

variable {ι : Type*} [DecidableEq ι]

/-- The operation messages of call `i` from the first node to the second, in the order in which
they will arrive. -/
def opTraffic (w : Cluster ι) (i : ι) (ab : NodeID × NodeID) : List Message :=
  (w.channels ab).filterMap (Packet.opOf i) ++
    ((w.handlers (ab.2, ab.1)).bind (ActiveHandler.opOf i)).toList

/-! ## 1. Steps of calls -/

section Txn

variable {cfg : ClusterConfig ι} {w : Cluster ι} {i j : ι} {c : Choice} {r : TxnStep}

/-- A step that sends no operation of `i`. -/
theorem opTraffic_afterTxn (h : ∀ dest msg, r.sent = some (dest, msg) → j = i →
    msg.isOp = false) (ab : NodeID × NodeID) :
    (w.afterTxn cfg j c r).opTraffic i ab = w.opTraffic i ab := by
  unfold opTraffic
  congr 1
  show (w.push (cfg.origin j) j r.sent ab).filterMap (Packet.opOf i) = _
  rcases w.push_cases (cfg.origin j) j r.sent ab with heq | ⟨dest, msg, hsent, -, heq⟩
  · rw [heq]
  · have hnone : Packet.opOf i (⟨j, msg⟩ : Packet ι) = none := by
      by_cases hj : j = i
      · simp [Packet.opOf, h dest msg hsent hj]
      · simp [Packet.opOf, hj]
    rw [heq, List.filterMap_append]
    simp [hnone]

/-- A step that sends the first one. -/
theorem opTraffic_afterTxn_sent {dest : NodeID} {msg : Message} (hsent : r.sent = some (dest, msg))
    (hop : msg.isOp = true) (hsilent : ∀ ab, w.opTraffic i ab = []) (ab : NodeID × NodeID) :
    (w.afterTxn cfg i c r).opTraffic i ab = if ab = (cfg.origin i, dest) then [msg] else [] := by
  have hab := hsilent ab
  unfold opTraffic at hab ⊢
  obtain ⟨hch, hha⟩ := List.append_eq_nil_iff.mp hab
  have hpush : (w.afterTxn cfg i c r).channels ab = w.push (cfg.origin i) i r.sent ab := rfl
  have hhandlers : (w.afterTxn cfg i c r).handlers = w.handlers := rfl
  rw [hpush, hhandlers, hha, List.append_nil, hsent, push]
  rcases eq_or_ne ab (cfg.origin i, dest) with rfl | hne
  · rw [Function.update_self, List.filterMap_append, hch, if_pos rfl]
    simp [Packet.opOf, hop]
  · rw [Function.update_of_ne hne, hch, if_neg hne]

end Txn

/-! ## 2. Messages and handlers -/

section Others

variable {w : Cluster ι} {i : ι}

/-- A message is handed over that makes no operation message of `i`. -/
theorem opTraffic_afterDeliver {src dest : NodeID} {q : Packet ι} {rest : List (Packet ι)}
    {n : Node} {a : Option Handler} (hch : w.channels (src, dest) = q :: rest)
    (ha : (a.map (ActiveHandler.mk q.cause)).bind (ActiveHandler.opOf i) = none)
    (ab : NodeID × NodeID) :
    ((w.afterDeliver src dest q rest n a).opTraffic i ab).Sublist (w.opTraffic i ab) := by
  unfold opTraffic
  refine List.Sublist.append ?_ ?_
  · show ((Function.update w.channels (src, dest) rest ab).filterMap _).Sublist _
    rcases eq_or_ne ab (src, dest) with rfl | hne
    · rw [Function.update_self, hch]
      exact (List.sublist_cons_self q rest).filterMap _
    · rw [Function.update_of_ne hne]
  · show (((Function.update w.handlers (src, dest) (a.map (ActiveHandler.mk q.cause)))
      (ab.2, ab.1)).bind _).toList.Sublist _
    rcases eq_or_ne (ab.2, ab.1) (src, dest) with heq | hne
    · rw [heq, Function.update_self, ha]
      exact List.nil_sublist _
    · rw [Function.update_of_ne hne]

/-- **A request is handled**: where it was the only message there is now the response. -/
theorem opTraffic_afterDeliver_req {src dest : NodeID} {t : TransactionId} {op : Operation}
    {result : Option ValueContainer} {rest : List (Packet ι)} {n : Node} (hne : src ≠ dest)
    (hch : w.channels (src, dest) = ⟨i, .opReq t op⟩ :: rest)
    (honly : ∀ ab, w.opTraffic i ab = [] ∨
      (ab = (src, dest) ∧ w.opTraffic i ab = [.opReq t op])) (ab : NodeID × NodeID) :
    (w.afterDeliver src dest ⟨i, .opReq t op⟩ rest n
        (some (.responding (.opResp t op.key result)))).opTraffic i ab
      = if ab = (dest, src) then [.opResp t op.key result] else [] := by
  have hreq : Packet.opOf i (⟨i, .opReq t op⟩ : Packet ι) = some (.opReq t op) := by
    simp [Packet.opOf, Message.isOp]
  -- nothing but the request was on that channel, nothing at all on the others
  have hforth : rest.filterMap (Packet.opOf i) = [] ∧
      ((w.handlers (dest, src)).bind (ActiveHandler.opOf i)).toList = [] := by
    have htr : w.opTraffic i (src, dest) = [.opReq t op] := by
      rcases honly (src, dest) with hnil | ⟨-, hone⟩
      · simp [opTraffic, hch, hreq] at hnil
      · exact hone
    simp only [opTraffic, hch, List.filterMap_cons, hreq, List.cons_append, List.cons.injEq,
      true_and] at htr
    exact List.append_eq_nil_iff.mp htr
  have hnil : ∀ cd, cd ≠ (src, dest) → (w.channels cd).filterMap (Packet.opOf i) = [] ∧
      ((w.handlers (cd.2, cd.1)).bind (ActiveHandler.opOf i)).toList = [] := by
    intro cd hcd
    rcases honly cd with hnil | ⟨heq, -⟩
    · exact List.append_eq_nil_iff.mp hnil
    · exact absurd heq hcd
  have hback : (dest, src) ≠ (src, dest) := fun e => hne (Prod.mk.inj e).2
  show (Function.update w.channels (src, dest) rest ab).filterMap _ ++
    ((Function.update w.handlers (src, dest) _ (ab.2, ab.1)).bind _).toList = _
  rcases eq_or_ne ab (src, dest) with rfl | hab
  · rw [Function.update_self, hforth.1, Function.update_of_ne hback, hforth.2, if_neg hback.symm]
    rfl
  · rw [Function.update_of_ne hab, (hnil ab hab).1]
    rcases eq_or_ne ab (dest, src) with rfl | hab'
    · rw [Function.update_self, if_pos rfl]
      simp [ActiveHandler.opOf, Message.isOp]
    · have hswap : (ab.2, ab.1) ≠ (src, dest) := fun e =>
        hab' (Prod.ext (Prod.mk.inj e).2 (Prod.mk.inj e).1)
      rw [Function.update_of_ne hswap, (hnil ab hab).2, if_neg hab']
      rfl

/-- A handler makes its next section: what it was about to send is sent or lost. -/
theorem opTraffic_afterHandle {src dest : NodeID} {j : ι} {a : Handler} {throws : Bool} {n : Node}
    {r : Node × Option Handler × Option Message}
    (ha : w.handlers (src, dest) = some ⟨j, a⟩) (hs : HandlerStepped n throws a r)
    (ab : NodeID × NodeID) :
    ((w.afterHandle src dest j r).opTraffic i ab).Sublist (w.opTraffic i ab) := by
  -- away from the handler's channel nothing happens
  by_cases hab : ab = (dest, src)
  · subst hab
    unfold opTraffic
    show (((w.push dest j (r.2.2.map (Prod.mk src))) (dest, src)).filterMap _ ++
      ((Function.update w.handlers (src, dest) _ (src, dest)).bind _).toList).Sublist _
    rw [Function.update_self, ha]
    cases hs with
    | poll _ => exact List.Sublist.refl _
    | @decided t k _ _ result _ =>
      cases result <;> simp [push, ActiveHandler.opOf, lockResponse, Message.isOp]
    | @responded m _ =>
      -- from the handler to the end of the channel
      simp only [push, Option.map_some, Option.map_none, Function.update_self,
        List.filterMap_append, Option.bind_none, Option.toList_none, List.append_nil,
        Option.bind_some, ActiveHandler.opOf]
      by_cases hm : j = i ∧ m.isOp = true
      · simp [hm, Packet.opOf]
      · simp [hm, Packet.opOf]
    | responseThrew _ =>
      exact List.Sublist.append (List.Sublist.refl _) (List.nil_sublist _)
  · have hswap : (ab.2, ab.1) ≠ (src, dest) := fun e =>
      hab (Prod.ext (Prod.mk.inj e).2 (Prod.mk.inj e).1)
    unfold opTraffic
    show (((w.push dest j (r.2.2.map (Prod.mk src))) ab).filterMap _ ++
      ((Function.update w.handlers (src, dest) _ (ab.2, ab.1)).bind _).toList).Sublist _
    rw [Function.update_of_ne hswap]
    rcases w.push_cases dest j (r.2.2.map (Prod.mk src)) ab with heq | ⟨d, m, hsent, hdest, -⟩
    · rw [heq]
    · obtain ⟨m', -, hm⟩ := Option.map_eq_some_iff.mp hsent
      exact absurd (hdest.trans (by rw [← (Prod.mk.inj hm).1])) hab

theorem opTraffic_afterDrop (src dest : NodeID) (pos : ℕ) (q : Packet ι) (ab : NodeID × NodeID) :
    ((w.afterDrop src dest pos q).opTraffic i ab).Sublist (w.opTraffic i ab) := by
  unfold opTraffic
  refine List.Sublist.append ?_ (List.Sublist.refl _)
  show ((Function.update w.channels (src, dest) _ ab).filterMap _).Sublist _
  rcases eq_or_ne ab (src, dest) with rfl | hne
  · rw [Function.update_self]
    exact (List.eraseIdx_sublist _ _).filterMap _
  · rw [Function.update_of_ne hne]

end Others

end Cluster

end TwoPL
