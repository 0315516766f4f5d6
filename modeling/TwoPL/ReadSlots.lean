/-
# Each read slot and the run behind it

`MessageHandler.lean` says what `createReply` makes of a result vector, given what the operations
obtained.  Here the vector is that of a call (`Trace.lean`), and what a remote operation obtained is
what its OWN response carried (`RemoteOperations.lean`): the node may be any, so may what happens on
it between the steps of the call and in which states peers answer, and any wait may time out.

Two things put a wrong value into the slot of a read.

* A LATE RESPONSE.  The answer to an operation that timed out ends the wait of a later one on the
  same key (`late_answer_fills_slot`).  The condition on the steps is `onTime`: no such response is
  handled while another operation on its key is in progress.
* THE CURSOR.  An answered append adds an entry, and a read that timed out adds none
  (`read_gets_append_entry`).  The condition is `Aligned`, on the operations and how they fare.

`read_slots_own_iff` puts the two together: for every request, every assignment of its keys to the
node or others and every choice of the remote operations that are answered, the slots are right in
ALL runs without late responses if and only if the transaction is aligned.  A null answer counts as
the empty list that `handle_operation_response` makes of it.
-/
import TwoPL.MessageHandler
import TwoPL.RemoteOperations

namespace TwoPL

open Lib

/-! ## 1. A call, its remote operations and its events -/

/-- A call with its remote operations, and the events of all its operations. -/
structure RecordedCall where
  ops : RemoteOps
  events : List TxnEvent

/-- The operation was executed by another node. -/
def Outcome.isRemote : Outcome → Bool
  | .local _ => false
  | .remote _ => true

/-- How an operation with this outcome fared. -/
def Outcome.fate : Outcome → Fate
  | .local _ => .local
  | .remote (some _) => .answered
  | .remote none => .lost

namespace RecordedCall

/-- A call that has not been made, on any node. -/
def initial (n : Node) (tx : Transaction) : RecordedCall where
  ops := .initial n tx
  events := []

/-- The events of a step. -/
def newEvents (w : RemoteOps) : RemoteLabel → List TxnEvent
  | .call c => ((stepTxn w.node w.thread c).bind TxnStep.event).toList
  | _ => []

def step (w : RecordedCall) (l : RemoteLabel) : Option RecordedCall :=
  (w.ops.step l).map fun ops => { ops, events := w.events ++ newEvents w.ops l }

/-- No response is late. -/
def onTime (w : RecordedCall) (l : RemoteLabel) : Bool := w.ops.onTime l

/-- The operations executed, with their outcomes. -/
def ran (w : RecordedCall) : List (Operation × Outcome) := ranEvents w.events

/-- The number of the `j`-th operation among those begun at other nodes. -/
def number (w : RecordedCall) (j : ℕ) : ℕ := (w.ran.take j).countP (·.2.isRemote)

/-- The response to operation `j` carried these values, and has been handled. -/
def OwnAnswer (w : RecordedCall) (j : ℕ) (op : Operation) (values : ValueContainer) : Prop :=
  ∃ result, .answered (w.number j) op (.opResp w.ops.thread.txId op.key result) ∈ w.ops.hist ∧
    .processed (w.number j) (.opResp w.ops.thread.txId op.key result) ∈ w.ops.hist ∧
    values = result.getD []

/-- **What operation `j` obtained**: what the store had, what its own response carried, or nothing
when it was not answered. -/
def Obtained (w : RecordedCall) (j : ℕ) (v : Option ValueContainer) : Prop :=
  ∃ op outcome, w.ran[j]? = some (op, outcome) ∧ outcome.value = v ∧
    ∀ values, outcome = .remote (some values) → w.OwnAnswer j op values

/-- **Each read slot gets its own read.** -/
def OwnReads (w : RecordedCall) (request : TxnRequest) (results : Results) : Prop :=
  ∃ body, createReply request.message.body results = some body ∧
    ∀ j key slot, request.ops[j]? = some (.read key slot) →
      ∃ v, w.Obtained j v ∧ replySlot body j = some (slotJson v)

/-- The call got its locks and has returned `results`, and its operations fared so. -/
structure Ended (w : RecordedCall) (fates : List Fate) (results : Results) : Prop where
  returned : w.ops.thread.pc = .returned results
  kept : .aborted ∉ w.events
  fates : w.ran.map (·.2.fate) = fates

instance (w : RecordedCall) (fates : List Fate) (results : Results) :
    Decidable (w.Ended fates results) :=
  decidable_of_iff (w.ops.thread.pc = .returned results ∧ .aborted ∉ w.events ∧
    w.ran.map (·.2.fate) = fates) ⟨fun ⟨hr, hk, hf⟩ => ⟨hr, hk, hf⟩, fun ⟨hr, hk, hf⟩ => ⟨hr, hk, hf⟩⟩

/-! ## 2. What every run keeps -/

/-- The invariant of a call that is told its events. -/
structure Inv (w : RecordedCall) : Prop where
  traced : Traced w.ops.thread w.events
  /-- Remote operations are begun in order. -/
  begun : w.ops.begun
    = (w.ran.filter (·.2.isRemote)).map Prod.fst ++ w.ops.thread.pc.remoteOp.toList
  /-- A value that was returned is that of its operation. -/
  returned : ∀ j op values, w.ran[j]? = some (op, Outcome.remote (some values)) →
    .returned (w.number j) op values ∈ w.ops.hist
  /-- An append is answered with null. -/
  answered : ∀ i op t k result, .answered i op (.opResp t k result) ∈ w.ops.hist →
    op.type = .APPEND → result = none
  /-- A local append has no result. -/
  appended : ∀ op result, (op, .local result) ∈ w.ran → op.type = .APPEND → result = none

theorem inv_initial (n : Node) (tx : Transaction) : Inv (initial n tx) where
  traced := traced_fresh tx
  begun := rfl
  returned _ _ _ h := absurd h (by simp [ran, initial, ranEvents])
  answered _ _ _ _ _ h := absurd h (by simp [initial, RemoteOps.initial])
  appended _ _ h := absurd h (by simp [ran, initial, ranEvents])

section Step

variable {w w' : RecordedCall}

/-- **What a step of the call does to its remote operations and its record**: it executes an
operation, begins one, or does neither. -/
theorem ran_effect {n : Node} {t : TxnThread} {c : Choice} {r : TxnStep}
    (h : TxnStepped n t c r) :
    (∃ op outcome, r.event = some (.ran op outcome) ∧ r.thread.pc.remoteOp = none ∧
      RemoteOps.begins r = [] ∧
      (∀ values, outcome = .remote (some values) → RemoteOps.value r = some (op, values)) ∧
      ((∃ result, outcome = .local result ∧ t.pc.remoteOp = none ∧
          (op.type = .APPEND → result = none)) ∨
        ∃ result, outcome = .remote result ∧ t.pc.remoteOp = some op)) ∨
    (r.event.bind ranEvent = none ∧
      t.pc.remoteOp.toList ++ RemoteOps.begins r = r.thread.pc.remoteOp.toList) := by
  cases h with
  | @ranLocal op rest results hpc _ =>
    refine .inl ⟨op, _, rfl, rfl, rfl, by simp, .inl ⟨_, rfl, by rw [hpc]; rfl, fun htype => ?_⟩⟩
    cases op with
    | append key value => rfl
    | read key => exact absurd htype (by simp [Operation.type])
  | opThrew hpc _ =>
    exact .inl ⟨_, _, rfl, rfl, rfl, by simp, .inr ⟨_, rfl, by rw [hpc]; rfl⟩⟩
  | opTimedOut hpc =>
    exact .inl ⟨_, _, rfl, rfl, rfl, by simp, .inr ⟨_, rfl, by rw [hpc]; rfl⟩⟩
  | opRetrieved hpc =>
    refine .inl ⟨_, _, rfl, rfl, rfl, fun values hv => ?_, .inr ⟨_, rfl, by rw [hpc]; rfl⟩⟩
    rw [Outcome.remote.injEq] at hv
    simp only [RemoteOps.value, hv]
  | opBegin hpc _ _ => exact .inr ⟨rfl, by rw [hpc]; rfl⟩
  | opSent hpc _ => exact .inr ⟨rfl, by rw [hpc]; rfl⟩
  | opChecked hpc => exact .inr ⟨rfl, by rw [hpc]; rfl⟩
  | opAnswered hpc => exact .inr ⟨rfl, by rcases hpc with hpc | hpc <;> rw [hpc] <;> rfl⟩
  | opSleptOn hpc => exact .inr ⟨rfl, by simp [RemoteOps.begins, hpc]⟩
  | sleptOn hpc _ _ _ => exact .inr ⟨rfl, by simp [RemoteOps.begins, hpc]⟩
  | aborting hpc _ => exact .inr ⟨(releaseAllStage_event _).1, by rw [hpc]; rfl⟩
  | releasing hpc _ => exact .inr ⟨(releaseAllStage_event _).1, by rw [hpc]; rfl⟩
  | call hpc _ => exact .inr ⟨rfl, by simp [hpc, Pc.remoteOp, RemoteOps.begins]⟩
  | _ => simp_all [Pc.remoteOp, RemoteOps.begins, TxnThread.goto, ranEvent]

/-- The record after an event. -/
theorem ran_append (w : RecordedCall) (ops : RemoteOps) (e : Option TxnEvent) :
    ran { ops, events := w.events ++ e.toList } = w.ran ++ (e.bind ranEvent).toList := by
  rw [ran, ranEvents_append, ← ran]
  cases e with
  | none => simp [ranEvents]
  | some e => cases h : ranEvent e <;> simp [ranEvents, h]

/-- A number does not depend on what comes later. -/
theorem number_append {w w' : RecordedCall} {more : List (Operation × Outcome)} {j : ℕ}
    (h : w'.ran = w.ran ++ more) (hj : j ≤ w.ran.length) : w'.number j = w.number j := by
  rw [number, number, h, List.take_append_of_le_length hj]

/-- A step that is none of the call. -/
theorem Inv.of_same (h : Inv w) (hthread : w'.ops.thread = w.ops.thread)
    (hevents : w'.events = w.events) (hbegun : w'.ops.begun = w.ops.begun)
    (hhist : ∀ e ∈ w.ops.hist, e ∈ w'.ops.hist)
    (hanswered : ∀ i op t k result, .answered i op (.opResp t k result) ∈ w'.ops.hist →
      op.type = .APPEND → result = none) : Inv w' where
  traced := by rw [hthread, hevents]; exact h.traced
  begun := by rw [hthread, hbegun, ran, hevents]; exact h.begun
  returned j op values hj := by
    rw [ran, hevents] at hj
    rw [number, ran, hevents]
    exact hhist _ (h.returned j op values hj)
  answered := hanswered
  appended op result hop := by
    rw [ran, hevents] at hop
    exact h.appended op result hop

/-- **The call makes a step.** -/
theorem Inv.call (h : Inv w) {c : Choice} {r : TxnStep}
    (hr : stepTxn w.ops.node w.ops.thread c = some r) :
    Inv { ops := w.ops.afterCall r, events := w.events ++ r.event.toList } := by
  have hstepped := stepTxn_spec hr
  have htraced := traced_step h.traced hstepped
  have hran := w.ran_append (w.ops.afterCall r) r.event
  have hhist : ∀ e ∈ w.ops.hist, e ∈ (w.ops.afterCall r).hist := fun e he =>
    List.mem_append_left _ he
  have hanswered : ∀ i op t k result,
      .answered i op (.opResp t k result) ∈ (w.ops.afterCall r).hist → op.type = .APPEND →
        result = none := by
    intro i op t k result hi
    simp only [RemoteOps.afterCall, List.mem_append, List.mem_map, reduceCtorEq, and_false,
      exists_false, or_false] at hi
    exact h.answered i op t k result hi
  have hold : ∀ j op values, w.ran[j]? = some (op, .remote (some values)) →
      .returned (number { ops := w.ops.afterCall r, events := w.events ++ r.event.toList } j) op
        values ∈ (w.ops.afterCall r).hist := by
    intro j op values hj
    rw [number_append hran (List.getElem?_eq_some_iff.mp hj).1.le]
    exact hhist _ (h.returned j op values hj)
  rcases ran_effect hstepped with ⟨op, outcome, hevent, hidle, hbegins, hvalue, hkind⟩ |
    ⟨hevent, hbegins⟩
  · -- an operation has been executed
    simp only [hevent, Option.bind_some, ranEvent, Option.toList_some] at hran ⊢
    simp only [hevent, Option.toList_some] at hold htraced
    refine ⟨htraced, ?_, fun j op' values hj => ?_, hanswered,
      fun op' result hop => ?_⟩
    · show w.ops.begun ++ RemoteOps.begins r = _
      rw [hran, show (w.ops.afterCall r).thread.pc.remoteOp = none from hidle, hbegins, h.begun]
      rcases hkind with ⟨result, rfl, hnone, -⟩ | ⟨result, rfl, hsome⟩
      · simp [Outcome.isRemote, hnone]
      · simp [Outcome.isRemote, hsome]
    · rw [hran] at hj
      rcases Nat.lt_or_ge j w.ran.length with hlt | hge
      · rw [List.getElem?_append_left hlt] at hj
        exact hold j op' values hj
      · -- it is the new one, and the current one among those begun
        obtain rfl : j = w.ran.length := by
          have := (List.getElem?_eq_some_iff.mp hj).1
          simp only [List.length_append, List.length_singleton] at this
          omega
        simp only [List.getElem?_append_right le_rfl, Nat.sub_self, List.getElem?_cons_zero,
          Option.some.injEq, Prod.mk.injEq] at hj
        obtain ⟨rfl, rfl⟩ := hj
        rcases hkind with ⟨result, hlocal, -⟩ | ⟨result, -, hsome⟩
        · exact absurd hlocal (by simp)
        · have hnumber : number { ops := w.ops.afterCall r
                                  events := w.events ++ [.ran op (.remote (some values))] }
              w.ran.length = w.ops.current := by
            rw [number_append hran le_rfl, number, List.take_length, RemoteOps.current, h.begun,
              hsome, List.countP_eq_length_filter]
            simp
          rw [hnumber]
          refine List.mem_append_right _ ?_
          simp [hvalue values rfl]
    · rw [hran, List.mem_append, List.mem_singleton] at hop
      rcases hop with hop | hop
      · exact h.appended op' result hop
      · obtain ⟨rfl, rfl⟩ := Prod.mk.inj hop
        rcases hkind with ⟨result', hlocal, -, happ⟩ | ⟨result', hremote, -⟩
        · obtain rfl := Outcome.local.inj hlocal
          exact happ
        · exact absurd hremote (by simp)
  · rw [hevent, Option.toList_none, List.append_nil] at hran
    refine ⟨htraced, ?_, fun j op values hj => ?_, hanswered, fun op result hop => ?_⟩
    · show w.ops.begun ++ RemoteOps.begins r = _
      rw [hran, h.begun, List.append_assoc, hbegins]
      rfl
    · rw [hran] at hj
      exact hold j op values hj
    · rw [hran] at hop
      exact h.appended op result hop

theorem inv_step (h : Inv w) {l : RemoteLabel} (hs : w.step l = some w') : Inv w' := by
  obtain ⟨ops, hops, rfl⟩ := Option.map_eq_some_iff.mp hs
  cases l with
  | call c =>
    obtain ⟨r, hr, rfl⟩ := Option.map_eq_some_iff.mp hops
    have hnew : newEvents w.ops (.call c) = r.event.toList := by
      simp [newEvents, hr]
    rw [hnew]
    exact h.call hr
  | answer peer pos p =>
    obtain ⟨⟨i, op⟩, -, rfl⟩ := Option.map_eq_some_iff.mp hops
    refine h.of_same rfl (List.append_nil _) rfl (fun e he => List.mem_append_left _ he) ?_
    intro i' op' t k result hi htype
    simp only [List.mem_append, List.mem_singleton] at hi
    rcases hi with hi | hi
    · exact h.answered i' op' t k result hi htype
    · simp only [RemoteEvent.answered.injEq, Node.handleOperationRequest,
        Message.opResp.injEq] at hi
      obtain ⟨-, rfl, -, -, rfl⟩ := hi
      cases op' with
      | append key value => rfl
      | read key => exact absurd htype (by simp [Operation.type])
  | deliver peer =>
    simp only [RemoteOps.step] at hops
    split at hops
    · exact absurd hops (by simp)
    · obtain ⟨x, -, rfl⟩ := Option.map_eq_some_iff.mp hops
      refine h.of_same rfl (List.append_nil _) rfl (fun e he => List.mem_append_left _ he) ?_
      intro i op t k result hi htype
      simp only [List.mem_append, List.mem_singleton, reduceCtorEq, or_false] at hi
      exact h.answered i op t k result hi htype
  | env n =>
    rw [RemoteOps.step, Option.some.injEq] at hops
    subst hops
    exact h.of_same rfl (List.append_nil _) rfl (fun e he => he) h.answered

end Step

theorem inv_of_run {n : Node} {tx : Transaction} {w : RecordedCall}
    (hr : Run step (fun w l => w.onTime l = true) (initial n tx) w) : Inv w :=
  Run.invariant (I := Inv) hr (inv_initial n tx) fun _ _ _ h _ hs => inv_step h hs

/-- The run of its remote operations. -/
theorem run_ops {n : Node} {tx : Transaction} {w : RecordedCall}
    (hr : Run step (fun w l => w.onTime l = true) (initial n tx) w) :
    Run RemoteOps.step (fun w l => w.onTime l = true) (.initial n tx) w.ops := by
  induction hr with
  | refl => exact .refl
  | tail _ hok hs ih =>
    obtain ⟨ops, hops, rfl⟩ := Option.map_eq_some_iff.mp hs
    exact ih.tail hok hops

/-- The call executes the transaction that it was made for. -/
theorem tx_of_run {n : Node} {tx : Transaction} {w : RecordedCall}
    (hr : Run step (fun w l => w.onTime l = true) (initial n tx) w) : w.ops.thread.tx = tx := by
  refine Run.invariant (I := fun w : RemoteOps => w.thread.tx = tx) (run_ops hr) rfl ?_
  intro w l w' h _ hs
  cases l with
  | call c =>
    obtain ⟨r, hr, rfl⟩ := Option.map_eq_some_iff.mp hs
    exact (stepTxn_spec hr).tx_eq.trans h
  | answer peer pos p =>
    obtain ⟨q, -, rfl⟩ := Option.map_eq_some_iff.mp hs
    exact h
  | deliver peer =>
    simp only [RemoteOps.step] at hs
    split at hs
    · exact absurd hs (by simp)
    · obtain ⟨x, -, rfl⟩ := Option.map_eq_some_iff.mp hs
      exact h
  | env n =>
    rw [RemoteOps.step, Option.some.injEq] at hs
    subst hs
    exact h

/-! ## 3. The slots of a call -/

section Slots

variable {n : Node} {request : TxnRequest} {fates : List Fate} {results : Results}
  {w : RecordedCall}

/-- **Without late responses every value is that of the operation's own response.** -/
theorem ownAnswer_of_run
    (hr : Run step (fun w l => w.onTime l = true) (initial n request.transaction) w) {j : ℕ}
    {op : Operation} {values : ValueContainer}
    (hj : w.ran[j]? = some (op, .remote (some values))) : w.OwnAnswer j op values := by
  have hinv := inv_of_run hr
  exact (RemoteOps.inv_of_run (run_ops hr)).own _ _ _ (hinv.returned j op values hj)

/-- What a call that has ended executed, and with what results. -/
theorem Ended.ran (h : w.Ended fates results)
    (hr : Run step (fun w l => w.onTime l = true) (initial n request.transaction) w) :
    w.ran.map Prod.fst = request.transaction ∧ results = collectAll w.ran := by
  have hinv := inv_of_run hr
  have hret := hinv.traced.returned h.returned
  rw [if_neg h.kept, tx_of_run hr] at hret
  exact hret

theorem Ended.zip_fates (h : w.Ended fates results)
    (hr : Run step (fun w l => w.onTime l = true) (initial n request.transaction) w) :
    request.transaction.zip fates = w.ran.map fun x => (x.1, x.2.fate) := by
  rw [← (h.ran hr).1, ← h.fates, List.zip_map']

/-- **Its outcomes fit the way its operations fared.** -/
theorem Ended.fits (h : w.Ended fates results)
    (hr : Run step (fun w l => w.onTime l = true) (initial n request.transaction) w) :
    List.Forall₂ Fits (request.transaction.zip fates) (w.ran.map Prod.snd) := by
  have hinv := inv_of_run hr
  rw [h.zip_fates hr, List.forall₂_map_left_iff, List.forall₂_map_right_iff, List.forall₂_same]
  rintro ⟨op, outcome⟩ hx
  cases outcome with
  | «local» result => exact ⟨rfl, hinv.appended op result hx⟩
  | remote result =>
    cases result with
    | none => rfl
    | some values =>
      obtain ⟨j, hj⟩ := List.getElem?_of_mem hx
      obtain ⟨result, hanswered, -, rfl⟩ := ownAnswer_of_run hr hj
      refine ⟨rfl, fun htype => ?_⟩
      rw [hinv.answered _ _ _ _ _ hanswered htype]
      rfl

/-- **The slots are right, in terms of the run and in terms of the outcomes.** -/
theorem ownReads_iff (h : w.Ended fates results)
    (hr : Run step (fun w l => w.onTime l = true) (initial n request.transaction) w) :
    w.OwnReads request results ↔ OwnSlots request (w.ran.map Prod.snd) := by
  obtain ⟨hops, hresults⟩ := h.ran hr
  have hzip : request.transaction.zip (w.ran.map Prod.snd) = w.ran := by
    rw [← hops, List.zip_map', List.map_id']
  have hlen : w.ran.length = request.ops.length := by
    rw [← List.length_map Prod.fst, hops, TxnRequest.transaction, List.length_map]
  rw [OwnReads, OwnSlots, hzip, ← hresults]
  constructor
  · rintro ⟨body, hbody, hslots⟩
    refine ⟨body, hbody, fun j key slot outcome hj hout => ?_⟩
    obtain ⟨v, ⟨op, outcome', hran, rfl, -⟩, hslot⟩ := hslots j key slot hj
    rw [List.getElem?_map, hran, Option.map_some, Option.some.injEq] at hout
    rw [hslot, ← hout]
  · rintro ⟨body, hbody, hslots⟩
    refine ⟨body, hbody, fun j key slot hj => ?_⟩
    have hlt : j < w.ran.length := hlen ▸ (List.getElem?_eq_some_iff.mp hj).1
    have hran : w.ran[j]? = some w.ran[j] := List.getElem?_eq_getElem hlt
    refine ⟨w.ran[j].2.value, ⟨w.ran[j].1, w.ran[j].2, hran, rfl, fun values hv => ?_⟩, ?_⟩
    · exact ownAnswer_of_run hr (hran.trans (by rw [← hv]))
    · exact hslots j key slot w.ran[j].2 hj (by rw [List.getElem?_map, hran, Option.map_some])

end Slots

/-! ## 4. Every way to fare is that of a run

Nothing else happens on the node (`calm`), each lock is granted at once, and a peer answers with
what is to be obtained. -/

/-- The call is where it is said to be, and no response is under way. -/
structure At (routing : Routing) (tx : Transaction) (w : RecordedCall) (pc : Pc)
    (ran : List (Operation × Outcome)) : Prop where
  routing : w.ops.node.routing = routing
  tx : w.ops.thread.tx = tx
  pc : w.ops.thread.pc = pc
  responses : ∀ peer, w.ops.responses peer = []
  ran : w.ran = ran
  kept : .aborted ∉ w.events

/-- A run without late responses. -/
abbrev Leads (w w' : RecordedCall) : Prop := Run step (fun w l => w.onTime l = true) w w'

/-- The node as nobody else uses it, with this store. -/
def calm (w : RemoteOps) (store : ThreadSafeKVStore) : Node :=
  w.meanwhile (.fresh w.node.routing store)

/-- The state after a step of the call. -/
def called (w : RecordedCall) (r : TxnStep) : RecordedCall where
  ops := w.ops.afterCall r
  events := w.events ++ r.event.toList

/-- A store in which a key has these values. -/
def storeWith (values : Option ValueContainer) : ThreadSafeKVStore where
  hash := fun key => key.toUInt64
  stripes := fun _ _ => values

section Schedules

variable {routing : Routing} {tx : Transaction} {w : RecordedCall} {pc : Pc}
  {ran : List (Operation × Outcome)} {c : Choice} {r : TxnStep}

/-- Nobody else has done anything. -/
theorem At.exists_calm (h : At routing tx w pc ran) (store : ThreadSafeKVStore) :
    ∃ w', Leads w w' ∧ At routing tx w' pc ran ∧
      w'.ops = { w.ops with node := calm w.ops store } := by
  refine ⟨⟨{ w.ops with node := calm w.ops store }, w.events⟩,
    Run.refl.tail (l := .env (.fresh w.ops.node.routing store)) rfl ?_,
    ⟨h.routing, h.tx, h.pc, h.responses, h.ran, h.kept⟩, rfl⟩
  simp only [step, RemoteOps.step, Option.map_some, newEvents, List.append_nil]
  rfl

theorem At.leads_called (h : At routing tx w pc ran)
    (hr : stepTxn w.ops.node w.ops.thread c = some r) (hkept : r.event ≠ some .aborted) :
    Leads w (w.called r) ∧
      At routing tx (w.called r) r.thread.pc (ran ++ (r.event.bind ranEvent).toList) := by
  have hstepped := stepTxn_spec hr
  refine ⟨Run.refl.tail (l := .call c) rfl ?_, hstepped.routing_eq.trans h.routing,
    hstepped.tx_eq.trans h.tx, rfl, h.responses, ?_, ?_⟩
  · simp only [step, RemoteOps.step, hr, Option.map_some, newEvents, Option.bind_some]
    rfl
  · rw [← h.ran]
    exact w.ran_append (w.ops.afterCall r) r.event
  · simp only [called, List.mem_append, Option.mem_toList]
    exact not_or.mpr ⟨h.kept, hkept⟩

/-- A step of the call that executes no operation. -/
theorem At.leads_silently (h : At routing tx w pc ran)
    (hr : stepTxn w.ops.node w.ops.thread c = some r) (hevent : r.event.bind ranEvent = none)
    (hkept : r.event ≠ some .aborted) :
    Leads w (w.called r) ∧ At routing tx (w.called r) r.thread.pc ran := by
  have hcalled := h.leads_called hr hkept
  rwa [hevent, Option.toList_none, List.append_nil] at hcalled

theorem At.exists_called (h : At routing tx w pc ran)
    (hr : stepTxn w.ops.node w.ops.thread c = some r) (hevent : r.event.bind ranEvent = none)
    (hkept : r.event ≠ some .aborted) :
    ∃ w', Leads w w' ∧ At routing tx w' r.thread.pc ran :=
  ⟨_, h.leads_silently hr hevent hkept⟩

/-- The call locks its local keys. -/
theorem At.exists_locked (todo : List KeyType) {w : RecordedCall}
    (h : At routing tx w (.locking todo .emplace) ran) :
    ∃ w', Leads w w' ∧ At routing tx w' (.locking [] .emplace) ran := by
  induction todo generalizing w with
  | nil => exact ⟨w, .refl, h⟩
  | cons key todo ih =>
    obtain ⟨w₁, h₁, hat₁⟩ := h.exists_called (c := {}) (r := _)
      (by rw [stepTxn, h.pc]; rfl) rfl (by simp)
    obtain ⟨w₂, h₂, hat₂⟩ := hat₁.exists_called (c := {}) (r := _)
      (by rw [stepTxn, hat₁.pc]; rfl) rfl (by simp)
    obtain ⟨w₃, h₃, hat₃, hops⟩ := hat₂.exists_calm (storeWith none)
    -- nobody else has the key
    have hfree : w₃.ops.node.lockManager = .empty := by rw [hops]; rfl
    obtain ⟨w₄, h₄, hat₄⟩ := hat₃.exists_called (c := {}) (r := _)
      (by rw [stepTxn, hat₃.pc]; simp only [TxnThread.stepLocking, hfree]; rfl) rfl (by simp)
    obtain ⟨w', h', hat'⟩ := ih hat₄
    exact ⟨w', (((h₁.trans h₂).trans h₃).trans h₄).trans h', hat'⟩

/-- It asks for its remote keys. -/
theorem At.exists_requested (pairs : List (NodeID × KeyType)) {w : RecordedCall}
    (h : At routing tx w (.requesting pairs) ran) :
    ∃ w', Leads w w' ∧ At routing tx w' (.requesting []) ran := by
  induction pairs generalizing w with
  | nil => exact ⟨w, .refl, h⟩
  | cons p pairs ih =>
    obtain ⟨w₁, h₁, hat₁⟩ := h.exists_called (c := {}) (r := _)
      (by rw [stepTxn, h.pc]; rfl) rfl (by simp)
    obtain ⟨w', h', hat'⟩ := ih hat₁
    exact ⟨w', h₁.trans h', hat'⟩

/-- **A call gets its locks.** -/
theorem At.exists_begun (h : At routing tx w .idle ran) :
    ∃ w', Leads w w' ∧ At routing tx w' (.executing tx []) ran := by
  obtain ⟨keys, hkeys⟩ := exists_enumerates (w.ops.node.localKeys w.ops.thread.tx)
  obtain ⟨w₁, h₁, hat₁⟩ := h.exists_called (c := { keys }) (r := _)
    (by rw [stepTxn, h.pc]; exact if_pos hkeys) rfl (by simp)
  obtain ⟨w₂, h₂, hat₂⟩ := hat₁.exists_locked
  obtain ⟨w₃, h₃, hat₃, hops⟩ := hat₂.exists_calm (storeWith none)
  have h₁₃ := (h₁.trans h₂).trans h₃
  have hmutex : w₃.ops.node.distributedMutex = false := by rw [hops]; rfl
  by_cases hrem : w₃.ops.node.remotePairs w₃.ops.thread.tx = ∅
  · obtain ⟨w', h', hat'⟩ := hat₃.exists_called (c := {}) (r := _)
      (by rw [stepTxn, hat₃.pc]; exact if_pos hrem) rfl (by simp)
    rw [TxnThread.goto, hat₃.tx] at hat'
    exact ⟨w', h₁₃.trans h', hat'⟩
  · obtain ⟨pairs, hpairs⟩ := exists_enumerates (w₃.ops.node.remotePairs w₃.ops.thread.tx)
    obtain ⟨w₄, h₄, hat₄⟩ := hat₃.exists_called (c := { pairs }) (r := _)
      (by rw [stepTxn, hat₃.pc]; exact (if_neg hrem).trans (if_pos ⟨hmutex, hpairs⟩)) rfl (by simp)
    obtain ⟨w₅, h₅, hat₅⟩ := hat₄.exists_requested
    -- the grants have been handled
    obtain ⟨w₆, h₆, hat₆, hops⟩ := hat₅.exists_calm (storeWith none)
    have hpending : w₆.ops.node.pendingLocks w₆.ops.thread.txId = ∅ := by rw [hops]; rfl
    obtain ⟨w', h', hat'⟩ := hat₆.exists_called (c := {}) (r := _)
      (by rw [stepTxn, hat₆.pc]; exact if_pos hpending) rfl (by simp)
    rw [TxnThread.goto, hat₆.tx] at hat'
    exact ⟨w', (((h₁₃.trans h₄).trans h₅).trans h₆).trans h', hat'⟩

/-- It sends its releases. -/
theorem At.exists_sent (pairs : List (NodeID × KeyType)) {results : Results} {w : RecordedCall}
    (h : At routing tx w (.sendingReleases pairs results false) ran) :
    ∃ w', Leads w w' ∧ At routing tx w' (.returned results) ran := by
  induction pairs generalizing w with
  | nil =>
    obtain ⟨w₁, h₁, hat₁⟩ := h.exists_called (c := {}) (r := _)
      (by rw [stepTxn, h.pc]; rfl) rfl (by simp)
    exact ⟨w₁, h₁, hat₁⟩
  | cons p pairs ih =>
    obtain ⟨w₁, h₁, hat₁⟩ := h.exists_called (c := {}) (r := _)
      (by rw [stepTxn, h.pc]; rfl) rfl (by simp)
    obtain ⟨w', h', hat'⟩ := ih hat₁
    exact ⟨w', h₁.trans h', hat'⟩

/-- **A call that has executed its operations returns.** -/
theorem At.exists_returned {results : Results} (h : At routing tx w (.executing [] results) ran) :
    ∃ w', Leads w w' ∧ At routing tx w' (.returned results) ran := by
  obtain ⟨w₁, h₁, hat₁⟩ := h.exists_called (c := {}) (r := _)
    (by rw [stepTxn, h.pc]; rfl) rfl (by simp)
  obtain ⟨w₂, h₂, hat₂, hops⟩ := hat₁.exists_calm (storeWith none)
  -- there is nothing to release
  have hheld : Enumerates [] (w₂.ops.node.lockManager.keysToRelease w₂.ops.thread.txId) := by
    rw [hops]
    exact ⟨List.nodup_nil, rfl⟩
  obtain ⟨w₃, h₃, hat₃⟩ := hat₂.exists_called (c := {}) (r := _)
    (by
      rw [stepTxn, hat₂.pc]
      simp only [TxnThread.stepReleasing, releaseAllStep, if_pos hheld]
      rfl) rfl (by simp [ReleaseAllStage.event])
  obtain ⟨pairs, hpairs⟩ := exists_enumerates (w₃.ops.node.remotePairs w₃.ops.thread.tx)
  obtain ⟨w₄, h₄, hat₄⟩ := hat₃.exists_called (c := { pairs }) (r := _)
    (by rw [stepTxn, hat₃.pc]; exact if_pos hpairs) rfl (by simp)
  obtain ⟨w', h', hat'⟩ := hat₄.exists_sent
  exact ⟨w', (((h₁.trans h₂).trans h₃).trans h₄).trans h', hat'⟩

variable {op : Operation} {rest : List Operation} {results : Results}

/-- A local operation finds what the store has. -/
theorem At.exists_ranLocal (h : At routing tx w (.executing (op :: rest) results) ran)
    (hlocal : routing.primary op.key = routing.localNodeId) {result : Option ValueContainer}
    (happ : op.type = .APPEND → result = none) :
    ∃ w', Leads w w' ∧ At routing tx w' (.executing rest (collect results op (.local result)))
      (ran ++ [(op, .local result)]) := by
  obtain ⟨w₁, h₁, hat₁, hops⟩ := h.exists_calm (storeWith result)
  have hresult : (NaiveOpExecutor.accept w₁.ops.node.store op).2 = result := by
    rw [hops]
    cases op with
    | read key => rfl
    | append key value => exact (happ rfl).symm
  have hprimary : w₁.ops.node.primary op.key = w₁.ops.node.routing.localNodeId := by
    rw [Node.primary, hat₁.routing, hlocal]
  have hran : stepTxn w₁.ops.node w₁.ops.thread {} = some
      { node := { w₁.ops.node with store := (NaiveOpExecutor.accept w₁.ops.node.store op).1 }
        thread := w₁.ops.thread.goto (.executing rest (collect results op (.local result)))
        event := some (.ran op (.local result)) } := by
    rw [stepTxn, hat₁.pc, ← hresult]
    exact if_pos hprimary
  obtain ⟨h₂, hat₂⟩ := hat₁.leads_called hran (by simp)
  exact ⟨_, h₁.trans h₂, hat₂⟩

/-- A remote operation is asked for, and waits for its answer. -/
theorem At.exists_asked (h : At routing tx w (.executing (op :: rest) results) ran)
    (hremote : routing.primary op.key ≠ routing.localNodeId) :
    ∃ w', Leads w w' ∧ At routing tx w' (.opChecking op rest results) ran ∧
      w'.ops.node.distributedMutex = false ∧
      w'.ops.node.opPending w'.ops.thread.txId (routing.primary op.key, op.key) = true ∧
      ∃ pos : ℕ, (w'.ops.requests (routing.primary op.key))[pos]?
        = some (w'.ops.current, op) := by
  obtain ⟨w₁, h₁, hat₁, hops⟩ := h.exists_calm (storeWith none)
  have hmutex : w₁.ops.node.distributedMutex = false := by rw [hops]; rfl
  have hprimary : w₁.ops.node.primary op.key = routing.primary op.key := by
    rw [Node.primary, hat₁.routing]
  have hne : w₁.ops.node.primary op.key ≠ w₁.ops.node.routing.localNodeId := by
    rw [hprimary, hat₁.routing]
    exact hremote
  have hbegun : stepTxn w₁.ops.node w₁.ops.thread {} = some
      { node := w₁.ops.node.insertPendingOp w₁.ops.thread.txId (w₁.ops.node.primary op.key, op.key)
        thread := w₁.ops.thread.goto (.opSending op rest results) } := by
    rw [stepTxn, hat₁.pc]
    simp only [TxnThread.stepExecuting, if_neg hne, hmutex, Bool.false_eq_true, if_false]
  obtain ⟨h₂, hat₂⟩ := hat₁.leads_silently hbegun rfl (by simp)
  obtain ⟨h₃, hat₃⟩ := hat₂.leads_silently (c := {}) (r := _)
    (by rw [stepTxn, hat₂.pc]; rfl) rfl (by simp)
  refine ⟨_, (h₁.trans h₂).trans h₃, hat₃, hmutex, ?_, ?_⟩
  · simp [called, RemoteOps.afterCall, Node.insertPendingOp, Node.opPending, TxnThread.goto,
      hprimary]
  · refine ⟨(w₁.ops.requests (routing.primary op.key)).length, ?_⟩
    simp [called, RemoteOps.afterCall, RemoteOps.request, RemoteOps.begins, RemoteOps.current,
      TxnThread.goto, Node.insertPendingOp, Node.primary, hat₁.routing]

/-- It times out. -/
theorem At.exists_lost (h : At routing tx w (.executing (op :: rest) results) ran)
    (hremote : routing.primary op.key ≠ routing.localNodeId) :
    ∃ w', Leads w w' ∧ At routing tx w' (.executing rest results)
      (ran ++ [(op, .remote none)]) := by
  obtain ⟨w₁, h₁, hat₁, hmutex, hpending, -⟩ := h.exists_asked hremote
  have hchecked : stepTxn w₁.ops.node w₁.ops.thread {} = some
      { node := w₁.ops.node, thread := w₁.ops.thread.goto (.opWaiting op rest results) } := by
    rw [← hat₁.routing, ← Node.primary] at hpending
    rw [stepTxn, hat₁.pc]
    simp only [TxnThread.stepOpChecking, hmutex, Bool.false_eq_true, if_false, hpending, if_true]
  obtain ⟨h₂, hat₂⟩ := hat₁.leads_silently hchecked rfl (by simp)
  generalize hw₂ : w₁.called _ = w₂ at h₂ hat₂
  have hmutex₂ : w₂.ops.node.distributedMutex = false := by rw [← hw₂]; exact hmutex
  have hlost : stepTxn w₂.ops.node w₂.ops.thread { timeout := true } = some
      { node := w₂.ops.node.erasePendingOp w₂.ops.thread.txId (w₂.ops.node.primary op.key, op.key)
        thread := w₂.ops.thread.goto (.executing rest results)
        event := some (.ran op (.remote none)) } := by
    rw [stepTxn, hat₂.pc]
    simp [TxnThread.goto, TxnThread.stepOpWaiting, hmutex₂]
  obtain ⟨h₃, hat₃⟩ := hat₂.leads_called hlost (by simp)
  exact ⟨_, (h₁.trans h₂).trans h₃, hat₃⟩

/-- The response to the operation that waits is handled at once. -/
theorem At.exists_delivered (h : At routing tx w (.opChecking op rest results) ran)
    (hmutex : w.ops.node.distributedMutex = false) {peer : NodeID} {pos : ℕ}
    (hpos : (w.ops.requests peer)[pos]? = some (w.ops.current, op)) {values : ValueContainer}
    (happ : op.type = .APPEND → values = []) :
    ∃ w', Leads w w' ∧ At routing tx w' (.opChecking op rest results) ran ∧
      w'.ops.thread = w.ops.thread ∧
      w'.ops.node = w.ops.node.handleOperationResponse peer w.ops.thread.txId op.key values := by
  -- the peer has what is to be obtained
  obtain ⟨result, hresult, hvalues⟩ : ∃ result,
      (NaiveOpExecutor.accept (storeWith (some values)) op).2 = result ∧
        result.getD [] = values := by
    cases op with
    | read key => exact ⟨_, rfl, rfl⟩
    | append key value => exact ⟨_, rfl, (happ rfl).symm⟩
  have hanswer : ((Node.fresh routing (storeWith (some values))).handleOperationRequest
      w.ops.thread.txId op.key (some op)).2 = .opResp w.ops.thread.txId op.key result := by
    rw [← hresult]
    rfl
  -- it answers the request
  have hanswered : w.step (.answer peer pos (.fresh routing (storeWith (some values)))) = some
      { w with ops := { w.ops with
          requests := Function.update w.ops.requests peer ((w.ops.requests peer).eraseIdx pos)
          responses := Function.update w.ops.responses peer
            [(w.ops.current, .opResp w.ops.thread.txId op.key result)]
          hist := w.ops.hist ++
            [.answered w.ops.current op (.opResp w.ops.thread.txId op.key result)] } } := by
    simp [step, RemoteOps.step, hpos, hanswer, h.responses peer, newEvents]
  generalize hw₁ : ({ w with ops := _ } : RecordedCall) = w₁ at hanswered
  -- and the response is handled
  have hresponses : w₁.ops.responses peer
      = [(w₁.ops.current, .opResp w.ops.thread.txId op.key result)] := by
    simp [← hw₁, RemoteOps.current]
  have hnode : w₁.ops.node = w.ops.node := by rw [← hw₁]
  have hthread : w₁.ops.thread = w.ops.thread := by rw [← hw₁]
  have hdelivered : w₁.step (.deliver peer) = some
      { w₁ with ops := { w₁.ops with
          node := w.ops.node.handleOperationResponse peer w.ops.thread.txId op.key values
          responses := Function.update w₁.ops.responses peer []
          hist := w₁.ops.hist ++
            [.processed w₁.ops.current (.opResp w.ops.thread.txId op.key result)] } } := by
    simp [step, RemoteOps.step, hresponses, hnode, handlePeerMessage_opResp hmutex, hvalues,
      newEvents]
  have hontime : w₁.onTime (.deliver peer) = true := by
    simp [onTime, RemoteOps.onTime, hresponses, hthread, h.pc, Pc.remoteOp]
  have h₁ : Leads w w₁ := Run.tail .refl rfl hanswered
  generalize hw₂ : ({ w₁ with ops := _ } : RecordedCall) = w₂ at hdelivered
  have h₂ : Leads w₁ w₂ := Run.tail .refl hontime hdelivered
  refine ⟨w₂, h₁.trans h₂, ?_, by rw [← hw₂]; exact hthread, by rw [← hw₂]⟩
  rw [← hw₂]
  refine ⟨h.routing, hthread ▸ h.tx, hthread ▸ h.pc, fun q => ?_, ?_, ?_⟩
  · by_cases hq : q = peer
    · subst hq
      simp
    · simp [hq, ← hw₁, h.responses q]
  · rw [← h.ran, ← hw₁]
    rfl
  · rw [← hw₁]
    exact h.kept

/-- **A remote operation is answered.** -/
theorem At.exists_answered (h : At routing tx w (.executing (op :: rest) results) ran)
    (hremote : routing.primary op.key ≠ routing.localNodeId) {values : ValueContainer}
    (happ : op.type = .APPEND → values = []) :
    ∃ w', Leads w w' ∧
      At routing tx w' (.executing rest (collect results op (.remote (some values))))
        (ran ++ [(op, .remote (some values))]) := by
  obtain ⟨w₁, h₁, hat₁, hmutex, -, pos, hpos⟩ := h.exists_asked hremote
  obtain ⟨w₂, h₂, hat₂, hthread, hnode⟩ := hat₁.exists_delivered hmutex hpos happ
  obtain ⟨hresult, hpending⟩ := handleOperationResponse_spec w₁.ops.node
    (routing.primary op.key) w₁.ops.thread.txId op.key values
  rw [← hnode, ← hthread] at hresult hpending
  have hmutex₂ : w₂.ops.node.distributedMutex = false := by
    rw [hnode]
    exact hmutex
  have hretrieves : stepTxn w₂.ops.node w₂.ops.thread {} = some
      { node := w₂.ops.node, thread := w₂.ops.thread.goto (.opRetrieving op rest results) } := by
    rw [← hat₂.routing, ← Node.primary] at hpending
    rw [stepTxn, hat₂.pc]
    simp [TxnThread.stepOpChecking, hmutex₂, hpending]
  obtain ⟨h₃, hat₃⟩ := hat₂.leads_silently hretrieves rfl (by simp)
  generalize hw₃ : w₂.called _ = w₃ at h₃ hat₃
  have hran : stepTxn w₃.ops.node w₃.ops.thread {} = some
      { node := w₃.ops.node
        thread := w₃.ops.thread.goto
          (.executing rest (collect results op (.remote (some values))))
        event := some (.ran op (.remote (some values))) } := by
    have hmutex₃ : w₃.ops.node.distributedMutex = false := by rw [← hw₃]; exact hmutex₂
    have hresult₃ : w₃.ops.node.remoteResult w₃.ops.thread.txId op.key = some values := by
      rw [← hw₃]
      exact hresult
    rw [stepTxn, hat₃.pc]
    simp [TxnThread.goto, TxnThread.stepOpRetrieving, hmutex₃, hresult₃]
  obtain ⟨h₄, hat₄⟩ := hat₃.leads_called hran (by simp)
  exact ⟨_, ((h₁.trans h₂).trans h₃).trans h₄, hat₄⟩

/-- The operation can have this outcome on a node with this routing. -/
def Possible (routing : Routing) (x : Operation × Outcome) : Prop :=
  (x.2.fate = .local ↔ routing.primary x.1.key = routing.localNodeId) ∧ Fits (x.1, x.2.fate) x.2

/-- **Operations can have any outcomes that are possible.** -/
theorem At.exists_ran (todo : List (Operation × Outcome)) {w : RecordedCall} {results : Results}
    {ran : List (Operation × Outcome)}
    (h : At routing tx w (.executing (todo.map Prod.fst) results) ran)
    (hall : ∀ x ∈ todo, Possible routing x) :
    ∃ w' results', Leads w w' ∧ At routing tx w' (.executing [] results') (ran ++ todo) := by
  induction todo generalizing w results ran with
  | nil => exact ⟨w, results, .refl, by simpa using h⟩
  | cons x todo ih =>
    obtain ⟨op, outcome⟩ := x
    obtain ⟨hlocal, hfits⟩ := hall _ List.mem_cons_self
    have hone : ∃ w₁ results₁, Leads w w₁ ∧
        At routing tx w₁ (.executing (todo.map Prod.fst) results₁) (ran ++ [(op, outcome)]) := by
      cases outcome with
      | «local» result =>
        obtain ⟨w₁, h₁, hat₁⟩ := h.exists_ranLocal (hlocal.mp rfl) hfits.2
        exact ⟨w₁, _, h₁, hat₁⟩
      | remote result =>
        have hremote : routing.primary op.key ≠ routing.localNodeId := fun heq => by
          have hfate := hlocal.mpr heq
          cases result <;> simp [Outcome.fate] at hfate
        cases result with
        | none =>
          obtain ⟨w₁, h₁, hat₁⟩ := h.exists_lost hremote
          exact ⟨w₁, _, h₁, hat₁⟩
        | some values =>
          obtain ⟨w₁, h₁, hat₁⟩ := h.exists_answered hremote hfits.2
          exact ⟨w₁, _, h₁, hat₁⟩
    obtain ⟨w₁, results₁, h₁, hat₁⟩ := hone
    obtain ⟨w', results', h', hat'⟩ := ih hat₁ fun x hx => hall x (List.mem_cons_of_mem _ hx)
    exact ⟨w', results', h₁.trans h', by simpa using hat'⟩

end Schedules

/-! ## 5. When each read slot gets its own read -/

/-- An assignment of the keys to the node and to others, and of what becomes of the operations: the
local ones are those whose key is the node's own. -/
def Assigned (n : Node) (tx : Transaction) (fates : List Fate) : Prop :=
  List.Forall₂ (fun op fate => fate = .local ↔ n.primary op.key = n.routing.localNodeId) tx fates

section Main

variable {n : Node} {tx : Transaction} {fates : List Fate} {outcomes : List Outcome}

theorem fate_of_fits {op : Operation} {fate : Fate} {outcome : Outcome}
    (h : Fits (op, fate) outcome) : outcome.fate = fate := by
  cases outcome with
  | «local» result => exact h.1.symm
  | remote result =>
    cases result with
    | none => exact h.symm
    | some values => exact h.1.symm

/-- Outcomes that fit are possible. -/
theorem possible_of_assigned (hassigned : Assigned n tx fates)
    (hfits : List.Forall₂ Fits (tx.zip fates) outcomes) :
    (∀ x ∈ tx.zip outcomes, Possible n.routing x) ∧ (tx.zip outcomes).map Prod.fst = tx ∧
      (tx.zip outcomes).map Prod.snd = outcomes ∧ outcomes.map Outcome.fate = fates := by
  induction hassigned generalizing outcomes with
  | nil => cases hfits with
    | nil => exact ⟨by simp, rfl, rfl, rfl⟩
  | @cons op fate tx fates hlocal _ ih =>
    cases hfits with
    | @cons _ outcome _ outcomes hfit hfits =>
      obtain ⟨hall, hops, houts, hfates⟩ := ih hfits
      have hfate := fate_of_fits hfit
      refine ⟨fun x hx => ?_, by simp [hops], by simp [houts], by simp [hfates, hfate]⟩
      rcases List.mem_cons.mp hx with rfl | hx
      · exact ⟨hfate ▸ hlocal, hfate.symm ▸ hfit⟩
      · exact hall x hx

/-- **Whatever fits is obtained in some run** without late responses. -/
theorem exists_run_of_fits (hassigned : Assigned n tx fates)
    (hfits : List.Forall₂ Fits (tx.zip fates) outcomes) :
    ∃ w results, Run step (fun w l => w.onTime l = true) (initial n tx) w ∧
      w.Ended fates results ∧ w.ran.map Prod.snd = outcomes := by
  obtain ⟨hall, hops, houts, hfates⟩ := possible_of_assigned hassigned hfits
  have h₀ : At n.routing tx (initial n tx) .idle [] :=
    ⟨rfl, rfl, rfl, fun _ => rfl, rfl, by simp [initial]⟩
  obtain ⟨w₁, h₁, hat₁⟩ := h₀.exists_begun
  obtain ⟨w₂, results, h₂, hat₂⟩ := At.exists_ran (tx.zip outcomes) (by rw [hops]; exact hat₁) hall
  obtain ⟨w', h', hat'⟩ := hat₂.exists_returned
  have hran : w'.ran = tx.zip outcomes := hat'.ran.trans (List.nil_append _)
  have hfates' : w'.ran.map (·.2.fate) = fates := by
    calc w'.ran.map (·.2.fate) = (w'.ran.map Prod.snd).map Outcome.fate := by
          rw [List.map_map]
          rfl
      _ = fates := by rw [hran, houts, hfates]
  exact ⟨w', results, (h₁.trans h₂).trans h', ⟨hat'.pc, hat'.kept, hfates'⟩, by rw [hran, houts]⟩

end Main

/-- **When each read slot gets its own read.**  For every request, every node, every assignment of
the keys to the node and to others, and every choice of the remote operations that are answered: the
slots are right in every run of the call in which no response is late, whatever else happens on the
node and whatever the peers hold, if and only if the transaction is aligned. -/
theorem read_slots_own_iff (request : TxnRequest) (n : Node) (fates : List Fate)
    (hassigned : Assigned n request.transaction fates) :
    (∀ w results, Run step (fun w l => w.onTime l = true) (initial n request.transaction) w →
      w.Ended fates results → w.OwnReads request results) ↔
    Aligned (request.transaction.zip fates) := by
  have hlen : fates.length = request.ops.length := by
    rw [← hassigned.length_eq, TxnRequest.transaction, List.length_map]
  constructor
  · intro hall
    by_contra hnot
    obtain ⟨outcomes, hfits, hslots⟩ := exists_not_ownSlots hlen hnot
    obtain ⟨w, results, hr, hended, rfl⟩ := exists_run_of_fits hassigned hfits
    exact hslots ((ownReads_iff hended hr).mp (hall w results hr hended))
  · intro haligned w results hr hended
    exact (ownReads_iff hended hr).mpr (ownSlots_of_aligned hlen (hended.fits hr) haligned)

/-! ## 6. Three calls on node 0 of three -/

/-- The releases of a call that asked for these pairs, and its return. -/
def endCall (pairs : List (NodeID × KeyType)) : List RemoteLabel :=
  [.call {}, .call {}, .call { pairs }] ++ pairs.map (fun _ => .call {}) ++ [.call {}]

/-- An operation is sent to `peer`, which answers with what this store makes of it. -/
def askAndAnswer (peer : NodeID) (pos : ℕ) (store : ThreadSafeKVStore) : List RemoteLabel :=
  [.call {}, .call {}, .answer peer pos (servingNode store), .deliver peer, .call {}, .call {}]

/-- A read that is lost, one that is answered, a local append and read, and an append that is
answered. -/
def mixedRequest : TxnRequest :=
  .ofOps [.read 2 .null, .read 1 .null, .append 0 7, .read 0 .null, .append 1 5]

def mixedFates : List Fate := [.lost, .answered, .local, .local, .answered]

def mixedCall : List RemoteLabel :=
  [.call { keys := [0] }, .call {}, .call {}, .call {}, .call { pairs := [(2, 2), (1, 1)] },
    .call {}, .call {}, .call {}, .env readingNode, .call {}, .call {}, .call {}, .call {},
    .call { timeout := true }] ++ askAndAnswer 1 0 ((Cluster.emptyStores 1).append 1 8) ++
    [.call {}, .call {}] ++ askAndAnswer 1 0 (Cluster.emptyStores 1) ++ endCall [(2, 2), (1, 1)]

theorem read_slots_own_mixed :
    ∃ w, Run step (fun w l => w.onTime l = true) (initial readingNode mixedRequest.transaction) w ∧
      w.Ended mixedFates [(1, some [8]), (0, some [7]), (1, some [])] ∧
      w.OwnReads mixedRequest [(1, some [8]), (0, some [7]), (1, some [])] := by
  have hrun : ((runChecked step onTime (initial readingNode mixedRequest.transaction)
      mixedCall).map fun w => decide
        (w.Ended mixedFates [(1, some [8]), (0, some [7]), (1, some [])])) = some true := by
    decide +kernel
  obtain ⟨w, hw, hended⟩ := Option.map_eq_some_iff.mp hrun
  have hr := run_of_runChecked _ .refl hw
  have hended := of_decide_eq_true hended
  have hassigned : Assigned readingNode mixedRequest.transaction mixedFates := by
    unfold Assigned
    decide
  have haligned : Aligned (mixedRequest.transaction.zip mixedFates) :=
    ⟨by decide, by simp [Operation.type, TxnOp.operation, Aligned]⟩
  exact ⟨w, hr, hended,
    (read_slots_own_iff mixedRequest readingNode mixedFates hassigned).mpr haligned w _ hr hended⟩

/-- `[["append", 2, 5], ["r", 2, null]]`, with key 2 on node 2. -/
def appendAndRead : TxnRequest := .ofOps [.append 2 5, .read 2 .null]

/-- Up to the first operation. -/
def lockKey2 : List RemoteLabel :=
  [.call {}, .call { pairs := [(2, 2)] }, .call {}, .call {}, .env readingNode, .call {}]

/-- **A read gets the answer to an append.**  Both operations are answered in time, the read with
`[5]`; its slot holds the append's empty list. -/
theorem read_gets_append_entry :
    ∃ w, Run step (fun w l => w.onTime l = true) (initial readingNode appendAndRead.transaction) w ∧
      w.Ended [.answered, .answered] [(2, some []), (2, some [5])] ∧ w.Obtained 1 (some [5]) ∧
      ¬ w.OwnReads appendAndRead [(2, some []), (2, some [5])] := by
  have hrun : ((runChecked step onTime (initial readingNode appendAndRead.transaction)
      (lockKey2 ++ askAndAnswer 2 0 (Cluster.emptyStores 2) ++
        askAndAnswer 2 0 ((Cluster.emptyStores 2).append 2 5) ++ endCall [(2, 2)])).map fun w =>
      decide (w.Ended [.answered, .answered] [(2, some []), (2, some [5])] ∧
        w.ran = [(.append 2 5, .remote (some [])), (.read 2, .remote (some [5]))])) = some true := by
    decide +kernel
  obtain ⟨w, hw, hfacts⟩ := Option.map_eq_some_iff.mp hrun
  obtain ⟨hended, hran⟩ := of_decide_eq_true hfacts
  have hr := run_of_runChecked _ .refl hw
  refine ⟨w, hr, hended, ⟨.read 2, .remote (some [5]), by rw [hran]; rfl, rfl, fun values hv => ?_⟩,
    fun hreads => ?_⟩
  · obtain rfl : [5] = values := by simpa using hv
    exact ownAnswer_of_run hr (by rw [hran]; rfl)
  · have hslots := (ownReads_iff hended hr).mp hreads
    rw [hran] at hslots
    have hown := (ownSlots_iff_own rfl).mp hslots
    simp [TxnRequest.transaction, appendAndRead, TxnRequest.ofOps, TxnOp.operation, entries,
      collect, Own, Operation.key, Outcome.value] at hown

/-- **The condition on late responses is needed**: the answer to the append, which has timed out, is
what the slot of the read holds.  The transaction is aligned. -/
theorem late_answer_fills_slot :
    ∃ w, Reachable step (initial readingNode appendAndRead.transaction) w ∧
      w.Ended [.lost, .answered] [(2, some [])] ∧
      Aligned (appendAndRead.transaction.zip [.lost, .answered]) ∧
      ¬ w.OwnReads appendAndRead [(2, some [])] := by
  have hrun : ((runLabels step (initial readingNode appendAndRead.transaction)
      (lockKey2 ++ [.call {}, .call {}, .call {}, .call { timeout := true }, .call {}, .call {},
        .call {}, .answer 2 0 (servingNode (Cluster.emptyStores 2)), .deliver 2, .call {}, .call {}]
        ++ endCall [(2, 2)])).map fun w =>
      decide (w.Ended [.lost, .answered] [(2, some [])] ∧
        w.ran = [(.append 2 5, .remote none), (.read 2, .remote (some []))] ∧
        w.ops.hist = [.answered 0 (.append 2 5) (.opResp 1 2 none),
          .processed 0 (.opResp 1 2 none), .returned 1 (.read 2) []])) = some true := by
    decide +kernel
  obtain ⟨w, hw, hfacts⟩ := Option.map_eq_some_iff.mp hrun
  obtain ⟨hended, hran, hhist⟩ := of_decide_eq_true hfacts
  refine ⟨w, reachable_of_runLabels _ hw, hended, trivial, ?_⟩
  rintro ⟨body, -, hslots⟩
  obtain ⟨v, ⟨op, outcome, hop, -, hown⟩, -⟩ := hslots 1 2 .null rfl
  rw [hran] at hop
  obtain ⟨rfl, rfl⟩ : .read 2 = op ∧ .remote (some []) = outcome := by simpa using hop
  obtain ⟨result, hanswered, -⟩ := hown [] rfl
  simp [hhist] at hanswered

end RecordedCall

end TwoPL
