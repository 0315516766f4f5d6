/-
# The program

`main.cpp` and `Node::run` (`system/maelstrom.cpp`).  The main thread reads lines.  The first one
initializes the node, and with it the scheduler (`boot`); each of the others is a request, which is
posted to a thread pool under the number of its line.  A task of the pool is a call of a handler:
`EchoMessageHandler` prints its reply at once, `TransactionMessageHandler` calls
`execute_transaction` on the scheduler that all tasks share (`OpenNode`), and prints what came of
it.

* The loop ends at an empty line or at the end of the input.  `main` then returns, and the
  destructor of the pool stops it: a task that has begun is finished, one that has not is DROPPED
  (`stopped`).
* An exception in the main thread ends everything (`terminated`): a line that is no message, a type
  without a handler, a second `init`.

What can be seen from outside is the order in which lines are read and replies are printed
(`trace`); what the calls did is recorded beside it (`hist`), and no step depends on either.
`requests_answered`: no request is answered twice, no reply is to anything else, and until the pool
is stopped every request that has been read can be answered, whatever the other tasks do.  That a
reply carries the id of its request ON THE WIRE is subject to what `Replies.lean` says of ids
(`Answers`).

The constructor of `Transaction` is not in the repository; it is a field of the input, and may
throw.
-/
import TwoPL.CallProgress
import TwoPL.Maelstrom
import TwoPL.OpenNode
import TwoPL.Replies

namespace TwoPL

open Lib

/-! ## 1. What comes in -/

/-- A line as `getline` and `boost::json::parse` see it: `none` when the parser throws. -/
inductive Line
  | empty
  | text (parsed : Option Json)

/-- The lines behind the first one, and the constructor of `Transaction`. -/
structure Input where
  lines : List Line
  construct : List Json → Option Transaction

namespace Input

/-- Requests are told apart by the numbers of their lines. -/
abbrev Req (x : Input) : Type := Fin x.lines.length

/-- The line of a request, as a JSON value. -/
def line (x : Input) (i : x.Req) : Option Json :=
  match x.lines.get i with
  | .text parsed => parsed
  | .empty => none

/-- `Message request { inputLine }`. -/
def message (x : Input) (i : x.Req) : Option Maelstrom.Message :=
  (x.line i).bind Maelstrom.Message.ofJson

/-- `transactions::Transaction(msgBody.at("txn").as_array())`. -/
def transaction (x : Input) (i : x.Req) : Option Transaction := do
  let m ← x.message i
  let ops ← (← m.body.at? "txn").asArray
  x.construct ops

/-- The transactions of the calls that will be made. -/
def txs (x : Input) (i : x.Req) : Transaction := (x.transaction i).getD []

end Input

/-! ## 2. The process -/

/-- The main thread: in the loop of `run`, behind it, behind the destructor of the pool, or gone. -/
inductive MainStage
  | reading
  | leaving
  | stopped
  | terminated
  deriving DecidableEq

inductive Task
  | unread
  | queued
  | running
  | answered
  deriving DecidableEq

/-- What can be seen from outside. -/
inductive WireEvent (ι : Type*)
  | read (i : ι)
  | printed (i : ι) (reply : Maelstrom.Message)

structure Process (x : Input) where
  stage : MainStage
  next : ℕ
  tasks : x.Req → Task
  main : Maelstrom.Node
  /-- The scheduler, with the calls that tasks make. -/
  inner : OpenNode x.Req
  trace : List (WireEvent x.Req)
  hist : List (x.Req × TxnEvent)

inductive ProcessLabel (x : Input)
  /-- The next line. -/
  | read
  /-- The destructor of the pool. -/
  | stop
  /-- A thread of the pool takes the task. -/
  | begin (i : x.Req)
  /-- A step of the call of `execute_transaction` that the task makes. -/
  | run (i : x.Req) (c : Choice)
  /-- The task prints its reply and ends. -/
  | reply (i : x.Req)
  /-- Messages of peers. -/
  | receive (peer : NodeID) (msg : JsonObject)
  | handle (pos : ℕ) (throws : Bool)

/-- `registerMessageHandler` has been called for these. -/
def registered (type : String) : Bool := type = "echo" ∨ type = "txn"

/-- How a call of `execute_transaction` ended: it returned something or threw. -/
def TxnThread.outcome (t : TxnThread) : Option (Option Results) :=
  match t.pc with
  | .returned results => some (some results)
  | .threw => some none
  | _ => none

namespace Process

variable {x : Input}

/-- The reply that the task of a request is about to print, when it is. -/
def replyOf (p : Process x) (i : x.Req) (m : Maelstrom.Message) : Option Maelstrom.Message :=
  if m.type = "echo" then echoReply m
  else match x.transaction i with
    | none => handleReply m none
    | some _ => (p.inner.txns i).outcome.bind (handleReply m)

/-- The main thread has read line `i`. -/
def goOn (p : Process x) (i : x.Req) (task : Task) (events : List (WireEvent x.Req)) : Process x :=
  { p with next := p.next + 1
           tasks := Function.update p.tasks i task
           trace := p.trace ++ events }

/-- `handleMessage`. -/
def handleMessage (p : Process x) (i : x.Req) (m : Maelstrom.Message) : Process x :=
  if m.type = "init" then
    match p.main.init m with
    | some (main, response) =>
      { p.goOn i .answered [.read i, .printed i response] with main }
    | none => { p with stage := .terminated }
  else if registered m.type then p.goOn i .queued [.read i]
  else { p with stage := .terminated }

/-- A turn of the loop of `run`. -/
def readLine (p : Process x) : Process x :=
  if h : p.next < x.lines.length then
    match x.lines.get ⟨p.next, h⟩ with
    | .empty => { p with stage := .leaving }
    | .text _ =>
      match x.message ⟨p.next, h⟩ with
      | some m => p.handleMessage ⟨p.next, h⟩ m
      | none => { p with stage := .terminated }
  else { p with stage := .leaving }

/-- A step of the scheduler. -/
def stepInner (p : Process x) (l : OpenLabel x.Req) : Option (Process x) :=
  (p.inner.step l).map fun inner => { p with inner }

/-- The process after a step of the call that task `i` makes. -/
def afterRun (p : Process x) (i : x.Req) (r : TxnStep) : Process x :=
  { p with inner := { p.inner with node := r.node
                                   txns := Function.update p.inner.txns i r.thread }
           hist := p.hist ++ r.event.toList.map (Prod.mk i) }

@[simp] theorem afterRun_txns_self (p : Process x) (i : x.Req) (r : TxnStep) :
    (p.afterRun i r).inner.txns i = r.thread := Function.update_self ..

theorem afterRun_txns_of_ne {p : Process x} {i j : x.Req} {r : TxnStep} (h : j ≠ i) :
    (p.afterRun i r).inner.txns j = p.inner.txns j := Function.update_of_ne h ..

def step (p : Process x) (l : ProcessLabel x) : Option (Process x) :=
  if p.stage = .terminated then none
  else match l with
    | .read => if p.stage = .reading then some p.readLine else none
    | .stop => if p.stage = .leaving then some { p with stage := .stopped } else none
    | .begin i =>
      if p.tasks i = .queued ∧ p.stage ≠ .stopped then
        some { p with tasks := Function.update p.tasks i .running }
      else none
    | .run i c =>
      if p.tasks i = .running ∧ ((x.message i).map (·.type) = some "txn") ∧
          (x.transaction i).isSome then
        (stepTxn p.inner.node (p.inner.txns i) c).map (p.afterRun i)
      else none
    | .reply i =>
      if p.tasks i = .running then
        ((x.message i).bind (p.replyOf i)).map fun reply =>
          { p with tasks := Function.update p.tasks i .answered
                   trace := p.trace ++ [.printed i reply] }
      else none
    | .receive peer msg => p.stepInner (.receive peer msg)
    | .handle pos throws => p.stepInner (.handle pos throws)

/-- The init handler of `main`: `scheduler->start(nodeId, peers)`. -/
def startHandler (hash : KeyType → UInt64) (g : NodeID) (nodeId : String) (peers : List String) :
    Option Bool :=
  match start hash (.fresh g) nodeId peers with
  | .ok _ => some true
  | .error .returnsFalse => some false
  | .error .throws => none

/-- What `start` leaves; a `start` that returns false changes nothing. -/
def startedRouting (hash : KeyType → UInt64) (g : NodeID) (main : Maelstrom.Node) : Routing :=
  match start hash (.fresh g) (main.nodeId.getD "") main.peerIds with
  | .ok r => r
  | .error _ => .fresh g

/-- The first line, which is an `init`: the process afterwards, and the response to it. -/
def boot (hash : KeyType → UInt64) (g : NodeID) (store : ThreadSafeKVStore) (x : Input)
    (first : Maelstrom.Message) : Option (Process x × Maelstrom.Message) :=
  if first.type = "init" then
    (Maelstrom.Node.init ⟨none, [], [startHandler hash g]⟩ first).map fun y =>
      ({ stage := .reading
         next := 0
         tasks := fun _ => .unread
         main := y.1
         inner := .initial (startedRouting hash g y.1) store x.txs
         trace := []
         hist := [] }, y.2)
  else none

/-! ## 3. Everything a step can do -/

/-- **Everything a step of an initialized process can do.** -/
inductive Stepped (p : Process x) : ProcessLabel x → Process x → Prop
  /-- A request is read. -/
  | posted {i m} : i.val = p.next → x.message i = some m → registered m.type = true →
      Stepped p .read (p.goOn i .queued [.read i])
  /-- The main thread leaves the loop, the pool or the process. -/
  | stage {l s} : (l = .read ∨ l = .stop) → Stepped p l { p with stage := s }
  | begun {i} : p.tasks i = .queued →
      Stepped p (.begin i) { p with tasks := Function.update p.tasks i .running }
  | ran {i c m r} : p.tasks i = .running → x.message i = some m → m.type = "txn" →
      (x.transaction i).isSome = true → stepTxn p.inner.node (p.inner.txns i) c = some r →
      Stepped p (.run i c) (p.afterRun i r)
  | replied {i m reply} : p.tasks i = .running → x.message i = some m →
      p.replyOf i m = some reply →
      Stepped p (.reply i) { p with tasks := Function.update p.tasks i .answered
                                    trace := p.trace ++ [.printed i reply] }
  | received {peer msg n h} : OpenNode.Received p.inner.node peer msg n h →
      Stepped p (.receive peer msg)
        { p with inner := { p.inner with node := n, handlers := p.inner.handlers ++ h.toList } }
  | handled {pos throws a r} : Cluster.HandlerStepped p.inner.node throws a r →
      Stepped p (.handle pos throws)
        { p with inner := { p.inner with node := r.1, handlers := p.inner.setHandler pos r.2.1 } }

/-- A second `init` throws. -/
theorem init_again {n : Maelstrom.Node} (h : n.nodeId.isSome = true) (m : Maelstrom.Message) :
    n.init m = none := by
  simp [Maelstrom.Node.init, h]

theorem stepped_of_read {p : Process x} (h : p.main.nodeId.isSome = true) :
    Stepped p .read p.readLine := by
  unfold readLine
  split
  · rename_i hlt
    split
    · exact .stage (.inl rfl)
    · split
      · rename_i m hm
        unfold handleMessage
        split
        · rw [init_again h]
          exact .stage (.inl rfl)
        · split
          · rename_i hreg
            exact .posted rfl hm hreg
          · exact .stage (.inl rfl)
      · exact .stage (.inl rfl)
  · exact .stage (.inl rfl)

theorem stepped_of_step {p p' : Process x} {l : ProcessLabel x}
    (hinit : p.main.nodeId.isSome = true) (h : p.step l = some p') :
    Stepped p l p' := by
  unfold step at h
  split at h
  · exact absurd h (by simp)
  cases l with
  | read =>
    dsimp only at h
    split at h
    · rw [Option.some.injEq] at h
      exact h ▸ stepped_of_read hinit
    · exact absurd h (by simp)
  | stop =>
    dsimp only at h
    split at h
    · rw [Option.some.injEq] at h
      exact h ▸ .stage (.inr rfl)
    · exact absurd h (by simp)
  | begin i =>
    dsimp only at h
    split at h
    · rename_i hq
      rw [Option.some.injEq] at h
      exact h ▸ .begun hq.1
    · exact absurd h (by simp)
  | run i c =>
    dsimp only at h
    split at h
    · rename_i hguard
      obtain ⟨hrun, htype, htx⟩ := hguard
      obtain ⟨m, hm, htype⟩ := Option.map_eq_some_iff.mp htype
      obtain ⟨r, hr, rfl⟩ := Option.map_eq_some_iff.mp h
      exact .ran hrun hm htype htx hr
    · exact absurd h (by simp)
  | reply i =>
    dsimp only at h
    split at h
    · rename_i hrun
      obtain ⟨reply, hreply, rfl⟩ := Option.map_eq_some_iff.mp h
      obtain ⟨m, hm, hreply⟩ := Option.bind_eq_some_iff.mp hreply
      exact .replied hrun hm hreply
    · exact absurd h (by simp)
  | receive peer msg =>
    obtain ⟨inner, hinner, rfl⟩ := Option.map_eq_some_iff.mp h
    obtain ⟨y, hy, rfl⟩ := Option.map_eq_some_iff.mp hinner
    exact .received (OpenNode.handlePeerMessage_received hy)
  | handle pos throws =>
    obtain ⟨inner, hinner, rfl⟩ := Option.map_eq_some_iff.mp h
    obtain ⟨a, -, rfl⟩ := Option.map_eq_some_iff.mp hinner
    exact .handled (Cluster.stepHandler_spec _ _ _)

/-! ## 4. One reply -/

/-- The replies to a request, in the order they were printed. -/
def repliesTo (trace : List (WireEvent x.Req)) (i : x.Req) : List Maelstrom.Message :=
  trace.filterMap fun
    | .printed j reply => if j = i then some reply else none
    | .read _ => none

theorem repliesTo_append_read (trace : List (WireEvent x.Req)) (i j : x.Req) :
    repliesTo (trace ++ [.read j]) i = repliesTo trace i := by
  simp [repliesTo]

theorem repliesTo_append_printed (trace : List (WireEvent x.Req)) (i j : x.Req)
    (reply : Maelstrom.Message) :
    repliesTo (trace ++ [.printed j reply]) i
      = repliesTo trace i ++ (if j = i then [reply] else []) := by
  by_cases h : j = i <;> simp [repliesTo, h]

/-- The reply to the request on this line goes back to where the request came from.  What is printed
correlates with the line if and only if the id fits an `int` and, unless the reply is an error, a
request without an id is not itself a reply. -/
structure Answers (line : Json) (request reply : Maelstrom.Message) : Prop where
  sender : reply.sender = request.recipient
  recipient : reply.recipient = request.sender
  correlates_iff : NulFree line →
    (Correlates line reply ↔ IdFits line ∧ (reply.type ≠ "error" → NoStaleReply line))

theorem ends_of_make {request reply : Maelstrom.Message} {type : String} {body : JsonObject}
    (h : Maelstrom.Message.make request.recipient request.sender type body none request.msgId
      = some reply) : reply.sender = request.recipient ∧ reply.recipient = request.sender := by
  simp only [Maelstrom.Message.make, Option.isSome_none, Bool.false_eq_true, false_and, if_false,
    Option.some.injEq] at h
  subst h
  exact ⟨rfl, rfl⟩

/-- Whatever the echo handler prints answers its request. -/
theorem answers_of_echoReply {line : Json} {request reply : Maelstrom.Message}
    (h : Maelstrom.Message.ofJson line = some request) (hreply : echoReply request = some reply) :
    Answers line request reply := by
  obtain ⟨reply', hreply', htype, hiff⟩ := echoReply_spec h
  obtain rfl : reply' = reply := Option.some.inj (hreply'.symm.trans hreply)
  obtain ⟨hsender, hrecipient⟩ := ends_of_make hreply
  exact ⟨hsender, hrecipient, fun hnul => by simp [hiff hnul, htype]⟩

/-- So does whatever the transaction handler prints. -/
theorem answers_of_handleReply {line : Json} {request reply : Maelstrom.Message}
    (h : Maelstrom.Message.ofJson line = some request) {outcome : Option Results}
    (hreply : handleReply request outcome = some reply) : Answers line request reply := by
  obtain ⟨reply', hreply', htype, hiff⟩ := handleReply_spec h outcome
  obtain rfl : reply' = reply := Option.some.inj (hreply'.symm.trans hreply)
  have hends : reply'.sender = request.recipient ∧ reply'.recipient = request.sender := by
    unfold handleReply at hreply
    split at hreply <;> exact ends_of_make hreply
  exact ⟨hends.1, hends.2, fun hnul => by rw [hiff hnul, htype]⟩

theorem answers_of_replyOf {p : Process x} {i : x.Req} {line : Json} {m reply : Maelstrom.Message}
    (hm : Maelstrom.Message.ofJson line = some m) (h : p.replyOf i m = some reply) :
    Answers line m reply := by
  unfold replyOf at h
  split at h
  · exact answers_of_echoReply hm h
  · split at h
    · exact answers_of_handleReply hm h
    · obtain ⟨outcome, -, hout⟩ := Option.bind_eq_some_iff.mp h
      exact answers_of_handleReply hm hout

/-- What the process has made of a request. -/
def Accounted (p : Process x) (i : x.Req) : Prop :=
  match p.tasks i with
  | .unread => p.next ≤ i.val ∧ repliesTo p.trace i = [] ∧ (p.inner.txns i).pc = .idle
  | .queued => i.val < p.next ∧ WireEvent.read i ∈ p.trace ∧ repliesTo p.trace i = [] ∧
      (p.inner.txns i).pc = .idle ∧ ∃ m, x.message i = some m ∧ registered m.type = true
  | .running => i.val < p.next ∧ WireEvent.read i ∈ p.trace ∧ repliesTo p.trace i = [] ∧
      ∃ m, x.message i = some m ∧ registered m.type = true
  | .answered => i.val < p.next ∧ (p.inner.txns i).pc.holdsMutex = false ∧
      ∃ line m reply, x.line i = some line ∧ Maelstrom.Message.ofJson line = some m ∧
        repliesTo p.trace i = [reply] ∧ Answers line m reply ∧
        Precedes p.trace (.read i) (.printed i reply)

structure Inv (p : Process x) : Prop where
  initialized : p.main.nodeId.isSome = true
  accounted : ∀ i, p.Accounted i
  /-- A call is made for a `txn` request with a transaction. -/
  called : ∀ i, (p.inner.txns i).pc ≠ .idle →
    (x.message i).map (·.type) = some "txn" ∧ (x.transaction i).isSome = true
  /-- Who holds `distributed_mutex` is a task, in one of its loops of sends. -/
  mutex : p.inner.node.distributedMutex = true → ∃ i, (p.inner.txns i).pc.holdsMutex = true

section Steps

variable {p p' : Process x} {l : ProcessLabel x} {i : x.Req}

/-- What happens to others does not matter to a request. -/
theorem Accounted.of_same (h : p.Accounted i) (htask : p'.tasks i = p.tasks i)
    (hpc : p.tasks i = .running ∨ (p'.inner.txns i).pc = (p.inner.txns i).pc)
    (hnext : p.next ≤ p'.next) (hunread : p.tasks i = .unread → p'.next ≤ i.val)
    {events : List (WireEvent x.Req)} (htrace : p'.trace = p.trace ++ events)
    (hno : repliesTo events i = []) : p'.Accounted i := by
  have hreplies : repliesTo p'.trace i = repliesTo p.trace i := by
    rw [htrace, repliesTo, List.filterMap_append, ← repliesTo, ← repliesTo, hno, List.append_nil]
  have hread : WireEvent.read i ∈ p.trace → WireEvent.read i ∈ p'.trace := fun hm => by
    rw [htrace]
    exact List.mem_append_left _ hm
  unfold Accounted at h ⊢
  rw [htask, hreplies]
  cases ht : p.tasks i with
  | unread =>
    simp only [ht] at h ⊢
    exact ⟨hunread ht, h.2.1, (hpc.resolve_left (by simp [ht])).trans h.2.2⟩
  | queued =>
    simp only [ht] at h ⊢
    obtain ⟨hlt, hm, hnone, hidle, hreg⟩ := h
    exact ⟨hlt.trans_le hnext, hread hm, hnone, (hpc.resolve_left (by simp [ht])).trans hidle, hreg⟩
  | running =>
    simp only [ht] at h ⊢
    exact ⟨h.1.trans_le hnext, hread h.2.1, h.2.2⟩
  | answered =>
    simp only [ht] at h ⊢
    obtain ⟨hlt, hmutex, line, m, reply, hline, hm, hreply, hans, hprec⟩ := h
    refine ⟨hlt.trans_le hnext, ?_, line, m, reply, hline, hm, hreply, hans, ?_⟩
    · rw [hpc.resolve_left (by simp [ht])]
      exact hmutex
    · rw [htrace]
      exact hprec.append_right events

/-- The line that is read next has not been read. -/
theorem Accounted.unread_of_next (h : p.Accounted i) (hi : i.val = p.next) :
    repliesTo p.trace i = [] ∧ (p.inner.txns i).pc = .idle := by
  unfold Accounted at h
  cases ht : p.tasks i with
  | unread =>
    simp only [ht] at h
    exact h.2
  | queued => simp only [ht] at h; omega
  | running => simp only [ht] at h; omega
  | answered => simp only [ht] at h; omega

/-- **A request is read.** -/
theorem Inv.posted (h : Inv p) {m : Maelstrom.Message} (hi : i.val = p.next)
    (hm : x.message i = some m) (hreg : registered m.type = true) :
    Inv (p.goOn i .queued [.read i]) where
  initialized := h.initialized
  accounted j := by
    rcases eq_or_ne j i with rfl | hne
    · obtain ⟨hnone, hidle⟩ := (h.accounted j).unread_of_next hi
      simp only [Accounted, goOn, Function.update_self, repliesTo_append_read]
      exact ⟨by omega, by simp, hnone, hidle, m, hm, hreg⟩
    · refine (h.accounted j).of_same (Function.update_of_ne hne ..) (.inr rfl) (Nat.le_succ _)
        (fun hun => ?_) rfl rfl
      have hle := h.accounted j
      simp only [Accounted, hun] at hle
      have hval : j.val ≠ p.next := fun e => hne (Fin.ext (e.trans hi.symm))
      show p.next + 1 ≤ j.val
      omega
  called := h.called
  mutex := h.mutex

/-- **A task begins.** -/
theorem Inv.begun (h : Inv p) (hq : p.tasks i = .queued) :
    Inv { p with tasks := Function.update p.tasks i .running } where
  initialized := h.initialized
  accounted j := by
    rcases eq_or_ne j i with rfl | hne
    · have hacc := h.accounted j
      simp only [Accounted, hq] at hacc
      obtain ⟨hlt, hread, hnone, -, hreg⟩ := hacc
      simp only [Accounted, Function.update_self]
      exact ⟨hlt, hread, hnone, hreg⟩
    · exact (h.accounted j).of_same (Function.update_of_ne hne ..) (.inr rfl) le_rfl
        (fun hun => by
          have hacc := h.accounted j
          simp only [Accounted, hun] at hacc
          exact hacc.1) (List.append_nil _).symm rfl
  called := h.called
  mutex := h.mutex

/-- A step that reads nothing and prints nothing. -/
theorem Accounted.of_silent (h : p.Accounted i) (htask : p'.tasks i = p.tasks i)
    (hpc : p.tasks i = .running ∨ (p'.inner.txns i).pc = (p.inner.txns i).pc)
    (hnext : p'.next = p.next) (htrace : p'.trace = p.trace) : p'.Accounted i := by
  refine h.of_same htask hpc hnext.ge (fun hun => ?_) (htrace.trans (List.append_nil _).symm) rfl
  unfold Accounted at h
  simp only [hun] at h
  exact hnext ▸ h.1

/-- **A task makes a step of its call.** -/
theorem Inv.ran (h : Inv p) {c : Choice} {m : Maelstrom.Message} {r : TxnStep}
    (hrun : p.tasks i = .running) (hm : x.message i = some m) (htype : m.type = "txn")
    (htx : (x.transaction i).isSome = true)
    (hr : stepTxn p.inner.node (p.inner.txns i) c = some r) :
    Inv (p.afterRun i r) where
  initialized := h.initialized
  accounted j := by
    refine (h.accounted j).of_silent rfl ?_ rfl rfl
    rcases eq_or_ne j i with rfl | hne
    · exact .inl hrun
    · exact .inr (by rw [afterRun_txns_of_ne hne])
  called j hj := by
    rcases eq_or_ne j i with rfl | hne
    · exact ⟨by simp [hm, htype], htx⟩
    · exact h.called j (by rwa [afterRun_txns_of_ne hne] at hj)
  mutex hheld := by
    rcases (stepTxn_spec hr).mutex_of hheld with hown | ⟨hbefore, hnot⟩
    · exact ⟨i, by rwa [afterRun_txns_self]⟩
    · obtain ⟨j, hj⟩ := h.mutex hbefore
      have hne : j ≠ i := by
        rintro rfl
        exact absurd hj (by simp [hnot])
      exact ⟨j, by rwa [afterRun_txns_of_ne hne]⟩

/-- A task that prints a reply is through with its call. -/
theorem Inv.holdsMutex_of_replyOf (h : Inv p) {m reply : Maelstrom.Message}
    (hm : x.message i = some m) (hreply : p.replyOf i m = some reply) :
    (p.inner.txns i).pc.holdsMutex = false := by
  by_cases hidle : (p.inner.txns i).pc = .idle
  · simp [hidle, Pc.holdsMutex]
  · obtain ⟨htype, htx⟩ := h.called i hidle
    simp only [hm, Option.map_some, Option.some.injEq] at htype
    obtain ⟨tx, htx⟩ := Option.isSome_iff_exists.mp htx
    have hne : m.type ≠ "echo" := by simp [htype]
    simp only [replyOf, if_neg hne, htx] at hreply
    obtain ⟨outcome, hout, -⟩ := Option.bind_eq_some_iff.mp hreply
    unfold TxnThread.outcome at hout
    split at hout
    · rename_i hpc
      simp [hpc, Pc.holdsMutex]
    · rename_i hpc
      simp [hpc, Pc.holdsMutex]
    · exact absurd hout (by simp)

/-- **A task prints its reply.** -/
theorem Inv.replied (h : Inv p) {m reply : Maelstrom.Message} (hrun : p.tasks i = .running)
    (hm : x.message i = some m) (hreply : p.replyOf i m = some reply) :
    Inv { p with tasks := Function.update p.tasks i .answered
                 trace := p.trace ++ [.printed i reply] } where
  initialized := h.initialized
  accounted j := by
    have hacc := h.accounted j
    rcases eq_or_ne j i with rfl | hne
    · simp only [Accounted, hrun] at hacc
      obtain ⟨hlt, hread, hnone, -⟩ := hacc
      simp only [Accounted, Function.update_self, repliesTo_append_printed, if_pos, hnone]
      obtain ⟨line, hline, hparsed⟩ := Option.bind_eq_some_iff.mp hm
      exact ⟨hlt, h.holdsMutex_of_replyOf hm hreply, line, m, reply, hline, hparsed, rfl,
        answers_of_replyOf hparsed hreply, precedes_concat hread _⟩
    · refine hacc.of_same (Function.update_of_ne hne ..) (.inr rfl) le_rfl (fun hun => ?_) rfl ?_
      · simp only [Accounted, hun] at hacc
        exact hacc.1
      · simp [repliesTo, hne.symm]
  called := h.called
  mutex := h.mutex

/-- A step in which neither a task nor the main thread does anything. -/
theorem Inv.of_silent (h : Inv p) (hmain : p'.main = p.main) (htasks : p'.tasks = p.tasks)
    (hnext : p'.next = p.next) (htrace : p'.trace = p.trace)
    (htxns : p'.inner.txns = p.inner.txns)
    (hmutex : p'.inner.node.distributedMutex = p.inner.node.distributedMutex) : Inv p' where
  initialized := hmain ▸ h.initialized
  accounted i := (h.accounted i).of_silent (by rw [htasks]) (.inr (by rw [htxns])) hnext htrace
  called i hi := h.called i (htxns ▸ hi)
  mutex hheld := by
    obtain ⟨i, hi⟩ := h.mutex (hmutex ▸ hheld)
    exact ⟨i, htxns ▸ hi⟩

theorem mutex_of_received {n n' : Node} {peer : NodeID} {msg : JsonObject} {a : Option Handler}
    (h : OpenNode.Received n peer msg n' a) : n'.distributedMutex = n.distributedMutex := by
  cases h with
  | lockResponse _ _ =>
    unfold Node.handleLockResponse
    repeat' split
    all_goals rfl
  | opRequest _ => rw [Node.handleOperationRequest_frame]
  | _ => rfl

theorem inv_step (h : Inv p) (hs : Stepped p l p') : Inv p' := by
  cases hs with
  | posted hi hm hreg => exact h.posted hi hm hreg
  | stage _ => exact h.of_silent rfl rfl rfl rfl rfl rfl
  | begun hq => exact h.begun hq
  | ran hrun hm htype htx hr => exact h.ran hrun hm htype htx hr
  | replied hrun hm hreply => exact h.replied hrun hm hreply
  | received hr => exact h.of_silent rfl rfl rfl rfl rfl (mutex_of_received hr)
  | handled hr =>
    refine h.of_silent rfl rfl rfl rfl rfl ?_
    rw [OpenNode.node_of_handlerStepped hr]

theorem init_nodeId {n n' : Maelstrom.Node} {m response : Maelstrom.Message}
    (h : n.init m = some (n', response)) : n'.nodeId.isSome = true := by
  simp only [Maelstrom.Node.init, Option.bind_eq_bind] at h
  split at h
  · exact absurd h (by simp)
  · simp only [Option.bind_eq_some_iff, Option.pure_def, Option.some.injEq, Prod.mk.injEq] at h
    obtain ⟨-, -, -, -, -, -, -, -, -, -, -, -, -, -, rfl, -⟩ := h
    rfl

/-- After the first line nothing has been asked for. -/
theorem inv_boot {hash : KeyType → UInt64} {g : NodeID} {store : ThreadSafeKVStore}
    {first response : Maelstrom.Message} (h : boot hash g store x first = some (p, response)) :
    Inv p := by
  unfold boot at h
  split at h
  · obtain ⟨⟨main, reply⟩, hinit, heq⟩ := Option.map_eq_some_iff.mp h
    obtain ⟨rfl, -⟩ := Prod.mk.inj heq
    exact ⟨init_nodeId hinit, fun i => ⟨Nat.zero_le _, rfl, rfl⟩, fun i hi => absurd rfl hi,
      fun hheld => absurd hheld (by simp [OpenNode.initial, Node.fresh])⟩
  · exact absurd h (by simp)

theorem inv_of_reachable {p₀ : Process x} (h₀ : Inv p₀) (hr : Reachable step p₀ p) : Inv p :=
  Run.invariant (I := Inv) hr h₀ fun _ _ _ h _ hs => inv_step h (stepped_of_step h.initialized hs)

end Steps

/-! ## 5. Every request can be answered -/

/-- A step of the pool. -/
def PoolStep (_ : Process x) : ProcessLabel x → Prop
  | .begin _ | .run _ _ | .reply _ => True
  | _ => False

/-- What is left of a task. -/
def Task.rank : Task → ℕ
  | .unread => 0
  | .queued => 2
  | .running => 1
  | .answered => 0

/-- What is left of the tasks. -/
def cost (p : Process x) (i : x.Req) : ℕ ×ₗ (ℕ ×ₗ (ℕ ×ₗ ℕ)) :=
  toLex (Task.rank (p.tasks i), (p.inner.txns i).pc.cost)

section Pool

variable {p : Process x}

/-- Every request that has been read has been answered. -/
def AllAnswered (p : Process x) : Prop := ∀ i, p.tasks i = .unread ∨ p.tasks i = .answered

/-- Whoever is about to print can do it. -/
theorem step_reply {i : x.Req} {m reply : Maelstrom.Message} (hlive : p.stage ≠ .terminated)
    (hrun : p.tasks i = .running) (hm : x.message i = some m)
    (hreply : p.replyOf i m = some reply) :
    ∃ p', p.step (.reply i) = some p' ∧ p'.cost < p.cost := by
  refine ⟨{ p with tasks := Function.update p.tasks i .answered
                   trace := p.trace ++ [.printed i reply] }, ?_, ?_⟩
  · simp only [step, if_neg hlive, if_pos hrun, hm, Option.bind_some, hreply, Option.map_some]
  · refine lt_of_party (i := i) (Prod.Lex.toLex_lt_toLex.mpr (.inl ?_)) fun j hj => ?_
    · simp [hrun, Task.rank]
    · simp only [cost, Function.update_of_ne hj]

/-- A task that waits for nobody goes on. -/
theorem step_running (h : Inv p) {i : x.Req} (hlive : p.stage ≠ .terminated)
    (hrun : p.tasks i = .running)
    (hmutex : p.inner.node.distributedMutex = false ∨ (p.inner.txns i).pc.holdsMutex = true) :
    ∃ l p', PoolStep p l ∧ p.step l = some p' ∧ p'.cost < p.cost := by
  have hacc := h.accounted i
  simp only [Accounted, hrun] at hacc
  obtain ⟨-, -, -, m, hm, hreg⟩ := hacc
  obtain ⟨line, -, hparsed⟩ := Option.bind_eq_some_iff.mp hm
  have hprint : ∀ reply, p.replyOf i m = some reply →
      ∃ l p', PoolStep p l ∧ p.step l = some p' ∧ p'.cost < p.cost := by
    intro reply hreply
    obtain ⟨p', hp', hlt⟩ := step_reply hlive hrun hm hreply
    exact ⟨.reply i, p', trivial, hp', hlt⟩
  by_cases hecho : m.type = "echo"
  · obtain ⟨reply, hreply, -⟩ := echoReply_spec hparsed
    exact hprint reply (by rw [replyOf, if_pos hecho, hreply])
  have htype : m.type = "txn" := by simpa [registered, hecho] using hreg
  cases htx : x.transaction i with
  | none =>
    obtain ⟨reply, hreply, -⟩ := handleReply_spec hparsed none
    exact hprint reply (by simp only [replyOf, if_neg hecho, htx, hreply])
  | some tx =>
    have hended : ∀ outcome, (p.inner.txns i).outcome = some outcome →
        ∃ l p', PoolStep p l ∧ p.step l = some p' ∧ p'.cost < p.cost := by
      intro outcome hout
      obtain ⟨reply, hreply, -⟩ := handleReply_spec hparsed outcome
      exact hprint reply (by simp only [replyOf, if_neg hecho, htx, hout, Option.bind_some, hreply])
    rcases exists_stepTxn_of_mutex hmutex with (⟨results, hpc⟩ | hpc) | ⟨c, r, hr, hlt⟩
    · exact hended (some results) (by simp [TxnThread.outcome, hpc])
    · exact hended none (by simp [TxnThread.outcome, hpc])
    · have hguard : p.tasks i = .running ∧ (x.message i).map (·.type) = some "txn" ∧
          (x.transaction i).isSome = true := ⟨hrun, by simp [hm, htype], by simp [htx]⟩
      refine ⟨.run i c, p.afterRun i r, trivial, ?_, ?_⟩
      · simp only [step, if_neg hlive, if_pos hguard, hr, Option.map_some]
      · refine lt_of_party (i := i) (Prod.Lex.toLex_lt_toLex.mpr (.inr ⟨rfl, ?_⟩)) fun j hj => ?_
        · rwa [afterRun_txns_self]
        · simp only [cost, afterRun, Function.update_of_ne hj]

/-- **Where a request is not answered, the pool can move.** -/
theorem allAnswered_or_step (h : Inv p) (hstage : p.stage = .reading ∨ p.stage = .leaving) :
    p.AllAnswered ∨ ∃ l p', PoolStep p l ∧ p.step l = some p' ∧ p'.cost < p.cost := by
  have hlive : p.stage ≠ .terminated := by rcases hstage with h | h <;> simp [h]
  have hopen : p.stage ≠ .stopped := by rcases hstage with h | h <;> simp [h]
  by_contra hstuck
  obtain ⟨hrest, hnone⟩ := not_or.mp hstuck
  have hqueued : ∀ i, p.tasks i ≠ .queued := by
    intro i hq
    refine hnone ⟨.begin i, { p with tasks := Function.update p.tasks i .running }, trivial, ?_, ?_⟩
    · simp only [step, if_neg hlive, if_pos (And.intro hq hopen)]
    · refine lt_of_party (i := i) (Prod.Lex.toLex_lt_toLex.mpr (.inl ?_)) fun j hj => ?_
      · simp [hq, Task.rank]
      · simp only [cost, Function.update_of_ne hj]
  -- the holder of the mutex is a running task, and could go on
  have hfree : p.inner.node.distributedMutex = false := by
    by_contra hheld
    rw [Bool.not_eq_false] at hheld
    obtain ⟨i, hi⟩ := h.mutex hheld
    have hacc := h.accounted i
    cases ht : p.tasks i with
    | unread =>
      simp only [Accounted, ht] at hacc
      exact absurd hi (by simp [hacc.2.2, Pc.holdsMutex])
    | queued => exact hqueued i ht
    | running => exact hnone (step_running h hlive ht (.inr hi))
    | answered =>
      simp only [Accounted, ht] at hacc
      exact absurd hi (by simp [hacc.2.1])
  refine hrest fun i => ?_
  cases ht : p.tasks i with
  | unread => exact .inl rfl
  | queued => exact absurd ht (hqueued i)
  | running => exact absurd (step_running h hlive ht (.inl hfree)) hnone
  | answered => exact .inr rfl

end Pool

/-- **Requests are answered, once.**  Whatever the lines are, whatever peers send and whatever the
pool does first: a request has no reply or one, which is printed after the request was read, goes
back to its sender and, as far as the id of the request survives the way through the program,
carries it; and as long as the pool is not stopped, the tasks can go on until every request that has
been read has its reply. -/
theorem requests_answered {hash : KeyType → UInt64} {g : NodeID} {store : ThreadSafeKVStore}
    {first response : Maelstrom.Message} {p₀ p : Process x}
    (hboot : boot hash g store x first = some (p₀, response)) (hr : Reachable step p₀ p) :
    (∀ i, repliesTo p.trace i = [] ∨ ∃ line m reply, x.line i = some line ∧
      Maelstrom.Message.ofJson line = some m ∧ repliesTo p.trace i = [reply] ∧
      Answers line m reply ∧ Precedes p.trace (.read i) (.printed i reply)) ∧
    (p.stage = .reading ∨ p.stage = .leaving →
      ∃ p', Run step PoolStep p p' ∧ p'.next = p.next ∧
        ∀ i : x.Req, i.val < p.next → ∃ reply, repliesTo p'.trace i = [reply]) := by
  have h₀ := inv_boot hboot
  refine ⟨fun i => ?_, fun hstage => ?_⟩
  · have hacc := (inv_of_reachable h₀ hr).accounted i
    unfold Accounted at hacc
    split at hacc
    · exact .inl hacc.2.1
    · exact .inl hacc.2.2.1
    · exact .inl hacc.2.2.1
    · exact .inr hacc.2.2
  · have hwf : WellFoundedLT (x.Req → ℕ ×ₗ (ℕ ×ₗ (ℕ ×ₗ ℕ))) := Pi.wellFoundedLT
    have hgo : ∀ q, Reachable step p₀ q →
        (q.stage = .reading ∨ q.stage = .leaving → q.AllAnswered) ∨
          ∃ l q', PoolStep q l ∧ q.step l = some q' ∧ q'.cost < q.cost := by
      intro q hq
      by_cases hst : q.stage = .reading ∨ q.stage = .leaving
      · exact (allAnswered_or_step (inv_of_reachable h₀ hq) hst).imp (fun hall _ => hall) id
      · exact .inl fun h => absurd h hst
    obtain ⟨p', hrun, hrest⟩ := Run.exists_rest cost hgo hr
    -- the pool neither reads nor stops itself
    have hkept : Inv p' ∧ p'.stage = p.stage ∧ p'.next = p.next := by
      refine Run.invariant (I := fun q => Inv q ∧ q.stage = p.stage ∧ q.next = p.next) hrun
        ⟨inv_of_reachable h₀ hr, rfl, rfl⟩ ?_
      rintro q l q' ⟨hq, hst, hnext⟩ hpool hs
      have hstepped := stepped_of_step hq.initialized hs
      refine ⟨inv_step hq hstepped, ?_⟩
      cases hstepped with
      | posted _ _ _ => exact absurd hpool (by simp [PoolStep])
      | stage hl => rcases hl with rfl | rfl <;> exact absurd hpool (by simp [PoolStep])
      | _ => exact ⟨hst, hnext⟩
    obtain ⟨hinv, hst, hnext⟩ := hkept
    refine ⟨p', hrun, hnext, fun i hi => ?_⟩
    have hacc := hinv.accounted i
    rcases hrest (hst ▸ hstage) i with ht | ht
    · simp only [Accounted, ht] at hacc
      omega
    · simp only [Accounted, ht] at hacc
      obtain ⟨-, -, -, -, reply, -, -, hreply, -⟩ := hacc
      exact ⟨reply, hreply⟩

/-! ## 6. Three requests -/

/-- A constructor of `Transaction`, for operations as clients write them. -/
def readOps : List Json → Option Transaction
  | [] => some []
  | .array [.string "r", .int64 key, _] :: ops => (readOps ops).map (.read key :: ·)
  | .array [.string "append", .int64 key, .int64 value] :: ops =>
    (readOps ops).map (.append key value :: ·)
  | _ => none

/-- A line with a `txn` request. -/
def txnLine (id : Int64) (ops : List TxnOp) : Line :=
  .text (some (.object [("src", .string "c1"), ("dest", .string "n0"),
    ("body", .object [("type", .string "txn"), ("txn", .array (ops.map TxnOp.toJson)),
      ("msg_id", .int64 id)])]))

/-- An append, a read of the same key, an echo, and the end. -/
def threeRequests : Input where
  lines := [txnLine 1 [.append 1 7], txnLine 2 [.read 1 .null], .text (some (echoLine 3)), .empty]
  construct := readOps

def writing : threeRequests.Req := ⟨0, by decide⟩
def reading : threeRequests.Req := ⟨1, by decide⟩
def echoing : threeRequests.Req := ⟨2, by decide⟩

/-- The `init` of a node on its own. -/
def initAlone : Maelstrom.Message where
  sender := "c0"
  recipient := "n0"
  type := "init"
  body := [("type", .string "init"), ("node_id", .string "n0"), ("node_ids", .array [.string "n0"]),
    ("msg_id", .int64 0)]
  msgId := some 0
  inReplyTo := none

def bootAlone : Option (Process threeRequests × Maelstrom.Message) :=
  boot (fun key => key.toUInt64) 0 SingleNode.emptyStore threeRequests initAlone

/-- The reader waits for the writer, and the echo is answered before both. -/
def echoFirst : List (ProcessLabel threeRequests) :=
  [.read, .read, .begin writing, .begin reading, .run writing { keys := [1] }, .run writing {},
    .run writing {}, .run writing {}, .run writing {}, .run reading { keys := [1] },
    .run reading {}, .run reading {}, .run reading {}, .read, .begin echoing, .reply echoing]

/-- While the reader waits, the echo has its reply, under its id, and the other two will have
theirs. -/
theorem requests_answered_echoFirst :
    ∃ p₀ response p, bootAlone = some (p₀, response) ∧ Reachable step p₀ p ∧
      p.stage = .reading ∧ p.next = 3 ∧ repliesTo p.trace writing = [] ∧
      (∃ reply, repliesTo p.trace echoing = [reply] ∧ Correlates (echoLine 3) reply) ∧
      ∃ p', Run step PoolStep p p' ∧ ∀ i : threeRequests.Req, i.val < 3 →
        ∃ reply, repliesTo p'.trace i = [reply] := by
  have hrun : (bootAlone.bind fun y => (runLabels step y.1 echoFirst).map fun p =>
      decide (p.stage = .reading ∧ p.next = 3 ∧ (repliesTo p.trace echoing).length = 1 ∧
        (repliesTo p.trace writing).length = 0)) = some true := by
    decide +kernel
  obtain ⟨⟨p₀, response⟩, hboot, hrun⟩ := Option.bind_eq_some_iff.mp hrun
  obtain ⟨p, hp, hfacts⟩ := Option.map_eq_some_iff.mp hrun
  obtain ⟨hstage, hnext, hecho, hwriting⟩ := of_decide_eq_true hfacts
  have hr := reachable_of_runLabels _ hp
  obtain ⟨hanswers, hpool⟩ := requests_answered hboot hr
  obtain ⟨p', hpool, -, hall⟩ := hpool (.inl hstage)
  refine ⟨p₀, response, p, hboot, hr, hstage, hnext, List.length_eq_zero_iff.mp hwriting, ?_, p',
    hpool, fun i hi => hall i (hnext ▸ hi)⟩
  rcases hanswers echoing with hnone | ⟨line, m, reply, hline, -, hreply, hans, -⟩
  · exact absurd hecho (by simp [hnone])
  · obtain rfl : echoLine 3 = line := Option.some.inj hline
    exact ⟨reply, hreply, (hans.correlates_iff (nulFree_echoLine 3)).mpr
      ⟨idFits_echoLine (by decide), fun _ => noStaleReply_echoLine 3⟩⟩

end Process

end TwoPL
