/-
# A cluster of schedulers

Any number of nodes, each with its own scheduler, and any family of calls of
`execute_transaction`, each made on its own node (`origin`).  A step is one of four:

* a step of a call (`stepTxn`);
* a message at the head of a channel is handed to `handle_peer_message`;
* a handler that is under way makes its next section (`stepHandler`);
* a message is lost.

Channels are FIFO, and a message is handled to completion before the next one of its channel is
handed over.  There is no channel from a node to itself.  Everything else is arbitrary: which
step comes next, how long a message is under way, when a wait times out, which `send` throws.

Three things are recorded that the program does not have: which call CAUSED a message, the
locks granted and released by each node (`locks`), and what happened to each call (`hist`).
No step depends on them.
-/
import TwoPL.Lib.Runs
import TwoPL.Scheduler

namespace TwoPL

open Lib

/-! ## 1. The system -/

/-- The nodes of a cluster after `start`, and the node each call is made on. -/
structure ClusterConfig (ι : Type*) where
  members : Finset NodeID
  routing : NodeID → Routing
  /-- `start` gives every node its own number. -/
  localNodeId_eq : ∀ n, (routing n).localNodeId = n
  origin : ι → NodeID

/-- A message under way, with the call that caused it. -/
structure Packet (ι : Type*) where
  cause : ι
  msg : Message

/-- A handler under way, with the call that caused its message. -/
structure ActiveHandler (ι : Type*) where
  cause : ι
  handler : Handler

/-- A transaction as the cluster tells them apart: by the node it was called on and its id. -/
abbrev TxnName := NodeID × TransactionId

/-- What a node did with the lock of a key: it answered `lock_granted` or returned `ACQUIRED`, or
it processed the release of a transaction. -/
inductive LockEvent
  | granted (node : NodeID) (who : TxnName) (key : KeyType)
  | released (node : NodeID) (who : TxnName) (key : KeyType)
  deriving DecidableEq

/-- What happened to a call: an event of its own, an operation that a node executed for it, or a
message of it that was lost. -/
inductive CallEvent
  | own (event : TxnEvent)
  | served (node : NodeID) (op : Operation)
  | lost (msg : Message)
  deriving DecidableEq

structure Cluster (ι : Type*) where
  nodes : NodeID → Node
  txns : ι → TxnThread
  /-- From the first node to the second. -/
  channels : NodeID × NodeID → List (Packet ι)
  /-- The handler, at the second node, of a message of the first. -/
  handlers : NodeID × NodeID → Option (ActiveHandler ι)
  locks : List LockEvent
  hist : List (ι × CallEvent)

inductive ClusterLabel (ι : Type*)
  | txn (i : ι) (c : Choice)
  | deliver (src dest : NodeID)
  | handle (src dest : NodeID) (throws : Bool)
  | drop (src dest : NodeID) (pos : Nat)

/-- The lock event of a call's own event, on its own node. -/
def TxnEvent.lockEvent (node : NodeID) (txId : TransactionId) : TxnEvent → Option LockEvent
  | .granted key => some (.granted node (node, txId) key)
  | .released key => some (.released node (node, txId) key)
  | _ => none

/-- The lock event of a message that a node hands over to its handler. -/
def Message.handledEvent (src dest : NodeID) : Message → Option LockEvent
  | .lockRel t k => some (.released dest (src, t) k)
  | _ => none

/-- The lock event of a message that a handler sends. -/
def Message.sentEvent (src dest : NodeID) : Message → Option LockEvent
  | .lockGranted t k => some (.granted dest (src, t) k)
  | _ => none

/-- The operation that a node executes when this message is handled. -/
def Message.servedEvent (dest : NodeID) : Message → Option CallEvent
  | .opReq _ op => some (.served dest op)
  | _ => none

/-- The messages that handlers send. -/
def Message.IsResponse : Message → Prop
  | .lockGranted _ _ => True
  | .lockDenied _ _ => True
  | .opResp _ _ _ => True
  | _ => False

/-- The message that a call loses when a send of `execute_remote_operation` throws. -/
def TxnThread.lostEvent (t : TxnThread) (c : Choice) : Option CallEvent :=
  match t.pc with
  | .opSending op _ _ => if c.throws then some (.lost (.opReq t.txId op)) else none
  | _ => none

namespace Cluster

variable {ι : Type*} [DecidableEq ι]

/-- A message put at the end of a channel. -/
def push (w : Cluster ι) (src : NodeID) (i : ι) :
    Option (NodeID × Message) → NodeID × NodeID → List (Packet ι)
  | some (dest, msg) =>
    Function.update w.channels (src, dest) (w.channels (src, dest) ++ [⟨i, msg⟩])
  | none => w.channels

/-- The cluster after a step of call `i`. -/
def afterTxn (cfg : ClusterConfig ι) (w : Cluster ι) (i : ι) (c : Choice) (r : TxnStep) :
    Cluster ι where
  nodes := Function.update w.nodes (cfg.origin i) r.node
  txns := Function.update w.txns i r.thread
  channels := w.push (cfg.origin i) i r.sent
  handlers := w.handlers
  locks := w.locks ++ (r.event.bind (·.lockEvent (cfg.origin i) r.thread.txId)).toList
  hist := w.hist ++ ((w.txns i).lostEvent c).toList.map (Prod.mk i) ++
    r.event.toList.map fun e => (i, .own e)

section AfterTxn

variable {cfg : ClusterConfig ι} {w : Cluster ι} {i : ι} {c : Choice} {r : TxnStep}

@[simp] theorem afterTxn_txns_self : (w.afterTxn cfg i c r).txns i = r.thread :=
  Function.update_self ..

theorem afterTxn_txns_of_ne {j : ι} (h : j ≠ i) : (w.afterTxn cfg i c r).txns j = w.txns j :=
  Function.update_of_ne h ..

@[simp] theorem afterTxn_nodes_self : (w.afterTxn cfg i c r).nodes (cfg.origin i) = r.node :=
  Function.update_self ..

theorem afterTxn_nodes_of_ne {p : NodeID} (h : p ≠ cfg.origin i) :
    (w.afterTxn cfg i c r).nodes p = w.nodes p :=
  Function.update_of_ne h ..

end AfterTxn

/-- The cluster after the first section of the handler of the message at the head of a
channel. -/
def afterDeliver (w : Cluster ι) (src dest : NodeID) (p : Packet ι) (rest : List (Packet ι))
    (n : Node) (h : Option Handler) : Cluster ι where
  nodes := Function.update w.nodes dest n
  txns := w.txns
  channels := Function.update w.channels (src, dest) rest
  handlers := Function.update w.handlers (src, dest) (h.map (ActiveHandler.mk p.cause))
  locks := w.locks ++ (p.msg.handledEvent src dest).toList
  hist := w.hist ++ (p.msg.servedEvent dest).toList.map (Prod.mk p.cause)

/-- The cluster after another section of a handler. -/
def afterHandle (w : Cluster ι) (src dest : NodeID) (i : ι)
    (r : Node × Option Handler × Option Message) : Cluster ι where
  nodes := Function.update w.nodes dest r.1
  txns := w.txns
  channels := w.push dest i (r.2.2.map (Prod.mk src))
  handlers := Function.update w.handlers (src, dest) (r.2.1.map (ActiveHandler.mk i))
  locks := w.locks ++ (r.2.2.bind (·.sentEvent src dest)).toList
  hist := w.hist

/-- The cluster after the loss of a message. -/
def afterDrop (w : Cluster ι) (src dest : NodeID) (pos : Nat) (p : Packet ι) : Cluster ι where
  nodes := w.nodes
  txns := w.txns
  channels := Function.update w.channels (src, dest) ((w.channels (src, dest)).eraseIdx pos)
  handlers := w.handlers
  locks := w.locks
  hist := w.hist ++ [(p.cause, .lost p.msg)]

def step (cfg : ClusterConfig ι) (w : Cluster ι) : ClusterLabel ι → Option (Cluster ι)
  | .txn i c => (stepTxn (w.nodes (cfg.origin i)) (w.txns i) c).map (w.afterTxn cfg i c)
  | .deliver src dest =>
    if dest ∈ cfg.members ∧ src ≠ dest ∧ (w.handlers (src, dest)).isNone then
      match w.channels (src, dest) with
      | [] => none
      | p :: rest =>
        (handlePeerMessage (w.nodes dest) src p.msg.toJson).map fun x =>
          w.afterDeliver src dest p rest x.1 x.2
    else none
  | .handle src dest throws =>
    (w.handlers (src, dest)).map fun a =>
      w.afterHandle src dest a.cause (stepHandler (w.nodes dest) throws a.handler)
  | .drop src dest pos => ((w.channels (src, dest))[pos]?).map (w.afterDrop src dest pos)

/-- Nothing has been called, nothing is under way. -/
def initial (cfg : ClusterConfig ι) (stores : NodeID → ThreadSafeKVStore)
    (txs : ι → Transaction) : Cluster ι where
  nodes := fun n => .fresh (cfg.routing n) (stores n)
  txns := fun i => .fresh (txs i)
  channels := fun _ => []
  handlers := fun _ => none
  locks := []
  hist := []

/-! ## 2. Everything a step can do -/

/-- What handling a message comes to, by its kind.  A grant is handled like a denial. -/
inductive Handled (n : Node) (peer : NodeID) : Message → Node → Option Handler → Prop
  | lockReq {t k} : Handled n peer (.lockReq t k) n (some (.acquiring t k .emplace))
  | lockGranted {t k} : n.distributedMutex = false →
      Handled n peer (.lockGranted t k) (n.erasePending t) none
  | lockDenied {t k} : n.distributedMutex = false →
      Handled n peer (.lockDenied t k) (n.erasePending t) none
  | lockRel {t k} : Handled n peer (.lockRel t k) (n.handleLockRelease t k) none
  | opReq {t op} : Handled n peer (.opReq t op)
      { n with store := (NaiveOpExecutor.accept n.store op).1 }
      (some (.responding (.opResp t op.key (NaiveOpExecutor.accept n.store op).2)))
  | opResp {t k result} : n.distributedMutex = false →
      Handled n peer (.opResp t k result) (n.handleOperationResponse peer t k (result.getD [])) none

theorem handlePeerMessage_spec {n : Node} {peer : NodeID} {m : Message}
    {x : Node × Option Handler} (h : handlePeerMessage n peer m.toJson = some x) :
    Handled n peer m x.1 x.2 := by
  unfold handlePeerMessage at h
  rw [dispatch_toJson] at h
  cases m with
  | lockReq t k =>
    simp only [Message.dispatched, Option.some.injEq] at h
    exact h ▸ .lockReq
  | lockGranted t k =>
    simp only [Message.dispatched] at h
    split at h
    · exact absurd h (by simp)
    · rename_i hm
      rw [Option.some.injEq] at h
      exact h ▸ .lockGranted (by simpa using hm)
  | lockDenied t k =>
    simp only [Message.dispatched] at h
    split at h
    · exact absurd h (by simp)
    · rename_i hm
      rw [Option.some.injEq] at h
      exact h ▸ .lockDenied (by simpa using hm)
  | lockRel t k =>
    simp only [Message.dispatched, Option.some.injEq] at h
    exact h ▸ .lockRel
  | opReq t op =>
    simp only [Message.dispatched, Node.handleOperationRequest, Option.some.injEq] at h
    exact h ▸ .opReq
  | opResp t k result =>
    simp only [Message.dispatched] at h
    split at h
    · exact absurd h (by simp)
    · rename_i hm
      rw [Option.some.injEq] at h
      exact h ▸ .opResp (by simpa using hm)

/-- The response to a lock request. -/
def lockResponse (t : TransactionId) (k : KeyType) : AcquireResult → Message
  | .ACQUIRED => .lockGranted t k
  | .ABORTED => .lockDenied t k

/-- What a section of a handler comes to. -/
inductive HandlerStepped (n : Node) (throws : Bool) :
    Handler → Node × Option Handler × Option Message → Prop
  | poll {t k stage stage' lm} : AcquireStep n.lockManager k t stage lm (.inl stage') →
      HandlerStepped n throws (.acquiring t k stage)
        ({ n with lockManager := lm }, some (.acquiring t k stage'), none)
  | decided {t k stage lm result} : AcquireStep n.lockManager k t stage lm (.inr result) →
      HandlerStepped n throws (.acquiring t k stage)
        ({ n with lockManager := lm }, some (.responding (lockResponse t k result)), none)
  | responded {msg} : throws = false →
      HandlerStepped n throws (.responding msg) (n, none, some msg)
  | responseThrew {msg} : throws = true →
      HandlerStepped n throws (.responding msg) (n, none, none)

theorem stepHandler_spec (n : Node) (throws : Bool) (h : Handler) :
    HandlerStepped n throws h (stepHandler n throws h) := by
  cases h with
  | acquiring t k stage =>
    have hspec := acquireStep_spec n.lockManager k t stage
    simp only [stepHandler]
    split
    · rename_i heq
      rw [heq] at hspec
      exact .poll hspec
    · rename_i heq
      rw [heq] at hspec
      exact .decided hspec
    · rename_i heq
      rw [heq] at hspec
      exact .decided hspec
  | responding msg =>
    cases throws with
    | false => exact .responded rfl
    | true => exact .responseThrew rfl

/-- A handler sends what it was about to send. -/
theorem HandlerStepped.sent_of {n : Node} {throws : Bool} {a : Handler}
    {r : Node × Option Handler × Option Message} (h : HandlerStepped n throws a r) {m : Message}
    (hm : r.2.2 = some m) : a = .responding m := by
  cases h with
  | responded _ => exact congrArg Handler.responding (Option.some.inj hm)
  | poll _ => exact absurd hm (by simp)
  | decided _ => exact absurd hm (by simp)
  | responseThrew _ => exact absurd hm (by simp)

/-- **Everything a step of the cluster can do.** -/
inductive Stepped (cfg : ClusterConfig ι) (w : Cluster ι) : ClusterLabel ι → Cluster ι → Prop
  | txn {i c r} : TxnStepped (w.nodes (cfg.origin i)) (w.txns i) c r →
      Stepped cfg w (.txn i c) (w.afterTxn cfg i c r)
  | deliver {src dest p rest n h} : dest ∈ cfg.members → src ≠ dest →
      w.handlers (src, dest) = none → w.channels (src, dest) = p :: rest →
      Handled (w.nodes dest) src p.msg n h →
      Stepped cfg w (.deliver src dest) (w.afterDeliver src dest p rest n h)
  | handle {src dest throws i h r} : w.handlers (src, dest) = some ⟨i, h⟩ →
      HandlerStepped (w.nodes dest) throws h r →
      Stepped cfg w (.handle src dest throws) (w.afterHandle src dest i r)
  | drop {src dest pos p} : (w.channels (src, dest))[pos]? = some p →
      Stepped cfg w (.drop src dest pos) (w.afterDrop src dest pos p)

theorem stepped_of_step {cfg : ClusterConfig ι} {w w' : Cluster ι} {l : ClusterLabel ι}
    (h : w.step cfg l = some w') : Stepped cfg w l w' := by
  cases l with
  | txn i c =>
    obtain ⟨r, hr, rfl⟩ := Option.map_eq_some_iff.mp h
    exact .txn (stepTxn_spec hr)
  | deliver src dest =>
    simp only [step] at h
    split at h
    · rename_i hguard
      obtain ⟨hmem, hne, hnone⟩ := hguard
      split at h
      · exact absurd h (by simp)
      · rename_i p rest hch
        obtain ⟨x, hx, rfl⟩ := Option.map_eq_some_iff.mp h
        exact .deliver hmem hne (by simpa using hnone) hch (handlePeerMessage_spec hx)
    · exact absurd h (by simp)
  | handle src dest throws =>
    obtain ⟨a, ha, rfl⟩ := Option.map_eq_some_iff.mp h
    exact .handle ha (stepHandler_spec _ _ _)
  | drop src dest pos =>
    obtain ⟨p, hp, rfl⟩ := Option.map_eq_some_iff.mp h
    exact .drop hp

/-! ## 3. What every step keeps -/

/-- The owner of a key in the lock table of a node. -/
abbrev ownerAt (w : Cluster ι) (p : NodeID) (k : KeyType) : Option TransactionId :=
  (w.nodes p).lockManager.owner k

/-- The call has been made. -/
def Called (w : Cluster ι) (i : ι) : Prop := (w.txns i).pc ≠ .idle

/-- Nothing that the call caused is under way. -/
structure Quiet (w : Cluster ι) (i : ι) : Prop where
  channels : ∀ ab, ∀ q ∈ w.channels ab, q.cause ≠ i
  handlers : ∀ ab a, w.handlers ab = some a → a.cause ≠ i

section Keeps

variable {cfg : ClusterConfig ι} {w w' : Cluster ι} {l : ClusterLabel ι}

omit [DecidableEq ι] in
/-- A channel after a send: as before, or with the new message at its end. -/
theorem push_cases (w : Cluster ι) (src : NodeID) (i : ι) (sent : Option (NodeID × Message))
    (ab : NodeID × NodeID) :
    w.push src i sent ab = w.channels ab ∨
      ∃ dest msg, sent = some (dest, msg) ∧ ab = (src, dest) ∧
        w.push src i sent ab = w.channels ab ++ [⟨i, msg⟩] := by
  cases sent with
  | none => exact .inl rfl
  | some x =>
    obtain ⟨dest, msg⟩ := x
    rcases eq_or_ne ab (src, dest) with rfl | hne
    · exact .inr ⟨dest, msg, rfl, rfl, Function.update_self ..⟩
    · exact .inl (Function.update_of_ne hne ..)

omit [DecidableEq ι] in
theorem mem_push {src : NodeID} {i : ι} {sent : Option (NodeID × Message)}
    {ab : NodeID × NodeID} {q : Packet ι} (h : q ∈ w.push src i sent ab) :
    q ∈ w.channels ab ∨
      ∃ dest msg, sent = some (dest, msg) ∧ ab = (src, dest) ∧ q = ⟨i, msg⟩ := by
  rcases w.push_cases src i sent ab with heq | ⟨dest, msg, hs, hab, heq⟩
  · exact .inl (heq ▸ h)
  · rw [heq, List.mem_append, List.mem_singleton] at h
    exact h.imp id fun hq => ⟨dest, msg, hs, hab, hq⟩

/-- What holds of a map with one value replaced, at some point. -/
theorem update_cases {α β : Type*} [DecidableEq α] {f : α → β} {a b : α} {v : β} {P : β → Prop}
    (h : P (Function.update f a v b)) : (b = a ∧ P v) ∨ (b ≠ a ∧ P (f b)) := by
  rcases eq_or_ne b a with rfl | hne
  · exact .inl ⟨rfl, by simpa using h⟩
  · exact .inr ⟨hne, by simpa [hne] using h⟩

/-- What a change of one node does not touch in that node, it does not touch anywhere. -/
theorem proj_update {β : Type*} {nodes : NodeID → Node} {d : NodeID} {n : Node} {f : Node → β}
    (h : f n = f (nodes d)) (p : NodeID) : f (Function.update nodes d n p) = f (nodes p) := by
  rcases eq_or_ne p d with rfl | hne
  · rw [Function.update_self, h]
  · rw [Function.update_of_ne hne]

theorem Handled.routing_eq {n n' : Node} {peer : NodeID} {m : Message} {a : Option Handler}
    (h : Handled n peer m n' a) : n'.routing = n.routing := by
  cases h <;> rfl

theorem HandlerStepped.routing_eq {n : Node} {throws : Bool} {a : Handler}
    {r : Node × Option Handler × Option Message} (h : HandlerStepped n throws a r) :
    r.1.routing = n.routing := by
  cases h <;> rfl

theorem Stepped.routing_eq (h : Stepped cfg w l w') (p : NodeID) :
    (w'.nodes p).routing = (w.nodes p).routing := by
  cases h with
  | txn hs => exact proj_update (f := Node.routing) hs.routing_eq p
  | deliver _ _ _ _ hh => exact proj_update (f := Node.routing) hh.routing_eq p
  | handle _ hs => exact proj_update (f := Node.routing) hs.routing_eq p
  | drop _ => rfl

theorem Stepped.tx_eq (h : Stepped cfg w l w') (j : ι) : (w'.txns j).tx = (w.txns j).tx := by
  cases h with
  | @txn i c r hs =>
    rcases eq_or_ne j i with rfl | hne
    · rw [afterTxn_txns_self, hs.tx_eq]
    · rw [afterTxn_txns_of_ne hne]
  | _ => rfl

/-- A call once made stays made, and keeps its id. -/
theorem Stepped.called (h : Stepped cfg w l w') {j : ι} (hj : w.Called j) :
    w'.Called j ∧ (w'.txns j).txId = (w.txns j).txId := by
  cases h with
  | @txn i c r hs =>
    unfold Called
    rcases eq_or_ne j i with rfl | hne
    · rw [afterTxn_txns_self]
      exact ⟨(hs.id_of_called hj).2.1, (hs.id_of_called hj).1⟩
    · rw [afterTxn_txns_of_ne hne]
      exact ⟨hj, rfl⟩
  | _ => exact ⟨hj, rfl⟩

/-- Who can have become the owner of a key: a call of the node, or a handler. -/
theorem Stepped.owner_of (h : Stepped cfg w l w') {p : NodeID} {k : KeyType} {t : TransactionId}
    (ho : w'.ownerAt p k = some t) :
    w.ownerAt p k = some t ∨
      (∃ i c, l = .txn i c ∧ w.Called i ∧ p = cfg.origin i ∧ t = (w.txns i).txId) ∨
      ∃ a j st, w.handlers (a, p) = some ⟨j, .acquiring t k st⟩ := by
  cases h with
  | @txn i c r hs =>
    rcases update_cases (P := fun n : Node => n.lockManager.owner k = some t) ho with
      ⟨rfl, hn⟩ | ⟨-, hold⟩
    · rcases hs.owner_id hn with hold | ⟨rfl, hcalled⟩
      · exact .inl hold
      · exact .inr (.inl ⟨i, c, rfl, hcalled, rfl, rfl⟩)
    · exact .inl hold
  | @deliver src dest q rest n a _ _ _ _ hh =>
    obtain ⟨cause, msg⟩ := q
    refine .inl ?_
    rcases update_cases (P := fun n : Node => n.lockManager.owner k = some t) ho with
      ⟨rfl, hn⟩ | ⟨-, hold⟩
    · cases hh with
      | lockRel => exact LockManager.owner_of_release hn
      | _ => exact hn
    · exact hold
  | @handle src dest throws i a r hi hs =>
    rcases update_cases (P := fun n : Node => n.lockManager.owner k = some t) ho with
      ⟨rfl, hn⟩ | ⟨-, hold⟩
    · cases hs with
      | poll hacq =>
        rcases hacq.owner_cases hn with hold | ⟨rfl, rfl⟩
        · exact .inl hold
        · exact .inr (.inr ⟨src, i, _, hi⟩)
      | decided hacq =>
        rcases hacq.owner_cases hn with hold | ⟨rfl, rfl⟩
        · exact .inl hold
        · exact .inr (.inr ⟨src, i, _, hi⟩)
      | responded _ => exact .inl hn
      | responseThrew _ => exact .inl hn
    · exact .inl hold
  | drop _ => exact .inl ho

/-- Where a message in a channel comes from: it was there, a call sent it, or a handler did. -/
theorem Stepped.packet_of (h : Stepped cfg w l w') {ab : NodeID × NodeID} {q : Packet ι}
    (hq : q ∈ w'.channels ab) :
    q ∈ w.channels ab ∨
      (∃ c r, l = .txn q.cause c ∧
        TxnStepped (w.nodes (cfg.origin q.cause)) (w.txns q.cause) c r ∧
        r.sent = some (ab.2, q.msg) ∧ ab.1 = cfg.origin q.cause) ∨
      w.handlers (ab.2, ab.1) = some ⟨q.cause, .responding q.msg⟩ := by
  cases h with
  | @txn i c r hs =>
    rcases mem_push hq with hold | ⟨dest, msg, hsent, rfl, rfl⟩
    · exact .inl hold
    · exact .inr (.inl ⟨c, r, rfl, hs, hsent, rfl⟩)
  | @deliver src dest p rest n a _ _ _ hch _ =>
    refine .inl ?_
    rcases update_cases (P := fun l => q ∈ l) hq with ⟨rfl, hrest⟩ | ⟨-, hold⟩
    · exact hch ▸ List.mem_cons_of_mem p hrest
    · exact hold
  | @handle src dest throws i a r hi hs =>
    rcases mem_push hq with hold | ⟨d, msg, hsent, rfl, rfl⟩
    · exact .inl hold
    · obtain ⟨m, hm, heq⟩ := Option.map_eq_some_iff.mp hsent
      obtain ⟨rfl, rfl⟩ := Prod.mk.inj heq
      exact .inr (.inr (hs.sent_of hm ▸ hi))
  | @drop src dest pos p hp =>
    refine .inl ?_
    rcases update_cases (P := fun l => q ∈ l) hq with ⟨rfl, hrest⟩ | ⟨-, hold⟩
    · exact List.mem_of_mem_eraseIdx hrest
    · exact hold

/-- Where a handler that asks for a lock comes from: it was at it, or the request was the next
message. -/
theorem Stepped.acquiring_of (h : Stepped cfg w l w') {ab : NodeID × NodeID} {j : ι}
    {t : TransactionId} {k : KeyType} {st : AcquireStage}
    (ha : w'.handlers ab = some ⟨j, .acquiring t k st⟩) :
    (∃ st', w.handlers ab = some ⟨j, .acquiring t k st'⟩) ∨
      ∃ rest, w.channels ab = ⟨j, .lockReq t k⟩ :: rest := by
  cases h with
  | txn _ => exact .inl ⟨st, ha⟩
  | @deliver src dest q rest n a _ _ _ hch hh =>
    obtain ⟨cause, msg⟩ := q
    rcases update_cases (P := fun a => a = some (ActiveHandler.mk j (.acquiring t k st))) ha with
      ⟨rfl, hnew⟩ | ⟨-, hold⟩
    · cases hh <;> simp_all
    · exact .inl ⟨st, hold⟩
  | @handle src dest throws i a r hi hs =>
    rcases update_cases (P := fun a => a = some (ActiveHandler.mk j (.acquiring t k st))) ha with
      ⟨rfl, hnew⟩ | ⟨-, hold⟩
    · cases hs <;> simp_all
    · exact .inl ⟨st, hold⟩
  | drop _ => exact .inl ⟨st, ha⟩

/-- A handler responds with a response. -/
theorem Stepped.responding_of (h : Stepped cfg w l w') {ab : NodeID × NodeID} {j : ι} {m : Message}
    (ha : w'.handlers ab = some ⟨j, .responding m⟩) :
    w.handlers ab = some ⟨j, .responding m⟩ ∨ m.IsResponse := by
  cases h with
  | txn _ => exact .inl ha
  | @deliver src dest q rest n a _ _ _ hch hh =>
    obtain ⟨cause, msg⟩ := q
    rcases update_cases (P := fun a => a = some (ActiveHandler.mk j (.responding m))) ha with
      ⟨rfl, hnew⟩ | ⟨-, hold⟩
    · cases hh with
      | opReq =>
        simp only [Option.map_some, Option.some.injEq, ActiveHandler.mk.injEq,
          Handler.responding.injEq] at hnew
        exact .inr (hnew.2 ▸ trivial)
      | _ => exact absurd hnew (by simp)
    · exact .inl hold
  | @handle src dest throws i a r hi hs =>
    rcases update_cases (P := fun a => a = some (ActiveHandler.mk j (.responding m))) ha with
      ⟨rfl, hnew⟩ | ⟨-, hold⟩
    · cases hs with
      | @decided t k stage lm result _ =>
        simp only [Option.map_some, Option.some.injEq, ActiveHandler.mk.injEq,
          Handler.responding.injEq] at hnew
        refine .inr (hnew.2 ▸ ?_)
        cases result <;> trivial
      | _ => exact absurd hnew (by simp)
    · exact .inl hold
  | drop _ => exact .inl ha

/-- Handling a message takes the pending entry of a transaction out, or leaves it. -/
theorem Handled.pending_eq {n n' : Node} {peer : NodeID} {m : Message} {a : Option Handler}
    (h : Handled n peer m n' a) (t : TransactionId) :
    n'.pendingRemoteLocks t = n.pendingRemoteLocks t ∨ n'.pendingRemoteLocks t = none := by
  have herase : ∀ t', (n.erasePending t').pendingRemoteLocks t = n.pendingRemoteLocks t ∨
      (n.erasePending t').pendingRemoteLocks t = none := by
    intro t'
    rcases eq_or_ne t t' with rfl | hne
    · exact .inr (Function.update_self ..)
    · exact .inl (Function.update_of_ne hne ..)
  cases h with
  | lockGranted _ => exact herase _
  | lockDenied _ => exact herase _
  | _ => exact .inl rfl

/-- A pending entry is taken out or left, or it is that of the call that moves. -/
theorem Stepped.pending_eq (h : Stepped cfg w l w') (p : NodeID) (t : TransactionId) :
    (w'.nodes p).pendingRemoteLocks t = (w.nodes p).pendingRemoteLocks t ∨
      (w'.nodes p).pendingRemoteLocks t = none ∨
      ∃ i c, l = .txn i c ∧ w.Called i ∧ p = cfg.origin i ∧ t = (w.txns i).txId := by
  cases h with
  | @txn i c r hs =>
    rcases eq_or_ne p (cfg.origin i) with rfl | hne
    · rw [afterTxn_nodes_self]
      rcases hs.pending_id t with heq | ⟨rfl, hcalled⟩
      · exact .inl heq
      · exact .inr (.inr ⟨i, c, rfl, hcalled, rfl, rfl⟩)
    · exact .inl (by rw [afterTxn_nodes_of_ne hne])
  | @deliver src dest q rest n a _ _ _ hch hh =>
    simp only [afterDeliver]
    rcases eq_or_ne p dest with rfl | hne
    · rw [Function.update_self]
      exact (hh.pending_eq t).imp id .inl
    · exact .inl (by rw [Function.update_of_ne hne])
  | @handle src dest throws i a r hi hs =>
    refine .inl (congrFun (proj_update (f := Node.pendingRemoteLocks) ?_ p) t)
    cases hs <;> rfl
  | drop _ => exact .inl rfl

/-- In every run, every node routes as it did after `start`, and every call has the transaction it
was made for. -/
theorem run_routing {ok : Cluster ι → ClusterLabel ι → Prop}
    {stores : NodeID → ThreadSafeKVStore} {txs : ι → Transaction}
    (hr : Run (step cfg) ok (initial cfg stores txs) w) :
    (∀ p, (w.nodes p).routing = cfg.routing p) ∧ ∀ j, (w.txns j).tx = txs j := by
  refine Run.invariant (I := fun w => (∀ p, (w.nodes p).routing = cfg.routing p) ∧
    ∀ j, (w.txns j).tx = txs j) hr ⟨fun _ => rfl, fun _ => rfl⟩ ?_
  intro w l w' h _ hs
  have hstepped := stepped_of_step hs
  constructor
  · intro p
    rw [hstepped.routing_eq, h.1]
  · intro j
    rw [hstepped.tx_eq, h.2]

/-- In every run, what handlers are about to send are responses. -/
theorem run_responses {ok : Cluster ι → ClusterLabel ι → Prop}
    {stores : NodeID → ThreadSafeKVStore} {txs : ι → Transaction}
    (hr : Run (step cfg) ok (initial cfg stores txs) w) {ab : NodeID × NodeID} {j : ι}
    {m : Message} (ha : w.handlers ab = some ⟨j, .responding m⟩) : m.IsResponse := by
  refine Run.invariant (I := fun w => ∀ ab j m, w.handlers ab = some ⟨j, .responding m⟩ →
    m.IsResponse) hr ?_ ?_ ab j m ha
  · intro ab j m ha
    exact absurd ha (by simp [initial])
  · intro w l w' h _ hs ab j m ha
    exact ((stepped_of_step hs).responding_of ha).elim (h ab j m) id

end Keeps

/-! ## 4. Runs on a few channels -/

/-- The step uses only these channels. -/
def staysOn (cfg : ClusterConfig ι) (on : List (NodeID × NodeID)) (w : Cluster ι) :
    ClusterLabel ι → Bool
  | .txn i c => ((stepTxn (w.nodes (cfg.origin i)) (w.txns i) c).bind TxnStep.sent).all fun x =>
    (cfg.origin i, x.1) ∈ on
  | .deliver src dest => (src, dest) ∈ on
  | .handle src dest _ => (src, dest) ∈ on ∧ (dest, src) ∈ on
  | .drop src dest _ => (src, dest) ∈ on

/-- Nothing is under way on these channels. -/
def silentOn (on : List (NodeID × NodeID)) (w : Cluster ι) : Bool :=
  on.all fun ab => (w.channels ab).isEmpty && (w.handlers ab).isNone

/-- The other channels stay as they were. -/
theorem step_off {cfg : ClusterConfig ι} {on : List (NodeID × NodeID)} {w w' : Cluster ι}
    {l : ClusterLabel ι} (hon : staysOn cfg on w l = true) (hs : w.step cfg l = some w')
    {ab : NodeID × NodeID} (hab : ab ∉ on) :
    w'.channels ab = w.channels ab ∧ w'.handlers ab = w.handlers ab := by
  have hne : ∀ {cd}, cd ∈ on → ab ≠ cd := by
    rintro cd hcd rfl
    exact hab hcd
  cases l with
  | txn i c =>
    obtain ⟨r, hr, rfl⟩ := Option.map_eq_some_iff.mp hs
    refine ⟨?_, rfl⟩
    rcases w.push_cases (cfg.origin i) i r.sent ab with heq | ⟨dest, msg, hsent, rfl, -⟩
    · exact heq
    · exact absurd (by simpa [staysOn, hr, hsent] using hon) hab
  | deliver src dest =>
    have hne := hne (of_decide_eq_true hon)
    cases stepped_of_step hs with
    | deliver _ _ _ _ _ => exact ⟨Function.update_of_ne hne .., Function.update_of_ne hne ..⟩
  | handle src dest throws =>
    obtain ⟨hsd, hds⟩ := of_decide_eq_true hon
    cases stepped_of_step hs with
    | @handle _ _ _ i h r _ _ =>
      refine ⟨?_, Function.update_of_ne (hne hsd) ..⟩
      rcases w.push_cases dest i (r.2.2.map (Prod.mk src)) ab with heq | ⟨d, msg, hsent, rfl, -⟩
      · exact heq
      · obtain ⟨m, -, hm⟩ := Option.map_eq_some_iff.mp hsent
        obtain ⟨rfl, rfl⟩ := Prod.mk.inj hm
        exact absurd hds hab
  | drop src dest pos =>
    have hne := hne (of_decide_eq_true hon)
    cases stepped_of_step hs with
    | drop _ => exact ⟨Function.update_of_ne hne .., rfl⟩

/-- A run on a few channels that ends with nothing on them ends with nothing under way. -/
theorem quiet_of_silentOn {cfg : ClusterConfig ι} {on : List (NodeID × NodeID)}
    {stores : NodeID → ThreadSafeKVStore} {txs : ι → Transaction} {w : Cluster ι}
    (hr : Run (step cfg) (fun w l => staysOn cfg on w l = true) (initial cfg stores txs) w)
    (hw : silentOn on w = true) (i : ι) : w.Quiet i := by
  have hoff : ∀ ab ∉ on, w.channels ab = [] ∧ w.handlers ab = none := by
    refine Run.invariant (I := fun w => ∀ ab ∉ on, w.channels ab = [] ∧ w.handlers ab = none)
      hr (fun _ _ => ⟨rfl, rfl⟩) ?_
    intro w l w' h hon hs ab hab
    obtain ⟨hch, hha⟩ := step_off hon hs hab
    exact ⟨hch.trans (h ab hab).1, hha.trans (h ab hab).2⟩
  have hall : ∀ ab, w.channels ab = [] ∧ w.handlers ab = none := by
    intro ab
    by_cases hab : ab ∈ on
    · simpa using List.all_eq_true.mp hw ab hab
    · exact hoff ab hab
  constructor
  · intro ab q hq
    exact absurd hq (by simp [(hall ab).1])
  · intro ab a ha
    exact absurd ha (by simp [(hall ab).2])

/-! ## 5. A cluster of three nodes -/

/-- The peers of a node among nodes 0, 1 and 2. -/
def othersOfThree (a : NodeID) : List NodeID := ([0, 1, 2] : List NodeID).filter (· ≠ a)

/-- Nodes 0, 1 and 2 as `start` leaves them, with the identity for a hash, and a call on each of
the first two. -/
def threeNodes : ClusterConfig Bool where
  members := {0, 1, 2}
  routing := fun a =>
    { id := a, localNodeId := a, numNodes := (a :: othersOfThree a).toFinset.card
      coordinator := some ⟨fun key => key.toUInt64, a,
        unique ((a :: othersOfThree a).insertionSort (· ≤ ·))⟩ }
  localNodeId_eq := fun _ => rfl
  origin := fun i => if i then 1 else 0

def emptyStores : NodeID → ThreadSafeKVStore := fun _ =>
  { hash := fun key => key.toUInt64, stripes := fun _ _ => none }

/-- A call without local keys, up to its wait for the one remote key 2. -/
def requestKey2 (i : Bool) : List (ClusterLabel Bool) :=
  [.txn i {}, .txn i { pairs := [(2, 2)] }, .txn i {}, .txn i {}]

/-- The request of the node handled by node 2, and answered. -/
def serveAt2 (src : NodeID) : List (ClusterLabel Bool) :=
  [.deliver src 2, .handle src 2 false, .handle src 2 false, .handle src 2 false,
    .handle src 2 false]

end Cluster

end TwoPL
