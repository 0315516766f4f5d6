/-
# The messages of one call

`execute_with_distributed_support` groups its keys by node once and goes through the groups three
times: to ask for the locks, to send the operations (one by one, in the transaction's order) and to
give the locks back.  Each pass iterates hash containers in an order of its own.

A `LoggedCall` is one call on a node on which anything else may happen between its steps, with all
it has sent and done in one list.  When the call returns after `acquire_all_locks` succeeded, and no
`send` threw, what it sent is (`messages_match`)

    lock_req, one for each remote key     -- in some order
    op_req, one for each remote operation -- in the order of the transaction
    lock_rel, one for each remote key     -- in some order

each to the primary of its key, and nothing else; and the local keys were all granted before that.
-/
import TwoPL.Cluster
import TwoPL.Lib.Runs
import TwoPL.Scheduler

namespace TwoPL

open Lib

/-! ## 1. A call and its log -/

/-- What is recorded of a call. -/
inductive LogEntry
  | sent (dest : NodeID) (msg : Message)
  | event (e : TxnEvent)
  deriving DecidableEq

/-- A node, a call on it, and all the call has sent and done. -/
structure LoggedCall where
  node : Node
  thread : TxnThread
  log : List LogEntry

inductive LoggedLabel
  | call (c : Choice)
  /-- Anything else happens on the node. -/
  | env (n : Node)

/-- What a step adds to the log. -/
def TxnStep.entries (r : TxnStep) : List LogEntry :=
  (r.sent.toList.map fun m => .sent m.1 m.2) ++ r.event.toList.map .event

/-- The messages of a log, with their destinations. -/
def sentOf (log : List LogEntry) : List (NodeID × Message) :=
  log.filterMap fun
    | .sent dest msg => some (dest, msg)
    | .event _ => none

namespace LoggedCall

def initial (n : Node) (tx : Transaction) : LoggedCall where
  node := n
  thread := .fresh tx
  log := []

/-- The environment leaves the routing, which `start` has decided, and nothing else. -/
def step (w : LoggedCall) : LoggedLabel → Option LoggedCall
  | .call c =>
    (stepTxn w.node w.thread c).map fun r =>
      { node := r.node, thread := r.thread, log := w.log ++ r.entries }
  | .env n => some { w with node := { n with routing := w.node.routing } }

/-- No `send` of the call throws. -/
def noThrow (_ : LoggedCall) : LoggedLabel → Bool
  | .call c => !c.throws
  | .env _ => true

end LoggedCall

/-! ## 2. The three groups of messages -/

section Groups

variable (n : Node) (tx : Transaction) (txId : TransactionId)

def lockReqs (pairs : List (NodeID × KeyType)) : List (NodeID × Message) :=
  pairs.map fun p => (p.1, .lockReq txId p.2)

def lockRels (pairs : List (NodeID × KeyType)) : List (NodeID × Message) :=
  pairs.map fun p => (p.1, .lockRel txId p.2)

/-- The requests of the operations among `ops` that are not local, in their order. -/
def opReqs (ops : List Operation) : List (NodeID × Message) :=
  (ops.filter fun op => n.primary op.key ≠ n.routing.localNodeId).map fun op =>
    (n.primary op.key, .opReq txId op)

/-- The key a message is about. -/
def Message.key : Message → KeyType
  | .lockReq _ k | .lockGranted _ k | .lockDenied _ k | .lockRel _ k | .opResp _ k _ => k
  | .opReq _ op => op.key

/-- An operation has run, or been sent. -/
def LogEntry.isOperation : LogEntry → Bool
  | .event (.ran _ _) => true
  | .sent _ (.opReq _ _) => true
  | _ => false

/-- Every local key was granted, and no operation ran before that. -/
def GrantedFirst (log : List LogEntry) : Prop :=
  ∃ before after, log = before ++ after ∧
    (∀ k ∈ n.localKeys tx, .event (.granted k) ∈ before) ∧
    ∀ e ∈ before, e.isOperation = false

/-- `requests` and `releases` each list every remote key once, with its primary; what was sent is
the requests for them, the remote operations and the releases, and nothing about a local key. -/
structure MessagesMatch (log : List LogEntry) (requests releases : List (NodeID × KeyType)) :
    Prop where
  asked : Enumerates requests (n.remotePairs tx)
  released : Enumerates releases (n.remotePairs tx)
  sent : sentOf log = lockReqs txId requests ++ opReqs n txId tx ++ lockRels txId releases
  away : ∀ m ∈ sentOf log, n.primary m.2.key ≠ n.routing.localNodeId ∧ m.1 = n.primary m.2.key
  granted : GrantedFirst n tx log

end Groups

/-! ## 3. The invariant -/

section Invariant

variable (n : Node) (tx : Transaction) (txId : TransactionId)

/-- The operations `done` have been sent or run, and before them the locks were asked for. -/
def Progressed (log : List LogEntry) (done : List Operation) : Prop :=
  ∃ requests, Enumerates requests (n.remotePairs tx) ∧
    sentOf log = lockReqs txId requests ++ opReqs n txId done ∧ GrantedFirst n tx log

/-- The call is still in `acquire_all_locks`, with these keys to acquire. -/
structure Acquiring (log : List LogEntry) (todo : List KeyType) : Prop where
  granted : ∀ k ∈ n.localKeys tx, k ∈ todo ∨ .event (.granted k) ∈ log
  quiet : ∀ e ∈ log, e.isOperation = false
  unlocked : .event .locked ∉ log

/-- What the log of a call holds, by where the call is. -/
def Logged (log : List LogEntry) : Pc → Prop
  | .idle => log = []
  | .locking todo _ => Acquiring n tx log todo ∧ sentOf log = []
  | .requesting todo => Acquiring n tx log [] ∧ ∃ requests,
      Enumerates (requests ++ todo) (n.remotePairs tx) ∧ sentOf log = lockReqs txId requests
  | .waiting => Acquiring n tx log [] ∧ ∃ requests,
      Enumerates requests (n.remotePairs tx) ∧ sentOf log = lockReqs txId requests
  | .timingOut _ | .aborting _ => .event .locked ∉ log
  | .executing rest _ => ∃ done, tx = done ++ rest ∧ Progressed n tx txId log done
  | .opSending op rest _ => ∃ done, tx = done ++ op :: rest ∧
      n.primary op.key ≠ n.routing.localNodeId ∧ Progressed n tx txId log done
  | .opChecking _ rest _ | .opWaiting _ rest _ | .opRetrieving _ rest _ =>
      ∃ done, tx = done ++ rest ∧ Progressed n tx txId log done
  | .releasing _ _ rethrow => rethrow = true ∨ Progressed n tx txId log tx
  | .sendingReleases todo _ rethrow => rethrow = true ∨ (GrantedFirst n tx log ∧
      ∃ requests releases, Enumerates requests (n.remotePairs tx) ∧
        Enumerates (releases ++ todo) (n.remotePairs tx) ∧
        sentOf log = lockReqs txId requests ++ opReqs n txId tx ++ lockRels txId releases)
  | .returned _ => .event .locked ∉ log ∨ ∃ requests releases,
      MessagesMatch n tx txId log requests releases
  | .threw => True

end Invariant

section Lemmas

variable {n : Node} {tx : Transaction} {txId : TransactionId} {log : List LogEntry}

@[simp] theorem sentOf_append (log more : List LogEntry) :
    sentOf (log ++ more) = sentOf log ++ sentOf more := List.filterMap_append

@[simp] theorem sentOf_nil : sentOf [] = [] := rfl

@[simp] theorem sentOf_event (e : TxnEvent) : sentOf [.event e] = [] := rfl

@[simp] theorem sentOf_sent (dest : NodeID) (msg : Message) :
    sentOf [.sent dest msg] = [(dest, msg)] := rfl

/-- An event changes nothing about the messages. -/
theorem sentOf_entries_of_none {r : TxnStep} (h : r.sent = none) : sentOf r.entries = [] := by
  cases he : r.event <;> simp [TxnStep.entries, h, he]

theorem opReqs_concat_local {op : Operation} (h : n.primary op.key = n.routing.localNodeId)
    (done : List Operation) : opReqs n txId (done ++ [op]) = opReqs n txId done := by
  simp [opReqs, h]

theorem opReqs_concat_remote {op : Operation} (h : n.primary op.key ≠ n.routing.localNodeId)
    (done : List Operation) :
    opReqs n txId (done ++ [op])
      = opReqs n txId done ++ [(n.primary op.key, .opReq txId op)] := by
  simp [opReqs, h]

theorem GrantedFirst.append (h : GrantedFirst n tx log) (more : List LogEntry) :
    GrantedFirst n tx (log ++ more) := by
  obtain ⟨before, after, rfl, hgranted, hquiet⟩ := h
  exact ⟨before, after ++ more, List.append_assoc .., hgranted, hquiet⟩

/-- All the keys are there, and nothing has run. -/
theorem Acquiring.grantedFirst (h : Acquiring n tx log []) : GrantedFirst n tx log := by
  refine ⟨log, [], (List.append_nil log).symm, fun k hk => ?_, h.quiet⟩
  exact (h.granted k hk).resolve_left (by simp)

/-- A step in which no operation runs and the locks are not all there yet. -/
theorem Acquiring.append {todo todo' : List KeyType} (h : Acquiring n tx log todo)
    {more : List LogEntry} (hquiet : ∀ e ∈ more, e.isOperation = false)
    (hunlocked : .event .locked ∉ more)
    (htodo : ∀ k ∈ todo, k ∈ todo' ∨ .event (.granted k) ∈ more) :
    Acquiring n tx (log ++ more) todo' where
  granted k hk := by
    rcases h.granted k hk with hmem | hmem
    · exact (htodo k hmem).imp id (List.mem_append_right _)
    · exact .inr (List.mem_append_left _ hmem)
  quiet e he := (List.mem_append.mp he).elim (h.quiet e) (hquiet e)
  unlocked he := (List.mem_append.mp he).elim h.unlocked hunlocked

/-- A step that sends nothing new and runs nothing. -/
theorem Progressed.append {done : List Operation} (h : Progressed n tx txId log done)
    {more : List LogEntry} (hsent : sentOf more = []) :
    Progressed n tx txId (log ++ more) done := by
  obtain ⟨requests, henum, hlog, hgranted⟩ := h
  exact ⟨requests, henum, by rw [sentOf_append, hsent, List.append_nil, hlog], hgranted.append more⟩

/-- ... wherever in its operations the call is. -/
theorem exists_progressed_append {rest : List Operation}
    (h : ∃ done, tx = done ++ rest ∧ Progressed n tx txId log done) {more : List LogEntry}
    (hsent : sentOf more = []) :
    ∃ done, tx = done ++ rest ∧ Progressed n tx txId (log ++ more) done := by
  obtain ⟨done, hdone, hprog⟩ := h
  exact ⟨done, hdone, hprog.append hsent⟩

/-- A remote pair is a key that is not local, with its primary. -/
theorem mem_remotePairs {p : NodeID × KeyType} (h : p ∈ n.remotePairs tx) :
    n.primary p.2 ≠ n.routing.localNodeId ∧ p.1 = n.primary p.2 := by
  obtain ⟨k, hk, rfl⟩ := Finset.mem_image.mp h
  exact ⟨(Finset.mem_filter.mp hk).2, rfl⟩

/-- The messages of the three groups go to the primaries of their keys. -/
theorem away_of_groups {requests releases : List (NodeID × KeyType)}
    (hreq : Enumerates requests (n.remotePairs tx)) (hrel : Enumerates releases (n.remotePairs tx))
    {m : NodeID × Message}
    (hm : m ∈ lockReqs txId requests ++ opReqs n txId tx ++ lockRels txId releases) :
    n.primary m.2.key ≠ n.routing.localNodeId ∧ m.1 = n.primary m.2.key := by
  simp only [lockReqs, opReqs, lockRels, List.mem_append, List.mem_map, List.mem_filter,
    decide_eq_true_eq] at hm
  rcases hm with (⟨p, hp, rfl⟩ | ⟨op, ⟨-, hop⟩, rfl⟩) | ⟨p, hp, rfl⟩
  · exact mem_remotePairs ((hreq.mem_iff p).mp hp)
  · exact ⟨hop, rfl⟩
  · exact mem_remotePairs ((hrel.mem_iff p).mp hp)

/-- The last release is sent: what follows is the return. -/
theorem messagesMatch_of_groups {requests releases : List (NodeID × KeyType)}
    (hreq : Enumerates requests (n.remotePairs tx)) (hrel : Enumerates releases (n.remotePairs tx))
    (hsent : sentOf log = lockReqs txId requests ++ opReqs n txId tx ++ lockRels txId releases)
    (hgranted : GrantedFirst n tx log) {more : List LogEntry} (hmore : sentOf more = []) :
    MessagesMatch n tx txId (log ++ more) requests releases := by
  have hall : sentOf (log ++ more)
      = lockReqs txId requests ++ opReqs n txId tx ++ lockRels txId releases := by
    rw [sentOf_append, hmore, List.append_nil, hsent]
  exact ⟨hreq, hrel, hall, fun m hm => away_of_groups hreq hrel (hall ▸ hm), hgranted.append more⟩

/-- The locks are all there: the operations begin. -/
theorem Acquiring.progressed (h : Acquiring n tx log []) {requests : List (NodeID × KeyType)}
    (henum : Enumerates requests (n.remotePairs tx)) (hsent : sentOf log = lockReqs txId requests)
    {more : List LogEntry} (hmore : sentOf more = []) :
    Progressed n tx txId (log ++ more) [] := by
  refine ⟨requests, henum, ?_, h.grantedFirst.append more⟩
  rw [sentOf_append, hmore, hsent]
  simp [opReqs]

end Lemmas

/-! ## 4. Every step keeps it -/

section Step

variable {n₀ n : Node} {tx : Transaction} {t : TxnThread} {c : Choice} {r : TxnStep}
  {log : List LogEntry}

/-- The step that begins the call. -/
theorem logged_of_call {keys : List KeyType} (henum : Enumerates keys (n₀.localKeys tx))
    (e : TransactionId) :
    Acquiring n₀ tx [.event (.called e)] keys ∧ sentOf [.event (.called e)] = [] :=
  ⟨⟨fun k hk => .inl ((henum.mem_iff k).mpr hk), by simp [LogEntry.isOperation], by simp⟩, rfl⟩

/-- **A step of the call keeps the log in order.** -/
theorem TxnStepped.logged (h : TxnStepped n t c r) (hthrow : c.throws = false)
    (hrouting : n.routing = n₀.routing) (htx : t.tx = tx)
    (hlog : Logged n₀ tx t.txId log t.pc) :
    Logged n₀ tx r.thread.txId (log ++ r.entries) r.thread.pc := by
  have hlocal : n.localKeys t.tx = n₀.localKeys tx := by
    rw [htx, Node.localKeys_congr hrouting]
  have hremote : n.remotePairs t.tx = n₀.remotePairs tx := by
    rw [htx, Node.remotePairs_congr hrouting]
  have hprimary : ∀ key, n.primary key = n₀.primary key := fun key => by
    rw [Node.primary, hrouting, Node.primary]
  have hnode : n.routing.localNodeId = n₀.routing.localNodeId := by rw [hrouting]
  cases h with
  | call hpc henum =>
    rw [hpc] at hlog
    rw [hlocal] at henum
    simp only [Logged] at hlog
    subst hlog
    exact logged_of_call henum n.nextTxId
  | poll hpc _ =>
    rw [hpc] at hlog
    exact ⟨hlog.1.append (by simp [TxnStep.entries]) (by simp [TxnStep.entries])
      (fun k hk => .inl hk), by simpa [TxnStep.entries] using hlog.2⟩
  | @acquired key todo _ _ hpc _ =>
    rw [hpc] at hlog
    refine ⟨hlog.1.append (by simp [TxnStep.entries, LogEntry.isOperation])
      (by simp [TxnStep.entries]) (fun k hk => ?_), by simpa [TxnStep.entries] using hlog.2⟩
    rcases List.mem_cons.mp hk with rfl | hk
    · exact .inr (by simp [TxnStep.entries])
    · exact .inl hk
  | refused hpc _ =>
    rw [hpc] at hlog
    simpa [Logged, TxnStep.entries, TxnThread.goto] using hlog.1.unlocked
  | lockedLocal hpc hnone =>
    rw [hpc] at hlog
    rw [hremote] at hnone
    have hempty : Enumerates [] (n₀.remotePairs tx) := ⟨List.nodup_nil, by simp [hnone]⟩
    exact ⟨[], htx.symm, hlog.1.progressed hempty hlog.2 rfl⟩
  | beginRemote hpc _ _ henum =>
    rw [hpc] at hlog
    rw [hremote] at henum
    simp only [TxnStep.entries, Option.toList_none, List.map_nil, List.append_nil]
    exact ⟨hlog.1, [], henum, hlog.2⟩
  | @aborting stage _ _ hpc _ =>
    rw [hpc] at hlog
    refine fun hmem => (List.mem_append.mp hmem).elim hlog ?_
    rcases stage.event_cases with hnone | ⟨key, hsome⟩
    · simp [TxnStep.entries, hnone]
    · simp [TxnStep.entries, hsome]
  | aborted hpc _ =>
    rw [hpc] at hlog
    exact .inl (by simpa [TxnStep.entries, Logged] using hlog)
  | @request p todo hpc _ =>
    rw [hpc] at hlog
    obtain ⟨hacq, requests, henum, hsent⟩ := hlog
    refine ⟨hacq.append (by simp [TxnStep.entries, LogEntry.isOperation])
      (by simp [TxnStep.entries]) (fun k hk => .inl hk), requests ++ [p], ?_, ?_⟩
    · rw [List.append_assoc]
      exact henum
    · simp [TxnStep.entries, hsent, lockReqs, TxnThread.goto]
  | requestedNothing hpc _ =>
    rw [hpc] at hlog
    obtain ⟨hacq, requests, henum, hsent⟩ := hlog
    rw [List.append_nil] at henum
    exact ⟨[], htx.symm, hacq.progressed henum hsent rfl⟩
  | requested hpc _ =>
    rw [hpc] at hlog
    obtain ⟨hacq, requests, henum, hsent⟩ := hlog
    rw [List.append_nil] at henum
    simp only [TxnStep.entries, Option.toList_none, List.map_nil, List.append_nil]
    exact ⟨hacq, requests, henum, hsent⟩
  | timedOut hpc _ _ _ =>
    rw [hpc] at hlog
    simpa [Logged, TxnStep.entries, TxnThread.goto] using hlog.1.unlocked
  | woken hpc _ _ _ =>
    rw [hpc] at hlog
    obtain ⟨hacq, requests, henum, hsent⟩ := hlog
    exact ⟨[], htx.symm, hacq.progressed henum hsent rfl⟩
  | sleptOn hpc _ _ _ => simpa [TxnStep.entries] using hlog
  | timeoutRelease hpc _ =>
    rw [hpc] at hlog
    simpa [Logged, TxnStep.entries, TxnThread.goto] using hlog
  | timeoutDone hpc =>
    rw [hpc] at hlog
    simpa [Logged, TxnStep.entries, TxnThread.goto] using hlog
  | @ranLocal op rest results hpc hhere =>
    rw [hpc] at hlog
    obtain ⟨done, hdone, hprog⟩ := hlog
    rw [hprimary, hnode] at hhere
    obtain ⟨requests, henum, hsent, hgranted⟩ := hprog
    refine ⟨done ++ [op], by simp [hdone], requests, henum, ?_, hgranted.append _⟩
    rw [sentOf_append, hsent, opReqs_concat_local hhere]
    exact List.append_nil _
  | opBegin hpc haway _ =>
    rw [hpc] at hlog
    obtain ⟨done, hdone, hprog⟩ := hlog
    rw [hprimary, hnode] at haway
    exact ⟨done, hdone, haway, hprog.append rfl⟩
  | allRan hpc =>
    rw [hpc] at hlog
    obtain ⟨done, hdone, hprog⟩ := hlog
    rw [List.append_nil] at hdone
    exact .inr (hdone ▸ hprog.append rfl)
  | @opSent op rest results hpc _ =>
    rw [hpc] at hlog
    obtain ⟨done, hdone, haway, requests, henum, hsent, hgranted⟩ := hlog
    refine ⟨done ++ [op], by simp [hdone], requests, henum, ?_, hgranted.append _⟩
    rw [sentOf_append, hsent, opReqs_concat_remote haway, ← List.append_assoc, ← hprimary]
    rfl
  | opChecked hpc =>
    rw [hpc] at hlog
    exact exists_progressed_append hlog rfl
  | opAnswered hpc =>
    rcases hpc with hpc | hpc
    · rw [hpc] at hlog
      exact exists_progressed_append hlog rfl
    · rw [hpc] at hlog
      exact exists_progressed_append hlog rfl
  | opTimedOut hpc =>
    rw [hpc] at hlog
    exact exists_progressed_append hlog rfl
  | opSleptOn hpc => simpa [TxnStep.entries] using hlog
  | opRetrieved hpc =>
    rw [hpc] at hlog
    exact exists_progressed_append hlog rfl
  | releasing hpc _ =>
    rw [hpc] at hlog
    exact hlog.imp id fun hprog => hprog.append (sentOf_entries_of_none rfl)
  | releasedLocal hpc _ henum =>
    rw [hpc] at hlog
    rw [hremote] at henum
    refine hlog.imp id fun hprog => ?_
    obtain ⟨requests, hreq, hsent, hgranted⟩ := hprog
    refine ⟨hgranted.append _, requests, [], hreq, henum, ?_⟩
    simp [TxnStep.entries, hsent, lockRels, TxnThread.goto]
  | @sendRelease p todo results rethrow hpc _ =>
    rw [hpc] at hlog
    refine hlog.imp id fun hrest => ?_
    obtain ⟨hgranted, requests, releases, hreq, hrel, hsent⟩ := hrest
    refine ⟨hgranted.append _, requests, releases ++ [p], hreq, ?_, ?_⟩
    · rw [List.append_assoc]
      exact hrel
    · simp [TxnStep.entries, hsent, lockRels, TxnThread.goto]
  | rethrown _ _ => trivial
  | returned hpc =>
    rw [hpc] at hlog
    obtain ⟨hgranted, requests, releases, hreq, hrel, hsent⟩ := hlog.resolve_left (by simp)
    rw [List.append_nil] at hrel
    exact .inr ⟨requests, releases, messagesMatch_of_groups hreq hrel hsent hgranted rfl⟩
  | requestThrew _ hthrew | timeoutThrew _ hthrew | opThrew _ hthrew | sendThrew _ hthrew =>
    rw [hthrow] at hthrew
    exact absurd hthrew (by simp)

end Step

/-! ## 5. A whole call -/

namespace LoggedCall

variable {w w' : LoggedCall} {n : Node} {tx : Transaction}

/-- The invariant of a run without an exception. -/
structure Inv (n : Node) (tx : Transaction) (w : LoggedCall) : Prop where
  routing : w.node.routing = n.routing
  tx_eq : w.thread.tx = tx
  logged : Logged n tx w.thread.txId w.log w.thread.pc

theorem inv_initial (n : Node) (tx : Transaction) : Inv n tx (initial n tx) :=
  ⟨rfl, rfl, rfl⟩

theorem inv_step (h : Inv n tx w) {l : LoggedLabel} (hok : w.noThrow l = true)
    (hs : w.step l = some w') : Inv n tx w' := by
  cases l with
  | call c =>
    obtain ⟨r, hr, rfl⟩ := Option.map_eq_some_iff.mp hs
    have hstepped := stepTxn_spec hr
    have hthrow : c.throws = false := by simpa [noThrow] using hok
    exact ⟨hstepped.routing_eq.trans h.routing, hstepped.tx_eq.trans h.tx_eq,
      hstepped.logged hthrow h.routing h.tx_eq h.logged⟩
  | env n' =>
    rw [step, Option.some.injEq] at hs
    exact hs ▸ ⟨h.routing, h.tx_eq, h.logged⟩

/-- **The messages of a call match.**  Any transaction, any node and whatever happens on it between
the steps of the call, any order of its containers: a call that returns, whose `acquire_all_locks`
succeeded and none of whose sends threw, has asked for each remote key once, sent its remote
operations in their order and released each remote key once, all to the primaries, and nothing
else; and it ran no operation before every local key was granted. -/
theorem messages_match (n : Node) (tx : Transaction)
    (h : Run step (fun w l => w.noThrow l = true) (initial n tx) w) {results : Results}
    (hret : w.thread.pc = .returned results) (hlocked : .event .locked ∈ w.log) :
    ∃ requests releases, MessagesMatch n tx w.thread.txId w.log requests releases := by
  have hinv := h.invariant (inv_initial n tx) fun _ _ _ hi hok hs => inv_step hi hok hs
  have hlog := hinv.logged
  rw [hret] at hlog
  exact hlog.resolve_left fun hnot => hnot hlocked

/-- Node 0 of the cluster of three, with a local key and a remote one that is used twice. -/
def mixedTx : Transaction := [.append 2 5, .append 0 7, .read 2]

/-- Each time the call waits, others change its node: the lock is granted, and then both operations
on key 2 are answered, the append with an empty list. -/
def mixedRun : List LoggedLabel :=
  let granted := Node.fresh (Cluster.threeNodes.routing 0) (Cluster.emptyStores 0)
  let answered values := { granted with remoteResults := fun _ => some fun _ => some values }
  [.call { keys := [0] }, .call {}, .call {}, .call {}, .call { pairs := [(2, 2)] }, .call {},
    .call {}, .env granted, .call {}, .call {}, .call {}, .env (answered []), .call {}, .call {},
    .call {}, .call {}, .call {}, .env (answered [5]), .call {}, .call {}, .call {},
    .call { keys := [] },
    .call { pairs := [(2, 2)] }, .call {}, .call {}]

theorem messages_match_mixed :
    ∃ w, Run step (fun w l => w.noThrow l = true)
        (initial (.fresh (Cluster.threeNodes.routing 0) (Cluster.emptyStores 0)) mixedTx) w ∧
      w.thread.pc = .returned [(2, some []), (2, some [5])] ∧
      sentOf w.log = [(2, .lockReq 1 2), (2, .opReq 1 (.append 2 5)), (2, .opReq 1 (.read 2)),
        (2, .lockRel 1 2)] ∧
      ∃ requests releases, MessagesMatch
        (.fresh (Cluster.threeNodes.routing 0) (Cluster.emptyStores 0)) mixedTx w.thread.txId w.log
        requests releases := by
  have hrun : ((runChecked step noThrow
      (initial (.fresh (Cluster.threeNodes.routing 0) (Cluster.emptyStores 0)) mixedTx)
      mixedRun).map fun w => decide (
        w.thread.pc = .returned [(2, some []), (2, some [5])] ∧ .event .locked ∈ w.log ∧
        sentOf w.log = [(2, .lockReq 1 2), (2, .opReq 1 (.append 2 5)), (2, .opReq 1 (.read 2)),
          (2, .lockRel 1 2)])) = some true := by
    decide +kernel
  obtain ⟨w, hw, hfacts⟩ := Option.map_eq_some_iff.mp hrun
  obtain ⟨hret, hlocked, hsent⟩ := of_decide_eq_true hfacts
  have hr := run_of_runChecked _ .refl hw
  exact ⟨w, hr, hret, hsent, messages_match _ _ hr hret hlocked⟩

end LoggedCall

end TwoPL
