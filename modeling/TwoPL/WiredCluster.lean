/-
# The cluster as it is wired

`Cluster` hands a message to its handler as the object that was given to `send`.  On the way between
two processes it is text.  `Peer::receive` gives the text to `JSONMessage::parse`, which does not
accept a message of the scheduler, for want of an envelope.  Without that check it would not get
further either: what is parsed from its text has the `tx_id` in kind int64, every handler reads it
with `as_uint64`, and the message is ignored (`dispatch_reparse`).

`stepWired` is the cluster with that text in between.  What hands a received message over to
`handle_peer_message` is not part of the repository; both readings are there (`received`).

`cross_node_never_executes`: no message is acted upon.  A transaction with a key on another node
locks its local keys, waits for the others and times out; if it returns, it returns nothing.  Every
change of a store is an operation of a transaction that has all its keys on that node.

As far as nodes and calls are concerned, such a cluster is one that loses every message
(`Cluster.step` without deliveries), so that what holds of any run holds of its runs as well.
-/
import TwoPL.TraceableReads
import TwoPL.Wire

namespace TwoPL

open Lib

namespace Cluster

variable {ι : Type*} [DecidableEq ι]

/-! ## 1. Messages as text -/

/-- What the other side gets of a message, from its text: with `envelope` what `Peer::receive` makes
of it, an exception or the body of a `JSONMessage`; without, the object that was parsed. -/
def received (envelope : Bool) (m : Message) : Option JsonObject :=
  if envelope then (JSONMessage.ofJson (reparse (.object m.toJson))).map JSONMessage.body
  else (reparse (.object m.toJson)).asObject

/-- A step of the cluster in which messages go through their text.  What is recorded of a delivery
is left out: nothing comes of it. -/
def stepWired (cfg : ClusterConfig ι) (envelope : Bool) (w : Cluster ι) :
    ClusterLabel ι → Option (Cluster ι)
  | .deliver src dest =>
    if dest ∈ cfg.members ∧ src ≠ dest ∧ (w.handlers (src, dest)).isNone then
      match w.channels (src, dest) with
      | [] => none
      | p :: rest =>
        let w := { w with channels := Function.update w.channels (src, dest) rest }
        match received envelope p.msg with
        | none => some w
        | some o =>
          (handlePeerMessage (w.nodes dest) src o).map fun x =>
            { w with
              nodes := Function.update w.nodes dest x.1
              handlers :=
                Function.update w.handlers (src, dest) (x.2.map (ActiveHandler.mk p.cause)) }
    else none
  | l => w.step cfg l

/-- Some key of the call's transaction is on another node. -/
def CrossNode (cfg : ClusterConfig ι) (txs : ι → Transaction) (i : ι) : Prop :=
  ∃ op ∈ txs i, (cfg.routing (cfg.origin i)).primary op.key ≠ cfg.origin i

/-- No message is delivered. -/
def Deaf (_ : Cluster ι) : ClusterLabel ι → Prop
  | .deliver _ _ => False
  | _ => True

end Cluster

/-! ## 2. A call that hears nothing -/

/-- Where a call with remote keys is, as long as nobody answers: it has not got its locks, and while
it waits for them something is pending. -/
def TxnThread.Unheard (n : Node) (t : TxnThread) : Prop :=
  match t.pc with
  | .idle | .locking _ _ | .aborting _ | .timingOut _ | .threw => True
  | .requesting _ | .waiting => n.pendingLocks t.txId ≠ ∅
  | .returned results => results = []
  | _ => False

section Call

variable {n : Node} {t : TxnThread} {c : Choice} {r : TxnStep}

/-- A map that has been filled with something is not empty. -/
theorem NodeKeys.foldl_add_ne_empty {pairs : List (NodeID × KeyType)} (h : pairs ≠ [])
    (m : NodeKeys) : pairs.foldl NodeKeys.add m ≠ ∅ := by
  intro hempty
  have hpairs := NodeKeys.pairs_foldl_add pairs m
  rw [hempty] at hpairs
  obtain ⟨q, rest, rfl⟩ := List.exists_cons_of_ne_nil h
  have hmem : q ∈ NodeKeys.pairs ∅ := by
    rw [hpairs]
    simp
  simp at hmem

/-- **A call that hears nothing gets nowhere.** -/
theorem TxnStepped.unheard (h : TxnStepped n t c r) (hremote : n.remotePairs t.tx ≠ ∅)
    (hu : t.Unheard n) : r.thread.Unheard r.node := by
  unfold TxnThread.Unheard at hu ⊢
  cases h with
  | lockedLocal _ hnone => exact absurd hnone hremote
  | @beginRemote stage pairs hpc _ _ henum =>
    have hne : pairs ≠ [] := by
      rintro rfl
      exact hremote henum.2.symm
    show (n.initPending t.txId pairs).pendingLocks t.txId ≠ ∅
    rw [Node.pendingLocks_initPending]
    exact NodeKeys.foldl_add_ne_empty hne _
  | request hpc _ =>
    rw [hpc] at hu
    exact hu
  | requestedNothing hpc hempty =>
    rw [hpc] at hu
    exact absurd hempty hu
  | requested hpc hne =>
    show (n.touchPending t.txId).pendingLocks t.txId ≠ ∅
    rw [Node.pendingLocks_touchPending]
    exact hne
  | woken hpc _ _ hempty =>
    rw [hpc] at hu
    exact absurd hempty hu
  | sleptOn hpc _ _ hne =>
    rw [hpc]
    show (n.touchPending t.txId).pendingLocks t.txId ≠ ∅
    rw [Node.pendingLocks_touchPending]
    exact hne
  | opAnswered hpc => rcases hpc with hpc | hpc <;> (rw [hpc] at hu; exact hu.elim)
  | _ => simp_all [TxnThread.goto]

/-- ... and executes nothing. -/
theorem TxnStepped.store_of_unheard (h : TxnStepped n t c r) (hu : t.Unheard n) :
    r.node.store = n.store := by
  cases h with
  | ranLocal hpc _ =>
    unfold TxnThread.Unheard at hu
    rw [hpc] at hu
    exact hu.elim
  | _ => rfl

/-- What a call sends carries its id. -/
theorem TxnStepped.txId_sent (h : TxnStepped n t c r) {dest : NodeID} {msg : Message}
    (hsent : r.sent = some (dest, msg)) : msg.txId = t.txId ∧ t.pc ≠ .idle := by
  cases h <;> simp_all [Message.txId] <;> (obtain ⟨-, rfl⟩ := hsent; rfl)

/-- It depends on what is pending for the call, and on nothing else of the node. -/
theorem TxnThread.Unheard.of_pending {n' : Node} (h : t.Unheard n)
    (hpending : n'.pendingRemoteLocks t.txId = n.pendingRemoteLocks t.txId) : t.Unheard n' := by
  have hlocks : n'.pendingLocks t.txId = n.pendingLocks t.txId := by
    rw [Node.pendingLocks, hpending, Node.pendingLocks]
  unfold TxnThread.Unheard at h ⊢
  rw [hlocks]
  exact h

end Call

/-! ## 3. A cluster in which nothing is delivered -/

namespace Cluster

variable {ι : Type*} [DecidableEq ι] [Fintype ι] {cfg : ClusterConfig ι} {w w' : Cluster ι}
  {l : ClusterLabel ι} {envelope : Bool} {stores : NodeID → ThreadSafeKVStore}
  {txs : ι → Transaction}

/-- **Nobody is answered.** -/
structure Unanswered (cfg : ClusterConfig ι) (txs : ι → Transaction) (w : Cluster ι) : Prop where
  handlers : ∀ ab, w.handlers ab = none
  packets : ∀ ab q, q ∈ w.channels ab → w.Called q.cause ∧ q.msg.txId = (w.txns q.cause).txId
  unheard : ∀ i, CrossNode cfg txs i → (w.txns i).Unheard (w.nodes (cfg.origin i))

/-- Two calls of a node do not share an id, and ids are small. -/
theorem eq_of_txId (hcard : Fintype.card ι < 2 ^ 64) {ok : Cluster ι → ClusterLabel ι → Prop}
    (hr : Run (step cfg) ok (initial cfg stores txs) w) {i j : ι} (hi : w.Called i)
    (hj : w.Called j) (horigin : cfg.origin i = cfg.origin j)
    (hid : (w.txns i).txId = (w.txns j).txId) : i = j := by
  have hids := idInv_callsAt hcard hr (cfg.origin j)
  refine hids.inj i ?_ j ?_ ?_
  · simpa [SingleNode.mem_calledSet, callsAt, horigin, Called] using hi
  · simpa [SingleNode.mem_calledSet, callsAt, Called] using hj
  · simpa [callsAt, horigin] using hid

theorem txId_le (hcard : Fintype.card ι < 2 ^ 64) {ok : Cluster ι → ClusterLabel ι → Prop}
    (hr : Run (step cfg) ok (initial cfg stores txs) w) {i : ι} (hi : w.Called i) :
    (w.txns i).txId.toNat ≤ Fintype.card ι := by
  have hids := idInv_callsAt hcard hr (cfg.origin i)
  have hle := hids.le i (by simpa [SingleNode.mem_calledSet, callsAt, Called] using hi)
  simp only [callsAt, if_true] at hle
  exact hle.trans (Finset.card_le_univ _)

theorem unanswered_of_run (hcard : Fintype.card ι < 2 ^ 63)
    (hr : Run (step cfg) Deaf (initial cfg stores txs) w) : Unanswered cfg txs w := by
  refine Run.invariant_of_run (I := Unanswered cfg txs) hr ?_ ?_
  · exact ⟨fun ab => rfl, fun ab q hq => absurd hq (by simp [initial]), fun i _ => trivial⟩
  intro w l w' hrun h hdeaf hs
  have hstepped := stepped_of_step hs
  have hpackets : ∀ ab q, q ∈ w'.channels ab →
      w'.Called q.cause ∧ q.msg.txId = (w'.txns q.cause).txId := by
    intro ab q hq
    have hold : w.Called q.cause ∧ q.msg.txId = (w.txns q.cause).txId := by
      rcases hstepped.packet_of hq with hold | ⟨c, r, -, hstep, hsent, -⟩ | hhandler
      · exact h.packets ab q hold
      · exact ⟨(hstep.txId_sent hsent).2, (hstep.txId_sent hsent).1⟩
      · exact absurd hhandler (by simp [h.handlers])
    exact ⟨(hstepped.called hold.1).1, hold.2.trans (hstepped.called hold.1).2.symm⟩
  cases hstepped with
  | @txn j c r hstep =>
    refine ⟨h.handlers, hpackets, fun i hcross => ?_⟩
    obtain ⟨hrouting, htx⟩ := run_routing hrun
    rcases eq_or_ne i j with rfl | hne
    · rw [afterTxn_txns_self, afterTxn_nodes_self]
      refine hstep.unheard ?_ (h.unheard i hcross)
      obtain ⟨op, hop, hprim⟩ := hcross
      have hmem : op ∈ (w.txns i).tx := by rwa [htx]
      refine Node.remotePairs_ne_empty hmem ?_
      rw [Node.primary, hrouting, cfg.localNodeId_eq]
      exact hprim
    · rw [afterTxn_txns_of_ne hne]
      by_cases hidle : (w.txns i).pc = .idle
      · simp [TxnThread.Unheard, hidle]
      by_cases horigin : cfg.origin i = cfg.origin j
      · rw [horigin, afterTxn_nodes_self]
        refine (horigin ▸ h.unheard i hcross).of_pending ?_
        rcases hstep.pending_id (w.txns i).txId with hsame | ⟨hid, hj⟩
        · exact hsame
        · exact absurd (eq_of_txId (by omega) hrun hidle hj horigin hid) hne
      · rw [afterTxn_nodes_of_ne horigin]
        exact h.unheard i hcross
  | deliver _ _ _ _ _ => exact hdeaf.elim
  | handle hi _ => exact absurd hi (by simp [h.handlers])
  | drop _ => exact ⟨h.handlers, hpackets, h.unheard⟩

/-! ## 4. The wired cluster -/

/-- The same nodes, calls and messages; what is recorded may differ. -/
structure SameSystem (w u : Cluster ι) : Prop where
  nodes : u.nodes = w.nodes
  txns : u.txns = w.txns
  channels : u.channels = w.channels
  handlers : u.handlers = w.handlers

theorem received_eq (envelope : Bool) (m : Message) :
    received envelope m = none ∨ received envelope m = some (reparseFields m.toJson) := by
  cases envelope with
  | true =>
    left
    simp [received, ofJson_reparse_toJson]
  | false =>
    right
    simp [received, reparse, Json.asObject]

/-- **A message that went through its text does nothing.** -/
theorem handlePeerMessage_reparse (n : Node) (peer : NodeID) {m : Message}
    (h : m.txId.toNat < 2 ^ 63) :
    handlePeerMessage n peer (reparseFields m.toJson) = some (n, none) := by
  rw [handlePeerMessage, dispatch_reparse h]

omit [Fintype ι] in
/-- A delivery, when no handler is at work and the id is small: the message is gone. -/
theorem stepWired_deliver {src dest : NodeID}
    (hs : stepWired cfg envelope w (.deliver src dest) = some w')
    (hhandlers : ∀ ab, w.handlers ab = none)
    (hids : ∀ ab q, q ∈ w.channels ab → q.msg.txId.toNat < 2 ^ 63) :
    ∃ p rest, w.channels (src, dest) = p :: rest ∧
      w' = { w with channels := Function.update w.channels (src, dest) rest } := by
  simp only [stepWired] at hs
  split at hs
  · split at hs
    · exact absurd hs (by simp)
    · rename_i p rest hch
      refine ⟨p, rest, hch, ?_⟩
      rcases received_eq envelope p.msg with hlost | hparsed
      · rw [hlost] at hs
        exact (Option.some.inj hs).symm
      · have hid := hids (src, dest) p (by simp [hch])
        simp only [hparsed, handlePeerMessage_reparse _ _ hid, Option.map_some,
          Option.some.injEq] at hs
        have hnone : Function.update w.handlers (src, dest) none = w.handlers := by
          rw [← hhandlers (src, dest), Function.update_eq_self]
        rw [← hs, Function.update_eq_self, Option.map_none, hnone]
  · exact absurd hs (by simp)

omit [Fintype ι] in
/-- **What a step of the wired cluster is**: a step of the cluster that delivers nothing. -/
theorem SameSystem.step {u : Cluster ι} (h : SameSystem w u)
    (hs : stepWired cfg envelope w l = some w') (hhandlers : ∀ ab, w.handlers ab = none)
    (hids : ∀ ab q, q ∈ w.channels ab → q.msg.txId.toNat < 2 ^ 63) :
    ∃ l' u', Deaf u l' ∧ u.step cfg l' = some u' ∧ SameSystem w' u' := by
  cases l with
  | txn i c =>
    obtain ⟨r, hr, rfl⟩ := Option.map_eq_some_iff.mp hs
    refine ⟨.txn i c, u.afterTxn cfg i c r, trivial, ?_, ?_⟩
    · simp only [Cluster.step, h.nodes, h.txns, hr, Option.map_some]
    · refine ⟨?_, ?_, ?_, h.handlers⟩
      · simp only [afterTxn, h.nodes]
      · simp only [afterTxn, h.txns]
      · simp only [afterTxn, push, h.channels]
  | deliver src dest =>
    obtain ⟨p, rest, hch, rfl⟩ := stepWired_deliver hs hhandlers hids
    refine ⟨.drop src dest 0, u.afterDrop src dest 0 p, trivial, ?_, h.nodes, h.txns, ?_,
      h.handlers⟩
    · simp [Cluster.step, h.channels, hch]
    · simp only [afterDrop, h.channels, hch, List.eraseIdx_cons_zero]
  | handle src dest throws =>
    obtain ⟨a, ha, -⟩ := Option.map_eq_some_iff.mp hs
    exact absurd ha (by simp [hhandlers])
  | drop src dest pos =>
    obtain ⟨p, hp, rfl⟩ := Option.map_eq_some_iff.mp hs
    refine ⟨.drop src dest pos, u.afterDrop src dest pos p, trivial, ?_, h.nodes, h.txns, ?_,
      h.handlers⟩
    · simp [Cluster.step, h.channels, hp]
    · simp only [afterDrop, h.channels]

/-- The ids of messages are those of calls. -/
theorem msg_txId_lt {u : Cluster ι} (hcard : Fintype.card ι < 2 ^ 63)
    (hr : Run (step cfg) Deaf (initial cfg stores txs) u) :
    ∀ ab q, q ∈ u.channels ab → q.msg.txId.toNat < 2 ^ 63 := by
  intro ab q hq
  obtain ⟨hcalled, hid⟩ := (unanswered_of_run hcard hr).packets ab q hq
  rw [hid]
  exact (txId_le (by omega) hr hcalled).trans_lt hcard

theorem exists_deaf (hcard : Fintype.card ι < 2 ^ 63)
    (hr : Reachable (stepWired cfg envelope) (initial cfg stores txs) w) :
    ∃ u, Run (step cfg) Deaf (initial cfg stores txs) u ∧ SameSystem w u := by
  refine Run.invariant (I := fun w => ∃ u, Run (step cfg) Deaf (initial cfg stores txs) u ∧
    SameSystem w u) hr ⟨_, .refl, rfl, rfl, rfl, rfl⟩ ?_
  rintro w l w' ⟨u, hu, hsame⟩ - hs
  have hhandlers : ∀ ab, w.handlers ab = none := by
    rw [← hsame.handlers]
    exact (unanswered_of_run hcard hu).handlers
  have hids : ∀ ab q, q ∈ w.channels ab → q.msg.txId.toNat < 2 ^ 63 := by
    rw [← hsame.channels]
    exact msg_txId_lt hcard hu
  obtain ⟨l', u', hdeaf, hstep, hsame'⟩ := hsame.step hs hhandlers hids
  exact ⟨u', hu.tail hdeaf hstep, hsame'⟩

/-- **Nothing of a transaction with a remote key is ever executed.**  In every run of a cluster
whose messages go through their text: no handler has anything to do; a call whose transaction has a
key on another node returns nothing, if it returns; and a step that changes the store of a node is
one of a call, made there, whose transaction has all its keys there. -/
theorem cross_node_never_executes (hcard : Fintype.card ι < 2 ^ 63)
    (hr : Reachable (stepWired cfg envelope) (initial cfg stores txs) w) :
    (∀ ab, w.handlers ab = none) ∧
    (∀ i, CrossNode cfg txs i → ∀ results, (w.txns i).pc = .returned results → results = []) ∧
    ∀ l w', stepWired cfg envelope w l = some w' → ∀ p, (w'.nodes p).store ≠ (w.nodes p).store →
      ∃ i c, l = .txn i c ∧ cfg.origin i = p ∧ ¬ CrossNode cfg txs i := by
  obtain ⟨u, hu, hsame⟩ := exists_deaf hcard hr
  obtain ⟨hhandlers, -, hunheard⟩ := unanswered_of_run hcard hu
  rw [hsame.handlers] at hhandlers
  rw [hsame.txns, hsame.nodes] at hunheard
  refine ⟨hhandlers, fun i hcross results hpc => ?_, fun l w' hs p hchanged => ?_⟩
  · have hi := hunheard i hcross
    unfold TxnThread.Unheard at hi
    rwa [hpc] at hi
  · cases l with
    | txn i c =>
      obtain ⟨r, hstep, rfl⟩ := Option.map_eq_some_iff.mp hs
      rcases eq_or_ne p (cfg.origin i) with rfl | hne
      · refine ⟨i, c, rfl, rfl, fun hcross => hchanged ?_⟩
        rw [afterTxn_nodes_self]
        exact (stepTxn_spec hstep).store_of_unheard (hunheard i hcross)
      · exact absurd (by rw [afterTxn_nodes_of_ne hne]) hchanged
    | deliver src dest =>
      have hids : ∀ ab q, q ∈ w.channels ab → q.msg.txId.toNat < 2 ^ 63 :=
        hsame.channels ▸ msg_txId_lt hcard hu
      obtain ⟨q, rest, -, rfl⟩ := stepWired_deliver hs hhandlers hids
      exact absurd rfl hchanged
    | handle src dest throws =>
      obtain ⟨a, ha, -⟩ := Option.map_eq_some_iff.mp hs
      exact absurd ha (by simp [hhandlers])
    | drop src dest pos =>
      obtain ⟨q, -, rfl⟩ := Option.map_eq_some_iff.mp hs
      exact absurd rfl hchanged

/-- A transaction on node 0 with a key of its own and one of node 2: the request is sent and read,
no answer comes, and the call gives up. -/
def unansweredRun : List (ClusterLabel Bool) :=
  [.txn false { keys := [0] }, .txn false {}, .txn false {}, .txn false {},
    .txn false { pairs := [(2, 2)] }, .txn false {}, .txn false {}, .deliver 0 2,
    .txn false { timeout := true, pairs := [(2, 2)] }, .txn false {}, .txn false {},
    .txn false { keys := [0] }, .txn false {}, .txn false {}]

theorem cross_node_never_executes_localAndRemote :
    ∃ w : Cluster Bool,
      Reachable (stepWired threeNodes true)
        (initial threeNodes emptyStores fun _ => localAndRemote) w ∧
      CrossNode threeNodes (fun _ => localAndRemote) false ∧
      (w.txns false).pc = .returned [] ∧ ∀ ab, w.handlers ab = none := by
  have hrun : ((runLabels (stepWired threeNodes true)
      (initial threeNodes emptyStores fun _ => localAndRemote) unansweredRun).map fun w =>
        decide ((w.txns false).pc = .returned [])) = some true := by
    decide +kernel
  obtain ⟨w, hw, hpc⟩ := Option.map_eq_some_iff.mp hrun
  have hr := reachable_of_runLabels _ hw
  refine ⟨w, hr, ⟨.append 2 7, by simp [localAndRemote], by decide⟩, of_decide_eq_true hpc, ?_⟩
  exact (cross_node_never_executes (by decide) hr).1

end Cluster

end TwoPL
