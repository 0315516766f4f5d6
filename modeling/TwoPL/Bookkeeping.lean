/-
# The bookkeeping of the coordinator

`pending_remote_locks`, `pending_remote_ops` and `remote_results` are keyed by transaction id.  They
are filled by the calls of `execute_transaction` and by the handlers of the responses, often by an
`operator[]` that was only meant to look, and `pending_remote_locks.erase(tx_id)` on a timeout or a
denial is the only statement that takes a key out of any of them.

So a transaction with remote keys leaves its entries behind when it commits
(`commit_leaves_entries`) and when a `send` of its lock requests throws, and an operation response
that comes late makes new ones.  `bookkeeping_live` says that there is nothing else: in a run in
which no call ends in one of these ways, and no such response comes in, every entry belongs to a
call that is under way.
-/
import TwoPL.OpenNode

namespace TwoPL

open Lib

/-! ## 1. Calls under way, and their entries -/

namespace Pc

/-- The call is in `execute_remote_operation`. -/
def atRemoteOp : Pc → Bool
  | .opSending _ _ _ | .opChecking _ _ _ | .opWaiting _ _ _ | .opRetrieving _ _ _ => true
  | _ => false

/-- The operations it has still to run, the present one included. -/
def ops : Pc → List Operation
  | .executing rest _ => rest
  | .opSending op rest _ | .opChecking op rest _ | .opWaiting op rest _
  | .opRetrieving op rest _ => op :: rest
  | _ => []

/-- This step is the last one of the call. -/
def ends (c : Choice) : Pc → Bool
  | .requesting (_ :: _) | .timingOut (_ :: _) => c.throws
  | .aborting (.releasing []) => true
  | .sendingReleases [] _ _ => true
  | .sendingReleases (_ :: _) _ rethrow => rethrow && c.throws
  | _ => false

theorem live_of_asking {pc : Pc} (h : pc.asking = true) : pc.live = true := by
  cases pc <;> simp_all [asking, live]

theorem live_of_running {pc : Pc} (h : pc.running = true) : pc.live = true := by
  cases pc <;> simp_all [running, live]

end Pc

/-- The id is a key of one of the three maps. -/
def Node.Tracks (n : Node) (t : TransactionId) : Prop :=
  n.pendingRemoteLocks t ≠ none ∨ n.pendingRemoteOps t ≠ none ∨ n.remoteResults t ≠ none

/-- A call that ends now leaves nothing behind: it aborts, or it has no remote key; and no operation
response for its id has come in. -/
def LeavesNothing (n : Node) (t : TxnThread) : Prop :=
  (t.pc.running = true → n.remotePairs t.tx = ∅) ∧ t.pc.asking = false ∧
    n.remoteResults t.txId = none

instance (n : Node) (t : TxnThread) : Decidable (LeavesNothing n t) :=
  inferInstanceAs (Decidable (_ ∧ _ ∧ _))

/-! ## 2. What a step of a call does to the maps -/

/-- The call has the id `t` and remote keys, and is past its local locks. -/
def TxnThread.Coordinates (n : Node) (x : TxnThread) (t : TransactionId) : Prop :=
  x.txId = t ∧ (x.pc.asking = true ∨ x.pc.running = true) ∧ n.remotePairs x.tx ≠ ∅

/-- ... and past the remote ones. -/
def TxnThread.RunsRemotely (n : Node) (x : TxnThread) (t : TransactionId) : Prop :=
  x.txId = t ∧ x.pc.running = true ∧ n.remotePairs x.tx ≠ ∅

/-- What a call knows of its own transaction: it runs the operations of that, and it is busy with
other nodes only if some key is theirs. -/
structure TxnThread.Sound (n : Node) (t : TxnThread) : Prop where
  ops_mem : ∀ op ∈ t.pc.ops, op ∈ t.tx
  remote : t.pc.asking = true ∨ t.pc.atRemoteOp = true → n.remotePairs t.tx ≠ ∅

theorem Node.remotePairs_ne_empty {n : Node} {tx : Transaction} {op : Operation} (hop : op ∈ tx)
    (hop' : n.primary op.key ≠ n.routing.localNodeId) : n.remotePairs tx ≠ ∅ := by
  rw [← Finset.nonempty_iff_ne_empty, Node.remotePairs, Finset.image_nonempty]
  exact ⟨op.key, by simpa [hop'] using ⟨op, hop, rfl⟩⟩

section Steps

variable {n : Node} {t : TxnThread} {c : Choice} {r : TxnStep}

theorem TxnStepped.remoteResults_eq (h : TxnStepped n t c r) :
    r.node.remoteResults = n.remoteResults := by
  cases h <;> rfl

theorem TxnStepped.sound (h : TxnStepped n t c r) (ht : t.Sound n) : r.thread.Sound r.node := by
  have hops : ∀ op ∈ r.thread.pc.ops, op ∈ t.tx := by
    have hmem := ht.ops_mem
    cases h with
    | opAnswered hpc => rcases hpc with hpc | hpc <;> simp_all [Pc.ops, TxnThread.goto]
    | _ => simp_all [Pc.ops, TxnThread.goto]
  refine ⟨by rwa [h.tx_eq], ?_⟩
  rw [h.tx_eq, Node.remotePairs_congr h.routing_eq]
  have hremote := ht.remote
  cases h with
  | opBegin hpc hother =>
    exact fun _ => Node.remotePairs_ne_empty (ht.ops_mem _ (by simp [hpc, Pc.ops])) hother
  | opAnswered hpc =>
    rcases hpc with hpc | hpc <;> simp_all [Pc.asking, Pc.atRemoteOp, TxnThread.goto]
  | _ => simp_all [Pc.asking, Pc.atRemoteOp, TxnThread.goto]

/-- A step is the last one of its call, or the call is still under way after it. -/
theorem TxnStepped.live_or_ends (h : TxnStepped n t c r) :
    r.thread.pc.live = true ∨ t.pc.ends c = true := by
  cases h with
  | aborted hpc hrel =>
    cases hrel
    exact .inr (by simp [hpc, Pc.ends])
  | rethrown hpc hth =>
    rename_i todo _
    cases todo <;> simp_all [Pc.ends]
  | _ => simp_all [Pc.live, Pc.ends, TxnThread.goto]

/-- A call in phase 2 or 3 stays there until it ends. -/
theorem TxnStepped.running_or_ends (h : TxnStepped n t c r) (hrun : t.pc.running = true) :
    r.thread.pc.running = true ∨ t.pc.ends c = true := by
  cases h with
  | rethrown hpc hth =>
    rename_i todo _
    cases todo <;> simp_all [Pc.ends]
  | _ => simp_all [Pc.running, Pc.ends, TxnThread.goto]

/-- A call that asks for remote locks goes on asking, runs, ends, or gives its entry up. -/
theorem TxnStepped.asking_cases (h : TxnStepped n t c r) (hask : t.pc.asking = true) :
    r.thread.pc.asking = true ∨ r.thread.pc.running = true ∨ t.pc.ends c = true ∨
      r.node.pendingRemoteLocks t.txId = none := by
  cases h <;> simp_all [Pc.asking, Pc.running, Pc.ends, TxnThread.goto, Node.erasePending]

theorem TxnStepped.txId_of_live (h : TxnStepped n t c r) (hlive : t.pc.live = true) :
    r.thread.txId = t.txId :=
  (h.id_of_called fun hidle => by simp [hidle, Pc.live] at hlive).1

/-- What has remote keys has them after the step. -/
theorem TxnStepped.remotePairs_eq (h : TxnStepped n t c r) :
    r.node.remotePairs r.thread.tx = n.remotePairs t.tx := by
  rw [h.tx_eq, Node.remotePairs_congr h.routing_eq]

/-- Entries of `pending_remote_locks` are made by a call that asks, in its own name. -/
theorem TxnStepped.pendingRemoteLocks_cases (h : TxnStepped n t c r) (ht : t.Sound n)
    {id : TransactionId} (hid : r.node.pendingRemoteLocks id ≠ none) :
    n.pendingRemoteLocks id ≠ none ∨ r.thread.Coordinates r.node id := by
  have hcases : n.pendingRemoteLocks id ≠ none ∨
      (r.thread.txId = id ∧ (r.thread.pc.asking = true ∨ r.thread.pc.running = true) ∧
        (t.pc.asking = true ∨ r.thread.pc.asking = true)) := by
    by_cases hne : id = t.txId
    · subst hne
      cases h <;> simp_all [Pc.asking, Pc.running, TxnThread.goto, Node.erasePending,
        Node.insertPendingOp, Node.erasePendingOp]
    · refine .inl ?_
      rcases h.pending_id id with heq | ⟨heq, -⟩
      · rwa [← heq]
      · exact absurd heq hne
  rcases hcases with hold | ⟨hid, hpc, hask⟩
  · exact .inl hold
  refine .inr ⟨hid, hpc, ?_⟩
  rcases hask with hask | hask
  · rw [h.remotePairs_eq]
    exact ht.remote (.inl hask)
  · exact (h.sound ht).remote (.inl hask)

/-- ... and those of `pending_remote_ops` by a call in `execute_remote_operation`, also when it only
means to take a pair out. -/
theorem TxnStepped.pendingRemoteOps_cases (h : TxnStepped n t c r) (ht : t.Sound n)
    {id : TransactionId} (hid : r.node.pendingRemoteOps id ≠ none) :
    n.pendingRemoteOps id ≠ none ∨ r.thread.RunsRemotely r.node id := by
  have hcases : n.pendingRemoteOps id ≠ none ∨
      (r.thread.txId = id ∧ r.thread.pc.running = true ∧
        (t.pc.atRemoteOp = true ∨ r.thread.pc.atRemoteOp = true)) := by
    by_cases hne : id = t.txId
    · subst hne
      cases h <;> simp_all [Pc.running, Pc.atRemoteOp, TxnThread.goto, Node.initPending,
        Node.touchPending, Node.erasePending]
    · refine .inl ?_
      cases h <;> simp_all [Node.initPending, Node.touchPending, Node.erasePending,
        Node.insertPendingOp, Node.erasePendingOp]
  rcases hcases with hold | ⟨hid, hrun, hat⟩
  · exact .inl hold
  refine .inr ⟨hid, hrun, ?_⟩
  rcases hat with hat | hat
  · rw [h.remotePairs_eq]
    exact ht.remote (.inr hat)
  · exact (h.sound ht).remote (.inr hat)

/-- A call with remote keys that runs does not end while it would leave something behind. -/
theorem TxnStepped.runsRemotely (h : TxnStepped n t c r)
    (htidy : t.pc.ends c = true → LeavesNothing n t) {id : TransactionId}
    (ht : t.RunsRemotely n id) : r.thread.RunsRemotely r.node id := by
  obtain ⟨hid, hrun, hrem⟩ := ht
  refine ⟨(h.txId_of_live (Pc.live_of_running hrun)).trans hid, ?_, by rwa [h.remotePairs_eq]⟩
  exact (h.running_or_ends hrun).resolve_right fun hends => hrem ((htidy hends).1 hrun)

/-- ... nor does one that asks, unless its entry is gone. -/
theorem TxnStepped.coordinates (h : TxnStepped n t c r)
    (htidy : t.pc.ends c = true → LeavesNothing n t) {id : TransactionId}
    (ht : t.Coordinates n id) (hentry : r.node.pendingRemoteLocks id ≠ none) :
    r.thread.Coordinates r.node id := by
  obtain ⟨hid, hask | hrun, hrem⟩ := ht
  · refine ⟨(h.txId_of_live (Pc.live_of_asking hask)).trans hid, ?_, by rwa [h.remotePairs_eq]⟩
    rcases h.asking_cases hask with hask' | hrun' | hends | hnone
    · exact .inl hask'
    · exact .inr hrun'
    · exact absurd hask (by simp [(htidy hends).2.1])
    · exact absurd (hid ▸ hnone) hentry
  · obtain ⟨hid', hrun', hrem'⟩ := h.runsRemotely htidy ⟨hid, hrun, hrem⟩
    exact ⟨hid', .inr hrun', hrem'⟩

end Steps

/-! ## 3. What a message does to them -/

section Messages

variable {n n' : Node} {peer : NodeID} {msg : JsonObject} {h : Option Handler}

/-- A lock response takes out, and never puts in. -/
theorem Node.handleLockResponse_pending {txId t : TransactionId} {key : KeyType} {granted : Bool}
    (ht : (n.handleLockResponse peer txId key granted).pendingRemoteLocks t ≠ none) :
    n.pendingRemoteLocks t ≠ none := by
  by_cases hne : t = txId
  · subst hne
    intro hnone
    cases granted <;> simp [Node.handleLockResponse, Node.erasePending, hnone] at ht
  · unfold Node.handleLockResponse at ht
    repeat' split at ht
    all_goals simpa [Node.erasePending, hne] using ht

open OpenNode in
/-- A message makes no entry in `pending_remote_locks`, and in the other two maps only for the id of
an operation response. -/
theorem OpenNode.Received.maps (hr : Received n peer msg n' h) :
    (∀ t, n'.pendingRemoteLocks t ≠ none → n.pendingRemoteLocks t ≠ none) ∧
    (∀ t, n'.pendingRemoteOps t ≠ none →
      n.pendingRemoteOps t ≠ none ∨ n'.remoteResults t ≠ none) ∧
    (∀ t, n.remoteResults t ≠ none → n'.remoteResults t ≠ none) ∧
    ∀ t, n'.remoteResults t ≠ none → n.remoteResults t ≠ none ∨
      ∃ k values, dispatch msg = some (.opResponse t k values) := by
  cases hr with
  | lockResponse hd _ =>
    obtain ⟨-, -, hops, hresults⟩ := Node.handleLockResponse_frame n peer _ _ _
    rw [hops, hresults]
    exact ⟨fun _ => Node.handleLockResponse_pending, fun _ => .inl, fun _ => id, fun _ => .inl⟩
  | opRequest hd =>
    rw [Node.handleOperationRequest_frame]
    exact ⟨fun _ => id, fun _ => .inl, fun _ => id, fun _ => .inl⟩
  | @opResponse t k values hd _ =>
    refine ⟨fun _ => id, fun t' => ?_, fun t' => ?_, fun t' => ?_⟩
    all_goals rcases eq_or_ne t' t with rfl | hne
    · exact fun _ => .inr (by simp [Node.handleOperationResponse])
    · exact fun ht => .inl (by
        simpa [Node.handleOperationResponse, Node.erasePendingOp, hne] using ht)
    · exact fun _ => by simp [Node.handleOperationResponse]
    · exact fun ht => by simpa [Node.handleOperationResponse, hne] using ht
    · exact fun _ => .inr ⟨k, values, hd⟩
    · exact fun ht => .inl (by simpa [Node.handleOperationResponse, hne] using ht)
  | _ => exact ⟨fun _ => id, fun _ => .inl, fun _ => id, fun _ => .inl⟩

end Messages

/-! ## 4. Runs -/

namespace OpenNode

variable {ι : Type*}

/-- A call with this id is under way. -/
def IsLive (w : OpenNode ι) (t : TransactionId) : Prop :=
  ∃ i, (w.txns i).pc.live = true ∧ (w.txns i).txId = t

/-- The bookkeeping belongs to calls that are under way. -/
def BookkeepingLive (w : OpenNode ι) : Prop := ∀ t, w.node.Tracks t → w.IsLive t

/-- The steps that leave no entry behind: a call that ends leaves nothing, and an operation response
is for a call that is under way. -/
def Tidy (w : OpenNode ι) : OpenLabel ι → Prop
  | .txn i c => (w.txns i).pc.ends c = true → LeavesNothing w.node (w.txns i)
  | .receive _ msg => ∀ t k values, dispatch msg = some (.opResponse t k values) → w.IsLive t
  | .handle _ _ => True

/-- Why each entry is there. -/
structure Accounted (w : OpenNode ι) : Prop where
  sound : ∀ i, (w.txns i).Sound w.node
  locks : ∀ t, w.node.pendingRemoteLocks t ≠ none → ∃ i, (w.txns i).Coordinates w.node t
  ops : ∀ t, w.node.pendingRemoteOps t ≠ none →
    (∃ i, (w.txns i).RunsRemotely w.node t) ∨ w.node.remoteResults t ≠ none
  results : ∀ t, w.node.remoteResults t ≠ none → w.IsLive t

theorem Accounted.bookkeepingLive {w : OpenNode ι} (h : Accounted w) : w.BookkeepingLive := by
  rintro t (ht | ht | ht)
  · obtain ⟨i, hid, hask | hrun, -⟩ := h.locks t ht
    · exact ⟨i, Pc.live_of_asking hask, hid⟩
    · exact ⟨i, Pc.live_of_running hrun, hid⟩
  · rcases h.ops t ht with ⟨i, hid, hrun, -⟩ | hres
    · exact ⟨i, Pc.live_of_running hrun, hid⟩
    · exact h.results t hres
  · exact h.results t ht

/-- Nothing else of the node matters, as long as no entry is new. -/
theorem Accounted.of_node {w : OpenNode ι} {n : Node} {hs : List Handler} (h : Accounted w)
    (hrouting : n.routing = w.node.routing)
    (hlocks : ∀ t, n.pendingRemoteLocks t ≠ none → w.node.pendingRemoteLocks t ≠ none)
    (hops : ∀ t, n.pendingRemoteOps t ≠ none →
      w.node.pendingRemoteOps t ≠ none ∨ n.remoteResults t ≠ none)
    (hkept : ∀ t, w.node.remoteResults t ≠ none → n.remoteResults t ≠ none)
    (hresults : ∀ t, n.remoteResults t ≠ none → w.IsLive t) :
    Accounted { w with node := n, handlers := hs } where
  sound i := ⟨(h.sound i).ops_mem, by
    rw [Node.remotePairs_congr hrouting]
    exact (h.sound i).remote⟩
  locks t ht := by
    simp only [TxnThread.Coordinates, Node.remotePairs_congr hrouting]
    exact h.locks t (hlocks t ht)
  ops t ht := by
    simp only [TxnThread.RunsRemotely, Node.remotePairs_congr hrouting]
    rcases hops t ht with ht | ht
    · exact (h.ops t ht).imp_right (hkept t)
    · exact .inr ht
  results := hresults

variable [DecidableEq ι]

theorem Accounted.of_txn {w : OpenNode ι} {i : ι} {c : Choice} {r : TxnStep} (h : Accounted w)
    (hs : TxnStepped w.node (w.txns i) c r)
    (htidy : (w.txns i).pc.ends c = true → LeavesNothing w.node (w.txns i)) :
    Accounted { w with node := r.node, txns := Function.update w.txns i r.thread } where
  sound j := by
    rcases eq_or_ne j i with rfl | hji
    · simpa using hs.sound (h.sound j)
    · simp only [Function.update_of_ne hji]
      refine ⟨(h.sound j).ops_mem, ?_⟩
      rw [Node.remotePairs_congr hs.routing_eq]
      exact (h.sound j).remote
  locks t ht := by
    rcases hs.pendingRemoteLocks_cases (h.sound i) ht with hold | hnew
    · obtain ⟨j, hj⟩ := h.locks t hold
      refine ⟨j, ?_⟩
      rcases eq_or_ne j i with rfl | hji
      · simpa using hs.coordinates htidy hj ht
      · simp only [Function.update_of_ne hji, TxnThread.Coordinates,
          Node.remotePairs_congr hs.routing_eq]
        exact hj
    · exact ⟨i, by simpa using hnew⟩
  ops t ht := by
    rw [hs.remoteResults_eq]
    rcases hs.pendingRemoteOps_cases (h.sound i) ht with hold | hnew
    · rcases h.ops t hold with ⟨j, hj⟩ | hres
      · refine .inl ⟨j, ?_⟩
        rcases eq_or_ne j i with rfl | hji
        · simpa using hs.runsRemotely htidy hj
        · simp only [Function.update_of_ne hji, TxnThread.RunsRemotely,
            Node.remotePairs_congr hs.routing_eq]
          exact hj
      · exact .inr hres
    · exact .inl ⟨i, by simpa using hnew⟩
  results t ht := by
    rw [hs.remoteResults_eq] at ht
    obtain ⟨j, hlive, hid⟩ := h.results t ht
    rcases eq_or_ne j i with rfl | hji
    · refine ⟨j, ?_⟩
      simp only [Function.update_self]
      refine ⟨hs.live_or_ends.resolve_right fun hends => ?_, (hs.txId_of_live hlive).trans hid⟩
      exact ht (hid ▸ (htidy hends).2.2)
    · exact ⟨j, by simpa [hji] using ⟨hlive, hid⟩⟩

theorem Accounted.step {w w' : OpenNode ι} {l : OpenLabel ι} (h : Accounted w) (hok : Tidy w l)
    (hs : Stepped w l w') : Accounted w' := by
  cases hs with
  | txn hs => exact h.of_txn hs hok
  | receive hr =>
    obtain ⟨hlocks, hops, hkept, hresults⟩ := hr.maps
    refine h.of_node hr.routing_eq hlocks hops hkept fun t ht => ?_
    rcases hresults t ht with ht | ⟨k, values, hd⟩
    · exact h.results t ht
    · exact hok t k values hd
  | handle _ hh =>
    rw [node_of_handlerStepped hh]
    exact h.of_node rfl (fun _ => id) (fun _ => .inl) (fun _ => id) h.results

/-- **The bookkeeping belongs to live transactions.**  In a run in which every call that ends leaves
nothing behind, and no operation response comes for a call that is not under way, every key of the
three maps is the id of a call that has not returned. -/
theorem bookkeeping_live {routing : Routing} {store : ThreadSafeKVStore} {txs : ι → Transaction}
    {w : OpenNode ι} (h : Run step Tidy (initial routing store txs) w) : w.BookkeepingLive := by
  refine Accounted.bookkeepingLive (h.invariant (I := Accounted) ?_ ?_)
  · refine ⟨fun i => ⟨?_, ?_⟩, ?_, ?_, ?_⟩ <;>
      simp [initial, TxnThread.fresh, Node.fresh, Pc.ops, Pc.asking, Pc.atRemoteOp]
  · exact fun _ _ _ hI hok hs => hI.step hok (stepped_of_step hs)

/-- `Tidy`, as a check. -/
def tidies [Fintype ι] (w : OpenNode ι) : OpenLabel ι → Bool
  | .txn i c => decide ((w.txns i).pc.ends c = true → LeavesNothing w.node (w.txns i))
  | .receive _ msg =>
    match dispatch msg with
    | some (.opResponse t _ _) => decide (∃ i, (w.txns i).pc.live = true ∧ (w.txns i).txId = t)
    | _ => true
  | .handle _ _ => true

omit [DecidableEq ι] in
theorem tidy_of_tidies [Fintype ι] {w : OpenNode ι} {l : OpenLabel ι} (h : tidies w l = true) :
    Tidy w l := by
  cases l with
  | txn i c =>
    rw [tidies, decide_eq_true_eq] at h
    exact h
  | receive peer msg =>
    intro t k values hd
    simp only [tidies, hd, decide_eq_true_eq] at h
    exact h
  | handle pos throws => trivial

/-- The first call is not answered in time and aborts, the grant comes too late, and the second call
has made its requests. -/
def timedOutRun : List (OpenLabel Bool) :=
  askKey2 false ++ [.txn false { pairs := [(2, 2)], timeout := true }, .txn false {},
    .txn false {}, .txn false {}, .txn false {}, .receive 2 (Message.lockGranted 1 2).toJson] ++
  askKey2 true

theorem bookkeeping_live_timed_out :
    ∃ w : OpenNode Bool, Run step Tidy (node0 fun _ => [.append 2 7]) w ∧
      (w.txns false).pc = .returned [] ∧ (w.txns true).pc = .waiting ∧
      w.node.Tracks 2 ∧ w.BookkeepingLive := by
  have hrun : ((runChecked step tidies (node0 fun _ => [.append 2 7]) timedOutRun).map fun w =>
      decide ((w.txns false).pc = .returned [] ∧ (w.txns true).pc = .waiting ∧
        (w.node.pendingRemoteLocks 2).isSome = true)) = some true := by
    decide +kernel
  obtain ⟨w, hw, hpcs⟩ := Option.map_eq_some_iff.mp hrun
  obtain ⟨hret, hwait, hkey⟩ := of_decide_eq_true hpcs
  have hr := (run_of_runChecked _ .refl hw).mono fun _ _ => tidy_of_tidies
  exact ⟨w, hr, hret, hwait, .inl (Option.isSome_iff_ne_none.mp hkey), bookkeeping_live hr⟩

/-- The lock is granted, the operation is run and answered, and the call returns. -/
def committedRun : List (OpenLabel Bool) :=
  askKey2 false ++ [.receive 2 (Message.lockGranted 1 2).toJson, .txn false {}, .txn false {},
    .txn false {}, .receive 2 (Message.opResp 1 2 none).toJson, .txn false {}, .txn false {},
    .txn false {}, .txn false {}, .txn false { pairs := [(2, 2)] }, .txn false {}, .txn false {}]

/-- **A commit leaves its entries behind.**  Nothing is late, twice or lost; the call has returned,
the other one has not been made, and id 1 is still a key of all three maps. -/
theorem commit_leaves_entries :
    ∃ w : OpenNode Bool, Reachable step (node0 fun _ => [.append 2 7]) w ∧
      (w.txns false).txId = 1 ∧ (w.txns false).pc = .returned [(2, some [])] ∧
      (w.txns true).pc = .idle ∧ w.node.pendingRemoteLocks 1 ≠ none ∧
      w.node.pendingRemoteOps 1 ≠ none ∧ w.node.remoteResults 1 ≠ none ∧ ¬ w.BookkeepingLive := by
  have hrun : ((runLabels step (node0 fun _ => [.append 2 7]) committedRun).map fun w =>
      decide ((w.txns false).txId = 1 ∧ (w.txns false).pc = .returned [(2, some [])] ∧
        (w.txns true).pc = .idle ∧ (w.node.pendingRemoteLocks 1).isSome = true ∧
        (w.node.pendingRemoteOps 1).isSome = true ∧ (w.node.remoteResults 1).isSome = true))
      = some true := by
    decide +kernel
  obtain ⟨w, hw, hpcs⟩ := Option.map_eq_some_iff.mp hrun
  obtain ⟨hid, hret, hidle, hlocks, hops, hresults⟩ := of_decide_eq_true hpcs
  rw [Option.isSome_iff_ne_none] at hlocks hops hresults
  refine ⟨w, reachable_of_runLabels _ hw, hid, hret, hidle, hlocks, hops, hresults, ?_⟩
  intro hlive
  obtain ⟨i, hi, -⟩ := hlive 1 (.inl hlocks)
  cases i with
  | false => exact absurd hi (by simp [hret, Pc.live])
  | true => exact absurd hi (by simp [hidle, Pc.live])

end OpenNode

end TwoPL
