/-
# Counting lock responses

`pending_remote_locks` has, for each transaction, the (node, key) pairs it still waits for.
`handle_lock_response` is to take a pair out when its node grants it, and the whole entry when
something is denied.

It takes the whole entry out EVERY time (`isGranted_eq_false`).  `Grant` lists of any length, from
any peers, for any transactions and keys, come down to one equation (`receiveGrants_eq`): the
entries of the transactions that are named are gone, all others are as before.  So the order does
not matter and nobody else's pairs are touched, as it should be; but the pairs of a transaction are
counted right only if ALL of them are granted in the list (`lock_responses_counted_iff`).

The branch that the comparison never takes would count exactly (`pendingPairs_granted`): the
comparison is all that is wrong here.
-/
import TwoPL.Scheduler

namespace TwoPL

/-! ## 1. Processing responses -/

/-- `handle_lock_response` on a message, while nobody else holds `distributed_mutex`.  A message
without its fields, or with fields of another kind, does nothing. -/
def Node.lockResponse (n : Node) (peer : NodeID) (msg : JsonObject) : Node :=
  match lockFields msg, msg.at? "type" with
  | some (txId, key), some (.string type) => n.handleLockResponse peer txId key (isGranted type)
  | _, _ => n

/-- It is what `handle_peer_message` routes a response to. -/
theorem handlePeerMessage_lockResponse {n : Node} (hm : n.distributedMutex = false) (peer : NodeID)
    {m : Message} {txId : TransactionId} {key : KeyType}
    (hmsg : m = .lockGranted txId key ∨ m = .lockDenied txId key) :
    handlePeerMessage n peer m.toJson = some (n.lockResponse peer m.toJson, none) := by
  have hdispatch : dispatch m.toJson = some (.lockResponse txId key false) := by
    rw [dispatch_toJson]
    rcases hmsg with rfl | rfl <;> rfl
  rw [handlePeerMessage, hdispatch]
  rcases hmsg with rfl | rfl <;> simp [hm, Node.lockResponse, lockFields, Message.toJson]

/-- Of either kind, it takes the entry of its transaction out. -/
theorem lockResponse_toJson (n : Node) (peer : NodeID) {m : Message} {txId : TransactionId}
    {key : KeyType} (hmsg : m = .lockGranted txId key ∨ m = .lockDenied txId key) :
    n.lockResponse peer m.toJson = n.erasePending txId := by
  rcases hmsg with rfl | rfl <;>
    simp [Node.lockResponse, lockFields, Message.toJson, Node.handleLockResponse]

/-- A `lock_granted`: the peer it comes from, the transaction and the key it names. -/
structure Grant where
  peer : NodeID
  txId : TransactionId
  key : KeyType
  deriving DecidableEq

/-- Several of them, one after the other. -/
def Node.receiveGrants (n : Node) (grants : List Grant) : Node :=
  grants.foldl (fun n g => n.lockResponse g.peer (Message.lockGranted g.txId g.key).toJson) n

/-- **They are handed over like any message**, while nobody else holds `distributed_mutex`. -/
theorem handlePeerMessage_receiveGrants {n : Node} (hm : n.distributedMutex = false)
    (grants : List Grant) :
    grants.foldlM (fun n g =>
      (handlePeerMessage n g.peer (Message.lockGranted g.txId g.key).toJson).map Prod.fst) n
        = some (n.receiveGrants grants) := by
  induction grants generalizing n with
  | nil => rfl
  | cons g grants ih =>
    have hfirst : handlePeerMessage n g.peer (Message.lockGranted g.txId g.key).toJson
        = some (n.lockResponse g.peer (Message.lockGranted g.txId g.key).toJson, none) :=
      handlePeerMessage_lockResponse hm g.peer (.inl rfl)
    have hkept : (n.lockResponse g.peer (Message.lockGranted g.txId g.key).toJson).distributedMutex
        = false := by
      rw [lockResponse_toJson n g.peer (.inl rfl)]
      exact hm
    rw [List.foldlM_cons, hfirst]
    exact ih hkept

/-- The pairs granted to a transaction. -/
def grantedTo (txId : TransactionId) (grants : List Grant) : Finset (NodeID × KeyType) :=
  ((grants.filter fun g => g.txId = txId).map fun g => (g.peer, g.key)).toFinset

/-- The pairs a transaction waits for. -/
abbrev Node.pendingPairs (n : Node) (txId : TransactionId) : Finset (NodeID × KeyType) :=
  (n.pendingLocks txId).pairs

/-- What counting is to mean: the granted pairs are taken out and no others, in whatever order the
grants come, and a denial is the affair of its own transaction. -/
structure CountsExactly (n : Node) (grants : List Grant) : Prop where
  counted : ∀ txId, (n.receiveGrants grants).pendingPairs txId
    = n.pendingPairs txId \ grantedTo txId grants
  anyOrder : ∀ grants', grants'.Perm grants → n.receiveGrants grants' = n.receiveGrants grants
  denied : ∀ peer txId key txId', txId' ≠ txId →
    (n.lockResponse peer (Message.lockDenied txId key).toJson).pendingPairs txId'
      = n.pendingPairs txId'

/-! ## 2. What the code does -/

/-- **After any list of grants**: the entries of the transactions it names are gone. -/
theorem receiveGrants_eq (n : Node) (grants : List Grant) :
    n.receiveGrants grants = { n with
      pendingRemoteLocks := fun txId =>
        if txId ∈ grants.map Grant.txId then none else n.pendingRemoteLocks txId } := by
  induction grants generalizing n with
  | nil => simp [Node.receiveGrants]
  | cons g grants ih =>
    have hcons : n.receiveGrants (g :: grants) = (n.erasePending g.txId).receiveGrants grants := by
      rw [← lockResponse_toJson n g.peer (.inl rfl)]
      rfl
    rw [hcons, ih]
    simp only [Node.erasePending, List.map_cons, List.mem_cons, Function.update_apply]
    congr 1
    funext txId
    by_cases hmem : txId ∈ grants.map Grant.txId
    · simp [hmem]
    · simp [hmem]

theorem pendingPairs_receiveGrants (n : Node) (grants : List Grant) (txId : TransactionId) :
    (n.receiveGrants grants).pendingPairs txId
      = if txId ∈ grants.map Grant.txId then ∅ else n.pendingPairs txId := by
  rw [receiveGrants_eq]
  simp only [Node.pendingPairs, Node.pendingLocks]
  split
  · rfl
  · rfl

theorem grantedTo_eq_empty {txId : TransactionId} {grants : List Grant}
    (h : txId ∉ grants.map Grant.txId) : grantedTo txId grants = ∅ := by
  have hfilter : grants.filter (fun g => g.txId = txId) = [] := by
    rw [List.filter_eq_nil_iff]
    intro g hg heq
    exact h (List.mem_map.mpr ⟨g, hg, by simpa using heq⟩)
  simp [grantedTo, hfilter]

/-- The order of the grants does not matter. -/
theorem receiveGrants_perm (n : Node) {grants grants' : List Grant} (h : grants'.Perm grants) :
    n.receiveGrants grants' = n.receiveGrants grants := by
  simp only [receiveGrants_eq, (h.map Grant.txId).mem_iff]

/-- A denial does not touch the pairs of others. -/
theorem pendingPairs_lockDenied (n : Node) (peer : NodeID) {txId txId' : TransactionId}
    (key : KeyType) (h : txId' ≠ txId) :
    (n.lockResponse peer (Message.lockDenied txId key).toJson).pendingPairs txId'
      = n.pendingPairs txId' := by
  rw [lockResponse_toJson n peer (.inr rfl), Node.pendingPairs, Node.pendingLocks_erasePending,
    if_neg h]

/-! ## 3. When the count is right -/

/-- **When lock responses are counted exactly.**  For every state of the pending map and every list
of grants, unsolicited and repeated ones included: the count is right if and only if every
transaction named in the list is granted, in the list, all the pairs it waits for. -/
theorem lock_responses_counted_iff (n : Node) (grants : List Grant) :
    CountsExactly n grants ↔
      ∀ g ∈ grants, n.pendingPairs g.txId ⊆ grantedTo g.txId grants := by
  constructor
  · intro h g hg
    have hcounted := h.counted g.txId
    rw [pendingPairs_receiveGrants, if_pos (List.mem_map.mpr ⟨g, hg, rfl⟩)] at hcounted
    exact Finset.sdiff_eq_empty_iff_subset.mp hcounted.symm
  · intro h
    refine ⟨fun txId => ?_, fun grants' hperm => receiveGrants_perm n hperm,
      fun peer txId key txId' hne => pendingPairs_lockDenied n peer key hne⟩
    rw [pendingPairs_receiveGrants]
    split
    · rename_i hmem
      obtain ⟨g, hg, rfl⟩ := List.mem_map.mp hmem
      exact (Finset.sdiff_eq_empty_iff_subset.mpr (h g hg)).symm
    · rename_i hmem
      rw [grantedTo_eq_empty hmem, Finset.sdiff_empty]

/-- Transaction 1 waits for key 1 of node 1 and for key 2 of node 2. -/
def waitsForTwo : Node :=
  Node.initPending
    (.fresh (.fresh 0) { hash := fun key => key.toUInt64, stripes := fun _ _ => none })
    1 [(1, 1), (2, 2)]

/-- **One grant of two takes both pairs out.** -/
theorem one_grant_counts_for_both :
    (waitsForTwo.receiveGrants [⟨2, 1, 2⟩]).pendingPairs 1 = ∅ ∧
      ¬ CountsExactly waitsForTwo [⟨2, 1, 2⟩] := by
  refine ⟨by decide, fun h => ?_⟩
  exact absurd (h.counted 1) (by decide)

/-! ## 4. The branch that is never taken -/

/-- Taking a key out of the set of a node, and the node out of the map with its last key. -/
theorem NodeKeys.pairs_remove {m : NodeKeys} {node : NodeID} {keys : Finset KeyType}
    (h : m.lookup node = some keys) (key : KeyType) :
    NodeKeys.pairs (if keys.erase key = ∅ then m.erase node else m.insert node (keys.erase key))
      = m.pairs.erase (node, key) := by
  ext ⟨node', key'⟩
  rw [Finset.mem_erase, NodeKeys.mem_pairs, NodeKeys.mem_pairs]
  by_cases hn : node' = node
  · subst hn
    split
    · rename_i hempty
      have hnot : key' ∉ keys.erase key := by simp [hempty]
      simpa [Finmap.lookup_erase, h] using hnot
    · simp [Finmap.lookup_insert, h]
  · split
    · simp [Finmap.lookup_erase_ne hn, hn]
    · simp [Finmap.lookup_insert_of_ne _ hn, hn]

/-- **A grant that is recognised as one takes out its own pair.** -/
theorem pendingPairs_granted (n : Node) (peer : NodeID) (txId : TransactionId) (key : KeyType) :
    (n.handleLockResponse peer txId key true).pendingPairs txId
      = (n.pendingPairs txId).erase (peer, key) := by
  -- the three guards of the branch: without the entry, the peer or the key there is no such pair
  simp only [Node.handleLockResponse, if_true, Node.pendingPairs, Node.pendingLocks]
  split
  · rename_i hnone
    simp [hnone]
  · rename_i pending hpending
    have hmem := NodeKeys.mem_pairs (m := pending) (q := (peer, key))
    split
    · rename_i hnone
      rw [hpending, Option.getD_some, Finset.erase_eq_of_notMem (by simp [hmem, hnone])]
    · rename_i keys hkeys
      split
      · simp only [Function.update_self, hpending, Option.getD_some, NodeKeys.pairs_remove hkeys]
      · rename_i hkey
        rw [hpending, Option.getD_some, Finset.erase_eq_of_notMem (by simp [hmem, hkeys, hkey])]

end TwoPL
