/-
# One node, and everything around it

A node with any family of calls of `execute_transaction`, in an environment that may do anything:
messages of any content come from any peer at any time, late, twice or unasked for; a wait may time
out and a `send` may throw whenever there is one.  What the other nodes make of the messages sent to
them does not matter here, since whatever they could answer may come in anyway.

A step is a step of a call (`stepTxn`), the handing over of a message (`handlePeerMessage`), or the
next section of a handler that is under way (`stepHandler`).
-/
import TwoPL.Cluster

namespace TwoPL

open Lib

/-! ## 1. The system -/

/-- A node, its calls, and the handlers of messages that are under way. -/
structure OpenNode (ι : Type*) where
  node : Node
  txns : ι → TxnThread
  handlers : List Handler

inductive OpenLabel (ι : Type*)
  | txn (i : ι) (c : Choice)
  | receive (peer : NodeID) (msg : JsonObject)
  | handle (pos : ℕ) (throws : Bool)

namespace OpenNode

variable {ι : Type*} [DecidableEq ι]

/-- What is left of the handlers after a section of the one at `pos`. -/
def setHandler (w : OpenNode ι) (pos : ℕ) : Option Handler → List Handler
  | some h => w.handlers.set pos h
  | none => w.handlers.eraseIdx pos

def step (w : OpenNode ι) : OpenLabel ι → Option (OpenNode ι)
  | .txn i c =>
    (stepTxn w.node (w.txns i) c).map fun r =>
      { w with node := r.node, txns := Function.update w.txns i r.thread }
  | .receive peer msg =>
    (handlePeerMessage w.node peer msg).map fun x =>
      { w with node := x.1, handlers := w.handlers ++ x.2.toList }
  | .handle pos throws =>
    w.handlers[pos]?.map fun h =>
      let x := stepHandler w.node throws h
      { w with node := x.1, handlers := w.setHandler pos x.2.1 }

/-- Nothing has been called, nothing is under way. -/
def initial (routing : Routing) (store : ThreadSafeKVStore) (txs : ι → Transaction) :
    OpenNode ι where
  node := .fresh routing store
  txns := fun i => .fresh (txs i)
  handlers := []

/-! ## 2. Everything a step can do -/

/-- What handing over a message comes to. -/
inductive Received (n : Node) (peer : NodeID) (msg : JsonObject) : Node → Option Handler → Prop
  | lockRequest {t k} : dispatch msg = some (.lockRequest t k) →
      Received n peer msg n (some (.acquiring t k .emplace))
  | lockResponse {t k granted} : dispatch msg = some (.lockResponse t k granted) →
      n.distributedMutex = false →
      Received n peer msg (n.handleLockResponse peer t k granted) none
  | lockRelease {t k} : dispatch msg = some (.lockRelease t k) →
      Received n peer msg (n.handleLockRelease t k) none
  | opRequest {t k op} : dispatch msg = some (.opRequest t k op) →
      Received n peer msg (n.handleOperationRequest t k op).1
        (some (.responding (n.handleOperationRequest t k op).2))
  | opResponse {t k values} : dispatch msg = some (.opResponse t k values) →
      n.distributedMutex = false →
      Received n peer msg (n.handleOperationResponse peer t k values) none
  | nothing : Received n peer msg n none

theorem handlePeerMessage_received {n : Node} {peer : NodeID} {msg : JsonObject}
    {x : Node × Option Handler} (h : handlePeerMessage n peer msg = some x) :
    Received n peer msg x.1 x.2 := by
  unfold handlePeerMessage at h
  split at h
  · exact absurd h (by simp)
  · rename_i hd
    rw [Option.some.injEq] at h
    exact h ▸ .lockRequest hd
  · rename_i hd
    split at h
    · exact absurd h (by simp)
    · rename_i hm
      rw [Option.some.injEq] at h
      exact h ▸ .lockResponse hd (by simpa using hm)
  · rename_i hd
    rw [Option.some.injEq] at h
    exact h ▸ .lockRelease hd
  · rename_i hd
    rw [Option.some.injEq] at h
    exact h ▸ .opRequest hd
  · rename_i hd
    split at h
    · exact absurd h (by simp)
    · rename_i hm
      rw [Option.some.injEq] at h
      exact h ▸ .opResponse hd (by simpa using hm)
  · rw [Option.some.injEq] at h
    exact h ▸ .nothing
  · rw [Option.some.injEq] at h
    exact h ▸ .nothing

/-- Messages leave the routing alone. -/
theorem Received.routing_eq {n n' : Node} {peer : NodeID} {msg : JsonObject} {h : Option Handler}
    (hr : Received n peer msg n' h) : n'.routing = n.routing := by
  cases hr with
  | lockResponse _ _ => exact (Node.handleLockResponse_frame n _ _ _ _).1
  | opRequest _ => rw [Node.handleOperationRequest_frame]
  | _ => rfl

/-- A handler touches the lock manager and nothing else. -/
theorem node_of_handlerStepped {n : Node} {throws : Bool} {h : Handler}
    {r : Node × Option Handler × Option Message} (hs : Cluster.HandlerStepped n throws h r) :
    r.1 = { n with lockManager := r.1.lockManager } := by
  cases hs <;> rfl

/-- **Everything a step can do.** -/
inductive Stepped (w : OpenNode ι) : OpenLabel ι → OpenNode ι → Prop
  | txn {i c r} : TxnStepped w.node (w.txns i) c r →
      Stepped w (.txn i c) { w with node := r.node, txns := Function.update w.txns i r.thread }
  | receive {peer msg n h} : Received w.node peer msg n h →
      Stepped w (.receive peer msg) { w with node := n, handlers := w.handlers ++ h.toList }
  | handle {pos throws h r} : h ∈ w.handlers → Cluster.HandlerStepped w.node throws h r →
      Stepped w (.handle pos throws) { w with node := r.1, handlers := w.setHandler pos r.2.1 }

theorem stepped_of_step {w w' : OpenNode ι} {l : OpenLabel ι} (h : w.step l = some w') :
    Stepped w l w' := by
  cases l with
  | txn i c =>
    obtain ⟨r, hr, rfl⟩ := Option.map_eq_some_iff.mp h
    exact .txn (stepTxn_spec hr)
  | receive peer msg =>
    obtain ⟨x, hx, rfl⟩ := Option.map_eq_some_iff.mp h
    exact .receive (handlePeerMessage_received hx)
  | handle pos throws =>
    obtain ⟨h', hh, rfl⟩ := Option.map_eq_some_iff.mp h
    exact .handle (List.mem_of_getElem? hh) (Cluster.stepHandler_spec _ _ _)

omit [DecidableEq ι] in
/-- A handler that is there after a section was there before, or is what the section left. -/
theorem mem_setHandler {w : OpenNode ι} {pos : ℕ} {h' : Option Handler} {h : Handler}
    (hmem : h ∈ w.setHandler pos h') : h ∈ w.handlers ∨ h' = some h := by
  cases h' with
  | none => exact .inl (List.mem_of_mem_eraseIdx hmem)
  | some h'' => exact (List.mem_or_eq_of_mem_set hmem).imp_right fun e => by rw [e]

/-! ## 3. Node 0 of three -/

/-- Node 0 of the cluster of three, with an empty store and two calls of its own. -/
def node0 (txs : Bool → Transaction) : OpenNode Bool :=
  initial (Cluster.threeNodes.routing 0) (Cluster.emptyStores 0) txs

/-- A call whose one key is key 2, from its beginning to the end of its requests. -/
def askKey2 (i : Bool) : List (OpenLabel Bool) :=
  [.txn i {}, .txn i { pairs := [(2, 2)] }, .txn i {}, .txn i {}]

end OpenNode

end TwoPL
