/-
# The lookup of `acquire`, in a cluster

Every node has a lock table of its own, and its calls and the handlers of its lock requests look
their entries up in it.  A handler is known by the two nodes of its channel, and a `try_emplace`
disturbs the lookups on its own node only.

Serializability of the whole cluster (`DistributedSerial.lean`) needs one more condition then, the
same one as everywhere: no `try_emplace` links an entry while somebody else on the node is in its
lookup (`strictly_serializable_unless_raced`).
-/
import TwoPL.DistributedSerial
import TwoPL.LookupHandlers

namespace TwoPL

open Lib

namespace Cluster

variable {ι : Type*} [DecidableEq ι]

/-! ## 1. Calls and handlers of all nodes -/

/-- The key that a call, or the handler of a channel, looks up. -/
def wants (w : Cluster ι) : ι ⊕ (NodeID × NodeID) → Option KeyType
  | .inl i => (w.txns i).pc.wants
  | .inr ab => (w.handlers ab).bind (·.handler.wants)

/-- The node in whose lock table that is. -/
def nodeOf (cfg : ClusterConfig ι) : ι ⊕ (NodeID × NodeID) → NodeID
  | .inl i => cfg.origin i
  | .inr ab => ab.2

/-- Who takes a step; the network is nobody. -/
def mover : ClusterLabel ι → Option (ι ⊕ (NodeID × NodeID))
  | .txn i _ => some (.inl i)
  | .deliver _ _ | .drop _ _ _ => none
  | .handle src dest _ => some (.inr (src, dest))

/-- The key whose entry the next step of a call or a handler links. -/
def linksNext (cfg : ClusterConfig ι) (w : Cluster ι) : ι ⊕ (NodeID × NodeID) → Option KeyType
  | .inl i => (w.txns i).pc.links (w.nodes (cfg.origin i)).lockManager
  | .inr ab => (w.handlers ab).bind (·.handler.links (w.nodes ab.2).lockManager)

/-- The key whose entry a step links in the table in which `p` looks up. -/
def links (cfg : ClusterConfig ι) (w : Cluster ι) (l : ClusterLabel ι)
    (p : ι ⊕ (NodeID × NodeID)) : Option KeyType :=
  (mover l).bind fun q => if nodeOf cfg q = nodeOf cfg p then w.linksNext cfg q else none

/-- A step on the given entry. -/
def stepOn (cfg : ClusterConfig ι) (entry : KeyType) (w : Cluster ι) :
    ClusterLabel ι → Option (Cluster ι)
  | .txn i c => (stepTxnOn entry (w.nodes (cfg.origin i)) (w.txns i) c).map (w.afterTxn cfg i c)
  | .handle src dest throws =>
    (w.handlers (src, dest)).map fun a =>
      w.afterHandle src dest a.cause (stepHandlerOn entry (w.nodes dest) throws a.handler)
  | l => w.step cfg l

variable {cfg : ClusterConfig ι}

theorem stepOn_self {w : Cluster ι} {l : ClusterLabel ι} {p : ι ⊕ (NodeID × NodeID)} {k : KeyType}
    (hp : mover l = some p) (hk : w.wants p = some k) : w.stepOn cfg k l = w.step cfg l := by
  cases l with
  | txn i c =>
    obtain rfl := Option.some.inj hp
    have hk : (w.txns i).pc.wants = some k := hk
    simp only [stepOn, step, stepTxnOn_self hk]
  | handle src dest throws =>
    obtain rfl := Option.some.inj hp
    obtain ⟨a, ha, hk⟩ := Option.bind_eq_some_iff.mp hk
    simp only [stepOn, step, ha, Option.map_some, stepHandlerOn_self hk]
  | deliver src dest => exact absurd hp (by simp [mover])
  | drop src dest pos => exact absurd hp (by simp [mover])

/-- Whoever has looked an entry up wants that one until it wants none any more. -/
theorem wants_of_step {w w' : Cluster ι} {l : ClusterLabel ι} {p : ι ⊕ (NodeID × NodeID)}
    {k k' : KeyType} (hs : w.step cfg l = some w') (hk : w.wants p = some k)
    (hk' : w'.wants p = some k') : k' = k := by
  have hsame : w'.wants p = w.wants p → k' = k := fun h =>
    Option.some.inj (hk'.symm.trans (h.trans hk))
  cases stepped_of_step hs with
  | @txn i c r hr =>
    cases p with
    | inr ab => exact hsame rfl
    | inl j =>
      by_cases hj : j = i
      · subst hj
        simp only [wants, afterTxn_txns_self] at hk'
        exact hr.wants_eq hk hk'
      · exact hsame (by simp only [wants, afterTxn_txns_of_ne hj])
  | @deliver src dest q rest n h _ _ hnone _ _ =>
    cases p with
    | inl j => exact hsame rfl
    | inr ab =>
      by_cases hab : ab = (src, dest)
      · -- a handler that has just begun has looked nothing up before
        subst hab
        exact absurd hk (by simp [wants, hnone])
      · exact hsame (by simp only [wants, afterDeliver, Function.update_of_ne hab])
  | @handle src dest throws i h r hi hr =>
    cases p with
    | inl j => exact hsame rfl
    | inr ab =>
      by_cases hab : ab = (src, dest)
      · subst hab
        simp only [wants, hi, Option.bind_some] at hk
        simp only [wants, afterHandle, Function.update_self, Option.bind_map] at hk'
        exact hr.wants_eq hk hk'
      · exact hsame (by simp only [wants, afterHandle, Function.update_of_ne hab])
  | drop _ => exact hsame rfl

/-- The cluster, with the lookups of `acquire` as steps. -/
def lookups (cfg : ClusterConfig ι) :
    Lookups (Cluster ι) (ClusterLabel ι) (ι ⊕ (NodeID × NodeID)) KeyType where
  step := step cfg
  stepOn entry w l := w.stepOn cfg entry l
  party := mover
  wants := wants
  links := links cfg
  origin _ _ p := p
  stepOn_self := stepOn_self
  wants_eq := wants_of_step

/-! ## 2. Serializability -/

/-- **A cluster that keeps its locks is strictly serializable, unless a lookup is raced.**  Any
number of nodes that agree on the primaries of keys, any family of calls on any of them, any stores;
messages may be delayed, lost or overtaken by those of other channels, lock waits may time out,
locks may be denied, sends may throw.  In every run whose steps are orderly and in which no
`try_emplace` links an entry while somebody else on the node looks its own up, what has happened in
the whole cluster is strictly serializable, with every operation executed by the primary of its
key. -/
theorem strictly_serializable_unless_raced (cfg : ClusterConfig ι) {prim : KeyType → NodeID}
    (hprim : ∀ i k, (cfg.routing (cfg.origin i)).primary k = prim k)
    (stores : NodeID → ThreadSafeKVStore) (txs : ι → Transaction)
    {w : Racing (Cluster ι) (ι ⊕ (NodeID × NodeID)) KeyType}
    (hr : Run (lookups cfg).raceStep ((lookups cfg).RaceFreeAnd (Orderly cfg prim))
      (Lookups.start (initial cfg stores txs)) w) :
    ∃ order, StrictSerialization cfg prim stores txs w.sys order :=
  exists_strictSerialization hprim (Lookups.run_of_raceRun hr).1

/-! ## 3. A writer and a reader of a key on another node -/

/-- A writer (`false`) and a reader (`true`) of key 2, which is on node 2. -/
def writeRead : Bool → Transaction
  | false => [.append 2 5]
  | true => [.read 2]

/-- The key is asked for, granted, and the grant handled. -/
def lockKey2 (i : Bool) : List (ClusterLabel Bool) :=
  [.txn i { pairs := [(2, 2)] }, .txn i {}, .txn i {}] ++ serveAt2 0 ++ [.deliver 2 0, .txn i {}]

/-- The operation, by way of node 2. -/
def runAt2 (i : Bool) : List (ClusterLabel Bool) :=
  [.txn i {}, .txn i {}, .txn i {}, .deliver 0 2, .handle 0 2 false, .deliver 2 0, .txn i {},
    .txn i {}]

/-- The key given back, with the release not handled yet. -/
def giveKey2 (i : Bool) : List (ClusterLabel Bool) :=
  [.txn i {}, .txn i {}, .txn i { pairs := [(2, 2)] }, .txn i {}]

/-- The reader is called first and asks for the key when the writer has sent the release. -/
def writerFirst : List (ClusterLabel Bool) :=
  [.txn true {}, .txn false {}] ++ lockKey2 false ++ runAt2 false ++ giveKey2 false ++
    [.deliver 0 2] ++ lockKey2 true ++ runAt2 true

theorem strictly_serializable_writer_first :
    ∃ w, Run (lookups threeNodesFrom0).raceStep ((lookups threeNodesFrom0).RaceFreeAnd
          (Orderly threeNodesFrom0 (threeNodes.routing 0).primary))
        (Lookups.start (initial threeNodesFrom0 emptyStores writeRead)) w ∧
      (true, .own (.ran (.read 2) (.remote (some [5])))) ∈ w.sys.hist ∧
      ∃ order, StrictSerialization threeNodesFrom0 (threeNodes.routing 0).primary emptyStores
        writeRead w.sys order := by
  have hrun : ((runChecked (step threeNodesFrom0)
      (orderly threeNodesFrom0 (threeNodes.routing 0).primary)
      (initial threeNodesFrom0 emptyStores writeRead) writerFirst).map fun w =>
        decide ((true, .own (.ran (.read 2) (.remote (some [5])))) ∈ w.hist)) = some true := by
    decide +kernel
  obtain ⟨s, hs, hmem⟩ := Option.map_eq_some_iff.mp hrun
  have hr := (run_of_runChecked _ .refl hs).mono fun _ _ h => orderly_of_check h
  obtain ⟨w, hw, rfl, -⟩ := Lookups.exists_raceRun (Y := lookups threeNodesFrom0) hr
  exact ⟨w, hw, of_decide_eq_true hmem,
    strictly_serializable_unless_raced threeNodesFrom0 (fun _ _ => rfl) emptyStores writeRead hw⟩

end Cluster

end TwoPL
