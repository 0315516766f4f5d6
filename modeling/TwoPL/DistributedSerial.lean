/-
# A cluster that keeps its locks: strict serializability

The scheduler of a cluster is meant to be distributed strict two-phase locking: local keys are
locked in the node's own table, the others by a `lock_req` to their primary; operations on them are
executed by their primary; a `lock_rel` gives them back.  It fails to be that in four places, and
each of them is a condition on the step where it happens (`Orderly`):

* two calls that have a node in common get the same id;
* a call leaves `acquire_remote_locks_with_retry` before every primary that it has asked for a key
  has answered `lock_granted`;
* the `send` of an `op_req` throws, and the operation is skipped;
* the wait for an `op_resp` times out, and the operation is taken for done.

In every run without these four, whatever else happens (messages delayed for ever or lost, lock
waits that time out, releases and lock requests whose `send` throws, denials, aborts, calls that end
with an exception), what has happened in the WHOLE cluster is strictly serializable
(`exists_strictSerialization`): one order of all calls, and all the stores together are what the
calls make of them in that order, one after the other.  Here a lookup of `acquire` belongs to the
step behind it; `LookupCluster.lean` counts it as one of its own.

The abstract protocol is that of `Lib/StrictTwoPhase.lean`, with the family of all stores for its
shared state.  An operation happens when its PRIMARY executes it, and a client of the abstract
protocol gives its keys back as soon as its call is on its way out: the lock tables may go on naming
it for as long as a `lock_rel` is under way, or for ever, which only keeps others waiting.
-/
import TwoPL.AllOrNothing
import TwoPL.Bookkeeping
import TwoPL.ExclusiveGrants
import TwoPL.Lib.StrictTwoPhase
import TwoPL.LockTraffic
import TwoPL.OpTraffic
import TwoPL.WakeUps

namespace TwoPL

open Lib

/-! ## 1. The stores of a cluster as one -/

/-- Operations as actions on all stores together: each works on the store of its key's primary.  The
observation keeps the operation along with what it returned. -/
def clusterActions (prim : KeyType → NodeID) :
    Actions (NodeID → ThreadSafeKVStore) Operation (Operation × Option ValueContainer) where
  exec s op := Function.update s (prim op.key) (NaiveOpExecutor.accept (s (prim op.key)) op).1
  obs s op := (op, (NaiveOpExecutor.accept (s (prim op.key)) op).2)

/-- What an operation returns does not depend on another one on a different key. -/
theorem accept_result_of_ne (s : ThreadSafeKVStore) {op op' : Operation} (h : op.key ≠ op'.key) :
    (NaiveOpExecutor.accept (NaiveOpExecutor.accept s op).1 op').2
      = (NaiveOpExecutor.accept s op').2 := by
  cases op' with
  | append key' value' => rfl
  | read key' =>
    cases op with
    | read key => rfl
    | append key value => exact ThreadSafeKVStore.get_append_of_ne s (Ne.symm h) value

theorem clusterActions_obs_exec (prim : KeyType → NodeID) (s : NodeID → ThreadSafeKVStore)
    {op op' : Operation} (h : op.key ≠ op'.key) :
    (clusterActions prim).obs ((clusterActions prim).exec s op) op'
      = (clusterActions prim).obs s op' := by
  simp only [clusterActions]
  by_cases hp : prim op'.key = prim op.key
  · rw [hp, Function.update_self, accept_result_of_ne _ h]
  · rw [Function.update_of_ne hp]

/-- **Operations on different keys are independent**, at the same node or at different ones. -/
theorem clusterActions_indep (prim : KeyType → NodeID) (op op' : Operation)
    (h : op.key ≠ op'.key) : (clusterActions prim).Indep op op' where
  exec_comm s := by
    simp only [clusterActions]
    by_cases hp : prim op.key = prim op'.key
    · have hcomm := (opActions_indep op op' h).exec_comm (s (prim op'.key))
      simp only [opActions] at hcomm
      simp only [hp, Function.update_self, Function.update_idem, hcomm]
    · rw [Function.update_of_ne hp, Function.update_of_ne (Ne.symm hp),
        Function.update_comm hp]
  obs_left s := clusterActions_obs_exec prim s (Ne.symm h)
  obs_right s := clusterActions_obs_exec prim s h

/-- What an operation adds to the result vector of a call on node `o`: the response to a remote
operation is a list whatever the operation, a local one adds what `localResult` says. -/
def shownResult (prim : KeyType → NodeID) (o : NodeID) (x : Operation × Option ValueContainer) :
    Results :=
  collect [] x.1 (if prim x.1.key = o then .local x.2 else .remote (some (x.2.getD [])))

/-- The result vector of a call that observed `obs`. -/
def shown (prim : KeyType → NodeID) (o : NodeID)
    (obs : List (Operation × Option ValueContainer)) : Results :=
  (obs.map (shownResult prim o)).flatten

theorem shown_concat (prim : KeyType → NodeID) (o : NodeID)
    (obs : List (Operation × Option ValueContainer)) (x : Operation × Option ValueContainer) :
    shown prim o (obs ++ [x]) = shown prim o obs ++ shownResult prim o x := by
  simp [shown]

theorem collect_eq_append (results : Results) (op : Operation) (outcome : Outcome) :
    collect results op outcome = results ++ collect [] op outcome := by
  cases outcome with
  | «local» _ => simp [collect]
  | remote result => cases result <;> simp [collect]

/-! ## 2. Where a call is in its exchange with a primary -/

/-- What is under way for a call, and what its node has noted of its operations. -/
structure Exchange where
  traffic : NodeID × NodeID → List Message
  pending : NodeID × KeyType → Prop
  result : KeyType → Option ValueContainer

namespace Exchange

/-- Nothing is under way. -/
def Silent (x : Exchange) : Prop := ∀ ab, x.traffic ab = []

/-- Nothing is under way but this message, from the first of the two nodes to the second. -/
def Only (x : Exchange) (ab : NodeID × NodeID) (m : Message) : Prop :=
  ∀ cd, x.traffic cd = [] ∨ (cd = ab ∧ x.traffic cd = [m])

/-- The request is under way or lost, and has not been handled. -/
structure Asked (x : Exchange) (o p : NodeID) (t : TransactionId) (op : Operation) : Prop where
  only : x.Only (o, p) (.opReq t op)
  pending : x.pending (p, op.key)

/-- The response is under way or lost, and has not been handled. -/
structure Served (x : Exchange) (o p : NodeID) (t : TransactionId) (op : Operation)
    (result : Option ValueContainer) : Prop where
  only : x.Only (p, o) (.opResp t op.key result)
  pending : x.pending (p, op.key)

/-- The response has been handled. -/
structure Answered (x : Exchange) (op : Operation) (result : Option ValueContainer) : Prop where
  silent : x.Silent
  result : x.result op.key = some (result.getD [])

/-- Messages may get lost, and nothing else happens to the exchange. -/
structure Kept (x x' : Exchange) : Prop where
  traffic : ∀ ab, (x'.traffic ab).Sublist (x.traffic ab)
  pending : ∀ q, x.pending q → x'.pending q
  result : x'.result = x.result

variable {x x' : Exchange} {o p : NodeID} {t : TransactionId} {op : Operation}
  {result : Option ValueContainer}

theorem Silent.kept (h : x.Silent) (hk : x.Kept x') : x'.Silent := by
  intro ab
  have hsub := hk.traffic ab
  rw [h ab] at hsub
  exact List.sublist_nil.mp hsub

theorem Only.kept {ab : NodeID × NodeID} {m : Message} (h : x.Only ab m) (hk : x.Kept x') :
    x'.Only ab m := by
  intro cd
  have hsub := hk.traffic cd
  rcases h cd with hnil | ⟨hcd, hone⟩
  · rw [hnil] at hsub
    exact .inl (List.sublist_nil.mp hsub)
  · rw [hone] at hsub
    rcases List.sublist_singleton.mp hsub with hnil | hsame
    · exact .inl hnil
    · exact .inr ⟨hcd, hsame⟩

theorem Asked.kept (h : x.Asked o p t op) (hk : x.Kept x') : x'.Asked o p t op :=
  ⟨h.only.kept hk, hk.pending _ h.pending⟩

theorem Served.kept (h : x.Served o p t op result) (hk : x.Kept x') :
    x'.Served o p t op result :=
  ⟨h.only.kept hk, hk.pending _ h.pending⟩

theorem Answered.kept (h : x.Answered op result) (hk : x.Kept x') : x'.Answered op result :=
  ⟨h.silent.kept hk, by rw [hk.result]; exact h.result⟩

/-- A message that is under way is the one that is. -/
theorem Only.eq_of_mem {ab cd : NodeID × NodeID} {m m' : Message} (h : x.Only ab m)
    (hm : m' ∈ x.traffic cd) : cd = ab ∧ m' = m := by
  rcases h cd with hnil | ⟨hcd, hone⟩
  · rw [hnil] at hm
    exact absurd hm (by simp)
  · rw [hone, List.mem_singleton] at hm
    exact ⟨hcd, hm⟩

end Exchange

/-! ## 3. Where a call is in the abstract protocol -/

open StrictTwoPhase

/-- The call has executed `op` last and has not got its result yet. -/
structure HasRun (prim : KeyType → NodeID) (o : NodeID) (tx : Transaction) (op : Operation)
    (rest : List Operation) (results : Results) (ran : List Operation)
    (obs : List (Operation × Option ValueContainer)) (result : Option ValueContainer) : Prop where
  tx : tx = ran ++ rest
  shown : shown prim o obs = results ++ shownResult prim o (op, result)

/-- A call that waits for its remote operation `op`: the primary has not executed it yet, or it has
and the response is under way, lost, or there. -/
structure Awaits (prim : KeyType → NodeID) (o : NodeID) (tx : Transaction) (txId : TransactionId)
    (x : Exchange) (op : Operation) (rest : List Operation) (results : Results) (st : Status)
    (ran : List Operation) (obs : List (Operation × Option ValueContainer)) : Prop where
  running : st = .running
  remote : prim op.key ≠ o
  stage : (x.Asked o (prim op.key) txId op ∧ tx = ran ++ op :: rest ∧
      results = shown prim o obs) ∨
    ∃ result, HasRun prim o tx op rest results ran obs result ∧
      (x.Served o (prim op.key) txId op result ∨ x.Answered op result)

/-- Where a call is, in terms of the abstract protocol: its status `st`, the keys it owns, what it
ran and observed. -/
def MatchesAt (prim : KeyType → NodeID) (o : NodeID) (t : TxnThread) (x : Exchange) (st : Status)
    (owns : KeyType → Prop) (ran : List Operation)
    (obs : List (Operation × Option ValueContainer)) : Prop :=
  match t.pc with
  | .idle => st = .idle ∧ ran = [] ∧ obs = [] ∧ x.Silent
  | .locking todo _ => st = .growing ∧
    (∀ op ∈ t.tx, prim op.key = o → op.key ∉ todo → owns op.key) ∧ ran = [] ∧ obs = [] ∧ x.Silent
  | .requesting _ => st = .growing ∧ (∀ op ∈ t.tx, prim op.key = o → owns op.key) ∧ ran = [] ∧
    obs = [] ∧ x.Silent
  | .waiting => st = .growing ∧ (∀ op ∈ t.tx, prim op.key = o → owns op.key) ∧ ran = [] ∧
    obs = [] ∧ x.Silent
  | .timingOut _ => st = .aborting ∧ x.Silent
  | .aborting _ => st = .aborting ∧ x.Silent
  | .executing rest results =>
    st = .running ∧ t.tx = ran ++ rest ∧ results = shown prim o obs ∧ x.Silent
  | .opSending op rest results => st = .running ∧ t.tx = ran ++ op :: rest ∧
    results = shown prim o obs ∧ x.Silent ∧ prim op.key ≠ o ∧ x.pending (prim op.key, op.key)
  | .opChecking op rest results => Awaits prim o t.tx t.txId x op rest results st ran obs
  | .opWaiting op rest results => Awaits prim o t.tx t.txId x op rest results st ran obs
  | .opRetrieving op rest results => st = .running ∧ prim op.key ≠ o ∧
    ∃ result, HasRun prim o t.tx op rest results ran obs result ∧ x.Answered op result
  | .releasing _ results _ => st = .shrinking ∧ results = shown prim o obs ∧ x.Silent
  | .sendingReleases _ results _ => st = .shrinking ∧ results = shown prim o obs ∧ x.Silent
  | .returned results =>
    ((st = .done true ∧ results = shown prim o obs) ∨ (st = .done false ∧ results = [])) ∧ x.Silent
  | .threw => (st = .aborting ∨ st = .shrinking) ∧ x.Silent

section Matches

variable {prim : KeyType → NodeID} {o : NodeID} {t : TxnThread} {x x' : Exchange} {st : Status}
  {owns owns' : KeyType → Prop} {ran : List Operation}
  {obs : List (Operation × Option ValueContainer)}

theorem Awaits.kept {op : Operation} {rest : List Operation} {results : Results}
    (h : Awaits prim o t.tx t.txId x op rest results st ran obs) (hk : x.Kept x') :
    Awaits prim o t.tx t.txId x' op rest results st ran obs where
  running := h.running
  remote := h.remote
  stage := h.stage.imp (fun hs => ⟨hs.1.kept hk, hs.2⟩) fun ⟨result, hrun, hs⟩ =>
    ⟨result, hrun, hs.imp (·.kept hk) (·.kept hk)⟩

/-- Losing messages does not hurt, nor does owning more keys. -/
theorem MatchesAt.mono (h : MatchesAt prim o t x st owns ran obs) (hk : x.Kept x')
    (himp : ∀ k, owns k → owns' k) : MatchesAt prim o t x' st owns' ran obs := by
  have hsilent : x.Silent → x'.Silent := (·.kept hk)
  unfold MatchesAt at *
  cases hpc : t.pc <;> simp only [hpc] at h ⊢
  case idle => exact ⟨h.1, h.2.1, h.2.2.1, hsilent h.2.2.2⟩
  case locking =>
    exact ⟨h.1, fun op hop hp hk => himp _ (h.2.1 op hop hp hk), h.2.2.1, h.2.2.2.1,
      hsilent h.2.2.2.2⟩
  case requesting | waiting =>
    exact ⟨h.1, fun op hop hp => himp _ (h.2.1 op hop hp), h.2.2.1, h.2.2.2.1,
      hsilent h.2.2.2.2⟩
  case timingOut | aborting | returned | threw => exact ⟨h.1, hsilent h.2⟩
  case executing => exact ⟨h.1, h.2.1, h.2.2.1, hsilent h.2.2.2⟩
  case opSending =>
    exact ⟨h.1, h.2.1, h.2.2.1, hsilent h.2.2.2.1, h.2.2.2.2.1, hk.pending _ h.2.2.2.2.2⟩
  case opChecking | opWaiting => exact h.kept hk
  case opRetrieving =>
    obtain ⟨result, hrun, hans⟩ := h.2.2
    exact ⟨h.1, h.2.1, result, hrun, hans.kept hk⟩
  case releasing | sendingReleases => exact ⟨h.1, h.2.1, hsilent h.2.2⟩

/-- A call that has not been made only has to have no message under way. -/
theorem MatchesAt.of_idle (h : MatchesAt prim o t x st owns ran obs) (hidle : t.pc = .idle)
    (htraffic : ∀ ab, (x'.traffic ab).Sublist (x.traffic ab)) :
    MatchesAt prim o t x' st owns' ran obs := by
  simp only [MatchesAt, hidle] at h ⊢
  refine ⟨h.1, h.2.1, h.2.2.1, fun ab => ?_⟩
  have hsub := htraffic ab
  rw [h.2.2.2 ab] at hsub
  exact List.sublist_nil.mp hsub

/-- A call that is on its way out is past the phases in which a client needs its keys. -/
theorem MatchesAt.leaving (h : MatchesAt prim o t x st owns ran obs)
    (hpc : t.pc.leaving = true) : st ≠ .growing ∧ st ≠ .running := by
  unfold MatchesAt at h
  cases hp : t.pc <;> simp only [hp] at h hpc
  case returned => rcases h.1 with h | h <;> simp [h.1]
  case threw => rcases h.1 with h | h <;> simp [h]
  case timingOut | aborting | releasing | sendingReleases => simp [h.1]
  all_goals exact absurd hpc (by simp [Pc.leaving])

/-- **The messages of a call that are under way are those of the operation it waits for.** -/
theorem MatchesAt.traffic (h : MatchesAt prim o t x st owns ran obs) {ab : NodeID × NodeID}
    {m : Message} (hm : m ∈ x.traffic ab) :
    ∃ op rest results, (t.pc = .opChecking op rest results ∨ t.pc = .opWaiting op rest results) ∧
      ((m = .opReq t.txId op ∧ ab = (o, prim op.key)) ∨
        ∃ result, m = .opResp t.txId op.key result ∧ ab = (prim op.key, o)) := by
  have hawaits : ∀ {op rest results}, Awaits prim o t.tx t.txId x op rest results st ran obs →
      (m = .opReq t.txId op ∧ ab = (o, prim op.key)) ∨
        ∃ result, m = .opResp t.txId op.key result ∧ ab = (prim op.key, o) := by
    intro op rest results haw
    rcases haw.stage with ⟨hasked, -⟩ | ⟨result, -, hserved | hans⟩
    · obtain ⟨hab, hmsg⟩ := hasked.only.eq_of_mem hm
      exact .inl ⟨hmsg, hab⟩
    · obtain ⟨hab, hmsg⟩ := hserved.only.eq_of_mem hm
      exact .inr ⟨result, hmsg, hab⟩
    · rw [hans.silent ab] at hm
      exact absurd hm (by simp)
  have hsilent : ¬ x.Silent := fun hs => by
    rw [hs ab] at hm
    exact absurd hm (by simp)
  unfold MatchesAt at h
  cases hpc : t.pc <;> simp only [hpc] at h
  case opChecking op rest results => exact ⟨op, rest, results, .inl rfl, hawaits h⟩
  case opWaiting op rest results => exact ⟨op, rest, results, .inr rfl, hawaits h⟩
  case opRetrieving =>
    obtain ⟨-, -, result, -, hans⟩ := h
    exact absurd hans.silent hsilent
  all_goals simp [hsilent] at h

end Matches

namespace Cluster

variable {ι : Type*} [DecidableEq ι]

/-! ## 4. The relation -/

/-- The transactions as programs of the abstract protocol. -/
def setup (prim : KeyType → NodeID) (txs : ι → Transaction) :
    Setup ι KeyType (NodeID → ThreadSafeKVStore) Operation (Operation × Option ValueContainer)
    where
  acts := clusterActions prim
  key := Operation.key
  prog := txs
  indep := clusterActions_indep prim

/-- States of the abstract protocol. -/
abbrev Abstract (ι : Type*) : Type _ :=
  State ι KeyType (NodeID → ThreadSafeKVStore) Operation (Operation × Option ValueContainer)

/-- What an outside observer sees of an event. -/
def observed : ι × CallEvent → Option (Event ι)
  | (i, .own (.called _)) => some (.called i)
  | (i, .own (.returned _)) => some (.returned i)
  | _ => none

/-- The exchange of a call with the primaries of its keys. -/
def exchange (cfg : ClusterConfig ι) (w : Cluster ι) (i : ι) : Exchange where
  traffic := w.opTraffic i
  pending q := (w.nodes (cfg.origin i)).opPending (w.txns i).txId q = true
  result := (w.nodes (cfg.origin i)).remoteResult (w.txns i).txId

/-- An operation with the node that is to execute it. -/
def placed (prim : KeyType → NodeID) (op : Operation) : NodeID × Operation := (prim op.key, op)

/-- **The simulation relation.** -/
structure Rel (cfg : ClusterConfig ι) (prim : KeyType → NodeID) (txs : ι → Transaction)
    (w : Cluster ι) (a : Abstract ι) : Prop extends GrantTraffic cfg prim w where
  tx : ∀ i, (w.txns i).tx = txs i
  store : ∀ p, (w.nodes p).store = a.store p
  /-- Who owns a key in the abstract protocol is named by the table of its primary. -/
  owned : ∀ k i, a.owner k = some i → w.Called i ∧ w.Uses i k ∧
    w.ownerAt (prim k) k = some (w.txns i).txId ∧
    (a.status i = .growing ∨ a.status i = .running)
  /-- The other way round while the call is still asking for keys. -/
  growing : ∀ i k, a.status i = .growing → w.Uses i k →
    w.ownerAt (prim k) k = some (w.txns i).txId → a.owner k = some i
  thread : ∀ i, MatchesAt prim (cfg.origin i) (w.txns i) (w.exchange cfg i) (a.status i)
    (fun k => a.owner k = some i) (a.ran i) (a.obs i)
  hist : a.hist = w.hist.filterMap observed
  executed : ∀ i, executed cfg w i = (a.ran i).map (placed prim)
  locked : ∀ i, (i, .own .locked) ∈ w.hist ↔ (a.status i).locked = true
  aborted : ∀ i, (i, .own .aborted) ∈ w.hist → a.status i = .aborting ∨ a.status i = .done false
  returned : ∀ i results, (i, .own (.returned results)) ∈ w.hist →
    (w.txns i).pc = .returned results

section Frame

variable {cfg : ClusterConfig ι} {prim : KeyType → NodeID} {txs : ι → Transaction}
  {w w' : Cluster ι} {a a' : Abstract ι} {l : ClusterLabel ι}

/-- A client that grows is a call that has been made. -/
theorem Rel.called_of_growing (h : Rel cfg prim txs w a) {i : ι} (hi : a.status i = .growing) :
    w.Called i := by
  intro hidle
  have hm := h.thread i
  simp only [MatchesAt, hidle, hi] at hm
  exact absurd hm.1 (by simp)

/-- A client that owns a key is not a call on its way out. -/
theorem Rel.not_leaving (h : Rel cfg prim txs w a) {k : KeyType} {i : ι}
    (hk : a.owner k = some i) : (w.txns i).pc.leaving = false := by
  obtain ⟨-, -, -, hst⟩ := h.owned k i hk
  by_contra hleave
  rw [Bool.not_eq_false] at hleave
  obtain ⟨hg, hr⟩ := (h.thread i).leaving hleave
  exact hst.elim hg hr

/-- **No step takes a key from a client that needs it.** -/
theorem Rel.owner_kept (h : Rel cfg prim txs w a) (hs : Stepped cfg w l w') {k : KeyType} {j : ι}
    (hk : a.owner k = some j) : w'.ownerAt (prim k) k = some (w'.txns j).txId := by
  obtain ⟨hcalled, huses, hown, -⟩ := h.owned k j hk
  exact h.toLockTraffic.owner_kept hs hcalled huses (h.not_leaving hk) hown

/-- What a step of the cluster has to establish, where it concerns call `i`: the rest of the
relation is about others, whom the step leaves alone. -/
theorem Rel.of_step (h : Rel cfg prim txs w a) (hs : Stepped cfg w l w') (i : ι)
    (hlock : GrantTraffic cfg prim w') (events : List CallEvent)
    (hothers : ∀ j, j ≠ i → w'.txns j = w.txns j ∧
      (∀ ab, (w'.opTraffic j ab).Sublist (w.opTraffic j ab)) ∧
      (w.Called j → (w.exchange cfg j).Kept (w'.exchange cfg j)))
    (hnew : ∀ p k t, w'.ownerAt p k = some t → w.ownerAt p k = some t ∨
      (t = (w.txns i).txId ∧ w.Called i ∧ Touches cfg prim w i p))
    (hevents : w'.hist = w.hist ++ events.map (Prod.mk i))
    (hstore : ∀ p, (w'.nodes p).store = a'.store p)
    (howner : ∀ k j, a'.owner k = some j → a.owner k = some j ∨
      (j = i ∧ w.Called i ∧ w.Uses i k ∧ w'.ownerAt (prim k) k = some (w'.txns i).txId))
    (hneeds : ∀ k, a'.owner k = some i → a'.status i = .growing ∨ a'.status i = .running)
    (hgrow : ∀ k, a'.status i = .growing → w.Uses i k →
      w'.ownerAt (prim k) k = some (w'.txns i).txId → a'.owner k = some i)
    (hframe : ∀ j, j ≠ i → a'.status j = a.status j ∧ a'.ran j = a.ran j ∧ a'.obs j = a.obs j ∧
      ∀ k, a.owner k = some j → a'.owner k = some j)
    (hmatch : MatchesAt prim (cfg.origin i) (w'.txns i) (w'.exchange cfg i) (a'.status i)
      (fun k => a'.owner k = some i) (a'.ran i) (a'.obs i))
    (hhist : a'.hist = a.hist ++ (events.map (Prod.mk i)).filterMap observed)
    (hran : (a'.ran i).map (placed prim)
      = (a.ran i).map (placed prim) ++ events.filterMap (CallEvent.executed (cfg.origin i)))
    (hlocked : (a'.status i).locked = true ↔
      .own .locked ∈ events ∨ (a.status i).locked = true)
    (habort : .own .aborted ∈ events ∨ a.status i = .aborting ∨ a.status i = .done false →
      a'.status i = .aborting ∨ a'.status i = .done false)
    (hret : ∀ results, .own (.returned results) ∈ events ∨ (w.txns i).pc = .returned results →
      (w'.txns i).pc = .returned results) :
    Rel cfg prim txs w' a' where
  toGrantTraffic := hlock
  tx j := (hs.tx_eq j).trans (h.tx j)
  store := hstore
  owned k j hk := by
    have hcalled : w.Called j ∧ w.Uses j k := by
      rcases howner k j hk with hold | ⟨rfl, hi, huses, -⟩
      · exact ⟨(h.owned k j hold).1, (h.owned k j hold).2.1⟩
      · exact ⟨hi, huses⟩
    refine ⟨(hs.called hcalled.1).1, (hs.uses_iff j k).mpr hcalled.2, ?_, ?_⟩
    · rcases howner k j hk with hold | ⟨rfl, -, -, hown⟩
      · exact h.owner_kept hs hold
      · exact hown
    · rcases eq_or_ne j i with rfl | hji
      · exact hneeds k hk
      · rcases howner k j hk with hold | ⟨hji', -⟩
        · rw [(hframe j hji).1]
          exact (h.owned k j hold).2.2.2
        · exact absurd hji' hji
  growing j k hj huses hown := by
    rw [hs.uses_iff] at huses
    rcases eq_or_ne j i with rfl | hji
    · exact hgrow k hj huses hown
    · obtain ⟨hst, -, -, hkeep⟩ := hframe j hji
      rw [hst] at hj
      rw [(hothers j hji).1] at hown
      refine hkeep k (h.growing j k hj huses ?_)
      rcases hnew _ _ _ hown with hold | ⟨hid, hi, htouch⟩
      · exact hold
      · -- the new owner would be a namesake at the primary of the key
        exact absurd (h.distinct j i _ (h.called_of_growing hj) hi hid huses.touches htouch) hji
  thread j := by
    rcases eq_or_ne j i with rfl | hji
    · exact hmatch
    · obtain ⟨hst, hran', hobs, hkeep⟩ := hframe j hji
      obtain ⟨hthread, htraffic, hkept⟩ := hothers j hji
      rw [hthread, hst, hran', hobs]
      by_cases hcalled : w.Called j
      · exact (h.thread j).mono (hkept hcalled) hkeep
      · exact (h.thread j).of_idle (not_not.mp hcalled) htraffic
  hist := by rw [hhist, h.hist, hevents, List.filterMap_append]
  executed j := by
    rw [Cluster.executed, hevents, eventsOf_append, List.filterMap_append]
    have hold := h.executed j
    rw [Cluster.executed] at hold
    rw [hold]
    rcases eq_or_ne j i with rfl | hji
    · rw [eventsOf_map_self, hran]
    · rw [eventsOf_map_of_ne _ hji, (hframe j hji).2.1]
      simp
  locked j := by
    rw [hevents, List.mem_append, h.locked]
    rcases eq_or_ne j i with rfl | hji
    · rw [hlocked]
      simp [or_comm]
    · rw [(hframe j hji).1]
      simp [hji.symm]
  aborted j hj := by
    rw [hevents, List.mem_append] at hj
    rcases eq_or_ne j i with rfl | hji
    · refine habort (hj.symm.imp (fun hmem => ?_) (h.aborted j))
      simpa using hmem
    · rw [(hframe j hji).1]
      exact h.aborted j (hj.resolve_right (by simp [hji.symm]))
  returned j results hj := by
    rw [hevents, List.mem_append] at hj
    rcases eq_or_ne j i with rfl | hji
    · refine hret results (hj.symm.imp (fun hmem => ?_) (h.returned j results))
      simpa using hmem
    · rw [(hothers j hji).1]
      exact h.returned j results (hj.resolve_right (by simp [hji.symm]))

end Frame

/-! ## 5. Steps of a call -/

/-- A step of a call in which none of the four things goes wrong. -/
structure OrderlyCall (cfg : ClusterConfig ι) (prim : KeyType → NodeID) (w : Cluster ι) (i : ι)
    (c : Choice) : Prop where
  /-- The id it takes is not that of a call it has a node in common with. -/
  fresh : FreshId cfg prim w (.txn i c)
  /-- When it leaves the loop that waits for remote locks, every primary that it has asked for a key
  has answered it `lock_granted`. -/
  granted : (w.nodes (cfg.origin i)).pendingLocks (w.txns i).txId = ∅ →
    (w.txns i).pc = .requesting [] ∨ ((w.txns i).pc = .waiting ∧ c.timeout = false) →
    ∀ q ∈ (w.nodes (cfg.origin i)).remotePairs (w.txns i).tx,
      .granted q.1 (cfg.origin i, (w.txns i).txId) q.2 ∈ w.locks
  /-- The `send` of an operation does not throw. -/
  sends : ∀ op rest results, (w.txns i).pc = .opSending op rest results → c.throws = false
  /-- The wait for an operation does not time out. -/
  waits : ∀ op rest results, (w.txns i).pc = .opWaiting op rest results → c.timeout = false

/-- **The condition on steps.**  It is about steps of calls only. -/
def Orderly (cfg : ClusterConfig ι) (prim : KeyType → NodeID) (w : Cluster ι) :
    ClusterLabel ι → Prop
  | .txn i c => OrderlyCall cfg prim w i c
  | _ => True

section Own

variable {cfg : ClusterConfig ι} {prim : KeyType → NodeID} {txs : ι → Transaction}
  {w : Cluster ι} {a a' : Abstract ι} {i : ι} {c : Choice} {r : TxnStep}

/-- What is pending stays pending, unless the wait for it times out. -/
theorem opPending_of_stepped {n : Node} {t : TxnThread} (h : TxnStepped n t c r)
    (hno : ∀ op rest results, t.pc ≠ .opWaiting op rest results) (t' : TransactionId)
    (q : NodeID × KeyType) (hq : n.opPending t' q = true) : r.node.opPending t' q = true := by
  cases h with
  | @opBegin op _ _ _ _ _ =>
    simp only [Node.opPending, Node.insertPendingOp, decide_eq_true_eq] at hq ⊢
    by_cases ht : t' = t.txId
    · subst ht
      simp [hq]
    · simpa [ht] using hq
  | opTimedOut hpc => exact absurd hpc (hno _ _ _)
  | _ => exact hq

/-- The own events of an orderly step are all there is to record. -/
theorem hist_afterTxn (hok : OrderlyCall cfg prim w i c) :
    (w.afterTxn cfg i c r).hist
      = w.hist ++ (r.event.toList.map CallEvent.own).map (Prod.mk i) := by
  have hlost : (w.txns i).lostEvent c = none := by
    unfold TxnThread.lostEvent
    split
    · rename_i op rest results hpc
      simp [hok.sends op rest results hpc]
    · rfl
  simp [afterTxn, hlost]

/-- What a step of a call has to establish. -/
theorem Rel.own (h : Rel cfg prim txs w a)
    (hprim : ∀ i k, (cfg.routing (cfg.origin i)).primary k = prim k)
    (hok : OrderlyCall cfg prim w i c)
    (hs : TxnStepped (w.nodes (cfg.origin i)) (w.txns i) c r)
    (hpend : ∀ t q, (w.nodes (cfg.origin i)).opPending t q = true → r.node.opPending t q = true)
    (hstore : ∀ p, ((w.afterTxn cfg i c r).nodes p).store = a'.store p)
    (howner : ∀ k j, a'.owner k = some j → a.owner k = some j ∨
      (j = i ∧ w.Called i ∧ w.Uses i k ∧
        (w.afterTxn cfg i c r).ownerAt (prim k) k = some r.thread.txId))
    (hneeds : ∀ k, a'.owner k = some i → a'.status i = .growing ∨ a'.status i = .running)
    (hgrow : ∀ k, a'.status i = .growing → w.Uses i k →
      (w.afterTxn cfg i c r).ownerAt (prim k) k = some r.thread.txId → a'.owner k = some i)
    (hframe : ∀ j, j ≠ i → a'.status j = a.status j ∧ a'.ran j = a.ran j ∧ a'.obs j = a.obs j ∧
      ∀ k, a.owner k = some j → a'.owner k = some j)
    (hmatch : MatchesAt prim (cfg.origin i) r.thread ((w.afterTxn cfg i c r).exchange cfg i)
      (a'.status i) (fun k => a'.owner k = some i) (a'.ran i) (a'.obs i))
    (hhist : a'.hist = a.hist ++ (r.event.bind fun e => observed (i, .own e)).toList)
    (hran : (a'.ran i).map (placed prim) = (a.ran i).map (placed prim) ++
      ((r.event.bind TxnEvent.ranLocally).map (Prod.mk (cfg.origin i))).toList)
    (hlocked : (a'.status i).locked = true ↔
      r.event = some .locked ∨ (a.status i).locked = true)
    (habort : r.event = some .aborted ∨ a.status i = .aborting ∨ a.status i = .done false →
      a'.status i = .aborting ∨ a'.status i = .done false)
    (hret : ∀ results, r.event = some (.returned results) → r.thread.pc = .returned results) :
    Rel cfg prim txs (w.afterTxn cfg i c r) a' := by
  have hstepped : Stepped cfg w (.txn i c) (w.afterTxn cfg i c r) := .txn hs
  refine h.of_step hstepped i (grantTraffic_step h.toGrantTraffic hprim hok.fresh hstepped)
    (r.event.toList.map .own) (fun j hji => ?_) (fun p k t ho => ?_) (hist_afterTxn hok) hstore
    (by simpa using howner) hneeds (by simpa using hgrow) hframe (by simpa using hmatch) ?_ ?_ ?_ ?_
    fun results hres => ?_
  · -- another call: its messages are not touched, and nothing of it stops being pending
    have htraffic : ∀ ab, (w.afterTxn cfg i c r).opTraffic j ab = w.opTraffic j ab :=
      opTraffic_afterTxn fun _ _ _ hij => absurd hij.symm hji
    refine ⟨afterTxn_txns_of_ne hji, fun ab => by rw [htraffic], fun _ => ⟨fun ab => ?_, ?_, ?_⟩⟩
    · show ((w.afterTxn cfg i c r).opTraffic j ab).Sublist (w.opTraffic j ab)
      rw [htraffic]
    · intro q hq
      simp only [exchange, afterTxn_txns_of_ne hji] at hq ⊢
      rcases eq_or_ne (cfg.origin j) (cfg.origin i) with ho | ho
      · rw [ho] at hq ⊢
        rw [afterTxn_nodes_self]
        exact hpend _ _ hq
      · rw [afterTxn_nodes_of_ne ho]
        exact hq
    · simp only [exchange, afterTxn_txns_of_ne hji]
      rcases eq_or_ne (cfg.origin j) (cfg.origin i) with ho | ho
      · rw [ho, afterTxn_nodes_self]
        funext k
        simp only [Node.remoteResult, hs.remoteResults_eq]
      · rw [afterTxn_nodes_of_ne ho]
  · rcases update_cases (P := fun n : Node => n.lockManager.owner k = some t) ho with
      ⟨rfl, hn⟩ | ⟨-, hold⟩
    · exact (hs.owner_id hn).imp_right fun e => ⟨e.1, e.2, touches_origin i⟩
    · exact .inl hold
  · rw [hhist]
    cases r.event with
    | none => rfl
    | some e => cases e <;> rfl
  · rw [hran]
    cases r.event with
    | none => rfl
    | some e => cases he : e.ranLocally <;> simp [CallEvent.executed, he]
  · rw [hlocked]
    simp
  · intro hab
    exact habort (by simpa using hab)
  · rw [afterTxn_txns_self]
    rcases hres with hmem | hpc
    · exact hret results (by simpa using hmem)
    · exact absurd hpc (hs.ne_returned results)

/-- The stores after a step that does not execute an operation. -/
theorem store_afterTxn (h : Rel cfg prim txs w a)
    (hstore : r.node.store = (w.nodes (cfg.origin i)).store) (p : NodeID) :
    ((w.afterTxn cfg i c r).nodes p).store = a.store p :=
  (proj_update (f := Node.store) hstore p).trans (h.store p)

/-- What a step of a call that moves no lock leaves of the owners. -/
theorem ownerAt_afterTxn
    (howner : ∀ k, r.node.lockManager.owner k = (w.nodes (cfg.origin i)).lockManager.owner k)
    (p : NodeID) (k : KeyType) : (w.afterTxn cfg i c r).ownerAt p k = w.ownerAt p k :=
  proj_update (f := fun n : Node => n.lockManager.owner k) (howner k) p

/-- A step that the abstract protocol answers with nothing. -/
theorem Rel.stutter (h : Rel cfg prim txs w a)
    (hprim : ∀ i k, (cfg.routing (cfg.origin i)).primary k = prim k)
    (hok : OrderlyCall cfg prim w i c)
    (hs : TxnStepped (w.nodes (cfg.origin i)) (w.txns i) c r)
    (hpend : ∀ t q, (w.nodes (cfg.origin i)).opPending t q = true → r.node.opPending t q = true)
    (hcalled : w.Called i) (hstore : r.node.store = (w.nodes (cfg.origin i)).store)
    (howner : a.status i = .growing → ∀ k,
      r.node.lockManager.owner k = (w.nodes (cfg.origin i)).lockManager.owner k)
    (hmatch : MatchesAt prim (cfg.origin i) r.thread ((w.afterTxn cfg i c r).exchange cfg i)
      (a.status i) (fun k => a.owner k = some i) (a.ran i) (a.obs i))
    (hseen : ∀ e ∈ r.event, observed (i, .own e) = none ∧ e.ranLocally = none ∧ e ≠ .locked ∧
      (e = .aborted → a.status i = .aborting) ∧ ∀ results, e ≠ .returned results) :
    Rel cfg prim txs (w.afterTxn cfg i c r) a := by
  have hid : r.thread.txId = (w.txns i).txId := (hs.id_of_called hcalled).1
  refine h.own hprim hok hs hpend (store_afterTxn h hstore) (fun k j hk => .inl hk)
    (fun k hk => (h.owned k i hk).2.2.2) (fun k hg huses hown => ?_)
    (fun j _ => ⟨rfl, rfl, rfl, fun k hk => hk⟩) hmatch ?_ ?_ ?_ (fun hab => ?_)
    fun results hres => ?_
  · rw [ownerAt_afterTxn (howner hg), hid] at hown
    exact h.growing i k hg huses hown
  · cases he : r.event with
    | none => simp
    | some e => simp [(hseen e he).1]
  · cases he : r.event with
    | none => simp
    | some e => simp [(hseen e he).2.1]
  · refine ⟨.inr, fun hor => hor.resolve_left fun he => ?_⟩
    exact (hseen _ he).2.2.1 rfl
  · rcases hab with he | hst
    · exact .inl ((hseen _ he).2.2.2.1 rfl)
    · exact hst
  · exact absurd rfl ((hseen _ hres).2.2.2.2 results)

/-- A step with which the call is on its way out: the client gives everything back. -/
theorem Rel.leave (h : Rel cfg prim txs w a)
    (hprim : ∀ i k, (cfg.routing (cfg.origin i)).primary k = prim k)
    (hok : OrderlyCall cfg prim w i c)
    (hs : TxnStepped (w.nodes (cfg.origin i)) (w.txns i) c r)
    (hpend : ∀ t q, (w.nodes (cfg.origin i)).opPending t q = true → r.node.opPending t q = true)
    (hstore : r.node.store = (w.nodes (cfg.origin i)).store) {x : Status}
    (hx : x ≠ .growing ∧ x ≠ .running) (hlocked : x.locked = (a.status i).locked)
    (hmatch : ∀ owns, MatchesAt prim (cfg.origin i) r.thread
      ((w.afterTxn cfg i c r).exchange cfg i) x owns (a.ran i) (a.obs i))
    (hseen : ∀ e ∈ r.event, observed (i, .own e) = none ∧ e.ranLocally = none ∧ e ≠ .locked ∧
      ∀ results, e ≠ .returned results)
    (habort : r.event = some .aborted ∨ a.status i = .aborting ∨ a.status i = .done false →
      x = .aborting) :
    Rel cfg prim txs (w.afterTxn cfg i c r)
      ((a.setStatus i x).giveBack i ((txs i).map Operation.key)) := by
  have hst : ((a.setStatus i x).giveBack i ((txs i).map Operation.key)).status i = x :=
    setStatus_self a i x
  -- every key of the client is one of its program, so all are given back
  have hnone : ∀ k, ((a.setStatus i x).giveBack i ((txs i).map Operation.key)).owner k
      ≠ some i := by
    intro k hk
    obtain ⟨hold, hnot⟩ := owner_of_giveBack hk
    obtain ⟨op, hop, rfl⟩ := (h.owned k i hold).2.1
    rw [h.tx] at hop
    exact hnot rfl (List.mem_map_of_mem hop)
  refine h.own hprim hok hs hpend (fun p => store_afterTxn h hstore p)
    (fun k j hk => .inl (owner_of_giveBack hk).1)
    (fun k hk => absurd hk (hnone k)) (fun k hg => absurd (hst.symm.trans hg) hx.1)
    (fun j hj => ⟨setStatus_of_ne hj x, rfl, rfl, fun k hk => giveBack_owner_of_ne _ hj hk⟩)
    ?_ ?_ ?_ ?_ (fun hab => ?_) fun results hres => ?_
  · rw [hst]
    exact hmatch _
  · cases he : r.event with
    | none => simp [State.giveBack, State.setStatus]
    | some e => simp [State.giveBack, State.setStatus, (hseen e he).1]
  · cases he : r.event with
    | none => simp [State.giveBack, State.setStatus]
    | some e => simp [State.giveBack, State.setStatus, (hseen e he).2.1]
  · rw [hst, hlocked]
    exact ⟨.inr, fun hor => hor.resolve_left fun he => (hseen _ he).2.2.1 rfl⟩
  · rw [hst]
    exact .inl (habort hab)
  · exact absurd rfl ((hseen _ hres).2.2.2 results)

/-- A step that the abstract protocol answers with a change of status only. -/
theorem Rel.restatus (h : Rel cfg prim txs w a)
    (hprim : ∀ i k, (cfg.routing (cfg.origin i)).primary k = prim k)
    (hok : OrderlyCall cfg prim w i c)
    (hs : TxnStepped (w.nodes (cfg.origin i)) (w.txns i) c r)
    (hpend : ∀ t q, (w.nodes (cfg.origin i)).opPending t q = true → r.node.opPending t q = true)
    (hstore : r.node.store = (w.nodes (cfg.origin i)).store) {x : Status}
    {hist : List (Event ι)} (hx : x ≠ .growing)
    (hneeds : x = .running ∨ (a.status i ≠ .growing ∧ a.status i ≠ .running))
    (hmatch : MatchesAt prim (cfg.origin i) r.thread ((w.afterTxn cfg i c r).exchange cfg i)
      x (fun k => a.owner k = some i) (a.ran i) (a.obs i))
    (hhist : hist = a.hist ++ (r.event.bind fun e => observed (i, .own e)).toList)
    (hran : r.event.bind TxnEvent.ranLocally = none)
    (hlocked : x.locked = true ↔ r.event = some .locked ∨ (a.status i).locked = true)
    (habort : r.event = some .aborted ∨ a.status i = .aborting ∨ a.status i = .done false →
      x = .aborting ∨ x = .done false)
    (hret : ∀ results, r.event = some (.returned results) → r.thread.pc = .returned results) :
    Rel cfg prim txs (w.afterTxn cfg i c r) { a.setStatus i x with hist := hist } := by
  have hst : (a.setStatus i x).status i = x := setStatus_self a i x
  refine h.own hprim hok hs hpend (fun p => store_afterTxn h hstore p) (fun k j hk => .inl hk)
    (fun k hk => ?_) (fun k hg => absurd (hst.symm.trans hg) hx)
    (fun j hj => ⟨setStatus_of_ne hj x, rfl, rfl, fun k hk => hk⟩) ?_ hhist ?_ ?_ (fun hab => ?_)
    hret
  · rcases hneeds with hrun | ⟨hg, hr⟩
    · exact .inr (hst.trans hrun)
    · exact ((h.owned k i hk).2.2.2.elim hg hr).elim
  · show MatchesAt prim _ _ _ ((a.setStatus i x).status i) _ _ _
    rw [hst]
    exact hmatch
  · simp [hran, State.setStatus]
  · show ((a.setStatus i x).status i).locked = true ↔ _
    rw [hst]
    exact hlocked
  · show (a.setStatus i x).status i = _ ∨ (a.setStatus i x).status i = _
    rw [hst]
    exact habort hab

/-- The exchange of the call itself, when it sends no operation and no wait for one times out. -/
theorem exchange_afterTxn (hs : TxnStepped (w.nodes (cfg.origin i)) (w.txns i) c r)
    (hcalled : w.Called i)
    (hpend : ∀ t q, (w.nodes (cfg.origin i)).opPending t q = true → r.node.opPending t q = true)
    (hsent : ∀ dest msg, r.sent = some (dest, msg) → msg.isOp = false) :
    (w.exchange cfg i).Kept ((w.afterTxn cfg i c r).exchange cfg i) := by
  have hid : r.thread.txId = (w.txns i).txId := (hs.id_of_called hcalled).1
  refine ⟨fun ab => ?_, fun q hq => ?_, ?_⟩
  · show ((w.afterTxn cfg i c r).opTraffic i ab).Sublist (w.opTraffic i ab)
    rw [opTraffic_afterTxn fun dest msg hmsg _ => hsent dest msg hmsg]
  · simp only [exchange, afterTxn_txns_self, afterTxn_nodes_self, hid] at hq ⊢
    exact hpend _ _ hq
  · simp only [exchange, afterTxn_txns_self, afterTxn_nodes_self, hid]
    funext k
    simp only [Node.remoteResult, hs.remoteResults_eq]

/-- **A call that is being made.** -/
theorem Rel.call (h : Rel cfg prim txs w a)
    (hprim : ∀ i k, (cfg.routing (cfg.origin i)).primary k = prim k)
    (hok : OrderlyCall cfg prim w i c)
    (hs : TxnStepped (w.nodes (cfg.origin i)) (w.txns i) c r) (hidle : (w.txns i).pc = .idle) :
    ∃ a', Relation.ReflTransGen (Step (setup prim txs)) a a' ∧
      Rel cfg prim txs (w.afterTxn cfg i c r) a' := by
  have hm := h.thread i
  simp only [MatchesAt, hidle] at hm
  obtain ⟨hst, hran, hobs, hsilent⟩ := hm
  have hroute : ∀ k, (w.nodes (cfg.origin i)).primary k = prim k := fun k => by
    rw [Node.primary, h.routing, hprim]
  have hlocal : (w.nodes (cfg.origin i)).routing.localNodeId = cfg.origin i := by
    rw [h.routing, cfg.localNodeId_eq]
  refine ⟨_, .single (.call i hst), ?_⟩
  have hpend := opPending_of_stepped hs fun op rest results => by simp [hidle]
  have hs' := hs
  cases hs with
  | @call keys _ henum =>
    refine h.own hprim hok hs' hpend (fun p => store_afterTxn h rfl p) (fun k j hk => .inl hk)
      (fun k _ => .inl (setStatus_self a i _)) (fun k _ huses hown => ?_)
      (fun j hj => ⟨setStatus_of_ne hj _, rfl, rfl, fun k hk => hk⟩) ?_ rfl
      (by simp [TxnEvent.ranLocally, State.setStatus]) ?_ ?_ (by simp)
    · -- an entry with the new id would be that of a namesake at the primary of the key
      rw [ownerAt_afterTxn fun k => rfl] at hown
      obtain ⟨-, j, hj, hid, hjuses⟩ := h.owner _ _ _ hown
      exact absurd hjuses.touches (hok.fresh hidle j hj hid (prim k) huses.touches)
    · show MatchesAt prim _ _ _ ((a.setStatus i .growing).status i) _ (a.ran i) (a.obs i)
      rw [setStatus_self, hran, hobs]
      refine ⟨rfl, fun op hop hp hnot => ?_, rfl, rfl, fun ab => ?_⟩
      · refine absurd ((henum.mem_iff op.key).mpr ?_) hnot
        simp only [Node.localKeys, Finset.mem_filter, List.mem_toFinset, hroute, hlocal]
        exact ⟨List.mem_map_of_mem hop, hp⟩
      · exact (opTraffic_afterTxn (by simp) ab).trans (hsilent ab)
    · show ((a.setStatus i .growing).status i).locked = true ↔ _
      rw [setStatus_self, hst]
      simp [Status.locked]
    · rw [hst]
      simp
  | _ => simp_all

/-- The primary of a remote key is asked for it. -/
theorem pair_mem_remotePairs {n : Node} {tx : Transaction} {op : Operation} (hop : op ∈ tx)
    (hne : n.primary op.key ≠ n.routing.localNodeId) :
    (n.primary op.key, op.key) ∈ n.remotePairs tx := by
  simp only [Node.remotePairs, Finset.mem_image, Finset.mem_filter, List.mem_toFinset]
  exact ⟨op.key, ⟨List.mem_map_of_mem hop, hne⟩, rfl⟩

/-- **The lock point.**  The client owns the local keys, and the remote ones because their primaries
have granted them: the tables still name it. -/
theorem Rel.owns_all (h : Rel cfg prim txs w a)
    (hprim : ∀ i k, (cfg.routing (cfg.origin i)).primary k = prim k) (hst : a.status i = .growing)
    (hlocals : ∀ op ∈ (w.txns i).tx, prim op.key = cfg.origin i → a.owner op.key = some i)
    (hstays : (w.txns i).pc.leaving = false)
    (hremote : ∀ q ∈ (w.nodes (cfg.origin i)).remotePairs (w.txns i).tx,
      .granted q.1 (cfg.origin i, (w.txns i).txId) q.2 ∈ w.locks) :
    ∀ op ∈ (setup prim txs).prog i, a.owner ((setup prim txs).key op) = some i := by
  intro op hop
  have hop' : op ∈ (w.txns i).tx := by
    rw [h.tx]
    exact hop
  have hroute : (w.nodes (cfg.origin i)).primary op.key = prim op.key := by
    rw [Node.primary, h.routing, hprim]
  have hlocal : (w.nodes (cfg.origin i)).routing.localNodeId = cfg.origin i := by
    rw [h.routing, cfg.localNodeId_eq]
  by_cases hp : prim op.key = cfg.origin i
  · exact hlocals op hop' hp
  · have hmem := pair_mem_remotePairs (n := w.nodes (cfg.origin i)) hop'
      (by rw [hroute, hlocal]; exact hp)
    rw [hroute] at hmem
    exact h.growing i op.key hst ⟨op, hop', rfl⟩
      (h.owner_of_granted (h.called_of_growing hst) hstays (hremote _ hmem))

/-- **The loop that waits for a remote operation.** -/
theorem Rel.awaiting (h : Rel cfg prim txs w a)
    (hprim : ∀ i k, (cfg.routing (cfg.origin i)).primary k = prim k)
    (hok : OrderlyCall cfg prim w i c) {op : Operation} {rest : List Operation}
    {results : Results} (hstep : stepTxn (w.nodes (cfg.origin i)) (w.txns i) c = some r)
    (hpc : (w.txns i).pc = .opChecking op rest results ∨
      (w.txns i).pc = .opWaiting op rest results) :
    Rel cfg prim txs (w.afterTxn cfg i c r) a := by
  have hs := stepTxn_spec hstep
  have hcalled : w.Called i := by rcases hpc with hpc | hpc <;> simp [Called, hpc]
  have hawaits : Awaits prim (cfg.origin i) (w.txns i).tx (w.txns i).txId (w.exchange cfg i) op
      rest results (a.status i) (a.ran i) (a.obs i) := by
    have hm := h.thread i
    rcases hpc with hpc | hpc <;> simpa only [MatchesAt, hpc] using hm
  have hroute : (w.nodes (cfg.origin i)).primary op.key = prim op.key := by
    rw [Node.primary, h.routing, hprim]
  rcases stepTxn_awaiting hstep hpc with ⟨-, rfl⟩ | ⟨hdone, rfl⟩ | ⟨hwait, htime, -⟩
  · have hkept := exchange_afterTxn hs hcalled (fun _ _ hq => hq) (by simp)
    exact h.stutter hprim hok hs (fun _ _ hq => hq) hcalled rfl (fun _ k => rfl)
      (hawaits.kept hkept) (by simp)
  · -- no longer pending: the response is there
    have hkept := exchange_afterTxn hs hcalled (fun _ _ hq => hq) (by simp)
    refine h.stutter hprim hok hs (fun _ _ hq => hq) hcalled rfl (fun _ k => rfl)
      ⟨hawaits.running, hawaits.remote, ?_⟩ (by simp)
    rw [hroute] at hdone
    have hnot : ¬ (w.exchange cfg i).pending (prim op.key, op.key) := by
      simp [exchange, hdone]
    rcases hawaits.stage with ⟨hasked, -⟩ | ⟨result, hrun, hserved | hans⟩
    · exact absurd hasked.pending hnot
    · exact absurd hserved.pending hnot
    · exact ⟨result, hrun, hans.kept hkept⟩
  · exact absurd htime (by simp [hok.waits op rest results hwait])

/-- A client that gives up gives everything back at once. -/
theorem abort_reached (prim : KeyType → NodeID) (txs : ι → Transaction)
    (hst : a.status i = .growing) :
    Relation.ReflTransGen (Step (setup prim txs)) a
      ((a.setStatus i .aborting).giveBack i ((txs i).map Operation.key)) :=
  (Relation.ReflTransGen.single (.abort i hst)).trans
    (giveBack_reached _ (.inr (setStatus_self a i _)) _)

/-- ... and so does one that has run its program. -/
theorem finish_reached (hst : a.status i = .running) (hran : a.ran i = (setup prim txs).prog i) :
    Relation.ReflTransGen (Step (setup prim txs)) a
      ((a.setStatus i .shrinking).giveBack i ((txs i).map Operation.key)) :=
  (Relation.ReflTransGen.single (.finish i hst hran)).trans
    (giveBack_reached _ (.inl (setStatus_self a i _)) _)

/-- **Every step of a call is matched by steps of its client.** -/
theorem Rel.txn (h : Rel cfg prim txs w a)
    (hprim : ∀ i k, (cfg.routing (cfg.origin i)).primary k = prim k)
    (hok : OrderlyCall cfg prim w i c)
    (hstep : stepTxn (w.nodes (cfg.origin i)) (w.txns i) c = some r) :
    ∃ a', Relation.ReflTransGen (Step (setup prim txs)) a a' ∧
      Rel cfg prim txs (w.afterTxn cfg i c r) a' := by
  by_cases hidle : (w.txns i).pc = .idle
  · exact h.call hprim hok (stepTxn_spec hstep) hidle
  by_cases hwait : ∃ op rest results, (w.txns i).pc = .opChecking op rest results ∨
      (w.txns i).pc = .opWaiting op rest results
  · obtain ⟨op, rest, results, hpc⟩ := hwait
    exact ⟨a, .refl, h.awaiting hprim hok hstep hpc⟩
  have hs := stepTxn_spec hstep
  have hm := h.thread i
  unfold MatchesAt at hm
  have hroute : ∀ k, (w.nodes (cfg.origin i)).primary k = prim k := fun k => by
    rw [Node.primary, h.routing, hprim]
  have hlocal : (w.nodes (cfg.origin i)).routing.localNodeId = cfg.origin i := by
    rw [h.routing, cfg.localNodeId_eq]
  have hpend := opPending_of_stepped hs
    fun op rest results hpc => hwait ⟨op, rest, results, .inr hpc⟩
  have hkept := exchange_afterTxn hs hidle hpend
  have hs' := hs
  cases hs with
  | call hpc _ => exact absurd hpc hidle
  | poll hpc hacq =>
    simp only [hpc] at hm
    refine ⟨a, .refl, h.stutter hprim hok hs' hpend hidle rfl
      (fun _ => hacq.owner_unchanged (by simp)) ?_ (by simp)⟩
    exact ⟨hm.1, hm.2.1, hm.2.2.1, hm.2.2.2.1, hm.2.2.2.2.kept (hkept (by simp))⟩
  | @acquired key todo stage lm hpc hacq =>
    simp only [hpc] at hm
    obtain ⟨hst, howns, hran, hobs, hsilent⟩ := hm
    have hsilent' := hsilent.kept (hkept (by simp))
    have hloc := h.located i
    simp only [TxnThread.Located, hpc] at hloc
    obtain ⟨hkey, huses⟩ := hloc key List.mem_cons_self
    have hseen : ∀ e ∈ (some (TxnEvent.granted key)), observed (i, .own e) = none ∧
        e.ranLocally = none ∧ e ≠ .locked ∧ (e = .aborted → a.status i = .aborting) ∧
        ∀ results, e ≠ .returned results := by
      simp [observed, TxnEvent.ranLocally]
    cases hacq with
    | take _ hnone =>
      have hfree : a.owner key = none := by
        cases ho : a.owner key with
        | none => rfl
        | some j =>
          have hown := (h.owned key j ho).2.2.1
          rw [ownerAt, hkey, hnone] at hown
          exact absurd hown (by simp)
      refine ⟨_, .single (.acquire i key hst hfree), ?_⟩
      have hself : (a.setOwner key (some i)).owner key = some i := Function.update_self ..
      have hother : ∀ k, k ≠ key → (a.setOwner key (some i)).owner k = a.owner k := fun k hk =>
        Function.update_of_ne hk ..
      refine h.own hprim hok hs' hpend (fun p => store_afterTxn h rfl p) (fun k j hk => ?_)
        (fun k _ => .inl hst) (fun k _ huses' hown => ?_)
        (fun j hj => ⟨rfl, rfl, rfl, fun k hk => ?_⟩) ?_ ?_ ?_ ?_ ?_ (by simp)
      · rcases eq_or_ne k key with rfl | hne
        · rw [hself, Option.some.injEq] at hk
          subst hk
          refine .inr ⟨rfl, hidle, huses, ?_⟩
          rw [ownerAt, hkey, afterTxn_nodes_self]
          simp [TxnThread.goto]
        · rw [hother k hne] at hk
          exact .inl hk
      · rcases eq_or_ne k key with rfl | hne
        · exact hself
        · rw [hother k hne]
          refine h.growing i k hst huses' ?_
          rcases eq_or_ne (prim k) (cfg.origin i) with hp | hp
          · rw [ownerAt, hp, afterTxn_nodes_self] at hown
            rw [ownerAt, hp]
            simpa [hne, TxnThread.goto] using hown
          · rw [ownerAt, afterTxn_nodes_of_ne hp] at hown
            exact hown
      · rcases eq_or_ne k key with rfl | hne
        · rw [hfree] at hk
          exact absurd hk (by simp)
        · rw [hother k hne]
          exact hk
      · refine ⟨hst, fun op hop hp hnot => ?_, hran, hobs, hsilent'⟩
        rcases eq_or_ne op.key key with hk | hk
        · rw [hk]
          exact hself
        · exact (hother _ hk).trans (howns op hop hp (by simp [hk, hnot]))
      · simp [State.setOwner, observed]
      · simp [State.setOwner, TxnEvent.ranLocally]
      · simp [State.setOwner]
      · simp [State.setOwner]
    | reenter hself =>
      have hown : a.owner key = some i := by
        refine h.growing i key hst huses ?_
        rw [ownerAt, hkey]
        exact hself
      refine ⟨a, .refl, h.stutter hprim hok hs' hpend hidle rfl (fun _ k => rfl)
        ⟨hst, fun op hop hp hnot => ?_, hran, hobs, hsilent'⟩ hseen⟩
      rcases eq_or_ne op.key key with hk | hk
      · rw [hk]
        exact hown
      · exact howns op hop hp (by simp [hk, hnot])
  | refused hpc hacq =>
    simp only [hpc] at hm
    refine ⟨_, abort_reached prim txs hm.1, ?_⟩
    exact h.leave hprim hok hs' hpend rfl (by simp) (by simp [hm.1, Status.locked])
      (fun _ => ⟨rfl, hm.2.2.2.2.kept (hkept (by simp))⟩)
      (by simp [observed, TxnEvent.ranLocally]) (fun _ => rfl)
  | lockedLocal hpc hrem =>
    simp only [hpc] at hm
    have hall := h.owns_all hprim hm.1 (fun op hop hp => hm.2.1 op hop hp (by simp))
      (by simp [hpc, Pc.leaving]) (by simp [hrem])
    refine ⟨_, .single (.lock i hm.1 hall), ?_⟩
    refine h.restatus hprim hok hs' hpend rfl (by simp) (.inl rfl)
      ⟨rfl, ?_, ?_, hm.2.2.2.2.kept (hkept (by simp))⟩ (by simp [observed]) rfl
      (by simp [Status.locked]) (by simp [hm.1]) (by simp)
    · simp [hm.2.2.1, TxnThread.goto]
    · simp [hm.2.2.2.1, shown]
  | beginRemote hpc _ _ _ =>
    simp only [hpc] at hm
    refine ⟨a, .refl, h.stutter hprim hok hs' hpend hidle rfl (fun _ k => rfl) ?_ (by simp)⟩
    exact ⟨hm.1, fun op hop hp => hm.2.1 op hop hp (by simp), hm.2.2.1, hm.2.2.2.1,
      hm.2.2.2.2.kept (hkept (by simp))⟩
  | aborting hpc hrel =>
    simp only [hpc] at hm
    refine ⟨a, .refl, h.stutter hprim hok hs' hpend hidle rfl (by simp [hm.1])
      ⟨hm.1, hm.2.kept (hkept (by simp))⟩ ?_⟩
    cases hrel <;> simp [ReleaseAllStage.event, observed, TxnEvent.ranLocally]
  | aborted hpc hrel =>
    simp only [hpc] at hm
    refine ⟨_, .single (.return i false hm.1), ?_⟩
    exact h.restatus hprim hok hs' hpend rfl (by simp) (.inr (by simp [hm.1]))
      ⟨.inr ⟨rfl, rfl⟩, hm.2.kept (hkept (by simp))⟩ rfl rfl
      (by simp [hm.1, Status.locked]) (fun _ => .inr rfl) (by simp [TxnThread.goto])
  | request hpc _ =>
    simp only [hpc] at hm
    have hkept' := hkept (by simp [Message.isOp])
    refine ⟨a, .refl, h.stutter hprim hok hs' hpend hidle rfl (fun _ k => rfl) ?_ (by simp)⟩
    exact ⟨hm.1, hm.2.1, hm.2.2.1, hm.2.2.2.1, hm.2.2.2.2.kept hkept'⟩
  | requestThrew hpc _ =>
    simp only [hpc] at hm
    refine ⟨_, abort_reached prim txs hm.1, ?_⟩
    exact h.leave hprim hok hs' hpend rfl (by simp) (by simp [hm.1, Status.locked])
      (fun _ => ⟨.inl rfl, hm.2.2.2.2.kept (hkept (by simp))⟩)
      (by simp [observed, TxnEvent.ranLocally]) (fun _ => rfl)
  | requestedNothing hpc hempty =>
    simp only [hpc] at hm
    have hall := h.owns_all hprim hm.1 hm.2.1 (by simp [hpc, Pc.leaving])
      (hok.granted hempty (.inl hpc))
    refine ⟨_, .single (.lock i hm.1 hall), ?_⟩
    refine h.restatus hprim hok hs' hpend rfl (by simp) (.inl rfl)
      ⟨rfl, ?_, ?_, hm.2.2.2.2.kept (hkept (by simp))⟩ (by simp [observed]) rfl
      (by simp [Status.locked]) (by simp [hm.1]) (by simp)
    · simp [hm.2.2.1, TxnThread.goto]
    · simp [hm.2.2.2.1, shown]
  | requested hpc _ =>
    simp only [hpc] at hm
    refine ⟨a, .refl, h.stutter hprim hok hs' hpend hidle rfl (fun _ k => rfl) ?_ (by simp)⟩
    exact ⟨hm.1, hm.2.1, hm.2.2.1, hm.2.2.2.1, hm.2.2.2.2.kept (hkept (by simp))⟩
  | timedOut hpc _ _ _ =>
    simp only [hpc] at hm
    refine ⟨_, abort_reached prim txs hm.1, ?_⟩
    exact h.leave hprim hok hs' hpend rfl (by simp) (by simp [hm.1, Status.locked])
      (fun _ => ⟨rfl, hm.2.2.2.2.kept (hkept (by simp))⟩) (by simp) (fun _ => rfl)
  | woken hpc _ htime hempty =>
    simp only [hpc] at hm
    have hall := h.owns_all hprim hm.1 hm.2.1 (by simp [hpc, Pc.leaving])
      (hok.granted hempty (.inr ⟨hpc, htime⟩))
    refine ⟨_, .single (.lock i hm.1 hall), ?_⟩
    refine h.restatus hprim hok hs' hpend rfl (by simp) (.inl rfl)
      ⟨rfl, ?_, ?_, hm.2.2.2.2.kept (hkept (by simp))⟩ (by simp [observed]) rfl
      (by simp [Status.locked]) (by simp [hm.1]) (by simp)
    · simp [hm.2.2.1, TxnThread.goto]
    · simp [hm.2.2.2.1, shown]
  | sleptOn hpc _ _ _ =>
    refine ⟨a, .refl, h.stutter hprim hok hs' hpend hidle rfl (fun _ k => rfl) ?_ (by simp)⟩
    exact (h.thread i).mono (hkept (by simp)) fun k hk => hk
  | timeoutRelease hpc _ =>
    simp only [hpc] at hm
    have hkept' := hkept (by simp [Message.isOp])
    exact ⟨a, .refl, h.stutter hprim hok hs' hpend hidle rfl (fun _ k => rfl)
      ⟨hm.1, hm.2.kept hkept'⟩ (by simp)⟩
  | timeoutThrew hpc _ =>
    simp only [hpc] at hm
    exact ⟨a, .refl, h.stutter hprim hok hs' hpend hidle rfl (fun _ k => rfl)
      ⟨.inl hm.1, hm.2.kept (hkept (by simp))⟩ (by simp [observed, TxnEvent.ranLocally])⟩
  | timeoutDone hpc =>
    simp only [hpc] at hm
    exact ⟨a, .refl, h.stutter hprim hok hs' hpend hidle rfl (fun _ k => rfl)
      ⟨hm.1, hm.2.kept (hkept (by simp))⟩ (by simp [observed, TxnEvent.ranLocally, hm.1])⟩
  | @ranLocal op rest results hpc hl =>
    simp only [hpc] at hm
    obtain ⟨hst, htx, hres, hsilent⟩ := hm
    have hp : prim op.key = cfg.origin i := by rw [← hroute, hl, hlocal]
    have hprog : (setup prim txs).prog i = a.ran i ++ op :: rest := (h.tx i).symm.trans htx
    have hstore := h.store (cfg.origin i)
    refine ⟨_, .single (.exec i op rest hst hprog), ?_⟩
    refine h.own hprim hok hs' hpend (fun p => ?_) (fun k j hk => .inl hk)
      (fun k hk => (h.owned k i hk).2.2.2) (fun k hg => absurd (hst.symm.trans hg) (by simp))
      (fun j hj => ⟨rfl, extend_of_ne hj op, by simp [hj], fun k hk => hk⟩) ?_
      (by simp [observed]) ?_ (by simp) (by simp [hst]) (by simp)
    · show _ = Function.update a.store (prim op.key) _ p
      rw [hp]
      rcases eq_or_ne p (cfg.origin i) with rfl | hne
      · rw [afterTxn_nodes_self, Function.update_self, ← hstore]
      · rw [afterTxn_nodes_of_ne hne, Function.update_of_ne hne]
        exact h.store p
    · refine ⟨hst, ?_, ?_, hsilent.kept (hkept (by simp))⟩
      · simp [TxnThread.goto, htx]
      · have hobs : (setup prim txs).acts.obs a.store op
            = (op, (NaiveOpExecutor.accept (w.nodes (cfg.origin i)).store op).2) := by
          simp only [setup, clusterActions, hp, hstore]
        simp only [Function.update_self, shown_concat, hobs]
        rw [collect_eq_append, hres, shownResult, if_pos hp]
    · simp [TxnEvent.ranLocally, placed, hp]
  | @opBegin op rest results hpc hremote _ =>
    simp only [hpc] at hm
    obtain ⟨hst, htx, hres, hsilent⟩ := hm
    have hkept' := hkept (by simp)
    refine ⟨a, .refl, h.stutter hprim hok hs' hpend hidle rfl (fun _ k => rfl)
      ⟨hst, htx, hres, hsilent.kept hkept', ?_, ?_⟩ (by simp)⟩
    · rw [hroute, hlocal] at hremote
      exact hremote
    · simp only [exchange, afterTxn_nodes_self, afterTxn_txns_self, TxnThread.goto, hroute,
        Node.opPending, Node.insertPendingOp]
      simp
  | @allRan results hpc =>
    simp only [hpc] at hm
    obtain ⟨hst, htx, hres, hsilent⟩ := hm
    have hran : a.ran i = (setup prim txs).prog i := by
      rw [List.append_nil] at htx
      exact htx.symm.trans (h.tx i)
    refine ⟨_, finish_reached hst hran, ?_⟩
    exact h.leave hprim hok hs' hpend rfl (by simp) (by simp [hst, Status.locked])
      (fun _ => ⟨rfl, hres, hsilent.kept (hkept (by simp))⟩) (by simp) (by simp [hst])
  | opThrew hpc hth => exact absurd (hok.sends _ _ _ hpc) (by simp [hth])
  | @opSent op rest results hpc _ =>
    simp only [hpc] at hm
    obtain ⟨hst, htx, hres, hsilent, hremote, hpending⟩ := hm
    refine ⟨a, .refl, h.stutter hprim hok hs' hpend hidle rfl (fun _ k => rfl)
      ⟨hst, hremote, .inl ⟨⟨fun cd => ?_, ?_⟩, htx, hres⟩⟩ (by simp)⟩
    · rw [← hroute op.key]
      by_cases hcd : cd = (cfg.origin i, (w.nodes (cfg.origin i)).primary op.key)
      · exact .inr ⟨hcd, (opTraffic_afterTxn_sent rfl rfl hsilent cd).trans (if_pos hcd)⟩
      · exact .inl ((opTraffic_afterTxn_sent rfl rfl hsilent cd).trans (if_neg hcd))
    · simpa only [exchange, afterTxn_nodes_self, afterTxn_txns_self, TxnThread.goto] using hpending
  | opChecked hpc => exact absurd ⟨_, _, _, .inl hpc⟩ hwait
  | opAnswered hpc => exact absurd ⟨_, _, _, hpc⟩ hwait
  | opTimedOut hpc => exact absurd ⟨_, _, _, .inr hpc⟩ hwait
  | opSleptOn hpc => exact absurd ⟨_, _, _, .inr hpc⟩ hwait
  | @opRetrieved op rest results hpc =>
    simp only [hpc] at hm
    obtain ⟨hst, hremote, result, hrun, hans⟩ := hm
    refine ⟨a, .refl, h.stutter hprim hok hs' hpend hidle rfl (fun _ k => rfl)
      ⟨hst, hrun.tx, ?_, hans.silent.kept (hkept (by simp))⟩
      (by simp [observed, TxnEvent.ranLocally])⟩
    have hresult : (w.nodes (cfg.origin i)).remoteResult (w.txns i).txId op.key
        = some (result.getD []) := hans.result
    rw [hresult, collect_eq_append, hrun.shown, shownResult, if_neg hremote]
  | releasing hpc hrel =>
    simp only [hpc] at hm
    refine ⟨a, .refl, h.stutter hprim hok hs' hpend hidle rfl (by simp [hm.1])
      ⟨hm.1, hm.2.1, hm.2.2.kept (hkept (by simp))⟩ ?_⟩
    cases hrel <;> simp [ReleaseAllStage.event, observed, TxnEvent.ranLocally]
  | releasedLocal hpc hrel _ =>
    simp only [hpc] at hm
    exact ⟨a, .refl, h.stutter hprim hok hs' hpend hidle rfl (by simp [hm.1])
      ⟨hm.1, hm.2.1, hm.2.2.kept (hkept (by simp))⟩ (by simp)⟩
  | sendRelease hpc _ =>
    simp only [hpc] at hm
    have hkept' := hkept (by simp [Message.isOp])
    exact ⟨a, .refl, h.stutter hprim hok hs' hpend hidle rfl (fun _ k => rfl)
      ⟨hm.1, hm.2.1, hm.2.2.kept hkept'⟩ (by simp)⟩
  | sendThrew hpc _ =>
    simp only [hpc] at hm
    exact ⟨a, .refl, h.stutter hprim hok hs' hpend hidle rfl (fun _ k => rfl)
      ⟨hm.1, hm.2.1, hm.2.2.kept (hkept (by simp))⟩ (by simp)⟩
  | rethrown hpc _ =>
    simp only [hpc] at hm
    exact ⟨a, .refl, h.stutter hprim hok hs' hpend hidle rfl (fun _ k => rfl)
      ⟨.inr hm.1, hm.2.2.kept (hkept (by simp))⟩ (by simp [observed, TxnEvent.ranLocally])⟩
  | returned hpc =>
    simp only [hpc] at hm
    refine ⟨_, .single (.return i true hm.1), ?_⟩
    exact h.restatus hprim hok hs' hpend rfl (by simp) (.inr (by simp [hm.1]))
      ⟨.inl ⟨rfl, hm.2.1⟩, hm.2.2.kept (hkept (by simp))⟩ rfl rfl
      (by simp [hm.1, Status.locked]) (by simp [hm.1]) (by simp [TxnThread.goto])

end Own

/-! ## 6. Messages and handlers -/

section Messages

variable {cfg : ClusterConfig ι} {prim : KeyType → NodeID} {txs : ι → Transaction}
  {w w' : Cluster ι} {a : Abstract ι} {l : ClusterLabel ι} {i : ι}

/-- What concerns no operation leaves the exchanges of all calls. -/
theorem exchange_kept (hthreads : w'.txns = w.txns)
    (htraffic : ∀ j ab, (w'.opTraffic j ab).Sublist (w.opTraffic j ab))
    (hops : ∀ p, (w'.nodes p).pendingRemoteOps = (w.nodes p).pendingRemoteOps)
    (hresults : ∀ p, (w'.nodes p).remoteResults = (w.nodes p).remoteResults) (j : ι) :
    (w.exchange cfg j).Kept (w'.exchange cfg j) where
  traffic := htraffic j
  pending q hq := by
    simp only [exchange, Node.opPending, hthreads, hops] at hq ⊢
    exact hq
  result := by
    funext k
    simp only [exchange, Node.remoteResult, hthreads, hresults]

/-- A message that is lost is no event of any other kind. -/
theorem filterMap_lost {β : Type*} {events : List CallEvent} {f : CallEvent → Option β}
    (hlost : ∀ e ∈ events, ∃ m, e = .lost m) (hf : ∀ m, f (.lost m) = none) :
    events.filterMap f = [] := by
  rw [List.filterMap_eq_nil_iff]
  intro e he
  obtain ⟨m, rfl⟩ := hlost e he
  exact hf m

/-- A message or a handler that the abstract protocol does not see. -/
theorem Rel.passive (h : Rel cfg prim txs w a)
    (hprim : ∀ i k, (cfg.routing (cfg.origin i)).primary k = prim k)
    (hfresh : FreshId cfg prim w l) (hs : Stepped cfg w l w') (hthreads : w'.txns = w.txns)
    {events : List CallEvent} (hevents : w'.hist = w.hist ++ events.map (Prod.mk i))
    (hlost : ∀ e ∈ events, ∃ m, e = .lost m)
    (hstore : ∀ p, (w'.nodes p).store = (w.nodes p).store)
    (hkept : ∀ j, (w.exchange cfg j).Kept (w'.exchange cfg j))
    (hnew : ∀ p k t, w'.ownerAt p k = some t → w.ownerAt p k = some t ∨
      (t = (w.txns i).txId ∧ w.Called i ∧ Touches cfg prim w i p))
    (hgrow : ∀ k, a.status i = .growing → w.Uses i k →
      w'.ownerAt (prim k) k = some (w.txns i).txId → a.owner k = some i) :
    Rel cfg prim txs w' a := by
  have hnotOwn : ∀ e, CallEvent.own e ∉ events := by
    intro e he
    obtain ⟨m, hm⟩ := hlost _ he
    exact absurd hm (by simp)
  refine h.of_step hs i (grantTraffic_step h.toGrantTraffic hprim hfresh hs) events
    (fun j _ => ⟨by rw [hthreads], (hkept j).traffic, fun _ => hkept j⟩) hnew hevents
    (fun p => (hstore p).trans (h.store p)) (fun k j hk => .inl hk)
    (fun k hk => (h.owned k i hk).2.2.2) (by simpa only [hthreads] using hgrow)
    (fun j _ => ⟨rfl, rfl, rfl, fun k hk => hk⟩) ?_ ?_ ?_ ?_ (fun hab => ?_)
    (fun results hres => ?_)
  · rw [hthreads]
    exact (h.thread i).mono (hkept i) fun k hk => hk
  · rw [List.filterMap_map, filterMap_lost hlost fun m => rfl, List.append_nil]
  · rw [filterMap_lost hlost fun m => rfl, List.append_nil]
  · exact ⟨.inr, fun hor => hor.resolve_left (hnotOwn _)⟩
  · exact hab.resolve_left (hnotOwn _)
  · rw [hthreads]
    exact hres.resolve_left (hnotOwn _)

/-- **A message is lost.** -/
theorem Rel.drop (h : Rel cfg prim txs w a)
    (hprim : ∀ i k, (cfg.routing (cfg.origin i)).primary k = prim k) {src dest : NodeID} {pos : ℕ}
    {q : Packet ι} (hq : (w.channels (src, dest))[pos]? = some q) :
    Rel cfg prim txs (w.afterDrop src dest pos q) a := by
  have hevents : (w.afterDrop src dest pos q).hist
      = w.hist ++ [CallEvent.lost q.msg].map (Prod.mk q.cause) := rfl
  refine h.passive hprim (l := .drop src dest pos) trivial (.drop hq) rfl hevents (by simp)
    (fun p => rfl)
    (exchange_kept rfl (fun j ab => opTraffic_afterDrop src dest pos q ab) (fun p => rfl)
      fun p => rfl) (fun p k t ho => .inl ho) fun k hg huses hown => ?_
  exact h.growing q.cause k hg huses hown

/-- What a section of a handler does to the owners: nothing, or it takes a free key. -/
theorem HandlerStepped.owner_cases {n : Node} {throws : Bool} {b : Handler}
    {r : Node × Option Handler × Option Message} (h : HandlerStepped n throws b r) :
    (∀ k, r.1.lockManager.owner k = n.lockManager.owner k) ∨
      ∃ t key st, b = .acquiring t key st ∧ n.lockManager.owner key = none ∧
        ∀ k, r.1.lockManager.owner k = if k = key then some t else n.lockManager.owner k := by
  cases h with
  | poll hacq => exact .inl (hacq.owner_unchanged (by simp))
  | @decided t key st lm result hacq =>
    cases hacq with
    | take _ hnone => exact .inr ⟨t, key, st, rfl, hnone, fun k => LockManager.owner_setOwner ..⟩
    | reenter _ => exact .inl fun _ => rfl
    | giveUp _ _ => exact .inl fun _ => rfl
  | responded _ => exact .inl fun _ => rfl
  | responseThrew _ => exact .inl fun _ => rfl

/-- **A handler makes its next section.**  When it takes the key for a call that is still asking,
the client acquires it. -/
theorem Rel.handle (h : Rel cfg prim txs w a)
    (hprim : ∀ i k, (cfg.routing (cfg.origin i)).primary k = prim k) {src dest : NodeID}
    {throws : Bool} {b : Handler} {r : Node × Option Handler × Option Message}
    (hb : w.handlers (src, dest) = some ⟨i, b⟩) (hr : HandlerStepped (w.nodes dest) throws b r) :
    ∃ a', Relation.ReflTransGen (Step (setup prim txs)) a a' ∧
      Rel cfg prim txs (w.afterHandle src dest i r) a' := by
  have hs : Stepped cfg w (.handle src dest throws) (w.afterHandle src dest i r) := .handle hb hr
  have hnode := OpenNode.node_of_handlerStepped hr
  have hstore : ∀ p, ((w.afterHandle src dest i r).nodes p).store = (w.nodes p).store :=
    proj_update (f := Node.store) (by rw [hnode])
  have hkept : ∀ j, (w.exchange cfg j).Kept ((w.afterHandle src dest i r).exchange cfg j) :=
    exchange_kept rfl (fun j ab => opTraffic_afterHandle hb hr ab)
      (proj_update (f := Node.pendingRemoteOps) (by rw [hnode]))
      (proj_update (f := Node.remoteResults) (by rw [hnode]))
  have hevents : (w.afterHandle src dest i r).hist
      = w.hist ++ ([] : List CallEvent).map (Prod.mk i) := by simp [afterHandle]
  have hfresh : FreshId cfg prim w (.handle src dest throws) := trivial
  rcases hr.owner_cases with hsame | ⟨t, key, st, rfl, hnone, htake⟩
  · -- no key is taken
    have howner : ∀ p k, (w.afterHandle src dest i r).ownerAt p k = w.ownerAt p k := fun p k =>
      proj_update (f := fun n : Node => n.lockManager.owner k) (hsame k) p
    refine ⟨a, .refl, h.passive hprim hfresh hs rfl hevents (by simp) hstore hkept
      (fun p k t ho => .inl (howner p k ▸ ho)) fun k hg huses hown => ?_⟩
    rw [howner] at hown
    exact h.growing i k hg huses hown
  have hask := h.acquiring _ _ _ _ _ hb
  obtain ⟨-, rfl⟩ := Prod.mk.inj hask.route
  have hfree : a.owner key = none := by
    cases ho : a.owner key with
    | none => rfl
    | some j => exact absurd (hnone.symm.trans (h.owned key j ho).2.2.1) (by simp)
  have htaken : (w.afterHandle src (prim key) i r).ownerAt (prim key) key
      = some (w.txns i).txId := by
    simp [ownerAt, afterHandle, htake, hask.txId]
  have howner : ∀ p k, p ≠ prim key ∨ k ≠ key →
      (w.afterHandle src (prim key) i r).ownerAt p k = w.ownerAt p k := by
    intro p k hne
    rcases eq_or_ne p (prim key) with rfl | hp
    · simp [ownerAt, afterHandle, htake, hne.resolve_left (by simp)]
    · simp [ownerAt, afterHandle, hp]
  have hnew : ∀ p k t', (w.afterHandle src (prim key) i r).ownerAt p k = some t' →
      w.ownerAt p k = some t' ∨ (t' = (w.txns i).txId ∧ w.Called i ∧ Touches cfg prim w i p) := by
    intro p k t' ho
    by_cases hpk : p = prim key ∧ k = key
    · obtain ⟨rfl, rfl⟩ := hpk
      exact .inr ⟨Option.some.inj (ho.symm.trans htaken), hask.called, hask.uses.touches⟩
    · rw [howner p k (not_and_or.mp hpk)] at ho
      exact .inl ho
  by_cases hg : a.status i = .growing
  · refine ⟨_, .single (.acquire i key hg hfree), ?_⟩
    have hself : (a.setOwner key (some i)).owner key = some i := Function.update_self ..
    have hother : ∀ k, k ≠ key → (a.setOwner key (some i)).owner k = a.owner k := fun k hk =>
      Function.update_of_ne hk ..
    have hkeeps : ∀ j k, a.owner k = some j → (a.setOwner key (some i)).owner k = some j := by
      intro j k hk
      rw [hother k fun e => by rw [e, hfree] at hk; exact absurd hk (by simp)]
      exact hk
    refine h.of_step hs i (grantTraffic_step h.toGrantTraffic hprim hfresh hs) []
      (fun j _ => ⟨rfl, (hkept j).traffic, fun _ => hkept j⟩) hnew hevents
      (fun p => (hstore p).trans (h.store p)) (fun k j hk => ?_) (fun k _ => .inl hg)
      (fun k _ huses hown => ?_) (fun j hj => ⟨rfl, rfl, rfl, hkeeps j⟩)
      ((h.thread i).mono (hkept i) (hkeeps i)) (by simp [State.setOwner])
      (by simp [State.setOwner]) (by simp [State.setOwner]) (by simp [State.setOwner])
      fun results hres => hres.resolve_left (by simp)
    · rcases eq_or_ne k key with rfl | hne
      · rw [hself, Option.some.injEq] at hk
        exact .inr ⟨hk.symm, hask.called, hask.uses, htaken⟩
      · rw [hother k hne] at hk
        exact .inl hk
    · rcases eq_or_ne k key with rfl | hne
      · exact hself
      · rw [howner _ _ (.inr hne)] at hown
        rw [hother k hne]
        exact h.growing i k hg huses hown
  · -- the call is past asking: nobody is any the wiser
    exact ⟨a, .refl, h.passive hprim hfresh hs rfl hevents (by simp) hstore hkept hnew
      fun k hg' => absurd hg' hg⟩

/-- A message at the head of a channel is under way. -/
theorem mem_opTraffic {src dest : NodeID} {m : Message} {rest : List (Packet ι)}
    (hch : w.channels (src, dest) = ⟨i, m⟩ :: rest) (hop : m.isOp = true) :
    m ∈ w.opTraffic i (src, dest) := by
  refine List.mem_append_left _ (List.mem_filterMap.mpr ⟨⟨i, m⟩, by simp [hch], ?_⟩)
  simp [Packet.opOf, hop]

/-- **A request is handled**: the client executes its operation. -/
theorem Rel.request (h : Rel cfg prim txs w a)
    (hprim : ∀ i k, (cfg.routing (cfg.origin i)).primary k = prim k) {src dest : NodeID}
    {t : TransactionId} {op : Operation} {rest : List (Packet ι)} (hne : src ≠ dest)
    (hch : w.channels (src, dest) = ⟨i, .opReq t op⟩ :: rest) {w' : Cluster ι}
    (hw' : w' = w.afterDeliver src dest ⟨i, .opReq t op⟩ rest
      { w.nodes dest with store := (NaiveOpExecutor.accept (w.nodes dest).store op).1 }
      (some (.responding (.opResp t op.key (NaiveOpExecutor.accept (w.nodes dest).store op).2))))
    (hs : Stepped cfg w (.deliver src dest) w') :
    ∃ a', Relation.ReflTransGen (Step (setup prim txs)) a a' ∧ Rel cfg prim txs w' a' := by
  -- the call waits for this operation, and this is the one message it has under way
  have hmem := mem_opTraffic hch rfl
  obtain ⟨op', ops, results, hpc, hkind⟩ := (h.thread i).traffic hmem
  have hawaits : Awaits prim (cfg.origin i) (w.txns i).tx (w.txns i).txId (w.exchange cfg i) op'
      ops results (a.status i) (a.ran i) (a.obs i) := by
    have hm := h.thread i
    rcases hpc with hpc | hpc <;> simpa only [MatchesAt, hpc] using hm
  obtain ⟨hmsg, hroute⟩ := hkind.resolve_right (by simp)
  obtain ⟨rfl, rfl⟩ := Message.opReq.inj hmsg
  obtain ⟨rfl, rfl⟩ := Prod.mk.inj hroute
  obtain ⟨hasked, htx, hres⟩ : (w.exchange cfg i).Asked (cfg.origin i) (prim op.key)
      (w.txns i).txId op ∧ (w.txns i).tx = a.ran i ++ op :: ops ∧
      results = shown prim (cfg.origin i) (a.obs i) := by
    rcases hawaits.stage with hasked | ⟨result, -, hserved | hans⟩
    · exact hasked
    · exact absurd (hserved.only.eq_of_mem hmem).2 (by simp)
    · have hnil : w.opTraffic i (cfg.origin i, prim op.key) = [] := hans.silent _
      rw [hnil] at hmem
      exact absurd hmem (by simp)
  have hprog : (setup prim txs).prog i = a.ran i ++ op :: ops := (h.tx i).symm.trans htx
  refine ⟨_, .single (.exec i op ops hawaits.running hprog), ?_⟩
  have htraffic : ∀ ab, w'.opTraffic i ab = if ab = (prim op.key, cfg.origin i) then
      [.opResp (w.txns i).txId op.key (NaiveOpExecutor.accept (w.nodes (prim op.key)).store op).2]
      else [] := by
    rw [hw']
    exact opTraffic_afterDeliver_req hne hch hasked.only
  have hstore : ∀ p, (w'.nodes p).store = Function.update a.store (prim op.key)
      (NaiveOpExecutor.accept (a.store (prim op.key)) op).1 p := by
    intro p
    rw [hw']
    rcases eq_or_ne p (prim op.key) with rfl | hp
    · simp [afterDeliver, h.store]
    · simp [afterDeliver, hp, h.store]
  have hnodes : ∀ p, (w'.nodes p).pendingRemoteOps = (w.nodes p).pendingRemoteOps ∧
      (w'.nodes p).remoteResults = (w.nodes p).remoteResults ∧
      (w'.nodes p).lockManager = (w.nodes p).lockManager := by
    intro p
    rw [hw']
    rcases eq_or_ne p (prim op.key) with rfl | hp
    · simp [afterDeliver]
    · simp [afterDeliver, hp]
  have hthreads : w'.txns = w.txns := by rw [hw']; rfl
  have howner : ∀ p k, w'.ownerAt p k = w.ownerAt p k := fun p k => by
    rw [ownerAt, (hnodes p).2.2]
  have hfresh : FreshId cfg prim w (.deliver (cfg.origin i) (prim op.key)) := trivial
  refine h.of_step hs i (grantTraffic_step h.toGrantTraffic hprim hfresh hs)
    [.served (prim op.key) op] (fun j hj => ⟨by rw [hthreads], ?_, fun _ => ?_⟩)
    (fun p k t ho => .inl (howner p k ▸ ho)) (by rw [hw']; rfl) hstore (fun k j hk => .inl hk)
    (fun k hk => (h.owned k i hk).2.2.2)
    (fun k hg => absurd (hawaits.running.symm.trans hg) (by simp))
    (fun j hj => ⟨rfl, extend_of_ne hj op, by simp [hj], fun k hk => hk⟩) ?_ (by simp [observed])
    (by simp [CallEvent.executed, placed]) (by simp) (by simp) (fun results hres => ?_)
  · -- the new handler works for the call, and for no other
    intro ab
    rw [hw']
    exact opTraffic_afterDeliver hch (by simp [ActiveHandler.opOf, hj.symm]) ab
  · refine ⟨fun ab => ?_, fun q hq => ?_, ?_⟩
    · rw [hw']
      exact opTraffic_afterDeliver hch (by simp [ActiveHandler.opOf, hj.symm]) ab
    · simp only [exchange, Node.opPending, hthreads, (hnodes _).1] at hq ⊢
      exact hq
    · funext k
      simp only [exchange, Node.remoteResult, hthreads, (hnodes _).2.1]
  · -- the response is under way
    have hobs : (setup prim txs).acts.obs a.store op
        = (op, (NaiveOpExecutor.accept (w.nodes (prim op.key)).store op).2) := by
      simp only [setup, clusterActions, h.store]
    have hawaits' : Awaits prim (cfg.origin i) (w'.txns i).tx (w'.txns i).txId
        (w'.exchange cfg i) op ops results (a.status i) (a.ran i ++ [op])
        (a.obs i ++ [(op, (NaiveOpExecutor.accept (w.nodes (prim op.key)).store op).2)]) := by
      refine ⟨hawaits.running, hawaits.remote,
        .inr ⟨(NaiveOpExecutor.accept (w.nodes (prim op.key)).store op).2, ⟨?_, ?_⟩,
          .inl ⟨fun cd => ?_, ?_⟩⟩⟩
      · rw [hthreads, htx]
        simp
      · rw [shown_concat, hres]
      · rw [hthreads]
        by_cases hcd : cd = (prim op.key, cfg.origin i)
        · exact .inr ⟨hcd, (htraffic cd).trans (if_pos hcd)⟩
        · exact .inl ((htraffic cd).trans (if_neg hcd))
      · have hpending := hasked.pending
        simp only [exchange, Node.opPending, hthreads, (hnodes _).1] at hpending ⊢
        exact hpending
    have hpc' : (w'.txns i).pc = .opChecking op ops results ∨
        (w'.txns i).pc = .opWaiting op ops results := by
      rw [hthreads]
      exact hpc
    simp only [extend_self, Function.update_self, hobs]
    rcases hpc' with hpc' | hpc' <;> simpa only [MatchesAt, hpc'] using hawaits'
  · rw [hthreads]
    exact hres.resolve_left (by simp)

/-- What a response leaves of another transaction's operations, and what it does to its own. -/
theorem handleOperationResponse_other (n : Node) (peer : NodeID) {t t' : TransactionId}
    (hne : t' ≠ t) (k : KeyType) (values : ValueContainer) :
    (∀ q, (n.handleOperationResponse peer t k values).opPending t' q = n.opPending t' q) ∧
      (n.handleOperationResponse peer t k values).remoteResult t' = n.remoteResult t' := by
  constructor
  · intro q
    simp [Node.handleOperationResponse, Node.erasePendingOp, Node.opPending, hne]
  · funext k'
    simp [Node.handleOperationResponse, Node.erasePendingOp, Node.remoteResult, hne]

theorem handleOperationResponse_self (n : Node) (peer : NodeID) (t : TransactionId) (k : KeyType)
    (values : ValueContainer) :
    (n.handleOperationResponse peer t k values).remoteResult t k = some values := by
  simp [Node.handleOperationResponse, Node.erasePendingOp, Node.remoteResult]

/-- **A response is handled**: the result is there, and nothing is under way any more. -/
theorem Rel.response (h : Rel cfg prim txs w a)
    (hprim : ∀ i k, (cfg.routing (cfg.origin i)).primary k = prim k) {src dest : NodeID}
    {t : TransactionId} {k : KeyType} {result : Option ValueContainer} {rest : List (Packet ι)}
    (hch : w.channels (src, dest) = ⟨i, .opResp t k result⟩ :: rest) {w' : Cluster ι}
    (hw' : w' = w.afterDeliver src dest ⟨i, .opResp t k result⟩ rest
      ((w.nodes dest).handleOperationResponse src t k (result.getD [])) none)
    (hs : Stepped cfg w (.deliver src dest) w') : Rel cfg prim txs w' a := by
  have hmem := mem_opTraffic hch rfl
  obtain ⟨op, ops, results, hpc, hkind⟩ := (h.thread i).traffic hmem
  have hawaits : Awaits prim (cfg.origin i) (w.txns i).tx (w.txns i).txId (w.exchange cfg i) op
      ops results (a.status i) (a.ran i) (a.obs i) := by
    have hm := h.thread i
    rcases hpc with hpc | hpc <;> simpa only [MatchesAt, hpc] using hm
  obtain ⟨result', hmsg, hroute⟩ := hkind.resolve_left (by simp)
  obtain ⟨rfl, rfl, rfl⟩ := Message.opResp.inj hmsg
  obtain ⟨rfl, rfl⟩ := Prod.mk.inj hroute
  obtain ⟨hrun, hserved⟩ : HasRun prim (cfg.origin i) (w.txns i).tx op ops results (a.ran i)
      (a.obs i) result ∧ (w.exchange cfg i).Served (cfg.origin i) (prim op.key) (w.txns i).txId op
        result := by
    rcases hawaits.stage with ⟨hasked, -⟩ | ⟨result', hrun, hserved | hans⟩
    · exact absurd (hasked.only.eq_of_mem hmem).2 (by simp)
    · obtain ⟨-, -, rfl⟩ := Message.opResp.inj (hserved.only.eq_of_mem hmem).2
      exact ⟨hrun, hserved⟩
    · have hnil : w.opTraffic i (prim op.key, cfg.origin i) = [] := hans.silent _
      rw [hnil] at hmem
      exact absurd hmem (by simp)
  have hthreads : w'.txns = w.txns := by rw [hw']; rfl
  have htraffic : ∀ j ab, (w'.opTraffic j ab).Sublist (w.opTraffic j ab) := by
    intro j ab
    rw [hw']
    exact opTraffic_afterDeliver hch (by simp) ab
  -- nothing is left on the channel of the response either
  have hsilent : (w'.exchange cfg i).Silent := by
    intro ab
    show w'.opTraffic i ab = []
    rcases hserved.only ab with hnil | ⟨rfl, hone⟩
    · have hsub := htraffic i ab
      have hnil' : w.opTraffic i ab = [] := hnil
      rw [hnil'] at hsub
      exact List.sublist_nil.mp hsub
    · have hone' : w.opTraffic i (prim op.key, cfg.origin i)
          = [.opResp (w.txns i).txId op.key result] := hone
      have hhead : Packet.opOf i (⟨i, .opResp (w.txns i).txId op.key result⟩ : Packet ι)
          = some (.opResp (w.txns i).txId op.key result) := by simp [Packet.opOf, Message.isOp]
      simp only [opTraffic, hch, List.filterMap_cons, hhead, List.cons_append, List.cons.injEq,
        true_and] at hone'
      obtain ⟨hrest, hhandler⟩ := List.append_eq_nil_iff.mp hone'
      rw [hw', opTraffic]
      simp only [afterDeliver, Function.update_self, hrest, List.nil_append]
      by_cases hback : (cfg.origin i, prim op.key) = (prim op.key, cfg.origin i)
      · simp [hback]
      · rw [Function.update_of_ne hback]
        exact hhandler
  have hnode : ∀ p, p ≠ cfg.origin i → w'.nodes p = w.nodes p := fun p hp => by
    rw [hw']
    exact Function.update_of_ne hp ..
  have hself : w'.nodes (cfg.origin i) = (w.nodes (cfg.origin i)).handleOperationResponse
      (prim op.key) (w.txns i).txId op.key (result.getD []) := by
    rw [hw']
    exact Function.update_self ..
  have hsame : ∀ p, (w'.nodes p).store = (w.nodes p).store ∧
      (w'.nodes p).lockManager = (w.nodes p).lockManager := by
    intro p
    rcases eq_or_ne p (cfg.origin i) with rfl | hp
    · rw [hself]
      exact ⟨rfl, rfl⟩
    · rw [hnode p hp]
      exact ⟨rfl, rfl⟩
  have howner : ∀ p k, w'.ownerAt p k = w.ownerAt p k := fun p k => by
    rw [ownerAt, (hsame p).2]
  have hcalled : w.Called i := by rcases hpc with hpc | hpc <;> simp [Called, hpc]
  have hfresh : FreshId cfg prim w (.deliver (prim op.key) (cfg.origin i)) := trivial
  refine h.of_step hs i (grantTraffic_step h.toGrantTraffic hprim hfresh hs) []
    (fun j hj => ⟨by rw [hthreads], htraffic j, fun hjc => ⟨htraffic j, fun q hq => ?_, ?_⟩⟩)
    (fun p k t ho => .inl (howner p k ▸ ho)) (by rw [hw']; rfl)
    (fun p => (hsame p).1.trans (h.store p)) (fun k j hk => .inl hk)
    (fun k hk => (h.owned k i hk).2.2.2) (fun k hg huses hown => ?_)
    (fun j _ => ⟨rfl, rfl, rfl, fun k hk => hk⟩) ?_ (by simp) (by simp) (by simp) (by simp)
    (fun results hres => ?_)
  · -- another call of the same node has another id
    simp only [exchange, hthreads] at hq ⊢
    rcases eq_or_ne (cfg.origin j) (cfg.origin i) with ho | ho
    · have hid : (w.txns j).txId ≠ (w.txns i).txId := fun e =>
        hj (h.distinct j i (cfg.origin i) hjc hcalled e (.inl ho.symm) (touches_origin i))
      rw [ho] at hq ⊢
      rw [hself, (handleOperationResponse_other _ _ hid _ _).1]
      exact hq
    · rw [hnode _ ho]
      exact hq
  · simp only [exchange, hthreads]
    rcases eq_or_ne (cfg.origin j) (cfg.origin i) with ho | ho
    · have hid : (w.txns j).txId ≠ (w.txns i).txId := fun e =>
        hj (h.distinct j i (cfg.origin i) hjc hcalled e (.inl ho.symm) (touches_origin i))
      rw [ho, hself, (handleOperationResponse_other _ _ hid _ _).2]
    · rw [hnode _ ho]
  · exact absurd (hawaits.running.symm.trans hg) (by simp)
  · have hawaits' : Awaits prim (cfg.origin i) (w.txns i).tx (w.txns i).txId (w'.exchange cfg i) op
        ops results (a.status i) (a.ran i) (a.obs i) := by
      refine ⟨hawaits.running, hawaits.remote, .inr ⟨result, hrun, .inr ⟨hsilent, ?_⟩⟩⟩
      simp only [exchange, hthreads, hself]
      exact handleOperationResponse_self ..
    rw [hthreads]
    rcases hpc with hpc | hpc <;> simpa only [MatchesAt, hpc] using hawaits'
  · rw [hthreads]
    exact hres.resolve_left (by simp)

/-- **A message is handed over.** -/
theorem Rel.deliver (h : Rel cfg prim txs w a)
    (hprim : ∀ i k, (cfg.routing (cfg.origin i)).primary k = prim k) {src dest : NodeID}
    {q : Packet ι} {rest : List (Packet ι)} {n : Node} {b : Option Handler} (hne : src ≠ dest)
    (hch : w.channels (src, dest) = q :: rest) (hh : Handled (w.nodes dest) src q.msg n b)
    (hs : Stepped cfg w (.deliver src dest) (w.afterDeliver src dest q rest n b)) :
    ∃ a', Relation.ReflTransGen (Step (setup prim txs)) a a' ∧
      Rel cfg prim txs (w.afterDeliver src dest q rest n b) a' := by
  obtain ⟨i, m⟩ := q
  have hfresh : FreshId cfg prim w (.deliver src dest) := trivial
  -- messages about locks: the abstract protocol sees none of them
  have hpassive : m.servedEvent dest = none → n.store = (w.nodes dest).store →
      n.pendingRemoteOps = (w.nodes dest).pendingRemoteOps →
      n.remoteResults = (w.nodes dest).remoteResults →
      (∀ k t, n.lockManager.owner k = some t → (w.nodes dest).lockManager.owner k = some t) →
      (∀ j, (b.map (ActiveHandler.mk i)).bind (ActiveHandler.opOf j) = none) →
      Rel cfg prim txs (w.afterDeliver src dest ⟨i, m⟩ rest n b) a := by
    intro hserved hstore hops hresults howner hhandler
    have hown : ∀ p k t, (w.afterDeliver src dest ⟨i, m⟩ rest n b).ownerAt p k = some t →
        w.ownerAt p k = some t := by
      intro p k t ho
      rcases update_cases (P := fun n : Node => n.lockManager.owner k = some t) ho with
        ⟨rfl, hn⟩ | ⟨-, hold⟩
      · exact howner k t hn
      · exact hold
    have hevents : (w.afterDeliver src dest ⟨i, m⟩ rest n b).hist
        = w.hist ++ ([] : List CallEvent).map (Prod.mk i) := by simp [afterDeliver, hserved]
    refine h.passive hprim hfresh hs rfl hevents (by simp)
      (proj_update (f := Node.store) hstore)
      (exchange_kept rfl (fun j ab => opTraffic_afterDeliver hch (hhandler j) ab)
        (proj_update (f := Node.pendingRemoteOps) hops)
        (proj_update (f := Node.remoteResults) hresults))
      (fun p k t ho => .inl (hown p k t ho)) fun k hg huses ho => ?_
    exact h.growing i k hg huses (hown _ _ _ ho)
  cases hh with
  | lockReq =>
    exact ⟨a, .refl, hpassive rfl rfl rfl rfl (fun _ _ ho => ho) (by simp [ActiveHandler.opOf])⟩
  | lockGranted _ => exact ⟨a, .refl, hpassive rfl rfl rfl rfl (fun _ _ ho => ho) (by simp)⟩
  | lockDenied _ => exact ⟨a, .refl, hpassive rfl rfl rfl rfl (fun _ _ ho => ho) (by simp)⟩
  | lockRel =>
    exact ⟨a, .refl, hpassive rfl rfl rfl rfl (fun _ _ ho => LockManager.owner_of_release ho)
      (by simp)⟩
  | opReq => exact h.request hprim hne hch rfl hs
  | opResp _ => exact ⟨a, .refl, h.response hprim hch rfl hs⟩

end Messages

/-! ## 7. Strict serializability -/

section Serializable

variable {cfg : ClusterConfig ι} {prim : KeyType → NodeID} {txs : ι → Transaction}
  {w w' : Cluster ι} {a : Abstract ι}

/-- **Every orderly step of the cluster is matched.** -/
theorem rel_step (h : Rel cfg prim txs w a)
    (hprim : ∀ i k, (cfg.routing (cfg.origin i)).primary k = prim k) {l : ClusterLabel ι}
    (hok : Orderly cfg prim w l) (hs : w.step cfg l = some w') :
    ∃ a', Relation.ReflTransGen (Step (setup prim txs)) a a' ∧ Rel cfg prim txs w' a' := by
  have hstepped := stepped_of_step hs
  cases l with
  | txn i c =>
    obtain ⟨r, hr, rfl⟩ := Option.map_eq_some_iff.mp hs
    exact h.txn hprim hok hr
  | deliver src dest =>
    cases hstepped with
    | deliver hmem hne hnone hch hh =>
      exact h.deliver hprim hne hch hh (.deliver hmem hne hnone hch hh)
  | handle src dest throws =>
    cases hstepped with
    | handle hb hr => exact h.handle hprim hb hr
  | drop src dest pos =>
    cases hstepped with
    | drop hq => exact ⟨a, .refl, h.drop hprim hq⟩

theorem rel_initial (cfg : ClusterConfig ι) (prim : KeyType → NodeID)
    (stores : NodeID → ThreadSafeKVStore) (txs : ι → Transaction) :
    Rel cfg prim txs (initial cfg stores txs) (init stores) where
  toGrantTraffic := grantTraffic_initial cfg prim stores txs
  tx _ := rfl
  store _ := rfl
  owned k i h := by simp [init] at h
  growing i k h := by simp [init] at h
  thread i := ⟨rfl, rfl, rfl, fun ab => rfl⟩
  hist := rfl
  executed _ := rfl
  locked i := by simp [initial, init, Status.locked]
  aborted i h := by simp [initial] at h
  returned i results h := by simp [initial] at h

/-- A transaction of a call on node `o`, executed alone: the stores afterwards, and what the call
returns. -/
def runAlone (prim : KeyType → NodeID) (o : NodeID) (stores : NodeID → ThreadSafeKVStore) :
    Transaction → (NodeID → ThreadSafeKVStore) × Results
  | [] => (stores, [])
  | op :: tx =>
    let (store, result) := NaiveOpExecutor.accept (stores (prim op.key)) op
    let (stores', results) := runAlone prim o (Function.update stores (prim op.key) store) tx
    (stores', shownResult prim o (op, result) ++ results)

/-- Transactions of calls on the nodes they come with, executed one after the other. -/
def runSerially (prim : KeyType → NodeID) (stores : NodeID → ThreadSafeKVStore)
    (blocks : List (NodeID × Transaction)) : NodeID → ThreadSafeKVStore :=
  blocks.foldl (fun stores b => (runAlone prim b.1 stores b.2).1) stores

theorem runAlone_eq (prim : KeyType → NodeID) (o : NodeID) (stores : NodeID → ThreadSafeKVStore)
    (tx : Transaction) :
    runAlone prim o stores tx = ((clusterActions prim).execAll stores tx,
      shown prim o ((clusterActions prim).obsAll stores tx)) := by
  induction tx generalizing stores with
  | nil => rfl
  | cons op tx ih =>
    simp only [runAlone, ih]
    rfl

omit [DecidableEq ι] in
theorem runSerially_map (cfg : ClusterConfig ι) (prim : KeyType → NodeID)
    (stores : NodeID → ThreadSafeKVStore) (blocks : ι → Transaction) (order : List ι) :
    runSerially prim stores (order.map fun i => (cfg.origin i, blocks i))
      = serialState (clusterActions prim) stores blocks order := by
  induction order generalizing stores with
  | nil => rfl
  | cons i order ih =>
    have hcons : i :: order = [i] ++ order := rfl
    rw [hcons, serialState_append, serialState_singleton, ← ih]
    simp [runSerially, runAlone_eq]

/-- The operations of a call that have been executed, here or at their primaries. -/
def ranOps (cfg : ClusterConfig ι) (w : Cluster ι) (i : ι) : List Operation :=
  (executed cfg w i).map Prod.snd

/-- The blocks of a serial execution, in this order. -/
def blocksOf (cfg : ClusterConfig ι) (blocks : ι → Transaction) (order : List ι) :
    List (NodeID × Transaction) :=
  order.map fun i => (cfg.origin i, blocks i)

/-- `order` is a strict serialization of what has happened in the cluster. -/
structure StrictSerialization (cfg : ClusterConfig ι) (prim : KeyType → NodeID)
    (stores : NodeID → ThreadSafeKVStore) (txs : ι → Transaction) (w : Cluster ι)
    (order : List ι) : Prop where
  nodup : order.Nodup
  /-- It lists the calls that got past `acquire_all_locks`. -/
  mem_iff : ∀ i, i ∈ order ↔ (i, .own .locked) ∈ w.hist
  /-- An operation is executed at the primary of its key and nowhere else. -/
  placed : ∀ i, ∀ x ∈ executed cfg w i, x.1 = prim x.2.key
  /-- What they have executed, executed one call after the other, gives the store of every node. -/
  store_eq : ∀ p, (w.nodes p).store
    = runSerially prim stores (blocksOf cfg (ranOps cfg w) order) p
  /-- One that has returned has executed its whole transaction, and returned what it returns in the
  serial execution. -/
  results_eq : ∀ before i behind results, order = before ++ i :: behind →
    (i, .own (.returned results)) ∈ w.hist → ranOps cfg w i = txs i ∧
      results = (runAlone prim (cfg.origin i)
        (runSerially prim stores (blocksOf cfg (ranOps cfg w) before)) (txs i)).2
  /-- When all of them have returned, this is the serial execution of whole transactions. -/
  finished : (∀ i ∈ order, ∃ results, (i, .own (.returned results)) ∈ w.hist) →
    ∀ p, (w.nodes p).store = runSerially prim stores (blocksOf cfg txs order) p
  /-- One that returned before another was called, on whatever nodes, comes first. -/
  realtime : ∀ before i behind, order = before ++ i :: behind → ∀ j ∈ behind, ∀ results txId,
    ¬ Precedes w.hist (j, .own (.returned results)) (i, .own (.called txId))
  /-- One that aborted is not in the order and has executed nothing. -/
  aborted : ∀ i, (i, .own .aborted) ∈ w.hist → i ∉ order ∧ ranOps cfg w i = []

/-- **A cluster that keeps its locks is strictly serializable**: orderly steps are steps of the
abstract protocol, whose order serializes the calls. -/
theorem exists_strictSerialization {cfg : ClusterConfig ι} {prim : KeyType → NodeID}
    (hprim : ∀ i k, (cfg.routing (cfg.origin i)).primary k = prim k)
    {stores : NodeID → ThreadSafeKVStore} {txs : ι → Transaction} {w : Cluster ι}
    (hr : Run (step cfg) (Orderly cfg prim) (initial cfg stores txs) w) :
    ∃ order, StrictSerialization cfg prim stores txs w order := by
  obtain ⟨a, ha, hR⟩ := hr.simulation (rel_initial cfg prim stores txs)
    fun s l s' a hR hok hs => rel_step hR hprim hok hs
  obtain ⟨order, hinv⟩ := exists_inv ha
  have hran : ranOps cfg w = a.ran := by
    funext i
    rw [ranOps, hR.executed, List.map_map]
    exact List.map_id _
  have hret : ∀ i results, i ∈ order → (i, .own (.returned results)) ∈ w.hist →
      a.ran i = txs i ∧ results = shown prim (cfg.origin i) (a.obs i) := by
    intro i results hi hret
    have hm := hR.thread i
    simp only [MatchesAt, hR.returned i results hret] at hm
    rcases hm.1 with ⟨hst, hres⟩ | ⟨hst, -⟩
    · exact ⟨hinv.ran_all i (.inr hst), hres⟩
    · have hlocked := (hinv.mem_iff i).mp hi
      simp [hst, Status.locked] at hlocked
  have hstore : ∀ p, (w.nodes p).store
      = runSerially prim stores (blocksOf cfg (ranOps cfg w) order) p := by
    intro p
    rw [hR.store, hinv.store_eq, blocksOf, runSerially_map, hran]
    rfl
  refine ⟨order, hinv.nodup, fun i => (hinv.mem_iff i).trans (hR.locked i).symm, ?_, hstore, ?_,
    fun hall p => ?_, ?_, fun i hi => ?_⟩
  · intro i x hx
    rw [hR.executed, List.mem_map] at hx
    obtain ⟨op, -, rfl⟩ := hx
    rfl
  · intro before i behind results hord hi
    obtain ⟨hall, hres⟩ := hret i results (by simp [hord]) hi
    refine ⟨hran ▸ hall, ?_⟩
    rw [hres, hinv.obs_eq before i behind hord, blocksOf, runSerially_map, runAlone_eq, hran, hall]
    rfl
  · -- every block is the whole transaction
    have hblocks : blocksOf cfg (ranOps cfg w) order = blocksOf cfg txs order := by
      refine List.map_congr_left fun i hi => ?_
      obtain ⟨results, hres⟩ := hall i hi
      rw [hran, (hret i results hi hres).1]
    rw [hstore, hblocks]
  · intro before i behind hord j hj results txId hp
    refine hinv.realtime before i behind hord j hj ?_
    rw [hR.hist]
    exact hp.filterMap rfl rfl
  · have hun : (a.status i).locked = false := by
      rcases hR.aborted i hi with hst | hst <;> simp [hst, Status.locked]
    refine ⟨fun hmem => ?_, hran ▸ (hinv.ran_nil i hun).1⟩
    have hlocked := (hinv.mem_iff i).mp hmem
    simp [hun] at hlocked

/-- The nodes that have to do with a call, as a list. -/
def touched (cfg : ClusterConfig ι) (prim : KeyType → NodeID) (w : Cluster ι) (i : ι) :
    List NodeID :=
  cfg.origin i :: (w.txns i).tx.map fun op => prim op.key

omit [DecidableEq ι] in
theorem mem_touched {i : ι} {p : NodeID} :
    p ∈ touched cfg prim w i ↔ Touches cfg prim w i p := by
  simp [touched, Touches, eq_comm]

/-- The remote keys of a call of node `o` that its primaries have not granted it. -/
def ungranted (w : Cluster ι) (o : NodeID) (t : TxnThread) : Finset (NodeID × KeyType) :=
  ((w.nodes o).remotePairs t.tx).filter fun q => .granted q.1 (o, t.txId) q.2 ∉ w.locks

/-- `Orderly`, to be evaluated. -/
def orderly [Fintype ι] (cfg : ClusterConfig ι) (prim : KeyType → NodeID) (w : Cluster ι) :
    ClusterLabel ι → Bool
  | .txn i c =>
    let n := w.nodes (cfg.origin i)
    let t := w.txns i
    (match t.pc with
    | .idle => decide (∀ j, (w.txns j).pc = .idle ∨ (w.txns j).txId ≠ n.nextTxId ∨
        (touched cfg prim w i).all (fun p => !(touched cfg prim w j).contains p) = true)
    | .requesting [] => decide (n.pendingLocks t.txId = ∅ → ungranted w (cfg.origin i) t = ∅)
    | .waiting =>
      decide (n.pendingLocks t.txId = ∅ → c.timeout = false →
        ungranted w (cfg.origin i) t = ∅)
    | .opSending _ _ _ => !c.throws
    | .opWaiting _ _ _ => !c.timeout
    | _ => true)
  | _ => true

omit [DecidableEq ι] in
theorem orderly_of_check [Fintype ι] {l : ClusterLabel ι} (h : orderly cfg prim w l = true) :
    Orderly cfg prim w l := by
  cases l with
  | txn i c =>
    simp only [orderly] at h
    refine ⟨fun hidle j hj hid p hpi hpj => ?_, fun hempty hpc => ?_, fun op rest results hpc => ?_,
      fun op rest results hpc => ?_⟩
    · simp only [hidle, decide_eq_true_eq] at h
      rcases h j with hidle' | hne | hdisj
      · exact hj hidle'
      · exact hne hid
      · have hnot := List.all_eq_true.mp hdisj p (mem_touched.mpr hpi)
        simp [mem_touched.mpr hpj] at hnot
    · have hnone : ungranted w (cfg.origin i) (w.txns i) = ∅ := by
        rcases hpc with hpc | ⟨hpc, htime⟩
        · simp only [hpc, decide_eq_true_eq] at h
          exact h hempty
        · simp only [hpc, decide_eq_true_eq] at h
          exact h hempty htime
      intro q hq
      by_contra hne
      exact Finset.notMem_empty q (hnone ▸ Finset.mem_filter.mpr ⟨hq, hne⟩)
    · simpa [hpc] using h
    · simpa [hpc] using h
  | _ => trivial

end Serializable

end Cluster

end TwoPL
