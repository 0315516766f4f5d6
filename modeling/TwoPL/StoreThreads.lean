/-
# The store, with its mutexes

`Storage.lean` takes a call of `get` or `append` for one step.  In `ThreadSafeKVStore.cpp` it is
several: the mutex of the stripe is locked, `contains` looks the key up, `at` copies the list, or
`push_back` reads it and writes it back longer, or `emplace` makes a new one, and the mutex is
unlocked.  Here each of these is a step of its own, and any threads make any calls.

`store_linearizable`: the calls behave as those of ONE append-only map that takes each of them at
one moment between the call and the return (`Lib/AtomicObject.lean`).  No append is lost: when all
threads are done, each list has what was appended to it, in an order in which every thread's values
stand as it appended them.  And the threads do get done.

The moment is the last access to the partition.  What a thread has found out before it (`Knows`) is
still true then, because only the thread with the stripe's mutex writes there: this is where the
mutex is needed, and where two threads without it would overwrite each other's values.
-/
import TwoPL.Lib.AtomicObject
import TwoPL.Lib.Mutexes
import TwoPL.StripedStore

namespace TwoPL

open Lib

/-! ## 1. The code of the calls -/

/-- `get_stripe_index(key)`, the mutex of a call. -/
def stripeIndex (hash : KeyType → UInt64) (key : KeyType) : Fin numStripes :=
  ⟨(hash key).toNat % numStripes, Nat.mod_lt _ (by decide)⟩

/-- The key's entry in its partition is written. -/
def ThreadSafeKVStore.put (s : ThreadSafeKVStore) (key : KeyType) (values : ValueContainer) :
    ThreadSafeKVStore :=
  let partition' := Function.update (s.stripes (s.getStripeIndex key)) key (some values)
  { s with stripes := Function.update s.stripes (s.getStripeIndex key) partition' }

/-- What a call returns; an `append` returns nothing. -/
abbrev StoreResult := Option ValueContainer

/-- The store, and a record of the calls and returns that no thread reads. -/
structure StoreData (τ : Type*) where
  store : ThreadSafeKVStore
  hist : List (τ × ObjectEvent StoreCall StoreResult)

/-- The calls that a thread has made. -/
def StoreData.made {τ : Type*} [DecidableEq τ] (d : StoreData τ) (p : τ) : List StoreCall :=
  (eventsOf d.hist p).filterMap ObjectEvent.op?

/-- Where a call is. -/
inductive StorePc
  | idle
  | getLock (key : KeyType)
  | getContains (key : KeyType)
  | getAt (key : KeyType)
  | appendLock (key : KeyType) (value : ValueType)
  | appendContains (key : KeyType) (value : ValueType)
  | appendIndex (key : KeyType) (value : ValueType)
  | pushBack (key : KeyType) (value : ValueType) (values : ValueContainer)
  | emplace (key : KeyType) (value : ValueType)
  | unlock (key : KeyType) (result : StoreResult)
  | returning (result : StoreResult)
  deriving DecidableEq

def StoreCall.begin : StoreCall → StorePc
  | get key => .getLock key
  | append key value => .appendLock key value

/-- A thread: who it is, the calls it has still to make, and where it is. -/
structure StoreThread (τ : Type*) where
  me : τ
  todo : List StoreCall
  pc : StorePc

namespace StoreThread

variable {τ : Type*}

def goto (x : StoreThread τ) (pc : StorePc) : StoreThread τ := { x with pc }

/-- `get` and `append`, one access at a time. -/
def code (hash : KeyType → UInt64) (x : StoreThread τ) :
    Instr (Fin numStripes) (StoreData τ) Unit (StoreThread τ) :=
  match x.pc with
  | .idle =>
    match x.todo with
    | [] => .halt
    | call :: todo => .act fun d =>
      ({ d with hist := d.hist ++ [(x.me, .call call)] }, { x with todo, pc := call.begin })
  | .getLock key => .lock (stripeIndex hash key) (x.goto (.getContains key))
  | .getContains key => .act fun d =>
    if (d.store.get key).isSome then (d, x.goto (.getAt key)) else (d, x.goto (.unlock key none))
  -- partition.at(key), which `contains` has found
  | .getAt key => .act fun d => (d, x.goto (.unlock key (d.store.get key)))
  | .appendLock key value => .lock (stripeIndex hash key) (x.goto (.appendContains key value))
  | .appendContains key value => .act fun d =>
    if (d.store.get key).isSome then (d, x.goto (.appendIndex key value))
    else (d, x.goto (.emplace key value))
  -- partition[key] makes an entry where there is none; push_back reads the list ...
  | .appendIndex key value => .act fun d =>
    let values := (d.store.get key).getD []
    ({ d with store := d.store.put key values }, x.goto (.pushBack key value values))
  -- ... and writes it
  | .pushBack key value values => .act fun d =>
    ({ d with store := d.store.put key (values ++ [value]) }, x.goto (.unlock key none))
  -- emplace leaves an entry that is there
  | .emplace key value => .act fun d =>
    ({ d with store := if (d.store.get key).isSome then d.store else d.store.put key [value] },
      x.goto (.unlock key none))
  | .unlock key result => .unlock (stripeIndex hash key) (x.goto (.returning result))
  | .returning result => .act fun d =>
    ({ d with hist := d.hist ++ [(x.me, .ret result)] }, x.goto .idle)

/-- The thread has made all its calls. -/
def Finished (x : StoreThread τ) : Prop := x.pc = .idle ∧ x.todo = []

theorem code_eq_halt_iff (hash : KeyType → UInt64) (x : StoreThread τ) :
    x.code hash = .halt ↔ x.Finished := by
  obtain ⟨me, todo, pc⟩ := x
  cases pc with
  | idle => cases todo <;> simp [code, Finished, Instr.act]
  | _ => simp [code, Finished, Instr.act]

/-! ## 2. The mutexes -/

/-- The stripe that a thread has locked. -/
def held (hash : KeyType → UInt64) (x : StoreThread τ) : Finset (Fin numStripes) :=
  match x.pc with
  | .idle | .getLock _ | .appendLock _ _ | .returning _ => ∅
  | .getContains key | .getAt key | .appendContains key _ | .appendIndex key _ |
    .pushBack key _ _ | .emplace key _ | .unlock key _ => {stripeIndex hash key}

/-- A thread has one mutex at a time. -/
theorem code_disciplined (hash : KeyType → UInt64) :
    Threaded.Disciplined (code (τ := τ) hash) (fun _ => 0) (held hash) := by
  rintro ⟨me, todo, pc⟩
  cases pc with
  | idle =>
    cases todo with
    | nil => rfl
    | cons call todo =>
      simp only [code, Instr.respects_act]
      cases call <;> exact fun _ => rfl
  | getContains key =>
    simp only [code, Instr.respects_act]
    intro d
    split <;> rfl
  | appendContains key value =>
    simp only [code, Instr.respects_act]
    intro d
    split <;> rfl
  | _ => simp [code, held, goto]

/-! ## 3. Calls end -/

/-- The steps that are left of a call. -/
def pcCost : StorePc → ℕ
  | .idle => 0
  | .returning _ => 1
  | .unlock _ _ => 2
  | .getAt _ | .pushBack _ _ _ | .emplace _ _ => 3
  | .getContains _ | .appendIndex _ _ => 4
  | .getLock _ | .appendContains _ _ => 5
  | .appendLock _ _ => 6

def cost (x : StoreThread τ) : ℕ := 7 * x.todo.length + pcCost x.pc

theorem code_cost (hash : KeyType → UInt64) (x : StoreThread τ) (d : StoreData τ) :
    (x.code hash).Leads d fun y => y.cost < x.cost := by
  obtain ⟨me, todo, pc⟩ := x
  cases pc with
  | idle =>
    cases todo with
    | nil => trivial
    | cons call todo =>
      simp only [code, Instr.leads_act]
      cases call <;> (simp only [cost, pcCost, StoreCall.begin, List.length_cons]; omega)
  | getContains key =>
    simp only [code, Instr.leads_act]
    split <;> simp [cost, pcCost, goto]
  | appendContains key value =>
    simp only [code, Instr.leads_act]
    split <;> simp [cost, pcCost, goto]
  | _ => simp [code, cost, pcCost, goto]

/-! ## 4. What a step of a thread is -/

/-- The call as it is seen from outside. -/
def phase : StorePc → ObjectPhase StoreCall StoreResult
  | .idle => .idle
  | .getLock key | .getContains key | .getAt key => .called (.get key)
  | .appendLock key value | .appendContains key value | .appendIndex key value |
    .pushBack key value _ | .emplace key value => .called (.append key value)
  | .unlock _ result | .returning result => .taken result

/-- What the call has found out about the key. -/
def Knows (store : ThreadSafeKVStore) : StorePc → Prop
  | .getAt key | .appendIndex key _ => (store.get key).isSome
  | .pushBack key _ values => store.get key = some values
  | .emplace key _ => store.get key = none
  | _ => True

end StoreThread

def StoreCall.key : StoreCall → KeyType
  | get key => key
  | append key _ => key

namespace ThreadSafeKVStore

variable {s : ThreadSafeKVStore} {key : KeyType} {values : ValueContainer}

/-- Writing back what was read changes nothing. -/
theorem put_self (h : s.get key = some values) : s.put key values = s := by
  refine ThreadSafeKVStore.ext rfl ?_
  simp only [put, ← h, get, Function.update_eq_self]

/-- `push_back` on the list that is there is `append`. -/
theorem put_of_some (h : s.get key = some values) (value : ValueType) :
    s.put key (values ++ [value]) = s.append key value := by
  refine ThreadSafeKVStore.ext rfl ?_
  rw [append_stripes, h]
  rfl

/-- ... and so is a new list where there is none. -/
theorem put_of_none (h : s.get key = none) (value : ValueType) :
    s.put key [value] = s.append key value := by
  refine ThreadSafeKVStore.ext rfl ?_
  rw [append_stripes, h]
  rfl

end ThreadSafeKVStore

namespace StoreThread

variable {τ : Type*} {hash : KeyType → UInt64} {d d' : StoreData τ} {x y : StoreThread τ}

/-- **Everything a step of a thread can be**, for somebody who sees the store and the record:
nothing, a call, the moment at which it is taken, or a return. -/
inductive Moved (hash : KeyType → UInt64) (d : StoreData τ) (x : StoreThread τ) :
    StoreData τ → StoreThread τ → Prop
  | silent {pc} : phase pc = phase x.pc → Knows d.store pc → Moved hash d x d (x.goto pc)
  | call {call todo} : x.pc = .idle → x.todo = call :: todo →
      Moved hash d x { d with hist := d.hist ++ [(x.me, .call call)] }
        { x with todo, pc := call.begin }
  | take {call} : phase x.pc = .called call → stripeIndex hash call.key ∈ x.held hash →
      Moved hash d x { d with store := storeCalls.exec d.store call }
        (x.goto (.unlock call.key (storeCalls.obs d.store call)))
  | ret {result} : x.pc = .returning result →
      Moved hash d x { d with hist := d.hist ++ [(x.me, .ret result)] } (x.goto .idle)

/-- **The last access to the partition is the whole call**, as long as what the thread knows is
true. -/
theorem code_effects (hash : KeyType → UInt64) (h : Knows d.store x.pc) :
    (x.code hash).Effects d fun _ d' y => Moved hash d x d' y := by
  obtain ⟨me, todo, pc⟩ := x
  cases pc with
  | idle =>
    cases todo with
    | nil => trivial
    | cons call todo =>
      simp only [code, Instr.effects_act]
      exact fun _ => .call rfl rfl
  | getLock key => exact fun _ => .silent rfl trivial
  | getContains key =>
    simp only [code, Instr.effects_act]
    intro _
    split
    · rename_i hsome
      exact .silent rfl hsome
    · rename_i hnone
      have htake : Moved hash d ⟨me, todo, .getContains key⟩ d _ :=
        @Moved.take _ hash d _ (.get key) rfl (Finset.mem_singleton_self _)
      have hobs : storeCalls.obs d.store (.get key) = none :=
        Option.not_isSome_iff_eq_none.mp hnone
      rw [hobs] at htake
      exact htake
  | getAt key =>
    simp only [code, Instr.effects_act]
    exact fun _ => @Moved.take _ hash d _ (.get key) rfl (Finset.mem_singleton_self _)
  | appendLock key value => exact fun _ => .silent rfl trivial
  | appendContains key value =>
    simp only [code, Instr.effects_act]
    intro _
    split
    · rename_i hsome
      exact .silent rfl hsome
    · rename_i hnone
      exact .silent rfl (Option.not_isSome_iff_eq_none.mp hnone)
  | appendIndex key value =>
    obtain ⟨values, hvalues⟩ := Option.isSome_iff_exists.mp h
    simp only [code, Instr.effects_act, hvalues, Option.getD_some,
      ThreadSafeKVStore.put_self hvalues]
    exact fun _ => .silent rfl hvalues
  | pushBack key value values =>
    simp only [code, Instr.effects_act, ThreadSafeKVStore.put_of_some h]
    exact fun _ => @Moved.take _ hash d _ (.append key value) rfl (Finset.mem_singleton_self _)
  | emplace key value =>
    have hnone : d.store.get key = none := h
    simp only [code, Instr.effects_act, hnone, ThreadSafeKVStore.put_of_none hnone]
    exact fun _ => @Moved.take _ hash d _ (.append key value) rfl (Finset.mem_singleton_self _)
  | unlock key result => exact fun _ => .silent rfl trivial
  | returning result =>
    simp only [code, Instr.effects_act]
    exact fun _ => .ret rfl

/-- What the thread knows afterwards. -/
theorem Moved.knows (h : Moved hash d x d' y) : Knows d'.store y.pc := by
  cases h with
  | silent _ hknows => exact hknows
  | @call call todo _ _ => cases call <;> trivial
  | take _ _ => trivial
  | ret _ => trivial

/-- A step writes only in the stripe that the thread has locked. -/
theorem Moved.get_eq (h : Moved hash d x d' y) {key : KeyType}
    (hkey : stripeIndex hash key ∉ x.held hash) : d'.store.get key = d.store.get key := by
  cases h with
  | @take call _ hheld =>
    cases call with
    | get _ => rfl
    | append key' value =>
      refine ThreadSafeKVStore.get_append_of_ne _ ?_ _
      rintro rfl
      exact hkey hheld
  | _ => rfl

theorem Moved.me_eq (h : Moved hash d x d' y) : y.me = x.me := by
  cases h <;> rfl

section Record

variable [DecidableEq τ]

/-- A call that is begun is recorded. -/
theorem Moved.made_self (h : Moved hash d x d' y) :
    d'.made x.me ++ y.todo = d.made x.me ++ x.todo := by
  cases h with
  | silent _ _ => rfl
  | call _ htodo => simp [StoreData.made, eventsOf, htodo, ObjectEvent.op?]
  | take _ _ => rfl
  | ret _ => simp [StoreData.made, eventsOf, ObjectEvent.op?, goto]

theorem Moved.made_of_ne (h : Moved hash d x d' y) {p : τ} (hp : p ≠ x.me) :
    d'.made p = d.made p := by
  cases h with
  | silent _ _ => rfl
  | call _ _ => simp [StoreData.made, eventsOf, Ne.symm hp]
  | take _ _ => rfl
  | ret _ => simp [StoreData.made, eventsOf, Ne.symm hp]

end Record

/-- What a thread knows is about a key of the stripe that it has locked. -/
theorem Knows.of_get_eq (hash : KeyType → UInt64) {store store' : ThreadSafeKVStore}
    (h : Knows store x.pc)
    (hget : ∀ key, stripeIndex hash key ∈ x.held hash → store'.get key = store.get key) :
    Knows store' x.pc := by
  unfold held at hget
  unfold Knows at h ⊢
  split at h <;> simp_all

end StoreThread

/-! ## 5. The threads -/

abbrev StoreThreads (τ : Type*) := Threaded τ (Fin numStripes) (StoreData τ) (StoreThread τ)

namespace StoreThreads

variable {τ : Type*} [DecidableEq τ] {hash : KeyType → UInt64} {calls : τ → List StoreCall}
  {s s' : StoreThreads τ}

/-- An empty store, and threads that have not begun. -/
def initial (hash : KeyType → UInt64) (calls : τ → List StoreCall) : StoreThreads τ where
  data := ⟨.empty hash, []⟩
  holder := fun _ => none
  locals := fun p => ⟨p, calls p, .idle⟩

abbrev step (hash : KeyType → UInt64) (s : StoreThreads τ) : τ × Unit → Option (StoreThreads τ) :=
  Threaded.step (StoreThread.code hash) s

/-- The object that the threads see. -/
def object (s : StoreThreads τ) : AtomicObject τ ThreadSafeKVStore StoreCall StoreResult :=
  ⟨s.data.store, fun p => StoreThread.phase (s.locals p).pc⟩

/-- The invariant: mutexes are where the threads say, what threads know is true, and the record is
one of the atomic object. -/
structure Inv (hash : KeyType → UInt64) (calls : τ → List StoreCall) (s : StoreThreads τ) :
    Prop where
  holders : Threaded.HoldersInv (StoreThread.held hash) s
  me : ∀ p, (s.locals p).me = p
  knows : ∀ p, StoreThread.Knows s.data.store (s.locals p).pc
  made : ∀ p, s.data.made p ++ (s.locals p).todo = calls p
  linear : ∃ ls, runLabels (AtomicObject.step storeCalls) (.initial (.empty hash)) ls
    = some (object s) ∧ ls.filterMap ObjectLabel.event? = s.data.hist

theorem inv_initial (hash : KeyType → UInt64) (calls : τ → List StoreCall) :
    Inv hash calls (initial hash calls) where
  holders m p := by simp [initial, StoreThread.held]
  me _ := rfl
  knows _ := trivial
  made _ := rfl
  linear := ⟨[], rfl, rfl⟩

/-- What the step of one thread does to the object. -/
theorem object_eq {p : τ} (hothers : ∀ q, q ≠ p → s'.locals q = s.locals q) :
    object s' = (object s).goto s'.data.store p (StoreThread.phase (s'.locals p).pc) := by
  unfold object AtomicObject.goto
  congr 1
  funext q
  by_cases hq : q = p
  · subst hq
    rw [Function.update_self]
  · rw [Function.update_of_ne hq, hothers q hq]

/-- **A step of a thread is one of the atomic object, or none.** -/
theorem object_step {p : τ} (hme : (s.locals p).me = p)
    (hothers : ∀ q, q ≠ p → s'.locals q = s.locals q)
    (h : StoreThread.Moved hash s.data (s.locals p) s'.data (s'.locals p)) :
    (object s' = object s ∧ s'.data.hist = s.data.hist) ∨
      ∃ l, (object s).step storeCalls l = some (object s') ∧
        s'.data.hist = s.data.hist ++ l.event?.toList := by
  rw [object_eq hothers]
  generalize hd : s'.data = d' at h ⊢
  generalize hy : s'.locals p = y at h ⊢
  cases h with
  | silent hphase _ =>
    left
    refine ⟨?_, rfl⟩
    have hsame : StoreThread.phase ((s.locals p).goto _).pc = (object s).phase p := hphase
    rw [hsame, AtomicObject.goto, Function.update_eq_self]
    rfl
  | @call call todo hpc _ =>
    right
    refine ⟨.call p call, ?_, by rw [hme]; rfl⟩
    have hphase : (object s).phase p = .idle := congrArg StoreThread.phase hpc
    rw [AtomicObject.stepped_iff.mpr (.call hphase)]
    cases call <;> rfl
  | @take call hphase _ =>
    right
    exact ⟨.take p call, AtomicObject.stepped_iff.mpr (.take hphase), (List.append_nil _).symm⟩
  | @ret result hpc =>
    right
    refine ⟨.ret p result, ?_, by rw [hme]; rfl⟩
    have hphase : (object s).phase p = .taken result := congrArg StoreThread.phase hpc
    rw [AtomicObject.stepped_iff.mpr (.ret hphase)]
    rfl

theorem inv_step (h : Inv hash calls s) {l : τ × Unit} (hs : step hash s l = some s') :
    Inv hash calls s' := by
  obtain ⟨p, u⟩ := l
  have hothers : ∀ q, q ≠ p → s'.locals q = s.locals q := fun q hq =>
    (Threaded.stepped_of_step hs).locals_of_ne hq
  have hmoved := Threaded.effects_of_step hs (StoreThread.code_effects hash (h.knows p))
  refine ⟨Threaded.holdersInv_step (StoreThread.code_disciplined hash) h.holders hs, ?_, ?_, ?_, ?_⟩
  · intro q
    by_cases hq : q = p
    · subst hq
      exact hmoved.me_eq.trans (h.me q)
    · rw [hothers q hq]
      exact h.me q
  · intro q
    by_cases hq : q = p
    · subst hq
      exact hmoved.knows
    · rw [hothers q hq]
      refine StoreThread.Knows.of_get_eq hash (h.knows q) fun key hkey => ?_
      refine hmoved.get_eq fun hkey' => hq ?_
      -- the stripe has one holder
      have hholder := (h.holders _ q).mpr hkey
      rw [(h.holders _ p).mpr hkey', Option.some.injEq] at hholder
      exact hholder.symm
  · intro q
    rw [← h.made q]
    by_cases hq : q = p
    · subst hq
      have hmade := hmoved.made_self
      rwa [h.me q] at hmade
    · rw [hothers q hq, hmoved.made_of_ne (by rwa [h.me p])]
  · obtain ⟨ls, hrun, hhist⟩ := h.linear
    rcases object_step (h.me p) hothers hmoved with ⟨hsame, hhist'⟩ | ⟨l, hstep, hhist'⟩
    · exact ⟨ls, hsame ▸ hrun, hhist.trans hhist'.symm⟩
    · refine ⟨ls ++ [l], ?_, ?_⟩
      · rw [runLabels_append, hrun, Option.bind_some, runLabels, hstep]
        rfl
      · rw [List.filterMap_append, hhist, hhist']
        cases hl : l.event? <;> simp [hl]

/-! ## 6. One map -/

/-- **The store is one append-only map, for any threads.**  For every hash and finitely many
threads, each with any list of calls: no run goes on forever, and in every state that is reached

* the calls and returns so far are a history of the map that takes each call at one moment, and the
  stripes hold what the map holds;
* if no thread can move, all have finished; and then every key has the values that were appended to
  it, those of each thread in the order of its calls. -/
theorem store_linearizable [Finite τ] (hash : KeyType → UInt64) (calls : τ → List StoreCall) :
    Terminates (step hash) (initial hash calls) ∧
    ∀ s, Reachable (step hash) (initial hash calls) s →
      (∃ ls o, runLabels (AtomicObject.step mapCalls) (.initial fun _ => none) ls = some o ∧
        ls.filterMap ObjectLabel.event? = s.data.hist ∧
        Represents hash s.data.store o.state) ∧
      ((∀ l, step hash s l = none) → (∀ p, (s.locals p).Finished) ∧
        ∃ order : List (τ × StoreCall), (∀ p, eventsOf order p = calls p) ∧
          ∀ key, s.data.store.get key =
            if appendedTo key (order.map Prod.snd) = [] then none
            else some (appendedTo key (order.map Prod.snd))) := by
  refine ⟨Threaded.terminates_of_cost StoreThread.cost (StoreThread.code_cost hash) _,
    fun s hr => ?_⟩
  have hinv : Inv hash calls s :=
    hr.invariant (inv_initial hash calls) fun _ _ _ h _ hs => inv_step h hs
  obtain ⟨ls, hrun, hhist⟩ := hinv.linear
  obtain ⟨m, hrep, hmap⟩ := AtomicObject.exists_runLabels_of_rel
    (fun s m call h => Represents.obs h call) (fun s m call h => Represents.exec h call) ls
    (represents_empty hash) hrun
  refine ⟨⟨ls, _, hmap, hhist, hrep⟩, fun hstuck => ?_⟩
  have hfinished : ∀ p, (s.locals p).Finished := by
    intro p
    by_contra hp
    obtain ⟨l, s', hs⟩ := Threaded.exists_step_of_live (StoreThread.code_disciplined hash)
      hinv.holders (fun _ => le_refl 0) (p := p)
      fun hhalt => hp ((StoreThread.code_eq_halt_iff hash _).mp hhalt)
    rw [show Threaded.step (StoreThread.code hash) s l = none from hstuck l] at hs
    exact absurd hs (by simp)
  refine ⟨hfinished, ls.filterMap ObjectLabel.taken?, fun p => ?_, fun key => ?_⟩
  · obtain ⟨hpc, htodo⟩ := hfinished p
    have hidle : (object s).phase p = .idle := congrArg StoreThread.phase hpc
    have htaken := AtomicObject.taken_of_party p ls hrun
    rw [hidle, hhist] at htaken
    have hmade := hinv.made p
    rw [htodo, List.append_nil] at hmade
    simpa [ObjectPhase.pending, AtomicObject.initial, ← hmade, StoreData.made] using htaken.symm
  · have hstate := AtomicObject.state_of_runLabels ls hmap
    rw [show s.data.store.get key = m key from hrep.get_eq key]
    rw [show m = _ from hstate, execAll_mapCalls]
    simp

/-- Two threads append to key 7, and one of them reads it. -/
def sharedKey : Bool → List StoreCall
  | false => [.append 7 1, .get 7]
  | true => [.append 7 2]

/-- Both threads make their call, and the second one is the first to get the mutex. -/
def secondFirst : List (Bool × Unit) :=
  (false, ()) :: List.replicate 6 (true, ()) ++ List.replicate 12 (false, ())

theorem store_linearizable_sharedKey :
    ∃ s, Reachable (step fun _ => 0) (initial (fun _ => 0) sharedKey) s ∧
      (false, .ret (some [2, 1])) ∈ s.data.hist ∧ (∀ p, (s.locals p).Finished) ∧
      ∃ order : List (Bool × StoreCall), (∀ p, eventsOf order p = sharedKey p) ∧
        s.data.store.get 7 =
          if appendedTo 7 (order.map Prod.snd) = [] then none
          else some (appendedTo 7 (order.map Prod.snd)) := by
  have hrun : ((runLabels (step fun _ => 0) (initial (fun _ => 0) sharedKey) secondFirst).map
      fun s => decide ((false, .ret (some [2, 1])) ∈ s.data.hist) &&
        (step (fun _ => 0) s (false, ())).isNone && (step (fun _ => 0) s (true, ())).isNone)
        = some true := by decide +kernel
  obtain ⟨s, hs, hend⟩ := Option.map_eq_some_iff.mp hrun
  simp only [Bool.and_eq_true, decide_eq_true_eq, Option.isNone_iff_eq_none] at hend
  obtain ⟨⟨hret, hfalse⟩, htrue⟩ := hend
  have hr := reachable_of_runLabels _ hs
  obtain ⟨hfinished, order, horder, hget⟩ := ((store_linearizable (fun _ => 0) sharedKey).2 s hr).2
    fun l => match l with
      | (false, ()) => hfalse
      | (true, ()) => htrue
  exact ⟨s, hr, hret, hfinished, order, horder, hget 7⟩

end StoreThreads

end TwoPL
