/-
# What a call leaves behind in the history

The events of ONE call of `execute_transaction`, in the order they happened, on any node: alone
or in a cluster, whatever is lost or times out.  `Traced` says how they go with where the call
is, and `traced_step` that every step keeps it so.

Three facts are read off it again and again:

* a call that returned without having aborted has executed the operations of its transaction,
  all of them and in order;
* its result vector is what `collectAll` makes of the outcomes of these operations;
* a call that aborted has executed nothing, has returned the EMPTY vector, and had something to
  execute.
-/
import TwoPL.Scheduler

namespace TwoPL

/-! ## 1. The result vector -/

/-- What one operation adds to the result vector. -/
def entries (op : Operation) (outcome : Outcome) : Results := collect [] op outcome

/-- The result vector of phase 2, for operations with these outcomes. -/
def collectAll (ran : List (Operation × Outcome)) : Results :=
  ran.foldl (fun results x => collect results x.1 x.2) []

theorem collect_eq (results : Results) (op : Operation) (outcome : Outcome) :
    collect results op outcome = results ++ entries op outcome := by
  cases outcome with
  | «local» result => rfl
  | remote result => cases result <;> simp [collect, entries]

theorem collectAll_eq_flatMap (ran : List (Operation × Outcome)) :
    collectAll ran = ran.flatMap fun x => entries x.1 x.2 := by
  suffices h : ∀ results, ran.foldl (fun results x => collect results x.1 x.2) results
      = results ++ ran.flatMap fun x => entries x.1 x.2 from h []
  induction ran with
  | nil => simp
  | cons x ran ih =>
    intro results
    rw [List.foldl_cons, ih, collect_eq, List.flatMap_cons, List.append_assoc]

@[simp] theorem collectAll_nil : collectAll [] = [] := rfl

@[simp] theorem collectAll_cons (x : Operation × Outcome) (ran : List (Operation × Outcome)) :
    collectAll (x :: ran) = entries x.1 x.2 ++ collectAll ran := by
  rw [collectAll_eq_flatMap, collectAll_eq_flatMap, List.flatMap_cons]

theorem collectAll_concat (ran : List (Operation × Outcome)) (op : Operation)
    (outcome : Outcome) :
    collectAll (ran ++ [(op, outcome)]) = collect (collectAll ran) op outcome := by
  simp [collectAll]

/-! ## 2. The trace of a call -/

/-- The operation an event records, with its outcome. -/
def ranEvent : TxnEvent → Option (Operation × Outcome)
  | .ran op outcome => some (op, outcome)
  | _ => none

/-- The operations executed, with their outcomes. -/
def ranEvents (events : List TxnEvent) : List (Operation × Outcome) := events.filterMap ranEvent

/-- Nothing has been executed, and there is something to execute if a lock is still wanted. -/
structure NotRun (t : TxnThread) (events : List TxnEvent) (wanted : Prop) : Prop where
  ran : ranEvents events = []
  tx : wanted → t.tx ≠ []

/-- Everything but `rest` has been executed, without an abort, and `results` is what it gave. -/
structure RunUpTo (t : TxnThread) (events : List TxnEvent) (rest : List Operation)
    (results : Results) : Prop where
  ran : (ranEvents events).map Prod.fst ++ rest = t.tx
  results : results = collectAll (ranEvents events)
  aborted : TxnEvent.aborted ∉ events

/-- How the events of a call go with where it is. -/
def Traced (t : TxnThread) (events : List TxnEvent) : Prop :=
  match t.pc with
  | .idle => NotRun t events False ∧ .aborted ∉ events
  | .locking todo _ => NotRun t events (todo ≠ []) ∧ .aborted ∉ events
  | .requesting _ | .waiting | .timingOut _ => NotRun t events True ∧ .aborted ∉ events
  | .aborting _ => NotRun t events True ∧ .aborted ∈ events
  | .executing rest results => RunUpTo t events rest results
  | .opSending op rest results | .opChecking op rest results | .opWaiting op rest results
  | .opRetrieving op rest results => RunUpTo t events (op :: rest) results
  | .releasing _ results _ | .sendingReleases _ results _ => RunUpTo t events [] results
  | .returned results =>
    (NotRun t events True ∧ .aborted ∈ events ∧ results = []) ∨ RunUpTo t events [] results
  | .threw => True

theorem traced_fresh (tx : Transaction) : Traced (.fresh tx) [] :=
  ⟨⟨rfl, False.elim⟩, by simp⟩

section Step

variable {t : TxnThread} {events : List TxnEvent} {e : Option TxnEvent}

theorem ranEvents_append (events events' : List TxnEvent) :
    ranEvents (events ++ events') = ranEvents events ++ ranEvents events' := List.filterMap_append

/-- An event that records no operation, on the way to `pc`. -/
theorem NotRun.step {wanted wanted' : Prop} (h : NotRun t events wanted) (pc : Pc)
    (he : e.bind ranEvent = none) (hw : wanted' → t.tx ≠ []) :
    NotRun (t.goto pc) (events ++ e.toList) wanted' where
  ran := by
    rw [ranEvents_append, h.ran]
    cases e with
    | none => rfl
    | some e => simpa [ranEvents] using he
  tx := hw

theorem NotRun.locked {wanted : Prop} (h : NotRun t events wanted) (hab : .aborted ∉ events) :
    RunUpTo (t.goto (.executing t.tx [])) (events ++ [.locked]) t.tx [] where
  ran := by rw [ranEvents_append, h.ran]; rfl
  results := by rw [ranEvents_append, h.ran]; rfl
  aborted := by simp [hab]

theorem RunUpTo.step {rest : List Operation} {results : Results}
    (h : RunUpTo t events rest results) (pc : Pc) (he : e.bind ranEvent = none)
    (hab : e ≠ some .aborted) : RunUpTo (t.goto pc) (events ++ e.toList) rest results := by
  have hran : ranEvents (events ++ e.toList) = ranEvents events := by
    rw [ranEvents_append]
    cases e with
    | none => simp [ranEvents]
    | some e => simpa [ranEvents] using he
  refine ⟨by rw [hran]; exact h.ran, by rw [hran]; exact h.results, ?_⟩
  cases e with
  | none => simpa using h.aborted
  | some e => simpa [h.aborted] using Ne.symm (fun e' => hab (congrArg some e'))

theorem RunUpTo.ranOp {op : Operation} {rest : List Operation} {results : Results}
    (h : RunUpTo t events (op :: rest) results) (outcome : Outcome) :
    RunUpTo (t.goto (.executing rest (collect results op outcome)))
      (events ++ [.ran op outcome]) rest (collect results op outcome) where
  ran := by
    rw [ranEvents_append]
    simpa [ranEvents, ranEvent, TxnThread.goto] using h.ran
  results := by
    have hone : ranEvents [.ran op outcome] = [(op, outcome)] := rfl
    rw [ranEvents_append, hone, collectAll_concat, ← h.results]
  aborted := by simp [h.aborted]

theorem releaseAllStage_event (stage : ReleaseAllStage) :
    stage.event.bind ranEvent = none ∧ stage.event ≠ some .aborted := by
  rcases stage.event_cases with hnone | ⟨key, hsome⟩
  · simp [hnone]
  · simp [hsome, ranEvent]

/-- **Every step keeps the trace of its call in order.** -/
theorem traced_step {n : Node} {c : Choice} {r : TxnStep} (h : Traced t events)
    (hs : TxnStepped n t c r) : Traced r.thread (events ++ r.event.toList) := by
  unfold Traced at h
  cases hs with
  | @call keys hpc henum =>
    simp only [hpc] at h
    refine ⟨⟨by rw [ranEvents_append, h.1.ran]; rfl, fun hkeys htx => hkeys ?_⟩, by simp [h.2]⟩
    have hempty : n.localKeys t.tx = ∅ := by
      simp only at htx
      simp [Node.localKeys, htx]
    exact (List.toFinset_eq_empty_iff _).mp (henum.2.trans hempty)
  | poll hpc _ =>
    simp only [hpc] at h
    exact ⟨h.1.step _ rfl h.1.tx, by simpa using h.2⟩
  | acquired hpc _ =>
    simp only [hpc] at h
    exact ⟨h.1.step _ rfl fun _ => h.1.tx (by simp), by simp [h.2]⟩
  | refused hpc _ =>
    simp only [hpc] at h
    exact ⟨h.1.step _ rfl fun _ => h.1.tx (by simp), by simp⟩
  | lockedLocal hpc _ =>
    simp only [hpc] at h
    exact h.1.locked h.2
  | beginRemote hpc hrem _ _ =>
    simp only [hpc] at h
    refine ⟨h.1.step _ rfl fun _ htx => hrem ?_, by simpa using h.2⟩
    simp [Node.remotePairs, htx]
  | @aborting stage stage' lm hpc _ =>
    simp only [hpc] at h
    exact ⟨h.1.step _ (releaseAllStage_event stage).1 h.1.tx, List.mem_append_left _ h.2⟩
  | aborted hpc _ =>
    simp only [hpc] at h
    exact .inl ⟨h.1.step _ rfl h.1.tx, List.mem_append_left _ h.2, rfl⟩
  | request hpc _ =>
    simp only [hpc] at h
    exact ⟨h.1.step _ rfl h.1.tx, by simpa using h.2⟩
  | requestThrew _ _ => trivial
  | requestedNothing hpc _ =>
    simp only [hpc] at h
    exact h.1.locked h.2
  | requested hpc _ =>
    simp only [hpc] at h
    exact ⟨h.1.step _ rfl h.1.tx, by simpa using h.2⟩
  | timedOut hpc _ _ _ =>
    simp only [hpc] at h
    exact ⟨h.1.step _ rfl h.1.tx, by simpa using h.2⟩
  | woken hpc _ _ _ =>
    simp only [hpc] at h
    exact h.1.locked h.2
  | sleptOn hpc _ _ _ =>
    simp only [hpc] at h
    simp only [Traced, hpc, Option.toList_none, List.append_nil]
    exact h
  | timeoutRelease hpc _ =>
    simp only [hpc] at h
    exact ⟨h.1.step _ rfl h.1.tx, by simpa using h.2⟩
  | timeoutThrew _ _ => trivial
  | timeoutDone hpc =>
    simp only [hpc] at h
    exact ⟨h.1.step _ rfl h.1.tx, by simp⟩
  | ranLocal hpc _ =>
    simp only [hpc] at h
    exact h.ranOp _
  | opBegin hpc _ _ =>
    simp only [hpc] at h
    exact h.step _ rfl (by simp)
  | allRan hpc =>
    simp only [hpc] at h
    exact h.step _ rfl (by simp)
  | opThrew hpc _ =>
    simp only [hpc] at h
    exact h.ranOp (.remote none)
  | opSent hpc _ =>
    simp only [hpc] at h
    exact h.step _ rfl (by simp)
  | opChecked hpc =>
    simp only [hpc] at h
    exact h.step _ rfl (by simp)
  | opAnswered hpc =>
    rcases hpc with hpc | hpc <;> simp only [hpc] at h <;> exact h.step _ rfl (by simp)
  | opTimedOut hpc =>
    simp only [hpc] at h
    exact h.ranOp (.remote none)
  | opSleptOn hpc =>
    simp only [hpc] at h
    simp only [Traced, hpc, Option.toList_none, List.append_nil]
    exact h
  | opRetrieved hpc =>
    simp only [hpc] at h
    exact h.ranOp _
  | @releasing stage stage' lm results rethrow hpc _ =>
    simp only [hpc] at h
    exact h.step _ (releaseAllStage_event stage).1 (releaseAllStage_event stage).2
  | releasedLocal hpc _ _ =>
    simp only [hpc] at h
    exact h.step _ rfl (by simp)
  | sendRelease hpc _ =>
    simp only [hpc] at h
    exact h.step _ rfl (by simp)
  | sendThrew hpc _ =>
    simp only [hpc] at h
    exact h.step _ rfl (by simp)
  | rethrown _ _ => trivial
  | returned hpc =>
    simp only [hpc] at h
    exact .inr (h.step _ rfl (by simp))

end Step

/-- What the trace of a call says once it has returned. -/
theorem Traced.returned {t : TxnThread} {events : List TxnEvent} {results : Results}
    (h : Traced t events) (hpc : t.pc = .returned results) :
    if .aborted ∈ events then t.tx ≠ [] ∧ ranEvents events = [] ∧ results = []
    else (ranEvents events).map Prod.fst = t.tx ∧ results = collectAll (ranEvents events) := by
  simp only [Traced, hpc] at h
  rcases h with ⟨hrun, hab, hres⟩ | hrun
  · rw [if_pos hab]
    exact ⟨hrun.tx trivial, hrun.ran, hres⟩
  · rw [if_neg hrun.aborted]
    exact ⟨by simpa using hrun.ran, hrun.results⟩

end TwoPL
