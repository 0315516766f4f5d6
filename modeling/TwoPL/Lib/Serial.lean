/-
# Serial execution of blocks of operations

Several clients each have a list of operations on one shared state.  A SERIAL run executes
whole blocks, one client after the other; an interleaved run mixes them.  This file has the
algebra by which an interleaved run is turned into a serial one.

* `Actions` says what an operation does to the state and what its issuer observes.
* `Indep a o o'` says that two operations commute and do not see each other.
* `refines` compares two implementations of the same operations.
* `serialState a s done order` is the state after the blocks `done i`, `i` in the order of
  `order`.
* `serialState_extend` and `serialObs_extend`: executing one more operation of client `i` in
  the REAL state is the same as appending it to `i`'s block inside the serial run, as long as
  the operation is independent of every block that the serial order puts after `i`.

Nothing here is about locks; `Lib/StrictTwoPhase.lean` is where the independence comes from.
-/
import Mathlib.Data.List.Basic
import Mathlib.Logic.Function.Basic

namespace TwoPL.Lib

variable {ι S O R : Type*}

/-! ## 1. Operations, and independence -/

/-- What an operation does to the shared state, and what its issuer gets to see. -/
structure Actions (S O R : Type*) where
  exec : S → O → S
  obs : S → O → R

namespace Actions

variable (a : Actions S O R)

/-- The state after a list of operations. -/
def execAll (s : S) (os : List O) : S := os.foldl a.exec s

/-- What the issuer of a list of operations sees, one observation an operation. -/
def obsAll : S → List O → List R
  | _, [] => []
  | s, o :: os => a.obs s o :: obsAll (a.exec s o) os

@[simp] theorem execAll_nil (s : S) : a.execAll s [] = s := rfl

@[simp] theorem execAll_cons (s : S) (o : O) (os : List O) :
    a.execAll s (o :: os) = a.execAll (a.exec s o) os := rfl

@[simp] theorem execAll_append (s : S) (os os' : List O) :
    a.execAll s (os ++ os') = a.execAll (a.execAll s os) os' := List.foldl_append ..

@[simp] theorem obsAll_nil (s : S) : a.obsAll s [] = [] := rfl

theorem obsAll_append (s : S) (os os' : List O) :
    a.obsAll s (os ++ os') = a.obsAll s os ++ a.obsAll (a.execAll s os) os' := by
  induction os generalizing s with
  | nil => rfl
  | cons o os ih => simp only [List.cons_append, obsAll, execAll_cons, ih]

/-- The two operations commute, and neither sees the other. -/
structure Indep (o o' : O) : Prop where
  exec_comm : ∀ s, a.exec (a.exec s o) o' = a.exec (a.exec s o') o
  obs_left : ∀ s, a.obs (a.exec s o') o = a.obs s o
  obs_right : ∀ s, a.obs (a.exec s o) o' = a.obs s o'

variable {a}

/-- An operation moves past a block that is independent of it. -/
theorem exec_execAll_comm {o : O} {os : List O} (h : ∀ o' ∈ os, a.Indep o o') (s : S) :
    a.execAll (a.exec s o) os = a.exec (a.execAll s os) o := by
  induction os generalizing s with
  | nil => rfl
  | cons o' os ih =>
    simp only [execAll_cons, (h o' List.mem_cons_self).exec_comm]
    exact ih (fun o'' ho'' => h o'' (List.mem_cons_of_mem _ ho'')) _

/-- Two blocks that are independent of each other may change places. -/
theorem execAll_comm {os os' : List O} (h : ∀ o ∈ os, ∀ o' ∈ os', a.Indep o o') (s : S) :
    a.execAll (a.execAll s os) os' = a.execAll (a.execAll s os') os := by
  induction os generalizing s with
  | nil => rfl
  | cons o os ih =>
    rw [execAll_cons, execAll_cons, ih fun o₁ h₁ => h o₁ (List.mem_cons_of_mem _ h₁),
      exec_execAll_comm (h o List.mem_cons_self)]

/-- A block does not see an operation that is independent of it. -/
theorem obsAll_exec {o : O} {os : List O} (h : ∀ o' ∈ os, a.Indep o o') (s : S) :
    a.obsAll (a.exec s o) os = a.obsAll s os := by
  induction os generalizing s with
  | nil => rfl
  | cons o' os ih =>
    have h' := h o' List.mem_cons_self
    simp only [obsAll, h'.exec_comm, h'.obs_right]
    rw [ih (fun o'' ho'' => h o'' (List.mem_cons_of_mem _ ho''))]

/-- An operation does not see a block that is independent of it. -/
theorem obs_execAll {o : O} {os : List O} (h : ∀ o' ∈ os, a.Indep o o') (s : S) :
    a.obs (a.execAll s os) o = a.obs s o := by
  induction os generalizing s with
  | nil => rfl
  | cons o' os ih =>
    rw [execAll_cons, ih (fun o'' ho'' => h o'' (List.mem_cons_of_mem _ ho'')),
      (h o' List.mem_cons_self).obs_left]

/-- **The refinement rule.**  When every operation shows the same and keeps the two states related,
so does every sequence of operations. -/
theorem refines {T : Type*} {b : Actions T O R} {Rel : S → T → Prop}
    (hobs : ∀ s t o, Rel s t → a.obs s o = b.obs t o)
    (hexec : ∀ s t o, Rel s t → Rel (a.exec s o) (b.exec t o)) {s : S} {t : T} (h : Rel s t)
    (os : List O) : a.obsAll s os = b.obsAll t os ∧ Rel (a.execAll s os) (b.execAll t os) := by
  induction os generalizing s t with
  | nil => exact ⟨rfl, h⟩
  | cons o os ih =>
    obtain ⟨hrest, hrel⟩ := ih (hexec s t o h)
    exact ⟨by simp only [obsAll, hobs s t o h, hrest], hrel⟩

end Actions

/-! ## 2. Serial runs -/

/-- The state after the blocks `blocks i`, executed whole, in the order `order`. -/
def serialState (a : Actions S O R) (s : S) (blocks : ι → List O) (order : List ι) : S :=
  a.execAll s (order.flatMap blocks)

section SerialRuns

variable {a : Actions S O R} {s : S} {blocks blocks' : ι → List O}

@[simp] theorem serialState_nil : serialState a s blocks [] = s := rfl

theorem serialState_append (order order' : List ι) :
    serialState a s blocks (order ++ order')
      = serialState a (serialState a s blocks order) blocks order' := by
  simp only [serialState, List.flatMap_append, Actions.execAll_append]

theorem serialState_singleton (i : ι) :
    serialState a s blocks [i] = a.execAll s (blocks i) := by
  simp [serialState]

/-- A serial run reads the blocks of its own clients only. -/
theorem serialState_congr {order : List ι} (h : ∀ i ∈ order, blocks i = blocks' i) :
    serialState a s blocks order = serialState a s blocks' order := by
  have hf : order.flatMap blocks = order.flatMap blocks' := by
    rw [List.flatMap_def, List.flatMap_def, List.map_congr_left h]
  simp only [serialState, hf]

variable [DecidableEq ι]

/-- One more operation at the end of the block of client `i`. -/
def extend (blocks : ι → List O) (i : ι) (o : O) : ι → List O :=
  Function.update blocks i (blocks i ++ [o])

@[simp] theorem extend_self (i : ι) (o : O) : extend blocks i o i = blocks i ++ [o] := by
  simp [extend]

theorem extend_of_ne {i j : ι} (h : j ≠ i) (o : O) : extend blocks i o j = blocks j := by
  simp [extend, h]

/-- Extending the block of a client that a run does not contain changes nothing. -/
theorem serialState_extend_of_notMem {order : List ι} {i : ι} (h : i ∉ order) (o : O) :
    serialState a s (extend blocks i o) order = serialState a s blocks order :=
  serialState_congr fun j hj => extend_of_ne (fun e : j = i => h (e ▸ hj)) o

/-- **Executing one more operation of `i` now is executing it inside `i`'s block**, when it is
independent of every block the serial order puts after `i`. -/
theorem serialState_extend {P Q : List ι} {i : ι} {o : O} (hP : i ∉ P) (hQ : i ∉ Q)
    (hind : ∀ j ∈ Q, ∀ o' ∈ blocks j, a.Indep o o') :
    serialState a s (extend blocks i o) (P ++ i :: Q)
      = a.exec (serialState a s blocks (P ++ i :: Q)) o := by
  have hall : ∀ o' ∈ Q.flatMap blocks, a.Indep o o' := by
    intro o' ho'
    obtain ⟨j, hj, hjo⟩ := List.mem_flatMap.mp ho'
    exact hind j hj o' hjo
  rw [List.append_cons, serialState_append, serialState_append, serialState_append,
    serialState_append, serialState_extend_of_notMem hP, serialState_extend_of_notMem hQ,
    serialState_singleton, serialState_singleton, extend_self, Actions.execAll_append]
  exact Actions.exec_execAll_comm hall _

omit [DecidableEq ι] in
/-- What `i` sees of that operation in the real state is what it sees at the end of its own
block. -/
theorem obs_serialState {P Q : List ι} {i : ι} {o : O}
    (hind : ∀ j ∈ Q, ∀ o' ∈ blocks j, a.Indep o o') :
    a.obs (serialState a s blocks (P ++ i :: Q)) o
      = a.obs (a.execAll (serialState a s blocks P) (blocks i)) o := by
  have hall : ∀ o' ∈ Q.flatMap blocks, a.Indep o o' := by
    intro o' ho'
    obtain ⟨j, hj, hjo⟩ := List.mem_flatMap.mp ho'
    exact hind j hj o' hjo
  rw [List.append_cons, serialState_append, serialState_append, serialState_singleton]
  exact Actions.obs_execAll hall _

omit [DecidableEq ι] in
/-- When all blocks are independent of each other, `i` sees its own block and nothing else. -/
theorem obs_serialState_of_indep {P Q : List ι} {i : ι} {o : O}
    (hind : ∀ j ∈ P ++ Q, ∀ o' ∈ blocks j, a.Indep o o')
    (hblock : ∀ j ∈ P, ∀ o' ∈ blocks j, ∀ o'' ∈ blocks i, a.Indep o' o'') :
    a.obs (serialState a s blocks (P ++ i :: Q)) o = a.obs (a.execAll s (blocks i)) o := by
  have hP : ∀ {p : O → Prop}, (∀ j ∈ P, ∀ o' ∈ blocks j, p o') → ∀ o' ∈ P.flatMap blocks, p o' := by
    intro p h o' ho'
    obtain ⟨j, hj, hjo⟩ := List.mem_flatMap.mp ho'
    exact h j hj o' hjo
  rw [obs_serialState fun j hj => hind j (List.mem_append_right _ hj), serialState,
    Actions.execAll_comm (hP hblock)]
  exact Actions.obs_execAll (hP fun j hj => hind j (List.mem_append_left _ hj)) _

end SerialRuns

/-- `obs i` is what client `i` sees in the serial run of `order`: its block, executed after
the blocks of the clients before it. -/
def SerialObs (a : Actions S O R) (s : S) (blocks : ι → List O) (order : List ι)
    (obs : ι → List R) : Prop :=
  ∀ P i Q, order = P ++ i :: Q → obs i = a.obsAll (serialState a s blocks P) (blocks i)

/-- A client that joins at the end with an empty block has seen nothing. -/
theorem SerialObs.concat {a : Actions S O R} {s : S} {blocks : ι → List O} {order : List ι}
    {obs : ι → List R} {i : ι} (h : SerialObs a s blocks order obs) (hb : blocks i = [])
    (ho : obs i = []) : SerialObs a s blocks (order ++ [i]) obs := by
  intro P j Q heq
  rcases List.eq_nil_or_concat Q with rfl | ⟨Q, z, rfl⟩
  · obtain ⟨rfl, hj⟩ := List.append_inj' heq rfl
    rw [List.singleton_inj] at hj
    subst hj
    simp [hb, ho]
  · rw [List.concat_eq_append, ← List.cons_append, ← List.append_assoc] at heq
    exact h P j Q (List.append_inj' heq rfl).1

/-- A member of a list without repetitions has one place in it. -/
theorem split_unique {P P' Q Q' : List ι} {i : ι} (hnd : (P ++ i :: Q).Nodup)
    (heq : P ++ i :: Q = P' ++ i :: Q') : P = P' ∧ Q = Q' := by
  rw [List.nodup_append, List.nodup_cons] at hnd
  have hP : i ∉ P := fun hi => hnd.2.2 i hi i List.mem_cons_self rfl
  obtain ⟨h1, -, h2⟩ := (List.append_cons_inj_of_notMem hP hnd.2.1.1).mp heq
  exact ⟨h1, h2⟩

/-- The client at the split is on neither side of it. -/
theorem notMem_of_split {P Q : List ι} {i : ι} (hnd : (P ++ i :: Q).Nodup) : i ∉ P ∧ i ∉ Q := by
  rw [List.nodup_append, List.nodup_cons] at hnd
  exact ⟨fun hi => hnd.2.2 i hi i List.mem_cons_self rfl, hnd.2.1.1⟩

/-- **The observations of an interleaved run are those of the serial run.**  One more
operation of `i`, observed in the real state, keeps every client's observations equal to the
serial ones. -/
theorem SerialObs.extend [DecidableEq ι] {a : Actions S O R} {s : S} {blocks : ι → List O}
    {order P Q : List ι} {obs : ι → List R} {i : ι} {o : O}
    (h : SerialObs a s blocks order obs) (hnd : order.Nodup) (hord : order = P ++ i :: Q)
    (hind : ∀ j ∈ Q, ∀ o' ∈ blocks j, a.Indep o o') :
    SerialObs a s (Lib.extend blocks i o) order
      (Function.update obs i (obs i ++ [a.obs (serialState a s blocks order) o])) := by
  subst hord
  intro P' j Q' heq
  by_cases hji : j = i
  · -- the client itself: its own prefix of the order is `P`
    subst hji
    obtain ⟨rfl, rfl⟩ := split_unique hnd heq
    rw [Function.update_self, extend_self, Actions.obsAll_append,
      serialState_extend_of_notMem (notMem_of_split hnd).1, ← h P j Q rfl, obs_serialState hind]
    rfl
  rw [Function.update_of_ne hji, extend_of_ne hji, h P' j Q' heq]
  by_cases hiP : i ∈ P'
  · -- a client after `i`: the new operation is independent of everything from `i` up to it
    obtain ⟨P₁, Q₁, rfl⟩ := List.append_of_mem hiP
    rw [List.append_assoc, List.cons_append] at heq
    obtain ⟨rfl, rfl⟩ := split_unique hnd heq
    obtain ⟨hi₁, hi₂⟩ := notMem_of_split hnd
    have hj : j ∈ Q₁ ++ j :: Q' := List.mem_append_right _ List.mem_cons_self
    rw [serialState_extend hi₁ (fun hi => hi₂ (List.mem_append_left _ hi))
        (fun j' hj' => hind j' (List.mem_append_left _ hj')),
      Actions.obsAll_exec (hind j hj)]
  · rw [serialState_extend_of_notMem hiP]

end TwoPL.Lib
