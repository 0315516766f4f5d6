/-
# The lookup of `acquire`, in the program

The scheduler of the program is a node with calls and handlers (`LookupHandlers.lean`): a task whose
call looks an entry up does so beside the other tasks, and beside the handlers of the messages of
peers.  The main thread and the pool have nothing to do with the lock table.

What the program prints is strictly serializable (`WireSerial.lean`) as long as no `try_emplace`
links an entry while another task is in its lookup (`wire_serializable_unless_raced`).
-/
import TwoPL.LookupHandlers
import TwoPL.WireSerial

namespace TwoPL

open Lib

namespace Process

variable {x : Input}

/-! ## 1. Tasks and handlers -/

/-- The step of the scheduler in a step of the program. -/
def innerLabel : ProcessLabel x → Option (OpenLabel x.Req)
  | .run i c => some (.txn i c)
  | .receive peer msg => some (.receive peer msg)
  | .handle pos throws => some (.handle pos throws)
  | .read | .stop | .begin _ | .reply _ => none

/-- The place that a handler had before the step. -/
def placeBefore (p : Process x) (l : ProcessLabel x) (q : x.Req ⊕ ℕ) : x.Req ⊕ ℕ :=
  match innerLabel l with
  | some l => p.inner.placeBefore l q
  | none => q

/-- A step on the given entry. -/
def stepOn (entry : KeyType) (p : Process x) (l : ProcessLabel x) : Option (Process x) :=
  if p.stage = .terminated then none
  else match l with
    | .run i c =>
      if p.tasks i = .running ∧ ((x.message i).map (·.type) = some "txn") ∧
          (x.transaction i).isSome then
        (stepTxnOn entry p.inner.node (p.inner.txns i) c).map (p.afterRun i)
      else none
    | .handle pos throws =>
      (p.inner.stepOn entry (.handle pos throws)).map fun inner => { p with inner }
    | l => p.step l

theorem stepOn_self {p : Process x} {l : ProcessLabel x} {q : x.Req ⊕ ℕ} {k : KeyType}
    (hq : (innerLabel l).bind OpenNode.mover = some q) (hk : p.inner.wants q = some k) :
    p.stepOn k l = p.step l := by
  cases l with
  | run i c =>
    obtain rfl := Option.some.inj hq
    have hk : (p.inner.txns i).pc.wants = some k := hk
    simp only [stepOn, step, stepTxnOn_self hk]
  | handle pos throws =>
    have hself := OpenNode.stepOn_self (l := .handle pos throws) hq hk
    simp only [stepOn, step, stepInner, hself]
  | receive peer msg => exact absurd hq (by simp [innerLabel, OpenNode.mover])
  | read => exact absurd hq (by simp [innerLabel])
  | stop => exact absurd hq (by simp [innerLabel])
  | begin i => exact absurd hq (by simp [innerLabel])
  | reply i => exact absurd hq (by simp [innerLabel])

/-- A turn of the loop of `run` leaves the scheduler alone. -/
theorem readLine_inner (p : Process x) : p.readLine.inner = p.inner := by
  unfold readLine
  split
  · split
    · rfl
    · split
      · unfold handleMessage
        repeat' split
        all_goals rfl
      · rfl
  · rfl

/-- A step of the program is one of its scheduler, or leaves it alone. -/
theorem inner_of_step {p p' : Process x} {l : ProcessLabel x} (h : p.step l = some p') :
    match innerLabel l with
    | some l => p.inner.step l = some p'.inner
    | none => p'.inner = p.inner := by
  unfold step at h
  split at h
  · exact absurd h (by simp)
  cases l with
  | run i c =>
    dsimp only [innerLabel] at h ⊢
    split at h
    · obtain ⟨r, hr, rfl⟩ := Option.map_eq_some_iff.mp h
      simp only [OpenNode.step, hr, Option.map_some]
      rfl
    · exact absurd h (by simp)
  | receive peer msg | handle pos throws =>
    obtain ⟨inner, hinner, rfl⟩ := Option.map_eq_some_iff.mp h
    exact hinner
  | read =>
    dsimp only [innerLabel] at h ⊢
    split at h
    · rw [Option.some.injEq] at h
      rw [← h, readLine_inner]
    · exact absurd h (by simp)
  | stop | begin i =>
    dsimp only [innerLabel] at h ⊢
    split at h
    · rw [Option.some.injEq] at h
      rw [← h]
    · exact absurd h (by simp)
  | reply i =>
    dsimp only [innerLabel] at h ⊢
    split at h
    · obtain ⟨reply, -, rfl⟩ := Option.map_eq_some_iff.mp h
      rfl
    · exact absurd h (by simp)

/-- Whoever has looked an entry up wants that one until it wants none any more. -/
theorem wants_of_step {p p' : Process x} {l : ProcessLabel x} {q : x.Req ⊕ ℕ} {k k' : KeyType}
    (hs : p.step l = some p') (hk : p.inner.wants (p.placeBefore l q) = some k)
    (hk' : p'.inner.wants q = some k') : k' = k := by
  have hinner := inner_of_step hs
  unfold placeBefore at hk
  split at hinner
  · rename_i l' hl
    rw [hl] at hk
    exact OpenNode.wants_of_step hinner hk hk'
  · rename_i hl
    rw [hl] at hk
    rw [hinner] at hk'
    exact Option.some.inj (hk'.symm.trans hk)

variable (x) in
/-- The program, with the lookups of `acquire` as steps. -/
def lookups : Lookups (Process x) (ProcessLabel x) (x.Req ⊕ ℕ) KeyType where
  step := step
  stepOn := stepOn
  party l := (innerLabel l).bind OpenNode.mover
  wants p := p.inner.wants
  links p l _ := (innerLabel l).bind p.inner.links
  origin := placeBefore
  stepOn_self := stepOn_self
  wants_eq := wants_of_step

/-! ## 2. What is printed -/

/-- **What the program prints is strictly serializable, unless a lookup is raced.**  A process that
has been initialized without peers, fewer than 2^64 lines, any constructor of transactions, any
order in which the pool does its work, and no `try_emplace` that links an entry while another task
looks its own up: the replies printed so far and the store are those of a serial execution, in an
order that respects which reply was printed before which line was read.  Requests whose locks were
given up are left out of it, with what `WireSerialization.givenUp` says of them. -/
theorem wire_serializable_unless_raced (hcard : x.lines.length < 2 ^ 64) {hash : KeyType → UInt64}
    {g : NodeID} {store : ThreadSafeKVStore} {first response : Maelstrom.Message}
    {p₀ : Process x} {w : Racing (Process x) (x.Req ⊕ ℕ) KeyType}
    (hboot : boot hash g store x first = some (p₀, response)) (hpeers : p₀.main.peerIds = [])
    (hr : Run (lookups x).raceStep ((lookups x).RaceFreeAnd Alone) (Lookups.start p₀) w) :
    ∃ order ran, WireSerialization store w.sys order ran :=
  exists_wireSerialization hcard hboot hpeers (Lookups.run_of_raceRun hr).1

theorem wire_serializable_threeRequests :
    ∃ p₀ response w, bootAlone = some (p₀, response) ∧ p₀.main.peerIds = [] ∧
      Run (lookups threeRequests).raceStep ((lookups threeRequests).RaceFreeAnd Alone)
        (Lookups.start p₀) w ∧
      w.sys.trace.length = 6 ∧ (∀ i, (i, .aborted) ∉ w.sys.hist) ∧
      ∃ order ran, WireSerialization SingleNode.emptyStore w.sys order ran := by
  have hrun : (bootAlone.bind fun y =>
      (runChecked step (fun p l => decide (Alone p l)) y.1 (echoFirst ++ thenBoth)).map fun p =>
        decide (y.1.main.peerIds = [] ∧ p.trace.length = 6 ∧ ∀ i, (i, .aborted) ∉ p.hist))
          = some true := by
    decide +kernel
  obtain ⟨⟨p₀, response⟩, hboot, hrun⟩ := Option.bind_eq_some_iff.mp hrun
  obtain ⟨p, hp, hfacts⟩ := Option.map_eq_some_iff.mp hrun
  obtain ⟨hpeers, hlength, hkept⟩ := of_decide_eq_true hfacts
  have hr : Run step Alone p₀ p :=
    (run_of_runChecked _ .refl hp).mono fun _ _ h => of_decide_eq_true h
  obtain ⟨w, hw, rfl, -⟩ := Lookups.exists_raceRun (Y := lookups threeRequests) hr
  exact ⟨p₀, response, w, hboot, hpeers, hw, hlength, hkept,
    wire_serializable_unless_raced (by decide) hboot hpeers hw⟩

end Process

end TwoPL
