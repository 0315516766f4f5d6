/-
# Several sends on one connection

`Peer::send` has no mutex.  It builds its frame in a buffer of its own and hands the buffer to
`boost::asio::write`, which calls `write_some` until everything is written; each `write_some`
appends some of the remaining bytes to the connection.  Transactions run on a thread pool, so that
the `write_some` calls of several sends fall between each other.

The receiver reads four bytes of length and then that many bytes, whatever they are.  One
`write_some` that falls into the middle of another frame makes it take bytes of one message for the
length or the text of another (`interleaved_frames`), and everything behind is misread.

As long as none does, every frame is whole and every message is received once (`sends_intact`).
-/
import Mathlib.Data.Fintype.Card
import TwoPL.Lib.Runs
import TwoPL.Wire

namespace TwoPL

open Lib

/-! ## 1. The connection -/

/-- Where a call of `Peer::send` is. -/
inductive SendState
  | idle
  /-- In `boost::asio::write`: `sent` is on the connection, `rest` is not yet. -/
  | writing (sent rest : List UInt8)
  | done
  /-- `throw std::logic_error("Message size too large")`. -/
  | threw
  /-- `4 + len` has wrapped around, and the copies leave the buffer. -/
  | overrun
  deriving DecidableEq

/-- Some of the frame is on the connection, and some is not. -/
def SendState.partlyWritten : SendState → Bool
  | .writing sent _ => sent ≠ []
  | _ => false

/-- The bytes written to the connection so far, and the calls of `send`. -/
structure Connection (ι : Type*) where
  wire : List UInt8
  sends : ι → SendState

namespace Connection

variable {ι : Type*} [DecidableEq ι]

def initial (ι : Type*) : Connection ι where
  wire := []
  sends := fun _ => .idle

/-- The call `i` is in a new state. -/
def goto (w : Connection ι) (i : ι) (s : SendState) : Connection ι :=
  { w with sends := Function.update w.sends i s }

theorem sends_goto (w : Connection ι) (i j : ι) (s : SendState) :
    (w.goto i s).sends j = if j = i then s else w.sends j := by
  by_cases h : j = i
  · subst h; simp [goto]
  · simp [goto, h]

/-- One step of the call `i`: up to `boost::asio::write`, or a `write_some` of `n` bytes. -/
def step (boost : BoostJson) (messages : ι → Json) (w : Connection ι) :
    ι × ℕ → Option (Connection ι)
  | (i, n) =>
    match w.sends i with
    | .idle =>
      let payload := boost.serialize (messages i)
      if 2 ^ 32 - 1 ≤ payload.length then some (w.goto i .threw)
      else
        match frame payload with
        | some bytes => some (w.goto i (.writing [] bytes))
        | none => some (w.goto i .overrun)
    | .writing sent rest =>
      if n ≠ 0 ∧ n ≤ rest.length then
        let w' := { w with wire := w.wire ++ rest.take n }
        some (if rest.drop n = [] then w'.goto i .done
          else w'.goto i (.writing (sent ++ rest.take n) (rest.drop n)))
      else none
    | _ => none

/-- A `write_some` is made only while no other frame is partly written, and no buffer size wraps
around. -/
def OneAtATime (boost : BoostJson) (messages : ι → Json) (w : Connection ι) (l : ι × ℕ) : Prop :=
  (w.sends l.1 = .idle → (boost.serialize (messages l.1)).length < 2 ^ 32 - 4 ∨
    2 ^ 32 - 1 ≤ (boost.serialize (messages l.1)).length) ∧
  (w.sends l.1 ≠ .idle → ∀ j, j ≠ l.1 → (w.sends j).partlyWritten = false)

instance [Fintype ι] (boost : BoostJson) (messages : ι → Json) (w : Connection ι) (l : ι × ℕ) :
    Decidable (w.OneAtATime boost messages l) :=
  inferInstanceAs (Decidable (_ ∧ _))

/-- **Everything a step can do.** -/
inductive Stepped (boost : BoostJson) (messages : ι → Json) (w : Connection ι) (i : ι) :
    Connection ι → Prop
  | throws : w.sends i = .idle → 2 ^ 32 - 1 ≤ (boost.serialize (messages i)).length →
      Stepped boost messages w i (w.goto i .threw)
  | begins {bytes} : w.sends i = .idle → frame (boost.serialize (messages i)) = some bytes →
      Stepped boost messages w i (w.goto i (.writing [] bytes))
  | overruns : w.sends i = .idle → (boost.serialize (messages i)).length < 2 ^ 32 - 1 →
      frame (boost.serialize (messages i)) = none →
      Stepped boost messages w i (w.goto i .overrun)
  | writes {sent now rest} : w.sends i = .writing sent (now ++ rest) → now ≠ [] → rest ≠ [] →
      Stepped boost messages w i
        (goto { w with wire := w.wire ++ now } i (.writing (sent ++ now) rest))
  | ends {sent rest} : w.sends i = .writing sent rest →
      Stepped boost messages w i (goto { w with wire := w.wire ++ rest } i .done)

theorem stepped_of_step {boost : BoostJson} {messages : ι → Json} {w w' : Connection ι}
    {l : ι × ℕ} (h : w.step boost messages l = some w') : Stepped boost messages w l.1 w' := by
  obtain ⟨i, n⟩ := l
  simp only [step] at h
  split at h
  · rename_i hidle
    split at h
    · rename_i hbig
      rw [Option.some.injEq] at h
      exact h ▸ .throws hidle hbig
    · rename_i hsmall
      split at h <;> (rename_i hframe; rw [Option.some.injEq] at h)
      · exact h ▸ .begins hidle hframe
      · exact h ▸ .overruns hidle (Nat.lt_of_not_le hsmall) hframe
  · rename_i sent rest hwriting
    split at h
    · rename_i hn
      rw [Option.some.injEq] at h
      split at h
      · rename_i hall
        rw [← h, List.take_of_length_le (List.drop_eq_nil_iff.mp hall)]
        exact .ends hwriting
      · rename_i hmore
        rw [← h]
        rw [← List.take_append_drop n rest] at hwriting
        refine .writes hwriting (fun hnil => ?_) hmore
        rcases List.take_eq_nil_iff.mp hnil with hzero | hempty
        · exact hn.1 hzero
        · simp [hempty] at hn
    · exact absurd h (by simp)
  · exact absurd h (by simp)

/-! ## 2. Whole frames -/

/-- The payloads that `n` calls of `Peer::receive` read, and what they leave; `none` while one of
them still waits for bytes. -/
def readFrames : ℕ → List UInt8 → Option (List (List UInt8) × List UInt8)
  | 0, stream => some ([], stream)
  | n + 1, stream =>
    match readFrame stream with
    | none => none
    | some (payload, stream') =>
      (readFrames n stream').map fun r => (payload :: r.1, r.2)

/-- What `send(message)` is to write. -/
def frameOf (boost : BoostJson) (message : Json) : List UInt8 :=
  (frame (boost.serialize message)).getD []

/-- `order` lists the calls that have returned, each once, in the order of their frames; these are
what is read on the other side. -/
structure Intact (boost : BoostJson) (messages : ι → Json) (w : Connection ι) (order : List ι) :
    Prop where
  nodup : order.Nodup
  mem_iff : ∀ i, i ∈ order ↔ w.sends i = .done
  /-- The connection carries whole frames, one a call; while a call is still writing, its bytes so
  far may follow. -/
  wire : ∃ part, w.wire = order.flatMap (fun i => frameOf boost (messages i)) ++ part ∧
    ((∀ i sent rest, w.sends i ≠ .writing sent rest) → part = [])
  framed : ∀ i ∈ order, frame (boost.serialize (messages i)) = some (frameOf boost (messages i))
  /-- As many calls of `receive` read the payloads that were sent, and one more would wait. -/
  received : ∃ part, readFrames order.length w.wire
      = some (order.map fun i => boost.serialize (messages i), part) ∧ readFrame part = none
  /-- ... and parse them to the messages. -/
  parsed : ∀ i ∈ order, JSONMessage.parse boost (boost.serialize (messages i))
    = JSONMessage.ofJson (reparse (messages i))

omit [DecidableEq ι] in
/-- Whole frames are read back one after the other. -/
theorem readFrames_flatMap {boost : BoostJson} {messages : ι → Json} (order : List ι)
    (hframed : ∀ i ∈ order,
      frame (boost.serialize (messages i)) = some (frameOf boost (messages i)))
    (part : List UInt8) :
    readFrames order.length (order.flatMap (fun i => frameOf boost (messages i)) ++ part)
      = some (order.map fun i => boost.serialize (messages i), part) := by
  induction order with
  | nil => rfl
  | cons i order ih =>
    rw [List.length_cons, List.flatMap_cons, List.append_assoc, readFrames,
      readFrame_append (hframed i List.mem_cons_self)]
    simp only [ih fun j hj => hframed j (List.mem_cons_of_mem _ hj), Option.map_some,
      List.map_cons]

/-! ## 3. One frame at a time -/

variable {boost : BoostJson} {messages : ι → Json} {w w' : Connection ι}

/-- The invariant: whole frames, and behind them what the call that is in the middle of its frame
has written. -/
structure FramesInv (boost : BoostJson) (messages : ι → Json) (w : Connection ι) (order : List ι)
    (part : List UInt8) : Prop where
  nodup : order.Nodup
  mem_iff : ∀ i, i ∈ order ↔ w.sends i = .done
  wire : w.wire = order.flatMap (fun i => frameOf boost (messages i)) ++ part
  framed : ∀ i ∈ order, frame (boost.serialize (messages i)) = some (frameOf boost (messages i))
  writing : ∀ i sent rest, w.sends i = .writing sent rest →
    rest ≠ [] ∧ frame (boost.serialize (messages i)) = some (sent ++ rest) ∧
      (sent = [] ∨ sent = part)
  /-- Who has written the part. -/
  writer : part ≠ [] → ∃ i rest, w.sends i = .writing part rest

omit [DecidableEq ι] in
theorem FramesInv.intact {order : List ι} {part : List UInt8}
    (hboost : ∀ i, boost.parse (boost.serialize (messages i)) = some (reparse (messages i)))
    (h : FramesInv boost messages w order part) : Intact boost messages w order where
  nodup := h.nodup
  mem_iff := h.mem_iff
  framed := h.framed
  wire := by
    refine ⟨part, h.wire, fun hnone => ?_⟩
    by_contra hpart
    obtain ⟨i, rest, hi⟩ := h.writer hpart
    exact hnone i part rest hi
  received := by
    refine ⟨part, ?_, ?_⟩
    · rw [h.wire]
      exact readFrames_flatMap order h.framed part
    · by_cases hpart : part = []
      · rw [hpart]
        rfl
      · obtain ⟨i, rest, hi⟩ := h.writer hpart
        obtain ⟨hrest, hframe, -⟩ := h.writing i part rest hi
        exact readFrame_of_prefix hframe hrest
  parsed i _ := by simp [JSONMessage.parse, hboost i]

omit [DecidableEq ι] in
theorem framesInv_initial : FramesInv boost messages (initial ι) [] [] where
  nodup := List.nodup_nil
  mem_iff := by simp [initial]
  wire := rfl
  framed := by simp
  writing := by simp [initial]
  writer h := absurd rfl h

section Step

variable {order : List ι} {part : List UInt8} {i : ι}

/-- A call moves from a state in which it has written nothing to one in which it has written
nothing. -/
theorem FramesInv.goto (h : FramesInv boost messages w order part) {s : SendState}
    (hidle : w.sends i = .idle) (hs : s ≠ .done)
    (hwriting : ∀ sent rest, s = .writing sent rest → rest ≠ [] ∧
      frame (boost.serialize (messages i)) = some (sent ++ rest) ∧ sent = []) :
    FramesInv boost messages (w.goto i s) order part where
  nodup := h.nodup
  mem_iff j := by
    rw [h.mem_iff, sends_goto]
    by_cases hj : j = i
    · subst hj; simp [hidle, hs]
    · rw [if_neg hj]
  wire := h.wire
  framed := h.framed
  writing j sent rest hj := by
    rw [sends_goto] at hj
    split at hj
    · rename_i hji
      obtain ⟨hrest, hframe, hsent⟩ := hwriting sent rest hj
      exact ⟨hrest, hji ▸ hframe, .inl hsent⟩
    · exact h.writing j sent rest hj
  writer hpart := by
    obtain ⟨j, rest, hj⟩ := h.writer hpart
    refine ⟨j, rest, ?_⟩
    have hji : j ≠ i := by
      rintro rfl
      rw [hidle] at hj
      exact absurd hj (by simp)
    rw [sends_goto, if_neg hji, hj]

omit [DecidableEq ι] in
theorem sent_eq_nil {sent rest : List UInt8} (hi : w.sends i = .writing sent rest)
    (hnot : (w.sends i).partlyWritten = false) : sent = [] := by
  simpa [hi, SendState.partlyWritten] using hnot

omit [DecidableEq ι] in
/-- A call that may write has written the part behind the whole frames, if anybody has. -/
theorem FramesInv.sent_eq (h : FramesInv boost messages w order part) {sent rest : List UInt8}
    (hi : w.sends i = .writing sent rest)
    (hok : ∀ j, j ≠ i → (w.sends j).partlyWritten = false) :
    sent = part := by
  by_cases hpart : part = []
  · exact (h.writing i sent rest hi).2.2.elim (fun e => e.trans hpart.symm) id
  · obtain ⟨j, rest', hj⟩ := h.writer hpart
    by_cases hji : j = i
    · subst hji
      rw [hi, SendState.writing.injEq] at hj
      exact hj.1
    · exact absurd (sent_eq_nil hj (hok j hji)) hpart

/-- A `write_some` that leaves something to write. -/
theorem FramesInv.writes (h : FramesInv boost messages w order part) {now rest : List UInt8}
    (hi : w.sends i = .writing part (now ++ rest)) (hrest : rest ≠ [])
    (hok : ∀ j, j ≠ i → (w.sends j).partlyWritten = false) :
    FramesInv boost messages
      (Connection.goto { w with wire := w.wire ++ now } i (.writing (part ++ now) rest)) order
      (part ++ now) where
  nodup := h.nodup
  mem_iff j := by
    rw [h.mem_iff, sends_goto]
    by_cases hj : j = i
    · subst hj; simp [hi]
    · rw [if_neg hj]
  wire := by
    show w.wire ++ now = _
    rw [h.wire, List.append_assoc]
  framed := h.framed
  writing j sent rest' hj := by
    rw [sends_goto] at hj
    split at hj
    · rename_i hji
      subst hji
      rw [SendState.writing.injEq] at hj
      obtain ⟨rfl, rfl⟩ := hj
      refine ⟨hrest, ?_, .inr rfl⟩
      rw [List.append_assoc]
      exact (h.writing j _ _ hi).2.1
    · rename_i hji
      obtain ⟨hrest', hframe, -⟩ := h.writing j sent rest' hj
      exact ⟨hrest', hframe, .inl (sent_eq_nil hj (hok j hji))⟩
  writer _ := ⟨i, rest, by rw [sends_goto, if_pos rfl]⟩

/-- The last `write_some` of a call. -/
theorem FramesInv.ends (h : FramesInv boost messages w order part) {rest : List UInt8}
    (hi : w.sends i = .writing part rest)
    (hok : ∀ j, j ≠ i → (w.sends j).partlyWritten = false) :
    FramesInv boost messages (Connection.goto { w with wire := w.wire ++ rest } i .done)
      (order ++ [i]) [] := by
  have hnot : i ∉ order := by
    rw [h.mem_iff, hi]
    simp
  have hframe : frame (boost.serialize (messages i)) = some (part ++ rest) :=
    (h.writing i _ _ hi).2.1
  have hof : frameOf boost (messages i) = part ++ rest := by rw [frameOf, hframe, Option.getD_some]
  refine ⟨?_, fun j => ?_, ?_, fun j hj => ?_, fun j sent rest' hj => ?_, fun hne => absurd rfl hne⟩
  · exact List.nodup_append.mpr ⟨h.nodup, by simp, by
      rintro a ha b hb rfl
      exact hnot (List.mem_singleton.mp hb ▸ ha)⟩
  · rw [List.mem_append, List.mem_singleton, h.mem_iff, sends_goto]
    by_cases hj : j = i
    · simp [hj]
    · simp [hj]
  · show w.wire ++ rest = _
    rw [h.wire]
    simp [hof]
  · rcases List.mem_append.mp hj with hold | hnew
    · exact h.framed j hold
    · rw [List.mem_singleton.mp hnew, hof, hframe]
  · rw [sends_goto] at hj
    split at hj
    · exact absurd hj (by simp)
    · rename_i hji
      obtain ⟨hrest', hframe', -⟩ := h.writing j sent rest' hj
      exact ⟨hrest', hframe', .inl (sent_eq_nil hj (hok j hji))⟩

theorem framesInv_step (h : FramesInv boost messages w order part) {l : ι × ℕ}
    (hok : w.OneAtATime boost messages l) (hs : w.step boost messages l = some w') :
    ∃ order' part', FramesInv boost messages w' order' part' := by
  obtain ⟨i, n⟩ := l
  cases stepped_of_step hs with
  | throws hidle _ => exact ⟨order, part, h.goto hidle (by simp) (by simp)⟩
  | @begins bytes hidle hframe =>
    refine ⟨order, part, h.goto hidle (by simp) ?_⟩
    rintro _ _ ⟨⟩
    refine ⟨?_, hframe, rfl⟩
    obtain ⟨len, rfl, -⟩ := frame_spec hframe
    simp [bigEndian]
  | overruns hidle hsmall hnone =>
    have hlong : ¬ (boost.serialize (messages i)).length < 2 ^ 32 - 4 := by
      rw [← frame_isSome_iff, hnone]
      simp
    rcases hok.1 hidle with hfits | hbig
    · exact absurd hfits hlong
    · exact absurd hsmall (Nat.not_lt.mpr hbig)
  | @writes sent now rest hi _ hrest =>
    have hothers := hok.2 (by simp [hi])
    obtain rfl := h.sent_eq hi hothers
    exact ⟨order, _, h.writes hi hrest hothers⟩
  | @ends sent rest hi =>
    have hothers := hok.2 (by simp [hi])
    obtain rfl := h.sent_eq hi hothers
    exact ⟨_, _, h.ends hi hothers⟩

end Step

/-- **When concurrent sends do not corrupt the stream.**  For any number of calls with any messages,
in every state of every run in which a `write_some` is made only while no other frame is partly
written (and in which no buffer size wraps around): the connection carries whole frames, one for
each call that has returned, and these are received, each once and with the payload that was
sent. -/
theorem sends_intact
    (hboost : ∀ i, boost.parse (boost.serialize (messages i)) = some (reparse (messages i)))
    (hr : Run (step boost messages) (OneAtATime boost messages) (initial ι) w) :
    ∃ order, Intact boost messages w order := by
  obtain ⟨order, part, h⟩ := hr.invariant (I := fun w => ∃ order part,
    FramesInv boost messages w order part) ⟨[], [], framesInv_initial⟩
    fun w l w' ⟨order, part, h⟩ hok hs => framesInv_step h hok hs
  exact ⟨order, h.intact hboost⟩

/-- The first message of every connection. -/
def connectMessage : Json :=
  .object [("src", .int64 0), ("dest", .int64 1), ("body", .object [("type", .string "connect")])]

/-- Boost.JSON on it: 44 bytes. -/
def connectText : BoostJson :=
  boostOn connectMessage "\x7b\"src\":0,\"dest\":1,\"body\":\x7b\"type\":\"connect\"\x7d\x7d"

/-- Two calls of `send`; the frame of the first is written in two parts, then that of the second. -/
def queuedLabels : List (Bool × ℕ) :=
  [(false, 0), (true, 0), (false, 4), (false, 44), (true, 48)]

theorem sends_intact_queued :
    ∃ (w : Connection Bool) (order : List Bool),
      Run (step connectText fun _ => connectMessage)
        (OneAtATime connectText fun _ => connectMessage) (initial Bool) w ∧
      w.sends false = .done ∧ w.sends true = .done ∧
      Intact connectText (fun _ => connectMessage) w order := by
  have hrun : ((runChecked (step connectText fun _ => connectMessage)
      (fun w l => decide (w.OneAtATime connectText (fun _ => connectMessage) l))
      (initial Bool) queuedLabels).map fun w =>
        decide (w.sends false = .done ∧ w.sends true = .done)) = some true := by
    decide +kernel
  obtain ⟨w, hw, hfacts⟩ := Option.map_eq_some_iff.mp hrun
  obtain ⟨hfalse, htrue⟩ := of_decide_eq_true hfacts
  have hr : Run (step connectText fun _ => connectMessage)
      (OneAtATime connectText fun _ => connectMessage) (initial Bool) w :=
    (run_of_runChecked _ .refl hw).mono fun _ _ h => of_decide_eq_true h
  obtain ⟨order, hintact⟩ := sends_intact (fun _ => if_pos rfl) hr
  exact ⟨w, order, hr, hfalse, htrue, hintact⟩

/-- The same two calls; the second frame falls between the length and the text of the first. -/
def interleavedLabels : List (Bool × ℕ) :=
  [(false, 0), (true, 0), (false, 4), (true, 48), (false, 44)]

/-- **One `write_some` in the middle of another frame**: both calls return, what the receiver reads
first is not what was sent, and the second `receive` waits for bytes that nobody sends. -/
theorem interleaved_frames :
    ∃ w : Connection Bool,
      Reachable (step connectText fun _ => connectMessage) (initial Bool) w ∧
      w.sends false = .done ∧ w.sends true = .done ∧
      (∃ payload rest, readFrame w.wire = some (payload, rest) ∧
        payload ≠ connectText.serialize connectMessage) ∧
      readFrames 2 w.wire = none ∧
      ¬ ∃ order, Intact connectText (fun _ => connectMessage) w order := by
  have hrun : ((runLabels (step connectText fun _ => connectMessage) (initial Bool)
      interleavedLabels).map fun w => decide (w.sends false = .done ∧ w.sends true = .done ∧
        ((readFrame w.wire).map fun r => decide (r.1 = connectText.serialize connectMessage))
          = some false ∧ readFrames 2 w.wire = none)) = some true := by
    decide +kernel
  obtain ⟨w, hw, hfacts⟩ := Option.map_eq_some_iff.mp hrun
  obtain ⟨hfalse, htrue, hfirst, hsecond⟩ := of_decide_eq_true hfacts
  obtain ⟨⟨payload, rest⟩, hread, hne⟩ := Option.map_eq_some_iff.mp hfirst
  refine ⟨w, reachable_of_runLabels _ hw, hfalse, htrue,
    ⟨payload, rest, hread, of_decide_eq_false hne⟩, hsecond, ?_⟩
  rintro ⟨order, hintact⟩
  -- both calls have returned, so that two payloads are to be received
  have hall : order.toFinset = Finset.univ := by
    ext i
    cases i <;> simp [hintact.mem_iff, hfalse, htrue]
  have hlength : order.length = 2 := by
    rw [← List.toFinset_card_of_nodup hintact.nodup, hall]
    rfl
  obtain ⟨part, hreceived, -⟩ := hintact.received
  rw [hlength, hsecond] at hreceived
  exact absurd hreceived (by simp)

end Connection

end TwoPL
