/-
# The frames of a connection

`Peer::send` computes the size of its buffer, `4 + len`, in `uint32_t`, and checks before only that
the payload is shorter than 2^32 - 1 bytes.  The three lengths 2^32 - 4 to 2^32 - 2 pass the check
and wrap the sum around: the buffer has at most two bytes and both copies leave it
(`buffer_fits_iff`).

Below these lengths the framing is sound (`framing_round_trip`).  `Peer::receive` is two calls of
`async_read`, four bytes for the length and then the payload, and each of them takes what the socket
has, in pieces of any size, until its buffer is full.  However the bytes arrive and however they are
taken, the payloads come out whole and in order, and a prefix of the stream gives the payloads whose
frames end in it.
-/
import TwoPL.Lib.Runs
import TwoPL.Wire

namespace TwoPL

open Lib

/-! ## 1. The buffer of `Peer::send` -/

/-- The two sizes `Peer::send` computes once the size check is passed: `len`, and the size of the
vector `out`. -/
structure SendSizes where
  len : UInt32
  out : UInt32
  deriving DecidableEq

/-- From `payload.size()`, a `size_t`; `none` is the exception. -/
def sendSizes (size : UInt64) : Option SendSizes :=
  if size ≥ 4294967295 then none
  else
    let len := size.toUInt32
    some { len := len, out := 4 + len }

/-- `count` bytes from `offset` on are bytes of a buffer of this size. -/
def InsideBuffer (buffer : UInt32) (offset count : ℕ) : Prop :=
  offset + count ≤ buffer.toNat

instance (buffer : UInt32) (offset count : ℕ) : Decidable (InsideBuffer buffer offset count) :=
  inferInstanceAs (Decidable (_ ≤ _))

/-- The length field is the payload's length, the buffer is four bytes longer, and the two `memcpy`
stay inside it. -/
structure SendSizes.Fits (size : UInt64) (s : SendSizes) : Prop where
  len : s.len.toNat = size.toNat
  out : s.out.toNat = size.toNat + 4
  header : InsideBuffer s.out 0 4
  payload : InsideBuffer s.out 4 s.len.toNat

/-- What is computed, as numbers. -/
theorem sendSizes_spec {size : UInt64} {s : SendSizes} (h : sendSizes size = some s) :
    size.toNat < 2 ^ 32 - 1 ∧ s.len.toNat = size.toNat ∧
      s.out.toNat = (4 + size.toNat) % 2 ^ 32 := by
  unfold sendSizes at h
  split at h
  · exact absurd h (by simp)
  · rename_i hsize
    have hlt : size.toNat < 2 ^ 32 - 1 := by
      rw [ge_iff_le, UInt64.le_iff_toNat_le, not_le] at hsize
      exact hsize
    rw [Option.some.injEq] at h
    subst h
    have hlen : size.toUInt32.toNat = size.toNat := by
      rw [UInt64.toNat_toUInt32]
      exact Nat.mod_eq_of_lt (by omega)
    refine ⟨hlt, hlen, ?_⟩
    have hfour : (4 : UInt32).toNat = 4 := rfl
    rw [UInt32.toNat_add, hlen, hfour]

/-- The size check lets everything below 2^32 - 1 through. -/
theorem sendSizes_isSome {size : UInt64} (h : size.toNat < 2 ^ 32 - 1) :
    ∃ s, sendSizes size = some s := by
  refine ⟨_, if_neg ?_⟩
  rw [ge_iff_le, UInt64.le_iff_toNat_le, not_le]
  exact h

/-- **The buffer of `Peer::send` fits its payload** unless the length is one of 2^32 - 4, 2^32 - 3
and 2^32 - 2, which pass the size check and wrap the size of the buffer around. -/
theorem buffer_fits_iff (size : UInt64) :
    (∀ s, sendSizes size = some s → s.Fits size) ↔
      size.toNat < 2 ^ 32 - 4 ∨ 2 ^ 32 - 1 ≤ size.toNat := by
  constructor
  · intro h
    by_contra hwrap
    have hcheck : size.toNat < 2 ^ 32 - 1 := by omega
    obtain ⟨s, hs⟩ := sendSizes_isSome hcheck
    obtain ⟨-, -, hout⟩ := sendSizes_spec hs
    have hfits := (h s hs).out
    omega
  · intro hsize s hs
    obtain ⟨hlt, hlen, hout⟩ := sendSizes_spec hs
    have hout' : s.out.toNat = size.toNat + 4 := by omega
    exact ⟨hlen, hout', by unfold InsideBuffer; omega, by unfold InsideBuffer; omega⟩

/-- **A payload of 2^32 - 4 bytes passes the size check and gets a buffer of size 0.** -/
theorem buffer_wraps :
    sendSizes 4294967292 = some { len := 4294967292, out := 0 } ∧
      ¬ (∀ s, sendSizes 4294967292 = some s → s.Fits 4294967292) := by
  have hs : sendSizes 4294967292 = some { len := 4294967292, out := 0 } := by decide
  refine ⟨hs, fun h => ?_⟩
  have hheader := (h _ hs).header
  exact absurd hheader (by decide)

/-- The frame is written exactly when the copies stay inside the buffer. -/
theorem frame_eq_sendSizes {payload : List UInt8} (h : payload.length < 2 ^ 64) :
    frame payload = (sendSizes (.ofNat payload.length)).bind fun s =>
      if InsideBuffer s.out 4 s.len.toNat then some (bigEndian s.len ++ payload) else none := by
  have hsize : (UInt64.ofNat payload.length).toNat = payload.length := by
    rw [UInt64.toNat_ofNat']
    exact Nat.mod_eq_of_lt h
  by_cases hbig : 2 ^ 32 - 1 ≤ payload.length
  · have hnone : sendSizes (.ofNat payload.length) = none := by
      refine if_pos ?_
      rw [ge_iff_le, UInt64.le_iff_toNat_le, hsize]
      exact hbig
    rw [hnone, frame, if_pos hbig]
    rfl
  · have hcheck : (UInt64.ofNat payload.length).toNat < 2 ^ 32 - 1 := by omega
    obtain ⟨s, hs⟩ := sendSizes_isSome hcheck
    obtain ⟨-, hlen, hout⟩ := sendSizes_spec hs
    have hlen' : s.len = UInt32.ofNat payload.length := by
      rw [← UInt32.toNat_inj, hlen, hsize, UInt32.toNat_ofNat']
      exact (Nat.mod_eq_of_lt (by omega)).symm
    have hout' : s.out.toNat = (4 + UInt32.ofNat payload.length).toNat := by
      have hfour : (4 : UInt32).toNat = 4 := rfl
      rw [hout, hsize, UInt32.toNat_add, ← hlen', hlen, hsize, hfour]
    rw [hs, frame, if_neg hbig, Option.bind_some]
    rw [hlen', hsize] at hlen
    simp only [InsideBuffer, hout', hlen', hlen]

/-! ## 2. The bytes of a frame -/

/-- The length, and the payload behind it. -/
def frameBytes (payload : List UInt8) : List UInt8 :=
  bigEndian (.ofNat payload.length) ++ payload

/-- The calls of `Peer::send` for these payloads, one after the other; `none` if one of them does
not write its frame. -/
def sendAll (payloads : List (List UInt8)) : Option (List UInt8) :=
  (payloads.mapM frame).map List.flatten

theorem length_frameBytes (payload : List UInt8) :
    (frameBytes payload).length = 4 + payload.length := by
  simp only [frameBytes, bigEndian, List.length_append, List.length_cons, List.length_nil]

theorem frame_eq_frameBytes {payload : List UInt8} (h : payload.length < 2 ^ 32 - 4) :
    frame payload = some (frameBytes payload) := by
  obtain ⟨bytes, hbytes⟩ := Option.isSome_iff_exists.mp ((frame_isSome_iff payload).mpr h)
  obtain ⟨len, rfl, hlen⟩ := frame_spec hbytes
  rw [hbytes, frameBytes, ← hlen, UInt32.ofNat_toNat]

theorem sendAll_eq (payloads : List (List UInt8)) (h : ∀ p ∈ payloads, p.length < 2 ^ 32 - 4) :
    sendAll payloads = some (payloads.flatMap frameBytes) := by
  induction payloads with
  | nil => rfl
  | cons p payloads ih =>
    have ih' := ih fun q hq => h q (List.mem_cons_of_mem _ hq)
    obtain ⟨frames, hframes, hflatten⟩ := Option.map_eq_some_iff.mp ih'
    rw [sendAll, List.mapM_cons, frame_eq_frameBytes (h p List.mem_cons_self), hframes]
    simp [hflatten]

/-- `htonl` undoes `ntohl`. -/
theorem bigEndian_ofBigEndian (a b c d : UInt8) :
    bigEndian (ofBigEndian a b c d) = [a, b, c, d] := by
  have ha := a.toNat_lt
  have hb := b.toNat_lt
  have hc := c.toNat_lt
  have hd := d.toNat_lt
  have hnat : (ofBigEndian a b c d).toNat =
      a.toNat * 2 ^ 24 + b.toNat * 2 ^ 16 + c.toNat * 2 ^ 8 + d.toNat := by
    rw [ofBigEndian, UInt32.toNat_ofNat']
    exact Nat.mod_eq_of_lt (by omega)
  simp only [bigEndian, hnat, List.cons.injEq, ← UInt8.toNat_inj, UInt8.toNat_ofNat', and_true]
  omega

/-- A frame is read back, whatever follows it. -/
theorem readFrame_frameBytes {payload : List UInt8} (h : payload.length < 2 ^ 32)
    (rest : List UInt8) : readFrame (frameBytes payload ++ rest) = some (payload, rest) := by
  have hlen : (UInt32.ofNat payload.length).toNat = payload.length := by
    rw [UInt32.toNat_ofNat']
    exact Nat.mod_eq_of_lt h
  simp only [frameBytes, bigEndian, List.cons_append, List.nil_append, readFrame,
    ofBigEndian_bigEndian]
  simp [hlen]

/-! ## 3. The receiver -/

/-- Where a call of `Peer::receive` is: in its first `async_read`, with the bytes of the length it
has, or in the second. -/
inductive Receiver
  | header (got : List UInt8)
  | payload (len : UInt32) (got : List UInt8)
  deriving DecidableEq

namespace Receiver

/-- The bytes its `async_read` still wants. -/
def want : Receiver → ℕ
  | header got => 4 - got.length
  | payload len got => len.toNat - got.length

/-- The second `async_read`: it returns at once when its buffer is full, and a full buffer is handed
to `JSONMessage::parse`.  Then the next call of `Peer::receive` begins. -/
def readPayload (len : UInt32) (got : List UInt8) : Receiver × Option (List UInt8) :=
  if got.length = len.toNat then (header [], some got) else (payload len got, none)

/-- A piece of the stream is put into the buffer. -/
def take : Receiver → List UInt8 → Receiver × Option (List UInt8)
  | header got, bytes =>
    match got ++ bytes with
    | [a, b, c, d] => readPayload (ofBigEndian a b c d) []
    | got' => (header got', none)
  | payload len got, bytes => readPayload len (got ++ bytes)

/-- The bytes of the frame it is in that it has. -/
def bytes : Receiver → List UInt8
  | header got => got
  | payload len got => bigEndian len ++ got

/-- It always wants at least one byte. -/
def Unfilled : Receiver → Prop
  | header got => got.length < 4
  | payload len got => got.length < len.toNat

theorem Unfilled.want_pos {r : Receiver} (h : r.Unfilled) : 0 < r.want := by
  cases r with
  | header got =>
    have h' : got.length < 4 := h
    simp only [want]
    omega
  | payload len got =>
    have h' : got.length < len.toNat := h
    simp only [want]
    omega

/-- No frame ends in what it has. -/
theorem Unfilled.readFrame_bytes {r : Receiver} (h : r.Unfilled) : readFrame r.bytes = none := by
  cases r with
  | header got =>
    match got, h with
    | [], _ | [_], _ | [_, _], _ | [_, _, _], _ => rfl
  | payload len got =>
    have h' : got.length < len.toNat := h
    simp only [bytes, bigEndian, List.cons_append, List.nil_append, readFrame,
      ofBigEndian_bigEndian]
    exact if_neg (by omega)

/-- A receiver that has no byte of a frame is at the beginning of a call. -/
theorem eq_of_bytes_eq_nil {r : Receiver} (h : r.bytes = []) :
    r = .header [] := by
  cases r with
  | header got => rw [show got = [] from h]
  | payload len got => simp [bytes, bigEndian] at h

/-- What a receiver has delivered and has, in bytes. -/
def accounts (out : Receiver × Option (List UInt8)) : List UInt8 :=
  out.2.toList.flatMap frameBytes ++ out.1.bytes

/-- The second `async_read` loses nothing. -/
theorem readPayload_spec {len : UInt32} {got : List UInt8} (h : got.length ≤ len.toNat) :
    (readPayload len got).1.Unfilled ∧
      (∀ p, (readPayload len got).2 = some p → p.length < 2 ^ 32) ∧
      accounts (readPayload len got) = bigEndian len ++ got := by
  unfold readPayload
  split
  · rename_i hfull
    refine ⟨by simp [Unfilled], ?_, ?_⟩
    · rintro p hp
      rw [Option.some.injEq] at hp
      rw [← hp, hfull]
      exact len.toNat_lt
    · simp [accounts, frameBytes, bytes, hfull]
  · rename_i hfull
    refine ⟨by simp only [Unfilled]; omega, by simp, by simp [accounts, bytes]⟩

/-- **A piece of the stream is kept**: it ends up in the payload delivered or in the buffer. -/
theorem take_spec {r : Receiver} (h : r.Unfilled) {piece : List UInt8}
    (hpiece : piece.length ≤ r.want) :
    (r.take piece).1.Unfilled ∧ (∀ p, (r.take piece).2 = some p → p.length < 2 ^ 32) ∧
      accounts (r.take piece) = r.bytes ++ piece := by
  cases r with
  | header got =>
    have h' : got.length < 4 := h
    have hpiece' : piece.length ≤ 4 - got.length := hpiece
    have hlength : (got ++ piece).length ≤ 4 := by
      rw [List.length_append]
      omega
    simp only [take, bytes]
    generalize got ++ piece = got' at hlength
    match got', hlength with
    | [], _ | [_], _ | [_, _], _ | [_, _, _], _ => simp [Unfilled, accounts, bytes]
    | [a, b, c, d], _ =>
      have hle : ([] : List UInt8).length ≤ (ofBigEndian a b c d).toNat := Nat.zero_le _
      obtain ⟨hunfilled, hsize, haccounts⟩ := readPayload_spec hle
      refine ⟨hunfilled, hsize, ?_⟩
      rw [haccounts, bigEndian_ofBigEndian, List.append_nil]
    | _ :: _ :: _ :: _ :: _ :: _, hlength =>
      simp only [List.length_cons] at hlength
      omega
  | payload len got =>
    have h' : got.length < len.toNat := h
    have hpiece' : piece.length ≤ len.toNat - got.length := hpiece
    have hle : (got ++ piece).length ≤ len.toNat := by
      rw [List.length_append]
      omega
    obtain ⟨hunfilled, hsize, haccounts⟩ := readPayload_spec hle
    refine ⟨hunfilled, hsize, ?_⟩
    rw [take, haccounts, bytes, List.append_assoc]

end Receiver

/-! ## 4. The stream -/

/-- A connection at the receiving end. -/
structure Incoming where
  /-- What has been taken off the socket, -/
  taken : List UInt8
  /-- what has arrived and has not been taken, -/
  unread : List UInt8
  /-- the call of `Peer::receive` that is going on, -/
  receiver : Receiver
  /-- and the payloads the calls before it have read. -/
  payloads : List (List UInt8)
  deriving DecidableEq

/-- Bytes arrive, or `async_read` takes `n` of them by one `async_read_some`. -/
inductive IncomingLabel
  | arrive (chunk : List UInt8)
  | readSome (n : ℕ)

namespace Incoming

def initial : Incoming where
  taken := []
  unread := []
  receiver := .header []
  payloads := []

/-- Everything that has arrived. -/
def arrived (w : Incoming) : List UInt8 :=
  w.taken ++ w.unread

/-- `async_read_some` takes at least one byte, no more than there are and no more than fit the
buffer. -/
def step (w : Incoming) : IncomingLabel → Option Incoming
  | .arrive chunk => some { w with unread := w.unread ++ chunk }
  | .readSome n =>
    if 0 < n ∧ n ≤ w.unread.length ∧ n ≤ w.receiver.want then
      let out := w.receiver.take (w.unread.take n)
      some { taken := w.taken ++ w.unread.take n, unread := w.unread.drop n, receiver := out.1,
             payloads := w.payloads ++ out.2.toList }
    else none

/-- `Peer::receive` is suspended in an `async_read`. -/
def Waits (w : Incoming) : Prop :=
  ∀ n, w.step (.readSome n) = none

/-- The invariant: what was taken is the frames of the payloads and the beginning of one more. -/
structure Inv (w : Incoming) : Prop where
  unfilled : w.receiver.Unfilled
  size : ∀ p ∈ w.payloads, p.length < 2 ^ 32
  taken : w.taken = w.payloads.flatMap frameBytes ++ w.receiver.bytes

theorem inv_initial : Inv initial where
  unfilled := by simp [initial, Receiver.Unfilled]
  size := by simp [initial]
  taken := rfl

/-- **Everything `async_read_some` can do.** -/
theorem readSome_spec {w w' : Incoming} {n : ℕ} (h : w.step (.readSome n) = some w') :
    ∃ piece, piece ≠ [] ∧ piece.length ≤ w.receiver.want ∧ w.unread = piece ++ w'.unread ∧
      w'.taken = w.taken ++ piece ∧ w'.receiver = (w.receiver.take piece).1 ∧
      w'.payloads = w.payloads ++ (w.receiver.take piece).2.toList := by
  simp only [step] at h
  split at h
  · rename_i hn
    obtain ⟨hpos, hunread, hwant⟩ := hn
    rw [Option.some.injEq] at h
    subst h
    refine ⟨w.unread.take n, ?_, ?_, (List.take_append_drop n w.unread).symm, rfl, rfl, rfl⟩
    · rw [← List.length_pos_iff, List.length_take]
      omega
    · rw [List.length_take]
      omega
  · exact absurd h (by simp)

theorem inv_step {w w' : Incoming} {l : IncomingLabel} (h : w.Inv) (hs : w.step l = some w') :
    w'.Inv := by
  cases l with
  | arrive chunk =>
    rw [step, Option.some.injEq] at hs
    subst hs
    exact ⟨h.unfilled, h.size, h.taken⟩
  | readSome n =>
    obtain ⟨piece, -, hwant, -, htaken, hreceiver, hpayloads⟩ := readSome_spec hs
    obtain ⟨hunfilled, hsize, haccounts⟩ := Receiver.take_spec h.unfilled hwant
    refine ⟨hreceiver ▸ hunfilled, ?_, ?_⟩
    · intro p hp
      rw [hpayloads, List.mem_append, Option.mem_toList] at hp
      rcases hp with hp | hp
      · exact h.size p hp
      · exact hsize p hp
    · rw [htaken, h.taken, List.append_assoc, ← haccounts, hpayloads, hreceiver,
        List.flatMap_append, Receiver.accounts, List.append_assoc]

theorem inv_of_reachable {w : Incoming} (h : Reachable step initial w) : w.Inv :=
  h.invariant inv_initial fun _ _ _ hinv _ hs => inv_step hinv hs

/-- The receiver waits when the socket has nothing for it. -/
theorem Inv.waits_iff {w : Incoming} (h : w.Inv) : w.Waits ↔ w.unread = [] := by
  constructor
  · intro hwaits
    by_contra hne
    have hlength := List.length_pos_iff.mpr hne
    have hwant := h.unfilled.want_pos
    have hone := hwaits 1
    simp only [step] at hone
    rw [if_pos ⟨Nat.one_pos, hlength, hwant⟩] at hone
    exact absurd hone (by simp)
  · intro hunread n
    simp only [step, hunread, List.length_nil]
    exact if_neg (by omega)

/-! ## 5. The payloads -/

/-- The payloads whose frames end within the first `n` bytes of their stream. -/
def completeIn : List (List UInt8) → ℕ → List (List UInt8)
  | [], _ => []
  | p :: payloads, n =>
    if 4 + p.length ≤ n then p :: completeIn payloads (n - (4 + p.length)) else []

theorem completeIn_of_length_le (payloads : List (List UInt8)) {n : ℕ}
    (h : (payloads.flatMap frameBytes).length ≤ n) : completeIn payloads n = payloads := by
  induction payloads generalizing n with
  | nil => rfl
  | cons p payloads ih =>
    rw [List.flatMap_cons, List.length_append, length_frameBytes] at h
    rw [completeIn, if_pos (by omega), ih (by omega)]

/-- A stream that begins with the frames of `read` and the beginning of one more is the stream of
`payloads`: then `read` are the payloads whose frames are complete. -/
theorem eq_completeIn {read payloads : List (List UInt8)} {part rest : List UInt8}
    (hread : ∀ p ∈ read, p.length < 2 ^ 32) (hpayloads : ∀ p ∈ payloads, p.length < 2 ^ 32)
    (hpart : readFrame part = none)
    (hstream : read.flatMap frameBytes ++ part ++ rest = payloads.flatMap frameBytes) :
    read = completeIn payloads (read.flatMap frameBytes ++ part).length := by
  induction read generalizing payloads with
  | nil =>
    cases payloads with
    | nil => rfl
    | cons p payloads =>
      -- were the first frame complete, it could be read off `part`
      have hp := hpayloads p List.mem_cons_self
      rw [List.flatMap_nil, List.nil_append, completeIn]
      split
      · rename_i hle
        rw [← length_frameBytes] at hle
        rw [List.flatMap_nil, List.nil_append, List.flatMap_cons] at hstream
        have hfirst : frameBytes p <+: part ++ rest := hstream ▸ List.prefix_append _ _
        obtain ⟨more, hmore⟩ :=
          List.prefix_of_prefix_length_le hfirst (List.prefix_append part rest) hle
        rw [← hmore, readFrame_frameBytes hp] at hpart
        exact absurd hpart (by simp)
      · rfl
  | cons y read ih =>
    have hy := hread y List.mem_cons_self
    rw [List.flatMap_cons, List.append_assoc, List.append_assoc] at hstream
    have hfirst := readFrame_frameBytes hy (read.flatMap frameBytes ++ (part ++ rest))
    cases payloads with
    | nil =>
      rw [hstream] at hfirst
      exact absurd hfirst (by simp [readFrame])
    | cons p payloads =>
      have hp := hpayloads p List.mem_cons_self
      rw [hstream, List.flatMap_cons, readFrame_frameBytes hp] at hfirst
      obtain ⟨rfl, hrest⟩ := Prod.mk.injEq .. ▸ Option.some.inj hfirst
      have hstream' : read.flatMap frameBytes ++ part ++ rest = payloads.flatMap frameBytes := by
        rw [List.append_assoc, hrest]
      have ih' := ih (fun q hq => hread q (List.mem_cons_of_mem _ hq))
        (fun q hq => hpayloads q (List.mem_cons_of_mem _ hq)) hstream'
      rw [List.flatMap_cons, List.append_assoc, List.length_append, length_frameBytes, completeIn,
        if_pos (by omega), Nat.add_sub_cancel_left, ← ih']

section Stream

variable {w w' : Incoming}

/-- Reading leaves what has arrived. -/
theorem arrived_readSome {n : ℕ} (h : w.step (.readSome n) = some w') :
    w'.arrived = w.arrived ∧ w'.unread.length < w.unread.length := by
  obtain ⟨piece, hne, -, hunread, htaken, -, -⟩ := readSome_spec h
  have hlength := List.length_pos_iff.mpr hne
  refine ⟨?_, ?_⟩
  · rw [arrived, arrived, htaken, hunread, List.append_assoc]
  · rw [hunread, List.length_append]
    omega

/-- Each `async_read_some` takes a byte, so that there are no more of them than bytes. -/
theorem length_reads_le (ns : List ℕ)
    (h : runLabels step w (ns.map .readSome) = some w') : ns.length ≤ w.unread.length := by
  induction ns generalizing w with
  | nil => exact Nat.zero_le _
  | cons n ns ih =>
    rw [List.map_cons, runLabels] at h
    obtain ⟨v, hv, hrest⟩ := Option.bind_eq_some_iff.mp h
    have hle := ih hrest
    have hlt := (arrived_readSome hv).2
    rw [List.length_cons]
    omega

/-- The receiver reads on until it waits. -/
theorem exists_reads (w : Incoming) :
    ∃ (ns : List ℕ) (v : Incoming), runLabels step w (ns.map .readSome) = some v ∧
      v.arrived = w.arrived ∧ v.Waits := by
  induction hn : w.unread.length using Nat.strong_induction_on generalizing w with
  | _ size ih =>
    by_cases hwaits : w.Waits
    · exact ⟨[], w, rfl, rfl, hwaits⟩
    · obtain ⟨n, hstep⟩ := not_forall.mp hwaits
      obtain ⟨u, hu⟩ := Option.ne_none_iff_exists'.mp hstep
      obtain ⟨harrived, hlt⟩ := arrived_readSome hu
      obtain ⟨ns, v, hrun, hv, hend⟩ := ih u.unread.length (hn ▸ hlt) u rfl
      refine ⟨n :: ns, v, ?_, hv.trans harrived, hend⟩
      rw [List.map_cons, runLabels, hu]
      exact hrun

/-- At every moment the payloads read are those whose frames have been taken whole. -/
theorem Inv.payloads_eq (h : w.Inv) {payloads : List (List UInt8)}
    (hsize : ∀ p ∈ payloads, p.length < 2 ^ 32)
    (harrived : w.arrived <+: payloads.flatMap frameBytes) :
    w.payloads = completeIn payloads w.taken.length := by
  obtain ⟨rest, hrest⟩ := harrived
  have hstream : w.payloads.flatMap frameBytes ++ w.receiver.bytes ++ (w.unread ++ rest)
      = payloads.flatMap frameBytes := by
    rw [← h.taken, ← hrest, arrived, List.append_assoc]
  rw [h.taken]
  exact eq_completeIn h.size hsize h.unfilled.readFrame_bytes hstream

end Stream

/-- **Framing round trip.**  The payloads are sent, and whatever of their stream has arrived and in
whatever pieces it arrives and is taken: the receiver comes to wait, after at most as many reads as
there are bytes, and has then read exactly the payloads whose frames are complete.  When the whole
stream has arrived these are all of them, and nothing is left. -/
theorem framing_round_trip (payloads : List (List UInt8))
    (hsize : ∀ p ∈ payloads, p.length < 2 ^ 32 - 4) :
    ∃ stream, sendAll payloads = some stream ∧
      ∀ w, Reachable step initial w → w.arrived <+: stream →
        (∃ (ns : List ℕ) (v : Incoming), runLabels step w (ns.map .readSome) = some v ∧
          v.arrived = w.arrived ∧ v.Waits) ∧
        (∀ (ns : List ℕ) v, runLabels step w (ns.map .readSome) = some v →
          ns.length ≤ w.unread.length) ∧
        (w.Waits → w.payloads = completeIn payloads w.arrived.length) ∧
        (w.Waits → w.arrived = stream →
          w.payloads = payloads ∧ w.unread = [] ∧ w.receiver = .header []) := by
  refine ⟨payloads.flatMap frameBytes, sendAll_eq payloads hsize, fun w hw harrived => ?_⟩
  have hinv := inv_of_reachable hw
  have hsize' : ∀ p ∈ payloads, p.length < 2 ^ 32 := fun p hp => by
    have := hsize p hp
    omega
  have hpayloads := hinv.payloads_eq hsize' harrived
  have htaken : w.Waits → w.taken = w.arrived := fun hwaits => by
    rw [arrived, hinv.waits_iff.mp hwaits, List.append_nil]
  refine ⟨exists_reads w, fun ns v h => length_reads_le ns h, fun hwaits => ?_,
    fun hwaits hwhole => ?_⟩
  · rw [hpayloads, htaken hwaits]
  · have hall : w.payloads = payloads := by
      rw [hpayloads, htaken hwaits, hwhole]
      exact completeIn_of_length_le payloads le_rfl
    refine ⟨hall, hinv.waits_iff.mp hwaits, Receiver.eq_of_bytes_eq_nil ?_⟩
    have hbytes := hinv.taken
    rw [htaken hwaits, hwhole, hall] at hbytes
    exact List.append_right_eq_self.mp hbytes.symm

/-- A payload that looks like a header, and an empty one, in two chunks. -/
theorem framing_round_trip_chunks :
    ∃ w, Reachable step initial w ∧ w.arrived = [0, 0, 0, 4, 0, 0, 0, 2, 0, 0, 0, 0] ∧ w.Waits ∧
      w.payloads = [[0, 0, 0, 2], []] ∧ w.unread = [] ∧ w.receiver = .header [] := by
  obtain ⟨stream, hstream, hall⟩ := framing_round_trip [[0, 0, 0, 2], []] (by simp)
  have hbytes : stream = [0, 0, 0, 4, 0, 0, 0, 2, 0, 0, 0, 0] :=
    Option.some.inj (hstream.symm.trans (by decide +kernel))
  have harrive : Reachable step initial _ :=
    reachable_of_runLabels [.arrive [0, 0, 0], .arrive [4, 0, 0, 0, 2, 0, 0, 0, 0]] rfl
  have harrived := hbytes.symm
  obtain ⟨⟨ns, v, hrun, hv, hwaits⟩, -, -, -⟩ := hall _ harrive (harrived ▸ List.prefix_rfl)
  have hreach := harrive.trans (reachable_of_runLabels _ hrun)
  have hwhole : v.arrived = stream := hv.trans harrived
  obtain ⟨-, -, -, hend⟩ := hall v hreach (hwhole ▸ List.prefix_rfl)
  exact ⟨v, hreach, hwhole.trans hbytes, hwaits, hend hwaits hwhole⟩

end Incoming

end TwoPL
