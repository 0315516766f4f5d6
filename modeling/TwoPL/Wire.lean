/-
# Messages on the wire

`Peer::send` serializes a value, puts its length in front in four bytes, big-endian, and writes
both; `Peer::receive` reads a frame back and gives the payload to `JSONMessage::parse`, which
wants an object with the members `src`, `dest` and `body`.

The scheduler hands its messages to `send` WITHOUT that envelope, so none of them is accepted on
the other side (`scheduler_message_rejected`).  With an envelope the ids would still not get
through: an integer that fits `int64` is parsed to kind int64, and the handlers read `tx_id` with
`as_uint64` (`dispatch_reparse`).

Boost.JSON is not part of the repository.  Its `serialize` and `parse` are the fields of
`BoostJson`, and what is used of them is that parsing the text of a value gives the value back,
numbers in the kind their text has (`reparse`).
-/
import Mathlib.Algebra.Group.Int.Defs
import Mathlib.Algebra.Group.Nat.Defs
import TwoPL.Json

namespace TwoPL

/-! ## 1. Boost.JSON -/

/-- `boost::json::serialize` and `boost::json::parse`; `none` is a parse error. -/
structure BoostJson where
  serialize : Json → List UInt8
  parse : List UInt8 → Option Json

mutual

/-- A value as it comes back from its text: an integer is of kind int64 if it fits, and of kind
uint64 only if not. -/
def reparse : Json → Json
  | .uint64 u => if u.toNat < 2 ^ 63 then .int64 u.toInt64 else .uint64 u
  | .array elems => .array (reparseElems elems)
  | .object fields => .object (reparseFields fields)
  | v => v

def reparseElems : List Json → List Json
  | [] => []
  | v :: elems => reparse v :: reparseElems elems

def reparseFields : List (String × Json) → List (String × Json)
  | [] => []
  | (name, v) :: fields => (name, reparse v) :: reparseFields fields

end

/-- Names survive, values are reparsed. -/
theorem at?_reparseFields (o : JsonObject) (name : String) :
    JsonObject.at? (reparseFields o) name = (JsonObject.at? o name).map reparse := by
  induction o with
  | nil => rfl
  | cons f o ih =>
    obtain ⟨n, v⟩ := f
    simp only [reparseFields, JsonObject.at?_cons, ih]
    split <;> rfl

/-! ## 2. Frames -/

/-- `htonl`: four bytes, the most significant one first. -/
def bigEndian (len : UInt32) : List UInt8 :=
  [.ofNat (len.toNat / 2 ^ 24), .ofNat (len.toNat / 2 ^ 16), .ofNat (len.toNat / 2 ^ 8),
    .ofNat len.toNat]

/-- `ntohl`. -/
def ofBigEndian (a b c d : UInt8) : UInt32 :=
  .ofNat (a.toNat * 2 ^ 24 + b.toNat * 2 ^ 16 + c.toNat * 2 ^ 8 + d.toNat)

/-- `ntohl` undoes `htonl`. -/
theorem ofBigEndian_bigEndian (len : UInt32) :
    ofBigEndian (.ofNat (len.toNat / 2 ^ 24)) (.ofNat (len.toNat / 2 ^ 16))
      (.ofNat (len.toNat / 2 ^ 8)) (.ofNat len.toNat) = len := by
  have hlt : len.toNat < 2 ^ 32 := len.toNat_lt
  rw [← UInt32.toNat_inj]
  simp only [ofBigEndian, UInt32.toNat_ofNat', UInt8.toNat_ofNat']
  omega

/-- The bytes `Peer::send` writes.  `none` is the exception for a payload of 2^32 - 1 bytes or more,
and also stands for the copies leaving the buffer, whose size is computed in `uint32_t`. -/
def frame (payload : List UInt8) : Option (List UInt8) :=
  if 2 ^ 32 - 1 ≤ payload.length then none
  else
    let len := UInt32.ofNat payload.length
    if 4 + payload.length ≤ (4 + len).toNat then some (bigEndian len ++ payload) else none

/-- The payload `Peer::receive` reads off the stream, and what is left of the stream.  `none` while
the bytes are not all there. -/
def readFrame : List UInt8 → Option (List UInt8 × List UInt8)
  | a :: b :: c :: d :: stream =>
    let len := (ofBigEndian a b c d).toNat
    if len ≤ stream.length then some (stream.take len, stream.drop len) else none
  | _ => none

/-- A frame is the length and the payload; the length is the payload's. -/
theorem frame_spec {payload bytes : List UInt8} (h : frame payload = some bytes) :
    ∃ len : UInt32, bytes = bigEndian len ++ payload ∧ len.toNat = payload.length := by
  unfold frame at h
  split at h
  · exact absurd h (by simp)
  · rename_i hlt
    refine ⟨UInt32.ofNat payload.length, ?_, ?_⟩
    · simp only at h
      split at h
      · exact (Option.some.inj h).symm
      · exact absurd h (by simp)
    · rw [UInt32.toNat_ofNat']
      exact Nat.mod_eq_of_lt (by omega)

/-- A payload has a frame unless the size of the buffer does not fit `uint32_t`. -/
theorem frame_isSome_iff (payload : List UInt8) :
    (frame payload).isSome = true ↔ payload.length < 2 ^ 32 - 4 := by
  have hsize : (4 + UInt32.ofNat payload.length).toNat = (4 + payload.length) % 2 ^ 32 := by
    rw [UInt32.toNat_add, UInt32.toNat_ofNat']
    have hfour : (4 : UInt32).toNat = 4 := rfl
    omega
  unfold frame
  split
  · simp only [Option.isSome_none, Bool.false_eq_true, false_iff]
    omega
  · simp only [hsize]
    split
    · simp only [Option.isSome_some, true_iff]
      omega
    · simp only [Option.isSome_none, Bool.false_eq_true, false_iff]
      omega

/-- **What is read from a stream that begins with a frame** is the frame's payload, and what is left
is what comes behind the frame. -/
theorem readFrame_append {payload bytes : List UInt8} (h : frame payload = some bytes)
    (rest : List UInt8) : readFrame (bytes ++ rest) = some (payload, rest) := by
  obtain ⟨len, rfl, hlen⟩ := frame_spec h
  simp only [bigEndian, List.cons_append, List.nil_append, readFrame, ofBigEndian_bigEndian]
  simp [hlen]

/-- What is read from a stream of one frame is the frame's payload. -/
theorem readFrame_frame {payload stream : List UInt8} (h : frame payload = some stream) :
    readFrame stream = some (payload, []) := by
  simpa using readFrame_append h []

/-- Nothing is read while the end of the frame is missing. -/
theorem readFrame_of_prefix {payload bytes rest : List UInt8}
    (h : frame payload = some (bytes ++ rest)) (hrest : rest ≠ []) : readFrame bytes = none := by
  obtain ⟨len, heq, hlen⟩ := frame_spec h
  match bytes, heq with
  | [], _ | [_], _ | [_, _], _ | [_, _, _], _ => rfl
  | a :: b :: c :: d :: stream, heq =>
    simp only [bigEndian, List.cons_append, List.nil_append, List.cons.injEq] at heq
    obtain ⟨rfl, rfl, rfl, rfl, hpayload⟩ := heq
    have hpos : 0 < rest.length := List.length_pos_iff.mpr hrest
    have hlength := congrArg List.length hpayload
    rw [List.length_append] at hlength
    simp only [readFrame, ofBigEndian_bigEndian]
    rw [if_neg (by omega)]

/-- `JSONMessage`. -/
structure JSONMessage where
  src : NodeID
  dest : NodeID
  body : JsonObject

/-- The conversion of a JSON number to a `uint16_t`, which throws when the value does not fit.  No
message has a double here. -/
def jsonToId : Json → Option NodeID
  | .int64 i => if 0 ≤ i.toInt ∧ i.toInt < 2 ^ 16 then some (UInt16.ofNat i.toInt.toNat) else none
  | .uint64 u => if u.toNat < 2 ^ 16 then some (UInt16.ofNat u.toNat) else none
  | _ => none

/-- `value_to<JSONMessage>`: every member must be there. -/
def JSONMessage.ofJson (v : Json) : Option JSONMessage := do
  let o ← v.asObject
  let src ← jsonToId (← o.at? "src")
  let dest ← jsonToId (← o.at? "dest")
  let body ← (← o.at? "body").asObject
  return { src, dest, body }

/-- `JSONMessage::parse`. -/
def JSONMessage.parse (boost : BoostJson) (text : List UInt8) : Option JSONMessage :=
  (boost.parse text).bind JSONMessage.ofJson

/-- `Peer::send` on one side. -/
def peerSend (boost : BoostJson) (message : JsonObject) : Option (List UInt8) :=
  frame (boost.serialize (.object message))

/-- `Peer::receive` on the other, with the stream it leaves. -/
def peerReceive (boost : BoostJson) (stream : List UInt8) :
    Option (JSONMessage × List UInt8) := do
  let (payload, rest) ← readFrame stream
  let msg ← JSONMessage.parse boost payload
  return (msg, rest)

/-! ## 3. The scheduler's messages -/

/-- The message is sent, received whole, accepted, and the body it yields makes its handler read
the fields it was written with. -/
def SurvivesWire (boost : BoostJson) (m : Message) : Prop :=
  ∃ stream msg, peerSend boost m.toJson = some stream ∧
    peerReceive boost stream = some (msg, []) ∧ dispatch msg.body = some m.dispatched

/-- None of the messages has an envelope. -/
theorem at?_src_toJson (m : Message) : JsonObject.at? m.toJson "src" = none := by
  cases m with
  | opReq t op => cases op <;> simp [Message.toJson]
  | _ => simp [Message.toJson]

/-- ... so none is accepted once it has been parsed. -/
theorem ofJson_reparse_toJson (m : Message) :
    JSONMessage.ofJson (reparse (.object m.toJson)) = none := by
  simp [JSONMessage.ofJson, reparse, at?_reparseFields, at?_src_toJson]

/-- Nothing is received of a message that was sent. -/
theorem peerReceive_peerSend {boost : BoostJson} {m : Message} {stream : List UInt8}
    (hboost : boost.parse (boost.serialize (.object m.toJson)) = some (reparse (.object m.toJson)))
    (hsend : peerSend boost m.toJson = some stream) : peerReceive boost stream = none := by
  simp only [peerReceive, readFrame_frame hsend]
  simp [JSONMessage.parse, hboost, ofJson_reparse_toJson]

/-- **No message of the scheduler survives the wire.** -/
theorem scheduler_message_rejected (boost : BoostJson) (m : Message)
    (hboost : boost.parse (boost.serialize (.object m.toJson)) =
      some (reparse (.object m.toJson))) :
    ¬ SurvivesWire boost m := by
  rintro ⟨stream, msg, hsend, hreceive, -⟩
  rw [peerReceive_peerSend hboost hsend] at hreceive
  exact absurd hreceive (by simp)

/-- Boost.JSON on a single text. -/
def boostOn (v : Json) (text : String) : BoostJson where
  serialize _ := text.toUTF8.toList
  parse bytes := if bytes = text.toUTF8.toList then some (reparse v) else none

/-- The answer to a remote read. -/
theorem scheduler_message_rejected_resp :
    ¬ SurvivesWire (boostOn (.object (Message.opResp 1 7 (some [5])).toJson)
        "\x7b\"type\":\"op_resp\",\"tx_id\":1,\"key\":7,\"value\":[5]\x7d")
      (.opResp 1 7 (some [5])) :=
  scheduler_message_rejected _ _ (if_pos rfl)

/-- Boost.JSON on a lock request of transaction 1 for key 7. -/
def lockRequestText : BoostJson :=
  boostOn (.object (Message.lockReq 1 7).toJson)
    "\x7b\"type\":\"lock_req\",\"tx_id\":1,\"key\":7\x7d"

/-- **A lock request is written, and not accepted on the other side.** -/
theorem lock_request_rejected :
    (peerSend lockRequestText (Message.lockReq 1 7).toJson).isSome = true ∧
      ∀ stream, peerSend lockRequestText (Message.lockReq 1 7).toJson = some stream →
        peerReceive lockRequestText stream = none ∧
        ¬ SurvivesWire lockRequestText (.lockReq 1 7) := by
  refine ⟨by decide +kernel, fun stream hsend => ?_⟩
  have hnone := peerReceive_peerSend (if_pos rfl) hsend
  refine ⟨hnone, ?_⟩
  rintro ⟨stream', msg, hsend', hreceive, -⟩
  rw [hsend, Option.some.injEq] at hsend'
  subst hsend'
  rw [hnone] at hreceive
  exact absurd hreceive (by simp)

/-! ## 4. The ids, with an envelope -/

/-- The id of a message is parsed to kind int64 when it fits. -/
theorem lockFields_reparse {m : Message} (h : m.txId.toNat < 2 ^ 63) :
    lockFields (reparseFields m.toJson) = none := by
  have htxId : JsonObject.at? (reparseFields m.toJson) "tx_id" = some (.int64 m.txId.toInt64) := by
    rw [at?_reparseFields, Message.at?_txId_toJson, Option.map_some, reparse, if_pos h]
  unfold lockFields
  rw [htxId]
  rfl

/-- **The body alone would not do either**: with an id below 2^63, `as_uint64` throws in every
handler, and the message is ignored. -/
theorem dispatch_reparse {m : Message} (h : m.txId.toNat < 2 ^ 63) :
    dispatch (reparseFields m.toJson) = some .ignored := by
  have hfields := lockFields_reparse h
  have htype : JsonObject.at? (reparseFields m.toJson) "type" = some (.string m.typeName) := by
    rw [at?_reparseFields, Message.at?_type_toJson]
    rfl
  have hprep : m.typeName ≠ "txn_prep" := by cases m <;> simp [Message.typeName]
  have hreq : opRequestFields (reparseFields m.toJson) = none := by
    simp only [opRequestFields, hfields]
    cases JsonObject.at? (reparseFields m.toJson) "op_type" <;> rfl
  have hresp : opResponseFields (reparseFields m.toJson) = none := by
    simp [opResponseFields, hfields]
  simp only [dispatch, htype, hfields, hreq, hresp, Json.asString]
  simp [m.cStr_typeName, hprep]

end TwoPL
