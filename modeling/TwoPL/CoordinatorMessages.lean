/-
# The lock messages of the coordinator

`DistributedCoordinator` has its own lock messages next to those of the scheduler: three functions
that build them and two that read them.  Transaction ids and timestamps are `uint64_t`, written with
kind uint64 and read with `as_uint64`.

In memory the two halves agree.  Over the wire they do not: Boost.JSON parses an integer that fits
`int64` to kind int64, so that `as_uint64` throws on every id and every timestamp below 2^63 and the
parser returns false.  A request comes back exactly if BOTH numbers are at least 2^63
(`lock_request_round_trips_iff`), a response if its id is (`lock_response_round_trips_iff`).

No parser accepts a message of another kind, in memory or from the wire: each of them wants a field
that the messages of the other kinds do not have.
-/
import TwoPL.Wire

namespace TwoPL

/-! ## 1. The messages -/

/-- The accessor of booleans; `none` is the exception. -/
@[simp] def Json.asBool : Json → Option Bool
  | .bool b => some b
  | _ => none

/-- `DistTxMessage`, an `enum class` over `uint8_t`. -/
inductive DistTxMessage
  | LOCK_REQUEST
  | LOCK_GRANTED
  | LOCK_DENIED
  | LOCK_RELEASE
  | OPERATION_REQUEST
  | OPERATION_RESULT

def DistTxMessage.toUInt8 : DistTxMessage → UInt8
  | LOCK_REQUEST => 0
  | LOCK_GRANTED => 1
  | LOCK_DENIED => 2
  | LOCK_RELEASE => 3
  | OPERATION_REQUEST => 4
  | OPERATION_RESULT => 5

/-- `msg["type"] = static_cast<uint8_t>(type)`: an unsigned integer is of kind uint64. -/
def DistTxMessage.toJson (type : DistTxMessage) : Json :=
  .uint64 type.toUInt8.toUInt64

/-- `create_lock_request`. -/
def createLockRequest (txId : TransactionId) (key : KeyType) (timestamp : UInt64) : Json :=
  .object [("type", DistTxMessage.LOCK_REQUEST.toJson), ("tx_id", .uint64 txId),
    ("key", .int64 key), ("timestamp", .uint64 timestamp)]

/-- `create_lock_response`: the type is LOCK_GRANTED, granted or not. -/
def createLockResponse (txId : TransactionId) (granted : Bool) : Json :=
  .object [("type", DistTxMessage.LOCK_GRANTED.toJson), ("tx_id", .uint64 txId),
    ("granted", .bool granted)]

/-- `create_lock_release`. -/
def createLockRelease (txId : TransactionId) (key : KeyType) : Json :=
  .object [("type", DistTxMessage.LOCK_RELEASE.toJson), ("tx_id", .uint64 txId),
    ("key", .int64 key)]

/-! ## 2. The parsers -/

/-- The output parameters of `parse_lock_request`. -/
structure LockRequestOut where
  txId : TransactionId
  key : KeyType
  timestamp : UInt64
  deriving DecidableEq

/-- The output parameters of `parse_lock_response`. -/
structure LockResponseOut where
  txId : TransactionId
  granted : Bool
  deriving DecidableEq

/-- `parse_lock_request`: what it returns, and its output parameters.  An exception of an accessor
makes it return false, with the parameters assigned before it. -/
def parseLockRequest (msg : Json) (out : LockRequestOut) : Bool × LockRequestOut :=
  match msg.asObject with
  | none => (false, out)
  | some obj =>
    if !obj.contains "tx_id" || !obj.contains "key" || !obj.contains "timestamp" then (false, out)
    else
      match (obj.at? "tx_id").bind Json.asUint64 with
      | none => (false, out)
      | some txId =>
        match (obj.at? "key").bind Json.asInt64 with
        | none => (false, { out with txId := txId })
        | some key =>
          match (obj.at? "timestamp").bind Json.asUint64 with
          | none => (false, { out with txId := txId, key := key })
          | some timestamp => (true, ⟨txId, key, timestamp⟩)

/-- `parse_lock_response`. -/
def parseLockResponse (msg : Json) (out : LockResponseOut) : Bool × LockResponseOut :=
  match msg.asObject with
  | none => (false, out)
  | some obj =>
    if !obj.contains "tx_id" || !obj.contains "granted" then (false, out)
    else
      match (obj.at? "tx_id").bind Json.asUint64 with
      | none => (false, out)
      | some txId =>
        match (obj.at? "granted").bind Json.asBool with
        | none => (false, { out with txId := txId })
        | some granted => (true, ⟨txId, granted⟩)

/-- A field that is read is there. -/
theorem JsonObject.contains_of_bind {α : Type} {obj : JsonObject} {name : String}
    {read : Json → Option α} {a : α} (h : (obj.at? name).bind read = some a) :
    obj.contains name = true := by
  obtain ⟨v, hv, -⟩ := Option.bind_eq_some_iff.mp h
  rw [contains, hv, Option.isSome_some]

/-- What a request must have to be accepted, and the values read. -/
theorem parseLockRequest_eq_true_iff {obj : JsonObject} {out fields : LockRequestOut} :
    parseLockRequest (.object obj) out = (true, fields) ↔
      (obj.at? "tx_id").bind Json.asUint64 = some fields.txId ∧
      (obj.at? "key").bind Json.asInt64 = some fields.key ∧
      (obj.at? "timestamp").bind Json.asUint64 = some fields.timestamp := by
  obtain ⟨txId, key, timestamp⟩ := fields
  simp only [parseLockRequest, Json.asObject]
  split
  · rename_i habsent
    refine ⟨fun h => absurd h (by simp), ?_⟩
    rintro ⟨htx, hkey, hts⟩
    simp [JsonObject.contains_of_bind htx, JsonObject.contains_of_bind hkey,
      JsonObject.contains_of_bind hts] at habsent
  · cases (obj.at? "tx_id").bind Json.asUint64 <;> cases (obj.at? "key").bind Json.asInt64 <;>
      cases (obj.at? "timestamp").bind Json.asUint64 <;> simp

/-- What a response must have. -/
theorem parseLockResponse_eq_true_iff {obj : JsonObject} {out fields : LockResponseOut} :
    parseLockResponse (.object obj) out = (true, fields) ↔
      (obj.at? "tx_id").bind Json.asUint64 = some fields.txId ∧
      (obj.at? "granted").bind Json.asBool = some fields.granted := by
  obtain ⟨txId, granted⟩ := fields
  simp only [parseLockResponse, Json.asObject]
  split
  · rename_i habsent
    refine ⟨fun h => absurd h (by simp), ?_⟩
    rintro ⟨htx, hgranted⟩
    simp [JsonObject.contains_of_bind htx, JsonObject.contains_of_bind hgranted] at habsent
  · cases (obj.at? "tx_id").bind Json.asUint64 <;>
      cases (obj.at? "granted").bind Json.asBool <;> simp

/-- A request without one of its fields is rejected. -/
theorem parseLockRequest_of_absent {obj : JsonObject} {out : LockRequestOut}
    (h : obj.at? "key" = none ∨ obj.at? "timestamp" = none) :
    (parseLockRequest (.object obj) out).1 = false := by
  rcases h with h | h <;>
    simp [parseLockRequest, JsonObject.contains, h]

theorem parseLockResponse_of_absent {obj : JsonObject} {out : LockResponseOut}
    (h : obj.at? "granted" = none) : (parseLockResponse (.object obj) out).1 = false := by
  simp [parseLockResponse, JsonObject.contains, h]

/-! ## 3. Over the wire -/

/-- Boost.JSON gives the value back from its text, numbers in the kind their text has. -/
def Transmits (boost : BoostJson) (v : Json) : Prop :=
  boost.parse (boost.serialize v) = some (reparse v)

/-- An integer of kind uint64 is of kind uint64 again only if it does not fit `int64`. -/
theorem asUint64_reparse_iff (u u' : UInt64) :
    (reparse (.uint64 u)).asUint64 = some u' ↔ 2 ^ 63 ≤ u.toNat ∧ u = u' := by
  rw [reparse]
  split
  · rename_i hlt
    simp only [Json.asUint64, reduceCtorEq, false_iff]
    omega
  · rename_i hge
    simp only [Json.asUint64, Option.some.injEq]
    exact ⟨fun h => ⟨by omega, h⟩, fun h => h.2⟩

section Wire

variable (boost : BoostJson) (txId : TransactionId) (key : KeyType) (timestamp : UInt64)
  (granted : Bool)

/-- The request is serialized, parsed, accepted, and its values are read back. -/
def LockRequestRoundTrips : Prop :=
  ∃ v, boost.parse (boost.serialize (createLockRequest txId key timestamp)) = some v ∧
    ∀ out, parseLockRequest v out = (true, ⟨txId, key, timestamp⟩)

/-- The response likewise. -/
def LockResponseRoundTrips : Prop :=
  ∃ v, boost.parse (boost.serialize (createLockResponse txId granted)) = some v ∧
    ∀ out, parseLockResponse v out = (true, ⟨txId, granted⟩)

/-- `v` is rejected, as it is and as it comes from the wire. -/
def Rejected {α : Type} (parser : Json → α → Bool × α) (v : Json) : Prop :=
  ∀ out, (parser v out).1 = false ∧
    ∀ v', boost.parse (boost.serialize v) = some v' → (parser v' out).1 = false

/-- No message is accepted by the parser of another kind. -/
structure KindsApart : Prop where
  response : Rejected boost parseLockRequest (createLockResponse txId granted)
  releaseAsRequest : Rejected boost parseLockRequest (createLockRelease txId key)
  request : Rejected boost parseLockResponse (createLockRequest txId key timestamp)
  releaseAsResponse : Rejected boost parseLockResponse (createLockRelease txId key)

variable {boost txId key timestamp granted}

theorem lock_request_round_trips_iff
    (hboost : Transmits boost (createLockRequest txId key timestamp)) :
    LockRequestRoundTrips boost txId key timestamp ↔
      2 ^ 63 ≤ txId.toNat ∧ 2 ^ 63 ≤ timestamp.toNat := by
  have hread : ∀ out, parseLockRequest (reparse (createLockRequest txId key timestamp)) out
      = (true, ⟨txId, key, timestamp⟩) ↔ 2 ^ 63 ≤ txId.toNat ∧ 2 ^ 63 ≤ timestamp.toNat := by
    intro out
    rw [createLockRequest, reparse, parseLockRequest_eq_true_iff]
    simp only [at?_reparseFields, JsonObject.at?_cons, String.reduceEq, if_true, if_false,
      Option.map_some, Option.bind_some, asUint64_reparse_iff]
    simp [reparse]
  unfold LockRequestRoundTrips
  rw [hboost]
  constructor
  · rintro ⟨v, hv, hall⟩
    rw [Option.some.injEq] at hv
    exact (hread ⟨0, 0, 0⟩).mp (hv ▸ hall ⟨0, 0, 0⟩)
  · exact fun h => ⟨_, rfl, fun out => (hread out).mpr h⟩

theorem lock_response_round_trips_iff (hboost : Transmits boost (createLockResponse txId granted)) :
    LockResponseRoundTrips boost txId granted ↔ 2 ^ 63 ≤ txId.toNat := by
  have hread : ∀ out, parseLockResponse (reparse (createLockResponse txId granted)) out
      = (true, ⟨txId, granted⟩) ↔ 2 ^ 63 ≤ txId.toNat := by
    intro out
    rw [createLockResponse, reparse, parseLockResponse_eq_true_iff]
    simp only [at?_reparseFields, JsonObject.at?_cons, String.reduceEq, if_true, if_false,
      Option.map_some, Option.bind_some, asUint64_reparse_iff]
    simp [reparse]
  unfold LockResponseRoundTrips
  rw [hboost]
  constructor
  · rintro ⟨v, hv, hall⟩
    rw [Option.some.injEq] at hv
    exact (hread ⟨0, false⟩).mp (hv ▸ hall ⟨0, false⟩)
  · exact fun h => ⟨_, rfl, fun out => (hread out).mpr h⟩

/-- What is rejected in memory for a field it does not have is rejected from the wire. -/
theorem rejected_request {obj : JsonObject} (hboost : Transmits boost (.object obj))
    (h : obj.at? "key" = none ∨ obj.at? "timestamp" = none) :
    Rejected boost parseLockRequest (.object obj) := by
  refine fun out => ⟨parseLockRequest_of_absent h, fun v' hv' => ?_⟩
  rw [hboost, Option.some.injEq, reparse] at hv'
  subst hv'
  refine parseLockRequest_of_absent ?_
  rcases h with h | h
  · exact .inl (by rw [at?_reparseFields, h]; rfl)
  · exact .inr (by rw [at?_reparseFields, h]; rfl)

theorem rejected_response {obj : JsonObject} (hboost : Transmits boost (.object obj))
    (h : obj.at? "granted" = none) : Rejected boost parseLockResponse (.object obj) := by
  refine fun out => ⟨parseLockResponse_of_absent h, fun v' hv' => ?_⟩
  rw [hboost, Option.some.injEq, reparse] at hv'
  subst hv'
  exact parseLockResponse_of_absent (by rw [at?_reparseFields, h]; rfl)

/-- **No parser accepts a message of another kind.** -/
theorem kinds_apart (hreq : Transmits boost (createLockRequest txId key timestamp))
    (hresp : Transmits boost (createLockResponse txId granted))
    (hrel : Transmits boost (createLockRelease txId key)) :
    KindsApart boost txId key timestamp granted where
  response := rejected_request hresp (by simp)
  releaseAsRequest := rejected_request hrel (by simp)
  request := rejected_response hreq (by simp)
  releaseAsResponse := rejected_response hrel (by simp)

/-- **The lock messages of the coordinator round-trip over the wire** exactly if neither the
transaction id nor the timestamp fits `int64`. -/
theorem coordinator_messages_round_trip_iff (boost : BoostJson) (txId : TransactionId)
    (key : KeyType) (timestamp : UInt64) (granted : Bool)
    (hreq : Transmits boost (createLockRequest txId key timestamp))
    (hresp : Transmits boost (createLockResponse txId granted))
    (hrel : Transmits boost (createLockRelease txId key)) :
    (LockRequestRoundTrips boost txId key timestamp ∧ LockResponseRoundTrips boost txId granted ∧
        KindsApart boost txId key timestamp granted) ↔
      2 ^ 63 ≤ txId.toNat ∧ 2 ^ 63 ≤ timestamp.toNat := by
  rw [lock_request_round_trips_iff hreq, lock_response_round_trips_iff hresp]
  constructor
  · rintro ⟨hboth, -, -⟩
    exact hboth
  · exact fun h => ⟨h, h.1, kinds_apart hreq hresp hrel⟩

end Wire

/-- Boost.JSON on the messages of one transaction, told apart by their fields. -/
def boostOnLocks (request response release : Json) (texts : String × String × String) :
    BoostJson where
  serialize v :=
    match v with
    | .object obj =>
      if JsonObject.contains obj "granted" then texts.2.1.toUTF8.toList
      else if JsonObject.contains obj "timestamp" then texts.1.toUTF8.toList
      else texts.2.2.toUTF8.toList
    | _ => []
  parse bytes :=
    if bytes = texts.1.toUTF8.toList then some (reparse request)
    else if bytes = texts.2.1.toUTF8.toList then some (reparse response)
    else if bytes = texts.2.2.toUTF8.toList then some (reparse release)
    else none

/-- Transaction and timestamp 2^63, key -7. -/
def hugeRequestText : String :=
  "\x7b\"type\":0,\"tx_id\":9223372036854775808,\"key\":-7,\"timestamp\":9223372036854775808\x7d"

def hugeLocks : BoostJson :=
  boostOnLocks (createLockRequest 9223372036854775808 (-7) 9223372036854775808)
    (createLockResponse 9223372036854775808 true) (createLockRelease 9223372036854775808 (-7))
    (hugeRequestText, "\x7b\"type\":1,\"tx_id\":9223372036854775808,\"granted\":true\x7d",
      "\x7b\"type\":3,\"tx_id\":9223372036854775808,\"key\":-7\x7d")

/-- Ids that do not fit `int64` get through. -/
theorem coordinator_messages_round_trip_huge :
    LockRequestRoundTrips hugeLocks 9223372036854775808 (-7) 9223372036854775808 ∧
      LockResponseRoundTrips hugeLocks 9223372036854775808 true ∧
      KindsApart hugeLocks 9223372036854775808 (-7) 9223372036854775808 true := by
  refine (coordinator_messages_round_trip_iff hugeLocks _ _ _ _ ?_ ?_ ?_).mpr (by decide)
  · exact if_pos rfl
  · exact (if_neg (by decide +kernel)).trans (if_pos rfl)
  · exact (if_neg (by decide +kernel)).trans ((if_neg (by decide +kernel)).trans (if_pos rfl))

/-- Boost.JSON on the request of transaction 1 for key 7 at time 5. -/
def smallRequest : BoostJson :=
  boostOn (createLockRequest 1 7 5)
    "\x7b\"type\":0,\"tx_id\":1,\"key\":7,\"timestamp\":5\x7d"

/-- **The request of transaction 1 is not accepted when it comes from the wire**, although it is in
memory. -/
theorem small_request_rejected :
    Transmits smallRequest (createLockRequest 1 7 5) ∧
      parseLockRequest (createLockRequest 1 7 5) ⟨0, 0, 0⟩ = (true, ⟨1, 7, 5⟩) ∧
      ¬ LockRequestRoundTrips smallRequest 1 7 5 := by
  have hboost : Transmits smallRequest (createLockRequest 1 7 5) := if_pos rfl
  refine ⟨hboost, by rfl, ?_⟩
  rw [lock_request_round_trips_iff hboost]
  decide

end TwoPL
