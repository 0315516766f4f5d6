/-
# JSON values, and the messages of the scheduler

Boost.JSON as far as the repository uses it: a value has a KIND, and an accessor of another
kind throws.  The kind of a number is part of the value: `obj["tx_id"] = tx_id` with a
`uint64_t` makes a value of kind uint64, `obj["key"] = key` with an `int64_t` one of kind
int64, whatever the number is.

`Message` lists the objects the scheduler passes to `TransactionServer::send`, and
`Message.toJson` builds each as the source does, field by field.  The other half is what the
`handle_*` functions read out of an object (`lockFields`, `opRequestFields`,
`opResponseFields`).  On the objects as they are IN MEMORY the two halves agree
(`dispatch_toJson`); what happens to them on the wire is the subject of
`Wire.lean`.

One comparison in the source is not one of strings: `handle_lock_response` compares the
`const char*` of the message type with a constant, so it compares two ADDRESSES (`CharPtr`,
`isGranted`), and the two are never equal (`isGranted_eq_false`).
-/
import TwoPL.Storage

namespace TwoPL

/-! ## 1. Values -/

/-- `boost::json::value`; a double is kept as its bits. -/
inductive Json
  | null
  | bool (b : Bool)
  | int64 (i : Int64)
  | uint64 (u : UInt64)
  | double (bits : UInt64)
  | string (s : String)
  | array (elems : List Json)
  | object (fields : List (String × Json))

/-- `boost::json::object`. -/
abbrev JsonObject := List (String × Json)

namespace Json

/-- The accessors; `none` is the exception they throw. -/
@[simp] def asUint64 : Json → Option UInt64
  | uint64 u => some u
  | _ => none

@[simp] def asInt64 : Json → Option Int64
  | int64 i => some i
  | _ => none

@[simp] def asString : Json → Option String
  | string s => some s
  | _ => none

@[simp] def asArray : Json → Option (List Json)
  | array l => some l
  | _ => none

@[simp] def asObject : Json → Option JsonObject
  | object o => some o
  | _ => none

end Json

namespace JsonObject

/-- `obj.at(name)`, which throws on an absent name. -/
def at? (o : JsonObject) (name : String) : Option Json := o.lookup name

def contains (o : JsonObject) (name : String) : Bool := (o.at? name).isSome

/-- `obj[name] = v`: in place when the name is there, at the end when not. -/
def set : JsonObject → String → Json → JsonObject
  | [], name, v => [(name, v)]
  | (n, w) :: o, name, v => if n = name then (n, v) :: o else (n, w) :: set o name v

/-- `obj.erase(name)`.  The order of what remains is not significant. -/
def erase (o : JsonObject) (name : String) : JsonObject := o.filter fun f => f.1 ≠ name

@[simp] theorem at?_cons (n name : String) (v : Json) (o : JsonObject) :
    at? ((n, v) :: o) name = if name = n then some v else at? o name := by
  by_cases h : name = n
  · subst h; simp [at?]
  · simp [at?, List.lookup_cons, h, beq_eq_false_iff_ne.mpr h]

@[simp] theorem at?_nil (name : String) : at? [] name = none := rfl

/-- **Reading back after an assignment.** -/
theorem at?_set (o : JsonObject) (name name' : String) (v : Json) :
    (o.set name v).at? name' = if name' = name then some v else o.at? name' := by
  induction o with
  | nil => simp [set]
  | cons f o ih =>
    obtain ⟨n, w⟩ := f
    simp only [set]
    by_cases hn : n = name
    · subst hn
      simp only [if_true, at?_cons]
      split <;> rfl
    · simp only [hn, if_false, at?_cons, ih]
      by_cases hn' : name' = n
      · subst hn'; simp [hn]
      · simp [hn']

theorem at?_erase (o : JsonObject) (name name' : String) :
    (o.erase name).at? name' = if name' = name then none else o.at? name' := by
  induction o with
  | nil => simp [erase]
  | cons f o ih =>
    obtain ⟨n, w⟩ := f
    simp only [erase] at ih
    by_cases hn : n = name
    · subst hn
      simp only [erase, List.filter_cons, ne_eq, not_true_eq_false, decide_false,
        Bool.false_eq_true, if_false, ih, at?_cons]
      by_cases hn' : name' = n
      · simp [hn']
      · simp [hn']
    · simp only [erase, List.filter_cons, ne_eq, hn, not_false_eq_true, decide_true, if_true,
        at?_cons, ih]
      by_cases hn' : name' = n
      · subst hn'; simp [hn]
      · simp [hn']

end JsonObject

/-- `std::string(s.c_str())`: up to the first NUL. -/
def cStr (s : String) : String := String.ofList (s.toList.takeWhile (· ≠ '\x00'))

/-! ## 2. `MessageType` and addresses -/

namespace MessageType
@[simp] def LOCK_REQUEST := "lock_req"
@[simp] def LOCK_GRANTED := "lock_granted"
@[simp] def LOCK_DENIED := "lock_denied"
@[simp] def LOCK_RELEASE := "lock_rel"
@[simp] def OP_REQUEST := "op_req"
@[simp] def OP_RESPONSE := "op_resp"
@[simp] def TXN_PREPARE := "txn_prep"
end MessageType

/-- What a `const char*` points at: a string literal of the program, or the characters a
`boost::json::string` owns. -/
inductive CharPtr
  | literal (s : String)
  | owned (s : String)
  deriving DecidableEq

/-- `s.c_str()` on a `boost::json::string`. -/
def jsonCStr (s : String) : CharPtr := .owned s

/-- `msg.at("type").as_string().c_str() == MessageType::LOCK_GRANTED`, as the source writes
it: both sides are `const char*`. -/
def isGranted (type : String) : Bool := jsonCStr type = .literal MessageType.LOCK_GRANTED

/-- **The comparison is of addresses**: no JSON string owns the characters of a literal. -/
@[simp] theorem isGranted_eq_false (type : String) : isGranted type = false := by
  simp [isGranted, jsonCStr]

/-! ## 3. The messages -/

/-- What the scheduler sends. -/
inductive Message
  | lockReq (txId : TransactionId) (key : KeyType)
  | lockGranted (txId : TransactionId) (key : KeyType)
  | lockDenied (txId : TransactionId) (key : KeyType)
  | lockRel (txId : TransactionId) (key : KeyType)
  | opReq (txId : TransactionId) (op : Operation)
  | opResp (txId : TransactionId) (key : KeyType) (result : Option ValueContainer)
  deriving DecidableEq

namespace Message

/-- The object, with its fields in the order the source assigns them. -/
def toJson : Message → JsonObject
  | lockReq t k =>
    [("type", .string MessageType.LOCK_REQUEST), ("tx_id", .uint64 t), ("key", .int64 k)]
  | lockGranted t k =>
    [("type", .string MessageType.LOCK_GRANTED), ("tx_id", .uint64 t), ("key", .int64 k)]
  | lockDenied t k =>
    [("type", .string MessageType.LOCK_DENIED), ("tx_id", .uint64 t), ("key", .int64 k)]
  | lockRel t k =>
    [("type", .string MessageType.LOCK_RELEASE), ("tx_id", .uint64 t), ("key", .int64 k)]
  | opReq t (.append k v) =>
    [("type", .string MessageType.OP_REQUEST), ("tx_id", .uint64 t), ("key", .int64 k),
      ("op_type", .string "append"), ("value", .int64 v)]
  | opReq t (.read k) =>
    [("type", .string MessageType.OP_REQUEST), ("tx_id", .uint64 t), ("key", .int64 k),
      ("op_type", .string "read")]
  | opResp t k result =>
    [("type", .string MessageType.OP_RESPONSE), ("tx_id", .uint64 t), ("key", .int64 k),
      ("value", match result with
        | some values => .array (values.map .int64)
        | none => .null)]

/-- The type a message has. -/
def typeName : Message → String
  | lockReq _ _ => MessageType.LOCK_REQUEST
  | lockGranted _ _ => MessageType.LOCK_GRANTED
  | lockDenied _ _ => MessageType.LOCK_DENIED
  | lockRel _ _ => MessageType.LOCK_RELEASE
  | opReq _ _ => MessageType.OP_REQUEST
  | opResp _ _ _ => MessageType.OP_RESPONSE

/-- The transaction a message is about. -/
def txId : Message → TransactionId
  | lockReq t _ | lockGranted t _ | lockDenied t _ | lockRel t _ | opReq t _ | opResp t _ _ => t

end Message

/-! ## 4. What the handlers read -/

/-- The `tx_id` and `key` of a lock message.  `none` covers an absent field (the handler
returns) and a field of another kind (the exception is caught and logged): either way the
handler does nothing. -/
def lockFields (msg : JsonObject) : Option (TransactionId × KeyType) := do
  let txId ← (← msg.at? "tx_id").asUint64
  let key ← (← msg.at? "key").asInt64
  return (txId, key)

/-- The fields `handle_operation_request` reads: the id, the key, and the operation.  An
`op_type` other than the two known ones leaves no operation, and is still answered. -/
def opRequestFields (msg : JsonObject) :
    Option (TransactionId × KeyType × Option Operation) := do
  let opTypeVal ← msg.at? "op_type"
  let (txId, key) ← lockFields msg
  let opType := cStr (← opTypeVal.asString)
  if opType = "append" then
    let value ← (← msg.at? "value").asInt64
    return (txId, key, some (.append key value))
  else if opType = "read" then return (txId, key, some (.read key))
  else return (txId, key, none)

/-- The fields `handle_operation_response` reads.  A null or absent value is stored as an
empty list. -/
def opResponseFields (msg : JsonObject) : Option (TransactionId × KeyType × ValueContainer) := do
  let (txId, key) ← lockFields msg
  match msg.at? "value" with
  | none | some .null => return (txId, key, [])
  | some value =>
    let values ← (← value.asArray).mapM Json.asInt64
    return (txId, key, values)

@[simp] theorem mapM_asInt64 (values : ValueContainer) :
    values.mapM (Json.asInt64 ∘ Json.int64) = some values := by
  induction values with
  | nil => rfl
  | cons v values ih => simp [ih]

/-! ## 5. `handle_peer_message` -/

/-- The handler a message is routed to, with the fields it read; `ignored` when it did
nothing with the message. -/
inductive Dispatch
  | lockRequest (txId : TransactionId) (key : KeyType)
  | lockResponse (txId : TransactionId) (key : KeyType) (granted : Bool)
  | lockRelease (txId : TransactionId) (key : KeyType)
  | opRequest (txId : TransactionId) (key : KeyType) (op : Option Operation)
  | opResponse (txId : TransactionId) (key : KeyType) (values : ValueContainer)
  /-- Answered with a `txn_commit` that carries this id; no code sends a `txn_prep`. -/
  | prepare (txId : Json)
  | ignored

/-- `handle_peer_message` up to the point where a handler has its fields.  `none` is an
exception that leaves the function.  The handlers of `txn_commit` and `txn_abort` do nothing, so
these messages are ignored like any other type. -/
def dispatch (msg : JsonObject) : Option Dispatch :=
  match msg.at? "type" with
  | none => some .ignored
  | some typeVal => do
    let typeStr ← typeVal.asString
    let type := cStr typeStr
    if type = MessageType.LOCK_REQUEST then
      return match lockFields msg with
        | some (txId, key) => .lockRequest txId key
        | none => .ignored
    else if type = MessageType.LOCK_GRANTED ∨ type = MessageType.LOCK_DENIED then
      return match lockFields msg with
        | some (txId, key) => .lockResponse txId key (isGranted typeStr)
        | none => .ignored
    else if type = MessageType.LOCK_RELEASE then
      return match lockFields msg with
        | some (txId, key) => .lockRelease txId key
        | none => .ignored
    else if type = MessageType.OP_REQUEST then
      return match opRequestFields msg with
        | some (txId, key, op) => .opRequest txId key op
        | none => .ignored
    else if type = MessageType.OP_RESPONSE then
      return match opResponseFields msg with
        | some (txId, key, values) => .opResponse txId key values
        | none => .ignored
    else if type = MessageType.TXN_PREPARE then
      return .prepare ((msg.at? "tx_id").getD (.uint64 0))
    else return .ignored

/-- What each message comes out as on the other side, when its object is handed over as it
is.  A grant and a denial come out alike. -/
def Message.dispatched : Message → Dispatch
  | lockReq t k => .lockRequest t k
  | lockGranted t k | lockDenied t k => .lockResponse t k false
  | lockRel t k => .lockRelease t k
  | opReq t op => .opRequest t op.key (some op)
  | opResp t k result => .opResponse t k (result.getD [])

/-- No constant of the protocol has a NUL in it. -/
theorem cStr_constants : ∀ s ∈ ["lock_req", "lock_granted", "lock_denied", "lock_rel", "op_req",
    "op_resp", "append", "read"], cStr s = s := by
  decide

theorem Message.at?_type_toJson (m : Message) :
    JsonObject.at? m.toJson "type" = some (.string m.typeName) := by
  cases m with
  | opReq t op => cases op <;> simp [toJson, typeName]
  | _ => simp [toJson, typeName]

theorem Message.at?_txId_toJson (m : Message) :
    JsonObject.at? m.toJson "tx_id" = some (.uint64 m.txId) := by
  cases m with
  | opReq t op => cases op <;> simp [toJson, txId]
  | _ => simp [toJson, txId]

theorem Message.cStr_typeName (m : Message) : cStr m.typeName = m.typeName := by
  apply cStr_constants
  cases m <;> simp [typeName]

theorem opRequestFields_toJson (t : TransactionId) (op : Operation) :
    opRequestFields (Message.opReq t op).toJson = some (t, op.key, some op) := by
  have happ : cStr "append" = "append" := cStr_constants _ (by simp)
  have hread : cStr "read" = "read" := cStr_constants _ (by simp)
  cases op with
  | read k => simp [opRequestFields, lockFields, Message.toJson, hread, Operation.key]
  | append k v => simp [opRequestFields, lockFields, Message.toJson, happ, Operation.key]

theorem opResponseFields_toJson (t : TransactionId) (k : KeyType)
    (result : Option ValueContainer) :
    opResponseFields (Message.opResp t k result).toJson = some (t, k, result.getD []) := by
  cases result with
  | none => simp [opResponseFields, lockFields, Message.toJson]
  | some values => simp [opResponseFields, lockFields, Message.toJson]

/-- **In memory, every message is read as it was written.** -/
theorem dispatch_toJson (m : Message) : dispatch m.toJson = some m.dispatched := by
  have hc := m.cStr_typeName
  cases m with
  | opReq t op =>
    simp only [dispatch, Message.at?_type_toJson, opRequestFields_toJson]
    simp_all [Message.dispatched, Message.typeName]
  | opResp t k result =>
    simp only [dispatch, Message.at?_type_toJson, opResponseFields_toJson]
    simp_all [Message.dispatched, Message.typeName]
  | _ => simp_all [dispatch, lockFields, Message.toJson, Message.dispatched, Message.typeName]

end TwoPL
