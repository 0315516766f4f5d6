/-
# Messages of the outside world

`system/maelstrom.{h,cpp}`: the class `Message`, with its two constructors and the object that
`send` prints, and of the class `Node` its initialization.  A message id is a
`boost::optional<int>`: reading one out of a body narrows an `int64_t` to 32 bits.
-/
import TwoPL.Json

namespace TwoPL.Maelstrom

/-! ## 1. `Message` -/

structure Message where
  sender : String
  recipient : String
  type : String
  body : JsonObject
  msgId : Option Int32
  inReplyTo : Option Int32

/-- `msg_id` or `in_reply_to` of a body, narrowed to an `int`.  The outer `none` is the exception
of `as_int64`. -/
def readId (body : JsonObject) (name : String) : Option (Option Int32) :=
  match body.at? name with
  | none => some none
  | some v => v.asInt64.map fun i => some i.toInt32

/-- `Message(const std::string&)`, from the parsed value on. -/
def Message.ofJson (v : Json) : Option Message := do
  let o ← v.asObject
  let sender ← (← o.at? "src").asString
  let recipient ← (← o.at? "dest").asString
  let body ← (← o.at? "body").asObject
  let type ← (← body.at? "type").asString
  let msgId ← readId body "msg_id"
  let inReplyTo ← readId body "in_reply_to"
  return { sender := cStr sender, recipient := cStr recipient, type := cStr type, body, msgId,
           inReplyTo }

/-- The other constructor: it writes the type and the ids into the body. -/
def Message.make (sender recipient type : String) (body : JsonObject)
    (msgId inReplyTo : Option Int32) : Option Message :=
  if msgId.isSome ∧ inReplyTo.isSome then none
  else
    let body := body.set "type" (.string type)
    let body := match msgId with
      | some i => (body.set "msg_id" (.int64 i.toInt64)).erase "in_reply_to"
      | none => body
    let body := match inReplyTo with
      | some i => (body.set "in_reply_to" (.int64 i.toInt64)).erase "msg_id"
      | none => body
    some { sender, recipient, type, body, msgId, inReplyTo }

/-- The object `send` prints. -/
def Message.send (m : Message) : JsonObject :=
  [("src", .string m.sender), ("dest", .string m.recipient), ("body", .object m.body)]

/-- A reply keeps every field of its body but the type and the ids. -/
theorem Message.make_reply_body (sender recipient type : String) (body : JsonObject)
    (inReplyTo : Option Int32) {name : String}
    (hname : name ≠ "type" ∧ name ≠ "in_reply_to" ∧ name ≠ "msg_id") :
    ∃ m, make sender recipient type body none inReplyTo = some m ∧ m.type = type ∧
      m.body.at? name = body.at? name := by
  refine ⟨_, if_neg (by simp), rfl, ?_⟩
  cases inReplyTo with
  | none => simp [JsonObject.at?_set, hname.1]
  | some i => simp [JsonObject.at?_erase, JsonObject.at?_set, hname.1, hname.2.1, hname.2.2]

/-- **The ids in the body of a reply**: that of the request takes the place of both, and without one
the body keeps what it has. -/
theorem Message.make_reply_ids (sender recipient type : String) (body : JsonObject)
    (inReplyTo : Option Int32) :
    ∃ m, make sender recipient type body none inReplyTo = some m ∧ m.sender = sender ∧
      m.recipient = recipient ∧
      m.body.at? "in_reply_to"
        = (inReplyTo.map fun i => .int64 i.toInt64).or (body.at? "in_reply_to") ∧
      m.body.at? "msg_id" = if inReplyTo.isSome then none else body.at? "msg_id" := by
  refine ⟨_, if_neg (by simp), rfl, rfl, ?_⟩
  cases inReplyTo with
  | none => simp [JsonObject.at?_set]
  | some i => simp [JsonObject.at?_erase, JsonObject.at?_set]

/-! ## 2. `Node::_init` -/

/-- The state that `_init` reads and sets.  An init handler may throw (`none`). -/
structure Node where
  nodeId : Option String
  peerIds : List String
  initHandler : List (String → List String → Option Bool)

/-- The loop over `node_ids`, which leaves the node itself out. -/
def readPeerIds (nodeId : String) : List Json → Option (List String)
  | [] => some []
  | item :: items => do
    let name ← item.asString
    let peers ← readPeerIds nodeId items
    return if name ≠ nodeId then cStr name :: peers else peers

/-- `std::ranges::all_of` over the init handlers: they are called in turn, up to the first that
returns false. -/
def allInitialized (nodeId : String) (peerIds : List String) :
    List (String → List String → Option Bool) → Option Bool
  | [] => some true
  | handler :: handlers => do
    if ← handler nodeId peerIds then allInitialized nodeId peerIds handlers else return false

/-- `_init`: the node and the response it sends.  `none` is an exception. -/
def Node.init (n : Node) (message : Message) : Option (Node × Message) := do
  if n.nodeId.isSome then none
  let nodeId := cStr (← (← message.body.at? "node_id").asString)
  let peerIds ← readPeerIds nodeId (← (← message.body.at? "node_ids").asArray)
  let initState ← allInitialized nodeId peerIds n.initHandler
  let response ← Message.make message.recipient message.sender
    (if initState then "init_ok" else "error") [] none message.msgId
  return ({ n with nodeId := some nodeId, peerIds }, response)

/-- The response of `_init` goes back to the sender, with an empty body. -/
theorem Node.init_response {n n' : Node} {message response : Message}
    (h : n.init message = some (n', response)) :
    ∃ type, Message.make message.recipient message.sender type [] none message.msgId
      = some response := by
  simp only [Node.init, Option.bind_eq_bind] at h
  split at h
  · exact absurd h (by simp)
  · simp only [Option.bind_eq_some_iff, Option.pure_def, Option.some.injEq, Prod.mk.injEq] at h
    obtain ⟨-, -, -, -, -, -, -, -, -, -, initState, -, response, hmake, -, rfl⟩ := h
    exact ⟨_, hmake⟩

end TwoPL.Maelstrom
