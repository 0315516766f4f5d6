/-
# Replies correlate with requests

A client matches a reply with its request by `in_reply_to`, which is to be the `msg_id` of the
request.  On its way the id goes through a `boost::optional<int>`: it is read as an `int64_t`,
NARROWED to 32 bits, and written back.  So an id that does not fit an `int` comes back as another
number.

The echo and the transaction handler build a reply from a COPY of the request's body, and the
constructor of `Message` cleans the copy up: setting one of the two ids removes the other.  When the
request has no id neither is set and neither is removed, and an `in_reply_to` that the request
itself had stays in the reply.

`replies_correlate_iff` says that these two are all: in every other case the reply correlates, for
every handler and whatever else the body has.
-/
import TwoPL.MessageHandler

namespace TwoPL

/-! ## 1. The handlers, and what correlation is -/

/-- `EchoMessageHandler::handle`. -/
def echoReply (request : Maelstrom.Message) : Option Maelstrom.Message :=
  Maelstrom.Message.make request.recipient request.sender "echo_ok" request.body none request.msgId

/-- A field of the line that a request was read from. -/
def lineField (line : Json) (name : String) : Option Json :=
  line.asObject.bind fun o => JsonObject.at? o name

/-- A field of its body. -/
def bodyField (line : Json) (name : String) : Option Json :=
  (lineField line "body").bind fun body => lineField body name

/-- The reply goes back to where the request came from, and its only id is that of the request, as
the integer on the wire; `none` on both sides when the request has none. -/
structure Correlates (line : Json) (reply : Maelstrom.Message) : Prop where
  src : lineField (.object reply.send) "src" = lineField line "dest"
  dest : lineField (.object reply.send) "dest" = lineField line "src"
  inReplyTo : bodyField (.object reply.send) "in_reply_to" = bodyField line "msg_id"
  noMsgId : bodyField (.object reply.send) "msg_id" = none

/-- The names of sender and recipient have no NUL in them. -/
def NulFree (line : Json) : Prop :=
  ∀ name ∈ ["src", "dest"], ∀ s, lineField line name = some (.string s) → '\x00' ∉ s.toList

/-- **The ids that survive**: those of a 32-bit `int`. -/
def IdFits (line : Json) : Prop :=
  ∀ i, bodyField line "msg_id" = some (.int64 i) → -2 ^ 31 ≤ i.toInt ∧ i.toInt < 2 ^ 31

/-- A request without an id is not itself a reply. -/
def NoStaleReply (line : Json) : Prop :=
  bodyField line "msg_id" = none → bodyField line "in_reply_to" = none

/-! ## 2. From the line to the reply -/

theorem cStr_eq_self {s : String} (h : '\x00' ∉ s.toList) : cStr s = s := by
  rw [cStr, List.takeWhile_eq_self_iff.mpr, String.ofList_toList]
  intro c hc
  have hne : c ≠ '\x00' := by
    rintro rfl
    exact h hc
  simpa using hne

/-- An `int64_t` survives the way through an `int` if it is in the range of one. -/
theorem toInt64_toInt32_eq_iff (i : Int64) :
    i.toInt32.toInt64 = i ↔ -2 ^ 31 ≤ i.toInt ∧ i.toInt < 2 ^ 31 := by
  rw [← Int64.toInt_inj, Int32.toInt_toInt64, Int64.toInt_toInt32]
  rw [Int.bmod_eq_iff (by decide)]
  omega

theorem bodyField_of_body {line : Json} {body : JsonObject}
    (h : lineField line "body" = some (.object body)) (name : String) :
    bodyField line name = body.at? name := by
  rw [bodyField, h]
  rfl

/-- What an accepted line looks like, and what is kept of it. -/
theorem ofJson_spec {line : Json} {request : Maelstrom.Message}
    (h : Maelstrom.Message.ofJson line = some request) :
    ∃ src dest, lineField line "src" = some (.string src) ∧
      lineField line "dest" = some (.string dest) ∧
      lineField line "body" = some (.object request.body) ∧
      request.sender = cStr src ∧ request.recipient = cStr dest ∧
      Maelstrom.readId request.body "msg_id" = some request.msgId := by
  simp only [Maelstrom.Message.ofJson, Option.bind_eq_bind, Option.bind_eq_some_iff,
    Option.pure_def, Option.some.injEq] at h
  obtain ⟨o, ho, srcVal, hsrc, src, hsrcStr, destVal, hdest, dest, hdestStr, bodyVal, hbody, body,
    hbodyObj, typeVal, -, type, -, msgId, hmsgId, inReplyTo, -, rfl⟩ := h
  have hfield : ∀ name, lineField line name = JsonObject.at? o name := by
    intro name
    rw [lineField, ho, Option.bind_some]
  have hstring : ∀ {v s}, Json.asString v = some s → v = .string s := by
    intro v s hv
    cases v <;> simp_all
  have hobject : bodyVal = .object body := by
    cases bodyVal <;> simp_all
  exact ⟨src, dest, by rw [hfield, hsrc, hstring hsrcStr], by rw [hfield, hdest, hstring hdestStr],
    by rw [hfield, hbody, hobject], rfl, rfl, hmsgId⟩

/-- The id of an accepted request: none, or the number on the wire, narrowed. -/
theorem readId_spec {body : JsonObject} {name : String} {id : Option Int32}
    (h : Maelstrom.readId body name = some id) :
    (body.at? name = none ∧ id = none) ∨
      ∃ i, body.at? name = some (.int64 i) ∧ id = some i.toInt32 := by
  unfold Maelstrom.readId at h
  split at h
  · rename_i hnone
    exact .inl ⟨hnone, (Option.some.inj h).symm⟩
  · rename_i v hv
    cases v with
    | int64 i => exact .inr ⟨i, hv, by simpa using h.symm⟩
    | _ => exact absurd h (by simp)

/-- **When a reply correlates**, by the body it is made from. -/
theorem correlates_iff {line : Json} {request reply : Maelstrom.Message} {type : String}
    {body : JsonObject} (h : Maelstrom.Message.ofJson line = some request) (hnul : NulFree line)
    (hreply : Maelstrom.Message.make request.recipient request.sender type body none request.msgId
      = some reply) :
    Correlates line reply ↔ IdFits line ∧ (bodyField line "msg_id" = none →
      body.at? "in_reply_to" = none ∧ body.at? "msg_id" = none) := by
  obtain ⟨src, dest, hsrc, hdest, hbody, hsender, hrecipient, hid⟩ := ofJson_spec h
  obtain ⟨m, hm, hmsender, hmrecipient, hmreply, hmid⟩ :=
    Maelstrom.Message.make_reply_ids request.recipient request.sender type body request.msgId
  obtain rfl : m = reply := Option.some.inj (hm.symm.trans hreply)
  have hsrc' : cStr src = src := cStr_eq_self (hnul "src" (by simp) src hsrc)
  have hdest' : cStr dest = dest := cStr_eq_self (hnul "dest" (by simp) dest hdest)
  have hfield : ∀ name, bodyField (.object m.send) name = m.body.at? name := by
    intro name
    simp [bodyField, lineField, Maelstrom.Message.send]
  have hline := bodyField_of_body hbody "msg_id"
  have hends : Correlates line m ↔
      m.body.at? "in_reply_to" = bodyField line "msg_id" ∧ m.body.at? "msg_id" = none := by
    constructor
    · intro hc
      exact ⟨(hfield _).symm.trans hc.inReplyTo, (hfield _).symm.trans hc.noMsgId⟩
    · rintro ⟨hr, hn⟩
      refine ⟨?_, ?_, (hfield _).trans hr, (hfield _).trans hn⟩
      · simp [lineField, Maelstrom.Message.send, hmsender, hrecipient, hdest'] at hdest ⊢
        exact hdest.symm
      · simp [lineField, Maelstrom.Message.send, hmrecipient, hsender, hsrc'] at hsrc ⊢
        exact hsrc.symm
  rw [hends, hmreply, hmid, IdFits, hline]
  rcases readId_spec hid with ⟨hnone, hidnone⟩ | ⟨i, hsome, hidsome⟩
  · simp [hnone, hidnone]
  · simp [hsome, hidsome, toInt64_toInt32_eq_iff]

/-! ## 3. Every handler -/

/-- `createReply` leaves the ids of the body alone. -/
theorem at?_createReply {inBody body : JsonObject} {reads : Results}
    (h : createReply inBody reads = some body) {name : String} (hname : name ≠ "txn") :
    body.at? name = inBody.at? name := by
  simp only [createReply, Option.bind_eq_bind, Option.bind_eq_some_iff, Option.pure_def,
    Option.some.injEq] at h
  obtain ⟨txnVal, -, ops, -, filled, -, rfl⟩ := h
  rw [JsonObject.at?_set, if_neg hname]

/-- A reply of this type can be made from any body. -/
theorem exists_reply (request : Maelstrom.Message) (type : String) (body : JsonObject) :
    ∃ reply, Maelstrom.Message.make request.recipient request.sender type body none request.msgId
      = some reply ∧ reply.type = type :=
  ⟨_, if_neg (by simp), rfl⟩

section Handlers

variable {line : Json} {request reply : Maelstrom.Message} {type : String}

/-- A reply made from a body with the ids of the request's. -/
theorem correlates_copy_iff (h : Maelstrom.Message.ofJson line = some request)
    (hnul : NulFree line) {body : JsonObject}
    (hreplyTo : body.at? "in_reply_to" = request.body.at? "in_reply_to")
    (hid : body.at? "msg_id" = request.body.at? "msg_id")
    (hmake : Maelstrom.Message.make request.recipient request.sender type body none request.msgId
      = some reply) : Correlates line reply ↔ IdFits line ∧ NoStaleReply line := by
  have hbodyField : ∀ name, bodyField line name = request.body.at? name := by
    obtain ⟨-, -, -, -, hbody, -⟩ := ofJson_spec h
    exact bodyField_of_body hbody
  rw [correlates_iff h hnul hmake, NoStaleReply, hreplyTo, hid, hbodyField, hbodyField]
  tauto

/-- A reply made from an empty body. -/
theorem correlates_fresh_iff (h : Maelstrom.Message.ofJson line = some request)
    (hnul : NulFree line)
    (hmake : Maelstrom.Message.make request.recipient request.sender type [] none request.msgId
      = some reply) : Correlates line reply ↔ IdFits line := by
  rw [correlates_iff h hnul hmake]
  simp

/-- What the echo handler prints. -/
theorem echoReply_spec (h : Maelstrom.Message.ofJson line = some request) :
    ∃ reply, echoReply request = some reply ∧ reply.type = "echo_ok" ∧
      (NulFree line → (Correlates line reply ↔ IdFits line ∧ NoStaleReply line)) := by
  obtain ⟨reply, hreply, htype⟩ := exists_reply request "echo_ok" request.body
  exact ⟨reply, hreply, htype, fun hnul => correlates_copy_iff h hnul rfl rfl hreply⟩

/-- What the transaction handler prints. -/
theorem handleReply_spec (h : Maelstrom.Message.ofJson line = some request)
    (outcome : Option Results) :
    ∃ reply, handleReply request outcome = some reply ∧
      (reply.type ≠ "error" ↔ (outcome.bind (createReply request.body)).isSome) ∧
      (NulFree line → (Correlates line reply ↔ IdFits line ∧
        ((outcome.bind (createReply request.body)).isSome → NoStaleReply line))) := by
  cases hbody : outcome.bind (createReply request.body) with
  | some body =>
    obtain ⟨reads, -, hcreate⟩ := Option.bind_eq_some_iff.mp hbody
    obtain ⟨reply, hreply, htype⟩ := exists_reply request "txn_ok" body
    refine ⟨reply, by simp only [handleReply, hbody, hreply], by simp [htype], fun hnul => ?_⟩
    simpa using correlates_copy_iff h hnul (at?_createReply hcreate (by simp))
      (at?_createReply hcreate (by simp)) hreply
  | none =>
    obtain ⟨reply, hreply, htype⟩ := exists_reply request "error" []
    refine ⟨reply, by simp only [handleReply, hbody, hreply], by simp [htype], fun hnul => ?_⟩
    simpa using correlates_fresh_iff h hnul hreply

end Handlers

/-- **When replies correlate with requests.**  For every accepted line: the echo reply does if and
only if the id fits an `int` and a request without an id has no `in_reply_to`; the reply of the
transaction handler likewise, except that an error reply, which copies nothing, needs only the
first; and so does the reply of `_init`. -/
theorem replies_correlate_iff {line : Json} {request : Maelstrom.Message}
    (h : Maelstrom.Message.ofJson line = some request) (hnul : NulFree line) :
    (∃ reply, echoReply request = some reply ∧
      (Correlates line reply ↔ IdFits line ∧ NoStaleReply line)) ∧
    (∀ outcome, ∃ reply, handleReply request outcome = some reply ∧
      (Correlates line reply ↔ IdFits line ∧
        ((outcome.bind (createReply request.body)).isSome → NoStaleReply line))) ∧
    ∀ node node' reply, Maelstrom.Node.init node request = some (node', reply) →
      (Correlates line reply ↔ IdFits line) := by
  refine ⟨?_, fun outcome => ?_, fun node node' reply hinit => ?_⟩
  · obtain ⟨reply, hreply, -, hiff⟩ := echoReply_spec h
    exact ⟨reply, hreply, hiff hnul⟩
  · obtain ⟨reply, hreply, -, hiff⟩ := handleReply_spec h outcome
    exact ⟨reply, hreply, hiff hnul⟩
  · obtain ⟨type, hmake⟩ := Maelstrom.Node.init_response hinit
    exact correlates_fresh_iff h hnul hmake

/-- A line with an echo request. -/
def echoLine (id : Int64) : Json :=
  .object [("src", .string "c1"), ("dest", .string "n1"),
    ("body", .object [("type", .string "echo"), ("msg_id", .int64 id)])]

theorem nulFree_echoLine (id : Int64) : NulFree (echoLine id) := by
  intro name hname s hs
  simp only [List.mem_cons, List.not_mem_nil, or_false] at hname
  rcases hname with rfl | rfl <;>
    (simp [lineField, echoLine] at hs; subst hs; decide)

theorem idFits_echoLine {id : Int64} (h : -2 ^ 31 ≤ id.toInt ∧ id.toInt < 2 ^ 31) :
    IdFits (echoLine id) := by
  intro i hi
  have hid : bodyField (echoLine id) "msg_id" = some (.int64 id) := rfl
  rw [hid, Option.some.injEq, Json.int64.injEq] at hi
  exact hi ▸ h

theorem noStaleReply_echoLine (id : Int64) : NoStaleReply (echoLine id) := by
  intro hnone
  have hid : bodyField (echoLine id) "msg_id" = some (.int64 id) := rfl
  exact absurd (hid.symm.trans hnone) (by simp)

theorem replies_correlate_seven :
    ∃ request, Maelstrom.Message.ofJson (echoLine 7) = some request ∧ NulFree (echoLine 7) ∧
      ∃ reply, echoReply request = some reply ∧ Correlates (echoLine 7) reply := by
  refine ⟨_, rfl, nulFree_echoLine 7, ?_⟩
  have hread : Maelstrom.Message.ofJson (echoLine 7) = some _ := rfl
  obtain ⟨reply, hreply, hiff⟩ := (replies_correlate_iff hread (nulFree_echoLine 7)).1
  exact ⟨reply, hreply, hiff.mpr ⟨idFits_echoLine (by decide), noStaleReply_echoLine 7⟩⟩

/-- **An id of more than 32 bits comes back as another**: 2^32 + 1 as 1. -/
theorem wide_id_narrowed :
    ∃ request reply, Maelstrom.Message.ofJson (echoLine 4294967297) = some request ∧
      NulFree (echoLine 4294967297) ∧ echoReply request = some reply ∧
      bodyField (.object reply.send) "in_reply_to" = some (.int64 1) ∧
      ¬ Correlates (echoLine 4294967297) reply := by
  refine ⟨_, _, rfl, nulFree_echoLine _, rfl, rfl, ?_⟩
  intro h
  have hid : some (Json.int64 1) = some (Json.int64 4294967297) := h.inReplyTo
  exact absurd hid (by simp)

end TwoPL
