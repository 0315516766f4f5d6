/-
# From the result vector to the reply

`system/TransactionMessageHandler.cpp`: `createReply` writes the result vector of a transaction
into the slots of its request, and `handle` sends the outcome as `txn_ok` or `error`.

The result vector has no positions.  `createReply` goes through the operations of the request
with a CURSOR into the vector: a read whose key is that of the entry under the cursor takes the
entry, any other read gets null.  So a slot holds its own read's value only as long as the vector
has one entry for each read, in order.  Phase 2 keeps to that for local operations, but not for
remote ones: an append that was ANSWERED adds an entry that no read will take, and a read that
timed out adds none.

`Aligned` says, for each operation of a transaction being local, answered or lost, when the
slots come out right nonetheless: for all values exactly then (`ownSlots_of_aligned`,
`exists_not_ownSlots`).  `ReadSlots.lean` says the same of the runs of a call.
-/
import TwoPL.Maelstrom
import TwoPL.Trace

namespace TwoPL

/-! ## 1. Requests -/

/-- An element of a `txn` array: `["r", key, slot]` or `["append", key, value]`. -/
inductive TxnOp
  | read (key : KeyType) (slot : Json)
  | append (key : KeyType) (value : ValueType)

namespace TxnOp

def toJson : TxnOp → Json
  | read key slot => .array [.string "r", .int64 key, slot]
  | append key value => .array [.string "append", .int64 key, .int64 value]

/-- What the constructor of `Transaction` makes of it.  That constructor is not in the
repository; it is taken to make a `ReadOp` of the one and an `AppendOp` of the other. -/
def operation : TxnOp → Operation
  | read key _ => .read key
  | append key value => .append key value

end TxnOp

/-- A message whose body has a `txn` array of well-formed operations. -/
structure TxnRequest where
  message : Maelstrom.Message
  ops : List TxnOp
  txn_eq : message.body.at? "txn" = some (.array (ops.map TxnOp.toJson))

/-- `transactions::Transaction(msgBody.at("txn").as_array())`. -/
def TxnRequest.transaction (r : TxnRequest) : Transaction := r.ops.map TxnOp.operation

/-! ## 2. `createReply` and `handle` -/

/-- What a slot is filled with: an array, or null. -/
def slotJson : Option ValueContainer → Json
  | some values => .array (values.map .int64)
  | none => .null

/-- `val.as_array().at(2)` overwritten; it throws when there is no third element. -/
def setSlot (elems : List Json) (slot : Json) : Option Json :=
  if 2 < elems.length then some (.array (elems.set 2 slot)) else none

/-- The loop of `createReply`; the second argument is the vector from the cursor on. -/
def fillSlots : List Json → Results → Option (List Json)
  | [], _ => some []
  | val :: vals, reads => do
    let elems ← val.asArray
    let tag ← (← elems[0]?).asString
    if tag = "r" then
      match reads with
      | [] => return (← setSlot elems .null) :: (← fillSlots vals [])
      | (key, result) :: reads' =>
        if key = (← (← elems[1]?).asInt64) then
          return (← setSlot elems (slotJson result)) :: (← fillSlots vals reads')
        -- out of sync: the entry stays under the cursor
        else return (← setSlot elems .null) :: (← fillSlots vals reads)
    else return val :: (← fillSlots vals reads)

/-- `createReply`; `none` is an exception. -/
def createReply (inBody : JsonObject) (reads : Results) : Option JsonObject := do
  let ops ← (← inBody.at? "txn").asArray
  return inBody.set "txn" (.array (← fillSlots ops reads))

/-- The reply of `handle`, given what `execute_transaction` returned (`none` when it threw). -/
def handleReply (request : Maelstrom.Message) (outcome : Option Results) :
    Option Maelstrom.Message :=
  match outcome.bind (createReply request.body) with
  | some body =>
    Maelstrom.Message.make request.recipient request.sender "txn_ok" body none request.msgId
  | none => Maelstrom.Message.make request.recipient request.sender "error" [] none request.msgId

/-- The slot of operation `j` in a body. -/
def replySlot (body : JsonObject) (j : Nat) : Option Json := do
  let ops ← (← body.at? "txn").asArray
  let elems ← (← ops[j]?).asArray
  elems[2]?

/-! ## 3. The slots of a well-formed request -/

/-- What the cursor gives each operation; an append gets nothing. -/
def readSlots : Transaction → Results → List (Option ValueContainer)
  | [], _ => []
  | .append _ _ :: tx, reads => none :: readSlots tx reads
  | .read _ :: tx, [] => none :: readSlots tx []
  | .read key :: tx, (key', result) :: reads =>
    if key' = key then result :: readSlots tx reads
    else none :: readSlots tx ((key', result) :: reads)

@[simp] theorem length_readSlots (tx : Transaction) (reads : Results) :
    (readSlots tx reads).length = tx.length := by
  fun_induction readSlots tx reads <;> simp_all

/-- The element of the reply for an operation and its slot. -/
def TxnOp.fill : TxnOp → Option ValueContainer → Json
  | .read key _, result => .array [.string "r", .int64 key, slotJson result]
  | .append key value, _ => .array [.string "append", .int64 key, .int64 value]

/-- **On well-formed operations nothing throws**, and each slot is what the cursor gives. -/
theorem fillSlots_toJson (ops : List TxnOp) (reads : Results) :
    fillSlots (ops.map TxnOp.toJson) reads
      = some (List.zipWith TxnOp.fill ops (readSlots (ops.map TxnOp.operation) reads)) := by
  induction ops generalizing reads with
  | nil => rfl
  | cons op ops ih =>
    cases op with
    | append key value => simp [fillSlots, TxnOp.toJson, TxnOp.operation, readSlots, ih, TxnOp.fill]
    | read key slot =>
      cases reads with
      | nil =>
        simp [fillSlots, TxnOp.toJson, TxnOp.operation, readSlots, ih, TxnOp.fill, setSlot,
          slotJson]
      | cons x reads =>
        obtain ⟨key', result⟩ := x
        by_cases hk : key' = key
        · simp [fillSlots, TxnOp.toJson, TxnOp.operation, readSlots, ih, TxnOp.fill, setSlot, hk]
        · simp [fillSlots, TxnOp.toJson, TxnOp.operation, readSlots, ih, TxnOp.fill, setSlot, hk,
            slotJson]

/-- **The slots of the reply.** -/
theorem createReply_spec (r : TxnRequest) (reads : Results) :
    ∃ body, createReply r.message.body reads = some body ∧
      ∀ j key slot, r.ops[j]? = some (.read key slot) →
        replySlot body j = ((readSlots r.transaction reads)[j]?).map slotJson := by
  refine ⟨r.message.body.set "txn" (.array (List.zipWith TxnOp.fill r.ops
    (readSlots r.transaction reads))), ?_, fun j key slot hj => ?_⟩
  · simp [createReply, r.txn_eq, fillSlots_toJson, TxnRequest.transaction]
  · obtain ⟨v, hv⟩ : ∃ v, (readSlots r.transaction reads)[j]? = some v := by
      have hlt : j < r.ops.length := (List.getElem?_eq_some_iff.mp hj).1
      exact ⟨_, List.getElem?_eq_getElem (by simpa [TxnRequest.transaction] using hlt)⟩
    simp [replySlot, JsonObject.at?_set, List.getElem?_zipWith, hj, hv, TxnOp.fill]

theorem slotJson_inj {a b : Option ValueContainer} (h : slotJson a = slotJson b) : a = b := by
  cases a with
  | none => cases b <;> simp_all [slotJson]
  | some vs =>
    cases b with
    | none => simp [slotJson] at h
    | some ws =>
      have hinj : Function.Injective Json.int64 := fun x y e => by simpa using e
      simp only [slotJson, Json.array.injEq] at h
      rw [List.map_injective_iff.mpr hinj h]

/-! ## 4. Each slot gets its own read -/

/-- The value an operation obtained, from the store or from its primary; `none` also for one that
timed out. -/
def Outcome.value : Outcome → Option ValueContainer
  | .local result => result
  | .remote result => result

/-- How an operation of phase 2 fares: its key is local, or its primary answers it in time, or
not. -/
inductive Fate
  | «local»
  | answered
  | lost
  deriving DecidableEq

/-- The outcomes an operation can have, given how it fares.  A local append obtains nothing, and an
answered one the empty list. -/
def Fits (x : Operation × Fate) : Outcome → Prop
  | .local result => x.2 = .local ∧ (x.1.type = .APPEND → result = none)
  | .remote (some values) => x.2 = .answered ∧ (x.1.type = .APPEND → values = [])
  | .remote none => x.2 = .lost

/-- The operation adds an entry to the result vector. -/
def adds (x : Operation × Fate) : Bool :=
  match x.2 with
  | .local => x.1.type = .READ
  | .answered => true
  | .lost => false

/-- **When the cursor stays in step**, whatever the values.  A lost read leaves the cursor on the
next entry there is, which must be for another key.  An answered append leaves it on the append's
own entry for good: no read behind it may be for that key, and all of them must be lost. -/
def Aligned : List (Operation × Fate) → Prop
  | [] => True
  | (op, fate) :: rest =>
    match op.type, fate with
    | .READ, .lost => (∀ x ∈ rest.find? adds, x.1.key ≠ op.key) ∧ Aligned rest
    | .APPEND, .answered => ∀ x ∈ rest, x.1.type = .READ → x.2 = .lost ∧ x.1.key ≠ op.key
    | _, _ => Aligned rest

/-- With the cursor at `reads`, every read gets the value it obtained. -/
def Own : List (Operation × Outcome) → Results → Prop
  | [], _ => True
  | (.append _ _, _) :: ran, reads => Own ran reads
  | (.read _, outcome) :: ran, [] => outcome.value = none ∧ Own ran []
  | (.read key, outcome) :: ran, (key', result) :: reads =>
    if key' = key then outcome.value = result ∧ Own ran reads
    else outcome.value = none ∧ Own ran ((key', result) :: reads)

theorem own_iff (ran : List (Operation × Outcome)) (reads : Results) :
    Own ran reads ↔ ∀ (j : Nat) (key : KeyType) (outcome : Outcome),
      ran[j]? = some (.read key, outcome) →
        (readSlots (ran.map Prod.fst) reads)[j]? = some outcome.value := by
  fun_induction Own ran reads with
  | case1 => simp
  | case2 k v o ran reads ih =>
    rw [ih]
    refine ⟨fun h j => ?_, fun h j => by simpa [readSlots] using h (j + 1)⟩
    cases j with
    | zero => simp
    | succ j => simpa [readSlots] using h j
  | case3 k o ran ih =>
    rw [ih]
    refine ⟨fun h j => ?_, fun h => ⟨?_, fun j => by simpa [readSlots] using h (j + 1)⟩⟩
    · cases j with
      | zero => simp [readSlots, h.1]
      | succ j => simpa [readSlots] using h.2 j
    · simpa [readSlots, eq_comm] using h 0 k o rfl
  | case4 o ran k r reads ih =>
    rw [ih]
    refine ⟨fun h j => ?_, fun h => ⟨?_, fun j => by simpa [readSlots] using h (j + 1)⟩⟩
    · cases j with
      | zero => simp [readSlots, h.1]
      | succ j => simpa [readSlots] using h.2 j
    · simpa [readSlots, eq_comm] using h 0 k o rfl
  | case5 k o ran k' r reads hk ih =>
    rw [ih]
    refine ⟨fun h j => ?_, fun h => ⟨?_, fun j => by simpa [readSlots, hk] using h (j + 1)⟩⟩
    · cases j with
      | zero => simp [readSlots, hk, h.1]
      | succ j => simpa [readSlots, hk] using h.2 j
    · simpa [readSlots, hk, eq_comm] using h 0 k o rfl

/-- The operations of a shape with outcomes of their own. -/
abbrev withOutcomes (shape : List (Operation × Fate)) (outcomes : List Outcome) :
    List (Operation × Outcome) := (shape.map Prod.fst).zip outcomes

/-- What an operation that fits adds. -/
theorem entries_of_fits {x : Operation × Fate} {o : Outcome} (h : Fits x o) :
    entries x.1 o = if adds x then [(x.1.key, o.value)] else [] := by
  obtain ⟨op, fate⟩ := x
  cases o with
  | «local» result =>
    obtain ⟨rfl, -⟩ : fate = .local ∧ _ := h
    simp [entries, collect, adds, localResult, Outcome.value]
  | remote result =>
    cases result with
    | none =>
      obtain rfl : fate = .lost := h
      simp [entries, collect, adds]
    | some values =>
      obtain ⟨rfl, -⟩ : fate = .answered ∧ _ := h
      simp [entries, collect, adds, Outcome.value]

theorem value_of_lost {op : Operation} {o : Outcome} (h : Fits (op, .lost) o) : o.value = none := by
  cases o with
  | «local» result => exact absurd h.1 (by simp)
  | remote result =>
    cases result with
    | none => rfl
    | some values => exact absurd h (by simp [Fits])

/-- The entry under the cursor is that of the next operation that adds one. -/
theorem head_collectAll {shape : List (Operation × Fate)} {outcomes : List Outcome}
    (hf : List.Forall₂ Fits shape outcomes) :
    (collectAll (withOutcomes shape outcomes)).head?.map Prod.fst
      = (shape.find? adds).map fun x => x.1.key := by
  induction hf with
  | nil => rfl
  | @cons x o shape outcomes hx _ ih =>
    simp only [withOutcomes, List.map_cons, List.zip_cons_cons, collectAll_cons,
      entries_of_fits hx]
    by_cases hadds : adds x = true
    · simp [hadds]
    · simpa [hadds] using ih

/-- Once the cursor is stuck on an entry that no read takes, every read gets null. -/
theorem own_of_stuck {key : KeyType} {result : Option ValueContainer} {reads : Results}
    {shape : List (Operation × Fate)} {outcomes : List Outcome}
    (hf : List.Forall₂ Fits shape outcomes)
    (h : ∀ x ∈ shape, x.1.type = .READ → x.2 = .lost ∧ x.1.key ≠ key) :
    Own (withOutcomes shape outcomes) ((key, result) :: reads) := by
  induction hf with
  | nil => trivial
  | @cons x o shape outcomes hx _ ih =>
    have hrest := ih fun y hy => h y (List.mem_cons_of_mem _ hy)
    obtain ⟨op, fate⟩ := x
    cases op with
    | append k v => exact hrest
    | read k =>
      obtain ⟨hlost, hk⟩ := h _ List.mem_cons_self rfl
      obtain rfl : fate = .lost := hlost
      have hkey : key ≠ k := Ne.symm hk
      simp only [withOutcomes, List.map_cons, List.zip_cons_cons, Own, if_neg hkey]
      exact ⟨value_of_lost hx, hrest⟩

/-- Aligned transactions get their own values. -/
theorem own_of_aligned {shape : List (Operation × Fate)} {outcomes : List Outcome}
    (hf : List.Forall₂ Fits shape outcomes) (h : Aligned shape) :
    Own (withOutcomes shape outcomes) (collectAll (withOutcomes shape outcomes)) := by
  induction hf with
  | nil => trivial
  | @cons x o shape outcomes hx hf ih =>
    obtain ⟨op, fate⟩ := x
    simp only [withOutcomes, List.map_cons, List.zip_cons_cons, collectAll_cons,
      entries_of_fits hx]
    cases op with
    | append k v =>
      cases fate with
      | «local» => exact ih h
      | lost => exact ih h
      | answered => exact own_of_stuck hf h
    | read k =>
      cases fate with
      | «local» => exact (if_pos rfl).mpr ⟨rfl, ih h⟩
      | answered => exact (if_pos rfl).mpr ⟨rfl, ih h⟩
      | lost =>
        obtain ⟨hnext, hrest⟩ := h
        have hown := ih hrest
        have hhead := head_collectAll hf
        simp only [adds, Bool.false_eq_true, if_false, List.nil_append]
        -- the entry under the cursor, if there is one, is for another key
        cases hreads : collectAll (withOutcomes shape outcomes) with
        | nil =>
          rw [hreads] at hown
          exact ⟨value_of_lost hx, hown⟩
        | cons y reads =>
          obtain ⟨k', r⟩ := y
          rw [hreads] at hown hhead
          have hne : k' ≠ k := by
            rintro rfl
            obtain ⟨z, hz, hzk⟩ := Option.map_eq_some_iff.mp hhead.symm
            exact hnext z hz hzk
          exact (if_neg hne).mpr ⟨value_of_lost hx, hown⟩

/-- An outcome that is there to be seen: a read, if it is answered at all, obtains `[1]`. -/
def loud (x : Operation × Fate) : Outcome :=
  match x.2 with
  | .local => .local (if x.1.type = .READ then some [1] else none)
  | .answered => .remote (some (if x.1.type = .READ then [1] else []))
  | .lost => .remote none

theorem fits_loud (x : Operation × Fate) : Fits x (loud x) := by
  obtain ⟨op, fate⟩ := x
  cases fate with
  | «local» => exact ⟨rfl, fun h => by simp [h]⟩
  | answered => exact ⟨rfl, fun h => by simp [h]⟩
  | lost => rfl

theorem forall₂_loud (shape : List (Operation × Fate)) :
    List.Forall₂ Fits shape (shape.map loud) := by
  induction shape with
  | nil => exact .nil
  | cons x shape ih => exact .cons (fits_loud x) ih

/-- A read obtains nothing only when it is lost. -/
theorem loud_read {key : KeyType} {fate : Fate} :
    (loud (.read key, fate)).value = if fate = .lost then none else some [1] := by
  cases fate <;> rfl

theorem head_collectAll_loud (shape : List (Operation × Fate)) :
    (collectAll (withOutcomes shape (shape.map loud))).head?
      = (shape.find? adds).map fun x => (x.1.key, (loud x).value) := by
  induction shape with
  | nil => rfl
  | cons x shape ih =>
    simp only [withOutcomes, List.map_cons, List.zip_cons_cons, collectAll_cons,
      entries_of_fits (fits_loud x)]
    by_cases hadds : adds x = true
    · simp [hadds]
    · simpa [hadds] using ih

/-- An entry of a loud operation is not null. -/
theorem value_loud_of_adds {x : Operation × Fate} (h : adds x = true) : (loud x).value ≠ none := by
  obtain ⟨op, fate⟩ := x
  cases fate <;> simp_all [adds, loud, Outcome.value]

/-- The entry of an answered append shows in some slot, if a read behind it is for its key or is
not lost. -/
theorem not_own_of_stuck {key : KeyType} {reads : Results} {shape : List (Operation × Fate)}
    (h : ∃ x ∈ shape, x.1.type = .READ ∧ ¬ (x.2 = .lost ∧ x.1.key ≠ key)) :
    ¬ Own (withOutcomes shape (shape.map loud)) ((key, some []) :: reads) := by
  induction shape with
  | nil => simp at h
  | cons y shape ih =>
    obtain ⟨x, hx, hread, hbad⟩ := h
    obtain ⟨op, fate⟩ := y
    cases op with
    | append k v =>
      have hmem : x ∈ shape := by
        rcases List.mem_cons.mp hx with rfl | hx
        · exact absurd hread (by simp [Operation.type])
        · exact hx
      exact ih ⟨x, hmem, hread, hbad⟩
    | read k =>
      simp only [withOutcomes, List.map_cons, List.zip_cons_cons, Own, loud_read]
      by_cases hk : key = k
      · rw [if_pos hk]
        rintro ⟨hv, -⟩
        split at hv <;> simp at hv
      · rw [if_neg hk]
        rintro ⟨hv, hown⟩
        have hlost : fate = .lost := by
          by_contra hne
          simp [hne] at hv
        refine ih ⟨x, ?_, hread, hbad⟩ hown
        rcases List.mem_cons.mp hx with rfl | hx
        · exact absurd ⟨hlost, fun e => hk e.symm⟩ hbad
        · exact hx

/-- A transaction that is not aligned gets a wrong slot for some values. -/
theorem exists_not_own {shape : List (Operation × Fate)} (h : ¬ Aligned shape) :
    ∃ outcomes, List.Forall₂ Fits shape outcomes ∧
      ¬ Own (withOutcomes shape outcomes) (collectAll (withOutcomes shape outcomes)) := by
  induction shape with
  | nil => exact absurd trivial h
  | cons x shape ih =>
    obtain ⟨op, fate⟩ := x
    -- in most cases the head is in order, and the fault is behind it
    have behind : ¬ Aligned shape → adds (op, fate) = decide (op.type = .READ) →
        ∃ outcomes, List.Forall₂ Fits ((op, fate) :: shape) outcomes ∧
          ¬ Own (withOutcomes ((op, fate) :: shape) outcomes)
            (collectAll (withOutcomes ((op, fate) :: shape) outcomes)) := by
      intro hrest hadds
      obtain ⟨outcomes, hf, hnot⟩ := ih hrest
      refine ⟨loud (op, fate) :: outcomes, .cons (fits_loud _) hf, ?_⟩
      simp only [withOutcomes, List.map_cons, List.zip_cons_cons, collectAll_cons,
        entries_of_fits (fits_loud (op, fate)), hadds]
      cases op with
      | append k v => exact hnot
      | read k => exact fun hown => hnot ((if_pos rfl).mp hown).2
    cases op with
    | append k v =>
      cases fate with
      | «local» => exact behind h rfl
      | lost => exact behind h rfl
      | answered =>
        have hex : ∃ x ∈ shape, x.1.type = .READ ∧ ¬ (x.2 = .lost ∧ x.1.key ≠ k) := by
          by_contra hno
          refine h fun x hx hread => ?_
          by_contra hbad
          exact hno ⟨x, hx, hread, hbad⟩
        exact ⟨.remote (some []) :: shape.map loud,
          .cons ⟨rfl, fun _ => rfl⟩ (forall₂_loud shape),
          by simpa [withOutcomes, entries, collect, Own, Operation.key] using not_own_of_stuck hex⟩
    | read k =>
      cases fate with
      | «local» => exact behind h rfl
      | answered => exact behind h rfl
      | lost =>
        by_cases hnext : ∀ x ∈ shape.find? adds, x.1.key ≠ k
        · obtain ⟨outcomes, hf, hnot⟩ := ih fun hrest => h ⟨hnext, hrest⟩
          refine ⟨.remote none :: outcomes, .cons rfl hf, ?_⟩
          simp only [withOutcomes, List.map_cons, List.zip_cons_cons, collectAll_cons,
            entries, collect, List.nil_append]
          intro hown
          cases hreads : collectAll (withOutcomes shape outcomes) with
          | nil =>
            rw [hreads] at hown hnot
            exact hnot hown.2
          | cons y reads =>
            obtain ⟨k', r⟩ := y
            have hhead := head_collectAll hf
            rw [hreads] at hown hnot hhead
            have hne : k' ≠ k := by
              rintro rfl
              obtain ⟨z, hz, hzk⟩ := Option.map_eq_some_iff.mp hhead.symm
              exact hnext z hz hzk
            exact hnot ((if_neg hne).mp hown).2
        · -- the next entry is for the key of the lost read, which takes it
          obtain ⟨x, hx, hk⟩ : ∃ x, shape.find? adds = some x ∧ x.1.key = k := by
            by_contra hno
            exact hnext fun x hx hk => hno ⟨x, hx, hk⟩
          refine ⟨.remote none :: shape.map loud, .cons rfl (forall₂_loud shape), ?_⟩
          have hhead := head_collectAll_loud shape
          rw [hx, Option.map_some, hk] at hhead
          simp only [withOutcomes, List.map_cons, List.zip_cons_cons, collectAll_cons, entries,
            collect, List.nil_append]
          cases hreads : collectAll (withOutcomes shape (shape.map loud)) with
          | nil => rw [hreads] at hhead; simp at hhead
          | cons y reads =>
            rw [hreads, List.head?_cons, Option.some.injEq] at hhead
            subst hhead
            intro hown
            exact absurd ((if_pos rfl).mp hown).1.symm
              (value_loud_of_adds (List.find?_some hx))

/-- With these outcomes of its operations, the reply to the request has in the slot of each read
the value that this very read obtained, and null if it obtained none. -/
def OwnSlots (request : TxnRequest) (outcomes : List Outcome) : Prop :=
  ∃ body, createReply request.message.body
      (collectAll (request.transaction.zip outcomes)) = some body ∧
    ∀ (j : Nat) (key : KeyType) (slot : Json) (outcome : Outcome),
      request.ops[j]? = some (.read key slot) → outcomes[j]? = some outcome →
        replySlot body j = some (slotJson outcome.value)

theorem ownSlots_iff_own {request : TxnRequest} {outcomes : List Outcome}
    (hlen : outcomes.length = request.ops.length) :
    OwnSlots request outcomes ↔
      Own (request.transaction.zip outcomes) (collectAll (request.transaction.zip outcomes)) := by
  have hfst : (request.transaction.zip outcomes).map Prod.fst = request.transaction :=
    List.map_fst_zip (by simp [TxnRequest.transaction, hlen])
  obtain ⟨body, hbody, hslot⟩ :=
    createReply_spec request (collectAll (request.transaction.zip outcomes))
  rw [own_iff, hfst]
  constructor
  · rintro ⟨body', hbody', hown⟩ j key outcome hj
    rw [hbody, Option.some.injEq] at hbody'
    subst hbody'
    obtain ⟨hop, hout⟩ := List.getElem?_zip_eq_some.mp hj
    obtain ⟨op, hopj, hopeq⟩ : ∃ op, request.ops[j]? = some op ∧ op.operation = .read key := by
      simpa [TxnRequest.transaction] using hop
    cases op with
    | append k v => exact absurd hopeq (by simp [TxnOp.operation])
    | read k slot =>
      have hval := hown j k slot outcome hopj hout
      rw [hslot j k slot hopj, Option.map_eq_some_iff] at hval
      obtain ⟨v, hv, hveq⟩ := hval
      rw [hv, slotJson_inj hveq]
  · intro hown
    refine ⟨body, hbody, fun j key slot outcome hj hout => ?_⟩
    have hop : request.transaction[j]? = some (.read key) := by
      simp [TxnRequest.transaction, hj, TxnOp.operation]
    rw [hslot j key slot hj, hown j key outcome (List.getElem?_zip_eq_some.mpr ⟨hop, hout⟩)]
    rfl

theorem map_fst_zip_fates {request : TxnRequest} {fates : List Fate}
    (hlen : fates.length = request.ops.length) :
    (request.transaction.zip fates).map Prod.fst = request.transaction :=
  List.map_fst_zip (by simp [TxnRequest.transaction, hlen])

/-- **The slots of an aligned transaction are right**, for every choice of the values obtained. -/
theorem ownSlots_of_aligned {request : TxnRequest} {fates : List Fate} {outcomes : List Outcome}
    (hlen : fates.length = request.ops.length)
    (hf : List.Forall₂ Fits (request.transaction.zip fates) outcomes)
    (h : Aligned (request.transaction.zip fates)) : OwnSlots request outcomes := by
  have hown := own_of_aligned hf h
  simp only [withOutcomes, map_fst_zip_fates hlen] at hown
  exact (ownSlots_iff_own (by rw [← hf.length_eq]; simp [TxnRequest.transaction, hlen])).mpr hown

/-- **Those of any other are wrong**, for some choice. -/
theorem exists_not_ownSlots {request : TxnRequest} {fates : List Fate}
    (hlen : fates.length = request.ops.length) (h : ¬ Aligned (request.transaction.zip fates)) :
    ∃ outcomes, List.Forall₂ Fits (request.transaction.zip fates) outcomes ∧
      ¬ OwnSlots request outcomes := by
  obtain ⟨outcomes, hf, hnot⟩ := exists_not_own h
  simp only [withOutcomes, map_fst_zip_fates hlen] at hnot
  refine ⟨outcomes, hf, fun hown => hnot ?_⟩
  exact (ownSlots_iff_own (by rw [← hf.length_eq]; simp [TxnRequest.transaction, hlen])).mp hown

/-- A client's request with these operations. -/
def TxnRequest.ofOps (ops : List TxnOp) : TxnRequest where
  message :=
    { sender := "c1", recipient := "n0", type := "txn", msgId := some 3, inReplyTo := none
      body := [("type", .string "txn"), ("txn", .array (ops.map TxnOp.toJson)),
        ("msg_id", .int64 3)] }
  ops := ops
  txn_eq := by simp

end TwoPL
