/-
# The striped key-value store and the operations on it

`storage/Types.h`, `ThreadSafeKVStore.{h,cpp}`, `transactions/Operations.h` and the visitor
`NaiveOpExecutor`.

A store is 256 partitions ("stripes"); a key lives in the partition its hash selects.  `get`
and `append` lock one stripe, so each of them is one atomic step, and the mutexes are not part
of the model.  `std::hash<KeyType>` is a field of the store: nothing in the code depends on
which function it is, and the results below are for every one.

The two facts the rest of the development uses are the equation of `get` after `append`
(`get_append`) and that operations on different keys are independent of each other
(`opActions_indep`), whether or not the two keys share a stripe.
-/
import TwoPL.Lib.Serial
import Mathlib.Data.Fin.Basic

namespace TwoPL

/-! ## 1. `storage/Types.h` and `transactions/LockManager.h` -/

abbrev KeyType := Int64
abbrev ValueType := Int64
abbrev ValueContainer := List ValueType
abbrev TransactionId := UInt64
/-- `system::Peer::id`. -/
abbrev NodeID := UInt16

/-! ## 2. `ThreadSafeKVStore` -/

/-- `NUM_STRIPES`. -/
def numStripes : Nat := 256

/-- The stripes, each a map from keys to lists, and the hash that selects a key's stripe. -/
@[ext] structure ThreadSafeKVStore where
  hash : KeyType → UInt64
  stripes : Fin numStripes → KeyType → Option ValueContainer

namespace ThreadSafeKVStore

def getStripeIndex (s : ThreadSafeKVStore) (key : KeyType) : Fin numStripes :=
  ⟨(s.hash key).toNat % numStripes, Nat.mod_lt _ (by decide)⟩

def get (s : ThreadSafeKVStore) (key : KeyType) : Option ValueContainer :=
  s.stripes (s.getStripeIndex key) key

def append (s : ThreadSafeKVStore) (key : KeyType) (value : ValueType) : ThreadSafeKVStore :=
  let partition := s.stripes (s.getStripeIndex key)
  let partition' := match partition key with
    | some values => Function.update partition key (some (values ++ [value]))
    | none => Function.update partition key (some [value])
  { s with stripes := Function.update s.stripes (s.getStripeIndex key) partition' }

/-- Both branches of `append`: the list at the key, empty when there was none, grows by one. -/
theorem append_stripes (s : ThreadSafeKVStore) (key : KeyType) (value : ValueType) :
    (s.append key value).stripes = Function.update s.stripes (s.getStripeIndex key)
      (Function.update (s.stripes (s.getStripeIndex key)) key
        (some ((s.get key).getD [] ++ [value]))) := by
  simp only [append, get]
  cases s.stripes (s.getStripeIndex key) key <;> rfl

@[simp] theorem append_hash (s : ThreadSafeKVStore) (key : KeyType) (value : ValueType) :
    (s.append key value).hash = s.hash := rfl

@[simp] theorem getStripeIndex_append (s : ThreadSafeKVStore) (key key' : KeyType)
    (value : ValueType) : (s.append key value).getStripeIndex key' = s.getStripeIndex key' := rfl

/-- **What `append` does, as `get` sees it**, in whatever stripes the two keys are. -/
theorem get_append (s : ThreadSafeKVStore) (key key' : KeyType) (value : ValueType) :
    (s.append key value).get key'
      = if key' = key then some ((s.get key).getD [] ++ [value]) else s.get key' := by
  rw [get, getStripeIndex_append, append_stripes]
  by_cases hk : key' = key
  · subst hk; simp
  · rw [if_neg hk]
    by_cases hi : s.getStripeIndex key' = s.getStripeIndex key
    · rw [hi, Function.update_self, Function.update_of_ne hk, ← hi, get]
    · rw [Function.update_of_ne hi, get]

theorem get_append_of_ne (s : ThreadSafeKVStore) {key key' : KeyType} (h : key' ≠ key)
    (value : ValueType) : (s.append key value).get key' = s.get key' := by
  rw [get_append, if_neg h]

/-- Appends to different keys commute, as changes of the whole store. -/
theorem append_comm (s : ThreadSafeKVStore) {key key' : KeyType} (h : key ≠ key')
    (value value' : ValueType) :
    (s.append key value).append key' value' = (s.append key' value').append key value := by
  refine ThreadSafeKVStore.ext rfl ?_
  simp only [append_stripes, getStripeIndex_append, get_append_of_ne s h,
    get_append_of_ne s h.symm]
  by_cases hi : s.getStripeIndex key = s.getStripeIndex key'
  · simp only [hi, Function.update_self, Function.update_idem]
    rw [Function.update_comm h.symm]
  · simp only [Function.update_of_ne hi, Function.update_of_ne (Ne.symm hi)]
    rw [Function.update_comm (Ne.symm hi)]

end ThreadSafeKVStore

/-! ## 3. `Operation` and `NaiveOpExecutor` -/

/-- `ReadOp` and `AppendOp`. -/
inductive Operation
  | read (key : KeyType)
  | append (key : KeyType) (value : ValueType)
  deriving DecidableEq

namespace Operation

/-- `Operation::Type`. -/
inductive OpType
  | READ
  | APPEND
  deriving DecidableEq

def type : Operation → OpType
  | read _ => .READ
  | append _ _ => .APPEND

def key : Operation → KeyType
  | read k => k
  | append k _ => k

end Operation

/-- `Transaction::ops`. -/
abbrev Transaction := List Operation

/-- The read results of a transaction: `vector<pair<KeyType, optional<ValueContainer>>>`. -/
abbrev Results := List (KeyType × Option ValueContainer)

namespace NaiveOpExecutor

/-- `op.Accept(&visitor)` on a visitor of this store: the store afterwards, and the visitor's
`result()`.  Only the header of the visitor is in the repository: it is taken to do `get` for a
read, keeping the result, and `append` for an append. -/
def accept (store : ThreadSafeKVStore) : Operation → ThreadSafeKVStore × Option ValueContainer
  | .read key => (store, store.get key)
  | .append key value => (store.append key value, none)

end NaiveOpExecutor

/-- What a locally executed operation adds to the result vector: a read its pair, an append
nothing. -/
def localResult (op : Operation) (result : Option ValueContainer) : Results :=
  if op.type = .READ then [(op.key, result)] else []

/-- Operations as actions on the store, in the sense of `Lib/Serial.lean`. -/
def opActions : Lib.Actions ThreadSafeKVStore Operation Results where
  exec s op := (NaiveOpExecutor.accept s op).1
  obs s op := localResult op (NaiveOpExecutor.accept s op).2

/-- An operation does not see another one on a different key. -/
theorem opActions_obs_exec (s : ThreadSafeKVStore) (op op' : Operation) (h : op.key ≠ op'.key) :
    opActions.obs (opActions.exec s op) op' = opActions.obs s op' := by
  cases op' with
  | append key' value' => rfl
  | read key' =>
    cases op with
    | read key => rfl
    | append key value =>
      have hget : (s.append key value).get key' = s.get key' :=
        ThreadSafeKVStore.get_append_of_ne s h.symm value
      simp only [opActions, NaiveOpExecutor.accept, hget]

/-- **Operations on different keys are independent.** -/
theorem opActions_indep (op op' : Operation) (h : op.key ≠ op'.key) :
    opActions.Indep op op' where
  exec_comm s := by
    cases op with
    | read key => rfl
    | append key value =>
      cases op' with
      | read key' => rfl
      | append key' value' => exact ThreadSafeKVStore.append_comm s h value value'
  obs_left s := opActions_obs_exec s op' op h.symm
  obs_right s := opActions_obs_exec s op op' h

end TwoPL
