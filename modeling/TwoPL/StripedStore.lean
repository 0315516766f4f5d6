/-
# The striped store is one append-only map

`KVStore.h` promises a map from keys to lists, with `get` and `append`.  `ThreadSafeKVStore` keeps
256 of them, and sends a key to the one that its hash selects.

A call locks one stripe from its first to its last access, so it is atomic, and what any threads do
in any order is a list of calls.  `striped_store_is_map` compares every such list on the striped
store, for every hash, with the same list on a single map: the results are the same, and at the end
each key has the values that were appended to it, in the order of the calls.

The representation invariant (`Represents`) has two parts.  That a stored key lies in the stripe of
its hash (`placed`) is not needed for `get` to be right, since `get` looks nowhere else; it says
that nothing is stored where no call will find it.
-/
import TwoPL.Storage

namespace TwoPL

open Lib

/-! ## 1. Calls -/

/-- A call of the interface `KVStore`. -/
inductive StoreCall
  | get (key : KeyType)
  | append (key : KeyType) (value : ValueType)
  deriving DecidableEq

/-- `ThreadSafeKVStore() = default`, with the hash of the library it is compiled against. -/
def ThreadSafeKVStore.empty (hash : KeyType → UInt64) : ThreadSafeKVStore where
  hash := hash
  stripes := fun _ _ => none

/-- The calls on the striped store, and what they return; an `append` returns nothing. -/
def storeCalls : Actions ThreadSafeKVStore StoreCall (Option ValueContainer) where
  exec s
    | .get _ => s
    | .append key value => s.append key value
  obs s
    | .get key => s.get key
    | .append _ _ => none

/-- What the store is for: one map. -/
abbrev AppendMap := KeyType → Option ValueContainer

/-- The calls on the map. -/
def mapCalls : Actions AppendMap StoreCall (Option ValueContainer) where
  exec m
    | .get _ => m
    | .append key value => Function.update m key (some ((m key).getD [] ++ [value]))
  obs m
    | .get key => m key
    | .append _ _ => none

/-- The values that a list of calls appends to a key, in its order. -/
def appendedTo (key : KeyType) (calls : List StoreCall) : ValueContainer :=
  calls.filterMap fun
    | .get _ => none
    | .append key' value => if key' = key then some value else none

/-! ## 2. The representation -/

/-- The store, with this hash, represents the map. -/
structure Represents (hash : KeyType → UInt64) (s : ThreadSafeKVStore) (m : AppendMap) : Prop where
  hash_eq : s.hash = hash
  get_eq : ∀ key, s.get key = m key
  /-- A stored key lies in the stripe that its hash selects. -/
  placed : ∀ i key, (s.stripes i key).isSome → i = s.getStripeIndex key

section Representation

variable {hash : KeyType → UInt64} {s : ThreadSafeKVStore} {m : AppendMap}

theorem represents_empty (hash : KeyType → UInt64) :
    Represents hash (.empty hash) fun _ => none where
  hash_eq := rfl
  get_eq _ := rfl
  placed i key h := absurd h (by simp [ThreadSafeKVStore.empty])

theorem Represents.append (h : Represents hash s m) (key : KeyType) (value : ValueType) :
    Represents hash (s.append key value)
      (Function.update m key (some ((m key).getD [] ++ [value]))) where
  hash_eq := h.hash_eq
  get_eq key' := by
    rw [ThreadSafeKVStore.get_append, h.get_eq, h.get_eq, Function.update_apply]
  placed i key' hsome := by
    rw [ThreadSafeKVStore.getStripeIndex_append]
    rw [ThreadSafeKVStore.append_stripes, Function.update_apply] at hsome
    split at hsome
    · -- the stripe of `key`: its new entry, or an old one
      rename_i hi
      by_cases hk : key' = key
      · rw [hk, hi]
      · rw [Function.update_of_ne hk, ← hi] at hsome
        exact h.placed i key' hsome
    · exact h.placed i key' hsome

/-- A call on the store does what it does on the map. -/
theorem Represents.exec (h : Represents hash s m) (call : StoreCall) :
    Represents hash (storeCalls.exec s call) (mapCalls.exec m call) := by
  cases call with
  | get key => exact h
  | append key value => exact h.append key value

/-- ... and returns what it returns there. -/
theorem Represents.obs (h : Represents hash s m) (call : StoreCall) :
    storeCalls.obs s call = mapCalls.obs m call := by
  cases call with
  | get key => exact h.get_eq key
  | append key value => rfl

end Representation

/-- The map after a list of calls: what was there, and behind it what was appended. -/
theorem execAll_mapCalls (m : AppendMap) (calls : List StoreCall) (key : KeyType) :
    mapCalls.execAll m calls key
      = if appendedTo key calls = [] then m key
        else some ((m key).getD [] ++ appendedTo key calls) := by
  induction calls generalizing m with
  | nil => rfl
  | cons call calls ih =>
    rw [Actions.execAll_cons, ih]
    cases call with
    | get key' => rfl
    | append key' value =>
      by_cases hk : key' = key
      · subst hk
        by_cases hnil : appendedTo key' calls = []
        · simp_all [appendedTo, mapCalls]
        · simp_all [appendedTo, mapCalls]
      · simp [appendedTo, mapCalls, hk, Ne.symm hk]

/-! ## 3. Every sequence of calls -/

/-- **The striped store is one append-only map.**  For every hash and every sequence of calls, each
call returns what it returns on a single map; afterwards every key has the values appended to it, in
order, and no more; and every stored key lies in the stripe of its hash. -/
theorem striped_store_is_map (hash : KeyType → UInt64) (calls : List StoreCall) :
    storeCalls.obsAll (.empty hash) calls = mapCalls.obsAll (fun _ => none) calls ∧
      (∀ key, (storeCalls.execAll (.empty hash) calls).get key
        = mapCalls.execAll (fun _ => none) calls key) ∧
      (∀ key, (storeCalls.execAll (.empty hash) calls).get key
        = if appendedTo key calls = [] then none else some (appendedTo key calls)) ∧
      ∀ i key, ((storeCalls.execAll (.empty hash) calls).stripes i key).isSome →
        i.val = (hash key).toNat % numStripes := by
  obtain ⟨hobs, hrep⟩ := Actions.refines (fun s m call h => Represents.obs h call)
    (fun s m call h => Represents.exec h call) (represents_empty hash) calls
  refine ⟨hobs, hrep.get_eq, fun key => ?_, fun i key hsome => ?_⟩
  · rw [hrep.get_eq, execAll_mapCalls]
    rfl
  · rw [hrep.placed i key hsome]
    exact congrArg (fun f => (f key).toNat % numStripes) hrep.hash_eq

end TwoPL
