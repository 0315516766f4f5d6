/-
# Which node is in charge of a key

`TwoPLScheduler::start`, `TwoPLScheduler::is_local_key` and the routing half of
`DistributedCoordinator`.

`start` reads its own number out of its name with `std::from_chars` and the numbers of its
peers with `std::stoi`, sorts and deduplicates the lot, and hands the list to a coordinator.
`get_primary_node` then answers `hash(key) % all_nodes.size()`: the INDEX of a node in that
list, used as if it were the node's number.

The two agree exactly when the numbers of the cluster are `0 .. n-1` (`one_primary_iff`).  On
any other cluster some key has a primary that is nobody (`primary_is_nobody` on nodes 1 and
2), and then every node sends its lock requests for the key to a node that does not exist.
-/
import Mathlib.Algebra.Group.Int.Defs
import Mathlib.Algebra.Group.Nat.Defs
import Mathlib.Data.Finset.Card
import Mathlib.Data.List.Sort
import Mathlib.Data.List.TakeWhile
import TwoPL.Storage

namespace TwoPL

/-! ## 1. Reading numbers -/

/-- The number that a string of digits denotes. -/
def digitsValue (cs : List Char) : Nat :=
  cs.foldl (fun n c => 10 * n + (c.toNat - 48)) 0

/-- `std::from_chars` into a `uint16_t`: digits only, no sign and no leading space; trailing
characters are ignored.  `none` is an error code, and the output is then not written. -/
def fromChars (cs : List Char) : Option NodeID :=
  let digits := cs.takeWhile Char.isDigit
  if digits = [] then none
  else if digitsValue digits < 2 ^ 16 then some (UInt16.ofNat (digitsValue digits))
  else none

/-- `isspace` in the C locale. -/
def isSpace (c : Char) : Bool := c.toNat = 32 || (9 ≤ c.toNat && c.toNat ≤ 13)

/-- `std::stoi`: leading white space, a sign, digits; trailing characters are ignored.  `none`
is an exception (no digits, or a value outside `int`). -/
def stoi (cs : List Char) : Option Int :=
  let cs := cs.dropWhile isSpace
  let sign : Int := if cs.head? = some '-' then -1 else 1
  let cs := if cs.head? = some '-' ∨ cs.head? = some '+' then cs.tail else cs
  let digits := cs.takeWhile Char.isDigit
  if digits = [] then none
  else
    let v := sign * digitsValue digits
    if -2 ^ 31 ≤ v ∧ v < 2 ^ 31 then some v else none

/-- The conversion of an `int` to `NodeID`, modulo 2^16. -/
def NodeID.ofInt (v : Int) : NodeID := UInt16.ofNat (v % 2 ^ 16).toNat

theorem digitsValue_append (cs cs' : List Char) :
    digitsValue (cs ++ cs') = cs'.foldl (fun n c => 10 * n + (c.toNat - 48)) (digitsValue cs) :=
  List.foldl_append ..

/-- Decimal digits denote the number they were printed from. -/
theorem digitsValue_toDigits (n : Nat) : digitsValue (Nat.toDigits 10 n) = n := by
  induction n using Nat.strong_induction_on with
  | _ n ih =>
    by_cases h : n < 10
    · rw [Nat.toDigits_of_lt_base h]
      simp [digitsValue, Nat.toNat_digitChar_sub_48_of_lt_ten h]
    · have hlt : n % 10 < 10 := Nat.mod_lt n (by decide)
      rw [Nat.toDigits_of_base_le (by decide) (by omega), digitsValue_append,
        ih (n / 10) (by omega), List.foldl_cons, List.foldl_nil,
        Nat.toNat_digitChar_sub_48_of_lt_ten hlt]
      omega

theorem takeWhile_toDigits (n : Nat) :
    (Nat.toDigits 10 n).takeWhile Char.isDigit = Nat.toDigits 10 n := by
  rw [List.takeWhile_eq_self_iff]
  exact fun c hc => Nat.isDigit_of_mem_toDigits (by decide) (by decide) hc

/-! ## 2. `DistributedCoordinator` -/

/-- The coordinator; `std::hash<KeyType>` is a field, since every result is for every hash. -/
structure DistributedCoordinator where
  hash : KeyType → UInt64
  localNodeId : NodeID
  allNodes : List NodeID

namespace DistributedCoordinator

/-- `static_cast<NodeID>(hash_value % all_nodes.size())`. -/
def getPrimaryNode (c : DistributedCoordinator) (key : KeyType) : NodeID :=
  UInt16.ofNat ((c.hash key).toNat % c.allNodes.length)

def isLocal (c : DistributedCoordinator) (key : KeyType) : Bool :=
  c.getPrimaryNode key = c.localNodeId

end DistributedCoordinator

/-! ## 3. `TwoPLScheduler::start` -/

/-- The part of the scheduler that `start` writes and key routing reads.  `_id` is not
initialised by any constructor. -/
structure Routing where
  id : NodeID
  localNodeId : NodeID
  numNodes : Nat
  coordinator : Option DistributedCoordinator

/-- A scheduler before `start`, with whatever is in `_id`. -/
def Routing.fresh (id : NodeID) : Routing where
  id := id
  localNodeId := 0
  numNodes := 1
  coordinator := none

/-- `std::unique` and `erase`: of neighbours that are equal, one stays. -/
def unique : List NodeID → List NodeID
  | [] => []
  | [a] => [a]
  | a :: b :: l => if a = b then unique (b :: l) else a :: unique (b :: l)

/-- How `start` fails. -/
inductive StartFailure
  | returnsFalse
  | throws
  deriving DecidableEq

/-- Lines 57-64: the node's own number. -/
def readLocalId (r : Routing) (nodeID : String) : Except StartFailure Routing :=
  match nodeID.toList with
  | 'n' :: toInt =>
    match fromChars toInt with
    | none => .error .returnsFalse
    | some v => .ok { r with id := v, localNodeId := v }
  | _ => .ok r

/-- Lines 71-75: the numbers of the peers. -/
def readPeerIds : List String → Except StartFailure (List NodeID)
  | [] => .ok []
  | peer :: peers =>
    match peer.toList with
    | 'n' :: rest =>
      match stoi rest with
      | none => .error .throws
      | some v => (readPeerIds peers).map (NodeID.ofInt v :: ·)
    | _ => readPeerIds peers

/-- `start`, with `hash` for `std::hash<KeyType>`. -/
def start (hash : KeyType → UInt64) (r : Routing) (nodeID : String) (peers : List String) :
    Except StartFailure Routing := do
  let r ← readLocalId r nodeID
  if peers = [] then return r
  let peerIds ← readPeerIds peers
  let nodeIds := unique ((r.localNodeId :: peerIds).insertionSort (· ≤ ·))
  return { r with
    numNodes := nodeIds.length
    coordinator := some ⟨hash, r.localNodeId, nodeIds⟩ }

/-- Without peers there is no coordinator. -/
theorem start_nil_coordinator {hash : KeyType → UInt64} {g : NodeID} {nodeID : String}
    {r : Routing} (h : start hash (.fresh g) nodeID [] = .ok r) : r.coordinator = none := by
  simp only [start, bind, Except.bind, readLocalId] at h
  split at h
  · exact absurd h (by simp)
  · rename_i r' hr'
    simp only [if_true, pure, Except.pure, Except.ok.injEq] at h
    subst h
    split at hr'
    · split at hr'
      · exact absurd hr' (by simp)
      · rw [Except.ok.injEq] at hr'
        rw [← hr']
        rfl
    · rw [Except.ok.injEq] at hr'
      rw [← hr']
      rfl

namespace Routing

/-- `is_local_key`. -/
def isLocalKey (r : Routing) (key : KeyType) : Bool :=
  match r.coordinator with
  | some c => c.isLocal key
  | none => true

/-- `is_local_key(key) ? local_node_id : coordinator->get_primary_node(key)`. -/
def primary (r : Routing) (key : KeyType) : NodeID :=
  if r.isLocalKey key then r.localNodeId
  else match r.coordinator with
    | some c => c.getPrimaryNode key
    | none => r.localNodeId

end Routing

/-! ## 4. What `start` computes on a cluster of well-named nodes -/

/-- `n<i>`, with `i` in decimal. -/
def nodeName (i : NodeID) : String := "n" ++ toString i.toNat

theorem toList_nodeName (i : NodeID) :
    (nodeName i).toList = 'n' :: Nat.toDigits 10 i.toNat := by
  simp [nodeName]

theorem fromChars_toDigits (i : NodeID) : fromChars (Nat.toDigits 10 i.toNat) = some i := by
  have hlt : i.toNat < 2 ^ 16 := i.toNat_lt
  simp only [fromChars, takeWhile_toDigits, Nat.toDigits_ne_nil, if_false, digitsValue_toDigits,
    if_pos hlt, UInt16.ofNat_toNat]

/-- A digit is neither a space nor a sign. -/
theorem stoi_toDigits (i : NodeID) : stoi (Nat.toDigits 10 i.toNat) = some (i.toNat : Int) := by
  have hlt : i.toNat < 2 ^ 16 := i.toNat_lt
  obtain ⟨c, cs, hcs⟩ : ∃ c cs, Nat.toDigits 10 i.toNat = c :: cs :=
    List.exists_cons_of_ne_nil Nat.toDigits_ne_nil
  have hdigit : c.isDigit = true :=
    Nat.isDigit_of_mem_toDigits (n := i.toNat) (b := 10) (by decide) (by decide) (by simp [hcs])
  have hrange : 48 ≤ c.toNat ∧ c.toNat ≤ 57 := by
    simpa [Char.isDigit, UInt32.le_iff_toNat_le] using hdigit
  have hspace : isSpace c = false := by
    simp only [isSpace, Bool.or_eq_false_iff, Bool.and_eq_false_iff, decide_eq_false_iff_not]
    omega
  have hminus : c ≠ '-' := by rintro rfl; simp at hrange
  have hplus : c ≠ '+' := by rintro rfl; simp at hrange
  have hdrop : (Nat.toDigits 10 i.toNat).dropWhile isSpace = Nat.toDigits 10 i.toNat := by
    rw [hcs, List.dropWhile_cons, hspace]; rfl
  have hhead : (Nat.toDigits 10 i.toNat).head? = some c := by rw [hcs]; rfl
  simp only [stoi, hdrop, hhead, Option.some.injEq, hminus, hplus, if_false, or_self,
    takeWhile_toDigits, Nat.toDigits_ne_nil, digitsValue_toDigits, Int.one_mul]
  rw [if_pos]
  omega

theorem ofInt_toNat (i : NodeID) : NodeID.ofInt i.toNat = i := by
  have hlt : i.toNat < 2 ^ 16 := i.toNat_lt
  have hmod : ((i.toNat : Int) % 2 ^ 16).toNat = i.toNat := by omega
  rw [NodeID.ofInt, hmod, UInt16.ofNat_toNat]

theorem readPeerIds_map_nodeName (l : List NodeID) : readPeerIds (l.map nodeName) = .ok l := by
  induction l with
  | nil => rfl
  | cons i l ih =>
    simp only [List.map_cons, readPeerIds, toList_nodeName, stoi_toDigits, ih, ofInt_toNat]
    rfl

theorem mem_unique {a : NodeID} : ∀ {l : List NodeID}, a ∈ unique l ↔ a ∈ l
  | [] => Iff.rfl
  | [b] => Iff.rfl
  | b :: c :: l => by
    rw [unique]
    split
    · rename_i hbc
      rw [mem_unique (l := c :: l), hbc]
      simp
    · rw [List.mem_cons, mem_unique (l := c :: l), List.mem_cons (l := c :: l)]

/-- On a sorted list `unique` leaves no repetition at all. -/
theorem nodup_unique : ∀ {l : List NodeID}, l.Pairwise (· ≤ ·) → (unique l).Nodup
  | [], _ => by simp [unique]
  | [b], _ => by simp [unique]
  | b :: c :: l, h => by
    rw [List.pairwise_cons] at h
    have ih : (unique (c :: l)).Nodup := nodup_unique h.2
    rw [unique]
    split
    · exact ih
    · rename_i hbc
      refine List.nodup_cons.mpr ⟨fun hmem => ?_, ih⟩
      -- everything behind `c` is at least `c`, and `b < c`
      have hb : b ∈ c :: l := mem_unique.mp hmem
      have hcb : c ≤ b := by
        rcases List.mem_cons.mp hb with rfl | hb
        · exact absurd rfl hbc
        · exact (List.pairwise_cons.mp h.2).1 b hb
      exact hbc (UInt16.le_antisymm (h.1 c List.mem_cons_self) hcb)

/-- The node list has one entry for each different number. -/
theorem length_nodeIds (l : List NodeID) :
    (unique (l.insertionSort (· ≤ ·))).length = l.toFinset.card := by
  have hnd : (unique (l.insertionSort (· ≤ ·))).Nodup :=
    nodup_unique (List.pairwise_insertionSort (· ≤ ·) l)
  rw [← List.toFinset_card_of_nodup hnd]
  congr 1
  ext a
  simp [mem_unique]

/-- What a node knows after `start`: its own number, and the list of all numbers. -/
theorem start_nodeName (hash : KeyType → UInt64) (g a : NodeID) {l : List NodeID} (hl : l ≠ []) :
    start hash (.fresh g) (nodeName a) (l.map nodeName) = .ok
      { id := a
        localNodeId := a
        numNodes := (a :: l).toFinset.card
        coordinator := some ⟨hash, a, unique ((a :: l).insertionSort (· ≤ ·))⟩ } := by
  have hread : readLocalId (.fresh g) (nodeName a)
      = .ok { Routing.fresh g with id := a, localNodeId := a } := by
    simp only [readLocalId, toList_nodeName, fromChars_toDigits]
  have hpeers : l.map nodeName ≠ [] := by simpa using hl
  rw [← length_nodeIds]
  simp only [start, hread, readPeerIds_map_nodeName, if_neg hpeers, bind, Except.bind, pure,
    Except.pure]

/-! ## 5. One primary for each key -/

/-- Exactly one node of the cluster takes the key for its own, and every node names it. -/
def ExactlyOnePrimary (ids : Finset NodeID) (node : NodeID → Routing) (key : KeyType) : Prop :=
  ∃ a ∈ ids, (∀ b ∈ ids, (node b).isLocalKey key = true ↔ b = a) ∧
    ∀ b ∈ ids, ∃ c, (node b).coordinator = some c ∧ c.getPrimaryNode key = a

/-- The nodes of the cluster `ids` started, `node a` being the one named `n<a>` and `peers a`
the list of names it was given. -/
def StartedCluster (hash : KeyType → UInt64) (g : NodeID) (ids : Finset NodeID)
    (peers : NodeID → List NodeID) (node : NodeID → Routing) : Prop :=
  ∀ a ∈ ids, start hash (.fresh g) (nodeName a) ((peers a).map nodeName) = .ok (node a)

section Cluster

variable {hash : KeyType → UInt64} {g : NodeID} {ids : Finset NodeID}
  {peers : NodeID → List NodeID} {node : NodeID → Routing}

/-- Every node of a started cluster counts `ids.card` nodes, itself included. -/
theorem StartedCluster.routing (h : StartedCluster hash g ids peers node)
    (hpeers : ∀ a ∈ ids, ∀ b, b ∈ peers a ↔ b ∈ ids ∧ b ≠ a) (hcard : 2 ≤ ids.card)
    {a : NodeID} (ha : a ∈ ids) :
    (node a).localNodeId = a ∧ ∃ c, (node a).coordinator = some c ∧ c.hash = hash ∧
      c.localNodeId = a ∧ c.allNodes.length = ids.card := by
  have hset : (a :: peers a).toFinset = ids := by
    ext b
    simp only [List.toFinset_cons, Finset.mem_insert, List.mem_toFinset, hpeers a ha b]
    constructor
    · rintro (rfl | hb)
      · exact ha
      · exact hb.1
    · intro hb
      by_cases hba : b = a
      · exact .inl hba
      · exact .inr ⟨hb, hba⟩
  have hne : peers a ≠ [] := by
    intro hnil
    rw [hnil] at hset
    rw [← hset] at hcard
    simp at hcard
  have hstart := h a ha
  rw [start_nodeName hash g a hne, Except.ok.injEq] at hstart
  rw [← hstart]
  exact ⟨rfl, _, rfl, rfl, rfl, by rw [length_nodeIds, hset]⟩

/-- The primary that every node computes. -/
theorem StartedCluster.primary (h : StartedCluster hash g ids peers node)
    (hpeers : ∀ a ∈ ids, ∀ b, b ∈ peers a ↔ b ∈ ids ∧ b ≠ a) (hcard : 2 ≤ ids.card)
    {a : NodeID} (ha : a ∈ ids) (key : KeyType) :
    (∃ c, (node a).coordinator = some c ∧
      c.getPrimaryNode key = UInt16.ofNat ((hash key).toNat % ids.card)) ∧
    ((node a).isLocalKey key = true ↔ a = UInt16.ofNat ((hash key).toNat % ids.card)) := by
  obtain ⟨-, c, hc, hhash, hlocal, hlen⟩ := h.routing hpeers hcard ha
  have hprim : c.getPrimaryNode key = UInt16.ofNat ((hash key).toNat % ids.card) := by
    rw [DistributedCoordinator.getPrimaryNode, hhash, hlen]
  refine ⟨⟨c, hc, hprim⟩, ?_⟩
  simp only [Routing.isLocalKey, hc, DistributedCoordinator.isLocal, hprim, hlocal,
    decide_eq_true_eq]
  exact eq_comm

end Cluster

theorem card_le_of_nodeID (ids : Finset NodeID) : ids.card ≤ 2 ^ 16 := by
  have hinj : Set.InjOn UInt16.toNat (ids : Set NodeID) :=
    fun a _ b _ hab => UInt16.toNat_inj.mp hab
  have hsub : ids.image UInt16.toNat ⊆ Finset.range (2 ^ 16) := by
    intro n hn
    obtain ⟨a, -, rfl⟩ := Finset.mem_image.mp hn
    exact Finset.mem_range.mpr a.toNat_lt
  rw [← Finset.card_image_of_injOn hinj]
  simpa using Finset.card_le_card hsub

/-- **When every key has one primary.**  On a cluster of at least two nodes, started in any
order of the peer lists, every key has exactly one primary for every hash function if and only
if the numbers of the nodes are `0 .. n-1`. -/
theorem one_primary_iff (ids : Finset NodeID) (hcard : 2 ≤ ids.card)
    (peers : NodeID → List NodeID) (hpeers : ∀ a ∈ ids, ∀ b, b ∈ peers a ↔ b ∈ ids ∧ b ≠ a)
    (g : NodeID) :
    (∀ hash : KeyType → UInt64, ∃ node, StartedCluster hash g ids peers node ∧
      ∀ key, ExactlyOnePrimary ids node key) ↔
    ∀ a, a ∈ ids ↔ a.toNat < ids.card := by
  have hle := card_le_of_nodeID ids
  constructor
  · intro h
    -- a hash that sends every key to `i` makes `i` the primary, so `i` is a node
    have hmem : ∀ i : NodeID, i.toNat < ids.card → i ∈ ids := by
      intro i hi
      obtain ⟨node, hnode, hone⟩ := h (fun _ => i.toUInt64)
      obtain ⟨a, ha, -, hall⟩ := hone 0
      obtain ⟨c, hc, hca⟩ := hall a ha
      obtain ⟨c', hc', hprim⟩ := (hnode.primary hpeers hcard ha 0).1
      rw [hc, Option.some.injEq] at hc'
      subst hc'
      rw [hca, UInt16.toNat_toUInt64, Nat.mod_eq_of_lt hi, UInt16.ofNat_toNat] at hprim
      exact hprim ▸ ha
    intro a
    refine ⟨fun ha => ?_, hmem a⟩
    -- the `n` numbers below `n` are all there, so there is room for no other
    by_contra hge
    have hsub : insert a.toNat (Finset.range ids.card) ⊆ ids.image UInt16.toNat := by
      intro n hn
      rcases Finset.mem_insert.mp hn with rfl | hn
      · exact Finset.mem_image_of_mem _ ha
      · have hn : n < ids.card := Finset.mem_range.mp hn
        have hto : (UInt16.ofNat n).toNat = n := by
          rw [UInt16.toNat_ofNat']; exact Nat.mod_eq_of_lt (by omega)
        exact Finset.mem_image.mpr ⟨UInt16.ofNat n, hmem _ (by rw [hto]; exact hn), hto⟩
    have h1 := Finset.card_le_card hsub
    rw [Finset.card_insert_of_notMem (by simpa using hge), Finset.card_range] at h1
    have h2 := Finset.card_image_le (s := ids) (f := UInt16.toNat)
    omega
  · intro hids hash
    have hex : ∀ a, ∃ r, a ∈ ids →
        start hash (.fresh g) (nodeName a) ((peers a).map nodeName) = .ok r := by
      intro a
      by_cases ha : a ∈ ids
      · obtain ⟨b, hb, hba⟩ := Finset.exists_mem_ne (s := ids) (by omega) a
        have hne : peers a ≠ [] := List.ne_nil_of_mem ((hpeers a ha b).mpr ⟨hb, hba⟩)
        exact ⟨_, fun _ => start_nodeName hash g a hne⟩
      · exact ⟨.fresh g, fun h => absurd h ha⟩
    choose node hnode using hex
    have hstarted : StartedCluster hash g ids peers node := hnode
    refine ⟨node, hstarted, fun key => ?_⟩
    have hmod : (hash key).toNat % ids.card < ids.card := Nat.mod_lt _ (by omega)
    have hprimary : UInt16.ofNat ((hash key).toNat % ids.card) ∈ ids := by
      rw [hids, UInt16.toNat_ofNat', Nat.mod_eq_of_lt (by omega)]
      exact hmod
    refine ⟨_, hprimary, fun b hb => ?_, fun b hb => ?_⟩
    · exact (hstarted.primary hpeers hcard hb key).2
    · exact (hstarted.primary hpeers hcard hb key).1

/-- The two nodes `n0` and `n1`. -/
theorem one_primary_iff_zero_one :
    (2 ≤ ({0, 1} : Finset NodeID).card) ∧
      ∀ hash : KeyType → UInt64, ∃ node,
        StartedCluster hash 0 {0, 1} (fun a => [1 - a]) node ∧
        ∀ key, ExactlyOnePrimary {0, 1} node key := by
  have hpeers : ∀ a ∈ ({0, 1} : Finset NodeID), ∀ b : NodeID,
      b ∈ [1 - a] ↔ b ∈ ({0, 1} : Finset NodeID) ∧ b ≠ a := by
    intro a ha b
    simp only [Finset.mem_insert, Finset.mem_singleton] at ha
    rcases ha with rfl | rfl
    · simp only [List.mem_singleton, Finset.mem_insert, Finset.mem_singleton]
      constructor
      · rintro rfl; decide
      · rintro ⟨rfl | rfl, h⟩
        · exact absurd rfl h
        · rfl
    · simp only [List.mem_singleton, Finset.mem_insert, Finset.mem_singleton]
      constructor
      · rintro rfl; decide
      · rintro ⟨rfl | rfl, h⟩
        · rfl
        · exact absurd rfl h
  refine ⟨by decide, (one_primary_iff {0, 1} (by decide) (fun a => [1 - a]) hpeers 0).mpr ?_⟩
  intro a
  have hcard : ({0, 1} : Finset NodeID).card = 2 := by decide
  rw [hcard, Finset.mem_insert, Finset.mem_singleton, ← UInt16.toNat_inj, ← UInt16.toNat_inj]
  show a.toNat = 0 ∨ a.toNat = 1 ↔ a.toNat < 2
  omega

/-- **A key whose primary is nobody.**  On the cluster of `n1` and `n2`, with the identity for
a hash (as libstdc++ has it), both nodes send key 0 to node 0. -/
theorem primary_is_nobody :
    ∃ node, StartedCluster (fun key => key.toUInt64) 0 {1, 2} (fun a => [3 - a]) node ∧
      ¬ ExactlyOnePrimary {1, 2} node 0 := by
  refine ⟨fun a =>
    { id := a, localNodeId := a, numNodes := ([a, 3 - a] : List NodeID).toFinset.card
      coordinator :=
        some ⟨fun key => key.toUInt64, a,
          unique (([a, 3 - a] : List NodeID).insertionSort (· ≤ ·))⟩ },
    fun a _ => start_nodeName _ 0 a (by simp), ?_⟩
  rintro ⟨a, ha, hlocal, -⟩
  simp only [Finset.mem_insert, Finset.mem_singleton] at ha
  have h := (hlocal a (by simpa using ha)).mpr rfl
  rcases ha with rfl | rfl <;> exact absurd h (by decide)

end TwoPL
