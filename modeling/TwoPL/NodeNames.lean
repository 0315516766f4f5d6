/-
# Two readings of a node's name

`TwoPLScheduler::start` reads a name twice: its own with `std::from_chars` into a `uint16_t`, that
of a peer with `std::stoi`, whose `int` is then narrowed to `uint16_t`.  The names are `n0`, `n1`
and so on, and on these both give the same number.  On others they part:

* from 65536 up to 2^31 - 1 a node refuses its own name, and its peers take the number modulo 2^16;
* `n-1`, `n+1` and `n 1` a node refuses as well, and its peers take for 65535, 1 and 1;
* a name that does not begin with `n` is refused by neither.  The node keeps the number 0 it has
  before `start`, and its peers leave it out.

`names_alike_iff` says that there is no other difference.
-/
import TwoPL.Coordinator

namespace TwoPL

/-! ## 1. What `start` takes from a name -/

/-- `start` gives the node called `name` the number its peers put in their lists for it, or each of
them rejects the name. -/
def NamesAlike (g : NodeID) (name : String) : Prop :=
  (∃ r, readLocalId (.fresh g) name = .ok r ∧ readPeerIds [name] = .ok [r.localNodeId]) ∨
  ((∃ e, readLocalId (.fresh g) name = .error e) ∧ ∃ e, readPeerIds [name] = .error e)

/-- The number of the local node after `start` is the one read from its name. -/
theorem start_localNodeId {hash : KeyType → UInt64} {g : NodeID} {name : String}
    {peers : List String} {r : Routing} (h : start hash (.fresh g) name peers = .ok r) :
    ∃ r₀, readLocalId (.fresh g) name = .ok r₀ ∧ r.localNodeId = r₀.localNodeId := by
  simp only [start, bind, Except.bind] at h
  split at h
  · exact absurd h (by simp)
  · rename_i r₀ hread
    refine ⟨r₀, hread, ?_⟩
    split at h
    · rw [← Except.ok.inj h]
    · split at h
      · exact absurd h (by simp)
      · rw [← Except.ok.inj h]

/-- **For a node that has started**, this is what it means: its peers' lists have the number it
knows itself by. -/
theorem namesAlike_iff_of_start {hash : KeyType → UInt64} {g : NodeID} {name : String}
    {peers : List String} {r : Routing} (h : start hash (.fresh g) name peers = .ok r) :
    NamesAlike g name ↔ readPeerIds [name] = .ok [r.localNodeId] := by
  obtain ⟨r₀, hread, hlocal⟩ := start_localNodeId h
  rw [hlocal]
  constructor
  · rintro (⟨r', hr', hids⟩ | ⟨⟨e, he⟩, -⟩)
    · rw [hread, Except.ok.injEq] at hr'
      rw [hids, hr']
    · rw [hread] at he
      exact absurd he (by simp)
  · exact fun hids => .inl ⟨r₀, hread, hids⟩

/-- A peer list is read name by name. -/
theorem readPeerIds_cons (name : String) (peers : List String) :
    readPeerIds (name :: peers) =
      (readPeerIds [name]).bind fun ids => (readPeerIds peers).map (ids ++ ·) := by
  simp only [readPeerIds]
  split
  · split
    · rfl
    · cases readPeerIds peers <;> rfl
  · cases readPeerIds peers <;> rfl

/-- **A node whose name is read alike is in every list with its name**, under the number it knows
itself by. -/
theorem localNodeId_mem_of_namesAlike {hash : KeyType → UInt64} {g : NodeID} {name : String}
    {peers : List String} {r : Routing} (h : start hash (.fresh g) name peers = .ok r)
    (halike : NamesAlike g name) {names : List String} (hname : name ∈ names) {ids : List NodeID}
    (hread : readPeerIds names = .ok ids) : r.localNodeId ∈ ids := by
  have hone := (namesAlike_iff_of_start h).mp halike
  induction names generalizing ids with
  | nil => exact absurd hname (by simp)
  | cons first names ih =>
    rw [readPeerIds_cons] at hread
    cases hfirst : readPeerIds [first] with
    | error e => simp [hfirst, Except.bind] at hread
    | ok one =>
      cases hrest : readPeerIds names with
      | error e => simp [hfirst, hrest, Except.bind, Except.map] at hread
      | ok rest =>
        simp only [hfirst, hrest, Except.bind, Except.map, Except.ok.injEq] at hread
        rw [← hread, List.mem_append]
        rcases List.mem_cons.mp hname with rfl | hmem
        · rw [hone, Except.ok.injEq] at hfirst
          exact .inl (by simp [← hfirst])
        · exact .inr (ih hmem hrest)

/-! ## 2. The two readers -/

/-- The sign `stoi` finds. -/
def stoiSign (cs : List Char) : Int :=
  if (cs.dropWhile isSpace).head? = some '-' then -1 else 1

/-- What is behind the white space and the sign. -/
def stoiUnsigned (cs : List Char) : List Char :=
  let cs := cs.dropWhile isSpace
  if cs.head? = some '-' ∨ cs.head? = some '+' then cs.tail else cs

theorem stoi_eq (cs : List Char) :
    stoi cs =
      let digits := (stoiUnsigned cs).takeWhile Char.isDigit
      if digits = [] then none
      else if -2 ^ 31 ≤ stoiSign cs * digitsValue digits ∧
          stoiSign cs * digitsValue digits < 2 ^ 31 then
        some (stoiSign cs * digitsValue digits)
      else none := rfl

/-- A digit is neither a space nor a sign. -/
theorem not_space_nor_sign_of_isDigit {c : Char} (h : c.isDigit = true) :
    isSpace c = false ∧ c ≠ '-' ∧ c ≠ '+' := by
  have hrange : 48 ≤ c.toNat ∧ c.toNat ≤ 57 := by
    simpa [Char.isDigit, UInt32.le_iff_toNat_le] using h
  refine ⟨?_, ?_, ?_⟩
  · simp only [isSpace, Bool.or_eq_false_iff, Bool.and_eq_false_iff, decide_eq_false_iff_not]
    omega
  · rintro rfl
    simp at hrange
  · rintro rfl
    simp at hrange

/-- On digits the two read the same characters. -/
theorem stoiUnsigned_of_digit {c : Char} (h : c.isDigit = true) (cs : List Char) :
    stoiSign (c :: cs) = 1 ∧ stoiUnsigned (c :: cs) = c :: cs := by
  obtain ⟨hspace, hminus, hplus⟩ := not_space_nor_sign_of_isDigit h
  simp [stoiSign, stoiUnsigned, hspace, hminus, hplus]

/-- What `std::stoi` rejects: no digits, or a value outside `int`. -/
def StoiRejects (cs : List Char) : Prop :=
  (stoiUnsigned cs).takeWhile Char.isDigit = [] ∨
    stoiSign cs * digitsValue ((stoiUnsigned cs).takeWhile Char.isDigit) < -2 ^ 31 ∨
    2 ^ 31 ≤ stoiSign cs * digitsValue ((stoiUnsigned cs).takeWhile Char.isDigit)

instance (cs : List Char) : Decidable (StoiRejects cs) :=
  inferInstanceAs (Decidable (_ ∨ _ ∨ _))

theorem stoi_eq_none_iff (cs : List Char) : stoi cs = none ↔ StoiRejects cs := by
  rw [stoi_eq, StoiRejects]
  simp only
  split
  · rename_i hnil
    simp [hnil]
  · rename_i hne
    split
    · rename_i hrange
      simp only [hne, reduceCtorEq, false_or, false_iff]
      omega
    · rename_i hrange
      simp only [hne, false_or, true_iff]
      omega

/-- The number after `n` begins with a digit and is below 2^16, or outside `int`; or it does not
begin with a digit, and `stoi` rejects it too. -/
def ReadAlike (rest : List Char) : Prop :=
  let digits := rest.takeWhile Char.isDigit
  (digits ≠ [] ∧ (digitsValue digits < 2 ^ 16 ∨ 2 ^ 31 ≤ digitsValue digits)) ∨
    (digits = [] ∧ StoiRejects rest)

instance (rest : List Char) : Decidable (ReadAlike rest) :=
  inferInstanceAs (Decidable ((_ ∧ _) ∨ (_ ∧ _)))

/-- `stoi` on digits. -/
theorem stoi_of_digits {cs : List Char} (h : cs.takeWhile Char.isDigit ≠ []) :
    stoi cs = if digitsValue (cs.takeWhile Char.isDigit) < 2 ^ 31
      then some (digitsValue (cs.takeWhile Char.isDigit) : Int) else none := by
  cases cs with
  | nil => exact absurd rfl h
  | cons c cs =>
    have hdigit : c.isDigit = true := by
      by_contra hc
      rw [List.takeWhile_cons, if_neg hc] at h
      exact h rfl
    obtain ⟨hsign, hunsigned⟩ := stoiUnsigned_of_digit hdigit cs
    rw [stoi_eq, hsign, hunsigned]
    simp only [h, if_false, Int.one_mul]
    split
    · rw [if_pos (by omega)]
    · rw [if_neg (by omega)]

/-- A number below 2^16 is not changed by the narrowing. -/
theorem ofInt_natCast {v : ℕ} (h : v < 2 ^ 16) : NodeID.ofInt v = UInt16.ofNat v := by
  have hmod : ((v : Int) % 2 ^ 16).toNat = v := by omega
  rw [NodeID.ofInt, hmod]

/-- The two readers agree on `rest`, or both reject it. -/
theorem readers_agree_iff (rest : List Char) :
    ((∃ id v, fromChars rest = some id ∧ stoi rest = some v ∧ NodeID.ofInt v = id) ∨
      (fromChars rest = none ∧ stoi rest = none)) ↔ ReadAlike rest := by
  by_cases hnil : rest.takeWhile Char.isDigit = []
  · -- `from_chars` rejects
    have hnone : fromChars rest = none := by simp [fromChars, hnil]
    simp [ReadAlike, hnil, hnone, stoi_eq_none_iff]
  · have hchars : fromChars rest = if digitsValue (rest.takeWhile Char.isDigit) < 2 ^ 16
        then some (UInt16.ofNat (digitsValue (rest.takeWhile Char.isDigit))) else none := by
      simp only [fromChars, hnil, if_false]
    rw [hchars, stoi_of_digits hnil]
    simp only [ReadAlike, ne_eq, hnil, not_false_eq_true, true_and, false_and, or_false]
    generalize digitsValue (rest.takeWhile Char.isDigit) = v
    by_cases hsmall : v < 2 ^ 16
    · have hint : v < 2 ^ 31 := by omega
      rw [if_pos hsmall, if_pos hint]
      exact ⟨fun _ => .inl hsmall, fun _ => .inl ⟨_, _, rfl, rfl, ofInt_natCast hsmall⟩⟩
    · by_cases hint : v < 2 ^ 31
      · rw [if_neg hsmall, if_pos hint]
        simp only [reduceCtorEq, false_and, exists_false, and_false, or_self, false_iff]
        omega
      · rw [if_neg hsmall, if_neg hint]
        simp only [reduceCtorEq, false_and, exists_false, false_or, and_self, true_iff]
        omega

/-! ## 3. Names -/

theorem readPeerIds_singleton (name : String) {rest : List Char} (h : name.toList = 'n' :: rest) :
    readPeerIds [name] =
      match stoi rest with
      | none => .error .throws
      | some v => .ok [NodeID.ofInt v] := by
  simp only [readPeerIds, h]
  cases stoi rest <;> rfl

theorem readLocalId_fresh (g : NodeID) (name : String) {rest : List Char}
    (h : name.toList = 'n' :: rest) :
    readLocalId (.fresh g) name =
      match fromChars rest with
      | none => .error .returnsFalse
      | some v => .ok { Routing.fresh g with id := v, localNodeId := v } := by
  cases hread : fromChars rest with
  | none => simp [readLocalId, h, hread]
  | some v => simp [readLocalId, h, hread]

/-- A name without the prefix is accepted on both sides, and says nothing. -/
theorem not_namesAlike_of_not_prefixed {g : NodeID} {name : String}
    (h : ∀ rest, name.toList ≠ 'n' :: rest) : ¬ NamesAlike g name := by
  have hpeers : readPeerIds [name] = .ok [] := by
    simp only [readPeerIds]
  rintro (⟨r, -, hids⟩ | ⟨-, e, hids⟩)
  · rw [hpeers, Except.ok.injEq] at hids
    exact absurd hids (by simp)
  · rw [hpeers] at hids
    exact absurd hids (by simp)

/-- **When a node and its peers read its name alike.** -/
theorem names_alike_iff (g : NodeID) (name : String) :
    NamesAlike g name ↔ ∃ rest, name.toList = 'n' :: rest ∧ ReadAlike rest := by
  by_cases hprefixed : ∃ rest, name.toList = 'n' :: rest
  · obtain ⟨rest, hrest⟩ := hprefixed
    have hiff : NamesAlike g name ↔ ReadAlike rest := by
      rw [← readers_agree_iff, NamesAlike, readLocalId_fresh g name hrest,
        readPeerIds_singleton name hrest]
      cases fromChars rest <;> cases stoi rest <;> simp [eq_comm]
    rw [hiff]
    constructor
    · exact fun h => ⟨rest, hrest, h⟩
    · rintro ⟨rest', hrest', h⟩
      rw [hrest, List.cons.injEq] at hrest'
      exact hrest'.2 ▸ h
  · refine ⟨fun h => absurd h (not_namesAlike_of_not_prefixed (not_exists.mp hprefixed)), ?_⟩
    rintro ⟨rest, hrest, -⟩
    exact absurd ⟨rest, hrest⟩ hprefixed

/-- The name `n65536`: the node refuses it, and its peers take it for node 0. -/
theorem name_read_apart :
    readLocalId (.fresh 0) "n65536" = .error .returnsFalse ∧ readPeerIds ["n65536"] = .ok [0] ∧
      ¬ NamesAlike 0 "n65536" := by
  have hrest : "n65536".toList = 'n' :: ['6', '5', '5', '3', '6'] := by decide +kernel
  have hchars : fromChars ['6', '5', '5', '3', '6'] = none := by decide +kernel
  have hstoi : stoi ['6', '5', '5', '3', '6'] = some 65536 := by decide +kernel
  have hlocal : readLocalId (.fresh 0) "n65536" = .error .returnsFalse := by
    rw [readLocalId_fresh 0 _ hrest, hchars]
  have hpeers : readPeerIds ["n65536"] = .ok [0] := by
    rw [readPeerIds_singleton _ hrest, hstoi]
    rfl
  refine ⟨hlocal, hpeers, ?_⟩
  rintro (⟨r, hr, -⟩ | ⟨-, e, he⟩)
  · rw [hlocal] at hr
    exact absurd hr (by simp)
  · rw [hpeers] at he
    exact absurd he (by simp)

end TwoPL
