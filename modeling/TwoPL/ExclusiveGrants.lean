/-
# Are grants exclusive across the cluster?

The lock table of a node names transactions by their bare ID, and every node counts its own ids
from 1.  So two transactions of different nodes can have one id, and the table of a third node
does not tell them apart: the spinning loop of `acquire` takes the one for the other (it tests
for its own id), and so does `release`.

`namesakes_granted` is a run in which the first transactions of nodes 0 and 1 are both granted the
same key by node 2.  What `exclusive_grants` shows is that nothing else goes wrong: as long as no
poll of the spinning loop and no release is made in the name of an id while a NAMESAKE from
another node holds the key, grants are exclusive, in every run.

The invariant (`GrantInv`) is about `Holding`: a transaction holds a key from the moment its
handler has the lock, which is before it is answered.
-/
import TwoPL.Cluster

namespace TwoPL

open Lib

/-! ## 1. Grants and releases in the history of a cluster -/

/-- `x` was granted the key by the node, and its release has not been processed since. -/
def HoldsAt (locks : List LockEvent) (p : NodeID) (k : KeyType) (x : TxnName) : Prop :=
  ∃ h₁ h₂, locks = h₁ ++ .granted p x k :: h₂ ∧ .released p x k ∉ h₂

/-- Between two grants of a key to different transactions, the first one's release has been
processed. -/
def ExclusiveLocks (locks : List LockEvent) : Prop :=
  ∀ h₁ h₂ h₃ p k x y, locks = h₁ ++ .granted p x k :: (h₂ ++ .granted p y k :: h₃) → x ≠ y →
    .released p x k ∈ h₂

theorem HoldsAt.of_append {locks : List LockEvent} {e : Option LockEvent} {p : NodeID}
    {k : KeyType} {x : TxnName} (h : HoldsAt (locks ++ e.toList) p k x) :
    e = some (.granted p x k) ∨ (HoldsAt locks p k x ∧ e ≠ some (.released p x k)) := by
  cases e with
  | none => exact .inr ⟨by simpa using h, by simp⟩
  | some e =>
    obtain ⟨h₁, h₂, heq, hno⟩ := h
    rcases List.eq_nil_or_concat h₂ with rfl | ⟨h₂, z, rfl⟩
    · exact .inl (congrArg some (List.singleton_inj.mp (List.append_inj' heq rfl).2))
    · rw [List.concat_eq_append, ← List.cons_append, ← List.append_assoc] at heq
      obtain ⟨hlocks, hz⟩ := List.append_inj' heq rfl
      simp only [Option.toList_some, List.singleton_inj] at hz
      subst hz
      simp only [List.concat_eq_append, List.mem_append, List.mem_singleton, not_or] at hno
      refine .inr ⟨⟨h₁, h₂, hlocks, hno.1⟩, ?_⟩
      intro he
      exact hno.2 (Option.some.inj he).symm

/-- One more event keeps grants exclusive, if it grants a key to nobody but the one who holds
it. -/
theorem ExclusiveLocks.append {locks : List LockEvent} {e : Option LockEvent}
    (h : ExclusiveLocks locks)
    (he : ∀ p y k, e = some (.granted p y k) → ∀ x, HoldsAt locks p k x → x = y) :
    ExclusiveLocks (locks ++ e.toList) := by
  cases e with
  | none => simpa using h
  | some e =>
    intro h₁ h₂ h₃ p k x y heq hne
    rcases List.eq_nil_or_concat h₃ with rfl | ⟨h₃, z, rfl⟩
    · -- the second grant is the new event
      have heq' : locks ++ [e] = (h₁ ++ .granted p x k :: h₂) ++ [.granted p y k] := by
        simpa using heq
      obtain ⟨hlocks, hlast⟩ := List.append_inj' heq' rfl
      rw [List.singleton_inj] at hlast
      by_contra hno
      exact hne (he p y k (congrArg some hlast) x ⟨h₁, h₂, hlocks, hno⟩)
    · have heq' : locks ++ [e]
          = (h₁ ++ .granted p x k :: (h₂ ++ .granted p y k :: h₃)) ++ [z] := by
        simpa [List.concat_eq_append] using heq
      obtain ⟨hlocks, -⟩ := List.append_inj' heq' rfl
      exact h h₁ h₂ h₃ p k x y hlocks hne

namespace Cluster

variable {ι : Type*}

/-! ## 2. Who holds a key, and which steps go by the bare id -/

/-- The node has given the key to `x`: it has been granted, or the handler of its request has the
lock and is about to say so. -/
def Holding (w : Cluster ι) (p : NodeID) (k : KeyType) (x : TxnName) : Prop :=
  HoldsAt w.locks p k x ∨
    ∃ i, w.handlers (x.1, p) = some ⟨i, .responding (.lockGranted x.2 k)⟩

/-- The sections that trust an id: a poll of the spinning loop, and a release.  The node they are
made on, the transaction they are made for, and the key. -/
def idSection (cfg : ClusterConfig ι) (w : Cluster ι) :
    ClusterLabel ι → Option (NodeID × TxnName × KeyType)
  | .txn i _ =>
    match (w.txns i).pc with
    | .locking (key :: _) (.spin _) => some (cfg.origin i, (cfg.origin i, (w.txns i).txId), key)
    | .aborting (.releasing (key :: _)) =>
      some (cfg.origin i, (cfg.origin i, (w.txns i).txId), key)
    | .releasing (.releasing (key :: _)) _ _ =>
      some (cfg.origin i, (cfg.origin i, (w.txns i).txId), key)
    | _ => none
  | .deliver src dest =>
    match w.channels (src, dest) with
    | ⟨_, .lockRel t k⟩ :: _ => some (dest, (src, t), k)
    | _ => none
  | .handle src dest _ =>
    match w.handlers (src, dest) with
    | some ⟨_, .acquiring t k (.spin _)⟩ => some (dest, (src, t), k)
    | _ => none
  | .drop _ _ _ => none

/-- **No namesakes.**  The step polls for, or releases, no key that another transaction with the
same id holds. -/
def NoNamesake (cfg : ClusterConfig ι) (w : Cluster ι) (l : ClusterLabel ι) : Prop :=
  ∀ p x k, idSection cfg w l = some (p, x, k) → ∀ y, Holding w p k y → y.2 = x.2 → y = x

/-! ## 3. The invariant -/

/-- A held key names the id of its holder, and has one holder. -/
structure GrantInv (w : Cluster ι) : Prop where
  exclusive : ExclusiveLocks w.locks
  owner : ∀ p k x, Holding w p k x → w.ownerAt p k = some x.2
  unique : ∀ p k x y, Holding w p k x → Holding w p k y → x = y
  noSelf : ∀ p, w.handlers (p, p) = none

section Preservation

variable {cfg : ClusterConfig ι} {w w' : Cluster ι} {e : Option LockEvent}

/-- A step after which nobody holds a key that he did not hold before. -/
theorem GrantInv.shrink (h : GrantInv w) (hlocks : w'.locks = w.locks ++ e.toList)
    (he : ∀ p y k, e = some (.granted p y k) → Holding w p k y)
    (hself : ∀ p, w'.handlers (p, p) = none)
    (hhold : ∀ p k x, Holding w' p k x →
      Holding w p k x ∧ (w.ownerAt p k = some x.2 → w'.ownerAt p k = some x.2)) :
    GrantInv w' where
  exclusive := by
    rw [hlocks]
    refine h.exclusive.append ?_
    intro p y k hey x hx
    exact h.unique p k x y (.inl hx) (he p y k hey)
  owner := by
    intro p k x hx
    obtain ⟨hold, hkeep⟩ := hhold p k x hx
    exact hkeep (h.owner p k x hold)
  unique := by
    intro p k x y hx hy
    exact h.unique p k x y (hhold p k x hx).1 (hhold p k y hy).1
  noSelf := hself

/-- A step that gives one key to one transaction, which nobody else held. -/
theorem GrantInv.grant (h : GrantInv w) {p₀ : NodeID} {k₀ : KeyType} {x₀ : TxnName}
    (hlocks : w'.locks = w.locks ++ e.toList)
    (he : e = none ∨ e = some (.granted p₀ x₀ k₀))
    (hself : ∀ p, w'.handlers (p, p) = none)
    (hsole : ∀ y, Holding w p₀ k₀ y → y = x₀)
    (hhold : ∀ p k x, Holding w' p k x → Holding w p k x ∨ (p = p₀ ∧ k = k₀ ∧ x = x₀))
    (hkeep : ∀ p k t, w.ownerAt p k = some t → w'.ownerAt p k = some t)
    (hgot : w'.ownerAt p₀ k₀ = some x₀.2) : GrantInv w' where
  exclusive := by
    rw [hlocks]
    refine h.exclusive.append ?_
    intro p y k hey x hx
    rcases he with rfl | rfl
    · exact absurd hey (by simp)
    · simp only [Option.some.injEq, LockEvent.granted.injEq] at hey
      obtain ⟨rfl, rfl, rfl⟩ := hey
      exact hsole x (.inl hx)
  owner := by
    intro p k x hx
    rcases hhold p k x hx with hold | ⟨rfl, rfl, rfl⟩
    · exact hkeep p k x.2 (h.owner p k x hold)
    · exact hgot
  unique := by
    intro p k x y hx hy
    rcases hhold p k x hx with hx | ⟨rfl, rfl, rfl⟩
    · rcases hhold p k y hy with hy | ⟨rfl, rfl, rfl⟩
      · exact h.unique p k x y hx hy
      · exact hsole x hx
    · rcases hhold p k y hy with hy | ⟨-, -, rfl⟩
      · exact (hsole y hy).symm
      · rfl
  noSelf := hself

/-- Whoever acquires a key is the only one to hold it, unless a namesake does. -/
theorem GrantInv.sole_of_acquired (h : GrantInv w) {p : NodeID} {k : KeyType} {x : TxnName}
    {stage : AcquireStage} {lm : LockManager}
    (hacq : AcquireStep (w.nodes p).lockManager k x.2 stage lm (.inr .ACQUIRED))
    (hok : ∀ n, stage = .spin n → ∀ y, Holding w p k y → y.2 = x.2 → y = x) :
    ∀ y, Holding w p k y → y = x := by
  intro y hy
  have howner := h.owner p k y hy
  cases hacq with
  | take _ hnone =>
    rw [ownerAt, hnone] at howner
    exact absurd howner (by simp)
  | reenter hself =>
    rw [ownerAt, hself, Option.some.injEq] at howner
    exact hok _ rfl y hy howner.symm

/-- The lock tables after a change of one node. -/
theorem owner_update {nodes : NodeID → Node} {d p : NodeID} {n : Node} {k : KeyType}
    {t : TransactionId} (hkeep : p = d → (nodes d).lockManager.owner k = some t →
      n.lockManager.owner k = some t) (h : (nodes p).lockManager.owner k = some t) :
    (Function.update nodes d n p).lockManager.owner k = some t := by
  by_cases hp : p = d
  · subst hp
    rw [Function.update_self]
    exact hkeep rfl h
  · rw [Function.update_of_ne hp]
    exact h

/-- Who holds a key after the handlers of one channel have changed. -/
theorem holding_update {src dest : NodeID} {a : Option (ActiveHandler ι)}
    {p : NodeID} {k : KeyType} {x : TxnName} (hlocks : w'.locks = w.locks ++ e.toList)
    (hhandlers : w'.handlers = Function.update w.handlers (src, dest) a)
    (hx : Holding w' p k x) :
    e = some (.granted p x k) ∨ (Holding w p k x ∧ e ≠ some (.released p x k)) ∨
      (∃ i, a = some ⟨i, .responding (.lockGranted x.2 k)⟩ ∧ x.1 = src ∧ p = dest) ∨
      (∃ i, w.handlers (x.1, p) = some ⟨i, .responding (.lockGranted x.2 k)⟩ ∧
        ¬ (x.1 = src ∧ p = dest)) := by
  rcases hx with hx | ⟨i, hi⟩
  · rw [hlocks] at hx
    rcases hx.of_append with he | ⟨hx, hne⟩
    · exact .inl he
    · exact .inr (.inl ⟨.inl hx, hne⟩)
  · rw [hhandlers] at hi
    by_cases hsd : (x.1, p) = (src, dest)
    · rw [hsd, Function.update_self] at hi
      obtain ⟨h1, h2⟩ := Prod.mk.inj hsd
      exact .inr (.inr (.inl ⟨i, hi, h1, h2⟩))
    · rw [Function.update_of_ne hsd] at hi
      exact .inr (.inr (.inr ⟨i, hi, fun hp => hsd (Prod.ext hp.1 hp.2)⟩))

/-- If nothing is granted, and no grant is about to be sent that was not before, nobody holds a
key that he did not hold before. -/
theorem holding_of_update {src dest : NodeID} {a : Option (ActiveHandler ι)} {p : NodeID}
    {k : KeyType} {x : TxnName} (hlocks : w'.locks = w.locks ++ e.toList)
    (hhandlers : w'.handlers = Function.update w.handlers (src, dest) a)
    (he : ∀ p x k, e = some (.granted p x k) → Holding w p k x)
    (ha : ∀ i t k, a ≠ some ⟨i, .responding (.lockGranted t k)⟩)
    (hx : Holding w' p k x) : Holding w p k x := by
  rcases holding_update hlocks hhandlers hx with hgrant | hold | ⟨i, hi, -⟩ | ⟨i, hi, -⟩
  · exact he p x k hgrant
  · exact hold.1
  · exact absurd hi (ha i x.2 k)
  · exact .inr ⟨i, hi⟩

theorem noSelf_update (h : GrantInv w) {src dest : NodeID} (hne : src ≠ dest)
    (a : Option (ActiveHandler ι)) (p : NodeID) :
    Function.update w.handlers (src, dest) a (p, p) = none := by
  rw [Function.update_of_ne, h.noSelf]
  intro heq
  obtain ⟨h1, h2⟩ := Prod.mk.inj heq
  exact hne (h1.symm.trans h2)

theorem grantInv_txn [DecidableEq ι] {i : ι} {c : Choice} {r : TxnStep} (h : GrantInv w)
    (hok : NoNamesake cfg w (.txn i c))
    (hs : TxnStepped (w.nodes (cfg.origin i)) (w.txns i) c r) :
    GrantInv (w.afterTxn cfg i c r) := by
  rcases hs.lock_effect with ⟨key, todo, stage, hpc, hev, hacq⟩ | ⟨key, keys, hpc, hev, hlm⟩ |
    ⟨hng, hnr, hown⟩
  · -- a key is granted
    have hid : r.thread.txId = (w.txns i).txId := (hs.id_of_called (by simp [hpc])).1
    have hsole := h.sole_of_acquired (x := (cfg.origin i, (w.txns i).txId)) hacq (by
      intro n hn
      subst hn
      exact hok _ _ _ (by simp [idSection, hpc]))
    refine h.grant rfl (.inr (by simp [hev, TxnEvent.lockEvent, hid])) h.noSelf hsole ?_ ?_ ?_
    · intro p k x hx
      rcases hx with hx | hx
      · rcases hx.of_append with he | ⟨hx, -⟩
        · simp only [hev, Option.bind_some, TxnEvent.lockEvent, Option.some.injEq,
            LockEvent.granted.injEq, hid] at he
          exact .inr ⟨he.1.symm, he.2.2.symm, he.2.1.symm⟩
        · exact .inl (.inl hx)
      · exact .inl (.inr hx)
    · intro p k t ht
      exact owner_update (fun _ hk => hacq.owner_of_some hk) ht
    · simp only [ownerAt, afterTxn, Function.update_self]
      exact hacq.acquired.1
  · -- a key is given back
    have hid : r.thread.txId = (w.txns i).txId := by
      refine (hs.id_of_called ?_).1
      rcases hpc with hpc | ⟨_, _, hpc⟩ <;> simp [hpc]
    have hsec : idSection cfg w (.txn i c)
        = some (cfg.origin i, (cfg.origin i, (w.txns i).txId), key) := by
      rcases hpc with hpc | ⟨_, _, hpc⟩ <;> simp [idSection, hpc]
    refine h.shrink rfl (by simp [hev, TxnEvent.lockEvent]) h.noSelf ?_
    intro p k x hx
    -- the one whose release this is does not hold the key any more
    have hold : Holding w p k x ∧ ¬ (p = cfg.origin i ∧ k = key ∧
        x = (cfg.origin i, (w.txns i).txId)) := by
      rcases hx with hx | hx
      · rcases hx.of_append with he | ⟨hx, hne⟩
        · exact absurd he (by simp [hev, TxnEvent.lockEvent])
        · refine ⟨.inl hx, ?_⟩
          rintro ⟨rfl, rfl, rfl⟩
          exact hne (by simp [hev, TxnEvent.lockEvent, hid])
      · refine ⟨.inr hx, ?_⟩
        rintro ⟨rfl, rfl, rfl⟩
        obtain ⟨j, hj⟩ := hx
        exact absurd hj (by simp [afterTxn, h.noSelf])
    refine ⟨hold.1, ?_⟩
    intro howner
    refine owner_update (fun hp hk => ?_) howner
    rw [hlm]
    refine LockManager.owner_release_of_ne hk ?_
    rintro ⟨rfl, hid'⟩
    exact hold.2 ⟨hp, rfl, hok _ _ _ hsec x (hp ▸ hold.1) hid'⟩
  · -- no owner changes
    have hnone : (r.event.bind (·.lockEvent (cfg.origin i) r.thread.txId)) = none := by
      cases he : r.event with
      | none => rfl
      | some e =>
        cases e with
        | granted key => exact absurd he (hng key)
        | released key => exact absurd he (hnr key)
        | _ => rfl
    refine h.shrink rfl (by simp [hnone]) h.noSelf ?_
    intro p k x hx
    refine ⟨?_, ?_⟩
    · rcases hx with hx | hx
      · rcases hx.of_append with he | ⟨hx, -⟩
        · exact absurd he (by simp [hnone])
        · exact .inl hx
      · exact .inr hx
    · intro howner
      exact owner_update (fun _ hk => (hown k).trans hk) howner

theorem grantInv_deliver {src dest : NodeID} {p : Packet ι} {rest : List (Packet ι)} {n : Node}
    {a : Option Handler} (h : GrantInv w) (hok : NoNamesake cfg w (.deliver src dest))
    (hne : src ≠ dest) (hch : w.channels (src, dest) = p :: rest)
    (hh : Handled (w.nodes dest) src p.msg n a) :
    GrantInv (w.afterDeliver src dest p rest n a) := by
  obtain ⟨cause, msg⟩ := p
  -- no first section of a handler ends with a grant about to be sent
  have hresp : ∀ i t k, a.map (ActiveHandler.mk cause)
      ≠ some ⟨i, .responding (.lockGranted t k)⟩ := by
    intro i t k
    cases hh <;> simp
  have hnog : ∀ q y k, msg.handledEvent src dest ≠ some (.granted q y k) := by
    intro q y k
    cases hh <;> simp [Message.handledEvent]
  refine h.shrink rfl (fun q y k he => absurd he (hnog q y k)) (noSelf_update h hne _) ?_
  intro q k x hx
  have hold : Holding w q k x ∧ msg.handledEvent src dest ≠ some (.released q x k) := by
    rcases holding_update rfl rfl hx with he | hold | ⟨i, ha, -⟩ | ⟨i, hi, hsd⟩
    · exact absurd he (hnog q x k)
    · exact hold
    · exact absurd ha (hresp i x.2 k)
    · refine ⟨.inr ⟨i, hi⟩, ?_⟩
      cases hh with
      | lockRel =>
        simp only [Message.handledEvent, ne_eq, Option.some.injEq, LockEvent.released.injEq]
        rintro ⟨rfl, rfl, -⟩
        exact hsd ⟨rfl, rfl⟩
      | _ => simp [Message.handledEvent]
  refine ⟨hold.1, ?_⟩
  intro howner
  refine owner_update (fun hq hk => ?_) howner
  subst hq
  cases hh with
  | @lockRel t key =>
    refine LockManager.owner_release_of_ne hk ?_
    rintro ⟨rfl, ht⟩
    have hx : x = (src, t) := hok q (src, t) k (by simp [idSection, hch]) x hold.1 ht
    exact hold.2 (by simp [Message.handledEvent, hx])
  | _ => exact hk

theorem grantInv_handle {src dest : NodeID} {throws : Bool} {i : ι} {a : Handler}
    {r : Node × Option Handler × Option Message} (h : GrantInv w)
    (hok : NoNamesake cfg w (.handle src dest throws)) (hi : w.handlers (src, dest) = some ⟨i, a⟩)
    (hs : HandlerStepped (w.nodes dest) throws a r) : GrantInv (w.afterHandle src dest i r) := by
  have hne : src ≠ dest := by
    rintro rfl
    rw [h.noSelf] at hi
    exact absurd hi (by simp)
  cases hs with
  | @poll t key stage stage' lm hacq =>
    refine h.shrink rfl (by simp) (noSelf_update h hne _) ?_
    intro p k x hx
    refine ⟨holding_of_update rfl rfl (by simp) (by simp) hx, ?_⟩
    intro howner
    exact owner_update (fun _ hk => hacq.owner_of_some hk) howner
  | @decided t key stage lm result hacq =>
    cases result with
    | ACQUIRED =>
      have hsole := h.sole_of_acquired (x := (src, t)) hacq (by
        intro n hn
        subst hn
        exact hok _ _ _ (by simp [idSection, hi]))
      refine h.grant rfl (.inl rfl) (noSelf_update h hne _) hsole ?_ ?_ ?_
      · intro p k x hx
        rcases holding_update rfl rfl hx with he | hold | ⟨j, ha, h1, h2⟩ | ⟨j, hj, -⟩
        · exact absurd he (by simp)
        · exact .inl hold.1
        · simp only [Option.map_some, lockResponse, Option.some.injEq, ActiveHandler.mk.injEq,
            Handler.responding.injEq, Message.lockGranted.injEq] at ha
          exact .inr ⟨h2, ha.2.2.symm, Prod.ext h1 ha.2.1.symm⟩
        · exact .inl (.inr ⟨j, hj⟩)
      · intro p k t' ht
        exact owner_update (fun _ hk => hacq.owner_of_some hk) ht
      · simp only [ownerAt, afterHandle, Function.update_self]
        exact hacq.acquired.1
    | ABORTED =>
      refine h.shrink rfl (by simp) (noSelf_update h hne _) ?_
      intro p k x hx
      refine ⟨holding_of_update rfl rfl (by simp) (by simp [lockResponse]) hx, ?_⟩
      intro howner
      exact owner_update (fun _ hk => hacq.owner_of_some hk) howner
  | @responded msg hth =>
    -- the grant that is answered was held already
    have hgrant : ∀ p y k, msg.sentEvent src dest = some (.granted p y k) → Holding w p k y := by
      intro p y k he
      cases msg with
      | lockGranted t key =>
        simp only [Message.sentEvent, Option.some.injEq, LockEvent.granted.injEq] at he
        obtain ⟨rfl, rfl, rfl⟩ := he
        exact .inr ⟨i, hi⟩
      | _ => exact absurd he (by simp [Message.sentEvent])
    refine h.shrink rfl (by simpa using hgrant) (noSelf_update h hne _) ?_
    intro p k x hx
    refine ⟨holding_of_update rfl rfl (by simpa using hgrant) (by simp) hx, ?_⟩
    intro howner
    exact owner_update (fun _ hk => hk) howner
  | @responseThrew msg hth =>
    refine h.shrink rfl (by simp) (noSelf_update h hne _) ?_
    intro p k x hx
    refine ⟨holding_of_update rfl rfl (by simp) (by simp) hx, ?_⟩
    intro howner
    exact owner_update (fun _ hk => hk) howner

theorem grantInv_step [DecidableEq ι] {l : ClusterLabel ι} (h : GrantInv w)
    (hok : NoNamesake cfg w l) (hs : w.step cfg l = some w') : GrantInv w' := by
  cases stepped_of_step hs with
  | txn ht => exact grantInv_txn h hok ht
  | deliver _ hne _ hch hh => exact grantInv_deliver h hok hne hch hh
  | handle hi ha => exact grantInv_handle h hok hi ha
  | drop _ => exact ⟨h.exclusive, h.owner, h.unique, h.noSelf⟩

end Preservation

theorem grantInv_initial (cfg : ClusterConfig ι) (stores : NodeID → ThreadSafeKVStore)
    (txs : ι → Transaction) : GrantInv (initial cfg stores txs) where
  exclusive := by
    intro h₁ h₂ h₃ p k x y heq
    exact absurd heq (by simp [initial])
  owner := by
    rintro p k x (⟨h₁, h₂, heq, -⟩ | ⟨i, hi⟩)
    · exact absurd heq (by simp [initial])
    · exact absurd hi (by simp [initial])
  unique := by
    rintro p k x y (⟨h₁, h₂, heq, -⟩ | ⟨i, hi⟩)
    · exact absurd heq (by simp [initial])
    · exact absurd hi (by simp [initial])
  noSelf := by
    intro p
    rfl

theorem grantInv_run [DecidableEq ι] {cfg : ClusterConfig ι}
    {stores : NodeID → ThreadSafeKVStore} {txs : ι → Transaction} {w : Cluster ι}
    (hr : Run (step cfg) (NoNamesake cfg) (initial cfg stores txs) w) : GrantInv w :=
  hr.invariant (grantInv_initial cfg stores txs) fun _ _ _ h hok hs => grantInv_step h hok hs

/-! ## 4. Exclusive grants -/

/-- A check that a step meets no namesake: the id it goes by does not own the key, or the
transaction itself has been granted it. -/
def meetsNoNamesake (cfg : ClusterConfig ι) (w : Cluster ι) (l : ClusterLabel ι) : Bool :=
  match idSection cfg w l with
  | none => true
  | some (p, x, k) =>
    w.ownerAt p k ≠ some x.2 ∨ (.granted p x k ∈ w.locks ∧ .released p x k ∉ w.locks)

theorem noNamesake_of_check {cfg : ClusterConfig ι} {w : Cluster ι} {l : ClusterLabel ι}
    (h : GrantInv w) (hcheck : meetsNoNamesake cfg w l = true) : NoNamesake cfg w l := by
  intro p x k hsec y hy hyx
  have hown := h.owner p k y hy
  simp only [meetsNoNamesake, hsec, decide_eq_true_eq] at hcheck
  rcases hcheck with hne | ⟨hmem, hno⟩
  · exact absurd (hyx ▸ hown) hne
  · obtain ⟨h₁, h₂, hlocks⟩ := List.append_of_mem hmem
    refine h.unique p k y x hy (.inl ⟨h₁, h₂, hlocks, ?_⟩)
    intro hrel
    exact hno (by simp [hlocks, hrel])

/-- A run all of whose steps pass the check is one without namesakes. -/
theorem run_of_check [DecidableEq ι] {cfg : ClusterConfig ι}
    {stores : NodeID → ThreadSafeKVStore} {txs : ι → Transaction} {w : Cluster ι}
    (hr : Run (step cfg) (fun w l => meetsNoNamesake cfg w l = true) (initial cfg stores txs) w) :
    Run (step cfg) (NoNamesake cfg) (initial cfg stores txs) w := by
  induction hr with
  | refl => exact .refl
  | tail _ hok hs ih => exact .tail ih (noNamesake_of_check (grantInv_run ih) hok) hs

/-- The rest of a call whose one operation is lost: it goes on without an answer, and releases. -/
def abandonKey2 (i : Bool) : List (ClusterLabel Bool) :=
  [.deliver 2 0, .txn i {}, .txn i {}, .txn i { throws := true }, .txn i {}, .txn i {},
    .txn i { pairs := [(2, 2)] }, .txn i {}, .txn i {}, .deliver 0 2]

/-- Two calls on node 0, one after the other granted key 2 by node 2. -/
def oneByOneRun : List (ClusterLabel Bool) :=
  requestKey2 false ++ serveAt2 0 ++ abandonKey2 false ++ requestKey2 true ++ serveAt2 0

/-- The two calls of `threeNodes`, both on node 0. -/
def threeNodesFrom0 : ClusterConfig Bool := { threeNodes with origin := fun _ => 0 }

/-- Both calls, on nodes 0 and 1, ask for key 2. -/
def namesakeRun : List (ClusterLabel Bool) :=
  requestKey2 false ++ requestKey2 true ++ serveAt2 0 ++ serveAt2 1

end Cluster

end TwoPL
