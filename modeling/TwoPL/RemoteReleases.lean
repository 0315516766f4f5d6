/-
# Does a remote lock outlive its transaction?

A call gives its remote locks back by `lock_rel` messages, on three ways out:

* at the end of phase 3 (`release_all_locks`), one for every remote pair;
* after a timeout in `acquire_remote_locks_with_retry`, one for every pair still PENDING;
* when a local lock is refused, none, since nothing remote has been asked for by then.

The second is wrong.  The first response empties the pending entry, whatever it says, so a timeout
that fires after a response has been handled, and before the call is woken by it, finds nothing
pending and releases nothing (`lock_outlives`).  `no_lock_outlives` shows that this is the only way
to leave a lock behind, in every run of every cluster without lost messages.

The argument is about one call, one node and one key: as long as the node has the lock in the
call's name, or is still to be asked for it (`Wanted`), a release is on its way behind the request
(`Covered`), or the call is still going to send one (`Pc.Promises`).
-/
import TwoPL.Cluster

namespace TwoPL

open Lib

/-! ## 1. What a call has promised to release -/

/-- The remote locks that the call is still going to release.  After an exception nothing is
said. -/
def Pc.Promises (pairs : Finset (NodeID × KeyType)) (q : NodeID × KeyType) : Pc → Prop
  | .requesting _ => q ∈ pairs
  | .waiting => q ∈ pairs
  | .timingOut todo => q ∈ todo
  | .executing _ _ => q ∈ pairs
  | .opSending _ _ _ => q ∈ pairs
  | .opChecking _ _ _ => q ∈ pairs
  | .opWaiting _ _ _ => q ∈ pairs
  | .opRetrieving _ _ _ => q ∈ pairs
  | .releasing _ _ _ => q ∈ pairs
  | .sendingReleases todo _ _ => q ∈ todo
  | .threw => True
  | _ => False

/-- The pending entry of the call: not there before the requests, and then all of them or, once a
response has been handled, nothing. -/
def TxnThread.Tracks (n : Node) (t : TxnThread) : Prop :=
  match t.pc with
  | .locking _ _ => n.pendingRemoteLocks t.txId = none
  | .requesting todo => (∀ q ∈ todo, q ∈ n.remotePairs t.tx) ∧
      (n.pendingLocks t.txId = ∅ ∨ (n.pendingLocks t.txId).pairs = n.remotePairs t.tx)
  | .waiting => n.pendingLocks t.txId = ∅ ∨ (n.pendingLocks t.txId).pairs = n.remotePairs t.tx
  | _ => True

/-- A response takes the whole entry away; what else happens on the node leaves it alone. -/
theorem TxnThread.Tracks.of_node {n n' : Node} {t : TxnThread} (h : t.Tracks n)
    (hrouting : n'.routing = n.routing)
    (hpend : n'.pendingRemoteLocks t.txId = n.pendingRemoteLocks t.txId ∨
      n'.pendingRemoteLocks t.txId = none) : t.Tracks n' := by
  have hlocks : n'.pendingLocks t.txId = n.pendingLocks t.txId ∨ n'.pendingLocks t.txId = ∅ := by
    rcases hpend with heq | hnone
    · exact .inl (by simp [Node.pendingLocks, heq])
    · exact .inr (by simp [Node.pendingLocks, hnone])
  have hkeep : (n.pendingLocks t.txId = ∅ ∨ (n.pendingLocks t.txId).pairs = n.remotePairs t.tx) →
      (n'.pendingLocks t.txId = ∅ ∨ (n'.pendingLocks t.txId).pairs = n.remotePairs t.tx) := by
    intro hor
    rcases hlocks with heq | hempty
    · rwa [heq]
    · exact .inl hempty
  unfold Tracks at h ⊢
  rw [Node.remotePairs_congr hrouting]
  split at h
  · rcases hpend with heq | hnone
    · rw [heq, h]
    · exact hnone
  · exact ⟨h.1, hkeep h.2⟩
  · exact hkeep h
  · trivial

section Step

variable {n : Node} {t : TxnThread} {c : Choice} {r : TxnStep}

/-- **What a step does about the remote locks**: it asks for one, it releases one, it times out,
or it keeps its promises. -/
theorem TxnStepped.promises (h : TxnStepped n t c r) (hth : c.throws = false) :
    (∃ q todo, t.pc = .requesting (q :: todo) ∧ r.thread.pc = .requesting todo ∧
      r.sent = some (q.1, .lockReq t.txId q.2)) ∨
    (∃ q, r.sent = some (q.1, .lockRel t.txId q.2) ∧
      ∀ q', t.pc.Promises (n.remotePairs t.tx) q' →
        q' = q ∨ r.thread.pc.Promises (n.remotePairs t.tx) q') ∨
    (t.pc = .waiting ∧ c.timeout = true ∧ r.sent = none ∧
      ∃ todo, r.thread.pc = .timingOut todo ∧
        Enumerates todo (n.pendingLocks t.txId).pairs) ∨
    ((∀ dest t' k, r.sent ≠ some (dest, .lockReq t' k)) ∧
      ∀ q', t.pc.Promises (n.remotePairs t.tx) q' →
        r.thread.pc.Promises (n.remotePairs t.tx) q') := by
  cases h with
  | request hpc _ => exact .inl ⟨_, _, hpc, rfl, rfl⟩
  | timeoutRelease hpc _ =>
    refine .inr (.inl ⟨_, rfl, ?_⟩)
    intro q' hq'
    simpa [Pc.Promises, TxnThread.goto, hpc] using hq'
  | sendRelease hpc _ =>
    refine .inr (.inl ⟨_, rfl, ?_⟩)
    intro q' hq'
    simpa [Pc.Promises, TxnThread.goto, hpc] using hq'
  | timedOut hpc _ htime henum => exact .inr (.inr (.inl ⟨hpc, htime, rfl, _, rfl, henum⟩))
  | releasedLocal hpc _ henum =>
    refine .inr (.inr (.inr ⟨by simp, ?_⟩))
    intro q' hq'
    rw [hpc] at hq'
    exact (henum.mem_iff q').mpr hq'
  | opAnswered hpc =>
    refine .inr (.inr (.inr ⟨by simp, ?_⟩))
    intro q' hq'
    rcases hpc with hpc | hpc <;> simpa [Pc.Promises, TxnThread.goto, hpc] using hq'
  | _ =>
    refine .inr (.inr (.inr ⟨by simp, ?_⟩))
    intro q' hq'
    simp_all [Pc.Promises, TxnThread.goto]

theorem TxnStepped.tracks (h : TxnStepped n t c r) (ht : t.Tracks n) (hcalled : t.pc ≠ .idle) :
    r.thread.Tracks r.node := by
  cases h with
  | call hpc _ => exact absurd hpc hcalled
  | poll hpc _ => simpa [TxnThread.Tracks, TxnThread.goto, hpc] using ht
  | acquired hpc _ => simpa [TxnThread.Tracks, TxnThread.goto, hpc] using ht
  | @beginRemote stage pairs hpc _ _ henum =>
    have hnone : n.pendingRemoteLocks t.txId = none := by simpa [TxnThread.Tracks, hpc] using ht
    refine ⟨?_, .inr ?_⟩
    · intro q hq
      exact (henum.mem_iff q).mp hq
    · have hempty : n.pendingLocks t.txId = ∅ := by simp [Node.pendingLocks, hnone]
      have hpairs : ((n.initPending t.txId pairs).pendingLocks t.txId).pairs
          = n.remotePairs t.tx := by
        rw [Node.pendingLocks_initPending, NodeKeys.pairs_foldl_add, hempty, henum.2]
        simp
      exact hpairs
  | request hpc _ =>
    simp only [TxnThread.Tracks, hpc] at ht
    refine ⟨?_, ht.2⟩
    intro q hq
    exact ht.1 q (List.mem_cons_of_mem _ hq)
  | requested hpc _ =>
    simp only [TxnThread.Tracks, hpc] at ht
    have hkept := ht.2
    rw [← Node.pendingLocks_touchPending n t.txId t.txId] at hkept
    exact hkept
  | sleptOn hpc _ _ _ =>
    simp only [TxnThread.Tracks, hpc] at ht ⊢
    rw [← Node.pendingLocks_touchPending n t.txId t.txId] at ht
    exact ht
  | _ => trivial

end Step

namespace Cluster

variable {ι : Type*}

/-! ## 2. Every id is the id of a call -/

/-- The call has been made on this node, and this is its id. -/
structure Is (cfg : ClusterConfig ι) (w : Cluster ι) (j : ι) (a : NodeID) (t : TransactionId) :
    Prop where
  called : w.Called j
  origin : cfg.origin j = a
  txId : (w.txns j).txId = t

/-- The ids in lock tables, requests, releases and pending entries. -/
structure Identified (cfg : ClusterConfig ι) (w : Cluster ι) : Prop where
  owner : ∀ p k t, w.ownerAt p k = some t → ∃ j, w.Called j ∧ (w.txns j).txId = t
  acquiring : ∀ a b j t k st, w.handlers (a, b) = some ⟨j, .acquiring t k st⟩ → Is cfg w j a t
  responding : ∀ ab j m, w.handlers ab = some ⟨j, .responding m⟩ → m.IsResponse
  packet : ∀ a b q t k, q ∈ w.channels (a, b) → q.msg = .lockReq t k ∨ q.msg = .lockRel t k →
    Is cfg w q.cause a t
  pending : ∀ n t, (w.nodes n).pendingRemoteLocks t ≠ none → ∃ j, Is cfg w j n t

section Identified

variable [DecidableEq ι] {cfg : ClusterConfig ι} {w w' : Cluster ι} {l : ClusterLabel ι}

theorem Is.step {j : ι} {a : NodeID} {t : TransactionId} (h : Is cfg w j a t)
    (hs : Stepped cfg w l w') : Is cfg w' j a t where
  called := (hs.called h.called).1
  origin := h.origin
  txId := (hs.called h.called).2.trans h.txId

theorem identified_step (h : Identified cfg w) (hs : Stepped cfg w l w') :
    Identified cfg w' := by
  have his : ∀ {i : ι}, w.Called i → Is cfg w' i (cfg.origin i) (w.txns i).txId := by
    intro i hi
    exact Is.step ⟨hi, rfl, rfl⟩ hs
  constructor
  · intro p k t ho
    rcases hs.owner_of ho with hold | ⟨i, c, -, hi, -, rfl⟩ | ⟨a, j, st, hj⟩
    · obtain ⟨j, hj, hid⟩ := h.owner p k t hold
      exact ⟨j, (hs.called hj).1, (hs.called hj).2.trans hid⟩
    · exact ⟨i, (his hi).called, (his hi).txId⟩
    · have hj' := (h.acquiring a p j t k st hj).step hs
      exact ⟨j, hj'.called, hj'.txId⟩
  · intro a b j t k st ha
    rcases hs.acquiring_of ha with ⟨st', hold⟩ | ⟨rest, hch⟩
    · exact (h.acquiring a b j t k st' hold).step hs
    · exact (h.packet a b ⟨j, .lockReq t k⟩ t k (by simp [hch]) (.inl rfl)).step hs
  · intro ab j m ha
    exact (hs.responding_of ha).elim (h.responding ab j m) id
  · intro a b q t k hq hmsg
    rcases hs.packet_of hq with hold | ⟨c, r, -, hstep, hsent, rfl⟩ | hresp
    · exact (h.packet a b q t k hold hmsg).step hs
    · obtain ⟨rfl, hcalled⟩ := hstep.sent_id hsent hmsg
      exact his hcalled
    · have hkind := h.responding _ _ _ hresp
      rcases hmsg with hmsg | hmsg <;> exact absurd hkind (by simp [hmsg, Message.IsResponse])
  · intro n t hp
    rcases hs.pending_eq n t with heq | hnone | ⟨i, c, -, hi, rfl, rfl⟩
    · obtain ⟨j, hj⟩ := h.pending n t (heq ▸ hp)
      exact ⟨j, hj.step hs⟩
    · exact absurd hnone hp
    · exact ⟨i, his hi⟩

end Identified

/-! ## 3. A release behind every request -/

/-- A release of the key is in the channel, and no request for it behind the release. -/
def Covered (t : TransactionId) (k : KeyType) (ch : List (Packet ι)) : Prop :=
  ∃ l₁ q l₂, ch = l₁ ++ q :: l₂ ∧ q.msg = .lockRel t k ∧ ∀ q' ∈ l₂, q'.msg ≠ .lockReq t k

section Covered

variable {t : TransactionId} {k : KeyType} {ch : List (Packet ι)} {q : Packet ι}

theorem Covered.append (h : Covered t k ch) (hq : q.msg ≠ .lockReq t k) :
    Covered t k (ch ++ [q]) := by
  obtain ⟨l₁, q₁, l₂, rfl, hrel, hno⟩ := h
  refine ⟨l₁, q₁, l₂ ++ [q], by simp, hrel, ?_⟩
  intro q' hq'
  rcases List.mem_append.mp hq' with hq' | hq'
  · exact hno q' hq'
  · exact List.mem_singleton.mp hq' ▸ hq

theorem covered_append_release (ch : List (Packet ι)) (hq : q.msg = .lockRel t k) :
    Covered t k (ch ++ [q]) :=
  ⟨ch, q, [], rfl, hq, by simp⟩

/-- A send leaves the release behind the request, if it is not another request. -/
theorem Covered.push {w : Cluster ι} {src : NodeID} {i : ι} {sent : Option (NodeID × Message)}
    {ab : NodeID × NodeID} (h : Covered t k (w.channels ab))
    (hno : ∀ dest msg, sent = some (dest, msg) → ab = (src, dest) → msg ≠ .lockReq t k) :
    Covered t k (w.push src i sent ab) := by
  rcases w.push_cases src i sent ab with heq | ⟨dest, msg, hsent, hab, heq⟩
  · rwa [heq]
  · rw [heq]
    exact h.append (hno dest msg hsent hab)

/-- The message at the head is taken out: if it was the release, no request is left. -/
theorem Covered.tail (h : Covered t k (q :: ch)) :
    Covered t k ch ∨ (q.msg = .lockRel t k ∧ ∀ q' ∈ ch, q'.msg ≠ .lockReq t k) := by
  obtain ⟨l₁, q₁, l₂, heq, hrel, hno⟩ := h
  cases l₁ with
  | nil =>
    obtain ⟨rfl, rfl⟩ := List.cons.inj heq
    exact .inr ⟨hrel, hno⟩
  | cons q₀ l₁ =>
    obtain ⟨-, rfl⟩ := List.cons.inj heq
    exact .inl ⟨l₁, q₁, l₂, rfl, hrel, hno⟩

end Covered

/-- The node has the lock in the transaction's name, or is at a request for it, or is still to be
handed one. -/
def Wanted (w : Cluster ι) (o : NodeID) (t : TransactionId) (p : NodeID) (k : KeyType) : Prop :=
  w.ownerAt p k = some t ∨ (∃ j st, w.handlers (o, p) = some ⟨j, .acquiring t k st⟩) ∨
    ∃ q ∈ w.channels (o, p), q.msg = .lockReq t k

/-- No other call has the id of this one. -/
def Unique (w : Cluster ι) (i : ι) : Prop :=
  ∀ j, w.Called j → (w.txns j).txId = (w.txns i).txId → j = i

/-- What holds of a call with an id of its own: its pending entry is right, and no other node has a
lock of it that is not going to be released. -/
structure Releases (cfg : ClusterConfig ι) (w : Cluster ι) (i : ι) : Prop where
  tracks : (w.txns i).Tracks (w.nodes (cfg.origin i))
  released : ∀ p k, p ≠ cfg.origin i → Wanted w (cfg.origin i) (w.txns i).txId p k →
    Covered (w.txns i).txId k (w.channels (cfg.origin i, p)) ∨
      (w.txns i).pc.Promises ((w.nodes (cfg.origin i)).remotePairs (w.txns i).tx) (p, k)

/-- No send throws, and no message is lost. -/
def Delivers : ClusterLabel ι → Prop
  | .txn _ c => c.throws = false
  | .deliver _ _ => True
  | .handle _ _ throws => throws = false
  | .drop _ _ _ => False

/-- **The timeout finds what it has to release.**  The wait for the remote locks times out only
while they are pending, that is before a response has been handled, or when no node has, or is
still to be asked for, a lock in the name of the call. -/
def TimesOutPending (cfg : ClusterConfig ι) (w : Cluster ι) : ClusterLabel ι → Prop
  | .txn i c => (w.txns i).pc = .waiting → c.timeout = true →
    (w.nodes (cfg.origin i)).pendingLocks (w.txns i).txId ≠ ∅ ∨
      ∀ p k, p ≠ cfg.origin i → ¬ Wanted w (cfg.origin i) (w.txns i).txId p k
  | _ => True

section Preservation

variable [DecidableEq ι] {cfg : ClusterConfig ι} {w w' : Cluster ι} {l : ClusterLabel ι} {i : ι}

theorem Unique.of_step (hs : Stepped cfg w l w') (hi : w.Called i) (h : w'.Unique i) :
    w.Unique i := by
  intro j hj hid
  refine h j (hs.called hj).1 ?_
  rw [(hs.called hj).2, (hs.called hi).2, hid]

/-- A step of somebody else makes no node want a lock for the call. -/
theorem wanted_of_other (hid : Identified cfg w) (hu : w.Unique i) (hs : Stepped cfg w l w')
    (hother : ∀ c, l ≠ .txn i c) {p : NodeID} {k : KeyType}
    (hw : Wanted w' (cfg.origin i) (w.txns i).txId p k) :
    Wanted w (cfg.origin i) (w.txns i).txId p k := by
  rcases hw with ho | ⟨j, st, ha⟩ | ⟨q, hq, hmsg⟩
  · rcases hs.owner_of ho with hold | ⟨j, c, rfl, hj, -, hjid⟩ | ⟨a, j, st, ha⟩
    · exact .inl hold
    · obtain rfl := hu j hj hjid.symm
      exact absurd rfl (hother c)
    · have hj := hid.acquiring a p j _ k st ha
      obtain rfl := hu j hj.called hj.txId
      exact .inr (.inl ⟨j, st, hj.origin ▸ ha⟩)
  · rcases hs.acquiring_of ha with ⟨st', hold⟩ | ⟨rest, hch⟩
    · exact .inr (.inl ⟨j, st', hold⟩)
    · exact .inr (.inr ⟨⟨j, .lockReq (w.txns i).txId k⟩, by simp [hch], rfl⟩)
  · rcases hs.packet_of hq with hold | ⟨c, r, rfl, hstep, hsent, -⟩ | hresp
    · exact .inr (.inr ⟨q, hold, hmsg⟩)
    · obtain ⟨hqid, hcalled⟩ := hstep.sent_id hsent (.inl hmsg)
      exact absurd (hu q.cause hcalled hqid.symm ▸ rfl) (hother c)
    · exact absurd (hid.responding _ _ _ hresp) (by simp [hmsg, Message.IsResponse])

/-- A step of somebody else leaves the release behind the request, until the release is handled
and nobody wants the lock any more. -/
theorem covered_of_other (hid : Identified cfg w) (hu : w.Unique i) (hs : Stepped cfg w l w')
    (hother : ∀ c, l ≠ .txn i c) (hdel : Delivers l) {p : NodeID} {k : KeyType}
    (hw : Wanted w' (cfg.origin i) (w.txns i).txId p k)
    (hc : Covered (w.txns i).txId k (w.channels (cfg.origin i, p))) :
    Covered (w.txns i).txId k (w'.channels (cfg.origin i, p)) := by
  cases hs with
  | @txn j c r hstep =>
    refine hc.push ?_
    intro dest msg hsent _ hmsg
    obtain ⟨hjid, hcalled⟩ := hstep.sent_id hsent (.inl hmsg)
    obtain rfl := hu j hcalled hjid.symm
    exact hother c rfl
  | @deliver src dest q rest n a _ _ _ hch hh =>
    obtain ⟨cause, msg⟩ := q
    rcases eq_or_ne (cfg.origin i, p) (src, dest) with hsd | hne
    · obtain ⟨rfl, rfl⟩ := Prod.mk.inj hsd
      rw [hch] at hc
      rcases hc.tail with hrest | ⟨hrel, hno⟩
      · simpa [afterDeliver] using hrest
      · -- the release is handled: the key is free and no request is left
        obtain rfl : msg = .lockRel (w.txns i).txId k := hrel
        cases hh with
        | lockRel =>
          rcases hw with ho | ⟨j, st, ha⟩ | ⟨q, hq, hmsg⟩
          · refine absurd ?_ (LockManager.owner_release_self (w.nodes p).lockManager k
              (w.txns i).txId)
            simpa [ownerAt, afterDeliver, Node.handleLockRelease] using ho
          · exact absurd ha (by simp [afterDeliver])
          · exact absurd hmsg (hno q (by simpa [afterDeliver] using hq))
    · simpa [afterDeliver, Function.update_of_ne hne] using hc
  | @handle src dest throws j a r hi hstep =>
    refine hc.push ?_
    intro d msg hsent _
    obtain ⟨m, hm, hmsg⟩ := Option.map_eq_some_iff.mp hsent
    obtain ⟨rfl, rfl⟩ := Prod.mk.inj hmsg
    rintro rfl
    exact absurd (hid.responding _ _ _ (hstep.sent_of hm ▸ hi)) (by simp [Message.IsResponse])
  | drop _ => exact hdel.elim

theorem releases_of_other (hid : Identified cfg w) (hu : w.Unique i) (h : Releases cfg w i)
    (hs : Stepped cfg w l w') (hother : ∀ c, l ≠ .txn i c) (hdel : Delivers l) :
    Releases cfg w' i := by
  have hthread : w'.txns i = w.txns i := by
    cases hs with
    | @txn j c r _ => exact afterTxn_txns_of_ne (by rintro rfl; exact hother c rfl)
    | _ => rfl
  have hrouting := hs.routing_eq (cfg.origin i)
  constructor
  · rw [hthread]
    refine h.tracks.of_node hrouting ?_
    rcases hs.pending_eq (cfg.origin i) (w.txns i).txId with
      heq | hnone | ⟨j, c, rfl, hj, -, hjid⟩
    · exact .inl heq
    · exact .inr hnone
    · obtain rfl := hu j hj hjid.symm
      exact absurd rfl (hother c)
  · intro p k hp hw
    rw [hthread] at hw ⊢
    rw [Node.remotePairs_congr hrouting]
    rcases h.released p k hp (wanted_of_other hid hu hs hother hw) with hc | hprom
    · exact .inl (covered_of_other hid hu hs hother hdel hw hc)
    · exact .inr hprom

/-- A step of a call makes a node want a lock only by asking for it. -/
theorem wanted_of_own {c : Choice} {r : TxnStep} {t : TransactionId} {p : NodeID} {k : KeyType}
    (hp : p ≠ cfg.origin i) (hw : Wanted (w.afterTxn cfg i c r) (cfg.origin i) t p k) :
    Wanted w (cfg.origin i) t p k ∨ r.sent = some (p, .lockReq t k) := by
  rcases hw with ho | ha | ⟨q, hq, hmsg⟩
  · rw [ownerAt, afterTxn_nodes_of_ne hp] at ho
    exact .inl (.inl ho)
  · exact .inl (.inr (.inl ha))
  · rcases mem_push hq with hold | ⟨dest, msg, hsent, hab, rfl⟩
    · exact .inl (.inr (.inr ⟨q, hold, hmsg⟩))
    · obtain ⟨-, rfl⟩ := Prod.mk.inj hab
      obtain rfl : msg = .lockReq t k := hmsg
      exact .inr hsent

/-- A call that is just being made: its id is new, so that nobody can want a lock for it. -/
theorem releases_of_call {c : Choice} {r : TxnStep} (hid : Identified cfg w)
    (hidle : (w.txns i).pc = .idle)
    (hs : TxnStepped (w.nodes (cfg.origin i)) (w.txns i) c r)
    (hu : (w.afterTxn cfg i c r).Unique i) : Releases cfg (w.afterTxn cfg i c r) i := by
  -- a call that was made before, with this id, would be another one
  have hnew : ∀ j, w.Called j → (w.txns j).txId ≠ r.thread.txId := by
    intro j hj hjid
    have hstep : Stepped cfg w (.txn i c) (w.afterTxn cfg i c r) := .txn hs
    obtain rfl := hu j (hstep.called hj).1 (by
      rw [(hstep.called hj).2, hjid, afterTxn_txns_self])
    exact hj hidle
  constructor
  · rw [afterTxn_txns_self, afterTxn_nodes_self]
    cases hs with
    | call _ _ =>
      by_contra hp
      obtain ⟨j, hj⟩ := hid.pending _ _ hp
      exact hnew j hj.called hj.txId
    | _ => simp_all
  · intro p k hp hw
    rw [afterTxn_txns_self] at hw
    exfalso
    rcases wanted_of_own hp hw with (ho | ⟨j, st, ha⟩ | ⟨q, hq, hmsg⟩) | hsent
    · obtain ⟨j, hj, hjid⟩ := hid.owner p k _ ho
      exact hnew j hj hjid
    · have hj := hid.acquiring _ p j _ k st ha
      exact hnew j hj.called hj.txId
    · have hj := hid.packet _ p q _ k hq (.inl hmsg)
      exact hnew _ hj.called hj.txId
    · exact (hs.sent_id hsent (.inl rfl)).2 hidle

/-- A step of the call that asks for nothing: what was wanted and covered stays so. -/
theorem kept_of_own {c : Choice} {r : TxnStep} {t : TransactionId} {p : NodeID} {k : KeyType}
    (hno : ∀ dest t' k', r.sent ≠ some (dest, .lockReq t' k')) (hp : p ≠ cfg.origin i)
    (hw : Wanted (w.afterTxn cfg i c r) (cfg.origin i) t p k) :
    Wanted w (cfg.origin i) t p k ∧ (Covered t k (w.channels (cfg.origin i, p)) →
      Covered t k ((w.afterTxn cfg i c r).channels (cfg.origin i, p))) := by
  constructor
  · exact (wanted_of_own hp hw).resolve_right (hno p t k)
  · intro hc
    refine hc.push ?_
    intro dest msg hs _ hmsg
    exact hno dest t k (hmsg ▸ hs)

/-- A request: every pair is promised, so it does no harm that it may come behind a release. -/
theorem released_of_request {c : Choice} {r : TxnStep} (h : Releases cfg w i)
    {q : NodeID × KeyType} {todo : List (NodeID × KeyType)}
    (hpc : (w.txns i).pc = .requesting (q :: todo)) (hpc' : r.thread.pc = .requesting todo)
    (hsent : r.sent = some (q.1, .lockReq (w.txns i).txId q.2)) {p : NodeID} {k : KeyType}
    (hp : p ≠ cfg.origin i)
    (hw : Wanted (w.afterTxn cfg i c r) (cfg.origin i) (w.txns i).txId p k) :
    Covered (w.txns i).txId k ((w.afterTxn cfg i c r).channels (cfg.origin i, p)) ∨
      r.thread.pc.Promises ((w.nodes (cfg.origin i)).remotePairs (w.txns i).tx) (p, k) := by
  have hq : q ∈ (w.nodes (cfg.origin i)).remotePairs (w.txns i).tx := by
    have htracks := h.tracks
    simp only [TxnThread.Tracks, hpc] at htracks
    exact htracks.1 q List.mem_cons_self
  rw [hpc']
  rcases eq_or_ne q (p, k) with rfl | hne
  · exact .inr hq
  · have hnot : ∀ dest msg, r.sent = some (dest, msg) → (cfg.origin i, p) = (cfg.origin i, dest) →
        msg ≠ .lockReq (w.txns i).txId k := by
      intro dest msg hs hab hmsg
      simp only [hsent, hmsg, Option.some.injEq, Prod.mk.injEq, Message.lockReq.injEq,
        true_and] at hs hab
      exact hne (Prod.ext (hs.1.trans hab.symm) hs.2)
    have hold : Wanted w (cfg.origin i) (w.txns i).txId p k :=
      (wanted_of_own hp hw).resolve_right fun hs => hnot p _ hs rfl rfl
    rcases h.released p k hp hold with hc | hprom
    · exact .inl (hc.push hnot)
    · rw [hpc] at hprom
      exact .inr hprom

/-- A step of the call itself. -/
theorem releases_of_own {c : Choice} {r : TxnStep} (h : Releases cfg w i) (hcalled : w.Called i)
    (hdel : Delivers (.txn i c)) (htime : TimesOutPending cfg w (.txn i c))
    (hs : TxnStepped (w.nodes (cfg.origin i)) (w.txns i) c r) :
    Releases cfg (w.afterTxn cfg i c r) i := by
  have hid : r.thread.txId = (w.txns i).txId := (hs.id_of_called hcalled).1
  constructor
  · rw [afterTxn_txns_self, afterTxn_nodes_self]
    exact hs.tracks h.tracks hcalled
  · intro p k hp hw
    rw [afterTxn_txns_self, hid] at hw ⊢
    rw [afterTxn_nodes_self, Node.remotePairs_congr hs.routing_eq, hs.tx_eq]
    rcases hs.promises hdel with ⟨q, todo, hpc, hpc', hsent⟩ | ⟨q, hsent, hkeep⟩ |
      ⟨hpc, htimeout, hsent, todo, hpc', henum⟩ | ⟨hnoreq, hkeep⟩
    · exact released_of_request h hpc hpc' hsent hp hw
    · -- a release: it is behind every request
      obtain ⟨hold, hcov⟩ := kept_of_own (by simp [hsent]) hp hw
      rcases h.released p k hp hold with hc | hprom
      · exact .inl (hcov hc)
      · rcases hkeep (p, k) hprom with rfl | hprom'
        · refine .inl ?_
          have hpush : (w.afterTxn cfg i c r).channels (cfg.origin i, p)
              = w.channels (cfg.origin i, p) ++ [⟨i, .lockRel (w.txns i).txId k⟩] := by
            simp [afterTxn, hsent, push]
          rw [hpush]
          exact covered_append_release _ rfl
        · exact .inr hprom'
    · -- the timeout: what is to be released is what is pending
      obtain ⟨hold, hcov⟩ := kept_of_own (by simp [hsent]) hp hw
      rcases htime hpc htimeout with hpend | hnone
      · have hpairs : ((w.nodes (cfg.origin i)).pendingLocks (w.txns i).txId).pairs
            = (w.nodes (cfg.origin i)).remotePairs (w.txns i).tx := by
          have htracks := h.tracks
          simp only [TxnThread.Tracks, hpc] at htracks
          exact htracks.resolve_left hpend
        rcases h.released p k hp hold with hc | hprom
        · exact .inl (hcov hc)
        · rw [hpc] at hprom
          rw [hpc']
          exact .inr ((henum.mem_iff (p, k)).mpr (hpairs ▸ hprom))
      · exact absurd hold (hnone p k hp)
    · obtain ⟨hold, hcov⟩ := kept_of_own hnoreq hp hw
      exact (h.released p k hp hold).imp hcov (hkeep (p, k))

/-- Every id is that of a call, and every call with an id of its own releases its locks. -/
structure ReleaseInv (cfg : ClusterConfig ι) (w : Cluster ι) : Prop where
  identified : Identified cfg w
  releases : ∀ i, w.Called i → w.Unique i → Releases cfg w i

theorem releaseInv_step (h : ReleaseInv cfg w) (hdel : Delivers l)
    (htime : TimesOutPending cfg w l) (hs : w.step cfg l = some w') : ReleaseInv cfg w' := by
  have hstepped := stepped_of_step hs
  refine ⟨identified_step h.identified hstepped, ?_⟩
  intro i hcalled' hu'
  by_cases hcalled : w.Called i
  · have hu := hu'.of_step hstepped hcalled
    have hrel := h.releases i hcalled hu
    by_cases hown : ∃ c, l = .txn i c
    · obtain ⟨c, rfl⟩ := hown
      cases hstepped with
      | txn hstep => exact releases_of_own hrel hcalled hdel htime hstep
    · exact releases_of_other h.identified hu hrel hstepped (not_exists.mp hown) hdel
  · -- only the call itself can have been made in this step
    have hidle : (w.txns i).pc = .idle := not_not.mp hcalled
    cases hstepped with
    | @txn j c r hstep =>
      rcases eq_or_ne i j with rfl | hne
      · exact releases_of_call h.identified hidle hstep hu'
      · rw [Called, afterTxn_txns_of_ne hne] at hcalled'
        exact absurd hcalled' hcalled
    | _ => exact absurd hcalled' hcalled

end Preservation

theorem releaseInv_initial (cfg : ClusterConfig ι) (stores : NodeID → ThreadSafeKVStore)
    (txs : ι → Transaction) : ReleaseInv cfg (initial cfg stores txs) where
  identified := by
    constructor
    · intro p k t ho
      exact absurd ho (by simp [ownerAt, initial, Node.fresh])
    · intro a b j t k st ha
      exact absurd ha (by simp [initial])
    · intro ab j m ha
      exact absurd ha (by simp [initial])
    · intro a b q t k hq
      exact absurd hq (by simp [initial])
    · intro n t hp
      exact absurd rfl hp
  releases := by
    intro i hcalled
    exact absurd rfl hcalled

/-! ## 4. No lock is left behind -/

instance (l : ClusterLabel ι) : Decidable (Delivers l) :=
  match l with
  | .txn _ c => inferInstanceAs (Decidable (c.throws = false))
  | .deliver _ _ => inferInstanceAs (Decidable True)
  | .handle _ _ throws => inferInstanceAs (Decidable (throws = false))
  | .drop _ _ _ => inferInstanceAs (Decidable False)

/-- A check that a timeout finds something pending. -/
def timesOutPending (cfg : ClusterConfig ι) (w : Cluster ι) : ClusterLabel ι → Bool
  | .txn i c => (w.txns i).pc ≠ .waiting ∨ c.timeout = false ∨
    (w.nodes (cfg.origin i)).pendingLocks (w.txns i).txId ≠ ∅
  | _ => true

theorem timesOutPending_of_check {cfg : ClusterConfig ι} {w : Cluster ι} {l : ClusterLabel ι}
    (h : timesOutPending cfg w l = true) : TimesOutPending cfg w l := by
  cases l with
  | txn i c =>
    intro hpc htime
    rcases of_decide_eq_true h with hne | hno | hpend
    · exact absurd hpc hne
    · exact absurd (htime.symm.trans hno) (by simp)
    · exact .inl hpend
  | _ => trivial

/-- A call of two whose fellow has not been made. -/
theorem unique_of_idle {w : Cluster Bool} (h : (w.txns true).pc = .idle) : w.Unique false := by
  intro j hj _
  cases j with
  | false => rfl
  | true => exact absurd h hj

/-- The call gives up before node 2 has looked at its request; the request is granted, and
released, when it has returned. -/
def timeoutRun : List (ClusterLabel Bool) :=
  requestKey2 false ++
    [.txn false { timeout := true, pairs := [(2, 2)] }, .txn false {}, .txn false {}, .txn false {},
      .txn false {}] ++
    serveAt2 0 ++ [.deliver 0 2, .deliver 2 0]

/-- The request is granted, the grant is handled, and then the timeout fires. -/
def lateTimeoutRun : List (ClusterLabel Bool) :=
  requestKey2 false ++ serveAt2 0 ++
    [.deliver 2 0, .txn false { timeout := true }, .txn false {}, .txn false {}, .txn false {}]

end Cluster

end TwoPL
