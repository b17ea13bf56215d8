/-
Replay of expiring-nonce transactions.  The replayer does by itself what the
nonce precompile does: it keeps the ring pointer in a cache and merges its
writes slot by slot, while transactions that are executed bypass both.
-/
import Tempo.Nonce.Manager
import Tempo.Replay.ActionReplay

namespace Tempo

open NonceManager Function

/-- The storage slots of the expiring-nonce set. -/
inductive NonceSlot where
  | seen (hash : B256)
  | ring (idx : Nat)
  | ringPtr
  deriving DecidableEq

/-- The first and the last value of each written slot. -/
abbrev NonceChanges := NonceSlot → Option (Nat × Nat)

/-- A further write keeps the slot's first value. -/
def NonceChanges.record (c : NonceChanges) (slot : NonceSlot) (original current : Nat) :
    NonceChanges :=
  update c slot (some (((c slot).map Prod.fst).getD original, current))

namespace NonceManager

variable (m : NonceManager)

/-- A slot as the word the database holds. -/
def storage : NonceSlot → Nat
  | .seen hash => m.expiringNonceSeen hash
  | .ring idx => (m.expiringNonceRing idx).toNat
  | .ringPtr => m.expiringNonceRingPtr

/-- The set after a transaction with these changes is committed. -/
def commit (changes : NonceChanges) : NonceManager :=
  let word slot := ((changes slot).map Prod.snd).getD (m.storage slot)
  { m with
    expiringNonceSeen := fun hash => word (.seen hash)
    expiringNonceRing := fun idx => BitVec.ofNat 256 (word (.ring idx))
    expiringNonceRingPtr := word .ringPtr }

def write (value : Nat) : NonceSlot → NonceManager
  | .seen hash =>
    { m with expiringNonceSeen := update m.expiringNonceSeen hash value }
  | .ring idx =>
    { m with
      expiringNonceRing := update m.expiringNonceRing idx (BitVec.ofNat 256 value) }
  | .ringPtr => { m with expiringNonceRingPtr := value }

theorem commit_nothing : m.commit (fun _ => none) = m := by
  simp [commit, storage]

/-- Committing merged changes is writing them one after the other. -/
theorem commit_record (c : NonceChanges) (slot : NonceSlot) (original current : Nat) :
    m.commit (c.record slot original current) = (m.commit c).write current slot := by
  cases slot with
  | seen hash =>
    simp only [commit, NonceChanges.record, write]
    congr 1
    · funext a
      by_cases ha : a = hash
      · subst ha
        simp
      · simp [ha]
  | ring idx =>
    simp only [commit, NonceChanges.record, write]
    congr 1
    · funext a
      by_cases ha : a = idx
      · subst ha
        simp
      · simp [ha]
  | ringPtr => simp [commit, NonceChanges.record, write]

end NonceManager

structure ExpiringNonceReplay where
  hash : B256
  validBefore : Nat

/-- The part of the replayer's state that belongs to the expiring-nonce set. -/
structure NonceReplayState where
  txChanges : NonceChanges
  ringPtr : Option Nat
  pendingRingPtr : Option Nat

abbrev NonceReplay := EStateM StorageActionReplayError NonceReplayState

namespace NonceReplayState

variable (st : NonceReplayState)

def new : NonceReplayState :=
  ⟨fun _ => none, none, none⟩

def invalidateCache : NonceReplayState :=
  { st with ringPtr := none, pendingRingPtr := none }

def resetTxChanges : NonceReplayState :=
  { st with txChanges := fun _ => none, pendingRingPtr := none }

def commitTxChanges : NonceReplayState :=
  match st.pendingRingPtr with
  | some ptr => ⟨fun _ => none, some ptr, none⟩
  | none => { st with txChanges := fun _ => none }

/-- The cached ring pointer, read from the database when there is none. -/
def loadRingPtr (db : NonceManager) : NonceReplay Nat := fun st =>
  match st.ringPtr with
  | some ptr => .ok ptr st
  | none => .ok (db.storage .ringPtr) { st with ringPtr := some (db.storage .ringPtr) }

def recordSstore (slot : NonceSlot) (original current : Nat) : NonceReplay Unit :=
  updates fun st => { st with txChanges := st.txChanges.record slot original current }

def applyExpiringNonceReplay (spec : TempoHardfork) (db : NonceManager)
    (nonce : ExpiringNonceReplay) (blockTimestamp : UInt64) : NonceReplay Unit := do
  let now := blockTimestamp.toNat
  let live (expiry : Nat) := expiry ≠ 0 ∧ expiry > now
  require (¬(nonce.validBefore ≤ now ∨
    nonce.validBefore > saturatingAdd 64 now spec.expiringNonceMaxExpirySecs)) .actionConflict
  let ptr ← loadRingPtr db
  let seenExpiry := db.storage (.seen nonce.hash)
  require (¬live seenExpiry) .actionConflict
  -- `ptr.try_into::<u32>()`
  require (ptr < 2 ^ 32) .actionConflict
  let oldHash := db.storage (.ring ptr)
  if oldHash ≠ 0 then
    let oldExpiry := db.storage (.seen (BitVec.ofNat 256 oldHash))
    require (¬live oldExpiry) .actionConflict
    recordSstore (.seen (BitVec.ofNat 256 oldHash)) oldExpiry 0
  recordSstore (.ring ptr) oldHash nonce.hash.toNat
  recordSstore (.seen nonce.hash) seenExpiry nonce.validBefore
  let next := ((checkedAdd 256 ptr 1).filter (· < spec.expiringNonceSetCapacity)).getD 0
  recordSstore .ringPtr ptr next
  updates fun st => { st with pendingRingPtr := some next }

end NonceReplayState

open NonceReplayState

/-- One attempt to include a transaction.  A replay may fail because the
recorded result was no success, at the nonce, at another action, or when the
transaction is validated against the block. -/
inductive NonceAttempt where
  | replay (nonce : Option ExpiringNonceReplay) (isSuccess actions valid : Bool)
  | execute (nonce : Option ExpiringNonceReplay) (valid : Bool)

/-- The block under construction, with the expiring nonces committed so far. -/
structure NonceBlock where
  db : NonceManager
  replayState : NonceReplayState
  committed : List ExpiringNonceReplay

namespace NonceBlock

variable (spec : TempoHardfork) (timestamp : UInt64) (b : NonceBlock)

def checkAndMark (nonce : ExpiringNonceReplay) : Exec NonceManager Unit :=
  NonceManager.checkAndMarkExpiringNonce spec timestamp.toNat nonce.hash nonce.validBefore

def replayNonce : Option ExpiringNonceReplay → NonceReplay Unit
  | some nonce => applyExpiringNonceReplay spec b.db nonce timestamp
  | none => pure ()

def replayActions (nonce : Option ExpiringNonceReplay) (actions : Bool) : NonceReplay Unit := do
  b.replayNonce spec timestamp nonce
  require (actions = true) .actionConflict

def executeTransactionWithActions (nonce : Option ExpiringNonceReplay)
    (isSuccess actions valid : Bool) : NonceBlock :=
  let st := b.replayState.resetTxChanges
  if !isSuccess then { b with replayState := st }
  else
    match (b.replayActions spec timestamp nonce actions).run st with
    | .error _ st => { b with replayState := st.resetTxChanges }
    | .ok _ st =>
      if !valid then { b with replayState := st }
      else ⟨b.db.commit st.txChanges, st.commitTxChanges, b.committed ++ nonce.toList⟩

/-- Execution without the replayer, after its cache was invalidated. -/
def executeTransaction (nonce : Option ExpiringNonceReplay) (valid : Bool) : NonceBlock :=
  let st := b.replayState.invalidateCache
  match (nonce.toList.forM (checkAndMark spec timestamp)).run b.db with
  | .error _ _ => { b with replayState := st }
  | .ok _ db =>
    if !valid then { b with replayState := st }
    else ⟨db, st.commitTxChanges, b.committed ++ nonce.toList⟩

def attempt : NonceAttempt → NonceBlock
  | .replay nonce isSuccess actions valid =>
    b.executeTransactionWithActions spec timestamp nonce isSuccess actions valid
  | .execute nonce valid => b.executeTransaction spec timestamp nonce valid

variable {spec timestamp b} {m m' : NonceManager} {st : NonceReplayState} {n : ExpiringNonceReplay}

/-- The cached ring pointer is the stored one. -/
def Coherent (m : NonceManager) (st : NonceReplayState) : Prop :=
  ∀ ptr, st.ringPtr = some ptr → ptr = m.expiringNonceRingPtr

theorem loadRingPtr_run (h : Coherent m st) : (loadRingPtr m).run st =
      .ok m.expiringNonceRingPtr { st with ringPtr := some m.expiringNonceRingPtr } := by
  cases hptr : st.ringPtr with
  | none => simp [loadRingPtr, EStateM.run, hptr, storage]
  | some ptr =>
    obtain rfl := h ptr hptr
    simp only [loadRingPtr, EStateM.run, hptr]
    rw [← hptr]

/-- Both pointers wrap, whatever the pointer was. -/
theorem next_eq {ptr : Nat} (hptr : ptr < 2 ^ 32) :
    ((checkedAdd 256 ptr 1).filter (· < spec.expiringNonceSetCapacity)).getD 0 =
      if (ptr + 1) % 2 ^ 32 ≥ spec.expiringNonceSetCapacity then 0 else (ptr + 1) % 2 ^ 32 := by
  have hword : ptr + 1 ≤ maxWord 256 := by rw [maxWord]; omega
  have hpos := spec.expiringNonceSetCapacity_pos
  have hle := spec.expiringNonceSetCapacity_le
  rw [checkedAdd, if_pos hword, Option.filter_some]
  rcases lt_or_ge (ptr + 1) (2 ^ 32) with hlt | hge
  · rw [Nat.mod_eq_of_lt hlt]
    by_cases hcap : ptr + 1 < spec.expiringNonceSetCapacity
    · simp [hcap, Nat.not_le.mpr hcap]
    · simp [hcap, Nat.not_lt.mp hcap]
  · have hmod : (ptr + 1) % 2 ^ 32 = 0 := by omega
    have hcap : ¬ptr + 1 < spec.expiringNonceSetCapacity := by omega
    rw [hmod]
    simp [hcap]

theorem live_iff {hash : B256} {now : Nat} :
    (m.storage (.seen hash) ≠ 0 ∧ m.storage (.seen hash) > now) ↔
      m.isExpiringNonceSeen hash now := by
  simp [storage, isExpiringNonceSeen]

/-- The recorded writes after an eviction, which may be of the same hash. -/
theorem commit_marked {c : NonceChanges} {capacity first second third : Nat}
    (hc : m.commit c = { m with expiringNonceSeen := m.evictedSeen }) :
    m.commit (((c.record (.ring m.expiringNonceRingPtr) first n.hash.toNat).record
      (.seen n.hash) second n.validBefore).record .ringPtr third
        (m.marked capacity n.hash n.validBefore).expiringNonceRingPtr) =
      m.marked capacity n.hash n.validBefore := by
  simp [commit_record, hc, write, marked]

/-- The replayer refuses what the precompile refuses, and records what it
writes. -/
theorem applyExpiringNonceReplay_cases (spec : TempoHardfork) (timestamp : UInt64)
    (n : ExpiringNonceReplay) (h : Coherent m st) (hptr : m.expiringNonceRingPtr < 2 ^ 32)
    (hempty : st.txChanges = fun _ => none) :
    (∃ e st', (applyExpiringNonceReplay spec m n timestamp).run st = .error e st' ∧
      Coherent m st' ∧ ∃ e m', (checkAndMark spec timestamp n).run m = .error e m') ∨
    ∃ st', (applyExpiringNonceReplay spec m n timestamp).run st = .ok () st' ∧
      Coherent m st' ∧ st'.pendingRingPtr = some (m.commit st'.txChanges).expiringNonceRingPtr ∧
      Yields (checkAndMark spec timestamp n) m () (m.commit st'.txChanges) := by
  have hload : Coherent m { st with ringPtr := some m.expiringNonceRingPtr } :=
    fun ptr hp => (Option.some.inj hp).symm
  have hnow : min timestamp.toNat (maxWord 64) = timestamp.toNat :=
    min_eq_left (Nat.le_sub_one_of_lt timestamp.toNat_lt)
  have hmark := checkAndMarkExpiringNonce_run spec timestamp.toNat n.hash n.validBefore m
  simp only [hnow] at hmark
  rw [applyExpiringNonceReplay]
  simp only [run_require_bind, ite_not]
  by_cases hwindow : n.validBefore ≤ timestamp.toNat ∨
      n.validBefore > saturatingAdd 64 timestamp.toNat spec.expiringNonceMaxExpirySecs
  · rw [if_pos hwindow] at hmark ⊢
    exact .inl ⟨_, _, rfl, h, _, _, hmark⟩
  rw [if_neg hwindow] at hmark ⊢
  rw [Yields.run_bind (loadRingPtr_run h), run_require_bind, ite_not]
  by_cases hseen : m.isExpiringNonceSeen n.hash timestamp.toNat
  · rw [if_pos hseen] at hmark
    rw [if_pos (live_iff.mpr hseen)]
    exact .inl ⟨_, _, rfl, hload, _, _, hmark⟩
  rw [if_neg hseen] at hmark
  rw [if_neg (hseen ∘ live_iff.mp), run_require_bind, if_pos hptr, next_eq hptr]
  have hzero : m.storage (.ring m.expiringNonceRingPtr) = 0 ↔
      m.expiringNonceRing m.expiringNonceRingPtr = 0 := by
    simp [storage, ← BitVec.toNat_inj]
  have hword : BitVec.ofNat 256 (m.storage (.ring m.expiringNonceRingPtr)) =
      m.expiringNonceRing m.expiringNonceRingPtr := by simp [storage]
  by_cases hold : m.expiringNonceRing m.expiringNonceRingPtr = 0
  · rw [if_neg fun hfull => hfull.1 hold] at hmark
    have hc : m.commit st.txChanges = { m with expiringNonceSeen := m.evictedSeen } := by
      simp [hempty, commit_nothing, evictedSeen, hold]
    rw [if_pos (hzero.mpr hold)]
    refine .inr ⟨_, rfl, hload, ?_, hmark.trans (congrArg _ (commit_marked hc).symm)⟩
    exact congrArg (some ·.expiringNonceRingPtr) (commit_marked hc).symm
  rw [if_neg (hold ∘ hzero.mp), run_require_bind, ite_not, hword]
  by_cases hlive : m.isExpiringNonceSeen (m.expiringNonceRing m.expiringNonceRingPtr)
      timestamp.toNat
  · rw [if_pos ⟨hold, hlive⟩] at hmark
    rw [if_pos (live_iff.mpr hlive)]
    exact .inl ⟨_, _, rfl, hload, _, _, hmark⟩
  · rw [if_neg fun hfull => hlive hfull.2] at hmark
    rw [if_neg (hlive ∘ live_iff.mp)]
    have hc (o : Nat) : m.commit (st.txChanges.record
        (.seen (m.expiringNonceRing m.expiringNonceRingPtr)) o 0) =
        { m with expiringNonceSeen := m.evictedSeen } := by
      rw [commit_record, hempty, commit_nothing, evictedSeen, if_pos hold]
      rfl
    refine .inr ⟨_, rfl, hload, ?_, hmark.trans (congrArg _ (commit_marked (hc _)).symm)⟩
    exact congrArg (some ·.expiringNonceRingPtr) (commit_marked (hc _)).symm

theorem checkAndMark_ptr (h : Yields (checkAndMark spec timestamp n) m () m') :
    m'.expiringNonceRingPtr < 2 ^ 32 := by
  unfold Yields checkAndMark at h
  rw [checkAndMarkExpiringNonce_run] at h
  split_ifs at h
  cases h
  dsimp only [marked]
  split
  · decide
  · exact Nat.mod_lt _ (by decide)

theorem replayNonce_cases (spec : TempoHardfork) (timestamp : UInt64)
    (nonce : Option ExpiringNonceReplay) (h : Coherent b.db st)
    (hptr : b.db.expiringNonceRingPtr < 2 ^ 32) (hempty : st.txChanges = fun _ => none)
    (hpending : st.pendingRingPtr = none) :
    (∃ e st', (b.replayNonce spec timestamp nonce).run st = .error e st' ∧ Coherent b.db st') ∨
    ∃ st', Yields (b.replayNonce spec timestamp nonce) st () st' ∧ Coherent b.db st' ∧
      Coherent (b.db.commit st'.txChanges) st'.commitTxChanges ∧
      Yields (nonce.toList.forM (checkAndMark spec timestamp)) b.db ()
        (b.db.commit st'.txChanges) := by
  cases nonce with
  | none =>
    have hcommit : b.db.commit st.txChanges = b.db := by
      rw [hempty, commit_nothing]
    refine .inr ⟨st, yields_pure.mpr ⟨rfl, rfl⟩, h, ?_, ?_⟩
    · rw [hcommit, commitTxChanges, hpending]
      exact h
    · exact yields_pure.mpr ⟨rfl, hcommit.symm⟩
  | some n =>
    rcases applyExpiringNonceReplay_cases spec timestamp n h hptr hempty with
      ⟨e, st', happly, hst', -⟩ | ⟨st', happly, hst', hnext, hmark⟩
    · exact .inl ⟨e, st', happly, hst'⟩
    · refine .inr ⟨st', happly, hst', ?_, ?_⟩
      · rw [commitTxChanges, hnext]
        exact fun ptr hp => (Option.some.inj hp).symm
      · exact yields_bind.mpr ⟨_, _, hmark, yields_pure.mpr ⟨rfl, rfl⟩⟩

/-- What holds between two attempts. -/
structure Sound (start : NonceManager) (spec : TempoHardfork) (timestamp : UInt64)
    (b : NonceBlock) : Prop where
  coherent : Coherent b.db b.replayState
  ptr : b.db.expiringNonceRingPtr < 2 ^ 32
  marked : Yields (b.committed.forM (checkAndMark spec timestamp)) start () b.db

namespace Sound

variable {start : NonceManager} (h : b.Sound start spec timestamp)
include h

/-- An attempt that commits nothing. -/
theorem failed (hst : Coherent b.db st) : Sound start spec timestamp { b with replayState := st } :=
  ⟨hst, h.ptr, h.marked⟩

theorem committed {nonce : Option ExpiringNonceReplay} (hst : Coherent m st)
    (hmark : Yields (nonce.toList.forM (checkAndMark spec timestamp)) b.db () m) :
    Sound start spec timestamp ⟨m, st, b.committed ++ nonce.toList⟩ := by
  have hptr : m.expiringNonceRingPtr < 2 ^ 32 :=
    Yields.forM_invariant (I := fun m => m.expiringNonceRingPtr < 2 ^ 32)
      (fun _ _ _ _ _ => checkAndMark_ptr) hmark h.ptr
  refine ⟨hst, hptr, ?_⟩
  change Yields (forM (b.committed ++ nonce.toList) _) _ _ _
  rw [List.forM_append]
  exact yields_bind.mpr ⟨_, _, h.marked, hmark⟩

theorem attempt (a : NonceAttempt) : (b.attempt spec timestamp a).Sound start spec timestamp := by
  cases a with
  | replay nonce isSuccess actions valid =>
    have hreset : Coherent b.db b.replayState.resetTxChanges := h.coherent
    rw [NonceBlock.attempt, executeTransactionWithActions]
    split
    · exact h.failed hreset
    rcases replayNonce_cases spec timestamp nonce hreset h.ptr rfl rfl with
      ⟨e, st, hrun, hst⟩ | ⟨st, hrun, hst, hcommit, hmark⟩
    · rw [replayActions, EStateM.run_bind, hrun]
      exact h.failed hst
    rw [replayActions, hrun.run_bind, run_require]
    by_cases hactions : actions = true
    · rw [if_pos hactions]
      dsimp only
      split
      · exact h.failed hst
      · exact h.committed hcommit hmark
    · rw [if_neg hactions]
      exact h.failed hst
  | execute nonce valid =>
    rw [NonceBlock.attempt, executeTransaction]
    split
    · exact h.failed nofun
    next hrun =>
      split
      · exact h.failed nofun
      · exact h.committed nofun hrun

end Sound

/-- After any attempts of either kind, the set is the one the precompile
leaves when it runs for the committed transactions in order, and the replayer
refuses the next transaction exactly when the precompile does. -/
theorem replay_matches_precompile (spec : TempoHardfork) (timestamp : UInt64)
    (start : NonceManager) (hptr : start.expiringNonceRingPtr < 2 ^ 32)
    (attempts : List NonceAttempt) :
    let b := attempts.foldl (attempt spec timestamp) ⟨start, .new, []⟩
    Yields (b.committed.forM (checkAndMark spec timestamp)) start () b.db ∧
    ∀ nonce, (∃ e st, (applyExpiringNonceReplay spec b.db nonce timestamp).run
        b.replayState.resetTxChanges = .error e st) ↔
      ∃ e m, (checkAndMark spec timestamp nonce).run b.db = .error e m := by
  intro b
  have hsound : b.Sound start spec timestamp := by
    refine List.foldlRecOn attempts _ ⟨nofun, hptr, yields_pure.mpr ⟨rfl, rfl⟩⟩ ?_
    exact fun _ hb a _ => hb.attempt a
  refine ⟨hsound.marked, fun nonce => ?_⟩
  have hreset : Coherent b.db b.replayState.resetTxChanges := hsound.coherent
  rcases applyExpiringNonceReplay_cases spec timestamp nonce hreset hsound.ptr rfl with
    ⟨e, st, happly, -, hmark⟩ | ⟨st, happly, -, -, hmark⟩
  · exact ⟨fun _ => hmark, fun _ => ⟨e, st, happly⟩⟩
  · constructor
    · rintro ⟨e, st', herr⟩
      cases happly.symm.trans herr
    · rintro ⟨e, m, herr⟩
      cases (show _ = _ from hmark).symm.trans herr

/-- The ring slot holds the hash of the next transaction, expired at `5`; an
executed transaction comes between two replays. -/
theorem replay_matches_precompile_same_hash :
    let start : NonceManager := ⟨fun _ => 5, fun idx => if idx = 0 then 7 else 0, 0⟩
    let b := [.replay (some ⟨7, 20⟩) true true true, .execute (some ⟨8, 21⟩) true,
      .replay (some ⟨9, 22⟩) true false true].foldl (attempt .t4 10) ⟨start, .new, []⟩
    b.committed.map (·.hash) = [7, 8] ∧
      Yields (b.committed.forM (checkAndMark .t4 10)) start () b.db :=
  ⟨by decide, (replay_matches_precompile _ _ _ (by decide) _).1⟩

end NonceBlock

end Tempo
