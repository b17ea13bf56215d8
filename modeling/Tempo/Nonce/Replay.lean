/-
Replay safety of the expiring-nonce set over whole runs of the chain.  A run
is a list of calls, each under its own fork and block timestamp; a refused
call belongs to a reverted transaction and leaves the set as it was.
-/
import Mathlib.Data.List.Pairwise
import Tempo.Library.Ring
import Tempo.Nonce.Manager

namespace Tempo

open Function NonceManager List

structure ExpiringNonceCall where
  spec : TempoHardfork
  timestamp : Nat
  hash : B256
  validBefore : Nat

namespace ExpiringNonceCall

/-- Block time as the precompile reads it, saturated to `u64`. -/
def now (c : ExpiringNonceCall) : Nat :=
  min c.timestamp (maxWord 64)

def exec (c : ExpiringNonceCall) : Exec NonceManager Unit :=
  NonceManager.checkAndMarkExpiringNonce c.spec c.timestamp c.hash c.validBefore

theorem exec_run (m : NonceManager) (c : ExpiringNonceCall) : c.exec.run m =
      if c.validBefore ≤ c.now ∨ c.validBefore >
          saturatingAdd 64 c.now c.spec.expiringNonceMaxExpirySecs
      then .error (.nonce .invalidExpiringNonceExpiry) m
      else if m.isExpiringNonceSeen c.hash c.now then
        .error (.nonce .expiringNonceReplay) m
      else if m.expiringNonceRing m.expiringNonceRingPtr ≠ 0 ∧
          m.isExpiringNonceSeen (m.expiringNonceRing m.expiringNonceRingPtr) c.now then
        .error (.nonce .expiringNonceSetFull) m
      else .ok () (m.marked c.spec.expiringNonceSetCapacity c.hash c.validBefore) :=
  checkAndMarkExpiringNonce_run _ _ _ _ _

/-- One transaction on the set and the log of the calls accepted so far; a
refused call is reverted. -/
def step (s : NonceManager × List ExpiringNonceCall)
    (c : ExpiringNonceCall) : NonceManager × List ExpiringNonceCall :=
  match c.exec.run s.1 with
  | .ok _ m' => (m', s.2 ++ [c])
  | .error _ _ => s

/-- Final set and accepted calls of a run, oldest first. -/
def runCalls (m : NonceManager) (calls : List ExpiringNonceCall) :
    NonceManager × List ExpiringNonceCall :=
  calls.foldl step (m, [])

theorem runCalls_append (m : NonceManager) (calls : List ExpiringNonceCall)
    (c : ExpiringNonceCall) : runCalls m (calls ++ [c]) = step (runCalls m calls) c := by
  simp [runCalls]

/-- What an accepted call has checked. -/
structure Admitted (m : NonceManager) (c : ExpiringNonceCall) : Prop where
  unexpired : c.now < c.validBefore
  window : c.validBefore ≤ saturatingAdd 64 c.now c.spec.expiringNonceMaxExpirySecs
  fresh : m.isExpiringNonceSeen c.hash c.now = false
  evictable : m.expiringNonceRing m.expiringNonceRingPtr ≠ 0 →
    m.isExpiringNonceSeen (m.expiringNonceRing m.expiringNonceRingPtr) c.now = false

/-- A call either records its hash or leaves set and log alone. -/
theorem step_cases (m : NonceManager) (log : List ExpiringNonceCall) (c : ExpiringNonceCall) :
    (Admitted m c ∧ step (m, log) c =
      (m.marked c.spec.expiringNonceSetCapacity c.hash c.validBefore, log ++ [c])) ∨
    step (m, log) c = (m, log) := by
  simp only [step, exec_run]
  split_ifs with hwindow hseen hfull
  · exact .inr rfl
  · exact .inr rfl
  · exact .inr rfl
  · refine .inl ⟨?_, rfl⟩
    rw [not_or, not_le, not_lt] at hwindow
    refine ⟨hwindow.1, hwindow.2, Bool.eq_false_of_not_eq_true hseen, ?_⟩
    exact fun hold =>
      Bool.eq_false_of_not_eq_true fun hlive => hfull ⟨hold, hlive⟩

variable {m : NonceManager} {c : ExpiringNonceCall} {log : List ExpiringNonceCall}

theorem step_of_admitted (h : Admitted m c) (log : List ExpiringNonceCall) :
    step (m, log) c = (m.marked c.spec.expiringNonceSetCapacity c.hash c.validBefore,
        log ++ [c]) := by
  have hwindow : ¬(c.validBefore ≤ c.now ∨ c.validBefore >
      saturatingAdd 64 c.now c.spec.expiringNonceMaxExpirySecs) := by
    rw [not_or, not_le, not_lt]
    exact ⟨h.unexpired, h.window⟩
  have hfull : ¬(m.expiringNonceRing m.expiringNonceRingPtr ≠ 0 ∧
      m.isExpiringNonceSeen (m.expiringNonceRing m.expiringNonceRingPtr) c.now) := fun hfull =>
    Bool.false_ne_true ((h.evictable hfull.1).symm.trans hfull.2)
  simp only [step, exec_run]
  rw [if_neg hwindow, if_neg (Bool.eq_false_iff.mp h.fresh), if_neg hfull]

theorem isExpiringNonceSeen_eq_false {hash : B256} {now : Nat} :
    m.isExpiringNonceSeen hash now = false ↔ m.expiringNonceSeen hash ≤ now := by
  simp only [isExpiringNonceSeen, Bool.and_eq_false_iff,
    bne_eq_false_iff_eq, decide_eq_false_iff_not]
  omega

/-- The accepted calls are calls of the run, in its order. -/
theorem runCalls_sublist (m : NonceManager) (calls : List ExpiringNonceCall) :
    (runCalls m calls).2.Sublist calls := by
  induction calls using reverseRecOn with
  | nil => simp [runCalls]
  | append_singleton calls c ih =>
    rw [runCalls_append]
    rcases step_cases _ (runCalls m calls).2 c with ⟨_, hstep⟩ | hstep
    · rw [hstep]
      exact ih.append (List.Sublist.refl _)
    · rw [hstep]
      exact ih.trans (sublist_append_left _ _)

/-- Calls of a run with equal hashes carry equal expiries. -/
def EqualExpiries (calls : List ExpiringNonceCall) : Prop :=
  ∀ a ∈ calls, ∀ b ∈ calls, a.hash = b.hash → a.validBefore = b.validBefore

/-- Block timestamps never decrease along the run. -/
def Chronological (calls : List ExpiringNonceCall) : Prop :=
  calls.Pairwise fun a b => a.timestamp ≤ b.timestamp

/-- Every accepted hash that has not expired at `now` is still recorded. -/
def Guarded (now : Nat) (s : NonceManager × List ExpiringNonceCall) : Prop :=
  ∀ a ∈ s.2, now < a.validBefore → s.1.expiringNonceSeen a.hash = a.validBefore

theorem Guarded.mono {now later : Nat} (hle : now ≤ later)
    {s : NonceManager × List ExpiringNonceCall} (h : Guarded now s) :
    Guarded later s := fun a ha hlt => h a ha (lt_of_le_of_lt hle hlt)

/-- Eviction only touches an entry that has expired, so it never clears a
recorded hash that is still valid. -/
theorem evictedSeen_of_live (h : Admitted m c) {hash : B256}
    (hlive : c.now < m.expiringNonceSeen hash) : m.evictedSeen hash = m.expiringNonceSeen hash := by
  unfold evictedSeen
  split
  · rename_i hold
    have hexpired := isExpiringNonceSeen_eq_false.mp (h.evictable hold)
    have hne : hash ≠ m.expiringNonceRing m.expiringNonceRingPtr := by
      rintro rfl
      omega
    rw [update_of_ne hne]
  · rfl

theorem step_guarded (hg : Guarded c.now (m, log))
    (heq : ∀ a ∈ log, a.hash = c.hash → a.validBefore = c.validBefore) :
    Guarded c.now (step (m, log) c) := by
  rcases step_cases m log c with ⟨hadm, hstep⟩ | hstep
  · rw [hstep]
    intro a ha hlt
    change update m.evictedSeen c.hash c.validBefore a.hash = _
    by_cases hhash : a.hash = c.hash
    · rw [hhash, update_self]
      rcases mem_append.mp ha with ha | ha
      · exact (heq a ha hhash).symm
      · rw [mem_singleton.mp ha]
    · rw [update_of_ne hhash]
      rcases mem_append.mp ha with ha | ha
      · have hseen : m.expiringNonceSeen a.hash = a.validBefore := hg a ha hlt
        rw [evictedSeen_of_live hadm (by omega), hseen]
      · exact absurd (by rw [mem_singleton.mp ha]) hhash
  · rw [hstep]
    exact hg

theorem step_nodup (hg : Guarded c.now (m, log))
    (heq : ∀ a ∈ log, a.hash = c.hash → a.validBefore = c.validBefore)
    (hnodup : (log.map hash).Nodup) : ((step (m, log) c).2.map hash).Nodup := by
  rcases step_cases m log c with ⟨hadm, hstep⟩ | hstep
  · rw [hstep, map_append, map_singleton]
    refine nodup_append.mpr ⟨hnodup, nodup_singleton _, ?_⟩
    rintro h hmem h' hmem' rfl
    obtain ⟨a, ha, hhash⟩ := mem_map.mp hmem
    rw [mem_singleton] at hmem'
    have hexp := heq a ha (hhash.trans hmem')
    have hlt := hadm.unexpired
    have hseen : m.expiringNonceSeen a.hash = a.validBefore := hg a ha (by omega)
    have hexpired := isExpiringNonceSeen_eq_false.mp hadm.fresh
    rw [← hmem', ← hhash, hseen] at hexpired
    omega
  · rw [hstep]
    exact hnodup

variable {calls : List ExpiringNonceCall} {m' : NonceManager}

theorem EqualExpiries.of_append (h : EqualExpiries (calls ++ [c])) :
    EqualExpiries calls := fun a ha b hb =>
    h a (mem_append_left _ ha) b (mem_append_left _ hb)

theorem Chronological.of_append (h : Chronological (calls ++ [c])) :
    Chronological calls ∧ ∀ a ∈ calls, a.timestamp ≤ c.timestamp := by
  obtain ⟨hcalls, _, hlast⟩ := pairwise_append.mp h
  exact ⟨hcalls, fun a ha => hlast a ha c (mem_singleton_self c)⟩

/-- Along a run, at any time not before its last block, every unexpired
accepted hash is recorded, and no hash has been accepted twice. -/
theorem runCalls_guarded (m : NonceManager) (calls : List ExpiringNonceCall)
    (hchron : Chronological calls) (heq : EqualExpiries calls) :
    (∀ t, (∀ c ∈ calls, c.timestamp ≤ t) → Guarded (min t (maxWord 64)) (runCalls m calls)) ∧
    ((runCalls m calls).2.map hash).Nodup := by
  induction calls using reverseRecOn with
  | nil => exact ⟨fun t _ a ha => by simp [runCalls] at ha, by simp [runCalls]⟩
  | append_singleton calls c ih =>
    obtain ⟨hcalls, hlast⟩ := hchron.of_append
    obtain ⟨hguard, hnodup⟩ := ih hcalls heq.of_append
    have hnow : Guarded c.now (runCalls m calls) := hguard _ hlast
    have hsame : ∀ a ∈ (runCalls m calls).2, a.hash = c.hash →
        a.validBefore = c.validBefore := fun a ha =>
      heq a (mem_append_left _ ((runCalls_sublist m calls).mem ha)) c
        (mem_append_right _ (mem_singleton_self c))
    rw [runCalls_append]
    refine ⟨fun t ht => (step_guarded hnow hsame).mono ?_, step_nodup hnow hsame hnodup⟩
    exact min_le_min_right _ (ht c (by simp))

/-- An unused set: the ring has never been written. -/
structure EmptyRing (m : NonceManager) : Prop where
  ptr : m.expiringNonceRingPtr = 0
  slots : ∀ i, m.expiringNonceRing i = 0

/-- All calls run with window `W` and capacity `N`. -/
def OneRegime (W N : Nat) (calls : List ExpiringNonceCall) : Prop :=
  ∀ c ∈ calls, c.spec.expiringNonceMaxExpirySecs = W ∧ c.spec.expiringNonceSetCapacity = N

/-- In one regime the ring is the log of the last `N` accepted hashes, and
the seen map only holds expiries of accepted calls for them. -/
structure RingLog (W N : Nat) (s : NonceManager × List ExpiringNonceCall) : Prop where
  ring : RingHolds N 0 s.1.expiringNonceRing s.1.expiringNonceRingPtr (s.2.map hash)
  expiry : ∀ a ∈ s.2, s.1.expiringNonceSeen a.hash ≤ a.validBefore
  window : ∀ a ∈ s.2, a.validBefore ≤ a.timestamp + W

theorem evictedSeen_le (m : NonceManager) (h : B256) : m.evictedSeen h ≤ m.expiringNonceSeen h := by
  unfold evictedSeen
  split
  · by_cases hh : h = m.expiringNonceRing m.expiringNonceRingPtr
    · rw [hh, update_self]
      exact Nat.zero_le _
    · rw [update_of_ne hh]
  · exact le_rfl

theorem step_ringLog {W N : Nat} (h : RingLog W N (m, log))
    (hW : c.spec.expiringNonceMaxExpirySecs = W) (hN : c.spec.expiringNonceSetCapacity = N)
    (heq : ∀ a ∈ log, a.hash = c.hash → a.validBefore = c.validBefore) :
    RingLog W N (step (m, log) c) := by
  rcases step_cases m log c with ⟨hadm, hstep⟩ | hstep
  · rw [hstep]
    have hpos : 0 < N := hN ▸ c.spec.expiringNonceSetCapacity_pos
    have hle : N ≤ 3000000 := hN ▸ c.spec.expiringNonceSetCapacity_le
    refine ⟨?_, ?_, ?_⟩
    · have hptr := h.ring.ptr_lt hpos
      have hwrap : (m.expiringNonceRingPtr + 1) % 2 ^ 32 = m.expiringNonceRingPtr + 1 :=
        Nat.mod_eq_of_lt (by dsimp only at hptr; omega)
      simp only [marked, hwrap, hN, map_append, map_singleton]
      exact h.ring.write hpos c.hash
    · intro a ha
      change update m.evictedSeen c.hash c.validBefore a.hash ≤ _
      rcases mem_append.mp ha with ha | ha
      · by_cases hhash : a.hash = c.hash
        · rw [hhash, update_self, heq a ha hhash]
        · rw [update_of_ne hhash]
          exact (evictedSeen_le m a.hash).trans (h.expiry a ha)
      · rw [mem_singleton.mp ha, update_self]
    · intro a ha
      rcases mem_append.mp ha with ha | ha
      · exact h.window a ha
      · rw [mem_singleton.mp ha]
        have hwin := hadm.window
        unfold saturatingAdd now at hwin
        omega
  · rw [hstep]
    exact h

theorem runCalls_ringLog {W N : Nat} (hm : EmptyRing m)
    (calls : List ExpiringNonceCall) (hreg : OneRegime W N calls) (heq : EqualExpiries calls) :
    RingLog W N (runCalls m calls) := by
  induction calls using reverseRecOn with
  | nil =>
    refine ⟨?_, by simp [runCalls], by simp [runCalls]⟩
    simp only [runCalls, foldl_nil, hm.ptr, map_nil]
    exact RingHolds.nil N 0 _ hm.slots
  | append_singleton calls c ih =>
    have hc : c ∈ calls ++ [c] := by simp
    have hlog := ih (fun a ha => hreg a (mem_append_left _ ha)) heq.of_append
    rw [runCalls_append]
    refine step_ringLog hlog (hreg c hc).1 (hreg c hc).2 fun a ha => ?_
    exact heq a (mem_append_left _ ((runCalls_sublist m calls).mem ha)) c hc

/-- A full-set refusal has found an unexpired entry at the ring pointer. -/
theorem exec_setFull (h : c.exec.run m = .error (.nonce .expiringNonceSetFull) m') :
    c.now < c.validBefore ∧ c.validBefore ≤ maxWord 64 ∧
    m.expiringNonceRing m.expiringNonceRingPtr ≠ 0 ∧ c.now < m.expiringNonceSeen
      (m.expiringNonceRing m.expiringNonceRingPtr) := by
  rw [exec_run] at h
  split_ifs at h with hwindow hseen hfull
  · cases h
  · cases h
  · rw [not_or, not_le, not_lt] at hwindow
    refine ⟨hwindow.1, hwindow.2.trans (min_le_right _ _), hfull.1, ?_⟩
    by_contra hexp
    have hfalse := isExpiringNonceSeen_eq_false.mpr (Nat.not_lt.mp hexp)
    exact Bool.false_ne_true (hfalse.symm.trans hfull.2)

/-- The oldest of the last `N` accepted calls is unexpired, so all `N` of
them were made within the window. -/
theorem setFull_recent {W N : Nat} (hN : 0 < N)
    (h : RingLog W N (m, log)) (hchron : Chronological log)
    (hfull : c.exec.run m = .error (.nonce .expiringNonceSetFull) m') :
    N ≤ (log.filter fun a => c.timestamp < a.timestamp + W).length := by
  obtain ⟨hvalid, hword, hslot, hlive⟩ := exec_setFull hfull
  obtain ⟨hlen, hge, hold⟩ := h.ring.oldest hN hslot
  simp only [length_map] at hlen hge
  simp only [length_map, get_eq_getElem, getElem_map] at hold
  have hmem : log[log.length - N] ∈ log := getElem_mem hlen
  have htime : c.timestamp < log[log.length - N].timestamp + W := by
    have hexp := h.expiry _ hmem
    have hwin := h.window _ hmem
    dsimp only at hexp
    rw [hold] at hlive
    unfold now at hvalid hlive
    omega
  have hall : ∀ a ∈ log.drop (log.length - N), c.timestamp < a.timestamp + W := by
    intro a ha
    rw [drop_eq_getElem_cons hlen] at ha
    rcases mem_cons.mp ha with rfl | ha
    · exact htime
    · have hsub := hchron.sublist (drop_sublist (log.length - N) log)
      rw [drop_eq_getElem_cons hlen] at hsub
      have hle := (pairwise_cons.mp hsub).1 a ha
      omega
  have hkeep : (log.drop (log.length - N)).filter
      (fun a => c.timestamp < a.timestamp + W) = log.drop (log.length - N) :=
    filter_eq_self.mpr fun a ha => by simpa using hall a ha
  calc N = (log.drop (log.length - N)).length := by
        rw [length_drop]
        omega
    _ = ((log.drop (log.length - N)).filter
          fun a => c.timestamp < a.timestamp + W).length := by rw [hkeep]
    _ ≤ (log.filter fun a => c.timestamp < a.timestamp + W).length :=
        ((drop_sublist _ log).filter _).length_le

/-- No hash is accepted twice, whatever forks the run crosses; and in one
regime a call is refused for a full ring only if `N` calls were accepted
within the window before it. -/
theorem expiringNonce_replaySafe : (∀ (m : NonceManager) (calls : List ExpiringNonceCall),
      Chronological calls → EqualExpiries calls → ((runCalls m calls).2.map hash).Nodup) ∧
    (∀ (W N : Nat) (m m' : NonceManager) (calls : List ExpiringNonceCall) (c : ExpiringNonceCall),
      EmptyRing m → OneRegime W N (calls ++ [c]) →
      Chronological (calls ++ [c]) → EqualExpiries (calls ++ [c]) →
      c.exec.run (runCalls m calls).1 = .error (.nonce .expiringNonceSetFull) m' →
      N ≤ ((runCalls m calls).2.filter fun a => c.timestamp < a.timestamp + W).length) := by
  refine ⟨fun m calls hchron heq => (runCalls_guarded m calls hchron heq).2, ?_⟩
  intro W N m m' calls c hm hreg hchron heq hfull
  have hN : 0 < N := (hreg c (by simp)).2 ▸ c.spec.expiringNonceSetCapacity_pos
  have hlog : RingLog W N (runCalls m calls) := runCalls_ringLog hm calls
      (fun a ha => hreg a (mem_append_left _ ha)) heq.of_append
  have hsorted : Chronological (runCalls m calls).2 :=
    hchron.of_append.1.sublist (runCalls_sublist m calls)
  exact setFull_recent hN hlog hsorted hfull

/-! The bound is attained: capacity many distinct calls fill the ring. -/

def empty : NonceManager where
  expiringNonceSeen _ := 0
  expiringNonceRing _ := 0
  expiringNonceRingPtr := 0

def floodCall (spec : TempoHardfork) (i : Nat) : ExpiringNonceCall where
  spec := spec
  timestamp := 0
  hash := BitVec.ofNat 256 (i + 1)
  validBefore := 1

def flood (spec : TempoHardfork) (k : Nat) : List ExpiringNonceCall :=
  (range k).map (floodCall spec)

theorem flood_succ (spec : TempoHardfork) (k : Nat) :
    flood spec (k + 1) = flood spec k ++ [floodCall spec k] := by
  simp [flood, range_succ]

theorem mem_flood {spec : TempoHardfork} {k : Nat}
    (h : c ∈ flood spec k) : ∃ i, c = floodCall spec i := by
  obtain ⟨i, _, rfl⟩ := mem_map.mp h
  exact ⟨i, rfl⟩

theorem flood_regime (spec : TempoHardfork) (k : Nat) :
    OneRegime spec.expiringNonceMaxExpirySecs spec.expiringNonceSetCapacity (flood spec k) := by
  intro c hc
  obtain ⟨i, rfl⟩ := mem_flood hc
  exact ⟨rfl, rfl⟩

theorem flood_equalExpiries (spec : TempoHardfork) (k : Nat) : EqualExpiries (flood spec k) := by
  intro a ha b hb _
  obtain ⟨i, rfl⟩ := mem_flood ha
  obtain ⟨j, rfl⟩ := mem_flood hb
  rfl

theorem flood_chronological (spec : TempoHardfork) (k : Nat) : Chronological (flood spec k) := by
  refine pairwise_of_forall_mem_list fun a ha b hb => ?_
  obtain ⟨i, rfl⟩ := mem_flood ha
  obtain ⟨j, rfl⟩ := mem_flood hb
  exact Nat.le_refl 0

theorem empty_emptyRing : EmptyRing empty := ⟨rfl, fun _ => rfl⟩

theorem floodHash_ne {i j : Nat} (hi : i ≤ 3000000) (hj : j ≤ 3000000)
    (hne : i ≠ j) : BitVec.ofNat 256 (i + 1) ≠ BitVec.ofNat 256 (j + 1) := by
  intro h
  have htoNat := congrArg BitVec.toNat h
  simp only [BitVec.toNat_ofNat] at htoNat
  omega

theorem length_flood_hashes (spec : TempoHardfork) (k : Nat) :
    ((flood spec k).map hash).length = k := by
  simp [flood]

/-- While the ring has room every flooding call is accepted. -/
theorem flood_run (spec : TempoHardfork) (k : Nat) (hk : k ≤ spec.expiringNonceSetCapacity) :
    (runCalls empty (flood spec k)).2 = flood spec k ∧
    ∀ i ≤ 3000000, (runCalls empty (flood spec k)).1.expiringNonceSeen
      (BitVec.ofNat 256 (i + 1)) = if i < k then 1 else 0 := by
  induction k with
  | zero => exact ⟨rfl, fun i _ => rfl⟩
  | succ k ih =>
    obtain ⟨hlog, hseen⟩ := ih (by omega)
    have hcap := spec.expiringNonceSetCapacity_le
    have hsecs := spec.expiringNonceMaxExpirySecs_pos
    have hring := (runCalls_ringLog empty_emptyRing _ (flood_regime spec k)
      (flood_equalExpiries spec k)).ring
    rw [hlog] at hring
    have hslot : (runCalls empty (flood spec k)).1.expiringNonceRing
        (runCalls empty (flood spec k)).1.expiringNonceRingPtr = 0 := by
      apply hring.unwritten
      rw [hring.ptr_eq, length_flood_hashes, Nat.mod_eq_of_lt (by omega)]
    have hadm : Admitted (runCalls empty (flood spec k)).1 (floodCall spec k) := by
      refine ⟨?_, ?_, ?_, fun hne => absurd hslot hne⟩
      · simp [now, floodCall]
      · simp only [now, floodCall, saturatingAdd, maxWord]
        omega
      · rw [isExpiringNonceSeen_eq_false]
        change expiringNonceSeen _ (BitVec.ofNat 256 (k + 1)) ≤ _
        rw [hseen k (by omega)]
        simp
    rw [flood_succ, runCalls_append, step_of_admitted hadm, hlog]
    refine ⟨rfl, fun i hi => ?_⟩
    change update (evictedSeen _) (BitVec.ofNat 256 (k + 1)) 1 _ = _
    rw [evictedSeen, if_neg (not_not.mpr hslot)]
    by_cases hik : i = k
    · subst hik
      rw [update_self, if_pos (by omega)]
    · rw [update_of_ne (floodHash_ne hi (by omega) hik), hseen i hi]
      exact if_congr (by omega) rfl rfl

theorem flood_setFull (spec : TempoHardfork) :
    ∃ m', (floodCall spec spec.expiringNonceSetCapacity).exec.run
      (runCalls empty (flood spec spec.expiringNonceSetCapacity)).1 =
        .error (.nonce .expiringNonceSetFull) m' := by
  obtain ⟨hlog, hseen⟩ := flood_run spec _ le_rfl
  have hpos := spec.expiringNonceSetCapacity_pos
  have hcap := spec.expiringNonceSetCapacity_le
  have hsecs := spec.expiringNonceMaxExpirySecs_pos
  have hring := (runCalls_ringLog empty_emptyRing _
    (flood_regime spec spec.expiringNonceSetCapacity) (flood_equalExpiries spec _)).ring
  rw [hlog] at hring
  have hptr := hring.ptr_eq
  rw [length_flood_hashes, Nat.mod_self] at hptr
  have hslot := hring.recent 0 (by rwa [length_flood_hashes]) (by rw [length_flood_hashes]; omega)
  have hfirst : (runCalls empty (flood spec spec.expiringNonceSetCapacity)).1.expiringNonceRing 0 =
        BitVec.ofNat 256 (0 + 1) := by
    simpa [flood, floodCall] using hslot
  have hnew := hseen spec.expiringNonceSetCapacity hcap
  have hold := hseen 0 (by omega)
  rw [if_pos hpos] at hold
  rw [if_neg (lt_irrefl _)] at hnew
  rw [exec_run, if_neg, if_neg, if_pos]
  · exact ⟨_, rfl⟩
  · rw [hptr, hfirst]
    refine ⟨by decide, ?_⟩
    simp [isExpiringNonceSeen, hold, now, floodCall]
  · rw [Bool.not_eq_true, isExpiringNonceSeen_eq_false]
    exact hnew.le.trans (Nat.zero_le _)
  · simp only [now, floodCall, saturatingAdd, maxWord]
    omega

/-- The ring of `spec`, filled within one block, refuses the next call after
having accepted capacity many distinct ones. -/
def FloodRefused (spec : TempoHardfork) : Prop :=
  let run := runCalls empty (flood spec spec.expiringNonceSetCapacity)
  (∃ m', (floodCall spec spec.expiringNonceSetCapacity).exec.run run.1 =
    .error (.nonce .expiringNonceSetFull) m') ∧
  spec.expiringNonceSetCapacity ≤ (run.2.filter fun a =>
    0 < a.timestamp + spec.expiringNonceMaxExpirySecs).length ∧
  (run.2.map hash).Nodup

theorem expiringNonce_replaySafe_flood : FloodRefused .genesis ∧ FloodRefused .t11 := by
  -- kept over an arbitrary fork: the two rings are too large to evaluate
  have refused : ∀ spec, FloodRefused spec := by
    intro spec
    obtain ⟨m', hfull⟩ := flood_setFull spec
    refine ⟨⟨m', hfull⟩, ?_, ?_⟩
    · refine expiringNonce_replaySafe.2 _ _ empty m' _ _ empty_emptyRing ?_ ?_ ?_ hfull
      · rw [← flood_succ]
        exact flood_regime spec _
      · rw [← flood_succ]
        exact flood_chronological spec _
      · rw [← flood_succ]
        exact flood_equalExpiries spec _
    · exact expiringNonce_replaySafe.1 empty _ (flood_chronological _ _) (flood_equalExpiries _ _)
  exact ⟨refused .genesis, refused .t11⟩

end ExpiringNonceCall

end Tempo
