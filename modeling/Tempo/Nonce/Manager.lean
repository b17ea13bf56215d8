/-
The expiring nonces of the nonce manager precompile: a seen map from
transaction hash to expiry together with a circular buffer of the hashes
recorded in it.
-/
import Tempo.Library.Arith
import Tempo.Primitives.Error
import Tempo.Primitives.Hardfork

namespace Tempo

open Function

structure NonceManager where
  expiringNonceSeen : B256 → Nat
  expiringNonceRing : Nat → B256
  expiringNonceRingPtr : Nat

namespace NonceManager

/-- The hash is recorded with an expiry that has not passed. -/
def isExpiringNonceSeen (m : NonceManager) (hash : B256) (now : Nat) : Bool :=
  let expiry := m.expiringNonceSeen hash
  expiry != 0 && decide (expiry > now)

def writeSeen (hash : B256) (expiry : Nat) : Exec NonceManager Unit :=
  updates fun m => { m with
    expiringNonceSeen := update m.expiringNonceSeen hash expiry }

def writeRing (idx : Nat) (hash : B256) : Exec NonceManager Unit :=
  updates fun m => { m with
    expiringNonceRing := update m.expiringNonceRing idx hash }

def writeRingPtr (ptr : Nat) : Exec NonceManager Unit :=
  updates fun m => { m with expiringNonceRingPtr := ptr }

/-- Validates an expiring nonce and records it over the entry at the ring
pointer, which must be empty or expired. -/
def checkAndMarkExpiringNonce (spec : TempoHardfork) (timestamp : Nat)
    (expiringNonceHash : B256) (validBefore : Nat) : Exec NonceManager Unit := do
  let now := min timestamp (maxWord 64)
  let maxExpirySecs := spec.expiringNonceMaxExpirySecs
  let capacity := spec.expiringNonceSetCapacity
  require (¬(validBefore ≤ now ∨ validBefore > saturatingAdd 64 now maxExpirySecs))
    (.nonce .invalidExpiringNonceExpiry)
  let seen ← reads fun m => m.isExpiringNonceSeen expiringNonceHash now
  require (¬seen) (.nonce .expiringNonceReplay)
  let ptr ← reads fun m => m.expiringNonceRingPtr
  let idx := ptr
  let oldHash ← reads fun m => m.expiringNonceRing idx
  if oldHash ≠ 0 then
    let oldLive ← reads fun m => m.isExpiringNonceSeen oldHash now
    require (¬oldLive) (.nonce .expiringNonceSetFull)
    writeSeen oldHash 0
  writeRing idx expiringNonceHash
  writeSeen expiringNonceHash validBefore
  -- `ptr + 1` is a `u32` sum and wraps
  let next := if (ptr + 1) % 2 ^ 32 ≥ capacity then 0 else (ptr + 1) % 2 ^ 32
  writeRingPtr next

/-- The seen map once the entry at the ring pointer has been evicted. -/
def evictedSeen (m : NonceManager) : B256 → Nat :=
  if m.expiringNonceRing m.expiringNonceRingPtr ≠ 0 then
    update m.expiringNonceSeen (m.expiringNonceRing m.expiringNonceRingPtr) 0
  else m.expiringNonceSeen

/-- The state after recording `hash` with expiry `validBefore`. -/
def marked (m : NonceManager) (capacity : Nat) (hash : B256) (validBefore : Nat) : NonceManager :=
  let ptr := m.expiringNonceRingPtr
  { m with
    expiringNonceSeen := update m.evictedSeen hash validBefore
    expiringNonceRing := update m.expiringNonceRing ptr hash
    expiringNonceRingPtr :=
      if (ptr + 1) % 2 ^ 32 ≥ capacity then 0 else (ptr + 1) % 2 ^ 32 }

/-- The three ways a call is refused, and the one way it is accepted. -/
theorem checkAndMarkExpiringNonce_run (spec : TempoHardfork)
    (timestamp : Nat) (hash : B256) (validBefore : Nat) (m : NonceManager) :
    let now := min timestamp (maxWord 64)
    let oldHash := m.expiringNonceRing m.expiringNonceRingPtr
    (checkAndMarkExpiringNonce spec timestamp hash validBefore).run m =
      if validBefore ≤ now ∨ validBefore > saturatingAdd 64 now spec.expiringNonceMaxExpirySecs
      then .error (.nonce .invalidExpiringNonceExpiry) m
      else if m.isExpiringNonceSeen hash now then
        .error (.nonce .expiringNonceReplay) m
      else if oldHash ≠ 0 ∧ m.isExpiringNonceSeen oldHash now then
        .error (.nonce .expiringNonceSetFull) m
      else .ok () (m.marked spec.expiringNonceSetCapacity hash validBefore) := by
  intro now oldHash
  unfold checkAndMarkExpiringNonce
  simp only [run_require_bind, run_reads_bind, run_ite, ite_not]
  congr 2
  by_cases hempty : oldHash = 0
  · have hfree : ¬(oldHash ≠ 0 ∧ m.isExpiringNonceSeen oldHash now) := fun h => h.1 hempty
    rw [if_pos hempty, if_neg hfree]
    simp only [marked, evictedSeen]
    rw [if_neg (not_not.mpr hempty)]
    rfl
  · rw [if_neg hempty]
    by_cases hlive : m.isExpiringNonceSeen oldHash now
    · rw [if_pos hlive, if_pos ⟨hempty, hlive⟩]
    · have hfree : ¬(oldHash ≠ 0 ∧ m.isExpiringNonceSeen oldHash now) := fun h => hlive h.2
      rw [if_neg hlive, if_neg hfree]
      simp only [marked, evictedSeen]
      rw [if_pos hempty]
      rfl

end NonceManager

end Tempo
