/-
The hardfork schedule as a linear order of identifiers.  Only the order of the
variants matters to the precompiles: each behaviour switch asks whether the
active fork is at or past a given one.
-/
import Mathlib.Order.Lattice

namespace Tempo

inductive TempoHardfork where
  | genesis | t0 | t1 | t1a | t1b | t1c | t2 | t3 | t4 | t5 | t6 | t7 | t8
  | t9 | t10 | t11 | t12 | t13 | t14
  deriving DecidableEq, Repr

namespace TempoHardfork

/-- Position of the fork in the activation order. -/
def variantIndex : TempoHardfork → Nat
  | genesis => 0 | t0 => 1 | t1 => 2 | t1a => 3 | t1b => 4 | t1c => 5
  | t2 => 6 | t3 => 7 | t4 => 8 | t5 => 9 | t6 => 10 | t7 => 11 | t8 => 12
  | t9 => 13 | t10 => 14 | t11 => 15 | t12 => 16 | t13 => 17 | t14 => 18

theorem variantIndex_injective : Function.Injective variantIndex := by
  intro a b h
  cases a <;> cases b <;> simp_all [variantIndex]

instance : LE TempoHardfork := ⟨fun a b => a.variantIndex ≤ b.variantIndex⟩

instance (a b : TempoHardfork) : Decidable (a ≤ b) :=
  inferInstanceAs (Decidable (a.variantIndex ≤ b.variantIndex))

instance : PartialOrder TempoHardfork where
  le_refl a := Nat.le_refl a.variantIndex
  le_trans a b c := fun (h : a.variantIndex ≤ b.variantIndex)
    (h' : b.variantIndex ≤ c.variantIndex) => le_trans h h'
  le_antisymm _ _ h h' := variantIndex_injective (le_antisymm h h')

/-- Entries the expiring-nonce ring holds under the fork. -/
def expiringNonceSetCapacity (spec : TempoHardfork) : Nat :=
  if t11 ≤ spec then 3000000 else 300000

/-- Longest validity window of an expiring nonce, in seconds. -/
def expiringNonceMaxExpirySecs (spec : TempoHardfork) : Nat :=
  if t11 ≤ spec then 300 else 30

theorem expiringNonceSetCapacity_pos (spec : TempoHardfork) :
    0 < spec.expiringNonceSetCapacity := by
  unfold expiringNonceSetCapacity
  split <;> decide

theorem expiringNonceSetCapacity_le (spec : TempoHardfork) :
    spec.expiringNonceSetCapacity ≤ 3000000 := by
  unfold expiringNonceSetCapacity
  split <;> decide

theorem expiringNonceMaxExpirySecs_pos (spec : TempoHardfork) :
    0 < spec.expiringNonceMaxExpirySecs := by
  unfold expiringNonceMaxExpirySecs
  split <;> decide

end TempoHardfork

end Tempo
