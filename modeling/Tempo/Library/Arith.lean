/-
Checked and saturating arithmetic on unsigned words kept as natural numbers,
and division rounded either way.  A checked operation answers `none` exactly
when the mathematical result does not fit.
-/
import Mathlib.Algebra.Order.Ring.Nat

namespace Tempo

/-- Greatest unsigned word of width `w`. -/
def maxWord (w : Nat) : Nat := 2 ^ w - 1

def checkedAdd (w a b : Nat) : Option Nat :=
  if a + b ≤ maxWord w then some (a + b) else none

def checkedSub (a b : Nat) : Option Nat :=
  if b ≤ a then some (a - b) else none

def checkedMul (w a b : Nat) : Option Nat :=
  if a * b ≤ maxWord w then some (a * b) else none

def checkedDiv (a b : Nat) : Option Nat :=
  if b = 0 then none else some (a / b)

def saturatingAdd (w a b : Nat) : Nat :=
  min (a + b) (maxWord w)

def saturatingMul (w a b : Nat) : Nat :=
  min (a * b) (maxWord w)

/-- A value stored into a word of width `w`, or `none` if it does not fit. -/
def tryInto (w a : Nat) : Option Nat :=
  if a ≤ maxWord w then some a else none

variable {a b c : Nat} {w : Nat}

@[simp]
theorem checkedAdd_eq_some : checkedAdd w a b = some c ↔ a + b ≤ maxWord w ∧ a + b = c := by
  simp [checkedAdd]

@[simp]
theorem checkedSub_eq_some : checkedSub a b = some c ↔ b ≤ a ∧ a - b = c := by
  simp [checkedSub]

@[simp]
theorem checkedMul_eq_some : checkedMul w a b = some c ↔ a * b ≤ maxWord w ∧ a * b = c := by
  simp [checkedMul]

@[simp]
theorem checkedDiv_eq_some : checkedDiv a b = some c ↔ b ≠ 0 ∧ a / b = c := by
  simp [checkedDiv]

@[simp]
theorem tryInto_eq_some : tryInto w a = some b ↔ a ≤ maxWord w ∧ a = b := by
  simp [tryInto]

end Tempo
