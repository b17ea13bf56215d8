/-
Lists committed to by one hash.  `wrap` puts the first entry outermost, so
that entries can be taken off the front by revealing the hash of the rest.
With a hash that has no collisions and never returns the hash of the empty
list, it determines the list.
-/
import Mathlib.Data.List.Basic

namespace Tempo.HashChain

universe u v

variable {α : Type u} {H : Type v}

/-- The hash of a list on top of `tail`, the first entry outermost. -/
def wrap (h : α → H → H) (tail : H) (xs : List α) : H :=
  xs.foldr h tail

/-- For each entry, the hash of what follows it. -/
def remainders (h : α → H → H) (tail : H) : List α → List H
  | [] => []
  | _ :: xs => wrap h tail xs :: remainders h tail xs

@[simp]
theorem wrap_nil (h : α → H → H) (tail : H) : wrap h tail [] = tail := rfl

@[simp]
theorem wrap_cons (h : α → H → H) (tail : H) (x : α) (xs : List α) :
    wrap h tail (x :: xs) = h x (wrap h tail xs) := rfl

/-- Distinct links have distinct hashes, none of which is the hash of the
empty list. -/
structure CollisionFree [Zero H] (h : α → H → H) : Prop where
  injective : Function.Injective2 h
  ne_zero : ∀ x tail, h x tail ≠ 0

section CollisionFree

variable [Zero H] {h : α → H → H} (hcf : CollisionFree h)
include hcf

/-- A claimed front part and remainder fit a committed list exactly when the
list starts with that part and the remainder commits to the rest. -/
theorem wrap_eq_iff {r : H} {xs ys : List α} :
    wrap h r xs = wrap h 0 ys ↔ ∃ rest, ys = xs ++ rest ∧ r = wrap h 0 rest := by
  induction xs generalizing ys with
  | nil => simp
  | cons x xs ih =>
    cases ys with
    | nil => simp [hcf.ne_zero]
    | cons y ys =>
      rw [wrap_cons, wrap_cons, hcf.injective.eq_iff, ih]
      constructor
      · rintro ⟨rfl, rest, rfl, hr⟩
        exact ⟨rest, rfl, hr⟩
      · rintro ⟨rest, heq, hr⟩
        rw [List.cons_append, List.cons.injEq] at heq
        exact ⟨heq.1.symm, rest, heq.2, hr⟩

theorem wrap_eq_zero_iff {xs : List α} : wrap h 0 xs = 0 ↔ xs = [] := by
  cases xs with
  | nil => simp
  | cons x xs => simp [hcf.ne_zero]

end CollisionFree

end Tempo.HashChain
