/-
A ring of `N` slots written in cyclic order, as a view of the log of all
writes: a slot holds the latest of the writes that share its residue, so the
slot about to be overwritten holds the write made exactly `N` writes ago.
-/
import Mathlib.Data.Nat.ModEq

namespace Tempo

open Function

universe u

variable {α : Type u}

/-- `slot` and `ptr` are the state of a ring of `N` slots, initially all
`empty`, after the writes `log`. -/
structure RingHolds (N : Nat) (empty : α) (slot : Nat → α) (ptr : Nat) (log : List α) : Prop where
  ptr_eq : ptr = log.length % N
  recent : ∀ j, (h : j < log.length) → log.length ≤ j + N → slot (j % N) = log.get ⟨j, h⟩
  unwritten : ∀ i, log.length ≤ i → slot i = empty

namespace RingHolds

variable {N ptr : Nat} {empty : α} {slot : Nat → α} {log : List α}

theorem nil (N : Nat) (empty : α) (slot : Nat → α)
    (h : ∀ i, slot i = empty) : RingHolds N empty slot 0 [] where
  ptr_eq := by simp
  recent := by simp
  unwritten i _ := h i

theorem ptr_lt (hN : 0 < N) (h : RingHolds N empty slot ptr log) : ptr < N := by
  rw [h.ptr_eq]
  exact Nat.mod_lt _ hN

/-- A non-empty slot at the write position has been there for `N` writes. -/
theorem oldest (hN : 0 < N) (h : RingHolds N empty slot ptr log) (hslot : slot ptr ≠ empty) :
    ∃ hlen : log.length - N < log.length,
      N ≤ log.length ∧ slot ptr = log.get ⟨log.length - N, hlen⟩ := by
  have hfull : N ≤ log.length := by
    by_contra hshort
    apply hslot
    apply h.unwritten
    rw [h.ptr_eq, Nat.mod_eq_of_lt (by omega)]
  have hlen : log.length - N < log.length := by omega
  refine ⟨hlen, hfull, ?_⟩
  rw [← h.recent _ hlen (by omega), h.ptr_eq, Nat.mod_eq_sub_mod hfull]

/-- Writing at the pointer and advancing it cyclically appends to the log. -/
theorem write (hN : 0 < N) (h : RingHolds N empty slot ptr log) (a : α) :
    RingHolds N empty (update slot ptr a) (if ptr + 1 ≥ N then 0 else ptr + 1) (log ++ [a]) where
  ptr_eq := by
    have hlt := h.ptr_lt hN
    have hmod : (log.length + 1) % N = (ptr + 1) % N := by
      rw [h.ptr_eq]
      simp
    rw [List.length_append, List.length_singleton, hmod]
    split
    · have hwrap : ptr + 1 = N := by omega
      rw [hwrap, Nat.mod_self]
    · rw [Nat.mod_eq_of_lt (by omega)]
  recent := by
    intro j hj hrecent
    simp only [List.length_append, List.length_singleton] at hj hrecent
    by_cases hlast : j = log.length
    · subst hlast
      simp [← h.ptr_eq]
    · have hold : j < log.length := by omega
      have hne : j % N ≠ ptr := by
        intro heq
        have hmod : j ≡ log.length [MOD N] := by
          rw [Nat.ModEq, heq, h.ptr_eq]
        have hdvd := (Nat.modEq_iff_dvd' (by omega)).mp hmod
        have hle := Nat.le_of_dvd (by omega) hdvd
        omega
      rw [update_of_ne hne, h.recent j hold (by omega)]
      simp [List.getElem_append_left hold]
  unwritten := by
    intro i hi
    simp only [List.length_append, List.length_singleton] at hi
    have hne : i ≠ ptr := by
      have hle := Nat.mod_le log.length N
      rw [h.ptr_eq]
      omega
    rw [update_of_ne hne, h.unwritten i (by omega)]

end RingHolds

end Tempo
