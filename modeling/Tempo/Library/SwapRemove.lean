/-
Removal from a list by moving its last element into the vacated place.  Up to
order this erases the element, and every place but two keeps its contents,
which is what an index kept beside the list has to follow.
-/
import Mathlib.Data.List.Nodup
import Mathlib.Data.List.Perm.Basic

namespace Tempo

open List

variable {α : Type} {l : List α} {i j : Nat} {x y : α}

/-- The last element takes the place of the one at `i`. -/
def swapRemoveAt (l : List α) (i : Nat) : List α :=
  match l.getLast? with
  | none => []
  | some last => (l.set i last).dropLast

theorem swapRemoveAt_concat (l : List α) (last : α) (i : Nat) :
    swapRemoveAt (l ++ [last]) i = l.set i last := by
  rw [swapRemoveAt, getLast?_concat]
  change ((l ++ [last]).set i last).dropLast = l.set i last
  by_cases hi : i < l.length
  · rw [set_append_left _ _ hi, dropLast_concat]
  · rw [set_append_right _ _ (by omega)]
    have hset : l.set i last = l := set_eq_of_length_le (by omega)
    rw [hset]
    cases i - l.length with
    | zero => simp
    | succ n => simp

theorem getElem?_concat_eq_some :
    (l ++ [x])[j]? = some y ↔ l[j]? = some y ∨ j = l.length ∧ x = y := by
  rcases Nat.lt_trichotomy j l.length with hj | rfl | hj
  · simp [getElem?_append_left hj, Nat.ne_of_lt hj]
  · simp
  · rw [getElem?_eq_none (by simp; omega), getElem?_eq_none (Nat.le_of_lt hj)]
    simp [Nat.ne_of_gt hj]

theorem getElem?_set_eq_some (hi : i < l.length) :
    (l.set i x)[j]? = some y ↔ j = i ∧ x = y ∨ j ≠ i ∧ l[j]? = some y := by
  by_cases hij : i = j
  · simp [← hij, hi]
  · simp [hij, Ne.symm hij]

theorem getElem?_swapRemoveAt (hi : i < l.length) :
    (swapRemoveAt l i)[j]? = some y ↔ j + 1 < l.length ∧
      (j = i ∧ l[l.length - 1]? = some y ∨ j ≠ i ∧ l[j]? = some y) := by
  rcases l.eq_nil_or_concat' with rfl | ⟨l0, last, rfl⟩
  · cases hi
  · rw [swapRemoveAt_concat, length_append, length_singleton, Nat.add_lt_add_iff_right]
    by_cases hj : j < l0.length
    · by_cases hij : j = i
      · subst hij
        simp [hj]
      · rw [getElem?_set_ne (Ne.symm hij), getElem?_append_left hj]
        simp [hj, hij]
    · simp [hj]

theorem length_swapRemoveAt (hl : l ≠ []) : (swapRemoveAt l i).length = l.length - 1 := by
  rcases l.eq_nil_or_concat' with rfl | ⟨l0, last, rfl⟩
  · exact absurd rfl hl
  · rw [swapRemoveAt_concat]
    simp

theorem map_swapRemoveAt {β : Type} (f : α → β) (l : List α) (i : Nat) :
    (swapRemoveAt l i).map f = swapRemoveAt (l.map f) i := by
  rcases l.eq_nil_or_concat' with rfl | ⟨l0, last, rfl⟩
  · rfl
  · rw [map_append, map_singleton, swapRemoveAt_concat, swapRemoveAt_concat, map_set]

theorem swapRemoveAt_perm (hi : i < l.length) : (swapRemoveAt l i).Perm (l.eraseIdx i) := by
  rcases l.eq_nil_or_concat' with rfl | ⟨l0, last, rfl⟩
  · cases hi
  · rw [swapRemoveAt_concat]
    rw [length_append, length_singleton] at hi
    by_cases hlast : i = l0.length
    · subst hlast
      rw [set_eq_of_length_le (by omega), eraseIdx_append_of_length_le (by omega)]
      simp
    · have hlt : i < l0.length := by omega
      rw [eraseIdx_append_of_lt_length hlt, set_eq_take_append_cons_drop, if_pos hlt,
        eraseIdx_eq_take_drop_succ, append_assoc]
      refine List.Perm.append_left _ ?_
      exact (perm_append_singleton last _).symm

theorem nodup_swapRemoveAt (hi : i < l.length) (h : l.Nodup) :
    (swapRemoveAt l i).Nodup := (swapRemoveAt_perm hi).nodup_iff.mpr (h.eraseIdx i)

theorem mem_swapRemoveAt (h : l.Nodup) (hx : l[i]? = some x) :
    y ∈ swapRemoveAt l i ↔ y ≠ x ∧ y ∈ l := by
  classical
  obtain ⟨hi, rfl⟩ := List.getElem?_eq_some_iff.mp hx
  rw [(swapRemoveAt_perm hi).mem_iff, ← h.erase_getElem i hi]
  exact h.mem_erase_iff

end Tempo
