/-
Binary search in a list sorted by what a comparison says of its elements: one
comparison per halving, and a last one that decides.
-/
import Mathlib

namespace Tempo

universe u

variable {α : Type u} {xs : List α} {cmp : α → Ordering}

/-- The index the search ends at, in the `size` positions from `base` on. -/
def searchBase (cmp : Nat → Ordering) (size base : Nat) : Nat :=
  if 1 < size then
    let half := size / 2
    let mid := base + half
    searchBase cmp (size - half) (if cmp mid = .gt then base else mid)
  else base
termination_by size

/-- How the element at a position compares; there is nothing behind the
end. -/
def compareAt (xs : List α) (cmp : α → Ordering) (i : Nat) : Ordering :=
  match xs[i]? with
  | some x => cmp x
  | none => .gt

def binarySearchBy (xs : List α) (cmp : α → Ordering) : Option Nat :=
  if xs.length = 0 then none
  else
    let base := searchBase (compareAt xs cmp) xs.length 0
    if compareAt xs cmp base = .eq then some base else none

/-- Once an element is too large so are those behind it, and what is before
one that is too small is too small. -/
structure Ascends (cmp : Nat → Ordering) : Prop where
  gt : ∀ i j, i ≤ j → cmp i = .gt → cmp j = .gt
  lt : ∀ i j, i ≤ j → cmp j = .lt → cmp i = .lt

/-- Everything behind the remaining positions is too large, and the first of
them is not, unless nothing was skipped. -/
theorem searchBase_spec {cmp : Nat → Ordering} (h : Ascends cmp)
    {size base : Nat} (hsize : 0 < size) (hafter : ∀ i, base + size ≤ i → cmp i = .gt)
    (hbase : base = 0 ∨ cmp base ≠ .gt) :
    (∀ i, searchBase cmp size base < i → cmp i = .gt) ∧ (searchBase cmp size base = 0 ∨
        cmp (searchBase cmp size base) ≠ .gt) := by
  fun_induction searchBase cmp size base with
  | case1 size base hlt half mid ih =>
    have hhalf : half = size / 2 := rfl
    have hmid : mid = base + half := rfl
    refine ih (by omega) ?_ ?_
    · intro i hi
      by_cases hgt : cmp mid = .gt
      · rw [dif_pos hgt] at hi
        exact h.gt mid i (by omega) hgt
      · rw [dif_neg hgt] at hi
        exact hafter i (by omega)
    · by_cases hgt : cmp mid = .gt
      · rwa [dif_pos hgt]
      · rw [dif_neg hgt]
        exact .inr hgt
  | case2 size base hle =>
    exact ⟨fun i hi => hafter i (by omega), hbase⟩

/-- The search finds an element that is equal if there is one. -/
theorem binarySearchBy_isSome
    (h : Ascends (compareAt xs cmp)) {x : α} (hx : x ∈ xs) (heq : cmp x = .eq) :
    ∃ i, binarySearchBy xs cmp = some i := by
  obtain ⟨k, hk, hget⟩ := List.mem_iff_getElem.mp hx
  have hkeq : compareAt xs cmp k = .eq := by
    rw [compareAt, List.getElem?_eq_getElem hk, hget]
    exact heq
  have hafter : ∀ i, 0 + xs.length ≤ i → compareAt xs cmp i = .gt := by
    intro i hi
    rw [compareAt, List.getElem?_eq_none (by omega)]
  obtain ⟨hlarge, hbase⟩ := searchBase_spec h (by omega : 0 < xs.length) hafter (.inl rfl)
  refine ⟨searchBase (compareAt xs cmp) xs.length 0, ?_⟩
  rw [binarySearchBy, if_neg (by omega)]
  refine if_pos ?_
  have hle : k ≤ searchBase (compareAt xs cmp) xs.length 0 := by
    by_contra hlt
    rw [hlarge k (by omega)] at hkeq
    cases hkeq
  cases hcmp : compareAt xs cmp (searchBase (compareAt xs cmp) xs.length 0) with
  | eq => rfl
  | lt =>
    rw [h.lt k _ hle hcmp] at hkeq
    cases hkeq
  | gt =>
    have hzero := hbase.resolve_right (not_not_intro hcmp)
    rw [hzero] at hle hcmp
    rw [Nat.le_zero.mp hle, hcmp] at hkeq
    cases hkeq

/-- What the search finds is equal. -/
theorem binarySearchBy_eq {i : Nat}
    (h : binarySearchBy xs cmp = some i) : ∃ x, xs[i]? = some x ∧ cmp x = .eq := by
  unfold binarySearchBy at h
  split at h
  · cases h
  · dsimp only at h
    split at h
    · rename_i heq
      cases h
      unfold compareAt at heq
      split at heq
      · rename_i x hget
        exact ⟨x, hget, heq⟩
      · cases heq
    · cases h

/-- A list whose keys ascend is searched by comparing keys. -/
theorem ascends_of_sorted {κ : Type u} [LinearOrder κ]
    {key : α → κ} (h : (xs.map key).Pairwise (· < ·)) (k : κ) :
    Ascends (compareAt xs fun x => compare (key x) k) := by
  have hkeys : ∀ (i j : Nat) (x y : α), i ≤ j → xs[i]? = some x → xs[j]? = some y →
      key x ≤ key y := by
    intro i j x y hij hx hy
    obtain ⟨hi, rfl⟩ := List.getElem?_eq_some_iff.mp hx
    obtain ⟨hj, rfl⟩ := List.getElem?_eq_some_iff.mp hy
    rcases Nat.lt_or_eq_of_le hij with hlt | rfl
    · have hpair := List.pairwise_iff_getElem.mp h i j (by simpa) (by simpa) hlt
      simp only [List.getElem_map] at hpair
      exact hpair.le
    · exact le_rfl
  constructor
  · intro i j hij hgt
    unfold compareAt at hgt ⊢
    cases hj : xs[j]? with
    | none => rfl
    | some y =>
      have hlen := (List.getElem?_eq_some_iff.mp hj).1
      have hi := List.getElem?_eq_getElem (lt_of_le_of_lt hij hlen)
      rw [hi] at hgt
      rw [compare_gt_iff_gt] at hgt ⊢
      exact hgt.trans_le (hkeys i j _ y hij hi hj)
  · intro i j hij hlt
    unfold compareAt at hlt ⊢
    cases hj : xs[j]? with
    | none =>
      rw [hj] at hlt
      cases hlt
    | some y =>
      have hlen := (List.getElem?_eq_some_iff.mp hj).1
      have hi := List.getElem?_eq_getElem (lt_of_le_of_lt hij hlen)
      rw [hj] at hlt
      rw [hi]
      rw [compare_lt_iff_lt] at hlt ⊢
      exact (hkeys i j _ y hij hi hj).trans_lt hlt

end Tempo
