/-
Tables kept beside a list so that its entries can be found without a search:
one-based positions of its values, marks on the values in use, and a compact
list of chosen entries with a pointer back from each.  Every relation is stated
position by position, and each has one rule for appending to the list and one
for overwriting an entry of it.
-/
import Tempo.Library.SwapRemove

namespace Tempo

open Function List Option

variable {α : Type} [DecidableEq α]

/-- `index` gives every value of `l` its one-based position and zero to the
values not in it. -/
def Indexes (index : α → Nat) (l : List α) : Prop :=
  ∀ x i, index x = i + 1 ↔ l[i]? = some x

namespace Indexes

variable {index : α → Nat} {l : List α} {i j : Nat} {x y : α}

theorem push (h : Indexes index l) (hnew : index x = 0) :
    Indexes (update index x (l.length + 1)) (l ++ [x]) := by
  intro y k
  rw [getElem?_concat_eq_some, ← h y k]
  by_cases hyx : y = x
  · subst hyx
    simp only [update_self, and_true]
    omega
  · simp [update_of_ne hyx, Ne.symm hyx]

/-- The entry at `i` is overwritten by a value not in the list. -/
theorem replace (h : Indexes index l) (hi : l[i]? = some x) (hnew : index y = 0) :
    Indexes (update (update index x 0) y (i + 1)) (l.set i y) := by
  intro z k
  have hx := (h x i).mpr hi
  have hz := h z i
  rw [getElem?_set_eq_some (List.getElem?_eq_some_iff.mp hi).1, ← h z k]
  by_cases hzy : z = y
  · subst hzy
    simp only [update_self, and_true]
    omega
  · rw [update_of_ne hzy]
    by_cases hzx : z = x
    · subst hzx
      simp only [update_self, Ne.symm hzy, and_false, false_or]
      omega
    · simp only [hi, some.injEq, Ne.symm hzx, iff_false] at hz
      simp only [update_of_ne hzx, Ne.symm hzy, and_false, false_or]
      omega

/-- The value at `i` moves to the end and a new one takes its place. -/
theorem supersede (h : Indexes index l) (hi : l[i]? = some x) (hnew : index y = 0) :
    Indexes (update (update index x (l.length + 1)) y (i + 1)) ((l ++ [x]).set i y) := by
  have hlen : i < l.length := (List.getElem?_eq_some_iff.mp hi).1
  have hxy : x ≠ y := by
    rintro rfl
    have hpos := (h x i).mpr hi
    omega
  have hpush := (h.replace hi hnew).push (x := x) (by simp [hxy])
  rw [length_set, update_comm hxy.symm, update_idem, ← set_append_left _ _ hlen] at hpush
  exact hpush

end Indexes

/-- `index` points at every value present in `l`; it may also point elsewhere
for values that are not. -/
def Points (index : α → Nat) (l : List (Option α)) : Prop :=
  ∀ i x, l[i]? = some (some x) → index x = i + 1

namespace Points

variable {index : α → Nat} {l : List (Option α)} {i n : Nat} {x : α} {o : Option α}

omit [DecidableEq α] in
theorem position_unique (h : Points index l) {j : Nat}
    (hi : l[i]? = some (some x)) (hj : l[j]? = some (some x)) : i = j := by
  have hxi := h i x hi
  have hxj := h j x hj
  omega

theorem update (h : Points index l) (hfree : some x ∉ l) : Points (update index x n) l := by
  intro i y hy
  have hyx : y ≠ x := by
    rintro rfl
    exact hfree (mem_of_getElem? hy)
  rw [update_of_ne hyx]
  exact h i y hy

omit [DecidableEq α] in
theorem concat (h : Points index l) (ho : ∀ x, o = some x → index x = l.length + 1) :
    Points index (l ++ [o]) := by
  intro i y hy
  rcases getElem?_concat_eq_some.mp hy with hy | ⟨rfl, hlast⟩
  · exact h i y hy
  · exact ho y hlast

omit [DecidableEq α] in
theorem set (h : Points index l) (ho : ∀ x, o = some x → index x = i + 1) :
    Points index (l.set i o) := by
  intro k y hy
  rw [getElem?_set] at hy
  split at hy
  next hik =>
    subst hik
    split at hy
    · exact ho y (some.inj hy)
    · cases hy
  next => exact h k y hy

end Points

/-- `marks` holds of exactly the values present in `l`, each of which is there
once. -/
structure Marks (marks : α → Bool) (l : List (Option α)) : Prop where
  marked : ∀ x, marks x = true ↔ some x ∈ l
  position_unique : ∀ (i j : Nat) (x : α), l[i]? = some (some x) → l[j]? = some (some x) → i = j

namespace Marks

variable {marks : α → Bool} {l : List (Option α)} {i : Nat} {x y : α}

omit [DecidableEq α] in
theorem not_mem (h : Marks marks l) (hx : marks x = false) : some x ∉ l := by
  intro hmem
  rw [(h.marked x).mpr hmem] at hx
  cases hx

omit [DecidableEq α] in
theorem concat_none (h : Marks marks l) : Marks marks (l ++ [none]) where
  marked z := by simp [h.marked z]
  position_unique i j z hi hj := by
    simp only [getElem?_concat_eq_some, reduceCtorEq, and_false, or_false] at hi hj
    exact h.position_unique i j z hi hj

theorem concat_some (h : Marks marks l) (hx : marks x = false) :
    Marks (update marks x true) (l ++ [some x]) where
  marked z := by
    by_cases hzx : z = x
    · simp [hzx]
    · simp [h.marked z, hzx]
  position_unique i j z hi hj := by
    have hfree := h.not_mem hx
    rw [getElem?_concat_eq_some, some.injEq] at hi hj
    rcases hi with hi | ⟨rfl, rfl⟩ <;> rcases hj with hj | ⟨rfl, hz⟩
    · exact h.position_unique i j z hi hj
    · exact absurd (hz ▸ mem_of_getElem? hi) hfree
    · exact absurd (mem_of_getElem? hj) hfree
    · rfl

/-- The entry at `i` is removed and its value is no longer marked. -/
theorem clear (h : Marks marks l) (hi : l[i]? = some (some x)) :
    Marks (update marks x false) (l.set i none) := by
  have hget : ∀ (k : Nat) (z : α), (l.set i none)[k]? = some (some z) ↔
      k ≠ i ∧ l[k]? = some (some z) := by
    simp [getElem?_set_eq_some (List.getElem?_eq_some_iff.mp hi).1]
  refine ⟨fun z => ?_, fun j k z hj hk => ?_⟩
  · rw [mem_iff_getElem?]
    simp only [hget]
    by_cases hzx : z = x
    · subst hzx
      rw [update_self]
      refine ⟨nofun, ?_⟩
      rintro ⟨k, hki, hk⟩
      exact absurd (h.position_unique k i z hk hi) hki
    · rw [update_of_ne hzx, h.marked z, mem_iff_getElem?]
      refine exists_congr fun k => ⟨fun hk => ⟨?_, hk⟩, fun hk => hk.2⟩
      rintro rfl
      rw [hi] at hk
      exact hzx (some.inj (some.inj hk)).symm
  · exact h.position_unique j k z ((hget j z).mp hj).2 ((hget k z).mp hk).2

/-- A value not present is put at the empty place `i` and marked. -/
theorem fill (h : Marks marks l) (hi : l[i]? = some none) (hx : marks x = false) :
    Marks (update marks x true) (l.set i (some x)) := by
  have hfree := h.not_mem hx
  have hget : ∀ (k : Nat) (z : α), (l.set i (some x))[k]? = some (some z) ↔
      (k = i ∧ z = x) ∨ l[k]? = some (some z) := by
    intro k z
    rw [getElem?_set_eq_some (List.getElem?_eq_some_iff.mp hi).1, some.injEq, eq_comm (a := x)]
    by_cases hik : k = i
    · simp [hik, hi]
    · simp [hik]
  refine ⟨fun z => ?_, fun j k z hj hk => ?_⟩
  · rw [mem_iff_getElem?]
    simp only [hget]
    by_cases hzx : z = x
    · subst hzx
      simp
    · rw [update_of_ne hzx, h.marked z, mem_iff_getElem?]
      simp [hzx]
  · rcases (hget j z).mp hj with ⟨hje, hz⟩ | hjl <;> rcases (hget k z).mp hk with ⟨hke, hz'⟩ | hkl
    · rw [hje, hke]
    · exact absurd (hz ▸ mem_of_getElem? hkl) hfree
    · exact absurd (hz' ▸ mem_of_getElem? hjl) hfree
    · exact h.position_unique j k z hjl hkl

/-- The value at `i` gives way to one not present. -/
theorem move (h : Marks marks l) (hi : l[i]? = some (some x)) (hy : marks y = false) :
    Marks (update (update marks x false) y true) (l.set i (some y)) := by
  have hlen : i < l.length := (List.getElem?_eq_some_iff.mp hi).1
  have hfill := (h.clear hi).fill (i := i) (x := y) (by simp [hlen]) (by
      by_cases hyx : y = x
      · simp [hyx]
      · rw [update_of_ne hyx, hy])
  rwa [set_set] at hfill

end Marks

/-- `chosen` lists one-based positions of `back`, and the entry of `back` at
such a position is the one-based place in `chosen`; all others are zero. -/
structure Mirror (chosen back : List Nat) : Prop where
  mirror : ∀ k i : Nat, chosen[k]? = some (i + 1) ↔ back[i]? = some (k + 1)
  zero_not_mem : 0 ∉ chosen

namespace Mirror

variable {chosen back : List Nat} {i k n : Nat}

theorem position (h : Mirror chosen back) (hn : chosen[k]? = some n) :
    ∃ i, n = i + 1 ∧ back[i]? = some (k + 1) := by
  cases n with
  | zero => exact absurd (mem_of_getElem? hn) h.zero_not_mem
  | succ i => exact ⟨i, rfl, (h.mirror k i).mp hn⟩

theorem nodup (h : Mirror chosen back) : chosen.Nodup := by
  rw [nodup_iff_getElem?_ne_getElem?]
  intro j k hjk hk heq
  obtain ⟨i, hn, hi⟩ := h.position (getElem?_eq_getElem hk)
  rw [getElem?_eq_getElem hk, hn] at heq
  have hj := (h.mirror j i).mp heq
  rw [hi] at hj
  have := some.inj hj
  omega

theorem mem_iff (h : Mirror chosen back) : i + 1 ∈ chosen ↔ ∃ b, back[i]? = some b ∧ b ≠ 0 := by
  rw [mem_iff_getElem?]
  constructor
  · rintro ⟨k, hk⟩
    exact ⟨k + 1, (h.mirror k i).mp hk, by omega⟩
  · rintro ⟨b, hb, hb0⟩
    obtain ⟨k, rfl⟩ := Nat.exists_eq_succ_of_ne_zero hb0
    exact ⟨k, (h.mirror k i).mpr hb⟩

theorem concat_zero (h : Mirror chosen back) : Mirror chosen (back ++ [0]) where
  mirror k j := by
    simp [h.mirror k j, getElem?_concat_eq_some]
  zero_not_mem := h.zero_not_mem

theorem push (h : Mirror chosen back) :
    Mirror (chosen ++ [back.length + 1]) (back ++ [chosen.length + 1]) where
  mirror k j := by
    rw [getElem?_concat_eq_some, getElem?_concat_eq_some, h.mirror k j]
    exact or_congr Iff.rfl (by omega)
  zero_not_mem := by simp [h.zero_not_mem]

/-- The last chosen entry takes the place of the one removed. -/
theorem swapRemove (h : Mirror chosen back) (hi : back[i]? = some (k + 1))
    {m : Nat} (hlast : chosen[chosen.length - 1]? = some (m + 1)) :
    Mirror (swapRemoveAt chosen k) ((back.set m (k + 1)).set i 0) := by
  have hk : chosen[k]? = some (i + 1) := (h.mirror k i).mpr hi
  have hklen : k < chosen.length := (List.getElem?_eq_some_iff.mp hk).1
  have hm := (h.mirror _ m).mp hlast
  have hmlen : m < back.length := (List.getElem?_eq_some_iff.mp hm).1
  have hilen : i < (back.set m (k + 1)).length := by
    rw [length_set]
    exact (List.getElem?_eq_some_iff.mp hi).1
  refine ⟨fun j a => ?_, fun hmem => h.zero_not_mem ((mem_swapRemoveAt h.nodup hk).mp hmem).2⟩
  rw [getElem?_swapRemoveAt hklen, getElem?_set_eq_some hilen, getElem?_set_eq_some hmlen,
    hlast, h.mirror j a]
  -- a place belongs to one entry, and an entry has one place
  have hentry : ∀ {b}, back[a]? = some (j + 1) → back[b]? = some (j + 1) → a = b := by
    intro b ha hb
    have hja := (h.mirror j a).mpr ha
    rw [(h.mirror j b).mpr hb] at hja
    exact (Nat.succ.inj (some.inj hja)).symm
  by_cases hai : a = i
  · subst hai
    rw [hi]
    simp only [some.injEq]
    have hne : m = a → k = chosen.length - 1 := by
      rintro rfl
      rw [hm] at hi
      exact (Nat.succ.inj (some.inj hi)).symm
    omega
  by_cases ham : a = m
  · subst ham
    rw [hm]
    simp only [some.injEq, and_true, true_and]
    have hne : k ≠ chosen.length - 1 := by
      rintro rfl
      rw [hk] at hlast
      exact hai (Nat.succ.inj (some.inj hlast)).symm
    omega
  · have hjk : back[a]? = some (j + 1) → j ≠ k := by
      rintro ha rfl
      exact hai (hentry ha hi)
    have hjl : back[a]? = some (j + 1) → j + 1 < chosen.length := by
      intro ha
      have hjlen := (List.getElem?_eq_some_iff.mp ((h.mirror j a).mpr ha)).1
      have hne : j ≠ chosen.length - 1 := by
        rintro rfl
        exact ham (hentry ha hm)
      omega
    simp only [hai, ham, some.injEq, Nat.add_right_cancel_iff, Ne.symm ham]
    tauto

end Mirror

end Tempo
