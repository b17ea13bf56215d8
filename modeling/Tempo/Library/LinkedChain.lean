/-
Lists of records in which each names the hash of the one before it.  The hash
of the last record commits to the whole list: with a hash that has no
collisions, two lists of one length with the same last hash are the same.
-/
import Mathlib.Data.List.Basic
import Mathlib.Data.List.Induction

namespace Tempo.LinkedChain

universe u v

variable {X : Type u} {H : Type v} (hash parent : X → H) (number : X → Nat)

/-- Each record names the hash of the one before it, the first one `p`. -/
def Linked : H → List X → Prop
  | _, [] => True
  | p, x :: xs => parent x = p ∧ Linked (hash x) xs

/-- The hash of the last record, or `p` if there is none. -/
def tip (p : H) (xs : List X) : H :=
  xs.foldl (fun _ x => hash x) p

/-- The records have consecutive numbers from `n` on. -/
def Numbered : Nat → List X → Prop
  | _, [] => True
  | n, x :: xs => number x = n ∧ Numbered (n + 1) xs

/-- Links lead from the record up to the one with the hash `target`. -/
def AncestorOrSelf (x : X) (target : H) : Prop :=
  ∃ above, Linked hash parent (hash x) above ∧ tip hash (hash x) above = target

variable {hash parent number} {p q : H} {n : Nat} {x : X} {xs ys : List X}

@[simp]
theorem tip_nil (p : H) : tip hash p [] = p := rfl

@[simp]
theorem tip_cons (p : H) (x : X) (xs : List X) : tip hash p (x :: xs) = tip hash (hash x) xs := rfl

theorem tip_append (p : H) (xs ys : List X) :
    tip hash p (xs ++ ys) = tip hash (tip hash p xs) ys := List.foldl_append

theorem tip_of_getLast? (p : H) (h : xs.getLast? = some x) : tip hash p xs = hash x := by
  obtain ⟨init, rfl⟩ := List.getLast?_eq_some_iff.mp h
  exact tip_append p init [x]

@[simp]
theorem linked_nil (p : H) : Linked hash parent p [] := trivial

@[simp]
theorem linked_cons : Linked hash parent p (x :: xs) ↔
    parent x = p ∧ Linked hash parent (hash x) xs := Iff.rfl

theorem linked_append : Linked hash parent p (xs ++ ys) ↔
    Linked hash parent p xs ∧ Linked hash parent (tip hash p xs) ys := by
  induction xs generalizing p with
  | nil => simp
  | cons x xs ih =>
    rw [List.cons_append, linked_cons, linked_cons, ih, and_assoc, tip_cons]

@[simp]
theorem numbered_nil (n : Nat) : Numbered number n [] := trivial

@[simp]
theorem numbered_cons : Numbered number n (x :: xs) ↔ number x = n ∧ Numbered number (n + 1) xs :=
  Iff.rfl

theorem numbered_append : Numbered number n (xs ++ ys) ↔
    Numbered number n xs ∧ Numbered number (n + xs.length) ys := by
  induction xs generalizing n with
  | nil => simp
  | cons x xs ih =>
    rw [List.cons_append, numbered_cons, numbered_cons, ih, and_assoc,
      List.length_cons, Nat.add_assoc, Nat.add_comm 1]

theorem Numbered.getElem (h : Numbered number n xs) (i : Nat)
    (hi : i < xs.length) : number xs[i] = n + i := by
  induction xs generalizing n i with
  | nil => exact absurd hi (Nat.not_lt_zero i)
  | cons x xs ih =>
    cases i with
    | zero => exact h.1
    | succ i =>
      rw [List.getElem_cons_succ, ih h.2 i (Nat.lt_of_succ_lt_succ hi)]
      omega

/-- Equal last hashes have equal lists behind them, if no two records of the
lists collide. -/
theorem Linked.eq_of_tip (hinj : ∀ x ∈ xs, ∀ y ∈ ys, hash x = hash y → x = y)
    (hxs : Linked hash parent p xs) (hys : Linked hash parent q ys)
    (hlength : xs.length = ys.length) (htip : tip hash p xs = tip hash q ys) : xs = ys ∧ p = q := by
  -- from the last records back to the first
  induction xs using List.reverseRecOn generalizing ys with
  | nil =>
    obtain rfl := List.length_eq_zero_iff.mp hlength.symm
    exact ⟨rfl, htip⟩
  | append_singleton xs x ih =>
    obtain rfl | ⟨ys, y, rfl⟩ := ys.eq_nil_or_concat'
    · simp at hlength
    · rw [linked_append] at hxs hys
      rw [tip_append, tip_append] at htip
      obtain rfl : x = y := hinj x (by simp) y (by simp) htip
      obtain ⟨rfl, hpq⟩ := ih (fun x hx y hy => hinj x (by simp [hx]) y (by simp [hy]))
        hxs.1 hys.1 (by simpa using hlength) (hxs.2.1.symm.trans hys.2.1)
      exact ⟨rfl, hpq⟩

/-- Every record of a linked list leads to its last hash. -/
theorem Linked.ancestorOrSelf (h : Linked hash parent p xs) (hx : x ∈ xs) :
    AncestorOrSelf hash parent x (tip hash p xs) := by
  obtain ⟨below, above, rfl⟩ := List.append_of_mem hx
  obtain ⟨-, -, habove⟩ := linked_append.mp h
  exact ⟨above, habove, (tip_append p below (x :: above)).symm⟩

end Tempo.LinkedChain
