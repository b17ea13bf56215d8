/-
Keeping the largest of a sequence of offers in a sorted list of fixed length:
a new offer replaces the least one kept if it is larger.  No selection of as
many offers has a larger sum.
-/
import Mathlib.Algebra.BigOperators.Group.Multiset.Basic
import Mathlib.Algebra.Order.BigOperators.Group.Multiset
import Mathlib.Data.List.Sort

namespace Tempo

open List

universe u

variable {α : Type u} [LinearOrder α]

/-- Offer one more value. -/
def offer (best : List α) (x : α) : List α :=
  match best with
  | [] => []
  | least :: rest =>
    if least < x then (x :: rest).insertionSort (· ≤ ·) else best

/-- The best of what was seen, in order; the others are no larger. -/
structure Selected (best seen : List α) : Prop where
  sorted : best.Pairwise (· ≤ ·)
  split : ∃ dropped, (best ++ dropped).Perm seen ∧ ∀ d ∈ dropped, ∀ b ∈ best, d ≤ b

theorem Selected.start {best : List α} (h : best.Pairwise (· ≤ ·)) :
    Selected best best := ⟨h, [], by rw [append_nil], nofun⟩

theorem offer_length (best : List α) (x : α) : (offer best x).length = best.length := by
  cases best with
  | nil => rfl
  | cons least rest =>
    simp only [offer]
    split
    · rw [length_insertionSort, length_cons, length_cons]
    · rfl

theorem Selected.offer {best seen : List α} (h : Selected best seen)
    (hne : best ≠ []) (x : α) : Selected (offer best x) (x :: seen) := by
  obtain ⟨hsorted, dropped, hperm, hle⟩ := h
  cases best with
  | nil => exact absurd rfl hne
  | cons least rest =>
    have hleast : ∀ b ∈ rest, least ≤ b := (pairwise_cons.mp hsorted).1
    simp only [Tempo.offer]
    split
    · rename_i hlt
      have hsort := perm_insertionSort (· ≤ ·) (x :: rest)
      refine ⟨?_, least :: dropped, ?_, ?_⟩
      · exact pairwise_insertionSort (· ≤ ·) (x :: rest)
      · refine (hsort.append_right _).trans ?_
        refine List.Perm.trans ?_ (hperm.cons x)
        exact List.Perm.cons x perm_middle
      · intro d hd b hb
        -- what is kept is at least the least one that was kept before
        have hb' : least ≤ b := by
          rcases mem_cons.mp (hsort.mem_iff.mp hb) with rfl | hrest
          · exact hlt.le
          · exact hleast b hrest
        rcases mem_cons.mp hd with rfl | hold
        · exact hb'
        · exact (hle d hold least mem_cons_self).trans hb'
    · rename_i hge
      refine ⟨hsorted, x :: dropped, ?_, ?_⟩
      · exact perm_middle.trans (hperm.cons x)
      · intro d hd b hb
        rcases mem_cons.mp hd with rfl | hold
        · rcases mem_cons.mp hb with rfl | hrest
          · exact not_lt.mp hge
          · exact (not_lt.mp hge).trans (hleast b hrest)
        · exact hle d hold b hb

theorem foldl_offer_length (xs best : List α) : (xs.foldl offer best).length = best.length := by
  induction xs generalizing best with
  | nil => rfl
  | cons x xs ih => rw [foldl_cons, ih, offer_length]

theorem Selected.foldl {best seen : List α} (h : Selected best seen)
    (hne : best ≠ []) (xs : List α) :
    Selected (xs.foldl Tempo.offer best) (xs.reverse ++ seen) := by
  induction xs generalizing best seen with
  | nil => exact h
  | cons x xs ih =>
    rw [foldl_cons, reverse_cons, append_assoc]
    refine ih (h.offer hne x) fun hempty => hne ?_
    rw [← length_eq_zero_iff, ← offer_length best x, hempty]
    rfl

section Sum

variable [AddCommMonoid α] [IsOrderedAddMonoid α] [CanonicallyOrderedAdd α]

theorem multiset_sum_le {s t : Multiset α} (hcard : s.card ≤ t.card)
    (hle : ∀ a ∈ s, ∀ b ∈ t, a ≤ b) : s.sum ≤ t.sum := by
  induction s using Multiset.induction_on generalizing t with
  | empty => exact zero_le
  | cons a s ih =>
    rw [Multiset.card_cons] at hcard
    obtain ⟨b, hb⟩ := Multiset.card_pos_iff_exists_mem.mp (lt_of_lt_of_le (Nat.succ_pos _) hcard)
    obtain ⟨t, rfl⟩ := Multiset.exists_cons_of_mem hb
    rw [Multiset.card_cons] at hcard
    rw [Multiset.sum_cons, Multiset.sum_cons]
    refine add_le_add (hle a (Multiset.mem_cons_self a s) b hb)
      (ih (Nat.le_of_succ_le_succ hcard) fun a' ha b' hb' => ?_)
    exact hle a' (Multiset.mem_cons_of_mem ha) b' (Multiset.mem_cons_of_mem hb')

/-- What is kept has the largest sum of all selections of its size. -/
theorem Selected.sum_le {best seen chosen : List α} (h : Selected best seen)
    (hchosen : chosen.Subperm seen) (hlength : chosen.length ≤ best.length) :
    chosen.sum ≤ best.sum := by
  obtain ⟨-, dropped, hperm, hle⟩ := h
  -- exchange what was chosen and not kept for what was kept and not chosen
  have hsub : (chosen : Multiset α) ≤ best + dropped := by
    rw [Multiset.coe_add, Multiset.coe_eq_coe.mpr hperm, Multiset.coe_le]
    exact hchosen
  have hout : (chosen : Multiset α) - best ≤ dropped := by
    rw [Multiset.sub_le_iff_le_add, Multiset.add_comm]
    exact hsub
  have hsplit := Multiset.sub_add_inter (chosen : Multiset α) best
  have hsplit' := Multiset.sub_add_inter (best : Multiset α) chosen
  have hcard := congrArg Multiset.card hsplit
  have hcard' := congrArg Multiset.card hsplit'
  rw [Multiset.inter_comm] at hcard'
  simp only [Multiset.card_add, Multiset.coe_card] at hcard hcard'
  have hexchange : ((chosen : Multiset α) - best).sum ≤ ((best : Multiset α) - chosen).sum := by
    refine multiset_sum_le (by omega) fun a ha b hb => ?_
    exact hle a (Multiset.mem_of_le hout ha) b (Multiset.mem_of_le (Multiset.sub_le_self _ _) hb)
  calc chosen.sum = (chosen : Multiset α).sum := rfl
    _ = ((chosen : Multiset α) - best).sum + ((chosen : Multiset α) ∩ best).sum := by
      rw [← Multiset.sum_add, hsplit]
    _ ≤ ((best : Multiset α) - chosen).sum + ((best : Multiset α) ∩ chosen).sum := by
      rw [Multiset.inter_comm]
      exact add_le_add_left hexchange _
    _ = best.sum := by
      rw [← Multiset.sum_add, hsplit']
      rfl

end Sum

end Tempo
