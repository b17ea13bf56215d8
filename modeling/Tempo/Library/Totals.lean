/-
Totals of quantities held by the members of a finite type, and how they change
when single entries are overwritten, credited or debited.
-/
import Mathlib.Algebra.BigOperators.Ring.Finset
import Mathlib.Algebra.Order.BigOperators.Group.Finset
import Mathlib.Data.Fintype.BigOperators

namespace Tempo

universe u v

open Finset

variable {ι : Type u} {β : Type v} [DecidableEq ι]

/-- `f` with `x` added at `a`. -/
def credit (f : ι → Nat) (a : ι) (x : Nat) : ι → Nat :=
  Function.update f a (f a + x)

/-- `f` with `x` taken away at `a`. -/
def debit (f : ι → Nat) (a : ι) (x : Nat) : ι → Nat :=
  Function.update f a (f a - x)

@[simp]
theorem credit_self (f : ι → Nat) (a : ι) (x : Nat) : credit f a x a = f a + x := by
  simp [credit]

variable {a : ι} {b : ι}

theorem credit_of_ne (f : ι → Nat) (h : b ≠ a) (x : Nat) : credit f a x b = f b := by
  simp [credit, h]

@[simp]
theorem debit_self (f : ι → Nat) (a : ι) (x : Nat) : debit f a x a = f a - x := by
  simp [debit]

theorem debit_of_ne (f : ι → Nat) (h : b ≠ a) (x : Nat) : debit f a x b = f b := by
  simp [debit, h]

theorem le_credit (f : ι → Nat) (a b : ι) (x : Nat) : f b ≤ credit f a x b := by
  by_cases h : b = a
  · subst h
    simp
  · rw [credit_of_ne f h]

/-- Only the two parties of a move see their entry change. -/
theorem move_frame (f : ι → Nat) (x : Nat) {P : ι → Prop} (ha : P a) (hb : P b) (i : ι) :
    credit (debit f a x) b x i = f i ∨ P i := by
  by_cases hib : i = b
  · exact .inr (hib ▸ hb)
  by_cases hia : i = a
  · exact .inr (hia ▸ ha)
  exact .inl (by rw [credit_of_ne _ hib, debit_of_ne _ hia])

variable {x : Nat} {f : ι → Nat}

/-- What moves between other entries does not lower the one at `c`. -/
theorem le_move (f : ι → Nat) {c : ι} (b : ι)
    (h : a = c → x = 0) : f c ≤ credit (debit f a x) b x c := by
  refine le_trans ?_ (le_credit _ _ _ _)
  by_cases hac : a = c
  · rw [h hac, hac]
    simp
  · rw [debit_of_ne _ (Ne.symm hac)]

/-- The source of a move loses at most what is moved. -/
theorem le_move_add (f : ι → Nat) (a b : ι) (x : Nat) : f a ≤ credit (debit f a x) b x a + x := by
  have h := le_credit (debit f a x) b a x
  rw [debit_self] at h
  omega

/-! Bounds on totals over types that need not be finite. -/

/-- However many entries are taken together, they come to at most `b`. -/
def TotalLE (f : ι → Nat) (b : Nat) : Prop :=
  ∀ s : Finset ι, ∑ i ∈ s, f i ≤ b

theorem TotalLE.update {v b b' : Nat} (h : TotalLE f b) (hb : b + v ≤ b' + f a) :
    TotalLE (Function.update f a v) b' := by
  intro s
  have hrest : ∑ i ∈ s.erase a, Function.update f a v i = ∑ i ∈ s.erase a, f i :=
    sum_congr rfl fun i hi => Function.update_of_ne (ne_of_mem_erase hi) _ _
  have hall := h (insert a (s.erase a))
  rw [sum_insert (notMem_erase a s)] at hall
  by_cases ha : a ∈ s
  · rw [← add_sum_erase s _ ha, hrest, Function.update_self]
    omega
  · rw [erase_eq_of_notMem ha] at hrest hall
    omega

omit [DecidableEq ι] in
theorem TotalLE.mono {b b' : Nat} (h : TotalLE f b) (hb : b ≤ b') : TotalLE f b' :=
  fun s => (h s).trans hb

variable [Fintype ι]

/-- Overwriting one entry changes a weighted total by the weight of the new
entry minus that of the old one. -/
theorem sum_update (w : ι → β → Nat) (f : ι → β) (a : ι) (v : β) :
    ∑ i, w i (Function.update f a v i) + w a (f a) = ∑ i, w i (f i) + w a v := by
  rw [← add_sum_erase univ _ (mem_univ a), ← add_sum_erase univ (fun i => w i (f i)) (mem_univ a)]
  have hrest : ∑ i ∈ univ.erase a, w i (Function.update f a v i) =
      ∑ i ∈ univ.erase a, w i (f i) := by
    refine sum_congr rfl fun i hi => ?_
    rw [Function.update_of_ne (ne_of_mem_erase hi)]
  rw [hrest, Function.update_self]
  omega

theorem sum_credit (f : ι → Nat) (a : ι) (x : Nat) : ∑ i, credit f a x i = ∑ i, f i + x := by
  have h := sum_update (fun _ y => y) f a (f a + x)
  simp only [credit]
  omega

theorem sum_debit (f : ι → Nat) (hx : x ≤ f a) : ∑ i, debit f a x i + x = ∑ i, f i := by
  have h := sum_update (fun _ y => y) f a (f a - x)
  simp only [debit]
  omega

/-! Totals over the members that satisfy a predicate. -/

theorem sum_if_credit (p : ι → Prop) [DecidablePred p] (f : ι → Nat) (a : ι) (x : Nat) :
    ∑ i, (if p i then credit f a x i else 0) =
      ∑ i, (if p i then f i else 0) + if p a then x else 0 := by
  have h := sum_update (fun i y => if p i then y else 0) f a (f a + x)
  simp only [credit]
  split at h <;> simp_all only [if_true, if_false] <;> omega

theorem sum_if_debit (p : ι → Prop) [DecidablePred p] (f : ι → Nat) (hx : x ≤ f a) :
    ∑ i, (if p i then debit f a x i else 0) + (if p a then x else 0) =
      ∑ i, (if p i then f i else 0) := by
  have h := sum_update (fun i y => if p i then y else 0) f a (f a - x)
  simp only [debit]
  split at h <;> simp_all only [if_true, if_false] <;> omega

theorem sum_if_move (p : ι → Prop) [DecidablePred p] (f : ι → Nat) (b : ι) (hx : x ≤ f a) :
    ∑ i, (if p i then credit (debit f a x) b x i else 0) + (if p a then x else 0) =
      ∑ i, (if p i then f i else 0) + if p b then x else 0 := by
  have h := sum_if_debit p f hx
  rw [sum_if_credit]
  omega

omit [DecidableEq ι] in
theorem le_sum_entry (f : ι → Nat) (a : ι) : f a ≤ ∑ i, f i :=
  single_le_sum (fun _ _ => Nat.zero_le _) (mem_univ a)

/-- Moving an amount that the source holds keeps the total, also when source
and destination are the same. -/
theorem sum_move (f : ι → Nat) (b : ι) (hx : x ≤ f a) :
    ∑ i, credit (debit f a x) b x i = ∑ i, f i := by
  rw [sum_credit]
  exact sum_debit f hx

end Tempo
