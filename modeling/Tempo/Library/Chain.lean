/-
Chains of a function: following `next` from a point until a stopping point is
met.  A chain that ends visits no point twice, and redirecting one point to
the start of a chain that avoids it keeps every chain ending.
-/
import Mathlib.Data.List.Nodup
import Mathlib.Logic.Function.Iterate

namespace Tempo

universe u

variable {α : Type u} {next : α → α} {stop : α → Prop}

/-- The points met from `a` on, up to and including the first stopping
point. -/
inductive Chain (next : α → α) (stop : α → Prop) : α → List α → Prop
  | stop {a : α} (h : stop a) : Chain next stop a [a]
  | step {a : α} {l : List α} (h : ¬stop a) (rest : Chain next stop (next a) l) :
      Chain next stop a (a :: l)

/-- Following `next` from `a` meets a stopping point. -/
def Ends (next : α → α) (stop : α → Prop) (a : α) : Prop :=
  ∃ l, Chain next stop a l

namespace Chain

variable {l : List α} {a : α}

section

variable (h : Chain next stop a l)
include h

theorem unique {l' : List α} (h' : Chain next stop a l') : l = l' := by
  induction h generalizing l' with
  | stop hs =>
    cases h' with
    | stop _ => rfl
    | step hn _ => exact absurd hs hn
  | step hn _ ih =>
    cases h' with
    | stop hs => exact absurd hs hn
    | step _ rest' => rw [ih rest']

/-- Every point of a chain starts the rest of it. -/
theorem of_mem {b : α} (hb : b ∈ l) : ∃ l', Chain next stop b l' ∧ l' <:+ l := by
  induction h with
  | stop hs =>
    obtain rfl := List.mem_singleton.mp hb
    exact ⟨_, .stop hs, List.suffix_refl _⟩
  | step hn rest ih =>
    rcases List.mem_cons.mp hb with rfl | hb
    · exact ⟨_, .step hn rest, List.suffix_refl _⟩
    · obtain ⟨l', hl', hsuffix⟩ := ih hb
      exact ⟨l', hl', hsuffix.trans (List.suffix_cons _ _)⟩

/-- A repeated point would make a chain longer than itself. -/
theorem nodup : l.Nodup := by
  induction h with
  | stop _ => exact List.nodup_singleton _
  | @step a l hn rest ih =>
    refine List.nodup_cons.mpr ⟨fun ha => ?_, ih⟩
    obtain ⟨l', hl', hsuffix⟩ := rest.of_mem ha
    have hlen := hsuffix.length_le
    rw [hl'.unique (.step hn rest), List.length_cons] at hlen
    omega

theorem ends_iterate : ∃ n, stop (next^[n] a) := by
  induction h with
  | stop hs => exact ⟨0, hs⟩
  | step _ _ ih =>
    obtain ⟨n, hn⟩ := ih
    exact ⟨n + 1, hn⟩

end

variable [DecidableEq α]

theorem update_of_notMem {x y : α} (h : Chain next stop a l) (hx : x ∉ l) :
    Chain (Function.update next x y) stop a l := by
  induction h with
  | stop hs => exact .stop hs
  | step hn rest ih =>
    rw [List.mem_cons, not_or] at hx
    refine .step hn ?_
    rw [Function.update_of_ne (Ne.symm hx.1)]
    exact ih hx.2

end Chain

namespace Ends

theorem iterate {a : α} (h : Ends next stop a) : ∃ n, stop (next^[n] a) :=
  h.elim fun _ hl => hl.ends_iterate

/-- If stopping points only lead to stopping points, an ending chain never
comes back to its start. -/
theorem iterate_ne {a : α} (h : Ends next stop a) (hstop : ¬stop a)
    (habsorb : ∀ b, stop b → stop (next b)) {n : Nat} (hn : 0 < n) : next^[n] a ≠ a := by
  intro hcycle
  obtain ⟨m, hm⟩ := h.iterate
  have hafter : ∀ k, stop (next^[k + m] a) := by
    intro k
    induction k with
    | zero => rwa [Nat.zero_add]
    | succ k ih =>
      rw [Nat.add_right_comm, Function.iterate_succ_apply']
      exact habsorb _ ih
  have hback : next^[n * m] a = a := by
    rw [Function.iterate_mul]
    exact Function.iterate_fixed hcycle m
  have hlate : n * m = (n - 1) * m + m := by
    rw [← Nat.succ_mul, Nat.succ_eq_add_one, Nat.sub_add_cancel hn]
  rw [hlate] at hback
  exact hstop (hback ▸ hafter ((n - 1) * m))

variable [DecidableEq α]

/-- Redirecting `x` to `y` keeps chains ending if the chain of `y` avoids
`x`. -/
theorem update {a x y : α} {l : List α} (h : Ends next stop a)
    (hy : Chain next stop y l) (hx : x ∉ l) : Ends (Function.update next x y) stop a := by
  obtain ⟨m, hm⟩ := h
  induction hm with
  | stop hs => exact ⟨_, .stop hs⟩
  | @step a m hn rest ih =>
    by_cases hax : a = x
    · subst hax
      refine ⟨a :: l, .step hn ?_⟩
      rw [Function.update_self]
      exact hy.update_of_notMem hx
    · obtain ⟨m', hm'⟩ := ih
      refine ⟨a :: m', .step hn ?_⟩
      rwa [Function.update_of_ne hax]

end Ends

end Tempo
