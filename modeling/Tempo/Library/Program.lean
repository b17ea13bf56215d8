/-
Deterministic programs over an interface.  A program is a tree of accesses,
each with a continuation for every response, and is run by a handler of the
accesses on some state.  Two handlers that answer alike along a run drive a
program down the same branches.
-/
import Mathlib.Tactic.Common

namespace Tempo

universe u v w

/-- A program that makes accesses and continues with their responses. -/
inductive Program (Op : Type u) (Res : Type v) (α : Type w) where
  | done (a : α)
  | access (op : Op) (next : Res → Program Op Res α)

namespace Program

variable {Op Res α σ τ κ : Type}

/-- Run a program with a handler of its accesses. -/
def run (f : Op → σ → Res × σ) : Program Op Res α → σ → α × σ
  | .done a, s => (a, s)
  | .access op next, s => run f (next (f op s).1) (f op s).2

/-- What the accesses of a run emit, in order. -/
def emitted (f : Op → σ → Res × σ) (emit : Op → σ → List κ) : Program Op Res α → σ → List κ
  | .done _, _ => []
  | .access op next, s =>
    emit op s ++ emitted f emit (next (f op s).1) (f op s).2

/-- The accesses of a run with their responses. -/
def trace (f : Op → σ → Res × σ) : Program Op Res α → σ → List (Op × Res) :=
  emitted f fun op s => [(op, (f op s).1)]

@[simp]
theorem trace_access (f : Op → σ → Res × σ) (op : Op) (next : Res → Program Op Res α) (s : σ) :
    trace f (.access op next) s = (op, (f op s).1) :: trace f (next (f op s).1) (f op s).2 := rfl

/-- A relation between two runs that makes the handlers answer alike keeps
them on the same branches to the end. -/
theorem lockstep {f : Op → σ → Res × σ} {g : Op → τ → Res × τ} {R : Program Op Res α → σ → τ → Prop}
    (hstep : ∀ op next s t, R (.access op next) s t → (f op s).1 = (g op t).1 ∧
        R (next (f op s).1) (f op s).2 (g op t).2)
    {p : Program Op Res α} {s : σ} {t : τ} (h : R p s t) :
    trace f p s = trace g p t ∧ (run f p s).1 = (run g p t).1 ∧
      R (.done (run f p s).1) (run f p s).2 (run g p t).2 := by
  induction p generalizing s t with
  | done a => exact ⟨rfl, rfl, h⟩
  | access op next ih =>
    obtain ⟨hres, hnext⟩ := hstep op next s t h
    obtain ⟨htrace, hvalue, hend⟩ := ih _ hnext
    rw [hres] at htrace hvalue hend
    refine ⟨?_, ?_, ?_⟩
    · rw [trace_access, trace_access, hres, htrace]
    · rw [run, run, hres]
      exact hvalue
    · rw [run, run, hres]
      exact hend

end Program

end Tempo
