/-
Loops that are given a number of iterations.  A loop halts when, from some
number on, its outcome no longer depends on that number and is not the error
that marks running out of it.
-/
import Tempo.Library.Exec

namespace Tempo

universe u

variable {ε σ τ α β : Type u}

/-- From `s`, and with enough iterations, `m` has an outcome that does not
depend on their number; `e` marks too few iterations. -/
def Halts (e : ε) (m : Nat → EStateM ε σ α) (s : σ) : Prop :=
  ∃ (bound : Nat) (r : EStateM.Result ε σ α), (∀ s', r ≠ .error e s') ∧
    ∀ fuel, bound ≤ fuel → (m fuel).run s = r

namespace Halts

variable {e e' : ε} {s : σ}

theorem pure (a : α) : Halts e (fun _ => (Pure.pure a : EStateM ε σ α)) s :=
  ⟨0, .ok a s, by simp, fun _ _ => rfl⟩

theorem updates (f : σ → σ) : Halts e (fun _ => (Tempo.updates f : EStateM ε σ PUnit)) s :=
  ⟨0, .ok ⟨⟩ (f s), by simp, fun _ _ => rfl⟩

variable {m x : Nat → EStateM ε σ α} {k : Nat → α → EStateM ε σ β}

/-- A loop that spends one iteration and continues. -/
theorem succ (h : Halts e (fun fuel => m (fuel + 1)) s) : Halts e m s := by
  obtain ⟨bound, r, hr, hrun⟩ := h
  refine ⟨bound + 1, r, hr, fun fuel hfuel => ?_⟩
  obtain ⟨k, rfl⟩ : ∃ k, fuel = k + 1 := ⟨fuel - 1, by omega⟩
  exact hrun k (by omega)

theorem ite {c : Prop} [Decidable c] {y : Nat → EStateM ε σ α}
    (hx : c → Halts e x s) (hy : ¬c → Halts e y s) :
    Halts e (fun fuel => if c then x fuel else y fuel) s := by
  by_cases hc : c
  · simpa only [if_pos hc] using hx hc
  · simpa only [if_neg hc] using hy hc

theorem reads_bind {f : σ → α} (h : Halts e (fun fuel => k fuel (f s)) s) :
    Halts e (fun fuel => reads f >>= k fuel) s := h

theorem require_bind {p : Prop} [Decidable p] {k : Nat → PUnit → EStateM ε σ β} (he : e' ≠ e)
    (h : p → Halts e (fun fuel => k fuel ⟨⟩) s) :
    Halts e (fun fuel => require p e' >>= k fuel) s := by
  by_cases hp : p
  · obtain ⟨bound, r, hr, hrun⟩ := h hp
    refine ⟨bound, r, hr, fun fuel hfuel => ?_⟩
    rw [run_require_bind, if_pos hp]
    exact hrun fuel hfuel
  · refine ⟨0, .error e' s, by simp [he], fun fuel _ => ?_⟩
    rw [run_require_bind, if_neg hp]

theorem require {p : Prop} [Decidable p] (he : e' ≠ e) :
    Halts e (fun _ => (Tempo.require p e' : EStateM ε σ PUnit)) s := by
  refine ⟨0, _, fun s' => ?_, fun _ _ => run_require⟩
  split
  · simp
  · simp [he]

theorem focus {get : τ → σ} {put : τ → σ → τ} {t : τ} (h : Halts e m (get t)) :
    Halts e (fun fuel => Tempo.focus get put (m fuel)) t := by
  obtain ⟨bound, r, hr, hrun⟩ := h
  cases r with
  | ok a s =>
    refine ⟨bound, .ok a (put t s), by simp, fun fuel hfuel => ?_⟩
    rw [run_focus, hrun fuel hfuel]
  | error e1 s =>
    have hne : e1 ≠ e := fun h => hr s (by rw [h])
    refine ⟨bound, .error e1 (put t s), by simp [hne], fun fuel hfuel => ?_⟩
    rw [run_focus, hrun fuel hfuel]

/-- A halting computation followed by one that halts wherever the first can
lead. -/
theorem bind (hx : Halts e x s) (hk : ∀ a s1 fuel, Yields (x fuel) s a s1 →
      Halts e (fun fuel => k fuel a) s1) : Halts e (fun fuel => x fuel >>= k fuel) s := by
  obtain ⟨bound, r, hr, hrun⟩ := hx
  cases r with
  | ok a s1 =>
    obtain ⟨bound', r', hr', hrun'⟩ := hk a s1 bound (hrun bound (Nat.le_refl _))
    refine ⟨max bound bound', r', hr', fun fuel hfuel => ?_⟩
    rw [EStateM.run_bind, hrun fuel (by omega)]
    exact hrun' fuel (by omega)
  | error e1 s1 =>
    have hne : e1 ≠ e := fun h => hr s1 (by rw [h])
    refine ⟨bound, .error e1 s1, by simp [hne], fun fuel hfuel => ?_⟩
    rw [EStateM.run_bind, hrun fuel hfuel]

end Halts

end Tempo
