/-
Where a computation ends.  `Wp m s Q E` is the weakest precondition of `m`
at `s` for a postcondition of each outcome, with one rule per primitive and a
rule for sequences.
-/
import Tempo.Library.Exec

namespace Tempo

universe u

variable {ε σ τ α β : Type u}

/-- From `s` the computation ends in `Q` if it succeeds and in `E` if not. -/
def Wp (m : EStateM ε σ α) (s : σ) (Q : α → σ → Prop) (E : ε → σ → Prop) : Prop :=
  match m.run s with
  | .ok a s' => Q a s'
  | .error e s' => E e s'

section Rules

variable {m : EStateM ε σ α} {s : σ} {Q R : α → σ → Prop} {E F : ε → σ → Prop} {e : ε} {f : σ → σ}

theorem wp_iff :
    Wp m s Q E ↔ (∀ a s', Yields m s a s' → Q a s') ∧ ∀ e s', m.run s = .error e s' → E e s' := by
  unfold Wp Yields
  cases m.run s with
  | ok a s' => simp
  | error e s' => simp

theorem Wp.of_yields {a : α} {s' : σ} (h : Yields m s a s') (hQ : Q a s') : Wp m s Q E := by
  unfold Wp
  rw [show m.run s = .ok a s' from h]
  exact hQ

theorem Wp.mono (h : Wp m s Q E) (hQ : ∀ a s', Q a s' → R a s')
    (hE : ∀ e s', E e s' → F e s') : Wp m s R F := by
  rw [wp_iff] at h ⊢
  exact ⟨fun a s' hm => hQ a s' (h.1 a s' hm), fun e s' hm => hE e s' (h.2 e s' hm)⟩

/-- A postcondition may use that it is one. -/
theorem Wp.of_wp (h : Wp m s Q E)
    (hR : ∀ a s', Yields m s a s' → Q a s' → R a s') : Wp m s R E := by
  rw [wp_iff] at h ⊢
  exact ⟨fun a s' hm => hR a s' hm (h.1 a s' hm), h.2⟩

theorem wp_updates {Q : PUnit → σ → Prop} : Wp (updates f) s Q E ↔ Q ⟨⟩ (f s) := Iff.rfl

theorem wp_require {p : Prop} [Decidable p] {Q : PUnit → σ → Prop} :
    Wp (require p e) s Q E ↔ (p → Q ⟨⟩ s) ∧ (¬p → E e s) := by
  unfold Wp
  rw [run_require]
  by_cases hp : p <;> simp [hp]

theorem wp_ofExcept {r : Except ε α} :
    Wp (ofExcept r) s Q E ↔ (∀ a, r = .ok a → Q a s) ∧ ∀ e, r = .error e → E e s := by
  rw [wp_iff]
  cases r with
  | ok a | error e => simp [Yields, ofExcept, EStateM.run]

theorem wp_orFail {o : Option α} :
    Wp (orFail o e) s Q E ↔ (∀ a, o = some a → Q a s) ∧ (o = none → E e s) := by
  rw [wp_iff]
  cases o with
  | some a | none => simp [Yields, orFail, EStateM.run]

theorem wp_ite {c : Prop} [Decidable c] {x y : EStateM ε σ α} :
    Wp (if c then x else y) s Q E ↔ (c → Wp x s Q E) ∧ (¬c → Wp y s Q E) := by
  by_cases hc : c <;> simp [hc]

theorem wp_attempts {Q : Except ε α → σ → Prop} :
    Wp (attempts m) s Q E ↔ Wp m s (fun a => Q (.ok a)) fun e => Q (.error e) := by
  unfold Wp attempts EStateM.run
  cases hm : m s with
  | ok a s' => simp [hm]
  | error e s' => simp [hm]

theorem wp_rollback : Wp (rollback m) s Q E ↔ Wp m s Q fun e _ => E e s := by
  unfold Wp rollback EStateM.run
  cases hm : m s with
  | ok a s' => simp [hm]
  | error e s' => simp [hm]

/-! Sequences. -/

variable {k : α → EStateM ε σ β} {S : β → σ → Prop}

theorem wp_bind : Wp (m >>= k) s S E ↔ Wp m s (fun a s' => Wp (k a) s' S E) E := by
  unfold Wp
  rw [EStateM.run_bind]
  cases m.run s with
  | ok a s' => rfl
  | error e s' => rfl

theorem wp_attempts_bind {k : Except ε α → EStateM ε σ β} :
    Wp (attempts m >>= k) s S E ↔ Wp m s (fun a s' => Wp (k (.ok a)) s' S E) fun e s' =>
        Wp (k (.error e)) s' S E :=
  wp_bind.trans wp_attempts

theorem Wp.bind (hm : Wp m s Q E) (hk : ∀ a s', Q a s' → Wp (k a) s' S E) : Wp (m >>= k) s S E := by
  rw [wp_bind]
  exact hm.mono hk fun _ _ he => he

theorem wp_reads_bind {f : σ → α} : Wp (reads f >>= k) s S E ↔ Wp (k (f s)) s S E := Iff.rfl

theorem wp_updates_bind {k : PUnit → EStateM ε σ β} :
    Wp (updates f >>= k) s S E ↔ Wp (k ⟨⟩) (f s) S E := Iff.rfl

theorem wp_require_bind {p : Prop} [Decidable p] {k : PUnit → EStateM ε σ β} :
    Wp (require p e >>= k) s S E ↔ (p → Wp (k ⟨⟩) s S E) ∧ (¬p → E e s) := by
  unfold Wp
  rw [run_require_bind]
  by_cases hp : p <;> simp [hp]

/-- What follows a success may rely on it. -/
theorem Yields.wp_bind {a : α} {s' : σ} (h : Yields m s a s')
    (hk : Wp (k a) s' S E) : Wp (m >>= k) s S E :=
  (Wp.of_yields (Q := fun b t => b = a ∧ t = s') h ⟨rfl, rfl⟩).bind fun _ _ ⟨hb, ht⟩ => hb ▸ ht ▸ hk

end Rules

/-! What holds in both outcomes. -/

/-- The computation keeps `I`, whether it succeeds or not. -/
def Keeps (I : σ → Prop) (m : EStateM ε σ α) : Prop :=
  ∀ ⦃s⦄, I s → Wp m s (fun _ s' => I s') fun _ s' => I s'

section Keeps

variable {I : σ → Prop}

theorem keeps_pure (a : α) : Keeps I (pure a : EStateM ε σ α) := fun _ hs => hs

theorem keeps_reads (f : σ → α) : Keeps I (reads f : EStateM ε σ α) := fun _ hs => hs

theorem keeps_updates {f : σ → σ} (h : ∀ s, I s → I (f s)) :
    Keeps I (updates f : EStateM ε σ PUnit) := fun s hs => h s hs

theorem keeps_require (p : Prop) [Decidable p] (e : ε) :
    Keeps I (require p e : EStateM ε σ PUnit) :=
  fun _ hs => wp_require.mpr ⟨fun _ => hs, fun _ => hs⟩

theorem keeps_ofExcept (r : Except ε α) : Keeps I (ofExcept r : EStateM ε σ α) :=
  fun _ hs => wp_ofExcept.mpr ⟨fun _ _ => hs, fun _ _ => hs⟩

variable {k : α → EStateM ε σ β}

theorem Keeps.bind {x : EStateM ε σ α} (hx : Keeps I x)
    (hk : ∀ a, Keeps I (k a)) : Keeps I (x >>= k) := fun _ hs => (hx hs).bind fun a _ ha => hk a ha

theorem Keeps.ite {c : Prop} [Decidable c] {x y : EStateM ε σ α}
    (hx : Keeps I x) (hy : Keeps I y) : Keeps I (if c then x else y) := by
  split
  · exact hx
  · exact hy

variable {m : EStateM ε σ α}

theorem Keeps.attempts (h : Keeps I m) :
    Keeps I (Tempo.attempts m) := fun _ hs => wp_attempts.mpr (h hs)

theorem Keeps.rollback (h : Keeps I m) : Keeps I (Tempo.rollback m) :=
  fun _ hs => wp_rollback.mpr ((h hs).mono (fun _ _ ha => ha) fun _ _ _ => hs)

theorem Keeps.forM {f : α → EStateM ε σ PUnit} (h : ∀ a, Keeps I (f a))
    (l : List α) : Keeps I (l.forM f) := by
  induction l with
  | nil => exact keeps_pure _
  | cons a l ih => exact (h a).bind fun _ => ih

/-- What is kept, together with what is known of the errors. -/
theorem Keeps.wp (h : Keeps I m) {P : ε → Prop} (hthrows : Throws P m) {s : σ} (hs : I s) :
    Wp m s (fun _ s' => I s') fun e s' => P e ∧ I s' := by
  have hkeeps := wp_iff.mp (h hs)
  exact wp_iff.mpr ⟨hkeeps.1, fun e s' hm => ⟨hthrows hm, hkeeps.2 e s' hm⟩⟩

end Keeps

/-! Errors only. -/

section Throws

variable {P : ε → Prop} {m : EStateM ε σ α} {s : σ}

/-- Every error `m` can stop with from `s` satisfies `P`. -/
abbrev ThrowsFrom (P : ε → Prop) (m : EStateM ε σ α) (s : σ) : Prop :=
  Wp m s (fun _ _ => True) fun e _ => P e

/-- What succeeds from `s`, and what `m` can stop with from anywhere. -/
theorem Throws.wp (h : Throws P m) (s : σ) : Wp m s (fun a s' => Yields m s a s') fun e _ => P e :=
  wp_iff.mpr ⟨fun _ _ hm => hm, fun _ _ hm => h hm⟩

theorem Throws.at (h : Throws P m) (s : σ) : ThrowsFrom P m s :=
  (h.wp s).mono (fun _ _ _ => trivial) fun _ _ he => he

theorem throws_of_from (h : ∀ s, ThrowsFrom P m s) : Throws P m :=
  fun s e s' hm => (wp_iff.mp (h s)).2 e s' hm

/-- A statement under a condition, in front of the rest. -/
theorem Throws.when_bind_from {c : Prop} [Decidable c]
    {x : EStateM ε σ PUnit} {k : PUnit → EStateM ε σ β}
    (hx : Throws P x) (hk : ∀ s1, ThrowsFrom P (k ⟨⟩) s1) :
    ThrowsFrom P (if c then x >>= k else k ⟨⟩) s := by
  split
  · exact (hx.at s).bind fun _ s1 _ => hk s1
  · exact hk s

end Throws

end Tempo
