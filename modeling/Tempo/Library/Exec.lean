/-
State-and-error computations and what a successful run of one has done.
`EStateM` keeps the state reached when a computation throws, as an interpreter
without implicit rollback does.  `Yields` is the big-step relation of
successful runs, with one inversion rule per primitive.
-/
import Mathlib.Logic.Relation
import Mathlib.Tactic.Common

namespace Tempo

open Function EStateM

universe u

variable {ε σ τ α β : Type u}

/-- Read a projection of the state. -/
def reads (f : σ → α) : EStateM ε σ α :=
  fun s => .ok (f s) s

/-- Replace the state by its image under `f`. -/
def updates (f : σ → σ) : EStateM ε σ PUnit :=
  fun s => .ok ⟨⟩ (f s)

/-- Stop with `e`, keeping the state reached so far. -/
def fails (e : ε) : EStateM ε σ α :=
  fun s => .error e s

/-- Continue only when `p` holds. -/
def require (p : Prop) [Decidable p] (e : ε) : EStateM ε σ PUnit :=
  fun s => if p then .ok ⟨⟩ s else .error e s

/-- Continue with the value of `o`, or stop with `e` when there is none. -/
def orFail (o : Option α) (e : ε) : EStateM ε σ α :=
  fun s => match o with
    | some a => .ok a s
    | none => .error e s

/-- Run an already decided outcome, leaving the state alone. -/
def ofExcept (r : Except ε α) : EStateM ε σ α :=
  fun s => match r with
    | .ok a => .ok a s
    | .error e => .error e s

/-- Run `m` on a component of a larger state; `put` writes the component back
in both outcomes. -/
def focus (get : τ → σ) (put : τ → σ → τ) (m : EStateM ε σ α) : EStateM ε τ α :=
  fun t => match m (get t) with
    | .ok a s => .ok a (put t s)
    | .error e s => .error e (put t s)

/-- Run `m`, undoing its writes when it throws. -/
def rollback (m : EStateM ε σ α) : EStateM ε σ α :=
  fun s => match m s with
    | .ok a s' => .ok a s'
    | .error e _ => .error e s

/-- Run, with a failure as a value; what was written before it stays. -/
def attempts (m : EStateM ε σ α) : EStateM ε σ (Except ε α) := fun s =>
  match m s with
  | .ok a s' => .ok (.ok a) s'
  | .error e s' => .ok (.error e) s'

/-- Run, with every error replaced by one. -/
def failsWith (e : ε) (m : EStateM ε σ α) : EStateM ε σ α :=
  m.adaptExcept fun _ => e

/-- From `s` the computation succeeds with value `a` in state `s'`. -/
def Yields (m : EStateM ε σ α) (s : σ) (a : α) (s' : σ) : Prop :=
  m.run s = .ok a s'

variable {m x y : EStateM ε σ α} {s s' : σ} {a : α} {b : β}
  {f k : α → EStateM ε σ β} {e : ε} {p c : Prop}
  {s₁ : σ} {u : PUnit} {o : Option α} {get : τ → σ} {put : τ → σ → τ}
  {l : List α} {r : Except ε α} {I : σ → Prop} {g : α → β}

theorem Yields.det {s2 : σ} {b : α} (h1 : Yields m s a s₁)
    (h2 : Yields m s b s2) : a = b ∧ s₁ = s2 := by
  unfold Yields at h1 h2
  rw [h1] at h2
  cases h2
  exact ⟨rfl, rfl⟩

@[simp]
theorem yields_bind : Yields (x >>= f) s b s' ↔ ∃ a s₁, Yields x s a s₁ ∧ Yields (f a) s₁ b s' := by
  unfold Yields
  rw [run_bind]
  cases x.run s with
  | ok a s₁ => simp
  | error e s₁ => simp

protected theorem Yields.bind (h : Yields (x >>= f) s b s') :
    ∃ a s₁, Yields x s a s₁ ∧ Yields (f a) s₁ b s' := yields_bind.mp h

theorem Yields.run_bind (hx : Yields x s a s₁) : (x >>= f).run s = (f a).run s₁ := by
  rw [EStateM.run_bind, show x.run s = .ok a s₁ from hx]

/-- What follows a computation whose outcome is known. -/
theorem Yields.bind_iff (hx : Yields x s a s₁) :
    Yields (x >>= f) s b s' ↔ Yields (f a) s₁ b s' := by
  rw [yields_bind]
  constructor
  · rintro ⟨a', s2, hx', hf⟩
    obtain ⟨rfl, rfl⟩ := hx.det hx'
    exact hf
  · exact fun hf => ⟨a, s₁, hx, hf⟩

@[simp]
theorem yields_pure {b : α} : Yields (pure a : EStateM ε σ α) s b s' ↔ a = b ∧ s = s' := by
  simp [Yields]

protected theorem Yields.pure {b : α} (h : Yields (pure a : EStateM ε σ α) s b s') :
    a = b ∧ s = s' := yields_pure.mp h

/-- A result that is only wrapped up, or dropped. -/
theorem Yields.of_bind_pure (h : Yields (x >>= fun a => pure (g a)) s b s') :
    ∃ a, Yields x s a s' := by
  obtain ⟨a, s₁, hx, hdone⟩ := h.bind
  obtain ⟨-, rfl⟩ := hdone.pure
  exact ⟨a, hx⟩

@[simp]
theorem yields_reads {f : σ → α} : Yields (reads f : EStateM ε σ α) s a s' ↔ f s = a ∧ s = s' := by
  simp [Yields, reads, run]

@[simp]
theorem yields_updates {f : σ → σ} : Yields (updates f : EStateM ε σ PUnit) s u s' ↔ f s = s' := by
  simp [Yields, updates, run]

protected theorem Yields.updates {f : σ → σ} (h : Yields (updates f : EStateM ε σ PUnit) s u s') :
    f s = s' := yields_updates.mp h

@[simp]
theorem yields_fails : Yields (fails e : EStateM ε σ α) s a s' ↔ False := by
  simp [Yields, fails, run]

@[simp]
theorem yields_require [Decidable p] :
    Yields (require p e : EStateM ε σ PUnit) s u s' ↔ p ∧ s = s' := by
  by_cases hp : p <;> simp [Yields, require, run, hp]

@[simp]
theorem yields_orFail : Yields (orFail o e : EStateM ε σ α) s a s' ↔ o = some a ∧ s = s' := by
  cases o <;> simp [Yields, orFail, run]

@[simp]
theorem yields_ofExcept : Yields (ofExcept r : EStateM ε σ α) s a s' ↔ r = .ok a ∧ s = s' := by
  cases r <;> simp [Yields, ofExcept, run]

@[simp]
theorem yields_ite [Decidable c] :
    Yields (if c then x else y) s a s' ↔ (c ∧ Yields x s a s') ∨ (¬c ∧ Yields y s a s') := by
  by_cases hc : c <;> simp [hc]

@[simp]
theorem yields_rollback : Yields (rollback m) s a s' ↔ Yields m s a s' := by
  change (match m s with
    | .ok a s' => EStateM.Result.ok a s'
    | .error e _ => .error e s) = _ ↔ m s = _
  cases m s <;> simp

theorem yields_attempts_ok : Yields (attempts m) s (.ok a) s' ↔ Yields m s a s' := by
  unfold Yields attempts run
  cases hm : m s with
  | ok b t => simp [hm]
  | error e t => simp [hm]

theorem yields_attempts_error : Yields (attempts m) s (.error e) s' ↔ m.run s = .error e s' := by
  unfold Yields attempts run
  cases hm : m s with
  | ok b t => simp [hm]
  | error e' t => simp [hm]

/-- A caught call either went through or changed nothing. -/
theorem yields_caught {outcome : Except ε α} (h : Yields (attempts (rollback m)) s outcome s') :
    (∃ a, outcome = .ok a ∧ Yields m s a s') ∨ (∃ e, outcome = .error e) ∧ s' = s := by
  cases outcome with
  | ok a => exact .inl ⟨a, rfl, yields_rollback.mp (yields_attempts_ok.mp h)⟩
  | error e =>
    refine .inr ⟨⟨e, rfl⟩, ?_⟩
    have hrun := yields_attempts_error.mp h
    unfold rollback run at hrun
    cases hm : m s with
    | ok a t => simp [hm] at hrun
    | error e' t =>
      simp only [hm, EStateM.Result.error.injEq] at hrun
      exact hrun.2.symm

theorem yields_failsWith : Yields (failsWith e m) s a s' ↔ Yields m s a s' := by
  unfold Yields failsWith adaptExcept run
  cases hm : m s with
  | ok b t => simp [hm]
  | error e' t => simp [hm]

theorem yields_focus {t t' : τ} :
    Yields (focus get put m) t a t' ↔ ∃ s, Yields m (get t) a s ∧ put t s = t' := by
  change (match m (get t) with
    | .ok a s => EStateM.Result.ok a (put t s)
    | .error e s => .error e (put t s)) = _ ↔ ∃ s, m (get t) = _ ∧ _
  cases m (get t) with
  | ok b s =>
    simp only [EStateM.Result.ok.injEq]
    constructor
    · rintro ⟨rfl, rfl⟩
      exact ⟨s, ⟨rfl, rfl⟩, rfl⟩
    · rintro ⟨s', ⟨rfl, rfl⟩, rfl⟩
      exact ⟨rfl, rfl⟩
  | error e s => simp

protected theorem Yields.focus {t t' : τ} (h : Yields (focus get put m) t a t') :
    ∃ s, Yields m (get t) a s ∧ put t s = t' := yields_focus.mp h

/-! The same rules for a primitive in front of a continuation; they pass its
value and state on without naming them. -/

@[simp high]
theorem yields_pure_bind : Yields (pure a >>= k) s b s' ↔ Yields (k a) s b s' := by
  simp

@[simp high]
theorem yields_reads_bind {f : σ → α} :
    Yields (reads f >>= k) s b s' ↔ Yields (k (f s)) s b s' := Iff.rfl

@[simp high]
theorem yields_updates_bind {f : σ → σ} {k : PUnit → EStateM ε σ β} :
    Yields (updates f >>= k) s b s' ↔ Yields (k ⟨⟩) (f s) b s' := Iff.rfl

@[simp high]
theorem yields_require_bind [Decidable p] {k : PUnit → EStateM ε σ β} :
    Yields (require p e >>= k) s b s' ↔ p ∧ Yields (k ⟨⟩) s b s' := by
  rw [yields_bind]
  constructor
  · rintro ⟨⟨⟩, s₁, h, hk⟩
    obtain ⟨hp, rfl⟩ := yields_require.mp h
    exact ⟨hp, hk⟩
  · rintro ⟨hp, hk⟩
    exact ⟨⟨⟩, s, yields_require.mpr ⟨hp, rfl⟩, hk⟩

@[simp high]
theorem yields_orFail_bind :
    Yields (orFail o e >>= k) s b s' ↔ ∃ a, o = some a ∧ Yields (k a) s b s' := by
  rw [yields_bind]
  constructor
  · rintro ⟨a, s₁, h, hk⟩
    obtain ⟨ha, rfl⟩ := yields_orFail.mp h
    exact ⟨a, ha, hk⟩
  · rintro ⟨a, ha, hk⟩
    exact ⟨a, s, yields_orFail.mpr ⟨ha, rfl⟩, hk⟩

@[simp high]
theorem yields_ofExcept_bind :
    Yields (ofExcept r >>= k) s b s' ↔ ∃ a, r = .ok a ∧ Yields (k a) s b s' := by
  rw [yields_bind]
  constructor
  · rintro ⟨a, s₁, h, hk⟩
    obtain ⟨ha, rfl⟩ := yields_ofExcept.mp h
    exact ⟨a, ha, hk⟩
  · rintro ⟨a, ha, hk⟩
    exact ⟨a, s, yields_ofExcept.mpr ⟨ha, rfl⟩, hk⟩

/-- The rules of the primitives together, for `simp only`. -/
theorem yields_steps : type_of% @yields_pure.{u} ∧ type_of% @yields_pure_bind.{u} ∧
      type_of% @yields_reads.{u} ∧ type_of% @yields_reads_bind.{u} ∧
      type_of% @yields_updates.{u} ∧ type_of% @yields_updates_bind.{u} ∧
      type_of% @yields_require.{u} ∧ type_of% @yields_require_bind.{u} ∧
      type_of% @yields_orFail.{u} ∧ type_of% @yields_orFail_bind.{u} ∧
      type_of% @yields_ofExcept.{u} ∧ type_of% @yields_ofExcept_bind.{u} :=
  ⟨yields_pure, yields_pure_bind, yields_reads, yields_reads_bind, yields_updates,
    yields_updates_bind, yields_require, yields_require_bind, yields_orFail, yields_orFail_bind,
    yields_ofExcept, yields_ofExcept_bind⟩

/-- A statement executed under a condition, in front of the rest. -/
theorem yields_when_bind [Decidable c] {x : EStateM ε σ PUnit} {k : PUnit → EStateM ε σ β} :
    Yields (if c then x >>= k else k ⟨⟩) s b s' ↔ ∃ s₁, Yields (if c then x else pure ⟨⟩) s ⟨⟩ s₁ ∧
        Yields (k ⟨⟩) s₁ b s' := by
  by_cases hc : c
  · simp only [if_pos hc, yields_bind]
    constructor
    · rintro ⟨⟨⟩, s₁, hx, hk⟩
      exact ⟨s₁, hx, hk⟩
    · rintro ⟨s₁, hx, hk⟩
      exact ⟨⟨⟩, s₁, hx, hk⟩
  · simp [if_neg hc]

/-- The same for two statements under a condition. -/
theorem yields_when_bind_bind [Decidable c] {y : α → EStateM ε σ PUnit}
    {k : PUnit → EStateM ε σ β} :
    Yields (if c then x >>= fun a => y a >>= k else k ⟨⟩) s b s' ↔
      ∃ s₁, Yields (if c then x >>= y else pure ⟨⟩) s ⟨⟩ s₁ ∧ Yields (k ⟨⟩) s₁ b s' := by
  rw [← yields_when_bind, bind_assoc]

/-- A computation that, when it succeeds, has written nothing. -/
def ReadOnly (m : EStateM ε σ α) : Prop :=
  ∀ ⦃s a s'⦄, Yields m s a s' → s' = s

protected theorem ReadOnly.pure (a : α) : ReadOnly (pure a : EStateM ε σ α) := by
  intro s b s' h
  exact (h.pure).2.symm

protected theorem ReadOnly.reads (f : σ → α) : ReadOnly (reads f : EStateM ε σ α) := by
  intro s b s' h
  exact (yields_reads.mp h).2.symm

protected theorem ReadOnly.require (p : Prop) [Decidable p] (e : ε) :
    ReadOnly (require p e : EStateM ε σ PUnit) := by
  intro s b s' h
  exact (yields_require.mp h).2.symm

protected theorem ReadOnly.orFail (o : Option α) (e : ε) :
    ReadOnly (orFail o e : EStateM ε σ α) := by
  intro s b s' h
  exact (yields_orFail.mp h).2.symm

protected theorem ReadOnly.ofExcept (r : Except ε α) : ReadOnly (ofExcept r : EStateM ε σ α) := by
  intro s b s' h
  exact (yields_ofExcept.mp h).2.symm

theorem ReadOnly.bind (hx : ReadOnly x) (hf : ∀ a, ReadOnly (f a)) : ReadOnly (x >>= f) := by
  intro s b s' h
  obtain ⟨a, s₁, h1, h2⟩ := h.bind
  rw [hf a h2, hx h1]

theorem ReadOnly.ite [Decidable c] (hx : ReadOnly x)
    (hy : ReadOnly y) : ReadOnly (if c then x else y) := by
  split
  · exact hx
  · exact hy

theorem ReadOnly.focus (hput : ∀ t, put t (get t) = t) (hm : ReadOnly m) :
    ReadOnly (Tempo.focus get put m) := by
  intro t a t' h
  obtain ⟨s, hs, rfl⟩ := h.focus
  rw [hm hs, hput]

theorem ReadOnly.failsWith (h : ReadOnly m) (e : ε) :
    ReadOnly (Tempo.failsWith e m) := fun _ _ _ hm => h (yields_failsWith.mp hm)

/-- A check in front of a continuation is passed in the same state. -/
theorem ReadOnly.yields_bind (hx : ReadOnly x) (h : Yields (x >>= f) s b s') :
    ∃ a, Yields x s a s ∧ Yields (f a) s b s' := by
  obtain ⟨a, s₁, h1, h2⟩ := h.bind
  obtain rfl := hx h1
  exact ⟨a, h1, h2⟩

/-- The rest behind a check. -/
theorem Yields.skip {x : EStateM ε σ PUnit} {k : PUnit → EStateM ε σ β}
    (h : Yields (x >>= k) s b s') (hx : ReadOnly x) : Yields (k ⟨⟩) s b s' := by
  obtain ⟨⟨⟩, -, hk⟩ := hx.yields_bind h
  exact hk

/-! Parts of the state. -/

/-- A successful run maps the part `f` of the state by `F`. -/
def Transforms {γ : Type u} (f : σ → γ) (F : γ → γ) (m : EStateM ε σ α) : Prop :=
  ∀ ⦃s a s'⦄, Yields m s a s' → f s' = F (f s)

/-- A successful run leaves the part `f` of the state as it was. -/
abbrev Preserves {γ : Type u} (f : σ → γ) (m : EStateM ε σ α) : Prop :=
  Transforms f id m

section Transforms

variable {γ : Type u} {f : σ → γ} {F G : γ → γ}

theorem ReadOnly.preserves (h : ReadOnly m) : Preserves f m := by
  intro s a s' hm
  rw [h hm]
  rfl

theorem transforms_updates {g : σ → σ} (h : ∀ s, f (g s) = F (f s)) :
    Transforms f F (updates g : EStateM ε σ PUnit) := by
  intro s a s' hm
  rw [← hm.updates, h]

theorem Preserves.bind
    (hx : Preserves f x) (hk : ∀ a, Transforms f F (k a)) : Transforms f F (x >>= k) := by
  intro s b s' hm
  obtain ⟨a, s₁, h1, h2⟩ := hm.bind
  rw [hk a h2, hx h1]
  rfl

theorem Transforms.bind
    (hx : Transforms f F x) (hk : ∀ a, Preserves f (k a)) : Transforms f F (x >>= k) := by
  intro s b s' hm
  obtain ⟨a, s₁, h1, h2⟩ := hm.bind
  rw [hk a h2, hx h1]
  rfl

theorem Transforms.ite [Decidable c]
    (hx : Transforms f F x) (hy : Transforms f F y) : Transforms f F (if c then x else y) := by
  split
  · exact hx
  · exact hy

end Transforms

/-! Evaluation from the left, for computations whose failures matter too. -/

theorem run_require [Decidable p] : (require p e : EStateM ε σ PUnit).run s =
      if p then .ok ⟨⟩ s else .error e s :=
  rfl

theorem run_reads_bind {f : σ → α} : (reads f >>= k).run s = (k (f s)).run s := rfl

theorem run_require_bind [Decidable p] {k : PUnit → EStateM ε σ β} :
    (require p e >>= k).run s = if p then (k ⟨⟩).run s else .error e s := by
  rw [run_bind, run_require]
  by_cases hp : p <;> simp [hp]

theorem run_focus {t : τ} : (focus get put m).run t = match m.run (get t) with
      | .ok a s => .ok a (put t s)
      | .error e s => .error e (put t s) :=
  rfl

theorem run_ite [Decidable c] : (if c then x else y).run s = if c then x.run s else y.run s := by
  split <;> rfl

/-! Computations that do not fail. -/

/-- From `s` the computation succeeds. -/
def Runs (m : EStateM ε σ α) (s : σ) : Prop :=
  ∃ a s', Yields m s a s'

theorem runs_pure : Runs (pure a : EStateM ε σ α) s := ⟨a, s, yields_pure.mpr ⟨rfl, rfl⟩⟩

theorem runs_updates {f : σ → σ} :
    Runs (updates f : EStateM ε σ PUnit) s := ⟨⟨⟩, f s, yields_updates.mpr rfl⟩

theorem Yields.runs_bind (hx : Yields x s a s₁) (hk : Runs (k a) s₁) : Runs (x >>= k) s := by
  obtain ⟨b, s', hk⟩ := hk
  exact ⟨b, s', yields_bind.mpr ⟨a, s₁, hx, hk⟩⟩

theorem runs_reads_bind {f : σ → α} : Runs (reads f >>= k) s ↔ Runs (k (f s)) s := Iff.rfl

theorem runs_updates_bind {f : σ → σ} {k : PUnit → EStateM ε σ β} :
    Runs (updates f >>= k) s ↔ Runs (k ⟨⟩) (f s) := Iff.rfl

theorem runs_ite [Decidable c] :
    Runs (if c then x else y) s ↔ (c → Runs x s) ∧ (¬c → Runs y s) := by
  by_cases hc : c <;> simp [hc]

theorem runs_require_bind [Decidable p] {k : PUnit → EStateM ε σ β} :
    Runs (require p e >>= k) s ↔ p ∧ Runs (k ⟨⟩) s := by
  simp only [Runs, yields_require_bind, exists_and_left]

theorem runs_orFail_bind : Runs (orFail o e >>= k) s ↔ ∃ a, o = some a ∧ Runs (k a) s := by
  simp only [Runs, yields_orFail_bind]
  constructor
  · rintro ⟨b, s', a, ha, h⟩
    exact ⟨a, ha, b, s', h⟩
  · rintro ⟨a, ha, b, s', h⟩
    exact ⟨b, s', a, ha, h⟩

/-! Loops over a list. -/

/-- A loop whose passes read and change nothing. -/
theorem yields_mapM (h : ∀ a ∈ l, Yields (f a) s (g a) s) : Yields (l.mapM f) s (l.map g) s := by
  induction l with
  | nil => exact yields_pure.mpr ⟨rfl, rfl⟩
  | cons a l ih =>
    rw [List.mapM_cons]
    refine yields_bind.mpr ⟨g a, s, h a (.head _), ?_⟩
    refine yields_bind.mpr ⟨l.map g, s, ih fun b hb => h b (.tail _ hb), ?_⟩
    exact yields_pure.mpr ⟨rfl, rfl⟩

/-- A loop runs to its end when every pass does; `I` speaks of the passes
still to come. -/
theorem exists_yields_forM {f : α → EStateM ε σ PUnit} {I : List α → σ → Prop}
    (hstep : ∀ a rest s, I (a :: rest) s → ∃ s', Yields (f a) s ⟨⟩ s' ∧ I rest s') (h : I l s) :
    ∃ s', Yields (l.forM f) s ⟨⟩ s' ∧ I [] s' := by
  induction l generalizing s with
  | nil => exact ⟨s, yields_pure.mpr ⟨rfl, rfl⟩, h⟩
  | cons a l ih =>
    obtain ⟨s₁, hfirst, h1⟩ := hstep a l s h
    obtain ⟨s2, hrest, h2⟩ := ih h1
    exact ⟨s2, yields_bind.mpr ⟨⟨⟩, s₁, hfirst, hrest⟩, h2⟩

/-- Blanking the nodes of a list of keys blanks a map whose other nodes are
blank; `w` is the state around the map. -/
theorem yields_forM_blank [DecidableEq α] {f : α → EStateM ε σ PUnit} {w : (α → β) → σ}
    {P : β → Prop} {blank : β} (hblank : P blank) (hstep : ∀ a m, P (m a) →
      Yields (f a) (w m) ⟨⟩ (w (update m a blank)))
    {m : α → β} (hm : ∀ a, P (m a)) (habsent : ∀ a, a ∉ l → m a = blank) :
    Yields (l.forM f) (w m) ⟨⟩ (w fun _ => blank) := by
  induction l generalizing m with
  | nil =>
    obtain rfl : m = fun _ => blank := funext fun a => habsent a List.not_mem_nil
    exact yields_pure.mpr ⟨rfl, rfl⟩
  | cons first rest ih =>
    refine yields_bind.mpr ⟨⟨⟩, _, hstep first m (hm first), ih ?_ ?_⟩
    · exact (forall_update_iff _ fun _ => P).mpr ⟨hblank, fun a _ => hm a⟩
    · exact (forall_update_iff _ fun a r => a ∉ rest → r = blank).mpr
        ⟨fun _ => rfl, fun a hne hout => habsent a (by simp [hne, hout])⟩

/-- What every successful pass of a loop keeps, the loop keeps. -/
theorem Yields.forM_invariant {f : α → EStateM ε σ PUnit}
    (hstep : ∀ a ∈ l, ∀ t t', I t → Yields (f a) t ⟨⟩ t' → I t')
    (h : Yields (l.forM f) s u s') (hs : I s) : I s' := by
  induction l generalizing s with
  | nil => exact (h.pure).2 ▸ hs
  | cons a l ih =>
    obtain ⟨⟨⟩, s₁, hfirst, hrest⟩ := h.bind
    exact ih (fun b hb => hstep b (.tail _ hb)) hrest (hstep a (.head _) s s₁ hs hfirst)

/-! The errors a computation can stop with. -/

/-- Every error `m` can stop with satisfies `P`. -/
def Throws (P : ε → Prop) (m : EStateM ε σ α) : Prop :=
  ∀ ⦃s e s'⦄, m.run s = .error e s' → P e

section Throws

variable {P : ε → Prop}

protected theorem Throws.pure (a : α) : Throws P (pure a : EStateM ε σ α) := by
  intro s e s' h
  cases h

protected theorem Throws.reads (f : σ → α) : Throws P (reads f : EStateM ε σ α) := by
  intro s e s' h
  cases h

protected theorem Throws.updates (f : σ → σ) : Throws P (updates f : EStateM ε σ PUnit) := by
  intro s e s' h
  cases h

protected theorem Throws.require (p : Prop) [Decidable p] (he : P e) :
    Throws P (require p e : EStateM ε σ PUnit) := by
  intro s e' s' h
  rw [run_require] at h
  split at h
  · cases h
  · cases h
    exact he

protected theorem Throws.orFail (o : Option α) (he : P e) :
    Throws P (orFail o e : EStateM ε σ α) := by
  intro s e' s' h
  cases o with
  | none =>
    cases h
    exact he
  | some a => cases h

protected theorem Throws.ofExcept {r : Except ε α} (hr : ∀ e, r = .error e → P e) :
    Throws P (ofExcept r : EStateM ε σ α) := by
  intro s e' s' h
  cases r with
  | error e =>
    cases h
    exact hr _ rfl
  | ok a => cases h

theorem Throws.bind (hx : Throws P x) (hf : ∀ a, Throws P (f a)) : Throws P (x >>= f) := by
  intro s e s' h
  rw [run_bind] at h
  cases hm : x.run s with
  | ok a s₁ =>
    rw [hm] at h
    exact hf a h
  | error e1 s₁ =>
    rw [hm] at h
    cases h
    exact hx hm

theorem Throws.ite [Decidable c]
    (hx : Throws P x) (hy : Throws P y) : Throws P (if c then x else y) := by
  split
  · exact hx
  · exact hy

theorem Throws.focus (hm : Throws P m) : Throws P (Tempo.focus get put m) := by
  intro t e t' h
  rw [run_focus] at h
  cases hrun : m.run (get t) with
  | ok a s =>
    rw [hrun] at h
    cases h
  | error e1 s =>
    rw [hrun] at h
    cases h
    exact hm hrun

protected theorem Throws.attempts (m : EStateM ε σ α) : Throws P (attempts m) := by
  intro s e s' h
  unfold attempts run at h
  cases hm : m s with
  | ok a t => simp [hm] at h
  | error e' t => simp [hm] at h

theorem Throws.runs (h : Throws (fun _ => False) m) (s : σ) : Runs m s := by
  cases hm : m.run s with
  | ok a s' => exact ⟨a, s', hm⟩
  | error e s' => exact (h hm).elim

end Throws

/-! Running a computation to see where it ends. -/

def succeeds (m : EStateM ε σ α) (s : σ) : Bool :=
  match m.run s with
  | .ok _ _ => true
  | .error _ _ => false

def finalState (m : EStateM ε σ α) (s : σ) : σ :=
  match m.run s with
  | .ok _ s' => s'
  | .error _ s' => s'

@[simp]
theorem finalState_reads_bind (f : σ → α) (k : α → EStateM ε σ β) (s : σ) :
    finalState (reads f >>= k) s = finalState (k (f s)) s := rfl

@[simp]
theorem finalState_require_bind (p : Prop) [Decidable p] (e : ε)
    (k : PUnit → EStateM ε σ β) (s : σ) :
    finalState (require p e >>= k) s = if p then finalState (k ⟨⟩) s else s := by
  change (match (EStateM.bind (require p e) k) s with
    | .ok _ s' => s'
    | .error _ s' => s') = _
  unfold EStateM.bind require
  by_cases hp : p
  · simp only [hp, ↓reduceIte]
    rfl
  · simp [hp, ↓reduceIte]

theorem Yields.finalState_eq (h : Yields m s a s') : finalState m s = s' := by
  rw [finalState, h]

theorem exists_yields_finalState
    (h : succeeds m s = true) : ∃ a, Yields m s a (finalState m s) := by
  unfold succeeds at h
  unfold Yields finalState
  cases hm : m.run s with
  | ok a s' => exact ⟨a, rfl⟩
  | error e s' => simp [hm] at h

theorem yields_finalState {m : EStateM ε σ PUnit}
    (h : succeeds m s = true) : Yields m s ⟨⟩ (finalState m s) :=
  (exists_yields_finalState h).choose_spec

theorem Runs.yields_finalState {m : EStateM ε σ PUnit}
    (h : Runs m s) : Yields m s ⟨⟩ (finalState m s) := by
  obtain ⟨⟨⟩, s', hm⟩ := h
  have hfinal : finalState m s = s' := by
    rw [finalState, hm]
  rwa [hfinal]

/-- A call undone on failure went through or changed nothing. -/
theorem finalState_rollback_cases (m : EStateM ε σ α) (s : σ) :
    (∃ a, Yields m s a (finalState (rollback m) s)) ∨ finalState (rollback m) s = s := by
  unfold Yields finalState rollback run
  cases hm : m s with
  | ok a s' => exact .inl ⟨a, by simp [hm]⟩
  | error e s' => exact .inr (by simp [hm])

/-- What every step preserves holds after any number of them. -/
theorem run_invariant {R : σ → σ → Prop} (hstep : ∀ ⦃s s'⦄, I s → R s s' → I s')
    (hrun : Relation.ReflTransGen R s s') (h : I s) : I s' := by
  induction hrun with
  | refl => exact h
  | tail _ hlast ih => exact hstep ih hlast

/-- A pure sequence succeeds when both parts do. -/
theorem except_bind_eq_ok {x : Except ε α} {f : α → Except ε β} :
    (x >>= f) = .ok b ↔ ∃ a, x = .ok a ∧ f a = .ok b := by
  cases x with
  | error e =>
    constructor
    · intro h
      cases h
    · rintro ⟨a, h, -⟩
      cases h
  | ok a =>
    constructor
    · intro h
      exact ⟨a, rfl, h⟩
    · rintro ⟨a', h, hf⟩
      cases h
      exact hf

/-- A check that fails on a condition. -/
theorem except_ite_eq_ok [Decidable p] {x : Except ε α} :
    (if p then .error e else x) = .ok a ↔ ¬p ∧ x = .ok a := by
  by_cases hp : p <;> simp [hp]

/-- A pure map over a list succeeds entry by entry. -/
theorem forall₂_of_mapM_ok {f : α → Except ε β} {r : List β}
    (h : l.mapM f = .ok r) : List.Forall₂ (fun a b => f a = .ok b) l r := by
  induction l generalizing r with
  | nil =>
    cases h
    exact .nil
  | cons a l ih =>
    rw [List.mapM_cons] at h
    obtain ⟨b, hb, h⟩ := except_bind_eq_ok.mp h
    obtain ⟨rest, hrest, h⟩ := except_bind_eq_ok.mp h
    cases h
    exact .cons hb (ih hrest)

end Tempo
