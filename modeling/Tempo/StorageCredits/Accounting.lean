/-
Storage credits of one account: clearing a slot mints a credit, creating one
may spend a credit, according to a mode that lasts for the transaction.  Gas is
not modelled, so the hook behind a storage write cannot fail.
-/
import Tempo.Library.Arith
import Tempo.Library.Wp
import Tempo.Primitives.Error
import Tempo.Primitives.Hardfork

namespace Tempo

/-- What creating a slot does to the credits of its account. -/
inductive CreditMode where
  /-- Creations are counted and settled at the end of the transaction. -/
  | refund
  /-- Credits are left alone. -/
  | preserve
  /-- Credits are spent, up to the budget. -/
  | direct
  deriving DecidableEq

/-- The balance of an account and its transaction-local state.  Whether the
balance was ever cut off at its largest value is noted beside them. -/
structure CreditState where
  balance : Nat
  mode : CreditMode
  budget : Nat
  pendingRefunds : Nat
  saturated : Bool

namespace CreditState

/-- A slot is cleared. -/
def mint (c : CreditState) : CreditState :=
  { c with
    balance := saturatingAdd 64 c.balance 1
    saturated := c.saturated || decide (maxWord 64 < c.balance + 1) }

/-- A slot is created. -/
def create (c : CreditState) : CreditState :=
  match c.mode with
  | .direct =>
    if 0 < c.balance ∧ 0 < c.budget then
      { c with
        balance := c.balance - 1
        -- an unlimited budget is never decremented
        budget := if c.budget = maxWord 64 then c.budget
          else c.budget - 1 }
    else c
  | .preserve => c
  | .refund =>
    { c with pendingRefunds := saturatingAdd 64 c.pendingRefunds 1 }

/-- The hook behind every storage write, told whether the slot was and is
zero.  The slots whose clearing mints nothing belong to other accounts. -/
def sstore (spec : TempoHardfork) (wasZero isZero : Bool) (c : CreditState) : CreditState :=
  if ¬.t7 ≤ spec ∨ wasZero = isZero then c
  else if isZero then c.mint
  else c.create

def setMode (mode : CreditMode) (c : CreditState) : CreditState :=
  { c with mode, budget := if mode = .direct then maxWord 64 else 0 }

def setBudget (creditBudget : Nat) (c : CreditState) : CreditState :=
  { c with mode := .direct, budget := creditBudget }

end CreditState

/-- A state that contains the credits of the account it belongs to, and how
many of them the account has promised to each user. -/
class HasCredits (σ : Type) where
  credits : σ → CreditState
  putCredits : σ → CreditState → σ
  counters : σ → Address → Nat
  putCounters : σ → (Address → Nat) → σ
  credits_putCredits : ∀ s c, credits (putCredits s c) = c
  counters_putCredits : ∀ s c, counters (putCredits s c) = counters s
  counters_putCounters : ∀ s n, counters (putCounters s n) = n
  credits_putCounters : ∀ s n, credits (putCounters s n) = credits s

namespace StorageCredits

open HasCredits

variable {σ α : Type} [HasCredits σ]

def balanceOf : Exec σ Nat :=
  reads fun s => (credits s).balance

def update (f : CreditState → CreditState) : Exec σ Unit :=
  updates fun s => putCredits s (f (credits s))

/-- Runs `f` and returns how many credits it minted. -/
def trackMintedCredits (spec : TempoHardfork) (f : Exec σ α) : Exec σ (α × Nat) :=
  if .t7 ≤ spec then do
    let before : Nat ← balanceOf
    let value ← f
    let after : Nat ← balanceOf
    require (before ≤ after) (.fatal s!"consumed credits (before: {before}, after: {after})")
    pure (value, after - before)
  else do
    let value ← f
    pure (value, 0)

/-- Runs `f` with at most `limit` credits to spend and returns the change of
the balance.  The mode is back to `preserve` afterwards, also if `f` fails. -/
def withBudget (spec : TempoHardfork) (limit : Nat) (f : Exec σ α) : Exec σ (α × Int) :=
  if .t7 ≤ spec then
    if limit = 0 then do
      let before : Nat ← balanceOf
      let value ← f
      let after : Nat ← balanceOf
      pure (value, (after : Int) - before)
    else do
      update (CreditState.setBudget limit)
      let before : Nat ← balanceOf
      let result ← attempts f
      let after : Nat ← balanceOf
      update fun c => { c with mode := .preserve, budget := 0 }
      let value ← ofExcept result
      pure (value, (after : Int) - before)
  else do
    let value ← f
    pure (value, 0)

/-- A write of the counter of a user. -/
def writeCounter (spec : TempoHardfork) (user : Address) (value : Nat) : Exec σ Unit :=
  updates fun s => putCredits (putCounters s (Function.update (counters s) user value))
    ((credits s).sstore spec (counters s user = 0) (value = 0))

/-- Adds to the counter of a user; a new counter takes one of the credits. -/
def creditStorageSlots (spec : TempoHardfork) (name : String)
    (user : Address) (slots : Nat) : Exec σ Unit := do
  let current ← reads fun s => counters s user
  let updated := saturatingAdd 64 current slots
  if current = 0 then do
    let (_, delta) ← withBudget spec 1 (writeCounter spec user updated)
    require (delta = -1)
      (.fatal s!"{name} storage credit bookkeeping spend mismatch: reserved 1, delta {delta}")
  else writeCounter spec user updated

/-- What every entry point of a precompile with credits starts with. -/
def preserveStorageCredits (spec : TempoHardfork) : Exec σ Unit :=
  if .t7 ≤ spec then update (CreditState.setMode .preserve) else pure ()

/-! What the wrappers leave to the computation they run. -/

section Wrappers

variable {γ : Type} {f : σ → γ} {F : γ → γ} {m : Exec σ α} {spec : TempoHardfork} {limit : Nat}

/-- A part of the state without the credits and counters. -/
structure Ignores (f : σ → γ) : Prop where
  credits : ∀ s c, f (putCredits s c) = f s
  counters : ∀ s n, f (putCounters s n) = f s

theorem update_preserves (hf : Ignores f) (g : CreditState → CreditState) :
    Preserves f (update g : Exec σ Unit) := transforms_updates fun s => hf.credits s _

theorem writeCounter_preserves (hf : Ignores f) (user : Address)
    (value : Nat) : Preserves f (writeCounter spec user value : Exec σ Unit) :=
  transforms_updates fun s => by rw [hf.credits, hf.counters, id_eq]

theorem balanceOf_preserves : Preserves f (balanceOf : Exec σ Nat) := (ReadOnly.reads _).preserves

theorem trackMintedCredits_transforms (hm : Transforms f F m) :
    Transforms f F (trackMintedCredits spec m) := by
  refine .ite (balanceOf_preserves.bind fun _ => hm.bind fun _ =>
    balanceOf_preserves.bind fun _ => ?_)
    (hm.bind fun _ => (ReadOnly.pure _).preserves)
  exact (ReadOnly.require _ _).preserves.bind fun _ =>
    (ReadOnly.pure _).preserves

theorem withBudget_transforms (hf : Ignores f)
    (hm : Transforms f F m) : Transforms f F (withBudget spec limit m) := by
  refine .ite (.ite ?_ ?_) (hm.bind fun _ => (ReadOnly.pure _).preserves)
  · exact balanceOf_preserves.bind fun _ => hm.bind fun _ =>
      balanceOf_preserves.bind fun _ => (ReadOnly.pure _).preserves
  · intro s x s' h
    -- a failure of `m` is only kept until the mode is reset
    obtain ⟨⟨⟩, s1, hset, h⟩ := h.bind
    obtain ⟨before, s2, hbefore, h⟩ := h.bind
    obtain ⟨result, s3, hrun, h⟩ := h.bind
    obtain ⟨after, s4, hafter, h⟩ := h.bind
    obtain ⟨⟨⟩, s5, hreset, h⟩ := h.bind
    obtain ⟨value, rfl, h⟩ := yields_ofExcept_bind.mp h
    obtain ⟨-, rfl⟩ := h.pure
    rw [update_preserves hf _ hreset, balanceOf_preserves (f := f) hafter,
      id_eq, id_eq, hm (yields_attempts_ok.mp hrun), balanceOf_preserves (f := f) hbefore, id_eq,
      update_preserves hf _ hset, id_eq]

theorem creditStorageSlots_preserves (hf : Ignores f) (name : String)
    (user : Address) (slots : Nat) :
    Preserves f (creditStorageSlots spec name user slots : Exec σ Unit) := by
  refine (ReadOnly.reads _).preserves.bind fun _ => .ite ?_ (writeCounter_preserves hf _ _)
  exact (withBudget_transforms hf (writeCounter_preserves hf _ _)).bind
    fun _ => (ReadOnly.require _ _).preserves

variable {P : TempoPrecompileError → Prop}

theorem trackMintedCredits_throws (hfatal : ∀ msg, P (.fatal msg))
    (hm : Throws P m) : Throws P (trackMintedCredits spec m) :=
  .ite (.bind (.reads _) fun _ => hm.bind fun _ =>
    .bind (.reads _) fun _ => .bind (.require _ (hfatal _)) fun _ =>
      .pure _) (hm.bind fun _ => .pure _)

theorem withBudget_throws (hm : Throws P m) : Throws P (withBudget spec limit m) := by
  refine .ite (.ite ?_ ?_) (hm.bind fun _ => .pure _)
  · exact .bind (.reads _) fun _ => hm.bind fun _ =>
      .bind (.reads _) fun _ => .pure _
  · refine .bind (.updates _) fun _ => .bind (.reads _) fun _ => ?_
    refine throws_of_from fun s => ((Throws.attempts m).wp s).bind fun result s1 hrun => ?_
    refine Throws.at (.bind (.reads _) fun _ =>
      .bind (.updates _) fun _ => ?_) s1
    refine .bind (.ofExcept fun e he => ?_) fun _ => .pure _
    rw [he] at hrun
    exact hm (yields_attempts_error.mp hrun)

theorem creditStorageSlots_throws (hfatal : ∀ msg, P (.fatal msg))
    (name : String) (user : Address) (slots : Nat) :
    Throws P (creditStorageSlots spec name user slots : Exec σ Unit) := .bind (.reads _) fun _ =>
    .ite ((withBudget_throws (.updates _)).bind fun _ =>
      .require _ (hfatal _)) (.updates _)

end Wrappers

end StorageCredits

end Tempo
