/-
Credits handed on to users are backed.  A counter stands for one credit less
than it shows while it exists, the one its slot was paid with; what all
counters stand for beyond that, and what is still to be handed on, is covered
by the balance of the account, unless a credit was lost at the largest balance.
-/
import Tempo.Library.Totals
import Tempo.StorageCredits.Accounting

namespace Tempo

open CreditState

variable {spec : TempoHardfork}

/-- Not a failed check of the bookkeeping. -/
abbrev NotFatal (e : TempoPrecompileError) : Prop :=
  ∀ msg, e ≠ .fatal msg

namespace CreditState

variable {c : CreditState}

theorem sstore_cases (spec : TempoHardfork) (c : CreditState) (wasZero isZero : Bool) :
    c.sstore spec wasZero isZero = c ∨ c.sstore spec wasZero isZero = c.mint ∨
      c.sstore spec wasZero isZero = c.create := by
  unfold sstore
  split
  · exact .inl rfl
  · split
    · exact .inr (.inl rfl)
    · exact .inr (.inr rfl)

theorem create_saturated : c.create.saturated = c.saturated := by
  unfold create
  split
  · split <;> rfl
  · rfl
  · rfl

theorem create_preserve (h : c.mode = .preserve) : c.create = c := by
  unfold create
  rw [h]

/-- Under a budget the balance falls by no more than the budget does, unless
the budget is unlimited. -/
theorem create_direct (h : c.mode = .direct) :
    c.create.mode = .direct ∧ c.create.balance ≤ c.balance ∧
      (c.budget = maxWord 64 ∧ c.create.budget = maxWord 64 ∨ c.create.budget ≤ c.budget ∧
        c.balance + c.create.budget ≤ c.create.balance + c.budget) := by
  unfold create
  rw [h]
  by_cases hspend : 0 < c.balance ∧ 0 < c.budget
  · rw [if_pos hspend]
    dsimp only
    by_cases hunlimited : c.budget = maxWord 64
    · rw [if_pos hunlimited]
      exact ⟨rfl, Nat.sub_le _ _, .inl ⟨hunlimited, hunlimited⟩⟩
    · rw [if_neg hunlimited]
      exact ⟨rfl, Nat.sub_le _ _, .inr (by omega)⟩
  · rw [if_neg hspend]
    exact ⟨h, le_rfl, .inr ⟨le_rfl, le_rfl⟩⟩

theorem le_mint (h : c.balance ≤ maxWord 64) : c.balance ≤ c.mint.balance := by
  simp only [mint, saturatingAdd]
  omega

theorem mint_bound : c.mint.balance ≤ maxWord 64 := min_le_right _ _

theorem sstore_saturated (wasZero isZero : Bool) (h : c.saturated = true) :
    (c.sstore spec wasZero isZero).saturated = true := by
  rcases sstore_cases spec c wasZero isZero with heq | heq | heq
  · rw [heq, h]
  · rw [heq, mint, h]
    rfl
  · rw [heq, create_saturated, h]

end CreditState

namespace StorageCredits

open HasCredits

/-- What the counters stand for beyond the credit of their own slot. -/
noncomputable def excess (counters : Address → Nat) : Nat :=
  ∑ user, (counters user - 1)

theorem excess_update (n : Address → Nat) (user : Address) (value : Nat) :
    excess (Function.update n user value) + (n user - 1) = excess n + (value - 1) :=
  sum_update (fun _ x => x - 1) n user value

theorem sum_counters (n : Address → Nat) :
    ∑ user, n user = excess n + (Finset.univ.filter fun user => 0 < n user).card := by
  rw [excess, Finset.card_filter, ← Finset.sum_add_distrib]
  refine Finset.sum_congr rfl fun user _ => ?_
  split <;> omega

variable {σ α : Type} [HasCredits σ] {s : σ} {pending : Nat}

/-- The counters, and the credits still to be handed on, are covered. -/
structure Backed (s : σ) (pending : Nat) : Prop where
  mode : (credits s).mode = .preserve
  bound : (credits s).balance ≤ maxWord 64
  words : ∀ user, counters s user ≤ maxWord 64
  covered : excess (counters s) + pending ≤ (credits s).balance

theorem backed_putCredits {c : CreditState} :
    Backed (putCredits s c) pending ↔ c.mode = .preserve ∧ c.balance ≤ maxWord 64 ∧
      (∀ user, counters s user ≤ maxWord 64) ∧ excess (counters s) + pending ≤ c.balance := by
  constructor
  · rintro ⟨hmode, hbound, hwords, hcovered⟩
    simp only [credits_putCredits, counters_putCredits] at hmode hbound hwords hcovered
    exact ⟨hmode, hbound, hwords, hcovered⟩
  · rintro ⟨hmode, hbound, hwords, hcovered⟩
    constructor <;> simpa only [credits_putCredits, counters_putCredits]

/-- A credit was lost at the largest balance. -/
def Saturated (s : σ) : Prop :=
  (credits s).saturated = true

/-- A credit is counted unless it is lost. -/
theorem mint_cases (c : CreditState) :
    c.mint.saturated = true ∨ c.mint.balance = c.balance + 1 := by
  simp only [mint, saturatingAdd, Bool.or_eq_true, decide_eq_true_eq]
  omega

def beginBudget (limit : Nat) (s : σ) : σ :=
  putCredits s ((credits s).setBudget limit)

def endBudget (s : σ) : σ :=
  putCredits s { credits s with mode := .preserve, budget := 0 }

variable {limit : Nat}

/-- The budget is gone after a run under it, and the change of the balance is
known. -/
theorem withBudget_wp (hspec : .t7 ≤ spec) (hlimit : limit ≠ 0) {m : Exec σ α}
    {Q : α × Int → σ → Prop} {E : TempoPrecompileError → σ → Prop} (h : Wp m (beginBudget limit s)
      (fun a s' => Q (a, ((credits s').balance : Int) - (credits s).balance) (endBudget s'))
      fun e s' => E e (endBudget s')) : Wp (withBudget spec limit m) s Q E := by
  rw [withBudget, if_pos hspec, if_neg hlimit, update, wp_updates_bind, balanceOf, wp_reads_bind]
  rw [wp_attempts_bind]
  refine h.mono (fun a s' hQ => ?_) fun e s' hE => hE
  rw [credits_putCredits]
  exact hQ

/-- Creating a slot under a budget takes one credit. -/
theorem withBudget_create (hspec : .t7 ≤ spec) (hlimit : limit ≠ 0) {g : σ → σ}
    {n : Address → Nat} (hcredits : credits (g (beginBudget limit s)) =
      ((credits s).setBudget limit).sstore spec true false)
    (hcounters : counters (g (beginBudget limit s)) = n) (hbalance : 0 < (credits s).balance) :
    Wp (withBudget spec limit (updates g)) s (fun r s' => r.2 = -1 ∧ counters s' = n ∧
        (credits s').mode = .preserve ∧
        (credits s').balance + 1 = (credits s).balance) fun _ _ => False := by
  refine withBudget_wp hspec hlimit (wp_updates.mpr ?_)
  have hspend : (((credits s).setBudget limit).sstore spec true false).balance =
      (credits s).balance - 1 := by
    simp [sstore, create, setBudget, hspec, hbalance, Nat.pos_of_ne_zero hlimit]
  simp only [endBudget, credits_putCredits, counters_putCredits, hcredits,
    hcounters, hspend, true_and]
  omega

/-- Writing a counter for the first time takes one credit. -/
theorem withBudget_newCounter (hspec : .t7 ≤ spec) {user : Address}
    {value : Nat} (hzero : counters s user = 0) (hvalue : value ≠ 0)
    (hbalance : 0 < (credits s).balance) :
    Wp (withBudget spec 1 (writeCounter spec user value)) s (fun r s' => r.2 = -1 ∧
        counters s' = Function.update (counters s) user value ∧ (credits s').mode = .preserve ∧
        (credits s').balance + 1 = (credits s).balance) fun _ _ => False := by
  refine withBudget_create hspec Nat.one_ne_zero ?_ ?_ hbalance
  · simp [beginBudget, credits_putCredits, counters_putCredits, hzero, hvalue]
  · simp only [beginBudget, counters_putCredits, counters_putCounters]

/-- Handing on credits that are there succeeds. -/
theorem creditStorageSlots_backed (hspec : .t7 ≤ spec) (name : String)
    (user : Address) {slots : Nat} (hslots : slots ≠ 0) (h : Backed s (pending + slots)) :
    Wp (creditStorageSlots spec name user slots) s
      (fun _ s' => Backed s' pending) fun _ _ => False := by
  obtain ⟨hmode, hbound, hwords, hcovered⟩ := h
  have hupdated : ∀ other, Function.update (counters s) user
      (saturatingAdd 64 (counters s user) slots) other ≤ maxWord 64 := by
    intro other
    rw [Function.update_apply]
    split
    · exact min_le_right _ _
    · exact hwords other
  have hmax : 0 < maxWord 64 := by decide
  have hexcess := excess_update (counters s) user (saturatingAdd 64 (counters s user) slots)
  have hne : saturatingAdd 64 (counters s user) slots ≠ 0 := by
    unfold saturatingAdd
    omega
  have hle : saturatingAdd 64 (counters s user) slots ≤ counters s user + slots := min_le_left _ _
  rw [creditStorageSlots, wp_reads_bind]
  by_cases hzero : counters s user = 0
  · rw [if_pos hzero]
    refine (withBudget_newCounter hspec hzero hne (by omega)).bind ?_
    rintro ⟨_, delta⟩ s' ⟨hdelta, hcounters, hmode', hbalance⟩
    refine wp_require.mpr ⟨fun _ => ⟨hmode', by omega, ?_, ?_⟩, fun hmismatch => hmismatch hdelta⟩
    · rwa [hcounters]
    · rw [hcounters]
      omega
  · rw [if_neg hzero, writeCounter, wp_updates]
    have hkept : (credits s).sstore spec (decide (counters s user = 0))
        (decide (saturatingAdd 64 (counters s user) slots = 0)) = credits s := by
      simp [sstore, hzero, hne]
    rw [hkept, backed_putCredits, counters_putCounters]
    exact ⟨hmode, hbound, hupdated, by omega⟩

/-! Writes to other slots. -/

/-- The state of an account that only collects credits, from `s` on. -/
structure Minting (s s' : σ) : Prop where
  counters : counters s' = counters s
  mode : (credits s').mode = .preserve
  bound : (credits s').balance ≤ maxWord 64
  balance : (credits s).balance ≤ (credits s').balance

theorem Backed.minting (h : Backed s pending) : Minting s s := ⟨rfl, h.mode, h.bound, le_rfl⟩

theorem Minting.backed {s' : σ} (h : Minting s s') (hs : Backed s pending) :
    Backed s' (pending + ((credits s').balance - (credits s).balance)) := by
  refine ⟨h.mode, h.bound, h.counters ▸ hs.words, ?_⟩
  have hcovered := hs.covered
  have hbalance := h.balance
  rw [h.counters]
  omega

theorem Backed.mono {fewer : Nat} (h : Backed s pending) (hle : fewer ≤ pending) : Backed s fewer :=
  ⟨h.mode, h.bound, h.words, (Nat.add_le_add_left hle _).trans h.covered⟩

theorem update_minting (wasZero isZero : Bool) :
    Keeps (Minting s) (update (sstore spec wasZero isZero) : Exec σ Unit) := by
  refine keeps_updates fun s' h => ?_
  obtain ⟨hcounters, hmode, hbound, hbalance⟩ := h
  have hput {c : CreditState} (hc : c.mode = .preserve) (hle : c.balance ≤ maxWord 64)
      (hmore : (credits s').balance ≤ c.balance) : Minting s (putCredits s' c) := by
    constructor <;> simp only [credits_putCredits, counters_putCredits]
    exacts [hcounters, hc, hle, hbalance.trans hmore]
  rcases sstore_cases spec (credits s') wasZero isZero with heq | heq | heq
  all_goals rw [heq]
  · exact hput hmode hbound le_rfl
  · exact hput hmode mint_bound (le_mint hbound)
  · rw [create_preserve hmode]
    exact hput hmode hbound le_rfl

/-- The state of an account that may spend up to `limit` credits from `s`
on. -/
structure Spending (s : σ) (limit : Nat) (s' : σ) : Prop where
  counters : counters s' = counters s
  mode : (credits s').mode = .direct
  bound : (credits s').balance ≤ maxWord 64
  word : limit ≤ maxWord 64
  spent : limit = maxWord 64 ∨ (credits s').budget ≤ limit ∧
    (credits s).balance + (credits s').budget ≤ (credits s').balance + limit

theorem update_spending (wasZero isZero : Bool) :
    Keeps (Spending s limit) (update (sstore spec wasZero isZero) : Exec σ Unit) := by
  refine keeps_updates fun s' h => ?_
  obtain ⟨hcounters, hmode, hbound, hlimit, hspent⟩ := h
  have hminted := le_mint hbound
  obtain ⟨hcreate, hless, hbudget⟩ := create_direct hmode
  refine ⟨?_, ?_, ?_, hlimit, ?_⟩
  · rw [counters_putCredits, hcounters]
  all_goals
    rw [credits_putCredits]
    rcases sstore_cases spec (credits s') wasZero isZero with heq | heq | heq
    all_goals rw [heq]
  · exact hmode
  · exact hmode
  · exact hcreate
  · exact hbound
  · exact mint_bound
  · omega
  · exact hspent
  · have hkept : (credits s').mint.budget = (credits s').budget := rfl
    omega
  · omega

section Wrapped

variable {m : Exec σ α}

/-- What clears slots in the meantime is counted, and only that. -/
theorem trackMintedCredits_backed (hspec : .t7 ≤ spec)
    (hm : Keeps (Minting s) m) (hthrows : Throws NotFatal m) (h : Backed s pending) :
    Wp (trackMintedCredits spec m) s
      (fun r s' => Backed s' (pending + r.2)) fun e _ => NotFatal e := by
  rw [trackMintedCredits, if_pos hspec, balanceOf, wp_reads_bind]
  refine ((hm.wp hthrows h.minting).mono (fun _ _ hs => hs)
    fun _ _ he => he.1).bind fun a s' hs => ?_
  rw [wp_reads_bind, wp_require_bind]
  exact ⟨fun _ => hs.backed h, fun hless => absurd hs.balance hless⟩

/-- A run under a budget leaves what the budget does not cover. -/
theorem withBudget_backed (hspec : .t7 ≤ spec) (hlimit : limit ≠ 0) (hword : limit ≤ maxWord 64)
    (hm : Keeps (Spending s limit) m) (hthrows : Throws NotFatal m)
    (h : Backed s (pending + limit)) :
    Wp (withBudget spec limit m) s (fun r s' => Backed s' (pending + (limit - (-r.2).toNat)))
      fun e _ => NotFatal e := by
  refine withBudget_wp hspec hlimit ?_
  have hstart : Spending s limit (beginBudget limit s) := by
    refine ⟨counters_putCredits _ _, ?_, ?_, hword, .inr ?_⟩
    all_goals rw [beginBudget, credits_putCredits]
    · rfl
    · exact h.bound
    · exact ⟨le_rfl, le_rfl⟩
  refine (hm.wp hthrows hstart).mono (fun a s' hs => ?_) fun _ _ he => he.1
  have hcovered := h.covered
  have hbound := h.bound
  obtain ⟨hcounters, -, hbound', -, hspent⟩ := hs
  rw [endBudget, backed_putCredits, hcounters]
  refine ⟨rfl, hbound', h.words, ?_⟩
  dsimp only
  omega

/-- Clearing a counter makes its credits available, unless one is lost. -/
theorem clearCounter_backed (hspec : .t7 ≤ spec) {user : Address}
    (hne : counters s user ≠ 0) (h : Backed s pending) :
    Wp (writeCounter spec user 0) s
      (fun _ s' => Saturated s' ∨ Backed s' (pending + counters s user)) fun _ _ => False := by
  rw [writeCounter, wp_updates]
  have hclear : (credits s).sstore spec (decide (counters s user = 0))
      (decide (0 = 0)) = (credits s).mint := by
    simp [sstore, hspec, hne]
  rw [hclear]
  rcases mint_cases (credits s) with hlost | hminted
  · refine .inl ?_
    rwa [Saturated, credits_putCredits]
  · have hexcess := excess_update (counters s) user 0
    have hcovered := h.covered
    rw [backed_putCredits, counters_putCounters, hminted]
    refine .inr ⟨h.mode, hminted ▸ mint_bound, fun other => ?_, by omega⟩
    rw [Function.update_apply]
    split
    · exact Nat.zero_le _
    · exact h.words other

/-! A lost credit stays noted. -/

theorem update_saturated {g : CreditState → CreditState}
    (hg : ∀ c, c.saturated = true → (g c).saturated = true) :
    Keeps Saturated (update g : Exec σ Unit) := by
  refine keeps_updates fun s hs => ?_
  rw [Saturated, credits_putCredits]
  exact hg _ hs

theorem writeCounter_saturated (user : Address) (value : Nat) :
    Keeps Saturated (writeCounter spec user value : Exec σ Unit) := by
  refine keeps_updates fun s hs => ?_
  rw [Saturated, credits_putCredits]
  exact sstore_saturated _ _ hs

theorem trackMintedCredits_saturated (hm : Keeps Saturated m) :
    Keeps Saturated (trackMintedCredits spec m) :=
  .ite ((keeps_reads _).bind fun _ => hm.bind fun _ => (keeps_reads _).bind
    fun _ => (keeps_require _ _).bind fun _ => keeps_pure _) (hm.bind fun _ => keeps_pure _)

theorem withBudget_saturated (hm : Keeps Saturated m) :
    Keeps Saturated (withBudget spec limit m) := by
  refine .ite (.ite ?_ ?_) (hm.bind fun _ => keeps_pure _)
  · exact (keeps_reads _).bind fun _ => hm.bind fun _ =>
      (keeps_reads _).bind fun _ => keeps_pure _
  · refine .bind (update_saturated fun _ hc => ?_) fun _ =>
      (keeps_reads _).bind fun _ => hm.attempts.bind fun _ =>
      (keeps_reads _).bind fun _ => .bind (update_saturated fun _ hc => ?_)
      fun _ => (keeps_ofExcept _).bind fun _ => keeps_pure _
    · exact hc
    · exact hc

theorem creditStorageSlots_saturated (name : String) (user : Address) (slots : Nat) :
    Keeps Saturated (creditStorageSlots spec name user slots : Exec σ Unit) :=
  (keeps_reads _).bind fun _ =>
    .ite ((withBudget_saturated (writeCounter_saturated _ _)).bind fun _ =>
      keeps_require _ _) (writeCounter_saturated _ _)

end Wrapped

/-! Between operations. -/

/-- An account as its next operation finds it once its mode is set. -/
def preserving (s : σ) : σ :=
  putCredits s ((credits s).setMode .preserve)

/-- The counters are covered, unless a credit was lost. -/
def Ready (s : σ) : Prop :=
  Saturated s ∨ Backed (preserving s) 0

theorem preserveStorageCredits_backed (hspec : .t7 ≤ spec) (h : Backed (preserving s) 0) :
    Wp (preserveStorageCredits spec) s (fun _ s' => Backed s' 0) fun _ _ => False := by
  rw [preserveStorageCredits, if_pos hspec]
  exact h

theorem Backed.ready (h : Backed s 0) : Ready s :=
  .inr (backed_putCredits.mpr ⟨rfl, h.bound, h.words, h.covered⟩)

theorem ready_of_fresh (hbound : (credits s).balance ≤ maxWord 64)
    (hnone : ∀ user, counters s user = 0) : Ready s := by
  refine .inr (backed_putCredits.mpr ⟨rfl, hbound, fun user => ?_, ?_⟩)
  · exact (hnone user).trans_le (Nat.zero_le _)
  · simp [excess, hnone]

/-- The mode and the budget may change between operations. -/
theorem Ready.transaction {s' : σ} (h : Ready s) (hcounters : counters s' = counters s)
    (hbalance : (credits s').balance = (credits s).balance)
    (hsaturated : (credits s').saturated = (credits s).saturated) : Ready s' := by
  rcases h with hlost | hbacked
  · exact .inl (hsaturated.trans hlost)
  · obtain ⟨-, hbound, hwords, hcovered⟩ := backed_putCredits.mp hbacked
    rw [← hcounters] at hwords hcovered
    exact .inr (backed_putCredits.mpr
      ⟨rfl, hbalance.trans_le hbound, hwords, hcovered.trans_eq hbalance.symm⟩)

/-- Users are promised no more than the balance and the credits their counters
were paid with. -/
theorem Ready.covers (h : Ready s) (hsaturated : (credits s).saturated = false) :
    ∑ user, counters s user ≤ (credits s).balance +
      (Finset.univ.filter fun user => 0 < counters s user).card := by
  rcases h with hlost | hbacked
  · rw [Saturated, hsaturated] at hlost
    cases hlost
  · rw [sum_counters]
    exact Nat.add_le_add_right (backed_putCredits.mp hbacked).2.2.2 _

end StorageCredits

end Tempo
