/-
Storage credits of the exchange.  An operation of the exchange is seen here as
a list of actions on its storage: plain writes, and the record writes that mint
credits for makers or spend them.  What the writes store is left out, only
whether a slot was and is zero matters, so any operation is such a list.
-/
import Tempo.StorageCredits.Backing

namespace Tempo

variable {spec : TempoHardfork}

/-- The part of the storage of the exchange that the credits depend on. -/
structure DexCredits where
  credits : CreditState
  dexStorageCredits : Address → Nat

instance : HasCredits DexCredits where
  credits s := s.credits
  putCredits s credits := { s with credits }
  counters s := s.dexStorageCredits
  putCounters s counters := { s with dexStorageCredits := counters }
  credits_putCredits _ _ := rfl
  counters_putCredits _ _ := rfl
  counters_putCounters _ _ := rfl
  credits_putCounters _ _ := rfl

/-- What a closure writes: for each slot whether it was and is zero, and an
error it may stop with, which is not one of the bookkeeping. -/
structure SlotWrites where
  slots : List (Bool × Bool)
  result : Except TempoPrecompileError Unit
  benign : ∀ e, result = .error e → NotFatal e

/-- Credits earned by makers during an operation, in the order of their
addresses. -/
abbrev StorageCreditDeltas := List (Address × Nat)

namespace StorageCreditDeltas

def creditSlots (user : Address) (slots : Nat) : StorageCreditDeltas → StorageCreditDeltas
  | deltas =>
    if slots = 0 then deltas else insert deltas
where
  insert : StorageCreditDeltas → StorageCreditDeltas
    | [] => [(user, slots)]
    | (other, total) :: rest =>
      if user = other then (other, saturatingAdd 64 total slots) :: rest
      else if user.word < other.word then
        (user, slots) :: (other, total) :: rest
      else (other, total) :: insert rest

/-- What is still to be handed on. -/
def total (deltas : StorageCreditDeltas) : Nat :=
  (deltas.map Prod.snd).sum

theorem total_insert_le (user : Address) (slots : Nat) (deltas : StorageCreditDeltas) :
    total (creditSlots.insert user slots deltas) ≤ total deltas + slots := by
  induction deltas with
  | nil => simp [creditSlots.insert, total]
  | cons entry rest ih =>
    obtain ⟨other, earned⟩ := entry
    have hle : saturatingAdd 64 earned slots ≤ earned + slots := min_le_left _ _
    simp only [creditSlots.insert, total] at ih ⊢
    split_ifs
    · simp only [List.map_cons, List.sum_cons]
      omega
    · simp only [List.map_cons, List.sum_cons]
      omega
    · simp only [List.map_cons, List.sum_cons]
      omega

theorem total_creditSlots_le (user : Address) (slots : Nat) (deltas : StorageCreditDeltas) :
    total (creditSlots user slots deltas) ≤ total deltas + slots := by
  unfold creditSlots
  split
  · exact Nat.le_add_right _ _
  · exact total_insert_le user slots deltas

end StorageCreditDeltas

namespace StablecoinDex

open StorageCredits

variable (spec : TempoHardfork)

def writeSlots (f : SlotWrites) : Exec DexCredits Unit := do
  f.slots.forM fun slot => update (CreditState.sstore spec slot.1 slot.2)
  ofExcept f.result

def creditDexStorageSlots (user : Address) (slots : Nat) : Exec DexCredits Unit :=
  if slots = 0 ∨ ¬.t7 ≤ spec then pure ()
  else creditStorageSlots spec "DEX" user slots

/-- Deletes or rewrites a record and returns the credits minted. -/
def trackOrder (f : SlotWrites) : Exec DexCredits Nat := do
  let (_, credits) ← trackMintedCredits spec (writeSlots spec f)
  pure credits

def unlinkNeighborAndCreditMaker (maker : Address) (f : SlotWrites) : Exec DexCredits Unit := do
  let credits ← trackOrder spec f
  if credits = 0 then pure () else creditDexStorageSlots spec maker credits

def deleteOrderAndTrackDeltas (deltas : StorageCreditDeltas) (maker : Address) (f : SlotWrites) :
    Exec DexCredits StorageCreditDeltas := do
  let credits ← trackOrder spec f
  pure (deltas.creditSlots maker credits)

/-- Writes a record with at most the credits of its maker. -/
def writeOrderSpendingDexStorageCredits (user : Address) (f : SlotWrites) :
    Exec DexCredits Unit := do
  let userCredits ← reads fun s : DexCredits => s.dexStorageCredits user
  if userCredits = 0 then writeSlots spec f
  else do
    writeCounter spec user 0
    let (_, delta) ← withBudget spec userCredits (writeSlots spec f)
    let spentCredits : Nat := (-delta).toNat
    creditDexStorageSlots spec user (userCredits - spentCredits)

/-- The record of a flipped order is rewritten without spending; its maker is
credited from T8 on. -/
def rewriteFlipped (maker : Address) (f : SlotWrites) : Exec DexCredits Unit :=
  if .t8 ≤ spec then do
    let credits ← trackOrder spec f
    creditDexStorageSlots spec maker credits
  else writeSlots spec f

end StablecoinDex

/-- The actions operations of the exchange consist of, with the maker of the
record they write. -/
inductive DexAction where
  /-- Balances, books, levels and bitmaps, and records at a partial fill. -/
  | write (f : SlotWrites)
  | unlink (maker : Address) (f : SlotWrites)
  /-- A cancelled order. -/
  | delete (maker : Address) (f : SlotWrites)
  /-- A filled order, or the link to it. -/
  | deferred (maker : Address) (f : SlotWrites)
  /-- A new order. -/
  | place (maker : Address) (f : SlotWrites)
  /-- A flip, undone if it fails and ignored unless the failure is a system
  error. -/
  | flip (maker : Address) (before record after : SlotWrites)

namespace DexAction

open StablecoinDex StorageCredits

def exec (spec : TempoHardfork) (deltas : StorageCreditDeltas) :
    DexAction → Exec DexCredits StorageCreditDeltas
  | write f => do
    writeSlots spec f
    pure deltas
  | unlink maker f => do
    unlinkNeighborAndCreditMaker spec maker f
    pure deltas
  | delete maker f => do
    let credits ← trackOrder spec f
    creditDexStorageSlots spec maker credits
    pure deltas
  | deferred maker f => deleteOrderAndTrackDeltas spec deltas maker f
  | place maker f => do
    writeOrderSpendingDexStorageCredits spec maker f
    pure deltas
  | flip maker before record after => do
    let res ← attempts (rollback do
      writeSlots spec before
      rewriteFlipped spec maker record
      writeSlots spec after)
    match res with
    | .ok _ => pure deltas
    | .error e => if e.isSystemError then fails e else pure deltas

def execAll (spec : TempoHardfork) :
    List DexAction → StorageCreditDeltas → Exec DexCredits StorageCreditDeltas
  | [], deltas => pure deltas
  | a :: rest, deltas => do
    let deltas ← a.exec spec deltas
    execAll spec rest deltas

/-- An operation of the exchange: its actions in preserve mode, and the credits
deferred by them at the end. -/
def operation (spec : TempoHardfork) (actions : List DexAction) : Exec DexCredits Unit := do
  preserveStorageCredits spec
  let deltas ← execAll spec actions []
  deltas.forM fun entry => creditDexStorageSlots spec entry.1 entry.2

/-! A lost credit stays noted. -/

section Saturated

theorem writeSlots_keeps {I : DexCredits → Prop} (h : ∀ wasZero isZero, Keeps I
      (update (CreditState.sstore spec wasZero isZero) : Exec DexCredits Unit))
    (f : SlotWrites) : Keeps I (writeSlots spec f) :=
  (Keeps.forM (fun _ => h _ _) _).bind fun _ => keeps_ofExcept _

theorem writeSlots_saturated (f : SlotWrites) : Keeps Saturated (writeSlots spec f) :=
  writeSlots_keeps (fun wasZero isZero => update_saturated fun _ =>
    CreditState.sstore_saturated wasZero isZero) f

theorem trackOrder_saturated (f : SlotWrites) : Keeps Saturated (trackOrder spec f) :=
  (trackMintedCredits_saturated (writeSlots_saturated f)).bind fun _ => keeps_pure _

theorem creditDexStorageSlots_saturated (user : Address) (slots : Nat) :
    Keeps Saturated (creditDexStorageSlots spec user slots) :=
  .ite (keeps_pure _) (creditStorageSlots_saturated _ _ _)

theorem writeOrderSpending_saturated (user : Address) (f : SlotWrites) :
    Keeps Saturated (writeOrderSpendingDexStorageCredits spec user f) :=
  (keeps_reads _).bind fun _ => .ite (writeSlots_saturated f)
    ((writeCounter_saturated _ _).bind fun _ =>
      (withBudget_saturated (writeSlots_saturated f)).bind fun _ =>
        creditDexStorageSlots_saturated _ _)

theorem rewriteFlipped_saturated (maker : Address) (f : SlotWrites) :
    Keeps Saturated (rewriteFlipped spec maker f) := .ite ((trackOrder_saturated f).bind fun _ =>
    creditDexStorageSlots_saturated _ _) (writeSlots_saturated f)

theorem exec_saturated (a : DexAction) (deltas : StorageCreditDeltas) :
    Keeps Saturated (a.exec spec deltas) := by
  cases a with
  | write f => exact (writeSlots_saturated f).bind fun _ => keeps_pure _
  | unlink maker f =>
    exact ((trackOrder_saturated f).bind fun _ => .ite (keeps_pure _)
      (creditDexStorageSlots_saturated _ _)).bind fun _ => keeps_pure _
  | delete maker f =>
    exact (trackOrder_saturated f).bind fun _ =>
      (creditDexStorageSlots_saturated _ _).bind fun _ => keeps_pure _
  | deferred maker f =>
    exact (trackOrder_saturated f).bind fun _ => keeps_pure _
  | place maker f =>
    exact (writeOrderSpending_saturated maker f).bind fun _ => keeps_pure _
  | flip maker before record after =>
    have hflip : Keeps Saturated (do
        writeSlots spec before
        rewriteFlipped spec maker record
        writeSlots spec after) :=
      (writeSlots_saturated before).bind fun _ =>
        (rewriteFlipped_saturated maker record).bind fun _ =>
          writeSlots_saturated after
    refine hflip.rollback.attempts.bind fun res => ?_
    cases res with
    | ok => exact keeps_pure _
    | error e => exact .ite (fun _ hs => hs) (keeps_pure _)

end Saturated

/-! Every action keeps the counters backed. -/

variable {s : DexCredits} {pending : Nat}

theorem writeSlots_throws (f : SlotWrites) : Throws NotFatal (writeSlots spec f) := by
  refine Throws.bind ?_ fun _ => .ofExcept f.benign
  induction f.slots with
  | nil => exact .pure _
  | cons slot rest ih => exact .bind (.updates _) fun _ => ih

theorem writeSlots_backed (f : SlotWrites) (h : Backed s pending) :
    Wp (writeSlots spec f) s (fun _ s' => Backed s' pending) fun e _ => NotFatal e :=
  ((writeSlots_keeps update_minting f).wp (writeSlots_throws f)
    h.minting).mono (fun _ _ hs => (hs.backed h).mono (Nat.le_add_right _ _)) fun _ _ he => he.1

section

variable (hspec : .t7 ≤ spec)
include hspec

theorem trackOrder_backed (f : SlotWrites) (h : Backed s pending) :
    Wp (trackOrder spec f) s (fun credits s' => Backed s' (pending + credits))
      fun e _ => NotFatal e := (trackMintedCredits_backed hspec (writeSlots_keeps update_minting f)
    (writeSlots_throws f) h).bind fun _ _ hs => hs

theorem creditDexStorageSlots_backed (user : Address)
    {slots : Nat} (h : Backed s (pending + slots)) :
    Wp (creditDexStorageSlots spec user slots) s
      (fun _ s' => Backed s' pending) fun e _ => NotFatal e := by
  unfold creditDexStorageSlots
  split
  · exact h.mono (Nat.le_add_right _ _)
  · rename_i hslots
    exact (creditStorageSlots_backed hspec _ user
      (fun hzero => hslots (.inl hzero)) h).mono (fun _ _ hs => hs) fun _ _ hfalse => hfalse.elim

/-- A new order spends the credits of its maker and no others. -/
theorem writeOrderSpending_backed (user : Address) (f : SlotWrites) (h : Backed s pending) :
    Wp (writeOrderSpendingDexStorageCredits spec user f) s
      (fun _ s' => Saturated s' ∨ Backed s' pending) fun e s' => Saturated s' ∨ NotFatal e := by
  rw [writeOrderSpendingDexStorageCredits, wp_reads_bind]
  by_cases hzero : s.dexStorageCredits user = 0
  · rw [if_pos hzero]
    exact (writeSlots_backed f h).mono (fun _ _ => .inr) fun _ _ => .inr
  · rw [if_neg hzero]
    refine ((clearCounter_backed hspec hzero h).mono (fun _ _ hs => hs)
      fun _ _ hfalse => hfalse.elim).bind fun _ s1 hcleared => ?_
    rcases hcleared with hlost | hcleared
    · refine Wp.mono (Keeps.bind (withBudget_saturated
        (writeSlots_saturated f)) (fun r => ?_) hlost) (fun _ _ => .inl) fun _ _ => .inl
      exact creditDexStorageSlots_saturated _ _
    · refine ((withBudget_backed hspec hzero (h.words user)
        (writeSlots_keeps update_spending f) (writeSlots_throws f)
        hcleared).mono (fun _ _ hs => hs) fun _ _ => .inr).bind fun r s2 hspent => ?_
      exact (creditDexStorageSlots_backed hspec user hspent).mono (fun _ _ => .inr) fun _ _ => .inr

theorem rewriteFlipped_backed (maker : Address) (f : SlotWrites) (h : Backed s pending) :
    Wp (rewriteFlipped spec maker f) s (fun _ s' => Backed s' pending) fun e _ => NotFatal e := by
  refine wp_ite.mpr ⟨fun _ => ?_, fun _ => writeSlots_backed f h⟩
  exact (trackOrder_backed hspec f h).bind fun _ _ hs =>
    creditDexStorageSlots_backed hspec maker hs

theorem flip_backed (maker : Address)
    (before record after : SlotWrites) (deltas : StorageCreditDeltas) (h : Backed s pending) :
    Wp ((flip maker before record after).exec spec deltas) s
      (fun deltas' s' => deltas' = deltas ∧ Backed s' pending) fun e _ => NotFatal e := by
  have hflip : Wp (do
      writeSlots spec before
      rewriteFlipped spec maker record
      writeSlots spec after) s (fun _ s' => Backed s' pending)
      fun e _ => NotFatal e :=
    (writeSlots_backed before h).bind fun _ _ h1 =>
      (rewriteFlipped_backed hspec maker record h1).bind fun _ _ h2 =>
        writeSlots_backed after h2
  rw [exec, wp_attempts_bind, wp_rollback]
  refine hflip.mono (fun _ _ hs => ⟨rfl, hs⟩) fun e _ he => ?_
  exact wp_ite.mpr ⟨fun _ => he, fun _ => ⟨rfl, h⟩⟩

/-- Every action keeps the counters backed, or notes a lost credit. -/
theorem exec_covered (a : DexAction) (deltas : StorageCreditDeltas)
    (h : Saturated s ∨ Backed s deltas.total) :
    Wp (a.exec spec deltas) s (fun deltas' s' => Saturated s' ∨ Backed s' deltas'.total)
      fun e s' => Saturated s' ∨ NotFatal e := by
  rcases h with hlost | hbacked
  · exact (exec_saturated a deltas hlost).mono (fun _ _ => .inl) fun _ _ => .inl
  · cases a with
    | write f =>
      exact ((writeSlots_backed f hbacked).mono (fun _ _ hs => hs)
        fun _ _ => .inr).bind fun _ _ hs => .inr hs
    | unlink maker f =>
      refine Wp.bind (Q := fun _ s' => Backed s' deltas.total)
        (((trackOrder_backed hspec f hbacked).bind fun credits s' hs => ?_).mono
          (fun _ _ hs => hs) fun _ _ => .inr) fun _ _ hs => .inr hs
      exact wp_ite.mpr ⟨fun _ => hs.mono (Nat.le_add_right _ _),
        fun _ => creditDexStorageSlots_backed hspec maker hs⟩
    | delete maker f =>
      refine ((trackOrder_backed hspec f hbacked).mono (fun _ _ hs => hs)
        fun _ _ => .inr).bind fun credits s' hs => ?_
      exact ((creditDexStorageSlots_backed hspec maker hs).mono
        (fun _ _ hs => hs) fun _ _ => .inr).bind fun _ _ hs => .inr hs
    | deferred maker f =>
      refine ((trackOrder_backed hspec f hbacked).mono (fun _ _ hs => hs)
        fun _ _ => .inr).bind fun credits s' hs => ?_
      exact .inr (hs.mono (StorageCreditDeltas.total_creditSlots_le maker credits deltas))
    | place maker f =>
      exact (writeOrderSpending_backed hspec maker f hbacked).bind fun _ _ hs => hs
    | flip maker before record after =>
      refine (flip_backed hspec maker before record after deltas
        hbacked).mono (fun deltas' s' hs => ?_) fun _ _ => .inr
      obtain ⟨rfl, hs⟩ := hs
      exact .inr hs

end

variable {deltas : StorageCreditDeltas}

theorem execAll_covered (hspec : .t7 ≤ spec) (actions : List DexAction)
    (h : Saturated s ∨ Backed s deltas.total) :
    Wp (execAll spec actions deltas) s (fun deltas' s' => Saturated s' ∨ Backed s' deltas'.total)
      fun e s' => Saturated s' ∨ NotFatal e := by
  induction actions generalizing s deltas with
  | nil => exact h
  | cons a rest ih =>
    exact (exec_covered hspec a deltas h).bind fun _ _ hs => ih hs

theorem flush_covered (hspec : .t7 ≤ spec) (h : Saturated s ∨ Backed s deltas.total) :
    Wp (deltas.forM fun entry => creditDexStorageSlots spec entry.1 entry.2) s
      (fun _ s' => Saturated s' ∨ Backed s' 0) fun e s' => Saturated s' ∨ NotFatal e := by
  induction deltas generalizing s with
  | nil => exact h
  | cons entry rest ih =>
    rcases h with hlost | hbacked
    · exact ((creditDexStorageSlots_saturated _ _ hlost).mono
        (fun _ _ hs => hs) fun _ _ => .inl).bind fun _ _ hs => ih (.inl hs)
    · have hfirst : Backed s (StorageCreditDeltas.total rest + entry.2) := by
        simpa [StorageCreditDeltas.total, add_comm] using hbacked
      exact ((creditDexStorageSlots_backed hspec entry.1 hfirst).mono
        (fun _ _ hs => hs) fun _ _ => .inr).bind fun _ _ hs => ih (.inr hs)

theorem operation_ready (hspec : .t7 ≤ spec) (actions : List DexAction) (h : Ready s) :
    Wp (operation spec actions) s (fun _ s' => Ready s') fun e s' => Saturated s' ∨ NotFatal e := by
  have hmode : Wp (preserveStorageCredits spec) s (fun _ s' => Saturated s' ∨ Backed s' 0)
      fun e s' => Saturated s' ∨ NotFatal e := by
    rcases h with hlost | hbacked
    · rw [preserveStorageCredits, if_pos hspec]
      exact .inl hlost
    · exact (preserveStorageCredits_backed hspec hbacked).mono
        (fun _ _ => .inr) fun _ _ hfalse => hfalse.elim
  refine hmode.bind fun _ s1 h1 => ?_
  refine (execAll_covered hspec actions h1).bind fun deltas s2 h2 => ?_
  refine (flush_covered hspec h2).mono (fun _ s3 h3 => ?_) fun _ _ he => he
  rcases h3 with hlost | hbacked
  · exact .inl hlost
  · exact hbacked.ready

end DexAction

/-- An operation of the exchange, or whatever happens to the mode of its
credits between transactions. -/
inductive DexCredits.Step : DexCredits → DexCredits → Prop
  | operation {s s' : DexCredits} (spec : TempoHardfork)
      (actions : List DexAction) (hspec : .t7 ≤ spec)
      (h : Yields (DexAction.operation spec actions) s () s') : Step s s'
  | transaction (s : DexCredits) (mode : CreditMode) (budget pendingRefunds : Nat) :
      Step s { s with credits := { s.credits with
        mode, budget, pendingRefunds } }

theorem DexCredits.run_ready {s s' : DexCredits} (hrun : Relation.ReflTransGen DexCredits.Step s s')
    (h : StorageCredits.Ready s) : StorageCredits.Ready s' := by
  refine run_invariant (I := StorageCredits.Ready) (fun s1 s2 h1 hstep => ?_) hrun h
  cases hstep with
  | operation spec actions hspec hop =>
    exact (wp_iff.mp (DexAction.operation_ready hspec actions h1)).1 _ _ hop
  | transaction => exact h1.transaction rfl rfl rfl

end Tempo
