/-
Replaying recorded actions on the state of a block.  Exact reads and writes
must find the recorded value, changes are applied to whatever the slot holds
by then, and checks must come out as recorded.  A slot that the block has not
cached is taken to hold its recorded value.
-/
import Tempo.Replay.Recording

namespace Tempo

open Function

inductive StorageActionReplayError where
  | transactionExecutionFailed
  | actionConflict
  | overflow
  | underflow
  deriving DecidableEq

/-- A slot in the block's cache: an account that is known not to exist has no
storage, one whose storage is known holds zero elsewhere. -/
structure CacheAccount where
  account : Option (B256 → Option B256)
  isStorageKnown : Bool

abbrev Cache := Address → Option CacheAccount

structure SlotChange where
  original : B256
  current : B256
  written : Bool

/-- The changes of the transaction that is replayed. -/
abbrev TxChanges := Slot → Option SlotChange

def cachedStorageValue (db : Cache) (slot : Slot) : Option B256 :=
  (db slot.address).bind fun cached =>
    match cached.account with
    | none => some 0
    | some storage =>
      match storage slot.key with
      | some value => some value
      | none => if cached.isStorageKnown then some 0 else none

namespace TxChanges

variable (db : Cache) (c : TxChanges)

def put (slot : Slot) (change : SlotChange) : TxChanges :=
  update c slot (some change)

theorem put_self (slot : Slot) (change : SlotChange) :
    c.put slot change slot = some change := update_self ..

theorem put_of_ne {slot s : Slot} (change : SlotChange) (h : s ≠ slot) :
    c.put slot change s = c s := update_of_ne h ..

theorem put_eq_none {slot s : Slot} {change : SlotChange} :
    c.put slot change s = none ↔ c s = none ∧ s ≠ slot := by
  by_cases h : s = slot
  · subst h
    simp [put_self]
  · simp [put_of_ne c change h, h]

/-- Stores the value of a slot that has already been loaded. -/
def sstore (slot : Slot) (value : B256) : Except StorageActionReplayError TxChanges :=
  match c slot with
  | none => .error .actionConflict
  | some change =>
    .ok (c.put slot { change with current := value, written := true })

/-- The current value of a slot, which must be the expected one. -/
def sloadExact (slot : Slot) (expected : B256) :
    Except StorageActionReplayError (B256 × TxChanges) :=
  match c slot with
  | some change =>
    if change.current ≠ expected then .error .actionConflict
    else .ok (change.current, c)
  | none =>
    let current := (cachedStorageValue db slot).getD expected
    if current ≠ expected then .error .actionConflict
    else .ok (current, c.put slot ⟨current, current, false⟩)

/-- The current value of a slot, whatever it is. -/
def sloadCurrentOr (slot : Slot) (fallback : B256) : B256 × TxChanges :=
  match c slot with
  | some change => (change.current, c)
  | none =>
    let current := (cachedStorageValue db slot).getD fallback
    (current, c.put slot ⟨current, current, false⟩)

def sstoreExact (slot : Slot) (expected value : B256) :
    Except StorageActionReplayError TxChanges := do
  let (_, c) ← c.sloadExact db slot expected
  c.sstore slot value

/-- A change applied to the current value, or `e` if there is no result. -/
def rebase (slot : Slot) (sloadValue : B256) (f : B256 → Option B256)
    (e : StorageActionReplayError) : Except StorageActionReplayError TxChanges :=
  let (current, c) := c.sloadCurrentOr db slot sloadValue
  match f current with
  | none => .error e
  | some value => c.sstore slot value

/-- A check of the current value that must come out as recorded. -/
def check (slot : Slot) (sloadValue : B256) (f : B256 → Bool)
    (recorded : Bool) : Except StorageActionReplayError TxChanges :=
  let (current, c) := c.sloadCurrentOr db slot sloadValue
  if f current ≠ recorded then .error .actionConflict else .ok c

def replayAction : StorageAction → Except StorageActionReplayError TxChanges
  | .sload slot value => do
    let (_, c) ← c.sloadExact db slot value
    .ok c
  | .feeTokenBalanceCheck slot sloadValue required sufficient =>
    c.check db slot sloadValue (fun balance => decide (required ≤ balance)) sufficient
  | .sstore slot sloadValue value => c.sstoreExact db slot sloadValue value
  | .sinc slot sloadValue delta =>
    c.rebase db slot sloadValue (fun current => checkedAddWord current delta) .overflow
  | .sdec slot sloadValue delta =>
    c.rebase db slot sloadValue (fun current => checkedSubWord current delta) .underflow
  | .feeAmmSwap key sloadValue amountIn =>
    c.rebase db (poolSlot key) sloadValue
      (fun current => (swapSlot current amountIn).toOption) .actionConflict
  | .feeAmmLiquidityCheck key sloadValue amountOut hasEnoughLiquidity =>
    c.check db (poolSlot key) sloadValue (fun current => (Pool.decodeFromSlot
        current).hasEnoughReserveValidatorToken amountOut) hasEnoughLiquidity

/-- The loop over the recorded actions. -/
def replayFrom : TxChanges → List StorageAction → Except StorageActionReplayError TxChanges
  | c, [] => .ok c
  | c, action :: rest => do
    let c ← c.replayAction db action
    replayFrom c rest

/-- The slots a replay writes, with their first and last values. -/
def writtenSlots (slot : Slot) : Option (B256 × B256) :=
  match c slot with
  | some change =>
    if change.written then some (change.original, change.current) else none
  | none => none

end TxChanges

/-- No slot is loaded before the transaction. -/
def TxChanges.empty : TxChanges := fun _ => none

/-- Replaying a recording on a block: the slots it writes. -/
def replayActions (db : Cache) (actions : List StorageAction) :
    Except StorageActionReplayError (Slot → Option (B256 × B256)) := do
  let c ← TxChanges.replayFrom db .empty actions
  .ok c.writtenSlots

/-- The state of a block on top of its parent: the cache, and the parent's
values elsewhere. -/
def blockState (db : Cache) (parent : Slot → B256) (slot : Slot) : B256 :=
  (cachedStorageValue db slot).getD (parent slot)

/-! What a replay changes that the recording could not foresee. -/

/-- The slot an action changes by a difference, the value recorded for it, and
the change. -/
def StorageAction.delta : StorageAction → Option (Slot × B256 × (B256 → Option B256))
  | .sinc slot value delta =>
    some (slot, value, fun current => checkedAddWord current delta)
  | .sdec slot value delta =>
    some (slot, value, fun current => checkedSubWord current delta)
  | .feeAmmSwap key value amountIn =>
    some (poolSlot key, value, fun current => (swapSlot current amountIn).toOption)
  | _ => none

/-- The slot an action writes. -/
def StorageAction.written : StorageAction → Option Slot
  | .sstore slot _ _ => some slot
  | .sinc slot _ _ => some slot
  | .sdec slot _ _ => some slot
  | .feeAmmSwap key _ _ => some (poolSlot key)
  | _ => none

/-- Every replayed difference crosses zero as it did when it was recorded. -/
def SameCrossings (db : Cache) : TxChanges → List StorageAction → Prop
  | _, [] => True
  | c, action :: rest =>
    (∀ slot value f, action.delta = some (slot, value, f) →
      ∀ before after, (f value) = some before → f (c.sloadCurrentOr db slot value).1 = some after →
        crossing (c.sloadCurrentOr db slot value).1 after = crossing value before) ∧
    ∀ c', c.replayAction db action = .ok c' → SameCrossings db c' rest

/-- The write between two states of a replay. -/
def TxChanges.writeResult (c c' : TxChanges) (slot : Slot) : List SStoreResult :=
  match c' slot with
  | none => []
  | some change =>
    [⟨change.original, ((c slot).map SlotChange.current).getD change.original, change.current⟩]

/-- The writes a replay makes. -/
def replayedWrites (db : Cache) : TxChanges → List StorageAction → List SStoreResult
  | _, [] => []
  | c, action :: rest =>
    match c.replayAction db action with
    | .error _ => []
    | .ok c' =>
      (match action.written with
        | none => []
        | some slot => c.writeResult c' slot) ++ replayedWrites db c' rest

end Tempo
