/-
Storage accesses of a transaction and the actions they record.  A slot that is
incremented, decremented or swapped on is recorded by the change made to it,
unless an increment or decrement crosses zero: that one is recorded as an exact
read and write.  An access that fails records nothing.
-/
import Mathlib
import Tempo.FeeManager.Amm
import Tempo.Library.Program

namespace Tempo

open Function

/-- A storage slot of an account. -/
structure Slot where
  address : Address
  key : B256
  deriving DecidableEq

/-- A recorded storage access, with the value the slot held before. -/
inductive StorageAction where
  | sload (slot : Slot) (value : B256)
  | feeTokenBalanceCheck (slot : Slot) (sloadValue required : B256) (sufficient : Bool)
  | sstore (slot : Slot) (sloadValue value : B256)
  | sinc (slot : Slot) (sloadValue delta : B256)
  | sdec (slot : Slot) (sloadValue delta : B256)
  | feeAmmSwap (key sloadValue amountIn : B256)
  | feeAmmLiquidityCheck (key sloadValue amountOut : B256) (hasEnoughLiquidity : Bool)
  deriving DecidableEq

/-- The slot of a pool of the fee AMM. -/
def poolSlot (key : B256) : Slot :=
  ⟨tipFeeManagerAddress, key⟩

/-! Words. -/

def checkedAddWord (a b : B256) : Option B256 :=
  (checkedAdd 256 a.toNat b.toNat).map (BitVec.ofNat 256)

def checkedSubWord (a b : B256) : Option B256 :=
  (checkedSub a.toNat b.toNat).map (BitVec.ofNat 256)

/-! Pools in their slots: the user reserve is the lower half of the word. -/

namespace Pool

def decodeFromSlot (slotValue : B256) : Pool where
  reserveUserToken := slotValue.toNat % 2 ^ 128
  reserveValidatorToken := slotValue.toNat / 2 ^ 128

def encodeToSlot (pool : Pool) : B256 :=
  BitVec.ofNat 256 (pool.reserveValidatorToken * 2 ^ 128 + pool.reserveUserToken)

def applySwap (pool : Pool) (amountIn amountOut : Nat) : Except TempoPrecompileError Pool :=
  if pool.reserveValidatorToken < amountOut then
    .error (.tipFeeAMM .insufficientLiquidity)
  else
    match tryInto 128 amountIn, tryInto 128 amountOut with
    | some amountIn, some amountOut =>
      match checkedAdd 128 pool.reserveUserToken amountIn,
        checkedSub pool.reserveValidatorToken amountOut with
      | some reserveUserToken, some reserveValidatorToken =>
        .ok ⟨reserveUserToken, reserveValidatorToken⟩
      | _, _ => .error .underOverflow
    | _, _ => .error .underOverflow

def hasEnoughReserveValidatorToken (pool : Pool) (amount : B256) : Bool :=
  decide (amount.toNat ≤ pool.reserveValidatorToken)

end Pool

/-- A swap on the slot of a pool. -/
def swapSlot (slotValue amountIn : B256) : Except TempoPrecompileError B256 :=
  match TipFeeManager.computeAmountOut amountIn.toNat with
  | none => .error .underOverflow
  | some amountOut =>
    match (Pool.decodeFromSlot slotValue).applySwap amountIn.toNat amountOut with
    | .error e => .error e
    | .ok pool => .ok pool.encodeToSlot

/-! The journal of a transaction. -/

/-- The values at the start of the transaction, the present ones, and which
slots were written. -/
structure Journal where
  original : Slot → B256
  present : Slot → B256
  written : Slot → Bool

/-- What the gas of a write depends on. -/
structure SStoreResult where
  originalValue : B256
  presentValue : B256
  newValue : B256
  deriving DecidableEq

/-- Whether a write changes that a slot is occupied. -/
inductive Crossing where
  | kept
  | created
  | cleared
  deriving DecidableEq

def crossing (present new : B256) : Crossing :=
  if present = 0 ∧ new ≠ 0 then .created
  else if present ≠ 0 ∧ new = 0 then .cleared
  else .kept

namespace Journal

def start (state : Slot → B256) : Journal where
  original := state
  present := state
  written _ := false

def sstore (j : Journal) (slot : Slot) (value : B256) : Journal :=
  { j with
    present := update j.present slot value
    written := update j.written slot true }

@[simp]
theorem sstore_self (j : Journal) (slot : Slot) (value : B256) :
    (j.sstore slot value).present slot = value ∧ (j.sstore slot value).written slot = true :=
  ⟨update_self .., update_self ..⟩

theorem sstore_of_ne (j : Journal) {slot s : Slot} (value : B256)
    (h : s ≠ slot) : (j.sstore slot value).present s = j.present s ∧
      (j.sstore slot value).written s = j.written s := ⟨update_of_ne h .., update_of_ne h ..⟩

def sstoreResult (j : Journal) (slot : Slot) (value : B256) : SStoreResult :=
  ⟨j.original slot, j.present slot, value⟩

/-- The written slots with their first and last values. -/
def writtenSlots (j : Journal) (slot : Slot) : Option (B256 × B256) :=
  if j.written slot then some (j.original slot, j.present slot) else none

end Journal

/-! Accesses. -/

/-- What a transaction asks of the storage. -/
inductive Access where
  | sload (slot : Slot)
  | sstore (slot : Slot) (value : B256)
  | sinc (slot : Slot) (delta : B256)
  | sdec (slot : Slot) (delta : B256)
  | executeFeeSwap (key amountIn : B256)
  | feeAmmLiquidityCheck (key amountOut : B256)
  | feeTokenBalanceCheck (slot : Slot) (required : B256)

/-- What the storage answers.  A write reports whether it crossed zero: the
storage credits depend on it. -/
inductive Response where
  | value (word : B256)
  | wrote (c : Crossing)
  | answer (b : Bool)
  | failed (e : TempoPrecompileError)
  deriving DecidableEq

/-- An access made: the answer, the journal after it, the actions it records
and the writes it makes. -/
structure Performed where
  response : Response
  journal : Journal
  actions : List StorageAction
  writes : List SStoreResult

namespace Journal

variable (j : Journal)

/-- An access that fails is not recorded. -/
def fail (e : TempoPrecompileError) : Performed :=
  ⟨.failed e, j, [], []⟩

def sloadInner (slot : Slot) : Performed :=
  ⟨.value (j.present slot), j, [.sload slot (j.present slot)], []⟩

def sstoreInner (slot : Slot) (value : B256) (actions : List StorageAction) : Performed :=
  ⟨.wrote (crossing (j.present slot) value), j.sstore slot value, actions,
    [j.sstoreResult slot value]⟩

def performSstore (slot : Slot) (value : B256) : Performed :=
  j.sstoreInner slot value [.sstore slot (j.present slot) value]

def sinc (slot : Slot) (delta : B256) : Performed :=
  let current := j.present slot
  match checkedAddWord current delta with
  | none => j.fail .underOverflow
  | some value =>
    j.sstoreInner slot value (if current = 0 ∧ value ≠ 0 then
        [.sload slot current, .sstore slot current value] else [.sinc slot current delta])

def sdec (slot : Slot) (delta : B256) : Performed :=
  let current := j.present slot
  match checkedSubWord current delta with
  | none => j.fail (.storageDeltaUnderflow current.toNat)
  | some value =>
    j.sstoreInner slot value (if current ≠ 0 ∧ value = 0 then
        [.sload slot current, .sstore slot current value] else [.sdec slot current delta])

/-- The accesses of a swap are not recorded one by one. -/
def executeFeeSwap (key amountIn : B256) : Performed :=
  let slot := poolSlot key
  let pool := Pool.decodeFromSlot (j.present slot)
  match swapSlot (j.present slot) amountIn with
  | .error e => j.fail e
  | .ok value =>
    j.sstoreInner slot value [.feeAmmSwap key pool.encodeToSlot amountIn]

/-- A check of `plan_fee_route`. -/
def feeAmmLiquidityCheck (key amountOut : B256) : Performed :=
  let pool := Pool.decodeFromSlot (j.present (poolSlot key))
  let enough := pool.hasEnoughReserveValidatorToken amountOut
  ⟨.answer enough, j, [.feeAmmLiquidityCheck key pool.encodeToSlot amountOut enough], []⟩

def feeTokenBalanceCheck (slot : Slot) (required : B256) : Performed :=
  let balance := j.present slot
  let sufficient := decide (required ≤ balance)
  ⟨.answer sufficient, j, [.feeTokenBalanceCheck slot balance required sufficient], []⟩

def perform : Access → Performed
  | .sload slot => j.sloadInner slot
  | .sstore slot value => j.performSstore slot value
  | .sinc slot delta => j.sinc slot delta
  | .sdec slot delta => j.sdec slot delta
  | .executeFeeSwap key amountIn => j.executeFeeSwap key amountIn
  | .feeAmmLiquidityCheck key amountOut => j.feeAmmLiquidityCheck key amountOut
  | .feeTokenBalanceCheck slot required => j.feeTokenBalanceCheck slot required

end Journal

/-! Transactions. -/

/-- A transaction is a deterministic program over the storage. -/
abbrev Transaction (α : Type) := Program Access Response α

namespace Transaction

variable {α : Type}

def handle (op : Access) (j : Journal) : Response × Journal :=
  ((j.perform op).response, (j.perform op).journal)

/-- The value a transaction ends with and its journal. -/
def execute (t : Transaction α) (j : Journal) : α × Journal :=
  t.run handle j

/-- The branches of a transaction: what it asks and what it is answered. -/
def branches (t : Transaction α) (j : Journal) : List (Access × Response) :=
  t.trace handle j

/-- The actions a transaction records. -/
def recording (t : Transaction α) (j : Journal) : List StorageAction :=
  t.emitted handle (fun op j => (j.perform op).actions) j

/-- The writes a transaction makes. -/
def writes (t : Transaction α) (j : Journal) : List SStoreResult :=
  t.emitted handle (fun op j => (j.perform op).writes) j

end Transaction

end Tempo
