/-
The block executor's sections and gas lanes.  A transaction is first validated
against the section the block is in and the gas that is left, and then
committed.  Gas counters are machine words and wrap around.  What the wrapped
executor does with a transaction is left open, but for whether it accepts the
transaction and the gas it reports.
-/
import Mathlib
import Tempo.Primitives.Address
import Tempo.Primitives.Hardfork

namespace Tempo

namespace Block

/-- The first bytes of a validator's public key. -/
abbrev PartialValidatorKey := BitVec 120

inductive BlockSection where
  | startOfBlock
  | nonShared
  | subBlock (proposer : PartialValidatorKey)
  | gasIncentive
  | system (seenSubblocksSignatures : Bool)
  deriving DecidableEq

inductive SubBlockVersion where
  | v1
  deriving DecidableEq

structure SubBlockMetadata where
  version : SubBlockVersion
  validator : B256
  feeRecipient : Address
  signature : List UInt8
  deriving DecidableEq

/-- What the executor reads of a transaction. -/
structure TempoTxEnvelope where
  isSystemTx : Bool
  to' : Address
  /-- The metadata in the input, if it ends in the block number and decodes. -/
  metadata : Option (List SubBlockMetadata)
  subblockProposer : Option PartialValidatorKey
  isPaymentV1 : Bool
  isPaymentV2 : Bool
  gasLimit : Nat
  deriving DecidableEq

/-- A validator's key starts with the partial one. -/
def PartialValidatorKey.matches (p : PartialValidatorKey) (v : B256) : Bool :=
  decide (v.extractLsb' 136 120 = p)

/-- The block, the configuration, and what is decided by cryptography and by
the wrapped executor. -/
structure BlockCtx where
  spec : TempoHardfork
  gasLimit : Nat
  sharedGasLimit : Nat
  generalGasLimit : Nat
  txGasLimitCap : Option Nat
  validatorSet : Option (List B256)
  decodesValidator : B256 → Bool
  decodesSignature : List UInt8 → Bool
  verifies : SubBlockMetadata → List TempoTxEnvelope → Bool
  subblockFeeRecipients : PartialValidatorKey → Option Address
  /-- Whether a transaction is run after so much gas was used in the block. -/
  accepts : Nat → TempoTxEnvelope → Bool

structure Executor where
  blockSection : BlockSection
  seenSubblocks : List (PartialValidatorKey × List TempoTxEnvelope)
  nonSharedGasLeft : Nat
  nonPaymentGasLeft : Nat
  incentiveGasUsed : Nat
  /-- The gas that the wrapped executor has counted. -/
  gasUsed : Nat

def wordSize : Nat := 2 ^ 64

def wrappingAdd (a b : Nat) : Nat := (a + b) % wordSize

def wrappingSub (a b : Nat) : Nat := (a + wordSize - b) % wordSize

def Executor.new (ctx : BlockCtx) : Executor where
  blockSection := .startOfBlock
  seenSubblocks := []
  nonSharedGasLeft := ctx.gasLimit - ctx.sharedGasLimit
  nonPaymentGasLeft := ctx.generalGasLimit
  incentiveGasUsed := 0
  gasUsed := 0

/-- The gas a transaction may use at most. -/
def BlockCtx.reserved (ctx : BlockCtx) (tx : TempoTxEnvelope) : Nat :=
  min tx.gasLimit (ctx.txGasLimitCap.getD (wordSize - 1))

def BlockCtx.isPayment (ctx : BlockCtx) (tx : TempoTxEnvelope) : Bool :=
  if .t5 ≤ ctx.spec then tx.isPaymentV2 else tx.isPaymentV1

namespace Executor

/-- The sum of what the transactions of a subblock reserve. -/
def reservedGas (ctx : BlockCtx) (txs : List TempoTxEnvelope) : Nat :=
  txs.foldl (fun sum tx => wrappingAdd sum (ctx.reserved tx)) 0

/-- The transactions of a validator's subblock, if it is the next one. -/
def nextSubblock (subblocks : List (PartialValidatorKey × List TempoTxEnvelope))
    (nextNonEmpty : Nat) (validator : B256) : Nat × List TempoTxEnvelope :=
  match subblocks[nextNonEmpty]? with
  | some (p, txs) =>
    if p.matches validator then (nextNonEmpty + 1, txs)
    else (nextNonEmpty, [])
  | none => (nextNonEmpty, [])

/-- The loop over the metadata: the validators seen, how many non-empty
subblocks were matched, and the gas left for incentives. -/
def sharedGasLoop (ctx : BlockCtx) (set : List B256)
    (subblocks : List (PartialValidatorKey × List TempoTxEnvelope)) (gasPerSubblock : Nat) :
    List SubBlockMetadata → List B256 → Nat → Nat → Except String (Nat × Nat)
  | [], _, nextNonEmpty, incentiveGas => .ok (nextNonEmpty, incentiveGas)
  | m :: rest, seen, nextNonEmpty, incentiveGas =>
    if m.validator ∉ set then .error "invalid subblock validator"
    else if m.validator ∈ seen then
      .error "only one subblock per validator is allowed"
    else
      let (nextNonEmpty, transactions) :=
        nextSubblock subblocks nextNonEmpty m.validator
      let reserved := reservedGas ctx transactions
      if ctx.decodesValidator m.validator = false then
        .error "invalid subblock validator"
      else if ctx.decodesSignature m.signature = false then
        .error "invalid subblock signature encoding"
      else if ctx.verifies m transactions = false then
        .error "invalid subblock signature"
      else if gasPerSubblock < reserved then
        .error "subblock gas used exceeds gas per subblock"
      else
        sharedGasLoop ctx set subblocks gasPerSubblock rest (m.validator :: seen) nextNonEmpty
          (wrappingAdd incentiveGas (gasPerSubblock - reserved))

/-- A set that is known must not be empty: the source panics otherwise. -/
def validateSharedGas (ctx : BlockCtx) (s : Executor)
    (metadata : List SubBlockMetadata) : Except String Unit :=
  match ctx.validatorSet with
  | none => .ok ()
  | some set =>
    if set.length = 0 then .error "validator set must not be empty"
    else
      match sharedGasLoop ctx set s.seenSubblocks
          (ctx.sharedGasLimit / set.length) metadata [] 0 0 with
      | .error msg => .error msg
      | .ok (nextNonEmpty, incentiveGas) =>
        if nextNonEmpty ≠ s.seenSubblocks.length then
          .error "failed to map all non-empty subblocks to metadata"
        else if incentiveGas < s.incentiveGasUsed then
          .error "incentive gas limit exceeded"
        else .ok ()

def seenSubblocksSignatures : BlockSection → Bool
  | .system seen => seen
  | _ => false

def validateSystemTx (ctx : BlockCtx) (s : Executor) (tx : TempoTxEnvelope) :
    Except String BlockSection :=
  if tx.to' = 0 then
    if seenSubblocksSignatures s.blockSection then
      .error "duplicate subblocks metadata system transaction"
    else if .t4 ≤ ctx.spec then .error "subblocks are disabled in T4+"
    else
      match tx.metadata with
      | none => .error "invalid subblocks metadata system transaction"
      | some metadata =>
        match validateSharedGas ctx s metadata with
        | .error msg => .error msg
        | .ok () => .ok (.system true)
  else .error "invalid system transaction"

def validateTxPreExecution (ctx : BlockCtx) (s : Executor) (tx : TempoTxEnvelope) :
    Except String (Option BlockSection) :=
  if tx.isSystemTx then (validateSystemTx ctx s tx).map some
  else if .t4 ≤ ctx.spec ∧ tx.subblockProposer.isSome then
    .error "subblock transactions are not supported"
  else .ok none

def validateTx (ctx : BlockCtx) (s : Executor) (tx : TempoTxEnvelope)
    (gasUsed : Nat) : Except String BlockSection :=
  if tx.isSystemTx then validateSystemTx ctx s tx
  else
    match tx.subblockProposer with
    | some txProposer =>
      if .t4 ≤ ctx.spec then .error "subblock transactions are not supported"
      else
        match s.blockSection with
        | .gasIncentive => .error "subblock section already passed"
        | .system _ => .error "subblock section already passed"
        | .startOfBlock => .ok (.subBlock txProposer)
        | .nonShared => .ok (.subBlock txProposer)
        | .subBlock proposer =>
          if proposer = txProposer ∨ ¬s.seenSubblocks.any (fun p => p.1 = txProposer) then
            .ok (.subBlock txProposer)
          else .error "proposer's subblock already processed"
    | none =>
      match s.blockSection with
      | .startOfBlock | .nonShared =>
        -- a transaction that does not fit spills into the incentive section
        if s.nonSharedGasLeft < gasUsed ∨
            (ctx.isPayment tx = false ∧ s.nonPaymentGasLeft < gasUsed) then
          .ok .gasIncentive
        else .ok .nonShared
      | .subBlock _ => .ok .gasIncentive
      | .gasIncentive => .ok .gasIncentive
      | .system _ =>
        .error "regular transaction can't follow system transaction"

/-- The subblock of the last proposer is continued, another one opened. -/
def pushSubblock (proposer : PartialValidatorKey) (tx : TempoTxEnvelope)
    (subblocks : List (PartialValidatorKey × List TempoTxEnvelope)) :
    List (PartialValidatorKey × List TempoTxEnvelope) :=
  match subblocks.getLast? with
  | some (p, txs) =>
    if p = proposer then subblocks.dropLast ++ [(p, txs ++ [tx])]
    else subblocks ++ [(proposer, [tx])]
  | none => [(proposer, [tx])]

def commitTransaction (ctx : BlockCtx) (s : Executor) (tx : TempoTxEnvelope)
    (gasUsed : Nat) (next : BlockSection) : Executor :=
  let s := { s with gasUsed := wrappingAdd s.gasUsed gasUsed }
  match next with
  | .startOfBlock => { s with blockSection := next }
  | .nonShared =>
    { s with
      blockSection := next
      nonSharedGasLeft := wrappingSub s.nonSharedGasLeft gasUsed
      nonPaymentGasLeft :=
        if ctx.isPayment tx then s.nonPaymentGasLeft
        else wrappingSub s.nonPaymentGasLeft gasUsed }
  | .subBlock proposer =>
    { s with
      blockSection := next
      seenSubblocks := pushSubblock proposer tx s.seenSubblocks }
  | .gasIncentive =>
    { s with
      blockSection := next
      incentiveGasUsed := wrappingAdd s.incentiveGasUsed gasUsed }
  | .system _ => { s with blockSection := next }

/-- The gas of an executed transaction: system transactions consume none. -/
def blockGasUsed (tx : TempoTxEnvelope) (gasUsed : Nat) : Nat :=
  if tx.isSystemTx then 0 else gasUsed

/-- A transaction is executed, with the gas the EVM uses. -/
def executeTransactionWithoutCommit (ctx : BlockCtx) (s : Executor) (tx : TempoTxEnvelope)
    (gasUsed : Nat) : Except String BlockSection := do
  let nextSection ← validateTxPreExecution ctx s tx
  if tx.subblockProposer.any fun validator => (ctx.subblockFeeRecipients validator).isNone then
    .error "invalid subblock transaction"
  else if ctx.accepts s.gasUsed tx = false then
    .error "transaction gas limit is more than available block gas"
  else
    match nextSection with
    | some nextSection => .ok nextSection
    | none => validateTx ctx s tx gasUsed

/-- A transaction is executed and committed. -/
def step (ctx : BlockCtx) (s : Executor) (tx : TempoTxEnvelope)
    (gasUsed : Nat) : Except String Executor := do
  let next ← executeTransactionWithoutCommit ctx s tx (blockGasUsed tx gasUsed)
  pure (commitTransaction ctx s tx (blockGasUsed tx gasUsed) next)

def run (ctx : BlockCtx) : Executor → List (TempoTxEnvelope × Nat) → Except String Executor
  | s, [] => .ok s
  | s, (tx, gasUsed) :: rest => do
    let s' ← step ctx s tx gasUsed
    run ctx s' rest

/-- The gas checks at the end of the block. -/
def finish (ctx : BlockCtx) (s : Executor) : Except String Unit :=
  if .t4 ≤ ctx.spec then
    if 0 < s.incentiveGasUsed then .error "incentive gas limit exceeded"
    else if seenSubblocksSignatures s.blockSection = false then
      validateSharedGas ctx s []
    else .ok ()
  else .ok ()

end Executor

end Block

end Tempo
