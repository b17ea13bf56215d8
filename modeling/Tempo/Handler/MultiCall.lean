/-
Atomic execution of a batch of calls.  The calls share one transaction
environment and two gas pools; a call that fails takes back what those before
it did, and the caller's nonce is then bumped by hand.
-/
import Tempo.Library.Exec
import Tempo.Transaction.Transaction

namespace Tempo.Tx

/-- The fields of the environment that are rewritten for each call. -/
structure TxEnv where
  kind : TxKind
  value : BitVec 256
  data : Bytes
  gasLimit : Nat

/-- Regular gas and the reservoir; refunds and state gas are signed. -/
structure Gas where
  limit : Nat
  remaining : Nat
  reservoir : Nat
  refunded : Int
  stateGasSpent : Int

inductive InstructionResult where
  | ok
  | revert
  | halt
  deriving DecidableEq

structure FrameResult where
  instructionResult : InstructionResult
  gas : Gas

structure Evm (σ : Type) where
  journal : σ
  tx : TxEnv

inductive EvmError (ε : Type) where
  | custom (message : String)
  | other (e : ε)

abbrev EvmExec (σ ε : Type) := EStateM (EvmError ε) (Evm σ)

/-- What a batch runs with.  Only keychain transactions from T3 on have their
call scopes checked, for some gas; a transaction without a Tempo environment
has no nonce key.  What refilling the reservoir takes off the state gas is up
to the library. -/
structure BatchContext (σ ε : Type) where
  executeSingle : Gas → EvmExec σ ε FrameResult
  validateCallScopes : Option (Evm σ → List Call → Nat → Nat →
    Except (EvmError ε) (Except FrameResult Nat))
  nonceKey : Option (BitVec 256)
  callerNonce : σ → Option Nat
  setCallerNonce : σ → Nat → σ
  createStateGas : Nat
  refilled : Nat → Int
  refilled_zero : refilled 0 = 0

/-- `i64::saturating_add`. -/
def saturatingAddI64 (a b : Int) : Int :=
  max (-maxWord 63 - 1) (min (a + b) (maxWord 63))

/-- `u64::saturating_add_signed`. -/
def saturatingAddSigned (a : Nat) (b : Int) : Nat :=
  min (a + b).toNat (maxWord 64)

/-- The accumulators of the loop. -/
structure BatchGas where
  remaining : Nat
  reservoir : Nat
  refund : Int
  stateGasSpent : Int
  finalResult : Option FrameResult

def BatchGas.add (t : BatchGas) (r : FrameResult) : BatchGas :=
  ⟨r.gas.remaining, r.gas.reservoir, saturatingAddI64 t.refund r.gas.refunded,
    saturatingAddI64 t.stateGasSpent r.gas.stateGasSpent, some r⟩

namespace BatchContext

variable {σ ε : Type} (c : BatchContext σ ε)

def createStateRefund (calls : List Call) : Nat :=
  c.createStateGas * calls.countP fun call => TxKind.isCreate call.to'

def normalizeFailedBatchResultGas (r : FrameResult) (finalGasLimit : Nat)
    (accumulatedStateGasSpent : Int) (createStateRefund : Nat) : FrameResult :=
  { r with
    gas :=
      { limit := finalGasLimit
        remaining := if r.instructionResult = .revert then r.gas.remaining else 0
        reservoir := saturatingAdd 64 (saturatingAddSigned (saturatingAddSigned r.gas.reservoir
          accumulatedStateGasSpent) r.gas.stateGasSpent) createStateRefund
        refunded := 0
        stateGasSpent := -c.refilled createStateRefund } }

/-- The gas left after the check, or the result that refuses the batch. -/
def prevalidateKeychainCallScopes (calls : List Call) (remainingGas reservoir : Nat) :
    EvmExec σ ε (Nat × Option FrameResult) :=
  match c.validateCallScopes with
  | none => pure (remainingGas, none)
  | some check => do
    let evm ← reads id
    let validation ← ofExcept (check evm calls remainingGas reservoir)
    match validation with
    | .ok gasUsed => pure (remainingGas - gasUsed, none)
    | .error r => pure (remainingGas, some r)

/-- One call under its own environment, which is restored in any case. -/
def executeCall (original : TxEnv) (call : Call) (remainingGas reservoir : Nat) :
    EvmExec σ ε FrameResult := fun evm =>
  match (c.executeSingle ⟨remainingGas, remainingGas, reservoir, 0, 0⟩).run
      { evm with tx := ⟨call.to', call.value, call.input, remainingGas⟩ } with
  | .ok r evm => .ok r { evm with tx := original }
  | .error e evm => .error e { evm with tx := original }

/-- A nonce that cannot grow, or an account that cannot be loaded, stays. -/
def bumpNonce (s : σ) : σ :=
  match c.callerNonce s with
  | some nonce => if nonce < maxWord 64 then c.setCallerNonce s (nonce + 1) else s
  | none => s

/-- The journal after the checkpoint was reverted. -/
def reverted (calls : List Call) (checkpoint : σ) : σ :=
  if c.nonceKey.all (· == 0) && calls.head?.any (TxKind.isCreate ·.to') then
    c.bumpNonce checkpoint
  else checkpoint

def failBatch (checkpoint : σ) (calls : List Call) (t : BatchGas) (r : FrameResult) :
    EvmExec σ ε FrameResult := do
  updates fun evm => { evm with journal := c.reverted calls checkpoint }
  let evm ← reads id
  pure (c.normalizeFailedBatchResultGas r evm.tx.gasLimit t.stateGasSpent
    (c.createStateRefund calls))

omit c in
def commitBatch (t : BatchGas) : EvmExec σ ε FrameResult := do
  let r ← orFail t.finalResult (.custom "No calls executed")
  let evm ← reads id
  pure { r with
    gas := ⟨evm.tx.gasLimit, r.gas.remaining, t.reservoir, t.refund, t.stateGasSpent⟩ }

/-- The loop; `calls` are those of the whole batch. -/
def executeCalls (original : TxEnv) (checkpoint : σ) (calls : List Call) :
    List Call → BatchGas → EvmExec σ ε FrameResult
  | [], t => commitBatch t
  | call :: rest, t => do
    let r ← c.executeCall original call t.remaining t.reservoir
    if r.instructionResult = .ok then executeCalls original checkpoint calls rest (t.add r)
    else c.failBatch checkpoint calls t r

def executeMultiCallWith (remainingGas reservoir : Nat) (calls : List Call) :
    EvmExec σ ε FrameResult := do
  let evm ← reads id
  let (remainingGas, refusal) ← c.prevalidateKeychainCallScopes calls remainingGas reservoir
  match refusal with
  | some r => pure (c.normalizeFailedBatchResultGas r evm.tx.gasLimit 0 (c.createStateRefund calls))
  | none => c.executeCalls evm.tx evm.journal calls calls ⟨remainingGas, reservoir, 0, 0, none⟩

/-- The calls run one after the other and succeed, each on what is left by the
one before. -/
inductive Succeed (original : TxEnv) :
    List Call → Nat → Nat → Evm σ → List FrameResult → Evm σ → Prop
  | nil {remaining reservoir : Nat} {evm : Evm σ} :
      Succeed original [] remaining reservoir evm [] evm
  | cons {call : Call} {rest : List Call} {remaining reservoir : Nat} {evm evm₁ evm₂ : Evm σ}
      {r : FrameResult} {rs : List FrameResult}
      (hcall : Yields (c.executeCall original call remaining reservoir) evm r evm₁)
      (hok : r.instructionResult = .ok)
      (hrest : Succeed original rest r.gas.remaining r.gas.reservoir evm₁ rs evm₂) :
      Succeed original (call :: rest) remaining reservoir evm (r :: rs) evm₂

variable {c} {original : TxEnv} {evm evm' : Evm σ} {call : Call} {calls : List Call}
  {remaining reservoir : Nat} {r : FrameResult} {rs : List FrameResult}

theorem executeCall_tx (h : Yields (c.executeCall original call remaining reservoir) evm r evm') :
    evm'.tx = original := by
  unfold Yields executeCall EStateM.run at h
  dsimp only at h
  split at h
  · cases h
    rfl
  · cases h

theorem Succeed.tx (h : c.Succeed original calls remaining reservoir evm rs evm')
    (htx : evm.tx = original) : evm'.tx = original := by
  induction h with
  | nil => exact htx
  | cons hcall _ _ ih => exact ih (executeCall_tx hcall)

theorem Succeed.length (h : c.Succeed original calls remaining reservoir evm rs evm') :
    rs.length = calls.length := by
  induction h with
  | nil => rfl
  | cons _ _ _ ih => rw [List.length_cons, List.length_cons, ih]

/-- The executor reports success, revert or halt. -/
def Reports (c : BatchContext σ ε) : Prop :=
  ∀ gas evm, ∃ r evm', Yields (c.executeSingle gas) evm r evm'

/-- Either all calls succeed, or the first that does not ends the loop. -/
theorem executeCalls_cases (hc : c.Reports) (original : TxEnv) (checkpoint : σ)
    (calls todo : List Call) (t : BatchGas) (evm : Evm σ) :
    (∃ rs evm', c.Succeed original todo t.remaining t.reservoir evm rs evm' ∧
      (c.executeCalls original checkpoint calls todo t).run evm =
        (commitBatch (rs.foldl .add t)).run evm') ∨
    ∃ before call after rs evm1 r evm2, todo = before ++ call :: after ∧
      c.Succeed original before t.remaining t.reservoir evm rs evm1 ∧
      Yields (c.executeCall original call (rs.foldl .add t).remaining
        (rs.foldl .add t).reservoir) evm1 r evm2 ∧ r.instructionResult ≠ .ok ∧
      (c.executeCalls original checkpoint calls todo t).run evm =
        (c.failBatch checkpoint calls (rs.foldl .add t) r).run evm2 := by
  induction todo generalizing t evm with
  | nil => exact .inl ⟨[], evm, .nil, rfl⟩
  | cons call rest ih =>
    obtain ⟨r, evm1, hcall⟩ : ∃ r evm1,
        Yields (c.executeCall original call t.remaining t.reservoir) evm r evm1 := by
      obtain ⟨r, evm', hrun⟩ := hc ⟨t.remaining, t.remaining, t.reservoir, 0, 0⟩
        { evm with tx := ⟨call.to', call.value, call.input, t.remaining⟩ }
      refine ⟨r, { evm' with tx := original }, ?_⟩
      unfold Yields executeCall EStateM.run at *
      dsimp only
      rw [hrun]
    rw [executeCalls, hcall.run_bind]
    by_cases hok : r.instructionResult = .ok
    · rw [if_pos hok]
      rcases ih (t.add r) evm1 with ⟨rs, evm', hs, hrun⟩ |
        ⟨before, call', after, rs, evm2, r', evm3, rfl, hs, hfail, hne, hrun⟩
      · exact .inl ⟨r :: rs, evm', .cons hcall hok hs, hrun⟩
      · exact .inr ⟨call :: before, call', after, r :: rs, evm2, r', evm3, rfl,
          .cons hcall hok hs, hfail, hne, hrun⟩
    · rw [if_neg hok]
      exact .inr ⟨[], call, rest, [], evm, r, evm1, rfl, .nil, hcall, hok, rfl⟩

/-- What the accumulators hold after some successful calls. -/
theorem foldl_add (rs : List FrameResult) (t : BatchGas) : rs.foldl .add t =
      ⟨(rs.getLast?.map (·.gas.remaining)).getD t.remaining,
        (rs.getLast?.map (·.gas.reservoir)).getD t.reservoir,
        (rs.map (·.gas.refunded)).foldl saturatingAddI64 t.refund,
        (rs.map (·.gas.stateGasSpent)).foldl saturatingAddI64 t.stateGasSpent,
        rs.getLast?.or t.finalResult⟩ := by
  induction rs using List.reverseRecOn with
  | nil => simp
  | append_singleton rs r ih => simp [List.foldl_append, ih, BatchGas.add]

/-- A batch is all or nothing.  If every call succeeds their effects stay, with
the gas and the reservoir of the last call and the refunds and the state gas
added up, saturating.  If one fails, or the call scopes refuse the batch, the
journal is the one from before, except for the nonce of a caller who creates
first under the protocol nonce, and gas is used up but for what a revert left.
The environment is the same again in every case. -/
theorem multiCall_atomic (c : BatchContext σ ε) (hc : c.Reports) (calls : List Call)
    (hasAuthorizationList : Bool) (hvalid : validateCalls calls hasAuthorizationList = .ok ())
    (remaining reservoir left : Nat) (refusal : Option FrameResult) (evm : Evm σ)
    (hscopes : Yields (c.prevalidateKeychainCallScopes calls remaining reservoir) evm
      (left, refusal) evm) :
    ∃ result journal, Yields (c.executeMultiCallWith remaining reservoir calls) evm result
      ⟨journal, evm.tx⟩ ∧ result.gas.limit = evm.tx.gasLimit ∧
    ((refusal = none ∧ ∃ rs last, c.Succeed evm.tx calls left reservoir evm rs ⟨journal, evm.tx⟩ ∧
        rs.getLast? = some last ∧ result.gas.remaining = last.gas.remaining ∧
        result.gas.reservoir = last.gas.reservoir ∧
        result.gas.refunded = (rs.map (·.gas.refunded)).foldl saturatingAddI64 0 ∧
        result.gas.stateGasSpent = (rs.map (·.gas.stateGasSpent)).foldl saturatingAddI64 0) ∨
      ∃ r, result.instructionResult = r.instructionResult ∧ result.gas.refunded = 0 ∧
        result.gas.stateGasSpent = -c.refilled (c.createStateRefund calls) ∧
        (calls.all (!TxKind.isCreate ·.to') → result.gas.stateGasSpent = 0) ∧
        result.gas.remaining = (if r.instructionResult = .revert then r.gas.remaining else 0) ∧
        ((refusal = some r ∧ journal = evm.journal) ∨
          refusal = none ∧ journal = c.reverted calls evm.journal ∧
          ∃ before call after rs evm₁ evm₂, calls = before ++ call :: after ∧
            c.Succeed evm.tx before left reservoir evm rs evm₁ ∧
            Yields (c.executeCall evm.tx call ((rs.getLast?.map (·.gas.remaining)).getD left)
              ((rs.getLast?.map (·.gas.reservoir)).getD reservoir)) evm₁ r evm₂ ∧
            r.instructionResult ≠ .ok)) := by
  have hrun : (c.executeMultiCallWith remaining reservoir calls).run evm = _ :=
    run_reads_bind.trans hscopes.run_bind
  have hplain (hcalls : calls.all (!TxKind.isCreate ·.to')) :
      -c.refilled (c.createStateRefund calls) = 0 := by
    rw [createStateRefund, List.countP_eq_zero.mpr (by simpa using hcalls), mul_zero,
      c.refilled_zero, neg_zero]
  cases refusal with
  | some r =>
    exact ⟨_, evm.journal, hrun, rfl, .inr ⟨r, rfl, rfl, rfl, hplain, rfl, .inl ⟨rfl, rfl⟩⟩⟩
  | none =>
    rcases executeCalls_cases hc evm.tx evm.journal calls calls ⟨left, reservoir, 0, 0, none⟩
      evm with ⟨rs, ⟨journal, tx⟩, hs, hloop⟩ |
      ⟨before, call, after, rs, evm₁, r, ⟨journal, tx⟩, hcalls, hs, hfail, hne, hloop⟩
    · obtain rfl : tx = evm.tx := hs.tx rfl
      have hne : rs ≠ [] := by
        rintro rfl
        cases calls with
        | nil => cases hvalid
        | cons => cases hs.length
      obtain ⟨last, hlast⟩ : ∃ last, rs.getLast? = some last :=
        ⟨_, List.getLast?_eq_some_getLast hne⟩
      rw [foldl_add, hlast] at hloop
      exact ⟨_, journal, hrun.trans hloop, rfl, .inl ⟨rfl, rs, last, hs, hlast, rfl, rfl, rfl, rfl⟩⟩
    · obtain rfl : tx = evm.tx := executeCall_tx hfail
      rw [foldl_add] at hfail
      exact ⟨_, c.reverted calls evm.journal, hrun.trans hloop, rfl, .inr ⟨r, rfl, rfl, rfl,
        hplain, rfl, .inr ⟨rfl, rfl, before, call, after, rs, evm₁, _, hcalls, hs, hfail, hne⟩⟩⟩

/-- Every call uses three units of gas and reverts without five. -/
def sampleContext : BatchContext Nat Empty where
  executeSingle gas evm :=
    .ok ⟨if gas.remaining < 5 then .revert else .ok, { gas with remaining := gas.remaining - 3 }⟩
      ⟨evm.journal + 10, evm.tx⟩
  validateCallScopes := none
  nonceKey := some 0
  callerNonce := some
  setCallerNonce _ nonce := nonce
  createStateGas := 0
  refilled := Int.ofNat
  refilled_zero := rfl

/-- The second call of a batch that creates first reverts. -/
theorem multiCall_atomic_second_reverts :
    let calls : List Call := [⟨.create, 0, []⟩, ⟨.call 0, 0, []⟩]
    let tx : TxEnv := ⟨.create, 0, [], 8⟩
    ∃ result, Yields (sampleContext.executeMultiCallWith 7 0 calls) ⟨0, tx⟩ result ⟨1, tx⟩ ∧
      result.gas.limit = 8 := by
  intro calls tx
  obtain ⟨result, journal, hrun, hlimit, -⟩ := multiCall_atomic sampleContext
    (fun _ _ => ⟨_, _, rfl⟩) calls false rfl 7 0 7 none ⟨0, tx⟩ rfl
  cases hrun
  exact ⟨_, rfl, hlimit⟩

/-- Refunds that do not fit together are not added up: the sum stops at the
largest signed word. -/
theorem multiCall_refund_saturates :
    let c : BatchContext Nat Empty := { sampleContext with
      executeSingle := fun gas evm => .ok ⟨.ok, { gas with refunded := maxWord 63 }⟩ evm }
    let calls : List Call := [⟨.call 0, 0, []⟩, ⟨.call 0, 0, []⟩]
    let evm : Evm Nat := ⟨0, .create, 0, [], 8⟩
    validateCalls calls false = .ok () ∧ ∃ rs result, c.Succeed evm.tx calls 7 0 evm rs evm ∧
      Yields (c.executeMultiCallWith 7 0 calls) evm result evm ∧
      result.gas.refunded ≠ (rs.map (·.gas.refunded)).sum :=
  ⟨rfl, _, _, .cons rfl rfl (.cons rfl rfl .nil), rfl, by decide⟩

end BatchContext

end Tempo.Tx
