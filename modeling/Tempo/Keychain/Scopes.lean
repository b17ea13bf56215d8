/-
The call scope of one access key: a tree of enumerable sets of targets,
selectors and recipients, kept in storage.  Below the root an empty set means
no further restriction, so every operation that replaces or removes a node has
to clear what was stored beneath it.
-/
import Mathlib
import Tempo.Primitives.Hardfork
import Tempo.Storage.SetHandler

namespace Tempo

variable {α : Type}

/-- An access rule for one selector; no recipients means any. -/
structure SelectorRule where
  selector : Selector
  recipients : List Address
  deriving DecidableEq

/-- An access rule for one target; no selector rules means any call. -/
structure CallScope where
  target : Address
  selectorRules : List SelectorRule
  deriving DecidableEq

structure SelectorScope where
  recipients : SetStorage Address

structure TargetScope where
  selectors : SetStorage Selector
  selectorScopes : Selector → SelectorScope

structure KeyScope where
  isScoped : Bool
  targets : SetStorage Address
  targetScopes : Address → TargetScope

def SelectorScope.blank : SelectorScope := ⟨.blank⟩

def TargetScope.blank : TargetScope := ⟨.blank, fun _ => .blank⟩

def KeyScope.blank : KeyScope := ⟨false, .blank, fun _ => .blank⟩

/-- What a call is addressed to. -/
inductive TxKind where
  | call (target : Address)
  | create
  deriving DecidableEq

/-- The big-endian number of a byte string. -/
def bytesToNat (bytes : List UInt8) : Nat :=
  bytes.foldl (fun n b => n * 256 + b.toNat) 0

def tip20TransferSelector : Selector := 0xa9059cbb#32
def tip20ApproveSelector : Selector := 0x095ea7b3#32
def tip20TransferWithMemoSelector : Selector := 0x95777d59#32

def isConstrainedTip20Selector (selector : Selector) : Bool :=
  selector == tip20TransferSelector || selector == tip20ApproveSelector ||
    selector == tip20TransferWithMemoSelector

namespace KeyScope

def onTargets (m : Exec (SetStorage Address) α) : Exec KeyScope α :=
  focus KeyScope.targets (fun s targets => { s with targets }) m

def onTarget (target : Address) (m : Exec TargetScope α) : Exec KeyScope α :=
  focus (fun s => s.targetScopes target) (fun s t => { s with
      targetScopes := Function.update s.targetScopes target t }) m

end KeyScope

namespace TargetScope

def onSelectors (m : Exec (SetStorage Selector) α) : Exec TargetScope α :=
  focus TargetScope.selectors (fun s selectors => { s with selectors }) m

def onRecipients (selector : Selector) (m : Exec (SetStorage Address) α) : Exec TargetScope α :=
  focus (fun s => (s.selectorScopes selector).recipients) (fun s recipients => { s with
      selectorScopes := Function.update s.selectorScopes selector ⟨recipients⟩ }) m

/-- Clears every selector scope stored under the target. -/
def clearSelectors : Exec TargetScope Unit := do
  let selectors ← onSelectors SetHandler.read
  selectors.forM fun selector => onRecipients selector SetHandler.delete
  onSelectors SetHandler.delete

def putRule (spec : TempoHardfork) (rule : SelectorRule) : Exec TargetScope Unit := do
  let _ ← onSelectors (SetHandler.insert rule.selector)
  if rule.recipients = [] then
    -- before T4 the empty set is deleted once more
    if .t4 ≤ spec then pure ()
    else onRecipients rule.selector SetHandler.delete
  else
    onRecipients rule.selector (SetHandler.writeUnchecked rule.recipients)

/-- The checks below a target that was found. -/
def validateCall (input : List UInt8) : Exec TargetScope Unit := do
  let unconstrained ← onSelectors SetHandler.isEmpty
  if unconstrained then pure ()
  else do
    require (4 ≤ input.length) (.accountKeychain .callNotAllowed)
    let selector := BitVec.ofNat 32 (bytesToNat (input.take 4))
    let known ← onSelectors (SetHandler.contains selector)
    require (known = true) (.accountKeychain .callNotAllowed)
    let anyRecipient ← onRecipients selector SetHandler.isEmpty
    if anyRecipient then pure ()
    else do
      require (36 ≤ input.length) (.accountKeychain .callNotAllowed)
      let recipientWord := (input.drop 4).take 32
      require (∀ b ∈ recipientWord.take 12, b = 0) (.accountKeychain .callNotAllowed)
      let recipient : Address :=
        ⟨BitVec.ofNat 160 (bytesToNat (recipientWord.drop 12))⟩
      let allowed ← onRecipients selector (SetHandler.contains recipient)
      require (allowed = true) (.accountKeychain .callNotAllowed)

/-- The rules as the view returns them. -/
def readRules : Exec TargetScope (List SelectorRule) := do
  let selectors ← onSelectors SetHandler.read
  selectors.mapM fun selector => do
    let recipients ← onRecipients selector SetHandler.read
    pure ⟨selector, recipients⟩

end TargetScope

/-! Validation of the scopes a caller hands in. -/

/-- The facts about tokens that scope validation asks for. -/
structure ScopeEnv where
  spec : TempoHardfork
  /-- Whether the factory created a token at the address. -/
  isDeployedTip20 : Address → Bool

/-- Before T4 the token has to exist, afterwards only the address counts. -/
def ScopeEnv.isTip20 (env : ScopeEnv) (target : Address) : Bool :=
  if .t4 ≤ env.spec then target.isTip20 else env.isDeployedTip20 target

/-- Recipients are allowed for the transfer and approval selectors of tokens
only, and are nonzero and distinct. -/
def SelectorRule.validate (env : ScopeEnv) (target : Address)
    (rule : SelectorRule) : Except TempoPrecompileError Unit :=
  if rule.recipients = [] then .ok ()
  else if isConstrainedTip20Selector rule.selector = false ∨ env.isTip20 target = false then
    .error (.accountKeychain .invalidCallScope)
  else if (∃ r ∈ rule.recipients, r = 0) ∨ ¬rule.recipients.Nodup then
    .error (.accountKeychain .invalidCallScope)
  else .ok ()

/-- Checks entries in order; a repeated key is found when it is met. -/
def validateInOrder {α κ : Type} [DecidableEq κ] (key : α → κ)
    (check : α → Except TempoPrecompileError Unit) :
    List κ → List α → Except TempoPrecompileError Unit
  | _, [] => .ok ()
  | seen, x :: rest => do
    if key x ∈ seen then .error (.accountKeychain .invalidCallScope)
    else do
      check x
      validateInOrder key check (key x :: seen) rest

/-- From T11 on repeated keys are looked for before the first check. -/
def validateDistinct {α κ : Type} [DecidableEq κ] (spec : TempoHardfork)
    (key : α → κ) (check : α → Except TempoPrecompileError Unit)
    (l : List α) : Except TempoPrecompileError Unit :=
  if .t11 ≤ spec then
    if (l.map key).Nodup then l.forM check
    else .error (.accountKeychain .invalidCallScope)
  else validateInOrder key check [] l

def validateSelectorRules (env : ScopeEnv) (target : Address)
    (rules : List SelectorRule) : Except TempoPrecompileError Unit :=
  validateDistinct env.spec SelectorRule.selector (SelectorRule.validate env target) rules

def CallScope.validate (env : ScopeEnv) (scope : CallScope) : Except TempoPrecompileError Unit :=
  if scope.target = 0 then .error (.accountKeychain .invalidCallScope)
  else if scope.selectorRules = [] then .ok ()
  else validateSelectorRules env scope.target scope.selectorRules

/-- From T4 on each scope is validated here, before that when it is
stored. -/
def validateCallScopes (env : ScopeEnv) (scopes : List CallScope) :
    Except TempoPrecompileError Unit :=
  validateDistinct env.spec CallScope.target
    (fun scope => if .t4 ≤ env.spec then scope.validate env else .ok ())
    scopes

namespace KeyScope

/-- Creates or replaces one target with all its rules. -/
def upsertTargetScope (env : ScopeEnv) (scope : CallScope) : Exec KeyScope Unit := do
  if .t4 ≤ env.spec then pure () else ofExcept (scope.validate env)
  let _ ← onTargets (SetHandler.insert scope.target)
  onTarget scope.target TargetScope.clearSelectors
  scope.selectorRules.forM fun rule =>
    onTarget scope.target (TargetScope.putRule env.spec rule)

def removeTargetScope (target : Address) : Exec KeyScope Unit := do
  let removed ← onTargets (SetHandler.remove target)
  if removed then onTarget target TargetScope.clearSelectors else pure ()

def clearAllTargetScopes : Exec KeyScope Unit := do
  let targets ← onTargets SetHandler.read
  targets.forM fun target => onTarget target TargetScope.clearSelectors
  onTargets SetHandler.delete

def setScoped (isScoped : Bool) : Exec KeyScope Unit :=
  updates fun s => { s with isScoped }

/-- `none` lifts every restriction, an empty list denies every call. -/
def replaceAllowedCalls (env : ScopeEnv)
    (allowedCalls : Option (List CallScope)) : Exec KeyScope Unit := do
  clearAllTargetScopes
  match allowedCalls with
  | none => setScoped false
  | some scopes => do
    setScoped true
    if scopes = [] then pure ()
    else do
      ofExcept (validateCallScopes env scopes)
      scopes.forM (upsertTargetScope env)

def setAllowedCalls (env : ScopeEnv) (scopes : List CallScope) : Exec KeyScope Unit := do
  require (scopes ≠ []) (.accountKeychain .invalidCallScope)
  ofExcept (validateCallScopes env scopes)
  scopes.forM (upsertTargetScope env)
  setScoped true

def removeAllowedCalls (target : Address) : Exec KeyScope Unit := do
  let isScoped ← reads KeyScope.isScoped
  if isScoped then removeTargetScope target else pure ()

/-- The check of a call against the tree, from coarse to fine. -/
def validateCall (kind : TxKind) (input : List UInt8) : Exec KeyScope Unit :=
  match kind with
  | .create => fails (.accountKeychain .callNotAllowed)
  | .call target => do
    let isScoped ← reads KeyScope.isScoped
    if isScoped then do
      let known ← onTargets (SetHandler.contains target)
      require (known = true) (.accountKeychain .callNotAllowed)
      onTarget target (TargetScope.validateCall input)
    else pure ()

def readScopes : Exec KeyScope (List CallScope) := do
  let targets ← onTargets SetHandler.read
  targets.mapM fun target => do
    let selectorRules ← onTarget target TargetScope.readRules
    pure ⟨target, selectorRules⟩

end KeyScope

end Tempo
