/-
State of a TIP-20 token and of the receive-policy guard that holds blocked
inbound funds, with the storage accessors the token contract is written in.
Other contracts a token consults (the TIP-403 registry, the address registry,
the account keychain) answer through `Env`, which may differ at every call.
-/
import Tempo.Library.Arith
import Tempo.Library.Totals
import Tempo.Primitives.Error
import Tempo.Primitives.Hardfork

namespace Tempo

open Function

inductive AuthRole where
  | transfer
  | sender
  | recipient
  | mintRecipient
  deriving DecidableEq, Repr

inductive BlockedReason where
  | none
  | tokenFilter
  | receivePolicy
  deriving DecidableEq, Repr

inductive InboundKind where
  | transfer
  | mint
  deriving DecidableEq, Repr

/-- What a call sees of its transaction and of the contracts around it. -/
structure Env where
  spec : TempoHardfork
  timestamp : Nat
  getMaster : BitVec 32 → Except TempoPrecompileError (Option Address)
  registeredTokenTransferPolicyId : Address → Except TempoPrecompileError (Option Nat)
  isAuthorizedAs : Nat → Address → AuthRole → Except TempoPrecompileError Bool
  checkReceivePolicy : Address → Address → Address →
    Except TempoPrecompileError (Option (BlockedReason × Address))
  authorizeTransfer : Address → Address → Nat → Except TempoPrecompileError Unit
  authorizeApprove : Address → Address → Nat → Nat → Except TempoPrecompileError Unit
  refundSpendingLimit : Address → Address → Nat → Except TempoPrecompileError Unit
  recoverPermitSigner : Address → Address → Nat → Nat → Nat → B256 →
    Except TempoPrecompileError (Option Address)
  isRetiredRoot : Address → Except TempoPrecompileError Bool

/-- Surroundings that allow everything and know no virtual address. -/
def Env.permissive (spec : TempoHardfork) : Env where
  spec := spec
  timestamp := 0
  getMaster _ := .ok none
  registeredTokenTransferPolicyId _ := .ok none
  isAuthorizedAs _ _ _ := .ok true
  checkReceivePolicy _ _ _ := .ok none
  authorizeTransfer _ _ _ := .ok ()
  authorizeApprove _ _ _ _ := .ok ()
  refundSpendingLimit _ _ _ := .ok ()
  recoverPermitSigner _ _ _ _ _ _ := .ok none
  isRetiredRoot _ := .ok false

namespace AuthRole

/-- The directional role from T2 on, the symmetric one before. -/
def transferOr (spec : TempoHardfork) (t2Variant : AuthRole) : AuthRole :=
  if .t2 ≤ spec then t2Variant else .transfer

end AuthRole

structure UserRewardInfo where
  rewardRecipient : Address
  rewardPerToken : Nat
  rewardBalance : Nat
  deriving DecidableEq

/-- The accounting part of a token: who holds what, and the lazily settled
rewards over it. -/
structure Ledger where
  totalSupply : Nat
  balances : Address → Nat
  supplyCap : Nat
  globalRewardPerToken : Nat
  optedInSupply : Nat
  userRewardInfo : Address → UserRewardInfo

structure Token extends Ledger where
  deployed : Bool
  roles : Address → B256 → Bool
  roleAdmins : B256 → B256
  currency : String
  quoteToken : Address
  nextQuoteToken : Address
  transferPolicyId : Nat
  allowances : Address → Address → Nat
  permitNonces : Address → Nat
  paused : Bool

/-- Unwritten storage of a token address. -/
def Token.blank : Token where
  deployed := false
  roles _ _ := false
  roleAdmins _ := 0
  currency := ""
  quoteToken := 0
  nextQuoteToken := 0
  transferPolicyId := 0
  totalSupply := 0
  balances _ := 0
  allowances _ _ := 0
  permitNonces _ := 0
  paused := false
  supplyCap := 0
  globalRewardPerToken := 0
  optedInSupply := 0
  userRewardInfo _ := ⟨0, 0, 0⟩

/-- A claim receipt; the guard keys balances by the hash of all its fields,
which is modelled by the receipt itself. -/
structure ClaimReceipt where
  version : Nat
  token : Address
  recoveryAuthority : Address
  originator : Address
  recipient : Address
  blockedAt : Nat
  blockedNonce : Nat
  blockedReason : BlockedReason
  kind : InboundKind
  memo : B256
  deriving DecidableEq

structure ReceivePolicyGuard where
  nonce : Nat
  balances : ClaimReceipt → Nat

/-- A transfer recipient: the account credited and, if the addressed account
was a virtual one, that address. -/
structure Recipient where
  target : Address
  virtualAddr : Option Address
  deriving DecidableEq

/-- What a token call can write: the token itself and the guard. -/
structure TokenCtx where
  token : Token
  guard : ReceivePolicyGuard

def defaultAdminRole : B256 := 0

def ungrantableRole : B256 := BitVec.allOnes 256

/-- The hash of the role name, as are the ones below. -/
def pauseRole : B256 :=
  0x139c2898040ef16910dc9f44dc697df79363da767d8bc92f2e310312b816e46d#256

def unpauseRole : B256 :=
  0x265b220c5a8891efdd9e1b1b7fa72f257bd5169f8d87e319cf3dad6ff52b94ae#256

def issuerRole : B256 :=
  0x114e74f6ea3bd819998f78687bfcb11b140da08e9b7d222fa9c1f1ba1f2aa122#256

def burnBlockedRole : B256 :=
  0x7408fdc0d31c7bcb349eab611f5d1168acd4303574993f8cdc98b1cd18c41cae#256

def burnAtRole : B256 :=
  0x39f6ee57cf2acaf8eab1056c2dcc3068f1f3d6a61e4777cf2bfdad7b1df90a27#256

/-- Precision multiplier of the reward-per-token accumulator. -/
def accPrecision : Nat := 1000000000000000000

def allowAllPolicyId : Nat := 1

namespace TokenCtx

def putLedger (s : TokenCtx) (l : Ledger) : TokenCtx :=
  { s with token.toLedger := l }

@[simp]
theorem putLedger_toLedger (s : TokenCtx) (l : Ledger) : (s.putLedger l).token.toLedger = l := rfl

@[simp]
theorem putLedger_self (s : TokenCtx) : s.putLedger s.token.toLedger = s := rfl

def putBalance (s : TokenCtx) (account : Address) (amount : Nat) : TokenCtx :=
  { s with
    token.balances := update s.token.balances account amount }

def putAllowance (s : TokenCtx) (owner spender : Address) (amount : Nat) : TokenCtx :=
  { s with
    token.allowances := update s.token.allowances owner
      (update (s.token.allowances owner) spender amount) }

def putTotalSupply (s : TokenCtx) (amount : Nat) : TokenCtx :=
  { s with token.totalSupply := amount }

def putOptedInSupply (s : TokenCtx) (value : Nat) : TokenCtx :=
  { s with token.optedInSupply := value }

def putUserRewardInfo (s : TokenCtx) (account : Address) (info : UserRewardInfo) : TokenCtx :=
  { s with
    token.userRewardInfo := update s.token.userRewardInfo account info }

end TokenCtx

namespace Tip20

def getBalance (account : Address) : Exec TokenCtx Nat :=
  reads fun s => s.token.balances account

def setBalance (account : Address) (amount : Nat) : Exec TokenCtx Unit :=
  updates fun s => s.putBalance account amount

/-- Adds to a balance in place; overflow reads as a breached supply cap. -/
def incrementBalance (account : Address) (amount : Nat) : Exec TokenCtx Unit := do
  let current ← getBalance account
  let new ← orFail (checkedAdd 256 current amount) (.tip20 .supplyCapExceeded)
  setBalance account new

def decrementBalance (self account : Address) (amount : Nat) : Exec TokenCtx Unit := do
  let current ← getBalance account
  let new ← orFail (checkedSub current amount) (.tip20 (.insufficientBalance current amount self))
  setBalance account new

def getAllowance (owner spender : Address) : Exec TokenCtx Nat :=
  reads fun s => s.token.allowances owner spender

def setAllowance (owner spender : Address) (amount : Nat) : Exec TokenCtx Unit :=
  updates fun s => s.putAllowance owner spender amount

def totalSupply : Exec TokenCtx Nat :=
  reads fun s => s.token.totalSupply

def setTotalSupply (amount : Nat) : Exec TokenCtx Unit :=
  updates fun s => s.putTotalSupply amount

def getOptedInSupply : Exec TokenCtx Nat :=
  reads fun s => s.token.optedInSupply

def setOptedInSupply (value : Nat) : Exec TokenCtx Unit :=
  updates fun s => s.putOptedInSupply value

def getUserRewardInfo (account : Address) : Exec TokenCtx UserRewardInfo :=
  reads fun s => s.token.userRewardInfo account

def setUserRewardInfo (account : Address) (info : UserRewardInfo) : Exec TokenCtx Unit :=
  updates fun s => s.putUserRewardInfo account info

def checkNotPaused : Exec TokenCtx Unit := do
  let paused ← reads fun s => s.token.paused
  require (¬paused) (.tip20 .contractPaused)

def checkRole (account : Address) (role : B256) : Exec TokenCtx Unit := do
  let held ← reads fun s => s.token.roles account role
  require held (.rolesAuth .unauthorized)

end Tip20

end Tempo
