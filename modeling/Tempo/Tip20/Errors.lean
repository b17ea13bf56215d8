/-
The errors token operations stop with.  A property that the errors of the
token have, and the errors it hands on from the contracts it consults, is a
property of every error of a transfer.
-/
import Tempo.Tip20.Operations

namespace Tempo

/-- The errors the contracts around a token answer with have property `P`. -/
structure Env.AnswersOnly (env : Env) (P : TempoPrecompileError → Prop) : Prop where
  getMaster : ∀ id e, env.getMaster id = .error e → P e
  policyId : ∀ token e, env.registeredTokenTransferPolicyId token = .error e → P e
  isAuthorizedAs : ∀ policy user role e, env.isAuthorizedAs policy user role = .error e → P e
  checkReceivePolicy : ∀ token sender receiver e,
    env.checkReceivePolicy token sender receiver = .error e → P e
  authorizeTransfer : ∀ from' token amount e,
    env.authorizeTransfer from' token amount = .error e → P e
  isRetiredRoot : ∀ account e, env.isRetiredRoot account = .error e → P e

namespace Tip20

variable {env : Env} {self : Address} {P : TempoPrecompileError → Prop}

/-- The errors a transfer raises or hands on have property `P`. -/
structure RaisesOnly (env : Env) (P : TempoPrecompileError → Prop) : Prop
    extends env.AnswersOnly P where
  tip20 : ∀ e, P (.tip20 e)
  receivePolicyGuard : ∀ e, P (.receivePolicyGuard e)
  addrRegistry : ∀ e, P (.addrRegistry e)
  underOverflow : P .underOverflow

/-! Rewards and balances. -/

section

variable (hflow : P .underOverflow)
include hflow

theorem creditReward_throws (holder : Address) (info : UserRewardInfo) (delta : Nat) :
    Throws P (creditReward holder info delta) :=
  .bind (.reads _) fun _ => .bind (.orFail _ hflow) fun _ =>
    .ite (.bind (.orFail _ hflow) fun _ => .pure _)
      (.bind (.reads _) fun _ => .bind (.orFail _ hflow) fun _ =>
        .bind (.updates _) fun _ => .pure _)

theorem updateRewards_throws (holder : Address) : Throws P (updateRewards env holder) := by
  refine .ite (.pure _) (.bind (.reads _) fun info =>
    .bind (.reads _) fun _ => .bind (.orFail _ hflow) fun _ =>
      .ite (.pure _) ?_)
  refine .ite ?_ ((creditReward_throws hflow _ _ _).bind fun _ => ?_)
  · exact (Throws.updates _).bind fun _ => Throws.pure _
  · exact .bind (.updates _) fun _ => .pure _

theorem increaseOptedInSupply_throws (amount : Nat) : Throws P (increaseOptedInSupply amount) :=
  .bind (.reads _) fun _ => .bind (.orFail _ hflow) fun _ =>
    .bind (.orFail _ hflow) fun _ => .updates _

theorem decreaseOptedInSupply_throws (amount : Nat) : Throws P (decreaseOptedInSupply amount) :=
  .bind (.reads _) fun _ => .bind (.orFail _ hflow) fun _ =>
    .bind (.orFail _ hflow) fun _ => .updates _

theorem handleRewardsOnTransfer_throws (from' to' : Address) (amount : Nat) :
    Throws P (handleRewardsOnTransfer env from' to' amount) :=
  (updateRewards_throws hflow _).bind fun _ =>
    (updateRewards_throws hflow _).bind fun _ =>
      .ite (.ite (decreaseOptedInSupply_throws hflow _) (.pure _))
        (.ite (increaseOptedInSupply_throws hflow _) (.pure _))

theorem handleRewardsOnMint_throws (to' : Address) (amount : Nat) :
    Throws P (handleRewardsOnMint env to' amount) := (updateRewards_throws hflow _).bind fun _ =>
    .ite (increaseOptedInSupply_throws hflow _) (.pure _)

end

theorem incrementBalance_throws (htip20 : ∀ e, P (.tip20 e)) (account : Address) (amount : Nat) :
    Throws P (incrementBalance account amount) :=
  .bind (.reads _) fun _ => .bind (.orFail _ (htip20 _)) fun _ =>
    .updates _

theorem decrementBalance_throws (htip20 : ∀ e, P (.tip20 e)) (account : Address) (amount : Nat) :
    Throws P (decrementBalance self account amount) :=
  .bind (.reads _) fun _ => .bind (.orFail _ (htip20 _)) fun _ =>
    .updates _

/-! Checks. -/

section Transfers

variable (h : RaisesOnly env P)
include h

theorem checkNotPaused_throws : Throws P checkNotPaused :=
  .bind (.reads _) fun _ => .require _ (h.tip20 _)

theorem validate_throws (r : Recipient) : Throws P r.validate := .require _ (h.tip20 _)

theorem resolve_throws (to' : Address) : Throws P (resolve env to') := by
  have hrecipient : Throws P (resolveRecipient env to') := by
    refine .ite ?_ (.pure _)
    split
    · exact .pure _
    · exact .bind (.ofExcept (h.getMaster _)) fun _ =>
        .orFail _ (h.addrRegistry _)
  exact hrecipient.bind fun _ => .pure _

theorem transferPolicyId_throws : Throws P (transferPolicyId env self) := by
  refine .ite (.bind (.ofExcept (h.policyId _)) fun registered => ?_) (.reads _)
  cases registered with
  | none => exact .reads _
  | some policyId => exact .pure _

theorem ensureTransferAuthorized_throws (from' to' : Address) :
    Throws P (ensureTransferAuthorized env self from' to') := by
  have hauthorized : Throws P (isTransferAuthorized env self from' to') :=
    (transferPolicyId_throws h).bind fun _ =>
      .bind (.ofExcept (h.isAuthorizedAs _ _ _)) fun _ =>
        .ite (.pure _) (.bind (.ofExcept (h.isAuthorizedAs _ _ _)) fun _ =>
            .pure _)
  exact hauthorized.bind fun _ => .require _ (h.tip20 _)

theorem ensureAuthorizedAs_throws (user : Address) (role : AuthRole) :
    Throws P (ensureAuthorizedAs env self user role) := (transferPolicyId_throws h).bind fun _ =>
    .bind (.ofExcept (h.isAuthorizedAs _ _ _)) fun _ =>
      .require _ (h.tip20 _)

theorem ensureReceivePolicyAuthorized_throws (sender receiver : Address) :
    Throws P (ensureReceivePolicyAuthorized env self sender receiver) :=
  .bind (.ofExcept (h.checkReceivePolicy _ _ _)) fun _ =>
    .require _ (h.tip20 _)

/-! Movements. -/

theorem innerTransfer_throws (from' : Address) (to' : Recipient)
    (amount : Nat) : Throws P (innerTransfer env self from' to' amount) := by
  have hcredit : Throws P (if to'.target ≠ 0 then
      incrementBalance to'.target amount else pure ()) :=
    .ite (incrementBalance_throws h.tip20 _ _) (.pure _)
  refine .ite ?_ ?_
  · exact (handleRewardsOnTransfer_throws h.underOverflow _ _ _).bind fun _ =>
      (decrementBalance_throws h.tip20 _ _).bind fun _ => hcredit
  · exact .bind (.reads _) fun _ =>
      .bind (.require _ (h.tip20 _)) fun _ =>
      (handleRewardsOnTransfer_throws h.underOverflow _ _ _).bind fun _ =>
      .bind (.orFail _ h.underOverflow) fun _ =>
      .bind (.updates _) fun _ => hcredit

theorem innerMint_throws (to' : Recipient) (supply amount : Nat) :
    Throws P (innerMint env to' supply amount) := .bind (.orFail _ h.underOverflow) fun _ =>
    .bind (.reads _) fun _ => .bind (.require _ (h.tip20 _)) fun _ =>
    (handleRewardsOnMint_throws h.underOverflow _ _).bind fun _ =>
    .bind (.updates _) fun _ => incrementBalance_throws h.tip20 _ _

theorem storeBlocked_throws (originator recovery : Address)
    (to' : Recipient) (amount : Nat) (reason : BlockedReason) (kind : InboundKind) (memo : B256) :
    Throws P (storeBlocked env self originator to' recovery amount reason kind memo) := by
  have hnonce : Throws P nextReceiptNonce := .bind (.reads _) fun _ =>
      .bind (.orFail _ h.underOverflow) fun _ =>
        .bind (.updates _) fun _ => .pure _
  exact .bind (.require _ (h.receivePolicyGuard _)) fun _ =>
    hnonce.bind fun _ => .updates _

theorem validateInboundOrBlock_throws (originator : Address)
    (to' : Recipient) (amount : Nat) (mint : Option Nat) (memo : B256) :
    Throws P (validateInboundOrBlock env self originator to' amount mint memo) := by
  refine .ite (.bind (.require _ (h.receivePolicyGuard _)) fun _ =>
    .bind (.ofExcept (h.checkReceivePolicy _ _ _)) fun blocked => ?_)
    (.pure _)
  rcases blocked with _ | ⟨reason, recovery⟩
  · exact .pure _
  · cases mint with
    | none =>
      exact (innerTransfer_throws h _ _ _).bind fun _ =>
        (storeBlocked_throws h _ _ _ _ _ _ _).bind fun _ => .pure _
    | some supply =>
      exact (innerMint_throws h _ _ _).bind fun _ =>
        (storeBlocked_throws h _ _ _ _ _ _ _).bind fun _ => .pure _

theorem consumeAllowance_throws (owner spender : Address) (amount : Nat) :
    Throws P (consumeAllowance owner spender amount) :=
  .bind (.reads _) fun _ => .bind (.require _ (h.tip20 _)) fun _ =>
    .ite (.bind (.orFail _ (h.tip20 _)) fun _ => .updates _) (.pure _)

theorem validateTransfer_throws (spender : Option Address)
    (from' to' : Address) (amount : Nat) (memo : B256) :
    Throws P (validateTransfer env self spender from' to' amount memo) := by
  refine (resolve_throws h to').bind fun r =>
    (checkNotPaused_throws h).bind fun _ => (validate_throws h r).bind fun _ =>
    (ensureTransferAuthorized_throws h _ _).bind fun _ => ?_
  have hrest : Throws P (do
      let blocked ← validateInboundOrBlock env self from' r amount none memo
      pure (if blocked then none else some r)) :=
    (validateInboundOrBlock_throws h _ _ _ _ _).bind fun _ => .pure _
  cases spender with
  | none =>
    exact .bind (.ofExcept (h.authorizeTransfer _ _ _)) fun _ => hrest
  | some p => exact (consumeAllowance_throws h _ _ _).bind fun _ => hrest

theorem performTransfer_throws (from' : Address) (amount : Nat) (target : Option Recipient) :
    Throws P (performTransfer env self from' amount target) := by
  cases target with
  | none => exact .pure _
  | some r => exact (innerTransfer_throws h _ _ _).bind fun _ => .pure _

theorem transfer_throws (sender to' : Address) (amount : Nat) :
    Throws P (transfer env self sender to' amount) :=
  (validateTransfer_throws h _ _ _ _ _).bind fun _ =>
    performTransfer_throws h _ _ _

theorem systemTransferFrom_throws (caller from' : Address) (amount : Nat) :
    Throws P (systemTransferFrom env self caller from' amount) :=
  .bind (.require _ (h.tip20 _)) fun _ =>
    (validateTransfer_throws h _ _ _ _ _).bind fun _ =>
      performTransfer_throws h _ _ _

theorem channelReserveTransfer_throws (from' sender : Address) (to' : Recipient) (amount : Nat) :
    Throws P (channelReserveTransfer env self from' to' amount sender) :=
  .bind (.require _ (h.tip20 _)) fun _ =>
    (checkNotPaused_throws h).bind fun _ => (validate_throws h _).bind fun _ =>
    .bind (.ofExcept (h.authorizeTransfer _ _ _)) fun _ =>
    .bind (.require _ (h.receivePolicyGuard _)) fun _ =>
    (ensureReceivePolicyAuthorized_throws h _ _).bind fun _ =>
    innerTransfer_throws h _ _ _

end Transfers

end Tip20

end Tempo
