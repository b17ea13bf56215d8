/-
The subtractions of the reserve that must not fail.  Each is preceded by a
check of its operands, except that of a withdrawal, which relies on no channel
having settled more than its deposit.
-/
import Tempo.Reserve.Effects

namespace Tempo

open ChannelReserve

/-- Not a failed expectation. -/
abbrev NotAborted (e : TempoPrecompileError) : Prop :=
  ∀ msg, e ≠ .aborted msg

namespace ChannelReserve

open ReserveWorld StorageCredits Tip20

variable {env : ReserveEnv} {w : ReserveWorld} {P : TempoPrecompileError → Prop}

theorem creditChannelStorageSlots_throws (hfatal : ∀ msg, P (.fatal msg))
    (payer : Address) (slots : Nat) : Throws P (creditChannelStorageSlots env payer slots) :=
  .ite (.pure _) (creditStorageSlots_throws hfatal _ _ _)

theorem deleteChannelStateAndCreditPayer_throws
    (hfatal : ∀ msg, P (.fatal msg)) (channelId : ChannelDescriptor) (payer : Address) :
    Throws P (deleteChannelStateAndCreditPayer env channelId payer) :=
  (trackMintedCredits_throws hfatal (.updates _)).bind fun _ =>
    creditChannelStorageSlots_throws hfatal _ _

theorem writeChannelStateSpendingCredit_throws (hfatal : ∀ msg, P (.fatal msg)) (payer : Address)
    (channelId : ChannelDescriptor) (state : PackedChannelState) :
    Throws P (writeChannelStateSpendingCredit env payer channelId state) :=
  .ite (.bind (.reads _) fun _ => .ite (.updates _) (.bind (.updates _) fun _ =>
      (withBudget_throws (.updates _)).bind fun _ =>
        .bind (.require _ (hfatal _)) fun _ =>
          creditChannelStorageSlots_throws hfatal _ _))
    (.updates _)

section Movements

variable (h : RaisesOnly env.toEnv P)
include h

theorem fromAddress_throws (token : Address) :
    Throws P (onTokens (fromAddress token)) := .focus (.require _ (h.tip20 _))

theorem pullDeposit_throws (token sender payee policySender : Address) (amount : Nat) :
    Throws P (pullDeposit env token sender payee policySender amount) := by
  refine .focus (.focus (.ite ?_ ?_))
  · exact (resolve_throws h _).bind fun _ =>
      (ensureTransferAuthorized_throws h _ _).bind fun _ =>
      (ensureReceivePolicyAuthorized_throws h _ _).bind fun _ =>
        channelReserveTransfer_throws h _ _ _ _
  · exact (resolve_throws h _).bind fun _ =>
      (ensureAuthorizedAs_throws h _ _).bind fun _ =>
      (systemTransferFrom_throws h _ _ _).bind fun _ => .pure _

theorem deliverCapture_throws (token payer payee : Address)
    (state : PackedChannelState) (amount : Nat) :
    Throws P (deliverCapture env token payer payee state amount) :=
  .focus (.focus ((resolve_throws h _).bind fun _ =>
    (ensureTransferAuthorized_throws h _ _).bind fun _ =>
      channelReserveTransfer_throws h _ _ _ _))

theorem deliverRefund_throws (token payer : Address) (amount : Nat) :
    Throws P (deliverRefund env token payer amount) :=
  .focus (.focus ((resolve_throws h _).bind fun _ =>
    channelReserveTransfer_throws h _ _ _ _))

theorem payOut_throws (token to' : Address) (amount : Nat) :
    Throws P (payOut env token to' amount) :=
  .focus (.focus ((transfer_throws h _ _ _).bind fun _ => .pure _))

theorem ensureSender_throws (token payer : Address) :
    Throws P (ensureSender env token payer) := .focus (.focus (ensureAuthorizedAs_throws h _ _))

theorem validateVoucher_throws (hown : ∀ e, P (.tip20ChannelReserve e))
    (descriptor : ChannelDescriptor) (cumulativeAmount : Nat) (signature : B256) :
    Throws P (validateVoucher env descriptor cumulativeAmount signature) :=
  .bind (.orFail _ (hown _)) fun _ => (Throws.require _ (hown _)).bind
    fun _ => .bind (.ofExcept (h.isRetiredRoot _)) fun _ =>
      .require _ (hown _)

end Movements

theorem loadExistingState_throws (hown : ∀ e, P (.tip20ChannelReserve e))
    (channelId : ChannelDescriptor) : Throws P (loadExistingState channelId) :=
  .bind (.reads _) fun _ => .bind (.require _ (hown _)) fun _ =>
    .pure _

/-- An expected difference that is there. -/
theorem expect_sub_throws {α : Type} {a b : Nat} (hle : b ≤ a) {msg : String}
    {k : Nat → Exec ReserveWorld α} (hk : Throws P (k (a - b))) :
    ThrowsFrom P (expect (checkedSub a b) msg >>= k) w := by
  have hsome : checkedSub a b = some (a - b) := checkedSub_eq_some.mpr ⟨hle, rfl⟩
  rw [expect, hsome]
  exact hk.at w

section Operations

variable (h : RaisesOnly env.toEnv NotAborted)
include h

theorem settle_throws (msgSender : Address) (descriptor : ChannelDescriptor)
    (cumulativeAmount : Nat) (signature : B256) :
    ThrowsFrom NotAborted (settle env msgSender descriptor cumulativeAmount signature) w := by
  refine ((loadExistingState_throws (fun _ => nofun) _).at _).bind fun state _ _ => ?_
  refine wp_require_bind.mpr ⟨fun _ => ?_, fun _ => nofun⟩
  refine wp_require_bind.mpr ⟨fun _ => ?_, fun _ => nofun⟩
  refine wp_require_bind.mpr ⟨fun hlt => ?_, fun _ => nofun⟩
  refine ((validateVoucher_throws h (fun _ => nofun) _ _ _).at _).bind fun _ _ _ => ?_
  refine expect_sub_throws hlt.le ?_
  refine (fromAddress_throws h _).bind fun _ => .ite ?_ ?_
  · exact (deliverCapture_throws h _ _ _ _ _).bind fun _ => .updates _
  · exact (ensureSender_throws h _ _).bind fun _ =>
      .bind (.updates _) fun _ => payOut_throws h _ _ _

theorem open_throws (msgSender payee operator token : Address)
    (deposit : Nat) (salt : B256) (authorizedSigner : Address) :
    Throws NotAborted (open_ env msgSender payee operator token deposit salt authorizedSigner) := by
  refine .bind (.require _ nofun) fun _ =>
    (fromAddress_throws h _).bind fun _ => (Throws.require _ nofun).bind
    fun _ => .bind (.reads _) fun _ => (Throws.require _ nofun).bind
    fun _ => ?_
  have hcheck : ∀ d, Throws NotAborted (checkOpen d) := fun _ =>
    .bind (.reads _) fun _ => .bind (.reads _) fun _ =>
      .require _ nofun
  exact (hcheck _).bind fun _ => (pullDeposit_throws h _ _ _ _ _).bind fun _ =>
    (writeChannelStateSpendingCredit_throws (fun _ => nofun) _ _ _).bind
    fun _ => .bind (.updates _) fun _ => .pure _

theorem topUp_throws (msgSender : Address) (descriptor : ChannelDescriptor)
    (additionalDeposit : Nat) :
    Throws NotAborted (topUp env msgSender descriptor additionalDeposit) :=
  (loadExistingState_throws (fun _ => nofun) _).bind fun _ =>
    .bind (.require _ nofun) fun _ =>
    .ite (.ite (.pure _) (.updates _))
      (.bind (.orFail _ nofun) fun _ => (fromAddress_throws h _).bind
        fun _ => (pullDeposit_throws h _ _ _ _ _).bind fun _ =>
          .updates _)

theorem close_throws (msgSender : Address) (descriptor : ChannelDescriptor)
    (cumulativeAmount captureAmount : Nat) (signature : B256) :
    ThrowsFrom NotAborted (close env msgSender descriptor cumulativeAmount
      captureAmount signature) w := by
  have hdelete : Throws NotAborted (deleteChannelStateAndCreditPayer env
      descriptor descriptor.payer) := deleteChannelStateAndCreditPayer_throws (fun _ => nofun) _ _
  refine ((loadExistingState_throws (fun _ => nofun) _).at _).bind fun state _ _ => ?_
  refine wp_require_bind.mpr ⟨fun _ => ?_, fun _ => nofun⟩
  refine wp_require_bind.mpr ⟨fun hcapture => ?_, fun _ => nofun⟩
  refine wp_require_bind.mpr ⟨fun hdeposit => ?_, fun _ => nofun⟩
  rw [not_or, not_lt] at hcapture
  refine (validateVoucher_throws h (fun _ => nofun) _ _ _).when_bind_from fun w1 => ?_
  refine expect_sub_throws hcapture.1 (throws_of_from fun w2 => ?_)
  refine expect_sub_throws hdeposit (.ite ?_ ?_)
  · refine (fromAddress_throws h _).bind fun _ => throws_of_from fun w3 => ?_
    refine (deliverCapture_throws h _ _ _ _ _).when_bind_from fun w4 => ?_
    exact (deliverRefund_throws h _ _ _).when_bind_from hdelete.at
  · refine hdelete.bind fun _ => (fromAddress_throws h _).bind fun _ => ?_
    have hback := Throws.ite (c := state.deposit - captureAmount ≠ 0)
      (payOut_throws h descriptor.token descriptor.payer (state.deposit - captureAmount)) (.pure ())
    exact .ite ((ensureSender_throws h _ _).bind fun _ =>
      (payOut_throws h _ _ _).bind fun _ => hback) hback

theorem withdraw_throws (msgSender : Address) (descriptor : ChannelDescriptor)
    (hsettled : (w.reserve.channelStates descriptor).settled ≤
      (w.reserve.channelStates descriptor).deposit) :
    ThrowsFrom NotAborted (withdraw env msgSender descriptor) w := by
  have hdelete : Throws NotAborted (deleteChannelStateAndCreditPayer env
      descriptor descriptor.payer) := deleteChannelStateAndCreditPayer_throws (fun _ => nofun) _ _
  refine ((loadExistingState_throws (fun _ => nofun) _).wp _).bind fun state w1 hload => ?_
  obtain ⟨rfl, rfl, -⟩ := loadExistingState_yields hload
  refine wp_require_bind.mpr ⟨fun _ => ?_, fun _ => nofun⟩
  refine wp_require_bind.mpr ⟨fun _ => ?_, fun _ => nofun⟩
  refine expect_sub_throws hsettled (.ite ?_ ?_)
  · exact .ite ((fromAddress_throws h _).bind fun _ =>
      (deliverRefund_throws h _ _ _).bind fun _ => hdelete) hdelete
  · exact hdelete.bind fun _ => .ite ((fromAddress_throws h _).bind fun _ =>
      payOut_throws h _ _ _) (.pure _)

end Operations

end ChannelReserve

/-- Where no channel has settled more than its deposit, no expectation
fails. -/
theorem ReserveCall.exec_throws {env : ReserveEnv} {w : ReserveWorld}
    (c : ReserveCall) (henv : env.AnswersOnly NotAborted)
    (hsettled : ∀ d, (w.reserve.channelStates d).settled ≤ (w.reserve.channelStates d).deposit) :
    ThrowsFrom NotAborted (c.exec env) w := by
  have h : Tip20.RaisesOnly env.toEnv NotAborted :=
    ⟨henv, fun _ => nofun, fun _ => nofun, fun _ => nofun, nofun⟩
  refine ((Throws.ite (.updates _) (.pure _)).wp w).bind fun _ w1 hmode => ?_
  have hstart : w1.core = w.core :=
    Transforms.ite (StorageCredits.update_preserves ReserveWorld.core_ignores _)
      (ReadOnly.pure _).preserves hmode
  have hstates : w1.reserve.channelStates = w.reserve.channelStates :=
    congrArg (fun w => w.reserve.channelStates) hstart
  cases c with
  | open_ =>
    exact Throws.at ((open_throws h _ _ _ _ _ _ _).bind fun _ => .pure _) _
  | settle => exact settle_throws h _ _ _ _
  | topUp => exact (topUp_throws h _ _ _).at _
  | requestClose =>
    exact Throws.at ((loadExistingState_throws
      (fun _ => nofun) _).bind fun _ => (Throws.require _ nofun).bind
        fun _ => .ite (.pure _) (.updates _)) _
  | close => exact close_throws h _ _ _ _ _
  | withdraw msgSender d =>
    exact withdraw_throws h _ _ (hstates ▸ hsettled d)

end Tempo
