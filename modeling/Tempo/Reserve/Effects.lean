/-
What a call of the channel reserve does: it replaces the state of one channel
and moves amounts that the state before and the arguments fix.  The storage
credits it handles on the way touch neither.
-/
import Tempo.Reserve.Channels
import Tempo.Tip20.Errors
import Tempo.Tip20.Holdings

namespace Tempo

open Tip20 Function

open Tip20 (Outcome Resolved)

variable {env : ReserveEnv} {w w' : ReserveWorld} {u : Unit}

/-- Transfers in and out of the reserve arrive: where a receive policy could
divert them, none does.  From T12 on the reserve's transfers revert instead. -/
def ReserveEnv.Exact (env : ReserveEnv) : Prop :=
  .t12 ≤ env.spec ∨ ∀ token sender receiver, sender = tip20ChannelReserveAddress ∨
      receiver = tip20ChannelReserveAddress →
    ∀ b, env.checkReceivePolicy token sender receiver ≠ .ok (some b)

/-- Only tokens change, by an amount that is sent on. -/
def Sent (env : Env) (token from' to' : Address) (amount : Nat) (w w' : ReserveWorld) : Prop :=
  ∃ tokens, w' = { w with tokens } ∧ Sends env token from' to' amount w.tokens tokens

namespace ReserveWorld

def putState (w : ReserveWorld) (channelId : ChannelDescriptor)
    (state : PackedChannelState) : ReserveWorld :=
  { w with
    reserve.channelStates := update w.reserve.channelStates channelId state }

def markOpened (w : ReserveWorld) (channelId : ChannelDescriptor) : ReserveWorld :=
  { w with
    reserve.openedThisTx := update w.reserve.openedThisTx channelId true }

/-- The world without its storage credits. -/
def core (w : ReserveWorld) : ReserveWorld :=
  { w with
    reserve.channelStorageCredits := fun _ => 0
    credits := ⟨0, .preserve, 0, 0, false⟩ }

theorem writeState_core (spec : TempoHardfork) (channelId : ChannelDescriptor)
    (state : PackedChannelState) :
    Transforms core (fun w => w.putState channelId state) (writeState spec channelId state) :=
  transforms_updates fun _ => rfl

theorem core_ignores : StorageCredits.Ignores core := ⟨fun _ _ => rfl, fun _ _ => rfl⟩

end ReserveWorld

namespace ChannelReserve

open ReserveWorld StorageCredits

theorem creditChannelStorageSlots_core (payer : Address) (slots : Nat) :
    Preserves core (creditChannelStorageSlots env payer slots) := .ite (ReadOnly.pure _).preserves
    (creditStorageSlots_preserves core_ignores _ _ _)

theorem deleteChannelStateAndCreditPayer_core (channelId : ChannelDescriptor) (payer : Address) :
    Transforms core (fun w => w.putState channelId .blank)
      (deleteChannelStateAndCreditPayer env channelId payer) :=
  (trackMintedCredits_transforms (writeState_core _ _ _)).bind fun _ =>
    creditChannelStorageSlots_core _ _

theorem writeChannelStateSpendingCredit_core (payer : Address)
    (channelId : ChannelDescriptor) (state : PackedChannelState) :
    Transforms core (fun w => w.putState channelId state)
      (writeChannelStateSpendingCredit env payer channelId state) := by
  refine .ite ((ReadOnly.reads _).preserves.bind fun _ =>
    .ite (writeState_core _ _ _) ?_) (writeState_core _ _ _)
  refine Preserves.bind (writeCounter_preserves core_ignores _ _) fun _ => ?_
  refine (withBudget_transforms core_ignores (writeState_core _ _ _)).bind fun _ => ?_
  exact (ReadOnly.require _ _).preserves.bind fun _ =>
    creditChannelStorageSlots_core _ _

/-! Movements. -/

variable {token : Address} {amount : Nat} {α : Type} {a : α}

theorem yields_onTip20 {m : Exec TokenCtx α} :
    Yields (onTip20 token m) w a w' ↔ ∃ s, Yields m (w.tokens.ctx token) a s ∧
      { w with tokens := w.tokens.putCtx token s } = w' := by
  rw [onTip20, onTokens, yields_focus]
  constructor
  · rintro ⟨tokens, h, rfl⟩
    obtain ⟨s, hs, rfl⟩ := yields_onToken.mp h
    exact ⟨s, hs, rfl⟩
  · rintro ⟨s, hs, rfl⟩
    exact ⟨_, yields_onToken.mpr ⟨s, hs, rfl⟩, rfl⟩

theorem yields_fromAddress_bind {k : Unit → Exec ReserveWorld α} :
    Yields (onTokens (fromAddress token) >>= k) w a w' ↔
      token.isTip20 = true ∧ Yields (k ()) w a w' := by
  simp only [onTokens, fromAddress, yields_bind, yields_focus, yields_steps]
  constructor
  · rintro ⟨⟨⟩, _, ⟨_, ⟨htoken, rfl⟩, rfl⟩, hk⟩
    exact ⟨htoken, hk⟩
  · rintro ⟨htoken, hk⟩
    exact ⟨(), w, ⟨_, ⟨htoken, rfl⟩, rfl⟩, hk⟩

theorem reserve_not_virtual : tip20ChannelReserveAddress.isVirtual = false := by
  decide

theorem pullDeposit_yields {sender payee policySender : Address}
    (hexact : env.Exact) (htoken : token.isTip20 = true)
    (h : Yields (pullDeposit env token sender payee policySender amount) w u w') :
    Sent env.toEnv token sender tip20ChannelReserveAddress amount w w' := by
  obtain ⟨s, hrun, rfl⟩ := yields_onTip20.mp h
  refine ⟨_, rfl, ?_⟩
  have hself : Resolved env.toEnv tip20ChannelReserveAddress
      tip20ChannelReserveAddress := by
    simp [Resolved, Address.decodeVirtual, reserve_not_virtual]
  split at hrun
  · obtain ⟨t, -, hrun⟩ := (resolve_readOnly _ _).yields_bind hrun
    replace hrun := hrun.skip (ensureTransferAuthorized_readOnly _ _ _ _)
      |>.skip (ensureReceivePolicyAuthorized_readOnly _ _ _ _)
    exact .transfer htoken hself (channelReserveTransfer_yields hrun)
  · rename_i hold
    obtain ⟨t, -, hrun⟩ := (resolve_readOnly _ _).yields_bind hrun
    replace hrun := hrun.skip (ensureAuthorizedAs_readOnly _ _ _ _)
    obtain ⟨ok, hpull⟩ := Yields.of_bind_pure hrun
    obtain ⟨-, htransfer⟩ := yields_require_bind.mp hpull
    obtain ⟨-, ⟨t, hto, -, -, hout⟩ | ⟨⟨t, b, hto, hblocked⟩, -⟩⟩ :=
      performTransfer_yields htransfer
    · exact .transfer htoken hto hout
    · obtain rfl := hto.eq_of_not_virtual reserve_not_virtual
      rcases hexact with hnew | hfree
      · exact absurd hnew hold
      · exact absurd hblocked (hfree _ _ _ (.inr rfl) b)

theorem payOut_yields {to' : Address} (hexact : env.Exact)
    (hold : ¬.t12 ≤ env.spec) (htoken : token.isTip20 = true)
    (h : Yields (payOut env token to' amount) w u w') :
    Sent env.toEnv token tip20ChannelReserveAddress to' amount w w' := by
  obtain ⟨s, hrun, rfl⟩ := yields_onTip20.mp h
  refine ⟨_, rfl, ?_⟩
  obtain ⟨ok, htransfer⟩ := Yields.of_bind_pure hrun
  obtain ⟨-, ⟨t, hto, -, -, hout⟩ | ⟨⟨t, b, -, hblocked⟩, -⟩⟩ := performTransfer_yields htransfer
  · exact .transfer htoken hto hout
  · rcases hexact with hnew | hfree
    · exact absurd hnew hold
    · exact absurd hblocked (hfree _ _ _ (.inl rfl) b)

variable {state : PackedChannelState} {channelId : ChannelDescriptor}

theorem deliverCapture_yields {payer payee : Address} (htoken : token.isTip20 = true)
    (h : Yields (deliverCapture env token payer payee state amount) w u w') :
    Sent env.toEnv token tip20ChannelReserveAddress payee amount w w' := by
  obtain ⟨s, hrun, rfl⟩ := yields_onTip20.mp h
  refine ⟨_, rfl, ?_⟩
  obtain ⟨t, hto, hrun⟩ := (resolve_readOnly _ _).yields_bind hrun
  replace hrun := hrun.skip (ensureTransferAuthorized_readOnly _ _ _ _)
  exact .transfer htoken (resolve_yields hto) (channelReserveTransfer_yields hrun)

theorem deliverRefund_yields {payer : Address} (htoken : token.isTip20 = true)
    (h : Yields (deliverRefund env token payer amount) w u w') :
    Sent env.toEnv token tip20ChannelReserveAddress payer amount w w' := by
  obtain ⟨s, hrun, rfl⟩ := yields_onTip20.mp h
  refine ⟨_, rfl, ?_⟩
  obtain ⟨t, hto, hrun⟩ := (resolve_readOnly _ _).yields_bind hrun
  exact .transfer htoken (resolve_yields hto) (channelReserveTransfer_yields hrun)

/-- A zero amount is left out. -/
theorem Sent.of_when {from' to' : Address} {m : Exec ReserveWorld Unit}
    (h : Yields (if amount ≠ 0 then m else pure ()) w u w')
    (hm : Yields m w u w' → Sent env.toEnv token from' to' amount w w') :
    Sent env.toEnv token from' to' amount w w' := by
  rcases yields_ite.mp h with ⟨-, hrun⟩ | ⟨hzero, hskip⟩
  · exact hm hrun
  · obtain ⟨-, rfl⟩ := hskip.pure
    rw [not_not.mp hzero]
    exact ⟨_, rfl, .nothing _⟩

theorem ensureSender_readOnly (token payer : Address) : ReadOnly (ensureSender env token payer) :=
  ReadOnly.focus (fun _ => rfl) (ensureAuthorizedAs_readOnly _ _ _ _).onToken

theorem loadExistingState_yields (h : Yields (loadExistingState channelId) w state w') :
    w' = w ∧ state = w.reserve.channelStates channelId ∧ state.deposit ≠ 0 := by
  simp only [loadExistingState, query, yields_steps] at h
  obtain ⟨hlive, rfl, rfl⟩ := h
  exact ⟨rfl, rfl, hlive⟩

theorem yields_loadExistingState_bind {k : PackedChannelState → Exec ReserveWorld α} :
    Yields (loadExistingState channelId >>= k) w a w' ↔
      (w.reserve.channelStates channelId).deposit ≠ 0 ∧
        Yields (k (w.reserve.channelStates channelId)) w a w' := by
  simp [loadExistingState, query]

/-- The signer the channel expects has signed, and is not retired. -/
def validVoucher (env : ReserveEnv) (descriptor : ChannelDescriptor)
    (cumulativeAmount : Nat) (signature : B256) : Bool :=
  env.recoverSigner descriptor cumulativeAmount signature == some (expectedSigner descriptor) &&
    match env.isRetiredRoot (expectedSigner descriptor) with
    | .ok retired => !retired
    | .error _ => false

theorem validateVoucher_yields {descriptor : ChannelDescriptor}
    {cumulativeAmount : Nat} {signature : B256}
    (h : Yields (validateVoucher env descriptor cumulativeAmount signature) w u w') :
    w' = w ∧ validVoucher env descriptor cumulativeAmount signature = true := by
  simp only [validateVoucher, yields_steps] at h
  obtain ⟨signer, hrecover, rfl, retired, hretired, hvalid, rfl⟩ := h
  refine ⟨rfl, ?_⟩
  rw [validVoucher, hrecover, hretired, hvalid]
  simp

theorem checkOpen_yields (h : Yields (checkOpen channelId) w u w') :
    w' = w ∧ (w.reserve.channelStates channelId).deposit = 0 ∧
      w.reserve.openedThisTx channelId = false := by
  simp only [checkOpen, query, yields_steps] at h
  obtain ⟨hfree, rfl⟩ := h
  rw [not_or, not_not, Bool.not_eq_true] at hfree
  exact ⟨rfl, hfree⟩

end ChannelReserve

/-- The amounts a call moves: from the payer into the reserve, on to the
payee, and back to the payer. -/
structure Payments where
  pulled : Nat
  captured : Nat
  returned : Nat

namespace ReserveCall

open ChannelReserve ReserveWorld

/-- The channel a call is about. -/
def channel (w : ReserveWorld) : ReserveCall → ChannelDescriptor
  | open_ msgSender payee operator token _ salt authorizedSigner =>
    ⟨msgSender, payee, operator, token, salt, authorizedSigner, w.reserve.channelOpenContextHash⟩
  | settle _ d _ _ | topUp _ d _ | requestClose _ d | close _ d _ _ _
  | withdraw _ d => d

/-- The state of that channel before the call. -/
def before (w : ReserveWorld) (c : ReserveCall) : PackedChannelState :=
  w.reserve.channelStates (c.channel w)

/-- Its state afterwards. -/
def after (env : ReserveEnv) (w : ReserveWorld) (c : ReserveCall) : PackedChannelState :=
  match c with
  | open_ _ _ _ _ deposit _ _ => ⟨0, deposit, 0, .t12 ≤ env.spec⟩
  | settle _ _ cumulativeAmount _ =>
    { c.before w with settled := cumulativeAmount }
  | topUp _ _ additionalDeposit =>
    { c.before w with
      deposit := (c.before w).deposit + additionalDeposit
      closeRequestedAt := 0 }
  | requestClose _ _ =>
    if (c.before w).closeRequestedAt ≠ 0 then c.before w
    else { c.before w with closeRequestedAt := nowU32 env }
  | close _ _ _ _ _ | withdraw _ _ => .blank

def payments (w : ReserveWorld) (c : ReserveCall) : Payments :=
  match c with
  | open_ _ _ _ _ deposit _ _ => ⟨deposit, 0, 0⟩
  | settle _ _ cumulativeAmount _ =>
    ⟨0, cumulativeAmount - (c.before w).settled, 0⟩
  | topUp _ _ additionalDeposit => ⟨additionalDeposit, 0, 0⟩
  | requestClose _ _ => ⟨0, 0, 0⟩
  | close _ _ _ captureAmount _ =>
    ⟨0, captureAmount - (c.before w).settled, (c.before w).deposit - captureAmount⟩
  | withdraw _ _ => ⟨0, 0, (c.before w).deposit - (c.before w).settled⟩

/-- The cumulative amount of a valid voucher that comes with the call. -/
def vouches (env : ReserveEnv) : ReserveCall → Nat
  | settle _ d cumulativeAmount signature
  | close _ d cumulativeAmount _ signature =>
    if validVoucher env d cumulativeAmount signature then cumulativeAmount
    else 0
  | _ => 0

/-- What a successful call has checked. -/
def Accepts (env : ReserveEnv) (w : ReserveWorld) (c : ReserveCall) : Prop :=
  match c with
  | open_ _ _ _ _ deposit _ _ =>
    deposit ≠ 0 ∧ w.reserve.channelOpenContextHash ≠ 0 ∧
    (c.before w).deposit = 0 ∧ w.reserve.openedThisTx (c.channel w) = false
  | settle _ d cumulativeAmount signature =>
    (c.before w).deposit ≠ 0 ∧ cumulativeAmount ≤ (c.before w).deposit ∧
    (c.before w).settled < cumulativeAmount ∧
    validVoucher env d cumulativeAmount signature = true
  | topUp msgSender d _ => (c.before w).deposit ≠ 0 ∧ msgSender = d.payer
  | requestClose _ _ => (c.before w).deposit ≠ 0
  | close _ d cumulativeAmount captureAmount signature =>
    (c.before w).deposit ≠ 0 ∧ (c.before w).settled ≤ captureAmount ∧
    captureAmount ≤ cumulativeAmount ∧
    captureAmount ≤ (c.before w).deposit ∧
    ((c.before w).settled < captureAmount → validVoucher env d cumulativeAmount signature = true)
  | withdraw _ _ =>
    (c.before w).deposit ≠ 0 ∧ (c.before w).settled ≤ (c.before w).deposit

def opens : ReserveCall → Bool
  | open_ _ _ _ _ _ _ _ => true
  | _ => false

/-- The world after a call, up to the credits. -/
def recorded (env : ReserveEnv) (w : ReserveWorld) (c : ReserveCall)
    (tokens : TokenWorld) : ReserveWorld :=
  { w with
    tokens
    reserve.channelStates := update w.reserve.channelStates (c.channel w) (c.after env w)
    reserve.openedThisTx :=
      if c.opens then
        update w.reserve.openedThisTx (c.channel w) true
      else w.reserve.openedThisTx }

/-- The amounts of a call go where they should. -/
def Pays (env : ReserveEnv) (d : ChannelDescriptor) (p : Payments)
    (tokens tokens' : TokenWorld) : Prop :=
  ∃ t₁ t₂, Sends env.toEnv d.token d.payer tip20ChannelReserveAddress p.pulled tokens t₁ ∧
    Sends env.toEnv d.token tip20ChannelReserveAddress d.payee p.captured t₁ t₂ ∧
    Sends env.toEnv d.token tip20ChannelReserveAddress d.payer p.returned t₂ tokens'

/-- What a successful call has done. -/
structure Effect (env : ReserveEnv) (c : ReserveCall) (w w' : ReserveWorld) : Prop where
  accepts : c.Accepts env w
  core : w'.core = (c.recorded env w w'.tokens).core
  pays : Pays env (c.channel w) (c.payments w) w.tokens w'.tokens

variable {c : ReserveCall} {msgSender : Address} {d : ChannelDescriptor}

theorem Effect.of_core (tokens : TokenWorld) (haccepts : c.Accepts env w)
    (hcore : w'.core = (c.recorded env w tokens).core)
    (hpays : Pays env (c.channel w) (c.payments w) w.tokens tokens) : Effect env c w w' := by
  obtain rfl : w'.tokens = tokens := congrArg (fun w => w.tokens) hcore
  exact ⟨haccepts, hcore, hpays⟩

/-- A call that leaves its channel as it is. -/
theorem recorded_self (hopens : c.opens = false)
    (h : c.after env w = c.before w) : c.recorded env w w.tokens = w := by
  unfold recorded
  rw [h, hopens, before, update_eq_self]
  rfl

/-- The effect does not depend on the credits before the call. -/
theorem Effect.of_start {w1 : ReserveWorld} (hstart : w1.core = w.core) (h : Effect env c w1 w') :
    Effect env c w w' := by
  have haccepts : c.Accepts env w1.core := h.accepts
  have hcore : w'.core = (c.recorded env w1.core w'.tokens).core := h.core
  have hpays : Pays env (c.channel w1.core) (c.payments w1.core) w1.core.tokens w'.tokens := h.pays
  rw [hstart] at haccepts hcore hpays
  exact ⟨haccepts, hcore, hpays⟩

theorem open_effect {payee operator token : Address} {deposit : Nat}
    {salt : B256} {authorizedSigner : Address} (hexact : env.Exact)
    (h : Yields (ChannelReserve.open_ env msgSender payee operator token
      deposit salt authorizedSigner) w d w') :
    Effect env (open_ msgSender payee operator token deposit salt authorizedSigner) w w' := by
  obtain ⟨-, hstart⟩ := yields_require_bind.mp h
  obtain ⟨htip20, hrest⟩ := yields_fromAddress_bind.mp hstart
  simp only [query, yields_steps] at hrest
  obtain ⟨hdeposit, hhash, hopen⟩ := hrest
  obtain ⟨⟨⟩, w2, hcheck, hpullrest⟩ := hopen.bind
  obtain ⟨rfl, hnone, hunopened⟩ := checkOpen_yields hcheck
  obtain ⟨⟨⟩, w3, hpull, hwriterest⟩ := hpullrest.bind
  obtain ⟨tokens, rfl, hsent⟩ := pullDeposit_yields hexact htip20 hpull
  obtain ⟨⟨⟩, w4, hwrite, hmark⟩ := hwriterest.bind
  obtain ⟨-, rfl⟩ := hmark.pure
  refine .of_core tokens ⟨hdeposit, hhash, hnone, hunopened⟩ ?_
    ⟨_, _, hsent, .nothing _, .nothing _⟩
  change w4.core.markOpened _ = _
  rw [writeChannelStateSpendingCredit_core _ _ _ hwrite]
  rfl

variable {cumulativeAmount : Nat} {signature : B256}

theorem settle_effect (hexact : env.Exact)
    (h : Yields (ChannelReserve.settle env msgSender d cumulativeAmount signature) w u w') :
    Effect env (settle msgSender d cumulativeAmount signature) w w' := by
  simp only [ChannelReserve.settle, ensurePayeeOrOperator, yields_loadExistingState_bind,
    yields_steps] at h
  obtain ⟨hlive, -, hle, hlt, hrest⟩ := h
  obtain ⟨⟨⟩, w2, hvoucher, hpay⟩ := hrest.bind
  obtain ⟨rfl, hvalid⟩ := validateVoucher_yields hvoucher
  simp only [expect, yields_orFail_bind, checkedSub_eq_some] at hpay
  obtain ⟨delta, ⟨-, rfl⟩, hmove⟩ := hpay
  obtain ⟨htip20, hsend⟩ := yields_fromAddress_bind.mp hmove
  rcases yields_ite.mp hsend with ⟨-, hnew⟩ | ⟨hold, hearly⟩
  · obtain ⟨⟨⟩, w4, hdeliver, hwrite⟩ := hnew.bind
    obtain ⟨tokens, rfl, hsent⟩ := deliverCapture_yields htip20 hdeliver
    exact .of_core tokens ⟨hlive, hle, hlt, hvalid⟩
      (writeState_core _ _ _ hwrite) ⟨_, _, .nothing _, hsent, .nothing _⟩
  · have hwrite := hearly.skip (ensureSender_readOnly _ _)
    obtain ⟨tokens, rfl, hsent⟩ := payOut_yields hexact hold htip20 hwrite
    exact .of_core tokens ⟨hlive, hle, hlt, hvalid⟩ rfl ⟨_, _, .nothing _, hsent, .nothing _⟩

theorem topUp_effect {additionalDeposit : Nat} (hexact : env.Exact)
    (h : Yields (ChannelReserve.topUp env msgSender d additionalDeposit) w u w') :
    Effect env (topUp msgSender d additionalDeposit) w w' := by
  simp only [ChannelReserve.topUp, yields_loadExistingState_bind, yields_steps] at h
  obtain ⟨hlive, rfl, hrest⟩ := h
  rcases yields_ite.mp hrest with ⟨rfl, hcancel⟩ | ⟨-, hadd⟩
  · refine .of_core w.tokens ⟨hlive, rfl⟩ ?_ ⟨_, _, .nothing _, .nothing _, .nothing _⟩
    rcases yields_ite.mp hcancel with ⟨hzero, hskip⟩ | ⟨-, hwrite⟩
    · obtain ⟨-, rfl⟩ := hskip.pure
      rw [recorded_self rfl]
      exact congrArg (fun time => { w.reserve.channelStates d with
        closeRequestedAt := time }) hzero.symm
    · exact writeState_core _ _ _ hwrite
  · simp only [yields_orFail_bind, checkedAdd_eq_some] at hadd
    obtain ⟨nextDeposit, ⟨-, rfl⟩, hmove⟩ := hadd
    obtain ⟨htip20, hsend⟩ := yields_fromAddress_bind.mp hmove
    obtain ⟨⟨⟩, w3, hpull, hwrite⟩ := hsend.bind
    obtain ⟨tokens, rfl, hsent⟩ := pullDeposit_yields hexact htip20 hpull
    exact .of_core tokens ⟨hlive, rfl⟩ (writeState_core _ _ _ hwrite)
      ⟨_, _, hsent, .nothing _, .nothing _⟩

theorem requestClose_effect (h : Yields (ChannelReserve.requestClose env msgSender d) w u w') :
    Effect env (requestClose msgSender d) w w' := by
  simp only [ChannelReserve.requestClose, yields_loadExistingState_bind, yields_steps] at h
  obtain ⟨hlive, -, hrest⟩ := h
  refine .of_core w.tokens hlive ?_ ⟨_, _, .nothing _, .nothing _, .nothing _⟩
  rcases yields_ite.mp hrest with ⟨hset, hskip⟩ | ⟨hunset, hwrite⟩
  · obtain ⟨-, rfl⟩ := hskip.pure
    rw [recorded_self rfl]
    exact if_pos hset
  · have hafter : (requestClose msgSender d).after env w =
        { w.reserve.channelStates d with closeRequestedAt := nowU32 env } := if_neg hunset
    rw [writeState_core _ _ _ hwrite, recorded, hafter]
    rfl

theorem close_effect {captureAmount : Nat} (hexact : env.Exact)
    (h : Yields (ChannelReserve.close env msgSender d cumulativeAmount
      captureAmount signature) w u w') :
    Effect env (close msgSender d cumulativeAmount captureAmount signature) w w' := by
  simp only [ChannelReserve.close, ensurePayeeOrOperator, yields_loadExistingState_bind,
    yields_steps, not_or, not_lt] at h
  obtain ⟨hlive, -, ⟨hsettled, hcumulative⟩, hdeposit, hrest⟩ := h
  obtain ⟨w2, hvoucher, hpay⟩ := yields_when_bind.mp hrest
  have hchecked : w2 = w ∧ ((w.reserve.channelStates d).settled <
      captureAmount → validVoucher env d cumulativeAmount signature = true) := by
    rcases yields_ite.mp hvoucher with ⟨-, hvalidate⟩ | ⟨hequal, hskip⟩
    · obtain ⟨heq, hvalid⟩ := validateVoucher_yields hvalidate
      exact ⟨heq, fun _ => hvalid⟩
    · exact ⟨(hskip.pure).2.symm, fun hlt => absurd hlt hequal⟩
  obtain ⟨rfl, hvalid⟩ := hchecked
  have haccepts : Accepts env w2 (close msgSender d cumulativeAmount captureAmount signature) :=
    ⟨hlive, hsettled, hcumulative, hdeposit, hvalid⟩
  simp only [expect, yields_orFail_bind, checkedSub_eq_some] at hpay
  obtain ⟨delta, ⟨-, rfl⟩, refund, ⟨-, rfl⟩, hmove⟩ := hpay
  rcases yields_ite.mp hmove with ⟨-, hnew⟩ | ⟨hold, hearly⟩
  · obtain ⟨htip20, hsend⟩ := yields_fromAddress_bind.mp hnew
    obtain ⟨w4, hcapture, hback⟩ := yields_when_bind.mp hsend
    obtain ⟨tokens, rfl, hcaptured⟩ := Sent.of_when hcapture (deliverCapture_yields htip20)
    obtain ⟨w5, hrefund, hdelete⟩ := yields_when_bind.mp hback
    obtain ⟨tokens', rfl, hreturned⟩ := Sent.of_when hrefund (deliverRefund_yields htip20)
    exact .of_core tokens' haccepts (deleteChannelStateAndCreditPayer_core _ _ hdelete)
      ⟨_, _, .nothing _, hcaptured, hreturned⟩
  · obtain ⟨⟨⟩, w3, hdelete, htokens⟩ := hearly.bind
    have hcore := deleteChannelStateAndCreditPayer_core _ _ hdelete
    have hsame : w3.tokens = w2.tokens := congrArg (fun w => w.tokens) hcore
    obtain ⟨htip20, hsend⟩ := yields_fromAddress_bind.mp htokens
    obtain ⟨w5, hcapture, hrefund⟩ := yields_when_bind_bind.mp hsend
    obtain ⟨tokens, rfl, hcaptured⟩ := Sent.of_when hcapture fun hrun => by
      have hpayout := hrun.skip (ensureSender_readOnly _ _)
      exact payOut_yields hexact hold htip20 hpayout
    obtain ⟨tokens', rfl, hreturned⟩ := Sent.of_when hrefund (payOut_yields hexact hold htip20)
    rw [hsame] at hcaptured
    refine .of_core tokens' haccepts ?_ ⟨_, _, .nothing _, hcaptured, hreturned⟩
    change { w3.core with tokens := tokens' } = _
    rw [hcore]
    rfl

theorem withdraw_effect (hexact : env.Exact)
    (h : Yields (ChannelReserve.withdraw env msgSender d) w u w') :
    Effect env (withdraw msgSender d) w w' := by
  simp only [ChannelReserve.withdraw, expect, yields_loadExistingState_bind, yields_steps,
    checkedSub_eq_some] at h
  obtain ⟨hlive, -, -, refund, ⟨hsettled, rfl⟩, hmove⟩ := h
  rcases yields_ite.mp hmove with ⟨-, hnew⟩ | ⟨hold, hearly⟩
  · obtain ⟨w2, hrefund, hdelete⟩ := yields_when_bind_bind.mp hnew
    obtain ⟨tokens, rfl, hreturned⟩ := Sent.of_when hrefund fun hrun => by
      obtain ⟨htip20, hdeliver⟩ := yields_fromAddress_bind.mp hrun
      exact deliverRefund_yields htip20 hdeliver
    exact .of_core tokens ⟨hlive, hsettled⟩ (deleteChannelStateAndCreditPayer_core _ _ hdelete)
      ⟨_, _, .nothing _, .nothing _, hreturned⟩
  · obtain ⟨⟨⟩, w2, hdelete, hrefund⟩ := hearly.bind
    have hcore := deleteChannelStateAndCreditPayer_core _ _ hdelete
    have hsame : w2.tokens = w.tokens := congrArg (fun w => w.tokens) hcore
    obtain ⟨tokens, rfl, hreturned⟩ := Sent.of_when hrefund fun hrun => by
      obtain ⟨htip20, hpayout⟩ := yields_fromAddress_bind.mp hrun
      exact payOut_yields hexact hold htip20 hpayout
    rw [hsame] at hreturned
    refine .of_core tokens ⟨hlive, hsettled⟩ ?_ ⟨_, _, .nothing _, .nothing _, hreturned⟩
    change { w2.core with tokens := tokens } = _
    rw [hcore]
    rfl

theorem exec_effect (hexact : env.Exact) (h : Yields (c.exec env) w u w') : Effect env c w w' := by
  obtain ⟨⟨⟩, w1, hmode, hbody⟩ := h.bind
  have hstart : w1.core = w.core := Transforms.ite (StorageCredits.update_preserves core_ignores _)
      (ReadOnly.pure _).preserves hmode
  refine .of_start hstart ?_
  cases c with
  | open_ msgSender payee operator token deposit salt authorizedSigner =>
    obtain ⟨d, hopen⟩ := Yields.of_bind_pure hbody
    exact open_effect hexact hopen
  | settle => exact settle_effect hexact hbody
  | topUp => exact topUp_effect hexact hbody
  | requestClose => exact requestClose_effect hbody
  | close => exact close_effect hexact hbody
  | withdraw => exact withdraw_effect hexact hbody

end ReserveCall

end Tempo
