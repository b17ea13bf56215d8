/-
Runs of a TIP-20 token.  A call is any entry point of the contract with its
arguments, made under an arbitrary environment; a failed call is reverted by
the virtual machine, so a run is a sequence of successful calls.
-/
import Tempo.Tip20.Effects

namespace Tempo

/-- The ledger of a token nobody has used yet. -/
def Ledger.fresh : Ledger where
  totalSupply := 0
  balances _ := 0
  supplyCap := maxWord 128
  globalRewardPerToken := 0
  optedInSupply := 0
  userRewardInfo _ := ⟨0, 0, 0⟩

/-- The entry points of a token that can write to it. -/
inductive TokenCall where
  | mint (msgSender to' : Address) (amount : Nat)
  | mintWithMemo (msgSender to' : Address) (amount : Nat) (memo : B256)
  | burn (msgSender : Address) (amount : Nat)
  | burnWithMemo (msgSender : Address) (amount : Nat) (memo : B256)
  | burnBlocked (msgSender owner : Address) (amount : Nat) (checkProtected : Bool)
  | burnAt (msgSender from' : Address) (amount : Nat)
  | transfer (msgSender to' : Address) (amount : Nat)
  | transferWithMemo (msgSender to' : Address) (amount : Nat) (memo : B256)
  | transferFrom (msgSender from' to' : Address) (amount : Nat)
  | transferFromWithMemo (msgSender from' to' : Address) (amount : Nat) (memo : B256)
  | systemTransferFrom (caller from' : Address) (amount : Nat)
  | channelReserveTransfer (from' : Address) (to' : Recipient) (amount : Nat)
      (receivePolicySender : Address)
  | releaseBlockedFunds (originator receiver to' : Address) (amount : Nat)
      (mode : RecoveryMode) (recoveryAuth : Address)
  | transferFeePreTx (from' : Address) (amount : Nat)
  | transferFeePostTx (to' : Address) (refund actualSpending : Nat)
  | distributeReward (msgSender : Address) (amount : Nat)
  | claimRewards (msgSender : Address)
  | setRewardRecipient (msgSender recipient : Address)
  | setSupplyCap (msgSender : Address) (newSupplyCap : Nat)
  | approve (msgSender spender : Address) (amount : Nat)
  | permit (owner spender : Address) (value deadline : Nat) (signature : B256)
  | pause (msgSender : Address)
  | unpause (msgSender : Address)
  | grantRole (msgSender account : Address) (role : B256)
  | revokeRole (msgSender account : Address) (role : B256)
  | renounceRole (msgSender : Address) (role : B256)
  | setRoleAdmin (msgSender : Address) (role adminRole : B256)

namespace TokenCall

/-- Run a call for its effect. -/
def ignoring {α : Type} (m : Exec TokenCtx α) : Exec TokenCtx Unit := do
  let _ ← m
  pure ()

open Tip20 in
def exec (env : Env) (self : Address) : TokenCall → Exec TokenCtx Unit
  | .mint sender to' amount => Tip20.mint env self sender to' amount
  | .mintWithMemo sender to' amount memo =>
    Tip20.mintWithMemo env self sender to' amount memo
  | .burn sender amount => Tip20.burn env self sender amount
  | .burnWithMemo sender amount memo =>
    Tip20.burnWithMemo env self sender amount memo
  | .burnBlocked sender owner amount check =>
    Tip20.burnBlocked env self sender owner amount check
  | .burnAt sender from' amount => Tip20.burnAt env self sender from' amount
  | .transfer sender to' amount =>
    ignoring (Tip20.transfer env self sender to' amount)
  | .transferWithMemo sender to' amount memo =>
    ignoring (Tip20.transferWithMemo env self sender to' amount memo)
  | .transferFrom sender from' to' amount =>
    ignoring (Tip20.transferFrom env self sender from' to' amount)
  | .transferFromWithMemo sender from' to' amount memo =>
    ignoring (Tip20.transferFromWithMemo env self sender from' to' amount memo)
  | .systemTransferFrom caller from' amount =>
    ignoring (Tip20.systemTransferFrom env self caller from' amount)
  | .channelReserveTransfer from' to' amount sender =>
    Tip20.channelReserveTransfer env self from' to' amount sender
  | .releaseBlockedFunds originator receiver to' amount mode auth =>
    Tip20.releaseBlockedFunds env self originator receiver to' amount mode auth
  | .transferFeePreTx from' amount =>
    Tip20.transferFeePreTx env self from' amount
  | .transferFeePostTx to' refund actual =>
    Tip20.transferFeePostTx env self to' refund actual
  | .distributeReward sender amount =>
    Tip20.distributeReward env self sender amount
  | .claimRewards sender => ignoring (Tip20.claimRewards env self sender)
  | .setRewardRecipient sender recipient =>
    Tip20.setRewardRecipient env self sender recipient
  | .setSupplyCap sender cap => Tip20.setSupplyCap sender cap
  | .approve sender spender amount =>
    ignoring (Tip20.approve env self sender spender amount)
  | .permit owner spender value deadline signature =>
    Tip20.permit env owner spender value deadline signature
  | .pause sender => Tip20.pause sender
  | .unpause sender => Tip20.unpause sender
  | .grantRole sender account role => Tip20.grantRole sender account role
  | .revokeRole sender account role => Tip20.revokeRole sender account role
  | .renounceRole sender role => Tip20.renounceRole sender role
  | .setRoleAdmin sender role admin => Tip20.setRoleAdmin sender role admin

/-- One successful call on token `self`. -/
def Step (self : Address) (s s' : TokenCtx) : Prop :=
  ∃ (env : Env) (c : TokenCall), Yields (c.exec env self) s () s'

/-- States reached from an unused address by initialisation and calls. -/
def Reachable (self : Address) (s : TokenCtx) : Prop :=
  ∃ (env : Env) (currency : String) (quoteToken admin : Address)
    (guard : ReceivePolicyGuard) (s₀ : TokenCtx),
    Yields (Tip20.initializeToken env currency quoteToken admin) ⟨Token.blank, guard⟩ () s₀ ∧
    Relation.ReflTransGen (Step self) s₀ s

/-- Accounts a call can debit or opt in on the strength of being called by
them.  Token contracts and the precompiles never make such calls and the zero
address cannot, so an external call names none of these. -/
def External (self : Address) : TokenCall → Prop
  | .burn sender _ | .burnWithMemo sender _ _ => sender ≠ self
  | .transfer sender _ _ | .transferWithMemo sender _ _ _ => sender ≠ self
  | .systemTransferFrom _ from' _ => from' ≠ self
  | .channelReserveTransfer from' _ _ _ => from' ≠ self
  | .transferFeePreTx from' _ => from' ≠ self
  | .distributeReward sender _ => sender ≠ self
  | .claimRewards sender => sender ≠ self
  | .approve sender _ _ => sender ≠ self
  | .permit owner _ _ _ _ => owner ≠ self
  | .setRewardRecipient sender _ =>
    sender ≠ 0 ∧ sender ≠ self ∧ sender ≠ tipFeeManagerAddress
  | _ => True

end TokenCall

/-- A movement that takes nothing from the token contract's own balance
except by claims, and opts in only accounts that can. -/
def Movement.Fair (self : Address) : Movement → Prop
  | .transfer from' _ amount => from' = self → amount = 0
  | .burn from' _ => from' ≠ self
  | .feePre from' _ => from' ≠ self
  | .distribute from' _ => from' ≠ self
  | .claim holder _ => holder ≠ self
  | .setRecipient holder _ =>
    holder ≠ 0 ∧ holder ≠ self ∧ holder ≠ tipFeeManagerAddress
  | _ => True

/-- Nobody may spend on behalf of the token contract. -/
def NoAllowance (self : Address) (s : TokenCtx) : Prop :=
  ∀ spender, s.token.allowances self spender = 0

/-- A ledger movement, fair whenever the call is an external one from T5 on
and the contract has granted no allowance; it then grants none. -/
def TokenCall.Moved (env : Env) (self : Address) (c : TokenCall) (s s' : TokenCtx) : Prop :=
  ∃ m, LedgerStep env.spec self m s.token.toLedger s'.token.toLedger ∧
    (c.External self → .t5 ≤ env.spec → NoAllowance self s → m.Fair self ∧ NoAllowance self s')

namespace TokenCall

open Tip20 (Burnable)

/-- The account whose funds a call takes without an allowance. -/
def Takes (env : Env) (self : Address) : TokenCall → Address → Prop
  | .burn sender _, a | .burnWithMemo sender _ _, a => sender = a
  | .transfer sender _ _, a | .transferWithMemo sender _ _ _, a => sender = a
  | .systemTransferFrom _ from' _, a => from' = a
  | .channelReserveTransfer from' _ _ _, a => from' = a
  | .transferFeePreTx from' _, a => from' = a
  | .distributeReward sender _, a => sender = a
  | .burnBlocked _ owner _ true, a => owner = a ∧ Burnable env self a
  | .burnBlocked _ _ _ false, a => receivePolicyGuardAddress = a
  | .burnAt _ from' _, a => from' = a ∧ Burnable env self a
  | .releaseBlockedFunds _ _ _ _ _ _, a => receivePolicyGuardAddress = a
  | _, _ => False

/-- The accounts whose allowances a call may raise. -/
def Grants : TokenCall → Address → Prop
  | .approve sender _ _, a => sender = a
  | .permit owner _ _ _ _, a => owner = a
  | _, _ => False

end TokenCall

/-- The movement lowers the balance of an account in favour of others.  What
claims and fee refunds take is fixed by the ledger itself. -/
inductive Movement.Debits : Movement → Address → Nat → Prop
  | transfer (from' to' : Address) (amount : Nat) :
      Debits (.transfer from' to' amount) from' amount
  | burn (from' : Address) (amount : Nat) :
      Debits (.burn from' amount) from' amount
  | feePre (from' : Address) (amount : Nat) :
      Debits (.feePre from' amount) from' amount
  | distribute (from' : Address) (amount : Nat) :
      Debits (.distribute from' amount) from' amount

/-- Rewards are claimed and delegated by the holder. -/
def Movement.ActsFor : Movement → TokenCall → Prop
  | .claim holder _, c => c = .claimRewards holder
  | .setRecipient holder recipient, c => c = .setRewardRecipient holder recipient
  | _, _ => True

/-- What a successful call did, and on whose authority. -/
structure TokenCall.Effect (env : Env) (token : Address) (c : TokenCall)
    (s s' : TokenCtx) (m : Movement) : Prop where
  step : LedgerStep env.spec token m s.token.toLedger s'.token.toLedger
  debits : ∀ from' amount, m.Debits from' amount → c.Takes env token from' ∨
    ((∃ to', m = .transfer from' to' amount) ∧ ∃ spender, amount ≤ s.token.allowances from' spender)
  acts : m.ActsFor c
  allowances : ∀ owner, ¬c.Grants owner → ∀ spender,
    s'.token.allowances owner spender ≤ s.token.allowances owner spender
  guard : Tip20.GuardChange token m s.guard s'.guard

namespace TokenCall

open Tip20

variable {env : Env} {self : Address} {s s' : TokenCtx} {u : Unit}
  {c : TokenCall} {m : Movement} {amount : Nat}

theorem Effect.of_outcome (h : Outcome env.spec self m s s')
    (hdebits : ∀ from' amount, m.Debits from' amount → c.Takes env self from')
    (hacts : m.ActsFor c) : c.Effect env self s s' m :=
  ⟨h.step, fun from' amount hm => .inl (hdebits from' amount hm), hacts,
    fun owner _ spender => h.allowances owner spender, h.guard⟩

/-- A call that leaves the ledger and the guard alone. -/
theorem Effect.idle (h : s'.token.toLedger = s.token.toLedger)
    (hguard : s'.guard = s.guard) (hall : ∀ owner, ¬c.Grants owner →
      s'.token.allowances owner = s.token.allowances owner) : c.Effect env self s s' .idle := by
  refine ⟨h ▸ .idle _, nofun, trivial, fun owner hgrant spender => ?_, hguard ▸ .kept⟩
  rw [hall owner hgrant]

/-- An ordinary transfer out of `from'` spends the sender's own funds or an
allowance. -/
theorem Effect.of_transfer {spender : Option Address} {from' to' : Address}
    {memo : B256} {ok : Bool} (h : Yields (do
      let target ← validateTransfer env self spender from' to' amount memo
      performTransfer env self from' amount target) s ok s')
    (hown : spender = none → c.Takes env self from') :
    ∃ m, c.Effect env self s s' m := by
  obtain ⟨hallow, hmove⟩ := performTransfer_yields h
  have hmoved : ∃ t, Outcome env.spec self (.transfer from' t amount) s s' := by
    rcases hmove with ⟨t, _, _, _, hout⟩ | ⟨_, hout⟩
    · exact ⟨t, hout⟩
    · exact ⟨_, hout⟩
  obtain ⟨t, hout⟩ := hmoved
  refine ⟨.transfer from' t amount, hout.step, ?_, trivial,
    fun owner _ spender => hout.allowances owner spender, hout.guard⟩
  rintro _ _ ⟨⟩
  cases spender with
  | none => exact .inl (hown rfl)
  | some p => exact .inr ⟨⟨t, rfl⟩, p, hallow p rfl⟩

theorem putAllowance_row {owner spender : Address} (h : owner ≠ self) :
    (s.putAllowance owner spender amount).token.allowances self = s.token.allowances self := by
  simp [TokenCtx.putAllowance, h.symm]

/-- Every successful call is one movement of the ledger, made on the authority
of the accounts it takes from. -/
theorem exec_effect (hself : self ≠ 0) (h : Yields (c.exec env self) s u s') :
    ∃ m, c.Effect env self s s' m := by
  cases c with
  | mint sender to' amount | mintWithMemo sender to' amount memo =>
    obtain ⟨t, _, hout⟩ := mintWithRole_yields h
    exact ⟨_, .of_outcome hout nofun trivial⟩
  | burn sender amount | burnWithMemo sender amount memo =>
    refine ⟨_, .of_outcome (innerBurn_yields h) ?_ trivial⟩
    rintro _ _ ⟨⟩
    exact rfl
  | burnBlocked sender owner amount check =>
    obtain ⟨from', hfrom, hout⟩ := burnBlocked_yields h
    refine ⟨_, .of_outcome hout ?_ trivial⟩
    rintro _ _ ⟨⟩
    cases check with
    | true | false => exact hfrom
  | burnAt sender from' amount =>
    obtain ⟨hfrom, hout⟩ := burnAt_yields h
    refine ⟨_, .of_outcome hout ?_ trivial⟩
    rintro _ _ ⟨⟩
    exact ⟨rfl, hfrom⟩
  | transfer sender to' amount | transferWithMemo sender to' amount memo =>
    obtain ⟨ok, htransfer⟩ := Yields.of_bind_pure h
    exact Effect.of_transfer htransfer fun _ => rfl
  | transferFrom sender from' to' amount
  | transferFromWithMemo sender from' to' amount memo =>
    obtain ⟨ok, htransfer⟩ := Yields.of_bind_pure h
    exact Effect.of_transfer htransfer nofun
  | systemTransferFrom caller from' amount =>
    obtain ⟨ok, htransfer⟩ := Yields.of_bind_pure h
    exact Effect.of_transfer (yields_require_bind.mp htransfer).2 fun _ => rfl
  | channelReserveTransfer from' to' amount sender =>
    refine ⟨_, .of_outcome (channelReserveTransfer_yields h) ?_ trivial⟩
    rintro _ _ ⟨⟩
    exact rfl
  | releaseBlockedFunds originator receiver to' amount mode auth =>
    obtain ⟨t, hout, -⟩ := releaseBlockedFunds_yields h
    refine ⟨_, .of_outcome hout ?_ trivial⟩
    rintro _ _ ⟨⟩
    exact rfl
  | transferFeePreTx from' amount =>
    refine ⟨_, .of_outcome (transferFeePreTx_yields h) ?_ trivial⟩
    rintro _ _ ⟨⟩
    exact rfl
  | transferFeePostTx to' refund actual =>
    change Yields (Tip20.transferFeePostTx env self to' refund actual) _ _ _ at h
    rcases transferFeePostTx_yields h with ⟨_, rfl⟩ | hout
    · exact ⟨_, .idle rfl rfl fun _ _ => rfl⟩
    · exact ⟨_, .of_outcome hout nofun trivial⟩
  | distributeReward sender amount =>
    rcases distributeReward_yields hself h with rfl | hout
    · exact ⟨_, .idle rfl rfl fun _ _ => rfl⟩
    · refine ⟨_, .of_outcome hout ?_ trivial⟩
      rintro _ _ ⟨⟩
      exact rfl
  | claimRewards sender =>
    obtain ⟨paid, hclaim⟩ := Yields.of_bind_pure h
    exact ⟨_, .of_outcome (claimRewards_yields hclaim).2 nofun rfl⟩
  | setRewardRecipient sender recipient =>
    rcases setRewardRecipient_yields h with rfl | hout
    · exact ⟨_, .idle rfl rfl fun _ _ => rfl⟩
    · exact ⟨_, .of_outcome hout nofun rfl⟩
  | setSupplyCap sender cap =>
    exact ⟨_, .of_outcome (setSupplyCap_yields h) nofun trivial⟩
  | approve sender spender amount =>
    obtain ⟨ok, happrove⟩ := Yields.of_bind_pure h
    simp only [Tip20.approve, getAllowance, setAllowance, yields_steps] at happrove
    obtain ⟨_, _, _, rfl⟩ := happrove
    exact ⟨_, .idle rfl rfl fun owner hgrant => putAllowance_row hgrant⟩
  | permit owner spender value deadline signature =>
    simp only [exec, Tip20.permit, setAllowance, yields_steps] at h
    obtain ⟨_, _, _, _, _, _, _, _, _, _, _, rfl⟩ := h
    exact ⟨_, .idle rfl rfl fun owner hgrant => putAllowance_row hgrant⟩
  | pause sender | unpause sender | renounceRole sender role =>
    have hwrite := h.skip (checkRole_readOnly _ _)
    obtain rfl := hwrite.updates
    exact ⟨_, .idle rfl rfl fun _ _ => rfl⟩
  | grantRole sender account role | revokeRole sender account role
  | setRoleAdmin sender role admin =>
    have hwrite := (yields_reads_bind.mp h).skip (checkRole_readOnly _ _)
    obtain rfl := hwrite.updates
    exact ⟨_, .idle rfl rfl fun _ _ => rfl⟩

variable {a : Address}

/-- An external call takes nothing from an account that is protected from
burns and is not the guard. -/
theorem External.not_takes (hext : c.External a) (hburn : ¬Burnable env self a)
    (hguard : a ≠ receivePolicyGuardAddress) : ¬c.Takes env self a := by
  intro htakes
  cases c with
  | burnBlocked sender owner amount check =>
    cases check with
    | true => exact hburn htakes.2
    | false => exact hguard htakes.symm
  | burnAt sender from' amount => exact hburn htakes.2
  | releaseBlockedFunds originator receiver to' amount mode auth =>
    exact hguard htakes.symm
  | burn | burnWithMemo | transfer | transferWithMemo | systemTransferFrom
  | channelReserveTransfer | transferFeePreTx | distributeReward =>
    exact hext htakes
  | _ => exact htakes

theorem External.not_grants (hext : c.External a) : ¬c.Grants a := by
  intro hgrants
  cases c with
  | approve | permit => exact hext hgrants
  | _ => exact hgrants

/-- An account that grants nothing is debited by a call that takes from it,
or not at all. -/
theorem Effect.debit_zero (h : c.Effect env self s s' m)
    (htakes : ¬c.Takes env self a) (hno : NoAllowance a s) (amount : Nat)
    (hdebit : m.Debits a amount) : (∃ to', m = .transfer a to' amount) ∧ amount = 0 := by
  rcases h.debits a amount hdebit with hown | ⟨htransfer, spender, hle⟩
  · exact absurd hown htakes
  · rw [hno spender] at hle
    exact ⟨htransfer, by omega⟩

theorem Effect.noAllowance (h : c.Effect env self s s' m)
    (hgrants : ¬c.Grants a) (hno : NoAllowance a s) : NoAllowance a s' := by
  intro spender
  have hle := h.allowances a hgrants spender
  rw [hno spender] at hle
  omega

theorem Effect.fair (h : c.Effect env self s s' m)
    (htakes : ¬c.Takes env self self) (hext : c.External self)
    (hno : NoAllowance self s) : m.Fair self := by
  have hdebit := h.debit_zero htakes hno
  cases m with
  | transfer from' to' amount =>
    rintro rfl
    exact (hdebit amount (.transfer _ _ _)).2
  | burn from' amount | feePre from' amount | distribute from' amount =>
    rintro rfl
    obtain ⟨⟨to', heq⟩, -⟩ := hdebit amount (by constructor)
    cases heq
  | claim holder amount | setRecipient holder recipient =>
    obtain rfl := h.acts
    exact hext
  | idle | mint | feePost | setSupplyCap => trivial

/-- Every successful call is one movement of the ledger. -/
theorem exec_moved (hself : self ≠ 0) (hguard : self ≠ receivePolicyGuardAddress)
    (h : Yields (c.exec env self) s u s') : c.Moved env self s s' := by
  obtain ⟨m, heffect⟩ := exec_effect hself h
  refine ⟨m, heffect.step, fun hext hspec hno => ?_⟩
  have hburn : ¬Burnable env self self := fun hb =>
    hb (.inr (.inl ⟨hspec, rfl⟩))
  exact ⟨heffect.fair (hext.not_takes hburn hguard) hext hno,
    heffect.noAllowance hext.not_grants hno⟩

end TokenCall

end Tempo
