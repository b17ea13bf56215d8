/-
The guard holds what it owes.  Receipts are not stored, only the amount of
each, so that a receipt is redeemed once rests on the nonce every new receipt
takes: no receipt from an earlier nonce is ever written to again, except to be
cleared by its redemption.
-/
import Tempo.Guard.Manager
import Tempo.Tip20.Holdings
import Tempo.Tip20.Supply

namespace Tempo

open TokenWorld Function Relation

open Tip20 (Burnable GuardChange)

/-- What the guard holds of a token. -/
def TokenWorld.guarded (w : TokenWorld) (token : Address) : Nat :=
  (w.tokens token).balances receivePolicyGuardAddress

/-- The unclaimed amounts of one token. -/
def ReceivePolicyGuard.unclaimed (g : ReceivePolicyGuard) (token : Address)
    (receipt : ClaimReceipt) : Nat :=
  if receipt.token = token then g.balances receipt else 0

namespace GuardCall

/-- The receipt is cleared, and exactly its amount leaves the guard, to
another account or out of existence. -/
structure Redeemed (env : Env) (w w' : TokenWorld) (receipt : ClaimReceipt) : Prop where
  nonzero : w.guard.balances receipt ≠ 0
  guard : w'.guard = ⟨w.guard.nonce, Function.update w.guard.balances receipt 0⟩
  moved : ∃ m, ((∃ to', m = .transfer receivePolicyGuardAddress to' (w.guard.balances receipt)) ∨
      m = .burn receivePolicyGuardAddress (w.guard.balances receipt)) ∧
    LedgerStep env.spec receipt.token m (w.tokens receipt.token).toLedger
      (w'.tokens receipt.token).toLedger
  other : ∀ token, token ≠ receipt.token → w'.tokens token = w.tokens token
  allowances : ∀ a b, (w'.tokens receipt.token).allowances a b ≤
    (w.tokens receipt.token).allowances a b

/-- The receipt is new, and the guard has received its amount. -/
structure Stored (w w' : TokenWorld) (receipt : ClaimReceipt) (amount : Nat) : Prop where
  nonce : receipt.blockedNonce = max w.guard.nonce 1
  guard : w'.guard = ⟨max w.guard.nonce 1 + 1, Function.update w.guard.balances receipt amount⟩
  received : w.guarded receipt.token + amount ≤ w'.guarded receipt.token

/-- What a call changes of the guard: nothing, a receipt is stored, or one is
redeemed. -/
inductive Change (env : Env) (c : GuardCall) (w w' : TokenWorld) : Prop
  | kept (hnone : c.redeems = none) (hguard : w'.guard = w.guard)
      (hheld : ∀ token, w.guarded token ≤ w'.guarded token)
  | stored (hnone : c.redeems = none) (receipt : ClaimReceipt) (amount : Nat)
      (hstored : Stored w w' receipt amount) (hheld : ∀ token, w.guarded token ≤ w'.guarded token)
  | redeemed (receipt : ClaimReceipt) (hsome : c.redeems = some receipt)
      (hredeemed : Redeemed env w w' receipt)

/-- The guard has granted no allowance. -/
def Silent (w : TokenWorld) : Prop :=
  ∀ token, NoAllowance receivePolicyGuardAddress (w.ctx token)

variable {env : Env} {w w' : TokenWorld} {self : Address} {c : TokenCall}

theorem guard_not_burnable (hspec : .t6 ≤ env.spec) (self : Address) :
    ¬Burnable env self receivePolicyGuardAddress := by
  intro h
  refine h (.inl ⟨(.t6, [receivePolicyGuardAddress]), ?_, hspec, .head _⟩)
  simp [protectedAddresses]

/-- A call on a token by others never takes from the guard. -/
theorem token_not_takes (hspec : .t6 ≤ env.spec) (hext : (token self c).External) :
    ¬c.Takes env self receivePolicyGuardAddress := by
  obtain ⟨-, hsender, hentry⟩ := hext
  intro htakes
  cases c with
  | burnBlocked sender owner amount check =>
    subst hentry
    exact guard_not_burnable hspec self htakes.2
  | burnAt sender from' amount => exact guard_not_burnable hspec self htakes.2
  | releaseBlockedFunds => exact hentry
  | burn | burnWithMemo | transfer | transferWithMemo | systemTransferFrom
  | channelReserveTransfer | transferFeePreTx | distributeReward =>
    exact hsender htakes
  | _ => exact htakes

theorem token_change (hspec : .t6 ≤ env.spec) (hext : (token self c).External)
    (hsilent : Silent w) (h : Yields ((token self c).exec env) w () w') :
    Change env (token self c) w w' ∧ Silent w' := by
  have htip := hext.1
  have htakes := token_not_takes hspec hext
  obtain ⟨hheld, hquiet⟩ := TokenCall.exec_held htip (by decide) (by decide) htakes
    hext.2.1.not_grants hsilent h
  obtain ⟨s, hrun, rfl⟩ := yields_onToken.mp h
  obtain ⟨m, heffect⟩ := TokenCall.exec_effect (Address.ne_of_isTip20 htip (by decide)) hrun
  refine ⟨?_, hquiet⟩
  have hguard := heffect.guard
  generalize hg : s.guard = g at hguard
  cases hguard with
  | kept => exact .kept rfl hg hheld
  | stored receipt amount htoken hnonce hcredit =>
    subst htoken
    refine .stored rfl receipt amount ⟨hnonce, hg, ?_⟩ hheld
    unfold guarded TokenWorld.putCtx
    dsimp only
    rw [update_self]
    exact heffect.step.credited hcredit fun amount hm =>
      (heffect.debit_zero htakes (hsilent _) amount hm).2

variable {c : GuardCall} {receipt : Option ClaimReceipt} {r : ClaimReceipt}

theorem resolveReceipt_yields {receiver : Address} {mode : RecoveryMode}
    (h : Yields (ReceivePolicyGuard.resolveReceipt env receipt) w (r, receiver, mode) w') :
    w' = w ∧ receipt = some r ∧ mode = .ofReceipt r receiver := by
  obtain ⟨decoded, rfl, hrest⟩ := yields_orFail_bind.mp h
  obtain ⟨resolved, -, hdone⟩ := ReadOnly.yields_bind
    (((Tip20.resolveRecipient_readOnly env decoded.recipient).onToken).failsWith _) hrest
  obtain ⟨heq, rfl⟩ := hdone.pure
  cases heq
  exact ⟨rfl, rfl, rfl⟩

theorem authority_ofReceipt (r : ClaimReceipt) (receiver : Address) :
    (RecoveryMode.ofReceipt r receiver).authority r =
      if r.recoveryAuthority = 0 then r.originator
      else r.recoveryAuthority := by
  unfold RecoveryMode.ofReceipt
  split
  · rfl
  · split <;> rfl

/-- A successful claim redeems its receipt and was made by the account the
receipt names, or by the originator if it names none. -/
theorem claim_redeemed {msgSender to' : Address}
    (h : Yields (ReceivePolicyGuard.claim env msgSender to' receipt) w () w') :
    ∃ r, receipt = some r ∧ Redeemed env w w' r ∧
      msgSender = if r.recoveryAuthority = 0 then r.originator
        else r.recoveryAuthority := by
  obtain ⟨-, hclaim⟩ := yields_require_bind.mp h
  obtain ⟨⟨r, receiver, mode⟩, w1, hresolve, hrest⟩ := hclaim.bind
  obtain ⟨rfl, hreceipt, rfl⟩ := resolveReceipt_yields hresolve
  simp only [yields_steps, ReceivePolicyGuard.setBalance, Tip20.fromAddress] at hrest
  obtain ⟨hauth, hnonzero, -, hrelease⟩ := hrest
  obtain ⟨s, hs, rfl⟩ := yields_onToken.mp hrelease
  obtain ⟨t, hout, hguard⟩ := Tip20.releaseBlockedFunds_yields hs
  refine ⟨r, hreceipt, ⟨hnonzero, hguard, ⟨_, .inl ⟨t, rfl⟩, ?_⟩, ?_, ?_⟩, ?_⟩
  · simp only [putCtx, update_self]
    exact hout.step
  · intro token hne
    simp [putCtx, update_of_ne hne]
  · simp only [putCtx, update_self]
    exact hout.allowances
  · rw [← hauth, authority_ofReceipt]

theorem burnBlockedReceipt_redeemed {msgSender : Address}
    (h : Yields (ReceivePolicyGuard.burnBlockedReceipt env msgSender receipt) w () w') :
    ∃ r, receipt = some r ∧ Redeemed env w w' r := by
  obtain ⟨⟨r, receiver, mode⟩, w1, hresolve, hrest⟩ := h.bind
  obtain ⟨rfl, hreceipt, rfl⟩ := resolveReceipt_yields hresolve
  simp only [yields_steps, Tip20.fromAddress] at hrest
  obtain ⟨hnonzero, -, hburn⟩ := hrest
  obtain ⟨⟨⟩, w2, hcall, hclear⟩ := hburn.bind
  obtain ⟨s, hs, rfl⟩ := yields_onToken.mp hcall
  obtain ⟨from', hfrom, hout⟩ := Tip20.burnBlocked_yields hs
  obtain rfl : receivePolicyGuardAddress = from' := hfrom
  have hkept : s.guard = w1.guard := by
    have hguard := hout.guard
    generalize s.guard = g at hguard
    cases hguard with
    | kept => rfl
    | stored receipt amount htoken hnonce hcredit => cases hcredit
  rw [ReceivePolicyGuard.setBalance, yields_updates] at hclear
  rw [← hclear]
  refine ⟨r, hreceipt, hnonzero, ?_, ⟨_, .inr rfl, ?_⟩, ?_, ?_⟩
  · simp [putCtx, hkept]
  · simp only [putCtx, update_self]
    exact hout.step
  · intro token hne
    simp [putCtx, update_of_ne hne]
  · simp only [putCtx, update_self]
    exact hout.allowances

theorem Redeemed.silent (h : Redeemed env w w' r) (hsilent : Silent w) : Silent w' := by
  intro token spender
  change (w'.tokens token).allowances receivePolicyGuardAddress spender = 0
  have hold : (w.tokens token).allowances receivePolicyGuardAddress spender =
      0 := hsilent token spender
  by_cases heq : token = r.token
  · subst heq
    have hle := h.allowances receivePolicyGuardAddress spender
    omega
  · rw [h.other token heq]
    exact hold

/-- Every call changes the guard in one of the three ways. -/
theorem exec_change (hspec : .t6 ≤ env.spec) (hext : c.External) (hsilent : Silent w)
    (h : Yields (c.exec env) w () w') : Change env c w w' ∧ Silent w' := by
  cases c with
  | token self c => exact token_change hspec hext hsilent h
  | claim msgSender to' receipt =>
    obtain ⟨r, rfl, hredeemed, -⟩ := claim_redeemed h
    exact ⟨.redeemed r rfl hredeemed, hredeemed.silent hsilent⟩
  | burnBlockedReceipt msgSender receipt =>
    obtain ⟨r, rfl, hredeemed⟩ := burnBlockedReceipt_redeemed h
    exact ⟨.redeemed r rfl hredeemed, hredeemed.silent hsilent⟩

/-! Runs. -/

/-- The guard holds what it owes, and no receipt with a nonce still to come
has an amount. -/
structure Covered (w : TokenWorld) : Prop where
  covers : ∀ token, TotalLE (w.guard.unclaimed token) (w.guarded token)
  fresh : ∀ r, max w.guard.nonce 1 ≤ r.blockedNonce → w.guard.balances r = 0
  silent : Silent w

theorem unclaimed_update (g : ReceivePolicyGuard) (n : Nat)
    (r : ClaimReceipt) (amount : Nat) (token : Address) :
    (⟨n, update g.balances r amount⟩ :
        ReceivePolicyGuard).unclaimed token = update (g.unclaimed token) r
        (if r.token = token then amount else 0) := by
  funext other
  unfold ReceivePolicyGuard.unclaimed
  by_cases heq : other = r
  · subst heq
    simp
  · simp [update_of_ne heq]

theorem Covered.step (h : Covered w) (hspec : .t6 ≤ env.spec)
    (hext : c.External) (hrun : Yields (c.exec env) w () w') : Covered w' := by
  obtain ⟨hchange, hsilent⟩ := exec_change hspec hext h.silent hrun
  cases hchange with
  | kept hnone hguard hheld =>
    refine ⟨fun token => ?_, ?_, hsilent⟩
    · rw [hguard]
      exact (h.covers token).mono (hheld token)
    · rw [hguard]
      exact h.fresh
  | stored hnone receipt amount hstored hheld =>
    have hzero := h.fresh receipt (le_of_eq hstored.nonce.symm)
    refine ⟨fun token => ?_, fun r hr => ?_, hsilent⟩
    · rw [hstored.guard, unclaimed_update]
      refine (h.covers token).update ?_
      have hheld := hheld token
      by_cases htoken : receipt.token = token
      · subst htoken
        have hreceived := hstored.received
        rw [if_pos rfl]
        omega
      · rw [if_neg htoken]
        omega
    · rw [hstored.guard] at hr ⊢
      have hne : r ≠ receipt := by
        rintro rfl
        have hnonce := hstored.nonce
        dsimp only at hr
        omega
      dsimp only at hr ⊢
      rw [update_of_ne hne]
      exact h.fresh r (by omega)
  | redeemed receipt hsome hredeemed =>
    refine ⟨fun token => ?_, fun r hr => ?_, hsilent⟩
    · rw [hredeemed.guard, unclaimed_update, ite_self]
      refine (h.covers token).update ?_
      unfold ReceivePolicyGuard.unclaimed
      by_cases htoken : receipt.token = token
      · subst htoken
        obtain ⟨m, hm, hstep⟩ := hredeemed.moved
        have hle := hstep.balance_le_add hm
        rw [if_pos rfl]
        exact hle
      · rw [if_neg htoken]
        unfold guarded
        rw [hredeemed.other token (Ne.symm htoken)]
    · rw [hredeemed.guard] at hr ⊢
      dsimp only at hr ⊢
      by_cases heq : r = receipt
      · rw [heq, update_self]
      · rw [update_of_ne heq]
        exact h.fresh r hr

theorem run_covered (h : Covered w) (hrun : ReflTransGen Step w w') : Covered w' :=
  run_invariant (I := Covered) (fun _ _ hw ⟨_, _, hspec, hext, hyields⟩ =>
      hw.step hspec hext hyields) hrun h

/-- A receipt whose nonce was taken is never stored again, so what it has can
only be cleared. -/
theorem run_receipt (h : Covered w) (hold : r.blockedNonce < max w.guard.nonce 1)
    (hrun : ReflTransGen Step w w') :
    r.blockedNonce < max w'.guard.nonce 1 ∧ (w'.guard.balances r = w.guard.balances r ∨
        w'.guard.balances r = 0) := by
  induction hrun with
  | refl => exact ⟨hold, .inl rfl⟩
  | tail hpath hlast ih =>
    obtain ⟨env, c, hspec, hext, hyields⟩ := hlast
    obtain ⟨hnonce, hbalance⟩ := ih
    have hcovered := run_covered h hpath
    obtain ⟨hchange, -⟩ := exec_change hspec hext hcovered.silent hyields
    cases hchange with
    | kept hnone hguard hheld =>
      rw [hguard]
      exact ⟨hnonce, hbalance⟩
    | stored hnone receipt amount hstored hheld =>
      have hne : r ≠ receipt := by
        rintro rfl
        have := hstored.nonce
        omega
      rw [hstored.guard]
      dsimp only
      rw [update_of_ne hne]
      exact ⟨by omega, hbalance⟩
    | redeemed receipt hsome hredeemed =>
      rw [hredeemed.guard]
      refine ⟨hnonce, ?_⟩
      dsimp only
      by_cases heq : r = receipt
      · right
        rw [heq, update_self]
      · rw [update_of_ne heq]
        exact hbalance

theorem redeems_nonzero (hsome : c.redeems = some r) (h : Yields (c.exec env) w () w') :
    Redeemed env w w' r := by
  cases c with
  | token => cases hsome
  | claim msgSender to' receipt =>
    obtain ⟨r', rfl, hredeemed, -⟩ := claim_redeemed h
    cases hsome
    exact hredeemed
  | burnBlockedReceipt msgSender receipt =>
    obtain ⟨r', rfl, hredeemed⟩ := burnBlockedReceipt_redeemed h
    cases hsome
    exact hredeemed

/-- A receipt is redeemed for the amount it was stored with, and then never
again. -/
theorem Stored.redeemed_once {a : Nat} {w1 w2 : TokenWorld}
    (hcovered : Covered w') (h : Stored w w' r a) (hspec : .t6 ≤ env.spec)
    (hext : c.External) (hrun : ReflTransGen Step w' w1)
    (hsome : c.redeems = some r) (hredeem : Yields (c.exec env) w1 () w2) :
    w1.guard.balances r = a ∧ Redeemed env w1 w2 r ∧ ∀ w3, ReflTransGen Step w2 w3 → ∀ env3 c3 w4,
        redeems c3 = some r → ¬Yields (c3.exec env3) w3 () w4 := by
  have hold : r.blockedNonce < max w'.guard.nonce 1 := by
    rw [h.guard, h.nonce]
    dsimp only
    omega
  have hamount : w'.guard.balances r = a := by
    rw [h.guard]
    exact update_self ..
  have hredeemed := redeems_nonzero hsome hredeem
  obtain ⟨hold1, hbalance⟩ := run_receipt hcovered hold hrun
  refine ⟨?_, hredeemed, fun w3 hrun3 env3 c3 w4 hsome3 hagain => ?_⟩
  · rcases hbalance with hsame | hzero
    · exact hsame.trans hamount
    · exact absurd hzero hredeemed.nonzero
  · have hcovered2 := (run_covered hcovered hrun).step hspec hext hredeem
    have hcleared : w2.guard.balances r = 0 := by
      rw [hredeemed.guard]
      exact update_self ..
    have hold2 : r.blockedNonce < max w2.guard.nonce 1 := by
      rw [hredeemed.guard]
      exact hold1
    obtain ⟨-, hlast⟩ := run_receipt hcovered2 hold2 hrun3
    rw [hcleared, or_self] at hlast
    exact (redeems_nonzero hsome3 hagain).nonzero hlast

/-- Over any run from a state without receipts: the guard holds the sum of
what is unclaimed of every token; its records change only when a receipt is
stored for funds received or redeemed for its amount; a receipt that is stored
is redeemed at most once and for the amount it was stored with; and a claim is
made by the recovery authority, or the originator where there is none. -/
theorem receipts_custodied {w₀ w : TokenWorld}
    (hempty : ∀ r, w₀.guard.balances r = 0) (hsilent : Silent w₀) (hrun : ReflTransGen Step w₀ w) :
    (∀ token, TotalLE (w.guard.unclaimed token) (w.guarded token)) ∧
    (∀ env c w', .t6 ≤ env.spec → External c → Yields (c.exec env) w () w' → Change env c w w' ∧
      ∀ r a, Stored w w' r a → ∀ w₁, ReflTransGen Step w' w₁ →
        ∀ env₁ c₁ w₂, .t6 ≤ env₁.spec → External c₁ → c₁.redeems = some r →
          Yields (c₁.exec env₁) w₁ () w₂ → w₁.guard.balances r = a ∧ Redeemed env₁ w₁ w₂ r ∧
            ∀ w₃, ReflTransGen Step w₂ w₃ → ∀ env₃ c₃ w₄,
              redeems c₃ = some r → ¬Yields (c₃.exec env₃) w₃ () w₄) ∧
    ∀ env msgSender to' receipt w',
      Yields (ReceivePolicyGuard.claim env msgSender to' receipt) w () w' →
      ∃ r, receipt = some r ∧ Redeemed env w w' r ∧
        msgSender = if r.recoveryAuthority = 0 then r.originator
          else r.recoveryAuthority := by
  have hstart : Covered w₀ := by
    refine ⟨fun token s => ?_, fun r _ => hempty r, hsilent⟩
    simp [ReceivePolicyGuard.unclaimed, hempty]
  have hcovered := run_covered hstart hrun
  refine ⟨hcovered.covers, fun env c w' hspec hext hcall => ⟨?_, ?_⟩,
    fun env msgSender to' receipt w' hclaim => claim_redeemed hclaim⟩
  · exact (exec_change hspec hext hcovered.silent hcall).1
  · intro r a hstored w₁ hrun₁ env₁ c₁ w₂ hspec₁ hext₁ hsome hredeem
    exact hstored.redeemed_once (hcovered.step hspec hext hcall) hspec₁ hext₁ hrun₁ hsome hredeem

/-- A blocked transfer is claimed back by its originator, who cannot claim it
again. -/
theorem receipts_custodied_returned :
    let token : Address := ⟨0x20c0000000000000000000000000000000000001#160⟩
    let holder : Address := ⟨1⟩
    let receiver : Address := ⟨2⟩
    let w₀ : TokenWorld := { TokenWorld.empty with
      tokens := update (fun _ => Token.blank) token (Token.endowed 0 holder 100) }
    let env : Env := { Env.permissive .t6 with
      checkReceivePolicy _ _ to' :=
        .ok (if to' = receiver then some (.receivePolicy, 0) else none) }
    let r : ClaimReceipt :=
      { version := 1, token := token, recoveryAuthority := 0
        originator := holder, recipient := receiver, blockedAt := 0
        blockedNonce := 1, blockedReason := .receivePolicy, kind := .transfer
        memo := 0 }
    let w₁ := finalState ((GuardCall.token token (.transfer holder receiver 60)).exec env) w₀
    let w₂ := finalState ((GuardCall.claim holder holder (some r)).exec env) w₁
    w₁.guard.balances r = 60 ∧ w₁.guarded token = 60 ∧
      w₂.guarded token = 0 ∧ (w₂.tokens token).balances holder = 100 ∧
      ∀ w₃, ReflTransGen Step w₂ w₃ → ∀ env₃ c₃ w₄,
        redeems c₃ = some r → ¬Yields (c₃.exec env₃) w₃ () w₄ := by
  intro token holder receiver w₀ env r w₁ w₂
  have hvalues : w₁.guard.nonce = 2 ∧ w₁.guard.balances r = 60 ∧
      w₁.guarded token = 60 ∧ w₂.guarded token = 0 ∧ (w₂.tokens token).balances holder = 100 := by
    decide +kernel
  obtain ⟨hnonce, hbalance, hheld, hpaid, hback⟩ := hvalues
  have hsilent : Silent w₀ :=
    @TokenWorld.Silent.putCtx .empty _ token ⟨.endowed 0 holder 100, ⟨0, fun _ => 0⟩⟩
      (fun _ _ => rfl) fun _ => rfl
  have hall := receipts_custodied (fun _ => rfl) hsilent .refl
  obtain ⟨hchange, honce⟩ := hall.2.1 env (.token token (.transfer holder receiver 60)) w₁
    (by decide)
    ⟨by decide, show holder ≠ receivePolicyGuardAddress by decide, trivial⟩
    (yields_finalState (by decide +kernel))
  have hstored : Stored w₀ w₁ r 60 := by
    cases hchange with
    | kept hnone hguard hheld' =>
      rw [hguard] at hnonce
      cases hnonce
    | stored hnone receipt amount hstored hheld' =>
      rw [hstored.guard] at hbalance
      by_cases heq : r = receipt
      · subst heq
        dsimp only at hbalance
        exact hbalance ▸ hstored
      · dsimp only at hbalance
        rw [update_of_ne heq] at hbalance
        cases hbalance
    | redeemed receipt hsome hredeemed => cases hsome
  have hlast := honce r 60 hstored w₁ .refl env
    (.claim holder holder (some r)) w₂ (by decide) trivial rfl
    (yields_finalState (by decide +kernel))
  exact ⟨hbalance, hheld, hpaid, hback, hlast.2.2⟩

end GuardCall

end Tempo
