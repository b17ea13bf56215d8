/-
What each TIP-20 operation does to the ledger.  `LedgerStep` is the ledger
seen on its own, with one rule per kind of movement; every operation of the
token is a single step of it, and every invariant of the accounts is proved
over its rules.
-/
import Tempo.Tip20.Operations

namespace Tempo

open TokenCtx Ledger Function

variable {self : Address} {amount : Nat}

/-- The movements of the ledger. -/
inductive Movement where
  | idle
  | transfer (from' to' : Address) (amount : Nat)
  | mint (to' : Address) (amount : Nat)
  | burn (from' : Address) (amount : Nat)
  | feePre (from' : Address) (amount : Nat)
  | feePost (to' : Address) (amount : Nat)
  | setSupplyCap (cap : Nat)
  | distribute (from' : Address) (amount : Nat)
  | setRecipient (holder recipient : Address)
  | claim (holder : Address) (amount : Nat)

/-- The movement brings an account an amount from elsewhere. -/
inductive Movement.Credits : Movement → Address → Nat → Prop
  | transfer (from' to' : Address) (amount : Nat) :
      Credits (.transfer from' to' amount) to' amount
  | mint (to' : Address) (amount : Nat) : Credits (.mint to' amount) to' amount

namespace Ledger

/-- Balances after `amount` has gone from one account to another; what is
sent to the zero address is gone. -/
def movedBalances (l : Ledger) (from' to' : Address) (amount : Nat) : Address → Nat :=
  if to' = 0 then debit l.balances from' amount
  else credit (debit l.balances from' amount) to' amount

/-- What a claim pays out: the settled reward balance, capped by what the
token contract `self` holds. -/
def claimable (spec : TempoHardfork) (self : Address) (l : Ledger) (holder : Address) : Nat :=
  min ((l.hook spec holder).userRewardInfo holder).rewardBalance (l.balances self)

end Ledger

open Tip20 (OptedShift)

/-- One movement of the ledger of token `self` under fork `spec`. -/
inductive LedgerStep (spec : TempoHardfork) (self : Address) : Movement → Ledger → Ledger → Prop
  | idle (l : Ledger) : LedgerStep spec self .idle l l
  | transfer (l : Ledger) (from' to' : Address) (amount opted : Nat)
      (funds : amount ≤ l.balances from') (target : to' ≠ 0)
      (shift : OptedShift l.optedInSupply opted amount
        (l.delegate spec from' ≠ 0) (l.delegate spec to' ≠ 0)) :
      LedgerStep spec self (.transfer from' to' amount) l
        { (l.hook spec from').hook spec to' with
          optedInSupply := opted
          balances := l.movedBalances from' to' amount }
  | mint (l : Ledger) (to' : Address) (amount opted : Nat)
      (cap : l.totalSupply + amount ≤ l.supplyCap)
      (shift : OptedShift l.optedInSupply opted amount False (l.delegate spec to' ≠ 0)) :
      LedgerStep spec self (.mint to' amount) l
        { l.hook spec to' with
          optedInSupply := opted
          totalSupply := l.totalSupply + amount
          balances := credit l.balances to' amount }
  | burn (l : Ledger) (from' : Address) (amount opted : Nat)
      (funds : amount ≤ l.balances from') (supply : amount ≤ l.totalSupply)
      (shift : OptedShift l.optedInSupply opted amount
        (l.delegate spec from' ≠ 0) (l.delegate spec 0 ≠ 0)) :
      LedgerStep spec self (.burn from' amount) l
        { (l.hook spec from').hook spec 0 with
          optedInSupply := opted
          totalSupply := l.totalSupply - amount
          balances := l.movedBalances from' 0 amount }
  | feePre (l : Ledger) (from' : Address) (amount opted : Nat) (funds : amount ≤ l.balances from')
      (shift : OptedShift l.optedInSupply opted amount (l.delegate spec from' ≠ 0) False) :
      LedgerStep spec self (.feePre from' amount) l
        { l.hook spec from' with
          optedInSupply := opted
          balances := credit (debit l.balances from' amount) tipFeeManagerAddress amount }
  | feePost (l : Ledger) (to' : Address) (amount opted : Nat)
      (funds : amount ≤ l.balances tipFeeManagerAddress)
      (shift : OptedShift l.optedInSupply opted amount False (l.delegate spec to' ≠ 0)) :
      LedgerStep spec self (.feePost to' amount) l
        { l.hook spec to' with
          optedInSupply := opted
          balances := credit (debit l.balances tipFeeManagerAddress amount) to' amount }
  | setSupplyCap (l : Ledger) (cap : Nat) (supply : l.totalSupply ≤ cap)
      (word : cap ≤ maxWord 128) :
      LedgerStep spec self (.setSupplyCap cap) l { l with supplyCap := cap }
  | distribute (l l' : Ledger) (from' : Address) (amount : Nat)
      (moved : LedgerStep spec self (.transfer from' self amount) l l')
      (opted : l'.optedInSupply ≠ 0) :
      LedgerStep spec self (.distribute from' amount) l
        { l' with globalRewardPerToken := l'.globalRewardPerToken +
            amount * accPrecision / l'.optedInSupply }
  | setRecipient (l : Ledger) (holder recipient : Address) (opted : Nat)
      (shift : OptedShift l.optedInSupply opted (l.balances holder)
        (l.delegate spec holder ≠ 0) (recipient ≠ 0)) :
      LedgerStep spec self (.setRecipient holder recipient) l
        { l.hook spec holder with
          optedInSupply := opted
          userRewardInfo := update (l.hook spec holder).userRewardInfo holder
            { (l.hook spec holder).userRewardInfo holder with
              rewardRecipient := recipient } }
  | claim (l : Ledger) (holder : Address) (opted : Nat) (shift : OptedShift l.optedInSupply opted
        (l.claimable spec self holder) False (l.delegate spec holder ≠ 0)) :
      LedgerStep spec self (.claim holder (l.claimable spec self holder)) l
        { l.hook spec holder with
          optedInSupply := opted
          userRewardInfo := update (l.hook spec holder).userRewardInfo holder
            { (l.hook spec holder).userRewardInfo holder with
              rewardBalance := ((l.hook spec holder).userRewardInfo holder).rewardBalance -
                  l.claimable spec self holder }
          balances := credit (debit l.balances self (l.claimable spec self holder)) holder
            (l.claimable spec self holder) }

namespace LedgerStep

variable {spec : TempoHardfork} {l l' : Ledger}

theorem transfer_balances {from' to' : Address}
    (h : LedgerStep spec self (.transfer from' to' amount) l l') :
    amount ≤ l.balances from' ∧
      l'.balances = credit (debit l.balances from' amount) to' amount := by
  cases h with
  | transfer _ _ _ _ _ hfunds hto _ =>
    exact ⟨hfunds, by simp [movedBalances, hto]⟩

theorem feePre_balances {from' : Address} (h : LedgerStep spec self (.feePre from' amount) l l') :
    amount ≤ l.balances from' ∧ l'.balances = credit (debit l.balances from' amount)
        tipFeeManagerAddress amount := by
  cases h with
  | feePre _ _ _ _ hfunds _ => exact ⟨hfunds, rfl⟩

theorem feePost_balances {to' : Address} (h : LedgerStep spec self (.feePost to' amount) l l') :
    l'.balances = credit (debit l.balances tipFeeManagerAddress amount) to'
      amount := by
  cases h with
  | feePost _ _ _ _ _ _ => rfl

end LedgerStep

namespace Tip20

variable {env : Env} {s s' : TokenCtx} {u : Unit}
  {from' originator msgSender : Address} {to' : Recipient} {memo : B256}
  {account recovery : Address} {reason : BlockedReason}
  {kind : InboundKind} {blocked : Bool} {spender : Option Address} {s₁ : TokenCtx} {r : Recipient}

theorem incrementBalance_yields (h : Yields (incrementBalance account amount) s u s') :
    s' = s.putLedger { s.token.toLedger with
      balances := credit s.token.balances account amount } := by
  simp only [incrementBalance, getBalance, setBalance, yields_steps, checkedAdd_eq_some] at h
  obtain ⟨_, ⟨_, rfl⟩, rfl⟩ := h
  rfl

theorem decrementBalance_yields (h : Yields (decrementBalance self account amount) s u s') :
    amount ≤ s.token.balances account ∧ s' = s.putLedger { s.token.toLedger with
      balances := debit s.token.balances account amount } := by
  simp only [decrementBalance, getBalance, setBalance, yields_steps, checkedSub_eq_some] at h
  obtain ⟨_, ⟨hle, rfl⟩, rfl⟩ := h
  exact ⟨hle, rfl⟩

/-- Both fork ranges debit the balance that was there before the reward hook,
which does not touch balances. -/
theorem innerTransfer_yields (h : Yields (innerTransfer env self from' to' amount) s u s') :
    amount ≤ s.token.balances from' ∧ ∃ opted, OptedShift s.token.optedInSupply opted amount
        (s.token.delegate env.spec from' ≠ 0) (s.token.delegate env.spec to'.target ≠ 0) ∧
      s' = s.putLedger
        { (s.token.hook env.spec from').hook env.spec to'.target with
          optedInSupply := opted
          balances := s.token.movedBalances from' to'.target amount } := by
  have hdebit : ∃ s₁, (amount ≤ s.token.balances from' ∧ ∃ opted,
      OptedShift s.token.optedInSupply opted amount (s.token.delegate env.spec from' ≠ 0)
        (s.token.delegate env.spec to'.target ≠ 0) ∧ s₁ = s.putLedger
        { (s.token.hook env.spec from').hook env.spec to'.target with
          optedInSupply := opted
          balances := debit s.token.balances from' amount }) ∧
      Yields (if to'.target ≠ 0 then incrementBalance to'.target amount else pure ()) s₁ u s' := by
    unfold innerTransfer at h
    by_cases hspec : .t8 ≤ env.spec
    · rw [if_pos hspec] at h
      obtain ⟨_, s₁, hhook, h⟩ := h.bind
      obtain ⟨_, s2, hdec, h⟩ := h.bind
      obtain ⟨opted, rfl, hshift⟩ := handleRewardsOnTransfer_yields hhook
      obtain ⟨hle, rfl⟩ := decrementBalance_yields hdec
      simp only [putLedger_toLedger, hook_balances] at hle h
      exact ⟨_, ⟨hle, opted, hshift, rfl⟩, h⟩
    · simp only [if_neg hspec, getBalance, setBalance, yields_steps] at h
      obtain ⟨hle, h⟩ := h
      obtain ⟨_, s₁, hhook, h⟩ := h.bind
      obtain ⟨opted, rfl, hshift⟩ := handleRewardsOnTransfer_yields hhook
      simp only [yields_steps, checkedSub_eq_some] at h
      obtain ⟨_, ⟨_, rfl⟩, h⟩ := h
      simp only [putBalance, putLedger_toLedger, hook_balances] at h
      exact ⟨_, ⟨hle, opted, hshift, rfl⟩, h⟩
  obtain ⟨s₁, ⟨hle, opted, hshift, rfl⟩, h⟩ := hdebit
  refine ⟨hle, opted, hshift, ?_⟩
  unfold movedBalances
  by_cases hto : to'.target = 0
  · rw [if_neg (not_not.mpr hto), yields_pure] at h
    rw [if_pos hto]
    exact h.2.symm
  · rw [if_pos hto] at h
    rw [if_neg hto]
    exact incrementBalance_yields h

/-- The guard is left alone, or the movement brings it an amount for which a
receipt with the next nonce is stored. -/
inductive GuardChange (token : Address) (m : Movement)
    (g : ReceivePolicyGuard) : ReceivePolicyGuard → Prop
  | kept : GuardChange token m g g
  | stored (receipt : ClaimReceipt) (amount : Nat) (htoken : receipt.token = token)
      (hnonce : receipt.blockedNonce = max g.nonce 1)
      (hcredit : m.Credits receivePolicyGuardAddress amount) :
      GuardChange token m g ⟨max g.nonce 1 + 1, update g.balances receipt amount⟩

/-- What a successful operation leaves behind: one movement of the ledger,
no allowance larger than before, and at most one receipt with the guard. -/
structure Outcome (spec : TempoHardfork) (token : Address) (m : Movement)
    (s s' : TokenCtx) : Prop where
  step : LedgerStep spec token m s.token.toLedger s'.token.toLedger
  allowances : ∀ a b, s'.token.allowances a b ≤ s.token.allowances a b
  guard : GuardChange token m s.guard s'.guard

theorem innerTransfer_outcome (hto : to'.target ≠ 0)
    (h : Yields (innerTransfer env self from' to' amount) s u s') :
    Outcome env.spec self (.transfer from' to'.target amount) s s' := by
  obtain ⟨hle, opted, hshift, rfl⟩ := innerTransfer_yields h
  exact ⟨.transfer _ _ _ _ _ hle hto hshift, fun _ _ => le_rfl, .kept⟩

theorem innerTransfer_guard (h : Yields (innerTransfer env self from' to' amount) s u s') :
    s'.guard = s.guard := by
  obtain ⟨-, opted, -, rfl⟩ := innerTransfer_yields h
  rfl

/-- Every burn entry point ends with these two calls. -/
theorem innerTransfer_burn_outcome (h : Yields (do
      innerTransfer env self from' (.direct 0) amount
      reduceTotalSupply self amount) s u s') :
    Outcome env.spec self (.burn from' amount) s s' := by
  obtain ⟨_, s₁, htransfer, h⟩ := h.bind
  obtain ⟨hle, opted, hshift, rfl⟩ := innerTransfer_yields htransfer
  simp only [reduceTotalSupply, totalSupply, setTotalSupply, yields_steps, checkedSub_eq_some,
    putLedger_toLedger, hook_totalSupply] at h
  obtain ⟨_, ⟨hsupply, rfl⟩, rfl⟩ := h
  exact ⟨.burn _ _ _ _ hle hsupply hshift, fun _ _ => le_rfl, .kept⟩

theorem innerMint_outcome (h : Yields (innerMint env to' s.token.totalSupply amount) s u s') :
    Outcome env.spec self (.mint to'.target amount) s s' ∧ s'.guard = s.guard := by
  simp only [innerMint, yields_steps, checkedAdd_eq_some] at h
  obtain ⟨_, ⟨_, rfl⟩, hcap, h⟩ := h
  obtain ⟨_, s₁, hhook, h⟩ := h.bind
  obtain ⟨opted, rfl, hshift⟩ := handleRewardsOnMint_yields hhook
  obtain rfl := incrementBalance_yields h
  refine ⟨⟨?_, fun _ _ => le_rfl, .kept⟩, rfl⟩
  have hstep := @LedgerStep.mint env.spec self s.token.toLedger to'.target amount opted hcap hshift
  simpa [putTotalSupply] using hstep

theorem storeBlocked_yields (h : Yields (storeBlocked env self originator to' recovery amount reason
      kind memo) s u s') :
    s'.token = s.token ∧ ∃ receipt : ClaimReceipt, receipt.token = self ∧
      receipt.blockedNonce = max s.guard.nonce 1 ∧ s'.guard = ⟨max s.guard.nonce 1 + 1,
        update s.guard.balances receipt amount⟩ := by
  simp only [storeBlocked, nextReceiptNonce, yields_require_bind] at h
  obtain ⟨_, h⟩ := h
  obtain ⟨_, s₁, hnonce, h⟩ := h.bind
  simp only [yields_steps, checkedAdd_eq_some] at hnonce
  obtain ⟨_, ⟨_, rfl⟩, rfl, rfl⟩ := hnonce
  rw [yields_updates] at h
  rw [← h]
  exact ⟨rfl, _, rfl, rfl, rfl⟩

/-- Funds moved to the guard and the receipt for them. -/
theorem Outcome.store {m : Movement}
    (h : Outcome env.spec self m s s₁) (hguard : s₁.guard = s.guard)
    (hcredit : m.Credits receivePolicyGuardAddress amount)
    (hstore : Yields (storeBlocked env self originator to' recovery amount
      reason kind memo) s₁ u s') : Outcome env.spec self m s s' := by
  obtain ⟨htoken, receipt, hself, hnonce, hg⟩ := storeBlocked_yields hstore
  obtain ⟨hstep, hall, -⟩ := h
  rw [← htoken] at hstep hall
  refine ⟨hstep, hall, ?_⟩
  rw [hguard] at hnonce hg
  rw [hg]
  exact .stored receipt amount hself hnonce hcredit

/-- Blocked inbound funds end up with the guard; otherwise nothing has
happened yet. -/
theorem validateInboundOrBlock_yields {supply : Option Nat} (hsupply : ∀ n ∈ supply,
      n = s.token.totalSupply)
    (h : Yields (validateInboundOrBlock env self originator to' amount supply memo) s blocked s') :
    (blocked = false ∧ s' = s) ∨ (blocked = true ∧
      (∃ r, env.checkReceivePolicy self originator to'.target = .ok (some r)) ∧
      Outcome env.spec self (if supply.isSome then .mint receivePolicyGuardAddress amount
        else .transfer originator receivePolicyGuardAddress amount) s s') := by
  unfold validateInboundOrBlock at h
  split at h
  · simp only [yields_steps] at h
    obtain ⟨_, r, hr, h⟩ := h
    cases r with
    | none =>
      obtain ⟨rfl, rfl⟩ := h.pure
      exact .inl ⟨rfl, rfl⟩
    | some r =>
      cases supply with
      | none =>
        obtain ⟨_, s₁, hmove, h⟩ := h.bind
        obtain ⟨_, s2, hstore, h⟩ := h.bind
        obtain ⟨rfl, rfl⟩ := h.pure
        have hout := innerTransfer_outcome (by decide) hmove
        exact .inr ⟨rfl, ⟨r, hr⟩, hout.store (innerTransfer_guard hmove) (.transfer _ _ _) hstore⟩
      | some n =>
        cases hsupply n rfl
        obtain ⟨_, s₁, hmint, h⟩ := h.bind
        obtain ⟨_, s2, hstore, h⟩ := h.bind
        obtain ⟨rfl, rfl⟩ := h.pure
        have hminted : Outcome env.spec self _ s s₁ ∧ _ := innerMint_outcome hmint
        exact .inr ⟨rfl, ⟨r, hr⟩, hminted.1.store hminted.2 (.mint _ _) hstore⟩
  · obtain ⟨rfl, rfl⟩ := h.pure
    exact .inl ⟨rfl, rfl⟩

/-- Who is credited for an addressed recipient: itself, unless it is a virtual
address, which stands for its registered master. -/
def Resolved (env : Env) (to' target : Address) : Prop :=
  if .t3 ≤ env.spec then
    match to'.decodeVirtual with
    | none => to' = target
    | some (masterId, _) => env.getMaster masterId = .ok (some target)
  else to' = target

theorem Resolved.eq_of_not_virtual {to' target : Address}
    (h : Resolved env to' target) (hto : to'.isVirtual = false) : target = to' := by
  simp only [Resolved, Address.decodeVirtual, hto, Bool.false_eq_true, if_false, ite_self] at h
  exact h.symm

theorem resolve_yields {to' : Address}
    (h : Yields (resolve env to') s r s') : Resolved env to' r.target := by
  obtain ⟨effective, hres, hdone⟩ := (resolveRecipient_readOnly env to').yields_bind h
  obtain ⟨rfl, _⟩ := hdone.pure
  have htarget : (if effective = to' then Recipient.direct to'
      else ⟨effective, some to'⟩ : Recipient).target = effective := by
    split
    next heq => exact heq.symm
    next => rfl
  rw [htarget]
  unfold resolveRecipient at hres
  unfold Resolved
  split at hres
  next hspec =>
    rw [if_pos hspec]
    cases hdecode : to'.decodeVirtual with
    | none =>
      rw [hdecode] at hres
      exact (hres.pure).1
    | some parts =>
      rw [hdecode] at hres
      simp only [yields_steps] at hres
      obtain ⟨master, hmaster, rfl, -⟩ := hres
      exact hmaster
  next hspec =>
    rw [if_neg hspec]
    exact (hres.pure).1

theorem validate_yields (h : Yields r.validate s u s') :
    r.target ≠ 0 ∧ r.target.isTip20 = false := by
  obtain ⟨hvalid, _⟩ := yields_require.mp h
  simpa [not_or, Address.isZero] using hvalid

/-- Ledger and guard are untouched and allowances have not grown. -/
def Spent (s s' : TokenCtx) : Prop :=
  s'.token.toLedger = s.token.toLedger ∧ s'.guard = s.guard ∧
    ∀ a b, s'.token.allowances a b ≤ s.token.allowances a b

theorem Spent.outcome {m : Movement} (h : Spent s s₁)
    (hout : Outcome env.spec self m s₁ s') : Outcome env.spec self m s s' :=
  ⟨h.1 ▸ hout.step, fun a b => (hout.allowances a b).trans (h.2.2 a b), h.2.1 ▸ hout.guard⟩

theorem consumeAllowance_yields {owner spender : Address}
    (h : Yields (consumeAllowance owner spender amount) s u s') :
    Spent s s' ∧ amount ≤ s.token.allowances owner spender := by
  simp only [consumeAllowance, getAllowance, setAllowance, yields_steps, yields_ite,
    checkedSub_eq_some] at h
  obtain ⟨hle, ⟨_, _, ⟨_, rfl⟩, rfl⟩ | ⟨_, _, rfl⟩⟩ := h
  · refine ⟨⟨rfl, rfl, fun a b => ?_⟩, hle⟩
    simp only [putAllowance]
    by_cases ha : a = owner
    · subst ha
      by_cases hb : b = spender
      · subst hb
        simp
      · simp [hb]
    · simp [ha]
  · exact ⟨⟨rfl, rfl, fun _ _ => le_rfl⟩, hle⟩

theorem validateTransfer_yields {to' : Address} {r : Option Recipient}
    (h : Yields (validateTransfer env self spender from' to' amount memo) s r s') :
    (∀ p, spender = some p → amount ≤ s.token.allowances from' p) ∧
    ((∃ t, r = some t ∧ Resolved env to' t.target ∧ t.target ≠ 0 ∧
        t.target.isTip20 = false ∧ Spent s s') ∨ (r = none ∧ (∃ t b, Resolved env to' t ∧
          env.checkReceivePolicy self from' t = .ok (some b)) ∧ Outcome env.spec self
          (.transfer from' receivePolicyGuardAddress amount) s s')) := by
  obtain ⟨t, hres, h⟩ := (resolve_readOnly env to').yields_bind h
  replace h := h.skip checkNotPaused_readOnly
  obtain ⟨_, hvalid, h⟩ := (validate_readOnly t).yields_bind h
  replace h := h.skip (ensureTransferAuthorized_readOnly env self _ _)
  have hspend : ∃ s₁, Spent s s₁ ∧ (∀ p, spender = some p → amount ≤ s.token.allowances from' p) ∧
      Yields (do
        let blocked ← validateInboundOrBlock env self from' t amount none memo
        pure (if blocked then none else some t)) s₁ r s' := by
    cases spender with
    | some p =>
      obtain ⟨_, s₁, hallow, h⟩ := h.bind
      obtain ⟨hspent, hle⟩ := consumeAllowance_yields hallow
      refine ⟨s₁, hspent, ?_, h⟩
      intro q hq
      obtain rfl := Option.some.inj hq
      exact hle
    | none =>
      replace h := h.skip (checkAndUpdateSpendingLimit_readOnly env self _ _)
      exact ⟨s, ⟨rfl, rfl, fun _ _ => le_rfl⟩, by simp, h⟩
  obtain ⟨s₁, hspent, hallow, h⟩ := hspend
  obtain ⟨blocked, s2, hblock, h⟩ := h.bind
  obtain ⟨rfl, rfl⟩ := h.pure
  obtain ⟨hne, htip⟩ := validate_yields hvalid
  refine ⟨hallow, ?_⟩
  rcases validateInboundOrBlock_yields (by simp) hblock with
    ⟨rfl, rfl⟩ | ⟨rfl, ⟨b, hb⟩, hout⟩
  · exact .inl ⟨t, rfl, resolve_yields hres, hne, htip, hspent⟩
  · exact .inr ⟨rfl, ⟨_, b, resolve_yields hres, hb⟩, hspent.outcome hout⟩

/-- An ordinary transfer moves the amount to the resolved recipient, or to
the guard if the recipient's own policy blocks it. -/
theorem performTransfer_yields {to' : Address} {ok : Bool} (h : Yields (do
      let target ← validateTransfer env self spender from' to' amount memo
      performTransfer env self from' amount target) s ok s') :
    (∀ p, spender = some p → amount ≤ s.token.allowances from' p) ∧
    ((∃ t, Resolved env to' t ∧ t ≠ 0 ∧ t.isTip20 = false ∧
        Outcome env.spec self (.transfer from' t amount) s s') ∨ ((∃ t b, Resolved env to' t ∧
          env.checkReceivePolicy self from' t = .ok (some b)) ∧ Outcome env.spec self
          (.transfer from' receivePolicyGuardAddress amount) s s')) := by
  obtain ⟨r, s₁, hval, h⟩ := h.bind
  obtain ⟨hallow, ⟨t, rfl, hres, hne, htip, hspent⟩ | ⟨rfl, hpol, hout⟩⟩ :=
    validateTransfer_yields hval
  · obtain ⟨_, hmove⟩ := Yields.of_bind_pure h
    exact ⟨hallow, .inl ⟨_, hres, hne, htip, hspent.outcome (innerTransfer_outcome hne hmove)⟩⟩
  · obtain ⟨_, rfl⟩ := h.pure
    exact ⟨hallow, .inr ⟨hpol, hout⟩⟩

theorem transferFeePreTx_yields (h : Yields (transferFeePreTx env self from' amount) s u s') :
    Outcome env.spec self (.feePre from' amount) s s' := by
  replace h := h.skip checkNotPaused_readOnly
    |>.skip (checkAndUpdateSpendingLimit_readOnly env self _ _)
  obtain ⟨d, s₁, hhook, h⟩ := h.bind
  obtain ⟨rfl, rfl, _⟩ := updateRewards_yields hhook
  obtain ⟨s2, hopt, h⟩ := yields_when_bind.mp h
  obtain ⟨opted, rfl, hshift⟩ := decreaseWhen_yields hopt
  obtain ⟨_, s3, hdec, h⟩ := h.bind
  obtain ⟨hle, rfl⟩ := decrementBalance_yields hdec
  obtain rfl := incrementBalance_yields h
  simp only [putOptedInSupply, putLedger_toLedger, hook_balances, hook_optedInSupply] at hle hshift
  refine ⟨?_, fun _ _ => le_rfl, .kept⟩
  have hstep := @LedgerStep.feePre env.spec self _ _ _ _ hle hshift
  simpa [putOptedInSupply] using hstep

theorem transferFeePostTx_yields {to' : Address} {refund actual : Nat}
    (h : Yields (transferFeePostTx env self to' refund actual) s u s') :
    (refund = 0 ∧ s' = s) ∨ Outcome env.spec self (.feePost to' refund) s s' := by
  unfold transferFeePostTx at h
  split at h
  · obtain ⟨_, rfl⟩ := h.pure
    exact .inl ⟨‹_›, rfl⟩
  · right
    obtain ⟨s₁, hlimit, h⟩ := yields_when_bind.mp h
    have hs : s₁ = s := ReadOnly.ite (.ofExcept _) (.pure _) hlimit
    rw [hs] at h
    obtain ⟨d, s2, hhook, h⟩ := h.bind
    obtain ⟨rfl, rfl, _⟩ := updateRewards_yields hhook
    obtain ⟨s2, hopt, h⟩ := yields_when_bind.mp h
    obtain ⟨opted, rfl, hshift⟩ := increaseWhen_yields hopt
    obtain ⟨_, s3, hdec, h⟩ := h.bind
    obtain ⟨hle, rfl⟩ := decrementBalance_yields hdec
    obtain rfl := incrementBalance_yields h
    simp only [putOptedInSupply, putLedger_toLedger,
      hook_balances, hook_optedInSupply] at hle hshift
    refine ⟨?_, fun _ _ => le_rfl, .kept⟩
    have hstep := @LedgerStep.feePost env.spec self _ _ _ _ hle hshift
    simpa [putOptedInSupply] using hstep

theorem mintWithRole_yields {to' : Address} {role : AuthRole}
    (h : Yields (mintWithRole env self msgSender to' amount memo role) s u s') :
    ∃ t, (Resolved env to' t ∨ t = receivePolicyGuardAddress) ∧
      Outcome env.spec self (.mint t amount) s s' := by
  obtain ⟨r, s₁, hval, h⟩ := h.bind
  obtain ⟨t, hres, hval⟩ := (resolve_readOnly env to').yields_bind hval
  replace hval := hval.skip (checkRole_readOnly _ _)
  rw [totalSupply, yields_reads_bind] at hval
  have hrest : ∀ {k : Unit → Exec TokenCtx (Option (Nat × Recipient))},
      Yields (if .t3 ≤ env.spec then do
        checkNotPaused
        let r ← t.validate
        k r else k ()) s r s₁ → Yields (k ()) s r s₁ := by
    intro k hk
    split at hk
    · replace hk := hk.skip checkNotPaused_readOnly |>.skip (validate_readOnly t)
      exact hk
    · exact hk
  have hval := (hrest hval).skip (ensureAuthorizedAs_readOnly env self _ _)
  obtain ⟨blocked, s2, hblock, hval⟩ := hval.bind
  obtain ⟨rfl, rfl⟩ := hval.pure
  rcases validateInboundOrBlock_yields (by simp) hblock with ⟨rfl, rfl⟩ | ⟨rfl, -, hout⟩
  · exact ⟨_, .inl (resolve_yields hres), (innerMint_outcome h).1⟩
  · obtain ⟨_, rfl⟩ := h.pure
    exact ⟨_, .inr rfl, hout⟩

/-- A check that is only made from some fork on. -/
theorem pausedWhen_readOnly (c : Prop) [Decidable c] :
    ReadOnly (if c then checkNotPaused else pure ()) :=
  ReadOnly.ite checkNotPaused_readOnly (.pure _)

theorem innerBurn_yields (h : Yields (innerBurn env self msgSender amount) s u s') :
    Outcome env.spec self (.burn msgSender amount) s s' := by
  unfold innerBurn at h
  obtain ⟨s₁, hpaused, h⟩ := yields_when_bind.mp h
  rw [pausedWhen_readOnly _ hpaused] at h
  replace h := h.skip (checkRole_readOnly _ _)
  exact innerTransfer_burn_outcome h

/-- Not a custody address that privileged burns must not touch. -/
def Burnable (env : Env) (self from' : Address) : Prop :=
  ¬((∃ entry ∈ protectedAddresses, entry.1 ≤ env.spec ∧ from' ∈ entry.2) ∨
    (.t5 ≤ env.spec ∧ from' = self) ∨
    (.t12 ≤ env.spec ∧ from'.word.extractLsb' 64 96 = zonePortalPrefix))

theorem checkBurnAddress_yields (h : Yields (checkBurnAddress env self from') s u s') :
    Burnable env self from' := (yields_require.mp h).1

theorem burnBlocked_yields {owner : Address} {checkProtected : Bool}
    (h : Yields (burnBlocked env self msgSender owner amount checkProtected) s u s') :
    ∃ from', (if checkProtected then owner = from' ∧ Burnable env self from'
        else receivePolicyGuardAddress = from') ∧
      Outcome env.spec self (.burn from' amount) s s' := by
  unfold burnBlocked at h
  obtain ⟨s₁, hpaused, h⟩ := yields_when_bind.mp h
  rw [pausedWhen_readOnly _ hpaused] at h
  replace h := h.skip (checkRole_readOnly _ _)
  obtain ⟨s2, hprot, h⟩ := yields_when_bind.mp h
  have hs : s2 = s := ReadOnly.ite (.require _ _) (.pure _) hprot
  rw [hs] at h hprot
  obtain ⟨_, _, h⟩ := (transferPolicyId_readOnly env self).yields_bind h
  simp only [yields_steps] at h
  obtain ⟨_, _, _, h⟩ := h
  refine ⟨_, ?_, innerTransfer_burn_outcome h⟩
  cases checkProtected with
  | true => exact ⟨rfl, checkBurnAddress_yields hprot⟩
  | false => exact rfl

theorem burnAt_yields (h : Yields (burnAt env self msgSender from' amount) s u s') :
    Burnable env self from' ∧ Outcome env.spec self (.burn from' amount) s s' := by
  replace h := h.skip checkNotPaused_readOnly |>.skip (checkRole_readOnly _ _)
  obtain ⟨_, hburn, h⟩ := ReadOnly.yields_bind (x := checkBurnAddress env self from')
      (.require _ _) h
  replace h := h.skip (checkAndUpdateSpendingLimit_readOnly env self _ _)
  exact ⟨checkBurnAddress_yields hburn, innerTransfer_burn_outcome h⟩

theorem channelReserveTransfer_yields {sender : Address}
    (h : Yields (channelReserveTransfer env self from' to' amount sender) s u s') :
    Outcome env.spec self (.transfer from' to'.target amount) s s' := by
  rw [channelReserveTransfer, yields_require_bind] at h
  obtain ⟨_, h⟩ := h
  replace h := h.skip checkNotPaused_readOnly
  obtain ⟨_, hvalid, h⟩ := (validate_readOnly to').yields_bind h
  replace h := h.skip (checkAndUpdateSpendingLimit_readOnly env self _ _)
  rw [yields_require_bind] at h
  obtain ⟨_, h⟩ := h
  replace h := h.skip (ensureReceivePolicyAuthorized_readOnly env self _ _)
  exact innerTransfer_outcome (validate_yields hvalid).1 h

theorem releaseBlockedFunds_yields {receiver to' : Address} {mode : RecoveryMode} {auth : Address}
    (h : Yields (releaseBlockedFunds env self originator receiver to' amount mode auth) s u s') :
    ∃ t, Outcome env.spec self (.transfer receivePolicyGuardAddress t amount) s s' ∧
      s'.guard = s.guard := by
  replace h := h.skip checkNotPaused_readOnly
  obtain ⟨t, _, h⟩ := (resolve_readOnly env to').yields_bind h
  obtain ⟨_, hvalid, h⟩ := (validate_readOnly t).yields_bind h
  suffices hmove : Yields (innerTransfer env self receivePolicyGuardAddress t
      amount) s u s' from ⟨t.target, innerTransfer_outcome (validate_yields hvalid).1 hmove,
    innerTransfer_guard hmove⟩
  split at h
  · replace h := h.skip (ensureTransferAuthorized_readOnly env self _ _)
      |>.skip (ensureReceivePolicyAuthorized_readOnly env self _ _)
    split at h
    · replace h := h.skip (checkAndUpdateSpendingLimit_readOnly env self _ _)
      exact h
    · exact h
  · replace h := h.skip (ensureAuthorizedAs_readOnly env self _ _)
    exact h

theorem setSupplyCap_yields {cap : Nat} (h : Yields (setSupplyCap msgSender cap) s u s') :
    Outcome env.spec self (.setSupplyCap cap) s s' := by
  replace h := h.skip (checkRole_readOnly _ _)
  simp only [totalSupply, yields_steps] at h
  obtain ⟨hsupply, hword, rfl⟩ := h
  exact ⟨.setSupplyCap _ _ hsupply hword, fun _ _ => le_rfl, .kept⟩

/-- From T7 on a distribution is a no-op. -/
theorem distributeReward_yields (hself : self ≠ 0)
    (h : Yields (distributeReward env self msgSender amount) s u s') :
    s' = s ∨ Outcome env.spec self (.distribute msgSender amount) s s' := by
  unfold distributeReward at h
  split at h
  · exact .inl (h.pure).2.symm
  · right
    replace h := h.skip checkNotPaused_readOnly
    rw [yields_require_bind] at h
    have h := h.2.skip (ensureTransferAuthorized_readOnly env self _ _)
      |>.skip (checkAndUpdateSpendingLimit_readOnly env self _ _)
    obtain ⟨_, s₁, hmove, h⟩ := h.bind
    have hout := innerTransfer_outcome hself hmove
    simp only [getOptedInSupply, yields_steps, Option.bind_eq_some_iff, checkedMul_eq_some,
      checkedDiv_eq_some, checkedAdd_eq_some] at h
    obtain ⟨hopted, _, ⟨_, ⟨_, rfl⟩, _, rfl⟩, _, ⟨_, rfl⟩, rfl⟩ := h
    refine ⟨.distribute _ _ _ _ hout.step hopted, hout.allowances, ?_⟩
    rw [innerTransfer_guard hmove]
    exact .kept

theorem setRewardRecipient_yields {recipient : Address}
    (h : Yields (setRewardRecipient env self msgSender recipient) s u s') :
    s' = s ∨ Outcome env.spec self (.setRecipient msgSender recipient) s s' := by
  unfold setRewardRecipient at h
  split at h
  · exact .inl (h.pure).2.symm
  · right
    replace h := h.skip checkNotPaused_readOnly
    rw [yields_require_bind] at h
    obtain ⟨s₁, hauth, h⟩ := yields_when_bind.mp h.2
    have hs : s₁ = s := ReadOnly.ite
      (ensureTransferAuthorized_readOnly env self _ _) (.pure _) hauth
    rw [hs] at h
    obtain ⟨d, s2, hhook, h⟩ := h.bind
    obtain ⟨rfl, rfl, _⟩ := updateRewards_yields hhook
    rw [getBalance, yields_reads_bind] at h
    have hshift : ∃ s3, Yields (if s.token.delegate env.spec msgSender ≠ 0 then
          if recipient = 0 then
            decreaseOptedInSupply (s.token.balances msgSender) else pure ()
        else if recipient ≠ 0 then
          increaseOptedInSupply (s.token.balances msgSender) else pure ())
        (s.putLedger (s.token.hook env.spec msgSender)) () s3 ∧
        Yields (do
          let info ← getUserRewardInfo msgSender
          setUserRewardInfo msgSender { info with rewardRecipient := recipient })
        s3 u s' := by
      rw [← hook_balances env.spec s.token.toLedger msgSender]
      split at h
      · obtain ⟨s3, hopt, h⟩ := yields_when_bind.mp h
        exact ⟨s3, by rwa [if_pos ‹_›], h⟩
      · obtain ⟨s3, hopt, h⟩ := yields_when_bind.mp h
        exact ⟨s3, by rwa [if_neg ‹_›], h⟩
    obtain ⟨s3, hopt, h⟩ := hshift
    obtain ⟨opted, rfl, hmoved⟩ := shiftBetween_yields hopt
    simp only [getUserRewardInfo, setUserRewardInfo, yields_steps] at h
    simp only [putLedger_toLedger, hook_optedInSupply] at hmoved
    rw [← h]
    exact ⟨.setRecipient _ _ _ _ hmoved, fun _ _ => le_rfl, .kept⟩

/-- A claim pays `claimable` and reports it. -/
theorem claimRewards_yields {paid : Nat} (h : Yields (claimRewards env self msgSender) s paid s') :
    paid = s.token.claimable env.spec self msgSender ∧
      Outcome env.spec self (.claim msgSender paid) s s' := by
  replace h := h.skip checkNotPaused_readOnly
    |>.skip (ensureTransferAuthorized_readOnly env self _ _)
  obtain ⟨d, s₁, hhook, h⟩ := h.bind
  obtain ⟨rfl, rfl, _⟩ := updateRewards_yields hhook
  simp only [getUserRewardInfo, setUserRewardInfo, getBalance, setBalance, yields_steps,
    checkedSub_eq_some] at h
  obtain ⟨_, ⟨_, rfl⟩, h⟩ := h
  simp only [putLedger_toLedger, hook_balances] at h
  have hclaim : ∀ opted, OptedShift s.token.optedInSupply opted
      (s.token.claimable env.spec self msgSender) False
      (s.token.delegate env.spec msgSender ≠ 0) → _ :=
    fun opted => @LedgerStep.claim env.spec self s.token.toLedger msgSender opted
  generalize hamount : min ((s.token.hook env.spec msgSender).userRewardInfo
    msgSender).rewardBalance (s.token.balances self) = amount at h
  change s.token.claimable env.spec self msgSender = amount at hamount
  rw [hamount] at hclaim ⊢
  split at h
  · rename_i hzero
    obtain ⟨rfl, rfl⟩ := h.pure
    refine ⟨hzero.symm, ?_, fun _ _ => le_rfl, .kept⟩
    rw [hzero] at hclaim
    have hstep := hclaim s.token.optedInSupply (by simp [OptedShift])
    simpa [putUserRewardInfo, credit, debit, hzero] using hstep
  · simp only [yields_steps, checkedSub_eq_some, checkedAdd_eq_some] at h
    obtain ⟨_, ⟨_, rfl⟩, _, ⟨_, rfl⟩, h⟩ := h
    obtain ⟨s2, hopt, h⟩ := yields_when_bind.mp h
    obtain ⟨opted, rfl, hshift⟩ := increaseWhen_yields hopt
    obtain ⟨rfl, rfl⟩ := h.pure
    simp only [putBalance, putUserRewardInfo, putLedger_toLedger, hook_optedInSupply] at hshift
    refine ⟨rfl, ?_, fun _ _ => le_rfl, .kept⟩
    have hstep := hclaim opted hshift
    simpa [putBalance, putUserRewardInfo, putOptedInSupply, credit, debit] using hstep

theorem initializeToken_yields {currency : String} {quoteToken admin : Address}
    (h : Yields (initializeToken env currency quoteToken admin) s u s') :
    s'.token.toLedger = { s.token.toLedger with supplyCap := maxWord 128 } ∧
    s'.token.allowances = s.token.allowances ∧
    s'.token.deployed = true ∧ s'.token.quoteToken = quoteToken ∧
    s'.token.nextQuoteToken = quoteToken := by
  unfold initializeToken at h
  simp only [setRoleAdminInternal, writeRole, yields_updates_bind] at h
  split at h
  all_goals
    simp only [yields_steps] at h
    rw [← h]
    exact ⟨rfl, rfl, rfl, rfl, rfl⟩

end Tip20

end Tempo
