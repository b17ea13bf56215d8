/-
A transaction that authorizes an access key and is signed with it.  Its fee is
checked against the limits it carries before it is collected, and taken off the
limits of the key once they are stored.
-/
import Tempo.Keychain.LimitViews
import Tempo.Transaction.Codec

namespace Tempo

open SpendingLimitState

inductive FeePaymentError where
  | other (reason : String)
  deriving DecidableEq

namespace Tx

def SignatureType.toPrecompile : SignatureType → Tempo.SignatureType
  | secp256k1 => .secp256k1
  | p256 => .p256
  | webAuthn => .webAuthn

/-- The last entry of a token counts. -/
def limitOf (limits : List TokenLimit) (token : Address) : Nat :=
  ((limits.reverse.find? fun l => l.token = token).map fun l => l.limit.toNat).getD 0

namespace KeyAuthorization

/-- The check of the fee before it is collected. -/
def checkFee (auth : KeyAuthorization) (caller feePayer feeToken : Address) (fee : Nat) :
    Except FeePaymentError Unit :=
  match auth.limits with
  | none => .ok ()
  | some limits =>
    if fee ≠ 0 ∧ feePayer = caller ∧ limitOf limits feeToken < fee then
      .error (.other "SpendingLimitExceeded")
    else .ok ()

/-- What is asked of the keychain; no limits means that none are enforced. -/
def restrictions (auth : KeyAuthorization) : KeyRestrictions where
  expiry := auth.expiry.elim (maxWord 64) fun expiry => expiry.val.toNat
  enforceLimits := auth.limits.isSome
  limits := (auth.limits.getD []).map fun l => ⟨l.token, l.limit.toNat, l.period.toNat⟩
  allowAnyCalls := auth.allowedCalls.isNone
  allowedCalls := auth.allowedCalls.getD []

def authorize (env : KeychainEnv) (caller : Address) (auth : KeyAuthorization) :
    Exec AccountKeychain Unit :=
  if auth.isAdmin then
    AccountKeychain.authorizeAdminKey env caller auth.keyId auth.keyType.toPrecompile auth.witness
  else
    AccountKeychain.authorizeKey env caller auth.keyId auth.keyType.toPrecompile
      auth.restrictions auth.witness

/-- The key becomes that of the transaction and is charged with the fee. -/
def chargeFee (env : KeychainEnv) (auth : KeyAuthorization) (feePayer feeToken : Address)
    (fee : Nat) : Exec AccountKeychain Unit := do
  AccountKeychain.setTransactionKey auth.keyId
  if fee = 0 then pure ()
  else AccountKeychain.authorizeTransfer env feePayer feeToken fee

end KeyAuthorization

end Tx

/-- A limit that was just stored is shown as it was given. -/
theorem TokenLimit.stored_shown {limit : TokenLimit} (spec : TempoHardfork) (now now' : Nat)
    (hcap : limit.amount ≤ maxWord 128) :
    ((limit.stored now').shown spec now).1 = limit.amount := by
  have hsentinel : limit.amount ≠ zeroPeriodicRemainingSentinel := (hcap.trans_lt (by decide)).ne
  unfold shown rollOver decodeRemaining
  split
  · rfl
  · split
    · rfl
    · exact if_neg fun h => hsentinel h.2

namespace Tx.KeyAuthorization

open AccountKeychain
open KeychainCall (blockAt)

variable {env : KeychainEnv} {s s₁ s₂ : AccountKeychain} {auth : KeyAuthorization}
  {caller feePayer feeToken : Address} {fee : Nat}

theorem restrictions_expiry (auth : KeyAuthorization) : auth.restrictions.expiry ≤ maxWord 64 := by
  unfold restrictions
  cases auth.expiry with
  | none => exact le_rfl
  | some expiry => exact Nat.le_pred_of_lt expiry.val.isLt

theorem checkFee_isOk_iff (hfee : 0 < fee) :
    auth.checkFee caller feePayer feeToken fee = .ok () ↔ (feePayer = caller ∧ auth.limits ≠ none →
      fee ≤ limitOf (auth.limits.getD []) feeToken) := by
  unfold checkFee
  cases auth.limits with
  | none => simp
  | some limits =>
    dsimp only [Option.getD_some]
    split
    next h => simp [h.2.1, h.2.2]
    next h =>
      refine iff_of_true rfl fun hcaller => Nat.not_lt.mp fun hlt => ?_
      exact h ⟨hfee.ne', hcaller.1, hlt⟩

section Authorized

/-! After an authorization from T3 on; static checks have refused limits for
admin keys. -/

variable (hspec : .t3 ≤ env.spec) (hadmin : auth.isAdmin → auth.limits = none)
  (hauth : Yields (auth.authorize env caller) s () s₁)

include hspec hadmin hauth

/-- The new key is active. -/
theorem authorize_key : s₁.txOrigin = caller ∧ auth.keyId ≠ 0 ∧
    s₁.ActiveAt caller auth.keyId env.timestamp ∧
    (s₁.keys caller auth.keyId).enforceLimits = auth.limits.isSome ∧
    env.timestamp < maxWord 64 := by
  have hspec2 : .t2 ≤ env.spec := le_trans (by decide) hspec
  obtain ⟨config, isAdmin, h, hexpiry, henforce⟩ : ∃ config isAdmin,
      Yields (authorizeKeyInternal env caller auth.keyId auth.keyType.toPrecompile config
        auth.witness isAdmin) s () s₁ ∧
      config.expiry ≤ maxWord 64 ∧ config.enforceLimits = auth.limits.isSome := by
    unfold authorize at hauth
    split at hauth
    next hadm => exact ⟨_, _, hauth, le_rfl, by rw [hadmin hadm]; rfl⟩
    · exact ⟨_, _, hauth, auth.restrictions_expiry, rfl⟩
  obtain ⟨horigin, hkey⟩ := authorizeKeyInternal_key hspec2 h
  obtain ⟨hzero, -, -, hchecks, -⟩ := authorizeKeyInternal_yields h
  have hfuture := (hchecks hspec2).2
  refine ⟨horigin, hzero, ⟨?_, ?_⟩, ?_, hfuture.trans_le hexpiry⟩ <;> rw [hkey]
  · exact hfuture
  · exact henforce

/-- A token is limited as the authorization says, or its row is as it was. -/
theorem authorize_row (hlimits : auth.limits ≠ none) (token : Address) :
    ((s₁.spendingLimits (caller, auth.keyId) token).Fits ∧
      ((s₁.spendingLimits (caller, auth.keyId) token).shown env.spec env.timestamp).1 =
        limitOf (auth.limits.getD []) token) ∨
    ((∀ l ∈ auth.limits.getD [], l.token ≠ token) ∧ limitOf (auth.limits.getD []) token = 0 ∧
      s₁.spendingLimits (caller, auth.keyId) token =
        s.spendingLimits (caller, auth.keyId) token) := by
  rw [authorize, if_neg fun h => hlimits (hadmin h)] at hauth
  obtain ⟨hlisted, hother⟩ := authorizeKey_rows hspec (Option.isSome_iff_ne_none.mpr hlimits) hauth
  unfold limitOf
  cases hfind : (auth.limits.getD []).reverse.find? fun l => l.token = token with
  | some l =>
    have htoken : l.token = token := by simpa using List.find?_some hfind
    have hmem : l ∈ auth.limits.getD [] := List.mem_reverse.mp (List.mem_of_find?_eq_some hfind)
    obtain ⟨hcap, hrow⟩ := hlisted _ (List.mem_map_of_mem hmem)
    rw [← htoken, hrow]
    exact .inl ⟨⟨hcap.trans (by decide), hcap⟩, TokenLimit.stored_shown _ _ _ hcap⟩
  | none =>
    have hnone : ∀ l ∈ auth.limits.getD [], l.token ≠ token := by simpa using hfind
    exact .inr ⟨hnone, rfl, hother token (by simpa [restrictions] using hnone)⟩

theorem chargeFee_unlimited (hfee : 0 < fee) (hfree : ¬(feePayer = caller ∧ auth.limits ≠ none)) :
    Yields (auth.chargeFee env feePayer feeToken fee) s₁ ()
      { s₁ with transactionKey := auth.keyId } := by
  obtain ⟨horigin, hzero, hactive, henforce, -⟩ := authorize_key hspec hadmin hauth
  rw [chargeFee, setTransactionKey, yields_updates_bind, if_neg hfee.ne', authorizeTransfer,
    yields_reads_bind]
  dsimp only [id]
  split
  · exact yields_pure.mpr ⟨rfl, rfl⟩
  next hown =>
    have hpayer := not_not.mp (not_or.mp hown).2
    rw [hpayer, horigin, verifyAndUpdateSpending, if_neg hzero, yields_reads_bind,
      yields_ofExcept_bind]
    refine ⟨_, hactive.loadActiveKey, ?_⟩
    rw [id_eq, henforce, not_not.mp fun h => hfree ⟨hpayer.trans horigin, h⟩]
    exact yields_pure.mpr ⟨rfl, rfl⟩

theorem chargeFee_iff (hfee : 0 < fee) (hlimits : auth.limits ≠ none) :
    Yields (auth.chargeFee env caller feeToken fee) s₁ () s₂ ↔
      ∃ row, (s₁.spendingLimits (caller, auth.keyId) feeToken).charge env.spec env.timestamp fee =
          .ok row ∧
        { s₁ with transactionKey := auth.keyId }.putLimit (caller, auth.keyId) feeToken row =
          s₂ := by
  obtain ⟨horigin, hzero, hactive, henforce, -⟩ := authorize_key hspec hadmin hauth
  rw [Option.isSome_iff_ne_none.mpr hlimits] at henforce
  rw [chargeFee, setTransactionKey, yields_updates_bind, if_neg hfee.ne', authorizeTransfer,
    yields_reads_bind]
  dsimp only [id]
  rw [if_neg (not_or.mpr ⟨hzero, not_not.mpr horigin.symm⟩)]
  refine (verifyAndUpdateSpending_iff hzero ?_).trans (and_iff_right ?_)
  · exact henforce
  · exact ⟨hactive.unrevoked, hactive.unexpired⟩

/-- A fee that passes the check is taken, leaving the limit less the fee where
the caller pays and limits are enforced, and the limits as they are otherwise.
A fee that does not pass could not have been taken, unless its token has no
limit and the row of the key held something before the key was there. -/
theorem fee_charged_as_checked (hfee : 0 < fee) :
    (auth.checkFee caller feePayer feeToken fee = .ok () →
      ∃ s₂, Yields (auth.chargeFee env feePayer feeToken fee) s₁ () s₂ ∧
        if feePayer = caller ∧ auth.limits ≠ none then
          s₂.effectiveRemainingLimit env.spec caller auth.keyId feeToken env.timestamp + fee =
            limitOf (auth.limits.getD []) feeToken
        else s₂.spendingLimits = s₁.spendingLimits) ∧
    (auth.checkFee caller feePayer feeToken fee = .error (.other "SpendingLimitExceeded") →
      ((∀ l ∈ auth.limits.getD [], l.token ≠ feeToken) →
        s.spendingLimits (caller, auth.keyId) feeToken = .blank) →
      ∀ s₂, ¬Yields (auth.chargeFee env feePayer feeToken fee) s₁ () s₂) := by
  have hcheck : auth.checkFee caller feePayer feeToken fee = .ok () ↔ _ := checkFee_isOk_iff hfee
  by_cases hcharged : feePayer = caller ∧ auth.limits ≠ none
  · obtain ⟨rfl, hlimits⟩ := hcharged
    have hrow := authorize_row hspec hadmin hauth hlimits feeToken
    constructor
    · intro hok
      have hle := hcheck.mp hok ⟨rfl, hlimits⟩
      rcases hrow with ⟨hfits, hshown⟩ | ⟨-, hzero, -⟩
      · obtain ⟨row, hcharge⟩ := (charge_isOk_iff hspec).mpr (hshown ▸ hle)
        refine ⟨_, (chargeFee_iff hspec hadmin hauth hfee hlimits).mpr ⟨row, hcharge, rfl⟩, ?_⟩
        obtain ⟨-, hkey, hactive, -, hnow⟩ := authorize_key hspec hadmin hauth
        have hafter : ({ s₁ with transactionKey := auth.keyId }.putLimit (feePayer, auth.keyId)
            feeToken row).ActiveAt feePayer auth.keyId env.timestamp :=
          ⟨hactive.unrevoked, hactive.unexpired⟩
        rw [if_pos ⟨rfl, hlimits⟩, effectiveRemainingLimit, hafter.effectiveLimitState hspec hkey,
          putLimit_self, ← hshown]
        exact (charge_shown hfits hnow hspec hcharge).1
      · omega
    · intro herr hblank s₂ h
      obtain ⟨row, hcharge, -⟩ := (chargeFee_iff hspec hadmin hauth hfee hlimits).mp h
      have hle := (charge_isOk_iff hspec).mp ⟨row, hcharge⟩
      have hover : ¬fee ≤ limitOf (auth.limits.getD []) feeToken := fun hle => by
        rw [hcheck.mpr fun _ => hle] at herr
        cases herr
      rcases hrow with ⟨-, hshown⟩ | ⟨hnone, -, hsame⟩
      · exact hover (hshown ▸ hle)
      · rw [hsame, hblank hnone] at hle
        exact hfee.not_ge hle
  · refine ⟨fun _ => ⟨_, chargeFee_unlimited hspec hadmin hauth hfee hcharged, ?_⟩, fun herr => ?_⟩
    · rw [if_neg hcharged]
    · rw [hcheck.mpr fun h => absurd h hcharged] at herr
      cases herr

end Authorized

/-- An authorization of one key with the limits. -/
def withLimits (limits : List TokenLimit) : KeyAuthorization where
  chainId := 1
  keyType := .p256
  keyId := ⟨2⟩
  expiry := none
  limits := some limits
  allowedCalls := none
  witness := none
  isAdmin := false
  account := none

/-- A fee of 60 under a limit of 100 in every ten seconds. -/
theorem fee_charged_as_checked_periodic :
    let auth := withLimits [⟨⟨3⟩, 100, 10⟩]
    let s : AccountKeychain := { AccountKeychain.empty with txOrigin := ⟨1⟩ }
    let s₁ := finalState (auth.authorize (blockAt .t7 1000) ⟨1⟩) s
    ∃ s₂, Yields (auth.chargeFee (blockAt .t7 1000) ⟨1⟩ ⟨3⟩ 60) s₁ () s₂ ∧
      s₂.effectiveRemainingLimit .t7 ⟨1⟩ ⟨2⟩ ⟨3⟩ 1000 + 60 = 100 := by
  intro auth s s₁
  have hauth : Yields (auth.authorize (blockAt .t7 1000) ⟨1⟩) s () s₁ :=
    yields_finalState (by decide +kernel)
  exact (fee_charged_as_checked (by decide) (by decide) hauth (by decide)).1 (by decide +kernel)

/-- A key without an expiry, authorized before T0, is not there but has left
the limits it came with: authorized again without limits, it is refused the fee
by the check, though the charge would go through. -/
theorem refused_fee_chargeable :
    let auth := withLimits []
    let s := KeychainCall.replay .empty [(blockAt .genesis 1000, .setTxOrigin ⟨1⟩),
        (blockAt .genesis 1000,
          .authorizeKey ⟨1⟩ ⟨2⟩ .p256 ⟨0, true, [⟨⟨3⟩, 100, 0⟩], true, []⟩ none)]
    let s₁ := finalState (auth.authorize (blockAt .t3 2000) ⟨1⟩) s
    let s₂ := finalState (auth.chargeFee (blockAt .t3 2000) ⟨1⟩ ⟨3⟩ 60) s₁
    Yields (auth.authorize (blockAt .t3 2000) ⟨1⟩) s () s₁ ∧
      auth.checkFee ⟨1⟩ ⟨1⟩ ⟨3⟩ 60 = .error (.other "SpendingLimitExceeded") ∧
      Yields (auth.chargeFee (blockAt .t3 2000) ⟨1⟩ ⟨3⟩ 60) s₁ () s₂ := by
  intro auth s s₁ s₂
  exact ⟨yields_finalState (by decide +kernel), by decide +kernel,
    yields_finalState (by decide +kernel)⟩

end Tx.KeyAuthorization

end Tempo
