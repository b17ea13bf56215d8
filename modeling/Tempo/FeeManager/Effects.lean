/-
What each fee-manager call does.  On the token side only the manager's own
balances matter and are followed by `Moves`; on the manager's side every call
is an explicit update of its storage.
-/
import Tempo.FeeManager.Manager
import Tempo.Tip20.Supply

namespace Tempo

open FeeWorld Tip20 Function

namespace TokenWorld

/-- What the fee manager holds of a token. -/
def managed (w : TokenWorld) (token : Address) : Nat :=
  (w.tokens token).balances tipFeeManagerAddress

/-- `x` of token `a` and nothing of any other. -/
def due (a : Address) (x : Nat) (t : Address) : Nat :=
  if t = a then x else 0

/-- The manager has received at least `ins` and given at most `outs`, and
supplies stay conserved. -/
structure Moves (w w' : TokenWorld) (ins outs : Address → Nat) : Prop where
  balance : ∀ t, w.managed t + ins t ≤ w'.managed t + outs t
  conserved : (∀ t, (w.tokens t).Conserved) → ∀ t, (w'.tokens t).Conserved

variable {w w₁ w' : TokenWorld} {ins outs ins' outs' : Address → Nat}

theorem Moves.trans (h : Moves w w₁ ins outs) (h' : Moves w₁ w' ins' outs') :
    Moves w w' (fun t => ins t + ins' t) (fun t => outs t + outs' t) := by
  refine ⟨fun t => ?_, fun hc => h'.conserved (h.conserved hc)⟩
  have h1 := h.balance t
  have h2 := h'.balance t
  omega

/-- A movement of one token's ledger, by what it does to the manager's
balance. -/
theorem Moves.of_step {spec : TempoHardfork} {token : Address} {m : Movement}
    {s : TokenCtx} {x y : Nat} (hstep : LedgerStep spec token m (w.tokens token).toLedger
      s.token.toLedger) (hbalance : w.managed token + x ≤
      s.token.balances tipFeeManagerAddress + y) :
    Moves w (w.putCtx token s) (due token x) (due token y) := by
  refine ⟨fun t => ?_, fun hc t => ?_⟩
  · unfold due managed putCtx
    by_cases ht : t = token
    · subst ht
      simpa [managed] using hbalance
    · simp [ht]
  · unfold putCtx
    by_cases ht : t = token
    · subst ht
      simpa using Ledger.conserved_step (hc t) hstep
    · simpa [ht] using hc t

end TokenWorld

/-- The fee manager has not set a receive policy of its own. -/
def Env.AcceptsFees (env : Env) : Prop :=
  ∀ token sender blocked, env.checkReceivePolicy token sender tipFeeManagerAddress ≠
      .ok (some blocked)

namespace TipFeeManager

open TokenWorld (Moves due managed)

variable {env : Env} {w w' : FeeWorld} {token : Address} {u : Unit} {α : Type} {m : Exec TokenCtx α}

theorem onTip20_yields {a : α} (h : Yields (onTip20 token m) w a w') :
    token.isTip20 = true ∧ w'.manager = w.manager ∧ ∃ s, Yields m (w.tokens.ctx token) a s ∧
        w'.tokens = w.tokens.putCtx token s := by
  obtain ⟨tokens, ht, rfl⟩ := h.focus
  simp only [fromAddress, yields_require_bind] at ht
  obtain ⟨htip20, ht⟩ := ht
  obtain ⟨s, hs, rfl⟩ := yields_onToken.mp ht
  exact ⟨htip20, rfl, s, hs, rfl⟩

variable {to' sender feePayer user validator beneficiary : Address}
  {amount liquidity : Nat} {key : PoolKey}

/-- A transfer out of the manager's balance. -/
theorem push_yields {ok : Bool} (h : Yields (onTip20 token (transfer env token tipFeeManagerAddress
      to' amount)) w ok w') :
    w'.manager = w.manager ∧ Moves w.tokens w'.tokens (due token 0) (due token amount) := by
  obtain ⟨_, hmanager, s, hs, htokens⟩ := onTip20_yields h
  refine ⟨hmanager, ?_⟩
  rw [htokens]
  have hout : ∀ {t : Address}, Tip20.Outcome env.spec token
      (.transfer tipFeeManagerAddress t amount) (w.tokens.ctx token) s →
      Moves w.tokens (w.tokens.putCtx token s) (due token 0) (due token amount) := by
    intro t hout
    refine .of_step hout.step ?_
    rw [hout.step.transfer_balances.2]
    exact le_move_add (w.tokens.tokens token).balances _ _ _
  obtain ⟨_, ⟨t, _, _, _, ht⟩ | ⟨_, ht⟩⟩ := performTransfer_yields hs
  · exact hout ht
  · exact hout ht

/-- A transfer into the manager's balance on behalf of a caller. -/
theorem pull_yields {ok : Bool} (h : Yields (onTip20 token (systemTransferFrom env token
      tipFeeManagerAddress sender amount)) w ok w') :
    w'.manager = w.manager ∧ (env.AcceptsFees → sender ≠ tipFeeManagerAddress →
        Moves w.tokens w'.tokens (due token amount) (due token 0)) := by
  obtain ⟨_, hmanager, s, hs, htokens⟩ := onTip20_yields h
  refine ⟨hmanager, fun henv hsender => ?_⟩
  rw [htokens]
  rw [systemTransferFrom, yields_require_bind] at hs
  have hself : ∀ {t : Address}, Tip20.Resolved env tipFeeManagerAddress t →
      t = tipFeeManagerAddress := fun ht => ht.eq_of_not_virtual (by decide)
  obtain ⟨_, ⟨t, ht, _, _, hout⟩ | ⟨⟨t, b, ht, hblocked⟩, _⟩⟩ := performTransfer_yields hs.2
  · obtain rfl := hself ht
    refine .of_step hout.step ?_
    rw [hout.step.transfer_balances.2, credit_self, debit_of_ne _ hsender.symm]
    exact le_rfl
  · rw [hself ht] at hblocked
    exact absurd hblocked (henv _ _ _)

theorem feePre_yields (hpayer : feePayer ≠ tipFeeManagerAddress) (h : Yields (onTip20 token (do
      if .t8 ≤ env.spec then
        ensureAuthorizedAs env token feePayer .sender
      else
        ensureTransferAuthorized env token feePayer tipFeeManagerAddress
      transferFeePreTx env token feePayer amount)) w u w') :
    w'.manager = w.manager ∧ token.isTip20 = true ∧
      (∃ payer, amount ≤ (w.tokens.tokens token).balances payer) ∧
      Moves w.tokens w'.tokens (due token amount) (due token 0) := by
  obtain ⟨htip20, hmanager, s, hs, htokens⟩ := onTip20_yields h
  have hpre : Yields (transferFeePreTx env token feePayer amount) (w.tokens.ctx token) u s := by
    split at hs
    · exact ((ensureAuthorizedAs_readOnly env token _ _).yields_bind hs).choose_spec.2
    · exact ((ensureTransferAuthorized_readOnly env token _ _).yields_bind hs).choose_spec.2
  have hout := transferFeePreTx_yields hpre
  obtain ⟨hfunds, hbalances⟩ := hout.step.feePre_balances
  refine ⟨hmanager, htip20, ⟨feePayer, hfunds⟩, ?_⟩
  rw [htokens]
  refine .of_step hout.step ?_
  rw [hbalances, credit_self, debit_of_ne _ hpayer.symm]
  exact le_rfl

theorem feePost_yields {refund actual : Nat}
    (h : Yields (onTip20 token (transferFeePostTx env token feePayer refund actual)) w u w') :
    w'.manager = w.manager ∧ Moves w.tokens w'.tokens (due token 0) (due token refund) := by
  obtain ⟨_, hmanager, s, hs, htokens⟩ := onTip20_yields h
  refine ⟨hmanager, ?_⟩
  rw [htokens]
  rcases transferFeePostTx_yields hs with ⟨rfl, rfl⟩ | hout
  · exact .of_step (@LedgerStep.idle env.spec token _) le_rfl
  · refine .of_step hout.step ?_
    rw [hout.step.feePost_balances]
    exact le_move_add (w.tokens.tokens token).balances _ _ _

/-! The checks write nothing. -/

theorem onTip20_readOnly (hm : ReadOnly m) : ReadOnly (onTip20 token m) :=
  ((ReadOnly.require _ _).bind fun _ => hm.onToken).focus fun _ => rfl

theorem validateUsdCurrency_readOnly (token : Address) : ReadOnly (validateUsdCurrency token) :=
  ((ReadOnly.require _ _).bind fun _ => (ReadOnly.reads _).bind fun _ =>
    .require _ _).focus fun _ => rfl

theorem authorizeMint_readOnly (sender user validator to' : Address) :
    ReadOnly (authorizeMint env sender user validator to') :=
  (onTip20_readOnly ((ensureAuthorizedAs_readOnly _ _ _ _).bind
    fun _ => (ensureAuthorizedAs_readOnly _ _ _ _).bind
      fun _ => ensureAuthorizedAs_readOnly _ _ _ _)).bind
    fun _ => onTip20_readOnly (ensureAuthorizedAs_readOnly _ _ _ _)

theorem authorizeBurn_readOnly (sender user validator : Address) :
    ReadOnly (authorizeBurn env sender user validator) :=
  (onTip20_readOnly (ensureAuthorizedAs_readOnly _ _ _ _)).bind
    fun _ => onTip20_readOnly (ensureAuthorizedAs_readOnly _ _ _ _)

theorem checkReservation_yields {remaining : Nat}
    (h : Yields (checkReservation env key remaining) w u w') :
    w' = w ∧ (.t1c ≤ env.spec → w.manager.pendingFeeSwapReservation key ≤ remaining) := by
  unfold checkReservation at h
  split at h
  · simp only [query, yields_steps] at h
    exact ⟨h.2.symm, fun _ => Nat.not_lt.mp h.1⟩
  · exact ⟨(h.pure).2.symm, fun hspec => absurd hspec ‹_›⟩

/-! The AMM. -/

variable {amountIn supply : Nat} {pool : Pool} {minted amounts : Nat × Nat} {route : FeeRoute}

theorem computeAmountOut_eq_some {out : Nat} :
    computeAmountOut amountIn = some out ↔ amountIn * feeSwapRate ≤ maxWord 256 ∧
        amountIn * feeSwapRate / scale = out := by
  simp [computeAmountOut, and_assoc]

theorem executeFeeSwap_yields {out : Nat}
    (h : Yields (executeFeeSwap user validator amountIn) w out w') :
    out = amountIn * feeSwapRate / scale ∧
    out ≤ (w.manager.pools ⟨user, validator⟩).reserveValidatorToken ∧ w' = { w with
      manager := w.manager.putPool ⟨user, validator⟩
        ⟨(w.manager.pools ⟨user, validator⟩).reserveUserToken + amountIn,
          (w.manager.pools ⟨user, validator⟩).reserveValidatorToken - out⟩ } := by
  simp only [executeFeeSwap, applySwap, query, write, bind_assoc, yields_steps,
    computeAmountOut_eq_some, tryInto_eq_some, checkedAdd_eq_some, checkedSub_eq_some] at h
  obtain ⟨_, ⟨_, rfl⟩, hle, _, ⟨_, rfl⟩, _, ⟨_, rfl⟩, _, ⟨_, rfl⟩, _, ⟨_, rfl⟩, rfl, rfl⟩ := h
  exact ⟨rfl, Nat.not_lt.mp hle, rfl⟩

theorem rebalanceSwap_yields {amountOut : Nat}
    (h : Yields (rebalanceSwap env sender user validator amountOut to') w amountIn w') :
    amountOut ≠ 0 ∧ amountIn = amountOut * rebalanceRate / scale + 1 ∧
    amountOut ≤ (w.manager.pools ⟨user, validator⟩).reserveUserToken ∧
    w'.manager = w.manager.putPool ⟨user, validator⟩
      ⟨(w.manager.pools ⟨user, validator⟩).reserveUserToken - amountOut,
        (w.manager.pools ⟨user, validator⟩).reserveValidatorToken + amountIn⟩ ∧
    (env.AcceptsFees → sender ≠ tipFeeManagerAddress → Moves w.tokens w'.tokens
        (fun t => due validator amountIn t + due user 0 t)
        (fun t => due validator 0 t + due user amountOut t)) := by
  simp only [rebalanceSwap, query, yields_steps, Option.bind_eq_some_iff, checkedMul_eq_some,
    checkedDiv_eq_some, checkedAdd_eq_some, checkedSub_eq_some, tryInto_eq_some] at h
  obtain ⟨hne, _, ⟨_, ⟨_, rfl⟩, _, ⟨_, rfl⟩, _, rfl⟩, _, ⟨_, rfl⟩, _,
    ⟨_, rfl⟩, _, ⟨_, rfl⟩, _, ⟨hle, rfl⟩, h⟩ := h
  obtain ⟨_, w₁, hreserved, h⟩ := h.bind
  obtain ⟨rfl, _⟩ := checkReservation_yields hreserved
  rw [write, yields_updates_bind] at h
  obtain ⟨_, w2, hpull, h⟩ := h.bind
  obtain ⟨_, w3, hpush, h⟩ := h.bind
  obtain ⟨rfl, rfl⟩ := h.pure
  obtain ⟨hm2, hmoves2⟩ := pull_yields hpull
  obtain ⟨hm3, hmoves3⟩ := push_yields hpush
  exact ⟨hne, rfl, hle, hm3.trans hm2, fun henv hsender => (hmoves2 henv hsender).trans hmoves3⟩

/-- What a deposit of `amount` into `pool` mints, and the supply it is added
to: the first deposit locks `minLiquidity`. -/
def Minted (pool : Pool) (supply amount liquidity supply' : Nat) : Prop :=
  if pool.reserveUserToken = 0 ∧ pool.reserveValidatorToken = 0 then
    minLiquidity < amount / 2 ∧ liquidity = amount / 2 - minLiquidity ∧
      supply' = supply + minLiquidity
  else liquidity = amount * supply / (pool.reserveValidatorToken +
      rebalanceRate * pool.reserveUserToken / scale) ∧ supply' = supply

theorem subsequentLiquidity_yields
    (h : Yields (subsequentLiquidity pool supply amount) w liquidity w') :
    w' = w ∧ liquidity = amount * supply / (pool.reserveValidatorToken +
      rebalanceRate * pool.reserveUserToken / scale) := by
  simp only [subsequentLiquidity, yields_steps, Option.bind_eq_some_iff, checkedMul_eq_some,
    checkedDiv_eq_some, checkedAdd_eq_some] at h
  obtain ⟨_, ⟨_, ⟨_, rfl⟩, _, rfl⟩, _, ⟨_, rfl⟩, _, ⟨_, ⟨_, rfl⟩, _, rfl⟩, rfl⟩ := h
  exact ⟨rfl, rfl⟩

theorem initialLiquidity_yields (h : Yields (initialLiquidity key supply amount) w minted w') :
    minLiquidity < amount / 2 ∧ minted.1 = amount / 2 - minLiquidity ∧
      minted.2 = supply + minLiquidity ∧ w' = { w with
        manager := w.manager.putTotalSupply key (supply + minLiquidity) } := by
  simp only [initialLiquidity, write, yields_steps, checkedDiv_eq_some, checkedAdd_eq_some,
    checkedSub_eq_some] at h
  obtain ⟨_, ⟨_, rfl⟩, hmin, _, ⟨_, rfl⟩, _, ⟨_, rfl⟩, rfl, rfl⟩ := h
  exact ⟨Nat.not_le.mp hmin, rfl, rfl, rfl⟩

theorem mintLiquidity_yields (h : Yields (mintLiquidity key pool supply amount) w minted w') :
    Minted pool supply amount minted.1 minted.2 ∧ w'.tokens = w.tokens ∧
      (w' = w ∨ ∃ a, w'.manager = w.manager.putTotalSupply key a) := by
  unfold mintLiquidity at h
  unfold Minted
  split at h
  · rename_i hempty
    obtain ⟨hmin, hliquidity, hsupply, rfl⟩ := initialLiquidity_yields h
    rw [if_pos hempty]
    exact ⟨⟨hmin, hliquidity, hsupply⟩, rfl, .inr ⟨_, rfl⟩⟩
  · rename_i hfull
    obtain ⟨liquidity, w₁, hliquidity, hpure⟩ := h.bind
    obtain ⟨rfl, hvalue⟩ := subsequentLiquidity_yields hliquidity
    obtain ⟨rfl, rfl⟩ := hpure.pure
    rw [if_neg hfull]
    exact ⟨⟨hvalue, rfl⟩, rfl, .inl rfl⟩

theorem putTotalSupply_twice (m : FeeManager) (key : PoolKey) (pool : Pool) (a b : Nat) :
    ((m.putTotalSupply key a).putPool key pool).putTotalSupply key b =
      (m.putPool key pool).putTotalSupply key b := by
  simp [FeeManager.putTotalSupply, FeeManager.putPool]

theorem mint_yields (h : Yields (mint env sender user validator amount to') w liquidity w') :
    user ≠ validator ∧ amount ≠ 0 ∧ liquidity ≠ 0 ∧
    ∃ supply, Minted (w.manager.pools ⟨user, validator⟩)
      (w.manager.totalSupply ⟨user, validator⟩) amount liquidity supply ∧
    w'.manager = ((w.manager.putPool ⟨user, validator⟩
      ⟨(w.manager.pools ⟨user, validator⟩).reserveUserToken,
        (w.manager.pools ⟨user, validator⟩).reserveValidatorToken +
          amount⟩).putTotalSupply ⟨user, validator⟩
        (supply + liquidity)).putLiquidityBalance ⟨user, validator⟩ to'
        (w.manager.liquidityBalances ⟨user, validator⟩ to' + liquidity) ∧
    (env.AcceptsFees → sender ≠ tipFeeManagerAddress →
      Moves w.tokens w'.tokens (due validator amount) (due validator 0)) := by
  simp only [mint, yields_require_bind] at h
  obtain ⟨hne, hamount, h⟩ := h
  replace h := h.skip (validateUsdCurrency_readOnly _) |>.skip (validateUsdCurrency_readOnly _)
  obtain ⟨w₁, hauth, h⟩ := yields_when_bind.mp h
  have hw1 : w₁ = w := ReadOnly.ite (authorizeMint_readOnly _ _ _ _) (.pure _) hauth
  rw [hw1] at h
  simp only [query, yields_reads_bind] at h
  obtain ⟨minted, w2, hminted, h⟩ := h.bind
  obtain ⟨hshape, htokens, hmanager⟩ := mintLiquidity_yields hminted
  rw [yields_require_bind] at h
  obtain ⟨hliquidity, h⟩ := h
  obtain ⟨_, w3, hpull, h⟩ := h.bind
  obtain ⟨hm3, hmoves⟩ := pull_yields hpull
  simp only [write, yields_steps, tryInto_eq_some, checkedAdd_eq_some] at h
  obtain ⟨_, ⟨_, rfl⟩, _, ⟨_, rfl⟩, _, ⟨_, rfl⟩, _, ⟨_, rfl⟩, rfl, rfl⟩ := h
  refine ⟨hne, hamount, hliquidity, minted.2, hshape, ?_, htokens ▸ hmoves⟩
  rcases hmanager with rfl | ⟨a, hm2⟩
  · rw [hm3]
    rfl
  · rw [hm3, hm2, putTotalSupply_twice]
    rfl

theorem calculateBurnAmounts_yields
    (h : Yields (calculateBurnAmounts pool key liquidity) w amounts w') :
    w' = w ∧ w.manager.totalSupply key ≠ 0 ∧ amounts.1 = liquidity * pool.reserveUserToken /
        w.manager.totalSupply key ∧ amounts.2 = liquidity * pool.reserveValidatorToken /
        w.manager.totalSupply key := by
  simp only [calculateBurnAmounts, query, yields_steps, Option.bind_eq_some_iff, checkedMul_eq_some,
    checkedDiv_eq_some] at h
  obtain ⟨_, ⟨_, ⟨_, rfl⟩, hne, rfl⟩, _, ⟨_, ⟨_, rfl⟩, _, rfl⟩, rfl, rfl⟩ := h
  exact ⟨rfl, hne, rfl, rfl⟩

theorem burn_yields (h : Yields (burn env sender user validator liquidity to') w amounts w') :
    liquidity ≠ 0 ∧ liquidity ≤ w.manager.liquidityBalances ⟨user, validator⟩ sender ∧
    liquidity ≤ w.manager.totalSupply ⟨user, validator⟩ ∧ amounts.1 = liquidity *
      (w.manager.pools ⟨user, validator⟩).reserveUserToken /
        w.manager.totalSupply ⟨user, validator⟩ ∧ amounts.2 = liquidity *
      (w.manager.pools ⟨user, validator⟩).reserveValidatorToken /
        w.manager.totalSupply ⟨user, validator⟩ ∧
    amounts.1 ≤ (w.manager.pools ⟨user, validator⟩).reserveUserToken ∧
    amounts.2 ≤ (w.manager.pools ⟨user, validator⟩).reserveValidatorToken ∧ (.t1c ≤ env.spec →
      w.manager.pendingFeeSwapReservation ⟨user, validator⟩ ≤
        (w.manager.pools ⟨user, validator⟩).reserveValidatorToken - amounts.2) ∧
    w'.manager = ((w.manager.putLiquidityBalance ⟨user, validator⟩ sender
      (w.manager.liquidityBalances ⟨user, validator⟩ sender -
        liquidity)).putTotalSupply ⟨user, validator⟩
      (w.manager.totalSupply ⟨user, validator⟩ - liquidity)).putPool ⟨user, validator⟩
      ⟨(w.manager.pools ⟨user, validator⟩).reserveUserToken - amounts.1,
        (w.manager.pools ⟨user, validator⟩).reserveValidatorToken - amounts.2⟩ ∧
    Moves w.tokens w'.tokens (fun t => due user 0 t + due validator 0 t)
      (fun t => due user amounts.1 t + due validator amounts.2 t) := by
  simp only [burn, yields_require_bind] at h
  obtain ⟨_, hne, h⟩ := h
  replace h := h.skip (validateUsdCurrency_readOnly _) |>.skip (validateUsdCurrency_readOnly _)
  obtain ⟨w₁, hauth, h⟩ := yields_when_bind.mp h
  have hw1 : w₁ = w := ReadOnly.ite (authorizeBurn_readOnly _ _ _) (.pure _) hauth
  rw [hw1] at h
  simp only [query, yields_steps] at h
  obtain ⟨hheld, h⟩ := h
  obtain ⟨pair, w2, hamounts, h⟩ := h.bind
  obtain ⟨hw2, _, huser, hvalidator⟩ := calculateBurnAmounts_yields hamounts
  rw [hw2] at h
  simp only [yields_orFail_bind, tryInto_eq_some, checkedSub_eq_some] at h
  obtain ⟨_, ⟨_, rfl⟩, _, ⟨hreserveV, rfl⟩, h⟩ := h
  obtain ⟨_, w3, hreserved, h⟩ := h.bind
  obtain ⟨hw3, hkept⟩ := checkReservation_yields hreserved
  rw [hw3] at h
  simp only [write, yields_steps, tryInto_eq_some, checkedSub_eq_some] at h
  obtain ⟨_, ⟨_, rfl⟩, _, ⟨hsupply, rfl⟩, _, ⟨_, rfl⟩, _, ⟨hreserveU, rfl⟩, h⟩ := h
  obtain ⟨_, w4, hpushU, h⟩ := h.bind
  obtain ⟨_, w5, hpushV, h⟩ := h.bind
  obtain ⟨rfl, rfl⟩ := h.pure
  obtain ⟨hm4, hmoves4⟩ := push_yields hpushU
  obtain ⟨hm5, hmoves5⟩ := push_yields hpushV
  exact ⟨hne, Nat.not_lt.mp hheld, hsupply, huser, hvalidator, hreserveU,
    hreserveV, hkept, hm5.trans hm4, hmoves4.trans hmoves5⟩

theorem setValidatorToken_yields (h : Yields (setValidatorToken sender token beneficiary) w u w') :
    sender ≠ beneficiary ∧ w' = { w with
      manager.validatorTokens := update w.manager.validatorTokens sender token } := by
  obtain ⟨_, _, h⟩ := (ReadOnly.focus (fun _ => rfl) (.reads _)).yields_bind h
  simp only [yields_require_bind] at h
  obtain ⟨_, hne, h⟩ := h
  replace h := h.skip (validateUsdCurrency_readOnly _)
  exact ⟨hne, (h.updates).symm⟩

theorem setUserToken_yields (h : Yields (setUserToken env sender token) w u w') :
    w' = w ∨ ∃ userTokens, w' = { w with manager.userTokens := userTokens } := by
  obtain ⟨_, _, h⟩ := (ReadOnly.focus (fun _ => rfl) (.reads _)).yields_bind h
  rw [yields_require_bind] at h
  replace h := h.2.skip (validateUsdCurrency_readOnly _)
  simp only [query, write, yields_reads_bind] at h
  split at h
  · exact .inl (h.pure).2.symm
  · exact .inr ⟨_, (h.updates).symm⟩

/-- The token a validator is paid in. -/
def preferredToken (m : FeeManager) (beneficiary : Address) : Address :=
  if m.validatorTokens beneficiary = 0 then defaultFeeToken
  else m.validatorTokens beneficiary

theorem getValidatorToken_yields {validatorToken : Address}
    (h : Yields (getValidatorToken beneficiary) w validatorToken w') :
    w' = w ∧ validatorToken = preferredToken w.manager beneficiary := by
  simp only [getValidatorToken, query, yields_steps] at h
  exact ⟨h.2.symm, h.1.symm⟩

/-- `m` with the fees of a validator in a token overwritten. -/
def putFees (m : FeeManager) (validator token : Address) (amount : Nat) : FeeManager :=
  { m with
    collectedFees := update m.collectedFees validator
      (update (m.collectedFees validator) token amount) }

theorem putFees_self (m : FeeManager) (validator token : Address) :
    putFees m validator token (m.collectedFees validator token) = m := by
  simp [putFees]

theorem incrementCollectedFees_yields
    (h : Yields (incrementCollectedFees validator token amount) w u w') : w' = { w with
      manager := putFees w.manager validator token
        (w.manager.collectedFees validator token + amount) } := by
  unfold incrementCollectedFees at h
  split at h
  · rename_i hzero
    rw [← (h.pure).2, hzero, add_zero, putFees_self]
  · simp only [query, write, yields_steps, checkedAdd_eq_some] at h
    obtain ⟨_, ⟨_, rfl⟩, rfl⟩ := h
    rfl

theorem distributeFees_yields (h : Yields (distributeFees env validator token) w u w') :
    w'.manager = putFees w.manager validator token 0 ∧ Moves w.tokens w'.tokens (due token 0)
        (due token (w.manager.collectedFees validator token)) := by
  simp only [distributeFees, query, yields_reads_bind] at h
  split at h
  · rename_i hzero
    obtain ⟨_, rfl⟩ := h.pure
    have hsame := putFees_self w.manager validator token
    rw [hzero] at hsame
    rw [hsame, hzero]
    exact ⟨rfl, fun _ => le_rfl, fun h => h⟩
  · obtain ⟨_, hpush⟩ := Yields.of_bind_pure h
    exact push_yields hpush

theorem onTokens_readOnly {m : Exec TokenWorld α}
    (hm : ReadOnly m) : ReadOnly (onTokens m) := hm.focus fun _ => rfl

theorem planFeeRoute_readOnly (user validator : Address) (amount : Nat) :
    ReadOnly (planFeeRoute env user validator amount) := by
  refine .ite (.pure _) (.bind (.orFail _ _) fun _ =>
    .bind (.reads _) fun _ => .ite (.pure _) (.ite (.pure _) ?_))
  refine (onTokens_readOnly (.bind (.require _ _) fun _ =>
    .reads _)).bind fun _ => .ite (.pure _) ?_
  refine .bind (.reads _) fun _ => .ite (.pure _) ?_
  exact (ReadOnly.orFail _ _).bind fun _ => (ReadOnly.reads _).bind
    fun _ => .ite (.pure _) (.pure _)

/-- Output of a fee swap of `amount`. -/
def feeOut (amount : Nat) : Nat := amount * feeSwapRate / scale

theorem feeOut_mono {a b : Nat} (h : a ≤ b) : feeOut a ≤ feeOut b :=
  Nat.div_le_div_right (Nat.mul_le_mul_right _ h)

theorem feeOut_le (a : Nat) : feeOut a ≤ a := by
  unfold feeOut feeSwapRate scale
  omega

/-- What planning has checked when it chooses `route` for a fee. -/
def RouteReady (m : FeeManager) (user validator : Address) (amount : Nat) : FeeRoute → Prop
  | .sameToken => user = validator
  | .direct => user ≠ validator ∧
      feeOut amount ≤ (m.pools ⟨user, validator⟩).reserveValidatorToken
  | .twoHop mid => user ≠ validator ∧ mid ≠ 0 ∧ mid ≠ validator ∧
      feeOut amount ≤ (m.pools ⟨user, mid⟩).reserveValidatorToken ∧
      feeOut (feeOut amount) ≤ (m.pools ⟨mid, validator⟩).reserveValidatorToken

/-- The planner reports what it has read. -/
theorem planFeeRoute_yields {plan : Option FeeRoute × Option Address × PoolData}
    (h : Yields (planFeeRoute env user validator amount) w plan w') :
    (∀ route, plan.1 = some route → RouteReady w.manager user validator amount route) ∧
    (∀ p ∈ plan.2.2, p.2 = (w.manager.pools p.1).reserveValidatorToken) ∧
    ∀ hop ∈ plan.2.1, hop = (w.tokens.tokens user).quoteToken := by
  unfold planFeeRoute at h
  split at h
  · obtain ⟨rfl, _⟩ := h.pure
    simpa [RouteReady]
  rename_i hne
  simp only [query, yields_steps, computeAmountOut_eq_some] at h
  obtain ⟨_, ⟨_, rfl⟩, h⟩ := h
  split at h
  · rename_i hdirect
    obtain ⟨rfl, _⟩ := h.pure
    simp [RouteReady, feeOut, hne, hdirect]
  split at h
  · obtain ⟨rfl, _⟩ := h.pure
    simp
  obtain ⟨mid, w₁, hmid, h⟩ := h.bind
  simp only [onTokens, yields_focus, fromAddress, getQuoteToken, yields_steps] at hmid
  obtain ⟨_, ⟨-, rfl, rfl⟩, rfl⟩ := hmid
  split at h
  · obtain ⟨rfl, _⟩ := h.pure
    simp
  rename_i hmid
  rw [not_or] at hmid
  simp only [yields_reads_bind] at h
  split at h
  · obtain ⟨rfl, _⟩ := h.pure
    simp
  rename_i hleg1
  simp only [yields_steps, computeAmountOut_eq_some] at h
  obtain ⟨_, ⟨_, rfl⟩, h⟩ := h
  split at h
  · obtain ⟨rfl, _⟩ := h.pure
    simp
  · rename_i hleg2
    obtain ⟨rfl, _⟩ := h.pure
    simp [RouteReady, feeOut, hne, hmid, not_not.mp hleg1, not_not.mp hleg2]

/-- Storage once the liquidity for a route has been reserved. -/
def reserved (m : FeeManager) (user validator : Address) (amount : Nat) : FeeRoute → FeeManager
  | .sameToken => m
  | .direct => { m with
      pendingFeeSwapReservation := update
        m.pendingFeeSwapReservation ⟨user, validator⟩ (feeOut amount) }
  | .twoHop mid => { m with
      pendingFeeSwapReservation := update (update
        m.pendingFeeSwapReservation ⟨user, mid⟩ (feeOut amount))
        ⟨mid, validator⟩ (feeOut (feeOut amount))
      twoHopIntermediate := mid }

theorem reserveFeeLiquidity_yields (hspec : .t1c ≤ env.spec)
    (h : Yields (reserveFeeLiquidity env user validator amount route) w u w') : w' = { w with
      manager := reserved w.manager user validator amount route } := by
  cases route with
  | sameToken => exact (h.pure).2.symm
  | direct =>
    rw [reserveFeeLiquidity, if_pos hspec] at h
    simp only [reservePoolLiquidity, write, yields_steps, computeAmountOut_eq_some,
      tryInto_eq_some] at h
    obtain ⟨_, ⟨_, rfl⟩, _, ⟨_, rfl⟩, rfl⟩ := h
    rfl
  | twoHop mid =>
    simp only [reserveFeeLiquidity, reservePoolLiquidity, write, yields_steps,
      computeAmountOut_eq_some, tryInto_eq_some] at h
    obtain ⟨_, ⟨_, rfl⟩, _, ⟨_, rfl⟩, _, ⟨_, rfl⟩, _, ⟨_, rfl⟩, rfl⟩ := h
    rfl

/-- What a pre-transaction collection leaves: the fee is with the manager
and, unless the check is skipped, a route with its liquidity reserved. -/
theorem collectFeePreTx_yields {a : Address} {skip : Bool}
    (hspec : .t1c ≤ env.spec) (hpayer : feePayer ≠ tipFeeManagerAddress)
    (h : Yields (collectFeePreTx env feePayer user amount beneficiary skip) w a w') :
    a = user ∧ user.isTip20 = true ∧ (∃ payer, amount ≤ (w.tokens.tokens user).balances payer) ∧
    Moves w.tokens w'.tokens (due user amount) (due user 0) ∧
    ((skip = true ∧ w'.manager = w.manager) ∨ ∃ route, RouteReady w.manager user
          (preferredToken w.manager beneficiary) amount route ∧ w'.manager = reserved w.manager user
          (preferredToken w.manager beneficiary) amount route) := by
  obtain ⟨validator, w₁, hvalidator, h⟩ := h.bind
  obtain ⟨rfl, rfl⟩ := getValidatorToken_yields hvalidator
  obtain ⟨_, w2, hpre, h⟩ := h.bind
  obtain ⟨hmanager, htip20, hfunds, hmoves⟩ := feePre_yields hpayer hpre
  cases skip with
  | true =>
    obtain ⟨rfl, rfl⟩ := h.pure
    exact ⟨rfl, htip20, hfunds, hmoves, .inl ⟨rfl, hmanager⟩⟩
  | false =>
    obtain ⟨plan, hplan, h⟩ := (planFeeRoute_readOnly _ _ _).yields_bind h
    rw [yields_orFail_bind] at h
    obtain ⟨route, hroute, h⟩ := h
    obtain ⟨_, w3, hreserve, h⟩ := h.bind
    obtain ⟨rfl, rfl⟩ := h.pure
    obtain rfl := reserveFeeLiquidity_yields hspec hreserve
    have hready := (planFeeRoute_yields hplan).1 _ hroute
    rw [hmanager] at hready
    refine ⟨rfl, htip20, hfunds, hmoves, .inr ⟨route, hready, ?_⟩⟩
    rw [hmanager]

/-- A post-transaction collection refunds, settles and credits. -/
theorem collectFeePostTx_yields {fee : Address} {actual refund : Nat}
    (h : Yields (collectFeePostTx env feePayer actual refund fee beneficiary) w amount w') :
    ∃ w₁ w2 : FeeWorld, w₁.manager = w.manager ∧
      Moves w.tokens w₁.tokens (due fee 0) (due fee refund) ∧
      Yields (settleFee fee (preferredToken w.manager beneficiary)
        w.manager.twoHopIntermediate actual) w₁ amount w2 ∧ w' = { w2 with
        manager := putFees w2.manager beneficiary (preferredToken w.manager beneficiary)
          (w2.manager.collectedFees beneficiary
            (preferredToken w.manager beneficiary) + amount) } := by
  obtain ⟨_, w₁, hpost, h⟩ := h.bind
  obtain ⟨hmanager, hmoves⟩ := feePost_yields hpost
  simp only [query, yields_reads_bind] at h
  obtain ⟨validator, w2, hvalidator, h⟩ := h.bind
  obtain ⟨hw2, rfl⟩ := getValidatorToken_yields hvalidator
  rw [hw2, hmanager] at h
  obtain ⟨paid, w3, hsettle, h⟩ := h.bind
  obtain ⟨_, w4, hcredit, h⟩ := h.bind
  obtain ⟨rfl, rfl⟩ := h.pure
  exact ⟨w₁, w3, hmanager, hmoves, hsettle, incrementCollectedFees_yields hcredit⟩

end TipFeeManager

end Tempo
