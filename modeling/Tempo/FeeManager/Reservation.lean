/-
Reserved fee liquidity.  A successful collection before a transaction leaves
a route whose output is reserved in every pool on it; calls within the
transaction keep the cover, so settlement finds the liquidity it needs and,
the manager being solvent, none of its sums overflows.
-/
import Tempo.FeeManager.Solvency
import Tempo.Tip20.Errors

namespace Tempo

open Relation Function

namespace TipFeeManager

open TokenWorld (Moves due managed)

variable {env : Env} {w w' : FeeWorld}

/-- The output of the route for a fee of `amount` is reserved. -/
def Secured (m : FeeManager) (user validator : Address) (amount : Nat) : FeeRoute → Prop
  | .sameToken => user = validator
  | .direct => user ≠ validator ∧ m.twoHopIntermediate = 0 ∧
      feeOut amount ≤ m.pendingFeeSwapReservation ⟨user, validator⟩
  | .twoHop mid => user ≠ validator ∧ mid ≠ validator ∧ mid ≠ 0 ∧
      m.twoHopIntermediate = mid ∧
      feeOut amount ≤ m.pendingFeeSwapReservation ⟨user, mid⟩ ∧
      feeOut (feeOut amount) ≤ m.pendingFeeSwapReservation ⟨mid, validator⟩

/-- Settlement of a prepaid fee can count on its route: reservations are
covered and one route is reserved. -/
structure FeeSecured (w : FeeWorld) (f : Inflight) : Prop where
  covered : ∀ key, w.manager.pendingFeeSwapReservation key ≤
    (w.manager.pools key).reserveValidatorToken
  route : ∃ route, Secured w.manager f.feeToken
    (preferredToken w.manager f.beneficiary) f.maxAmount route

variable {user validator : Address} {amount : Nat} {route : FeeRoute}
  {m : FeeManager} {f : Inflight}

/-- Reserving for a planned route covers it. -/
theorem reserved_covered (hready : RouteReady m user validator amount route)
    (hnone : ∀ key, m.pendingFeeSwapReservation key = 0) (key : PoolKey) :
    (reserved m user validator amount route).pendingFeeSwapReservation key ≤
      ((reserved m user validator amount route).pools key).reserveValidatorToken := by
  cases route with
  | sameToken =>
    simp only [reserved]
    rw [hnone]
    exact Nat.zero_le _
  | direct =>
    simp only [reserved, update_apply]
    split
    · rename_i hkey
      rw [hkey]
      exact hready.2
    · rw [hnone]
      exact Nat.zero_le _
  | twoHop mid =>
    obtain ⟨_, _, _, hleg1, hleg2⟩ := hready
    simp only [reserved, update_apply]
    split_ifs with hkey hkey'
    · rw [hkey]
      exact hleg2
    · rw [hkey']
      exact hleg1
    · rw [hnone]
      exact Nat.zero_le _

theorem reserved_secured (hready : RouteReady m user validator amount route)
    (hhop : m.twoHopIntermediate = 0) :
    Secured (reserved m user validator amount route) user validator amount
      route := by
  cases route with
  | sameToken => exact hready
  | direct => exact ⟨hready.1, hhop, by simp [reserved]⟩
  | twoHop mid =>
    obtain ⟨hne, hzero, hmid, _⟩ := hready
    have hkeys : (⟨user, mid⟩ : PoolKey) ≠ ⟨mid, validator⟩ := by
      intro h
      exact hmid (PoolKey.mk.inj h).2
    exact ⟨hne, hmid, hzero, rfl, by simp [reserved, hkeys],
      by simp [reserved]⟩

/-- A collection with the liquidity check secures the fee. -/
theorem collectFeePreTx_secured {a : Address}
    (hspec : .t1c ≤ env.spec) (hpayer : f.feePayer ≠ tipFeeManagerAddress)
    (h : Yields (do
      beginTx
      collectFeePreTx env f.feePayer f.feeToken f.maxAmount f.beneficiary
        false) w a w') : FeeSecured w' f := by
  obtain ⟨_, _, _, _, ⟨hskip, _⟩ | ⟨route, hready, hmanager⟩⟩ :=
    collectFeePreTx_yields hspec hpayer h
  · cases hskip
  · refine ⟨fun key => ?_, route, ?_⟩
    · rw [hmanager]
      exact reserved_covered hready (fun _ => rfl) key
    · have hpreferred : preferredToken w'.manager f.beneficiary =
          preferredToken w.manager f.beneficiary := by
        rw [hmanager]
        cases route <;> rfl
      rw [hpreferred, hmanager]
      exact reserved_secured hready rfl

/-- Calls within the transaction leave the fee secured. -/
theorem FeeSecured.keeps (h : FeeSecured w f)
    (hkeeps : FeeCall.Keeps f.beneficiary w w') : FeeSecured w' f := by
  obtain ⟨route, hroute⟩ := h.route
  refine ⟨fun key => hkeeps.covered key (h.covered key), route, ?_⟩
  rw [hkeeps.preferred]
  cases route with
  | sameToken => exact hroute
  | direct | twoHop mid =>
    unfold Secured
    rw [hkeeps.hop, hkeeps.reservations]
    exact hroute

/-! Progress of the settlement. -/

theorem computeAmountOut_of_word (h : amount ≤ maxWord 128) :
    computeAmountOut amount = some (feeOut amount) := by
  have hword : maxWord 128 * feeSwapRate ≤ maxWord 256 := by decide
  exact computeAmountOut_eq_some.mpr ⟨(Nat.mul_le_mul_right _ h).trans hword, rfl⟩

/-- A fee swap succeeds where the output is there and the input fits. -/
theorem executeFeeSwap_succeeds {amountIn : Nat}
    (hin : (w.manager.pools ⟨user, validator⟩).reserveUserToken + amountIn ≤
      maxWord 128) (hout : feeOut amountIn ≤
      (w.manager.pools ⟨user, validator⟩).reserveValidatorToken) :
    Yields (executeFeeSwap user validator amountIn) w (feeOut amountIn)
      { w with
        manager := w.manager.putPool ⟨user, validator⟩
          ⟨(w.manager.pools ⟨user, validator⟩).reserveUserToken + amountIn,
            (w.manager.pools ⟨user, validator⟩).reserveValidatorToken - feeOut amountIn⟩ } := by
  have hamount : amountIn ≤ maxWord 128 := (Nat.le_add_left _ _).trans hin
  simp only [executeFeeSwap, applySwap, FeeWorld.query, FeeWorld.write, bind_assoc, yields_steps,
    computeAmountOut_of_word hamount, tryInto_eq_some, checkedAdd_eq_some, checkedSub_eq_some]
  exact ⟨_, rfl, Nat.not_lt.mpr hout, _, ⟨hamount, rfl⟩, _,
    ⟨(feeOut_le _).trans hamount, rfl⟩, _, ⟨hin, rfl⟩, _, ⟨hout, rfl⟩, rfl, rfl⟩

theorem reserveUserToken_le_books (m : FeeManager) (user validator : Address) :
    (m.pools ⟨user, validator⟩).reserveUserToken ≤ m.books user := by
  have h := le_sum_entry (fun key => FeeManager.held user key (m.pools key)) ⟨user, validator⟩
  simp only [FeeManager.held, if_true] at h
  simp only [FeeManager.books, FeeManager.held]
  omega

theorem collectedFees_le_books (m : FeeManager) (v token : Address) :
    m.collectedFees v token ≤ m.books token := by
  have h := le_sum_entry (fun v => m.collectedFees v token) v
  simp only [FeeManager.books]
  omega

/-- Settlement succeeds on a secured route when the books with what was
spent fit in a word. -/
theorem settleFee_runs {fee : Address} {maxAmount actual : Nat}
    (hroute : Secured w.manager fee validator maxAmount route)
    (hcovered : ∀ key, w.manager.pendingFeeSwapReservation key ≤
      (w.manager.pools key).reserveValidatorToken) (hactual : actual ≤ maxAmount)
    (hfits : ∀ t, w.manager.books t + due fee actual t ≤ maxWord 128) :
    Runs (settleFee fee validator w.manager.twoHopIntermediate actual) w := by
  have hspent : w.manager.books fee + actual ≤ maxWord 128 := by
    simpa [due] using hfits fee
  have hword : actual ≤ maxWord 128 := (Nat.le_add_left _ _).trans hspent
  have hin : ∀ v, (w.manager.pools ⟨fee, v⟩).reserveUserToken + actual ≤ maxWord 128 := fun v =>
    (Nat.add_le_add_right (reserveUserToken_le_books _ _ _) _).trans hspent
  cases route with
  | sameToken =>
    have hsame : fee = validator := hroute
    rw [settleFee, if_pos hsame]
    exact runs_pure
  | direct =>
    obtain ⟨hne, hhop, hreserved⟩ := hroute
    rw [settleFee, if_neg hne, if_pos hhop]
    have hpaid : ∀ w', Runs (orFail (computeAmountOut actual)
        .underOverflow : Exec FeeWorld Nat) w' := fun w' =>
      ⟨_, _, yields_orFail.mpr ⟨computeAmountOut_of_word hword, rfl⟩⟩
    refine runs_ite.mpr ⟨fun _ => ?_, fun _ => hpaid w⟩
    have hout := ((feeOut_mono hactual).trans hreserved).trans (hcovered _)
    exact (executeFeeSwap_succeeds (hin _) hout).runs_bind (hpaid _)
  | twoHop mid =>
    obtain ⟨hne, hmid, hzero, hhop, hleg1, hleg2⟩ := hroute
    rw [settleFee, if_neg hne, hhop, if_neg hzero]
    have hpaid : ∀ w', Runs (do
        let out1 ← orFail (computeAmountOut actual) .underOverflow
        orFail (computeAmountOut out1) .underOverflow : Exec FeeWorld Nat)
        w' := fun w' => runs_orFail_bind.mpr
      ⟨_, computeAmountOut_of_word hword, _, _, yields_orFail.mpr
        ⟨computeAmountOut_of_word ((feeOut_le _).trans hword), rfl⟩⟩
    refine runs_ite.mpr ⟨fun _ => ?_, fun _ => hpaid w⟩
    have hout1 := ((feeOut_mono hactual).trans hleg1).trans (hcovered _)
    have hswap := executeFeeSwap_succeeds (hin mid) hout1
    refine hswap.runs_bind ?_
    -- the first swap has moved its output into the books of the hop token
    have hbooks := executeFeeSwap_books hswap mid
    have hkeys : (⟨mid, validator⟩ : PoolKey) ≠ ⟨fee, mid⟩ := by
      intro h
      exact hmid (PoolKey.mk.inj h).2.symm
    have hout2 := ((feeOut_mono (feeOut_mono hactual)).trans hleg2).trans (hcovered _)
    refine (executeFeeSwap_succeeds ?_ ?_).runs_bind (hpaid _)
    · refine (Nat.add_le_add_right (reserveUserToken_le_books _ _ _) _).trans ?_
      simp only [due, if_true] at hbooks
      rw [hbooks]
      exact hfits mid
    · simpa [FeeManager.putPool, hkeys] using hout2

theorem incrementCollectedFees_runs {token : Address}
    (h : w.manager.collectedFees validator token + amount ≤ maxWord 256) :
    Runs (incrementCollectedFees validator token amount) w := by
  refine runs_ite.mpr ⟨fun _ => runs_pure, fun _ => ?_⟩
  exact runs_reads_bind.mpr (runs_orFail_bind.mpr
    ⟨_, checkedAdd_eq_some.mpr ⟨h, rfl⟩, runs_updates⟩)

end TipFeeManager

namespace Tip20

variable {env : Env} {self : Address} {P : TempoPrecompileError → Prop}

/-- The errors of a refund: the keychain's, arithmetic and the token's. -/
theorem transferFeePostTx_throws {to' : Address} {refund actual : Nat}
    (hkeychain : ∀ e, env.refundSpendingLimit to' self refund = .error e → P e)
    (hflow : P .underOverflow) (htip20 : ∀ e, P (.tip20 e)) :
    Throws P (transferFeePostTx env self to' refund actual) := by
  have hmove : Throws P (do
      decrementBalance self tipFeeManagerAddress refund
      incrementBalance to' refund) :=
    ((Throws.reads _).bind fun _ => (Throws.orFail _ (htip20 _)).bind
      fun _ => .updates _).bind fun _ =>
    .bind (.reads _) fun _ => .bind (.orFail _ (htip20 _)) fun _ => .updates _
  have hsettle : Throws P (do
      let toRewardRecipient ← updateRewards env to'
      if toRewardRecipient ≠ 0 then increaseOptedInSupply refund else pure ()
      decrementBalance self tipFeeManagerAddress refund
      incrementBalance to' refund) :=
    (updateRewards_throws hflow _).bind fun _ => .ite
      ((increaseOptedInSupply_throws hflow _).bind fun _ => hmove) hmove
  exact .ite (.pure _) (.ite (.bind (.ofExcept hkeychain) fun _ => hsettle) hsettle)

end Tip20

namespace TipFeeManager

open TokenWorld (Moves due managed)

/-- Once the refund is paid the rest of the settlement succeeds. -/
theorem collectFeePostTx_runs {env : Env} {w w1 : FeeWorld} {f : Inflight}
    {actual refund : Nat} {u : Unit} (hsecured : FeeSecured w f)
    (hsolvent : Solvent w (due f.feeToken f.maxAmount))
    (hconserved : ∀ t, (w.tokens.tokens t).Conserved) (hsum : actual + refund = f.maxAmount)
    (hrefund : Yields (onTip20 f.feeToken (Tip20.transferFeePostTx env
      f.feeToken f.feePayer refund actual)) w u w1) :
    Runs (collectFeePostTx env f.feePayer actual refund f.feeToken f.beneficiary) w := by
  obtain ⟨hmanager, hmoves⟩ := feePost_yields hrefund
  obtain ⟨route, hroute⟩ := hsecured.route
  -- what was not refunded is still covered, so all books fit in a word
  have hfits : ∀ t, w1.manager.books t + due f.feeToken actual t ≤ maxWord 128 := by
    intro t
    have hcovers := hsolvent.covers t
    have hbalance := hmoves.balance t
    have hword : w1.tokens.managed t ≤ maxWord 128 := (hmoves.conserved hconserved t).balance_le _
    rw [hmanager]
    simp only [due] at hcovers hbalance ⊢
    split_ifs at hcovers hbalance ⊢ <;> omega
  have hroute1 := hroute
  have hcovered := hsecured.covered
  rw [← hmanager] at hroute1 hcovered
  obtain ⟨paid, w2, hsettle⟩ := settleFee_runs hroute1 hcovered (Nat.le.intro hsum) hfits
  refine hrefund.runs_bind (runs_reads_bind.mpr ?_)
  have htoken : Yields (getValidatorToken f.beneficiary) w1
      (preferredToken w1.manager f.beneficiary) w1 := by
    rw [getValidatorToken, FeeWorld.query, yields_reads_bind, yields_pure]
    exact ⟨rfl, rfl⟩
  refine htoken.runs_bind (hsettle.runs_bind ?_)
  have hbooks := (settleFee_books hsettle (preferredToken w1.manager f.beneficiary)).2
  have hfits1 := hfits (preferredToken w1.manager f.beneficiary)
  have hfees := collectedFees_le_books w2.manager f.beneficiary
    (preferredToken w1.manager f.beneficiary)
  have hwide : maxWord 128 ≤ maxWord 256 := by decide
  have hroom : w2.manager.collectedFees f.beneficiary
      (preferredToken w1.manager f.beneficiary) + paid ≤ maxWord 256 := by
    simp only [due, if_true] at hbooks hfits1
    omega
  obtain ⟨_, w3, hcredit⟩ := incrementCollectedFees_runs hroom
  exact hcredit.runs_bind runs_pure

end TipFeeManager

open TipFeeManager in
/-- If the collection before a transaction succeeds with its liquidity check,
then whatever the body does, settlement of any amount up to the maximum
succeeds, unless the refund transfer itself is refused; and a refusal never
reports missing liquidity of its own. -/
theorem TxState.reserved_fee_settles {tokens : TokenWorld}
    {w w₁ w₂ : FeeWorld} {f : Inflight} {env env' : Env} {a : Address}
    {actual refund : Nat} (hconserved : ∀ t, (tokens.tokens t).Conserved)
    (hrun : ReflTransGen TxStep ⟨⟨tokens, .empty⟩, none⟩ ⟨w, none⟩)
    (hspec : .t1c ≤ env.spec) (hpayer : f.feePayer ≠ tipFeeManagerAddress)
    (hpre : Yields (do
      beginTx
      collectFeePreTx env f.feePayer f.feeToken f.maxAmount f.beneficiary false) w a w₁)
    (hbody : ReflTransGen (BodyStep f.beneficiary) w₁ w₂) (hsum : actual + refund = f.maxAmount) :
    let settlement := collectFeePostTx env' f.feePayer actual refund f.feeToken f.beneficiary
    Runs settlement w₂ ∨ ∃ e w₃,
      (onTip20 f.feeToken (Tip20.transferFeePostTx env' f.feeToken f.feePayer
        refund actual)).run w₂ = .error e w₃ ∧ settlement.run w₂ = .error e w₃ ∧
      (e = .tipFeeAMM .insufficientLiquidity →
        env'.refundSpendingLimit f.feePayer f.feeToken refund = .error e) := by
  intro settlement
  have hstart := hrun.tail (.pre hspec hpayer hpre)
  have hrun₂ : ReflTransGen TxStep ⟨⟨tokens, .empty⟩, none⟩ ⟨w₂, some f⟩ := by
    refine hstart.trans (ReflTransGen.lift
      (fun w : FeeWorld => (⟨w, some f⟩ : TxState)) (fun _ _ h => ?_) _ _ hbody)
    exact .body (fun g hg => by rw [Option.mem_some_iff.mp hg]) h
  have hsecured : FeeSecured w₂ f := run_invariant (I := fun w => FeeSecured w f)
      (fun _ _ h hstep => h.keeps hstep.keeps) hbody (collectFeePreTx_secured hspec hpayer hpre)
  have hcons₂ := run_invariant (I := fun s : TxState => ∀ t, (s.world.tokens.tokens t).Conserved)
    (fun _ _ h hstep => hstep.conserved h) hrun₂ hconserved
  cases hrefund : (onTip20 f.feeToken (Tip20.transferFeePostTx env'
    f.feeToken f.feePayer refund actual)).run w₂ with
  | ok u w₃ =>
    exact .inl (collectFeePostTx_runs hsecured (run_solvent hrun₂) hcons₂ hsum hrefund)
  | error e w₃ =>
    refine .inr ⟨e, w₃, rfl, ?_, ?_⟩
    · unfold settlement collectFeePostTx
      rw [EStateM.run_bind, hrefund]
    · have hthrows : Throws (fun e =>
          e = .tipFeeAMM .insufficientLiquidity →
            env'.refundSpendingLimit f.feePayer f.feeToken refund = .error e)
          (onTip20 f.feeToken (Tip20.transferFeePostTx env' f.feeToken f.feePayer refund actual)) :=
        .focus (.bind (.require _ nofun) fun _ =>
          .focus (Tip20.transferFeePostTx_throws (fun _ he _ => he) nofun nofun))
      exact hthrows hrefund

open TipFeeManager in
/-- Two funded legs, a fee of 1000 reserved over both, a withdrawal by the
provider, and a settlement of 600. -/
theorem TxState.reserved_fee_settles_two_hops :
    let fee : Address := .newTip20 1
    let mid : Address := .newTip20 2
    let provider : Address := ⟨1⟩
    let payer : Address := ⟨2⟩
    let beneficiary : Address := ⟨3⟩
    let env := Env.permissive .t5
    let tokens : TokenWorld := { TokenWorld.empty with
      tokens := update (update (update
        (fun _ => Token.blank) pathUsdAddress (Token.endowed 0 provider 10000))
        mid (Token.endowed pathUsdAddress provider 10000)) fee (Token.endowed mid payer 5000) }
    let w₁ := finalState (FeeCall.exec env beneficiary
      (.mint provider fee mid 10000 provider)) ⟨tokens, .empty⟩
    let w₂ := finalState (FeeCall.exec env beneficiary
      (.mint provider mid pathUsdAddress 10000 provider)) w₁
    let w₃ := finalState (do
      beginTx
      collectFeePreTx env payer fee 1000 beneficiary false) w₂
    let w₄ := finalState (FeeCall.exec env beneficiary
      (.burn provider mid pathUsdAddress 4000 provider)) w₃
    let settlement := collectFeePostTx env payer 600 400 fee beneficiary
    w₄.manager.twoHopIntermediate = mid ∧ w₄.manager.pools ⟨mid, pathUsdAddress⟩ = ⟨0, 2000⟩ ∧
      w₄.manager.pendingFeeSwapReservation ⟨mid, pathUsdAddress⟩ = 994 ∧
      (Runs settlement w₄ ∨ ∃ e w₅,
        (onTip20 fee (Tip20.transferFeePostTx env fee payer 400 600)).run w₄ =
          .error e w₅ ∧ settlement.run w₄ = .error e w₅ ∧ (e = .tipFeeAMM .insufficientLiquidity →
          env.refundSpendingLimit payer fee 400 = .error e)) := by
  intro fee mid provider payer beneficiary env tokens w₁ w₂ w₃ w₄ settlement
  have henv : env.AcceptsFees := fun _ _ _ h => by cases h
  have hconserved : ∀ t, (tokens.tokens t).Conserved := by
    intro t
    simp only [tokens, update_apply]
    split_ifs
    · exact Token.endowed_conserved _ _ (by decide)
    · exact Token.endowed_conserved _ _ (by decide)
    · exact Token.endowed_conserved _ _ (by decide)
    · exact Token.blank_conserved
  have hcall {w : FeeWorld} (c : FeeCall) (hc : c.External)
      (h : succeeds (c.exec env beneficiary) w = true) :
      BodyStep beneficiary w (finalState (c.exec env beneficiary) w) :=
    .call (by decide) henv hc (yields_finalState h)
  have hprovider : provider ≠ tipFeeManagerAddress := by decide
  have hrun : ReflTransGen TxStep ⟨⟨tokens, .empty⟩, none⟩ ⟨w₂, none⟩ := (ReflTransGen.single
      (.body nofun (hcall (.mint provider fee mid 10000 provider) hprovider (by decide)))).tail
      (.body nofun (hcall (.mint provider mid pathUsdAddress 10000 provider) hprovider (by decide)))
  have hsettles := @TxState.reserved_fee_settles tokens w₂ w₃ w₄
    ⟨payer, fee, 1000, beneficiary⟩ env env _ 600 400 hconserved hrun (by decide) (by decide)
    (exists_yields_finalState (by decide)).choose_spec
    (.single (hcall (.burn provider mid pathUsdAddress 4000 provider) trivial (by decide))) rfl
  exact ⟨by decide, by decide, by decide, hsettles⟩

end Tempo
