/-
Solvency of the fee manager.  One token account backs all pools, the accrued
fees and the fee of the transaction in progress; every call changes these
books by no more than what it moves.
-/
import Tempo.FeeManager.Effects

namespace Tempo

open Finset TipFeeManager TokenWorld Relation Function

variable {env : Env} {w w' : FeeWorld} {validator beneficiary : Address}

instance : Finite PoolKey :=
  Finite.of_injective (fun k => (k.userToken, k.validatorToken)) (by
    rintro ⟨a, b⟩ ⟨c, d⟩ h
    simpa using h)

noncomputable instance poolKeyFintype : Fintype PoolKey :=
  Fintype.ofFinite PoolKey

namespace FeeManager

/-- What a pool holds of token `t`. -/
def held (t : Address) (key : PoolKey) (pool : Pool) : Nat :=
  (if key.userToken = t then pool.reserveUserToken else 0) +
    if key.validatorToken = t then pool.reserveValidatorToken else 0

/-- Everything the manager owes in token `t`, the pending fee aside. -/
noncomputable def books (m : FeeManager) (t : Address) : Nat :=
  ∑ key, held t key (m.pools key) + ∑ v, m.collectedFees v t

variable (m : FeeManager) (t : Address)

@[simp]
theorem books_putTotalSupply (key : PoolKey) (value : Nat) :
    (m.putTotalSupply key value).books t = m.books t := rfl

@[simp]
theorem books_putLiquidityBalance (key : PoolKey) (user : Address) (value : Nat) :
    (m.putLiquidityBalance key user value).books t = m.books t := rfl

theorem books_putPool (key : PoolKey) (pool : Pool) :
    (m.putPool key pool).books t + held t key (m.pools key) = m.books t + held t key pool := by
  have h := sum_update (held t) m.pools key pool
  simp only [books, putPool]
  omega

theorem books_putFees (validator token : Address) (amount : Nat) :
    (putFees m validator token amount).books t + due token (m.collectedFees validator token) t =
      m.books t + due token amount t := by
  have h := sum_update (fun _ (f : Address → Nat) => f t) m.collectedFees
    validator (update (m.collectedFees validator) token amount)
  have hentry : update (m.collectedFees validator) token amount t +
      due token (m.collectedFees validator token) t =
      m.collectedFees validator t + due token amount t := by
    unfold due
    by_cases ht : t = token
    · subst ht
      simp [add_comm]
    · simp [ht]
  simp only [books, putFees]
  omega

end FeeManager

namespace TipFeeManager

open TokenWorld (Moves due managed)

open FeeManager (books held)

/-- Changing the reserves of one pool by the given receipts and payments. -/
theorem books_exchange (m : FeeManager) (t user validator : Address)
    {reserveU reserveV : Nat} (inU outU inV outV : Nat) (hu : reserveU + outU =
      (m.pools ⟨user, validator⟩).reserveUserToken + inU) (hv : reserveV + outV =
      (m.pools ⟨user, validator⟩).reserveValidatorToken + inV) :
    (m.putPool ⟨user, validator⟩ ⟨reserveU, reserveV⟩).books t +
        (due user outU t + due validator outV t) =
      m.books t + (due user inU t + due validator inV t) := by
  have h := m.books_putPool t ⟨user, validator⟩ ⟨reserveU, reserveV⟩
  simp only [held] at h
  unfold due
  simp only [eq_comm (a := t)]
  split_ifs at h ⊢ <;> omega

/-- A fee swap moves value between the books of its two tokens. -/
theorem executeFeeSwap_books {user : Address} {amountIn out : Nat}
    (h : Yields (executeFeeSwap user validator amountIn) w out w') (t : Address) :
    w'.manager.books t + due validator out t = w.manager.books t + due user amountIn t := by
  obtain ⟨_, hle, rfl⟩ := executeFeeSwap_yields h
  have hbooks := books_exchange w.manager t user validator amountIn 0 0 out
    (add_zero _) (Nat.sub_add_cancel hle)
  simpa only [due, ite_self, zero_add, add_zero] using hbooks

/-- Settling a fee credits the validator with no more than was spent. -/
theorem settleFee_books {fee hop : Address} {actual amount : Nat}
    (h : Yields (settleFee fee validator hop actual) w amount w') (t : Address) :
    w'.tokens = w.tokens ∧ w'.manager.books t + due validator amount t ≤
        w.manager.books t + due fee actual t := by
  unfold settleFee at h
  split at h
  · rename_i hsame
    obtain ⟨rfl, rfl⟩ := h.pure
    rw [hsame]
    exact ⟨rfl, le_rfl⟩
  split at h
  · split at h
    · obtain ⟨out, w1, hswap, h⟩ := h.bind
      simp only [yields_orFail, computeAmountOut_eq_some] at h
      obtain ⟨⟨_, rfl⟩, rfl⟩ := h
      have hbooks := executeFeeSwap_books hswap t
      obtain ⟨rfl, _, rfl⟩ := executeFeeSwap_yields hswap
      exact ⟨rfl, hbooks.le⟩
    · rename_i hzero
      simp only [yields_orFail, computeAmountOut_eq_some] at h
      obtain ⟨⟨_, rfl⟩, rfl⟩ := h
      obtain rfl := not_not.mp hzero
      exact ⟨rfl, by simp [due]⟩
  · split at h
    · obtain ⟨out, w1, hswap, h⟩ := h.bind
      obtain ⟨out', w2, hswap', h⟩ := h.bind
      simp only [yields_steps, computeAmountOut_eq_some] at h
      obtain ⟨_, ⟨_, rfl⟩, ⟨_, rfl⟩, rfl⟩ := h
      have hbooks := executeFeeSwap_books hswap t
      have hbooks' := executeFeeSwap_books hswap' t
      obtain ⟨rfl, _, rfl⟩ := executeFeeSwap_yields hswap
      obtain ⟨rfl, _, rfl⟩ := executeFeeSwap_yields hswap'
      refine ⟨rfl, ?_⟩
      omega
    · rename_i hzero
      simp only [yields_steps, computeAmountOut_eq_some] at h
      obtain ⟨_, ⟨_, rfl⟩, ⟨_, rfl⟩, rfl⟩ := h
      obtain rfl := not_not.mp hzero
      exact ⟨rfl, by simp [due]⟩

end TipFeeManager

/-- Calls a transaction can make on the fee manager. -/
inductive FeeCall where
  | mint (sender user validator : Address) (amount : Nat) (to' : Address)
  | burn (sender user validator : Address) (liquidity : Nat) (to' : Address)
  | rebalanceSwap (sender user validator : Address) (amountOut : Nat) (to' : Address)
  | distributeFees (validator token : Address)
  | setValidatorToken (sender token : Address)
  | setUserToken (sender token : Address)

namespace FeeCall

/-- The call in a block produced by `beneficiary`. -/
def exec (env : Env) (beneficiary : Address) : FeeCall → Exec FeeWorld Unit
  | .mint sender user validator amount to' => do
    let _ ← TipFeeManager.mint env sender user validator amount to'
    pure ()
  | .burn sender user validator liquidity to' => do
    let _ ← TipFeeManager.burn env sender user validator liquidity to'
    pure ()
  | .rebalanceSwap sender user validator amountOut to' => do
    let _ ← TipFeeManager.rebalanceSwap env sender user validator amountOut to'
    pure ()
  | .distributeFees validator token =>
    TipFeeManager.distributeFees env validator token
  | .setValidatorToken sender token =>
    TipFeeManager.setValidatorToken sender token beneficiary
  | .setUserToken sender token => TipFeeManager.setUserToken env sender token

/-- The manager makes no deposits into its own pools. -/
def External : FeeCall → Prop
  | .mint sender _ _ _ _ | .rebalanceSwap sender _ _ _ _ =>
    sender ≠ tipFeeManagerAddress
  | _ => True

end FeeCall

/-- Every token covers the books and what is pending on top of them. -/
structure Solvent (w : FeeWorld) (pending : Address → Nat) : Prop where
  covers : ∀ t, w.manager.books t + pending t ≤ w.tokens.managed t

/-- A state stays solvent when the books grow by no more than what moves. -/
theorem Solvent.step {pending pending' ins outs : Address → Nat} (h : Solvent w pending)
    (hmoves : TokenWorld.Moves w.tokens w'.tokens ins outs)
    (hbooks : ∀ t, w'.manager.books t + pending' t + outs t ≤
      w.manager.books t + pending t + ins t) : Solvent w' pending' := by
  refine ⟨fun t => ?_⟩
  have hbalance := hmoves.balance t
  have hsolvent := h.covers t
  have hstep := hbooks t
  omega

/-- What any call within a transaction leaves as it is: solvency and
conservation, the reservations and their cover, the beneficiary's token. -/
structure FeeCall.Keeps (beneficiary : Address) (w w' : FeeWorld) : Prop where
  solvent : ∀ pending, Solvent w pending → Solvent w' pending
  conserved : (∀ t, (w.tokens.tokens t).Conserved) → ∀ t, (w'.tokens.tokens t).Conserved
  reservations : w'.manager.pendingFeeSwapReservation = w.manager.pendingFeeSwapReservation
  hop : w'.manager.twoHopIntermediate = w.manager.twoHopIntermediate
  covered : ∀ key, w.manager.pendingFeeSwapReservation key ≤
      (w.manager.pools key).reserveValidatorToken → w'.manager.pendingFeeSwapReservation key ≤
      (w'.manager.pools key).reserveValidatorToken
  preferred : TipFeeManager.preferredToken w'.manager beneficiary =
    TipFeeManager.preferredToken w.manager beneficiary

namespace TipFeeManager

open TokenWorld (Moves due managed)

variable {u : Unit} (beneficiary : Address)

/-- Rewriting one pool keeps the cover of all reservations if it keeps its
own. -/
theorem covered_putPool {m : FeeManager} {key0 : PoolKey} {pool : Pool}
    (hpool : m.pendingFeeSwapReservation key0 ≤ (m.pools key0).reserveValidatorToken →
      m.pendingFeeSwapReservation key0 ≤ pool.reserveValidatorToken)
    (key : PoolKey) (h : m.pendingFeeSwapReservation key ≤ (m.pools key).reserveValidatorToken) :
    m.pendingFeeSwapReservation key ≤ ((m.putPool key0 pool).pools key).reserveValidatorToken := by
  unfold FeeManager.putPool
  by_cases hkey : key = key0
  · subst hkey
    simpa using hpool h
  · simpa [hkey] using h

variable {sender : Address} {user to' token : Address} {liquidity : Nat}

theorem mint_keeps {amount : Nat} (henv : env.AcceptsFees) (hsender : sender ≠ tipFeeManagerAddress)
    (h : Yields (mint env sender user validator amount to') w liquidity w') :
    FeeCall.Keeps beneficiary w w' := by
  obtain ⟨_, _, _, supply, _, hmanager, hpull⟩ := mint_yields h
  have hmoves := hpull henv hsender
  refine ⟨fun pending hs => hs.step hmoves fun t => ?_, hmoves.conserved,
    by rw [hmanager]; rfl, by rw [hmanager]; rfl, fun key hkey => ?_,
    by rw [hmanager]; rfl⟩
  · have hbooks := books_exchange w.manager t user validator 0 0 amount 0
      rfl (add_zero (_ + amount))
    rw [hmanager, FeeManager.books_putLiquidityBalance, FeeManager.books_putTotalSupply]
    omega
  · rw [hmanager]
    exact covered_putPool (fun h => h.trans (Nat.le_add_right _ _)) key hkey

theorem burn_keeps {amounts : Nat × Nat} (hspec : .t1c ≤ env.spec)
    (h : Yields (burn env sender user validator liquidity to') w amounts w') :
    FeeCall.Keeps beneficiary w w' := by
  obtain ⟨_, _, _, _, _, hu, hv, hkept, hmanager, hmoves⟩ := burn_yields h
  refine ⟨fun pending hs => hs.step hmoves fun t => ?_, hmoves.conserved,
    by rw [hmanager]; rfl, by rw [hmanager]; rfl, fun key hkey => ?_,
    by rw [hmanager]; rfl⟩
  · have hbooks := books_exchange w.manager t user validator 0 amounts.1 0
      amounts.2 (Nat.sub_add_cancel hu) (Nat.sub_add_cancel hv)
    rw [hmanager]
    change (w.manager.putPool ⟨user, validator⟩ _).books t + _ + _ ≤ _
    simp only [due, ite_self, add_zero] at hbooks ⊢
    omega
  · rw [hmanager]
    exact covered_putPool (fun _ => hkept hspec) key hkey

theorem rebalanceSwap_keeps {amountOut amountIn : Nat} (henv : env.AcceptsFees)
    (hsender : sender ≠ tipFeeManagerAddress)
    (h : Yields (rebalanceSwap env sender user validator amountOut to')
      w amountIn w') : FeeCall.Keeps beneficiary w w' := by
  obtain ⟨_, _, hle, hmanager, hswap⟩ := rebalanceSwap_yields h
  have hmoves := hswap henv hsender
  refine ⟨fun pending hs => hs.step hmoves fun t => ?_, hmoves.conserved,
    by rw [hmanager]; rfl, by rw [hmanager]; rfl, fun key hkey => ?_,
    by rw [hmanager]; rfl⟩
  · have hbooks := books_exchange w.manager t user validator 0 amountOut
      amountIn 0 (Nat.sub_add_cancel hle) (add_zero (_ + amountIn))
    rw [hmanager]
    simp only [due, ite_self, zero_add, add_zero] at hbooks ⊢
    omega
  · rw [hmanager]
    exact covered_putPool (fun h => h.trans (Nat.le_add_right _ _)) key hkey

theorem distributeFees_keeps (h : Yields (distributeFees env validator token) w u w') :
    FeeCall.Keeps beneficiary w w' := by
  obtain ⟨hmanager, hmoves⟩ := distributeFees_yields h
  refine ⟨fun pending hs => hs.step hmoves fun t => ?_, hmoves.conserved,
    by rw [hmanager]; rfl, by rw [hmanager]; rfl, fun key hkey => ?_,
    by rw [hmanager]; rfl⟩
  · have hbooks := w.manager.books_putFees t validator token 0
    rw [hmanager]
    omega
  · rw [hmanager]
    exact hkey

theorem setValidatorToken_keeps (h : Yields (setValidatorToken sender token beneficiary) w u w') :
    FeeCall.Keeps beneficiary w w' := by
  obtain ⟨hne, rfl⟩ := setValidatorToken_yields h
  refine ⟨fun _ hs => ⟨hs.covers⟩, fun hc => hc, rfl, rfl, fun _ hkey => hkey, ?_⟩
  simp [preferredToken, hne.symm]

theorem setUserToken_keeps (h : Yields (setUserToken env sender token) w u w') :
    FeeCall.Keeps beneficiary w w' := by
  obtain rfl | ⟨_, rfl⟩ := setUserToken_yields h
  · exact ⟨fun _ hs => hs, fun hc => hc, rfl, rfl, fun _ hkey => hkey, rfl⟩
  · exact ⟨fun _ hs => ⟨hs.covers⟩, fun hc => hc, rfl, rfl, fun _ hkey => hkey, rfl⟩

end TipFeeManager

/-- Every call within a transaction keeps what the settlement relies on. -/
theorem FeeCall.exec_keeps {env : Env} {c : FeeCall} {u : Unit}
    (hspec : .t1c ≤ env.spec) (henv : env.AcceptsFees) (hc : c.External)
    (h : Yields (c.exec env beneficiary) w u w') : Keeps beneficiary w w' := by
  cases c with
  | mint =>
    obtain ⟨_, hrun⟩ := Yields.of_bind_pure h
    exact mint_keeps beneficiary henv hc hrun
  | burn =>
    obtain ⟨_, hrun⟩ := Yields.of_bind_pure h
    exact burn_keeps beneficiary hspec hrun
  | rebalanceSwap =>
    obtain ⟨_, hrun⟩ := Yields.of_bind_pure h
    exact rebalanceSwap_keeps beneficiary henv hc hrun
  | distributeFees =>
    exact distributeFees_keeps beneficiary h
  | setValidatorToken =>
    exact setValidatorToken_keeps beneficiary h
  | setUserToken => exact setUserToken_keeps beneficiary h

/-- A fee collected in advance and not yet settled. -/
structure Inflight where
  feePayer : Address
  feeToken : Address
  maxAmount : Nat
  beneficiary : Address

/-- The fee manager between or within transactions. -/
structure TxState where
  world : FeeWorld
  inflight : Option Inflight

/-- The prepaid fee of the transaction in progress. -/
def TxState.pending (s : TxState) : Address → Nat :=
  match s.inflight with
  | none => fun _ => 0
  | some f => TokenWorld.due f.feeToken f.maxAmount

/-- What the body of a transaction can do: calls on the manager, and other
activity on the tokens, free except that only the manager can lower its own
balances. -/
inductive BodyStep (beneficiary : Address) : FeeWorld → FeeWorld → Prop where
  | call {env : Env} {c : FeeCall} {w w' : FeeWorld}
      (hspec : .t1c ≤ env.spec) (henv : env.AcceptsFees) (hc : c.External)
      (h : Yields (c.exec env beneficiary) w () w') :
      BodyStep beneficiary w w'
  | transfers {w : FeeWorld} {tokens : TokenWorld}
      (h : TokenWorld.Moves w.tokens tokens (fun _ => 0) (fun _ => 0)) :
      BodyStep beneficiary w { w with tokens }

variable {s s' : TxState}

/-- The protocol of a transaction: the fee is collected, the body runs, the
fee is settled.  Steps outside a transaction are those of transactions
without a fee. -/
inductive TxStep : TxState → TxState → Prop where
  | pre {env : Env} {w w' : FeeWorld} {f : Inflight} {skip : Bool}
      {token : Address} (hspec : .t1c ≤ env.spec) (hpayer : f.feePayer ≠ tipFeeManagerAddress)
      (h : Yields (do
        TipFeeManager.beginTx
        TipFeeManager.collectFeePreTx env f.feePayer f.feeToken f.maxAmount
          f.beneficiary skip) w token w') :
      TxStep ⟨w, none⟩ ⟨w', some f⟩
  | body {beneficiary : Address} {w w' : FeeWorld} {inflight : Option Inflight}
      (hbeneficiary : ∀ f ∈ inflight, f.beneficiary = beneficiary)
      (h : BodyStep beneficiary w w') : TxStep ⟨w, inflight⟩ ⟨w', inflight⟩
  | post {env : Env} {w w' : FeeWorld} {f : Inflight}
      {actual refund amount : Nat} (hsum : actual + refund = f.maxAmount)
      (h : Yields (TipFeeManager.collectFeePostTx env f.feePayer actual refund
        f.feeToken f.beneficiary) w amount w') :
      TxStep ⟨w, some f⟩ ⟨w', none⟩

namespace TipFeeManager

open TokenWorld (Moves due managed)

variable {feePayer : Address}

/-- The prepaid fee is with the manager and the books are as before. -/
theorem collectFeePreTx_moves {user a : Address} {amount : Nat} {skip : Bool}
    (hspec : .t1c ≤ env.spec) (hpayer : feePayer ≠ tipFeeManagerAddress)
    (h : Yields (do
      beginTx
      collectFeePreTx env feePayer user amount beneficiary skip) w a w') :
    Moves w.tokens w'.tokens (due user amount) (due user 0) ∧
      ∀ t, w'.manager.books t = w.manager.books t := by
  rw [beginTx, FeeWorld.write, yields_updates_bind] at h
  obtain ⟨_, _, _, hmoves, hmanager⟩ := collectFeePreTx_yields hspec hpayer h
  refine ⟨hmoves, fun t => ?_⟩
  rcases hmanager with ⟨_, hmanager⟩ | ⟨route, _, hmanager⟩
  · rw [hmanager]
    rfl
  · rw [hmanager]
    cases route <;> rfl

/-- Settlement pays the refund and keeps at least what it credits. -/
theorem collectFeePostTx_moves {fee : Address} {actual refund amount : Nat}
    (h : Yields (collectFeePostTx env feePayer actual refund fee beneficiary) w amount w') :
    Moves w.tokens w'.tokens (due fee 0) (due fee refund) ∧
      ∀ t, w'.manager.books t ≤ w.manager.books t + due fee actual t := by
  obtain ⟨w1, w2, hmanager, hmoves, hsettle, rfl⟩ := collectFeePostTx_yields h
  have htokens := (settleFee_books hsettle fee).1
  refine ⟨htokens ▸ hmoves, fun t => ?_⟩
  have hbooks := (settleFee_books hsettle t).2
  have hfees := w2.manager.books_putFees t beneficiary (preferredToken w.manager beneficiary)
    (w2.manager.collectedFees beneficiary (preferredToken w.manager beneficiary) + amount)
  rw [hmanager] at hbooks
  simp only [due] at hbooks hfees ⊢
  split_ifs at hbooks hfees ⊢ <;> omega

end TipFeeManager

theorem BodyStep.keeps (h : BodyStep beneficiary w w') : FeeCall.Keeps beneficiary w w' := by
  cases h with
  | call hspec henv hc hcall => exact FeeCall.exec_keeps hspec henv hc hcall
  | transfers hmoves =>
    exact ⟨fun _ hs => hs.step hmoves fun _ => le_rfl,
      hmoves.conserved, rfl, rfl, fun _ hkey => hkey, rfl⟩

theorem TxStep.solvent (hstep : TxStep s s')
    (h : Solvent s.world s.pending) : Solvent s'.world s'.pending := by
  cases hstep with
  | pre hspec hpayer hpre =>
    obtain ⟨hmoves, hbooks⟩ := collectFeePreTx_moves hspec hpayer hpre
    refine h.step hmoves fun t => ?_
    simp [TxState.pending, hbooks t, due]
  | body _ hbody => exact hbody.keeps.solvent _ h
  | @post _ _ _ f actual refund _ hsum hpost =>
    obtain ⟨hmoves, hbooks⟩ := collectFeePostTx_moves hpost
    refine h.step hmoves fun t => ?_
    have ht := hbooks t
    simp only [TxState.pending, due] at ht ⊢
    split_ifs at ht ⊢ <;> omega

theorem TxStep.conserved (hstep : TxStep s s')
    (h : ∀ t, (s.world.tokens.tokens t).Conserved) : ∀ t, (s'.world.tokens.tokens t).Conserved := by
  cases hstep with
  | pre hspec hpayer hpre =>
    exact (collectFeePreTx_moves hspec hpayer hpre).1.conserved h
  | body _ hbody => exact hbody.keeps.conserved h
  | post _ hpost =>
    exact (collectFeePostTx_moves hpost).1.conserved h

theorem Solvent.empty (tokens : TokenWorld) : Solvent ⟨tokens, .empty⟩ fun _ => 0 := by
  refine ⟨fun t => ?_⟩
  simp [FeeManager.books, FeeManager.empty, FeeManager.held]

/-- Solvency holds all along. -/
theorem TxState.run_solvent {tokens : TokenWorld}
    (hrun : ReflTransGen TxStep ⟨⟨tokens, .empty⟩, none⟩ s) : Solvent s.world s.pending := by
  refine run_invariant (I := fun s => Solvent s.world s.pending) ?_ hrun ?_
  · intro _ _ h hstep
    exact hstep.solvent h
  · exact Solvent.empty tokens

/-- At every point of every sequence of transactions, the manager's balance
of a token covers the reserves of all pools in it, the fees accrued in it and
the fee prepaid in it. -/
theorem TxState.feeManager_solvent {tokens : TokenWorld} {s : TxState}
    (hrun : ReflTransGen TxStep ⟨⟨tokens, .empty⟩, none⟩ s) (t : Address) :
    (∑ key : PoolKey, if key.userToken = t then
        (s.world.manager.pools key).reserveUserToken else 0) +
      (∑ key : PoolKey, if key.validatorToken = t then
        (s.world.manager.pools key).reserveValidatorToken else 0) +
      ∑ v, s.world.manager.collectedFees v t +
      (match s.inflight with
        | none => 0
        | some f => if t = f.feeToken then f.maxAmount else 0) ≤
      (s.world.tokens.tokens t).balances tipFeeManagerAddress := by
  have h := (TxState.run_solvent hrun).covers t
  simp only [FeeManager.books, FeeManager.held, sum_add_distrib] at h
  refine le_trans (le_of_eq (congrArg _ ?_)) h
  unfold TxState.pending
  cases s.inflight <;> rfl

/-- A provider funds a pool, a payer prepays 1000 of which 600 are spent:
the validator is credited 598 and the books balance to the last unit. -/
theorem TxState.feeManager_solvent_settled :
    let fee : Address := .newTip20 1
    let provider : Address := ⟨1⟩
    let payer : Address := ⟨2⟩
    let beneficiary : Address := ⟨3⟩
    let env := Env.permissive .t5
    let tokens : TokenWorld := { empty with
      tokens := update (update (fun _ => Token.blank)
        pathUsdAddress (Token.endowed 0 provider 10000))
        fee (Token.endowed pathUsdAddress payer 5000) }
    let w₁ := finalState (FeeCall.exec env beneficiary
      (.mint provider fee pathUsdAddress 10000 provider)) ⟨tokens, .empty⟩
    let w₂ := finalState (do
      beginTx
      collectFeePreTx env payer fee 1000 beneficiary false) w₁
    let w₃ := finalState (collectFeePostTx env payer 600 400 fee beneficiary) w₂
    w₃.manager.collectedFees beneficiary pathUsdAddress = 598 ∧
      w₃.manager.pools ⟨fee, pathUsdAddress⟩ = ⟨600, 9402⟩ ∧
      (∑ key : PoolKey, if key.userToken = pathUsdAddress then
          (w₃.manager.pools key).reserveUserToken else 0) +
        (∑ key : PoolKey, if key.validatorToken = pathUsdAddress then
          (w₃.manager.pools key).reserveValidatorToken else 0) +
        ∑ v, w₃.manager.collectedFees v pathUsdAddress + 0 ≤ 10000 := by
  intro fee provider payer beneficiary env tokens w₁ w₂ w₃
  have henv : env.AcceptsFees := fun _ _ _ h => by cases h
  have hprovider : provider ≠ tipFeeManagerAddress := by decide
  let f : Inflight := ⟨payer, fee, 1000, beneficiary⟩
  have hrun : ReflTransGen TxStep ⟨⟨tokens, .empty⟩, none⟩ ⟨w₃, none⟩ :=
    ReflTransGen.refl
    |>.tail (.body nofun (.call (c := .mint provider fee pathUsdAddress 10000 provider)
      (by decide) henv hprovider (yields_finalState (by decide))))
    |>.tail (.pre (f := f) (by decide) (by decide)
      (exists_yields_finalState (by decide)).choose_spec)
    |>.tail (.post (f := f) rfl (exists_yields_finalState (by decide)).choose_spec)
  have h := TxState.feeManager_solvent hrun pathUsdAddress
  exact ⟨by decide, by decide, h.trans (by decide)⟩

end Tempo
