/-
The shape of a fee-AMM pool: untouched, or with the locked minimum on top of
all shares and at least one reserve.  A fee swap of a single unit yields no
output and so goes through on an empty pool; runs without such dust swaps
keep the shape.
-/
import Tempo.FeeManager.Solvency

namespace Tempo

open Finset Relation Function

variable {key : PoolKey} {env : Env} {w w' : FeeWorld}

namespace FeeManager

/-- Never deposited into. -/
structure Untouched (m : FeeManager) (key : PoolKey) : Prop where
  reserves : m.pools key = ⟨0, 0⟩
  supply : m.totalSupply key = 0
  shares : ∀ a, m.liquidityBalances key a = 0

/-- Deposited into: the minimum is locked and a reserve is left. -/
structure Initialised (m : FeeManager) (key : PoolKey) : Prop where
  reserves : m.pools key ≠ ⟨0, 0⟩
  supply : m.totalSupply key = minLiquidity + ∑ a, m.liquidityBalances key a

def Shaped (m : FeeManager) (key : PoolKey) : Prop :=
  m.Untouched key ∨ m.Initialised key

variable {m m' : FeeManager}

/-- The shape of a pool depends on nothing else. -/
structure SamePool (m m' : FeeManager) (key : PoolKey) : Prop where
  pools : m'.pools key = m.pools key
  supply : m'.totalSupply key = m.totalSupply key
  shares : m'.liquidityBalances key = m.liquidityBalances key

theorem Initialised.of_same (h : m.Initialised key)
    (hsame : SamePool m m' key) : m'.Initialised key := by
  refine ⟨?_, ?_⟩
  · rw [hsame.pools]
    exact h.reserves
  · rw [hsame.supply, hsame.shares]
    exact h.supply

theorem Untouched.of_same (h : m.Untouched key) (hsame : SamePool m m' key) : m'.Untouched key := by
  refine ⟨hsame.pools.trans h.reserves, hsame.supply.trans h.supply, ?_⟩
  intro a
  rw [hsame.shares]
  exact h.shares a

theorem sum_putLiquidityBalance (m : FeeManager) (key : PoolKey) (a : Address) (value : Nat) :
    ∑ b, (m.putLiquidityBalance key a value).liquidityBalances key b + m.liquidityBalances key a =
      ∑ b, m.liquidityBalances key b + value := by
  have h := sum_update (fun _ x => x) (m.liquidityBalances key) a value
  simpa [putLiquidityBalance] using h

end FeeManager

namespace TipFeeManager

open FeeManager

/-- What a step does to a pool: nothing that breaks its shape, and nothing
that empties it once it is initialised. -/
structure KeepsShape (w w' : FeeWorld) (key : PoolKey) : Prop where
  untouched : w.manager.Untouched key → w'.manager.Shaped key
  initialised : w.manager.Initialised key → w'.manager.Initialised key

theorem KeepsShape.of_same (h : SamePool w.manager w'.manager key) :
    KeepsShape w w' key := ⟨fun hu => .inl (hu.of_same h), fun hi => hi.of_same h⟩

variable {sender user validator to' : Address} {liquidity : Nat} {amount amountIn : Nat}

/-- The first deposit initialises a pool, later ones keep it so. -/
theorem mint_initialises (hshape : w.manager.Shaped ⟨user, validator⟩)
    (h : Yields (mint env sender user validator amount to') w liquidity w') :
    w'.manager.Initialised ⟨user, validator⟩ := by
  obtain ⟨_, hamount, _, supply, hminted, hmanager, _⟩ := mint_yields h
  have hsum := sum_putLiquidityBalance w.manager ⟨user, validator⟩ to'
    (w.manager.liquidityBalances ⟨user, validator⟩ to' + liquidity)
  refine ⟨?_, ?_⟩
  · rw [hmanager]
    simp [putLiquidityBalance, putTotalSupply, putPool, hamount]
  · have hsupply : supply = minLiquidity +
        ∑ a, w.manager.liquidityBalances ⟨user, validator⟩ a := by
      unfold Minted at hminted
      rcases hshape with hu | hi
      · rw [hu.reserves, if_pos ⟨rfl, rfl⟩, hu.supply] at hminted
        simp only [hu.shares, sum_const_zero]
        omega
      · rw [if_neg] at hminted
        · exact hminted.2.trans hi.supply
        · exact fun hzero => hi.reserves (Pool.ext hzero.1 hzero.2)
    have htotal : w'.manager.totalSupply ⟨user, validator⟩ = supply + liquidity := by
      rw [hmanager]
      simp [putLiquidityBalance, putTotalSupply]
    have hshares : w'.manager.liquidityBalances ⟨user, validator⟩ =
        (w.manager.putLiquidityBalance ⟨user, validator⟩ to'
          (w.manager.liquidityBalances ⟨user, validator⟩ to' +
            liquidity)).liquidityBalances ⟨user, validator⟩ := by
      rw [hmanager]
      rfl
    rw [htotal, hshares]
    omega

theorem mint_keepsShape (h : Yields (mint env sender user validator amount to') w liquidity w') :
    KeepsShape w w' key := by
  by_cases hkey : key = ⟨user, validator⟩
  · subst hkey
    exact ⟨fun hu => .inr (mint_initialises (.inl hu) h), fun hi => mint_initialises (.inr hi) h⟩
  · obtain ⟨_, _, _, supply, _, hmanager, _⟩ := mint_yields h
    refine .of_same ⟨?_, ?_, ?_⟩ <;> rw [hmanager] <;>
      simp [putLiquidityBalance, putTotalSupply, putPool, hkey]

/-- Less than the whole supply withdraws less than a whole reserve. -/
theorem share_lt {supply reserve : Nat} (h : liquidity < supply)
    (hreserve : reserve ≠ 0) : liquidity * reserve / supply < reserve := by
  refine Nat.div_lt_of_lt_mul ?_
  exact Nat.mul_lt_mul_of_pos_right h (Nat.pos_of_ne_zero hreserve)

/-- A holder's shares leave the locked minimum in the supply. -/
theorem Initialised.shares_le (h : w.manager.Initialised key) (a : Address) :
    w.manager.liquidityBalances key a + minLiquidity ≤ w.manager.totalSupply key := by
  have hentry := le_sum_entry (w.manager.liquidityBalances key) a
  have hsupply := h.supply
  omega

theorem burn_keepsShape {amounts : Nat × Nat}
    (h : Yields (burn env sender user validator liquidity to') w amounts w') :
    KeepsShape w w' key := by
  obtain ⟨hne, hheld, hsupply, hu, hv, _, _, _, hmanager, _⟩ := burn_yields h
  by_cases hkey : key = ⟨user, validator⟩
  · subst hkey
    refine ⟨fun hun => ?_, fun hi => ⟨?_, ?_⟩⟩
    · rw [hun.shares] at hheld
      omega
    · have hlocked := Initialised.shares_le hi sender
      have hless : liquidity < w.manager.totalSupply ⟨user, validator⟩ := by
        unfold minLiquidity at hlocked
        omega
      rw [hmanager]
      intro hempty
      have hpool : (⟨(w.manager.pools ⟨user, validator⟩).reserveUserToken - amounts.1,
          (w.manager.pools ⟨user, validator⟩).reserveValidatorToken -
            amounts.2⟩ : Pool) = ⟨0, 0⟩ := by
        simpa [putPool] using hempty
      obtain ⟨hu0, hv0⟩ := Pool.mk.inj hpool
      refine hi.reserves (Pool.ext ?_ ?_)
      · by_contra hzero
        have := share_lt hless hzero
        omega
      · by_contra hzero
        have := share_lt hless hzero
        omega
    · have hsum := sum_putLiquidityBalance w.manager ⟨user, validator⟩ sender
        (w.manager.liquidityBalances ⟨user, validator⟩ sender - liquidity)
      have htotal : w'.manager.totalSupply ⟨user, validator⟩ =
          w.manager.totalSupply ⟨user, validator⟩ - liquidity := by
        rw [hmanager]
        simp [putTotalSupply, putPool]
      have hshares : w'.manager.liquidityBalances ⟨user, validator⟩ =
          (w.manager.putLiquidityBalance ⟨user, validator⟩ sender
            (w.manager.liquidityBalances ⟨user, validator⟩ sender -
              liquidity)).liquidityBalances ⟨user, validator⟩ := by
        rw [hmanager]
        rfl
      have hbefore := hi.supply
      rw [htotal, hshares]
      omega
  · refine .of_same ⟨?_, ?_, ?_⟩ <;> rw [hmanager] <;>
      simp [putLiquidityBalance, putTotalSupply, putPool, hkey]

theorem rebalanceSwap_keepsShape {amountOut : Nat}
    (h : Yields (rebalanceSwap env sender user validator amountOut to')
      w amountIn w') : KeepsShape w w' key := by
  obtain ⟨hne, hin, hle, hmanager, _⟩ := rebalanceSwap_yields h
  by_cases hkey : key = ⟨user, validator⟩
  · subst hkey
    refine ⟨fun hu => ?_, fun hi => ⟨?_, ?_⟩⟩
    · rw [hu.reserves] at hle
      exact absurd (Nat.le_zero.mp hle) hne
    · rw [hmanager]
      simp [putPool, hin]
    · rw [hmanager]
      exact hi.supply
  · refine .of_same ⟨?_, ?_, ?_⟩ <;> rw [hmanager] <;> simp [putPool, hkey]

/-- A fee swap with nothing in the pool needs an output of zero. -/
theorem feeOut_eq_zero (h : feeOut amount ≤ 0) (hdust : amount ≠ 1) : amount = 0 := by
  unfold feeOut feeSwapRate scale at h
  omega

theorem executeFeeSwap_keepsShape {out : Nat}
    (hdust : ¬(amountIn = 1 ∧ w.manager.pools ⟨user, validator⟩ = ⟨0, 0⟩))
    (h : Yields (executeFeeSwap user validator amountIn) w out w') : KeepsShape w w' key := by
  obtain ⟨hout, hle, rfl⟩ := executeFeeSwap_yields h
  by_cases hkey : key = ⟨user, validator⟩
  · subst hkey
    refine ⟨fun hu => .inl ⟨?_, hu.supply, hu.shares⟩, fun hi => ⟨?_, hi.supply⟩⟩
    · rw [hu.reserves, hout] at hle
      have hzero := feeOut_eq_zero hle fun h => hdust ⟨h, hu.reserves⟩
      simp [putPool, hu.reserves, hzero]
    · intro hempty
      have hpool : (⟨(w.manager.pools ⟨user, validator⟩).reserveUserToken + amountIn,
          (w.manager.pools ⟨user, validator⟩).reserveValidatorToken - out⟩ : Pool) = ⟨0, 0⟩ := by
        simpa [putPool] using hempty
      obtain ⟨hu0, hv0⟩ := Pool.mk.inj hpool
      have hin : amountIn = 0 := by omega
      have hnone : out = 0 := by rw [hout, hin, zero_mul, Nat.zero_div]
      exact hi.reserves (Pool.ext (show _ = 0 by omega) (show _ = 0 by omega))
  · refine .of_same ⟨?_, rfl, rfl⟩
    simp [putPool, hkey]

end TipFeeManager

/-- What can happen to the pools: a call, a fee swap made by a settlement,
or a change elsewhere. -/
inductive PoolAction where
  | call (env : Env) (beneficiary : Address) (c : FeeCall)
  | feeSwap (user validator : Address) (amountIn : Nat)
  | elsewhere

inductive PoolStep : FeeWorld → PoolAction → FeeWorld → Prop where
  | call {env : Env} {beneficiary : Address} {c : FeeCall} {w w' : FeeWorld}
      (h : Yields (c.exec env beneficiary) w () w') :
      PoolStep w (.call env beneficiary c) w'
  | feeSwap {user validator : Address} {amountIn out : Nat} {w w' : FeeWorld}
      (h : Yields (TipFeeManager.executeFeeSwap user validator amountIn) w out w') :
      PoolStep w (.feeSwap user validator amountIn) w'
  | elsewhere {w w' : FeeWorld} (hpools : w'.manager.pools = w.manager.pools)
      (hsupply : w'.manager.totalSupply = w.manager.totalSupply)
      (hshares : w'.manager.liquidityBalances =
        w.manager.liquidityBalances) : PoolStep w .elsewhere w'

/-- Not a fee swap of one unit on a pool without reserves. -/
def PoolAction.DustFree (m : FeeManager) : PoolAction → Prop
  | .feeSwap user validator amountIn =>
    ¬(amountIn = 1 ∧ m.pools ⟨user, validator⟩ = ⟨0, 0⟩)
  | _ => True

/-- A step other than a dust swap. -/
def DustFreeStep (w w' : FeeWorld) : Prop :=
  ∃ action, PoolStep w action w' ∧ action.DustFree w.manager

namespace TipFeeManager

open FeeManager

theorem exec_keepsShape {beneficiary : Address} {c : FeeCall} {u : Unit}
    (h : Yields (c.exec env beneficiary) w u w') (key : PoolKey) : KeepsShape w w' key := by
  cases c with
  | mint =>
    obtain ⟨_, hrun⟩ := Yields.of_bind_pure h
    exact mint_keepsShape hrun
  | burn =>
    obtain ⟨_, hrun⟩ := Yields.of_bind_pure h
    exact burn_keepsShape hrun
  | rebalanceSwap =>
    obtain ⟨_, hrun⟩ := Yields.of_bind_pure h
    exact rebalanceSwap_keepsShape hrun
  | distributeFees =>
    obtain ⟨hmanager, _⟩ := distributeFees_yields h
    refine .of_same ⟨?_, ?_, ?_⟩ <;> rw [hmanager] <;> rfl
  | setValidatorToken =>
    obtain ⟨_, rfl⟩ := setValidatorToken_yields h
    exact .of_same ⟨rfl, rfl, rfl⟩
  | setUserToken =>
    obtain rfl | ⟨_, rfl⟩ := setUserToken_yields h
    · exact .of_same ⟨rfl, rfl, rfl⟩
    · exact .of_same ⟨rfl, rfl, rfl⟩

theorem dustFreeStep_keepsShape (h : DustFreeStep w w') (key : PoolKey) : KeepsShape w w' key := by
  obtain ⟨action, hstep, hdust⟩ := h
  cases hstep with
  | call hcall => exact exec_keepsShape hcall key
  | feeSwap hswap => exact executeFeeSwap_keepsShape hdust hswap
  | elsewhere hpools hsupply hshares =>
    exact .of_same ⟨congrFun hpools key, congrFun hsupply key, congrFun hshares key⟩

theorem run_shaped (hrun : ReflTransGen DustFreeStep w w')
    (key : PoolKey) (h : w.manager.Shaped key) : w'.manager.Shaped key :=
  run_invariant (I := fun w => w.manager.Shaped key)
    (fun _ _ h hstep => h.elim (dustFreeStep_keepsShape hstep key).untouched
      fun hi => .inr ((dustFreeStep_keepsShape hstep key).initialised hi)) hrun h

theorem run_initialised (hrun : ReflTransGen DustFreeStep w w')
    (key : PoolKey) (h : w.manager.Initialised key) :
    w'.manager.Initialised key := run_invariant (I := fun w => w.manager.Initialised key)
    (fun _ _ h hstep => (dustFreeStep_keepsShape hstep key).initialised h) hrun h

/-- In every run without dust swaps each pool is untouched, or has the locked
minimum on top of all shares and a reserve left.  Once it has been deposited
into its reserves are never both zero again, so the first-deposit branch is
not taken a second time, and no burn reaches the locked minimum. -/
theorem pools_keep_shape {tokens : TokenWorld}
    (hrun : ReflTransGen DustFreeStep ⟨tokens, .empty⟩ w) (key : PoolKey) :
    ((w.manager.pools key = ⟨0, 0⟩ ∧ w.manager.totalSupply key = 0) ∨ (w.manager.totalSupply key =
          minLiquidity + ∑ a, w.manager.liquidityBalances key a ∧ w.manager.pools key ≠ ⟨0, 0⟩)) ∧
    (∀ env sender amount to' liquidity w₁ w₂,
      Yields (mint env sender key.userToken key.validatorToken amount to') w
        liquidity w₁ → ReflTransGen DustFreeStep w₁ w₂ → w₂.manager.pools key ≠ ⟨0, 0⟩) ∧
    (∀ env sender liquidity to' amounts w₁,
      Yields (burn env sender key.userToken key.validatorToken liquidity to') w amounts w₁ →
      liquidity + minLiquidity ≤ w.manager.totalSupply key) := by
  have hshape := run_shaped hrun key (.inl ⟨rfl, rfl, fun _ => rfl⟩)
  refine ⟨?_, ?_, ?_⟩
  · exact hshape.elim (fun hu => .inl ⟨hu.reserves, hu.supply⟩)
      fun hi => .inr ⟨hi.supply, hi.reserves⟩
  · intro env sender amount to' liquidity w₁ w₂ hmint hlater
    exact (run_initialised hlater key (mint_initialises hshape hmint)).reserves
  · intro env sender liquidity to' amounts w₁ hburn
    obtain ⟨hne, hheld, _⟩ := burn_yields hburn
    rcases hshape with hu | hi
    · exact absurd (Nat.le_zero.mp (hheld.trans_eq (hu.shares sender))) hne
    · exact (Nat.add_le_add_right hheld _).trans (Initialised.shares_le hi sender)

/-- A deposit, a fee swap and a withdrawal: 3000 shares are left on top of
the locked 1000. -/
theorem pools_keep_shape_cycle :
    let fee : Address := .newTip20 1
    let provider : Address := ⟨1⟩
    let env := Env.permissive .t5
    let tokens : TokenWorld := { TokenWorld.empty with
      tokens := update (update (fun _ => Token.blank)
        pathUsdAddress (Token.endowed 0 provider 10000))
        fee (Token.endowed pathUsdAddress tipFeeManagerAddress 5000) }
    let w₁ := finalState (FeeCall.exec env 0
      (.mint provider fee pathUsdAddress 10000 provider)) ⟨tokens, .empty⟩
    let w₂ := finalState (executeFeeSwap fee pathUsdAddress 1000) w₁
    let w₃ := finalState (FeeCall.exec env 0 (.burn provider fee pathUsdAddress 1000 provider)) w₂
    let key : PoolKey := ⟨fee, pathUsdAddress⟩
    w₃.manager.pools key = ⟨800, 7203⟩ ∧ w₃.manager.totalSupply key = 4000 ∧
      4000 = minLiquidity + ∑ a, w₃.manager.liquidityBalances key a := by
  intro fee provider env tokens w₁ w₂ w₃ key
  have hrun : ReflTransGen DustFreeStep ⟨tokens, .empty⟩ w₃ :=
    ReflTransGen.single ⟨_, .call (yields_finalState (by decide)), trivial⟩
    |>.tail ⟨_, .feeSwap (exists_yields_finalState (by decide)).choose_spec, fun h => by cases h.1⟩
    |>.tail ⟨_, .call (yields_finalState (by decide)), trivial⟩
  have hreserves : w₃.manager.pools key = ⟨800, 7203⟩ := by decide
  have hsupply : w₃.manager.totalSupply key = 4000 := by decide
  refine ⟨hreserves, hsupply, ?_⟩
  rcases (pools_keep_shape hrun key).1 with ⟨hzero, _⟩ | ⟨htotal, _⟩
  · rw [hreserves] at hzero
    cases hzero
  · exact hsupply.symm.trans htotal

/-- A fee of a single unit is collected and settled over an untouched pool:
its output rounds to zero, so the swap needs no reserve and leaves one unit
in a pool without supply.  Nothing can be deposited into it afterwards. -/
theorem dust_swap_breaks_shape :
    let fee : Address := .newTip20 1
    let provider : Address := ⟨1⟩
    let payer : Address := ⟨2⟩
    let beneficiary : Address := ⟨3⟩
    let env := Env.permissive .t5
    let tokens : TokenWorld := { TokenWorld.empty with
      tokens := update (update (fun _ => Token.blank)
        pathUsdAddress (Token.endowed 0 provider 1000000))
        fee (Token.endowed pathUsdAddress payer 5000) }
    let key : PoolKey := ⟨fee, pathUsdAddress⟩
    let pre := do
      beginTx
      collectFeePreTx env payer fee 1 beneficiary false
    let post := collectFeePostTx env payer 1 0 fee beneficiary
    let w₀ : FeeWorld := ⟨tokens, .empty⟩
    let w₁ := finalState pre w₀
    let w₂ := finalState post w₁
    let w₃ := finalState (executeFeeSwap fee pathUsdAddress 1) w₀
    succeeds pre w₀ = true ∧ succeeds post w₁ = true ∧ w₂.manager.pools key = ⟨1, 0⟩ ∧
      PoolStep w₀ (.feeSwap fee pathUsdAddress 1) w₃ ∧
      ¬((w₃.manager.pools key = ⟨0, 0⟩ ∧ w₃.manager.totalSupply key = 0) ∨
        (w₃.manager.totalSupply key = minLiquidity + ∑ a, w₃.manager.liquidityBalances key a ∧
          w₃.manager.pools key ≠ ⟨0, 0⟩)) ∧
      succeeds (mint env provider fee pathUsdAddress 1000000 provider) w₀ = true ∧
      succeeds (mint env provider fee pathUsdAddress 1000000 provider) w₂ = false := by
  intro fee provider payer beneficiary env tokens key pre post w₀ w₁ w₂ w₃
  refine ⟨by decide, by decide, by decide,
    .feeSwap (exists_yields_finalState (by decide)).choose_spec, ?_, by decide, by decide⟩
  have hreserves : w₃.manager.pools key = ⟨1, 0⟩ := by decide
  have hsupply : w₃.manager.totalSupply key = 0 := by decide
  rintro (⟨hzero, _⟩ | ⟨htotal, _⟩)
  · cases hzero
  · unfold minLiquidity at htotal
    omega

end TipFeeManager

end Tempo
