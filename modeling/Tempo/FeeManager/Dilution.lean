/-
What a share of a fee-AMM pool is worth.  Both reserves are valued in the
validator token, the user token at the rate a rebalancing pays for it; swaps
never lower that value, and a deposit or a withdrawal takes from the other
shares less than one unit.
-/
import Mathlib.Tactic.Linarith
import Mathlib.Tactic.Ring
import Mathlib.Tactic.FieldSimp
import Mathlib.Data.Nat.Cast.Order.Field
import Tempo.FeeManager.PoolShape

namespace Tempo

/-- The reserves in units of the validator token, without rounding. -/
def Pool.backing (pool : Pool) : ℚ :=
  pool.reserveValidatorToken + rebalanceRate / scale * pool.reserveUserToken

namespace Pool

variable {amountIn supply : Nat}

/-- A fee swap pays out at 0.997 what the pool books at 0.9985. -/
theorem backing_feeSwap (pool : Pool) {out : Nat} (hout : out = amountIn * feeSwapRate / scale)
    (hle : out ≤ pool.reserveValidatorToken) :
    pool.backing ≤ backing ⟨pool.reserveUserToken + amountIn,
      pool.reserveValidatorToken - out⟩ := by
  have hfloor : (out : ℚ) ≤ amountIn * feeSwapRate / scale := by
    rw [hout]
    exact_mod_cast Nat.cast_div_le
  unfold backing
  unfold feeSwapRate scale at hfloor
  unfold rebalanceRate scale
  push_cast [Nat.cast_sub hle] at hfloor ⊢
  linarith [Nat.cast_nonneg (α := ℚ) amountIn]

/-- A rebalancing pays for the user token more than it is booked at. -/
theorem backing_rebalance (pool : Pool) {amountOut : Nat}
    (hin : amountIn = amountOut * rebalanceRate / scale + 1)
    (hle : amountOut ≤ pool.reserveUserToken) :
    pool.backing ≤ backing ⟨pool.reserveUserToken - amountOut,
      pool.reserveValidatorToken + amountIn⟩ := by
  have hfloor : amountOut * rebalanceRate < amountIn * scale := by
    rw [hin, mul_comm _ scale]
    exact Nat.lt_mul_div_succ _ (by decide)
  unfold backing
  have hcast : (amountOut * rebalanceRate : ℚ) < amountIn * scale := by
    exact_mod_cast hfloor
  unfold rebalanceRate scale at hcast ⊢
  push_cast [Nat.cast_sub hle] at hcast ⊢
  linarith

variable {liquidity : Nat}

/-- What is left of one reserve after a withdrawal of `liquidity` shares. -/
theorem share_left {reserve : Nat} (hne : supply ≠ 0)
    (hle : liquidity * reserve / supply ≤ reserve) :
    (reserve : ℚ) * (supply - liquidity) / supply ≤
      ((reserve - liquidity * reserve / supply : Nat) : ℚ) := by
  have hpos : (0 : ℚ) < supply := by
    exact_mod_cast Nat.pos_of_ne_zero hne
  have hfloor : ((liquidity * reserve / supply : Nat) : ℚ) ≤ liquidity * reserve / supply := by
    exact_mod_cast Nat.cast_div_le
  rw [Nat.cast_sub hle]
  calc (reserve : ℚ) * (supply - liquidity) / supply
      = reserve - liquidity * reserve / supply := by field_simp
    _ ≤ reserve - ((liquidity * reserve / supply : Nat) : ℚ) := by linarith

theorem backing_burn (pool : Pool) (hne : supply ≠ 0)
    (huser : liquidity * pool.reserveUserToken / supply ≤ pool.reserveUserToken)
    (hvalidator : liquidity * pool.reserveValidatorToken / supply ≤ pool.reserveValidatorToken) :
    pool.backing * (supply - liquidity) / supply ≤ backing
      ⟨pool.reserveUserToken - liquidity * pool.reserveUserToken / supply,
        pool.reserveValidatorToken - liquidity * pool.reserveValidatorToken / supply⟩ := by
  have hu := share_left hne huser
  have hv := share_left hne hvalidator
  have hrate : (0 : ℚ) ≤ rebalanceRate / scale := by positivity
  calc ((pool.reserveValidatorToken : ℚ) +
        rebalanceRate / scale * pool.reserveUserToken) * (supply - liquidity) / supply
      = pool.reserveValidatorToken * (supply - liquidity) / supply + rebalanceRate / scale *
            (pool.reserveUserToken * (supply - liquidity) / supply) := by
        ring
    _ ≤ _ := add_le_add hv (mul_le_mul_of_nonneg_left hu hrate)

/-- The floored value a deposit is measured against. -/
def floored (pool : Pool) : Nat :=
  pool.reserveValidatorToken + rebalanceRate * pool.reserveUserToken / scale

theorem backing_lt_floored (pool : Pool) : pool.backing < pool.floored + 1 := by
  have hfloor : rebalanceRate * pool.reserveUserToken <
      scale * (rebalanceRate * pool.reserveUserToken / scale + 1) :=
    Nat.lt_mul_div_succ _ (by decide)
  have hcast : (rebalanceRate * pool.reserveUserToken : ℚ) < scale *
      ((rebalanceRate * pool.reserveUserToken / scale : Nat) + 1) := by
    exact_mod_cast hfloor
  unfold backing floored
  unfold rebalanceRate scale at hcast ⊢
  push_cast at hcast ⊢
  linarith

theorem floored_le_backing (pool : Pool) : pool.floored ≤ pool.backing := by
  have hfloor : ((rebalanceRate * pool.reserveUserToken / scale : Nat) : ℚ) ≤
      rebalanceRate * pool.reserveUserToken / scale := by
    exact_mod_cast Nat.cast_div_le
  unfold backing floored
  push_cast
  linarith [mul_div_right_comm (rebalanceRate : ℚ) pool.reserveUserToken scale]

/-- The deposit buys its shares at the floored value, so that the old shares
lose at most the fraction cut off, a part of one unit. -/
theorem backing_mint (pool : Pool) {amount : Nat}
    (hliquidity : liquidity = amount * supply / pool.floored) (hne : liquidity ≠ 0) :
    pool.backing - 1 < supply * backing ⟨pool.reserveUserToken,
      pool.reserveValidatorToken + amount⟩ / (supply + liquidity) := by
  have hvalue : backing ⟨pool.reserveUserToken,
      pool.reserveValidatorToken + amount⟩ = pool.backing + amount := by
    unfold backing
    push_cast
    ring
  have hsupply : (0 : ℚ) ≤ supply := Nat.cast_nonneg _
  have hpos : (0 : ℚ) < supply + liquidity := by
    have : (0 : ℚ) < liquidity := by
      exact_mod_cast Nat.pos_of_ne_zero hne
    linarith
  have hbought : (liquidity * pool.floored : ℚ) ≤ amount * supply := by
    rw [hliquidity]
    exact_mod_cast Nat.div_mul_le_self _ _
  have hkept : pool.floored * (supply + liquidity : ℚ) ≤ supply * (pool.backing + amount) := by
    have := mul_le_mul_of_nonneg_left pool.floored_le_backing hsupply
    linarith
  rw [hvalue]
  calc pool.backing - 1 < pool.floored := by
        linarith [pool.backing_lt_floored]
    _ ≤ supply * (pool.backing + amount) / (supply + liquidity) := (le_div_iff₀ hpos).mpr hkept

end Pool

namespace TipFeeManager

open FeeManager

variable {w w' : FeeWorld} {validator : Address} {amountIn : Nat}

theorem executeFeeSwap_backing {user : Address} {out : Nat}
    (h : Yields (executeFeeSwap user validator amountIn) w out w') (key : PoolKey) :
    (w.manager.pools key).backing ≤ (w'.manager.pools key).backing := by
  obtain ⟨hout, hle, rfl⟩ := executeFeeSwap_yields h
  by_cases hkey : key = ⟨user, validator⟩
  · subst hkey
    simpa [putPool] using Pool.backing_feeSwap _ hout hle
  · simp [putPool, hkey]

theorem rebalanceSwap_backing {env : Env} {sender user to' : Address} {amountOut : Nat}
    (h : Yields (rebalanceSwap env sender user validator amountOut to')
      w amountIn w') (key : PoolKey) :
    (w.manager.pools key).backing ≤ (w'.manager.pools key).backing := by
  obtain ⟨_, hin, hle, hmanager, _⟩ := rebalanceSwap_yields h
  rw [hmanager]
  by_cases hkey : key = ⟨user, validator⟩
  · subst hkey
    simpa [putPool] using Pool.backing_rebalance _ hin hle
  · simp [putPool, hkey]

/-- Providers are not diluted: swaps of either kind never lower what backs a
pool, a withdrawal leaves the other shares at least their part of it, and a
deposit into a pool with reserves takes less than one unit from the shares
there were, whatever its amount. -/
theorem providers_not_diluted (w w' : FeeWorld) (key : PoolKey) :
    (∀ user validator amountIn out, Yields (executeFeeSwap user validator amountIn) w out w' →
      (w.manager.pools key).backing ≤ (w'.manager.pools key).backing) ∧
    (∀ env sender user validator amountOut to' amountIn,
      Yields (rebalanceSwap env sender user validator amountOut to') w amountIn w' →
      (w.manager.pools key).backing ≤ (w'.manager.pools key).backing) ∧
    (∀ env sender liquidity to' amounts,
      Yields (burn env sender key.userToken key.validatorToken liquidity to') w amounts w' →
      liquidity ≤ w.manager.totalSupply key ∧
      w'.manager.totalSupply key = w.manager.totalSupply key - liquidity ∧
      (w.manager.pools key).backing * (w.manager.totalSupply key - liquidity) /
            w.manager.totalSupply key ≤ (w'.manager.pools key).backing) ∧
    (∀ env sender amount to' liquidity,
      Yields (mint env sender key.userToken key.validatorToken amount to') w liquidity w' →
      w.manager.pools key ≠ ⟨0, 0⟩ →
      w'.manager.totalSupply key = w.manager.totalSupply key + liquidity ∧
      (w.manager.pools key).backing - 1 <
        w.manager.totalSupply key * (w'.manager.pools key).backing /
          (w.manager.totalSupply key + liquidity)) := by
  refine ⟨?_, ?_, ?_, ?_⟩
  · intro user validator amountIn out h
    exact executeFeeSwap_backing h key
  · intro env sender user validator amountOut to' amountIn h
    exact rebalanceSwap_backing h key
  · intro env sender liquidity to' amounts h
    obtain ⟨hne, _, hsupply, huser, hvalidator, hleU, hleV, _, hmanager, _⟩ := burn_yields h
    have hpos : w.manager.totalSupply key ≠ 0 := by
      intro hzero
      exact hne (Nat.le_zero.mp (hsupply.trans_eq hzero))
    rw [huser] at hleU
    rw [hvalidator] at hleV
    refine ⟨hsupply, ?_, ?_⟩
    · rw [hmanager]
      simp [putPool, putTotalSupply]
    · rw [hmanager, huser, hvalidator]
      simpa [putPool] using Pool.backing_burn (w.manager.pools key) hpos hleU hleV
  · intro env sender amount to' liquidity h hfull
    obtain ⟨_, _, hne, supply, hminted, hmanager, _⟩ := mint_yields h
    unfold Minted at hminted
    rw [if_neg fun hzero => hfull (Pool.ext hzero.1 hzero.2)] at hminted
    obtain ⟨hliquidity, rfl⟩ := hminted
    rw [hmanager]
    constructor
    · simp [putLiquidityBalance, putTotalSupply]
    · simpa [putLiquidityBalance, putTotalSupply, putPool] using
        Pool.backing_mint (w.manager.pools key) hliquidity hne

/-- After a deposit and a fee swap, a deposit of 500 units: its price per share
is not a whole number of units. -/
theorem providers_not_diluted_deposit :
    let fee : Address := .newTip20 1
    let provider : Address := ⟨1⟩
    let env := Env.permissive .t5
    let tokens : TokenWorld := { TokenWorld.empty with
      tokens := Function.update (Function.update (fun _ => Token.blank)
        pathUsdAddress (Token.endowed 0 provider 20000))
        fee (Token.endowed pathUsdAddress tipFeeManagerAddress 5000) }
    let deposit := fun amount => mint env provider fee pathUsdAddress amount provider
    let w₁ := finalState (deposit 10000) ⟨tokens, .empty⟩
    let w₂ := finalState (executeFeeSwap fee pathUsdAddress 1000) w₁
    let w₃ := finalState (deposit 500) w₂
    let key : PoolKey := ⟨fee, pathUsdAddress⟩
    w₂.manager.pools key = ⟨1000, 9003⟩ ∧ w₂.manager.totalSupply key = 5000 ∧
      ∃ liquidity, Yields (deposit 500) w₂ liquidity w₃ ∧ (w₂.manager.pools key).backing - 1 <
          w₂.manager.totalSupply key * (w₃.manager.pools key).backing /
            (w₂.manager.totalSupply key + liquidity) := by
  intro fee provider env tokens deposit w₁ w₂ w₃ key
  have hpool : w₂.manager.pools key = ⟨1000, 9003⟩ := by decide
  obtain ⟨liquidity, h⟩ : ∃ liquidity, Yields (deposit 500) w₂ liquidity w₃ :=
    exists_yields_finalState (by decide)
  have hall := (providers_not_diluted w₂ w₃ key).2.2.2 env provider 500
    provider liquidity h (hpool ▸ by decide)
  exact ⟨hpool, by decide, liquidity, h, hall.2⟩

end TipFeeManager

end Tempo
