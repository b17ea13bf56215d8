/-
Reward hooks of a TIP-20 token.  Rewards accrue lazily: every balance change
first settles the parties against the global reward-per-token accumulator and
then moves the opted-in supply.  From T8 on the hooks do nothing.
-/
import Tempo.Tip20.State

namespace Tempo

open Ledger TokenCtx

namespace Tip20

variable (env : Env)

/-- Adds the holder's accrual to their delegate and returns the holder's
record, which is the delegate's own if they delegate to themselves. -/
def creditReward (holder : Address) (info : UserRewardInfo)
    (rewardPerTokenDelta : Nat) : Exec TokenCtx UserRewardInfo := do
  let holderBalance ← getBalance holder
  let reward ← orFail ((checkedMul 256 holderBalance rewardPerTokenDelta).bind
      fun v => checkedDiv v accPrecision) .underOverflow
  if info.rewardRecipient = holder then
    let rewardBalance ← orFail (checkedAdd 256 info.rewardBalance reward) .underOverflow
    pure { info with rewardBalance }
  else
    let delegateInfo ← getUserRewardInfo info.rewardRecipient
    let rewardBalance ← orFail (checkedAdd 256 delegateInfo.rewardBalance reward) .underOverflow
    setUserRewardInfo info.rewardRecipient { delegateInfo with rewardBalance }
    pure info

/-- Settles the holder's accrued rewards and returns their delegate. -/
def updateRewards (holder : Address) : Exec TokenCtx Address := do
  if .t8 ≤ env.spec then
    pure 0
  else
    let info ← getUserRewardInfo holder
    let globalRewardPerToken ← reads fun s => s.token.globalRewardPerToken
    let rewardPerTokenDelta ← orFail
      (checkedSub globalRewardPerToken info.rewardPerToken) .underOverflow
    if rewardPerTokenDelta = 0 then
      pure info.rewardRecipient
    else
      let info' ← if info.rewardRecipient = 0 then pure info
        else creditReward holder info rewardPerTokenDelta
      setUserRewardInfo holder { info' with rewardPerToken := globalRewardPerToken }
      pure info.rewardRecipient

def increaseOptedInSupply (amount : Nat) : Exec TokenCtx Unit := do
  let current ← getOptedInSupply
  let sum ← orFail (checkedAdd 256 current amount) .underOverflow
  let value ← orFail (tryInto 128 sum) .underOverflow
  setOptedInSupply value

def decreaseOptedInSupply (amount : Nat) : Exec TokenCtx Unit := do
  let current ← getOptedInSupply
  let difference ← orFail (checkedSub current amount) .underOverflow
  let value ← orFail (tryInto 128 difference) .underOverflow
  setOptedInSupply value

def handleRewardsOnTransfer (from' to' : Address) (amount : Nat) : Exec TokenCtx Unit := do
  let fromDelegate ← updateRewards env from'
  let toDelegate ← updateRewards env to'
  if fromDelegate ≠ 0 then
    if toDelegate = 0 then decreaseOptedInSupply amount else pure ()
  else if toDelegate ≠ 0 then increaseOptedInSupply amount
  else pure ()

def handleRewardsOnMint (to' : Address) (amount : Nat) : Exec TokenCtx Unit := do
  let toDelegate ← updateRewards env to'
  if toDelegate ≠ 0 then increaseOptedInSupply amount else pure ()

end Tip20

namespace Ledger

/-- Reward accrued by the holder since their last settlement, rounded down. -/
def accrued (l : Ledger) (holder : Address) : Nat :=
  let info := l.userRewardInfo holder
  if info.rewardRecipient = 0 then 0
  else l.balances holder * (l.globalRewardPerToken - info.rewardPerToken) / accPrecision

/-- The record of `account` once `holder` has been settled. -/
def settledInfo (l : Ledger) (holder account : Address) : UserRewardInfo :=
  let info := l.userRewardInfo account
  { rewardRecipient := info.rewardRecipient
    rewardPerToken :=
      if account = holder then l.globalRewardPerToken else info.rewardPerToken
    rewardBalance := info.rewardBalance +
      if account = (l.userRewardInfo holder).rewardRecipient then
        l.accrued holder else 0 }

def settle (l : Ledger) (holder : Address) : Ledger :=
  { l with userRewardInfo := l.settledInfo holder }

/-- Settlement as a call under `spec` performs it. -/
def hook (spec : TempoHardfork) (l : Ledger) (holder : Address) : Ledger :=
  if .t8 ≤ spec then l else l.settle holder

/-- The delegate a call under `spec` sees. -/
def delegate (spec : TempoHardfork) (l : Ledger) (holder : Address) : Address :=
  if .t8 ≤ spec then 0 else (l.userRewardInfo holder).rewardRecipient

@[simp]
theorem settle_balances (l : Ledger) (h : Address) : (l.settle h).balances = l.balances := rfl

section

variable (spec : TempoHardfork)
include spec

@[simp]
theorem hook_balances (l : Ledger) (h : Address) : (l.hook spec h).balances = l.balances := by
  unfold hook
  split <;> rfl

@[simp]
theorem hook_totalSupply (l : Ledger) (h : Address) :
    (l.hook spec h).totalSupply = l.totalSupply := by
  unfold hook
  split <;> rfl

@[simp]
theorem hook_supplyCap (l : Ledger) (h : Address) : (l.hook spec h).supplyCap = l.supplyCap := by
  unfold hook
  split <;> rfl

@[simp]
theorem hook_optedInSupply (l : Ledger) (h : Address) :
    (l.hook spec h).optedInSupply = l.optedInSupply := by
  unfold hook
  split <;> rfl

@[simp]
theorem hook_delegate (l : Ledger) (h a : Address) :
    (l.hook spec h).delegate spec a = l.delegate spec a := by
  unfold hook delegate
  split <;> rfl

end

/-- Settling a holder whose snapshot is current changes nothing. -/
theorem settle_of_current (l : Ledger) (h : Address)
    (hcur : (l.userRewardInfo h).rewardPerToken = l.globalRewardPerToken) : l.settle h = l := by
  have hacc : l.accrued h = 0 := by
    simp [accrued, hcur]
  have hinfo : l.settledInfo h = l.userRewardInfo := by
    funext a
    by_cases ha : a = h
    · subst ha
      simp [settledInfo, hacc, ← hcur]
    · simp [settledInfo, hacc, ha]
  unfold settle
  rw [hinfo]

end Ledger

namespace Tip20

variable {env : Env} {s s' : TokenCtx} {holder d : Address} {amount : Nat} {u : Unit}

theorem eq_settled (hframe : s' = { s with
      token.userRewardInfo := s'.token.userRewardInfo })
    (h : ∀ a, s'.token.userRewardInfo a = s.token.settledInfo holder a) :
    s' = s.putLedger (s.token.settle holder) := by
  rw [hframe, funext h]
  rfl

theorem creditReward_yields {info' : UserRewardInfo} {delta : Nat}
    (hne : (s.token.userRewardInfo holder).rewardRecipient ≠ 0)
    (hdelta : delta = s.token.globalRewardPerToken - (s.token.userRewardInfo holder).rewardPerToken)
    (h : Yields (creditReward holder (s.token.userRewardInfo holder) delta) s info' s') :
    s'.putUserRewardInfo holder { info' with rewardPerToken := s.token.globalRewardPerToken } =
      s.putLedger (s.token.settle holder) := by
  simp only [creditReward, getBalance, getUserRewardInfo, setUserRewardInfo, yields_steps,
    yields_ite, Option.bind_eq_some_iff, checkedMul_eq_some, checkedDiv_eq_some,
    checkedAdd_eq_some] at h
  obtain ⟨reward, ⟨_, ⟨_, rfl⟩, _, hreward⟩, h⟩ := h
  have hacc : reward = s.token.accrued holder := by
    rw [← hreward, hdelta, accrued, if_neg hne]
  rw [hacc] at h
  rcases h with ⟨hself, _, ⟨_, rfl⟩, rfl, rfl⟩ | ⟨hother, _, ⟨_, rfl⟩, rfl, rfl⟩
  · refine eq_settled rfl fun a => ?_
    by_cases ha : a = holder
    · subst ha
      simp [putUserRewardInfo, settledInfo, hself]
    · simp [putUserRewardInfo, settledInfo, ha, hself]
  -- the delegate's record is written before the holder's
  · refine eq_settled rfl fun a => ?_
    by_cases ha : a = holder
    · subst ha
      simp [putUserRewardInfo, settledInfo, Ne.symm hother]
    · by_cases had : a = (s.token.userRewardInfo holder).rewardRecipient
      · simp [putUserRewardInfo, settledInfo, ← had, ha]
      · simp [putUserRewardInfo, settledInfo, ha, had]

/-- What the hook returns and writes; it also checks that the holder's
snapshot is not ahead of the accumulator. -/
theorem updateRewards_yields (h : Yields (updateRewards env holder) s d s') :
    d = s.token.delegate env.spec holder ∧ s' = s.putLedger (s.token.hook env.spec holder) ∧
    (¬.t8 ≤ env.spec → (s.token.userRewardInfo holder).rewardPerToken ≤
      s.token.globalRewardPerToken) := by
  unfold updateRewards at h
  by_cases hspec : .t8 ≤ env.spec
  · rw [if_pos hspec, yields_pure] at h
    obtain ⟨rfl, rfl⟩ := h
    simp [delegate, hook, hspec]
  · simp only [if_neg hspec, getUserRewardInfo, setUserRewardInfo, yields_steps, checkedSub_eq_some,
    yields_ite] at h
    obtain ⟨delta, ⟨hle, hdelta⟩, h⟩ := h
    simp only [delegate, hook, if_neg hspec]
    rcases h with ⟨hzero, rfl, rfl⟩ | ⟨_, ⟨hout, rfl, rfl⟩ | ⟨hne, h⟩⟩
    · rw [settle_of_current _ _ (by omega)]
      exact ⟨rfl, rfl, fun _ => hle⟩
    · have hacc : s.token.accrued holder = 0 := by
        simp [accrued, hout]
      refine ⟨rfl, eq_settled rfl fun a => ?_, fun _ => hle⟩
      by_cases ha : a = holder
      · subst ha
        simp [putUserRewardInfo, settledInfo, hacc]
      · simp [putUserRewardInfo, settledInfo, ha, hacc]
    · obtain ⟨info', s1, hcredit, h⟩ := h.bind
      obtain ⟨rfl, rfl⟩ := h
      exact ⟨rfl, creditReward_yields hne hdelta.symm hcredit, fun _ => hle⟩

/-- Change of the opted-in supply when `amount` leaves or enters accounts that
have opted in. -/
def OptedShift (opted opted' amount : Nat) (leaves enters : Prop) : Prop :=
  (leaves ∧ ¬enters → amount ≤ opted ∧ opted' = opted - amount) ∧
  (enters ∧ ¬leaves → opted' = opted + amount) ∧
  ((leaves ↔ enters) → opted' = opted)

theorem increaseOptedInSupply_yields (h : Yields (increaseOptedInSupply amount) s u s') :
    s.token.optedInSupply + amount ≤ maxWord 128 ∧
    s' = s.putOptedInSupply (s.token.optedInSupply + amount) := by
  simp only [increaseOptedInSupply, getOptedInSupply, setOptedInSupply, yields_steps,
    checkedAdd_eq_some, tryInto_eq_some] at h
  obtain ⟨_, ⟨_, rfl⟩, _, ⟨hle, rfl⟩, rfl⟩ := h
  exact ⟨hle, rfl⟩

theorem decreaseOptedInSupply_yields (h : Yields (decreaseOptedInSupply amount) s u s') :
    amount ≤ s.token.optedInSupply ∧ s' = s.putOptedInSupply (s.token.optedInSupply - amount) := by
  simp only [decreaseOptedInSupply, getOptedInSupply, setOptedInSupply, yields_steps,
    checkedSub_eq_some, tryInto_eq_some] at h
  obtain ⟨_, ⟨hle, rfl⟩, _, ⟨_, rfl⟩, rfl⟩ := h
  exact ⟨hle, rfl⟩

/-- A decrease made only if the account has opted in. -/
theorem decreaseWhen_yields {c : Prop} [Decidable c]
    (h : Yields (if c then decreaseOptedInSupply amount else pure ()) s u s') :
    ∃ opted, s' = s.putOptedInSupply opted ∧
      OptedShift s.token.optedInSupply opted amount c False := by
  unfold OptedShift
  by_cases hc : c
  · rw [if_pos hc] at h
    obtain ⟨hle, rfl⟩ := decreaseOptedInSupply_yields h
    exact ⟨_, rfl, by simp [hc, hle]⟩
  · rw [if_neg hc, yields_pure] at h
    obtain ⟨_, rfl⟩ := h
    exact ⟨s.token.optedInSupply, rfl, by simp [hc]⟩

/-- An increase made only if the account has opted in. -/
theorem increaseWhen_yields {c : Prop} [Decidable c]
    (h : Yields (if c then increaseOptedInSupply amount else pure ()) s u s') :
    ∃ opted, s' = s.putOptedInSupply opted ∧
      OptedShift s.token.optedInSupply opted amount False c := by
  unfold OptedShift
  by_cases hc : c
  · rw [if_pos hc] at h
    obtain ⟨_, rfl⟩ := increaseOptedInSupply_yields h
    exact ⟨_, rfl, by simp [hc]⟩
  · rw [if_neg hc, yields_pure] at h
    obtain ⟨_, rfl⟩ := h
    exact ⟨s.token.optedInSupply, rfl, by simp [hc]⟩

/-- The supply moves only when exactly one side has opted in. -/
theorem shiftBetween_yields {e : Address} (h : Yields (if d ≠ 0 then
        if e = 0 then decreaseOptedInSupply amount else pure ()
      else if e ≠ 0 then increaseOptedInSupply amount else pure ()) s u s') :
    ∃ opted, s' = s.putOptedInSupply opted ∧
      OptedShift s.token.optedInSupply opted amount (d ≠ 0) (e ≠ 0) := by
  by_cases hc : d ≠ 0
  · rw [if_pos hc] at h
    obtain ⟨opted, rfl, hshift⟩ := decreaseWhen_yields h
    refine ⟨opted, rfl, ?_⟩
    simp only [OptedShift] at hshift ⊢
    tauto
  · rw [if_neg hc] at h
    obtain ⟨opted, rfl, hshift⟩ := increaseWhen_yields h
    refine ⟨opted, rfl, ?_⟩
    simp only [OptedShift, hc] at hshift ⊢
    tauto

theorem handleRewardsOnTransfer_yields {from' to' : Address}
    (h : Yields (handleRewardsOnTransfer env from' to' amount) s u s') :
    ∃ opted, s' = s.putLedger
        { (s.token.hook env.spec from').hook env.spec to' with
          optedInSupply := opted } ∧
      OptedShift s.token.optedInSupply opted amount (s.token.delegate env.spec from' ≠ 0)
        (s.token.delegate env.spec to' ≠ 0) := by
  simp only [handleRewardsOnTransfer, yields_bind] at h
  obtain ⟨d, s1, hfrom, e, s2, hto, h⟩ := h
  obtain ⟨rfl, rfl, _⟩ := updateRewards_yields hfrom
  obtain ⟨rfl, rfl, _⟩ := updateRewards_yields hto
  simp only [putLedger_toLedger, hook_delegate] at h
  obtain ⟨opted, rfl, hshift⟩ := shiftBetween_yields h
  simp only [putLedger_toLedger, hook_optedInSupply] at hshift
  exact ⟨opted, rfl, hshift⟩

theorem handleRewardsOnMint_yields {to' : Address}
    (h : Yields (handleRewardsOnMint env to' amount) s u s') :
    ∃ opted, s' = s.putLedger { s.token.hook env.spec to' with optedInSupply := opted } ∧
      OptedShift s.token.optedInSupply opted amount False (s.token.delegate env.spec to' ≠ 0) := by
  simp only [handleRewardsOnMint, yields_bind] at h
  obtain ⟨d, s1, hto, h⟩ := h
  obtain ⟨rfl, rfl, _⟩ := updateRewards_yields hto
  obtain ⟨opted, rfl, hshift⟩ := increaseWhen_yields h
  simp only [putLedger_toLedger, hook_optedInSupply] at hshift
  exact ⟨opted, rfl, hshift⟩

end Tip20

end Tempo
