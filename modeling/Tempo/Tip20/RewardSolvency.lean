/-
Solvency of lazily settled rewards.  While rewards are live and the token
contract cannot be burned from, the contract's own balance covers every stored
reward balance and everything accrued but not yet settled.
-/
import Tempo.Tip20.Supply

namespace Tempo

open Finset Relation Function

open Tip20 (OptedShift)

variable {amount : Nat} {self holder : Address} {s : TokenCtx}
  {total total' opted : Nat} {enters : Prop} {leaves : Prop}

/-- The shift computed by the hooks is the change of the members' total, when
that total loses `amount` on one condition and gains it on another. -/
theorem Tip20.OptedShift.eq_total [Decidable leaves]
    [Decidable enters] (h : OptedShift total opted amount leaves enters)
    (htotal : total' + (if leaves then amount else 0) =
      total + if enters then amount else 0) : opted = total' := by
  obtain ⟨hout, hin, hsame⟩ := h
  by_cases hp : leaves <;> by_cases hq : enters <;> simp only [hp, hq, if_true, if_false] at htotal
  · have := hsame (iff_of_true hp hq)
    omega
  · have := hout ⟨hp, hq⟩
    omega
  · have := hin ⟨hq, hp⟩
    omega
  · have := hsame (iff_of_false hp hq)
    omega

theorem Tip20.OptedShift.eq_gained [Decidable enters]
    (h : OptedShift total opted amount False enters)
    (htotal : total' = total + if enters then amount else 0) : opted = total' :=
  h.eq_total (by simpa using htotal)

theorem Tip20.OptedShift.eq_lost [Decidable leaves]
    [Decidable enters] (h : OptedShift total opted amount leaves enters) (hnot : ¬enters)
    (htotal : total' + (if leaves then amount else 0) = total) :
    opted = total' := h.eq_total (by simpa [hnot] using htotal)

namespace Ledger

/-- The holder has named a reward recipient. -/
def OptsIn (l : Ledger) (a : Address) : Prop :=
  (l.userRewardInfo a).rewardRecipient ≠ 0

instance (l : Ledger) : DecidablePred l.OptsIn :=
  fun a => inferInstanceAs (Decidable ((l.userRewardInfo a).rewardRecipient ≠ 0))

/-- Accrual since the last settlement, before the division that rounds it. -/
def unsettled (l : Ledger) (a : Address) : Nat :=
  if (l.userRewardInfo a).rewardRecipient = 0 then 0
  else l.balances a * (l.globalRewardPerToken - (l.userRewardInfo a).rewardPerToken)

noncomputable def optedIn (l : Ledger) : Nat :=
  ∑ a, if l.OptsIn a then l.balances a else 0

noncomputable def rewardBalances (l : Ledger) : Nat :=
  ∑ a, (l.userRewardInfo a).rewardBalance

/-- Everything owed to holders, in units of `1 / accPrecision`. -/
noncomputable def owed (l : Ledger) : Nat :=
  accPrecision * l.rewardBalances + ∑ a, l.unsettled a

/-- The accounts that hold pooled funds and the burn address. -/
def Pooled (self a : Address) : Prop :=
  a = 0 ∨ a = self ∨ a = tipFeeManagerAddress

/-- The accounts that have opted in make up the opted-in supply, no snapshot
is ahead of the accumulator, the contract covers what is owed, and pooled
accounts earn nothing. -/
structure RewardSolvent (token : Address) (l : Ledger) : Prop where
  opted : l.optedInSupply = l.optedIn
  snapshots : ∀ a, (l.userRewardInfo a).rewardPerToken ≤ l.globalRewardPerToken
  backed : l.owed ≤ accPrecision * l.balances token
  pooled : ∀ a, Pooled token a → ¬l.OptsIn a

variable {l l' : Ledger}

theorem fresh_rewardSolvent (self : Address) : fresh.RewardSolvent self where
  opted := (sum_eq_zero fun _ _ => ite_self 0).symm
  snapshots _ := le_rfl
  backed := by
    have hrewards : fresh.rewardBalances = 0 := sum_eq_zero fun _ _ => rfl
    have hun : ∑ a, fresh.unsettled a = 0 := sum_eq_zero fun _ _ => rfl
    simp [owed, hrewards, hun]
  pooled _ _ hin := hin rfl

/-! Settlement. -/

theorem settle_snapshot (h a : Address) : ((l.settle h).userRewardInfo a).rewardPerToken =
      if a = h then l.globalRewardPerToken
      else (l.userRewardInfo a).rewardPerToken :=
  rfl

theorem accrued_eq (h : Address) : l.accrued h = l.unsettled h / accPrecision := by
  unfold accrued unsettled
  split <;> simp_all

theorem settle_unsettled (h : Address) : (l.settle h).unsettled = update l.unsettled h 0 := by
  funext a
  by_cases ha : a = h
  · subst ha
    simp only [unsettled, settle_snapshot, if_true, update_self]
    simp [settle]
  · simp only [unsettled, settle_snapshot, if_neg ha, update_of_ne ha]
    rfl

theorem settle_rewardBalances (h : Address) :
    (l.settle h).rewardBalances ≤ l.rewardBalances + l.accrued h := by
  simp only [rewardBalances, settle, settledInfo, sum_add_distrib,
    sum_ite_eq', mem_univ, if_true, le_refl]

/-- Settling a holder only turns accrual into reward balance, rounded down. -/
theorem settle_owed_le (h : Address) : (l.settle h).owed ≤ l.owed := by
  have hsum := sum_update (fun _ y => y) l.unsettled h 0
  have hacc := Nat.mul_div_le (l.unsettled h) accPrecision
  have hbal := Nat.mul_le_mul_left accPrecision (settle_rewardBalances (l := l) h)
  simp only [owed, settle_unsettled]
  rw [mul_add, accrued_eq] at hbal
  omega

theorem RewardSolvent.settle (hl : l.RewardSolvent self) (h : Address) :
    (l.settle h).RewardSolvent self where
  opted := hl.opted
  snapshots a := by
    rw [settle_snapshot]
    split
    · exact le_rfl
    · exact hl.snapshots a
  backed := (settle_owed_le h).trans hl.backed
  pooled a ha := hl.pooled a ha

/-- Nothing is accruing for `a` between its last settlement and now. -/
def Settled (l : Ledger) (a : Address) : Prop :=
  l.OptsIn a → (l.userRewardInfo a).rewardPerToken = l.globalRewardPerToken

theorem settle_settled_self (h : Address) : (l.settle h).Settled h := by
  intro _
  rw [settle_snapshot, if_pos rfl]
  rfl

variable {a : Address}

theorem Settled.settle (ha : l.Settled a) (h : Address) : (l.settle h).Settled a := by
  intro hin
  rw [settle_snapshot]
  split
  · rfl
  · exact ha hin

theorem Settled.of_not_optsIn (h : ¬l.OptsIn a) : l.Settled a := fun hin => absurd hin h

theorem Settled.unsettled_eq_zero (h : l.Settled a) : l.unsettled a = 0 := by
  unfold unsettled
  split
  · rfl
  · rw [h ‹_›]
    simp

/-! Movements between settled accounts. -/

/-- `l'` differs from `l` in the balances of settled accounts only. -/
structure Rebalanced (l l' : Ledger) : Prop where
  info : l'.userRewardInfo = l.userRewardInfo
  accumulator : l'.globalRewardPerToken = l.globalRewardPerToken
  settled : ∀ a, l'.balances a = l.balances a ∨ l.Settled a

theorem Rebalanced.owed_eq (h : Rebalanced l l') : l'.owed = l.owed := by
  obtain ⟨hinfo, hglobal, hsettled⟩ := h
  have hin : ∀ a, l'.OptsIn a ↔ l.OptsIn a := by
    intro a
    rw [OptsIn, OptsIn, hinfo]
  have hun : l'.unsettled = l.unsettled := by
    funext a
    rcases hsettled a with hbal | hset
    · simp [unsettled, hinfo, hglobal, hbal]
    · have hset' : l'.Settled a := by
        simpa only [Settled, hin, hinfo, hglobal] using hset
      rw [hset.unsettled_eq_zero, hset'.unsettled_eq_zero]
  simp [owed, rewardBalances, hun, hinfo]

/-- Without taking from the contract, such a change keeps rewards backed. -/
theorem RewardSolvent.rebalance (hl : l.RewardSolvent self)
    (h : Rebalanced l l') (hopted : l'.optedInSupply = l'.optedIn)
    (hself : l.balances self ≤ l'.balances self) : l'.RewardSolvent self := by
  refine ⟨hopted, ?_, ?_, ?_⟩
  · simpa only [h.info, h.accumulator] using hl.snapshots
  · rw [h.owed_eq]
    exact hl.backed.trans (Nat.mul_le_mul_left _ hself)
  · simpa only [OptsIn, h.info] using hl.pooled

/-! The movements of the ledger while the reward hooks are live. -/

variable {spec : TempoHardfork} {from' to' : Address}

theorem hook_live (hspec : ¬.t8 ≤ spec) (h : Address) : l.hook spec h = l.settle h := if_neg hspec

theorem delegate_live (hspec : ¬.t8 ≤ spec) (h : Address) : l.delegate spec h ≠ 0 ↔ l.OptsIn h := by
  rw [delegate, if_neg hspec, OptsIn]

theorem claimable_le_reward (l : Ledger) (spec : TempoHardfork)
    (self holder : Address) : l.claimable spec self holder ≤
      ((l.hook spec holder).userRewardInfo holder).rewardBalance := min_le_left _ _

theorem claimable_le_funds (l : Ledger) (spec : TempoHardfork) (self holder : Address) :
    l.claimable spec self holder ≤ l.balances self := min_le_right _ _

theorem RewardSolvent.not_optsIn_feeManager (hl : l.RewardSolvent self) :
    ¬l.OptsIn tipFeeManagerAddress := hl.pooled _ (.inr (.inr rfl))

/-- A transfer that spares the contract: the owed amount does not grow. -/
theorem transfer_rewardSolvent (hspec : ¬.t8 ≤ spec)
    (hl : l.RewardSolvent self) (hfair : from' = self → amount = 0)
    (hstep : LedgerStep spec self (.transfer from' to' amount) l l') :
    l'.RewardSolvent self ∧ l'.owed ≤ l.owed ∧
      l'.balances = credit (debit l.balances from' amount) to' amount := by
  cases hstep with
  | transfer _ _ _ _ opted hfunds hto hshift =>
    simp only [hook_live hspec, movedBalances, if_neg hto]
    rw [hl.opted, delegate_live hspec, delegate_live hspec] at hshift
    have hparties : Rebalanced ((l.settle from').settle to')
        { (l.settle from').settle to' with
          optedInSupply := opted
          balances := credit (debit l.balances from' amount) to' amount } :=
      ⟨rfl, rfl, move_frame _ _ ((settle_settled_self from').settle to') (settle_settled_self to')⟩
    refine ⟨((hl.settle from').settle to').rebalance hparties
      (hshift.eq_total (sum_if_move _ _ _ hfunds)) (le_move _ _ hfair), ?_, trivial⟩
    rw [hparties.owed_eq]
    exact (settle_owed_le to').trans (settle_owed_le from')

/-- Raising the accumulator by `delta` adds `delta` per opted-in unit. -/
theorem owed_raise (hsnap : ∀ a, (l.userRewardInfo a).rewardPerToken ≤
    l.globalRewardPerToken) (delta : Nat) : ({ l with
      globalRewardPerToken := l.globalRewardPerToken + delta } : Ledger).owed =
      l.owed + l.optedIn * delta := by
  have hun : ∀ a, ({ l with
      globalRewardPerToken := l.globalRewardPerToken + delta } : Ledger).unsettled a =
      l.unsettled a + (if l.OptsIn a then l.balances a else 0) * delta := by
    intro a
    have hle := hsnap a
    unfold unsettled
    by_cases hout : (l.userRewardInfo a).rewardRecipient = 0
    · simp [hout, OptsIn]
    · have hsub : l.globalRewardPerToken + delta -
          (l.userRewardInfo a).rewardPerToken = (l.globalRewardPerToken -
          (l.userRewardInfo a).rewardPerToken) + delta := by omega
      simp [hout, OptsIn, hsub, mul_add]
  simp only [owed, hun, sum_add_distrib, ← sum_mul]
  rw [← add_assoc]
  rfl

theorem RewardSolvent.raise (hl : l.RewardSolvent self) {delta : Nat}
    (hback : l.owed + l.optedIn * delta ≤ accPrecision * l.balances self) : ({ l with
      globalRewardPerToken := l.globalRewardPerToken + delta } : Ledger).RewardSolvent self where
  opted := hl.opted
  snapshots a := (hl.snapshots a).trans (Nat.le_add_right _ _)
  backed := by
    rw [owed_raise hl.snapshots]
    exact hback
  pooled := hl.pooled

theorem distribute_rewardSolvent (hspec : ¬.t8 ≤ spec)
    (hl : l.RewardSolvent self) (hfrom : from' ≠ self)
    (hstep : LedgerStep spec self (.distribute from' amount) l l') : l'.RewardSolvent self := by
  cases hstep with
  | distribute _ l1 _ _ hmoved hopted =>
    obtain ⟨hl1, howed, hbal⟩ := transfer_rewardSolvent hspec hl (fun h => absurd h hfrom) hmoved
    have hpaid := Nat.mul_div_le (amount * accPrecision) l1.optedInSupply
    have hself : l1.balances self = l.balances self + amount := by
      rw [hbal, credit_self, debit_of_ne _ hfrom.symm]
    refine hl1.raise ?_
    rw [← hl1.opted]
    calc l1.owed + _ ≤ accPrecision * l.balances self + amount * accPrecision :=
          Nat.add_le_add (howed.trans hl.backed) hpaid
      _ = accPrecision * l1.balances self := by
          rw [hself, mul_add, mul_comm amount]

/-- The owed amount when one record is replaced by one that accrues as
before. -/
theorem owed_update (holder : Address) (info : UserRewardInfo) (hun : ({ l with
      userRewardInfo := update l.userRewardInfo holder info } :
      Ledger).unsettled holder = l.unsettled holder) :
    ({ l with
      userRewardInfo := update l.userRewardInfo holder info } :
      Ledger).owed + accPrecision * (l.userRewardInfo holder).rewardBalance =
      l.owed + accPrecision * info.rewardBalance := by
  have hall : ({ l with
      userRewardInfo := update l.userRewardInfo holder info } :
      Ledger).unsettled = l.unsettled := by
    funext a
    by_cases ha : a = holder
    · rw [ha, hun]
    · simp [unsettled, ha]
  have hsum := sum_update (fun _ (i : UserRewardInfo) => i.rewardBalance)
    l.userRewardInfo holder info
  have hmul := congrArg (accPrecision * ·) hsum
  simp only [mul_add] at hmul
  simp only [owed, rewardBalances, hall]
  omega

/-- Naming another recipient right after a settlement. -/
theorem RewardSolvent.setRecipient (hl : l.RewardSolvent self) {recipient : Address}
    (hcur : (l.userRewardInfo holder).rewardPerToken =
      l.globalRewardPerToken) (hholder : ¬Pooled self holder)
    (hshift : OptedShift l.optedIn opted (l.balances holder) (l.OptsIn holder) (recipient ≠ 0)) :
    ({ l with
      optedInSupply := opted
      userRewardInfo := update l.userRewardInfo holder
        { l.userRewardInfo holder with rewardRecipient := recipient } } :
      Ledger).RewardSolvent self := by
  have hopted := sum_update (fun a (i : UserRewardInfo) =>
    if i.rewardRecipient ≠ 0 then l.balances a else 0) l.userRewardInfo holder
    { l.userRewardInfo holder with rewardRecipient := recipient }
  have howed := owed_update (l := l) holder
    { l.userRewardInfo holder with rewardRecipient := recipient } (by simp [unsettled, hcur])
  refine ⟨?_, ?_, ?_, ?_⟩
  · exact hshift.eq_total hopted
  · intro a
    by_cases ha : a = holder
    · simp [ha, hcur]
    · simpa [ha] using hl.snapshots a
  · exact (Nat.add_right_cancel howed).le.trans hl.backed
  · intro a ha
    have hne : a ≠ holder := fun h => hholder (h ▸ ha)
    simpa [OptsIn, hne] using hl.pooled a ha

/-- `l` with the stored reward balance of `holder` replaced. -/
def withReward (l : Ledger) (holder : Address) (reward : Nat) : Ledger :=
  { l with
    userRewardInfo := update l.userRewardInfo holder
      { l.userRewardInfo holder with rewardBalance := reward } }

theorem withReward_snapshot (holder a : Address) (reward : Nat) :
    ((l.withReward holder reward).userRewardInfo a).rewardPerToken =
      (l.userRewardInfo a).rewardPerToken := by
  by_cases ha : a = holder <;> simp [withReward, ha]

theorem withReward_optsIn (holder a : Address) (reward : Nat) :
    (l.withReward holder reward).OptsIn a ↔ l.OptsIn a := by
  by_cases ha : a = holder <;> simp [OptsIn, withReward, ha]

theorem withReward_owed (holder : Address) (reward : Nat) :
    (l.withReward holder reward).owed + accPrecision * (l.userRewardInfo holder).rewardBalance =
      l.owed + accPrecision * reward :=
  owed_update holder { l.userRewardInfo holder with rewardBalance := reward } (by simp [unsettled])

theorem Settled.withReward (h : l.Settled a) (holder : Address)
    (reward : Nat) : (l.withReward holder reward).Settled a := by
  intro hin
  rw [withReward_snapshot]
  exact h ((withReward_optsIn holder a reward).mp hin)

/-- Paying `amount` of a settled holder's reward balance from the
contract. -/
theorem RewardSolvent.pay (hl : l.RewardSolvent self)
    (hset : l.Settled holder) (hholder : holder ≠ self)
    (hreward : amount ≤ (l.userRewardInfo holder).rewardBalance) (hfunds : amount ≤ l.balances self)
    (hshift : OptedShift l.optedIn opted amount False (l.OptsIn holder)) :
    ({ l.withReward holder
        ((l.userRewardInfo holder).rewardBalance - amount) with
      optedInSupply := opted
      balances := credit (debit l.balances self amount) holder amount } :
      Ledger).RewardSolvent self := by
  have hself : ¬l.OptsIn self := hl.pooled self (.inr (.inl rfl))
  have hmoved := sum_if_move l.OptsIn l.balances holder hfunds
  rw [if_neg hself] at hmoved
  generalize hr : (l.userRewardInfo holder).rewardBalance - amount = reward
  have hpaid := withReward_owed (l := l) holder reward
  have hrebalanced : Rebalanced (l.withReward holder reward)
      { l.withReward holder reward with
        optedInSupply := opted
        balances := credit (debit l.balances self amount) holder amount } :=
    ⟨rfl, rfl, move_frame _ _ ((Settled.of_not_optsIn hself).withReward holder reward)
      (hset.withReward holder reward)⟩
  refine ⟨?_, ?_, ?_, ?_⟩
  · rw [hshift.eq_total hmoved]
    exact sum_congr rfl fun a _ =>
      if_congr (withReward_optsIn holder a reward).symm rfl rfl
  · exact fun a => (withReward_snapshot holder a reward).le.trans (hl.snapshots a)
  · rw [hrebalanced.owed_eq]
    have hback := hl.backed
    have hleft : credit (debit l.balances self amount) holder amount self =
        l.balances self - amount := by
      rw [credit_of_ne _ hholder.symm, debit_self]
    change _ ≤ accPrecision * credit (debit l.balances self amount) holder amount self
    rw [hleft]
    have h1 : accPrecision * (l.userRewardInfo holder).rewardBalance =
        accPrecision * reward + accPrecision * amount := by
      rw [← mul_add]
      congr 1
      omega
    have h2 : accPrecision * l.balances self =
        accPrecision * (l.balances self - amount) + accPrecision * amount := by
      rw [← mul_add]
      congr 1
      omega
    omega
  · exact fun a ha hin => hl.pooled a ha ((withReward_optsIn holder a reward).mp hin)

/-- Every fair movement made while the hooks are live keeps rewards
backed. -/
theorem rewardSolvent_step {m : Movement} (hspec : ¬.t8 ≤ spec)
    (hself : self ≠ tipFeeManagerAddress) (hl : l.RewardSolvent self)
    (hfair : m.Fair self) (hstep : LedgerStep spec self m l l') : l'.RewardSolvent self := by
  cases hstep with
  | idle => exact hl
  | transfer _ from' to' amount opted hfunds hto hshift =>
    exact (transfer_rewardSolvent hspec hl hfair (.transfer _ _ _ _ _ hfunds hto hshift)).1
  | mint _ to' amount opted hcap hshift =>
    rw [hl.opted, delegate_live hspec] at hshift
    rw [hook_live hspec]
    have hminted := sum_if_credit l.OptsIn l.balances to' amount
    refine (hl.settle to').rebalance ⟨rfl, rfl, fun a => ?_⟩
      (hshift.eq_gained hminted) (le_credit _ _ _ _)
    by_cases ha : a = to'
    · subst ha
      exact .inr (settle_settled_self a)
    · exact .inl (credit_of_ne _ ha _)
  | burn _ from' amount opted hfunds hsupply hshift =>
    have hzero : ¬l.OptsIn 0 := hl.pooled 0 (.inl rfl)
    rw [hl.opted, delegate_live hspec, delegate_live hspec] at hshift
    rw [hook_live hspec, hook_live hspec]
    simp only [movedBalances, if_true]
    have hburned := sum_if_debit l.OptsIn l.balances hfunds
    refine ((hl.settle from').settle 0).rebalance ⟨rfl, rfl, fun a => ?_⟩
      (hshift.eq_lost hzero hburned) (debit_of_ne _ (Ne.symm hfair) _).ge
    by_cases ha : a = from'
    · subst ha
      exact .inr ((settle_settled_self a).settle 0)
    · exact .inl (debit_of_ne _ ha _)
  | feePre _ from' amount opted hfunds hshift =>
    have hmanager := hl.not_optsIn_feeManager
    rw [hl.opted, delegate_live hspec] at hshift
    rw [hook_live hspec]
    have hmoved := sum_if_move l.OptsIn l.balances tipFeeManagerAddress hfunds
    rw [if_neg hmanager] at hmoved
    exact (hl.settle from').rebalance ⟨rfl, rfl, move_frame _ _
      (settle_settled_self from') (.of_not_optsIn hmanager)⟩
      (hshift.eq_total hmoved) (le_move _ _ fun h => absurd h hfair)
  | feePost _ to' amount opted hfunds hshift =>
    have hmanager := hl.not_optsIn_feeManager
    rw [hl.opted, delegate_live hspec] at hshift
    rw [hook_live hspec]
    have hmoved := sum_if_move l.OptsIn l.balances to' hfunds
    rw [if_neg hmanager] at hmoved
    exact (hl.settle to').rebalance ⟨rfl, rfl, move_frame _ _
      (.of_not_optsIn hmanager) (settle_settled_self to')⟩
      (hshift.eq_total hmoved) (le_move _ _ fun h => absurd h.symm hself)
  | setSupplyCap _ cap hsupply hword =>
    exact ⟨hl.opted, hl.snapshots, hl.backed, hl.pooled⟩
  | distribute _ l1 from' amount hmoved hopted =>
    exact distribute_rewardSolvent hspec hl hfair (.distribute _ _ _ _ hmoved hopted)
  | setRecipient _ holder recipient opted hshift =>
    rw [hl.opted, delegate_live hspec] at hshift
    rw [hook_live hspec]
    refine (hl.settle holder).setRecipient ?_ ?_ hshift
    · rw [settle_snapshot, if_pos rfl]
      rfl
    · rintro (h | h | h)
      · exact hfair.1 h
      · exact hfair.2.1 h
      · exact hfair.2.2 h
  | claim _ holder opted hshift =>
    have hreward := l.claimable_le_reward spec self holder
    have hfunds := l.claimable_le_funds spec self holder
    rw [hook_live hspec] at hreward ⊢
    generalize l.claimable spec self holder = amount at *
    rw [hl.opted, delegate_live hspec] at hshift
    exact (hl.settle holder).pay (settle_settled_self holder) hfair hreward hfunds hshift

/-! What backing means for single holders. -/

theorem RewardSolvent.rewards_le (hl : l.RewardSolvent self) :
    l.rewardBalances + ∑ a, l.accrued a ≤ l.balances self := by
  have hfloor : accPrecision * ∑ a, l.accrued a ≤ ∑ a, l.unsettled a := by
    rw [mul_sum]
    refine sum_le_sum fun a _ => ?_
    rw [accrued_eq]
    exact Nat.mul_div_le _ _
  have hback := hl.backed
  have hall : accPrecision * (l.rewardBalances + ∑ a, l.accrued a) ≤
      accPrecision * l.balances self := by
    rw [mul_add]
    exact (Nat.add_le_add_left hfloor _).trans hback
  exact Nat.le_of_mul_le_mul_left hall (by decide)

/-- A claim is never cut short by the contract's balance. -/
theorem RewardSolvent.claimable_eq (hspec : ¬.t8 ≤ spec)
    (hl : l.RewardSolvent self) (holder : Address) :
    l.claimable spec self holder = ((l.settle holder).userRewardInfo holder).rewardBalance := by
  rw [claimable, hook_live hspec]
  have hentry := le_sum_entry (fun a => ((l.settle holder).userRewardInfo a).rewardBalance) holder
  exact min_eq_left (hentry.trans ((Nat.le_add_right _ _).trans (hl.settle holder).rewards_le))

theorem RewardSolvent.unsettled_le (hl : l.RewardSolvent self)
    (a : Address) : l.unsettled a ≤ accPrecision * l.balances self := by
  have hentry := le_sum_entry l.unsettled a
  exact hentry.trans ((Nat.le_add_left _ _).trans hl.backed)

/-- Opted-in funds and the contract's own are disjoint parts of the supply. -/
theorem RewardSolvent.optedIn_add_self_le (hl : l.RewardSolvent self) (hc : l.Conserved) :
    l.optedInSupply + l.balances self ≤ maxWord 128 := by
  have hself : ¬l.OptsIn self := hl.pooled self (.inr (.inl rfl))
  have hsplit : ∑ a, (if l.OptsIn a then l.balances a else 0) +
      ∑ a, (if l.OptsIn a then 0 else l.balances a) = ∑ a, l.balances a := by
    rw [← sum_add_distrib]
    refine sum_congr rfl fun a _ => ?_
    split <;> simp
  have hentry := le_sum_entry (fun a => if l.OptsIn a then 0 else l.balances a) self
  simp only [if_neg hself] at hentry
  rw [hl.opted]
  calc l.optedIn + l.balances self ≤ ∑ a, l.balances a := by
        rw [← hsplit]
        exact Nat.add_le_add_left hentry _
    _ = l.totalSupply := hc.total
    _ ≤ maxWord 128 := hc.capped.trans hc.word

end Ledger

namespace Tip20

open Ledger

variable {env : Env}

/-- Settling one holder more stays within what the contract holds. -/
theorem reward_add_accrued_le (hl : s.token.RewardSolvent self) (a holder : Address) :
    (s.token.userRewardInfo a).rewardBalance + s.token.accrued holder ≤ s.token.balances self := by
  have hreward := le_sum_entry (fun a => (s.token.userRewardInfo a).rewardBalance) a
  have haccrued := le_sum_entry s.token.accrued holder
  exact (Nat.add_le_add hreward haccrued).trans hl.rewards_le

theorem creditReward_runs (hl : s.token.RewardSolvent self) (hc : s.token.Conserved)
    (hne : (s.token.userRewardInfo holder).rewardRecipient ≠ 0) :
    Runs (creditReward holder (s.token.userRewardInfo holder) (s.token.globalRewardPerToken -
        (s.token.userRewardInfo holder).rewardPerToken)) s := by
  have hwide : maxWord 128 ≤ maxWord 256 := by decide
  have hscaled : accPrecision * maxWord 128 ≤ maxWord 256 := by decide
  have hfunds := hc.balance_le self
  have hun : s.token.unsettled holder = s.token.balances holder * (s.token.globalRewardPerToken -
        (s.token.userRewardInfo holder).rewardPerToken) := if_neg hne
  have hacc := accrued_eq (l := s.token.toLedger) holder
  have hmul : s.token.unsettled holder ≤ maxWord 256 := (hl.unsettled_le holder).trans
      ((Nat.mul_le_mul_left _ hfunds).trans hscaled)
  have hadd : ∀ a, (s.token.userRewardInfo a).rewardBalance +
      s.token.accrued holder ≤ maxWord 256 := fun a =>
    (reward_add_accrued_le hl a holder).trans (hfunds.trans hwide)
  rw [hun] at hmul hacc
  simp only [creditReward, getBalance, getUserRewardInfo, setUserRewardInfo,
    runs_reads_bind, runs_orFail_bind, Option.bind_eq_some_iff,
    checkedMul_eq_some, checkedDiv_eq_some]
  refine ⟨_, ⟨_, ⟨hmul, rfl⟩, by decide, hacc.symm⟩, ?_⟩
  split
  · exact runs_orFail_bind.mpr ⟨_, checkedAdd_eq_some.mpr ⟨hadd holder, rfl⟩, runs_pure⟩
  · exact runs_orFail_bind.mpr ⟨_, checkedAdd_eq_some.mpr ⟨hadd _, rfl⟩, runs_pure⟩

theorem updateRewards_runs (hspec : ¬.t8 ≤ env.spec)
    (hl : s.token.RewardSolvent self) (hc : s.token.Conserved)
    (holder : Address) : Runs (updateRewards env holder) s := by
  unfold updateRewards
  rw [if_neg hspec]
  simp only [getUserRewardInfo, setUserRewardInfo, runs_reads_bind,
    runs_orFail_bind, checkedSub_eq_some]
  refine ⟨_, ⟨hl.snapshots holder, rfl⟩, ?_⟩
  split
  · exact runs_pure
  · split
    · exact runs_pure
    · obtain ⟨info, s1, hcredit⟩ := creditReward_runs hl hc ‹_›
      exact hcredit.runs_bind (runs_updates_bind.mpr runs_pure)

theorem increaseOptedInSupply_ok (h : s.token.optedInSupply + amount ≤ maxWord 128) :
    Yields (increaseOptedInSupply amount) s ()
      (s.putOptedInSupply (s.token.optedInSupply + amount)) := by
  have hwide : maxWord 128 ≤ maxWord 256 := by decide
  simp only [increaseOptedInSupply, getOptedInSupply, setOptedInSupply, yields_steps,
    checkedAdd_eq_some, tryInto_eq_some]
  exact ⟨_, ⟨h.trans hwide, rfl⟩, _, ⟨h, rfl⟩, rfl⟩

/-- An unpaused claim that the token's policy allows goes through. -/
theorem claimRewards_runs (hspec : ¬.t8 ≤ env.spec)
    (hl : s.token.RewardSolvent self) (hc : s.token.Conserved) (hpaused : s.token.paused = false)
    (hauth : Yields (ensureTransferAuthorized env self self holder) s () s) :
    Runs (claimRewards env self holder) s := by
  have hnotPaused : Yields checkNotPaused s () s := by
    simp [checkNotPaused, hpaused]
  refine hnotPaused.runs_bind (hauth.runs_bind ?_)
  obtain ⟨d, s1, hhook⟩ := updateRewards_runs hspec hl hc holder
  refine hhook.runs_bind ?_
  obtain ⟨rfl, rfl, _⟩ := updateRewards_yields hhook
  rw [hook_live hspec]
  simp only [getUserRewardInfo, setUserRewardInfo, getBalance, setBalance,
    runs_reads_bind, runs_orFail_bind, checkedSub_eq_some,
    runs_updates_bind, TokenCtx.putLedger_toLedger, settle_balances]
  refine ⟨_, ⟨min_le_left _ _, rfl⟩, ?_⟩
  have hfunds := min_le_right ((s.token.settle holder).userRewardInfo
    holder).rewardBalance (s.token.balances self)
  have hcredit := hc.credit_after_debit hfunds holder
  have hopted := (Nat.add_le_add_left hfunds _).trans (hl.optedIn_add_self_le hc)
  have hwide : maxWord 128 ≤ maxWord 256 := by decide
  refine runs_ite.mpr ⟨fun _ => runs_pure, fun _ => ?_⟩
  refine runs_orFail_bind.mpr ⟨_, checkedSub_eq_some.mpr ⟨hfunds, rfl⟩, runs_updates_bind.mpr ?_⟩
  refine runs_reads_bind.mpr (runs_orFail_bind.mpr
    ⟨_, checkedAdd_eq_some.mpr ⟨hcredit.trans hwide, rfl⟩, runs_updates_bind.mpr ?_⟩)
  refine runs_ite.mpr ⟨fun _ => ?_, fun _ => runs_pure⟩
  exact Yields.runs_bind (increaseOptedInSupply_ok (by exact hopted)) runs_pure

end Tip20

namespace TokenCall

open Tip20 Ledger

variable {s' : TokenCtx}

/-- One successful external call under T5 or T6. -/
def RewardStep (self : Address) (s s' : TokenCtx) : Prop :=
  ∃ (env : Env) (c : TokenCall), .t5 ≤ env.spec ∧ ¬.t7 ≤ env.spec ∧
    c.External self ∧ Yields (c.exec env self) s () s'

/-- States reached from a fresh token by external calls under T5 and T6. -/
def RewardReachable (self : Address) (s : TokenCtx) : Prop :=
  ∃ (env : Env) (currency : String) (quoteToken admin : Address)
    (guard : ReceivePolicyGuard) (s₀ : TokenCtx),
    Yields (initializeToken env currency quoteToken admin) ⟨Token.blank, guard⟩ () s₀ ∧
    Relation.ReflTransGen (RewardStep self) s₀ s

theorem RewardReachable.reachable (h : RewardReachable self s) : Reachable self s := by
  obtain ⟨env, currency, quoteToken, admin, guard, s0, hinit, hrun⟩ := h
  refine ⟨env, currency, quoteToken, admin, guard, s0, hinit,
    ReflTransGen.mono (fun _ _ hstep => ?_) _ _ hrun⟩
  obtain ⟨env, c, _, _, _, hc⟩ := hstep
  exact ⟨env, c, hc⟩

theorem not_t8_of_not_t7 {spec : TempoHardfork} (h : ¬.t7 ≤ spec) :
    ¬.t8 ≤ spec := fun h8 => h (le_trans (by decide) h8)

theorem rewardStep_solvent (hself : self.isTip20 = true)
    (h : s.token.RewardSolvent self ∧ NoAllowance self s) (hstep : RewardStep self s s') :
    s'.token.RewardSolvent self ∧ NoAllowance self s' := by
  obtain ⟨env, c, hlow, hhigh, hext, hc⟩ := hstep
  obtain ⟨m, hm, hfair⟩ := exec_moved (Address.ne_of_isTip20 hself (by decide))
    (Address.ne_of_isTip20 hself (by decide)) hc
  obtain ⟨hmfair, hno⟩ := hfair hext hlow h.2
  exact ⟨rewardSolvent_step (not_t8_of_not_t7 hhigh)
    (Address.ne_of_isTip20 hself (by decide)) h.1 hmfair hm, hno⟩

theorem rewardReachable_solvent (hself : self.isTip20 = true)
    (h : RewardReachable self s) : s.token.RewardSolvent self := by
  obtain ⟨env, currency, quoteToken, admin, guard, s0, hinit, hrun⟩ := h
  obtain ⟨hledger, hallow, _⟩ := initializeToken_yields hinit
  have hstart : s0.token.RewardSolvent self ∧ NoAllowance self s0 := by
    refine ⟨?_, fun spender => by rw [hallow]; rfl⟩
    rw [hledger]
    exact fresh_rewardSolvent self
  exact (run_invariant (I := fun s => s.token.RewardSolvent self ∧ NoAllowance self s)
    (fun _ _ => rewardStep_solvent hself) hrun hstart).1

/-- While T5 and T6 are in force, the opted-in supply is what the opted-in
holders hold, no snapshot is ahead of the accumulator, and the token contract
covers all stored and accrued rewards.  So a claim pays the holder's whole
settled reward balance, and fails only on a pause or on the token's policy. -/
theorem rewards_solvent (hself : self.isTip20 = true) (h : RewardReachable self s) :
    s.token.optedInSupply = ∑ a, (if (s.token.userRewardInfo a).rewardRecipient ≠ 0 then
        s.token.balances a else 0) ∧ (∀ a, (s.token.userRewardInfo a).rewardPerToken ≤
      s.token.globalRewardPerToken) ∧ ∑ a, (s.token.userRewardInfo a).rewardBalance +
      ∑ a, (if (s.token.userRewardInfo a).rewardRecipient ≠ 0 then
        s.token.balances a * (s.token.globalRewardPerToken -
          (s.token.userRewardInfo a).rewardPerToken) / accPrecision
        else 0) ≤ s.token.balances self ∧
    ∀ (env : Env) (holder : Address), .t5 ≤ env.spec → ¬.t7 ≤ env.spec →
      (∀ paid s', Yields (Tip20.claimRewards env self holder) s paid s' → paid =
          ((s.token.settle holder).userRewardInfo holder).rewardBalance) ∧ (s.token.paused = false →
        Yields (ensureTransferAuthorized env self self holder) s () s →
        ∃ s', Yields (Tip20.claimRewards env self holder) s
          ((s.token.settle holder).userRewardInfo holder).rewardBalance s') := by
  have hl := rewardReachable_solvent hself h
  have hc := reachable_conserved hself h.reachable
  refine ⟨hl.opted, hl.snapshots, ?_, fun env holder _ hhigh => ?_⟩
  · simp only [ne_eq, ite_not]
    exact hl.rewards_le
  · have hspec := not_t8_of_not_t7 hhigh
    have hfull : ∀ paid s', Yields (Tip20.claimRewards env self holder) s paid s' →
        paid = _ := fun paid s' hclaim =>
      (claimRewards_yields hclaim).1.trans (hl.claimable_eq hspec holder)
    refine ⟨hfull, fun hpaused hauth => ?_⟩
    obtain ⟨paid, s', hclaim⟩ := claimRewards_runs hspec hl hc hpaused hauth
    rw [hfull paid s' hclaim] at hclaim
    exact ⟨s', hclaim⟩

/-- Ten units distributed over the ninety that opted in; rounding leaves one
of them with the contract when the holder claims. -/
theorem rewards_solvent_distribution :
    let self : Address := .newTip20 1
    let holder : Address := ⟨1⟩
    let env := Env.permissive .t5
    let s₀ := finalState (initializeToken env "USD" pathUsdAddress holder)
      ⟨Token.blank, ⟨0, fun _ => 0⟩⟩
    let s₁ := finalState (exec env self (.grantRole holder holder issuerRole)) s₀
    let s₂ := finalState (exec env self (.mint holder holder 100)) s₁
    let s₃ := finalState (exec env self (.setRewardRecipient holder holder)) s₂
    let s₄ := finalState (exec env self (.distributeReward holder 10)) s₃
    ((s₄.token.settle holder).userRewardInfo holder).rewardBalance = 9 ∧
      ∃ s', Yields (Tip20.claimRewards env self holder) s₄ 9 s' := by
  intro self holder env s₀ s₁ s₂ s₃ s₄
  have hcall {s : TokenCtx} (c : TokenCall) (hext : c.External self)
      (hc : succeeds (c.exec env self) s = true) :
      RewardStep self s (finalState (c.exec env self) s) :=
    ⟨env, c, by decide, by decide, hext, yields_finalState hc⟩
  have hholder : holder ≠ self := by decide
  have hrun : ReflTransGen (RewardStep self) s₀ s₄ := ReflTransGen.refl
    |>.tail (hcall (.grantRole holder holder issuerRole) trivial (by decide))
    |>.tail (hcall (.mint holder holder 100) trivial (by decide))
    |>.tail (hcall (.setRewardRecipient holder holder) ⟨by decide, hholder, by decide⟩ (by decide))
    |>.tail (hcall (.distributeReward holder 10) hholder (by decide))
  have hreach : RewardReachable self s₄ :=
    ⟨env, _, _, _, _, s₀, yields_finalState (by decide), hrun⟩
  have hnine : ((s₄.token.settle holder).userRewardInfo holder).rewardBalance = 9 := by decide
  have hclaim := (rewards_solvent (Address.newTip20_isTip20 1) hreach).2.2.2
    env holder (by decide) (by decide)
  rw [hnine] at hclaim
  exact ⟨hnine, hclaim.2 (by decide) (yields_finalState (by decide))⟩

end TokenCall

end Tempo
