/-
The limits of a key as they are shown and as they are enforced.  The view used
by queries and by the transaction pool decodes a row and rolls its period over
without writing; a charge does the same on the way to its write.
-/
import Tempo.Keychain.Revocation

namespace Tempo

variable {l : SpendingLimitState} {now amount : Nat} {env : KeychainEnv} {s s' : AccountKeychain}

namespace SpendingLimitState

variable {spec : TempoHardfork} {l' : SpendingLimitState}

/-- The fields are within the widths they are stored with. -/
structure Fits (l : SpendingLimitState) : Prop where
  remaining : l.remaining ≤ maxWord 256
  max : l.max ≤ maxWord 128

/-- What a row stands for at a time, from T3 on. -/
def shown (spec : TempoHardfork) (now : Nat) (l : SpendingLimitState) : Nat × Nat :=
  if l.period = 0 then (l.remaining, 0) else l.rollOver spec now

theorem charge_isOk_iff (hspec : .t3 ≤ spec) :
    (∃ l', l.charge spec now amount = .ok l') ↔ amount ≤ (l.shown spec now).1 := by
  unfold charge shown
  by_cases hp : l.period = 0
  · rw [if_neg fun h => h.2 hp, if_pos hp, ← not_lt]
    by_cases hlt : l.remaining < amount <;> simp [hlt]
  · rw [if_pos ⟨hspec, hp⟩, if_neg hp, ← not_lt]
    by_cases hlt : (l.rollOver spec now).1 < amount <;> simp [hlt]

/-- The period a row rolls over into has not ended, short of the last second
there is. -/
theorem lt_computeNextPeriodEnd (hp : l.period ≠ 0)
    (hnow : now < maxWord 64) : now < l.computeNextPeriodEnd now := by
  have hpos : 0 < l.period := Nat.pos_of_ne_zero hp
  have hdiv : now - l.periodEnd < l.period * ((now - l.periodEnd) / l.period + 1) :=
    Nat.lt_mul_div_succ _ hpos
  have hfull : maxWord 64 ≤ l.period * maxWord 64 := Nat.le_mul_of_pos_left _ hpos
  have hadvance : now < l.periodEnd + l.period *
      min ((now - l.periodEnd) / l.period + 1) (maxWord 64) := by
    rcases le_total ((now - l.periodEnd) / l.period + 1) (maxWord 64) with
      hle | hle
    · rw [min_eq_left hle]
      omega
    · rw [min_eq_right hle]
      omega
  unfold computeNextPeriodEnd saturatingAdd saturatingMul
  dsimp only
  omega

theorem lt_rollOver (hp : l.period ≠ 0) (hnow : now < maxWord 64) :
    now < (l.rollOver spec now).2 := by
  unfold rollOver
  split
  · exact lt_computeNextPeriodEnd hp hnow
  · omega

/-- The sentinel is not a remainder. -/
theorem rollOver_lt_sentinel (hfits : l.Fits) (hspec : .t7 ≤ spec) :
    (l.rollOver spec now).1 < zeroPeriodicRemainingSentinel := by
  have hzero : 0 < zeroPeriodicRemainingSentinel := by decide
  have hwidth : maxWord 128 < zeroPeriodicRemainingSentinel := by decide
  have hmax := hfits.max
  have hremaining : l.remaining ≤ zeroPeriodicRemainingSentinel := hfits.remaining
  unfold rollOver
  split
  · exact hmax.trans_lt hwidth
  · unfold decodeRemaining
    split
    · exact hzero
    next h =>
      exact Nat.lt_of_le_of_ne hremaining fun heq => h ⟨hspec, heq⟩

theorem decode_encode {r : Nat} (hr : .t7 ≤ spec → r < zeroPeriodicRemainingSentinel)
    (h : l.remaining = encodeRemaining spec r) : l.decodeRemaining spec = r := by
  by_cases hz : .t7 ≤ spec ∧ r = 0
  · rw [encodeRemaining, if_pos hz] at h
    rw [decodeRemaining, if_pos ⟨hz.1, h⟩, hz.2]
  · rw [encodeRemaining, if_neg hz] at h
    rw [decodeRemaining, h, if_neg]
    rintro ⟨hspec, heq⟩
    exact (hr hspec).ne heq

/-- A charge takes its amount off what is shown and leaves the period. -/
theorem charge_shown (hfits : l.Fits) (hnow : now < maxWord 64)
    (hspec : .t3 ≤ spec) (h : l.charge spec now amount = .ok l') :
    (l'.shown spec now).1 + amount = (l.shown spec now).1 ∧
      (l'.shown spec now).2 = (l.shown spec now).2 := by
  have hle := (charge_isOk_iff hspec).mp ⟨l', h⟩
  unfold charge at h
  unfold shown at hle ⊢
  by_cases hp : l.period = 0
  · rw [if_neg fun h => h.2 hp] at h
    rw [if_pos hp] at hle ⊢
    rw [if_neg (Nat.not_lt.mpr hle)] at h
    cases h
    rw [if_pos hp]
    exact ⟨Nat.sub_add_cancel hle, rfl⟩
  · rw [if_pos ⟨hspec, hp⟩] at h
    rw [if_neg hp] at hle ⊢
    dsimp only at h
    rw [if_neg (Nat.not_lt.mpr hle)] at h
    have hend : now < (l.rollOver spec now).2 := lt_rollOver hp hnow
    have hdecode : l'.decodeRemaining spec = (l.rollOver spec now).1 - amount := by
      refine decode_encode (fun ht7 => ?_) (Except.ok.inj h ▸ rfl)
      exact (Nat.sub_le _ _).trans_lt (rollOver_lt_sentinel hfits ht7)
    have hperiod : l'.period = l.period := Except.ok.inj h ▸ rfl
    have hperiodEnd : l'.periodEnd = (l.rollOver spec now).2 := Except.ok.inj h ▸ rfl
    rw [if_neg (hperiod ▸ hp), show l'.rollOver spec now =
      (l'.decodeRemaining spec, l'.periodEnd) from
        if_neg (Nat.not_le.mpr (hperiodEnd ▸ hend)), hdecode, hperiodEnd]
    exact ⟨Nat.sub_add_cancel hle, rfl⟩

theorem Fits.charge (hfits : l.Fits) (h : l.charge spec now amount = .ok l') : l'.Fits := by
  have hwide : maxWord 128 ≤ maxWord 256 := by decide
  have hroll : (l.rollOver spec now).1 ≤ maxWord 256 := by
    unfold rollOver
    split
    · exact hfits.max.trans hwide
    · unfold decodeRemaining
      split
      · exact Nat.zero_le _
      · exact hfits.remaining
  unfold SpendingLimitState.charge at h
  split at h
  · dsimp only at h
    split at h
    · cases h
    · cases h
      refine ⟨?_, hfits.max⟩
      unfold encodeRemaining
      split
      · exact le_rfl
      · exact (Nat.sub_le _ _).trans hroll
  · split at h
    · cases h
    · cases h
      exact ⟨(Nat.sub_le _ _).trans hfits.remaining, hfits.max⟩

theorem Fits.refund (hfits : l.Fits) (hamount : amount ≤ maxWord 256) :
    (l.refund spec amount).Fits := by
  have hadd : saturatingAdd 256 l.remaining amount ≤ maxWord 256 := min_le_right _ _
  have hrefunded : (if .t7 ≤ spec ∧ l.period ≠ 0 ∧
      l.remaining = zeroPeriodicRemainingSentinel then amount
      else saturatingAdd 256 l.remaining amount) ≤ maxWord 256 := by
    split
    · exact hamount
    · exact hadd
  unfold SpendingLimitState.refund
  split
  · refine ⟨?_, hfits.max⟩
    dsimp only
    split
    · exact hrefunded
    · exact (min_le_left _ _).trans hrefunded
  · exact ⟨hadd, hfits.max⟩

end SpendingLimitState

namespace AccountKeychain

open SpendingLimitState

variable {account keyId token : Address}

/-! The views. -/

/-- The remaining limit and the end of the period at a time. -/
def effectiveLimitStateWithKey (spec : TempoHardfork) (s : AccountKeychain)
    (account keyId token : Address) (now : Nat) (key : AuthorizedKey) : Nat × Nat :=
  if key.isRevoked ∨ key.expiry = 0 then (0, 0)
  else if key.expiry ≤ now ∧ .t3 ≤ spec then (0, 0)
  else
    let l := s.spendingLimits (account, keyId) token
    if ¬.t3 ≤ spec then (l.remaining, 0)
    else if l.period = 0 then (l.remaining, 0)
    else
      let remaining :=
        if .t7 ≤ spec ∧ l.remaining = zeroPeriodicRemainingSentinel then 0
        else l.remaining
      if now < l.periodEnd then (remaining, l.periodEnd)
      else
        let elapsed := now - l.periodEnd
        let periodsElapsed := saturatingAdd 64 (elapsed / l.period) 1
        let advance := saturatingMul 64 l.period periodsElapsed
        (l.max, saturatingAdd 64 l.periodEnd advance)

def effectiveLimitState (spec : TempoHardfork) (s : AccountKeychain)
    (account keyId token : Address) (now : Nat) : Nat × Nat :=
  if keyId = 0 ∧ .t3 ≤ spec then (0, 0)
  else s.effectiveLimitStateWithKey spec account keyId token now (s.keys account keyId)

def effectiveRemainingLimit (spec : TempoHardfork) (s : AccountKeychain)
    (account keyId token : Address) (now : Nat) : Nat :=
  (s.effectiveLimitState spec account keyId token now).1

/-- Neither revoked nor expired. -/
structure ActiveAt (s : AccountKeychain) (account keyId : Address) (now : Nat) : Prop where
  unrevoked : (s.keys account keyId).isRevoked = false
  unexpired : now < (s.keys account keyId).expiry

theorem ActiveAt.loadActiveKey (h : s.ActiveAt account keyId now) :
    s.loadActiveKey account keyId now = .ok (s.keys account keyId) := by
  have hexpiry := h.unexpired
  unfold AccountKeychain.loadActiveKey
  dsimp only
  rw [h.unrevoked, if_neg Bool.false_ne_true, if_neg (by omega), if_neg (by omega)]

/-- The view of an active key is what its row stands for. -/
theorem ActiveAt.effectiveLimitState {spec : TempoHardfork}
    (h : s.ActiveAt account keyId now) (hspec : .t3 ≤ spec) (hkey : keyId ≠ 0) :
    s.effectiveLimitState spec account keyId token now =
      (s.spendingLimits (account, keyId) token).shown spec now := by
  have hexpiry := h.unexpired
  unfold AccountKeychain.effectiveLimitState effectiveLimitStateWithKey shown
  rw [if_neg fun h => hkey h.1, h.unrevoked, if_neg (by simp; omega),
    if_neg (by omega), if_neg (not_not.mpr hspec)]
  split
  · rfl
  · unfold rollOver decodeRemaining computeNextPeriodEnd
    by_cases hend : now < (s.spendingLimits (account, keyId) token).periodEnd
    · rw [if_pos hend, if_neg (Nat.not_le.mpr hend)]
    · rw [if_neg hend, if_pos (Nat.not_lt.mp hend)]

/-- A charge of a key whose limits are enforced. -/
theorem verifyAndUpdateSpending_iff (hkey : keyId ≠ 0)
    (henforce : (s.keys account keyId).enforceLimits = true) :
    Yields (verifyAndUpdateSpending env account keyId token amount) s () s' ↔
      s.ActiveAt account keyId env.timestamp ∧
      ∃ row, (s.spendingLimits (account, keyId) token).charge env.spec
        env.timestamp amount = .ok row ∧ s.putLimit (account, keyId) token row = s' := by
  unfold verifyAndUpdateSpending
  rw [if_neg hkey, yields_reads_bind, yields_ofExcept_bind]
  constructor
  · rintro ⟨key, hload, h⟩
    obtain ⟨rfl, hrevoked, hexpiry⟩ := loadActiveKey_ok hload
    simp only [id_eq, henforce, if_true, yields_steps] at h
    exact ⟨⟨hrevoked, hexpiry⟩, h⟩
  · rintro ⟨hactive, h⟩
    refine ⟨_, hactive.loadActiveKey, ?_⟩
    simp only [id_eq, henforce, if_true, yields_steps]
    exact h

/-! Stored widths. -/

/-- Every field is within the width it is stored with. -/
structure Fits (s : AccountKeychain) : Prop where
  expiry : ∀ account keyId, (s.keys account keyId).expiry ≤ maxWord 64
  limits : ∀ row token, (s.spendingLimits row token).Fits

theorem fits_empty : AccountKeychain.empty.Fits :=
  ⟨fun _ _ => Nat.zero_le _, fun _ _ => ⟨Nat.zero_le _, Nat.zero_le _⟩⟩

theorem Fits.putKey (h : s.Fits) {key : AuthorizedKey}
    (hkey : key.expiry ≤ maxWord 64) : (s.putKey account keyId key).Fits := by
  refine ⟨fun a k => ?_, h.limits⟩
  by_cases heq : (account, keyId) = (a, k)
  · obtain ⟨rfl, rfl⟩ := Prod.mk.inj heq
    rw [putKey_self]
    exact hkey
  · rw [putKey_of_ne key heq]
    exact h.expiry a k

variable {row : Address × Address}

theorem Fits.putLimit (h : s.Fits) (hl : l.Fits) : (s.putLimit row token l).Fits := by
  refine ⟨h.expiry, fun row' t => ?_⟩
  by_cases hrow : row' = row
  · subst hrow
    by_cases ht : t = token
    · rw [ht, putLimit_self]
      exact hl
    · rw [putLimit_of_token_ne l ht]
      exact h.limits _ _
  · rw [putLimit_of_row_ne l hrow]
    exact h.limits _ _

theorem Fits.limitSet (h : s.Fits) (hamount : amount ≤ maxWord 256)
    (hset : LimitSet amount (s.spendingLimits row token) l) : (s.putLimit row token l).Fits := by
  obtain ⟨rfl, hmax⟩ := hset
  exact h.putLimit ⟨hamount, hmax.elim id fun hsame => hsame ▸ (h.limits _ _).max⟩

theorem Fits.authorizeKeyInternal {signatureType : SignatureType} {config : KeyRestrictions}
    {witness : Option B256} {isAdmin : Bool} (hs : s.Fits) (hexpiry : config.expiry ≤ maxWord 64)
    (hlimits : ∀ limit ∈ config.limits, limit.amount ≤ maxWord 256)
    (h : Yields (AccountKeychain.authorizeKeyInternal env account keyId signatureType config witness
      isAdmin) s () s') : s'.Fits := by
  obtain ⟨-, -, -, -, calls, -, h⟩ := authorizeKeyInternal_yields h
  have hkey : (s.putKey account keyId ⟨signatureType, config.expiry, config.enforceLimits, false,
    isAdmin⟩).Fits := hs.putKey hexpiry
  split at h
  · exact (h.pure).2 ▸ hkey
  · obtain ⟨s1, hrun, hkeys, hrows, -⟩ := applyRestrictions_yields h
    have hfits : s1.Fits := by
      refine Yields.forM_invariant (I := AccountKeychain.Fits) ?_ hrun hkey
      intro limit hmem t t' ht hstep
      obtain ⟨l, rfl, hset, -⟩ := applyLimit_yields hstep
      refine ht.limitSet (hlimits limit ?_) hset
      split at hmem
      · exact hmem
      · cases hmem
    exact ⟨hkeys ▸ hfits.expiry, hrows ▸ hfits.limits⟩

theorem Fits.charges (hs : s.Fits) (h : Charges env s s') : s'.Fits := by
  rcases h with rfl | ⟨row, token, amount, l, hcharge, rfl⟩
  · exact hs
  · exact hs.putLimit ((hs.limits _ _).charge hcharge)

end AccountKeychain

namespace KeychainCall

open AccountKeychain

/-- The arguments are within the widths of their types. -/
def Fits : KeychainCall → Prop
  | authorizeKey _ _ _ config _ => config.expiry ≤ maxWord 64 ∧
      ∀ limit ∈ config.limits, limit.amount ≤ maxWord 256
  | updateSpendingLimit _ _ _ newLimit => newLimit ≤ maxWord 256
  | refundSpendingLimit _ _ amount => amount ≤ maxWord 256
  | _ => True

theorem exec_fits {c : KeychainCall} (hc : c.Fits) (hs : s.Fits)
    (h : Yields (c.exec env) s () s') : s'.Fits := by
  cases c with
  | setTransactionKey k | setTxOrigin o =>
    rw [← h.updates]
    exact ⟨hs.1, hs.2⟩
  | authorizeKey => exact hs.authorizeKeyInternal hc.1 hc.2 h
  | authorizeAdminKey => exact hs.authorizeKeyInternal le_rfl (by nofun) h
  | burnKeyAuthorizationWitness =>
    obtain ⟨_, rfl⟩ := burnKeyAuthorizationWitness_yields h
    exact ⟨hs.1, hs.2⟩
  | revokeKey =>
    obtain ⟨-, rfl⟩ := revokeKey_yields h
    exact hs.putKey (Nat.zero_le _)
  | updateSpendingLimit =>
    obtain ⟨key, l, hactive, rfl, hset⟩ := updateSpendingLimit_yields h
    split
    · exact hs.limitSet hc hset
    · refine (hs.putKey ?_).limitSet hc hset
      exact (loadActiveKey_ok hactive).1 ▸ hs.expiry _ _
  | setAllowedCalls =>
    obtain ⟨_, -, rfl⟩ := yields_focus.mp (setAllowedCalls_yields h)
    exact ⟨hs.1, hs.2⟩
  | removeAllowedCalls =>
    obtain ⟨_, -, rfl⟩ := yields_focus.mp (removeAllowedCalls_yields h)
    exact ⟨hs.1, hs.2⟩
  | verifyAndUpdateSpending => exact hs.charges (verifyAndUpdateSpending_charges h)
  | refundSpendingLimit =>
    obtain rfl | rfl := refundSpendingLimit_yields h
    · exact hs
    · exact hs.putLimit ((hs.limits _ _).refund hc)
  | authorizeTransfer => exact hs.charges (authorizeTransfer_charges h)
  | authorizeApprove => exact hs.charges (authorizeApprove_charges h)

theorem fits_replay {calls : List (KeychainEnv × KeychainCall)}
    (hcalls : ∀ c ∈ calls, c.2.Fits) (hs : s.Fits) : (replay s calls).Fits := by
  induction calls generalizing s with
  | nil => exact hs
  | cons c calls ih =>
    apply ih
    · intro other hother
      exact hcalls other (List.mem_cons_of_mem c hother)
    · change (c.2.apply c.1 s).Fits
      rcases apply_cases c.1 c.2 s with heq | hyields
      · rwa [heq]
      · exact exec_fits (hcalls c List.mem_cons_self) hs hyields

/-- From T3 on, in every state a run of calls can reach, a charge of an active
key goes through exactly up to the limit that is shown at the time of the
block; afterwards the limit shown is lower by the amount charged, and the end
of the period is the one that was shown before. -/
theorem limit_views_agree {calls : List (KeychainEnv × KeychainCall)}
    (hcalls : ∀ c ∈ calls, c.2.Fits) (hspec : .t3 ≤ env.spec)
    {account keyId : Address} (token : Address) (amount : Nat)
    (hs : s = replay .empty calls) (hkey : keyId ≠ 0)
    (henforce : (s.keys account keyId).enforceLimits = true) :
    ((∃ s', Yields (AccountKeychain.verifyAndUpdateSpending env account keyId
        token amount) s () s') ↔ s.ActiveAt account keyId env.timestamp ∧
        amount ≤ s.effectiveRemainingLimit env.spec account keyId token env.timestamp) ∧
    ∀ s', Yields (AccountKeychain.verifyAndUpdateSpending env account keyId token amount) s () s' →
      s'.effectiveRemainingLimit env.spec account keyId token env.timestamp + amount =
        s.effectiveRemainingLimit env.spec account keyId token env.timestamp ∧
      (s'.effectiveLimitState env.spec account keyId token env.timestamp).2 =
        (s.effectiveLimitState env.spec account keyId token env.timestamp).2 := by
  have hfits : s.Fits := hs ▸ fits_replay hcalls fits_empty
  unfold effectiveRemainingLimit
  constructor
  · constructor
    · rintro ⟨s', h⟩
      obtain ⟨hactive, row, hrow, -⟩ := (verifyAndUpdateSpending_iff hkey henforce).mp h
      rw [hactive.effectiveLimitState hspec hkey]
      exact ⟨hactive, (SpendingLimitState.charge_isOk_iff hspec).mp ⟨row, hrow⟩⟩
    · rintro ⟨hactive, hle⟩
      rw [hactive.effectiveLimitState hspec hkey] at hle
      obtain ⟨row, hrow⟩ := (SpendingLimitState.charge_isOk_iff hspec).mpr hle
      exact ⟨_, (verifyAndUpdateSpending_iff hkey henforce).mpr ⟨hactive, row, hrow, rfl⟩⟩
  · intro s' h
    obtain ⟨hactive, row, hrow, rfl⟩ := (verifyAndUpdateSpending_iff hkey henforce).mp h
    have hafter : (s.putLimit (account, keyId) token row).ActiveAt account
        keyId env.timestamp := ⟨hactive.unrevoked, hactive.unexpired⟩
    rw [hactive.effectiveLimitState hspec hkey,
      hafter.effectiveLimitState hspec hkey, putLimit_self]
    exact SpendingLimitState.charge_shown (hfits.limits _ _)
      (hactive.unexpired.trans_le (hfits.expiry _ _)) hspec hrow

/-- A limit of 100 in every ten seconds, used up in one period and charged in
another, from T7 on with the sentinel for zero. -/
theorem limit_views_agree_rolled :
    let account : Address := ⟨1⟩
    let keyId : Address := ⟨2⟩
    let token : Address := ⟨3⟩
    let config : KeyRestrictions := ⟨5000, true, [⟨token, 100, 10⟩], true, []⟩
    let calls : List (KeychainEnv × KeychainCall) :=
      [(blockAt .t7 1000, setTxOrigin account),
        (blockAt .t7 1000, authorizeKey account keyId .p256 config none),
        (blockAt .t7 1001, verifyAndUpdateSpending account keyId token 100)]
    let s := replay .empty calls
    s.effectiveLimitState .t7 account keyId token 1009 = (0, 1010) ∧
      s.effectiveLimitState .t7 account keyId token 1234 = (100, 1240) ∧
      ∃ s', Yields (AccountKeychain.verifyAndUpdateSpending (blockAt .t7 1234)
        account keyId token 60) s () s' ∧
        s'.effectiveRemainingLimit .t7 account keyId token 1234 + 60 = 100 := by
  intro account keyId token config calls s
  have hbefore : s.effectiveLimitState .t7 account keyId token 1234 = (100, 1240) := by decide
  have hall := @limit_views_agree (blockAt .t7 1234) s calls (by
    intro c hc
    simp only [calls, List.mem_cons, List.not_mem_nil, or_false] at hc
    rcases hc with rfl | rfl | rfl
    · trivial
    · exact ⟨by decide, by decide⟩
    · trivial) (by decide) account keyId token 60 rfl (by decide) (by decide)
  have hactive : s.ActiveAt account keyId 1234 := ⟨by decide, by decide⟩
  obtain ⟨s', h⟩ := hall.1.mpr ⟨hactive, show 60 ≤ (s.effectiveLimitState .t7
    account keyId token 1234).1 by rw [hbefore]; decide⟩
  refine ⟨by decide, hbefore, s', h, (hall.2 s' h).1.trans ?_⟩
  exact congrArg Prod.fst hbefore

end KeychainCall

end Tempo
