/-
What an access key can spend of one token.  Windows of a periodic limit are
counted from the authorization of the key; a row remembers the end of the
window it was last charged in and rolls over lazily, over any number of idle
windows.  The stored end is cut off at 64 bits, and only there does the window
it describes differ from the counted one.
-/
import Tempo.Keychain.Effects

namespace Tempo

open SpendingLimitState

variable {l l' : SpendingLimitState} {amount start : Nat} {env : KeychainEnv}
  {s s' : AccountKeychain}

/-! Amounts over time. -/

/-- Amounts, refunds negative, with the time they were charged at. -/
abbrev SpendLog := List (Nat × Int)

namespace SpendLog

def total (entries : SpendLog) : Int :=
  (entries.map Prod.snd).sum

/-- What falls into the half-open interval of times. -/
def within (lo hi : Nat) (entries : SpendLog) : Int :=
  (entries.map fun e => if lo ≤ e.1 ∧ e.1 < hi then e.2 else 0).sum

theorem total_concat (entries : SpendLog) (t : Nat) (x : Int) :
    total (entries ++ [(t, x)]) = total entries + x := by
  simp [total]

theorem within_concat (lo hi : Nat) (entries : SpendLog) (t : Nat) (x : Int) :
    within lo hi (entries ++ [(t, x)]) =
      within lo hi entries + if lo ≤ t ∧ t < hi then x else 0 := by
  simp [within]

/-- The window with the given number, counted from `start`. -/
def window (start period k : Nat) (entries : SpendLog) : Int :=
  within (start + k * period) (start + (k + 1) * period) entries

theorem exists_multiple {period : Nat} (hp : 0 < period) (t : Nat) :
    ∃ n, t / period = n ∧ n * period ≤ t ∧ t < (n + 1) * period :=
  ⟨_, rfl, Nat.div_mul_le_self _ _, Nat.lt_mul_of_div_lt (Nat.lt_succ_self _) hp⟩

theorem window_index_le {start period j k t : Nat}
    (hlo : start + k * period ≤ t) (hhi : t < start + (j + 1) * period) : k ≤ j := by
  have hlt : k * period < (j + 1) * period := by omega
  exact Nat.lt_succ_iff.mp (Nat.lt_of_mul_lt_mul_right hlt)

/-- An entry in window `k` counts there and nowhere else. -/
theorem window_concat {start period k t : Nat} {x : Int} (j : Nat)
    (entries : SpendLog) (hlo : start + k * period ≤ t) (hhi : t < start + (k + 1) * period) :
    window start period j (entries ++ [(t, x)]) =
      window start period j entries + if j = k then x else 0 := by
  rw [window, within_concat]
  by_cases hjk : j = k
  · subst hjk
    rw [if_pos ⟨hlo, hhi⟩, if_pos rfl]
    rfl
  · rw [if_neg hjk, if_neg]
    · rfl
    · rintro ⟨hjlo, hjhi⟩
      have hkj := window_index_le hlo hjhi
      have hjk' := window_index_le hjlo hhi
      omega

end SpendLog

open SpendLog

variable {done : SpendLog}

/-! One row. -/

namespace SpendingLimitState

variable {spec spec' : TempoHardfork} {now : Nat}

theorem decodeRemaining_le : l.decodeRemaining spec ≤ l.remaining := by
  unfold decodeRemaining
  split
  · exact Nat.zero_le _
  · exact le_rfl

/-- The sentinel is read as zero from T7 on and never before it was written. -/
theorem decodeRemaining_antitone (hspec : spec ≤ spec') :
    l.decodeRemaining spec' ≤ l.decodeRemaining spec := by
  by_cases h : .t7 ≤ spec ∧ l.remaining = zeroPeriodicRemainingSentinel
  · have h' : .t7 ≤ spec' ∧ l.remaining = zeroPeriodicRemainingSentinel := ⟨le_trans h.1 hspec, h.2⟩
    rw [decodeRemaining, decodeRemaining, if_pos h, if_pos h']
  · rw [decodeRemaining, decodeRemaining, if_neg h]
    exact decodeRemaining_le

theorem decode_encode_le {r : Nat} (h : l.remaining = encodeRemaining spec r) :
    l.decodeRemaining spec ≤ r := by
  by_cases hr : .t7 ≤ spec ∧ r = 0
  · rw [encodeRemaining, if_pos hr] at h
    rw [decodeRemaining, if_pos ⟨hr.1, h⟩]
    exact Nat.zero_le _
  · rw [encodeRemaining, if_neg hr] at h
    exact h ▸ decodeRemaining_le

/-- A refund restores at most its amount, in whichever encoding. -/
theorem refund_decodeRemaining_le (amount : Nat) (hspec : .t3 ≤ spec) (hp : l.period ≠ 0) :
    (l.refund spec amount).decodeRemaining spec ≤ l.decodeRemaining spec + amount := by
  refine le_trans decodeRemaining_le ?_
  have hadd : saturatingAdd 256 l.remaining amount ≤ l.remaining + amount := min_le_left _ _
  have hrefunded : (if .t7 ≤ spec ∧ l.period ≠ 0 ∧
        l.remaining = zeroPeriodicRemainingSentinel then amount
      else saturatingAdd 256 l.remaining amount) ≤ l.decodeRemaining spec + amount := by
    by_cases h : .t7 ≤ spec ∧ l.remaining = zeroPeriodicRemainingSentinel
    · rw [if_pos ⟨h.1, hp, h.2⟩]
      exact Nat.le_add_left _ _
    · rw [if_neg fun h' => h ⟨h'.1, h'.2.2⟩, decodeRemaining, if_neg h]
      exact hadd
  simp only [refund, if_pos hspec]
  split
  · exact hrefunded
  · exact le_trans (min_le_left _ _) hrefunded

theorem refund_remaining_le (amount : Nat) (hspec : .t3 ≤ spec) (hp : l.period = 0) :
    (l.refund spec amount).remaining ≤ l.remaining + amount := by
  have hadd : saturatingAdd 256 l.remaining amount ≤ l.remaining + amount := min_le_left _ _
  simp only [refund, if_pos hspec, hp, ne_eq, not_true_eq_false, false_and, and_false, if_false]
  split
  · exact hadd
  · exact le_trans (min_le_left _ _) hadd

/-- A refund changes what remains only. -/
theorem refund_eq :
    l.refund spec amount = { l with remaining := (l.refund spec amount).remaining } := by
  unfold refund
  split <;> rfl

/-- A charge of a row without a period. -/
theorem charge_oneTime (hp : l.period = 0) (h : l.charge spec now amount = .ok l') :
    amount ≤ l.remaining ∧ l' = { l with remaining := l.remaining - amount } := by
  rw [charge, if_neg fun h' => h'.2 hp] at h
  split at h
  · cases h
  · exact ⟨by omega, (Except.ok.inj h).symm⟩

theorem charge_periodic (hspec : .t3 ≤ spec) (hp : l.period ≠ 0)
    (h : l.charge spec now amount = .ok l') : amount ≤ (l.rollOver spec now).1 ∧ l' = { l with
        remaining := encodeRemaining spec ((l.rollOver spec now).1 - amount)
        periodEnd := (l.rollOver spec now).2 } := by
  rw [charge, if_pos ⟨hspec, hp⟩] at h
  dsimp only at h
  split at h
  · cases h
  · exact ⟨by omega, (Except.ok.inj h).symm⟩

/-- A row that ended in window `k` rolls over into the window of `now`. -/
theorem computeNextPeriodEnd_eq (start k : Nat) (hp : 0 < l.period)
    (hend : l.periodEnd = start + (k + 1) * l.period)
    (hle : l.periodEnd ≤ now) (hnow : now < maxWord 64) :
    ∃ k', k < k' ∧ start + k' * l.period ≤ now ∧ now < start + (k' + 1) * l.period ∧
      l.computeNextPeriodEnd now = min (start + (k' + 1) * l.period) (maxWord 64) := by
  obtain ⟨n, hn, hdiv, hlt⟩ := exists_multiple hp (now - l.periodEnd)
  have hnle : n ≤ now := by
    have : n ≤ n * l.period := Nat.le_mul_of_pos_right n hp
    omega
  have hsplit : (k + (n + 1) + 1) * l.period = (k + 1) * l.period + (n + 1) * l.period := by ring
  have hsplit' : (k + (n + 1)) * l.period = (k + 1) * l.period + n * l.period := by ring
  refine ⟨k + (n + 1), by omega, by omega, by omega, ?_⟩
  have hcount : saturatingAdd 64 n 1 = n + 1 := min_eq_left (by omega)
  rw [computeNextPeriodEnd, hn]
  rw [hcount, saturatingMul, saturatingAdd, mul_comm l.period (n + 1), hend, hsplit]
  omega

end SpendingLimitState

/-! The invariants of a row along a run. -/

section Rows

variable {m p : Nat} {env' : KeychainEnv} {t : Nat}

/-- Time and forks do not go backwards. -/
def KeychainEnv.Before (env env' : KeychainEnv) : Prop :=
  env.timestamp ≤ env'.timestamp ∧ env.spec ≤ env'.spec

structure OneTimeKept (m : Nat) (done : SpendLog) (l : SpendingLimitState) : Prop where
  period_eq : l.period = 0
  max_eq : l.max = m
  spent : done.total + l.remaining ≤ m

/-- `k` is the window of the last charge. -/
structure PeriodicKept (start p m k : Nat) (done : SpendLog)
    (l : SpendingLimitState) (env : KeychainEnv) : Prop where
  period_eq : l.period = p
  max_eq : l.max = m
  periodEnd_eq : l.periodEnd = min (start + (k + 1) * p) (maxWord 64)
  begun : start + k * p ≤ env.timestamp
  bounded : ∀ j, done.window start p j ≤ m
  later : ∀ j, k < j → done.window start p j ≤ 0
  current : env.timestamp < l.periodEnd → done.window start p k + l.decodeRemaining env.spec ≤ m

/-- What is accounted is taken from what remains. -/
theorem OneTimeKept.step {x : Int} (h : OneTimeKept m done l) (hperiod : l'.period = l.period)
    (hmax : l'.max = l.max) (hspent : x + l'.remaining ≤ l.remaining) :
    OneTimeKept m (done ++ [(t, x)]) l' := by
  refine ⟨hperiod.trans h.period_eq, hmax.trans h.max_eq, ?_⟩
  have := h.spent
  rw [total_concat]
  omega

namespace PeriodicKept

variable {k : Nat} (h : PeriodicKept start p m k done l env)
include h

theorem advance (hb : env.Before env') : PeriodicKept start p m k done l env' where
  period_eq := h.period_eq
  max_eq := h.max_eq
  periodEnd_eq := h.periodEnd_eq
  begun := le_trans h.begun hb.1
  bounded := h.bounded
  later := h.later
  current hlt := by
    have hcur := h.current (lt_of_le_of_lt hb.1 hlt)
    have hdec := decodeRemaining_antitone (l := l) hb.2
    omega

theorem idle {t : Nat} : PeriodicKept start p m k (done ++ [(t, 0)]) l env := by
  have hsame : ∀ j, (done ++ [(t, 0)]).window start p j = done.window start p j := by
    intro j
    rw [window, within_concat, ite_self, Int.add_zero]
    rfl
  refine ⟨h.period_eq, h.max_eq, h.periodEnd_eq, h.begun, ?_, ?_, ?_⟩
  all_goals simp only [hsame]
  exacts [h.bounded, h.later, h.current]

/-- The window of the current time, which is not before the last charge. -/
theorem exists_window (hp : 0 < p) : ∃ j, k ≤ j ∧ start + j * p ≤ env.timestamp ∧
      env.timestamp < start + (j + 1) * p := by
  obtain ⟨n, -, hdiv, hlt⟩ := exists_multiple hp (env.timestamp - (start + k * p))
  have hbegun := h.begun
  have hsplit : (k + n) * p = k * p + n * p := by ring
  have hsplit' : (k + n + 1) * p = k * p + (n + 1) * p := by ring
  exact ⟨k + n, by omega, by omega, by omega⟩

theorem refund (hp : 0 < p) (hspec : .t3 ≤ env.spec) :
    PeriodicKept start p m k (done ++ [(env.timestamp, -(amount : Int))])
      (l.refund env.spec amount) env := by
  obtain ⟨w, hkw, hlo, hhi⟩ := h.exists_window hp
  have hadd : ∀ j, (done ++ [(env.timestamp, -(amount : Int))]).window start p
      j = done.window start p j + if j = w then -(amount : Int) else 0 :=
    fun j => window_concat j done hlo hhi
  have hle := refund_decodeRemaining_le amount hspec (h.period_eq ▸ hp.ne')
  rw [refund_eq] at hle ⊢
  refine ⟨h.period_eq, h.max_eq, h.periodEnd_eq, h.begun, ?_, ?_, ?_⟩
  · intro j
    have := h.bounded j
    rw [hadd]
    split <;> omega
  · intro j hj
    have := h.later j hj
    rw [hadd]
    split <;> omega
  · intro hlt
    have hcur := h.current hlt
    have hend := h.periodEnd_eq
    dsimp only at hlt
    -- the row is not stale, so the refund falls into its own window
    have hwk := window_index_le (j := k) hlo (by omega)
    have heq : k = w := by omega
    rw [hadd, if_pos heq]
    omega

/-- A charge in window `w`, of what is left there. -/
theorem charged_in {w r : Nat} (hkw : k ≤ w) (hlo : start + w * p ≤ env.timestamp)
    (hhi : env.timestamp < start + (w + 1) * p) (hleft : done.window start p w + r ≤ m)
    (hle : amount ≤ r) (hperiod : l'.period = l.period) (hmax : l'.max = l.max)
    (hend : l'.periodEnd = min (start + (w + 1) * p) (maxWord 64))
    (hrem : l'.remaining = encodeRemaining env.spec (r - amount)) :
    PeriodicKept start p m w (done ++ [(env.timestamp, (amount : Int))]) l' env := by
  have hadd : ∀ j, (done ++ [(env.timestamp, (amount : Int))]).window start p
      j = done.window start p j + if j = w then (amount : Int) else 0 :=
    fun j => window_concat j done hlo hhi
  refine ⟨hperiod.trans h.period_eq, hmax.trans h.max_eq, hend, hlo, ?_, ?_, ?_⟩
  · intro j
    have := h.bounded j
    rw [hadd]
    split
    next hj =>
      subst hj
      omega
    next => omega
  · intro j hj
    have := h.later j (by omega)
    rw [hadd, if_neg (by omega)]
    omega
  · have hdec := decode_encode_le hrem
    rw [hadd, if_pos rfl]
    omega

theorem charge (hp : 0 < p) (hspec : .t3 ≤ env.spec) (hnow : env.timestamp < maxWord 64)
    (hc : l.charge env.spec env.timestamp amount = .ok l') :
    ∃ k', PeriodicKept start p m k' (done ++ [(env.timestamp, (amount : Int))]) l' env := by
  obtain ⟨hle, rfl⟩ := charge_periodic hspec (h.period_eq ▸ hp.ne') hc
  have hend := h.periodEnd_eq
  have hbegun := h.begun
  by_cases hroll : l.periodEnd ≤ env.timestamp
  · simp only [rollOver, if_pos hroll] at hle ⊢
    have hmeq := h.max_eq
    obtain rfl := h.period_eq
    obtain ⟨w, hkw, hlo, hhi, hnext⟩ := computeNextPeriodEnd_eq start k hp (by omega) hroll hnow
    have hfresh := h.later w hkw
    exact ⟨w, h.charged_in hkw.le hlo hhi (by omega) hle rfl rfl hnext rfl⟩
  · simp only [rollOver, if_neg hroll] at hle ⊢
    have hcur := h.current (by omega)
    exact ⟨k, h.charged_in (Nat.le_refl k) hbegun (by omega) hcur hle rfl rfl hend rfl⟩

end PeriodicKept

end Rows

/-! The row of one key and token within the keychain. -/

namespace AccountKeychain

variable {account keyId token : Address}

/-- The limits of the key are enforced for as long as it can be used. -/
def Limited (account keyId : Address) (s : AccountKeychain) : Prop :=
  (s.keys account keyId).isRevoked = true ∨ ((s.keys account keyId).expiry ≠ 0 ∧
      (s.keys account keyId).expiry ≤ maxWord 64 ∧ (s.keys account keyId).enforceLimits = true)

/-- Keys and limits of the account key are as before. -/
def SameRows (account keyId : Address) (s s' : AccountKeychain) : Prop :=
  s'.keys account keyId = s.keys account keyId ∧
    s'.spendingLimits (account, keyId) = s.spendingLimits (account, keyId)

theorem onScope_sameRows {row : Address × Address} {m : Exec KeyScope Unit}
    (h : Yields (onScope row m) s () s') : SameRows account keyId s s' := by
  obtain ⟨scope, -, rfl⟩ := h.focus
  exact ⟨rfl, rfl⟩

/-- Authorizing another key leaves the rows of this one alone. -/
theorem authorizeKeyInternal_sameRows {signatureType : SignatureType}
    {config : KeyRestrictions} {witness : Option B256} {isAdmin : Bool}
    {a k : Address} (hne : (a, k) ≠ (account, keyId))
    (h : Yields (authorizeKeyInternal env a k signatureType config witness
      isAdmin) s () s') : SameRows account keyId s s' := by
  obtain ⟨-, -, -, -, allowedCalls, -, h⟩ := authorizeKeyInternal_yields h
  have hkeys := putKey_of_ne (s := s) ⟨signatureType, config.expiry,
    config.enforceLimits, false, isAdmin⟩ hne
  split at h
  · obtain ⟨-, rfl⟩ := h.pure
    exact ⟨hkeys, rfl⟩
  · obtain ⟨s1, hlimits, hk, hl, -⟩ := applyRestrictions_yields h
    obtain ⟨hk1, -, hl1⟩ := applyLimits_keys hlimits
    refine ⟨?_, ?_⟩
    · rw [hk, hk1]
      exact hkeys
    · rw [hl]
      exact hl1 _ (Ne.symm hne)

variable (hlim : Limited account keyId s)
include hlim

/-- A key that exists or was revoked cannot be authorized again. -/
theorem Limited.not_authorizable (hexpiry : (s.keys account keyId).expiry = 0)
    (hrevoked : (s.keys account keyId).isRevoked = false) : False := by
  rcases hlim with hlim | ⟨hlim, -⟩
  · rw [hrevoked] at hlim
    cases hlim
  · exact hlim hexpiry

theorem Limited.of_sameRows (h : SameRows account keyId s s') : Limited account keyId s' := by
  rw [Limited, h.1]
  exact hlim

/-- A usable key has its limits enforced and time left. -/
theorem Limited.of_active {now : Nat} {key : AuthorizedKey}
    (h : s.loadActiveKey account keyId now = .ok key) :
    key.enforceLimits = true ∧ now < maxWord 64 := by
  obtain ⟨rfl, hrevoked, hnow⟩ := loadActiveKey_ok h
  rcases hlim with hlim | ⟨-, hle, henforce⟩
  · rw [hrevoked] at hlim
    cases hlim
  · exact ⟨henforce, by omega⟩

end AccountKeychain

/-- What a call does to a row: nothing, a charge or a refund. -/
inductive RowEffect (env : KeychainEnv) (l : SpendingLimitState) : SpendingLimitState → Int → Prop
  | idle : RowEffect env l l 0
  | charged {l' : SpendingLimitState} {amount : Nat} (now : env.timestamp < maxWord 64)
      (charge : l.charge env.spec env.timestamp amount = .ok l') :
      RowEffect env l l' amount
  | refunded (amount : Nat) :
      RowEffect env l (l.refund env.spec amount) (-(amount : Int))

namespace KeychainCall

open AccountKeychain

variable (account keyId token : Address)

/-- Whether the limits of the key are those the transaction is subject to. -/
def Governs (s : AccountKeychain) (a t : Address) : Prop :=
  s.transactionKey = keyId ∧ s.txOrigin = account ∧ a = account ∧ t = token

instance (s : AccountKeychain) (a t : Address) : Decidable (Governs account keyId token s a t) :=
  inferInstanceAs (Decidable (_ ∧ _ ∧ _ ∧ _))

/-- What the call, when it succeeds, takes from the limit of the key for the
token; refunds to a key that is no longer active do not count. -/
def spending (env : KeychainEnv) (s : AccountKeychain) : KeychainCall → Int
  | verifyAndUpdateSpending a k t amount =>
    if a = account ∧ k = keyId ∧ t = token then amount else 0
  | authorizeTransfer a t amount =>
    if Governs account keyId token s a t then amount else 0
  | authorizeApprove a t oldApproval newApproval =>
    if Governs account keyId token s a t then
      ((newApproval - oldApproval : Nat) : Int)
    else 0
  | refundSpendingLimit a t amount =>
    if Governs account keyId token s a t ∧ (s.loadActiveKey account keyId env.timestamp).isOk then
      -(amount : Int)
    else 0
  | _ => 0

/-- The amounts of a run, with their times; calls that fail count nothing. -/
def spendLog : AccountKeychain → List (KeychainEnv × KeychainCall) → SpendLog
  | _, [] => []
  | s, (env, c) :: rest =>
    match (c.exec env).run s with
    | .ok _ s' =>
      (env.timestamp, spending account keyId token env s c) :: spendLog s' rest
    | .error _ _ => spendLog s rest

variable {account keyId token} {x : Int}

/-- The call does not set the limit anew. -/
def KeepsLimit (account keyId token : Address) (c : KeychainCall) : Prop :=
  ∀ newLimit, c ≠ updateSpendingLimit account keyId token newLimit

/-- What a successful call comes to for the row of the key and the token. -/
def Accounts (account keyId token : Address) (env : KeychainEnv) (s s' : AccountKeychain)
    (x : Int) : Prop :=
  Limited account keyId s' ∧ RowEffect env (s.spendingLimits (account, keyId) token)
    (s'.spendingLimits (account, keyId) token) x

theorem effect_of_sameRows (hlim : Limited account keyId s)
    (h : SameRows account keyId s s') (hx : x = 0) : Accounts account keyId token env s s' x := by
  refine ⟨hlim.of_sameRows h, ?_⟩
  rw [hx, h.2]
  exact .idle

/-- A call that returns at once. -/
theorem effect_of_skip (hlim : Limited account keyId s)
    (h : Yields (pure () : Exec AccountKeychain Unit) s () s') (hx : x = 0) :
    Accounts account keyId token env s s' x := by
  obtain ⟨-, rfl⟩ := h.pure
  exact effect_of_sameRows hlim ⟨rfl, rfl⟩ hx

variable {a t : Address} {k : Address}

/-- A row that is written: the one that is accounted, or another. -/
theorem effect_of_putLimit {row : SpendingLimitState} (hlim : Limited account keyId s)
    (hsame : a = account → k = keyId → t = token →
      RowEffect env (s.spendingLimits (account, keyId) token) row x)
    (hother : ¬(a = account ∧ k = keyId ∧ t = token) → x = 0) :
    Accounts account keyId token env s (s.putLimit (a, k) t row) x := by
  refine ⟨hlim, ?_⟩
  by_cases hrow : (account, keyId) = (a, k)
  · obtain ⟨rfl, rfl⟩ := Prod.mk.inj hrow
    by_cases htoken : t = token
    · subst htoken
      rw [putLimit_self]
      exact hsame rfl rfl rfl
    · rw [hother fun h => htoken h.2.2, putLimit_of_token_ne _ (Ne.symm htoken)]
      exact .idle
  · rw [putLimit_of_row_ne _ hrow, hother fun h => hrow (Prod.ext h.1.symm h.2.1.symm)]
    exact .idle

theorem verifyAndUpdateSpending_effect (hkey : keyId ≠ 0) (hlim : Limited account keyId s)
    (h : Yields (AccountKeychain.verifyAndUpdateSpending env a k t amount) s () s') :
    Accounts account keyId token env s s'
      (if a = account ∧ k = keyId ∧ t = token then (amount : Int) else 0) := by
  unfold AccountKeychain.verifyAndUpdateSpending at h
  split at h
  next hk =>
    refine effect_of_skip hlim h (if_neg ?_)
    rintro ⟨-, rfl, -⟩
    exact hkey hk
  · simp only [yields_steps, id_eq] at h
    obtain ⟨key, hactive, h⟩ := h
    split at h
    next henforce =>
      simp only [yields_steps] at h
      obtain ⟨row, hrow, rfl⟩ := h
      refine effect_of_putLimit hlim ?_ fun hne => if_neg hne
      rintro rfl rfl rfl
      rw [if_pos ⟨rfl, rfl, rfl⟩]
      exact .charged (hlim.of_active hactive).2 hrow
    next henforce =>
      refine effect_of_skip hlim h (if_neg ?_)
      rintro ⟨rfl, rfl, -⟩
      exact henforce (hlim.of_active hactive).1

/-- Without a governing key nothing is charged. -/
theorem not_governs (hkey : keyId ≠ 0) (h : s.transactionKey = 0 ∨ a ≠ s.txOrigin) :
    ¬Governs account keyId token s a t := by
  rintro ⟨htx, horigin, rfl, -⟩
  rcases h with hzero | hother
  · exact hkey (htx ▸ hzero)
  · exact hother horigin.symm

theorem refundSpendingLimit_effect (hkey : keyId ≠ 0) (hlim : Limited account keyId s)
    (h : Yields (AccountKeychain.refundSpendingLimit env a t amount) s () s') :
    Accounts account keyId token env s s' (if Governs account keyId token s a t ∧
            (s.loadActiveKey account keyId env.timestamp).isOk then -(amount : Int) else 0) := by
  simp only [AccountKeychain.refundSpendingLimit, yields_reads_bind, id_eq] at h
  split at h
  next hskip =>
    exact effect_of_skip hlim h (if_neg fun hg => not_governs hkey hskip hg.1)
  next hactive =>
    rw [not_or, not_not] at hactive
    split at h
    next e hload =>
      refine effect_of_skip hlim h (if_neg ?_)
      rintro ⟨⟨htx, -, rfl, -⟩, hok⟩
      rw [htx] at hload
      rw [hload] at hok
      cases hok
    next key hload =>
      split at h
      next henforce =>
        rw [← h.updates]
        refine effect_of_putLimit hlim ?_ fun hne => if_neg ?_
        · rintro rfl hk rfl
          rw [hk] at hload ⊢
          have hok : (s.loadActiveKey a keyId env.timestamp).isOk := by
            rw [hload]
            rfl
          rw [if_pos ⟨⟨hk, hactive.2.symm, rfl, rfl⟩, hok⟩]
          exact .refunded amount
        · rintro ⟨⟨hk, -, rfl, rfl⟩, -⟩
          exact hne ⟨rfl, hk, rfl⟩
      next henforce =>
        refine effect_of_skip hlim h (if_neg ?_)
        rintro ⟨⟨htx, -, rfl, -⟩, -⟩
        rw [htx] at hload
        exact henforce (hlim.of_active hload).1

/-- A charge made on behalf of the transaction. -/
theorem transaction_effect (hkey : keyId ≠ 0) (hlim : Limited account keyId s)
    (horigin : ¬(s.transactionKey = 0 ∨ a ≠ s.txOrigin))
    (h : Yields (AccountKeychain.verifyAndUpdateSpending env a s.transactionKey t amount) s () s') :
    Accounts account keyId token env s s'
      (if Governs account keyId token s a t then (amount : Int) else 0) := by
  rw [not_or, not_not] at horigin
  have hsame : (a = account ∧ s.transactionKey = keyId ∧ t = token) ↔
      Governs account keyId token s a t := by
    constructor
    · rintro ⟨rfl, hk, rfl⟩
      exact ⟨hk, horigin.2.symm, rfl, rfl⟩
    · rintro ⟨hk, -, rfl, rfl⟩
      exact ⟨rfl, hk, rfl⟩
  have heffect : Accounts account keyId token env s s' _ :=
    verifyAndUpdateSpending_effect hkey hlim h
  rwa [if_congr hsame rfl rfl] at heffect

theorem updateSpendingLimit_effect {newLimit : Nat} (hkeep : KeepsLimit account keyId token
      (updateSpendingLimit a k t newLimit)) (hlim : Limited account keyId s)
    (h : Yields (AccountKeychain.updateSpendingLimit env a k t newLimit) s () s') :
    Accounts account keyId token env s s' 0 := by
  obtain ⟨key, l, hactive, rfl, -⟩ := updateSpendingLimit_yields h
  unfold Accounts
  by_cases hrow : (account, keyId) = (a, k)
  · obtain ⟨rfl, rfl⟩ := Prod.mk.inj hrow
    have htoken : token ≠ t := by
      rintro rfl
      exact hkeep newLimit rfl
    -- the flag is already set, so only the row of another token changes
    rw [if_pos (hlim.of_active hactive).1, putLimit_of_token_ne l htoken]
    exact ⟨hlim, .idle⟩
  · rw [putLimit_of_row_ne l hrow]
    split
    · exact ⟨hlim, .idle⟩
    · refine ⟨?_, .idle⟩
      have hkeys := putKey_of_ne (s := s) { key with enforceLimits := true } (Ne.symm hrow)
      exact hlim.of_sameRows ⟨hkeys, putLimit_of_row_ne l hrow⟩

/-- Every successful call is idle for the row, charges it or refunds it, by
the amount it is accounted with. -/
theorem exec_effect {c : KeychainCall} (hkey : keyId ≠ 0) (hkeep : KeepsLimit account keyId token c)
    (hlim : Limited account keyId s) (h : Yields (c.exec env) s () s') :
    Accounts account keyId token env s s' (spending account keyId token env s c) := by
  cases c with
  | setTransactionKey k | setTxOrigin origin =>
    rw [← h.updates]
    exact ⟨hlim, .idle⟩
  | authorizeKey a k signatureType config witness
  | authorizeAdminKey a k signatureType witness =>
    by_cases hrow : (a, k) = (account, keyId)
    · obtain ⟨rfl, rfl⟩ := Prod.mk.inj hrow
      obtain ⟨-, hexpiry, hrevoked, -⟩ := authorizeKeyInternal_yields h
      exact (hlim.not_authorizable hexpiry hrevoked).elim
    · exact effect_of_sameRows hlim (authorizeKeyInternal_sameRows hrow h) rfl
  | burnKeyAuthorizationWitness a witness =>
    obtain ⟨_, rfl⟩ := burnKeyAuthorizationWitness_yields h
    exact ⟨hlim, .idle⟩
  | revokeKey a k =>
    obtain ⟨-, rfl⟩ := revokeKey_yields h
    refine ⟨?_, .idle⟩
    by_cases hrow : (a, k) = (account, keyId)
    · obtain ⟨rfl, rfl⟩ := Prod.mk.inj hrow
      left
      rw [putKey_self]
    · exact hlim.of_sameRows ⟨putKey_of_ne _ hrow, rfl⟩
  | updateSpendingLimit a k t newLimit =>
    exact updateSpendingLimit_effect hkeep hlim h
  | setAllowedCalls a k scopes =>
    exact effect_of_sameRows hlim (onScope_sameRows (setAllowedCalls_yields h)) rfl
  | removeAllowedCalls a k target =>
    exact effect_of_sameRows hlim (onScope_sameRows (removeAllowedCalls_yields h)) rfl
  | verifyAndUpdateSpending a k t amount =>
    exact verifyAndUpdateSpending_effect hkey hlim h
  | refundSpendingLimit a t amount =>
    exact refundSpendingLimit_effect hkey hlim h
  | authorizeTransfer a t amount =>
    have htransfer := yields_reads_bind.mp h
    split at htransfer
    next hskip =>
      exact effect_of_skip hlim htransfer (if_neg (not_governs hkey hskip))
    next horigin => exact transaction_effect hkey hlim horigin htransfer
  | authorizeApprove a t oldApproval newApproval =>
    have happrove := yields_reads_bind.mp h
    split at happrove
    next hskip =>
      exact effect_of_skip hlim happrove (if_neg (not_governs hkey hskip))
    next horigin =>
      split at happrove
      next hfree =>
        refine effect_of_skip hlim happrove ?_
        simp only [spending, hfree]
        split <;> rfl
      next => exact transaction_effect hkey hlim horigin happrove

/-! Runs. -/

/-- What holds of a row and the amounts accounted so far. -/
def Budget (start m p : Nat) (done : SpendLog) (l : SpendingLimitState)
    (env : KeychainEnv) : Prop :=
  (p = 0 ∧ OneTimeKept m done l) ∨ (0 < p ∧ ∃ k, PeriodicKept start p m k done l env)

theorem Budget.advance {m p : Nat} {env' : KeychainEnv}
    (h : Budget start m p done l env) (hb : env.Before env') : Budget start m p done l env' := by
  rcases h with h | ⟨hp, k, h⟩
  · exact .inl h
  · exact .inr ⟨hp, k, h.advance hb⟩

theorem Budget.effect {m p : Nat} {l' : SpendingLimitState}
    (hspec : .t3 ≤ env.spec) (h : Budget start m p done l env) (he : RowEffect env l l' x) :
    Budget start m p (done ++ [(env.timestamp, x)]) l' env := by
  rcases h with ⟨hp, h⟩ | ⟨hp, k, h⟩
  · refine .inl ⟨hp, ?_⟩
    cases he with
    | idle => exact h.step rfl rfl (by omega)
    | charged now charge =>
      obtain ⟨hle, rfl⟩ := charge_oneTime h.period_eq charge
      exact h.step rfl rfl (by dsimp only; omega)
    | refunded amount =>
      have hle := refund_remaining_le amount hspec h.period_eq
      rw [refund_eq]
      exact h.step rfl rfl (by dsimp only; omega)
  · refine .inr ⟨hp, ?_⟩
    cases he with
    | idle => exact ⟨k, h.idle⟩
    | charged now charge => exact h.charge hp hspec now charge
    | refunded amount => exact ⟨k, h.refund hp hspec⟩

/-- The calls follow each other, and the first follows `env`. -/
def Ordered : KeychainEnv → List (KeychainEnv × KeychainCall) → Prop
  | _, [] => True
  | env, (env', _) :: rest => env.Before env' ∧ Ordered env' rest

theorem run_budget {m p : Nat} (hkey : keyId ≠ 0)
    {calls : List (KeychainEnv × KeychainCall)} (hspec : .t3 ≤ env.spec)
    (hordered : Ordered env calls) (hkeep : ∀ c ∈ calls, KeepsLimit account keyId token c.2)
    (hlim : Limited account keyId s)
    (h : Budget start m p done (s.spendingLimits (account, keyId) token) env) :
    ∃ last, Budget start m p (done ++ spendLog account keyId token s calls)
      ((replay s calls).spendingLimits (account, keyId) token) last := by
  induction calls generalizing s env done with
  | nil =>
    refine ⟨env, ?_⟩
    rw [spendLog, List.append_nil]
    exact h
  | cons call calls ih =>
    obtain ⟨env', c⟩ := call
    obtain ⟨hbefore, hrest⟩ := hordered
    have hspec' : .t3 ≤ env'.spec := le_trans hspec hbefore.2
    have hkeep' : ∀ d ∈ calls, KeepsLimit account keyId token d.2 :=
      fun d hd => hkeep d (.tail _ hd)
    have hnow := h.advance hbefore
    rw [replay, List.foldl_cons, spendLog]
    unfold apply
    cases hrun : (c.exec env').run s with
    | ok u s1 =>
      obtain ⟨hlim1, heffect⟩ := exec_effect hkey (hkeep _ (.head _)) hlim hrun
      have hstep := hnow.effect hspec' heffect
      obtain ⟨last, hlast⟩ := ih hspec' hrest hkeep' hlim1 hstep
      refine ⟨last, ?_⟩
      rw [List.append_assoc] at hlast
      exact hlast
    | error e s1 => exact ih hspec' hrest hkeep' hlim hnow

/-- The row a successful authorization configures. -/
theorem authorizeKey_budget {signatureType : SignatureType}
    {config : KeyRestrictions} {witness : Option B256} {limit : TokenLimit}
    (hspec : .t3 ≤ env.spec) (henforce : config.enforceLimits = true)
    (hlimit : limit ∈ config.limits) (hexpiry : config.expiry ≤ maxWord 64)
    (hauth : Yields (AccountKeychain.authorizeKey env account keyId
      signatureType config witness) s () s') :
    keyId ≠ 0 ∧ Limited account keyId s' ∧ Budget env.timestamp limit.amount limit.period []
        (s'.spendingLimits (account, keyId) limit.token) env := by
  obtain ⟨hzero, -, -, hchecks, -⟩ := authorizeKeyInternal_yields hauth
  have hspec2 : .t2 ≤ env.spec := le_trans (by decide) hspec
  have hpast := (hchecks hspec2).2
  refine ⟨hzero, .inr ?_, ?_⟩
  · rw [(authorizeKeyInternal_key hspec2 hauth).2]
    exact ⟨by dsimp only; omega, hexpiry, henforce⟩
  · rw [((authorizeKey_rows hspec henforce hauth).1 limit hlimit).2]
    rcases Nat.eq_zero_or_pos limit.period with hp | hp
    · exact .inl ⟨hp, hp, rfl, by simp [SpendLog.total, TokenLimit.stored]⟩
    · refine .inr ⟨hp, 0, rfl, rfl, ?_, by omega, ?_, ?_, ?_⟩
      · rw [TokenLimit.stored, if_neg (by omega), saturatingAdd]
        simp
      · intro j
        simp [SpendLog.window, SpendLog.within]
      · intro j _
        simp [SpendLog.window, SpendLog.within]
      · have hdec : (limit.stored env.timestamp).decodeRemaining env.spec ≤ limit.amount :=
          decodeRemaining_le
        simp only [SpendLog.window, SpendLog.within, List.map_nil, List.sum_nil]
        omega

/-- A key authorized at T3 or later with a limit on a token that is not set
anew never spends more of it than the limit: in all, without a period; and
with one, in each window counted from the authorization.  The end stored with
the row is that of such a window, cut off at 64 bits. -/
theorem spending_within_budget {env₀ : KeychainEnv}
    {s₀ s₁ : AccountKeychain} {signatureType : SignatureType}
    {config : KeyRestrictions} {witness : Option B256} (limit : TokenLimit)
    {calls : List (KeychainEnv × KeychainCall)} (hspec : .t3 ≤ env₀.spec)
    (hauth : Yields (AccountKeychain.authorizeKey env₀ account keyId
      signatureType config witness) s₀ () s₁) (henforce : config.enforceLimits = true)
    (hexpiry : config.expiry ≤ maxWord 64) (hlimit : limit ∈ config.limits)
    (hordered : Ordered env₀ calls)
    (hkeep : ∀ c ∈ calls, KeepsLimit account keyId limit.token c.2) :
    (limit.period = 0 → (spendLog account keyId limit.token s₁ calls).total ≤ limit.amount) ∧
    (limit.period ≠ 0 → (∀ k, (spendLog account keyId limit.token s₁ calls).window
        env₀.timestamp limit.period k ≤ limit.amount) ∧
      ∃ k, ((replay s₁ calls).spendingLimits (account, keyId) limit.token).periodEnd =
        min (env₀.timestamp + (k + 1) * limit.period) (maxWord 64)) := by
  obtain ⟨hkey, hlim, hbudget⟩ := authorizeKey_budget hspec henforce hlimit hexpiry hauth
  obtain ⟨last, hlast⟩ := run_budget hkey hspec hordered hkeep hlim hbudget
  rw [List.nil_append] at hlast
  rcases hlast with ⟨hp, hkept⟩ | ⟨hp, k, hkept⟩
  · refine ⟨fun _ => ?_, fun hne => absurd hp hne⟩
    have := hkept.spent
    omega
  · refine ⟨fun hzero => absurd hzero (by omega), fun _ => ?_⟩
    exact ⟨hkept.bounded, k, hkept.periodEnd_eq⟩

/-- A block in which no other contract matters. -/
def blockAt (spec : TempoHardfork) (time : Nat) : KeychainEnv where
  spec := spec
  isDeployedTip20 _ := false
  blockTimestamp := time
  validAccount _ := true
  hasCode _ := false
  hasConfigCommitment _ := false

/-- A key that may spend 100 units of a token in every `period`. -/
def periodicKey (token : Address) (period expiry : Nat) : KeyRestrictions where
  expiry := expiry
  enforceLimits := true
  limits := [⟨token, 100, period⟩]
  allowAnyCalls := true
  allowedCalls := []

/-- The limit is used up exactly, left alone for many windows and used again,
with a refund, at forks with and without the sentinel for zero. -/
theorem spending_within_budget_depleted :
    let account : Address := ⟨1⟩
    let keyId : Address := ⟨2⟩
    let token : Address := ⟨3⟩
    let s₀ : AccountKeychain := { AccountKeychain.empty with
      txOrigin := account }
    let s₁ := finalState (AccountKeychain.authorizeKey (blockAt .t3 1000)
      account keyId .p256 (periodicKey token 10 5000) none) s₀
    let calls : List (KeychainEnv × KeychainCall) :=
      [(blockAt .t3 1000, setTransactionKey keyId),
        (blockAt .t6 1001, authorizeTransfer account token 100),
        (blockAt .t6 1002, authorizeTransfer account token 1),
        (blockAt .t7 1234, authorizeTransfer account token 100),
        (blockAt .t7 1234, refundSpendingLimit account token 30),
        (blockAt .t7 1235, authorizeApprove account token 5 35),
        (blockAt .t7 1236, authorizeTransfer account token 1)]
    spendLog account keyId token s₁ calls =
        [(1000, 0), (1001, 100), (1234, 100), (1234, -30), (1235, 30)] ∧
      ∀ k, (spendLog account keyId token s₁ calls).window 1000 10 k ≤ 100 := by
  intro account keyId token s₀ s₁ calls
  have hkeep : ∀ c ∈ calls, KeepsLimit account keyId token c.2 := by
    intro c hc newLimit
    simp only [calls, List.mem_cons, List.not_mem_nil, or_false] at hc
    rcases hc with rfl | rfl | rfl | rfl | rfl | rfl | rfl <;> nofun
  have hall := spending_within_budget ⟨token, 100, 10⟩ (by decide)
    (yields_finalState (by decide +kernel) : Yields _ s₀ () s₁) rfl (by decide)
    (List.mem_singleton.mpr rfl) (show Ordered (blockAt .t3 1000) calls by
      simp only [calls, Ordered, KeychainEnv.Before]
      decide) hkeep
  exact ⟨by decide +kernel, (hall.2 (by decide)).1⟩

/-- Where the end of a window does not fit 64 bits, the stored end is earlier
and the interval of one period before it reaches back into the window before:
twice the limit is spent in it. -/
theorem stored_window_overspent :
    let account : Address := ⟨1⟩
    let keyId : Address := ⟨2⟩
    let token : Address := ⟨3⟩
    let last := maxWord 64
    let s₁ := finalState (AccountKeychain.authorizeKey (blockAt .t7 (last - 25))
      account keyId .p256 (periodicKey token 10 last) none)
      { AccountKeychain.empty with txOrigin := account }
    let calls : List (KeychainEnv × KeychainCall) :=
      [(blockAt .t7 (last - 25), setTransactionKey keyId),
        (blockAt .t7 (last - 6), authorizeTransfer account token 100),
        (blockAt .t7 (last - 4), authorizeTransfer account token 100)]
    let row := (replay s₁ calls).spendingLimits (account, keyId) token
    row.period = 10 ∧ row.max = 100 ∧ row.periodEnd = last ∧
      (spendLog account keyId token s₁ calls).within
        (row.periodEnd - row.period) row.periodEnd = 200 := by
  decide +kernel

end KeychainCall

end Tempo
