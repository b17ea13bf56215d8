/-
What the calls of the keychain do to its rows: the checks only read, and each
write concerns one row.
-/
import Tempo.Keychain.Manager

namespace Tempo

open Function

/-- The row a limit is stored as, from T3 on. -/
def TokenLimit.stored (limit : TokenLimit) (now : Nat) : SpendingLimitState where
  remaining := limit.amount
  max := limit.amount
  period := limit.period
  periodEnd := if limit.period = 0 then 0 else saturatingAdd 64 now limit.period

namespace AccountKeychain

variable {env : KeychainEnv} {s s' : AccountKeychain} {account keyId token : Address}

/-! Writes of one row. -/

theorem putKey_self (key : AuthorizedKey) :
    (s.putKey account keyId key).keys account keyId = key := by
  simp [putKey]

variable {k : Address} {row : Address × Address} {limits : List TokenLimit}
  {a t : Address} {signatureType : SignatureType}
  {config : KeyRestrictions} {isAdmin : Bool} {key : AuthorizedKey}
  {limit : TokenLimit} {witness : Option B256} {u : Unit}

theorem putKey_of_ne (key : AuthorizedKey) (hne : (a, k) ≠ (account, keyId)) :
    (s.putKey a k key).keys account keyId = s.keys account keyId := by
  by_cases ha : account = a
  · subst ha
    have hk : keyId ≠ k := by
      rintro rfl
      exact hne rfl
    simp [putKey, update_of_ne hk]
  · simp [putKey, update_of_ne ha]

theorem putLimit_self (row : Address × Address) (l : SpendingLimitState) :
    (s.putLimit row token l).spendingLimits row token = l := by
  simp [putLimit]

theorem putLimit_of_token_ne (l : SpendingLimitState) (hne : token ≠ t) :
    (s.putLimit row t l).spendingLimits row token = s.spendingLimits row token := by
  simp [putLimit, update_of_ne hne]

theorem putLimit_of_row_ne {row' : Address × Address} (l : SpendingLimitState) (hne : row' ≠ row) :
    (s.putLimit row t l).spendingLimits row' = s.spendingLimits row' := by
  simp [putLimit, update_of_ne hne]

/-! Checks. -/

theorem ensureAdminCaller_readOnly (env : KeychainEnv) (msgSender : Address) :
    ReadOnly (ensureAdminCaller env msgSender) := .bind (.reads _) fun _ =>
    .bind (.require _ _) fun _ => .require _ _

theorem ensureWitnessNotBurned_readOnly (account : Address) (witness : B256) :
    ReadOnly (ensureWitnessNotBurned account witness) := .bind (.reads _) fun _ => .require _ _

/-- A key is new when it passes the checks of an authorization. -/
theorem checkNewKey_yields (h : Yields (checkNewKey env account keyId signatureType config isAdmin)
      s () s') :
    s' = s ∧ keyId ≠ 0 ∧ (s.keys account keyId).expiry = 0 ∧
      (s.keys account keyId).isRevoked = false ∧
      (.t0 ≤ env.spec → env.timestamp < config.expiry) := by
  simp only [checkNewKey, yields_steps] at h
  obtain ⟨hzero, -, -, hfuture, hexpiry, hrevoked, -, rfl⟩ := h
  exact ⟨rfl, hzero, hexpiry, hrevoked, hfuture⟩

theorem loadActiveKey_ok {now : Nat} (h : s.loadActiveKey account keyId now = .ok key) :
    key = s.keys account keyId ∧ key.isRevoked = false ∧ now < key.expiry := by
  simp only [loadActiveKey] at h
  split at h
  · cases h
  next hrevoked =>
    split at h
    · cases h
    · split at h
      · cases h
      next hexpiry =>
        cases h
        exact ⟨rfl, by simpa using hrevoked, by omega⟩

theorem loadManagedKey_yields {msgSender : Address}
    (h : Yields (loadManagedKey env msgSender k) s key s') :
    s' = s ∧ s.loadActiveKey msgSender k env.timestamp = .ok key := by
  obtain ⟨⟨⟩, -, h⟩ := (ensureAdminCaller_readOnly _ _).yields_bind h
  simp only [yields_steps, id_eq] at h
  obtain ⟨key', hkey, -, rfl, rfl⟩ := h
  exact ⟨rfl, hkey⟩

/-! Writes of a call. -/

/-- A row whose limit was set: the amount is left, and a new cap is within its
stored width. -/
def LimitSet (amount : Nat) (l l' : SpendingLimitState) : Prop :=
  l'.remaining = amount ∧ (l'.max ≤ maxWord 128 ∨ l'.max = l.max)

theorem t3SpendingLimitCap_ok {max amount : Nat} (h : t3SpendingLimitCap amount = .ok max) :
    max = amount ∧ max ≤ maxWord 128 := by
  unfold t3SpendingLimitCap at h
  split at h
  · cases h
  next hle => cases h; exact ⟨rfl, Nat.not_lt.mp hle⟩

theorem applyLimit_yields (h : Yields (applyLimit env row limit) s u s') :
    ∃ l, s' = s.putLimit row limit.token l ∧
      LimitSet limit.amount (s.spendingLimits row limit.token) l ∧
      (.t3 ≤ env.spec → limit.amount ≤ maxWord 128 ∧ l = limit.stored env.timestamp) := by
  unfold applyLimit at h
  split at h
  · simp only [yields_steps] at h
    obtain ⟨max, hmax, rfl⟩ := h
    obtain ⟨rfl, hle⟩ := t3SpendingLimitCap_ok hmax
    exact ⟨_, rfl, ⟨rfl, .inl hle⟩, fun _ => ⟨hle, rfl⟩⟩
  next hspec =>
    exact ⟨_, (h.updates).symm, ⟨rfl, .inr rfl⟩, fun h' => absurd h' hspec⟩

theorem applyLimits_keys (h : Yields (limits.forM (applyLimit env row)) s u s') :
    s'.keys = s.keys ∧ s'.txOrigin = s.txOrigin ∧
      ∀ row', row' ≠ row → s'.spendingLimits row' = s.spendingLimits row' := by
  refine Yields.forM_invariant (I := fun t => t.keys = s.keys ∧ t.txOrigin = s.txOrigin ∧
    ∀ row', row' ≠ row → t.spendingLimits row' = s.spendingLimits row') ?_ h
      ⟨rfl, rfl, fun _ _ => rfl⟩
  rintro limit - t t' ⟨hkeys, horigin, hrows⟩ hstep
  obtain ⟨l, rfl, -⟩ := applyLimit_yields hstep
  exact ⟨hkeys, horigin, fun row' hne => (putLimit_of_row_ne l hne).trans (hrows row' hne)⟩

theorem applyLimits_other (token : Address) (hnew : token ∉ limits.map TokenLimit.token)
    (h : Yields (limits.forM (applyLimit env row)) s u s') :
    s'.spendingLimits row token = s.spendingLimits row token := by
  refine Yields.forM_invariant (I := fun t => t.spendingLimits row token =
    s.spendingLimits row token) ?_ h rfl
  intro other hother t t' ht hstep
  obtain ⟨l', rfl, -⟩ := applyLimit_yields hstep
  rw [putLimit_of_token_ne l', ht]
  intro heq
  exact hnew (heq ▸ List.mem_map_of_mem hother)

/-- Each token that is given a limit once ends up with that limit. -/
theorem applyLimits_row (hspec : .t3 ≤ env.spec)
    (hnodup : (limits.map TokenLimit.token).Nodup) (hmem : limit ∈ limits)
    (h : Yields (limits.forM (applyLimit env row)) s u s') :
    limit.amount ≤ maxWord 128 ∧
      s'.spendingLimits row limit.token = limit.stored env.timestamp := by
  induction limits generalizing s with
  | nil => cases hmem
  | cons first limits ih =>
    obtain ⟨⟨⟩, s1, hfirst, hrest⟩ := h.bind
    obtain ⟨hnew, hnodup⟩ := List.nodup_cons.mp hnodup
    rcases List.mem_cons.mp hmem with rfl | hmem
    · obtain ⟨l, rfl, -, hl⟩ := applyLimit_yields hfirst
      rw [applyLimits_other limit.token hnew hrest, putLimit_self]
      exact hl hspec
    · exact ih hnodup hmem hrest

/-- The checked part of an authorization, up to the writes. -/
theorem authorizeKeyInternal_yields
    (h : Yields (authorizeKeyInternal env a k signatureType config witness isAdmin) s () s') :
    k ≠ 0 ∧ (s.keys a k).expiry = 0 ∧ (s.keys a k).isRevoked = false ∧
      (.t2 ≤ env.spec → s.txOrigin = a ∧ env.timestamp < config.expiry) ∧
      ∃ allowedCalls, checkRestrictions env config = .ok allowedCalls ∧
        Yields (if isAdmin then pure () else applyKeyAuthorizationRestrictions env a k
            (if config.enforceLimits then config.limits else []) allowedCalls)
          (s.putKey a k ⟨signatureType, config.expiry, config.enforceLimits,
            false, isAdmin⟩) () s' := by
  obtain ⟨⟨⟩, hcaller, hchecked⟩ := (ensureAdminCaller_readOnly _ _).yields_bind h
  obtain ⟨⟨⟩, s1, hnew, hrest⟩ := hchecked.bind
  obtain ⟨rfl, hzero, hexpiry, hrevoked, hfuture⟩ := checkNewKey_yields hnew
  obtain ⟨allowedCalls, hcheck, hwrite⟩ := yields_ofExcept_bind.mp hrest
  refine ⟨hzero, hexpiry, hrevoked, fun hspec => ⟨?_, hfuture (le_trans (by decide) hspec)⟩,
    allowedCalls, hcheck, ?_⟩
  · simp only [ensureAdminCaller, yields_steps] at hcaller
    exact not_not.mp (not_or.mp (hcaller.2.1 hspec)).2
  cases witness with
  | none => exact hwrite
  | some witness =>
    obtain ⟨⟨⟩, -, hdone⟩ := (ensureWitnessNotBurned_readOnly _ _).yields_bind hwrite
    exact hdone

theorem applyRestrictions_yields {allowedCalls : Option (List CallScope)}
    (h : Yields (applyKeyAuthorizationRestrictions env a k limits allowedCalls) s () s') :
    ∃ s1, Yields (limits.forM (applyLimit env (a, k))) s ⟨⟩ s1 ∧
      s'.keys = s1.keys ∧ s'.spendingLimits = s1.spendingLimits ∧ s'.txOrigin = s1.txOrigin := by
  obtain ⟨⟨⟩, s1, hlimits, h⟩ := h.bind
  refine ⟨s1, hlimits, ?_⟩
  split at h
  · obtain ⟨scope, -, rfl⟩ := h.focus
    exact ⟨rfl, rfl, rfl⟩
  · obtain ⟨-, rfl⟩ := h.pure
    exact ⟨rfl, rfl, rfl⟩

/-- The key an authorization leaves, from T2 on. -/
theorem authorizeKeyInternal_key (hspec : .t2 ≤ env.spec)
    (h : Yields (authorizeKeyInternal env a k signatureType config witness isAdmin) s () s') :
    s'.txOrigin = a ∧ s'.keys a k =
      ⟨signatureType, config.expiry, config.enforceLimits, false, isAdmin⟩ := by
  obtain ⟨-, -, -, hchecks, calls, -, h⟩ := authorizeKeyInternal_yields h
  obtain ⟨rfl, -⟩ := hchecks hspec
  split at h
  · rw [← (h.pure).2]
    exact ⟨rfl, putKey_self _⟩
  · obtain ⟨s1, hlimits, hkeys, -, horigin⟩ := applyRestrictions_yields h
    obtain ⟨hkeys1, horigin1, -⟩ := applyLimits_keys hlimits
    rw [hkeys, horigin, hkeys1, horigin1]
    exact ⟨rfl, putKey_self _⟩

/-- The limits an authorization leaves, from T3 on. -/
theorem authorizeKey_rows (hspec : .t3 ≤ env.spec) (henforce : config.enforceLimits = true)
    (h : Yields (authorizeKey env a k signatureType config witness) s () s') :
    (∀ limit ∈ config.limits, limit.amount ≤ maxWord 128 ∧
      s'.spendingLimits (a, k) limit.token = limit.stored env.timestamp) ∧
    ∀ token ∉ config.limits.map TokenLimit.token,
      s'.spendingLimits (a, k) token = s.spendingLimits (a, k) token := by
  obtain ⟨-, -, -, -, calls, hcheck, h⟩ := authorizeKeyInternal_yields h
  rw [if_neg Bool.false_ne_true, if_pos henforce] at h
  obtain ⟨s1, hlimits, -, hrows, -⟩ := applyRestrictions_yields h
  have hnodup : (config.limits.map TokenLimit.token).Nodup := by
    by_contra hdup
    rw [checkRestrictions, if_pos hspec, if_pos ⟨henforce, hdup⟩] at hcheck
    cases hcheck
  rw [hrows]
  exact ⟨fun limit hmem => applyLimits_row hspec hnodup hmem hlimits,
    fun token hnew => (applyLimits_other token hnew hlimits).trans rfl⟩

theorem revokeKey_yields (h : Yields (revokeKey env a k) s () s') :
    (s.keys a k).expiry ≠ 0 ∧ s' = s.putKey a k { AuthorizedKey.blank with isRevoked := true } := by
  obtain ⟨⟨⟩, -, hrest⟩ := (ensureAdminCaller_readOnly _ _).yields_bind h
  simp only [yields_steps] at hrest
  exact ⟨hrest.1, hrest.2.symm⟩

theorem burnKeyAuthorizationWitness_yields {witness : B256}
    (h : Yields (burnKeyAuthorizationWitness env a witness) s () s') :
    ∃ witnesses, s' = { s with keyAuthorizationWitnesses := witnesses } := by
  obtain ⟨⟨⟩, -, h⟩ := (ensureAdminCaller_readOnly _ _).yields_bind h
  obtain ⟨⟨⟩, -, h⟩ := (ensureWitnessNotBurned_readOnly _ _).yields_bind h
  exact ⟨_, (h.updates).symm⟩

theorem setAllowedCalls_yields {scopes : List CallScope}
    (h : Yields (setAllowedCalls env a k scopes) s () s') :
    Yields (onScope (a, k) (KeyScope.setAllowedCalls env.toScopeEnv scopes)) s () s' := by
  obtain ⟨-, h⟩ := yields_require_bind.mp h
  obtain ⟨key, s1, hload, hscope⟩ := h.bind
  obtain ⟨rfl, -⟩ := loadManagedKey_yields hload
  exact hscope

theorem removeAllowedCalls_yields (h : Yields (removeAllowedCalls env a k t) s () s') :
    Yields (onScope (a, k) (KeyScope.removeAllowedCalls t)) s () s' := by
  obtain ⟨key, s1, hload, hscope⟩ := h.bind
  obtain ⟨rfl, -⟩ := loadManagedKey_yields hload
  exact hscope

theorem updateSpendingLimit_yields {newLimit : Nat}
    (h : Yields (AccountKeychain.updateSpendingLimit env a k t newLimit) s () s') :
    ∃ key l, s.loadActiveKey a k env.timestamp = .ok key ∧ s' = ((if key.enforceLimits then s
        else s.putKey a k { key with enforceLimits := true }).putLimit (a, k) t l) ∧
      LimitSet newLimit (s.spendingLimits (a, k) t) l := by
  obtain ⟨key, s1, hload, hrest⟩ := h.bind
  obtain ⟨rfl, hactive⟩ := loadManagedKey_yields hload
  refine ⟨key, ?_⟩
  cases henforce : key.enforceLimits <;>
    simp only [henforce, if_true, if_false, Bool.false_eq_true, yields_updates_bind] at hrest ⊢
  -- enforced already or not, the row is written in one of two ways
  all_goals
    split at hrest
    · simp only [yields_steps] at hrest
      obtain ⟨max, hmax, rfl⟩ := hrest
      exact ⟨_, hactive, rfl, rfl, .inl (t3SpendingLimitCap_ok hmax).2⟩
    · exact ⟨_, hactive, (hrest.updates).symm, rfl, .inr rfl⟩

end AccountKeychain

end Tempo
