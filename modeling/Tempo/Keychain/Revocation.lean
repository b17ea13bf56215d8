/-
Revocation and administration.  A revoked key stays revoked through any calls
that follow.  In a transaction of a key that is not an admin key, no call that
administers keys succeeds, so that rows of keys and scopes stay as they are and
limits change by spending and refunds only.
-/
import Tempo.Keychain.Budget

namespace Tempo

variable {env : KeychainEnv} {s s' : AccountKeychain} {account keyId : Address}

namespace AccountKeychain

/-! Revoked keys. -/

/-- The row left behind by a revocation. -/
def Revoked (account keyId : Address) (s : AccountKeychain) : Prop :=
  (s.keys account keyId).isRevoked = true ∧ (s.keys account keyId).expiry = 0

theorem Revoked.loadActiveKey (h : Revoked account keyId s) (now : Nat) :
    s.loadActiveKey account keyId now = .error (.accountKeychain .keyAlreadyRevoked) := by
  simp only [AccountKeychain.loadActiveKey, h.1, if_true]

variable {a k t : Address} {amount : Nat}

theorem Revoked.of_sameRows (h : Revoked account keyId s)
    (hrows : SameRows account keyId s s') : Revoked account keyId s' := by
  unfold Revoked
  rw [hrows.1]
  exact h

/-- Another key was authorized: the row of a revoked one is not new. -/
theorem Revoked.authorizeKeyInternal {signatureType : SignatureType}
    {config : KeyRestrictions} {witness : Option B256} {isAdmin : Bool}
    (hrev : Revoked account keyId s)
    (h : Yields (AccountKeychain.authorizeKeyInternal env a k signatureType
      config witness isAdmin) s () s') : (a, k) ≠ (account, keyId) ∧ Revoked account keyId s' := by
  obtain ⟨-, -, hfresh, -⟩ := authorizeKeyInternal_yields h
  have hne : (a, k) ≠ (account, keyId) := by
    rintro heq
    cases heq
    rw [hrev.1] at hfresh
    cases hfresh
  exact ⟨hne, hrev.of_sameRows (authorizeKeyInternal_sameRows hne h)⟩

/-! Spending. -/

/-- A row of a limit after a charge or a refund. -/
inductive LimitStep (env : KeychainEnv) (l l' : SpendingLimitState) : Prop where
  | charge (amount : Nat) (h : l.charge env.spec env.timestamp amount = .ok l')
  | refund (amount : Nat) (h : l' = l.refund env.spec amount)

/-- At most one row of a limit changes, by a charge or a refund. -/
inductive Spends (env : KeychainEnv) (s : AccountKeychain) : AccountKeychain → Prop where
  | none : Spends env s s
  | row (row : Address × Address) (token : Address) (l : SpendingLimitState)
      (h : LimitStep env (s.spendingLimits row token) l) :
      Spends env s (s.putLimit row token l)

/-- At most one row of a limit changes, by a charge. -/
def Charges (env : KeychainEnv) (s s' : AccountKeychain) : Prop :=
  s' = s ∨ ∃ row token amount l, (s.spendingLimits row token).charge env.spec env.timestamp
    amount = .ok l ∧ s' = s.putLimit row token l

theorem Charges.spends (h : Charges env s s') : Spends env s s' := by
  rcases h with rfl | ⟨row, token, amount, l, hcharge, rfl⟩
  · exact .none
  · exact .row row token l (.charge amount hcharge)

theorem Charges.of_pure {ε : Type} (h : Yields (ε := ε) (pure ()) s () s') : Charges env s s' :=
  .inl (h.pure).2.symm

theorem verifyAndUpdateSpending_charges
    (h : Yields (verifyAndUpdateSpending env a k t amount) s () s') : Charges env s s' := by
  unfold verifyAndUpdateSpending at h
  split at h
  · exact .of_pure h
  · simp only [yields_steps, id_eq] at h
    obtain ⟨key, -, hrest⟩ := h
    split at hrest
    · obtain ⟨l, hcharge, hwrite⟩ := yields_ofExcept_bind.mp hrest
      exact .inr ⟨_, _, _, l, hcharge, (hwrite.updates).symm⟩
    · exact .of_pure hrest

theorem refundSpendingLimit_yields (h : Yields (refundSpendingLimit env a t amount) s () s') :
    s' = s ∨ s' = s.putLimit (a, s.transactionKey) t
      ((s.spendingLimits (a, s.transactionKey) t).refund env.spec amount) := by
  simp only [refundSpendingLimit, yields_reads_bind, id_eq] at h
  split at h
  · exact .inl (h.pure).2.symm
  split at h
  · exact .inl (h.pure).2.symm
  split at h
  · exact .inr (h.updates).symm
  · exact .inl (h.pure).2.symm

theorem authorizeTransfer_charges (h : Yields (authorizeTransfer env a t amount) s () s') :
    Charges env s s' := by
  simp only [authorizeTransfer, yields_reads_bind, id_eq] at h
  split at h
  · exact .of_pure h
  · exact verifyAndUpdateSpending_charges h

theorem authorizeApprove_charges {old new : Nat}
    (h : Yields (authorizeApprove env a t old new) s () s') : Charges env s s' := by
  simp only [authorizeApprove, yields_reads_bind, id_eq] at h
  split at h
  · exact .of_pure h
  split at h
  · exact .of_pure h
  · exact verifyAndUpdateSpending_charges h

variable (h : Spends env s s')
include h

theorem Spends.keys : s'.keys = s.keys := by
  cases h <;> rfl

theorem Spends.keyScopes : s'.keyScopes = s.keyScopes := by
  cases h <;> rfl

theorem Spends.witnesses : s'.keyAuthorizationWitnesses = s.keyAuthorizationWitnesses := by
  cases h <;> rfl

theorem Spends.seeds : s'.transactionKey = s.transactionKey ∧ s'.txOrigin = s.txOrigin := by
  cases h <;> exact ⟨rfl, rfl⟩

theorem Spends.limits (row : Address × Address) (token : Address) :
    Relation.ReflTransGen (LimitStep env) (s.spendingLimits row token)
      (s'.spendingLimits row token) := by
  cases h with
  | none => exact .refl
  | row row' token' l hstep =>
    by_cases hrow : row = row'
    · subst hrow
      by_cases htoken : token = token'
      · subst htoken
        rw [putLimit_self]
        exact .single hstep
      · rw [putLimit_of_token_ne l htoken]
    · rw [putLimit_of_row_ne l hrow]

end AccountKeychain

namespace KeychainCall

open AccountKeychain

/-- What the handler seeds before a transaction is executed. -/
def Seeds : KeychainCall → Prop
  | setTransactionKey _ => True
  | setTxOrigin _ => True
  | _ => False

/-- What only the root key or an admin key may ask for. -/
def Administers : KeychainCall → Prop
  | authorizeKey _ _ _ _ _ => True
  | authorizeAdminKey _ _ _ _ => True
  | burnKeyAuthorizationWitness _ _ => True
  | revokeKey _ _ => True
  | updateSpendingLimit _ _ _ _ => True
  | setAllowedCalls _ _ _ => True
  | removeAllowedCalls _ _ _ => True
  | _ => False

variable {c : KeychainCall} {calls : List (KeychainEnv × KeychainCall)}

/-- Every other call spends. -/
theorem exec_spends (hseeds : ¬c.Seeds) (hadmin : ¬c.Administers)
    (h : Yields (c.exec env) s () s') : Spends env s s' := by
  cases c with
  | setTransactionKey k | setTxOrigin o => exact absurd trivial hseeds
  | authorizeKey a k ty config w | authorizeAdminKey a k ty w
  | burnKeyAuthorizationWitness a w | revokeKey a k
  | updateSpendingLimit a k t l | setAllowedCalls a k scopes
  | removeAllowedCalls a k target => exact absurd trivial hadmin
  | verifyAndUpdateSpending a k t amount =>
    exact (verifyAndUpdateSpending_charges h).spends
  | refundSpendingLimit a t amount =>
    obtain rfl | rfl := refundSpendingLimit_yields h
    · exact .none
    · exact .row _ _ _ (.refund amount rfl)
  | authorizeTransfer a t amount => exact (authorizeTransfer_charges h).spends
  | authorizeApprove a t old new => exact (authorizeApprove_charges h).spends

/-! A revoked key stays revoked. -/

theorem exec_revoked (hrev : Revoked account keyId s)
    (h : Yields (c.exec env) s () s') : Revoked account keyId s' := by
  cases c with
  | setTransactionKey k | setTxOrigin o =>
    rw [← h.updates]
    exact hrev
  | authorizeKey a k ty config w | authorizeAdminKey a k ty w =>
    exact (hrev.authorizeKeyInternal h).2
  | burnKeyAuthorizationWitness a w =>
    obtain ⟨_, rfl⟩ := burnKeyAuthorizationWitness_yields h
    exact hrev
  | revokeKey a k =>
    obtain ⟨hexists, rfl⟩ := revokeKey_yields h
    refine hrev.of_sameRows ⟨putKey_of_ne _ ?_, rfl⟩
    rintro heq
    cases heq
    exact hexists hrev.2
  | updateSpendingLimit a k t l =>
    obtain ⟨key, l', hactive, rfl, -⟩ := updateSpendingLimit_yields h
    have hne : (a, k) ≠ (account, keyId) := by
      rintro heq
      cases heq
      rw [hrev.loadActiveKey] at hactive
      cases hactive
    split
    · exact hrev
    · exact hrev.of_sameRows ⟨putKey_of_ne _ hne, putLimit_of_row_ne _ (Ne.symm hne)⟩
  | setAllowedCalls a k scopes =>
    exact hrev.of_sameRows (onScope_sameRows (setAllowedCalls_yields h))
  | removeAllowedCalls a k target =>
    exact hrev.of_sameRows (onScope_sameRows (removeAllowedCalls_yields h))
  | verifyAndUpdateSpending a k t amount | refundSpendingLimit a t amount
  | authorizeTransfer a t amount | authorizeApprove a t old new =>
    unfold Revoked
    rw [(exec_spends id id h).keys]
    exact hrev

/-- A call leaves the state as it is or succeeds. -/
theorem apply_cases (env : KeychainEnv) (c : KeychainCall) (s : AccountKeychain) :
    c.apply env s = s ∨ Yields (c.exec env) s () (c.apply env s) := by
  unfold apply
  cases hrun : (c.exec env).run s with
  | error e s' => exact .inl rfl
  | ok u s' => exact .inr hrun

theorem replay_revoked (hrev : Revoked account keyId s) :
    Revoked account keyId (replay s calls) := by
  induction calls generalizing s with
  | nil => exact hrev
  | cons c calls ih =>
    refine ih ?_
    change Revoked account keyId (c.2.apply c.1 s)
    rcases apply_cases c.1 c.2 s with heq | hyields
    · rw [heq]
      exact hrev
    · exact exec_revoked hrev hyields

/-! A transaction of a key that is not an admin key. -/

/-- A later moment of the same transaction: the block is the same, and an
account that was migrated stays so. -/
structure During (env₀ env : KeychainEnv) : Prop where
  spec : env.spec = env₀.spec
  block : env.blockTimestamp = env₀.blockTimestamp
  migrated : ∀ a, env₀.hasConfigCommitment a = true → env.hasConfigCommitment a = true

variable {env₀ : KeychainEnv}

theorem During.timestamp (h : During env₀ env) : env.timestamp = env₀.timestamp := by
  rw [KeychainEnv.timestamp, KeychainEnv.timestamp, h.block]

/-- The signer is a key without power over the account it signs for. -/
structure Powerless (env₀ : KeychainEnv) (s : AccountKeychain) : Prop where
  key : s.transactionKey ≠ 0
  notAdmin : s.isAdminKey env₀ s.txOrigin s.transactionKey = false

theorem isAdminKey_during (hduring : During env₀ env)
    (h : s.isAdminKey env₀ account keyId = false) : s.isAdminKey env account keyId = false := by
  unfold isAdminKey at h ⊢
  rw [hduring.timestamp, hduring.spec]
  split at h
  · cases h
  · rename_i hroot
    rw [if_neg ?_]
    · exact h
    · rintro ⟨hkey, hnot⟩
      refine hroot ⟨hkey, fun hmigrated => hnot ⟨hmigrated.1, ?_⟩⟩
      exact hduring.migrated account hmigrated.2

theorem ensureAdminCaller_powerless (hspec : .t6 ≤ env₀.spec)
    (hduring : During env₀ env) (hpower : Powerless env₀ s) {msgSender : Address} {u : Unit} :
    ¬Yields (ensureAdminCaller env msgSender) s u s' := by
  intro h
  simp only [ensureAdminCaller, yields_steps, id_eq] at h
  obtain ⟨hkey, horigin, -⟩ := h
  have ht2 : TempoHardfork.t2 ≤ env.spec := by
    rw [hduring.spec]
    exact le_trans (by decide) hspec
  have hsender : s.txOrigin = msgSender := by
    by_contra hne
    exact horigin ht2 (.inr hne)
  refine hkey ⟨hpower.key, .inr ?_⟩
  rw [← hsender]
  exact isAdminKey_during hduring hpower.notAdmin

/-- Every administrative call starts with the check of its caller. -/
theorem administers_fails (hspec : .t6 ≤ env₀.spec) (hduring : During env₀ env)
    (hpower : Powerless env₀ s) (hadmin : c.Administers) : ¬Yields (c.exec env) s () s' := by
  intro h
  have hgate : ∀ {msgSender : Address} {u : Unit} {t : AccountKeychain},
      ¬Yields (ensureAdminCaller env msgSender) s u t :=
    ensureAdminCaller_powerless hspec hduring hpower
  have hload : ∀ {msgSender k : Address} {key : AuthorizedKey}
      {t : AccountKeychain}, ¬Yields (loadManagedKey env msgSender k) s key t := by
    intro msgSender k key t hkey
    obtain ⟨u, t', hcheck, -⟩ := hkey.bind
    exact hgate hcheck
  cases c with
  | setTransactionKey k | setTxOrigin o => exact hadmin
  | authorizeKey a k ty config w | authorizeAdminKey a k ty w
  | burnKeyAuthorizationWitness a w | revokeKey a k =>
    obtain ⟨u, t, hcheck, -⟩ := h.bind
    exact hgate hcheck
  | updateSpendingLimit a k token l | removeAllowedCalls a k target =>
    obtain ⟨key, t, hkey, -⟩ := h.bind
    exact hload hkey
  | setAllowedCalls a k scopes =>
    obtain ⟨-, h1⟩ := yields_require_bind.mp h
    obtain ⟨key, t, hkey, -⟩ := h1.bind
    exact hload hkey
  | verifyAndUpdateSpending a k t amount | refundSpendingLimit a t amount
  | authorizeTransfer a t amount | authorizeApprove a t old new => exact hadmin

/-- What a transaction without power leaves as it was. -/
structure Untouched (env₀ : KeychainEnv) (s s' : AccountKeychain) : Prop where
  keys : s'.keys = s.keys
  keyScopes : s'.keyScopes = s.keyScopes
  witnesses : s'.keyAuthorizationWitnesses = s.keyAuthorizationWitnesses
  seeds : s'.transactionKey = s.transactionKey ∧ s'.txOrigin = s.txOrigin
  limits : ∀ row token, Relation.ReflTransGen (LimitStep env₀)
    (s.spendingLimits row token) (s'.spendingLimits row token)

theorem LimitStep.during (hduring : During env₀ env) {l l' : SpendingLimitState}
    (h : LimitStep env l l') : LimitStep env₀ l l' := by
  cases h with
  | charge amount hcharge =>
    rw [hduring.spec, hduring.timestamp] at hcharge
    exact .charge amount hcharge
  | refund amount hrefund =>
    rw [hduring.spec] at hrefund
    exact .refund amount hrefund

theorem Untouched.powerless (h : Untouched env₀ s s')
    (hpower : Powerless env₀ s) : Powerless env₀ s' := by
  obtain ⟨hkey, horigin⟩ := h.seeds
  refine ⟨by rw [hkey]; exact hpower.key, ?_⟩
  have hadmin := hpower.notAdmin
  unfold isAdminKey AccountKeychain.loadActiveKey at hadmin ⊢
  rw [h.keys, hkey, horigin]
  exact hadmin

theorem Untouched.step {t : AccountKeychain} (h : Untouched env₀ s s') (hduring : During env₀ env)
    (hspends : Spends env s' t) : Untouched env₀ s t where
  keys := hspends.keys.trans h.keys
  keyScopes := hspends.keyScopes.trans h.keyScopes
  witnesses := hspends.witnesses.trans h.witnesses
  seeds := ⟨hspends.seeds.1.trans h.seeds.1, hspends.seeds.2.trans h.seeds.2⟩
  limits row token := (h.limits row token).trans
    (Relation.ReflTransGen.lift id (fun _ _ => LimitStep.during hduring) _ _
      (hspends.limits row token))

/-- The calls of a transaction after it was seeded. -/
def Within (env₀ : KeychainEnv) (calls : List (KeychainEnv × KeychainCall)) : Prop :=
  ∀ c ∈ calls, During env₀ c.1 ∧ ¬c.2.Seeds

theorem replay_untouched (hspec : .t6 ≤ env₀.spec) {s0 : AccountKeychain}
    (hpower : Powerless env₀ s0) (hcalls : Within env₀ calls)
    (h : Untouched env₀ s0 s) : Untouched env₀ s0 (replay s calls) := by
  induction calls generalizing s with
  | nil => exact h
  | cons c calls ih =>
    obtain ⟨hduring, hseeds⟩ := hcalls c List.mem_cons_self
    refine ih (fun d hd => hcalls d (List.mem_cons_of_mem c hd)) ?_
    change Untouched env₀ s0 (c.2.apply c.1 s)
    rcases apply_cases c.1 c.2 s with heq | hyields
    · rw [heq]
      exact h
    · by_cases hadmin : c.2.Administers
      · exact absurd hyields (administers_fails hspec hduring (h.powerless hpower) hadmin)
      · exact h.step hduring (exec_spends hseeds hadmin hyields)

theorem Untouched.refl (env₀ : KeychainEnv) (s : AccountKeychain) :
    Untouched env₀ s s := ⟨rfl, rfl, rfl, ⟨rfl, rfl⟩, fun _ _ => .refl⟩

/-- After a revocation and any calls, the key is neither accepted nor
authorized again.  In a transaction of a key that is no admin key, from T6 on,
no administrative call succeeds at any point, and keys, scopes and burned
witnesses are as before, limits up to charges and refunds. -/
theorem revocation_final_and_keys_powerless :
    (∀ (env : KeychainEnv) (s s' : AccountKeychain) (account keyId : Address),
      Yields (AccountKeychain.revokeKey env account keyId) s () s' →
      ∀ calls : List (KeychainEnv × KeychainCall), (∀ now expectedSigType,
          (replay s' calls).validateKeychainAuthorization account keyId now
            expectedSigType = .error (.accountKeychain .keyAlreadyRevoked)) ∧
        (∀ env' signatureType config witness t,
          ¬Yields (AccountKeychain.authorizeKey env' account keyId
            signatureType config witness) (replay s' calls) () t) ∧ ∀ env' signatureType witness t,
          ¬Yields (AccountKeychain.authorizeAdminKey env' account keyId
            signatureType witness) (replay s' calls) () t) ∧
    ∀ (env₀ : KeychainEnv) (s : AccountKeychain), .t6 ≤ env₀.spec → Powerless env₀ s →
      ∀ calls : List (KeychainEnv × KeychainCall), Within env₀ calls →
        (∀ (env : KeychainEnv) (c : KeychainCall) (t : AccountKeychain),
          During env₀ env → c.Administers → ¬Yields (c.exec env) (replay s calls) () t) ∧
        Untouched env₀ s (replay s calls) := by
  constructor
  · intro env s s' account keyId hrevoke calls
    obtain ⟨-, rfl⟩ := revokeKey_yields hrevoke
    have hrev : Revoked account keyId (replay (s.putKey account keyId
        { AuthorizedKey.blank with isRevoked := true }) calls) := by
      refine replay_revoked ?_
      unfold Revoked
      rw [putKey_self]
      exact ⟨rfl, rfl⟩
    refine ⟨?_, ?_, ?_⟩
    · intro now expectedSigType
      unfold validateKeychainAuthorization
      rw [hrev.loadActiveKey]
      rfl
    · intro env' signatureType config witness t h
      exact (hrev.authorizeKeyInternal h).1 rfl
    · intro env' signatureType witness t h
      exact (hrev.authorizeKeyInternal h).1 rfl
  · intro env₀ s hspec hpower calls hcalls
    have hsame := replay_untouched hspec hpower hcalls (.refl env₀ s)
    refine ⟨?_, hsame⟩
    intro env c t hduring hadmin
    exact administers_fails hspec hduring (hsame.powerless hpower) hadmin

/-- A key with a limit is authorized and signs a transaction, in which it
spends but cannot raise its limit; it is revoked by the root key and cannot be
authorized again in a later block. -/
theorem revocation_final_and_keys_powerless_limited :
    let account : Address := ⟨1⟩
    let keyId : Address := ⟨2⟩
    let token : Address := ⟨3⟩
    let block := blockAt .t6 1000
    let rooted : AccountKeychain := { AccountKeychain.empty with
      txOrigin := account }
    let authorized := finalState (AccountKeychain.authorizeKey block account
      keyId .p256 (periodicKey token 10 5000) none) rooted
    let signing : AccountKeychain := { authorized with transactionKey := keyId }
    let revoked := finalState (AccountKeychain.revokeKey block account keyId) authorized
    (∀ t, ¬Yields ((updateSpendingLimit account keyId token 1000).exec block)
      (replay signing [(block, authorizeTransfer account token 60)]) () t) ∧
    (replay signing [(block, authorizeTransfer account token 60)]).keys = signing.keys ∧
    ∀ t, ¬Yields (AccountKeychain.authorizeKey (blockAt .t7 2000) account keyId
      .p256 (periodicKey token 10 5000) none)
      (replay revoked [(blockAt .t7 2000, setTransactionKey 0)]) () t := by
  intro account keyId token block rooted authorized signing revoked
  obtain ⟨hfinal, hpowerless⟩ := revocation_final_and_keys_powerless
  have hpower : Powerless block signing := ⟨by decide, by decide +kernel⟩
  have hcalls : Within block [(block, authorizeTransfer account token 60)] := by
    intro c hc
    rw [List.mem_singleton.mp hc]
    exact ⟨⟨rfl, rfl, fun _ h => h⟩, id⟩
  obtain ⟨hfails, hsame⟩ := hpowerless block signing (by decide) hpower _ hcalls
  refine ⟨?_, hsame.keys, ?_⟩
  · intro t
    exact hfails block _ t ⟨rfl, rfl, fun _ h => h⟩ trivial
  · intro t
    exact (hfinal block authorized revoked account keyId
      (yields_finalState (by decide +kernel)) _).2.1 _ _ _ _ t

end KeychainCall

end Tempo
