/-
The call scope of a key as a permission: unrestricted, or a finite map from
targets to what may be called there.  The stored tree is shown to hold the
permission that the accepted changes add up to, so what a key may call, and
what the view reports of it, depends on nothing else that was ever stored.
-/
import Tempo.Keychain.Revocation
import Tempo.Keychain.ScopeTree

namespace Tempo

open KeyedList CallScope Function KeyScope

/-! Permissions. -/

inductive RecipientPermission where
  | any
  | only (recipients : Finset Address) (nonempty : recipients.Nonempty)

inductive TargetPermission where
  | anySelector
  | selectors (rules : Finmap fun _ : Selector => RecipientPermission)

inductive KeyPermission where
  | unrestricted
  | targets (scopes : Finmap fun _ : Address => TargetPermission)

def RecipientPermission.Allows : RecipientPermission → Option Address → Prop
  | any, _ => True
  | only recipients _, recipient => ∃ a ∈ recipient, a ∈ recipients

def TargetPermission.Allows : TargetPermission → Option Selector → Option Address → Prop
  | anySelector, _, _ => True
  | selectors rules, selector, recipient =>
    ∃ s ∈ selector, ∃ p ∈ rules.lookup s, p.Allows recipient

def KeyPermission.Allows (target : Address) (selector : Option Selector)
    (recipient : Option Address) : KeyPermission → Prop
  | unrestricted => True
  | targets scopes => ∃ p ∈ scopes.lookup target, p.Allows selector recipient

/-- The selector of a call, if its input is long enough to have one. -/
def decodeSelector (input : List UInt8) : Option Selector :=
  if 4 ≤ input.length then some (inputSelector input) else none

instance (input : List UInt8) : Decidable (HasRecipient input) :=
  inferInstanceAs (Decidable (_ ∧ _))

/-- The first argument of a call, if it is an address. -/
def decodeRecipient (input : List UInt8) : Option Address :=
  if HasRecipient input then some (inputRecipient input) else none

/-! What a list of scopes grants. -/

variable {k : KeyScope} {p : KeyPermission} {scopes : List CallScope} {env : KeychainEnv}
  {s s' : AccountKeychain} {account keyId : Address}

def SelectorRule.permission (rule : SelectorRule) : RecipientPermission :=
  if h : rule.recipients = [] then .any
  else .only rule.recipients.toFinset (List.toFinset_nonempty_iff _ |>.mpr h)

def CallScope.permission (scope : CallScope) : TargetPermission :=
  if scope.selectorRules = [] then .anySelector
  else .selectors (table SelectorRule.selector SelectorRule.permission scope.selectorRules)

/-- Replaces the listed targets. -/
def putScopes (m : Finmap fun _ : Address => TargetPermission)
    (scopes : List CallScope) : Finmap fun _ : Address => TargetPermission :=
  scopes.foldl (fun m scope => m.insert scope.target scope.permission) m

namespace KeyPermission

def authorized (config : KeyRestrictions) : KeyPermission :=
  if config.allowAnyCalls then .unrestricted
  else .targets (putScopes ∅ config.allowedCalls)

def set (scopes : List CallScope) : KeyPermission → KeyPermission
  | unrestricted => .targets (putScopes ∅ scopes)
  | targets m => .targets (putScopes m scopes)

/-- The last removal leaves the empty map, which allows nothing. -/
def remove (target : Address) : KeyPermission → KeyPermission
  | unrestricted => .unrestricted
  | targets m => .targets (m.erase target)

/-- What a report of the view describes. -/
def ofReport (report : Bool × List CallScope) : KeyPermission :=
  if report.1 then
    .targets (table CallScope.target CallScope.permission report.2)
  else .unrestricted

end KeyPermission

/-- The permission of every key of every account. -/
abbrev Permissions := Address × Address → KeyPermission

namespace KeychainCall

/-- What an accepted call changes of the permissions. -/
def permit (p : Permissions) : KeychainCall → Permissions
  | authorizeKey account keyId _ config _ =>
    update p (account, keyId) (.authorized config)
  | setAllowedCalls account keyId scopes =>
    update p (account, keyId) ((p (account, keyId)).set scopes)
  | removeAllowedCalls account keyId target =>
    update p (account, keyId) ((p (account, keyId)).remove target)
  | _ => p

/-- The permissions a sequence of accepted calls adds up to. -/
def permissions (calls : List (KeychainEnv × KeychainCall)) : Permissions :=
  calls.foldl (fun p c => c.2.permit p) fun _ => .unrestricted

end KeychainCall

/-! A stored list of scopes admits what its permission allows. -/

variable {input : List UInt8}

theorem SelectorRule.admits_iff {rule : SelectorRule} :
    rule.Admits input ↔ rule.permission.Allows (decodeRecipient input) := by
  unfold SelectorRule.Admits SelectorRule.permission decodeRecipient
  by_cases hnil : rule.recipients = []
  · simp [hnil, RecipientPermission.Allows]
  · by_cases hrecipient : HasRecipient input
    · simp [hnil, hrecipient, RecipientPermission.Allows]
    · simp [hnil, hrecipient, RecipientPermission.Allows]

variable {scope : CallScope} {tree : List CallScope}

theorem CallScope.admits_iff (h : (scope.selectorRules.map SelectorRule.selector).Nodup) :
    RulesAdmit scope.selectorRules input ↔ scope.permission.Allows (decodeSelector input)
        (decodeRecipient input) := by
  unfold RulesAdmit permission decodeSelector
  by_cases hnil : scope.selectorRules = []
  · simp [hnil, TargetPermission.Allows]
  by_cases hlen : 4 ≤ input.length
  · simp only [hnil, hlen, if_true, if_false, TargetPermission.Allows,
      Option.mem_def, Option.some_inj, exists_eq_left', lookup_table h, true_and, false_or]
    constructor
    · rintro ⟨rule, hrule, hsel, hpass⟩
      exact ⟨_, ⟨rule, hrule, hsel, rfl⟩, SelectorRule.admits_iff.mp hpass⟩
    · rintro ⟨p, ⟨rule, hrule, hsel, rfl⟩, hallow⟩
      exact ⟨rule, hrule, hsel, SelectorRule.admits_iff.mpr hallow⟩
  · simp [hnil, hlen, TargetPermission.Allows]

theorem TreeRep.selectors_nodup (h : TreeRep k tree) (hscope : scope ∈ tree) : scope.Distinct where
  selectors := (h.scope scope hscope).nodup
  recipients rule hrule := ((h.scope scope hscope).recipients rule hrule).nodup

theorem TreeRep.admits_iff (h : TreeRep k tree) {target : Address} :
    TreeAdmits tree target input ↔ KeyPermission.Allows target (decodeSelector input)
        (decodeRecipient input) (.targets (table CallScope.target CallScope.permission tree)) := by
  simp only [KeyPermission.Allows, Option.mem_def, lookup_table h.nodup]
  constructor
  · rintro ⟨scope, hscope, htarget, hpass⟩
    refine ⟨_, ⟨scope, hscope, htarget, rfl⟩, ?_⟩
    exact (CallScope.admits_iff (h.selectors_nodup hscope).selectors).mp hpass
  · rintro ⟨p, ⟨scope, hscope, htarget, rfl⟩, hallow⟩
    refine ⟨scope, hscope, htarget, ?_⟩
    exact (CallScope.admits_iff (h.selectors_nodup hscope).selectors).mpr hallow

/-! The stored tree of one key. -/

/-- The tree holds the permission.  A key that is not scoped has no scopes, so
that scoping it later starts from nothing. -/
def Holds (k : KeyScope) (p : KeyPermission) : Prop :=
  ∃ tree, TreeRep k tree ∧ p = KeyPermission.ofReport (k.isScoped, tree) ∧
    (k.isScoped = false → tree = [])

namespace Holds

variable {k' : KeyScope} {env : ScopeEnv} {u : Unit}

theorem blank : Holds .blank .unrestricted := ⟨[], .blank, rfl, fun _ => rfl⟩

theorem ofReport_true (tree : List CallScope) : KeyPermission.ofReport (true, tree) =
      .targets (table target permission tree) := if_pos rfl

theorem ofReport_false (tree : List CallScope) :
    KeyPermission.ofReport (false, tree) = .unrestricted := if_neg Bool.false_ne_true

/-- Storing validated scopes on top of a tree puts them into its map. -/
theorem of_upserts (h : TreeRep k tree)
    (hspec : .t4 ≤ env.spec) (hvalid : validateCallScopes env scopes = .ok ())
    (hrun : Yields (scopes.forM (upsertTargetScope env)) k u k') :
    Holds { k' with isScoped := true } (.targets (putScopes
      (table target permission tree) scopes)) := by
  obtain ⟨hrep, -⟩ := h.upserts hspec (validateCallScopes_distinct hspec hvalid) hrun
  refine ⟨_, ⟨hrep.targets, hrep.scope, hrep.absent⟩, ?_, nofun⟩
  rw [ofReport_true, table_foldl_upsert h.nodup]
  rfl

theorem set (h : Holds k p) (hspec : .t4 ≤ env.spec)
    (hrun : Yields (setAllowedCalls env scopes) k u k') : Holds k' (p.set scopes) := by
  obtain ⟨tree, hrep, rfl, hnil⟩ := h
  simp only [setAllowedCalls, yields_steps] at hrun
  obtain ⟨-, ⟨⟩, hvalid, hrest⟩ := hrun
  obtain ⟨⟨⟩, k1, hloop, hflag⟩ := hrest.bind
  rw [← hflag.updates]
  have hheld := of_upserts hrep hspec hvalid hloop
  cases hscoped : k.isScoped with
  | true =>
    exact hheld
  | false =>
    rw [ofReport_false, hnil hscoped] at *
    exact hheld

variable {target : Address}

theorem remove (h : Holds k p) (hrun : Yields (removeAllowedCalls target) k u k') :
    Holds k' (p.remove target) := by
  obtain ⟨tree, hrep, rfl, hnil⟩ := h
  rw [removeAllowedCalls, yields_reads_bind] at hrun
  cases hscoped : k.isScoped with
  | true =>
    rw [if_pos hscoped] at hrun
    obtain ⟨tree', hrep', hflag, hmem⟩ := hrep.remove hrun
    refine ⟨tree', hrep', ?_, ?_⟩
    · rw [hflag, hscoped, ofReport_true, ofReport_true, table_erase hrep.nodup hrep'.nodup hmem]
      rfl
    · rw [hflag, hscoped]
      nofun
  | false =>
    rw [if_neg (by simp [hscoped])] at hrun
    obtain ⟨-, rfl⟩ := hrun.pure
    refine ⟨tree, hrep, ?_, hnil⟩
    rw [hscoped, ofReport_false]
    rfl

/-- An authorization replaces whatever was stored. -/
theorem replace (h : Holds k p) {allowed : Option (List CallScope)} (hspec : .t4 ≤ env.spec)
    (hrun : Yields (KeyScope.replaceAllowedCalls env allowed) k u k') :
    Holds k' (allowed.elim .unrestricted fun scopes =>
      .targets (putScopes ∅ scopes)) := by
  obtain ⟨tree, hrep, -, -⟩ := h
  have hcleared := hrep.yields_clearAll.bind_iff.mp hrun
  cases allowed with
  | none =>
    rw [← hcleared.updates]
    exact blank
  | some scopes =>
    have hrun := yields_updates_bind.mp hcleared
    have hempty : TreeRep { KeyScope.blank with isScoped := true } [] :=
      ⟨TreeRep.blank.targets, nofun, fun _ _ => rfl⟩
    by_cases hscopes : scopes = []
    · rw [if_pos hscopes] at hrun
      obtain ⟨-, rfl⟩ := hrun.pure
      subst hscopes
      exact ⟨[], hempty, rfl, nofun⟩
    · rw [if_neg hscopes] at hrun
      obtain ⟨⟨⟩, hvalid, hloop⟩ := yields_ofExcept_bind.mp hrun
      have hflag : true = k'.isScoped := (hempty.upserts hspec
        (validateCallScopes_distinct hspec hvalid) hloop).2.symm
      have hheld := of_upserts hempty hspec hvalid hloop
      rw [hflag] at hheld
      exact hheld

theorem validateCall_iff (h : Holds k p) : Yields (validateCall (.call target) input) k () k' ↔
      p.Allows target (decodeSelector input) (decodeRecipient input) ∧ k = k' := by
  obtain ⟨tree, hrep, rfl, -⟩ := h
  rw [hrep.validateCall_iff, hrep.admits_iff]
  cases hscoped : k.isScoped with
  | true => simp [ofReport_true]
  | false => simp [ofReport_false, KeyPermission.Allows]

end Holds

/-! All keys. -/

def AllHold (s : AccountKeychain) (p : Permissions) : Prop :=
  ∀ row, Holds (s.keyScopes row) (p row)

namespace AccountKeychain

variable {p : Permissions} {token : Address} {row : Address × Address}

theorem onScope_holds {m : Exec KeyScope Unit} {q : KeyPermission}
    (h : AllHold s p) (hrun : Yields (onScope row m) s () s')
    (hm : ∀ k', Yields m (s.keyScopes row) () k' → Holds k' q) : AllHold s' (update p row q) := by
  obtain ⟨k', hk', rfl⟩ := hrun.focus
  intro other
  by_cases heq : other = row
  · subst heq
    dsimp only
    rw [update_self, update_self]
    exact hm k' hk'
  · dsimp only
    rw [update_of_ne heq, update_of_ne heq]
    exact h other

theorem applyLimits_keyScopes {limits : List TokenLimit} {u : Unit}
    (h : Yields (limits.forM (applyLimit env row)) s u s') : s'.keyScopes = s.keyScopes := by
  refine Yields.forM_invariant (I := fun t => t.keyScopes = s.keyScopes) ?_ h rfl
  rintro limit - t t' ht hstep
  obtain ⟨l, rfl, -⟩ := applyLimit_yields hstep
  exact ht

theorem checkRestrictions_allowed {config : KeyRestrictions}
    {allowed : Option (List CallScope)} (hspec : .t3 ≤ env.spec)
    (h : checkRestrictions env config = .ok allowed) :
    allowed.elim .unrestricted (fun scopes => .targets (putScopes ∅ scopes)) =
      KeyPermission.authorized config := by
  rw [checkRestrictions, if_pos hspec] at h
  unfold KeyPermission.authorized
  split at h
  · cases h
  · split at h
    next hany =>
      rw [if_pos hany]
      split at h
      · cases h
      · cases h
        rfl
    next hany =>
      rw [if_neg hany]
      cases h
      rfl

end AccountKeychain

namespace KeychainCall

open AccountKeychain

variable {p : Permissions}

theorem authorizeKey_holds {signatureType : SignatureType}
    {config : KeyRestrictions} {witness : Option B256} (hspec : .t4 ≤ env.spec) (h : AllHold s p)
    (hrun : Yields (AccountKeychain.authorizeKey env account keyId
      signatureType config witness) s () s') :
    AllHold s' (update p (account, keyId) (.authorized config)) := by
  obtain ⟨-, -, -, -, allowed, hcheck, hwrite⟩ := authorizeKeyInternal_yields hrun
  obtain ⟨⟨⟩, s1, hlimits, hscope⟩ := hwrite.bind
  have hspec3 : .t3 ≤ env.spec := le_trans (by decide) hspec
  have h1 : AllHold s1 p := fun row => by
    rw [applyLimits_keyScopes hlimits]
    exact h row
  rw [if_pos hspec3] at hscope
  refine onScope_holds h1 hscope fun k' hk' => ?_
  rw [← checkRestrictions_allowed hspec3 hcheck]
  exact (h1 _).replace hspec hk'

/-- Each accepted call changes the stored trees as it changes the
permissions. -/
theorem exec_holds {c : KeychainCall} (hspec : .t4 ≤ env.spec)
    (h : AllHold s p) (hrun : Yields (c.exec env) s () s') : AllHold s' (c.permit p) := by
  have keep : s'.keyScopes = s.keyScopes → AllHold s' p := fun heq row => by
    rw [heq]
    exact h row
  cases c with
  | setTransactionKey k | setTxOrigin origin =>
    rw [← hrun.updates]
    exact h
  | authorizeKey account keyId signatureType config witness =>
    exact authorizeKey_holds hspec h hrun
  | authorizeAdminKey account keyId signatureType witness =>
    obtain ⟨-, -, -, -, allowed, -, hwrite⟩ := authorizeKeyInternal_yields hrun
    obtain ⟨-, rfl⟩ := hwrite.pure
    exact h
  | burnKeyAuthorizationWitness account witness =>
    obtain ⟨_, rfl⟩ := burnKeyAuthorizationWitness_yields hrun
    exact h
  | revokeKey account keyId =>
    obtain ⟨-, rfl⟩ := revokeKey_yields hrun
    exact h
  | updateSpendingLimit account keyId token newLimit =>
    obtain ⟨key, l, -, rfl, -⟩ := updateSpendingLimit_yields hrun
    refine keep ?_
    split <;> rfl
  | setAllowedCalls account keyId scopes =>
    exact onScope_holds h (setAllowedCalls_yields hrun) fun k' hk' => (h _).set hspec hk'
  | removeAllowedCalls account keyId target =>
    exact onScope_holds h (removeAllowedCalls_yields hrun) fun k' hk' => (h _).remove hk'
  | verifyAndUpdateSpending account keyId token amount
  | refundSpendingLimit account token amount | authorizeTransfer account token amount
  | authorizeApprove account token oldApproval newApproval =>
    exact keep (exec_spends id id hrun).keyScopes

theorem run_holds {calls : List (KeychainEnv × KeychainCall)} {u : Unit}
    (hspec : ∀ c ∈ calls, .t4 ≤ c.1.spec) (h : AllHold s p)
    (hrun : Yields (calls.forM fun c => c.2.exec c.1) s u s') :
    AllHold s' (calls.foldl (fun p c => c.2.permit p) p) := by
  induction calls generalizing s p with
  | nil =>
    obtain ⟨-, rfl⟩ := hrun.pure
    exact h
  | cons c calls ih =>
    obtain ⟨⟨⟩, s1, hfirst, hrest⟩ := hrun.bind
    exact ih (fun d hd => hspec d (.tail _ hd)) (exec_holds (hspec c (.head _)) h hfirst) hrest

/-! What a key may call, and what is reported of it. -/

/-- The call passes the scope check of the key. -/
def Admitted (env : KeychainEnv) (s : AccountKeychain)
    (account keyId target : Address) (input : List UInt8) : Prop :=
  ∃ s', Yields (validateCallScopeForTransaction env account keyId (.call target) input) s () s'

theorem admitted_iff (h : AllHold s p) {target : Address}
    (hspec : .t4 ≤ env.spec) (hkey : keyId ≠ 0) :
    Admitted env s account keyId target input ↔
      (p (account, keyId)).Allows target (decodeSelector input) (decodeRecipient input) := by
  have hspec3 : .t3 ≤ env.spec := le_trans (by decide) hspec
  have hskip : ¬(keyId = 0 ∨ ¬.t3 ≤ env.spec) := by
    simp [hkey, hspec3]
  unfold Admitted validateCallScopeForTransaction
  rw [if_neg hskip]
  constructor
  · rintro ⟨s', hvalid⟩
    obtain ⟨k', hk', -⟩ := hvalid.focus
    exact ((h (account, keyId)).validateCall_iff.mp hk').1
  · intro hallow
    exact ⟨_, yields_focus.mpr ⟨_, (h (account, keyId)).validateCall_iff.mpr ⟨hallow, rfl⟩, rfl⟩⟩

/-- The view lists every target and selector once and describes the
permission. -/
theorem getAllowedCalls_reports (h : AllHold s p) {key : AuthorizedKey} (hkey : keyId ≠ 0)
    (hactive : s.loadActiveKey account keyId env.timestamp = .ok key) :
    ∃ report, Yields (getAllowedCalls env account keyId) s report s ∧
      KeyPermission.ofReport report = p (account, keyId) ∧ (report.2.map target).Nodup ∧
      ∀ scope ∈ report.2, scope.Distinct := by
  obtain ⟨rfl, hrevoked, hexpiry⟩ := loadActiveKey_ok hactive
  obtain ⟨tree, hrep, hp, -⟩ := h (account, keyId)
  have hlive : ¬((s.keys account keyId).expiry = 0 ∨ (s.keys account keyId).isRevoked = true ∨
      (s.keys account keyId).expiry ≤ env.timestamp) := by
    rw [hrevoked]
    simp only [Bool.false_eq_true, false_or]
    omega
  simp only [getAllowedCalls, if_neg hkey, yields_reads_bind, if_neg hlive]
  rw [hp]
  cases hscoped : (s.keyScopes (account, keyId)).isScoped with
  | true =>
    have hread : Yields (AccountKeychain.onScope (account, keyId) readScopes) s tree s := by
      refine yields_focus.mpr ⟨_, hrep.yields_readScopes, ?_⟩
      rw [update_eq_self]
    refine ⟨(true, tree), ?_, rfl, hrep.nodup, fun scope hscope =>
      hrep.selectors_nodup hscope⟩
    rw [if_pos rfl, hread.bind_iff]
    exact yields_pure.mpr ⟨rfl, rfl⟩
  | false =>
    refine ⟨(false, []), ?_, ?_, List.nodup_nil, fun scope hscope =>
      absurd hscope List.not_mem_nil⟩
    · exact yields_pure.mpr ⟨rfl, rfl⟩
    · rw [Holds.ofReport_false, Holds.ofReport_false]

end KeychainCall

namespace KeyPermission

variable {target : Address} {selector : Option Selector} {recipient : Option Address}

theorem allows_of_remove {removed : Address}
    (h : (p.remove removed).Allows target selector recipient) :
    p.Allows target selector recipient := by
  cases p with
  | unrestricted => trivial
  | targets m =>
    obtain ⟨q, hq, hallow⟩ := h
    by_cases heq : target = removed
    · subst heq
      rw [Finmap.lookup_erase] at hq
      cases hq
    · rw [Finmap.lookup_erase_ne heq] at hq
      exact ⟨q, hq, hallow⟩

theorem allows_of_put {m : Finmap fun _ : Address => TargetPermission}
    (h : (KeyPermission.targets (putScopes m scopes)).Allows target selector recipient) :
    (∃ scope ∈ scopes, scope.target = target ∧ scope.permission.Allows selector recipient) ∨
      ((KeyPermission.targets m).Allows target selector recipient ∧
        ∀ scope ∈ scopes, scope.target ≠ target) := by
  obtain ⟨q, hq, hallow⟩ := h
  rcases lookup_foldl_insert hq with ⟨scope, hscope, htarget, rfl⟩ | ⟨hm, hne⟩
  · exact .inl ⟨scope, hscope, htarget, hallow⟩
  · exact .inr ⟨⟨q, hm, hallow⟩, hne⟩

/-- After a replacement a call is allowed by a listed scope, or its target is
not listed and it was allowed before. -/
theorem allows_of_set (h : (p.set scopes).Allows target selector recipient) :
    (∃ scope ∈ scopes, scope.target = target ∧ scope.permission.Allows selector recipient) ∨
      (p.Allows target selector recipient ∧ ∀ scope ∈ scopes, scope.target ≠ target) := by
  cases p with
  | unrestricted =>
    rcases allows_of_put h with hlisted | ⟨-, hne⟩
    · exact .inl hlisted
    · exact .inr ⟨trivial, hne⟩
  | targets m => exact allows_of_put h

end KeyPermission

namespace KeychainCall

open AccountKeychain

/-- After any sequence of accepted calls, a key may call what its permission
allows, the view reports that permission, a removal admits no call that was
not admitted before, and a replacement admits only what its scopes list for
their targets and, for other targets, what was admitted before. -/
theorem scopes_refine_permissions {s : AccountKeychain} {calls : List (KeychainEnv × KeychainCall)}
    (hspec : ∀ c ∈ calls, .t4 ≤ c.1.spec)
    (hrun : Yields (calls.forM fun c => c.2.exec c.1) .empty ⟨⟩ s)
    {env : KeychainEnv} (henv : .t4 ≤ env.spec) (account : Address)
    {keyId : Address} (hkey : keyId ≠ 0) :
    (∀ target input, Admitted env s account keyId target input ↔
      (permissions calls (account, keyId)).Allows target
        (decodeSelector input) (decodeRecipient input)) ∧
    (∀ key, s.loadActiveKey account keyId env.timestamp = .ok key →
      ∃ report, Yields (getAllowedCalls env account keyId) s report s ∧
        KeyPermission.ofReport report = permissions calls (account, keyId) ∧
        (report.2.map target).Nodup ∧ ∀ scope ∈ report.2, scope.Distinct) ∧
    (∀ env₁ a k removed s₁, .t4 ≤ env₁.spec →
      Yields (AccountKeychain.removeAllowedCalls env₁ a k removed) s () s₁ →
      ∀ target input, Admitted env s₁ account keyId target input →
        Admitted env s account keyId target input) ∧ ∀ env₁ a k scopes s₁, .t4 ≤ env₁.spec →
      Yields (AccountKeychain.setAllowedCalls env₁ a k scopes) s () s₁ →
      ∀ target input, Admitted env s₁ account keyId target input →
        ((account, keyId) = (a, k) ∧ ∃ scope ∈ scopes,
          scope.target = target ∧ scope.permission.Allows
            (decodeSelector input) (decodeRecipient input)) ∨
        (Admitted env s account keyId target input ∧ ((account, keyId) = (a, k) →
            ∀ scope ∈ scopes, scope.target ≠ target)) := by
  have hall : AllHold s (permissions calls) := run_holds hspec (fun _ => Holds.blank) hrun
  refine ⟨fun target input => admitted_iff hall henv hkey,
    fun key hactive => getAllowedCalls_reports hall hkey hactive, ?_, ?_⟩
  · intro env₁ a k removed s₁ hspec₁ hremove target input hpass
    have hall₁ := exec_holds (c := removeAllowedCalls a k removed) hspec₁ hall hremove
    rw [admitted_iff hall henv hkey]
    rw [admitted_iff hall₁ henv hkey, permit] at hpass
    by_cases hrow : (account, keyId) = (a, k)
    · rw [hrow, update_self] at hpass
      rw [hrow]
      exact KeyPermission.allows_of_remove hpass
    · rwa [update_of_ne hrow] at hpass
  · intro env₁ a k scopes s₁ hspec₁ hset target input hpass
    have hall₁ := exec_holds (c := setAllowedCalls a k scopes) hspec₁ hall hset
    rw [admitted_iff hall henv hkey]
    rw [admitted_iff hall₁ henv hkey, permit] at hpass
    by_cases hrow : (account, keyId) = (a, k)
    · rw [hrow, update_self] at hpass
      rw [hrow]
      rcases KeyPermission.allows_of_set hpass with hlisted | ⟨hold, hne⟩
      · exact .inl ⟨rfl, hlisted⟩
      · exact .inr ⟨hold, fun _ => hne⟩
    · rw [update_of_ne hrow] at hpass
      exact .inr ⟨hpass, fun heq => absurd heq hrow⟩

/-- A target with a recipient is removed and added again with another one:
the first recipient stays refused. -/
theorem scopes_refine_permissions_readded :
    let account : Address := ⟨1⟩
    let keyId : Address := ⟨2⟩
    let token : Address := ⟨0x20c0000000000000000000000000000000000001#160⟩
    let scope (recipient : Address) : CallScope :=
      ⟨token, [⟨tip20TransferSelector, [recipient]⟩]⟩
    let config : KeyRestrictions :=
      { expiry := 5000, enforceLimits := false, limits := [],
        allowAnyCalls := false, allowedCalls := [scope ⟨3⟩] }
    let env : KeychainEnv :=
      { spec := .t4, isDeployedTip20 _ := false, blockTimestamp := 1000,
        validAccount _ := true, hasCode _ := false,
        hasConfigCommitment _ := false }
    let calls : List (KeychainEnv × KeychainCall) :=
      [(env, setTxOrigin account), (env, authorizeKey account keyId .p256 config none),
        (env, removeAllowedCalls account keyId token),
        (env, setAllowedCalls account keyId [scope ⟨4⟩])]
    (permissions calls (account, keyId)).Allows token (some tip20TransferSelector) (some ⟨4⟩) ∧
      ¬(permissions calls (account, keyId)).Allows token
        (some tip20TransferSelector) (some ⟨3⟩) := by
  intro account keyId token scope config env calls
  let s := finalState (calls.forM fun c => c.2.exec c.1) .empty
  have hrun : Yields (calls.forM fun c => c.2.exec c.1) .empty ⟨⟩ s :=
    yields_finalState (by decide +kernel)
  have hall := scopes_refine_permissions (by decide) hrun
    (show .t4 ≤ env.spec by decide) account (show keyId ≠ 0 by decide)
  let input (last : UInt8) : List UInt8 :=
    [0xa9, 0x05, 0x9c, 0xbb] ++ List.replicate 31 0 ++ [last]
  have hchecks : succeeds (validateCallScopeForTransaction env account keyId
        (.call token) (input 4)) s = true ∧
      succeeds (validateCallScopeForTransaction env account keyId
        (.call token) (input 3)) s = false := by
    decide +kernel
  have hdecode : ∀ last ∈ ([3, 4] : List UInt8),
      decodeSelector (input last) = some tip20TransferSelector ∧ decodeRecipient (input last) =
        some ⟨BitVec.ofNat 160 last.toNat⟩ := by
    decide +kernel
  have hnew := (hall.1 token (input 4)).mp ⟨_, yields_finalState hchecks.1⟩
  have hold := (hall.1 token (input 3)).mpr
  rw [(hdecode 4 (by decide)).1, (hdecode 4 (by decide)).2] at hnew
  rw [(hdecode 3 (by decide)).1, (hdecode 3 (by decide)).2] at hold
  refine ⟨hnew, fun hallow => ?_⟩
  obtain ⟨s', hs'⟩ := hold hallow
  have hfails := hchecks.2
  rw [succeeds, hs'] at hfails
  cases hfails

end KeychainCall

end Tempo
