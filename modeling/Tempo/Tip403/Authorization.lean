/-
What TIP-403 authorization means.  Registry states reached from T2 on keep
every policy's type, refer to existing simple policies only, and cache types
that stay right; so authorization never fails on an existing policy and is the
denotation of that policy.
-/
import Tempo.Tip403.Registry

namespace Tempo

open PolicyData Tip403Registry Relation Function

variable {r r' : Tip403Registry}

namespace Tip403Registry

variable {spec : TempoHardfork}

def typeOf (r : Tip403Registry) (id : Nat) : Nat :=
  (r.policyRecords id).base.policyType

/-- A policy that other policies may refer to. -/
def IsSimplePolicy (r : Tip403Registry) (id : Nat) : Prop :=
  id = 0 ∨ id = 1 ∨ id < r.nextPolicyId ∧ r.typeOf id ≤ 1

/-- A type kept for a policy is the type the policy has. -/
def Cached (r : Tip403Registry) (id ty : Nat) : Prop :=
  id = 0 ∨ id = 1 ∨ id < r.nextPolicyId ∧ r.typeOf id = ty ∧ ty ≤ 1

/-- Every sub-policy of a compound policy is simple. -/
def RefersToSimple (r : Tip403Registry) (c : CompoundPolicyData) : Prop :=
  r.IsSimplePolicy c.senderPolicyId ∧ r.IsSimplePolicy c.recipientPolicyId ∧
    r.IsSimplePolicy c.mintRecipientPolicyId

structure WellFormed (r : Tip403Registry) : Prop where
  created : ∀ id, id < r.nextPolicyId → r.typeOf id ≤ 2
  unused : ∀ id, r.nextPolicyId ≤ id → (r.policyRecords id).base = .blank
  compound : ∀ id, id < r.nextPolicyId → r.typeOf id = 2 →
    r.RefersToSimple (r.policyRecords id).compound
  cached : ∀ account, (r.receivePolicies account).config.hasReceivePolicy = true →
    r.Cached (r.receivePolicies account).config.senderPolicyId
      (r.receivePolicies account).config.senderPolicyType ∧
    r.Cached (r.receivePolicies account).config.tokenFilterId
      (r.receivePolicies account).config.tokenFilterType

/-- Policies are added and existing ones keep type and sub-policies. -/
structure Extends (r r' : Tip403Registry) : Prop where
  counter : r.nextPolicyId ≤ r'.nextPolicyId
  typeOf_eq : ∀ id, id < r.nextPolicyId → r'.typeOf id = r.typeOf id
  compound_eq : ∀ id, id < r.nextPolicyId →
    (r'.policyRecords id).compound = (r.policyRecords id).compound

theorem two_le_nextPolicyId : 2 ≤ r.nextPolicyId := Nat.le_max_right _ _

theorem Extends.trans {r'' : Tip403Registry} (h : Extends r r')
    (h' : Extends r' r'') : Extends r r'' := by
  refine ⟨le_trans h.counter h'.counter, fun id hid => ?_, fun id hid => ?_⟩
  · rw [h'.typeOf_eq id (lt_of_lt_of_le hid h.counter), h.typeOf_eq id hid]
  · rw [h'.compound_eq id (lt_of_lt_of_le hid h.counter), h.compound_eq id hid]

variable {id : Nat} {data : PolicyData} {record : PolicyRecord} {sender : Address}

theorem IsSimplePolicy.extends (hid : r.IsSimplePolicy id)
    (h : Extends r r') : r'.IsSimplePolicy id := by
  rcases hid with h0 | h1 | ⟨hlt, hty⟩
  · exact .inl h0
  · exact .inr (.inl h1)
  · refine .inr (.inr ⟨lt_of_lt_of_le hlt h.counter, ?_⟩)
    rw [h.typeOf_eq id hlt]
    exact hty

variable {ty : Nat} {admin : Address} {accounts : List Address} {u : Unit}

theorem Cached.extends (hid : r.Cached id ty) (h : Extends r r') : r'.Cached id ty := by
  rcases hid with h0 | h1 | ⟨hlt, hty, hle⟩
  · exact .inl h0
  · exact .inr (.inl h1)
  · refine .inr (.inr ⟨lt_of_lt_of_le hlt h.counter, ?_, hle⟩)
    rw [h.typeOf_eq id hlt, hty]

theorem RefersToSimple.extends {c : CompoundPolicyData}
    (hc : r.RefersToSimple c) (h : Extends r r') : r'.RefersToSimple c :=
  ⟨hc.1.extends h, hc.2.1.extends h, hc.2.2.extends h⟩

theorem empty_wellFormed : WellFormed empty where
  created _ _ := by simp [typeOf, empty, blank]
  unused _ _ := rfl
  compound _ _ h := by simp [typeOf, empty, blank] at h
  cached _ h := by simp [empty] at h

/-- What a change of the policies has to respect; receive policies may be
kept or given types that are cached rightly. -/
theorem WellFormed.extends (h : WellFormed r) (hext : Extends r r')
    (hcreated : ∀ id, r.nextPolicyId ≤ id → id < r'.nextPolicyId → r'.typeOf id ≤ 2 ∧
      (r'.typeOf id = 2 → r.RefersToSimple (r'.policyRecords id).compound))
    (hunused : ∀ id, r'.nextPolicyId ≤ id → (r'.policyRecords id).base = (r.policyRecords id).base)
    (hreceive : r'.receivePolicies = r.receivePolicies) : WellFormed r' where
  created id hid := by
    by_cases hold : id < r.nextPolicyId
    · rw [hext.typeOf_eq id hold]
      exact h.created id hold
    · exact (hcreated id (by omega) hid).1
  unused id hid := by
    rw [hunused id hid]
    exact h.unused id (le_trans hext.counter hid)
  compound id hid hty := by
    by_cases hold : id < r.nextPolicyId
    · rw [hext.typeOf_eq id hold] at hty
      rw [hext.compound_eq id hold]
      exact (h.compound id hold hty).extends hext
    · exact ((hcreated id (by omega) hid).2 hty).extends hext
  cached account hhas := by
    rw [hreceive] at hhas ⊢
    obtain ⟨hs, ht⟩ := h.cached account hhas
    exact ⟨hs.extends hext, ht.extends hext⟩

/-! Reading. -/

theorem builtinAuthorization_zero : builtinAuthorization 0 = some false := rfl

theorem builtinAuthorization_one : builtinAuthorization 1 = some true := rfl

theorem builtinAuthorization_eq_none (h : 2 ≤ id) : builtinAuthorization id = none := by
  have h1 : id ≠ 1 := by omega
  have h0 : id ≠ 0 := by omega
  simp [builtinAuthorization, allowAllPolicyId, rejectAllPolicyId, h1, h0]

theorem builtin_cases (id : Nat) : id = 0 ∨ id = 1 ∨ 2 ≤ id := by
  omega

theorem getPolicyData_eq (hid : id < r.nextPolicyId) :
    getPolicyData spec r id = .ok (r.policyRecords id).base := by
  simp [getPolicyData, hid]

/-- From T2 on, data is only found for policies that exist. -/
theorem WellFormed.exists_of_getPolicyData (h : WellFormed r)
    (hspec : .t2 ≤ spec) (hdata : getPolicyData spec r id = .ok data) :
    id < r.nextPolicyId ∧ data = (r.policyRecords id).base := by
  by_cases hid : id < r.nextPolicyId
  · rw [getPolicyData_eq hid] at hdata
    exact ⟨hid, (Except.ok.inj hdata).symm⟩
  · have hblank := h.unused id (by omega)
    have hle : r.nextPolicyId ≤ id := by omega
    simp [getPolicyData, hblank, isDefault, blank, Address.isZero, hspec, hle] at hdata

theorem decodeType_eq (hspec : .t2 ≤ spec) (hty : data.policyType ≤ 1) :
    data.decodeType spec = .ok (if data.policyType = 0 then .whitelist else .blacklist) := by
  have hcases : data.policyType = 0 ∨ data.policyType = 1 := by omega
  rcases hcases with h | h <;> simp [decodeType, PolicyType.tryFrom, h, hspec]

/-- Membership for a whitelist, non-membership for a blacklist. -/
def denoteSimple (r : Tip403Registry) (id : Nat) (user : Address) : Bool :=
  match builtinAuthorization id with
  | some auth => auth
  | none =>
    if r.typeOf id = 0 then r.policySet id user else !r.policySet id user

/-- The meaning of a policy for a role. -/
def denote (r : Tip403Registry) (id : Nat) (user : Address) (role : AuthRole) : Bool :=
  if 2 ≤ id ∧ r.typeOf id = 2 then
    let c := (r.policyRecords id).compound
    match role with
    | .sender => r.denoteSimple c.senderPolicyId user
    | .recipient => r.denoteSimple c.recipientPolicyId user
    | .mintRecipient => r.denoteSimple c.mintRecipientPolicyId user
    | .transfer => r.denoteSimple c.senderPolicyId user &&
        r.denoteSimple c.recipientPolicyId user
  else r.denoteSimple id user

theorem isAuthorizedSimpleInner_eq (hspec : .t2 ≤ spec) (hid : 2 ≤ id)
    (user : Address) (hdata : data.policyType = r.typeOf id) (hty : r.typeOf id ≤ 1) :
    isAuthorizedSimpleInner spec r id user data = .ok (r.denoteSimple id user) := by
  rw [isAuthorizedSimpleInner, decodeType_eq hspec (hdata ▸ hty), denoteSimple,
    builtinAuthorization_eq_none hid, hdata]
  by_cases h0 : r.typeOf id = 0
  · simp only [if_pos h0]
    rfl
  · simp only [if_neg h0]
    rfl

/-- A simple policy answers the same with and without a right cache. -/
theorem isAuthorizedSimple_eq (hspec : .t2 ≤ spec) (hid : r.IsSimplePolicy id)
    (user : Address) {cache : Option PolicyData} (hcache : ∀ data, cache = some data → 2 ≤ id →
      data.policyType = r.typeOf id) :
    isAuthorizedSimple spec r id user cache = .ok (r.denoteSimple id user) := by
  rcases builtin_cases id with rfl | rfl | htwo
  · rfl
  · rfl
  · obtain ⟨hlt, hty⟩ : id < r.nextPolicyId ∧ r.typeOf id ≤ 1 := by
      rcases hid with h | h | h
      · omega
      · omega
      · exact h
    rw [isAuthorizedSimple, builtinAuthorization_eq_none htwo]
    cases cache with
    | none =>
      simp only [getPolicyData_eq hlt]
      exact isAuthorizedSimpleInner_eq hspec htwo user rfl hty
    | some data =>
      exact isAuthorizedSimpleInner_eq hspec htwo user (hcache data rfl htwo) hty

/-- On an existing policy authorization does not fail and is what the policy
means, except for the addresses that cannot be policed. -/
theorem WellFormed.isAuthorizedAs_eq (h : WellFormed r) (hspec : .t2 ≤ spec)
    (hid : r.policyExists id = true) (user : Address) (role : AuthRole) :
    isAuthorizedAs spec r id user role =
      .ok (isAlwaysAuthorized spec user || r.denote id user role) := by
  unfold isAuthorizedAs
  by_cases halways : isAlwaysAuthorized spec user = true
  · rw [if_pos halways, halways, Bool.true_or]
  · rw [if_neg halways, Bool.eq_false_iff.mpr halways, Bool.false_or]
    rcases builtin_cases id with rfl | rfl | htwo
    · rfl
    · rfl
    · have hlt : id < r.nextPolicyId := by
        simpa [policyExists, builtinAuthorization_eq_none htwo] using hid
      rw [builtinAuthorization_eq_none htwo]
      simp only [getPolicyData_eq hlt]
      change (if (r.policyRecords id).base.isCompound = true then _ else _) = _
      have hcompound : (r.policyRecords id).base.isCompound = true ↔ r.typeOf id = 2 := by
        simp [isCompound, PolicyType.toU8, typeOf]
      by_cases hty : r.typeOf id = 2
      · obtain ⟨hs, hr, hm⟩ := h.compound id hlt hty
        have hnone : ∀ (sub : Nat) (data : PolicyData), none = some data →
            2 ≤ sub → data.policyType = r.typeOf sub := by
          intro sub data hdata
          cases hdata
        rw [if_pos (hcompound.mpr hty), denote, if_pos ⟨htwo, hty⟩]
        cases role with
        | sender => exact isAuthorizedSimple_eq hspec hs user (hnone _)
        | recipient => exact isAuthorizedSimple_eq hspec hr user (hnone _)
        | mintRecipient => exact isAuthorizedSimple_eq hspec hm user (hnone _)
        | transfer =>
          simp only [isAuthorizedCompound, isAuthorizedSimple_eq hspec hs user (hnone _),
            isAuthorizedSimple_eq hspec hr user (hnone _), hspec, true_and]
          cases r.denoteSimple (r.policyRecords id).compound.senderPolicyId user <;> rfl
      · have hle := h.created id hlt
        rw [if_neg (mt hcompound.mp hty), denote, if_neg (fun hc => hty hc.2)]
        exact isAuthorizedSimpleInner_eq hspec htwo user rfl (by omega)

/-- The receive-policy check as it would be with both policies read again
instead of their cached types. -/
def checkReceivePolicyFresh (spec : TempoHardfork) (r : Tip403Registry)
    (token sender receiver : Address) :
    Except TempoPrecompileError (Option (BlockedReason × Address)) := do
  let config := (r.receivePolicies receiver).config
  if config.hasReceivePolicy = false then .ok none
  else
    let tokenAuth ← isAuthorizedSimple spec r config.tokenFilterId token none
    if tokenAuth = false then
      .ok (some (.tokenFilter, receivePolicyRecovery r receiver config.recoveryMode))
    else
      let senderAuth ← isAuthorizedSimple spec r config.senderPolicyId sender none
      if senderAuth = false then
        .ok (some (.receivePolicy, receivePolicyRecovery r receiver config.recoveryMode))
      else .ok none

theorem Cached.isSimplePolicy (h : r.Cached id ty) : r.IsSimplePolicy id := by
  rcases h with h | h | ⟨hlt, hty, hle⟩
  · exact .inl h
  · exact .inr (.inl h)
  · exact .inr (.inr ⟨hlt, hty ▸ hle⟩)

theorem Cached.isAuthorizedSimple_eq (h : r.Cached id ty) (hspec : .t2 ≤ spec) (user : Address) :
    isAuthorizedSimple spec r id user (some ⟨ty, 0⟩) = .ok (r.denoteSimple id user) ∧
      isAuthorizedSimple spec r id user none = .ok (r.denoteSimple id user) := by
  refine ⟨Tip403Registry.isAuthorizedSimple_eq hspec h.isSimplePolicy user ?_,
    Tip403Registry.isAuthorizedSimple_eq hspec h.isSimplePolicy user nofun⟩
  intro data hdata htwo
  cases hdata
  rcases h with h | h | ⟨_, hty, _⟩
  · omega
  · omega
  · exact hty.symm

/-- The cached types give the answer that re-reading would. -/
theorem WellFormed.checkReceivePolicy_eq (h : WellFormed r)
    (hspec : .t2 ≤ spec) (token sender receiver : Address) :
    ∃ blocked, checkReceivePolicy spec r token sender receiver = .ok blocked ∧
      checkReceivePolicyFresh spec r token sender receiver = .ok blocked := by
  unfold checkReceivePolicy checkReceivePolicyFresh
  by_cases hhas : (r.receivePolicies receiver).config.hasReceivePolicy = false
  · simp only [if_pos hhas]
    exact ⟨none, rfl, rfl⟩
  · obtain ⟨hsender, htoken⟩ := h.cached receiver (by simpa using hhas)
    obtain ⟨htok, htok'⟩ := htoken.isAuthorizedSimple_eq hspec token
    obtain ⟨hsnd, hsnd'⟩ := hsender.isAuthorizedSimple_eq hspec sender
    simp only [if_neg hhas, ReceivePolicyConfig.tokenFilterData,
      ReceivePolicyConfig.senderPolicyData, htok, htok', hsnd, hsnd']
    cases r.denoteSimple (r.receivePolicies receiver).config.tokenFilterId token with
    | false => exact ⟨_, rfl, rfl⟩
    | true =>
      cases r.denoteSimple (r.receivePolicies receiver).config.senderPolicyId sender with
      | false => exact ⟨_, rfl, rfl⟩
      | true => exact ⟨none, rfl, rfl⟩

/-! Writing. -/

theorem allocatePolicyId_yields (h : Yields allocatePolicyId r id r') :
    id = r.nextPolicyId ∧ r' = { r with policyIdCounter := r.nextPolicyId + 1 } := by
  simp only [allocatePolicyId, yields_steps, checkedAdd_eq_some] at h
  obtain ⟨next, ⟨_, rfl⟩, rfl, rfl⟩ := h
  exact ⟨rfl, rfl⟩

theorem nextPolicyId_succ : nextPolicyId { r with policyIdCounter := r.nextPolicyId + 1 } =
      r.nextPolicyId + 1 := by
  have := two_le_nextPolicyId (r := r)
  change max (r.nextPolicyId + 1) 2 = _
  omega

/-- A record under the next id is the only change to the policies. -/
def Adds (r r' : Tip403Registry) (record : PolicyRecord) : Prop :=
  r'.nextPolicyId = r.nextPolicyId + 1 ∧
  r'.policyRecords = update r.policyRecords r.nextPolicyId record ∧
  r'.receivePolicies = r.receivePolicies

theorem Adds.record_of_ne (h : Adds r r' record) (hid : id ≠ r.nextPolicyId) :
    r'.policyRecords id = r.policyRecords id := by
  rw [h.2.1, update_of_ne hid]

theorem Adds.extends (h : Adds r r' record) : Extends r r' := by
  refine ⟨by rw [h.1]; omega, fun id hid => ?_, fun id hid => ?_⟩
  · rw [typeOf, h.record_of_ne (by omega), typeOf]
  · rw [h.record_of_ne (by omega)]

theorem Adds.wellFormed (h : Adds r r' record) (hr : WellFormed r)
    (hty : record.base.policyType ≤ 2) (hcompound : record.base.policyType = 2 →
      r.RefersToSimple record.compound) : WellFormed r' := by
  refine hr.extends h.extends (fun id hold hnew => ?_) (fun id hid => ?_) h.2.2
  · have hid : id = r.nextPolicyId := by
      rw [h.1] at hnew
      omega
    rw [typeOf, h.2.1, hid, update_self]
    exact ⟨hty, hcompound⟩
  · rw [h.1] at hid
    rw [h.record_of_ne (by omega)]

theorem ensureIsSimple_le {ty : PolicyType} {stored : Nat}
    (hspec : .t2 ≤ spec) (h : ty.ensureIsSimple spec = .ok stored) : stored ≤ 1 := by
  cases ty <;> simp [PolicyType.ensureIsSimple, PolicyType.toU8, hspec] at h <;>
    omega

theorem createPolicy_yields {ty : PolicyType} (hspec : .t2 ≤ spec)
    (h : Yields (createPolicy spec admin ty) r id r') :
    ∃ stored, stored ≤ 1 ∧
      Adds r r' ⟨⟨stored, admin⟩, (r.policyRecords r.nextPolicyId).compound⟩ := by
  simp only [createPolicy, yields_ofExcept_bind] at h
  obtain ⟨stored, hstored, h⟩ := h
  obtain ⟨newId, r1, halloc, h⟩ := h.bind
  obtain ⟨rfl, rfl⟩ := allocatePolicyId_yields halloc
  obtain ⟨rfl, rfl⟩ := h
  exact ⟨stored, ensureIsSimple_le hspec hstored, nextPolicyId_succ, rfl, rfl⟩

theorem addInitialAccounts_yields {ty : PolicyType}
    (h : Yields (accounts.forM (addInitialAccount ty id)) r u r') :
    r'.policyIdCounter = r.policyIdCounter ∧ r'.policyRecords = r.policyRecords ∧
      r'.receivePolicies = r.receivePolicies := by
  induction accounts generalizing r with
  | nil =>
    obtain ⟨_, rfl⟩ := h.pure
    exact ⟨rfl, rfl, rfl⟩
  | cons account accounts ih =>
    obtain ⟨_, r1, hfirst, h⟩ := h.bind
    simp only [addInitialAccount, yields_steps] at hfirst
    obtain ⟨_, rfl⟩ := hfirst
    have hrest := ih h
    exact hrest

theorem createPolicyWithAccounts_yields {ty : PolicyType} (hspec : .t2 ≤ spec)
    (h : Yields (createPolicyWithAccounts spec admin ty accounts) r id r') :
    ∃ stored, stored ≤ 1 ∧
      Adds r r' ⟨⟨stored, admin⟩, (r.policyRecords r.nextPolicyId).compound⟩ := by
  simp only [createPolicyWithAccounts, yields_steps] at h
  obtain ⟨stored, hstored, _, h⟩ := h
  obtain ⟨newId, r1, halloc, h⟩ := h.bind
  obtain ⟨rfl, rfl⟩ := allocatePolicyId_yields halloc
  rw [yields_updates_bind] at h
  obtain ⟨_, r2, hloop, h⟩ := h.bind
  obtain ⟨rfl, rfl⟩ := h.pure
  obtain ⟨hcounter, hrecords, hreceive⟩ := addInitialAccounts_yields hloop
  refine ⟨stored, ensureIsSimple_le hspec hstored, ?_, hrecords, hreceive⟩
  rw [nextPolicyId, hcounter]
  exact nextPolicyId_succ

theorem validateSimplePolicy_ok
    (h : validateSimplePolicy spec r id = .ok ()) : r.IsSimplePolicy id := by
  rcases builtin_cases id with rfl | rfl | htwo
  · exact .inl rfl
  · exact .inr (.inl rfl)
  · simp only [validateSimplePolicy, builtinAuthorization_eq_none htwo,
      Option.isSome_none, Bool.false_eq_true, if_false] at h
    split at h
    · cases h
    · rename_i hlt
      rw [getPolicyData_eq (by omega)] at h
      change (if (r.policyRecords id).base.isSimple = false then _ else _) = _ at h
      split at h
      · cases h
      · rename_i hsimple
        rw [Bool.not_eq_false, isSimple_iff] at hsimple
        exact .inr (.inr ⟨by omega, hsimple⟩)

theorem validateReceivePolicyId_ok
    (h : validateReceivePolicyId spec r id = .ok ty) : r.Cached id ty := by
  rcases builtin_cases id with rfl | rfl | htwo
  · exact .inl rfl
  · exact .inr (.inl rfl)
  · simp only [validateReceivePolicyId, builtinAuthorization_eq_none htwo,
      Option.isSome_none, Bool.false_eq_true, if_false] at h
    split at h
    · cases h
    · rename_i hlt
      rw [getPolicyData_eq (by omega)] at h
      change (if (r.policyRecords id).base.isSimple = false then _ else _) = _ at h
      split at h
      · cases h
      · rename_i hsimple
        rw [Bool.not_eq_false, isSimple_iff] at hsimple
        have hty : r.typeOf id = ty := Except.ok.inj h
        exact .inr (.inr ⟨by omega, hty, hty ▸ hsimple⟩)

theorem createCompoundPolicy_yields {sender recipient mint : Nat}
    (h : Yields (createCompoundPolicy spec sender recipient mint) r id r') :
    r.RefersToSimple ⟨sender, recipient, mint⟩ ∧ Adds r r' ⟨⟨2, 0⟩, ⟨sender, recipient, mint⟩⟩ := by
  simp only [createCompoundPolicy, yields_steps, id_eq] at h
  obtain ⟨_, hs, _, hr, _, hm, h⟩ := h
  obtain ⟨newId, r1, halloc, h⟩ := h.bind
  obtain ⟨rfl, rfl⟩ := allocatePolicyId_yields halloc
  obtain ⟨rfl, rfl⟩ := h
  exact ⟨⟨validateSimplePolicy_ok hs, validateSimplePolicy_ok hr,
    validateSimplePolicy_ok hm⟩, nextPolicyId_succ, rfl, rfl⟩

/-- A change of administrator keeps the policies as they are. -/
theorem setPolicyAdmin_yields (hr : WellFormed r) (hspec : .t2 ≤ spec)
    (h : Yields (setPolicyAdmin spec sender id admin) r u r') : WellFormed r' ∧ Extends r r' := by
  simp only [setPolicyAdmin, yields_steps, id_eq] at h
  obtain ⟨data, hdata, _, rfl⟩ := h
  obtain ⟨hlt, rfl⟩ := hr.exists_of_getPolicyData hspec hdata
  have hext : Extends r (r.putBase id { (r.policyRecords id).base with admin }) := by
    refine ⟨le_rfl, fun i _ => ?_, fun i _ => ?_⟩
    · by_cases hi : i = id
      · rw [hi, typeOf, putBase_self]
        rfl
      · rw [typeOf, putBase_of_ne r _ hi, typeOf]
    · by_cases hi : i = id
      · rw [hi, putBase_self]
      · rw [putBase_of_ne r _ hi]
  refine ⟨hr.extends hext (fun i hold hnew => ?_) (fun i hi => ?_) rfl, hext⟩
  · exact absurd (lt_of_lt_of_le hnew hold) (lt_irrefl i)
  · have hne : i ≠ id := by
      rintro rfl
      exact absurd (lt_of_lt_of_le hlt hi) (lt_irrefl i)
    rw [putBase_of_ne r _ hne]

theorem modifyPolicy_yields (hr : WellFormed r) {wanted : PolicyType}
    {account : Address} {value : Bool}
    (h : Yields (modifyPolicy spec wanted sender id account value) r u r') :
    WellFormed r' ∧ Extends r r' := by
  simp only [modifyPolicy, yields_steps, id_eq] at h
  obtain ⟨_, _, _, _, _, _, _, rfl⟩ := h
  exact ⟨⟨hr.created, hr.unused, hr.compound, hr.cached⟩, le_rfl, fun _ _ => rfl, fun _ _ => rfl⟩

theorem setReceivePolicy_yields (hr : WellFormed r) {auth : Address}
    {senderPolicy tokenFilter : Nat}
    (h : Yields (setReceivePolicy spec sender senderPolicy tokenFilter auth) r
      u r') : WellFormed r' ∧ Extends r r' := by
  simp only [setReceivePolicy, yields_steps, id_eq] at h
  obtain ⟨_, _, senderType, hs, tokenType, ht, rfl⟩ := h
  refine ⟨⟨hr.created, hr.unused, hr.compound, fun account hhas => ?_⟩,
    le_rfl, fun _ _ => rfl, fun _ _ => rfl⟩
  dsimp only at hhas ⊢
  by_cases haccount : account = sender
  · rw [haccount, update_self]
    exact ⟨validateReceivePolicyId_ok hs, validateReceivePolicyId_ok ht⟩
  · rw [update_of_ne haccount] at hhas ⊢
    exact hr.cached account hhas

end Tip403Registry

/-! Runs. -/

inductive PolicyCall where
  | createPolicy (admin : Address) (policyType : PolicyType)
  | createPolicyWithAccounts (admin : Address) (policyType : PolicyType) (accounts : List Address)
  | createCompoundPolicy (sender recipient mintRecipient : Nat)
  | setPolicyAdmin (msgSender : Address) (policyId : Nat) (admin : Address)
  | modifyPolicyWhitelist (msgSender : Address) (policyId : Nat)
      (account : Address) (allowed : Bool)
  | modifyPolicyBlacklist (msgSender : Address) (policyId : Nat)
      (account : Address) (restricted : Bool)
  | setReceivePolicy (msgSender : Address) (senderPolicyId tokenFilterId : Nat)
      (recoveryAuthority : Address)

namespace PolicyCall

open Tip403Registry

def exec (spec : TempoHardfork) : PolicyCall → Exec Tip403Registry Unit
  | createPolicy admin policyType => do
    let _ ← Tip403Registry.createPolicy spec admin policyType
  | createPolicyWithAccounts admin policyType accounts => do
    let _ ← Tip403Registry.createPolicyWithAccounts spec admin policyType accounts
  | createCompoundPolicy sender recipient mintRecipient => do
    let _ ← Tip403Registry.createCompoundPolicy spec sender recipient mintRecipient
  | setPolicyAdmin msgSender policyId admin =>
    Tip403Registry.setPolicyAdmin spec msgSender policyId admin
  | modifyPolicyWhitelist msgSender policyId account allowed =>
    Tip403Registry.modifyPolicyWhitelist spec msgSender policyId account allowed
  | modifyPolicyBlacklist msgSender policyId account restricted =>
    Tip403Registry.modifyPolicyBlacklist spec msgSender policyId account restricted
  | setReceivePolicy msgSender senderPolicyId tokenFilterId recovery =>
    Tip403Registry.setReceivePolicy spec msgSender senderPolicyId tokenFilterId recovery

/-- A successful call at T2 or later. -/
def Step (r r' : Tip403Registry) : Prop :=
  ∃ (spec : TempoHardfork) (c : PolicyCall), .t2 ≤ spec ∧ Yields (c.exec spec) r () r'

theorem step_wellFormed (h : WellFormed r) (hstep : Step r r') : WellFormed r' ∧ Extends r r' := by
  obtain ⟨spec, c, hspec, hrun⟩ := hstep
  cases c with
  | createPolicy admin ty =>
    obtain ⟨id, hcall⟩ := Yields.of_bind_pure hrun
    obtain ⟨stored, hle, hadds⟩ := createPolicy_yields hspec hcall
    exact ⟨hadds.wellFormed h (by dsimp only; omega) (by dsimp only; omega), hadds.extends⟩
  | createPolicyWithAccounts admin ty accounts =>
    obtain ⟨id, hcall⟩ := Yields.of_bind_pure hrun
    obtain ⟨stored, hle, hadds⟩ := createPolicyWithAccounts_yields hspec hcall
    exact ⟨hadds.wellFormed h (by dsimp only; omega) (by dsimp only; omega), hadds.extends⟩
  | createCompoundPolicy sender recipient mint =>
    obtain ⟨id, hcall⟩ := Yields.of_bind_pure hrun
    obtain ⟨hrefs, hadds⟩ := createCompoundPolicy_yields hcall
    exact ⟨hadds.wellFormed h (Nat.le_refl 2) fun _ => hrefs, hadds.extends⟩
  | setPolicyAdmin sender id admin =>
    exact setPolicyAdmin_yields h hspec hrun
  | modifyPolicyWhitelist | modifyPolicyBlacklist => exact modifyPolicy_yields h hrun
  | setReceivePolicy sender senderPolicy tokenFilter recovery =>
    exact setReceivePolicy_yields h hrun

theorem run_wellFormed (hrun : ReflTransGen Step r r') (h : WellFormed r) :
    WellFormed r' ∧ Extends r r' := run_invariant (I := fun r' => WellFormed r' ∧ Extends r r')
    (fun _ _ h hstep =>
      have hnext := step_wellFormed h.1 hstep
      ⟨hnext.1, h.2.trans hnext.2⟩)
    hrun ⟨h, le_rfl, fun _ _ => rfl, fun _ _ => rfl⟩

/-- In every state reached from T2 on: policies keep their types, compound
policies refer to simple ones, authorization on an existing policy is its
denotation except for addresses that cannot be policed, and the receive-policy
check agrees with one that reads the policies again. -/
theorem authorization_denoted {r : Tip403Registry} (hrun : ReflTransGen Step empty r) :
    (∀ r', ReflTransGen Step r r' → ∀ id, r.policyExists id = true →
      r'.policyExists id = true ∧ r'.typeOf id = r.typeOf id) ∧
    (∀ id, 2 ≤ id → r.policyExists id = true → r.typeOf id = 2 →
      r.RefersToSimple (r.policyRecords id).compound) ∧
    (∀ spec : TempoHardfork, .t2 ≤ spec → ∀ id user role, r.policyExists id = true →
      isAuthorizedAs spec r id user role =
        .ok (isAlwaysAuthorized spec user || r.denote id user role)) ∧
    (∀ spec : TempoHardfork, .t2 ≤ spec → ∀ token sender receiver,
      ∃ blocked, checkReceivePolicy spec r token sender receiver = .ok blocked ∧
        checkReceivePolicyFresh spec r token sender receiver = .ok blocked) := by
  obtain ⟨hwf, _⟩ := run_wellFormed hrun empty_wellFormed
  have hlt : ∀ {r : Tip403Registry} {id : Nat}, r.policyExists id = true ↔ id < r.nextPolicyId := by
    intro r id
    have htwo := two_le_nextPolicyId (r := r)
    rcases builtin_cases id with rfl | rfl | hid
    · simp only [policyExists, builtinAuthorization_zero, Option.isSome_some,
        Bool.true_or, true_iff]
      omega
    · simp only [policyExists, builtinAuthorization_one, Option.isSome_some, Bool.true_or, true_iff]
      omega
    · simp [policyExists, builtinAuthorization_eq_none hid]
  refine ⟨fun r' hmore id hid => ?_, fun id _ hid hty => ?_,
    fun spec hspec id user role hid => hwf.isAuthorizedAs_eq hspec hid user role,
    fun spec hspec => hwf.checkReceivePolicy_eq hspec⟩
  · obtain ⟨_, hext⟩ := run_wellFormed hmore hwf
    have hid' := hlt.mp hid
    exact ⟨hlt.mpr (lt_of_lt_of_le hid' hext.counter), hext.typeOf_eq id hid'⟩
  · exact hwf.compound id (hlt.mp hid) hty

/-- A whitelist with one member under a compound policy, cached by a receive
policy and edited afterwards. -/
theorem authorization_denoted_edited : ∃ r, ReflTransGen Step empty r ∧
      isAuthorizedAs .t6 r 3 ⟨7⟩ .transfer = .ok false ∧
      isAuthorizedAs .t6 r 3 ⟨8⟩ .transfer = .ok true ∧
      ∃ blocked, checkReceivePolicy .t6 r ⟨1⟩ ⟨8⟩ ⟨5⟩ = .ok blocked ∧
        checkReceivePolicyFresh .t6 r ⟨1⟩ ⟨8⟩ ⟨5⟩ = .ok blocked := by
  have hrun : ReflTransGen Step empty _ :=
    ReflTransGen.refl
    |>.tail ⟨.t6, createPolicyWithAccounts ⟨9⟩ .whitelist [⟨7⟩], by decide,
      yields_finalState (by decide)⟩
    |>.tail ⟨.t6, createCompoundPolicy 2 1 0, by decide,
      yields_finalState (by decide)⟩
    |>.tail ⟨.t6, setReceivePolicy ⟨5⟩ 2 1 0, by decide,
      yields_finalState (by decide)⟩
    |>.tail ⟨.t6, modifyPolicyWhitelist ⟨9⟩ 2 ⟨8⟩ true, by decide,
      yields_finalState (by decide)⟩
    |>.tail ⟨.t6, modifyPolicyWhitelist ⟨9⟩ 2 ⟨7⟩ false, by decide,
      yields_finalState (by decide)⟩
  obtain ⟨_, _, hauth, hreceive⟩ := authorization_denoted hrun
  refine ⟨_, hrun, ?_, ?_, hreceive .t6 (by decide) ⟨1⟩ ⟨8⟩ ⟨5⟩⟩
  · decide
  · decide

/-- From T6 on the receive-policy guard passes even the policy that rejects
everyone. -/
theorem guard_passes_rejectAll : isAuthorizedAs .t6 empty rejectAllPolicyId
        receivePolicyGuardAddress .recipient = .ok true ∧
      empty.denote rejectAllPolicyId receivePolicyGuardAddress .recipient = false := by
  decide

end PolicyCall

end Tempo
