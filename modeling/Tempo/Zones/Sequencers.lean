/-
The sequencer set of a zone portal.  One table of roles serves sequencers,
allowed accounts, gateways and pause guardians; what one call can do to it is
said once.  The table and the member list always agree, and the threshold is
never zero.
-/
import Tempo.Zones.CallChanges

namespace Tempo.Zones

variable {H : Type} {g g' : Governance} {c : GovernanceCall} {k : Keccak H}

namespace Governance

/-- The members are exactly the accounts with the sequencer role. -/
def RolesAgree (g : Governance) : Prop :=
  ∀ a, g.role a = .sequencer ↔ a ∈ g.sequencers

structure Coherent (g : Governance) : Prop where
  roles : g.RolesAgree
  threshold_pos : 0 < g.sequencerThreshold

/-- The sequencer set and the leader of a portal in operation. -/
structure Staffed (g : Governance) : Prop where
  nodup : g.sequencers.Nodup
  zero_notMem : 0 ∉ g.sequencers
  roles : g.RolesAgree
  threshold_pos : 1 ≤ g.sequencerThreshold
  threshold_le : g.sequencerThreshold ≤ g.sequencers.length
  count_le : g.sequencers.length ≤ maxSequencers
  leader_mem : g.leader ∈ g.sequencers

variable {members : List Address}

theorem Staffed.coherent (h : g.Staffed) : g.Coherent := ⟨h.roles, h.threshold_pos⟩

theorem assignRole_apply (role : Address → Role) (r : Role)
    (accounts : List Address) (a : Address) :
    assignRole role r accounts a = if a ∈ accounts then r else role a := by
  unfold assignRole
  induction accounts generalizing role with
  | nil => simp
  | cons b rest ih =>
    rw [List.foldl_cons, ih]
    by_cases hrest : a ∈ rest
    · rw [if_pos hrest, if_pos (List.mem_cons_of_mem b hrest)]
    · by_cases hab : a = b
      · subst hab
        simp [hrest]
      · simp [hrest, hab]

/-- Dismissing the old members and appointing the new ones. -/
theorem RolesAgree.replace (h : g.RolesAgree) (members : List Address) (a : Address) :
    assignRole (assignRole g.role .none g.sequencers) .sequencer members a =
      .sequencer ↔ a ∈ members := by
  rw [assignRole_apply, assignRole_apply]
  by_cases hnew : a ∈ members
  · simp [hnew]
  · by_cases hold : a ∈ g.sequencers
    · simp [hnew, hold]
    · simp [hnew, hold, h a]

theorem RolesAgree.update (h : g.RolesAgree) {account : Address} {r : Role}
    (hold : g.role account ≠ .sequencer) (hnew : r ≠ .sequencer) (a : Address) :
    Function.update g.role account r a = .sequencer ↔ a ∈ g.sequencers := by
  by_cases ha : a = account
  · subst ha
    rw [Function.update_self]
    simp only [hnew, false_iff]
    exact fun hmem => hold ((h a).mpr hmem)
  · rw [Function.update_of_ne ha]
    exact h a

theorem readOnly_checkSequencers (g : Governance) (seen members : List Address) :
    ReadOnly (checkSequencers g seen members) := by
  induction members generalizing seen with
  | nil => exact .pure _
  | cons signer rest ih =>
    exact .bind (.require _ _) fun _ =>
      .bind (.require _ _) fun _ =>
        .bind (.require _ _) fun _ => ih _

/-- A list of members that can become the sequencer set. -/
structure ValidMembers (g : Governance) (members : List Address) (threshold : Nat) : Prop where
  nodup : members.Nodup
  zero_notMem : 0 ∉ members
  free : ∀ a ∈ members, g.role a = .none ∨ g.role a = .sequencer
  threshold_pos : 0 < threshold
  threshold_le : threshold ≤ members.length
  count_le : members.length ≤ maxSequencers

theorem yields_checkSequencers {g0 : Governance} {seen : List Address} (hseen : seen.Nodup)
    (h : Yields (checkSequencers g seen members) g0 () g') :
    (seen ++ members).Nodup ∧ 0 ∉ members ∧
      ∀ a ∈ members, g.role a = .none ∨ g.role a = .sequencer := by
  induction members generalizing seen with
  | nil => simpa using hseen
  | cons signer rest ih =>
    simp only [checkSequencers, yields_require_bind] at h
    obtain ⟨hzero, hfree, hnew, hrest⟩ := h
    have hseen' : (seen ++ [signer]).Nodup :=
      List.nodup_append.mpr ⟨hseen, List.nodup_singleton signer,
        fun a ha b hb hab => hnew (List.mem_singleton.mp hb ▸ hab ▸ ha)⟩
    obtain ⟨hnodup, hzeros, hfrees⟩ := ih hseen' hrest
    rw [List.append_assoc, List.singleton_append] at hnodup
    refine ⟨hnodup, ?_, ?_⟩
    · rw [List.mem_cons]
      rintro (hsigner | hmem)
      · exact hzero hsigner.symm
      · exact hzeros hmem
    · intro a ha
      rcases List.mem_cons.mp ha with rfl | hmem
      · exact hfree
      · exact hfrees a hmem

/-- A new sequencer set. -/
theorem yields_replaceSequencerSet {threshold : Nat} {rejectUnchanged : Bool}
    (h : Yields (replaceSequencerSet members threshold rejectUnchanged) g () g') :
    g.ValidMembers members threshold ∧
      (g.leader = 0 ∨ assignRole (assignRole g.role .none g.sequencers)
        .sequencer members g.leader = .sequencer) ∧ g' = { g with
        role := assignRole (assignRole g.role .none g.sequencers) .sequencer members
        sequencers := members
        sequencerThreshold := threshold
        sequencerSetVersion :=
          g.sequencerSetVersion + if rejectUnchanged then 1 else 0 } := by
  simp only [replaceSequencerSet, yields_steps] at h
  obtain ⟨hshape, h⟩ := h
  obtain ⟨⟨⟩, hcheck, h⟩ := (readOnly_checkSequencers _ _ _).yields_bind h
  obtain ⟨hnodup, hzero, hfree⟩ := yields_checkSequencers List.nodup_nil hcheck
  simp only [yields_steps] at h
  obtain ⟨-, hleader, h⟩ := h
  have hcount : members.length ≤ maxSequencers := by omega
  refine ⟨⟨hnodup, hzero, hfree, by omega, by omega, hcount⟩, ?_, ?_⟩
  · simpa [isSequencer, or_iff_not_imp_left] using hleader
  · rcases yields_ite.mp h with ⟨hreject, h⟩ | ⟨hreject, h⟩
    · simp only [yields_steps] at h
      rw [← h.2, if_pos hreject]
    · rw [← (h.pure).2, if_neg hreject]
      rfl

/-- The capability has been given up, and the delay is over. -/
def Abdicated (g : Governance) (timestamp : Nat) (c : Capability) : Prop :=
  g.abdicationEffectiveAt c ≠ 0 ∧ g.abdicationEffectiveAt c ≤ timestamp

end Governance

/-- The capability under which a role is given and taken away. -/
def Role.capability : Role → Option Capability
  | .none | .sequencer => Option.none
  | .account | .callbackGateway => some .accessPolicy
  | .pauseGuardian => some .pausePortal

namespace Governance

/-- Nothing that has to do with roles has changed. -/
def Unrelated (g g' : Governance) : Prop :=
  g' = { g' with
    role := g.role
    isAccessEnforced := g.isAccessEnforced
    isGatewayEnforced := g.isGatewayEnforced
    abdicationEffectiveAt := g.abdicationEffectiveAt
    pauseExpiry := g.pauseExpiry
    sequencers := g.sequencers
    sequencerThreshold := g.sequencerThreshold
    leader := g.leader
    leaderEpoch := g.leaderEpoch
    leaderActivationTempoBlock := g.leaderActivationTempoBlock }

/-- What one governance call in a block can do to the roles. -/
inductive RoleChange (number timestamp : Nat) (g : Governance) : Governance → Prop where
  | members {members : List Address} {threshold : Nat} (version : Nat)
      (hvalid : g.ValidMembers members threshold)
      (hleader : g.leader = 0 ∨ assignRole (assignRole g.role .none g.sequencers) .sequencer members
          g.leader = .sequencer) :
      RoleChange number timestamp g
        { g with
          role := assignRole (assignRole g.role .none g.sequencers) .sequencer members
          sequencers := members
          sequencerThreshold := threshold
          sequencerSetVersion := version }
  | leader {newLeader : Address} (hmember : g.role newLeader = .sequencer)
      (hnew : newLeader ≠ g.leader) (hblock : g.leaderActivationTempoBlock ≠ number % 2 ^ 64) :
      RoleChange number timestamp g
        { g with
          leader := newLeader
          leaderEpoch := g.leaderEpoch + 1
          leaderActivationTempoBlock := number % 2 ^ 64 }
  | toggled {r next : Role} {c : Capability} {account : Address}
      (hrole : r.capability = some c) (hactive : ¬g.Abdicated timestamp c)
      (hnext : g.role account = .none ∧ next = r ∨ g.role account = r ∧ next = .none) :
      RoleChange number timestamp g { g with role := Function.update g.role account next }
  | modes (access gateway : Bool) (hactive : ¬g.Abdicated timestamp .accessPolicy) :
      RoleChange number timestamp g
        { g with isAccessEnforced := access, isGatewayEnforced := gateway }
  | paused (expiry : Nat) (hactive : ¬g.Abdicated timestamp .pausePortal) :
      RoleChange number timestamp g { g with pauseExpiry := expiry }
  | resumed : RoleChange number timestamp g { g with pauseExpiry := 0 }
  | abdicated {c : Capability} {effectiveAt : Nat} (hfirst : g.abdicationEffectiveAt c = 0) :
      RoleChange number timestamp g
        { g with
          abdicationEffectiveAt := Function.update g.abdicationEffectiveAt c effectiveAt }
  | unrelated {g' : Governance} (hsame : g.Unrelated g') :
      RoleChange number timestamp g g'

/-! Each call makes one such change. -/

variable {env : CallEnv H} {c : Capability} {account : Address}

theorem yields_setLeader {newLeader : Address} {epoch : Nat}
    (h : Yields (setLeader env newLeader epoch) g () g') :
    RoleChange env.number env.timestamp g g' := by
  simp only [setLeader, onlySequencerOrAdmin, bind_assoc, yields_steps] at h
  obtain ⟨-, hmember, h⟩ := h
  rcases yields_ite.mp h with ⟨-, h⟩ | ⟨hnew, h⟩
  · obtain rfl := (h.pure).2
    exact .unrelated rfl
  · simp only [assignLeader, yields_steps] at h
    obtain ⟨-, hblock, -, rfl⟩ := h
    exact .leader (by simpa [isSequencer] using hmember) hnew hblock

theorem yields_toggleRole {r : Role} {allowed : Bool} {number timestamp : Nat}
    (hrole : r.capability = some c) (hactive : ¬g.Abdicated timestamp c)
    (h : Yields (toggleRole r account allowed) g () g') : RoleChange number timestamp g g' := by
  rcases yields_ite.mp h with ⟨-, h⟩ | ⟨-, h⟩
  · obtain rfl := (h.pure).2
    exact .unrelated rfl
  · simp only [yields_steps] at h
    obtain ⟨hprevious, rfl⟩ := h
    refine .toggled hrole hactive ?_
    cases allowed with
    | true => exact .inl ⟨by simpa using hprevious, by simp⟩
    | false => exact .inr ⟨by simpa using hprevious, by simp⟩

/-- Whoever gets or loses a role under a capability had no sequencer role. -/
theorem RoleChange.ne_sequencer {r : Role} (h : r.capability = some c) :
    r ≠ .sequencer ∧ r ≠ .none := by
  constructor
  · rintro rfl
    cases h
  · rintro rfl
    cases h

/-- Toggling a role makes and dismisses no sequencer. -/
theorem RolesAgree.toggled (h : g.RolesAgree) {r next : Role} (hrole : r.capability = some c)
    (hnext : g.role account = .none ∧ next = r ∨ g.role account = r ∧ next = .none) :
    RolesAgree { g with role := Function.update g.role account next } := by
  have hr := (RoleChange.ne_sequencer hrole).1
  rcases hnext with ⟨hheld, rfl⟩ | ⟨hheld, rfl⟩
  · exact h.update (by simp [hheld]) hr
  · exact h.update (by rwa [hheld]) (by simp)

/-- The part of the governance that decides who may settle. -/
def settlers (g : Governance) : (Address → Role) × List Address × Nat :=
  (g.role, g.sequencers, g.sequencerThreshold)

theorem Coherent.of_settlers (hg : g.Coherent) (h : g'.settlers = g.settlers) : g'.Coherent := by
  obtain ⟨hrole, hmembers, hthreshold⟩ : g'.role = g.role ∧ g'.sequencers = g.sequencers ∧
        g'.sequencerThreshold = g.sequencerThreshold := by
    simpa only [settlers, Prod.mk.injEq] using h
  refine ⟨fun a => ?_, ?_⟩
  · rw [hrole, hmembers]
    exact hg.roles a
  · rw [hthreshold]
    exact hg.threshold_pos

theorem RoleChange.coherent {number timestamp : Nat} (hg : g.Coherent)
    (h : RoleChange number timestamp g g') : g'.Coherent := by
  cases h with
  | members version hvalid => exact ⟨hg.roles.replace _, hvalid.threshold_pos⟩
  | toggled hrole hactive hnext => exact ⟨hg.roles.toggled hrole hnext, hg.threshold_pos⟩
  | leader | modes | paused | resumed | abdicated => exact hg.of_settlers rfl
  | unrelated hsame =>
    rw [hsame]
    exact hg.of_settlers rfl

end Governance

open Governance in
theorem GovernanceCall.exec_roleChange {self messenger : Address} {env : CallEnv H}
    {g : Governance} (h : Yields (c.exec k self messenger env) g () g') :
    RoleChange env.number env.timestamp g g' := by
  cases c with
  | setSequencerSet members threshold =>
    obtain ⟨⟨⟩, -, h⟩ := (readOnly_onlyAdmin env).yields_bind h
    obtain ⟨hvalid, hleader, rfl⟩ := yields_replaceSequencerSet h
    exact .members _ hvalid hleader
  | setLeader newLeader epoch => exact yields_setLeader h
  | setAllowedAccount account allowed =>
    simp only [exec, Governance.setAllowedAccount, onlyAdmin, requireCapabilityActive, bind_assoc,
      yields_steps] at h
    exact yields_toggleRole rfl h.2.1 h.2.2.2
  | setGateway account allowed | setPauseGuardian account allowed =>
    simp only [exec, Governance.setGateway, Governance.setPauseGuardian, onlyAdmin,
      requireCapabilityActive, bind_assoc, yields_steps] at h
    exact yields_toggleRole rfl h.2.1 h.2.2
  | setAccessMode enforced =>
    simp only [exec, Governance.setAccessMode, onlyAdmin, requireCapabilityActive, bind_assoc,
      yields_steps] at h
    obtain ⟨-, hactive, rfl⟩ := h
    exact .modes enforced g.isGatewayEnforced hactive
  | setGatewayMode enforced =>
    simp only [exec, Governance.setGatewayMode, onlyAdmin, requireCapabilityActive, bind_assoc,
      yields_steps] at h
    obtain ⟨-, hactive, rfl⟩ := h
    exact .modes g.isAccessEnforced enforced hactive
  | pause =>
    simp only [exec, Governance.pause, whenNotPaused, requireCapabilityActive, bind_assoc,
      yields_steps] at h
    obtain ⟨-, hactive, -, -, rfl⟩ := h
    exact .paused _ hactive
  | resume =>
    simp only [exec, Governance.resume, onlyAdmin, bind_assoc, yields_steps] at h
    obtain ⟨-, rfl⟩ := h
    exact .resumed
  | abdicate capability =>
    simp only [exec, Governance.abdicate, onlyAdmin, whenNotPaused, bind_assoc, yields_steps] at h
    obtain ⟨-, -, hfirst, -, rfl⟩ := h
    exact .abdicated hfirst
  | _ =>
    simp only [exec, Governance.setZoneGasRate, Governance.setMaxTempoGasRate,
      Governance.setBouncebackGas, Governance.transferAdmin, Governance.acceptAdmin,
      Governance.pauseDeposits, Governance.resumeDeposits, setDepositsActive,
      Governance.setSequencerEncryptionKey, onlyAdmin, onlySequencerOrAdmin, bind_assoc,
      yields_steps] at h
    repeat replace h := h.2
    subst h
    exact .unrelated rfl

variable {forbidden : Option Address} {accounts : List Address}

/-! Initialization. -/

open Governance Deployment

/-- Granting roles makes or dismisses no sequencer. -/
theorem Governance.yields_grantRoles {r : Role} (hr : r ≠ .sequencer)
    (h : Yields (grantRoles r forbidden accounts) g () g') :
    g' = { g with role := g'.role } ∧ ∀ a, g'.role a = .sequencer ↔ g.role a = .sequencer := by
  induction accounts generalizing g with
  | nil =>
    obtain rfl := (h.pure).2
    exact ⟨rfl, fun a => Iff.rfl⟩
  | cons account rest ih =>
    simp only [grantRoles, yields_steps] at h
    obtain ⟨-, hnone, hrest⟩ := h
    obtain ⟨hsame, hroles⟩ := ih hrest
    refine ⟨hsame, fun a => (hroles a).trans ?_⟩
    by_cases ha : a = account
    · subst ha
      simp only [id_eq] at hnone
      simp [hnone, hr]
    · simp [Function.update_of_ne ha]

theorem Governance.Staffed.granted {r : Role} (hr : r ≠ .sequencer)
    (hg : g.Staffed) (h : Yields (grantRoles r forbidden accounts) g () g') : g'.Staffed := by
  obtain ⟨hsame, hroles⟩ := yields_grantRoles hr h
  rw [hsame]
  exact ⟨hg.nodup, hg.zero_notMem, fun a => (hroles a).trans (hg.roles a),
    hg.threshold_pos, hg.threshold_le, hg.count_le, hg.leader_mem⟩

/-- The first member of a new sequencer set becomes the leader. -/
theorem Governance.staffed_of_first {members : List Address} {threshold : Nat}
    {leader : Address} {env : CallEnv H} {g1 g2 : Governance} (hg : g.RolesAgree)
    (hset : Yields (replaceSequencerSet members threshold false) g () g1)
    (hfirst : members.head? = some leader)
    (hlead : Yields (assignLeader env leader) g1 () g2) : g2.Staffed := by
  obtain ⟨hvalid, -, rfl⟩ := yields_replaceSequencerSet hset
  simp only [assignLeader, yields_steps] at hlead
  rw [← hlead.2]
  exact ⟨hvalid.nodup, hvalid.zero_notMem, hg.replace members,
    hvalid.threshold_pos, hvalid.threshold_le, hvalid.count_le, List.mem_of_head? hfirst⟩

variable [Zero H] {d : Deployment H}

/-- The portal right after initialization: only its identity, its governance
and the first token are set. -/
def initialPortal (g : Governance) (zoneId : Nat) (messenger verifier : Address) : Portal H :=
  { Portal.blank with
    governance := g
    initialized := true
    zoneId
    messenger
    verifier }

theorem yields_initializePortal {balances : Address → Address → Nat}
    {env : CallEnv H} {a : InitArgs} {s : L1 H}
    (h : Yields (d.initializePortal env a) ⟨.blank, balances, [], 0, 0⟩ () s) :
    ∃ g t, g.Staffed ∧ s = L1.withToken d
        ⟨initialPortal g a.zoneId a.messenger a.verifier, balances, [], 0, 0⟩
        t := by
  simp only [initializePortal, L1.setPortal, yields_steps] at h
  obtain ⟨-, -, -, h⟩ := h
  obtain ⟨⟨⟩, s1, hset, h⟩ := h.bind
  obtain ⟨g1, hg1, rfl⟩ := hset.focus
  obtain ⟨leader, hfirst, h⟩ := yields_orFail_bind.mp h
  obtain ⟨⟨⟩, s2, hlead, h⟩ := h.bind
  obtain ⟨g2, hg2, rfl⟩ := hlead.focus
  obtain ⟨⟨⟩, s3, hgateways, h⟩ := h.bind
  obtain ⟨g3, hg3, rfl⟩ := hgateways.focus
  obtain ⟨⟨⟩, s4, haccounts, h⟩ := h.bind
  obtain ⟨g4, hg4, rfl⟩ := haccounts.focus
  obtain ⟨t, -, rfl⟩ := yields_enableTokenInternal h
  have hstaffed : g2.Staffed :=
    staffed_of_first (by intro a; simp [Portal.blank, blank]) hg1 hfirst hg2
  exact ⟨g4, t, (hstaffed.granted (by simp) hg3).granted (by simp) hg4, rfl⟩

theorem Initialized.exists_eq {s : L1 H} (h : Initialized d s) :
    ∃ balances g zoneId messenger verifier t, g.Coherent ∧ s = L1.withToken d
        ⟨initialPortal g zoneId messenger verifier, balances, [], 0, 0⟩
        t := by
  obtain ⟨balances, env, a, h⟩ := h
  obtain ⟨g, t, hg, hs⟩ := yields_initializePortal h
  exact ⟨balances, g, a.zoneId, a.messenger, a.verifier, t, hg.coherent, hs⟩

/-! A portal to evaluate the model with: two sequencers, the first of whom is
the admin, who sign together, and one token. -/

namespace Sample

def sequencer : Address := ⟨7⟩

def cosigner : Address := ⟨10⟩

def sequencers : List Address := [sequencer, cosigner]

def user : Address := ⟨9⟩

def token : Address := ⟨5⟩

def env (sender : Address) : CallEnv Term where
  sender
  number := 100
  timestamp := 1000
  basefee := 0
  chainid := 1
  getBlockHash := fun _ => 1
  isValidX := fun x => x ≠ 0
  deriveAddress := fun _ _ => sequencer
  ecrecover := fun _ _ _ _ => sequencer
  isTIP20 := fun _ => true
  metadata := fun t => some ⟨t, "Token", "TOK", "USD"⟩
  transferPolicySet := fun _ => true
  transferPolicyMigrated := fun _ => true
  isAuthorizedRecipient := fun _ _ => some true
  resolveRecipient := id

def initArgs : InitArgs where
  zoneId := 1
  initialToken := token
  accessEnforced := false
  gatewayEnforced := false
  allowedAccounts := []
  zoneGateways := []
  messenger := ⟨8⟩
  admin := sequencer
  initialSequencers := sequencers
  threshold := 2
  verifier := ⟨6⟩

/-- The user owns a thousand tokens. -/
def balances : Address → Address → Nat :=
  fun _ account => if account = user then 1000 else 0

/-- The signature of a sequencer over the `i`-th digest. -/
def signature (signer i : UInt8) : Bytes :=
  signer :: i :: (List.replicate 62 1 ++ [27])

/-- The digests of the batches that the sequencers sign. -/
def deployment (signed : List Term) : Deployment Term where
  keccak := termKeccak
  self := ⟨1⟩
  recover digest signature :=
    match signature with
    | signer :: i :: rest =>
      if rest.length = 63 ∧ signed[i.toNat]? = some digest then sequencers[signer.toNat]? else none
    | _ => none

def initial (signed : List Term) : L1 Term :=
  finalState ((deployment signed).initializePortal (env zoneFactoryAddress)
    initArgs) ⟨.blank, balances, [], 0, 0⟩

end Sample

end Tempo.Zones
