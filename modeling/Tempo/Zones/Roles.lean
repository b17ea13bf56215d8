/-
The roles of a zone portal over whole histories of governance calls: every
invariant is read off from what one call can do to the table of roles.
-/
import Tempo.Zones.Sequencers

namespace Tempo.Zones

open Relation Function

variable {H : Type}

namespace Governance

/-- The configuration a capability is about.  An abdicated pause can still be
ended by the admin. -/
def SameConfiguration (g g' : Governance) : Capability → Prop
  | .accessPolicy =>
    g'.isAccessEnforced = g.isAccessEnforced ∧ g'.isGatewayEnforced = g.isGatewayEnforced ∧
      ∀ a, (g'.role a = .account ↔ g.role a = .account) ∧
        (g'.role a = .callbackGateway ↔ g.role a = .callbackGateway)
  | .pausePortal =>
    (g'.pauseExpiry = g.pauseExpiry ∨ g'.pauseExpiry = 0) ∧
      ∀ a, g'.role a = .pauseGuardian ↔ g.role a = .pauseGuardian

theorem SameConfiguration.refl (g : Governance) (c : Capability) : g.SameConfiguration g c := by
  cases c with
  | accessPolicy => exact ⟨rfl, rfl, fun a => ⟨Iff.rfl, Iff.rfl⟩⟩
  | pausePortal => exact ⟨.inl rfl, fun a => Iff.rfl⟩

theorem SameConfiguration.trans {g1 g2 g3 : Governance} {c : Capability}
    (h : g1.SameConfiguration g2 c) (h' : g2.SameConfiguration g3 c) :
    g1.SameConfiguration g3 c := by
  cases c with
  | accessPolicy =>
    obtain ⟨haccess, hgateway, hroles⟩ := h
    obtain ⟨haccess', hgateway', hroles'⟩ := h'
    exact ⟨haccess'.trans haccess, hgateway'.trans hgateway, fun a =>
      ⟨(hroles' a).1.trans (hroles a).1, (hroles' a).2.trans (hroles a).2⟩⟩
  | pausePortal =>
    obtain ⟨hexpiry, hroles⟩ := h
    obtain ⟨hexpiry', hroles'⟩ := h'
    refine ⟨?_, fun a => (hroles' a).trans (hroles a)⟩
    rcases hexpiry' with hsame | hzero
    · rwa [hsame]
    · exact .inr hzero

/-- The roles under a capability are as they were. -/
theorem SameConfiguration.of_roles {g : Governance} {role : Address → Role} {c : Capability}
    (h : ∀ r, r.capability = some c → ∀ a, role a = r ↔ g.role a = r) :
    g.SameConfiguration { g with role := role } c := by
  cases c with
  | accessPolicy =>
    exact ⟨rfl, rfl, fun a => ⟨h .account rfl a, h .callbackGateway rfl a⟩⟩
  | pausePortal => exact ⟨.inl rfl, h .pauseGuardian rfl⟩

namespace RoleChange

variable {number timestamp : Nat} {g g' : Governance} {c : Capability}

theorem staffed (hg : g.Staffed) (h : RoleChange number timestamp g g') : g'.Staffed := by
  cases h with
  | members version hvalid hleader =>
    have hroles := hg.roles.replace
    refine ⟨hvalid.nodup, hvalid.zero_notMem, hroles _,
      hvalid.threshold_pos, hvalid.threshold_le, hvalid.count_le, ?_⟩
    rcases hleader with hzero | hmember
    · exact absurd (hzero ▸ hg.leader_mem) hg.zero_notMem
    · exact (hroles _ _).mp hmember
  | leader hmember hnew hblock =>
    exact ⟨hg.nodup, hg.zero_notMem, hg.roles, hg.threshold_pos,
      hg.threshold_le, hg.count_le, (hg.roles _).mp hmember⟩
  | toggled hrole hactive hnext =>
    exact ⟨hg.nodup, hg.zero_notMem, hg.roles.toggled hrole hnext,
      hg.threshold_pos, hg.threshold_le, hg.count_le, hg.leader_mem⟩
  | modes | paused | resumed | abdicated =>
    exact ⟨hg.nodup, hg.zero_notMem, hg.roles, hg.threshold_pos,
      hg.threshold_le, hg.count_le, hg.leader_mem⟩
  | unrelated hsame =>
    rw [hsame]
    exact ⟨hg.nodup, hg.zero_notMem, hg.roles, hg.threshold_pos,
      hg.threshold_le, hg.count_le, hg.leader_mem⟩

/-- The leader and its epoch change together, at most once a block. -/
theorem leader_cases (h : RoleChange number timestamp g g') :
    g'.leader = g.leader ∧ g'.leaderEpoch = g.leaderEpoch ∧
        g'.leaderActivationTempoBlock = g.leaderActivationTempoBlock ∨
      g'.leader ≠ g.leader ∧ g'.leaderEpoch = g.leaderEpoch + 1 ∧
        g.leaderActivationTempoBlock ≠ number % 2 ^ 64 ∧
        g'.leaderActivationTempoBlock = number % 2 ^ 64 := by
  cases h with
  | leader hmember hnew hblock => exact .inr ⟨hnew, rfl, hblock, rfl⟩
  | members | toggled | modes | paused | resumed | abdicated =>
    exact .inl ⟨rfl, rfl, rfl⟩
  | unrelated hsame =>
    rw [hsame]
    exact .inl ⟨rfl, rfl, rfl⟩

/-- Replacing the sequencers takes no other role from anybody. -/
theorem replaced_role {members : List Address} {threshold : Nat}
    (hagree : g.RolesAgree) (hvalid : g.ValidMembers members threshold)
    {r : Role} (hrole : r.capability = some c) (a : Address) :
    assignRole (assignRole g.role .none g.sequencers) .sequencer members a = r ↔ g.role a = r := by
  obtain ⟨hsequencer, hnone⟩ := ne_sequencer hrole
  rw [assignRole_apply, assignRole_apply]
  by_cases hnew : a ∈ members
  · rw [if_pos hnew]
    rcases hvalid.free a hnew with hfree | hheld
    · simp [hfree, hsequencer.symm, hnone.symm]
    · rw [hheld]
  · rw [if_neg hnew]
    by_cases hold : a ∈ g.sequencers
    · rw [if_pos hold, (hagree a).mpr hold]
      simp [hsequencer.symm, hnone.symm]
    · rw [if_neg hold]

/-- Toggling a role leaves the roles under other capabilities alone. -/
theorem toggled_role {r r' next : Role} {c' : Capability} {account : Address}
    (hrole : r.capability = some c) (hrole' : r'.capability = some c')
    (hother : c ≠ c') (hnext : g.role account = .none ∧ next = r ∨
      g.role account = r ∧ next = .none) (a : Address) :
    update g.role account next a = r' ↔ g.role a = r' := by
  have hne : r ≠ r' := by
    rintro rfl
    exact hother (Option.some.inj (hrole.symm.trans hrole'))
  obtain ⟨-, hnone⟩ := ne_sequencer hrole'
  by_cases ha : a = account
  · subst ha
    rcases hnext with ⟨hheld, rfl⟩ | ⟨hheld, rfl⟩
    · simp [hheld, hne, hnone.symm]
    · simp [hheld, hne, hnone.symm]
  · rw [update_of_ne ha]

/-- An abdicated capability stays so, and its configuration as it is. -/
theorem abdicated_config (hagree : g.RolesAgree)
    (hgone : g.Abdicated timestamp c) (h : RoleChange number timestamp g g') :
    g'.Abdicated timestamp c ∧ g.SameConfiguration g' c := by
  cases h with
  | members version hvalid hleader =>
    exact ⟨hgone, .of_roles fun r hr a => replaced_role hagree hvalid hr a⟩
  | leader => exact ⟨hgone, .refl g c⟩
  | @toggled r next c' account hrole hactive hnext =>
    refine ⟨hgone, .of_roles fun r' hrole' a => ?_⟩
    refine toggled_role hrole hrole' ?_ hnext a
    rintro rfl
    exact hactive hgone
  | modes access gateway hactive =>
    cases c with
    | accessPolicy => exact absurd hgone hactive
    | pausePortal => exact ⟨hgone, .inl rfl, fun a => Iff.rfl⟩
  | paused expiry hactive =>
    cases c with
    | accessPolicy => exact ⟨hgone, .refl g .accessPolicy⟩
    | pausePortal => exact absurd hgone hactive
  | resumed =>
    cases c with
    | accessPolicy => exact ⟨hgone, .refl g .accessPolicy⟩
    | pausePortal => exact ⟨hgone, .inr rfl, fun a => Iff.rfl⟩
  | @abdicated c' effectiveAt hfirst =>
    have hne : c ≠ c' := by
      rintro rfl
      exact hgone.1 hfirst
    refine ⟨?_, .refl g c⟩
    unfold Abdicated
    simp only [update_of_ne hne]
    exact hgone
  | unrelated hsame =>
    rw [hsame]
    exact ⟨hgone, .refl g c⟩

end RoleChange

end Governance

/-! Histories of calls, in blocks that do not go back in time. -/

/-- The calls that can change a role. -/
inductive RoleCall where
  | initializePortal (args : Deployment.InitArgs)
  | governance (call : GovernanceCall)

/-- A portal after a transaction in the block with this number and
timestamp. -/
structure RoleState (H : Type) where
  l1 : L1 H
  number : Nat
  timestamp : Nat

def RoleState.governance (s : RoleState H) : Governance :=
  s.l1.portal.governance

variable [Zero H] [DecidableEq H]

def RoleCall.exec (d : Deployment H) (env : CallEnv H) : RoleCall → PortalExec H Unit
  | .initializePortal args => d.initializePortal env args
  | .governance call => (SimpleCall.governance call).exec d env

namespace RoleState

/-- Any caller's transaction in this block or a later one; a reverted one
changes nothing. -/
inductive Step (d : Deployment H) : RoleState H → RoleState H → Prop where
  | call {s : RoleState H} (env : CallEnv H) (c : RoleCall) (hnumber : s.number ≤ env.number)
      (htimestamp : s.timestamp ≤ env.timestamp) :
      Step d s ⟨finalState (rollback (c.exec d env)) s.l1, env.number, env.timestamp⟩

/-- A portal in the block its factory initialized it in. -/
def Initial (d : Deployment H) (s : RoleState H) : Prop :=
  ∃ (balances : Address → Address → Nat) (env : CallEnv H) (a : Deployment.InitArgs),
    Yields (d.initializePortal env a) ⟨.blank, balances, [], 0, 0⟩ () s.l1 ∧
      s.number = env.number ∧ s.timestamp = env.timestamp

def Reachable (d : Deployment H) (s : RoleState H) : Prop :=
  ∃ s₀, Initial d s₀ ∧ Relation.ReflTransGen (Step d) s₀ s

variable {d : Deployment H} {s s' : RoleState H}

/-- What one transaction can do to an initialized portal. -/
theorem Step.roleChange (h : Step d s s') (hinit : s.l1.portal.initialized = true) :
    s'.l1.portal.initialized = true ∧ Governance.RoleChange s'.number s'.timestamp s.governance
        s'.governance ∧ s.number ≤ s'.number ∧ s.timestamp ≤ s'.timestamp := by
  obtain ⟨env, c, hnumber, htimestamp⟩ := h
  rcases finalState_rollback_cases (c.exec d env) s.l1 with
    ⟨⟨⟩, hyields⟩ | hsame
  · generalize finalState (rollback (c.exec d env)) s.l1 = l1' at hyields ⊢
    cases c with
    | initializePortal args =>
      simp only [RoleCall.exec, Deployment.initializePortal, yields_steps] at hyields
      exact absurd hinit hyields.2.2.1
    | governance call =>
      obtain ⟨g, hcall, rfl⟩ := yields_focus.mp (yields_reads_bind.mp hyields)
      exact ⟨hinit, call.exec_roleChange hcall, hnumber, htimestamp⟩
  · refine ⟨?_, ?_, hnumber, htimestamp⟩
    · rw [hsame]
      exact hinit
    · rw [governance, governance, hsame]
      exact .unrelated rfl

omit [DecidableEq H] in
theorem Initial.staffed (h : Initial d s) :
    s.l1.portal.initialized = true ∧ s.governance.Staffed := by
  obtain ⟨balances, env, a, h, -⟩ := h
  obtain ⟨g, t, hg, hs⟩ := yields_initializePortal h
  rw [governance, hs]
  exact ⟨rfl, hg.nodup, hg.zero_notMem, hg.roles, hg.threshold_pos,
    hg.threshold_le, hg.count_le, hg.leader_mem⟩

/-- What every transaction preserves. -/
theorem Reachable.staffed (h : Reachable d s) :
    s.l1.portal.initialized = true ∧ s.governance.Staffed := by
  obtain ⟨s0, hinit, hrun⟩ := h
  induction hrun with
  | refl => exact hinit.staffed
  | tail _ hstep ih =>
    obtain ⟨hinitialized, hchange, -⟩ := hstep.roleChange ih.1
    exact ⟨hinitialized, hchange.staffed ih.2⟩

theorem Reachable.run (h : Reachable d s) (hrun : ReflTransGen (Step d) s s') : Reachable d s' := by
  obtain ⟨s0, hinit, hpast⟩ := h
  exact ⟨s0, hinit, hpast.trans hrun⟩

theorem number_le_of_run (hs : Reachable d s) (hrun : ReflTransGen (Step d) s s') :
    s.number ≤ s'.number := by
  induction hrun with
  | refl => exact le_rfl
  | tail hpast hstep ih =>
    exact ih.trans (hstep.roleChange (hs.run hpast).staffed.1).2.2.1

/-- While the block lasts, the last change of leader is the one in it. -/
theorem activation_of_run (hs : Reachable d s)
    (hactive : s.governance.leaderActivationTempoBlock = s.number % 2 ^ 64)
    (hrun : ReflTransGen (Step d) s s') (hblock : s'.number = s.number) :
    s'.governance.leaderActivationTempoBlock = s.number % 2 ^ 64 := by
  induction hrun with
  | refl => exact hactive
  | tail hpast hstep ih =>
    obtain ⟨-, hchange, hle, -⟩ := hstep.roleChange (hs.run hpast).staffed.1
    have hsame := le_antisymm (hle.trans hblock.le) (number_le_of_run hs hpast)
    rcases hchange.leader_cases with ⟨-, -, hkept⟩ | ⟨-, -, hagain, -⟩
    · rw [hkept]
      exact ih hsame
    · rw [hblock] at hagain
      exact absurd (ih hsame) hagain

/-- An abdicated capability keeps its configuration for good. -/
theorem configuration_of_run (hs : Reachable d s) {c : Capability}
    (hgone : s.governance.Abdicated s.timestamp c) (hrun : ReflTransGen (Step d) s s') :
    s'.governance.Abdicated s'.timestamp c ∧ s.governance.SameConfiguration s'.governance c := by
  induction hrun with
  | refl => exact ⟨hgone, .refl _ c⟩
  | tail hpast hstep ih =>
    obtain ⟨hinit, hstaffed⟩ := (hs.run hpast).staffed
    obtain ⟨-, hchange, -, htime⟩ := hstep.roleChange hinit
    obtain ⟨hstill, hsame⟩ := hchange.abdicated_config hstaffed.roles ⟨ih.1.1, ih.1.2.trans htime⟩
    exact ⟨hstill, ih.2.trans hsame⟩

/-- The roles of a portal over every history of calls by any callers. -/
theorem roles_consistent (hs : Reachable d s) :
    (s.governance.sequencers.Nodup ∧ 0 ∉ s.governance.sequencers ∧
      (∀ a, a ∈ s.governance.sequencers ↔ s.governance.role a = .sequencer) ∧
      1 ≤ s.governance.sequencerThreshold ∧
      s.governance.sequencerThreshold ≤ s.governance.sequencers.length ∧
      s.governance.sequencers.length ≤ 8 ∧ s.governance.leader ∈ s.governance.sequencers) ∧
    (∀ s', Step d s s' → (s'.governance.leader ≠ s.governance.leader →
        s'.governance.leaderEpoch = s.governance.leaderEpoch + 1) ∧
      (s'.governance.leader = s.governance.leader →
        s'.governance.leaderEpoch = s.governance.leaderEpoch)) ∧
    (∀ s₁ s₂ s₃, Step d s s₁ → ReflTransGen (Step d) s₁ s₂ →
      Step d s₂ s₃ → s₁.governance.leader ≠ s.governance.leader →
      s₃.governance.leader ≠ s₂.governance.leader → s₁.number < s₃.number) ∧
    ∀ c s', s.governance.Abdicated s.timestamp c → ReflTransGen (Step d) s s' →
      s.governance.SameConfiguration s'.governance c := by
  obtain ⟨hinit, hstaffed⟩ := hs.staffed
  refine ⟨⟨hstaffed.nodup, hstaffed.zero_notMem,
    fun a => (hstaffed.roles a).symm, hstaffed.threshold_pos,
    hstaffed.threshold_le, hstaffed.count_le, hstaffed.leader_mem⟩, ?_, ?_, ?_⟩
  · intro s' hstep
    obtain ⟨-, hchange, -⟩ := hstep.roleChange hinit
    rcases hchange.leader_cases with ⟨hsame, hepoch, -⟩ | ⟨hnew, hepoch, -⟩
    · exact ⟨fun hne => absurd hsame hne, fun _ => hepoch⟩
    · exact ⟨fun _ => hepoch, fun heq => absurd heq hnew⟩
  · intro s₁ s₂ s₃ hfirst hrun hlast hnew hnew'
    have hs₁ := hs.run (.single hfirst)
    obtain ⟨-, hchange, -⟩ := hfirst.roleChange hinit
    obtain ⟨-, hchange', hle, -⟩ := hlast.roleChange (hs₁.run hrun).staffed.1
    have hmono := number_le_of_run hs₁ hrun
    rcases hchange.leader_cases with ⟨hsame, -⟩ | ⟨-, -, -, hactive⟩
    · exact absurd hsame hnew
    rcases hchange'.leader_cases with ⟨hsame, -⟩ | ⟨-, -, hagain, -⟩
    · exact absurd hsame hnew'
    refine (hmono.trans hle).lt_of_ne ?_
    intro hblock
    have hbetween : s₂.number = s₁.number := le_antisymm (hle.trans hblock.symm.le) hmono
    rw [← hblock] at hagain
    exact hagain (activation_of_run hs₁ hactive hrun hbetween)
  · intro c s' hgone hrun
    exact (configuration_of_run hs hgone hrun).2

open Sample in
/-- A third sequencer joins, another one is made the leader, an account is
allowed and the policy about it given up; later the first sequencer leaves, and
the attempt to take the account's permission away fails. -/
theorem roles_consistent_initialized :
    let act := fun (s : RoleState Term) (number : Nat) (c : GovernanceCall) =>
      let env := { env sequencer with number, timestamp := 10 * number }
      (⟨finalState (rollback ((RoleCall.governance c).exec (deployment []) env)) s.l1,
        number, 10 * number⟩ : RoleState Term)
    let s₀ : RoleState Term := ⟨initial [], 100, 1000⟩
    let s₁ := act s₀ 101 (.setSequencerSet (sequencers ++ [⟨11⟩]) 3)
    let s₂ := act s₁ 101 (.setLeader cosigner 1)
    let s₃ := act s₂ 102 (.setAllowedAccount user true)
    let s₄ := act s₃ 103 (.abdicate .accessPolicy)
    let s₅ := act s₄ 1000000 (.setSequencerSet [cosigner, ⟨11⟩] 1)
    let s₆ := act s₅ 1000001 (.setAllowedAccount user false)
    (s₁.governance.leader = sequencer ∧ s₂.governance.leader = cosigner ∧
      s₂.governance.leaderEpoch = s₁.governance.leaderEpoch + 1) ∧
    (s₅.governance.sequencers = [cosigner, ⟨11⟩] ∧
      s₅.governance.leader ∈ s₅.governance.sequencers) ∧
    s₆.governance.role user = .account := by
  intro act s₀ s₁ s₂ s₃ s₄ s₅ s₆
  have hstep (s : RoleState Term) (number : Nat) (c : GovernanceCall) (hnumber : s.number ≤ number)
      (htimestamp : s.timestamp ≤ 10 * number) : Step (deployment []) s (act s number c) :=
    .call { env sequencer with number, timestamp := 10 * number }
      (.governance c) hnumber htimestamp
  have h₀ : Reachable (deployment []) s₀ :=
    ⟨s₀, ⟨balances, env zoneFactoryAddress, initArgs,
      yields_finalState (by rfl), rfl, rfl⟩, .refl⟩
  have h₁ : Reachable (deployment []) s₁ :=
    h₀.run (.single (hstep s₀ 101 _ (by decide) (by decide)))
  have h₂ : Step (deployment []) s₁ s₂ := hstep s₁ 101 _ le_rfl le_rfl
  have h₅ : Reachable (deployment []) s₅ := h₁.run (ReflTransGen.single h₂
    |>.tail (hstep s₂ 102 _ (by decide) (by decide))
    |>.tail (hstep s₃ 103 _ (by decide) (by decide))
    |>.tail (hstep s₄ 1000000 _ (by decide) (by decide)))
  have h₆ : Step (deployment []) s₅ s₆ := hstep s₅ 1000001 _ (by decide) (by decide)
  have hleader : s₁.governance.leader = sequencer ∧
      s₂.governance.leader = cosigner := by decide +kernel
  have hchanged : s₂.governance.leader ≠ s₁.governance.leader := by
    rw [hleader.1, hleader.2]
    decide
  have hgone : s₅.governance.Abdicated s₅.timestamp .accessPolicy :=
    ⟨by decide +kernel, by decide +kernel⟩
  refine ⟨⟨hleader.1, hleader.2, ((roles_consistent h₁).2.1 s₂ h₂).1 hchanged⟩,
    ⟨by decide +kernel, (roles_consistent h₅).1.2.2.2.2.2.2⟩, ?_⟩
  obtain ⟨-, -, hroles⟩ := (roles_consistent h₅).2.2.2 _ s₆ hgone (.single h₆)
  exact (hroles user).1.mpr (by decide +kernel)

end RoleState

end Tempo.Zones
