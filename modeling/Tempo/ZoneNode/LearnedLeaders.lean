/-
What a node's schedule knows after it was seeded at one block and has
ingested the transitions up to another: between the two it names the leaders
of the portal.
-/
import Tempo.ZoneNode.LeadershipRefinement
import Tempo.ZoneNode.Production

namespace Tempo.ZoneNode

open List

variable {start learned : Nat}

universe u

variable {H : Type} {K : Type u} {l1 : FinalizedL1 H}

namespace LeadershipHistory

variable {history : LeadershipHistory K}

theorem scheduledFor_eq (h : history.records.IsChain Succeeds) (a : Nat) :
    history.scheduledFor a = (history.records.filter (·.activationTempoBlock ≤ a)).getLast? :=
  argmax_eq_getLast? (((pairwise_precedes h).imp fun hxy => hxy.2).filter _)

/-- From the last activation on, the last record is in force. -/
theorem scheduledFor_of_le (h : history.records.IsChain Succeeds) {a : Nat}
    (hle : ∀ r ∈ history.records, r.activationTempoBlock ≤ a) :
    history.scheduledFor a = history.records.getLast? := by
  rw [scheduledFor_eq h, filter_eq_self.mpr fun r hr => decide_eq_true (hle r hr)]

end LeadershipHistory

/-- The records a node has accepted by the time it has learned the leaders
from block `start` to block `learned`. -/
structure Learned (portal : PortalLeaders l1) (manifest : ZoneManifest K)
    (start learned : Nat) (history : LeadershipHistory K) : Prop where
  le : start ≤ learned
  directives : history.directives = []
  bounded : ∀ r ∈ history.records, r.activationTempoBlock ≤ learned
  /-- The last record is the portal's last transition. -/
  last : match portal.leaderAt learned with
    | none => history.records = []
    | some t => ∃ r, history.records.getLast? = some r ∧ r.epoch = t.epoch
  led : ∀ a, start ≤ a → a ≤ learned → ∀ r, history.scheduledFor a = some r →
      ∃ t, portal.Leads a t ∧ manifest.leaderEd25519BySecp256k1Address t.newLeader = some r.leader

namespace Learned

variable {portal : PortalLeaders l1} {manifest : ZoneManifest K} {history : LeadershipHistory K}

theorem empty (h : portal.leaderAt start = none) : Learned portal manifest start start .empty where
  le := le_rfl
  directives := rfl
  bounded := by simp [LeadershipHistory.empty]
  last := by
    rw [h]
    rfl
  led := by
    intro a _ _ r hr
    simp [LeadershipHistory.scheduledFor, LeadershipHistory.empty] at hr

/-- A block without transition changes no leader. -/
theorem quiet (h : Learned portal manifest start learned history)
    (hordered : history.records.IsChain Succeeds)
    (hquiet : portal.transition (learned + 1) = none) :
    Learned portal manifest start (learned + 1) history := by
  have hsame : portal.leaderAt (learned + 1) = portal.leaderAt learned := by
    rw [portal.leaderAt_succ, hquiet, Option.none_or]
  refine ⟨Nat.le_succ_of_le h.le, h.directives,
    fun r hr => Nat.le_succ_of_le (h.bounded r hr), ?_, ?_⟩
  · rw [hsame]
    exact h.last
  · intro a hstart hlearned r hr
    rcases Nat.le_succ_iff.mp hlearned with hold | rfl
    · exact h.led a hstart hold r hr
    · rw [LeadershipHistory.scheduledFor_of_le hordered
        fun r hr => Nat.le_succ_of_le (h.bounded r hr)] at hr
      rw [← LeadershipHistory.scheduledFor_of_le hordered h.bounded] at hr
      obtain ⟨t, hleads, hkey⟩ := h.led learned h.le le_rfl r hr
      refine ⟨t, ?_, hkey⟩
      rwa [PortalLeaders.Leads, hsame]

theorem records_eq_nil_iff (h : Learned portal manifest start learned history) :
    history.records = [] ↔ portal.leaderAt learned = none := by
  have hlast := h.last
  cases hleader : portal.leaderAt learned with
  | none =>
    rw [hleader] at hlast
    exact ⟨fun _ => rfl, fun _ => hlast⟩
  | some t =>
    rw [hleader] at hlast
    obtain ⟨r, hr, -⟩ := hlast
    refine ⟨fun hnil => ?_, fun hnone => nomatch hnone⟩
    rw [hnil] at hr
    cases hr

variable {t : LeaderTransition}

/-- A transition in force from the next block on. -/
theorem accept (h : Learned portal manifest start learned history) {key : K}
    (hordered : (history.accept ⟨t.epoch, key, learned + 1⟩).records.IsChain
      Succeeds) (ht : portal.transition (learned + 1) = some t)
    (hkey : manifest.leaderEd25519BySecp256k1Address t.newLeader = some key) :
    Learned portal manifest start (learned + 1) (history.accept ⟨t.epoch, key, learned + 1⟩) := by
  have hleader : portal.leaderAt (learned + 1) = some t := by
    rw [portal.leaderAt_succ, ht, Option.some_or]
  by_cases hnil : history.records = []
  · -- the first record leads every block up to its own
    have hrecords : (history.accept ⟨t.epoch, key, learned + 1⟩).records = [⟨t.epoch, key, 0⟩] := by
      simp [LeadershipHistory.accept, hnil]
    have hnone := h.records_eq_nil_iff.mp hnil
    refine ⟨Nat.le_succ_of_le h.le, h.directives, ?_, ?_, ?_⟩
    · simp [hrecords]
    · rw [hleader]
      exact ⟨⟨t.epoch, key, 0⟩, by rw [hrecords]; rfl, rfl⟩
    · intro a _ hlearned r hr
      rw [LeadershipHistory.scheduledFor_of_le hordered (by simp [hrecords]), hrecords] at hr
      obtain rfl := Option.some.inj hr
      refine ⟨t, ?_, hkey⟩
      rcases Nat.le_succ_iff.mp hlearned with hold | rfl
      · exact .inr ⟨portal.leaderAt_eq_none_of_le hold hnone, learned, hnone, ht⟩
      · exact .inl hleader
  · have hrecords : (history.accept ⟨t.epoch, key, learned + 1⟩).records =
        history.records ++ [⟨t.epoch, key, learned + 1⟩] := by
      simp [LeadershipHistory.accept, hnil]
    have hbounded : ∀ r ∈ (history.accept ⟨t.epoch, key, learned + 1⟩).records,
          r.activationTempoBlock ≤ learned + 1 := by
      intro r hr
      rw [hrecords, mem_append, mem_singleton] at hr
      rcases hr with hold | rfl
      · exact Nat.le_succ_of_le (h.bounded r hold)
      · exact le_rfl
    refine ⟨Nat.le_succ_of_le h.le, h.directives, hbounded, ?_, ?_⟩
    · rw [hleader]
      exact ⟨_, by rw [hrecords, getLast?_concat], rfl⟩
    · intro a hstart hlearned r hr
      rcases Nat.le_succ_iff.mp hlearned with hold | rfl
      · refine h.led a hstart hold r ?_
        rw [LeadershipHistory.scheduledFor_eq hordered, hrecords,
          filter_append, filter_cons_of_neg (by simp; omega), filter_nil, append_nil] at hr
        rwa [LeadershipHistory.scheduledFor_eq hordered.left_of_append]
      · rw [LeadershipHistory.scheduledFor_of_le hordered hbounded, hrecords, getLast?_concat] at hr
        obtain rfl := Option.some.inj hr
        exact ⟨t, .inl hleader, hkey⟩

/-- The snapshot at the startup checkpoint. -/
theorem seed {key : K} (hleader : portal.leaderAt start = some t)
    (hkey : manifest.leaderEd25519BySecp256k1Address t.newLeader = some key) (activation : Nat) :
    Learned portal manifest start start
      (LeadershipHistory.empty.accept ⟨t.epoch, key, activation⟩) := by
  refine ⟨le_rfl, rfl, ?_, ?_, ?_⟩
  · simp [LeadershipHistory.accept, LeadershipHistory.empty]
  · rw [hleader]
    exact ⟨_, rfl, rfl⟩
  · intro a hstart hlearned r hr
    obtain rfl := le_antisymm hlearned hstart
    refine ⟨t, .inl hleader, ?_⟩
    rw [hkey]
    exact congrArg (fun r => some r.leader) (Option.some.inj hr)

end Learned

/-- Recording an anchor up to which the zone has consumed. -/
theorem appliedAnchor_le {schedule : LeadershipScheduleState K} {consumed anchor : Nat}
    (h : ∀ A, schedule.appliedAnchor = some A → A ≤ consumed) (hanchor : anchor ≤ consumed) :
    ∀ A, (schedule.recordAppliedAnchor anchor).appliedAnchor = some A → A ≤ consumed := by
  intro A hA
  obtain rfl := Option.some.inj hA
  cases happlied : schedule.appliedAnchor with
  | none => exact hanchor
  | some B => exact Nat.max_le.mpr ⟨h B happlied, hanchor⟩

/-- A schedule that names the portal's leaders from block `start` to block
`learned`. -/
def Knows (portal : PortalLeaders l1) (manifest : ZoneManifest K)
    (start learned : Nat) (schedule : LeadershipScheduleState K) : Prop :=
  ∃ history, Tracks schedule history ∧ Learned portal manifest start learned history

namespace Knows

open LeadershipScheduleState

variable {portal : PortalLeaders l1} {manifest : ZoneManifest K}
  {schedule schedule' : LeadershipScheduleState K}

theorem leaderFor (h : Knows portal manifest start learned schedule)
    {a : Nat} (hstart : start ≤ a) (hlearned : a ≤ learned)
    (happlied : ∀ A, schedule.appliedAnchor = some A → A ≤ a)
    {r : LeadershipState K} (hr : schedule.leaderFor a = some r) :
    ∃ t, portal.Leads a t ∧
      manifest.leaderEd25519BySecp256k1Address t.newLeader = some r.leader := by
  obtain ⟨history, htracks, hknown⟩ := h
  refine hknown.led a hstart hlearned r ?_
  rw [htracks.leaderFor happlied, LeadershipHistory.leaderFor, hknown.directives] at hr
  exact hr

theorem recordAppliedAnchor (h : Knows portal manifest start learned schedule) (anchor : Nat) :
    Knows portal manifest start learned (schedule.recordAppliedAnchor anchor) := by
  obtain ⟨history, htracks, hknown⟩ := h
  exact ⟨history, htracks.recordAppliedAnchor anchor, hknown⟩

variable [DecidableEq K] {replay : Nat}

/-- Ingesting the next block teaches the node its leader. -/
theorem ingest_next (h : Knows portal manifest start learned schedule)
    (hok : ingestLeadership manifest replay schedule
      (l1.block (learned + 1)).events = .ok schedule') :
    Knows portal manifest start (learned + 1) schedule' ∧
      schedule'.appliedAnchor = schedule.appliedAnchor := by
  obtain ⟨history, htracks, hknown⟩ := h
  rw [ingestLeadership, portal.finalLeaderTransition] at hok
  cases ht : portal.transition (learned + 1) with
  | none =>
    rw [ht] at hok
    cases hok
    exact ⟨⟨history, htracks, hknown.quiet htracks.ordered ht⟩, rfl⟩
  | some t =>
    rw [ht] at hok
    obtain ⟨key, appended, hkey, hpublish⟩ := applyLeaderTransition_ok hok
    rw [portal.activation_eq _ t ht] at hpublish
    have hsucc : ∀ last, history.records.getLast? = some last →
        t.epoch.toNat = last.epoch.toNat + 1 := by
      intro last hlast
      have hprevious := hknown.last
      cases hleader : portal.leaderAt learned with
      | none =>
        rw [hknown.records_eq_nil_iff.mpr hleader] at hlast
        cases hlast
      | some previous =>
        rw [hleader] at hprevious
        obtain ⟨r, hr, hsame⟩ := hprevious
        obtain rfl := Option.some.inj (hr.symm.trans hlast)
        rw [hsame]
        exact portal.epoch_succ _ previous t hleader ht
    rcases publish_cases hpublish with ⟨rfl, rfl⟩ | ⟨rfl, rfl, hplace⟩
    · -- the node would have to know the transition already
      exfalso
      rcases publish_repeated hpublish with hmem | ⟨-, last, hlast, hepoch⟩
      · obtain ⟨dropped, hrecords, -⟩ := htracks.retained
        have hle := hknown.bounded ⟨t.epoch, key, learned + 1⟩
          (hrecords ▸ mem_append_right dropped hmem)
        exact Nat.not_succ_le_self _ hle
      · have hnext := hsucc last (htracks.records_getLast? hlast)
        rw [hepoch] at hnext
        exact Nat.succ_ne_self _ hnext.symm
    · have htracks' := htracks.append (htracks.extends_of_publish
        (fun last hlast => hsucc last hlast ▸ t.epoch.toNat_lt) hplace)
      exact ⟨⟨_, htracks', hknown.accept htracks'.ordered ht hkey⟩, (maybeBound_cases _).2.1⟩

/-- Ingesting the same block again changes nothing. -/
theorem ingest_again (h : Knows portal manifest start learned schedule)
    (hok : ingestLeadership manifest replay schedule (l1.block learned).events = .ok schedule') :
    schedule' = schedule := by
  obtain ⟨history, htracks, hknown⟩ := h
  rw [ingestLeadership, portal.finalLeaderTransition] at hok
  cases ht : portal.transition learned with
  | none =>
    rw [ht] at hok
    cases hok
    rfl
  | some t =>
    rw [ht] at hok
    obtain ⟨key, appended, hkey, hpublish⟩ := applyLeaderTransition_ok hok
    rcases publish_cases hpublish with ⟨-, rfl⟩ | ⟨-, -, hplace⟩
    · rfl
    · exfalso
      have hleader : portal.leaderAt learned = some t := by
        cases learned with
        | zero => exact ht
        | succ n => rw [portal.leaderAt_succ, ht, Option.some_or]
      have hlast := hknown.last
      rw [hleader] at hlast
      obtain ⟨r, hr, hepoch⟩ := hlast
      rcases hplace with hempty | ⟨activation, last, hkept, hnext, -⟩
      · have hnil := htracks.records_isEmpty
        rw [hempty, List.isEmpty_nil, List.isEmpty_iff] at hnil
        rw [hnil] at hr
        cases hr
      · have hsame := htracks.records_getLast? (Tracks.values_getLast? hkept)
        obtain rfl := Option.some.inj (hr.symm.trans hsame)
        have hclamp : (schedule.clamp ⟨t.epoch, key, t.activationTempoBlock⟩).epoch = t.epoch := by
          unfold clamp
          split <;> rfl
        rw [hclamp, hepoch] at hnext
        simp at hnext

/-- A node seeded at its checkpoint. -/
theorem seed (hok : seedLeadershipSchedule manifest portal.snapshot start
      .uninitialized = .ok schedule) :
    Knows portal manifest start start schedule ∧ schedule.appliedAnchor = none := by
  by_cases hzero : start = 0
  · subst hzero
    cases hok
    exact ⟨⟨.empty, Tracks.initial, .empty portal.leaderAt_zero⟩, rfl⟩
  · rw [seedLeadershipSchedule, if_neg hzero, PortalLeaders.snapshot] at hok
    cases hleader : portal.leaderAt start with
    | none =>
      rw [hleader] at hok
      cases hdeployed : portal.deployed start with
      | true => simp [hdeployed] at hok
      | false =>
        simp only [hdeployed, Bool.false_eq_true, ↓reduceIte] at hok
        cases hok
        exact ⟨⟨.empty, Tracks.initial, .empty hleader⟩, rfl⟩
    | some t =>
      simp only [hleader] at hok
      split_ifs at hok
      obtain ⟨key, appended, hkey, hpublish⟩ := publishLeader_ok hok
      rcases publish_cases hpublish with ⟨rfl, rfl⟩ | ⟨rfl, rfl, hplace⟩
      · rcases publish_repeated hpublish with hmem | ⟨-, last, hlast, -⟩
        · cases hmem
        · cases hlast
      · have htracks := (Tracks.initial (K := K)).append
          (Tracks.initial.extends_of_publish nofun hplace)
        exact ⟨⟨_, htracks, .seed hleader hkey _⟩, (maybeBound_cases _).2.1⟩

end Knows

end Tempo.ZoneNode
