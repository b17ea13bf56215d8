/-
Pruning and forced recovery are transparent: whatever calls a schedule has
seen, for every block the local chain has not passed it names the leader that
the full history names.
-/
import Tempo.ZoneNode.LeadershipHistory

namespace Tempo.ZoneNode

open SortedMap LeadershipHistory List Option

variable {applied : Option Nat} {anchor : Nat}

universe u

variable {K : Type u}

open LeadershipScheduleState

namespace LeadershipHistory

variable {history : LeadershipHistory K} {applied' : Option Nat} {d : Directive K}

/-- A directive that ended at or below the applied block. -/
def Settled (history : LeadershipHistory K) (applied : Option Nat) (d : Directive K) : Prop :=
  ∃ b A, history.boundary d = some b ∧ applied = some A ∧ b ≤ A

/-- The recovery in force ends where its directive ends, or both ends are
behind the applied block. -/
def Bounds (history : LeadershipHistory K) (applied : Option Nat)
    (f : ForcedRecoveryState K) : Prop :=
  f.portalActivationTempoBlock = history.boundary f.directive ∨
    history.Settled applied f.directive ∧
      ∃ p A, f.portalActivationTempoBlock = some p ∧ applied = some A ∧ p ≤ A

/-- The recovery in force is the newest directive; all others are settled. -/
def Standing (history : LeadershipHistory K) (applied : Option Nat) :
    Option (ForcedRecoveryState K) → Prop
  | none => ∀ d ∈ history.directives, history.Settled applied d
  | some f => ∃ older, history.directives = f.directive :: older ∧
      (∀ d ∈ older, history.Settled applied d) ∧ history.Bounds applied f

/-- A later applied block, or none before it. -/
def Advances (applied applied' : Option Nat) : Prop :=
  ∀ A, applied = some A → ∃ A', applied' = some A' ∧ A ≤ A'

theorem Settled.advance (h : history.Settled applied d)
    (hadvance : Advances applied applied') : history.Settled applied' d := by
  obtain ⟨b, A, hb, hA, hle⟩ := h
  obtain ⟨A', hA', hAA'⟩ := hadvance A hA
  exact ⟨b, A', hb, hA', hle.trans hAA'⟩

variable {f : ForcedRecoveryState K}

theorem Bounds.advance (h : history.Bounds applied f) (hadvance : Advances applied applied') :
    history.Bounds applied' f := by
  rcases h with h | ⟨hsettled, p, A, hp, hA, hle⟩
  · exact .inl h
  · obtain ⟨A', hA', hAA'⟩ := hadvance A hA
    exact .inr ⟨hsettled.advance hadvance, p, A', hp, hA', hle.trans hAA'⟩

/-- A settled directive names no leader from the applied block on. -/
theorem Settled.not_governs (h : history.Settled applied d)
    (hanchor : ∀ A, applied = some A → A ≤ anchor) : history.governs anchor d = false := by
  obtain ⟨b, A, hb, hA, hle⟩ := h
  have hpast : ¬anchor < b := not_lt.mpr (hle.trans (hanchor A hA))
  simp [governs, hb, hpast]

theorem find?_governs_eq_none {directives : List (Directive K)}
    (h : ∀ d ∈ directives, history.Settled applied d)
    (hanchor : ∀ A, applied = some A → A ≤ anchor) :
    directives.find? (history.governs anchor) = none := by
  refine find?_eq_none.mpr fun d hd => ?_
  rw [(h d hd).not_governs hanchor]
  exact Bool.false_ne_true

/-- From the applied block on, the recovery in force governs as its directive
does. -/
theorem Bounds.leadershipRecordFor (h : history.Bounds applied f)
    (hanchor : ∀ A, applied = some A → A ≤ anchor) :
    f.leadershipRecordFor anchor =
      if history.governs anchor f.directive then some f.directive.record
      else none := by
  rcases h with h | ⟨hsettled, p, A, hp, hA, hle⟩
  · unfold ForcedRecoveryState.leadershipRecordFor governs
    rw [← h]
    by_cases hstart : anchor < f.recoveryStartTempoBlock
    · simp [ForcedRecoveryState.directive, hstart, not_le.mpr hstart]
    · cases f.portalActivationTempoBlock with
      | none =>
        simp [ForcedRecoveryState.directive, Directive.record, hstart, not_lt.mp hstart]
      | some p =>
        by_cases hend : p ≤ anchor
        · simp [ForcedRecoveryState.directive, hend]
        · simp [ForcedRecoveryState.directive, Directive.record, hstart,
            not_lt.mp hstart, hend, not_le.mp hend]
  · have hpast : p ≤ anchor := hle.trans (hanchor A hA)
    rw [hsettled.not_governs hanchor]
    simp [ForcedRecoveryState.leadershipRecordFor, hp, hpast]

variable {recovery : Option (ForcedRecoveryState K)}

theorem Standing.leadershipRecordFor (h : history.Standing applied recovery)
    (hanchor : ∀ A, applied = some A → A ≤ anchor) :
    (recovery.bind fun f => f.leadershipRecordFor anchor) =
      (history.directives.find? (history.governs anchor)).map
        Directive.record := by
  cases recovery with
  | none => rw [find?_governs_eq_none h hanchor, bind_none, map_none]
  | some f =>
    obtain ⟨older, hdirectives, holder, hbounds⟩ := h
    rw [bind_some, hbounds.leadershipRecordFor hanchor, hdirectives, find?_cons]
    cases history.governs anchor f.directive with
    | true => rfl
    | false =>
      simp only [Bool.false_eq_true, ↓reduceIte]
      rw [find?_governs_eq_none holder hanchor, map_none]

theorem Standing.advance (h : history.Standing applied recovery)
    (hadvance : Advances applied applied') : history.Standing applied' recovery := by
  cases recovery with
  | none => exact fun d hd => (h d hd).advance hadvance
  | some f =>
    obtain ⟨older, hdirectives, holder, hbounds⟩ := h
    exact ⟨older, hdirectives, fun d hd => (holder d hd).advance hadvance, hbounds.advance hadvance⟩

/-- Clearing a recovery whose end is behind the applied block. -/
theorem Standing.complete (h : history.Standing applied (some f)) {p A : Nat}
    (hp : f.portalActivationTempoBlock = some p) (hA : applied = some A)
    (hle : p ≤ A) : history.Standing applied none := by
  obtain ⟨older, hdirectives, holder, hbounds⟩ := h
  have hnewest : history.Settled applied f.directive := by
    rcases hbounds with heq | ⟨hsettled, -⟩
    · exact ⟨p, A, heq ▸ hp, hA, hle⟩
    · exact hsettled
  intro d hd
  rw [hdirectives] at hd
  rcases mem_cons.mp hd with rfl | hd
  · exact hnewest
  · exact holder d hd

end LeadershipHistory

/-- A schedule and the history behind it. -/
structure Tracks (state : LeadershipScheduleState K) (history : LeadershipHistory K) : Prop where
  keyed : Keyed state.transitions
  ordered : history.records.IsChain Succeeds
  first : ∀ r, history.records.head? = some r → r.activationTempoBlock = 0
  /-- Only records before one that governs the applied block are dropped. -/
  retained : ∃ dropped, history.records = dropped ++ state.transitions.values ∧
    (dropped ≠ [] → ∃ A r, state.appliedAnchor = some A ∧
      state.transitions.values.head? = some r ∧ r.activationTempoBlock ≤ A)
  standing : history.Standing state.appliedAnchor state.forcedRecovery

namespace Tracks

variable {state : LeadershipScheduleState K} {history : LeadershipHistory K}

theorem initial : Tracks (.uninitialized : LeadershipScheduleState K) .empty where
  keyed := by simp [Keyed, uninitialized]
  ordered := List.IsChain.nil
  first := by simp [LeadershipHistory.empty]
  retained := ⟨[], rfl, fun h => absurd rfl h⟩
  standing := by
    simp [LeadershipHistory.Standing, LeadershipHistory.empty, uninitialized]

theorem scheduledFor (h : Tracks state history)
    (hanchor : ∀ A, state.appliedAnchor = some A → A ≤ anchor) :
    (state.transitions.floor anchor).map Prod.snd = history.scheduledFor anchor := by
  obtain ⟨dropped, hrecords, hdropped⟩ := h.retained
  have hsorted : (history.records.filter (·.activationTempoBlock ≤ anchor)).Pairwise fun x y =>
        x.activationTempoBlock < y.activationTempoBlock :=
    ((pairwise_precedes h.ordered).imp fun hxy => hxy.2).filter _
  rw [LeadershipHistory.scheduledFor, argmax_eq_getLast? hsorted,
    h.keyed.floor, hrecords, filter_append]
  rcases eq_or_ne dropped [] with rfl | hne
  · rfl
  · obtain ⟨A, r, hA, hr, hle⟩ := hdropped hne
    have hmem : r ∈ state.transitions.values.filter (·.activationTempoBlock ≤ anchor) :=
      mem_filter.mpr ⟨mem_of_head? hr, decide_eq_true (hle.trans (hanchor A hA))⟩
    rw [getLast?_append_of_ne_nil _ (ne_nil_of_mem hmem)]

/-- From the applied block on the schedule answers as the history does. -/
theorem leaderFor (h : Tracks state history)
    (hanchor : ∀ A, state.appliedAnchor = some A → A ≤ anchor) :
    state.leaderFor anchor = history.leaderFor anchor := by
  rw [LeadershipScheduleState.leaderFor, LeadershipHistory.leaderFor,
    h.standing.leadershipRecordFor hanchor, h.scheduledFor hanchor]

/-- The last record is retained. -/
theorem getLast?_records (h : Tracks state history) :
    history.records.getLast? = state.transitions.values.getLast? := by
  obtain ⟨dropped, hrecords, hdropped⟩ := h.retained
  rw [hrecords]
  rcases eq_or_ne dropped [] with rfl | hne
  · rfl
  · obtain ⟨A, r, -, hr, -⟩ := hdropped hne
    exact getLast?_append_of_ne_nil _ (ne_nil_of_mem (mem_of_head? hr))

theorem records_isEmpty (h : Tracks state history) :
    history.records.isEmpty = state.transitions.entries.isEmpty := by
  rw [Bool.eq_iff_iff, List.isEmpty_iff, List.isEmpty_iff, ← List.getLast?_eq_none_iff,
    h.getLast?_records, getLast?_eq_none_iff]
  exact map_eq_nil_iff

/-- A new transition ends after all others and with the next epoch. -/
structure Extends (state : LeadershipScheduleState K) (record : LeadershipState K) : Prop where
  above : ∀ e ∈ state.transitions.entries, e.1 < record.activationTempoBlock
  first : state.transitions.entries = [] → record.activationTempoBlock = 0
  next : ∀ last, state.transitions.values.getLast? = some last → Succeeds last record

variable {record : LeadershipState K} {d : Directive K}

theorem appended_records (h : Tracks state history) :
    (history.accept record).records = history.records ++ [state.clamp record] := by
  simp [accept, clamp, h.records_isEmpty]

theorem ordered_append (h : Tracks state history) (hext : Extends state record) :
    (history.records ++ [record]).IsChain Succeeds := by
  refine List.IsChain.append h.ordered (isChain_singleton _) ?_
  intro last hlast next hnext
  obtain rfl : record = next := by simpa using hnext
  exact hext.next last (h.getLast?_records ▸ hlast)

/-- A record answers only the directives that none before it did. -/
theorem boundary_accept (h : Tracks state history) :
    (history.accept record).boundary d = (history.boundary d).or
      (if d.epoch ≤ (state.clamp record).epoch then some (state.clamp record).activationTempoBlock
      else none) := by
  rw [boundary, boundary, h.appended_records, find?_append, map_or]
  by_cases hepoch : d.epoch ≤ (state.clamp record).epoch
  · simp [hepoch]
  · simp [hepoch]

theorem settled_accept (h : Tracks state history) (hd : history.Settled applied d) :
    (history.accept record).Settled applied d := by
  obtain ⟨b, A, hb, hA, hle⟩ := hd
  exact ⟨b, A, by rw [h.boundary_accept, hb, some_or], hA, hle⟩

theorem values_insert (hext : Extends state record) :
    (state.transitions.insert record.activationTempoBlock record).values =
      state.transitions.values ++ [record] := by
  rw [values, entries_insert_of_lt hext.above, map_append]
  rfl

section

variable (h : Tracks state history)
include h

/-- The recovery after a record has been appended. -/
theorem standing_append (hext : Extends state (state.clamp record)) :
    (history.accept record).Standing state.appliedAnchor
      (state.append (state.clamp record)).forcedRecovery := by
  have hstanding := h.standing
  obtain ⟨-, -, hrecovery⟩ := maybeBound_cases
    { state with
      transitions := state.transitions.insert
        (state.clamp record).activationTempoBlock (state.clamp record) }
  rw [values_insert hext] at hrecovery
  rcases hrecovery with ⟨hsame, hunanswered⟩ | ⟨f, r, hf, hopen, hfind, hnew⟩
  · rw [append, hsame]
    cases hf : state.forcedRecovery with
    | none =>
      rw [hf] at hstanding
      exact fun d hd => h.settled_accept (hstanding d hd)
    | some f =>
      rw [hf] at hstanding
      obtain ⟨older, hdirectives, holder, hbounds⟩ := hstanding
      refine ⟨older, hdirectives, fun d hd => h.settled_accept (holder d hd), ?_⟩
      rcases hbounds with heq | ⟨hsettled, hpast⟩
      · left
        rw [h.boundary_accept, ← heq]
        cases hp : f.portalActivationTempoBlock with
        | some p => rfl
        | none =>
          have hlater : ¬f.epoch ≤ (state.clamp record).epoch := hunanswered f hf hp _ (by simp)
          exact (if_neg hlater).symm
      · exact .inr ⟨h.settled_accept hsettled, hpast⟩
  · rw [hf] at hstanding
    obtain ⟨older, hdirectives, holder, hbounds⟩ := hstanding
    -- an open recovery is not yet answered by any accepted record
    have hnone : history.boundary f.directive = none := by
      rcases hbounds with heq | ⟨-, p, A, hp, -⟩
      · rw [← heq, hopen]
      · rw [hopen] at hp
        cases hp
    have hvalues : state.transitions.values.find? (fun r => f.epoch ≤ r.epoch) = none := by
      obtain ⟨dropped, hrecords, -⟩ := h.retained
      have hall := map_eq_none_iff.mp hnone
      rw [hrecords, find?_append, or_eq_none_iff] at hall
      exact hall.2
    rw [find?_append, hvalues, none_or] at hfind
    have hanswer : f.epoch ≤ (state.clamp record).epoch ∧ state.clamp record = r := by
      simpa [find?_singleton] using hfind
    rw [append, hnew]
    refine ⟨older, hdirectives, fun d hd => h.settled_accept (holder d hd), .inl ?_⟩
    change some r.activationTempoBlock = (history.accept record).boundary f.directive
    rw [h.boundary_accept, hnone, none_or, ← hanswer.2]
    exact (if_pos hanswer.1).symm

theorem append (hext : Extends state (state.clamp record)) :
    Tracks (state.append (state.clamp record)) (history.accept record) := by
  obtain ⟨htransitions, happlied, -⟩ := maybeBound_cases
    { state with
      transitions := state.transitions.insert
        (state.clamp record).activationTempoBlock (state.clamp record) }
  have hvalues : (state.append (state.clamp record)).transitions.values =
      state.transitions.values ++ [state.clamp record] := by
    rw [LeadershipScheduleState.append, htransitions]
    exact values_insert hext
  refine ⟨h.keyed.append _, ?_, ?_, ?_, ?_⟩
  · rw [h.appended_records]
    exact h.ordered_append hext
  · intro r hr
    rw [h.appended_records] at hr
    cases hrecords : history.records with
    | nil =>
      have hempty := h.records_isEmpty
      rw [hrecords] at hr hempty
      obtain rfl : state.clamp record = r := by simpa using hr
      exact hext.first (isEmpty_iff.mp hempty.symm)
    | cons first rest =>
      rw [hrecords] at hr
      refine h.first r ?_
      rw [hrecords]
      exact hr
  · obtain ⟨dropped, hrecords, hdropped⟩ := h.retained
    refine ⟨dropped, ?_, fun hne => ?_⟩
    · rw [h.appended_records, hvalues, hrecords, append_assoc]
    · obtain ⟨A, r, hA, hr, hle⟩ := hdropped hne
      refine ⟨A, r, ?_, ?_, hle⟩
      · rw [LeadershipScheduleState.append, happlied]
        exact hA
      · rw [hvalues, head?_append, hr]
        rfl
  · rw [show (state.append (state.clamp record)).appliedAnchor = state.appliedAnchor from happlied]
    exact h.standing_append hext

/-- The recovery after a directive has been installed. -/
theorem standing_install (hnone : state.forcedRecovery = none) (d : Directive K) :
    (history.direct d).Standing state.appliedAnchor (maybeBoundForcedRecovery
        { state with forcedRecovery := some d.opened }).forcedRecovery := by
  have hsettled : ∀ d' ∈ history.directives, (history.direct d).Settled state.appliedAnchor d' := by
    have hstanding := h.standing
    rw [hnone] at hstanding
    exact hstanding
  obtain ⟨dropped, hrecords, hdropped⟩ := h.retained
  have hpairwise := pairwise_precedes h.ordered
  rw [hrecords, pairwise_append] at hpairwise
  obtain ⟨-, -, hprecedes⟩ := hpairwise
  obtain ⟨-, -, hrecovery⟩ := maybeBound_cases { state with forcedRecovery := some d.opened }
  rcases hrecovery with ⟨hsame, hunanswered⟩ | ⟨f, r, hf, -, hfind, hnew⟩
  · rw [hsame]
    refine ⟨history.directives, rfl, hsettled, .inl ?_⟩
    -- no retained record answers, so no dropped one does either
    have hall : ∀ x ∈ history.records, ¬d.epoch ≤ x.epoch := by
      intro x hx hle
      rw [hrecords] at hx
      rcases mem_append.mp hx with hx | hx
      · obtain ⟨A, r, -, hr, -⟩ := hdropped (ne_nil_of_mem hx)
        have hmem := mem_of_head? hr
        have hlt := (hprecedes x hx r hmem).1
        exact hunanswered _ rfl rfl r hmem (UInt64.le_trans hle (UInt64.le_of_lt hlt))
      · exact hunanswered _ rfl rfl x hx hle
    change none = (history.direct d).boundary d
    rw [eq_comm, boundary, map_eq_none_iff, find?_eq_none]
    intro x hx
    simpa using hall x hx
  · obtain rfl := some.inj hf
    change state.transitions.values.find? (fun r => d.epoch ≤ r.epoch) = some r at hfind
    rw [hnew]
    refine ⟨history.directives, rfl, hsettled, ?_⟩
    have hboundary : (history.direct d).boundary d =
        ((dropped.find? fun r => d.epoch ≤ r.epoch).or (some r)).map (·.activationTempoBlock) := by
      rw [boundary, direct, hrecords, find?_append, hfind]
    cases hold : dropped.find? fun r => d.epoch ≤ r.epoch with
    | none =>
      rw [hold] at hboundary
      exact .inl hboundary.symm
    | some old =>
      -- a dropped record answered; the first retained one answers too
      rw [hold] at hboundary
      have hmem := mem_of_find?_eq_some hold
      obtain ⟨A, first, hA, hfirst, hle⟩ := hdropped (ne_nil_of_mem hmem)
      have holder := hprecedes old hmem first (mem_of_head? hfirst)
      have hanswers : d.epoch ≤ first.epoch := by
        have : d.epoch ≤ old.epoch := by
          simpa using find?_some hold
        exact UInt64.le_trans this (UInt64.le_of_lt holder.1)
      obtain ⟨rest, hvalues⟩ := head?_eq_some_iff.mp hfirst
      rw [hvalues, find?_cons_of_pos (by simpa using hanswers)] at hfind
      obtain rfl := some.inj hfind
      exact .inr ⟨⟨_, A, hboundary, hA, holder.2.le.trans hle⟩, _, A, rfl, hA, hle⟩

theorem install (hnone : state.forcedRecovery = none) (d : Directive K) :
    Tracks (maybeBoundForcedRecovery
      { state with forcedRecovery := some d.opened }) (history.direct d) := by
  obtain ⟨htransitions, happlied, -⟩ := maybeBound_cases
    { state with forcedRecovery := some d.opened }
  refine ⟨?_, h.ordered, h.first, ?_, ?_⟩
  · rw [htransitions]
    exact h.keyed
  · rw [htransitions, happlied]
    exact h.retained
  · rw [happlied]
    exact h.standing_install hnone d

end

/-- What pruning drops comes before a record that governs the applied
block. -/
theorem pruned_split {transitions : SortedMap Nat (LeadershipState K)}
    (hkeyed : Keyed transitions) (applied : Nat) :
    Keyed (pruned transitions applied) ∧ ∃ dropped, transitions.values =
          dropped ++ (pruned transitions applied).values ∧ (dropped ≠ [] → ∃ r,
          (pruned transitions applied).values.head? = some r ∧
            r.activationTempoBlock ≤ applied) := by
  cases hactive : transitions.floor (saturatingAdd applied 1) with
  | none =>
    have hpruned : pruned transitions applied = transitions := by
      simp [pruned, hactive]
    rw [hpruned]
    exact ⟨hkeyed, [], rfl, fun h => absurd rfl h⟩
  | some active =>
    have hnext : active.1 ≤ applied + 1 := (mem_of_floor hactive).2.trans (min_le_left _ _)
    obtain ⟨k, hk⟩ : ∃ k, ((transitions.below active.1).map Prod.fst).getD active.1 = k := ⟨_, rfl⟩
    have hpruned : pruned transitions applied = transitions.retain (k ≤ ·) := by
      simp [pruned, hactive, hk]
    rw [hpruned]
    refine ⟨fun e he => hkeyed e (mem_of_mem_filter he),
      (transitions.entries.filter fun e => e.1 < k).map Prod.snd, ?_, fun hne => ?_⟩
    · exact (congrArg (map Prod.snd) (transitions.entries_split k)).trans map_append
    · cases hbelow : transitions.below active.1 with
      | none =>
        obtain rfl : active.1 = k := by simpa [hbelow] using hk
        rw [below_eq_none.mp hbelow] at hne
        exact absurd rfl hne
      | some predecessor =>
        obtain ⟨hpmem, hplt⟩ := mem_of_below hbelow
        obtain rfl : predecessor.1 = k := by simpa [hbelow] using hk
        refine ⟨predecessor.2, ?_, ?_⟩
        · have hhead := head?_filter_ge hpmem
          exact (head?_map ..).trans (congrArg (Option.map Prod.snd) hhead)
        · rw [← hkeyed predecessor hpmem]
          omega

theorem recordAppliedAnchor (h : Tracks state history) (tempoAnchor : Nat) :
    Tracks (state.recordAppliedAnchor tempoAnchor) history := by
  obtain ⟨A, hA⟩ : ∃ A, A = (state.appliedAnchor.map (max · tempoAnchor)).getD tempoAnchor :=
    ⟨_, rfl⟩
  have hadvance : LeadershipHistory.Advances state.appliedAnchor (some A) := by
    intro B hB
    refine ⟨A, rfl, ?_⟩
    rw [hA, hB]
    exact Nat.le_max_left B tempoAnchor
  have hstanding := h.standing.advance hadvance
  obtain ⟨hkeyed, newly, hvalues, hnewly⟩ := pruned_split h.keyed A
  obtain ⟨dropped, hrecords, hdropped⟩ := h.retained
  unfold LeadershipScheduleState.recordAppliedAnchor
  rw [← hA]
  refine ⟨hkeyed, h.ordered, h.first, ⟨dropped ++ newly, ?_, ?_⟩, ?_⟩
  · rw [hrecords, hvalues, append_assoc]
  · intro hne
    by_cases hnew : newly = []
    · rw [hnew, append_nil] at hne
      obtain ⟨B, r, hB, hr, hle⟩ := hdropped hne
      obtain ⟨A', hA', hBA⟩ := hadvance B hB
      refine ⟨A', r, hA', ?_, hle.trans hBA⟩
      rw [hvalues, hnew] at hr
      exact hr
    · obtain ⟨r, hr, hle⟩ := hnewly hnew
      exact ⟨A, r, rfl, hr, hle⟩
  · dsimp only
    split
    next hdone =>
      obtain ⟨f, hf, hbounded⟩ := (any_eq_true _ _).mp hdone
      obtain ⟨p, hp, hle⟩ := (any_eq_true _ _).mp hbounded
      rw [hf] at hstanding
      exact hstanding.complete hp rfl (of_decide_eq_true hle)
    next => exact hstanding

theorem values_getLast? {activation : Nat} {last : LeadershipState K}
    (h : state.transitions.lastKeyValue = some (activation, last)) :
    state.transitions.values.getLast? = some last := by
  rw [values, getLast?_map,
    show state.transitions.entries.getLast? = some (activation, last) from h]
  rfl

/-- The newest retained record is the newest accepted one. -/
theorem records_getLast? (h : Tracks state history) {last : LeadershipState K}
    (hlast : state.transitions.values.getLast? = some last) :
    history.records.getLast? = some last := by
  obtain ⟨dropped, hrecords, -⟩ := h.retained
  rw [hrecords, getLast?_append, hlast, some_or]

/-- Unless the last record has the last epoch, the sum in the source does not
wrap. -/
theorem extends_of_publish (h : Tracks state history)
    (hroom : ∀ last, history.records.getLast? = some last → last.epoch.toNat + 1 < 2 ^ 64)
    (hplace : state.transitions.entries = [] ∨ ∃ activation last,
        state.transitions.lastKeyValue = some (activation, last) ∧
        (state.clamp record).epoch = last.epoch + 1 ∧
        activation < (state.clamp record).activationTempoBlock) :
    Extends state (state.clamp record) := by
  rcases hplace with hempty | ⟨activation, last, hlast, hnext, hlater⟩
  · refine ⟨by simp [hempty], fun _ => by simp [clamp, hempty], ?_⟩
    intro last hlast
    simp [values, hempty] at hlast
  · refine ⟨fun e he => (le_last hlast he).trans_lt hlater,
      fun hempty => ?_, fun last' hlast' => ?_⟩
    · simp [lastKeyValue, hempty] at hlast
    · have hvalue := values_getLast? hlast
      obtain rfl : last = last' := some.inj (hvalue.symm.trans hlast')
      have hkey : activation = last.activationTempoBlock := h.keyed _ (mem_of_getLast? hlast)
      refine ⟨?_, hkey ▸ hlater⟩
      rw [hnext, UInt64.toNat_add]
      exact Nat.mod_eq_of_lt (hroom last (h.records_getLast? hvalue))

end Tracks

/-- A record that is not new is retained already, or has the epoch of the only
one that is. -/
theorem publish_repeated [DecidableEq K] {state state' : LeadershipScheduleState K}
    {record : LeadershipState K} (h : state.publish record = .ok (false, state')) :
    record ∈ state.transitions.values ∨ state.transitions.values.length = 1 ∧
      ∃ last, state.transitions.values.getLast? = some last ∧ last.epoch = record.epoch := by
  by_cases hempty : state.transitions.entries = []
  · simp [publish, get?, lastKeyValue, hempty] at h
  · have hclamp : state.clamp record = record := by simp [clamp, hempty]
    unfold publish at h
    rw [hclamp] at h
    cases hget : state.transitions.get? record.activationTempoBlock with
    | some existing =>
      simp only [hget] at h
      split_ifs at h with hsame
      left
      obtain ⟨entry, hentry, hvalue⟩ := map_eq_some_iff.mp hget
      rw [← hsame, ← hvalue]
      exact mem_map_of_mem (mem_of_find?_eq_some hentry)
    | none =>
      simp only [hget] at h
      cases hlast : state.transitions.lastKeyValue with
      | none => simp [hlast] at h
      | some entry =>
        obtain ⟨activation, last⟩ := entry
        simp only [hlast] at h
        split_ifs at h with hepoch hagain hnext hback
        · exact .inr ⟨(length_map Prod.snd).trans hagain.2.2, last, Tracks.values_getLast? hlast,
            hepoch.symm⟩
        · simp at h

namespace ScheduleRun

variable [DecidableEq K] {run : ScheduleRun K}

/-- What a published record does to a run. -/
theorem publish_eq (run : ScheduleRun K) (record : LeadershipState K) :
    run.publish record = run ∨ run.publish record =
        ⟨run.state.append (run.state.clamp record), run.history.accept record⟩ ∧
      (run.state.transitions.entries = [] ∨ ∃ activation last,
        run.state.transitions.lastKeyValue = some (activation, last) ∧
        (run.state.clamp record).epoch = last.epoch + 1 ∧
        activation < (run.state.clamp record).activationTempoBlock) := by
  unfold ScheduleRun.publish
  cases hpublish : run.state.publish record with
  | error e => exact .inl rfl
  | ok answer =>
    obtain ⟨appended, state'⟩ := answer
    rcases publish_cases hpublish with ⟨rfl, rfl⟩ | ⟨rfl, rfl, hplace⟩
    · exact .inl rfl
    · exact .inr ⟨rfl, hplace⟩

theorem installForcedRecovery_eq (run : ScheduleRun K) (d : Directive K) :
    run.installForcedRecovery d = run ∨ run.state.forcedRecovery = none ∧
      run.installForcedRecovery d = ⟨maybeBoundForcedRecovery
        { run.state with forcedRecovery := some d.opened }, run.history.direct d⟩ := by
  unfold ScheduleRun.installForcedRecovery
  cases hinstall : run.state.installForcedRecovery d.epoch d.leader
      d.recoveryBlockHash d.recoveryStartTempoBlock with
  | error e => exact .inl rfl
  | ok answer =>
    obtain ⟨installed, state'⟩ := answer
    rcases installForcedRecovery_cases hinstall with ⟨rfl, rfl⟩ | ⟨rfl, hnone, rfl⟩
    · exact .inl rfl
    · exact .inr ⟨hnone, rfl⟩

/-- No accepted record with the last epoch is followed by another. -/
def EpochsFit (history : LeadershipHistory K) : Prop :=
  ∀ r ∈ history.records.dropLast, r.epoch.toNat + 1 < 2 ^ 64

/-- Induction over the calls: what was accepted before the last one fits if
everything does. -/
theorem after_tracks {calls : List (ScheduleCall K)} (hfit : EpochsFit (after calls).history) :
    Tracks (after calls).state (after calls).history := by
  induction calls using reverseRecOn with
  | nil => exact Tracks.initial
  | append_singleton calls call ih =>
    have hstep : after (calls ++ [call]) = (after calls).step call := foldl_concat ..
    rw [hstep] at hfit ⊢
    cases call with
    | publish record =>
      rw [step] at hfit ⊢
      rcases publish_eq (after calls) record with heq | ⟨heq, hplace⟩ <;> rw [heq] at hfit ⊢
      · exact ih hfit
      · have hall : ∀ r ∈ (after calls).history.records, r.epoch.toNat + 1 < 2 ^ 64 := by
          simpa [EpochsFit, accept] using hfit
        have htracks := ih fun r hr => hall r (mem_of_mem_dropLast hr)
        exact htracks.append (htracks.extends_of_publish
          (fun last hlast => hall last (mem_of_getLast? hlast)) hplace)
    | installForcedRecovery d =>
      rw [step] at hfit ⊢
      rcases installForcedRecovery_eq (after calls) d with heq | ⟨hnone, heq⟩ <;>
        rw [heq] at hfit ⊢
      · exact ih hfit
      · exact (ih hfit).install hnone d
    | recordAppliedAnchor tempoAnchor => exact (ih hfit).recordAppliedAnchor tempoAnchor

/-- After any calls, the retained transitions are consecutive and the
schedule names, for every block from the applied one on, the leader the full
history names, unless a transition was accepted after the last epoch. -/
theorem leadership_transparent (calls : List (ScheduleCall K))
    (hfit : EpochsFit (after calls).history) :
    (after calls).state.transitions.values.IsChain Succeeds ∧ ∀ anchor,
        (∀ applied, (after calls).state.appliedAnchor = some applied → applied ≤ anchor) →
        (after calls).state.leaderFor anchor = (after calls).history.leaderFor anchor := by
  have htracks := after_tracks hfit
  refine ⟨?_, fun anchor hanchor => htracks.leaderFor hanchor⟩
  obtain ⟨dropped, hrecords, -⟩ := htracks.retained
  have hordered := htracks.ordered
  rw [hrecords] at hordered
  exact hordered.right_of_append

/-! Publishing again. -/

theorem step_keyed (h : Keyed run.state.transitions) (call : ScheduleCall K) :
    Keyed (run.step call).state.transitions := by
  cases call with
  | publish record =>
    rw [step]
    rcases publish_eq run record with heq | ⟨heq, -⟩ <;> rw [heq]
    · exact h
    · exact h.append _
  | installForcedRecovery d =>
    rw [step]
    rcases installForcedRecovery_eq run d with heq | ⟨-, heq⟩ <;> rw [heq]
    · exact h
    · rw [(maybeBound_cases _).1]
      exact h
  | recordAppliedAnchor tempoAnchor => exact (Tracks.pruned_split h _).1

theorem after_keyed (calls : List (ScheduleCall K)) : Keyed (after calls).state.transitions :=
  foldlRecOn (motive := fun run : ScheduleRun K => Keyed run.state.transitions) calls step
    (by simp [Keyed, initial, uninitialized]) fun _ h call _ => step_keyed h call

/-- A transition whose record is retained as it was stored is known again when
it is retained as it was published, or alone.  It is not in one case: the first
transition was stored at block zero, and others followed. -/
theorem republish_retained (before later : List (ScheduleCall K)) (record : LeadershipState K)
    (hretained : (after before).state.clamp record ∈
      (after (before ++ .publish record :: later)).state.transitions.values) :
    (after (before ++ .publish record :: later)).state.publish record =
        .ok (false, (after (before ++ .publish record :: later)).state) ↔
      record ∈ (after (before ++ .publish record :: later)).state.transitions.values ∨
        (after (before ++ .publish record :: later)).state.transitions.values.length = 1 := by
  generalize hstate : (after (before ++ .publish record :: later)).state = state at *
  have hkeyed : Keyed state.transitions := hstate ▸ after_keyed _
  have hlater : state.clamp record = record := by
    rw [clamp, if_neg]
    simpa [values] using ne_nil_of_mem hretained
  refine ⟨fun h => (publish_repeated h).imp id And.left, fun hknown => ?_⟩
  rw [LeadershipScheduleState.publish, hlater]
  by_cases hsame : record ∈ state.transitions.values
  · obtain ⟨⟨activation, _⟩, hentry, heq⟩ := mem_map.mp hsame
    obtain rfl : activation = record.activationTempoBlock := heq ▸ hkeyed _ hentry
    simpa [get?_eq_some.mpr hentry] using heq
  · -- stored at block zero, and alone
    obtain ⟨⟨activation, stored⟩, hentries⟩ := length_eq_one_iff.mp
      ((length_map Prod.snd).symm.trans (hknown.resolve_left hsame))
    have hvalues : state.transitions.values = [stored] := by rw [values, hentries]; rfl
    rw [hvalues, mem_singleton] at hretained hsame
    obtain rfl : activation = stored.activationTempoBlock := hkeyed _ (hentries ▸ mem_cons_self)
    have hzero : stored = { record with activationTempoBlock := 0 } := by
      rw [clamp] at hretained
      split at hretained
      · exact hretained.symm
      · exact absurd hretained hsame
    have hmoved : ¬0 = record.activationTempoBlock := fun heq => hsame (by rw [hzero, heq])
    simp [get?, lastKeyValue, hentries, hzero, hmoved]

/-- The third of these transitions is known by its own block, the first only
at block zero. -/
theorem republish_retained_third :
    (after [.publish ⟨1, 5, 7⟩, .publish ⟨2, 6, 10⟩, .publish ⟨3, 5, 12⟩]).state.publish
        (⟨3, 5, 12⟩ : LeadershipState Nat) =
      .ok (false, (after [.publish ⟨1, 5, 7⟩, .publish ⟨2, 6, 10⟩, .publish ⟨3, 5, 12⟩]).state) :=
  (republish_retained [.publish ⟨1, 5, 7⟩, .publish ⟨2, 6, 10⟩] [] ⟨3, 5, 12⟩
    (by decide)).mpr (.inl (by decide))

theorem republished_first_refused :
    let first : LeadershipState Nat := ⟨1, 5, 7⟩
    let state := (after [.publish first, .publish ⟨2, 6, 10⟩]).state
    (∃ accepted, uninitialized.publish first = .ok (true, accepted)) ∧
      uninitialized.clamp first ∈ state.transitions.values ∧
      state.publish first = .error (.nonContiguousEpoch 2 1) :=
  ⟨⟨_, rfl⟩, by decide, rfl⟩

/-- Transitions from the first epoch on, a recovery by node 9 after the chain
passed the third, and the transition that ends it. -/
def sampleCalls : List (ScheduleCall Nat) :=
  [.publish ⟨0, 5, 0⟩, .publish ⟨1, 6, 10⟩, .publish ⟨2, 5, 12⟩,
    .recordAppliedAnchor 14, .installForcedRecovery ⟨3, 9, 0, 15⟩,
    .publish ⟨3, 6, 20⟩, .recordAppliedAnchor 16]

theorem leadership_transparent_recovered :
    (after sampleCalls).state.transitions.values = [⟨1, 6, 10⟩, ⟨2, 5, 12⟩, ⟨3, 6, 20⟩] ∧
      (after sampleCalls).state.leaderFor 17 = some ⟨3, 9, 15⟩ ∧
      (after sampleCalls).history.leaderFor 17 = some ⟨3, 9, 15⟩ := by
  have hfit : EpochsFit (after sampleCalls).history := by
    unfold EpochsFit
    decide
  have happlied : (after sampleCalls).state.appliedAnchor = some 16 := by
    decide
  have htransparent := (leadership_transparent sampleCalls hfit).2 17
    (by rw [happlied]; rintro applied ⟨⟩; decide)
  have hhistory : (after sampleCalls).history.leaderFor 17 = some ⟨3, 9, 15⟩ := by decide
  exact ⟨by decide, htransparent.trans hhistory, hhistory⟩

/-- The last epoch is followed by epoch zero.  The records are then not
consecutive, and once the first is dropped a recovery is in force that it had
ended. -/
def wrappingCalls : List (ScheduleCall Nat) :=
  [.publish ⟨18446744073709551615, 5, 7⟩, .publish ⟨0, 6, 10⟩]

theorem leadership_wraps :
    let calls := wrappingCalls ++
      [.publish ⟨1, 7, 12⟩, .recordAppliedAnchor 14, .installForcedRecovery ⟨5, 9, 0, 15⟩]
    ¬(after wrappingCalls).state.transitions.values.IsChain Succeeds ∧
      (after calls).state.appliedAnchor = some 14 ∧
      (after calls).state.leaderFor 17 = some ⟨5, 9, 15⟩ ∧
      (after calls).history.leaderFor 17 = some ⟨1, 7, 12⟩ := by
  refine ⟨fun h => ?_, by decide, by decide, by decide⟩
  have hvalues : (after wrappingCalls).state.transitions.values =
      [⟨18446744073709551615, 5, 0⟩, ⟨0, 6, 10⟩] := by decide
  rw [hvalues, isChain_pair] at h
  cases h.1

end ScheduleRun

end Tempo.ZoneNode
