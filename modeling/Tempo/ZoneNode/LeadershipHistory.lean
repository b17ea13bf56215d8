/-
What the leadership schedule answers, stated without pruning: all accepted
transitions and all accepted recovery directives are kept, and the leader of a
block is read off them.
-/
import Mathlib.Data.List.Chain
import Mathlib.Data.UInt
import Tempo.ZoneNode.Leadership

namespace Tempo.ZoneNode

universe u

variable {K : Type u}

/-- A recovery as the operator declares it. -/
structure Directive (K : Type u) where
  epoch : UInt64
  leader : K
  recoveryBlockHash : B256
  recoveryStartTempoBlock : Nat
  deriving DecidableEq, Repr

def Directive.record (d : Directive K) : LeadershipState K where
  epoch := d.epoch
  leader := d.leader
  activationTempoBlock := d.recoveryStartTempoBlock

/-- The recovery a directive starts. -/
def Directive.opened (d : Directive K) : ForcedRecoveryState K where
  epoch := d.epoch
  leader := d.leader
  recoveryBlockHash := d.recoveryBlockHash
  recoveryStartTempoBlock := d.recoveryStartTempoBlock
  portalActivationTempoBlock := none

def ForcedRecoveryState.directive (recovery : ForcedRecoveryState K) : Directive K where
  epoch := recovery.epoch
  leader := recovery.leader
  recoveryBlockHash := recovery.recoveryBlockHash
  recoveryStartTempoBlock := recovery.recoveryStartTempoBlock

/-- Everything ever accepted: transitions in order, directives with the
newest first. -/
structure LeadershipHistory (K : Type u) where
  records : List (LeadershipState K)
  directives : List (Directive K)

namespace LeadershipHistory

def empty : LeadershipHistory K :=
  ⟨[], []⟩

/-- The first record counts from block zero. -/
def accept (history : LeadershipHistory K) (record : LeadershipState K) : LeadershipHistory K :=
  { history with
    records := history.records ++
      [if history.records.isEmpty then
        { record with activationTempoBlock := 0 } else record] }

def direct (history : LeadershipHistory K) (d : Directive K) : LeadershipHistory K :=
  { history with directives := d :: history.directives }

/-- The accepted record with the greatest activation up to `anchor`. -/
def scheduledFor (history : LeadershipHistory K) (anchor : Nat) : Option (LeadershipState K) :=
  (history.records.filter (·.activationTempoBlock ≤ anchor)).argmax (·.activationTempoBlock)

/-- Where a recovery ends: at the activation of the first accepted transition
whose epoch is at least its own. -/
def boundary (history : LeadershipHistory K) (d : Directive K) : Option Nat :=
  (history.records.find? fun r => d.epoch ≤ r.epoch).map (·.activationTempoBlock)

def governs (history : LeadershipHistory K) (anchor : Nat) (d : Directive K) : Bool :=
  d.recoveryStartTempoBlock ≤ anchor && (history.boundary d).all (anchor < ·)

def leaderFor (history : LeadershipHistory K) (anchor : Nat) : Option (LeadershipState K) :=
  ((history.directives.find? (history.governs anchor)).map
    Directive.record).or (history.scheduledFor anchor)

end LeadershipHistory

inductive ScheduleCall (K : Type u) where
  | publish (record : LeadershipState K)
  | installForcedRecovery (directive : Directive K)
  | recordAppliedAnchor (tempoAnchor : Nat)

/-- A schedule together with what it has accepted. -/
structure ScheduleRun (K : Type u) where
  state : LeadershipScheduleState K
  history : LeadershipHistory K

namespace ScheduleRun

variable [DecidableEq K]

def initial : ScheduleRun K :=
  ⟨.uninitialized, .empty⟩

def publish (run : ScheduleRun K) (record : LeadershipState K) : ScheduleRun K :=
  match run.state.publish record with
  | .ok (true, state) => ⟨state, run.history.accept record⟩
  | .ok (false, state) => ⟨state, run.history⟩
  | .error _ => run

def installForcedRecovery (run : ScheduleRun K) (d : Directive K) : ScheduleRun K :=
  match run.state.installForcedRecovery d.epoch d.leader d.recoveryBlockHash
      d.recoveryStartTempoBlock with
  | .ok (true, state) => ⟨state, run.history.direct d⟩
  | .ok (false, state) => ⟨state, run.history⟩
  | .error _ => run

def step (run : ScheduleRun K) : ScheduleCall K → ScheduleRun K
  | .publish record => run.publish record
  | .installForcedRecovery d => run.installForcedRecovery d
  | .recordAppliedAnchor tempoAnchor =>
    ⟨run.state.recordAppliedAnchor tempoAnchor, run.history⟩

def after (calls : List (ScheduleCall K)) : ScheduleRun K :=
  calls.foldl step initial

end ScheduleRun

/-- Consecutive transitions: the epoch grows by one and the activation
grows. -/
def Succeeds (previous next : LeadershipState K) : Prop :=
  next.epoch.toNat = previous.epoch.toNat + 1 ∧
    previous.activationTempoBlock < next.activationTempoBlock

/-- An earlier transition: smaller epoch and smaller activation. -/
def Precedes (earlier later : LeadershipState K) : Prop :=
  earlier.epoch < later.epoch ∧ earlier.activationTempoBlock < later.activationTempoBlock

instance : Trans (Precedes (K := K)) Precedes Precedes :=
  ⟨fun h h' => ⟨UInt64.lt_trans h.1 h'.1, h.2.trans h'.2⟩⟩

theorem Succeeds.precedes {previous next : LeadershipState K}
    (h : Succeeds previous next) : Precedes previous next := by
  refine ⟨UInt64.lt_iff_toNat_lt.mpr ?_, h.2⟩
  rw [h.1]
  exact Nat.lt_succ_self _

theorem pairwise_precedes {l : List (LeadershipState K)}
    (h : l.IsChain Succeeds) : l.Pairwise Precedes := (h.imp fun _ _ => Succeeds.precedes).pairwise

namespace LeadershipScheduleState

/-- Every transition stands under its own activation. -/
def Keyed (transitions : SortedMap Nat (LeadershipState K)) : Prop :=
  ∀ e ∈ transitions.entries, e.1 = e.2.activationTempoBlock

variable {transitions : SortedMap Nat (LeadershipState K)}
  {state state' : LeadershipScheduleState K}

theorem Keyed.map_filter (h : Keyed transitions) (p : Nat → Bool) :
    (transitions.entries.filter fun e => p e.1).map Prod.snd =
      transitions.values.filter fun r => p r.activationTempoBlock := by
  rw [SortedMap.values, List.filter_map]
  congr 1
  refine List.filter_congr fun e he => ?_
  change p e.1 = p e.2.activationTempoBlock
  rw [h e he]

/-- The record a schedule without recovery names for a block. -/
theorem Keyed.floor (h : Keyed transitions) (anchor : Nat) :
    (transitions.floor anchor).map Prod.snd = (transitions.values.filter
        (·.activationTempoBlock ≤ anchor)).getLast? := by
  rw [SortedMap.floor, ← List.getLast?_map]
  exact congrArg List.getLast? (h.map_filter (· ≤ anchor))

/-- What bounding a recovery can do. -/
theorem maybeBound_cases (state : LeadershipScheduleState K) :
    (maybeBoundForcedRecovery state).transitions = state.transitions ∧
    (maybeBoundForcedRecovery state).appliedAnchor = state.appliedAnchor ∧
    ((maybeBoundForcedRecovery state).forcedRecovery = state.forcedRecovery ∧
        (∀ f, state.forcedRecovery = some f → f.portalActivationTempoBlock = none →
          ∀ r ∈ state.transitions.values, ¬f.epoch ≤ r.epoch) ∨
      ∃ f r, state.forcedRecovery = some f ∧ f.portalActivationTempoBlock = none ∧
        state.transitions.values.find? (fun r => f.epoch ≤ r.epoch) = some r ∧
        (maybeBoundForcedRecovery state).forcedRecovery = some
          { f with
            portalActivationTempoBlock := some r.activationTempoBlock }) := by
  unfold maybeBoundForcedRecovery
  cases hf : state.forcedRecovery with
  | none => simp [hf]
  | some f =>
    cases hbound : f.portalActivationTempoBlock with
    | some p => simp [ForcedRecoveryState.isBounded, hbound, hf]
    | none =>
      have hopen : f.isBounded = false := by
        simp [ForcedRecoveryState.isBounded, hbound]
      simp only [hopen, Bool.false_eq_true, ↓reduceIte]
      cases hfind : state.transitions.values.find? (fun r => f.epoch ≤ r.epoch) with
      | none =>
        refine ⟨rfl, rfl, .inl ⟨hf, ?_⟩⟩
        rintro f' ⟨⟩ - r hr
        simpa using List.find?_eq_none.mp hfind r hr
      | some r =>
        exact ⟨rfl, rfl, .inr ⟨f, r, rfl, hbound, hfind, rfl⟩⟩

theorem Keyed.append (h : Keyed state.transitions) (record : LeadershipState K) :
    Keyed (state.append record).transitions := by
  rw [LeadershipScheduleState.append, (maybeBound_cases _).1]
  intro e he
  rcases SortedMap.mem_insertEntry he with rfl | he
  · rfl
  · exact h e he

/-- What a published record can do: nothing, or be appended after the last
one with the next epoch. -/
theorem publish_cases [DecidableEq K] {record : LeadershipState K}
    {appended : Bool} (h : state.publish record = .ok (appended, state')) :
    (appended = false ∧ state' = state) ∨
      (appended = true ∧ state' = state.append (state.clamp record) ∧
        (state.transitions.entries = [] ∨ ∃ activation last,
            state.transitions.lastKeyValue = some (activation, last) ∧
            (state.clamp record).epoch = last.epoch + 1 ∧
            activation < (state.clamp record).activationTempoBlock)) := by
  unfold publish at h
  cases hget : state.transitions.get? (state.clamp record).activationTempoBlock with
  | some existing =>
    simp only [hget] at h
    split_ifs at h with hsame
    cases h
    exact .inl ⟨rfl, rfl⟩
  | none =>
    simp only [hget] at h
    cases hlast : state.transitions.lastKeyValue with
    | none =>
      simp only [hlast] at h
      cases h
      have hempty : state.transitions.entries = [] := List.getLast?_eq_none_iff.mp hlast
      exact .inr ⟨rfl, rfl, .inl hempty⟩
    | some entry =>
      obtain ⟨activation, last⟩ := entry
      simp only [hlast] at h
      split_ifs at h with hepoch hagain hnext hback
      · cases h
        exact .inl ⟨rfl, rfl⟩
      · cases h
        exact .inr ⟨rfl, rfl, .inr ⟨activation, last, rfl, not_not.mp hnext, not_le.mp hback⟩⟩

theorem installForcedRecovery_cases [DecidableEq K] {d : Directive K} {installed : Bool}
    (h : state.installForcedRecovery d.epoch d.leader d.recoveryBlockHash
      d.recoveryStartTempoBlock = .ok (installed, state')) :
    (installed = false ∧ state' = state) ∨ (installed = true ∧ state.forcedRecovery = none ∧
        state' = maybeBoundForcedRecovery { state with forcedRecovery := some d.opened }) := by
  unfold installForcedRecovery at h
  cases hf : state.forcedRecovery with
  | none =>
    simp only [hf] at h
    cases h
    exact .inr ⟨rfl, rfl, rfl⟩
  | some existing =>
    simp only [hf] at h
    split_ifs at h with hsame
    cases h
    exact .inl ⟨rfl, rfl⟩

end LeadershipScheduleState

end Tempo.ZoneNode
