/-
Which node of a zone may produce the block that imports a given Tempo block.
The schedule holds the leadership transitions observed on finalized Tempo,
drops those the local chain has passed, and carries at most one forced
recovery that overrides them for a while.
-/
import Mathlib.Algebra.Order.Ring.Nat
import Tempo.Library.SortedMap
import Tempo.Primitives.Address

namespace Tempo.ZoneNode

universe u

variable {K : Type u}

/-- Block numbers are 64-bit words; sums of them stop at the greatest one. -/
def saturatingAdd (a b : Nat) : Nat :=
  min (a + b) (2 ^ 64 - 1)

/-- One finalized leadership transition: `leader` is authorized from
`activationTempoBlock` on, until a later transition. -/
structure LeadershipState (K : Type u) where
  epoch : UInt64
  leader : K
  activationTempoBlock : Nat
  deriving DecidableEq, Repr

/-- An override of the schedule from `recoveryStartTempoBlock` until the next
finalized transition. -/
structure ForcedRecoveryState (K : Type u) where
  /-- Epoch expected for the next portal transition. -/
  epoch : UInt64
  leader : K
  recoveryBlockHash : B256
  recoveryStartTempoBlock : Nat
  portalActivationTempoBlock : Option Nat
  deriving DecidableEq, Repr

namespace ForcedRecoveryState

def isBounded (recovery : ForcedRecoveryState K) : Bool :=
  recovery.portalActivationTempoBlock.isSome

def leadershipRecordFor (recovery : ForcedRecoveryState K)
    (tempoAnchor : Nat) : Option (LeadershipState K) :=
  if tempoAnchor < recovery.recoveryStartTempoBlock ∨
      recovery.portalActivationTempoBlock.any (· ≤ tempoAnchor) then none
  else
    some
      { epoch := recovery.epoch
        leader := recovery.leader
        activationTempoBlock := recovery.recoveryStartTempoBlock }

end ForcedRecoveryState

structure LeadershipScheduleState (K : Type u) where
  /-- Retained transitions, by the block they activate at. -/
  transitions : SortedMap Nat (LeadershipState K)
  /-- Highest Tempo block imported by a locally canonical zone block. -/
  appliedAnchor : Option Nat
  forcedRecovery : Option (ForcedRecoveryState K)

inductive PublishError (K : Type u) where
  | conflictingTransition (activation : Nat) (existing record : LeadershipState K)
  | duplicateEpoch (epoch : UInt64) (retained activation : Nat)
  | nonContiguousEpoch (retained epoch : UInt64)
  | activationMovedBackwards (retained activation : Nat)

inductive RecoveryError where
  | conflictingDirective
  deriving DecidableEq, Repr

namespace LeadershipScheduleState

def uninitialized : LeadershipScheduleState K where
  transitions := .empty
  appliedAnchor := none
  forcedRecovery := none

def leaderFor (state : LeadershipScheduleState K) (tempoAnchor : Nat) :
    Option (LeadershipState K) :=
  let scheduled := (state.transitions.floor tempoAnchor).map Prod.snd
  let recovery :=
    state.forcedRecovery.bind fun r => r.leadershipRecordFor tempoAnchor
  recovery.or scheduled

/-- The first retained transition that answers an open recovery bounds it. -/
def maybeBoundForcedRecovery (state : LeadershipScheduleState K) : LeadershipScheduleState K :=
  match state.forcedRecovery with
  | none => state
  | some recovery =>
    if recovery.isBounded then state
    else
      match state.transitions.values.find? (fun record => recovery.epoch ≤ record.epoch) with
      | none => state
      | some record =>
        { state with
          forcedRecovery := some
            { recovery with
              portalActivationTempoBlock := some record.activationTempoBlock } }

/-- The first record counts from block zero: no other producer can exist
before it. -/
def clamp (state : LeadershipScheduleState K) (record : LeadershipState K) : LeadershipState K :=
  if state.transitions.entries.isEmpty then
    { record with activationTempoBlock := 0 }
  else record

def append (state : LeadershipScheduleState K) (record : LeadershipState K) :
    LeadershipScheduleState K :=
  maybeBoundForcedRecovery
    { state with
      transitions := state.transitions.insert record.activationTempoBlock record }

/-- Record an observed transition; the answer says whether it is new. -/
def publish [DecidableEq K] (state : LeadershipScheduleState K) (record : LeadershipState K) :
    Except (PublishError K) (Bool × LeadershipScheduleState K) :=
  let record := state.clamp record
  match state.transitions.get? record.activationTempoBlock with
  | some existing =>
    if existing = record then .ok (false, state)
    else
      .error (.conflictingTransition record.activationTempoBlock existing record)
  | none =>
    match state.transitions.lastKeyValue with
    | none => .ok (true, state.append record)
    | some (lastActivation, last) =>
      if record.epoch = last.epoch then
        -- the clamped first record seen again at its true activation
        if record.leader = last.leader ∧ lastActivation = 0 ∧
            state.transitions.entries.length = 1 then .ok (false, state)
        else
          .error (.duplicateEpoch record.epoch lastActivation record.activationTempoBlock)
      -- the sum wraps, as the sum of the source does
      else if record.epoch ≠ last.epoch + 1 then
        .error (.nonContiguousEpoch last.epoch record.epoch)
      else if record.activationTempoBlock ≤ lastActivation then
        .error (.activationMovedBackwards lastActivation record.activationTempoBlock)
      else .ok (true, state.append record)

def installForcedRecovery [DecidableEq K] (state : LeadershipScheduleState K)
    (recoveryEpoch : UInt64) (leader : K) (recoveryBlockHash : B256)
    (recoveryStartTempoBlock : Nat) : Except RecoveryError (Bool × LeadershipScheduleState K) :=
  match state.forcedRecovery with
  | some existing =>
    if existing.epoch = recoveryEpoch ∧ existing.leader = leader ∧
        existing.recoveryBlockHash = recoveryBlockHash ∧
        existing.recoveryStartTempoBlock = recoveryStartTempoBlock then
      .ok (false, state)
    else .error .conflictingDirective
  | none =>
    .ok (true, maybeBoundForcedRecovery
      { state with
        forcedRecovery := some
          { epoch := recoveryEpoch
            leader
            recoveryBlockHash
            recoveryStartTempoBlock
            portalActivationTempoBlock := none } })

/-- Drop what the checkpoint has passed.  The record governing the next block
stays, and so does its predecessor. -/
def pruned (transitions : SortedMap Nat (LeadershipState K))
    (applied : Nat) : SortedMap Nat (LeadershipState K) :=
  match transitions.floor (saturatingAdd applied 1) with
  | none => transitions
  | some (active, _) =>
    let keepFrom := ((transitions.below active).map Prod.fst).getD active
    transitions.retain fun activation => keepFrom ≤ activation

def recordAppliedAnchor (state : LeadershipScheduleState K)
    (tempoAnchor : Nat) : LeadershipScheduleState K :=
  let applied := (state.appliedAnchor.map (max · tempoAnchor)).getD tempoAnchor
  let recoveryCompleted := state.forcedRecovery.any fun recovery =>
    recovery.portalActivationTempoBlock.any (· ≤ applied)
  { transitions := pruned state.transitions applied
    appliedAnchor := some applied
    forcedRecovery :=
      if recoveryCompleted then none else state.forcedRecovery }

end LeadershipScheduleState

end Tempo.ZoneNode
