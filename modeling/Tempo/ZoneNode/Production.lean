/-
Who may produce.  A node learns the portal's leaders from the snapshot at its
checkpoint and from the transitions of the blocks it ingests, maps them to the
keys of the manifest, and fences its own production at the first Tempo block
it does not own.
-/
import Tempo.ZoneNode.LeadershipHistory
import Tempo.ZoneNode.ZoneChain

namespace Tempo.ZoneNode

universe u

variable {H : Type} {K : Type u}

structure ManifestNode (K : Type u) where
  ed25519PublicKey : K
  /-- Absent for nodes that only serve RPC. -/
  secp256k1Address : Option Address

structure ZoneManifest (K : Type u) where
  nodes : List (ManifestNode K)
  historicalLeaders : List (Address × K)

namespace ZoneManifest

def nodeBySecp256k1Address (manifest : ZoneManifest K) (a : Address) : Option (ManifestNode K) :=
  manifest.nodes.find? fun node => node.secp256k1Address = some a

/-- Active nodes first, then identities kept for replaying history. -/
def leaderEd25519BySecp256k1Address (manifest : ZoneManifest K) (a : Address) : Option K :=
  ((manifest.nodeBySecp256k1Address a).map (·.ed25519PublicKey)).or
    ((manifest.historicalLeaders.find? fun entry => entry.1 = a).map Prod.snd)

end ZoneManifest

inductive EngineExit where
  | cancelled
  | demoted (tempoAnchor : Nat) (epoch : UInt64)
  | fenced (tempoAnchor : Nat)
  deriving DecidableEq, Repr

structure ProductionPermit (K : Type u) where
  schedule : LeadershipScheduleState K
  localEd25519PublicKey : K

/-- `none` authorizes a block importing `tempoAnchor`. -/
def ProductionPermit.check [DecidableEq K] (permit : ProductionPermit K)
    (tempoAnchor : Nat) : Option EngineExit :=
  match permit.schedule.leaderFor tempoAnchor with
  | none => some (.fenced tempoAnchor)
  | some record =>
    if record.leader = permit.localEd25519PublicKey then none
    else some (.demoted tempoAnchor record.epoch)

/-- The front of the queue, and the headers to import without work if there
are any. -/
structure AvailableTempoImport (H : Type) where
  l1Block : L1BlockDeposits H
  checkpointHeaders : List (SealedHeader H)

namespace AvailableTempoImport

/-- The import of the block produced from it. -/
def tempoImport (available : AvailableTempoImport H) : TempoImport H :=
  if h : available.checkpointHeaders = [] then
    .full available.l1Block.header
  else .checkpointOnly available.checkpointHeaders h

/-- The first header the permit stops at, with its index. -/
def firstUnowned [DecidableEq K] (permit : ProductionPermit K) (index : Nat) :
    List (SealedHeader H) → Option (Nat × EngineExit)
  | [] => none
  | header :: rest =>
    match permit.check header.number with
    | some exit => some (index, exit)
    | none => firstUnowned permit (index + 1) rest

/-- Fence production at the first unowned header, splitting a batch of
checkpoints there. -/
def applyPermit [DecidableEq K] (available : AvailableTempoImport H) (permit : ProductionPermit K) :
    Except EngineExit (AvailableTempoImport H) :=
  match permit.check available.l1Block.header.number with
  | some exit => .error exit
  | none =>
    match firstUnowned permit 0 available.checkpointHeaders with
    | none => .ok available
    | some (0, exit) => .error exit
    | some (index + 1, _) =>
      .ok
        { available with
          checkpointHeaders := available.checkpointHeaders.take (index + 1) }

end AvailableTempoImport

inductive SinkError (K : Type u) where
  | tooManyTransitions (count : Nat)
  | unknownLeader (leader : Address) (epoch : UInt64)
  | noLeader (snapshotAnchor : Nat)
  | publish (error : PublishError K)

/-- Publish a leader under the key the manifest has for it. -/
def publishLeader [DecidableEq K] (schedule : LeadershipScheduleState K)
    (key : Option K) (leader : Address) (epoch : UInt64) (activation : Nat) :
    Except (SinkError K) (LeadershipScheduleState K) :=
  match key with
  | none => .error (.unknownLeader leader epoch)
  | some key =>
    match schedule.publish ⟨epoch, key, activation⟩ with
    | .error e => .error (.publish e)
    | .ok (_, schedule) => .ok schedule

/-- Apply an observed transition.  Historical identities count only for
transitions that were final before the process started. -/
def applyLeaderTransition [DecidableEq K] (manifest : ZoneManifest K)
    (historicalReplayThrough : Nat) (schedule : LeadershipScheduleState K)
    (transition : LeaderTransition) : Except (SinkError K) (LeadershipScheduleState K) :=
  publishLeader schedule (if transition.activationTempoBlock ≤ historicalReplayThrough then
      manifest.leaderEd25519BySecp256k1Address transition.newLeader else
      (manifest.nodeBySecp256k1Address transition.newLeader).map (·.ed25519PublicKey))
    transition.newLeader transition.epoch transition.activationTempoBlock

/-- The leadership part of ingesting a block, done before it is enqueued. -/
def ingestLeadership [DecidableEq K] (manifest : ZoneManifest K)
    (historicalReplayThrough : Nat) (schedule : LeadershipScheduleState K)
    (events : L1PortalEvents) : Except (SinkError K) (LeadershipScheduleState K) :=
  match events.finalLeaderTransition with
  | none => .error (.tooManyTransitions events.leaderTransitions.length)
  | some none => .ok schedule
  | some (some transition) =>
    applyLeaderTransition manifest historicalReplayThrough schedule transition

/-- The portal's leader fields at a block; a portal that is not deployed has
no fields, one without leader the zero address. -/
structure PortalSnapshot where
  leader : Address
  epoch : UInt64
  activation : Nat

def seedLeadershipSchedule [DecidableEq K] (manifest : ZoneManifest K)
    (portalAt : Nat → Option PortalSnapshot) (snapshotAnchor : Nat)
    (schedule : LeadershipScheduleState K) : Except (SinkError K) (LeadershipScheduleState K) :=
  match if snapshotAnchor = 0 then none else portalAt snapshotAnchor with
  | none => .ok schedule
  | some portal =>
    if portal.leader = 0 then .error (.noLeader snapshotAnchor)
    else
      publishLeader schedule (manifest.leaderEd25519BySecp256k1Address portal.leader)
        portal.leader portal.epoch portal.activation

/-- The last transition up to a block. -/
def latestTransition (transition : Nat → Option LeaderTransition) : Nat → Option LeaderTransition
  | 0 => transition 0
  | n + 1 => (transition (n + 1)).or (latestTransition transition n)

/-- The leadership of a zone on finalized Tempo: at most one transition a
block, active at the block that records it, with consecutive epochs. -/
structure PortalLeaders (l1 : FinalizedL1 H) where
  transition : Nat → Option LeaderTransition
  events_eq : ∀ n, (l1.block n).events.leaderTransitions = (transition n).toList
  activation_eq : ∀ n t, transition n = some t → t.activationTempoBlock = n
  /-- The Tempo genesis has no receipts. -/
  genesis_eq : transition 0 = none
  epoch_succ : ∀ n previous t, latestTransition transition n = some previous →
      transition (n + 1) = some t → t.epoch.toNat = previous.epoch.toNat + 1
  /-- Whether the portal has code at a block. -/
  deployed : Nat → Bool

namespace PortalLeaders

variable {l1 : FinalizedL1 H} (portal : PortalLeaders l1)

/-- The portal's leader at a block. -/
def leaderAt (n : Nat) : Option LeaderTransition :=
  latestTransition portal.transition n

/-- What a node reads from the portal at a block. -/
def snapshot (n : Nat) : Option PortalSnapshot :=
  match portal.leaderAt n with
  | some t => some ⟨t.newLeader, t.epoch, t.activationTempoBlock⟩
  | none => if portal.deployed n then some ⟨0, 0, 0⟩ else none

/-- The transition before which the portal had no leader. -/
def First (t : LeaderTransition) : Prop :=
  ∃ n, portal.leaderAt n = none ∧ portal.transition (n + 1) = some t

/-- The transition a block is led under: the portal's, and the first one for
the blocks before it. -/
def Leads (n : Nat) (t : LeaderTransition) : Prop :=
  portal.leaderAt n = some t ∨ portal.leaderAt n = none ∧ portal.First t

theorem leaderAt_zero : portal.leaderAt 0 = none := portal.genesis_eq

theorem leaderAt_succ (n : Nat) :
    portal.leaderAt (n + 1) = (portal.transition (n + 1)).or (portal.leaderAt n) := rfl

variable {t t' : LeaderTransition}

theorem leaderAt_eq_none_of_le {m n : Nat} (hle : m ≤ n)
    (h : portal.leaderAt n = none) : portal.leaderAt m = none := by
  induction n, hle using Nat.le_induction with
  | base => exact h
  | succ n hle ih =>
    rw [leaderAt_succ, Option.or_eq_none_iff] at h
    exact ih h.2

theorem First.unique (h : portal.First t) (h' : portal.First t') : t = t' := by
  obtain ⟨n, hnone, hnext⟩ := h
  obtain ⟨m, hnone', hnext'⟩ := h'
  have hset : ∀ {k u}, portal.transition (k + 1) = some u → portal.leaderAt (k + 1) ≠ none := by
    intro k u hk
    rw [leaderAt_succ, hk]
    exact Option.some_ne_none u
  have hnm : n = m := by
    rcases lt_trichotomy n m with hlt | heq | hlt
    · exact absurd (portal.leaderAt_eq_none_of_le hlt hnone') (hset hnext)
    · exact heq
    · exact absurd (portal.leaderAt_eq_none_of_le hlt hnone) (hset hnext')
  subst hnm
  exact Option.some.inj (hnext.symm.trans hnext')

/-- A block is led under one transition. -/
theorem Leads.unique {n : Nat} (h : portal.Leads n t) (h' : portal.Leads n t') : t = t' := by
  rcases h with h | ⟨h, hfirst⟩
  · rcases h' with h' | ⟨h', -⟩
    · exact Option.some.inj (h.symm.trans h')
    · exact absurd (h.symm.trans h') (Option.some_ne_none t)
  · rcases h' with h' | ⟨-, hfirst'⟩
    · exact absurd (h'.symm.trans h) (Option.some_ne_none t')
    · exact First.unique portal hfirst hfirst'

theorem finalLeaderTransition (n : Nat) :
    (l1.block n).events.finalLeaderTransition = some (portal.transition n) := by
  rw [L1PortalEvents.finalLeaderTransition, portal.events_eq]
  cases portal.transition n with
  | none => rfl
  | some t => rfl

end PortalLeaders

variable {manifest : ZoneManifest K} {schedule schedule' : LeadershipScheduleState K}

theorem publishLeader_ok [DecidableEq K] {key? : Option K} {leader : Address}
    {epoch : UInt64} {activation : Nat} (h : publishLeader schedule key? leader epoch activation =
      .ok schedule') :
    ∃ key appended, key? = some key ∧ schedule.publish ⟨epoch, key, activation⟩ =
        .ok (appended, schedule') := by
  cases key? with
  | none => cases h
  | some key =>
    rw [publishLeader] at h
    cases hpublish : schedule.publish ⟨epoch, key, activation⟩ with
    | error e =>
      rw [hpublish] at h
      cases h
    | ok answer =>
      rw [hpublish] at h
      cases h
      exact ⟨key, answer.1, rfl, hpublish⟩

/-- What an applied transition does: the portal's leader is published under
its key. -/
theorem applyLeaderTransition_ok [DecidableEq K] {replay : Nat} {t : LeaderTransition}
    (h : applyLeaderTransition manifest replay schedule t = .ok schedule') :
    ∃ key appended, manifest.leaderEd25519BySecp256k1Address t.newLeader = some key ∧
        schedule.publish ⟨t.epoch, key, t.activationTempoBlock⟩ = .ok (appended, schedule') := by
  obtain ⟨key, appended, hkey, hpublish⟩ := publishLeader_ok h
  refine ⟨key, appended, ?_, hpublish⟩
  split_ifs at hkey with hreplay
  · exact hkey
  -- an active node's key is also found among active and historical ones
  · rw [ZoneManifest.leaderEd25519BySecp256k1Address, hkey]
    rfl

end Tempo.ZoneNode
