/-
The gas-relevant shape of replayed writes.  Gas, refunds and storage credits of
a write depend on which of the values at the start of the transaction, before
and after the write are zero.  A replayed change is applied to another value
than the recorded one, and nothing in the replay keeps it from emptying the
slot.  The shapes agree exactly when no slot that is changed by a difference
has lost what it held before or after that change when it was recorded.
-/
import Tempo.Replay.Equivalence

namespace Tempo

open SStoreResult

variable {parent : Slot → B256} {j₀ j₁ : Journal}

/-- Which values of a write are zero. -/
def SStoreResult.shape (r : SStoreResult) : Bool × Bool × Bool :=
  (decide (r.originalValue = 0), decide (r.presentValue = 0), decide (r.newValue = 0))

/-- The block's slot holds what it held in the parent state, or neither is
empty and what the slot has lost since is not a value that was recorded
around the change. -/
def Clear (parent state : Slot → B256) (slot : Slot) (value after : B256) : Prop :=
  state slot = parent slot ∨ parent slot ≠ 0 ∧ state slot ≠ 0 ∧
    value.toNat + (state slot).toNat ≠ (parent slot).toNat ∧
    after.toNat + (state slot).toNat ≠ (parent slot).toNat

/-- Every change by a difference that a recording holds is clear of zero. -/
def DeltasClear (parent state : Slot → B256) (actions : List StorageAction) : Prop :=
  ∀ action ∈ actions, ∀ slot value f after, action.delta = some (slot, value, f) →
    f value = some after → Clear parent state slot value after

/-- The run on the block stays at a constant distance from the recording, and
a slot at some distance is never empty in the recording. -/
structure Tracks (parent state : Slot → B256) (j₀ j₁ : Journal) : Prop where
  original₀ : j₀.original = parent
  original₁ : j₁.original = state
  distance : ∀ slot, ((j₁.present slot).toNat : Int) - (j₀.present slot).toNat =
    (state slot).toNat - (parent slot).toNat
  occupied : ∀ slot, state slot ≠ parent slot → parent slot ≠ 0 → j₀.present slot ≠ 0

namespace Tracks

variable {state : Slot → B256}

theorem start : Tracks parent state (.start parent) (.start state) :=
  ⟨rfl, rfl, fun _ => rfl, fun _ _ hne => hne⟩

variable {slot : Slot} (h : Tracks parent state j₀ j₁)
include h

theorem state_eq (hsame : j₁.present slot = j₀.present slot) : state slot = parent slot := by
  have hdistance := h.distance slot
  rw [hsame] at hdistance
  exact BitVec.eq_of_toNat_eq (by omega)

/-- Writes that keep the distance are tracked. -/
theorem sstore {value after : B256}
    (hdistance : (after.toNat : Int) - value.toNat = (state slot).toNat - (parent slot).toNat)
    (hoccupied : state slot ≠ parent slot → parent slot ≠ 0 → value ≠ 0) :
    Tracks parent state (j₀.sstore slot value) (j₁.sstore slot after) := by
  refine ⟨h.original₀, h.original₁, ?_, ?_⟩
  · intro s
    by_cases hs : s = slot
    · subst hs
      rw [(j₀.sstore_self s value).1, (j₁.sstore_self s after).1]
      exact hdistance
    · rw [(j₀.sstore_of_ne value hs).1, (j₁.sstore_of_ne after hs).1]
      exact h.distance s
  · intro s
    by_cases hs : s = slot
    · subst hs
      rw [(j₀.sstore_self s value).1]
      exact hoccupied
    · rw [(j₀.sstore_of_ne value hs).1]
      exact h.occupied s

end Tracks

namespace Transaction

variable {α : Type} {db : Cache} {c c' : TxChanges}

/-- The replay of an update tracks the recording. -/
theorem update_tracks {u : Update} {value after : B256}
    (hup : UpdateReplayed db parent c c' j₀ j₁ u value after)
    (htracks : Tracks parent (blockState db parent) j₀ j₁) :
    Tracks parent (blockState db parent) (j₀.sstore u.slot value) (j₁.sstore u.slot after) := by
  rcases hup.matching with ⟨hsame, rfl, -⟩ | ⟨action, hrec, hdelta, hocc, d, h0, h1⟩
  · -- an exact write: the slot is as recorded
    have hstate := htracks.state_eq hsame
    refine htracks.sstore ?_ fun hne => absurd hstate hne
    rw [hstate]
    omega
  · have hdistance := htracks.distance u.slot
    refine htracks.sstore (by omega) fun hne hparent => ?_
    exact hocc (htracks.occupied u.slot hne hparent)

/-- A replayed update has the recorded shape exactly when it is clear of
zero. -/
theorem update_shape {u : Update} {value after : B256}
    (hvalue : u.change (j₀.present u.slot) = .ok value)
    (hup : UpdateReplayed db parent c c' j₀ j₁ u value after)
    (htracks : Tracks parent (blockState db parent) j₀ j₁) :
    (j₁.sstoreResult u.slot after).shape = (j₀.sstoreResult u.slot value).shape ↔
      DeltasClear parent (blockState db parent) (u.record (j₀.present u.slot) value) := by
  unfold shape Journal.sstoreResult
  rw [htracks.original₀, htracks.original₁]
  rcases hup.matching with ⟨hsame, rfl, hexact⟩ | ⟨action, hrec, hdelta, hocc, d, h0, h1⟩
  · rw [htracks.state_eq hsame, hsame]
    refine iff_of_true rfl fun action haction slot value f after hdelta => ?_
    rw [hexact action haction] at hdelta
    cases hdelta
  · have hclear : DeltasClear parent (blockState db parent) (u.record (j₀.present u.slot) value) ↔
        Clear parent (blockState db parent) u.slot (j₀.present u.slot) value := by
      rw [hrec, DeltasClear, List.forall_mem_singleton, hdelta]
      constructor
      · intro h
        exact h _ _ _ _ rfl (by rw [hvalue]; rfl)
      · rintro h _ _ _ after ⟨⟩ hafter
        dsimp only at hafter
        rw [hvalue] at hafter
        cases hafter
        exact h
    rw [hclear, Clear]
    have hdistance := htracks.distance u.slot
    have hoccupied := htracks.occupied u.slot
    have hzero : (0 : B256).toNat = 0 := rfl
    simp only [Prod.mk.injEq, decide_eq_decide, BitVec.toNat_eq, hzero, ne_eq] at hocc hoccupied ⊢
    omega

theorem read_deltasClear {op : Access} (hread : op.update = none) (state : Slot → B256) :
    DeltasClear parent state (j₀.perform op).actions := by
  intro action haction slot value f after hdelta
  cases op with
  | sstore | sinc | sdec | executeFeeSwap => cases hread
  | sload | feeAmmLiquidityCheck | feeTokenBalanceCheck =>
    cases List.mem_singleton.mp haction
    cases hdelta

theorem writes_shape {t : Transaction α} {final : TxChanges}
    (hrep : Represents db parent c j₁) (hun : Untouched parent c j₀)
    (htracks : Tracks parent (blockState db parent) j₀ j₁)
    (hreplay : TxChanges.replayFrom db c (t.recording j₀) = .ok final) :
    (replayedWrites db c (t.recording j₀)).map shape = (t.writes j₀).map shape ↔
      DeltasClear parent (blockState db parent) (t.recording j₀) := by
  induction t generalizing c j₀ j₁ with
  | done a => exact iff_of_true rfl (List.forall_mem_nil _)
  | access op next ih =>
    rw [recording_access] at hreplay ⊢
    obtain ⟨c1, hfirst, hrest⟩ := replayFrom_append.mp hreplay
    rw [replayedWrites_append _ hfirst, writes_access, List.map_append, List.map_append,
      DeltasClear, List.forall_mem_append]
    cases hupdate : op.update with
    | none =>
      obtain ⟨-, hj0, -, hw0, hw1, hrep1, hun1⟩ := read_replayed hupdate hrep hun hfirst
      have hclear : DeltasClear parent (blockState db parent) (j₀.perform op).actions :=
        read_deltasClear hupdate _
      rw [hw0, hw1]
      refine Iff.trans ?_ (and_iff_right hclear).symm
      rw [hj0] at hrest ⊢
      exact ih _ hrep1 hun1 htracks hrest
    | some u =>
      have hp0 := perform_update hupdate j₀
      cases hvalue : u.change (j₀.present u.slot) with
      | error e =>
        -- nothing was recorded
        have hj0 : j₀.perform op = j₀.fail e := by
          rw [hp0, Journal.update, hvalue]
        rw [hj0] at hfirst hrest ⊢
        cases hfirst
        refine (ih _ hrep hun htracks hrest).trans ?_
        exact (and_iff_right (List.forall_mem_nil _)).symm
      | ok value =>
        have hj0 : j₀.perform op = j₀.sstoreInner u.slot value
            (u.record (j₀.present u.slot) value) := by
          rw [hp0, Journal.update, hvalue]
        rw [hj0] at hfirst hrest ⊢
        obtain ⟨after, hup⟩ := update_replayed hupdate hvalue hrep hun hfirst
        have hshape := update_shape hvalue hup htracks
        have htail := ih _ hup.represents hup.untouched (update_tracks hup htracks) hrest
        change (replayedWrites db c (u.record _ _)).map _ ++ _ =
          [j₀.sstoreResult u.slot value].map _ ++ _ ↔ _
        rw [hup.writes, List.map_singleton, List.map_singleton, List.singleton_append,
          List.singleton_append, List.cons.injEq]
        exact and_congr hshape htail

/-- Replayed writes have the recorded shape exactly when every change by a
difference is clear of zero. -/
theorem replay_keeps_shapes (t : Transaction α) (parent : Slot → B256)
    (db : Cache) {slots : Slot → Option (B256 × B256)}
    (hreplay : replayActions db (t.recording (.start parent)) = .ok slots) :
    (replayedWrites db .empty (t.recording (.start parent))).map shape =
        (t.writes (.start parent)).map shape ↔
      DeltasClear parent (blockState db parent) (t.recording (.start parent)) := by
  obtain ⟨c, hc, -⟩ := replayActions_ok hreplay
  exact writes_shape represents_start (fun _ _ => rfl) .start hc

/-- The payer has spent all but 6 in the block. -/
def shrunkBlock : Cache :=
  sampleCache fun key => if key = 1 then some 6 else none

theorem replay_keeps_shapes_transfer : ∃ slots, replayActions shrunkBlock
        (sampleTransfer.recording (.start sampleParent)) = .ok slots ∧
      DeltasClear sampleParent (blockState shrunkBlock sampleParent)
        (sampleTransfer.recording (.start sampleParent)) :=
  ⟨_, rfl, (replay_keeps_shapes sampleTransfer sampleParent shrunkBlock rfl).mp
    (by decide +kernel)⟩

/-- The payer has spent all but 5 in the block. -/
def drainedBlock : Cache :=
  sampleCache fun key => if key = 1 then some 5 else none

/-- A replayed decrement empties a slot that it did not empty when it was
recorded, and the replay succeeds. -/
theorem replay_empties_slot : ∃ slots, replayActions drainedBlock
        (sampleTransfer.recording (.start sampleParent)) = .ok slots ∧
      (sampleTransfer.writes (.start sampleParent)).map shape =
        [(false, false, false), (false, false, false)] ∧ (replayedWrites drainedBlock .empty
          (sampleTransfer.recording (.start sampleParent))).map shape =
        [(false, false, true), (false, false, false)] :=
  ⟨_, rfl, by decide +kernel, by decide +kernel⟩

end Transaction

end Tempo
