/-
The accesses of a transaction seen from the replay.  Every access either only
reads, or updates one slot by a partial function of its value; an update is
recorded by an exact write or by its difference.
-/
import Tempo.Replay.Simulation

namespace Tempo

open Journal TxChanges

variable {c c' : TxChanges} {db : Cache} {op : Access}

/-! Recordings in parts. -/

variable {first : List StorageAction} {current value : B256}
  {rest : List StorageAction} {delta : B256}

theorem replayFrom_append {c'' : TxChanges} : replayFrom db c (first ++ rest) = .ok c'' ↔
      ∃ c', replayFrom db c first = .ok c' ∧ replayFrom db c' rest = .ok c'' := by
  induction first generalizing c with
  | nil => simp [replayFrom]
  | cons action first ih =>
    simp only [List.cons_append, replayFrom]
    cases haction : c.replayAction db action with
    | error e => simp [bind, Except.bind]
    | ok c1 => exact ih

theorem replayFrom_singleton {action : StorageAction} :
    replayFrom db c [action] = .ok c' ↔ c.replayAction db action = .ok c' := by
  simp only [replayFrom]
  cases c.replayAction db action <;> simp [bind, Except.bind]

theorem SameCrossings.append (h : SameCrossings db c (first ++ rest))
    (hreplay : replayFrom db c first = .ok c') :
    SameCrossings db c first ∧ SameCrossings db c' rest := by
  induction first generalizing c with
  | nil =>
    cases hreplay
    exact ⟨trivial, h⟩
  | cons action first ih =>
    obtain ⟨hhead, htail⟩ := h
    obtain ⟨c1, haction, hreplay⟩ := except_bind_eq_ok.mp hreplay
    obtain ⟨hfirst, hrest⟩ := ih (htail c1 haction) hreplay
    refine ⟨⟨hhead, ?_⟩, hrest⟩
    intro c2 hc2
    rw [haction] at hc2
    cases hc2
    exact hfirst

theorem replayedWrites_append (rest : List StorageAction)
    (hreplay : replayFrom db c first = .ok c') :
    replayedWrites db c (first ++ rest) =
      replayedWrites db c first ++ replayedWrites db c' rest := by
  induction first generalizing c with
  | nil =>
    cases hreplay
    rfl
  | cons action first ih =>
    obtain ⟨c1, haction, hreplay⟩ := except_bind_eq_ok.mp hreplay
    simp only [List.cons_append, replayedWrites, haction]
    rw [ih hreplay, List.append_assoc]

/-! Updates. -/

/-- An update of a slot: its new value, and what is recorded of it. -/
structure Update where
  slot : Slot
  change : B256 → Except TempoPrecompileError B256
  record : B256 → B256 → List StorageAction

def Journal.update (j : Journal) (u : Update) : Performed :=
  match u.change (j.present u.slot) with
  | .error e => j.fail e
  | .ok value =>
    j.sstoreInner u.slot value (u.record (j.present u.slot) value)

variable {u : Update}

/-- The update an access makes, if it is not a read. -/
def Access.update : Access → Option Update
  | .sstore slot value =>
    some ⟨slot, fun _ => .ok value, fun current value => [.sstore slot current value]⟩
  | .sinc slot delta =>
    some ⟨slot, fun current =>
      match checkedAddWord current delta with
      | none => .error .underOverflow
      | some value => .ok value,
      fun current value =>
        if current = 0 ∧ value ≠ 0 then
          [.sload slot current, .sstore slot current value]
        else [.sinc slot current delta]⟩
  | .sdec slot delta =>
    some ⟨slot, fun current =>
      match checkedSubWord current delta with
      | none => .error (.storageDeltaUnderflow current.toNat)
      | some value => .ok value,
      fun current value =>
        if current ≠ 0 ∧ value = 0 then
          [.sload slot current, .sstore slot current value]
        else [.sdec slot current delta]⟩
  | .executeFeeSwap key amountIn =>
    some ⟨poolSlot key, fun current => swapSlot current amountIn, fun current _ => [.feeAmmSwap key
        (Pool.decodeFromSlot current).encodeToSlot amountIn]⟩
  | _ => none

theorem perform_update (h : op.update = some u) (j : Journal) : j.perform op = j.update u := by
  cases op with
  | sstore slot value =>
    cases h
    rfl
  | sinc slot delta =>
    cases h
    cases hnew : checkedAddWord (j.present slot) delta <;>
      simp [perform, sinc, update, hnew]
  | sdec slot delta =>
    cases h
    cases hnew : checkedSubWord (j.present slot) delta <;>
      simp [perform, sdec, update, hnew]
  | executeFeeSwap key amountIn =>
    cases h
    cases hnew : swapSlot (j.present (poolSlot key)) amountIn <;>
      simp [perform, executeFeeSwap, update, hnew]
  | sload slot | feeAmmLiquidityCheck key amountOut
  | feeTokenBalanceCheck slot required => cases h

/-- How an update is recorded: exactly, or by a difference that does not leave
the slot empty. -/
inductive Recorded (u : Update) (current value : B256) : List StorageAction → Prop where
  | store : Recorded u current value [.sstore u.slot current value]
  | loadStore : Recorded u current value
      [.sload u.slot current, .sstore u.slot current value]
  | delta (action : StorageAction)
      (hdelta : action.delta = some (u.slot, current, fun w => (u.change w).toOption))
      (hwritten : action.written = some u.slot) (hoccupied : current ≠ 0 → value ≠ 0) (d : Int)
      (hshift : ∀ w w', u.change w = .ok w' → (w'.toNat : Int) = w.toNat + d) :
      Recorded u current value [action]

theorem ne_zero_of_toNat {w : B256} (h : w.toNat ≠ 0) : w ≠ 0 := by
  rintro rfl
  exact h rfl

theorem toNat_ne_zero {w : B256} (h : w ≠ 0) : w.toNat ≠ 0 :=
  fun hzero => h (BitVec.eq_of_toNat_eq hzero)

theorem checked_ok {o : Option B256} {e : TempoPrecompileError} (h : (match o with
      | none => .error e
      | some value => .ok value : Except TempoPrecompileError B256) = .ok value) :
    o = some value := by
  cases o <;> cases h
  rfl

theorem sinc_recorded {slot : Slot} (h : (Access.sinc slot delta).update = some u)
    (hvalue : u.change current = .ok value) :
    Recorded u current value (u.record current value) := by
  cases h
  dsimp only at hvalue ⊢
  have hadd := checkedAddWord_eq_some.mp (checked_ok hvalue)
  split
  · exact .loadStore
  · refine .delta _ ?_ rfl ?_ delta.toNat ?_
    · simp only [StorageAction.delta, Option.some.injEq, Prod.mk.injEq, true_and]
      funext w
      cases checkedAddWord w delta <;> rfl
    · intro hne
      have hpos := toNat_ne_zero hne
      exact ne_zero_of_toNat (by omega)
    · intro w w' hw
      have hsum := checkedAddWord_eq_some.mp (checked_ok hw)
      omega

theorem sdec_recorded {slot : Slot} (h : (Access.sdec slot delta).update = some u)
    (hvalue : u.change current = .ok value) :
    Recorded u current value (u.record current value) := by
  cases h
  dsimp only at hvalue ⊢
  split
  · exact .loadStore
  · rename_i hkept
    refine .delta _ ?_ rfl ?_ (-delta.toNat) ?_
    · simp only [StorageAction.delta, Option.some.injEq, Prod.mk.injEq, true_and]
      funext w
      cases checkedSubWord w delta <;> rfl
    · intro hne hzero
      exact hkept ⟨hne, hzero⟩
    · intro w w' hw
      have hdiff := checkedSubWord_eq_some.mp (checked_ok hw)
      omega

theorem executeFeeSwap_recorded {key amountIn : B256}
    (h : (Access.executeFeeSwap key amountIn).update = some u)
    (hvalue : u.change current = .ok value) :
    Recorded u current value (u.record current value) := by
  cases h
  dsimp only at hvalue ⊢
  obtain ⟨amountOut, hout, -⟩ := swapSlot_ok hvalue
  rw [encodeToSlot_decodeFromSlot]
  refine .delta _ rfl rfl (swapSlot_ne_zero hvalue) (amountIn.toNat - amountOut * 2 ^ 128) ?_
  intro w w' hw
  obtain ⟨amountOut', hout', huser, hval, hw'⟩ := swapSlot_ok hw
  rw [hout] at hout'
  cases hout'
  have hsplit : amountOut * 2 ^ 128 ≤ w.toNat / 2 ^ 128 * 2 ^ 128 := Nat.mul_le_mul_right _ hval
  omega

theorem update_recorded (h : op.update = some u) (hvalue : u.change current = .ok value) :
    Recorded u current value (u.record current value) := by
  cases op with
  | sstore slot new =>
    cases h
    cases hvalue
    exact .store
  | sinc slot delta => exact sinc_recorded h hvalue
  | sdec slot delta => exact sdec_recorded h hvalue
  | executeFeeSwap key amountIn => exact executeFeeSwap_recorded h hvalue
  | sload slot | feeAmmLiquidityCheck key amountOut
  | feeTokenBalanceCheck slot required => cases h

/-! One access. -/

section Access

variable {parent : Slot → B256} {j₀ j₁ : Journal} {slot : Slot}

theorem Untouched.loads (h : Untouched parent c j₀)
    (hloads : Loads c slot c') : Untouched parent c' j₀ := fun s hs => h s (hloads s hs).1

theorem Untouched.sstore (h : Untouched parent c j₀)
    (hloads : Loads c slot c') (value : B256) : Untouched parent c' (j₀.sstore slot value) := by
  intro s hs
  obtain ⟨hold, hne⟩ := hloads s hs
  rw [(j₀.sstore_of_ne value hne).1]
  exact h s hold

/-- A read is answered on the block as it was when recording. -/
theorem read_replayed (hread : op.update = none)
    (hrep : Represents db parent c j₁) (hun : Untouched parent c j₀)
    (hreplay : replayFrom db c (j₀.perform op).actions = .ok c') :
    (j₀.perform op).response = (j₁.perform op).response ∧
      (j₀.perform op).journal = j₀ ∧ (j₁.perform op).journal = j₁ ∧ (j₀.perform op).writes = [] ∧
      replayedWrites db c (j₀.perform op).actions = [] ∧
      Represents db parent c' j₁ ∧ Untouched parent c' j₀ := by
  cases op with
  | sstore slot value | sinc slot delta | sdec slot delta
  | executeFeeSwap key amountIn => cases hread
  | sload slot =>
    have haction := replayFrom_singleton.mp hreplay
    obtain ⟨hvalue, hrep', hloads⟩ := sload_replayed hrep (hun slot) haction
    refine ⟨?_, rfl, rfl, rfl, ?_, hrep', hun.loads hloads⟩
    · simp [perform, sloadInner, hvalue]
    · simp [perform, sloadInner, replayedWrites, haction, StorageAction.written]
  | feeAmmLiquidityCheck key amountOut =>
    have haction := replayFrom_singleton.mp hreplay
    rw [encodeToSlot_decodeFromSlot] at haction
    have hcheck := haction
    simp only [replayAction] at hcheck
    obtain ⟨hvalue, hrep', hloads⟩ := check_replayed hrep (hun (poolSlot key)) hcheck
    refine ⟨?_, rfl, rfl, rfl, ?_, hrep', hun.loads hloads⟩
    · simp [perform, feeAmmLiquidityCheck, hvalue]
    · simp [perform, feeAmmLiquidityCheck, encodeToSlot_decodeFromSlot, replayedWrites, haction,
        StorageAction.written]
  | feeTokenBalanceCheck slot required =>
    have haction := replayFrom_singleton.mp hreplay
    have hcheck := haction
    simp only [replayAction] at hcheck
    obtain ⟨hvalue, hrep', hloads⟩ := check_replayed hrep (hun slot) hcheck
    refine ⟨?_, rfl, rfl, rfl, ?_, hrep', hun.loads hloads⟩
    · simp [perform, feeTokenBalanceCheck, hvalue]
    · simp [perform, feeTokenBalanceCheck, replayedWrites, haction, StorageAction.written]

/-- What the replay of an update does: the block's slot is written, with the
recorded value if it was recorded exactly, and else with the recorded change of
what it held. -/
structure UpdateReplayed (db : Cache) (parent : Slot → B256)
    (c c' : TxChanges) (j₀ j₁ : Journal) (u : Update) (value after : B256) : Prop where
  change : u.change (j₁.present u.slot) = .ok after
  represents : Represents db parent c' (j₁.sstore u.slot after)
  untouched : Untouched parent c' (j₀.sstore u.slot value)
  writes : replayedWrites db c (u.record (j₀.present u.slot) value) = [j₁.sstoreResult u.slot after]
  matching : (j₁.present u.slot = j₀.present u.slot ∧ after = value ∧
      ∀ action ∈ u.record (j₀.present u.slot) value, action.delta = none) ∨
    ∃ action, u.record (j₀.present u.slot) value = [action] ∧
      action.delta = some (u.slot, j₀.present u.slot, fun w => (u.change w).toOption) ∧
      (j₀.present u.slot ≠ 0 → value ≠ 0) ∧
      ∃ d : Int, (value.toNat : Int) = (j₀.present u.slot).toNat + d ∧
        (after.toNat : Int) = (j₁.present u.slot).toNat + d

theorem update_replayed (hupdate : op.update = some u)
    (hvalue : u.change (j₀.present u.slot) = .ok value)
    (hrep : Represents db parent c j₁) (hun : Untouched parent c j₀)
    (hreplay : replayFrom db c (u.record (j₀.present u.slot) value) = .ok c') :
    ∃ after, UpdateReplayed db parent c c' j₀ j₁ u value after := by
  have hrecorded := update_recorded hupdate hvalue
  generalize hactions : u.record (j₀.present u.slot) value = actions at *
  cases hrecorded with
  | store =>
    have haction := replayFrom_singleton.mp hreplay
    obtain ⟨hsame, hstored⟩ := sstore_replayed hrep (hun u.slot) haction
    refine ⟨value, by rw [hsame, hvalue], hstored.represents,
      hun.sstore hstored.loads value, ?_,
      .inl ⟨hsame, rfl, by simp [hactions, StorageAction.delta]⟩⟩
    simp only [hactions, replayedWrites, haction, StorageAction.written,
      hstored.result, List.append_nil]
  | loadStore =>
    rw [← List.singleton_append] at hreplay
    obtain ⟨c1, hload, hstore⟩ := replayFrom_append.mp hreplay
    have hload' := replayFrom_singleton.mp hload
    have hstore' := replayFrom_singleton.mp hstore
    obtain ⟨hsame, hrep1, hloads1⟩ := sload_replayed hrep (hun u.slot) hload'
    have hun1 : Untouched parent c1 j₀ := hun.loads hloads1
    obtain ⟨-, hstored⟩ := sstore_replayed hrep1 (hun1 u.slot) hstore'
    refine ⟨value, by rw [hsame, hvalue], hstored.represents,
      hun1.sstore hstored.loads value, ?_,
      .inl ⟨hsame, rfl, by simp [hactions, StorageAction.delta]⟩⟩
    simp only [hactions, replayedWrites, hload', hstore',
      StorageAction.written, hstored.result, List.append_nil, List.nil_append]
  | delta action hdelta hwritten hoccupied d hshift =>
    have haction := replayFrom_singleton.mp hreplay
    obtain ⟨after, hafter, hstored⟩ := delta_replayed hdelta hrep (hun u.slot) haction
    have hchange : u.change (j₁.present u.slot) = .ok after := by
      revert hafter
      cases u.change (j₁.present u.slot) <;> intro hafter <;> cases hafter
      rfl
    refine ⟨after, hchange, hstored.represents,
      hun.sstore hstored.loads value, ?_, .inr ⟨action, hactions, hdelta,
        hoccupied, d, hshift _ _ hvalue, hshift _ _ hchange⟩⟩
    simp only [hactions, replayedWrites, haction, hwritten, hstored.result, List.append_nil]

end Access

end Tempo
