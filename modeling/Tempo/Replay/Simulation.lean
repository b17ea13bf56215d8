/-
A replay simulates a run on the state of the block.  The slots a replay has
loaded are those of the journal of such a run, whatever the recorded values
were: exact actions only succeed where both agree, and changes are applied to
the slot of the block.
-/
import Tempo.Replay.ActionReplay

namespace Tempo

open TxChanges

/-! Changes of words. -/

theorem checkedAddWord_eq_some {a b c : B256} :
    checkedAddWord a b = some c ↔ a.toNat + b.toNat = c.toNat := by
  unfold checkedAddWord
  rw [Option.map_eq_some_iff]
  constructor
  · rintro ⟨n, hn, rfl⟩
    rw [checkedAdd_eq_some] at hn
    obtain ⟨hle, rfl⟩ := hn
    have hpos : 0 < 2 ^ 256 := Nat.two_pow_pos 256
    rw [BitVec.toNat_ofNat, Nat.mod_eq_of_lt (by unfold maxWord at hle; omega)]
  · intro h
    have hc := c.isLt
    refine ⟨c.toNat, checkedAdd_eq_some.mpr ⟨?_, h⟩, by simp⟩
    unfold maxWord
    omega

theorem checkedSubWord_eq_some {a b c : B256} :
    checkedSubWord a b = some c ↔ a.toNat = c.toNat + b.toNat := by
  unfold checkedSubWord
  rw [Option.map_eq_some_iff]
  constructor
  · rintro ⟨n, hn, rfl⟩
    rw [checkedSub_eq_some] at hn
    obtain ⟨hle, rfl⟩ := hn
    have ha := a.isLt
    rw [BitVec.toNat_ofNat, Nat.mod_eq_of_lt (by omega)]
    omega
  · intro h
    exact ⟨c.toNat, checkedSub_eq_some.mpr ⟨by omega, by omega⟩, by simp⟩

theorem toNat_encodeToSlot {u v : Nat} (hu : u < 2 ^ 128) (hv : v < 2 ^ 128) :
    (Pool.encodeToSlot ⟨u, v⟩).toNat = v * 2 ^ 128 + u := by
  change (BitVec.ofNat 256 (v * 2 ^ 128 + u)).toNat = _
  rw [BitVec.toNat_ofNat, Nat.mod_eq_of_lt (by omega)]

theorem encodeToSlot_decodeFromSlot (w : B256) : (Pool.decodeFromSlot w).encodeToSlot = w := by
  have hw := w.isLt
  apply BitVec.eq_of_toNat_eq
  change (Pool.encodeToSlot ⟨w.toNat % 2 ^ 128, w.toNat / 2 ^ 128⟩).toNat = _
  rw [toNat_encodeToSlot (Nat.mod_lt _ (Nat.two_pow_pos 128)) (by omega)]
  omega

variable {amountIn : B256} {amountOut : Nat}

theorem applySwap_ok {pool pool' : Pool} {amountIn : Nat}
    (h : pool.applySwap amountIn amountOut = .ok pool') :
    pool.reserveUserToken + amountIn < 2 ^ 128 ∧ amountOut ≤ pool.reserveValidatorToken ∧
      pool' = ⟨pool.reserveUserToken + amountIn, pool.reserveValidatorToken - amountOut⟩ := by
  obtain ⟨-, h⟩ := except_ite_eq_ok.mp h
  split at h
  · rename_i i o hi ho
    rw [tryInto_eq_some] at hi ho
    obtain ⟨-, rfl⟩ := hi
    obtain ⟨-, rfl⟩ := ho
    split at h
    · rename_i u v hu hv
      rw [checkedAdd_eq_some] at hu
      rw [checkedSub_eq_some] at hv
      obtain ⟨hmax, rfl⟩ := hu
      obtain ⟨hle, rfl⟩ := hv
      cases h
      unfold maxWord at hmax
      exact ⟨by omega, hle, rfl⟩
    · cases h
  · cases h

/-- A swap moves the halves of a pool's word. -/
theorem swapSlot_ok {w w' : B256} (h : swapSlot w amountIn = .ok w') :
    ∃ amountOut, TipFeeManager.computeAmountOut amountIn.toNat = some amountOut ∧
      w.toNat % 2 ^ 128 + amountIn.toNat < 2 ^ 128 ∧ amountOut ≤ w.toNat / 2 ^ 128 ∧
      w'.toNat = (w.toNat / 2 ^ 128 - amountOut) * 2 ^ 128 +
        (w.toNat % 2 ^ 128 + amountIn.toNat) := by
  unfold swapSlot at h
  split at h
  · cases h
  rename_i amountOut hout
  split at h
  · cases h
  rename_i pool hswap
  cases h
  obtain ⟨huser, hval, rfl⟩ := applySwap_ok hswap
  have hw := w.isLt
  exact ⟨amountOut, hout, huser, hval,
    toNat_encodeToSlot huser (by change w.toNat / 2 ^ 128 - _ < _; omega)⟩

theorem computeAmountOut_zero (h : TipFeeManager.computeAmountOut 0 = some amountOut) :
    amountOut = 0 := by
  obtain ⟨product, hproduct, rfl⟩ := Option.map_eq_some_iff.mp h
  rw [checkedMul_eq_some, zero_mul] at hproduct
  rw [← hproduct.2, Nat.zero_div]

/-- A swap does not empty the slot of a pool. -/
theorem swapSlot_ne_zero {w w' : B256} (h : swapSlot w amountIn = .ok w')
    (hw : w ≠ 0) : w' ≠ 0 := by
  rintro rfl
  obtain ⟨amountOut, hout, huser, hval, hzero⟩ := swapSlot_ok h
  change 0 = _ at hzero
  have hin : amountIn.toNat = 0 := by omega
  rw [hin] at hout
  have hout0 := computeAmountOut_zero hout
  refine hw (BitVec.eq_of_toNat_eq ?_)
  change w.toNat = 0
  omega

/-! Loading and storing. -/

/-- The state of a replay is the journal of a run on the block. -/
structure Represents (db : Cache) (parent : Slot → B256) (c : TxChanges) (j : Journal) : Prop where
  original : j.original = blockState db parent
  fresh : ∀ slot, c slot = none →
    j.present slot = blockState db parent slot ∧ j.written slot = false
  loaded : ∀ slot change, c slot = some change → change.original = blockState db parent slot ∧
      change.current = j.present slot ∧ change.written = j.written slot

/-- What the replay has not loaded was not accessed when recording. -/
def Untouched (parent : Slot → B256) (c : TxChanges) (j : Journal) : Prop :=
  ∀ slot, c slot = none → j.present slot = parent slot

/-- A slot was loaded, and no slot is forgotten. -/
def Loads (c : TxChanges) (slot : Slot) (c' : TxChanges) : Prop :=
  ∀ s, c' s = none → c s = none ∧ s ≠ slot

section Replay

variable {db : Cache} {parent : Slot → B256} {c c' : TxChanges}
  {j : Journal} {slot : Slot} {value : B256} {change : SlotChange}

theorem represents_start : Represents db parent .empty (.start (blockState db parent)) :=
  ⟨rfl, fun _ _ => ⟨rfl, rfl⟩, nofun⟩

theorem Represents.writtenSlots_eq (h : Represents db parent c j) :
    c.writtenSlots = j.writtenSlots := by
  funext s
  unfold writtenSlots Journal.writtenSlots
  cases hs : c s with
  | none => simp [(h.fresh s hs).2]
  | some change =>
    obtain ⟨horig, hcur, hwritten⟩ := h.loaded s change hs
    simp [horig, hcur, hwritten, h.original]

/-- A slot of both changes. -/
theorem Represents.put {j' : Journal} (h : Represents db parent c j)
    (horiginal : j'.original = j.original) (hslot : change.original = blockState db parent slot ∧
      change.current = j'.present slot ∧ change.written = j'.written slot)
    (hframe : ∀ s, s ≠ slot → j'.present s = j.present s ∧ j'.written s = j.written s) :
    Represents db parent (c.put slot change) j' := by
  refine ⟨horiginal.trans h.original, ?_, ?_⟩
  · intro s hnone
    obtain ⟨hold, hne⟩ := (TxChanges.put_eq_none c).mp hnone
    obtain ⟨hpresent, hwritten⟩ := hframe s hne
    rw [hpresent, hwritten]
    exact h.fresh s hold
  · intro s other hsome
    by_cases hsame : s = slot
    · subst hsame
      rw [put_self] at hsome
      cases hsome
      exact hslot
    · rw [put_of_ne c _ hsame] at hsome
      obtain ⟨hpresent, hwritten⟩ := hframe s hsame
      rw [hpresent, hwritten]
      exact h.loaded s other hsome

theorem sloadCurrentOr_loaded (hs : c slot = some change) :
    c.sloadCurrentOr db slot value = (change.current, c) := by
  unfold sloadCurrentOr
  rw [hs]

/-- Loading a slot finds its value on the block. -/
theorem Represents.sloadCurrentOr (h : Represents db parent c j)
    (hvalue : c slot = none → value = parent slot) :
    (c.sloadCurrentOr db slot value).1 = j.present slot ∧
      Represents db parent (c.sloadCurrentOr db slot value).2 j ∧
      Loads c slot (c.sloadCurrentOr db slot value).2 := by
  cases hs : c slot with
  | some change =>
    rw [sloadCurrentOr_loaded hs]
    dsimp only
    refine ⟨(h.loaded slot change hs).2.1, h, ?_⟩
    intro s hnone
    refine ⟨hnone, ?_⟩
    rintro rfl
    rw [hs] at hnone
    cases hnone
  | none =>
    obtain ⟨hpresent, hwritten⟩ := h.fresh slot hs
    have hcurrent : (cachedStorageValue db slot).getD value = j.present slot := by
      rw [hvalue hs, hpresent]
      rfl
    rw [TxChanges.sloadCurrentOr, hs]
    dsimp only
    rw [hcurrent]
    exact ⟨rfl, h.put rfl ⟨hpresent, rfl, hwritten.symm⟩ fun _ _ => ⟨rfl, rfl⟩,
      fun s => (TxChanges.put_eq_none c).mp⟩

/-- An exact load is a load that finds the expected value. -/
theorem sloadExact_ok {r : B256 × TxChanges} (h : c.sloadExact db slot value = .ok r) :
    r = c.sloadCurrentOr db slot value ∧ r.1 = value := by
  unfold sloadExact at h
  unfold sloadCurrentOr
  cases hs : c slot with
  | some change | none =>
    rw [hs] at h
    obtain ⟨heq, h⟩ := except_ite_eq_ok.mp h
    cases h
    exact ⟨rfl, not_not.mp heq⟩

/-- Storing to a loaded slot writes the journal. -/
theorem Represents.sstore (h : Represents db parent c j) (hstore : c.sstore slot value = .ok c') :
    Represents db parent c' (j.sstore slot value) ∧ (∀ s, c' s = none → c s = none) ∧
      ∃ change, c' slot = some change ∧ change.original = blockState db parent slot ∧
        change.current = value := by
  unfold TxChanges.sstore at hstore
  split at hstore
  · cases hstore
  · rename_i change hs
    cases hstore
    obtain ⟨horig, -, -⟩ := h.loaded slot change hs
    obtain ⟨hpresent, hwritten⟩ := j.sstore_self slot value
    exact ⟨h.put rfl ⟨horig, hpresent.symm, hwritten.symm⟩ fun s => j.sstore_of_ne value,
      fun s hnone => ((TxChanges.put_eq_none c).mp hnone).1, _, TxChanges.put_self .., horig, rfl⟩

/-- A load followed by a store of the loaded slot. -/
structure Stored (db : Cache) (parent : Slot → B256) (c c' : TxChanges)
    (j : Journal) (slot : Slot) (value : B256) : Prop where
  represents : Represents db parent c' (j.sstore slot value)
  loads : Loads c slot c'
  result : c.writeResult c' slot = [j.sstoreResult slot value]

variable {recorded : B256}

theorem Represents.stored (h : Represents db parent c j)
    (hvalue : c slot = none → recorded = parent slot)
    (hstore : (c.sloadCurrentOr db slot recorded).2.sstore slot value = .ok c') :
    Stored db parent c c' j slot value := by
  obtain ⟨-, hrep, hloads⟩ := h.sloadCurrentOr hvalue
  obtain ⟨hrep', hkeeps, change, hchange, horig, hcur⟩ := hrep.sstore hstore
  refine ⟨hrep', fun s hs => hloads s (hkeeps s hs), ?_⟩
  unfold writeResult Journal.sstoreResult
  rw [hchange]
  dsimp only
  rw [horig, hcur, h.original]
  cases hs : c slot with
  | none => rw [(h.fresh slot hs).1]; rfl
  | some old => rw [← (h.loaded slot old hs).2.1]; rfl

/-! The actions. -/

theorem sload_replayed (h : Represents db parent c j) (hvalue : c slot = none → value = parent slot)
    (hreplay : c.replayAction db (.sload slot value) = .ok c') :
    j.present slot = value ∧ Represents db parent c' j ∧ Loads c slot c' := by
  obtain ⟨r, hload, hreplay⟩ := except_bind_eq_ok.mp hreplay
  obtain ⟨rfl, hexact⟩ := sloadExact_ok hload
  obtain ⟨hpresent, hrep, hloads⟩ := h.sloadCurrentOr hvalue
  cases hreplay
  exact ⟨hpresent.symm.trans hexact, hrep, hloads⟩

theorem sstore_replayed (h : Represents db parent c j)
    (hvalue : c slot = none → recorded = parent slot)
    (hreplay : c.replayAction db (.sstore slot recorded value) = .ok c') :
    j.present slot = recorded ∧ Stored db parent c c' j slot value := by
  obtain ⟨r, hload, hreplay⟩ := except_bind_eq_ok.mp hreplay
  obtain ⟨rfl, hexact⟩ := sloadExact_ok hload
  obtain ⟨hpresent, -, -⟩ := h.sloadCurrentOr hvalue
  exact ⟨hpresent.symm.trans hexact, h.stored hvalue hreplay⟩

theorem check_replayed {f : B256 → Bool} {recorded : Bool} (h : Represents db parent c j)
    (hvalue : c slot = none → value = parent slot)
    (hreplay : c.check db slot value f recorded = .ok c') :
    f (j.present slot) = recorded ∧ Represents db parent c' j ∧ Loads c slot c' := by
  obtain ⟨hpresent, hrep, hloads⟩ := h.sloadCurrentOr hvalue
  unfold check at hreplay
  dsimp only at hreplay
  rw [hpresent] at hreplay
  obtain ⟨heq, hreplay⟩ := except_ite_eq_ok.mp hreplay
  cases hreplay
  exact ⟨not_not.mp heq, hrep, hloads⟩

variable {f : B256 → Option B256}

theorem rebase_replayed {e : StorageActionReplayError} (h : Represents db parent c j)
    (hvalue : c slot = none → recorded = parent slot)
    (hreplay : c.rebase db slot recorded f e = .ok c') :
    ∃ after, f (j.present slot) = some after ∧ Stored db parent c c' j slot after := by
  obtain ⟨hpresent, -, -⟩ := h.sloadCurrentOr hvalue
  unfold rebase at hreplay
  dsimp only at hreplay
  rw [hpresent] at hreplay
  split at hreplay
  · cases hreplay
  · exact ⟨_, ‹_›, h.stored hvalue hreplay⟩

/-- A difference is applied to what the slot holds on the block. -/
theorem delta_replayed {action : StorageAction} (hdelta : action.delta = some (slot, recorded, f))
    (h : Represents db parent c j) (hvalue : c slot = none → recorded = parent slot)
    (hreplay : c.replayAction db action = .ok c') :
    ∃ after, f (j.present slot) = some after ∧ Stored db parent c c' j slot after := by
  cases action with
  | sinc s v d | sdec s v d | feeAmmSwap k v a =>
    cases hdelta
    simp only [replayAction] at hreplay
    exact rebase_replayed h hvalue hreplay
  | sload s v | sstore s v w | feeTokenBalanceCheck s v r b
  | feeAmmLiquidityCheck k v a b => cases hdelta

end Replay

end Tempo
