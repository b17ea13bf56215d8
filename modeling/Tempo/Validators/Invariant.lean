/-
The tables of the validator registry agree with its list of records in every
reachable state.  Each table is related to one projection of the list, so that
a change of the records disturbs only the tables whose projection it moves.
-/
import Tempo.Library.ReverseIndex
import Tempo.Library.Chain
import Tempo.Validators.Changes

namespace Tempo

open Function Relation List Option

namespace ValidatorRecord

/-- The address, for an active record. -/
def activeAddress (v : ValidatorRecord) : Option Address :=
  if v.deactivatedAtHeight = 0 then some v.validatorAddress else none

/-- The ingress key, for an active record. -/
def activeIngress (codec : ValidatorCodec) (v : ValidatorRecord) : Option B256 :=
  if v.deactivatedAtHeight = 0 then (codec.ingressKey v.ingress).toOption
  else none

/-- An active record has a place in the active list and a readable ingress;
an inactive one has no place. -/
def Sound (codec : ValidatorCodec) (v : ValidatorRecord) : Prop :=
  (v.activeIdx = 0 ↔ v.deactivatedAtHeight ≠ 0) ∧
    (v.deactivatedAtHeight = 0 → ∃ h, codec.ingressKey v.ingress = .ok h)

variable {codec : ValidatorCodec} {v : ValidatorRecord} {hash : B256}

theorem activeIngress_of_active (h : v.deactivatedAtHeight = 0)
    (hparse : codec.ingressKey v.ingress = .ok hash) : v.activeIngress codec = some hash := by
  rw [activeIngress, if_pos h, hparse]
  rfl

theorem sound_of_closed (h : v.deactivatedAtHeight ≠ 0) (hplace : v.activeIdx = 0) :
    v.Sound codec := ⟨⟨fun _ => h, fun _ => hplace⟩, fun hactive => absurd hactive h⟩

end ValidatorRecord

open ValidatorRecord ValidatorConfigV2

structure RegistryInv (codec : ValidatorCodec) (s : ValidatorConfigV2) : Prop where
  active : Mirror s.activeIndices (s.validators.map activeIdx)
  keys : Indexes s.pubkeyToIndex (s.validators.map publicKey)
  addresses : Points s.addressToIndex (s.validators.map activeAddress)
  ingress : Marks s.activeIngressIps (s.validators.map (activeIngress codec))
  sound : ∀ v ∈ s.validators, v.Sound codec

/-- Overwriting an entry does not show in a projection that agrees on the old
and the new value. -/
theorem map_set_of_eq {α β : Type} {l : List α} {i : Nat} {x y : α} {f : α → β}
    (hx : l[i]? = some x) (hf : f y = f x) : (l.set i y).map f = l.map f := by
  obtain ⟨hi, rfl⟩ := List.getElem?_eq_some_iff.mp hx
  rw [map_set, hf, ← map_set, set_getElem_self]

variable {codec : ValidatorCodec} {height : Nat} {s : ValidatorConfigV2} {u v w : ValidatorRecord}
  {idx k : Nat}

namespace ValidatorConfigV2.ActiveAt

/-- An active record, after any record was overwritten. -/
theorem moved {j : Nat} (hv : s.ActiveAt idx v) (hu : s.validators[j]? = some u) :
    (s.validators.set j w)[idx]? = some (if j = idx then w else v) := by
  rw [List.getElem?_set, if_pos (List.getElem?_eq_some_iff.mp hu).1]
  split
  · rfl
  · exact hv.1

theorem map {β : Type} (hv : s.ActiveAt idx v) (f : ValidatorRecord → β) :
    (s.validators.map f)[idx]? = some (f v) := by
  rw [getElem?_map, hv.1]
  rfl

theorem activeAddress (hv : s.ActiveAt idx v) :
    (s.validators.map activeAddress)[idx]? = some (some v.validatorAddress) :=
  (hv.map _).trans (congrArg some (if_pos hv.2))

end ValidatorConfigV2.ActiveAt

namespace RegistryInv

theorem empty : RegistryInv codec ValidatorConfigV2.empty where
  active := ⟨by simp [ValidatorConfigV2.empty], by
    simp [ValidatorConfigV2.empty]⟩
  keys := by intro x i; simp [ValidatorConfigV2.empty]
  addresses := by intro i x h; simp [ValidatorConfigV2.empty] at h
  ingress := ⟨by simp [ValidatorConfigV2.empty], by
    simp [ValidatorConfigV2.empty]⟩
  sound := by simp [ValidatorConfigV2.empty]

/-- A free address belongs to no active record. -/
theorem address_not_mem (h : RegistryInv codec s) {addr : Address} (hfree : s.AddressFree addr) :
    some addr ∉ s.validators.map activeAddress := by
  intro hmem
  obtain ⟨i, hi⟩ := mem_iff_getElem?.mp hmem
  have hindex := h.addresses i addr hi
  rw [getElem?_map, map_eq_some_iff] at hi
  obtain ⟨v, hv, haddr⟩ := hi
  refine hfree ⟨by omega, ?_⟩
  rw [hindex, Nat.add_sub_cancel, recordAt, getD_eq_getElem?_getD, hv]
  change v.deactivatedAtHeight = 0
  by_contra hclosed
  rw [activeAddress, if_neg hclosed] at haddr
  cases haddr

theorem keys_concat (h : RegistryInv codec s) (hkey : s.pubkeyToIndex v.publicKey = 0) :
    Indexes (update s.pubkeyToIndex v.publicKey (s.validators.length + 1))
      ((s.validators ++ [v]).map publicKey) := by
  have hpush := h.keys.push hkey
  rw [length_map] at hpush
  rw [map_append]
  exact hpush

theorem mem_concat_sound (h : RegistryInv codec s) (hw : w.Sound codec) :
    ∀ u ∈ s.validators ++ [w], u.Sound codec :=
  forall_mem_append.mpr ⟨h.sound, forall_mem_singleton.mpr hw⟩

variable {ingressHash : B256}

theorem registerActive (h : RegistryInv codec s) (hkey : s.pubkeyToIndex v.publicKey = 0)
    (haddr : s.AddressFree v.validatorAddress)
    (hparse : codec.ingressKey v.ingress = .ok ingressHash)
    (hmark : s.activeIngressIps ingressHash = false) (hactive : v.deactivatedAtHeight = 0)
    (hplace : v.activeIdx = s.activeIndices.length + 1) :
    RegistryInv codec (s.registerActive v ingressHash) where
  active := by
    have hpush := h.active.push
    rw [length_map] at hpush
    change Mirror _ ((s.validators ++ [v]).map activeIdx)
    rw [map_append, map_singleton, hplace]
    exact hpush
  keys := h.keys_concat hkey
  addresses := by
    change Points _ ((s.validators ++ [v]).map activeAddress)
    rw [map_append, map_singleton]
    refine Points.concat (h.addresses.update (h.address_not_mem haddr)) ?_
    intro x hx
    rw [activeAddress, if_pos hactive] at hx
    rw [← some.inj hx, length_map]
    exact update_self ..
  ingress := by
    change Marks _ ((s.validators ++ [v]).map (activeIngress codec))
    rw [map_append, map_singleton, activeIngress_of_active hactive hparse]
    exact h.ingress.concat_some hmark
  sound := h.mem_concat_sound ⟨by omega, fun _ => ⟨ingressHash, hparse⟩⟩

theorem registerInactive (h : RegistryInv codec s) (hkey : s.pubkeyToIndex v.publicKey = 0)
    (haddr : s.AddressFree v.validatorAddress)
    (hclosed : v.deactivatedAtHeight ≠ 0) (hplace : v.activeIdx = 0) :
    RegistryInv codec (s.register v) where
  active := by
    change Mirror _ ((s.validators ++ [v]).map activeIdx)
    rw [map_append, map_singleton, hplace]
    exact h.active.concat_zero
  keys := h.keys_concat hkey
  addresses := by
    change Points _ ((s.validators ++ [v]).map activeAddress)
    rw [map_append, map_singleton, activeAddress, if_neg hclosed]
    exact Points.concat (h.addresses.update (h.address_not_mem haddr)) nofun
  ingress := by
    change Marks _ ((s.validators ++ [v]).map (activeIngress codec))
    rw [map_append, map_singleton, activeIngress, if_neg hclosed]
    exact h.ingress.concat_none
  sound := h.mem_concat_sound (sound_of_closed hclosed hplace)

/-- The mark and the projection of an active record. -/
theorem activeIngress_at (hv : s.ActiveAt idx v)
    (hparse : codec.ingressKey v.ingress = .ok ingressHash) :
    (s.validators.map (activeIngress codec))[idx]? = some (some ingressHash) :=
  (hv.map _).trans (congrArg some (activeIngress_of_active hv.2 hparse))

theorem mem_set_sound (h : RegistryInv codec s) (hw : w.Sound codec) :
    ∀ u ∈ s.validators.set idx w, u.Sound codec := by
  intro u hu
  rcases mem_or_eq_of_mem_set hu with hu | rfl
  · exact h.sound u hu
  · exact hw

variable {oldHash newHash : B256} {ingress : String} {s' : ValidatorConfigV2}

/-- The ingress marks follow a record whose ingress changes. -/
theorem moveIngress (h : RegistryInv codec s) (hv : s.ActiveAt idx v)
    (hold : codec.ingressKey v.ingress = .ok oldHash)
    (hunused : oldHash ≠ newHash → s.activeIngressIps newHash = false) :
    Marks (s.moveIngress oldHash newHash).activeIngressIps
      ((s.validators.map (activeIngress codec)).set idx (some newHash)) := by
  have hat := activeIngress_at hv hold
  unfold ValidatorConfigV2.moveIngress
  split
  next hne => exact h.ingress.move hat (hunused hne)
  next heq =>
    rw [← not_not.mp heq]
    obtain ⟨hlen, hget⟩ := List.getElem?_eq_some_iff.mp hat
    rw [← hget, set_getElem_self]
    exact h.ingress

theorem moveIngress_eq (s : ValidatorConfigV2) (oldHash newHash : B256) :
    s.moveIngress oldHash newHash =
      { s with
        activeIngressIps := (s.moveIngress oldHash newHash).activeIngressIps } := by
  unfold ValidatorConfigV2.moveIngress
  split <;> rfl

theorem rotate (h : RegistryInv codec s) (hheight : height ≠ 0)
    (hv : s.ActiveAt idx v) {key : B256} {egress : String} (hkey : s.pubkeyToIndex key = 0)
    (hold : codec.ingressKey v.ingress = .ok oldHash)
    (hnew : codec.ingressKey ingress = .ok newHash) (hunused : s.activeIngressIps newHash = false) :
    RegistryInv codec ((s.moveIngress oldHash newHash).rotate idx v key ingress egress height) := by
  have hlen : idx < s.validators.length := (List.getElem?_eq_some_iff.mp hv.1).1
  have hmarks := h.moveIngress hv hold fun _ => hunused
  rw [moveIngress_eq]
  generalize (s.moveIngress oldHash newHash).activeIngressIps = marks at hmarks ⊢
  -- the record in place keeps its address and back-pointer
  refine ⟨?_, ?_, ?_, ?_, ?_⟩
  · change Mirror s.activeIndices (map activeIdx (set _ idx _))
    rw [set_append_left _ _ hlen, map_append, map_set_of_eq hv.1]
    · exact h.active.concat_zero
    · rfl
  · have hsup := h.keys.supersede (hv.map _) hkey
    change Indexes _ (map publicKey (set _ idx _))
    rw [map_set, map_append]
    rw [length_map] at hsup
    exact hsup
  · change Points s.addressToIndex (map activeAddress (set _ idx _))
    rw [set_append_left _ _ hlen, map_append, map_set_of_eq hv.1, map_singleton,
      activeAddress, if_neg (by exact hheight)]
    · exact Points.concat h.addresses nofun
    · rfl
  · change Marks marks (map (activeIngress codec) (set _ idx _))
    rw [set_append_left _ _ hlen, map_append, map_set, map_singleton,
      activeIngress_of_active (by exact hv.2) hnew, activeIngress, if_neg (by exact hheight)]
    exact hmarks.concat_none
  · change ∀ u ∈ set _ idx _, _
    rw [set_append_left _ _ hlen]
    have hsound := h.sound v (mem_of_getElem? hv.1)
    exact forall_mem_append.mpr ⟨h.mem_set_sound ⟨hsound.1, fun _ => ⟨newHash, hnew⟩⟩,
      forall_mem_singleton.mpr (sound_of_closed hheight rfl)⟩

/-- An active record is overwritten by one with the same key and place, and
the tables of addresses and ingress keys follow. -/
theorem edit (h : RegistryInv codec s) (hv : s.ActiveAt idx v)
    (hkey : w.publicKey = v.publicKey) (hplace : w.activeIdx = v.activeIdx)
    (hsound : w.Sound codec) {addresses : Address → Nat} {marks : B256 → Bool}
    (haddresses : Points addresses ((s.validators.map activeAddress).set idx w.activeAddress))
    (hmarks : Marks marks ((s.validators.map (activeIngress codec)).set idx
        (w.activeIngress codec))) :
    RegistryInv codec
      { s with
        validators := s.validators.set idx w
        addressToIndex := addresses
        activeIngressIps := marks } where
  active := by
    rw [map_set_of_eq hv.1 hplace]
    exact h.active
  keys := by
    rw [map_set_of_eq hv.1 hkey]
    exact h.keys
  addresses := by
    rw [map_set]
    exact haddresses
  ingress := by
    rw [map_set]
    exact hmarks
  sound := h.mem_set_sound hsound

/-- A projection that agrees on the new record needs no change. -/
theorem set_map_self {β : Type} {f : ValidatorRecord → β} {b : β}
    (hv : s.ActiveAt idx v) (hb : b = f v) :
    (s.validators.map f).set idx b = s.validators.map f := by
  rw [hb, ← map_set, map_set_of_eq hv.1 rfl]

theorem paidTo (h : RegistryInv codec s) (hv : s.ActiveAt idx v) (feeRecipient : Address) :
    RegistryInv codec (s.putRecord idx { v with feeRecipient }) := by
  refine h.edit (w := { v with feeRecipient }) hv rfl rfl (h.sound v (mem_of_getElem? hv.1)) ?_ ?_
  · rw [set_map_self hv]
    · exact h.addresses
    · rfl
  · rw [set_map_self hv]
    · exact h.ingress
    · rfl

theorem relocated (h : RegistryInv codec s) (hv : s.ActiveAt idx v)
    (egress : String) (hold : codec.ingressKey v.ingress = .ok oldHash)
    (hnew : codec.ingressKey ingress = .ok newHash)
    (hunused : oldHash ≠ newHash → s.activeIngressIps newHash = false) :
    RegistryInv codec ((s.moveIngress oldHash newHash).putRecord idx
      { v with ingress, egress }) := by
  have hsound := h.sound v (mem_of_getElem? hv.1)
  rw [moveIngress_eq]
  refine h.edit (w := { v with ingress, egress }) hv rfl rfl
    ⟨hsound.1, fun _ => ⟨newHash, hnew⟩⟩ ?_ ?_
  · rw [set_map_self hv]
    · exact h.addresses
    · rfl
  · rw [activeIngress_of_active (by exact hv.2) hnew]
    exact h.moveIngress hv hold hunused

theorem readdressed (h : RegistryInv codec s) (hv : s.ActiveAt idx v)
    {newAddress : Address} (hfree : s.AddressFree newAddress) :
    RegistryInv codec (((s.putRecord idx { v with validatorAddress := newAddress }
        ).putAddressIndex v.validatorAddress 0).putAddressIndex newAddress (idx + 1)) := by
  -- first the old address leaves the list, then the new one enters it
  have hclear : Points s.addressToIndex ((s.validators.map activeAddress).set idx none) :=
    h.addresses.set nofun
  have hgone : some v.validatorAddress ∉ (s.validators.map activeAddress).set idx none := by
    intro hmem
    obtain ⟨j, hj⟩ := mem_iff_getElem?.mp hmem
    rw [getElem?_set] at hj
    split at hj
    · split at hj <;> cases hj
    next hne => exact hne (h.addresses.position_unique hv.activeAddress hj)
  have hnone : some newAddress ∉ (s.validators.map activeAddress).set idx none := by
    intro hmem
    rcases mem_or_eq_of_mem_set hmem with hmem | hmem
    · exact h.address_not_mem hfree hmem
    · cases hmem
  have hset := ((hclear.update (n := 0) hgone).update (n := idx + 1)
    hnone).set (i := idx) (o := some newAddress) (by
      intro x hx
      rw [← some.inj hx, update_self])
  rw [set_set] at hset
  refine h.edit (w := { v with validatorAddress := newAddress }) hv rfl rfl
    (h.sound v (mem_of_getElem? hv.1)) ?_ ?_
  · rw [activeAddress, if_pos (by exact hv.2)]
    exact hset
  · rw [set_map_self hv]
    · exact h.ingress
    · rfl

/-! Deactivation: the swap-and-pop, written out on the tables before it. -/

variable (h : RegistryInv codec s)
include h

theorem retire_eq (hv : s.ActiveAt idx v)
    (hplace : v.activeIdx = k + 1) (ingressHash : B256) (height : Nat) :
    ∃ m u, s.activeIndices[s.activeIndices.length - 1]? = some (m + 1) ∧ s.validators[m]? = some u ∧
      s.retire idx k ingressHash height =
        { s with
          activeIngressIps := update s.activeIngressIps ingressHash false
          activeIndices := swapRemoveAt s.activeIndices k
          validators := (s.validators.set m { u with activeIdx := k + 1 }).set
            idx { v with deactivatedAtHeight := height, activeIdx := 0 } } := by
  have hlen : idx < s.validators.length := (List.getElem?_eq_some_iff.mp hv.1).1
  have hk := (h.active.mirror k idx).mpr (hplace ▸ hv.map activeIdx)
  have hklen := (List.getElem?_eq_some_iff.mp hk).1
  have hlast := getElem?_eq_getElem (Nat.sub_one_lt_of_lt hklen)
  obtain ⟨m, hm, hmback⟩ := h.active.position hlast
  rw [hm] at hlast
  rw [getElem?_map, map_eq_some_iff] at hmback
  obtain ⟨u, hu, huback⟩ := hmback
  refine ⟨m, u, hlast, hu, ?_⟩
  have hrec : s.validators.getD idx .blank = v := hv.recordAt
  have hswap : swapRemoveAt s.activeIndices k = (s.activeIndices.set k (m + 1)).dropLast := by
    rw [swapRemoveAt, getLast?_eq_getElem?, hlast]
  rw [hswap]
  by_cases hmove : k ≠ s.activeIndices.length - 1
  · have hmi : m ≠ idx := by
      rintro rfl
      have huv : u = v := some.inj (hu.symm.trans hv.1)
      rw [huv] at huback
      omega
    rw [retire, compactActive, if_pos (by exact hmove)]
    simp only [closeRecord, dropActive, putRecord, putIngress, recordAt, hrec,
      getD_eq_getElem?_getD, hlast, getD_some, Nat.add_sub_cancel, getElem?_set,
      if_neg hmi, if_neg (Ne.symm hmi), hu, if_true, if_pos hlen]
    rw [set_comm _ _ (Ne.symm hmi), set_set]
  · have hkl := not_not.mp hmove
    have hmi : m = idx := by
      rw [← hkl, hk] at hlast
      exact (Nat.succ.inj (some.inj hlast)).symm
    rw [retire, compactActive, if_neg (by exact hmove)]
    simp only [closeRecord, dropActive, putRecord, putIngress, recordAt, hrec, hmi, set_set,
      getD_eq_getElem?_getD, getElem?_set, if_true, if_pos hlen, getD_some]
    congr 1
    rw [hkl, dropLast_eq_take, dropLast_eq_take, length_set, take_set_of_le le_rfl]

theorem retire (hheight : height ≠ 0) (hv : s.ActiveAt idx v)
    (hparse : codec.ingressKey v.ingress = .ok ingressHash) (hplace : v.activeIdx = k + 1) :
    RegistryInv codec (s.retire idx k ingressHash height) := by
  obtain ⟨m, u, hlast, hu, heq⟩ := h.retire_eq hv hplace ingressHash height
  rw [heq]
  have hback := hplace ▸ hv.map activeIdx
  have husound := h.sound u (mem_of_getElem? hu)
  -- the moved record is active, so its new back-pointer is consistent
  have hum : (s.validators.map activeIdx)[m]? = some (s.activeIndices.length - 1 + 1) :=
    (h.active.mirror _ m).mp hlast
  have huplace : u.activeIdx ≠ 0 := by
    rw [getElem?_map, hu, map_some] at hum
    have := some.inj hum
    omega
  have hvm := hv.moved hu (w := { u with activeIdx := k + 1 })
  have huv : m = idx → u = v := by
    rintro rfl
    exact some.inj (hu.symm.trans hv.1)
  refine ⟨?_, ?_, ?_, ?_, ?_⟩
  · rw [map_set, map_set]
    exact h.active.swapRemove hback hlast
  · rw [map_set_of_eq hvm, map_set_of_eq hu]
    · exact h.keys
    · rfl
    · split
      next heq => rw [huv heq]
      next => rfl
  · rw [map_set, map_set_of_eq hu, activeAddress, if_neg (by exact hheight)]
    · exact h.addresses.set nofun
    · rfl
  · have hout : activeIngress codec
        { v with deactivatedAtHeight := height, activeIdx := 0 } = none := by
      rw [activeIngress, if_neg (by exact hheight)]
    rw [map_set, map_set_of_eq hu, hout]
    · exact h.ingress.clear (activeIngress_at hv hparse)
    · rfl
  · intro w hw
    rcases mem_or_eq_of_mem_set hw with hw | rfl
    · refine h.mem_set_sound (w := { u with activeIdx := k + 1 }) ⟨?_, husound.2⟩ w hw
      exact ⟨fun hzero => absurd hzero (Nat.succ_ne_zero k),
        fun hclosed => absurd (husound.1.mpr hclosed) huplace⟩
    · exact sound_of_closed hheight rfl

theorem change (hheight : height ≠ 0)
    (hc : RegistryChange codec height s s') : RegistryInv codec s' := by
  cases hc with
  | administered config epoch =>
    exact ⟨h.active, h.keys, h.addresses, h.ingress, h.sound⟩
  | registeredActive key address parses ingress active added place =>
    exact h.registerActive key address parses ingress active place
  | registeredInactive key address closed added place =>
    exact h.registerInactive key address (closed ▸ hheight) place
  | retired record parses place =>
    exact h.retire hheight record parses place
  | rotated record newKey parsesOld parsesNew unused =>
    exact h.rotate hheight record newKey parsesOld parsesNew unused
  | paidTo record feeRecipient => exact h.paidTo record feeRecipient
  | relocated egress record parsesOld parsesNew unused =>
    exact h.relocated record egress parsesOld parsesNew unused
  | readdressed record free => exact h.readdressed record free

theorem changes (hheight : height ≠ 0) (hc : Changes codec height s s') : RegistryInv codec s' := by
  induction hc with
  | refl => exact h
  | tail _ hc ih => exact ih.change hheight hc

end RegistryInv

namespace RegistryCall

/-- A successful call in a block at height one or later. -/
def Step (codec : ValidatorCodec) (s s' : ValidatorConfigV2) : Prop :=
  ∃ (height : Nat) (c : RegistryCall), 1 ≤ height ∧ Yields (c.exec codec height) s () s'

variable {codec : ValidatorCodec} {s s₀ s' : ValidatorConfigV2}

theorem step_inv (h : RegistryInv codec s) (hstep : Step codec s s') : RegistryInv codec s' := by
  obtain ⟨height, c, hpos, hcall⟩ := hstep
  have hheight : height ≠ 0 := by omega
  exact h.changes hheight (exec_changes hheight hcall)

theorem run_inv (hrun : ReflTransGen (Step codec) s s')
    (h : RegistryInv codec s) : RegistryInv codec s' :=
  run_invariant (I := RegistryInv codec) (fun _ _ h hstep => step_inv h hstep) hrun h

/-- Public keys are reserved for ever. -/
theorem change_key_kept {height : Nat} {key : B256}
    (hc : RegistryChange codec height s s') (hkey : s.pubkeyToIndex key ≠ 0) :
    s'.pubkeyToIndex key ≠ 0 := by
  have hput : ∀ (index : B256 → Nat) (other : B256) (n : Nat),
      index key ≠ 0 → update index other (n + 1) key ≠ 0 := by
    intro index other n hindex
    by_cases heq : key = other
    · rw [heq, update_self]
      omega
    · rwa [update_of_ne heq]
  cases hc with
  | administered config epoch => exact hkey
  | registeredActive => exact hput _ _ _ hkey
  | registeredInactive => exact hput _ _ _ hkey
  | retired =>
    unfold retire compactActive
    split <;> exact hkey
  | rotated =>
    rw [RegistryInv.moveIngress_eq]
    exact hput _ _ _ (hput _ _ _ hkey)
  | paidTo => exact hkey
  | relocated =>
    rw [RegistryInv.moveIngress_eq]
    exact hkey
  | readdressed => exact hkey

theorem run_key_kept {key : B256} (hrun : ReflTransGen (Step codec) s s')
    (hkey : s.pubkeyToIndex key ≠ 0) : s'.pubkeyToIndex key ≠ 0 := by
  refine run_invariant (I := fun t => t.pubkeyToIndex key ≠ 0) ?_ hrun hkey
  rintro t t' ht ⟨height, c, hpos, hcall⟩
  have hchanges := exec_changes (by omega) hcall
  clear hcall
  induction hchanges with
  | refl => exact ht
  | tail _ hc ih => exact change_key_kept hc ih

end RegistryCall

/-- What the tables of the registry say of its records. -/
structure TablesAgree (codec : ValidatorCodec) (s : ValidatorConfigV2) : Prop where
  active_nodup : s.activeIndices.Nodup
  active_mem : ∀ n, n ∈ s.activeIndices ↔ ∃ i v, n = i + 1 ∧ s.ActiveAt i v
  active_place : ∀ k n, s.activeIndices[k]? = some n →
    ∃ v, s.validators[n - 1]? = some v ∧ v.activeIdx = k + 1
  inactive_place : ∀ v ∈ s.validators, v.deactivatedAtHeight ≠ 0 → v.activeIdx = 0
  address_unique : ∀ i j v w, s.ActiveAt i v → s.ActiveAt j w →
    v.validatorAddress = w.validatorAddress → i = j
  ingress_unique : ∀ i j v w, s.ActiveAt i v → s.ActiveAt j w →
    codec.ingressKey v.ingress = codec.ingressKey w.ingress → i = j
  address_index : ∀ i v, s.ActiveAt i v → s.addressToIndex v.validatorAddress = i + 1
  ingress_mark : ∀ h, s.activeIngressIps h = true ↔
    ∃ i v, s.ActiveAt i v ∧ codec.ingressKey v.ingress = .ok h

namespace RegistryInv

variable {codec : ValidatorCodec} {s : ValidatorConfigV2} {i : Nat}

theorem activeAt_of_activeIngress {hash : B256}
    (hi : (s.validators.map (activeIngress codec))[i]? = some (some hash)) :
    ∃ v, s.ActiveAt i v ∧ codec.ingressKey v.ingress = .ok hash := by
  rw [getElem?_map, map_eq_some_iff] at hi
  obtain ⟨v, hv, hproj⟩ := hi
  rw [activeIngress] at hproj
  split at hproj
  next hactive =>
    refine ⟨v, ⟨hv, hactive⟩, ?_⟩
    cases hkey : codec.ingressKey v.ingress with
    | ok h' =>
      rw [hkey] at hproj
      exact congrArg _ (some.inj hproj)
    | error e =>
      rw [hkey] at hproj
      cases hproj
  next => cases hproj

variable (h : RegistryInv codec s)
include h

theorem mem_active_iff {n : Nat} : n ∈ s.activeIndices ↔ ∃ i v, n = i + 1 ∧ s.ActiveAt i v := by
  constructor
  · intro hn
    obtain ⟨k, hk⟩ := mem_iff_getElem?.mp hn
    obtain ⟨i, rfl, hback⟩ := h.active.position hk
    rw [getElem?_map, map_eq_some_iff] at hback
    obtain ⟨v, hv, hplace⟩ := hback
    refine ⟨i, v, rfl, hv, ?_⟩
    by_contra hclosed
    have hzero := (h.sound v (mem_of_getElem? hv)).1.mpr hclosed
    omega
  · rintro ⟨i, v, rfl, hv⟩
    refine h.active.mem_iff.mpr ⟨v.activeIdx, ?_, ?_⟩
    · exact hv.map activeIdx
    · intro hzero
      exact (h.sound v (mem_of_getElem? hv.1)).1.mp hzero hv.2

theorem address_index
    {v : ValidatorRecord} (hv : s.ActiveAt i v) : s.addressToIndex v.validatorAddress = i + 1 := by
  exact h.addresses i _ hv.activeAddress

theorem tables : TablesAgree codec s where
  active_nodup := h.active.nodup
  active_mem n := h.mem_active_iff
  active_place k n hk := by
    obtain ⟨i, rfl, hback⟩ := h.active.position hk
    rw [getElem?_map, map_eq_some_iff] at hback
    exact hback
  inactive_place v hv hclosed := (h.sound v hv).1.mpr hclosed
  address_unique i j v w hv hw heq := by
    have hi := h.address_index hv
    have hj := h.address_index hw
    rw [heq] at hi
    omega
  ingress_unique i j v w hv hw heq := by
    obtain ⟨hash, hparse⟩ := (h.sound v (mem_of_getElem? hv.1)).2 hv.2
    exact h.ingress.position_unique i j hash (activeIngress_at hv hparse)
      (activeIngress_at hw (heq ▸ hparse))
  address_index i v hv := h.address_index hv
  ingress_mark hash := by
    rw [h.ingress.marked hash, mem_iff_getElem?]
    constructor
    · rintro ⟨i, hi⟩
      exact ⟨i, activeAt_of_activeIngress hi⟩
    · rintro ⟨i, v, hv, hparse⟩
      exact ⟨i, activeIngress_at hv hparse⟩

theorem key_index {key : B256} :
    s.pubkeyToIndex key = i + 1 ↔ ∃ v, s.validators[i]? = some v ∧ v.publicKey = key := by
  rw [h.keys key i, getElem?_map, map_eq_some_iff]

end RegistryInv

namespace RegistryCall

variable {codec : ValidatorCodec} {s₀ s : ValidatorConfigV2}

/-- In every reachable state the tables agree with the records, and every
public key registered at any earlier time is mapped to the only record that
holds it. -/
theorem registry_represented (hearlier : ReflTransGen (Step codec) ValidatorConfigV2.empty s₀)
    (hrun : ReflTransGen (Step codec) s₀ s) :
    TablesAgree codec s ∧ ∀ v₀ ∈ s₀.validators, ∃ i, s.pubkeyToIndex v₀.publicKey = i + 1 ∧
        ∀ j, (∃ v, s.validators[j]? = some v ∧ v.publicKey = v₀.publicKey) ↔ j = i := by
  have hinv₀ := run_inv hearlier RegistryInv.empty
  have hinv := run_inv hrun hinv₀
  refine ⟨hinv.tables, fun v₀ hv₀ => ?_⟩
  obtain ⟨i₀, hi₀⟩ := mem_iff_getElem?.mp hv₀
  have hindex₀ := hinv₀.key_index.mpr ⟨v₀, hi₀, rfl⟩
  have hkept : s.pubkeyToIndex v₀.publicKey ≠ 0 := run_key_kept hrun (by omega)
  obtain ⟨i, hi⟩ := Nat.exists_eq_succ_of_ne_zero hkept
  refine ⟨i, hi, fun j => ?_⟩
  rw [← hinv.key_index, hi]
  omega

/-- A codec for concrete runs: an ingress is keyed by its characters. -/
def textCodec : ValidatorCodec where
  ingressKey ingress := .ok (ingress.toList.foldl (fun key c => 256 * key + c.toNat) 0)
  validateEndpoints _ _ := .ok ()
  decodesPublicKey _ := true
  parseEgress egress := some egress
  verifySignature _ _ _ _ _ _ := .ok ()

/-- A validator is added at height one and rotated at height two; both of its
keys are found afterwards. -/
theorem registry_represented_rotated :
    let owner : Address := ⟨1⟩
    let operator : Address := ⟨2⟩
    let s₁ := finalState ((initializeDirectly owner).exec textCodec 1) ValidatorConfigV2.empty
    let s₂ := finalState ((addValidator owner operator 5 "1.1.1.1:1" "1.1.1.1" operator []).exec
      textCodec 1) s₁
    let s₃ := finalState ((rotateValidator operator 0 6 "1.1.1.1:2" "1.1.1.1" []).exec
      textCodec 2) s₂
    TablesAgree textCodec s₃ ∧ s₂.validators.map publicKey = [5] ∧
      s₃.validators.map publicKey = [6, 5] ∧
      ∀ v₀ ∈ s₂.validators, ∃ i, s₃.pubkeyToIndex v₀.publicKey = i + 1 ∧
        ∀ j, (∃ v, s₃.validators[j]? = some v ∧ v.publicKey = v₀.publicKey) ↔ j = i := by
  intro owner operator s₁ s₂ s₃
  have hearlier : ReflTransGen (Step textCodec) ValidatorConfigV2.empty s₂ :=
    (ReflTransGen.single ⟨1, _, by decide, yields_finalState (by decide)⟩).tail
      ⟨1, _, by decide, yields_finalState (by decide)⟩
  have hrun : ReflTransGen (Step textCodec) s₂ s₃ :=
    .single ⟨2, _, by decide, yields_finalState (by decide)⟩
  have hall := registry_represented hearlier hrun
  exact ⟨hall.1, by decide, by decide, hall.2⟩

end RegistryCall

end Tempo
