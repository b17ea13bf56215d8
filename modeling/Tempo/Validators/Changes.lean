/-
The calls of the validator registry and what a successful one does to its
tables.  `RegistryChange` lists the changes with the checks that guard them;
every call is a short sequence of these at the height of its block, so that
what is shown of the changes holds of every call.
-/
import Tempo.Validators.Registry

namespace Tempo

open ValidatorRegistryConfig

inductive RegistryCall where
  | initializeDirectly (owner : Address)
  | addValidator (sender validatorAddress : Address) (publicKey : B256)
      (ingress egress : String) (feeRecipient : Address) (signature : List UInt8)
  | deactivateValidator (sender : Address) (idx : Nat)
  | transferOwnership (sender newOwner : Address)
  | setNetworkIdentityRotationEpoch (sender : Address) (epoch : Nat)
  | rotateValidator (sender : Address) (idx : Nat) (publicKey : B256)
      (ingress egress : String) (signature : List UInt8)
  | setFeeRecipient (sender : Address) (idx : Nat) (feeRecipient : Address)
  | setIpAddresses (sender : Address) (idx : Nat) (ingress egress : String)
  | transferValidatorOwnership (sender : Address) (idx : Nat) (newAddress : Address)
  | migrateValidator (v1 : V1View) (sender : Address) (idx : Nat)
  | initializeIfMigrated (v1 : V1View) (sender : Address)

namespace RegistryCall

open ValidatorConfigV2

def exec (codec : ValidatorCodec) (height : Nat) : RegistryCall → Exec ValidatorConfigV2 Unit
  | initializeDirectly owner =>
    ValidatorConfigV2.initializeDirectly owner height
  | addValidator sender addr key ingress egress feeRecipient signature => do
    let _ ← ValidatorConfigV2.addValidator codec height sender addr key
      ingress egress feeRecipient signature
  | deactivateValidator sender idx =>
    ValidatorConfigV2.deactivateValidator codec height sender idx
  | transferOwnership sender newOwner =>
    ValidatorConfigV2.transferOwnership sender newOwner
  | setNetworkIdentityRotationEpoch sender epoch =>
    ValidatorConfigV2.setNetworkIdentityRotationEpoch sender epoch
  | rotateValidator sender idx key ingress egress signature =>
    ValidatorConfigV2.rotateValidator codec height sender idx key ingress egress signature
  | setFeeRecipient sender idx feeRecipient =>
    ValidatorConfigV2.setFeeRecipient sender idx feeRecipient
  | setIpAddresses sender idx ingress egress =>
    ValidatorConfigV2.setIpAddresses codec sender idx ingress egress
  | transferValidatorOwnership sender idx newAddress =>
    ValidatorConfigV2.transferValidatorOwnership sender idx newAddress
  | migrateValidator v1 sender idx =>
    ValidatorConfigV2.migrateValidator codec height v1 sender idx
  | initializeIfMigrated v1 sender =>
    ValidatorConfigV2.initializeIfMigrated height v1 sender

end RegistryCall

namespace ValidatorConfigV2

/-- No record at all, or a deactivated one, is filed under the address. -/
def AddressFree (s : ValidatorConfigV2) (addr : Address) : Prop :=
  ¬(s.addressToIndex addr ≠ 0 ∧ (s.recordAt (s.addressToIndex addr - 1)).deactivatedAtHeight = 0)

/-- Appends a record and files it under its key and address. -/
def register (s : ValidatorConfigV2) (v : ValidatorRecord) : ValidatorConfigV2 :=
  ((s.pushRecord v).putPubkeyIndex v.publicKey
    (s.validators.length + 1)).putAddressIndex v.validatorAddress (s.validators.length + 1)

def registerActive (s : ValidatorConfigV2) (v : ValidatorRecord)
    (ingressHash : B256) : ValidatorConfigV2 :=
  { (s.register v).putIngress ingressHash true with
    activeIndices := s.activeIndices ++ [s.validators.length + 1] }

/-- The mark moves when the key does. -/
def moveIngress (s : ValidatorConfigV2) (oldHash newHash : B256) : ValidatorConfigV2 :=
  if oldHash ≠ newHash then
    (s.putIngress oldHash false).putIngress newHash true
  else s

/-- The last entry of the active list takes the place `k`, with its
back-pointer. -/
def compactActive (s : ValidatorConfigV2) (k : Nat) : ValidatorConfigV2 :=
  if k ≠ s.activeIndices.length - 1 then
    let movedVal := s.activeIndices.getD (s.activeIndices.length - 1) 0
    { s with
      activeIndices := s.activeIndices.set k movedVal
      validators := s.validators.set (movedVal - 1)
        { s.recordAt (movedVal - 1) with activeIdx := k + 1 } }
  else s

def closeRecord (s : ValidatorConfigV2) (idx height : Nat) : ValidatorConfigV2 :=
  s.putRecord idx { s.recordAt idx with deactivatedAtHeight := height }

def dropActive (s : ValidatorConfigV2) (idx : Nat) : ValidatorConfigV2 :=
  { s with
    activeIndices := s.activeIndices.dropLast
    validators := s.validators.set idx { s.recordAt idx with activeIdx := 0 } }

/-- Deactivation of the record `idx`, at place `k` of the active list. -/
def retire (s : ValidatorConfigV2) (idx k : Nat) (ingressHash : B256)
    (height : Nat) : ValidatorConfigV2 :=
  ((((s.putIngress ingressHash false).closeRecord idx height).compactActive k ).dropActive idx)

/-- The old identity is kept in a deactivated snapshot, the new one takes its
place. -/
def rotate (s : ValidatorConfigV2) (idx : Nat) (v : ValidatorRecord)
    (key : B256) (ingress egress : String) (height : Nat) : ValidatorConfigV2 :=
  { s with
    validators := (s.validators ++ [{ v with
          index := s.validators.length
          activeIdx := 0
          deactivatedAtHeight := height }]).set idx
      { v with
        publicKey := key
        ingress := ingress
        egress := egress
        addedAtHeight := height }
    pubkeyToIndex := Function.update (Function.update s.pubkeyToIndex
      v.publicKey (s.validators.length + 1)) key (idx + 1) }

/-- What is found at `idx` when it is an active record. -/
def ActiveAt (s : ValidatorConfigV2) (idx : Nat) (v : ValidatorRecord) : Prop :=
  s.validators[idx]? = some v ∧ v.deactivatedAtHeight = 0

end ValidatorConfigV2

open ValidatorConfigV2

/-- The changes calls make at a height. -/
inductive RegistryChange (codec : ValidatorCodec) (height : Nat) :
    ValidatorConfigV2 → ValidatorConfigV2 → Prop
  | administered {s : ValidatorConfigV2} (config : ValidatorRegistryConfig) (epoch : Nat) :
      RegistryChange codec height s { s with config, nextNetworkIdentityRotationEpoch := epoch }
  | registeredActive {s : ValidatorConfigV2} {v : ValidatorRecord} {ingressHash : B256}
      (key : s.pubkeyToIndex v.publicKey = 0) (address : s.AddressFree v.validatorAddress)
      (parses : codec.ingressKey v.ingress = .ok ingressHash)
      (ingress : s.activeIngressIps ingressHash = false) (active : v.deactivatedAtHeight = 0)
      (added : v.addedAtHeight = height) (place : v.activeIdx = s.activeIndices.length + 1) :
      RegistryChange codec height s (s.registerActive v ingressHash)
  | registeredInactive {s : ValidatorConfigV2} {v : ValidatorRecord}
      (key : s.pubkeyToIndex v.publicKey = 0) (address : s.AddressFree v.validatorAddress)
      (closed : v.deactivatedAtHeight = height) (added : v.addedAtHeight = height)
      (place : v.activeIdx = 0) :
      RegistryChange codec height s (s.register v)
  | retired {s : ValidatorConfigV2} {idx k : Nat} {v : ValidatorRecord} {ingressHash : B256}
      (record : s.ActiveAt idx v) (parses : codec.ingressKey v.ingress = .ok ingressHash)
      (place : v.activeIdx = k + 1) :
      RegistryChange codec height s (s.retire idx k ingressHash height)
  | rotated {s : ValidatorConfigV2} {idx : Nat} {v : ValidatorRecord}
      {key oldHash newHash : B256} {ingress egress : String} (record : s.ActiveAt idx v)
      (newKey : s.pubkeyToIndex key = 0) (parsesOld : codec.ingressKey v.ingress = .ok oldHash)
      (parsesNew : codec.ingressKey ingress = .ok newHash)
      (unused : s.activeIngressIps newHash = false) :
      RegistryChange codec height s
        ((s.moveIngress oldHash newHash).rotate idx v key ingress egress height)
  | paidTo {s : ValidatorConfigV2} {idx : Nat} {v : ValidatorRecord}
      (record : s.ActiveAt idx v) (feeRecipient : Address) :
      RegistryChange codec height s (s.putRecord idx { v with feeRecipient })
  | relocated {s : ValidatorConfigV2} {idx : Nat} {v : ValidatorRecord}
      {oldHash newHash : B256} {ingress : String} (egress : String) (record : s.ActiveAt idx v)
      (parsesOld : codec.ingressKey v.ingress = .ok oldHash)
      (parsesNew : codec.ingressKey ingress = .ok newHash)
      (unused : oldHash ≠ newHash → s.activeIngressIps newHash = false) :
      RegistryChange codec height s ((s.moveIngress oldHash newHash).putRecord idx
          { v with ingress, egress })
  | readdressed {s : ValidatorConfigV2} {idx : Nat} {v : ValidatorRecord} {newAddress : Address}
      (record : s.ActiveAt idx v) (free : s.AddressFree newAddress) :
      RegistryChange codec height s (((s.putRecord idx { v with validatorAddress := newAddress }
          ).putAddressIndex v.validatorAddress 0).putAddressIndex newAddress (idx + 1))

namespace ValidatorConfigV2

variable {codec : ValidatorCodec} {height : Nat} {s s' : ValidatorConfigV2}
  {idx : Nat} {ingress egress : String} {feeRecipient sender : Address} {v : ValidatorRecord}

theorem yields_getActiveValidator :
    Yields (getActiveValidator idx) s v s' ↔ s.ActiveAt idx v ∧ s = s' := by
  simp only [getActiveValidator, yields_steps, ActiveAt]
  constructor
  · rintro ⟨w, hw, hactive, rfl, rfl⟩
    exact ⟨⟨hw, hactive⟩, rfl⟩
  · rintro ⟨⟨hv, hactive⟩, rfl⟩
    exact ⟨v, hv, hactive, rfl, rfl⟩

theorem yields_getActiveValidator_bind {α : Type}
    {k : ValidatorRecord → Exec ValidatorConfigV2 α} {a : α} :
    Yields (getActiveValidator idx >>= k) s a s' ↔ ∃ v, s.ActiveAt idx v ∧ Yields (k v) s a s' := by
  simp only [yields_bind, yields_getActiveValidator]
  constructor
  · rintro ⟨v, s1, ⟨hv, rfl⟩, h⟩
    exact ⟨v, hv, h⟩
  · rintro ⟨v, hv, h⟩
    exact ⟨v, s, ⟨hv, rfl⟩, h⟩

theorem ActiveAt.recordAt (h : s.ActiveAt idx v) : s.recordAt idx = v := by
  rw [ValidatorConfigV2.recordAt, List.getD_eq_getElem?_getD, h.1]
  rfl

variable {key : B256} {v1 : V1View} {sig : List UInt8} {addr : Address} {skipped : Nat}

theorem yields_appendValidator {added closed n : Nat}
    (h : Yields (appendValidator addr key ingress egress feeRecipient added closed) s n s') :
    n = s.validators.length ∧ s' = { s.register
          { publicKey := key
            validatorAddress := addr
            ingress := ingress
            egress := egress
            feeRecipient := feeRecipient
            index := s.validators.length
            activeIdx := if closed = 0 then s.activeIndices.length + 1 else 0
            addedAtHeight := added
            deactivatedAtHeight := closed } with
        activeIndices :=
          if closed = 0 then s.activeIndices ++ [s.validators.length + 1]
          else s.activeIndices } := by
  by_cases hclosed : closed = 0
  · simp only [appendValidator, hclosed, if_true, yields_steps, List.length_append,
    List.length_singleton] at h ⊢
    exact ⟨h.1.symm, h.2.symm⟩
  · simp only [appendValidator, hclosed, if_false, yields_steps] at h ⊢
    exact ⟨h.1.symm, h.2.symm⟩

theorem yields_updateIngressIpTracking {oldIngress newIngress : String}
    (h : Yields (updateIngressIpTracking codec oldIngress newIngress) s ⟨⟩ s') :
    ∃ oldHash newHash, codec.ingressKey oldIngress = .ok oldHash ∧
      codec.ingressKey newIngress = .ok newHash ∧
      (oldHash ≠ newHash → s.activeIngressIps newHash = false) ∧
      s' = s.moveIngress oldHash newHash := by
  simp only [updateIngressIpTracking, yields_ofExcept_bind] at h
  obtain ⟨oldHash, hold, newHash, hnew, h⟩ := h
  refine ⟨oldHash, newHash, hold, hnew, ?_⟩
  by_cases hne : oldHash ≠ newHash
  · simp only [if_pos hne, yields_steps, id_eq] at h
    exact ⟨fun _ => h.1, by rw [moveIngress, if_pos hne]; exact h.2.symm⟩
  · simp only [if_neg hne, yields_pure, true_and] at h
    exact ⟨fun hne' => absurd hne' hne, by rw [moveIngress, if_neg hne]; exact h.symm⟩

theorem yields_getOwnValidator_bind {α : Type}
    {k : ValidatorRecord → Exec ValidatorConfigV2 α} {a : α}
    (h : Yields (getOwnValidator sender idx >>= k) s a s') :
    ∃ v, s.ActiveAt idx v ∧ Yields (k v) s a s' := by
  obtain ⟨w, s1, hget, h⟩ := h.bind
  simp only [getOwnValidator, yields_getActiveValidator_bind, yields_steps, requireInit,
    requireOwnerOrValidator] at hget
  obtain ⟨v, hv, -, -, rfl, rfl⟩ := hget
  exact ⟨v, hv, h⟩

/-! Each operation as a sequence of changes. -/

abbrev Changes (codec : ValidatorCodec) (height : Nat) :
    ValidatorConfigV2 → ValidatorConfigV2 → Prop :=
  Relation.ReflTransGen (RegistryChange codec height)

theorem addValidator_changes {n : Nat}
    (h : Yields (addValidator codec height sender addr key ingress egress
      feeRecipient sig) s n s') : Changes codec height s s' := by
  simp only [addValidator, requireInit, requireOwner, requireNewPubkey, requireNewAddress,
    requireUniqueIngress, bind_assoc, pure_bind, yields_steps, id_eq] at h
  obtain ⟨-, -, -, hkey, -, hfree, -, -, hash, hhash, hunused, -, -, h⟩ := h
  obtain ⟨-, rfl⟩ := yields_appendValidator h
  exact .single (.registeredActive hkey hfree hhash hunused rfl rfl rfl)

theorem deactivateValidator_retires
    (h : Yields (deactivateValidator codec height sender idx) s () s') :
    ∃ v hash k, s.ActiveAt idx v ∧ codec.ingressKey v.ingress = .ok hash ∧
      v.activeIdx = k + 1 ∧ s' = s.retire idx k hash height := by
  simp only [deactivateValidator, yields_getActiveValidator_bind, requireOwnerOrValidator,
    yields_steps, checkedSub_eq_some] at h
  obtain ⟨v, hv, -, hash, hhash, k, ⟨hpos, hk⟩, last, ⟨-, hlast⟩, h⟩ := h
  refine ⟨v, hash, k, hv, hhash, by omega, ?_⟩
  subst hlast
  by_cases hmove : k ≠ s.activeIndices.length - 1
  · rw [retire, compactActive, if_pos (by exact hmove)]
    rw [if_pos (by exact hmove)] at h
    simp only [moveLastActive, yields_steps] at h
    exact h.symm
  · rw [retire, compactActive, if_neg (by exact hmove)]
    rw [if_neg (by exact hmove)] at h
    simp only [yields_steps] at h
    exact h.symm

theorem deactivateValidator_changes
    (h : Yields (deactivateValidator codec height sender idx) s () s') :
    Changes codec height s s' := by
  obtain ⟨v, hash, k, hv, hhash, hplace, rfl⟩ := deactivateValidator_retires h
  exact .single (.retired hv hhash hplace)

theorem rotateValidator_changes
    (h : Yields (rotateValidator codec height sender idx key ingress egress
      sig) s () s') : Changes codec height s s' := by
  simp only [rotateValidator, yields_getActiveValidator_bind, requireInit, requireOwnerOrValidator,
    requireNewPubkey, requireUniqueIngress, bind_assoc, pure_bind, yields_steps, id_eq] at h
  obtain ⟨v, hv, -, -, -, hkey, -, -, hash, hhash, hunused, -, -, h⟩ := h
  obtain ⟨⟨⟩, s1, htrack, h⟩ := h.bind
  obtain ⟨oldHash, newHash, hold, hnew, -, rfl⟩ := yields_updateIngressIpTracking htrack
  obtain rfl : hash = newHash := Except.ok.inj (hhash.symm.trans hnew)
  simp only [yields_steps] at h
  have hrecords : (s.moveIngress oldHash hash).validators = s.validators := by
    unfold moveIngress
    split <;> rfl
  have hrecord : ∀ w, ((s.moveIngress oldHash hash).pushRecord w).recordAt idx = v := by
    intro w
    have hlen := (List.getElem?_eq_some_iff.mp hv.1).1
    rw [recordAt, pushRecord, hrecords, List.getD_eq_getElem?_getD,
      List.getElem?_append_left hlen, hv.1]
    rfl
  have hend : s' = (s.moveIngress oldHash hash).rotate idx v key ingress egress
      height := by
    rw [← h]
    simp only [putPubkeyIndex, putRecord, rotate]
    have hr := hrecord
    simp only [recordAt, pushRecord] at hr ⊢
    simp only [hr]
  rw [hend]
  exact .single (.rotated hv hkey hold hnew hunused)

theorem setFeeRecipient_changes (h : Yields (setFeeRecipient sender idx feeRecipient) s () s') :
    Changes codec height s s' := by
  obtain ⟨v, hv, h⟩ := yields_getOwnValidator_bind h
  rw [← h.updates]
  exact .single (.paidTo hv feeRecipient)

theorem setIpAddresses_changes
    (h : Yields (setIpAddresses codec sender idx ingress egress) s () s') :
    Changes codec height s s' := by
  obtain ⟨v, hv, h⟩ := yields_getOwnValidator_bind h
  rw [yields_ofExcept_bind] at h
  obtain ⟨-, -, h⟩ := h
  obtain ⟨⟨⟩, s1, htrack, h⟩ := h.bind
  obtain ⟨oldHash, newHash, hold, hnew, hunused, rfl⟩ := yields_updateIngressIpTracking htrack
  rw [← h.updates]
  exact .single (.relocated egress hv hold hnew hunused)

theorem transferValidatorOwnership_changes {newAddress : Address}
    (h : Yields (transferValidatorOwnership sender idx newAddress) s () s') :
    Changes codec height s s' := by
  obtain ⟨v, hv, h⟩ := yields_getOwnValidator_bind h
  simp only [requireNewAddress, bind_assoc, yields_steps, id_eq] at h
  obtain ⟨-, hfree, rfl⟩ := h
  exact .single (.readdressed hv hfree)

theorem transferOwnership_changes {newOwner : Address}
    (h : Yields (transferOwnership sender newOwner) s () s') : Changes codec height s s' := by
  simp only [transferOwnership, requireInit, requireOwner, yields_steps] at h
  obtain ⟨-, -, -, rfl⟩ := h
  exact .single (.administered _ s.nextNetworkIdentityRotationEpoch)

theorem setNetworkIdentityRotationEpoch_changes {epoch : Nat}
    (h : Yields (setNetworkIdentityRotationEpoch sender epoch) s () s') :
    Changes codec height s s' := by
  simp only [setNetworkIdentityRotationEpoch, requireInit, requireOwner, yields_steps] at h
  obtain ⟨-, -, rfl⟩ := h
  exact .single (.administered s.config epoch)

theorem requireMigrationOwner_changes {caller : Address} {config : ValidatorRegistryConfig}
    (h : Yields (requireMigrationOwner v1 caller) s config s') : Changes codec height s s' := by
  simp only [requireMigrationOwner, requireNotInit, requireOwner, yields_steps] at h
  obtain ⟨-, h⟩ := h
  split at h
  · simp only [yields_steps] at h
    obtain ⟨-, -, -, rfl⟩ := h
    exact .single (.administered _ s.nextNetworkIdentityRotationEpoch)
  · simp only [yields_steps] at h
    obtain ⟨-, -, rfl⟩ := h
    exact .refl

theorem skipMigration_changes (h : Yields (skipMigration skipped) s () s') :
    Changes codec height s s' := by
  rw [← h.updates]
  exact .single (.administered _ s.nextNetworkIdentityRotationEpoch)

theorem migrateReadable_changes {val : V1Validator}
    (hheight : height ≠ 0) (hkey : s.pubkeyToIndex val.publicKey = 0)
    (h : Yields (migrateReadable codec height skipped val egress) s () s') :
    Changes codec height s s' := by
  simp only [migrateReadable, yields_steps, id_eq] at h
  obtain ⟨hfree, hash, hhash, h⟩ := h
  split at h
  · exact skipMigration_changes h
  next hfresh =>
    obtain ⟨n, s1, happend, h⟩ := h.bind
    obtain ⟨-, rfl⟩ := yields_appendValidator happend
    by_cases hactive : val.active = true
    · simp only [hactive, if_true, yields_updates] at h
      have hunused : s.activeIngressIps hash = false := by
        simpa [hactive] using hfresh
      rw [← h]
      exact .single (.registeredActive hkey hfree hhash hunused rfl rfl rfl)
    · simp only [hactive, if_neg hheight, Bool.false_eq_true, if_false, yields_pure, true_and] at h
      rw [← h]
      exact .single (.registeredInactive hkey hfree rfl rfl rfl)

theorem migrateValidator_changes (hheight : height ≠ 0)
    (h : Yields (migrateValidator codec height v1 sender idx) s () s') :
    Changes codec height s s' := by
  obtain ⟨config, s1, howner, h⟩ := h.bind
  refine (requireMigrationOwner_changes howner).trans ?_
  simp only [yields_steps, id_eq] at h
  obtain ⟨-, val, -, h⟩ := h
  split at h
  · exact skipMigration_changes h
  · split at h
    · exact skipMigration_changes h
    · split at h
      · exact skipMigration_changes h
      next hkey =>
        exact migrateReadable_changes hheight (not_not.mp hkey) h

theorem initializeIfMigrated_changes (h : Yields (initializeIfMigrated height v1 sender) s () s') :
    Changes codec height s s' := by
  obtain ⟨config, s1, howner, h⟩ := h.bind
  refine (requireMigrationOwner_changes howner).trans ?_
  simp only [yields_steps] at h
  rw [← h.2]
  exact .single (.administered _ v1.nextFullDkgCeremony)

end ValidatorConfigV2

/-- Every successful call is a sequence of changes at its height. -/
theorem RegistryCall.exec_changes {codec : ValidatorCodec} {height : Nat}
    {c : RegistryCall} {s s' : ValidatorConfigV2} (hheight : height ≠ 0)
    (h : Yields (c.exec codec height) s () s') : ValidatorConfigV2.Changes codec height s s' := by
  cases c with
  | initializeDirectly owner =>
    rw [← h.updates]
    exact .single (.administered _ s.nextNetworkIdentityRotationEpoch)
  | addValidator sender addr key ingress egress feeRecipient signature =>
    obtain ⟨n, hadd⟩ := Yields.of_bind_pure h
    exact addValidator_changes hadd
  | deactivateValidator sender idx => exact deactivateValidator_changes h
  | transferOwnership sender newOwner => exact transferOwnership_changes h
  | setNetworkIdentityRotationEpoch sender epoch =>
    exact setNetworkIdentityRotationEpoch_changes h
  | rotateValidator sender idx key ingress egress signature =>
    exact rotateValidator_changes h
  | setFeeRecipient sender idx feeRecipient =>
    exact setFeeRecipient_changes h
  | setIpAddresses sender idx ingress egress => exact setIpAddresses_changes h
  | transferValidatorOwnership sender idx newAddress =>
    exact transferValidatorOwnership_changes h
  | migrateValidator v1 sender idx =>
    exact migrateValidator_changes hheight h
  | initializeIfMigrated v1 sender => exact initializeIfMigrated_changes h

end Tempo
