/-
The migration from the first registry.  Its validators are handled one by one
from the last index down, each appended or counted as skipped; the next index
follows from the two counts and a snapshot of the old length, which is kept in
eight bits.
-/
import Tempo.Validators.Invariant

namespace Tempo

open ValidatorConfigV2 List

/-- What identifies a record through its later changes of status. -/
def ValidatorRecord.identity (v : ValidatorRecord) : B256 × Address × String × String :=
  (v.publicKey, v.validatorAddress, v.ingress, v.egress)

/-- The record is made of the old validator. -/
def V1Validator.RecordedAs (codec : ValidatorCodec) (val : V1Validator)
    (v : ValidatorRecord) : Prop :=
  v.publicKey = val.publicKey ∧ v.validatorAddress = val.validatorAddress ∧
    v.ingress = val.inboundAddress ∧ codec.parseEgress val.outboundAddress = some v.egress

/-- One handled index, with the states around it. -/
structure MigrationEntry where
  idx : Nat
  before : ValidatorConfigV2
  after : ValidatorConfigV2

variable {codec : ValidatorCodec} {v1 : V1View} {s s' : ValidatorConfigV2}
  {log : List MigrationEntry} {height : Nat} {sender : Address}

/-- The calls that succeed between deployment and initialization, with a log
of the migrated indices; calls that fail are reverted. -/
inductive MigrationRun (codec : ValidatorCodec) (v1 : V1View) :
    ValidatorConfigV2 → List MigrationEntry → Prop where
  | start : MigrationRun codec v1 .empty []
  | migrate {s s' : ValidatorConfigV2} {log : List MigrationEntry}
      {height idx : Nat} {sender : Address} (hrun : MigrationRun codec v1 s log)
      (h : Yields (migrateValidator codec height v1 sender idx) s () s') :
      MigrationRun codec v1 s' (log ++ [⟨idx, s, s'⟩])
  | deactivate {s s' : ValidatorConfigV2} {log : List MigrationEntry}
      {height idx : Nat} {sender : Address} (hrun : MigrationRun codec v1 s log)
      (h : Yields (deactivateValidator codec height sender idx) s () s') :
      MigrationRun codec v1 s' log

namespace MigrationEntry

/-- The validator was appended. -/
def Appends (codec : ValidatorCodec) (val : V1Validator) (e : MigrationEntry) : Prop :=
  ∃ v, val.RecordedAs codec v ∧ e.after.validators = e.before.validators ++ [v] ∧
    e.after.config.migrationSkippedCount = e.before.config.migrationSkippedCount

/-- The validator was counted as skipped. -/
def Skips (e : MigrationEntry) : Prop :=
  e.after.validators = e.before.validators ∧ e.after.config.migrationSkippedCount =
      e.before.config.migrationSkippedCount + 1

/-- Active with a readable key that is not in use, a readable outbound address
and an ingress that is not in use. -/
structure Eligible (codec : ValidatorCodec) (val : V1Validator) (e : MigrationEntry) : Prop where
  active : val.active = true
  decodes : codec.decodesPublicKey val.publicKey = true
  parses : codec.parseEgress val.outboundAddress ≠ none
  keyUnused : e.before.pubkeyToIndex val.publicKey = 0
  ingressUnused : ∀ hash, codec.ingressKey val.inboundAddress = .ok hash →
    e.before.activeIngressIps hash = false

end MigrationEntry

namespace ValidatorConfigV2

open ValidatorRecord

variable {idx : Nat}

/-! Deactivation. -/

theorem map_identity_set (records : List ValidatorRecord) (i : Nat) {v : ValidatorRecord}
    (hv : v.identity = (records.getD i .blank).identity) :
    (records.set i v).map identity = records.map identity := by
  by_cases hi : i < records.length
  · apply map_set_of_eq (getElem?_eq_getElem hi)
    rw [hv, getD_eq_getElem?_getD, getElem?_eq_getElem hi]
    rfl
  · rw [set_eq_of_length_le (Nat.not_lt.mp hi)]

theorem compactActive_identity (s : ValidatorConfigV2) (k : Nat) :
    (s.compactActive k).config = s.config ∧ (s.compactActive k).validators.map identity =
        s.validators.map identity := by
  unfold compactActive
  split
  · exact ⟨rfl, map_identity_set _ _ rfl⟩
  · exact ⟨rfl, rfl⟩

theorem deactivateValidator_identity
    (h : Yields (deactivateValidator codec height sender idx) s () s') :
    s'.config = s.config ∧ s'.validators.map identity = s.validators.map identity := by
  obtain ⟨-, hash, k, -, -, -, rfl⟩ := deactivateValidator_retires h
  constructor
  · exact (compactActive_identity _ k).1
  · have hdropped (t : ValidatorConfigV2) : (t.dropActive idx).validators.map identity =
        t.validators.map identity := map_identity_set _ _ rfl
    exact (hdropped _).trans ((compactActive_identity _ k).2.trans (map_identity_set _ _ rfl))

/-! Migration of one validator. -/

/-- How far the migration has come. -/
def handled (s : ValidatorConfigV2) : Nat :=
  s.validators.length + s.config.migrationSkippedCount

/-- The owner and the snapshot are taken over by the first call. -/
structure Migrating (v1 : V1View) (s : ValidatorConfigV2) : Prop where
  fresh : s.config.owner = 0 → s.handled = 0
  count : s.config.owner ≠ 0 → s.config.v1ValidatorCount = v1.validatorCount
  bound : s.handled ≤ v1.validatorCount

/-- The state a migration goes on from, and the configuration it goes by. -/
structure Prepared (v1 : V1View) (s s' : ValidatorConfigV2)
    (config : ValidatorRegistryConfig) : Prop where
  same : s' = { s with config := s'.config }
  skipped : s'.config.migrationSkippedCount = s.config.migrationSkippedCount
  owner : s'.config.owner ≠ 0
  count : s'.config.v1ValidatorCount = v1.validatorCount
  localCount : config.v1ValidatorCount = v1.validatorCount
  localSkipped : config.migrationSkippedCount = s.config.migrationSkippedCount

theorem requireMigrationOwner_prepared {config : ValidatorRegistryConfig}
    (hcount : v1.validatorCount ≤ 255) (howner : v1.owner ≠ 0) (hs : s.Migrating v1)
    (h : Yields (requireMigrationOwner v1 sender) s config s') : Prepared v1 s s' config := by
  simp only [requireMigrationOwner, ValidatorRegistryConfig.requireNotInit,
    ValidatorRegistryConfig.requireOwner, yields_steps] at h
  obtain ⟨-, h⟩ := h
  have hmod : v1.validatorCount % 256 = v1.validatorCount := Nat.mod_eq_of_lt (by omega)
  split at h
  next hzero =>
    simp only [yields_steps] at h
    obtain ⟨-, -, rfl, rfl⟩ := h
    have hskipped : s.config.migrationSkippedCount = 0 := by
      have := hs.fresh hzero
      unfold handled at this
      omega
    exact ⟨rfl, hskipped.symm, howner, hmod, hmod, rfl⟩
  next hset =>
    simp only [yields_steps] at h
    obtain ⟨-, rfl, rfl⟩ := h
    exact ⟨rfl, rfl, hset, hs.count hset, hs.count hset, rfl⟩

namespace Prepared

variable {s₁ : ValidatorConfigV2} {config : ValidatorRegistryConfig} (h : Prepared v1 s s₁ config)
include h

theorem validators : s₁.validators = s.validators := by
  rw [h.same]

theorem migrating (hlt : s.handled < v1.validatorCount) (hhandled : s'.handled = s.handled + 1)
    (howner : s'.config.owner = s₁.config.owner)
    (hcount : s'.config.v1ValidatorCount = s₁.config.v1ValidatorCount) : s'.Migrating v1 where
  fresh hzero := absurd (howner ▸ hzero) h.owner
  count _ := hcount.trans h.count
  bound := hhandled ▸ hlt

/-- Skipping cannot saturate: fewer than 255 validators were handled. -/
theorem skips (hcount : v1.validatorCount ≤ 255) (hlt : s.handled < v1.validatorCount)
    (hskip : Yields (skipMigration config.migrationSkippedCount) s₁ () s') :
    MigrationEntry.Skips ⟨idx, s, s'⟩ ∧ s'.Migrating v1 := by
  have hs' := hskip.updates
  have hadd : saturatingAdd 8 config.migrationSkippedCount 1 =
      s.config.migrationSkippedCount + 1 := by
    rw [h.localSkipped]
    apply min_eq_left
    have hword : maxWord 8 = 255 := rfl
    unfold handled at hlt
    omega
  subst hs'
  refine ⟨⟨h.validators, hadd⟩, h.migrating hlt ?_ rfl rfl⟩
  unfold handled
  dsimp only
  rw [h.validators, hadd]
  omega

theorem appends (hlt : s.handled < v1.validatorCount) {val : V1Validator}
    {v : ValidatorRecord} (hv : val.RecordedAs codec v)
    (hpush : s'.validators = s₁.validators ++ [v]) (hconfig : s'.config = s₁.config) :
    MigrationEntry.Appends codec val ⟨idx, s, s'⟩ ∧ s'.Migrating v1 := by
  rw [h.validators] at hpush
  refine ⟨⟨v, hv, hpush, hconfig ▸ h.skipped⟩, h.migrating hlt ?_ (hconfig ▸ rfl) (hconfig ▸ rfl)⟩
  unfold handled
  rw [hpush, hconfig, h.skipped, length_append, length_singleton]
  omega

end Prepared

variable {egress : String}

/-- What a migration does with a validator it found readable. -/
theorem migrateReadable_yields {skipped : Nat} {val : V1Validator}
    (hparse : codec.parseEgress val.outboundAddress = some egress)
    (h : Yields (migrateReadable codec height skipped val egress) s () s') :
    (∃ v, val.RecordedAs codec v ∧ s'.validators = s.validators ++ [v] ∧ s'.config = s.config) ∨
      Yields (skipMigration skipped) s () s' ∧
        ∃ hash, codec.ingressKey val.inboundAddress = .ok hash ∧
          s.activeIngressIps hash = true := by
  simp only [migrateReadable, yields_steps, id_eq] at h
  obtain ⟨-, hash, hhash, h⟩ := h
  split at h
  next hused => exact .inr ⟨h, hash, hhash, hused.2⟩
  · obtain ⟨n, s₁, happend, h⟩ := h.bind
    have happended : ∃ v, val.RecordedAs codec v ∧
        s₁.validators = s.validators ++ [v] ∧ s₁.config = s.config := by
      obtain ⟨-, rfl⟩ := yields_appendValidator happend
      refine ⟨_, ?_, rfl, rfl⟩
      exact ⟨rfl, rfl, rfl, hparse⟩
    left
    by_cases hactive : val.active = true
    · simp only [hactive, if_true, yields_updates] at h
      rw [← h]
      exact happended
    · simp only [hactive, Bool.false_eq_true, if_false, yields_pure, true_and] at h
      rw [← h]
      exact happended

/-- One step of the migration: the index is the next one down, and its
validator is appended or skipped, the former if it is eligible. -/
theorem migrateValidator_yields (hcount : v1.validatorCount ≤ 255)
    (howner : v1.owner ≠ 0) (hs : s.Migrating v1)
    (h : Yields (migrateValidator codec height v1 sender idx) s () s') :
    s.handled + idx + 1 = v1.validatorCount ∧ s'.Migrating v1 ∧ ∃ val, v1.validator idx = .ok val ∧
        (MigrationEntry.Appends codec val ⟨idx, s, s'⟩ ∨ MigrationEntry.Skips ⟨idx, s, s'⟩ ∧
            ¬MigrationEntry.Eligible codec val ⟨idx, s, s'⟩) := by
  obtain ⟨config, s₁, hrequire, h⟩ := h.bind
  have hp := requireMigrationOwner_prepared hcount howner hs hrequire
  simp only [yields_steps, id_eq, not_or, not_le, not_not] at h
  obtain ⟨⟨hlt, hidx⟩, val, hval, h⟩ := h
  rw [hp.validators, hp.localCount, hp.localSkipped] at hlt hidx
  have hdone : (MigrationEntry.Appends codec val ⟨idx, s, s'⟩ ∧ s'.Migrating v1) ∨
      Yields (skipMigration config.migrationSkippedCount) s₁ () s' ∧
        ¬MigrationEntry.Eligible codec val ⟨idx, s, s'⟩ := by
    split at h
    next hdecodes =>
      exact .inr ⟨h, fun he => by simp [he.decodes] at hdecodes⟩
    · split at h
      next hparse => exact .inr ⟨h, fun he => he.parses hparse⟩
      next egress hparse =>
        split at h
        next hused =>
          rw [hp.same] at hused
          exact .inr ⟨h, fun he => hused he.keyUnused⟩
        · rcases migrateReadable_yields hparse h with
            ⟨v, hv, hpush, hconfig⟩ | ⟨hskip, hash, hhash, hused⟩
          · exact .inl (hp.appends hlt hv hpush hconfig)
          · refine .inr ⟨hskip, fun he => ?_⟩
            rw [hp.same] at hused
            exact absurd (hused.symm.trans (he.ingressUnused hash hhash)) (by decide)
  refine ⟨by unfold handled; omega, ?_⟩
  rcases hdone with ⟨happend, hmigrating⟩ | ⟨hskip, hineligible⟩
  · exact ⟨hmigrating, val, hval, .inl happend⟩
  · obtain ⟨hskips, hmigrating⟩ := hp.skips hcount hlt hskip
    exact ⟨hmigrating, val, hval, .inr ⟨hskips, hineligible⟩⟩

end ValidatorConfigV2

namespace MigrationRun

open ValidatorRecord RegistryCall

/-- The validator of an entry, how it was handled, and that it is still there
if it was appended. -/
def Settled (codec : ValidatorCodec) (v1 : V1View) (s : ValidatorConfigV2)
    (e : MigrationEntry) : Prop :=
  ∃ val, v1.validator e.idx = .ok val ∧
    (e.Appends codec val ∧ (∃ v ∈ s.validators, val.RecordedAs codec v) ∨
      e.Skips ∧ ¬e.Eligible codec val)

/-- Records are not lost. -/
theorem Settled.mono {e : MigrationEntry} (h : Settled codec v1 s e)
    (hsub : s.validators.map identity ⊆ s'.validators.map identity) : Settled codec v1 s' e := by
  obtain ⟨val, hval, ⟨happend, v, hv, hkey, haddress, hin, hout⟩ | hskip⟩ := h
  · obtain ⟨v', hv', heq⟩ := mem_map.mp (hsub (mem_map_of_mem hv))
    simp only [identity, Prod.mk.injEq] at heq
    obtain ⟨hk, ha, hi, ho⟩ := heq
    exact ⟨val, hval, .inl ⟨happend, v', hv', hk.trans hkey, ha.trans haddress,
      hi.trans hin, ho ▸ hout⟩⟩
  · exact ⟨val, hval, .inr hskip⟩

/-- The log lists the indices from the last one down. -/
structure Progress (codec : ValidatorCodec) (v1 : V1View)
    (s : ValidatorConfigV2) (log : List MigrationEntry) : Prop where
  migrating : s.Migrating v1
  indices : (log.map MigrationEntry.idx).reverse = range' (v1.validatorCount - s.handled) s.handled
  settled : ∀ e ∈ log, Settled codec v1 s e

theorem Progress.migrate {idx : Nat} (hcount : v1.validatorCount ≤ 255)
    (howner : v1.owner ≠ 0) (hs : Progress codec v1 s log)
    (h : Yields (migrateValidator codec height v1 sender idx) s () s') :
    Progress codec v1 s' (log ++ [⟨idx, s, s'⟩]) := by
  obtain ⟨hnext, hmigrating, val, hval, hdone⟩ :=
    migrateValidator_yields hcount howner hs.migrating h
  have hkept : s'.handled = s.handled + 1 ∧
      s.validators.map identity ⊆ s'.validators.map identity := by
    unfold handled
    rcases hdone with ⟨v, -, hpush, hsame⟩ | ⟨⟨hsame, hplus⟩, -⟩
    · dsimp only at hpush hsame
      rw [hpush, hsame, map_append, length_append, length_singleton]
      exact ⟨by omega, subset_append_left _ _⟩
    · dsimp only at hsame hplus
      rw [hsame, hplus]
      exact ⟨by omega, List.Subset.refl _⟩
  refine ⟨hmigrating, ?_, ?_⟩
  · rw [map_append, reverse_append, hs.indices, hkept.1,
      show v1.validatorCount - (s.handled + 1) = idx by omega,
      show v1.validatorCount - s.handled = idx + 1 by omega]
    rfl
  · intro e he
    rcases mem_append.mp he with he | he
    · exact (hs.settled e he).mono hkept.2
    · rw [mem_singleton.mp he]
      refine ⟨val, hval, hdone.imp (fun happend => ⟨happend, ?_⟩) id⟩
      obtain ⟨v, hv, hpush, -⟩ := happend
      refine ⟨v, ?_, hv⟩
      rw [hpush]
      exact mem_append_right _ mem_cons_self

theorem Progress.deactivate {idx : Nat} (hs : Progress codec v1 s log)
    (h : Yields (deactivateValidator codec height sender idx) s () s') :
    Progress codec v1 s' log := by
  obtain ⟨hconfig, hsame⟩ := deactivateValidator_identity h
  have hhandled : s'.handled = s.handled := by
    have hlength := congrArg length hsame
    rw [length_map, length_map] at hlength
    unfold handled
    rw [hlength, hconfig]
  refine ⟨⟨?_, ?_, ?_⟩, ?_, ?_⟩
  · rw [hconfig, hhandled]
    exact hs.migrating.fresh
  · rw [hconfig]
    exact hs.migrating.count
  · rw [hhandled]
    exact hs.migrating.bound
  · rw [hhandled]
    exact hs.indices
  · intro e he
    apply (hs.settled e he).mono
    rw [hsame]
    exact List.Subset.refl _

theorem progress (hcount : v1.validatorCount ≤ 255) (howner : v1.owner ≠ 0)
    (hrun : MigrationRun codec v1 s log) : Progress codec v1 s log := by
  induction hrun with
  | start =>
    exact ⟨⟨fun _ => rfl, fun h => absurd rfl h, Nat.zero_le _⟩, rfl, fun _ h => nomatch h⟩
  | migrate _ h ih => exact ih.migrate hcount howner h
  | deactivate _ h ih => exact ih.deactivate h

/-- Initialization goes through only when every index was handled. -/
theorem initializeIfMigrated_yields (hcount : v1.validatorCount ≤ 255)
    (howner : v1.owner ≠ 0) (hs : s.Migrating v1)
    (h : Yields (initializeIfMigrated height v1 sender) s () s') :
    s.handled = v1.validatorCount ∧ s'.validators = s.validators ∧
      s'.config.migrationSkippedCount = s.config.migrationSkippedCount := by
  obtain ⟨config, s₁, hrequire, h⟩ := h.bind
  have hp := requireMigrationOwner_prepared hcount howner hs hrequire
  simp only [yields_steps, not_or, not_lt] at h
  obtain ⟨⟨-, hle⟩, rfl⟩ := h
  rw [hp.localCount, hp.localSkipped, hp.validators] at hle
  exact ⟨le_antisymm hs.bound hle, hp.validators, hp.localSkipped⟩

/-- With at most 255 validators in the old registry, and an owner there, a
migration that can be initialized is complete: every index was handled exactly
once, from the last one down, each by appending its validator or by counting
it as skipped; and every validator that was eligible when its turn came is in
the new registry. -/
theorem migration_complete (hcount : v1.validatorCount ≤ 255)
    (howner : v1.owner ≠ 0) (hrun : MigrationRun codec v1 s log)
    (hinit : Yields (initializeIfMigrated height v1 sender) s () s') :
    log.map MigrationEntry.idx = (range v1.validatorCount).reverse ∧
    s'.validators.length + s'.config.migrationSkippedCount = v1.validatorCount ∧
    ∀ e ∈ log, ∃ val, v1.validator e.idx = .ok val ∧ (e.Appends codec val ∨ e.Skips) ∧
      (e.Eligible codec val → ∃ v ∈ s'.validators, val.RecordedAs codec v) := by
  have hprogress := progress hcount howner hrun
  obtain ⟨hall, hsame, hskipped⟩ :=
    initializeIfMigrated_yields hcount howner hprogress.migrating hinit
  refine ⟨?_, ?_, ?_⟩
  · have hindices := hprogress.indices
    rw [hall, Nat.sub_self, ← range_eq_range'] at hindices
    rw [← hindices, reverse_reverse]
  · rw [hsame, hskipped]
    exact hall
  · intro e he
    obtain ⟨val, hval, ⟨happend, hpresent⟩ | ⟨hskip, hineligible⟩⟩ := hprogress.settled e he
    · rw [hsame]
      exact ⟨val, hval, .inl happend, fun _ => hpresent⟩
    · exact ⟨val, hval, .inr hskip, fun he => absurd he hineligible⟩

/-- Three active validators: the first two share a key, the outer two share an
address, and all share an ingress. -/
def threeValidators : V1View where
  owner := ⟨9⟩
  validatorCount := 3
  validator i := .ok
    { publicKey := if i = 0 then 1 else 2
      active := true
      validatorAddress := if i = 1 then ⟨4⟩ else ⟨3⟩
      inboundAddress := "1.1.1.1:1"
      outboundAddress := "1.1.1.1" }
  nextFullDkgCeremony := 0

/-- The last validator is migrated, the second is skipped for its key, and the
first goes through once the last one is deactivated. -/
theorem migration_complete_three :
    let s₀ := ValidatorConfigV2.empty
    let s₁ := finalState (migrateValidator textCodec 1 threeValidators ⟨9⟩ 2) s₀
    let s₂ := finalState (migrateValidator textCodec 2 threeValidators ⟨9⟩ 1) s₁
    let s₃ := finalState (deactivateValidator textCodec 3 ⟨9⟩ 0) s₂
    let s₄ := finalState (migrateValidator textCodec 4 threeValidators ⟨9⟩ 0) s₃
    let s₅ := finalState (initializeIfMigrated 5 threeValidators ⟨9⟩) s₄
    s₅.validators.map publicKey = [2, 1] ∧ s₅.config.migrationSkippedCount = 1 ∧
      [(⟨2, s₀, s₁⟩ : MigrationEntry), ⟨1, s₁, s₂⟩, ⟨0, s₃, s₄⟩].map
        MigrationEntry.idx = (range 3).reverse := by
  intro s₀ s₁ s₂ s₃ s₄ s₅
  have hrun : MigrationRun textCodec threeValidators s₄ [⟨2, s₀, s₁⟩, ⟨1, s₁, s₂⟩, ⟨0, s₃, s₄⟩] :=
    (((start.migrate (yields_finalState (by decide))).migrate (yields_finalState
      (by decide))).deactivate (yields_finalState (by decide))).migrate
      (yields_finalState (by decide))
  exact ⟨by decide, by decide,
    (migration_complete (by decide) (by decide) hrun (yields_finalState (by decide) :
      Yields (initializeIfMigrated 5 threeValidators ⟨9⟩) s₄ () s₅)).1⟩

/-- One validator more than the count in eight bits tells from one. -/
def manyValidators : V1View where
  owner := ⟨9⟩
  validatorCount := 257
  validator i := .ok
    { publicKey := i + 1
      active := true
      validatorAddress := ⟨i + 1⟩
      inboundAddress := "1.1.1.1:" ++ toString (i + 1)
      outboundAddress := "1.1.1.1" }
  nextFullDkgCeremony := 0

/-- With 257 validators the snapshot of their number is one: after the
validator with index 0 the migration can be initialized, and the other 256
are never handled.  The last of them is active and eligible. -/
theorem migration_wraps :
    let s₀ := ValidatorConfigV2.empty
    let s₁ := finalState (migrateValidator textCodec 1 manyValidators ⟨9⟩ 0) s₀
    let s₂ := finalState (initializeIfMigrated 2 manyValidators ⟨9⟩) s₁
    MigrationRun textCodec manyValidators s₁ [⟨0, s₀, s₁⟩] ∧
      Yields (initializeIfMigrated 2 manyValidators ⟨9⟩) s₁ () s₂ ∧
      [(⟨0, s₀, s₁⟩ : MigrationEntry)].map MigrationEntry.idx ≠
        (range manyValidators.validatorCount).reverse ∧
      ∃ val, manyValidators.validator 256 = .ok val ∧
        MigrationEntry.Eligible textCodec val ⟨256, s₁, s₂⟩ ∧
        val.publicKey ∉ s₂.validators.map publicKey := by
  intro s₀ s₁ s₂
  refine ⟨start.migrate (yields_finalState (by decide)), yields_finalState (by decide), ?_, _, rfl,
    ⟨rfl, rfl, ?_, ?_, ?_⟩, ?_⟩
  · intro h
    have hlength := congrArg length h
    rw [length_reverse, length_range] at hlength
    cases hlength
  · exact fun h => nomatch h
  · decide
  · rintro hash ⟨⟩
    decide
  · decide

end MigrationRun

end Tempo
