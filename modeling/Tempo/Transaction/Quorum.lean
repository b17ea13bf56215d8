/-
The quorum of a configurable account.  The pass over the approvals accepts
exactly the lists of owners that reach the threshold with the last of them,
and a configuration is accepted exactly if some owners within the limit reach
it: exchanging owners for heavier ones never loses weight.
-/
import Tempo.Library.Exec
import Tempo.Transaction.ConfigurableAccount

namespace Tempo

open ConfigurableAccountWeightAccumulator List

variable {config : ConfigurableAccountConfig} {total : Nat}

namespace ConfigurableAccountConfig

/-- Weight of a list of owners. -/
def weightOf (owners : List ConfigurableAccountOwner) : Nat :=
  (owners.map fun entry => entry.weight.toNat).sum

/-- The order of the addresses. -/
def Before (a b : ConfigurableAccountOwner) : Prop :=
  a.owner.word < b.owner.word

instance : Trans Before Before Before :=
  ⟨fun hab hbc => BitVec.lt_trans hab hbc⟩

/-- Owners in the order of their addresses, each once. -/
def Ascending (owners : List ConfigurableAccountOwner) : Prop :=
  owners.Pairwise Before

/-- An owner list that is accepted if the threshold can be reached. -/
structure WellFormed (owners : List ConfigurableAccountOwner) : Prop where
  nonempty : owners ≠ []
  length : owners.length ≤ maxConfigurableAccountOwners
  ascending : Ascending owners
  owner : ∀ entry ∈ owners, entry.owner ≠ 0
  weight : ∀ entry ∈ owners, entry.weight ≠ 0
  total : weightOf owners ≤ maxWord 8

/-! The checks. -/

variable {owners : List ConfigurableAccountOwner}

theorem isChain_of_ascending : ∀ {owners : List ConfigurableAccountOwner},
    ascending owners = true ↔ owners.IsChain Before
  | [] | [_] => by simp [ascending]
  | first :: second :: rest => by
    simp [ascending, isChain_cons_cons, Before, isChain_of_ascending]

theorem ascending_iff : ascending owners = true ↔ Ascending owners :=
  isChain_of_ascending.trans isChain_iff_pairwise

variable {account : Option Address}

theorem checkOwners_ok {version : UInt64} :
    checkOwners version account owners = .ok () ↔ ∀ entry ∈ owners, entry.owner ≠ 0 ∧
        ¬(version = 0 ∧ account = some entry.owner) := by
  induction owners with
  | nil => simp [checkOwners]
  | cons entry rest ih =>
    rw [checkOwners, forall_mem_cons, ← ih]
    have hzero : ¬entry.owner.isZero = true ↔ entry.owner ≠ 0 := by simp [Address.isZero]
    rw [except_ite_eq_ok, except_ite_eq_ok, hzero, and_assoc]

theorem foldlM_weights {start : Nat} :
    owners.foldlM (fun total entry => checkedAdd 8 total entry.weight.toNat) start = some total ↔
      start + weightOf owners = total ∧ (owners = [] ∨ total ≤ maxWord 8) := by
  induction owners generalizing start with
  | nil => simp [weightOf]
  | cons entry rest ih =>
    rw [foldlM_cons]
    simp only [Option.bind_eq_bind, Option.bind_eq_some_iff, checkedAdd_eq_some, ih]
    simp only [weightOf, map_cons, sum_cons, reduceCtorEq, false_or]
    constructor
    · rintro ⟨next, ⟨hfits, rfl⟩, hsum, hbound⟩
      refine ⟨by omega, ?_⟩
      rcases hbound with rfl | hbound
      · simp only [map_nil, sum_nil] at hsum
        omega
      · exact hbound
    · rintro ⟨hsum, hbound⟩
      exact ⟨_, ⟨by omega, rfl⟩, by omega, .inr hbound⟩

theorem totalWeight_eq_some :
    totalWeight owners = some total ↔ weightOf owners = total ∧ total ≤ maxWord 8 := by
  rw [totalWeight, foldlM_weights, zero_add]
  refine and_congr_right fun hsum => ⟨fun h => ?_, .inr⟩
  rcases h with rfl | hbound
  · rw [← hsum]
    exact Nat.zero_le _
  · exact hbound

/-- All that is checked of a configuration. -/
theorem validateInner_ok :
    config.validateInner account = .ok total ↔ WellFormed config.owners ∧ config.threshold ≠ 0 ∧
      (∀ entry ∈ config.owners, ¬(config.version = 0 ∧ account = some entry.owner)) ∧
      config.threshold.toNat ≤ (largestWeights config.owners).sum ∧
      weightOf config.owners = total := by
  have hascend : ¬ascending config.owners = false ↔ Ascending config.owners := by
    rw [Bool.not_eq_false, ascending_iff]
  have hweight : ¬(config.owners.any fun entry => entry.weight == 0) = true ↔
      ∀ entry ∈ config.owners, entry.weight ≠ 0 := by simp
  unfold validateInner
  simp only [← apply_ite Except.error, except_ite_eq_ok, except_bind_eq_ok, hascend, hweight]
  constructor
  · rintro ⟨hne, hlength, hthreshold, ⟨⟩, hcheck, hweight, hascending, h⟩
    split at h
    · cases h
    rename_i sum htotal
    obtain ⟨hreach, ⟨⟩⟩ := except_ite_eq_ok.mp h
    obtain ⟨hsum, hbound⟩ := totalWeight_eq_some.mp htotal
    have howners := checkOwners_ok.mp hcheck
    exact ⟨⟨hne, Nat.le_of_not_lt hlength, hascending, fun entry he => (howners entry he).1,
      hweight, hsum ▸ hbound⟩, hthreshold, fun entry he => (howners entry he).2,
      Nat.le_of_not_lt hreach, hsum⟩
  · rintro ⟨hwell, hthreshold, hself, hreach, rfl⟩
    refine ⟨hwell.nonempty, Nat.not_lt.mpr hwell.length, hthreshold, (), ?_, hwell.weight,
      hwell.ascending, ?_⟩
    · exact checkOwners_ok.mpr fun entry he => ⟨hwell.owner entry he, hself entry he⟩
    · rw [totalWeight_eq_some.mpr ⟨rfl, hwell.total⟩]
      exact if_neg (Nat.not_lt.mpr hreach)

theorem Ascending.nodup_owners (h : Ascending owners) :
    (owners.map fun entry => entry.owner).Nodup := by
  refine pairwise_map.mpr (h.imp fun {a b} hlt heq => ?_)
  rw [Before, heq] at hlt
  exact BitVec.lt_irrefl _ hlt

theorem ascending_nodup (h : Ascending owners) : owners.Nodup := h.nodup_owners.of_map

theorem ownerWeight_eq_some (h : Ascending config.owners) {owner : Address} {weight : UInt8} :
    config.ownerWeight owner = some weight ↔ ⟨owner, weight⟩ ∈ config.owners := by
  have hsorted : (config.owners.map fun entry =>
      entry.owner.word.toNat).Pairwise (· < ·) :=
    pairwise_map.mpr (h.imp fun hlt => BitVec.lt_def.mp hlt)
  have hequal : ∀ entry : ConfigurableAccountOwner,
      compare entry.owner.word.toNat owner.word.toNat = .eq ↔ entry.owner = owner := by
    intro entry
    rw [compare_eq_iff_eq, ← BitVec.toNat_eq]
    exact ⟨fun hword => congrArg Address.mk hword, fun heq => heq ▸ rfl⟩
  constructor
  · intro hfound
    obtain ⟨idx, hidx, hentry⟩ := Option.bind_eq_some_iff.mp hfound
    obtain ⟨entry, hget, rfl⟩ := Option.map_eq_some_iff.mp hentry
    obtain ⟨other, hother, heq⟩ := binarySearchBy_eq hidx
    obtain rfl : other = entry := by
      rw [hget] at hother
      exact (Option.some.inj hother).symm
    rw [← (hequal other).mp heq]
    exact mem_of_getElem? hget
  · intro hmem
    obtain ⟨idx, hidx⟩ := binarySearchBy_isSome
      (ascends_of_sorted hsorted owner.word.toNat) hmem ((hequal _).mpr rfl)
    obtain ⟨entry, hget, heq⟩ := binarySearchBy_eq hidx
    have hsame : entry = ⟨owner, weight⟩ :=
      inj_on_of_nodup_map h.nodup_owners (mem_of_getElem? hget) hmem ((hequal entry).mp heq)
    rw [ownerWeight, hidx]
    simp [hget, hsame]

/-! Reachability. -/

/-- Owners within the limit that reach a weight. -/
def Reaches (owners : List ConfigurableAccountOwner) (threshold : Nat) : Prop :=
  ∃ chosen : Finset ConfigurableAccountOwner, (∀ entry ∈ chosen, entry ∈ owners) ∧
    chosen.card ≤ maxConfigurableAccountSignatures ∧
    threshold ≤ ∑ entry ∈ chosen, entry.weight.toNat

theorem largestWeights_selected (owners : List ConfigurableAccountOwner) :
    Selected (largestWeights owners) ((owners.map fun entry => entry.weight.toNat).reverse ++
        replicate maxConfigurableAccountSignatures 0) := by
  refine Selected.foldl (.start ?_) ?_ _
  · exact pairwise_replicate.mpr (.inr (Nat.le_refl 0))
  · exact fun hempty => by cases hempty

theorem largestWeights_length (owners : List ConfigurableAccountOwner) :
    (largestWeights owners).length = maxConfigurableAccountSignatures := by
  rw [largestWeights, foldl_offer_length, length_replicate]

/-- No owners within the limit are heavier than the largest weights. -/
theorem sum_le_largestWeights {chosen : List ConfigurableAccountOwner}
    (hchosen : chosen.Sublist owners) (hlength : chosen.length ≤ maxConfigurableAccountSignatures) :
    weightOf chosen ≤ (largestWeights owners).sum := by
  refine (largestWeights_selected owners).sum_le ?_ ?_
  · refine ((hchosen.map _).subperm.trans ?_).trans (sublist_append_left _ _).subperm
    exact (reverse_perm _).symm.subperm
  · rwa [length_map, largestWeights_length]

/-- The largest weights are those of some owners, and zeros. -/
theorem exists_largestWeights (owners : List ConfigurableAccountOwner) :
    ∃ chosen : List ConfigurableAccountOwner, chosen.Sublist owners ∧
      chosen.length ≤ maxConfigurableAccountSignatures ∧
      weightOf chosen = (largestWeights owners).sum := by
  obtain ⟨dropped, hperm, -⟩ := (largestWeights_selected owners).split
  let positive : Nat → Bool := fun n => decide (n ≠ 0)
  have hsub : ((largestWeights owners).filter positive).Subperm
      (owners.map fun entry => entry.weight.toNat) := by
    have hall := ((sublist_append_left (largestWeights owners)
      dropped).subperm.trans hperm.subperm).filter positive
    rw [filter_append, filter_replicate_of_neg (by decide), append_nil] at hall
    exact (hall.trans (filter_sublist).subperm).trans (reverse_perm _).subperm
  obtain ⟨weights, hweights, hsublist⟩ := hsub
  obtain ⟨chosen, hchosen, rfl⟩ := sublist_map_iff.mp hsublist
  refine ⟨chosen, hchosen, ?_, ?_⟩
  · have hlength := hweights.length_eq
    rw [length_map] at hlength
    rw [hlength, ← largestWeights_length owners]
    exact length_filter_le _ _
  · rw [weightOf, hweights.sum_eq]
    induction largestWeights owners with
    | nil => rfl
    | cons n rest ih =>
      by_cases hn : n = 0
      · rw [filter_cons_of_neg (by simp [positive, hn]), ih, hn, sum_cons, zero_add]
      · rw [filter_cons_of_pos (by simp [positive, hn]), sum_cons, sum_cons, ih]

theorem weightOf_toFinset (h : owners.Nodup) :
    ∑ entry ∈ owners.toFinset, entry.weight.toNat = weightOf owners := sum_toFinset _ h

theorem reaches_iff (h : Ascending owners) {threshold : Nat} :
    Reaches owners threshold ↔ threshold ≤ (largestWeights owners).sum := by
  constructor
  · rintro ⟨chosen, hmem, hcard, hsum⟩
    -- the chosen owners in the order of the list
    let picked := owners.filter fun entry => decide (entry ∈ chosen)
    have hnodup : picked.Nodup := (ascending_nodup h).filter _
    have hpicked : picked.toFinset = chosen := by
      ext entry
      simp only [picked, mem_toFinset, mem_filter, decide_eq_true_eq]
      exact ⟨And.right, fun he => ⟨hmem entry he, he⟩⟩
    rw [← hpicked, weightOf_toFinset hnodup] at hsum
    rw [← hpicked, toFinset_card_of_nodup hnodup] at hcard
    exact hsum.trans (sum_le_largestWeights filter_sublist hcard)
  · intro hle
    obtain ⟨chosen, hsub, hlength, hsum⟩ := exists_largestWeights owners
    have hnodup : chosen.Nodup := (ascending_nodup h).sublist hsub
    refine ⟨chosen.toFinset, fun entry he => ?_, ?_, ?_⟩
    · exact hsub.subset (mem_toFinset.mp he)
    · rwa [toFinset_card_of_nodup hnodup]
    · rwa [weightOf_toFinset hnodup, hsum]

/-- Owners that reach the threshold with the last of them, in order. -/
structure Approves (config : ConfigurableAccountConfig)
    (approvers : List ConfigurableAccountOwner) : Prop where
  owners : ∀ entry ∈ approvers, entry ∈ config.owners
  ascending : Ascending approvers
  needed : ∀ k < approvers.length, weightOf (approvers.take k) < config.threshold.toNat

/-- Where the threshold is reachable some owners within the limit reach it
with the last of them. -/
theorem exists_approves (h : Ascending config.owners)
    (hreach : config.threshold.toNat ≤ (largestWeights config.owners).sum) :
    ∃ approvers, config.Approves approvers ∧ approvers.length ≤ maxConfigurableAccountSignatures ∧
      config.threshold.toNat ≤ weightOf approvers := by
  obtain ⟨chosen, hsub, hlength, hsum⟩ := exists_largestWeights config.owners
  have hfull : ∃ k, config.threshold.toNat ≤ weightOf (chosen.take k) :=
    ⟨chosen.length, by rwa [take_length, hsum]⟩
  classical
  have htake : (chosen.take (Nat.find hfull)).Sublist config.owners := (take_sublist _ _).trans hsub
  refine ⟨chosen.take (Nat.find hfull), ⟨fun entry he => htake.subset he,
    h.sublist htake, fun k hk => ?_⟩, ?_, Nat.find_spec hfull⟩
  · have hlt : k < Nat.find hfull := hk.trans_le (length_take_le _ _)
    rw [take_take, min_eq_left hlt.le]
    exact Nat.lt_of_not_le (Nat.find_min hfull hlt)
  · exact ((take_sublist _ _).length_le).trans hlength

end ConfigurableAccountConfig

namespace ConfigurableAccountSignature

open ConfigurableAccountConfig

/-- The accumulator after a list of owners. -/
def reached (config : ConfigurableAccountConfig) (done : List ConfigurableAccountOwner) :
    ConfigurableAccountWeightAccumulator :=
  { threshold := config.threshold.toNat
    prevOwner := done.getLast?.map fun entry => entry.owner
    recoveredWeight := weightOf done
    signerCount := done.length }

variable {crypto : Crypto} {digest : B256}

theorem reached_hasQuorum (hthreshold : config.threshold ≠ 0)
    (done : List ConfigurableAccountOwner) :
    (reached config done).hasQuorum = true ↔ config.threshold.toNat ≤ weightOf done := by
  have hpos : config.threshold.toNat ≠ 0 := fun hzero =>
    hthreshold (UInt8.toNat_inj.mp hzero)
  rw [hasQuorum, decide_eq_true_eq]
  refine ⟨And.right, fun hle => ⟨?_, hle⟩⟩
  cases done with
  | nil =>
    simp only [weightOf, map_nil, sum_nil] at hle
    omega
  | cons => exact Nat.succ_pos _

variable {done : List ConfigurableAccountOwner} {acc : ConfigurableAccountWeightAccumulator}
  {entry : ConfigurableAccountOwner} {rest : List PrimitiveSignature} {account : Address}
  {count : Nat}

/-- The pass keeps that the owners so far approve. -/
theorem approves_concat (h : config.Approves done) (hmem : entry ∈ config.owners)
    (hlast : ∀ prev ∈ done.getLast?, Before prev entry)
    (hbelow : weightOf done < config.threshold.toNat) : config.Approves (done ++ [entry]) := by
  refine ⟨fun e he => ?_, ?_, fun k hk => ?_⟩
  · rcases mem_append.mp he with hdone | hnew
    · exact h.owners e hdone
    · rwa [mem_singleton.mp hnew]
  · rw [Ascending, ← isChain_iff_pairwise, isChain_append]
    refine ⟨isChain_iff_pairwise.mpr h.ascending, by simp, ?_⟩
    intro prev hprev next hnext
    obtain rfl : entry = next := by simpa using hnext
    exact hlast prev hprev
  · rw [length_append, length_singleton] at hk
    rw [take_append_of_le_length (by omega)]
    rcases Nat.lt_or_eq_of_le (Nat.le_of_lt_succ hk) with hlt | rfl
    · exact h.needed k hlt
    · rwa [take_length]

theorem approves_of_append {more : List ConfigurableAccountOwner}
    (h : config.Approves (done ++ more)) : config.Approves done := by
  refine ⟨fun e he => h.owners e (mem_append_left _ he),
    h.ascending.sublist (sublist_append_left _ _), fun k hk => ?_⟩
  have hneeded := h.needed k (by rw [length_append]; omega)
  rwa [take_append_of_le_length hk.le] at hneeded

/-- What is recorded for an approval that is accepted. -/
theorem recordOwner_reached (hwell : WellFormed config.owners)
    (hthreshold : config.threshold ≠ 0) (hmem : entry ∈ config.owners) :
    (reached config done).recordOwner entry.owner entry.weight = .ok acc ↔
      weightOf done < config.threshold.toNat ∧ done.length < maxConfigurableAccountSignatures ∧
      (∀ prev ∈ done.getLast?, Before prev entry) ∧ acc = reached config (done ++ [entry]) := by
  have hnext : reached config (done ++ [entry]) = ⟨config.threshold.toNat, some entry.owner,
      weightOf done + entry.weight.toNat, done.length + 1⟩ := by
    simp [reached, weightOf]
  have hprev : ¬((reached config done).prevOwner.any fun prev =>
      decide (entry.owner.word ≤ prev.word)) = true ↔
      ∀ prev ∈ done.getLast?, Before prev entry := by
    cases hlast : done.getLast? <;> simp [reached, hlast, Before]
  have hroom : ¬maxConfigurableAccountSignatures < (reached config done).signerCount + 1 ↔
      done.length < maxConfigurableAccountSignatures := not_lt
  unfold recordOwner
  simp only [except_ite_eq_ok, reached_hasQuorum hthreshold, hprev, hroom, hwell.weight entry hmem,
    not_le, hnext, not_false_eq_true, true_and, Except.ok.injEq, @eq_comm _ acc]
  rfl

/-- One approval of the pass: an owner that approves next, the last one if it
reaches the threshold. -/
theorem recordApprovals_cons (hwell : WellFormed config.owners)
    (hthreshold : config.threshold ≠ 0) {approval : PrimitiveSignature}
    (hcount : done.length + 1 + rest.length = count)
    (hlimit : count ≤ maxConfigurableAccountSignatures) (hdone : config.Approves done) :
    recordApprovals crypto config digest count done.length (approval :: rest)
        (reached config done) = .ok acc ↔
      ∃ entry, crypto.recoverSigner approval digest = some entry.owner ∧
        config.Approves (done ++ [entry]) ∧
        (config.threshold.toNat ≤ weightOf (done ++ [entry]) → rest = []) ∧
        recordApprovals crypto config digest count (done ++ [entry]).length
          rest (reached config (done ++ [entry])) = .ok acc := by
  have hlast : ∀ entry : ConfigurableAccountOwner,
      (reached config (done ++ [entry])).hasQuorum = true ∧ done.length + 1 ≠ count ↔
      ¬(config.threshold.toNat ≤ weightOf (done ++ [entry]) → rest = []) := by
    intro entry
    rw [reached_hasQuorum hthreshold, Classical.not_imp, ← length_eq_zero_iff]
    refine and_congr_right fun _ => ?_
    omega
  rw [recordApprovals]
  constructor
  · intro h
    split at h
    · cases h
    rename_i owner hsigner
    split at h
    · cases h
    rename_i weight hweight
    have hmem := (ownerWeight_eq_some hwell.ascending).mp hweight
    simp only [except_bind_eq_ok, except_ite_eq_ok] at h
    obtain ⟨acc1, hrecord, hquorum, h⟩ := h
    obtain ⟨hbelow, -, hprev, rfl⟩ := (recordOwner_reached hwell hthreshold hmem).mp hrecord
    rw [hlast, not_not] at hquorum
    refine ⟨⟨owner, weight⟩, hsigner, approves_concat hdone hmem hprev hbelow, hquorum, ?_⟩
    rwa [length_append, length_singleton]
  · rintro ⟨entry, hsigner, happroves, hquorum, hrest⟩
    have hmem := happroves.owners entry (by simp)
    have hweight := (ownerWeight_eq_some hwell.ascending).mpr
      (show ⟨entry.owner, entry.weight⟩ ∈ config.owners from hmem)
    have hbelow := happroves.needed done.length (by simp)
    rw [take_left] at hbelow
    have hprev : ∀ prev ∈ done.getLast?, Before prev entry := by
      have hchain := isChain_iff_pairwise.mpr happroves.ascending
      intro prev hmem'
      exact (isChain_append.mp hchain).2.2 prev hmem' entry (by simp)
    have hrecord := (recordOwner_reached hwell hthreshold hmem).mpr ⟨hbelow, by omega, hprev, rfl⟩
    simp only [hsigner, hweight, except_bind_eq_ok, except_ite_eq_ok]
    refine ⟨_, hrecord, by rwa [hlast, not_not], ?_⟩
    rwa [length_append, length_singleton] at hrest

/-- The pass over the rest of the approvals. -/
theorem recordApprovals_ok (hwell : WellFormed config.owners)
    (hthreshold : config.threshold ≠ 0) (hcount : done.length + rest.length = count)
    (hlimit : count ≤ maxConfigurableAccountSignatures) (hdone : config.Approves done) :
    recordApprovals crypto config digest count done.length rest (reached config done) = .ok acc ↔
      ∃ more, rest.map (fun approval => crypto.recoverSigner approval digest) =
          more.map (fun entry => some entry.owner) ∧ config.Approves (done ++ more) ∧
        acc = reached config (done ++ more) := by
  induction rest generalizing done with
  | nil =>
    rw [recordApprovals]
    constructor
    · rintro ⟨⟩
      exact ⟨[], rfl, by rwa [append_nil], by rw [append_nil]⟩
    · rintro ⟨more, hmap, -, rfl⟩
      rw [map_nil, eq_comm, map_eq_nil_iff] at hmap
      rw [hmap, append_nil]
  | cons approval rest ih =>
    rw [length_cons] at hcount
    have hnext : ∀ entry : ConfigurableAccountOwner,
        (done ++ [entry]).length + rest.length = count := by
      intro entry
      rw [length_append, length_singleton]
      omega
    rw [recordApprovals_cons hwell hthreshold (by omega) hlimit hdone]
    constructor
    · rintro ⟨entry, hsigner, happroves, -, hrun⟩
      obtain ⟨more, hmap, hall, rfl⟩ := (ih (hnext entry) happroves).mp hrun
      rw [append_assoc] at hall ⊢
      refine ⟨entry :: more, ?_, hall, rfl⟩
      rw [map_cons, map_cons, hmap, hsigner]
    · rintro ⟨more, hmap, hall, hacc⟩
      cases more with
      | nil => cases hmap
      | cons entry more =>
        rw [map_cons, map_cons, cons.injEq] at hmap
        obtain ⟨hsigner, hmap⟩ := hmap
        rw [append_cons] at hall hacc
        have happroves := approves_of_append hall
        refine ⟨entry, hsigner, happroves, fun hreached => ?_,
          (ih (hnext entry) happroves).mpr ⟨more, hmap, hall, hacc⟩⟩
        -- an approval that reaches the threshold is not followed
        by_contra hne
        have hmore : more ≠ [] := fun hempty => hne (by
          rw [hempty, map_nil] at hmap
          exact map_eq_nil_iff.mp hmap)
        have hlonger : (done ++ [entry]).length < ((done ++ [entry]) ++ more).length := by
          have hpos := length_pos_iff.mpr hmore
          simp only [length_append]
          omega
        have hneeded := hall.needed _ hlonger
        rw [take_left] at hneeded
        omega

/-- What a signature that was built satisfies. -/
theorem shape_valid (signature : ConfigurableAccountSignature) :
    WellFormed signature.config.owners ∧ signature.config.threshold ≠ 0 ∧
      signature.signatures ≠ [] ∧
      signature.signatures.length ≤ maxConfigurableAccountSignatures := by
  have h := signature.shape
  rw [ConfigurableAccountConfig.validateShape, except_ite_eq_ok] at h
  obtain ⟨-, h⟩ := h
  split at h
  · cases h
  rename_i hvalid
  simp only [except_ite_eq_ok] at h
  obtain ⟨hne, hlength, -⟩ := h
  obtain ⟨hwell, hthreshold, -⟩ := validateInner_ok.mp hvalid
  exact ⟨hwell, hthreshold, hne, Nat.le_of_not_lt hlength⟩

theorem verifyApprovals_ok (signature : ConfigurableAccountSignature) (innerDigest : B256) :
    signature.verifyApprovals crypto innerDigest = .ok () ↔
      ∃ approvers, signature.signatures.map (fun approval =>
          crypto.recoverSigner approval (signature.digest crypto innerDigest)) =
          approvers.map (fun entry => some entry.owner) ∧
        signature.config.Approves approvers ∧
        signature.config.threshold.toNat ≤ weightOf approvers := by
  obtain ⟨hwell, hthreshold, hne, hlimit⟩ := signature.shape_valid
  have hstart : signature.config.Approves [] :=
    ⟨nofun, List.Pairwise.nil, fun k hk => absurd hk (Nat.not_lt_zero k)⟩
  have hpass : ∀ acc, recordApprovals crypto signature.config
      (signature.digest crypto innerDigest) signature.signatures.length 0
      signature.signatures (reached signature.config []) = .ok acc ↔ _ :=
    fun acc => recordApprovals_ok hwell hthreshold (zero_add _) hlimit hstart
  have hnew : new
      signature.config.threshold = .ok (reached signature.config []) := if_neg hthreshold
  have hfinish : ∀ acc : ConfigurableAccountWeightAccumulator,
      acc.finish = .ok () ↔ acc.signerCount ≠ 0 ∧ acc.threshold ≤ acc.recoveredWeight := by
    simp [finish, except_ite_eq_ok]
  rw [verifyApprovals, hnew]
  change (recordApprovals crypto _ _ _ _ _ _ >>= _) = _ ↔ _
  refine except_bind_eq_ok.trans ⟨?_, ?_⟩
  · rintro ⟨acc, hrun, hreached⟩
    obtain ⟨approvers, hmap, happroves, rfl⟩ := (hpass acc).mp hrun
    exact ⟨approvers, hmap, happroves, ((hfinish _).mp hreached).2⟩
  · rintro ⟨approvers, hmap, happroves, hreached⟩
    refine ⟨_, (hpass _).mpr ⟨approvers, hmap, happroves, rfl⟩, (hfinish _).mpr ⟨?_, hreached⟩⟩
    have hlength := congrArg length hmap
    rw [length_map, length_map] at hlength
    change approvers.length ≠ 0
    rw [← hlength]
    exact fun hzero => hne (length_eq_zero_iff.mp hzero)

/-- A configuration and approvals of the right shape make a signature. -/
theorem validateShape_ok {signatures : List PrimitiveSignature} (haccount : account ≠ 0)
    (hconfig : config.validateForAccount account = .ok total) (hne : signatures ≠ [])
    (hlength : signatures.length ≤ maxConfigurableAccountSignatures)
    (hsize : ∀ signature ∈ signatures, signature.encodedLength ≤
      maxConfigurableAccountOwnerSignatureBytes) :
    config.validateShape account signatures = .ok () := by
  have hzero : ¬account.isZero = true := by simpa [Address.isZero] using haccount
  have hlarge : ¬(signatures.any fun signature =>
      decide (maxConfigurableAccountOwnerSignatureBytes < signature.encodedLength)) = true := by
    rw [any_eq_true]
    rintro ⟨signature, hmem, hlt⟩
    exact Nat.not_lt.mpr (hsize signature hmem) (of_decide_eq_true hlt)
  rw [ConfigurableAccountConfig.validateShape, if_neg hzero, hconfig]
  rw [if_neg hne, if_neg (Nat.not_lt.mpr hlength), if_neg hlarge]

/-- Owners that can sign make up an approval list that is verified. -/
theorem exists_verified
    (hvalid : config.validate = .ok total) (haccount : account ≠ 0) (hself : config.version = 0 →
      ∀ entry ∈ config.owners, entry.owner ≠ account) {innerDigest : B256}
    (hsign : ∀ entry ∈ config.owners, ∃ approval : PrimitiveSignature,
      approval.encodedLength ≤ maxConfigurableAccountOwnerSignatureBytes ∧
      crypto.recoverSigner approval (configurableAccountDigest crypto
        innerDigest account config.version) = some entry.owner) :
    ∃ signature : ConfigurableAccountSignature,
      signature.account = account ∧ signature.config = config ∧
      signature.verifyApprovals crypto innerDigest = .ok () := by
  obtain ⟨hwell, hthreshold, -, hreach, htotal⟩ := validateInner_ok.mp hvalid
  obtain ⟨approvers, happroves, hlength, hreached⟩ := exists_approves hwell.ascending hreach
  have : Nonempty PrimitiveSignature := ⟨.secp256k1 ⟨0, 0, false⟩⟩
  choose! sign hsize hsigner using hsign
  have hconfig : config.validateForAccount account = .ok total := by
    refine validateInner_ok.mpr ⟨hwell, hthreshold, ?_, hreach, htotal⟩
    rintro entry hmem ⟨hversion, hsame⟩
    exact hself hversion entry hmem (Option.some.inj hsame).symm
  have hne : approvers ≠ [] := by
    rintro rfl
    have hpos : config.threshold.toNat ≠ 0 := fun hzero =>
      hthreshold (UInt8.toNat_inj.mp hzero)
    simp only [weightOf, map_nil, sum_nil] at hreached
    omega
  have hshape : config.validateShape account (approvers.map sign) = .ok () := by
    refine validateShape_ok haccount hconfig ?_ ?_ ?_
    · rwa [Ne, map_eq_nil_iff]
    · rwa [length_map]
    · intro signature hmem
      obtain ⟨entry, hentry, rfl⟩ := mem_map.mp hmem
      exact hsize entry (happroves.owners entry hentry)
  refine ⟨⟨account, config, approvers.map sign, hshape⟩, rfl, rfl, ?_⟩
  refine (verifyApprovals_ok _ innerDigest).mpr ⟨approvers, ?_, happroves, hreached⟩
  rw [map_map]
  exact map_congr_left fun entry hentry =>
    hsigner entry (happroves.owners entry hentry)

/-- The quorum is exact: approvals are accepted exactly if they come from
owners in order and the last one reaches the threshold.  It is reachable: a
configuration is accepted exactly if some owners within the limit reach the
threshold, and then their approvals are accepted. -/
theorem quorum_exact_and_reachable (crypto : Crypto) :
    (∀ (signature : ConfigurableAccountSignature) (innerDigest : B256),
      signature.verifyApprovals crypto innerDigest = .ok () ↔
        ∃ approvers : List ConfigurableAccountOwner,
          signature.signatures.map (fun approval => crypto.recoverSigner
            approval (signature.digest crypto innerDigest)) =
            approvers.map (fun entry => some entry.owner) ∧
          (∀ entry ∈ approvers, entry ∈ signature.config.owners) ∧
          approvers.Pairwise (fun a b => a.owner.word < b.owner.word) ∧
          signature.config.threshold.toNat ≤ weightOf approvers ∧ ∀ k < approvers.length,
            weightOf (approvers.take k) < signature.config.threshold.toNat) ∧
    (∀ config : ConfigurableAccountConfig, WellFormed config.owners → 1 ≤ config.threshold →
      ((∃ total, config.validate = .ok total) ↔ Reaches config.owners config.threshold.toNat)) ∧
    ∀ (config : ConfigurableAccountConfig) (total : Nat), config.validate = .ok total →
      ∀ (account : Address) (innerDigest : B256), account ≠ 0 → (config.version = 0 →
        ∀ entry ∈ config.owners, entry.owner ≠ account) →
      (∀ entry ∈ config.owners, ∃ approval : PrimitiveSignature,
        approval.encodedLength ≤ maxConfigurableAccountOwnerSignatureBytes ∧
        crypto.recoverSigner approval (configurableAccountDigest crypto
          innerDigest account config.version) = some entry.owner) →
      ∃ signature : ConfigurableAccountSignature,
        signature.account = account ∧ signature.config = config ∧
        signature.verifyApprovals crypto innerDigest = .ok () := by
  refine ⟨fun signature innerDigest => ?_, fun config hwell hthreshold => ?_,
    fun config total hvalid account innerDigest haccount hself hsign =>
      exists_verified hvalid haccount hself hsign⟩
  · rw [verifyApprovals_ok]
    constructor
    · rintro ⟨approvers, hmap, ⟨howners, hascending, hneeded⟩, hreached⟩
      exact ⟨approvers, hmap, howners, hascending, hreached, hneeded⟩
    · rintro ⟨approvers, hmap, howners, hascending, hreached, hneeded⟩
      exact ⟨approvers, hmap, ⟨howners, hascending, hneeded⟩, hreached⟩
  · have hne : config.threshold ≠ 0 := by
      intro hzero
      rw [hzero] at hthreshold
      exact absurd hthreshold (by decide)
    rw [reaches_iff hwell.ascending]
    constructor
    · rintro ⟨total, hvalid⟩
      exact (validateInner_ok.mp hvalid).2.2.2.1
    · intro hreach
      have hself : ∀ entry ∈ config.owners, ¬(config.version = 0 ∧ none = some entry.owner) :=
        fun _ _ h => nomatch h.2
      exact ⟨_, validateInner_ok.mpr ⟨hwell, hne, hself, hreach, rfl⟩⟩

/-- Two of three owners reach a threshold of four, and sign in the order of
their addresses. -/
theorem quorum_two_of_three :
    let owners : List ConfigurableAccountOwner :=
      [⟨⟨1⟩, 1⟩, ⟨⟨2⟩, 2⟩, ⟨⟨3⟩, 3⟩]
    let config : ConfigurableAccountConfig := ⟨0, 1, 4, owners⟩
    let signs : Address → PrimitiveSignature := fun owner =>
      .secp256k1 ⟨owner.word.setWidth 256, 0, false⟩
    let crypto : Crypto :=
      { keccak256 := fun _ => 0
        recoverSigner := fun signature _ =>
          match signature with
          | .secp256k1 sig => some ⟨sig.r.setWidth 160⟩
          | _ => none }
    config.validate = .ok 6 ∧ Reaches owners 4 ∧ (∃ signature : ConfigurableAccountSignature,
        signature.signatures = [signs ⟨1⟩, signs ⟨3⟩] ∧
        signature.verifyApprovals crypto 0 = .ok ()) ∧ ∃ signature : ConfigurableAccountSignature,
        signature.config = config ∧ signature.verifyApprovals crypto 0 = .ok () := by
  intro owners config signs crypto
  obtain ⟨hexact, hreachable, hverified⟩ := quorum_exact_and_reachable crypto
  have hvalid : config.validate = .ok 6 := by decide +kernel
  have hwell : WellFormed config.owners := (validateInner_ok.mp hvalid).1
  have hsign : ∀ entry ∈ config.owners, ∃ approval : PrimitiveSignature,
      approval.encodedLength ≤ maxConfigurableAccountOwnerSignatureBytes ∧
      crypto.recoverSigner approval (configurableAccountDigest crypto 0 ⟨9⟩
        config.version) = some entry.owner := by
    intro entry hmem
    refine ⟨signs entry.owner, by change 65 ≤ _; decide, ?_⟩
    change some (⟨(entry.owner.word.setWidth 256).setWidth 160⟩ : Address) = _
    rw [BitVec.setWidth_setWidth_of_le _ (by decide), BitVec.setWidth_eq]
  have hshape : config.validateShape ⟨9⟩ [signs ⟨1⟩, signs ⟨3⟩] = .ok () := by decide +kernel
  refine ⟨hvalid, (hreachable config hwell (by decide)).mp ⟨6, hvalid⟩,
    ⟨⟨⟨9⟩, config, [signs ⟨1⟩, signs ⟨3⟩], hshape⟩, rfl, ?_⟩, ?_⟩
  · have happroves : (∀ entry ∈ [⟨⟨1⟩, 1⟩, ⟨⟨3⟩, 3⟩], entry ∈ owners) ∧
        4 ≤ weightOf [⟨⟨1⟩, 1⟩, ⟨⟨3⟩, 3⟩] ∧
        ∀ k < 2, weightOf ([⟨⟨1⟩, 1⟩, ⟨⟨3⟩, 3⟩].take k) < 4 := by
      decide
    exact (hexact _ 0).mpr ⟨[⟨⟨1⟩, 1⟩, ⟨⟨3⟩, 3⟩], rfl, happroves.1, by decide, happroves.2⟩
  · obtain ⟨signature, -, hconfig, hverify⟩ := hverified config 6 hvalid ⟨9⟩ 0
      (by decide) (by decide) hsign
    exact ⟨signature, hconfig, hverify⟩

end ConfigurableAccountSignature

end Tempo
