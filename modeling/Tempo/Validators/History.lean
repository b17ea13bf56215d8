/-
The validator set of a past block, read from the latest state.  The consensus
layer filters the records by height instead of reading old storage; here the
filter of the final records is shown to give the keys that were active when
the block ended.  Up to that block every recorded height is in its past; after
it no change touches what the filter sees.
-/
import Tempo.Validators.Invariant

namespace Tempo

open ValidatorRecord ValidatorConfigV2 List

variable {codec : ValidatorCodec} {s s' : ValidatorConfigV2} {height h : Nat}
  {calls : List (Nat × RegistryCall)} {v : ValidatorRecord}

/-- The record counts for the validator set of height `h`. -/
def ValidatorRecord.InSetAt (h : Nat) (v : ValidatorRecord) : Prop :=
  v.addedAtHeight ≤ h ∧ (v.deactivatedAtHeight = 0 ∨ h < v.deactivatedAtHeight)

namespace ValidatorConfigV2

/-- The key belongs to a record the filter for height `h` keeps. -/
def KeyInSetAt (s : ValidatorConfigV2) (h : Nat) (key : B256) : Prop :=
  ∃ v ∈ s.validators, v.InSetAt h ∧ v.publicKey = key

end ValidatorConfigV2

/-- No record was added or deactivated after height `h`. -/
def HeightsUpTo (h : Nat) (records : List ValidatorRecord) : Prop :=
  ∀ v ∈ records, v.addedAtHeight ≤ h ∧ v.deactivatedAtHeight ≤ h

namespace RegistryCall

/-- A call within a block; one that fails leaves the state as it was. -/
def apply (codec : ValidatorCodec) (s : ValidatorConfigV2)
    (call : Nat × RegistryCall) : ValidatorConfigV2 :=
  match (call.2.exec codec call.1).run s with
  | .ok _ s' => s'
  | .error _ _ => s

/-- The state after the calls, each given with the height of its block. -/
def replay (codec : ValidatorCodec) (calls : List (Nat × RegistryCall)) : ValidatorConfigV2 :=
  calls.foldl (apply codec) ValidatorConfigV2.empty

variable {I : ValidatorConfigV2 → Prop}

/-- Whatever the changes at its height preserve, a call preserves. -/
theorem apply_invariant {call : Nat × RegistryCall} (hpos : 1 ≤ call.1)
    (hI : ∀ t t', I t → RegistryChange codec call.1 t t' → I t') (hs : I s) :
    I (apply codec s call) := by
  unfold apply
  split
  next s' hrun =>
    exact run_invariant hI (exec_changes (by omega) hrun) hs
  next => exact hs

theorem replay_invariant (hpos : ∀ c ∈ calls, 1 ≤ c.1)
    (hI : ∀ c ∈ calls, ∀ t t', I t → RegistryChange codec c.1 t t' → I t')
    (hs : I s) : I (calls.foldl (apply codec) s) := by
  induction calls generalizing s with
  | nil => exact hs
  | cons c calls ih =>
    refine ih (fun d hd => hpos d (.tail _ hd)) (fun d hd => hI d (.tail _ hd)) ?_
    exact apply_invariant (hpos c (.head _)) (hI c (.head _)) hs

theorem replay_inv (hpos : ∀ c ∈ calls, 1 ≤ c.1) (hs : RegistryInv codec s) :
    RegistryInv codec (calls.foldl (apply codec) s) := by
  refine replay_invariant hpos (fun c hc t t' ht hchange => ?_) hs
  have := hpos c hc
  exact ht.change (by omega) hchange

end RegistryCall

/-! Recorded heights stay in the past. -/

namespace HeightsUpTo

variable {records : List ValidatorRecord}

theorem push (hs : HeightsUpTo h records) (hadded : v.addedAtHeight ≤ h)
    (hclosed : v.deactivatedAtHeight ≤ h) : HeightsUpTo h (records ++ [v]) := by
  intro w hw
  rcases mem_append.mp hw with hw | hw
  · exact hs w hw
  · rw [mem_singleton.mp hw]
    exact ⟨hadded, hclosed⟩

theorem set (hs : HeightsUpTo h records) {idx : Nat}
    (hadded : v.addedAtHeight ≤ h) (hclosed : v.deactivatedAtHeight ≤ h) :
    HeightsUpTo h (records.set idx v) := by
  intro w hw
  rcases mem_or_eq_of_mem_set hw with hw | rfl
  · exact hs w hw
  · exact ⟨hadded, hclosed⟩

theorem change (hs : HeightsUpTo h s.validators) (hinv : RegistryInv codec s)
    (hle : height ≤ h) (hc : RegistryChange codec height s s') : HeightsUpTo h s'.validators := by
  cases hc with
  | administered config epoch => exact hs
  | registeredActive key address parses ingress active added place =>
    exact hs.push (by omega) (by omega)
  | registeredInactive key address closed added place =>
    exact hs.push (by omega) (by omega)
  | @retired idx k v ingressHash record parses place =>
    obtain ⟨m, u, -, hu, heq⟩ := hinv.retire_eq record place ingressHash height
    have hv := hs v (mem_of_getElem? record.1)
    have hmoved := hs u (mem_of_getElem? hu)
    rw [heq]
    exact (hs.set (by exact hmoved.1) (by exact hmoved.2)).set (by exact hv.1) (by exact hle)
  | @rotated idx v key oldHash newHash ingress egress record =>
    have hv := hs v (mem_of_getElem? record.1)
    rw [RegistryInv.moveIngress_eq]
    exact (hs.push (by exact hv.1) (by exact hle)).set (by exact hle) (by exact hv.2)
  | @paidTo idx v record feeRecipient =>
    have hv := hs v (mem_of_getElem? record.1)
    exact hs.set (by exact hv.1) (by exact hv.2)
  | @relocated idx v oldHash newHash ingress egress record =>
    have hv := hs v (mem_of_getElem? record.1)
    rw [RegistryInv.moveIngress_eq]
    exact hs.set (by exact hv.1) (by exact hv.2)
  | @readdressed idx v newAddress record free =>
    have hv := hs v (mem_of_getElem? record.1)
    exact hs.set (by exact hv.1) (by exact hv.2)

/-- For a height no record is past, the filter keeps the active records. -/
theorem keyInSetAt_iff (hs : HeightsUpTo h s.validators) (key : B256) :
    s.KeyInSetAt h key ↔ ∃ v ∈ s.validators, v.deactivatedAtHeight = 0 ∧ v.publicKey = key := by
  constructor
  · rintro ⟨v, hv, ⟨-, hset⟩, hkey⟩
    have hle := (hs v hv).2
    exact ⟨v, hv, by omega, hkey⟩
  · rintro ⟨v, hv, hactive, hkey⟩
    exact ⟨v, hv, ⟨(hs v hv).1, .inl hactive⟩, hkey⟩

end HeightsUpTo

/-! Later changes are invisible to the filter of an earlier height. -/

/-- The members of a list with one entry overwritten, as far as a predicate
sees them. -/
theorem exists_mem_set {α : Type} {l : List α} {i : Nat} {x y : α}
    {P : α → Prop} (hx : l[i]? = some x) :
    (∃ a ∈ l.set i y, P a) ↔ P y ∨ ∃ j a, j ≠ i ∧ l[j]? = some a ∧ P a := by
  have hlen := (List.getElem?_eq_some_iff.mp hx).1
  simp only [mem_iff_getElem?, getElem?_set_eq_some hlen]
  constructor
  · rintro ⟨a, ⟨j, ⟨-, rfl⟩ | ⟨hji, hj⟩⟩, hP⟩
    · exact .inl hP
    · exact .inr ⟨j, a, hji, hj, hP⟩
  · rintro (hP | ⟨j, a, hji, hj, hP⟩)
    · exact ⟨y, ⟨i, .inl ⟨rfl, rfl⟩⟩, hP⟩
    · exact ⟨a, ⟨j, .inr ⟨hji, hj⟩⟩, hP⟩

theorem exists_mem_set_iff {α : Type} {l : List α} {i : Nat} {x y : α}
    {P : α → Prop} (hx : l[i]? = some x) (hP : P y ↔ P x) :
    (∃ a ∈ l.set i y, P a) ↔ ∃ a ∈ l, P a := by
  have hself : l.set i x = l := by
    obtain ⟨hi, rfl⟩ := List.getElem?_eq_some_iff.mp hx
    exact set_getElem_self hi
  rw [exists_mem_set hx, hP, ← exists_mem_set hx, hself]

namespace ValidatorConfigV2

variable {w : ValidatorRecord} {key : B256}

/-- What the filter for `h` asks of a record under `key`. -/
def Shows (h : Nat) (key : B256) (v : ValidatorRecord) : Prop :=
  v.InSetAt h ∧ v.publicKey = key

theorem not_shows_of_added (hlt : h < v.addedAtHeight) : ¬Shows h key v := by
  rintro ⟨⟨hadded, -⟩, -⟩
  omega

/-- Closing an active record later than `h` is not seen at `h`. -/
theorem shows_closed_iff (hactive : v.deactivatedAtHeight = 0)
    (hlt : h < w.deactivatedAtHeight) (hkey : w.publicKey = v.publicKey)
    (hadded : w.addedAtHeight = v.addedAtHeight) : Shows h key w ↔ Shows h key v := by
  unfold Shows InSetAt
  rw [hkey, hadded, hactive]
  simp [hlt]

theorem exists_mem_concat {P : ValidatorRecord → Prop} :
    (∃ u ∈ s.validators ++ [w], P u) ↔ (∃ u ∈ s.validators, P u) ∨ P w := by
  simp

theorem keyInSetAt_change (hinv : RegistryInv codec s) (hlt : h < height)
    (hc : RegistryChange codec height s s') : s'.KeyInSetAt h key ↔ s.KeyInSetAt h key := by
  change (∃ u ∈ s'.validators, Shows h key u) ↔ ∃ u ∈ s.validators, Shows h key u
  cases hc with
  | administered config epoch => exact Iff.rfl
  | registeredActive _ _ _ _ _ added | registeredInactive _ _ _ added =>
    refine exists_mem_concat.trans (or_iff_left ?_)
    exact not_shows_of_added (by omega)
  | @retired idx k v ingressHash record parses place =>
    obtain ⟨m, u, -, hu, heq⟩ := hinv.retire_eq record place ingressHash height
    rw [heq]
    refine (exists_mem_set_iff (record.moved hu) ?_).trans (exists_mem_set_iff hu Iff.rfl)
    split
    next hmi =>
      obtain rfl : u = v := by
        rw [hmi] at hu
        exact Option.some.inj (hu.symm.trans record.1)
      exact shows_closed_iff record.2 hlt rfl rfl
    next => exact shows_closed_iff record.2 hlt rfl rfl
  | @rotated idx v newKey oldHash newHash ingress egress record =>
    have hlen := (List.getElem?_eq_some_iff.mp record.1).1
    rw [RegistryInv.moveIngress_eq]
    unfold ValidatorConfigV2.rotate
    rw [set_append_left _ _ hlen]
    simp only [mem_append, mem_singleton, or_and_right, exists_or, exists_eq_left]
    -- the snapshot shows what the record in place showed before
    have hself := exists_mem_set (y := v) (P := Shows h key) record.1
    rw [exists_mem_set_iff record.1 Iff.rfl] at hself
    have hsnapshot : Shows h key { v with
        index := s.validators.length
        activeIdx := 0
        deactivatedAtHeight := height } ↔ Shows h key v :=
      shows_closed_iff record.2 (by exact hlt) rfl rfl
    rw [exists_mem_set record.1, hself, hsnapshot]
    have hnew : ¬Shows h key { v with
        publicKey := newKey
        ingress := ingress
        egress := egress
        addedAtHeight := height } := not_shows_of_added hlt
    simp only [hnew, false_or]
    exact or_comm
  | paidTo record => exact exists_mem_set_iff record.1 Iff.rfl
  | relocated egress record =>
    rw [RegistryInv.moveIngress_eq]
    exact exists_mem_set_iff record.1 Iff.rfl
  | readdressed record => exact exists_mem_set_iff record.1 Iff.rfl

/-- The view lists exactly the keys of the active records. -/
theorem yields_getActiveValidators (hinv : RegistryInv codec s) :
    ∃ l, Yields getActiveValidators s l s ∧ ∀ key, key ∈ l.map Validator.publicKey ↔
        ∃ v ∈ s.validators, v.deactivatedAtHeight = 0 ∧ v.publicKey = key := by
  refine ⟨s.activeIndices.map fun n => (s.recordAt (n - 1)).view, ?_, ?_⟩
  · refine yields_reads_bind.mpr (yields_mapM fun n hn => ?_)
    have hpos : n ≠ 0 := fun hzero => hinv.active.zero_not_mem (hzero ▸ hn)
    refine yields_orFail_bind.mpr ⟨n - 1, ?_, yields_reads.mpr ⟨rfl, rfl⟩⟩
    exact checkedSub_eq_some.mpr ⟨by omega, rfl⟩
  · intro key
    rw [map_map, mem_map]
    constructor
    · rintro ⟨n, hn, hkey⟩
      obtain ⟨i, v, rfl, hv⟩ := hinv.mem_active_iff.mp hn
      refine ⟨v, mem_of_getElem? hv.1, hv.2, ?_⟩
      rw [← hv.recordAt]
      exact hkey
    · rintro ⟨v, hv, hactive, hkey⟩
      obtain ⟨i, hi⟩ := mem_iff_getElem?.mp hv
      have hat : s.ActiveAt i v := ⟨hi, hactive⟩
      refine ⟨i + 1, hinv.mem_active_iff.mpr ⟨i, v, rfl, hat⟩, ?_⟩
      change (s.recordAt (i + 1 - 1)).publicKey = key
      rw [Nat.add_sub_cancel, hat.recordAt, hkey]

end ValidatorConfigV2

namespace RegistryCall

theorem replay_heightsUpTo {h : Nat} (hpos : ∀ c ∈ calls, 1 ≤ c.1) (hle : ∀ c ∈ calls, c.1 ≤ h) :
    HeightsUpTo h (replay codec calls).validators := by
  have hboth : RegistryInv codec (replay codec calls) ∧
      HeightsUpTo h (replay codec calls).validators := replay_invariant
    (I := fun t => RegistryInv codec t ∧ HeightsUpTo h t.validators) hpos
    (fun c hc t t' ht hchange => by
      have := hpos c hc
      exact ⟨ht.1.change (by omega) hchange, ht.2.change ht.1 (hle c hc) hchange⟩)
    ⟨RegistryInv.empty, nofun⟩
  exact hboth.2

theorem foldl_keyInSetAt {h : Nat} {s : ValidatorConfigV2} {key : B256}
    (hpos : ∀ c ∈ calls, 1 ≤ c.1) (hlt : ∀ c ∈ calls, h < c.1) (hinv : RegistryInv codec s) :
    (calls.foldl (apply codec) s).KeyInSetAt h key ↔ s.KeyInSetAt h key := by
  have hboth : RegistryInv codec (calls.foldl (apply codec) s) ∧ _ := replay_invariant
    (I := fun t => RegistryInv codec t ∧ (t.KeyInSetAt h key ↔ s.KeyInSetAt h key)) hpos
    (fun c hc t t' ht hchange => by
      have := hpos c hc
      exact ⟨ht.1.change (by omega) hchange,
        (keyInSetAt_change ht.1 (hlt c hc) hchange).trans ht.2⟩)
    ⟨hinv, Iff.rfl⟩
  exact hboth.2

/-- Calls in order of height are those up to `h` followed by the later ones. -/
theorem calls_split (h : Nat) (hsorted : calls.Pairwise fun c d => c.1 ≤ d.1) :
    calls = calls.filter (fun c => c.1 ≤ h) ++ calls.filter (fun c => h < c.1) := by
  induction calls with
  | nil => rfl
  | cons c calls ih =>
    obtain ⟨hfirst, hrest⟩ := pairwise_cons.mp hsorted
    by_cases hc : c.1 ≤ h
    · rw [filter_cons_of_pos (by simpa using hc),
        filter_cons_of_neg (by simpa using hc), cons_append, ← ih hrest]
    · have hnone : (c :: calls).filter (fun c => c.1 ≤ h) = [] := by
        rw [filter_eq_nil_iff]
        intro d hd
        rcases mem_cons.mp hd with rfl | hd
        · simpa using hc
        · have := hfirst d hd
          simp only [decide_eq_true_eq]
          omega
      have hall : (c :: calls).filter (fun c => h < c.1) = c :: calls := by
        rw [filter_eq_self]
        intro d hd
        rcases mem_cons.mp hd with rfl | hd
        · simpa using hc
        · have := hfirst d hd
          simp only [decide_eq_true_eq]
          omega
      rw [hnone, hall, nil_append]

/-- The final records, filtered for height `h`, give the keys of the records
active at the end of block `h`, which are those its view of active validators
returned. -/
theorem history_reconstructed (codec : ValidatorCodec) (calls : List (Nat × RegistryCall))
    (hpos : ∀ c ∈ calls, 1 ≤ c.1) (hsorted : calls.Pairwise fun c d => c.1 ≤ d.1) (h : Nat) :
    let past := replay codec (calls.filter fun c => c.1 ≤ h)
    (∀ key, (replay codec calls).KeyInSetAt h key ↔
      ∃ v ∈ past.validators, v.deactivatedAtHeight = 0 ∧ v.publicKey = key) ∧
    ∃ l, Yields getActiveValidators past l past ∧ ∀ key, (replay codec calls).KeyInSetAt h key ↔
        key ∈ l.map Validator.publicKey := by
  intro past
  have hposPast : ∀ c ∈ calls.filter (fun c => c.1 ≤ h), 1 ≤ c.1 :=
    fun c hc => hpos c (mem_filter.mp hc).1
  have hposLater : ∀ c ∈ calls.filter (fun c => h < c.1), 1 ≤ c.1 :=
    fun c hc => hpos c (mem_filter.mp hc).1
  have hle : ∀ c ∈ calls.filter (fun c => c.1 ≤ h), c.1 ≤ h :=
    fun c hc => by simpa using (mem_filter.mp hc).2
  have hlt : ∀ c ∈ calls.filter (fun c => h < c.1), h < c.1 :=
    fun c hc => by simpa using (mem_filter.mp hc).2
  have hinv : RegistryInv codec past := replay_inv hposPast RegistryInv.empty
  have hfinal : replay codec calls = (calls.filter fun c => h < c.1).foldl (apply codec) past := by
    unfold past replay
    rw [← foldl_append, ← calls_split h hsorted]
  have hkeys : ∀ key, (replay codec calls).KeyInSetAt h key ↔
      ∃ v ∈ past.validators, v.deactivatedAtHeight = 0 ∧ v.publicKey = key := by
    intro key
    rw [hfinal, foldl_keyInSetAt hposLater hlt hinv,
      (replay_heightsUpTo hposPast hle).keyInSetAt_iff key]
  obtain ⟨l, hview, hl⟩ := yields_getActiveValidators hinv
  exact ⟨hkeys, l, hview, fun key => (hkeys key).trans (hl key).symm⟩

/-- One validator is added and rotated twice in block one and deactivated in
block three; another is added and deactivated within block two. -/
theorem history_reconstructed_same_block :
    let owner : Address := ⟨1⟩
    let first : Address := ⟨2⟩
    let second : Address := ⟨3⟩
    let calls : List (Nat × RegistryCall) :=
      [(1, initializeDirectly owner),
        (1, addValidator owner first 5 "1.1.1.1:1" "1.1.1.1" first []),
        (1, rotateValidator first 0 6 "1.1.1.1:2" "1.1.1.1" []),
        (1, rotateValidator first 0 7 "1.1.1.1:3" "1.1.1.1" []),
        (2, addValidator owner second 8 "1.1.1.2:1" "1.1.1.2" second []),
        (2, deactivateValidator second 3), (3, deactivateValidator owner 0)]
    let past := replay textCodec (calls.filter fun c => c.1 ≤ 2)
    (replay textCodec calls).validators.map publicKey = [7, 5, 6, 8] ∧
      (past.validators.filter fun v => v.deactivatedAtHeight = 0).map publicKey = [7] ∧
      ∀ key, (replay textCodec calls).KeyInSetAt 2 key ↔
        ∃ v ∈ past.validators, v.deactivatedAtHeight = 0 ∧ v.publicKey = key := by
  intro owner first second calls past
  have hall := history_reconstructed textCodec calls (by
    intro c hc
    simp only [calls, mem_cons, not_mem_nil, or_false] at hc
    rcases hc with rfl | rfl | rfl | rfl | rfl | rfl | rfl <;> decide) (by
    simp [calls]) 2
  exact ⟨by decide, by decide, hall.1⟩

end RegistryCall

end Tempo
