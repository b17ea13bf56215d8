/-
The order of a block's sections and the bounds on its gas.  Sections only
advance, the transactions of a subblock proposer stand in one run, and a block
that passes the checks at its end keeps to the limits of its lanes.
-/
import Tempo.Block.Lanes

namespace Tempo

variable {h : List Committed}

namespace Block

open Executor List

/-- The place of a section in the block. -/
def BlockSection.rank : BlockSection → Nat
  | .startOfBlock => 0
  | .nonShared => 1
  | .subBlock _ => 2
  | .gasIncentive => 3
  | .system _ => 4

/-- Sections come one after the other. -/
def Ordered (h : List Committed) : Prop :=
  h.Pairwise fun a b => a.next.rank ≤ b.next.rank

/-- The transactions of a proposer stand in one run. -/
def OneRun (p : PartialValidatorKey) (h : List Committed) : Prop :=
  ∃ before run after, h = before ++ (run ++ after) ∧ (∀ c ∈ run, c.next = .subBlock p) ∧
    ∀ c ∈ before ++ after, c.next ≠ .subBlock p

/-- The section of the last transaction. -/
def lastSection (h : List Committed) : BlockSection :=
  (h.getLast?.map Committed.next).getD .startOfBlock

theorem lastSection_concat (h : List Committed) (c : Committed) :
    lastSection (h ++ [c]) = c.next := by
  simp [lastSection]

variable {p : PartialValidatorKey} {c : Committed} {ctx : BlockCtx} {s : Executor}

theorem OneRun.of_absent (habsent : ∀ c ∈ h, c.next ≠ .subBlock p) : OneRun p h :=
  ⟨h, [], [], by simp, nofun, by simpa using habsent⟩

theorem OneRun.concat_other (hrun : OneRun p h) (hc : c.next ≠ .subBlock p) :
    OneRun p (h ++ [c]) := by
  obtain ⟨before, run, after, rfl, hin, hout⟩ := hrun
  refine ⟨before, run, after ++ [c], by simp, hin, ?_⟩
  intro d hd
  rw [← append_assoc, mem_append, mem_singleton] at hd
  rcases hd with hd | rfl
  · exact hout d hd
  · exact hc

theorem OneRun.concat_first (habsent : ∀ d ∈ h, d.next ≠ .subBlock p)
    (hc : c.next = .subBlock p) : OneRun p (h ++ [c]) := by
  refine ⟨h, [c], [], by simp, ?_, by simpa using habsent⟩
  intro d hd
  rw [mem_singleton] at hd
  rwa [hd]

/-- A run at the end of the history is continued. -/
theorem OneRun.concat_same (hrun : OneRun p h) (hlast : lastSection h = .subBlock p)
    (hc : c.next = .subBlock p) : OneRun p (h ++ [c]) := by
  obtain ⟨before, run, after, rfl, hin, hout⟩ := hrun
  cases after using reverseRecOn with
  | nil =>
    refine ⟨before, run ++ [c], [], by simp, ?_, hout⟩
    intro d hd
    rw [mem_append, mem_singleton] at hd
    rcases hd with hd | rfl
    · exact hin d hd
    · exact hc
  | append_singleton after d =>
    exfalso
    rw [← append_assoc, ← append_assoc, lastSection_concat] at hlast
    exact hout d (by simp) hlast

/-! The sections of a run. -/

/-- The executor's section is the last one, it is the furthest, and the
subblocks it has seen are those of the history. -/
structure Sectioned (s : Executor) (h : List Committed) : Prop where
  last : s.blockSection = lastSection h
  furthest : ∀ c ∈ h, c.next.rank ≤ s.blockSection.rank
  ordered : Ordered h
  seen : ∀ c ∈ h, ∀ p, c.next = .subBlock p → p ∈ s.seenSubblocks.map Prod.fst
  oneRun : ∀ p, OneRun p h

theorem pushSubblock_keys (p : PartialValidatorKey) (tx : TempoTxEnvelope)
    (subblocks : List (PartialValidatorKey × List TempoTxEnvelope)) (q : PartialValidatorKey) :
    q ∈ (pushSubblock p tx subblocks).map Prod.fst ↔ q ∈ subblocks.map Prod.fst ∨ q = p := by
  unfold pushSubblock
  cases hlast : subblocks.getLast? with
  | none =>
    rw [getLast?_eq_none_iff] at hlast
    subst hlast
    simp
  | some last =>
    obtain ⟨r, txs⟩ := last
    obtain ⟨front, rfl⟩ := getLast?_eq_some_iff.mp hlast
    dsimp only
    split
    · rename_i hsame
      rw [dropLast_concat]
      simp only [map_append, map_cons, map_nil, mem_append, mem_singleton]
      constructor
      · rintro (hq | hq)
        · exact .inl (.inl hq)
        · exact .inl (.inr hq)
      · rintro ((hq | hq) | hq)
        · exact .inl hq
        · exact .inr hq
        · exact .inr (hq.trans hsame.symm)
    · simp only [map_append, map_cons, map_nil, mem_append, mem_singleton]

theorem commitTransaction_section (ctx : BlockCtx) (s : Executor)
    (tx : TempoTxEnvelope) (gas : Nat) (next : BlockSection) :
    (commitTransaction ctx s tx gas next).blockSection = next := by
  cases next <;> rfl

/-- A committed transaction is at the section it was validated for, and
sections never go back. -/
theorem validateTx_advances {tx : TempoTxEnvelope} {gas : Nat}
    {next : BlockSection} (h : validateTx ctx s tx gas = .ok next) :
    s.blockSection.rank ≤ next.rank := by
  cases validateTx_placed h with
  | nonShared hsection =>
    rcases hsection with hsection | hsection <;> simp [hsection, BlockSection.rank]
  | subBlock _ hsection =>
    rcases hsection with hsection | hsection | hsection | ⟨⟨q, hsection⟩, -⟩
    all_goals simp [hsection, BlockSection.rank]
  | gasIncentive hsection =>
    cases hs : s.blockSection with
    | system b => exact absurd hs (hsection b)
    | startOfBlock | nonShared | subBlock p => simp [BlockSection.rank]
    | gasIncentive => exact le_rfl
  | system =>
    cases s.blockSection <;> simp [BlockSection.rank]

theorem Sectioned.ordered_concat (hsec : Sectioned s h)
    (hadvance : s.blockSection.rank ≤ c.next.rank) : Ordered (h ++ [c]) := by
  refine pairwise_append.mpr ⟨hsec.ordered, pairwise_singleton _ _, ?_⟩
  intro a ha b hb
  rw [mem_singleton] at hb
  subst hb
  exact le_trans (hsec.furthest a ha) hadvance

/-- No subblock was committed before the section of subblocks. -/
theorem Sectioned.absent (hsec : Sectioned s h) (hrank : s.blockSection.rank < 2)
    (p : PartialValidatorKey) : ∀ c ∈ h, c.next ≠ .subBlock p := by
  intro c hc heq
  have hle := hsec.furthest c hc
  rw [heq] at hle
  change 2 ≤ _ at hle
  omega

theorem Runs.sectioned (hruns : Runs ctx s h) : Sectioned s h := by
  induction hruns with
  | start =>
    exact ⟨rfl, nofun, List.Pairwise.nil, nofun, fun p => OneRun.of_absent nofun⟩
  | @step s h hruns tx gas next haccepts hvalid ih =>
    have hadvance := validateTx_advances hvalid
    have hsection := commitTransaction_section ctx s tx gas next
    refine ⟨?_, ?_, ih.ordered_concat hadvance, ?_, ?_⟩
    · rw [hsection, lastSection_concat]
    · intro c hc
      rw [hsection]
      rcases mem_append.mp hc with hc | hc
      · exact le_trans (ih.furthest c hc) hadvance
      · rw [mem_singleton] at hc
        rw [hc]
    · intro c hc p hp
      rcases mem_append.mp hc with hc | hc
      · have hold := ih.seen c hc p hp
        cases next with
        | subBlock q => exact (pushSubblock_keys q tx _ p).mpr (.inl hold)
        | _ => exact hold
      · rw [mem_singleton] at hc
        subst hc
        cases hp
        exact (pushSubblock_keys p tx _ p).mpr (.inr rfl)
    · intro p
      by_cases hsame : next = .subBlock p
      · subst hsame
        obtain ⟨⟩ | ⟨-, hfrom⟩ := validateTx_placed hvalid
        rcases hfrom with hfrom | hfrom | hfrom | ⟨-, hnew⟩
        · exact OneRun.concat_first (ih.absent (by rw [hfrom]; decide) p) rfl
        · exact OneRun.concat_first (ih.absent (by rw [hfrom]; decide) p) rfl
        · exact (ih.oneRun p).concat_same (ih.last ▸ hfrom) rfl
        · exact OneRun.concat_first (fun c hc heq => hnew (ih.seen c hc p heq)) rfl
      · exact (ih.oneRun p).concat_other hsame

/-! The gas of a whole block. -/

/-- A block that ended passed the check of the shared gas, and from T4 on it has
two sections only. -/
structure Closed (ctx : BlockCtx) (s : Executor) (h : List Committed) : Prop where
  checked : ∀ b, s.blockSection = .system b → ∃ metadata, validateSharedGas ctx s metadata = .ok ()
  plain : .t4 ≤ ctx.spec → ∀ c ∈ h, c.next = .nonShared ∨ c.next = .gasIncentive

theorem Runs.closed (hruns : Runs ctx s h) : Closed ctx s h := by
  induction hruns with
  | start => exact ⟨nofun, fun _ => nofun⟩
  | @step s h hruns tx gas next haccepts hvalid ih =>
    have hsection := commitTransaction_section ctx s tx gas next
    refine ⟨?_, ?_⟩
    · intro b hb
      rw [hsection] at hb
      subst hb
      -- the commit changes nothing the check reads
      cases validateTx_placed hvalid with
      | system _ _ hshared => exact ⟨_, hshared⟩
    · intro hspec
      refine forall_mem_append.mpr ⟨ih.plain hspec, forall_mem_singleton.mpr ?_⟩
      cases validateTx_placed hvalid with
      | nonShared => exact .inl rfl
      | gasIncentive => exact .inr rfl
      | subBlock hnot | system _ hnot => exact absurd hspec hnot

/-- The gas of a part is at most that of the parts that cover it. -/
theorem gasOf_le_add {p q r : Committed → Bool}
    (hcover : ∀ c ∈ h, p c = true → c.gas ≤ (if q c then c.gas else 0) +
      if r c then c.gas else 0) :
    gasOf p h ≤ gasOf q h + gasOf r h := by
  induction h using reverseRecOn with
  | nil => exact le_rfl
  | append_singleton h c ih =>
    have hrest := ih fun d hd => hcover d (mem_append_left _ hd)
    have hlast := hcover c (mem_append_right _ mem_cons_self)
    rw [gasOf_concat, gasOf_concat, gasOf_concat]
    by_cases hp : p c = true
    · have hlast' := hlast hp
      rw [if_pos hp]
      omega
    · rw [if_neg hp]
      omega

/-- Before T4, the subblocks and the incentives of a block that ends with the
metadata share the shared gas, if what is reserved can be summed up. -/
theorem Runs.shared_le (hwords : ctx.Words) (hrefuses : ctx.RefusesExcess) (hruns : Runs ctx s h)
    (hrep : Reported ctx h) (hfits : Fits ctx h) {set : List B256}
    (hknown : ctx.validatorSet = some set) {b : Bool} (hend : s.blockSection = .system b) :
    gasOf isSub h + gasOf isIncentive h ≤ ctx.sharedGasLimit := by
  obtain ⟨metadata, hchecked⟩ := hruns.closed.checked b hend
  obtain ⟨hsub, hreserved⟩ := hruns.subblocks hrep
  have hacc := hruns.accounted hwords hrefuses hrep
  have hshared := validateSharedGas_bounded hwords (lt_of_le_of_lt hreserved hfits) hknown hchecked
  rw [hacc.incentive] at hshared
  omega

/-- From T4 on nothing may be left in the incentive section at the end. -/
theorem Runs.lanes_le (hwords : ctx.Words) (hrefuses : ctx.RefusesExcess) (hruns : Runs ctx s h)
    (hrep : Reported ctx h) (hspec : .t4 ≤ ctx.spec) (hfinish : finish ctx s = .ok ()) :
    gasOf isAny h ≤ ctx.gasLimit - ctx.sharedGasLimit ∧
      gasOf (fun c => !ctx.isPayment c.tx) h ≤ ctx.generalGasLimit := by
  have hacc := hruns.accounted hwords hrefuses hrep
  have hplain := hruns.closed.plain hspec
  have hincentive : s.incentiveGasUsed = 0 := by
    unfold finish at hfinish
    rw [if_pos hspec] at hfinish
    split at hfinish
    · cases hfinish
    · omega
  rw [hacc.incentive] at hincentive
  have hnon := hacc.nonShared
  have hgen := hacc.nonPayment
  have hall : gasOf isAny h ≤ gasOf isNonShared h + gasOf isIncentive h := by
    refine gasOf_le_add fun c hc _ => ?_
    rcases hplain c hc with hnext | hnext
    · simp [isNonShared, hnext]
    · simp [isIncentive, hnext]
  have hgeneral : gasOf (fun c => !ctx.isPayment c.tx) h ≤
      gasOf (isGeneral ctx) h + gasOf isIncentive h := by
    refine gasOf_le_add fun c hc hpay => ?_
    rcases hplain c hc with hnext | hnext
    · simp [isGeneral, isNonShared, hnext, hpay]
    · simp [isIncentive, hnext]
  exact ⟨by omega, by omega⟩

/-! Blocks as lists of transactions with the gas they use. -/

/-- The gas of the transactions of a block with a property. -/
def blockGas (p : TempoTxEnvelope → Bool) (entries : List (TempoTxEnvelope × Nat)) : Nat :=
  ((entries.filter fun e => p e.1).map fun e => blockGasUsed e.1 e.2).sum

/-- The EVM uses at most what a transaction reserves. -/
def WithinReserved (ctx : BlockCtx) (entries : List (TempoTxEnvelope × Nat)) : Prop :=
  ∀ e ∈ entries, e.2 ≤ ctx.reserved e.1

/-- The history of a run commits its transactions with their gas. -/
def Records (h : List Committed) (entries : List (TempoTxEnvelope × Nat)) : Prop :=
  h.map (fun c => (c.tx, c.gas)) = entries.map fun e => (e.1, blockGasUsed e.1 e.2)

namespace Records

variable {entries : List (TempoTxEnvelope × Nat)} (hrec : Records h entries)
include hrec

theorem gasOf_eq (p : TempoTxEnvelope → Bool) : gasOf (fun c => p c.tx) h = blockGas p entries := by
  have hleft : gasOf (fun c => p c.tx) h =
      ((((h.map fun c => (c.tx, c.gas)).filter fun e => p e.1)).map Prod.snd).sum := by
    rw [filter_map, map_map]
    rfl
  have hright : blockGas p entries = ((((entries.map fun e => (e.1, blockGasUsed e.1 e.2)).filter
        fun e => p e.1)).map Prod.snd).sum := by
    rw [filter_map, map_map]
    rfl
  rw [hleft, hright, hrec]

theorem reported (hwithin : WithinReserved ctx entries) : Reported ctx h := by
  intro c hc
  have hmem : (c.tx, c.gas) ∈ h.map fun c => (c.tx, c.gas) := mem_map_of_mem hc
  rw [hrec] at hmem
  obtain ⟨e, he, heq⟩ := mem_map.mp hmem
  rw [Prod.mk.injEq] at heq
  rw [← heq.1, ← heq.2]
  have hle := hwithin e he
  unfold blockGasUsed
  split
  · exact Nat.zero_le _
  · exact hle

end Records

theorem blockGas_mono {p q : TempoTxEnvelope → Bool} (hpq : ∀ tx, p tx = true → q tx = true)
    (entries : List (TempoTxEnvelope × Nat)) : blockGas p entries ≤ blockGas q entries := by
  unfold blockGas
  induction entries with
  | nil => exact le_rfl
  | cons e entries ih =>
    cases hp : p e.1 with
    | true => simp [hp, hpq e.1 hp, ih]
    | false => cases hq : q e.1 <;> simp [hp, hq] <;> omega

/-- The lanes of a block are enforced. -/
theorem gas_lanes_enforced {ctx : BlockCtx} (hwords : ctx.Words) (hrefuses : ctx.RefusesExcess)
    {entries : List (TempoTxEnvelope × Nat)} {s : Executor}
    (hrun : run ctx (.new ctx) entries = .ok s) (hfinish : finish ctx s = .ok ())
    (hwithin : WithinReserved ctx entries) :
    (.t4 ≤ ctx.spec → blockGas (fun tx => !tx.isSystemTx) entries ≤
          ctx.gasLimit - ctx.sharedGasLimit ∧
        blockGas (fun tx => !tx.isSystemTx && !ctx.isPayment tx) entries ≤ ctx.generalGasLimit) ∧
      (¬.t4 ≤ ctx.spec → ∀ set, ctx.validatorSet = some set → s.blockSection = .system true →
          (∃ h, Runs ctx s h ∧ Records h entries ∧ Ordered h ∧ (∀ p, OneRun p h) ∧
            gasOf isNonShared h ≤ ctx.gasLimit - ctx.sharedGasLimit ∧
            (Fits ctx h → gasOf isSub h + gasOf isIncentive h ≤ ctx.sharedGasLimit)) ∧
          blockGas (fun _ => true) entries ≤ ctx.gasLimit) ∧
      ∀ (s : Executor) (tx : TempoTxEnvelope) (gas : Nat),
        validateTx ctx s tx gas = .ok .nonShared → gas ≤ s.nonSharedGasLeft ∧
            (ctx.isPayment tx = false → gas ≤ s.nonPaymentGasLeft) := by
  obtain ⟨h, hruns, hrec⟩ := runs_of_run .start hrun
  rw [nil_append] at hruns
  have hrep := Records.reported hrec hwithin
  have hany : gasOf isAny h = _ := Records.gasOf_eq hrec fun _ => true
  refine ⟨?_, ?_, ?_⟩
  · intro hspec
    obtain ⟨hall, hgeneral⟩ := hruns.lanes_le hwords hrefuses hrep hspec hfinish
    have hpay := Records.gasOf_eq hrec fun tx => !ctx.isPayment tx
    rw [hany] at hall
    rw [hpay] at hgeneral
    refine ⟨le_trans (blockGas_mono (fun _ _ => rfl) _) hall, ?_⟩
    refine le_trans (blockGas_mono (fun tx htx => ?_) _) hgeneral
    exact (Bool.and_eq_true_iff.mp htx).2
  · intro _ set hknown hend
    have hacc := (hruns.accounted hwords hrefuses hrep).nonShared
    refine ⟨⟨h, hruns, hrec, hruns.sectioned.ordered, hruns.sectioned.oneRun, by omega,
      fun hfits => hruns.shared_le hwords hrefuses hrep hfits hknown hend⟩, ?_⟩
    rw [← hany]
    exact (hruns.used hwords hrefuses hrep).2
  · intro s tx gas hvalid
    cases validateTx_placed hvalid with
    | nonShared _ hroom hgeneral => exact ⟨hroom, hgeneral⟩

/-- A block of each kind of transaction: a payment, a transaction of a
subblock, one that uses the incentive, and the metadata. -/
def sampleCtx : BlockCtx where
  spec := .t3
  gasLimit := 1000
  sharedGasLimit := 100
  generalGasLimit := 500
  txGasLimitCap := some 30000000
  validatorSet := some [7 <<< 136]
  decodesValidator := fun _ => true
  decodesSignature := fun _ => true
  verifies := fun _ _ => true
  subblockFeeRecipients := fun _ => some ⟨2⟩
  accepts := fun used tx => decide (used + tx.gasLimit ≤ 1000)

def sampleTx : TempoTxEnvelope where
  isSystemTx := false
  to' := ⟨1⟩
  metadata := none
  subblockProposer := none
  isPaymentV1 := true
  isPaymentV2 := true
  gasLimit := 60

def sampleMetadata : SubBlockMetadata where
  version := .v1
  validator := 7 <<< 136
  feeRecipient := ⟨2⟩
  signature := []

def sampleSystemTx : TempoTxEnvelope :=
  { sampleTx with
    isSystemTx := true, to' := 0, metadata := some [sampleMetadata], gasLimit := 0 }

def sampleBlock : List (TempoTxEnvelope × Nat) :=
  [(sampleTx, 50), ({ sampleTx with subblockProposer := some 7 }, 40),
    ({ sampleTx with gasLimit := 40 }, 40), (sampleSystemTx, 0)]

theorem gas_lanes_enforced_sample :
    ∃ s, run sampleCtx (.new sampleCtx) sampleBlock = .ok s ∧ s.blockSection = .system true ∧
      blockGas (fun _ => true) sampleBlock ≤ sampleCtx.gasLimit := by
  refine ⟨_, rfl, rfl, ?_⟩
  have hrefuses : sampleCtx.RefusesExcess := by
    intro used tx haccepts
    have hroom : used + tx.gasLimit ≤ 1000 := of_decide_eq_true haccepts
    exact le_trans (Nat.add_le_add_left (min_le_left _ _) _) hroom
  have hlanes := @gas_lanes_enforced sampleCtx ⟨by decide, by decide, by decide⟩ hrefuses
    sampleBlock _ rfl rfl (by unfold WithinReserved; decide)
  exact (hlanes.2.1 (by decide) _ rfl rfl).2

end Block

end Tempo
