/-
Invariants of the executor over a block.  The gas left in a lane and the gas
committed to it add up to the limit, the gas of the subblocks is what they
reserved at most, sections come in order, and the transactions of a proposer
are contiguous.
-/
import Tempo.Block.Executor
import Tempo.Library.Exec

namespace Tempo

namespace Block

open Executor List

/-- A committed transaction with its section and the gas it reported. -/
structure Committed where
  next : BlockSection
  tx : TempoTxEnvelope
  gas : Nat

/-- Executing a block transaction by transaction, with its history. -/
inductive Runs (ctx : BlockCtx) : Executor → List Committed → Prop where
  | start : Runs ctx (.new ctx) []
  | step {s : Executor} {h : List Committed} (hruns : Runs ctx s h)
      (tx : TempoTxEnvelope) (gas : Nat) (next : BlockSection)
      (haccepts : ctx.accepts s.gasUsed tx = true) (hvalid : validateTx ctx s tx gas = .ok next) :
      Runs ctx (commitTransaction ctx s tx gas next) (h ++ [⟨next, tx, gas⟩])

variable {ctx : BlockCtx} {s : Executor} {h : List Committed}
  {tx : TempoTxEnvelope} {gas : Nat} {txs : List TempoTxEnvelope} {c : Committed} {s' : Executor}

/-- An executed transaction was accepted and validated. -/
theorem executed_ok {next : BlockSection}
    (h : executeTransactionWithoutCommit ctx s tx gas = .ok next) :
    ctx.accepts s.gasUsed tx = true ∧ validateTx ctx s tx gas = .ok next := by
  obtain ⟨nextSection, hpre, h⟩ := except_bind_eq_ok.mp h
  simp only [except_ite_eq_ok, Bool.not_eq_false] at h
  obtain ⟨-, haccepts, h⟩ := h
  refine ⟨haccepts, ?_⟩
  cases nextSection with
  | none => exact h
  | some nextSection =>
    cases h
    unfold validateTxPreExecution at hpre
    split_ifs at hpre with hsystem
    · rw [validateTx, if_pos hsystem]
      cases hvalid : validateSystemTx ctx s tx <;> rw [hvalid] at hpre <;> cases hpre
      rfl
    · cases hpre

/-- A successful run is one with a history. -/
theorem runs_of_run {entries : List (TempoTxEnvelope × Nat)}
    (hruns : Runs ctx s h) (hrun : run ctx s entries = .ok s') :
    ∃ more, Runs ctx s' (h ++ more) ∧ more.map (fun c => (c.tx, c.gas)) =
        entries.map fun e => (e.1, blockGasUsed e.1 e.2) := by
  induction entries generalizing s h with
  | nil =>
    cases hrun
    exact ⟨[], by rwa [append_nil], rfl⟩
  | cons e entries ih =>
    obtain ⟨tx, gas⟩ := e
    obtain ⟨s1, hstep, hrun⟩ := except_bind_eq_ok.mp hrun
    obtain ⟨next, hnext, hstep⟩ := except_bind_eq_ok.mp hstep
    obtain ⟨haccepts, hvalid⟩ := executed_ok hnext
    cases hstep
    obtain ⟨more, hmore, heq⟩ := ih (hruns.step tx _ next haccepts hvalid) hrun
    refine ⟨⟨next, tx, blockGasUsed tx gas⟩ :: more, ?_, ?_⟩
    · rwa [append_assoc] at hmore
    · rw [map_cons, map_cons, heq]

/-- The gas of the committed transactions with a property. -/
def gasOf (p : Committed → Bool) (h : List Committed) : Nat :=
  ((h.filter p).map Committed.gas).sum

theorem gasOf_concat (p : Committed → Bool) (h : List Committed) (c : Committed) :
    gasOf p (h ++ [c]) = gasOf p h + if p c then c.gas else 0 := by
  unfold gasOf
  cases hp : p c <;> simp [hp]

def isNonShared (c : Committed) : Bool := decide (c.next = .nonShared)

def isIncentive (c : Committed) : Bool := decide (c.next = .gasIncentive)

def isSub (c : Committed) : Bool :=
  match c.next with
  | .subBlock _ => true
  | _ => false

def isAny (_ : Committed) : Bool := true

theorem gasOf_le (p : Committed → Bool) (h : List Committed) : gasOf p h ≤ gasOf isAny h := by
  unfold gasOf isAny
  rw [filter_true]
  exact ((filter_sublist).map _).sum_le_sum fun _ _ => Nat.zero_le _

/-- The EVM reports at most what is reserved. -/
def Reported (ctx : BlockCtx) (h : List Committed) : Prop :=
  ∀ c ∈ h, c.gas ≤ ctx.reserved c.tx

/-- The wrapped executor refuses a transaction that may use more gas than the
block has left. -/
def BlockCtx.RefusesExcess (ctx : BlockCtx) : Prop :=
  ∀ used tx, ctx.accepts used tx = true → used + ctx.reserved tx ≤ ctx.gasLimit

theorem Reported.init (hrep : Reported ctx (h ++ [c])) : Reported ctx h :=
  fun d hd => hrep d (mem_append_left _ hd)

/-! Words that do not wrap. -/

theorem wrappingAdd_eq {a b : Nat} (h : a + b < wordSize) :
    wrappingAdd a b = a + b := Nat.mod_eq_of_lt h

theorem wrappingSub_eq {a b : Nat} (ha : a < wordSize) (h : b ≤ a) : wrappingSub a b = a - b := by
  unfold wrappingSub
  rw [show a + wordSize - b = (a - b) + wordSize by omega,
    Nat.add_mod_right, Nat.mod_eq_of_lt (by omega)]

/-! Where a transaction is committed. -/

/-- The sections a transaction may be committed to, and what was checked. -/
inductive Placed (ctx : BlockCtx) (s : Executor) (tx : TempoTxEnvelope) (gas : Nat) :
    BlockSection → Prop where
  | nonShared (hsection : s.blockSection = .startOfBlock ∨ s.blockSection = .nonShared)
      (hroom : gas ≤ s.nonSharedGasLeft)
      (hgeneral : ctx.isPayment tx = false → gas ≤ s.nonPaymentGasLeft) :
      Placed ctx s tx gas .nonShared
  | subBlock {p : PartialValidatorKey} (hspec : ¬.t4 ≤ ctx.spec)
      (hsection : s.blockSection = .startOfBlock ∨ s.blockSection = .nonShared ∨
        s.blockSection = .subBlock p ∨
        (∃ q, s.blockSection = .subBlock q) ∧ p ∉ s.seenSubblocks.map Prod.fst) :
      Placed ctx s tx gas (.subBlock p)
  | gasIncentive (hsection : ∀ b, s.blockSection ≠ .system b) : Placed ctx s tx gas .gasIncentive
  | system {metadata : List SubBlockMetadata} (hsystem : tx.isSystemTx = true)
      (hspec : ¬.t4 ≤ ctx.spec) (hshared : validateSharedGas ctx s metadata = .ok ()) :
      Placed ctx s tx gas (.system true)

theorem validateTx_placed {next : BlockSection} (h : validateTx ctx s tx gas = .ok next) :
    Placed ctx s tx gas next := by
  have hregular : (s.blockSection = .startOfBlock ∨ s.blockSection = .nonShared) →
      (if s.nonSharedGasLeft < gas ∨ (ctx.isPayment tx = false ∧ s.nonPaymentGasLeft < gas) then
        .ok .gasIncentive else .ok .nonShared) = (.ok next : Except String _) →
      Placed ctx s tx gas next := by
    intro hsection h
    split at h
    · cases h
      exact .gasIncentive (by rcases hsection with h | h <;> simp [h])
    · rename_i hfit
      cases h
      exact .nonShared hsection (by omega) fun hpay =>
        Nat.le_of_not_lt fun hlt => hfit (.inr ⟨hpay, hlt⟩)
  unfold validateTx validateSystemTx at h
  split at h
  · repeat' split at h
    all_goals cases h
    exact .system ‹_› ‹_› ‹_›
  split at h
  · split at h
    · cases h
    split at h
    · cases h
    · cases h
    · cases h
      exact .subBlock ‹_› (.inl ‹_›)
    · cases h
      exact .subBlock ‹_› (.inr (.inl ‹_›))
    · split at h
      · rename_i hwhich
        cases h
        refine .subBlock ‹_› (.inr (.inr (hwhich.imp ?_ fun hnew => ⟨⟨_, ‹_›⟩, ?_⟩)))
        · rintro rfl
          assumption
        · rintro hmem
          obtain ⟨entry, hentry, rfl⟩ := mem_map.mp hmem
          exact hnew (any_eq_true.mpr ⟨entry, hentry, by simp⟩)
      · cases h
  · split at h
    · exact hregular (.inl ‹_›) h
    · exact hregular (.inr ‹_›) h
    · cases h
      exact .gasIncentive (by simp [*])
    · cases h
      exact .gasIncentive (by simp [*])
    · cases h

/-! The gas of the lanes. -/

/-- Limits are machine words. -/
structure BlockCtx.Words (ctx : BlockCtx) : Prop where
  gasLimit : ctx.gasLimit < wordSize
  shared : ctx.sharedGasLimit < wordSize
  general : ctx.generalGasLimit < wordSize

/-- The wrapped executor counts the gas of the block, which stays within the
limit. -/
theorem Runs.used (hwords : ctx.Words) (hrefuses : ctx.RefusesExcess) (hruns : Runs ctx s h)
    (hrep : Reported ctx h) : s.gasUsed = gasOf isAny h ∧ gasOf isAny h ≤ ctx.gasLimit := by
  induction hruns with
  | start => exact ⟨rfl, Nat.zero_le _⟩
  | @step s h hruns tx gas next haccepts hvalid ih =>
    obtain ⟨hused, -⟩ := ih hrep.init
    have hlast : gas ≤ ctx.reserved tx :=
      hrep ⟨next, tx, gas⟩ (mem_append_right _ mem_cons_self)
    have hroom := hrefuses _ _ haccepts
    have hword := hwords.gasLimit
    have hcount : (commitTransaction ctx s tx gas next).gasUsed = wrappingAdd s.gasUsed gas := by
      cases next <;> rfl
    rw [hcount, wrappingAdd_eq (by omega), gasOf_concat, ← hused]
    exact ⟨rfl, (Nat.add_le_add_left hlast _).trans hroom⟩

def isGeneral (ctx : BlockCtx) (c : Committed) : Bool :=
  isNonShared c && !ctx.isPayment c.tx

/-- What is left in a lane and what was committed to it is its limit, and the
gas of incentives is counted. -/
structure Accounted (ctx : BlockCtx) (s : Executor) (h : List Committed) : Prop where
  nonShared : s.nonSharedGasLeft + gasOf isNonShared h = ctx.gasLimit - ctx.sharedGasLimit
  nonPayment : s.nonPaymentGasLeft + gasOf (isGeneral ctx) h = ctx.generalGasLimit
  incentive : s.incentiveGasUsed = gasOf isIncentive h

theorem Accounted.of_same
    (hacc : Accounted ctx s h) (hnon : isNonShared c = false) (hinc : isIncentive c = false)
    (hs : s'.nonSharedGasLeft = s.nonSharedGasLeft ∧ s'.nonPaymentGasLeft = s.nonPaymentGasLeft ∧
      s'.incentiveGasUsed = s.incentiveGasUsed) : Accounted ctx s' (h ++ [c]) := by
  obtain ⟨h1, h2, h3⟩ := hs
  have hgen : isGeneral ctx c = false := by simp [isGeneral, hnon]
  refine ⟨?_, ?_, ?_⟩
  · rw [gasOf_concat, hnon, h1]
    exact hacc.nonShared
  · rw [gasOf_concat, hgen, h2]
    exact hacc.nonPayment
  · rw [gasOf_concat, hinc, h3]
    exact hacc.incentive

/-- The gas of the non-shared section is taken from what was left. -/
theorem Accounted.commit_nonShared (hwords : ctx.Words) (hacc : Accounted ctx s h)
    (hroom : gas ≤ s.nonSharedGasLeft)
    (hgeneral : ctx.isPayment tx = false → gas ≤ s.nonPaymentGasLeft) :
    Accounted ctx (commitTransaction ctx s tx gas .nonShared) (h ++ [⟨.nonShared, tx, gas⟩]) := by
  have hn := hacc.nonShared
  have hp := hacc.nonPayment
  have hgas := hwords.gasLimit
  have hgen := hwords.general
  have hleft : wrappingSub s.nonSharedGasLeft gas =
    s.nonSharedGasLeft - gas := wrappingSub_eq (by omega) hroom
  refine ⟨?_, ?_, ?_⟩
  · rw [gasOf_concat]
    change wrappingSub s.nonSharedGasLeft gas + (gasOf isNonShared h + gas) = _
    omega
  · rw [gasOf_concat]
    cases hpay : ctx.isPayment tx with
    | true =>
      have hskip : isGeneral ctx ⟨.nonShared, tx, gas⟩ = false := by
        simp [isGeneral, hpay]
      rw [hskip]
      change (if ctx.isPayment tx = true then s.nonPaymentGasLeft
        else _) + (gasOf (isGeneral ctx) h + 0) = _
      rw [if_pos hpay]
      exact hp
    | false =>
      have hcount : isGeneral ctx ⟨.nonShared, tx, gas⟩ = true := by
        simp [isGeneral, isNonShared, hpay]
      have hfit := hgeneral hpay
      rw [hcount]
      change (if ctx.isPayment tx = true then s.nonPaymentGasLeft
        else wrappingSub s.nonPaymentGasLeft gas) + (gasOf (isGeneral ctx) h + gas) = _
      rw [if_neg (by simp [hpay]), wrappingSub_eq (by omega) hfit]
      omega
  · rw [gasOf_concat]
    exact hacc.incentive

/-- No counter wraps around: what is subtracted was left. -/
theorem Runs.accounted (hwords : ctx.Words) (hrefuses : ctx.RefusesExcess) (hruns : Runs ctx s h)
    (hrep : Reported ctx h) : Accounted ctx s h := by
  induction hruns with
  | start => exact ⟨add_zero _, add_zero _, rfl⟩
  | @step s h hruns tx gas next haccepts hvalid ih =>
    have hacc := ih hrep.init
    cases validateTx_placed hvalid with
    | nonShared hsection hroom hgeneral => exact hacc.commit_nonShared hwords hroom hgeneral
    | subBlock | system => exact hacc.of_same rfl rfl ⟨rfl, rfl, rfl⟩
    | gasIncentive =>
      have hle := gasOf_le isIncentive (h ++ [⟨.gasIncentive, tx, gas⟩])
      rw [gasOf_concat] at hle
      have hused := ((hruns.step tx gas _ haccepts hvalid).used hwords hrefuses hrep).2
      have hword : gasOf isIncentive h + gas < wordSize :=
        lt_of_le_of_lt (hle.trans hused) hwords.gasLimit
      refine ⟨?_, ?_, ?_⟩
      · rw [gasOf_concat]
        exact hacc.nonShared
      · rw [gasOf_concat]
        exact hacc.nonPayment
      · rw [gasOf_concat]
        change wrappingAdd s.incentiveGasUsed gas = gasOf isIncentive h + gas
        rw [hacc.incentive, wrappingAdd_eq hword]

/-! The subblocks. -/

/-- What the transactions of the subblocks reserve. -/
def subReserved (ctx : BlockCtx)
    (subblocks : List (PartialValidatorKey × List TempoTxEnvelope)) : Nat :=
  (subblocks.map fun p => (p.2.map ctx.reserved).sum).sum

theorem subReserved_push (ctx : BlockCtx) (p : PartialValidatorKey) (tx : TempoTxEnvelope)
    (subblocks : List (PartialValidatorKey × List TempoTxEnvelope)) :
    subReserved ctx (pushSubblock p tx subblocks) =
      subReserved ctx subblocks + ctx.reserved tx := by
  unfold pushSubblock
  cases hlast : subblocks.getLast? with
  | none =>
    rw [getLast?_eq_none_iff] at hlast
    subst hlast
    simp [subReserved]
  | some last =>
    obtain ⟨q, txs⟩ := last
    have hsplit : subblocks = subblocks.dropLast ++ [(q, txs)] := by
      obtain ⟨front, hfront⟩ := getLast?_eq_some_iff.mp hlast
      rw [hfront, dropLast_concat]
    dsimp only
    split
    · rw [hsplit]
      simp [subReserved]
      omega
    · simp [subReserved]

/-- What all transactions of a block may use fits a machine word. -/
def Fits (ctx : BlockCtx) (h : List Committed) : Prop :=
  (h.map fun c => ctx.reserved c.tx).sum < wordSize

/-- Every transaction of a subblock is kept for the check at the end. -/
theorem Runs.subblocks (hruns : Runs ctx s h) (hrep : Reported ctx h) :
    gasOf isSub h ≤ subReserved ctx s.seenSubblocks ∧ subReserved ctx s.seenSubblocks ≤
        (h.map fun c => ctx.reserved c.tx).sum := by
  induction hruns with
  | start => exact ⟨le_rfl, le_rfl⟩
  | @step s h hruns tx gas next haccepts hvalid ih =>
    obtain ⟨hgas, htotal⟩ := ih hrep.init
    have hlast := hrep ⟨next, tx, gas⟩ (mem_append_right _ mem_cons_self)
    rw [gasOf_concat, map_append, sum_append]
    simp only [map_cons, map_nil, sum_cons, sum_nil]
    cases validateTx_placed hvalid with
    | @subBlock p =>
      change gasOf isSub h + gas ≤ subReserved ctx (pushSubblock p tx
        s.seenSubblocks) ∧ subReserved ctx (pushSubblock p tx s.seenSubblocks) ≤ _
      rw [subReserved_push]
      dsimp only at hlast
      omega
    | nonShared | gasIncentive | system =>
      exact ⟨hgas, le_trans htotal (Nat.le_add_right _ _)⟩

/-! The gas shared by the subblocks. -/

theorem reservedGas_from (txs : List TempoTxEnvelope) (start : Nat)
    (hfits : start + (txs.map ctx.reserved).sum < wordSize) :
    txs.foldl (fun sum tx => wrappingAdd sum (ctx.reserved tx)) start =
      start + (txs.map ctx.reserved).sum := by
  induction txs generalizing start with
  | nil => rfl
  | cons tx txs ih =>
    rw [map_cons, sum_cons] at hfits ⊢
    rw [foldl_cons, wrappingAdd_eq (by omega), ih _ (by omega)]
    omega

theorem reservedGas_eq (hfits : (txs.map ctx.reserved).sum < wordSize) :
    reservedGas ctx txs = (txs.map ctx.reserved).sum := by
  have h := reservedGas_from txs 0 (by rwa [zero_add])
  rwa [zero_add] at h

theorem subReserved_take_le (ctx : BlockCtx)
    (subblocks : List (PartialValidatorKey × List TempoTxEnvelope)) (n : Nat) :
    subReserved ctx (subblocks.take n) ≤ subReserved ctx subblocks := by
  have hsplit : subReserved ctx subblocks = subReserved ctx (subblocks.take n) +
        subReserved ctx (subblocks.drop n) := by
    unfold subReserved
    rw [← sum_append, ← map_append, take_append_drop]
  omega

theorem subReserved_nextSubblock (ctx : BlockCtx)
    {subblocks : List (PartialValidatorKey × List TempoTxEnvelope)} {n n' : Nat}
    {validator : B256} (h : nextSubblock subblocks n validator = (n', txs)) :
    subReserved ctx (subblocks.take n') =
      subReserved ctx (subblocks.take n) + (txs.map ctx.reserved).sum := by
  unfold nextSubblock at h
  split at h
  · rename_i p txs' hget
    split at h
    · cases h
      unfold subReserved
      rw [take_add_one, hget]
      simp
    · cases h
      rfl
  · cases h
    rfl

/-- The invariant of the loop: every metadata entry gives its validator's
share either to the transactions of its subblock or to incentives. -/
structure Shared (ctx : BlockCtx) (set : List B256)
    (subblocks : List (PartialValidatorKey × List TempoTxEnvelope))
    (gasPerSubblock : Nat) (seen : List B256) (n incentiveGas : Nat) : Prop where
  nodup : seen.Nodup
  subset : seen ⊆ set
  share : incentiveGas + subReserved ctx (subblocks.take n) = seen.length * gasPerSubblock

section SharedGas

variable {ctx : BlockCtx} {set seen : List B256} {gasPerSubblock incentiveGas : Nat}
  {subblocks : List (PartialValidatorKey × List TempoTxEnvelope)}
  {metadata : List SubBlockMetadata}

theorem Shared.bounded {n : Nat} (h : Shared ctx set subblocks gasPerSubblock seen n incentiveGas) :
    incentiveGas + subReserved ctx (subblocks.take n) ≤ set.length * gasPerSubblock := by
  rw [h.share]
  exact Nat.mul_le_mul_right _ (subperm_of_subset h.nodup h.subset).length_le

theorem Shared.next {n : Nat} (hset : set.length * gasPerSubblock < wordSize)
    (h : Shared ctx set subblocks gasPerSubblock seen n incentiveGas) {v : B256}
    (hmem : v ∈ set) (hnew : v ∉ seen) {n' reserved : Nat}
    (htake : subReserved ctx (subblocks.take n') = subReserved ctx (subblocks.take n) + reserved)
    (hle : reserved ≤ gasPerSubblock) :
    Shared ctx set subblocks gasPerSubblock (v :: seen) n'
      (wrappingAdd incentiveGas (gasPerSubblock - reserved)) := by
  have hnodup : (v :: seen).Nodup := nodup_cons.mpr ⟨hnew, h.nodup⟩
  have hsubset : v :: seen ⊆ set := cons_subset.mpr ⟨hmem, h.subset⟩
  have hcount : (seen.length + 1) * gasPerSubblock ≤ set.length * gasPerSubblock :=
    Nat.mul_le_mul_right _ (subperm_of_subset hnodup hsubset).length_le
  have hshare := h.share
  rw [Nat.succ_mul] at hcount
  refine ⟨hnodup, hsubset, ?_⟩
  rw [wrappingAdd_eq (by omega), htake, length_cons, Nat.succ_mul]
  omega

/-- The loop shares out at most what all validators are entitled to. -/
theorem sharedGasLoop_bounded (hset : set.length * gasPerSubblock < wordSize)
    (hsubs : subReserved ctx subblocks < wordSize) {n n' incentiveGas' : Nat}
    (h : Shared ctx set subblocks gasPerSubblock seen n incentiveGas)
    (hloop : sharedGasLoop ctx set subblocks gasPerSubblock metadata seen n
      incentiveGas = .ok (n', incentiveGas')) :
    incentiveGas' + subReserved ctx (subblocks.take n') ≤ set.length * gasPerSubblock := by
  induction metadata generalizing seen n incentiveGas with
  | nil =>
    cases hloop
    exact h.bounded
  | cons m rest ih =>
    unfold sharedGasLoop at hloop
    obtain ⟨⟨n1, txs⟩, hnext⟩ : ∃ p, nextSubblock subblocks n m.validator = p := ⟨_, rfl⟩
    simp only [hnext, except_ite_eq_ok] at hloop
    obtain ⟨hmem, hnew, -, -, -, hfit, hloop⟩ := hloop
    have htake := subReserved_nextSubblock ctx hnext
    have hle := subReserved_take_le ctx subblocks n1
    rw [reservedGas_eq (by omega)] at hloop hfit
    exact ih (h.next hset (not_not.mp hmem) hnew htake (by omega)) hloop

/-- When the metadata is accepted, the subblocks and the incentives share
the shared gas. -/
theorem validateSharedGas_bounded (hwords : ctx.Words)
    (hsubs : subReserved ctx s.seenSubblocks < wordSize) (hknown : ctx.validatorSet = some set)
    (h : validateSharedGas ctx s metadata = .ok ()) :
    s.incentiveGasUsed + subReserved ctx s.seenSubblocks ≤
      ctx.sharedGasLimit := by
  unfold validateSharedGas at h
  rw [hknown] at h
  rw [except_ite_eq_ok] at h
  obtain ⟨-, h⟩ := h
  split at h
  · cases h
  rename_i n incentiveGas hloop
  simp only [except_ite_eq_ok, not_not] at h
  obtain ⟨hall, henough, -⟩ := h
  have hshare : set.length * (ctx.sharedGasLimit / set.length) ≤ ctx.sharedGasLimit :=
    Nat.mul_div_le _ _
  have hword := hwords.shared
  have hbound := sharedGasLoop_bounded (by omega) hsubs
    ⟨nodup_nil, nil_subset _, by simp [subReserved]⟩ hloop
  rw [hall, take_length] at hbound
  omega

end SharedGas

end Block

end Tempo
