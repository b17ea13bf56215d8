/-
The queue in step with the zone chain: after the zone has consumed Tempo up to
one block and fully processed it up to an earlier one, the queue holds exactly
the blocks after the first, and the deferred work exactly those between the
two.
-/
import Tempo.ZoneNode.PendingDeposits

namespace Tempo.ZoneNode

open PendingDeposits FinalizedL1 List

variable {operational consumed : Nat} {H : Type}

namespace FinalizedL1

/-- The portal work of the blocks after `operational` up to `consumed`. -/
def deferredWork (l1 : FinalizedL1 H) (operational consumed : Nat) :
    Option (DeferredPortalWork H) :=
  if operational = consumed then none
  else
    some
      { lastHeader := (l1.block consumed).header
        eventBlocks := ((l1.between operational consumed).map
          (·.events)).foldl DeferredPortalWork.pushEvents [] }

variable (l1 : FinalizedL1 H)

theorem deferBlock_deferredWork (h : operational ≤ consumed) :
    deferBlock (l1.deferredWork operational consumed) (l1.block (consumed + 1)) =
      l1.deferredWork operational (consumed + 1) := by
  have hnext : operational ≠ consumed + 1 := by omega
  rw [deferredWork, deferredWork, if_neg hnext, l1.between_concat h, map_append, foldl_append]
  by_cases heq : operational = consumed
  · rw [if_pos heq, heq, between_self]
    rfl
  · rw [if_neg heq]
    rfl

/-- Deferring the blocks of a range extends the work to the range's end. -/
theorem foldl_deferBlock {a : Nat} (hle : operational ≤ consumed) (hca : consumed ≤ a) :
    (l1.between consumed a).foldl deferBlock
        (l1.deferredWork operational consumed) = l1.deferredWork operational a := by
  induction a, hca using Nat.le_induction with
  | base => rw [between_self, foldl_nil]
  | succ a hca ih =>
    rw [l1.between_concat hca, foldl_concat, ih, l1.deferBlock_deferredWork (hle.trans hca)]

/-- Folding a fetched range gives the work of the range. -/
theorem foldl_fetchL1Blocks (h : operational ≤ consumed) :
    (l1.fetchL1Blocks (operational + 1) consumed).foldl deferBlock none =
      l1.deferredWork operational consumed := by
  have hfetch : l1.fetchL1Blocks (operational + 1) consumed = l1.between operational consumed := by
    rw [fetchL1Blocks, between, Nat.add_sub_add_right]
  have hnone : l1.deferredWork operational operational = none := by
    simp [deferredWork]
  rw [hfetch, ← hnone, l1.foldl_deferBlock le_rfl h]

end FinalizedL1

/-- Deferred work that ends at a finalized block. -/
def EndsFinalized (l1 : FinalizedL1 H) (deferred : Option (DeferredPortalWork H)) : Prop :=
  ∀ work, deferred = some work → ∃ n, work.lastHeader = (l1.block n).header

theorem endsFinalized_deferredWork (l1 : FinalizedL1 H) {operational consumed : Nat} :
    EndsFinalized l1 (l1.deferredWork operational consumed) := by
  intro work hwork
  rw [deferredWork] at hwork
  split_ifs at hwork
  obtain rfl := Option.some.inj hwork
  exact ⟨consumed, rfl⟩

/-- A list of work items read off events: blocks without deposits and token
enablements have none, and aggregating appends. -/
structure WorkItems {α : Type} (f : L1PortalEvents → List α) : Prop where
  none : ∀ e, e.deposits.isEmpty ∧ e.enabledTokens.isEmpty → f e = []
  extend : ∀ e e', f (e.extendOperational e') = f e ++ f e'

theorem workItems_deposits : WorkItems L1PortalEvents.deposits :=
  ⟨fun _ he => isEmpty_iff.mp he.1, fun _ _ => rfl⟩

theorem workItems_enabledTokens : WorkItems L1PortalEvents.enabledTokens :=
  ⟨fun _ he => isEmpty_iff.mp he.2, fun _ _ => rfl⟩

namespace WorkItems

variable {α : Type} {f : L1PortalEvents → List α}

theorem foldl_extend (hf : WorkItems f) (e : L1PortalEvents) (l : List L1PortalEvents) :
    f (l.foldl L1PortalEvents.extendOperational e) = f e ++ l.flatMap f := by
  induction l generalizing e with
  | nil => simp
  | cons e' rest ih =>
    rw [foldl_cons, ih, hf.extend, flatMap_cons, append_assoc]

/-- Skipping blocks without events loses nothing. -/
theorem flatMap_pushEvents (hf : WorkItems f) (acc l : List L1PortalEvents) :
    (l.foldl DeferredPortalWork.pushEvents acc).flatMap f = acc.flatMap f ++ l.flatMap f := by
  induction l generalizing acc with
  | nil => simp
  | cons e rest ih =>
    rw [foldl_cons, ih, flatMap_cons, DeferredPortalWork.pushEvents]
    split_ifs with hempty
    · rw [hf.none e hempty, nil_append]
    · rw [flatMap_append, flatMap_singleton, append_assoc]

/-- The aggregated block carries the work of the blocks it stands for. -/
theorem deferredWork (hf : WorkItems f) (l1 : FinalizedL1 H) (operational consumed : Nat) :
    ((l1.deferredWork operational consumed).map
        (·.aggregatedBlock)).toList.flatMap (fun b => f b.events) =
      (l1.between operational consumed).flatMap fun b => f b.events := by
  have hempty : f .empty = [] := hf.none _ ⟨rfl, rfl⟩
  rw [FinalizedL1.deferredWork]
  split_ifs with heq
  · rw [heq, FinalizedL1.between_self]
    rfl
  · simp [DeferredPortalWork.aggregatedBlock, hf.foldl_extend,
      hf.flatMap_pushEvents, hempty, flatMap_map]

end WorkItems

/-- The queue after the zone has consumed Tempo up to `consumed`, fully
processed it up to `operational` and enqueued it up to `tip`. -/
structure InStep (l1 : FinalizedL1 H) (operational consumed tip : Nat)
    (q : PendingDeposits H) : Prop where
  le : operational ≤ consumed
  le_tip : consumed ≤ tip
  deferred : q.deferred = l1.deferredWork operational consumed
  pending : q.pending = l1.between consumed tip
  last : q.lastEnqueued = some (l1.numHash tip) ∨
    q.lastEnqueued = none ∧ operational = consumed ∧ consumed = tip

namespace InStep

variable {l1 : FinalizedL1 H} {tip : Nat} {q : PendingDeposits H}

theorem empty (l1 : FinalizedL1 H) (consumed : Nat) :
    InStep l1 consumed consumed consumed (.empty : PendingDeposits H) where
  le := le_rfl
  le_tip := le_rfl
  deferred := by simp [deferredWork, PendingDeposits.empty]
  pending := by simp [PendingDeposits.empty]
  last := .inr ⟨rfl, rfl, rfl⟩

theorem lastEnqueued_ne_none (h : InStep l1 operational consumed tip q)
    (hlt : consumed < tip) : q.lastEnqueued ≠ none := by
  rcases h.last with hlast | ⟨-, -, htip⟩
  · rw [hlast]
    exact Option.some_ne_none _
  · exact absurd htip hlt.ne

variable {last : Option (NumHash H)} {a : Nat} {deferred : Option (DeferredPortalWork H)}

theorem le_last (h : InStep l1 operational consumed tip q) {last : NumHash H}
    (hlast : q.lastEnqueued = some last) (hle : a ≤ last.number) : a ≤ tip := by
  rcases h.last with htip | ⟨hnone, -, -⟩
  · obtain rfl := Option.some.inj (htip.symm.trans hlast)
    rwa [l1.number_numHash] at hle
  · exact absurd (hlast.symm.trans hnone) (Option.some_ne_none _)

/-! Consuming blocks.  Both loops compare the front of the queue with the
anchor of a canonical zone block. -/

theorem front_passes (l1 : FinalizedL1 H) (h : consumed < a) :
    ¬(l1.numHash a).number < (l1.block (consumed + 1)).header.numHash.number ∧
      ((l1.block (consumed + 1)).header.numHash.number < (l1.numHash a).number ∨
        (l1.block (consumed + 1)).header.numHash.hash = (l1.numHash a).hash) := by
  have hnumber : (l1.block (consumed + 1)).header.numHash.number = consumed + 1 := l1.number_block _
  rw [hnumber, l1.number_numHash]
  refine ⟨by omega, ?_⟩
  rcases (show consumed + 1 ≤ a from h).lt_or_eq with hlt | heq
  · exact .inl hlt
  · exact .inr (heq ▸ rfl)

theorem front_stops (h : a ≤ consumed) :
    (l1.numHash a).number < (l1.block (consumed + 1)).header.numHash.number := by
  have hnumber : (l1.block (consumed + 1)).header.numHash.number = consumed + 1 := l1.number_block _
  rw [hnumber, l1.number_numHash]
  omega

theorem between_cases (l1 : FinalizedL1 H) (a b : Nat) : l1.between a b = [] ∨
    l1.between a b = l1.block (a + 1) :: l1.between (a + 1) b := by
  rcases lt_or_ge a b with hlt | hge
  · exact .inr (l1.between_cons hlt)
  · simp [between, Nat.sub_eq_zero_of_le hge]

variable [DecidableEq H]

/-- Everything the next full import owes is in the queue's answer, in order
and once. -/
theorem operationalWork (h : InStep l1 operational consumed tip q)
    {anchor : NumHash H} {work : List (L1BlockDeposits H)}
    (hwork : q.operationalWork anchor = .ok work) :
    anchor = l1.numHash (consumed + 1) ∧ consumed < tip ∧
      ∀ {α : Type} (f : L1PortalEvents → List α), WorkItems f → work.flatMap (fun b => f b.events) =
          (l1.between operational (consumed + 1)).flatMap fun b => f b.events := by
  unfold PendingDeposits.operationalWork at hwork
  rcases h.le_tip.eq_or_lt with rfl | hlt
  · simp [h.pending] at hwork
  · rw [h.pending, l1.between_cons hlt, head?_cons] at hwork
    simp only at hwork
    split_ifs at hwork with hanchor
    obtain rfl := Except.ok.inj hwork
    refine ⟨hanchor.symm, hlt, fun f hf => ?_⟩
    rw [l1.between_concat h.le, flatMap_append, flatMap_append, h.deferred, hf.deferredWork]

/-- Nothing is left to defer up to a block that was consumed before. -/
theorem deferLoop_old (hac : a ≤ consumed) :
    deferLoop (l1.numHash a) last (l1.between consumed tip) deferred =
      .ok () ⟨l1.between consumed tip, deferred, last⟩ := by
  rcases between_cases l1 consumed tip with hnil | hcons
  · rw [hnil, deferLoop]
  · rw [hcons, deferLoop]
    simp only [front_stops hac, ↓reduceIte]

theorem confirmLoop_old (hac : a ≤ consumed) :
    confirmLoop (l1.numHash a) deferred last (l1.between consumed tip) =
      .ok () ⟨l1.between consumed tip, deferred, last⟩ := by
  rcases between_cases l1 consumed tip with hnil | hcons
  · rw [hnil, confirmLoop]
  · rw [hcons, confirmLoop]
    simp only [front_stops hac, ↓reduceIte]

/-- Deferring up to a block that is still queued. -/
theorem deferLoop_between (hca : consumed ≤ a) (hat : a ≤ tip) :
    deferLoop (l1.numHash a) last (l1.between consumed tip) deferred =
      .ok () ⟨l1.between a tip, (l1.between consumed a).foldl deferBlock deferred, last⟩ := by
  induction hn : a - consumed generalizing consumed deferred with
  | zero =>
    obtain rfl : consumed = a := by omega
    rw [l1.between_self, foldl_nil]
    exact deferLoop_old le_rfl
  | succ n ih =>
    obtain ⟨hstop, hmatch⟩ := front_passes l1 (show consumed < a by omega)
    rw [l1.between_cons (by omega : consumed < tip), l1.between_cons (by omega : consumed < a),
      deferLoop, foldl_cons]
    simp only [hstop, ↓reduceIte, hmatch]
    exact ih (by omega) (by omega)

theorem confirmLoop_between (hca : consumed ≤ a) (hat : a ≤ tip) :
    confirmLoop (l1.numHash a) deferred last (l1.between consumed tip) =
      .ok () ⟨l1.between a tip, deferred, last⟩ := by
  induction hn : a - consumed generalizing consumed with
  | zero =>
    obtain rfl : consumed = a := by omega
    exact confirmLoop_old le_rfl
  | succ n ih =>
    obtain ⟨hstop, hmatch⟩ := front_passes l1 (show consumed < a by omega)
    rw [l1.between_cons (by omega), confirmLoop]
    simp only [hstop, ↓reduceIte, hmatch]
    exact ih (by omega) (by omega)

/-- The hash check after the loop passes: the deferred work ends at a
finalized block. -/
theorem yields_deferThrough {q' : PendingDeposits H}
    (hloop : deferLoop (l1.numHash a) q.lastEnqueued q.pending
      q.deferred = .ok () q') (hdeferred : EndsFinalized l1 q'.deferred) :
    Yields (deferThrough (l1.numHash a)) q () q' := by
  refine yields_bind.mpr ⟨(), q', hloop, ?_⟩
  rw [yields_reads_bind]
  cases hwork : q'.deferred with
  | none => exact yields_pure.mpr ⟨rfl, rfl⟩
  | some work =>
    refine yields_require.mpr ⟨fun hnumber => ?_, rfl⟩
    obtain ⟨n, hn⟩ := hdeferred work hwork
    rw [hn] at hnumber ⊢
    have hna : n = a := (l1.number_block n).symm.trans (hnumber.trans (l1.number_numHash a))
    rw [hna]
    rfl

section

variable (h : InStep l1 operational consumed tip q)
include h

/-- A checkpoint-only block up to `a`. -/
theorem deferThrough (hca : consumed ≤ a) (hat : a ≤ tip) :
    ∃ q', Yields (deferThrough (l1.numHash a)) q () q' ∧
      q'.lastEnqueued = q.lastEnqueued ∧ InStep l1 operational a tip q' := by
  have hloop : deferLoop (l1.numHash a) q.lastEnqueued q.pending q.deferred =
        .ok () ⟨l1.between a tip, l1.deferredWork operational a, q.lastEnqueued⟩ := by
    rw [h.pending, h.deferred, deferLoop_between hca hat, l1.foldl_deferBlock h.le hca]
  refine ⟨_, yields_deferThrough hloop (endsFinalized_deferredWork l1),
    rfl, h.le.trans hca, hat, rfl, rfl, ?_⟩
  rcases h.last with hlast | ⟨hnone, hop, htip⟩
  · exact .inl hlast
  · exact .inr ⟨hnone, by omega, by omega⟩

/-- A checkpoint-only block delivered again. -/
theorem deferThrough_old (hac : a ≤ consumed) :
    Yields (PendingDeposits.deferThrough (l1.numHash a)) q () q := by
  refine yields_deferThrough ?_ (h.deferred ▸ endsFinalized_deferredWork l1)
  rw [h.pending]
  refine (deferLoop_old hac).trans ?_
  rw [← h.pending]

/-- A full block that imports `a`. -/
theorem confirmOperationalThrough (hca : consumed < a) (hat : a ≤ tip) :
    ∃ q', Yields (confirmOperationalThrough (l1.numHash a)) q
        () q' ∧ q'.lastEnqueued = q.lastEnqueued ∧ InStep l1 a a tip q' := by
  have hloop : confirmLoop (l1.numHash a) q.deferred q.lastEnqueued q.pending =
        .ok () ⟨l1.between a tip, q.deferred, q.lastEnqueued⟩ := by
    rw [h.pending]
    exact confirmLoop_between hca.le hat
  refine ⟨⟨l1.between a tip, none, q.lastEnqueued⟩, ?_, rfl, Nat.le_refl a,
    hat, by simp [deferredWork], rfl, ?_⟩
  · refine yields_bind.mpr ⟨(), _, hloop, yields_updates.mpr ?_⟩
    have hreleased : q.deferred.filter (fun work =>
        decide ((l1.numHash a).number < work.lastHeader.number)) = none := by
      rw [h.deferred, deferredWork]
      split_ifs with heq
      · rfl
      · have hold : (l1.block consumed).header.number ≤ a := by
          rw [l1.number_block]
          omega
        simp [hold]
    simp only [hreleased]
  · rcases h.last with hlast | ⟨-, -, htip⟩
    · exact .inl hlast
    · omega

/-- A full block delivered again releases nothing newer than itself. -/
theorem confirmOperationalThrough_old (hao : a ≤ operational) :
    Yields (PendingDeposits.confirmOperationalThrough (l1.numHash a)) q ()
      q := by
  have hloop : PendingDeposits.confirmLoop (l1.numHash a) q.deferred
      q.lastEnqueued q.pending = .ok () q := by
    rw [h.pending]
    refine (confirmLoop_old (hao.trans h.le)).trans ?_
    rw [← h.pending]
  refine yields_bind.mpr ⟨(), q, hloop, yields_updates.mpr ?_⟩
  have hkept : q.deferred.filter (fun work =>
      decide ((l1.numHash a).number < work.lastHeader.number)) =
        q.deferred := by
    rw [h.deferred, deferredWork]
    split_ifs with heq
    · rfl
    · have hnew : a < (l1.block consumed).header.number := by
        rw [l1.number_block]
        have := h.le
        omega
      simp [hnew]
  rw [hkept]

/-- The leader's own full block imports the front of the queue. -/
theorem confirmOperational (hlt : consumed < tip) :
    ∃ q', Yields (PendingDeposits.confirmOperational (l1.numHash (consumed + 1))) q () q' ∧
      q'.lastEnqueued = q.lastEnqueued ∧ InStep l1 (consumed + 1) (consumed + 1) tip q' := by
  have hpending : q.pending = l1.block (consumed + 1) :: l1.between (consumed + 1) tip := by
    rw [h.pending, l1.between_cons hlt]
  refine ⟨⟨l1.between (consumed + 1) tip, none, q.lastEnqueued⟩, ?_, rfl,
    le_rfl, hlt, by simp [deferredWork], rfl, ?_⟩
  · simp only [PendingDeposits.confirmOperational, PendingDeposits.confirm, bind_assoc,
    yields_steps]
    refine ⟨l1.block (consumed + 1), by rw [hpending]; rfl, rfl, ?_⟩
    rw [hpending]
    rfl
  · rcases h.last with hlast | ⟨-, -, htip⟩
    · exact .inl hlast
    · omega

end

/-! Enqueueing blocks. -/

/-- A block that is offered is appended after the last one or changes
nothing. -/
theorem tryEnqueue_cases (block : L1BlockDeposits H) (q : PendingDeposits H) :
    finalState (tryEnqueue block) q = q ∨ finalState (tryEnqueue block) q =
          { q with
            lastEnqueued := some block.header.numHash
            pending := q.pending ++ [block] } ∧
        ∀ last, q.lastEnqueued = some last → block.header.number = last.number + 1 := by
  unfold tryEnqueue
  rw [finalState_reads_bind]
  cases hlast : q.lastEnqueued with
  | none =>
    right
    exact ⟨rfl, by simp⟩
  | some last =>
    rw [finalState_require_bind]
    by_cases hold : ¬block.header.number < last.number
    · by_cases hsame : block.header.number = last.number
      · left
        rw [if_pos hsame, finalState_require_bind]
        split_ifs
        · rfl
        · rfl
      · rw [if_neg hsame]
        simp only [finalState_require_bind]
        split_ifs with hroom hnext hparent
        · refine .inr ⟨rfl, ?_⟩
          rintro last' ⟨⟩
          exact hnext
        · exact .inl rfl
        · exact .inl rfl
        · exact .inl rfl
    · left
      rw [if_neg hold]

omit [DecidableEq H] in
theorem append (h : InStep l1 operational consumed tip q) : InStep l1 operational consumed (tip + 1)
      { q with
        lastEnqueued := some (l1.numHash (tip + 1))
        pending := q.pending ++ [l1.block (tip + 1)] } where
  le := h.le
  le_tip := Nat.le_succ_of_le h.le_tip
  deferred := h.deferred
  pending := by rw [h.pending, l1.between_concat h.le_tip]
  last := .inl rfl

/-- The same for the subscriber's entry point. -/
theorem tryEnqueueSealed_cases (block : L1BlockDeposits H) (q : PendingDeposits H) :
    finalState (tryEnqueueSealed block) q = q ∨ finalState (tryEnqueueSealed block) q =
          { q with
            lastEnqueued := some block.header.numHash
            pending := q.pending ++ [block] } ∧
        ∀ last, q.lastEnqueued = some last → block.header.number = last.number + 1 := by
  unfold tryEnqueueSealed
  rw [finalState_reads_bind]
  cases q.pending.find? (fun queued => queued.header.number = block.header.number) with
  | some queued =>
    left
    rw [finalState_require_bind]
    split_ifs
    · rfl
    · rfl
  | none => exact tryEnqueue_cases block q

/-- A finalized block offered to the queue is appended when it is the next
one and changes nothing otherwise. -/
theorem tryEnqueueSealed (h : InStep l1 operational consumed tip q) {n : Nat}
    (hfirst : q.lastEnqueued = none → n = consumed + 1) :
    finalState (tryEnqueueSealed (l1.block n)) q = q ∨
      n = tip + 1 ∧ InStep l1 operational consumed n
        (finalState (tryEnqueueSealed (l1.block n)) q) := by
  rcases tryEnqueueSealed_cases (l1.block n) q with
    hsame | ⟨happended, hnumber⟩
  · exact .inl hsame
  · right
    have hn : n = tip + 1 := by
      rcases h.last with hlast | ⟨hnone, -, htip⟩
      · have := hnumber _ hlast
        rwa [l1.number_block, l1.number_numHash] at this
      · rw [hfirst hnone, htip]
    refine ⟨hn, ?_⟩
    rw [happended, hn]
    exact h.append

omit [DecidableEq H] in
theorem restoreDeferred (hlt : operational < consumed) {work : DeferredPortalWork H}
    (hwork : l1.deferredWork operational consumed = some work) :
    ∃ q', Yields (PendingDeposits.restoreDeferred work) .empty () q' ∧
      InStep l1 operational consumed consumed q' := by
  refine ⟨⟨[], some work, some work.lastHeader.numHash⟩, ?_, hlt.le,
    le_rfl, hwork.symm, by simp, .inl ?_⟩
  · simp only [PendingDeposits.restoreDeferred, yields_steps]
    exact ⟨⟨rfl, rfl, rfl⟩, rfl⟩
  · rw [deferredWork, if_neg hlt.ne] at hwork
    obtain rfl := Option.some.inj hwork
    rfl

/-- The work rebuilt on restart is the work the queue had lost. -/
theorem recoverDeferredWork (l1 : FinalizedL1 H) (hlt : operational < consumed) :
    ∃ q', Yields (ZoneNode.recoverDeferredWork l1 (some (operational + 1))
        (l1.numHash consumed)) .empty () q' ∧ InStep l1 operational consumed consumed q' := by
  obtain ⟨work, hwork⟩ : ∃ work, l1.deferredWork operational consumed = some work :=
    ⟨_, if_neg hlt.ne⟩
  obtain ⟨q', hrestore, hstep⟩ := restoreDeferred hlt hwork
  refine ⟨q', ?_, hstep⟩
  have hlast : work.lastHeader.numHash = l1.numHash consumed := by
    rw [deferredWork, if_neg hlt.ne] at hwork
    obtain rfl := Option.some.inj hwork
    rfl
  have hstart : ¬consumed < operational + 1 := by omega
  unfold ZoneNode.recoverDeferredWork
  simp only [yields_steps, PendingDeposits.empty, Option.isSome_none, Bool.false_eq_true,
    ↓reduceIte, l1.number_numHash, hstart, l1.foldl_fetchL1Blocks hlt.le, hwork]
  exact ⟨work, rfl, hlast, hrestore⟩

end InStep

end Tempo.ZoneNode
