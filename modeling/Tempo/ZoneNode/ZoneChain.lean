/-
The canonical zone chain as a zone node reads it: what every block imported
from Tempo, and the receipts in which a restarting node looks for the last import
that processed portal work.
-/
import Tempo.ZoneNode.L1Blocks

namespace Tempo.ZoneNode

variable {H : Type}

/-- The Tempo headers a zone block imports.  `full` calls `advanceTempo` with
the portal work, `checkpointOnly` calls `advanceTempoHeaders`. -/
inductive TempoImport (H : Type) where
  | full (header : SealedHeader H)
  | checkpointOnly (headers : List (SealedHeader H)) (nonempty : headers ≠ [])
  deriving DecidableEq, Repr

namespace TempoImport

def headers : TempoImport H → List (SealedHeader H)
  | full header => [header]
  | checkpointOnly headers _ => headers

theorem headers_ne_nil : ∀ i : TempoImport H, i.headers ≠ []
  | full header => List.cons_ne_nil header []
  | checkpointOnly _ nonempty => nonempty

/-- The last imported header, which becomes the zone's checkpoint. -/
def anchor (i : TempoImport H) : NumHash H :=
  (i.headers.getLast i.headers_ne_nil).numHash

/-- The Tempo block whose portal work the import processed. -/
def operationalNumber : TempoImport H → Option Nat
  | full header => some header.number
  | checkpointOnly _ _ => none

end TempoImport

/-- The zone events a restarting node decodes. -/
inductive ZoneEvent where
  | tempoAdvanced (tempoBlockNumber : Nat)
  | legacyTempoAdvanced (tempoBlockNumber : Nat)
  | other
  deriving DecidableEq, Repr

structure ZoneLog where
  address : Address
  event : ZoneEvent
  deriving DecidableEq, Repr

/-- The Tempo block named by an import event of the inbox. -/
def ZoneLog.advancedBlock (log : ZoneLog) : Option Nat :=
  if log.address = Zones.zoneInboxAddress then
    match log.event with
    | .tempoAdvanced number => some number
    | .legacyTempoAdvanced number => some number
    | .other => none
  else none

/-- The first import event among the receipts of a block. -/
def advancedBlock (receipts : List (List ZoneLog)) : Option Nat :=
  receipts.flatten.findSome? ZoneLog.advancedBlock

/-- A canonical zone block.  The inbox emits an import event for a full import
and none for a checkpoint; the receipts of a full import are kept. -/
structure ZoneBlock (H : Type) where
  tempoImport : TempoImport H
  receipts : Option (List (List ZoneLog))
  recorded : receipts.bind advancedBlock = tempoImport.operationalNumber

/-- The chain, newest block first, over a genesis anchored to Tempo. -/
structure ZoneChain (H : Type) where
  genesis : NumHash H
  blocks : List (ZoneBlock H)

namespace ZoneChain

/-- The Tempo checkpoint in the latest state. -/
def tempoNumHash (chain : ZoneChain H) : NumHash H :=
  match chain.blocks with
  | [] => chain.genesis
  | block :: _ => block.tempoImport.anchor

def push (chain : ZoneChain H) (block : ZoneBlock H) : ZoneChain H :=
  { chain with blocks := block :: chain.blocks }

/-- The chain without its newest blocks. -/
def unwind (chain : ZoneChain H) (count : Nat) : ZoneChain H :=
  { chain with blocks := chain.blocks.drop count }

/-- Scan the receipts from the best block down to the first one; blocks
without receipts are skipped. -/
def latestOperationalTempoBlock (chain : ZoneChain H) : Nat :=
  (chain.blocks.findSome? fun block =>
    block.receipts.bind advancedBlock).getD chain.genesis.number

/-- The anchor of the last full import, or of the genesis. -/
def lastFullImport (chain : ZoneChain H) : Nat :=
  (chain.blocks.findSome? fun block =>
    block.tempoImport.operationalNumber).getD chain.genesis.number

theorem latestOperationalTempoBlock_eq (chain : ZoneChain H) :
    chain.latestOperationalTempoBlock = chain.lastFullImport := by
  have hrecorded : (fun block : ZoneBlock H =>
      block.receipts.bind advancedBlock) = fun block => block.tempoImport.operationalNumber :=
    funext ZoneBlock.recorded
  rw [latestOperationalTempoBlock, lastFullImport, hrecorded]

end ZoneChain

/-- The blocks import finalized Tempo after `genesis` without a gap: up to
`consumed` by header, up to `operational` with all portal work. -/
inductive Anchored (l1 : FinalizedL1 H) (genesis : Nat) :
    List (ZoneBlock H) → Nat → Nat → Prop where
  | genesis : Anchored l1 genesis [] genesis genesis
  | full {blocks : List (ZoneBlock H)} {operational consumed : Nat}
      {block : ZoneBlock H} (rest : Anchored l1 genesis blocks operational consumed)
      (himport : block.tempoImport = .full (l1.block (consumed + 1)).header) :
      Anchored l1 genesis (block :: blocks) (consumed + 1) (consumed + 1)
  | checkpointOnly {blocks : List (ZoneBlock H)} {operational consumed : Nat}
      {block : ZoneBlock H} {anchor : Nat} (rest : Anchored l1 genesis blocks operational consumed)
      (hlt : consumed < anchor) (hkind : block.tempoImport.operationalNumber = none)
      (hheaders : block.tempoImport.headers = (l1.between consumed anchor).map (·.header)) :
      Anchored l1 genesis (block :: blocks) operational anchor

namespace FinalizedL1

theorem getLast?_between (l1 : FinalizedL1 H) {a b : Nat} (h : a < b) :
    (l1.between a b).getLast? = some (l1.block b) := by
  obtain ⟨c, rfl⟩ : ∃ c, b = c + 1 := ⟨b - 1, by omega⟩
  rw [l1.between_concat (Nat.le_of_lt_succ h), List.getLast?_concat]

/-- The anchor of an import of finalized headers, of which there is one. -/
theorem anchor_eq (l1 : FinalizedL1 H) {i : TempoImport H} {a b : Nat}
    (hheaders : i.headers = (l1.between a b).map (·.header)) : a < b ∧ i.anchor = l1.numHash b := by
  have h : a < b := by
    have hlength := List.length_pos_iff.mpr i.headers_ne_nil
    rw [hheaders, List.length_map, l1.length_between] at hlength
    omega
  have hlast : i.headers.getLast? = some (l1.block b).header := by
    rw [hheaders, List.getLast?_map, l1.getLast?_between h]
    rfl
  rw [List.getLast?_eq_some_getLast i.headers_ne_nil] at hlast
  rw [TempoImport.anchor, Option.some.inj hlast]
  exact ⟨h, rfl⟩

end FinalizedL1

namespace Anchored

variable {l1 : FinalizedL1 H} {genesis operational consumed : Nat} {blocks : List (ZoneBlock H)}

theorem le (h : Anchored l1 genesis blocks operational consumed) : operational ≤ consumed := by
  induction h with
  | genesis => exact le_rfl
  | full rest himport ih => exact le_rfl
  | checkpointOnly rest hlt hkind hheaders ih => exact ih.trans hlt.le

variable {chain : ZoneChain H}

theorem tempoNumHash (h : Anchored l1 genesis chain.blocks operational consumed)
    (hgenesis : chain.genesis = l1.numHash genesis) : chain.tempoNumHash = l1.numHash consumed := by
  obtain ⟨start, blocks⟩ := chain
  cases h with
  | genesis => exact hgenesis
  | full rest himport => exact congrArg TempoImport.anchor himport
  | checkpointOnly rest hlt hkind hheaders =>
    exact (l1.anchor_eq hheaders).2

theorem getD_operationalNumber (h : Anchored l1 genesis blocks operational consumed) :
    (blocks.findSome? fun block =>
      block.tempoImport.operationalNumber).getD genesis = operational := by
  induction h with
  | genesis => rfl
  | full rest himport ih =>
    rw [List.findSome?_cons, himport]
    exact l1.number_block _
  | checkpointOnly rest hlt hkind hheaders ih =>
    rwa [List.findSome?_cons, hkind]

theorem lastFullImport (h : Anchored l1 genesis chain.blocks operational consumed)
    (hgenesis : chain.genesis = l1.numHash genesis) : chain.lastFullImport = operational := by
  rw [ZoneChain.lastFullImport, hgenesis, l1.number_numHash]
  exact h.getD_operationalNumber

/-- Every block's anchor is finalized and not above the checkpoint, nor above
the operational boundary when it is a full import. -/
theorem of_mem (h : Anchored l1 genesis blocks operational consumed)
    {block : ZoneBlock H} (hmem : block ∈ blocks) :
    ∃ a ≤ consumed, block.tempoImport.anchor = l1.numHash a ∧
      (block.tempoImport.operationalNumber ≠ none → a ≤ operational) := by
  induction h with
  | genesis => exact absurd hmem List.not_mem_nil
  | full rest himport ih =>
    rcases List.mem_cons.mp hmem with rfl | hold
    · exact ⟨_, le_rfl, by rw [himport]; rfl, fun _ => le_rfl⟩
    · obtain ⟨a, hle, hanchor, -⟩ := ih hold
      have hnext := Nat.le_succ_of_le hle
      exact ⟨a, hnext, hanchor, fun _ => hnext⟩
  | checkpointOnly rest hlt hkind hheaders ih =>
    rcases List.mem_cons.mp hmem with rfl | hold
    · exact ⟨_, le_rfl, (l1.anchor_eq hheaders).2, fun hfull => absurd hkind hfull⟩
    · obtain ⟨a, hle, hanchor, hoperational⟩ := ih hold
      exact ⟨a, hle.trans hlt.le, hanchor, hoperational⟩

/-- What survives a crash is again such a chain. -/
theorem unwind (h : Anchored l1 genesis blocks operational consumed) (count : Nat) :
    ∃ operational' consumed', Anchored l1 genesis (blocks.drop count) operational' consumed' := by
  induction h generalizing count with
  | genesis => exact ⟨_, _, by rw [List.drop_nil]; exact .genesis⟩
  | full rest himport ih =>
    cases count with
    | zero => exact ⟨_, _, .full rest himport⟩
    | succ count => exact ih count
  | checkpointOnly rest hlt hkind hheaders ih =>
    cases count with
    | zero => exact ⟨_, _, .checkpointOnly rest hlt hkind hheaders⟩
    | succ count => exact ih count

end Anchored

end Tempo.ZoneNode
