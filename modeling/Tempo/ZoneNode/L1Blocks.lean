/-
Tempo blocks as a zone node sees them: a sealed header and the portal events
of its receipts.  Finalized Tempo is one chain of such blocks.
-/
import Tempo.Zones.Messages

namespace Tempo.ZoneNode

variable {H : Type}

/-- A block by number and hash. -/
@[ext]
structure NumHash (H : Type) where
  number : Nat
  hash : H
  deriving DecidableEq, Repr

/-- A Tempo header: the fields the node reads, and the encoding of the
others. -/
structure TempoHeader (H : Type) where
  number : Nat
  parentHash : H
  timestampMillis : Nat
  rest : Bytes
  deriving DecidableEq, Repr

@[ext]
structure SealedHeader (H : Type) where
  header : TempoHeader H
  hash : H
  deriving DecidableEq, Repr

namespace SealedHeader

def number (h : SealedHeader H) : Nat :=
  h.header.number

def parentHash (h : SealedHeader H) : H :=
  h.header.parentHash

def numHash (h : SealedHeader H) : NumHash H :=
  ⟨h.number, h.hash⟩

end SealedHeader

/-- A decoded `LeaderUpdated` event of the portal. -/
structure LeaderTransition where
  previousLeader : Address
  newLeader : Address
  epoch : UInt64
  activationTempoBlock : Nat
  deriving DecidableEq, Repr

/-- User deposits and withdrawal bounce-backs, as queued on the portal. -/
abbrev L1Deposit := Zones.QueuedDeposit

/-- The portal events of one Tempo block that a zone node acts on. -/
structure L1PortalEvents where
  deposits : List L1Deposit
  enabledTokens : List Zones.EnabledToken
  leaderTransitions : List LeaderTransition
  deriving DecidableEq, Repr

namespace L1PortalEvents

def empty : L1PortalEvents :=
  ⟨[], [], []⟩

/-- Append only what a full import consumes; leadership is applied while the
block is ingested. -/
def extendOperational (events other : L1PortalEvents) : L1PortalEvents :=
  { events with
    deposits := events.deposits ++ other.deposits
    enabledTokens := events.enabledTokens ++ other.enabledTokens }

/-- The portal permits one transition a block; more are an error. -/
def finalLeaderTransition (events : L1PortalEvents) : Option (Option LeaderTransition) :=
  if events.leaderTransitions.length ≤ 1 then
    some events.leaderTransitions.head?
  else none

end L1PortalEvents

structure L1BlockDeposits (H : Type) where
  header : SealedHeader H
  events : L1PortalEvents
  deriving DecidableEq, Repr

/-- Finalized Tempo, by block number. -/
structure FinalizedL1 (H : Type) where
  block : Nat → L1BlockDeposits H
  number_block : ∀ n, (block n).header.number = n
  parentHash_block : ∀ n, (block (n + 1)).header.parentHash = (block n).header.hash

namespace FinalizedL1

variable (l1 : FinalizedL1 H)

def numHash (n : Nat) : NumHash H :=
  (l1.block n).header.numHash

@[simp]
theorem number_numHash (n : Nat) : (l1.numHash n).number = n := l1.number_block n

/-- The blocks after `a` up to and including `b`. -/
def between (a b : Nat) : List (L1BlockDeposits H) :=
  (List.range' (a + 1) (b - a)).map l1.block

@[simp]
theorem between_self (a : Nat) : l1.between a a = [] := by
  simp [between]

variable {a b : Nat}

theorem between_append {c : Nat} (hab : a ≤ b) (hbc : b ≤ c) :
    l1.between a b ++ l1.between b c = l1.between a c := by
  have hsplit : List.range' (a + 1) (b - a) ++ List.range' (b + 1) (c - b) =
      List.range' (a + 1) (c - a) := by
    have hcount : b - a + (c - b) = c - a := by omega
    have hstart : b + 1 = a + 1 + (b - a) := by omega
    rw [hstart, List.range'_append_1, hcount]
  rw [between, between, between, ← List.map_append, hsplit]

theorem between_succ (a : Nat) : l1.between a (a + 1) = [l1.block (a + 1)] := by
  simp [between]

theorem between_concat (h : a ≤ b) :
    l1.between a (b + 1) = l1.between a b ++ [l1.block (b + 1)] := by
  rw [← between_append l1 h (Nat.le_succ b), between_succ]

theorem between_cons (h : a < b) : l1.between a b = l1.block (a + 1) :: l1.between (a + 1) b := by
  rw [← between_append l1 (Nat.le_succ a) h, between_succ, List.singleton_append]

@[simp]
theorem length_between (a b : Nat) : (l1.between a b).length = b - a := by
  simp [between]

theorem take_between (a b count : Nat) :
    (l1.between a b).take count = l1.between a (min (a + count) b) := by
  rcases le_total (a + count) b with hle | hge
  · rw [min_eq_left hle, ← l1.between_append (Nat.le_add_right a count) hle]
    exact List.take_left' (by simp)
  · rw [min_eq_right hge]
    exact List.take_of_length_le (by rw [length_between]; omega)

theorem mem_between {x : L1BlockDeposits H} :
    x ∈ l1.between a b ↔ ∃ n, a < n ∧ n ≤ b ∧ l1.block n = x := by
  simp only [between, List.mem_map, List.mem_range'_1]
  constructor
  · rintro ⟨n, ⟨hlow, hhigh⟩, rfl⟩
    exact ⟨n, by omega, by omega, rfl⟩
  · rintro ⟨n, hlow, hhigh, rfl⟩
    exact ⟨n, ⟨by omega, by omega⟩, rfl⟩

end FinalizedL1

end Tempo.ZoneNode
