/-
Primitive values in storage words: how an element is packed with others at a
byte offset of a word, or given a word of its own, and where the elements of a
vector are.  Both layouts are shown to be lanes of the data words, so that
nothing above has to tell them apart.
-/
import Tempo.Library.Lanes
import Tempo.Library.Arith
import Tempo.Primitives.Error
import Mathlib.Tactic.IntervalCases

namespace Tempo

open BitVec

/-- A value of at most 32 bytes with a right-aligned word encoding. -/
class Primitive (α : Type) where
  bytes : Nat
  toWord : α → B256
  fromWord : B256 → Except TempoPrecompileError α
  bytes_pos : 0 < bytes
  bytes_le : bytes ≤ 32
  toWord_lt : ∀ a, (toWord a).toNat < 2 ^ (8 * bytes)
  fromWord_toWord : ∀ a, fromWord (toWord a) = .ok a

/-- Unsigned words and fixed byte strings of `n` bytes. -/
@[reducible]
def Primitive.fixedBytes (n : Nat) (hpos : 0 < n) (hle : n ≤ 32) : Primitive (BitVec (8 * n)) where
  bytes := n
  toWord a := a.setWidth 256
  fromWord word := .ok (word.setWidth (8 * n))
  bytes_pos := hpos
  bytes_le := hle
  toWord_lt a := by
    rw [toNat_setWidth]
    exact lt_of_le_of_lt (Nat.mod_le _ _) a.isLt
  fromWord_toWord a := by
    rw [setWidth_setWidth_of_le a (by omega), setWidth_eq]

/-- Function selectors. -/
abbrev Selector := BitVec 32

instance : Primitive Selector := .fixedBytes 4 (by decide) (by decide)

instance : Primitive Address where
  bytes := 20
  toWord a := a.word.setWidth 256
  fromWord word := .ok ⟨word.setWidth 160⟩
  bytes_pos := by decide
  bytes_le := by decide
  toWord_lt a := by
    rw [toNat_setWidth]
    exact lt_of_le_of_lt (Nat.mod_le _ _) a.word.isLt
  fromWord_toWord a := by
    rw [setWidth_setWidth_of_le a.word (by decide), setWidth_eq]

/-- Whether a value has a word to itself or a place in one. -/
inductive LayoutCtx where
  | full
  | packed (offset : Nat)
  deriving DecidableEq

namespace Packing

def spanError (offset bytes : Nat) : TempoPrecompileError :=
  .fatal s!"Value of {bytes} bytes at offset {offset} would span slot boundary (max offset: {32 - bytes})"

def createElementMask (byteCount : Nat) : B256 :=
  if 32 ≤ byteCount then allOnes 256
  else 1#256 <<< (byteCount * 8) - 1#256

def extractFromWord {α : Type} [Primitive α] (slotValue : B256)
    (offset bytes : Nat) : Except TempoPrecompileError α :=
  if 32 < offset + bytes then .error (spanError offset bytes)
  else Primitive.fromWord (slotValue >>> (offset * 8) &&& createElementMask bytes)

def insertIntoWord {α : Type} [Primitive α] (current : B256) (value : α)
    (offset bytes : Nat) : Except TempoPrecompileError B256 :=
  if 32 < offset + bytes then .error (spanError offset bytes)
  else
    let mask := createElementMask bytes
    let cleared := current &&& ~~~(mask <<< (offset * 8))
    let positioned := (Primitive.toWord value &&& mask) <<< (offset * 8)
    .ok (cleared ||| positioned)

def deleteFromWord (current : B256) (offset bytes : Nat) : Except TempoPrecompileError B256 :=
  if 32 < offset + bytes then .error (spanError offset bytes)
  else .ok (current &&& ~~~(createElementMask bytes <<< (offset * 8)))

def calcElementSlot (idx elemBytes : Nat) : Nat :=
  idx / (32 / elemBytes)

def calcElementOffset (idx elemBytes : Nat) : Nat :=
  idx % (32 / elemBytes) * elemBytes

def calcPackedSlotCount (n elemBytes : Nat) : Nat :=
  (n + 32 / elemBytes - 1) / (32 / elemBytes)

end Packing

namespace Primitive

variable {α : Type} [Primitive α]

def load (word : B256) : LayoutCtx → Except TempoPrecompileError α
  | .full => fromWord word
  | .packed offset => Packing.extractFromWord word offset (bytes α)

def store (word : B256) (value : α) : LayoutCtx → Except TempoPrecompileError B256
  | .full => .ok (toWord value)
  | .packed offset => Packing.insertIntoWord word value offset (bytes α)

variable (α) in
def delete (word : B256) : LayoutCtx → Except TempoPrecompileError B256
  | .full => .ok 0
  | .packed offset => Packing.deleteFromWord word offset (bytes α)

end Primitive

/-! The elements of a vector; `data` are the words from its data slot on. -/

namespace VecHandler

open Primitive Packing Function

variable (α : Type) [Primitive α]

def maxIndex : Nat :=
  if bytes α ≤ 16 then maxWord 32 / bytes α else maxWord 32

def computeHandler (index : Nat) : Nat × LayoutCtx :=
  if bytes α ≤ 16 then
    (calcElementSlot index (bytes α), .packed (calcElementOffset index (bytes α)))
  else (index, .full)

variable {α}

def loadElement (data : Nat → B256) (index : Nat) : Except TempoPrecompileError α :=
  let handler := computeHandler α index
  load (data handler.1) handler.2

def storeElement (data : Nat → B256) (index : Nat) (value : α) :
    Except TempoPrecompileError (Nat → B256) :=
  let handler := computeHandler α index
  (store (data handler.1) value handler.2).map (update data handler.1)

variable (α)

def deleteElement (data : Nat → B256) (index : Nat) : Except TempoPrecompileError (Nat → B256) :=
  let handler := computeHandler α index
  (Primitive.delete α (data handler.1) handler.2).map (update data handler.1)

/-- How many words `length` elements take. -/
def slotCount (length : Nat) : Nat :=
  if bytes α ≤ 16 then calcPackedSlotCount length (bytes α) else length

/-! Both layouts as lanes. -/

def laneBits : Nat :=
  if bytes α ≤ 16 then bytes α * 8 else 256

def perSlot : Nat :=
  if bytes α ≤ 16 then 32 / bytes α else 1

theorem perSlot_pos : 0 < perSlot α := by
  have hpos : 0 < bytes α := bytes_pos
  unfold perSlot
  split
  · exact Nat.div_pos (by omega) hpos
  · exact Nat.one_pos

theorem lanes_fit : perSlot α * laneBits α ≤ 256 := by
  unfold perSlot laneBits
  split
  · have := Nat.div_mul_le_self 32 (bytes α)
    rw [← mul_assoc]
    omega
  · decide

variable {α}

theorem createElementMask_eq {n : Nat} (hn : n ≤ 32) :
    createElementMask n = laneMask 256 (n * 8) := by
  interval_cases n <;> rfl

theorem offset_fits (hsmall : bytes α ≤ 16) (index : Nat) :
    index % (32 / bytes α) * bytes α + bytes α ≤ 32 := by
  have hpos : 0 < bytes α := bytes_pos
  have hk : 0 < 32 / bytes α := Nat.div_pos (by omega) hpos
  exact lane_fits hk (Nat.div_mul_le_self 32 (bytes α)) index

theorem loadElement_eq (data : Nat → B256) (index : Nat) : (loadElement data index : Except _ α) =
      fromWord (getLane (laneBits α) (perSlot α) data index) := by
  by_cases hsmall : bytes α ≤ 16
  · have hfit := offset_fits hsmall index
    simp only [loadElement, computeHandler, if_pos hsmall, load,
      extractFromWord, calcElementSlot, calcElementOffset,
      if_neg (Nat.not_lt.mpr hfit), getLane, extractLane, laneBits, perSlot,
      createElementMask_eq bytes_le, ← mul_assoc]
  · simp [loadElement, computeHandler, if_neg hsmall, load, laneBits, perSlot, getLane_whole]

theorem storeElement_eq (data : Nat → B256) (index : Nat) (value : α) :
    storeElement data index value =
      .ok (setLane (laneBits α) (perSlot α) data index (toWord value)) := by
  by_cases hsmall : bytes α ≤ 16
  · have hfit := offset_fits hsmall index
    simp only [storeElement, computeHandler, if_pos hsmall, store,
      insertIntoWord, calcElementSlot, calcElementOffset,
      if_neg (Nat.not_lt.mpr hfit), setLane, insertLane, clearLane, laneBits,
      perSlot, createElementMask_eq bytes_le, ← mul_assoc, Except.map]
  · simp [storeElement, computeHandler, if_neg hsmall, store, laneBits, perSlot, setLane_whole,
      Except.map]

variable (α) in
theorem deleteElement_eq (data : Nat → B256) (index : Nat) :
    deleteElement α data index = .ok (setLane (laneBits α) (perSlot α) data index 0) := by
  by_cases hsmall : bytes α ≤ 16
  · have hfit := offset_fits hsmall index
    simp only [deleteElement, computeHandler, if_pos hsmall, Primitive.delete,
      deleteFromWord, calcElementSlot, calcElementOffset,
      if_neg (Nat.not_lt.mpr hfit), setLane, laneBits, perSlot,
      createElementMask_eq bytes_le, ← mul_assoc, Except.map]
    exact congrArg (fun word => Except.ok (update data _ word)) clearLane_eq_insertLane
  · simp [deleteElement, computeHandler, if_neg hsmall, Primitive.delete, laneBits, perSlot,
      setLane_whole, Except.map]

/-- An encoded value fits its lane. -/
theorem toWord_bits (value : α) {i : Nat} (hi : laneBits α ≤ i) :
    (toWord value).getLsbD i = false := by
  have hlt := toWord_lt value
  unfold laneBits at hi
  split at hi
  · refine Nat.testBit_lt_two_pow (lt_of_lt_of_le hlt ?_)
    exact Nat.pow_le_pow_right (by decide) (by omega)
  · exact getLsbD_of_ge _ _ hi

/-- The slots of `length` elements hold all their lanes. -/
theorem slot_lt_slotCount {length i : Nat} (hi : i < length) :
    i / perSlot α < slotCount α length := by
  have hk := perSlot_pos α
  unfold slotCount
  split
  · rename_i hsmall
    have hper : perSlot α = 32 / bytes α := if_pos hsmall
    rw [calcPackedSlotCount, ← hper, Nat.div_lt_iff_lt_mul hk]
    have hceil := Nat.div_add_mod (length + perSlot α - 1) (perSlot α)
    have hmod := Nat.mod_lt (length + perSlot α - 1) hk
    rw [mul_comm] at hceil
    omega
  · rename_i hlarge
    have hper : perSlot α = 1 := if_neg hlarge
    rw [hper, Nat.div_one]
    exact hi

end VecHandler

end Tempo
