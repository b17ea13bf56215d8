/-
The persistent enumerable set: a vector of values and a mapping from each
value to its one-based position.  The slots of one set are addressed by what
they are the hash of, so the length word, the data words and the position
words are separate components of the state.
-/
import Tempo.Library.SwapRemove
import Tempo.Storage.Packing

namespace Tempo

/-- All slots of one set. -/
structure SetStorage (α : Type) where
  length : B256
  data : Nat → B256
  positions : α → B256

/-- Slots that were never written. -/
def SetStorage.blank {α : Type} : SetStorage α :=
  ⟨0, fun _ => 0, fun _ => 0⟩

/-- A set in memory, as it is handed to a bulk write. -/
structure ValueSet (α : Type) where
  values : List α
  nodup : values.Nodup

namespace SetHandler

open Primitive VecHandler Function

variable {α : Type} [Primitive α]

/-- A stored length beyond 32 bits is refused. -/
def len : Exec (SetStorage α) Nat := do
  let raw ← reads SetStorage.length
  require (raw.toNat ≤ maxWord 32) .underOverflow
  pure raw.toNat

def setLen (n : Nat) : Exec (SetStorage α) Unit :=
  updates fun s => { s with length := BitVec.ofNat 256 n }

def readValue (index : Nat) : Exec (SetStorage α) α := do
  let data ← reads SetStorage.data
  ofExcept (loadElement data index)

def writeValue (index : Nat) (value : α) : Exec (SetStorage α) Unit := do
  let data ← reads SetStorage.data
  let data ← ofExcept (storeElement data index value)
  updates fun s => { s with data }

def deleteValue (index : Nat) : Exec (SetStorage α) Unit := do
  let data ← reads SetStorage.data
  let data ← ofExcept (deleteElement α data index)
  updates fun s => { s with data }

def push (value : α) : Exec (SetStorage α) Unit := do
  let length ← len
  require (length < maxIndex α) (.fatal "Vec is at max capacity")
  writeValue length value
  setLen (length + 1)

/-- Positions are 32-bit words in slots of their own. -/
def readPosition (value : α) : Exec (SetStorage α) Nat := do
  let word ← reads fun s => s.positions value
  orFail (tryInto 32 word.toNat) .underOverflow

variable [DecidableEq α]

def writePosition (value : α) (position : Nat) : Exec (SetStorage α) Unit :=
  updates fun s => { s with
    positions := update s.positions value (BitVec.ofNat 256 position) }

def deletePosition (value : α) : Exec (SetStorage α) Unit :=
  updates fun s => { s with
    positions := update s.positions value 0 }

/-- The one-based position of an index, if it fits 32 bits. -/
def checkedPosition (index : Nat) : Exec (SetStorage α) Nat :=
  orFail ((tryInto 32 index).bind fun i => checkedAdd 32 i 1) .underOverflow

omit [DecidableEq α] in
def contains (value : α) : Exec (SetStorage α) Bool := do
  let position ← readPosition value
  pure (decide (position ≠ 0))

/-- The part of an insertion that runs when the value is absent. -/
def append (value : α) : Exec (SetStorage α) Bool := do
  let length ← len
  let position ← checkedPosition length
  writePosition value position
  push value
  pure true

def insert (value : α) : Exec (SetStorage α) Bool := do
  let present ← contains value
  if present then pure false else append value

/-- The last value takes the place at `index`, with its new position. -/
def moveLast (index lastIndex position : Nat) : Exec (SetStorage α) Unit := do
  let lastValue ← readValue lastIndex
  writePosition lastValue position
  writeValue index lastValue

/-- The part of a removal that runs when the value is present. -/
def swapAndPop (value : α) (position : Nat) : Exec (SetStorage α) Bool := do
  let length ← len
  let lastIndex ← orFail (checkedSub length 1) .underOverflow
  let index := position - 1
  if index ≠ lastIndex then moveLast index lastIndex position else pure ()
  deleteValue lastIndex
  setLen lastIndex
  deletePosition value
  pure true

def remove (value : α) : Exec (SetStorage α) Bool := do
  let position ← readPosition value
  if position = 0 then pure false else swapAndPop value position

omit [DecidableEq α] in
def read : Exec (SetStorage α) (List α) := do
  let length ← len
  (List.range length).mapM readValue

/-- Clears the position of the value at an index. -/
def clearPositionAt (index : Nat) : Exec (SetStorage α) Unit := do
  let value ← readValue index
  deletePosition value

/-- The new values with their positions, from `index` on. -/
def writeValues : Nat → List α → Exec (SetStorage α) Unit
  | _, [] => pure ()
  | index, value :: rest => do
    let position ← checkedPosition index
    writePosition value position
    writeValue index value
    writeValues (index + 1) rest

/-- Replaces the whole set by a list its caller vouches for. -/
def writeUnchecked (values : List α) : Exec (SetStorage α) Unit := do
  let oldLen ← len
  let newLen := values.length
  (List.range oldLen).forM clearPositionAt
  writeValues 0 values
  setLen newLen
  (List.range' newLen (oldLen - newLen)).forM deleteValue

/-- Replaces the whole set. -/
def write (set : ValueSet α) : Exec (SetStorage α) Unit :=
  writeUnchecked set.values

omit [DecidableEq α] in
def isEmpty : Exec (SetStorage α) Bool := do
  let length ← len
  pure (decide (length = 0))

omit [DecidableEq α] [Primitive α] in
def clearSlot (slot : Nat) : Exec (SetStorage α) Unit :=
  updates fun s => { s with data := update s.data slot 0 }

/-- Clears the length and every data slot the elements take. -/
def deleteVec : Exec (SetStorage α) Unit := do
  let length ← len
  setLen 0
  (List.range (slotCount α length)).forM clearSlot

def delete : Exec (SetStorage α) Unit := do
  let length ← len
  (List.range length).forM clearPositionAt
  deleteVec

end SetHandler

end Tempo
