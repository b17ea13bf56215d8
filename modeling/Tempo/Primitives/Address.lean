/-
Account addresses as 160-bit words, and the address formats the protocol gives
a meaning to: TIP-20 tokens, virtual (forwarding) addresses, and the fixed
system precompiles.
-/
import Mathlib.Data.Fintype.EquivFin

namespace Tempo

structure Address where
  word : BitVec 160
  deriving DecidableEq, Repr

abbrev B256 := BitVec 256

instance : Zero Address := ⟨⟨0#160⟩⟩

instance : Inhabited Address := ⟨0⟩

instance : Finite Address :=
  Finite.of_injective (fun a => a.word.toFin) (by
    rintro ⟨a⟩ ⟨b⟩ h
    exact congrArg Address.mk (BitVec.eq_of_toFin_eq h))

/-- Accounts form a finite type, so balances can be summed over all of them;
nothing ever enumerates them. -/
noncomputable instance addressFintype : Fintype Address :=
  Fintype.ofFinite Address

namespace Address

/-- The 12-byte prefix shared by all TIP-20 token addresses. -/
def tip20Prefix : BitVec 96 := 0x20C000000000000000000000#96

/-- The 10-byte magic value in bytes `[4:14]` of every virtual address. -/
def virtualMagic : BitVec 80 := 0xFDFDFDFDFDFDFDFDFDFD#80

/-- Only the prefix is checked, not that the token was created. -/
def isTip20 (a : Address) : Bool :=
  a.word.extractLsb' 64 96 == tip20Prefix

def isVirtual (a : Address) : Bool :=
  a.word.extractLsb' 48 80 == virtualMagic

def isZero (a : Address) : Bool :=
  a == 0

/-- The `(masterId, userTag)` components of a virtual address. -/
def decodeVirtual (a : Address) : Option (BitVec 32 × BitVec 48) :=
  if a.isVirtual then
    some (a.word.extractLsb' 128 32, a.word.extractLsb' 0 48)
  else none

/-- The TIP-20 address with the given 8-byte suffix. -/
def newTip20 (id : BitVec 64) : Address :=
  ⟨tip20Prefix ++ id⟩

theorem newTip20_isTip20 (id : BitVec 64) : (newTip20 id).isTip20 = true := by
  have h : (newTip20 id).word.extractLsb' 64 96 = tip20Prefix := BitVec.extractLsb'_append_eq_left
  simp [isTip20, h]

theorem newTip20_id (id : BitVec 64) :
    (newTip20 id).word.extractLsb' 0 64 = id := BitVec.extractLsb'_append_eq_right

theorem zero_isTip20 : isTip20 0 = false := by
  decide

theorem ne_of_isTip20 {a b : Address} (ha : a.isTip20 = true) (hb : b.isTip20 = false) : a ≠ b := by
  rintro rfl
  rw [hb] at ha
  cases ha

end Address

def pathUsdAddress : Address :=
  ⟨0x20C0000000000000000000000000000000000000#160⟩

def tipFeeManagerAddress : Address :=
  ⟨0xfeec000000000000000000000000000000000000#160⟩

def tip403RegistryAddress : Address :=
  ⟨0x403C000000000000000000000000000000000000#160⟩

def tip20FactoryAddress : Address :=
  ⟨0x20FC000000000000000000000000000000000000#160⟩

def stablecoinDexAddress : Address :=
  ⟨0xdec0000000000000000000000000000000000000#160⟩

def tip20ChannelReserveAddress : Address :=
  ⟨0x4D50500000000000000000000000000000000000#160⟩

def receivePolicyGuardAddress : Address :=
  ⟨0xB10C000000000000000000000000000000000000#160⟩

theorem id_eq_zero_of_pathUsd {id : BitVec 64}
    (h : Address.newTip20 id = pathUsdAddress) : id = 0 := by
  rw [← Address.newTip20_id id, h]
  decide

theorem pathUsdAddress_ne_zero : pathUsdAddress ≠ 0 := by
  decide

end Tempo
