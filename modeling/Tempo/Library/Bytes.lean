/-
Byte strings, and numbers as big-endian byte strings: of a fixed length, and
without leading zeros.
-/
import Mathlib

namespace Tempo

abbrev Bytes := List UInt8

/-- The number a byte string stands for, most significant byte first. -/
def ofBeBytes (bytes : Bytes) : Nat :=
  bytes.foldl (fun n b => n * 256 + b.toNat) 0

/-- The last `size` bytes of a number. -/
def beBytes : Nat → Nat → Bytes
  | 0, _ => []
  | size + 1, n => beBytes size (n / 256) ++ [UInt8.ofNat (n % 256)]

@[simp] theorem ofBeBytes_nil : ofBeBytes [] = 0 := rfl

theorem ofBeBytes_concat (bytes : Bytes) (b : UInt8) :
    ofBeBytes (bytes ++ [b]) = ofBeBytes bytes * 256 + b.toNat := by
  rw [ofBeBytes, List.foldl_append]
  rfl

@[simp] theorem beBytes_length (size n : Nat) : (beBytes size n).length = size := by
  induction size generalizing n with
  | zero => rfl
  | succ size ih => rw [beBytes, List.length_append, ih, List.length_singleton]

variable {n : Nat}

theorem ofBeBytes_beBytes {size : Nat} (h : n < 256 ^ size) : ofBeBytes (beBytes size n) = n := by
  induction size generalizing n with
  | zero =>
    rw [beBytes, ofBeBytes_nil]
    omega
  | succ size ih =>
    have hbyte : (UInt8.ofNat (n % 256)).toNat = n % 256 := by
      rw [UInt8.toNat_ofNat']
      omega
    rw [beBytes, ofBeBytes_concat, ih (by omega), hbyte]
    omega

/-! Without leading zeros. -/

/-- The bytes of a number from its first non-zero byte on. -/
def minBytes (n : Nat) : Bytes :=
  if n = 0 then [] else minBytes (n / 256) ++ [UInt8.ofNat (n % 256)]
termination_by n

theorem minBytes_zero : minBytes 0 = [] := by
  rw [minBytes, if_pos rfl]

theorem ofBeBytes_minBytes (n : Nat) : ofBeBytes (minBytes n) = n := by
  fun_induction minBytes n with
  | case1 => rfl
  | case2 n hne ih =>
    have hbyte : (UInt8.ofNat (n % 256)).toNat = n % 256 := by
      rw [UInt8.toNat_ofNat']
      omega
    rw [ofBeBytes_concat, ih, hbyte]
    omega

theorem minBytes_eq_nil : minBytes n = [] ↔ n = 0 := by
  constructor
  · intro h
    rw [← ofBeBytes_minBytes n, h, ofBeBytes_nil]
  · rintro rfl
    exact minBytes_zero

/-- The first byte is not zero. -/
theorem minBytes_head_ne (b : UInt8) (rest : Bytes) (h : minBytes n = b :: rest) : b ≠ 0 := by
  induction n using Nat.strongRecOn generalizing b rest with
  | ind n ih =>
    rw [minBytes] at h
    by_cases hne : n = 0
    · rw [if_pos hne] at h
      cases h
    · rw [if_neg hne] at h
      cases hhigh : minBytes (n / 256) with
      | nil =>
        rw [hhigh] at h
        obtain ⟨rfl, rfl⟩ := List.cons.inj h
        have hlow := minBytes_eq_nil.mp hhigh
        rw [Ne, ← UInt8.toNat_inj, UInt8.toNat_ofNat']
        simp only [UInt8.toNat_zero]
        omega
      | cons c high =>
        rw [hhigh] at h
        obtain ⟨rfl, -⟩ := List.cons.inj h
        exact ih (n / 256) (by omega) c high hhigh

theorem minBytes_length_le {size : Nat} (h : n < 256 ^ size) : (minBytes n).length ≤ size := by
  induction size generalizing n with
  | zero =>
    rw [Nat.pow_zero, Nat.lt_one_iff] at h
    rw [h, minBytes_zero]
    exact le_rfl
  | succ size ih =>
    rw [minBytes]
    split
    · exact Nat.zero_le _
    · rw [List.length_append, List.length_singleton]
      exact Nat.succ_le_succ (ih (by omega))

end Tempo
