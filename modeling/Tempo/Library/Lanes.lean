/-
Small values kept in fixed-width lanes of larger words.  An array of words is
read and written lane by lane; a write changes its own lane and nothing else,
and an array whose lanes are all zero is zero when no word has bits outside
its lanes.
-/
import Mathlib.Data.Nat.Basic
import Mathlib.Tactic.Common

namespace Tempo

open Function BitVec

variable {w : Nat}

/-- The `bits` low places of a word. -/
def laneMask (w bits : Nat) : BitVec w :=
  allOnes w >>> (w - bits)

def extractLane (word : BitVec w) (offset bits : Nat) : BitVec w :=
  word >>> offset &&& laneMask w bits

def clearLane (word : BitVec w) (offset bits : Nat) : BitVec w :=
  word &&& ~~~(laneMask w bits <<< offset)

def insertLane (word value : BitVec w) (offset bits : Nat) : BitVec w :=
  clearLane word offset bits ||| (value &&& laneMask w bits) <<< offset

variable {bits offset : Nat} {word : BitVec w} {i : Nat} {value : BitVec w}

theorem getLsbD_laneMask (hbits : bits ≤ w) : (laneMask w bits).getLsbD i = decide (i < bits) := by
  by_cases hi : i < w
  · have hshift : w - bits + i < w ↔ i < bits := by omega
    simp [laneMask, hshift]
  · have hge : ¬i < bits := by omega
    simp [getLsbD_of_ge _ _ (Nat.le_of_not_lt hi), hge]

theorem getLsbD_extractLane (hbits : bits ≤ w) : (extractLane word offset bits).getLsbD i =
      (decide (i < bits) && word.getLsbD (offset + i)) := by
  rw [extractLane, getLsbD_and, getLsbD_laneMask hbits, getLsbD_ushiftRight, Bool.and_comm]

theorem getLsbD_clearLane (hbits : bits ≤ w) : (clearLane word offset bits).getLsbD i =
      (!(decide (offset ≤ i) && decide (i < offset + bits)) && word.getLsbD i) := by
  rw [clearLane, getLsbD_and, getLsbD_not, getLsbD_shiftLeft, getLsbD_laneMask hbits, Bool.and_comm]
  by_cases hi : i < w
  · by_cases ho : i < offset
    · have hle : ¬offset ≤ i := by omega
      simp [hi, ho, hle]
    · have hle : offset ≤ i := by omega
      have hplace : i - offset < bits ↔ i < offset + bits := by omega
      simp [hi, ho, hle, hplace]
  · simp [getLsbD_of_ge _ _ (Nat.le_of_not_lt hi)]

theorem getLsbD_insertLane (hfit : offset + bits ≤ w) :
    (insertLane word value offset bits).getLsbD i =
      if offset ≤ i ∧ i < offset + bits then value.getLsbD (i - offset)
      else word.getLsbD i := by
  have hbits : bits ≤ w := by omega
  rw [insertLane, getLsbD_or, getLsbD_clearLane hbits,
    getLsbD_shiftLeft, getLsbD_and, getLsbD_laneMask hbits]
  by_cases hlow : offset ≤ i
  · by_cases hhigh : i < offset + bits
    · have hi : i < w := by omega
      have hplace : i - offset < bits := by omega
      have hnot : ¬i < offset := by omega
      simp [hlow, hhigh, hi, hplace, hnot]
    · have hplace : ¬i - offset < bits := by omega
      simp [hhigh, hplace]
  · have hlt : i < offset := by omega
    simp [hlow, hlt]

/-- Reading back the lane just written. -/
theorem extractLane_insertLane_self (hfit : offset + bits ≤ w)
    (hvalue : ∀ i, bits ≤ i → value.getLsbD i = false) :
    extractLane (insertLane word value offset bits) offset bits = value := by
  refine eq_of_getLsbD_eq fun i _ => ?_
  rw [getLsbD_extractLane (by omega), getLsbD_insertLane hfit]
  by_cases hi : i < bits
  · simp [hi]
  · simp [hi, hvalue i (by omega)]

/-- Reading a lane apart from the one just written. -/
theorem extractLane_insertLane_of_apart {offset' : Nat} (hfit : offset + bits ≤ w)
    (hapart : offset' + bits ≤ offset ∨ offset + bits ≤ offset') :
    extractLane (insertLane word value offset bits) offset' bits =
      extractLane word offset' bits := by
  refine eq_of_getLsbD_eq fun i _ => ?_
  rw [getLsbD_extractLane (by omega), getLsbD_extractLane (by omega), getLsbD_insertLane hfit]
  by_cases hi : i < bits
  · rw [if_neg (by omega)]
  · simp [hi]

theorem clearLane_eq_insertLane : clearLane word offset bits = insertLane word 0#w offset bits := by
  simp [insertLane]

/-! Arrays of words with `k` lanes of `bits` places each. -/

section Array

variable {bits k : Nat} {a : Nat → BitVec w} {i j : Nat} {v : BitVec w}

def getLane (bits k : Nat) (a : Nat → BitVec w) (i : Nat) : BitVec w :=
  extractLane (a (i / k)) (i % k * bits) bits

def setLane (bits k : Nat) (a : Nat → BitVec w) (i : Nat) (v : BitVec w) : Nat → BitVec w :=
  update a (i / k) (insertLane (a (i / k)) v (i % k * bits) bits)

/-- No word has bits outside its lanes. -/
def LanesOnly (bits k : Nat) (a : Nat → BitVec w) : Prop :=
  ∀ j i, k * bits ≤ i → (a j).getLsbD i = false

theorem lane_fits (hk : 0 < k) (hfit : k * bits ≤ w) (i : Nat) : i % k * bits + bits ≤ w := by
  have hlt : i % k + 1 ≤ k := Nat.mod_lt i hk
  have hmul := Nat.mul_le_mul_right bits hlt
  rw [Nat.add_mul, Nat.one_mul] at hmul
  omega

theorem lanes_apart (hk : i / k = j / k) (hij : i ≠ j) :
    j % k * bits + bits ≤ i % k * bits ∨ i % k * bits + bits ≤ j % k * bits := by
  have hmod : i % k ≠ j % k := fun h => hij (by
    rw [← Nat.div_add_mod i k, ← Nat.div_add_mod j k, hk, h])
  rcases Nat.lt_or_gt_of_ne hmod with hlt | hlt
  · have hmul := Nat.mul_le_mul_right bits (Nat.succ_le_of_lt hlt)
    rw [Nat.succ_mul] at hmul
    exact .inr hmul
  · have hmul := Nat.mul_le_mul_right bits (Nat.succ_le_of_lt hlt)
    rw [Nat.succ_mul] at hmul
    exact .inl hmul

theorem getLane_setLane_self (hk : 0 < k) (hfit : k * bits ≤ w)
    (hv : ∀ i, bits ≤ i → v.getLsbD i = false) : getLane bits k (setLane bits k a i v) i = v := by
  rw [getLane, setLane, update_self]
  exact extractLane_insertLane_self (lane_fits hk hfit i) hv

theorem getLane_setLane_of_ne (hk : 0 < k) (hfit : k * bits ≤ w) (hij : j ≠ i) :
    getLane bits k (setLane bits k a i v) j = getLane bits k a j := by
  rw [getLane, setLane, getLane]
  by_cases hword : j / k = i / k
  · rw [hword, update_self]
    exact extractLane_insertLane_of_apart (lane_fits hk hfit i) (lanes_apart hword.symm hij.symm)
  · rw [update_of_ne hword]

/-- One lane as wide as the word is the word. -/
theorem getLane_whole : getLane w 1 a i = a i := by
  refine eq_of_getLsbD_eq fun n hn => ?_
  rw [getLane, getLsbD_extractLane (Nat.le_refl w)]
  simp [hn, Nat.mod_one]

theorem setLane_whole : setLane w 1 a i v = update a i v := by
  have hword : insertLane (a i) v 0 w = v := by
    refine eq_of_getLsbD_eq fun n hn => ?_
    rw [getLsbD_insertLane (by omega)]
    simp [hn]
  rw [setLane, Nat.div_one, Nat.mod_one, Nat.zero_mul, hword]

theorem LanesOnly.setLane (hk : 0 < k) (h : LanesOnly bits k a) :
    k * bits ≤ w → LanesOnly bits k (setLane bits k a i v) := by
  intro hfit j n hn
  rw [Tempo.setLane]
  by_cases hword : j = i / k
  · rw [hword, update_self, getLsbD_insertLane (lane_fits hk hfit i), if_neg, h _ _ hn]
    have hlt : i % k + 1 ≤ k := Nat.mod_lt i hk
    have hmul := Nat.mul_le_mul_right bits hlt
    rw [Nat.add_mul, Nat.one_mul] at hmul
    omega
  · rw [update_of_ne hword]
    exact h j n hn

/-- A word without bits outside its lanes is zero when its lanes are. -/
theorem LanesOnly.eq_zero (h : LanesOnly bits k a) (hfit : k * bits ≤ w)
    (hzero : ∀ n, n / k = j → getLane bits k a n = 0#w) : a j = 0#w := by
  refine eq_of_getLsbD_eq fun i _ => ?_
  rw [getLsbD_zero]
  by_cases hi : k * bits ≤ i
  · exact h j i hi
  · have hbits : 0 < bits := Nat.pos_of_ne_zero fun h0 => hi (by simp [h0])
    have hlane : i / bits < k := (Nat.div_lt_iff_lt_mul hbits).mpr (Nat.lt_of_not_le hi)
    have hk : 0 < k := Nat.zero_lt_of_lt hlane
    have hdiv : (j * k + i / bits) / k = j := by
      rw [Nat.add_comm, Nat.add_mul_div_right _ _ hk, Nat.div_eq_of_lt hlane, Nat.zero_add]
    have hmod : (j * k + i / bits) % k = i / bits := by
      rw [Nat.add_comm, Nat.add_mul_mod_self_right, Nat.mod_eq_of_lt hlane]
    have hget := hzero _ hdiv
    rw [getLane, hdiv, hmod] at hget
    have hbit := congrArg (fun word => word.getLsbD (i % bits)) hget
    have hbw : bits ≤ w := le_trans (Nat.le_mul_of_pos_left bits hk) hfit
    have hplace : i / bits * bits + i % bits = i := Nat.div_add_mod' i bits
    simpa [getLsbD_extractLane hbw, Nat.mod_lt i hbits, hplace] using hbit

end Array

end Tempo
