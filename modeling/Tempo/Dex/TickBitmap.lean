/-
The search of the exchange for the next price level.  One bit per tick says
whether a side of the book has orders there; the bits are kept in words of 256,
and the search goes from word to word.
-/
import Mathlib.Order.Bounds.Basic
import Mathlib.Data.Int.Order.Basic

namespace Tempo

def minTick : Int := -2000

def maxTick : Int := 2000

/-- The words of one side.  Tick `t` is bit `t & 0xFF` of word `t >> 8`, which
for a signed `t` are the remainder and the quotient towards minus infinity. -/
abbrev TickBitmap := Int → BitVec 256

namespace TickBitmap

variable (bitmap : TickBitmap)

def IsSet (tick : Int) : Prop :=
  (bitmap (tick / 256)).getLsbD (tick % 256).toNat = true

def InRange : Prop :=
  ∀ tick, bitmap.IsSet tick → minTick ≤ tick ∧ tick ≤ maxTick

/-- The word of a tick without the bits below the tick. -/
def maskBelow (tick : Int) : BitVec 256 :=
  let bitIndex := (tick % 256).toNat
  bitmap (tick / 256) &&&
    if bitIndex = 0 then BitVec.allOnes 256 else BitVec.allOnes 256 <<< bitIndex

/-- The word of a tick without the bits above the tick. -/
def maskAbove (tick : Int) : BitVec 256 :=
  let bitIndex := (tick % 256).toNat
  bitmap (tick / 256) &&&
    if bitIndex = 255 then BitVec.allOnes 256 else BitVec.allOnes 256 >>> (255 - bitIndex)

/-- The loop for asks, from the first tick that may be returned. -/
def searchUp (nextTick : Int) : Int × Bool :=
  let wordIndex := nextTick / 256
  if wordIndex > maxTick / 256 then (nextTick, false)
  else
    let maskedWord := bitmap.maskBelow nextTick
    if maskedWord ≠ 0 then
      let foundTick := wordIndex * 256 + maskedWord.ctz.toNat
      (foundTick, foundTick ≤ maxTick)
    else if wordIndex + 1 > maxTick / 256 then ((wordIndex + 1) * 256, false)
    else searchUp ((wordIndex + 1) * 256)
termination_by (maxTick + 1 - nextTick).toNat
decreasing_by omega

/-- The loop for bids, downwards. -/
def searchDown (nextTick : Int) : Int × Bool :=
  let wordIndex := nextTick / 256
  if wordIndex < minTick / 256 then (nextTick, false)
  else
    let maskedWord := bitmap.maskAbove nextTick
    if maskedWord ≠ 0 then
      let foundTick := wordIndex * 256 + (255 - maskedWord.clz.toNat : Nat)
      (foundTick, minTick ≤ foundTick)
    else if wordIndex - 1 < minTick / 256 then ((wordIndex - 1) * 256 + 255, false)
    else searchDown ((wordIndex - 1) * 256 + 255)
termination_by (nextTick + 1 - minTick).toNat
decreasing_by omega

end TickBitmap

structure Orderbook where
  bidBitmap : TickBitmap
  askBitmap : TickBitmap

namespace Orderbook

variable (book : Orderbook)

def nextInitializedAskTick (tick : Int) : Int × Bool :=
  if maxTick ≤ tick then (maxTick, false)
  else book.askBitmap.searchUp (tick + 1)

def nextInitializedBidTick (tick : Int) : Int × Bool :=
  if tick ≤ minTick then (minTick, false)
  else book.bidBitmap.searchDown (tick - 1)

def nextInitializedTick (tick : Int) (isBid : Bool) : Int × Bool :=
  if isBid then book.nextInitializedBidTick tick
  else book.nextInitializedAskTick tick

end Orderbook

namespace TickBitmap

open BitVec

variable {bitmap : TickBitmap} {n : Int} {j : Nat}

theorem isSet_iff (hj : j < 256) (k : Int) :
    bitmap.IsSet (k * 256 + j) ↔ (bitmap k).getLsbD j = true := by
  have hword : (k * 256 + j) / 256 = k := by omega
  have hbit : ((k * 256 + j) % 256).toNat = j := by omega
  rw [IsSet, hword, hbit]

/-- The bits left are those of the set ticks of the word from `n` on. -/
theorem getLsbD_maskBelow (hj : j < 256) : (bitmap.maskBelow n).getLsbD j = true ↔
    bitmap.IsSet (n / 256 * 256 + j) ∧ n ≤ n / 256 * 256 + j := by
  have hle : n ≤ n / 256 * 256 + j ↔ (n % 256).toNat ≤ j := by omega
  rw [isSet_iff hj, hle, maskBelow, getLsbD_and, Bool.and_eq_true]
  refine and_congr_right fun _ => ?_
  split_ifs <;>
  · simp only [getLsbD_shiftLeft, getLsbD_allOnes, Bool.and_eq_true, Bool.not_eq_true',
      decide_eq_true_eq, decide_eq_false_iff_not]
    omega

theorem getLsbD_maskAbove (hj : j < 256) : (bitmap.maskAbove n).getLsbD j = true ↔
    bitmap.IsSet (n / 256 * 256 + j) ∧ n / 256 * 256 + j ≤ n := by
  have hle : n / 256 * 256 + j ≤ n ↔ j ≤ (n % 256).toNat := by omega
  rw [isSet_iff hj, hle, maskAbove, getLsbD_and, Bool.and_eq_true]
  refine and_congr_right fun _ => ?_
  split_ifs <;>
  · simp only [getLsbD_ushiftRight, getLsbD_allOnes, decide_eq_true_eq]
    omega

theorem exists_bit {t : Int} (h : n / 256 * 256 ≤ t) : ∃ j : Nat, t = n / 256 * 256 + j :=
  ⟨(t - n / 256 * 256).toNat, by omega⟩

theorem isLeast_ctz (h : bitmap.maskBelow n ≠ 0) :
    IsLeast {t | bitmap.IsSet t ∧ n ≤ t} (n / 256 * 256 + (bitmap.maskBelow n).ctz.toNat) := by
  have hlow := getLsbD_true_ctz_of_ne_zero h
  have hlt := lt_of_getLsbD hlow
  refine ⟨(getLsbD_maskBelow hlt).mp hlow, ?_⟩
  rintro t ⟨ht, hn⟩
  obtain ⟨j, rfl⟩ := exists_bit (by omega : n / 256 * 256 ≤ t)
  -- below the lowest bit the masked word is empty
  by_contra! hj
  have hfalse := getLsbD_false_of_lt_ctz (x := bitmap.maskBelow n) (by omega : j < _)
  rw [(getLsbD_maskBelow (by omega)).mpr ⟨ht, hn⟩] at hfalse
  cases hfalse

theorem isGreatest_clz (h : bitmap.maskAbove n ≠ 0) : IsGreatest {t | bitmap.IsSet t ∧ t ≤ n}
    (n / 256 * 256 + (255 - (bitmap.maskAbove n).clz.toNat : Nat)) := by
  have hhigh := getLsbD_true_clz_of_ne_zero (by decide) h
  refine ⟨(getLsbD_maskAbove (lt_of_getLsbD hhigh)).mp hhigh, ?_⟩
  rintro t ⟨ht, hn⟩
  by_contra! hlt
  obtain ⟨j, rfl⟩ := exists_bit (by omega : n / 256 * 256 ≤ t)
  have hbit := (getLsbD_maskAbove (by omega)).mpr ⟨ht, hn⟩
  rw [getLsbD, Nat.testBit_lt_two_pow] at hbit
  · cases hbit
  · refine toNat_lt_two_pow_sub_clz.trans_le (Nat.pow_le_pow_right (by decide) ?_)
    omega

/-- A masked word without bits sends the search to the next word. -/
theorem above_next (h : bitmap.maskBelow n = 0) :
    {t | bitmap.IsSet t ∧ n ≤ t} = {t | bitmap.IsSet t ∧ (n / 256 + 1) * 256 ≤ t} := by
  ext t
  refine and_congr_right fun ht => ⟨fun hn => ?_, by omega⟩
  by_contra! hlt
  obtain ⟨j, rfl⟩ := exists_bit (by omega : n / 256 * 256 ≤ t)
  simpa [h] using (getLsbD_maskBelow (by omega)).mpr ⟨ht, hn⟩

theorem below_next (h : bitmap.maskAbove n = 0) :
    {t | bitmap.IsSet t ∧ t ≤ n} = {t | bitmap.IsSet t ∧ t ≤ (n / 256 - 1) * 256 + 255} := by
  ext t
  refine and_congr_right fun ht => ⟨fun hn => ?_, by omega⟩
  by_contra! hlt
  obtain ⟨j, rfl⟩ := exists_bit (by omega : n / 256 * 256 ≤ t)
  simpa [h] using (getLsbD_maskAbove (by omega)).mpr ⟨ht, hn⟩

variable (h : bitmap.InRange)
include h

theorem above_maxTick (hn : maxTick < n) : {t | bitmap.IsSet t ∧ n ≤ t} = ∅ :=
  Set.eq_empty_of_forall_notMem fun t ht => absurd (ht.2.trans (h t ht.1).2) (by omega)

theorem below_minTick (hn : n < minTick) : {t | bitmap.IsSet t ∧ t ≤ n} = ∅ :=
  Set.eq_empty_of_forall_notMem fun t ht => absurd ((h t ht.1).1.trans ht.2) (by omega)

theorem searchUp_spec (n : Int) :
    if (bitmap.searchUp n).2 then IsLeast {t | bitmap.IsSet t ∧ n ≤ t} (bitmap.searchUp n).1
    else {t | bitmap.IsSet t ∧ n ≤ t} = ∅ := by
  fun_induction searchUp with
  | case1 n k hk => exact above_maxTick h (by omega)
  | case2 n k hk maskedWord hne foundTick =>
    have hleast := isLeast_ctz hne
    rwa [if_pos (decide_eq_true (h _ hleast.1.1).2)]
  | case3 n k hk maskedWord hzero hlast =>
    rw [above_next (not_not.mp hzero)]
    exact above_maxTick h (by omega)
  | case4 n k hk maskedWord hzero hlast ih =>
    rw [above_next (not_not.mp hzero)]
    exact ih

theorem searchDown_spec (n : Int) :
    if (bitmap.searchDown n).2 then IsGreatest {t | bitmap.IsSet t ∧ t ≤ n} (bitmap.searchDown n).1
    else {t | bitmap.IsSet t ∧ t ≤ n} = ∅ := by
  fun_induction searchDown with
  | case1 n k hk => exact below_minTick h (by omega)
  | case2 n k hk maskedWord hne foundTick =>
    have hgreatest := isGreatest_clz hne
    rwa [if_pos (decide_eq_true (h _ hgreatest.1.1).1)]
  | case3 n k hk maskedWord hzero hlast =>
    rw [below_next (not_not.mp hzero)]
    exact below_minTick h (by omega)
  | case4 n k hk maskedWord hzero hlast ih =>
    rw [below_next (not_not.mp hzero)]
    exact ih

end TickBitmap

open TickBitmap

/-- The search for an ask finds the least set tick above the given one, and
reports none only if there is none; that for a bid the greatest below it. -/
theorem nextInitializedTick_exact (book : Orderbook) (hbids : book.bidBitmap.InRange)
    (hasks : book.askBitmap.InRange) (tick : Int) :
    (if (book.nextInitializedTick tick false).2 then
      IsLeast {t | book.askBitmap.IsSet t ∧ tick < t} (book.nextInitializedTick tick false).1
    else {t | book.askBitmap.IsSet t ∧ tick < t} = ∅) ∧
    if (book.nextInitializedTick tick true).2 then
      IsGreatest {t | book.bidBitmap.IsSet t ∧ t < tick} (book.nextInitializedTick tick true).1
    else {t | book.bidBitmap.IsSet t ∧ t < tick} = ∅ := by
  constructor
  · rw [show book.nextInitializedTick tick false = book.nextInitializedAskTick tick from rfl,
      Orderbook.nextInitializedAskTick]
    by_cases hend : maxTick ≤ tick
    · rw [if_pos hend]
      exact above_maxTick hasks (Int.lt_add_one_iff.mpr hend)
    · rw [if_neg hend]
      exact searchUp_spec hasks (tick + 1)
  · rw [show book.nextInitializedTick tick true = book.nextInitializedBidTick tick from rfl,
      Orderbook.nextInitializedBidTick]
    simp only [← Int.le_sub_one_iff]
    by_cases hend : tick ≤ minTick
    · rw [if_pos hend]
      exact below_minTick hbids (Int.sub_one_lt_of_le hend)
    · rw [if_neg hend]
      exact searchDown_spec hbids (tick - 1)

/-- The search finds the only level, two words above the tick. -/
theorem nextInitializedTick_exact_level :
    let level : TickBitmap := fun k => if k = 0 then 1 else 0
    ((Orderbook.mk level level).nextInitializedTick (-300) false).2 = true := by
  intro level
  have hrange : level.InRange := by
    intro t ht
    by_cases hword : t / 256 = 0
    · simp only [minTick, maxTick]
      omega
    · simp [IsSet, level, hword] at ht
  have hexact := (nextInitializedTick_exact ⟨level, level⟩ hrange hrange (-300)).1
  by_contra hnone
  rw [if_neg hnone] at hexact
  exact hexact.le (⟨by simp [IsSet, level], by decide⟩ : level.IsSet 0 ∧ -300 < (0 : Int))

end Tempo
