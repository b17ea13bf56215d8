/-
The enumerable set implements a finite set.  `Rep` relates the slots of a set
to the list of its values; every operation is run from a represented state and
shown to end in the state that represents the list it should.
-/
import Tempo.Storage.SetHandler

namespace Tempo

open Function SetStorage

variable {α : Type} {l : List α}

namespace SetHandler

open Primitive VecHandler

variable [Primitive α] {s s' : SetStorage α} {rest : Nat → B256}

/-- The first slots hold `l` with its positions; the lanes after them hold
`rest`. -/
structure Holds (s : SetStorage α) (l : List α) (rest : Nat → B256) : Prop where
  lanesOnly : LanesOnly (laneBits α) (perSlot α) s.data
  value : ∀ i x, l[i]? = some x → getLane (laneBits α) (perSlot α) s.data i = toWord x
  beyond : ∀ i, l.length ≤ i → getLane (laneBits α) (perSlot α) s.data i = rest i
  position : ∀ i x, l[i]? = some x → s.positions x = BitVec.ofNat 256 (i + 1)
  absent : ∀ x, x ∉ l → s.positions x = 0

/-- The slots represent the list of values. -/
structure Rep (s : SetStorage α) (l : List α) : Prop extends Holds s l fun _ => 0 where
  length_eq : s.length = BitVec.ofNat 256 l.length
  bound : l.length ≤ maxWord 32
  nodup : l.Nodup

variable {n : Nat} {values : List α}

theorem toNat_ofNat_of_le (h : n ≤ maxWord 32) : (BitVec.ofNat 256 n).toNat = n := by
  refine Nat.mod_eq_of_lt (lt_of_le_of_lt h ?_)
  decide

theorem rep_blank : Rep (blank : SetStorage α) [] where
  lanesOnly _ _ _ := BitVec.getLsbD_zero
  value _ _ h := by cases h
  beyond i _ := by
    simp [blank, getLane, extractLane]
  position _ _ h := by cases h
  absent _ _ := rfl
  length_eq := rfl
  bound := Nat.zero_le _
  nodup := List.nodup_nil

/-- A set without values has no slot in use. -/
theorem Rep.eq_blank (h : Rep s []) : s = blank := by
  obtain ⟨length, data, positions⟩ := s
  have hlength : length = 0 := h.length_eq
  have hdata : data = fun _ => 0 := funext fun j =>
    h.lanesOnly.eq_zero (lanes_fit α) fun i _ => h.beyond i (Nat.zero_le i)
  have hpositions : positions = fun _ => 0 := funext fun x =>
    h.absent x List.not_mem_nil
  rw [hlength, hdata, hpositions]
  rfl

/-! Reading. -/

omit [Primitive α] in
theorem yields_len (hlen : s.length = BitVec.ofNat 256 n)
    (hn : n ≤ maxWord 32) : Yields len s n s := by
  simp only [len, yields_steps, hlen, toNat_ofNat_of_le hn]
  exact ⟨hn, trivial, trivial⟩

theorem Rep.yields_len (h : Rep s l) : Yields len s l.length s :=
  SetHandler.yields_len h.length_eq h.bound

variable {i : Nat} {x : α}

theorem Holds.yields_readValue (h : Holds s l rest)
    (hx : l[i]? = some x) : Yields (readValue i) s x s := by
  simp only [readValue, yields_steps, loadElement_eq, h.value i x hx, fromWord_toWord, true_and]

theorem Rep.position_le (h : Rep s l) (hx : l[i]? = some x) : i + 1 ≤ maxWord 32 := by
  have := (List.getElem?_eq_some_iff.mp hx).1
  have := h.bound
  omega

theorem Rep.yields_readPosition (h : Rep s l)
    (hx : l[i]? = some x) : Yields (readPosition x) s (i + 1) s := by
  have hle := h.position_le hx
  simp [readPosition, h.position i x hx, toNat_ofNat_of_le hle, tryInto_eq_some, hle]

theorem Rep.yields_readPosition_absent (h : Rep s l) (hx : x ∉ l) :
    Yields (readPosition x) s 0 s := by
  simp only [readPosition, yields_steps, h.absent x hx, and_true]
  rfl

variable [DecidableEq α] {b : Bool} {u : Unit}

theorem Rep.yields_contains (h : Rep s l) (x : α) : Yields (contains x) s (decide (x ∈ l)) s := by
  by_cases hx : x ∈ l
  · obtain ⟨i, hi⟩ := List.getElem?_of_mem hx
    refine yields_bind.mpr ⟨i + 1, s, h.yields_readPosition hi, ?_⟩
    simp [hx]
  · refine yields_bind.mpr ⟨0, s, h.yields_readPosition_absent hx, ?_⟩
    simp [hx]

omit [DecidableEq α] in
theorem Rep.yields_read (h : Rep s l) : Yields read s l s := by
  cases l with
  | nil => exact yields_bind.mpr ⟨0, s, h.yields_len, yields_pure.mpr ⟨rfl, rfl⟩⟩
  | cons y l =>
    refine yields_bind.mpr ⟨_, s, h.yields_len, ?_⟩
    have hmap : (List.range (y :: l).length).map ((y :: l).getD · y) = y :: l := by
      refine List.ext_getElem? fun i => ?_
      by_cases hi : i < (y :: l).length
      · rw [List.getElem?_map, List.getElem?_range hi]
        simp [List.getElem?_eq_getElem hi]
      · rw [List.getElem?_eq_none (by simpa using hi), List.getElem?_eq_none (by simpa using hi)]
    have hread := yields_mapM (f := readValue) (s := s)
      (g := ((y :: l).getD · y)) (l := List.range (y :: l).length) fun i hi => by
        have hlt := List.mem_range.mp hi
        refine h.yields_readValue ?_
        simp [List.getElem?_eq_getElem hlt]
    rwa [hmap] at hread

/-! Writing one value behind the others. -/

omit [DecidableEq α] in
theorem yields_writeValue (i : Nat) (x : α) : Yields (writeValue i x) s ⟨⟩ { s with
      data := setLane (laneBits α) (perSlot α) s.data i (toWord x) } := by
  simp [writeValue, storeElement_eq]

omit [DecidableEq α] in
theorem yields_deleteValue (i : Nat) : Yields (deleteValue i) s ⟨⟩ { s with
      data := setLane (laneBits α) (perSlot α) s.data i 0 } := by
  simp [deleteValue, deleteElement_eq]

/-- The state after `x` was written behind `n` values. -/
def afterAppend (s : SetStorage α) (n : Nat) (x : α) : SetStorage α :=
  { s with
    data := setLane (laneBits α) (perSlot α) s.data n (toWord x)
    positions := update s.positions x (BitVec.ofNat 256 (n + 1)) }

theorem Holds.append (h : Holds s l rest) (hx : x ∉ l) :
    Holds (afterAppend s l.length x) (l ++ [x]) rest where
  lanesOnly := h.lanesOnly.setLane (perSlot_pos α) (lanes_fit α)
  value i y hy := by
    rcases getElem?_concat_eq_some.mp hy with hy | ⟨rfl, rfl⟩
    · have hi := (List.getElem?_eq_some_iff.mp hy).1
      exact (getLane_setLane_of_ne (perSlot_pos α) (lanes_fit α) (by omega)).trans (h.value i y hy)
    · exact getLane_setLane_self (perSlot_pos α) (lanes_fit α) fun _ => toWord_bits x
  beyond i hi := by
    rw [List.length_append, List.length_singleton] at hi
    exact (getLane_setLane_of_ne (perSlot_pos α) (lanes_fit α)
      (by omega)).trans (h.beyond i (by omega))
  position i y hy := by
    rcases getElem?_concat_eq_some.mp hy with hy | ⟨rfl, rfl⟩
    · have hne : y ≠ x := fun hyx => hx (hyx ▸ List.mem_of_getElem? hy)
      exact (update_of_ne hne _ _).trans (h.position i y hy)
    · exact update_self _ _ _
  absent y hy := by
    rw [List.mem_append, List.mem_singleton, not_or] at hy
    exact (update_of_ne hy.2 _ _).trans (h.absent y hy.1)

omit [Primitive α] [DecidableEq α] in
theorem yields_checkedPosition (h : n < maxWord 32) : Yields (checkedPosition n) s (n + 1) s := by
  simp only [checkedPosition, yields_orFail, tryInto, checkedAdd,
    if_pos (le_of_lt h), Option.bind_some, if_pos (Nat.succ_le_of_lt h), and_self]

/-! The operations. -/

/-- Below its capacity the set takes a new value as its last one. -/
theorem Rep.yields_insert (h : Rep s l) (hx : x ∉ l) (hroom : l.length < maxIndex α) :
    ∃ s', Yields (insert x) s true s' ∧ Rep s' (l ++ [x]) := by
  have hmax : maxIndex α ≤ maxWord 32 := by
    unfold maxIndex
    split
    · exact Nat.div_le_self _ _
    · exact le_rfl
  have hlt : l.length < maxWord 32 := by omega
  have hlen : s.length.toNat = l.length := by
    rw [h.length_eq, toNat_ofNat_of_le h.bound]
  refine ⟨{ afterAppend s l.length x with
    length := BitVec.ofNat 256 (l.length + 1) }, ?_, ?_⟩
  · refine yields_bind.mpr ⟨_, s, h.yields_contains x, ?_⟩
    rw [decide_eq_false hx, if_neg Bool.false_ne_true]
    refine yields_bind.mpr ⟨_, s, h.yields_len, ?_⟩
    refine yields_bind.mpr ⟨_, s, yields_checkedPosition hlt, ?_⟩
    simp only [writePosition, yields_steps, push, len, bind_assoc, hlen]
    refine ⟨h.bound, hroom, ?_⟩
    refine yields_bind.mpr ⟨⟨⟩, _, yields_writeValue _ _, ?_⟩
    simp only [setLen, yields_steps, true_and]
    rfl
  · exact
      { h.toHolds.append hx with
        length_eq := by simp
        bound := by simpa using Nat.succ_le_of_lt hlt
        nodup := by
          rw [List.nodup_append]
          refine ⟨h.nodup, List.nodup_singleton x, ?_⟩
          rintro y hy z hz rfl
          exact hx (List.mem_singleton.mp hz ▸ hy) }

/-- An insertion of an absent value succeeds below the capacity only. -/
theorem Rep.insert_room (h : Rep s l) (hx : x ∉ l)
    (hrun : Yields (insert x) s b s') : l.length < maxIndex α := by
  have hlen : s.length.toNat = l.length := by
    rw [h.length_eq, toNat_ofNat_of_le h.bound]
  rw [insert, (h.yields_contains x).bind_iff, decide_eq_false hx,
    if_neg Bool.false_ne_true, append, h.yields_len.bind_iff] at hrun
  simp only [checkedPosition, yields_steps, writePosition, push, len, bind_assoc, hlen] at hrun
  obtain ⟨_, _, _, hroom, _⟩ := hrun
  exact hroom

theorem Rep.yields_insert_present (h : Rep s l) (hx : x ∈ l) : Yields (insert x) s false s := by
  refine yields_bind.mpr ⟨_, s, h.yields_contains x, ?_⟩
  rw [decide_eq_true hx, if_pos rfl]
  exact yields_pure.mpr ⟨rfl, rfl⟩

theorem Rep.yields_remove_absent (h : Rep s l) (hx : x ∉ l) : Yields (remove x) s false s := by
  refine yields_bind.mpr ⟨_, s, h.yields_readPosition_absent hx, ?_⟩
  exact yields_pure.mpr ⟨rfl, rfl⟩

/-- The state after the value at `last` was copied over the one at `i`. -/
def afterMove (s : SetStorage α) (i last : Nat) (y : α) : SetStorage α :=
  if i = last then s
  else
    { s with
      data := setLane (laneBits α) (perSlot α) s.data i (toWord y)
      positions := update s.positions y (BitVec.ofNat 256 (i + 1)) }

/-- The state after the value `x` at `i` was removed, `y` being the last. -/
def afterRemove (s : SetStorage α) (i last : Nat) (x y : α) : SetStorage α :=
  { length := BitVec.ofNat 256 last
    data := setLane (laneBits α) (perSlot α) (afterMove s i last y).data last 0
    positions := update (afterMove s i last y).positions x 0 }

theorem getLane_afterMove {last j : Nat} {y : α} (hj : j ≠ i ∨ i = last) :
    getLane (laneBits α) (perSlot α) (afterMove s i last y).data j =
      getLane (laneBits α) (perSlot α) s.data j := by
  unfold afterMove
  split
  · rfl
  · rename_i hlast
    exact getLane_setLane_of_ne (perSlot_pos α) (lanes_fit α) (hj.resolve_right hlast)

theorem positions_afterMove {last : Nat} {y z : α} (hz : z ≠ y ∨ i = last) :
    (afterMove s i last y).positions z = s.positions z := by
  unfold afterMove
  split
  · rfl
  · rename_i hlast
    exact update_of_ne (hz.resolve_right hlast) _ _

theorem Rep.afterRemove (h : Rep s l) {y : α} (hx : l[i]? = some x)
    (hy : l[l.length - 1]? = some y) :
    Rep (afterRemove s i (l.length - 1) x y) (swapRemoveAt l i) := by
  have hi := (List.getElem?_eq_some_iff.mp hx).1
  have hne : l ≠ [] := List.ne_nil_of_length_pos (by omega)
  have hinj : ∀ {j k : Nat} {z : α}, l[j]? = some z → l[k]? = some z → j = k := fun hj hk =>
    (List.getElem?_inj (List.getElem?_eq_some_iff.mp hj).1 h.nodup).mp (hj.trans hk.symm)
  have hlen := length_swapRemoveAt (i := i) hne
  -- where a value of the new list was in the old one
  have hold : ∀ {j : Nat} {z : α}, (swapRemoveAt l i)[j]? = some z →
      j < l.length - 1 ∧ (j = i ∧ z = y ∨ j ≠ i ∧ l[j]? = some z) := by
    intro j z hz
    rw [getElem?_swapRemoveAt hi, hy, Option.some.injEq, eq_comm (a := y)] at hz
    exact ⟨by omega, hz.2⟩
  refine
    { lanesOnly := ?_, value := ?_, beyond := ?_, position := ?_, absent := ?_,
      length_eq := ?_, bound := ?_, nodup := nodup_swapRemoveAt hi h.nodup }
  · refine LanesOnly.setLane (perSlot_pos α) ?_ (lanes_fit α)
    unfold afterMove
    split
    · exact h.lanesOnly
    · exact h.lanesOnly.setLane (perSlot_pos α) (lanes_fit α)
  · intro j z hz
    obtain ⟨hj, hcase⟩ := hold hz
    refine (getLane_setLane_of_ne (perSlot_pos α) (lanes_fit α) (by omega)).trans ?_
    rcases hcase with ⟨rfl, rfl⟩ | ⟨hji, hz⟩
    · rw [afterMove, if_neg (by omega)]
      exact getLane_setLane_self (perSlot_pos α) (lanes_fit α) fun _ => toWord_bits z
    · rw [getLane_afterMove (.inl hji)]
      exact h.value j z hz
  · intro j hj
    by_cases hlast : j = l.length - 1
    · rw [hlast]
      exact getLane_setLane_self (perSlot_pos α) (lanes_fit α) fun _ _ => BitVec.getLsbD_zero
    · refine (getLane_setLane_of_ne (perSlot_pos α) (lanes_fit α) hlast).trans ?_
      rw [getLane_afterMove (.inl (by omega))]
      exact h.beyond j (by omega)
  · intro j z hz
    obtain ⟨hj, hcase⟩ := hold hz
    rcases hcase with ⟨rfl, rfl⟩ | ⟨hji, hz⟩
    · have hzx : z ≠ x := by
        rintro rfl
        have := hinj hx hy
        omega
      refine (update_of_ne hzx _ _).trans ?_
      rw [afterMove, if_neg (by omega)]
      exact update_self _ _ _
    · have hzx : z ≠ x := by
        rintro rfl
        exact hji (hinj hz hx)
      have hzy : z ≠ y := by
        rintro rfl
        have := hinj hz hy
        omega
      refine (update_of_ne hzx _ _).trans ?_
      rw [positions_afterMove (.inl hzy)]
      exact h.position j z hz
  · intro z hz
    rw [mem_swapRemoveAt h.nodup hx, not_and] at hz
    by_cases hzx : z = x
    · rw [hzx]
      exact update_self _ _ _
    · have hzl := hz hzx
      have hzy : z ≠ y := by
        rintro rfl
        exact hzl (List.mem_of_getElem? hy)
      refine (update_of_ne hzx _ _).trans ?_
      rw [positions_afterMove (.inl hzy)]
      exact h.absent z hzl
  · rw [hlen]
    rfl
  · have := h.bound
    omega

/-- A present value is removed and the last one takes its place. -/
theorem Rep.yields_remove (h : Rep s l) (hx : l[i]? = some x) :
    ∃ s', Yields (remove x) s true s' ∧ Rep s' (swapRemoveAt l i) := by
  have hi := (List.getElem?_eq_some_iff.mp hx).1
  obtain ⟨y, hy⟩ : ∃ y, l[l.length - 1]? = some y := ⟨_, List.getElem?_eq_getElem (by omega)⟩
  refine ⟨_, ?_, h.afterRemove hx hy⟩
  rw [remove, (h.yields_readPosition hx).bind_iff, if_neg (Nat.succ_ne_zero i),
    swapAndPop, h.yields_len.bind_iff, checkedSub, if_pos (by omega)]
  simp only [yields_orFail_bind, Option.some.injEq, exists_eq_left', Nat.add_sub_cancel]
  have hmove : Yields (if i ≠ l.length - 1 then moveLast i (l.length - 1) (i + 1) else pure ⟨⟩) s ⟨⟩
      (afterMove s i (l.length - 1) y) := by
    by_cases hlast : i = l.length - 1
    · rw [if_neg (not_not.mpr hlast), afterMove, if_pos hlast]
      exact yields_pure.mpr ⟨rfl, rfl⟩
    · rw [if_pos hlast, afterMove, if_neg hlast, moveLast,
        (h.yields_readValue hy).bind_iff, writePosition, yields_updates_bind]
      exact yields_writeValue _ _
  refine yields_when_bind.mpr ⟨_, hmove, ?_⟩
  rw [(yields_deleteValue _).bind_iff]
  simp only [setLen, deletePosition, yields_steps, true_and]
  rfl

/-! Replacing and clearing the whole set. -/

/-- While positions are cleared, those left belong to values at the indices
still to come. -/
structure ClearingPositions (s : SetStorage α) (l : List α)
    (todo : List Nat) (t : SetStorage α) : Prop where
  data_eq : t.data = s.data
  length_eq : t.length = s.length
  left : ∀ x, t.positions x ≠ 0 → ∃ i ∈ todo, l[i]? = some x
  inside : ∀ i ∈ todo, i < l.length

theorem ClearingPositions.step {todo : List Nat} {t : SetStorage α}
    (ht : ClearingPositions s l (i :: todo) t) (h : Rep s l) :
    ∃ t', Yields (clearPositionAt i) t ⟨⟩ t' ∧ ClearingPositions s l todo t' := by
  obtain ⟨x, hx⟩ : ∃ x, l[i]? = some x := ⟨_, List.getElem?_eq_getElem (ht.inside i (.head _))⟩
  have hread : Yields (readValue i) t x t := by
    simp only [readValue, yields_steps, loadElement_eq, ht.data_eq, h.value i x hx, fromWord_toWord,
      true_and]
  refine ⟨_, hread.bind_iff.mpr (yields_updates.mpr rfl),
    ht.data_eq, ht.length_eq, ?_, fun j hj => ht.inside j (.tail _ hj)⟩
  intro y hy
  have hne : y ≠ x := by
    rintro rfl
    exact hy (update_self _ _ _)
  dsimp only at hy
  rw [update_of_ne hne] at hy
  obtain ⟨j, hj, hjy⟩ := ht.left y hy
  rcases List.mem_cons.mp hj with rfl | hj
  · rw [hx] at hjy
    cases hjy
    exact absurd rfl hne
  · exact ⟨j, hj, hjy⟩

/-- The loop that clears the position of every value. -/
theorem Rep.yields_clearPositions (h : Rep s l) :
    Yields ((List.range l.length).forM clearPositionAt) s ⟨⟩
      { s with positions := fun _ => 0 } := by
  have hstart : ClearingPositions s l (List.range l.length) s := by
    refine ⟨rfl, rfl, fun x hx => ?_, fun i hi => List.mem_range.mp hi⟩
    have hmem : x ∈ l := by
      by_contra habsent
      exact hx (h.absent x habsent)
    obtain ⟨i, hi⟩ := List.getElem?_of_mem hmem
    have hlt := (List.getElem?_eq_some_iff.mp hi).1
    exact ⟨i, List.mem_range.mpr hlt, hi⟩
  obtain ⟨⟨length, data, positions⟩, hrun, hend⟩ := exists_yields_forM
    (I := ClearingPositions s l) (fun _ _ _ ht => ht.step h) hstart
  have hzero : positions = fun _ => 0 := funext fun x => by
    by_contra hx
    obtain ⟨i, hi, _⟩ := hend.left x hx
    cases hi
  have hdata : data = s.data := hend.data_eq
  have hlength : length = s.length := hend.length_eq
  rwa [hzero, hdata, hlength] at hrun

/-- The loop that writes new values over the old ones. -/
theorem Holds.yields_writeValues {done : List α} (h : Holds s done rest)
    (hnodup : (done ++ values).Nodup) (hbound : (done ++ values).length ≤ maxWord 32) :
    ∃ s', Yields (writeValues done.length values) s ⟨⟩ s' ∧ Holds s' (done ++ values) rest := by
  induction values generalizing s done with
  | nil =>
    rw [List.append_nil]
    exact ⟨s, yields_pure.mpr ⟨rfl, rfl⟩, h⟩
  | cons x values ih =>
    have hsplit : done ++ x :: values = (done ++ [x]) ++ values := by simp
    have hx : x ∉ done := fun hmem =>
      (List.nodup_append.mp hnodup).2.2 x hmem x (.head _) rfl
    have hlt : done.length < maxWord 32 := by
      rw [List.length_append, List.length_cons] at hbound
      omega
    rw [hsplit] at hnodup hbound ⊢
    obtain ⟨s', hrun, hholds⟩ := ih (h.append hx) hnodup hbound
    refine ⟨s', ?_, hholds⟩
    rw [List.length_append, List.length_singleton] at hrun
    rw [writeValues, (yields_checkedPosition hlt).bind_iff, writePosition,
      yields_updates_bind, (yields_writeValue _ _).bind_iff]
    exact hrun

omit [DecidableEq α] in
/-- The loop that clears the lanes of a longer old set. -/
theorem Holds.yields_deleteValues {oldLen : Nat} (h : Holds s l rest)
    (hrest : ∀ i, oldLen ≤ i → rest i = 0) :
    ∃ s', Yields ((List.range' l.length (oldLen - l.length)).forM deleteValue) s ⟨⟩ s' ∧
      s'.length = s.length ∧ Holds s' l fun _ => 0 := by
  obtain ⟨s', hrun, hlength, rest', hend, hzero, _⟩ := exists_yields_forM
    (I := fun todo (t : SetStorage α) => t.length = s.length ∧
      ∃ rest', Holds t l rest' ∧ (∀ i, l.length ≤ i → i ∉ todo → rest' i = 0) ∧
        ∀ i ∈ todo, l.length ≤ i) (f := deleteValue) (s := s)
    (l := List.range' l.length (oldLen - l.length))
    (fun i todo t ⟨hlength, rest', ht, hzero, hinside⟩ => by
      have hi := hinside i (.head _)
      refine ⟨_, yields_deleteValue i, hlength,
        update rest' i 0, ⟨?_, ?_, ?_, ht.position, ht.absent⟩, ?_,
        fun j hj => hinside j (.tail _ hj)⟩
      · exact ht.lanesOnly.setLane (perSlot_pos α) (lanes_fit α)
      · intro j x hx
        have hj := (List.getElem?_eq_some_iff.mp hx).1
        exact (getLane_setLane_of_ne (perSlot_pos α) (lanes_fit α)
          (by omega)).trans (ht.value j x hx)
      · intro j hj
        by_cases hji : j = i
        · rw [hji, update_self]
          exact getLane_setLane_self (perSlot_pos α) (lanes_fit α) fun _ _ => BitVec.getLsbD_zero
        · rw [update_of_ne hji]
          exact (getLane_setLane_of_ne (perSlot_pos α) (lanes_fit α) hji).trans (ht.beyond j hj)
      · intro j hj htodo
        by_cases hji : j = i
        · rw [hji, update_self]
        · rw [update_of_ne hji]
          refine hzero j hj fun hmem => ?_
          exact (List.mem_cons.mp hmem).elim hji htodo)
    ⟨rfl, rest, h, fun i hi htodo => hrest i (by
      rw [List.mem_range'_1] at htodo
      omega), fun i hi => (List.mem_range'_1.mp hi).1⟩
  refine ⟨s', hrun, hlength, hend.lanesOnly, hend.value, fun i hi => ?_, hend.position, hend.absent⟩
  rw [hend.beyond i hi, hzero i hi List.not_mem_nil]

/-- A bulk write of a set that fits replaces the values. -/
theorem Rep.yields_write (h : Rep s l) (set : ValueSet α)
    (hbound : set.values.length ≤ maxWord 32) :
    ∃ s', Yields (write set) s ⟨⟩ s' ∧ Rep s' set.values := by
  have hcleared : Holds { s with positions := fun _ => 0 } ([] : List α)
      (getLane (laneBits α) (perSlot α) s.data) :=
    ⟨h.lanesOnly, nofun, fun _ _ => rfl, nofun, fun _ _ => rfl⟩
  have hnodup : ([] ++ set.values).Nodup := by simpa using set.nodup
  obtain ⟨s1, hwrite, h1⟩ := hcleared.yields_writeValues hnodup (by simpa using hbound)
  have h2 : Holds { s1 with length := BitVec.ofNat 256 set.values.length }
      set.values (getLane (laneBits α) (perSlot α) s.data) :=
    ⟨h1.lanesOnly, h1.value, h1.beyond, h1.position, h1.absent⟩
  obtain ⟨s2, hdelete, hlength, h3⟩ := h2.yields_deleteValues h.beyond
  refine ⟨s2, ?_, { h3 with length_eq := hlength, bound := hbound, nodup := set.nodup }⟩
  rw [write, writeUnchecked, h.yields_len.bind_iff, h.yields_clearPositions.bind_iff]
  exact hwrite.bind_iff.mpr hdelete

/-- A bulk write succeeds for sets that fit only. -/
theorem writeValues_bound (hn : n ≤ maxWord 32)
    (h : Yields (writeValues n values) s u s') : n + values.length ≤ maxWord 32 := by
  induction values generalizing s n with
  | nil => simpa using hn
  | cons x values ih =>
    simp only [writeValues, checkedPosition, yields_orFail_bind,
      Option.bind_eq_some_iff, tryInto_eq_some, checkedAdd_eq_some] at h
    obtain ⟨position, ⟨i, ⟨_, rfl⟩, hle, _⟩, h⟩ := h
    obtain ⟨_, s1, _, h⟩ := h.bind
    obtain ⟨_, s2, _, h⟩ := h.bind
    have := ih hle h
    rw [List.length_cons]
    omega

theorem Rep.write_bound (h : Rep s l) {set : ValueSet α}
    (hrun : Yields (write set) s u s') : set.values.length ≤ maxWord 32 := by
  rw [write, writeUnchecked, h.yields_len.bind_iff, h.yields_clearPositions.bind_iff] at hrun
  obtain ⟨_, s1, hwrite, _⟩ := hrun.bind
  simpa using writeValues_bound (Nat.zero_le _) hwrite

omit [Primitive α] [DecidableEq α] in
/-- The loop that clears the data slots. -/
theorem yields_clearSlots (h : ∀ j, s.data j ≠ 0 → j < n) :
    Yields ((List.range n).forM clearSlot) s ⟨⟩ { s with data := fun _ => 0 } := by
  obtain ⟨⟨length, data, positions⟩, hrun, hlength, hpositions, hleft⟩ :=
    exists_yields_forM (s := s) (l := List.range n) (f := clearSlot)
      (I := fun todo t => t.length = s.length ∧ t.positions = s.positions ∧
        ∀ j, t.data j ≠ 0 → j ∈ todo) (by
        rintro slot todo t ⟨hlength, hpositions, hleft⟩
        refine ⟨_, yields_updates.mpr rfl, hlength, hpositions, fun j hj => ?_⟩
        have hne : j ≠ slot := by
          rintro rfl
          exact hj (update_self _ _ _)
        dsimp only at hj
        rw [update_of_ne hne] at hj
        exact (List.mem_cons.mp (hleft j hj)).resolve_left hne)
      ⟨rfl, rfl, fun j hj => List.mem_range.mpr (h j hj)⟩
  have hzero : data = fun _ => 0 := funext fun j => by
    by_contra hj
    cases hleft j hj
  dsimp only at hlength hpositions
  rwa [hzero, hlength, hpositions] at hrun

/-- Deleting the set leaves none of its slots in use. -/
theorem Rep.yields_delete (h : Rep s l) : Yields delete s ⟨⟩ blank := by
  have hdata : ∀ j, s.data j ≠ 0 → j < slotCount α l.length := by
    intro j hj
    by_contra hout
    refine hj (h.lanesOnly.eq_zero (lanes_fit α) fun i hi => h.beyond i ?_)
    by_contra hlt
    exact hout (hi ▸ slot_lt_slotCount (by omega))
  have hlen : Yields len (⟨s.length, s.data, fun _ => 0⟩ : SetStorage α)
      l.length ⟨s.length, s.data, fun _ => 0⟩ := SetHandler.yields_len h.length_eq h.bound
  rw [delete, h.yields_len.bind_iff, h.yields_clearPositions.bind_iff,
    deleteVec, hlen.bind_iff, setLen, yields_updates_bind]
  exact yields_clearSlots hdata

/-! What a run that succeeds has done, for callers that know only that. -/

theorem Rep.inserted (h : Rep s l) (hrun : Yields (insert x) s b s') :
    b = decide (x ∉ l) ∧ Rep s' (if x ∈ l then l else l ++ [x]) := by
  by_cases hx : x ∈ l
  · obtain ⟨rfl, rfl⟩ := hrun.det (h.yields_insert_present hx)
    simpa [hx]
  · obtain ⟨s1, hinsert, hrep⟩ := h.yields_insert hx (h.insert_room hx hrun)
    obtain ⟨rfl, rfl⟩ := hrun.det hinsert
    simpa [hx]

theorem Rep.removed (h : Rep s l) (hrun : Yields (remove x) s b s') :
    (x ∉ l ∧ b = false ∧ s' = s) ∨ ∃ i, l[i]? = some x ∧ b = true ∧ Rep s' (swapRemoveAt l i) := by
  by_cases hx : x ∈ l
  · obtain ⟨i, hi⟩ := List.getElem?_of_mem hx
    obtain ⟨s1, hremove, hrep⟩ := h.yields_remove hi
    obtain ⟨rfl, rfl⟩ := hrun.det hremove
    exact .inr ⟨i, hi, rfl, hrep⟩
  · obtain ⟨rfl, rfl⟩ := hrun.det (h.yields_remove_absent hx)
    exact .inl ⟨hx, rfl, rfl⟩

theorem Rep.written (h : Rep s l) (hnodup : values.Nodup)
    (hrun : Yields (writeUnchecked values) s u s') : Rep s' values := by
  have hwrite : Yields (write ⟨values, hnodup⟩) s u s' := hrun
  obtain ⟨s1, hset, hrep⟩ := h.yields_write ⟨values, hnodup⟩ (h.write_bound hwrite)
  obtain ⟨-, rfl⟩ := hwrite.det hset
  exact hrep

omit [DecidableEq α] in
theorem Rep.yields_isEmpty (h : Rep s l) : Yields isEmpty s (decide (l = [])) s := by
  rw [isEmpty, h.yields_len.bind_iff]
  exact yields_pure.mpr ⟨decide_eq_decide.mpr List.length_eq_zero_iff, rfl⟩

end SetHandler

/-! Runs. -/

inductive SetCall (α : Type) where
  | insert (value : α)
  | remove (value : α)
  | write (set : ValueSet α)
  | delete

namespace SetCall

open SetHandler VecHandler

/-- The handler's answer, where it has one. -/
def exec [Primitive α] [DecidableEq α] : SetCall α → Exec (SetStorage α) (Option Bool)
  | insert value => do
    let changed ← SetHandler.insert value
    pure (some changed)
  | remove value => do
    let changed ← SetHandler.remove value
    pure (some changed)
  | write set => do
    SetHandler.write set
    pure none
  | delete => do
    SetHandler.delete
    pure none

variable [DecidableEq α]

/-- What the call means for a finite set. -/
def apply : SetCall α → Finset α → Finset α
  | insert value, S => Insert.insert value S
  | remove value, S => S.erase value
  | write set, _ => set.values.toFinset
  | delete, _ => ∅

/-- Whether the call changes the set, for the calls that say so. -/
def changed (c : SetCall α) (S : Finset α) : Option Bool :=
  match c with
  | insert _ | remove _ => some (decide (c.apply S ≠ S))
  | write _ | delete => none

/-- The finite set and the answers after a sequence of calls. -/
def replay : List (SetCall α) → Finset α → List (Option Bool) × Finset α
  | [], S => ([], S)
  | c :: calls, S =>
    let next := replay calls (c.apply S)
    (c.changed S :: next.1, next.2)

variable [Primitive α]

/-- One call on a represented set does what it means. -/
theorem exec_rep {s s' : SetStorage α} {c : SetCall α}
    {answer : Option Bool} (h : Rep s l) (hrun : Yields c.exec s answer s') :
    answer = c.changed l.toFinset ∧ ∃ l', Rep s' l' ∧ l'.toFinset = c.apply l.toFinset := by
  cases c with
  | insert x =>
    obtain ⟨b, s1, hinsert, hrun⟩ := hrun.bind
    obtain ⟨rfl, rfl⟩ := hrun.pure
    obtain ⟨rfl, hrep⟩ := h.inserted hinsert
    refine ⟨by simp [changed, apply], _, hrep, ?_⟩
    by_cases hx : x ∈ l
    · simp [apply, hx]
    · ext y
      simp [apply, hx]
  | remove x =>
    obtain ⟨b, s1, hremove, hrun⟩ := hrun.bind
    obtain ⟨rfl, rfl⟩ := hrun.pure
    rcases h.removed hremove with ⟨hx, rfl, rfl⟩ | ⟨i, hi, rfl, hrep⟩
    · exact ⟨by simp [changed, apply, hx], l, h, by simp [apply, hx]⟩
    · refine ⟨by simp [changed, apply, List.mem_of_getElem? hi], _, hrep, ?_⟩
      ext y
      simp [apply, mem_swapRemoveAt h.nodup hi]
  | write set =>
    obtain ⟨u, s1, hwrite, _⟩ := hrun.bind
    obtain ⟨s2, hrun2, hrep⟩ := h.yields_write set (h.write_bound hwrite)
    rw [exec, hrun2.bind_iff, yields_pure] at hrun
    obtain ⟨rfl, rfl⟩ := hrun
    exact ⟨rfl, set.values, hrep, rfl⟩
  | delete =>
    rw [exec, h.yields_delete.bind_iff, yields_pure] at hrun
    obtain ⟨rfl, rfl⟩ := hrun
    exact ⟨rfl, [], rep_blank, rfl⟩

theorem run_rep {calls : List (SetCall α)} {s s' : SetStorage α}
    {answers : List (Option Bool)} (h : Rep s l) (hrun : Yields (calls.mapM exec) s answers s') :
    answers = (replay calls l.toFinset).1 ∧
      ∃ l', Rep s' l' ∧ l'.toFinset = (replay calls l.toFinset).2 := by
  induction calls generalizing s l answers with
  | nil =>
    obtain ⟨rfl, rfl⟩ := hrun.pure
    exact ⟨rfl, l, h, rfl⟩
  | cons c calls ih =>
    rw [List.mapM_cons] at hrun
    obtain ⟨answer, s1, hfirst, hrun⟩ := hrun.bind
    obtain ⟨rest, s2, hrest, hrun⟩ := hrun.bind
    obtain ⟨rfl, rfl⟩ := hrun.pure
    obtain ⟨rfl, l1, hrep1, hset1⟩ := exec_rep h hfirst
    obtain ⟨rfl, l2, hrep2, hset2⟩ := ih hrep1 hrest
    rw [hset1] at hset2 ⊢
    exact ⟨rfl, l2, hrep2, hset2⟩

/-- After any calls on a fresh set the answers are those of the finite set
they mean, and the slots are that set: the stored list has no duplicates,
membership and positions agree with it, an empty set uses no slot, deleting it
clears every slot, and neither removal nor, below the capacity, insertion can
fail. -/
theorem handler_refines {calls : List (SetCall α)} {s : SetStorage α} {answers : List (Option Bool)}
    (hrun : Yields (calls.mapM exec) blank answers s) :
    answers = (replay calls ∅).1 ∧ ∃ l : List α, Yields read s l s ∧ l.Nodup ∧
      l.toFinset = (replay calls ∅).2 ∧ (∀ x, Yields (contains x) s (decide (x ∈ l)) s) ∧
      (∀ i x, l[i]? = some x → (s.positions x).toNat = i + 1) ∧ (∀ x, x ∉ l → s.positions x = 0) ∧
      (l = [] → s = blank) ∧ Yields SetHandler.delete s ⟨⟩ blank ∧
      (∀ x, Runs (SetHandler.remove x) s) ∧
      (∀ x, l.length < maxIndex α → Runs (SetHandler.insert x) s) := by
  obtain ⟨hanswers, l, hrep, hset⟩ := run_rep rep_blank hrun
  refine ⟨hanswers, l, hrep.yields_read, hrep.nodup, hset,
    hrep.yields_contains, ?_, hrep.absent, ?_, hrep.yields_delete, ?_, ?_⟩
  · intro i x hx
    rw [hrep.position i x hx, toNat_ofNat_of_le (hrep.position_le hx)]
  · rintro rfl
    exact hrep.eq_blank
  · intro x
    by_cases hx : x ∈ l
    · obtain ⟨i, hi⟩ := List.getElem?_of_mem hx
      obtain ⟨s', hremove, _⟩ := hrep.yields_remove hi
      exact ⟨true, s', hremove⟩
    · exact ⟨false, s, hrep.yields_remove_absent hx⟩
  · intro x hroom
    by_cases hx : x ∈ l
    · exact ⟨false, s, hrep.yields_insert_present hx⟩
    · obtain ⟨s', hinsert, _⟩ := hrep.yields_insert hx hroom
      exact ⟨true, s', hinsert⟩

/-- Packed selectors: two insertions, a repeated one, a removal that moves
the last value, and a bulk write. -/
theorem handler_refines_selectors :
    ∃ s : SetStorage Selector, Yields ([insert 1, insert 2, insert 1, remove 1,
        write ⟨[5, 2, 9], by decide⟩, remove 5].mapM exec) blank
        [some true, some true, some false, some true, none, some true] s ∧
      ∃ l, Yields read s l s ∧ l.Nodup ∧ l.toFinset = {2, 9} := by
  obtain ⟨answers, hrun⟩ := exists_yields_finalState (m := [insert 1, insert 2, insert 1, remove 1,
      write ⟨[5, 2, 9], by decide⟩, remove (5 : Selector)].mapM exec)
    (s := blank) (by decide +kernel)
  obtain ⟨hanswers, l, hread, hnodup, hset, _⟩ := handler_refines hrun
  have hlist : answers = [some true, some true, some false, some true, none, some true] :=
    hanswers.trans (by decide)
  rw [hlist] at hrun
  exact ⟨_, hrun, l, hread, hnodup, hset.trans (by decide)⟩

end SetCall

end Tempo
