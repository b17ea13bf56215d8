/-
Maps over a linearly ordered key, kept as a list of entries in key order.  The
order is a field, so the entries below a bound are always a first part of the
list and the greatest of them is the last entry of that part.
-/
import Mathlib.Data.List.MinMax
import Mathlib.Data.List.Pairwise

namespace Tempo

open List

universe u v

/-- In a list of increasing keys the last entry has the greatest key. -/
theorem argmax_eq_getLast? {κ : Type u} [LinearOrder κ] {α : Type v}
    {key : α → κ} {l : List α} (h : l.Pairwise fun x y => key x < key y) :
    l.argmax key = l.getLast? := by
  rcases l.eq_nil_or_concat' with rfl | ⟨init, x, rfl⟩
  · rfl
  · rw [argmax_concat, getLast?_concat]
    cases hinit : init.argmax key with
    | none => rfl
    | some c =>
      have hlt : key c < key x := (pairwise_append.mp h).2.2 c (argmax_mem hinit) x mem_cons_self
      exact if_pos hlt

structure SortedMap (κ : Type u) [LinearOrder κ] (α : Type v) where
  entries : List (κ × α)
  sorted : entries.Pairwise fun x y => x.1 < y.1

namespace SortedMap

variable {κ : Type u} [LinearOrder κ] {α : Type v}

def empty : SortedMap κ α :=
  ⟨[], List.Pairwise.nil⟩

def values (m : SortedMap κ α) : List α :=
  m.entries.map Prod.snd

def get? (m : SortedMap κ α) (k : κ) : Option α :=
  (m.entries.find? fun e => e.1 = k).map Prod.snd

/-- The entry with the greatest key. -/
def lastKeyValue (m : SortedMap κ α) : Option (κ × α) :=
  m.entries.getLast?

/-- The entry with the greatest key at or below `k`. -/
def floor (m : SortedMap κ α) (k : κ) : Option (κ × α) :=
  (m.entries.filter fun e => e.1 ≤ k).getLast?

/-- The entry with the greatest key below `k`. -/
def below (m : SortedMap κ α) (k : κ) : Option (κ × α) :=
  (m.entries.filter fun e => e.1 < k).getLast?

def insertEntry (k : κ) (v : α) : List (κ × α) → List (κ × α)
  | [] => [(k, v)]
  | e :: rest =>
    if k < e.1 then (k, v) :: e :: rest
    else if k = e.1 then (k, v) :: rest
    else e :: insertEntry k v rest

variable {k : κ} {v : α} {l : List (κ × α)} {e : κ × α} {m : SortedMap κ α}

theorem mem_insertEntry (h : e ∈ insertEntry k v l) : e = (k, v) ∨ e ∈ l := by
  induction l with
  | nil => exact .inl (mem_singleton.mp h)
  | cons e' rest ih =>
    rw [insertEntry] at h
    split_ifs at h with hlt heq
    · exact mem_cons.mp h
    · exact (mem_cons.mp h).imp_right (mem_cons_of_mem e')
    · rcases mem_cons.mp h with rfl | h
      · exact .inr mem_cons_self
      · exact (ih h).imp_right (mem_cons_of_mem e')

/-- Entries under other keys stay. -/
theorem mem_insertEntry_of_ne (h : e ∈ l) (hne : e.1 ≠ k) : e ∈ insertEntry k v l := by
  induction l with
  | nil => exact absurd h not_mem_nil
  | cons e' rest ih =>
    rw [insertEntry]
    split_ifs with hlt heq
    · exact mem_cons_of_mem _ h
    · rcases mem_cons.mp h with rfl | hrest
      · exact absurd heq.symm hne
      · exact mem_cons_of_mem _ hrest
    · rcases mem_cons.mp h with rfl | hrest
      · exact mem_cons_self
      · exact mem_cons_of_mem _ (ih hrest)

theorem pairwise_insertEntry (h : l.Pairwise fun x y => x.1 < y.1) :
    (insertEntry k v l).Pairwise fun x y => x.1 < y.1 := by
  induction l with
  | nil => exact pairwise_singleton _ _
  | cons e rest ih =>
    obtain ⟨hhead, hrest⟩ := pairwise_cons.mp h
    rw [insertEntry]
    split_ifs with hlt heq
    · refine pairwise_cons.mpr ⟨fun x hx => ?_, h⟩
      rcases mem_cons.mp hx with rfl | hx
      · exact hlt
      · exact hlt.trans (hhead x hx)
    · refine pairwise_cons.mpr ⟨fun x hx => ?_, hrest⟩
      exact heq.trans_lt (hhead x hx)
    · refine pairwise_cons.mpr ⟨fun x hx => ?_, ih hrest⟩
      rcases mem_insertEntry hx with rfl | hx
      · exact lt_of_le_of_ne (not_lt.mp hlt) (Ne.symm heq)
      · exact hhead x hx

def insert (m : SortedMap κ α) (k : κ) (v : α) : SortedMap κ α :=
  ⟨insertEntry k v m.entries, pairwise_insertEntry m.sorted⟩

def retain (m : SortedMap κ α) (p : κ → Bool) : SortedMap κ α :=
  ⟨m.entries.filter fun e => p e.1, m.sorted.filter _⟩

@[simp]
theorem entries_empty : (empty : SortedMap κ α).entries = [] := rfl

@[simp]
theorem entries_retain (m : SortedMap κ α) (p : κ → Bool) :
    (m.retain p).entries = m.entries.filter fun e => p e.1 := rfl

/-- A key above all others goes to the end. -/
theorem insertEntry_of_lt (h : ∀ e ∈ l, e.1 < k) : insertEntry k v l = l ++ [(k, v)] := by
  induction l with
  | nil => rfl
  | cons e rest ih =>
    have he : e.1 < k := h e mem_cons_self
    rw [insertEntry, if_neg he.le.not_gt, if_neg he.ne',
      ih fun x hx => h x (mem_cons_of_mem e hx), cons_append]

theorem entries_insert_of_lt (h : ∀ e ∈ m.entries, e.1 < k) :
    (m.insert k v).entries = m.entries ++ [(k, v)] := insertEntry_of_lt h

theorem get?_eq_some : m.get? k = some v ↔ (k, v) ∈ m.entries := by
  obtain ⟨l, hl⟩ := m
  change (l.find? fun e => e.1 = k).map Prod.snd = some v ↔ (k, v) ∈ l
  induction l with
  | nil => simp
  | cons e rest ih =>
    obtain ⟨hhead, hrest⟩ := pairwise_cons.mp hl
    rw [find?_cons]
    by_cases hk : e.1 = k
    · have hout : (k, v) ∉ rest := fun hmem =>
        (hhead _ hmem).ne hk
      subst hk
      simp [hout, Prod.ext_iff, eq_comm]
    · have hne : (k, v) ≠ e := fun he => hk (he ▸ rfl)
      simp only [hk, decide_false, mem_cons, hne, false_or]
      exact ih hrest

theorem mem_insertEntry_self (k : κ) (v : α) (l : List (κ × α)) : (k, v) ∈ insertEntry k v l := by
  induction l with
  | nil => exact mem_singleton_self _
  | cons e rest ih =>
    rw [insertEntry]
    split_ifs
    · exact mem_cons_self
    · exact mem_cons_self
    · exact mem_cons_of_mem e ih

theorem get?_insert (m : SortedMap κ α) (k j : κ) (v : α) :
    (m.insert k v).get? j = if j = k then some v else m.get? j := by
  split_ifs with hj
  · subst hj
    exact get?_eq_some.mpr (mem_insertEntry_self j v m.entries)
  · ext w
    rw [get?_eq_some, get?_eq_some]
    constructor
    · intro h
      rcases mem_insertEntry h with heq | hold
      · exact absurd (congrArg Prod.fst heq) hj
      · exact hold
    · intro h
      exact mem_insertEntry_of_ne h hj

/-- Every key is at or below the last one. -/
theorem le_last (h : m.lastKeyValue = some (k, v)) (he : e ∈ m.entries) : e.1 ≤ k := by
  obtain ⟨init, hinit⟩ := getLast?_eq_some_iff.mp h
  rw [hinit] at he
  rcases mem_append.mp he with he | he
  · have hsorted := m.sorted
    rw [hinit] at hsorted
    exact ((pairwise_append.mp hsorted).2.2 e he _ mem_cons_self).le
  · rw [mem_singleton.mp he]

/-- A bound splits the entries into those below it and the rest. -/
theorem entries_split (m : SortedMap κ α) (k : κ) :
    m.entries = m.entries.filter (fun e => e.1 < k) ++ m.entries.filter (fun e => k ≤ e.1) := by
  obtain ⟨l, hl⟩ := m
  induction l with
  | nil => rfl
  | cons e rest ih =>
    obtain ⟨hhead, hrest⟩ := pairwise_cons.mp hl
    by_cases hk : e.1 < k
    · have hup : ¬k ≤ e.1 := hk.not_ge
      simpa [hk, hup] using ih hrest
    · have hle : k ≤ e.1 := not_lt.mp hk
      have habove : ∀ x ∈ rest, k ≤ x.1 := fun x hx =>
        hle.trans (hhead x hx).le
      have hnone : rest.filter (fun e => e.1 < k) = [] := filter_eq_nil_iff.mpr fun x hx => by
          simpa using habove x hx
      have hall : rest.filter (fun e => k ≤ e.1) = rest :=
        filter_eq_self.mpr fun x hx => by simpa using habove x hx
      simp [hk, hle, hnone, hall]

theorem mem_of_floor (h : m.floor k = some e) : e ∈ m.entries ∧ e.1 ≤ k := by
  have hmem := mem_filter.mp (mem_of_getLast? h)
  exact ⟨hmem.1, of_decide_eq_true hmem.2⟩

theorem mem_of_below (h : m.below k = some e) : e ∈ m.entries ∧ e.1 < k := by
  have hmem := mem_filter.mp (mem_of_getLast? h)
  exact ⟨hmem.1, of_decide_eq_true hmem.2⟩

theorem below_eq_none :
    m.below k = none ↔ m.entries.filter (fun e => e.1 < k) = [] := getLast?_eq_none_iff

/-- The entry at a key that is kept as a lower bound comes first. -/
theorem head?_filter_ge (h : (k, v) ∈ m.entries) :
    (m.entries.filter fun e => k ≤ e.1).head? = some (k, v) := by
  have hmem : (k, v) ∈ m.entries.filter fun e => k ≤ e.1 := mem_filter.mpr ⟨h, by simp⟩
  have hsorted := m.sorted.filter fun e => k ≤ e.1
  cases hlist : m.entries.filter fun e => k ≤ e.1 with
  | nil => simp [hlist] at hmem
  | cons e rest =>
    rw [hlist] at hmem hsorted
    have hle : k ≤ e.1 := by
      have he : e ∈ m.entries.filter fun e => k ≤ e.1 := hlist ▸ mem_cons_self
      simpa using (mem_filter.mp he).2
    rcases mem_cons.mp hmem with heq | hrest
    · rw [heq]
      rfl
    · have hlt := (pairwise_cons.mp hsorted).1 _ hrest
      exact absurd hle hlt.not_ge

end SortedMap

end Tempo
