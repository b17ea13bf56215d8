/-
Lists of entries with distinct keys, read as finite maps: replacing or adding
an entry inserts its key, dropping an entry erases it.
-/
import Mathlib.Data.Finmap

namespace KeyedList

open Function List

universe u v w

variable {ι : Type u} {κ : Type v} {V : Type w} [DecidableEq κ]

/-- Creates or replaces an entry; one that is there keeps its place. -/
def upsert (key : ι → κ) (l : List ι) (x : ι) : List ι :=
  if key x ∈ l.map key then
    l.map fun y => if key y = key x then x else y
  else l ++ [x]

/-- The finite map a list of entries describes. -/
def table (key : ι → κ) (val : ι → V) (l : List ι) : Finmap fun _ : κ => V :=
  (l.map fun x => (⟨key x, val x⟩ : Sigma fun _ : κ => V)).toFinmap

variable {key : ι → κ} {val : ι → V} {l l' : List ι} {x : ι} {k : κ}

theorem map_key_upsert : (upsert key l x).map key =
      if key x ∈ l.map key then l.map key else l.map key ++ [key x] := by
  unfold upsert
  split
  next =>
    rw [map_map]
    refine map_congr_left fun y _ => ?_
    change key (if key y = key x then x else y) = _
    split
    next heq => exact heq.symm
    next => rfl
  next => rw [map_append, map_singleton]

theorem nodup_upsert (h : (l.map key).Nodup) : ((upsert key l x).map key).Nodup := by
  rw [map_key_upsert]
  split
  next => exact h
  next hout =>
    refine nodup_append.mpr ⟨h, nodup_singleton _, ?_⟩
    rintro a ha b hb rfl
    exact hout (mem_singleton.mp hb ▸ ha)

theorem mem_upsert {y : ι} : y ∈ upsert key l x ↔ y = x ∨ (y ∈ l ∧ key y ≠ key x) := by
  unfold upsert
  split
  next hmem =>
    rw [mem_map]
    constructor
    · rintro ⟨z, hz, rfl⟩
      split
      next => exact .inl rfl
      next hne => exact .inr ⟨hz, hne⟩
    · rintro (rfl | ⟨hy, hne⟩)
      · obtain ⟨z, hz, heq⟩ := mem_map.mp hmem
        exact ⟨z, hz, if_pos heq⟩
      · exact ⟨y, hy, if_neg hne⟩
  next hout =>
    rw [mem_append, mem_singleton, or_comm]
    refine or_congr_right (iff_self_and.mpr fun hy heq => hout ?_)
    exact heq ▸ mem_map_of_mem hy

/-- The node at an entry's key holds the entry, and all other nodes are blank. -/
structure Holds {ρ : Type w} (key : ι → κ) (R : ι → ρ → Prop) (blank : ρ) (l : List ι)
    (node : κ → ρ) : Prop where
  entry : ∀ x ∈ l, R x (node (key x))
  absent : ∀ k, k ∉ l.map key → node k = blank

section

variable {ρ : Type w} {R : ι → ρ → Prop} {blank r : ρ} {node : κ → ρ} (h : Holds key R blank l node)
include h

theorem Holds.forall {P : ρ → Prop} (hblank : P blank) (hentry : ∀ x r, R x r → P r) (k : κ) :
    P (node k) := by
  by_cases hmem : k ∈ l.map key
  · obtain ⟨x, hx, rfl⟩ := mem_map.mp hmem
    exact hentry x _ (h.entry x hx)
  · rwa [h.absent k hmem]

theorem Holds.upsert (hr : R x r) : Holds key R blank (upsert key l x) (update node (key x) r) where
  entry y hy := by
    rcases mem_upsert.mp hy with rfl | ⟨hold, hne⟩
    · rwa [update_self]
    · rw [update_of_ne hne]
      exact h.entry y hold
  absent k hout := by
    have hne : k ≠ key x := fun heq =>
      hout (heq ▸ mem_map_of_mem (mem_upsert.mpr (.inl rfl)))
    rw [update_of_ne hne]
    refine h.absent k fun hin => hout ?_
    obtain ⟨y, hy, rfl⟩ := mem_map.mp hin
    exact mem_map_of_mem (mem_upsert.mpr (.inr ⟨hy, hne⟩))

theorem Holds.erase (hmem : ∀ x, x ∈ l' ↔ key x ≠ k ∧ x ∈ l) :
    Holds key R blank l' (update node k blank) where
  entry x hx := by
    obtain ⟨hne, hold⟩ := (hmem x).mp hx
    rw [update_of_ne hne]
    exact h.entry x hold
  absent := by
    refine (forall_update_iff _ fun j r => j ∉ l'.map key → r = blank).mpr
      ⟨fun _ => rfl, fun j hne hout => h.absent j fun hin => hout ?_⟩
    obtain ⟨x, hx, rfl⟩ := mem_map.mp hin
    exact mem_map_of_mem ((hmem x).mpr ⟨hne, hx⟩)

end

/-- With distinct keys, a key is mapped to the value of its entry. -/
theorem lookup_table (h : (l.map key).Nodup) {v : V} :
    (table key val l).lookup k = some v ↔ ∃ x ∈ l, key x = k ∧ val x = v := by
  have hkeys : (l.map fun x =>
      (⟨key x, val x⟩ : Sigma fun _ : κ => V)).NodupKeys := by
    rw [List.NodupKeys, keys, map_map]
    exact h
  rw [table, Finmap.dlookup_list_toFinmap, ← Option.mem_def, mem_dlookup_iff hkeys, mem_map]
  simp

variable {m : Finmap fun _ : κ => V} {entries : List ι}

theorem table_ext (h : (l.map key).Nodup)
    (hm : ∀ k v, m.lookup k = some v ↔ ∃ x ∈ l, key x = k ∧ val x = v) : table key val l = m := by
  refine Finmap.ext_lookup fun k => Option.ext fun v => ?_
  rw [lookup_table h, hm]

theorem table_upsert (h : (l.map key).Nodup) :
    table key val (upsert key l x) = (table key val l).insert (key x) (val x) := by
  refine table_ext (nodup_upsert h) fun k v => ?_
  simp only [mem_upsert]
  by_cases hk : k = key x
  · subst hk
    rw [Finmap.lookup_insert, Option.some_inj]
    constructor
    · rintro rfl
      exact ⟨x, .inl rfl, rfl, rfl⟩
    · rintro ⟨y, rfl | ⟨-, hne⟩, heq, rfl⟩
      · rfl
      · exact absurd heq hne
  · rw [Finmap.lookup_insert_of_ne _ hk, lookup_table h]
    constructor
    · rintro ⟨y, hy, rfl, rfl⟩
      exact ⟨y, .inr ⟨hy, hk⟩, rfl, rfl⟩
    · rintro ⟨y, rfl | ⟨hy, -⟩, rfl, rfl⟩
      · exact absurd rfl hk
      · exact ⟨y, hy, rfl, rfl⟩

theorem table_foldl_upsert (h : (l.map key).Nodup) : table key val (entries.foldl (upsert key) l) =
      entries.foldl (fun m x => m.insert (key x) (val x)) (table key val l) := by
  induction entries generalizing l with
  | nil => rfl
  | cons x entries ih =>
    rw [foldl_cons, foldl_cons, ih (nodup_upsert h), table_upsert h]

theorem table_erase (h : (l.map key).Nodup) (h' : (l'.map key).Nodup)
    (hmem : ∀ x, x ∈ l' ↔ key x ≠ k ∧ x ∈ l) : table key val l' = (table key val l).erase k := by
  refine table_ext h' fun j v => ?_
  simp only [hmem]
  by_cases hj : j = k
  · subst hj
    rw [Finmap.lookup_erase]
    constructor
    · intro hv
      cases hv
    · rintro ⟨x, ⟨hne, -⟩, heq, -⟩
      exact absurd heq hne
  · rw [Finmap.lookup_erase_ne hj, lookup_table h]
    constructor
    · rintro ⟨x, hx, rfl, rfl⟩
      exact ⟨x, ⟨hj, hx⟩, rfl, rfl⟩
    · rintro ⟨x, ⟨-, hx⟩, rfl, rfl⟩
      exact ⟨x, hx, rfl, rfl⟩

/-- Inserting entries touches their own keys only. -/
theorem lookup_foldl_insert {v : V}
    (h : (entries.foldl (fun m x => m.insert (key x) (val x)) m).lookup k = some v) :
    (∃ x ∈ entries, key x = k ∧ val x = v) ∨ (m.lookup k = some v ∧ ∀ x ∈ entries, key x ≠ k) := by
  induction entries generalizing m with
  | nil => exact .inr ⟨h, nofun⟩
  | cons x entries ih =>
    rcases ih h with ⟨y, hy, hv⟩ | ⟨hm, hne⟩
    · exact .inl ⟨y, .tail _ hy, hv⟩
    by_cases hk : k = key x
    · subst hk
      rw [Finmap.lookup_insert, Option.some_inj] at hm
      exact .inl ⟨x, .head _, rfl, hm⟩
    · rw [Finmap.lookup_insert_of_ne _ hk] at hm
      refine .inr ⟨hm, fun y hy => ?_⟩
      rcases mem_cons.mp hy with rfl | hy
      · exact Ne.symm hk
      · exact hne y hy

end KeyedList
