import Mathlib.Data.List.Sort
import Mathlib.Order.Basic

/-!
# SortedMap — a map whose entries stand in the order of their keys

Two maps with the same entries are equal, and a map filled with its own entries, in their order, is
itself.  A set is a map to the unit type.
-/

namespace Muster

/-- Entries in strictly ascending order of their keys. -/
structure SortedMap (κ ν : Type) [LinearOrder κ] where
  entries : List (κ × ν)
  ascending : (entries.map Prod.fst).Pairwise (· < ·)

namespace SortedMap

variable {κ ν : Type} [LinearOrder κ] {entries : List (κ × ν)} {m : SortedMap κ ν}

instance [DecidableEq ν] : DecidableEq (SortedMap κ ν) := fun m n =>
  decidable_of_iff (m.entries = n.entries) (by cases m; cases n; simp)

def empty : SortedMap κ ν := ⟨[], List.Pairwise.nil⟩

def length (m : SortedMap κ ν) : ℕ := m.entries.length

def keys (m : SortedMap κ ν) : List κ := m.entries.map Prod.fst

def contains (m : SortedMap κ ν) (k : κ) : Bool := m.keys.contains k

/-- The entries with `k` set to `v`. -/
def insertEntry (k : κ) (v : ν) : List (κ × ν) → List (κ × ν)
  | [] => [(k, v)]
  | entry :: entries =>
    if k < entry.1 then (k, v) :: entry :: entries
    else if k = entry.1 then (k, v) :: entries
    else entry :: insertEntry k v entries

theorem mem_map_insertEntry {k k' : κ} {v : ν}
    (h : k' ∈ (insertEntry k v entries).map Prod.fst) : k' = k ∨ k' ∈ entries.map Prod.fst := by
  induction entries with
  | nil => exact .inl (List.mem_singleton.1 h)
  | cons entry entries ih =>
    rw [insertEntry] at h
    split at h
    · rwa [List.map_cons, List.mem_cons] at h
    · split at h
      · rw [List.map_cons, List.mem_cons] at h
        exact h.imp_right (List.mem_cons_of_mem _)
      · rw [List.map_cons, List.mem_cons] at h
        rcases h with h | h
        · exact .inr (h ▸ List.mem_cons_self)
        · exact (ih h).imp_right (List.mem_cons_of_mem _)

theorem ascending_insertEntry (k : κ) (v : ν) (h : (entries.map Prod.fst).Pairwise (· < ·)) :
    ((insertEntry k v entries).map Prod.fst).Pairwise (· < ·) := by
  induction entries with
  | nil => exact List.pairwise_singleton _ _
  | cons entry entries ih =>
    rw [List.map_cons, List.pairwise_cons] at h
    rw [insertEntry]
    split
    · next hlt =>
      refine List.pairwise_cons.2 ⟨fun k' hk' => ?_, List.pairwise_cons.2 h⟩
      rcases List.mem_cons.1 hk' with rfl | hk'
      · exact hlt
      · exact hlt.trans (h.1 k' hk')
    · next hlt =>
      split
      · next heq => exact List.pairwise_cons.2 ⟨heq ▸ h.1, h.2⟩
      · next hne =>
        refine List.pairwise_cons.2 ⟨fun k' hk' => ?_, ih h.2⟩
        rcases mem_map_insertEntry hk' with rfl | hk'
        · exact lt_of_le_of_ne (not_lt.1 hlt) (Ne.symm hne)
        · exact h.1 k' hk'

/-- The map with `k` set to `v`, in the place of any earlier value. -/
def insert (m : SortedMap κ ν) (k : κ) (v : ν) : SortedMap κ ν :=
  ⟨insertEntry k v m.entries, ascending_insertEntry k v m.ascending⟩

/-- The map of a list of entries, a later one in the place of an earlier one of its key. -/
def of (entries : List (κ × ν)) : SortedMap κ ν :=
  entries.foldl (fun m entry => m.insert entry.1 entry.2) empty

theorem insertEntry_of_lt {k : κ} {v : ν}
    (h : ∀ k' ∈ entries.map Prod.fst, k' < k) : insertEntry k v entries = entries ++ [(k, v)] := by
  induction entries with
  | nil => rfl
  | cons entry entries ih =>
    have hlt : entry.1 < k := h entry.1 List.mem_cons_self
    rw [insertEntry, if_neg hlt.not_gt, if_neg hlt.ne', ih fun k' hk' => h k' (List.mem_cons_of_mem _ hk')]
    rfl

theorem entries_insert {entry : κ × ν}
    (h : ((m.entries ++ entry :: entries).map Prod.fst).Pairwise (· < ·)) :
    (m.insert entry.1 entry.2).entries = m.entries ++ [entry] := by
  refine insertEntry_of_lt fun k' hk' => ?_
  rw [List.map_append, List.pairwise_append] at h
  exact h.2.2 k' hk' entry.1 List.mem_cons_self

theorem contains_eq_false {entry : κ × ν}
    (h : ((m.entries ++ entry :: entries).map Prod.fst).Pairwise (· < ·)) :
    m.contains entry.1 = false := by
  refine Bool.eq_false_iff.2 fun hmem => ?_
  rw [List.map_append, List.pairwise_append] at h
  exact lt_irrefl _ (h.2.2 entry.1 (List.contains_iff_mem.1 hmem) entry.1 List.mem_cons_self)

theorem foldl_insert (h : ((m.entries ++ entries).map Prod.fst).Pairwise (· < ·)) :
    (entries.foldl (fun m entry => m.insert entry.1 entry.2) m).entries = m.entries ++ entries := by
  induction entries generalizing m with
  | nil => exact (List.append_nil _).symm
  | cons entry entries ih =>
    have hinsert := entries_insert h
    rw [List.foldl_cons, ih (by rwa [hinsert, List.append_assoc]), hinsert, List.append_assoc]
    rfl

/-- A map filled with ascending entries holds them as they are. -/
theorem entries_of (h : (entries.map Prod.fst).Pairwise (· < ·)) :
    (of entries).entries = entries := foldl_insert h

theorem ext_entries {n : SortedMap κ ν} (h : m.entries = n.entries) : m = n := by
  cases m
  cases n
  cases h
  rfl

@[simp] theorem of_entries (m : SortedMap κ ν) : of m.entries = m := ext_entries (entries_of m.ascending)

end SortedMap

end Muster
