import Mathlib.Data.List.Sort
import Muster.Lib.Table

/-!
# NumberedRows — a keyed table whose rows stand in the order they were created

Each row has a number besides its key.  A new row takes the number one past the largest in the table; a
rewrite keeps the row's number, and so its place.  The rows stand in the order of their numbers.
-/

namespace Muster

/-- A row: its number, its key and what it carries. -/
structure Numbered (κ ρ : Type) where
  number : ℕ
  key : κ
  entry : ρ
deriving DecidableEq, Repr

/-- Rows in the order of their numbers, which are positive. -/
structure NumberedRows (κ ρ : Type) where
  table : Table fun row : Numbered κ ρ => row.key
  ascending : (table.rows.map Numbered.number).Pairwise (· < ·)
  positive : ∀ row ∈ table.rows, 0 < row.number

namespace NumberedRows

variable {κ ρ : Type} {t : NumberedRows κ ρ}

/-- The number of a new row: one past the largest. -/
def nextNumber (t : NumberedRows κ ρ) : ℕ := (t.table.rows.map Numbered.number).max?.getD 0 + 1

theorem lt_nextNumber {row : Numbered κ ρ} (h : row ∈ t.table.rows) : row.number < t.nextNumber := by
  have hmem : row.number ∈ t.table.rows.map Numbered.number := List.mem_map_of_mem h
  rw [nextNumber]
  cases hmax : (t.table.rows.map Numbered.number).max? with
  | none =>
    rw [List.max?_eq_none_iff.1 hmax] at hmem
    exact absurd hmem List.not_mem_nil
  | some largest => exact Nat.lt_succ_of_le ((List.max?_eq_some_iff.1 hmax).2 _ hmem)

theorem lt_nextNumber_iff {number : ℕ} (hpositive : 0 < number) :
    number < t.nextNumber ↔ ∃ row ∈ t.table.rows, number ≤ row.number := by
  refine ⟨fun hlt => ?_, fun ⟨row, hrow, hle⟩ => Nat.lt_of_le_of_lt hle (lt_nextNumber hrow)⟩
  rw [nextNumber] at hlt
  cases hmax : (t.table.rows.map Numbered.number).max? with
  | none =>
    rw [hmax, Option.getD_none] at hlt
    omega
  | some largest =>
    obtain ⟨row, hrow, rfl⟩ := List.mem_map.1 (List.max?_eq_some_iff.1 hmax).1
    rw [hmax, Option.getD_some] at hlt
    exact ⟨row, hrow, Nat.le_of_lt_succ hlt⟩

def deleteWhere (t : NumberedRows κ ρ) (p : Numbered κ ρ → Bool) : NumberedRows κ ρ where
  table := t.table.deleteWhere p
  ascending := t.ascending.sublist (List.filter_sublist.map _)
  positive := fun row hrow => t.positive row (List.mem_filter.1 hrow).1

variable [DecidableEq κ] {key : κ} {old : Numbered κ ρ}

def delete (t : NumberedRows κ ρ) (key : κ) : NumberedRows κ ρ := t.deleteWhere fun row => row.key = key

theorem map_number_replaced (h : old ∈ t.table.rows) (entry : ρ) :
    (t.table.replaced { old with entry }).map Numbered.number = t.table.rows.map Numbered.number := by
  rw [Table.replaced, List.map_map]
  refine List.map_congr_left fun row hrow => ?_
  by_cases hkey : row.key = old.key
  · have heq : row = old := List.inj_on_of_nodup_map t.table.keyed hrow h hkey
    subst heq
    show (if row.key = row.key then ({ row with entry } : Numbered κ ρ) else row).number = _
    rw [if_pos rfl]
  · exact congrArg Numbered.number (if_neg hkey)

/-- Writes an entry: a rewrite keeps its row's number, a new one goes last. -/
def put (t : NumberedRows κ ρ) (key : κ) (entry : ρ) : NumberedRows κ ρ :=
  match h : t.table.find key with
  | some old =>
    have hold := Table.find_eq_some.1 h
    { table := t.table.put { old with entry }
      ascending := by
        have hfind : t.table.find ({ old with entry } : Numbered κ ρ).key = some old := by
          rw [← h, ← hold.2]
        rw [Table.put_rows_of_some hfind, map_number_replaced hold.1]
        exact t.ascending
      positive := fun row hrow => by
        rcases Table.mem_put.1 hrow with rfl | ⟨hrow, -⟩
        · exact t.positive old hold.1
        · exact t.positive row hrow }
  | none =>
    { table := t.table.put ⟨t.nextNumber, key, entry⟩
      ascending := by
        rw [Table.put_rows_of_none h, List.map_append, List.map_singleton]
        refine List.pairwise_append.2 ⟨t.ascending, List.pairwise_singleton _ _, ?_⟩
        intro number hnumber last hlast
        obtain ⟨row, hrow, rfl⟩ := List.mem_map.1 hnumber
        rw [List.mem_singleton.1 hlast]
        exact lt_nextNumber hrow
      positive := fun row hrow => by
        rcases Table.mem_put.1 hrow with rfl | ⟨hrow, -⟩
        · exact Nat.succ_pos _
        · exact t.positive row hrow }

theorem put_of_some (h : t.table.find key = some old) (entry : ρ) :
    (t.put key entry).table = t.table.put { old with entry } := by
  unfold put
  split
  · next old' h' =>
    cases Option.some.inj (h.symm.trans h')
    rfl
  · next h' => cases h.symm.trans h'

theorem put_of_none (h : t.table.find key = none) (entry : ρ) :
    (t.put key entry).table = t.table.put ⟨t.nextNumber, key, entry⟩ := by
  unfold put
  split
  · next old h' => cases h.symm.trans h'
  · rfl

theorem find_put_of_some (h : t.table.find key = some old) (entry : ρ) :
    (t.put key entry).table.find key = some { old with entry } := by
  have hkey : ({ old with entry } : Numbered κ ρ).key = key := (Table.find_eq_some.1 h).2
  rw [put_of_some h, ← hkey]
  exact Table.find_put_self

theorem find_put_of_none (h : t.table.find key = none) (entry : ρ) :
    (t.put key entry).table.find key = some ⟨t.nextNumber, key, entry⟩ := by
  rw [put_of_none h]
  exact Table.find_put_self

theorem find_put_of_ne {other : κ} (h : other ≠ key) (entry : ρ) :
    (t.put key entry).table.find other = t.table.find other := by
  cases hfind : t.table.find key with
  | some old =>
    have hkey : ({ old with entry } : Numbered κ ρ).key = key := (Table.find_eq_some.1 hfind).2
    rw [put_of_some hfind]
    exact Table.find_put_of_ne (hkey ▸ h)
  | none =>
    rw [put_of_none hfind]
    exact Table.find_put_of_ne h

end NumberedRows

end Muster
