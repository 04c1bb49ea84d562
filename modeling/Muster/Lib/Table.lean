import Mathlib.Data.List.Nodup

/-!
# Table — rows told apart by a key

A table keeps rows in the order they were inserted, no two with the same key.  Writing a row replaces
the row of its key where that stands, or appends it; deleting takes out the rows that satisfy a
condition.  A table is read by its key, by the conditions its rows satisfy, and by counting.
-/

namespace Muster

/-- Rows in insertion order, no two with the same key. -/
structure Table {ρ κ : Type*} (key : ρ → κ) where
  rows : List ρ
  keyed : (rows.map key).Nodup

namespace Table

variable {ρ κ : Type*} {key : ρ → κ}

def empty : Table key := ⟨[], List.nodup_nil⟩

def deleteWhere (t : Table key) (p : ρ → Bool) : Table key where
  rows := t.rows.filter (!p ·)
  keyed := t.keyed.sublist (List.filter_sublist.map key)

variable [DecidableEq κ]

def find (t : Table key) (k : κ) : Option ρ := t.rows.find? (key · = k)

def replaced (t : Table key) (row : ρ) : List ρ :=
  t.rows.map fun old => if key old = key row then row else old

theorem map_key_replaced (t : Table key) (row : ρ) : (t.replaced row).map key = t.rows.map key := by
  rw [replaced, List.map_map]
  refine List.map_congr_left fun old _ => ?_
  by_cases h : key old = key row <;> simp [h]

theorem find_eq_none {t : Table key} {k : κ} : t.find k = none ↔ k ∉ t.rows.map key := by
  simp [find]

def put (t : Table key) (row : ρ) : Table key :=
  match h : t.find (key row) with
  | some _ => ⟨t.replaced row, t.map_key_replaced row ▸ t.keyed⟩
  | none => ⟨t.rows ++ [row], by
      rw [List.map_append, List.map_singleton]
      exact t.keyed.append (List.nodup_singleton _)
        (List.disjoint_singleton.2 (find_eq_none.1 h))⟩

variable {t : Table key} {row : ρ} {k : κ}

theorem put_rows_of_some {old : ρ} (h : t.find (key row) = some old) :
    (t.put row).rows = t.replaced row := by
  unfold put
  split
  · rfl
  · next hnone => cases h.symm.trans hnone

theorem put_rows_of_none (h : t.find (key row) = none) : (t.put row).rows = t.rows ++ [row] := by
  unfold put
  split
  · next old hsome => cases hsome.symm.trans h
  · rfl

theorem find_eq_some : t.find k = some row ↔ row ∈ t.rows ∧ key row = k := by
  constructor
  · intro h
    exact ⟨List.mem_of_find?_eq_some h, by simpa using List.find?_some h⟩
  · rintro ⟨hmem, rfl⟩
    cases hfound : t.find (key row) with
    | none => exact absurd (List.mem_map_of_mem hmem) (find_eq_none.1 hfound)
    | some other =>
      have hother : other ∈ t.rows := List.mem_of_find?_eq_some hfound
      have hkey : key other = key row := by simpa using List.find?_some hfound
      exact congrArg some (List.inj_on_of_nodup_map t.keyed hother hmem hkey)

theorem mem_put {other : ρ} :
    other ∈ (t.put row).rows ↔ other = row ∨ other ∈ t.rows ∧ key other ≠ key row := by
  cases h : t.find (key row) with
  | none =>
    have hkey : ∀ old ∈ t.rows, key old ≠ key row := fun old hold heq =>
      find_eq_none.1 h (heq ▸ List.mem_map_of_mem hold)
    rw [put_rows_of_none h, List.mem_append, List.mem_singleton]
    constructor
    · rintro (hold | rfl)
      · exact .inr ⟨hold, hkey other hold⟩
      · exact .inl rfl
    · rintro (rfl | ⟨hold, -⟩)
      · exact .inr rfl
      · exact .inl hold
  | some old =>
    obtain ⟨hold, hkey⟩ := find_eq_some.1 h
    rw [put_rows_of_some h, replaced, List.mem_map]
    constructor
    · rintro ⟨r, hr, rfl⟩
      by_cases heq : key r = key row
      · exact .inl (if_pos heq)
      · rw [if_neg heq]
        exact .inr ⟨hr, heq⟩
    · rintro (rfl | ⟨hother, hne⟩)
      · exact ⟨old, hold, if_pos hkey⟩
      · exact ⟨other, hother, if_neg hne⟩

@[simp] theorem find_put_self : (t.put row).find (key row) = some row :=
  find_eq_some.2 ⟨mem_put.2 (.inl rfl), rfl⟩

theorem find_put_of_ne (h : k ≠ key row) : (t.put row).find k = t.find k := by
  ext other
  rw [find_eq_some, find_eq_some, mem_put]
  constructor
  · rintro ⟨rfl | ⟨hmem, -⟩, hkey⟩
    · exact absurd hkey.symm h
    · exact ⟨hmem, hkey⟩
  · rintro ⟨hmem, hkey⟩
    exact ⟨.inr ⟨hmem, fun heq => h (hkey.symm.trans heq)⟩, hkey⟩

theorem find_deleteWhere (p : ρ → Bool) :
    (t.deleteWhere p).find k = (t.find k).filter (!p ·) := by
  ext other
  rw [find_eq_some, Option.filter_eq_some_iff, find_eq_some, deleteWhere, List.mem_filter]
  tauto

theorem countP_replaced (p : ρ → Bool) (rows : List ρ) :
    (rows.map fun old => if key old = key row then row else old).countP p =
      (rows.countP fun old => p old && !(key old = key row)) +
        (p row).toNat * rows.countP (key · = key row) := by
  induction rows with
  | nil => rfl
  | cons old rows ih =>
    rw [List.map_cons, List.countP_cons, List.countP_cons, List.countP_cons, ih]
    by_cases hkey : key old = key row
    · cases hp : p row with
      | false => simp [hkey, hp]
      | true =>
        simp [hkey, hp]
        omega
    · cases hp : p old with
      | false => simp [hkey, hp]
      | true =>
        simp [hkey, hp]
        omega

/-- Writing a row counts it for the row of its key. -/
theorem countP_put (p : ρ → Bool) : (t.put row).rows.countP p =
    (t.rows.countP fun old => p old && !(key old = key row)) + (p row).toNat := by
  cases h : t.find (key row) with
  | none =>
    have hother : ∀ old ∈ t.rows, p old = true ↔ (p old && !(key old = key row)) = true :=
      fun old hold => by
        have hkey : key old ≠ key row := fun heq =>
          find_eq_none.1 h (heq ▸ List.mem_map_of_mem hold)
        simp [hkey]
    rw [put_rows_of_none h, List.countP_append, List.countP_congr hother, List.countP_singleton]
    cases p row <;> rfl
  | some old =>
    obtain ⟨hold, hkey⟩ := find_eq_some.1 h
    have hone : t.rows.countP (key · = key row) = 1 := by
      have hmem : key row ∈ t.rows.map key := hkey ▸ List.mem_map_of_mem hold
      have hcount := List.count_eq_one_of_mem t.keyed hmem
      rw [List.count, List.countP_map] at hcount
      refine (List.countP_congr fun old _ => ?_).trans hcount
      simp
    rw [put_rows_of_some h, replaced, countP_replaced, hone, Nat.mul_one]

end Table

end Muster
