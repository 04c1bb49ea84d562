import Mathlib.Data.List.AList
import Mathlib.Logic.Function.Basic

/-!
# Tally — counts kept beside what they count

A tally lists how many there are of each thing, and nothing for a thing there is none of.  Moving a
member from some things to others takes one off each it left and adds one to each it came to; `gone`
are the things it was the last of, `come` those it is the first of.  `census` is what a tally should
say: how many entries of a finite map have a property.
-/

namespace Muster

/-- How many there are of each, none listed for nothing. -/
abbrev Tally (α : Type*) := α → Option ℕ

namespace Tally

variable {α : Type*} [DecidableEq α] {as : List α}

/-- A count as a tally lists it. -/
def entry (n : ℕ) : Option ℕ := if n = 0 then none else some n

@[simp] theorem entry_getD (n : ℕ) : (entry n).getD 0 = n := by
  by_cases h : n = 0 <;> simp [entry, h]

/-- Takes one off each of a list; with those it was the last of. -/
def leaveAll : List α → Tally α → Tally α × List α
  | [], t => (t, [])
  | a :: as, t => match t a with
    | none => leaveAll as t
    | some n =>
      if n - 1 = 0 then
        let (t, gone) := leaveAll as (Function.update t a none)
        (t, a :: gone)
      else
        leaveAll as (Function.update t a (some (n - 1)))

/-- Adds one to each of a list; with those it is the first of. -/
def enterAll : List α → Tally α → Tally α × List α
  | [], t => (t, [])
  | a :: as, t =>
    let n := (t a).getD 0 + 1
    let (t, come) := enterAll as (Function.update t a (some n))
    (t, if n = 1 then a :: come else come)

/-- Moves one member: the tally, the things it was the last of and those it is the first of. -/
def move (before after : List α) (t : Tally α) : Tally α × List α × List α :=
  let (t, gone) := leaveAll (before.filter (· ∉ after)) t
  let (t, come) := enterAll (after.filter (· ∉ before)) t
  (t, gone, come)

theorem leaveAll_apply (hnd : as.Nodup) (t : Tally α) (a : α) :
    (leaveAll as t).1 a = if a ∈ as then (t a).bind fun n => entry (n - 1) else t a := by
  induction as generalizing t with
  | nil => rfl
  | cons b bs ih =>
    obtain ⟨hb, hbs⟩ := List.nodup_cons.1 hnd
    by_cases hab : a = b
    · subst hab
      cases hta : t a with
      | none => simp [leaveAll, hta, ih hbs, hb]
      | some n => by_cases hn : n - 1 = 0 <;> simp [leaveAll, hta, hn, ih hbs, hb, entry]
    · cases htb : t b with
      | none => simp [leaveAll, htb, ih hbs, hab]
      | some n => by_cases hn : n - 1 = 0 <;> simp [leaveAll, htb, hn, ih hbs, hab]

theorem mem_leaveAll (hnd : as.Nodup) {t : Tally α} {a : α} :
    a ∈ (leaveAll as t).2 ↔ a ∈ as ∧ ∃ n, t a = some n ∧ n - 1 = 0 := by
  induction as generalizing t with
  | nil => simp [leaveAll]
  | cons b bs ih =>
    obtain ⟨hb, hbs⟩ := List.nodup_cons.1 hnd
    by_cases hab : a = b
    · subst hab
      cases hta : t a with
      | none => simp [leaveAll, hta, ih hbs]
      | some n => by_cases hn : n - 1 = 0 <;> simp [leaveAll, hta, hn, ih hbs, hb]
    · cases htb : t b with
      | none => simp [leaveAll, htb, ih hbs, hab]
      | some n => by_cases hn : n - 1 = 0 <;> simp [leaveAll, htb, hn, ih hbs, hab]

theorem leaveAll_sublist (as : List α) (t : Tally α) : (leaveAll as t).2.Sublist as := by
  induction as generalizing t with
  | nil => exact List.Sublist.slnil
  | cons b bs ih =>
    unfold leaveAll
    split
    · exact (ih _).cons b
    · split
      · exact (ih _).cons_cons b
      · exact (ih _).cons b

theorem enterAll_apply (hnd : as.Nodup) (t : Tally α) (a : α) :
    (enterAll as t).1 a = if a ∈ as then some ((t a).getD 0 + 1) else t a := by
  induction as generalizing t with
  | nil => rfl
  | cons b bs ih =>
    obtain ⟨hb, hbs⟩ := List.nodup_cons.1 hnd
    by_cases hab : a = b
    · subst hab
      simp [enterAll, ih hbs, hb]
    · simp [enterAll, ih hbs, hab]

theorem mem_enterAll (hnd : as.Nodup) {t : Tally α} {a : α} :
    a ∈ (enterAll as t).2 ↔ a ∈ as ∧ (t a).getD 0 = 0 := by
  induction as generalizing t with
  | nil => simp [enterAll]
  | cons b bs ih =>
    obtain ⟨hb, hbs⟩ := List.nodup_cons.1 hnd
    by_cases hab : a = b
    · subst hab
      by_cases hn : (t a).getD 0 = 0 <;> simp [enterAll, hn, ih hbs, hb]
    · by_cases hn : (t b).getD 0 = 0 <;> simp [enterAll, hn, ih hbs, hab]

theorem enterAll_sublist (as : List α) (t : Tally α) : (enterAll as t).2.Sublist as := by
  induction as generalizing t with
  | nil => exact List.Sublist.slnil
  | cons b bs ih =>
    unfold enterAll
    dsimp only
    split
    · exact (ih _).cons_cons b
    · exact (ih _).cons b

theorem nodup_move {before after : List α} (hb : before.Nodup) (ha : after.Nodup) (t : Tally α) :
    ((move before after t).2.1 ++ (move before after t).2.2).Nodup := by
  have hgone := leaveAll_sublist (before.filter (· ∉ after)) t
  have hcome := enterAll_sublist (after.filter (· ∉ before)) (leaveAll (before.filter (· ∉ after)) t).1
  refine List.Nodup.append ((hb.filter _).sublist hgone) ((ha.filter _).sublist hcome) ?_
  intro a hout hin
  have hout := List.mem_filter.1 (hgone.subset hout)
  have hin := List.mem_filter.1 (hcome.subset hin)
  exact (by simpa using hin.2 : a ∉ before) hout.1

/-! ### Exact tallies -/

section Exact

variable {before after : List α} {t : Tally α} {n : α → ℕ}

/-- A member counted in `before` moves to `after`: an exact tally stays exact. -/
theorem move_apply (hb : before.Nodup) (ha : after.Nodup) (ht : ∀ a, t a = entry (n a))
    (hn : ∀ a ∈ before, 0 < n a) (a : α) :
    (move before after t).1 a =
      entry (n a - (if a ∈ before then 1 else 0) + if a ∈ after then 1 else 0) := by
  simp only [move, enterAll_apply (ha.filter _), leaveAll_apply (hb.filter _), List.mem_filter, ht]
  by_cases hin : a ∈ before
  · have hpos := hn a hin
    by_cases hout : a ∈ after
    · simp [hin, hout, Nat.sub_add_cancel hpos]
    · simp [hin, hout, entry, Nat.ne_of_gt hpos]
  · by_cases hout : a ∈ after
    · have hsucc : entry (n a + 1) = some (n a + 1) := rfl
      simp [hin, hout, hsucc]
    · simp [hin, hout]

theorem mem_gone (hb : before.Nodup) (after : List α) (ht : ∀ a, t a = entry (n a)) {a : α} :
    a ∈ (move before after t).2.1 ↔ a ∈ before ∧ a ∉ after ∧ n a = 1 := by
  have hlast : (∃ m, t a = some m ∧ m - 1 = 0) ↔ n a = 1 := by
    by_cases hn : n a = 0 <;> simp [ht, entry, hn]
    omega
  simp [move, mem_leaveAll (hb.filter _), hlast, and_assoc]

theorem mem_come (hb : before.Nodup) (ha : after.Nodup) (ht : ∀ a, t a = entry (n a)) {a : α} :
    a ∈ (move before after t).2.2 ↔ a ∈ after ∧ a ∉ before ∧ n a = 0 := by
  simp only [move, mem_enterAll (ha.filter _), leaveAll_apply (hb.filter _), List.mem_filter, ht]
  by_cases hin : a ∈ before <;> simp [hin]

end Exact

end Tally

/-! ### What is counted -/

section Census

variable {κ β : Type*} [DecidableEq κ]

/-- How many entries of a finite map have the property `p`. -/
def census (p : β → Bool) (s : AList fun _ : κ => β) : ℕ := s.entries.countP (p ·.2)

/-- What the entry under a key, if there is one, adds to a census. -/
def share (p : β → Bool) (b : Option β) : ℕ := if b.any p then 1 else 0

variable {p : β → Bool} {s : AList fun _ : κ => β} {k : κ}

theorem entries_erase : (s.erase k).entries = s.entries.kerase k := rfl

theorem census_erase : census p s = census p (s.erase k) + share p (s.lookup k) := by
  by_cases hk : k ∈ s.entries.keys
  · obtain ⟨b, l₁, l₂, -, hs, herase⟩ := List.exists_of_kerase hk
    have hlookup : s.lookup k = some b := AList.mem_lookup_iff.2 (by simp [hs])
    simp only [census, share, hlookup, entries_erase, herase, Option.any_some]
    simp only [hs, List.countP_append, List.countP_cons]
    omega
  · have hlookup : s.lookup k = none := AList.lookup_eq_none.2 hk
    simp [census, share, hlookup, entries_erase, List.kerase_of_notMem_keys hk]

theorem census_insert (b : β) :
    census p (s.insert k b) = census p (s.erase k) + share p (some b) := by
  simp [census, share, AList.entries_insert, entries_erase, List.countP_cons]

theorem census_erase_insert (b : β) : census p ((s.insert k b).erase k) = census p (s.erase k) := by
  have h := census_erase (p := p) (s := s.insert k b) (k := k)
  rw [census_insert, AList.lookup_insert] at h
  exact (Nat.add_right_cancel h).symm

theorem share_le_census : share p (s.lookup k) ≤ census p s := by
  rw [census_erase]
  exact Nat.le_add_left _ _

end Census

end Muster
