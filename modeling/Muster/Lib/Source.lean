import Mathlib.Algebra.Order.Group.Nat
import Mathlib.Data.List.Basic

/-!
# Source — input that arrives in reads of its own sizes

A reader is not given the input whole: each read returns some part of what it asked for, and a read
that returns nothing is the end.  What a loop of reads collects depends on the input alone.
-/

namespace Muster

/-- An input by what its reads return, none of them empty, and then its end. -/
structure Source (α : Type*) where
  reads : List (List α)
  nonempty : ∀ read ∈ reads, read ≠ []

namespace Source

variable {α : Type*}

def content (source : Source α) : List α := source.reads.flatten

/-- Reads until `n` items have come or the input ends; a read that returns more than is still wanted
is asked for the wanted part only. -/
def fillFrom : ℕ → List (List α) → List α × List (List α)
  | _, [] => ([], [])
  | n, read :: reads =>
    if read.length ≤ n then
      (read ++ (fillFrom (n - read.length) reads).1, (fillFrom (n - read.length) reads).2)
    else (read.take n, read.drop n :: reads)

theorem fillFrom_eq (n : ℕ) (reads : List (List α)) :
    (fillFrom n reads).1 = reads.flatten.take n ∧
      (fillFrom n reads).2.flatten = reads.flatten.drop n := by
  induction reads generalizing n with
  | nil => simp [fillFrom]
  | cons read reads ih =>
    obtain ⟨htake, hdrop⟩ := ih (n - read.length)
    rw [fillFrom]
    split
    · rename_i hle
      refine ⟨?_, ?_⟩
      · rw [htake, List.flatten_cons, List.take_append, List.take_of_length_le hle]
      · rw [hdrop, List.flatten_cons, List.drop_append, List.drop_of_length_le hle, List.nil_append]
    · rename_i hlt
      have hzero : n - read.length = 0 := by omega
      refine ⟨?_, ?_⟩
      · rw [List.flatten_cons, List.take_append, hzero, List.take_zero, List.append_nil]
      · rw [List.flatten_cons, List.flatten_cons, List.drop_append, hzero, List.drop_zero]

theorem fillFrom_nonempty (n : ℕ) {reads : List (List α)} (h : ∀ read ∈ reads, read ≠ []) :
    ∀ read ∈ (fillFrom n reads).2, read ≠ [] := by
  induction reads generalizing n with
  | nil => exact h
  | cons first reads ih =>
    rw [fillFrom]
    split
    · exact ih _ fun read hread => h read (List.mem_cons_of_mem _ hread)
    · rename_i hlt
      intro read hread
      obtain rfl | hread := List.mem_cons.1 hread
      · rw [Ne, List.drop_eq_nil_iff]
        exact hlt
      · exact h read (List.mem_cons_of_mem _ hread)

def fill (n : ℕ) (source : Source α) : List α × Source α :=
  ((fillFrom n source.reads).1, ⟨_, fillFrom_nonempty n source.nonempty⟩)

@[simp] theorem fill_fst (n : ℕ) (source : Source α) : (source.fill n).1 = source.content.take n :=
  (fillFrom_eq n source.reads).1

@[simp] theorem content_fill (n : ℕ) (source : Source α) :
    (source.fill n).2.content = source.content.drop n :=
  (fillFrom_eq n source.reads).2

end Source

/-- What is cut off a concatenation ends inside one of its parts, after whole ones. -/
theorem exists_parts_of_cut {α : Type*} {parts : List (List α)} {items : List α}
    (h : items <+: parts.flatten) (hne : items ≠ parts.flatten) :
    ∃ before part after rest, parts = before ++ part :: after ∧ items = before.flatten ++ rest ∧
      rest <+: part ∧ rest ≠ part := by
  induction parts generalizing items with
  | nil => exact absurd (List.prefix_nil.1 h) hne
  | cons part parts ih =>
    rw [List.flatten_cons] at h hne
    obtain hwithin | ⟨rest, rfl⟩ := List.prefix_or_prefix_of_prefix h (List.prefix_append ..)
    · by_cases heq : items = part
      · -- the cut falls between this part and the next
        subst heq
        have hrest : [] ≠ parts.flatten := fun hnil => hne (by rw [← hnil, List.append_nil])
        obtain ⟨before, next, after, rest, rfl, hrest, hcut⟩ := ih List.nil_prefix hrest
        refine ⟨items :: before, next, after, rest, rfl, ?_, hcut⟩
        rw [List.flatten_cons, List.append_assoc, ← hrest, List.append_nil]
      · exact ⟨[], part, parts, items, rfl, rfl, hwithin, heq⟩
    · have hrest := (List.prefix_append_right_inj _).1 h
      obtain ⟨before, next, after, left, rfl, rfl, hcut⟩ := ih hrest fun heq => hne (by rw [heq])
      refine ⟨part :: before, next, after, left, rfl, ?_, hcut⟩
      rw [List.flatten_cons, List.append_assoc]

end Muster
