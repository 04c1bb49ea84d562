import Mathlib.Data.List.Basic
import Mathlib.Data.List.Chain

/-!
# Newest — the longest end of a sequence that fits

Items come one at a time and the oldest are dropped until the rest fits.  Some items are markers,
which only stand between others: an end never begins with one.  Dropping greedily, item by item,
keeps the longest end of everything that ever came.
-/

namespace Muster

variable {α : Type*} {marker : α → Bool} {within : List α → Bool} {items : List α} {item : α}

def Unmarked (marker : α → Bool) (items : List α) : Prop := ∀ item ∈ items.head?, marker item = false

def Spaced (marker : α → Bool) (items : List α) : Prop :=
  items.IsChain fun a b => ¬ (marker a = true ∧ marker b = true)

/-- `kept` is the longest end of `items` that is within bounds and begins with no marker. -/
structure Newest (marker : α → Bool) (within : List α → Bool) (items kept : List α) : Prop where
  suffix : kept <:+ items
  fits : within kept = true
  unmarked : Unmarked marker kept
  longest : ∀ part, part <:+ items → within part = true → Unmarked marker part → part <:+ kept

def dropMarker (marker : α → Bool) : List α → List α
  | [] => []
  | item :: items => if marker item then items else item :: items

/-- Drops the oldest item, and a marker left leading with it, until the rest is within bounds. -/
def trim (marker : α → Bool) (within : List α → Bool) : List α → List α
  | [] => []
  | item :: items =>
    if within (item :: items) then item :: items else trim marker within (dropMarker marker items)
termination_by items => items.length
decreasing_by
  cases items with
  | nil => simp [dropMarker]
  | cons next items =>
    rw [dropMarker]
    split <;> simp only [List.length_cons] <;> omega

theorem Spaced.cons (h : Spaced marker items)
    (hitem : marker item = false) : Spaced marker (item :: items) := by
  cases items with
  | nil => exact .singleton _
  | cons next items =>
    refine List.isChain_cons_cons.2 ⟨fun hboth => ?_, h⟩
    rw [hitem] at hboth
    exact Bool.false_ne_true hboth.1

theorem trim_of_within (h : within items = true) : trim marker within items = items := by
  cases items with
  | nil => rw [trim]
  | cons item items => rw [trim, if_pos h]

theorem trim_cons_of_over (h : within (item :: items) = false) :
    trim marker within (item :: items) = trim marker within (dropMarker marker items) := by
  rw [trim, if_neg (Bool.eq_false_iff.1 h)]

theorem dropMarker_suffix (items : List α) : dropMarker marker items <:+ items := by
  cases items with
  | nil => exact List.suffix_refl _
  | cons item items =>
    rw [dropMarker]
    split
    · exact List.suffix_cons ..
    · exact List.suffix_refl _

theorem unmarked_dropMarker (h : Spaced marker items) :
    Unmarked marker (dropMarker marker items) := by
  cases items with
  | nil => exact fun _ h => nomatch h
  | cons item items =>
    rw [dropMarker]
    split
    · rename_i hmarker
      cases items with
      | nil => exact fun _ h => nomatch h
      | cons next items =>
        intro head hhead
        cases hhead
        have hpair := (List.isChain_cons_cons.1 h).1
        exact Bool.eq_false_iff.2 fun hnext => hpair ⟨hmarker, hnext⟩
    · rename_i hmarker
      intro head hhead
      cases hhead
      exact Bool.eq_false_iff.2 hmarker

theorem suffix_dropMarker {part : List α} (h : part <:+ items) (hpart : Unmarked marker part) :
    part <:+ dropMarker marker items := by
  cases items with
  | nil => exact h
  | cons item items =>
    rw [dropMarker]
    split
    · rename_i hmarker
      obtain rfl | h := List.suffix_cons_iff.1 h
      · exact absurd hmarker (Bool.eq_false_iff.1 (hpart item rfl))
      · exact h
    · exact h

/-- Trimming an end that every fitting end is part of leaves the longest of them. -/
theorem newest_trim (hnil : within [] = true) {kept : List α} (hspaced : Spaced marker kept)
    (hsuffix : kept <:+ items) (hunmarked : Unmarked marker kept)
    (hlongest : ∀ part, part <:+ items → within part = true → Unmarked marker part → part <:+ kept) :
    Newest marker within items (trim marker within kept) := by
  induction kept using trim.induct marker within with
  | case1 =>
    rw [trim]
    exact ⟨hsuffix, hnil, hunmarked, hlongest⟩
  | case2 item kept hwithin =>
    rw [trim, if_pos hwithin]
    exact ⟨hsuffix, hwithin, hunmarked, hlongest⟩
  | case3 item kept hover ih =>
    rw [trim, if_neg hover]
    have hrest : Spaced marker kept := hspaced.tail
    have hdropped : dropMarker marker kept <:+ kept := dropMarker_suffix kept
    refine ih (hrest.suffix hdropped) (hdropped.trans ((List.suffix_cons ..).trans hsuffix))
      (unmarked_dropMarker hrest) fun part hpart hfits hhead => suffix_dropMarker ?_ hhead
    obtain rfl | hkept := List.suffix_cons_iff.1 (hlongest part hpart hfits hhead)
    · exact absurd hfits hover
    · exact hkept

/-- **One more item.**  The longest end that fits, after an item is added to the one before: the item
is appended and the oldest are dropped, unless it is a marker with nothing before it. -/
theorem Newest.concat (hnil : within [] = true)
    (hclosed : ∀ part items, part <+: items → within items = true → within part = true)
    {kept : List α} (h : Newest marker within items kept)
    (hspaced : Spaced marker (items ++ [item])) : Newest marker within (items ++ [item])
      (if kept = [] ∧ marker item = true then [] else trim marker within (kept ++ [item])) := by
  -- an end of the longer sequence is empty, or an end of the shorter one with the item after it
  have hends : ∀ part, part <:+ items ++ [item] → within part = true → Unmarked marker part →
      part = [] ∨ part = [item] ∨ ∃ before, before ≠ [] ∧ before <:+ kept ∧ part = before ++ [item] := by
    intro part hpart hfits hhead
    obtain rfl | ⟨before, rfl, hbefore⟩ := List.suffix_concat_iff.1 hpart
    · exact .inl rfl
    · by_cases hnone : before = []
      · exact .inr (.inl (by rw [hnone, List.nil_append]))
      · refine .inr (.inr ⟨before, hnone, h.longest before hbefore ?_ ?_, rfl⟩)
        · exact hclosed _ _ (List.prefix_append ..) hfits
        · intro head hmem
          exact hhead head (by rw [List.head?_append_of_ne_nil _ hnone]; exact hmem)
  split
  · rename_i hboth
    obtain ⟨rfl, hmarker⟩ := hboth
    refine ⟨List.nil_suffix, hnil, (fun _ h => nomatch h), fun part hpart hfits hhead => ?_⟩
    obtain rfl | rfl | ⟨before, hne, hbefore, -⟩ := hends part hpart hfits hhead
    · exact List.suffix_refl _
    · exact absurd hmarker (Bool.eq_false_iff.1 (hhead item rfl))
    · exact absurd (List.suffix_nil.1 hbefore) hne
  · rename_i hboth
    have hsuffix : kept ++ [item] <:+ items ++ [item] :=
      List.suffix_append_self_iff.2 h.suffix
    refine newest_trim hnil (hspaced.suffix hsuffix) hsuffix ?_ fun part hpart hfits hhead => ?_
    · by_cases hkept : kept = []
      · intro head hmem
        rw [hkept] at hmem
        cases hmem
        exact Bool.eq_false_iff.2 fun hmarker => hboth ⟨hkept, hmarker⟩
      · intro head hmem
        exact h.unmarked head (by rw [List.head?_append_of_ne_nil _ hkept] at hmem; exact hmem)
    · obtain rfl | rfl | ⟨before, -, hbefore, rfl⟩ := hends part hpart hfits hhead
      · exact List.nil_suffix
      · exact List.suffix_append ..
      · exact List.suffix_append_self_iff.2 hbefore

end Muster
