import Mathlib.Data.List.Basic
import Mathlib.Data.List.Induction
import Mathlib.Data.Nat.Notation

/-!
# Evict — a bounded buffer that drops only some of what it holds

Once `cap` items are held, taking another drops the oldest one that may be dropped; an item that may
not stays.  What is held is a subsequence of what was taken, with every item that may not be dropped
and the newest one; it stays within `cap` exactly if fewer than `cap` of the items before the last one
may not be dropped.
-/

namespace Muster

variable {α β : Type*} (cap : ℕ) (p : α → Bool)

/-- Takes one more item; a full buffer first drops the oldest item that meets `p`, if any does. -/
def evict (held : List α) (item : α) : List α :=
  (if cap ≤ held.length then held.eraseP p else held) ++ [item]

/-- What a buffer holds after items were taken in order. -/
def evicting (items : List α) : List α := items.foldl (evict cap p) []

theorem evicting_concat (items : List α) (item : α) :
    evicting cap p (items ++ [item]) = evict cap p (evicting cap p items) item := by
  rw [evicting, List.foldl_append]
  rfl

theorem map_evict (f : β → α) (held : List β) (item : β) :
    (evict cap (p ∘ f) held item).map f = evict cap p (held.map f) (f item) := by
  unfold evict
  rw [List.map_append, List.length_map, List.eraseP_map, apply_ite (List.map f)]
  rfl

variable {cap p} {held : List α} {item : α}

/-- What may not be dropped is all held. -/
theorem filter_evict : (evict cap p held item).filter (!p ·) = (held ++ [item]).filter (!p ·) := by
  have herase : (held.eraseP p).filter (!p ·) = held.filter (!p ·) := by
    induction held with
    | nil => rfl
    | cons x held ih =>
      cases hx : p x with
      | true => rw [List.eraseP_cons_of_pos hx, List.filter_cons_of_neg (by simp [hx])]
      | false =>
        rw [List.eraseP_cons_of_neg (by simp [hx]), List.filter_cons_of_pos (by simp [hx]),
          List.filter_cons_of_pos (by simp [hx]), ih]
  unfold evict
  rw [List.filter_append, List.filter_append]
  split
  · rw [herase]
  · rfl

theorem evict_sublist : (evict cap p held item).Sublist (held ++ [item]) := by
  unfold evict
  refine List.Sublist.append ?_ (List.Sublist.refl _)
  split
  · exact List.eraseP_sublist
  · exact List.Sublist.refl _

/-- A buffer within `cap` goes past it exactly when it holds `cap` items none of which may be dropped. -/
theorem length_evict_le_iff (item : α) (h : held.length ≤ cap) :
    (evict cap p held item).length ≤ cap ↔ (held.filter (!p ·)).length < cap := by
  have hle := List.length_filter_le (!p ·) held
  unfold evict
  rw [List.length_append, List.length_singleton]
  by_cases hfull : cap ≤ held.length
  · rw [if_pos hfull]
    by_cases hany : ∃ x ∈ held, p x
    · obtain ⟨x, hx, hpx⟩ := hany
      have hlt : (held.filter (!p ·)).length < held.length :=
        List.length_filter_lt_length_iff_exists.2 ⟨x, hx, by simp [hpx]⟩
      rw [List.length_eraseP_of_mem hx hpx]
      omega
    · have hnone : ∀ x ∈ held, ¬ p x := fun x hx hpx => hany ⟨x, hx, hpx⟩
      rw [List.eraseP_of_forall_not hnone, List.filter_eq_self.2 fun x hx => by simp [hnone x hx]]
      omega
  · rw [if_neg hfull]
    omega

variable (cap p)

/-- What may not be dropped was all taken and is all held, in order. -/
theorem filter_evicting (items : List α) :
    (evicting cap p items).filter (!p ·) = items.filter (!p ·) := by
  induction items using List.reverseRecOn with
  | nil => rfl
  | append_singleton items item ih =>
    rw [evicting_concat, filter_evict, List.filter_append, ih, ← List.filter_append]

theorem evicting_sublist (items : List α) : (evicting cap p items).Sublist items := by
  induction items using List.reverseRecOn with
  | nil => exact List.Sublist.refl _
  | append_singleton items item ih =>
    rw [evicting_concat]
    exact evict_sublist.trans (ih.append (List.Sublist.refl _))

theorem getLast?_evicting (items : List α) : (evicting cap p items).getLast? = items.getLast? := by
  induction items using List.reverseRecOn with
  | nil => rfl
  | append_singleton items item _ =>
    rw [evicting_concat, evict, List.getLast?_concat, List.getLast?_concat]

/-- **When a buffer stays within its cap**, along everything it takes. -/
theorem evicting_within_iff (hcap : 0 < cap) (items : List α) :
    (∀ taken, taken <+: items → (evicting cap p taken).length ≤ cap) ↔
      (items.dropLast.filter (!p ·)).length < cap := by
  induction items using List.reverseRecOn with
  | nil => simpa [evicting] using hcap
  | append_singleton items item ih =>
    have hstep : ∀ h : (evicting cap p items).length ≤ cap, (evicting cap p (items ++ [item])).length ≤ cap ↔
        (items.filter (!p ·)).length < cap := fun h => by
      rw [evicting_concat, length_evict_le_iff item h, filter_evicting]
    rw [List.dropLast_concat]
    refine ⟨fun h => ?_, fun hlt taken htaken => ?_⟩
    · exact (hstep (h items (List.prefix_append ..))).1 (h _ (List.prefix_refl _))
    · have hwithin := ih.2 (Nat.lt_of_le_of_lt ((List.dropLast_sublist items).filter _).length_le hlt)
      rcases List.prefix_concat_iff.1 htaken with rfl | htaken
      · exact (hstep (hwithin items (List.prefix_refl _))).2 hlt
      · exact hwithin taken htaken

end Muster
