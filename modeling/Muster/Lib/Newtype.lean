import Mathlib.Data.Nat.Notation
import Mathlib.Order.Lattice

/-!
# Newtype — values that were cleaned and checked

A rule says how a raw value is cleaned and which clean values are valid.  A value of the rule's type
carries that it is both, so it is accepted again as it is.
-/

namespace Muster

/-- How raw values become valid ones: cleaned first, then checked. -/
structure Rule (α : Type) where
  sanitize : α → α
  valid : α → Bool
  sanitize_sanitize : ∀ raw, sanitize (sanitize raw) = sanitize raw

def Rule.check {α : Type} (valid : α → Bool) : Rule α := ⟨id, valid, fun _ => rfl⟩

/-- A value its rule accepts as it is. -/
structure Newtype {α : Type} (rule : Rule α) where
  value : α
  clean : rule.sanitize value = value
  valid : rule.valid value = true

namespace Newtype

variable {α : Type} {rule : Rule α}

theorem value_injective : Function.Injective fun x : Newtype rule => x.value := by
  rintro ⟨x, _, _⟩ ⟨y, _, _⟩ (rfl : x = y)
  rfl

instance [DecidableEq α] : DecidableEq (Newtype rule) := fun x y =>
  decidable_of_iff (x.value = y.value) value_injective.eq_iff

instance [LinearOrder α] : LinearOrder (Newtype rule) := 
  LinearOrder.lift' (fun x => x.value) value_injective

/-- The value a raw one stands for, when it is valid once cleaned. -/
def tryNew (rule : Rule α) (raw : α) : Option (Newtype rule) :=
  if h : rule.valid (rule.sanitize raw) = true then
    some ⟨rule.sanitize raw, rule.sanitize_sanitize raw, h⟩
  else none

@[simp] theorem tryNew_value (x : Newtype rule) : tryNew rule x.value = some x := by
  have hvalid : rule.valid (rule.sanitize x.value) = true := by rw [x.clean, x.valid]
  rw [tryNew, dif_pos hvalid]
  exact congrArg some (value_injective x.clean)

end Newtype

end Muster
