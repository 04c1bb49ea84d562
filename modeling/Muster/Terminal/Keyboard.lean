import Muster.Terminal.RepaintLength

/-!
# Keyboard — the Kitty keyboard flags a child negotiates on one screen

A child pushes, sets and pops flags; the stack of pushes is bounded, so that a child cannot grow it
without end.
-/

namespace Muster.Terminal

open Text
open String (utf8Len utf8Len_nil utf8Len_cons utf8Len_append)

def stackLimit : ℕ := 16

def supportedFlags : UInt16 := 0b11

/-- One screen's keyboard enhancement: the active flags, and those saved by pushes, the newest last. -/
structure ScreenState where
  stack : List UInt16 := []
  flags : UInt16 := 0
  bounded : stack.length ≤ stackLimit := by decide

namespace ScreenState

/-- Saves the active flags and makes `flags` active; a full stack drops its oldest level. -/
def push (s : ScreenState) (flags : UInt16) : ScreenState where
  stack := (if stackLimit ≤ s.stack.length then s.stack.tail else s.stack) ++ [s.flags]
  flags := flags
  bounded := by
    have hbounded := s.bounded
    have hlimit : stackLimit = 16 := rfl
    split <;> simp only [List.length_append, List.length_tail, List.length_singleton] <;> omega

def set (s : ScreenState) (flags : UInt16) : ScreenState := { s with flags }

/-- Restores the level saved `count` pushes ago, or no flags once the stack runs out. -/
def pop (s : ScreenState) : ℕ → ScreenState
  | 0 => s
  | count + 1 =>
    pop ⟨s.stack.dropLast, s.stack.getLastD 0, by
      have hbounded := s.bounded
      rw [List.length_dropLast]
      omega⟩ count

/-- Every level from the oldest saved one to the active one. -/
def levels (s : ScreenState) : List UInt16 := s.stack ++ [s.flags]

/-- All flags, saved or active, are honored ones. -/
def Masked (s : ScreenState) : Prop := ∀ flags ∈ s.levels, flags &&& supportedFlags = flags

instance (s : ScreenState) : Decidable s.Masked := List.decidableBAll _ _

end ScreenState

def kittySequence (introducer : Char) (flags : UInt16) : Text :=
  csi ++ [introducer] ++ decimal flags.toNat ++ ['u']

/-- Rebuilds a screen's flags and pushes: a set for the oldest level, a push for each newer one. -/
def restoreSequence (s : ScreenState) : Text :=
  match s.levels with
  | [] => []
  | oldest :: newer => kittySequence '=' oldest ++ newer.flatMap (kittySequence '>')

/-- Bytes a restore sequence takes at most: five for each level. -/
def mostRestore : ℕ := 5 * (stackLimit + 1)

theorem utf8Len_kittySequence {introducer : Char} (h : introducer.utf8Size = 1) {flags : UInt16}
    (hflags : flags &&& supportedFlags = flags) : utf8Len (kittySequence introducer flags) = 5 := by
  have hfew : flags.toNat ≤ 3 := by
    rw [← hflags, UInt16.toNat_and]
    exact Nat.and_le_right
  have hdigits : ∀ n ≤ 3, utf8Len (decimal n) = 1 := by decide
  have hdigit := hdigits flags.toNat hfew
  have hcsi : utf8Len csi = 2 := by decide
  have hfinal : 'u'.utf8Size = 1 := rfl
  simp only [kittySequence, utf8Len_append, utf8Len_cons, utf8Len_nil]
  omega

theorem utf8Len_restoreSequence {s : ScreenState} (h : s.Masked) :
    utf8Len (restoreSequence s) = 5 * s.levels.length := by
  have hpushes : ∀ levels : List UInt16, (∀ flags ∈ levels, flags &&& supportedFlags = flags) →
      utf8Len (levels.flatMap (kittySequence '>')) = 5 * levels.length := by
    intro levels hlevels
    induction levels with
    | nil => rfl
    | cons flags levels ih =>
      obtain ⟨hflags, hlevels⟩ := List.forall_mem_cons.1 hlevels
      rw [List.flatMap_cons, utf8Len_append, ih hlevels, utf8Len_kittySequence rfl hflags, List.length_cons]
      omega
  unfold ScreenState.Masked at h
  unfold restoreSequence
  split
  next heq =>
    rw [heq]
    rfl
  next oldest newer heq =>
    rw [heq] at h ⊢
    obtain ⟨holdest, hnewer⟩ := List.forall_mem_cons.1 h
    rw [utf8Len_append, utf8Len_kittySequence rfl holdest, hpushes newer hnewer, List.length_cons]
    omega

theorem utf8Len_restoreSequence_le {s : ScreenState} (h : s.Masked) :
    utf8Len (restoreSequence s) ≤ mostRestore := by
  rw [utf8Len_restoreSequence h, ScreenState.levels, List.length_append, List.length_singleton]
  exact Nat.mul_le_mul_left 5 (Nat.succ_le_succ s.bounded)

def fullKeyboard : ScreenState := ⟨List.replicate stackLimit 0, 0, Nat.le_of_eq List.length_replicate⟩

theorem fullKeyboard_masked : fullKeyboard.Masked := by decide

end Muster.Terminal
