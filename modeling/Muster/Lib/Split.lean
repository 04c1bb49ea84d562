import Mathlib.Data.List.Basic

/-!
# Split — a list cut after each of its separators

`splitInclusive p l` cuts `l` after each item `p` holds of; the last piece is the rest, when there
is any.  `splitInclusive_body` and `splitInclusive_tail` say what it does with one piece, and
`bodies_induction` goes along the pieces.
-/

namespace Muster

variable {α : Type*} (p : α → Bool)

/-- The pieces of a list, each ending at an item `p` holds of, the last one perhaps not. -/
def splitInclusive : List α → List (List α)
  | [] => []
  | a :: as =>
    if p a then [a] :: splitInclusive as
    else match splitInclusive as with
      | [] => [[a]]
      | piece :: rest => (a :: piece) :: rest

@[simp] theorem splitInclusive_nil : splitInclusive p [] = [] := rfl

theorem splitInclusive_flatten (l : List α) : (splitInclusive p l).flatten = l := by
  induction l with
  | nil => rfl
  | cons a as ih =>
    rw [splitInclusive]
    split
    · rw [List.flatten_cons, ih, List.singleton_append]
    · cases hpieces : splitInclusive p as with
      | nil =>
        rw [hpieces] at ih
        rw [← ih]
        rfl
      | cons piece rest =>
        rw [hpieces, List.flatten_cons] at ih
        rw [List.flatten_cons, List.cons_append, ih]

theorem splitInclusive_body {body : List α} {a : α} (hbody : ∀ b ∈ body, p b = false) (ha : p a)
    (rest : List α) :
    splitInclusive p (body ++ a :: rest) = (body ++ [a]) :: splitInclusive p rest := by
  induction body with
  | nil => rw [List.nil_append, splitInclusive, if_pos ha, List.nil_append]
  | cons b body ih =>
    have hb : ¬ p b = true := by rw [hbody b List.mem_cons_self]; decide
    rw [List.cons_append, splitInclusive, if_neg hb,
      ih fun c hc => hbody c (List.mem_cons_of_mem b hc), List.cons_append]

theorem splitInclusive_tail {tail : List α} (htail : ∀ b ∈ tail, p b = false) (hne : tail ≠ []) :
    splitInclusive p tail = [tail] := by
  induction tail with
  | nil => exact absurd rfl hne
  | cons b tail ih =>
    have hb : ¬ p b = true := by rw [htail b List.mem_cons_self]; decide
    rw [splitInclusive, if_neg hb]
    cases tail with
    | nil => rfl
    | cons c tail =>
      rw [ih (fun d hd => htail d (List.mem_cons_of_mem b hd)) (List.cons_ne_nil c tail)]

/-- Along the pieces: what holds of a list without a separator, and of one with another piece in
front of it, holds of every list. -/
theorem bodies_induction {motive : List α → Prop} (tail : ∀ l, (∀ b ∈ l, p b = false) → motive l)
    (piece : ∀ body a rest, (∀ b ∈ body, p b = false) → p a → motive rest →
      motive (body ++ a :: rest)) (l : List α) : motive l := by
  -- on the list, with the piece begun so far in front of it
  suffices h : ∀ body, (∀ b ∈ body, p b = false) → motive (body ++ l) by
    simpa using h [] (by simp)
  induction l with
  | nil =>
    intro body hbody
    rw [List.append_nil]
    exact tail body hbody
  | cons a l ih =>
    intro body hbody
    by_cases ha : p a
    · exact piece body a l hbody ha (by simpa using ih [] (by simp))
    · rw [← List.singleton_append, ← List.append_assoc]
      refine ih (body ++ [a]) fun b hb => ?_
      rcases List.mem_append.1 hb with hb | hb
      · exact hbody b hb
      · rw [List.mem_singleton.1 hb]
        simpa using ha

end Muster
