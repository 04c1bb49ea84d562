import Mathlib.Data.List.Basic

/-!
# Transducer — machines that take a stream item by item and give another

A transducer takes one item at a time and gives what it makes of it.  A run over a stream does not
depend on how the stream was cut (`run_append`), and feeding what one transducer gives to the next
is a transducer again (`comp`), whose run is the second's run over the first's (`comp_run`).
-/

namespace Muster

/-- A machine over states `σ` that takes items of `α` and gives items of `β`. -/
structure Transducer (α β σ : Type*) where
  step : σ → α → σ × List β

namespace Transducer

variable {α β γ σ τ : Type*}

def run (T : Transducer α β σ) : σ → List α → σ × List β
  | s, [] => (s, [])
  | s, a :: as =>
    let (s, given) := T.step s a
    let (s, rest) := T.run s as
    (s, given ++ rest)

variable (T : Transducer α β σ) (U : Transducer β γ τ)

@[simp] theorem run_nil (s : σ) : T.run s [] = (s, []) := rfl

theorem run_cons (s : σ) (a : α) (as : List α) :
    T.run s (a :: as) = ((T.run (T.step s a).1 as).1, (T.step s a).2 ++ (T.run (T.step s a).1 as).2) :=
  rfl

@[simp] theorem run_singleton (s : σ) (a : α) : T.run s [a] = T.step s a := by
  rw [run_cons, run_nil, List.append_nil]

theorem run_append (s : σ) (as bs : List α) :
    T.run s (as ++ bs) = ((T.run (T.run s as).1 bs).1, (T.run s as).2 ++ (T.run (T.run s as).1 bs).2) := by
  induction as generalizing s with
  | nil => rfl
  | cons a as ih => rw [List.cons_append, run_cons, ih, run_cons, List.append_assoc]

/-- What `T` gives, taken by `U`. -/
def comp : Transducer α γ (σ × τ) where
  step := fun (s, t) a =>
    let (s, given) := T.step s a
    let (t, given) := U.run t given
    ((s, t), given)

theorem comp_step (s : σ) (t : τ) (a : α) :
    (T.comp U).step (s, t) a =
      (((T.step s a).1, (U.run t (T.step s a).2).1), (U.run t (T.step s a).2).2) := rfl

theorem comp_run (s : σ) (t : τ) (as : List α) :
    (T.comp U).run (s, t) as =
      (((T.run s as).1, (U.run t (T.run s as).2).1), (U.run t (T.run s as).2).2) := by
  induction as generalizing s t with
  | nil => rfl
  | cons a as ih => rw [run_cons, comp_step, ih, run_cons, run_append]

end Transducer

end Muster
