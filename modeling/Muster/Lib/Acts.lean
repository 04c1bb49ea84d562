import Mathlib.Logic.Basic

/-!
# Acts — computations that act on an outside, and their postconditions

An `Acts` computation tells the outside things and asks it questions; each question is answered yes
or no and the computation goes on from the answer.  `All P` is the postcondition: `P` holds of the
result whatever the answers.  The rules below push it through the statements of a computation, and
`run` plays a computation against a list of answers.
-/

namespace Muster

/-- A computation over the acts `ε` that ends in an `α`. -/
inductive Acts (ε α : Type) where
  | done (a : α)
  | say (e : ε) (rest : Acts ε α)
  | ask (e : ε) (k : Bool → Acts ε α)

namespace Acts

variable {ε α β : Type} {P : α → Prop} {x : Acts ε α}

def bind : Acts ε α → (α → Acts ε β) → Acts ε β
  | .done a, f => f a
  | .say e rest, f => .say e (rest.bind f)
  | .ask e k, f => .ask e fun b => (k b).bind f

instance : Monad (Acts ε) where
  pure := .done
  bind := bind

def tell (e : ε) : Acts ε Unit := .say e (.done ())

def tellOption : Option ε → Acts ε Unit
  | some e => tell e
  | none => .done ()

def query (e : ε) : Acts ε Bool := .ask e .done

/-- What `x` ends in when the outside answers `answers` in order, and no once they run out. -/
def run : Acts ε α → List Bool → α
  | .done a, _ => a
  | .say _ rest, bs => rest.run bs
  | .ask _ k, [] => (k false).run []
  | .ask _ k, b :: bs => (k b).run bs

/-- `x` together with all it said, in order. -/
def listen : Acts ε α → Acts ε (α × List ε)
  | .done a => .done (a, [])
  | .say e rest => .say e (rest.listen.bind fun r => .done (r.1, e :: r.2))
  | .ask e k => .ask e fun b => (k b).listen

/-- Every result of `x` satisfies `P`, whatever the answers. -/
def All (P : α → Prop) : Acts ε α → Prop
  | .done a => P a
  | .say _ rest => rest.All P
  | .ask _ k => ∀ b, (k b).All P

@[simp] theorem all_pure (a : α) : (pure a : Acts ε α).All P ↔ P a := Iff.rfl

@[simp] theorem all_tell {P : Unit → Prop} (e : ε) : (tell e).All P ↔ P () := Iff.rfl

@[simp] theorem all_tellOption {P : Unit → Prop} (e : Option ε) :
    (tellOption e).All P ↔ P () := by
  cases e <;> rfl

@[simp] theorem all_query {P : Bool → Prop} (e : ε) : (query e).All P ↔ P true ∧ P false := by
  constructor
  · intro h
    exact ⟨h true, h false⟩
  · rintro ⟨ht, hf⟩ b
    cases b
    · exact hf
    · exact ht

@[simp] theorem all_bind {P : β → Prop} (x : Acts ε α) (f : α → Acts ε β) :
    (x >>= f).All P ↔ x.All fun a => (f a).All P := by
  show (x.bind f).All P ↔ _
  induction x with
  | done a => rfl
  | say e rest ih => exact ih
  | ask e k ih => exact forall_congr' ih

@[simp] theorem all_ite (c : Prop) [Decidable c] (x y : Acts ε α) :
    (if c then x else y).All P ↔ (c → x.All P) ∧ (¬ c → y.All P) := by
  by_cases h : c <;> simp [h]

theorem All.mono {Q : α → Prop} (h : x.All P) (hPQ : ∀ a, P a → Q a) : x.All Q := by
  induction x with
  | done a => exact hPQ a h
  | say e rest ih => exact ih h
  | ask e k ih => exact fun b => ih b (h b)

theorem all_of_forall (x : Acts ε α) (h : ∀ a, P a) : x.All P := by
  induction x with
  | done a => exact h a
  | say e rest ih => exact ih
  | ask e k ih => exact ih

/-- The sequencing rule: a postcondition of `x` is the precondition of what follows. -/
theorem All.bind {Q : β → Prop} {f : α → Acts ε β} (h : x.All P)
    (hf : ∀ a, P a → (f a).All Q) : (x >>= f).All Q :=
  (all_bind x f).2 (h.mono hf)

theorem All.and {Q : α → Prop} (hP : x.All P) (hQ : x.All Q) : x.All fun a => P a ∧ Q a := by
  induction x with
  | done a => exact ⟨hP, hQ⟩
  | say e rest ih => exact ih hP hQ
  | ask e k ih => exact fun b => ih b (hP b) (hQ b)

/-- What holds of every result holds of the result of a run. -/
theorem All.run (h : x.All P) (bs : List Bool) : P (x.run bs) := by
  induction x generalizing bs with
  | done a => exact h
  | say e rest ih => exact ih h bs
  | ask e k ih =>
    cases bs with
    | nil => exact ih false (h false) []
    | cons b bs => exact ih b (h b) bs

theorem all_listen : x.listen.All (fun r => P r.1) ↔ x.All P := by
  induction x with
  | done a => rfl
  | say e rest ih =>
    show (rest.listen >>= fun r => pure (r.1, e :: r.2)).All (fun r => P r.1) ↔ _
    rw [all_bind]
    exact ih
  | ask e k ih => exact forall_congr' ih

end Acts

end Muster
