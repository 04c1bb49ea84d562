import Mathlib.Logic.Relation

/-!
# Machine — guarded event systems and what holds along their runs

A machine takes events one at a time; an event is taken only in a state that enables it.  The rules
here are the ones every run property below is assembled from: an invariant of one step is an
invariant of every run, also when the run is restricted to steps that meet a further condition, and
a list of events that is enabled step by step is a run.
-/

namespace Muster

/-- A system of events over the states `σ`: which events a state enables, and what they do. -/
structure Machine (σ ε : Type*) where
  Enabled : σ → ε → Prop
  next : σ → ε → σ

namespace Machine

variable {σ ε : Type*} (m : Machine σ ε)

def Step (s t : σ) : Prop := ∃ e, m.Enabled s e ∧ m.next s e = t

/-- Some run of enabled events takes `s` to `t`. -/
def Reaches : σ → σ → Prop := Relation.ReflTransGen m.Step

/-- The machine that takes only the steps meeting `ok`. -/
def restrict (ok : σ → ε → Prop) : Machine σ ε where
  Enabled s e := m.Enabled s e ∧ ok s e
  next := m.next

instance restrict.decidable (ok : σ → ε → Prop) [∀ s e, Decidable (m.Enabled s e)]
    [∀ s e, Decidable (ok s e)] : ∀ s e, Decidable ((m.restrict ok).Enabled s e) :=
  fun s e => inferInstanceAs (Decidable (m.Enabled s e ∧ ok s e))

variable {m} {P : σ → Prop} {s t : σ} {ok : σ → ε → Prop}

/-- **The invariant rule.**  What every enabled event preserves holds in every state reached. -/
theorem Reaches.invariant (hr : m.Reaches s t)
    (step : ∀ a e, P a → m.Enabled a e → P (m.next a e)) (hs : P s) : P t := by
  induction hr with
  | refl => exact hs
  | tail _ hst ih =>
    obtain ⟨e, he, rfl⟩ := hst
    exact step _ e ih he

/-- The invariant rule over a restricted machine, with the restriction at hand in each step. -/
theorem Reaches.invariant_restrict (hr : (m.restrict ok).Reaches s t)
    (step : ∀ a e, P a → m.Enabled a e → ok a e → P (m.next a e)) (hs : P s) : P t :=
  hr.invariant (fun a e ha he => step a e ha he.1 he.2) hs

theorem Reaches.of_restrict (hr : (m.restrict ok).Reaches s t) : m.Reaches s t :=
  Relation.ReflTransGen.mono (fun _ _ ⟨e, he, hn⟩ => ⟨e, he.1, hn⟩) _ _ hr

theorem Reaches.next (hr : m.Reaches s t) {e : ε} (he : m.Enabled t e) : m.Reaches s (m.next t e) :=
  Relation.ReflTransGen.tail hr ⟨e, he, rfl⟩

variable (m)

/-- The state after the events `es`, taken in order. -/
def play : σ → List ε → σ
  | s, [] => s
  | s, e :: es => play (m.next s e) es

/-- Each event of `es` is enabled where it is taken. -/
def Plays : σ → List ε → Prop
  | _, [] => True
  | s, e :: es => m.Enabled s e ∧ Plays (m.next s e) es

instance Plays.decidable [∀ s e, Decidable (m.Enabled s e)] :
    ∀ (s : σ) (es : List ε), Decidable (m.Plays s es)
  | _, [] => inferInstanceAs (Decidable True)
  | s, e :: es =>
    have := Plays.decidable (m.next s e) es
    inferInstanceAs (Decidable (m.Enabled s e ∧ m.Plays (m.next s e) es))

/-- Some event of `es` meets `p` where it is taken. -/
def Took (p : σ → ε → Prop) : σ → List ε → Prop
  | _, [] => False
  | s, e :: es => p s e ∨ Took p (m.next s e) es

variable {m}

theorem Plays.of_restrict : ∀ {es : List ε} {s : σ}, (m.restrict ok).Plays s es → m.Plays s es
  | [], _, _ => trivial
  | _ :: _, _, ⟨he, hes⟩ => ⟨he.1, Plays.of_restrict hes⟩

/-- What an event that meets `p` makes true, and what every later one keeps, holds in the end. -/
theorem Took.last {p : σ → ε → Prop} {Inv : σ → Prop}
    (inv : ∀ a e, Inv a → m.Enabled a e → Inv (m.next a e))
    (here : ∀ a e, Inv a → m.Enabled a e → p a e → P (m.next a e))
    (keep : ∀ a e, Inv a → m.Enabled a e → P a → P (m.next a e)) :
    ∀ {es : List ε} {s : σ}, m.Plays s es → Inv s → (P s ∨ m.Took p s es) → P (m.play s es)
  | [], _, _, _, h => h.resolve_right id
  | e :: es, s, ⟨he, hes⟩, hs, h => by
    show P (m.play (m.next s e) es)
    refine Took.last inv here keep hes (inv s e hs he) ?_
    rcases h with h | h | h
    · exact .inl (keep s e hs he h)
    · exact .inl (here s e hs he h)
    · exact .inr h

theorem reaches_play : ∀ {es : List ε} {s : σ}, m.Plays s es → m.Reaches s (m.play s es)
  | [], _, _ => Relation.ReflTransGen.refl
  | e :: _, _, ⟨he, hes⟩ => Relation.ReflTransGen.head ⟨e, he, rfl⟩ (reaches_play hes)

theorem reaches_play_restrict :
    ∀ {es : List ε} {s : σ}, (m.restrict ok).Plays s es → (m.restrict ok).Reaches s (m.play s es)
  | [], _, _ => Relation.ReflTransGen.refl
  | e :: _, _, ⟨he, hes⟩ => Relation.ReflTransGen.head ⟨e, he, rfl⟩ (reaches_play_restrict hes)

end Machine

end Muster
