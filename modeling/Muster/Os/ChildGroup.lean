import Mathlib.Algebra.Group.Nat.Defs
import Mathlib.Data.Nat.Notation
import Mathlib.Logic.Function.Basic
import Muster.Lib.Machine

/-!
# ChildGroup — no tracked child escapes the final sweep

Threads claim a slot each for the groups they track, a flag refuses them once muster is ending, and sweeps
read the slots one by one.  Between checking the flag and claiming a slot the end may come; the second check
after the claim settles it: a call that still finds the flag unset claimed its slot before the final sweep
began to read (`Swept`).
-/

namespace Muster.Os

def maxGroups : ℕ := 64
def free : ℕ := 0
def i32Max : ℕ := 2 ^ 31 - 1

/-- A process id above init's. -/
structure Pid where
  val : ℕ
  above : 1 < val
  word : val < 2 ^ 32
deriving DecidableEq, Repr

/-- Where a `track` call stands, and its guard after it. -/
inductive Call where
  | fresh
  | checking (leader : Pid)
  /-- About to try the slot `i`. -/
  | claiming (leader : Pid) (i : ℕ)
  /-- Claimed the slot and has not checked the flag again. -/
  | claimed (leader : Pid) (i : ℕ)
  /-- Returned a guard, which lives. -/
  | guard (leader : Pid) (i : ℕ)
  /-- Found the flag set after its claim and has not given the slot back. -/
  | refusing (leader : Pid) (i : ℕ)
  /-- Returned none. -/
  | refused
  /-- Its guard is gone. -/
  | dropped
deriving DecidableEq, Repr

def Call.holding : Call → Option (Pid × ℕ)
  | .claimed leader i | .guard leader i | .refusing leader i => some (leader, i)
  | _ => none

def Call.guarded : Call → Bool
  | .guard _ _ | .dropped => true
  | _ => false

structure State where
  slots : ℕ → ℕ
  calls : ℕ → Call
  /-- The end: none before it set the flag, then the next slot its sweep reads. -/
  ender : Option ℕ
  /-- The next slot each call of `kill_all` reads. -/
  killers : ℕ → ℕ
  killed : List ℕ
  swept : List ℕ

namespace State

def new : State := ⟨fun _ => free, fun _ => .fresh, none, fun _ => 0, [], []⟩

def ended (s : State) : Bool := s.ender.isSome

def put (s : State) (c : ℕ) (call : Call) : State := { s with calls := Function.update s.calls c call }

@[simp] theorem put_calls_self (s : State) (c : ℕ) (call : Call) : (s.put c call).calls c = call :=
  Function.update_self ..

theorem put_calls_of_ne (s : State) {c c' : ℕ} (h : c' ≠ c) (call : Call) :
    (s.put c call).calls c' = s.calls c' :=
  Function.update_of_ne h ..

end State

def signalled (word : ℕ) : List ℕ := if 0 < word ∧ word ≤ i32Max then [word] else []

inductive Event where
  | start (c : ℕ) (leader : Pid)
  | check (c : ℕ)
  | claim (c : ℕ)
  | recheck (c : ℕ)
  | drop (c : ℕ)
  | kill (k : ℕ)
  | endAll
  | sweep
deriving DecidableEq, Repr

/-- One atomic step; a step of an operation that is not under way does nothing. -/
def next (s : State) : Event → State
  | .start c leader =>
    match s.calls c with
    | .fresh => s.put c (.checking leader)
    | _ => s
  | .check c =>
    match s.calls c with
    | .checking leader => s.put c (if s.ended then .refused else .claiming leader 0)
    | _ => s
  | .claim c =>
    match s.calls c with
    | .claiming leader i =>
      if i < maxGroups then
        if s.slots i = free then
          { s.put c (.claimed leader i) with slots := Function.update s.slots i leader.val }
        else s.put c (.claiming leader (i + 1))
      else s.put c .refused
    | _ => s
  | .recheck c =>
    match s.calls c with
    | .claimed leader i => s.put c (if s.ended then .refusing leader i else .guard leader i)
    | _ => s
  | .drop c =>
    match s.calls c with
    | .refusing _ i => { s.put c .refused with slots := Function.update s.slots i free }
    | .guard _ i => { s.put c .dropped with slots := Function.update s.slots i free }
    | _ => s
  | .kill k =>
    if s.killers k < maxGroups then
      { s with
        killers := Function.update s.killers k (s.killers k + 1)
        killed := s.killed ++ signalled (s.slots (s.killers k)) }
    else s
  | .endAll => if s.ended then s else { s with ender := some 0 }
  | .sweep =>
    match s.ender with
    | some i =>
      if i < maxGroups then
        { s with ender := some (i + 1), swept := s.swept ++ signalled (s.slots i) }
      else s
    | none => s

def machine : Machine State Event where
  Enabled _ _ := True
  next := next

instance (s : State) (e : Event) : Decidable (machine.Enabled s e) := inferInstanceAs (Decidable True)

/-- What a step can do. -/
inductive Stepped (s : State) : State → Prop where
  | stutter : Stepped s s
  /-- A call goes on with the slot it has, if any; it returns a guard only while the flag is not set. -/
  | move (c : ℕ) (call : Call) (hsame : call.holding = (s.calls c).holding)
      (hguard : call.guarded = true → s.ended = false) :
      Stepped s (s.put c call)
  | claim {c i : ℕ} {leader : Pid} (hcall : s.calls c = .claiming leader i) (hi : i < maxGroups)
      (hfree : s.slots i = free) :
      Stepped s { s.put c (.claimed leader i) with slots := Function.update s.slots i leader.val }
  | refuse {c i : ℕ} {leader : Pid} (hcall : s.calls c = .refusing leader i) :
      Stepped s { s.put c .refused with slots := Function.update s.slots i free }
  | drop {c i : ℕ} {leader : Pid} (hcall : s.calls c = .guard leader i) :
      Stepped s { s.put c .dropped with slots := Function.update s.slots i free }
  | kill (killers : ℕ → ℕ) (killed : List ℕ) : Stepped s { s with killers := killers, killed := killed }
  | endAll (hender : s.ender = none) : Stepped s { s with ender := some 0 }
  | sweep {i : ℕ} (hender : s.ender = some i) :
      Stepped s { s with ender := some (i + 1), swept := s.swept ++ signalled (s.slots i) }

theorem stepped (s : State) (e : Event) : Stepped s (next s e) := by
  cases e with
  | start c leader =>
    rw [next]
    split
    · next hcall => exact .move c _ (by rw [hcall]; rfl) nofun
    · exact .stutter
  | check c =>
    rw [next]
    split
    · next hcall =>
      refine .move c _ ?_ ?_
      · rw [hcall]
        split <;> rfl
      · split <;> exact nofun
    · exact .stutter
  | claim c =>
    rw [next]
    split
    · next leader i hcall =>
      split
      · next hi =>
        split
        · next hfree => exact .claim hcall hi hfree
        · exact .move c _ (by rw [hcall]; rfl) nofun
      · exact .move c _ (by rw [hcall]; rfl) nofun
    · exact .stutter
  | recheck c =>
    rw [next]
    split
    · next leader i hcall =>
      refine .move c _ ?_ ?_
      · rw [hcall]
        split <;> rfl
      · split
        · exact nofun
        · next hended => exact fun _ => Bool.eq_false_iff.2 hended
    · exact .stutter
  | drop c =>
    rw [next]
    split
    · next hcall => exact .refuse hcall
    · next hcall => exact .drop hcall
    · exact .stutter
  | kill k =>
    rw [next]
    split
    · exact .kill _ _
    · exact .stutter
  | endAll =>
    rw [next]
    split
    · exact .stutter
    · next hended => exact .endAll (Option.not_isSome_iff_eq_none.1 hended)
  | sweep =>
    rw [next]
    split
    · next hender =>
      split
      · exact .sweep hender
      · exact .stutter
    · exact .stutter

/-! ### Each slot has one owner -/

/-- The words in the slots are those of the calls that hold them, each by one call. -/
structure Owned (slots : ℕ → ℕ) (held : ℕ → Option (Pid × ℕ)) : Prop where
  word : ∀ c leader i, held c = some (leader, i) → slots i = leader.val
  sole : ∀ c c' leader leader' i, held c = some (leader, i) → held c' = some (leader', i) → c = c'
  taken : ∀ i, slots i ≠ free → ∃ c leader, held c = some (leader, i)

namespace Owned

variable {slots : ℕ → ℕ} {held : ℕ → Option (Pid × ℕ)} {c i : ℕ} {leader : Pid}

theorem not_held (h : Owned slots held) (hfree : slots i = free) (c : ℕ) (leader : Pid) :
    held c ≠ some (leader, i) := by
  intro hheld
  have hword := h.word c leader i hheld
  have := leader.above
  rw [hfree, free] at hword
  omega

theorem claim (h : Owned slots held) (hnone : held c = none) (hfree : slots i = free) :
    Owned (Function.update slots i leader.val) (Function.update held c (some (leader, i))) := by
  refine ⟨fun c' leader' j hheld => ?_, fun a b leader' leader'' j ha hb => ?_, fun j hj => ?_⟩
  · by_cases hc : c' = c
    · subst hc
      rw [Function.update_self] at hheld
      cases hheld
      exact Function.update_self ..
    · rw [Function.update_of_ne hc] at hheld
      have hj : j ≠ i := fun heq => h.not_held hfree c' leader' (heq ▸ hheld)
      rw [Function.update_of_ne hj]
      exact h.word c' leader' j hheld
  · -- two holders of one slot: neither can be the new one, whose slot was free
    by_cases hac : a = c <;> by_cases hbc : b = c
    · rw [hac, hbc]
    · subst hac
      rw [Function.update_self] at ha
      rw [Function.update_of_ne hbc] at hb
      cases ha
      exact absurd hb (h.not_held hfree b leader'')
    · subst hbc
      rw [Function.update_self] at hb
      rw [Function.update_of_ne hac] at ha
      cases hb
      exact absurd ha (h.not_held hfree a leader')
    · rw [Function.update_of_ne hac] at ha
      rw [Function.update_of_ne hbc] at hb
      exact h.sole a b leader' leader'' j ha hb
  · by_cases hji : j = i
    · exact ⟨c, leader, by rw [hji, Function.update_self]⟩
    · rw [Function.update_of_ne hji] at hj
      obtain ⟨c', leader', hheld⟩ := h.taken j hj
      have hc : c' ≠ c := fun heq => by rw [heq, hnone] at hheld; cases hheld
      exact ⟨c', leader', by rw [Function.update_of_ne hc]; exact hheld⟩

theorem release (h : Owned slots held) (hheld : held c = some (leader, i)) :
    Owned (Function.update slots i free) (Function.update held c none) := by
  have hrest : ∀ c' leader' j, Function.update held c none c' = some (leader', j) →
      held c' = some (leader', j) ∧ j ≠ i := by
    intro c' leader' j hheld'
    by_cases hc : c' = c
    · rw [hc, Function.update_self] at hheld'
      cases hheld'
    · rw [Function.update_of_ne hc] at hheld'
      exact ⟨hheld', fun heq => hc (h.sole c' c leader' leader i (heq ▸ hheld') hheld)⟩
  refine ⟨fun c' leader' j hheld' => ?_, fun a b leader' leader'' j ha hb => ?_, fun j hj => ?_⟩
  · obtain ⟨hbefore, hne⟩ := hrest c' leader' j hheld'
    rw [Function.update_of_ne hne]
    exact h.word c' leader' j hbefore
  · exact h.sole a b leader' leader'' j (hrest a leader' j ha).1 (hrest b leader'' j hb).1
  · by_cases hji : j = i
    · exact absurd (by rw [hji, Function.update_self]) hj
    · rw [Function.update_of_ne hji] at hj
      obtain ⟨c', leader', hheld'⟩ := h.taken j hj
      have hc : c' ≠ c := by
        rintro rfl
        rw [hheld] at hheld'
        cases hheld'
        exact hji rfl
      exact ⟨c', leader', by rw [Function.update_of_ne hc]; exact hheld'⟩

end Owned

def State.held (s : State) (c : ℕ) : Option (Pid × ℕ) := (s.calls c).holding

theorem State.held_put (s : State) (c : ℕ) (call : Call) :
    (s.put c call).held = Function.update s.held c call.holding := by
  funext c'
  by_cases hc : c' = c
  · rw [hc, Function.update_self, held, put_calls_self]
  · rw [Function.update_of_ne hc, held, put_calls_of_ne s hc, held]

variable {s t : State} {c : ℕ} {call : Call}

theorem Stepped.owned (h : Stepped s t) (hs : Owned s.slots s.held) : Owned t.slots t.held := by
  cases h with
  | stutter => exact hs
  | move c call hsame hguard =>
    rw [State.held_put, hsame, show (s.calls c).holding = s.held c from rfl, Function.update_eq_self]
    exact hs
  | @claim c i leader hcall hi hfree =>
    have hnone : s.held c = none := by rw [State.held, hcall]; rfl
    show Owned _ (s.put c (.claimed leader i)).held
    rw [State.held_put]
    exact hs.claim hnone hfree
  | @refuse c i leader hcall =>
    have hheld : s.held c = some (leader, i) := by rw [State.held, hcall]; rfl
    show Owned _ (s.put c .refused).held
    rw [State.held_put]
    exact hs.release hheld
  | @drop c i leader hcall =>
    have hheld : s.held c = some (leader, i) := by rw [State.held, hcall]; rfl
    show Owned _ (s.put c .dropped).held
    rw [State.held_put]
    exact hs.release hheld
  | kill | endAll | sweep => exact hs

/-! ### The final sweep -/

/-- What the end's sweep has read of a living guard's slot it killed. -/
def Swept (s : State) : Prop := ∀ c leader i j, s.calls c = .guard leader i → s.ender = some j → i < j →
  leader.val ≤ i32Max → leader.val ∈ s.swept

theorem State.put_calls (s : State) {c' : ℕ} {call' : Call} (h : (s.put c call).calls c' = call') :
    c' = c ∧ call = call' ∨ s.calls c' = call' := by
  by_cases hc : c' = c
  · refine .inl ⟨hc, ?_⟩
    rw [← h, hc, put_calls_self]
  · rw [put_calls_of_ne s hc] at h
    exact .inr h

theorem Swept.put (hs : Swept s) (hcall : ∀ leader i, call = .guard leader i → s.ended = false) :
    ∀ c' leader i j, (s.put c call).calls c' = .guard leader i → s.ender = some j → i < j →
      leader.val ≤ i32Max → leader.val ∈ s.swept := by
  intro c' leader i j hguard hender hlt hword
  rcases s.put_calls hguard with ⟨-, hcall'⟩ | hbefore
  · have hended := hcall leader i hcall'
    rw [State.ended, hender] at hended
    cases hended
  · exact hs c' leader i j hbefore hender hlt hword

theorem Stepped.swept (h : Stepped s t) (howned : Owned s.slots s.held) (hs : Swept s) : Swept t := by
  cases h with
  | stutter | kill => exact hs
  | move c call hsame hguard => exact hs.put fun leader i heq => hguard (by rw [heq]; rfl)
  | claim hcall hi hfree => exact hs.put fun leader i h => by cases h
  | refuse hcall => exact hs.put fun leader i h => by cases h
  | drop hcall => exact hs.put fun leader i h => by cases h
  | endAll hender =>
    intro c leader i j hguard hender' hlt
    cases hender'
    exact absurd hlt (Nat.not_lt_zero i)
  | @sweep k hender =>
    intro c leader i j hguard hender' hlt hword
    cases hender'
    rcases Nat.lt_or_eq_of_le (Nat.le_of_lt_succ hlt) with hlt | rfl
    · exact List.mem_append_left _ (hs c leader i k hguard hender hlt hword)
    · -- the slot read now is the guard's
      have hslot : s.slots i = leader.val := howned.word c leader i (by rw [State.held, hguard]; rfl)
      refine List.mem_append_right _ ?_
      rw [signalled, hslot, if_pos ⟨Nat.lt_trans Nat.one_pos leader.above, hword⟩]
      exact List.mem_singleton_self _

theorem State.guarded_put {c' : ℕ} (h : call.guarded = false) (hc : (s.calls c').guarded = false) :
    ((s.put c call).calls c').guarded = false := by
  by_cases heq : c' = c
  · rw [heq, put_calls_self, h]
  · rw [put_calls_of_ne s heq, hc]

theorem Stepped.unguarded (h : Stepped s t) (hs : s.ended = true ∧ (s.calls c).guarded = false) :
    t.ended = true ∧ (t.calls c).guarded = false := by
  obtain ⟨hended, hc⟩ := hs
  cases h with
  | stutter | kill => exact ⟨hended, hc⟩
  | move c' call hsame hguard =>
    refine ⟨hended, State.guarded_put (Bool.eq_false_iff.2 fun hcall => ?_) hc⟩
    rw [hguard hcall] at hended
    cases hended
  | claim hcall hi hfree => exact ⟨hended, State.guarded_put rfl hc⟩
  | refuse hcall => exact ⟨hended, State.guarded_put rfl hc⟩
  | @drop c' i leader hcall =>
    have hne : c ≠ c' := by
      rintro rfl
      rw [hcall] at hc
      cases hc
    refine ⟨hended, ?_⟩
    show ((s.put c' .dropped).calls c).guarded = false
    rw [State.put_calls_of_ne s hne, hc]
  | endAll hender | sweep hender => exact ⟨rfl, hc⟩

/-- However the steps interleave: no slot is held by two calls at once; a living guard whose slot the end's
sweep has read had its group killed, when its leader is a process id; a call that has returned no guard when
the flag is set never returns one; and every slot taken is held by a call, so by none that returned none. -/
theorem no_tracked_child_escapes (hs : machine.Reaches .new s) :
    (∀ c c' leader leader' i, (s.calls c).holding = some (leader, i) →
      (s.calls c').holding = some (leader', i) → c = c') ∧
    (∀ c leader i j, s.calls c = .guard leader i → s.ender = some j → i < j → leader.val ≤ i32Max →
      leader.val ∈ s.swept) ∧
    (∀ c, s.ended = true → (s.calls c).guarded = false →
      ∀ t, machine.Reaches s t → (t.calls c).guarded = false) ∧
    ∀ i, s.slots i ≠ free → ∃ c leader, (s.calls c).holding = some (leader, i) ∧ s.calls c ≠ .refused := by
  have hnew : Owned State.new.slots State.new.held ∧ Swept State.new :=
    ⟨⟨fun c leader i h => (by cases h), fun c c' leader leader' i h => (by cases h),
      fun i hi => absurd rfl hi⟩, fun c leader i j h => (by cases h)⟩
  have hinv : Owned s.slots s.held ∧ Swept s :=
    hs.invariant (P := fun s => Owned s.slots s.held ∧ Swept s)
      (fun a e ha _ => ⟨(stepped a e).owned ha.1, (stepped a e).swept ha.1 ha.2⟩) hnew
  obtain ⟨howned, hswept⟩ := hinv
  refine ⟨howned.sole, hswept, fun c hended hc t ht => ?_, fun i hi => ?_⟩
  · have hlate : t.ended = true ∧ (t.calls c).guarded = false :=
      ht.invariant (P := fun t => t.ended = true ∧ (t.calls c).guarded = false)
        (fun a e ha _ => (stepped a e).unguarded ha) ⟨hended, hc⟩
    exact hlate.2
  · obtain ⟨c, leader, hheld⟩ := howned.taken i hi
    refine ⟨c, leader, hheld, fun hrefused => ?_⟩
    rw [State.held, hrefused] at hheld
    cases hheld

/-- A group tracked before the end is killed by its sweep; a call that raced its claim with the end is
refused. -/
theorem no_tracked_child_escapes_of_race :
    let leader : Pid := ⟨4242, by decide, by decide⟩
    let s := machine.play .new [.start 0 leader, .start 1 leader, .check 0, .check 1, .claim 0,
      .recheck 0, .endAll, .claim 1, .claim 1, .recheck 1, .sweep]
    s.calls 0 = .guard leader 0 ∧ leader.val ∈ s.swept ∧
      ∀ t, machine.Reaches s t → (t.calls 1).guarded = false := by
  intro leader s
  have hs : machine.Reaches .new s := Machine.reaches_play (by decide)
  obtain ⟨-, hswept, hlate, -⟩ := no_tracked_child_escapes hs
  exact ⟨by decide, hswept 0 leader 0 1 (by decide) (by decide) (by decide) (by decide),
    hlate 1 (by decide) (by decide)⟩

/-- A leader no process can have is tracked and not killed. -/
theorem sweep_skips_leader_past_pids :
    let leader : Pid := ⟨2 ^ 32 - 1, by decide, by decide⟩
    let s := machine.play .new [.start 0 leader, .check 0, .claim 0, .recheck 0, .endAll, .sweep]
    s.calls 0 = .guard leader 0 ∧ s.slots 0 = leader.val ∧ s.ender = some 1 ∧ s.swept = [] := by
  intro leader s
  exact ⟨by decide, by decide, by decide, by decide⟩

end Muster.Os
