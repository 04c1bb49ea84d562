import Mathlib.Data.Option.Basic
import Muster.Service.IdleStops

/-!
# IdleMirror — the stored idle stops and the pending ones

At the end of every tick the service compares the idle stops pending with those it remembers having told the
store of, hands over the differences and remembers what is pending now.  What it remembers and what is stored
go together while a project is registered, so after every tick the store has an idle stop of exactly the
registered projects one is pending for — unless a project is registered while one is pending: the store drops
an idle stop with the project's registration and takes none without it, and the service is none the wiser.
-/

namespace Muster.Service

open Config (ProjectRoot)

variable {s s' : Service} {root : ProjectRoot} {turn : Turn}

/-- The store has an idle stop of the project exactly while the loaded project has a leave. -/
def Mirrors (root : ProjectRoot) (s : Service) : Prop :=
  (s.store.idleStops root).isSome ↔ ∃ p, s.projects root = some p ∧ p.leftAt.isSome

theorem mirrors_iff : Mirrors root s ↔ (s.store.idleStops root).isSome = (s.armed root).isSome := by
  have hany : (s.armed root).isSome = true ↔ ∃ p, s.projects root = some p ∧ p.leftAt.isSome := by
    rw [armed, Option.isSome_bind, Option.any_eq_true]
  rw [Mirrors, ← hany]
  exact Bool.eq_iff_iff.symm

/-- The store has no idle stop of a project that is not registered. -/
def Listed (root : ProjectRoot) (s : Service) : Prop :=
  s.store.stackOf root = none → s.store.idleStops root = none

section Run

-- The service before the one that runs, and when that one took over its idle stops.
variable (s₀ : Service) (started : ℤ)

/-- A stored time goes with a leave: it is the time of the leave, or the service took it over and restored
the leave from it. -/
def Dates (root : ProjectRoot) (left : ℤ) (stored : ℕ) : Prop :=
  stored = millis (left + s₀.offset) ∨
    s₀.store.idleStops root = some stored ∧ left = s₀.restoredLeave started stored

/-- The store has an idle stop of a registered project exactly if the service remembers one, of that leave. -/
structure Told (root : ProjectRoot) (s : Service) : Prop where
  offset : s.offset = s₀.offset
  listed : Listed root s
  stored : (s.store.stackOf root).isSome →
    Option.Rel (Dates s₀ started root) (s.recordedIdle root) (s.store.idleStops root)

/-- Between two turns: what is remembered is what is pending, and no leave is still to come. -/
structure Mirrored (root : ProjectRoot) (s : Service) : Prop where
  told : Told s₀ started root s
  recorded : s.recordedIdle root = s.armed root
  past : ∀ left, s.armed root = some left → left ≤ s.now

variable {s₀ started} {now : ℤ}

theorem Told.untold (h : Told s₀ started root s) (hs : Untold now s s') : Told s₀ started root s' := by
  obtain ⟨hstore, hrecorded, hoffset, -⟩ := hs
  exact ⟨hoffset.trans h.offset, by rw [Listed, hstore]; exact h.listed,
    by rw [hstore, hrecorded]; exact h.stored⟩

theorem Told.quiet (h : Told s₀ started root s) (hs : Quiet s s') : Told s₀ started root s' :=
  h.untold (hs.untold : Untold 0 s s')

/-- Handing over the differences, the service remembers what is pending and the store has the same. -/
theorem Told.record (h : Told s₀ started root s)
    (hpast : ∀ left, s.armed root = some left → left ≤ now) :
    Told s₀ started root (s.recordIdleStops now) := by
  refine ⟨h.offset, fun hnone => ?_, fun hsome => ?_⟩
  · have hnone : s.store.stackOf root = none := hnone
    show s.recordIdle now root = none
    rw [recordIdle, if_pos (Option.isNone_iff_eq_none.2 hnone), h.listed hnone]
  · show Option.Rel _ (s.armed root) (s.recordIdle now root)
    have hlisted : ¬ (s.store.stackOf root).isNone := by
      rw [Option.isNone_iff_eq_none]
      exact Option.isSome_iff_ne_none.1 hsome
    have hrel := h.stored hsome
    rw [recordIdle, if_neg hlisted]
    cases harmed : s.armed root with
    | some left =>
      dsimp only
      split
      next hsame =>
        rw [hsame] at hrel
        exact hrel
      · have hleft := hpast left harmed
        refine .some (.inl (congrArg millis ?_))
        rw [← h.offset]
        omega
    | none =>
      dsimp only
      split
      · exact .none
      next hforgot =>
        rw [Option.not_isSome_iff_eq_none.1 hforgot] at hrel
        exact hrel

theorem mirrored_record (h : Told s₀ started root s)
    (hpast : ∀ left, s.armed root = some left → left ≤ now) :
    Mirrored s₀ started root { s.recordIdleStops now with now } :=
  ⟨⟨(h.record hpast).offset, (h.record hpast).listed, (h.record hpast).stored⟩, rfl, hpast⟩

theorem mirrored_tick (h : Told s₀ started root s)
    (hpast : ∀ left, s.armed root = some left → left ≤ turn.tick) :
    Mirrored s₀ started root (s.tick turn) := by
  have hbefore := h.quiet (quiet_beforeStops turn)
  have hstopped : Told s₀ started root ((s.beforeStops turn).stopIdle turn) :=
    ⟨hbefore.offset, hbefore.listed, hbefore.stored⟩
  refine mirrored_record (hstopped.quiet quiet_letGo) fun left hleft => ?_
  exact hpast left
    ((quiet_beforeStops turn).armed root left (armed_stopIdle (quiet_letGo.armed root left hleft)))

theorem mirrored_restart (hlisted : Listed root s₀) (records : List ShellRecord) (live : ShellId → Bool)
    (hle : turn.now ≤ turn.tick) :
    Mirrored s₀ turn.tick root (s₀.restart records live true turn) := by
  have huntold : Untold turn.now (s₀.adoptRunning turn)
      ((s₀.adoptRunning turn).restoreShells records live turn.now) := untold_occupancyChanged _ _
  have hstore := huntold.store
  have hoffset := huntold.offset
  refine mirrored_record ⟨hoffset, ?_, fun _ => ?_⟩ fun left hleft => ?_
  · show Listed root ((s₀.adoptRunning turn).restoreShells records live turn.now)
    rw [Listed, hstore]
    exact hlisted
  · -- Each stored idle stop is remembered as the leave it is restored to.
    dsimp only
    rw [if_pos rfl, hstore]
    show Option.Rel _ ((s₀.store.idleStops root).map _) (s₀.store.idleStops root)
    cases hstored : s₀.store.idleStops root with
    | none => exact .none
    | some stored => exact .some (.inr ⟨hstored, by rw [restoredLeave, hoffset]; rfl⟩)
  · obtain harmed | ⟨-, stored, -, rfl⟩ := armed_restoreIdleStops hleft
    · obtain harmed | rfl := huntold.armed root left harmed
      · rw [adoptRunning_armed] at harmed
        cases harmed
      · exact hle
    · rw [restoredLeave]
      omega

end Run

/-- The service goes on, and no project is registered while an idle stop of it is pending. -/
def Keeps (root : ProjectRoot) (s : Service) : Event → Prop
  | .storeStack changed stack =>
    changed = root → stack.isSome → (s.store.stackOf root).isNone → s.armed root = none
  | .restart _ _ _ => False
  | _ => True

instance Keeps.decidable (root : ProjectRoot) (s : Service) : ∀ e, Decidable (Keeps root s e)
  | .storeStack changed stack => inferInstanceAs (Decidable (changed = root → stack.isSome →
      (s.store.stackOf root).isNone → s.armed root = none))
  | .restart _ _ _ => isFalse id
  | .delivered _ _ | .look _ _ | .up _ | .down _ | .control _ _ _ | .stackChanged _
  | .settingsChanged | .shellReport _ _ _ | .shellsGone _ | .timeout
  | .storeSettings _ => isTrue trivial

variable {s₀ : Service} {started : ℤ}

theorem Mirrored.storeStack (h : Mirrored s₀ started root s) {changed : ProjectRoot} {stack : Option Stack}
    (hkeeps : changed = root → stack.isSome → (s.store.stackOf root).isNone → s.armed root = none) :
    Mirrored s₀ started root (s.storeStack changed stack) := by
  refine ⟨?_, h.recorded, h.past⟩
  by_cases hroot : root = changed
  · subst hroot
    cases stack with
    | none =>
      refine ⟨h.told.offset, fun _ => Function.update_self .., fun hsome => ?_⟩
      have hnone : (s.storeStack root none).store.stackOf root = none := Function.update_self ..
      rw [hnone] at hsome
      cases hsome
    | some stack =>
      refine ⟨h.told.offset, fun hnone => ?_, fun _ => ?_⟩
      · have hsome : (s.storeStack root (some stack)).store.stackOf root = some stack :=
          Function.update_self ..
        rw [hsome] at hnone
        cases hnone
      · show Option.Rel _ (s.recordedIdle root) (s.store.idleStops root)
        cases hbefore : s.store.stackOf root with
        | some before => exact h.told.stored (by rw [hbefore]; rfl)
        | none =>
          rw [h.told.listed hbefore, h.recorded, hkeeps rfl rfl (by rw [hbefore]; rfl)]
          exact .none
  · have hstack : (s.storeStack changed stack).store.stackOf root = s.store.stackOf root :=
      Function.update_of_ne hroot _ _
    have hidle : (s.storeStack changed stack).store.idleStops root = s.store.idleStops root := by
      show (if stack.isSome then s.store.idleStops
        else Function.update s.store.idleStops changed none) root = _
      split
      · rfl
      · exact Function.update_of_ne hroot _ _
    refine ⟨h.told.offset, ?_, ?_⟩
    · rw [Listed, hstack, hidle]
      exact h.told.listed
    · rw [hstack, hidle]
      exact h.told.stored

theorem Mirrored.next (h : Mirrored s₀ started root s) {e : Event × Turn} (hen : machine.Enabled s e)
    (hkeeps : Keeps root s e.1) : Mirrored s₀ started root (machine.next s e) := by
  obtain ⟨event, turn⟩ := e
  obtain ⟨hnow, hle, -⟩ := hen
  have huntold : Untold turn.now s (s.handle turn event) := untold_handle event
  have hhandled : Mirrored s₀ started root ((s.handle turn event).tick turn) := by
    refine mirrored_tick (h.told.untold huntold) fun left hleft => ?_
    obtain harmed | rfl := huntold.armed root left hleft
    · exact (h.past left harmed).trans (hnow.trans hle)
    · exact hle
  cases event with
  | storeStack changed stack => exact h.storeStack hkeeps
  | storeSettings settings => exact ⟨⟨h.told.offset, h.told.listed, h.told.stored⟩, h.recorded, h.past⟩
  | restart records live readable => exact hkeeps.elim
  | delivered | look | up | down | control | stackChanged | settingsChanged | shellReport
  | shellsGone | timeout => exact hhandled

/-- From any stored idle stops that can be read, whatever happens while no project is registered with an idle
stop pending: the store has an idle stop of a registered project exactly while the loaded project has a leave,
and the stored time is that of the leave, or the service took it over and restored the leave from it.  Of a
project that is not registered nothing is stored, and registering it then makes the two agree exactly if
nothing is pending. -/
theorem stored_idle_stops_mirror_pending (hlisted : Listed root s₀) (records : List ShellRecord)
    (live : ShellId → Bool) (hle : turn.now ≤ turn.tick)
    (hs : (machine.restrict fun s e => Keeps root s e.1).Reaches (s₀.restart records live true turn) s) :
    ((s.store.stackOf root).isSome → Mirrors root s) ∧
      (s.store.stackOf root = none → s.store.idleStops root = none ∧
        ∀ stack, Mirrors root (s.storeStack root (some stack)) ↔ s.armed root = none) ∧
      ∀ p left stored, s.projects root = some p → p.leftAt = some left →
        s.store.idleStops root = some stored → Dates s₀ turn.tick root left stored := by
  have h : Mirrored s₀ turn.tick root s :=
    hs.invariant_restrict (P := Mirrored s₀ turn.tick root) (fun _ _ h hen hkeeps => h.next hen hkeeps)
      (mirrored_restart hlisted records live hle)
  have hrel := h.told.stored
  rw [h.recorded] at hrel
  refine ⟨fun hsome => ?_, fun hnone => ⟨h.told.listed hnone, fun stack => ?_⟩,
    fun p left stored hp hleft hstored => ?_⟩
  · have hrel := hrel hsome
    rw [mirrors_iff]
    generalize s.store.idleStops root = stored, s.armed root = left at hrel
    cases hrel <;> rfl
  · have hidle : (s.storeStack root (some stack)).store.idleStops root = none := h.told.listed hnone
    rw [mirrors_iff, hidle]
    show false = (s.armed root).isSome ↔ _
    rw [eq_comm, Option.isSome_eq_false_iff, Option.isNone_iff_eq_none]
  · have hsome : (s.store.stackOf root).isSome := by
      rw [Option.isSome_iff_ne_none]
      intro hnone
      rw [h.told.listed hnone] at hstored
      cases hstored
    have hrel := hrel hsome
    rw [armed, hp, hstored, Option.bind_some, hleft] at hrel
    cases hrel with
    | some hdates => exact hdates

def shopStarted : Service := shopService.restart [] (fun _ => true) true (plainTurn 0)

theorem stored_idle_stops_mirror_pending_of_leave :
    let s := machine.play shopStarted shopLeft
    s.store.idleStops shop = some 5 ∧ ∃ p, s.projects shop = some p ∧ p.leftAt.isSome := by
  have hstored : (machine.play shopStarted shopLeft).store.idleStops shop = some 5 := by decide
  refine ⟨hstored, ?_⟩
  have hruns : (machine.restrict fun s e => Keeps shop s e.1).Reaches shopStarted
      (machine.play shopStarted shopLeft) := Machine.reaches_play_restrict (by decide)
  have hlisted : Listed shop shopService := fun _ => rfl
  obtain ⟨hmirrors, -⟩ := stored_idle_stops_mirror_pending hlisted _ _ (by decide) hruns
  exact (hmirrors (by decide)).1 (by rw [hstored]; rfl)

/-- The shop is unregistered and registered again while its idle stop is pending. -/
def shopRegisteredAgain : List (Event × Turn) :=
  shopLeft ++ [(.storeStack shop none, plainTurn 6000000),
    (.storeStack shop (some shopStack), plainTurn 6000000),
    (.timeout, plainTurn 7000000)]

/-- The idle stop is still pending, and the store no longer has it. -/
theorem idle_stop_pending_unstored :
    let s := machine.play shopStarted shopRegisteredAgain
    machine.Reaches shopStarted s ∧ (s.store.stackOf shop).isSome ∧ s.armed shop = some 5000000 ∧
      s.store.idleStops shop = none :=
  ⟨Machine.reaches_play (by decide), by decide, by decide, by decide⟩

end Muster.Service
