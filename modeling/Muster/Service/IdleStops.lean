import Muster.Service.Runtime
import Muster.Supervisor.Promises

/-!
# IdleStops — an idle stop is never early

A leave instant is pending only while no shell is in the project and the last thing to happen to it
was its last shell leaving, no later than that instant.  The store mirrors what is pending, so a
service started later arms no earlier, as long as no shell that ended meanwhile is on record in a
project with an idle stop pending.
-/

namespace Muster.Service

open Config (ProjectRoot)
open Supervisor

/-! ### What handling an event does to a leave instant -/

namespace Project

variable (p : Project)

theorem handle_leftAt (event : Supervisor.Event) :
    (p.handle event).All fun p' => p'.leftAt = p.leftAt := by
  simp only [handle, Acts.all_bind, Acts.all_pure]
  exact Acts.all_of_forall _ fun s => rfl

theorem stackChanged_leftAt (stored : Option Stack) :
    (p.stackChanged stored).All fun p' => p'.leftAt = p.leftAt := by
  cases stored with
  | none => exact (p.handle_leftAt _).bind fun p' h => h
  | some stack => exact (p.handle_leftAt _).bind fun p' h => h

theorem refreshStack_leftAt (stored : Option Stack) :
    (p.refreshStack stored).All fun p' => p'.leftAt = p.leftAt := by
  unfold refreshStack
  split
  · rfl
  · exact p.stackChanged_leftAt stored

theorem enter_leftAt : p.enter.All fun r => r.1.leftAt = p.leftAt :=
  (p.handle_leftAt .up).bind fun _ h => h

theorem load_leftAt {stored : Option Stack} {found : Found} {setting : IdleStop} {act : Act Project}
    (h : load stored found setting = some act) : act.All fun p => p.leftAt = none := by
  unfold load at h
  split at h
  · cases h
    simp only [Acts.all_bind, Acts.all_pure]
    exact Acts.all_of_forall _ fun _ => trivial
  · split at h
    · cases h
    · cases h
      simp only [Acts.all_bind, Acts.all_pure]
      exact Acts.all_of_forall _ fun _ => trivial

theorem serve_leftAt (request : Supervisor.Event) : (p.serve request).All fun p' =>
    p'.leftAt = if bringsUp request then none else p.leftAt := by
  simp only [serve, Acts.all_bind, Acts.all_pure]
  exact Acts.all_of_forall _ fun _ => trivial

theorem idleStopIfDue_leftAt (now : ℤ) : (p.idleStopIfDue now).All fun p' =>
    ∀ l, p'.leftAt = some l → p.leftAt = some l := by
  unfold idleStopIfDue
  dsimp only
  split
  · split
    · simp only [Acts.all_bind, Acts.all_pure]
      exact Acts.all_of_forall _ fun r l h => by simp at h
    · intro l h
      simp at h
  · exact fun l h => h

end Project

/-! ### Steps that arm nothing -/

/-- The table, the store and what happened are as they were, and no leave instant is new. -/
structure Quiet (s s' : Service) : Prop where
  armed : ∀ root l, s'.armed root = some l → s.armed root = some l
  occupancy : s'.occupancy = s.occupancy
  last : s'.last = s.last
  idleStops : s'.idleStops = s.idleStops
  store : s'.store = s.store
  recordedIdle : s'.recordedIdle = s.recordedIdle
  offset : s'.offset = s.offset

variable {s s' : Service} {root : ProjectRoot} {turn : Turn} {p : Project}

theorem Quiet.refl (s : Service) : Quiet s s := ⟨fun _ _ h => h, rfl, rfl, rfl, rfl, rfl, rfl⟩

theorem Quiet.trans {s'' : Service} (h : Quiet s s') (h' : Quiet s' s'') : Quiet s s'' where
  armed root l hl := h.armed root l (h'.armed root l hl)
  occupancy := h'.occupancy.trans h.occupancy
  last := h'.last.trans h.last
  idleStops := h'.idleStops.trans h.idleStops
  store := h'.store.trans h.store
  recordedIdle := h'.recordedIdle.trans h.recordedIdle
  offset := h'.offset.trans h.offset

theorem quiet_update {p : Option Project}
    (hp : ∀ l, p.bind (·.leftAt) = some l → s.armed root = some l) :
    Quiet s { s with projects := Function.update s.projects root p } where
  armed root' l hl := by
    by_cases hroot : root' = root
    · subst hroot
      exact hp l (by simpa [armed] using hl)
    · simpa [armed, Function.update_of_ne hroot] using hl
  occupancy := rfl
  last := rfl
  idleStops := rfl
  store := rfl
  recordedIdle := rfl
  offset := rfl

theorem quiet_put (hp : ∀ l, p.leftAt = some l → s.armed root = some l) : Quiet s (s.put root p) :=
  quiet_update hp

theorem quiet_projects {projects : ProjectRoot → Option Project}
    {entries : ProjectRoot → Option StoppingEntry}
    (h : ∀ root l, (projects root).bind (·.leftAt) = some l → s.armed root = some l) :
    Quiet s { s with projects, stoppingEntries := entries } :=
  ⟨h, rfl, rfl, rfl, rfl, rfl, rfl⟩

theorem supervisor_armed {act : Act Project} (h : s.supervisor turn root = some act) :
    act.All fun p => ∀ l, p.leftAt = some l → s.armed root = some l := by
  unfold supervisor at h
  split at h
  · next p hp =>
    cases h
    simp [armed, hp]
  · exact (Project.load_leftAt h).mono fun p hp l hl => by simp [hp] at hl

theorem refreshed_armed {act : Act Project} (h : s.refreshed turn root = some act) :
    act.All fun p => ∀ l, p.leftAt = some l → s.armed root = some l := by
  unfold refreshed at h
  split at h
  · next p hp =>
    cases h
    exact (p.refreshStack_leftAt _).mono fun p' hp' l hl => by simpa [armed, hp, hp'] using hl
  · exact (Project.load_leftAt h).mono fun p hp l hl => by simp [hp] at hl

theorem quiet_enter (shell : ShellId) (answers : List Bool) :
    Quiet s (s.enter root shell turn answers) := by
  unfold enter
  split
  · exact Quiet.refl s
  · next act hact =>
    have hp : ∀ l, (((act >>= Project.enter).run answers).1).leftAt = some l →
        s.armed root = some l :=
      Acts.All.run (P := fun r : Project × List ProcessName =>
        ∀ l, r.1.leftAt = some l → s.armed root = some l)
        ((refreshed_armed hact).bind fun p hp => p.enter_leftAt.mono fun r hr l hl =>
          hp l (hr ▸ hl)) answers
    dsimp only
    split
    · exact quiet_put hp
    · exact (quiet_put hp).trans (quiet_projects fun _ _ h => h)

theorem quiet_askedFor (root : ProjectRoot) : Quiet s (s.onProject root (·.askedFor)) :=
  quiet_update fun l hl => by
    simpa [armed, Option.bind_map, Function.comp_def] using hl

theorem quiet_keepEnvironment (shell : ShellId) (fresh : Bool) :
    Quiet s (s.keepEnvironment shell fresh) := by
  unfold keepEnvironment
  split
  · exact ⟨fun _ _ h => h, rfl, rfl, rfl, rfl, rfl, rfl⟩
  · exact Quiet.refl s

theorem quiet_enterReported (record : ShellRecord) (changes : List OccupancyChange) :
    Quiet s (s.enterReported record changes turn) := by
  unfold enterReported
  split
  · split
    · exact (quiet_askedFor _).trans (quiet_enter _ _)
    · exact Quiet.refl s
  · exact Quiet.refl s

theorem quiet_reenter : Quiet s (s.reenter turn root) := by
  have hforget : Quiet s (s.forgetEntry root) := quiet_projects fun _ _ h => h
  unfold reenter
  split
  · exact Quiet.refl s
  · split
    · exact Quiet.refl s
    · split
      · exact hforget
      · exact hforget.trans (quiet_enter _ _)

theorem quiet_beforeStops (turn : Turn) : Quiet s (s.beforeStops turn) := by
  have hsettle : Quiet s s.settle := quiet_projects fun root l h => by
    simpa [armed, Option.map_eq_map, Option.bind_map, Function.comp_def] using h
  have henter : Quiet s.settle (s.beforeStops turn) :=
    quiet_projects fun root => quiet_reenter.armed root
  exact hsettle.trans henter

theorem quiet_letGo : Quiet s s.letGo :=
  quiet_projects fun root l h => by
    split at h
    · cases h
    · exact h

theorem quiet_stackChanged : Quiet s (s.stackChanged root turn) := by
  unfold stackChanged
  split
  · next p hp =>
    refine quiet_put fun l hl => ?_
    have hsame := (p.stackChanged_leftAt (s.store.stackOf root)).run (turn.handling root)
    simpa [armed, hp, hsame] using hl
  · exact Quiet.refl s

theorem quiet_settingsChanged : Quiet s s.settingsChanged := by
  refine ⟨fun root l hl => ?_, rfl, rfl, rfl, rfl, rfl, rfl⟩
  simpa [settingsChanged, armed, Option.bind_map, Function.comp_def] using hl

theorem quiet_delivered (event : Supervisor.Event) :
    Quiet s (s.handle turn (.delivered root event)) := by
  unfold handle
  dsimp only
  split
  · next p hp =>
    refine quiet_put fun l hl => ?_
    have hsame := (p.handle_leftAt event).run (turn.handling root)
    simpa [armed, hp, hsame] using hl
  · exact Quiet.refl s

/-! ### What is pending -/

/-- The idle stop came at least its wait after the last leave, nothing having happened since and
nobody being inside. -/
def Late (stop : IdleStopped) : Prop :=
  stop.inside = [] ∧ ∃ l wait, stop.last = some (.left l) ∧ stop.idleStop.wait = some wait ∧
    l + wait ≤ stop.time

/-- Up to `now`: a leave instant is pending only of a project nobody is in, whose last shell left no
later and to which nothing happened since. -/
structure Pending (now : ℤ) (s : Service) : Prop where
  empty : ∀ root l, s.armed root = some l → s.occupancy.occupants root = 0
  left : ∀ root l, s.armed root = some l → l ≤ now ∧ ∃ l₀ ≤ l, s.last root = some (.left l₀)
  past : ∀ root l, s.last root = some (.left l) → l ≤ now
  late : ∀ root, ∀ stop ∈ s.idleStops root, Late stop

variable {now : ℤ} {table : Occupancy} {changes : List OccupancyChange}
  {answer : Service → Project → Service} {records : List ShellRecord} {live : ShellId → Bool}

theorem Pending.quiet (h : Pending now s) (q : Quiet s s') : Pending now s' where
  empty root l hl := by
    rw [q.occupancy]
    exact h.empty root l (q.armed root l hl)
  left root l hl := by
    rw [q.last]
    exact h.left root l (q.armed root l hl)
  past root l hl := h.past root l (q.last ▸ hl)
  late root stop hstop := h.late root stop (q.idleStops ▸ hstop)

theorem Pending.later {now' : ℤ} (h : Pending now s) (hle : now ≤ now') : Pending now' s where
  empty := h.empty
  left root l hl := ⟨(h.left root l hl).1.trans hle, (h.left root l hl).2⟩
  past root l hl := (h.past root l hl).trans hle
  late := h.late

theorem Pending.broughtUp (h : Pending now s) (hnone : s.armed root = none) (happening : Happening)
    (hh : ∀ l, happening ≠ .left l) : Pending now (s.happen root happening) where
  empty := h.empty
  left root' l hl := by
    have hne : root' ≠ root := fun heq => by
      rw [heq] at hl
      exact absurd (hnone.symm.trans hl) (by simp)
    simpa [Function.update_of_ne hne] using h.left root' l hl
  past root' l hl := by
    by_cases hroot : root' = root
    · subst hroot
      exact absurd (by simpa using hl) (hh l)
    · exact h.past root' l (by simpa [Function.update_of_ne hroot] using hl)
  late := h.late

/-- Taking the changes of the table one by one.  While some are left to take, a project may have a
shell in it only if its entering is among them. -/
theorem pending_changes : ∀ {changes : List OccupancyChange} {s : Service}, s.occupancy = table →
      (∀ root, .left root ∈ changes → table.occupants root = 0) →
      (∀ root l, s.armed root = some l →
        table.occupants root = 0 ∨ .entered root ∈ changes) →
      (∀ root l, s.armed root = some l → l ≤ now ∧ ∃ l₀ ≤ l, s.last root = some (.left l₀)) →
      (∀ root l, s.last root = some (.left l) → l ≤ now) →
      (∀ root, ∀ stop ∈ s.idleStops root, Late stop) →
      Pending now (changes.foldl (fun s c => s.change now c) s)
  | [], s, htable, _, hempty, hleft, hpast, hlate =>
    ⟨fun root l hl => by simpa [htable] using hempty root l hl, hleft, hpast, hlate⟩
  | .left root :: changes, s, htable, hzero, hempty, hleft, hpast, hlate => by
    refine pending_changes (s := s.change now (.left root)) (by simpa [change] using htable)
      (fun r hr => hzero r (List.mem_cons_of_mem _ hr)) (fun r l hl => ?_) (fun r l hl => ?_)
      (fun r l hl => ?_) hlate
    · by_cases hr : r = root
      · exact .inl (hr ▸ hzero root (by simp))
      · simpa using hempty r l (by simpa [change, armed, Function.update_of_ne hr] using hl)
    · by_cases hr : r = root
      · subst hr
        have hnow : now = l := by
          cases hp : s.projects r <;> simp [change, armed, hp] at hl
          exact hl
        exact ⟨hnow.ge, now, hnow.le, by simp [change]⟩
      · simpa [change, Function.update_of_ne hr] using
          hleft r l (by simpa [change, armed, Function.update_of_ne hr] using hl)
    · by_cases hr : r = root
      · subst hr
        have hnow : now = l := by simpa [change] using hl
        exact hnow.ge
      · exact hpast r l (by simpa [change, Function.update_of_ne hr] using hl)
  | .entered root :: changes, s, htable, hzero, hempty, hleft, hpast, hlate => by
    have hnone : (s.change now (.entered root)).armed root = none := by
      cases hp : s.projects root <;> simp [change, armed, hp]
    refine pending_changes (s := s.change now (.entered root)) (by simpa [change] using htable)
      (fun r hr => hzero r (List.mem_cons_of_mem _ hr)) (fun r l hl => ?_) (fun r l hl => ?_)
      (fun r l hl => ?_) hlate
    · have hr : r ≠ root := fun hr => by simp [hr, hnone] at hl
      simpa [hr] using hempty r l (by simpa [change, armed, Function.update_of_ne hr] using hl)
    · have hr : r ≠ root := fun hr => by simp [hr, hnone] at hl
      simpa [change, Function.update_of_ne hr] using
        hleft r l (by simpa [change, armed, Function.update_of_ne hr] using hl)
    · by_cases hr : r = root
      · subst hr
        simp [change] at hl
      · exact hpast r l (by simpa [change, Function.update_of_ne hr] using hl)

/-- A change to the table that says of every project whether it was left or entered. -/
theorem Pending.changed (h : Pending now s)
    (hleft : ∀ root, .left root ∈ changes → table.occupants root = 0)
    (hentered : ∀ root, s.occupancy.occupants root = 0 →
      table.occupants root = 0 ∨ .entered root ∈ changes) :
    Pending now (s.occupancyChanged table changes now) :=
  pending_changes rfl hleft (fun root l hl => hentered root (h.empty root l hl)) h.left h.past h.late

theorem Pending.shellReport (h : Pending turn.now s) (record : ShellRecord) (live entering : Bool) :
    Pending turn.now (s.shellReport record live entering turn) := by
  have hedges := s.occupancy.report_edges record
  have hchanged := h.changed (fun root hr => ((hedges.left root).1 hr).2) fun root hr =>
    or_iff_not_imp_left.2 fun hne => (hedges.entered root).2 ⟨hr, hne⟩
  unfold Service.shellReport
  split
  · exact h
  · dsimp only
    split
    · exact hchanged.quiet ((quiet_keepEnvironment _ _).trans (quiet_enterReported _ _))
    · exact hchanged

theorem removeAll_spec : ∀ (shells : List ShellId) (table : Occupancy) (root : ProjectRoot),
    (removeAll shells table).1.occupants root ≤ table.occupants root ∧
      (.left root ∈ (removeAll shells table).2 → (removeAll shells table).1.occupants root = 0)
  | [], table, root => by simp [removeAll]
  | shell :: shells, table, root => by
    obtain ⟨hle, hleft⟩ := removeAll_spec shells (table.remove shell).1 root
    refine ⟨hle.trans (table.occupants_remove_le shell root), fun hmem => ?_⟩
    obtain hmem | hmem := List.mem_append.1 hmem
    · exact Nat.le_zero.1 (((table.remove_edges shell).left root).1 hmem |>.2 ▸ hle)
    · exact hleft hmem

theorem Pending.shellsGone (h : Pending turn.now s) (shells : List ShellId) :
    Pending turn.now (s.shellsGone shells turn) := by
  have hspec := removeAll_spec shells s.occupancy
  have h' : Pending turn.now { s with environments := s.environments.filter (· ∉ shells) } :=
    ⟨h.empty, h.left, h.past, h.late⟩
  exact h'.changed (fun root hr => (hspec root).2 hr) fun root hr =>
    .inl (Nat.le_zero.1 (hr ▸ (hspec root).1))

theorem Pending.serve (h : Pending turn.now s) (request : Supervisor.Event)
    (hp : ∀ l, p.leftAt = some l → s.armed root = some l) :
    Pending turn.now (s.serve root turn request p) := by
  have hserve := (p.serve_leftAt request).run (turn.handling root)
  have hforget : Quiet s (s.forgetEntry root) := quiet_projects fun _ _ h => h
  unfold Service.serve
  split
  · next hup =>
    refine Pending.broughtUp (h.quiet (hforget.trans (quiet_put fun l hl => ?_))) ?_ _ (by simp)
    · simp [hserve, hup] at hl
    · simp [armed, hserve, hup]
  · next hup =>
    refine h.quiet (hforget.trans (quiet_put fun l hl => hp l ?_))
    simpa [hserve, hup] using hl

theorem Pending.request (h : Pending turn.now s) {act : Option (Act Project)}
    (hact : ∀ project ∈ act, project.All fun p => ∀ l, p.leftAt = some l → s.armed root = some l)
    (hanswer : ∀ {s : Service} {p : Project}, Pending turn.now s →
      (∀ l, p.leftAt = some l → s.armed root = some l) → Pending turn.now (answer s p)) :
    Pending turn.now (s.request root act turn answer) := by
  unfold Service.request
  split
  · exact h
  · next project =>
    have hp := (hact project rfl).run (turn.loading root)
    exact hanswer (h.quiet (quiet_put hp)) fun l hl => by simpa [armed] using hl

theorem Pending.handle (h : Pending turn.now s) (event : Event) :
    Pending turn.now (s.handle turn event) := by
  cases event with
  | delivered root event => exact h.quiet (quiet_delivered event)
  | look root refresh =>
    refine h.request (fun project hproject => ?_) fun h _ => h
    split at hproject
    · exact refreshed_armed hproject
    · exact supervisor_armed hproject
  | up root => exact h.request (fun _ => refreshed_armed) fun h hp => h.serve .up hp
  | down root => exact h.request (fun _ => supervisor_armed) fun h hp => h.serve .down hp
  | control root name action =>
    show Pending turn.now (s.control root name action turn)
    unfold control
    refine h.request (fun _ => refreshed_armed) fun h hp => ?_
    split
    · exact h.serve _ hp
    · exact h
  | stackChanged root => exact h.quiet quiet_stackChanged
  | settingsChanged => exact h.quiet quiet_settingsChanged
  | shellReport record live entering => exact h.shellReport record live entering
  | shellsGone shells => exact h.shellsGone shells
  | timeout | storeStack _ _ | storeSettings _ | restart _ _ _ => exact h

/-! ### The tick -/

theorem Project.stopsAt_wait (h : p.stopsAt now) :
    ∃ l wait, p.leftAt = some l ∧ p.idleStop.wait = some wait ∧ l + wait ≤ now := by
  have hdue : p.isDue now := (Bool.and_eq_true_iff.1 h).1
  unfold isDue idleDeadline at hdue
  split at hdue
  · next wait l hwait hl => exact ⟨l, wait, hl, hwait, by simpa using hdue⟩
  · cases hdue

theorem armed_stopIdle {l : ℤ} (hl : (s.stopIdle turn).armed root = some l) : s.armed root = some l := by
  cases hp : s.projects root with
  | none => simp [armed, Service.stopIdle, hp] at hl
  | some p =>
    have hstop := (p.idleStopIfDue_leftAt turn.tick).run (turn.stopping root)
    simpa [armed, hp] using hstop l (by simpa [armed, Service.stopIdle, hp] using hl)

theorem Pending.stopIdle (h : Pending turn.tick s) : Pending turn.tick (s.stopIdle turn) := by
  refine ⟨fun root l hl => h.empty root l (armed_stopIdle hl),
    fun root l hl => h.left root l (armed_stopIdle hl), h.past, fun root stop hstop => ?_⟩
  simp only [Service.stopIdle] at hstop
  split at hstop
  · next p hp =>
    obtain hnew | hold := List.mem_cons.1 hstop
    · obtain ⟨hp, hstops⟩ := Option.filter_eq_some_iff.1 hp
      obtain ⟨l, wait, hl, hwait, hdue⟩ := Project.stopsAt_wait hstops
      have hl : s.armed root = some l := by simp [armed, hp, hl]
      obtain ⟨-, l₀, hle, hlast⟩ := h.left root l hl
      subst hnew
      exact ⟨s.occupancy.shellsIn_eq_nil.2 (h.empty root l hl), l₀, wait, hlast, hwait, by
        simp only
        omega⟩
    · exact h.late root stop hold
  · exact h.late root stop hstop

/-- The store mirrors the idle stops it was told of, rounded up. -/
structure Stored (s : Service) : Prop where
  listed : ∀ root, (s.store.idleStops root).isSome → (s.store.stackOf root).isSome
  mirrors : ∀ root stored, s.store.idleStops root = some stored →
    ∃ l, s.recordedIdle root = some l ∧ l + s.offset ≤ stored * 1000000

theorem le_millis (wall : ℤ) : wall ≤ millis wall * 1000000 := by
  unfold millis
  omega

theorem Stored.quiet (h : Stored s) (q : Quiet s s') : Stored s' where
  listed := q.store ▸ h.listed
  mirrors := by
    rw [q.store, q.recordedIdle, q.offset]
    exact h.mirrors

theorem Stored.record (h : Stored s) (hp : Pending now s) : Stored (s.recordIdleStops now) := by
  refine ⟨fun root hroot => ?_, fun root stored hstored => ?_⟩
  · by_contra hnone
    have hnone : s.store.stackOf root = none := by simpa [recordIdleStops] using hnone
    have hroot : (s.store.idleStops root).isSome := by
      simpa [recordIdleStops, recordIdle, hnone] using hroot
    simpa [hnone] using h.listed root hroot
  · have hstored : s.recordIdle now root = some stored := hstored
    show ∃ l, s.armed root = some l ∧ l + s.offset ≤ stored * 1000000
    unfold recordIdle at hstored
    split at hstored
    · next hnone =>
      have := h.listed root (by simp [hstored])
      simp [Option.isNone_iff_eq_none.1 hnone] at this
    · split at hstored
      · next l hl =>
        refine ⟨l, hl, ?_⟩
        split at hstored
        · next hsame =>
          obtain ⟨l', hl', hle⟩ := h.mirrors root stored hstored
          have : l = l' := by simpa [hsame] using hl'
          exact this ▸ hle
        · have hpast := (hp.left root l hl).1
          have hwall := le_millis (now + s.offset - max 0 (now - l))
          cases hstored
          omega
      · split at hstored
        · cases hstored
        · next hnone =>
          obtain ⟨l', hl', -⟩ := h.mirrors root stored hstored
          simp [hl'] at hnone

/-- What holds between two turns: what is pending is what the store was last told. -/
structure IdleInv (s : Service) : Prop where
  pending : Pending s.now s
  stored : Stored s
  recorded : s.recordedIdle = s.armed

theorem IdleInv.of_record (hp : Pending now s) (hs : Stored s) :
    IdleInv { s.recordIdleStops now with now } where
  pending := ⟨hp.empty, hp.left, hp.past, hp.late⟩
  stored := ⟨(hs.record hp).listed, (hs.record hp).mirrors⟩
  recorded := rfl

theorem IdleInv.of_handled (hp : Pending turn.now s) (hs : Stored s) (hle : turn.now ≤ turn.tick) :
    IdleInv (s.tick turn) := by
  have hbefore := (hp.later hle).quiet (quiet_beforeStops turn)
  have hstored := hs.quiet (quiet_beforeStops turn)
  have hstored : Stored ((s.beforeStops turn).stopIdle turn) := ⟨hstored.listed, hstored.mirrors⟩
  exact IdleInv.of_record (hbefore.stopIdle.quiet quiet_letGo) (hstored.quiet quiet_letGo)

/-! ### A service takes over -/

theorem occupants_putBack (table : Occupancy) (record : ShellRecord) (root : ProjectRoot) :
    ((table.restore record).remove record.shell).1.occupants root =
      census (Seen.countsIn root) (table.shells.erase record.shell) := by
  rw [Occupancy.occupants_eq]
  unfold Occupancy.restore
  split
  · exact census_erase_insert _
  · rfl

theorem lookup_putBack (table : Occupancy) (record : ShellRecord) {shell : ShellId}
    (h : table.shells.lookup shell = none) :
    ((table.restore record).remove record.shell).1.shells.lookup shell = none := by
  by_cases hs : shell = record.shell
  · subst hs
    exact AList.lookup_erase _ _
  · have hrestore : (table.restore record).shells.lookup shell = none := by
      unfold Occupancy.restore
      split
      · exact (AList.lookup_insert_ne hs).trans h
      · exact h
    exact (AList.lookup_erase_ne hs).trans hrestore

theorem mem_projects_of_left {record : ShellRecord}
    (hunknown : table.shells.lookup record.shell = none)
    (hleft : .left root ∈ ((table.restore record).remove record.shell).2) :
    root ∈ record.projects := by
  obtain ⟨hin, hout⟩ := (((table.restore record).remove_edges record.shell).left root).1 hleft
  rw [occupants_putBack] at hout
  have hput : table.restore record = (table.put record).1 := by
    simp [Occupancy.restore, Occupancy.isNewer, hunknown]
  rw [hput, Occupancy.occupants_eq] at hin
  have hcount : census (Seen.countsIn root) (table.put record).1.shells =
      share (Seen.countsIn root) (some (Seen.of record)) := by
    have h := census_insert (p := Seen.countsIn root) (s := table.shells) (k := record.shell)
      (Seen.of record)
    rw [hout, Nat.zero_add] at h
    exact h
  by_contra hnot
  exact hin (by simpa [hcount, share, Seen.of] using hnot)

/-- Ended shells are put back and removed: nobody enters, the projects said to be left are empty, and
each of them is one an ended shell is on record in. -/
theorem removeEnded_spec : ∀ (records : List ShellRecord) (table : Occupancy) (root : ProjectRoot),
    (∀ record ∈ records, table.shells.lookup record.shell = none) →
    (removeEnded records table).1.occupants root ≤ table.occupants root ∧
      .entered root ∉ (removeEnded records table).2 ∧
      (.left root ∈ (removeEnded records table).2 →
        (removeEnded records table).1.occupants root = 0 ∧ ∃ record ∈ records, root ∈ record.projects)
  | [], table, root, _ => by simp [removeEnded]
  | record :: records, table, root, hunknown => by
    obtain ⟨hle, hentered, hleft⟩ := removeEnded_spec records
      ((table.restore record).remove record.shell).1 root
      fun r hr => lookup_putBack table record (hunknown r (List.mem_cons_of_mem _ hr))
    have hback : ((table.restore record).remove record.shell).1.occupants root ≤
        table.occupants root := by
      rw [occupants_putBack, Occupancy.occupants_eq, census_erase (s := table.shells)
        (k := record.shell)]
      exact Nat.le_add_right _ _
    have hedges := (table.restore record).remove_edges record.shell
    refine ⟨hle.trans hback, fun hmem => ?_, fun hmem => ?_⟩
    · obtain hmem | hmem := List.mem_append.1 hmem
      · obtain ⟨hzero, hne⟩ := (hedges.entered root).1 hmem
        have := (table.restore record).occupants_remove_le record.shell root
        omega
      · exact hentered hmem
    · obtain hmem | hmem := List.mem_append.1 hmem
      · have hzero := ((hedges.left root).1 hmem).2
        exact ⟨Nat.le_zero.1 (hzero ▸ hle), record, by simp,
          mem_projects_of_left (hunknown record (by simp)) hmem⟩
      · obtain ⟨hzero, r, hr, hroot⟩ := hleft hmem
        exact ⟨hzero, r, List.mem_cons_of_mem _ hr, hroot⟩

theorem lookup_restoreAll {shell : ShellId}
    (hne : ∀ record ∈ records, record.shell ≠ shell) (h : table.shells.lookup shell = none) :
    (restoreAll records table).shells.lookup shell = none := by
  induction records generalizing table with
  | nil => exact h
  | cons record records ih =>
    obtain ⟨hrecord, hne⟩ := List.forall_mem_cons.1 hne
    refine ih hne ?_
    dsimp only
    split
    · unfold Occupancy.restore
      split
      · exact (AList.lookup_insert_ne hrecord.symm).trans h
      · exact h
    · exact h

theorem changes_last
    (hleft : .left root ∉ changes) (hentered : .entered root ∉ changes) (s : Service) :
    (changes.foldl (fun s c => s.change now c) s).last root = s.last root := by
  induction changes generalizing s with
  | nil => rfl
  | cons c changes ih =>
    refine (ih (fun h => hleft (List.mem_cons_of_mem _ h))
      (fun h => hentered (List.mem_cons_of_mem _ h)) (s.change now c)).trans ?_
    cases c with
    | left r =>
      have hne : root ≠ r := fun h => hleft (by simp [h])
      simp [change, Function.update_of_ne hne]
    | entered r =>
      have hne : root ≠ r := fun h => hentered (by simp [h])
      simp [change, Function.update_of_ne hne]

/-- An event leaves it to the tick to tell the store of idle stops, and arms none but as of now. -/
structure Untold (now : ℤ) (s s' : Service) : Prop where
  store : s'.store = s.store
  recordedIdle : s'.recordedIdle = s.recordedIdle
  offset : s'.offset = s.offset
  armed : ∀ root l, s'.armed root = some l → s.armed root = some l ∨ l = now

theorem Untold.refl : Untold now s s := ⟨rfl, rfl, rfl, fun _ _ => .inl⟩

theorem Untold.trans {s'' : Service} (h : Untold now s s') (h' : Untold now s' s'') : Untold now s s'' :=
  ⟨h'.store.trans h.store, h'.recordedIdle.trans h.recordedIdle, h'.offset.trans h.offset, fun root l hl =>
    (h'.armed root l hl).elim (h.armed root l) .inr⟩

theorem Quiet.untold (q : Quiet s s') : Untold now s s' :=
  ⟨q.store, q.recordedIdle, q.offset, fun root l hl => .inl (q.armed root l hl)⟩

theorem untold_changes (changes : List OccupancyChange) (s : Service) :
    Untold now s (changes.foldl (fun s c => s.change now c) s) := by
  induction changes generalizing s with
  | nil => exact .refl
  | cons c changes ih =>
    refine Untold.trans ?_ (ih (s.change now c))
    cases c with
    | left root =>
      refine ⟨rfl, rfl, rfl, fun r l hl => ?_⟩
      by_cases hr : r = root
      · subst hr
        cases hp : s.projects r <;> simp [change, armed, hp] at hl
        exact .inr hl.symm
      · exact .inl (by simpa [change, armed, Function.update_of_ne hr] using hl)
    | entered root =>
      refine ⟨rfl, rfl, rfl, fun r l hl => ?_⟩
      by_cases hr : r = root
      · subst hr
        cases hp : s.projects r <;> simp [change, armed, hp] at hl
      · exact .inl (by simpa [change, armed, Function.update_of_ne hr] using hl)

theorem untold_occupancyChanged (table : Occupancy) (changes : List OccupancyChange) :
    Untold now s (s.occupancyChanged table changes now) := by
  have hchanges : Untold now { s with occupancy := table } (s.occupancyChanged table changes now) :=
    untold_changes changes _
  exact ⟨hchanges.store, hchanges.recordedIdle, hchanges.offset, hchanges.armed⟩

/-- A restart reads the idle stops left pending, and no shell that ended is on record in a project
with one. -/
def Timely (s : Service) : Event → Prop
  | .restart records live readable => readable ∧ ∀ record ∈ records, live record.shell = false →
    ∀ root ∈ record.projects, s.store.idleStops root = none
  | _ => True

instance Timely.decidable (s : Service) : ∀ e, Decidable (Timely s e)
  | .restart records live readable => inferInstanceAs (Decidable (readable ∧
      ∀ record ∈ records, live record.shell = false →
        ∀ root ∈ record.projects, s.store.idleStops root = none))
  | .delivered _ _ | .look _ _ | .up _ | .down _ | .control _ _ _ | .stackChanged _
  | .settingsChanged | .shellReport _ _ _ | .shellsGone _ | .timeout | .storeStack _ _
  | .storeSettings _ => isTrue trivial

theorem adoptRunning_armed : (s.adoptRunning turn).armed root = none := by
  simp only [armed, adoptRunning]
  split
  · rfl
  · cases hload : Project.load (s.store.stackOf root) (turn.found root) s.store.settings with
    | none => rfl
    | some act => exact (Project.load_leftAt hload).run (turn.loading root)

/-- The shells taken over leave every project they are said to, and no project with an idle stop
stored. -/
theorem restoreShells_spec (h : IdleInv s) (hnow : s.now ≤ turn.now)
    (htimely : ∀ record ∈ records, live record.shell = false →
      ∀ root ∈ record.projects, s.store.idleStops root = none) :
    let s' := (s.adoptRunning turn).restoreShells records live turn.now
    Pending turn.now s' ∧ s'.store = s.store ∧ s'.offset = s.offset ∧
      ∀ root, (s.store.idleStops root).isSome → s'.last root = s.last root := by
  set table := restoreAll (records.filter (live ·.shell)) (s.adoptRunning turn).occupancy with htable
  set ended := records.filter (!live ·.shell) with hended
  have hunknown : ∀ record ∈ ended, table.shells.lookup record.shell = none := by
    intro record hrecord
    have hdead := (List.mem_filter.1 hrecord).2
    refine lookup_restoreAll (fun r hr heq => ?_) rfl
    have hlive := (List.mem_filter.1 hr).2
    simp_all
  have hspec := fun root => removeEnded_spec ended table root hunknown
  have huntold : Untold turn.now (s.adoptRunning turn)
      ((s.adoptRunning turn).restoreShells records live turn.now) := untold_occupancyChanged _ _
  refine ⟨pending_changes rfl (fun root hroot => ((hspec root).2.2 hroot).1) (fun root l hl => ?_)
    (fun root l hl => ?_) (fun root l hl => (h.pending.past root l hl).trans hnow) h.pending.late,
    huntold.store, huntold.offset, fun root hroot => ?_⟩
  · exact absurd (adoptRunning_armed.symm.trans hl) (by simp)
  · exact absurd (adoptRunning_armed.symm.trans hl) (by simp)
  · have hleft : .left root ∉ (removeEnded ended table).2 := fun hmem => by
      obtain ⟨-, record, hrecord, hin⟩ := (hspec root).2.2 hmem
      obtain ⟨hrecord, hdead⟩ := List.mem_filter.1 hrecord
      simp [htimely record hrecord (by simpa using hdead) root hin] at hroot
    exact changes_last hleft (hspec root).2.1 _

/-- An idle stop armed after the stored ones are taken over was armed before, or it is one the store
has, of a project nobody is inside. -/
theorem armed_restoreIdleStops {l : ℤ} (h : (s.restoreIdleStops true now).armed root = some l) :
    s.armed root = some l ∨ s.occupancy.occupants root = 0 ∧
      ∃ stored, s.store.idleStops root = some stored ∧ s.restoredLeave now stored = l := by
  simp only [armed, restoreIdleStops, recordIdleStops, if_true] at h
  cases hstored : s.store.idleStops root with
  | none => exact .inl (by simpa [hstored, armed] using h)
  | some stored =>
    by_cases hempty : s.occupancy.occupants root = 0
    · cases hproject : s.projects root with
      | none => simp [hstored, hempty, hproject] at h
      | some p => exact .inr ⟨hempty, stored, rfl, by simpa [hstored, hempty, hproject] using h⟩
    · exact .inl (by simpa [hstored, hempty, armed] using h)

theorem IdleInv.restart (h : IdleInv s) (hnow : s.now ≤ turn.now) (hle : turn.now ≤ turn.tick)
    (htimely : ∀ record ∈ records, live record.shell = false →
      ∀ root ∈ record.projects, s.store.idleStops root = none) :
    IdleInv (s.restart records live true turn) := by
  obtain ⟨hp, hstore, hoffset, hkept⟩ := restoreShells_spec h hnow htimely
  set s₂ := (s.adoptRunning turn).restoreShells records live turn.now
  -- the leave a stored idle stop is armed from is no earlier than the last leave there was
  have hleft : ∀ root stored, s₂.store.idleStops root = some stored →
      s₂.restoredLeave turn.tick stored ≤ turn.tick ∧
      s₂.restoredLeave turn.tick stored + s₂.offset ≤ stored * 1000000 ∧
      ∃ l₀ ≤ s₂.restoredLeave turn.tick stored, s₂.last root = some (.left l₀) := by
    intro root stored hstored
    rw [hstore] at hstored
    obtain ⟨l, hl, hmirror⟩ := h.stored.mirrors root stored hstored
    obtain ⟨hpast, l₀, hl₀, hlast⟩ := h.pending.left root l (h.recorded ▸ hl)
    rw [hkept root (by simp [hstored])]
    simp only [restoredLeave, hoffset]
    exact ⟨by omega, by omega, l₀, by omega, hlast⟩
  refine IdleInv.of_record ⟨fun root l hl => ?_, fun root l hl => ?_,
    (hp.later hle).past, hp.late⟩ ⟨?_, fun root stored hstored => ?_⟩
  · obtain hl | ⟨hempty, -⟩ := armed_restoreIdleStops hl
    · exact hp.empty root l hl
    · exact hempty
  · obtain hl | ⟨-, stored, hstored, rfl⟩ := armed_restoreIdleStops hl
    · exact (hp.later hle).left root l hl
    · exact ⟨(hleft root stored hstored).1, (hleft root stored hstored).2.2⟩
  · show ∀ root, (s₂.store.idleStops root).isSome → (s₂.store.stackOf root).isSome
    rw [hstore]
    exact h.stored.listed
  · refine ⟨s₂.restoredLeave turn.tick stored, ?_, (hleft root stored hstored).2.1⟩
    exact congrArg (Option.map _) hstored

/-! ### Every turn -/

theorem Stored.untold (h : Stored s) (hs : Untold now s s') : Stored s' where
  listed := hs.store ▸ h.listed
  mirrors := by
    rw [hs.store, hs.recordedIdle, hs.offset]
    exact h.mirrors

theorem untold_serve (request : Supervisor.Event)
    (hp : ∀ l, p.leftAt = some l → s.armed root = some l) :
    Untold turn.now s (s.serve root turn request p) := by
  have hserve := (p.serve_leftAt request).run (turn.handling root)
  have hforget : Quiet s (s.forgetEntry root) := quiet_projects fun _ _ h => h
  have hput := hforget.trans (quiet_put (p := (p.serve request).run (turn.handling root)) fun l hl => hp l (by
    rw [hserve] at hl
    split at hl
    · cases hl
    · exact hl))
  unfold serve
  dsimp only
  split
  · exact ⟨hput.store, hput.recordedIdle, hput.offset, fun root l hl => .inl (hput.armed root l hl)⟩
  · exact hput.untold

theorem untold_request {act : Option (Act Project)}
    (hact : ∀ project ∈ act, project.All fun p => ∀ l, p.leftAt = some l → s.armed root = some l)
    (hanswer : ∀ {s : Service} {p : Project}, (∀ l, p.leftAt = some l → s.armed root = some l) →
      Untold turn.now s (answer s p)) : Untold turn.now s (s.request root act turn answer) := by
  unfold request
  split
  · exact .refl
  · next project =>
    have hp := (hact project rfl).run (turn.loading root)
    exact (quiet_put hp).untold.trans (hanswer fun l hl => by simpa [armed] using hl)

theorem untold_shellReport {record : ShellRecord} {live entering : Bool} :
    Untold turn.now s (s.shellReport record live entering turn) := by
  have hchanged : Untold turn.now s (s.occupancyChanged (s.occupancy.report record).1
      (s.occupancy.report record).2 turn.now) := untold_occupancyChanged _ _
  unfold shellReport
  split
  · exact .refl
  · dsimp only
    split
    · exact hchanged.trans ((quiet_keepEnvironment _ _).trans (quiet_enterReported _ _)).untold
    · exact hchanged

theorem untold_handle (event : Event) : Untold turn.now s (s.handle turn event) := by
  cases event with
  | delivered root event => exact (quiet_delivered event).untold
  | look root refresh =>
    refine untold_request (fun project hproject => ?_) fun _ => .refl
    split at hproject
    · exact refreshed_armed hproject
    · exact supervisor_armed hproject
  | up root => exact untold_request (fun _ => refreshed_armed) fun hp => untold_serve _ hp
  | down root => exact untold_request (fun _ => supervisor_armed) fun hp => untold_serve _ hp
  | control root name action =>
    show Untold turn.now s (s.control root name action turn)
    unfold control
    refine untold_request (fun _ => refreshed_armed) fun hp => ?_
    split
    · exact untold_serve _ hp
    · exact .refl
  | stackChanged root => exact quiet_stackChanged.untold
  | shellReport record live entering => exact untold_shellReport
  | shellsGone shells =>
    have hchanged : Untold turn.now { s with environments := s.environments.filter (· ∉ shells) }
      (s.shellsGone shells turn) := untold_occupancyChanged _ _
    exact ⟨hchanged.store, hchanged.recordedIdle, hchanged.offset, hchanged.armed⟩
  | settingsChanged => exact quiet_settingsChanged.untold
  | timeout | storeStack _ _ | storeSettings _ | restart _ _ _ => exact .refl

theorem Stored.storeStack (h : Stored s) (stack : Option Stack) : Stored (s.storeStack root stack) := by
  cases stack with
  | some stack =>
    refine ⟨fun root' hroot' => ?_, h.mirrors⟩
    by_cases hroot : root' = root
    · simp [Service.storeStack, hroot]
    · simpa [Service.storeStack, Function.update_of_ne hroot] using h.listed root' hroot'
  | none =>
    have hother : ∀ root' stored, (s.storeStack root none).store.idleStops root' = some stored →
        root' ≠ root ∧ s.store.idleStops root' = some stored := by
      intro root' stored hstored
      by_cases hroot : root' = root
      · simp [Service.storeStack, hroot] at hstored
      · exact ⟨hroot, by simpa [Service.storeStack, Function.update_of_ne hroot] using hstored⟩
    refine ⟨fun root' hroot' => ?_, fun root' stored hstored => ?_⟩
    · obtain ⟨stored, hstored⟩ := Option.isSome_iff_exists.1 hroot'
      obtain ⟨hne, hstored⟩ := hother root' stored hstored
      simpa [Service.storeStack, Function.update_of_ne hne] using h.listed root' (by simp [hstored])
    · exact h.mirrors root' stored (hother root' stored hstored).2

theorem IdleInv.next (h : IdleInv s) {e : Event × Turn} (hen : machine.Enabled s e)
    (htimely : Timely s e.1) : IdleInv (machine.next s e) := by
  obtain ⟨event, turn⟩ := e
  obtain ⟨hnow, hle, -⟩ := hen
  have hhandled : IdleInv ((s.handle turn event).tick turn) :=
    .of_handled ((h.pending.later hnow).handle event) (h.stored.untold (untold_handle event)) hle
  cases event with
  | storeStack root stack =>
    exact ⟨⟨h.pending.empty, h.pending.left, h.pending.past, h.pending.late⟩,
      h.stored.storeStack stack, h.recorded⟩
  | storeSettings settings =>
    exact ⟨⟨h.pending.empty, h.pending.left, h.pending.past, h.pending.late⟩,
      ⟨h.stored.listed, h.stored.mirrors⟩, h.recorded⟩
  | restart records live readable =>
    obtain ⟨hreadable, htimely⟩ := htimely
    obtain rfl : readable = true := hreadable
    exact h.restart hnow hle htimely
  | delivered | look | up | down | control | stackChanged | settingsChanged | shellReport
  | shellsGone | timeout => exact hhandled

theorem idleInv_first (stackOf : ProjectRoot → Option Stack) (settings : IdleStop) (offset now : ℤ) :
    IdleInv (first stackOf settings offset now) :=
  ⟨⟨nofun, nofun, nofun, nofun⟩, ⟨nofun, nofun⟩, rfl⟩

/-- No project is stopped early: in every run in which a restart reads the idle stops left pending and
finds no ended shell in a project with one, each idle stop came with nobody inside and at least the
configured wait after the last shell left, and since then no shell entered and no client brought
anything up. -/
theorem idle_stop_not_early {stackOf : ProjectRoot → Option Stack} {settings : IdleStop}
    {offset now : ℤ} {s : Service}
    (hs : (machine.restrict fun s e => Timely s e.1).Reaches (first stackOf settings offset now) s)
    (root : ProjectRoot) (stop : IdleStopped) (hstop : stop ∈ s.idleStops root) :
    stop.inside = [] ∧ ∃ l wait, stop.last = some (.left l) ∧ stop.idleStop.wait = some wait ∧
      l + wait ≤ stop.time :=
  (hs.invariant_restrict (P := IdleInv) (fun _ _ h hen htimely => h.next hen htimely)
    (idleInv_first _ _ _ _)).pending.late root stop hstop

/-- A project with one process, stopped ten seconds after its last shell left. -/
def shop : ProjectRoot := .top [115]

def shopStack : Stack where
  revision := 1
  idleStop := some (.after ⟨10000000, by decide⟩)
  processes := [Supervisor.webSpec]

def shopService : Service := first (fun root => if root = shop then some shopStack else none) .never 0 0

def plainTurn (time : ℤ) : Turn where
  now := time
  tick := time
  found _ := ⟨[], []⟩
  loading _ := []
  handling _ := []
  entering _ := []
  stopping _ := []

def reportOf (pid sequence : ℕ) (project : Option ProjectRoot) : ShellRecord :=
  ⟨⟨pid, 1⟩, ⟨⟨1, 1⟩, sequence⟩, shop.path, 1, project, []⟩

def shopLeft : List (Event × Turn) :=
  [(.shellReport (reportOf 1 1 (some shop)) true true, plainTurn 1000000),
   (.delivered shop (.spawned 0 1 (.ok ⟨1, some 41⟩)), plainTurn 2000000),
   (.shellReport (reportOf 1 2 none) true true, plainTurn 5000000)]

theorem idle_stop_not_early_due :
    let s := machine.play shopService (shopLeft ++ [(.timeout, plainTurn 15000000)])
    ∃ stop ∈ s.idleStops shop, ∃ l wait, stop.last = some (.left l) ∧
      stop.idleStop.wait = some wait ∧ l + wait ≤ stop.time := by
  refine ⟨⟨15000000, .after ⟨10000000, by decide⟩, [], some (.left 5000000)⟩, by decide, ?_⟩
  have hruns : (machine.restrict fun s e => Timely s e.1).Reaches shopService
      (machine.play shopService (shopLeft ++ [(.timeout, plainTurn 15000000)])) :=
    Machine.reaches_play_restrict (by decide)
  exact (idle_stop_not_early hruns shop _ (by decide)).2

/-- A shell's report reaches the service after the shell ended: the service drops it, the registry
keeps it.  The service started next sees the shell leave, but arms the shop from the leave its
predecessor stored. -/
def shopRestarted : List (Event × Turn) :=
  shopLeft ++
  [(.shellReport (reportOf 2 1 (some shop)) false true, plainTurn 8000000),
   (.restart [reportOf 2 1 (some shop)] (fun _ => false) true,
    { plainTurn 9000000 with
      found := fun root => if root = shop then ⟨[Supervisor.webRecord], []⟩ else ⟨[], []⟩ }),
   (.timeout, plainTurn 15000000)]

/-- The shop is stopped six seconds after its last shell left. -/
theorem idle_stop_comes_early :
    machine.Reaches shopService (machine.play shopService shopRestarted) ∧
      ⟨15000000, .after ⟨10000000, by decide⟩, [], some (.left 9000000)⟩ ∈
        (machine.play shopService shopRestarted).idleStops shop :=
  ⟨Machine.reaches_play (by decide), by decide⟩

end Muster.Service
