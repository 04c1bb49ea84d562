import Muster.Service.IdleStops

/-!
# ClientStops — a shell coming back undoes no client's stop

An idle stop remembers the processes it acted on, and a shell that comes back waits for those of them
that are still stopping and then enters again.  Each project keeps apart what a client stopped and what
the idle stop stopped: while a client's stop is in flight the idle stop remembers nothing, and while an
entering waits nothing is stopped by a client.  This holds as long as an idle stop finds nothing
stopping that it is not itself stopping already.
-/

namespace Muster.Service

open Config (ProjectRoot)
open Supervisor

namespace Project

variable {p p' : Project}

/-- No client's stop is new, of a process that came up or of one no longer stopping, and the idle stop
remembers nothing it did not. -/
structure Follows (p p' : Project) : Prop where
  idle : p'.idleStopping ≠ [] → p.idleStopping ≠ []
  claimed : ∀ pane, p'.clientStops pane → p.clientStops pane
  held : ∀ pane, p'.clientStops pane → (p'.supervisor.slots pane).holdsProcess →
    (p.supervisor.slots pane).holdsProcess

theorem Follows.refl (p : Project) : p.Follows p := ⟨id, fun _ h => h, fun _ _ h => h⟩

theorem Follows.trans {p'' : Project} (h : p.Follows p') (h' : p'.Follows p'') : p.Follows p'' where
  idle hne := h.idle (h'.idle hne)
  claimed pane hc := h.claimed pane (h'.claimed pane hc)
  held pane hc hheld := h.held pane (h'.claimed pane hc) (h'.held pane hc hheld)

theorem move_claimed {s : Supervisor} {pane : ℕ} (h : (p.move s).clientStops pane) :
    p.clientStops pane ∧ ((s.slots pane).holdsProcess →
      (p.supervisor.slots pane).holdsProcess ∧ (s.slots pane).isStopping) := by
  simp only [move, Bool.and_eq_true, Bool.or_eq_true, Bool.not_eq_true'] at h
  exact ⟨h.1, fun hheld => h.2.resolve_left fun hnot => Bool.noConfusion (hnot.symm.trans hheld)⟩

theorem move_follows (s : Supervisor) : p.Follows (p.move s) where
  idle := id
  claimed _ h := (move_claimed h).1
  held _ h hheld := ((move_claimed h).2 hheld).1

/-- What a client stopped that is still there is stopping, and the idle stop remembers nothing then. -/
structure Apart (p : Project) : Prop where
  stopping : ∀ pane, p.clientStops pane → (p.supervisor.slots pane).holdsProcess →
    (p.supervisor.slots pane).isStopping
  idle : p.idleStopping ≠ [] → ∀ pane, p.clientStops pane →
    ¬ (p.supervisor.slots pane).holdsProcess

/-- The idle stop remembers something only when no client stopped anything. -/
def Unclaimed (p : Project) : Prop := p.idleStopping ≠ [] → ∀ pane, ¬ p.clientStops pane

theorem Follows.unclaimed (h : p.Follows p') (hp : p.Unclaimed) : p'.Unclaimed :=
  fun hne pane hc => hp (h.idle hne) pane (h.claimed pane hc)

/-- A step after which clients' stops are apart from the idle stop's if they were. -/
structure Keeps (p p' : Project) : Prop extends p.Follows p' where
  apart : p.Apart → p'.Apart

theorem Keeps.refl (p : Project) : p.Keeps p := ⟨.refl p, id⟩

theorem Keeps.trans {p'' : Project} (h : p.Keeps p') (h' : p'.Keeps p'') : p.Keeps p'' :=
  ⟨h.toFollows.trans h'.toFollows, fun hp => h'.apart (h.apart hp)⟩

theorem move_keeps (s : Supervisor) : p.Keeps (p.move s) where
  toFollows := move_follows s
  apart hp := {
    stopping := fun _ hc hheld => ((move_claimed hc).2 hheld).2
    idle := fun hne pane hc hheld =>
      hp.idle hne pane (move_claimed hc).1 ((move_claimed hc).2 hheld).1 }

theorem handle_keeps (event : Supervisor.Event) : (p.handle event).All p.Keeps := by
  simp only [handle, Acts.all_bind, Acts.all_pure]
  exact Acts.all_of_forall _ move_keeps

theorem keeps_of_eq (hs : p'.supervisor = p.supervisor) (hc : p'.clientStops = p.clientStops)
    (hi : p'.idleStopping = p.idleStopping) : p.Keeps p' := by
  refine ⟨⟨hi ▸ id, fun pane h => hc ▸ h, fun pane _ h => hs ▸ h⟩, fun hp => ⟨?_, ?_⟩⟩
  · rw [hc, hs]
    exact hp.stopping
  · rw [hc, hs, hi]
    exact hp.idle

theorem stackChanged_keeps (stored : Option Stack) : (p.stackChanged stored).All p.Keeps := by
  cases stored with
  | none => exact (handle_keeps _).bind fun p' h => h.trans (keeps_of_eq rfl rfl rfl)
  | some stack => exact (handle_keeps _).bind fun p' h => h.trans (keeps_of_eq rfl rfl rfl)

theorem refreshStack_keeps (stored : Option Stack) : (p.refreshStack stored).All p.Keeps := by
  unfold refreshStack
  split
  · exact .refl p
  · exact stackChanged_keeps stored

theorem takeIdleStopping_spec (stopping : List ProcessName) :
    p.Keeps (p.takeIdleStopping stopping).1 ∧
      ((p.takeIdleStopping stopping).2 ≠ [] → (p.takeIdleStopping stopping).1.idleStopping ≠ []) := by
  have hidle : (p.takeIdleStopping stopping).1.idleStopping ≠ [] → p.idleStopping ≠ [] :=
    fun hne hnil => hne (by simp [takeIdleStopping, hnil])
  refine ⟨⟨⟨hidle, fun _ h => h, fun _ _ h => h⟩, fun hp => ⟨hp.stopping, fun hne => hp.idle (hidle hne)⟩⟩,
    fun hne hnil => hne ?_⟩
  have hkept : p.idleStopping.filter (· ∈ stopping) = [] := hnil
  simp [takeIdleStopping, hkept]

theorem enter_keeps : p.enter.All fun r => p.Keeps r.1 ∧ (r.2 ≠ [] → r.1.idleStopping ≠ []) :=
  (handle_keeps .up).bind fun _ h =>
    ⟨h.trans (takeIdleStopping_spec _).1, (takeIdleStopping_spec _).2⟩

theorem load_unclaimed {stored : Option Stack} {found : Found} {setting : IdleStop}
    {act : Act Project} (h : load stored found setting = some act) :
    act.All fun p => p.idleStopping = [] ∧ ∀ pane, ¬ p.clientStops pane := by
  unfold load at h
  split at h
  · cases h
    simp only [Acts.all_bind, Acts.all_pure]
    exact Acts.all_of_forall _ fun _ => by simp
  · split at h
    · cases h
    · cases h
      simp only [Acts.all_bind, Acts.all_pure]
      exact Acts.all_of_forall _ fun _ => by simp

theorem apart_of_none (h : ∀ pane, ¬ p.clientStops pane) : p.Apart :=
  ⟨fun pane hc => absurd hc (h pane), fun _ pane hc => absurd hc (h pane)⟩

theorem stopping_of_owned {request : Supervisor.Event} {s : Supervisor} {pane : ℕ}
    (h : p.owned request s pane) : (p.move s).clientStops pane ∨ (s.slots pane).isStopping := by
  unfold owned at h
  cases request with
  | stop | forceKill | down =>
    exact (Bool.or_eq_true _ _ ▸ h).imp_right fun h => (Bool.and_eq_true_iff.1 h).1
  | start | restart | up => exact .inl (Bool.and_eq_true_iff.1 h).1
  | _ => exact .inl h

theorem serve_apart (request : Supervisor.Event) : (p.serve request).All Apart := by
  simp only [serve, Acts.all_bind, Acts.all_pure]
  refine Acts.all_of_forall _ fun s => ⟨fun pane hc hheld => ?_, fun hne => absurd rfl hne⟩
  obtain hkept | hstopping := stopping_of_owned hc
  · exact ((move_claimed hkept).2 hheld).2
  · exact hstopping

theorem askedFor_unclaimed (h : p.Apart) : p.askedFor.Apart ∧ p.askedFor.Unclaimed := by
  have hclaimed : ∀ pane, p.askedFor.clientStops pane →
      p.clientStops pane ∧ (p.supervisor.slots pane).holdsProcess := fun pane hc =>
    Bool.and_eq_true_iff.1 hc
  refine ⟨⟨fun pane hc => h.stopping pane (hclaimed pane hc).1,
    fun hne pane hc => h.idle hne pane (hclaimed pane hc).1⟩, fun hne pane hc => ?_⟩
  exact h.idle hne pane (hclaimed pane hc).1 (hclaimed pane hc).2

/-- Whatever is stopping here the last idle stop is stopping. -/
def StopsOwn (p : Project) : Prop :=
  ∀ pane, (p.supervisor.slots pane).isStopping →
    (p.supervisor.slots pane).name.any (· ∈ p.idleStopping)

/-- An idle stop that finds nothing but its own stopping leaves clients' stops apart. -/
theorem idleStopIfDue_keeps {now : ℤ} (h : p.Apart) (hown : p.stopsAt now → p.StopsOwn) :
    (p.idleStopIfDue now).All fun p' => p'.Apart ∧ ∀ pane, p'.clientStops pane → p.clientStops pane := by
  unfold idleStopIfDue
  dsimp only
  split
  · next hdue =>
    split
    · next hruns =>
      have hown := hown (Bool.and_eq_true_iff.2 ⟨hdue, hruns⟩)
      have hnone : ∀ pane, p.clientStops pane → ¬ (p.supervisor.slots pane).holdsProcess := by
        intro pane hc hheld
        obtain ⟨name, -, hname⟩ := (Option.any_eq_true _ _).1 (hown pane (h.stopping pane hc hheld))
        exact h.idle (List.ne_nil_of_mem (by simpa using hname)) pane hc hheld
      simp only [Acts.all_bind, Acts.all_pure]
      refine Acts.all_of_forall _ fun r => ⟨⟨fun pane hc hheld => ?_, fun _ pane hc hheld => ?_⟩,
        fun pane hc => (move_claimed (p := p) hc).1⟩
      · exact ((move_claimed (p := p) hc).2 hheld).2
      · exact hnone pane (move_claimed (p := p) hc).1 ((move_claimed (p := p) hc).2 hheld).1
    · exact ⟨⟨h.stopping, h.idle⟩, fun _ hc => hc⟩
  · exact ⟨h, fun _ hc => hc⟩

end Project

/-! ### What an entering waits for -/

variable {s s' : Service} {turn : Turn} {root : ProjectRoot} {project : Option Project}
  {entry : Option StoppingEntry} {f : Project → Project} {r : ProjectRoot} {p : Project} {now : ℤ}
  {changes : List OccupancyChange}

/-- A project's stops are apart, and while an entering waits nothing there is stopped by a client. -/
structure Cleared (project : Option Project) (entry : Option StoppingEntry) : Prop where
  apart : ∀ p ∈ project, p.Apart
  waits : entry.isSome → ∀ p ∈ project, ∀ pane, ¬ p.clientStops pane

abbrev Clear (root : ProjectRoot) (s : Service) : Prop :=
  Cleared (s.projects root) (s.stoppingEntries root)

theorem Cleared.of_none (entry : Option StoppingEntry) : Cleared none entry :=
  ⟨nofun, fun _ => nofun⟩

theorem Cleared.map {entry' : Option StoppingEntry}
    (h : Cleared project entry) (hentry : entry'.isSome → entry.isSome)
    (hf : ∀ p ∈ project, p.Apart →
      (f p).Apart ∧ ∀ pane, (f p).clientStops pane → p.clientStops pane) :
    Cleared (project.map f) entry' where
  apart p hp := by
    obtain ⟨q, hq, rfl⟩ := Option.mem_map.1 hp
    exact (hf q hq (h.apart q hq)).1
  waits hsome p hp pane hc := by
    obtain ⟨q, hq, rfl⟩ := Option.mem_map.1 hp
    exact h.waits (hentry hsome) q hq pane ((hf q hq (h.apart q hq)).2 pane hc)

theorem clear_put (h : s.Clear root)
    (hp : r = root → Cleared (some p) (s.stoppingEntries root)) : (s.put r p).Clear root := by
  by_cases hr : root = r
  · subst hr
    simpa [Clear] using hp rfl
  · simpa [Clear, Function.update_of_ne hr] using h

theorem clear_onProject (h : s.Clear root)
    (hf : ∀ p, p.Apart → (f p).Apart ∧ ∀ pane, (f p).clientStops pane → p.clientStops pane) :
    (s.onProject r f).Clear root := by
  by_cases hr : root = r
  · subst hr
    simpa [Clear] using h.map id fun p _ => hf p
  · simpa [Clear, Function.update_of_ne hr] using h

theorem clear_forgetEntry (h : s.Clear root) : (s.forgetEntry r).Clear root := by
  refine ⟨h.apart, fun hsome => h.waits ?_⟩
  by_cases hr : root = r
  · simp [hr] at hsome
  · simpa [Function.update_of_ne hr] using hsome

theorem clear_change (h : s.Clear root) (c : OccupancyChange) : (s.change now c).Clear root := by
  cases c with
  | left r =>
    have h' : ((s.forgetEntry r).happen r (.left now)).Clear root := clear_forgetEntry h
    exact clear_onProject h' fun p hp => ⟨⟨hp.stopping, hp.idle⟩, fun _ hc => hc⟩
  | entered r =>
    have h' : (s.happen r (.entered now)).Clear root := h
    exact clear_onProject h' fun p hp => ⟨⟨hp.stopping, hp.idle⟩, fun _ hc => hc⟩

theorem clear_occupancyChanged {table : Occupancy}
    (h : s.Clear root) : (s.occupancyChanged table changes now).Clear root := by
  have hfold : ∀ (changes : List OccupancyChange) {s : Service}, s.Clear root →
      (changes.foldl (fun s c => s.change now c) s).Clear root := by
    intro changes
    induction changes with
    | nil => exact fun h => h
    | cons c changes ih => exact fun h => ih (clear_change h c)
  exact hfold changes (s := { s with occupancy := table }) h

/-! ### Loading and entering -/

/-- What a project is loaded or refreshed to: what it was, or nothing a client stopped. -/
def Comes (before : Option Project) (p : Project) : Prop :=
  (p.idleStopping = [] ∧ ∀ pane, ¬ p.clientStops pane) ∨ ∃ q ∈ before, q.Keeps p

theorem Comes.cleared
    (hp : Comes project p) (h : Cleared project entry) : Cleared (some p) entry := by
  obtain ⟨-, hnone⟩ | ⟨q, hq, hkeeps⟩ := hp
  · exact ⟨fun _ hp => Option.some_inj.1 hp ▸ Project.apart_of_none hnone,
      fun _ _ hp => Option.some_inj.1 hp ▸ hnone⟩
  · exact ⟨fun _ hp => Option.some_inj.1 hp ▸ hkeeps.apart (h.apart q hq),
      fun hsome _ hp => Option.some_inj.1 hp ▸ fun pane hc =>
        h.waits hsome q hq pane (hkeeps.claimed pane hc)⟩

theorem Comes.unclaimed (hp : Comes project p) (h : ∀ q ∈ project, q.Unclaimed) : p.Unclaimed := by
  obtain ⟨hnil, -⟩ | ⟨q, hq, hkeeps⟩ := hp
  · exact fun hne => absurd hnil hne
  · exact hkeeps.toFollows.unclaimed (h q hq)

theorem Comes.keeps {p' : Project} (hp : Comes project p) (h : p.Keeps p') : Comes project p' := by
  obtain ⟨hnil, hnone⟩ | ⟨q, hq, hkeeps⟩ := hp
  · refine .inl ⟨?_, fun pane hc => hnone pane (h.claimed pane hc)⟩
    by_contra hne
    exact h.idle hne hnil
  · exact .inr ⟨q, hq, hkeeps.trans h⟩

theorem supervisor_comes {act : Act Project} (h : s.supervisor turn root = some act) :
    act.All (Comes (s.projects root)) := by
  unfold supervisor at h
  split at h
  · next p hp =>
    cases h
    exact .inr ⟨p, hp, .refl p⟩
  · exact (Project.load_unclaimed h).mono fun p hp => .inl hp

theorem refreshed_comes {act : Act Project} (h : s.refreshed turn root = some act) :
    act.All (Comes (s.projects root)) := by
  unfold refreshed at h
  split at h
  · next p hp =>
    cases h
    exact (Project.refreshStack_keeps _).mono fun p' hp' => .inr ⟨p, hp, hp'⟩
  · exact (Project.load_unclaimed h).mono fun p hp => .inl hp

/-- A shell enters a project in which nothing the idle stop remembers is stopped by a client: it waits
for nothing a client stopped. -/
theorem clear_enter {shell : ShellId} {answers : List Bool} (h : s.Clear root)
    (hfree : root = r → ∀ p ∈ s.projects r, p.Unclaimed) :
    (s.enter r shell turn answers).Clear root := by
  unfold enter
  split
  · exact h
  · next act hact =>
    have hentered : (act >>= Project.enter).All fun e => Comes (s.projects r) e.1 ∧
        (e.2 ≠ [] → e.1.idleStopping ≠ []) :=
      (refreshed_comes hact).bind fun p hp => Project.enter_keeps.mono fun e he =>
        ⟨hp.keeps he.1, he.2⟩
    obtain ⟨hcomes, hnames⟩ := hentered.run answers
    have hput := clear_put (r := r) h fun hr => Comes.cleared (hr ▸ hcomes) h
    dsimp only
    split
    · exact hput
    · next hne =>
      by_cases hr : root = r
      · subst hr
        refine ⟨hput.apart, fun _ p hp => ?_⟩
        obtain rfl : _ = p := by simpa using hp
        exact hcomes.unclaimed (hfree rfl) (hnames (by simpa using hne))
      · refine ⟨hput.apart, fun hsome => hput.waits ?_⟩
        simpa [Function.update_of_ne hr] using hsome

theorem clear_enterReported {record : ShellRecord}
    (h : s.Clear root) : (s.enterReported record changes turn).Clear root := by
  have hasked (r : ProjectRoot) : (s.onProject r (·.askedFor)).Clear root :=
    clear_onProject h fun p hp => ⟨(Project.askedFor_unclaimed hp).1, fun pane hc =>
      (Bool.and_eq_true_iff.1 hc).1⟩
  unfold enterReported
  split
  · split
    · refine clear_enter (hasked _) fun hr p hp => ?_
      subst hr
      obtain ⟨q, hq, rfl⟩ : ∃ q, s.projects root = some q ∧ q.askedFor = p := by simpa using hp
      exact (Project.askedFor_unclaimed (h.apart q hq)).2
    · exact h
  · exact h

theorem clear_shellReport {record : ShellRecord} {live entering : Bool} (h : s.Clear root) :
    (s.shellReport record live entering turn).Clear root := by
  unfold shellReport
  split
  · exact h
  · dsimp only
    split
    · refine clear_enterReported ?_
      unfold keepEnvironment
      split <;> exact clear_occupancyChanged h
    · exact clear_occupancyChanged h

/-! ### Clients -/

theorem clear_serve {request : Supervisor.Event} (h : s.Clear root) :
    (s.serve r turn request p).Clear root := by
  have hserved := (Project.serve_apart (p := p) request).run (turn.handling r)
  have hput : ((s.forgetEntry r).put r ((p.serve request).run (turn.handling r))).Clear root :=
    clear_put (clear_forgetEntry h) fun hr => by
      subst hr
      refine ⟨fun q hq => ?_, fun hsome => by simp at hsome⟩
      obtain rfl : _ = q := by simpa using hq
      exact hserved
  unfold serve
  dsimp only
  split <;> exact hput

theorem clear_request {act : Option (Act Project)} (h : s.Clear root)
    (hact : ∀ project ∈ act, project.All (Comes (s.projects r)))
    {answer : Service → Project → Service}
    (hanswer : ∀ {s : Service} {p : Project}, s.Clear root → (answer s p).Clear root) :
    (s.request r act turn answer).Clear root := by
  unfold request
  split
  · exact h
  · next project =>
    have hcomes := (hact project rfl).run (turn.loading r)
    exact hanswer (clear_put h fun hr => Comes.cleared (hr ▸ hcomes) h)

theorem clear_handle (h : s.Clear root) (event : Event) : (s.handle turn event).Clear root := by
  cases event with
  | delivered r event =>
    unfold handle
    dsimp only
    split
    · next p hp =>
      refine clear_put h fun hr => Comes.cleared (.inr ⟨p, hr ▸ hp, ?_⟩) h
      exact (Project.handle_keeps event).run (turn.handling r)
    · exact h
  | look r refresh =>
    refine clear_request h (fun project hproject => ?_) fun h => h
    split at hproject
    · exact refreshed_comes hproject
    · exact supervisor_comes hproject
  | up r => exact clear_request h (fun _ => refreshed_comes) clear_serve
  | down r => exact clear_request h (fun _ => supervisor_comes) clear_serve
  | control r name action =>
    refine clear_request h (fun _ => refreshed_comes) fun h => ?_
    split
    · exact clear_serve h
    · exact h
  | stackChanged r =>
    show (s.stackChanged r turn).Clear root
    unfold stackChanged
    split
    · next p hp =>
      refine clear_put h fun hr => Comes.cleared (.inr ⟨p, hr ▸ hp, ?_⟩) h
      exact (Project.stackChanged_keeps _).run (turn.handling r)
    · exact h
  | settingsChanged =>
    exact h.map id fun p _ hp => ⟨⟨hp.stopping, hp.idle⟩, fun _ hc => hc⟩
  | shellReport record live entering => exact clear_shellReport h
  | shellsGone shells =>
    exact clear_occupancyChanged (s := { s with environments := s.environments.filter (· ∉ shells) })
      h
  | timeout | storeStack _ _ | storeSettings _ | restart _ _ _ => exact h

/-! ### The tick -/

theorem clear_settle (h : s.Clear root) : s.settle.Clear root :=
  h.map id fun p _ hp =>
    ⟨(Project.move_keeps _).apart hp, (Project.move_keeps (p := p) _).claimed⟩

theorem clear_reenter (h : s.Clear root) : (s.reenter turn root).Clear root := by
  unfold reenter
  split
  · exact h
  · next entry hentry =>
    split
    · exact h
    · split
      · exact clear_forgetEntry h
      · exact clear_enter (clear_forgetEntry h) fun _ p hp _ => h.waits (by simp [hentry]) p hp

theorem clear_beforeStops (h : s.Clear root) : (s.beforeStops turn).Clear root :=
  clear_reenter (s := s.settle) (clear_settle h)

theorem clear_stopIdle (h : s.Clear root)
    (hown : ∀ p ∈ s.projects root, p.stopsAt turn.tick → p.StopsOwn) :
    (s.stopIdle turn).Clear root :=
  h.map id fun p hp hapart =>
    (Project.idleStopIfDue_keeps hapart (hown p hp)).run (turn.stopping root)

theorem clear_letGo (h : s.Clear root) : s.letGo.Clear root := by
  unfold Clear letGo
  dsimp only
  split
  · exact .of_none none
  · exact h

/-! ### Every turn -/

/-- Whenever the project's idle stop stops something, whatever is stopping already the last idle stop
is stopping. -/
def StopsOwn (root : ProjectRoot) (s : Service) (e : Event × Turn) : Prop :=
  match e.1 with
  | .storeStack _ _ | .storeSettings _ | .restart _ _ _ => True
  | event => ∀ p ∈ ((s.handle e.2 event).beforeStops e.2).projects root,
    p.stopsAt e.2.tick → p.StopsOwn

theorem clear_tick (h : s.Clear root)
    (hown : ∀ p ∈ (s.beforeStops turn).projects root, p.stopsAt turn.tick → p.StopsOwn) :
    (s.tick turn).Clear root :=
  clear_letGo (clear_stopIdle (clear_beforeStops h) hown)

theorem clear_adoptRunning : (s.adoptRunning turn).Clear root := by
  refine ⟨fun p hp => ?_, fun hsome => by simp [adoptRunning] at hsome⟩
  simp only [adoptRunning] at hp
  split at hp
  · cases hp
  · obtain ⟨act, hact, rfl⟩ := Option.mem_map.1 hp
    exact Project.apart_of_none ((Project.load_unclaimed hact).run (turn.loading root)).2

theorem clear_restoreIdleStops {readable : Bool} (h : s.Clear root) :
    (s.restoreIdleStops readable now).Clear root := by
  unfold Clear restoreIdleStops recordIdleStops
  dsimp only
  split
  · split
    · exact h.map id fun p _ hp => ⟨⟨hp.stopping, hp.idle⟩, fun _ hc => hc⟩
    · exact h
  · exact h

theorem clear_next (h : s.Clear root) (e : Event × Turn) (hown : StopsOwn root s e) :
    (machine.next s e).Clear root := by
  obtain ⟨event, turn⟩ := e
  cases event with
  | storeStack | storeSettings => exact h
  | restart => exact clear_restoreIdleStops (clear_occupancyChanged clear_adoptRunning)
  | delivered | look | up | down | control | stackChanged | settingsChanged | shellReport
  | shellsGone | timeout => exact clear_tick (clear_handle h _) hown

/-- **A shell coming back undoes no client's stop.**  In every run in which a project's idle stop finds
nothing stopping but what the last one is stopping: while a client's stop is in flight there, or has
ended its process with nobody having asked for it since, no entering waits in the project; whatever the
next event, the tick then starts nothing there for a waiting entering; and while the stop is in flight
a shell that enters is told to wait for nothing. -/
theorem client_stop_kept {stackOf : ProjectRoot → Option Stack} {settings : IdleStop}
    {offset now : ℤ} {s : Service} {root : ProjectRoot}
    (hs : (machine.restrict (StopsOwn root)).Reaches (first stackOf settings offset now) s) :
    (∀ p ∈ s.projects root, ∀ pane, p.clientStops pane →
      s.stoppingEntries root = none ∧ ((p.supervisor.slots pane).holdsProcess →
        ∀ stopping, (p.takeIdleStopping stopping).2 = [])) ∧
    ∀ turn event, let s := (s.handle turn event).settle
      ∀ p ∈ s.projects root, ∀ pane, p.clientStops pane →
        (s.enterStopped turn).projects root = some p := by
  have hclear : s.Clear root :=
    hs.invariant_restrict (fun _ e h _ hown => clear_next h e hown) (.of_none none)
  have hentry : ∀ {s : Service}, s.Clear root → ∀ p ∈ s.projects root, ∀ pane,
      p.clientStops pane → s.stoppingEntries root = none := fun h p hp pane hc =>
    Option.not_isSome_iff_eq_none.1 fun hsome => h.waits hsome p hp pane hc
  refine ⟨fun p hp pane hc => ⟨hentry hclear p hp pane hc, fun hheld stopping => ?_⟩,
    fun turn event p hp pane hc => ?_⟩
  · have hidle : p.idleStopping = [] := by
      by_contra hne
      exact (hclear.apart p hp).idle hne pane hc hheld
    simp [Project.takeIdleStopping, hidle]
  · have hnone := hentry (clear_settle (clear_handle hclear event)) p hp pane hc
    simpa [enterStopped, reenter, hnone] using hp

theorem stopsOwn_of_not_due {e : Event × Turn}
    (h : (((s.handle e.2 e.1).beforeStops e.2).projects root).all fun p => !p.stopsAt e.2.tick) :
    StopsOwn root s e := by
  unfold StopsOwn
  split
  · trivial
  · trivial
  · trivial
  · intro p hp hstops
    rw [hp] at h
    simp [hstops] at h

/-- The idle stop of the shop comes due while nothing is stopping. -/
def shopIdle : Event × Turn := (.timeout, { plainTurn 15000000 with stopping := fun _ => [true] })

theorem shopIdle_stopsOwn : StopsOwn shop (machine.play shopService shopLeft) shopIdle := by
  intro p hp _ pane
  cases hp
  cases pane with
  | zero => decide
  | succ pane => exact fun h => absurd h (by exact Bool.false_ne_true)

/-- A shell comes back while the idle stop is stopping the shop and waits; then a client stops the
process. -/
def shopStopped : List (Event × Turn) :=
  [(.shellReport (reportOf 1 3 (some shop)) true true, plainTurn 16000000),
   (.control shop Supervisor.webSpec.name .stop,
    { plainTurn 17000000 with handling := fun _ => [true] })]

theorem client_stop_kept_waiting :
    let s := machine.play shopService (shopLeft ++ shopIdle :: shopStopped)
    (s.projects shop).any (·.clientStops 0) ∧ s.stoppingEntries shop = none := by
  have hplays : (machine.restrict (StopsOwn shop)).Plays shopService
      (shopLeft ++ shopIdle :: shopStopped) :=
    ⟨⟨by decide, stopsOwn_of_not_due (by decide)⟩, ⟨by decide, stopsOwn_of_not_due (by decide)⟩,
      ⟨by decide, stopsOwn_of_not_due (by decide)⟩, ⟨by decide, shopIdle_stopsOwn⟩,
      ⟨by decide, stopsOwn_of_not_due (by decide)⟩, ⟨by decide, stopsOwn_of_not_due (by decide)⟩,
      trivial⟩
  have hclaimed : ((machine.play shopService (shopLeft ++ shopIdle :: shopStopped)).projects shop).any
      (·.clientStops 0) := by decide
  obtain ⟨p, hp, hc⟩ := (Option.any_eq_true _ _).1 hclaimed
  exact ⟨hclaimed, ((client_stop_kept (Machine.reaches_play_restrict hplays)).1 p hp 0 hc).1⟩

/-- A client stops the process and the idle stop comes due before it has stopped; then a shell comes
back, and the process ends. -/
def shopUndone : List (Event × Turn) :=
  shopLeft ++
  [(.control shop Supervisor.webSpec.name .stop,
    { plainTurn 6000000 with handling := fun _ => [true] }),
   (.timeout, plainTurn 15000000),
   (.shellReport (reportOf 1 3 (some shop)) true true, plainTurn 16000000)]

def shopEnded : Event × Turn :=
  (.delivered shop (.output 0 1 (.exited .succeeded)), plainTurn 17000000)

/-- The shell that came back waits for the process the client is stopping, and starts it again. -/
theorem entering_undoes_client_stop :
    machine.Plays shopService (shopUndone ++ [shopEnded]) ∧
      ((machine.play shopService shopUndone).projects shop).any (·.clientStops 0) ∧
      ((machine.play shopService shopUndone).stoppingEntries shop).any
        (Supervisor.webSpec.name ∈ ·.names) ∧
      ((machine.play shopService (shopUndone ++ [shopEnded])).projects shop).any
        fun p => (p.supervisor.slots 0).shows .starting :=
  ⟨by decide, by decide, by decide, by decide⟩

end Muster.Service
