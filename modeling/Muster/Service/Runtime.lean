import Muster.Service.Project

/-!
# Runtime — the service loop

The one service of a user keeps the supervisor of every loaded project and the table of shells, on a
single thread: it handles an event, then ticks.  The store and the registry of shells outlive it; a
service started later takes over what they say.  Wall time is `offset` past the monotonic clock.
-/

namespace Muster

open Config (ProjectRoot)

namespace Service

def maxShells : ℕ := 4096

/-- An entering that found autostart processes still stopping. -/
structure StoppingEntry where
  shell : ShellId
  names : List Supervisor.ProcessName
deriving DecidableEq

/-- What other programs write and a service started later reads: the stacks and settings, and when
the last shell left each project with an idle stop pending, in milliseconds of wall time. -/
structure Store where
  stackOf : ProjectRoot → Option Stack
  settings : IdleStop
  idleStops : ProjectRoot → Option ℕ

/-- What can happen to a project between two idle stops. -/
inductive Happening where
  | left (time : ℤ)
  | entered (time : ℤ)
  | broughtUp (time : ℤ)
deriving DecidableEq

/-- An idle stop that was made: when, the idle stop in force, who was inside, and what had last
happened to the project. -/
structure IdleStopped where
  time : ℤ
  idleStop : IdleStop
  inside : List ShellId
  last : Option Happening
deriving DecidableEq

/-- What the outside has to say in one turn of the loop: when the event is handled and the tick runs,
what projects are loaded with, and how it answers what supervisors ask as they are loaded, handle the
event, are entered again and are idle-stopped. -/
structure Turn where
  now : ℤ
  tick : ℤ
  found : ProjectRoot → Found
  loading : ProjectRoot → List Bool
  handling : ProjectRoot → List Bool
  entering : ProjectRoot → List Bool
  stopping : ProjectRoot → List Bool

end Service

open Service

/-- The service and the store it works on.  The last three fields are history no handler reads: the
time of the last turn, what last happened to each project, and the idle stops made. -/
structure Service where
  projects : ProjectRoot → Option Project
  occupancy : Occupancy
  settings : IdleStop
  stoppingEntries : ProjectRoot → Option StoppingEntry
  environments : List ShellId
  recordedIdle : ProjectRoot → Option ℤ
  store : Store
  offset : ℤ
  now : ℤ
  last : ProjectRoot → Option Happening
  idleStops : ProjectRoot → List IdleStopped

namespace Service

variable (s : Service)

@[simp] def put (root : ProjectRoot) (p : Project) : Service :=
  { s with projects := Function.update s.projects root (some p) }

@[simp] def onProject (root : ProjectRoot) (f : Project → Project) : Service :=
  { s with projects := Function.update s.projects root ((s.projects root).map f) }

@[simp] def forgetEntry (root : ProjectRoot) : Service :=
  { s with stoppingEntries := Function.update s.stoppingEntries root none }

@[simp] def happen (root : ProjectRoot) (happening : Happening) : Service :=
  { s with last := Function.update s.last root (some happening) }

/-! ### Shells -/

/-- A project its last shell left arms its idle stop, one a shell entered holds it off. -/
def change (now : ℤ) : OccupancyChange → Service
  | .left root => ((s.forgetEntry root).happen root (.left now)).onProject root (·.armIdle now)
  | .entered root => (s.happen root (.entered now)).onProject root (·.holdUp)

def occupancyChanged (table : Occupancy) (changes : List OccupancyChange) (now : ℤ) : Service :=
  changes.foldl (fun s c => s.change now c) { s with occupancy := table }

def supervisor (turn : Turn) (root : ProjectRoot) : Option (Supervisor.Act Project) :=
  match s.projects root with
  | some p => some (pure p)
  | none => Project.load (s.store.stackOf root) (turn.found root) s.settings

/-- The project's supervisor over the stack as it is stored now. -/
def refreshed (turn : Turn) (root : ProjectRoot) : Option (Supervisor.Act Project) :=
  match s.projects root with
  | some p => some (p.refreshStack (s.store.stackOf root))
  | none => Project.load (s.store.stackOf root) (turn.found root) s.settings

/-- Starts the autostart set of a project for a shell; what the last idle stop is still stopping is
started once it has stopped.  A project that cannot be loaded starts nothing. -/
def enter (root : ProjectRoot) (shell : ShellId) (turn : Turn) (answers : List Bool) : Service :=
  match s.refreshed turn root with
  | none => s
  | some project =>
    let (p, names) := (project >>= Project.enter).run answers
    let s := s.put root p
    if names.isEmpty then s
    else { s with stoppingEntries := Function.update s.stoppingEntries root (some ⟨shell, names⟩) }

def keepEnvironment (shell : ShellId) (fresh : Bool) : Service :=
  if fresh then { s with environments := shell :: s.environments } else s

def enterReported (record : ShellRecord) (changes : List OccupancyChange) (turn : Turn) : Service :=
  match record.project with
  | some root =>
    if .entered root ∈ changes then
      (s.onProject root (·.askedFor)).enter root record.shell turn (turn.handling root)
    else s
  | none => s

/-- A shell's report.  One from a shell that has ended changes nothing, and a new shell is refused
while too many are known. -/
def shellReport (record : ShellRecord) (live entering : Bool) (turn : Turn) : Service :=
  if !live || !s.occupancy.knows record.shell && maxShells ≤ s.occupancy.len then s
  else
    let fresh := s.occupancy.isNewer record
    let (table, changes) := s.occupancy.report record
    let s := s.occupancyChanged table changes turn.now
    if entering then (s.keepEnvironment record.shell fresh).enterReported record changes turn
    else s

def removeAll : List ShellId → Occupancy → Occupancy × List OccupancyChange
  | [], table => (table, [])
  | shell :: shells, table =>
    let (table, left) := table.remove shell
    let (table, changes) := removeAll shells table
    (table, left ++ changes)

def shellsGone (shells : List ShellId) (turn : Turn) : Service :=
  let (table, changes) := removeAll shells s.occupancy
  { s with environments := s.environments.filter (· ∉ shells) }.occupancyChanged table changes turn.now

/-! ### Clients -/

/-- Answers a request of a project once it is loaded; one that cannot be loaded is refused. -/
def request (root : ProjectRoot) (project : Option (Supervisor.Act Project)) (turn : Turn)
    (answer : Service → Project → Service) : Service :=
  match project with
  | none => s
  | some project =>
    let p := project.run (turn.loading root)
    answer (s.put root p) p

/-- An accepted request: an entering waiting there is dropped, and nothing the last idle stop stopped
starts again because a shell came back. -/
def serve (root : ProjectRoot) (turn : Turn) (asked : Supervisor.Event) (p : Project) : Service :=
  let s := (s.forgetEntry root).put root ((p.serve asked).run (turn.handling root))
  if Project.bringsUp asked then s.happen root (.broughtUp turn.now) else s

inductive ProcessAction where
  | start | stop | restart | pause | resume | kill
deriving DecidableEq

def ProcessAction.event (name : Supervisor.ProcessName) : ProcessAction → Supervisor.Event
  | start => .start name
  | stop => .stop name
  | restart => .restart name
  | pause => .pause name
  | resume => .resume name
  | kill => .forceKill name

/-- Controls one process; a name the project does not have is refused. -/
def control (root : ProjectRoot) (name : Supervisor.ProcessName) (action : ProcessAction)
    (turn : Turn) : Service :=
  s.request root (s.refreshed turn root) turn fun s p =>
    if (p.supervisor.paneNamed name).isSome then s.serve root turn (action.event name) p else s

def stackChanged (root : ProjectRoot) (turn : Turn) : Service :=
  match s.projects root with
  | some p => s.put root ((p.stackChanged (s.store.stackOf root)).run (turn.handling root))
  | none => s

def settingsChanged : Service :=
  { s with
    settings := s.store.settings
    projects := fun root => (s.projects root).map ({ · with setting := s.store.settings }) }

/-! ### The tick -/

/-- The shell that enters a project again: the one that entered while it is still inside, else the
first other one there that once entered. -/
def enteringShell (root : ProjectRoot) (entry : StoppingEntry) : Option ShellId :=
  let inside := s.occupancy.shellsIn root
  if entry.shell ∈ inside then some entry.shell else inside.find? (· ∈ s.environments)

/-- Enters a project again once what an entering waited for has stopped; with no shell left inside the
entering is dropped. -/
def reenter (turn : Turn) (root : ProjectRoot) : Service :=
  match s.stoppingEntries root with
  | none => s
  | some entry =>
    if entry.names.any fun name => (s.projects root).any (·.supervisor.runsOrStarts name) then s
    else match s.enteringShell root entry with
      | none => s.forgetEntry root
      | some shell => (s.forgetEntry root).enter root shell turn (turn.entering root)

def enterStopped (turn : Turn) : Service :=
  { s with
    projects := fun root => (s.reenter turn root).projects root
    stoppingEntries := fun root => (s.reenter turn root).stoppingEntries root }

def stopIdle (turn : Turn) : Service :=
  { s with
    projects := fun root => (s.projects root).map fun p =>
      (p.idleStopIfDue turn.tick).run (turn.stopping root)
    idleStops := fun root => match (s.projects root).filter (·.stopsAt turn.tick) with
      | some p => ⟨turn.tick, p.idleStop, s.occupancy.shellsIn root, s.last root⟩ :: s.idleStops root
      | none => s.idleStops root }

def letGo : Service :=
  let gone (root : ProjectRoot) : Bool :=
    (s.projects root).any fun p => p.unregistered && p.supervisor.isIdle
  { s with
    projects := fun root => if gone root then none else s.projects root
    stoppingEntries := fun root => if gone root then none else s.stoppingEntries root }

def millis (wall : ℤ) : ℕ := (wall.toNat + 999999) / 1000000

def armed (root : ProjectRoot) : Option ℤ := (s.projects root).bind (·.leftAt)

/-- What the store keeps of a project's idle stop; it keeps nothing of one not registered. -/
def recordIdle (now : ℤ) (root : ProjectRoot) : Option ℕ :=
  if (s.store.stackOf root).isNone then s.store.idleStops root
  else match s.armed root with
    | some left =>
      if s.recordedIdle root = some left then s.store.idleStops root
      else some (millis (now + s.offset - max 0 (now - left)))
    | none => if (s.recordedIdle root).isSome then none else s.store.idleStops root

def recordIdleStops (now : ℤ) : Service :=
  { s with
    store := { s.store with idleStops := s.recordIdle now }
    recordedIdle := s.armed }

def settle : Service := { s with projects := fun root => (s.projects root).map (·.settle) }

def beforeStops (turn : Turn) : Service := s.settle.enterStopped turn

def tick (turn : Turn) : Service :=
  { (((s.beforeStops turn).stopIdle turn).letGo).recordIdleStops turn.tick with now := turn.tick }

/-! ### A service takes over -/

def restoreAll (records : List ShellRecord) (table : Occupancy) : Occupancy :=
  records.foldl (fun table record =>
    if table.len < maxShells then table.restore record else table) table

/-- Puts each ended shell back and removes it, so that its projects see it leave. -/
def removeEnded : List ShellRecord → Occupancy → Occupancy × List OccupancyChange
  | [], table => (table, [])
  | record :: records, table =>
    let (table, left) := (table.restore record).remove record.shell
    let (table, changes) := removeEnded records table
    (table, left ++ changes)

def restoreShells (records : List ShellRecord) (live : ShellId → Bool) (now : ℤ) : Service :=
  let (table, changes) := removeEnded (records.filter (!live ·.shell))
    (restoreAll (records.filter (live ·.shell)) s.occupancy)
  s.occupancyChanged table changes now

def restoredLeave (now : ℤ) (stored : ℕ) : ℤ := now - max 0 (now + s.offset - stored * 1000000)

/-- Takes over the idle stops an earlier service left pending; each project no shell is in arms again
from when its last shell left. -/
def restoreIdleStops (readable : Bool) (now : ℤ) : Service :=
  let left (root : ProjectRoot) : Option ℤ :=
    if readable then (s.store.idleStops root).map (s.restoredLeave now) else none
  let s : Service :=
    { s with
      recordedIdle := left
      projects := fun root => match left root with
        | some left =>
          if s.occupancy.occupants root = 0 then (s.projects root).map (·.armIdle left)
          else s.projects root
        | none => s.projects root }
  s.recordIdleStops now

/-- A service that has loaded the projects something runs of. -/
def adoptRunning (turn : Turn) : Service where
  projects root :=
    if (turn.found root).records.isEmpty then none
    else (Project.load (s.store.stackOf root) (turn.found root) s.store.settings).map
      (·.run (turn.loading root))
  occupancy := .new
  settings := s.store.settings
  stoppingEntries _ := none
  environments := []
  recordedIdle _ := none
  store := s.store
  offset := s.offset
  now := s.now
  last := s.last
  idleStops := s.idleStops

def restart (records : List ShellRecord) (live : ShellId → Bool) (readable : Bool) (turn : Turn) :
    Service :=
  { ((s.adoptRunning turn).restoreShells records live turn.now).restoreIdleStops readable turn.tick with
    now := turn.tick }

/-! ### Runs -/

/-- What the service is handed, what others write to the store, and a service started anew over the
shells the registry has on record. -/
inductive Event where
  | delivered (root : ProjectRoot) (event : Supervisor.Event)
  | look (root : ProjectRoot) (refresh : Bool)
  | up (root : ProjectRoot)
  | down (root : ProjectRoot)
  | control (root : ProjectRoot) (name : Supervisor.ProcessName) (action : ProcessAction)
  | stackChanged (root : ProjectRoot)
  | settingsChanged
  | shellReport (record : ShellRecord) (live entering : Bool)
  | shellsGone (shells : List ShellId)
  | timeout
  | storeStack (root : ProjectRoot) (stack : Option Stack)
  | storeSettings (settings : IdleStop)
  | restart (records : List ShellRecord) (live : ShellId → Bool) (readable : Bool)

/-- Applies one event; those of the store's other writers and of a restart are no events of the
loop. -/
def handle (turn : Turn) : Event → Service
  | .delivered root event => match s.projects root with
    | some p => s.put root ((p.handle event).run (turn.handling root))
    | none => s
  | .look root refresh =>
    s.request root (if refresh then s.refreshed turn root else s.supervisor turn root) turn
      fun s _ => s
  | .up root => s.request root (s.refreshed turn root) turn fun s p => s.serve root turn .up p
  | .down root => s.request root (s.supervisor turn root) turn fun s p => s.serve root turn .down p
  | .control root name action => s.control root name action turn
  | .stackChanged root => s.stackChanged root turn
  | .settingsChanged => s.settingsChanged
  | .shellReport record live entering => s.shellReport record live entering turn
  | .shellsGone shells => s.shellsGone shells turn
  | .timeout | .storeStack _ _ | .storeSettings _ | .restart _ _ _ => s

/-- Stores a stack; a project without one has no idle stop stored either. -/
def storeStack (root : ProjectRoot) (stack : Option Stack) : Service :=
  { s with store := { s.store with
      stackOf := Function.update s.store.stackOf root stack
      idleStops := if stack.isSome then s.store.idleStops
        else Function.update s.store.idleStops root none } }

def next (turn : Turn) : Event → Service
  | .storeStack root stack => s.storeStack root stack
  | .storeSettings settings => { s with store := { s.store with settings } }
  | .restart records live readable => s.restart records live readable turn
  | event => (s.handle turn event).tick turn

/-- Only workers, timers and connections deliver to a project's supervisor. -/
def Event.isOffered : Event → Bool
  | .delivered _ event => event.isReport
  | _ => true

/-- The service as it turns, on a clock that never goes back. -/
def machine : Machine Service (Event × Turn) where
  Enabled s e := s.now ≤ e.2.now ∧ e.2.now ≤ e.2.tick ∧ e.1.isOffered
  next s e := s.next e.2 e.1

instance machine.decidable (s : Service) (e : Event × Turn) : Decidable (machine.Enabled s e) :=
  inferInstanceAs (Decidable (s.now ≤ e.2.now ∧ e.2.now ≤ e.2.tick ∧ e.1.isOffered))

/-- Before the first service: nothing runs, no shell is known and no idle stop is pending. -/
def first (stackOf : ProjectRoot → Option Stack) (settings : IdleStop) (offset now : ℤ) : Service where
  projects _ := none
  occupancy := .new
  settings
  stoppingEntries _ := none
  environments := []
  recordedIdle _ := none
  store := ⟨stackOf, settings, fun _ => none⟩
  offset
  now
  last _ := none
  idleStops _ := []

end Service

end Muster
