import Mathlib.Logic.Function.Basic
import Muster.Lib.Machine
import Muster.Supervisor.Adopter

/-!
# System — the supervisor of a project

A supervisor keeps its rows in order and a slot under each pane.  It is loaded from the project's
stack and the children found running, and then handles one event at a time: a client's request, a
changed stack, or what a worker thread, a timer or a connection has to say to a pane.
-/

namespace Muster

open Supervisor

/-- A project's supervisor.  The last three fields are history no handler reads: how many spawns of a
pane had been handed to the runner when the stop of it that still stands was taken, and when the
stack dropped its row; and the keys of the last stack. -/
structure Supervisor where
  order : List ℕ
  slots : ℕ → Slot
  stopTaken : ℕ → Option ℕ
  dropped : ℕ → Option ℕ
  stack : List String

namespace Supervisor

def empty : Supervisor where
  order := []
  slots _ := .empty
  stopTaken _ := none
  dropped _ := none
  stack := []

variable (s : Supervisor)

@[simp] def put (pane : ℕ) (slot : Slot) : Supervisor :=
  { s with slots := Function.update s.slots pane slot }

def onPane (pane : ℕ) (handler : Slot → Act Slot) : Act Supervisor := do
  let slot ← handler (s.slots pane)
  pure (s.put pane slot)

def isNamed (pane : ℕ) (name : ProcessName) : Bool :=
  (s.slots pane).process.any (·.spec.name.key = name.key)

def paneNamed (name : ProcessName) : Option ℕ := s.order.find? (s.isNamed · name)

def request (name : ProcessName) (act : ℕ → Act Supervisor) : Act Supervisor :=
  match s.paneNamed name with
  | none => do
    .tell (.notice .error (some name) "no such process")
    pure s
  | some pane => act pane

@[simp] def takeStop (pane : ℕ) : Supervisor :=
  { s with stopTaken := Function.update s.stopTaken pane (some (s.slots pane).handed.length) }

@[simp] def askFor (pane : ℕ) : Supervisor :=
  { s with stopTaken := Function.update s.stopTaken pane none }

def eachPane (act : ℕ → Supervisor → Act Supervisor) : List ℕ → Supervisor → Act Supervisor
  | [], s => pure s
  | pane :: panes, s => do
    let s ← act pane s
    eachPane act panes s

/-! ### Requests of the whole project -/

/-- The pane is marked to start with the project and runs nothing. -/
def isAutostart (pane : ℕ) : Act Bool :=
  let slot := s.slots pane
  if slot.process.any (·.spec.autostart) && !slot.isLive && !slot.isStarting then do
    let pid ← slot.runningUnsupervisedPid
    pure pid.isNone
  else
    pure false

def autostartPanes : List ℕ → Act (List ℕ)
  | [] => pure []
  | pane :: panes => do
    let start ← s.isAutostart pane
    let rest ← autostartPanes panes
    pure (if start then pane :: rest else rest)

def up : Act Supervisor := do
  let panes ← s.autostartPanes s.order
  eachPane (fun pane s => (s.askFor pane).onPane pane Slot.spawnWith) panes s

def mayBeRunning (pane : ℕ) : Bool := (s.slots pane).process.any (·.state.mayBeRunning)

def stopPanes : List ℕ → Supervisor → Act Supervisor :=
  eachPane fun pane s => (s.takeStop pane).onPane pane Slot.stopPane

/-- The processes an error was raised about. -/
def refused : List Effect → List ProcessName
  | [] => []
  | .notice .error (some name) _ :: said => name :: refused said
  | _ :: said => refused said

/-- Stops every row that may be running: the supervisor, and the processes it acted on. -/
def down : Act (Supervisor × List ProcessName) := do
  let panes := s.order.filter s.mayBeRunning
  let (stopped, said) ← (stopPanes panes s).listen
  let names := panes.filterMap fun pane => (s.slots pane).name
  pure (stopped, names.filter fun name => name ∉ refused said)

/-! ### Stacks -/

/-- A row of a new stack: a kept one keeps its pane, another gets a new one. -/
structure StackRow where
  pane : ℕ
  spec : ProcessSpec
  kept : Bool

/-- The id after every other. -/
def nextPane : ℕ := (s.order.map (· + 1)).foldr max 0

/-- Matches the definitions of a stack with the rows `heads` by key, each of them once; new ones are
numbered from `next`. -/
def syncRows : List ProcessSpec → (heads : List ℕ) → (next : ℕ) → List StackRow
  | [], _, _ => []
  | spec :: specs, heads, next => match heads.find? (s.isNamed · spec.name) with
    | some pane => ⟨pane, spec, true⟩ :: syncRows specs (heads.erase pane) next
    | none => ⟨next, spec, false⟩ :: syncRows specs heads (next + 1)

def heads : List ℕ := s.order.filter fun pane =>
  (s.slots pane).name.any fun name => s.paneNamed name = some pane

def rowOf (rows : List StackRow) (pane : ℕ) : Option StackRow := rows.find? (·.pane = pane)

/-- What a stack makes of the slot of `pane`: a kept row takes its new definition, a new one waits, and
one the stack does not name is to go with what it holds, or goes at once. -/
def syncSlot (rows : List StackRow) (pane : ℕ) : Slot :=
  let slot := s.slots pane
  match rowOf rows pane with
  | some row =>
    if row.kept then (slot.setSpec row.spec).setMembership .tracked else slot.addRow row.spec
  | none =>
    if pane ∈ s.order then
      if slot.holdsProcess then slot.setMembership .retireOnExit else slot.retirePane
    else slot

def sync (specs : List ProcessSpec) (rows : List StackRow) : Supervisor where
  order := rows.map (·.pane) ++
    s.order.filter fun pane => (rowOf rows pane).isNone && (s.slots pane).holdsProcess
  slots := s.syncSlot rows
  stopTaken pane := if (rowOf rows pane).all (·.kept) then s.stopTaken pane else none
  dropped pane :=
    if (rowOf rows pane).isSome then none
    else if pane ∈ s.order then some (s.slots pane).handed.length
    else s.dropped pane
  stack := specs.map (·.name.key)

/-- Brings the rows in line with the project's stack: a dropped row that holds a process is stopped,
and goes with it. -/
def applyStack (specs : List ProcessSpec) : Act Supervisor :=
  let rows := s.syncRows specs s.heads s.nextPane
  let retiring := s.order.filter fun pane =>
    (rowOf rows pane).isNone && (s.slots pane).holdsProcess
  eachPane (fun pane s => s.onPane pane Slot.stopPane) retiring (s.sync specs rows)

/-! ### Loading -/

/-- The supervisor of a project no process of which is known to run. -/
def new (specs : List ProcessSpec) : Supervisor :=
  empty.sync specs (empty.syncRows specs empty.heads empty.nextPane)

/-- Shows how the last run of a process ended, while its pane has not run. -/
def restoreEnd (run : ProcessName × ExitOutcome) : Supervisor :=
  match s.paneNamed run.1 with
  | none => s
  | some pane =>
    let slot := s.slots pane
    if slot.shows .pending then
      s.put pane (slot.setState (if run.2.isFailure then .crashed else .exited))
    else
      s

/-- The definition of a process that runs and that the stack does not name. -/
def removedSpec (record : HolderRecord) : ProcessSpec where
  name := record.process
  autostart := false
  restart := .never
  storedProblem := record.storedProblem

/-- Takes over the child of a holder found running. -/
def adopt (record : HolderRecord) : Act Supervisor :=
  match s.paneNamed record.process with
  | none =>
    let pane := s.nextPane
    let s := s.put pane ((s.slots pane).addRow (removedSpec record))
    let dropped := Function.update s.dropped pane (some (s.slots pane).handed.length)
    { s with order := s.order ++ [pane], dropped }.onPane pane fun slot => slot.adopt record true
  | some pane =>
    if (s.slots pane).holdsProcess then
      s.onPane pane fun slot => slot.refuseAdoption record
    else
      s.onPane pane fun slot => slot.adopt record false

def adoptAll : List HolderRecord → Supervisor → Act Supervisor
  | [], s => pure s
  | record :: records, s => do
    let s ← s.adopt record
    adoptAll records s

/-- A project loaded from its stack, the ends of earlier runs and the holders found running. -/
def load (specs : List ProcessSpec) (runs : List (ProcessName × ExitOutcome))
    (records : List HolderRecord) : Act Supervisor :=
  adoptAll records (runs.foldl restoreEnd (new specs))

end Supervisor

/-! ### Events -/

namespace Supervisor

inductive Event where
  | up | down
  | start (name : ProcessName)
  | stop (name : ProcessName)
  | restart (name : ProcessName)
  | forceKill (name : ProcessName)
  | pause (name : ProcessName)
  | resume (name : ProcessName)
  | stackChanged (specs : List ProcessSpec)
  | sampled (pane : ℕ) (block : Option String)
  | output (pane generation : ℕ) (output : ProcessOutput)
  | spawned (pane generation : ℕ) (result : Except String Handle)
  | launchBlocked (pane generation : ℕ) (block : String)
  | adopted (pane generation : ℕ) (record : HolderRecord) (result : Except String Handle)
  | reconnectLocated (pane generation : ℕ) (record : Option HolderRecord)
  | adoptionProbed (pane attempt : ℕ) (asked : Bool) (pid : ℕ) (record : Option HolderRecord)
  | adoptionRetryDue (pane attempt : ℕ)
  | respawn (pane generation : ℕ)
  | forceStop (pane generation shutdownGeneration : ℕ)

variable (s : Supervisor)

def handle : Event → Act Supervisor
  | .up => s.up
  | .down => do
    let (s, _) ← s.down
    pure s
  | .start name => s.request name fun pane => (s.askFor pane).onPane pane Slot.startPane
  | .stop name => s.request name fun pane => (s.takeStop pane).onPane pane Slot.stopPane
  | .restart name => s.request name fun pane => (s.askFor pane).onPane pane Slot.restartPane
  | .forceKill name => s.request name fun pane => (s.takeStop pane).onPane pane Slot.forceKillPane
  | .pause name => s.request name fun pane => s.onPane pane Slot.pausePane
  | .resume name => s.request name fun pane => s.onPane pane Slot.resumePane
  | .stackChanged specs => s.applyStack specs
  | .sampled pane block => s.onPane pane fun slot => pure { slot with portBlock := block }
  | .output pane generation output => s.onPane pane fun slot =>
    (slot.report generation output).handleOutput generation output
  | .spawned pane generation result => s.onPane pane fun slot =>
    (slot.receive (.spawned generation)).settleSpawn generation result
  | .launchBlocked pane generation block => s.onPane pane fun slot =>
    (slot.receive (.spawned generation)).handleLaunchBlocked generation block
  | .adopted pane generation record result => s.onPane pane fun slot =>
    (slot.receive (.adopted generation record)).settleAdoption generation record result
  | .reconnectLocated pane generation record => s.onPane pane fun slot =>
    (slot.receive (.located generation)).handleReconnectLocated generation record
      (record.any fun record => s.paneNamed record.process = some pane)
  | .adoptionProbed pane attempt asked pid record => s.onPane pane fun slot =>
    (slot.receive (.probed attempt asked pid)).handleAdoptionProbed attempt asked record
  | .adoptionRetryDue pane attempt => s.onPane pane fun slot =>
    (slot.receive (.retryDue attempt)).handleAdoptionRetryDue attempt
  | .respawn pane generation => s.onPane pane fun slot =>
    (slot.receive (.respawn generation)).handleRespawn generation
  | .forceStop pane generation shutdownGeneration => s.onPane pane fun slot =>
    (slot.receive (.forceStop generation shutdownGeneration)).handleForceStop generation
      shutdownGeneration

/-- Workers and timers say what they owe, once; a connection reports its exit once. -/
def Enabled : Event → Prop
  | .output pane generation output =>
    output.isExit → (s.slots pane).generation = generation → (s.slots pane).mayExit
  | .spawned pane generation _ | .launchBlocked pane generation _ =>
    .spawned generation ∈ (s.slots pane).posted
  | .adopted pane generation record _ => .adopted generation record ∈ (s.slots pane).posted
  | .reconnectLocated pane generation _ => .located generation ∈ (s.slots pane).posted
  | .adoptionProbed pane attempt asked pid _ =>
    .probed attempt asked pid ∈ (s.slots pane).posted
  | .adoptionRetryDue pane attempt => .retryDue attempt ∈ (s.slots pane).posted
  | .respawn pane generation => .respawn generation ∈ (s.slots pane).posted
  | .forceStop pane generation shutdownGeneration =>
    .forceStop generation shutdownGeneration ∈ (s.slots pane).posted
  | _ => True

instance Enabled.decidable : ∀ e, Decidable (s.Enabled e)
  | .output pane generation output => inferInstanceAs (Decidable (output.isExit →
      (s.slots pane).generation = generation → (s.slots pane).mayExit))
  | .spawned pane generation _ | .launchBlocked pane generation _ =>
    inferInstanceAs (Decidable (.spawned generation ∈ (s.slots pane).posted))
  | .adopted pane generation record _ =>
    inferInstanceAs (Decidable (.adopted generation record ∈ (s.slots pane).posted))
  | .reconnectLocated pane generation _ =>
    inferInstanceAs (Decidable (.located generation ∈ (s.slots pane).posted))
  | .adoptionProbed pane attempt asked pid _ =>
    inferInstanceAs (Decidable (.probed attempt asked pid ∈ (s.slots pane).posted))
  | .adoptionRetryDue pane attempt =>
    inferInstanceAs (Decidable (.retryDue attempt ∈ (s.slots pane).posted))
  | .respawn pane generation =>
    inferInstanceAs (Decidable (.respawn generation ∈ (s.slots pane).posted))
  | .forceStop pane generation shutdownGeneration =>
    inferInstanceAs (Decidable (.forceStop generation shutdownGeneration ∈ (s.slots pane).posted))
  | .up | .down | .start _ | .stop _ | .restart _ | .forceKill _ | .pause _ | .resume _
  | .stackChanged _ | .sampled _ _ => isTrue trivial

/-- After every event exits held for a restart that will not come are let go, whether or not the
holder hears of it, and rows that went are off the list. -/
def settled : Supervisor :=
  { s with
    slots := fun pane => (s.slots pane).releaseSettledExit.run []
    order := s.order.filter fun pane => (s.slots pane).process.isSome }

/-- The supervisor as it handles events, each with what the world answers meanwhile. -/
def machine : Machine Supervisor (Event × List Bool) where
  Enabled s e := s.Enabled e.1
  next s e := ((s.handle e.1).run e.2).settled

instance machine.decidable (s : Supervisor) (e : Event × List Bool) :
    Decidable (machine.Enabled s e) := Enabled.decidable s e.1

/-- A project as it is loaded. -/
def Loaded (s : Supervisor) : Prop :=
  ∃ specs runs records answers, s = ((load specs runs records).run answers).settled

end Supervisor

end Muster
