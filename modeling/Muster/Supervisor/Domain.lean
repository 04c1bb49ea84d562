import Mathlib.Data.Nat.Notation

/-!
# Domain — the values a supervisor works with

Process states, exit intents, restart policies and what follows an exit; the records a supervisor
keeps of one pane: its launch in flight, the child left running unsupervised, the pane itself.
Clocks, sockets and terminals stay outside: a deadline is a flag, a handle its identity and pid.
-/

namespace Muster.Supervisor

/-- A process name as written, with its key: two names with the same key are the same name. -/
structure ProcessName where
  text : String
  key : String
deriving DecidableEq, Repr

/-- What a process is shown as. -/
inductive ProcessState where
  | pending | starting | running | paused | stopping | exited | crashed | restarting
  | unsupervised | blocked
deriving DecidableEq, Repr

namespace ProcessState

def isActive : ProcessState → Bool
  | starting | running | paused | stopping | restarting => true
  | pending | exited | crashed | unsupervised | blocked => false

def mayBeRunning (state : ProcessState) : Bool := state.isActive || state = unsupervised

end ProcessState

inductive ExitCause where
  | status (code : ℕ)
  | signal (name : String)
  | unknown
deriving DecidableEq, Repr

inductive ExitOutcome where
  | succeeded
  | failed (cause : ExitCause)
deriving DecidableEq, Repr

namespace ExitOutcome

def failedUnknown : ExitOutcome := failed .unknown

def isFailure : ExitOutcome → Bool
  | succeeded => false
  | failed _ => true

def text : ExitOutcome → String
  | succeeded => "exited with status 0"
  | failed (.status code) => s!"exited with status {code}"
  | failed (.signal name) => s!"ended by signal: {name}"
  | failed .unknown => "ended without a status"

end ExitOutcome

/-- When a process that ended unasked is started again. -/
inductive RestartPolicy where
  | never | onFailure | always
deriving DecidableEq, Repr

def RestartPolicy.shouldRestart : RestartPolicy → ExitOutcome → Bool
  | never, _ => false
  | onFailure, outcome => outcome.isFailure
  | always, _ => true

/-- What the next exit of a live process means: a request whose signal was delivered is in flight,
one whose signal was not may be asked again. -/
inductive ExitIntent where
  | followPolicy | stopRetryable | stopInFlight | restartRetryable | restartInFlight
deriving DecidableEq, Repr

namespace ExitIntent

def isStop : ExitIntent → Bool
  | stopRetryable | stopInFlight => true
  | _ => false

def isRestart : ExitIntent → Bool
  | restartRetryable | restartInFlight => true
  | _ => false

def requestStop (_ : ExitIntent) : ExitIntent := stopRetryable

def stopDelivered (intent : ExitIntent) : ExitIntent :=
  if intent.isStop then stopInFlight else intent

def stopDeliveryFailed (intent : ExitIntent) : ExitIntent :=
  if intent.isStop then stopRetryable else intent

def requestRestart (_ : ExitIntent) : ExitIntent := restartRetryable

def restartDelivered (intent : ExitIntent) : ExitIntent :=
  if intent.isRestart then restartInFlight else intent

def restartDeliveryFailed (intent : ExitIntent) : ExitIntent :=
  if intent.isRestart then restartRetryable else intent

def acceptsStopRequest (intent : ExitIntent) : Bool := intent ≠ stopInFlight

def acceptsRestartRequest (intent : ExitIntent) : Bool := intent ≠ restartInFlight

def forceStopDeliveryFailed : ExitIntent → ExitIntent
  | stopInFlight => stopRetryable
  | restartInFlight => restartRetryable
  | intent => intent

def awaitsForceStop : ExitIntent → Bool
  | stopInFlight | restartInFlight => true
  | _ => false

end ExitIntent

inductive ExitDecision where
  | retire | stop | restartNow | restartLater
  | settle (state : ProcessState)
deriving DecidableEq, Repr

def exitState : ExitOutcome → ProcessState
  | .succeeded => .exited
  | .failed _ => .crashed

def afterExit (intent : ExitIntent) (retiredFromStack shouldRestart : Bool)
    (outcome : ExitOutcome) : ExitDecision :=
  if retiredFromStack then .retire
  else match intent with
    | .stopRetryable | .stopInFlight => .stop
    | .restartRetryable | .restartInFlight => .restartNow
    | .followPolicy => if shouldRestart then .restartLater else .settle (exitState outcome)

/-- Whether the stack still names a pane's process. -/
inductive ConfigMembership where
  | tracked | retireOnExit
deriving DecidableEq, Repr

/-- What was asked of a pane while its launch was in flight. -/
inductive PendingIntent where
  | stop | kill | restart
deriving DecidableEq, Repr

/-- A connection to a running child: which one it is, and the child's pid if it is known. -/
structure Handle where
  id : ℕ
  pid : Option ℕ
deriving DecidableEq, Repr

/-- What a pane keeps over a lost connection. -/
structure CarriedPane where
  intent : ExitIntent
  membership : ConfigMembership
  state : Option ProcessState
  pid : Option ℕ
deriving DecidableEq, Repr

def CarriedPane.withMembership (carried : CarriedPane) (membership : Option ConfigMembership) :
    CarriedPane :=
  { carried with membership := membership.getD carried.membership }

/-- What a launch in flight is for. -/
inductive LaunchPurpose where
  | spawn (restarting : Bool)
  | adopt (carried : Option CarriedPane)
deriving DecidableEq, Repr

/-- What a connection reports. -/
inductive ProcessOutput where
  | chunk | placed | unlogged | repaint
  | exited (outcome : ExitOutcome)
  | unreadable (reason : String)
  | warning (text : String)
  | attached (writableClients : ℕ)
deriving DecidableEq, Repr

namespace ProcessOutput

def isExit : ProcessOutput → Bool
  | exited _ => true
  | _ => false

def isUnreadable : ProcessOutput → Bool
  | unreadable _ => true
  | _ => false

def droppable : ProcessOutput → Bool
  | chunk | warning _ | attached _ | unlogged => true
  | _ => false

end ProcessOutput

/-- A spawn or an adoption in flight, and what was asked of its pane meanwhile. -/
structure PendingLaunch where
  generation : ℕ
  priorState : ProcessState
  purpose : LaunchPurpose
  early : List ProcessOutput
  intent : Option PendingIntent
  suspend : Option Bool
  membership : Option ConfigMembership
deriving DecidableEq, Repr

namespace PendingLaunch

def earlyOutputCap : ℕ := 256

def new (generation : ℕ) (priorState : ProcessState) (purpose : LaunchPurpose) : PendingLaunch where
  generation
  priorState
  purpose
  early := []
  intent := none
  suspend := none
  membership := none

/-- Keeps an output reported before the launch settled; past the cap the oldest droppable one
goes. -/
def keep (launch : PendingLaunch) (output : ProcessOutput) : PendingLaunch :=
  if earlyOutputCap ≤ launch.early.length then
    { launch with early := launch.early.eraseP ProcessOutput.droppable ++ [output] }
  else
    { launch with early := launch.early ++ [output] }

def markRestarting (launch : PendingLaunch) : PendingLaunch :=
  match launch.purpose with
  | .spawn _ => { launch with purpose := .spawn true }
  | .adopt _ => launch

end PendingLaunch

/-- What a holder wrote down about the child it holds; `storedProblem` is what the command it was
launched with holds against another start. -/
structure HolderRecord where
  process : ProcessName
  childPid : ℕ
  holderPid : ℕ
  socket : String
  storedProblem : Option String
deriving DecidableEq, Repr

/-- A child no connection is open to; `inGrace` while a stop's grace period runs. -/
structure UnsupervisedChild where
  pid : ℕ
  killPolls : ℕ
  inGrace : Bool
deriving DecidableEq, Repr

def UnsupervisedChild.observed (pid : ℕ) : UnsupervisedChild where
  pid
  killPolls := 0
  inGrace := false

def UnsupervisedChild.beginStop (child : UnsupervisedChild) (inGrace : Bool) : UnsupervisedChild :=
  { child with killPolls := 0, inGrace }

/-- A pane's terminal: its connection, or the child left without one, and what its exit means. -/
structure Pane where
  handle : Option Handle
  unsupervised : Option UnsupervisedChild
  exitIntent : ExitIntent
  shutdownGeneration : ℕ
  configMembership : ConfigMembership
deriving DecidableEq, Repr

def Pane.new (handle : Option Handle) : Pane where
  handle
  unsupervised := none
  exitIntent := .followPolicy
  shutdownGeneration := 0
  configMembership := .tracked

/-- A process's definition, as far as supervision reads it: `storedProblem` is why it is never
started as it stands (a value past a cap, a directory leaving the root). -/
structure ProcessSpec where
  name : ProcessName
  autostart : Bool
  restart : RestartPolicy
  storedProblem : Option String
deriving DecidableEq, Repr

structure Process where
  spec : ProcessSpec
  state : ProcessState
deriving DecidableEq, Repr

def ProcessSpec.toProcess (spec : ProcessSpec) : Process where
  spec
  state := .pending

end Muster.Supervisor
