import Muster.Supervisor.Unsupervised

/-!
# Lifecycle — launching, stopping and what follows an exit

The requests of one pane and the handlers of its exits and timers.  A request on a pane whose launch
is in flight is recorded in the launch and applied once the launch settles.
-/

namespace Muster.Supervisor.Slot

variable (s : Slot)

/-! ### Launching -/

@[simp] def launchSpawn (process : Process) : Slot :=
  let restarting := process.state = .restarting
  let s := { s with handed := s.holding :: s.handed }.bumpGeneration
  let s := s.beginLaunch (.new s.generation process.state (.spawn restarting))
  { (s.setState .starting).post (.spawned s.generation) with mayExit := true }

/-- Launches the pane's process, unless an unsupervised child, a problem of its definition or a
port already taken is in the way. -/
def spawnWith : Act Slot :=
  if s.isStarting then
    pure s
  else do
    let (refused, s) ← s.refuseUnsupervisedLaunch
    if refused then
      pure s
    else match s.process with
      | none =>
        .tell (.notice .error none "could not start: the pane has no process")
        pure s
      | some process => match process.spec.storedProblem with
        | some problem =>
          s.notify .error problem
          pure s
        | none => match s.portBlock with
          | some block =>
            s.notify .error block
            pure (s.setState .blocked)
          | none => pure (s.launchSpawn process)

def startPane : Act Slot :=
  if s.isLive || s.isStarting then pure s else s.spawnWith

/-! ### Stopping -/

@[simp] def settleStopped : Slot := s.bumpGeneration.deactivate.setState .exited

/-- Asks a live process to end, by its stop signal or else by a kill; `request`, `delivered` and
`failed` are what that makes of the exit intent. -/
def requestGracefulTransition (request delivered failed : ExitIntent → ExitIntent) : Act Slot :=
  if s.process.isNone then
    pure s
  else
    let s := s.advanceShutdown.changeIntent request
    match s.pane.bind (·.handle) with
    | none => do
      s.notify .error "could not stop the process"
      pure s
    | some handle => do
      if ← .query (.terminate handle) then
        pure ((s.changeIntent delivered).setState .stopping).scheduleForceStop
      else if ← .query (.kill handle) then
        let s := (s.changeIntent delivered).setState .stopping
        s.notify .warning "graceful shutdown failed; force-killed"
        pure s
      else
        let s := s.changeIntent failed
        s.notify .error "could not stop the process"
        pure s

/-- A stop ends the retry that would adopt the child again: the adoption's result is then one to
collect, not to install. -/
@[simp] def supersedeRetryAdoption : Slot :=
  if s.isUnsupervised then
    match s.launch with
    | some launch =>
      { s with launch := none, stoppedAdoption := some launch.generation }.advanceGeneration
    | none => s
  else s

def stopPane : Act Slot :=
  let s := s.supersedeRetryAdoption
  if s.isStarting then
    pure (s.recordIntent .stop)
  else if s.isUnsupervised then
    s.stopUnsupervised false
  else if s.isLive && s.pane.any (!·.exitIntent.acceptsStopRequest) then
    pure s
  else if s.isLive then
    s.requestGracefulTransition .requestStop .stopDelivered .stopDeliveryFailed
  else
    pure s.settleStopped

def forceKillPane : Act Slot :=
  let s := s.supersedeRetryAdoption
  if s.isStarting then
    pure (s.recordIntent .kill)
  else if s.isUnsupervised then
    s.stopUnsupervised true
  else match s.pane.bind (·.handle) with
    | none => pure s.settleStopped
    | some handle => do
      let s := s.advanceShutdown.changeIntent .requestStop
      if ← .query (.kill handle) then
        pure ((s.changeIntent .stopDelivered).setState .stopping)
      else
        let s := s.changeIntent .stopDeliveryFailed
        s.notify .error "could not stop the process"
        pure s

def restartPane : Act Slot :=
  if s.isStarting then
    pure (s.recordIntent .restart)
  else if s.isLive then
    if s.pane.any (!·.exitIntent.acceptsRestartRequest) then
      pure s
    else
      s.requestGracefulTransition .requestRestart .restartDelivered .restartDeliveryFailed
  else do
    -- a launch asked for here counts as a restart, unless the restart policy counts it already
    let counted := s.shows .restarting
    let before := s.generation
    let s ← s.spawnWith
    if counted || s.generation = before then
      pure s
    else
      pure (s.onLaunch (·.markRestarting))

def signalPause (pause : Bool) : Act Slot :=
  match s.pane with
  | none => pure s
  | some pane =>
    if pane.exitIntent ≠ .followPolicy then
      pure s
    else match pane.handle with
      | none => pure s
      | some handle =>
        if pause then do
          if ← .query (.pause handle) then
            pure (s.setState .paused)
          else
            s.notify .error "could not pause the process"
            pure s
        else do
          if ← .query (.resume handle) then
            pure (s.setState .running)
          else
            s.notify .error "could not resume the process"
            pure s

def pausePane : Act Slot :=
  if s.isStarting then pure (s.recordSuspend true)
  else if s.isPaused then pure s
  else s.signalPause true

def resumePane : Act Slot :=
  if s.isStarting then pure (s.recordSuspend false)
  else if s.isPaused then s.signalPause false
  else pure s

/-! ### Exits and timers -/

/-- A crash nothing asked for is told once in a row of crashes. -/
def reportUnrequestedExit (intent : ExitIntent) (outcome : ExitOutcome) : Act Unit :=
  if intent.isStop || intent.isRestart || !outcome.isFailure || s.process.isNone then
    pure ()
  else do
    if ← .query (.isNews "crashed") then
      s.notify .error s!"crashed: {outcome.text}"
    else
      pure ()

/-- What the exit of the pane's child leads to; no pane, no exit. -/
def applyExit (outcome : ExitOutcome) : Act Slot :=
  match s.pane with
  | none => pure s
  | some pane => do
    s.reportUnrequestedExit pane.exitIntent outcome
    match afterExit pane.exitIntent (pane.configMembership = .retireOnExit)
        (s.shouldRestart outcome) outcome with
    | .retire => pure s.retirePane
    | .stop => pure (s.deactivate.setState .exited)
    | .restartNow => ((s.setState .restarting).deactivate).spawnWith
    | .restartLater => pure ((s.setState .restarting).deactivate).scheduleRestart
    | .settle state => pure (s.deactivate.setState state)

/-- An exit is held, not acknowledged, while the pane waits to be launched again; one held before
is let go. -/
def settleFinished (finished : Handle) (retired : Bool) : Act Slot :=
  if !retired && s.awaitsRespawn then do
    let displaced := s.heldExit
    let s := { s with heldExit := some finished }
    match displaced with
    | some handle =>
      s.acknowledge handle
      pure s
    | none => pure s
  else do
    s.acknowledge finished
    pure s

def handleExit (outcome : ExitOutcome) : Act Slot :=
  match s.pane.bind (·.handle) with
  | none => s.applyExit outcome
  | some finished => do
    let retired := s.pane.any (·.configMembership = .retireOnExit)
    let s ← (s.onPane ({ · with handle := none })).applyExit outcome
    s.settleFinished finished retired

def handleRespawn (generation : ℕ) : Act Slot :=
  if s.generation = generation then s.spawnWith else pure s

def handleForceStop (generation shutdownGeneration : ℕ) : Act Slot :=
  match s.pane with
  | none => pure s
  | some pane =>
    if s.generation ≠ generation || pane.shutdownGeneration ≠ shutdownGeneration ||
        !pane.exitIntent.awaitsForceStop then
      pure s
    else
      let s := s.advanceShutdown
      if s.isUnsupervised then
        s.escalateUnsupervised
      else match pane.handle with
        | none => pure s
        | some handle => do
          if ← .query (.kill handle) then
            let s := s.setState .stopping
            s.notify .warning "graceful shutdown timed out; force-killed"
            pure s
          else
            let s := s.changeIntent .forceStopDeliveryFailed
            s.notify .error "could not stop the process"
            pure s

@[simp] def markPane (membership : ConfigMembership) : Slot :=
  s.onPane ({ · with configMembership := membership })

def applySuspend : Option Bool → Act Slot
  | some true => s.pausePane
  | some false => s.resumePane
  | none => pure s

def applyAsked (suspend : Option Bool) (intent : Option PendingIntent) : Act Slot := do
  let s ← s.applySuspend suspend
  match intent with
  | some .stop => s.stopPane
  | some .kill => s.forceKillPane
  | some .restart => s.restartPane
  | none => pure s

/-- Applies what was asked of the pane while its launch was in flight. -/
def applyPending (membership : Option ConfigMembership) (suspend : Option Bool)
    (intent : Option PendingIntent) : Act Slot :=
  match membership with
  | none => s.applyAsked suspend intent
  | some membership =>
    let s := s.markPane membership
    if membership = .retireOnExit && !s.holdsProcess then
      pure s.retirePane
    else
      s.applyAsked suspend intent

end Muster.Supervisor.Slot
