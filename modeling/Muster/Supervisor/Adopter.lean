import Muster.Supervisor.Lifecycle

/-!
# Adopter — taking over children that run already, and settling launches

A lost connection is looked for again: the child's holder is located and adopted, or the child is
left unsupervised, or taken for gone.  The results of spawns and adoptions arrive as events; one
whose launch was superseded meanwhile is discarded.
-/

namespace Muster.Supervisor.Slot

variable (s : Slot)

def withPids (notice : String) (record : HolderRecord) : String :=
  s!"{notice} (child pid {record.childPid}, holder pid {record.holderPid})"

def adoptFailedNotice : String := "could not reconnect to a running process"

def leftRunning : String := "; it was left running unsupervised"

def sinceExited : String := "; it has since exited"

def noHolderRecord (pid : Option ℕ) : String :=
  "no holder record names pid " ++ (pid.map toString).getD ""

/-- Whether the record's child runs, collecting its exit when it does not. -/
def childRunsOrCollect (record : HolderRecord) : Act Bool := do
  if ← .query (.observe record.childPid) then
    pure true
  else
    .tell (.collectExit record.socket)
    pure false

/-! ### A lost connection -/

/-- A failed adoption is told once for each holder, and tried again later. -/
def adoptionFailedUnsupervised (record : HolderRecord) (error : String) : Act Slot := do
  let told := s.retry.bind (·.told)
  let current := (s.retry.map (·.current)).getD 0
  let s := { s with retry := some { told := some record.holderPid, current } }
  if told = some record.holderPid then
    pure s.scheduleAdoptionRetry
  else
    s.notify .error (withPids s!"{adoptFailedNotice}{leftRunning}: {error}" record)
    pure s.scheduleAdoptionRetry

@[simp] def restorePane (carried : CarriedPane) : Slot :=
  s.onPane ({ · with exitIntent := carried.intent, configMembership := carried.membership })

def continueStopUnsupervised (intent : ExitIntent) : Act Slot :=
  if intent.isStop then s.stopUnsupervised false else pure s

/-- Leaves the child of a lost connection unsupervised, if its pid is known and it runs. -/
def leaveCarried : Option ℕ → Act (Bool × Slot)
  | some pid => s.leaveUnsupervised pid
  | none => pure (false, s)

def reportLeft (pid : Option ℕ) : Option (HolderRecord × String) → Act Slot
  | some (record, error) => s.adoptionFailedUnsupervised record error
  | none => do
    s.notify .error s!"{adoptFailedNotice}{leftRunning}: {noHolderRecord pid}"
    pure s

def reportEnded (pid : Option ℕ) : Option (HolderRecord × String) → Act Unit
  | some (record, error) => do
    .tell (.collectExit record.socket)
    s.notify .error (withPids s!"{adoptFailedNotice}{sinceExited}: {error}" record)
  | none => s.notify .error s!"{adoptFailedNotice}{sinceExited}: {noHolderRecord pid}"

/-- The reconnection failed, with the adoption's record and error if it came that far: the child is
left unsupervised if it runs, and taken for ended if not. -/
def reconnectFailed (carried : CarriedPane) (failure : Option (HolderRecord × String)) :
    Act Slot := do
  let (running, s) ← s.leaveCarried carried.pid
  if running then
    let s ← s.reportLeft carried.pid failure
    s.continueStopUnsupervised carried.intent
  else
    s.reportEnded carried.pid failure
    (s.restorePane carried).applyExit .failedUnknown

/-- What the pane carries over the loss of its connection. -/
@[simp] def carryOver (pane : Pane) (handle : Handle) : CarriedPane where
  intent := pane.exitIntent
  membership := pane.configMembership
  state := s.process.map (·.state)
  pid := handle.pid

def reconnect : Act Slot :=
  match s.pane with
  | none => pure s
  | some pane => match pane.handle with
    | none => pure s
    | some handle =>
      let carried := s.carryOver pane handle
      let prior := carried.state.getD .pending
      let s := (s.onPane ({ · with handle := none })).bumpGeneration
      match carried.pid with
      | some _ =>
        let s := s.beginLaunch (.new s.generation prior (.adopt (some carried)))
        pure ((s.setState .starting).post (.located s.generation))
      | none => s.reconnectFailed carried none

/-! ### Outputs -/

@[simp] def keepEarly (output : ProcessOutput) : Slot := s.onLaunch (·.keep output)

/-- An output of the current generation: kept while its launch is in flight, else handled. -/
def handleOutput (generation : ℕ) (output : ProcessOutput) : Act Slot :=
  if s.generation ≠ generation then
    pure s
  else if s.launch.any (·.generation = generation) then
    pure (s.keepEarly output)
  else match output with
    | .unreadable reason => do
      s.notify .error
        s!"lost the connection to this process; it may still be running: {reason}"
      s.reconnect
    | .exited outcome => s.handleExit outcome
    | .warning text => do
      s.notify .warning text
      pure s
    | .chunk | .placed | .unlogged | .repaint | .attached _ => pure s

def replay (generation : ℕ) : List ProcessOutput → Slot → Act Slot
  | [], s => pure s
  | output :: rest, s => do
    let s ← s.handleOutput generation output
    replay generation rest s

@[simp] def runsLaunch (generation : ℕ) : Bool := s.isLive && s.generation = generation

/-! ### Spawns settling -/

def installSpawned (generation : ℕ) (early : List ProcessOutput) :
    Except String Handle → Act (Bool × Slot)
  | .ok handle => do
    let s ← s.releaseHeldExit
    let s ← replay generation early (s.installPane handle)
    pure (s.runsLaunch generation, s)
  | .error error => do
    let s := s.deactivate
    if ← .query (.isNews "could not start the process") then
      s.notify .error s!"could not start the process: {error}"
    else
      pure ()
    if s.shouldRestart .failedUnknown then
      pure (false, (s.setState .restarting).scheduleRestart)
    else
      pure (false, s.setState .crashed)

def forgetLaunch (generation : ℕ) : Slot :=
  { s with launch := s.launch.filter (·.generation ≠ generation) }

def discard : Except String Handle → Act Unit
  | .ok handle => .tell (.abandon handle)
  | .error _ => pure ()

def settleSpawn (generation : ℕ) (result : Except String Handle) : Act Slot :=
  match s.takeLaunch generation with
  | none => do
    discard result
    pure (s.forgetLaunch generation)
  | some launch =>
    let s := s.endLaunch result.isOk
    match launch.purpose with
    | .adopt _ => do
      discard result
      pure s
    | .spawn _ => do
      let (installed, s) ← s.installSpawned generation launch.early result
      s.applyPending launch.membership (launch.suspend.filter fun _ => installed) launch.intent

/-- The worker found a port of the launch taken. -/
def handleLaunchBlocked (generation : ℕ) (block : String) : Act Slot :=
  match s.takeLaunch generation with
  | none => pure (s.forgetLaunch generation)
  | some launch => do
    let s := s.endLaunch false
    s.notify .error block
    (s.setState .blocked).applyPending launch.membership none launch.intent

/-! ### Adoptions -/

@[simp] def beginAdoption (record : HolderRecord) (prior : ProcessState) : Slot :=
  let s := s.bumpGeneration
  let s := s.beginLaunch (.new s.generation prior (.adopt none))
  { s.post (.adopted s.generation record) with mayExit := true }

/-- A running holder's child is adopted when the service starts; `removed` says that no row named
it, so that it is stopped and its row retired. -/
def adopt (record : HolderRecord) (removed : Bool) : Act Slot := do
  let prior := (s.process.map (·.state)).getD .pending
  let s := (s.beginAdoption record prior).setState .starting
  if removed then
    s.notify .warning "stopped: removed from the project"
    pure ((s.setMembership .retireOnExit).recordIntent .stop)
  else
    pure s

/-- A row that holds a process already adopts no second one. -/
def refuseAdoption (record : HolderRecord) : Act Slot := do
  if ← childRunsOrCollect record then
    s.notify .warning
      (withPids ("a second running copy of this process was found; " ++
        "it was left running unsupervised") record)
  else
    pure ()
  pure s

def handleAdoptionRetryDue (attempt : ℕ) : Act Slot :=
  if s.isCurrentRetry attempt then do
    match ← s.retryablePid with
    | none => pure s
    | some _ => s.probeAdoption attempt false
  else
    pure s

def handleAdoptionProbed (attempt : ℕ) (asked : Bool) (record : Option HolderRecord) : Act Slot :=
  if s.isCurrentRetry attempt then do
    match ← s.retryablePid with
    | none => pure s
    | some pid => match record.filter (·.childPid = pid) with
      | some record => pure (s.beginAdoption record .unsupervised)
      | none =>
        if asked then s.refuseUnsupervisedStart pid else pure ()
        pure s.scheduleAdoptionRetry
  else
    pure s

/-- The holder of a lost connection's child was looked for; `ours` says that the record found names
this pane's process. -/
def handleReconnectLocated (generation : ℕ) (record : Option HolderRecord) (ours : Bool) :
    Act Slot :=
  match s.takeLaunch generation with
  | none =>
    let s := s.forgetLaunch generation
    match record with
    | none => pure s
    | some record => do
      if ← childRunsOrCollect record then
        let notice := Effect.notice .error (some record.process)
          (withPids s!"{adoptFailedNotice}{leftRunning}" record)
        if ours && !s.holdsProcess then
          let (running, s) ← s.leaveUnsupervised record.childPid
          .tell notice
          pure (if running then s.scheduleAdoptionRetry else s)
        else
          .tell notice
          pure s
      else
        pure s
  | some launch =>
    let s := s.endLaunch false
    match launch.purpose with
    | .spawn _ | .adopt none => pure s
    | .adopt (some carried) => match record.filter fun _ => ours && !s.holdsProcess with
      | none => do
        let s ← (s.setState launch.priorState).reconnectFailed
          (carried.withMembership launch.membership) none
        if s.process.isSome then
          s.applyPending launch.membership none launch.intent
        else
          pure s
      | some record =>
        pure { (s.beginLaunch launch).post (.adopted generation record) with mayExit := true }

def reportSupersededFailure (record : HolderRecord) (error : String) : Act Unit := do
  if ← childRunsOrCollect record then
    .tell (.notice .error (some record.process)
      (withPids s!"{adoptFailedNotice}{leftRunning}: {error}" record))
  else
    pure ()

/-- A retry's child that a stop overtook is collected once the stop is done with it. -/
def collectOnceStopped (record : HolderRecord) : Act Slot := do
  match ← s.runningUnsupervisedPid with
  | some pid =>
    if pid = record.childPid then
      pure { s with collectAfterStop := some record.socket }
    else do
      .tell (.collect record.socket)
      pure s
  | none =>
    .tell (.collect record.socket)
    pure s

def settleStaleAdoption (generation : ℕ) (record : HolderRecord) (result : Except String Handle) :
    Act Slot :=
  if s.stoppedAdoption = some generation then
    let s := { s with stoppedAdoption := none }
    match result with
    | .ok _ => s.collectOnceStopped record
    | .error error => do
      reportSupersededFailure record error
      pure s
  else
    let s := s.forgetLaunch generation
    match result with
    | .ok handle => do
      .tell (.abandon handle)
      pure s
    | .error error => do
      reportSupersededFailure record error
      pure s

/-- The adoption failed: the child is left unsupervised if it runs. -/
def adoptionFailed (launch : PendingLaunch) (carried : Option CarriedPane) (record : HolderRecord)
    (error : String) : Act Slot := do
  let s := s.setState launch.priorState
  match carried with
  | some carried =>
    let s ← s.reconnectFailed (carried.withMembership launch.membership) (some (record, error))
    if s.process.isSome then
      s.applyPending launch.membership none launch.intent
    else
      pure s
  | none =>
    let (running, s) ← s.leaveUnsupervised record.childPid
    let s ←
      if running then
        s.adoptionFailedUnsupervised record error
      else do
        .tell (.collectExit record.socket)
        s.notify .error (withPids s!"{adoptFailedNotice}{sinceExited}: {error}" record)
        pure s
    s.applyPending launch.membership none launch.intent

/-- Installs an adopted child: a reconnected pane gets back the intent, membership and state it
carried, and the wake-up of a stop it was in. -/
def installAdopted (handle : Handle) (carried : Option CarriedPane) : Slot :=
  let s := { s with retry := none }.installPane handle
  match carried with
  | none => s
  | some carried =>
    let s := s.restorePane carried
    let s := match carried.state with
      | some state => s.setState state
      | none => s
    if carried.intent.awaitsForceStop && s.process.isSome then
      s.advanceShutdown.scheduleForceStop
    else
      s

def settleAdoption (generation : ℕ) (record : HolderRecord) (result : Except String Handle) :
    Act Slot :=
  match s.takeLaunch generation with
  | none => s.settleStaleAdoption generation record result
  | some launch =>
    let s := s.endLaunch result.isOk
    match launch.purpose with
    | .spawn _ => do
      discard result
      pure s
    | .adopt carried => match result with
      | .error error => s.adoptionFailed launch carried record error
      | .ok handle => do
        let s ← replay generation launch.early
          (s.installAdopted handle (carried.map (·.withMembership launch.membership)))
        s.applyPending launch.membership (launch.suspend.filter fun _ => s.runsLaunch generation)
          launch.intent

end Muster.Supervisor.Slot
