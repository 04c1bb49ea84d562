import Muster.Supervisor.Runs

/-!
# Holdings — what a pane holds, and what it shows of it

In every run a pane holds at most one child, and the state it shows agrees with what it holds.
-/

namespace Muster.Supervisor

def PendingLaunch.isRetry (launch : PendingLaunch) : Bool :=
  launch.purpose = .adopt none && launch.priorState = .unsupervised

variable {t : Terms} {s : Slot}

/-- A pane holds a connection, a launch or an unsupervised child, and no two of them, but for a retry
and the child it is to adopt. -/
theorem Slot.Inv.exclusive (h : Slot.Inv t s) :
    (s.isLive → s.isStarting = false ∧ s.isUnsupervised = false) ∧
      (s.isUnsupervised → ∀ launch ∈ s.launch, launch.isRetry ∧
        ∀ record, .adopted s.generation record ∈ s.posted →
          ∀ child ∈ s.unsupervisedChild, record.childPid = child.pid) := by
  refine ⟨fun hlive => ?_, fun hu launch hlaunch => ⟨?_, fun record hmem =>
    h.booked.ours record hmem (by simp [Option.mem_def.1 hlaunch])⟩⟩
  · obtain ⟨spec, state, handle, intent, shutdown, membership, -, hpane, hl, -⟩ := h.live hlive
    simp [hpane, hl]
  · obtain ⟨spec, state, child, intent, shutdown, membership, -, -, -, hretry, -⟩ := h.left hu
    have := hretry launch hlaunch
    simp [PendingLaunch.isRetry, this.purpose, this.prior]

/-- What a pane shown in a state holds. -/
structure Agrees (s : Slot) : Prop where
  starting : s.shows .starting ↔ s.launch.any (!·.isRetry)
  connected : s.shows .running ∨ s.shows .paused → s.isLive
  stopping : s.shows .stopping → s.isLive ∨ s.isUnsupervised
  unsupervised : s.shows .unsupervised → s.isUnsupervised
  settled : s.shows .pending ∨ s.shows .exited ∨ s.shows .crashed ∨ s.shows .blocked →
    s.isLive = false ∧ s.isStarting = false ∧ s.isUnsupervised = false

theorem Slot.PriorFits.isRetry {launch : PendingLaunch} {pane : Option Pane}
    (h : Slot.PriorFits launch pane) : launch.isRetry = false := by
  unfold Slot.PriorFits at h
  split at h
  · next hpurpose => simp [PendingLaunch.isRetry, hpurpose]
  · next hpurpose =>
    have hne : launch.priorState ≠ .unsupervised := fun heq => by
      simp [heq, ProcessState.isSettled] at h
    simp [PendingLaunch.isRetry, hne]
  · next hpurpose => simp [PendingLaunch.isRetry, hpurpose]

/-- In each of its shapes a pane shows what it holds. -/
theorem Slot.Inv.agrees (h : Slot.Inv t s) : Agrees s := by
  cases h.shape with
  | gone process pane launch => constructor <;> simp [process, pane, launch]
  | idle spec state process pane launch settled =>
    have hlive := pane.isLive
    have hleft := pane.isUnsupervised
    refine ⟨?_, ?_, ?_, ?_, fun _ => ⟨hlive, by simp [launch], hleft⟩⟩
    all_goals cases state <;> simp_all [ProcessState.isSettled]
  | launching spec launched process pane launch current prior =>
    constructor <;> simp [process, launch, prior.isRetry]
  | live spec state handle intent shutdown membership process pane launch connected =>
    constructor
    all_goals cases state <;> simp_all [ProcessState.isConnected]
  | left spec state child intent shutdown membership process pane alone retry =>
    have hretry : s.launch.any (!·.isRetry) = false := by
      cases hl : s.launch with
      | none => rfl
      | some launch =>
        have := retry launch hl
        simp [PendingLaunch.isRetry, this.purpose, this.prior]
    obtain ⟨rfl, -⟩ | ⟨rfl, -⟩ := alone
    all_goals constructor <;> simp_all

theorem allows_all (s : Supervisor) (e : Event) : (⟨false, false, false⟩ : Pledge).Allows s e :=
  ⟨fun h => (nomatch h), fun h => (nomatch h), fun h => (nomatch h)⟩

theorem kept_always {s₀ s : Supervisor} (hload : s₀.Loaded) (hr : machine.Reaches s₀ s) :
    Kept ⟨false, false, false⟩ s :=
  hr.invariant (fun _ _ h he => h.next he (allows_all _ _)) (kept_loaded hload)

/-- **Never two children of one process.**  In every run a pane has a live connection, or a launch or
an adoption in flight, or an unsupervised child on record, and no two of them, except that a retry in
flight may stand beside the child it is to adopt; and every spawn was handed to the runner while
the pane had none of the three. -/
theorem one_child {s₀ s : Supervisor} (hload : s₀.Loaded) (hr : machine.Reaches s₀ s) (pane : ℕ) :
    ((s.slots pane).isLive →
      (s.slots pane).isStarting = false ∧ (s.slots pane).isUnsupervised = false) ∧
    ((s.slots pane).isUnsupervised → ∀ launch ∈ (s.slots pane).launch, launch.isRetry ∧
      ∀ record, .adopted (s.slots pane).generation record ∈ (s.slots pane).posted →
        ∀ child ∈ (s.slots pane).unsupervisedChild, record.childPid = child.pid) ∧
    ∀ holding ∈ (s.slots pane).handed, holding = ⟨false, false, false⟩ := by
  have hinv := (kept_always hload hr).panes pane
  exact ⟨hinv.exclusive.1, hinv.exclusive.2, hinv.logged.bare⟩

/-- A project with one process, started whenever its project is and after every failure. -/
def webSpec : ProcessSpec where
  name := ⟨"web", "web"⟩
  autostart := true
  restart := .onFailure
  storedProblem := none

def webProject : Supervisor := ((load [webSpec] [] []).run []).settled

def webRecord : HolderRecord where
  process := webSpec.name
  childPid := 41
  holderPid := 40
  socket := "web.sock"
  storedProblem := none

/-- The process is spawned, its connection lost and its holder not found; the child still runs. -/
def webLeft : List (Event × List Bool) :=
  [(.up, []), (.spawned 0 1 (.ok ⟨1, some 41⟩), []), (.output 0 1 (.unreadable "closed"), []),
    (.reconnectLocated 0 2 none, [true])]

/-- A start looks for the holder of the child again, and finds it. -/
def webRetried : List (Event × List Bool) :=
  webLeft ++ [(.start webSpec.name, [true, true, true]),
    (.adoptionProbed 0 1 true 41 (some webRecord), [true])]

theorem webProject_loaded : webProject.Loaded := ⟨[webSpec], [], [], [], rfl⟩

theorem one_child_retried :
    ((machine.play webProject webRetried).slots 0).isUnsupervised ∧
    ((machine.play webProject webRetried).slots 0).isStarting ∧
    ∀ holding ∈ ((machine.play webProject webRetried).slots 0).handed,
      holding = ⟨false, false, false⟩ :=
  ⟨by decide, by decide,
    (one_child webProject_loaded (Machine.reaches_play (by decide)) 0).2.2⟩

/-- **The shown state agrees with what is held.**  In every run each pane is shown as starting exactly
when a launch or an adoption other than a retry is in flight, as running or paused only with a live
connection, as stopping only with one or with an unsupervised child on record, as unsupervised only
with such a child, and as pending, exited, crashed or blocked only when it holds nothing. -/
theorem shown_agrees {s₀ s : Supervisor} (hload : s₀.Loaded) (hr : machine.Reaches s₀ s)
    (pane : ℕ) : Agrees (s.slots pane) :=
  ((kept_always hload hr).panes pane).agrees

theorem shown_agrees_retried :
    ((machine.play webProject webRetried).slots 0).shows .unsupervised ∧
    ((machine.play webProject webRetried).slots 0).isUnsupervised :=
  have hshown : ((machine.play webProject webRetried).slots 0).shows .unsupervised := by decide
  ⟨hshown, (shown_agrees webProject_loaded (Machine.reaches_play (by decide)) 0).unsupervised hshown⟩

end Muster.Supervisor
