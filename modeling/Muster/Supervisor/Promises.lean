import Muster.Supervisor.Holdings

/-!
# Promises — what a supervisor promises about a process, and where it breaks its word

A process shown as restarting is restarted, a stop beats the restart policy, and a process removed
from the stack stays removed.  Each holds in every run that keeps clear of the events the promise
does not allow; for each a run that does not is shown to break it.
-/

namespace Muster.Supervisor

instance Sound.decidable (s : Supervisor) : ∀ e, Decidable (Sound s e)
  | .respawn pane generation => inferInstanceAs (Decidable
      ((s.slots pane).generation = generation → (s.slots pane).isSound))
  | .output pane generation output => inferInstanceAs (Decidable
      (output.isExit ∨ output.isUnreadable → (s.slots pane).generation = generation →
        (s.slots pane).exitRestarts → (s.slots pane).isSound))
  | .reconnectLocated pane _ _ | .adopted pane _ _ _ => inferInstanceAs (Decidable
      ((s.slots pane).launchRestarts → (s.slots pane).isSound))
  | .up | .down | .start _ | .stop _ | .restart _ | .forceKill _ | .pause _ | .resume _
  | .stackChanged _ | .sampled _ _ | .spawned _ _ _ | .launchBlocked _ _ _
  | .adoptionProbed _ _ _ _ _ | .adoptionRetryDue _ _ | .forceStop _ _ _ => isTrue trivial

instance Unopposed.decidable (s : Supervisor) : ∀ e, Decidable (Unopposed s e)
  | .stop name | .forceKill name => inferInstanceAs (Decidable
      (∀ pane ∈ s.paneNamed name, (s.slots pane).launchRestarts = false))
  | .down => inferInstanceAs (Decidable
      (∀ pane ∈ s.order, s.mayBeRunning pane → (s.slots pane).launchRestarts = false))
  | .adoptionProbed pane _ _ _ record => inferInstanceAs (Decidable
      (∀ r ∈ record, ∀ p ∈ (s.slots pane).pane, ∀ child ∈ p.unsupervised,
        r.childPid = child.pid → p.exitIntent.isStop = false))
  | .up | .start _ | .restart _ | .pause _ | .resume _ | .stackChanged _ | .sampled _ _
  | .output _ _ _ | .spawned _ _ _ | .launchBlocked _ _ _ | .adopted _ _ _ _
  | .reconnectLocated _ _ _ | .adoptionRetryDue _ _ | .respawn _ _ | .forceStop _ _ _ => isTrue trivial

instance Recorded.decidable (s : Supervisor) : ∀ e, Decidable (Recorded s e)
  | .spawned pane generation result => inferInstanceAs (Decidable (result.isOk →
      ∀ launch ∈ (s.slots pane).takeLaunch generation, launch.membership = some .retireOnExit →
        launch.early.any ProcessOutput.isUnreadable = false))
  | .adopted pane generation _ result => inferInstanceAs (Decidable (result.isOk →
      ∀ launch ∈ (s.slots pane).takeLaunch generation, launch.purpose = .adopt none →
        launch.membership = some .retireOnExit ∨
          (s.slots pane).pane.any (·.configMembership = .retireOnExit) →
        launch.membership = some .retireOnExit ∧
          launch.early.any ProcessOutput.isUnreadable = false))
  | .up | .down | .start _ | .stop _ | .restart _ | .forceKill _ | .pause _ | .resume _
  | .stackChanged _ | .sampled _ _ | .output _ _ _ | .launchBlocked _ _ _
  | .reconnectLocated _ _ _ | .adoptionProbed _ _ _ _ _ | .adoptionRetryDue _ _ | .respawn _ _
  | .forceStop _ _ _ => isTrue trivial

/-! ### Restarts -/

theorem Slot.Inv.respawn_posted {t : Terms} {s : Slot} (h : Slot.Inv t s) (ht : t.restarts)
    (hshown : s.shows .restarting) : .respawn s.generation ∈ s.posted := by
  cases h.shape with
  | gone process => simp [process] at hshown
  | idle spec state process pane launch settled restarts =>
    exact restarts ht (by simpa [process] using hshown)
  | launching spec launched process => simp [process] at hshown
  | live spec state handle intent shutdown membership process pane launch connected =>
    have hstate : state = .restarting := by simpa [process] using hshown
    simp [hstate, ProcessState.isConnected] at connected
  | left spec state child intent shutdown membership process pane alone =>
    have hstate : state = .restarting := by simpa [process] using hshown
    simp [hstate] at alone

/-- After an event an exit is held only while the pane waits to be launched again. -/
theorem settled_held (s : Supervisor) (pane : ℕ) (hheld : (s.settled.slots pane).heldExit.isSome) :
    (s.settled.slots pane).awaitsRespawn := by
  have hslot : s.settled.slots pane = _ := released_slot (s.slots pane)
  rw [hslot] at hheld ⊢
  split at hheld
  · next hawaits => simp [hawaits]
  · cases hheld

/-- **A process shown as restarting will be restarted.**  In every run in which definitions have no
stored problem where a restart comes to be launched, a pane shown as restarting has a respawn of its
current generation outstanding, and one whose exit is held waits for that respawn or has its spawn
in flight. -/
theorem restarting_respawns {s₀ s : Supervisor} (hload : s₀.Loaded)
    (hr : (machine.restrict fun s e => Sound s e.1).Reaches s₀ s) (pane : ℕ) :
    ((s.slots pane).shows .restarting →
      .respawn (s.slots pane).generation ∈ (s.slots pane).posted) ∧
    ((s.slots pane).heldExit.isSome →
      (s.slots pane).shows .restarting ∧
        .respawn (s.slots pane).generation ∈ (s.slots pane).posted ∨
      (s.slots pane).isSpawning) := by
  have hkept : Kept ⟨true, false, false⟩ s := kept_of_reaches
    (fun _ _ ho => ⟨fun _ => ho, fun h => (nomatch h), fun h => (nomatch h)⟩) hload hr
  have hposted := (hkept.panes pane).respawn_posted rfl
  have hheld : ∀ pane, (s.slots pane).heldExit.isSome → (s.slots pane).awaitsRespawn := by
    refine hr.invariant (P := fun s => ∀ pane, (s.slots pane).heldExit.isSome →
      (s.slots pane).awaitsRespawn) (fun a e _ _ => settled_held _) ?_
    obtain ⟨specs, runs, records, answers, rfl⟩ := hload
    exact settled_held _
  refine ⟨hposted, fun hsome => ?_⟩
  obtain hspawning | hshown := Bool.or_eq_true_iff.1 (hheld pane hsome)
  · exact .inr hspawning
  · exact .inl ⟨hshown, hposted hshown⟩

/-- The process crashes after its first start. -/
def webCrashed : List (Event × List Bool) :=
  [(.up, []), (.spawned 0 1 (.ok ⟨1, some 41⟩), []), (.output 0 1 (.exited (.failed .unknown)), [])]

theorem restarting_respawns_crashed :
    ((machine.play webProject webCrashed).slots 0).shows .restarting ∧
    .respawn ((machine.play webProject webCrashed).slots 0).generation ∈
      ((machine.play webProject webCrashed).slots 0).posted :=
  have hshown : ((machine.play webProject webCrashed).slots 0).shows .restarting := by decide
  ⟨hshown, (restarting_respawns webProject_loaded (Machine.reaches_play_restrict (by decide)) 0).1
    hshown⟩

/-- The running process is given a definition that is never started as it stands, and restarted. -/
def webRefused : List (Event × List Bool) :=
  [(.up, []), (.spawned 0 1 (.ok ⟨1, some 41⟩), []),
    (.stackChanged [{ webSpec with storedProblem := some "the directory leaves the root" }], []),
    (.restart webSpec.name, [true]), (.output 0 1 (.exited .succeeded), [])]

/-- A restart refused for its stored definition leaves the process shown as restarting, its exit held,
with nothing outstanding that would restart it. -/
theorem refused_restart_hangs : ∃ s : Supervisor, machine.Reaches webProject s ∧
    (s.slots 0).shows .restarting ∧ (s.slots 0).heldExit.isSome ∧
    .respawn (s.slots 0).generation ∉ (s.slots 0).posted :=
  ⟨machine.play webProject webRefused, Machine.reaches_play (by decide), by decide, by decide,
    by decide⟩

/-! ### Stops -/

/-- **A stop beats the restart policy.**  In every run in which no stop is asked of a pane reconnecting
to what was to be restarted and no retry is begun for a child to be stopped, no spawn of a pane has
been handed to the runner since the stop of it that still stands was taken: not by its policy, a
reconnection, an adoption, a late result, a lost connection or a timer. -/
theorem stop_stands {s₀ s : Supervisor} (hload : s₀.Loaded)
    (hr : (machine.restrict fun s e => Unopposed s e.1).Reaches s₀ s) {pane n : ℕ}
    (hstop : s.stopTaken pane = some n) : (s.slots pane).handed.length = n := by
  have hkept : Kept ⟨false, true, false⟩ s := kept_of_reaches
    (fun _ _ ho => ⟨fun h => (nomatch h), fun _ => ho, fun h => (nomatch h)⟩) hload hr
  exact (hkept.panes pane).logged.stop n (by simp [Pledge.terms, hstop])

/-- A stop asked while the process starts; it crashes before it hears of it. -/
def webStopped : List (Event × List Bool) :=
  [(.up, []), (.stop webSpec.name, []), (.output 0 1 (.exited (.failed .unknown)), []),
    (.spawned 0 1 (.ok ⟨1, some 41⟩), [])]

theorem stop_stands_crashed :
    (machine.play webProject webStopped).stopTaken 0 = some 1 ∧
    ((machine.play webProject webStopped).slots 0).handed.length = 1 :=
  have htaken : (machine.play webProject webStopped).stopTaken 0 = some 1 := by decide
  ⟨htaken, stop_stands webProject_loaded (Machine.reaches_play_restrict (by decide)) htaken⟩

/-- The process is spawned and its connection lost; its holder is found and cannot be reached, so the
child is left unsupervised and a retry is due. -/
def webUnreached : List (Event × List Bool) :=
  [(.up, []), (.spawned 0 1 (.ok ⟨1, some 41⟩), []), (.output 0 1 (.unreadable "closed"), []),
    (.reconnectLocated 0 2 (some webRecord), []),
    (.adopted 0 2 webRecord (.error "refused"), [true])]

/-- The retry comes back with the child's holder, which is adopted. -/
def webAdopted : List (Event × List Bool) :=
  [(.adoptionRetryDue 0 1, [true, true]), (.adoptionProbed 0 1 false 41 (some webRecord), [true]),
    (.adopted 0 3 webRecord (.ok ⟨2, some 41⟩), [])]

/-- A stop the child cannot be sent, then the retry, then a crash. -/
def webStopForgotten : List (Event × List Bool) :=
  webUnreached ++ [(.stop webSpec.name, [true, false, true])] ++ webAdopted ++
    [(.output 0 3 (.exited (.failed .unknown)), []), (.respawn 0 4, [])]

/-- A restart, a lost connection, a stop while it is looked for, and the child gone. -/
def webStopOvertaken : List (Event × List Bool) :=
  [(.up, []), (.spawned 0 1 (.ok ⟨1, some 41⟩), []), (.restart webSpec.name, [true]),
    (.output 0 1 (.unreadable "closed"), []), (.stop webSpec.name, []),
    (.reconnectLocated 0 2 none, [false])]

/-- A stopped process is spawned again: its restart policy is back in force once a retry adopts its
child, and a restart carried over a lost connection is launched before the stop is told. -/
theorem stop_is_lost : ∃ s s' : Supervisor, machine.Reaches webProject s ∧
    machine.Reaches webProject s' ∧ s.stopTaken 0 = some 1 ∧ (s.slots 0).handed.length = 2 ∧
    s'.stopTaken 0 = some 1 ∧ (s'.slots 0).handed.length = 2 :=
  ⟨machine.play webProject webStopForgotten, machine.play webProject webStopOvertaken,
    Machine.reaches_play (by decide), Machine.reaches_play (by decide), by decide, by decide,
    by decide, by decide⟩

/-! ### Removed processes -/

/-- The row is to go with what the pane holds. -/
def Slot.isRetiring (s : Slot) : Bool :=
  s.pane.any (·.configMembership = .retireOnExit) ||
    s.launch.any (·.membership = some .retireOnExit)

theorem Slot.Inv.retiring {t : Terms} {s : Slot} (h : Slot.Inv t s) (ht : t.Plain)
    (hdrop : t.drop.isSome) (hrow : s.process.isSome) : s.isRetiring ∧ s.holdsProcess := by
  cases h.shape with
  | gone process => simp [process] at hrow
  | idle spec state process pane launch settled restarts stop drop =>
    exact absurd (drop hdrop) (by simp [ht.dropDue])
  | launching spec launched process pane launch current prior calm stop drop =>
    refine ⟨?_, by simp [launch]⟩
    have hretires := drop hdrop
    unfold Slot.Retires at hretires
    split at hretires
    · next carried hpurpose =>
      obtain ⟨-, -, hpane⟩ : carried.state = some launched.priorState ∧
          launched.priorState.isConnected ∧ s.pane.isSome := by
        simpa [Slot.PriorFits, hpurpose] using prior
      obtain ⟨p, hpane⟩ := Option.isSome_iff_exists.1 hpane
      simp [Slot.isRetiring, hpane, hretires.2 p hpane]
    · simp [Slot.isRetiring, launch, hretires]
    · simp [Slot.isRetiring, launch, hretires]
  | live spec state handle intent shutdown membership process pane launch connected calm stop drop =>
    simp [Slot.isRetiring, pane, drop hdrop ht.dropDue]
  | left spec state child intent shutdown membership process pane alone launch stop drop =>
    simp [Slot.isRetiring, pane, drop hdrop ht.dropDue]

/-- **A process removed from the stack stays removed.**  In every run in which a launch that succeeds
for a pane marked to retire has the mark on record and its connection not lost already, a row the
last stack does not name is marked to retire, is there only as long as it holds a process, and had
no spawn handed to the runner since the stack dropped it. -/
theorem removed_stays_removed {s₀ s : Supervisor} (hload : s₀.Loaded)
    (hr : (machine.restrict fun s e => Recorded s e.1).Reaches s₀ s) {pane : ℕ} {r : Process}
    (hrow : (s.slots pane).process = some r) (hout : r.spec.name.key ∉ s.stack) :
    (s.slots pane).isRetiring ∧ (s.slots pane).holdsProcess ∧
      s.dropped pane = some (s.slots pane).handed.length := by
  have hkept : Kept ⟨false, false, true⟩ s := kept_of_reaches
    (fun _ _ ho => ⟨fun h => (nomatch h), fun h => (nomatch h), fun _ => ho⟩) hload hr
  obtain ⟨n, hn⟩ := Option.isSome_iff_exists.1 (hkept.named pane r hrow hout)
  have hdrop : (Pledge.terms ⟨false, false, true⟩ s pane).drop = some n := by
    simp [Pledge.terms, hn]
  obtain ⟨hretiring, hheld⟩ := (hkept.panes pane).retiring ⟨rfl, rfl, rfl⟩ (by simp [hdrop])
    (by simp [hrow])
  refine ⟨hretiring, hheld, ?_⟩
  rw [hn, (hkept.panes pane).logged.drop n (by simp [hdrop])]

/-- The running process is dropped from the stack and the stop it is sent fails. -/
def webDropped : List (Event × List Bool) :=
  [(.up, []), (.spawned 0 1 (.ok ⟨1, some 41⟩), []), (.stackChanged [], [false])]

theorem removed_stays_removed_unstopped :
    ((machine.play webProject webDropped).slots 0).shows .running ∧
    ((machine.play webProject webDropped).slots 0).isRetiring :=
  ⟨by decide, (removed_stays_removed webProject_loaded (r := ⟨webSpec, .running⟩)
    (Machine.reaches_play_restrict (by decide)) (by decide) (by decide)).1⟩

/-- The stack drops the process while its child is unsupervised and cannot be stopped; a retry adopts
it, it crashes, and its policy restarts it. -/
def webBrought : List (Event × List Bool) :=
  webUnreached ++ [(.stackChanged [], [true, false, true])] ++ webAdopted ++
    [(.output 0 3 (.exited (.failed .unknown)), []), (.respawn 0 4, [])]

/-- The stack drops the process while it starts; its connection is lost before the start is known to
have worked, and made again. -/
def webUnmarked : List (Event × List Bool) :=
  [(.up, []), (.stackChanged [], []), (.output 0 1 (.unreadable "closed"), []),
    (.spawned 0 1 (.ok ⟨1, some 41⟩), []), (.reconnectLocated 0 2 (some webRecord), []),
    (.adopted 0 2 webRecord (.ok ⟨2, some 41⟩), [false])]

/-- A process the stack does not name comes to be tracked again: a retry that adopts its child brings
it back under its restart policy, and a reconnection begun as its start settles forgets the mark. -/
theorem removed_is_tracked : ∃ s s' : Supervisor, machine.Reaches webProject s ∧
    machine.Reaches webProject s' ∧
    s.stack = [] ∧ (s.slots 0).process = some ⟨webSpec, .starting⟩ ∧ ¬(s.slots 0).isRetiring ∧
    (s.slots 0).handed.length = 2 ∧ s.dropped 0 = some 1 ∧
    s'.stack = [] ∧ (s'.slots 0).process = some ⟨webSpec, .running⟩ ∧ ¬(s'.slots 0).isRetiring :=
  ⟨machine.play webProject webBrought, machine.play webProject webUnmarked,
    Machine.reaches_play (by decide), Machine.reaches_play (by decide), by decide, by decide,
    by decide, by decide, by decide, by decide, by decide, by decide⟩

end Muster.Supervisor
