import Muster.Supervisor.Stops

/-!
# Launches — a pane is launched only when it holds nothing

A launch goes past the unsupervised child that may be in its way, the problem of the definition and
the port already taken; what it finds settles the pane either way.  An exit leads to one, at once or
later, when its intent or the restart policy says so.
-/

namespace Muster.Supervisor

/-- The same promises, short of the one about restarting. -/
@[simp] def Terms.unfollowed (t : Terms) : Terms := { t with restarts := false }

namespace Slot

variable {t : Terms} {s : Slot}

theorem Inv.unfollow (h : Inv t s) : Inv t.unfollowed s :=
  h.weaken ⟨Nat.le_refl _, fun h => (nomatch h), id, fun _ => id, fun _ => id, fun _ => id,
    fun _ => id⟩ fun _ => id

theorem Inv.follow (h : Inv t.unfollowed s) (hr : s.shows .restarting = false) : Inv t s :=
  ⟨h.shape.adapt (.refl t) rfl rfl rfl rfl (fun _ hshown => nomatch hr.symm.trans hshown) id .inl,
    h.booked, h.logged.terms rfl rfl rfl rfl⟩

/-! ### Past an unsupervised child -/

theorem probeAdoption_spec (h : Inv t s) (attempt : ℕ) (asked : Bool) :
    (s.probeAdoption attempt asked).All fun s' => Inv t s' ∧ s'.process = s.process := by
  refine (Acts.all_bind ..).2 (Acts.all_of_forall _ fun pid => ?_)
  cases pid with
  | none => exact ⟨h, rfl⟩
  | some pid => exact ⟨h.remind rfl (Nat.zero_le _), rfl⟩

theorem Inv.beginRetry (h : Inv t s) : Inv t s.beginRetry := h.congr rfl rfl rfl rfl rfl rfl rfl

theorem Inv.scheduleAdoptionRetry (h : Inv t s) : Inv t s.scheduleAdoptionRetry :=
  h.beginRetry.remind rfl (Nat.zero_le _)

theorem retryAdoptionNow_spec (h : Inv t s) :
    s.retryAdoptionNow.All fun r => Inv t r.2 ∧ r.2.process = s.process := by
  refine (Acts.all_bind ..).2 (Acts.all_of_forall _ fun pid => ?_)
  cases pid with
  | none => exact ⟨h, rfl⟩
  | some pid => exact (probeAdoption_spec h.beginRetry _ true).bind fun s' h' => h'

/-- A launch past the unsupervised child finds the pane holding nothing. -/
theorem refuseUnsupervisedLaunch_spec (h : Inv t s) (hlive : s.isLive = false)
    (hl : s.launch = none) :
    s.refuseUnsupervisedLaunch.All fun r => Inv t r.2 ∧
      (r.1 = false → r.2.holdsProcess = false) ∧ (r.2.process.isSome → s.process.isSome) ∧
      (r = (false, s) ∨ r.2.shows .restarting = false) := by
  unfold refuseUnsupervisedLaunch
  split
  · next hu => exact ⟨h, fun _ => by simp_all, id, .inl rfl⟩
  · next hu =>
    replace hu : s.isUnsupervised := by simpa using hu
    obtain ⟨spec, state, child, intent, shutdown, membership, hrow, hpane, alone, -⟩ := h.left hu
    have hsome : s.process.isSome := by simp [hrow]
    have hstate : s.shows .restarting = false := by
      obtain ⟨rfl, -⟩ | ⟨rfl, -⟩ := alone <;> simp [hrow]
    refine (Acts.all_bind ..).2 (Acts.all_of_forall _ fun pid => ?_)
    cases pid with
    | some pid =>
      refine (retryAdoptionNow_spec h).bind fun r hr => ?_
      have hshown : r.2.shows .restarting = false := by rwa [shows, hr.2]
      obtain ⟨begun, s'⟩ := r
      cases begun
      · exact ⟨hr.1, fun h => (nomatch h), fun _ => hsome, .inr hshown⟩
      · exact ⟨hr.1, fun h => (nomatch h), fun _ => hsome, .inr hshown⟩
    | none =>
      refine (settleUnsupervisedExit_spec h hl hu).bind fun s' hs' => ?_
      split
      · exact ⟨hs'.1.unpaid, fun h => (nomatch h), fun _ => hsome, .inr hs'.2.2⟩
      · exact ⟨hs'.1.unpaid, fun _ => hs'.2.1, fun _ => hsome, .inr hs'.2.2⟩

/-! ### Launching -/

/-- **A launch.**  With no stop standing, a launch of a pane without a connection hands a spawn to the
runner, or leaves the pane as it was found, or blocked.  One of a pane already past its respawn needs
a definition without a problem. -/
theorem spawnWith_spec (h : Inv t.unfollowed s) (hlive : s.isLive = false)
    (hstop : s.process.isSome → t.stop = none)
    (hdrop : t.drop.isSome → t.dropDue = false) (hfollow : t.restarts → t.sound ∨ Inv t s) :
    s.spawnWith.All (Inv t) := by
  unfold spawnWith
  split
  · next hl =>
    refine h.follow ?_
    cases h.shape with
    | gone process pane launch => simp [launch] at hl
    | idle spec state process pane launch => simp [launch] at hl
    | launching spec launched process => simp [process]
    | live spec state handle intent shutdown membership process pane launch => simp [launch] at hl
    | left spec state child intent shutdown membership process pane alone =>
      obtain ⟨rfl, -⟩ | ⟨rfl, -⟩ := alone <;> simp [process]
  · next hl =>
    refine (refuseUnsupervisedLaunch_spec h hlive (by simpa using hl)).bind fun r hr => ?_
    obtain ⟨refused, s'⟩ := r
    obtain ⟨h', hfree, hsome, hsame⟩ := hr
    cases refused with
    | true =>
      refine h'.follow ?_
      obtain hsame | hsame := hsame
      · cases hsame
      · exact hsame
    | false =>
      replace hfree := hfree rfl
      have hloose := h'.loose hfree
      have hloose' : Loose t s' := hloose.terms rfl rfl rfl rfl
      simp only [Bool.false_eq_true, ↓reduceIte]
      split
      · next hrow => exact h'.follow (by simp [hrow])
      · next process hrow =>
        replace hstop := hstop (hsome (by simp [hrow]))
        split
        · next problem hproblem =>
          obtain hsame | hsame := hsame
          · obtain rfl : s' = s := by simpa using hsame
            by_cases hr : t.restarts
            · obtain hsound | hinv := hfollow hr
              · have := hsound _ (h'.logged.spec process hrow)
                simp [hproblem] at this
              · exact hinv
            · exact h'.weaken ⟨Nat.le_refl _, fun h => absurd h hr, id, fun _ => id, fun _ => id, fun _ => id,
                fun _ => id⟩ fun _ => id
          · exact h'.follow hsame
        · split
          · exact hloose'.block (by simp [hrow]) (h'.no_exit hfree) (by simp [hstop])
              (h'.drop_due hfree (by simp [hrow]))
          · refine hloose'.launchSpawn hrow hstop ?_
            by_contra hd
            have hsome := Option.isSome_iff_ne_none.2 hd
            have := h'.drop_due hfree (by simp [hrow]) hsome
            simp [hdrop hsome] at this

theorem startPane_spec (h : Inv t s) (hstop : t.stop = none)
    (hdrop : t.drop.isSome → t.dropDue = false) :
    s.startPane.All (Inv t) := by
  unfold startPane
  split
  · exact h
  · next hidle =>
    exact spawnWith_spec h.unfollow (by simp_all) (fun _ => hstop) hdrop fun _ => .inr h

theorem Inv.markRestarting (h : Inv t s) (hstop : t.stop = none) :
    Inv t (s.onLaunch (·.markRestarting)) := by
  have hmark : ∀ launch : PendingLaunch, launch.markRestarting = launch ∨
      ∃ x, launch.purpose = .spawn x ∧
        launch.markRestarting = { launch with purpose := .spawn true } := by
    intro launch
    unfold PendingLaunch.markRestarting
    cases launch.purpose with
    | spawn x => exact .inr ⟨x, rfl, rfl⟩
    | adopt carried => exact .inl rfl
  by_cases hl : s.isStarting
  · refine h.record hl _ ?_ ?_ ?_ ?_ (fun _ hs => by simp [hstop] at hs) ?_ (fun _ => ⟨id, ?_⟩) rfl
    all_goals intro launch
    all_goals obtain heq | ⟨x, hx, heq⟩ := hmark launch
    all_goals simp only [heq]
    · exact .inl rfl
    · exact .inr ⟨x, true, hx, rfl⟩
    · exact h.booked.early launch
    · exact h.booked.early launch
    · exact fun _ hr => hr
    · intro _ hr
      simpa [Retires, hx] using hr
    · exact id
    · intro hr
      exact absurd (hr.purpose.symm.trans hx) (by simp)
  · have : s.launch = none := by simpa using hl
    exact h.congr rfl rfl rfl (by simp [this]) rfl rfl rfl

theorem restartPane_spec (h : Inv t s) (hstop : t.stop = none) (hcalm : t.calm = false)
    (hdrop : t.drop.isSome → t.dropDue = false) : s.restartPane.All (Inv t) := by
  unfold restartPane
  split
  · next hl =>
    exact h.record hl _ (fun _ => rfl) (fun _ => rfl) (fun _ => .inl rfl) h.booked.early
      (fun _ hs => by simp [hstop] at hs) (fun _ _ h => h)
      (fun _ => ⟨id, fun _ hr => ⟨hr.current, hr.purpose, hr.prior, hstop, hr.drop⟩⟩) rfl
  · next hl =>
    split
    · next hlive =>
      split
      · exact h
      · exact requestGracefulTransition_spec h hlive (fun _ hc => by simp [hcalm] at hc)
          (fun _ hs => by simp [hstop] at hs) rfl
    · next hlive =>
      refine (spawnWith_spec h.unfollow (by simpa using hlive) (fun _ => hstop) hdrop
        fun _ => .inr h).bind fun s' h' => ?_
      split
      · exact h'
      · exact h'.markRestarting hstop

/-! ### Pausing -/

theorem signalPause_spec (h : Inv t s) (pause : Bool) : (s.signalPause pause).All (Inv t) := by
  unfold signalPause
  split
  · exact h
  · next pane hpane =>
    split
    · exact h
    · split
      · exact h
      · next handle hhandle =>
        obtain ⟨spec, state, handle, intent, shutdown, membership, hrow, hpane, -, connected, calm,
          stop, -⟩ := h.live (by simp [hpane, hhandle])
        have hshow : ∀ state', state'.isConnected → Inv t (s.setState state') := fun state' hc =>
          h.goOn state' intent shutdown hrow hpane (by simp [hrow]) hpane rfl rfl rfl rfl hc calm stop
            rfl
        cases pause
        · simp only [Bool.false_eq_true, ↓reduceIte, Acts.all_bind, Acts.all_query, Acts.all_pure,
            all_notify]
          exact ⟨hshow .running rfl, h⟩
        · simp only [↓reduceIte, Acts.all_bind, Acts.all_query, Bool.false_eq_true, Acts.all_pure,
            all_notify]
          exact ⟨hshow .paused rfl, h⟩

theorem Inv.recordSuspend (h : Inv t s) (hl : s.isStarting) (pause : Bool) :
    Inv t (s.recordSuspend pause) :=
  h.record hl _ (fun _ => rfl) (fun _ => rfl) (fun _ => .inl rfl) h.booked.early
    (fun _ _ h₁ h₂ => h₂ h₁) (fun _ _ h => h)
    (fun _ => ⟨id, fun _ hr => ⟨hr.current, hr.purpose, hr.prior, hr.stop, hr.drop⟩⟩) rfl

theorem pausePane_spec (h : Inv t s) : s.pausePane.All (Inv t) := by
  unfold pausePane
  split
  · next hl => exact h.recordSuspend hl true
  · split
    · exact h
    · exact signalPause_spec h true

theorem resumePane_spec (h : Inv t s) : s.resumePane.All (Inv t) := by
  unfold resumePane
  split
  · next hl => exact h.recordSuspend hl false
  · split
    · exact signalPause_spec h false
    · exact h

/-! ### Exits -/

theorem all_reportUnrequestedExit {P : Unit → Prop} (intent : ExitIntent) (outcome : ExitOutcome) :
    (s.reportUnrequestedExit intent outcome).All P ↔ P () := by
  unfold reportUnrequestedExit
  split
  · rfl
  · simp

theorem afterExit_retired (intent : ExitIntent) (should : Bool) (outcome : ExitOutcome) :
    afterExit intent true should outcome = .retire := rfl

/-- **An exit.**  What the pane held is gone; its intent, or the restart policy, says what follows. -/
theorem applyExit_spec (h : Loose t s) {p : Pane} (hrow : s.process.isSome) (hpane : s.pane = some p)
    (hx : s.mayExit = false) (hr : .respawn s.generation ∉ s.posted)
    (hstop : t.stop.isSome → t.stopDue = false → p.exitIntent.isStop)
    (hstopDue : t.stop.isSome → t.stopDue → p.exitIntent.isRestart = false)
    (hdrop : t.drop.isSome → t.dropDue = false → p.configMembership = .retireOnExit)
    (hdropDue : t.drop.isSome → t.dropDue →
      p.exitIntent.isRestart = false ∨ p.configMembership = .retireOnExit)
    (hfollow : t.restarts → t.sound ∨ p.exitIntent.isRestart = false) (outcome : ExitOutcome) :
    (s.applyExit outcome).All (Inv t) := by
  unfold applyExit
  split
  · next hnone => simp [hpane] at hnone
  · next pane hsome =>
    obtain rfl : p = pane := Option.some.inj (hpane.symm.trans hsome)
    rw [Acts.all_bind, all_reportUnrequestedExit]
    by_cases hm : p.configMembership = .retireOnExit
    · rw [decide_eq_true hm, afterExit_retired]
      exact h.retire
    · rw [decide_eq_false hm]
      have hdue : t.drop.isSome → t.dropDue := by
        intro hd
        by_contra hdue
        exact hm (hdrop hd (by simpa using hdue))
      have hstops : Inv t (s.deactivate.setState .exited) :=
        h.settle .exited hx hr rfl (fun _ he => nomatch he) fun _ => hdue
      -- a restart asked for and a stop that stands exclude each other
      have hrestarts : p.exitIntent.isRestart →
          ((s.setState .restarting).deactivate).spawnWith.All (Inv t) := by
        intro hrestart
        have hnostop : t.stop = none := by
          by_contra hs
          replace hs := Option.isSome_iff_ne_none.2 hs
          cases hdue : t.stopDue with
          | true => simp [hstopDue hs hdue] at hrestart
          | false =>
            have := hstop hs hdue
            cases hi : p.exitIntent <;> simp_all [ExitIntent.isStop, ExitIntent.isRestart]
        have hnodrop : ¬ t.drop.isSome := by
          intro hd
          obtain h | h := hdropDue hd (hdue hd)
          · simp [h] at hrestart
          · exact hm h
        have hloose : Loose t.unfollowed s := h.terms rfl rfl rfl rfl
        refine spawnWith_spec (hloose.settle .restarting hx hr rfl (fun h => nomatch h)
          fun _ => hdue) ?_
          (fun _ => hnostop) (fun hd => absurd hd hnodrop) fun hf =>
            .inl ((hfollow hf).resolve_right (by simp [hrestart]))
        simp [hpane]
      unfold afterExit
      cases hi : p.exitIntent with
      | followPolicy =>
        cases s.shouldRestart outcome with
        | true =>
          refine h.restartLater hrow (fun hs => ?_) hdue
          by_contra hsd
          have := hstop hs (by simpa using hsd)
          simp [hi, ExitIntent.isStop] at this
        | false =>
          refine h.settle (exitState outcome) hx hr ?_ (fun _ => ?_) fun _ => hdue
          · cases outcome <;> rfl
          · cases outcome <;> simp [exitState]
      | stopRetryable => exact hstops
      | stopInFlight => exact hstops
      | restartRetryable => exact hrestarts (by rw [hi]; rfl)
      | restartInFlight => exact hrestarts (by rw [hi]; rfl)

theorem settleFinished_spec (h : Inv t s) (finished : Handle) (retired : Bool) :
    (s.settleFinished finished retired).All (Inv t) := by
  unfold settleFinished
  split
  · dsimp only
    split
    · rw [Acts.all_bind, all_acknowledge]
      exact h.congr rfl rfl rfl rfl rfl rfl rfl
    · exact h.congr rfl rfl rfl rfl rfl rfl rfl
  · rw [Acts.all_bind, all_acknowledge]
    exact h

theorem handleExit_spec (h : Inv t s) (hlive : s.isLive) (hx : s.mayExit = false)
    (hstop : t.stop.isSome → t.stopDue → t.calm) (hdrop : t.drop.isSome → t.dropDue → t.calm)
    (hfollow : t.restarts → t.sound ∨ t.calm) (outcome : ExitOutcome) :
    (s.handleExit outcome).All (Inv t) := by
  obtain ⟨spec, state, handle, intent, shutdown, membership, hrow, hpane, hl, -, calm, stop, drop⟩ :=
    h.live hlive
  unfold handleExit
  split
  · next hnone => simp [hpane] at hnone
  · next finished _ =>
    have hloose : Loose t (s.onPane ({ · with handle := none })) :=
      ⟨hl, by simp [hpane], by simp [hrow], h.booked.past hl,
        h.logged.congr (Nat.le_refl _) rfl (.inl rfl)⟩
    refine (applyExit_spec hloose (p := ⟨none, none, intent, shutdown, membership⟩) (by simp [hrow])
      (by simp [hpane]) hx (h.no_respawn (by simp [hpane])) stop
      (fun h₁ h₂ => calm (hstop h₁ h₂)) drop (fun h₁ h₂ => .inl (calm (hdrop h₁ h₂)))
      (fun h => (hfollow h).imp_right calm) outcome).bind fun s' h' => ?_
    exact settleFinished_spec h' finished _

/-! ### Timers -/

theorem Booked.receive (h : Booked s) (e : Posted) : Booked (s.receive e) := by
  have sub : ∀ a ∈ s.posted.erase e, a ∈ s.posted := fun a => List.mem_of_mem_erase
  have hsearch : ((s.posted.erase e).any Posted.isSearch).toNat ≤
      (s.posted.any Posted.isSearch).toNat := by
    cases hany : (s.posted.erase e).any Posted.isSearch with
    | false => exact Nat.zero_le _
    | true =>
      obtain ⟨a, ha, hsearch⟩ := List.any_eq_true.1 hany
      exact Nat.le_of_eq (by rw [List.any_eq_true.2 ⟨a, sub a ha, hsearch⟩])
  refine ⟨fun a ha => h.old a (sub a ha), fun a ha => h.fits a (sub a ha), fun g ha => ?_,
    fun record ha => h.ours record (sub _ ha), fun ha => h.respawns (sub _ ha), h.exits,
    fun l hl => Nat.le_trans (Nat.add_le_add_left hsearch _) (h.early l hl)⟩
  obtain ⟨hcurrent, hlaunch, honce, hfirst⟩ := h.sought g (sub _ ha)
  refine ⟨hcurrent, hlaunch, ?_, fun record hmem => hfirst record (sub _ hmem)⟩
  rw [Slot.receive, List.erase_comm]
  exact fun hmem => honce (List.mem_of_mem_erase hmem)

/-- An event that came leaves the books; the respawn a pane waits for is missed there. -/
theorem Inv.receive (h : Inv t s) {e : Posted} (he : t.restarts → e ≠ .respawn s.generation) :
    Inv t (s.receive e) := by
  refine ⟨h.shape.adapt (.refl t) rfl rfl rfl rfl (fun hr _ hmem => ?_) List.mem_of_mem_erase .inl,
    h.booked.receive e, h.logged.congr (Nat.le_refl _) rfl (.inl rfl)⟩
  exact (List.mem_erase_of_ne (he hr).symm).2 (hmem hr)

theorem handleRespawn_spec (h : Inv t s) {generation : ℕ} (hmem : .respawn generation ∈ s.posted)
    (hstop : t.stopDue = false) (hdrop : t.dropDue = false)
    (hfollow : t.restarts → generation = s.generation → t.sound) :
    ((s.receive (.respawn generation)).handleRespawn generation).All
      (Inv t) := by
  unfold handleRespawn
  split
  · next hcurrent =>
    obtain rfl : s.generation = generation := hcurrent
    have hbare := (h.booked.respawns hmem).2.1
    have hl := (h.booked.respawns hmem).1
    refine spawnWith_spec (h.unfollow.receive fun h => nomatch h) hbare.isLive (fun hrow => ?_)
      (fun _ => hdrop) fun hf => .inl (hfollow hf rfl)
    -- a stop that stands leaves no respawn to come
    cases h.shape with
    | gone process pane launch => simp [process] at hrow
    | idle spec state process pane launch settled restarts stop drop =>
      by_contra hs
      exact stop (Option.isSome_iff_ne_none.2 hs) hstop hmem
    | launching spec launched process pane launch => simp [launch] at hl
    | live spec state handle intent shutdown membership process pane => simp [pane] at hbare
    | left spec state child intent shutdown membership process pane => simp [pane] at hbare
  · next hstale => exact h.receive fun _ heq => hstale (Posted.respawn.inj heq).symm

theorem handleForceStop_spec (h : Inv t s) (generation shutdown : ℕ) :
    (s.handleForceStop generation shutdown).All (Inv t) := by
  unfold handleForceStop
  split
  · exact h
  · next pane hpane =>
    split
    · exact h
    · next hcurrent =>
      dsimp only
      split
      · next hu =>
        obtain ⟨spec, state, child, intent, shutdown, membership, hrow, hpane', alone, -, stop, -⟩ :=
          h.left (by simpa [hpane] using hu)
        obtain rfl : _ = pane := Option.some.inj (hpane'.symm.trans hpane)
        -- a wake-up is awaited, so the pane is in a stop and no retry is in flight
        obtain ⟨-, hno⟩ | ⟨hstate, hl⟩ := alone
        · simp [hno] at hcurrent
        · have h' : Inv t s.advanceShutdown :=
            h.stay hl child intent (shutdown + 1) hrow hpane' hrow (by simp [hpane']) hl rfl rfl rfl
              rfl (.inr hstate) stop rfl
          exact escalateUnsupervised_spec h' hl hu
      · split
        · exact h.advanceShutdown
        · next handle hhandle =>
          obtain ⟨spec, state, handle, intent, shutdown, membership, hrow, hpane', -, connected, calm,
            stop, -⟩ := h.live (by simp [hpane, hhandle])
          simp only [Acts.all_bind, Acts.all_query, ↓reduceIte, Bool.false_eq_true, Acts.all_pure,
            all_notify]
          refine ⟨h.goOn .stopping intent (shutdown + 1) hrow hpane' (by simp [hrow])
            (by simp [hpane']) rfl rfl rfl rfl rfl calm stop rfl,
            h.goOn state intent.forceStopDeliveryFailed (shutdown + 1) hrow hpane' hrow
              (by simp [hpane']) rfl rfl rfl rfl connected (fun hc => ?_) (fun h₁ h₂ => ?_) rfl⟩
          · have := calm hc
            cases intent <;> simp_all [ExitIntent.isRestart, ExitIntent.forceStopDeliveryFailed]
          · have := stop h₁ h₂
            cases intent <;> simp_all [ExitIntent.isStop, ExitIntent.forceStopDeliveryFailed]

/-! ### What was asked while a launch was in flight -/

theorem applyAsked_spec (h : Inv t s) (suspend : Option Bool) (intent : Option PendingIntent)
    (hstop : t.stop.isSome → t.stopDue → intent = some .stop ∨ intent = some .kill)
    (hrestart : intent = some .restart → t.stop = none ∧ t.calm = false)
    (hdrop : t.drop.isSome → t.dropDue = false) :
    (s.applyAsked suspend intent).All (Inv t.paid) := by
  have hsuspend : (s.applySuspend suspend).All (Inv t) := by
    match suspend with
    | some true => exact pausePane_spec h
    | some false => exact resumePane_spec h
    | none => exact h
  refine hsuspend.bind fun s' h' => ?_
  match intent with
  | some .stop => exact stopPane_spec h'
  | some .kill => exact forceKillPane_spec h'
  | some .restart =>
    obtain ⟨hnone, hcalm⟩ := hrestart rfl
    exact (restartPane_spec h' hnone hcalm hdrop).mono fun s'' h'' =>
      h''.weaken ⟨Nat.le_refl _, id, id, fun _ => id, fun hs => by simp [hnone] at hs,
        fun _ => id, fun _ => id⟩ fun _ => id
  | none =>
    refine h'.weaken ⟨Nat.le_refl _, id, id, fun _ => id, fun hs _ => ?_, fun _ => id, fun _ => id⟩
      fun _ => id
    by_contra hdue
    simpa using hstop hs (by simpa using hdue)

/-- **The promises due are paid.**  What was asked of the pane while its launch was in flight is told
to it, whatever the launch left it in. -/
theorem applyPending_spec (h : Inv t s) (membership : Option ConfigMembership)
    (suspend : Option Bool) (intent : Option PendingIntent)
    (hstop : t.stop.isSome → t.stopDue → intent = some .stop ∨ intent = some .kill)
    (hrestart : intent = some .restart → t.stop = none ∧ t.calm = false)
    (hdrop : t.drop.isSome → t.dropDue → membership = some .retireOnExit)
    (htracked : t.drop.isSome → membership ≠ some .tracked) :
    (s.applyPending membership suspend intent).All
      (Inv { t with stopDue := false, dropDue := false }) := by
  unfold applyPending
  split
  · refine applyAsked_spec (t := { t with dropDue := false }) (h.weaken ⟨Nat.le_refl _, id, id, fun _ => id,
      fun _ => id, fun _ => id, fun hd _ => ?_⟩ fun _ => id) suspend intent hstop hrestart (fun _ => rfl)
    by_contra hdue
    simpa using hdrop hd (by simpa using hdue)
  · next m =>
    have hm : t.drop.isSome → m = .retireOnExit := by
      intro hd
      cases m with
      | tracked => exact absurd rfl (htracked hd)
      | retireOnExit => rfl
    have hholds : (s.markPane m).holdsProcess = s.holdsProcess := by
      cases hp : s.pane <;> simp [hp]
    have hmark : ∀ due, (s.holdsProcess = false → s.process.isSome → t.drop.isSome → due = true) →
        Inv { t with dropDue := due } (s.markPane m) := fun due hidle =>
      h.mark (fun _ => rfl) (fun _ => rfl) (fun _ => rfl) hidle (fun hd _ => .inl (hm hd)) rfl
    dsimp only
    split
    · next hretire =>
      -- marked to retire with nothing left of it
      have hfree := (Bool.and_eq_true_iff.1 hretire).2
      have hloose := (hmark true fun _ _ _ => rfl).loose (by simpa using hfree)
      exact Loose.retire (hloose.terms rfl rfl rfl rfl)
    · next hkeep =>
      refine applyAsked_spec (t := { t with dropDue := false }) (hmark false fun hfree _ hd => ?_)
        suspend intent hstop hrestart (fun _ => rfl)
      rw [hholds, hfree, hm hd] at hkeep
      simp at hkeep

end Slot

end Muster.Supervisor
