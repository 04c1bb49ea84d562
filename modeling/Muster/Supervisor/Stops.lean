import Muster.Supervisor.Moves

/-!
# Stops — a stop told to a pane stands

Whatever a pane is in the middle of, a stop or a kill of it leaves the stop recorded: in the launch
in flight, as the exit intent of what runs, or in that nothing is left to come.
-/

namespace Muster.Supervisor

/-- The same promises with the stop told to the pane. -/
@[simp] def Terms.paid (t : Terms) : Terms := { t with stopDue := false }

namespace Slot

variable {t t' : Terms} {s s' : Slot} {membership : ConfigMembership} {change : Pane → Pane}

theorem Inv.unpaid (h : Inv t.paid s) : Inv t s :=
  h.weaken ⟨Nat.le_refl _, id, id, fun _ => id, fun _ _ => rfl, fun _ => id, fun _ => id⟩ fun _ => id

/-! ### Panes that hold nothing -/

theorem Inv.loose (h : Inv t s) (hfree : s.holdsProcess = false) : Loose t s := by
  simp only [holdsProcess, Bool.or_eq_false_iff, isStarting, Option.isSome_eq_false_iff,
    Option.isNone_iff_eq_none] at hfree
  obtain ⟨⟨hlive, hlaunch⟩, hleft⟩ := hfree
  refine ⟨hlaunch, ?_, ?_, h.booked.past hlaunch, h.logged⟩
  · cases h.shape with
    | gone process pane launch => simp [pane]
    | idle spec state process pane => exact pane
    | launching spec launched process pane => exact pane
    | live spec state handle intent shutdown membership process pane => simp [pane] at hlive
    | left spec state child intent shutdown membership process pane => simp [pane] at hleft
  · intro hrow
    cases h.shape with
    | gone process pane launch => exact pane
    | idle spec state process => rw [hrow] at process; cases process
    | launching spec launched process => rw [hrow] at process; cases process
    | live spec state handle intent shutdown membership process =>
      rw [hrow] at process; cases process
    | left spec state child intent shutdown membership process =>
      rw [hrow] at process; cases process

theorem Inv.no_exit (h : Inv t s) (hfree : s.holdsProcess = false) : s.mayExit = false := by
  by_contra hx
  simp only [holdsProcess, Bool.or_eq_false_iff] at hfree
  have := h.booked.exits (by simpa using hx)
  simp [isStarting] at hfree
  simp [hfree] at this

/-! ### Children left unsupervised -/

theorem Inv.left (h : Inv t s) (hu : s.isUnsupervised) :
    ∃ spec state child intent shutdown membership, s.process = some ⟨spec, state⟩ ∧
      s.pane = some ⟨none, some child, intent, shutdown, membership⟩ ∧
      (state = .unsupervised ∧ intent.awaitsForceStop = false ∨
        state = .stopping ∧ s.launch = none) ∧
      (∀ launch ∈ s.launch, Retry t s launch) ∧
      (t.stop.isSome → t.stopDue = false → intent.isStop) ∧
      (t.drop.isSome → t.dropDue = false → membership = .retireOnExit) := by
  cases h.shape with
  | gone process pane launch => simp [pane] at hu
  | idle spec state process pane => rw [pane.isUnsupervised] at hu; cases hu
  | launching spec launched process pane => rw [pane.isUnsupervised] at hu; cases hu
  | live spec state handle intent shutdown membership process pane => simp [pane] at hu
  | left spec state child intent shutdown membership process pane alone launch stop drop =>
    exact ⟨spec, state, child, intent, shutdown, membership, process, pane, alone, launch, stop, drop⟩

theorem Inv.stay (h : Inv t s) (hl : s.launch = none) {spec : ProcessSpec}
    {state state' : ProcessState} {child : UnsupervisedChild} {intent : ExitIntent} {shutdown : ℕ}
    (child' : UnsupervisedChild) (intent' : ExitIntent)
    (shutdown' : ℕ) (hrow : s.process = some ⟨spec, state⟩)
    (hpane : s.pane = some ⟨none, some child, intent, shutdown, membership⟩)
    (process : s'.process = some ⟨spec, state'⟩)
    (pane : s'.pane = some ⟨none, some child', intent', shutdown', membership⟩)
    (launch : s'.launch = none) (generation : s'.generation = s.generation)
    (posted : s'.posted = s.posted) (mayExit : s'.mayExit = s.mayExit)
    (handed : s'.handed = s.handed)
    (alone : state' = .unsupervised ∧ intent'.awaitsForceStop = false ∨ state' = .stopping)
    (stop : t.stop.isSome → t'.stopDue = false → intent'.isStop)
    (ht : t' = { t with stopDue := t'.stopDue }) : Inv t' s' := by
  have hx : s.mayExit = false := by
    by_contra hx
    have := h.booked.exits (by simpa using hx)
    simp [hl, hpane] at this
  have hr : .respawn s.generation ∉ s.posted := by
    intro hmem
    have := (h.booked.respawns hmem).2.1
    simp [hpane] at this
  obtain ⟨spec₀, state₀, child₀, intent₀, shutdown₀, membership₀, hrow₀, hpane₀, -, -, -, drop⟩ :=
    h.left (by simp [hpane])
  rw [hpane₀] at hpane
  cases hpane
  rw [ht]
  refine ⟨.left spec state' child' intent' shutdown' membership process pane ?_ (by simp [launch])
    (fun h₁ h₂ => stop h₁ h₂) drop, Booked.keep (h.booked.past hl) generation posted launch
      (fun hmem => absurd hmem hr) (by simp [mayExit, hx]), ?_⟩
  · exact alone.imp_right fun h => ⟨h, launch⟩
  · have logged := h.logged.congr (Nat.le_of_eq generation.symm) handed (.inl (by simp [process, hrow]))
    exact logged.terms rfl rfl rfl rfl

/-- The child is gone: the pane holds nothing any more, and its row is gone if the stack dropped
it. -/
theorem settleUnsupervisedExit_spec (h : Inv t s) (hl : s.launch = none) (hu : s.isUnsupervised) :
    s.settleUnsupervisedExit.All fun s' =>
      Inv t.paid s' ∧ s'.holdsProcess = false ∧ s'.shows .restarting = false := by
  obtain ⟨spec, state, child, intent, shutdown, membership, hrow, hpane, -, -, -, drop⟩ := h.left hu
  have hloose : Loose t.paid
      ({ s with collectAfterStop := none }.onPane ({ · with unsupervised := none })) :=
    ⟨hl, by simp [hpane], by simp [hrow], h.booked.past hl,
      .congr (h.logged.terms rfl rfl rfl rfl) (Nat.le_refl _) rfl (.inl rfl)⟩
  simp only [settleUnsupervisedExit, Acts.all_bind, Acts.all_tellOption]
  split
  · next hnone => simp [hpane] at hnone
  · next pane hsome =>
    obtain rfl : _ = pane := Option.some.inj (hpane.symm.trans hsome)
    simp only [Acts.all_ite, Acts.all_pure]
    refine ⟨fun _ => ⟨hloose.retire, rfl, rfl⟩,
      fun hm => ⟨hloose.stop fun _ hd => ?_, by simp [hpane], by simp [hrow]⟩⟩
    by_contra hdue
    exact hm (drop hd (by simpa using hdue))

theorem Inv.giveUp (h : Inv t s) (hl : s.launch = none) (hu : s.isUnsupervised) :
    Inv t.paid s.giveUpUnsupervisedStop := by
  obtain ⟨spec, state, child, intent, shutdown, membership, hrow, hpane, -⟩ := h.left hu
  exact h.stay hl child .stopRetryable shutdown hrow hpane (by simp [hrow]) (by simp [hpane]; rfl) hl
    rfl rfl rfl rfl (.inl ⟨rfl, rfl⟩) (fun _ _ => rfl) rfl

theorem signalUnsupervised_spec (h : Inv t s) (hl : s.launch = none) (hu : s.isUnsupervised)
    (kill : Bool) : (s.signalUnsupervised kill).All (Inv t.paid) := by
  have hsettle := (settleUnsupervisedExit_spec h hl hu).mono fun _ h => h.1
  obtain ⟨spec, state, child, intent, shutdown, membership, hrow, hpane, -⟩ := h.left hu
  have hdelivered : Inv t.paid
      ((s.changeIntent (·.requestStop.stopDelivered)).setState .stopping).advanceShutdown :=
    h.stay hl child .stopInFlight (shutdown + 1) hrow hpane (by simp [hrow]) (by simp [hpane]; rfl)
      hl rfl rfl rfl rfl (.inr rfl) (fun _ _ => rfl) rfl
  unfold signalUnsupervised
  split
  · next hnone => simp [hpane] at hnone
  · simp only [Acts.all_bind, Acts.all_query, ↓reduceIte, Bool.false_eq_true, Acts.all_pure,
      all_notify]
    exact ⟨⟨⟨hdelivered.scheduleForceStop, hsettle⟩, h.giveUp hl hu, hsettle⟩, hsettle⟩

theorem Inv.onChild (h : Inv t s) (hl : s.launch = none) (hu : s.isUnsupervised)
    (change : UnsupervisedChild → UnsupervisedChild) :
    Inv t (s.onChild change) ∧ (s.onChild change).isUnsupervised := by
  obtain ⟨spec, state, child, intent, shutdown, membership, hrow, hpane, alone, -, stop, -⟩ :=
    h.left hu
  refine ⟨h.stay hl (change child) intent shutdown hrow hpane hrow (by simp [hpane]) hl rfl rfl rfl
    rfl (alone.imp_right And.left) stop rfl, by simp [hpane]⟩

theorem stopUnsupervised_spec (h : Inv t s) (hl : s.launch = none) (hu : s.isUnsupervised)
    (force : Bool) : (s.stopUnsupervised force).All (Inv t.paid) := by
  obtain ⟨spec, state, child, intent, shutdown, membership, hrow, hpane, alone, -⟩ := h.left hu
  unfold stopUnsupervised
  split
  · next hnone => simp [hpane] at hnone
  · next pane hsome =>
    obtain rfl : _ = pane := Option.some.inj (hpane.symm.trans hsome)
    rw [Acts.all_ite]
    constructor
    · intro hbusy
      -- refused because the stop asked for before is in flight
      have hflight : intent = .stopInFlight := by
        simpa [ExitIntent.acceptsStopRequest] using (Bool.and_eq_true_iff.1 hbusy).2
      exact h.stay hl child intent shutdown hrow hpane hrow hpane hl rfl rfl rfl rfl
        (alone.imp_right And.left) (fun _ _ => by rw [hflight]; rfl) rfl
    · intro _
      obtain ⟨h', hu'⟩ := h.onChild hl hu (·.beginStop (!force && s.process.isSome))
      exact signalUnsupervised_spec h' hl hu' _

theorem escalateKill_spec (h : Inv t s) (hl : s.launch = none) (hu : s.isUnsupervised)
    (child : UnsupervisedChild) : (s.escalateKill child).All (Inv t.paid) := by
  obtain ⟨h', hu'⟩ := h.onChild hl hu fun child => { child with killPolls := child.killPolls + 1 }
  have hsignal := signalUnsupervised_spec h' hl hu' true
  obtain ⟨h'', hu''⟩ := h'.onChild hl hu' (·.beginStop false)
  by_cases hkills : unsupervisedKillLimit < child.killPolls + 1
  · simp only [escalateKill, hkills, ↓reduceIte, Acts.all_bind, Acts.all_query, Bool.false_eq_true,
      all_notify, Acts.all_pure]
    exact ⟨h''.giveUp hl hu'', hsignal⟩
  · simp only [escalateKill, hkills, ↓reduceIte, Acts.all_bind, Acts.all_pure, Bool.false_eq_true]
    exact hsignal

theorem escalateUnsupervised_spec (h : Inv t s) (hl : s.launch = none) (hu : s.isUnsupervised) :
    s.escalateUnsupervised.All (Inv t) := by
  obtain ⟨spec, state, child, intent, shutdown, membership, hrow, hpane, alone, -, stop, -⟩ :=
    h.left hu
  have hwait : Inv t s.advanceShutdown :=
    h.stay hl child intent (shutdown + 1) hrow hpane hrow (by simp [hpane]) hl rfl rfl rfl rfl
      (alone.imp_right And.left) stop rfl
  obtain ⟨h', hu'⟩ := h.onChild hl hu ({ · with inGrace := false })
  unfold escalateUnsupervised
  split
  · next hnone => simp [hpane] at hnone
  · next child' _ =>
    split
    · simp only [Acts.all_bind, Acts.all_query, ↓reduceIte, Bool.false_eq_true, Acts.all_pure]
      exact ⟨⟨hwait.scheduleForceStop,
        (escalateKill_spec h' hl hu' child').mono fun _ => Inv.unpaid⟩,
        (settleUnsupervisedExit_spec h hl hu).mono fun _ h => h.1.unpaid⟩
    · exact (escalateKill_spec h hl hu child').mono fun _ => Inv.unpaid

/-! ### Live connections -/

theorem Inv.live (h : Inv t s) (hlive : s.isLive) :
    ∃ spec state handle intent shutdown membership, s.process = some ⟨spec, state⟩ ∧
      s.pane = some ⟨some handle, none, intent, shutdown, membership⟩ ∧ s.launch = none ∧
      state.isConnected ∧ (t.calm → intent.isRestart = false) ∧
      (t.stop.isSome → t.stopDue = false → intent.isStop) ∧
      (t.drop.isSome → t.dropDue = false → membership = .retireOnExit) := by
  cases h.shape with
  | gone process pane launch => simp [pane] at hlive
  | idle spec state process pane => rw [pane.isLive] at hlive; cases hlive
  | launching spec launched process pane => rw [pane.isLive] at hlive; cases hlive
  | live spec state handle intent shutdown membership process pane launch connected calm stop drop =>
    exact ⟨spec, state, handle, intent, shutdown, membership, process, pane, launch, connected, calm,
      stop, drop⟩
  | left spec state child intent shutdown membership process pane => simp [pane] at hlive

theorem Inv.no_respawn (h : Inv t s) (hheld : s.holdsProcess) :
    .respawn s.generation ∉ s.posted := by
  intro hmem
  obtain ⟨hlaunch, hbare, -⟩ := h.booked.respawns hmem
  rw [holdsProcess, hbare.isLive, hbare.isUnsupervised, isStarting, hlaunch] at hheld
  cases hheld

theorem Inv.goOn (h : Inv t s) {spec : ProcessSpec} {state : ProcessState} {handle : Handle}
    {intent : ExitIntent} {shutdown : ℕ} (state' : ProcessState)
    (intent' : ExitIntent) (shutdown' : ℕ) (hrow : s.process = some ⟨spec, state⟩)
    (hpane : s.pane = some ⟨some handle, none, intent, shutdown, membership⟩)
    (process : s'.process = some ⟨spec, state'⟩)
    (pane : s'.pane = some ⟨some handle, none, intent', shutdown', membership⟩)
    (launch : s'.launch = s.launch) (generation : s'.generation = s.generation)
    (posted : s'.posted = s.posted) (handed : s'.handed = s.handed) (connected : state'.isConnected)
    (calm : t.calm → intent'.isRestart = false)
    (stop : t.stop.isSome → t'.stopDue = false → intent'.isStop)
    (ht : t' = { t with stopDue := t'.stopDue }) : Inv t' s' := by
  have hr := h.no_respawn (by simp [hpane])
  obtain ⟨spec₀, state₀, handle₀, intent₀, shutdown₀, membership₀, -, hpane₀, hl, -, -, -, drop⟩ :=
    h.live (by simp [hpane])
  rw [hpane₀] at hpane
  cases hpane
  rw [ht]
  have logged := h.logged.congr (Nat.le_of_eq generation.symm) handed (.inl (by simp [process, hrow]))
  exact ⟨.live spec state' handle intent' shutdown' membership process pane (launch.trans hl) connected
    calm stop drop, Booked.keep (h.booked.past hl) generation posted (launch.trans hl)
      (fun hmem => absurd hmem hr) (fun _ => by simp [pane]),
    logged.terms rfl rfl rfl rfl⟩

/-- A request to end a live process: whether or not it was delivered, its exit is to mean what was
asked. -/
theorem requestGracefulTransition_spec (h : Inv t s) (hlive : s.isLive)
    {request delivered failed : ExitIntent → ExitIntent}
    (calm : ∀ intent, t.calm → (delivered (request intent)).isRestart = false ∧
      (failed (request intent)).isRestart = false)
    (stop : ∀ intent, t.stop.isSome → t'.stopDue = false → (delivered (request intent)).isStop ∧
      (failed (request intent)).isStop)
    (ht : t' = { t with stopDue := t'.stopDue }) :
    (s.requestGracefulTransition request delivered failed).All (Inv t') := by
  obtain ⟨spec, state, handle, intent, shutdown, membership, hrow, hpane, hl, connected, -⟩ :=
    h.live hlive
  have hdelivered : Inv t'
      (((s.advanceShutdown.changeIntent request).changeIntent delivered).setState .stopping) :=
    h.goOn .stopping (delivered (request intent)) (shutdown + 1) hrow hpane (by simp [hrow])
      (by simp [hpane]) rfl rfl rfl rfl rfl (fun hc => (calm intent hc).1)
      (fun h₁ h₂ => (stop intent h₁ h₂).1) ht
  have hfailed : Inv t' ((s.advanceShutdown.changeIntent request).changeIntent failed) :=
    h.goOn state (failed (request intent)) (shutdown + 1) hrow hpane hrow (by simp [hpane])
      rfl rfl rfl rfl connected (fun hc => (calm intent hc).2) (fun h₁ h₂ => (stop intent h₁ h₂).2) ht
  unfold requestGracefulTransition
  split
  · next hnone => simp [hrow] at hnone
  · dsimp only
    split
    · next hnone => simp [hpane] at hnone
    · simp only [Acts.all_bind, Acts.all_query, ↓reduceIte, Bool.false_eq_true, Acts.all_pure,
        all_notify]
      exact ⟨hdelivered.scheduleForceStop, hdelivered, hfailed⟩

/-! ### Panes marked and counted -/

theorem Bare.map {pane : Option Pane} (h : Bare pane) (handle : ∀ p, (change p).handle = p.handle)
    (unsupervised : ∀ p, (change p).unsupervised = p.unsupervised) : Bare (pane.map change) := by
  cases pane with
  | none => exact bare_none
  | some p => exact bare_some.2 (by rw [handle, unsupervised]; exact bare_some.1 h)

/-! ### Launches in flight -/

/-- The same purpose, up to whether a spawn counts as a restart. -/
def SamePurpose (a b : LaunchPurpose) : Prop := a = b ∨ ∃ x y, a = .spawn x ∧ b = .spawn y

theorem SamePurpose.settles {a b : LaunchPurpose} (h : SamePurpose a b) {e : Posted}
    (he : e.Settles a) : e.Settles b := by
  obtain rfl | ⟨x, y, rfl, rfl⟩ := h
  · exact he
  · cases e <;> simp_all [Posted.Settles]

theorem SamePurpose.carriedIntent {a b : LaunchPurpose} (h : SamePurpose a b) :
    b.carriedIntent = a.carriedIntent := by
  obtain rfl | ⟨x, y, rfl, rfl⟩ := h <;> rfl

theorem SamePurpose.priorFits {launch launch' : PendingLaunch} {pane : Option Pane}
    (h : SamePurpose launch.purpose launch'.purpose) (hp : launch'.priorState = launch.priorState)
    (hfits : PriorFits launch pane) : PriorFits launch' pane := by
  obtain heq | ⟨x, y, -, hy⟩ := h
  · simpa only [PriorFits, ← heq, hp] using hfits
  · simp [PriorFits, hy]

/-- What is asked of a pane while its launch is in flight goes into the launch. -/
theorem Inv.record (h : Inv t s) (hl : s.isStarting) (change : PendingLaunch → PendingLaunch)
    (generation : ∀ launch, (change launch).generation = launch.generation)
    (prior : ∀ launch, (change launch).priorState = launch.priorState)
    (purpose : ∀ launch, SamePurpose launch.purpose (change launch).purpose)
    (early : ∀ launch ∈ s.launch,
      (change launch).early.countP ProcessOutput.isExit + s.mayExit.toNat +
        (s.posted.any Posted.isSearch).toNat ≤ 1)
    (stop : ∀ launch, t.stop.isSome → t'.stopDue = false → (t.stopDue = false → Stops launch) →
      Stops (change launch))
    (drop : ∀ launch, t.drop.isSome → Retires launch s.pane → Retires (change launch) s.pane)
    (retry : s.isUnsupervised → (t'.stopDue = false → t.stopDue = false) ∧
      ∀ launch, Retry t s launch → Retry t s (change launch))
    (ht : t' = { t with stopDue := t'.stopDue }) : Inv t' (s.onLaunch change) := by
  have hbooked : Booked (s.onLaunch change) := by
    refine ⟨h.booked.old, ?_, ?_, ?_, ?_, ?_, ?_⟩
    · intro e he htag launch hlaunch
      obtain ⟨launch₀, hlaunch₀, rfl⟩ := Option.map_eq_some_iff.1 hlaunch
      exact (purpose launch₀).settles (h.booked.fits e he htag launch₀ hlaunch₀)
    · intro g hmem
      have := h.booked.sought g hmem
      exact ⟨this.1, by simpa using this.2.1, this.2.2⟩
    · intro record he hsome
      exact h.booked.ours record he (by simpa using hsome)
    · intro hmem
      have := h.no_respawn (by simp only [holdsProcess, hl, Bool.or_true, Bool.true_or])
      exact absurd hmem this
    · intro hx
      simpa using h.booked.exits hx
    · intro launch hlaunch
      obtain ⟨launch₀, hlaunch₀, rfl⟩ := Option.map_eq_some_iff.1 hlaunch
      exact early launch₀ hlaunch₀
  have hlogged : Logged t' (s.onLaunch change) := by
    rw [ht]
    exact .congr (h.logged.terms rfl rfl rfl rfl) (Nat.le_refl _) rfl (.inl rfl)
  refine ⟨?_, hbooked, hlogged⟩
  cases h.shape with
  | gone process pane launch => simp [launch] at hl
  | idle spec state process pane launch => simp [launch] at hl
  | launching spec launched process pane launch current prior₀ calm stop₀ drop₀ =>
    rw [ht]
    exact .launching spec (change launched) process pane (by simp [launch])
      ((generation launched).trans current) ((purpose launched).priorFits (prior launched) prior₀)
      (fun h => (purpose launched).carriedIntent ▸ calm h)
      (fun h₁ h₂ => stop launched h₁ h₂ (stop₀ h₁)) (fun h => drop launched h (drop₀ h))
  | live spec state handle intent shutdown membership process pane launch => simp [launch] at hl
  | left spec state child intent shutdown membership process pane alone launch stop₀ drop₀ =>
    obtain ⟨hdue, hretry⟩ := retry (by simp [pane])
    rw [ht]
    refine .left spec state child intent shutdown membership process pane ?_ (fun l hl' => ?_)
      (fun h₁ h₂ => stop₀ h₁ (hdue h₂)) drop₀
    · exact alone.imp_right fun h => ⟨h.1, by simp [h.2]⟩
    · obtain ⟨l₀, hl₀, rfl⟩ := Option.map_eq_some_iff.1 hl'
      have := hretry l₀ (launch l₀ hl₀)
      exact ⟨this.current, this.purpose, this.prior, this.stop, this.drop⟩

theorem Inv.supersede (h : Inv t s) :
    Inv t s.supersedeRetryAdoption ∧
      (s.supersedeRetryAdoption.isUnsupervised → s.supersedeRetryAdoption.launch = none) := by
  unfold supersedeRetryAdoption
  split
  · next hu =>
    split
    · next launch hlaunch =>
      obtain ⟨spec, state, child, intent, shutdown, membership, hrow, hpane, alone, retry, stop,
        drop⟩ := h.left hu
      have hpast : Past s.posted s.generation := ⟨h.booked.old, fun g hmem => by
        obtain ⟨carried, hcarried⟩ :=
          h.booked.fits _ hmem (h.booked.sought g hmem).1 launch hlaunch
        simp [(retry launch hlaunch).purpose] at hcarried⟩
      refine ⟨⟨.left spec state child intent shutdown membership hrow hpane ?_ (fun l hl => nomatch hl)
        stop drop, Booked.advance hpast rfl rfl rfl rfl,
        h.logged.congr (Nat.le_succ _) rfl (.inl rfl)⟩, fun _ => rfl⟩
      exact alone.imp_right fun h => ⟨h.1, rfl⟩
    · next hlaunch => exact ⟨h, fun _ => hlaunch⟩
  · next hu => exact ⟨h, fun h => absurd h hu⟩

theorem Loose.paid (h : Loose t s) : Loose t.paid s :=
  h.terms rfl rfl rfl rfl

theorem Inv.drop_due (h : Inv t s) (hfree : s.holdsProcess = false) (hrow : s.process.isSome)
    (hd : t.drop.isSome) : t.dropDue := by
  cases h.shape with
  | gone process pane launch => simp [process] at hrow
  | idle spec state process pane launch settled restarts stop drop => exact drop hd
  | launching spec launched process pane launch => simp [launch] at hfree
  | live spec state handle intent shutdown membership process pane => simp [pane] at hfree
  | left spec state child intent shutdown membership process pane => simp [pane] at hfree

/-- A change to a pane that leaves what it holds and means to do, up to the mark the stack sets. -/
theorem Inv.mark (h : Inv t s) (handle : ∀ p, (change p).handle = p.handle)
    (unsupervised : ∀ p, (change p).unsupervised = p.unsupervised)
    (intent : ∀ p, (change p).exitIntent = p.exitIntent)
    (idle : s.holdsProcess = false → s.process.isSome → t.drop.isSome → t'.dropDue)
    (drop : t.drop.isSome → ∀ p, (change p).configMembership = .retireOnExit ∨
      (change p).configMembership = p.configMembership ∧ (t'.dropDue = false → t.dropDue = false))
    (ht : t' = { t with dropDue := t'.dropDue }) : Inv t' (s.onPane change) := by
  have hpane : ∀ p, s.pane = some p → (s.onPane change).pane = some ⟨p.handle, p.unsupervised,
      p.exitIntent, (change p).shutdownGeneration, (change p).configMembership⟩ := by
    intro p hp
    rw [← handle, ← unsupervised, ← intent]
    simp [hp]
  have hlive : (s.onPane change).isLive = s.isLive := by
    cases hp : s.pane <;> simp [hp, handle]
  have hchild : (s.onPane change).unsupervisedChild = s.unsupervisedChild := by
    cases hp : s.pane <;> simp [hp, unsupervised]
  have hbooked : Booked (s.onPane change) :=
    ⟨h.booked.old, h.booked.fits, h.booked.sought,
      fun record hmem hl => hchild ▸ h.booked.ours record hmem hl,
      fun hmem => (h.booked.respawns hmem).imp_right fun hb => ⟨hb.1.map handle unsupervised, hb.2⟩,
      fun hx => hlive ▸ h.booked.exits hx, h.booked.early⟩
  rw [ht] at *
  refine ⟨?_, hbooked,
    .congr (h.logged.terms rfl rfl rfl rfl) (Nat.le_refl _) rfl (.inl rfl)⟩
  cases h.shape with
  | gone process pane launch => exact .gone process (by simp [pane]) launch
  | idle spec state process pane launch settled restarts stop drop₀ =>
    exact .idle spec state process (pane.map handle unsupervised) launch settled restarts stop
      (idle (by simp [holdsProcess, -isLive, -isUnsupervised, pane.isLive, pane.isUnsupervised,
        launch]) (by simp [process]))
  | launching spec launched process pane launch current prior calm stop drop₀ =>
    refine .launching spec launched process (pane.map handle unsupervised) launch current ?_ calm stop
      (fun hd => ?_)
    · have hsome : (s.pane.map change).isSome = s.pane.isSome := by simp
      simpa only [PriorFits, onPane, hsome] using prior
    · have hr := drop₀ hd
      unfold Retires at hr ⊢
      split at hr
      · refine ⟨hr.1, fun p hp => ?_⟩
        obtain ⟨p₀, hp₀, rfl⟩ := Option.map_eq_some_iff.1 hp
        obtain h | h := drop hd p₀
        · exact h
        · exact h.1.trans (hr.2 p₀ hp₀)
      · exact hr
      · exact hr
  | live spec state handle₀ intent₀ shutdown membership process pane launch connected calm stop
      drop₀ =>
    refine .live spec state handle₀ intent₀ _ _ process (hpane _ pane) launch connected calm stop
      (fun h₁ h₂ => ?_)
    obtain h | h := drop h₁ ⟨some handle₀, none, intent₀, shutdown, membership⟩
    · exact h
    · exact h.1.trans (drop₀ h₁ (h.2 h₂))
  | left spec state child intent₀ shutdown membership process pane alone launch stop drop₀ =>
    refine .left spec state child intent₀ _ _ process (hpane _ pane) alone (fun l hl => ?_) stop
      (fun h₁ h₂ => ?_)
    · have := launch l hl
      exact ⟨this.current, this.purpose, this.prior, this.stop, this.drop⟩
    · obtain h | h := drop h₁ ⟨none, some child, intent₀, shutdown, membership⟩
      · exact h
      · exact h.1.trans (drop₀ h₁ (h.2 h₂))

theorem Inv.advanceShutdown (h : Inv t s) : Inv t s.advanceShutdown :=
  h.mark (fun _ => rfl) (fun _ => rfl) (fun _ => rfl) h.drop_due (fun _ _ => .inr ⟨rfl, id⟩) rfl

theorem Inv.settleStopped (h : Inv t s) (hfree : s.holdsProcess = false) :
    Inv t.paid s.settleStopped :=
  (h.loose hfree).paid.stop (h.drop_due hfree)

/-- **A stop stands.**  However a pane is asked to stop, the stop is recorded with it. -/
theorem stopPane_spec (h : Inv t s) : s.stopPane.All (Inv t.paid) := by
  obtain ⟨h, halone⟩ := h.supersede
  unfold stopPane
  generalize s.supersedeRetryAdoption = s at h halone ⊢
  dsimp only
  split
  · next hl =>
    exact h.record hl _ (fun _ => rfl) (fun _ => rfl) (fun _ => .inl rfl) h.booked.early
      (fun _ _ _ _ => .inl rfl) (fun _ _ h => h) (fun hu => by simp [halone hu] at hl) rfl
  · next hl =>
    split
    · next hu => exact stopUnsupervised_spec h (halone hu) hu false
    · next hu =>
      split
      · next hbusy =>
        -- the stop asked for before is in flight
        obtain ⟨hlive, hbusy⟩ := Bool.and_eq_true_iff.1 hbusy
        obtain ⟨spec, state, handle, intent, shutdown, membership, hrow, hpane, -, connected, calm,
          -⟩ := h.live hlive
        have hflight : intent = .stopInFlight := by
          simpa [hpane, ExitIntent.acceptsStopRequest] using hbusy
        exact h.goOn state intent shutdown hrow hpane hrow hpane rfl rfl rfl rfl connected calm
          (fun _ _ => by rw [hflight]; rfl) rfl
      · split
        · next hlive =>
          exact requestGracefulTransition_spec h hlive (fun _ _ => ⟨rfl, rfl⟩)
            (fun _ _ _ => ⟨rfl, rfl⟩) rfl
        · next hlive => exact h.settleStopped (by simp_all)

theorem forceKillPane_spec (h : Inv t s) : s.forceKillPane.All (Inv t.paid) := by
  obtain ⟨h, halone⟩ := h.supersede
  unfold forceKillPane
  generalize s.supersedeRetryAdoption = s at h halone ⊢
  dsimp only
  split
  · next hl =>
    exact h.record hl _ (fun _ => rfl) (fun _ => rfl) (fun _ => .inl rfl) h.booked.early
      (fun _ _ _ _ => .inr (.inl rfl)) (fun _ _ h => h) (fun hu => by simp [halone hu] at hl) rfl
  · next hl =>
    split
    · next hu => exact stopUnsupervised_spec h (halone hu) hu true
    · next hu =>
      split
      · next hnone =>
        refine h.settleStopped ?_
        cases hp : s.pane <;> simp_all
      · next handle hhandle =>
        obtain ⟨spec, state, handle, intent, shutdown, membership, hrow, hpane, -, connected, -⟩ :=
          h.live (by cases hp : s.pane <;> simp_all)
        simp only [Acts.all_bind, Acts.all_query, ↓reduceIte, Bool.false_eq_true, Acts.all_pure,
          all_notify]
        exact ⟨h.goOn .stopping .stopInFlight (shutdown + 1) hrow hpane (by simp [hrow])
            (by simp [hpane]; rfl) rfl rfl rfl rfl rfl (fun _ => rfl) (fun _ _ => rfl) rfl,
          h.goOn state .stopRetryable (shutdown + 1) hrow hpane hrow (by simp [hpane]; rfl) rfl rfl rfl
            rfl connected (fun _ => rfl) (fun _ _ => rfl) rfl⟩

end Slot

end Muster.Supervisor
