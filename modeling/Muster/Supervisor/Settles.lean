import Muster.Supervisor.Connections

/-!
# Settles — launches that come to an end

When a launch settles, the pane gets what it launched, the outputs that came early, and then what was
asked meanwhile.
-/

namespace Muster.Supervisor

/-- The promises of a pane between two events: none is due. -/
structure Terms.Plain (t : Terms) : Prop where
  calm : t.calm = false
  stopDue : t.stopDue = false
  dropDue : t.dropDue = false

/-- The promises while a launch settles: all are due. -/
@[simp] def Terms.owed (t : Terms) : Terms :=
  { t with calm := true, stopDue := true, dropDue := true }

namespace Slot

variable {t : Terms} {s : Slot} {generation : ℕ} {launch : PendingLaunch}
  {early : List ProcessOutput} {carried : CarriedPane}

theorem takeLaunch_eq_some (h : s.takeLaunch generation = some launch) :
    s.generation = generation ∧ s.launch = some launch := by
  unfold takeLaunch at h
  split at h
  · next hg => exact ⟨hg, (Option.filter_eq_some_iff.1 h).1⟩
  · cases h

theorem Inv.launch_current (h : Inv t s) : ∀ launch ∈ s.launch, launch.generation = s.generation := by
  intro launch hlaunch
  cases h.shape with
  | gone process pane none => simp [none] at hlaunch
  | idle spec state process pane none => simp [none] at hlaunch
  | launching spec launched process pane some current => simp_all
  | live spec state handle intent shutdown membership process pane none => simp [none] at hlaunch
  | left spec state child intent shutdown membership process pane alone retry =>
    exact (retry launch hlaunch).current

/-- No launch is superseded while its result is awaited, but for retries. -/
theorem Inv.forgetLaunch (h : Inv t s) (htake : s.takeLaunch generation = none) :
    s.forgetLaunch generation = s := by
  have hkeep : s.launch.filter (fun launch => launch.generation ≠ generation) = s.launch := by
    cases hl : s.launch with
    | none => rfl
    | some launch =>
      have hcurrent := h.launch_current launch hl
      simp only [takeLaunch, hl] at htake
      have : launch.generation ≠ generation := by
        rintro rfl
        simp [hcurrent] at htake
      simp [this]
  cases s
  simp_all [Slot.forgetLaunch]

theorem Inv.ended (h : Inv t s) (hl : s.launch = some launch)
    (hu : s.isUnsupervised = false) (hsought : ∀ g, .located g ∉ s.posted) (connected : Bool) :
    Loose t (s.endLaunch connected) ∧ ∃ spec, s.process = some ⟨spec, .starting⟩ := by
  have hlogged : Logged t (s.endLaunch connected) := h.logged.congr (Nat.le_refl _) rfl (.inl rfl)
  cases h.shape with
  | gone process pane launch => simp [launch] at hl
  | idle spec state process pane launch => simp [launch] at hl
  | launching spec launched process pane =>
    exact ⟨⟨rfl, pane, fun hnone => by simp [process] at hnone, ⟨h.booked.old, hsought⟩, hlogged⟩,
      spec, process⟩
  | live spec state handle intent shutdown membership process pane launch => simp [launch] at hl
  | left spec state child intent shutdown membership process pane => simp [pane] at hu

theorem Inv.no_respawn_launch (h : Inv t s) (hl : s.launch = some launch) :
    .respawn s.generation ∉ s.posted :=
  h.no_respawn (by simp [hl])

/-- **The promises due are paid**, from what was recorded in the launch. -/
theorem applyPending_owed (ht : t.Plain) (h : Inv t.owed s)
    (hstop : t.stop.isSome → launch.intent = some .stop ∨ launch.intent = some .kill)
    (hdrop : t.drop.isSome → launch.membership = some .retireOnExit) (suspend : Option Bool) :
    (s.applyPending launch.membership suspend launch.intent).All (Inv t) := by
  have hwarm : Inv { t with stopDue := true, dropDue := true } s :=
    h.weaken ⟨Nat.le_refl _, id, fun _ => rfl, fun _ => id, fun _ => id, fun _ => id, fun _ => id⟩ fun _ => id
  refine (applyPending_spec hwarm _ suspend _ (fun hs _ => hstop hs) (fun hrestart => ?_)
    (fun hd _ => hdrop hd) (fun hd => ?_)).mono fun s' h' => h'.weaken ⟨Nat.le_refl _, id, id,
      fun _ => id, fun _ _ => rfl, fun _ => id, fun _ _ => rfl⟩ fun _ => id
  · refine ⟨?_, ht.calm⟩
    by_contra hs
    have := hstop (Option.isSome_iff_ne_none.2 hs)
    simp [hrestart] at this
  · simp [hdrop hd]

/-! ### Spawns -/

theorem all_releaseHeldExit {P : Slot → Prop} :
    s.releaseHeldExit.All P ↔ P { s with heldExit := none } := by
  unfold releaseHeldExit
  split
  · simp
  · next hnone =>
    have : { s with heldExit := none } = s := by
      cases s
      simp_all
    rw [this]
    exact Iff.rfl

theorem replays_installed (hl : s.launch = none)
    (hlive : s.isLive) (hearly : early.countP ProcessOutput.isExit + s.mayExit.toNat ≤ 1) :
    s.Replays generation early := by
  cases hx : s.mayExit with
  | true =>
    refine .inl ?_
    simp only [hx, Bool.toNat_true] at hearly
    omega
  | false =>
    refine .inr (.inr ⟨hl, hlive, hx, ?_⟩)
    simpa [hx] using hearly

/-- **A fresh connection.**  It is to follow the policy and is tracked, until the pane is told what was
asked meanwhile; the outputs kept for it are handed over before. -/
theorem installPane_spec (h : Loose t s) (hrow : s.process.isSome)
    (hr : .respawn s.generation ∉ s.posted)
    (hearly : early.countP ProcessOutput.isExit + s.mayExit.toNat ≤ 1)
    (hread : t.drop.isSome → early.any ProcessOutput.isUnreadable = false) (handle : Handle)
    (generation : ℕ) : (replay generation early (s.installPane handle)).All (Inv t.owed) := by
  obtain ⟨⟨spec, state⟩, hrow⟩ := Option.isSome_iff_exists.1 hrow
  have hpane : (s.installPane handle).pane = some ⟨some handle, none, .followPolicy, 0, .tracked⟩ := by
    simp [hrow, Pane.new]
  have hprocess : (s.installPane handle).process = some ⟨spec, .running⟩ := by simp [hrow]
  have hloose : Loose t.owed s := h.terms rfl rfl rfl rfl
  have hinv : Inv t.owed (s.installPane handle) :=
    hloose.connect hprocess hpane (by simp [hrow, h.launch]) (by simp [hrow]) (by simp [hrow])
      (by simp [hrow]) (by simp [hrow]) hr rfl (fun _ => rfl)
      (fun _ h => nomatch h) (fun _ h => nomatch h)
  refine replay_spec ⟨fun _ _ => rfl, fun _ _ => rfl, fun _ => .inr rfl⟩ early (fun hd hu => ?_) hinv
    (replays_installed (by simp [hrow, h.launch]) (by simp [hrow, Pane.new]) (by simpa [hrow] using hearly))
  simp [hread hd] at hu

/-- A launch in flight is of a pane that holds nothing, or a retry beside the child it is to adopt. -/
theorem Inv.inFlight (h : Inv t s) (hlaunch : s.launch = some launch) :
    (s.isUnsupervised = false ∧ PriorFits launch s.pane ∧
      (t.stop.isSome → launch.purpose.carriedIntent.isRestart = false) ∧
      (t.stop.isSome → t.stopDue = false → Stops launch) ∧
      (t.drop.isSome → Retires launch s.pane)) ∨
    s.isUnsupervised ∧ Retry t s launch := by
  cases h.shape with
  | gone process pane none => simp [none] at hlaunch
  | idle spec state process pane none => simp [none] at hlaunch
  | launching spec launched process pane hl current prior calm stop drop =>
    obtain rfl : launched = launch := Option.some.inj (hl.symm.trans hlaunch)
    exact .inl ⟨Bare.isUnsupervised pane, prior, calm, stop, drop⟩
  | live spec state handle intent shutdown membership process pane none => simp [none] at hlaunch
  | left spec state child intent shutdown membership process pane alone retry =>
    exact .inr ⟨by simp [pane], retry launch hlaunch⟩

theorem Inv.spawning (h : Inv t s) (hmem : .spawned generation ∈ s.posted)
    (htake : s.takeLaunch generation = some launch) :
    s.isUnsupervised = false ∧ (∀ g, .located g ∉ s.posted) ∧ (∃ r, launch.purpose = .spawn r) ∧
      (t.stop.isSome → t.stopDue = false →
        launch.intent = some .stop ∨ launch.intent = some .kill) ∧
      (t.drop.isSome → launch.membership = some .retireOnExit) := by
  obtain ⟨hg, hlaunch⟩ := takeLaunch_eq_some htake
  obtain ⟨restarting, hpurpose⟩ := h.booked.fits _ hmem hg.symm launch hlaunch
  have hsought : ∀ g, .located g ∉ s.posted := by
    intro g hg
    obtain ⟨carried, hcarried⟩ := h.booked.fits _ hg (h.booked.sought g hg).1 launch hlaunch
    simp [hpurpose] at hcarried
  obtain ⟨hu, -, -, stop, drop⟩ | ⟨-, hretry⟩ := h.inFlight hlaunch
  · refine ⟨hu, hsought, ⟨restarting, hpurpose⟩, fun h₁ h₂ => ?_, fun hd => ?_⟩
    · have := stop h₁ h₂
      simpa [Stops, hpurpose, LaunchPurpose.carriedIntent, ExitIntent.isStop] using this
    · have := drop hd
      simpa [Retires, hpurpose] using this
  · simp [hretry.purpose] at hpurpose

/-- A result of a spawn: the books of the launch it settles, with the result gone from what is owed. -/
theorem Inv.spawned (h : Inv t s) (ht : t.Plain) (hmem : .spawned generation ∈ s.posted)
    (htake : s.takeLaunch generation = some launch) (connected : Bool) :
    Loose t ((s.receive (.spawned generation)).endLaunch connected) ∧
      s.process.isSome ∧ .respawn s.generation ∉ s.posted.erase (.spawned generation) ∧
      launch.early.countP ProcessOutput.isExit + s.mayExit.toNat ≤ 1 ∧
      (t.stop.isSome → launch.intent = some .stop ∨ launch.intent = some .kill) ∧
      (t.drop.isSome → launch.membership = some .retireOnExit) := by
  obtain ⟨hu, hsought, -, hstop, hdrop⟩ := h.spawning hmem htake
  obtain ⟨-, hlaunch⟩ := takeLaunch_eq_some htake
  have hreceive := h.receive (e := .spawned generation) fun _ => by simp
  obtain ⟨hloose, spec, hrow⟩ := hreceive.ended hlaunch hu
    (fun g hg => hsought g (List.mem_of_mem_erase hg)) connected
  have hrow : s.process = some ⟨spec, .starting⟩ := hrow
  exact ⟨hloose, by simp [hrow], hreceive.no_respawn_launch hlaunch,
    Nat.le_trans (Nat.le_add_right _ _) (h.booked.early launch hlaunch), fun hs => hstop hs ht.stopDue, hdrop⟩

/-- **A spawn settles.**  A connection lost already, of a launch told that its row was dropped, is left
out. -/
theorem settleSpawn_spec (h : Inv t s) (ht : t.Plain)
    (hmem : .spawned generation ∈ s.posted) (result : Except String Handle)
    (hread : t.drop.isSome → result.isOk → ∀ launch ∈ s.takeLaunch generation,
      launch.early.any ProcessOutput.isUnreadable = false) :
    ((s.receive (.spawned generation)).settleSpawn generation result).All
      (Inv t) := by
  have hreceive := h.receive (e := .spawned generation) fun _ => by simp
  unfold settleSpawn
  split
  · next htake =>
    rw [Acts.all_bind]
    refine Acts.all_of_forall _ fun _ => ?_
    rw [Acts.all_pure, hreceive.forgetLaunch htake]
    exact hreceive
  · next launch htake =>
    obtain ⟨hloose, hrow, hr, hearly, hstop, hdrop⟩ := h.spawned ht hmem htake result.isOk
    obtain ⟨-, -, ⟨restarting, hpurpose⟩, -⟩ := h.spawning hmem htake
    simp only [hpurpose]
    suffices hinstalled : (installSpawned _ generation launch.early result).All fun r =>
        Inv t.owed r.2 from hinstalled.bind fun r h' => applyPending_owed ht h' hstop hdrop _
    cases result with
    | ok handle =>
      simp only [installSpawned, Acts.all_bind, all_releaseHeldExit]
      have hreleased : Loose t { (s.receive (.spawned generation)).endLaunch true with
          heldExit := none } :=
        ⟨hloose.launch, hloose.pane, hloose.row, hloose.past,
          hloose.logged.congr (Nat.le_refl _) rfl (.inl rfl)⟩
      refine (installPane_spec hreleased hrow hr ?_ (fun hd => hread hd rfl launch htake) handle
        generation).mono fun s' h' => h'
      simpa [Except.isOk, Except.toBool] using hearly
    | error error =>
      have hx : (s.mayExit && (Except.error error : Except String Handle).isOk) = false := by
        simp [Except.isOk, Except.toBool]
      have howed : Loose t.owed _ := hloose.terms rfl rfl rfl rfl
      have hlater := howed.restartLater hrow (fun _ => rfl) (fun _ => rfl)
      have hcrashed := howed.settle .crashed hx hr rfl (fun _ h => by cases h) (fun _ _ => rfl)
      simp only [installSpawned, Acts.all_bind, Acts.all_query, ↓reduceIte, Bool.false_eq_true,
        all_notify, and_self]
      split
      · exact hlater
      · exact hcrashed

theorem handleLaunchBlocked_spec (h : Inv t s) (ht : t.Plain)
    (hmem : .spawned generation ∈ s.posted) (block : String) :
    ((s.receive (.spawned generation)).handleLaunchBlocked generation block).All (Inv t) := by
  have hreceive := h.receive (e := .spawned generation) fun _ => by simp
  unfold handleLaunchBlocked
  split
  · next htake =>
    rw [Acts.all_pure, hreceive.forgetLaunch htake]
    exact hreceive
  · next launch htake =>
    obtain ⟨hloose, hrow, -, -, hstop, hdrop⟩ := h.spawned ht hmem htake false
    have howed : Loose t.owed _ := hloose.terms rfl rfl rfl rfl
    simp only [Acts.all_bind, all_notify]
    exact applyPending_owed ht (howed.block hrow (by simp) (fun _ h => by cases h) fun _ => rfl) hstop
      hdrop none

/-! ### Reconnections -/

theorem Inv.rowless {t' : Terms} (h : Inv t s) (hrow : s.process = none) (stop : t'.stop = t.stop)
    (drop : t'.drop = t.drop) (spec : t'.spec = t.spec) (since : t'.since = t.since) :
    Inv t' s := by
  refine ⟨?_, h.booked, h.logged.terms stop drop spec since⟩
  cases h.shape with
  | gone process pane launch => exact .gone process pane launch
  | idle spec state process => simp [hrow] at process
  | launching spec launched process => simp [hrow] at process
  | live spec state handle intent shutdown membership process => simp [hrow] at process
  | left spec state child intent shutdown membership process => simp [hrow] at process

/-- What a reconnection in flight promises: its launch records it, or what it carries does. -/
structure Reconnecting (t : Terms) (launch : PendingLaunch) (carried : CarriedPane)
    (pane : Option Pane) : Prop where
  purpose : launch.purpose = .adopt (some carried)
  prior : PriorFits launch pane
  calm : t.stop.isSome → carried.intent.isRestart = false
  stop : t.stop.isSome → Stops launch
  drop : t.drop.isSome → Retires launch pane

namespace Reconnecting

variable {launch : PendingLaunch} {carried : CarriedPane} {pane : Option Pane}

theorem asked (h : Reconnecting t launch carried pane) (hs : t.stop.isSome)
    (hasked : launch.intent.isSome) : launch.intent = some .stop ∨ launch.intent = some .kill := by
  obtain h | h | ⟨h, -⟩ := h.stop hs
  · exact .inl h
  · exact .inr h
  · simp [h] at hasked

theorem unasked (h : Reconnecting t launch carried pane) (hs : t.stop.isSome)
    (hasked : launch.intent.isSome = false) : carried.intent.isStop := by
  obtain h | h | ⟨-, h'⟩ := h.stop hs
  · simp [h] at hasked
  · simp [h] at hasked
  · simpa [h.purpose, LaunchPurpose.carriedIntent] using h'

theorem no_stop (h : Reconnecting t launch carried pane) (hasked : launch.intent = some .restart) :
    t.stop = none := by
  by_contra hs
  have := h.asked (Option.isSome_iff_ne_none.2 hs) (by simp [hasked])
  simp [hasked] at this

theorem retires (h : Reconnecting t launch carried pane) (hd : t.drop.isSome) :
    (carried.withMembership launch.membership).membership = .retireOnExit ∧
      ∀ p ∈ pane, p.configMembership = .retireOnExit := by
  simpa [Retires, h.purpose] using h.drop hd

theorem tracked (h : Reconnecting t launch carried pane) (hd : t.drop.isSome) :
    launch.membership ≠ some .tracked := by
  intro htracked
  have := (h.retires hd).1
  simp [CarriedPane.withMembership, htracked] at this

theorem applyPending (h : Reconnecting t launch carried pane) (ht : t.Plain)
    (hinv : Inv { t with stopDue := launch.intent.isSome } s) (suspend : Option Bool) :
    (s.applyPending launch.membership suspend launch.intent).All (Inv t) :=
  (applyPending_spec hinv _ suspend _ h.asked (fun hr => ⟨h.no_stop hr, ht.calm⟩)
    (fun _ hdue => by simp [ht.dropDue] at hdue) h.tracked).mono fun _ h' =>
      h'.weaken ⟨Nat.le_refl _, id, id, fun _ => id, fun _ _ => rfl, fun _ => id, fun _ _ => rfl⟩ fun _ => id

end Reconnecting

/-- **A reconnection fails.**  The child is left unsupervised or its exit means what it was to mean,
and what was asked meanwhile is told to what is left of the pane. -/
theorem reconnectFailed_pending (ht : t.Plain) (h : Loose t s) (hrow : s.process.isSome)
    (hx : s.mayExit = false) (hr : .respawn s.generation ∉ s.posted)
    (hlaunch : Reconnecting t launch carried s.pane)
    (hfollow : t.restarts → t.sound ∨ carried.intent.isRestart = false)
    (failure : Option (HolderRecord × String)) :
    ((s.setState launch.priorState).reconnectFailed (carried.withMembership launch.membership)
      failure >>= fun s =>
        if s.process.isSome then s.applyPending launch.membership none launch.intent
        else pure s).All (Inv t) := by
  obtain ⟨-, -, hpane⟩ : carried.state = some launch.priorState ∧ launch.priorState.isConnected ∧
      s.pane.isSome := by simpa [PriorFits, hlaunch.purpose] using hlaunch.prior
  obtain ⟨p, hpane⟩ := Option.isSome_iff_exists.1 hpane
  have hloose : Loose { t with stopDue := launch.intent.isSome } (s.setState launch.priorState) :=
    ⟨h.launch, h.pane, fun hnone => h.row (by simpa using hnone), h.past,
      .congr (h.logged.terms rfl rfl rfl rfl) (Nat.le_refl _) rfl
        (.inl (by cases hp : s.process <;> simp [hp]))⟩
  refine (reconnectFailed_spec hloose (by simpa using hrow) hpane hx hr
    (carried.withMembership launch.membership) (fun hs => hlaunch.unasked hs) hlaunch.calm
    (fun hd => ⟨(hlaunch.retires hd).1, (hlaunch.retires hd).2 p hpane⟩) hfollow failure).bind
    fun s' h' => ?_
  split
  · exact hlaunch.applyPending ht h' none
  · next hgone => exact h'.rowless (by simpa using hgone) rfl rfl rfl rfl

theorem installAdopted_spec (h : Loose t s) (hrow : s.process.isSome)
    (hr : .respawn s.generation ∉ s.posted) (carried : CarriedPane) {state : ProcessState}
    (hstate : carried.state = some state) (connected : state.isConnected)
    (calm : t.calm → carried.intent.isRestart = false)
    (stop : t.stop.isSome → t.stopDue = false → carried.intent.isStop)
    (drop : t.drop.isSome → t.dropDue = false → carried.membership = .retireOnExit)
    (handle : Handle) :
    Inv t (s.installAdopted handle (some carried)) ∧
      (s.installAdopted handle (some carried)).launch = none ∧
      (s.installAdopted handle (some carried)).isLive ∧
      (s.installAdopted handle (some carried)).mayExit = s.mayExit := by
  obtain ⟨⟨spec, state₀⟩, hrow⟩ := Option.isSome_iff_exists.1 hrow
  have hrestored : Inv t { s with
      retry := none, process := some ⟨spec, state⟩
      pane := some ⟨some handle, none, carried.intent, 0, carried.membership⟩ } :=
    h.connect rfl rfl h.launch rfl rfl rfl (by simp [hrow]) hr connected calm stop drop
  have hinstalled : s.installAdopted handle (some carried) = if carried.intent.awaitsForceStop then
      Slot.scheduleForceStop (advanceShutdown { s with
        retry := none, process := some ⟨spec, state⟩
        pane := some ⟨some handle, none, carried.intent, 0, carried.membership⟩ })
      else { s with
        retry := none, process := some ⟨spec, state⟩
        pane := some ⟨some handle, none, carried.intent, 0, carried.membership⟩ } := by
    simp [installAdopted, hstate, hrow, Pane.new]
  rw [hinstalled]
  split
  · exact ⟨hrestored.advanceShutdown.scheduleForceStop, by simp [h.launch], by simp, by simp⟩
  · exact ⟨hrestored, h.launch, rfl, rfl⟩

/-- **A reconnection succeeds.**  The pane is given back what it carried, then the outputs kept for the
connection, then what was asked meanwhile. -/
theorem reconnected_spec (ht : t.Plain) (h : Loose t s) (hrow : s.process.isSome)
    (hr : .respawn s.generation ∉ s.posted) (hlaunch : Reconnecting t launch carried s.pane)
    (hearly : launch.early.countP ProcessOutput.isExit + s.mayExit.toNat ≤ 1)
    (hfollow : t.restarts → t.sound ∨ carried.intent.isRestart = false) (handle : Handle)
    (generation : ℕ) : (replay generation launch.early
      (s.installAdopted handle (some (carried.withMembership launch.membership))) >>= fun s =>
        s.applyPending launch.membership (launch.suspend.filter fun _ => s.runsLaunch generation)
          launch.intent).All (Inv t) := by
  obtain ⟨hstate, connected, -⟩ : carried.state = some launch.priorState ∧
      launch.priorState.isConnected ∧ s.pane.isSome := by
    simpa [PriorFits, hlaunch.purpose] using hlaunch.prior
  let t' := { t with stopDue := launch.intent.isSome, calm := !carried.intent.isRestart }
  have hcalm : t.stop.isSome → t'.calm := fun hs => by simp [t', hlaunch.calm hs]
  have hloose : Loose t' s := h.terms rfl rfl rfl rfl
  obtain ⟨hinv, hl, hlive, hx⟩ := installAdopted_spec hloose hrow hr
    (carried.withMembership launch.membership) hstate connected
    (fun hc => by simpa [t', CarriedPane.withMembership] using hc) (fun hs => hlaunch.unasked hs)
    (fun hd _ => (hlaunch.retires hd).1) handle
  have hsettling : Settling t' := ⟨fun hs _ => hcalm hs, fun _ hdue => by simp [t', ht.dropDue] at hdue,
    fun hf => (hfollow hf).imp_right fun h => by simp [t', h]⟩
  refine (replay_spec hsettling launch.early (fun _ _ => ht.dropDue) hinv
    (replays_installed hl hlive (hx ▸ hearly))).bind fun s' h' => hlaunch.applyPending ht ?_ _
  exact h'.weaken ⟨Nat.le_refl _, id, fun hc => by simp [ht.calm] at hc, fun _ => id, fun _ => id,
    fun _ => id, fun _ => id⟩ fun _ => id

theorem Inv.reconnecting (h : Inv t s) (ht : t.Plain) (hlaunch : s.launch = some launch)
    (hpurpose : launch.purpose = .adopt (some carried)) :
    s.isUnsupervised = false ∧ Reconnecting t launch carried s.pane := by
  obtain ⟨hu, prior, calm, stop, drop⟩ | ⟨-, hretry⟩ := h.inFlight hlaunch
  · refine ⟨hu, hpurpose, prior, fun hs => ?_, fun hs => stop hs ht.stopDue, drop⟩
    simpa [hpurpose, LaunchPurpose.carriedIntent] using calm hs
  · simp [hretry.purpose] at hpurpose

/-- The search found the holder: the launch goes on as its adoption. -/
theorem Inv.adoptFound (h : Inv t s) (hmem : .located generation ∈ s.posted)
    (hlaunch : s.launch = some launch) (hu : s.isUnsupervised = false) (record : HolderRecord) :
    Inv t { (((s.receive (.located generation)).endLaunch false).beginLaunch launch).post
      (.adopted generation record) with mayExit := true } := by
  obtain ⟨rfl, -, honce, -⟩ := h.booked.sought generation hmem
  obtain ⟨carried, hpurpose⟩ := h.booked.fits _ hmem rfl launch hlaunch
  have sub : ∀ a ∈ s.posted.erase (.located s.generation), a ∈ s.posted := fun a =>
    List.mem_of_mem_erase
  have hnosearch : ∀ g, .located g ∉ s.posted.erase (.located s.generation) := by
    intro g hg
    obtain rfl := (h.booked.sought g (sub _ hg)).1
    exact honce hg
  have hnorespawn : .respawn s.generation ∉ s.posted := h.no_respawn_launch hlaunch
  have hearly := h.booked.early launch hlaunch
  rw [show s.posted.any Posted.isSearch = true from List.any_eq_true.2 ⟨_, hmem, rfl⟩] at hearly
  refine ⟨h.shape.transfer (.refl t) rfl rfl hlaunch.symm rfl ?_, ⟨?_, ?_, ?_, ?_, ?_, ?_, ?_⟩,
    h.logged.congr (Nat.le_refl _) rfl (.inl rfl)⟩
  · simp [hnorespawn]
  · intro e he
    obtain rfl | he := List.mem_cons.1 he
    · exact Nat.le_refl _
    · exact h.booked.old e (sub e he)
  · intro e he htag l hl
    obtain rfl : launch = l := Option.some.inj hl
    obtain rfl | he := List.mem_cons.1 he
    · exact ⟨_, hpurpose⟩
    · exact h.booked.fits e (sub e he) htag launch hlaunch
  · intro g hg
    exact absurd ((List.mem_cons.1 hg).resolve_left (by simp)) (hnosearch g)
  · intro record' _ _ child hchild
    have hchild : s.pane.bind (·.unsupervised) = some child := hchild
    obtain ⟨p, hp, hpu⟩ := Option.bind_eq_some_iff.1 hchild
    simp [hp, hpu] at hu
  · intro hr
    exact absurd (sub _ ((List.mem_cons.1 hr).resolve_left (by simp))) hnorespawn
  · exact fun _ => .inl rfl
  · intro l hl
    obtain rfl : launch = l := Option.some.inj hl
    have hnone : (s.posted.erase (.located s.generation)).any Posted.isSearch = false :=
      Past.no_search ⟨fun e he => h.booked.old e (sub e he), hnosearch⟩
    show launch.early.countP ProcessOutput.isExit + true.toNat + ((Posted.adopted s.generation record ::
      s.posted.erase (.located s.generation)).any Posted.isSearch).toNat ≤ 1
    simp only [List.any_cons, hnone, Posted.isSearch, Bool.or_false, Bool.toNat_false,
      Bool.toNat_true] at hearly ⊢
    omega

/-- **A search for a lost connection's holder comes back.**  Its launch is never superseded. -/
theorem handleReconnectLocated_spec (h : Inv t s) (ht : t.Plain)
    (hmem : .located generation ∈ s.posted) (hfollow : t.restarts → t.sound ∨
      ∀ launch ∈ s.launch, launch.purpose.carriedIntent.isRestart = false)
    (record : Option HolderRecord) (ours : Bool) :
    ((s.receive (.located generation)).handleReconnectLocated generation record ours).All
      (Inv t) := by
  obtain ⟨rfl, hlaunch, honce, -⟩ := h.booked.sought generation hmem
  obtain ⟨launch, hlaunch⟩ := Option.isSome_iff_exists.1 hlaunch
  obtain ⟨carried, hpurpose⟩ := h.booked.fits _ hmem rfl launch hlaunch
  obtain ⟨hu, hreconnecting⟩ := h.reconnecting ht hlaunch hpurpose
  have hreceive := h.receive (e := .located s.generation) fun _ => by simp
  have hcurrent := h.launch_current launch hlaunch
  unfold handleReconnectLocated
  split
  · next htake => simp [takeLaunch, hlaunch, hcurrent] at htake
  · next launch' htake =>
    obtain rfl : launch = launch' := Option.some.inj (hlaunch.symm.trans (takeLaunch_eq_some htake).2)
    simp only [hpurpose]
    split
    · next hnone =>
      obtain ⟨hloose, spec, hrow⟩ := hreceive.ended hlaunch hu (fun g hg => by
        obtain rfl := (h.booked.sought g (List.mem_of_mem_erase hg)).1
        exact honce hg) false
      have hrow : s.process = some ⟨spec, .starting⟩ := hrow
      refine reconnectFailed_pending ht hloose (by simp [hrow]) (by simp)
        (hreceive.no_respawn_launch hlaunch) hreconnecting
        (fun hf => (hfollow hf).imp_right fun hcalm => ?_) none
      simpa [hpurpose, LaunchPurpose.carriedIntent] using hcalm launch hlaunch
    · next found hfound => exact h.adoptFound hmem hlaunch hu found

end Slot

end Muster.Supervisor
