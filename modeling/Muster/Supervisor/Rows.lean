import Muster.Supervisor.Adoptions

/-!
# Rows — what the stack does to a pane

A stack adds rows, gives kept ones their new definition, and drops the others: at once where nothing
is held, else with a mark that the row is to go with what it holds.
-/

namespace Muster.Supervisor.Slot

variable {t : Terms} {s : Slot} {stop : Option ℕ}

theorem Inv.dropped (h : Inv t s) (hheld : s.holdsProcess)
    (hlaunch : ∀ launch ∈ s.launch, launch.membership = some .retireOnExit)
    (hpane : ∀ p ∈ s.pane, p.configMembership = .retireOnExit) :
    Inv { t with drop := some s.handed.length } s := by
  refine ⟨?_, h.booked, ⟨h.logged.bare, h.logged.stop, fun n hn => by simpa using hn, h.logged.spec,
    h.logged.since⟩⟩
  cases h.shape with
  | gone process pane launch => exact .gone process pane launch
  | idle spec state process pane launch =>
    simp [holdsProcess, -isLive, -isUnsupervised, pane.isLive, pane.isUnsupervised, launch] at hheld
  | launching spec launched process pane launch current prior calm stop =>
    refine .launching spec launched process pane launch current prior calm stop fun _ => ?_
    have hretire := hlaunch launched launch
    unfold Retires
    split
    · exact ⟨by simp [CarriedPane.withMembership, hretire], hpane⟩
    · exact hretire
    · exact hretire
  | live spec state handle intent shutdown membership process pane launch connected calm stop =>
    exact .live spec state handle intent shutdown membership process pane launch connected calm stop
      fun _ _ => hpane _ pane
  | left spec state child intent shutdown membership process pane alone launch stop =>
    refine .left spec state child intent shutdown membership process pane alone (fun l hl => ?_) stop
      fun _ _ => hpane _ pane
    have hretry := launch l hl
    exact ⟨hretry.current, hretry.purpose, hretry.prior, hretry.stop, fun _ => by simp [hlaunch l hl]⟩

theorem Inv.setMembership (h : Inv t s) (membership : ConfigMembership) :
    Inv { t with drop := none } (s.setMembership membership) := by
  have hfree : Inv { t with drop := none } s := h.weaken ⟨Nat.le_refl _, id, id, fun _ => id,
    fun _ => id, fun _ hn => (nomatch hn), fun hd => (nomatch hd)⟩ fun _ => id
  have hrecord : Inv { t with drop := none } (s.onLaunch ({ · with membership := some membership })) := by
    cases hl : s.launch with
    | none =>
      rw [show s.onLaunch _ = s by cases s; simp_all]
      exact hfree
    | some launch =>
      exact hfree.record (by simp [hl]) _ (fun _ => rfl) (fun _ => rfl) (fun _ => .inl rfl)
        hfree.booked.early (fun l hs hdue hstops => by simpa [Stops] using hstops hdue)
        (fun _ hd => nomatch hd) (fun _ => ⟨id, fun l hr => ⟨hr.current, hr.purpose, hr.prior, hr.stop,
          fun hd => nomatch hd⟩⟩) rfl
  exact hrecord.mark (fun _ => rfl) (fun _ => rfl) (fun _ => rfl) (fun _ _ hd => nomatch hd)
    (fun hd => nomatch hd) rfl

/-- A row the stack dropped is to go with what it holds. -/
theorem Inv.markRetiring (h : Inv t s) (hheld : s.holdsProcess) :
    Inv { t with drop := some s.handed.length } (s.setMembership .retireOnExit) := by
  refine (h.setMembership .retireOnExit).dropped ?_ (fun launch hlaunch => ?_) fun p hp => ?_
  · cases hp : s.pane <;> cases hl : s.launch <;> simp_all
  · obtain ⟨l, -, rfl⟩ := Option.map_eq_some_iff.1 hlaunch
    rfl
  · obtain ⟨p₀, -, rfl⟩ := Option.map_eq_some_iff.1 hp
    rfl

theorem Inv.respec (h : Inv t s) (spec : ProcessSpec → Prop) (hspec : ∀ r ∈ s.process, spec r.spec) :
    Inv { t with spec } s :=
  ⟨h.shape.transfer ⟨Nat.le_refl _, id, id, fun _ => id, fun _ => id, fun _ => id, fun _ => id⟩ rfl rfl
    rfl rfl Iff.rfl, h.booked, ⟨h.logged.bare, h.logged.stop, h.logged.drop, hspec, h.logged.since⟩⟩

theorem Inv.setSpec (h : Inv t s) (spec : ProcessSpec) (hspec : t.spec spec) : Inv t (s.setSpec spec) := by
  have hrow : ∀ {spec₀ state}, s.process = some ⟨spec₀, state⟩ →
      (s.setSpec spec).process = some ⟨spec, state⟩ := fun hp => by simp [hp]
  refine ⟨?_, ⟨h.booked.old, h.booked.fits, h.booked.sought, h.booked.ours, fun hmem => ?_,
    h.booked.exits, h.booked.early⟩, ⟨h.logged.bare, h.logged.stop, h.logged.drop, fun r hr => ?_,
    h.logged.since⟩⟩
  · cases h.shape with
    | gone process pane launch => exact .gone (by simp [process]) pane launch
    | idle spec₀ state process pane launch settled restarts stop drop =>
      exact .idle spec state (hrow process) pane launch settled restarts stop drop
    | launching spec₀ launched process pane launch current prior calm stop drop =>
      exact .launching spec launched (hrow process) pane launch current prior calm stop drop
    | live spec₀ state handle intent shutdown membership process pane launch connected calm stop
        drop =>
      exact .live spec state handle intent shutdown membership (hrow process) pane launch connected
        calm stop drop
    | left spec₀ state child intent shutdown membership process pane alone launch stop drop =>
      exact .left spec state child intent shutdown membership (hrow process) pane alone
        (fun l hl => ⟨(launch l hl).1, (launch l hl).2, (launch l hl).3, (launch l hl).4,
          (launch l hl).5⟩) stop drop
  · obtain ⟨hl, hbare, r, hr, hstate⟩ := h.booked.respawns hmem
    exact ⟨hl, hbare, { r with spec }, by simp [Option.mem_def.1 hr], hstate⟩
  · obtain ⟨r₀, -, rfl⟩ := Option.map_eq_some_iff.1 hr
    exact hspec

theorem Inv.addRow (h : Inv t s) (hgone : s.process = none) (spec : ProcessSpec) (hspec : t.spec spec) :
    Inv { t with stop := none, drop := none } (s.addRow spec) := by
  have hno : .respawn s.generation ∉ s.posted := fun hmem => by
    obtain ⟨-, -, r, hr, -⟩ := h.booked.respawns hmem
    simp [hgone] at hr
  cases h.shape with
  | gone process pane launch =>
    refine ⟨.idle spec .pending rfl (pane ▸ bare_none) launch rfl (fun _ he => nomatch he)
      (fun hs => nomatch hs) (fun hd => nomatch hd), ⟨h.booked.old, h.booked.fits, h.booked.sought,
      h.booked.ours, fun hmem => absurd hmem hno, h.booked.exits, h.booked.early⟩,
      ⟨h.logged.bare, by simp, by simp, fun r hr => ?_, h.logged.since⟩⟩
    obtain rfl := Option.some.inj hr
    exact hspec
  | idle spec state process => simp [hgone] at process
  | launching spec launched process => simp [hgone] at process
  | live spec state handle intent shutdown membership process => simp [hgone] at process
  | left spec state child intent shutdown membership process => simp [hgone] at process

theorem Inv.reported (h : Inv t s) : Inv t { s with mayExit := false } := by
  refine ⟨h.shape.transfer (.refl t) rfl rfl rfl rfl Iff.rfl, ⟨h.booked.old, h.booked.fits,
    h.booked.sought, h.booked.ours, h.booked.respawns, fun hx => (nomatch hx), fun l hl => ?_⟩,
    h.logged.congr (Nat.le_refl _) rfl (.inl rfl)⟩
  have := h.booked.early l hl
  simp only [Bool.toNat_false]
  omega

/-- After every event an exit held for a restart that will not come is let go. -/
theorem all_releaseSettledExit {P : Slot → Prop} :
    s.releaseSettledExit.All P ↔ P (if s.awaitsRespawn then s else { s with heldExit := none }) := by
  unfold releaseSettledExit
  split
  · exact Iff.rfl
  · exact all_releaseHeldExit

/-! ### Stops taken -/

theorem supersedeRetryAdoption_twice :
    s.supersedeRetryAdoption.supersedeRetryAdoption = s.supersedeRetryAdoption := by
  unfold supersedeRetryAdoption
  split
  · cases hl : s.launch with
    | none => simp_all
    | some launch => simp_all
  · simp_all

/-- A stop to be told to the pane: no retry is in flight, and no launch that restarts what it finds
ended. -/
theorem Inv.taken (h : Inv t s) (hn : ∀ n ∈ stop, s.handed.length = n)
    (hl : s.isUnsupervised → s.launch = none)
    (hcalm : stop.isSome → ∀ launch ∈ s.launch, launch.purpose.carriedIntent.isRestart = false) :
    Inv { t with stop, stopDue := true } s := by
  refine ⟨?_, h.booked, ⟨h.logged.bare, hn, h.logged.drop, h.logged.spec, h.logged.since⟩⟩
  cases h.shape with
  | gone process pane launch => exact .gone process pane launch
  | idle spec state process pane launch settled restarts _ drop =>
    exact .idle spec state process pane launch settled restarts (fun _ hdue => nomatch hdue) drop
  | launching spec launched process pane launch current prior _ _ drop =>
    exact .launching spec launched process pane launch current prior
      (fun hs => hcalm hs launched launch) (fun _ hdue => nomatch hdue) drop
  | live spec state handle intent shutdown membership process pane launch connected calm _ drop =>
    exact .live spec state handle intent shutdown membership process pane launch connected calm
      (fun _ hdue => nomatch hdue) drop
  | left spec state child intent shutdown membership process pane alone launch _ drop =>
    have hnone := hl (by simp [pane])
    exact .left spec state child intent shutdown membership process pane alone
      (fun l hl => by simp [hnone] at hl) (fun _ hdue => nomatch hdue) drop

theorem Inv.takenOver (h : Inv t s) (hn : ∀ n ∈ stop, s.handed.length = n)
    (hcalm : stop.isSome → ∀ launch ∈ s.launch, launch.purpose.carriedIntent.isRestart = false) :
    Inv { t with stop, stopDue := true } s.supersedeRetryAdoption := by
  have hsuperseded : s.supersedeRetryAdoption.handed = s.handed ∧
      ∀ launch ∈ s.supersedeRetryAdoption.launch, launch ∈ s.launch := by
    unfold supersedeRetryAdoption
    split
    · split
      · exact ⟨rfl, fun _ hl => (nomatch hl)⟩
      · exact ⟨rfl, fun _ hl => hl⟩
    · exact ⟨rfl, fun _ hl => hl⟩
  exact h.supersede.1.taken (by rwa [hsuperseded.1]) h.supersede.2 fun hs l hl =>
    hcalm hs l (hsuperseded.2 l hl)

/-- **A stop is taken**, of whatever the pane is in the middle of. -/
theorem stopPane_taken (h : Inv t s) (hn : ∀ n ∈ stop, s.handed.length = n)
    (hcalm : stop.isSome → ∀ launch ∈ s.launch, launch.purpose.carriedIntent.isRestart = false) :
    s.stopPane.All (Inv { t with stop, stopDue := false }) := by
  have htwice : s.stopPane = s.supersedeRetryAdoption.stopPane := by
    unfold stopPane
    rw [supersedeRetryAdoption_twice]
  rw [htwice]
  exact stopPane_spec (h.takenOver hn hcalm)

theorem forceKillPane_taken (h : Inv t s) (hn : ∀ n ∈ stop, s.handed.length = n)
    (hcalm : stop.isSome → ∀ launch ∈ s.launch, launch.purpose.carriedIntent.isRestart = false) :
    s.forceKillPane.All (Inv { t with stop, stopDue := false }) := by
  have htwice : s.forceKillPane = s.supersedeRetryAdoption.forceKillPane := by
    unfold forceKillPane
    rw [supersedeRetryAdoption_twice]
  rw [htwice]
  exact forceKillPane_spec (h.takenOver hn hcalm)

/-! ### Children found running when the service starts -/

theorem Inv.beginAdoption (h : Inv t s) (hstop : t.stop = none) (hdrop : t.drop = none)
    (hfree : s.holdsProcess = false) {r : Process} (hrow : s.process = some r)
    (hr : r.state ≠ .restarting) (record : HolderRecord) :
    Inv t ((s.beginAdoption record r.state).setState .starting) := by
  have hloose := h.loose hfree
  have hsettled : r.state.isSettled := by
    cases h.shape with
    | gone process => simp [hrow] at process
    | idle spec state process pane launch settled =>
      obtain rfl := Option.some.inj (hrow.symm.trans process)
      exact settled
    | launching spec launched process pane launch => simp [launch] at hfree
    | live spec state handle intent shutdown membership process pane => simp [pane] at hfree
    | left spec state child intent shutdown membership process pane => simp [pane] at hfree
  refine ⟨.launching r.spec _ (by simp [hrow]) hloose.pane rfl rfl ⟨hsettled, hr⟩ (by simp [hstop])
    (by simp [hstop]) (by simp [hdrop]),
    Booked.begin hloose.past rfl rfl rfl rfl ⟨_, rfl⟩ (by simp) rfl (fun _ => rfl)
      fun _ _ child hchild => ?_, h.logged.congr (Nat.le_succ _) rfl (.inl (by simp [hrow]))⟩
  have hbare := hloose.pane
  obtain ⟨p, hp, hpu⟩ := Option.bind_eq_some_iff.1 hchild
  simp [(hbare p hp).2] at hpu

/-- A running holder's child is taken over by the row that names it, or by one that is to go. -/
theorem adopt_spec (h : Inv t s) (hstop : t.stop = none) (hdrop : t.drop = none)
    (hfree : s.holdsProcess = false) {r : Process} (hrow : s.process = some r)
    (hr : r.state ≠ .restarting) (record : HolderRecord) :
    (s.adopt record false).All (Inv t) ∧
      (s.adopt record true).All (Inv { t with drop := some s.handed.length }) := by
  have hbegun := h.beginAdoption hstop hdrop hfree hrow hr record
  have hprior : (s.process.map (·.state)).getD .pending = r.state := by simp [hrow]
  simp only [adopt, hprior, Bool.false_eq_true, ↓reduceIte, Acts.all_bind, all_notify]
  refine ⟨hbegun, ?_⟩
  have hmarked := hbegun.markRetiring (by simp)
  have hl : (((s.beginAdoption record r.state).setState .starting).setMembership
    .retireOnExit).isStarting := by simp
  exact hmarked.record hl _ (fun _ => rfl) (fun _ => rfl) (fun _ => .inl rfl) hmarked.booked.early
    (fun _ hs => by simp [hstop] at hs) (fun _ _ hretires => hretires)
    (fun _ => ⟨id, fun l hr => ⟨hr.current, hr.purpose, hr.prior, hr.stop, hr.drop⟩⟩) rfl

end Muster.Supervisor.Slot
