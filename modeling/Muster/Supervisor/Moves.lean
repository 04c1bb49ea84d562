import Muster.Supervisor.Shape

/-!
# Moves — how a pane gets from one shape to another

Every handler lets go of what a pane holds before it takes something new: in between the pane is
`Loose`, shown as whatever it was.  The lemmas here say where each way out of that leads; handlers are
then walked through them.
-/

namespace Muster.Supervisor.Slot

variable {t t' : Terms} {s s' : Slot} {e : Posted}

@[simp] theorem bare_none : Bare none := fun _ h => nomatch h

@[simp] theorem bare_some {p : Pane} : Bare (some p) ↔ p.handle = none ∧ p.unsupervised = none := by
  simp [Bare]

/-- What is still owed to the pane is of generations handed out, and no search. -/
structure Past (posted : List Posted) (generation : ℕ) : Prop where
  old : ∀ e ∈ posted, e.tag ≤ generation
  sought : ∀ g, .located g ∉ posted

theorem Past.no_search {posted : List Posted} {generation : ℕ} (h : Past posted generation) :
    posted.any Posted.isSearch = false := by
  refine List.any_eq_false.2 fun e he hsearch => ?_
  cases e with
  | located g => exact h.sought g he
  | _ => cases hsearch

/-- The pane holds nothing, whatever it is shown as. -/
structure Loose (t : Terms) (s : Slot) : Prop where
  launch : s.launch = none
  pane : Bare s.pane
  row : s.process = none → s.pane = none
  past : Past s.posted s.generation
  logged : Logged t s

/-! ### The books -/

theorem Booked.past (h : Booked s) (hl : s.launch = none) :
    Past s.posted s.generation :=
  ⟨h.old, fun g hmem => by simpa [hl] using (h.sought g hmem).2.1⟩

theorem Booked.advance (past : Past s.posted s.generation)
    (hg : s'.generation = s.generation + 1) (hp : s'.posted = s.posted) (hl : s'.launch = none)
    (hx : s'.mayExit = false) : Booked s' := by
  have stale : ∀ e ∈ s'.posted, e.tag < s'.generation := by
    intro e he
    rw [hp] at he
    have := past.old e he
    omega
  constructor
  · exact fun e he => Nat.le_of_lt (stale e he)
  · exact fun e he h => absurd h (Nat.ne_of_lt (stale e he))
  · exact fun g hmem => absurd (hp ▸ hmem) (past.sought g)
  · exact fun record he => absurd rfl (Nat.ne_of_lt (stale _ he))
  · exact fun he => absurd rfl (Nat.ne_of_lt (stale _ he))
  · simp [hx]
  · simp [hl]

theorem Booked.await (past : Past s.posted s.generation)
    (hg : s'.generation = s.generation + 1) (hp : s'.posted = .respawn s'.generation :: s.posted)
    (hl : s'.launch = none) (hx : s'.mayExit = false) (hpane : Bare s'.pane)
    (hr : ∃ r ∈ s'.process, r.state = .restarting) : Booked s' := by
  refine ⟨?_, ?_, ?_, ?_, ?_, ?_, ?_⟩
  · intro e he
    rw [hp] at he
    obtain rfl | he := List.mem_cons.1 he
    · exact Nat.le_refl _
    · have := past.old e he
      omega
  · simp [hl]
  · simp [hp, past.sought]
  · simp [hl]
  · exact fun _ => ⟨hl, hpane, hr.imp fun _ h => h.imp_right .inl⟩
  · simp [hx]
  · simp [hl]

theorem Booked.begin {launch : PendingLaunch}
    (past : Past s.posted s.generation) (hg : s'.generation = s.generation + 1)
    (hp : s'.posted = e :: s.posted) (hl : s'.launch = some launch) (he : e.tag = s'.generation)
    (hs : e.Settles launch.purpose) (hre : e ≠ .respawn s'.generation) (hearly : launch.early = [])
    (hx : s'.mayExit → e.isSearch = false) (hours : ∀ record, e = .adopted s'.generation record →
      ∀ child ∈ s'.unsupervisedChild, record.childPid = child.pid) : Booked s' := by
  have stale : ∀ e ∈ s.posted, e.tag < s'.generation := by
    intro e he
    have := past.old e he
    omega
  refine ⟨?_, ?_, ?_, ?_, ?_, ?_, ?_⟩
  · intro a ha
    rw [hp] at ha
    obtain rfl | ha := List.mem_cons.1 ha
    · exact Nat.le_of_eq he
    · exact Nat.le_of_lt (stale a ha)
  · intro a ha htag l hl'
    rw [hp] at ha
    rw [hl] at hl'
    obtain rfl | ha := List.mem_cons.1 ha
    · cases hl'
      exact hs
    · exact absurd htag (Nat.ne_of_lt (stale a ha))
  · intro g hmem
    rw [hp] at hmem
    obtain rfl | hmem := List.mem_cons.1 hmem
    · refine ⟨he, by simp [hl], by simp [hp, past.sought], fun record ha => ?_⟩
      obtain ha | ha := List.mem_cons.1 (hp ▸ ha)
      · cases ha
      · exact absurd he (Nat.ne_of_lt (stale (.adopted g record) ha))
    · exact absurd hmem (past.sought g)
  · intro record ha _
    rw [hp] at ha
    obtain rfl | ha := List.mem_cons.1 ha
    · exact hours record rfl
    · exact absurd rfl (Nat.ne_of_lt (stale _ ha))
  · intro ha
    rw [hp] at ha
    obtain rfl | ha := List.mem_cons.1 ha
    · exact absurd rfl hre
    · exact absurd rfl (Nat.ne_of_lt (stale _ ha))
  · simp [hl]
  · intro l hl'
    rw [hl] at hl'
    cases hl'
    simp only [hearly, List.countP_nil, Nat.zero_add, hp, List.any_cons, past.no_search,
      Bool.or_false]
    cases hx' : s'.mayExit
    · cases e.isSearch <;> decide
    · simp [hx hx']

theorem Booked.keep (past : Past s.posted s.generation)
    (hg : s'.generation = s.generation) (hp : s'.posted = s.posted) (hl : s'.launch = none)
    (hr : .respawn s.generation ∈ s.posted →
      Bare s'.pane ∧ ∃ r ∈ s'.process, r.state = .restarting ∨ r.state = .blocked)
    (hx : s'.mayExit → s'.isLive) : Booked s' := by
  refine ⟨?_, ?_, ?_, ?_, ?_, ?_, ?_⟩
  · rw [hp, hg]
    exact past.old
  · simp [hl]
  · simp [hp, past.sought]
  · simp [hl]
  · rw [hg, hp]
    exact fun he => ⟨hl, hr he⟩
  · exact fun h => .inr (hx h)
  · simp [hl]

theorem Booked.remind (h : Booked s) (he : e.isReminder) (hold : e.tag ≤ s.generation) :
    Booked (s.post e) := by
  refine ⟨?_, ?_, ?_, ?_, ?_, h.exits, ?_⟩
  · intro a ha
    obtain rfl | ha := List.mem_cons.1 ha
    · exact hold
    · exact h.old a ha
  · intro a ha
    obtain rfl | ha := List.mem_cons.1 ha
    · cases a <;> simp_all [Posted.isReminder, Posted.Settles]
    · exact h.fits a ha
  · intro g ha
    have hne : ∀ a : Posted, a.isReminder = false → a ≠ e := fun a ha heq => by simp [heq, he] at ha
    have hmem := (List.mem_cons.1 ha).resolve_left (hne _ rfl)
    obtain ⟨hcurrent, hlaunch, honce, hfirst⟩ := h.sought g hmem
    refine ⟨hcurrent, hlaunch, ?_, fun record ha => ?_⟩
    · rw [post, List.erase_cons_tail (by simpa using (hne (.located g) rfl).symm), List.mem_cons]
      exact fun h => h.elim (hne _ rfl) honce
    · exact hfirst record ((List.mem_cons.1 ha).resolve_left (hne _ rfl))
  · intro record ha
    obtain heq | ha := List.mem_cons.1 ha
    · rw [← heq] at he
      cases he
    · exact h.ours record ha
  · intro ha
    obtain heq | ha := List.mem_cons.1 ha
    · rw [← heq] at he
      cases he
    · exact h.respawns ha
  · have hne : e.isSearch = false := by cases e <;> simp_all [Posted.isReminder, Posted.isSearch]
    simpa [hne] using h.early

theorem Logged.congr (h : Logged t s) (generation : s.generation ≤ s'.generation)
    (handed : s'.handed = s.handed)
    (spec : s'.process.map (·.spec) = s.process.map (·.spec) ∨ s'.process = none) :
    Logged t s' := by
  refine ⟨by rw [handed]; exact h.bare, by rw [handed]; exact h.stop, by rw [handed]; exact h.drop,
    ?_, Nat.le_trans h.since generation⟩
  intro r hr
  obtain spec | spec := spec
  · rw [Option.mem_def.1 hr, Option.map_some] at spec
    obtain ⟨r₀, hr₀, heq⟩ := Option.map_eq_some_iff.1 spec.symm
    exact heq ▸ h.spec r₀ hr₀
  · rw [spec] at hr
    cases hr

theorem Logged.terms (h : Logged t s) (stop : t'.stop = t.stop) (drop : t'.drop = t.drop)
    (spec : t'.spec = t.spec) (since : t'.since = t.since) : Logged t' s :=
  ⟨h.bare, stop ▸ h.stop, drop ▸ h.drop, spec ▸ h.spec, since ▸ h.since⟩

theorem Loose.terms (h : Loose t s) (stop : t'.stop = t.stop) (drop : t'.drop = t.drop)
    (spec : t'.spec = t.spec) (since : t'.since = t.since) : Loose t' s :=
  ⟨h.launch, h.pane, h.row, h.past, h.logged.terms stop drop spec since⟩

/-! ### The same shape -/

/-- `t'` promises no more than `t`. -/
structure Weaker (t t' : Terms) : Prop where
  since : t'.since ≤ t.since
  restarts : t'.restarts → t.restarts
  calm : t'.calm → t.calm
  stop : ∀ n ∈ t'.stop, n ∈ t.stop
  stopDue : t'.stop.isSome → t'.stopDue = false → t.stopDue = false
  drop : ∀ n ∈ t'.drop, n ∈ t.drop
  dropDue : t'.drop.isSome → t'.dropDue = false → t.dropDue = false

theorem isSome_of_sub {a b : Option ℕ} (h : ∀ n ∈ a, n ∈ b) (ha : a.isSome) : b.isSome := by
  obtain ⟨n, hn⟩ := Option.isSome_iff_exists.1 ha
  exact Option.isSome_iff_exists.2 ⟨n, h n hn⟩

/-- The same pane under terms that promise no more about stops and the stack; what they promise about
restarting and about the next exit is shown apart. -/
theorem Shape.adapt (h : Shape t s) (w : Weaker { t with restarts := t'.restarts, calm := t'.calm } t')
    (process : s'.process = s.process) (pane : s'.pane = s.pane) (launch : s'.launch = s.launch)
    (generation : s'.generation = s.generation)
    (restarts : t'.restarts → s.shows .restarting →
      (t.restarts → .respawn s.generation ∈ s.posted) → .respawn s.generation ∈ s'.posted)
    (respawn : .respawn s.generation ∈ s'.posted → .respawn s.generation ∈ s.posted)
    (calm : t'.calm → t.calm ∨ ∀ p ∈ s.pane, p.exitIntent.isRestart = false) : Shape t' s' := by
  have hstop := isSome_of_sub w.stop
  have hdrop := isSome_of_sub w.drop
  rw [← generation] at restarts respawn
  cases h with
  | gone process₀ pane₀ launch₀ =>
    exact .gone (process.trans process₀) (pane.trans pane₀) (launch.trans launch₀)
  | idle spec state process₀ pane₀ launch₀ settled restarts₀ stop drop =>
    refine .idle spec state (process.trans process₀) (pane ▸ pane₀) (launch.trans launch₀) settled
      (fun h₁ h₂ => restarts h₁ (by simp [process₀, h₂]) fun h => generation ▸ restarts₀ h h₂)
      (fun h₁ h₂ h₃ => stop (hstop h₁) (w.stopDue h₁ h₂) (generation ▸ respawn h₃))
      (fun h₁ => ?_)
    by_contra hdue
    have hdue' := drop (hdrop h₁)
    rw [w.dropDue h₁ (by simpa using hdue)] at hdue'
    cases hdue'
  | launching spec launched process₀ pane₀ launch₀ current prior calm stop drop =>
    exact .launching spec launched (process.trans process₀) (pane ▸ pane₀) (launch.trans launch₀)
      (current.trans generation.symm) (pane ▸ prior) (fun h => calm (hstop h))
      (fun h₁ h₂ => stop (hstop h₁) (w.stopDue h₁ h₂)) (fun h => pane ▸ drop (hdrop h))
  | live spec state handle intent shutdown membership process₀ pane₀ launch₀ connected calm₀ stop
      drop =>
    refine .live spec state handle intent shutdown membership (process.trans process₀)
      (pane.trans pane₀) (launch.trans launch₀) connected (fun h => ?_)
      (fun h₁ h₂ => stop (hstop h₁) (w.stopDue h₁ h₂)) (fun h₁ h₂ => drop (hdrop h₁) (w.dropDue h₁ h₂))
    exact (calm h).elim calm₀ fun hcalm => hcalm _ pane₀
  | left spec state child intent shutdown membership process₀ pane₀ alone launch₀ stop drop =>
    refine .left spec state child intent shutdown membership (process.trans process₀)
      (pane.trans pane₀) (launch ▸ alone) (fun l hl => ?_)
      (fun h₁ h₂ => stop (hstop h₁) (w.stopDue h₁ h₂)) (fun h₁ h₂ => drop (hdrop h₁) (w.dropDue h₁ h₂))
    have retry := launch₀ l (launch ▸ hl)
    refine ⟨retry.current.trans generation.symm, retry.purpose, retry.prior, ?_,
      fun h => retry.drop (hdrop h)⟩
    by_contra hs
    simpa [retry.stop] using hstop (Option.isSome_iff_ne_none.2 hs)

theorem Shape.transfer (h : Shape t s) (w : Weaker t t') (process : s'.process = s.process)
    (pane : s'.pane = s.pane) (launch : s'.launch = s.launch)
    (generation : s'.generation = s.generation)
    (respawn : .respawn s.generation ∈ s'.posted ↔ .respawn s.generation ∈ s.posted) :
    Shape t' s' :=
  h.adapt ⟨w.since, id, id, w.stop, w.stopDue, w.drop, w.dropDue⟩ process pane launch generation
    (fun hr _ hmem => respawn.2 (hmem (w.restarts hr))) respawn.1 fun hc => .inl (w.calm hc)

theorem Weaker.refl (t : Terms) : Weaker t t :=
  ⟨Nat.le_refl _, id, id, fun _ => id, fun _ => id, fun _ => id, fun _ => id⟩

theorem Inv.weaken (h : Inv t s) (w : Weaker t t') (spec : ∀ spec, t.spec spec → t'.spec spec) :
    Inv t' s :=
  ⟨h.shape.transfer w rfl rfl rfl rfl Iff.rfl, h.booked,
    ⟨h.logged.bare, fun n hn => h.logged.stop n (w.stop n hn), fun n hn => h.logged.drop n (w.drop n hn),
      fun r hr => spec r.spec (h.logged.spec r hr), Nat.le_trans w.since h.logged.since⟩⟩

theorem Inv.congr (h : Inv t s) (process : s'.process = s.process) (pane : s'.pane = s.pane)
    (generation : s'.generation = s.generation) (launch : s'.launch = s.launch)
    (posted : s'.posted = s.posted) (mayExit : s'.mayExit = s.mayExit)
    (handed : s'.handed = s.handed) : Inv t s' := by
  obtain ⟨shape, booked, logged⟩ := h
  refine ⟨shape.transfer (.refl t) process pane launch generation (by rw [posted]), ?_, ?_⟩
  · cases s
    cases s'
    subst process pane generation launch posted mayExit handed
    exact ⟨booked.old, booked.fits, booked.sought, booked.ours, booked.respawns, booked.exits, booked.early⟩
  · exact ⟨handed ▸ logged.bare, handed ▸ logged.stop, handed ▸ logged.drop, process ▸ logged.spec,
      generation ▸ logged.since⟩

theorem Inv.remind (h : Inv t s) (he : e.isReminder) (hold : e.tag ≤ s.generation) :
    Inv t (s.post e) := by
  refine ⟨h.shape.transfer (.refl t) rfl rfl rfl rfl ⟨fun hmem => ?_, List.mem_cons_of_mem _⟩,
    h.booked.remind he hold, h.logged.congr (Nat.le_refl _) rfl (.inl rfl)⟩
  obtain heq | hmem := List.mem_cons.1 hmem
  · rw [← heq] at he
    cases he
  · exact hmem

theorem Inv.scheduleForceStop (h : Inv t s) : Inv t s.scheduleForceStop := by
  unfold Slot.scheduleForceStop
  split
  · exact h.remind rfl (Nat.le_refl _)
  · exact h

/-! ### Ways out of holding nothing -/

theorem Loose.retire (h : Loose t s) : Inv t s.retirePane :=
  ⟨.gone rfl rfl rfl, Booked.advance h.past rfl rfl rfl rfl, h.logged.congr (Nat.le_succ _) rfl (.inr rfl)⟩

theorem bare_deactivate {pane : Option Pane} (h : Bare pane) :
    Bare (pane.map fun p => { p with handle := none, exitIntent := .followPolicy }) := by
  cases pane with
  | none => exact bare_none
  | some p => exact bare_some.2 ⟨rfl, (bare_some.1 h).2⟩

theorem Loose.stop (h : Loose t s) (hdrop : s.process.isSome → t.drop.isSome → t.dropDue) :
    Inv t s.settleStopped := by
  refine ⟨?_, Booked.advance h.past rfl rfl rfl rfl, h.logged.congr (Nat.le_succ _) rfl (.inl ?_)⟩
  · rcases hr : s.process with _ | ⟨spec, state⟩
    · exact .gone (by simp [hr]) (by simp [h.row hr]) rfl
    · refine .idle spec .exited (by simp [hr]) (bare_deactivate h.pane) rfl rfl (fun _ h => nomatch h)
        (fun _ _ hmem => ?_) (hdrop (by simp [hr]))
      have := h.past.old _ hmem
      simp only [Posted.tag, settleStopped, setState, deactivate, onPane, bumpGeneration,
        advanceGeneration] at this
      omega
  · cases hr : s.process <;> simp [hr]

theorem Loose.restartLater (h : Loose t s) (hrow : s.process.isSome)
    (hstop : t.stop.isSome → t.stopDue) (hdrop : t.drop.isSome → t.dropDue) :
    Inv t ((s.setState .restarting).deactivate).scheduleRestart := by
  obtain ⟨⟨spec, state⟩, hr⟩ := Option.isSome_iff_exists.1 hrow
  refine ⟨.idle spec .restarting (by simp [hr]) (bare_deactivate h.pane) rfl rfl
    (fun _ _ => List.mem_cons_self ..) (fun h₁ h₂ => ?_) hdrop,
    Booked.await h.past rfl rfl rfl rfl (bare_deactivate h.pane) (by simp [hr]),
    h.logged.congr (Nat.le_succ _) rfl (.inl (by simp [hr]))⟩
  rw [hstop h₁] at h₂
  cases h₂

theorem Loose.rest (h : Loose t s) (hx : s.mayExit = false) (hr : .respawn s.generation ∉ s.posted)
    (hstate : ∀ r ∈ s.process, r.state.isSettled ∧ (t.restarts → r.state ≠ .restarting))
    (hdrop : s.process.isSome → t.drop.isSome → t.dropDue) : Inv t s := by
  refine ⟨?_, Booked.keep h.past rfl rfl h.launch (fun hmem => absurd hmem hr) (by simp [hx]),
    h.logged⟩
  rcases hrow : s.process with _ | ⟨spec, state⟩
  · exact .gone hrow (h.row hrow) h.launch
  · obtain ⟨hsettled, hne⟩ := hstate _ hrow
    exact .idle spec state hrow h.pane h.launch hsettled (fun hf he => absurd he (hne hf))
      (fun _ _ => hr) (hdrop (by simp [hrow]))

theorem Loose.settle (h : Loose t s) (state : ProcessState) (hx : s.mayExit = false)
    (hr : .respawn s.generation ∉ s.posted) (hstate : state.isSettled)
    (hne : t.restarts → state ≠ .restarting) (hdrop : s.process.isSome → t.drop.isSome → t.dropDue) :
    Inv t (s.deactivate.setState state) := by
  refine Loose.rest ⟨h.launch, bare_deactivate h.pane, fun hnone => ?_, h.past,
    h.logged.congr (Nat.le_refl _) rfl (.inl ?_)⟩ hx hr (fun r hrow => ?_) fun hrow => hdrop ?_
  · have hrow : s.process = none := by simpa using hnone
    simp [h.row hrow]
  · cases hrow : s.process <;> simp [hrow]
  · obtain ⟨r₀, -, rfl⟩ := Option.map_eq_some_iff.1 hrow
    exact ⟨hstate, hne⟩
  · simpa using hrow

theorem Loose.block (h : Loose t s) (hrow : s.process.isSome) (hx : s.mayExit = false)
    (hstop : t.stop.isSome → t.stopDue = false → .respawn s.generation ∉ s.posted)
    (hdrop : t.drop.isSome → t.dropDue) : Inv t (s.setState .blocked) := by
  obtain ⟨⟨spec, state⟩, hrow⟩ := Option.isSome_iff_exists.1 hrow
  have hblocked : (s.setState .blocked).process = some ⟨spec, .blocked⟩ := by simp [hrow]
  exact ⟨.idle spec .blocked hblocked h.pane h.launch rfl (fun _ he => nomatch he) hstop hdrop,
    Booked.keep h.past rfl rfl h.launch (fun _ => ⟨h.pane, _, hblocked, .inr rfl⟩) (by simp [hx]),
    h.logged.congr (Nat.le_refl _) rfl (.inl (by simp [hrow]))⟩

theorem Bare.isLive (h : Bare s.pane) : s.isLive = false := by
  rcases hp : s.pane with _ | p
  · simp [hp]
  · simp [hp, (bare_some.1 (hp ▸ h)).1]

theorem Bare.isUnsupervised (h : Bare s.pane) : s.isUnsupervised = false := by
  rcases hp : s.pane with _ | p
  · simp [hp]
  · simp [hp, (bare_some.1 (hp ▸ h)).2]

theorem Loose.launchSpawn (h : Loose t s) {r : Process} (hrow : s.process = some r)
    (hstop : t.stop = none) (hdrop : t.drop = none) : Inv t (s.launchSpawn r) := by
  refine ⟨.launching r.spec _ (by simp [hrow]) h.pane rfl rfl trivial (by simp [hstop])
    (by simp [hstop]) (by simp [hdrop]),
    Booked.begin h.past rfl rfl rfl rfl ⟨_, rfl⟩ (by simp) rfl (fun _ => rfl) (by simp),
    ⟨?_, by simp [hstop], by simp [hdrop], ?_, Nat.le_succ_of_le h.logged.since⟩⟩
  · intro holding hmem
    obtain rfl | hmem := List.mem_cons.1 hmem
    · show (⟨s.isLive, s.isStarting, s.isUnsupervised⟩ : Holding) = _
      rw [h.pane.isLive, h.pane.isUnsupervised, isStarting, h.launch]
      rfl
    · exact h.logged.bare holding hmem
  · intro r' hr'
    obtain rfl : { r with state := .starting } = r' := by simpa [hrow] using hr'
    exact h.logged.spec r hrow

theorem Loose.leave (h : Loose t s) {r : Process} {p : Pane} {pid : ℕ} (hrow : s.process = some r)
    (hpane : s.pane = some p) (hx : s.mayExit = false) (hr : .respawn s.generation ∉ s.posted)
    (hstop : t.stop.isSome → t.stopDue)
    (hdrop : t.drop.isSome → t.dropDue = false → p.configMembership = .retireOnExit) :
    Inv t (s.recordUnsupervised pid) := by
  refine ⟨.left r.spec .unsupervised (.observed pid) .followPolicy p.shutdownGeneration
    p.configMembership (by simp [hrow]) (by simp [hpane]) (.inl ⟨rfl, rfl⟩) (by simp [h.launch])
    (fun h₁ h₂ => ?_) hdrop,
    Booked.keep h.past rfl rfl h.launch (fun hmem => absurd hmem hr) (by simp [hx]),
    h.logged.congr (Nat.le_refl _) rfl (.inl (by simp [hrow]))⟩
  rw [hstop h₁] at h₂
  cases h₂

theorem Loose.connect (h : Loose t s) {spec : ProcessSpec} {state : ProcessState} {handle : Handle}
    {intent : ExitIntent} {shutdown : ℕ} {membership : ConfigMembership}
    (process : s'.process = some ⟨spec, state⟩)
    (pane : s'.pane = some ⟨some handle, none, intent, shutdown, membership⟩)
    (launch : s'.launch = none) (generation : s'.generation = s.generation)
    (posted : s'.posted = s.posted) (handed : s'.handed = s.handed)
    (hspec : s.process.map (·.spec) = some spec)
    (hr : .respawn s.generation ∉ s.posted) (hstate : state.isConnected)
    (calm : t.calm → intent.isRestart = false)
    (stop : t.stop.isSome → t.stopDue = false → intent.isStop)
    (drop : t.drop.isSome → t.dropDue = false → membership = .retireOnExit) : Inv t s' :=
  ⟨.live spec state handle intent shutdown membership process pane launch hstate calm stop drop,
    Booked.keep h.past generation posted launch (fun hmem => absurd hmem hr)
      (fun _ => by simp [pane]),
    h.logged.congr (Nat.le_of_eq generation.symm) handed (.inl (by simp [process, hspec]))⟩

end Muster.Supervisor.Slot
