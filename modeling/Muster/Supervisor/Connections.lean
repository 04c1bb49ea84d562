import Muster.Supervisor.Launches

/-!
# Connections — what a connection reports, and its loss

A lost connection becomes a launch that takes the child back, carrying what its exit was to mean; if
that fails the child is left unsupervised, or taken for gone.  Outputs that came before a launch
settled are handed over once it has.
-/

namespace Muster.Supervisor.Slot

variable {t : Terms} {s : Slot} {output : ProcessOutput} {generation : ℕ}

/-! ### Leaving a child unsupervised -/

theorem leaveUnsupervised_spec (h : Loose t s) (hrow : s.process.isSome) (hx : s.mayExit = false)
    (hr : .respawn s.generation ∉ s.posted) (hstop : t.stop.isSome → t.stopDue)
    (hdrop : t.drop.isSome → t.dropDue = false →
      ∃ p, s.pane = some p ∧ p.configMembership = .retireOnExit) (pid : ℕ) :
    (s.leaveUnsupervised pid).All fun r =>
      (r.1 = true → Inv t r.2 ∧ r.2.launch = none ∧ r.2.isUnsupervised) ∧
      (r.1 = false → r.2 = s) := by
  obtain ⟨r, hrow'⟩ := Option.isSome_iff_exists.1 hrow
  have hleave : (s.leaveUnsupervised pid).All fun r => r = (false, s) ∨
      r.1 = true ∧ Inv t r.2 ∧ r.2.launch = none ∧ r.2.isUnsupervised := by
    simp only [leaveUnsupervised, hrow, Acts.all_bind, Acts.all_query, ↓reduceIte,
      Bool.false_eq_true, Acts.all_pure, true_or, and_true]
    split
    · next hp =>
      obtain ⟨p, hp⟩ := Option.isSome_iff_exists.1 hp
      refine .inr ⟨rfl, h.leave hrow' hp hx hr hstop fun h₁ h₂ => ?_, h.launch, by simp [hp]⟩
      obtain ⟨p', hp', hm⟩ := hdrop h₁ h₂
      rw [hp] at hp'
      cases hp'
      exact hm
    · next hp =>
      have hterminal : s.installTerminal none = { s with pane := some (.new none) } := by
        simp [hrow]
      rw [hterminal]
      have hloose : Loose t { s with pane := some (.new none) } :=
        ⟨h.launch, bare_some.2 ⟨rfl, rfl⟩, fun hnone => by simp [hrow'] at hnone, h.past,
          h.logged.congr (Nat.le_refl _) rfl (.inl rfl)⟩
      refine .inr ⟨rfl, hloose.leave hrow' rfl hx hr hstop fun h₁ h₂ => ?_, h.launch, rfl⟩
      obtain ⟨p', hp', -⟩ := hdrop h₁ h₂
      simp [hp'] at hp
  refine hleave.mono fun r hr => ⟨fun htrue => ?_, fun hfalse => ?_⟩
  · obtain rfl | hr := hr
    · cases htrue
    · exact hr.2
  · obtain rfl | hr := hr
    · rfl
    · simp [hfalse] at hr

theorem leaveAgain_spec (h : Inv t s) (hl : s.launch = none) (hu : s.isUnsupervised)
    (hstop : t.stop = none) (pid : ℕ) :
    (s.leaveUnsupervised pid).All fun r => Inv t r.2 ∧ r.2.launch = none := by
  obtain ⟨spec, state, child, intent, shutdown, membership, hrow, hpane, -⟩ := h.left hu
  simp only [leaveUnsupervised, hpane, Option.isSome_some, Acts.all_bind, Acts.all_query, ↓reduceIte,
    Bool.false_eq_true, Acts.all_pure]
  exact ⟨⟨h.stay hl (.observed pid) .followPolicy shutdown hrow hpane (by simp [hrow])
    (by simp [hpane]) hl rfl rfl rfl rfl (.inl ⟨rfl, rfl⟩) (fun hs => by simp [hstop] at hs) rfl, hl⟩,
    h, hl⟩

theorem adoptionFailedUnsupervised_spec (h : Inv t s) (record : HolderRecord) (error : String) :
    (s.adoptionFailedUnsupervised record error).All fun s' => Inv t s' ∧
      s'.launch = s.launch ∧ s'.pane = s.pane := by
  have htold : Inv t { s with
      retry := some { told := some record.holderPid, current := (s.retry.map (·.current)).getD 0 } } :=
    h.congr rfl rfl rfl rfl rfl rfl rfl
  simp only [adoptionFailedUnsupervised]
  split
  · exact ⟨htold.scheduleAdoptionRetry, rfl, rfl⟩
  · exact ⟨htold.scheduleAdoptionRetry, rfl, rfl⟩

/-! ### Lost connections -/

theorem reportLeft_spec (h : Inv t s) (pid : Option ℕ) (failure : Option (HolderRecord × String)) :
    (s.reportLeft pid failure).All fun s' => Inv t s' ∧ s'.launch = s.launch ∧ s'.pane = s.pane := by
  unfold reportLeft
  split
  · exact adoptionFailedUnsupervised_spec h _ _
  · exact ⟨h, rfl, rfl⟩

theorem all_reportEnded {P : Unit → Prop} (pid : Option ℕ)
    (failure : Option (HolderRecord × String)) : (s.reportEnded pid failure).All P ↔ P () := by
  unfold reportEnded
  split <;> simp

theorem ExitIntent.isRestart_of_isStop {intent : ExitIntent} (h : intent.isStop) :
    intent.isRestart = false := by
  cases intent <;> simp_all [ExitIntent.isStop, ExitIntent.isRestart]

/-- **A reconnection that failed.**  What the pane carried decides: a stop goes on against the child
left unsupervised, and an exit means what it was to mean. -/
theorem reconnectFailed_spec (h : Loose t s) {p : Pane} (hrow : s.process.isSome)
    (hpane : s.pane = some p) (hx : s.mayExit = false) (hr : .respawn s.generation ∉ s.posted)
    (carried : CarriedPane) (hstop : t.stop.isSome → t.stopDue = false → carried.intent.isStop)
    (hcalm : t.stop.isSome → carried.intent.isRestart = false)
    (hdrop : t.drop.isSome →
      carried.membership = .retireOnExit ∧ p.configMembership = .retireOnExit)
    (hfollow : t.restarts → t.sound ∨ carried.intent.isRestart = false)
    (failure : Option (HolderRecord × String)) :
    (s.reconnectFailed carried failure).All (Inv t) := by
  have hloose : Loose { t with stopDue := true } s := h.terms rfl rfl rfl rfl
  have hleave : (s.leaveCarried carried.pid).All fun r =>
      (r.1 = true → Inv { t with stopDue := true } r.2 ∧ r.2.launch = none ∧ r.2.isUnsupervised) ∧
      (r.1 = false → r.2 = s) := by
    unfold leaveCarried
    split
    · exact leaveUnsupervised_spec hloose hrow hx hr (fun _ => rfl)
        (fun hd _ => ⟨p, hpane, (hdrop hd).2⟩) _
    · exact ⟨fun h => (nomatch h), fun _ => rfl⟩
  refine hleave.bind fun r ⟨htrue, hfalse⟩ => ?_
  obtain ⟨running, s'⟩ := r
  cases running with
  | true =>
    obtain ⟨h', hl', hu'⟩ := htrue rfl
    refine (reportLeft_spec h' carried.pid failure).bind fun s'' ⟨h'', hl'', hp''⟩ => ?_
    unfold continueStopUnsupervised
    split
    · exact (stopUnsupervised_spec h'' (hl''.trans hl') (by rwa [isUnsupervised, hp'']) false).mono
        fun _ hs => hs.unpaid (t := t)
    · next hnostop =>
      refine h''.weaken ⟨Nat.le_refl _, id, id, fun _ => id, fun hs hdue => ?_, fun _ => id,
        fun _ => id⟩ fun _ => id
      exact absurd (hstop hs hdue) hnostop
  | false =>
    obtain rfl : s' = s := hfalse rfl
    show (s'.reportEnded _ _ >>= fun _ => _).All _
    rw [Acts.all_bind, all_reportEnded]
    refine applyExit_spec (s := s'.restorePane carried) (p := ⟨p.handle, p.unsupervised,
      carried.intent, p.shutdownGeneration, carried.membership⟩) ⟨h.launch, ?_, ?_, h.past, ?_⟩ hrow
      (by simp [hpane]) hx hr hstop
      (fun hs _ => hcalm hs) (fun hd _ => (hdrop hd).1) (fun hd _ => .inr (hdrop hd).1) hfollow _
    · have := bare_some.1 (hpane ▸ h.pane)
      simpa [hpane] using this
    · intro hnone
      simp [show s'.process = none from hnone] at hrow
    · exact h.logged.congr (Nat.le_refl _) rfl (.inl rfl)

/-- A pane that loses its connection takes what its exit was to mean into the launch that looks for
the child; its generation is over. -/
theorem reconnect_spec (h : Inv t s) (hlive : s.isLive)
    (hcalm : t.stop.isSome → t.stopDue → t.calm)
    (hdrop : t.drop.isSome → t.dropDue → ∀ p ∈ s.pane, p.configMembership = .retireOnExit)
    (hfollow : t.restarts → t.sound ∨ t.calm) :
    s.reconnect.All (Inv { t with since := s.generation + 1 }) := by
  obtain ⟨spec, state, handle, intent, shutdown, membership, hrow, hpane, hl, connected, calm, stop,
    drop⟩ := h.live hlive
  have hquiet : t.stop.isSome → intent.isRestart = false := by
    intro hs
    cases hdue : t.stopDue with
    | true => exact calm (hcalm hs hdue)
    | false => exact ExitIntent.isRestart_of_isStop (stop hs hdue)
  have hretire : t.drop.isSome → membership = .retireOnExit := by
    intro hd
    cases hdue : t.dropDue with
    | true => exact hdrop hd hdue _ hpane
    | false => exact drop hd hdue
  have hloose : Loose { t with since := s.generation + 1 }
      (s.onPane ({ · with handle := none })).bumpGeneration :=
    ⟨rfl, by simp [hpane], by simp [hrow],
      ⟨fun e he => Nat.le_succ_of_le (h.booked.old e he), (h.booked.past hl).sought⟩,
      ⟨h.logged.bare, h.logged.stop, h.logged.drop, h.logged.spec, Nat.le_refl _⟩⟩
  have hstale : .respawn (s.generation + 1) ∉ s.posted := fun hmem =>
    absurd (h.booked.old _ hmem) (Nat.not_succ_le_self _)
  unfold reconnect
  split
  · next hnone => simp [hpane] at hnone
  · next pane hsome =>
    obtain rfl : _ = pane := Option.some.inj (hpane.symm.trans hsome)
    split
    · next hnone => cases hnone
    · next handle' hhandle =>
      cases hhandle
      dsimp only
      split
      · refine ⟨.launching spec _ (by simp [hrow]) (by simp [hpane]) rfl rfl ?_ hquiet
          (fun h₁ h₂ => .inr (.inr ⟨rfl, stop h₁ h₂⟩)) (fun hd => ⟨hretire hd, ?_⟩),
          Booked.begin (h.booked.past hl) rfl rfl rfl rfl ⟨_, rfl⟩ (by simp) rfl
            (fun h => nomatch h) (by simp),
          hloose.logged.congr (Nat.le_refl _) rfl (.inl (by simp [hrow]))⟩
        · simpa [PriorFits, PendingLaunch.new, hrow, hpane] using connected
        · simpa [hpane] using hretire hd
      · exact reconnectFailed_spec hloose (p := ⟨none, none, intent, shutdown, membership⟩)
          (by simp [hrow]) (by simp [hpane]) rfl hstale _ stop hquiet
          (fun hd => ⟨hretire hd, hretire hd⟩) (fun h => (hfollow h).imp_right calm) none

/-! ### Outputs -/

theorem countP_keep (launch : PendingLaunch) (output : ProcessOutput) :
    (launch.keep output).early.countP ProcessOutput.isExit ≤
      launch.early.countP ProcessOutput.isExit + output.isExit.toNat := by
  have hone : [output].countP ProcessOutput.isExit = output.isExit.toNat := by
    cases h : output.isExit <;> simp [h]
  unfold PendingLaunch.keep
  split
  · have := (List.eraseP_sublist (p := ProcessOutput.droppable) (l := launch.early)).countP_le
      (p := ProcessOutput.isExit)
    simp only [List.countP_append, hone]
    omega
  · simp only [List.countP_append, hone]
    exact Nat.le_refl _

theorem Inv.keepEarly (h : Inv t s) (hl : s.isStarting)
    (hexit : output.isExit → s.mayExit = false ∧ s.posted.any Posted.isSearch = false ∧
      ∀ launch ∈ s.launch, launch.early.countP ProcessOutput.isExit = 0) :
    Inv t (s.keepEarly output) := by
  have hkeep : ∀ launch : PendingLaunch, (launch.keep output).generation = launch.generation ∧
      (launch.keep output).priorState = launch.priorState ∧
      (launch.keep output).purpose = launch.purpose ∧ (launch.keep output).intent = launch.intent ∧
      (launch.keep output).membership = launch.membership := by
    intro launch
    unfold PendingLaunch.keep
    split <;> exact ⟨rfl, rfl, rfl, rfl, rfl⟩
  refine h.record hl _ (fun l => (hkeep l).1) (fun l => (hkeep l).2.1)
    (fun l => .inl (hkeep l).2.2.1.symm) (fun launch hlaunch => ?_) (fun l _ h₁ h₂ => ?_)
    (fun l _ hr => ?_) (fun _ => ⟨id, fun l hr => ?_⟩) rfl
  · have hcount := countP_keep launch output
    have hearly := h.booked.early launch hlaunch
    cases ho : output.isExit with
    | false =>
      simp only [ho, Bool.toNat_false, Nat.add_zero] at hcount
      omega
    | true =>
      obtain ⟨hx, hsearch, hzero⟩ := hexit ho
      simp only [ho, hzero launch hlaunch, Bool.toNat_true] at hcount
      simpa [hx, hsearch] using hcount
  · simpa [Stops, hkeep l] using h₂ h₁
  · simpa only [Retires, hkeep l] using hr
  · exact ⟨(hkeep l).1.trans hr.current, (hkeep l).2.2.1.trans hr.purpose,
      (hkeep l).2.1.trans hr.prior, hr.stop, fun hd => (hkeep l).2.2.2.2 ▸ hr.drop hd⟩

/-- What the pane may be told by its connection: promises due are calm about restarts, and so are
exits unless the definition is sound. -/
structure Settling (t : Terms) : Prop where
  stop : t.stop.isSome → t.stopDue → t.calm
  drop : t.drop.isSome → t.dropDue → t.calm
  follow : t.restarts → t.sound ∨ t.calm

/-- **An output of a connection.**  A connection reports one exit, while it is live or its launch is
in flight. -/
theorem handleOutput_spec (h : Inv t s)
    (hsettling : output.isExit ∨ output.isUnreadable → Settling t)
    (hexit : output.isExit → s.generation = generation → s.mayExit = false ∧
      (s.launch = none → s.isLive) ∧ s.posted.any Posted.isSearch = false ∧
      ∀ launch ∈ s.launch, launch.early.countP ProcessOutput.isExit = 0)
    (hread : output.isUnreadable → t.drop.isSome → t.dropDue = false) :
    (s.handleOutput generation output).All (Inv t) := by
  unfold handleOutput
  split
  · exact h
  · next hcurrent =>
    replace hcurrent : s.generation = generation := by simpa using hcurrent
    split
    · next hlaunch =>
      refine h.keepEarly ?_ fun ho => ⟨(hexit ho hcurrent).1, (hexit ho hcurrent).2.2⟩
      cases hl : s.launch <;> simp_all
    · next hlaunch =>
      have hl : s.launch = none := by
        cases h.shape with
        | gone process pane launch => exact launch
        | idle spec state process pane launch => exact launch
        | launching spec launched process pane launch current =>
          simp [launch, current, hcurrent] at hlaunch
        | live spec state handle intent shutdown membership process pane launch => exact launch
        | left spec state child intent shutdown membership process pane alone launch =>
          cases hl : s.launch with
          | none => rfl
          | some l => simp [hl, (launch l hl).current, hcurrent] at hlaunch
      split
      · next reason =>
        rw [Acts.all_bind, all_notify]
        have hs := hsettling (.inr rfl)
        cases hlive : s.isLive with
        | true =>
          refine (reconnect_spec h hlive hs.stop (fun hd hdue => ?_) hs.follow).mono fun s' h' =>
            h'.weaken ⟨?_, id, id, fun _ => id, fun _ => id, fun _ => id, fun _ => id⟩ fun _ => id
          · simp [hread rfl hd] at hdue
          · exact Nat.le_succ_of_le h.logged.since
        | false =>
          unfold reconnect
          split
          · exact h
          · next pane hpane =>
            split
            · exact h
            · next handle hhandle => simp [hpane, hhandle] at hlive
      · next outcome =>
        have hs := hsettling (.inl rfl)
        obtain ⟨hx, hlive, -⟩ := hexit rfl hcurrent
        exact handleExit_spec h (hlive hl) hx hs.stop hs.drop hs.follow outcome
      all_goals exact h

/-- What the outputs kept for the connection of `generation` may still do: none of them is an exit, or
the connection is over, or it is live and they tell its one exit. -/
def Replays (s : Slot) (generation : ℕ) (early : List ProcessOutput) : Prop :=
  early.countP ProcessOutput.isExit = 0 ∨ s.generation ≠ generation ∨
    s.launch = none ∧ s.isLive ∧ s.mayExit = false ∧ early.countP ProcessOutput.isExit ≤ 1

theorem handleOutput_replays (h : Inv t s) (hs : Settling t) {rest : List ProcessOutput}
    (hread : output.isUnreadable → t.drop.isSome → t.dropDue = false)
    (hreplays : s.Replays generation (output :: rest)) :
    (s.handleOutput generation output).All fun s' => Inv t s' ∧ s'.Replays generation rest := by
  have hle := List.countP_cons (p := ProcessOutput.isExit) (l := rest) (a := output)
  obtain hzero | hover | ⟨hl, hlive, hx, hone⟩ := hreplays
  · have hout : output.isExit = false := by
      by_contra hout
      simp [hle, hout] at hzero
    refine (handleOutput_spec h (fun _ => hs) (by simp [hout]) hread).mono fun s' h' =>
      ⟨h', .inl ?_⟩
    simpa [hle, hout] using hzero
  · simp only [handleOutput, hover, ne_eq, not_false_eq_true, ↓reduceIte, Acts.all_pure]
    exact ⟨h, .inr (.inl hover)⟩
  · have hsearch := (h.booked.past hl).no_search
    by_cases hcurrent : s.generation = generation
    · cases hout : output.isExit with
      | true =>
        refine (handleOutput_spec h (fun _ => hs) (fun _ _ => ⟨hx, fun _ => hlive, hsearch, by simp [hl]⟩)
          hread).mono fun s' h' => ⟨h', .inl ?_⟩
        simp only [hle, hout, ↓reduceIte] at hone
        omega
      | false =>
        simp only [hle, hout, Bool.false_eq_true, ↓reduceIte, Nat.add_zero] at hone
        have hrest : s.Replays generation rest := .inr (.inr ⟨hl, hlive, hx, hone⟩)
        cases output with
        | exited outcome => cases hout
        | unreadable reason =>
          simp only [handleOutput, hcurrent, hl, ne_eq, not_true_eq_false, ↓reduceIte,
            Option.any_none, Bool.false_eq_true, Acts.all_bind, all_notify]
          refine (reconnect_spec h hlive hs.stop (fun hd hdue => ?_) hs.follow).mono fun s' h' =>
            ⟨h'.weaken ⟨Nat.le_succ_of_le h.logged.since, id, id, fun _ => id, fun _ => id,
              fun _ => id, fun _ => id⟩ fun _ => id, .inr (.inl ?_)⟩
          · simp [hread rfl hd] at hdue
          · have : s.generation + 1 ≤ s'.generation := h'.logged.since
            omega
        | _ =>
          simp only [handleOutput, hcurrent, hl, ne_eq, not_true_eq_false, ↓reduceIte,
            Option.any_none, Bool.false_eq_true, Acts.all_bind, all_notify, Acts.all_pure]
          exact ⟨h, hrest⟩
    · simp only [handleOutput, hcurrent, ne_eq, not_false_eq_true, ↓reduceIte, Acts.all_pure]
      exact ⟨h, .inr (.inl hcurrent)⟩

/-- **The outputs kept while the launch was in flight.**  By induction on them: a lost connection among
them starts a new generation, which the later ones are not for. -/
theorem replay_spec (hs : Settling t) (early : List ProcessOutput)
    (hread : t.drop.isSome → early.any ProcessOutput.isUnreadable → t.dropDue = false) :
    ∀ {s}, Inv t s → s.Replays generation early → (replay generation early s).All (Inv t) := by
  induction early with
  | nil => exact fun h _ => h
  | cons output rest ih =>
    intro s h hreplays
    have hfirst : output.isUnreadable → t.drop.isSome → t.dropDue = false := fun hu hd =>
      hread hd (by simp [hu])
    refine (handleOutput_replays h hs hfirst hreplays).bind fun s' ⟨h', hrest⟩ =>
      ih (fun hd hu => hread hd ?_) h' hrest
    rw [List.any_cons, hu, Bool.or_true]

end Muster.Supervisor.Slot
