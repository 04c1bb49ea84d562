import Muster.Supervisor.Settles

/-!
# Adoptions — children that run already are taken over

An adoption is of the child of a lost connection, of one that ran before the service did, or of one
left unsupervised, which its pane records until the adoption succeeds.
-/

namespace Muster.Supervisor.Slot

variable {t : Terms} {s : Slot} {launch : PendingLaunch} {record : HolderRecord}

/-! ### Adoptions settling -/

theorem collectOnceStopped_spec (h : Inv t s) (record : HolderRecord) :
    (s.collectOnceStopped record).All (Inv t) := by
  unfold collectOnceStopped
  refine (Acts.all_of_forall _ fun _ => trivial : s.runningUnsupervisedPid.All fun _ => True).bind
    fun pid _ => ?_
  split
  · split
    · exact h.congr rfl rfl rfl rfl rfl rfl rfl
    · exact h
  · exact h

theorem settleStaleAdoption_spec (h : Inv t s) {generation : ℕ}
    (htake : s.takeLaunch generation = none) (record : HolderRecord)
    (result : Except String Handle) :
    (s.settleStaleAdoption generation record result).All (Inv t) := by
  have hcleared : Inv t { s with stoppedAdoption := none } := h.congr rfl rfl rfl rfl rfl rfl rfl
  unfold settleStaleAdoption
  rw [h.forgetLaunch htake]
  split
  · dsimp only
    split
    · exact collectOnceStopped_spec hcleared record
    · rw [Acts.all_bind]
      exact Acts.all_of_forall _ fun _ => hcleared
  · dsimp only
    split
    · exact h
    · rw [Acts.all_bind]
      exact Acts.all_of_forall _ fun _ => h

/-- An adoption that carries nothing is of a child its pane does not know, or the retry of one left
unsupervised. -/
theorem Inv.adopting (h : Inv t s) (ht : t.Plain)
    (hlaunch : s.launch = some launch) (hpurpose : launch.purpose = .adopt none) :
    s.isUnsupervised = false ∧
      (launch.priorState.isSettled ∧ launch.priorState ≠ .restarting) ∧
      (t.stop.isSome → launch.intent = some .stop ∨ launch.intent = some .kill) ∧
      (t.drop.isSome → launch.membership = some .retireOnExit) ∨
    s.isUnsupervised ∧ Retry t s launch := by
  refine (h.inFlight hlaunch).imp_left fun ⟨hu, prior, _, stop, drop⟩ =>
    ⟨hu, ?_, fun hs => ?_, fun hd => ?_⟩
  · simpa [PriorFits, hpurpose] using prior
  · have := stop hs ht.stopDue
    simpa [Stops, hpurpose, LaunchPurpose.carriedIntent, ExitIntent.isStop] using this
  · have := drop hd
    simpa [Retires, hpurpose] using this

/-- A child unknown to its pane could not be adopted: it is left unsupervised, or gone and the pane
at rest as before. -/
theorem adoptionFailed_spec (ht : t.Plain) (h : Loose t s) (hrow : s.process.isSome)
    (hx : s.mayExit = false) (hr : .respawn s.generation ∉ s.posted)
    (hsettled : launch.priorState.isSettled) (hne : launch.priorState ≠ .restarting)
    (hstop : t.stop.isSome → launch.intent = some .stop ∨ launch.intent = some .kill)
    (hdrop : t.drop.isSome → launch.membership = some .retireOnExit) (record : HolderRecord)
    (error : String) : (s.adoptionFailed launch none record error).All (Inv t) := by
  have hloose : Loose t.owed (s.setState launch.priorState) :=
    ⟨h.launch, h.pane, fun hnone => h.row (by simpa using hnone), h.past,
      .congr (h.logged.terms rfl rfl rfl rfl) (Nat.le_refl _) rfl
        (.inl (by cases hp : s.process <;> simp [hp]))⟩
  have hrest : Inv t.owed (s.setState launch.priorState) := by
    refine hloose.rest hx hr (fun r hr => ?_) fun _ _ => rfl
    obtain ⟨r₀, -, rfl⟩ := Option.map_eq_some_iff.1 hr
    exact ⟨hsettled, fun _ => hne⟩
  unfold adoptionFailed
  refine (leaveUnsupervised_spec hloose (by simpa using hrow) hx hr (fun _ => rfl)
    (fun _ h => nomatch h) record.childPid).bind fun r ⟨htrue, hfalse⟩ => ?_
  obtain ⟨running, s'⟩ := r
  cases running with
  | true =>
    refine (adoptionFailedUnsupervised_spec (htrue rfl).1 record error).bind fun s'' h' => ?_
    exact applyPending_owed ht h'.1 hstop hdrop none
  | false =>
    obtain rfl : s' = _ := hfalse rfl
    exact applyPending_owed ht hrest hstop hdrop none

/-! ### Retries settling -/

theorem Inv.retryEnded (h : Inv t s) (hu : s.isUnsupervised)
    (hsought : ∀ g, .located g ∉ s.posted) :
    Inv t (s.endLaunch false) := by
  obtain ⟨spec, state, child, intent, shutdown, membership, hrow, hpane, alone, -, stop, drop⟩ :=
    h.left hu
  have hr : .respawn s.generation ∉ s.posted := h.no_respawn (by simp [hpane])
  refine ⟨.left spec state child intent shutdown membership hrow hpane
    (alone.imp_right fun h => ⟨h.1, rfl⟩) (fun _ hl => (nomatch hl)) stop drop,
    Booked.keep ⟨h.booked.old, hsought⟩ rfl rfl rfl (fun hmem => absurd hmem hr) (by simp),
    h.logged.congr (Nat.le_refl _) rfl (.inl rfl)⟩

theorem retryFailed_spec (ht : t.Plain) (h : Inv t s) (hl : s.launch = none)
    (hu : s.isUnsupervised) (hshown : s.setState launch.priorState = s)
    (hstop : t.stop = none) (hdrop : t.drop.isSome → launch.membership ≠ some .tracked)
    (record : HolderRecord) (error : String) :
    (s.adoptionFailed launch none record error).All (Inv t) := by
  have hpending : ∀ s', Inv t s' →
      (s'.applyPending launch.membership none launch.intent).All (Inv t) := by
    intro s' h'
    refine (applyPending_spec h' _ none _ (fun hs => by simp [hstop] at hs)
      (fun _ => ⟨hstop, ht.calm⟩) (fun _ hdue => by simp [ht.dropDue] at hdue) hdrop).mono
      fun _ h'' => h''.weaken ⟨Nat.le_refl _, id, id, fun _ => id, fun _ _ => rfl, fun _ => id,
        fun _ _ => rfl⟩ fun _ => id
  unfold adoptionFailed
  rw [hshown]
  refine (leaveAgain_spec h hl hu hstop record.childPid).bind fun r ⟨h', _⟩ => ?_
  obtain ⟨running, s'⟩ := r
  cases running with
  | true =>
    refine (adoptionFailedUnsupervised_spec h' record error).bind fun s'' h'' => ?_
    exact hpending s'' h''.1
  | false => exact hpending s' h'

theorem Inv.retryInstalled (h : Inv t s) (ht : t.Plain)
    (hlaunch : s.launch = some launch) (hretry : Retry t s launch) (hu : s.isUnsupervised)
    (hsought : ∀ g, .located g ∉ s.posted)
    (hkeep : t.drop.isSome → launch.membership = some .retireOnExit ∧
      launch.early.any ProcessOutput.isUnreadable = false) (handle : Handle) (generation : ℕ) :
    (replay generation launch.early ((s.endLaunch true).installAdopted handle none) >>= fun s =>
      s.applyPending launch.membership (launch.suspend.filter fun _ => s.runsLaunch generation)
        launch.intent).All (Inv t) := by
  obtain ⟨spec, state, child, intent, shutdown, membership, hrow, hpane, -⟩ := h.left hu
  let s' : Slot := { s.endLaunch true with retry := none, pane := none }
  have hloose : Loose t s' := ⟨rfl, bare_none, fun _ => rfl, ⟨h.booked.old, hsought⟩,
    h.logged.congr (Nat.le_refl _) rfl (.inl rfl)⟩
  have hinstalled : (s.endLaunch true).installAdopted handle none = s'.installPane handle := by
    simp [installAdopted, s', hrow]
  rw [hinstalled]
  have hearly : launch.early.countP ProcessOutput.isExit + s'.mayExit.toNat ≤ 1 := by
    simpa [s'] using Nat.le_trans (Nat.le_add_right _ _) (h.booked.early launch hlaunch)
  refine (installPane_spec hloose (by simp [s', hrow]) (h.no_respawn_launch hlaunch) hearly
    (fun hd => (hkeep hd).2) handle generation).bind fun s'' h'' => ?_
  exact applyPending_owed ht h'' (fun hs => by simp [hretry.stop] at hs) (fun hd => (hkeep hd).1) _

/-- **An adoption settles.**  Where the stack dropped the row, the launch of an adoption that carries
nothing over must say so and its connection must not be lost already. -/
theorem settleAdoption_spec (h : Inv t s) (ht : t.Plain) {generation : ℕ}
    (hmem : .adopted generation record ∈ s.posted) (hfollow : t.restarts → t.sound ∨
      ∀ launch ∈ s.launch, launch.purpose.carriedIntent.isRestart = false)
    (result : Except String Handle)
    (hkeep : t.drop.isSome → result.isOk → ∀ launch ∈ s.takeLaunch generation,
      launch.purpose = .adopt none → launch.membership = some .retireOnExit ∧
        launch.early.any ProcessOutput.isUnreadable = false) :
    ((s.receive (.adopted generation record)).settleAdoption generation record result).All
      (Inv t) := by
  have hreceive := h.receive (e := .adopted generation record) fun _ => by simp
  unfold settleAdoption
  split
  · next htake => exact settleStaleAdoption_spec hreceive htake record result
  · next launch htake =>
    obtain ⟨hg, hlaunch⟩ := takeLaunch_eq_some htake
    have hg : s.generation = generation := hg
    have hlaunch : s.launch = some launch := hlaunch
    obtain ⟨carried, hpurpose⟩ := h.booked.fits _ hmem hg.symm launch hlaunch
    have hsought : ∀ g, .located g ∉ s.posted := by
      intro g hg'
      obtain ⟨rfl, -, -, hfirst⟩ := h.booked.sought g hg'
      exact hfirst record (hg ▸ hmem)
    have hsought' : ∀ g, .located g ∉ (s.receive (.adopted generation record)).posted :=
      fun g hg' => hsought g (List.mem_of_mem_erase hg')
    have hr := hreceive.no_respawn_launch hlaunch
    have hearly := Nat.le_trans (Nat.le_add_right _ _) (h.booked.early launch hlaunch)
    simp only [hpurpose]
    cases carried with
    | some carried =>
      obtain ⟨hu, hreconnecting⟩ := h.reconnecting ht hlaunch hpurpose
      have hcarried : t.restarts → t.sound ∨ carried.intent.isRestart = false := fun hf =>
        (hfollow hf).imp_right fun hcalm => by
          simpa [hpurpose, LaunchPurpose.carriedIntent] using hcalm launch hlaunch
      obtain ⟨hloose, spec, hrow⟩ := hreceive.ended hlaunch hu hsought' result.isOk
      have hrow : s.process = some ⟨spec, .starting⟩ := hrow
      cases result with
      | error error =>
        exact reconnectFailed_pending ht hloose (by simp [hrow])
          (by simp [Except.isOk, Except.toBool]) hr hreconnecting hcarried (some (record, error))
      | ok handle =>
        exact reconnected_spec ht hloose (by simp [hrow]) hr hreconnecting
          (by simpa [Except.isOk, Except.toBool] using hearly) hcarried handle generation
    | none =>
      obtain ⟨hu, ⟨hsettled, hne⟩, hstop, hdrop⟩ | ⟨hu, hretry⟩ := h.adopting ht hlaunch hpurpose
      · obtain ⟨hloose, spec, hrow⟩ := hreceive.ended hlaunch hu hsought' result.isOk
        have hrow : s.process = some ⟨spec, .starting⟩ := hrow
        cases result with
        | error error =>
          exact adoptionFailed_spec ht hloose (by simp [hrow]) (by simp [Except.isOk, Except.toBool])
            hr hsettled hne hstop hdrop record error
        | ok handle =>
          have hfresh : Loose t { (s.receive (.adopted generation record)).endLaunch true with
              retry := none } :=
            ⟨hloose.launch, hloose.pane, hloose.row, hloose.past,
              hloose.logged.congr (Nat.le_refl _) rfl (.inl rfl)⟩
          refine (installPane_spec hfresh (by simp [hrow]) hr (by simpa using hearly)
            (fun hd => (hkeep hd rfl launch htake hpurpose).2) handle generation).bind fun s' h' => ?_
          exact applyPending_owed ht h' hstop hdrop _
      · cases result with
        | error error =>
          have hended := hreceive.retryEnded hu hsought'
          obtain ⟨spec, state, child, intent, shutdown, membership, hrow, -, alone, -⟩ := h.left hu
          have hstate : state = .unsupervised := by
            obtain ⟨h, -⟩ | ⟨-, h⟩ := alone
            · exact h
            · simp [hlaunch] at h
          refine retryFailed_spec ht hended rfl hu ?_ hretry.stop hretry.drop record error
          simp [hretry.prior, hrow, hstate]
        | ok handle =>
          have hretry' : Retry t (s.receive (.adopted generation record)) launch :=
            ⟨hretry.current, hretry.purpose, hretry.prior, hretry.stop, hretry.drop⟩
          exact hreceive.retryInstalled ht hlaunch hretry' hu hsought'
            (fun hd => hkeep hd rfl launch htake hpurpose) handle generation

/-! ### Adoptions begun -/

/-- What a retry would adopt: the child its pane records, with nothing being done about it. -/
theorem retryablePid_spec : s.retryablePid.All fun r => ∀ pid ∈ r,
    s.launch = none ∧ s.shows .unsupervised ∧ s.isUnsupervised ∧
      ∀ child ∈ s.unsupervisedChild, child.pid = pid := by
  unfold retryablePid
  split
  · next hidle =>
    obtain ⟨hl, hshown⟩ := Bool.and_eq_true_iff.1 hidle
    have hl : s.launch = none := by simpa using hl
    unfold runningUnsupervisedPid
    split
    · exact fun _ hpid => nomatch hpid
    · next child hchild =>
      have hu : s.isUnsupervised := by
        obtain ⟨p, hp, hpu⟩ := Option.bind_eq_some_iff.1 hchild
        simp [hp, hpu]
      simp only [Acts.all_bind, Acts.all_query, ↓reduceIte, Bool.false_eq_true, Acts.all_pure]
      refine ⟨?_, fun _ hpid => nomatch hpid⟩
      rintro pid ⟨⟩
      exact ⟨hl, hshown, hu, fun child' hchild' => by rw [Option.some.inj (hchild'.symm.trans hchild)]⟩
  · exact fun _ hpid => nomatch hpid

theorem Inv.beginRetryAdoption (h : Inv t s) (hl : s.launch = none) (hshown : s.shows .unsupervised)
    (hu : s.isUnsupervised) (hstop : t.stop = none)
    (hours : ∀ child ∈ s.unsupervisedChild, record.childPid = child.pid) :
    Inv t (s.beginAdoption record .unsupervised) := by
  obtain ⟨spec, state, child, intent, shutdown, membership, hrow, hpane, alone, -, -, drop⟩ := h.left hu
  have hstate : state = .unsupervised := by simpa [hrow] using hshown
  refine ⟨.left spec state child intent shutdown membership hrow hpane (.inl ⟨hstate, ?_⟩)
    (fun l hl => ?_) (fun hs => by simp [hstop] at hs) drop,
    Booked.begin (h.booked.past hl) rfl rfl rfl rfl ⟨_, rfl⟩ (by simp) rfl (fun _ => rfl)
      fun record' heq child hchild => ?_, h.logged.congr (Nat.le_succ _) rfl (.inl rfl)⟩
  · obtain ⟨-, h⟩ | ⟨h, -⟩ := alone
    · exact h
    · simp [hstate] at h
  · obtain rfl := Option.some.inj hl
    exact ⟨rfl, rfl, rfl, hstop, fun _ => by simp [PendingLaunch.new]⟩
  · obtain ⟨-, rfl⟩ := Posted.adopted.inj heq
    exact hours child hchild

theorem handleAdoptionRetryDue_spec (h : Inv t s) (attempt : ℕ) :
    (s.handleAdoptionRetryDue attempt).All (Inv t) := by
  unfold handleAdoptionRetryDue
  split
  · refine retryablePid_spec.bind fun r _ => ?_
    split
    · exact h
    · exact (probeAdoption_spec h attempt false).mono fun _ h' => h'.1
  · exact h

/-- **A probe comes back.**  A retry is begun for the child recorded, if its exit is not to be a
stop. -/
theorem handleAdoptionProbed_spec (h : Inv t s) (ht : t.Plain) (attempt : ℕ) (asked : Bool)
    (record : Option HolderRecord)
    (hstop : t.stop.isSome → ∀ r ∈ record, ∀ p ∈ s.pane, ∀ child ∈ p.unsupervised,
      r.childPid = child.pid → p.exitIntent.isStop = false) :
    (s.handleAdoptionProbed attempt asked record).All (Inv t) := by
  unfold handleAdoptionProbed
  split
  · refine retryablePid_spec.bind fun r hr => ?_
    split
    · exact h
    · next pid =>
      obtain ⟨hl, hshown, hu, hpid⟩ := hr pid rfl
      split
      · next found hfound =>
        obtain ⟨hrecord, hchild⟩ := Option.filter_eq_some_iff.1 hfound
        have hchild : found.childPid = pid := by simpa using hchild
        refine h.beginRetryAdoption hl hshown hu ?_ fun child hc => hchild.trans (hpid child hc).symm
        by_contra hs
        have hs := Option.isSome_iff_ne_none.2 hs
        obtain ⟨spec, state, child, intent, shutdown, membership, -, hpane, -, -, stop, -⟩ := h.left hu
        have hstops := stop hs ht.stopDue
        have := hstop hs found hrecord _ hpane child rfl
          (hchild.trans (hpid child (by simp [hpane])).symm)
        simp [hstops] at this
      · dsimp only
        split <;> exact h.scheduleAdoptionRetry
  · exact h

end Muster.Supervisor.Slot
