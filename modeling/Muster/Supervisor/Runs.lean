import Muster.Supervisor.Rows
import Muster.Supervisor.System

/-!
# Runs — what a supervisor keeps along every run

Each pane keeps its invariant under the terms the run is followed with, whatever event comes; the
events a pledge does not allow are those that break one of its promises.
-/

namespace Muster.Supervisor

/-- Which of a pane's promises are followed along a run. -/
structure Pledge where
  restarts : Bool
  stops : Bool
  drops : Bool

/-- The terms of a pane between two events. -/
def Pledge.terms (f : Pledge) (s : Supervisor) (pane : ℕ) : Terms where
  since := 0
  restarts := f.restarts
  spec _ := True
  calm := false
  stop := if f.stops then s.stopTaken pane else none
  stopDue := false
  drop := if f.drops then s.dropped pane else none
  dropDue := false

/-- A row has the definition it had. -/
def Slot.keepsSpec (s : Slot) (spec : ProcessSpec) : Prop := s.process.map (·.spec) = some spec

/-- The terms of a pane while it handles an event. -/
@[simp] def Pledge.framed (f : Pledge) (s : Supervisor) (pane : ℕ) : Terms :=
  { f.terms s pane with spec := (s.slots pane).keepsSpec }

/-- What a supervisor keeps: the invariant of each pane, its rows on the list once each, and rows the
last stack does not name known as dropped. -/
structure Kept (f : Pledge) (s : Supervisor) : Prop where
  panes : ∀ pane, Slot.Inv (f.terms s pane) (s.slots pane)
  order : s.order.Nodup
  rows : ∀ pane, (s.slots pane).process.isSome → pane ∈ s.order
  named : ∀ pane, ∀ r ∈ (s.slots pane).process,
    r.spec.name.key ∉ s.stack → (s.dropped pane).isSome

/-! ### The events a pledge allows -/

/-- The definition of the row has no stored problem. -/
def Slot.isSound (s : Slot) : Bool := s.process.all (·.spec.storedProblem.isNone)

/-- The next exit of the pane's child is to be a restart. -/
def Slot.exitRestarts (s : Slot) : Bool := s.pane.any (·.exitIntent.isRestart)

/-- The connection the launch in flight takes back was to be restarted at its exit. -/
def Slot.launchRestarts (s : Slot) : Bool := s.launch.any (·.purpose.carriedIntent.isRestart)

/-- The definition has no stored problem where a respawn is due, and where an exit, a lost connection
or the result of a reconnection may come to a restart. -/
def Sound (s : Supervisor) : Event → Prop
  | .respawn pane generation => (s.slots pane).generation = generation → (s.slots pane).isSound
  | .output pane generation output => output.isExit ∨ output.isUnreadable →
    (s.slots pane).generation = generation → (s.slots pane).exitRestarts → (s.slots pane).isSound
  | .reconnectLocated pane _ _ | .adopted pane _ _ _ =>
    (s.slots pane).launchRestarts → (s.slots pane).isSound
  | _ => True

/-- No stop is asked of a pane that is reconnecting to what was to be restarted, and no retry is begun
for a child whose exit is to be a stop. -/
def Unopposed (s : Supervisor) : Event → Prop
  | .stop name | .forceKill name =>
    ∀ pane ∈ s.paneNamed name, (s.slots pane).launchRestarts = false
  | .down => ∀ pane ∈ s.order, s.mayBeRunning pane → (s.slots pane).launchRestarts = false
  | .adoptionProbed pane _ _ _ record => ∀ r ∈ record, ∀ p ∈ (s.slots pane).pane,
    ∀ child ∈ p.unsupervised, r.childPid = child.pid → p.exitIntent.isStop = false
  | _ => True

/-- A launch that succeeds for a pane marked to retire has the mark on record, and its connection is
not lost already. -/
def Recorded (s : Supervisor) : Event → Prop
  | .spawned pane generation result => result.isOk →
    ∀ launch ∈ (s.slots pane).takeLaunch generation, launch.membership = some .retireOnExit →
      launch.early.any ProcessOutput.isUnreadable = false
  | .adopted pane generation _ result => result.isOk →
    ∀ launch ∈ (s.slots pane).takeLaunch generation, launch.purpose = .adopt none →
      launch.membership = some .retireOnExit ∨
        (s.slots pane).pane.any (·.configMembership = .retireOnExit) →
      launch.membership = some .retireOnExit ∧
        launch.early.any ProcessOutput.isUnreadable = false
  | _ => True

/-- The event breaks none of the promises followed. -/
structure Pledge.Allows (f : Pledge) (s : Supervisor) (e : Event) : Prop where
  restarts : f.restarts → Sound s e
  stops : f.stops → Unopposed s e
  drops : f.drops → Recorded s e

/-! ### One pane handles an event -/

variable {f : Pledge} {s : Supervisor} {pane generation : ℕ} {handler : Slot → Act Slot}
  {slot : Slot} {t : Terms} {result : Except String Handle} {rows : List StackRow}

theorem Kept.framed (h : Kept f s) (pane : ℕ) : Slot.Inv (f.framed s pane) (s.slots pane) :=
  (h.panes pane).respec _ fun r hr => by simp [Slot.keepsSpec, Option.mem_def.1 hr]

/-- A handler of one pane keeps what the supervisor keeps, where the other panes keep it already and
the pane's row is known. -/
theorem onPane_kept
    (others : ∀ q, q ≠ pane → Slot.Inv (f.terms s q) (s.slots q)) (order : s.order.Nodup)
    (rows : ∀ q, (s.slots q).process.isSome → q ∈ s.order)
    (named : ∀ q, ∀ r ∈ (s.slots q).process, r.spec.name.key ∉ s.stack → (s.dropped q).isSome)
    (hh : (handler (s.slots pane)).All (Slot.Inv (f.framed s pane))) :
    (s.onPane pane handler).All fun a => Kept f a ∧ ∀ q, q ≠ pane → a.slots q = s.slots q := by
  refine hh.bind fun slot hslot => ?_
  have hself : (s.put pane slot).slots pane = slot := Function.update_self ..
  have hother : ∀ q, q ≠ pane → (s.put pane slot).slots q = s.slots q := fun q hq =>
    Function.update_of_ne hq ..
  have hspec : ∀ r ∈ slot.process, ∃ r₀ ∈ (s.slots pane).process, r₀.spec = r.spec := fun r hr =>
    Option.map_eq_some_iff.1 (hslot.logged.spec r hr)
  refine ⟨⟨fun q => ?_, order, fun q hq => ?_, fun q r hr hout => ?_⟩, hother⟩
  · by_cases hq : q = pane
    · subst hq
      have hinv : Slot.Inv (f.terms s q) slot := hslot.weaken ⟨Nat.le_refl _, id, id, fun _ => id,
        fun _ => id, fun _ => id, fun _ => id⟩ fun _ _ => trivial
      rw [hself]
      exact hinv
    · rw [hother q hq]
      exact others q hq
  · by_cases hqp : q = pane
    · subst hqp
      rw [hself] at hq
      obtain ⟨r, hr⟩ := Option.isSome_iff_exists.1 hq
      obtain ⟨r₀, hr₀, -⟩ := hspec r hr
      exact rows q (by simp [Option.mem_def.1 hr₀])
    · exact rows q (hother q hqp ▸ hq)
  · by_cases hqp : q = pane
    · subst hqp
      rw [hself] at hr
      obtain ⟨r₀, hr₀, heq⟩ := hspec r hr
      exact named q r₀ hr₀ (heq ▸ hout)
    · exact named q r (hother q hqp ▸ hr) hout

/-- A handler of one pane, started with the history of that pane perhaps changed, keeps what the
supervisor keeps if it keeps the pane's invariant. -/
theorem Kept.onPane (h : Kept f s) (s' : Supervisor) (order : s'.order = s.order)
    (slots : s'.slots = s.slots) (stack : s'.stack = s.stack)
    (others : ∀ q, q ≠ pane → s'.stopTaken q = s.stopTaken q ∧ s'.dropped q = s.dropped q)
    (dropped : (s.dropped pane).isSome → (s'.dropped pane).isSome)
    (hh : (handler (s'.slots pane)).All (Slot.Inv (f.framed s' pane))) :
    (s'.onPane pane handler).All fun a => Kept f a ∧ ∀ q, q ≠ pane → a.slots q = s.slots q := by
  rw [← slots]
  refine onPane_kept (fun q hq => ?_) (order ▸ h.order) (slots ▸ order ▸ h.rows) (fun q r hr hout => ?_)
    hh
  · obtain ⟨hstop, hdrop⟩ := others q hq
    have hterms : f.terms s' q = f.terms s q := by simp [Pledge.terms, hstop, hdrop]
    rw [hterms, slots]
    exact h.panes q
  · rw [slots] at hr
    rw [stack] at hout
    have hdropped := h.named q r hr hout
    by_cases hq : q = pane
    · subst hq
      exact dropped hdropped
    · rw [(others q hq).2]
      exact hdropped

theorem Kept.onPane_same (h : Kept f s)
    (hh : (handler (s.slots pane)).All (Slot.Inv (f.framed s pane))) :
    (s.onPane pane handler).All (Kept f) :=
  (h.onPane s rfl rfl rfl (fun _ _ => ⟨rfl, rfl⟩) id hh).mono fun _ ha => ha.1

/-! ### Outputs -/

theorem Slot.isSound_sound (h : slot.isSound) (ht : t.spec = slot.keepsSpec) : t.sound := by
  intro spec hspec
  rw [ht] at hspec
  obtain ⟨r, hr, rfl⟩ := Option.map_eq_some_iff.1 hspec
  simpa [Slot.isSound, hr] using h

theorem Slot.Inv.calm (h : Slot.Inv t slot)
    (hcalm : slot.exitRestarts = false) : Slot.Inv { t with calm := true } slot := by
  refine ⟨h.shape.adapt (.refl _) rfl rfl rfl rfl (fun hr _ hmem => hmem hr) id
    fun _ => .inr fun p hp => ?_, h.booked, h.logged.terms rfl rfl rfl rfl⟩
  have hp : slot.pane = some p := hp
  simpa [Slot.exitRestarts, hp] using hcalm

theorem report_spec (h : Slot.Inv t slot) {output : ProcessOutput}
    (henabled : output.isExit → slot.generation = generation → slot.mayExit) :
    Slot.Inv t (slot.report generation output) ∧
      (output.isExit → (slot.report generation output).generation = generation →
        (slot.report generation output).mayExit = false ∧
        ((slot.report generation output).launch = none →
          (slot.report generation output).isLive) ∧
        (slot.report generation output).posted.any Posted.isSearch = false ∧
        ∀ launch ∈ (slot.report generation output).launch,
          launch.early.countP ProcessOutput.isExit = 0) := by
  unfold Slot.report
  split
  · next hexit =>
    obtain ⟨hout, hcurrent⟩ : output.isExit ∧ slot.generation = generation := by simpa using hexit
    have hmay := henabled hout hcurrent
    have hearly : ∀ launch ∈ slot.launch, launch.early.countP ProcessOutput.isExit +
        1 + (slot.posted.any Posted.isSearch).toNat ≤ 1 := by
      simpa [hmay] using h.booked.early
    refine ⟨h.reported, fun _ _ => ⟨rfl, fun hl => ?_, ?_, fun l hl => ?_⟩⟩
    · exact (h.booked.exits hmay).resolve_left (by simp [show slot.launch = none from hl])
    · cases hl : slot.launch with
      | none => exact (h.booked.past hl).no_search
      | some launch =>
        have := hearly launch hl
        cases hs : slot.posted.any Posted.isSearch with
        | false => rfl
        | true =>
          simp only [hs, Bool.toNat_true] at this
          omega
    · have := hearly l hl
      omega
  · next hnot => exact ⟨h, fun hout hcurrent => absurd (by simp [hout, hcurrent]) hnot⟩

theorem Kept.output (h : Kept f s) {output : ProcessOutput}
    (henabled : s.Enabled (.output pane generation output))
    (hsound : f.restarts → Sound s (.output pane generation output)) :
    ((s.slots pane).report generation output |>.handleOutput generation output).All
      (Slot.Inv (f.framed s pane)) := by
  obtain ⟨hreport, hexit⟩ := report_spec (h.framed pane) henabled
  by_cases hcurrent : (s.slots pane).generation = generation
  · cases hrestarts : (s.slots pane).exitRestarts with
    | true =>
      refine Slot.handleOutput_spec hreport (fun ho => ⟨fun _ hdue => (nomatch hdue),
        fun _ hdue => (nomatch hdue), fun hf => .inl ?_⟩) hexit fun _ _ => rfl
      exact Slot.isSound_sound (hsound hf ho hcurrent hrestarts) rfl
    | false =>
      have hpane : ((s.slots pane).report generation output).exitRestarts = false := by
        unfold Slot.report
        split <;> exact hrestarts
      refine (Slot.handleOutput_spec (hreport.calm hpane) (fun _ => ⟨fun _ _ => rfl, fun _ _ => rfl,
        fun _ => .inr rfl⟩) hexit fun _ _ => rfl).mono fun _ h' => h'.weaken ⟨Nat.le_refl _, id,
          fun hc => (nomatch hc), fun _ => id, fun _ => id, fun _ => id, fun _ => id⟩ fun _ => id
  · have hgeneration : ((s.slots pane).report generation output).generation ≠ generation := by
      unfold Slot.report
      split <;> exact hcurrent
    simp only [Slot.handleOutput, hgeneration, ne_eq, not_false_eq_true, ↓reduceIte, Acts.all_pure]
    exact hreport

/-! ### Results of workers -/

theorem Pledge.isSome_drop (h : (f.framed s pane).drop.isSome) : f.drops := by
  by_contra hf
  simp [Pledge.framed, Pledge.terms, hf] at h

theorem Pledge.isSome_stop (h : (f.framed s pane).stop.isSome) : f.stops := by
  by_contra hf
  simp [Pledge.framed, Pledge.terms, hf] at h

theorem Kept.spawned (h : Kept f s) (hmem : .spawned generation ∈ (s.slots pane).posted)
    (hrecorded : f.drops → Recorded s (.spawned pane generation result)) :
    (((s.slots pane).receive (.spawned generation)).settleSpawn generation result).All
      (Slot.Inv (f.framed s pane)) := by
  refine Slot.settleSpawn_spec (h.framed pane) ⟨rfl, rfl, rfl⟩ hmem result fun hd hok launch htake => ?_
  obtain ⟨-, -, -, -, hdrop⟩ := (h.framed pane).spawning hmem htake
  exact hrecorded (Pledge.isSome_drop hd) hok launch htake (hdrop hd)

theorem Pledge.followed
    (hsound : f.restarts → (s.slots pane).launchRestarts → (s.slots pane).isSound) :
    (f.framed s pane).restarts → (f.framed s pane).sound ∨
      ∀ launch ∈ (s.slots pane).launch, launch.purpose.carriedIntent.isRestart = false := by
  intro hf
  cases hrestarts : (s.slots pane).launchRestarts with
  | true => exact .inl (Slot.isSound_sound (hsound hf hrestarts) rfl)
  | false =>
    refine .inr fun launch hlaunch => ?_
    simpa [Slot.launchRestarts, Option.mem_def.1 hlaunch] using hrestarts

theorem Kept.adopted (h : Kept f s) {record : HolderRecord}
    (hmem : .adopted generation record ∈ (s.slots pane).posted)
    (hallowed : f.Allows s (.adopted pane generation record result)) :
    (((s.slots pane).receive (.adopted generation record)).settleAdoption generation record
      result).All (Slot.Inv (f.framed s pane)) := by
  refine Slot.settleAdoption_spec (h.framed pane) ⟨rfl, rfl, rfl⟩ hmem
    (Pledge.followed hallowed.restarts) result
    fun hd hok launch htake hpurpose => ?_
  refine hallowed.drops (Pledge.isSome_drop hd) hok launch htake hpurpose ?_
  obtain ⟨-, hlaunch⟩ := Slot.takeLaunch_eq_some htake
  obtain ⟨-, -, -, hdrop⟩ | ⟨hu, -⟩ := (h.framed pane).adopting ⟨rfl, rfl, rfl⟩ hlaunch hpurpose
  · exact .inl (hdrop hd)
  · obtain ⟨spec, state, child, intent, shutdown, membership, -, hpane, -, -, -, drop⟩ :=
      (h.framed pane).left hu
    exact .inr (by simp [hpane, drop hd rfl])

/-! ### Requests -/

theorem Kept.request (h : Kept f s) (name : ProcessName) {act : ℕ → Act Supervisor}
    (hact : ∀ pane ∈ s.paneNamed name, (act pane).All (Kept f)) :
    (s.request name act).All (Kept f) := by
  unfold Supervisor.request
  split
  · exact h
  · next pane hpane => exact hact pane hpane

theorem Kept.asked (h : Kept f s) (pane : ℕ) :
    Slot.Inv (f.framed (s.askFor pane) pane) (s.slots pane) ∧
      (f.framed (s.askFor pane) pane).stop = none := by
  have hnone : (f.framed (s.askFor pane) pane).stop = none := by
    simp [Pledge.framed, Pledge.terms]
  refine ⟨(h.framed pane).weaken ⟨Nat.le_refl _, id, id, fun n hn => ?_, fun hs => ?_, fun _ => id,
    fun _ => id⟩ fun _ => id, hnone⟩
  · rw [hnone] at hn
    cases hn
  · rw [hnone] at hs
    cases hs

theorem Kept.askFor (h : Kept f s) (pane : ℕ)
    (hh : ∀ {t slot}, Slot.Inv t slot → t.Plain → t.stop = none → slot = s.slots pane →
      (handler slot).All (Slot.Inv t)) : ((s.askFor pane).onPane pane handler).All fun a =>
      Kept f a ∧ ∀ q, q ≠ pane → a.slots q = s.slots q := by
  obtain ⟨hinv, hstop⟩ := h.asked pane
  exact h.onPane (s.askFor pane) rfl rfl rfl (fun q hq => ⟨by simp [Function.update_of_ne hq], rfl⟩) id
    (hh hinv ⟨rfl, rfl, rfl⟩ hstop rfl)

theorem Kept.takeStop (h : Kept f s) (pane : ℕ)
    (hcalm : f.stops → (s.slots pane).launchRestarts = false)
    (hh : ∀ {t : Terms} {slot : Slot} {stop : Option ℕ}, Slot.Inv t slot →
      (∀ n ∈ stop, slot.handed.length = n) →
      (stop.isSome → ∀ launch ∈ slot.launch, launch.purpose.carriedIntent.isRestart = false) →
      (handler slot).All (Slot.Inv { t with stop, stopDue := false })) :
    ((s.takeStop pane).onPane pane handler).All fun a =>
      Kept f a ∧ ∀ q, q ≠ pane → a.slots q = s.slots q := by
  refine h.onPane (s.takeStop pane) rfl rfl rfl (fun q hq => ⟨by simp [Function.update_of_ne hq], rfl⟩) id ?_
  refine hh (t := f.framed s pane) (h.framed pane) (fun n hn => ?_) fun hs launch hlaunch => ?_
  · cases hf : f.stops <;> simp_all [Pledge.terms]
  · have hlaunch : (s.slots pane).launch = some launch := hlaunch
    simpa [Slot.launchRestarts, hlaunch] using hcalm (Pledge.isSome_stop (s := s.takeStop pane) hs)

/-- A list of panes acted on one after the other, each as the supervisor found it. -/
theorem Kept.eachPane {act : ℕ → Supervisor → Act Supervisor} {Q : Slot → Prop}
    (hact : ∀ {s : Supervisor} {pane : ℕ}, Kept f s → Q (s.slots pane) →
      (act pane s).All fun a => Kept f a ∧ ∀ q, q ≠ pane → a.slots q = s.slots q)
    {panes : List ℕ} (hnodup : panes.Nodup) :
    ∀ {s : Supervisor}, Kept f s → (∀ pane ∈ panes, Q (s.slots pane)) →
      (eachPane act panes s).All (Kept f) := by
  induction panes with
  | nil => exact fun h _ => h
  | cons pane panes ih =>
    intro s h hq
    obtain ⟨hpane, hnodup⟩ := List.nodup_cons.1 hnodup
    refine (hact h (hq pane (List.mem_cons_self ..))).bind fun a ⟨ha, hothers⟩ =>
      ih hnodup ha fun q hmem => ?_
    rw [hothers q fun heq => hpane (heq ▸ hmem)]
    exact hq q (List.mem_cons_of_mem _ hmem)

theorem autostartPanes_spec (panes : List ℕ) :
    (s.autostartPanes panes).All fun starts => starts.Sublist panes ∧
      ∀ pane ∈ starts, (s.slots pane).isLive = false := by
  induction panes with
  | nil => exact ⟨.slnil, by simp⟩
  | cons pane panes ih =>
    have hstart : (s.isAutostart pane).All fun start =>
        start = true → (s.slots pane).isLive = false := by
      unfold Supervisor.isAutostart
      dsimp only
      split
      · next hidle =>
        rw [Acts.all_bind]
        exact Acts.all_of_forall _ fun _ _ => by simp_all
      · exact fun hstart => nomatch hstart
    refine hstart.bind fun start hstart => ih.bind fun rest ⟨hsub, hrest⟩ => ?_
    cases start with
    | false => exact ⟨hsub.cons _, hrest⟩
    | true =>
      refine ⟨hsub.cons_cons _, fun q hq => ?_⟩
      obtain rfl | hq := List.mem_cons.1 hq
      · exact hstart rfl
      · exact hrest q hq

theorem Kept.up (h : Kept f s) : s.up.All (Kept f) := by
  refine (autostartPanes_spec s.order).bind fun panes ⟨hsub, hidle⟩ => ?_
  refine Kept.eachPane (Q := fun slot => slot.isLive = false) (fun h hlive => ?_)
    (hsub.nodup h.order) h hidle
  refine h.askFor _ fun hinv hplain hstop hslot => ?_
  exact Slot.spawnWith_spec hinv.unfollow (hslot ▸ hlive) (fun _ => hstop) (fun _ => hplain.dropDue)
    fun _ => .inr hinv

theorem Kept.stopPanes (h : Kept f s) {panes : List ℕ} (hnodup : panes.Nodup)
    (hcalm : f.stops → ∀ pane ∈ panes, (s.slots pane).launchRestarts = false) :
    (stopPanes panes s).All (Kept f) :=
  Kept.eachPane (Q := fun slot => f.stops → slot.launchRestarts = false)
    (fun h hcalm => h.takeStop _ hcalm fun h hn hl => Slot.stopPane_taken h hn hl) hnodup h
    fun pane hmem hf =>
      hcalm hf pane hmem

theorem Kept.down (h : Kept f s) (hunopposed : f.stops → Unopposed s .down) :
    s.down.All fun r => Kept f r.1 := by
  have hstopped := h.stopPanes (h.order.filter _)
    fun hf pane hpane => hunopposed hf pane (List.mem_of_mem_filter hpane)
      (List.mem_filter.1 hpane).2
  exact (Acts.all_listen.2 hstopped).bind fun r hr => hr

/-! ### Stacks -/

theorem lt_nextPane (h : pane ∈ s.order) : pane < s.nextPane := by
  unfold Supervisor.nextPane
  generalize s.order = order at h
  induction order with
  | nil => cases h
  | cons q order ih =>
    simp only [List.map_cons, List.foldr_cons]
    obtain rfl | h := List.mem_cons.1 h
    · omega
    · have := ih h
      omega

/-- A row of the new stack has one of its definitions, and is a row it matched or a new one. -/
theorem mem_syncRows {row : StackRow} : ∀ {specs : List ProcessSpec} {heads : List ℕ} {next : ℕ},
    row ∈ s.syncRows specs heads next →
      row.spec ∈ specs ∧ (row.kept ∧ row.pane ∈ heads ∨ row.kept = false ∧ next ≤ row.pane) := by
  intro specs
  induction specs with
  | nil => exact fun h => nomatch h
  | cons spec specs ih =>
    intro heads next h
    unfold Supervisor.syncRows at h
    split at h
    · next pane hpane =>
      obtain rfl | h := List.mem_cons.1 h
      · exact ⟨List.mem_cons_self .., .inl ⟨rfl, List.mem_of_find?_eq_some hpane⟩⟩
      · obtain ⟨hspec, hkept⟩ := ih h
        exact ⟨List.mem_cons_of_mem _ hspec, hkept.imp_left fun h => ⟨h.1, List.mem_of_mem_erase h.2⟩⟩
    · obtain rfl | h := List.mem_cons.1 h
      · exact ⟨List.mem_cons_self .., .inr ⟨rfl, Nat.le_refl _⟩⟩
      · obtain ⟨hspec, hkept⟩ := ih h
        exact ⟨List.mem_cons_of_mem _ hspec, hkept.imp_right fun h => ⟨h.1, Nat.le_of_succ_le h.2⟩⟩

theorem syncRows_nodup : ∀ {specs : List ProcessSpec} {heads : List ℕ} {next : ℕ}, heads.Nodup →
    (∀ pane ∈ heads, pane < next) → ((s.syncRows specs heads next).map (·.pane)).Nodup := by
  intro specs
  induction specs with
  | nil => exact fun _ _ => List.nodup_nil
  | cons spec specs ih =>
    intro heads next hnodup hlt
    unfold Supervisor.syncRows
    split
    · next pane hpane =>
      have hmem := List.mem_of_find?_eq_some hpane
      refine List.nodup_cons.2 ⟨fun hrest => ?_, ih (hnodup.erase _) fun q hq =>
        hlt q (List.mem_of_mem_erase hq)⟩
      obtain ⟨row, hrow, rfl⟩ := List.mem_map.1 hrest
      obtain ⟨-, hkept⟩ | ⟨-, hnew⟩ := (mem_syncRows hrow).2
      · exact hnodup.not_mem_erase hkept
      · have := hlt row.pane hmem
        omega
    · refine List.nodup_cons.2 ⟨fun hrest => ?_, ih hnodup fun q hq => Nat.lt_succ_of_lt (hlt q hq)⟩
      obtain ⟨row, hrow, heq⟩ := List.mem_map.1 hrest
      have heq : row.pane = next := heq
      obtain ⟨-, hkept⟩ | ⟨-, hnew⟩ := (mem_syncRows hrow).2
      · have := hlt row.pane hkept
        omega
      · omega

theorem rowOf_eq_some {row : StackRow}
    (h : rowOf rows pane = some row) : row ∈ rows ∧ row.pane = pane :=
  ⟨List.mem_of_find?_eq_some h, by simpa using List.find?_some h⟩

theorem rowOf_isSome (h : pane ∈ rows.map (·.pane)) : (rowOf rows pane).isSome := by
  obtain ⟨row, hrow, rfl⟩ := List.mem_map.1 h
  exact List.find?_isSome.2 ⟨row, hrow, by simp⟩

theorem Kept.syncSlot (h : Kept f s) {specs : List ProcessSpec}
    (hnew : ∀ row ∈ rows, row.kept = false → (s.slots row.pane).process = none) (pane : ℕ) :
    Slot.Inv (f.terms (s.sync specs rows) pane) (s.syncSlot rows pane) := by
  have hinv := h.panes pane
  cases hrow : rowOf rows pane with
  | some row =>
    obtain ⟨hmem, rfl⟩ := rowOf_eq_some hrow
    cases hkept : row.kept with
    | true =>
      have hterms : f.terms (s.sync specs rows) row.pane =
          { f.terms s row.pane with drop := none } := by
        simp [Pledge.terms, Supervisor.sync, hrow, hkept]
      simp only [Supervisor.syncSlot, hrow, hkept, ↓reduceIte, hterms]
      exact (hinv.setSpec row.spec trivial).setMembership .tracked
    | false =>
      have hterms : f.terms (s.sync specs rows) row.pane =
          { f.terms s row.pane with stop := none, drop := none } := by
        simp [Pledge.terms, Supervisor.sync, hrow, hkept]
      simp only [Supervisor.syncSlot, hrow, hkept, Bool.false_eq_true, ↓reduceIte, hterms]
      exact hinv.addRow (hnew row hmem hkept) row.spec trivial
  | none =>
    by_cases horder : pane ∈ s.order
    · have hterms : f.terms (s.sync specs rows) pane = { f.terms s pane with
          drop := if f.drops then some (s.slots pane).handed.length else none } := by
        simp [Pledge.terms, Supervisor.sync, hrow, horder]
      rw [hterms]
      cases hheld : (s.slots pane).holdsProcess with
      | true =>
        simp only [Supervisor.syncSlot, hrow, horder, hheld, ↓reduceIte]
        cases hf : f.drops with
        | true => exact hinv.markRetiring hheld
        | false => exact hinv.setMembership .retireOnExit
      | false =>
        simp only [Supervisor.syncSlot, hrow, horder, hheld, ↓reduceIte, Bool.false_eq_true]
        have hloose := hinv.loose hheld
        refine Slot.Loose.retire ⟨hloose.launch, hloose.pane, hloose.row, hloose.past,
          ⟨hinv.logged.bare, hinv.logged.stop, fun n hn => ?_, hinv.logged.spec, hinv.logged.since⟩⟩
        cases hf : f.drops <;> simp_all
    · have hterms : f.terms (s.sync specs rows) pane = f.terms s pane := by
        simp [Pledge.terms, Supervisor.sync, hrow, horder]
      simp only [Supervisor.syncSlot, hrow, horder, ↓reduceIte, hterms]
      exact hinv

theorem Kept.sync (h : Kept f s) (specs : List ProcessSpec) :
    Kept f (s.sync specs (s.syncRows specs s.heads s.nextPane)) := by
  set rows := s.syncRows specs s.heads s.nextPane with hrows
  have hheads : ∀ pane ∈ s.heads, pane ∈ s.order := fun pane hpane => List.mem_of_mem_filter hpane
  have hnew : ∀ row ∈ rows, row.kept = false → (s.slots row.pane).process = none := by
    intro row hrow hkept
    obtain ⟨hk, -⟩ | ⟨-, hnext⟩ := (mem_syncRows hrow).2
    · simp [hkept] at hk
    · by_contra hp
      have := lt_nextPane (h.rows row.pane (Option.isSome_iff_ne_none.2 hp))
      omega
  have hslot : ∀ pane, (rowOf rows pane).isNone → (s.syncSlot rows pane).process.isSome →
      pane ∈ s.order ∧ (s.slots pane).holdsProcess := by
    intro pane hnone hsome
    rw [Option.isNone_iff_eq_none] at hnone
    by_cases horder : pane ∈ s.order
    · cases hheld : (s.slots pane).holdsProcess with
      | true => exact ⟨horder, rfl⟩
      | false => simp [Supervisor.syncSlot, hnone, horder, hheld, -Slot.holdsProcess] at hsome
    · simp only [Supervisor.syncSlot, hnone, horder, ↓reduceIte] at hsome
      exact absurd (h.rows pane hsome) horder
  refine ⟨h.syncSlot hnew, ?_, fun pane hpane => ?_, fun pane r hr hout => ?_⟩
  · refine List.nodup_append.2 ⟨syncRows_nodup (h.order.filter _) fun q hq => lt_nextPane (hheads q hq),
      h.order.filter _, fun a ha b hb heq => ?_⟩
    subst heq
    have := (List.mem_filter.1 hb).2
    simp [Option.isNone_iff_eq_none, Option.isSome_iff_ne_none.1 (rowOf_isSome ha)] at this
  · refine List.mem_append.2 ?_
    cases hrow : rowOf rows pane with
    | some row => exact .inl (List.mem_map.2 ⟨row, rowOf_eq_some hrow⟩)
    | none =>
      obtain ⟨horder, hheld⟩ := hslot pane (by simp [hrow]) hpane
      exact .inr (List.mem_filter.2 ⟨horder, by simp [hrow, hheld, -Slot.holdsProcess]⟩)
  · have hr : r ∈ (s.syncSlot rows pane).process := hr
    cases hrow : rowOf rows pane with
    | some row =>
      have hspec : r.spec = row.spec := by
        cases hkept : row.kept with
        | true =>
          simp only [Supervisor.syncSlot, hrow, hkept, ↓reduceIte] at hr
          obtain ⟨r₀, -, rfl⟩ := Option.map_eq_some_iff.1 hr
          rfl
        | false =>
          simp only [Supervisor.syncSlot, hrow, hkept, Bool.false_eq_true, ↓reduceIte] at hr
          obtain rfl := Option.some.inj hr
          rfl
      refine absurd ?_ hout
      exact List.mem_map.2 ⟨row.spec, (mem_syncRows (rowOf_eq_some hrow).1).1, by rw [hspec]⟩
    | none =>
      obtain ⟨horder, -⟩ := hslot pane (by simp [hrow]) (by simp [Option.mem_def.1 hr])
      simp [Supervisor.sync, hrow, horder]

theorem Kept.applyStack (h : Kept f s) (specs : List ProcessSpec) :
    (s.applyStack specs).All (Kept f) := by
  refine Kept.eachPane (Q := fun _ => True) (fun {s pane} h _ => ?_) (h.order.filter _) (h.sync specs)
    fun _ _ => trivial
  refine h.onPane s rfl rfl rfl (fun _ _ => ⟨rfl, rfl⟩) id ?_
  exact (Slot.stopPane_spec (h.framed pane)).mono fun _ h' => h'.unpaid

/-! ### Loading -/

theorem kept_empty : Kept f Supervisor.empty where
  panes _ := ⟨.gone rfl rfl rfl, ⟨by simp [Supervisor.empty, Slot.empty],
    by simp [Supervisor.empty, Slot.empty], by simp [Supervisor.empty, Slot.empty],
    by simp [Supervisor.empty, Slot.empty], by simp [Supervisor.empty, Slot.empty],
    by simp [Supervisor.empty, Slot.empty], by simp [Supervisor.empty, Slot.empty]⟩,
    ⟨by simp [Supervisor.empty, Slot.empty], by simp [Pledge.terms, Supervisor.empty],
      by simp [Pledge.terms, Supervisor.empty], by simp [Supervisor.empty, Slot.empty], Nat.zero_le _⟩⟩
  order := List.nodup_nil
  rows _ h := nomatch h
  named _ _ h := nomatch h

/-- What holds of a supervisor while it is loaded: nothing was asked of it and nothing restarts. -/
structure Loading (f : Pledge) (s : Supervisor) : Prop where
  kept : Kept f s
  unasked : ∀ pane, s.stopTaken pane = none
  quiet : ∀ pane, (s.slots pane).shows .restarting = false

theorem Loading.new (specs : List ProcessSpec) : Loading f (Supervisor.new specs) where
  kept := kept_empty.sync specs
  unasked _ := ite_self _
  quiet pane := by
    simp only [Supervisor.new, Supervisor.sync, Supervisor.syncSlot]
    split
    · split <;> rfl
    · rfl

theorem Slot.Inv.restoreEnd (h : Slot.Inv t slot)
    (hpending : slot.shows .pending) {state : ProcessState} (hsettled : state.isSettled)
    (hne : state ≠ .restarting) : Slot.Inv t (slot.setState state) := by
  cases h.shape with
  | gone process => simp [process] at hpending
  | idle spec state₀ process pane launch settled restarts stop drop =>
    have hstate : state₀ = .pending := by simpa [process] using hpending
    have hno : .respawn slot.generation ∉ slot.posted := fun hmem => by
      obtain ⟨-, -, r, hr, hrestarts⟩ := h.booked.respawns hmem
      obtain rfl := Option.some.inj (process.symm.trans hr)
      simp [hstate] at hrestarts
    refine ⟨.idle spec state (by simp [process]) pane launch hsettled (fun _ he => absurd he hne)
      stop drop, Slot.Booked.keep (h.booked.past launch) rfl rfl launch
        (fun hmem => absurd hmem hno) fun hx => (h.booked.exits hx).resolve_left (by simp [launch]),
      h.logged.congr (Nat.le_refl _) rfl (.inl (by simp [process]))⟩
  | launching spec launched process => simp [process] at hpending
  | live spec state₀ handle intent shutdown membership process pane launch connected =>
    have hstate : state₀ = .pending := by simpa [process] using hpending
    simp [hstate, ProcessState.isConnected] at connected
  | left spec state₀ child intent shutdown membership process pane alone =>
    have hstate : state₀ = .pending := by simpa [process] using hpending
    simp [hstate] at alone

theorem Loading.restoreEnd (h : Loading f s) (run : ProcessName × ExitOutcome) :
    Loading f (s.restoreEnd run) := by
  unfold Supervisor.restoreEnd
  split
  · exact h
  · next pane hpane =>
    dsimp only
    split
    · next hpending =>
      set state : ProcessState := if run.2.isFailure then .crashed else .exited with hstate
      have hsettled : state.isSettled ∧ state ≠ .restarting := by
        rw [hstate]
        split <;> exact ⟨rfl, by simp⟩
      have hkept : (s.onPane pane fun slot => pure (slot.setState state)).All fun a =>
          Kept f a ∧ ∀ q, q ≠ pane → a.slots q = s.slots q :=
        onPane_kept (fun q _ => h.kept.panes q) h.kept.order h.kept.rows h.kept.named
          ((h.kept.framed pane).restoreEnd hpending hsettled.1 hsettled.2)
      refine ⟨hkept.1, h.unasked, fun q => ?_⟩
      by_cases hq : q = pane
      · subst hq
        have hshown := hsettled.2
        cases hp : (s.slots q).process <;> simp [hp, hshown]
      · have := h.quiet q
        rw [← hkept.2 q hq] at this
        exact this
    · exact h

theorem Loading.onPane (unasked : ∀ q, s.stopTaken q = none)
    (quiet : ∀ q, q ≠ pane → (s.slots q).shows .restarting = false)
    (hkept : (s.onPane pane handler).All fun a => Kept f a ∧ ∀ q, q ≠ pane → a.slots q = s.slots q)
    (hquiet : (handler (s.slots pane)).All fun slot => slot.shows .restarting = false) :
    (s.onPane pane handler).All (Loading f) := by
  have hframe : (s.onPane pane handler).All fun a =>
      a.stopTaken = s.stopTaken ∧ (a.slots pane).shows .restarting = false := by
    refine hquiet.bind fun slot hslot => ⟨rfl, ?_⟩
    rw [show (s.put pane slot).slots pane = slot from Function.update_self ..]
    exact hslot
  refine (hkept.and hframe).mono fun a ⟨⟨ha, hothers⟩, hstop, hpane⟩ =>
    ⟨ha, fun q => hstop ▸ unasked q, fun q => ?_⟩
  by_cases hq : q = pane
  · exact hq ▸ hpane
  · rw [hothers q hq]
    exact quiet q hq

theorem adopt_quiet (record : HolderRecord) (removed : Bool) :
    (slot.adopt record removed).All fun s' => s'.shows .restarting = false := by
  have hstarting : ((slot.beginAdoption record ((slot.process.map (·.state)).getD .pending)).setState
      .starting).shows .restarting = false := by
    cases hp : slot.process <;> simp [hp]
  unfold Slot.adopt
  dsimp only
  split
  · exact hstarting
  · exact hstarting

theorem refuseAdoption_same (slot : Slot) (record : HolderRecord) :
    (slot.refuseAdoption record).All fun s' => s' = slot := by
  unfold Slot.refuseAdoption
  refine (Acts.all_of_forall _ fun _ => trivial : (Slot.childRunsOrCollect record).All fun _ => True).bind
    fun running _ => ?_
  dsimp only
  split <;> rfl

theorem Slot.Inv.free_of_rowless (h : Slot.Inv t slot)
    (hrow : slot.process = none) : slot.holdsProcess = false := by
  cases h.shape with
  | gone process pane launch => simp [pane, launch]
  | idle spec state process => simp [hrow] at process
  | launching spec launched process => simp [hrow] at process
  | live spec state handle intent shutdown membership process => simp [hrow] at process
  | left spec state child intent shutdown membership process => simp [hrow] at process

/-- A child no row names is taken over by a row of its own, that is to go. -/
theorem Loading.adoptRemoved (h : Loading f s) (record : HolderRecord)
    (hpane : s.nextPane ≤ pane) {s' : Supervisor}
    (slots : s'.slots = Function.update s.slots pane ((s.slots pane).addRow (removedSpec record)))
    (order : s'.order = s.order ++ [pane]) (stack : s'.stack = s.stack)
    (stopTaken : s'.stopTaken = s.stopTaken)
    (dropped : s'.dropped = Function.update s.dropped pane (some (s.slots pane).handed.length)) :
    (s'.onPane pane fun slot => slot.adopt record true).All (Loading f) := by
  have hnext : pane ∉ s.order := fun hmem => by
    have := lt_nextPane hmem
    omega
  have hnew : (s.slots pane).process = none := by
    by_contra hp
    exact hnext (h.kept.rows pane (Option.isSome_iff_ne_none.2 hp))
  have hself : s'.slots pane = (s.slots pane).addRow (removedSpec record) := by
    rw [slots, Function.update_self]
  have hother : ∀ q, q ≠ pane → s'.slots q = s.slots q := fun q hq => by
    rw [slots, Function.update_of_ne hq]
  have hinv := ((h.kept.panes pane).respec (s'.slots pane).keepsSpec
    (by simp [hnew])).addRow hnew (removedSpec record) (by rw [hself]; rfl)
  have hadopted := (Slot.adopt_spec hinv rfl rfl ((h.kept.panes pane).free_of_rowless hnew) rfl
    (by simp [ProcessSpec.toProcess]) record).2
  refine Loading.onPane (fun q => stopTaken ▸ h.unasked q) (fun q hq => hother q hq ▸ h.quiet q)
    (onPane_kept (fun q hq => ?_) ?_ (fun q hq => ?_) (fun q r hr hout => ?_) ?_)
    (adopt_quiet record true)
  · have hterms : f.terms s' q = f.terms s q := by
      simp [Pledge.terms, stopTaken, dropped, Function.update_of_ne hq]
    rw [hterms, hother q hq]
    exact h.kept.panes q
  · rw [order]
    refine List.nodup_append.2 ⟨h.kept.order, by simp, fun a ha b hb heq => hnext ?_⟩
    rwa [← List.mem_singleton.1 hb, ← heq]
  · rw [order]
    by_cases hqp : q = pane
    · simp [hqp]
    · exact List.mem_append_left _ (h.kept.rows q (hother q hqp ▸ hq))
  · rw [dropped]
    by_cases hqp : q = pane
    · simp [hqp]
    · rw [Function.update_of_ne hqp]
      exact h.kept.named q r (hother q hqp ▸ hr) (stack ▸ hout)
  · rw [hself]
    refine hadopted.mono fun a ha => ha.weaken ⟨Nat.le_refl _, id, id, fun n hn => ?_, fun hs => ?_,
      fun n hn => ?_, fun _ => id⟩ fun _ => id
    · simp [Pledge.terms, stopTaken, h.unasked] at hn
    · simp [Pledge.terms, stopTaken, h.unasked] at hs
    · cases hf : f.drops <;> simp_all [Pledge.terms]

theorem Loading.adopt (h : Loading f s) (record : HolderRecord) :
    (s.adopt record).All (Loading f) := by
  unfold Supervisor.adopt
  split
  · refine h.adoptRemoved record (Nat.le_refl _) rfl rfl rfl rfl ?_
    rw [show ((s.put s.nextPane ((s.slots s.nextPane).addRow (removedSpec record))).slots
      s.nextPane) = _ from Function.update_self ..]
    rfl
  · next pane hpane =>
    have hrow : ∃ r, (s.slots pane).process = some r := by
      have := List.find?_some hpane
      cases hp : (s.slots pane).process <;> simp_all [Supervisor.isNamed]
    obtain ⟨r, hrow⟩ := hrow
    have hinv := h.kept.framed pane
    have hstop : (f.framed s pane).stop = none := by simp [Pledge.terms, h.unasked]
    split
    · have hsame := refuseAdoption_same (s.slots pane) record
      exact Loading.onPane h.unasked (fun q _ => h.quiet q)
        (onPane_kept (fun q _ => h.kept.panes q) h.kept.order h.kept.rows h.kept.named
          (hsame.mono fun a ha => ha ▸ hinv)) (hsame.mono fun a ha => ha ▸ h.quiet pane)
    · next hfree =>
      have hfree : (s.slots pane).holdsProcess = false := by simpa using hfree
      have hdrop : (f.framed s pane).drop = none := by
        by_contra hd
        exact absurd (hinv.drop_due hfree (by simp [hrow]) (Option.isSome_iff_ne_none.2 hd))
          (by simp [Pledge.terms])
      have hr : r.state ≠ .restarting := by simpa [hrow] using h.quiet pane
      exact Loading.onPane h.unasked (fun q _ => h.quiet q)
        (onPane_kept (fun q _ => h.kept.panes q) h.kept.order h.kept.rows h.kept.named
          (Slot.adopt_spec hinv hstop hdrop hfree hrow hr record).1) (adopt_quiet record false)

theorem load_kept (specs : List ProcessSpec) (runs : List (ProcessName × ExitOutcome))
    (records : List HolderRecord) : (load specs runs records).All (Kept f) := by
  have hends : ∀ {s : Supervisor}, Loading f s → Loading f (runs.foldl restoreEnd s) := by
    induction runs with
    | nil => exact fun h => h
    | cons run runs ih => exact fun h => ih (h.restoreEnd run)
  have hadopted : ∀ {s : Supervisor}, Loading f s → (adoptAll records s).All (Kept f) := by
    induction records with
    | nil => exact fun h => h.kept
    | cons record records ih => exact fun h => (h.adopt record).bind fun _ ha => ih ha
  exact hadopted (hends (Loading.new specs))

/-! ### Whole runs -/

/-- **One event.**  Whatever the world answers, an event the pledge allows keeps what is kept. -/
theorem Kept.handle (h : Kept f s) {e : Event} (he : s.Enabled e) (hallowed : f.Allows s e) :
    (s.handle e).All (Kept f) := by
  have hplain : ∀ pane, (f.framed s pane).Plain := fun _ => ⟨rfl, rfl, rfl⟩
  unfold Supervisor.handle
  cases e with
  | up => exact h.up
  | down => exact (h.down hallowed.stops).bind fun r hr => hr
  | start name =>
    refine h.request name fun pane _ => (h.askFor pane fun hinv hplain hstop _ => ?_).mono fun _ ha => ha.1
    exact Slot.startPane_spec hinv hstop fun _ => hplain.dropDue
  | stop name =>
    exact h.request name fun pane hpane => (h.takeStop pane (fun hf => hallowed.stops hf pane hpane)
      fun h hn hl => Slot.stopPane_taken h hn hl).mono fun _ ha => ha.1
  | restart name =>
    refine h.request name fun pane _ => (h.askFor pane fun hinv hplain hstop _ => ?_).mono fun _ ha => ha.1
    exact Slot.restartPane_spec hinv hstop hplain.calm fun _ => hplain.dropDue
  | forceKill name =>
    exact h.request name fun pane hpane => (h.takeStop pane (fun hf => hallowed.stops hf pane hpane)
      fun h hn hl => Slot.forceKillPane_taken h hn hl).mono fun _ ha => ha.1
  | pause name =>
    exact h.request name fun pane _ => h.onPane_same (Slot.pausePane_spec (h.framed pane))
  | resume name =>
    exact h.request name fun pane _ => h.onPane_same (Slot.resumePane_spec (h.framed pane))
  | stackChanged specs => exact h.applyStack specs
  | sampled pane block =>
    refine h.onPane_same ?_
    exact (h.framed pane).congr rfl rfl rfl rfl rfl rfl rfl
  | output pane generation output =>
    refine h.onPane_same ?_
    exact h.output he hallowed.restarts
  | spawned pane generation result =>
    refine h.onPane_same ?_
    exact h.spawned he hallowed.drops
  | launchBlocked pane generation block =>
    refine h.onPane_same ?_
    exact Slot.handleLaunchBlocked_spec (h.framed pane) (hplain pane) he block
  | adopted pane generation record result =>
    refine h.onPane_same ?_
    exact h.adopted he hallowed
  | reconnectLocated pane generation record =>
    refine h.onPane_same ?_
    exact Slot.handleReconnectLocated_spec (h.framed pane) (hplain pane) he
      (Pledge.followed hallowed.restarts) record _
  | adoptionProbed pane attempt asked pid record =>
    refine h.onPane_same ?_
    have hreceive := (h.framed pane).receive (e := .probed attempt asked pid) fun _ => by simp
    exact Slot.handleAdoptionProbed_spec hreceive (hplain pane) attempt asked record
      fun hs => hallowed.stops (Pledge.isSome_stop hs)
  | adoptionRetryDue pane attempt =>
    refine h.onPane_same ?_
    have hreceive := (h.framed pane).receive (e := .retryDue attempt) fun _ => by simp
    exact Slot.handleAdoptionRetryDue_spec hreceive attempt
  | respawn pane generation =>
    refine h.onPane_same ?_
    exact Slot.handleRespawn_spec (h.framed pane) he rfl rfl fun hf hg =>
      Slot.isSound_sound (hallowed.restarts hf hg.symm) rfl
  | forceStop pane generation shutdownGeneration =>
    refine h.onPane_same ?_
    have hreceive := (h.framed pane).receive (e := .forceStop generation shutdownGeneration)
      fun _ => by simp
    exact Slot.handleForceStop_spec hreceive generation shutdownGeneration

theorem released_slot (slot : Slot) : slot.releaseSettledExit.run [] =
    if slot.awaitsRespawn then slot else { slot with heldExit := none } :=
  (Slot.all_releaseSettledExit (P := fun s' => s' = _).2 rfl).run []

theorem Kept.settled (h : Kept f s) : Kept f s.settled := by
  have hprocess : ∀ pane, (s.settled.slots pane).process = (s.slots pane).process := fun pane => by
    show ((s.slots pane).releaseSettledExit.run []).process = _
    rw [released_slot]
    split <;> rfl
  refine ⟨fun pane => ?_, h.order.filter _, fun pane hrow => ?_, fun pane r hr hout => ?_⟩
  · show Slot.Inv (f.terms s pane) ((s.slots pane).releaseSettledExit.run [])
    rw [released_slot]
    split
    · exact h.panes pane
    · exact (h.panes pane).congr rfl rfl rfl rfl rfl rfl rfl
  · rw [hprocess] at hrow
    exact List.mem_filter.2 ⟨h.rows pane hrow, hrow⟩
  · rw [hprocess] at hr
    exact h.named pane r hr hout

theorem Kept.next (h : Kept f s) {e : Event × List Bool} (he : machine.Enabled s e)
    (hallowed : f.Allows s e.1) : Kept f (machine.next s e) :=
  ((h.handle he hallowed).run e.2).settled

theorem kept_loaded (h : s.Loaded) : Kept f s := by
  obtain ⟨specs, runs, records, answers, rfl⟩ := h
  exact ((load_kept specs runs records).run answers).settled

/-- **Every run.**  What is kept holds of a project as it was loaded and of every state reached from
there through events that break no promise followed. -/
theorem kept_of_reaches {ok : Supervisor → Event × List Bool → Prop}
    (hok : ∀ s e, ok s e → f.Allows s e.1) {s₀ : Supervisor} (hload : s₀.Loaded)
    (hr : (machine.restrict ok).Reaches s₀ s) : Kept f s :=
  hr.invariant_restrict (fun _ e h he ho => h.next he (hok _ e ho)) (kept_loaded hload)

end Muster.Supervisor
