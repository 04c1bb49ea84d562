import Muster.Holder.Rests

/-!
# Signals — what the holder sends to its child's process group

Signals leave through the calls on the child's handle.  The grace timer and the first-supervisor
deadline look whether the child has exited; a supervisor's control request does not.
-/

namespace Muster.Holder

open Muster.Log
open Muster.Supervisor (ExitOutcome)

inductive Signal where
  | stop | cont | term | int | kill
deriving DecidableEq, Repr

def unixSignal : StopSignal → Signal
  | .terminate => .term
  | .interrupt => .int

def ChildCall.signals : ChildCall → List Signal
  | .pause => [.stop]
  | .resume => [.cont]
  -- a paused command cannot handle a shutdown signal until it resumes
  | .terminate signal _ => [.cont, unixSignal signal]
  | .kill => [.kill]
  | .resize _ => []

namespace Server

variable {τ : Type} {P : Platform τ} {s s' s'' : Server τ}

def signals (s : Server τ) : List Signal := s.calls.flatMap ChildCall.signals

/-! ### What serving clients leaves alone -/

/-- Serving clients neither ends the child or the loop nor signals anybody. -/
structure Kept (s s' : Server τ) : Prop where
  childExited : s'.childExited = s.childExited
  exit : s'.exit = s.exit
  supervised : s'.supervised = s.supervised
  finished : s'.finished = s.finished
  signals : s'.signals = s.signals

theorem Kept.refl (s : Server τ) : s.Kept s := ⟨rfl, rfl, rfl, rfl, rfl⟩

theorem Kept.trans (h : s.Kept s') (h' : s'.Kept s'') : s.Kept s'' :=
  ⟨h'.childExited.trans h.childExited, h'.exit.trans h.exit, h'.supervised.trans h.supervised,
    h'.finished.trans h.finished, h'.signals.trans h.signals⟩

theorem Told.kept (h : s.Told s') : s.Kept s' := by
  obtain ⟨⟨_, _, _, rfl⟩, -⟩ := h
  exact ⟨rfl, rfl, rfl, rfl, rfl⟩

theorem kept_applySize (z : PtySize) : s.Kept (s.applySize P z).1 := by
  have hsignals : (s.calls ++ [ChildCall.resize z]).flatMap ChildCall.signals = s.signals := by
    simp [ChildCall.signals, Server.signals]
  unfold Server.applySize Server.call
  dsimp only
  split
  · exact .refl s
  · split
    · exact ⟨rfl, rfl, rfl, rfl, hsignals⟩
    · exact ⟨rfl, rfl, rfl, rfl, hsignals⟩

theorem Rests.kept_fallback (hs : s.Rests) (c : ClientId) : s.Kept (s.fallback P c) := by
  have hrest : ({ s with resizes := s.resizes.filter (·.1 ≠ c) } : Server τ).Rests :=
    hs.of_eq rfl
  have hkept : s.Kept { s with resizes := s.resizes.filter (·.1 ≠ c) } := ⟨rfl, rfl, rfl, rfl, rfl⟩
  unfold Server.fallback
  dsimp only
  refine hkept.trans ?_
  split
  · split
    · split
      · exact (kept_applySize _).trans ((hrest.applySize _).told_resyncWhere _).kept
      · exact kept_applySize _
    · exact .refl _
  · exact .refl _

theorem Settled.kept_dropClient (hs : s.Settled) (c : ClientId) : s.Kept (s.dropClient P c) := by
  have hremove : s.Kept (s.remove c) := ⟨rfl, rfl, rfl, rfl, rfl⟩
  rw [dropClient_eq]
  exact (hremove.trans (hs.remove c).told_reportAttached.kept).trans
    ((hs.remove c).reportAttached.kept_fallback c)

theorem Rests.kept_send (hs : s.Rests) (c : ClientId) (m : HolderMessage) :
    s.Kept (s.send P c m) := by
  by_cases hintro : s.Introduced c
  · rw [send_eq_tell hintro, hs.tell_eq]
    exact (told_mapAt _).kept
  · unfold Introduced at hintro
    push Not at hintro
    obtain ⟨e, he, hrole⟩ := hintro
    have hoffered : (s.mapAt fun d e => if d = c then (s.scene P).offered P m e else e).Rests :=
      hs.mapAt fun d e => by split <;> rfl
    rw [send_unintroduced he hrole]
    split
    · exact (told_mapAt _).kept
    · exact (told_mapAt _).kept.trans (hoffered.kept_dropClient c)

theorem Rests.kept_onOutput (hs : s.Rests) (bytes : Bytes) (held : Held) (failed : Bool) :
    s.Kept (s.onOutput P bytes held failed) := by
  have hlogged : s.Kept (s.logOutput P bytes held) := by
    obtain ⟨input, habsorb⟩ := absorb_frame P s bytes
    unfold Server.logOutput
    rw [habsorb]
    exact ⟨rfl, rfl, rfl, rfl, rfl⟩
  exact hlogged.trans (hs.told_onOutput bytes held failed).kept

theorem Rests.onExit_records (hs : s.Rests) (outcome : ExitOutcome) :
    Kept { s with childExited := true, exit := some outcome } (s.onExit P outcome) := by
  rw [hs.onExit_eq]
  exact (told_mapAt _).kept

/-! ### Hello and the other messages -/

theorem Rests.kept_evict (hs : s.Rests) : Kept { s with supervised := true } (s.evict P) := by
  have hmarked : ({ s with supervised := true } : Server τ).Rests :=
    hs.of_eq rfl
  unfold Server.evict
  dsimp only
  rcases hmarked.supervisors with hnone | ⟨d, -, hone⟩
  · rw [hnone]
    exact .refl _
  · rw [hone]
    exact hmarked.kept_dropClient d

theorem Rests.onHello_marks (hs : s.Rests) {c : ClientId}
    (hnew : ∀ e, s.clients c = some e → e.role = none) (role : ClientRole) :
    Kept { s with supervised := s.supervised || decide (role = .supervisor) }
      (s.onHello P c role) := by
  rw [onHello_eq]
  split
  · next hrole =>
    simp only [hrole, decide_true, Bool.or_true]
    exact hs.kept_evict.trans (hs.evict.1.told_introduce (fun e => role_of_evict hnew) _).kept
  · next hrole =>
    simp only [hrole, decide_false, Bool.or_false]
    exact (hs.told_introduce hnew role).kept

/-- What a message does to the child and to the loop, by who sent it. -/
inductive Effect (s : Server τ) (c : ClientId) : ClientMessage → Server τ → Prop
  | served {m : ClientMessage} {s' : Server τ} (h : s.Kept s') : Effect s c m s'
  | greeted {s' : Server τ} (hrole : s.roleOf c = none) (hthere : (s.clients c).isSome = true)
    (h : Kept { s with supervised := true } s') : Effect s c (.hello .supervisor) s'
  | controlled (control : HolderControl) {s' : Server τ} (hrole : s.roleOf c = some .supervisor)
    (h : Kept (s.runControl control).1 s') : Effect s c (.control control) s'
  | collected (hrole : s.roleOf c = some .supervisor) (hexit : s.exit.isSome = true) :
    Effect s c .collectExit { s with finished := true }

/-- Only a supervisor's message controls the child or ends the loop. -/
theorem Rests.onMessage_effect (hs : s.Rests) (c : ClientId) (m : ClientMessage) :
    Effect s c m (s.onMessage P c m) := by
  cases he : s.clients c with
  | none =>
    refine .served ?_
    unfold Server.onMessage
    rw [he]
    exact .refl s
  | some e =>
    have hroleOf : s.roleOf c = e.role := by simp [roleOf, he]
    refine onMessage_cases he (fun hrole role hm => ?_) (fun _ _ => .served (hs.kept_send ..))
      (fun bytes _ _ => ?_) (fun size _ _ => ?_) (fun control hm hrole => ?_) fun hm hrole hexit => ?_
    · have hnew : ∀ e', s.clients c = some e' → e'.role = none := fun e' he' => by
        rw [he] at he'
        rwa [← Option.some.inj he']
      have hmarks := hs.onHello_marks (P := P) hnew role
      rw [hm]
      cases role with
      | attach readOnly => exact .served (by simpa using hmarks)
      | supervisor => exact .greeted (hroleOf.trans hrole) (by simp [he]) (by simpa using hmarks)
    · have hpushed : (s.pushInput bytes).1.Rests :=
        hs.of_eq rfl
      have hkept : s.Kept (s.pushInput bytes).1 := ⟨rfl, rfl, rfl, rfl, rfl⟩
      exact ⟨.served hkept, .served (hkept.trans (hpushed.kept_send ..))⟩
    · have hasked : (s.asked c size).Rests :=
        hs.of_eq rfl
      have hkept : s.Kept (s.asked c size) := ⟨rfl, rfl, rfl, rfl, rfl⟩
      have hkept := hkept.trans (kept_applySize (P := P) size)
      have hsized := hasked.applySize (P := P) size
      exact ⟨fun _ => .served (hkept.trans (hsized.told_resyncWhere _).kept), fun _ => .served hkept,
        fun _ => .served (hkept.trans (hsized.kept_send ..))⟩
    · have hcontrolled := hs.runControl control
      rw [hm]
      exact ⟨.controlled control (hroleOf.trans hrole) (.refl _),
        .controlled control (hroleOf.trans hrole) (hcontrolled.kept_send ..)⟩
    · rw [hm]
      exact .collected (hroleOf.trans hrole) hexit

/-! ### After the exit -/

/-- The event is a control request of the current supervisor. -/
def Controls (s : Server τ) : HolderEvent → Prop
  | .message c (.control _) => s.roleOf c = some .supervisor
  | _ => False

instance (s : Server τ) : DecidablePred s.Controls
  | .message _ (.control _) => inferInstanceAs (Decidable (_ = _))
  | .message _ (.hello _) | .message _ (.input _) | .message _ (.resize _) | .message _ .collectExit
  | .output .. | .exited _ | .graceElapsed | .supervisorDeadline | .connected .. | .disconnected _
  | .writer .. | .inputWriter _ | .reorder _ => .isFalse id

theorem Rests.signals_step (hs : s.Rests) (hexited : s.childExited = true) {ev : HolderEvent}
    (hev : ¬ s.Controls ev) : (s.step P ev).childExited = true ∧ (s.step P ev).signals = s.signals := by
  have hkept : ∀ {s'}, s.Kept s' → s'.childExited = true ∧ s'.signals = s.signals := fun h =>
    ⟨h.childExited.trans hexited, h.signals⟩
  cases ev with
  | output bytes held failed => exact hkept (hs.kept_onOutput bytes held failed)
  | exited outcome =>
    have h := hs.onExit_records (P := P) outcome
    exact ⟨h.childExited, h.signals⟩
  | graceElapsed => simp [Server.step, hexited, signals]
  | supervisorDeadline =>
    unfold Server.step
    dsimp only
    split
    · exact ⟨hexited, rfl⟩
    · simp [hexited, signals]
  | connected c cloned races =>
    unfold Server.step Server.onConnected
    dsimp only
    split <;> exact ⟨hexited, rfl⟩
  | message c m =>
    have heffect := hs.onMessage_effect (P := P) c m
    show (s.onMessage P c m).childExited = true ∧ (s.onMessage P c m).signals = s.signals
    generalize s.onMessage P c m = s' at heffect
    cases heffect with
    | served h => exact hkept h
    | greeted _ _ h => exact ⟨h.childExited.trans hexited, h.signals⟩
    | controlled control hrole _ => exact absurd hrole hev
    | collected _ _ => exact ⟨hexited, rfl⟩
  | disconnected c => exact hkept (hs.kept_dropClient c)
  | writer c move =>
    unfold Server.step
    dsimp only
    split <;> exact ⟨hexited, rfl⟩
  | inputWriter move => exact ⟨hexited, rfl⟩
  | reorder ids => exact ⟨hexited, rfl⟩

/-- After the event that records the child's exit no signal is sent, along every run in which no
control request of a current supervisor is handled any more. -/
theorem no_signal_after_exit (P : Platform τ) {terminal : τ} {size : PtySize} {pid : ℕ} {log : Bytes}
    {runStart : ℕ} {outcomes : List Bool} {races : List (List (List Move))} {outcome : ExitOutcome}
    (hr : (machine P).Reaches (new terminal size pid log runStart outcomes races) s)
    (hexit : (machine P).Enabled s (.exited outcome))
    (hafter : ((machine P).restrict fun s ev => ¬ s.Controls ev).Reaches
      ((machine P).next s (.exited outcome)) s') :
    s'.signals = s.signals := by
  have hstart := rests_of_reaches (hr.next hexit)
  have hrecords := (rests_of_reaches hr).2.onExit_records (P := P) outcome
  have hinv := hafter.invariant_restrict
    (P := fun t => (t.Inv ∧ t.Rests) ∧ t.childExited = true ∧ t.signals = s.signals)
    (fun t ev ht hev hok => by
      obtain ⟨⟨hi, hrests⟩, hexited, hsame⟩ := ht
      obtain ⟨hexited', hsame'⟩ := hrests.signals_step (P := P) hexited hok
      exact ⟨⟨hi.step hev, hrests.step hi hev⟩, hexited', hsame'.trans hsame⟩)
    ⟨hstart, hrecords.childExited, hrecords.signals⟩
  exact hinv.2.2

def stopped : Server Unit :=
  (machine plain).play (new () ⟨24, 80⟩ 7 [] 0 [true] [])
    [.connected 0 true [], .message 0 (.hello .supervisor),
      .message 0 (.control (.terminate .interrupt 5))]

def afterStop : List HolderEvent :=
  [.graceElapsed, .connected 1 true [], .message 1 (.hello (.attach false)),
    .message 1 (.control .kill), .disconnected 0, .supervisorDeadline]

theorem no_signal_after_exit_of_grace :
    ((machine plain).play ((machine plain).next stopped (.exited .succeeded)) afterStop).signals =
      [.cont, .int] := by
  have hr : (machine plain).Reaches (new () ⟨24, 80⟩ 7 [] 0 [true] []) stopped :=
    Machine.reaches_play (by decide)
  have hafter : ((machine plain).restrict fun s ev => ¬ s.Controls ev).Reaches
      ((machine plain).next stopped (.exited .succeeded))
      ((machine plain).play ((machine plain).next stopped (.exited .succeeded)) afterStop) :=
    Machine.reaches_play_restrict (by decide)
  exact (no_signal_after_exit plain hr (by decide) hafter).trans (by decide)

def supervisedRun : Server Unit :=
  (machine plain).play (new () ⟨24, 80⟩ 7 [] 0 [true] [])
    [.connected 0 true [], .message 0 (.hello .supervisor)]

/-- A supervisor that has not collected the exit asks for a pause: the group of a pid that may be
somebody else's by then is sent a signal. -/
theorem pause_signals_after_exit :
    ∃ s t : Server Unit, (machine plain).Reaches (new () ⟨24, 80⟩ 7 [] 0 [true] []) s ∧
      (machine plain).Enabled s (.exited .succeeded) ∧
      (machine plain).Reaches ((machine plain).next s (.exited .succeeded)) t ∧
      s.signals = [] ∧ t.signals = [.stop] := by
  refine ⟨supervisedRun, (machine plain).next ((machine plain).next supervisedRun
    (.exited .succeeded)) (.message 0 (.control .pause)), ?_, ?_, ?_, ?_, ?_⟩
  · exact Machine.reaches_play (by decide)
  · decide
  · exact Machine.Reaches.next .refl (by decide)
  · decide
  · decide

end Server

end Muster.Holder
