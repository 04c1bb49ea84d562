import Muster.Holder.Protocol
import Muster.Lib.Machine

/-!
# PtyRunner — one child under a PTY, its reader thread and its waiter thread

The reader passes on what it reads from the PTY; the waiter reports the exit once the reader is gone.
Between them stand a channel on which the reader says that it has finished, and a bounded wait for that and
for the child's group.  The processes on the other side of the PTY write, let go of it and end as they like.
A thread that is blocked has no turn.  Time is in milliseconds.
-/

namespace Muster.Holder

open Muster.Log
open Muster.Supervisor (ExitOutcome)

namespace Pty

def readBufferBytes : ℕ := 4096
def exitDrainGrace : ℕ := 200
def processGroupPollInterval : ℕ := 10

structure ExitStatus where
  code : ℕ
  /-- The signal that ended it, as the system describes it. -/
  signal : Option String
deriving DecidableEq, Repr

def ExitStatus.success (status : ExitStatus) : Bool := status.signal.isNone && status.code == 0

/-- How a child that ended with `status` exited; `signalName` recovers a signal's name. -/
def exitOutcome (signalName : String → Option String) (status : ExitStatus) : ExitOutcome :=
  match status.signal with
  | some described =>
    match signalName described with
    | some name => .failed (.signal name)
    | none => .failedUnknown
  | none => if status.success then .succeeded else .failed (.status status.code)

def waitOutcome (signalName : String → Option String) : Option ExitStatus → ExitOutcome
  | some status => exitOutcome signalName status
  | none => .failedUnknown

inductive Output where
  | chunk (bytes : Bytes)
  | exited (outcome : ExitOutcome)
deriving DecidableEq, Repr

def Output.bytes : Output → Bytes
  | chunk bytes => bytes
  | exited _ => []

/-- Where the reader thread stands. -/
inductive ReaderAt where
  | reading
  /-- Has read a chunk and not sent it. -/
  | sending (bytes : Bytes)
  /-- Out of its loop, and has not said so. -/
  | broke
  /-- Has said that it is done, and still runs. -/
  | signalled
  | gone
deriving DecidableEq, Repr

def ReaderAt.inHand : ReaderAt → Bytes
  | sending bytes => bytes
  | _ => []

/-- Where the waiter thread stands: `readerDone` once it has taken the reader's word. -/
inductive WaiterAt where
  | waiting
  /-- The child's wait has returned. -/
  | waited (outcome : ExitOutcome)
  /-- At the head of the drain's loop. -/
  | looking (outcome : ExitOutcome) (started grace : ℕ) (readerDone : Bool)
  /-- Waits for the reader's word or sleeps, at most until `wake`. -/
  | polling (outcome : ExitOutcome) (started grace : ℕ) (readerDone : Bool) (wake : ℕ)
  /-- The drain timed out. -/
  | terminating (outcome : ExitOutcome) (readerDone : Bool)
  | receiving (outcome : ExitOutcome) (readerDone : Bool)
  | joining (outcome : ExitOutcome)
  | reported
deriving DecidableEq, Repr

structure Runner where
  clock : ℕ
  /-- Whether the platform gave the child's pid, without which there is no group to ask about. -/
  pid : Bool
  /-- Whether some process holds the other side of the PTY. -/
  held : Bool
  /-- Written to the PTY and not read. -/
  unread : Bytes
  ended : Option ExitStatus
  groupAlive : Bool
  /-- The grace a stop published and the waiter has not taken. -/
  grace : Option ℕ
  reader : ReaderAt
  waiter : WaiterAt
  sent : List Output
  /-- What waiting for the child gave once it returned, when the waiter killed the group, every byte
  written and whether a read failed; no step looks at these. -/
  waitGave : Option (Option ExitStatus)
  killedAt : Option ℕ
  written : Bytes
  readFailed : Bool
deriving DecidableEq, Repr

def Runner.new (pid : Bool) : Runner :=
  ⟨0, pid, true, [], none, true, none, .reading, .waiting, [], none, none, [], false⟩

inductive Event where
  | wrote (bytes : Bytes)
  /-- The last process holding the PTY lets go of it. -/
  | letGo
  | childEnded (status : ExitStatus)
  | groupEnded
  | passed (time : ℕ)
  | stopping (grace : ℕ)
  /-- A read returns `n` bytes, nothing once the PTY is drained and let go of, or an error. -/
  | read (n : ℕ)
  | readEnd
  | readError
  /-- A turn of the reader outside `read`. -/
  | reader
  /-- A turn of the waiter; `waits` is whether waiting for the child works. -/
  | waiter (waits : Bool)
deriving DecidableEq, Repr

namespace Runner

variable (signalName : String → Option String) (s : Runner)

/-- The reader's word is in the channel, or was taken from it. -/
def signalled : Bool := s.reader = .signalled || s.reader = .gone

def groupIsAlive : Bool := s.pid && s.groupAlive

def publish (grace : ℕ) : Runner := { s with grace := some (s.grace.getD grace) }

/-- The reader's turn outside `read`; none where it has to read or has ended. -/
def readerTurn : Option Runner :=
  match s.reader with
  | .sending bytes => some { s with sent := s.sent ++ [.chunk bytes], reader := .reading }
  | .broke => some { s with reader := .signalled }
  | .signalled => some { s with reader := .gone }
  | .reading | .gone => none

/-- The waiter's turn; none where it is blocked or has reported. -/
def waiterTurn (waits : Bool) : Option Runner :=
  match s.waiter with
  | .waiting =>
    let returned (status : Option ExitStatus) : Runner :=
      { s with waitGave := some status, waiter := .waited (waitOutcome signalName status) }
    if waits then s.ended.map fun status => returned (some status) else some (returned none)
  | .waited outcome =>
    let grace := s.grace.getD exitDrainGrace
    some { s with grace := none, waiter := .looking outcome s.clock grace s.signalled }
  | .looking outcome started grace readerDone =>
    if readerDone && !s.groupIsAlive then some { s with waiter := .joining outcome }
    else
      let remaining := grace - (s.clock - started)
      if remaining = 0 then some { s with waiter := .terminating outcome readerDone }
      else
        let wake := s.clock + min remaining processGroupPollInterval
        some { s with waiter := .polling outcome started grace readerDone wake }
  | .polling outcome started grace readerDone wake =>
    if !readerDone && s.signalled then some { s with waiter := .looking outcome started grace true }
    else if wake ≤ s.clock then some { s with waiter := .looking outcome started grace readerDone }
    else none
  | .terminating outcome readerDone =>
    some { s with killedAt := some s.clock, waiter := .receiving outcome readerDone }
  | .receiving outcome readerDone =>
    -- with the word taken before, only the reader's end closes the channel
    if !readerDone && s.signalled || s.reader = .gone then some { s with waiter := .joining outcome }
    else none
  | .joining outcome =>
    if s.reader = .gone then
      some { s with sent := s.sent ++ [.exited outcome], waiter := .reported }
    else none
  | .reported => none

def next : Event → Runner
  | .wrote bytes => { s with unread := s.unread ++ bytes, written := s.written ++ bytes }
  | .letGo => { s with held := false }
  | .childEnded status => { s with ended := some status }
  | .groupEnded => { s with groupAlive := false }
  | .passed time => { s with clock := s.clock + time }
  | .stopping grace => s.publish grace
  | .read n => { s with unread := s.unread.drop n, reader := .sending (s.unread.take n) }
  | .readEnd => { s with reader := .broke }
  | .readError => { s with reader := .broke, readFailed := true }
  | .reader => s.readerTurn.getD s
  | .waiter waits => (s.waiterTurn signalName waits).getD s

def Enabled : Event → Prop
  | .wrote _ => s.held = true
  | .childEnded _ => s.ended = none
  | .read n => s.reader = .reading ∧ 0 < n ∧ n ≤ readBufferBytes ∧ n ≤ s.unread.length
  | .readEnd => s.reader = .reading ∧ s.held = false ∧ s.unread = []
  | .readError => s.reader = .reading
  | .reader => s.readerTurn.isSome = true
  | .waiter waits => (s.waiterTurn signalName waits).isSome = true
  | .letGo | .groupEnded | .passed _ | .stopping _ => True

def machine : Machine Runner Event := ⟨Enabled signalName, next signalName⟩

instance decidableMachine (s : Runner) : ∀ e, Decidable ((machine signalName).Enabled s e)
  | .wrote _ | .childEnded _ | .readError | .reader | .waiter _ => inferInstanceAs (Decidable (_ = _))
  | .read _ | .readEnd => inferInstanceAs (Decidable (_ ∧ _))
  | .letGo | .groupEnded | .passed _ | .stopping _ => .isTrue trivial

/-! ### What a turn of the waiter does -/

variable {signalName : String → Option String} {s t : Runner}

/-- The turns that only move the waiter. -/
inductive Moves (s : Runner) : WaiterAt → WaiterAt → Prop
  | drained {outcome started grace} (hgroup : s.groupIsAlive = false) :
    Moves s (.looking outcome started grace true) (.joining outcome)
  | late {outcome started grace readerDone} (hlate : grace ≤ s.clock - started) :
    Moves s (.looking outcome started grace readerDone) (.terminating outcome readerDone)
  | slept {outcome started grace readerDone wake} (hwake : s.clock < wake)
    (hend : wake ≤ s.clock + (grace - (s.clock - started))) :
    Moves s (.looking outcome started grace readerDone) (.polling outcome started grace readerDone wake)
  | heard {outcome started grace wake} (hsignalled : s.signalled = true) :
    Moves s (.polling outcome started grace false wake) (.looking outcome started grace true)
  | woke {outcome started grace readerDone wake} (hwake : wake ≤ s.clock) :
    Moves s (.polling outcome started grace readerDone wake) (.looking outcome started grace readerDone)
  | received {outcome readerDone} (hsignalled : s.signalled = true) :
    Moves s (.receiving outcome readerDone) (.joining outcome)

/-- The outcome is what waiting for the child gave: the status the child ended with, or that it failed. -/
def Gave (signalName : String → Option String) (s : Runner) (outcome : ExitOutcome) : Prop :=
  ∃ status, s.waitGave = some status ∧ outcome = waitOutcome signalName status ∧
    (status.isSome → s.ended = status)

inductive Turned (signalName : String → Option String) (s : Runner) : Runner → Prop
  | returned {status} (hat : s.waiter = .waiting) (hended : status.isSome → s.ended = status) :
    Turned signalName s
      { s with waitGave := some status, waiter := .waited (waitOutcome signalName status) }
  | began {outcome} (hat : s.waiter = .waited outcome) :
    Turned signalName s { s with
      grace := none
      waiter := .looking outcome s.clock (s.grace.getD exitDrainGrace) s.signalled }
  | moved {into} (hmoves : s.Moves s.waiter into) : Turned signalName s { s with waiter := into }
  | killed {outcome readerDone} (hat : s.waiter = .terminating outcome readerDone) :
    Turned signalName s { s with killedAt := some s.clock, waiter := .receiving outcome readerDone }
  | told {outcome} (hat : s.waiter = .joining outcome) (hgone : s.reader = .gone) :
    Turned signalName s { s with sent := s.sent ++ [.exited outcome], waiter := .reported }

theorem turned_of_waiterTurn {waits : Bool} (h : s.waiterTurn signalName waits = some t) :
    Turned signalName s t := by
  unfold waiterTurn at h
  split at h
  · next hat =>
    split at h
    · obtain ⟨status, hended, rfl⟩ := Option.map_eq_some_iff.1 h
      exact .returned hat fun _ => hended
    · obtain rfl := Option.some.inj h
      exact .returned hat nofun
  · next outcome hat =>
    obtain rfl := Option.some.inj h
    exact .began hat
  · next outcome started grace readerDone hat =>
    split at h
    · next hdone =>
      obtain ⟨rfl, hgroup⟩ : readerDone = true ∧ s.groupIsAlive = false := by simpa using hdone
      obtain rfl := Option.some.inj h
      exact .moved (hat ▸ .drained hgroup)
    · dsimp only at h
      split at h
      · next hzero =>
        obtain rfl := Option.some.inj h
        exact .moved (hat ▸ .late (by omega))
      · next hzero =>
        obtain rfl := Option.some.inj h
        have hpoll : 0 < min (grace - (s.clock - started)) processGroupPollInterval := by
          unfold processGroupPollInterval
          omega
        exact .moved (hat ▸ .slept (by omega) (by omega))
  · next outcome started grace readerDone wake hat =>
    split at h
    · next hheard =>
      obtain ⟨rfl, hsignalled⟩ : readerDone = false ∧ s.signalled = true := by simpa using hheard
      obtain rfl := Option.some.inj h
      exact .moved (hat ▸ .heard hsignalled)
    · split at h
      · next hwake =>
        obtain rfl := Option.some.inj h
        exact .moved (hat ▸ .woke hwake)
      · cases h
  · next outcome readerDone hat =>
    obtain rfl := Option.some.inj h
    exact .killed hat
  · next outcome readerDone hat =>
    split at h
    · next hreceived =>
      obtain rfl := Option.some.inj h
      refine .moved (hat ▸ .received ?_)
      unfold signalled at hreceived ⊢
      grind
    · cases h
  · next outcome hat =>
    split at h
    · next hgone =>
      obtain rfl := Option.some.inj h
      exact .told hat hgone
    · cases h
  · cases h

theorem turned_next {waits : Bool} (h : s.Enabled signalName (.waiter waits)) :
    Turned signalName s (s.next signalName (.waiter waits)) := by
  obtain ⟨t, ht⟩ := Option.isSome_iff_exists.1 h
  exact turned_of_waiterTurn (ht.trans (by simp [next, ht]))

theorem readerTurn_next (h : s.Enabled signalName .reader) :
    s.readerTurn = some (s.next signalName .reader) := by
  obtain ⟨t, ht⟩ := Option.isSome_iff_exists.1 h
  simp [next, ht]

/-! ### The exit comes after the output -/

end Runner

def WaiterAt.outcome : WaiterAt → Option ExitOutcome
  | waiting | reported => none
  | waited outcome | looking outcome .. | polling outcome .. | terminating outcome _ | receiving outcome _
  | joining outcome => some outcome

def ReaderAt.left : ReaderAt → Bool
  | reading | sending _ => false
  | broke | signalled | gone => true

namespace Runner

variable {signalName : String → Option String} {s t : Runner} {into : WaiterAt} {e : Event}

structure Inv (signalName : String → Option String) (s : Runner) : Prop where
  bytes : s.sent.flatMap Output.bytes ++ (s.reader.inHand ++ s.unread) = s.written
  chunks : ∀ bytes, .chunk bytes ∈ s.sent ∨ s.reader = .sending bytes →
    bytes ≠ [] ∧ bytes.length ≤ readBufferBytes
  drained : s.reader.left = true → s.readFailed = true ∨ (s.held = false ∧ s.unread = [])
  gave : ∀ outcome, s.waiter.outcome = some outcome ∨ .exited outcome ∈ s.sent → s.Gave signalName outcome
  unkilled : s.waiter = .waiting → s.killedAt = none
  silent : s.waiter ≠ .reported → ∀ outcome, .exited outcome ∉ s.sent
  told : s.waiter = .reported → s.reader = .gone ∧ ∃ chunks outcome, s.sent = chunks ++ [.exited outcome] ∧
    ∀ other, .exited other ∉ chunks

theorem inv_new (pid : Bool) : Inv signalName (new pid) where
  bytes := rfl
  chunks := by simp [new]
  drained := by simp [new, ReaderAt.left]
  gave := by simp [new, WaiterAt.outcome]
  unkilled _ := rfl
  silent := by simp [new]
  told := by simp [new]

theorem Moves.outcome_eq {place : WaiterAt} (h : s.Moves place into) : into.outcome = place.outcome := by
  cases h <;> rfl

theorem Moves.unreported {place : WaiterAt} (h : s.Moves place into) :
    place ≠ .reported ∧ into ≠ .reported ∧ into ≠ .waiting := by
  cases h <;> simp

theorem Inv.move (h : Inv signalName s) {grace : Option ℕ} {killed : Option ℕ}
    (hat : s.waiter ≠ .reported) (hinto : into ≠ .reported ∧ into ≠ .waiting)
    (hgave : ∀ outcome, into.outcome = some outcome → s.Gave signalName outcome) :
    Inv signalName { s with waiter := into, grace := grace, killedAt := killed } where
  bytes := h.bytes
  chunks := h.chunks
  drained := h.drained
  gave outcome ho := ho.elim (hgave outcome) fun hmem => h.gave outcome (.inr hmem)
  unkilled hwaiting := absurd hwaiting hinto.2
  silent _ := h.silent hat
  told htold := absurd htold hinto.1

theorem Inv.turned (h : Inv signalName s) (ht : Turned signalName s t) : Inv signalName t := by
  rcases ht with ⟨hat, hended⟩ | ⟨hat⟩ | ⟨hmoves⟩ | ⟨hat⟩ | ⟨hat, hgone⟩
  · -- no exit was sent before the wait returned
    have hsilent := h.silent (by simp [hat])
    refine { h with
      gave := fun outcome ho => ?_, unkilled := nofun, silent := fun _ => hsilent, told := nofun }
    obtain rfl := Option.some.inj (ho.resolve_right (hsilent outcome))
    exact ⟨_, rfl, rfl, hended⟩
  · exact h.move (by simp [hat]) (by simp) fun outcome ho => h.gave outcome (.inl (hat ▸ ho))
  · exact h.move hmoves.unreported.1 hmoves.unreported.2 fun outcome ho =>
      h.gave outcome (.inl (hmoves.outcome_eq ▸ ho))
  · exact h.move (by simp [hat]) (by simp) fun outcome ho => h.gave outcome (.inl (hat ▸ ho))
  · next outcome =>
    have hsilent := h.silent (by simp [hat])
    exact {
      bytes := by simpa [Output.bytes] using h.bytes
      chunks := fun bytes hbytes => h.chunks bytes (by simpa using hbytes)
      drained := h.drained
      gave := fun other ho => h.gave other (by simpa [hat, WaiterAt.outcome, or_comm, eq_comm] using ho)
      unkilled := fun hwaiting => by cases hwaiting
      silent := fun hne => absurd rfl hne
      told := fun _ => ⟨hgone, s.sent, outcome, rfl, hsilent⟩ }

theorem Inv.read (h : Inv signalName s) (hgone : s.reader ≠ .gone) {sent : List Output} {unread : Bytes}
    {reader : ReaderAt} {failed : Bool}
    (hbytes : sent.flatMap Output.bytes ++ (reader.inHand ++ unread) = s.written)
    (hchunks : ∀ bytes, .chunk bytes ∈ sent ∨ reader = .sending bytes →
      bytes ≠ [] ∧ bytes.length ≤ readBufferBytes)
    (hdrained : reader.left = true → failed = true ∨ (s.held = false ∧ unread = []))
    (hsent : ∀ outcome, .exited outcome ∈ sent → .exited outcome ∈ s.sent) :
    Inv signalName { s with sent := sent, unread := unread, reader := reader, readFailed := failed } where
  bytes := hbytes
  chunks := hchunks
  drained := hdrained
  gave outcome ho := h.gave outcome (ho.imp_right (hsent outcome))
  unkilled := h.unkilled
  silent hne outcome hmem := h.silent hne outcome (hsent outcome hmem)
  told htold := absurd (h.told htold).1 hgone

theorem Inv.leave (h : Inv signalName s) (hgone : s.reader ≠ .gone) (hhand : s.reader.inHand = [])
    {reader : ReaderAt} {failed : Bool} (hleft : reader.left = true)
    (hdrained : failed = true ∨ (s.held = false ∧ s.unread = [])) :
    Inv signalName { s with reader := reader, readFailed := failed } := by
  have hempty : reader.inHand = [] := by cases reader <;> trivial
  refine h.read hgone (hempty.trans hhand.symm ▸ h.bytes) (fun bytes hb => ?_) (fun _ => hdrained)
    fun _ hmem => hmem
  rcases hb with hmem | rfl
  · exact h.chunks bytes (.inl hmem)
  · cases hleft

theorem Inv.readerTurn (h : Inv signalName s) (ht : s.readerTurn = some t) : Inv signalName t := by
  unfold Runner.readerTurn at ht
  split at ht
  · next bytes hat =>
    obtain rfl := Option.some.inj ht
    refine h.read (by simp [hat]) ?_ (fun other hother => ?_) (fun hleft => ?_)
      fun outcome hmem => by simpa using hmem
    · simpa [hat, ReaderAt.inHand, Output.bytes] using h.bytes
    · rcases hother with hmem | hat'
      · rcases List.mem_append.1 hmem with hmem | hmem
        · exact h.chunks other (.inl hmem)
        · obtain rfl : other = bytes := by simpa using hmem
          exact h.chunks other (.inr hat)
      · cases hat'
    · cases hleft
  · next hat =>
    obtain rfl := Option.some.inj ht
    exact h.leave (by simp [hat]) (by simp [hat, ReaderAt.inHand]) rfl
      (h.drained (by simp [hat, ReaderAt.left]))
  · next hat =>
    obtain rfl := Option.some.inj ht
    exact h.leave (by simp [hat]) (by simp [hat, ReaderAt.inHand]) rfl
      (h.drained (by simp [hat, ReaderAt.left]))
  · cases ht
  · cases ht

theorem Inv.next (h : Inv signalName s) (he : s.Enabled signalName e) :
    Inv signalName (s.next signalName e) := by
  cases e with
  | wrote bytes =>
    have hheld : s.held = true := he
    refine { h with bytes := ?_, drained := fun hleft => ?_ }
    · show s.sent.flatMap Output.bytes ++ (s.reader.inHand ++ (s.unread ++ bytes)) = s.written ++ bytes
      rw [← h.bytes]
      simp
    · exact (h.drained hleft).imp_right fun hdrained => by simp [hheld] at hdrained
  | letGo => exact { h with drained := fun hleft => (h.drained hleft).imp_right fun hd => ⟨rfl, hd.2⟩ }
  | childEnded status =>
    have hended : s.ended = none := he
    -- nobody has been given a status before there is one
    have hgave : ∀ outcome, s.Gave signalName outcome →
        Gave signalName { s with ended := some status } outcome := by
      rintro outcome ⟨given, hgiven, houtcome, hstatus⟩
      refine ⟨given, hgiven, houtcome, fun hsome => ?_⟩
      rw [← hstatus hsome, hended] at hsome
      cases hsome
    exact { h with gave := fun outcome ho => hgave outcome (h.gave outcome ho) }
  | groupEnded | passed _ => exact { h with }
  | stopping grace => exact { h with }
  | read n =>
    obtain ⟨hat, hpos, hbuffer, hlen⟩ := he
    refine h.read (by simp [hat]) ?_ (fun bytes hb => ?_) (fun hleft => by cases hleft)
      fun _ hmem => hmem
    · simpa [hat, ReaderAt.inHand] using h.bytes
    · rcases hb with hmem | hb
      · exact h.chunks bytes (.inl hmem)
      · obtain rfl : s.unread.take n = bytes := by simpa using hb
        rw [List.length_take, Nat.min_eq_left hlen]
        refine ⟨fun hnil => ?_, hbuffer⟩
        rw [← List.length_eq_zero_iff, List.length_take] at hnil
        omega
  | readEnd =>
    obtain ⟨hat, hheld, hunread⟩ := he
    exact h.leave (by simp [hat]) (by simp [hat, ReaderAt.inHand]) rfl (.inr ⟨hheld, hunread⟩)
  | readError =>
    have hat : s.reader = .reading := he
    exact h.leave (by simp [hat]) (by simp [hat, ReaderAt.inHand]) rfl (.inl rfl)
  | reader => exact h.readerTurn (readerTurn_next he)
  | waiter waits => exact h.turned (turned_next he)

theorem inv_of_reaches {pid : Bool} (hr : (machine signalName).Reaches (new pid) s) : Inv signalName s :=
  hr.invariant (P := Inv signalName) (fun _ _ hs he => hs.next he) (inv_new pid)

/-- **The exit follows the output.**  However the threads, the child and its descendants interleave, what
was sent, what the reader has in hand and what is unread make up what was written, in chunks that fit the
buffer; and the exit is sent once, last, with what waiting for the child gave, and, unless a read failed,
only when every process has let go of the PTY and everything written has been sent. -/
theorem exit_follows_output {pid : Bool} (hr : (machine signalName).Reaches (new pid) s) :
    s.sent.flatMap Output.bytes ++ (s.reader.inHand ++ s.unread) = s.written ∧
    (∀ bytes, .chunk bytes ∈ s.sent → bytes ≠ [] ∧ bytes.length ≤ readBufferBytes) ∧
    ∀ before outcome after, s.sent = before ++ .exited outcome :: after →
      after = [] ∧ (∀ other, .exited other ∉ before) ∧ s.Gave signalName outcome ∧
      (s.readFailed = false → s.held = false ∧ before.flatMap Output.bytes = s.written) := by
  have hinv := inv_of_reaches hr
  refine ⟨hinv.bytes, fun bytes hmem => hinv.chunks bytes (.inl hmem), fun before outcome after hsent => ?_⟩
  have hreported : s.waiter = .reported := by
    by_contra hne
    exact hinv.silent hne outcome (by simp [hsent])
  obtain ⟨hgone, chunks, last, hlast, hnone⟩ := hinv.told hreported
  rw [hsent] at hlast
  -- with something after it, the exit found would be among the chunks
  rcases List.eq_nil_or_concat after with rfl | ⟨init, output, rfl⟩
  swap
  · have hjoined : (before ++ .exited outcome :: init) ++ [output] = chunks ++ [.exited last] := by
      simpa using hlast
    exact absurd ((List.append_inj' hjoined rfl).1 ▸ by simp) (hnone outcome)
  obtain ⟨rfl, rfl⟩ : before = chunks ∧ outcome = last := by simpa using List.append_inj' hlast rfl
  refine ⟨rfl, hnone, hinv.gave _ (.inr (by simp [hsent])), fun hread => ?_⟩
  obtain ⟨hheld, hunread⟩ := (hinv.drained (by simp [hgone, ReaderAt.left])).resolve_left (by simp [hread])
  refine ⟨hheld, ?_⟩
  simpa [hsent, hgone, hunread, ReaderAt.inHand, Output.bytes] using hinv.bytes

/-- A child that writes, leaves a descendant behind and ends; the descendant outlives the drain. -/
def lingered : Runner :=
  (machine fun _ => none).play (new true)
    [.wrote [104, 105], .read 2, .reader, .childEnded ⟨0, none⟩, .waiter true, .waiter true, .wrote [33],
      .waiter true, .passed 200, .waiter true, .waiter true, .waiter true, .groupEnded, .read 1, .letGo,
      .reader, .readEnd, .reader, .waiter true, .reader, .waiter true]

theorem exit_follows_output_lingered :
    lingered.sent = [.chunk [104, 105], .chunk [33], .exited .succeeded] ∧
    [104, 105, 33] = lingered.written := by
  have hr : (machine fun _ => none).Reaches (new true) lingered := Machine.reaches_play (by decide)
  have hsent : lingered.sent = [.chunk [104, 105], .chunk [33], .exited .succeeded] := by decide
  obtain ⟨-, -, h⟩ := exit_follows_output hr
  exact ⟨hsent, ((h [.chunk [104, 105], .chunk [33]] .succeeded [] hsent).2.2.2 (by decide)).2⟩

/-! ### A stop's grace -/

/-- The grace `g` published at `asked` is kept so far: the group was not killed before it had passed, nor
is it about to be. -/
def Spares (asked g : ℕ) (s : Runner) : Prop :=
  asked ≤ s.clock ∧ (∀ time, s.killedAt = some time → asked + g ≤ time) ∧
  match s.waiter with
  | .waiting | .waited _ => s.grace = some g
  | .looking _ started grace _ | .polling _ started grace _ _ =>
    grace = g ∧ asked ≤ started ∧ started ≤ s.clock
  | .terminating _ _ => asked + g ≤ s.clock
  | .receiving _ _ | .joining _ | .reported => True

theorem Spares.turned {asked g : ℕ} (h : Spares asked g s) (ht : Turned signalName s t) :
    Spares asked g t := by
  obtain ⟨hclock, hkilled, h⟩ := h
  rcases ht with ⟨hat, -⟩ | ⟨hat⟩ | ⟨hmoves⟩ | ⟨hat⟩ | ⟨hat, -⟩
  · rw [hat] at h
    exact ⟨hclock, hkilled, h⟩
  · rw [hat] at h
    exact ⟨hclock, hkilled, by simp [h], hclock, Nat.le_refl _⟩
  · refine ⟨hclock, hkilled, ?_⟩
    generalize hat : s.waiter = place at h hmoves
    cases hmoves with
    | drained | received => trivial
    | late hlate =>
      obtain ⟨rfl, hasked, hstarted⟩ := h
      show asked + _ ≤ s.clock
      omega
    | slept | heard | woke => exact h
  · rw [hat] at h
    refine ⟨hclock, fun time htime => ?_, trivial⟩
    obtain rfl := Option.some.inj htime
    exact h
  · exact ⟨hclock, hkilled, trivial⟩

/-- Away from the waiter's turns its place does not change, the clock only grows and a published grace
stays. -/
theorem next_keeps_waiter (he : s.Enabled signalName e) (hturn : ∀ waits, e ≠ .waiter waits) :
    (s.next signalName e).waiter = s.waiter ∧ s.clock ≤ (s.next signalName e).clock ∧
    (s.next signalName e).killedAt = s.killedAt ∧
    (∀ g, s.grace = some g → (s.next signalName e).grace = some g) := by
  cases e with
  | passed time => exact ⟨rfl, Nat.le_add_right _ _, rfl, fun g hg => hg⟩
  | stopping grace =>
    refine ⟨rfl, Nat.le_refl _, rfl, fun g hg => ?_⟩
    show some (s.grace.getD grace) = some g
    rw [hg]
    rfl
  | reader =>
    have ht := readerTurn_next he
    generalize s.next signalName .reader = t at ht
    unfold readerTurn at ht
    split at ht <;> cases ht <;> exact ⟨rfl, Nat.le_refl _, rfl, fun _ hg => hg⟩
  | waiter waits => exact absurd rfl (hturn waits)
  | wrote _ | letGo | childEnded _ | groupEnded | read _ | readEnd | readError =>
    exact ⟨rfl, Nat.le_refl _, rfl, fun _ hg => hg⟩

theorem Spares.next {asked g : ℕ} (h : Spares asked g s) (he : s.Enabled signalName e) :
    Spares asked g (s.next signalName e) := by
  by_cases hturn : ∃ waits, e = .waiter waits
  · obtain ⟨waits, rfl⟩ := hturn
    exact h.turned (turned_next he)
  · obtain ⟨hwaiter, hclock, hkilled, hgrace⟩ := next_keeps_waiter he fun waits hw => hturn ⟨waits, hw⟩
    obtain ⟨hasked, hspared, h⟩ := h
    refine ⟨Nat.le_trans hasked hclock, hkilled ▸ hspared, ?_⟩
    rw [hwaiter]
    generalize s.waiter = place at h
    cases place with
    | waiting | waited _ => exact hgrace g h
    | looking _ _ _ _ | polling _ _ _ _ _ => exact ⟨h.1, h.2.1, Nat.le_trans h.2.2 hclock⟩
    | terminating _ _ => exact Nat.le_trans h hclock
    | receiving _ _ | joining _ | reported => trivial

/-- **A stop's grace is honoured.**  From a state in which a stop has published its grace and the child's
wait has not returned, the waiter does not kill the group before the grace has passed, whatever further
stops ask for and however soon the child ends. -/
theorem stop_grace_honoured {pid : Bool} {g time : ℕ} (hs : (machine signalName).Reaches (new pid) s)
    (hwaiting : s.waiter = .waiting) (hgrace : s.grace = some g) (hr : (machine signalName).Reaches s t)
    (hkilled : t.killedAt = some time) : s.clock + g ≤ time := by
  have hstart : Spares s.clock g s := by
    have hnone := (inv_of_reaches hs).unkilled hwaiting
    refine ⟨Nat.le_refl _, fun time htime => by simp [hnone] at htime, ?_⟩
    rw [hwaiting]
    exact hgrace
  have hspares := hr.invariant (P := Spares s.clock g) (fun _ _ h he => h.next he) hstart
  exact hspares.2.1 time hkilled

def stopping : Runner := (machine fun _ => none).play (new true) [.passed 5, .stopping 700]

def stopped : Runner :=
  (machine fun _ => none).play stopping
    [.stopping 10, .childEnded ⟨0, none⟩, .waiter true, .waiter true, .passed 900, .waiter true, .waiter true]

theorem stop_grace_honoured_of_second : stopped.killedAt = some 905 ∧ 5 + 700 ≤ 905 := by
  have hs : (machine fun _ => none).Reaches (new true) stopping := Machine.reaches_play (by decide)
  have hr : (machine fun _ => none).Reaches stopping stopped := Machine.reaches_play (by decide)
  exact ⟨by decide, stop_grace_honoured hs (by decide) (by decide) hr (by decide)⟩

/-! ### The report arrives -/

end Runner

def Event.isTurn : Event → Bool
  | read _ | readEnd | readError | reader | waiter _ => true
  | wrote _ | letGo | childEnded _ | groupEnded | passed _ | stopping _ => false

def Event.works : Event → Bool
  | read _ | readEnd | reader | waiter true => true
  | _ => false

/-- The turns the reader has left once the PTY was let go of with `unread` bytes in it, at most. -/
def ReaderAt.rank (unread : ℕ) : ReaderAt → ℕ
  | reading => 2 * unread + 3
  | sending _ => 2 * unread + 4
  | broke => 2
  | signalled => 1
  | gone => 0

/-- The turns the waiter has left from the drain on, at most: it polls until the drain's end and looks
again after each poll, and once more when it hears from the reader. -/
def WaiterAt.rank (clock : ℕ) : WaiterAt → ℕ
  | looking _ started grace readerDone =>
    2 * (started + grace - clock) + 4 + if readerDone then 0 else 2 * (started + grace) + 2
  | polling _ started grace readerDone wake =>
    2 * (started + grace - wake) + 5 + if readerDone then 0 else 2 * (started + grace) + 2
  | terminating _ _ => 3
  | receiving _ _ => 2
  | joining _ => 1
  | waiting | waited _ | reported => 0

def WaiterAt.drains : WaiterAt → Bool
  | waiting | waited _ => false
  | _ => true

namespace Runner

variable {signalName : String → Option String} {s t : Runner}

def rank (s : Runner) : ℕ := s.reader.rank s.unread.length + s.waiter.rank s.clock

def Drains (s : Runner) : Prop := s.held = false ∧ s.waiter.drains = true

theorem Moves.rank_lt {place into : WaiterAt} (h : s.Moves place into) :
    into.drains = true ∧ into.rank s.clock < place.rank s.clock := by
  cases h with
  | drained | late | received | slept | woke =>
    refine ⟨rfl, ?_⟩
    simp only [WaiterAt.rank]
    omega
  | heard =>
    refine ⟨rfl, ?_⟩
    simp only [WaiterAt.rank, Bool.false_eq_true, if_true, if_false]
    omega

theorem Drains.turned (h : s.Drains) (ht : Turned signalName s t) : t.Drains ∧ t.rank < s.rank := by
  obtain ⟨hheld, hdrains⟩ := h
  rcases ht with ⟨hat, -⟩ | ⟨hat⟩ | ⟨hmoves⟩ | ⟨hat⟩ | ⟨hat, -⟩
  · simp [hat, WaiterAt.drains] at hdrains
  · simp [hat, WaiterAt.drains] at hdrains
  · exact ⟨⟨hheld, hmoves.rank_lt.1⟩, Nat.add_lt_add_left hmoves.rank_lt.2 _⟩
  · exact ⟨⟨hheld, rfl⟩, by simp [rank, hat, WaiterAt.rank]⟩
  · exact ⟨⟨hheld, rfl⟩, by simp [rank, hat, WaiterAt.rank]⟩

/-- A turn of a thread leaves fewer; nothing else leaves more. -/
theorem Drains.next (h : s.Drains) {e : Event} (he : s.Enabled signalName e) :
    (s.next signalName e).Drains ∧
    (s.next signalName e).rank + (if e.isTurn then 1 else 0) ≤ s.rank := by
  cases e with
  | waiter waits => exact h.turned (turned_next he)
  | reader =>
    have ht := readerTurn_next he
    generalize s.next signalName .reader = t at ht
    unfold readerTurn at ht
    split at ht <;> cases ht <;> next hat =>
      exact ⟨h, by simp only [rank, hat, ReaderAt.rank, Event.isTurn, if_true]; omega⟩
  | read n =>
    obtain ⟨hat, hpos, -, hlen⟩ := he
    refine ⟨h, ?_⟩
    simp only [Runner.next, rank, hat, ReaderAt.rank, Event.isTurn, if_true, List.length_drop]
    omega
  | readEnd | readError =>
    have hat : s.reader = .reading := by first | exact he.1 | exact he
    refine ⟨h, ?_⟩
    simp only [Runner.next, rank, hat, ReaderAt.rank, Event.isTurn, if_true]
    omega
  | passed time =>
    -- time only shortens the drain
    refine ⟨h, ?_⟩
    show s.reader.rank _ + s.waiter.rank (s.clock + time) ≤ s.rank
    refine Nat.add_le_add_left ?_ _
    cases s.waiter with
    | looking _ started grace _ =>
      simp only [WaiterAt.rank]
      omega
    | waiting | waited _ | polling _ _ _ _ _ | terminating _ _ | receiving _ _ | joining _ | reported =>
      exact Nat.le_refl _
  | wrote bytes => exact absurd he (by simp [Enabled, h.1])
  | letGo => exact ⟨⟨rfl, h.2⟩, Nat.le_refl _⟩
  | childEnded _ | groupEnded | stopping _ => exact ⟨h, Nat.le_refl _⟩

/-- A run takes no more turns than are left. -/
theorem turns_le : ∀ {es : List Event} {s : Runner}, (machine signalName).Plays s es → s.Drains →
    es.countP Event.isTurn ≤ s.rank
  | [], _, _, _ => Nat.zero_le _
  | e :: es, s, ⟨he, hes⟩, h => by
    obtain ⟨hdrains, hrank⟩ := h.next he
    have hrest := turns_le (s := s.next signalName e) hes hdrains
    rw [List.countP_cons]
    omega

/-- While the exit is not reported, a thread has a turn that works, at the latest once some time has
passed. -/
theorem turn_left (hended : s.ended.isSome = true) (hheld : s.held = false) (hne : s.waiter ≠ .reported) :
    ∃ time e, e.works = true ∧ (s.next signalName (.passed time)).Enabled signalName e := by
  -- the reader is never blocked: it reads what is left, or the end
  have hreader : s.reader ≠ .gone → ∃ e, e.works = true ∧
      (s.next signalName (.passed 0)).Enabled signalName e := by
    intro hgone
    cases hat : s.reader with
    | reading =>
      cases hunread : s.unread with
      | nil => exact ⟨.readEnd, rfl, hat, hheld, hunread⟩
      | cons byte rest =>
        refine ⟨.read 1, rfl, hat, Nat.one_pos, by decide, ?_⟩
        show 1 ≤ s.unread.length
        simp [hunread]
    | sending _ | broke | signalled => exact ⟨.reader, rfl, by simp [Enabled, Runner.next, readerTurn, hat]⟩
    | gone => exact absurd hat hgone
  cases hat : s.waiter with
  | waiting => exact ⟨0, .waiter true, rfl, by simpa [Enabled, Runner.next, waiterTurn, hat] using hended⟩
  | waited _ | terminating _ _ =>
    exact ⟨0, .waiter true, rfl, by simp [Enabled, Runner.next, waiterTurn, hat]⟩
  | looking _ _ _ _ =>
    refine ⟨0, .waiter true, rfl, ?_⟩
    simp only [Enabled, Runner.next, waiterTurn, hat]
    split
    · rfl
    · split <;> rfl
  | polling _ _ _ _ wake =>
    refine ⟨wake, .waiter true, rfl, ?_⟩
    simp only [Enabled, Runner.next, waiterTurn, hat]
    split
    · rfl
    · rw [if_pos (by omega)]
      rfl
  | receiving _ _ | joining _ =>
    by_cases hgone : s.reader = .gone
    · exact ⟨0, .waiter true, rfl, by simp [Enabled, Runner.next, waiterTurn, hat, hgone]⟩
    · exact ⟨0, hreader hgone⟩
  | reported => exact absurd hat hne

/-- **The report arrives.**  Once the child has ended and every process has let go of the PTY, the threads
are never stuck before the exit is sent, without any read or wait failing, and from the drain on every run
takes a bounded number of their turns, whatever else happens in between. -/
theorem exit_reported {pid : Bool} (hr : (machine signalName).Reaches (new pid) s)
    (hended : s.ended.isSome = true) (hheld : s.held = false) :
    ((∀ outcome, .exited outcome ∉ s.sent) →
      ∃ time e, e.works = true ∧ (s.next signalName (.passed time)).Enabled signalName e) ∧
    (s.waiter.drains = true → ∀ es, (machine signalName).Plays s es → es.countP Event.isTurn ≤ s.rank) := by
  refine ⟨fun hsilent => turn_left hended hheld fun hreported => ?_, fun hdrains es hes => ?_⟩
  · obtain ⟨-, chunks, outcome, hsent, -⟩ := (inv_of_reaches hr).told hreported
    exact hsilent outcome (by simp [hsent])
  · exact turns_le hes ⟨hheld, hdrains⟩

def stoppedAtOnce : Runner :=
  (machine fun _ => none).play (new true)
    [.stopping 0, .wrote [33], .childEnded ⟨1, none⟩, .letGo, .waiter true, .waiter true]

theorem exit_reported_stoppedAtOnce :
    (∃ time e, e.works = true ∧
      (stoppedAtOnce.next (fun _ => none) (.passed time)).Enabled (fun _ => none) e) ∧
    [Event.read 1, .reader, .waiter true, .readEnd, .waiter true, .reader, .waiter true, .reader,
      .waiter true].countP Event.isTurn ≤ stoppedAtOnce.rank := by
  have hr : (machine fun _ => none).Reaches (new true) stoppedAtOnce := Machine.reaches_play (by decide)
  obtain ⟨hleft, hbound⟩ := exit_reported hr (by decide) (by decide)
  have hsent : stoppedAtOnce.sent = [] := by decide
  exact ⟨hleft (by simp [hsent]), hbound (by decide) _ (by decide)⟩

end Runner

end Pty

end Muster.Holder
