import Mathlib.Algebra.GroupWithZero.Nat
import Muster.Lib.Machine
import Muster.Service.Occupancy
import Muster.Supervisor.Domain

/-!
# StoreRecorder — records on their way to the store

Callers count a record and send it to the recorder's thread, which takes one after the other: it writes the
record, again while the store is only busy, and gives it up with an error notice once the budget is spent, the
store refuses it for good, or a flush's drain is over.  Every access to what the threads share is a step of
its own, so a run here is any interleaving of the callers, the flushes, the thread and the clock.  Time is in
milliseconds.
-/

namespace Muster.StoreRecorder

open Config (ProjectRoot)
open Supervisor (ProcessName ExitOutcome)

/-! ### Records and notices -/

structure EndedRun where
  process : ProcessName
  outcome : ExitOutcome
  time : ℕ
deriving DecidableEq, Repr

structure PendingIdleStop where
  project : ProjectRoot
  leftAt : ℕ
deriving DecidableEq, Repr

inductive StoreRecord where
  | ended (project : ProjectRoot) (run : EndedRun)
  | cleared (project : ProjectRoot) (process : ProcessName)
  | editsRaised (project : ProjectRoot) (through : ℕ)
  | idleArmed (stop : PendingIdleStop)
  | idleCleared (project : ProjectRoot)
deriving DecidableEq, Repr

namespace StoreRecord

def project : StoreRecord → ProjectRoot
  | ended project _ | cleared project _ | editsRaised project _ | idleCleared project => project
  | idleArmed stop => stop.project

def process : StoreRecord → Option ProcessName
  | ended _ run => some run.process
  | cleared _ process => some process
  | editsRaised _ _ | idleArmed _ | idleCleared _ => none

def what : StoreRecord → String
  | ended _ run => "how a run ended for " ++ run.process.text
  | cleared _ process => "that a run ended on request for " ++ process.text
  | editsRaised _ through => "agent edits raised through " ++ toString through
  | idleArmed _ => "the project's pending idle stop"
  | idleCleared _ => "that the project's idle stop is no longer pending"

def busyNotice : StoreRecord → String
  | ended _ _ | cleared _ _ => "could not record how the process last ended yet, retrying"
  | editsRaised _ _ => "could not record which agent edits were raised yet, retrying"
  | idleArmed _ | idleCleared _ => "could not record the project's pending idle stop yet, retrying"

end StoreRecord

inductive StoreError where
  | busy (text : String)
  | other (text : String)
deriving DecidableEq, Repr

def StoreError.isBusy : StoreError → Bool
  | busy _ => true
  | other _ => false

def StoreError.text : StoreError → String
  | busy text | other text => text

inductive NoticeLevel where
  | info | warning | error
deriving DecidableEq, Repr

structure Notice where
  project : Option ProjectRoot
  process : Option ProcessName
  level : NoticeLevel
  message : String
deriving DecidableEq, Repr

/-- How a record is retried: the pause doubles from `first` up to `max`. -/
structure RecordRetry where
  first : ℕ
  max : ℕ
  budget : ℕ
  drain : ℕ
  settle : ℕ
deriving DecidableEq, Repr

def RecordRetry.service : RecordRetry where
  first := 100
  max := 5000
  budget := 30000
  drain := 5000
  settle := 10000

def StoreRecord.notice (record : StoreRecord) (level : NoticeLevel) (message : String) : Notice :=
  ⟨some record.project, record.process, level, message⟩

/-- The notice for the first time the store is too busy for a record. -/
def tell (record : StoreRecord) (error : StoreError) : Notice :=
  record.notice .warning (record.busyNotice ++ ": " ++ error.text)

inductive GivenUp where
  | stopped
  | refused (error : StoreError)
  | budget (error : StoreError)
deriving DecidableEq, Repr

section

-- how a duration is written, and how records are retried
variable (format : ℕ → String) (retry : RecordRetry)

def GivenUp.say (what : String) : GivenUp → String
  | stopped => "the service stopped before recording " ++ what
  | refused error => "could not record " ++ what ++ ": " ++ error.text
  | budget error => "gave up recording " ++ what ++ " after " ++ format retry.budget ++ ": " ++ error.text

def report (record : StoreRecord) (givenUp : GivenUp) : Notice :=
  record.notice .error (givenUp.say format retry record.what)

def reportUnconfirmed (count : ℕ) : Notice :=
  ⟨none, none, .error, "the service stopped before these records were confirmed stored: " ++ toString count⟩

/-! ### The threads -/

inductive Item where
  | record (record : StoreRecord)
  | flush (call drainBy : ℕ)
deriving DecidableEq, Repr

def Item.record? : Item → Option StoreRecord
  | .record r => some r
  | .flush _ _ => none

structure Landing where
  record : StoreRecord
  started : ℕ
  pause : ℕ
  told : Bool
deriving DecidableEq, Repr

/-- Where the recorder's thread stands. -/
inductive Worker where
  | idle
  /-- A record was received. -/
  | taken (record : StoreRecord)
  /-- At the top of the loop of `land`. -/
  | top (landing : Landing)
  /-- The clock was read, to compare with the drain. -/
  | checking (landing : Landing) (looked : ℕ)
  | writing (landing : Landing)
  /-- The store was busy. -/
  | busy (landing : Landing) (error : StoreError)
  /-- It is known when the next attempt would be. -/
  | resuming (landing : Landing) (error : StoreError) (resume : ℕ)
  | sleeping (landing : Landing) (resume : ℕ)
  /-- The record has landed or is given up, and is still counted. -/
  | settled (record : StoreRecord)
  | clearing (call drainBy : ℕ)
  | answering (call : ℕ)
deriving DecidableEq, Repr

/-- Where a call of `flush` stands. -/
inductive Phase where
  | computed
  | marked
  | waiting (deadline : ℕ)
  | returned (answered : Bool)
  | ended
deriving DecidableEq, Repr

structure FlushCall where
  drainBy : ℕ
  phase : Phase
  /-- Whether the thread has answered. -/
  answered : Bool
deriving DecidableEq, Repr

/-- What the recorder's thread does to the store and the notices. -/
inductive Deed where
  | attempted (record : StoreRecord) (result : Except StoreError Unit)
  | noticed (notice : Notice)
deriving DecidableEq

/-- What the threads share.  The last three fields are history: the records sent, in the order the thread gets
them, what the thread did, and what the flushes told. -/
structure State where
  now : ℕ
  channel : List Item
  /-- Records counted and not yet sent. -/
  counted : List StoreRecord
  pending : ℕ
  drainBy : Option ℕ
  worker : Worker
  calls : List FlushCall
  sent : List StoreRecord
  deeds : List Deed
  told : List Notice
deriving DecidableEq

def State.new : State := ⟨0, [], [], 0, none, .idle, [], [], [], []⟩

def drainPassed (drainBy : Option ℕ) (time : ℕ) : Bool := drainBy.any (· ≤ time)

namespace State

variable (s : State)

def giveUp (record : StoreRecord) (givenUp : GivenUp) : State :=
  { s with deeds := s.deeds ++ [.noticed (report format retry record givenUp)], worker := .settled record }

def work (answer : Except StoreError Unit) : State :=
  match s.worker with
  | .idle =>
    match s.channel with
    | [] => s
    | .record record :: rest => { s with channel := rest, worker := .taken record }
    | .flush call drainBy :: rest => { s with channel := rest, worker := .clearing call drainBy }
  | .taken record => { s with worker := .top ⟨record, s.now, retry.first, false⟩ }
  | .top landing => { s with worker := .checking landing s.now }
  | .checking landing looked =>
    if drainPassed s.drainBy looked then s.giveUp format retry landing.record .stopped
    else { s with worker := .writing landing }
  | .writing landing =>
    let s := { s with deeds := s.deeds ++ [Deed.attempted landing.record answer] }
    match answer with
    | .ok () => { s with worker := .settled landing.record }
    | .error error =>
      if error.isBusy then { s with worker := .busy landing error }
      else s.giveUp format retry landing.record (.refused error)
  | .busy landing error => { s with worker := .resuming landing error (s.now + landing.pause) }
  | .resuming landing error resume =>
    if retry.budget < resume - landing.started then s.giveUp format retry landing.record (.budget error)
    else if drainPassed s.drainBy resume then s.giveUp format retry landing.record .stopped
    else
      let deeds := if landing.told then [] else [.noticed (tell landing.record error)]
      { s with deeds := s.deeds ++ deeds, worker := .sleeping { landing with told := true } resume }
  | .sleeping landing resume =>
    if resume ≤ s.now then
      { s with worker := .top { landing with pause := min (2 * landing.pause) retry.max } }
    else s
  | .settled _ => { s with pending := s.pending - 1, worker := .idle }
  | .clearing call drainBy =>
    { s with
      drainBy := if s.drainBy = some drainBy then none else s.drainBy
      worker := .answering call }
  | .answering call =>
    { s with calls := s.calls.modify call ({ · with answered := true }), worker := .idle }

def flushOn (call : ℕ) : State :=
  match s.calls[call]? with
  | none => s
  | some flush =>
    let go (phase : Phase) (s : State) : State :=
      { s with calls := s.calls.modify call ({ · with phase := phase }) }
    match flush.phase with
    | .computed => go .marked { s with drainBy := some flush.drainBy }
    | .marked =>
      go (.waiting (s.now + retry.drain + retry.settle))
        { s with channel := s.channel ++ [.flush call flush.drainBy] }
    | .waiting deadline =>
      if flush.answered then go (.returned true) s
      else if deadline ≤ s.now then go (.returned false) s
      else s
    | .returned answered =>
      if !answered && 0 < s.pending then go .ended { s with told := s.told ++ [reportUnconfirmed s.pending] }
      else go .ended s
    | .ended => s

end State

/-- What can happen: the clock goes on, a caller counts a record or sends one it has counted, the thread takes
its next step, a flush is called or takes its next step. -/
inductive Event where
  | tick (millis : ℕ)
  | count (record : StoreRecord)
  | send (caller : ℕ)
  | work (answer : Except StoreError Unit)
  | flush
  | flushOn (call : ℕ)

def next (s : State) : Event → State
  | .tick millis => { s with now := s.now + millis }
  | .count record => { s with pending := s.pending + 1, counted := s.counted ++ [record] }
  | .send caller =>
    match s.counted[caller]? with
    | none => s
    -- the thread keeps its receiver as long as there is a sender, so a send never fails
    | some record =>
      { s with
        counted := s.counted.eraseIdx caller
        channel := s.channel ++ [.record record]
        sent := s.sent ++ [record] }
  | .work answer => s.work format retry answer
  | .flush => { s with calls := s.calls ++ [⟨s.now + retry.drain, .computed, false⟩] }
  | .flushOn call => s.flushOn retry call

/-- The recorder with its callers, in any interleaving. -/
def machine : Machine State Event where
  Enabled _ _ := True
  next := next format retry

end

/-! ### What a step does -/

variable {format : ℕ → String} {retry : RecordRetry} {s : State} {record : StoreRecord}
  {worker : Worker} {t : State}

namespace Worker

/-- The record the thread holds and has not settled. -/
def unsettled : Worker → Option StoreRecord
  | taken record => some record
  | top landing | checking landing _ | writing landing | busy landing _ | resuming landing _ _
  | sleeping landing _ => some landing.record
  | idle | settled _ | clearing _ _ | answering _ => none

/-- The record the thread has settled and not counted off. -/
def uncounted : Worker → Option StoreRecord
  | settled record => some record
  | _ => none

end Worker

namespace State

def waiting (s : State) : List StoreRecord := s.channel.filterMap Item.record?

/-- The records sent and not yet settled. -/
def unsettled (s : State) : List StoreRecord := s.worker.unsettled.toList ++ s.waiting

end State

/-- A deed on the way of a record that leaves it unsettled. -/
inductive Deed.Leaves (record : StoreRecord) : Deed → Prop where
  | failed (error : StoreError) : Leaves record (.attempted record (.error error))
  | told (error : StoreError) : Leaves record (.noticed (tell record error))

/-- The one deed that settles a record: the write, or the notice that it is given up. -/
inductive Deed.Settles (format : ℕ → String) (retry : RecordRetry) (record : StoreRecord) : Deed → Prop where
  | written : Settles format retry record (.attempted record (.ok ()))
  | givenUp (givenUp : GivenUp) : Settles format retry record (.noticed (report format retry record givenUp))

/-- What the thread's step does. -/
inductive Worked (format : ℕ → String) (retry : RecordRetry) (s : State) : State → Prop where
  | stutter : Worked format retry s s
  | take {record : StoreRecord} {rest : List Item} (hworker : s.worker = .idle)
      (hchannel : s.channel = .record record :: rest) :
      Worked format retry s { s with channel := rest, worker := .taken record }
  | goOn {record : StoreRecord} {worker : Worker} {deeds : List Deed}
      (hworker : s.worker.unsettled = some record)
      (hnext : worker.unsettled = some record) (hdeeds : ∀ deed ∈ deeds, deed.Leaves record) :
      Worked format retry s { s with deeds := s.deeds ++ deeds, worker := worker }
  | settle {record : StoreRecord} (deeds : List Deed) {last : Deed}
      (hworker : s.worker.unsettled = some record)
      (hdeeds : ∀ deed ∈ deeds, deed.Leaves record) (hlast : last.Settles format retry record) :
      Worked format retry s { s with deeds := s.deeds ++ (deeds ++ [last]), worker := .settled record }
  | countOff {record : StoreRecord} (hworker : s.worker = .settled record) :
      Worked format retry s { s with pending := s.pending - 1, worker := .idle }
  | flush {worker : Worker} {channel : List Item} {drainBy : Option ℕ} {calls : List FlushCall}
      (hworker : s.worker.unsettled = none ∧ s.worker.uncounted = none)
      (hnext : worker.unsettled = none ∧ worker.uncounted = none)
      (hchannel : channel.filterMap Item.record? = s.waiting) :
      Worked format retry s
        { s with channel := channel, drainBy := drainBy, calls := calls, worker := worker }

theorem Worked.onward (hworker : s.worker.unsettled = some record)
    (hnext : worker.unsettled = some record) : Worked format retry s { s with worker := worker } := by
  have h : Worked format retry s { s with deeds := s.deeds ++ [], worker := worker } :=
    .goOn hworker hnext fun _ h => nomatch h
  rwa [List.append_nil] at h

theorem Worked.giveUp (hworker : s.worker.unsettled = some record) (givenUp : GivenUp) :
    Worked format retry s (s.giveUp format retry record givenUp) :=
  .settle [] hworker (fun _ h => nomatch h) (.givenUp givenUp)

theorem worked (format : ℕ → String) (retry : RecordRetry) (s : State) (answer : Except StoreError Unit) :
    Worked format retry s (s.work format retry answer) := by
  unfold State.work
  split
  next hworker =>
    split
    · exact .stutter
    next hchannel => exact .take hworker hchannel
    next hchannel =>
      refine .flush (by rw [hworker]; exact ⟨rfl, rfl⟩) ⟨rfl, rfl⟩ ?_
      rw [State.waiting, hchannel]
      rfl
  next hworker => exact .onward (by rw [hworker]; rfl) rfl
  next hworker => exact .onward (by rw [hworker]; rfl) rfl
  next hworker =>
    split
    · exact .giveUp (by rw [hworker]; rfl) _
    · exact .onward (by rw [hworker]; rfl) rfl
  next landing hworker =>
    dsimp only
    split
    · exact .settle [] (by rw [hworker]; rfl) (fun _ h => nomatch h) .written
    next error =>
      have hfailed : ∀ deed ∈ [Deed.attempted landing.record (.error error)], deed.Leaves landing.record :=
        List.forall_mem_singleton.2 (.failed error)
      split
      · exact .goOn (by rw [hworker]; rfl) rfl hfailed
      · rw [State.giveUp, List.append_assoc]
        exact .settle _ (by rw [hworker]; rfl) hfailed (.givenUp _)
  next hworker => exact .onward (by rw [hworker]; rfl) rfl
  next landing error resume hworker =>
    split
    · exact .giveUp (by rw [hworker]; rfl) _
    · split
      · exact .giveUp (by rw [hworker]; rfl) _
      · refine .goOn (by rw [hworker]; rfl) rfl fun deed hdeed => ?_
        split at hdeed
        · cases hdeed
        · rw [List.mem_singleton.1 hdeed]
          exact .told error
  next hworker =>
    split
    · exact .onward (by rw [hworker]; rfl) rfl
    · exact .stutter
  next hworker => exact .countOff hworker
  next hworker => exact .flush (by rw [hworker]; exact ⟨rfl, rfl⟩) ⟨rfl, rfl⟩ rfl
  next hworker => exact .flush (by rw [hworker]; exact ⟨rfl, rfl⟩) ⟨rfl, rfl⟩ rfl

/-- A step of a flush changes neither what is recorded nor what is counted. -/
structure FlushStepped (s t : State) : Prop where
  now : t.now = s.now
  channel : ∃ more, t.channel = s.channel ++ more ∧ more.filterMap Item.record? = []
  counted : t.counted = s.counted
  pending : t.pending = s.pending
  worker : t.worker = s.worker
  sent : t.sent = s.sent
  deeds : t.deeds = s.deeds

theorem FlushStepped.waiting (h : FlushStepped s t) : t.waiting = s.waiting := by
  obtain ⟨more, hchannel, hmore⟩ := h.channel
  rw [State.waiting, hchannel, List.filterMap_append, hmore, List.append_nil]
  rfl

theorem flushStepped (retry : RecordRetry) (s : State) (call : ℕ) :
    FlushStepped s (s.flushOn retry call) := by
  have hsame : ∃ more, s.channel = s.channel ++ more ∧ more.filterMap Item.record? = [] :=
    ⟨[], (List.append_nil _).symm, rfl⟩
  unfold State.flushOn
  split
  · exact ⟨rfl, hsame, rfl, rfl, rfl, rfl, rfl⟩
  · dsimp only
    split
    · exact ⟨rfl, hsame, rfl, rfl, rfl, rfl, rfl⟩
    · exact ⟨rfl, ⟨[.flush _ _], rfl, rfl⟩, rfl, rfl, rfl, rfl, rfl⟩
    · split
      · exact ⟨rfl, hsame, rfl, rfl, rfl, rfl, rfl⟩
      · split <;> exact ⟨rfl, hsame, rfl, rfl, rfl, rfl, rfl⟩
    · split <;> exact ⟨rfl, hsame, rfl, rfl, rfl, rfl, rfl⟩
    · exact ⟨rfl, hsame, rfl, rfl, rfl, rfl, rfl⟩

/-! ### The ledger -/

/-- Records settled one after the other: what was done for each, up to the one deed that settles it, before
anything was done for the next. -/
inductive Settled (format : ℕ → String) (retry : RecordRetry) : List StoreRecord → List Deed → Prop where
  | nil : Settled format retry [] []
  | snoc {records : List StoreRecord} {record : StoreRecord} {deeds tried : List Deed} {last : Deed}
      (earlier : Settled format retry records deeds) (htried : ∀ deed ∈ tried, deed.Leaves record)
      (hlast : last.Settles format retry record) :
      Settled format retry (records ++ [record]) (deeds ++ (tried ++ [last]))

/-- Every record sent is settled, in order, or is in hand or in the channel; what was done since the last one
was settled is about the one in hand and has not settled it. -/
structure Accounted (format : ℕ → String) (retry : RecordRetry) (s : State) (done : List StoreRecord)
    (closed tried : List Deed) : Prop where
  sent : s.sent = done ++ s.unsettled
  deeds : s.deeds = closed ++ tried
  settled : Settled format retry done closed
  tried : ∀ deed ∈ tried, ∃ record, s.worker.unsettled = some record ∧ deed.Leaves record

/-- What is counted: the records sent and not settled, those whose caller has yet to send them, and the one
settled and not yet counted off. -/
def Counts (s : State) : Prop :=
  s.pending = s.unsettled.length + s.counted.length + s.worker.uncounted.toList.length

theorem State.unsettled_of {channel : List Item} (hworker : s.worker = worker)
    (hchannel : s.channel = channel) :
    s.unsettled = worker.unsettled.toList ++ channel.filterMap Item.record? := by
  rw [State.unsettled, State.waiting, hworker, hchannel]

variable {done : List StoreRecord} {closed tried : List Deed}

theorem Accounted.tried_eq_nil (h : Accounted format retry s done closed tried)
    (hworker : s.worker.unsettled = none) : tried = [] := by
  refine List.eq_nil_iff_forall_not_mem.2 fun deed hdeed => ?_
  obtain ⟨record, hrecord, -⟩ := h.tried deed hdeed
  rw [hworker] at hrecord
  cases hrecord

theorem Accounted.work (h : Accounted format retry s done closed tried)
    (hwork : Worked format retry s t) : ∃ done closed tried, Accounted format retry t done closed tried := by
  cases hwork with
  | stutter => exact ⟨_, _, _, h⟩
  | take hworker hchannel =>
    obtain rfl := h.tried_eq_nil (by rw [hworker]; rfl)
    refine ⟨done, closed, [], ?_, h.deeds, h.settled, fun _ hdeed => nomatch hdeed⟩
    rw [h.sent, State.unsettled_of hworker hchannel]
    rfl
  | @goOn record worker deeds hworker hnext hdeeds =>
    refine ⟨done, closed, tried ++ deeds, ?_, ?_, h.settled, fun deed hdeed => ⟨record, hnext, ?_⟩⟩
    · rw [h.sent, State.unsettled, hworker, ← hnext]
      rfl
    · rw [← List.append_assoc, ← h.deeds]
    · rcases List.mem_append.1 hdeed with hdeed | hdeed
      · obtain ⟨other, hother, hleaves⟩ := h.tried deed hdeed
        obtain rfl : record = other := Option.some.inj (hworker.symm.trans hother)
        exact hleaves
      · exact hdeeds deed hdeed
  | @settle record deeds last hworker hdeeds hlast =>
    refine ⟨done ++ [record], closed ++ ((tried ++ deeds) ++ [last]), [], ?_, ?_, h.settled.snoc ?_ hlast,
      fun _ hdeed => nomatch hdeed⟩
    · rw [h.sent, State.unsettled, hworker, List.append_assoc]
      rfl
    · rw [h.deeds]
      simp only [List.append_assoc, List.append_nil]
    · intro deed hdeed
      rcases List.mem_append.1 hdeed with hdeed | hdeed
      · obtain ⟨other, hother, hleaves⟩ := h.tried deed hdeed
        obtain rfl : record = other := Option.some.inj (hworker.symm.trans hother)
        exact hleaves
      · exact hdeeds deed hdeed
  | countOff hworker =>
    obtain rfl := h.tried_eq_nil (by rw [hworker]; rfl)
    refine ⟨done, closed, [], ?_, h.deeds, h.settled, fun _ hdeed => nomatch hdeed⟩
    rw [h.sent, State.unsettled_of hworker rfl]
    rfl
  | flush hworker hnext hchannel =>
    obtain rfl := h.tried_eq_nil hworker.1
    refine ⟨done, closed, [], ?_, h.deeds, h.settled, fun _ hdeed => nomatch hdeed⟩
    rw [h.sent, State.unsettled, State.unsettled, hworker.1, ← hchannel]
    dsimp only
    rw [hnext.1]
    rfl

theorem Worker.uncounted_of_unsettled
    (h : worker.unsettled = some record) : worker.uncounted = none := by
  cases worker <;> first | rfl | cases h

theorem Counts.work (h : Counts s) (hwork : Worked format retry s t) : Counts t := by
  unfold Counts State.unsettled State.waiting at h ⊢
  cases hwork with
  | stutter => exact h
  | take hworker hchannel =>
    simp only [hworker, hchannel, Item.record?, Worker.unsettled, Worker.uncounted, List.filterMap_cons,
      List.length_append, List.length_cons, Option.toList, List.length_nil] at h ⊢
    omega
  | goOn hworker hnext hdeeds =>
    rw [hworker, Worker.uncounted_of_unsettled hworker] at h
    dsimp only
    rw [hnext, Worker.uncounted_of_unsettled hnext, h]
  | settle deeds hworker hdeeds hlast =>
    rw [hworker, Worker.uncounted_of_unsettled hworker] at h
    simp only [Worker.unsettled, Worker.uncounted, List.length_append, List.length_cons, Option.toList,
      List.length_nil] at h ⊢
    omega
  | countOff hworker =>
    simp only [hworker, Worker.unsettled, Worker.uncounted, List.length_append, List.length_cons,
      Option.toList, List.length_nil] at h ⊢
    omega
  | flush hworker hnext hchannel =>
    rw [hworker.1, hworker.2] at h
    dsimp only
    rw [hnext.1, hnext.2, hchannel, h]
    rfl

theorem accounted_next (e : Event)
    (h : ∃ done closed tried, Accounted format retry s done closed tried) :
    ∃ done closed tried, Accounted format retry (next format retry s e) done closed tried := by
  obtain ⟨done, closed, tried, h⟩ := h
  cases e with
  | tick millis => exact ⟨done, closed, tried, h.sent, h.deeds, h.settled, h.tried⟩
  | count record => exact ⟨done, closed, tried, h.sent, h.deeds, h.settled, h.tried⟩
  | send caller =>
    rw [next]
    split
    · exact ⟨done, closed, tried, h⟩
    next record hrecord =>
      refine ⟨done, closed, tried, ?_, h.deeds, h.settled, h.tried⟩
      dsimp only [State.unsettled, State.waiting]
      rw [h.sent, List.filterMap_append, State.unsettled, State.waiting]
      simp only [List.append_assoc]
      rfl
  | work answer => exact h.work (worked format retry s answer)
  | flush => exact ⟨done, closed, tried, h.sent, h.deeds, h.settled, h.tried⟩
  | flushOn call =>
    have hstep := flushStepped retry s call
    refine ⟨done, closed, tried, ?_, hstep.deeds.trans h.deeds, h.settled, ?_⟩
    · rw [next, hstep.sent, h.sent, State.unsettled, State.unsettled, hstep.worker, hstep.waiting]
    · rw [next, hstep.worker]
      exact h.tried

theorem counts_next (e : Event) (h : Counts s) : Counts (next format retry s e) := by
  cases e with
  | tick millis => exact h
  | count record =>
    unfold Counts at h ⊢
    simp only [next, State.unsettled, State.waiting, List.length_append, List.length_singleton] at h ⊢
    omega
  | send caller =>
    rw [next]
    split
    · exact h
    next record hrecord =>
      obtain ⟨hlt, -⟩ := List.getElem?_eq_some_iff.1 hrecord
      unfold Counts at h ⊢
      simp only [State.unsettled, State.waiting, List.filterMap_append, List.length_append,
        List.length_eraseIdx_of_lt hlt, List.filterMap_cons, List.filterMap_nil, Item.record?,
        List.length_singleton] at h ⊢
      omega
  | work answer => exact h.work (worked format retry s answer)
  | flush => exact h
  | flushOn call =>
    have hstep := flushStepped retry s call
    rw [Counts, next, State.unsettled, hstep.pending, hstep.worker, hstep.waiting, hstep.counted]
    exact h

/-! ### The thread gets through its records

A turn is a step of the thread that is not spent asleep or on an empty channel.  Each pause is at least
`shortest` long, so the budget allows only so many attempts: `rank` bounds the turns the thread still needs
for what it holds, and every turn lowers it. -/

def RecordRetry.shortest (retry : RecordRetry) : ℕ := min retry.first retry.max

/-- How many more pauses the budget allows at `time`. -/
def Landing.pauses (retry : RecordRetry) (landing : Landing) (time : ℕ) : ℕ :=
  (landing.started + retry.budget - time) / retry.shortest

def Worker.rank (retry : RecordRetry) (now : ℕ) : Worker → ℕ
  | .idle => 0
  | .settled _ | .answering _ => 1
  | .clearing _ _ => 2
  | .resuming landing _ resume =>
    if resume - landing.started ≤ retry.budget then 6 * landing.pauses retry resume + 16 else 2
  | .sleeping landing resume => 6 * landing.pauses retry resume + 15
  | .taken _ => 6 * (retry.budget / retry.shortest) + 15
  | .top landing => 6 * landing.pauses retry now + 14
  | .checking landing _ => 6 * landing.pauses retry now + 13
  | .writing landing => 6 * landing.pauses retry now + 12
  | .busy landing _ => 6 * landing.pauses retry now + 11

def Item.cost (retry : RecordRetry) : Item → ℕ
  | .record _ => 6 * (retry.budget / retry.shortest) + 16
  | .flush _ _ => 3

def cost (retry : RecordRetry) (items : List Item) : ℕ := (items.map (Item.cost retry)).sum

/-- The turns the thread needs at most for everything sent. -/
def State.due (retry : RecordRetry) (s : State) : ℕ := s.worker.rank retry s.now + cost retry s.channel

def State.waits (s : State) : Bool :=
  match s.worker with
  | .idle => s.channel.isEmpty
  | .sleeping _ resume => s.now < resume
  | _ => false

def Event.isTurn (s : State) : Event → Bool
  | .work _ => !s.waits
  | _ => false

def turns (format : ℕ → String) (retry : RecordRetry) : State → List Event → ℕ
  | _, [] => 0
  | s, e :: es => (if e.isTurn s then 1 else 0) + turns format retry (next format retry s e) es

def Worker.landing? : Worker → Option Landing
  | .top landing | .checking landing _ | .writing landing | .busy landing _ | .resuming landing _ _
  | .sleeping landing _ => some landing
  | .idle | .taken _ | .settled _ | .clearing _ _ | .answering _ => none

/-- No pause is shorter than the shortest. -/
def Paced (retry : RecordRetry) (s : State) : Prop :=
  ∀ landing, s.worker.landing? = some landing → retry.shortest ≤ landing.pause

theorem Landing.pauses_mono (retry : RecordRetry) (landing : Landing) {a b : ℕ} (h : a ≤ b) :
    landing.pauses retry b ≤ landing.pauses retry a :=
  Nat.div_le_div_right (by omega)

theorem Landing.pauses_add {landing : Landing} (hpos : 0 < retry.shortest)
    (hpause : retry.shortest ≤ landing.pause)
    {time : ℕ} (hwithin : time + landing.pause - landing.started ≤ retry.budget) :
    landing.pauses retry (time + landing.pause) + 1 ≤ landing.pauses retry time := by
  unfold Landing.pauses
  rw [← Nat.add_div_right _ hpos]
  exact Nat.div_le_div_right (by omega)

theorem Worker.rank_mono (retry : RecordRetry) (worker : Worker) {a b : ℕ} (h : a ≤ b) :
    worker.rank retry b ≤ worker.rank retry a := by
  cases worker with
  | top landing | checking landing _ | writing landing | busy landing _ =>
    have := landing.pauses_mono retry h
    simp only [Worker.rank]
    omega
  | _ => exact Nat.le_refl _

theorem paced_work (answer : Except StoreError Unit) (h : Paced retry s) :
    Paced retry (s.work format retry answer) := by
  have keep : ∀ {worker : Worker} (landing : Landing), s.worker.landing? = some landing →
      worker.landing?.all (landing.pause ≤ ·.pause) →
      ∀ other, worker.landing? = some other → retry.shortest ≤ other.pause := by
    intro worker landing hlanding hpause other hother
    rw [hother] at hpause
    exact Nat.le_trans (h landing hlanding) (of_decide_eq_true hpause)
  unfold State.work
  split
  next hworker => split <;> exact fun other hother => by first | cases hother | exact h other hother
  next hworker =>
    rintro other ⟨rfl⟩
    exact Nat.min_le_left _ _
  next landing hworker => exact keep landing (by rw [hworker]; rfl) (by simp [Worker.landing?])
  next landing looked hworker =>
    split
    · rintro other ⟨⟩
    · exact keep landing (by rw [hworker]; rfl) (by simp [Worker.landing?])
  next landing hworker =>
    dsimp only
    split
    · rintro other ⟨⟩
    · split
      · exact keep landing (by rw [hworker]; rfl) (by simp [Worker.landing?])
      · rintro other ⟨⟩
  next landing error hworker => exact keep landing (by rw [hworker]; rfl) (by simp [Worker.landing?])
  next landing error resume hworker =>
    split
    · rintro other ⟨⟩
    · split
      · rintro other ⟨⟩
      · exact keep landing (by rw [hworker]; rfl) (by simp [Worker.landing?])
  next landing resume hworker =>
    split
    · rintro other ⟨rfl⟩
      have hpause := h landing (by rw [hworker]; rfl)
      have hmax : retry.shortest ≤ retry.max := Nat.min_le_right _ _
      exact Nat.le_min.2 ⟨by omega, hmax⟩
    · exact h
  next => rintro other ⟨⟩
  next => rintro other ⟨⟩
  next => rintro other ⟨⟩

theorem rank_work_lt (hpos : 0 < retry.shortest) (h : Paced retry s) (hturn : s.waits = false)
    (hworker : s.worker ≠ .idle) (answer : Except StoreError Unit) :
    (s.work format retry answer).worker.rank retry s.now < s.worker.rank retry s.now := by
  unfold State.work
  split
  next hidle => exact absurd hidle hworker
  next hw =>
    rw [hw]
    simp only [Worker.rank, Landing.pauses, Nat.add_sub_cancel_left]
    omega
  next hw => rw [hw]; simp only [Worker.rank]; omega
  next hw =>
    rw [hw]
    split <;> simp only [State.giveUp, Worker.rank] <;> omega
  next hw =>
    rw [hw]
    dsimp only
    split
    · simp only [Worker.rank]; omega
    · split <;> simp only [State.giveUp, Worker.rank] <;> omega
  next landing error hw =>
    rw [hw]
    simp only [Worker.rank]
    split
    next hwithin =>
      have := Landing.pauses_add hpos (h landing (by rw [hw]; rfl)) hwithin
      omega
    · omega
  next landing error resume hw =>
    rw [hw]
    split
    next hspent => simp only [State.giveUp, Worker.rank, if_neg (Nat.not_le.2 hspent)]; omega
    next hspent =>
      have hrank : (Worker.resuming landing error resume).rank retry s.now =
          6 * landing.pauses retry resume + 16 := if_pos (Nat.not_lt.1 hspent)
      rw [hrank]
      split
      · simp only [State.giveUp, Worker.rank]; omega
      · simp only [Worker.rank, Landing.pauses]; omega
  next landing resume hw =>
    rw [hw]
    split
    next hawake =>
      have := landing.pauses_mono retry hawake
      simp only [Worker.rank, Landing.pauses] at this ⊢
      omega
    next hasleep =>
      rw [State.waits, hw] at hturn
      exact absurd (Nat.not_le.1 hasleep) (of_decide_eq_false hturn)
  next hw => rw [hw]; exact Nat.zero_lt_one
  next hw => rw [hw]; exact Nat.lt_succ_self _
  next hw => rw [hw]; exact Nat.zero_lt_one

theorem Worked.frame (h : Worked format retry s t) : t.now = s.now ∧ t.sent = s.sent := by
  cases h <;> exact ⟨rfl, rfl⟩

theorem channel_work (hworker : s.worker ≠ .idle) (answer : Except StoreError Unit) :
    (s.work format retry answer).channel = s.channel := by
  unfold State.work
  split
  next hidle => exact absurd hidle hworker
  all_goals (repeat' split) <;> rfl

theorem work_of_waits (h : s.waits = true) (answer : Except StoreError Unit) :
    s.work format retry answer = s := by
  unfold State.waits at h
  unfold State.work
  split at h
  next hw => rw [hw, List.isEmpty_iff.1 h]
  next hw =>
    rw [hw]
    exact if_neg (Nat.not_le.2 (of_decide_eq_true h))
  · cases h

/-- A turn brings the thread closer to the end of what it holds and of the items `ahead` in the channel. -/
theorem work_lowers (hpos : 0 < retry.shortest) (h : Paced retry s) (hturn : s.waits = false)
    {ahead behind : List Item} (hchannel : s.channel = ahead ++ behind)
    (hleft : s.worker ≠ .idle ∨ ahead ≠ [])
    (format : ℕ → String) (answer : Except StoreError Unit) :
    ∃ ahead', (s.work format retry answer).channel = ahead' ++ behind ∧
      (s.work format retry answer).worker.rank retry s.now + cost retry ahead' <
        s.worker.rank retry s.now + cost retry ahead := by
  by_cases hworker : s.worker = .idle
  · obtain ⟨item, ahead', rfl⟩ := List.exists_cons_of_ne_nil (hleft.resolve_left (not_not_intro hworker))
    refine ⟨ahead', ?_⟩
    have hcost : cost retry (item :: ahead') = item.cost retry + cost retry ahead' := rfl
    unfold State.work
    rw [hworker, hchannel, List.cons_append, hcost]
    cases item with
    | record record => exact ⟨rfl, by simp only [Worker.rank, Item.cost]; omega⟩
    | flush call drainBy => exact ⟨rfl, by simp only [Worker.rank, Item.cost]; omega⟩
  · exact ⟨ahead, (channel_work hworker answer).trans hchannel,
      Nat.add_lt_add_right (rank_work_lt hpos h hturn hworker answer) _⟩

theorem paced_next (e : Event) (h : Paced retry s) : Paced retry (next format retry s e) := by
  cases e with
  | tick millis | count record | flush => exact h
  | send caller =>
    rw [next]
    split <;> exact h
  | work answer => exact paced_work answer h
  | flushOn call =>
    intro landing hlanding
    rw [next, (flushStepped retry s call).worker] at hlanding
    exact h landing hlanding

theorem next_of_not_work (format : ℕ → String) (retry : RecordRetry) {e : Event}
    (he : ∀ answer, e ≠ .work answer) :
    (next format retry s e).worker = s.worker ∧ s.now ≤ (next format retry s e).now ∧
      ∃ more, (next format retry s e).channel = s.channel ++ more ∧
        (next format retry s e).sent = s.sent ++ more.filterMap Item.record? := by
  cases e with
  | tick millis => exact ⟨rfl, Nat.le_add_right _ _, [], (List.append_nil _).symm, (List.append_nil _).symm⟩
  | count record => exact ⟨rfl, Nat.le_refl _, [], (List.append_nil _).symm, (List.append_nil _).symm⟩
  | send caller =>
    rw [next]
    split
    · exact ⟨rfl, Nat.le_refl _, [], (List.append_nil _).symm, (List.append_nil _).symm⟩
    · exact ⟨rfl, Nat.le_refl _, [.record _], rfl, rfl⟩
  | work answer => exact absurd rfl (he answer)
  | flush => exact ⟨rfl, Nat.le_refl _, [], (List.append_nil _).symm, (List.append_nil _).symm⟩
  | flushOn call =>
    have hstep := flushStepped retry s call
    obtain ⟨more, hchannel, hmore⟩ := hstep.channel
    refine ⟨hstep.worker, Nat.le_of_eq hstep.now.symm, more, hchannel, ?_⟩
    rw [hmore, List.append_nil]
    exact hstep.sent

/-- Once the thread had its turns for what it holds and the items ahead, it is past them. -/
theorem drains (hpos : 0 < retry.shortest) (es : List Event) {sent : List StoreRecord}
    {ahead behind : List Item} (h : Paced retry s) (hchannel : s.channel = ahead ++ behind)
    (hsent : s.sent = sent ++ behind.filterMap Item.record?)
    (hturns : s.worker.rank retry s.now + cost retry ahead < turns format retry s es) :
    ∃ k, let t := (machine format retry).play s (es.take k)
      t.worker = .idle ∧ t.sent = sent ++ t.waiting := by
  induction es generalizing s ahead behind with
  | nil => exact absurd hturns (Nat.not_lt_zero _)
  | cons e es ih =>
    by_cases hpast : s.worker = .idle ∧ ahead = []
    · refine ⟨0, hpast.1, ?_⟩
      show s.sent = sent ++ s.waiting
      rw [hsent, State.waiting, hchannel, hpast.2, List.nil_append]
    -- it suffices to go on from the next state, with less ahead if the step was a turn
    suffices hnext : ∃ ahead' behind', (next format retry s e).channel = ahead' ++ behind' ∧
        (next format retry s e).sent = sent ++ behind'.filterMap Item.record? ∧
        (next format retry s e).worker.rank retry (next format retry s e).now + cost retry ahead' <
          turns format retry (next format retry s e) es by
      obtain ⟨ahead', behind', hchannel', hsent', hturns'⟩ := hnext
      obtain ⟨k, hk⟩ := ih (paced_next e h) hchannel' hsent' hturns'
      exact ⟨k + 1, hk⟩
    rw [turns] at hturns
    by_cases hwork : ∃ answer, e = .work answer
    · obtain ⟨answer, rfl⟩ := hwork
      have hframe := (worked format retry s answer).frame
      rw [next] at hturns ⊢
      rw [hframe.1, hframe.2]
      by_cases hwaits : s.waits = true
      · rw [work_of_waits hwaits] at hturns ⊢
        rw [Event.isTurn, hwaits, if_neg (by decide), Nat.zero_add] at hturns
        exact ⟨ahead, behind, hchannel, hsent, hturns⟩
      · have hawake : s.waits = false := Bool.eq_false_iff.2 hwaits
        obtain ⟨ahead', hchannel', hlower⟩ :=
          work_lowers hpos h hawake hchannel (not_and_or.1 hpast) format answer
        rw [Event.isTurn, hawake, if_pos (by decide)] at hturns
        exact ⟨ahead', behind, hchannel', hsent, by omega⟩
    · have hother : ∀ answer, e ≠ .work answer := fun answer he => hwork ⟨answer, he⟩
      obtain ⟨hworker, hnow, more, hmore, hsent'⟩ := next_of_not_work format retry hother
      have hturn : e.isTurn s = false := by
        cases e <;> first | rfl | exact absurd rfl (hother _)
      refine ⟨ahead, behind ++ more, by rw [hmore, hchannel, List.append_assoc], ?_, ?_⟩
      · rw [hsent', hsent, List.filterMap_append, List.append_assoc]
      · rw [hturn, if_neg (by decide), Nat.zero_add] at hturns
        rw [hworker]
        have := s.worker.rank_mono retry hnow
        omega

theorem plays_all (format : ℕ → String) (retry : RecordRetry) :
    ∀ (es : List Event) (s : State), (machine format retry).Plays s es
  | [], _ => trivial
  | _ :: es, _ => ⟨trivial, plays_all format retry es _⟩

/-- In any interleaving, whatever the store answers: the records are settled one after the other in the order
they were sent, each by one write or one notice that gives it up; the counter stands for the records not
settled, with those about to be sent and the one about to be counted off; and with pauses of some length,
enough turns of the thread settle everything sent. -/
theorem records_settled_once_in_order (hs : (machine format retry).Reaches .new s) :
    (∃ done closed tried, Accounted format retry s done closed tried) ∧ Counts s ∧
      (∀ record, s.worker = .settled record → 0 < s.pending) ∧
      (0 < retry.first → 0 < retry.max → ∀ es, s.due retry < turns format retry s es →
        ∃ k, Settled format retry s.sent ((machine format retry).play s (es.take k)).deeds) := by
  have haccounted : ∀ {t}, (machine format retry).Reaches .new t →
      ∃ done closed tried, Accounted format retry t done closed tried := fun ht =>
    ht.invariant (P := fun t => ∃ done closed tried, Accounted format retry t done closed tried)
      (fun _ e h _ => accounted_next e h) ⟨[], [], [], rfl, rfl, .nil, fun _ h => nomatch h⟩
  have hcounts : Counts s := hs.invariant (P := Counts) (fun _ e h _ => counts_next e h) rfl
  have hpaced : Paced retry s :=
    hs.invariant (P := Paced retry) (fun _ e h _ => paced_next e h) fun _ h => nomatch h
  refine ⟨haccounted hs, hcounts, fun record hworker => ?_, fun hfirst hmax es hturns => ?_⟩
  · rw [hcounts, hworker]
    exact Nat.succ_pos _
  · obtain ⟨k, hidle, hsent⟩ := drains (Nat.lt_min.2 ⟨hfirst, hmax⟩) es hpaced (List.append_nil _).symm
      (List.append_nil _).symm hturns
    have ht := Relation.ReflTransGen.trans hs
      (Machine.reaches_play (plays_all format retry (es.take k) s))
    obtain ⟨done, closed, tried, h⟩ := haccounted ht
    obtain rfl := h.tried_eq_nil (by rw [hidle]; rfl)
    refine ⟨k, ?_⟩
    -- what is not settled by then was sent later
    have hdone : done = s.sent := by
      have hsame := h.sent
      rw [hsent, State.unsettled, hidle] at hsame
      exact (List.append_cancel_right hsame).symm
    rw [h.deeds, List.append_nil, ← hdone]
    exact h.settled

/-- A project's idle stop is cleared: counted, sent, and written at the first attempt. -/
def cleared : List Event :=
  .count (.idleCleared (.top [115])) :: .send 0 :: List.replicate 5 (.work (.ok ()))

/-- The store is busy once; the record is written after a pause. -/
def clearedLate : List Event :=
  .count (.idleCleared (.top [115])) :: .send 0 :: List.replicate 4 (.work (.ok ())) ++
    .work (.error (.busy "locked")) :: .work (.ok ()) :: .work (.ok ()) :: .tick 100 ::
    List.replicate 5 (.work (.ok ()))

theorem records_settled_once_in_order_of_busy :
    let s := (machine toString .service).play .new clearedLate
    s.pending = 0 ∧ s.deeds.length = 3 ∧
      ∃ done closed tried, Accounted toString .service s done closed tried :=
  ⟨by decide +kernel, by decide +kernel,
    (records_settled_once_in_order (Machine.reaches_play (plays_all _ _ clearedLate .new))).1⟩

/-- Between the write and the step that counts it off, a record is settled and still counted. -/
theorem counter_exceeds_unsettled : ¬ ∀ s : State, (machine toString .service).Reaches .new s →
    s.pending = s.unsettled.length := by
  intro h
  have hs := h _ (Machine.reaches_play (plays_all _ _ cleared .new))
  revert hs
  decide +kernel

end Muster.StoreRecorder
