import Muster.Lib.Machine
import Muster.Lib.Table
import Muster.Store.Coordination

/-!
# LockRows — the table of locks, and what its histories guarantee

A lock is one row per project and name; whether it still holds is decided by comparing its last
second with the clock, in the statement that takes it, in the one that asks who holds it and in the
one that counts a session's locks.  Each request is one serial transaction, at a moment no earlier
than the one before.
-/

namespace Muster.Store

structure LockRow where
  project : ℕ
  name : String
  owner : Author
  session : String
  note : Option String
  expiresAt : EpochSeconds
  deriving DecidableEq, Repr

namespace LockRow

def key (row : LockRow) : ℕ × String := (row.project, row.name)

def isLive (row : LockRow) (now : EpochSeconds) : Bool := now ≤ row.expiresAt

def expiresIn (row : LockRow) (now : EpochSeconds) : ℕ := EpochSeconds.until_ now row.expiresAt

def isOf (row : LockRow) (me : LockHolder) : Bool :=
  row.owner = me.author && row.session = me.session

end LockRow

structure EndedRow where
  session : String
  endedAt : EpochSeconds
  deriving DecidableEq, Repr

/-- The two tables the requests on locks read and write. -/
structure LockStore where
  locks : Table LockRow.key
  ended : Table EndedRow.session

inductive LockError where
  | tooManyLocks
  | lockVanished (name : String)
  deriving DecidableEq, Repr

namespace LockStore

def empty : LockStore := ⟨.empty, .empty⟩

/-- The upsert that takes a lock: no row comes back when someone else holds it. -/
def acquireRow (locks : Table LockRow.key) (row : LockRow) (now : ℕ) :
    Option (Table LockRow.key) :=
  match locks.find row.key with
  | none => some (locks.put row)
  | some old =>
    if old.expiresAt < now || (old.owner = row.owner && old.session = row.session) then
      some (locks.put row)
    else none

def heldByAnother (s : LockStore) (project : ℕ) (me : LockHolder) (name : String)
    (now : EpochSeconds) : Option LockRow :=
  (s.locks.find (project, name)).filter fun row =>
    EpochSeconds.param now ≤ row.expiresAt && !row.isOf me

def heldBy (holder : LockRow) (now : EpochSeconds) : LockAttempt :=
  .heldBy holder.owner holder.note (holder.expiresIn now)

def hasEnded (s : LockStore) (session : String) : Bool := (s.ended.find session).isSome

/-- How many live locks `me`'s session holds in any project, the lock asked for aside. -/
def otherLiveLocks (s : LockStore) (project : ℕ) (me : LockHolder) (name : String)
    (now : EpochSeconds) : ℕ :=
  s.locks.rows.countP fun row =>
    row.session = me.session && EpochSeconds.param now ≤ row.expiresAt &&
      !(row.project = project && row.name = name)

def rowOf (project : ℕ) (me : LockHolder) (name : String) (ttl : LockTtl) (note : Option String)
    (now : EpochSeconds) : LockRow where
  project := project
  name := name
  owner := me.author
  session := me.session
  note := note
  expiresAt := EpochSeconds.param (EpochSeconds.after now ttl.secs)

/-- Takes a lock for `me`, unless its session ended. -/
def acquire (s : LockStore) (project : ℕ) (me : LockHolder) (name : String) (ttl : LockTtl)
    (note : Option String) (now : EpochSeconds) : Except LockError LockAttempt × LockStore :=
  if s.hasEnded me.session then (.ok .sessionEnded, s)
  else match s.heldByAnother project me name now with
  | some holder => (.ok (heldBy holder now), s)
  | none =>
    if s.otherLiveLocks project me name now ≥ locksPerSessionMax then (.error .tooManyLocks, s)
    else
      match acquireRow s.locks (rowOf project me name ttl note now) (EpochSeconds.param now) with
      | some locks => (.ok (.acquired ttl.secs), { s with locks })
      | none =>
        match s.locks.find (project, name) with
        | none => (.error (.lockVanished name), s)
        | some holder => (.ok (heldBy holder now), s)

def release (s : LockStore) (project : ℕ) (me : LockHolder) (name : String)
    (now : EpochSeconds) : LockRelease × LockStore :=
  let mine := fun row : LockRow => row.project = project && row.name = name && row.isOf me
  if s.locks.rows.countP mine > 0 then
    (.released, { s with locks := s.locks.deleteWhere mine })
  else match s.locks.find (project, name) with
  | some row => (if row.isLive now then .heldBy row.owner else .notHeld, s)
  | none => (.notHeld, s)

def breakLock (s : LockStore) (project : ℕ) (name : String) : Option LockRow × LockStore :=
  (s.locks.find (project, name),
    { s with locks := s.locks.deleteWhere fun row => row.project = project && row.name = name })

/-- Ends a session: its locks go in every project, and it is recorded as ended.  Sessions that ended
longer ago than any lock lives are forgotten. -/
def releaseAllOf (s : LockStore) (session : String) (now : EpochSeconds) : ℕ × LockStore :=
  let ended := s.ended.deleteWhere (·.endedAt < EpochSeconds.param now - lockTtlMax)
  (s.locks.rows.countP (·.session = session),
    { locks := s.locks.deleteWhere (·.session = session)
      ended := ended.put ⟨session, EpochSeconds.param now⟩ })

end LockStore

namespace LockRow

variable {row : LockRow} {me other : LockHolder}

theorem isOf_iff : row.isOf me = true ↔ me = ⟨row.owner, row.session⟩ := by
  obtain ⟨author, session⟩ := me
  rw [isOf, Bool.and_eq_true, decide_eq_true_eq, decide_eq_true_eq, LockHolder.mk.injEq]
  exact and_congr eq_comm eq_comm

theorem isOf_unique (h : row.isOf me = true) (h' : row.isOf other = true) : me = other :=
  (isOf_iff.1 h).trans (isOf_iff.1 h').symm

end LockRow

namespace LockStore

variable {s : LockStore} {project : ℕ} {me : LockHolder} {name : String} {ttl : LockTtl}
  {note : Option String} {now : EpochSeconds}

theorem rowOf_isOf : (rowOf project me name ttl note now).isOf me = true := by
  simp [rowOf, LockRow.isOf]

theorem heldByAnother_eq_none (h : s.heldByAnother project me name now = none) {old : LockRow}
    (hold : s.locks.find (project, name) = some old)
    (hlive : EpochSeconds.param now ≤ old.expiresAt) : old.isOf me = true := by
  simpa [heldByAnother, hold, hlive] using h

theorem acquireRow_eq (h : s.heldByAnother project me name now = none) :
    acquireRow s.locks (rowOf project me name ttl note now) (EpochSeconds.param now) =
      some (s.locks.put (rowOf project me name ttl note now)) := by
  have hkey : (rowOf project me name ttl note now).key = (project, name) := rfl
  unfold acquireRow
  rw [hkey]
  cases hold : s.locks.find (project, name) with
  | none => rfl
  | some old =>
    refine if_pos (Bool.or_eq_true _ _ ▸ ?_)
    rcases Nat.lt_or_ge old.expiresAt (EpochSeconds.param now) with hlapsed | hlive
    · exact .inl (decide_eq_true hlapsed)
    · exact .inr (heldByAnother_eq_none h hold hlive)

/-- **What an acquire does.**  It leaves the tables as they are, or writes the lock's row for a session
that has not ended, holds fewer other live locks than the most, and finds nobody else holding it. -/
theorem acquire_cases (s : LockStore) (project : ℕ) (me : LockHolder) (name : String)
    (ttl : LockTtl) (note : Option String) (now : EpochSeconds) :
    (s.acquire project me name ttl note now).2 = s ∨
      s.hasEnded me.session = false ∧ s.heldByAnother project me name now = none ∧
      s.otherLiveLocks project me name now < locksPerSessionMax ∧
      (s.acquire project me name ttl note now).2 =
        { s with locks := s.locks.put (rowOf project me name ttl note now) } := by
  unfold acquire
  cases hended : s.hasEnded me.session with
  | true => exact .inl rfl
  | false =>
    cases hother : s.heldByAnother project me name now with
    | some holder => exact .inl rfl
    | none =>
      by_cases hmany : s.otherLiveLocks project me name now ≥ locksPerSessionMax
      · exact .inl (by simp [hmany])
      · refine .inr ⟨rfl, rfl, Nat.lt_of_not_le hmany, ?_⟩
        simp [hmany, acquireRow_eq hother]

end LockStore

/-! ### Histories -/

inductive LockRequest where
  | acquire (project : ℕ) (me : LockHolder) (name : String) (ttl : LockTtl) (note : Option String)
  | release (project : ℕ) (me : LockHolder) (name : String)
  | breakLock (project : ℕ) (name : String)
  | endSession (session : String)
  deriving DecidableEq, Repr

/-- A request and the moment its transaction reads. -/
structure LockEvent where
  now : EpochSeconds
  request : LockRequest
  deriving DecidableEq, Repr

def LockStore.take (s : LockStore) (e : LockEvent) : LockStore :=
  match e.request with
  | .acquire project me name ttl note => (s.acquire project me name ttl note e.now).2
  | .release project me name => (s.release project me name e.now).2
  | .breakLock project name => (s.breakLock project name).2
  | .endSession session => (s.releaseAllOf session e.now).2

/-- The tables and the moment of the last transaction. -/
structure LockState where
  store : LockStore
  clock : EpochSeconds

/-- Transactions one after the other, under a clock that never goes back. -/
def lockMachine : Machine LockState LockEvent where
  Enabled s e := s.clock ≤ e.now
  next s e := ⟨s.store.take e, e.now⟩

instance (s : LockState) (e : LockEvent) : Decidable (lockMachine.Enabled s e) :=
  inferInstanceAs (Decidable (s.clock ≤ e.now))

/-! ### Exclusion -/

/-- The lock of `key` is `holder`'s. -/
def LockState.Held (s : LockState) (key : ℕ × String) (holder : LockHolder) : Prop :=
  ∃ row, s.store.locks.find key = some row ∧ row.isOf holder = true

/-- A transaction at which the lock of `key` is live, and which is not its release by `holder`, its
break, or the end of `holder`'s session. -/
def Spares (key : ℕ × String) (holder : LockHolder) (s : LockState) (e : LockEvent) : Prop :=
  (∀ row, s.store.locks.find key = some row → row.isLive e.now = true) ∧
    match e.request with
    | .acquire _ _ _ _ _ => True
    | .release project me name => ¬((project, name) = key ∧ me = holder)
    | .breakLock project name => (project, name) ≠ key
    | .endSession session => session ≠ holder.session

section

variable {s : LockState} {e : LockEvent} {key : ℕ × String} {holder : LockHolder}

theorem LockState.Held.deleteWhere {p : LockRow → Bool} {ended : Table EndedRow.session}
    (h : s.Held key holder)
    (hp : ∀ row, row.key = key → row.isOf holder = true → p row = false) :
    LockState.Held ⟨⟨s.store.locks.deleteWhere p, ended⟩, e.now⟩ key holder := by
  obtain ⟨row, hrow, hof⟩ := h
  have hkey := (Table.find_eq_some.1 hrow).2
  refine ⟨row, ?_, hof⟩
  rw [Table.find_deleteWhere, hrow, Option.filter_some, hp row hkey hof]
  rfl

theorem LockState.Held.acquire (h : s.Held key holder)
    (hlive : ∀ row, s.store.locks.find key = some row → row.isLive e.now = true)
    (project : ℕ) (me : LockHolder) (name : String) (ttl : LockTtl) (note : Option String) :
    LockState.Held ⟨(s.store.acquire project me name ttl note e.now).2, e.now⟩ key holder := by
  rcases s.store.acquire_cases project me name ttl note e.now with hsame | ⟨-, hnone, -, hput⟩
  · rw [hsame]
    exact h
  rw [hput]
  obtain ⟨row, hrow, hof⟩ := h
  by_cases hkey : key = (project, name)
  · subst hkey
    -- the row is live, so it was the asker's own and the write renews it
    have hnow : EpochSeconds.param e.now ≤ row.expiresAt :=
      Nat.le_trans (Nat.min_le_left _ _) (by simpa [LockRow.isLive] using hlive row hrow)
    have hme := LockStore.heldByAnother_eq_none hnone hrow hnow
    refine ⟨LockStore.rowOf project me name ttl note e.now, Table.find_put_self, ?_⟩
    rw [LockRow.isOf_unique hof hme]
    exact LockStore.rowOf_isOf
  · have hne : key ≠ (LockStore.rowOf project me name ttl note e.now).key := hkey
    exact ⟨row, (Table.find_put_of_ne hne).trans hrow, hof⟩

theorem LockState.Held.take (h : s.Held key holder) (hspares : Spares key holder s e) :
    (lockMachine.next s e).Held key holder := by
  obtain ⟨hlive, hspares⟩ := hspares
  change LockState.Held ⟨s.store.take e, e.now⟩ key holder
  unfold LockStore.take
  cases hreq : e.request with
  | acquire project me name ttl note => exact h.acquire hlive project me name ttl note
  | release project me name =>
    rw [hreq] at hspares
    simp only [LockStore.release]
    split
    · refine h.deleteWhere fun row hkey hof => ?_
      by_contra hmine
      simp only [Bool.not_eq_false, Bool.and_eq_true, decide_eq_true_eq] at hmine
      refine hspares ⟨?_, LockRow.isOf_unique hmine.2 hof⟩
      rw [← hkey, LockRow.key, hmine.1.1, hmine.1.2]
    · split <;> exact h
  | breakLock project name =>
    rw [hreq] at hspares
    refine h.deleteWhere fun row hkey _ => ?_
    by_contra hthis
    simp only [Bool.not_eq_false, Bool.and_eq_true, decide_eq_true_eq] at hthis
    exact hspares (by rw [← hkey, LockRow.key, hthis.1, hthis.2])
  | endSession session =>
    rw [hreq] at hspares
    refine h.deleteWhere fun row _ hof => ?_
    have hsession : holder.session = row.session := by rw [LockRow.isOf_iff.1 hof]
    exact decide_eq_false fun heq => hspares (heq.symm.trans hsession.symm)

end

/-! ### The most locks of one session -/

/-- How many locks live at `now` a session holds, over all projects. -/
def LockStore.liveLocks (s : LockStore) (session : String) (now : EpochSeconds) : ℕ :=
  s.locks.rows.countP fun row => row.session = session && row.isLive now

namespace LockStore

variable {s : LockStore} {session : String} {now : EpochSeconds}

theorem liveLocks_le_of_le {clock : EpochSeconds} (h : clock ≤ now) :
    s.liveLocks session now ≤ s.liveLocks session clock := by
  refine List.countP_mono_left fun row _ hrow => ?_
  simp only [LockRow.isLive, Bool.and_eq_true, decide_eq_true_eq] at hrow ⊢
  exact ⟨hrow.1, Nat.le_trans h hrow.2⟩

theorem liveLocks_deleteWhere {p : LockRow → Bool} {ended : Table EndedRow.session} :
    liveLocks ⟨s.locks.deleteWhere p, ended⟩ session now ≤ s.liveLocks session now :=
  List.filter_sublist.countP_le

theorem liveLocks_acquire (h : s.liveLocks session now ≤ locksPerSessionMax)
    (project : ℕ) (me : LockHolder) (name : String) (ttl : LockTtl) (note : Option String) :
    (s.acquire project me name ttl note now).2.liveLocks session now ≤ locksPerSessionMax := by
  rcases s.acquire_cases project me name ttl note now with hsame | ⟨-, -, hfew, hput⟩
  · rw [hsame]
    exact h
  rw [hput, liveLocks, Table.countP_put]
  by_cases hmine : me.session = session
  · -- the others it holds are among those the check counted
    have hothers : (s.locks.rows.countP fun old => (old.session = session && old.isLive now) &&
        !(old.key = (rowOf project me name ttl note now).key)) ≤
          s.otherLiveLocks project me name now := by
      refine List.countP_mono_left fun old _ hold => ?_
      simp only [LockRow.isLive, LockRow.key, rowOf, Prod.mk.injEq, Bool.and_eq_true,
        Bool.not_eq_true', decide_eq_true_eq, decide_eq_false_iff_not, Bool.and_eq_false_iff,
        not_and_or] at hold ⊢
      exact ⟨⟨hold.1.1.trans hmine.symm, Nat.le_trans (Nat.min_le_left _ _) hold.1.2⟩, hold.2⟩
    have hone := Bool.toNat_le
      ((rowOf project me name ttl note now).session = session &&
        (rowOf project me name ttl note now).isLive now)
    omega
  · have hzero : ((rowOf project me name ttl note now).session = session &&
        (rowOf project me name ttl note now).isLive now) = false := by
      simp [rowOf, hmine]
    rw [hzero]
    refine Nat.le_trans (List.countP_mono_left fun old _ hold => ?_) h
    exact (Bool.and_eq_true _ _ ▸ hold).1

theorem liveLocks_take {e : LockEvent} (h : s.liveLocks session e.now ≤ locksPerSessionMax) :
    (s.take e).liveLocks session e.now ≤ locksPerSessionMax := by
  unfold take
  cases e.request with
  | acquire project me name ttl note => exact liveLocks_acquire h project me name ttl note
  | release project me name =>
    simp only [release]
    split
    · exact Nat.le_trans liveLocks_deleteWhere h
    · split <;> exact h
  | breakLock project name => exact Nat.le_trans liveLocks_deleteWhere h
  | endSession other => exact Nat.le_trans liveLocks_deleteWhere h

end LockStore

/-! ### Ended sessions -/

/-- A session ended at `at_` or later: it is on record, and no lock is its. -/
def LockStore.Over (s : LockStore) (session : String) (at_ : EpochSeconds) : Prop :=
  (∃ row, s.ended.find session = some row ∧ EpochSeconds.param at_ ≤ row.endedAt) ∧
    ∀ row ∈ s.locks.rows, row.session ≠ session

namespace LockStore

variable {s : LockStore} {session : String} {at_ : EpochSeconds}

theorem Over.hasEnded (h : s.Over session at_) : s.hasEnded session = true := by
  obtain ⟨⟨row, hrow, -⟩, -⟩ := h
  simp [LockStore.hasEnded, hrow]

theorem Over.acquire (h : s.Over session at_) (project : ℕ) (author : Author) (name : String)
    (ttl : LockTtl) (note : Option String) (now : EpochSeconds) :
    s.acquire project ⟨author, session⟩ name ttl note now = (.ok .sessionEnded, s) := by
  simp [LockStore.acquire, h.hasEnded]

theorem Over.deleteWhere (h : s.Over session at_) (p : LockRow → Bool) :
    Over { s with locks := s.locks.deleteWhere p } session at_ :=
  ⟨h.1, fun row hrow => h.2 row (List.mem_of_mem_filter hrow)⟩

theorem over_releaseAllOf (s : LockStore) (session : String) (now : EpochSeconds) :
    (s.releaseAllOf session now).2.Over session now := by
  refine ⟨⟨_, Table.find_put_self, Nat.le_refl _⟩, fun row hrow => ?_⟩
  simpa using (List.mem_filter.1 hrow).2

theorem Over.releaseAllOf (h : s.Over session at_) (other : String) {now : EpochSeconds}
    (hle : at_ ≤ now) (hnow : now ≤ at_ + lockTtlMax) :
    (s.releaseAllOf other now).2.Over session at_ := by
  obtain ⟨⟨row, hrow, hended⟩, hlocks⟩ := h
  refine ⟨?_, fun row hrow => hlocks row (List.mem_of_mem_filter hrow)⟩
  have hparam : EpochSeconds.param now - lockTtlMax ≤ EpochSeconds.param at_ :=
    EpochSeconds.param_sub_le hnow
  by_cases hother : session = other
  · subst hother
    exact ⟨_, Table.find_put_self, EpochSeconds.param_le_param hle⟩
  · refine ⟨row, ?_, hended⟩
    have hkept : decide (row.endedAt < EpochSeconds.param now - lockTtlMax) = false :=
      decide_eq_false (Nat.not_lt.2 (Nat.le_trans hparam hended))
    refine (Table.find_put_of_ne hother).trans ?_
    rw [Table.find_deleteWhere, hrow, Option.filter_some, hkept]
    rfl

/-- One transaction at most the longest time-to-live after a session's end leaves it ended. -/
theorem Over.take (h : s.Over session at_) {e : LockEvent} (hle : at_ ≤ e.now)
    (hnow : e.now ≤ at_ + lockTtlMax) : (s.take e).Over session at_ := by
  unfold LockStore.take
  cases e.request with
  | acquire project me name ttl note =>
    rcases s.acquire_cases project me name ttl note e.now with hsame | ⟨hnot, -, -, hput⟩
    · simp only [hsame]
      exact h
    · simp only [hput]
      refine ⟨h.1, fun row hrow hsession => ?_⟩
      rcases Table.mem_put.1 hrow with rfl | ⟨hold, -⟩
      · have hme : me.session = session := hsession
        rw [hme, h.hasEnded] at hnot
        cases hnot
      · exact h.2 row hold hsession
  | release project me name =>
    simp only [LockStore.release]
    split
    · exact h.deleteWhere _
    · split <;> exact h
  | breakLock project name => exact h.deleteWhere _
  | endSession other => exact h.releaseAllOf other hle hnow

end LockStore

def LockState.initial (clock : EpochSeconds) : LockState := ⟨.empty, clock⟩

theorem liveLocks_of_reaches {start : EpochSeconds} {s : LockState}
    (hr : lockMachine.Reaches (.initial start) s) (session : String) :
    s.store.liveLocks session s.clock ≤ locksPerSessionMax := by
  refine hr.invariant (P := fun s => s.store.liveLocks session s.clock ≤ locksPerSessionMax)
    (fun a e ha he => ?_) (Nat.zero_le _)
  exact LockStore.liveLocks_take (Nat.le_trans (LockStore.liveLocks_le_of_le he) ha)

theorem over_of_reaches {session : String} {at_ : EpochSeconds} {s t : LockState}
    (hr : lockMachine.Reaches s t) (hclock : at_ ≤ s.clock) (hs : s.store.Over session at_) :
    at_ ≤ t.clock ∧ (t.clock ≤ at_ + lockTtlMax → t.store.Over session at_) := by
  refine hr.invariant
    (P := fun t => at_ ≤ t.clock ∧ (t.clock ≤ at_ + lockTtlMax → t.store.Over session at_))
    (fun a e ha he => ?_) ⟨hclock, fun _ => hs⟩
  have hle : at_ ≤ e.now := Nat.le_trans ha.1 he
  exact ⟨hle, fun hnow => (ha.2 (Nat.le_trans he hnow)).take hle hnow⟩

/-- **Locks exclude.**  In every history: through transactions at which a held lock is live, none of
them its release by its holder, its break or the end of its session, it stays with its owner and
session; no session ever holds more live locks than the most; and from the end of a session until the
longest time-to-live later it has no lock and every acquire through it is refused. -/
theorem locks_exclude {start : EpochSeconds} {s : LockState}
    (hr : lockMachine.Reaches (.initial start) s) :
    (∀ key holder t, s.Held key holder → (lockMachine.restrict (Spares key holder)).Reaches s t →
      t.Held key holder) ∧
    (∀ session now, s.clock ≤ now → s.store.liveLocks session now ≤ locksPerSessionMax) ∧
    ∀ session now t, lockMachine.Enabled s ⟨now, .endSession session⟩ →
      lockMachine.Reaches (lockMachine.next s ⟨now, .endSession session⟩) t →
      t.clock ≤ now + lockTtlMax →
        (∀ row ∈ t.store.locks.rows, row.session ≠ session) ∧
        ∀ project author name ttl note later,
          (t.store.acquire project ⟨author, session⟩ name ttl note later).1 = .ok .sessionEnded := by
  refine ⟨fun key holder t hheld hrun => ?_, fun session now hnow => ?_,
    fun session now t _ hrun hclock => ?_⟩
  · exact hrun.invariant_restrict (P := fun t => t.Held key holder)
      (fun a e ha _ hok => ha.take hok) hheld
  · exact Nat.le_trans (LockStore.liveLocks_le_of_le hnow) (liveLocks_of_reaches hr session)
  · have hover : t.store.Over session now :=
      (over_of_reaches hrun (Nat.le_refl now) (LockStore.over_releaseAllOf _ session now)).2 hclock
    exact ⟨hover.2, fun project author name ttl note later => by rw [hover.acquire]⟩

/-- An agent takes a lock, another asks for it in vain, and the agent renews it. -/
def sharedLock : List LockEvent :=
  [⟨100, .acquire 1 ⟨"claude", "a"⟩ "migrations" ⟨60, by decide, by decide⟩ none⟩,
    ⟨130, .acquire 1 ⟨"codex", "b"⟩ "migrations" ⟨60, by decide, by decide⟩ none⟩,
    ⟨160, .acquire 1 ⟨"claude", "a"⟩ "migrations" ⟨60, by decide, by decide⟩ none⟩]

theorem locks_exclude_shared :
    (∀ t, (lockMachine.restrict (Spares (1, "migrations") ⟨"claude", "a"⟩)).Reaches
        (lockMachine.play (.initial 0) sharedLock) t → t.Held (1, "migrations") ⟨"claude", "a"⟩) ∧
      (lockMachine.play (.initial 0) sharedLock).store.liveLocks "a" 220 ≤ locksPerSessionMax ∧
      ∀ t, lockMachine.Reaches (lockMachine.next (lockMachine.play (.initial 0) sharedLock)
        ⟨200, .endSession "a"⟩) t → t.clock ≤ 3800 →
          ∀ row ∈ t.store.locks.rows, row.session ≠ "a" := by
  have hplays : lockMachine.Plays (.initial 0) sharedLock := by decide
  have hall := locks_exclude (Machine.reaches_play hplays)
  exact ⟨fun t => hall.1 _ _ t ⟨_, rfl, by decide⟩, hall.2.1 "a" 220 (by decide),
    fun t hrun hclock => (hall.2.2 "a" 200 t (by decide) hrun hclock).1⟩

end Muster.Store
