import Mathlib.Algebra.Group.Nat.Defs
import Mathlib.Data.Nat.Notation
import Mathlib.Order.Basic

/-!
# Coordination — the domain of locks and todos

What agents and the human share about a project besides its processes: locks held for a time, and
todos claimed under a lease.  These are the types and rules of the domain; the store's tables are
apart.  An author is known by its label.  A moment is whole seconds since the epoch in an unsigned 64
bit number; the store keeps it in a signed one.
-/

namespace Muster.Store

abbrev Author := String

abbrev EpochSeconds := ℕ

namespace EpochSeconds

def latest : ℕ := 2 ^ 64 - 1

def latestStored : ℕ := 2 ^ 63 - 1

def after (start : EpochSeconds) (span : ℕ) : EpochSeconds := min (start + span) latest

def until_ (start later : EpochSeconds) : ℕ := later - start

def param (at_ : EpochSeconds) : ℕ := min at_ latestStored

theorem param_of_le {at_ : EpochSeconds} (h : at_ ≤ latestStored) : param at_ = at_ :=
  Nat.min_eq_left h

theorem param_le_param {at_ now : ℕ} (h : at_ ≤ now) : param at_ ≤ param now := by
  simp only [param]
  omega

theorem param_sub_le {at_ now span : ℕ} (h : now ≤ at_ + span) : param now - span ≤ param at_ := by
  simp only [param]
  omega

end EpochSeconds

/-! ### Locks -/

def lockTtlMax : ℕ := 60 * 60

/-- How long a lock holds before it frees itself. -/
structure LockTtl where
  secs : ℕ
  least : 1 ≤ secs
  most : secs ≤ lockTtlMax
  deriving DecidableEq, Repr

def locksPerSessionMax : ℕ := 32

/-- Who takes, renews and releases a lock: an agent through one connection. -/
structure LockHolder where
  author : Author
  session : String
  deriving DecidableEq, Repr

inductive LockAttempt where
  | acquired (expiresIn : ℕ)
  | heldBy (owner : Author) (note : Option String) (expiresIn : ℕ)
  | sessionEnded
  deriving DecidableEq, Repr

inductive LockRelease where
  | released
  | heldBy (owner : Author)
  | notHeld
  deriving DecidableEq, Repr

/-! ### Todos -/

inductive TodoStatus where
  | pending
  | inProgress
  | done
  deriving DecidableEq, Repr

def todoLeaseDefault : ℕ := 30 * 60

def todoLeaseMax : ℕ := 8 * 60 * 60

/-- How long a todo claim holds before another agent may take the todo over. -/
structure TodoLease where
  secs : ℕ
  least : 1 ≤ secs
  most : secs ≤ todoLeaseMax
  deriving DecidableEq, Repr

def TodoLease.default : TodoLease := ⟨todoLeaseDefault, by decide, by decide⟩

/-- An agent's hold on an in-progress todo: who works it, and until when. -/
structure TodoClaim where
  owner : Author
  claimedUntil : EpochSeconds
  deriving DecidableEq, Repr

namespace TodoClaim

def fresh (owner : Author) (lease : TodoLease) (now : EpochSeconds) : TodoClaim :=
  ⟨owner, EpochSeconds.after now lease.secs⟩

def isLive (claim : TodoClaim) (now : EpochSeconds) : Bool := now ≤ claim.claimedUntil

def expiresIn (claim : TodoClaim) (now : EpochSeconds) : ℕ :=
  EpochSeconds.until_ now claim.claimedUntil

end TodoClaim

/-- Who holds a todo at a moment. -/
inductive ClaimState where
  | unclaimed
  | held (owner : Author) (expiresIn : ℕ)
  | stale (owner : Author)
  deriving DecidableEq, Repr

/-- A titled task with a status, dependencies on other todos, and a claim while it is worked. -/
structure Todo where
  id : String
  title : String
  status : TodoStatus
  deps : List String
  claim : Option TodoClaim
  author : Author
  updatedAt : EpochSeconds
  deriving DecidableEq, Repr

structure TodoChange where
  title : Option String
  status : Option TodoStatus
  force : Bool
  deriving DecidableEq, Repr

inductive TodoUpdate where
  | updated (todo : Todo)
  | heldBy (owner : Author) (expiresIn : ℕ)
  | missing
  deriving DecidableEq, Repr

namespace Todo

def claimState (todo : Todo) (now : EpochSeconds) : ClaimState :=
  match todo.claim with
  | none => .unclaimed
  | some claim =>
    if claim.isLive now then .held claim.owner (claim.expiresIn now) else .stale claim.owner

/-- The todo another agent's live lease guards is changed by force alone: whether it is. -/
def takenOver (todo : Todo) (me : Author) (now : EpochSeconds) : Option (Author × ℕ) :=
  match todo.claimState now with
  | .held owner expiresIn => if owner ≠ me then some (owner, expiresIn) else none
  | .unclaimed | .stale _ => none

/-- The claim a todo has after a change to `status`. -/
def claimAfter (todo : Todo) (me : Author) (change : TodoChange) (now : EpochSeconds)
    (takenOver : Bool) (status : TodoStatus) : Option TodoClaim :=
  let mine := todo.claim.filter fun claim => claim.owner = me && claim.isLive now
  match status with
  | .inProgress =>
    if mine.isSome then mine
    else if takenOver || change.status = some .inProgress then some (.fresh me .default now)
    else todo.claim
  | .pending | .done => none

/-- This todo with `change` applied by `me`, or who holds it when another agent's live lease guards it
and `change` does not force. -/
def changed (todo : Todo) (me : Author) (change : TodoChange) (now : EpochSeconds) : TodoUpdate :=
  match todo.takenOver me now with
  | some (owner, expiresIn) =>
    if change.force then .updated (rewritten true) else .heldBy owner expiresIn
  | none => .updated (rewritten false)
where
  rewritten (takenOver : Bool) : Todo :=
    let status := change.status.getD todo.status
    { todo with
      title := change.title.getD todo.title
      status
      claim := todo.claimAfter me change now takenOver status
      author := me
      updatedAt := now }

end Todo

inductive Claim where
  | claimed (todo : Todo)
  | heldBy (owner : Author) (expiresIn : ℕ)
  | unavailable (todo : Todo)
  | nothingClaimable
  | missing
  deriving DecidableEq, Repr

end Muster.Store
