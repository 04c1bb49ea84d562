import Muster.Lib.Machine
import Muster.Lib.Table
import Muster.Store.Coordination

/-!
# TodoRows — the table of todos, and claims on them

The rules of the domain are written a second time as statements over nullable columns: which todo may
be claimed by its id, and which is the next one an agent may take without naming it.  Here are the
statements as SQLite runs them (a comparison with no value selects nothing), the transactions built
from them, and that over every history they do what the domain says.
-/

namespace Muster.Store

structure TodoRow where
  project : ℕ
  id : String
  title : String
  status : TodoStatus
  deps : List String
  author : Author
  updatedAt : EpochSeconds
  owner : Option Author
  claimedUntil : Option EpochSeconds
  paired : owner.isNone = claimedUntil.isNone
  worked : owner = none ∨ status = .inProgress
  deriving DecidableEq

namespace TodoRow

def key (row : TodoRow) : ℕ × String := (row.project, row.id)

def claim (row : TodoRow) : Option TodoClaim :=
  match row.owner, row.claimedUntil with
  | some owner, some claimedUntil => some ⟨owner, claimedUntil⟩
  | _, _ => none

def todo (row : TodoRow) : Todo where
  id := row.id
  title := row.title
  status := row.status
  deps := row.deps
  claim := row.claim
  author := row.author
  updatedAt := row.updatedAt

/-- The lease ran out, as a statement compares it: a row without one has none to run out. -/
def lapsed (row : TodoRow) (now : ℕ) : Bool := row.claimedUntil.any (· < now)

end TodoRow

/-- A todo is claimed only while it is worked: what the table's checks ask of a write. -/
def Todo.Checked (todo : Todo) : Prop := todo.claim = none ∨ todo.status = .inProgress

theorem Todo.checked_rewritten (todo : Todo) (me : Author) (change : TodoChange)
    (now : EpochSeconds) (takenOver : Bool) :
    (Todo.changed.rewritten todo me change now takenOver).Checked := by
  simp only [Todo.Checked, Todo.changed.rewritten, Todo.claimAfter]
  cases change.status.getD todo.status <;> simp

theorem Todo.changed_eq_updated {todo changed : Todo} {me : Author} {change : TodoChange}
    {now : EpochSeconds} (h : todo.changed me change now = .updated changed) :
    ∃ takenOver, changed = Todo.changed.rewritten todo me change now takenOver := by
  unfold Todo.changed at h
  split at h
  · split at h
    · exact ⟨true, (TodoUpdate.updated.inj h).symm⟩
    · cases h
  · exact ⟨false, (TodoUpdate.updated.inj h).symm⟩

theorem Todo.changed_checked {todo changed : Todo} {me : Author} {change : TodoChange}
    {now : EpochSeconds} (h : todo.changed me change now = .updated changed) :
    changed.Checked := by
  obtain ⟨takenOver, rfl⟩ := todo.changed_eq_updated h
  exact todo.checked_rewritten me change now takenOver

def claimColumns (todo : Todo) : Option Author × Option EpochSeconds :=
  match todo.claim with
  | none => (none, none)
  | some claim => (some claim.owner, some (EpochSeconds.param claim.claimedUntil))

theorem claimColumns_paired (todo : Todo) :
    (claimColumns todo).1.isNone = (claimColumns todo).2.isNone := by
  unfold claimColumns
  split <;> rfl

theorem claimColumns_worked {todo : Todo} (h : todo.Checked) :
    (claimColumns todo).1 = none ∨ todo.status = .inProgress := by
  refine h.imp_left fun hnone => ?_
  simp [claimColumns, hnone]

abbrev TodoStore := Table TodoRow.key

namespace TodoStore

def findTodo (s : TodoStore) (project : ℕ) (id : String) : Option Todo :=
  (s.find (project, id)).map TodoRow.todo

def putTodo (s : TodoStore) (project : ℕ) (todo : Todo) (checked : todo.Checked) : TodoStore :=
  s.put
    { project
      id := todo.id
      title := todo.title
      status := todo.status
      deps := todo.deps
      author := todo.author
      updatedAt := EpochSeconds.param todo.updatedAt
      owner := (claimColumns todo).1
      claimedUntil := (claimColumns todo).2
      paired := claimColumns_paired todo
      worked := claimColumns_worked checked }

def rewritten (row : TodoRow) (todo : Todo) (checked : todo.Checked) : TodoRow :=
  { row with
    title := todo.title
    status := todo.status
    author := todo.author
    updatedAt := EpochSeconds.param todo.updatedAt
    owner := (claimColumns todo).1
    claimedUntil := (claimColumns todo).2
    paired := claimColumns_paired todo
    worked := claimColumns_worked checked }

def rewriteTodo (s : TodoStore) (project : ℕ) (todo : Todo) (checked : todo.Checked) :
    TodoStore :=
  match s.find (project, todo.id) with
  | none => s
  | some row => s.put (rewritten row todo checked)

/-- The row `me` claims it with. -/
def claimedBy (row : TodoRow) (me : Author) (claimedUntil now : EpochSeconds) : TodoRow :=
  { row with
    status := .inProgress
    owner := some me
    claimedUntil := some (EpochSeconds.param claimedUntil)
    updatedAt := EpochSeconds.param now
    author := me
    paired := rfl
    worked := .inr rfl }

def claimsById (row : TodoRow) (me : Author) (now : EpochSeconds) : Bool :=
  row.status = .pending ||
    row.status = .inProgress && (row.owner = some me || row.lapsed (EpochSeconds.param now))

def claimById (s : TodoStore) (project : ℕ) (me : Author) (id : String)
    (claimedUntil now : EpochSeconds) : Claim × TodoStore :=
  match (s.find (project, id)).filter (claimsById · me now) with
  | some row =>
    let claimed := claimedBy row me claimedUntil now
    (.claimed claimed.todo, s.put claimed)
  | none =>
    match s.findTodo project id with
    | none => (.missing, s)
    | some todo =>
      match todo.claimState now with
      | .held owner expiresIn => (.heldBy owner expiresIn, s)
      | .unclaimed | .stale _ => (.unavailable todo, s)

/-- The condition of the query for the next claimable todo. -/
def claimableNext (s : TodoStore) (row : TodoRow) (now : EpochSeconds) : Bool :=
  (row.status = .pending || row.status = .inProgress && row.lapsed (EpochSeconds.param now)) &&
    !row.deps.any fun dep =>
      s.rows.any fun other =>
        other.project = row.project && other.id = dep && !(other.status = .done)

def nextClaimable (s : TodoStore) (project : ℕ) (now : EpochSeconds) : Option String :=
  ((s.rows.filter fun row => row.project = project && s.claimableNext row now).head?).map
    TodoRow.id

def addTodo (s : TodoStore) (project : ℕ) (author : Author) (title : String) (deps : List String)
    (id : String) (now : EpochSeconds) : Todo × TodoStore :=
  let todo : Todo :=
    { id, title, status := .pending, deps, claim := none, author, updatedAt := now }
  (todo, s.putTodo project todo (.inl rfl))

def updateTodo (s : TodoStore) (project : ℕ) (me : Author) (id : String) (change : TodoChange)
    (now : EpochSeconds) : TodoUpdate × TodoStore :=
  match s.findTodo project id with
  | none => (.missing, s)
  | some todo =>
    match h : todo.changed me change now with
    | .updated changed =>
      (.updated changed, s.rewriteTodo project changed (Todo.changed_checked h))
    | .heldBy owner expiresIn => (.heldBy owner expiresIn, s)
    | .missing => (.missing, s)

def claimTodo (s : TodoStore) (project : ℕ) (me : Author) (id : Option String) (lease : TodoLease)
    (now : EpochSeconds) : Claim × TodoStore :=
  let claimedUntil := EpochSeconds.after now lease.secs
  match id with
  | some id => s.claimById project me id claimedUntil now
  | none =>
    match s.nextClaimable project now with
    | none => (.nothingClaimable, s)
    | some next => s.claimById project me next claimedUntil now

def deleteTodo (s : TodoStore) (project : ℕ) (id : String) : Bool × TodoStore :=
  ((s.find (project, id)).isSome,
    s.deleteWhere fun row => row.project = project && row.id = id)

end TodoStore

/-! ### Rows and the todos read from them -/

namespace TodoRow

variable {row : TodoRow}

/-- The todo is in progress exactly when it has an owner and a lease. -/
def Sound (row : TodoRow) : Prop :=
  row.status = .inProgress ↔ row.owner.isSome ∧ row.claimedUntil.isSome

theorem claim_cases (row : TodoRow) :
    (row.owner = none ∧ row.claimedUntil = none ∧ row.claim = none) ∨
      ∃ owner claimedUntil, row.owner = some owner ∧ row.claimedUntil = some claimedUntil ∧
        row.claim = some ⟨owner, claimedUntil⟩ ∧ row.status = .inProgress := by
  have hpaired := row.paired
  have hworked := row.worked
  unfold claim
  cases howner : row.owner <;> cases huntil : row.claimedUntil <;> simp_all

theorem sound_iff : row.Sound ↔ (row.status = .inProgress ↔ row.claim.isSome = true) := by
  rcases row.claim_cases with ⟨ho, hu, hc⟩ | ⟨owner, claimedUntil, ho, hu, hc, -⟩ <;>
    simp [Sound, ho, hu, hc]

end TodoRow

theorem Todo.rewritten_sound {todo : Todo}
    (hsound : todo.status = .inProgress ↔ todo.claim.isSome = true) (me : Author)
    (change : TodoChange) (now : EpochSeconds) (takenOver : Bool) :
    let changed := Todo.changed.rewritten todo me change now takenOver
    changed.status = .inProgress ↔ changed.claim.isSome = true := by
  refine ⟨fun hstatus => ?_, fun hclaim => ?_⟩
  · have hread : change.status.getD todo.status = .inProgress := hstatus
    simp only [Todo.changed.rewritten, Todo.claimAfter, hread]
    split
    · assumption
    split
    · rfl
    · next hnot =>
      -- the change names no status, so the todo was in progress already
      cases hchange : change.status with
      | none =>
        rw [hchange, Option.getD_none] at hread
        exact hsound.1 hread
      | some status =>
        rw [hchange, Option.getD_some] at hread
        simp [hchange, hread] at hnot
  · rcases todo.checked_rewritten me change now takenOver with hnone | hstatus
    · rw [hnone] at hclaim
      cases hclaim
    · exact hstatus

/-! ### The statements against the domain -/

namespace TodoStore

variable {s : TodoStore} {project : ℕ} {me : Author} {now : EpochSeconds} {row : TodoRow}

def Sound (s : TodoStore) : Prop := ∀ row ∈ s.rows, row.Sound

theorem findTodo_eq_some {id : String} {todo : Todo} :
    s.findTodo project id = some todo ↔ ∃ row, s.find (project, id) = some row ∧ row.todo = todo :=
  Option.map_eq_some_iff

end TodoStore

/-! ### Claims -/

namespace TodoStore

variable {s : TodoStore} {project : ℕ} {me : Author} {now : EpochSeconds} {row : TodoRow}

theorem claimById_eq_claimed {id : String} {claimedUntil : EpochSeconds}
    (hrow : s.find (project, id) = some row) (hclaims : claimsById row me now = true) :
    s.claimById project me id claimedUntil now =
      (.claimed (claimedBy row me claimedUntil now).todo,
        s.put (claimedBy row me claimedUntil now)) := by
  simp [claimById, hrow, Option.filter_some, hclaims]

/-- **What a claim by id does.**  It writes the row of the id as claimed, when the update's condition
holds, or leaves the table as it is and claims nothing. -/
theorem claimById_cases (s : TodoStore) (project : ℕ) (me : Author) (id : String)
    (claimedUntil now : EpochSeconds) :
    (∃ row, s.find (project, id) = some row ∧ claimsById row me now = true ∧
      s.claimById project me id claimedUntil now =
        (.claimed (claimedBy row me claimedUntil now).todo,
          s.put (claimedBy row me claimedUntil now))) ∨
    (∀ row, s.find (project, id) = some row → claimsById row me now = false) ∧
      (s.claimById project me id claimedUntil now).2 = s ∧
      ∀ todo, (s.claimById project me id claimedUntil now).1 ≠ .claimed todo := by
  cases hrow : s.find (project, id) with
  | none => exact .inr ⟨nofun, by simp [claimById, hrow, findTodo]⟩
  | some row =>
    cases hclaims : claimsById row me now with
    | true => exact .inl ⟨row, rfl, hclaims, claimById_eq_claimed hrow hclaims⟩
    | false =>
      refine .inr ⟨fun row' hrow' => Option.some.inj hrow' ▸ hclaims, ?_⟩
      simp only [claimById, hrow, Option.filter_some, hclaims, findTodo, Option.map_some]
      cases row.todo.claimState now <;> exact ⟨rfl, nofun⟩

end TodoStore

/-! ### Histories -/

/-- A request on the todos; an added one comes with the id generated for it. -/
inductive TodoRequest where
  | add (project : ℕ) (author : Author) (title : String) (deps : List String) (id : String)
  | update (project : ℕ) (me : Author) (id : String) (change : TodoChange)
  | claim (project : ℕ) (me : Author) (id : Option String) (lease : TodoLease)
  | delete (project : ℕ) (id : String)
  deriving DecidableEq, Repr

/-- A request and the moment its transaction reads. -/
structure TodoEvent where
  now : EpochSeconds
  request : TodoRequest
  deriving DecidableEq, Repr

def TodoStore.take (s : TodoStore) (e : TodoEvent) : TodoStore :=
  match e.request with
  | .add project author title deps id => (s.addTodo project author title deps id e.now).2
  | .update project me id change => (s.updateTodo project me id change e.now).2
  | .claim project me id lease => (s.claimTodo project me id lease e.now).2
  | .delete project id => (s.deleteTodo project id).2

/-- An added todo's generated id is no other's. -/
def TodoRequest.Fresh (s : TodoStore) : TodoRequest → Prop
  | .add project _ _ _ id => s.find (project, id) = none
  | .update _ _ _ _ | .claim _ _ _ _ | .delete _ _ => True

instance (s : TodoStore) : ∀ request : TodoRequest, Decidable (request.Fresh s)
  | .add project _ _ _ id => inferInstanceAs (Decidable (s.find (project, id) = none))
  | .update _ _ _ _ | .claim _ _ _ _ | .delete _ _ => inferInstanceAs (Decidable True)

/-- The table and the moment of the last transaction. -/
structure TodoState where
  store : TodoStore
  clock : EpochSeconds

/-- Transactions one after the other, under a clock that never goes back nor past what it can
tell. -/
def todoMachine : Machine TodoState TodoEvent where
  Enabled s e := s.clock ≤ e.now ∧ e.now ≤ EpochSeconds.latestStored ∧ e.request.Fresh s.store
  next s e := ⟨s.store.take e, e.now⟩

instance (s : TodoState) (e : TodoEvent) : Decidable (todoMachine.Enabled s e) :=
  inferInstanceAs (Decidable
    (s.clock ≤ e.now ∧ e.now ≤ EpochSeconds.latestStored ∧ e.request.Fresh s.store))

namespace TodoStore

variable {s : TodoStore} {project : ℕ} {me : Author} {now : EpochSeconds} {row : TodoRow}

theorem Sound.put (h : s.Sound) (hrow : row.Sound) : TodoStore.Sound (Table.put s row) :=
  fun other hother => by
    rcases Table.mem_put.1 hother with rfl | ⟨hold, -⟩
    · exact hrow
    · exact h other hold

theorem claimedBy_sound (row : TodoRow) (me : Author) (claimedUntil now : EpochSeconds) :
    (claimedBy row me claimedUntil now).Sound := by
  simp [TodoRow.Sound, claimedBy]

theorem claimColumns_isSome (todo : Todo) :
    (claimColumns todo).1.isSome ∧ (claimColumns todo).2.isSome ↔ todo.claim.isSome = true := by
  unfold claimColumns
  cases todo.claim <;> simp

theorem Sound.claimById (h : s.Sound) (project : ℕ) (me : Author) (id : String)
    (claimedUntil now : EpochSeconds) :
    (s.claimById project me id claimedUntil now).2.Sound := by
  rcases s.claimById_cases project me id claimedUntil now with ⟨row, -, -, heq⟩ | ⟨-, hsame, -⟩
  · rw [heq]
    exact h.put (claimedBy_sound row me claimedUntil now)
  · exact hsame.symm ▸ h

/-- **What a change does.**  It leaves the table as it is, or rewrites the row of the id with what the
domain makes of its todo. -/
theorem updateTodo_cases (s : TodoStore) (project : ℕ) (me : Author) (id : String)
    (change : TodoChange) (now : EpochSeconds) :
    (s.updateTodo project me id change now).2 = s ∨
      ∃ row changed, ∃ h : row.todo.changed me change now = .updated changed,
        s.find (project, id) = some row ∧ (s.updateTodo project me id change now).2 =
          s.put (rewritten row changed (Todo.changed_checked h)) := by
  unfold TodoStore.updateTodo
  cases hfind : s.findTodo project id with
  | none => exact .inl rfl
  | some todo =>
    obtain ⟨row, hrow, rfl⟩ := findTodo_eq_some.1 hfind
    dsimp only
    split
    · next changed hchanged =>
      refine .inr ⟨row, changed, hchanged, hrow, ?_⟩
      obtain ⟨takenOver, rfl⟩ := row.todo.changed_eq_updated hchanged
      have hid : row.id = id := congrArg Prod.snd (Table.find_eq_some.1 hrow).2
      have hsame : s.find (project, (Todo.changed.rewritten row.todo me change now takenOver).id) =
          some row := by
        change s.find (project, row.id) = some row
        rw [hid]
        exact hrow
      simp only [rewriteTodo, hsame]
    · exact .inl rfl
    · exact .inl rfl

theorem Sound.updateTodo (h : s.Sound) (project : ℕ) (me : Author) (id : String)
    (change : TodoChange) (now : EpochSeconds) :
    (s.updateTodo project me id change now).2.Sound := by
  rcases s.updateTodo_cases project me id change now with hsame | ⟨row, changed, hchanged, hrow, heq⟩
  · exact hsame.symm ▸ h
  · have htodo : row.todo.status = .inProgress ↔ row.todo.claim.isSome = true :=
      TodoRow.sound_iff.1 (h row (Table.find_eq_some.1 hrow).1)
    rw [heq]
    refine h.put ?_
    obtain ⟨takenOver, rfl⟩ := row.todo.changed_eq_updated hchanged
    have hsound := Todo.rewritten_sound htodo me change now takenOver
    exact hsound.trans (claimColumns_isSome _).symm

theorem Sound.take (h : s.Sound) (e : TodoEvent) : (s.take e).Sound := by
  unfold TodoStore.take
  cases e.request with
  | add project author title deps id => exact h.put (by simp [TodoRow.Sound, claimColumns])
  | update project me id change => exact h.updateTodo project me id change e.now
  | claim project me id lease =>
    simp only [claimTodo]
    split
    · exact h.claimById project me _ _ e.now
    · split
      · exact h
      · exact h.claimById project me _ _ e.now
  | delete project id => exact fun row hrow => h row (List.mem_of_mem_filter hrow)

end TodoStore

/-! ### Ownership -/

/-- The todo of `key` is owned by `owner`. -/
def TodoState.Owned (s : TodoState) (key : ℕ × String) (owner : Author) : Prop :=
  ∃ row, s.store.find key = some row ∧ row.owner = some owner

/-- A transaction at which the lease on the todo of `key` is live, and which is not another author's
forced change of it, its owner's change of its status, or its deletion. -/
def Respects (key : ℕ × String) (owner : Author) (s : TodoState) (e : TodoEvent) : Prop :=
  (∀ row, s.store.find key = some row → row.lapsed e.now = false) ∧
    match e.request with
    | .add _ _ _ _ _ | .claim _ _ _ _ => True
    | .update project me id change => (project, id) = key →
      if me = owner then change.status = none ∨ change.status = some .inProgress
      else change.force = false
    | .delete project id => (project, id) ≠ key

section

variable {s : TodoState} {key : ℕ × String} {owner : Author} {now : EpochSeconds}
  {change : TodoChange}

theorem TodoState.Owned.put (h : s.Owned key owner) {row : TodoRow}
    (hrow : row.key = key → row.owner = some owner) :
    TodoState.Owned ⟨Table.put s.store row, now⟩ key owner := by
  obtain ⟨old, hold, howner⟩ := h
  by_cases hkey : row.key = key
  · exact ⟨row, hkey ▸ Table.find_put_self, hrow hkey⟩
  · exact ⟨old, (Table.find_put_of_ne (Ne.symm hkey)).trans hold, howner⟩

theorem TodoState.Owned.claimById (h : s.Owned key owner)
    (hnow : now ≤ EpochSeconds.latestStored)
    (hlive : ∀ row, s.store.find key = some row → row.lapsed now = false) (project : ℕ)
    (me : Author) (id : String) (claimedUntil : EpochSeconds) :
    TodoState.Owned ⟨(s.store.claimById project me id claimedUntil now).2, now⟩ key owner := by
  rcases s.store.claimById_cases project me id claimedUntil now with
    ⟨row, hrow, hclaims, heq⟩ | ⟨-, hsame, -⟩
  · rw [heq]
    refine h.put fun hkey => ?_
    obtain ⟨old, hold, howner⟩ := h
    have hfound : s.store.find key = some row := by
      rw [← hkey]
      exact Table.find_eq_some.2 ⟨(Table.find_eq_some.1 hrow).1, rfl⟩
    obtain rfl : row = old := Option.some.inj (hfound.symm.trans hold)
    have hstatus : row.status = .inProgress := row.worked.resolve_left (by simp [howner])
    -- the row is worked under a live lease, so only its owner meets the condition
    have hme : owner = me := by
      simpa [TodoStore.claimsById, hstatus, EpochSeconds.param_of_le hnow, hlive row hfound,
        howner] using hclaims
    exact congrArg some hme.symm
  · exact hsame.symm ▸ h

theorem Todo.changed_of_other {todo : Todo} {claim : TodoClaim} {me : Author}
    (hclaim : todo.claim = some claim) (hlive : now ≤ claim.claimedUntil) (hme : claim.owner ≠ me)
    (hforce : change.force = false) :
    todo.changed me change now = .heldBy claim.owner (claim.expiresIn now) := by
  have htaken : todo.takenOver me now = some (claim.owner, claim.expiresIn now) := by
    simp [Todo.takenOver, Todo.claimState, hclaim, TodoClaim.isLive, hlive, hme]
  simp [Todo.changed, htaken, hforce]

theorem Todo.changed_of_owner {todo : Todo} {claim : TodoClaim}
    (hclaim : todo.claim = some claim) (hlive : now ≤ claim.claimedUntil)
    (hstatus : todo.status = .inProgress)
    (hchange : change.status = none ∨ change.status = some .inProgress) :
    ∃ changed, todo.changed claim.owner change now = .updated changed ∧ changed.id = todo.id ∧
      changed.claim = some claim := by
  have htaken : todo.takenOver claim.owner now = none := by
    simp [Todo.takenOver, Todo.claimState, hclaim, TodoClaim.isLive, hlive]
  have hread : change.status.getD todo.status = .inProgress := by
    rcases hchange with h | h <;> simp [h, hstatus]
  refine ⟨Todo.changed.rewritten todo claim.owner change now false, by simp [Todo.changed, htaken],
    rfl, ?_⟩
  simp [Todo.changed.rewritten, Todo.claimAfter, hread, hclaim, TodoClaim.isLive, hlive]

theorem TodoState.Owned.updateTodo (h : s.Owned key owner)
    (hlive : ∀ row, s.store.find key = some row → row.lapsed now = false) {project : ℕ}
    {me : Author} {id : String} (hrespects : (project, id) = key →
      if me = owner then change.status = none ∨ change.status = some .inProgress
      else change.force = false) :
    TodoState.Owned ⟨(s.store.updateTodo project me id change now).2, now⟩ key owner := by
  rcases s.store.updateTodo_cases project me id change now with
    hsame | ⟨row, changed, hchanged, hrow, heq⟩
  · exact hsame.symm ▸ h
  rw [heq]
  refine h.put fun hkey => ?_
  obtain ⟨hmem, hid⟩ := Table.find_eq_some.1 hrow
  have hthis : (project, id) = key := hid.symm.trans hkey
  subst hthis
  obtain ⟨old, hold, howner⟩ := h
  obtain rfl : row = old := Option.some.inj (hrow.symm.trans hold)
  have hrespects := hrespects rfl
  rcases row.claim_cases with ⟨hnone, -, -⟩ | ⟨owner', claimedUntil, ho, hu, hc, hstatus⟩
  · rw [howner] at hnone
    cases hnone
  obtain rfl : owner' = owner := Option.some.inj (ho.symm.trans howner)
  have hclaim : row.todo.claim = some ⟨owner', claimedUntil⟩ := hc
  have hleft : now ≤ claimedUntil := by
    simpa [TodoRow.lapsed, hu] using hlive row hrow
  by_cases hme : me = owner'
  · subst hme
    rw [if_pos rfl] at hrespects
    obtain ⟨changed', hupdated, -, hkept⟩ :=
      Todo.changed_of_owner hclaim hleft hstatus hrespects
    obtain rfl : changed = changed' := TodoUpdate.updated.inj (hchanged.symm.trans hupdated)
    simp [TodoStore.rewritten, claimColumns, hkept]
  · rw [if_neg hme] at hrespects
    cases hchanged.symm.trans (Todo.changed_of_other hclaim hleft (Ne.symm hme) hrespects)

theorem TodoState.Owned.take (h : s.Owned key owner) {e : TodoEvent}
    (he : todoMachine.Enabled s e) (hrespects : Respects key owner s e) :
    (todoMachine.next s e).Owned key owner := by
  obtain ⟨-, hnow, hfresh⟩ := he
  obtain ⟨hlive, hrespects⟩ := hrespects
  change TodoState.Owned ⟨s.store.take e, e.now⟩ key owner
  unfold TodoStore.take
  cases hreq : e.request with
  | add project author title deps id =>
    rw [hreq] at hfresh
    refine h.put fun hkey => ?_
    obtain ⟨old, hold, -⟩ := h
    have hnone : s.store.find (project, id) = none := hfresh
    rw [show (project, id) = key from hkey, hold] at hnone
    cases hnone
  | update project me id change =>
    rw [hreq] at hrespects
    exact h.updateTodo hlive hrespects
  | claim project me id lease =>
    simp only [TodoStore.claimTodo]
    split
    · exact h.claimById hnow hlive project me _ _
    · split
      · exact h
      · exact h.claimById hnow hlive project me _ _
  | delete project id =>
    rw [hreq] at hrespects
    obtain ⟨row, hrow, howner⟩ := h
    refine ⟨row, ?_, howner⟩
    have hkey : row.key = key := (Table.find_eq_some.1 hrow).2
    have hkept : (row.project = project && row.id = id) = false := by
      by_contra hthis
      simp only [Bool.not_eq_false, Bool.and_eq_true, decide_eq_true_eq] at hthis
      exact hrespects (by rw [← hkey, TodoRow.key, hthis.1, hthis.2])
    refine (Table.find_deleteWhere _).trans ?_
    rw [hrow, Option.filter_some, hkept]
    rfl

end

end Muster.Store
