import Muster.Config.StackRows

/-!
# Import — definitions brought into a project's stack

An import is planned against the stack as it is stored and then carried out row by row: what the plan
removes is deleted, what it updates is rewritten in its place, what it adds is inserted after the others.
Rows are told apart by the project and the key of the name.  A refused import leaves the tables as they
were, since all of it is one transaction.
-/

namespace Muster.Config

open Terminal (Unicode)

variable {u : Unicode}

/-- How an imported stack meets the processes a project already has. -/
inductive ImportMode where
  | strict | merge | replace
deriving DecidableEq, Repr

structure ImportPlan (u : Unicode) where
  added : List (ProcessName u)
  updated : List (ProcessName u)
  removed : List (ProcessName u)
deriving DecidableEq

def processesMax : ℕ := 100

section

variable (nfc : Text → Text)

def named (processes : List (ProcessSpec u)) (name : ProcessName u) : Option (ProcessSpec u) :=
  processes.find? fun spec => spec.key nfc = name.key nfc

/-- The first definition whose key is among `seen` or an earlier one's. -/
def repeated : List Text → List (ProcessSpec u) → Option (ProcessSpec u)
  | _, [] => none
  | seen, spec :: specs =>
    if seen.contains (spec.key nfc) then some spec else repeated (spec.key nfc :: seen) specs

def checkUnique (processes : List (ProcessSpec u)) : Except (ConfigError u) Unit :=
  match repeated nfc [] processes with
  | some duplicate => .error (.duplicateProcessName duplicate.name)
  | none => .ok ()

def checkCount (count : ℕ) : Except (ConfigError u) Unit :=
  if processesMax < count then .error (.tooManyProcesses count) else .ok ()

def checkConflict (mode : ImportMode) (existing : List (ProcessSpec u)) : Except (ConfigError u) Unit :=
  if mode = .strict ∧ existing ≠ [] then .error (.importConflict (existing.map (·.name))) else .ok ()

def removedNames (processes incoming : List (ProcessSpec u)) : List (ProcessName u) :=
  (processes.filter fun spec => !(incoming.map (·.key nfc)).contains (spec.key nfc)).map (·.name)

def planImport (processes incoming : List (ProcessSpec u)) (mode : ImportMode) :
    Except (ConfigError u) (ImportPlan u) := do
  checkUnique nfc incoming
  let existing := incoming.filter fun spec => (named nfc processes spec.name).isSome
  let added := incoming.filter fun spec => !(named nfc processes spec.name).isSome
  checkConflict mode existing
  let updated := existing.filter fun spec => named nfc processes spec.name ≠ some spec
  let removed := match mode with
    | .replace => removedNames nfc processes incoming
    | .strict | .merge => []
  checkCount (processes.length + added.length - removed.length)
  (added ++ updated).forM ProcessSpec.checkCaps
  return ⟨added.map (·.name), updated.map (·.name), removed⟩

abbrev ProcessRows := NumberedRows (ℕ × Text) Columns

def rowsOf (rows : ProcessRows) (project : ℕ) : List (Text × Columns) :=
  (rows.table.rows.filter fun row => row.key.1 = project).map fun row => (row.key.2, row.entry)

def stackOf (rows : ProcessRows) (project : ℕ) : Except (ConfigError u) (List (ProcessSpec u)) :=
  (rowsOf rows project).mapM fun row => processFromRow row.2

def insertProcess (project : ℕ) (rows : ProcessRows) (spec : ProcessSpec u) :
    Except (ConfigError u) ProcessRows := do
  let columns ← processParams spec
  match rows.table.find (project, spec.key nfc) with
  | some _ => .error (.duplicateProcessName spec.name)
  | none => .ok (rows.put (project, spec.key nfc) columns)

def updateProcess (project : ℕ) (rows : ProcessRows) (spec : ProcessSpec u) :
    Except (ConfigError u) ProcessRows := do
  let columns ← processParams spec
  match rows.table.find (project, spec.key nfc) with
  | some _ => .ok (rows.put (project, spec.key nfc) columns)
  | none => .error (.storage "database error: Query returned no rows")

def deleteProcess (project : ℕ) (rows : ProcessRows) (name : ProcessName u) : ProcessRows :=
  rows.delete (project, name.key nfc)

/-- Does `act` to the definition of a name, when there is one. -/
def onNamed (incoming : List (ProcessSpec u))
    (act : ProcessRows → ProcessSpec u → Except (ConfigError u) ProcessRows)
    (rows : ProcessRows) (name : ProcessName u) : Except (ConfigError u) ProcessRows :=
  match named nfc incoming name with
  | some spec => act rows spec
  | none => .ok rows

def importInto (rows : ProcessRows) (project : ℕ) (incoming : List (ProcessSpec u)) (mode : ImportMode) :
    Except (ConfigError u) (ProcessRows × ImportPlan u) := do
  let processes ← stackOf rows project
  let plan ← planImport nfc processes incoming mode
  let kept := plan.removed.foldl (deleteProcess nfc project) rows
  let rewritten ← plan.updated.foldlM (onNamed nfc incoming (updateProcess nfc project)) kept
  let grown ← plan.added.foldlM (onNamed nfc incoming (insertProcess nfc project)) rewritten
  return (grown, plan)

/-- The import as a transaction: the tables after it, and its outcome. -/
def importStack (rows : ProcessRows) (project : ℕ) (incoming : List (ProcessSpec u)) (mode : ImportMode) :
    ProcessRows × Except (ConfigError u) (ImportPlan u) :=
  match importInto nfc rows project incoming mode with
  | .ok (grown, plan) => (grown, .ok plan)
  | .error e => (rows, .error e)

/-- What a plan says becomes of a stack. -/
def ImportPlan.applied (plan : ImportPlan u) (processes incoming : List (ProcessSpec u)) :
    List (ProcessSpec u) :=
  ((processes.filter fun spec => !(plan.removed.map (·.key nfc)).contains (spec.key nfc)).map fun spec =>
    if (plan.updated.map (·.key nfc)).contains (spec.key nfc) then (named nfc incoming spec.name).getD spec
    else spec) ++
    incoming.filter fun spec => (plan.added.map (·.key nfc)).contains (spec.key nfc)

end

/-! ### The plan -/

variable {nfc : Text → Text} {processes incoming : List (ProcessSpec u)} {mode : ImportMode}
  {plan : ImportPlan u}

theorem repeated_eq_none {seen : List Text} {specs : List (ProcessSpec u)} :
    repeated nfc seen specs = none ↔
      (specs.map (·.key nfc)).Nodup ∧ ∀ spec ∈ specs, spec.key nfc ∉ seen := by
  induction specs generalizing seen with
  | nil => simp [repeated]
  | cons spec specs ih =>
    rw [repeated]
    split
    · next hseen =>
      rw [List.contains_iff_mem] at hseen
      simp [hseen]
    · next hseen =>
      rw [List.contains_iff_mem] at hseen
      rw [ih, List.map_cons, List.nodup_cons]
      constructor
      · rintro ⟨hnodup, hfresh⟩
        refine ⟨⟨fun hmem => ?_, hnodup⟩, fun other hother => ?_⟩
        · obtain ⟨other, hother, hkey⟩ := List.mem_map.1 hmem
          exact hfresh other hother (hkey ▸ List.mem_cons_self)
        · rcases List.mem_cons.1 hother with rfl | hother
          · exact hseen
          · exact fun hmem => hfresh other hother (List.mem_cons_of_mem _ hmem)
      · rintro ⟨⟨hkey, hnodup⟩, hfresh⟩
        refine ⟨hnodup, fun other hother hmem => ?_⟩
        rcases List.mem_cons.1 hmem with heq | hmem
        · exact hkey (heq ▸ List.mem_map_of_mem hother)
        · exact hfresh other (List.mem_cons_of_mem _ hother) hmem

theorem checkUnique_eq_ok : checkUnique nfc incoming = .ok () ↔ (incoming.map (·.key nfc)).Nodup := by
  rw [checkUnique]
  have hnone : repeated nfc [] incoming = none ↔
      (incoming.map (·.key nfc)).Nodup ∧ ∀ spec ∈ incoming, spec.key nfc ∉ [] := repeated_eq_none
  simp only [List.not_mem_nil, not_false_eq_true, implies_true, and_true] at hnone
  rw [← hnone]
  cases repeated nfc [] incoming with
  | none => simp
  | some duplicate => simp

theorem checkCaps_eq_ok {spec : ProcessSpec u} : spec.checkCaps = .ok () ↔ spec.overCap = none := by
  rw [ProcessSpec.checkCaps]
  cases spec.overCap <;> simp

theorem checkCount_eq_ok {count : ℕ} : checkCount (u := u) count = .ok () ↔ count ≤ processesMax := by
  rw [checkCount]
  split
  · next h => simp [Nat.not_le.2 h]
  · next h => simp [Nat.not_lt.1 h]

theorem checkConflict_eq_ok {existing : List (ProcessSpec u)} :
    checkConflict mode existing = .ok () ↔ (mode = .strict → existing = []) := by
  rw [checkConflict]
  split
  · next h => simp [h.1, h.2]
  · next h =>
    simp only [true_iff]
    exact fun hstrict => Classical.not_not.1 fun hne => h ⟨hstrict, hne⟩

theorem forM_eq_ok {ε α : Type} {f : α → Except ε Unit} {as : List α} :
    as.forM f = .ok () ↔ ∀ a ∈ as, f a = .ok () := by
  induction as with
  | nil => simp [List.forM_nil]; rfl
  | cons a as ih =>
    rw [List.forall_mem_cons, ← ih]
    show (f a >>= fun _ => as.forM f) = .ok () ↔ _
    cases f a with
    | error e => simp [bind, Except.bind]
    | ok value => simp [bind, Except.bind]

structure Planned (nfc : Text → Text) (processes incoming : List (ProcessSpec u)) (mode : ImportMode)
    (plan : ImportPlan u) : Prop where
  unique : (incoming.map (·.key nfc)).Nodup
  strict : mode = .strict → ∀ spec ∈ incoming, named nfc processes spec.name = none
  added : plan.added = (incoming.filter fun spec => !(named nfc processes spec.name).isSome).map (·.name)
  updated : plan.updated = ((incoming.filter fun spec => (named nfc processes spec.name).isSome).filter
    fun spec => named nfc processes spec.name ≠ some spec).map (·.name)
  removed : plan.removed = if mode = .replace then removedNames nfc processes incoming else []
  count : processes.length + plan.added.length - plan.removed.length ≤ processesMax
  caps : ∀ spec ∈ incoming, named nfc processes spec.name ≠ some spec → spec.overCap = none

/-- **What a plan is.** -/
theorem planImport_eq_ok :
    planImport nfc processes incoming mode = .ok plan ↔ Planned nfc processes incoming mode plan := by
  have hremoved : (match mode with
      | .replace => removedNames nfc processes incoming
      | .strict | .merge => []) = if mode = .replace then removedNames nfc processes incoming else [] := by
    cases mode <;> rfl
  have hcaps : (∀ spec ∈ (incoming.filter fun spec => !(named nfc processes spec.name).isSome) ++
      ((incoming.filter fun spec => (named nfc processes spec.name).isSome).filter
        fun spec => named nfc processes spec.name ≠ some spec), spec.checkCaps = .ok ()) ↔
      ∀ spec ∈ incoming, named nfc processes spec.name ≠ some spec → spec.overCap = none := by
    simp only [checkCaps_eq_ok, List.mem_append, List.mem_filter, decide_eq_true_eq]
    constructor
    · intro h spec hspec hne
      cases hnamed : (named nfc processes spec.name).isSome with
      | true => exact h spec (.inr ⟨⟨hspec, hnamed⟩, hne⟩)
      | false => exact h spec (.inl ⟨hspec, by rw [hnamed]; rfl⟩)
    · rintro h spec (⟨hspec, hnone⟩ | ⟨⟨hspec, -⟩, hne⟩)
      · refine h spec hspec fun hsome => ?_
        rw [hsome] at hnone
        exact absurd hnone (by simp)
      · exact h spec hspec hne
  constructor
  · intro h
    obtain ⟨_, hunique, h⟩ := exists_of_bind_ok h
    obtain ⟨_, hconflict, h⟩ := exists_of_bind_ok h
    obtain ⟨_, hcount, h⟩ := exists_of_bind_ok h
    obtain ⟨_, hchecked, h⟩ := exists_of_bind_ok h
    cases h
    refine ⟨checkUnique_eq_ok.1 hunique, fun hstrict spec hspec => ?_, rfl, rfl, hremoved, ?_,
      hcaps.1 (forM_eq_ok.1 hchecked)⟩
    · have hnil := checkConflict_eq_ok.1 hconflict hstrict
      have hnone := List.filter_eq_nil_iff.1 hnil spec hspec
      exact Option.not_isSome_iff_eq_none.1 hnone
    · rw [List.length_map]
      exact checkCount_eq_ok.1 hcount
  · rintro ⟨hunique, hstrict, hadded, hupdated, hremoved', hcount, hover⟩
    have hconflict : checkConflict mode (incoming.filter fun spec => (named nfc processes spec.name).isSome) =
        .ok () := by
      refine checkConflict_eq_ok.2 fun hmode => List.filter_eq_nil_iff.2 fun spec hspec => ?_
      rw [hstrict hmode spec hspec]
      exact Bool.false_ne_true
    rw [hadded, List.length_map, hremoved', ← hremoved] at hcount
    unfold planImport
    rw [checkUnique_eq_ok.2 hunique]
    show (checkConflict mode _ >>= fun _ => _) = _
    rw [hconflict]
    show (checkCount _ >>= fun _ => _) = _
    rw [checkCount_eq_ok.2 hcount]
    show (List.forM (m := Except (ConfigError u)) _ _ >>= fun _ => _) = _
    rw [forM_eq_ok.2 (hcaps.2 hover), hremoved]
    cases plan
    dsimp only at hadded hupdated hremoved'
    rw [hadded, hupdated, hremoved']
    rfl

/-! ### The rows of a project -/

section Rows

variable {rows : ProcessRows} {project : ℕ} {key : Text} {spec : ProcessSpec u}
  {rewritten grown : ProcessRows} {name : ProcessName u}

theorem rowsOf_delete :
    rowsOf (rows.delete (project, key)) project = (rowsOf rows project).filter fun row => row.1 ≠ key := by
  show ((rows.table.rows.filter fun row => !decide (row.key = (project, key))).filter
    fun row => row.key.1 = project).map _ = _
  rw [rowsOf, List.filter_map, List.filter_filter, List.filter_filter]
  refine congrArg (List.map _) (List.filter_congr fun row _ => ?_)
  by_cases hproject : row.key.1 = project
  · have hkey : row.key = (project, key) ↔ row.key.2 = key := by
      rw [Prod.ext_iff]
      simp [hproject]
    simp [hproject, hkey]
  · simp [hproject]

theorem rowsOf_put_of_some {old : Numbered (ℕ × Text) Columns}
    (h : rows.table.find (project, key) = some old) (columns : Columns) :
    rowsOf (rows.put (project, key) columns) project =
      (rowsOf rows project).map fun row => if row.1 = key then (key, columns) else row := by
  have hold : old.key = (project, key) := (Table.find_eq_some.1 h).2
  have hfind : rows.table.find ({ old with entry := columns } : Numbered (ℕ × Text) Columns).key =
    some old := by
    rw [← h, ← hold]
  rw [rowsOf, rowsOf, NumberedRows.put_of_some h, Table.put_rows_of_some hfind, Table.replaced,
    List.filter_map, List.map_map, List.map_map]
  have hfilter : rows.table.rows.filter ((fun row => decide (row.key.1 = project)) ∘ fun row =>
      if row.key = old.key then ({ old with entry := columns } : Numbered (ℕ × Text) Columns) else row) =
      rows.table.rows.filter fun row => row.key.1 = project := by
    refine List.filter_congr fun row _ => ?_
    by_cases hkey : row.key = old.key <;> simp [hkey]
  rw [hfilter]
  refine List.map_congr_left fun row hrow => ?_
  have hproject : row.key.1 = project := of_decide_eq_true (List.mem_filter.1 hrow).2
  have hkey : row.key = old.key ↔ row.key.2 = key := by
    rw [hold, Prod.ext_iff]
    simp [hproject]
  by_cases hsame : row.key.2 = key
  · have hrow' : row.key = (project, key) := hold ▸ hkey.2 hsame
    simp only [Function.comp, hold, if_pos hrow', if_pos hsame]
  · simp only [Function.comp, if_neg (mt hkey.1 hsame), if_neg hsame]

theorem nodup_rowsOf (rows : ProcessRows) (project : ℕ) : ((rowsOf rows project).map (·.1)).Nodup := by
  have hkeys : ((rows.table.rows.filter fun row => row.key.1 = project).map (·.key)).Nodup :=
    rows.table.keyed.sublist (List.filter_sublist.map _)
  have heq : (rows.table.rows.filter fun row => row.key.1 = project).map (·.key) =
      ((rowsOf rows project).map (·.1)).map fun key => (project, key) := by
    rw [rowsOf, List.map_map, List.map_map]
    refine List.map_congr_left fun row hrow => ?_
    have hproject : row.key.1 = project := of_decide_eq_true (List.mem_filter.1 hrow).2
    simp only [Function.comp, ← hproject]
  rw [heq] at hkeys
  exact hkeys.of_map

theorem rowsOf_put_of_none (h : rows.table.find (project, key) = none) (columns : Columns) :
    rowsOf (rows.put (project, key) columns) project = rowsOf rows project ++ [(key, columns)] := by
  rw [rowsOf, rowsOf, NumberedRows.put_of_none h, Table.put_rows_of_none h]
  simp

/-- The rows of a project hold a stack: each reads as its definition and has the key of its name. -/
def Stored (nfc : Text → Text) (rows : ProcessRows) (project : ℕ) (processes : List (ProcessSpec u)) : Prop :=
  (rowsOf rows project).map (fun row => (row.1, processFromRow row.2)) =
    processes.map fun spec => (spec.key nfc, .ok spec)

theorem Stored.map_key (h : Stored nfc rows project processes) :
    (rowsOf rows project).map (·.1) = processes.map (·.key nfc) := by
  have hfst := congrArg (List.map Prod.fst) h
  rwa [List.map_map, List.map_map] at hfst

theorem mapM_of_map_eq {ε α β : Type} {f : α → Except ε β} {as : List α} {bs : List β}
    (h : as.map f = bs.map .ok) : as.mapM f = .ok bs := by
  induction as generalizing bs with
  | nil =>
    rw [List.map_nil, eq_comm, List.map_eq_nil_iff] at h
    rw [h]
    rfl
  | cons a as ih =>
    cases bs with
    | nil => cases h
    | cons b bs =>
      rw [List.map_cons, List.map_cons, List.cons.injEq] at h
      rw [List.mapM_cons, h.1, ih h.2]
      rfl

theorem Stored.stackOf_eq (h : Stored nfc rows project processes) : stackOf rows project = .ok processes := by
  have hsnd := congrArg (List.map Prod.snd) h
  rw [List.map_map, List.map_map] at hsnd
  exact mapM_of_map_eq hsnd

theorem Stored.unique (h : Stored nfc rows project processes) : (processes.map (·.key nfc)).Nodup := by
  rw [← h.map_key]
  exact nodup_rowsOf rows project

theorem Stored.delete (h : Stored nfc rows project processes) (name : ProcessName u) :
    Stored nfc (deleteProcess nfc project rows name) project
      (processes.filter fun spec => spec.key nfc ≠ name.key nfc) := by
  have hfilter := congrArg (List.filter fun entry => decide (entry.1 ≠ name.key nfc)) h
  rw [List.filter_map, List.filter_map] at hfilter
  rw [Stored, deleteProcess, rowsOf_delete]
  exact hfilter

theorem Stored.update (h : Stored nfc rows project processes)
    (hupdate : updateProcess nfc project rows spec = .ok rewritten) : Stored nfc rewritten project
      (processes.map fun old => if old.key nfc = spec.key nfc then spec else old) := by
  obtain ⟨columns, hcolumns, hupdate⟩ := exists_of_bind_ok hupdate
  cases hfind : rows.table.find (project, spec.key nfc) with
  | none =>
    rw [hfind] at hupdate
    cases hupdate
  | some old =>
    rw [hfind] at hupdate
    cases hupdate
    have hread := processFromRow_processParams hcolumns
    have hmap := congrArg (List.map fun entry =>
      if entry.1 = spec.key nfc then (spec.key nfc, .ok spec) else entry) h
    rw [List.map_map, List.map_map] at hmap
    rw [Stored, rowsOf_put_of_some hfind, List.map_map, List.map_map]
    refine Eq.trans (List.map_congr_left fun row _ => ?_) (hmap.trans (List.map_congr_left fun old _ => ?_))
    · by_cases hkey : row.1 = spec.key nfc <;> simp [hkey, hread]
    · by_cases hkey : old.key nfc = spec.key nfc <;> simp [hkey]

theorem Stored.insert (h : Stored nfc rows project processes)
    (hinsert : insertProcess nfc project rows spec = .ok grown) :
    Stored nfc grown project (processes ++ [spec]) := by
  obtain ⟨columns, hcolumns, hinsert⟩ := exists_of_bind_ok hinsert
  cases hfind : rows.table.find (project, spec.key nfc) with
  | some old =>
    rw [hfind] at hinsert
    cases hinsert
  | none =>
    rw [hfind] at hinsert
    cases hinsert
    rw [Stored, rowsOf_put_of_none hfind, List.map_append, List.map_append, h, List.map_singleton,
      List.map_singleton, processFromRow_processParams hcolumns]

theorem named_congr {name' : ProcessName u} (h : name.key nfc = name'.key nfc) :
    named nfc processes name = named nfc processes name' := by
  rw [named, named, h]

theorem named_eq_some (h : named nfc processes name = some spec) :
    spec ∈ processes ∧ spec.key nfc = name.key nfc :=
  ⟨List.mem_of_find?_eq_some h, by simpa using List.find?_some h⟩

theorem named_of_mem (h : (processes.map (·.key nfc)).Nodup) (hspec : spec ∈ processes) :
    named nfc processes spec.name = some spec := by
  cases hfound : named nfc processes spec.name with
  | none =>
    have hnone := List.find?_eq_none.1 hfound spec hspec
    simp [ProcessSpec.key] at hnone
  | some other =>
    obtain ⟨hother, hkey⟩ := named_eq_some hfound
    exact congrArg some (List.inj_on_of_nodup_map h hother hspec hkey)

theorem named_isSome :
    (named nfc processes name).isSome ↔ name.key nfc ∈ processes.map (·.key nfc) := by
  rw [named, List.find?_isSome, List.mem_map]
  simp

theorem Stored.deleteAll (h : Stored nfc rows project processes) (names : List (ProcessName u)) :
    Stored nfc (names.foldl (deleteProcess nfc project) rows) project
      (processes.filter fun spec => !(names.map (·.key nfc)).contains (spec.key nfc)) := by
  induction names generalizing rows processes with
  | nil => simpa using h
  | cons name names ih =>
    have hrest := ih (h.delete name)
    rw [List.filter_filter] at hrest
    rw [List.foldl_cons]
    convert hrest using 2
    funext spec
    simp [Bool.and_comm]

theorem Stored.updateAll {updates : List (ProcessSpec u)} (h : Stored nfc rows project processes)
    (hnamed : ∀ spec ∈ updates, named nfc incoming spec.name = some spec)
    (hunique : (updates.map (·.key nfc)).Nodup)
    (hfold : (updates.map (·.name)).foldlM (onNamed nfc incoming (updateProcess nfc project)) rows =
      .ok rewritten) : Stored nfc rewritten project (processes.map fun old =>
      if (updates.map (·.key nfc)).contains (old.key nfc) then (named nfc incoming old.name).getD old
      else old) := by
  induction updates generalizing rows processes with
  | nil =>
    cases hfold
    simpa using h
  | cons spec updates ih =>
    rw [List.map_cons, List.foldlM_cons, onNamed, hnamed spec List.mem_cons_self] at hfold
    obtain ⟨first, hfirst, hfold⟩ := exists_of_bind_ok hfold
    rw [List.map_cons, List.nodup_cons] at hunique
    have hrest := ih (h.update hfirst) (fun other hother => hnamed other (List.mem_cons_of_mem _ hother))
      hunique.2 hfold
    rw [List.map_map] at hrest
    convert hrest using 1
    refine List.map_congr_left fun old _ => ?_
    rw [Function.comp, List.map_cons, List.contains_cons]
    by_cases hkey : old.key nfc = spec.key nfc
    · -- The definition just written is not written over again.
      have hnot : (updates.map (·.key nfc)).contains (spec.key nfc) = false :=
        Bool.eq_false_iff.2 (mt List.contains_iff_mem.1 hunique.1)
      have hfound : named nfc incoming old.name = some spec :=
        (named_congr hkey).trans (hnamed spec List.mem_cons_self)
      rw [if_pos hkey, if_neg (Bool.eq_false_iff.1 hnot), hfound]
      simp [hkey]
    · rw [if_neg hkey, beq_eq_false_iff_ne.2 hkey, Bool.false_or]

theorem Stored.insertAll {adds : List (ProcessSpec u)} (h : Stored nfc rows project processes)
    (hnamed : ∀ spec ∈ adds, named nfc incoming spec.name = some spec)
    (hfold : (adds.map (·.name)).foldlM (onNamed nfc incoming (insertProcess nfc project)) rows =
      .ok grown) : Stored nfc grown project (processes ++ adds) := by
  induction adds generalizing rows processes with
  | nil =>
    cases hfold
    simpa using h
  | cons spec adds ih =>
    rw [List.map_cons, List.foldlM_cons, onNamed, hnamed spec List.mem_cons_self] at hfold
    obtain ⟨first, hfirst, hfold⟩ := exists_of_bind_ok hfold
    have hrest := ih (h.insert hfirst)
      (fun other hother => hnamed other (List.mem_cons_of_mem _ hother)) hfold
    rwa [List.append_assoc, List.singleton_append] at hrest

def updates (nfc : Text → Text) (processes incoming : List (ProcessSpec u)) : List (ProcessSpec u) :=
  (incoming.filter fun spec => (named nfc processes spec.name).isSome).filter
    fun spec => named nfc processes spec.name ≠ some spec

def adds (nfc : Text → Text) (processes incoming : List (ProcessSpec u)) : List (ProcessSpec u) :=
  incoming.filter fun spec => !(named nfc processes spec.name).isSome

theorem mem_updates : spec ∈ updates nfc processes incoming ↔
    spec ∈ incoming ∧ (named nfc processes spec.name).isSome ∧ named nfc processes spec.name ≠ some spec := by
  rw [updates, List.mem_filter, List.mem_filter, decide_eq_true_eq, and_assoc]

theorem mem_adds : spec ∈ adds nfc processes incoming ↔
    spec ∈ incoming ∧ named nfc processes spec.name = none := by
  simp [adds]

section Plan

variable (h : Planned nfc processes incoming mode plan) {spec : ProcessSpec u}
include h

theorem Planned.map_added : plan.added.map (·.key nfc) = (adds nfc processes incoming).map (·.key nfc) := by
  rw [h.added, List.map_map]
  rfl

theorem Planned.map_updated :
    plan.updated.map (·.key nfc) = (updates nfc processes incoming).map (·.key nfc) := by
  rw [h.updated, List.map_map]
  rfl

theorem Planned.filter_added :
    incoming.filter (fun spec => (plan.added.map (·.key nfc)).contains (spec.key nfc)) =
      adds nfc processes incoming := by
  refine List.filter_congr fun spec hspec => ?_
  rw [h.map_added, Bool.eq_iff_iff, List.contains_iff_mem, List.mem_map, Bool.not_eq_true',
    Option.isSome_eq_false_iff, Option.isNone_iff_eq_none]
  constructor
  · rintro ⟨added, hadded, hkey⟩
    exact (named_congr hkey.symm).trans (mem_adds.1 hadded).2
  · exact fun hnone => ⟨spec, mem_adds.2 ⟨hspec, hnone⟩, rfl⟩

theorem Planned.mem_removed (hspec : spec ∈ processes) :
    spec.key nfc ∈ plan.removed.map (·.key nfc) ↔
      mode = .replace ∧ spec.key nfc ∉ incoming.map (·.key nfc) := by
  rw [h.removed]
  by_cases hmode : mode = .replace
  · rw [if_pos hmode, removedNames, List.map_map, List.mem_map]
    constructor
    · rintro ⟨other, hother, hkey⟩
      have hnot := (List.mem_filter.1 hother).2
      rw [Bool.not_eq_true', Bool.eq_false_iff, ne_eq, List.contains_iff_mem] at hnot
      exact ⟨hmode, (show other.key nfc = spec.key nfc from hkey) ▸ hnot⟩
    · rintro ⟨-, hnot⟩
      refine ⟨spec, List.mem_filter.2 ⟨hspec, ?_⟩, rfl⟩
      rw [Bool.not_eq_true', Bool.eq_false_iff, ne_eq, List.contains_iff_mem]
      exact hnot
  · simp [hmode]

theorem Planned.mem_applied : spec ∈ plan.applied nfc processes incoming ↔
    (∃ old ∈ processes, old.key nfc ∉ plan.removed.map (·.key nfc) ∧
      spec = if (plan.updated.map (·.key nfc)).contains (old.key nfc) then
        (named nfc incoming old.name).getD old else old) ∨
    spec ∈ adds nfc processes incoming := by
  rw [ImportPlan.applied, h.filter_added, List.mem_append, List.mem_map]
  simp only [List.mem_filter, Bool.not_eq_true', Bool.eq_false_iff, ne_eq, List.contains_iff_mem]
  constructor
  · rintro (⟨old, ⟨hold, hkept⟩, rfl⟩ | hadded)
    · exact .inl ⟨old, hold, hkept, rfl⟩
    · exact .inr hadded
  · rintro (⟨old, hold, hkept, rfl⟩ | hadded)
    · exact .inl ⟨old, ⟨hold, hkept⟩, rfl⟩
    · exact .inr hadded

theorem Planned.mem_applied_of_mem (hspec : spec ∈ incoming) :
    spec ∈ plan.applied nfc processes incoming := by
  rw [h.mem_applied]
  cases hfound : named nfc processes spec.name with
  | none => exact .inr (mem_adds.2 ⟨hspec, hfound⟩)
  | some old =>
    obtain ⟨hold, hkey⟩ := named_eq_some hfound
    refine .inl ⟨old, hold, ?_, ?_⟩
    · rw [h.mem_removed hold]
      exact fun hremoved => hremoved.2 (hkey ▸ List.mem_map_of_mem hspec)
    · rw [h.map_updated]
      split
      · next hupdated => rw [named_congr hkey, named_of_mem h.unique hspec, Option.getD_some]
      · next hupdated =>
        rw [List.contains_iff_mem] at hupdated
        have hsame : named nfc processes spec.name = some spec := by
          by_contra hne
          refine hupdated (hkey ▸ List.mem_map_of_mem (mem_updates.2 ⟨hspec, ?_, hne⟩))
          rw [hfound]
          rfl
        exact Option.some.inj (hsame.symm.trans hfound)

theorem Planned.mem_of_mem_applied (hmode : mode = .replace) (hstored : (processes.map (·.key nfc)).Nodup)
    (hspec : spec ∈ plan.applied nfc processes incoming) : spec ∈ incoming := by
  rcases h.mem_applied.1 hspec with ⟨old, hold, hkept, rfl⟩ | hadded
  · rw [h.mem_removed hold] at hkept
    have hkey : old.key nfc ∈ incoming.map (·.key nfc) := by
      by_contra hnot
      exact hkept ⟨hmode, hnot⟩
    obtain ⟨found, hfound⟩ := Option.isSome_iff_exists.1 (named_isSome.2 hkey)
    obtain ⟨hmem, hsame⟩ := named_eq_some hfound
    replace hsame : found.key nfc = old.key nfc := hsame
    split
    · rw [hfound]
      exact hmem
    · next hupdated =>
      rw [h.map_updated, List.contains_iff_mem] at hupdated
      have hstill : named nfc processes found.name = some old :=
        (named_congr hsame).trans (named_of_mem hstored hold)
      have heq : named nfc processes found.name = some found := by
        by_contra hne
        refine hupdated (hsame ▸ List.mem_map_of_mem (mem_updates.2 ⟨hmem, ?_, hne⟩))
        rw [hstill]
        rfl
      rw [Option.some.inj (hstill.symm.trans heq)]
      exact hmem
  · exact (mem_adds.1 hadded).1

theorem Planned.length_applied : (plan.applied nfc processes incoming).length =
    processes.length + plan.added.length - plan.removed.length := by
  have hadded : plan.added.length = (adds nfc processes incoming).length := by
    rw [h.added, List.length_map]
    rfl
  have hkept : (processes.filter fun spec => !(plan.removed.map (·.key nfc)).contains (spec.key nfc)) =
      processes.filter fun spec => !(mode = .replace ∧ spec.key nfc ∉ incoming.map (·.key nfc) : Bool) := by
    refine List.filter_congr fun spec hspec => congrArg not ?_
    rw [Bool.eq_iff_iff, List.contains_iff_mem, h.mem_removed hspec, decide_eq_true_eq]
  rw [ImportPlan.applied, h.filter_added, List.length_append, List.length_map, hkept, hadded, h.removed]
  by_cases hmode : mode = .replace
  · rw [if_pos hmode, removedNames, List.length_map]
    have hsplit := List.length_eq_length_filter_add (l := processes)
      fun spec => (incoming.map (·.key nfc)).contains (spec.key nfc)
    have hsame : (processes.filter fun spec =>
        !(mode = .replace ∧ spec.key nfc ∉ incoming.map (·.key nfc) : Bool)) =
        processes.filter fun spec => (incoming.map (·.key nfc)).contains (spec.key nfc) := by
      refine List.filter_congr fun spec _ => ?_
      rw [Bool.eq_iff_iff, Bool.not_eq_true', decide_eq_false_iff_not, List.contains_iff_mem]
      simp only [hmode, true_and, Classical.not_not]
    rw [hsame]
    omega
  · rw [if_neg hmode]
    simp [hmode]

theorem Planned.disjoint (hstored : (processes.map (·.key nfc)).Nodup) :
    ((plan.added ++ plan.updated ++ plan.removed).map (·.key nfc)).Nodup := by
  rw [List.map_append, List.map_append, h.map_added, h.map_updated]
  have hadds : ((adds nfc processes incoming).map (·.key nfc)).Nodup :=
    h.unique.sublist (List.filter_sublist.map _)
  have hupdates : ((updates nfc processes incoming).map (·.key nfc)).Nodup :=
    h.unique.sublist ((List.filter_sublist.trans List.filter_sublist).map _)
  have hremoved : (plan.removed.map (·.key nfc)).Nodup := by
    rw [h.removed]
    split
    · rw [removedNames, List.map_map]
      exact hstored.sublist (List.filter_sublist.map _)
    · exact List.nodup_nil
  refine List.nodup_append.2 ⟨List.nodup_append.2 ⟨hadds, hupdates, ?_⟩, hremoved, ?_⟩
  · rintro key hadded key' hupdated rfl
    obtain ⟨added, hnew, hkey⟩ := List.mem_map.1 hadded
    obtain ⟨updated, hmem, rfl⟩ := List.mem_map.1 hupdated
    obtain ⟨-, hsome, -⟩ := mem_updates.1 hmem
    rw [← named_congr hkey, (mem_adds.1 hnew).2] at hsome
    exact absurd hsome Bool.false_ne_true
  · rintro key hwritten key' hgone rfl
    have hincoming : key ∈ incoming.map (·.key nfc) := by
      rcases List.mem_append.1 hwritten with hmem | hmem
      · exact (List.filter_sublist.map _).subset hmem
      · exact ((List.filter_sublist.trans List.filter_sublist).map _).subset hmem
    have hprocess : key ∈ processes.map (·.key nfc) := by
      rw [h.removed] at hgone
      split at hgone
      · rw [removedNames, List.map_map] at hgone
        exact (List.filter_sublist.map _).subset hgone
      · exact absurd hgone List.not_mem_nil
    obtain ⟨spec, hspec, rfl⟩ := List.mem_map.1 hprocess
    exact ((h.mem_removed hspec).1 hgone).2 hincoming

theorem Planned.overCap (hspec : spec ∈ incoming)
    (hkey : spec.key nfc ∈ (plan.added ++ plan.updated).map (·.key nfc)) : spec.overCap = none := by
  refine h.caps spec hspec fun hsame => ?_
  rw [List.map_append, h.map_added, h.map_updated, List.mem_append] at hkey
  rcases hkey with hadded | hupdated
  · obtain ⟨added, hmem, hkey⟩ := List.mem_map.1 hadded
    rw [← named_congr hkey, (mem_adds.1 hmem).2] at hsame
    exact Option.some_ne_none spec hsame.symm
  · obtain ⟨updated, hmem, hkey⟩ := List.mem_map.1 hupdated
    obtain ⟨hincoming, -, hne⟩ := mem_updates.1 hmem
    rw [List.inj_on_of_nodup_map h.unique hincoming hspec hkey] at hne
    exact hne hsame

end Plan

/-- The rows after an import hold what its plan says. -/
theorem Stored.importInto (h : Stored nfc rows project processes)
    (himport : importInto nfc rows project incoming mode = .ok (grown, plan)) :
    Planned nfc processes incoming mode plan ∧
      Stored nfc grown project (plan.applied nfc processes incoming) := by
  obtain ⟨stack, hstack, himport⟩ := exists_of_bind_ok himport
  cases h.stackOf_eq.symm.trans hstack
  obtain ⟨plan', hplan, himport⟩ := exists_of_bind_ok himport
  obtain ⟨rewritten, hupdate, himport⟩ := exists_of_bind_ok himport
  obtain ⟨grown', hinsert, himport⟩ := exists_of_bind_ok himport
  cases himport
  have hplanned := planImport_eq_ok.1 hplan
  have hnamed : ∀ spec ∈ incoming, named nfc incoming spec.name = some spec := fun spec hspec =>
    named_of_mem hplanned.unique hspec
  rw [hplanned.updated] at hupdate
  rw [hplanned.added] at hinsert
  have hkept := h.deleteAll plan.removed
  have hrewritten := hkept.updateAll (fun spec hspec => hnamed spec (mem_updates.1 hspec).1)
    (hplanned.unique.sublist ((List.filter_sublist.trans List.filter_sublist).map _)) hupdate
  have hgrown := hrewritten.insertAll (fun spec hspec => hnamed spec (mem_adds.1 hspec).1) hinsert
  refine ⟨hplanned, ?_⟩
  rw [ImportPlan.applied, hplanned.filter_added, hplanned.map_updated]
  exact hgrown

/-- Nothing is planned, and nothing done, where the stack holds every incoming definition. -/
theorem Stored.importInto_again (h : Stored nfc rows project processes)
    (hunique : (incoming.map (·.key nfc)).Nodup) (hheld : ∀ spec ∈ incoming, spec ∈ processes)
    (hcount : processes.length ≤ processesMax) (hstrict : mode ≠ .strict)
    (hreplace : mode = .replace → ∀ spec ∈ processes, spec ∈ incoming) :
    Config.importInto nfc rows project incoming mode = .ok (rows, ⟨[], [], []⟩) := by
  have hnamed : ∀ spec ∈ incoming, named nfc processes spec.name = some spec := fun spec hspec =>
    named_of_mem h.unique (hheld spec hspec)
  have hplan : planImport nfc processes incoming mode = .ok ⟨[], [], []⟩ := by
    refine planImport_eq_ok.2 ⟨hunique, fun hmode => absurd hmode hstrict, ?_, ?_, ?_, hcount, ?_⟩
    · rw [eq_comm, List.map_eq_nil_iff, List.filter_eq_nil_iff]
      intro spec hspec
      rw [hnamed spec hspec]
      exact Bool.false_ne_true
    · rw [eq_comm, List.map_eq_nil_iff, List.filter_eq_nil_iff]
      intro spec hspec
      rw [decide_eq_true_eq]
      exact fun hne => hne (hnamed spec (List.mem_filter.1 hspec).1)
    · split
      · next hmode =>
        rw [removedNames, eq_comm, List.map_eq_nil_iff, List.filter_eq_nil_iff]
        intro spec hspec
        rw [Bool.not_eq_true', Bool.eq_false_iff, ne_eq, List.contains_iff_mem]
        exact fun hnot => hnot (List.mem_map_of_mem (hreplace hmode spec hspec))
      · rfl
    · exact fun spec hspec hne => absurd (hnamed spec hspec) hne
  rw [Config.importInto, h.stackOf_eq]
  show (planImport nfc processes incoming mode >>= fun plan => _) = _
  rw [hplan]
  rfl

/-- **An import does what its plan says.**  The stack it leaves is the stored one without what the plan
removes, with the incoming definition in the place of what it updates, and then what it adds; its names
are unique.  Nothing is both added, updated or removed.  A replacing import leaves exactly the incoming
definitions.  The stack is not past the process count, nor what is written past a cap.  Importing the same
again, under merge, or under replace after a replace, plans nothing and changes nothing.  A refused import
changes nothing. -/
theorem import_does_plan (h : Stored nfc rows project processes) :
    (∀ grown plan, importStack nfc rows project incoming mode = (grown, .ok plan) →
      let result := plan.applied nfc processes incoming
      Stored nfc grown project result ∧ stackOf grown project = .ok result ∧
      (result.map (·.key nfc)).Nodup ∧
      ((plan.added ++ plan.updated ++ plan.removed).map (·.key nfc)).Nodup ∧
      (mode = .replace → result.Perm incoming) ∧
      result.length ≤ processesMax ∧
      (∀ spec ∈ incoming, spec.key nfc ∈ (plan.added ++ plan.updated).map (·.key nfc) →
        spec.overCap = none) ∧
      ∀ mode', mode' = .merge ∨ mode = .replace ∧ mode' = .replace →
        importStack nfc grown project incoming mode' = (grown, .ok ⟨[], [], []⟩)) ∧
    ∀ grown e, importStack nfc rows project incoming mode = (grown, .error e) → grown = rows := by
  constructor
  · intro grown plan himport result
    have hinto : Config.importInto nfc rows project incoming mode = .ok (grown, plan) := by
      rw [importStack] at himport
      cases hinto : Config.importInto nfc rows project incoming mode with
      | ok outcome =>
        rw [hinto] at himport
        cases himport
        rfl
      | error e =>
        rw [hinto] at himport
        cases himport
    obtain ⟨hplan, hstored⟩ := h.importInto hinto
    have hcount : result.length ≤ processesMax := by
      rw [hplan.length_applied]
      exact hplan.count
    refine ⟨hstored, hstored.stackOf_eq, hstored.unique, hplan.disjoint h.unique, fun hmode => ?_, hcount,
      fun spec hspec hkey => hplan.overCap hspec hkey, fun mode' hmode => ?_⟩
    · refine (List.perm_ext_iff_of_nodup hstored.unique.of_map hplan.unique.of_map).2 fun spec => ?_
      exact ⟨hplan.mem_of_mem_applied hmode h.unique, hplan.mem_applied_of_mem⟩
    · have hagain : Config.importInto nfc grown project incoming mode' = .ok (grown, ⟨[], [], []⟩) := by
        refine hstored.importInto_again hplan.unique (fun spec hspec => hplan.mem_applied_of_mem hspec)
          hcount ?_ fun hreplace spec hspec => ?_
        · rcases hmode with rfl | ⟨-, rfl⟩ <;> decide
        · rcases hmode with rfl | ⟨hmode, -⟩
          · cases hreplace
          · exact hplan.mem_of_mem_applied hmode h.unique hspec
      rw [importStack, hagain]
  · intro grown e himport
    rw [importStack] at himport
    cases hinto : Config.importInto nfc rows project incoming mode with
    | ok outcome =>
      rw [hinto] at himport
      cases himport
    | error e =>
      rw [hinto] at himport
      cases himport
      rfl

end Rows

def noRows : ProcessRows := ⟨.empty, List.Pairwise.nil, by decide⟩

def oneRow : ProcessRows := noRows.put (0, ['a']) (columnsOf (lettered 'a') none 5000)

theorem stored_oneRow : Stored id oneRow 0 [lettered 'a'] := by
  have hempty : Stored (u := plainTables) id noRows 0 [] := rfl
  exact hempty.insert (show insertProcess id 0 noRows (lettered 'a') = .ok oneRow from rfl)

/-- The one process is replaced by another. -/
theorem import_does_plan_of_one :
    let plan : ImportPlan plainTables := ⟨[(lettered 'b').name], [], [(lettered 'a').name]⟩
    let grown := noRows.put (0, ['b']) (columnsOf (lettered 'b') none 5000)
    importStack id oneRow 0 [lettered 'b'] .replace = (grown, .ok plan) ∧
      (plan.applied id [lettered 'a'] [lettered 'b']).Perm [lettered 'b'] :=
  ⟨rfl, ((import_does_plan stored_oneRow).1 _ _ rfl).2.2.2.2.1 rfl⟩

end Muster.Config
