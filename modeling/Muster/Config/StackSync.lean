import Mathlib.Data.List.Find
import Mathlib.Data.List.Fold
import Muster.Config.Spec
import Muster.Supervisor.System

/-!
# StackSync — a live workspace brought in line with a project's stack

Processes are matched by the key of their names.  A name in both keeps its pane and its state and takes
the new definition; a new name gets the next pane id; a name that is gone is retiring while its process
may still run, and removed otherwise.  Pane ids are 64 bits wide, and counting past the last one wraps.
The supervisor's model numbers its panes without end; while there is room, its rows are those of a sync
(`Rows.sync`).
-/

namespace Muster.Config

open Terminal (Unicode)
open Supervisor (ProcessState)

variable {u : Unicode}

/-- A process of a workspace: its definition, its pane and its state. -/
structure Process (u : Unicode) where
  id : UInt64
  state : ProcessState
  spec : ProcessSpec u
deriving DecidableEq

def ProcessSpec.toProcess (spec : ProcessSpec u) (id : UInt64) : Process u := ⟨id, .pending, spec⟩

def Process.key (nfc : Text → Text) (process : Process u) : Text := process.spec.key nfc

/-- The synced workspace, and what became of the panes. -/
structure StackSync (u : Unicode) where
  workspace : List (Process u)
  added : List UInt64
  retiring : List UInt64
  removed : List UInt64

namespace StackSync

variable (nfc : Text → Text)

def byKey (workspace : List (Process u)) : Text → Option (Process u) :=
  workspace.foldl (fun known process =>
    if (known (process.key nfc)).isSome then known
    else Function.update known (process.key nfc) (some process)) fun _ => none

def nextId (workspace : List (Process u)) : UInt64 := (workspace.map (·.id + 1)).foldl max 0

/-- What the pass over the definitions carries. -/
structure Matching (u : Unicode) where
  byKey : Text → Option (Process u)
  nextId : UInt64
  synced : List (Process u) := []
  matched : List UInt64 := []
  added : List UInt64 := []

/-- One definition: its name's process takes it, or a new process is made. -/
def Matching.place (m : Matching u) (spec : ProcessSpec u) : Matching u :=
  match m.byKey (spec.key nfc) with
  | some existing =>
    { m with
      byKey := Function.update m.byKey (spec.key nfc) none
      synced := m.synced ++ [{ existing with spec }]
      matched := m.matched ++ [existing.id] }
  | none =>
    { m with
      nextId := m.nextId + 1
      synced := m.synced ++ [spec.toProcess m.nextId]
      added := m.added ++ [m.nextId] }

/-- One process of the old workspace: left out when matched, else retiring or removed. -/
def retire (matched : List UInt64) (isLive : UInt64 → Bool) (sync : StackSync u) (process : Process u) :
    StackSync u :=
  if matched.contains process.id then sync
  else if isLive process.id then
    { sync with
      retiring := sync.retiring ++ [process.id]
      workspace := sync.workspace ++ [process] }
  else { sync with removed := sync.removed ++ [process.id] }

def apply (workspace : List (Process u)) (processes : List (ProcessSpec u)) (isLive : UInt64 → Bool) :
    StackSync u :=
  let m := processes.foldl (Matching.place nfc) { byKey := byKey nfc workspace, nextId := nextId workspace }
  workspace.foldl (retire m.matched isLive) ⟨m.synced, m.added, [], []⟩

def kept (sync : StackSync u) : List UInt64 :=
  (sync.workspace.map (·.id)).filter fun pane => !sync.added.contains pane && !sync.retiring.contains pane

/-! ### The passes, as what they come to -/

/-- The processes of the definitions: each known name's, with the new definition, or a new one. -/
def placed (known : Text → Option (Process u)) : UInt64 → List (ProcessSpec u) → List (Process u)
  | _, [] => []
  | next, spec :: specs =>
    match known (spec.key nfc) with
    | some existing => { existing with spec } :: placed known next specs
    | none => spec.toProcess next :: placed known (next + 1) specs

def isNew (known : Text → Option (Process u)) (process : Process u) : Bool :=
  (known (process.key nfc)).isNone

def isGone (specs : List (ProcessSpec u)) (process : Process u) : Bool :=
  !(specs.map (·.key nfc)).contains (process.key nfc)

variable {nfc} {known : Text → Option (Process u)} {specs : List (ProcessSpec u)} {next : UInt64}
  {workspace : List (Process u)} {spec : ProcessSpec u} {process : Process u}

theorem placed_cons_of_some {existing : Process u}
    (h : known (spec.key nfc) = some existing) : placed nfc known next (spec :: specs) =
      { existing with spec } :: placed nfc known next specs := by
  rw [placed, h]

theorem placed_cons_of_none (h : known (spec.key nfc) = none) :
    placed nfc known next (spec :: specs) =
      spec.toProcess next :: placed nfc known (next + 1) specs := by
  rw [placed, h]

/-- The pass over the definitions.  No key is met twice, so what the pass takes out of its map is not
asked for again. -/
theorem foldl_place {m : Matching u} (hkeys : (specs.map (·.key nfc)).Nodup)
    (hknown : ∀ spec ∈ specs, m.byKey (spec.key nfc) = known (spec.key nfc)) :
    (specs.foldl (Matching.place nfc) m).synced = m.synced ++ placed nfc known m.nextId specs ∧
    (specs.foldl (Matching.place nfc) m).matched =
      m.matched ++ (specs.filterMap fun spec => known (spec.key nfc)).map (·.id) ∧
    (specs.foldl (Matching.place nfc) m).added =
      m.added ++ ((placed nfc known m.nextId specs).filter (isNew nfc known)).map (·.id) := by
  induction specs generalizing m with
  | nil => simp [placed]
  | cons spec specs ih =>
    rw [List.map_cons, List.nodup_cons] at hkeys
    have hspec := hknown spec List.mem_cons_self
    cases hfound : known (spec.key nfc) with
    | some existing =>
      have hplace : m.place nfc spec =
          { m with
            byKey := Function.update m.byKey (spec.key nfc) none
            synced := m.synced ++ [{ existing with spec }]
            matched := m.matched ++ [existing.id] } := by
        rw [Matching.place, hspec, hfound]
      have hrest : ∀ other ∈ specs,
          Function.update m.byKey (spec.key nfc) none (other.key nfc) = known (other.key nfc) := by
        intro other hother
        have hne : other.key nfc ≠ spec.key nfc := fun heq =>
          hkeys.1 (heq ▸ List.mem_map_of_mem hother)
        rw [Function.update_of_ne hne, hknown other (List.mem_cons_of_mem _ hother)]
      have hold : isNew nfc known { existing with spec } = false := by
        rw [isNew]
        show (known (spec.key nfc)).isNone = false
        rw [hfound]
        rfl
      obtain ⟨hsynced, hmatched, hadded⟩ := ih (m := m.place nfc spec) hkeys.2 (by rw [hplace]; exact hrest)
      rw [List.foldl_cons, hsynced, hmatched, hadded, hplace, placed_cons_of_some hfound,
        List.filter_cons_of_neg (Bool.eq_false_iff.1 hold)]
      simp [hfound]
    | none =>
      have hplace : m.place nfc spec =
          { m with
            nextId := m.nextId + 1
            synced := m.synced ++ [spec.toProcess m.nextId]
            added := m.added ++ [m.nextId] } := by
        rw [Matching.place, hspec, hfound]
      have hnew : isNew nfc known (spec.toProcess m.nextId) = true := by
        rw [isNew]
        show (known (spec.key nfc)).isNone = true
        rw [hfound]
        rfl
      obtain ⟨hsynced, hmatched, hadded⟩ := ih (m := m.place nfc spec) hkeys.2
        (by rw [hplace]; exact fun other hother => hknown other (List.mem_cons_of_mem _ hother))
      rw [List.foldl_cons, hsynced, hmatched, hadded, hplace, placed_cons_of_none hfound,
        List.filter_cons_of_pos hnew]
      simp [hfound, ProcessSpec.toProcess]

theorem foldl_retire {matched : List UInt64} {isLive : UInt64 → Bool} (sync : StackSync u) :
    workspace.foldl (retire matched isLive) sync =
      { sync with
        workspace := sync.workspace ++
          workspace.filter fun process => !matched.contains process.id && isLive process.id
        retiring := sync.retiring ++
          (workspace.filter fun process => !matched.contains process.id && isLive process.id).map (·.id)
        removed := sync.removed ++
          (workspace.filter fun process => !matched.contains process.id && !isLive process.id).map
            (·.id) } := by
  induction workspace generalizing sync with
  | nil => simp
  | cons process workspace ih =>
    rw [List.foldl_cons, ih, retire]
    by_cases hmatched : process.id ∈ matched
    · simp [hmatched]
    · cases hlive : isLive process.id with
      | true => simp [hmatched, hlive]
      | false => simp [hmatched, hlive]

theorem foldl_known (workspace : List (Process u)) (known : Text → Option (Process u)) (key : Text) :
    workspace.foldl (fun known process =>
      if (known (process.key nfc)).isSome then known
      else Function.update known (process.key nfc) (some process)) known key =
        (known key).or (workspace.find? fun process => process.key nfc = key) := by
  induction workspace generalizing known with
  | nil => simp
  | cons process workspace ih =>
    rw [List.foldl_cons, ih, List.find?_cons]
    by_cases hkey : process.key nfc = key
    · subst hkey
      cases hknown : known (process.key nfc) <;> simp [hknown]
    · split
      · simp [hkey]
      · simp [hkey, Function.update_of_ne (Ne.symm hkey)]

theorem byKey_eq (key : Text) :
    byKey nfc workspace key = workspace.find? fun process => process.key nfc = key := by
  rw [byKey, foldl_known]
  rfl

theorem find?_of_nodup_map {α β : Type} [DecidableEq β] {f : α → β} {l : List α} {a : α} (h : (l.map f).Nodup)
    (ha : a ∈ l) : l.find? (fun other => f other = f a) = some a := by
  cases hfind : l.find? fun other => f other = f a with
  | none => simpa using List.find?_eq_none.1 hfind a ha
  | some other =>
    have heq : f other = f a := by simpa using List.find?_some hfind
    exact congrArg some (List.inj_on_of_nodup_map h (List.mem_of_find?_eq_some hfind) ha heq)

/-- A workspace whose panes and whose names are told apart. -/
structure Unique (nfc : Text → Text) (workspace : List (Process u)) : Prop where
  ids : (workspace.map (·.id)).Nodup
  keys : (workspace.map (·.key nfc)).Nodup

theorem Unique.byKey_eq_some (h : Unique nfc workspace) {key : Text} :
    byKey nfc workspace key = some process ↔ process ∈ workspace ∧ process.key nfc = key := by
  rw [byKey_eq]
  constructor
  · intro hfind
    exact ⟨List.mem_of_find?_eq_some hfind, by simpa using List.find?_some hfind⟩
  · rintro ⟨hmem, rfl⟩
    exact find?_of_nodup_map h.keys hmem

theorem byKey_eq_none {key : Text} :
    byKey nfc workspace key = none ↔ key ∉ workspace.map (·.key nfc) := by
  rw [byKey_eq]
  simp

theorem Unique.contains_matched (h : Unique nfc workspace) (hmem : process ∈ workspace) :
    (((specs.filterMap fun spec => byKey nfc workspace (spec.key nfc)).map (·.id)).contains process.id) =
      !isGone nfc specs process := by
  rw [isGone, Bool.not_not, Bool.eq_iff_iff, List.contains_iff_mem, List.contains_iff_mem]
  simp only [List.mem_map, List.mem_filterMap]
  constructor
  · rintro ⟨other, ⟨spec, hspec, hfound⟩, hid⟩
    obtain ⟨hother, hkey⟩ := h.byKey_eq_some.1 hfound
    have heq := List.inj_on_of_nodup_map h.ids hother hmem hid
    exact ⟨spec, hspec, heq ▸ hkey.symm⟩
  · rintro ⟨spec, hspec, hkey⟩
    exact ⟨process, ⟨spec, hspec, h.byKey_eq_some.2 ⟨hmem, hkey.symm⟩⟩, rfl⟩

/-- **What a sync comes to**, for a workspace and definitions told apart by their names. -/
theorem Unique.apply_eq (h : Unique nfc workspace) (hspecs : (specs.map (·.key nfc)).Nodup)
    (isLive : UInt64 → Bool) :
    let known := byKey nfc workspace
    let synced := placed nfc known (nextId workspace) specs
    let gone := workspace.filter (isGone nfc specs)
    apply nfc workspace specs isLive =
      { workspace := synced ++ gone.filter fun process => isLive process.id
        added := (synced.filter (isNew nfc known)).map (·.id)
        retiring := (gone.filter fun process => isLive process.id).map (·.id)
        removed := (gone.filter fun process => !isLive process.id).map (·.id) } := by
  intro known synced gone
  have hplace := foldl_place (m := { byKey := byKey nfc workspace, nextId := nextId workspace }) hspecs
    fun spec _ => (rfl : byKey nfc workspace (spec.key nfc) = _)
  obtain ⟨hsynced, hmatched, hadded⟩ := hplace
  have hgone : ∀ live : Process u → Bool,
      (workspace.filter fun process =>
        !((specs.filterMap fun spec => byKey nfc workspace (spec.key nfc)).map (·.id)).contains process.id &&
          live process) = gone.filter live := by
    intro live
    rw [List.filter_filter]
    refine List.filter_congr fun process hprocess => ?_
    rw [h.contains_matched hprocess, Bool.not_not, Bool.and_comm]
  rw [apply]
  rw [foldl_retire, hsynced, hmatched, hadded]
  dsimp only
  rw [List.nil_append, List.nil_append, List.nil_append, List.nil_append, List.nil_append, hgone, hgone]

/-! ### Ids -/

theorem toNat_max (a b : UInt64) : (max a b).toNat = max a.toNat b.toNat := by
  rw [show max a b = if a ≤ b then b else a from rfl]
  split
  · next h =>
    have := UInt64.le_iff_toNat_le.1 h
    omega
  · next h =>
    have := mt UInt64.le_iff_toNat_le.2 h
    omega

theorem toNat_add_one {id : UInt64} (h : id.toNat + 1 < 2 ^ 64) : (id + 1).toNat = id.toNat + 1 := by
  rw [UInt64.toNat_add]
  exact Nat.mod_eq_of_lt h

/-- How many of the definitions have a name the map does not know. -/
def newNames (nfc : Text → Text) (known : Text → Option (Process u)) (specs : List (ProcessSpec u)) : ℕ :=
  specs.countP fun spec => (known (spec.key nfc)).isNone

theorem newNames_of_some {old : Process u} (h : known (spec.key nfc) = some old) :
    newNames nfc known (spec :: specs) = newNames nfc known specs :=
  List.countP_cons_of_neg (by simp [h])

theorem newNames_of_none (h : known (spec.key nfc) = none) :
    newNames nfc known (spec :: specs) = newNames nfc known specs + 1 :=
  List.countP_cons_of_pos (by simp [h])

/-- Counting on for the new names of a list of definitions stays below the end of the ids. -/
structure Room (nfc : Text → Text) (workspace : List (Process u)) (specs : List (ProcessSpec u)) : Prop where
  below : ∀ process ∈ workspace,
    process.id.toNat + 1 + newNames nfc (byKey nfc workspace) specs < 2 ^ 64
  short : newNames nfc (byKey nfc workspace) specs < 2 ^ 64

theorem le_foldl_max (ids : List UInt64) (first : UInt64) :
    first.toNat ≤ (ids.foldl max first).toNat ∧ (∀ id ∈ ids, id.toNat ≤ (ids.foldl max first).toNat) ∧
      (ids.foldl max first ∈ ids ∨ ids.foldl max first = first) := by
  induction ids generalizing first with
  | nil => exact ⟨Nat.le_refl _, by simp, .inr rfl⟩
  | cons id ids ih =>
    obtain ⟨hfirst, hids, hmem⟩ := ih (max first id)
    rw [toNat_max] at hfirst
    rw [List.foldl_cons]
    refine ⟨by omega, fun other hother => ?_, ?_⟩
    · rcases List.mem_cons.1 hother with rfl | hother
      · omega
      · exact hids other hother
    · rcases hmem with hmem | hmem
      · exact .inl (List.mem_cons_of_mem _ hmem)
      · rw [hmem, show max first id = if first ≤ id then id else first from rfl]
        split
        · exact .inl List.mem_cons_self
        · exact .inr rfl

theorem Room.lt_nextId (h : Room nfc workspace specs) (hmem : process ∈ workspace) :
    process.id.toNat < (nextId workspace).toNat := by
  have hbelow := h.below process hmem
  have hle := (le_foldl_max (workspace.map (·.id + 1)) 0).2.1 _ (List.mem_map_of_mem hmem)
  rw [toNat_add_one (by omega)] at hle
  exact hle

theorem Room.nextId_add (h : Room nfc workspace specs) :
    (nextId workspace).toNat + newNames nfc (byKey nfc workspace) specs < 2 ^ 64 := by
  rcases (le_foldl_max (workspace.map (·.id + 1)) 0).2.2 with hmem | hzero
  · obtain ⟨process, hprocess, hid⟩ := List.mem_map.1 hmem
    have hbelow := h.below process hprocess
    rw [nextId, ← hid, toNat_add_one (by omega)]
    omega
  · rw [nextId, hzero]
    have := h.short
    simpa using this

/-! ### What the definitions are given -/

@[simp] theorem map_spec_placed : (placed nfc known next specs).map (·.spec) = specs := by
  induction specs generalizing next with
  | nil => rfl
  | cons spec specs ih =>
    cases hfound : known (spec.key nfc) with
    | some existing => rw [placed_cons_of_some hfound, List.map_cons, ih]
    | none => rw [placed_cons_of_none hfound, List.map_cons, ih]; rfl

@[simp] theorem map_key_placed : (placed nfc known next specs).map (·.key nfc) = specs.map (·.key nfc) := by
  have hmap : (placed nfc known next specs).map (·.key nfc) =
      ((placed nfc known next specs).map (·.spec)).map (·.key nfc) := by
    rw [List.map_map]
    rfl
  rw [hmap, map_spec_placed]

/-- A known name keeps its pane and its state; a new one waits on a pane of its own, past `next`. -/
theorem mem_placed (hroom : next.toNat + newNames nfc known specs < 2 ^ 64)
    (h : process ∈ placed nfc known next specs) :
    (∃ old, known (process.key nfc) = some old ∧ process = { old with spec := process.spec }) ∨
      known (process.key nfc) = none ∧ process.state = .pending ∧ next.toNat ≤ process.id.toNat ∧
        process.id.toNat < next.toNat + newNames nfc known specs := by
  induction specs generalizing next with
  | nil => exact absurd h List.not_mem_nil
  | cons spec specs ih =>
    cases hfound : known (spec.key nfc) with
    | some existing =>
      rw [newNames_of_some hfound] at hroom ⊢
      rw [placed_cons_of_some hfound] at h
      rcases List.mem_cons.1 h with rfl | h
      · exact .inl ⟨existing, hfound, rfl⟩
      · rcases ih (by omega) h with hold | ⟨hnone, hstate, hlow, hhigh⟩
        · exact .inl hold
        · exact .inr ⟨hnone, hstate, hlow, by omega⟩
    | none =>
      rw [newNames_of_none hfound] at hroom ⊢
      rw [placed_cons_of_none hfound] at h
      have hnext : (next + 1).toNat = next.toNat + 1 := toNat_add_one (by omega)
      rcases List.mem_cons.1 h with rfl | h
      · exact .inr ⟨hfound, rfl, Nat.le_refl _, by show next.toNat < _; omega⟩
      · rcases ih (by omega) h with hold | ⟨hnone, hstate, hlow, hhigh⟩
        · exact .inl hold
        · exact .inr ⟨hnone, hstate, by omega, by omega⟩

/-- What the map of a workspace knows: processes with ids of their own, all below `next`. -/
structure Known (nfc : Text → Text) (known : Text → Option (Process u)) (next : UInt64) : Prop where
  keyed : ∀ key process, known key = some process → process.key nfc = key
  below : ∀ key process, known key = some process → process.id.toNat < next.toNat
  apart : ∀ key process key' process', known key = some process → known key' = some process' →
    process.id = process'.id → key = key'

theorem Known.succ (h : Known nfc known next) (hroom : next.toNat + 1 < 2 ^ 64) :
    Known nfc known (next + 1) := by
  refine ⟨h.keyed, fun key process hknown => ?_, h.apart⟩
  have := h.below key process hknown
  rw [toNat_add_one hroom]
  omega

theorem Known.nodup_placed (h : Known nfc known next) (hspecs : (specs.map (·.key nfc)).Nodup)
    (hroom : next.toNat + newNames nfc known specs < 2 ^ 64) :
    ((placed nfc known next specs).map (·.id)).Nodup := by
  induction specs generalizing next with
  | nil => exact List.nodup_nil
  | cons spec specs ih =>
    rw [List.map_cons, List.nodup_cons] at hspecs
    -- A process placed later has another key than this one.
    have hkey : ∀ next, ∀ process ∈ placed nfc known next specs, process.key nfc ≠ spec.key nfc := by
      intro next process hprocess heq
      refine hspecs.1 (heq ▸ ?_)
      have hmem := List.mem_map_of_mem (f := (·.key nfc)) hprocess
      rwa [map_key_placed] at hmem
    cases hfound : known (spec.key nfc) with
    | some existing =>
      rw [newNames_of_some hfound] at hroom
      rw [placed_cons_of_some hfound, List.map_cons, List.nodup_cons]
      refine ⟨fun hmem => ?_, ih h hspecs.2 (by omega)⟩
      obtain ⟨process, hprocess, hid⟩ := List.mem_map.1 hmem
      replace hid : process.id = existing.id := hid
      rcases mem_placed (by omega) hprocess with ⟨old, hold, heq⟩ | ⟨-, -, hlow, -⟩
      · rw [heq] at hid
        exact hkey next process hprocess (h.apart _ _ _ _ hold hfound hid)
      · have := h.below _ _ hfound
        rw [hid] at hlow
        omega
    | none =>
      rw [newNames_of_none hfound] at hroom
      rw [placed_cons_of_none hfound, List.map_cons, List.nodup_cons]
      have hnext : (next + 1).toNat = next.toNat + 1 := toNat_add_one (by omega)
      refine ⟨fun hmem => ?_, ih (h.succ (by omega)) hspecs.2 (by omega)⟩
      obtain ⟨process, hprocess, hid⟩ := List.mem_map.1 hmem
      replace hid : process.id = next := hid
      rcases mem_placed (by omega) hprocess with ⟨old, hold, heq⟩ | ⟨-, -, hlow, -⟩
      · have hbelow := h.below _ _ hold
        rw [heq] at hid
        rw [show old.id = next from hid] at hbelow
        omega
      · rw [hid] at hlow
        omega

theorem Unique.known_byKey (h : Unique nfc workspace) (hroom : Room nfc workspace specs) :
    Known nfc (byKey nfc workspace) (nextId workspace) := by
  refine ⟨fun key process hfound => (h.byKey_eq_some.1 hfound).2,
    fun key process hfound => hroom.lt_nextId (h.byKey_eq_some.1 hfound).1, ?_⟩
  intro key process key' process' hfound hfound' hid
  obtain ⟨hmem, rfl⟩ := h.byKey_eq_some.1 hfound
  obtain ⟨hmem', rfl⟩ := h.byKey_eq_some.1 hfound'
  rw [List.inj_on_of_nodup_map h.ids hmem hmem' hid]

theorem mem_placed_of_known {old : Process u} (hspec : spec ∈ specs)
    (hfound : known (spec.key nfc) = some old) : { old with spec } ∈ placed nfc known next specs := by
  induction specs generalizing next with
  | nil => exact absurd hspec List.not_mem_nil
  | cons other specs ih =>
    rcases List.mem_cons.1 hspec with rfl | hspec
    · rw [placed_cons_of_some hfound]
      exact List.mem_cons_self
    · cases hother : known (other.key nfc) with
      | some existing =>
        rw [placed_cons_of_some hother]
        exact List.mem_cons_of_mem _ (ih hspec)
      | none =>
        rw [placed_cons_of_none hother]
        exact List.mem_cons_of_mem _ (ih hspec)

theorem placed_of_known {processes : List (Process u)} (next : UInt64)
    (h : ∀ process ∈ processes, known (process.key nfc) = some process) :
    placed nfc known next (processes.map (·.spec)) = processes := by
  induction processes with
  | nil => rfl
  | cons process processes ih =>
    rw [List.map_cons, placed_cons_of_some (h process List.mem_cons_self),
      ih fun other hother => h other (List.mem_cons_of_mem _ hother)]

theorem isGone_eq_false :
    isGone nfc specs process = false ↔ process.key nfc ∈ specs.map (·.key nfc) := by
  simp [isGone]

theorem isGone_placed (h : process ∈ placed nfc known next specs) :
    isGone nfc specs process = false := by
  have hmem := List.mem_map_of_mem (f := (·.key nfc)) h
  rw [map_key_placed] at hmem
  exact isGone_eq_false.2 hmem

theorem filter_kept {synced rest : List (Process u)} {new : Process u → Bool}
    (h : (synced.map (·.id) ++ rest.map (·.id)).Nodup) :
    ((synced ++ rest).map (·.id)).filter (fun pane =>
      !((synced.filter new).map (·.id)).contains pane && !(rest.map (·.id)).contains pane) =
      (synced.filter fun process => !new process).map (·.id) := by
  obtain ⟨hsynced, -, happart⟩ := List.nodup_append.1 h
  have hrest : rest.filter ((fun pane => !((synced.filter new).map (·.id)).contains pane &&
      !(rest.map (·.id)).contains pane) ∘ (·.id)) = [] := by
    refine List.filter_eq_nil_iff.2 fun process hprocess => ?_
    have hmem : process.id ∈ rest.map (·.id) := List.mem_map_of_mem hprocess
    simp only [Function.comp, List.contains_iff_mem.2 hmem]
    simp
  rw [List.map_append, List.filter_append, List.filter_map, List.filter_map, hrest, List.map_nil,
    List.append_nil]
  refine congrArg (List.map _) (List.filter_congr fun process hprocess => ?_)
  have hnot : process.id ∉ rest.map (·.id) := fun hmem =>
    happart _ (List.mem_map_of_mem hprocess) _ hmem rfl
  have hadded : process.id ∈ (synced.filter new).map (·.id) ↔ new process = true := by
    constructor
    · intro hmem
      obtain ⟨other, hother, hsame⟩ := List.mem_map.1 hmem
      obtain ⟨hother, hnew⟩ := List.mem_filter.1 hother
      rwa [← List.inj_on_of_nodup_map hsynced hother hprocess hsame]
    · exact fun hnew => List.mem_map_of_mem (List.mem_filter.2 ⟨hprocess, hnew⟩)
  rw [Function.comp, Bool.eq_false_iff.2 (mt List.contains_iff_mem.1 hnot), Bool.not_false, Bool.and_true]
  exact congrArg not (Bool.eq_iff_iff.2 (List.contains_iff_mem.trans hadded))

/-! ### The sync as a whole -/

section Whole

variable (h : Unique nfc workspace) (hspecs : (specs.map (·.key nfc)).Nodup)
  (hroom : Room nfc workspace specs)
include h hspecs hroom

theorem Unique.nodup_panes :
    ((placed nfc (byKey nfc workspace) (nextId workspace) specs).map (·.id) ++
      (workspace.filter (isGone nfc specs)).map (·.id)).Nodup := by
  refine List.nodup_append.2 ⟨(h.known_byKey hroom).nodup_placed hspecs hroom.nextId_add,
    h.ids.sublist (List.filter_sublist.map _), ?_⟩
  rintro pane hpane pane' hpane' rfl
  obtain ⟨process, hprocess, rfl⟩ := List.mem_map.1 hpane
  obtain ⟨gone, hgone, hid⟩ := List.mem_map.1 hpane'
  obtain ⟨hmem, hisgone⟩ := List.mem_filter.1 hgone
  rcases mem_placed hroom.nextId_add hprocess with ⟨old, hold, heq⟩ | ⟨-, -, hlow, -⟩
  · obtain ⟨hmem', hkey⟩ := h.byKey_eq_some.1 hold
    have hid' : gone.id = old.id := by
      rw [heq] at hid
      exact hid
    have hsame := List.inj_on_of_nodup_map h.ids hmem hmem' hid'
    have hnamed : isGone nfc specs gone = false := by
      rw [isGone_eq_false, hsame, hkey]
      exact isGone_eq_false.1 (isGone_placed hprocess)
    exact Bool.false_ne_true (hnamed.symm.trans hisgone)
  · have hlt := hroom.lt_nextId hmem
    rw [show gone.id = process.id from hid] at hlt
    omega

theorem Unique.isGone_eq_false_iff {old : Process u} (hmem : old ∈ workspace) :
    isGone nfc specs old = false ↔
      old.id ∈ (placed nfc (byKey nfc workspace) (nextId workspace) specs).map (·.id) := by
  constructor
  · intro hnamed
    obtain ⟨spec, hspec, hkey⟩ := List.mem_map.1 (isGone_eq_false.1 hnamed)
    have hfound := h.byKey_eq_some.2 ⟨hmem, hkey.symm⟩
    exact List.mem_map.2 ⟨_, mem_placed_of_known hspec hfound, rfl⟩
  · intro hplaced
    refine Bool.eq_false_iff.2 fun hgone => ?_
    have hdisjoint := (List.nodup_append.1 (h.nodup_panes hspecs hroom)).2.2
    exact hdisjoint _ hplaced _ (List.mem_map_of_mem (List.mem_filter.2 ⟨hmem, hgone⟩)) rfl

theorem Unique.synced (isLive : UInt64 → Bool) :
    Unique nfc (apply nfc workspace specs isLive).workspace := by
  rw [h.apply_eq hspecs]
  constructor
  · have hsub := (List.filter_sublist (p := fun process : Process u => isLive process.id)
      (l := workspace.filter (isGone nfc specs))).map (·.id)
    rw [List.map_append]
    exact (h.nodup_panes hspecs hroom).sublist (hsub.append_left _)
  · rw [List.map_append, map_key_placed]
    refine List.nodup_append.2 ⟨hspecs, ?_, ?_⟩
    · exact h.keys.sublist ((List.filter_sublist.trans List.filter_sublist).map _)
    · rintro key hkey key' hkey' rfl
      obtain ⟨gone, hgone, rfl⟩ := List.mem_map.1 hkey'
      have hisgone := (List.mem_filter.1 (List.mem_filter.1 hgone).1).2
      exact Bool.false_ne_true ((isGone_eq_false.2 hkey).symm.trans hisgone)

theorem Unique.kept_apply (isLive : UInt64 → Bool) :
    (apply nfc workspace specs isLive).kept =
      ((placed nfc (byKey nfc workspace) (nextId workspace) specs).filter
        fun process => !isNew nfc (byKey nfc workspace) process).map (·.id) := by
  have hids := (h.synced hspecs hroom isLive).ids
  rw [kept, h.apply_eq hspecs]
  rw [h.apply_eq hspecs, List.map_append] at hids
  exact filter_kept hids

/-- **The panes are parted.**  The new, the kept, the retiring and the removed ones are the panes placed
and the panes gone, each once. -/
theorem Unique.panes_perm (isLive : UInt64 → Bool) :
    let sync := apply nfc workspace specs isLive
    (sync.added ++ sync.kept ++ (sync.retiring ++ sync.removed)).Perm
      ((placed nfc (byKey nfc workspace) (nextId workspace) specs).map (·.id) ++
        (workspace.filter (isGone nfc specs)).map (·.id)) := by
  intro sync
  have happly := h.apply_eq hspecs isLive
  have hplaced : (sync.added ++ sync.kept).Perm
      ((placed nfc (byKey nfc workspace) (nextId workspace) specs).map (·.id)) := by
    rw [h.kept_apply hspecs hroom isLive, congrArg StackSync.added happly, ← List.map_append]
    exact (List.filter_append_perm _ _).map _
  have hgone : (sync.retiring ++ sync.removed).Perm
      ((workspace.filter (isGone nfc specs)).map (·.id)) := by
    rw [congrArg StackSync.retiring happly, congrArg StackSync.removed happly, ← List.map_append]
    exact (List.filter_append_perm _ _).map _
  exact hplaced.append hgone

/-- A sync again, the retiring ones still live, leaves everything. -/
theorem Unique.apply_apply {isLive isLive' : UInt64 → Bool}
    (hlive : ∀ pane ∈ (apply nfc workspace specs isLive).retiring, isLive' pane = true) :
    let sync := apply nfc workspace specs isLive
    let again := apply nfc sync.workspace specs isLive'
    again.added = [] ∧ again.removed = [] ∧ again.workspace = sync.workspace := by
  intro sync again
  have hunique := h.synced hspecs hroom isLive
  have happly := h.apply_eq hspecs isLive
  have hagain := hunique.apply_eq hspecs isLive'
  have hworkspace : sync.workspace = placed nfc (byKey nfc workspace) (nextId workspace) specs ++
      (workspace.filter (isGone nfc specs)).filter fun process => isLive process.id := by
    show (apply nfc workspace specs isLive).workspace = _
    rw [happly]
  -- Every process placed is found again, and no retiring one is named.
  have hfound : ∀ process ∈ placed nfc (byKey nfc workspace) (nextId workspace) specs,
      byKey nfc sync.workspace (process.key nfc) = some process := by
    intro process hprocess
    refine hunique.byKey_eq_some.2 ⟨?_, rfl⟩
    rw [happly]
    exact List.mem_append_left _ hprocess
  have hplaced : placed nfc (byKey nfc sync.workspace) (nextId sync.workspace) specs =
      placed nfc (byKey nfc workspace) (nextId workspace) specs := by
    have hsame := placed_of_known (nextId sync.workspace) hfound
    rwa [map_spec_placed] at hsame
  have hgone : sync.workspace.filter (isGone nfc specs) =
      (workspace.filter (isGone nfc specs)).filter fun process => isLive process.id := by
    rw [hworkspace, List.filter_append]
    have hnone : (placed nfc (byKey nfc workspace) (nextId workspace) specs).filter (isGone nfc specs) = [] :=
      List.filter_eq_nil_iff.2 fun process hprocess => Bool.eq_false_iff.1 (isGone_placed hprocess)
    have hall : ∀ process ∈ (workspace.filter (isGone nfc specs)).filter fun process => isLive process.id,
        isGone nfc specs process = true := fun process hprocess =>
      (List.mem_filter.1 (List.mem_filter.1 hprocess).1).2
    rw [hnone, List.nil_append, List.filter_eq_self.2 hall]
  have hstill : ∀ process ∈ sync.workspace.filter (isGone nfc specs), isLive' process.id = true := by
    rw [hgone]
    intro process hprocess
    refine hlive process.id ?_
    rw [congrArg StackSync.retiring happly]
    exact List.mem_map_of_mem hprocess
  refine ⟨?_, ?_, ?_⟩
  · rw [congrArg StackSync.added hagain, hplaced]
    refine List.map_eq_nil_iff.2 (List.filter_eq_nil_iff.2 fun process hprocess => ?_)
    rw [isNew, hfound process hprocess]
    exact Bool.false_ne_true
  · rw [congrArg StackSync.removed hagain]
    refine List.map_eq_nil_iff.2 (List.filter_eq_nil_iff.2 fun process hprocess => ?_)
    rw [hstill process hprocess]
    exact Bool.false_ne_true
  · rw [congrArg StackSync.workspace hagain, List.filter_eq_self.2 hstill, hplaced, hgone, hworkspace]

end Whole

/-- **Syncing a workspace to a stack.**  For a workspace with unique panes and names, definitions with unique
names, and ids that leave room for as many more as there are new names: the synced workspace is unique
again; it lists the definitions in their order, each known name on its pane and in its state, each new one
waiting on a pane the old workspace had not, and then the retiring ones in their old order; the added, kept,
retiring and removed panes are all those of both workspaces, each once; retiring are exactly the live ones
no longer named; and a sync again, with the retiring ones still live, changes nothing. -/
theorem sync_correct (h : Unique nfc workspace) (hspecs : (specs.map (·.key nfc)).Nodup)
    (hroom : Room nfc workspace specs) (isLive : UInt64 → Bool) :
    let sync := apply nfc workspace specs isLive
    let isRetiring (process : Process u) := isGone nfc specs process && isLive process.id
    Unique nfc sync.workspace ∧
    (∃ listed, sync.workspace = listed ++ workspace.filter isRetiring ∧ listed.map (·.spec) = specs ∧
      ∀ process ∈ listed,
        (∃ old ∈ workspace, old.key nfc = process.key nfc ∧ process = { old with spec := process.spec }) ∨
        (∀ old ∈ workspace, old.key nfc ≠ process.key nfc ∧ old.id ≠ process.id) ∧
          process.state = .pending ∧ process.id ∈ sync.added) ∧
    (sync.added ++ sync.kept ++ (sync.retiring ++ sync.removed)).Nodup ∧
    (∀ pane, pane ∈ sync.added ++ sync.kept ++ (sync.retiring ++ sync.removed) ↔
      pane ∈ workspace.map (·.id) ∨ pane ∈ sync.workspace.map (·.id)) ∧
    sync.retiring = (workspace.filter isRetiring).map (·.id) ∧
    ∀ isLive', (∀ pane ∈ sync.retiring, isLive' pane = true) →
      let again := apply nfc sync.workspace specs isLive'
      again.added = [] ∧ again.removed = [] ∧ again.workspace = sync.workspace := by
  intro sync isRetiring
  have happly := h.apply_eq hspecs isLive
  have hperm := h.panes_perm hspecs hroom isLive
  have hfilter : (workspace.filter (isGone nfc specs)).filter (fun process => isLive process.id) =
      workspace.filter isRetiring := by
    rw [List.filter_filter]
    exact List.filter_congr fun process _ => Bool.and_comm _ _
  have hretiring : sync.retiring = (workspace.filter isRetiring).map (·.id) := by
    rw [← hfilter]
    exact congrArg StackSync.retiring happly
  have hworkspace : sync.workspace =
      placed nfc (byKey nfc workspace) (nextId workspace) specs ++ workspace.filter isRetiring := by
    rw [← hfilter]
    exact congrArg StackSync.workspace happly
  refine ⟨h.synced hspecs hroom isLive, ⟨_, hworkspace, map_spec_placed, fun process hprocess => ?_⟩,
    hperm.nodup_iff.2 (h.nodup_panes hspecs hroom), fun pane => ?_, hretiring,
    fun isLive' hlive => h.apply_apply hspecs hroom hlive⟩
  · rcases mem_placed hroom.nextId_add hprocess with ⟨old, hold, heq⟩ | ⟨hnone, hstate, hlow, -⟩
    · obtain ⟨hmem, hkey⟩ := h.byKey_eq_some.1 hold
      exact .inl ⟨old, hmem, hkey, heq⟩
    · refine .inr ⟨fun old hmem => ⟨fun hkey => ?_, fun hid => ?_⟩, hstate, ?_⟩
      · exact byKey_eq_none.1 hnone (hkey ▸ List.mem_map_of_mem hmem)
      · have hlt := hroom.lt_nextId hmem
        rw [hid] at hlt
        omega
      · rw [congrArg StackSync.added happly]
        exact List.mem_map_of_mem (List.mem_filter.2 ⟨hprocess, Option.isNone_iff_eq_none.2 hnone⟩)
  · rw [hperm.mem_iff, hworkspace, List.mem_append, List.map_append, List.mem_append]
    constructor
    · rintro (hplaced | hgone)
      · exact .inr (.inl hplaced)
      · exact .inl ((List.filter_sublist.map _).subset hgone)
    · rintro (hold | hplaced | hgone)
      · obtain ⟨old, hmem, rfl⟩ := List.mem_map.1 hold
        cases hisgone : isGone nfc specs old with
        | true => exact .inr (List.mem_map_of_mem (List.mem_filter.2 ⟨hmem, hisgone⟩))
        | false => exact .inl ((h.isGone_eq_false_iff hspecs hroom hmem).1 hisgone)
      · exact .inl hplaced
      · rw [← hfilter] at hgone
        exact .inr ((List.filter_sublist.map _).subset hgone)

/-- A workspace of two, one of which stays named. -/
theorem sync_correct_of_two :
    let workspace : List (Process plainTables) := [⟨0, .running, lettered 'a'⟩, ⟨1, .running, lettered 'b'⟩]
    Unique id (apply id workspace [lettered 'c', lettered 'a'] fun _ => true).workspace := by
  intro workspace
  have hunique : Unique id workspace := ⟨by decide, by decide⟩
  have hroom : Room id workspace [lettered 'c', lettered 'a'] := ⟨by decide, by decide⟩
  exact (sync_correct hunique (by decide) hroom fun _ => true).1

/-- **Ids run out.**  Past the highest pane id counting wraps and the highest is left out of account, so a
new process is given a pane that is in use. -/
theorem sync_repeats_pane :
    let workspace : List (Process plainTables) :=
      [⟨0xffffffffffffffff, .running, lettered 'a'⟩, ⟨0xfffffffffffffffd, .running, lettered 'b'⟩]
    let sync := apply id workspace [lettered 'c', lettered 'd'] fun _ => true
    Unique id workspace ∧ ([lettered 'c', lettered 'd'].map (·.key id)).Nodup ∧
      ¬ (sync.workspace.map (·.id)).Nodup := by
  exact ⟨⟨by decide +kernel, by decide +kernel⟩, by decide +kernel, by decide +kernel⟩

/-! ### The supervisor's rows -/

section Rows

variable {row : ProcessSpec u → Supervisor.ProcessSpec} {s : Supervisor}

/-- The supervisor `s` shows a workspace: its panes in their order, each with its definition as `row` reads
it and its state. -/
structure Rows (row : ProcessSpec u → Supervisor.ProcessSpec) (s : Supervisor)
    (workspace : List (Process u)) : Prop where
  order : s.order = workspace.map (·.id.toNat)
  process : ∀ process ∈ workspace,
    (s.slots process.id.toNat).process = some ⟨row process.spec, process.state⟩

def stackRow (nfc : Text → Text) (row : ProcessSpec u → Supervisor.ProcessSpec)
    (known : Text → Option (Process u)) (process : Process u) : Supervisor.StackRow :=
  ⟨process.id.toNat, row process.spec, !isNew nfc known process⟩

theorem find?_erase_of_neg {p : ℕ → Bool} {pane : ℕ} (h : p pane = false) (panes : List ℕ) :
    (panes.erase pane).find? p = panes.find? p := by
  induction panes with
  | nil => rfl
  | cons other panes ih =>
    by_cases heq : other = pane
    · rw [heq, List.erase_cons_head, List.find?_cons_of_neg (by simp [h])]
    · rw [List.erase_cons_tail (by simpa using heq), List.find?_cons, List.find?_cons, ih]

theorem syncRows_eq_placed
    (hrow : ∀ spec other, (row spec).name.key = (row other).name.key → spec.key nfc = other.key nfc)
    {heads : List ℕ} (hspecs : (specs.map (·.key nfc)).Nodup)
    (hroom : next.toNat + newNames nfc known specs < 2 ^ 64)
    (hheads : ∀ spec ∈ specs, heads.find? (s.isNamed · (row spec).name) =
      (known (spec.key nfc)).map (·.id.toNat)) :
    s.syncRows (specs.map row) heads next.toNat =
      (placed nfc known next specs).map (stackRow nfc row known) := by
  induction specs generalizing heads next with
  | nil => rfl
  | cons spec specs ih =>
    rw [List.map_cons, List.nodup_cons] at hspecs
    have hhead := hheads spec List.mem_cons_self
    have hrest := fun other hother => hheads other (List.mem_cons_of_mem _ hother)
    rw [List.map_cons, Supervisor.syncRows]
    cases hfound : known (spec.key nfc) with
    | some old =>
      rw [newNames_of_some hfound] at hroom
      rw [hfound, Option.map_some] at hhead
      have hnamed : s.isNamed old.id.toNat (row spec).name = true :=
        List.find?_some (p := (s.isNamed · (row spec).name)) hhead
      -- The pane taken has no other name of the list.
      have herase : ∀ other ∈ specs, s.isNamed old.id.toNat (row other).name = false := by
        intro other hother
        refine Bool.eq_false_iff.2 fun hother' => hspecs.1 ?_
        obtain ⟨process, hprocess, hkey⟩ := (Option.any_eq_true _ _).1 hnamed
        obtain ⟨process', hprocess', hkey'⟩ := (Option.any_eq_true _ _).1 hother'
        cases hprocess.symm.trans hprocess'
        rw [hrow spec other ((of_decide_eq_true hkey).symm.trans (of_decide_eq_true hkey'))]
        exact List.mem_map_of_mem hother
      rw [hhead, placed_cons_of_some hfound, List.map_cons]
      dsimp only
      rw [ih hspecs.2 hroom fun other hother => by
        rw [find?_erase_of_neg (herase other hother), hrest other hother]]
      simp [stackRow, isNew, Process.key, hfound]
    | none =>
      rw [newNames_of_none hfound] at hroom
      rw [hfound, Option.map_none] at hhead
      rw [hhead, placed_cons_of_none hfound, List.map_cons]
      dsimp only
      rw [← toNat_add_one (by omega),
        ih hspecs.2 (by rw [toNat_add_one (by omega)]; omega) hrest]
      simp [stackRow, isNew, Process.key, ProcessSpec.toProcess, hfound]

section Synced

variable (hrow : ∀ spec other, (row spec).name.key = (row other).name.key ↔ spec.key nfc = other.key nfc)
  (h : Rows row s workspace) (hunique : Unique nfc workspace)
include hrow h

theorem Rows.find?_order (spec : ProcessSpec u) : s.order.find? (s.isNamed · (row spec).name) =
    (byKey nfc workspace (spec.key nfc)).map (·.id.toNat) := by
  rw [h.order, List.find?_map, byKey_eq]
  refine congrArg _ (List.find?_congr fun process hprocess => ?_)
  rw [Function.comp, Supervisor.isNamed, h.process process hprocess]
  exact decide_eq_decide.2 (hrow _ _)

include hunique

theorem Rows.heads_eq : s.heads = s.order := by
  refine List.filter_eq_self.2 fun pane hpane => ?_
  rw [h.order] at hpane
  obtain ⟨process, hprocess, rfl⟩ := List.mem_map.1 hpane
  have hpane := h.find?_order hrow process.spec
  rw [show byKey nfc workspace (process.spec.key nfc) = _ from
    hunique.byKey_eq_some.2 ⟨hprocess, rfl⟩] at hpane
  simp [h.process process hprocess, Supervisor.paneNamed, hpane]

omit hrow hunique in
theorem Rows.nextPane_eq (hroom : Room nfc workspace specs) : s.nextPane = (nextId workspace).toNat := by
  have hids : (workspace.map (·.id + 1)).map UInt64.toNat = s.order.map (· + 1) := by
    rw [h.order, List.map_map, List.map_map]
    refine List.map_congr_left fun process hprocess => toNat_add_one ?_
    have := hroom.below process hprocess
    omega
  rw [Supervisor.nextPane, ← hids, ← List.foldl_eq_foldr, List.foldl_map, nextId]
  show List.foldl _ (UInt64.toNat 0) _ = _
  exact List.foldl_hom UInt64.toNat fun a b => (toNat_max a b).symm

variable (hspecs : (specs.map (·.key nfc)).Nodup) (hroom : Room nfc workspace specs)
include hspecs hroom

theorem Rows.syncRows_eq : s.syncRows (specs.map row) s.heads s.nextPane =
    (placed nfc (byKey nfc workspace) (nextId workspace) specs).map
      (stackRow nfc row (byKey nfc workspace)) := by
  rw [h.heads_eq hrow hunique, h.nextPane_eq hroom]
  exact syncRows_eq_placed (fun spec other => (hrow spec other).1) hspecs hroom.nextId_add
    fun spec _ => h.find?_order hrow spec

theorem Rows.rowOf_placed {process : Process u}
    (hprocess : process ∈ placed nfc (byKey nfc workspace) (nextId workspace) specs) :
    Supervisor.rowOf (s.syncRows (specs.map row) s.heads s.nextPane) process.id.toNat =
      some (stackRow nfc row (byKey nfc workspace) process) := by
  have hids := (List.nodup_append.1 (hunique.nodup_panes hspecs hroom)).1
  have hpanes : ((placed nfc (byKey nfc workspace) (nextId workspace) specs).map (·.id.toNat)).Nodup := by
    have := hids.map fun a b => UInt64.toNat_inj.1
    rwa [List.map_map] at this
  rw [Supervisor.rowOf, h.syncRows_eq hrow hunique hspecs hroom, List.find?_map]
  exact congrArg (Option.map _) (find?_of_nodup_map hpanes hprocess)

theorem Rows.rowOf_isNone {process : Process u} (hmem : process ∈ workspace) :
    (Supervisor.rowOf (s.syncRows (specs.map row) s.heads s.nextPane) process.id.toNat).isNone =
      isGone nfc specs process := by
  cases hgone : isGone nfc specs process with
  | false =>
    obtain ⟨new, hnew, hid⟩ := List.mem_map.1 ((hunique.isGone_eq_false_iff hspecs hroom hmem).1 hgone)
    rw [← hid, h.rowOf_placed hrow hunique hspecs hroom hnew]
    rfl
  | true =>
    refine Option.isNone_iff_eq_none.2 (List.find?_eq_none.2 fun new hnew hid => ?_)
    rw [h.syncRows_eq hrow hunique hspecs hroom] at hnew
    obtain ⟨new, hplace, rfl⟩ := List.mem_map.1 hnew
    have hid : process.id = new.id := UInt64.toNat_inj.1 (of_decide_eq_true hid).symm
    rw [(hunique.isGone_eq_false_iff hspecs hroom hmem).2 (hid ▸ List.mem_map_of_mem hplace)] at hgone
    cases hgone

/-- **The supervisor syncs as the configuration does.**  While there is room, the supervisor over the new stack
shows the synced workspace, a pane being live while it holds a process. -/
theorem Rows.sync :
    Rows row (s.sync (specs.map row) (s.syncRows (specs.map row) s.heads s.nextPane))
      (apply nfc workspace specs fun pane => (s.slots pane.toNat).holdsProcess).workspace := by
  rw [hunique.apply_eq hspecs]
  constructor
  · have hretiring : (workspace.filter (isGone nfc specs)).filter
        (fun process => (s.slots process.id.toNat).holdsProcess) =
        workspace.filter fun process =>
          (Supervisor.rowOf (s.syncRows (specs.map row) s.heads s.nextPane) process.id.toNat).isNone &&
            (s.slots process.id.toNat).holdsProcess := by
      rw [List.filter_filter]
      refine List.filter_congr fun process hprocess => ?_
      rw [h.rowOf_isNone hrow hunique hspecs hroom hprocess, Bool.and_comm]
    dsimp only [Supervisor.sync]
    rw [List.map_append, hretiring, h.order, List.filter_map, h.syncRows_eq hrow hunique hspecs hroom,
      List.map_map]
    rfl
  · intro process hprocess
    dsimp only [Supervisor.sync, Supervisor.syncSlot]
    rcases List.mem_append.1 hprocess with hprocess | hretiring
    · rw [h.rowOf_placed hrow hunique hspecs hroom hprocess]
      rcases mem_placed hroom.nextId_add hprocess with ⟨old, hold, heq⟩ | ⟨hnone, hstate, -, -⟩
      · have hslot := h.process old (hunique.byKey_eq_some.1 hold).1
        rw [show old.id = process.id from (congrArg Process.id heq).symm,
          show old.state = process.state from (congrArg Process.state heq).symm] at hslot
        simp [stackRow, isNew, hold, hslot]
      · simp [stackRow, isNew, hnone, hstate, Supervisor.ProcessSpec.toProcess]
    · obtain ⟨hretiring, hlive⟩ := List.mem_filter.1 hretiring
      obtain ⟨hmem, hisgone⟩ := List.mem_filter.1 hretiring
      have hnone := h.rowOf_isNone hrow hunique hspecs hroom hmem
      rw [hisgone, Option.isNone_iff_eq_none] at hnone
      rw [hnone]
      dsimp only
      rw [if_pos (h.order ▸ List.mem_map_of_mem hmem), if_pos hlive]
      exact h.process process hmem

end Synced

end Rows

end StackSync

end Muster.Config
