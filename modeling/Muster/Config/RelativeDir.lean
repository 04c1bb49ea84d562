import Mathlib.Data.List.Infix
import Muster.Config.Spec

/-!
# RelativeDir — working directories that stay under the root

The check counts how deep the components have gone and refuses a step up from depth zero.  Resolving a
joined path takes components off its end at each step up; a directory the check accepts only ever takes off
what it put there itself, so the root is left standing at every prefix (`resolveFrom_append`).
-/

namespace Muster.Config

open Terminal (Unicode)

namespace PathBuf

/-- Components that lead above where they start: more steps up than names. -/
def Climbs (components : List Component) : Prop :=
  components.countP (· != .parentDir) < components.count .parentDir

/-- The folder names after one more component: a parent component removes the one before it. -/
def resolveStep (names : List OsString) : Component → List OsString
  | .parentDir => names.dropLast
  | .normal name => names ++ [name]

def resolveFrom (names : List OsString) (components : List Component) : List OsString :=
  components.foldl resolveStep names

def resolve (path : PathBuf) : PathBuf := ⟨path.start, (resolveFrom [] path.rest).map .normal⟩

theorem forall_prefix_cons {component : Component} {rest : List Component} {P : List Component → Prop} :
    (∀ before, before <+: component :: rest → P before) ↔
      P [] ∧ ∀ before, before <+: rest → P (component :: before) := by
  simp only [List.prefix_cons_iff, forall_eq_or_imp, forall_exists_index, and_imp]
  refine and_congr_right fun _ => ⟨fun h before => h _ before rfl, ?_⟩
  rintro h _ before rfl
  exact h before

variable {components : List Component}

/-- From `depth` folders down, no prefix takes more than `depth` steps up beyond its names. -/
theorem staysFrom_iff {depth : ℕ} : staysFrom depth components = true ↔
    ∀ before, before <+: components →
      before.count .parentDir ≤ depth + before.countP (· != .parentDir) := by
  induction components generalizing depth with
  | nil =>
    refine ⟨fun _ before hbefore => ?_, fun _ => rfl⟩
    rw [List.prefix_nil.1 hbefore]
    exact Nat.zero_le _
  | cons component rest ih =>
    rw [forall_prefix_cons]
    cases component with
    | normal name =>
      rw [staysFrom, ih, List.count_nil, and_iff_right (Nat.zero_le _)]
      refine forall₂_congr fun before _ => ?_
      have hname : Component.normal name ≠ .parentDir := nofun
      have hcounted : (before.cons (.normal name)).countP (· != .parentDir) =
          before.countP (· != .parentDir) + 1 :=
        List.countP_cons_of_pos (bne_iff_ne.2 hname)
      rw [List.count_cons_of_ne hname, hcounted]
      omega
    | parentDir =>
      have hcount : ∀ before : List Component, (.parentDir :: before).count .parentDir ≤
          depth + (.parentDir :: before).countP (· != .parentDir) ↔
            before.count .parentDir + 1 ≤ depth + before.countP (· != .parentDir) := by
        intro before
        rw [List.count_cons_self, List.countP_cons_of_neg (by decide)]
      cases depth with
      | zero =>
        -- the step up on its own is above the start
        refine iff_of_false Bool.false_ne_true fun h => ?_
        exact absurd ((hcount []).1 (h.2 [] List.nil_prefix)) (by decide)
      | succ depth =>
        rw [staysFrom, ih, List.count_nil, and_iff_right (Nat.zero_le _)]
        refine forall₂_congr fun before _ => ?_
        rw [hcount]
        omega

/-- What a directory put under `base` never takes off any of it. -/
theorem resolveFrom_append {depth : ℕ} (h : staysFrom depth components = true)
    (base : List OsString) {names : List OsString} (hnames : names.length = depth) :
    resolveFrom (base ++ names) components = base ++ resolveFrom names components := by
  induction components generalizing depth names with
  | nil => rfl
  | cons component rest ih =>
    cases component with
    | normal name =>
      rw [resolveFrom, List.foldl_cons, resolveStep, List.append_assoc]
      exact ih h (by rw [List.length_append, hnames]; rfl)
    | parentDir =>
      cases depth with
      | zero => exact absurd h Bool.false_ne_true
      | succ depth =>
        have hne : names ≠ [] := List.ne_nil_of_length_eq_add_one hnames
        rw [resolveFrom, List.foldl_cons, resolveStep, List.dropLast_append_of_ne_nil hne]
        exact ih h (by rw [List.length_dropLast, hnames]; rfl)

theorem staysFrom_of_prefix {depth : ℕ} {before : List Component}
    (h : staysFrom depth components = true) (hbefore : before <+: components) :
    staysFrom depth before = true :=
  staysFrom_iff.2 fun inner hinner => staysFrom_iff.1 h inner (hinner.trans hbefore)

theorem resolveFrom_of_names (h : .parentDir ∉ components) (names : List OsString) :
    (resolveFrom names components).map Component.normal = names.map .normal ++ components := by
  induction components generalizing names with
  | nil => exact (List.append_nil _).symm
  | cons component rest ih =>
    cases component with
    | normal name =>
      rw [resolveFrom, List.foldl_cons, resolveStep]
      refine (ih (fun hmem => h (List.mem_cons_of_mem _ hmem)) _).trans ?_
      rw [List.map_append, List.append_assoc]
      rfl
    | parentDir => exact absurd List.mem_cons_self h

end PathBuf

def ProjectRoot.resolved (root : ProjectRoot) : ProjectRoot := ⟨root.path.resolve, root.absolute⟩

theorem ProjectRoot.resolved_of_names {root : ProjectRoot} (h : .parentDir ∉ root.path.rest) :
    root.resolved = root := by
  obtain ⟨path, habsolute⟩ := root
  have hrest := PathBuf.resolveFrom_of_names h []
  exact ProjectRoot.mk.injEq .. |>.mpr (congrArg (PathBuf.mk path.start) hrest)

/-- Joined to a root, what stays under it resolves to the root or below it. -/
theorem ProjectRoot.resolved_contains_join (root : ProjectRoot) {start : Start} (hstart : start ≠ .root)
    {components : List Component} (h : PathBuf.staysFrom 0 components = true) :
    root.resolved.contains (root.path.join ⟨start, components⟩).resolve = true := by
  have hjoin : root.path.join ⟨start, components⟩ = ⟨root.path.start, root.path.rest ++ components⟩ :=
    if_neg (by rw [PathBuf.isAbsolute, decide_eq_true_eq]; exact hstart)
  have hnames : PathBuf.resolveFrom [] (root.path.rest ++ components) =
      PathBuf.resolveFrom [] root.path.rest ++ PathBuf.resolveFrom [] components := by
    have hsplit := PathBuf.resolveFrom_append h (PathBuf.resolveFrom [] root.path.rest) (List.length_nil)
    rw [List.append_nil] at hsplit
    rw [← hsplit, PathBuf.resolveFrom, List.foldl_append]
    rfl
  rw [contains, Bool.and_eq_true, decide_eq_true_eq, hjoin, List.isPrefixOf_iff_prefix]
  refine ⟨root.absolute, ?_⟩
  show (PathBuf.resolveFrom [] root.path.rest).map Component.normal <+:
    (PathBuf.resolveFrom [] (root.path.rest ++ components)).map Component.normal
  rw [hnames, List.map_append]
  exact List.prefix_append ..

/-- A directory is accepted exactly when it is relative and none of its prefixes climbs above its start.
The launch directory of one that is accepted, and what each of its prefixes names under the root, resolve to
the root or below it. -/
theorem working_dirs_stay_under_root (dir : PathBuf) :
    (dir.staysUnderRoot = true ↔
      dir.isAbsolute = false ∧ ∀ before, before <+: dir.rest → ¬ PathBuf.Climbs before) ∧
    (dir.staysUnderRoot = true → ∀ (u : Unicode) (spec : ProcessSpec u) (root : ProjectRoot),
      spec.workingDir = some dir →
        (spec.launchDir root = if dir.isEmpty then .error ⟨spec.name, dir⟩ else .ok (root.path.join dir)) ∧
        root.resolved.contains (root.path.join dir).resolve = true ∧
        (∀ before, before <+: dir.rest →
          root.resolved.contains (root.path.join ⟨dir.start, before⟩).resolve = true) ∧
        (.parentDir ∉ root.path.rest → root.resolved = root)) := by
  refine ⟨?_, fun h u spec root hdir => ?_⟩
  · rw [PathBuf.staysUnderRoot, Bool.and_eq_true, decide_eq_true_eq, PathBuf.isAbsolute,
      decide_eq_false_iff_not, PathBuf.staysFrom_iff]
    refine and_congr_right fun _ => forall₂_congr fun before _ => ?_
    rw [Nat.zero_add, PathBuf.Climbs, Nat.not_lt]
  · rw [PathBuf.staysUnderRoot, Bool.and_eq_true, decide_eq_true_eq] at h
    obtain ⟨hstart, hstays⟩ := h
    refine ⟨?_, root.resolved_contains_join hstart hstays, fun before hbefore => ?_, root.resolved_of_names⟩
    · have haccepted : dir.staysUnderRoot = true := by
        rw [PathBuf.staysUnderRoot, hstays, Bool.and_true, decide_eq_true_eq]
        exact hstart
      rw [ProcessSpec.launchDir, ProcessSpec.unconfinedDir, hdir, Option.bind_some, haccepted,
        Bool.or_true, Bool.and_true]
      cases dir.isEmpty <;> rfl
    · exact root.resolved_contains_join hstart (PathBuf.staysFrom_of_prefix hstays hbefore)

/-- "a/../b" under "/p". -/
theorem working_dirs_stay_under_root_of_detour :
    let dir : PathBuf := ⟨.bare, [.normal [97], .parentDir, .normal [98]]⟩
    let root : ProjectRoot := ⟨⟨.root, [.normal [112]]⟩, rfl⟩
    let spec := { lettered 'a' with workingDir := some dir }
    dir.staysUnderRoot = true ∧
      (∀ before, before <+: dir.rest →
        root.resolved.contains (root.path.join ⟨dir.start, before⟩).resolve = true) ∧
      spec.launchDir root = .ok ⟨.root, [.normal [112], .normal [97], .parentDir, .normal [98]]⟩ := by
  intro dir root spec
  obtain ⟨hlaunch, -, hprefixes, -⟩ := (working_dirs_stay_under_root dir).2 (by decide) _ spec root rfl
  exact ⟨by decide, hprefixes, hlaunch⟩

end Muster.Config
