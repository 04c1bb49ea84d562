import Muster.Config.StackRows

/-!
# StackFile — a stack written to a file and read back

An export writes every definition of a stack as an entry, with its working directory relative to the
project's root; an import reads every entry through the checks a new definition is held to, and refuses
the file at the first entry it cannot read.  The YAML in between is given by what writes it and what
reads it, with the one assumption that what was written is read as it was.

An export does not check its entries as an import does.  A definition may be stored with more ports than
one may declare, and with a regular expression that does not compile; the file an export writes for such
a definition is refused.  A file of other definitions reads back as they are stored, launched where they
were.
-/

namespace Muster.Config

open Terminal (Unicode)
open Supervisor (RestartPolicy)

variable {u : Unicode} {check : ReadyCheck} {dir : PathBuf} {root : ProjectRoot}
  {spec : ProcessSpec u} {stored : List (ProcessSpec u)}

/-! ### Entries -/

structure StopEntry where
  signal : StopSignal
  gracePeriod : ℕ
deriving DecidableEq, Repr

/-- A readiness check as the file writes it: one of a log pattern, a port and an address, and a timeout. -/
structure ReadyEntry where
  log : Option Text
  regex : Option Bool
  port : Option ℕ
  http : Option Text
  timeout : ℕ
deriving DecidableEq, Repr

/-- One process of a stack file.  A variable without a value is a placeholder to be filled in. -/
structure ProcessEntry where
  name : Text
  command : Text
  workingDir : Option PathBuf
  description : Option Text
  environment : Option (SortedMap Text (Option Text))
  autostart : Bool
  restart : RestartPolicy
  stop : StopEntry
  ready : Option ReadyEntry
  ports : Option (List ℕ)
deriving DecidableEq

structure StackFile where
  version : ℕ
  processes : List ProcessEntry
deriving DecidableEq

def stackFileVersion : ℕ := 1

def stackFileHeader : String := "# muster stack: `muster import` loads it into a project.\n"

/-! ### Errors -/

inductive NameProblem where
  | empty | unsafeCharacter
deriving DecidableEq, Repr

inductive EntryError where
  | shape (reason : String)
  | invalidName (problem : NameProblem)
  | emptyCommand
  | tooLong (field : String) (max found : ℕ)
  | emptyWorkingDir
  | workingDirOutsideRoot (dir : PathBuf)
  | emptyDescription
  | invalidEnvName (name : Text)
  | invalidEnvValue (name : Text)
  | missingEnvValue (name : Text)
  | invalidReady (reason : String)
  | invalidPort (port : ℕ)
  | repeatedPort (port : LocalPort)
  | tooManyPorts (found : ℕ)
  | graceOutOfRange
  | duplicateName
deriving DecidableEq

inductive ExchangeError (u : Unicode) where
  | malformed (reason : String)
  | unsupportedVersion (found : ℕ)
  | entry (index : ℕ) (name : Option Text) (source : EntryError)
  | unexportable (name : ProcessName u) (source : EntryError)
  | render (reason : String)
deriving DecidableEq

/-! ### Entries of definitions -/

def ReadyEntry.of (check : ReadyCheck) : ReadyEntry :=
  let timeout := check.timeout.value
  match check.probe with
  | .log pattern =>
    ⟨some pattern.text.value, if pattern.kind = .regex then some true else none, none, none, timeout⟩
  | .port number => ⟨none, none, some number.value, none, timeout⟩
  | .http url => ⟨none, none, none, some url.value, timeout⟩

def environmentEntry (environment : Environment) : Option (SortedMap Text (Option Text)) :=
  if environment.entries.isEmpty then none
  else some (.of (environment.entries.map fun var => (var.1.value, some var.2.value)))

def ProcessEntry.of (spec : ProcessSpec u) : ProcessEntry where
  name := spec.name.value
  command := spec.command.value
  workingDir := spec.workingDir
  description := spec.description.map (·.value)
  environment := environmentEntry spec.environment
  autostart := spec.autostart
  restart := spec.restart
  stop := ⟨spec.stop.signal, spec.stop.gracePeriod.value⟩
  ready := spec.ready.map .of
  ports := if spec.ports.entries.isEmpty then none else some (spec.ports.keys.map (·.value))

/-- Reads an entry's working directory: not empty, relative to the root, and never above it. -/
def workingDirOf (dir : PathBuf) : Except EntryError PathBuf :=
  if dir.isEmpty then .error .emptyWorkingDir
  else if !dir.staysUnderRoot then .error (.workingDirOutsideRoot dir)
  else .ok dir

/-- A working directory as an import into `root` reads it: left out when it is the root. -/
def relativeDir (root : ProjectRoot) : Option PathBuf → Except EntryError (Option PathBuf)
  | none => .ok none
  | some dir =>
    if dir.isAbsolute then
      match root.relative dir with
      | some inside => if inside.isEmpty then .ok none else some <$> workingDirOf inside
      | none => .error (.workingDirOutsideRoot dir)
    else some <$> workingDirOf dir

def ProcessEntry.relativeTo (entry : ProcessEntry) (root : ProjectRoot) : Except EntryError ProcessEntry :=
  (relativeDir root entry.workingDir).map fun workingDir => { entry with workingDir }

def ProcessEntry.withoutEnvValues (entry : ProcessEntry) : ProcessEntry :=
  { entry with environment := entry.environment.map fun vars => .of (vars.keys.map fun name => (name, none)) }

/-! ### Reading an entry -/

/-- A field read through its own check, when the file has it. -/
def transpose {α β : Type} (read : α → Except EntryError β) : Option α → Except EntryError (Option β)
  | some raw => some <$> read raw
  | none => .ok none

def okOr {ε α : Type} (error : ε) : Option α → Except ε α
  | some value => .ok value
  | none => .error error

def addPort (seen : DeclaredPorts) (port : ℕ) : Except EntryError DeclaredPorts :=
  match Newtype.tryNew _ port with
  | none => .error (.invalidPort port)
  | some number => if seen.contains number then .error (.repeatedPort number) else .ok (seen.insert number ())

def checkPorts (ports : DeclaredPorts) : Except EntryError DeclaredPorts :=
  if declaredPortsMax < ports.length then .error (.tooManyPorts ports.length) else .ok ports

def declaredPorts (raw : List ℕ) : Except EntryError DeclaredPorts :=
  raw.foldlM addPort .empty >>= checkPorts

def processName (raw : Text) : Except EntryError (ProcessName u) :=
  okOr (.invalidName (if raw.trim.isEmpty then .empty else .unsafeCharacter)) (Newtype.tryNew _ raw)

/-- Reads text that is trimmed and bounded: an empty one and a long one are refused apart. -/
def boundedText (field : String) (max : ℕ) (empty : EntryError) (raw : Text) :
    Except EntryError (Newtype (trimmedUpTo max)) :=
  okOr (if raw.trim.isEmpty then empty else .tooLong field max raw.trim.length) (Newtype.tryNew _ raw)

def commandOf : Text → Except EntryError CommandLine := boundedText "command" commandMaxChars .emptyCommand

def descriptionOf : Text → Except EntryError Description :=
  boundedText "description" descriptionMaxChars .emptyDescription

def variableOf (var : Text × Option Text) : Except EntryError (EnvName × EnvValue) := do
  let name ← okOr (.invalidEnvName var.1) (Newtype.tryNew _ var.1)
  let value ← okOr (.missingEnvValue var.1) var.2
  let value ← okOr (.invalidEnvValue var.1) (Newtype.tryNew _ value)
  return (name, value)

/-- What a regular expression's engine says of a pattern: nothing when it compiles, or why it does not. -/
abbrev Engine := Text → Except String Unit

def compile (engine : Engine) (pattern : LogPattern) : Except String Unit :=
  match pattern.kind with
  | .substring => .ok ()
  | .regex => (engine pattern.text.value).mapError fun reason =>
    s!"'{String.ofList pattern.text.value}' is not a usable regex: {reason}"

/-- The pattern `text` as `kind`, checked by compiling it. -/
def checkedPattern (engine : Engine) (text : Text) (kind : PatternKind) : Except String LogPattern := do
  let pattern ← okOr s!"'{String.ofList text}' is not a valid pattern; pass 1 to {patternMaxChars} characters"
    (Newtype.tryNew _ text)
  compile engine ⟨pattern, kind⟩
  return ⟨pattern, kind⟩

def probeOf (engine : Engine) (entry : ReadyEntry) : Except String ReadyProbe :=
  match entry.log, entry.port, entry.http with
  | some text, none, none =>
    .log <$> checkedPattern engine text (if entry.regex.getD false then .regex else .substring)
  | none, some port, none => .port <$> okOr "port must be a port from 1 to 65535" (Newtype.tryNew _ port)
  | none, none, some url =>
    .http <$> okOr s!"expected an http URL on localhost, 127.0.0.1 or [::1], got '{String.ofList url}'"
      (Newtype.tryNew _ url)
  | _, _, _ => .error "name exactly one of log, port or http"

def readyOf (engine : Engine) (entry : ReadyEntry) : Except EntryError ReadyCheck :=
  if entry.regex.isSome && entry.log.isNone then .error (.invalidReady "regex goes only with log")
  else do
    let probe ← (probeOf engine entry).mapError .invalidReady
    let timeout ← okOr (.invalidReady "timeout must be longer than zero, in whole milliseconds")
      (Newtype.tryNew _ entry.timeout)
    return ⟨probe, timeout⟩

def ProcessEntry.toSpec (engine : Engine) (entry : ProcessEntry) : Except EntryError (ProcessSpec u) := do
  let vars ← (entry.environment.getD .empty).entries.mapM variableOf
  let name ← processName entry.name
  let command ← commandOf entry.command
  let workingDir ← transpose workingDirOf entry.workingDir
  let description ← transpose descriptionOf entry.description
  let gracePeriod ← okOr .graceOutOfRange (Newtype.tryNew _ entry.stop.gracePeriod)
  let ready ← transpose (readyOf engine) entry.ready
  let ports ← declaredPorts (entry.ports.getD [])
  return {
    name
    command
    workingDir
    description
    environment := .of vars
    autostart := entry.autostart
    restart := entry.restart
    stop := ⟨entry.stop.signal, gracePeriod⟩
    ready
    ports }

/-! ### Files -/

/-- An entry before its shape is read: its name, when it has one, and what its shape gives. -/
structure RawEntry where
  name : Option Text
  entry : Except String ProcessEntry

/-- A parsed document: its version, when it has one, which may be no number, and what its shape gives. -/
structure Document where
  version : Option (Option ℕ)
  processes : Except String (List RawEntry)

def Document.of (file : StackFile) : Document where
  version := some (some file.version)
  processes := .ok (file.processes.map fun entry => ⟨some entry.name, .ok entry⟩)

/-- What writes and reads YAML, with `δ` for its text: a file that was written, under a comment, parses as
it was. -/
structure Yaml (δ : Type) where
  render : StackFile → Except String δ
  commented : String → δ → δ
  parse : δ → Except String Document
  parse_render : ∀ {file body} (comment : String), render file = .ok body →
    parse (commented comment body) = .ok (.of file)

def checkVersion (document : Document) : Except (ExchangeError u) Unit :=
  match document.version with
  | some (some found) => if found = stackFileVersion then .ok () else .error (.unsupportedVersion found)
  | some none => .error (.malformed "version must be 1")
  | none => .ok ()

section Reading

variable (engine : Engine) (nfc : Text → Text)

def readEntry (index : ℕ) (keys : List Text) (raw : RawEntry) : Except (ExchangeError u) (ProcessSpec u) :=
  let refused := ExchangeError.entry index (raw.name.filter fun name => !name.trim.isEmpty)
  match raw.entry with
  | .error reason => .error (refused (.shape reason))
  | .ok entry =>
    match entry.toSpec engine with
    | .error source => .error (refused source)
    | .ok spec => if keys.contains (spec.key nfc) then .error (refused .duplicateName) else .ok spec

def readEntries : ℕ → List Text → List RawEntry → Except (ExchangeError u) (List (ProcessSpec u))
  | _, _, [] => .ok []
  | index, keys, raw :: rest => do
    let spec ← readEntry engine nfc index keys raw
    let specs ← readEntries (index + 1) (spec.key nfc :: keys) rest
    return spec :: specs

variable {δ : Type} (yaml : Yaml δ)

def readStackFile (raw : δ) : Except (ExchangeError u) (List (ProcessSpec u)) := do
  let document ← (yaml.parse raw).mapError .malformed
  checkVersion document
  let entries ← document.processes.mapError .malformed
  readEntries engine nfc 0 [] entries

end Reading

/-- Whether an export writes the values of variables or placeholders for them. -/
inductive EnvExport where
  | values | placeholders
deriving DecidableEq, Repr

def exportEntry (root : ProjectRoot) (env : EnvExport) (spec : ProcessSpec u) :
    Except (ExchangeError u) ProcessEntry := do
  let entry ← ((ProcessEntry.of spec).relativeTo root).mapError (.unexportable spec.name)
  return match env with
    | .values => entry
    | .placeholders => entry.withoutEnvValues

def writeStackFile {δ : Type} (yaml : Yaml δ) (root : ProjectRoot) (processes : List (ProcessSpec u))
    (env : EnvExport) : Except (ExchangeError u) δ := do
  let entries ← processes.mapM (exportEntry root env)
  let body ← (yaml.render ⟨stackFileVersion, entries⟩).mapError .render
  return yaml.commented stackFileHeader body

/-! ### What was written reads back -/

@[simp] theorem okOr_some {ε α : Type} (error : ε) (value : α) : okOr error (some value) = .ok value := rfl

theorem mapM_variableOf (environment : Environment) :
    ((environmentEntry environment).getD .empty).entries.mapM variableOf = .ok environment.entries := by
  rw [environmentEntry]
  by_cases hempty : environment.entries.isEmpty = true
  · rw [if_pos hempty, List.isEmpty_iff.1 hempty]
    rfl
  · rw [if_neg hempty]
    have hascending : ((environment.entries.map fun var => (var.1.value, some var.2.value)).map
        Prod.fst).Pairwise (· < ·) := by
      have h := environment.ascending
      rw [List.pairwise_map] at h
      rw [List.map_map, List.pairwise_map]
      exact h
    rw [Option.getD_some, SortedMap.entries_of hascending]
    refine mapM_map_ok fun var _ => ?_
    rw [variableOf, Newtype.tryNew_value, okOr_some]
    show (okOr _ (Newtype.tryNew _ var.2.value) >>= _) = _
    rw [Newtype.tryNew_value]
    rfl

theorem foldlM_addPort (seen : DeclaredPorts) {entries : List (LocalPort × Unit)}
    (h : ((seen.entries ++ entries).map Prod.fst).Pairwise (· < ·)) :
    (entries.map (·.1.value)).foldlM addPort seen = .ok ⟨seen.entries ++ entries, h⟩ := by
  induction entries generalizing seen with
  | nil => exact congrArg Except.ok (SortedMap.ext_entries (List.append_nil _).symm)
  | cons entry entries ih =>
    have hadd : addPort seen entry.1.value = .ok (seen.insert entry.1 ()) := by
      rw [addPort, Newtype.tryNew_value]
      show (if seen.contains entry.1 = true then _ else _) = _
      rw [SortedMap.contains_eq_false h]
      rfl
    have hinsert : (seen.insert entry.1 ()).entries = seen.entries ++ [entry] := SortedMap.entries_insert h
    rw [List.map_cons, List.foldlM_cons, hadd]
    show (entries.map _).foldlM addPort (seen.insert entry.1 ()) = _
    rw [ih _ (by rwa [hinsert, List.append_assoc])]
    exact congrArg Except.ok (SortedMap.ext_entries (by simp [hinsert]))

theorem declaredPorts_entry (ports : DeclaredPorts) :
    declaredPorts ((if ports.entries.isEmpty then none else some (ports.keys.map (·.value))).getD []) =
      checkPorts ports := by
  have hraw : (if ports.entries.isEmpty then none else some (ports.keys.map (·.value))).getD [] =
      ports.entries.map (·.1.value) := by
    by_cases hempty : ports.entries.isEmpty = true
    · rw [if_pos hempty, List.isEmpty_iff.1 hempty]
      rfl
    · rw [if_neg hempty, SortedMap.keys, List.map_map]
      rfl
  rw [hraw, declaredPorts, foldlM_addPort .empty ports.ascending]
  rfl

structure Importable (engine : Engine) (spec : ProcessSpec u) : Prop where
  ports : spec.ports.length ≤ declaredPortsMax
  compiles : ∀ check ∈ spec.ready, ∀ pattern, check.probe = .log pattern → pattern.kind = .regex →
    engine pattern.text.value = .ok ()

variable {engine : Engine}

theorem checkedPattern_value {pattern : LogPattern}
    (h : pattern.kind = .regex → engine pattern.text.value = .ok ()) :
    checkedPattern engine pattern.text.value pattern.kind = .ok pattern := by
  obtain ⟨text, kind⟩ := pattern
  have hcompile : compile engine ⟨text, kind⟩ = .ok () := by
    cases kind with
    | substring => rfl
    | regex =>
      rw [compile, h rfl]
      rfl
  rw [checkedPattern, Newtype.tryNew_value, okOr_some]
  show (compile engine ⟨text, kind⟩ >>= _) = _
  rw [hcompile]
  rfl

theorem probeOf_of
    (h : ∀ pattern, check.probe = .log pattern → pattern.kind = .regex → engine pattern.text.value = .ok ()) :
    probeOf engine (.of check) = .ok check.probe := by
  obtain ⟨probe, timeout⟩ := check
  cases probe with
  | log pattern =>
    have hchecked := checkedPattern_value (h pattern rfl)
    obtain ⟨text, kind⟩ := pattern
    cases kind with
    | substring => exact congrArg (ReadyProbe.log <$> ·) hchecked
    | regex => exact congrArg (ReadyProbe.log <$> ·) hchecked
  | port number =>
    show (ReadyProbe.port <$> okOr _ (Newtype.tryNew _ number.value)) = _
    rw [Newtype.tryNew_value]
    rfl
  | http url =>
    show (ReadyProbe.http <$> okOr _ (Newtype.tryNew _ url.value)) = _
    rw [Newtype.tryNew_value]
    rfl

theorem readyOf_of
    (h : ∀ pattern, check.probe = .log pattern → pattern.kind = .regex → engine pattern.text.value = .ok ()) :
    readyOf engine (.of check) = .ok check := by
  have hregex : ¬ ((ReadyEntry.of check).regex.isSome && (ReadyEntry.of check).log.isNone) = true := by
    obtain ⟨probe, timeout⟩ := check
    cases probe <;> simp [ReadyEntry.of]
  have htimeout : (ReadyEntry.of check).timeout = check.timeout.value := by
    obtain ⟨probe, timeout⟩ := check
    cases probe <;> rfl
  rw [readyOf, if_neg hregex, probeOf_of h, htimeout, Newtype.tryNew_value]
  rfl

theorem exists_of_map_ok {ε α β : Type} {f : α → β} {x : Except ε α} {b : β} (h : f <$> x = .ok b) :
    ∃ a, x = .ok a ∧ f a = b := by
  cases x with
  | error e => cases h
  | ok a => exact ⟨a, rfl, Except.ok.inj h⟩

theorem exists_of_mapError_ok {ε ε' α : Type} {f : ε → ε'} {x : Except ε α} {a : α}
    (h : x.mapError f = .ok a) : x = .ok a := by
  cases x with
  | error e => cases h
  | ok a => exact congrArg Except.ok (Except.ok.inj h)

/-! ### Working directories -/

theorem workingDirOf_eq_ok {dir' : PathBuf} (h : workingDirOf dir = .ok dir') :
    dir' = dir ∧ dir.isEmpty = false ∧ dir.staysUnderRoot = true := by
  rw [workingDirOf] at h
  split at h
  · cases h
  · next hempty =>
    split at h
    · cases h
    · next hstays =>
      cases h
      exact ⟨rfl, Bool.eq_false_iff.2 hempty, by simpa using hstays⟩

theorem ProjectRoot.relative_eq_some {inside : PathBuf}
    (h : root.relative dir = some inside) : inside.start = .bare ∧ root.path.join inside = dir := by
  rw [ProjectRoot.relative] at h
  split at h
  · next hinside =>
    rw [Bool.and_eq_true, decide_eq_true_eq, List.isPrefixOf_iff_prefix] at hinside
    obtain ⟨hstart, rest, hrest⟩ := hinside
    cases h
    have hdrop : dir.rest.drop root.path.rest.length = rest := by rw [← hrest, List.drop_left]
    refine ⟨rfl, PathBuf.mk.injEq .. |>.mpr ⟨root.absolute.trans hstart.symm, ?_⟩⟩
    show root.path.rest ++ dir.rest.drop root.path.rest.length = dir.rest
    rw [hdrop, hrest]
  · cases h

theorem ProcessSpec.launchDir_of_some (root : ProjectRoot)
    (hdir : spec.workingDir = some dir) (hempty : dir.isEmpty = false)
    (hinside : dir.isAbsolute = true ∨ dir.staysUnderRoot = true) :
    spec.launchDir root = .ok (root.path.join dir) := by
  have hconfined : spec.unconfinedDir = none := by
    rw [unconfinedDir, hdir, Option.bind_some, hempty]
    exact if_pos (Bool.or_eq_true_iff.2 hinside)
  rw [launchDir, hconfined, hdir]
  rfl

theorem ProcessSpec.launchDir_of_none (root : ProjectRoot)
    (hdir : spec.workingDir = none) : spec.launchDir root = .ok root.path := by
  have hconfined : spec.unconfinedDir = none := by rw [unconfinedDir, hdir, Option.bind_none]
  rw [launchDir, hconfined, hdir]
  rfl

theorem PathBuf.isAbsolute_eq_false (h : dir.staysUnderRoot = true) : dir.isAbsolute = false := by
  rw [staysUnderRoot, Bool.and_eq_true, decide_eq_true_eq] at h
  exact decide_eq_false h.1

theorem transpose_workingDirOf (hempty : dir.isEmpty = false)
    (hstays : dir.staysUnderRoot = true) : transpose workingDirOf (some dir) = .ok (some dir) := by
  rw [transpose, workingDirOf, hempty, hstays]
  rfl

/-- What an export leaves of a working directory reads back, is relative, and launches where it did. -/
theorem relativeDir_eq_ok {dir : Option PathBuf} (h : relativeDir root spec.workingDir = .ok dir) :
    transpose workingDirOf dir = .ok dir ∧ (∀ inside ∈ dir, inside.isAbsolute = false) ∧
      ∃ launch, { spec with workingDir := dir }.launchDir root = .ok launch ∧
        spec.launchDir root = .ok launch := by
  cases hstored : spec.workingDir with
  | none =>
    rw [hstored] at h
    cases h
    exact ⟨rfl, fun _ hinside => (Option.not_mem_none _ hinside).elim, root.path,
      ProcessSpec.launchDir_of_none root rfl, ProcessSpec.launchDir_of_none root hstored⟩
  | some stored =>
    rw [hstored, relativeDir] at h
    by_cases habsolute : stored.isAbsolute = true
    · have hempty : stored.isEmpty = false := by
        rw [PathBuf.isAbsolute, decide_eq_true_eq] at habsolute
        rw [PathBuf.isEmpty, habsolute]
        rfl
      -- From the root, an absolute directory is named by itself.
      have hlaunch : spec.launchDir root = .ok stored := by
        rw [ProcessSpec.launchDir_of_some root hstored hempty (.inl habsolute), PathBuf.join,
          if_pos habsolute]
      rw [if_pos habsolute] at h
      split at h
      · next inside hrelative =>
        obtain ⟨hbare, hjoin⟩ := ProjectRoot.relative_eq_some hrelative
        split at h
        · next hroot =>
          cases h
          have hself : root.path = stored := by
            rw [PathBuf.isEmpty, Bool.and_eq_true, List.isEmpty_iff] at hroot
            rw [← hjoin, PathBuf.join, PathBuf.isAbsolute, hbare, hroot.2, List.append_nil]
            rfl
          exact ⟨rfl, fun _ hinside => (Option.not_mem_none _ hinside).elim, stored,
            hself ▸ ProcessSpec.launchDir_of_none root rfl, hlaunch⟩
        · next hinside =>
          obtain ⟨read, hdir, rfl⟩ := exists_of_map_ok h
          obtain ⟨rfl, hempty, hstays⟩ := workingDirOf_eq_ok hdir
          refine ⟨transpose_workingDirOf hempty hstays, ?_, stored, ?_, hlaunch⟩
          · rintro _ ⟨⟩
            exact PathBuf.isAbsolute_eq_false hstays
          · rw [ProcessSpec.launchDir_of_some root rfl hempty (.inr hstays), hjoin]
      · cases h
    · rw [if_neg habsolute] at h
      obtain ⟨read, hdir, rfl⟩ := exists_of_map_ok h
      obtain ⟨rfl, hempty, hstays⟩ := workingDirOf_eq_ok hdir
      refine ⟨transpose_workingDirOf hempty hstays, ?_, root.path.join read,
        ProcessSpec.launchDir_of_some root rfl hempty (.inr hstays),
        ProcessSpec.launchDir_of_some root hstored hempty (.inr hstays)⟩
      rintro _ ⟨⟩
      exact PathBuf.isAbsolute_eq_false hstays

/-! ### Files -/

/-- A definition that was read, beside the stored one it was written from: the same but for a working
directory, which is relative, and with it launched in the same directory. -/
structure ReadBack (root : ProjectRoot) (spec stored : ProcessSpec u) : Prop where
  fields : spec = { stored with workingDir := spec.workingDir }
  relative : ∀ dir ∈ spec.workingDir, dir.isAbsolute = false
  launch : ∃ dir, spec.launchDir root = .ok dir ∧ stored.launchDir root = .ok dir

theorem transpose_map {α β : Type} {read : α → Except EntryError β} {write : β → α} {field : Option β}
    (h : ∀ value ∈ field, read (write value) = .ok value) : transpose read (field.map write) = .ok field := by
  cases field with
  | none => rfl
  | some value =>
    rw [Option.map_some, transpose, h value rfl]
    rfl

/-- The entry of a definition reads as the definition, with the working directory the entry has. -/
theorem toSpec_of {dir : Option PathBuf}
    (himportable : Importable engine spec) (hdir : transpose workingDirOf dir = .ok dir) :
    ProcessEntry.toSpec engine { ProcessEntry.of spec with workingDir := dir } =
      .ok { spec with workingDir := dir } := by
  have hname : processName spec.name.value = .ok spec.name := by
    rw [processName, Newtype.tryNew_value, okOr_some]
  have hcommand : commandOf spec.command.value = .ok spec.command := by
    rw [commandOf, boundedText, Newtype.tryNew_value, okOr_some]
  have hdescription : transpose descriptionOf (spec.description.map (·.value)) = .ok spec.description :=
    transpose_map fun description _ => by rw [descriptionOf, boundedText, Newtype.tryNew_value, okOr_some]
  have hready : transpose (readyOf engine) (spec.ready.map .of) = .ok spec.ready :=
    transpose_map fun check hcheck => readyOf_of (himportable.compiles check hcheck)
  rw [ProcessEntry.toSpec]
  dsimp only [ProcessEntry.of]
  rw [mapM_variableOf, hname, hcommand, hdir, hdescription, Newtype.tryNew_value, hready,
    declaredPorts_entry, checkPorts, if_neg (not_lt.2 himportable.ports)]
  show Except.ok ({ spec with workingDir := dir, environment := .of _ } : ProcessSpec u) = _
  rw [SortedMap.of_entries]

theorem engine_of_readyOf {read : ReadyCheck} {pattern : LogPattern}
    (hlog : check.probe = .log pattern) (hregex : pattern.kind = .regex)
    (h : readyOf engine (.of check) = .ok read) : engine pattern.text.value = .ok () := by
  rw [readyOf] at h
  split at h
  · cases h
  · obtain ⟨probe, hprobe, -⟩ := exists_of_bind_ok h
    have hprobe := exists_of_mapError_ok hprobe
    rw [ReadyEntry.of, hlog] at hprobe
    dsimp only at hprobe
    rw [if_pos hregex] at hprobe
    obtain ⟨checked, hchecked, -⟩ := exists_of_map_ok hprobe
    obtain ⟨text, htext, hchecked⟩ := exists_of_bind_ok hchecked
    rw [Newtype.tryNew_value, okOr_some] at htext
    cases htext
    obtain ⟨_, hcompile, -⟩ := exists_of_bind_ok hchecked
    exact exists_of_mapError_ok hcompile

theorem importable_of_toSpec {stored read : ProcessSpec u} {dir : Option PathBuf}
    (h : ProcessEntry.toSpec engine { ProcessEntry.of stored with workingDir := dir } = .ok read) :
    Importable engine stored := by
  rw [ProcessEntry.toSpec] at h
  obtain ⟨vars, -, h⟩ := exists_of_bind_ok h
  obtain ⟨name, -, h⟩ := exists_of_bind_ok h
  obtain ⟨command, -, h⟩ := exists_of_bind_ok h
  obtain ⟨workingDir, -, h⟩ := exists_of_bind_ok h
  obtain ⟨description, -, h⟩ := exists_of_bind_ok h
  obtain ⟨gracePeriod, -, h⟩ := exists_of_bind_ok h
  obtain ⟨ready, hready, h⟩ := exists_of_bind_ok h
  obtain ⟨ports, hports, -⟩ := exists_of_bind_ok h
  dsimp only [ProcessEntry.of] at hready hports
  refine ⟨?_, fun check hcheck pattern hlog hregex => ?_⟩
  · rw [declaredPorts_entry, checkPorts] at hports
    split at hports
    · cases hports
    · next hfew => exact not_lt.1 hfew
  · rw [Option.mem_def.1 hcheck] at hready
    obtain ⟨checked, hchecked, -⟩ := exists_of_map_ok hready
    exact engine_of_readyOf hlog hregex hchecked

theorem toSpec_exportEntry (engine : Engine) {stored : ProcessSpec u}
    {entry : ProcessEntry} (h : exportEntry root .values stored = .ok entry) :
    (Importable engine stored → ∃ spec, entry.toSpec engine = .ok spec ∧ ReadBack root spec stored) ∧
    ∀ spec : ProcessSpec u, entry.toSpec engine = .ok spec → Importable engine stored := by
  obtain ⟨written, hwritten, h⟩ := exists_of_bind_ok h
  cases h
  obtain ⟨dir, hdir, rfl⟩ := exists_of_map_ok (exists_of_mapError_ok hwritten)
  obtain ⟨hread, hrelative, hlaunch⟩ := relativeDir_eq_ok hdir
  exact ⟨fun himportable => ⟨_, toSpec_of himportable hread, rfl, hrelative, hlaunch⟩,
    fun _ => importable_of_toSpec⟩

theorem readEntries_exported {nfc : Text → Text}
    {entries : List ProcessEntry} (index : ℕ) (keys : List Text)
    (hkeys : (stored.map (·.key nfc)).Nodup) (hfresh : ∀ spec ∈ stored, spec.key nfc ∉ keys)
    (himportable : ∀ spec ∈ stored, Importable engine spec)
    (h : stored.mapM (exportEntry root .values) = .ok entries) :
    ∃ specs, readEntries engine nfc index keys (entries.map fun entry => ⟨some entry.name, .ok entry⟩) =
      .ok specs ∧ List.Forall₂ (ReadBack root) specs stored := by
  induction stored generalizing index keys entries with
  | nil =>
    cases h
    exact ⟨[], rfl, .nil⟩
  | cons spec stored ih =>
    rw [List.mapM_cons] at h
    obtain ⟨entry, hentry, h⟩ := exists_of_bind_ok h
    obtain ⟨rest, hrest, h⟩ := exists_of_bind_ok h
    cases h
    rw [List.map_cons, List.nodup_cons] at hkeys
    obtain ⟨read, hread, hback⟩ := (toSpec_exportEntry engine hentry).1 (himportable spec List.mem_cons_self)
    have hkey : read.key nfc = spec.key nfc := by rw [hback.fields]; rfl
    obtain ⟨specs, hspecs, hbacks⟩ := ih (index + 1) (spec.key nfc :: keys) hkeys.2
      (fun other hother => by
        rw [List.mem_cons, not_or]
        refine ⟨fun hsame => hkeys.1 (hsame ▸ List.mem_map_of_mem hother), ?_⟩
        exact hfresh other (List.mem_cons_of_mem _ hother))
      (fun other hother => himportable other (List.mem_cons_of_mem _ hother)) hrest
    have hfirst : readEntry engine nfc index keys ⟨some entry.name, .ok entry⟩ = .ok read := by
      have hnew : ¬ keys.contains (read.key nfc) = true := by
        rw [List.contains_iff_mem, hkey]
        exact hfresh spec List.mem_cons_self
      rw [readEntry]
      dsimp only
      rw [hread]
      exact if_neg hnew
    refine ⟨read :: specs, ?_, .cons hback hbacks⟩
    rw [List.map_cons, readEntries, hfirst]
    show (readEntries engine nfc (index + 1) (read.key nfc :: keys) _ >>= _) = _
    rw [hkey, hspecs]
    rfl

theorem importable_of_readEntries {nfc : Text → Text}
    {specs : List (ProcessSpec u)} {entries : List ProcessEntry} {index : ℕ} {keys : List Text}
    (h : stored.mapM (exportEntry root .values) = .ok entries)
    (hread : readEntries engine nfc index keys (entries.map fun entry => ⟨some entry.name, .ok entry⟩) =
      .ok specs) : ∀ spec ∈ stored, Importable engine spec := by
  induction stored generalizing index keys entries specs with
  | nil => nofun
  | cons spec stored ih =>
    rw [List.mapM_cons] at h
    obtain ⟨entry, hentry, h⟩ := exists_of_bind_ok h
    obtain ⟨rest, hrest, h⟩ := exists_of_bind_ok h
    cases h
    rw [List.map_cons, readEntries] at hread
    obtain ⟨first, hfirst, hread⟩ := exists_of_bind_ok hread
    obtain ⟨others, hothers, -⟩ := exists_of_bind_ok hread
    refine List.forall_mem_cons.2 ⟨?_, ih hrest hothers⟩
    rw [readEntry] at hfirst
    dsimp only at hfirst
    split at hfirst
    · cases hfirst
    · next read hspec => exact (toSpec_exportEntry engine hentry).2 read hspec

/-- **An exported stack imports back.**  The file an export with values writes is read exactly if every
definition declares no more ports than one may and every readiness pattern compiles, and what is read is
the stored definitions in their order, with working directories relative to the root and launches where
they were.  The keys of a stored stack are unique. -/
theorem exported_reads_back {δ : Type} (yaml : Yaml δ) (engine : Engine) (nfc : Text → Text)
    (root : ProjectRoot) {stored : List (ProcessSpec u)} {raw : δ}
    (hkeys : (stored.map (·.key nfc)).Nodup) (h : writeStackFile yaml root stored .values = .ok raw) :
    ((∃ specs, readStackFile (u := u) engine nfc yaml raw = .ok specs) ↔
      ∀ spec ∈ stored, Importable engine spec) ∧
    ∀ specs, readStackFile engine nfc yaml raw = .ok specs → List.Forall₂ (ReadBack root) specs stored := by
  obtain ⟨entries, hentries, h⟩ := exists_of_bind_ok h
  obtain ⟨body, hbody, h⟩ := exists_of_bind_ok h
  cases h
  have hread : readStackFile (u := u) engine nfc yaml (yaml.commented stackFileHeader body) =
      readEntries engine nfc 0 [] (entries.map fun entry => ⟨some entry.name, .ok entry⟩) := by
    rw [readStackFile, yaml.parse_render _ (exists_of_mapError_ok hbody)]
    rfl
  have hback := fun himportable : ∀ spec ∈ stored, Importable engine spec =>
    readEntries_exported 0 [] hkeys (fun _ _ => List.not_mem_nil) himportable hentries
  rw [hread]
  refine ⟨⟨fun ⟨specs, hspecs⟩ => importable_of_readEntries hentries hspecs, fun himportable => ?_⟩,
    fun specs hspecs => ?_⟩
  · obtain ⟨specs, hspecs, -⟩ := hback himportable
    exact ⟨specs, hspecs⟩
  · obtain ⟨backs, hbacks, hforall⟩ := hback (importable_of_readEntries hentries hspecs)
    exact Except.ok.inj (hbacks.symm.trans hspecs) ▸ hforall

def asWritten : Yaml StackFile := ⟨.ok, fun _ file => file, fun file => .ok (.of file),
  by rintro _ _ _ ⟨⟩; rfl⟩

def inFolder : ProcessSpec plainTables :=
  { lettered 'a' rfl rfl with workingDir := some ⟨.root, [.normal [0x70], .normal [0x77]]⟩ }

def rootFolder : ProjectRoot := ⟨⟨.root, [.normal [0x70]]⟩, rfl⟩

theorem exported_reads_back_of_one :
    ∃ specs, readStackFile (fun _ => .ok ()) id asWritten
        ⟨1, [{ ProcessEntry.of inFolder with workingDir := some ⟨.bare, [.normal [0x77]]⟩ }]⟩ = .ok specs ∧
      List.Forall₂ (ReadBack rootFolder) specs [inFolder] := by
  have hkeys : ([inFolder].map (·.key id)).Nodup := List.nodup_singleton _
  obtain ⟨hread, hback⟩ := exported_reads_back asWritten (fun _ => .ok ()) id rootFolder hkeys rfl
  obtain ⟨specs, hspecs⟩ := hread.2 (List.forall_mem_singleton.2 ⟨Nat.zero_le _, by rintro _ ⟨⟩⟩)
  exact ⟨specs, hspecs, hback specs hspecs⟩

def portsFrom (count : ℕ) : DeclaredPorts :=
  .of (((List.range count).filterMap fun n => Newtype.tryNew _ (3000 + n)).map fun port => (port, ()))

/-- A definition stored with one port more than a process may declare is exported, and its file refused. -/
theorem exported_is_refused :
    ∃ raw, writeStackFile asWritten rootFolder [{ lettered 'a' with ports := portsFrom 17 }] .values =
      .ok raw ∧
      readStackFile (u := plainTables) (fun _ => .ok ()) id asWritten raw =
        .error (.entry 0 (some ['a']) (.tooManyPorts 17)) :=
  ⟨_, rfl, by decide +kernel⟩

end Muster.Config
