import Mathlib.Data.Char
import Mathlib.Data.List.Lex
import Muster.Config.Values
import Muster.Supervisor.Domain

/-!
# Spec — the stored definition of a process

A definition carries everything a launch reads.  A working directory is compared by its components, as
paths are, so two ways of writing one path are one value here.  A definition may be stored past a cap, or
with a directory that leaves the project's root; a write is refused past a cap, and a launch is refused
in either case.
-/

namespace Muster.Config

open Terminal (Unicode)
open Supervisor (RestartPolicy)

/-! ### Paths -/

abbrev OsString := List UInt8

inductive Component where
  | parentDir
  | normal (name : OsString)
deriving DecidableEq, Repr

/-- What a path starts with: the root, a dot, or neither. -/
inductive Start where
  | root | current | bare
deriving DecidableEq, Repr

/-- A path by its components; a dot counts only at its start. -/
structure PathBuf where
  start : Start
  rest : List Component
deriving DecidableEq, Repr

namespace PathBuf

def isAbsolute (path : PathBuf) : Bool := path.start = .root

def isEmpty (path : PathBuf) : Bool := path.start = .bare && path.rest.isEmpty

def join (path dir : PathBuf) : PathBuf :=
  if dir.isAbsolute then dir else { path with rest := path.rest ++ dir.rest }

def isUtf8 (path : PathBuf) : Bool :=
  path.rest.all fun
    | .parentDir => true
    | .normal name => (ByteArray.mk name.toArray).validateUTF8

/-- Whether components never climb above where they start, `depth` folders down. -/
def staysFrom : ℕ → List Component → Bool
  | _, [] => true
  | depth, .normal _ :: rest => staysFrom (depth + 1) rest
  | 0, .parentDir :: _ => false
  | depth + 1, .parentDir :: rest => staysFrom depth rest

def staysUnderRoot (dir : PathBuf) : Bool := dir.start ≠ .root && staysFrom 0 dir.rest

end PathBuf

structure ProjectRoot where
  path : PathBuf
  absolute : path.start = .root
deriving DecidableEq, Repr

def ProjectRoot.top (name : OsString) : ProjectRoot := ⟨⟨.root, [.normal name]⟩, rfl⟩

def ProjectRoot.contains (root : ProjectRoot) (dir : PathBuf) : Bool :=
  dir.start = .root && root.path.rest.isPrefixOf dir.rest

def ProjectRoot.relative (root : ProjectRoot) (dir : PathBuf) : Option PathBuf :=
  if dir.start = .root && root.path.rest.isPrefixOf dir.rest then
    some ⟨.bare, dir.rest.drop root.path.rest.length⟩
  else none

/-! ### The parts of a definition -/

inductive StopSignal where
  | terminate | interrupt
deriving DecidableEq, Repr

structure StopPolicy where
  signal : StopSignal
  gracePeriod : StopGrace
deriving DecidableEq

inductive PatternKind where
  | substring | regex
deriving DecidableEq, Repr

/-- A pattern one output line is tested against. -/
structure LogPattern where
  text : PatternText
  kind : PatternKind
deriving DecidableEq

/-- What a readiness check waits for. -/
inductive ReadyProbe where
  | log (pattern : LogPattern)
  | port (port : LocalPort)
  | http (url : LocalUrl)
deriving DecidableEq

/-- A readiness check: what to wait for, and how long a run has to pass it. -/
structure ReadyCheck where
  probe : ReadyProbe
  timeout : PositiveDuration
deriving DecidableEq

abbrev Environment := SortedMap EnvName EnvValue

abbrev DeclaredPorts := SortedMap LocalPort Unit

def envVarsMax : ℕ := 64

def declaredPortsMax : ℕ := 16

/-- A value past a cap every write is held to. -/
inductive OverCap where
  | name (found : ℕ)
  | varName (name : EnvName) (found : ℕ)
  | varValue (name : EnvName) (found : ℕ)
  | vars (found : ℕ)
  | ports (found : ℕ)
deriving DecidableEq

namespace OverCap

variable {u : Unicode}

def ofName (name : ProcessName u) : Option OverCap :=
  if processNameMaxChars < name.value.length then some (.name name.value.length) else none

def ofVar (name : EnvName) (value : EnvValue) : Option OverCap :=
  if envNameMaxChars < name.value.length then some (.varName name name.value.length)
  else if envValueMaxChars < value.value.length then some (.varValue name value.value.length)
  else none

def ofVarCount (count : ℕ) : Option OverCap := if envVarsMax < count then some (.vars count) else none

def ofPorts (ports : DeclaredPorts) : Option OverCap :=
  if declaredPortsMax < ports.length then some (.ports ports.length) else none

/-- The first cap an environment runs past: a variable's, in name order, then the number of them. -/
def ofEnvironment (environment : Environment) : Option OverCap :=
  (environment.entries.findSome? fun var => ofVar var.1 var.2).or (ofVarCount environment.length)

end OverCap

/-! ### Definitions -/

/-- The stored definition of one process. -/
structure ProcessSpec (u : Unicode) where
  name : ProcessName u
  command : CommandLine
  /-- The project's root when absent, relative to it otherwise. -/
  workingDir : Option PathBuf
  description : Option Description
  environment : Environment
  autostart : Bool
  restart : RestartPolicy
  stop : StopPolicy
  ready : Option ReadyCheck
  ports : DeclaredPorts
deriving DecidableEq

/-- A stored working directory that leaves the root. -/
structure UnconfinedDir (u : Unicode) where
  name : ProcessName u
  dir : PathBuf
deriving DecidableEq

inductive ConfigError (u : Unicode) where
  | duplicateProcessName (name : ProcessName u)
  | importConflict (names : List (ProcessName u))
  | tooManyProcesses (found : ℕ)
  | overCap (name : ProcessName u) (cap : OverCap)
  | notUtf8 (path : PathBuf)
  | tooLarge (what : String)
  | corruptRow (what : String)
  | storage (what : String)
deriving DecidableEq

namespace ProcessSpec

variable {u : Unicode}

def plain (name : ProcessName u) (command : CommandLine) : ProcessSpec u where
  name
  command
  workingDir := none
  description := none
  environment := .empty
  autostart := false
  restart := .never
  stop := ⟨.terminate, ⟨5000 * nanosPerMilli, rfl, by decide⟩⟩
  ready := none
  ports := .empty

def key (nfc : Text → Text) (spec : ProcessSpec u) : Text := spec.name.key nfc

/-- The stored directory when it is empty, or relative and climbs out of the root. -/
def unconfinedDir (spec : ProcessSpec u) : Option (UnconfinedDir u) :=
  spec.workingDir.bind fun dir =>
    if !dir.isEmpty && (dir.isAbsolute || dir.staysUnderRoot) then none else some ⟨spec.name, dir⟩

def launchDir (spec : ProcessSpec u) (root : ProjectRoot) : Except (UnconfinedDir u) PathBuf :=
  match spec.unconfinedDir with
  | some unconfined => .error unconfined
  | none => .ok (spec.workingDir.elim root.path root.path.join)

/-- The first cap a definition runs past: its name's, its environment's, its ports'. -/
def overCap (spec : ProcessSpec u) : Option OverCap :=
  ((OverCap.ofName spec.name).or (OverCap.ofEnvironment spec.environment)).or (OverCap.ofPorts spec.ports)

def checkCaps (spec : ProcessSpec u) : Except (ConfigError u) Unit :=
  match spec.overCap with
  | some cap => .error (.overCap spec.name cap)
  | none => .ok ()

end ProcessSpec

def plainTables : Unicode := ⟨fun _ => some 1, fun _ => false⟩

def lettered (letter : Char) (h : (trimmed fun name => !name.isEmpty &&
    isTerminalSafe plainTables name).valid [letter] = true := by decide)
    (hclean : Text.trim [letter] = [letter] := by decide) : ProcessSpec plainTables :=
  .plain ⟨[letter], hclean, h⟩ ⟨"true".toList, by decide, by decide⟩

end Muster.Config
