import Muster.Config.Spec
import Muster.Lib.NumberedRows

/-!
# StackRows — definitions as the store keeps them

A definition is written to the columns of a process's row, with its variables and ports in tables of
their own, and read back through the checks its values are made by.  What was written reads back as it
was: enumerations by their names, a port by its digits, and durations, which are whole milliseconds, by
their number.
-/

namespace Muster.Config

open Terminal (Unicode)
open Supervisor (RestartPolicy)

variable {u : Unicode} {millis : ℕ}

/-! ### Columns -/

inductive ReadyKind where
  | log | regex | port | http
deriving DecidableEq, Repr

/-- The columns of a process's row, its variables and its ports. -/
structure Columns where
  name : Text
  command : Text
  workingDir : Option PathBuf
  description : Option Text
  autostart : Bool
  restart : String
  stopSignal : String
  stopGraceMs : ℕ
  readyKind : Option String
  readyTarget : Option Text
  readyTimeoutMs : Option ℕ
  env : List (Text × Text)
  ports : List ℕ
deriving DecidableEq, Repr

def restartText : RestartPolicy → String
  | .never => "never"
  | .onFailure => "on-failure"
  | .always => "always"

def parseRestart (text : String) : Option RestartPolicy :=
  [.never, .onFailure, .always].find? (restartText · = text)

def StopSignal.text : StopSignal → String
  | .terminate => "terminate"
  | .interrupt => "interrupt"

def StopSignal.parse (text : String) : Option StopSignal :=
  [.terminate, .interrupt].find? (StopSignal.text · = text)

def ReadyKind.text : ReadyKind → String
  | .log => "log"
  | .regex => "regex"
  | .port => "port"
  | .http => "http"

def ReadyKind.parse (text : String) : Option ReadyKind :=
  [.log, .regex, .port, .http].find? (ReadyKind.text · = text)

def parsePort (text : Text) : Option LocalPort :=
  let digits := if text.trim.head? = some '+' then text.trim.tail else text.trim
  if digits.isEmpty || !digits.all Char.isDigit then none
  else Newtype.tryNew _ (Nat.ofDigitChars 10 digits 0)

def ReadyProbe.stored : ReadyProbe → ReadyKind × Text
  | .log pattern =>
    (match pattern.kind with
      | .substring => .log
      | .regex => .regex, pattern.text.value)
  | .port number => (.port, Nat.toDigits 10 number.value)
  | .http url => (.http, url.value)

def ReadyProbe.fromStored (kind : String) (target : Text) : Option ReadyProbe :=
  (ReadyKind.parse kind).bind fun
    | .log => (Newtype.tryNew _ target).map fun text => .log ⟨text, .substring⟩
    | .regex => (Newtype.tryNew _ target).map fun text => .log ⟨text, .regex⟩
    | .port => (parsePort target).map .port
    | .http => (Newtype.tryNew _ target).map .http

def durationMillis (what : String) (duration : ℕ) : Except (ConfigError u) ℕ :=
  let millis := (duration + (nanosPerMilli - 1)) / nanosPerMilli
  if millis < 2 ^ 63 then .ok millis else .error (.tooLarge what)

/-- What a stored value the domain refuses is reported as. -/
def corrupt {α : Type} (what : String) : Option α → Except (ConfigError u) α
  | some value => .ok value
  | none => .error (.corruptRow what)

def checkText : Option PathBuf → Except (ConfigError u) Unit
  | some dir => if dir.isUtf8 then .ok () else .error (.notUtf8 dir)
  | none => .ok ()

def timeoutMillis : Option ReadyCheck → Except (ConfigError u) (Option ℕ)
  | some check => some <$> durationMillis "readiness timeout" check.timeout.value
  | none => .ok none

def columnsOf (spec : ProcessSpec u) (timeout : Option ℕ) (grace : ℕ) : Columns where
  name := spec.name.value
  command := spec.command.value
  workingDir := spec.workingDir
  description := spec.description.map (·.value)
  autostart := spec.autostart
  restart := restartText spec.restart
  stopSignal := spec.stop.signal.text
  stopGraceMs := grace
  readyKind := spec.ready.map (·.probe.stored.1.text)
  readyTarget := spec.ready.map (·.probe.stored.2)
  readyTimeoutMs := timeout
  env := spec.environment.entries.map fun var => (var.1.value, var.2.value)
  ports := spec.ports.keys.map (·.value)

/-- What the insert and update statements bind, with the variables and ports written after them. -/
def processParams (spec : ProcessSpec u) : Except (ConfigError u) Columns := do
  checkText spec.workingDir
  let timeout ← timeoutMillis spec.ready
  let grace ← durationMillis "stop grace" spec.stop.gracePeriod.value
  return columnsOf spec timeout grace

def readVar (var : Text × Text) : Except (ConfigError u) (EnvName × EnvValue) := do
  let name ← corrupt "variable name" (Newtype.tryNew _ var.1)
  let value ← corrupt "variable value" (Newtype.tryNew _ var.2)
  return (name, value)

def readPort (port : ℕ) : Except (ConfigError u) (LocalPort × Unit) := do
  let port ← corrupt "declared port" (Newtype.tryNew _ port)
  return (port, ())

def readReady (columns : Columns) : Except (ConfigError u) (Option ReadyCheck) :=
  match columns.readyKind, columns.readyTarget, columns.readyTimeoutMs with
  | some kind, some target, some timeout => do
    let probe ← corrupt "readiness check" (ReadyProbe.fromStored kind target)
    let timeout ← corrupt "readiness timeout" (Newtype.tryNew _ (timeout * nanosPerMilli))
    return some ⟨probe, timeout⟩
  | _, _, _ => .ok none

def readDescription : Option Text → Except (ConfigError u) (Option Description)
  | some description => some <$> corrupt "description" (Newtype.tryNew _ description)
  | none => .ok none

/-- Reads a process's row.  A directory leaving the root, or a name, variables or ports past a cap, read as
stored. -/
def processFromRow (columns : Columns) : Except (ConfigError u) (ProcessSpec u) := do
  let vars ← columns.env.mapM readVar
  let ports ← columns.ports.mapM readPort
  let ready ← readReady columns
  let name ← corrupt "process name" (Newtype.tryNew _ columns.name)
  let command ← corrupt "command" (Newtype.tryNew _ columns.command)
  let description ← readDescription columns.description
  let restart ← corrupt "restart policy" (parseRestart columns.restart)
  let signal ← corrupt "stop signal" (StopSignal.parse columns.stopSignal)
  let grace ← corrupt "stop grace" (Newtype.tryNew _ (columns.stopGraceMs * nanosPerMilli))
  return {
    name
    command
    workingDir := columns.workingDir
    description
    environment := .of vars
    autostart := columns.autostart
    restart
    stop := ⟨signal, grace⟩
    ready
    ports := .of ports }

/-! ### What was written reads back -/

theorem parseRestart_restartText (policy : RestartPolicy) :
    parseRestart (restartText policy) = some policy := by
  cases policy <;> decide

theorem StopSignal.parse_text (signal : StopSignal) : parse signal.text = some signal := by
  cases signal <;> decide

theorem ReadyKind.parse_text (kind : ReadyKind) : parse kind.text = some kind := by
  cases kind <;> decide

theorem isDigit_range {c : Char} (h : c.isDigit = true) : 0x30 ≤ c.toNat ∧ c.toNat ≤ 0x39 := by
  rw [Char.isDigit, Bool.and_eq_true, decide_eq_true_eq, decide_eq_true_eq] at h
  exact ⟨h.1, h.2⟩

theorem isWhitespace_of_isDigit {c : Char} (h : c.isDigit = true) : Terminal.isWhitespace c = false := by
  obtain ⟨hlow, hhigh⟩ := isDigit_range h
  have hcases : ∀ n < 0x3a, 0x30 ≤ n → ((0x9 ≤ n && n ≤ 0xd) || (0x2000 ≤ n && n ≤ 0x200a) ||
      [0x20, 0x85, 0xa0, 0x1680, 0x2028, 0x2029, 0x202f, 0x205f, 0x3000].contains n) = false := by decide
  exact hcases c.toNat (by omega) hlow

theorem Text.trim_eq_self {text : Text} (h : ∀ c ∈ text, Terminal.isWhitespace c = false) :
    text.trim = text := by
  have hdrop : text.dropWhile Terminal.isWhitespace = text :=
    List.dropWhile_eq_self_iff.2 fun hpos => Bool.eq_false_iff.1 (h _ (List.getElem_mem hpos))
  rw [Text.trim, hdrop]
  exact List.rdropWhile_eq_self_iff.2 fun hne => Bool.eq_false_iff.1 (h _ (List.getLast_mem hne))

theorem parsePort_toDigits (port : LocalPort) : parsePort (Nat.toDigits 10 port.value) = some port := by
  have hdigits : ∀ c ∈ Nat.toDigits 10 port.value, c.isDigit = true := fun c hc =>
    Nat.isDigit_of_mem_toDigits (by decide) (by decide) hc
  have htrim : Text.trim (Nat.toDigits 10 port.value) = Nat.toDigits 10 port.value :=
    Text.trim_eq_self fun c hc => isWhitespace_of_isDigit (hdigits c hc)
  have hsign : ¬ (Nat.toDigits 10 port.value).head? = some '+' := fun hhead =>
    absurd (hdigits '+' (List.mem_of_head? hhead)) (by decide)
  have hsome : ¬ ((Nat.toDigits 10 port.value).isEmpty ||
      !(Nat.toDigits 10 port.value).all Char.isDigit) = true := by
    rw [List.all_eq_true.2 hdigits]
    simp [Nat.toDigits_ne_nil]
  rw [parsePort, htrim]
  rw [if_neg hsign, if_neg hsome, Nat.ofDigitChars_toDigits (by decide) (by decide), Newtype.tryNew_value]

theorem ReadyProbe.fromStored_stored (probe : ReadyProbe) :
    fromStored probe.stored.1.text probe.stored.2 = some probe := by
  cases probe with
  | log pattern =>
    obtain ⟨text, kind⟩ := pattern
    cases kind <;> simp [fromStored, stored, ReadyKind.parse_text]
  | port number => simp [fromStored, stored, ReadyKind.parse_text, parsePort_toDigits]
  | http url => simp [fromStored, stored, ReadyKind.parse_text]

theorem mul_of_durationMillis {what : String} {duration : ℕ} (hwhole : duration % nanosPerMilli = 0)
    (h : durationMillis (u := u) what duration = .ok millis) : millis * nanosPerMilli = duration := by
  rw [durationMillis] at h
  split at h
  · cases h
    have hdiv : (duration + (nanosPerMilli - 1)) / nanosPerMilli = duration / nanosPerMilli := by
      unfold nanosPerMilli at *
      omega
    rw [hdiv]
    exact Nat.div_mul_cancel (Nat.dvd_of_mod_eq_zero hwhole)
  · cases h

theorem mapM_map_ok {ε α β : Type} {f : β → Except ε α} {g : α → β} {as : List α}
    (h : ∀ a ∈ as, f (g a) = .ok a) : (as.map g).mapM f = .ok as := by
  induction as with
  | nil => rfl
  | cons a as ih =>
    rw [List.map_cons, List.mapM_cons, h a List.mem_cons_self, ih fun b hb => h b (List.mem_cons_of_mem _ hb)]
    rfl

theorem mapM_readVar (environment : Environment) :
    (environment.entries.map fun var => (var.1.value, var.2.value)).mapM (readVar (u := u)) =
      .ok environment.entries :=
  mapM_map_ok fun var _ => by
    rw [readVar, Newtype.tryNew_value, Newtype.tryNew_value]
    rfl

theorem mapM_readPort (ports : DeclaredPorts) :
    (ports.keys.map (·.value)).mapM (readPort (u := u)) = .ok ports.entries := by
  rw [SortedMap.keys, List.map_map]
  refine mapM_map_ok fun entry _ => ?_
  rw [Function.comp, readPort, Newtype.tryNew_value]
  rfl

theorem exists_of_bind_ok {ε α β : Type} {x : Except ε α} {f : α → Except ε β} {b : β}
    (h : (x >>= f) = .ok b) : ∃ a, x = .ok a ∧ f a = .ok b := by
  cases x with
  | error e => cases h
  | ok a => exact ⟨a, rfl, h⟩

theorem tryNew_stopGrace {grace : StopGrace}
    (h : durationMillis (u := u) "stop grace" grace.value = .ok millis) :
    Newtype.tryNew _ (millis * nanosPerMilli) = some grace := by
  have hwhole : grace.value % nanosPerMilli = 0 :=
    of_decide_eq_true (Bool.and_eq_true_iff.1 grace.valid).2
  rw [mul_of_durationMillis hwhole h, Newtype.tryNew_value]

theorem tryNew_positiveDuration {timeout : PositiveDuration}
    (h : durationMillis (u := u) "readiness timeout" timeout.value = .ok millis) :
    Newtype.tryNew _ (millis * nanosPerMilli) = some timeout := by
  have hwhole : timeout.value % nanosPerMilli = 0 :=
    of_decide_eq_true (Bool.and_eq_true_iff.1 timeout.valid).2
  rw [mul_of_durationMillis hwhole h, Newtype.tryNew_value]

theorem readReady_columnsOf {spec : ProcessSpec u} {timeout : Option ℕ} (grace : ℕ)
    (h : timeoutMillis (u := u) spec.ready = .ok timeout) :
    readReady (u := u) (columnsOf spec timeout grace) = .ok spec.ready := by
  cases hready : spec.ready with
  | none =>
    rw [readReady, columnsOf, hready]
    rfl
  | some check =>
    rw [hready, timeoutMillis] at h
    cases hmillis : durationMillis (u := u) "readiness timeout" check.timeout.value with
    | error e =>
      rw [hmillis] at h
      cases h
    | ok millis =>
      rw [hmillis] at h
      cases h
      rw [readReady, columnsOf, hready]
      dsimp only [Option.map_some]
      rw [ReadyProbe.fromStored_stored, tryNew_positiveDuration hmillis]
      rfl

theorem readDescription_map (description : Option Description) :
    readDescription (u := u) (description.map (·.value)) = .ok description := by
  cases description with
  | none => rfl
  | some description =>
    rw [Option.map_some, readDescription, Newtype.tryNew_value]
    rfl

/-- **What was written reads back.** -/
theorem processFromRow_processParams {spec : ProcessSpec u} {columns : Columns}
    (h : processParams spec = .ok columns) : processFromRow columns = .ok spec := by
  obtain ⟨-, -, h⟩ := exists_of_bind_ok h
  obtain ⟨timeout, htimeout, h⟩ := exists_of_bind_ok h
  obtain ⟨grace, hgrace, h⟩ := exists_of_bind_ok h
  cases h
  rw [processFromRow, readReady_columnsOf grace htimeout]
  dsimp only [columnsOf]
  rw [mapM_readVar, mapM_readPort, Newtype.tryNew_value, Newtype.tryNew_value, readDescription_map,
    parseRestart_restartText, StopSignal.parse_text, tryNew_stopGrace hgrace]
  show Except.ok ({ spec with environment := .of _, ports := .of _ } : ProcessSpec u) = _
  rw [SortedMap.of_entries, SortedMap.of_entries]

end Muster.Config
