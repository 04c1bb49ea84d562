import Mathlib.Data.List.DropRight
import Muster.Lib.Newtype
import Muster.Lib.SortedMap
import Muster.Terminal.LogLine

/-!
# Values — the checked values a process's definition is made of

Each is made from raw text or a raw number by its own rule, on a write as on a read.  The caps a rule
holds a value to hold for a stored one too; the caps on names, variables and ports are apart, since a
value stored past one of those still reads.  A duration is in nanoseconds.
-/

namespace Muster.Config

open Terminal (Unicode isWhitespace isControl)

abbrev Text := List Char

def Text.trim (text : Text) : Text := (text.dropWhile isWhitespace).rdropWhile isWhitespace

theorem Text.trim_trim (text : Text) : trim (trim text) = trim text := by
  have hhead : (trim text).dropWhile isWhitespace = trim text := by
    refine List.dropWhile_eq_self_iff.2 fun hpos => ?_
    -- What is left begins with what the text begins with past its white space.
    obtain ⟨rest, hrest⟩ : trim text <+: text.dropWhile isWhitespace := List.rdropWhile_prefix _ _
    have hne : text.dropWhile isWhitespace ≠ [] := fun hnil =>
      List.length_pos_iff.1 hpos (List.append_eq_nil_iff.1 (hrest.trans hnil)).1
    have hfirst := List.head_dropWhile_not isWhitespace hne
    simp only [← hrest] at hfirst
    rw [List.head_append_of_ne_nil (List.length_pos_iff.1 hpos), List.head_eq_getElem] at hfirst
    rw [hfirst]
    exact Bool.false_ne_true
  rw [trim, hhead]
  exact List.rdropWhile_idempotent _ _

def trimmed (valid : Text → Bool) : Rule Text := ⟨Text.trim, valid, Text.trim_trim⟩

/-- Text that is trimmed, and then has some characters and at most `most`. -/
def trimmedUpTo (most : ℕ) : Rule Text := trimmed fun text => !text.isEmpty && text.length ≤ most

/-! ### Names -/

def processNameMaxChars : ℕ := 64

/-- Whether a name holds no control and no format character. -/
def isTerminalSafe (u : Unicode) (name : Text) : Bool :=
  !name.any fun c => isControl c || u.steersTheTerminal c

abbrev ProcessName (u : Unicode) :=
  Newtype (trimmed fun name => !name.isEmpty && isTerminalSafe u name)

/-- What tells names apart: the name in normal form C, which `nfc` gives. -/
def ProcessName.key {u : Unicode} (nfc : Text → Text) (name : ProcessName u) : Text := nfc name.value

/-! ### Texts -/

def commandMaxChars : ℕ := 8192

abbrev CommandLine := Newtype (trimmedUpTo commandMaxChars)

def descriptionMaxChars : ℕ := 300

abbrev Description := Newtype (trimmedUpTo descriptionMaxChars)

def patternMaxChars : ℕ := 512

abbrev PatternText := Newtype (trimmedUpTo patternMaxChars)

/-! ### Variables -/

def envNameMaxChars : ℕ := 128

def envValueMaxChars : ℕ := 8192

/-- Whether a name can be exported to a child without clashing with the program's own. -/
def isEnvName (name : Text) : Bool :=
  !name.isEmpty && !name.any (fun c => c = '=' || c = '\x00') && !"MUSTER_".toList.isPrefixOf name

abbrev EnvName := Newtype (.check isEnvName)

abbrev EnvValue := Newtype (.check fun value : Text => !value.contains '\x00')

/-! ### Ports and addresses -/

abbrev LocalPort := Newtype (.check fun port : ℕ => 0 < port && port < 2 ^ 16)

def eqIgnoreAsciiCase (text other : Text) : Bool := text.map Char.toLower = other.map Char.toLower

/-- The host of an HTTP address and its port suffix, empty when there is none; none for another scheme,
credentials or an unclosed IPv6 host. -/
def hostAndPort (url : Text) : Option (Text × Text) :=
  if eqIgnoreAsciiCase (url.take 7) "http://".toList then
    let authority := (url.drop 7).takeWhile fun c => !(['/', '?', '#'].contains c)
    if authority.contains '@' then none
    else if authority.head? = some '[' then
      (authority.idxOf? ']').map fun close => authority.splitAt (close + 1)
    else some ((authority.idxOf? ':').elim (authority, []) fun at_ => authority.splitAt at_)
  else none

def portNumber : Text → Option ℕ
  | ':' :: digits =>
    if digits.all Char.isDigit && !digits.isEmpty && Nat.ofDigitChars 10 digits 0 < 2 ^ 16 then
      some (Nat.ofDigitChars 10 digits 0)
    else none
  | _ => none

def isLoopbackUrl (url : Text) : Bool :=
  !url.any (fun c => isWhitespace c || isControl c || c = '\\') &&
    (hostAndPort url).any fun (host, port) =>
      (port.isEmpty || (portNumber port).any (0 < ·)) &&
        ["localhost", "127.0.0.1", "[::1]"].any fun loopback => eqIgnoreAsciiCase host loopback.toList

abbrev LocalUrl := Newtype (trimmed isLoopbackUrl)

/-! ### Durations -/

def nanosPerMilli : ℕ := 1000000

def maxStopGrace : ℕ := 60 * 60 * 1000 * nanosPerMilli

def durationEnd : ℕ := 2 ^ 64 * 1000 * nanosPerMilli

abbrev StopGrace := Newtype (.check fun duration : ℕ =>
  duration != 0 && duration ≤ maxStopGrace && duration % nanosPerMilli = 0)

abbrev PositiveDuration := Newtype (.check fun duration : ℕ =>
  duration != 0 && duration < durationEnd && duration % nanosPerMilli = 0)

end Muster.Config
