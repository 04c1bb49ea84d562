import Mathlib.Data.Nat.Notation
import Mathlib.Data.UInt

/-!
# Pen — the color and attributes SGR sequences leave in effect

The parameters of a control sequence are groups: a value and its sub-parameters.
-/

namespace Muster.Terminal

/-- The parameters of a control sequence, each with its sub-parameters. -/
abbrev Params := List (List ℕ)

def paramValues (params : Params) : List ℕ := params.filterMap List.head?

inductive PenColor where
  /-- One of the sixteen named colors, kept as the SGR code that picked it. -/
  | named (code : ℕ)
  | indexed (index : ℕ)
  | rgb (red green blue : ℕ)
deriving DecidableEq, Repr

def paletteMode : ℕ := 5
def rgbMode : ℕ := 2
def rgbArgs : ℕ := 3

def byteOf (value : ℕ) : Option ℕ := if value < 256 then some value else none

/-- The extended color `arguments` give after the mode that opens them. -/
def PenColor.extended (mode : ℕ) (arguments : List ℕ) : Option PenColor :=
  if mode = paletteMode then
    match arguments with
    | index :: _ => (byteOf index).map .indexed
    | [] => none
  else if mode = rgbMode then
    match arguments with
    | red :: green :: blue :: _ => do return .rgb (← byteOf red) (← byteOf green) (← byteOf blue)
    | _ => none
  else none

/-- The attributes SGR switches on, by code; bit `n` of a pen's attributes stands for the `n`th. -/
def attributeCodes : List ℕ := [1, 2, 3, 5, 6, 7, 8, 9, 53]

/-- The codes that switch attributes off, each with the codes it switches off. -/
def attributeResets : List (ℕ × List ℕ) :=
  [(22, [1, 2]), (23, [3]), (25, [5, 6]), (27, [7]), (28, [8]), (29, [9]), (55, [53])]

def maxUnderlineStyle : ℕ := 5

/-- The attributes and colors in effect; the default pen draws plain text. -/
structure Pen where
  attributes : UInt16 := 0
  underline : ℕ := 0
  foreground : Option PenColor := none
  background : Option PenColor := none
  underlineColor : Option PenColor := none
deriving DecidableEq, Repr

def takeValue : Params → Option ℕ × Params
  | [] => (none, [])
  | group :: groups => (group.head?, groups)

def takeValues : ℕ → Params → Option (List ℕ) × Params
  | 0, groups => (some [], groups)
  | n + 1, groups => match takeValue groups with
    | (none, groups) => (none, groups)
    | (some value, groups) =>
      let (values, groups) := takeValues n groups
      (values.map (value :: ·), groups)

def extendedFrom (groups : Params) : Option PenColor × Params :=
  match takeValue groups with
  | (none, groups) => (none, groups)
  | (some mode, groups) =>
    let (arguments, groups) := takeValues (if mode = rgbMode then rgbArgs else 1) groups
    (arguments.bind (PenColor.extended mode), groups)

/-- The extended color given as sub-parameters, a color space first or not. -/
def extendedInline : List ℕ → Option PenColor
  | [] => none
  | mode :: arguments =>
    PenColor.extended mode <|
      if mode = rgbMode && rgbArgs < arguments.length then
        arguments.drop (arguments.length - rgbArgs)
      else arguments

namespace Pen

def setSlot (pen : Pen) (code : ℕ) (color : PenColor) : Pen :=
  if code = 38 then { pen with foreground := some color }
  else if code = 48 then { pen with background := some color }
  else { pen with underlineColor := some color }

def applySimple (pen : Pen) (code : ℕ) : Pen :=
  let named := (byteOf code).map .named
  if (30 ≤ code && code ≤ 37) || (90 ≤ code && code ≤ 97) then { pen with foreground := named }
  else if (40 ≤ code && code ≤ 47) || (100 ≤ code && code ≤ 107) then
    { pen with background := named }
  else match attributeCodes.idxOf? code with
    | some bit => { pen with attributes := pen.attributes ||| (1 <<< UInt16.ofNat bit) }
    | none => match attributeResets.find? (·.1 == code) with
      | none => pen
      | some (_, off) =>
        { pen with
          attributes := attributeCodes.zipIdx.foldl
            (fun bits (code, bit) =>
              if off.contains code then bits &&& ~~~(1 <<< UInt16.ofNat bit) else bits)
            pen.attributes }

/-- Applies the groups of an SGR sequence in turn.  Every turn takes a group, so as many turns as
there are groups are enough. -/
def applyGroups : ℕ → Params → Pen → Pen
  | 0, _, pen => pen
  | _, [], pen => pen
  | fuel + 1, [] :: groups, pen => applyGroups fuel groups pen
  | fuel + 1, (code :: subparams) :: groups, pen =>
    if code = 0 then applyGroups fuel groups {}
    else if code = 4 then
      applyGroups fuel groups
        { pen with underline := (subparams.head?.map (min · maxUnderlineStyle)).getD 1 }
    else if code = 21 then applyGroups fuel groups { pen with underline := 2 }
    else if code = 24 then applyGroups fuel groups { pen with underline := 0 }
    else if code = 38 || code = 48 || code = 58 then
      let (color, groups) :=
        if subparams = [] then extendedFrom groups else (extendedInline subparams, groups)
      applyGroups fuel groups (color.elim pen (pen.setSlot code))
    else if code = 39 then applyGroups fuel groups { pen with foreground := none }
    else if code = 49 then applyGroups fuel groups { pen with background := none }
    else if code = 59 then applyGroups fuel groups { pen with underlineColor := none }
    else applyGroups fuel groups (pen.applySimple code)

def apply (pen : Pen) (params : Params) : Pen :=
  if params = [] then {} else applyGroups params.length params pen

end Pen

example : Pen.apply {} [[1], [38], [2], [10], [20], [30], [4, 3]] =
    { attributes := 1, underline := 3, foreground := some (.rgb 10 20 30) } := by decide

end Muster.Terminal
