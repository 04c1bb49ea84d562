import Mathlib.Tactic.IntervalCases
import Muster.Terminal.Reading

/-!
# Sgr — a pen written as an SGR sequence and read back

A pen writes the parameters that draw in it from a reset: its attributes in ascending order with the
underline among them, then its three colors.  Whatever sequences left a pen, it has attributes, styles
and colors of a known range only (`Regular`), and such a pen is read back from what it writes exactly.
-/

namespace Muster.Terminal

open Text Reading

/-! ### Writing -/

namespace PenColor

/-- The parameters that pick the color, an extended one under `extended`. -/
def writeParams (extended : ℕ) : PenColor → Text
  | named code => decimal code
  | indexed index => decimal extended ++ ';' :: decimal paletteMode ++ ';' :: decimal index
  | rgb red green blue =>
    decimal extended ++ ';' :: decimal rgbMode ++ ';' :: decimal red ++ ';' :: decimal green ++
      ';' :: decimal blue

def groups (extended : ℕ) : PenColor → Params
  | named code => [[code]]
  | indexed index => [[extended], [paletteMode], [index]]
  | rgb red green blue => [[extended], [rgbMode], [red], [green], [blue]]

end PenColor

namespace Pen

/-- The attribute written right after the underline. -/
def afterUnderline : ℕ := 5
def singleUnderlineStyle : ℕ := 1

def has (pen : Pen) (bit : ℕ) : Bool := pen.attributes &&& (1 <<< UInt16.ofNat bit) != 0

def colors (pen : Pen) : List (ℕ × Option PenColor) :=
  [(38, pen.foreground), (48, pen.background), (58, pen.underlineColor)]

/-- What is written between separators. -/
def written (pen : Pen) : List Text :=
  (attributeCodes.zipIdx.flatMap fun (code, bit) =>
    (if code = afterUnderline && pen.underline != 0 then
      [if pen.underline = singleUnderlineStyle then decimal 4 else decimal 4 ++ ':' :: decimal pen.underline]
    else []) ++ if pen.has bit then [decimal code] else []) ++
  pen.colors.flatMap fun (extended, color) => (color.map (·.writeParams extended)).toList

/-- The SGR parameters that draw in this pen from a reset. -/
def params (pen : Pen) : Text := joined pen.written

/-- The underline as a parameter. -/
def underlineGroups (pen : Pen) : List Params :=
  if pen.underline = 0 then [] else if pen.underline = 1 then [[[4]]] else [[[4, pen.underline]]]

def attributeGroups (pen : Pen) (codes : List (ℕ × ℕ)) : List Params :=
  codes.flatMap fun (code, bit) => if pen.has bit then [[[code]]] else []

def colorGroups (extended : ℕ) (color : Option PenColor) : List Params :=
  (color.map (·.groups extended)).toList

/-- What is written between separators, as parameters. -/
def parts (pen : Pen) : List Params :=
  pen.attributeGroups [(1, 0), (2, 1), (3, 2)] ++ pen.underlineGroups ++
    pen.attributeGroups [(5, 3), (6, 4), (7, 5), (8, 6), (9, 7), (53, 8)] ++
    (colorGroups 38 pen.foreground ++ colorGroups 48 pen.background ++
      colorGroups 58 pen.underlineColor)

theorem paramsText_singleton (value : ℕ) : paramsText [[value]] = decimal value := by
  simp [paramsText, joined, groupText]

theorem map_attributeGroups (pen : Pen) (codes : List (ℕ × ℕ)) :
    (pen.attributeGroups codes).map paramsText =
      codes.flatMap fun (code, bit) => if pen.has bit then [decimal code] else [] := by
  rw [attributeGroups, List.map_flatMap]
  refine List.flatMap_congr fun (code, bit) _ => ?_
  dsimp only
  split
  · rw [List.map_singleton, paramsText_singleton]
  · rfl

theorem map_underlineGroups (pen : Pen) :
    pen.underlineGroups.map paramsText = if pen.underline != 0 then
      [if pen.underline = singleUnderlineStyle then decimal 4 else decimal 4 ++ ':' :: decimal pen.underline]
    else [] := by
  unfold underlineGroups singleUnderlineStyle
  by_cases hnone : pen.underline = 0
  · simp [hnone]
  · by_cases hone : pen.underline = 1
    · simp [hone, paramsText_singleton]
    · simp [hnone, hone, paramsText, joined, groupText]

theorem map_colorGroups (extended : ℕ) (color : Option PenColor) :
    (colorGroups extended color).map paramsText =
      (color.map (·.writeParams extended)).toList := by
  cases color with
  | none => rfl
  | some color =>
    cases color <;>
      simp [colorGroups, PenColor.groups, PenColor.writeParams, paramsText, joined, groupText]

theorem written_eq (pen : Pen) : pen.written = pen.parts.map paramsText := by
  have hcodes : attributeCodes.zipIdx =
      [(1, 0), (2, 1), (3, 2)] ++ [(5, 3), (6, 4), (7, 5), (8, 6), (9, 7), (53, 8)] := rfl
  unfold parts written
  simp only [List.map_append, map_attributeGroups, map_underlineGroups, map_colorGroups, colors,
    List.flatMap_cons, List.flatMap_nil, List.append_nil, hcodes, List.flatMap_append]
  simp [afterUnderline]

def allGroups (pen : Pen) : Params := pen.parts.flatten

theorem allGroups_eq (pen : Pen) : pen.allGroups =
    (pen.attributeGroups [(1, 0), (2, 1), (3, 2)]).flatten ++ pen.underlineGroups.flatten ++
      (pen.attributeGroups [(5, 3), (6, 4), (7, 5), (8, 6), (9, 7), (53, 8)]).flatten ++
      ((colorGroups 38 pen.foreground).flatten ++ (colorGroups 48 pen.background).flatten ++
        (colorGroups 58 pen.underlineColor).flatten) := by
  unfold allGroups parts
  simp only [List.flatten_append]

theorem paramsText_append {params more : Params} (h : params ≠ []) :
    paramsText (params ++ more) = paramsText params ++ more.flatMap fun group => ';' :: groupText group := by
  obtain ⟨group, params, rfl⟩ := List.exists_cons_of_ne_nil h
  simp [paramsText, joined, List.flatMap_map]

theorem joined_map_paramsText {parts : List Params} (h : ∀ part ∈ parts, part ≠ []) :
    joined (parts.map paramsText) = paramsText parts.flatten := by
  cases parts with
  | nil => rfl
  | cons part parts =>
    have hsep : ∀ part ∈ parts,
        ';' :: paramsText part = part.flatMap fun group => ';' :: groupText group := by
      intro part hpart
      obtain ⟨group, rest, rfl⟩ :=
        List.exists_cons_of_ne_nil (h part (List.mem_cons_of_mem _ hpart))
      simp [paramsText, joined, List.flatMap_map]
    rw [List.flatten_cons, paramsText_append (h part List.mem_cons_self), List.map_cons, joined,
      List.flatMap_map, List.flatMap_congr hsep, List.flatten_eq_flatMap, List.flatMap_assoc]
    rfl

end Pen

/-! ### What sequences leave -/

def namesForeground (code : ℕ) : Bool := (30 ≤ code && code ≤ 37) || (90 ≤ code && code ≤ 97)
def namesBackground (code : ℕ) : Bool := (40 ≤ code && code ≤ 47) || (100 ≤ code && code ≤ 107)

/-- A color of bytes, or one of the names `names` allows. -/
def PenColor.Fits (names : ℕ → Bool) : PenColor → Prop
  | named code => names code
  | indexed index => index < 256
  | rgb red green blue => red < 256 ∧ green < 256 ∧ blue < 256

theorem PenColor.fits_extended {mode : ℕ} {arguments : List ℕ} {color : PenColor}
    (h : PenColor.extended mode arguments = some color) (names : ℕ → Bool) : color.Fits names := by
  have hbyte : ∀ {value byte : ℕ}, byteOf value = some byte → byte < 256 := by
    intro value byte hv
    unfold byteOf at hv
    split at hv
    · next hlt =>
      rw [← Option.some.inj hv]
      exact hlt
    · cases hv
  unfold PenColor.extended at h
  split at h
  · split at h
    · rw [Option.map_eq_some_iff] at h
      obtain ⟨byte, hv, rfl⟩ := h
      exact hbyte hv
    · cases h
  · split at h
    · split at h
      · simp only [Option.bind_eq_bind, Option.bind_eq_some_iff, Option.pure_def,
          Option.some.injEq] at h
        obtain ⟨red, hred, green, hgreen, blue, hblue, rfl⟩ := h
        exact ⟨hbyte hred, hbyte hgreen, hbyte hblue⟩
      · cases h
    · cases h

namespace Pen

/-- A pen some sequences can leave: attributes, style and colors of the known ranges. -/
structure Regular (pen : Pen) : Prop where
  attributes : pen.attributes.toNat < 2 ^ 9
  underline : pen.underline ≤ maxUnderlineStyle
  foreground : ∀ color ∈ pen.foreground, color.Fits namesForeground
  background : ∀ color ∈ pen.background, color.Fits namesBackground
  underlineColor : ∀ color ∈ pen.underlineColor, color.Fits fun _ => false

theorem regular_default : ({} : Pen).Regular :=
  ⟨by decide, by decide, fun _ h => absurd h (by simp), fun _ h => absurd h (by simp),
    fun _ h => absurd h (by simp)⟩

variable {pen : Pen} {color : Option PenColor} {code : ℕ} {names : ℕ → Bool} {pen' : Pen}

theorem Regular.setSlot (h : pen.Regular) (code : ℕ) {color : PenColor}
    (hcolor : ∀ names, color.Fits names) : (pen.setSlot code color).Regular := by
  have hsome : ∀ names, ∀ c ∈ some color, PenColor.Fits names c := fun names c hc => by
    rw [← Option.some.inj hc]
    exact hcolor names
  unfold Pen.setSlot
  split
  · exact { h with foreground := hsome _ }
  · split
    · exact { h with background := hsome _ }
    · exact { h with underlineColor := hsome _ }

theorem Regular.elim_setSlot (h : pen.Regular) (code : ℕ)
    (hcolor : ∀ c, color = some c → ∀ names, c.Fits names) :
    (color.elim pen (pen.setSlot code)).Regular := by
  cases color with
  | none => exact h
  | some c => exact h.setSlot code (hcolor c rfl)

theorem fits_byteOf (h : names code) :
    ∀ color ∈ (byteOf code).map PenColor.named, color.Fits names := by
  intro color hcolor
  rw [Option.mem_def, Option.map_eq_some_iff] at hcolor
  obtain ⟨byte, hbyte, rfl⟩ := hcolor
  unfold byteOf at hbyte
  split at hbyte
  · rw [← Option.some.inj hbyte]
    exact h
  · cases hbyte

theorem toNat_foldl_off_le (off : ℕ × ℕ → Bool) (codes : List (ℕ × ℕ)) (bits : UInt16) :
    (codes.foldl (fun bits code =>
      if off code then bits &&& ~~~(1 <<< UInt16.ofNat code.2) else bits) bits).toNat ≤ bits.toNat := by
  induction codes generalizing bits with
  | nil => exact Nat.le_refl _
  | cons code codes ih =>
    rw [List.foldl_cons]
    refine Nat.le_trans (ih _) ?_
    split
    · rw [UInt16.toNat_and]
      exact Nat.and_le_left
    · exact Nat.le_refl _

theorem toNat_bit_lt : ∀ bit < 9, ((1 : UInt16) <<< UInt16.ofNat bit).toNat < 2 ^ 9 := by decide

theorem Regular.applySimple (h : pen.Regular) (code : ℕ) : (pen.applySimple code).Regular := by
  unfold Pen.applySimple
  dsimp only
  split
  · next hcode => exact { h with foreground := fits_byteOf hcode }
  · split
    · next hcode => exact { h with background := fits_byteOf hcode }
    · split
      · next bit hbit =>
        obtain ⟨hlt, -⟩ := List.idxOf?_eq_some_iff.1 hbit
        refine { h with attributes := ?_ }
        show (pen.attributes ||| 1 <<< UInt16.ofNat bit).toNat < 2 ^ 9
        rw [UInt16.toNat_or]
        exact Nat.or_lt_two_pow h.attributes (toNat_bit_lt bit hlt)
      · split
        · exact h
        · next off _ =>
          refine { h with attributes := Nat.lt_of_le_of_lt ?_ h.attributes }
          exact toNat_foldl_off_le (fun code => off.contains code.1) _ _

theorem fits_extendedFrom {groups : Params} {color : PenColor}
    (h : (extendedFrom groups).1 = some color) (names : ℕ → Bool) : color.Fits names := by
  unfold extendedFrom at h
  split at h
  · cases h
  · rw [Option.bind_eq_some_iff] at h
    obtain ⟨arguments, -, hcolor⟩ := h
    exact PenColor.fits_extended hcolor names

theorem fits_extendedInline {subparams : List ℕ} {color : PenColor}
    (h : extendedInline subparams = some color) (names : ℕ → Bool) : color.Fits names := by
  unfold extendedInline at h
  split at h
  · cases h
  · exact PenColor.fits_extended h names

/-- Whatever groups a sequence carries, a regular pen stays one. -/
theorem Regular.applyGroups {fuel : ℕ} {groups : Params} (h : pen.Regular) :
    (Pen.applyGroups fuel groups pen).Regular := by
  induction fuel generalizing groups pen with
  | zero => exact h
  | succ fuel ih =>
    match groups with
    | [] => exact h
    | [] :: groups => exact ih h
    | (code :: subparams) :: groups =>
      rw [Pen.applyGroups]
      by_cases hreset : code = 0
      · rw [if_pos hreset]
        exact ih regular_default
      rw [if_neg hreset]
      by_cases hunderline : code = 4
      · rw [if_pos hunderline]
        refine ih { h with underline := ?_ }
        cases subparams with
        | nil => exact show 1 ≤ maxUnderlineStyle by decide
        | cons style _ => exact Nat.min_le_right _ _
      rw [if_neg hunderline]
      by_cases hdouble : code = 21
      · rw [if_pos hdouble]
        exact ih { h with underline := show 2 ≤ maxUnderlineStyle by decide }
      rw [if_neg hdouble]
      by_cases hno : code = 24
      · rw [if_pos hno]
        exact ih { h with underline := show 0 ≤ maxUnderlineStyle by decide }
      rw [if_neg hno]
      by_cases hextended : code = 38 || code = 48 || code = 58
      · rw [if_pos hextended]
        by_cases hown : subparams = []
        · rw [if_pos hown]
          exact ih (h.elim_setSlot code fun _ hcolor => fits_extendedFrom hcolor)
        · rw [if_neg hown]
          exact ih (h.elim_setSlot code fun _ hcolor => fits_extendedInline hcolor)
      rw [if_neg hextended]
      by_cases hforeground : code = 39
      · rw [if_pos hforeground]
        exact ih { h with foreground := fun _ hc => absurd hc (by simp) }
      rw [if_neg hforeground]
      by_cases hbackground : code = 49
      · rw [if_pos hbackground]
        exact ih { h with background := fun _ hc => absurd hc (by simp) }
      rw [if_neg hbackground]
      by_cases hcolor : code = 59
      · rw [if_pos hcolor]
        exact ih { h with underlineColor := fun _ hc => absurd hc (by simp) }
      rw [if_neg hcolor]
      exact ih (h.applySimple code)

theorem Regular.apply (h : pen.Regular) (params : Params) : (pen.apply params).Regular := by
  unfold Pen.apply
  split
  · exact regular_default
  · exact h.applyGroups

theorem regular_foldl_apply (lists : List Params) : (lists.foldl Pen.apply {}).Regular :=
  List.foldlRecOn lists Pen.apply regular_default fun _ h params _ => h.apply params

/-! ### Reading back -/

/-- Applying the groups of `part` makes `pen` into `pen'`, whatever follows. -/
def Applies (part : Params) (pen pen' : Pen) : Prop :=
  ∀ rest fuel, (part ++ rest).length ≤ fuel → ∃ fuel', rest.length ≤ fuel' ∧
    applyGroups fuel (part ++ rest) pen = applyGroups fuel' rest pen'

theorem Applies.refl (pen : Pen) : Applies [] pen pen := fun _ fuel h => ⟨fuel, h, rfl⟩

theorem Applies.trans {part more : Params} {pen'' : Pen} (h : Applies part pen pen')
    (hmore : Applies more pen' pen'') : Applies (part ++ more) pen pen'' := by
  intro rest fuel hfuel
  rw [List.append_assoc] at hfuel ⊢
  obtain ⟨fuel', hfuel', heq⟩ := h (more ++ rest) fuel hfuel
  obtain ⟨fuel'', hfuel'', heq'⟩ := hmore rest fuel' hfuel'
  exact ⟨fuel'', hfuel'', heq.trans heq'⟩

theorem Applies.apply {params : Params} (h : Applies params pen pen')
    (hne : params ≠ []) : pen.apply params = pen' := by
  obtain ⟨fuel, -, heq⟩ := h [] params.length (by rw [List.append_nil])
  rw [Pen.apply, if_neg hne]
  rw [List.append_nil] at heq
  rw [heq]
  cases fuel <;> rfl

theorem applies_singleton {subparams : List ℕ}
    (h : ∀ fuel rest, applyGroups (fuel + 1) ((code :: subparams) :: rest) pen =
      applyGroups fuel rest pen') : Applies [code :: subparams] pen pen' := by
  intro rest fuel hfuel
  rw [List.singleton_append] at hfuel ⊢
  obtain ⟨fuel, rfl⟩ := Nat.exists_eq_add_of_lt (Nat.lt_of_lt_of_le (Nat.succ_pos _) hfuel)
  rw [Nat.zero_add] at hfuel ⊢
  exact ⟨fuel, by simpa using hfuel, h fuel rest⟩

theorem applies_attribute {bit : ℕ} (h : (code, bit) ∈ attributeCodes.zipIdx) (pen : Pen) :
    Applies [[code]] pen { pen with attributes := pen.attributes ||| 1 <<< UInt16.ofNat bit } := by
  refine applies_singleton fun fuel rest => ?_
  have hcases : (code, bit) ∈ [(1, 0), (2, 1), (3, 2), (5, 3), (6, 4), (7, 5), (8, 6), (9, 7), (53, 8)] := h
  simp only [List.mem_cons, List.not_mem_nil, or_false, Prod.mk.injEq] at hcases
  rcases hcases with ⟨rfl, rfl⟩ | ⟨rfl, rfl⟩ | ⟨rfl, rfl⟩ | ⟨rfl, rfl⟩ | ⟨rfl, rfl⟩ | ⟨rfl, rfl⟩ |
    ⟨rfl, rfl⟩ | ⟨rfl, rfl⟩ | ⟨rfl, rfl⟩ <;> rfl

/-- The attributes of `bits` that are on in `attributes`, added to `init`. -/
def addBits (attributes : UInt16) (bits : List ℕ) (init : UInt16) : UInt16 :=
  bits.foldl (fun acc bit => if attributes &&& (1 <<< UInt16.ofNat bit) != 0 then
    acc ||| 1 <<< UInt16.ofNat bit else acc) init

theorem addBits_cons (source : Pen) (bit : ℕ) (bits : List ℕ) (init : UInt16) :
    addBits source.attributes (bit :: bits) init = addBits source.attributes bits
      (if source.has bit then init ||| 1 <<< UInt16.ofNat bit else init) := rfl

theorem addBits_all {attributes : UInt16} (h : attributes.toNat < 2 ^ 9) :
    addBits attributes [3, 4, 5, 6, 7, 8] (addBits attributes [0, 1, 2] 0) = attributes := by
  have hall : ∀ n < 2 ^ 9, addBits (.ofNat n) [3, 4, 5, 6, 7, 8] (addBits (.ofNat n) [0, 1, 2] 0) =
      UInt16.ofNat n := by decide +kernel
  have := hall attributes.toNat h
  rwa [UInt16.ofNat_toNat] at this

theorem applies_attributeGroups (source : Pen) {codes : List (ℕ × ℕ)}
    (h : ∀ code ∈ codes, code ∈ attributeCodes.zipIdx) (pen : Pen) :
    Applies (source.attributeGroups codes).flatten pen
      { pen with attributes := addBits source.attributes (codes.map Prod.snd) pen.attributes } := by
  induction codes generalizing pen with
  | nil => exact Applies.refl pen
  | cons code codes ih =>
    obtain ⟨code, bit⟩ := code
    have hrest := fun pen => ih (fun c hc => h c (List.mem_cons_of_mem _ hc)) pen
    have hcons : source.attributeGroups ((code, bit) :: codes) =
        (if source.has bit then [[[code]]] else []) ++ source.attributeGroups codes := rfl
    rw [List.map_cons, addBits_cons, hcons, List.flatten_append]
    by_cases hbit : source.has bit
    · rw [if_pos hbit, if_pos hbit]
      exact (applies_attribute (h (code, bit) List.mem_cons_self) pen).trans (hrest _)
    · rw [if_neg hbit, if_neg hbit]
      exact hrest pen

theorem applies_underlineGroups (source pen : Pen) (h : source.underline ≤ maxUnderlineStyle)
    (hnone : pen.underline = 0) :
    Applies source.underlineGroups.flatten pen { pen with underline := source.underline } := by
  unfold underlineGroups
  by_cases hzero : source.underline = 0
  · rw [if_pos hzero, hzero, ← hnone]
    exact Applies.refl pen
  rw [if_neg hzero]
  by_cases hone : source.underline = 1
  · rw [if_pos hone, hone]
    exact applies_singleton fun fuel rest => rfl
  · rw [if_neg hone]
    refine applies_singleton fun fuel rest => ?_
    show applyGroups fuel rest { pen with underline := min source.underline maxUnderlineStyle } = _
    rw [Nat.min_eq_left h]

theorem byteOf_of_lt {value : ℕ} (h : value < 256) : byteOf value = some value := if_pos h

theorem applies_extended (hcode : (code = 38 || code = 48 || code = 58) = true)
    (color : PenColor) (h : color.Fits fun _ => false) (pen : Pen) :
    Applies (color.groups code) pen (pen.setSlot code color) := by
  have hne : code ≠ 0 ∧ code ≠ 4 ∧ code ≠ 21 ∧ code ≠ 24 := by
    simp only [Bool.or_eq_true, decide_eq_true_eq] at hcode
    omega
  intro rest fuel hfuel
  cases color with
  | named code => cases h
  | indexed index =>
    obtain ⟨fuel, rfl⟩ := Nat.exists_eq_add_of_lt (Nat.lt_of_lt_of_le (Nat.succ_pos _) hfuel)
    refine ⟨0 + fuel, ?_, ?_⟩
    · simp [PenColor.groups] at hfuel
      omega
    · show applyGroups (0 + fuel + 1) ([code] :: [paletteMode] :: [index] :: rest) pen = _
      rw [applyGroups, if_neg hne.1, if_neg hne.2.1, if_neg hne.2.2.1, if_neg hne.2.2.2, if_pos hcode,
        if_pos rfl]
      have hread : extendedFrom ([paletteMode] :: [index] :: rest) =
          ((byteOf index).map PenColor.indexed, rest) := rfl
      rw [hread, byteOf_of_lt h]
      rfl
  | rgb red green blue =>
    obtain ⟨hred, hgreen, hblue⟩ := h
    obtain ⟨fuel, rfl⟩ := Nat.exists_eq_add_of_lt (Nat.lt_of_lt_of_le (Nat.succ_pos _) hfuel)
    refine ⟨0 + fuel, ?_, ?_⟩
    · simp [PenColor.groups] at hfuel
      omega
    · show applyGroups (0 + fuel + 1) ([code] :: [rgbMode] :: [red] :: [green] :: [blue] :: rest) pen = _
      rw [applyGroups, if_neg hne.1, if_neg hne.2.1, if_neg hne.2.2.1, if_neg hne.2.2.2, if_pos hcode,
        if_pos rfl]
      have hread : extendedFrom ([rgbMode] :: [red] :: [green] :: [blue] :: rest) =
          ((do return PenColor.rgb (← byteOf red) (← byteOf green) (← byteOf blue)), rest) := rfl
      rw [hread, byteOf_of_lt hred, byteOf_of_lt hgreen, byteOf_of_lt hblue]
      rfl

theorem applies_simple (h : code ∉ [0, 4, 21, 24, 38, 48, 58, 39, 49, 59]) (pen : Pen) :
    Applies [[code]] pen (pen.applySimple code) := by
  refine applies_singleton fun fuel rest => ?_
  simp only [List.mem_cons, List.not_mem_nil, or_false, not_or] at h
  obtain ⟨h0, h4, h21, h24, h38, h48, h58, h39, h49, h59⟩ := h
  rw [applyGroups, if_neg h0, if_neg h4, if_neg h21, if_neg h24, if_neg (by simp [h38, h48, h58]),
    if_neg h39, if_neg h49, if_neg h59]

theorem applies_colorGroups (extended : ℕ)
    (hcode : (extended = 38 || extended = 48 || extended = 58) = true)
    (h : ∀ c ∈ color, c.Fits names) (set : Option PenColor → Pen)
    (hset : ∀ c, set (some c) = (set none).setSlot extended c)
    (hnamed : ∀ code, names code → Applies [[code]] (set none) (set (some (.named code)))) :
    Applies (colorGroups extended color).flatten (set none) (set color) := by
  cases color with
  | none => exact Applies.refl _
  | some color =>
    have hcolor := h color rfl
    rw [colorGroups, Option.map_some, Option.toList_some, List.flatten_singleton]
    cases color with
    | named code => exact hnamed code hcolor
    | indexed index =>
      rw [hset]
      exact applies_extended hcode (.indexed index) hcolor (set none)
    | rgb red green blue =>
      rw [hset]
      exact applies_extended hcode (.rgb red green blue) hcolor (set none)

theorem applies_namesForeground (h : namesForeground code) (pen : Pen) :
    Applies [[code]] pen { pen with foreground := some (.named code) } := by
  have hrange : (30 ≤ code ∧ code ≤ 37) ∨ (90 ≤ code ∧ code ≤ 97) := by
    simpa [namesForeground] using h
  have hset : pen.applySimple code = { pen with foreground := some (.named code) } := by
    unfold namesForeground at h
    unfold Pen.applySimple
    dsimp only
    rw [if_pos h, byteOf_of_lt (by omega)]
    rfl
  rw [← hset]
  exact applies_simple (by simp; omega) pen

theorem applies_namesBackground (h : namesBackground code) (pen : Pen) :
    Applies [[code]] pen { pen with background := some (.named code) } := by
  have hrange : (40 ≤ code ∧ code ≤ 47) ∨ (100 ≤ code ∧ code ≤ 107) := by
    simpa [namesBackground] using h
  have hset : pen.applySimple code = { pen with background := some (.named code) } := by
    unfold namesBackground at h
    unfold Pen.applySimple
    dsimp only
    rw [if_neg (by simp; omega), if_pos h, byteOf_of_lt (by omega)]
    rfl
  rw [← hset]
  exact applies_simple (by simp; omega) pen

/-- The groups of a regular pen make the default one into it. -/
theorem Regular.applies (h : pen.Regular) : Applies pen.allGroups {} pen := by
  have hlow : ∀ code ∈ [(1, 0), (2, 1), (3, 2)], code ∈ attributeCodes.zipIdx := by decide
  have hhigh : ∀ code ∈ [(5, 3), (6, 4), (7, 5), (8, 6), (9, 7), (53, 8)],
      code ∈ attributeCodes.zipIdx := by decide
  have hattributes := ((applies_attributeGroups pen hlow {}).trans
    (applies_underlineGroups pen _ h.underline rfl)).trans (applies_attributeGroups pen hhigh _)
  have hbits := addBits_all h.attributes
  simp only [List.map_cons, List.map_nil] at hattributes
  rw [hbits] at hattributes
  have hforeground := applies_colorGroups 38 rfl h.foreground
    (fun color => ⟨pen.attributes, pen.underline, color, none, none⟩) (fun _ => rfl)
    fun _ hnames => applies_namesForeground hnames _
  have hbackground := applies_colorGroups 48 rfl h.background
    (fun color => ⟨pen.attributes, pen.underline, pen.foreground, color, none⟩) (fun _ => rfl)
    fun _ hnames => applies_namesBackground hnames _
  have hunderline := applies_colorGroups 58 rfl h.underlineColor
    (fun color => ⟨pen.attributes, pen.underline, pen.foreground, pen.background, color⟩) (fun _ => rfl)
    fun _ hnames => absurd hnames Bool.false_ne_true
  rw [allGroups_eq]
  exact hattributes.trans ((hforeground.trans hbackground).trans hunderline)

/-- Parameters that are read back, of no more than `n` values. -/
structure Small (params : Params) (n : ℕ) : Prop where
  values : ∀ group ∈ params, group ≠ [] ∧ ∀ value ∈ group, value ≤ maxParam
  few : (params.map List.length).sum ≤ n

theorem Small.append {params more : Params} {n m : ℕ} (h : Small params n) (hmore : Small more m) :
    Small (params ++ more) (n + m) := by
  refine ⟨fun group hgroup => (List.mem_append.1 hgroup).elim (h.values group) (hmore.values group), ?_⟩
  rw [List.map_append, List.sum_append]
  exact Nat.add_le_add h.few hmore.few

theorem small_nil (n : ℕ) : Small [] n := ⟨fun _ h => absurd h List.not_mem_nil, Nat.zero_le _⟩

theorem small_cons {value : ℕ} (hvalue : value ≤ maxParam) {params : Params} {n : ℕ}
    (h : Small params n) : Small ([value] :: params) (n + 1) := by
  refine ⟨fun group hgroup => ?_, ?_⟩
  · rcases List.mem_cons.1 hgroup with rfl | hgroup
    · exact ⟨List.cons_ne_nil _ _, fun v hv => List.mem_singleton.1 hv ▸ hvalue⟩
    · exact h.values group hgroup
  · rw [List.map_cons, List.sum_cons, List.length_singleton, Nat.add_comm]
    exact Nat.succ_le_succ h.few

theorem small_attributeGroups (pen : Pen) (codes : List (ℕ × ℕ))
    (h : ∀ code ∈ codes, code.1 ≤ maxParam) : Small (pen.attributeGroups codes).flatten codes.length := by
  induction codes with
  | nil => exact small_nil _
  | cons code codes ih =>
    have hrest := ih fun c hc => h c (List.mem_cons_of_mem _ hc)
    have hcons : pen.attributeGroups (code :: codes) =
        (if pen.has code.2 then [[[code.1]]] else []) ++ pen.attributeGroups codes := rfl
    rw [hcons, List.flatten_append]
    split
    · exact small_cons (h code List.mem_cons_self) hrest
    · exact ⟨hrest.values, Nat.le_succ_of_le hrest.few⟩

theorem small_underlineGroups (h : pen.underline ≤ maxUnderlineStyle) :
    Small pen.underlineGroups.flatten 2 := by
  have hmost : maxUnderlineStyle ≤ maxParam := by decide
  unfold underlineGroups
  split
  · exact small_nil _
  · split
    · exact small_cons (by decide) (small_nil 1)
    · refine ⟨fun group hgroup => ?_, Nat.le_refl _⟩
      rw [List.flatten_singleton, List.mem_singleton] at hgroup
      subst hgroup
      refine ⟨List.cons_ne_nil _ _, fun value hvalue => ?_⟩
      rcases List.mem_cons.1 hvalue with rfl | hvalue
      · decide
      · rw [List.mem_singleton.1 hvalue]
        omega

theorem small_colorGroups {extended : ℕ} (hextended : extended ≤ maxParam)
    (hnames : ∀ code, names code → code ≤ maxParam)
    (h : ∀ c ∈ color, c.Fits names) : Small (colorGroups extended color).flatten 5 := by
  have hbyte : ∀ {value : ℕ}, value < 256 → value ≤ maxParam := fun hlt =>
    Nat.le_trans (Nat.le_of_lt hlt) (by decide)
  cases color with
  | none => exact small_nil _
  | some color =>
    have hcolor := h color rfl
    rw [colorGroups, Option.map_some, Option.toList_some, List.flatten_singleton]
    cases color with
    | named code => exact small_cons (hnames code hcolor) (small_nil 4)
    | indexed index =>
      exact small_cons hextended (small_cons (by decide) (small_cons (hbyte hcolor) (small_nil 2)))
    | rgb red green blue =>
      obtain ⟨hred, hgreen, hblue⟩ := hcolor
      exact small_cons hextended (small_cons (by decide) (small_cons (hbyte hred)
        (small_cons (hbyte hgreen) (small_cons (hbyte hblue) (small_nil 0)))))

theorem Regular.readable (h : pen.Regular) (hne : pen.allGroups ≠ []) : Readable pen.allGroups := by
  have hforeground : ∀ code, namesForeground code → code ≤ maxParam := fun code hcode => by
    simp only [namesForeground, Bool.or_eq_true, Bool.and_eq_true, decide_eq_true_eq] at hcode
    have : maxParam = 65535 := rfl
    omega
  have hbackground : ∀ code, namesBackground code → code ≤ maxParam := fun code hcode => by
    simp only [namesBackground, Bool.or_eq_true, Bool.and_eq_true, decide_eq_true_eq] at hcode
    have : maxParam = 65535 := rfl
    omega
  have hsmall := (((small_attributeGroups pen [(1, 0), (2, 1), (3, 2)] (by decide)).append
    (small_underlineGroups h.underline)).append (small_attributeGroups pen
      [(5, 3), (6, 4), (7, 5), (8, 6), (9, 7), (53, 8)] (by decide))).append
    (((small_colorGroups (by decide : 38 ≤ maxParam) hforeground h.foreground).append
      (small_colorGroups (by decide : 48 ≤ maxParam) hbackground h.background)).append
      (small_colorGroups (by decide : 58 ≤ maxParam) (fun _ hn => absurd hn Bool.false_ne_true)
        h.underlineColor))
  rw [← allGroups_eq] at hsmall
  exact ⟨hne, hsmall.values, Nat.le_trans hsmall.few (by decide)⟩

theorem parts_ne_nil (pen : Pen) : ∀ part ∈ pen.parts, part ≠ [] := by
  have hattributes : ∀ codes, ∀ part ∈ pen.attributeGroups codes, part ≠ [] := by
    intro codes part hpart
    obtain ⟨⟨code, bit⟩, -, hcode⟩ := List.mem_flatMap.1 hpart
    dsimp only at hcode
    split at hcode
    · rw [List.mem_singleton.1 hcode]
      exact List.cons_ne_nil _ _
    · cases hcode
  have hcolors : ∀ extended color, ∀ part ∈ colorGroups extended color, part ≠ [] := by
    intro extended color part hpart
    rw [colorGroups, Option.mem_toList, Option.map_eq_some_iff] at hpart
    obtain ⟨c, -, rfl⟩ := hpart
    cases c <;> exact List.cons_ne_nil _ _
  have hunderline : ∀ part ∈ pen.underlineGroups, part ≠ [] := by
    unfold underlineGroups
    split
    · exact fun _ h => absurd h List.not_mem_nil
    · split <;> exact fun _ h => List.mem_singleton.1 h ▸ List.cons_ne_nil _ _
  intro part hpart
  simp only [parts, List.mem_append] at hpart
  rcases hpart with ((h | h) | h) | (h | h) | h
  · exact hattributes _ part h
  · exact hunderline part h
  · exact hattributes _ part h
  all_goals exact hcolors _ _ part h

theorem params_eq (pen : Pen) : pen.params = paramsText pen.allGroups := by
  rw [params, written_eq, joined_map_paramsText pen.parts_ne_nil, allGroups]

theorem Regular.eq_default (h : pen.Regular) (hnil : pen.allGroups = []) : pen = {} := by
  have happlies := h.applies
  rw [hnil] at happlies
  obtain ⟨fuel, -, heq⟩ := happlies [] 0 (Nat.le_refl _)
  cases fuel <;> exact heq.symm

/-- A regular pen's parameters are read as one sequence that makes the default pen into it. -/
theorem Regular.run_params (h : pen.Regular) {σ : Type} {vt : VtParser σ} (hvt : vt.ReadsCsi) :
    ∃ params, vt.run vt.init (csi ++ pen.params ++ ['m']).intoBytes =
        (vt.init, [.csiDispatch params [] false 'm']) ∧ Pen.apply {} params = pen := by
  by_cases hplain : pen.allGroups = []
  · rw [h.eq_default hplain]
    exact ⟨[[0]], hvt.bare 'm' (by decide), by decide⟩
  · refine ⟨pen.allGroups, ?_, h.applies.apply hplain⟩
    rw [params_eq]
    exact hvt.params none _ 'm' (by simp) (h.readable hplain) (by decide)

/-- **The pen comes back.**  Whatever sequences left a pen, the parameters it writes are read as one
SGR sequence, which makes the default pen into it. -/
theorem params_roundtrip {σ : Type} {vt : VtParser σ} (hvt : vt.ReadsCsi) (lists : List Params) :
    let pen := lists.foldl apply {}
    ∃ params, vt.run vt.init (csi ++ pen.params ++ ['m']).intoBytes =
        (vt.init, [.csiDispatch params [] false 'm']) ∧ apply {} params = pen :=
  (regular_foldl_apply lists).run_params hvt

theorem params_roundtrip_of_bold :
    ∃ params, byteReading.run .ground
        (csi ++ Pen.params ([[[1], [38, 5, 9]]].foldl apply {}) ++ ['m']).intoBytes =
        (.ground, [.csiDispatch params [] false 'm']) ∧
      apply {} params = [[[1], [38, 5, 9]]].foldl apply {} :=
  params_roundtrip byteReading_readsCsi [[[1], [38, 5, 9]]]

end Pen

end Muster.Terminal
