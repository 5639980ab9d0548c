import Xcom.Display.Format
import Xcom.Script.Engine
import Xcom.Text.Delimited
import Xcom.Text.Numeral

/-!
# Highlight rules on their way to the renderer

The bridge writes a rule as three strings, the colour in hexadecimal digits; the native side
walks over them.
-/

namespace Xcom.Script.Highlighting

open Delimited
open Engine (Rule)
open Display (hexDigit)

/-! ## The bridge -/

/-- `IM_COL32`. -/
structure Color where
  r : UInt8
  g : UInt8
  b : UInt8
  a : UInt8
  deriving DecidableEq, Repr

/-- `HighlightRule`; a background is translucent, a text is not. -/
structure NativeRule where
  pattern : Bytes
  color : Color
  background : Bool
  alpha : color.a = if background then 90 else 255
  deriving DecidableEq, Repr

/-- The number `%X` writes: a negative one in the complement of 64 bits. -/
def unsigned (color : Int) : Nat := (color % 2 ^ 64).toNat

/-- `string.format("%06X", color)`. -/
def formatColor (color : Int) : Bytes :=
  (Numeral.padded 16 6 (unsigned color)).map fun d => hexDigit d.toUInt8

/-- The name of a style. -/
def styleName (bg : Bool) : Bytes := if bg then [0x62, 0x67] else [0x74, 0x65, 0x78, 0x74]

/-- The parts of a rule. -/
def parts (rule : Rule) : List Bytes :=
  [rule.pattern, formatColor rule.color, styleName rule.bg]

/-- `table.concat(parts, "\0")`. -/
def pack (rules : List Rule) : Bytes := List.intercalate [0] (rules.flatMap parts)

/-! ## The native side -/

/-- The value of a hexadecimal digit. -/
def nibble (c : UInt8) : Option Nat :=
  if 0x30 ≤ c ∧ c ≤ 0x39 then some (c - 0x30).toNat
  else if 0x41 ≤ c ∧ c ≤ 0x46 then some (c - 0x41 + 10).toNat
  else if 0x61 ≤ c ∧ c ≤ 0x66 then some (c - 0x61 + 10).toNat
  else none

/-- The loop over at most `digits` digits, and where it stops. -/
def readColor : Nat → Nat → Bytes → Nat × Bytes
  | 0, value, cursor => (value, cursor)
  | _ + 1, value, [] => (value, [])
  | digits + 1, value, c :: cursor =>
    if c = 0 then (value, c :: cursor)
    else
      match nibble c with
      | none => (value, c :: cursor)
      | some d => readColor digits (value <<< 4 ||| d) cursor

/-- `RRGGBB` to `ImU32`. -/
def Color.ofRgb (rgb : Nat) (background : Bool) : Color where
  r := (rgb >>> 16).toUInt8
  g := (rgb >>> 8).toUInt8
  b := rgb.toUInt8
  a := if background then 90 else 255

/-- A rule with its colour. -/
def NativeRule.ofRgb (pattern : Bytes) (rgb : Nat) (background : Bool) : NativeRule where
  pattern := pattern
  color := .ofRgb rgb background
  background := background
  alpha := rfl

/-- One rule, and the cursor behind it. -/
def readRule (cursor : Bytes) : NativeRule × Bytes :=
  let pattern := before 0 cursor
  let (rgb, cursor) := readColor 6 0 (behind 0 cursor)
  let cursor := behind 0 cursor
  let background : Bool := before 0 cursor = styleName true
  (.ofRgb pattern rgb background, behind 0 cursor)

/-- The loop over the rules. -/
def readRules : Nat → Bytes → List NativeRule
  | 0, _ => []
  | count + 1, cursor => (readRule cursor).1 :: readRules count (readRule cursor).2

/-- The cap of `xcom_imgui_set_highlight_rules`. -/
def maxRules : Nat := 32

/-- `M:set_highlight_rules`, and what `xcom_imgui_set_highlight_rules` makes of it; a Lua
string has a NUL behind it. -/
def setHighlightRules (rules : List Rule) : List NativeRule :=
  if rules = [] then [] else readRules (min rules.length maxRules) (pack rules ++ [0])

/-- The rule as it was meant. -/
def meant (rule : Rule) : NativeRule :=
  .ofRgb rule.pattern (rule.color % 2 ^ 24).toNat rule.bg

/-! ## One rule -/

theorem nibble_hexDigit {d : Nat} (h : d < 16) : nibble (hexDigit d.toUInt8) = some d := by
  have hall : ∀ d : Fin 16, nibble (hexDigit d.val.toUInt8) = some d.val := by decide
  exact hall ⟨d, h⟩

theorem hexDigit_ne_zero {d : Nat} (h : d < 16) : hexDigit d.toUInt8 ≠ 0 := by
  have hall : ∀ d : Fin 16, hexDigit d.val.toUInt8 ≠ 0 := by decide
  exact hall ⟨d, h⟩

theorem shift_or {v d : Nat} (h : d < 16) : v <<< 4 ||| d = v * 16 + d := by
  rw [← Nat.shiftLeft_add_eq_or_of_lt h, Nat.shiftLeft_eq]

/-- The digits are read as far as the loop goes, and the others are left. -/
theorem readColor_digits (rest : Bytes) (k v : Nat) {ds : List Nat} (hds : ∀ d ∈ ds, d < 16)
    (hk : k ≤ ds.length) :
    readColor k v (ds.map (fun d => hexDigit d.toUInt8) ++ rest) =
      (Numeral.readOn 16 v (ds.take k), (ds.drop k).map (fun d => hexDigit d.toUInt8) ++ rest) := by
  induction k generalizing v ds with
  | zero => rfl
  | succ k ih =>
    cases ds with
    | nil => simp at hk
    | cons d ds =>
      have hd : d < 16 := hds d List.mem_cons_self
      rw [List.map_cons, List.cons_append, readColor, if_neg (hexDigit_ne_zero hd),
        nibble_hexDigit hd]
      dsimp only
      rw [ih _ (fun e he => hds e (List.mem_cons_of_mem _ he)) (by simpa using hk), shift_or hd]
      rfl

/-- What the loop reads of a colour. -/
def leading (n : Nat) : Nat := n / 16 ^ ((Nat.digits 16 n).length - 6)

theorem digits_plain {ds : List Nat} (hds : ∀ d ∈ ds, d < 16) :
    (0 : UInt8) ∉ ds.map fun d => hexDigit d.toUInt8 := by
  intro hmem
  obtain ⟨d, hd, hzero⟩ := List.mem_map.mp hmem
  exact hexDigit_ne_zero (hds d hd) hzero

/-- A rule that is written is read back up to the colour, if its pattern holds no NUL. -/
theorem readRule_marked {rule : Rule} (h : 0 ∉ rule.pattern) (rest : Bytes) :
    readRule (marked 0 (parts rule) ++ rest) =
      (.ofRgb rule.pattern (leading (unsigned rule.color)) rule.bg, rest) := by
  have hdigits : ∀ d ∈ Numeral.padded 16 6 (unsigned rule.color), d < 16 :=
    fun d hd => Numeral.padded_lt (by decide) hd
  have hwritten : marked 0 (parts rule) ++ rest = rule.pattern ++ 0 ::
      (formatColor rule.color ++ 0 :: (styleName rule.bg ++ 0 :: rest)) := by
    simp [marked, parts]
  have hcolor : readColor 6 0 (formatColor rule.color ++ 0 :: (styleName rule.bg ++ 0 :: rest)) =
      (leading (unsigned rule.color),
        ((Numeral.padded 16 6 (unsigned rule.color)).drop 6).map (fun d => hexDigit d.toUInt8) ++
          0 :: (styleName rule.bg ++ 0 :: rest)) := by
    rw [formatColor, readColor_digits _ _ _ hdigits (Numeral.length_padded _ _ _),
      Numeral.readOn_take_padded (by decide)]
    rfl
  have hrest : (0 : UInt8) ∉ ((Numeral.padded 16 6 (unsigned rule.color)).drop 6).map
      fun d => hexDigit d.toUInt8 :=
    digits_plain fun d hd => hdigits d (List.mem_of_mem_drop hd)
  have hstyle : (0 : UInt8) ∉ styleName rule.bg := by
    cases rule.bg <;> decide
  have hbackground : decide (styleName rule.bg = styleName true) = rule.bg := by
    cases rule.bg <;> decide
  rw [hwritten, readRule]
  simp only [before_mark h, behind_mark h, hcolor, behind_mark hrest, before_mark hstyle,
    behind_mark hstyle, hbackground]

/-- A rule whose pattern holds a NUL is read back with another pattern. -/
theorem readRule_nul {rule : Rule} (h : 0 ∈ rule.pattern) (cursor : Bytes) :
    (readRule cursor).1 ≠ meant rule := by
  intro heq
  have hpattern : before 0 cursor = rule.pattern := congrArg NativeRule.pattern heq
  rw [← hpattern] at h
  exact not_mem_before cursor h

theorem ofRgb_inj {v w : Nat} (hv : v < 2 ^ 24) (hw : w < 2 ^ 24) {bg : Bool} :
    Color.ofRgb v bg = Color.ofRgb w bg ↔ v = w := by
  constructor
  · intro h
    have hred := congrArg (fun c : Color => c.r.toNat) h
    have hgreen := congrArg (fun c : Color => c.g.toNat) h
    have hblue := congrArg (fun c : Color => c.b.toNat) h
    simp only [Color.ofRgb, Nat.shiftRight_eq_div_pow, Nat.toUInt8_eq, UInt8.toNat_ofNat']
      at hred hgreen hblue
    omega
  · exact fun h => h ▸ rfl

/-- The pattern holds no NUL, and the first six hexadecimal digits of the colour are its last
six. -/
def Carried (rule : Rule) : Prop :=
  0 ∉ rule.pattern ∧ leading (unsigned rule.color) = (rule.color % 2 ^ 24).toNat

/-- A colour of 24 bits has no more digits than are read. -/
theorem carried_of_range {rule : Rule} (h : 0 ∉ rule.pattern) (hpos : 0 ≤ rule.color)
    (hlt : rule.color < 2 ^ 24) : Carried rule := by
  refine ⟨h, ?_⟩
  have hunsigned : unsigned rule.color < 16 ^ 6 := by
    unfold unsigned
    omega
  rw [leading, Numeral.leading_of_lt (by decide) hunsigned]
  unfold unsigned
  omega

theorem readRule_iff (rule : Rule) (rest : Bytes) :
    (readRule (marked 0 (parts rule) ++ rest)).1 = meant rule ↔ Carried rule := by
  by_cases hnul : 0 ∈ rule.pattern
  · constructor
    · exact fun heq => absurd heq (readRule_nul hnul _)
    · exact fun hcarried => absurd hnul hcarried.1
  · have hread : leading (unsigned rule.color) < 2 ^ 24 :=
      Numeral.leading_lt (b := 16) (by decide) 6 _
    have hmeant : (rule.color % 2 ^ 24).toNat < 2 ^ 24 := by omega
    rw [readRule_marked hnul, meant]
    constructor
    · intro heq
      exact ⟨hnul, (ofRgb_inj hread hmeant).mp (congrArg NativeRule.color heq)⟩
    · exact fun hcarried => congrArg (NativeRule.ofRgb rule.pattern · rule.bg) hcarried.2

/-! ## The list -/

theorem length_readRules (count : Nat) (cursor : Bytes) :
    (readRules count cursor).length = count := by
  induction count generalizing cursor with
  | zero => rfl
  | succ count ih => exact congrArg (· + 1) (ih _)

/-- The rules are read one after the other, as far as they were carried. -/
theorem readRules_iff (rules : List Rule) :
    readRules rules.length (marked 0 (rules.flatMap parts)) = rules.map meant ↔
      ∀ rule ∈ rules, Carried rule := by
  induction rules with
  | nil => simp [readRules]
  | cons rule rules ih =>
    rw [List.flatMap_cons, marked_append, List.length_cons, readRules, List.map_cons,
      List.cons.injEq, readRule_iff, List.forall_mem_cons]
    apply and_congr_right
    intro hcarried
    rw [readRule_marked hcarried.1]
    exact ih

/-- Rules come back as they were pushed exactly where there are at most 32 of them, no
pattern holds a NUL and the first six digits of every colour are its last six. -/
theorem rules_packed_iff (rules : List Rule) :
    setHighlightRules rules = rules.map meant ↔
      rules.length ≤ maxRules ∧ ∀ rule ∈ rules, Carried rule := by
  by_cases hempty : rules = []
  · subst hempty
    simp [setHighlightRules]
  · have hparts : rules.flatMap parts ≠ [] := by
      obtain ⟨rule, rules, rfl⟩ := List.exists_cons_of_ne_nil hempty
      simp [parts]
    rw [setHighlightRules, if_neg hempty, pack, intercalate_append_stop 0 hparts]
    by_cases hmany : rules.length ≤ maxRules
    · rw [Nat.min_eq_left hmany, readRules_iff]
      exact ⟨fun h => ⟨hmany, h⟩, fun h => h.2⟩
    · constructor
      · intro heq
        have hlen := congrArg List.length heq
        rw [length_readRules, List.length_map] at hlen
        exact absurd (hlen ▸ Nat.min_le_right _ _) hmany
      · exact fun h => absurd h.1 hmany

/-- A colour of 25 bits comes back as another one, and a pattern with a NUL takes the rule
behind it along. -/
theorem rule_shifted :
    setHighlightRules [⟨[0x41], 0x1000000, false⟩] ≠
      [⟨[0x41], 0x1000000, false⟩].map meant ∧
    setHighlightRules [⟨[0x41, 0, 0x42], 0xFF, false⟩, ⟨[0x43], 0xFF, true⟩] =
      [.ofRgb [0x41] 0x0B false,
        .ofRgb [0x74, 0x65, 0x78, 0x74] 0x0C false] := by
  constructor
  · decide
  · decide

end Xcom.Script.Highlighting
