import Mathlib.Data.List.AList
import Mathlib.Data.List.DropRight
import Mathlib.Data.List.Sort
import Mathlib.Data.Nat.Digits.Defs

/-!
# The configuration format

`config.lua`: a line-oriented text of sections, keys and values.  A value is a boolean, a
number or a byte string; a string that would be read back as something else is written as
a quoted literal.
-/

namespace Xcom.Config

/-- A Lua string. -/
abbrev Bytes := List UInt8

/-- The numbers of the Lua runtime: their texts and what a text is read as.  Integers of up
to 14 digits are written in decimal and read back. -/
structure Numbers (N : Type) where
  ofInt : Int → N
  tostring : N → Bytes
  tonumber : Bytes → Option N

/-- A value of a configuration. -/
inductive Value (N : Type)
  | boolean (b : Bool)
  | number (n : N)
  | string (s : Bytes)
  deriving DecidableEq, Repr

/-- The keys of a section. -/
abbrev Section (N : Type) := AList fun _ : Bytes => Value N

/-- A configuration. -/
abbrev Data (N : Type) := AList fun _ : Bytes => Section N

/-! ## Characters -/

/-- `%s`. -/
def isSpace (b : UInt8) : Bool := 0x09 ≤ b ∧ b ≤ 0x0D ∨ b = 0x20

/-- `%d`. -/
def isDigit (b : UInt8) : Bool := 0x30 ≤ b ∧ b ≤ 0x39

/-- `lower` of a byte. -/
def lowerByte (b : UInt8) : UInt8 := if 0x41 ≤ b ∧ b ≤ 0x5A then b + 0x20 else b

/-- `trim`. -/
def trim (s : Bytes) : Bytes := (s.dropWhile isSpace).rdropWhile isSpace

/-! ## Values -/

/-- `unescape_string`.  An unknown escape keeps its backslash. -/
def unescapeString : Bytes → Bytes
  | 0x5C :: c :: rest =>
    (if c = 0x6E then [0x0A] else if c = 0x72 then [0x0D] else if c = 0x74 then [0x09]
      else if c = 0x5C then [0x5C] else if c = 0x22 then [0x22] else [0x5C, c]) ++
      unescapeString rest
  | b :: rest => b :: unescapeString rest
  | [] => []

/-- `closing_quote_index`: the scan from `index` on. -/
def closingQuoteIndex : Bytes → Nat → Option Nat
  | [], _ => none
  | c :: rest, index =>
    if c = 0x5C then
      match rest with
      | [] => none
      | _ :: rest => closingQuoteIndex rest (index + 2)
    else if c = 0x22 then some index
    else closingQuoteIndex rest (index + 1)

/-- `true`, `yes`, `on`. -/
def trueWords : List Bytes := [[0x74, 0x72, 0x75, 0x65], [0x79, 0x65, 0x73], [0x6F, 0x6E]]

/-- `false`, `no`, `off`. -/
def falseWords : List Bytes :=
  [[0x66, 0x61, 0x6C, 0x73, 0x65], [0x6E, 0x6F], [0x6F, 0x66, 0x66]]

/-- A text without its sign. -/
def unsigned : Bytes → Bytes
  | 0x2B :: rest => rest
  | 0x2D :: rest => rest
  | s => s

/-- `^[+-]?%d+$`. -/
def matchesInteger (s : Bytes) : Bool := unsigned s ≠ [] ∧ (unsigned s).all isDigit

/-- `^[+-]?%d*%.?%d+$`. -/
def matchesDecimal (s : Bytes) : Bool :=
  match (unsigned s).dropWhile isDigit with
  | [] => unsigned s ≠ []
  | 0x2E :: frac => frac ≠ [] ∧ frac.all isDigit
  | _ => false

/-- The bare forms of `parse_value`. -/
def parseBare {N : Type} (numbers : Numbers N) (v : Bytes) : Value N :=
  if v.map lowerByte ∈ trueWords then .boolean true
  else if v.map lowerByte ∈ falseWords then .boolean false
  else if matchesInteger v ∨ matchesDecimal v then
    match numbers.tonumber v with
    | some n => .number n
    | none => .string v
  else .string v

/-- `parse_value`.  A quote without its end is read as a bare value. -/
def parseValue {N : Type} (numbers : Numbers N) (raw : Bytes) : Option (Value N) :=
  let v := trim raw
  if v = [] then none
  else if v.head? = some 0x22 then
    match closingQuoteIndex (v.drop 1) 2 with
    | some closing => some (.string (unescapeString ((v.drop 1).take (closing - 2))))
    | none => some (parseBare numbers v)
  else some (parseBare numbers v)

/-- `needs_quotes`. -/
def needsQuotes (s : Bytes) : Bool :=
  s = [] ∨ s ≠ trim s ∨ 0x0A ∈ s ∨ 0x0D ∈ s ∨ 0x22 ∈ s ∨ 0x5C ∈ s ∨
    s.map lowerByte ∈ trueWords ++ falseWords ∨ matchesInteger s ∨ matchesDecimal s

/-- `escape_string`. -/
def escapeString (s : Bytes) : Bytes :=
  s.flatMap fun c =>
    if c = 0x5C then [0x5C, 0x5C] else if c = 0x0A then [0x5C, 0x6E]
    else if c = 0x0D then [0x5C, 0x72] else if c = 0x09 then [0x5C, 0x74]
    else if c = 0x22 then [0x5C, 0x22] else [c]

/-- `dump_value`. -/
def dumpValue {N : Type} (numbers : Numbers N) : Value N → Bytes
  | .boolean true => [0x74, 0x72, 0x75, 0x65]
  | .boolean false => [0x66, 0x61, 0x6C, 0x73, 0x65]
  | .number n => numbers.tostring n
  | .string s => if needsQuotes s then [0x22] ++ escapeString s ++ [0x22] else s

/-! ## Reading -/

/-- `is_ignored`. -/
def isIgnored (line : Bytes) : Bool :=
  (line.dropWhile isSpace).head? ∈ [none, some 0x3B, some 0x23]

/-- `^%[(.-)%]`: the name in the brackets. -/
def sectionHeader (leading : Bytes) : Option Bytes :=
  match leading with
  | 0x5B :: rest => if 0x5D ∈ rest then some (rest.takeWhile (· ≠ 0x5D)) else none
  | _ => none

/-- The lines `(.-)\n` matches one after the other. -/
def gmatchLines : Bytes → Bytes → List Bytes
  | [], _ => []
  | b :: rest, line =>
    if b = 0x0A then line :: gmatchLines rest [] else gmatchLines rest (line ++ [b])

/-- `ensure_section()[key] = value`; a `nil` removes the key. -/
def assign {N : Type} (data : Data N) (name key : Bytes) (value : Option (Value N)) : Data N :=
  let keys := (data.lookup name).getD ∅
  data.insert name
    (match value with
    | some v => keys.insert key v
    | none => keys.erase key)

/-- One line of `parse`, with the section it stands in. -/
def parseLine {N : Type} (numbers : Numbers N) (st : Data N × Bytes) (line : Bytes) :
    Data N × Bytes :=
  if isIgnored line then st
  else
    match sectionHeader (line.dropWhile isSpace) with
    | some header => (st.1, trim header)
    | none =>
      let key := trim (line.takeWhile (· ≠ 0x3D))
      let rest := (line.dropWhile (· ≠ 0x3D)).drop 1
      if key = [] then st else (assign st.1 st.2 key (parseValue numbers rest), st.2)

/-- `M.parse`. -/
def parse {N : Type} (numbers : Numbers N) (s : Bytes) : Data N :=
  ((gmatchLines (s ++ [0x0A]) []).foldl (parseLine numbers) (∅, [])).1

/-! ## Writing -/

/-- The order of strings. -/
def lexLe : Bytes → Bytes → Bool
  | [], _ => true
  | _ :: _, [] => false
  | a :: as, b :: bs => a < b || (a = b && lexLe as bs)

/-- The line of a key. -/
def entryLine {N : Type} (numbers : Numbers N) (key : Bytes) (value : Value N) : Bytes :=
  key ++ [0x20, 0x3D, 0x20] ++ dumpValue numbers value

/-- `emit_section`, and the empty line after it. -/
def emitSection {N : Type} (numbers : Numbers N) (name : Bytes) (keys : Section N) :
    List Bytes :=
  (if name = [] then [] else [[0x5B] ++ name ++ [0x5D]]) ++
    keys.entries.map (fun e => entryLine numbers e.1 e.2) ++ [[]]

/-- The section names in the order they are written. -/
def sectionNames {N : Type} (data : Data N) : List Bytes :=
  data.keys.mergeSort lexLe

/-- `M.serialize`. -/
def serialize {N : Type} (numbers : Numbers N) (data : Data N) : Bytes :=
  [(0x0A : UInt8)].intercalate
    ((sectionNames data).flatMap fun name =>
      emitSection numbers name ((data.lookup name).getD ∅))

/-- `M.get` without a default. -/
def get {N : Type} (data : Data N) (name key : Bytes) : Option (Value N) :=
  (data.lookup name).bind fun keys => keys.lookup key

/-- `M.set`. -/
def set {N : Type} (data : Data N) (name key : Bytes) (value : Option (Value N)) : Data N :=
  assign data name key value

end Xcom.Config
