import Mathlib.Data.List.DropRight

/-!
# JSON for scripts

`libs/protocol/json.lua`, which the sandbox hands to scripts: `encode` with its refusals, and the
recursive descent of `decode` with the position of each error.  The numbers are the runtime's.
-/

namespace Xcom.Protocol.Json

abbrev Text := List UInt8

/-- What the Lua runtime provides: `%.14g`, with `none` for NaN and the infinities, `tonumber`, and
the length of a table from which of its items are there. -/
structure Runtime (N : Type) where
  format : N → Option Text
  tonumber : Text → Option N
  border : List Bool → Nat

/-- A Lua value.  A table has items, and one before the last may be missing, or it has members
in the order of `pairs`. -/
inductive Value (N : Type)
  | nil
  | bool (b : Bool)
  | number (n : N)
  | string (s : Text)
  | array (items : List (Value N))
  | object (members : List (Text × Value N))

variable {N : Type}

def Value.isNil : Value N → Bool
  | .nil => true
  | _ => false

/-! ## Encode -/

def nullText : Text := [0x6E, 0x75, 0x6C, 0x6C]
def trueText : Text := [0x74, 0x72, 0x75, 0x65]
def falseText : Text := [0x66, 0x61, 0x6C, 0x73, 0x65]

/-- `escape_char_map`. -/
def escapeLetter (c : UInt8) : Option UInt8 :=
  if c = 0x5C then some 0x5C
  else if c = 0x22 then some 0x22
  else if c = 0x08 then some 0x62
  else if c = 0x0C then some 0x66
  else if c = 0x0A then some 0x6E
  else if c = 0x0D then some 0x72
  else if c = 0x09 then some 0x74
  else none

def hexDigit (d : Nat) : UInt8 := if d < 10 then 0x30 + UInt8.ofNat d else 0x57 + UInt8.ofNat d

/-- `%04x`. -/
def hex4 (n : Nat) : Text :=
  [hexDigit (n / 4096 % 16), hexDigit (n / 256 % 16), hexDigit (n / 16 % 16), hexDigit (n % 16)]

/-- `escape_char`. -/
def escapeChar (c : UInt8) : Text :=
  match escapeLetter c with
  | some letter => [0x5C, letter]
  | none => 0x5C :: 0x75 :: hex4 c.toNat

/-- The `gsub` of `encode_string`. -/
def escaped (c : UInt8) : Text :=
  if c < 32 ∨ c = 0x5C ∨ c = 0x22 then escapeChar c else [c]

/-- `encode_string`. -/
def encodeString (val : Text) : Text := 0x22 :: val.flatMap escaped ++ [0x22]

inductive EncodeError
  | number
  | keyTypes
  | sparse
  deriving DecidableEq, Repr

/-- `table.concat` with commas. -/
def concat (texts : List Text) : Text := [0x2C].intercalate texts

mutual

/-- `encode`. -/
def encode (rt : Runtime N) : Value N → Except EncodeError Text
  | .nil => .ok nullText
  | .bool b => .ok (if b then trueText else falseText)
  | .number n =>
    match rt.format n with
    | some text => .ok text
    | none => .error .number
  | .string s => .ok (encodeString s)
  | .array items =>
    -- An empty table is an array; one without its first item has a number among its keys.
    if items.all Value.isNil then .ok [0x5B, 0x5D]
    else if (items.head?.all Value.isNil) then .error .keyTypes
    else if items.countP (!·.isNil) ≠ rt.border (items.map (!·.isNil)) then .error .sparse
    else (encodeItems rt items).map fun texts => 0x5B :: concat texts ++ [0x5D]
  | .object members =>
    if members.isEmpty then .ok [0x5B, 0x5D]
    else (encodeMembers rt members).map fun texts => 0x7B :: concat texts ++ [0x7D]

/-- The loop over `ipairs`, which ends at the first item that is missing. -/
def encodeItems (rt : Runtime N) : List (Value N) → Except EncodeError (List Text)
  | [] => .ok []
  | v :: items =>
    if v.isNil then .ok []
    else
      match encode rt v, encodeItems rt items with
      | .ok text, .ok texts => .ok (text :: texts)
      | .error e, _ | .ok _, .error e => .error e

/-- The loop over `pairs`. -/
def encodeMembers (rt : Runtime N) : List (Text × Value N) → Except EncodeError (List Text)
  | [] => .ok []
  | (key, v) :: members =>
    match encode rt v, encodeMembers rt members with
    | .ok text, .ok texts => .ok ((encodeString key ++ 0x3A :: text) :: texts)
    | .error e, _ | .ok _, .error e => .error e

end

/-! ## Decode -/

inductive Message
  | controlCharacter
  | unicodeEscape
  | escapeChar (c : Text)
  | closingQuote
  | number (s : Text)
  | literal (word : Text)
  | arrayDelimiter
  | stringForKey
  | colonAfterKey
  | objectDelimiter
  | character (c : Text)
  | trailingGarbage
  deriving DecidableEq, Repr

/-- What ends a decode: an error at an index of the text, a codepoint that does not exist, or,
in this model only, steps that ran out. -/
inductive Fault
  | position (idx : Nat) (message : Message)
  | codepoint (n : Nat)
  | outOfFuel
  deriving DecidableEq, Repr

def isSpace (c : UInt8) : Bool := c = 0x20 || c = 0x09 || c = 0x0D || c = 0x0A
def isDelim (c : UInt8) : Bool := isSpace c || c = 0x5D || c = 0x7D || c = 0x2C

/-- The index of what is left of a text of `size` bytes. -/
def index (size : Nat) (rest : Text) : Nat := size - rest.length + 1

/-- `next_char` over the spaces. -/
def skipSpaces (rest : Text) : Text := rest.dropWhile isSpace

/-- `codepoint_to_utf8`. -/
def codepointToUtf8 (n : Nat) : Except Fault Text :=
  if n ≤ 0x7f then .ok [UInt8.ofNat n]
  else if n ≤ 0x7ff then .ok [UInt8.ofNat (n / 64 + 192), UInt8.ofNat (n % 64 + 128)]
  else if n ≤ 0xffff then
    .ok [UInt8.ofNat (n / 4096 + 224), UInt8.ofNat (n % 4096 / 64 + 128),
      UInt8.ofNat (n % 64 + 128)]
  else if n ≤ 0x10ffff then
    .ok [UInt8.ofNat (n / 262144 + 240), UInt8.ofNat (n % 262144 / 4096 + 128),
      UInt8.ofNat (n % 4096 / 64 + 128), UInt8.ofNat (n % 64 + 128)]
  else .error (.codepoint n)

def hexValue (c : UInt8) : Option Nat :=
  if 0x30 ≤ c ∧ c ≤ 0x39 then some (c.toNat - 0x30)
  else if 0x61 ≤ c ∧ c ≤ 0x66 then some (c.toNat - 0x57)
  else if 0x41 ≤ c ∧ c ≤ 0x46 then some (c.toNat - 0x37)
  else none

/-- `^%x%x%x%x` with its value. -/
def hexQuad : Text → Option (Nat × Text)
  | a :: b :: c :: d :: rest => do
    let a ← hexValue a
    let b ← hexValue b
    let c ← hexValue c
    let d ← hexValue d
    some (((a * 16 + b) * 16 + c) * 16 + d, rest)
  | _ => none

/-- `^[dD][89aAbB]%x%x\\u%x%x%x%x` with its values. -/
def surrogatePair (rest : Text) : Option (Nat × Nat × Text) :=
  match hexQuad rest with
  | some (n1, rest) =>
    if 0xd800 ≤ n1 ∧ n1 < 0xdc00 ∧ rest.take 2 = [0x5C, 0x75] then
      (hexQuad (rest.drop 2)).map fun (n2, rest) => (n1, n2, rest)
    else none
  | none => none

/-- The part of `parse_string` behind `\u`, with `parse_unicode_escape`. -/
def unicodeEscape (idx : Nat) (rest : Text) : Except Fault (Text × Text) :=
  match surrogatePair rest with
  | some (n1, n2, rest) =>
    -- The second half is any four digits, so the sum is written without a negative term.
    (codepointToUtf8 ((n1 - 0xd800) * 0x400 + (n2 + 0x10000 - 0xdc00))).map (·, rest)
  | none =>
    match hexQuad rest with
    | some (n1, rest) => (codepointToUtf8 n1).map (·, rest)
    | none => .error (.position idx .unicodeEscape)

/-- `escape_char_map_inv`. -/
def unescapeLetter (c : UInt8) : Option UInt8 :=
  if c = 0x2F then some 0x2F
  else if c = 0x5C then some 0x5C
  else if c = 0x22 then some 0x22
  else if c = 0x62 then some 0x08
  else if c = 0x66 then some 0x0C
  else if c = 0x6E then some 0x0A
  else if c = 0x72 then some 0x0D
  else if c = 0x74 then some 0x09
  else none

/-- The part of `parse_string` behind a backslash. -/
def escapeSequence (idx : Nat) : Text → Except Fault (Text × Text)
  | [] => .error (.position idx (.escapeChar []))
  | c :: rest =>
    if c = 0x75 then unicodeEscape idx rest
    else
      match unescapeLetter c with
      | some b => .ok ([b], rest)
      | none => .error (.position idx (.escapeChar [c]))

/-- The loop of `parse_string`. -/
def stringLoop (size start : Nat) : Nat → Text → Text → Except Fault (Text × Text)
  | 0, _, _ => .error .outOfFuel
  | _ + 1, _, [] => .error (.position start .closingQuote)
  | fuel + 1, res, x :: rest =>
    if x < 32 then .error (.position (index size (x :: rest)) .controlCharacter)
    else if x = 0x5C then
      match escapeSequence (index size (x :: rest)) rest with
      | .error fault => .error fault
      | .ok (bytes, rest) => stringLoop size start fuel (res ++ bytes) rest
    else if x = 0x22 then .ok (res, rest)
    else stringLoop size start fuel (res ++ [x]) rest

/-- `parse_string`, behind the quote. -/
def parseString (size : Nat) (rest : Text) : Except Fault (Text × Text) :=
  stringLoop size (index size rest - 1) (rest.length + 1) [] rest

/-- `next_char` up to a delimiter: the word before it, and what is left. -/
def wordOf (text : Text) : Text := text.takeWhile (!isDelim ·)
def behindWord (text : Text) : Text := text.dropWhile (!isDelim ·)

/-- `parse_number`. -/
def parseNumber (rt : Runtime N) (size : Nat) (text : Text) : Except Fault (Value N × Text) :=
  match rt.tonumber (wordOf text) with
  | some n => .ok (.number n, behindWord text)
  | none => .error (.position (index size text) (.number (wordOf text)))

/-- `parse_literal`. -/
def parseLiteral (size : Nat) (text : Text) : Except Fault (Value N × Text) :=
  if wordOf text = trueText then .ok (.bool true, behindWord text)
  else if wordOf text = falseText then .ok (.bool false, behindWord text)
  else if wordOf text = nullText then .ok (.nil, behindWord text)
  else .error (.position (index size text) (.literal (wordOf text)))

/-- The table of the items that were assigned: behind the last one there are none. -/
def ofItems (items : List (Value N)) : Value N := .array (items.rdropWhile Value.isNil)

/-- `res[key] = val`. -/
def setMember (key : Text) (val : Value N) (members : List (Text × Value N)) :
    List (Text × Value N) :=
  if val.isNil then members.filter (·.1 ≠ key)
  else if members.any (·.1 = key) then
    members.map fun m => if m.1 = key then (key, val) else m
  else members ++ [(key, val)]

/-- An empty table is the empty array. -/
def ofMembers : List (Text × Value N) → Value N
  | [] => .array []
  | members => .object members

mutual

/-- `parse`. -/
def parse (rt : Runtime N) (size : Nat) : Nat → Text → Except Fault (Value N × Text)
  | 0, _ => .error .outOfFuel
  | _ + 1, [] => .error (.position (index size []) (.character []))
  | fuel + 1, c :: rest =>
    if c = 0x22 then
      match parseString size rest with
      | .error fault => .error fault
      | .ok (s, rest) => .ok (.string s, rest)
    else if (0x30 ≤ c ∧ c ≤ 0x39) ∨ c = 0x2D then parseNumber rt size (c :: rest)
    else if c = 0x74 ∨ c = 0x66 ∨ c = 0x6E then parseLiteral size (c :: rest)
    else if c = 0x5B then parseArray rt size fuel [] rest
    else if c = 0x7B then parseObject rt size fuel [] rest
    else .error (.position (index size (c :: rest)) (.character [c]))

/-- The loop of `parse_array`.  A comma may stand before the bracket. -/
def parseArray (rt : Runtime N) (size : Nat) :
    Nat → List (Value N) → Text → Except Fault (Value N × Text)
  | 0, _, _ => .error .outOfFuel
  | fuel + 1, items, rest =>
    let rest := skipSpaces rest
    if rest.head? = some 0x5D then .ok (ofItems items, rest.tail)
    else
      match parse rt size fuel rest with
      | .error fault => .error fault
      | .ok (x, rest) =>
        let rest := skipSpaces rest
        if rest.head? = some 0x5D then .ok (ofItems (items ++ [x]), rest.tail)
        else if rest.head? = some 0x2C then parseArray rt size fuel (items ++ [x]) rest.tail
        else .error (.position (index size rest + 1) .arrayDelimiter)

/-- The loop of `parse_object`. -/
def parseObject (rt : Runtime N) (size : Nat) :
    Nat → List (Text × Value N) → Text → Except Fault (Value N × Text)
  | 0, _, _ => .error .outOfFuel
  | fuel + 1, members, rest =>
    let rest := skipSpaces rest
    if rest.head? = some 0x7D then .ok (ofMembers members, rest.tail)
    else if rest.head? ≠ some 0x22 then .error (.position (index size rest) .stringForKey)
    else
      match parseString size rest.tail with
      | .error fault => .error fault
      | .ok (key, rest) =>
        let rest := skipSpaces rest
        if rest.head? ≠ some 0x3A then .error (.position (index size rest) .colonAfterKey)
        else
          match parse rt size fuel (skipSpaces rest.tail) with
          | .error fault => .error fault
          | .ok (val, rest) =>
            let rest := skipSpaces rest
            let members := setMember key val members
            if rest.head? = some 0x7D then .ok (ofMembers members, rest.tail)
            else if rest.head? = some 0x2C then parseObject rt size fuel members rest.tail
            else .error (.position (index size rest + 1) .objectDelimiter)

end

/-- The steps of `json.decode`.  Each value takes a byte, so twice the length is enough. -/
def decodeSteps (rt : Runtime N) (str : Text) : Except Fault (Value N) :=
  match parse rt str.length (2 * str.length + 2) (skipSpaces str) with
  | .error fault => .error fault
  | .ok (res, rest) =>
    let rest := skipSpaces rest
    if rest = [] then .ok res else .error (.position (index str.length rest) .trailingGarbage)

/-! ## Errors -/

def ascii (s : String) : Text := s.toList.map fun c => UInt8.ofNat c.toNat

def Message.text : Message → Text
  | .controlCharacter => ascii "control character in string"
  | .unicodeEscape => ascii "invalid unicode escape in string"
  | .escapeChar c => ascii "invalid escape char '" ++ c ++ ascii "' in string"
  | .closingQuote => ascii "expected closing quote for string"
  | .number s => ascii "invalid number '" ++ s ++ ascii "'"
  | .literal word => ascii "invalid literal '" ++ word ++ ascii "'"
  | .arrayDelimiter => ascii "expected ']' or ','"
  | .stringForKey => ascii "expected string for key"
  | .colonAfterKey => ascii "expected ':' after key"
  | .objectDelimiter => ascii "expected '\x7d' or ','"
  | .character c => ascii "unexpected character '" ++ c ++ ascii "'"
  | .trailingGarbage => ascii "trailing garbage"

/-- One round of the loop in `decode_error`. -/
def countByte (str : Text) (place : Nat × Nat) (i : Nat) : Nat × Nat :=
  if str[i]? = some 0x0A then (place.1 + 1, 1) else (place.1, place.2 + 1)

/-- The line and the column `decode_error` counts up to an index. -/
def lineCol (str : Text) (idx : Nat) : Nat × Nat :=
  (List.range (idx - 1)).foldl (countByte str) (1, 1)

/-- What is raised. -/
def Fault.text (str : Text) : Fault → Text
  | .position idx message =>
    message.text ++ ascii " at line " ++ ascii (toString (lineCol str idx).1) ++ ascii " col " ++
      ascii (toString (lineCol str idx).2)
  | .codepoint n =>
    ascii "invalid unicode codepoint '" ++ ascii (String.ofList (Nat.toDigits 16 n)) ++ ascii "'"
  | .outOfFuel => []

/-- `json.decode`. -/
def decode (rt : Runtime N) (str : Text) : Except Text (Value N) :=
  (decodeSteps rt str).mapError (Fault.text str)

end Xcom.Protocol.Json
