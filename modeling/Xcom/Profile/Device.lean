import Xcom.Pages.Store
import Xcom.Table.Assign
import Xcom.Table.Copy

/-!
# Device profiles

`device_profiles.lua`: the built-in profiles are tables that stay for the whole run, found
by hardware id or description.  A custom override is kept in the configuration as flat
dotted paths and is put over a copy of the profile.
-/

namespace Xcom.Profile

open Config (Bytes Value Data Numbers Section)
open Pages (bytes)
open Table (Cell Heap)

variable {N : Type}

/-- A key of a table: a name or an array index. -/
inductive Key
  | name (s : Bytes)
  | index (n : Int)
  deriving DecidableEq, Repr

/-- The tables of the program. -/
abbrev Tables (N : Type) := Heap Key (Value N)

/-! ## The built-in profiles -/

/-- A table with the fields of a literal. -/
def table (fields : List (Key × Cell (Value N))) : AList fun _ : Key => Cell (Value N) :=
  fields.foldr (fun field t => t.insert field.1 field.2) ∅

/-- A field with a text. -/
def text (name value : String) : Key × Cell (Value N) :=
  (.name (bytes name), .scalar (.string (bytes value)))

/-- A field with a truth value. -/
def flag (name : String) (value : Bool) : Key × Cell (Value N) :=
  (.name (bytes name), .scalar (.boolean value))

/-- A field with an integer. -/
def int (numbers : Numbers N) (name : String) (value : Int) : Key × Cell (Value N) :=
  (.name (bytes name), .scalar (.number (numbers.ofInt value)))

/-- A field with the table at an address. -/
def sub (name : String) (a : Nat) : Key × Cell (Value N) := (.name (bytes name), .table a)

/-- A profile with the automatic reset sequence, from the address `first` on. -/
def autoProfile (numbers : Numbers N) (first : Nat) (id hwid desc : String) :
    List (AList fun _ : Key => Cell (Value N)) :=
  [table [text "id" id, sub "match" (first + 1), sub "reset" (first + 2),
      text "flow_control" "warn", int numbers "silent_warn_ms" 5000,
      text "manual_instructions" "Hold BOOT, tap RST, release BOOT"],
    table [text "hwid_prefix" hwid, text "desc_find" desc],
    table [text "mode" "auto", sub "edges" (first + 3), flag "reenumerates" true,
      int numbers "settle_ms" 3000],
    table [(.index 1, .table (first + 4)), (.index 2, .table (first + 5)),
      (.index 3, .table (first + 6)), (.index 4, .table (first + 7))],
    table [int numbers "rts" 1],
    table [int numbers "dtr" 1, int numbers "delay" 120],
    table [int numbers "rts" 0, int numbers "delay" 60],
    table [int numbers "dtr" 0, int numbers "delay" 50]]

/-- The tables of `M.PROFILES`. -/
def builtin (numbers : Numbers N) : Tables N where
  tables :=
    autoProfile numbers 0 "ch340" "USB\\VID_1A86&PID_7523" "CH340" ++
    autoProfile numbers 8 "cp2102" "USB\\VID_10C4&PID_EA60" "CP210" ++
    autoProfile numbers 16 "ft232r" "USB\\VID_0403&PID_6001" "FT232" ++
    [table [text "id" "cdc_acm", sub "match" 25, sub "reset" 26, text "flow_control" "warn",
        int numbers "silent_warn_ms" 5000,
        text "manual_instructions" "Hold BOOT, tap RST, release BOOT"],
      table [text "hwid_prefix" "USB\\VID_", text "desc_find" "USB Serial"],
      table [text "mode" "manual", flag "reenumerates" true],
      table [text "id" "default", sub "match" 28, sub "reset" 29, text "flow_control" "ok",
        int numbers "silent_warn_ms" 5000,
        text "manual_instructions" "Reset the board manually, then reconnect"],
      table [],
      table [text "mode" "manual"]]

/-- `M.PROFILES`, by address. -/
def profiles : List Nat := [0, 8, 16, 24, 27]

/-! ## Matching -/

/-- `upper` of a byte. -/
def upperByte (b : UInt8) : UInt8 := if 0x61 ≤ b ∧ b ≤ 0x7A then b - 0x20 else b

/-- `upper`. -/
def upper (s : Bytes) : Bytes := s.map upperByte

/-- `has_prefix`. -/
def hasPrefix (hwid start : Bytes) : Bool := upper (hwid.take start.length) = upper start

/-- `has_substr`. -/
def hasSubstr (description find : Bytes) : Bool := upper find <:+: upper description

/-- The text in a field of a profile. -/
def textAt (h : Tables N) (p : Nat) (path : List String) : Option Bytes :=
  match h.look (.table p) (path.map fun s => .name (bytes s)) with
  | some (.scalar (.string s)) => some s
  | _ => none

/-- `by_id`. -/
def byId (h : Tables N) (id : Bytes) : Option Nat :=
  profiles.find? fun p => textAt h p ["id"] = some id

/-- Where a profile comes from. -/
inductive Source
  | override
  | hardwareId
  | description
  | default
  | custom
  deriving DecidableEq, Repr

/-- A text that is there and not empty. -/
def given (s : Option Bytes) : Option Bytes := s.filter fun s => s ≠ []

/-- `M.resolve`. -/
def resolve (h : Tables N) (hwid description overrideId : Option Bytes) : Nat × Source :=
  match (given overrideId).bind (byId h) with
  | some chosen => (chosen, .override)
  | none =>
    match (given hwid).bind fun hwid =>
        profiles.find? fun p => (textAt h p ["match", "hwid_prefix"]).any (hasPrefix hwid) with
    | some p => (p, .hardwareId)
    | none =>
      match (given description).bind fun description =>
          profiles.find? fun p => (textAt h p ["match", "desc_find"]).any (hasSubstr description)
        with
      | some p => (p, .description)
      | none => ((byId h (bytes "default")).getD (profiles.getLastD 0), .default)

/-! ## Overrides -/

/-- `tostring`. -/
def tostring (numbers : Numbers N) : Value N → Bytes
  | .boolean true => bytes "true"
  | .boolean false => bytes "false"
  | .number n => numbers.tostring n
  | .string s => s

/-- `tostring` of a key. -/
def keyText (numbers : Numbers N) : Key → Bytes
  | .name s => s
  | .index n => numbers.tostring (numbers.ofInt n)

mutual

/-- What a field of a patch holds. -/
inductive Patch (N : Type)
  | leaf (v : Value N)
  | fields (fs : Fields N)

/-- A patch: its fields in the order of `pairs`. -/
inductive Fields (N : Type)
  | nil
  | cons (k : Key) (p : Patch N) (rest : Fields N)

end

mutual

/-- The body of the loop of `flatten_into`. -/
def Patch.flattenInto (numbers : Numbers N) (path : Bytes) : Patch N → Section N → Section N
  | .leaf v, out => out.insert path v
  | .fields fs, out => fs.flattenInto numbers path out

/-- `flatten_into`. -/
def Fields.flattenInto (numbers : Numbers N) (before : Bytes) : Fields N → Section N → Section N
  | .nil, out => out
  | .cons k p rest, out =>
    let path := if before = [] then keyText numbers k else before ++ [0x2E] ++ keyText numbers k
    rest.flattenInto numbers before (p.flattenInto numbers path out)

end

/-- `deep_copy`.  Without a cycle tables are no deeper than there are tables. -/
def deepCopy (h : Tables N) (c : Cell (Value N)) :
    Except (Tables N) (Tables N × Cell (Value N)) :=
  h.copy (h.size + 1) c

/-- The parts `(.-)%.` matches in a path. -/
def segments (path : Bytes) : List Key := (path.splitOn 0x2E).map .name

/-- `set_path`.  A scalar on the way raises. -/
def setPath (h : Tables N) (tbl : Cell (Value N)) (path : Bytes) (value : Value N) :
    Except (Tables N) (Tables N) :=
  h.putAt tbl (segments path) value

/-- `key_matches`. -/
def keyMatches (numbers : Numbers N) (recorded : Option (Value N))
    (hwid description : Option Bytes) : Bool :=
  match recorded with
  | none => true
  | some (.string []) => true
  | some recorded =>
    match (given hwid).or description with
    | none => false
    | some current => upper (tostring numbers recorded) = upper current

/-- `config.get_profile`. -/
def getProfile (data : Data N) : Section N × Section N :=
  ((data.lookup (bytes "profile")).getD ∅, (data.lookup (bytes "profile.custom")).getD ∅)

/-- `config.set_profile`.  A `nil` key removes the one that was recorded. -/
def setProfile (data : Data N) (key : Option (Value N)) (mode : Bytes)
    (custom : Option (Section N)) : Data N :=
  let data := Config.assign data (bytes "profile") (bytes "key") key
  let data := Config.assign data (bytes "profile") (bytes "mode") (some (.string mode))
  match custom with
  | some flat => data.insert (bytes "profile.custom") flat
  | none => data

/-- The fields of an `XcomPortInfo` that are read. -/
structure PortInfo where
  hardwareId : Option Bytes
  hwid : Option Bytes
  description : Option Bytes

/-- `port_info.hardware_id or port_info.hwid`. -/
def hwidOf (port : Option PortInfo) : Option Bytes := port.bind fun p => p.hardwareId.or p.hwid

/-- `port_info.description`. -/
def descriptionOf (port : Option PortInfo) : Option Bytes := port.bind (·.description)

/-- A comparison with a text. -/
def isText (value : Option (Value N)) (s : Bytes) : Bool :=
  match value with
  | some (.string t) => t = s
  | _ => false

/-- `M.for_config`: the tables afterwards, the profile and its source, or the tables where
it raises. -/
def forConfig (numbers : Numbers N) (h : Tables N) (data : Data N) (port : Option PortInfo) :
    Except (Tables N) (Tables N × Cell (Value N) × Source) :=
  let sec := (getProfile data).1
  let custom := (getProfile data).2
  let hwid := hwidOf port
  let description := descriptionOf port
  let profile := resolve h hwid description none
  if isText (sec.lookup (bytes "mode")) (bytes "custom") ∧
      keyMatches numbers (sec.lookup (bytes "key")) hwid description then
    (deepCopy h (.table profile.1)).bind fun patched =>
      (custom.entries.foldlM (fun h e => setPath h patched.2 e.1 e.2) patched.1).map fun h =>
        (h, patched.2, .custom)
  else .ok (h, .table profile.1, profile.2)

/-- `M.set_override`.  A `nil` patch is one without fields. -/
def setOverride (numbers : Numbers N) (data : Data N) (key : Option (Value N))
    (patch : Fields N) : Data N :=
  setProfile data key (bytes "custom") (some (patch.flattenInto numbers [] ∅))

end Xcom.Profile
