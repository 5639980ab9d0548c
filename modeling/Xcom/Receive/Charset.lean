import Xcom.Text.Unicode
import Xcom.Transition.Transducer

/-!
# The display charset

Recodes the drained text of the display to UTF-8: the double-byte code pages through the
system's converters, and UTF-16.  A character cut by the end of a batch is held back until
the rest of it arrives.
-/

namespace Xcom.Receive

/-- The items of `CHARSET_ITEMS`. -/
inductive CharsetItem
  | ascii
  | utf8
  | gb2312
  | big5
  | shiftJis
  | utf16
  deriving DecidableEq, Repr

def CharsetItem.name : CharsetItem → String
  | .ascii => "ASCII"
  | .utf8 => "UTF-8"
  | .gb2312 => "GB2312"
  | .big5 => "BIG5"
  | .shiftJis => "SHIFT-JIS"
  | .utf16 => "UTF-16"

/-- What a charset is converted from. -/
inductive Codec
  | page (cp : Nat)
  | utf16
  deriving DecidableEq, Repr

/-- `CP_TABLE`: the codec of a charset name, `some none` where it passes through. -/
def cpTable (name : String) : Option (Option Codec) :=
  if name = "ASCII" ∨ name = "UTF-8" then some none
  else if name = "GB2312" ∨ name = "GBK" then some (some (.page 936))
  else if name = "BIG5" then some (some (.page 950))
  else if name = "SHIFT-JIS" ∨ name = "SHIFT_JIS" then some (some (.page 932))
  else if name = "UTF16" ∨ name = "UTF-16" ∨ name = "UTF-16LE" then some (some .utf16)
  else none

/-- The two converters of the system; `none` where a call returns no length. -/
structure Kernel32 where
  multiByteToWideChar : Nat → List UInt8 → Option (List UInt16)
  wideCharToUtf8 : List UInt16 → Option (List UInt8)

/-- The state of `charset.lua`. -/
structure Charset where
  currentName : String := "ASCII"
  currentCp : Option Codec := none
  pending : List UInt8 := []
  deriving DecidableEq, Repr

/-- `M.set`. -/
def Charset.set (c : Charset) (name : Option String) : Bool × Charset :=
  match name with
  | none | some "" => (true, {})
  | some name =>
    match cpTable name with
    | none => (false, c)
    | some cp => (true, { currentName := name, currentCp := cp })

/-- `M.reset`. -/
def Charset.reset (c : Charset) : Charset := { c with pending := [] }

/-- `dbcs_lead_byte`, with the ranges of `DBCS_LEAD` and `SJIS_LEAD2`. -/
def dbcsLeadByte (cp : Nat) (b : UInt8) : Bool :=
  ((cp = 936 ∨ cp = 950) ∧ 0x81 ≤ b ∧ b ≤ 0xFE) ∨
    (cp = 932 ∧ (0x81 ≤ b ∧ b ≤ 0x9F ∨ 0xE0 ≤ b ∧ b ≤ 0xEF))

/-- `ends_with_dangling_lead`: the last byte is a lead byte without its trail byte. -/
def endsWithDanglingLead (cp : Nat) : List UInt8 → Bool
  | [] => false
  | [b] => dbcsLeadByte cp b
  | b :: t :: rest =>
    if dbcsLeadByte cp b then endsWithDanglingLead cp rest
    else endsWithDanglingLead cp (t :: rest)

/-- What of a double-byte batch is converted now, and what is held back. -/
def dbcsHold (cp : Nat) (data : List UInt8) : List UInt8 × List UInt8 :=
  if endsWithDanglingLead cp data then (data.dropLast, data.drop (data.length - 1))
  else (data, [])

/-- The batch ends with the first half of a surrogate pair. -/
def endsWithHigh (data : List UInt8) : Bool :=
  (Utf16.leUnits (data.drop (data.length - 2))).any Utf16.isHigh

/-- What of a UTF-16 batch is converted now, and what is held back: an odd byte, and a
high surrogate before it. -/
def utf16Hold (data : List UInt8) : List UInt8 × List UInt8 :=
  let even := data.take (data.length / 2 * 2)
  let odd := data.drop (data.length / 2 * 2)
  if endsWithHigh even then
    (even.take (even.length - 2), even.drop (even.length - 2) ++ odd)
  else (even, odd)

/-- The bytes the view shows for a double-byte text: the text itself where a converter
fails. -/
def recodePage (k : Kernel32) (cp : Nat) (data : List UInt8) : List UInt8 :=
  match k.multiByteToWideChar cp data with
  | none => data
  | some wide => (k.wideCharToUtf8 wide).getD data

/-- The bytes the view shows for a UTF-16 text. -/
def recodeUtf16 (k : Kernel32) (data : List UInt8) : List UInt8 :=
  (k.wideCharToUtf8 (Utf16.leUnits data)).getD data

/-- The part of `dbcs_to_utf8` and `utf16_to_utf8` they share: nothing is shown while all
the bytes are held back. -/
def Charset.shift (c : Charset) (hold : List UInt8 → List UInt8 × List UInt8)
    (recode : List UInt8 → List UInt8) (text : List UInt8) : Option (List UInt8) × Charset :=
  let cut := hold (c.pending ++ text)
  (if cut.1 = [] then none else some (recode cut.1), { c with pending := cut.2 })

/-- `dbcs_to_utf8`. -/
def Charset.dbcsToUtf8 (k : Kernel32) (cp : Nat) (c : Charset) (text : List UInt8) :
    Option (List UInt8) × Charset :=
  c.shift (dbcsHold cp) (recodePage k cp) text

/-- `utf16_to_utf8`. -/
def Charset.utf16ToUtf8 (k : Kernel32) (c : Charset) (text : List UInt8) :
    Option (List UInt8) × Charset :=
  c.shift utf16Hold (recodeUtf16 k) text

/-- `M.convert`. -/
def Charset.convert (k : Option Kernel32) (c : Charset) (text : List UInt8) :
    Option (List UInt8) × Charset :=
  if text = [] then (some text, c)
  else
    match c.currentCp, k with
    | none, _ | _, none => (some text, c)
    | some .utf16, some k => c.utf16ToUtf8 k text
    | some (.page cp), some k => c.dbcsToUtf8 k cp text

/-- `M.flush`: the held bytes as they are. -/
def Charset.flush (k : Option Kernel32) (c : Charset) : Option (List UInt8) × Charset :=
  if c.pending = [] then (none, c)
  else
    match c.currentCp, k with
    | none, _ | _, none => (some c.pending, c.reset)
    | some .utf16, some k => (some ((c.reset.utf16ToUtf8 k c.pending).1.getD c.pending), c.reset)
    | some (.page cp), some k => (some (recodePage k cp c.pending), c.reset)

/-- The recoded text of batch after batch. -/
def convertBatches (k : Option Kernel32) : Charset → List (List UInt8) → List UInt8 × Charset :=
  Transition.overBlocks fun c batch => ((c.convert k batch).1.getD [], (c.convert k batch).2)

/-- A new charset starts with nothing held back, and so does the next session. -/
theorem flush_pending (k : Option Kernel32) (c : Charset) : (c.flush k).2.pending = [] := by
  unfold Charset.flush
  split
  · assumption
  · split <;> rfl

/-- The conversion never changes the charset. -/
theorem convert_currentCp (k : Option Kernel32) (c : Charset) (text : List UInt8) :
    (c.convert k text).2.currentCp = c.currentCp := by
  unfold Charset.convert
  split
  · rfl
  · split <;> simp_all [Charset.utf16ToUtf8, Charset.dbcsToUtf8, Charset.shift]

end Xcom.Receive
