import Mathlib.Data.List.Basic
import Mathlib.Tactic.SplitIfs

/-!
# Formatting received bytes

`format_payload`: the byte-faithful hex view, and the text view that normalises line
ends and strips escape sequences and control bytes.  The text view carries a state
from one block to the next.
-/

namespace Xcom.Display

/-- `kDisplayBatchBytes`. -/
def kDisplayBatchBytes : Nat := 16384

/-- An upper-case hexadecimal digit. -/
def hexDigit (v : UInt8) : UInt8 := if v < 10 then 0x30 + v else 0x41 + (v - 10)

/-- An entry of `kHexPairs`. -/
def hexPair (b : UInt8) : List UInt8 := [hexDigit (b >>> 4), hexDigit (b &&& 0x0F)]

/-- The number of bytes the hex view takes for a budget. -/
def capHex (budget : Nat) : Nat := if 4 < budget then (budget - 4) / 3 + 1 else 0

/-- `format_payload` of the hex view: pairs and blanks, without the last blank. -/
def formatHex (budget : Nat) (bytes : List UInt8) : List UInt8 :=
  ((bytes.take (capHex budget)).flatMap fun b => hexPair b ++ [0x20]).dropLast

/-- `rx_strip_state`: outside a sequence, after ESC, inside CSI, inside OSC, after the
ESC of an OSC terminator. -/
inductive StripState
  | text
  | esc
  | csi
  | osc
  | oscEsc
  deriving DecidableEq, Repr

/-- The state of the text view between two blocks. -/
structure TextState where
  lineStart : Bool := true
  strip : StripState := .text
  pendingCr : Bool := false
  deriving DecidableEq, Repr

/-- One byte inside an escape sequence. -/
def StripState.next (b : UInt8) : StripState → StripState
  | .text => .text
  | .esc => if b = 0x5B then .csi else if b = 0x5D then .osc else .text
  | .csi => if 0x40 ≤ b ∧ b ≤ 0x7E then .text else .csi
  | .osc => if b = 0x07 then .text else if b = 0x1B then .oscEsc else .osc
  | .oscEsc => .text

/-- Line ends, tabs and everything from the blank on. -/
def visible (b : UInt8) : Bool := b = 0x0D ∨ b = 0x0A ∨ b = 0x09 ∨ 0x20 ≤ b

/-- What the text view writes for a visible byte. -/
def textByte (b : UInt8) : UInt8 := if b = 0x0D then 0x0A else b

/-- The loop of `format_payload` of the text view.  `skip` is set behind a CR whose LF
is the next byte of the block. -/
def formatText (budget : Nat) :
    TextState → Bool → Nat → List UInt8 → List UInt8 × TextState
  | st, _, _, [] => ([], st)
  | st, true, written, _ :: rest => formatText budget st false written rest
  | st, false, written, b :: rest =>
    let st' := { st with pendingCr := false }
    if st.pendingCr ∧ b = 0x0A ∧ st.strip = .text then
      formatText budget st' false written rest
    else if st.strip ≠ .text then
      formatText budget { st' with strip := st.strip.next b } false written rest
    else if b = 0x1B then formatText budget { st' with strip := .esc } false written rest
    else if ¬ visible b then formatText budget st' false written rest
    else
      let paired : Bool := b = 0x0D ∧ rest.head? = some 0x0A
      let pendingCr : Bool := b = 0x0D ∧ ¬ paired
      if budget ≤ written then ([], { st' with pendingCr := pendingCr })
      else
        let out := formatText budget
          { st' with lineStart := b = 0x0D ∨ b = 0x0A, pendingCr := pendingCr }
          paired (written + 1) rest
        (textByte b :: out.1, out.2)

/-- `format_payload` of the text view. -/
def formatPayloadText (budget : Nat) (st : TextState) (bytes : List UInt8) :
    List UInt8 × TextState :=
  formatText budget st false 0 (bytes.take budget)

/-- The two views of `rx_format_block`: the text of a batch and the state after it. -/
def formatPayload (hex : Bool) (st : TextState) (bytes : List UInt8) :
    List UInt8 × TextState :=
  if hex then
    let text := formatHex kDisplayBatchBytes bytes
    (text, if text = [] then st else
      { st with lineStart := text.getLast? = some 0x0A ∨ text.getLast? = some 0x0D })
  else formatPayloadText kDisplayBatchBytes st bytes

/-! ## What the views keep within -/

theorem flatMap_hexPair_length (bytes : List UInt8) :
    (bytes.flatMap fun b => hexPair b ++ [0x20]).length = 3 * bytes.length := by
  induction bytes with
  | nil => rfl
  | cons b bytes ih =>
    rw [List.flatMap_cons, List.length_append, ih, List.length_cons]
    simp only [hexPair, List.length_append, List.length_cons, List.length_nil]
    omega

theorem formatHex_length (budget : Nat) (bytes : List UInt8) :
    (formatHex budget bytes).length = 3 * min (capHex budget) bytes.length - 1 := by
  rw [formatHex, List.length_dropLast, flatMap_hexPair_length, List.length_take]

theorem formatHex_length_le (budget : Nat) (bytes : List UInt8) :
    (formatHex budget bytes).length ≤ budget := by
  rw [formatHex_length, capHex]
  split <;> omega

theorem formatText_length_le (budget : Nat) (bytes : List UInt8) (st : TextState)
    (skip : Bool) (written : Nat) :
    (formatText budget st skip written bytes).1.length ≤ budget - written := by
  induction bytes generalizing st skip written with
  | nil => simp [formatText]
  | cons b bytes ih =>
    cases skip with
    | true => exact ih st false written
    | false =>
      simp only [formatText]
      split_ifs with hcr hstrip hesc hvis hroom
      · exact ih _ _ _
      · exact ih _ _ _
      · exact ih _ _ _
      · exact Nat.zero_le _
      · rw [List.length_cons]
        exact Nat.le_trans (Nat.succ_le_succ (ih _ _ _)) (by omega)
      · exact ih _ _ _

/-- A batch takes what the view makes of a block. -/
theorem formatPayload_length_le (hex : Bool) (st : TextState) (bytes : List UInt8) :
    (formatPayload hex st bytes).1.length ≤ kDisplayBatchBytes := by
  cases hex with
  | true => exact formatHex_length_le _ _
  | false => exact formatText_length_le _ _ _ _ _

theorem textByte_shows {b : UInt8} (h : visible b = true) :
    textByte b = 0x0A ∨ textByte b = 0x09 ∨ 0x20 ≤ textByte b := by
  simp only [visible, decide_eq_true_eq] at h
  unfold textByte
  split
  · exact .inl rfl
  · exact h.resolve_left ‹_›

/-- The text view shows nothing but line feeds, tabs and what is not a control byte. -/
theorem formatText_shows (budget : Nat) (bytes : List UInt8) (st : TextState)
    (skip : Bool) (written : Nat) :
    ∀ b ∈ (formatText budget st skip written bytes).1, b = 0x0A ∨ b = 0x09 ∨ 0x20 ≤ b := by
  induction bytes generalizing st skip written with
  | nil => simp [formatText]
  | cons b bytes ih =>
    cases skip with
    | true => exact ih st false written
    | false =>
      simp only [formatText]
      split_ifs with hcr hstrip hesc hvis hroom
      · exact ih _ _ _
      · exact ih _ _ _
      · exact ih _ _ _
      · simp
      · intro c hc
        rcases List.mem_cons.mp hc with rfl | hc
        · exact textByte_shows hvis
        · exact ih _ _ _ c hc
      · exact ih _ _ _

example : (formatPayload true {} [0x41, 0x0A]).1 = [0x34, 0x31, 0x20, 0x30, 0x41] := by decide

example : (formatPayload false {} [0x1B, 0x5B, 0x33, 0x31, 0x6D, 0x41, 0x0D, 0x0A]).1 =
    [0x41, 0x0A] := by decide

end Xcom.Display
