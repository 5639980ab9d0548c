import Xcom.Display.Chunks

/-!
# The text view and the escape grammar

A stream of text bytes and well-formed escape sequences.  The text view shows its text
bytes, with line ends normalised and control bytes left out, and nothing else.
-/

namespace Xcom.Display

/-- A text byte, or a whole escape sequence. -/
inductive Piece
  | byte (b : UInt8) (hb : b ≠ 0x1B)
  | csi (body : List UInt8) (final : UInt8) (hbody : ∀ b ∈ body, 0x20 ≤ b ∧ b ≤ 0x3F)
      (hfinal : 0x40 ≤ final ∧ final ≤ 0x7E)
  | osc (payload : List UInt8) (bell : Bool) (hpayload : ∀ b ∈ payload, b ≠ 0x07 ∧ b ≠ 0x1B)
  | short (b : UInt8) (hb : 0x40 ≤ b ∧ b ≤ 0x5F) (hcsi : b ≠ 0x5B) (hosc : b ≠ 0x5D)

/-- The bytes of a piece in the stream. -/
def Piece.bytes : Piece → List UInt8
  | .byte b _ => [b]
  | .csi body final _ _ => [0x1B, 0x5B] ++ body ++ [final]
  | .osc payload bell _ => [0x1B, 0x5D] ++ payload ++ if bell then [0x07] else [0x1B, 0x5C]
  | .short b _ _ _ => [0x1B, b]

/-- A control byte that is none of CR, LF and TAB. -/
def droppedControl (b : UInt8) : Bool := b < 0x20 ∧ b ≠ 0x0D ∧ b ≠ 0x0A ∧ b ≠ 0x09

/-- The stream goes on with an LF. -/
def leadsLf : List Piece → Bool
  | .byte b _ :: _ => b = 0x0A
  | _ => false

/-- What is to be shown of a stream.  A CR right before an LF leaves the LF of the pair. -/
def shown : List Piece → List UInt8
  | [] => []
  | .byte b _ :: rest =>
    if b = 0x0D ∧ leadsLf rest then shown rest
    else if droppedControl b then shown rest
    else (if b = 0x0D then 0x0A else b) :: shown rest
  | _ :: rest => shown rest

/-- What is to be shown of a stream behind a CR that has been shown as an LF. -/
def shownBehindCr (ps : List Piece) : List UInt8 :=
  if leadsLf ps then (shown ps).tail else shown ps

theorem shown_lf (h : (0x0A : UInt8) ≠ 0x1B) (rest : List Piece) :
    shown (.byte 0x0A h :: rest) = 0x0A :: shown rest := by
  simp [shown, droppedControl]

theorem shown_cr (h : (0x0D : UInt8) ≠ 0x1B) (rest : List Piece) :
    shown (.byte 0x0D h :: rest) = 0x0A :: shownBehindCr rest := by
  by_cases hlf : leadsLf rest = true
  · obtain ⟨h', rest', rfl⟩ : ∃ h' rest', rest = .byte 0x0A h' :: rest' := by
      unfold leadsLf at hlf
      split at hlf
      · rename_i b hb rest'
        obtain rfl : b = 0x0A := by simpa using hlf
        exact ⟨hb, rest', rfl⟩
      · cases hlf
    have hshown : shown (.byte 0x0D h :: .byte 0x0A h' :: rest') =
        shown (.byte 0x0A h' :: rest') := by
      simp [shown, leadsLf]
    rw [hshown, shownBehindCr, if_pos hlf, shown_lf]
    rfl
  · simp [shown, hlf, shownBehindCr, droppedControl]

theorem visible_eq (b : UInt8) : visible b = !droppedControl b := by
  unfold visible droppedControl
  by_cases h : b < 0x20 <;> by_cases hcr : b = 0x0D <;> by_cases hlf : b = 0x0A <;>
    by_cases htab : b = 0x09 <;> simp_all [UInt8.not_lt]

/-! ## Escape sequences -/

theorem transduce_csi {body : List UInt8} {final : UInt8} (st : TextState)
    (hbody : ∀ b ∈ body, 0x20 ≤ b ∧ b ≤ 0x3F) (hfinal : 0x40 ≤ final ∧ final ≤ 0x7E) :
    Transition.transduce TextState.feed { st with strip := .csi, pendingCr := false }
        (body ++ [final]) = ([], { st with strip := .text, pendingCr := false }) := by
  induction body with
  | nil => simp [Transition.transduce, TextState.feed, StripState.next, hfinal]
  | cons b body ih =>
    obtain ⟨-, hb⟩ := hbody b List.mem_cons_self
    have hstay : ¬ (0x40 : UInt8) ≤ b := by
      intro hle
      exact absurd (UInt8.le_trans hle hb) (by decide)
    have hrest := ih fun c hc => hbody c (List.mem_cons_of_mem b hc)
    simp [Transition.transduce, TextState.feed, StripState.next, hstay, hrest]

theorem transduce_osc {payload : List UInt8} (bell : Bool) (st : TextState)
    (hpayload : ∀ b ∈ payload, b ≠ 0x07 ∧ b ≠ 0x1B) :
    Transition.transduce TextState.feed { st with strip := .osc, pendingCr := false }
        (payload ++ if bell then [0x07] else [0x1B, 0x5C]) =
      ([], { st with strip := .text, pendingCr := false }) := by
  induction payload with
  | nil => cases bell <;> simp [Transition.transduce, TextState.feed, StripState.next]
  | cons b payload ih =>
    obtain ⟨hbell, hesc⟩ := hpayload b List.mem_cons_self
    have hrest := ih fun c hc => hpayload c (List.mem_cons_of_mem b hc)
    simp [Transition.transduce, TextState.feed, StripState.next, hbell, hesc, hrest]

/-- The pieces that show nothing of their own. -/
def Piece.IsEscape : Piece → Prop
  | .byte _ _ => False
  | _ => True

theorem transduce_escape {p : Piece} (hp : p.IsEscape) (st : TextState)
    (hst : st.strip = .text) :
    Transition.transduce TextState.feed st p.bytes = ([], { st with pendingCr := false }) := by
  obtain ⟨lineStart, strip, pendingCr⟩ := st
  subst hst
  cases p with
  | byte b hb => exact hp.elim
  | csi body final hbody hfinal =>
    have hcsi := transduce_csi { lineStart := lineStart } hbody hfinal
    simp [Piece.bytes, Transition.transduce, TextState.feed, StripState.next, hcsi]
  | osc payload bell hpayload =>
    have hosc := transduce_osc bell { lineStart := lineStart } hpayload
    simp [Piece.bytes, Transition.transduce, TextState.feed, StripState.next, hosc]
  | short b hb hcsi hosc =>
    simp [Piece.bytes, Transition.transduce, TextState.feed, StripState.next, hcsi, hosc]

/-- A text byte that is not the LF of a pair. -/
theorem feed_byte {st : TextState} {b : UInt8} (hst : st.strip = .text) (hb : b ≠ 0x1B)
    (hpair : ¬ (st.pendingCr = true ∧ b = 0x0A)) :
    TextState.feed st b =
      if droppedControl b then ([], { st with pendingCr := false })
      else ([textByte b],
        { st with lineStart := b = 0x0D ∨ b = 0x0A, pendingCr := b = 0x0D }) := by
  simp [TextState.feed, hst, hb, hpair, visible_eq]

/-! ## The whole stream -/

/-- The transducer of single bytes shows the text of the stream. -/
theorem transduce_pieces (ps : List Piece) (st : TextState) (hst : st.strip = .text) :
    (Transition.transduce TextState.feed st (ps.flatMap Piece.bytes)).1 =
      if st.pendingCr then shownBehindCr ps else shown ps := by
  induction ps generalizing st with
  | nil => cases st.pendingCr <;> rfl
  | cons p ps ih =>
    rw [List.flatMap_cons, Transition.transduce_append]
    by_cases hp : p.IsEscape
    · have hrest := ih { st with pendingCr := false } hst
      have hskip : shown (p :: ps) = shown ps ∧ leadsLf (p :: ps) = false := by
        cases p with
        | byte b hb => exact hp.elim
        | _ => exact ⟨rfl, rfl⟩
      rw [transduce_escape hp st hst, hrest]
      simp [shownBehindCr, hskip]
    · obtain ⟨b, hb, rfl⟩ : ∃ b hb, p = .byte b hb := by
        cases p with
        | byte b hb => exact ⟨b, hb, rfl⟩
        | _ => exact absurd trivial hp
      simp only [Piece.bytes, Transition.transduce, List.append_nil]
      by_cases hpair : st.pendingCr = true ∧ b = 0x0A
      · obtain ⟨hcr, rfl⟩ := hpair
        have hrest := ih { lineStart := st.lineStart } rfl
        simp [TextState.feed, hst, hcr, hrest, shownBehindCr, leadsLf, shown_lf]
      · have hhead : (if st.pendingCr then shownBehindCr (.byte b hb :: ps)
            else shown (.byte b hb :: ps)) = shown (.byte b hb :: ps) := by
          split
          · rename_i hcr
            rw [shownBehindCr, if_neg]
            simpa [leadsLf] using fun hlf => hpair ⟨hcr, hlf⟩
          · rfl
        rw [hhead, feed_byte hst hb hpair]
        by_cases hcr : b = 0x0D
        · subst hcr
          rw [shown_cr, if_neg (by decide)]
          exact congrArg _ (ih _ hst)
        · by_cases hdrop : droppedControl b = true
          · have hrest := ih { st with pendingCr := false } hst
            simp [shown, hcr, hdrop, hrest]
          · have hrest := ih { st with lineStart := b = 0x0A, pendingCr := false } hst
            simp [shown, hcr, hdrop, hrest, textByte]

/-- However a stream of text bytes and well-formed escape sequences is cut into blocks,
the text view shows its text: line ends become LFs, other control bytes are left out, no
text byte is swallowed and no byte of a sequence is shown. -/
theorem formatBlocks_shown {ps : List Piece} {blocks : List (List UInt8)}
    (hblocks : ∀ block ∈ blocks, block.length ≤ kRxBlockBytes)
    (hstream : blocks.flatten = ps.flatMap Piece.bytes) :
    (formatBlocks {} blocks).1 = shown ps := by
  rw [formatBlocks_eq_transduce {} hblocks, hstream, transduce_pieces ps {} rfl]
  rfl

/-- A CR before a split colour sequence, a title ended by a split ST, and a CR LF pair. -/
theorem formatBlocks_shown_split :
    (formatBlocks {} [[0x41, 0x0D, 0x1B], [0x5B, 0x33, 0x6D, 0x0A], [0x1B, 0x5D, 0x42, 0x1B],
        [0x5C, 0x43, 0x0D], [0x0A, 0x07]]).1 =
      shown [.byte 0x41 (by decide), .byte 0x0D (by decide),
        .csi [0x33] 0x6D (by simp) (by decide), .byte 0x0A (by decide),
        .osc [0x42] false (by simp), .byte 0x43 (by decide), .byte 0x0D (by decide),
        .byte 0x0A (by decide), .byte 0x07 (by decide)] :=
  formatBlocks_shown (by decide) (by decide)

end Xcom.Display
