import Xcom.Display.Lane
import Xcom.Transition.Transducer

/-!
# The text view of a split stream

`format_payload` of the text view looks one byte ahead inside a block and carries a CR
into the next one.  Read as a transducer of single bytes it needs no look-ahead, so the
text of a stream does not depend on the blocks the stream arrives in.
-/

namespace Xcom.Display

/-- The text view of one byte: a CR always waits for its LF. -/
def TextState.feed (st : TextState) (b : UInt8) : List UInt8 × TextState :=
  let st' := { st with pendingCr := false }
  if st.pendingCr ∧ b = 0x0A ∧ st.strip = .text then ([], st')
  else if st.strip ≠ .text then ([], { st' with strip := st.strip.next b })
  else if b = 0x1B then ([], { st' with strip := .esc })
  else if ¬ visible b then ([], st')
  else ([textByte b],
    { st' with lineStart := b = 0x0D ∨ b = 0x0A, pendingCr := b = 0x0D })

/-- `rx_format_block` of the text view on block after block. -/
def formatBlocks (st : TextState) (blocks : List (List UInt8)) : List UInt8 × TextState :=
  Transition.overBlocks (formatPayload false) st blocks

/-- The LF behind a CR is dropped, whether the look-ahead skips it or it meets the flag. -/
theorem feed_pairedLf (st : TextState) (hstrip : st.strip = .text) (hcr : st.pendingCr = false) :
    TextState.feed { st with pendingCr := true } 0x0A = ([], st) := by
  obtain ⟨lineStart, strip, pendingCr⟩ := st
  subst hstrip hcr
  rfl

/-- A visible byte: the look-ahead takes the pair at once, the transducer in two steps. -/
theorem formatText_pair {budget written : Nat} {b : UInt8} {rest : List UInt8} (st : TextState)
    {paired : Bool} (hstrip : st.strip = .text)
    (hpaired : paired = decide (b = 0x0D ∧ rest.head? = some 0x0A))
    (ih : ∀ w st' bytes, w ≤ written + 1 → bytes.length ≤ rest.length →
      formatText budget st' false w bytes = Transition.transduce TextState.feed st' bytes) :
    formatText budget { st with pendingCr := b = 0x0D ∧ ¬ paired } paired (written + 1) rest =
      Transition.transduce TextState.feed { st with pendingCr := b = 0x0D } rest := by
  by_cases hpair : b = 0x0D ∧ rest.head? = some 0x0A
  · rw [decide_eq_true hpair] at hpaired
    obtain ⟨hb, hhead⟩ := hpair
    obtain ⟨rest', rfl⟩ : ∃ rest', rest = 0x0A :: rest' := by
      cases rest with
      | nil => cases hhead
      | cons c rest' => exact ⟨rest', by rw [Option.some.inj hhead]⟩
    have hlf := feed_pairedLf { st with pendingCr := false } hstrip rfl
    have htail := ih (written + 1) { st with pendingCr := false } rest' (by omega) (by simp)
    simp [hpaired, hb, formatText, Transition.transduce, hlf, htail]
  · rw [decide_eq_false hpair] at hpaired
    have htail := ih (written + 1) { st with pendingCr := b = 0x0D } rest (by omega) (by omega)
    simp [hpaired, htail]

/-- With room for every byte the text view is the transducer of its single bytes. -/
theorem formatText_eq_transduce {budget written : Nat} {bytes : List UInt8} (st : TextState)
    (h : written + bytes.length ≤ budget) :
    formatText budget st false written bytes = Transition.transduce TextState.feed st bytes := by
  induction hn : bytes.length using Nat.strongRecOn generalizing bytes written st with
  | _ n ih =>
    subst hn
    cases bytes with
    | nil => rfl
    | cons b rest =>
      rw [List.length_cons] at h
      have hshort : ∀ w st' bytes, w ≤ written + 1 → bytes.length ≤ rest.length →
          formatText budget st' false w bytes =
            Transition.transduce TextState.feed st' bytes := by
        intro w st' bytes hw hlen
        apply ih bytes.length _ st' _ rfl
        · rw [List.length_cons]
          omega
        · omega
      simp only [formatText, Transition.transduce, TextState.feed]
      split_ifs with hcr hstrip hesc hvis hroom
      · exact hshort written _ rest (by omega) le_rfl
      · exact hshort written _ rest (by omega) le_rfl
      · exact hshort written _ rest (by omega) le_rfl
      · omega
      · have hpair := formatText_pair (b := b)
          { st with lineStart := b = 0x0D ∨ b = 0x0A } (not_not.mp hstrip) rfl hshort
        simp only [hpair]
        rfl
      · exact hshort written _ rest (by omega) le_rfl

/-- `format_payload` with a budget of at least the block. -/
theorem formatPayloadText_eq_transduce {budget : Nat} {bytes : List UInt8} (st : TextState)
    (h : bytes.length ≤ budget) :
    formatPayloadText budget st bytes = Transition.transduce TextState.feed st bytes := by
  rw [formatPayloadText, List.take_of_length_le h]
  apply formatText_eq_transduce
  omega

/-- The blocks of a stream are read as the stream. -/
theorem formatBlocks_eq_transduce {blocks : List (List UInt8)} (st : TextState)
    (hblocks : ∀ block ∈ blocks, block.length ≤ kRxBlockBytes) :
    formatBlocks st blocks = Transition.transduce TextState.feed st blocks.flatten := by
  apply Transition.overBlocks_eq_transduce
  intro block hmem st'
  apply formatPayloadText_eq_transduce
  calc block.length ≤ kRxBlockBytes := hblocks block hmem
    _ ≤ kDisplayBatchBytes := by decide

/-- The text of a stream, and the state the view is left in, do not depend on how the
stream is split into blocks. -/
theorem formatBlocks_flatten {budget : Nat} {blocks : List (List UInt8)} (st : TextState)
    (hblocks : ∀ block ∈ blocks, block.length ≤ kRxBlockBytes)
    (hbudget : blocks.flatten.length ≤ budget) :
    formatBlocks st blocks = formatPayloadText budget st blocks.flatten := by
  rw [formatPayloadText_eq_transduce st hbudget, formatBlocks_eq_transduce st hblocks]

/-- A colour sequence and a CR LF pair, both split. -/
theorem formatBlocks_flatten_split :
      formatBlocks {} [[0x41, 0x1B], [0x5B, 0x33], [0x31, 0x6D, 0x42, 0x0D], [0x0A, 0x43]] =
      formatPayloadText kDisplayBatchBytes {}
        [0x41, 0x1B, 0x5B, 0x33, 0x31, 0x6D, 0x42, 0x0D, 0x0A, 0x43] :=
  formatBlocks_flatten {} (by decide) (by decide)

end Xcom.Display
