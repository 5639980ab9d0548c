import Xcom.Display.Chunks
import Xcom.Tx.Hex

/-!
# The hex view of a split stream

`format_payload` of the hex view writes a blank between the bytes of a block and none behind
the last one, and nothing is put between two batches.  So the text of a stream is the one of
its bytes as long as no two blocks hold any.
-/

namespace Xcom.Display

open Tx.Hex (toHex clean fromHex)

/-- `rx_format_block` of the hex view on block after block: what is drained. -/
def hexBlocks (st : TextState) (blocks : List (List UInt8)) : List UInt8 × TextState :=
  Transition.overBlocks (formatPayload true) st blocks

/-- A stream as hexadecimal pairs with one blank between any two. -/
def hexStream (bytes : List UInt8) : List UInt8 := [0x20].intercalate (bytes.map hexPair)

/-- The blocks that hold a byte. -/
def nonempty (blocks : List (List UInt8)) : List (List UInt8) := blocks.filter (· ≠ [])

/-- The text drained for the blocks of a stream is the text of the stream. -/
def HexJoined (st : TextState) (blocks : List (List UInt8)) : Prop :=
  (hexBlocks st blocks).1 = hexStream blocks.flatten

/-! ## The text of a stream -/

theorem hexStream_eq (bytes : List UInt8) :
    hexStream bytes = (bytes.flatMap fun b => hexPair b ++ [0x20]).dropLast := by
  induction bytes with
  | nil => rfl
  | cons b bytes ih =>
    cases bytes with
    | nil => simp [hexStream, hexPair]
    | cons c bytes =>
      have hne : ((c :: bytes).flatMap fun b => hexPair b ++ [0x20]) ≠ [] := by
        simp [hexPair]
      have hcons : hexStream (b :: c :: bytes) = hexPair b ++ [0x20] ++ hexStream (c :: bytes) := by
        simp [hexStream, List.intercalate]
      rw [hcons, ih, List.flatMap_cons (x := b), List.dropLast_append_of_ne_nil hne]

theorem hexStream_length (bytes : List UInt8) :
    (hexStream bytes).length = 3 * bytes.length - 1 := by
  rw [hexStream_eq, List.length_dropLast, flatMap_hexPair_length]

/-- A block that fits is formatted as the stream it is. -/
theorem formatHex_of_le {budget : Nat} {bytes : List UInt8} (h : bytes.length ≤ capHex budget) :
    formatHex budget bytes = hexStream bytes := by
  rw [formatHex, List.take_of_length_le h, hexStream_eq]

theorem toHex_eq {bytes : List UInt8} (hne : bytes ≠ []) :
    toHex bytes = hexStream bytes ++ [0x20] := by
  obtain ⟨front, b, rfl⟩ := (List.eq_nil_or_concat' bytes).resolve_left hne
  rw [hexStream_eq, toHex]
  simp [hexPair]

/-- The text of a stream is read back as the stream. -/
theorem fromHex_hexStream (bytes : List UInt8) :
    fromHex (some (hexStream bytes)) = .ok (some bytes) := by
  by_cases hne : bytes = []
  · subst hne
    rfl
  · have hclean : clean (hexStream bytes) = clean (toHex bytes) := by
      rw [toHex_eq hne, clean, clean, List.filter_append]
      exact (List.append_nil _).symm
    rw [← Tx.Hex.fromHex_clean, hclean, Tx.Hex.fromHex_clean, Tx.Hex.fromHex_toHex]

/-! ## The text drained -/

theorem hexBlocks_text (st : TextState) (blocks : List (List UInt8)) :
    (hexBlocks st blocks).1 = blocks.flatMap (formatHex kDisplayBatchBytes) := by
  induction blocks generalizing st with
  | nil => rfl
  | cons block blocks ih =>
    rw [List.flatMap_cons, ← ih]
    rfl

theorem nonempty_nil_cons (blocks : List (List UInt8)) :
    nonempty ([] :: blocks) = nonempty blocks := by
  simp [nonempty]

theorem nonempty_cons {block : List UInt8} (h : block ≠ []) (blocks : List (List UInt8)) :
    nonempty (block :: blocks) = block :: nonempty blocks := by
  simp [nonempty, h]

theorem flatMap_formatHex_length (blocks : List (List UInt8)) :
    (blocks.flatMap (formatHex kDisplayBatchBytes)).length + (nonempty blocks).length =
      3 * (blocks.map fun block => min (capHex kDisplayBatchBytes) block.length).sum := by
  induction blocks with
  | nil => rfl
  | cons block blocks ih =>
    rw [List.flatMap_cons, List.length_append, formatHex_length, List.map_cons, List.sum_cons]
    by_cases hempty : block = []
    · subst hempty
      rw [nonempty_nil_cons, List.length_nil, Nat.min_zero]
      omega
    · have hpos : 0 < block.length := List.length_pos_iff.mpr hempty
      have hcap : 0 < capHex kDisplayBatchBytes := by decide
      rw [nonempty_cons hempty, List.length_cons]
      omega

/-- Every byte is taken exactly when each block fits. -/
theorem sum_min_le (cap : Nat) (blocks : List (List UInt8)) :
    (blocks.map fun block => min cap block.length).sum ≤ blocks.flatten.length ∧
      ((blocks.map fun block => min cap block.length).sum = blocks.flatten.length →
        ∀ block ∈ blocks, block.length ≤ cap) := by
  induction blocks with
  | nil => exact ⟨Nat.le_refl 0, fun _ => nofun⟩
  | cons block blocks ih =>
    obtain ⟨hle, hall⟩ := ih
    rw [List.map_cons, List.sum_cons, List.flatten_cons, List.length_append]
    refine ⟨by omega, fun heq => ?_⟩
    have hblock : block.length ≤ cap := by omega
    exact List.forall_mem_cons.mpr ⟨hblock, hall (by omega)⟩

theorem nonempty_eq_nil {blocks : List (List UInt8)} (h : nonempty blocks = []) :
    blocks.flatten = [] ∧ blocks.flatMap (formatHex kDisplayBatchBytes) = [] := by
  have hall : ∀ block ∈ blocks, block = [] := by simpa [nonempty] using h
  constructor
  · simpa using hall
  · apply List.flatMap_eq_nil_iff.mpr
    intro block hmem
    rw [hall block hmem]
    rfl

/-- At most one block holds bytes, and it fits. -/
theorem joined_of_one {blocks : List (List UInt8)} (hone : (nonempty blocks).length ≤ 1)
    (hfit : ∀ block ∈ blocks, block.length ≤ capHex kDisplayBatchBytes) :
    blocks.flatMap (formatHex kDisplayBatchBytes) = hexStream blocks.flatten := by
  induction blocks with
  | nil => rfl
  | cons block blocks ih =>
    obtain ⟨hblock, hblocks⟩ := List.forall_mem_cons.mp hfit
    rw [List.flatMap_cons, List.flatten_cons]
    by_cases hempty : block = []
    · subst hempty
      rw [nonempty_nil_cons] at hone
      rw [ih hone hblocks]
      rfl
    · have hrest : nonempty blocks = [] := by
        rw [nonempty_cons hempty, List.length_cons] at hone
        exact List.length_eq_zero_iff.mp (by omega)
      rw [(nonempty_eq_nil hrest).1, (nonempty_eq_nil hrest).2, List.append_nil,
        List.append_nil, formatHex_of_le hblock]

/-- The text drained for a split stream is the text of the stream exactly when only one
block holds bytes, and no more of them than a batch has room for. -/
theorem hexJoined_iff (st : TextState) (blocks : List (List UInt8)) :
    HexJoined st blocks ↔ (nonempty blocks).length ≤ 1 ∧
      ∀ block ∈ blocks, block.length ≤ capHex kDisplayBatchBytes := by
  unfold HexJoined
  rw [hexBlocks_text]
  constructor
  · intro hjoined
    have hlen := flatMap_formatHex_length blocks
    obtain ⟨hle, hall⟩ := sum_min_le (capHex kDisplayBatchBytes) blocks
    rw [hjoined, hexStream_length] at hlen
    by_cases hnone : nonempty blocks = []
    · have hflat := (nonempty_eq_nil hnone).1
      rw [hflat, List.length_nil] at hle hlen
      refine ⟨by rw [hnone]; exact Nat.zero_le 1, hall ?_⟩
      rw [hflat, List.length_nil]
      omega
    · -- Each further block with bytes costs the text one blank.
      have hpos : 0 < (nonempty blocks).length := List.length_pos_iff.mpr hnone
      exact ⟨by omega, hall (by omega)⟩
  · rintro ⟨hone, hfit⟩
    exact joined_of_one hone hfit

/-- AA and BB in two blocks are shown as `AABB`. -/
theorem hex_blocks_glued :
    (hexBlocks {} [[0xAA], [0xBB]]).1 = [0x41, 0x41, 0x42, 0x42] ∧
      ¬ ∀ st blocks, HexJoined st blocks := by
  refine ⟨by decide, fun h => ?_⟩
  have hglued : (hexBlocks {} [[0xAA], [0xBB]]).1 = hexStream [0xAA, 0xBB] := h {} _
  exact absurd hglued (by decide)

end Xcom.Display
