import Mathlib.Data.Nat.Bitwise
import Xcom.Abi.Status
import Xcom.Display.Format

/-!
# Descriptors of received bytes

The descriptor of the RX ring and the descriptor of the display lane.  Both pack the
number of source bytes with the flag of a segment that has no file lane into sixteen
bits.  Pool blocks are modelled by the payload their descriptor owns.
-/

namespace Xcom.Display

/-- `kRxBlockBytes`. -/
def kRxBlockBytes : Nat := 4096

/-- `kDisplayBatchCount`. -/
def kDisplayBatchCount : Nat := 32

/-- `kFileBackedLenMask`, which is also `kRxLenMask`. -/
def kFileBackedLenMask : UInt16 := 0x7FFF

/-- `kDisplayUnloggedBit`, which is also `kRxUnloggedFlag`. -/
def kDisplayUnloggedBit : UInt16 := 0x8000

/-- A byte count tagged with the flag of a segment without a file lane. -/
def packLen (n : Nat) (unlogged : Bool) : UInt16 :=
  (UInt16.ofNat n &&& kFileBackedLenMask) ||| (if unlogged then kDisplayUnloggedBit else 0)

/-- The byte count of a tagged length. -/
def lenOf (len : UInt16) : Nat := (len &&& kFileBackedLenMask).toNat

/-- The flag of a tagged length. -/
def unloggedOf (len : UInt16) : Bool := len &&& kDisplayUnloggedBit ≠ 0

theorem lenOf_packLen {n : Nat} (h : n < 2 ^ 15) (unlogged : Bool) :
    lenOf (packLen n unlogged) = n := by
  have hmask : kFileBackedLenMask.toNat = 2 ^ 15 - 1 := rfl
  have hn : (UInt16.ofNat n).toNat = n := by
    rw [UInt16.toNat_ofNat']
    exact Nat.mod_eq_of_lt (h.trans (by decide))
  have hflag : (if unlogged then kDisplayUnloggedBit else 0).toNat &&& (2 ^ 15 - 1) = 0 := by
    cases unlogged <;> decide
  rw [lenOf, packLen, UInt16.toNat_and, UInt16.toNat_or, UInt16.toNat_and, hmask, hn,
    Nat.and_or_distrib_right, hflag, Nat.or_zero, Nat.and_assoc, Nat.and_self,
    Nat.and_two_pow_sub_one_eq_mod, Nat.mod_eq_of_lt h]

theorem uint16_or_and (a b c : UInt16) : (a ||| b) &&& c = (a &&& c) ||| (b &&& c) := by
  rw [← UInt16.toBitVec_inj]
  exact BitVec.and_or_distrib_right

theorem unloggedOf_packLen (n : Nat) (unlogged : Bool) :
    unloggedOf (packLen n unlogged) = unlogged := by
  have hclear : (UInt16.ofNat n &&& kFileBackedLenMask) &&& kDisplayUnloggedBit = 0 := by
    rw [UInt16.and_assoc, show kFileBackedLenMask &&& kDisplayUnloggedBit = 0 by decide,
      UInt16.and_zero]
  have hor : packLen n unlogged &&& kDisplayUnloggedBit =
      (if unlogged then kDisplayUnloggedBit else 0) &&& kDisplayUnloggedBit := by
    rw [packLen, uint16_or_and, hclear, UInt16.zero_or]
  rw [unloggedOf, hor]
  cases unlogged <;> decide

/-- The session a byte was received in: the generation, and how often OPEN had been
published.  It is history. -/
structure Mark where
  generation : UInt32
  opens : Nat
  deriving DecidableEq, Repr

/-- `RxBlockRef` as it rides the display ring, with the payload of its block.  `first`,
the index of its first byte in everything received, and `mark` are history. -/
structure RxDesc where
  payload : List UInt8
  len : UInt16
  gen : UInt16
  ingressMs : UInt32
  first : Nat
  mark : Mark
  fits : payload.length ≤ kRxBlockBytes
  tagged : lenOf len = payload.length
  deriving DecidableEq, Repr

/-- `DisplayDesc` with the text of its batch.  `source` is history. -/
structure Batch where
  text : List UInt8
  rxMeta : UInt16
  ingressMs : UInt32
  gen : UInt32
  source : RxDesc
  packed : rxMeta = packLen (lenOf source.len) (unloggedOf source.len)
  deriving DecidableEq, Repr

namespace RxDesc

/-- The indices of the bytes behind a descriptor. -/
def ids (d : RxDesc) : List Nat := List.range' d.first d.payload.length

/-- The segment had no file lane. -/
def unlogged (d : RxDesc) : Bool := unloggedOf d.len

/-- The display copy `publish` makes of one segment. -/
def publish (block : List UInt8) (fits : block.length ≤ kRxBlockBytes) (fileLane : Bool)
    (generation : UInt32) (ingressMs : UInt32) (first : Nat) (mark : Mark) : RxDesc where
  payload := block
  len := packLen block.length (!fileLane)
  gen := generation.toUInt16
  ingressMs := ingressMs
  first := first
  mark := mark
  fits := fits
  tagged := lenOf_packLen (Nat.lt_of_le_of_lt fits (by decide)) _

@[simp] theorem publish_unlogged {block : List UInt8} {fits : block.length ≤ kRxBlockBytes}
    {fileLane : Bool} {generation ms : UInt32} {first : Nat} {mark : Mark} :
    (publish block fits fileLane generation ms first mark).unlogged = !fileLane :=
  unloggedOf_packLen _ _

theorem length_ids (d : RxDesc) : d.ids.length = lenOf d.len := by
  rw [ids, List.length_range', d.tagged]

end RxDesc

namespace Batch

/-- The batch `push_ready` queues for a formatted block. -/
def push (d : RxDesc) (text : List UInt8) (generation : UInt32) : Batch where
  text := text
  rxMeta := packLen (lenOf d.len) (unloggedOf d.len)
  ingressMs := d.ingressMs
  gen := generation
  source := d
  packed := rfl

theorem lenOf_rxMeta (b : Batch) : lenOf b.rxMeta = b.source.payload.length := by
  have hlen : lenOf b.source.len < 2 ^ 15 := by
    rw [b.source.tagged]
    exact Nat.lt_of_le_of_lt b.source.fits (by decide)
  rw [b.packed, lenOf_packLen hlen, b.source.tagged]

theorem unloggedOf_rxMeta (b : Batch) : unloggedOf b.rxMeta = b.source.unlogged := by
  rw [b.packed, unloggedOf_packLen, RxDesc.unlogged]

theorem length_ids (b : Batch) : b.source.ids.length = lenOf b.rxMeta := by
  rw [b.lenOf_rxMeta, RxDesc.ids, List.length_range']

end Batch

end Xcom.Display
