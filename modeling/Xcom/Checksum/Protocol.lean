import Xcom.Checksum.ShiftRegister

/-!
# Checksums of the protocol libraries

`crc8.lua`, `crc16_ccitt.lua`, `crc16_modbus.lua` and `crc32.lua`, which scripts use, and the
bitwise `crc16_fallback` of the simulator.
-/

namespace Xcom.Protocol

open Checksum

/-! ## `crc8.lua` -/

/-- A round of `build_table`. -/
def crc8Round (crc : Nat) : Nat :=
  let crc := if crc ≥ 0x80 then (crc * 2) ^^^ 0x07 else crc * 2
  if crc > 0xFF then crc - 0x100 else crc

/-- `TABLE[i + 1]`. -/
def crc8Entry (i : Nat) : Nat := crc8Round^[8] i

/-- `crc8`. -/
def crc8 (s : List UInt8) : Nat :=
  s.foldl (fun crc b => crc8Entry ((crc ^^^ b.toNat) &&& 0xFF)) 0

/-! ## `crc16_ccitt.lua` -/

/-- A round of `hash`. -/
def hashRound (byte crc i : Nat) : Nat :=
  let b := (byte >>> (7 - i)) &&& 1
  let msb := (crc >>> 15) &&& 1
  let crc := (crc <<< 1) &&& 0xFFFF
  if b ^^^ msb = 1 then crc ^^^ 0x1021 else crc

/-- `hash`. -/
def hash (crc byte : Nat) : Nat := (List.range 8).foldl (hashRound byte) crc

/-- `crc16_ccitt`. -/
def crc16Ccitt (s : List UInt8) : Nat :=
  s.foldl (fun crc b => hash crc b.toNat) 0xFFFF &&& 0xFFFF

/-! ## `crc16_modbus.lua` -/

/-- `TABLE`. -/
def modbusTable : List Nat := [
  0x0000, 0xC0C1, 0xC181, 0x0140, 0xC301, 0x03C0, 0x0280, 0xC241, 0xC601, 0x06C0,
  0x0780, 0xC741, 0x0500, 0xC5C1, 0xC481, 0x0440, 0xCC01, 0x0CC0, 0x0D80, 0xCD41,
  0x0F00, 0xCFC1, 0xCE81, 0x0E40, 0x0A00, 0xCAC1, 0xCB81, 0x0B40, 0xC901, 0x09C0,
  0x0880, 0xC841, 0xD801, 0x18C0, 0x1980, 0xD941, 0x1B00, 0xDBC1, 0xDA81, 0x1A40,
  0x1E00, 0xDEC1, 0xDF81, 0x1F40, 0xDD01, 0x1DC0, 0x1C80, 0xDC41, 0x1400, 0xD4C1,
  0xD581, 0x1540, 0xD701, 0x17C0, 0x1680, 0xD641, 0xD201, 0x12C0, 0x1380, 0xD341,
  0x1100, 0xD1C1, 0xD081, 0x1040, 0xF001, 0x30C0, 0x3180, 0xF141, 0x3300, 0xF3C1,
  0xF281, 0x3240, 0x3600, 0xF6C1, 0xF781, 0x3740, 0xF501, 0x35C0, 0x3480, 0xF441,
  0x3C00, 0xFCC1, 0xFD81, 0x3D40, 0xFF01, 0x3FC0, 0x3E80, 0xFE41, 0xFA01, 0x3AC0,
  0x3B80, 0xFB41, 0x3900, 0xF9C1, 0xF881, 0x3840, 0x2800, 0xE8C1, 0xE981, 0x2940,
  0xEB01, 0x2BC0, 0x2A80, 0xEA41, 0xEE01, 0x2EC0, 0x2F80, 0xEF41, 0x2D00, 0xEDC1,
  0xEC81, 0x2C40, 0xE401, 0x24C0, 0x2580, 0xE541, 0x2700, 0xE7C1, 0xE681, 0x2640,
  0x2200, 0xE2C1, 0xE381, 0x2340, 0xE101, 0x21C0, 0x2080, 0xE041, 0xA001, 0x60C0,
  0x6180, 0xA141, 0x6300, 0xA3C1, 0xA281, 0x6240, 0x6600, 0xA6C1, 0xA781, 0x6740,
  0xA501, 0x65C0, 0x6480, 0xA441, 0x6C00, 0xACC1, 0xAD81, 0x6D40, 0xAF01, 0x6FC0,
  0x6E80, 0xAE41, 0xAA01, 0x6AC0, 0x6B80, 0xAB41, 0x6900, 0xA9C1, 0xA881, 0x6840,
  0x7800, 0xB8C1, 0xB981, 0x7940, 0xBB01, 0x7BC0, 0x7A80, 0xBA41, 0xBE01, 0x7EC0,
  0x7F80, 0xBF41, 0x7D00, 0xBDC1, 0xBC81, 0x7C40, 0xB401, 0x74C0, 0x7580, 0xB541,
  0x7700, 0xB7C1, 0xB681, 0x7640, 0x7200, 0xB2C1, 0xB381, 0x7340, 0xB101, 0x71C0,
  0x7080, 0xB041, 0x5000, 0x90C1, 0x9181, 0x5140, 0x9301, 0x53C0, 0x5280, 0x9241,
  0x9601, 0x56C0, 0x5780, 0x9741, 0x5500, 0x95C1, 0x9481, 0x5440, 0x9C01, 0x5CC0,
  0x5D80, 0x9D41, 0x5F00, 0x9FC1, 0x9E81, 0x5E40, 0x5A00, 0x9AC1, 0x9B81, 0x5B40,
  0x9901, 0x59C0, 0x5880, 0x9841, 0x8801, 0x48C0, 0x4980, 0x8941, 0x4B00, 0x8BC1,
  0x8A81, 0x4A40, 0x4E00, 0x8EC1, 0x8F81, 0x4F40, 0x8D01, 0x4DC0, 0x4C80, 0x8C41,
  0x4400, 0x84C1, 0x8581, 0x4540, 0x8701, 0x47C0, 0x4680, 0x8641, 0x8201, 0x42C0,
  0x4380, 0x8341, 0x4100, 0x81C1, 0x8081, 0x4040]

/-- `crc16_modbus`. -/
def crc16Modbus (s : List UInt8) : Nat :=
  s.foldl (fun crc b => (crc >>> 8) ^^^ modbusTable.getD ((crc ^^^ b.toNat) &&& 0xFF) 0) 0xFFFF

/-- `crc16_modbus_bytes`. -/
def crc16ModbusBytes (s : List UInt8) : List UInt8 :=
  [UInt8.ofNat (crc16Modbus s &&& 0xFF), UInt8.ofNat ((crc16Modbus s >>> 8) &&& 0xFF)]

/-- A round of `crc16_fallback`. -/
def fallbackRound (crc : Nat) : Nat := if crc &&& 1 = 1 then (crc >>> 1) ^^^ 0xA001 else crc >>> 1

/-- `crc16_fallback`. -/
def crc16Fallback (s : List UInt8) : Nat :=
  s.foldl (fun crc b => fallbackRound^[8] (crc ^^^ b.toNat)) 0xFFFF

/-! ## `crc32.lua` -/

/-- A round of `crc_table`. -/
def crc32Round (crc : UInt32) : UInt32 :=
  if crc &&& 1 = 1 then (crc >>> 1) ^^^ 0xEDB88320 else crc >>> 1

/-- `crc_table[i]`. -/
def crc32Entry (i : UInt32) : UInt32 := crc32Round^[8] i

/-- `crc32_byte`. -/
def crc32Byte (byte : UInt8) (crc : UInt32) : UInt32 :=
  let crc := ~~~crc
  ~~~((crc >>> 8) ^^^ crc32Entry (crc % 256 ^^^ byte.toUInt32))

/-- `crc32_string`. -/
def crc32String (s : List UInt8) (crc : UInt32) : UInt32 :=
  s.foldl (fun crc b => crc32Byte b crc) crc

/-! ## Their registers -/

/-- The bits of a byte, the highest one first. -/
def byteHigh (b : UInt8) : List Bool := (List.range 8).map b.toBitVec.getMsbD

/-- The bits of a byte, the lowest one first. -/
def byteLow (b : UInt8) : List Bool := (List.range 8).map b.toBitVec.getLsbD

theorem modbusTable_eq_map : modbusTable = (List.range 256).map fun i =>
    ((zeroRight 0xA001#16)^[8] (BitVec.ofNat 16 i)).toNat := by decide +kernel

theorem modbusTable_eq : ∀ i < 256, modbusTable.getD i 0 =
    ((zeroRight 0xA001#16)^[8] (BitVec.ofNat 16 i)).toNat := by
  intro i hi
  rw [modbusTable_eq_map, List.getD_eq_getElem?_getD, List.getElem?_map, List.getElem?_range hi]
  rfl

theorem crc8Round_eq : ∀ i < 256, crc8Round i = (zeroLeft 0x07#8 (BitVec.ofNat 8 i)).toNat := by
  decide +kernel

theorem packLow_byte {w : Nat} (b : UInt8) :
    (packLow (byteLow b) : BitVec w) = b.toBitVec.setWidth w := by
  apply BitVec.eq_of_getLsbD_eq
  intro i hi
  rw [getLsbD_packLow, BitVec.getLsbD_setWidth]
  by_cases hbyte : i < 8
  · simp [byteLow, hi, hbyte]
  · simp [byteLow, hi, hbyte, BitVec.getLsbD_of_ge b.toBitVec i (by omega)]

theorem packHigh_byte (b : UInt8) : packHigh (byteHigh b) = b.toBitVec := by
  apply BitVec.eq_of_getMsbD_eq
  intro i hi
  rw [getMsbD_packHigh]
  simp [byteHigh, hi]

/-- A byte of the register that is shifted right, with a table of eight steps. -/
theorem foldl_byteLow {w : Nat} (hw : 8 ≤ w) (poly c : BitVec w) (b : UInt8) :
    (byteLow b).foldl (stepRight poly) c = (c >>> 8) ^^^
      (zeroRight poly)^[8] (((c ^^^ b.toBitVec.setWidth w).setWidth 8).setWidth w) := by
  have hlen : (byteLow b).length = 8 := by simp [byteLow]
  have hhigh : b.toBitVec.setWidth w >>> 8 = 0#w := by
    apply BitVec.eq_of_getLsbD_eq
    intro i hi
    simp
  rw [foldl_stepRight (by omega) poly c _ (by omega), hlen, packLow_byte,
    iterate_zeroRight_split, BitVec.ushiftRight_xor_distrib, hhigh, BitVec.xor_zero]

/-- The bits that a byte-wise check takes in. -/
theorem foldl_flatMap {σ : Type} {w : Nat} (state : BitVec w → σ) (next : σ → UInt8 → σ)
    {step : BitVec w → Bool → BitVec w} {bits : UInt8 → List Bool}
    (h : ∀ c b, next (state c) b = state ((bits b).foldl step c)) (s : List UInt8) (c : BitVec w) :
    s.foldl next (state c) = state ((s.flatMap bits).foldl step c) := by
  induction s generalizing c with
  | nil => rfl
  | cons b s ih => rw [List.foldl_cons, h, ih, List.flatMap_cons, List.foldl_append]

theorem crc8Entry_eq (c : BitVec 8) : crc8Entry c.toNat = ((zeroLeft 0x07#8)^[8] c).toNat := by
  have hround : ∀ d : BitVec 8, crc8Round d.toNat = (zeroLeft 0x07#8 d).toNat := by
    intro d
    have hd := crc8Round_eq d.toNat d.isLt
    rwa [BitVec.ofNat_toNat, BitVec.setWidth_eq] at hd
  have hrounds : ∀ (n : Nat) (d : BitVec 8),
      crc8Round^[n] d.toNat = ((zeroLeft 0x07#8)^[n] d).toNat := by
    intro n
    induction n with
    | zero => exact fun d => rfl
    | succ n ih =>
      intro d
      rw [Function.iterate_succ_apply, hround, ih, ← Function.iterate_succ_apply]
  exact hrounds 8 c

theorem crc8_eq (s : List UInt8) :
    crc8 s = ((s.flatMap byteHigh).foldl (stepLeft 0x07#8) 0#8).toNat := by
  refine foldl_flatMap BitVec.toNat _ (fun c b => ?_) s 0#8
  have hlen : (byteHigh b).length = 8 := by simp [byteHigh]
  have hmask : (c.toNat ^^^ b.toNat) &&& 0xFF = (c ^^^ b.toBitVec).toNat := by
    rw [← UInt8.toNat_toBitVec, ← BitVec.toNat_xor]
    exact (Nat.and_two_pow_sub_one_eq_mod _ 8).trans (Nat.mod_eq_of_lt (BitVec.isLt _))
  rw [hmask, crc8Entry_eq, foldl_stepLeft (by decide) _ _ _ (by omega), hlen, packHigh_byte]

theorem low_index {w : Nat} (hw : 8 ≤ w) (c : BitVec w) (b : UInt8) :
    ((c ^^^ b.toBitVec.setWidth w).setWidth 8).toNat = (c.toNat ^^^ b.toNat) &&& 0xFF := by
  have hb : (b.toBitVec.setWidth w).toNat = b.toNat := by
    rw [BitVec.toNat_setWidth, UInt8.toNat_toBitVec]
    exact Nat.mod_eq_of_lt (b.toNat_lt.trans_le (Nat.pow_le_pow_right (by decide) hw))
  rw [BitVec.toNat_setWidth, BitVec.toNat_xor, hb]
  exact (Nat.and_two_pow_sub_one_eq_mod _ 8).symm

theorem crc16Modbus_eq (s : List UInt8) :
    crc16Modbus s = ((s.flatMap byteLow).foldl (stepRight 0xA001#16) 0xFFFF#16).toNat := by
  refine foldl_flatMap BitVec.toNat _ (fun c b => ?_) s 0xFFFF#16
  have hindex := low_index (by decide) c b
  have hentry := modbusTable_eq _ (((c ^^^ b.toBitVec.setWidth 16).setWidth 8).isLt)
  rw [BitVec.ofNat_toNat] at hentry
  rw [foldl_byteLow (by decide), BitVec.toNat_xor, BitVec.toNat_ushiftRight, ← hindex, hentry]

theorem fallbackRound_eq (c : BitVec 16) :
    fallbackRound c.toNat = (zeroRight 0xA001#16 c).toNat := by
  have hlow : c.toNat &&& 1 = 1 ↔ c.getLsbD 0 = true := by
    rw [Nat.and_one_is_mod, ← BitVec.testBit_toNat, Nat.testBit_zero, decide_eq_true_eq]
  unfold fallbackRound zeroRight stepRight
  by_cases hbit : c.getLsbD 0 = true
  · rw [if_pos (hlow.mpr hbit), hbit]
    simp [gate]
  · rw [if_neg (hlow.not.mpr hbit), Bool.eq_false_iff.mpr hbit]
    simp [gate]

theorem crc16Fallback_eq (s : List UInt8) :
    crc16Fallback s = ((s.flatMap byteLow).foldl (stepRight 0xA001#16) 0xFFFF#16).toNat := by
  refine foldl_flatMap BitVec.toNat _ (fun c b => ?_) s 0xFFFF#16
  have hlen : (byteLow b).length = 8 := by simp [byteLow]
  have hb : (b.toBitVec.setWidth 16).toNat = b.toNat := by
    rw [BitVec.toNat_setWidth, UInt8.toNat_toBitVec]
    exact Nat.mod_eq_of_lt (b.toNat_lt.trans (by decide))
  have hrounds : ∀ (n : Nat) (d : BitVec 16),
      fallbackRound^[n] d.toNat = ((zeroRight 0xA001#16)^[n] d).toNat := by
    intro n
    induction n with
    | zero => exact fun d => rfl
    | succ n ih =>
      intro d
      rw [Function.iterate_succ_apply, fallbackRound_eq, ih, ← Function.iterate_succ_apply]
  rw [foldl_stepRight (by decide) _ _ _ (by omega), hlen, packLow_byte, ← hrounds,
    BitVec.toNat_xor, hb]

/-- The bit that `band(rshift(byte, i), 1)` reads. -/
theorem shifted_bit (n i : Nat) : (n >>> i) &&& 1 = (n.testBit i).toNat := by
  rw [Nat.and_one_is_mod, Nat.toNat_testBit, Nat.shiftRight_eq_div_pow]

theorem hashRound_eq (b : UInt8) (c : BitVec 16) (i : Nat) (hi : i < 8) :
    hashRound b.toNat c.toNat i = (stepLeft 0x1021#16 c (b.toBitVec.getMsbD i)).toNat := by
  have hbyte : b.toNat.testBit (7 - i) = b.toBitVec.getMsbD i := by
    rw [BitVec.getMsbD, decide_eq_true hi, Bool.true_and, ← BitVec.testBit_toNat,
      UInt8.toNat_toBitVec]
  have hmsb : c.toNat.testBit 15 = c.msb := by
    rw [BitVec.msb_eq_getLsbD_last, BitVec.testBit_toNat]
  have hshift : (c.toNat <<< 1) &&& 0xFFFF = (c <<< 1).toNat := by
    rw [BitVec.toNat_shiftLeft]
    exact Nat.and_two_pow_sub_one_eq_mod _ 16
  unfold hashRound stepLeft
  rw [shifted_bit, shifted_bit, hbyte, hmsb, hshift, BitVec.toNat_xor]
  cases b.toBitVec.getMsbD i <;> cases c.msb <;> simp [gate]

theorem hash_eq (b : UInt8) (c : BitVec 16) :
    hash c.toNat b.toNat = ((byteHigh b).foldl (stepLeft 0x1021#16) c).toNat := by
  have hrounds : ∀ (is : List Nat) (d : BitVec 16), (∀ i ∈ is, i < 8) →
      is.foldl (hashRound b.toNat) d.toNat =
        ((is.map b.toBitVec.getMsbD).foldl (stepLeft 0x1021#16) d).toNat := by
    intro is
    induction is with
    | nil => exact fun d _ => rfl
    | cons i is ih =>
      intro d his
      rw [List.foldl_cons, hashRound_eq b d i (his i (List.mem_cons_self ..)), List.map_cons,
        List.foldl_cons, ih _ fun j hj => his j (List.mem_cons_of_mem _ hj)]
  exact hrounds _ c fun i hi => List.mem_range.mp hi

theorem crc16Ccitt_eq (s : List UInt8) :
    crc16Ccitt s = ((s.flatMap byteHigh).foldl (stepLeft 0x1021#16) 0xFFFF#16).toNat := by
  have hstate := foldl_flatMap BitVec.toNat (fun crc b => hash crc b.toNat)
    (fun c b => hash_eq b c) s 0xFFFF#16
  have hmask := Nat.and_two_pow_sub_one_eq_mod
    ((s.flatMap byteHigh).foldl (stepLeft 0x1021#16) 0xFFFF#16).toNat 16
  rw [Nat.mod_eq_of_lt (BitVec.isLt _)] at hmask
  unfold crc16Ccitt
  exact (congrArg (· &&& 0xFFFF) hstate).trans hmask

theorem crc32Round_eq (c : UInt32) :
    (crc32Round c).toBitVec = zeroRight 0xEDB88320#32 c.toBitVec := by
  have hlow : c &&& 1 = 1 ↔ c.toBitVec.getLsbD 0 = true := by
    rw [← UInt32.toNat_inj, UInt32.toNat_and, ← BitVec.testBit_toNat, UInt32.toNat_toBitVec,
      Nat.testBit_zero, decide_eq_true_eq, ← Nat.and_one_is_mod]
    rfl
  unfold crc32Round zeroRight stepRight
  by_cases hbit : c.toBitVec.getLsbD 0 = true
  · rw [if_pos (hlow.mpr hbit), hbit]
    rfl
  · rw [if_neg (hlow.not.mpr hbit), Bool.eq_false_iff.mpr hbit]
    simp only [gate, Bool.xor_false, Bool.false_eq_true, if_false, BitVec.xor_zero]
    rfl

/-- The register of `crc32.lua` is kept complemented. -/
def crc32State (c : BitVec 32) : UInt32 := UInt32.ofBitVec (~~~c)

theorem crc32Byte_eq (b : UInt8) (c : BitVec 32) :
    crc32Byte b (crc32State c) = crc32State ((byteLow b).foldl (stepRight 0xEDB88320#32) c) := by
  have hrounds : ∀ (n : Nat) (d : UInt32),
      (crc32Round^[n] d).toBitVec = (zeroRight 0xEDB88320#32)^[n] d.toBitVec := by
    intro n
    induction n with
    | zero => exact fun d => rfl
    | succ n ih =>
      intro d
      rw [Function.iterate_succ_apply, ih, crc32Round_eq, ← Function.iterate_succ_apply]
  have hnot : ~~~(crc32State c) = UInt32.ofBitVec c := by
    apply UInt32.toBitVec_inj.mp
    rw [UInt32.toBitVec_not, crc32State, BitVec.not_not]
  have hlow : (UInt32.ofBitVec c % 256 ^^^ b.toUInt32).toBitVec =
      ((c ^^^ b.toBitVec.setWidth 32).setWidth 8).setWidth 32 := by
    apply BitVec.eq_of_toNat_eq
    rw [BitVec.toNat_setWidth, Nat.mod_eq_of_lt ((BitVec.isLt _).trans (by decide)),
      low_index (by decide), UInt32.toNat_toBitVec, UInt32.toNat_xor, UInt32.toNat_mod,
      UInt8.toNat_toUInt32]
    calc c.toNat % 256 ^^^ b.toNat
        = c.toNat % 2 ^ 8 ^^^ b.toNat % 2 ^ 8 := by
          rw [Nat.mod_eq_of_lt b.toNat_lt]
      _ = (c.toNat ^^^ b.toNat) % 2 ^ 8 := Nat.xor_mod_two_pow.symm
      _ = (c.toNat ^^^ b.toNat) &&& 0xFF := (Nat.and_two_pow_sub_one_eq_mod _ 8).symm
  unfold crc32Byte crc32Entry
  rw [hnot, foldl_byteLow (by decide)]
  apply UInt32.toBitVec_inj.mp
  rw [UInt32.toBitVec_not, UInt32.toBitVec_xor, hrounds, hlow, UInt32.toBitVec_shiftRight]
  rfl

theorem crc32String_eq (s : List UInt8) : crc32String s 0 =
    crc32State ((s.flatMap byteLow).foldl (stepRight 0xEDB88320#32) 0xFFFFFFFF#32) :=
  foldl_flatMap crc32State (fun crc b => crc32Byte b crc) (fun c b => crc32Byte_eq b c) s
    0xFFFFFFFF#32

end Xcom.Protocol
