import Xcom.Checksum.Protocol

/-!
# What the checksums detect

The four checksums as remainders of the received bits, the errors no message hides from them,
and the frames that end in their own check.
-/

namespace Xcom.Protocol

open Checksum Polynomial

/-! ## The generators -/

/-- The polynomial of a register of ones. -/
noncomputable def ones (w : Nat) : (ZMod 2)[X] := ofBits w fun _ => true

noncomputable def crc8Divider : Divider (BitVec 8) 8 := left 0x07#8 (by decide) (by decide)

noncomputable def ccittDivider : Divider (BitVec 16) 16 := left 0x1021#16 (by decide) (by decide)

noncomputable def modbusDivider : Divider (BitVec 16) 16 := right 0xA001#16 (by decide) (by decide)

noncomputable def crc32Divider : Divider (BitVec 32) 32 :=
  right 0xEDB88320#32 (by decide) (by decide)

theorem crc8_generator : crc8Divider.generator = X ^ 8 + X ^ 2 + X + 1 := by
  have hgen : crc8Divider.generator = Checksum.generator 8 (0x07#8).getLsbD := rfl
  rw [hgen]
  simp [Checksum.generator, ofBits, Finset.sum_range_succ, bit]
  ring

theorem ccitt_generator : ccittDivider.generator = X ^ 16 + X ^ 12 + X ^ 5 + 1 := by
  have hgen : ccittDivider.generator = Checksum.generator 16 (0x1021#16).getLsbD := rfl
  rw [hgen]
  simp [Checksum.generator, ofBits, Finset.sum_range_succ, bit]
  ring

theorem modbus_generator : modbusDivider.generator = X ^ 16 + X ^ 15 + X ^ 2 + 1 := by
  have hgen : modbusDivider.generator = Checksum.generator 16 (0xA001#16).getMsbD := rfl
  rw [hgen]
  simp [Checksum.generator, ofBits, Finset.sum_range_succ, bit]
  ring

theorem crc32_generator : crc32Divider.generator = X ^ 32 + X ^ 26 + X ^ 23 + X ^ 22 + X ^ 16 +
    X ^ 12 + X ^ 11 + X ^ 10 + X ^ 8 + X ^ 7 + X ^ 5 + X ^ 4 + X ^ 2 + X + 1 := by
  have hgen : crc32Divider.generator = Checksum.generator 32 (0xEDB88320#32).getMsbD := rfl
  rw [hgen]
  simp [Checksum.generator, ofBits, Finset.sum_range_succ, bit]
  ring

/-! ## Remainders -/

theorem length_byteHigh (s : List UInt8) : (s.flatMap byteHigh).length = 8 * s.length := by
  induction s with
  | nil => rfl
  | cons b s ih =>
    rw [List.flatMap_cons, List.length_append, ih, List.length_cons]
    simp only [byteHigh, List.length_map, List.length_range]
    ring

theorem length_byteLow (s : List UInt8) : (s.flatMap byteLow).length = 8 * s.length := by
  induction s with
  | nil => rfl
  | cons b s ih =>
    rw [List.flatMap_cons, List.length_append, ih, List.length_cons]
    simp only [byteLow, List.length_map, List.length_range]
    ring

theorem ofBits_congr {w : Nat} {f g : Nat → Bool} (h : ∀ i < w, f i = g i) :
    ofBits w f = ofBits w g := by
  unfold ofBits
  exact Finset.sum_congr rfl fun _ hi => by rw [h _ (Finset.mem_range.mp hi)]

theorem ofBits_toNat {w : Nat} (c : BitVec w) : ofBits w c.toNat.testBit = ofBits w c.getLsbD :=
  ofBits_congr fun _ _ => BitVec.testBit_toNat c

/-- A number read from its highest bit. -/
theorem ofBits_reflected {w : Nat} (c : BitVec w) :
    (ofBits w fun i => c.toNat.testBit (w - 1 - i)) = ofBits w c.getMsbD :=
  ofBits_congr fun i hi => by
    rw [BitVec.testBit_toNat, BitVec.getMsbD, decide_eq_true hi, Bool.true_and]

theorem ofBits_allOnes (w : Nat) : ofBits w (BitVec.allOnes w).getLsbD = ones w :=
  ofBits_congr fun _ hi => by rw [BitVec.getLsbD_allOnes, decide_eq_true hi]

theorem ofBits_allOnes_reflected (w : Nat) : ofBits w (BitVec.allOnes w).getMsbD = ones w :=
  ofBits_congr fun _ hi => by rw [BitVec.getMsbD_allOnes, decide_eq_true hi]

theorem crc8_remainder (s : List UInt8) : ofBits 8 (crc8 s).testBit =
    (X ^ 8 * message (s.flatMap byteHigh)) %ₘ (X ^ 8 + X ^ 2 + X + 1) := by
  have hrun := crc8Divider.value_run 0#8 (s.flatMap byteHigh)
  have hzero : crc8Divider.value 0#8 = 0 := by
    change ofBits 8 (0#8).getLsbD = 0
    simp [ofBits, bit]
  rw [hzero, mul_zero, zero_add, crc8_generator] at hrun
  rw [crc8_eq, ofBits_toNat]
  exact hrun

theorem ccitt_remainder (s : List UInt8) : ofBits 16 (crc16Ccitt s).testBit =
    (X ^ (8 * s.length) * ones 16 + X ^ 16 * message (s.flatMap byteHigh)) %ₘ
      (X ^ 16 + X ^ 12 + X ^ 5 + 1) := by
  have hrun := ccittDivider.value_run 0xFFFF#16 (s.flatMap byteHigh)
  have hones : ccittDivider.value 0xFFFF#16 = ones 16 := ofBits_allOnes 16
  rw [hones, length_byteHigh, ccitt_generator] at hrun
  rw [crc16Ccitt_eq, ofBits_toNat]
  exact hrun

theorem modbus_remainder (s : List UInt8) :
    (ofBits 16 fun i => (crc16Modbus s).testBit (15 - i)) =
    (X ^ (8 * s.length) * ones 16 + X ^ 16 * message (s.flatMap byteLow)) %ₘ
      (X ^ 16 + X ^ 15 + X ^ 2 + 1) := by
  have hrun := modbusDivider.value_run 0xFFFF#16 (s.flatMap byteLow)
  have hones : modbusDivider.value 0xFFFF#16 = ones 16 := ofBits_allOnes_reflected 16
  rw [hones, length_byteLow, modbus_generator] at hrun
  rw [crc16Modbus_eq]
  exact (ofBits_reflected _).trans hrun

theorem crc32_remainder (s : List UInt8) :
    (ofBits 32 fun i => !(crc32String s 0).toNat.testBit (31 - i)) =
    (X ^ (8 * s.length) * ones 32 + X ^ 32 * message (s.flatMap byteLow)) %ₘ
      (X ^ 32 + X ^ 26 + X ^ 23 + X ^ 22 + X ^ 16 + X ^ 12 + X ^ 11 + X ^ 10 + X ^ 8 + X ^ 7 +
        X ^ 5 + X ^ 4 + X ^ 2 + X + 1) := by
  have hrun := crc32Divider.value_run 0xFFFFFFFF#32 (s.flatMap byteLow)
  have hones : crc32Divider.value 0xFFFFFFFF#32 = ones 32 := ofBits_allOnes_reflected 32
  rw [hones, length_byteLow, crc32_generator] at hrun
  have hnot : ∀ c : BitVec 32,
      (ofBits 32 fun i => !(crc32State c).toNat.testBit (31 - i)) = ofBits 32 c.getMsbD := by
    intro c
    refine ofBits_congr fun i hi => ?_
    have hlt : 31 - i < 32 := by omega
    rw [crc32State, UInt32.toNat_ofBitVec, BitVec.testBit_toNat, BitVec.getLsbD_not,
      decide_eq_true hlt, Bool.true_and, Bool.not_not, BitVec.getMsbD, decide_eq_true hi,
      Bool.true_and]
  rw [crc32String_eq]
  exact (hnot _).trans hrun

/-- Each checksum is the remainder of the bits it was given, in the order of its register, by its
polynomial. -/
theorem checksums_are_remainders (s : List UInt8) :
    ofBits 8 (crc8 s).testBit =
      (X ^ 8 * message (s.flatMap byteHigh)) %ₘ (X ^ 8 + X ^ 2 + X + 1) ∧
    ofBits 16 (crc16Ccitt s).testBit =
      (X ^ (8 * s.length) * ones 16 + X ^ 16 * message (s.flatMap byteHigh)) %ₘ
        (X ^ 16 + X ^ 12 + X ^ 5 + 1) ∧
    (ofBits 16 fun i => (crc16Modbus s).testBit (15 - i)) =
      (X ^ (8 * s.length) * ones 16 + X ^ 16 * message (s.flatMap byteLow)) %ₘ
        (X ^ 16 + X ^ 15 + X ^ 2 + 1) ∧
    (ofBits 32 fun i => !(crc32String s 0).toNat.testBit (31 - i)) =
      (X ^ (8 * s.length) * ones 32 + X ^ 32 * message (s.flatMap byteLow)) %ₘ
        (X ^ 32 + X ^ 26 + X ^ 23 + X ^ 22 + X ^ 16 + X ^ 12 + X ^ 11 + X ^ 10 + X ^ 8 + X ^ 7 +
          X ^ 5 + X ^ 4 + X ^ 2 + X + 1) :=
  ⟨crc8_remainder s, ccitt_remainder s, modbus_remainder s, crc32_remainder s⟩

/-! ## Errors that are found -/

/-- Two texts that differ only within a window of `n` bits, in the order they are sent. -/
def DifferWithin (bits : UInt8 → List Bool) (n : Nat) (s s' : List UInt8) : Prop :=
  ∃ before x y behind, s.flatMap bits = before ++ x ++ behind ∧
    s'.flatMap bits = before ++ y ++ behind ∧ x.length = y.length ∧ x.length ≤ n ∧ x ≠ y

theorem run_ne_of_differWithin {σ : Type} {w : Nat} (D : Divider σ w) (c : σ)
    {bits : UInt8 → List Bool} {s s' : List UInt8} (h : DifferWithin bits w s s') :
    D.run c (s.flatMap bits) ≠ D.run c (s'.flatMap bits) := by
  obtain ⟨before, x, y, behind, hs, hs', hlen, hw, hne⟩ := h
  rw [hs, hs']
  exact D.burst c before behind hlen hw hne

/-- Two texts that differ within as many bits as the checksum has never have one checksum. -/
theorem bursts_are_detected (s s' : List UInt8) :
    (DifferWithin byteHigh 8 s s' → crc8 s ≠ crc8 s') ∧
    (DifferWithin byteHigh 16 s s' → crc16Ccitt s ≠ crc16Ccitt s') ∧
    (DifferWithin byteLow 16 s s' → crc16Modbus s ≠ crc16Modbus s') ∧
    (DifferWithin byteLow 32 s s' → crc32String s 0 ≠ crc32String s' 0) := by
  refine ⟨fun h => ?_, fun h => ?_, fun h => ?_, fun h => ?_⟩
  · rw [crc8_eq, crc8_eq, ne_eq, BitVec.toNat_inj]
    exact run_ne_of_differWithin crc8Divider 0#8 h
  · rw [crc16Ccitt_eq, crc16Ccitt_eq, ne_eq, BitVec.toNat_inj]
    exact run_ne_of_differWithin ccittDivider 0xFFFF#16 h
  · rw [crc16Modbus_eq, crc16Modbus_eq, ne_eq, BitVec.toNat_inj]
    exact run_ne_of_differWithin modbusDivider 0xFFFF#16 h
  · have hinj : ∀ c c' : BitVec 32, crc32State c = crc32State c' → c = c' := by
      intro c c' hc
      exact BitVec.not_inj.mp (congrArg UInt32.toBitVec hc)
    rw [crc32String_eq, crc32String_eq]
    exact fun heq => run_ne_of_differWithin crc32Divider 0xFFFFFFFF#32 h (hinj _ _ heq)

theorem bursts_are_detected_one_byte :
    crc8 [0x31] ≠ crc8 [0x3E] ∧ crc32String [0x31] 0 ≠ crc32String [0x3E] 0 := by
  have hfound := bursts_are_detected [0x31] [0x3E]
  refine ⟨hfound.1 ?_, hfound.2.2.2 ?_⟩
  · exact ⟨[], byteHigh 0x31, byteHigh 0x3E, [], by decide, by decide, by decide, by decide,
      by decide⟩
  · exact ⟨[], byteLow 0x31, byteLow 0x3E, [], by decide, by decide, by decide, by decide,
      by decide⟩

/-- The bits in which two texts differ. -/
def bitErrors (s s' : List UInt8) : Nat :=
  (differing (s.flatMap byteHigh) (s'.flatMap byteHigh)).count true

theorem byteLow_eq_reverse (b : UInt8) : byteLow b = (byteHigh b).reverse := by
  apply List.ext_getElem
  · simp [byteLow, byteHigh]
  · intro i hi hi'
    have hlt : i < 8 := by simpa [byteLow] using hi
    have hback : 7 - (7 - i) = i := by omega
    have hlast : 7 - i < 8 := by omega
    simp [byteLow, byteHigh, BitVec.getMsbD, hback, hlast]

theorem differing_append {a a' b b' : List Bool} (h : a.length = a'.length) :
    differing (a ++ b) (a' ++ b') = differing a a' ++ differing b b' :=
  List.zipWith_append h

theorem differing_reverse {a a' : List Bool} (h : a.length = a'.length) :
    differing a.reverse a'.reverse = (differing a a').reverse := by
  apply List.ext_getElem
  · simp [differing]
  · intro i hi hi'
    simp [differing, List.getElem_reverse, h]

/-- The number of wrong bits is one number in both orders. -/
theorem bitErrors_low {s s' : List UInt8} (hlen : s.length = s'.length) :
    (differing (s.flatMap byteLow) (s'.flatMap byteLow)).count true = bitErrors s s' := by
  induction s generalizing s' with
  | nil =>
    obtain rfl := List.length_eq_zero_iff.mp hlen.symm
    rfl
  | cons b s ih =>
    obtain _ | ⟨b', s'⟩ := s'
    · cases hlen
    · have hhigh : (byteHigh b).length = (byteHigh b').length := by simp [byteHigh]
      have hlow : (byteLow b).length = (byteLow b').length := by simp [byteLow]
      have hbyte : differing (byteLow b) (byteLow b') =
          (differing (byteHigh b) (byteHigh b')).reverse := by
        rw [byteLow_eq_reverse, byteLow_eq_reverse, differing_reverse hhigh]
      rw [bitErrors, List.flatMap_cons, List.flatMap_cons, List.flatMap_cons, List.flatMap_cons,
        differing_append hlow, differing_append hhigh, List.count_append, List.count_append, hbyte,
        List.count_reverse, ih (Nat.succ.inj hlen), bitErrors]

/-- Texts of one length that differ in an odd number of bits have different checksums. -/
theorem odd_errors_are_detected (s s' : List UInt8) (hlen : s.length = s'.length)
    (hodd : Odd (bitErrors s s')) :
    crc8 s ≠ crc8 s' ∧ crc16Ccitt s ≠ crc16Ccitt s' ∧ crc16Modbus s ≠ crc16Modbus s' := by
  have hhigh : (s.flatMap byteHigh).length = (s'.flatMap byteHigh).length := by
    rw [length_byteHigh, length_byteHigh, hlen]
  have hlow : (s.flatMap byteLow).length = (s'.flatMap byteLow).length := by
    rw [length_byteLow, length_byteLow, hlen]
  refine ⟨?_, ?_, ?_⟩
  · have hroot : crc8Divider.generator.eval 1 = 0 := by
      rw [crc8_generator]
      simp
      decide
    rw [crc8_eq, crc8_eq, ne_eq, BitVec.toNat_inj]
    exact crc8Divider.odd_errors hroot 0#8 hhigh hodd
  · have hroot : ccittDivider.generator.eval 1 = 0 := by
      rw [ccitt_generator]
      simp
      decide
    rw [crc16Ccitt_eq, crc16Ccitt_eq, ne_eq, BitVec.toNat_inj]
    exact ccittDivider.odd_errors hroot 0xFFFF#16 hhigh hodd
  · have hroot : modbusDivider.generator.eval 1 = 0 := by
      rw [modbus_generator]
      simp
      decide
    rw [← bitErrors_low hlen] at hodd
    rw [crc16Modbus_eq, crc16Modbus_eq, ne_eq, BitVec.toNat_inj]
    exact modbusDivider.odd_errors hroot 0xFFFF#16 hlow hodd

theorem odd_errors_are_detected_one_bit : crc8 [0x31] ≠ crc8 [0x30] :=
  (odd_errors_are_detected [0x31] [0x30] rfl (by decide)).1

/-! ## Frames that end in their check -/

theorem getD_byteLow_pair (lo hi : UInt8) (i : Nat) (hlt : i < 16) :
    (byteLow lo ++ byteLow hi).getD i false = (hi.toBitVec ++ lo.toBitVec).getLsbD i := by
  have hlen : (byteLow lo).length = 8 := by simp [byteLow]
  rw [BitVec.getLsbD_append]
  by_cases hi8 : i < 8
  · rw [if_pos hi8, List.getD_append _ _ _ _ (by omega)]
    simp [byteLow, hi8]
  · have hlt8 : i - 8 < 8 := by omega
    rw [if_neg hi8, List.getD_append_right _ _ _ _ (by omega), hlen]
    simp [byteLow, hlt8]

theorem message_byteLow_pair (lo hi : UInt8) :
    message (byteLow lo ++ byteLow hi) = ofBits 16 (hi.toBitVec ++ lo.toBitVec).getMsbD := by
  have hlen : (byteLow lo ++ byteLow hi).length = 16 := by simp [byteLow]
  rw [message_eq_ofBits, hlen]
  refine ofBits_congr fun i hi16 => ?_
  rw [getD_byteLow_pair _ _ _ (by omega), BitVec.getMsbD, decide_eq_true hi16, Bool.true_and]

/-- The two bytes of a check, the lower one first. -/
theorem wire_eq_iff (c : BitVec 16) (lo hi : UInt8) :
    c = hi.toBitVec ++ lo.toBitVec ↔
      [lo, hi] = [UInt8.ofNat (c.toNat &&& 0xFF), UInt8.ofNat ((c.toNat >>> 8) &&& 0xFF)] := by
  have hlow : c.toNat &&& 0xFF = c.toNat % 256 := Nat.and_two_pow_sub_one_eq_mod _ 8
  have hhigh : (c.toNat >>> 8) &&& 0xFF = c.toNat / 256 := by
    have hlt : c.toNat / 2 ^ 8 < 2 ^ 8 := Nat.div_lt_of_lt_mul c.isLt
    rw [Nat.shiftRight_eq_div_pow]
    exact (Nat.and_two_pow_sub_one_eq_mod _ 8).trans (Nat.mod_eq_of_lt hlt)
  have hvalue : (hi.toBitVec ++ lo.toBitVec).toNat = hi.toNat * 256 + lo.toNat := by
    rw [BitVec.toNat_append, UInt8.toNat_toBitVec, UInt8.toNat_toBitVec,
      ← Nat.shiftLeft_add_eq_or_of_lt lo.toNat_lt, Nat.shiftLeft_eq]
  have hlo := lo.toNat_lt
  have hlt := c.isLt
  rw [hlow, hhigh, List.cons.injEq, List.cons.injEq, ← BitVec.toNat_inj, hvalue,
    ← UInt8.toNat_inj, ← UInt8.toNat_inj, UInt8.toNat_ofNat', UInt8.toNat_ofNat', eq_self,
    and_true]
  omega

/-- The residue of a frame tells whether its last two bytes are the check of the others. -/
theorem residue_iff (body tail : List UInt8) (htail : tail.length = 2) :
    crc16Modbus (body ++ tail) = 0 ↔ tail = crc16ModbusBytes body := by
  obtain ⟨lo, hi, rfl⟩ := List.length_eq_two.mp htail
  have hrun : (((body ++ [lo, hi]).flatMap byteLow).foldl (stepRight 0xA001#16) 0xFFFF#16) =
      modbusDivider.run ((body.flatMap byteLow).foldl (stepRight 0xA001#16) 0xFFFF#16)
        (byteLow lo ++ byteLow hi) := by
    rw [List.flatMap_append, List.foldl_append]
    rfl
  have hlen : (byteLow lo ++ byteLow hi).length = 16 := by simp [byteLow]
  have hzero : modbusDivider.value 0#16 = 0 := by
    change ofBits 16 (0#16).getMsbD = 0
    simp [ofBits, bit]
  have hvalue : ∀ c : BitVec 16, modbusDivider.value c = ofBits 16 c.getMsbD := fun _ => rfl
  rw [crc16ModbusBytes, crc16Modbus_eq, crc16Modbus_eq, hrun, ← wire_eq_iff]
  generalize (body.flatMap byteLow).foldl (stepRight 0xA001#16) 0xFFFF#16 = c
  have hnothing := modbusDivider.value_run_eq_zero_iff c hlen
  rw [← hzero, modbusDivider.injective.eq_iff, message_byteLow_pair, ← hvalue,
    modbusDivider.injective.eq_iff] at hnothing
  rw [← BitVec.toNat_inj] at hnothing
  exact hnothing.trans eq_comm

/-- A frame's check is zero exactly where its last two bytes are the check of what is before
them; with any other two bytes the receiver sees an error. -/
theorem frame_checks_iff (body tail : List UInt8) (htail : tail.length = 2) :
    crc16Modbus (body ++ tail) = 0 ↔ tail = crc16ModbusBytes body :=
  residue_iff body tail htail

theorem frame_checks_iff_read : crc16Modbus ([0x01, 0x03] ++ crc16ModbusBytes [0x01, 0x03]) = 0 :=
  (frame_checks_iff [0x01, 0x03] _ rfl).mpr rfl

/-- The table of the library and the bit loop of the simulator compute one check. -/
theorem table_agrees_with_fallback (s : List UInt8) : crc16Modbus s = crc16Fallback s :=
  (crc16Modbus_eq s).trans (crc16Fallback_eq s).symm

end Xcom.Protocol
