import Xcom.Checksum.Division

/-!
# Shift registers

The two registers of a cyclic redundancy check, one shifted towards its highest bit and one
towards its lowest, and a table of what eight steps do.
-/

namespace Checksum

open Polynomial

variable {w : Nat}

/-- A word where a bit is set. -/
def gate (x : BitVec w) (b : Bool) : BitVec w := if b then x else 0#w

/-- A step of the register that is shifted left; the message comes in at the top. -/
def stepLeft (poly c : BitVec w) (b : Bool) : BitVec w := (c <<< 1) ^^^ gate poly (c.msb ^^ b)

/-- A step of the register that is shifted right; the message comes in at the bottom. -/
def stepRight (poly c : BitVec w) (b : Bool) : BitVec w :=
  (c >>> 1) ^^^ gate poly (c.getLsbD 0 ^^ b)

/-- The polynomial with given coefficients below `w`. -/
noncomputable def ofBits (w : Nat) (f : Nat → Bool) : (ZMod 2)[X] :=
  ∑ i ∈ Finset.range w, C (bit (f i)) * X ^ i

theorem coeff_ofBits (f : Nat → Bool) (n : Nat) :
    (ofBits w f).coeff n = if n < w then bit (f n) else 0 := by
  simp only [ofBits, finsetSum_coeff, coeff_C_mul_X_pow, Finset.sum_ite_eq, Finset.mem_range]

theorem degree_ofBits (f : Nat → Bool) : (ofBits w f).degree < w := by
  rw [degree_lt_iff_coeff_zero]
  intro n hn
  rw [coeff_ofBits, if_neg (by omega)]

theorem message_eq_ofBits (m : List Bool) :
    message m = ofBits m.length fun i => m.getD (m.length - 1 - i) false := by
  induction m with
  | nil => simp [ofBits]
  | cons b m ih =>
    have hlower : ∀ i ∈ Finset.range m.length,
        C (bit ((b :: m).getD ((b :: m).length - 1 - i) false)) * (X ^ i : (ZMod 2)[X]) =
          C (bit (m.getD (m.length - 1 - i) false)) * X ^ i := by
      intro i hi
      have hlt := Finset.mem_range.mp hi
      have hindex : (b :: m).length - 1 - i = (m.length - 1 - i) + 1 := by
        rw [List.length_cons]
        omega
      rw [hindex, List.getD_cons_succ]
    have htop : (b :: m).length - 1 - m.length = 0 := by
      rw [List.length_cons]
      omega
    rw [message_cons, ih, ofBits, ofBits, List.length_cons, Finset.sum_range_succ,
      ← List.length_cons, Finset.sum_congr rfl hlower, htop, List.getD_cons_zero, add_comm]

/-- The generator of a register that holds its lower coefficients. -/
noncomputable def generator (w : Nat) (f : Nat → Bool) : (ZMod 2)[X] := X ^ w + ofBits w f

theorem coeff_generator (f : Nat → Bool) (n : Nat) :
    (generator w f).coeff n = if n < w then bit (f n) else if n = w then 1 else 0 := by
  rw [generator, coeff_add, coeff_X_pow, coeff_ofBits]
  split_ifs <;> first | omega | simp

theorem monic_generator (f : Nat → Bool) : (generator w f).Monic :=
  monic_X_pow_add (degree_ofBits f)

theorem degree_generator (f : Nat → Bool) : (generator w f).degree = w := by
  have hlt : (ofBits w f).degree < (X ^ w : (ZMod 2)[X]).degree := by
    rw [degree_X_pow]
    exact degree_ofBits f
  rw [generator, degree_add_eq_left_of_degree_lt hlt, degree_X_pow]

/-- One step of division: what leaves the register at the top is the bit of the quotient. -/
theorem divides_of_shift {s s' f : Nat → Bool} {q b : Bool} (hw : 0 < w)
    (hfirst : s' 0 = (q && f 0))
    (hnext : ∀ i, i + 1 < w → s' (i + 1) = (s i ^^ (q && f (i + 1))))
    (hlast : q = (s (w - 1) ^^ b)) :
    ofBits w s' + C (bit q) * generator w f = X * ofBits w s + C (bit b) * X ^ w := by
  have hand : ∀ a : Bool, bit (q && a) = bit q * bit a := by
    cases q <;> intro a <;> cases a <;> decide
  ext n
  rw [coeff_add, coeff_add, coeff_C_mul, coeff_C_mul, coeff_X_pow, coeff_ofBits, coeff_generator]
  rcases n with _ | i
  · rw [if_pos hw, if_pos hw, if_neg (by omega), hfirst, hand, coeff_X_mul_zero, mul_zero,
      CharTwo.add_self_eq_zero, add_zero]
  · rw [coeff_X_mul, coeff_ofBits]
    rcases Nat.lt_trichotomy (i + 1) w with hlt | heq | hgt
    · rw [if_pos hlt, if_pos hlt, if_pos (by omega), if_neg (by omega), hnext i hlt, bit_xor, hand,
        add_assoc, CharTwo.add_self_eq_zero, mul_zero]
    · have hi : w - 1 = i := by omega
      rw [if_neg (by omega), if_neg (by omega), if_pos heq, if_pos (by omega), hlast, bit_xor, hi,
        zero_add, mul_one, mul_one]
    · rw [if_neg (by omega), if_neg (by omega), if_neg (by omega), if_neg (by omega), mul_zero,
        mul_zero]

theorem coprime_generator {f : Nat → Bool} (hw : 0 < w) (hf : f 0 = true) :
    (generator w f).coeff 0 ≠ 0 := by
  rw [coeff_generator, if_pos hw, hf]
  decide

theorem ofBits_injective {s s' : Nat → Bool} (h : ofBits w s = ofBits w s') (i : Nat)
    (hi : i < w) : s i = s' i := by
  have hcoeff := congrArg (fun p => coeff p i) h
  simp only [coeff_ofBits, if_pos hi] at hcoeff
  exact bit_inj hcoeff

/-- The register that is shifted left. -/
noncomputable def left (poly : BitVec w) (hw : 0 < w) (hpoly : poly.getLsbD 0 = true) :
    Divider (BitVec w) w where
  step := stepLeft poly
  value c := ofBits w c.getLsbD
  generator := generator w poly.getLsbD
  monic := monic_generator _
  degree_generator := degree_generator _
  coprime := coprime_generator hw hpoly
  degree_value _ := degree_ofBits _
  injective c c' h := BitVec.eq_of_getLsbD_eq (ofBits_injective h)
  divides c b := by
    refine ⟨C (bit (c.msb ^^ b)), divides_of_shift hw ?_ ?_ ?_⟩
    · cases hq : c.msb ^^ b <;> simp [stepLeft, gate, hq]
    · intro i hi
      have hbit := BitVec.getLsbD_eq_getElem (x := c) (Nat.lt_of_succ_lt hi)
      cases hq : c.msb ^^ b <;> simp [stepLeft, gate, hq, hi, hbit]
    · rw [BitVec.msb_eq_getLsbD_last]

/-- The register that is shifted right, whose highest bit is the lowest coefficient. -/
noncomputable def right (poly : BitVec w) (hw : 0 < w) (hpoly : poly.getMsbD 0 = true) :
    Divider (BitVec w) w where
  step := stepRight poly
  value c := ofBits w c.getMsbD
  generator := generator w poly.getMsbD
  monic := monic_generator _
  degree_generator := degree_generator _
  coprime := coprime_generator hw hpoly
  degree_value _ := degree_ofBits _
  injective c c' h := BitVec.eq_of_getMsbD_eq (ofBits_injective h)
  divides c b := by
    refine ⟨C (bit (c.getLsbD 0 ^^ b)), divides_of_shift hw ?_ ?_ ?_⟩
    · cases hq : c.getLsbD 0 ^^ b <;> simp [stepRight, gate, hq]
    · intro i hi
      cases hq : c.getLsbD 0 ^^ b <;> simp [stepRight, gate, hq, hi]
    · rw [BitVec.getMsbD]
      simp [hw]

/-! ## Several bits at once -/

/-- A step on a zero bit. -/
def zeroLeft (poly c : BitVec w) : BitVec w := stepLeft poly c false

def zeroRight (poly c : BitVec w) : BitVec w := stepRight poly c false

/-- The bits of a message, the first one at the bottom. -/
def packLow : List Bool → BitVec w
  | [] => 0#w
  | b :: bits => gate 1#w b ^^^ (packLow bits <<< 1)

/-- The bits of a message, the first one at the top. -/
def packHigh : List Bool → BitVec w
  | [] => 0#w
  | b :: bits => gate (BitVec.twoPow w (w - 1)) b ^^^ (packHigh bits >>> 1)

/-- A register into which a bit goes by exclusive or takes several of them at once. -/
theorem foldl_packed (first : Bool → BitVec w) {step : BitVec w → Bool → BitVec w}
    {zero : BitVec w → BitVec w} {pack : List Bool → BitVec w}
    (hnil : pack [] = 0#w) (hadd : ∀ x y, zero (x ^^^ y) = zero x ^^^ zero y)
    (hstep : ∀ c b, step c b = zero (c ^^^ first b))
    (hpack : ∀ b bits, bits.length < w →
      ∃ rest, pack (b :: bits) = first b ^^^ rest ∧ zero rest = pack bits)
    (bits : List Bool) (hlen : bits.length ≤ w) (c : BitVec w) :
    bits.foldl step c = zero^[bits.length] (c ^^^ pack bits) := by
  induction bits generalizing c with
  | nil => rw [hnil, BitVec.xor_zero]; rfl
  | cons b bits ih =>
    obtain ⟨rest, hcons, hrest⟩ := hpack b bits hlen
    rw [List.foldl_cons, ih (Nat.le_of_succ_le hlen), List.length_cons, Function.iterate_succ_apply,
      hcons, ← BitVec.xor_assoc, hadd, hrest, hstep]

@[simp] theorem packLow_nil : (packLow [] : BitVec w) = 0#w := rfl

theorem packLow_cons (b : Bool) (bits : List Bool) :
    (packLow (b :: bits) : BitVec w) = gate 1#w b ^^^ (packLow bits <<< 1) := rfl

@[simp] theorem packHigh_nil : (packHigh [] : BitVec w) = 0#w := rfl

theorem packHigh_cons (b : Bool) (bits : List Bool) : (packHigh (b :: bits) : BitVec w) =
    gate (BitVec.twoPow w (w - 1)) b ^^^ (packHigh bits >>> 1) := rfl

theorem gate_xor (x : BitVec w) (a b : Bool) : gate x (a ^^ b) = gate x a ^^^ gate x b := by
  cases a <;> cases b <;> simp [gate]

theorem zeroRight_xor (poly x y : BitVec w) :
    zeroRight poly (x ^^^ y) = zeroRight poly x ^^^ zeroRight poly y := by
  simp only [zeroRight, stepRight, BitVec.ushiftRight_xor_distrib, BitVec.getLsbD_xor,
    Bool.xor_false, gate_xor]
  ac_rfl

theorem zeroLeft_xor (poly x y : BitVec w) :
    zeroLeft poly (x ^^^ y) = zeroLeft poly x ^^^ zeroLeft poly y := by
  simp only [zeroLeft, stepLeft, BitVec.shiftLeft_xor_distrib, BitVec.msb_xor, Bool.xor_false,
    gate_xor]
  ac_rfl

theorem getLsbD_packLow (bits : List Bool) (i : Nat) :
    (packLow bits : BitVec w).getLsbD i = (decide (i < w) && bits.getD i false) := by
  induction bits generalizing i with
  | nil => simp
  | cons b bits ih =>
    rw [packLow_cons, BitVec.getLsbD_xor, BitVec.getLsbD_shiftLeft, ih]
    by_cases hi : i < w
    · rcases i with _ | i
      · cases b <;> simp [gate, hi]
      · cases b <;> simp [gate, hi, Nat.lt_of_succ_lt hi]
    · cases b
      · simp [gate, hi]
      · simp [gate, hi, BitVec.getLsbD_one]
        omega

theorem getMsbD_packHigh (bits : List Bool) (i : Nat) :
    (packHigh bits : BitVec w).getMsbD i = (decide (i < w) && bits.getD i false) := by
  induction bits generalizing i with
  | nil => simp
  | cons b bits ih =>
    rw [packHigh_cons, BitVec.getMsbD_xor, BitVec.getMsbD_ushiftRight, ih]
    by_cases hi : i < w
    · have hlast : w - (w - 1) - 1 = 0 := by omega
      rcases i with _ | i
      · cases b <;> simp [gate, hi, BitVec.getMsbD_twoPow, hlast]
      · cases b <;> simp [gate, hi, Nat.lt_of_succ_lt hi, BitVec.getMsbD_twoPow, hlast]
    · cases b
      · simp [gate, hi]
      · simp [gate, hi, BitVec.getMsbD_twoPow]
        omega

theorem foldl_stepRight (hw : 0 < w) (poly c : BitVec w) (bits : List Bool)
    (hlen : bits.length ≤ w) :
    bits.foldl (stepRight poly) c = (zeroRight poly)^[bits.length] (c ^^^ packLow bits) := by
  refine foldl_packed (gate 1#w) rfl (zeroRight_xor poly) ?_ ?_ bits hlen c
  · intro c b
    have hone : 1#w >>> 1 = 0#w := by
      apply BitVec.eq_of_getLsbD_eq
      intro i hi
      simp [BitVec.getLsbD_one]
    cases b
    · simp [zeroRight, gate]
    · simp [zeroRight, stepRight, gate, BitVec.ushiftRight_xor_distrib, hone, hw]
  · intro b bits hlt
    refine ⟨packLow bits <<< 1, rfl, ?_⟩
    have hlow : (packLow bits <<< 1 : BitVec w).getLsbD 0 = false := by simp
    rw [zeroRight, stepRight, hlow]
    apply BitVec.eq_of_getLsbD_eq
    intro i hi
    by_cases hlast : i + 1 < w
    · have hnext : 1 + i < w := by omega
      simp [gate, hnext, BitVec.getLsbD_eq_getElem hi]
    · have hout : bits.length ≤ i := by omega
      simp [gate, getLsbD_packLow, hout]

theorem foldl_stepLeft (hw : 0 < w) (poly c : BitVec w) (bits : List Bool)
    (hlen : bits.length ≤ w) :
    bits.foldl (stepLeft poly) c = (zeroLeft poly)^[bits.length] (c ^^^ packHigh bits) := by
  refine foldl_packed (gate (BitVec.twoPow w (w - 1))) rfl (zeroLeft_xor poly) ?_ ?_ bits
    hlen c
  · intro c b
    have htop : BitVec.twoPow w (w - 1) <<< 1 = 0#w := by
      apply BitVec.eq_of_getMsbD_eq
      intro i hi
      have hlast : w - (w - 1) - 1 = 0 := by omega
      simp [BitVec.getMsbD_twoPow, hlast]
    have hmsb : (BitVec.twoPow w (w - 1)).msb = true := by
      simp [BitVec.msb_twoPow, hw]
    cases b
    · simp [zeroLeft, gate]
    · simp [zeroLeft, stepLeft, gate, BitVec.shiftLeft_xor_distrib, htop, hmsb]
  · intro b bits hlt
    refine ⟨packHigh bits >>> 1, rfl, ?_⟩
    have hhigh : (packHigh bits >>> 1 : BitVec w).msb = false := by
      simp [BitVec.msb_ushiftRight]
    rw [zeroLeft, stepLeft, hhigh]
    apply BitVec.eq_of_getMsbD_eq
    intro i hi
    by_cases hlast : i + 1 < w
    · simp [gate, hlast]
    · have hout : bits.length ≤ i := by omega
      simp [gate, getMsbD_packHigh, hout]

/-! ## A table for eight bits -/

/-- Bits that are not yet at the end only move. -/
theorem iterate_zeroRight (poly y : BitVec w) (n : Nat) (hy : ∀ i, i < n → y.getLsbD i = false) :
    (zeroRight poly)^[n] y = y >>> n := by
  induction n generalizing y with
  | zero => simp
  | succ n ih =>
    have hzero : zeroRight poly y = y >>> 1 := by
      simp [zeroRight, stepRight, gate, hy 0 (Nat.succ_pos n)]
    rw [Function.iterate_succ_apply, hzero, ih]
    · rw [← BitVec.shiftRight_add, Nat.add_comm]
    · intro i hi
      rw [BitVec.getLsbD_ushiftRight]
      exact hy (1 + i) (by omega)

theorem iterate_zeroRight_xor (poly x y : BitVec w) (n : Nat) :
    (zeroRight poly)^[n] (x ^^^ y) = (zeroRight poly)^[n] x ^^^ (zeroRight poly)^[n] y := by
  induction n generalizing x y with
  | zero => rfl
  | succ n ih => rw [Function.iterate_succ_apply, zeroRight_xor, ih]; rfl

/-- A word of the register, looked up by its low bits. -/
theorem iterate_zeroRight_split (poly x : BitVec w) (n : Nat) : (zeroRight poly)^[n] x =
    (x >>> n) ^^^ (zeroRight poly)^[n] ((x.setWidth n).setWidth w) := by
  have hsplit : x = ((x >>> n) <<< n) ^^^ (x.setWidth n).setWidth w := by
    apply BitVec.eq_of_getLsbD_eq
    intro i hi
    by_cases hn : i < n
    · simp [hi, hn]
    · have hi' : n + (i - n) = i := by omega
      simp [hi, hn, hi']
  have hhigh : (x >>> n) <<< n >>> n = x >>> n := by
    apply BitVec.eq_of_getLsbD_eq
    intro i hi
    by_cases hn : n + i < w
    · simp [hn]
    · simp [hn, BitVec.getLsbD_of_ge x (n + i) (by omega)]
  conv => lhs; rw [hsplit]
  rw [iterate_zeroRight_xor, iterate_zeroRight, hhigh]
  intro i hi
  simp [hi]

end Checksum
