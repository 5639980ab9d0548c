import Mathlib.Data.Nat.Bitwise

/-!
# UTF-16 and UTF-8

The code units of a character, and the characters of a sequence of code units.  A
surrogate without its partner is read as U+FFFD.  The UTF-8 bytes of a text determine
its characters one by one.
-/

namespace Utf16

/-- The code units of a character. -/
def units (c : Char) : List UInt16 :=
  if c.toNat < 0x10000 then [UInt16.ofNat c.toNat]
  else [UInt16.ofNat (0xD800 + (c.toNat - 0x10000) / 0x400),
    UInt16.ofNat (0xDC00 + (c.toNat - 0x10000) % 0x400)]

def isHigh (u : UInt16) : Bool := 0xD800 ≤ u.toNat ∧ u.toNat < 0xDC00

def isLow (u : UInt16) : Bool := 0xDC00 ≤ u.toNat ∧ u.toNat < 0xE000

/-- The replacement character. -/
def replacement : Char := Char.ofNat 0xFFFD

/-- The character of a unit that is no half of a pair. -/
def single (u : UInt16) : Char :=
  if isHigh u ∨ isLow u then replacement else Char.ofNat u.toNat

/-- The character of a surrogate pair. -/
def pair (u l : UInt16) : Char :=
  Char.ofNat (0x10000 + (u.toNat - 0xD800) * 0x400 + (l.toNat - 0xDC00))

/-- The characters of a sequence of code units. -/
def decode : List UInt16 → List Char
  | [] => []
  | [u] => [single u]
  | u :: l :: rest =>
    if isHigh u ∧ isLow l then pair u l :: decode rest else single u :: decode (l :: rest)

theorem toNat_lt (c : Char) : c.toNat < 0xD800 ∨ 0xDFFF < c.toNat ∧ c.toNat < 0x110000 := c.valid

theorem toNat_ofNat {n : Nat} (h : n < 0xD800 ∨ 0xDFFF < n ∧ n < 0x110000) :
    (Char.ofNat n).toNat = n := by
  have hn : n.isValidChar := h
  unfold Char.ofNat
  rw [dif_pos hn]
  rfl

theorem units_replacement : units replacement = [0xFFFD] := by
  rfl

theorem units_single {u : UInt16} (hu : ¬ (isHigh u = true ∨ isLow u = true)) :
    units (single u) = [u] := by
  have hlt := u.toNat_lt
  have hval : (Char.ofNat u.toNat).toNat = u.toNat := by
    apply toNat_ofNat
    simp only [isHigh, isLow, decide_eq_true_eq] at hu
    omega
  rw [single, if_neg hu, units, hval, if_pos hlt, UInt16.ofNat_toNat]

theorem units_pair {u l : UInt16} (hu : isHigh u = true) (hl : isLow l = true) :
    units (pair u l) = [u, l] := by
  simp only [isHigh, isLow, decide_eq_true_eq] at hu hl
  have hval : (pair u l).toNat =
      0x10000 + (u.toNat - 0xD800) * 0x400 + (l.toNat - 0xDC00) := by
    apply toNat_ofNat
    omega
  have hhigh : 0xD800 + ((pair u l).toNat - 0x10000) / 0x400 = u.toNat := by omega
  have hlow : 0xDC00 + ((pair u l).toNat - 0x10000) % 0x400 = l.toNat := by omega
  rw [units, if_neg (by omega), hhigh, hlow, UInt16.ofNat_toNat, UInt16.ofNat_toNat]

/-- The units of a character are a unit that stands alone, or a pair. -/
theorem units_cases (c : Char) :
    (∃ u, units c = [u] ∧ ¬ (isHigh u = true ∨ isLow u = true) ∧ single u = c) ∨
      ∃ u l, units c = [u, l] ∧ isHigh u = true ∧ isLow l = true ∧ pair u l = c := by
  have hc := toNat_lt c
  by_cases hbmp : c.toNat < 0x10000
  · left
    have hval : (UInt16.ofNat c.toNat).toNat = c.toNat := by
      rw [UInt16.toNat_ofNat']
      omega
    have halone : ¬ (isHigh (UInt16.ofNat c.toNat) = true ∨
        isLow (UInt16.ofNat c.toNat) = true) := by
      simp only [isHigh, isLow, hval, decide_eq_true_eq]
      omega
    refine ⟨UInt16.ofNat c.toNat, by rw [units, if_pos hbmp], halone, ?_⟩
    rw [single, if_neg halone, hval, Char.ofNat_toNat]
  · right
    have hhigh : (UInt16.ofNat (0xD800 + (c.toNat - 0x10000) / 0x400)).toNat =
        0xD800 + (c.toNat - 0x10000) / 0x400 := by
      rw [UInt16.toNat_ofNat']
      omega
    have hlow : (UInt16.ofNat (0xDC00 + (c.toNat - 0x10000) % 0x400)).toNat =
        0xDC00 + (c.toNat - 0x10000) % 0x400 := by
      rw [UInt16.toNat_ofNat']
      omega
    refine ⟨_, _, by rw [units, if_neg hbmp], ?_, ?_, ?_⟩
    · rw [isHigh, hhigh, decide_eq_true_eq]
      omega
    · rw [isLow, hlow, decide_eq_true_eq]
      omega
    · have hsum : 0x10000 + (0xD800 + (c.toNat - 0x10000) / 0x400 - 0xD800) * 0x400 +
          (0xDC00 + (c.toNat - 0x10000) % 0x400 - 0xDC00) = c.toNat := by
        omega
      rw [pair, hhigh, hlow, hsum, Char.ofNat_toNat]

theorem decode_cons_cons (u l : UInt16) (rest : List UInt16) : decode (u :: l :: rest) =
    if isHigh u ∧ isLow l then pair u l :: decode rest else single u :: decode (l :: rest) := rfl

theorem decode_single {u : UInt16} (hu : isHigh u = false) (rest : List UInt16) :
    decode (u :: rest) = single u :: decode rest := by
  cases rest with
  | nil => rfl
  | cons l rest => simp [decode_cons_cons, hu]

theorem decode_units_append (c : Char) (rest : List UInt16) :
    decode (units c ++ rest) = c :: decode rest := by
  rcases units_cases c with ⟨u, hu, halone, hc⟩ | ⟨u, l, hu, hhigh, hlow, hc⟩
  · have hhigh : isHigh u = false := by
      simpa using fun h => halone (.inl h)
    rw [hu, List.singleton_append, decode_single hhigh, hc]
  · simp [hu, decode_cons_cons, hhigh, hlow, hc]

/-- The units of a text are read as the text. -/
theorem decode_units (t : List Char) : decode (t.flatMap units) = t := by
  induction t with
  | nil => rfl
  | cons c t ih => rw [List.flatMap_cons, decode_units_append, ih]

theorem units_ne_nil (c : Char) : units c ≠ [] := by
  unfold units
  split <;> simp

/-- A property of units that the replacement character has, and every unit read, is one
of all the units of the text read. -/
theorem mem_units_decode {p : UInt16 → Prop} (hrep : p 0xFFFD) {us : List UInt16}
    (hus : ∀ u ∈ us, p u) : ∀ c ∈ decode us, ∀ u ∈ units c, p u := by
  have hsingle : ∀ u, p u → ∀ v ∈ units (single u), p v := by
    intro u hu v hv
    by_cases hsur : isHigh u = true ∨ isLow u = true
    · rw [single, if_pos hsur, units_replacement, List.mem_singleton] at hv
      exact hv ▸ hrep
    · rw [units_single hsur, List.mem_singleton] at hv
      exact hv ▸ hu
  induction us using decode.induct with
  | case1 =>
    intro c hc
    cases hc
  | case2 u =>
    intro c hc
    obtain rfl := List.mem_singleton.mp hc
    exact hsingle u (hus u List.mem_cons_self)
  | case3 u l rest hpair ih =>
    rw [decode_cons_cons, if_pos hpair]
    intro c hc
    rcases List.mem_cons.mp hc with hc | hc
    · rw [hc, units_pair hpair.1 hpair.2]
      intro v hv
      have hpre : v = u ∨ v = l := by simpa using hv
      apply hus v
      rcases hpre with rfl | rfl <;> simp
    · exact ih (fun v hv => hus v (by simp [hv])) c hc
  | case4 u l rest hpair ih =>
    rw [decode_cons_cons, if_neg hpair]
    intro c hc
    rcases List.mem_cons.mp hc with hc | hc
    · exact hc ▸ hsingle u (hus u List.mem_cons_self)
    · exact ih (fun v hv => hus v (List.mem_cons_of_mem u hv)) c hc

/-- The unit of two bytes, low byte first. -/
def unitOf (a b : UInt8) : UInt16 := UInt16.ofNat (a.toNat + b.toNat * 256)

/-- The bytes of a unit, low byte first. -/
def unitBytes (u : UInt16) : List UInt8 :=
  [UInt8.ofNat (u.toNat % 256), UInt8.ofNat (u.toNat / 256)]

/-- The units of a sequence of bytes; an odd byte at the end is left out. -/
def leUnits : List UInt8 → List UInt16
  | a :: b :: rest => unitOf a b :: leUnits rest
  | _ => []

/-- The bytes of a text, low byte of each unit first. -/
def leBytes (t : List Char) : List UInt8 := (t.flatMap units).flatMap unitBytes

theorem unitOf_unitBytes (u : UInt16) :
    unitOf (UInt8.ofNat (u.toNat % 256)) (UInt8.ofNat (u.toNat / 256)) = u := by
  have hlt := u.toNat_lt
  have hlow : (UInt8.ofNat (u.toNat % 256)).toNat = u.toNat % 256 := by
    rw [UInt8.toNat_ofNat']
    omega
  have hhigh : (UInt8.ofNat (u.toNat / 256)).toNat = u.toNat / 256 := by
    rw [UInt8.toNat_ofNat']
    omega
  rw [unitOf, hlow, hhigh, Nat.mod_add_div', UInt16.ofNat_toNat]

theorem unitBytes_unitOf (a b : UInt8) : unitBytes (unitOf a b) = [a, b] := by
  have ha := a.toNat_lt
  have hb := b.toNat_lt
  have hval : (unitOf a b).toNat = a.toNat + b.toNat * 256 := by
    rw [unitOf, UInt16.toNat_ofNat']
    omega
  have hlow : (a.toNat + b.toNat * 256) % 256 = a.toNat := by omega
  have hhigh : (a.toNat + b.toNat * 256) / 256 = b.toNat := by omega
  rw [unitBytes, hval, hlow, hhigh, UInt8.ofNat_toNat, UInt8.ofNat_toNat]

theorem leUnits_flatMap (us : List UInt16) : leUnits (us.flatMap unitBytes) = us := by
  induction us with
  | nil => rfl
  | cons u us ih =>
    rw [List.flatMap_cons]
    simp only [unitBytes, List.cons_append, List.nil_append, leUnits]
    rw [unitOf_unitBytes]
    exact congrArg (u :: ·) ih

theorem leUnits_leBytes (t : List Char) : leUnits (leBytes t) = t.flatMap units :=
  leUnits_flatMap (t.flatMap units)

/-- Every byte of a unit read is a byte of the sequence. -/
theorem mem_unitBytes_leUnits {bs : List UInt8} {u : UInt16} (hu : u ∈ leUnits bs) :
    ∀ b ∈ unitBytes u, b ∈ bs := by
  induction bs using leUnits.induct with
  | case1 a c rest ih =>
    intro b hb
    rcases List.mem_cons.mp hu with hu | hu
    · rw [hu, unitBytes_unitOf] at hb
      have hpre : b = a ∨ b = c := by simpa using hb
      rcases hpre with rfl | rfl <;> simp
    · have hrest := ih hu b hb
      simp [hrest]
  | case2 bs hshort =>
    unfold leUnits at hu
    split at hu
    · exact absurd rfl (hshort _ _ _)
    · cases hu

end Utf16

namespace Utf8

/-- The bytes of a text. -/
def encode (t : List Char) : List UInt8 := t.flatMap String.utf8EncodeChar

@[simp] theorem encode_nil : encode [] = [] := rfl

@[simp] theorem encode_append (s t : List Char) : encode (s ++ t) = encode s ++ encode t :=
  List.flatMap_append

theorem encode_cons (c : Char) (t : List Char) :
    encode (c :: t) = String.utf8EncodeChar c ++ encode t := List.flatMap_cons

/-- No character's bytes begin another's. -/
theorem encodeChar_append_inj {c d : Char} {x y : List UInt8}
    (h : String.utf8EncodeChar c ++ x = String.utf8EncodeChar d ++ y) : c = d := by
  have hc := ByteArray.utf8DecodeChar?_utf8EncodeChar_append (b := x.toByteArray) (c := c)
  rw [← List.toByteArray_append, h, List.toByteArray_append,
    ByteArray.utf8DecodeChar?_utf8EncodeChar_append] at hc
  exact (Option.some.inj hc).symm

theorem encodeChar_ne_nil (c : Char) : String.utf8EncodeChar c ≠ [] := by
  intro h
  have hlen := String.length_utf8EncodeChar c
  have hpos := c.utf8Size_pos
  rw [h, List.length_nil] at hlen
  omega

/-- The first characters of two texts agree when their bytes do. -/
theorem encode_cons_append_inj {c d : Char} {s t : List Char} {x y : List UInt8}
    (h : encode (c :: s) ++ x = encode (d :: t) ++ y) : c = d := by
  rw [encode_cons, encode_cons, List.append_assoc, List.append_assoc] at h
  exact encodeChar_append_inj h

/-- The bytes of a text are those of no other. -/
theorem encode_injective : Function.Injective encode := by
  intro s
  induction s with
  | nil =>
    intro t h
    cases t with
    | nil => rfl
    | cons d t =>
      rw [encode_nil, encode_cons] at h
      exact absurd (List.append_eq_nil_iff.mp h.symm).1 (encodeChar_ne_nil d)
  | cons c s ih =>
    intro t h
    cases t with
    | nil =>
      rw [encode_nil, encode_cons] at h
      exact absurd (List.append_eq_nil_iff.mp h).1 (encodeChar_ne_nil c)
    | cons d t =>
      rw [encode_cons, encode_cons] at h
      obtain rfl := encodeChar_append_inj h
      rw [ih (List.append_cancel_left h)]

/-! ## The bytes of one character -/

/-- A byte that goes on with a character. -/
def isTail (b : UInt8) : Bool := 0x80 ≤ b && b < 0xC0

/-- How many bytes the character has that a byte begins. -/
def leadLength (lead : UInt8) : Nat :=
  if 0xF0 ≤ lead then 4 else if 0xE0 ≤ lead then 3 else if 0xC0 ≤ lead then 2 else 1

theorem isTail_iff (b : UInt8) : isTail b = true ↔ 128 ≤ b.toNat ∧ b.toNat < 192 := by
  rw [isTail, Bool.and_eq_true, decide_eq_true_eq, decide_eq_true_eq, UInt8.le_iff_toNat_le,
    UInt8.lt_iff_toNat_lt]
  rfl

theorem leadLength_eq (lead : UInt8) : leadLength lead =
    if 240 ≤ lead.toNat then 4 else if 224 ≤ lead.toNat then 3
    else if 192 ≤ lead.toNat then 2 else 1 := by
  simp only [leadLength, UInt8.le_iff_toNat_le]
  rfl

/-- The low bits of a byte under marks above them. -/
theorem toNat_marked {mask mark : UInt8} {i a : Nat} (hmask : mask.toNat = 2 ^ i - 1)
    (hmark : mark.toNat = 2 ^ i * a) (b : UInt8) :
    (b &&& mask ||| mark).toNat = 2 ^ i * a + b.toNat % 2 ^ i := by
  rw [UInt8.toNat_or, UInt8.toNat_and, hmask, hmark, Nat.and_two_pow_sub_one_eq_mod, Nat.or_comm,
    Nat.two_pow_add_eq_or_of_lt (Nat.mod_lt _ (Nat.two_pow_pos i))]

theorem lead_one {b : UInt8} (h : b ≤ 127) : isTail b = false ∧ leadLength b = 1 := by
  have hle : b.toNat ≤ 127 := UInt8.le_iff_toNat_le.mp h
  rw [leadLength_eq, Bool.eq_false_iff, Ne, isTail_iff]
  split_ifs <;> omega

theorem lead_two (b : UInt8) : isTail (b &&& 0x1f ||| 0xc0) = false ∧
    leadLength (b &&& 0x1f ||| 0xc0) = 2 := by
  have hnat : (b &&& 0x1f ||| 0xc0).toNat = 2 ^ 5 * 6 + b.toNat % 2 ^ 5 := toNat_marked rfl rfl b
  rw [leadLength_eq, Bool.eq_false_iff, Ne, isTail_iff]
  split_ifs <;> omega

theorem lead_three (b : UInt8) : isTail (b &&& 0x0f ||| 0xe0) = false ∧
    leadLength (b &&& 0x0f ||| 0xe0) = 3 := by
  have hnat : (b &&& 0x0f ||| 0xe0).toNat = 2 ^ 4 * 14 + b.toNat % 2 ^ 4 := toNat_marked rfl rfl b
  rw [leadLength_eq, Bool.eq_false_iff, Ne, isTail_iff]
  split_ifs <;> omega

theorem lead_four (b : UInt8) : isTail (b &&& 0x07 ||| 0xf0) = false ∧
    leadLength (b &&& 0x07 ||| 0xf0) = 4 := by
  have hnat : (b &&& 0x07 ||| 0xf0).toNat = 2 ^ 3 * 30 + b.toNat % 2 ^ 3 := toNat_marked rfl rfl b
  rw [leadLength_eq, Bool.eq_false_iff, Ne, isTail_iff]
  split_ifs <;> omega

theorem isTail_tail (b : UInt8) : isTail (b &&& 0x3f ||| 0x80) = true := by
  have hnat : (b &&& 0x3f ||| 0x80).toNat = 2 ^ 6 * 2 + b.toNat % 2 ^ 6 := toNat_marked rfl rfl b
  rw [isTail_iff]
  omega

/-- A character is a byte that is no tail, and the tails that byte tells of. -/
theorem encodeChar_shape (c : Char) : ∃ lead tails, String.utf8EncodeChar c = lead :: tails ∧
    isTail lead = false ∧ tails.length + 1 = leadLength lead ∧ ∀ b ∈ tails, isTail b = true := by
  rcases c.utf8Size_eq with h | h | h | h
  · have hlead : c.val.toUInt8 ≤ 127 := by
      have hval := UInt32.le_iff_toNat_le.mp (Char.utf8Size_eq_one_iff.mp h)
      rw [UInt8.le_iff_toNat_le, UInt32.toNat_toUInt8]
      exact Nat.le_trans (Nat.mod_le _ _) hval
    obtain ⟨htail, hlen⟩ := lead_one hlead
    exact ⟨_, _, String.utf8EncodeChar_eq_singleton h, htail, hlen.symm, by simp⟩
  · obtain ⟨htail, hlen⟩ := lead_two (c.val >>> 6).toUInt8
    exact ⟨_, _, String.utf8EncodeChar_eq_cons_cons h, htail, hlen.symm, by simp [isTail_tail]⟩
  · obtain ⟨htail, hlen⟩ := lead_three (c.val >>> 12).toUInt8
    exact ⟨_, _, String.utf8EncodeChar_eq_cons_cons_cons h, htail, hlen.symm,
      by simp [isTail_tail]⟩
  · obtain ⟨htail, hlen⟩ := lead_four (c.val >>> 18).toUInt8
    exact ⟨_, _, String.utf8EncodeChar_eq_cons_cons_cons_cons h, htail, hlen.symm,
      by simp [isTail_tail]⟩

/-- A place between two characters of a text, or one of its ends. -/
def IsBoundary (t : List Char) (n : Nat) : Prop := ∃ u, u <+: t ∧ (encode u).length = n

/-- Each byte of a text stands within one of its characters. -/
theorem locate {t : List Char} {i : Nat} (hi : i < (encode t).length) :
    ∃ u c v, t = u ++ c :: v ∧ (encode u).length ≤ i ∧
      i < (encode u).length + (String.utf8EncodeChar c).length := by
  induction t generalizing i with
  | nil => exact absurd hi (Nat.not_lt_zero i)
  | cons d t ih =>
    rw [encode_cons, List.length_append] at hi
    by_cases hd : i < (String.utf8EncodeChar d).length
    · exact ⟨[], d, t, rfl, Nat.zero_le i, by simpa using hd⟩
    · have hlt : i - (String.utf8EncodeChar d).length < (encode t).length := by omega
      obtain ⟨u, c, v, rfl, hfrom, hto⟩ := ih hlt
      refine ⟨d :: u, c, v, rfl, ?_, ?_⟩
      · rw [encode_cons, List.length_append]
        omega
      · rw [encode_cons, List.length_append]
        omega

end Utf8
