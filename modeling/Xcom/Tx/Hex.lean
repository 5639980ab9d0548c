import Xcom.Config.Ini
import Xcom.Display.Format

/-!
# Payloads typed as hexadecimal digits

`from_hex`, `to_hex` and `build_send_payload`.  The digits of a byte are read by
`tonumber` with base 16, which takes more than two digits for a number.
-/

namespace Xcom.Tx.Hex

open Config (Bytes isSpace)
open Display (hexDigit hexPair)

/-! ## Numbers with base 16 -/

def digitValue? (c : UInt8) : Option Nat :=
  if 0x30 ≤ c ∧ c ≤ 0x39 then some (c.toNat - 0x30)
  else if 0x41 ≤ c ∧ c ≤ 0x46 then some (c.toNat - 0x37)
  else if 0x61 ≤ c ∧ c ≤ 0x66 then some (c.toNat - 0x57)
  else none

def isHexDigit (c : UInt8) : Bool := (digitValue? c).isSome

/-- The number that digits denote. -/
def digitsValue (digits : Bytes) : Nat :=
  digits.foldl (fun n c => 16 * n + (digitValue? c).getD 0) 0

/-- `strtoul` with base 16, from its digits on: the number and what is behind it.  The
numbers read here have two digits at most. -/
def strtoul16 (p : Bytes) : Option (Nat × Bytes) :=
  let body :=
    match p with
    | 0x30 :: x :: d :: rest =>
      if (x = 0x78 ∨ x = 0x58) ∧ isHexDigit d = true then d :: rest else p
    | _ => p
  let digits := body.takeWhile isHexDigit
  if digits = [] then none else some (digitsValue digits, body.dropWhile isHexDigit)

/-- `tonumber(s, 16)`: blanks, a sign and `strtoul` over the C string of `s`. -/
def tonumber16 (s : Bytes) : Option Int :=
  let p := (s.takeWhile (· ≠ 0)).dropWhile isSpace
  let neg := p.head? = some 0x2D
  let digits := if p.head? = some 0x2D ∨ p.head? = some 0x2B then p.tail else p
  match strtoul16 digits with
  | none => none
  | some (ul, ep) =>
    if ep.dropWhile isSpace = [] then some (if neg then -(ul : Int) else ul) else none

/-- What the Lua runtime raises here. -/
inductive LuaError
  /-- `bad argument #1 to 'char'`. -/
  | charRange (value : Int)
  deriving DecidableEq, Repr

/-- `string.char` of one number. -/
def stringChar (n : Int) : Except LuaError UInt8 :=
  if 0 ≤ n ∧ n ≤ 255 then .ok (UInt8.ofNat n.toNat) else .error (.charRange n)

/-! ## Encoding -/

/-- `text:gsub("%s+", "")`. -/
def clean (text : Bytes) : Bytes := text.filter fun c => !isSpace c

/-- The loop of `from_hex` over the slices of two bytes. -/
def hexBytes : Bytes → Except LuaError (Option Bytes)
  | a :: b :: rest =>
    match tonumber16 [a, b] with
    | none => .ok none
    | some byte =>
      match stringChar byte with
      | .error e => .error e
      | .ok part => (hexBytes rest).map fun parts => parts.map (part :: ·)
  | _ => .ok (some [])

/-- `from_hex`. -/
def fromHex (text : Option Bytes) : Except LuaError (Option Bytes) :=
  let cleaned := clean (text.getD [])
  if cleaned = [] then .ok (some [])
  else if cleaned.length % 2 ≠ 0 then .ok none
  else hexBytes cleaned

/-- `to_hex`. -/
def toHex (data : Bytes) : Bytes := data.flatMap fun b => hexPair b ++ [0x20]

def appendCrlf (data : Bytes) : Bytes := data ++ [0x0D, 0x0A]

/-- `build_send_payload`: the payload and the error. -/
def buildSendPayload (text : Option Bytes) (useHex addCrlf : Bool) :
    Except LuaError (Option Bytes × Option String) :=
  let ended := fun data => if addCrlf then appendCrlf data else data
  if useHex then
    let cleaned := clean (text.getD [])
    if cleaned = [] then .ok (some [], none)
    else (fromHex (some cleaned)).map fun data =>
      match data with
      | none => (none, some "invalid hex")
      | some data => (some (ended data), none)
  else .ok (some (ended (text.getD [])), none)

/-! ## Pairs -/

/-- A sign and a digit, or a digit that the end of the C string follows: pairs that are
no two digits and are read as a number. -/
def misread (a b : UInt8) : Bool :=
  (a == 0x2B || a == 0x2D) && isHexDigit b || isHexDigit a && b == 0

/-- A pair that is read as a negative number. -/
def negative (a b : UInt8) : Bool := a == 0x2D && isHexDigit b && b != 0x30

/-- The value of a digit. -/
def digitValue (c : UInt8) : Nat := (digitValue? c).getD 0

theorem digitValue_lt (c : UInt8) : digitValue c < 16 := by
  unfold digitValue digitValue?
  split_ifs with hdigit hupper hlower
  · have hle := UInt8.le_iff_toNat_le.mp hdigit.2
    show c.toNat - 0x30 < 16
    change c.toNat ≤ 0x39 at hle
    omega
  · have hle := UInt8.le_iff_toNat_le.mp hupper.2
    show c.toNat - 0x37 < 16
    change c.toNat ≤ 0x46 at hle
    omega
  · have hle := UInt8.le_iff_toNat_le.mp hlower.2
    show c.toNat - 0x57 < 16
    change c.toNat ≤ 0x66 at hle
    omega
  · exact Nat.zero_lt_succ _

theorem digitValue_pos {c : UInt8} (h : isHexDigit c = true) (hzero : c ≠ 0x30) :
    0 < digitValue c := by
  obtain ⟨n, hn⟩ := Option.isSome_iff_exists.mp h
  have hvalue : digitValue c = n := by rw [digitValue, hn, Option.getD_some]
  rw [hvalue]
  unfold digitValue? at hn
  simp only [UInt8.le_iff_toNat_le, ne_eq, ← UInt8.toNat_inj, UInt8.reduceToNat] at hn hzero
  split_ifs at hn with hdigit hupper hlower
  all_goals
    obtain rfl := Option.some.inj hn
    omega

/-- A digit is no NUL, no blank and no sign. -/
theorem digit_plain {c : UInt8} (h : isHexDigit c = true) :
    c ≠ 0 ∧ isSpace c = false ∧ c ≠ 0x2D ∧ c ≠ 0x2B := by
  have hne : ∀ d : UInt8, isHexDigit d = false → c ≠ d := by
    rintro d hd rfl
    exact Bool.false_ne_true (hd.symm.trans h)
  refine ⟨hne 0 rfl, ?_, hne 0x2D rfl, hne 0x2B rfl⟩
  by_contra hspace
  rw [Bool.not_eq_false, isSpace, decide_eq_true_eq] at hspace
  unfold isHexDigit digitValue? at h
  simp only [UInt8.le_iff_toNat_le, ← UInt8.toNat_inj, UInt8.reduceToNat] at hspace h
  split_ifs at h with hdigit hupper hlower
  · omega
  · omega
  · omega
  · cases h

/-- Where no digits follow a prefix `0x`, the digits are those at the front. -/
theorem strtoul16_eq {p : Bytes} (h : p.length ≤ 2 ∨ p.head? ≠ some 0x30) :
    strtoul16 p = if p.takeWhile isHexDigit = [] then none
      else some (digitsValue (p.takeWhile isHexDigit), p.dropWhile isHexDigit) := by
  unfold strtoul16
  split
  · rcases h with hlen | hhead
    · simp only [List.length_cons] at hlen
      omega
    · exact absurd rfl hhead
  · simp

theorem strtoul16_digit {c : UInt8} (h : isHexDigit c = true) :
    strtoul16 [c] = some (digitValue c, []) := by
  have hlen : [c].length ≤ 2 := Nat.le_succ 1
  rw [strtoul16_eq (.inl hlen)]
  simp [h, digitsValue, digitValue]

theorem strtoul16_digits {a b : UInt8} (ha : isHexDigit a = true) (hb : isHexDigit b = true) :
    strtoul16 [a, b] = some (16 * digitValue a + digitValue b, []) := by
  have hlen : [a, b].length ≤ 2 := Nat.le_refl 2
  rw [strtoul16_eq (.inl hlen)]
  simp [ha, hb, digitsValue, digitValue]

/-- A byte that is no digit ends the number. -/
theorem strtoul16_stop {a b : UInt8} (ha : isHexDigit a = true) (hb : isHexDigit b = false) :
    strtoul16 [a, b] = some (digitValue a, [b]) := by
  have hlen : [a, b].length ≤ 2 := Nat.le_refl 2
  rw [strtoul16_eq (.inl hlen)]
  simp [ha, hb, digitsValue, digitValue]

theorem strtoul16_none {a : UInt8} (rest : Bytes) (ha : isHexDigit a = false) :
    strtoul16 (a :: rest) = none := by
  have hhead : (a :: rest).head? ≠ some 0x30 := by
    rintro hzero
    obtain rfl := Option.some.inj hzero
    cases ha
  rw [strtoul16_eq (.inr hhead)]
  simp [ha]

theorem tonumber16_digits {a b : UInt8} (ha : isHexDigit a = true) (hb : isHexDigit b = true) :
    tonumber16 [a, b] = some ((16 * digitValue a + digitValue b : Nat) : Int) := by
  obtain ⟨hnul, hspace, hminus, hplus⟩ := digit_plain ha
  have hread := strtoul16_digits ha hb
  unfold tonumber16
  simp [hnul, (digit_plain hb).1, hspace, hminus, hplus, hread]

theorem tonumber16_plus {b : UInt8} (hb : isHexDigit b = true) :
    tonumber16 [0x2B, b] = some (digitValue b : Int) := by
  unfold tonumber16
  simp [isSpace, (digit_plain hb).1, strtoul16_digit hb]

theorem tonumber16_minus {b : UInt8} (hb : isHexDigit b = true) :
    tonumber16 [0x2D, b] = some (-(digitValue b : Int)) := by
  unfold tonumber16
  simp [isSpace, (digit_plain hb).1, strtoul16_digit hb]

theorem tonumber16_nul {a : UInt8} (ha : isHexDigit a = true) :
    tonumber16 [a, 0] = some (digitValue a : Int) := by
  obtain ⟨hnul, hspace, hminus, hplus⟩ := digit_plain ha
  unfold tonumber16
  simp [hnul, hspace, hminus, hplus, strtoul16_digit ha]

/-- Every other pair is refused. -/
theorem tonumber16_refused {a b : UInt8} (ha : isSpace a = false) (hb : isSpace b = false)
    (hdigits : (isHexDigit a && isHexDigit b) = false) (hmisread : misread a b = false) :
    tonumber16 [a, b] = none := by
  unfold misread at hmisread
  by_cases hnul : a = 0
  · subst hnul
    rfl
  by_cases hsign : a = 0x2D ∨ a = 0x2B
  · have hdigit : isHexDigit b = false := by
      have hdigit := (Bool.or_eq_false_iff.mp hmisread).1
      rcases hsign with rfl | rfl <;> simpa using hdigit
    by_cases hend : b = 0
    · subst hend
      rcases hsign with rfl | rfl <;> rfl
    · have hread := strtoul16_none [] hdigit
      rcases hsign with rfl | rfl <;> simp [tonumber16, isSpace, hend, hread]
  · obtain ⟨hminus, hplus⟩ := not_or.mp hsign
    cases hdigit : isHexDigit a with
    | false =>
      by_cases hend : b = 0
      · subst hend
        have hread := strtoul16_none [] hdigit
        simp [tonumber16, hnul, ha, hminus, hplus, hread]
      · have hread := strtoul16_none [b] hdigit
        simp [tonumber16, hnul, hend, ha, hminus, hplus, hread]
    | true =>
      rw [hdigit, Bool.true_and] at hdigits
      have hend : b ≠ 0 := by
        rintro rfl
        simp [hdigit] at hmisread
      have hread := strtoul16_stop hdigit hdigits
      simp [tonumber16, hnul, hend, ha, hb, hminus, hplus, hread]

/-! ## Whole texts -/

/-- The bytes that pairs of digits denote. -/
def denoted : Bytes → Bytes
  | a :: b :: rest => UInt8.ofNat (16 * digitValue a + digitValue b) :: denoted rest
  | _ => []

/-- An even number of hexadecimal digits. -/
def IsHex (cleaned : Bytes) : Prop := cleaned.length % 2 = 0 ∧ cleaned.all isHexDigit = true

instance (cleaned : Bytes) : Decidable (IsHex cleaned) := inferInstanceAs (Decidable (_ ∧ _))

/-- A pair that is neither two digits nor misread comes before any negative one. -/
def refusedInTime : Bytes → Bool
  | a :: b :: rest =>
    if isHexDigit a && isHexDigit b || misread a b then !negative a b && refusedInTime rest
    else true
  | _ => false

theorem stringChar_byte {n : Nat} (h : n < 256) :
    stringChar (n : Int) = .ok (UInt8.ofNat n) := by
  unfold stringChar
  rw [if_pos (by omega), Int.toNat_natCast]

/-- A misread pair gives a byte, or raises where it is negative. -/
theorem hexBytes_misread {a b : UInt8} (rest : Bytes) (h : misread a b = true) :
    if negative a b = true then ∃ e, hexBytes (a :: b :: rest) = .error e
    else ∃ part, hexBytes (a :: b :: rest) =
      (hexBytes rest).map fun parts => parts.map (part :: ·) := by
  have hbyte : ∀ n < 256, tonumber16 [a, b] = some ((n : Nat) : Int) →
      ∃ part, hexBytes (a :: b :: rest) =
        (hexBytes rest).map fun parts => parts.map (part :: ·) := by
    intro n hn hread
    refine ⟨UInt8.ofNat n, ?_⟩
    simp only [hexBytes, hread, stringChar_byte hn]
  unfold misread at h
  simp only [Bool.or_eq_true, Bool.and_eq_true, beq_iff_eq] at h
  rcases h with ⟨rfl | rfl, hdigit⟩ | ⟨hdigit, rfl⟩
  · rw [if_neg (by simp [negative])]
    have hlt := digitValue_lt b
    exact hbyte _ (by omega) (tonumber16_plus hdigit)
  · by_cases hzero : b = 0x30
    · subst hzero
      rw [if_neg (by simp [negative])]
      exact hbyte 0 (by decide) rfl
    · have hpos := digitValue_pos hdigit hzero
      rw [if_pos (by simp [negative, hdigit, hzero])]
      refine ⟨.charRange (-(digitValue b : Int)), ?_⟩
      have hraise : stringChar (-(digitValue b : Int)) =
          .error (.charRange (-(digitValue b : Int))) := by
        unfold stringChar
        rw [if_neg (by omega)]
      simp only [hexBytes, tonumber16_minus hdigit, hraise]
  · have hminus := (digit_plain hdigit).2.2.1
    rw [if_neg (by simp [negative, hminus])]
    have hlt := digitValue_lt a
    exact hbyte _ (by omega) (tonumber16_nul hdigit)

theorem hexBytes_digits {a b : UInt8} (rest : Bytes) (ha : isHexDigit a = true)
    (hb : isHexDigit b = true) :
    hexBytes (a :: b :: rest) = (hexBytes rest).map fun parts =>
      parts.map (UInt8.ofNat (16 * digitValue a + digitValue b) :: ·) := by
  have hlo := digitValue_lt b
  have hhi := digitValue_lt a
  simp only [hexBytes, tonumber16_digits ha hb,
    stringChar_byte (show 16 * digitValue a + digitValue b < 256 by omega)]

/-- What the tail gives decides, once a pair has given a byte. -/
theorem map_eq_none {result : Except LuaError (Option Bytes)} {part : UInt8} :
    (result.map fun parts => parts.map (part :: ·)) = .ok none ↔ result = .ok none := by
  cases result with
  | error e => simp [Except.map]
  | ok parts => cases parts <;> simp [Except.map]

/-- The pairs are refused exactly when one of them is, in time. -/
theorem hexBytes_eq_none {bytes : Bytes} (hspace : ∀ c ∈ bytes, isSpace c = false) :
    hexBytes bytes = .ok none ↔ refusedInTime bytes = true := by
  fun_induction refusedInTime bytes with
  | case1 a b rest hread ih =>
    have hrest := ih fun c hc => hspace c (List.mem_cons_of_mem a (List.mem_cons_of_mem b hc))
    cases hdigits : isHexDigit a && isHexDigit b with
    | true =>
      obtain ⟨ha, hb⟩ := Bool.and_eq_true_iff.mp hdigits
      have hneg : negative a b = false := by
        simp [negative, (digit_plain ha).2.2.1]
      rw [hexBytes_digits rest ha hb, map_eq_none, hrest, hneg, Bool.not_false, Bool.true_and]
    | false =>
      rw [hdigits, Bool.false_or] at hread
      have hbyte := hexBytes_misread rest hread
      cases hneg : negative a b with
      | true =>
        rw [if_pos hneg] at hbyte
        obtain ⟨e, he⟩ := hbyte
        rw [he, Bool.not_true, Bool.false_and]
        simp
      | false =>
        rw [if_neg (by simp [hneg])] at hbyte
        obtain ⟨part, hpart⟩ := hbyte
        rw [hpart, map_eq_none, hrest, Bool.not_false, Bool.true_and]
  | case2 a b rest hrefused =>
    rw [Bool.not_eq_true, Bool.or_eq_false_iff] at hrefused
    have hnone := tonumber16_refused (hspace a List.mem_cons_self)
      (hspace b (List.mem_cons_of_mem a List.mem_cons_self)) hrefused.1 hrefused.2
    simp only [hexBytes, hnone]
  | case3 bytes hshort =>
    cases bytes with
    | nil => simp [hexBytes]
    | cons a bytes =>
      cases bytes with
      | nil => simp [hexBytes]
      | cons b rest => exact absurd rfl (hshort a b rest)

theorem hexBytes_of_digits {bytes : Bytes} (h : bytes.all isHexDigit = true) :
    hexBytes bytes = .ok (some (denoted bytes)) := by
  fun_induction denoted bytes with
  | case1 a b rest ih =>
    simp only [List.all_cons, Bool.and_eq_true] at h
    rw [hexBytes_digits rest h.1 h.2.1, ih h.2.2]
    rfl
  | case2 bytes hshort =>
    cases bytes with
    | nil => rfl
    | cons a bytes =>
      cases bytes with
      | nil => rfl
      | cons b rest => exact absurd rfl (hshort a b rest)

theorem clean_plain (text : Bytes) : ∀ c ∈ clean text, isSpace c = false := by
  intro c hc
  simpa using (List.mem_filter.mp hc).2

theorem clean_clean (text : Bytes) : clean (clean text) = clean text := by
  unfold clean
  rw [List.filter_filter]
  simp

/-! ## The grammar -/

/-- `from_hex` gives the bytes of an even number of digits, and nil for every other text. -/
def FromHexLaw (text : Bytes) : Prop :=
  fromHex (some text) =
    .ok (if IsHex (clean text) then some (denoted (clean text)) else none)

/-- `build_send_payload` sends these bytes, with a line end where it was asked for and
there are any, and refuses every other text. -/
def PayloadLaw (text : Bytes) : Prop :=
  ∀ addCrlf, buildSendPayload (some text) true addCrlf =
    .ok (if IsHex (clean text) then
      (some (if addCrlf = true ∧ clean text ≠ [] then appendCrlf (denoted (clean text))
        else denoted (clean text)), none)
    else (none, some "invalid hex"))

/-- An odd number of bytes, digits alone, or a refused pair before any negative one. -/
def Settled (cleaned : Bytes) : Prop :=
  cleaned.length % 2 ≠ 0 ∨ cleaned.all isHexDigit = true ∨ refusedInTime cleaned = true

theorem fromHex_clean (text : Bytes) : fromHex (some (clean text)) = fromHex (some text) := by
  unfold fromHex
  rw [Option.getD_some, Option.getD_some, clean_clean]

theorem fromHexLaw_iff (text : Bytes) : FromHexLaw text ↔ Settled (clean text) := by
  unfold FromHexLaw Settled fromHex
  dsimp only
  rw [Option.getD_some]
  by_cases hempty : clean text = []
  · rw [if_pos hempty, hempty]
    simp [IsHex, denoted]
  rw [if_neg hempty]
  by_cases hodd : (clean text).length % 2 ≠ 0
  · rw [if_pos hodd, if_neg fun hhex : IsHex _ => hodd hhex.1]
    exact iff_of_true rfl (.inl hodd)
  rw [if_neg hodd]
  by_cases hdigits : (clean text).all isHexDigit = true
  · rw [if_pos ⟨not_not.mp hodd, hdigits⟩, hexBytes_of_digits hdigits]
    exact iff_of_true rfl (.inr (.inl hdigits))
  · rw [if_neg fun hhex : IsHex _ => hdigits hhex.2, hexBytes_eq_none (clean_plain text)]
    exact ⟨fun h => .inr (.inr h), fun h => (h.resolve_left hodd).resolve_left hdigits⟩

/-- What `build_send_payload` makes of the result of `from_hex`. -/
theorem buildSendPayload_hex (text : Bytes) (addCrlf : Bool) (hne : clean text ≠ []) :
    buildSendPayload (some text) true addCrlf =
      (fromHex (some text)).map fun data => data.elim (none, some "invalid hex")
        fun data => (some (if addCrlf then appendCrlf data else data), none) := by
  unfold buildSendPayload
  dsimp only
  rw [if_pos rfl, Option.getD_some, if_neg hne, fromHex_clean]
  congr
  funext data
  cases data <;> rfl

theorem payloadLaw_of_fromHexLaw {text : Bytes} (h : FromHexLaw text) : PayloadLaw text := by
  intro addCrlf
  by_cases hempty : clean text = []
  · unfold buildSendPayload
    dsimp only
    rw [if_pos rfl, Option.getD_some, if_pos hempty, hempty]
    simp [IsHex, denoted]
  · rw [buildSendPayload_hex text addCrlf hempty, h]
    by_cases hhex : IsHex (clean text)
    · rw [if_pos hhex, if_pos hhex]
      cases addCrlf <;> simp [Except.map, hempty]
    · rw [if_neg hhex, if_neg hhex]
      rfl

/-! ## The round trip -/

theorem hexDigit_spec {v : UInt8} (h : v.toNat < 16) :
    isHexDigit (hexDigit v) = true ∧ digitValue (hexDigit v) = v.toNat := by
  have hall : ∀ n : Fin 16, isHexDigit (hexDigit (UInt8.ofNat n)) = true ∧
      digitValue (hexDigit (UInt8.ofNat n)) = n := by
    decide
  have hv := hall ⟨v.toNat, h⟩
  rwa [UInt8.ofNat_toNat] at hv

/-- A byte is its two halves. -/
theorem halves (b : UInt8) :
    (b >>> 4).toNat < 16 ∧ (b &&& 0x0F).toNat < 16 ∧
      16 * (b >>> 4).toNat + (b &&& 0x0F).toNat = b.toNat := by
  have hlt := b.toNat_lt
  have hhigh : (b >>> 4).toNat = b.toNat / 16 := by
    rw [UInt8.toNat_shiftRight]
    exact Nat.shiftRight_eq_div_pow b.toNat 4
  have hlow : (b &&& 0x0F).toNat = b.toNat % 16 := by
    rw [UInt8.toNat_and]
    exact Nat.and_two_pow_sub_one_eq_mod b.toNat 4
  rw [hhigh, hlow]
  omega

theorem clean_toHex (data : Bytes) : clean (toHex data) = data.flatMap hexPair := by
  induction data with
  | nil => rfl
  | cons b data ih =>
    obtain ⟨hhigh, hlow, -⟩ := halves b
    have hfirst := (digit_plain (hexDigit_spec hhigh).1).2.1
    have hsecond := (digit_plain (hexDigit_spec hlow).1).2.1
    have hpair : clean (hexPair b ++ [0x20]) = hexPair b := by
      have hblank : isSpace 0x20 = true := rfl
      simp [clean, hexPair, hfirst, hsecond, hblank]
    calc clean (toHex (b :: data))
        = clean (hexPair b ++ [0x20]) ++ clean (toHex data) := List.filter_append _ _
      _ = (b :: data).flatMap hexPair := by rw [hpair, ih, List.flatMap_cons]

theorem all_digits (data : Bytes) : (data.flatMap hexPair).all isHexDigit = true := by
  rw [List.all_eq_true]
  intro c hc
  obtain ⟨b, -, hb⟩ := List.mem_flatMap.mp hc
  obtain ⟨hhigh, hlow, -⟩ := halves b
  rcases List.mem_pair.mp hb with rfl | rfl
  · exact (hexDigit_spec hhigh).1
  · exact (hexDigit_spec hlow).1

theorem denoted_pairs (data : Bytes) : denoted (data.flatMap hexPair) = data := by
  induction data with
  | nil => rfl
  | cons b data ih =>
    obtain ⟨hhigh, hlow, hsum⟩ := halves b
    have hbyte : UInt8.ofNat (16 * digitValue (hexDigit (b >>> 4)) +
        digitValue (hexDigit (b &&& 0x0F))) = b := by
      rw [(hexDigit_spec hhigh).2, (hexDigit_spec hlow).2, hsum, UInt8.ofNat_toNat]
    rw [List.flatMap_cons, hexPair]
    simp only [List.cons_append, List.nil_append, denoted, hbyte, ih]

theorem even_pairs (data : Bytes) : (data.flatMap hexPair).length % 2 = 0 := by
  induction data with
  | nil => rfl
  | cons b data ih =>
    rw [List.flatMap_cons, List.length_append]
    change (2 + _) % 2 = 0
    omega

theorem fromHex_toHex (data : Bytes) : fromHex (some (toHex data)) = .ok (some data) := by
  have hdigits := all_digits data
  have hlaw := (fromHexLaw_iff (toHex data)).mpr (.inr (.inl (clean_toHex data ▸ hdigits)))
  unfold FromHexLaw at hlaw
  rw [hlaw, clean_toHex, if_pos ⟨even_pairs data, hdigits⟩, denoted_pairs]

/-- The digits of a payload are read as they should be exactly when the text is settled,
and what `to_hex` writes is always read back. -/
theorem hex_payload_iff (text data : Bytes) :
    (FromHexLaw text ∧ PayloadLaw text ↔ Settled (clean text)) ∧
      fromHex (some (toHex data)) = .ok (some data) := by
  refine ⟨?_, fromHex_toHex data⟩
  rw [← fromHexLaw_iff]
  exact ⟨And.left, fun h => ⟨h, payloadLaw_of_fromHexLaw h⟩⟩

/-- `+A` is sent as the byte 0A, and `-A` raises. -/
theorem signed_digit_is_sent :
    fromHex (some [0x2B, 0x41]) = .ok (some [0x0A]) ∧
      buildSendPayload (some [0x2D, 0x41]) true false = .error (.charRange (-10)) ∧
      ¬ ∀ text, FromHexLaw text ∧ PayloadLaw text := by
  refine ⟨by decide, by decide, ?_⟩
  intro h
  have hlaw := (h [0x2B, 0x41]).1
  unfold FromHexLaw at hlaw
  exact absurd hlaw (by decide)

end Xcom.Tx.Hex
