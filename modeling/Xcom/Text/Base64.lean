import Mathlib.Data.List.Basic

/-!
# Base64

The standard alphabet with padding.  Three bytes are four symbols of six bits; a last group of
one or two bytes is filled up with zero bits and marked by pads.  The decoder takes nothing
else: no pad stands before the last group, and the bits filled up are zero.
-/

namespace Base64

def pad : UInt8 := 61

/-- The symbol of six bits. -/
def symbol (v : Nat) : UInt8 :=
  if v < 26 then UInt8.ofNat (65 + v)
  else if v < 52 then UInt8.ofNat (71 + v)
  else if v < 62 then UInt8.ofNat (v - 4)
  else if v = 62 then 43
  else 47

/-- The six bits of a symbol. -/
def value (c : UInt8) : Option Nat :=
  if 65 ≤ c ∧ c ≤ 90 then some (c.toNat - 65)
  else if 97 ≤ c ∧ c ≤ 122 then some (c.toNat - 71)
  else if 48 ≤ c ∧ c ≤ 57 then some (c.toNat + 4)
  else if c = 43 then some 62
  else if c = 47 then some 63
  else none

def encode : List UInt8 → List UInt8
  | [] => []
  | [a] => [symbol (a.toNat / 4), symbol (a.toNat % 4 * 16), pad, pad]
  | [a, b] =>
    [symbol (a.toNat / 4), symbol (a.toNat % 4 * 16 + b.toNat / 16),
      symbol (b.toNat % 16 * 4), pad]
  | a :: b :: c :: rest =>
    symbol (a.toNat / 4) :: symbol (a.toNat % 4 * 16 + b.toNat / 16) ::
      symbol (b.toNat % 16 * 4 + c.toNat / 64) :: symbol (c.toNat % 64) :: encode rest

/-- The bytes of a last group that was filled up. -/
def decodeFilled (p q r : UInt8) : Option (List UInt8) :=
  if r = pad then do
    let x ← value p
    let y ← value q
    if y % 16 = 0 then some [UInt8.ofNat (x * 4 + y / 16)] else none
  else do
    let x ← value p
    let y ← value q
    let z ← value r
    if z % 4 = 0 then
      some [UInt8.ofNat (x * 4 + y / 16), UInt8.ofNat (y % 16 * 16 + z / 4)]
    else none

/-- The three bytes of a group without a pad. -/
def decodeFull (p q r s : UInt8) : Option (List UInt8) := do
  let x ← value p
  let y ← value q
  let z ← value r
  let w ← value s
  some [UInt8.ofNat (x * 4 + y / 16), UInt8.ofNat (y % 16 * 16 + z / 4),
    UInt8.ofNat (z % 4 * 64 + w)]

def decode : List UInt8 → Option (List UInt8)
  | [] => some []
  | p :: q :: r :: s :: rest =>
    if s = pad then if rest = [] then decodeFilled p q r else none
    else do
      let group ← decodeFull p q r s
      let more ← decode rest
      some (group ++ more)
  | _ => none

/-! ## Symbols -/

theorem value_symbol : ∀ v < 64, value (symbol v) = some v := by decide

theorem symbol_ne_pad : ∀ v < 64, symbol v ≠ pad := by decide

/-- A number that is the value of a byte is that byte. -/
theorem ofNat_eq {n : Nat} {a : UInt8} (h : n = a.toNat) : UInt8.ofNat n = a := by
  rw [h, UInt8.ofNat_toNat]

/-! ## Groups -/

theorem decodeFilled_one (a : UInt8) :
    decodeFilled (symbol (a.toNat / 4)) (symbol (a.toNat % 4 * 16)) pad = some [a] := by
  have ha := a.toNat_lt
  have hx : value (symbol (a.toNat / 4)) = some (a.toNat / 4) := value_symbol _ (by omega)
  have hy : value (symbol (a.toNat % 4 * 16)) = some (a.toNat % 4 * 16) :=
    value_symbol _ (by omega)
  have hzero : a.toNat % 4 * 16 % 16 = 0 := by omega
  have hbyte : UInt8.ofNat (a.toNat / 4 * 4 + a.toNat % 4 * 16 / 16) = a := ofNat_eq (by omega)
  rw [decodeFilled, if_pos rfl, hx, hy]
  show (if a.toNat % 4 * 16 % 16 = 0 then _ else _) = _
  rw [if_pos hzero, hbyte]

theorem decodeFilled_two (a b : UInt8) :
    decodeFilled (symbol (a.toNat / 4)) (symbol (a.toNat % 4 * 16 + b.toNat / 16))
      (symbol (b.toNat % 16 * 4)) = some [a, b] := by
  have ha := a.toNat_lt
  have hb := b.toNat_lt
  have hx : value (symbol (a.toNat / 4)) = some (a.toNat / 4) := value_symbol _ (by omega)
  have hy : value (symbol (a.toNat % 4 * 16 + b.toNat / 16)) =
      some (a.toNat % 4 * 16 + b.toNat / 16) := value_symbol _ (by omega)
  have hz : value (symbol (b.toNat % 16 * 4)) = some (b.toNat % 16 * 4) :=
    value_symbol _ (by omega)
  have hpad : symbol (b.toNat % 16 * 4) ≠ pad := symbol_ne_pad _ (by omega)
  have hzero : b.toNat % 16 * 4 % 4 = 0 := by omega
  have hfirst : UInt8.ofNat (a.toNat / 4 * 4 + (a.toNat % 4 * 16 + b.toNat / 16) / 16) = a :=
    ofNat_eq (by omega)
  have hsecond : UInt8.ofNat ((a.toNat % 4 * 16 + b.toNat / 16) % 16 * 16 +
      b.toNat % 16 * 4 / 4) = b := ofNat_eq (by omega)
  rw [decodeFilled, if_neg hpad, hx, hy, hz]
  show (if b.toNat % 16 * 4 % 4 = 0 then _ else _) = _
  rw [if_pos hzero, hfirst, hsecond]

theorem decodeFull_three (a b c : UInt8) :
    decodeFull (symbol (a.toNat / 4)) (symbol (a.toNat % 4 * 16 + b.toNat / 16))
      (symbol (b.toNat % 16 * 4 + c.toNat / 64)) (symbol (c.toNat % 64)) = some [a, b, c] := by
  have ha := a.toNat_lt
  have hb := b.toNat_lt
  have hc := c.toNat_lt
  have hx : value (symbol (a.toNat / 4)) = some (a.toNat / 4) := value_symbol _ (by omega)
  have hy : value (symbol (a.toNat % 4 * 16 + b.toNat / 16)) =
      some (a.toNat % 4 * 16 + b.toNat / 16) := value_symbol _ (by omega)
  have hz : value (symbol (b.toNat % 16 * 4 + c.toNat / 64)) =
      some (b.toNat % 16 * 4 + c.toNat / 64) := value_symbol _ (by omega)
  have hw : value (symbol (c.toNat % 64)) = some (c.toNat % 64) := value_symbol _ (by omega)
  have hfirst : UInt8.ofNat (a.toNat / 4 * 4 + (a.toNat % 4 * 16 + b.toNat / 16) / 16) = a :=
    ofNat_eq (by omega)
  have hsecond : UInt8.ofNat ((a.toNat % 4 * 16 + b.toNat / 16) % 16 * 16 +
      (b.toNat % 16 * 4 + c.toNat / 64) / 4) = b := ofNat_eq (by omega)
  have hthird : UInt8.ofNat ((b.toNat % 16 * 4 + c.toNat / 64) % 4 * 64 + c.toNat % 64) = c :=
    ofNat_eq (by omega)
  rw [decodeFull, hx, hy, hz, hw]
  show some [_, _, _] = _
  rw [hfirst, hsecond, hthird]

/-! ## Texts -/

/-- What was encoded is decoded. -/
theorem decode_encode (s : List UInt8) : decode (encode s) = some s := by
  induction s using encode.induct with
  | case1 => rfl
  | case2 a => simp [encode, decode, decodeFilled_one]
  | case3 a b => simp [encode, decode, decodeFilled_two]
  | case4 a b c rest ih =>
    have hlast : symbol (c.toNat % 64) ≠ pad := symbol_ne_pad _ (Nat.mod_lt _ (by decide))
    rw [encode, decode, if_neg hlast, decodeFull_three, ih]
    rfl

/-- Four symbols for each group of three bytes. -/
theorem length_encode (s : List UInt8) : (encode s).length = 4 * ((s.length + 2) / 3) := by
  induction s using encode.induct with
  | case1 => rfl
  | case2 a => simp [encode]
  | case3 a b => simp [encode]
  | case4 a b c rest ih =>
    have hgroup : (rest.length + 1 + 1 + 1 + 2) / 3 = (rest.length + 2) / 3 + 1 := by omega
    simp only [encode, List.length_cons, ih, hgroup]
    omega

end Base64
