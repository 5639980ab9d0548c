import Mathlib.Data.Nat.Digits.Defs
import Mathlib.Data.Int.ModEq
import Mathlib.Data.Nat.Bitwise

/-!
# Binary records for scripts

`libs/protocol/struct.lua`: the integers and strings of `pack` and `unpack`, in both byte orders.
Numbers are doubles, so `unpack` adds up eight bytes exactly only where the sum stays small.
-/

namespace Xcom.Protocol.Struct

abbrev Stream := List UInt8

inductive Arg
  | number (v : Int)
  | string (s : Stream)
  deriving DecidableEq, Repr

/-- The bytes of an integer option, `[bBhHiIlL]`. -/
def intWidth (opt : UInt8) : Option Nat :=
  if opt = 0x68 ∨ opt = 0x48 then some 2
  else if opt = 0x69 ∨ opt = 0x49 then some 4
  else if opt = 0x6C ∨ opt = 0x4C then some 8
  else if opt = 0x62 ∨ opt = 0x42 then some 1
  else none

/-- `opt:lower() == opt`, for an integer option. -/
def isSigned (opt : UInt8) : Bool := 0x61 ≤ opt

/-- `%d+` in what is left of the format: the first number, however far behind the option. -/
def widthBehind (format : List UInt8) : Option Nat :=
  let isDigit : UInt8 → Bool := fun c => 0x30 ≤ c && c ≤ 0x39
  match (format.dropWhile (!isDigit ·)).takeWhile isDigit with
  | [] => none
  | ds => some (ds.foldl (fun n d => n * 10 + (d.toNat - 0x30)) 0)

/-! ## Pack -/

/-- The loop over the bytes of an integer, the lowest one first. -/
def bytesOf : Nat → Int → Stream
  | 0, _ => []
  | n + 1, val => UInt8.ofNat (val % 256).toNat :: bytesOf n (val / 256)

/-- The text of a `c` field, filled up with blanks. -/
def field (len : Nat) (s : Stream) : Stream :=
  let len := if len = 0 then s.length else len
  (s ++ List.replicate (len - s.length) 0x20).take len

/-- `table.remove(vars, 1)`, for an integer and for a string. -/
def takeNumber : List Arg → Option (Int × List Arg)
  | .number val :: vars => some (val, vars)
  | _ => none

def takeString : List Arg → Option (Stream × List Arg)
  | .string s :: vars => some (s, vars)
  | _ => none

/-- The loop of `pack`; `none` is an argument that is missing or of the other type, and a float. -/
def packFrom : List UInt8 → Bool → List Arg → Option Stream
  | [], _, _ => some []
  | opt :: format, endianness, vars =>
    if opt = 0x3C then packFrom format true vars
    else if opt = 0x3E then packFrom format false vars
    else
      match intWidth opt with
      | some n =>
        match takeNumber vars with
        | some (val, vars) =>
          (packFrom format endianness vars).map
            ((if endianness then bytesOf n val else (bytesOf n val).reverse) ++ ·)
        | none => none
      | none =>
        if opt = 0x66 ∨ opt = 0x64 then none
        else if opt = 0x73 then
          match takeString vars with
          | some (s, vars) => (packFrom format endianness vars).map (s ++ 0 :: ·)
          | none => none
        else if opt = 0x63 then
          match widthBehind format with
          | none => none
          | some len =>
            match takeString vars with
            | some (s, vars) => (packFrom format endianness vars).map (field len s ++ ·)
            | none => none
        -- The digits of a width, and what is no option, are passed over.
        else packFrom format endianness vars

/-- `struct.pack`. -/
def pack (format : List UInt8) (vars : List Arg) : Option Stream := packFrom format true vars

/-! ## Unpack -/

/-- The loop over the bytes that are read, from the `j`-th of `n` on; `round` is the nearest
double. -/
def gather (round : Nat → Nat) (endianness : Bool) (n : Nat) : Nat → Nat → Stream → Nat
  | val, _, [] => val
  | val, j, byte :: bytes =>
    gather round endianness n
      (round (val + byte.toNat * 2 ^ (8 * if endianness then j else n - 1 - j))) (j + 1) bytes

/-- The integer of the bytes, as the option has it. -/
def integer (opt : UInt8) (n val : Nat) : Int :=
  if isSigned opt ∧ 2 ^ (8 * n - 1) ≤ val then (val : Int) - 2 ^ (8 * n) else val

/-- `table.remove(vars)`, for a length. -/
def lastLength (vars : List Arg) : Option Nat :=
  match vars.getLast? with
  | some (.number len) => if len < 0 then none else some len.toNat
  | _ => none

/-- The loop of `unpack`; `none` is a byte that is missing, and a float. -/
def unpackFrom (round : Nat → Nat) :
    List UInt8 → Bool → Stream → List Arg → Option (List Arg)
  | [], _, _, vars => some vars
  | opt :: format, endianness, stream, vars =>
    if opt = 0x3C then unpackFrom round format true stream vars
    else if opt = 0x3E then unpackFrom round format false stream vars
    else
      match intWidth opt with
      | some n =>
        if stream.length < n then none
        else
          unpackFrom round format endianness (stream.drop n) (vars ++
            [.number (integer opt n (gather round endianness n 0 0 (stream.take n)))])
      | none =>
        if opt = 0x66 ∨ opt = 0x64 then none
        else if opt = 0x73 then
          let str := stream.takeWhile (· ≠ 0)
          unpackFrom round format endianness (stream.drop (str.length + 1)) (vars ++ [.string str])
        else if opt = 0x63 then
          match widthBehind format with
          | none => none
          | some len =>
            if len = 0 then
              -- The length is the value read before, which is taken back.
              match lastLength vars with
              | none => none
              | some len =>
                unpackFrom round format endianness (stream.drop len)
                  (vars.dropLast ++ [.string (stream.take len)])
            else
              unpackFrom round format endianness (stream.drop len)
                (vars ++ [.string (stream.take len)])
        else unpackFrom round format endianness stream vars

/-- `struct.unpack` from a position on. -/
def unpack (round : Nat → Nat) (format : List UInt8) (stream : Stream) (pos : Nat) :
    Option (List Arg) :=
  unpackFrom round format true (stream.drop (pos - 1)) []

/-! ## Integers read back -/

/-- The doubles up to 2 to the 53 are the integers. -/
def Exact (round : Nat → Nat) : Prop := ∀ n ≤ 2 ^ 53, round n = n

theorem length_bytesOf (n : Nat) (val : Int) : (bytesOf n val).length = n := by
  induction n generalizing val with
  | zero => rfl
  | succ n ih => rw [bytesOf, List.length_cons, ih]

/-- The value of the bytes, the lowest one first. -/
def valueOf (bytes : Stream) : Nat := Nat.ofDigits 256 (bytes.map UInt8.toNat)

theorem valueOf_cons (byte : UInt8) (bytes : Stream) :
    valueOf (byte :: bytes) = byte.toNat + 256 * valueOf bytes :=
  Nat.ofDigits_cons

theorem valueOf_concat (bytes : Stream) (byte : UInt8) :
    valueOf (bytes ++ [byte]) = valueOf bytes + 256 ^ bytes.length * byte.toNat := by
  rw [valueOf, List.map_append, Nat.ofDigits_append, List.length_map]
  simp [valueOf]

theorem valueOf_bytesOf (n : Nat) (val : Int) :
    (valueOf (bytesOf n val) : Int) = val % 256 ^ n := by
  induction n generalizing val with
  | zero => simp [bytesOf, valueOf]
  | succ n ih =>
    have hlow := Int.emod_nonneg val (show (256 : Int) ≠ 0 by decide)
    have hhigh := Int.emod_lt_of_pos val (show (0 : Int) < 256 by decide)
    have hbyte : (UInt8.ofNat (val % 256).toNat).toNat = (val % 256).toNat :=
      UInt8.toNat_ofNat_of_lt (by show _ < 256; omega)
    have hpos : (0 : Int) < 256 ^ n := Int.pow_pos (by decide)
    have hrest := Int.emod_add_mul_ediv (val / 256) (256 ^ n)
    have hval := Int.emod_add_mul_ediv val 256
    have hless := Int.emod_lt_of_pos (val / 256) hpos
    have hmore := Int.emod_nonneg (val / 256) (Int.ne_of_gt hpos)
    have hshift : (256 : Int) ^ (n + 1) * (val / 256 / 256 ^ n) =
        256 * (256 ^ n * (val / 256 / 256 ^ n)) := by
      rw [Int.pow_succ, Int.mul_comm (256 ^ n) 256, Int.mul_assoc]
    have hwide : (256 : Int) ^ (n + 1) = 256 * 256 ^ n := by
      rw [Int.pow_succ, Int.mul_comm]
    have hpart := (Int.ediv_emod_unique (a := val) (b := 256 ^ (n + 1))
      (r := val % 256 + 256 * (val / 256 % 256 ^ n)) (q := val / 256 / 256 ^ n)
      (by rw [hwide]; omega)).mpr ⟨by rw [hshift]; omega, by omega, by rw [hwide]; omega⟩
    rw [bytesOf, valueOf_cons, hbyte, Int.natCast_add, Int.natCast_mul, ih,
      Int.toNat_of_nonneg hlow, hpart.2]
    rfl

/-- What the bytes add up to from the `j`-th on. -/
def sumFrom (endianness : Bool) (j : Nat) (bytes : Stream) : Nat :=
  if endianness then 256 ^ j * valueOf bytes else valueOf bytes.reverse

theorem gather_eq {round : Nat → Nat} (hround : Exact round) (endianness : Bool) {n : Nat}
    (bytes : Stream) (val j : Nat) (hj : j + bytes.length = n)
    (hsum : val + sumFrom endianness j bytes ≤ 2 ^ 53) :
    gather round endianness n val j bytes = val + sumFrom endianness j bytes := by
  induction bytes generalizing val j with
  | nil =>
    cases endianness <;> simp [gather, sumFrom, valueOf]
  | cons byte bytes ih =>
    rw [List.length_cons] at hj
    have hstep : byte.toNat * 2 ^ (8 * if endianness then j else n - 1 - j) +
        sumFrom endianness (j + 1) bytes = sumFrom endianness j (byte :: bytes) := by
      cases endianness with
      | true =>
        simp only [sumFrom, if_true, valueOf_cons, Nat.pow_mul, Nat.pow_succ]
        show byte.toNat * 256 ^ j + _ = _
        rw [Nat.mul_add, Nat.mul_comm byte.toNat, Nat.mul_assoc]
      | false =>
        have hplace : n - 1 - j = bytes.reverse.length := by
          rw [List.length_reverse]
          omega
        simp only [sumFrom, Bool.false_eq_true, if_false, hplace, List.reverse_cons, valueOf_concat,
          Nat.pow_mul]
        show byte.toNat * 256 ^ _ + _ = _
        rw [Nat.add_comm, Nat.mul_comm]
    rw [← hstep, ← Nat.add_assoc] at hsum ⊢
    rw [gather, hround _ (Nat.le_trans (Nat.le_add_right _ _) hsum)]
    exact ih _ (j + 1) (by omega) hsum

/-- An integer the option holds; that of eight bytes is read back as a double. -/
def FitsInt (opt : UInt8) (n : Nat) (val : Int) : Prop :=
  (if isSigned opt then -(2 ^ (8 * n - 1)) ≤ val ∧ val < 2 ^ (8 * n - 1)
    else 0 ≤ val ∧ val < 2 ^ (8 * n)) ∧ val % 2 ^ (8 * n) ≤ 2 ^ 53

theorem integer_read {round : Nat → Nat} (hround : Exact round) {opt : UInt8} {n : Nat}
    (hn : 0 < n) {val : Int} (hfits : FitsInt opt n val) (endianness : Bool) :
    integer opt n (gather round endianness n 0 0
      (if endianness then bytesOf n val else (bytesOf n val).reverse)) = val := by
  have hvalue := valueOf_bytesOf n val
  have hpow : (256 : Int) ^ n = 2 ^ (8 * n) := by
    rw [Int.pow_mul]
    rfl
  rw [hpow] at hvalue
  have hsum : sumFrom endianness 0
      (if endianness then bytesOf n val else (bytesOf n val).reverse) =
        valueOf (bytesOf n val) := by
    cases endianness <;> simp [sumFrom]
  have hsmall : valueOf (bytesOf n val) ≤ 2 ^ 53 := by
    have hle := hfits.2
    rw [← hvalue] at hle
    exact_mod_cast hle
  have hlength : 0 + (if endianness then bytesOf n val
      else (bytesOf n val).reverse).length = n := by
    cases endianness <;> simp [length_bytesOf]
  rw [gather_eq hround endianness _ 0 0 hlength (by rw [hsum]; omega), hsum, Nat.zero_add]
  have hwide : (2 : Int) ^ (8 * n) = 2 * 2 ^ (8 * n - 1) := by
    obtain ⟨k, rfl⟩ := Nat.exists_eq_succ_of_ne_zero (Nat.ne_of_gt hn)
    rw [show 8 * k.succ = 8 * k.succ - 1 + 1 by omega, Int.pow_succ, Int.mul_comm]
    rfl
  have hhalf : ((2 ^ (8 * n - 1) : Nat) : Int) = 2 ^ (8 * n - 1) := Int.natCast_pow 2 _
  have hrange := hfits.1
  unfold integer
  rw [hwide] at hvalue hrange ⊢
  cases hsigned : isSigned opt with
  | false =>
    rw [hsigned] at hrange
    simp only [Bool.false_eq_true, if_false, false_and] at hrange ⊢
    rw [hvalue, Int.emod_eq_of_lt hrange.1 hrange.2]
  | true =>
    rw [hsigned] at hrange
    simp only [if_true, true_and] at hrange ⊢
    rcases Int.lt_or_le val 0 with hneg | hpos
    · have hmod : val % (2 * 2 ^ (8 * n - 1)) = val + 2 * 2 ^ (8 * n - 1) := by
        rw [← Int.add_emod_right]
        exact Int.emod_eq_of_lt (by omega) (by omega)
      rw [hmod] at hvalue
      rw [if_pos (by omega), hvalue]
      omega
    · rw [Int.emod_eq_of_lt hpos (by omega)] at hvalue
      rw [if_neg (by omega), hvalue]

/-! ## Records read back -/

/-- The format takes the arguments, each of them one it can give back: integers that fit, strings
without a zero for `s`, and for `c` strings of the width. -/
def Suits : List UInt8 → List Arg → Prop
  | [], args => args = []
  | opt :: format, args =>
    if opt = 0x3C ∨ opt = 0x3E then Suits format args
    else
      match intWidth opt with
      | some n => ∃ val vars, args = .number val :: vars ∧ FitsInt opt n val ∧ Suits format vars
      | none =>
        if opt = 0x66 ∨ opt = 0x64 then False
        else if opt = 0x73 then
          ∃ s vars, args = .string s :: vars ∧ 0 ∉ s ∧ Suits format vars
        else if opt = 0x63 then
          ∃ s vars, args = .string s :: vars ∧ s ≠ [] ∧ widthBehind format = some s.length ∧
            Suits format vars
        else Suits format args

theorem intWidth_pos {opt : UInt8} {n : Nat} (h : intWidth opt = some n) : 0 < n := by
  unfold intWidth at h
  split_ifs at h
  all_goals
    cases h
    decide

/-- From any place in the format on, what was packed is unpacked behind what was read before. -/
theorem unpackFrom_packFrom {round : Nat → Nat} (hround : Exact round) {format : List UInt8}
    {args : List Arg} (hsuits : Suits format args) (endianness : Bool) :
    ∃ stream, packFrom format endianness args = some stream ∧ ∀ rest vars,
      unpackFrom round format endianness (stream ++ rest) vars = some (vars ++ args) := by
  induction format generalizing args endianness with
  | nil =>
    obtain rfl : args = [] := hsuits
    exact ⟨[], rfl, fun rest vars => by rw [unpackFrom, List.append_nil]⟩
  | cons opt format ih =>
    rw [Suits] at hsuits
    by_cases hlittle : opt = 0x3C
    · rw [if_pos (.inl hlittle)] at hsuits
      obtain ⟨stream, hpack, hunpack⟩ := ih hsuits true
      refine ⟨stream, by rw [packFrom, if_pos hlittle, hpack], fun rest vars => ?_⟩
      rw [unpackFrom, if_pos hlittle, hunpack]
    by_cases hbig : opt = 0x3E
    · rw [if_pos (.inr hbig)] at hsuits
      obtain ⟨stream, hpack, hunpack⟩ := ih hsuits false
      refine ⟨stream, by rw [packFrom, if_neg hlittle, if_pos hbig, hpack], fun rest vars => ?_⟩
      rw [unpackFrom, if_neg hlittle, if_pos hbig, hunpack]
    rw [if_neg (not_or.mpr ⟨hlittle, hbig⟩)] at hsuits
    cases hwidth : intWidth opt with
    | some n =>
      rw [hwidth] at hsuits
      obtain ⟨val, vars, rfl, hfits, hrest⟩ := hsuits
      obtain ⟨stream, hpack, hunpack⟩ := ih hrest endianness
      refine ⟨(if endianness then bytesOf n val else (bytesOf n val).reverse) ++ stream, ?_,
        fun rest before => ?_⟩
      · rw [packFrom, if_neg hlittle, if_neg hbig, hwidth]
        dsimp only
        rw [takeNumber]
        dsimp only
        rw [hpack, Option.map_some]
      · have hread := integer_read hround (intWidth_pos hwidth) hfits endianness
        have hlength : (if endianness then bytesOf n val else (bytesOf n val).reverse).length =
            n := by
          cases endianness <;> simp [length_bytesOf]
        rw [unpackFrom, if_neg hlittle, if_neg hbig, hwidth]
        dsimp only
        rw [List.append_assoc, if_neg (by rw [List.length_append, hlength]; omega),
          List.take_left' hlength, List.drop_left' hlength, hread, hunpack, List.append_assoc]
        rfl
    | none =>
      rw [hwidth] at hsuits
      dsimp only at hsuits
      split_ifs at hsuits with hfloat hstring hfield
      · obtain ⟨s, vars, rfl, hzero, hrest⟩ := hsuits
        obtain ⟨stream, hpack, hunpack⟩ := ih hrest endianness
        refine ⟨s ++ 0 :: stream, ?_, fun rest before => ?_⟩
        · rw [packFrom, if_neg hlittle, if_neg hbig, hwidth]
          dsimp only
          rw [if_neg hfloat, if_pos hstring, takeString]
          dsimp only
          rw [hpack, Option.map_some]
        · have hall : ∀ c ∈ s, (c ≠ 0 : Bool) = true :=
            fun c hc => decide_eq_true fun heq => hzero (heq ▸ hc)
          have htake : (s ++ 0 :: (stream ++ rest)).takeWhile (· ≠ 0) = s := by
            rw [List.takeWhile_append_of_pos hall, List.takeWhile_cons_of_neg (by decide),
              List.append_nil]
          have hdrop : (s ++ 0 :: (stream ++ rest)).drop (s.length + 1) = stream ++ rest := by
            rw [← List.drop_drop, List.drop_left]
            rfl
          rw [unpackFrom, if_neg hlittle, if_neg hbig, hwidth]
          dsimp only
          rw [if_neg hfloat, if_pos hstring, List.append_assoc, List.cons_append, htake, hdrop,
            hunpack, List.append_assoc]
          rfl
      · obtain ⟨s, vars, rfl, hne, hbehind, hrest⟩ := hsuits
        obtain ⟨stream, hpack, hunpack⟩ := ih hrest endianness
        have hlength : s.length ≠ 0 := fun hzero => hne (List.length_eq_zero_iff.mp hzero)
        refine ⟨s ++ stream, ?_, fun rest before => ?_⟩
        · have hfieldOf : field s.length s = s := by
            simp [field, hlength]
          rw [packFrom, if_neg hlittle, if_neg hbig, hwidth]
          dsimp only
          rw [if_neg hfloat, if_neg hstring, if_pos hfield, hbehind]
          dsimp only
          rw [takeString]
          dsimp only
          rw [hpack, hfieldOf, Option.map_some]
        · rw [unpackFrom, if_neg hlittle, if_neg hbig, hwidth]
          dsimp only
          rw [if_neg hfloat, if_neg hstring, if_pos hfield, hbehind]
          dsimp only
          rw [if_neg hlength, List.append_assoc, List.take_left, List.drop_left, hunpack,
            List.append_assoc]
          rfl
      · obtain ⟨stream, hpack, hunpack⟩ := ih hsuits endianness
        refine ⟨stream, ?_, fun rest before => ?_⟩
        · rw [packFrom, if_neg hlittle, if_neg hbig, hwidth]
          dsimp only
          rw [if_neg hfloat, if_neg hstring, if_neg hfield, hpack]
        · rw [unpackFrom, if_neg hlittle, if_neg hbig, hwidth]
          dsimp only
          rw [if_neg hfloat, if_neg hstring, if_neg hfield, hunpack]

/-- What `pack` makes of arguments that suit the format is unpacked to them from wherever it
stands in a stream, in both byte orders. -/
theorem unpack_pack {round : Nat → Nat} (hround : Exact round) {format : List UInt8}
    {args : List Arg} (hsuits : Suits format args) :
    ∃ packed, pack format args = some packed ∧ ∀ before rest,
      unpack round format (before ++ packed ++ rest) (before.length + 1) = some args := by
  obtain ⟨packed, hpack, hunpack⟩ := unpackFrom_packFrom hround hsuits true
  refine ⟨packed, hpack, fun before rest => ?_⟩
  rw [unpack, Nat.add_sub_cancel, List.append_assoc, List.drop_left, hunpack, List.nil_append]

/-- The frame of `struct.pack(">BHic2", ...)`. -/
theorem unpack_pack_frame : ∃ packed,
    pack [0x3E, 0x42, 0x48, 0x69, 0x63, 0x32]
        [.number 1, .number 0x1234, .number (-2), .string [0x41, 0x42]] = some packed ∧
      ∀ before rest, unpack id [0x3E, 0x42, 0x48, 0x69, 0x63, 0x32] (before ++ packed ++ rest)
        (before.length + 1) =
          some [.number 1, .number 0x1234, .number (-2), .string [0x41, 0x42]] := by
  refine unpack_pack (fun _ _ => rfl) ?_
  refine ⟨1, _, rfl, ?_, 0x1234, _, rfl, ?_, -2, _, rfl, ?_, [0x41, 0x42], _, rfl, by decide,
    rfl, rfl⟩
  all_goals
    unfold FitsInt
    decide

end Xcom.Protocol.Struct
