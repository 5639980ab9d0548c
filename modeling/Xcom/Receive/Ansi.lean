import Xcom.Transition.Loop

/-!
# The ANSI parser of the receive view

`ansi.lua`: escape sequences are taken out of the text, and those that set colours are obeyed.
What is left open at the end of a feed is kept for the next.
-/

namespace Xcom.Receive.Ansi

open Transition.Loop

/-! ## Colours -/

/-- The tables of a palette, 0xRRGGBB each. -/
structure Palette where
  fgStd : List Nat
  fgBrt : List Nat
  bgStd : List Nat
  bgBrt : List Nat

/-- `LIGHT`. -/
def light : Palette where
  fgStd := [0x263238, 0xA64242, 0x1F6B5B, 0x8A6200, 0x356D9E, 0x705B97, 0x006C6C, 0x687780]
  fgBrt := [0x52636D, 0xBD5555, 0x2B806D, 0x9B7200, 0x477FAF, 0x806AA6, 0x007F7F, 0x84929A]
  bgStd := [0xEEF2F3, 0xF7E6E5, 0xE5F0EC, 0xF5EEDA, 0xE5EDF5, 0xEEE9F5, 0xE0F1F1, 0xEFF1F2]
  bgBrt := [0xE2E8EA, 0xF1D4D2, 0xD5E8E0, 0xEFE3C1, 0xD4E1EF, 0xE2DAEF, 0xCBE8E7, 0xE2E6E8]

/-- `fg_color`. -/
def fgColor (code : Nat) (pal : Palette) : Option Nat :=
  let brg := if code ≥ 90 then pal.fgBrt else pal.fgStd
  let idx := (if code ≥ 90 then code - 90 else code - 30) % 8
  brg[idx]?

/-- `bg_color`. -/
def bgColor (code : Nat) (pal : Palette) : Option Nat :=
  let brg := if code ≥ 100 then pal.bgBrt else pal.bgStd
  let idx := (if code ≥ 100 then code - 100 else code - 40) % 8
  brg[idx]?

/-- `fg`, `bg` and `bold`; no colour is the default one. -/
structure Style where
  fg : Option Nat := none
  bg : Option Nat := none
  bold : Bool := false
deriving DecidableEq

/-- One part between separators: its first run of digits, or zero. -/
def paramPart (part : List UInt8) : Nat :=
  let isDigit (b : UInt8) : Bool := 48 ≤ b && b ≤ 57
  ((part.dropWhile (! isDigit ·)).takeWhile isDigit).foldl (fun v d => v * 10 + (d.toNat - 48)) 0

/-- `parse_params`. -/
def parseParams (param : List UInt8) : List Nat :=
  if param = [] then [0]
  else ((param.map fun b => if b = 58 then 59 else b).splitOn 59).map paramPart

/-- What one parameter does to the style. -/
def applyParam (pal : Palette) (s : Style) (p : Nat) : Style :=
  if p = 0 then {}
  else if p = 1 then { s with bold := true }
  else if p = 22 then { s with bold := false }
  else if p = 39 then { s with fg := none }
  else if p = 49 then { s with bg := none }
  else if 30 ≤ p ∧ p ≤ 37 ∨ 90 ≤ p ∧ p ≤ 97 then { s with fg := fgColor p pal }
  else if 40 ≤ p ∧ p ≤ 47 ∨ 100 ≤ p ∧ p ≤ 107 then { s with bg := bgColor p pal }
  else s

/-- `apply_sgr`. -/
def applySgr (pal : Palette) (params : List Nat) (s : Style) : Style :=
  params.foldl (applyParam pal) s

/-! ## The parser -/

/-- A byte that ends a control sequence. -/
def isFinal (b : UInt8) : Bool := 0x40 ≤ b && b ≤ 0x7E

/-- `match_csi`, given the bytes behind the bracket: the parameters, the byte that ends them
and what is behind it.  The last byte of the buffer is not looked at. -/
def matchCsi : List UInt8 → Option (List UInt8 × UInt8 × List UInt8)
  | [] => none
  | [_] => none
  | b :: c :: rest =>
    if b < 0x20 || b == 0x7F then none
    else if isFinal b then some ([], b, c :: rest)
    else (matchCsi (c :: rest)).map fun found => (b :: found.1, found.2)

/-- An element of `segments`. -/
structure Segment extends Style where
  text : List UInt8
deriving DecidableEq

/-- The locals of `feed`: the buffer from `i` on, and what stands from `start` to `i`. -/
structure FeedState where
  buf : List UInt8
  pending : List UInt8 := []
  style : Style := {}
  segments : List Segment := []

/-- The segments with what is pending, if anything is. -/
def FeedState.flush (st : FeedState) : List Segment :=
  if st.pending = [] then st.segments
  else st.segments ++ [{ st.style with text := st.pending }]

/-- One round of the loop of `feed`: what it returns are the segments and the residue. -/
def feedRound (pal : Palette) (st : FeedState) :
    Round FeedState (List Segment × List UInt8) :=
  match st.buf with
  | [] => .done (st.flush, [])
  | ch :: rest =>
    if ch ≠ 27 then .next { st with buf := rest, pending := st.pending ++ [ch] }
    else
      match rest with
      | [] => .done (st.flush, [27])
      | c :: csi =>
        if c ≠ 91 then .next { st with buf := rest, pending := st.pending ++ [ch] }
        else
          match matchCsi csi with
          | none => .done (st.flush, st.buf)
          | some (params, term, behind) =>
            .next
              { buf := behind
                segments := st.flush
                style := if term = 109 then applySgr pal (parseParams params) st.style
                  else st.style }

/-- `AnsiParser:feed`, the residue before it given: the segments and the residue behind it.
Every round but the last one takes a byte at least. -/
def feed (palette : Option Palette) (residue text : List UInt8) :
    List Segment × List UInt8 :=
  let pal := palette.getD light
  let buf := residue ++ text
  if buf = [] then ([], [])
  else (run (feedRound pal) (buf.length + 1) { buf := buf }).getD ([], [])

/-! ## Control sequences -/

/-- A byte that `match_csi` passes over. -/
def isPassed (b : UInt8) : Bool := !(b < 0x20 || b == 0x7F) && !isFinal b

theorem final_plain : ∀ {b : UInt8}, isFinal b = true → (b < 0x20 || b == 0x7F) = false := by
  intro b h
  simp only [isFinal, Bool.and_eq_true, decide_eq_true_eq, UInt8.le_iff_toNat_le] at h
  simp only [Bool.or_eq_false_iff, decide_eq_false_iff_not, UInt8.lt_iff_toNat_lt,
    beq_eq_false_iff_ne, ne_eq, ← UInt8.toNat_inj]
  have hlow : (0x40 : UInt8).toNat = 64 := rfl
  have hhigh : (0x7E : UInt8).toNat = 126 := rfl
  have hspace : (0x20 : UInt8).toNat = 32 := rfl
  have hdel : (0x7F : UInt8).toNat = 127 := rfl
  omega

theorem matchCsi_final {b c : UInt8} (h : isFinal b = true) (rest : List UInt8) :
    matchCsi (b :: c :: rest) = some ([], b, c :: rest) := by
  rw [matchCsi, final_plain h, if_neg Bool.false_ne_true, if_pos h]

theorem matchCsi_passed {b c : UInt8} (h : isPassed b = true) (rest : List UInt8) :
    matchCsi (b :: c :: rest) =
      (matchCsi (c :: rest)).map fun found => (b :: found.1, found.2) := by
  simp only [isPassed, Bool.and_eq_true, Bool.not_eq_true'] at h
  rw [matchCsi, h.1, h.2, if_neg Bool.false_ne_true, if_neg Bool.false_ne_true]

/-- A sequence that is found is one of bytes passed over, one that ends it, and something
behind it. -/
theorem matchCsi_iff {l params behind : List UInt8} {term : UInt8} :
    matchCsi l = some (params, term, behind) ↔
      l = params ++ term :: behind ∧ behind ≠ [] ∧ isFinal term = true ∧
        ∀ b ∈ params, isPassed b = true := by
  induction l generalizing params with
  | nil => simp [matchCsi]
  | cons b l ih =>
    cases l with
    | nil =>
      constructor
      · intro h
        cases h
      · rintro ⟨hsplit, hne, -⟩
        have hlen := congrArg List.length hsplit
        have hpos := List.length_pos_iff.mpr hne
        simp only [List.length_cons, List.length_nil, List.length_append] at hlen
        omega
    | cons c rest =>
      by_cases hfinal : isFinal b = true
      · rw [matchCsi_final hfinal]
        constructor
        · intro h
          cases h
          exact ⟨rfl, List.cons_ne_nil _ _, hfinal, by simp⟩
        · rintro ⟨hsplit, -, -, hpassed⟩
          cases params with
          | nil =>
            rw [List.nil_append] at hsplit
            cases hsplit
            rfl
          | cons p params =>
            obtain ⟨rfl, -⟩ := List.cons.inj hsplit
            have hp := hpassed b List.mem_cons_self
            simp [isPassed, hfinal] at hp
      · by_cases hpass : isPassed b = true
        · rw [matchCsi_passed hpass]
          constructor
          · intro h
            obtain ⟨⟨later, found⟩, hfound, heq⟩ := Option.map_eq_some_iff.mp h
            cases heq
            obtain ⟨hsplit, hne, hterm, hpassed⟩ := ih.mp hfound
            refine ⟨by rw [hsplit, List.cons_append], hne, hterm, ?_⟩
            intro d hd
            rcases List.mem_cons.mp hd with rfl | hd
            · exact hpass
            · exact hpassed d hd
          · rintro ⟨hsplit, hne, hterm, hpassed⟩
            cases params with
            | nil =>
              obtain ⟨rfl, -⟩ := List.cons.inj hsplit
              exact absurd hterm hfinal
            | cons p params =>
              obtain ⟨rfl, hlater⟩ := List.cons.inj hsplit
              have hfound := ih.mpr ⟨hlater, hne, hterm, fun d hd => hpassed d (.tail _ hd)⟩
              rw [hfound]
              rfl
        · have hbad : (b < 0x20 || b == 0x7F) = true := by
            by_contra hplain
            rw [Bool.not_eq_true] at hplain hfinal
            exact hpass (by rw [isPassed, hplain, hfinal]; rfl)
          rw [matchCsi, if_pos hbad]
          constructor
          · intro h
            cases h
          · rintro ⟨hsplit, -, hterm, hpassed⟩
            cases params with
            | nil =>
              obtain ⟨rfl, -⟩ := List.cons.inj hsplit
              exact absurd hterm hfinal
            | cons p params =>
              obtain ⟨rfl, -⟩ := List.cons.inj hsplit
              exact absurd (hpassed b List.mem_cons_self) hpass

end Xcom.Receive.Ansi
