import Xcom.Text.Numeral
import Xcom.Text.Shapes
import Xcom.Receive.Lines

/-!
# Text copied without its stamps

`receive_copy.lua`: the stamps of the receive area are erased from copied text by their
shape, wherever they stand.
-/

namespace Xcom.Receive

/-! ## The stamp written -/

/-- A local time of day; a second may be a leap second. -/
structure Clock where
  hour : Fin 24
  min : Fin 60
  sec : Fin 62
  deriving DecidableEq, Repr

/-- `%0wd` of `string.format`. -/
def zeroPadded (width n : Nat) : List UInt8 :=
  (Numeral.padded 10 width n).map fun d => 0x30 + UInt8.ofNat d

/-- `os.date("%H:%M:%S")`. -/
def Clock.date (c : Clock) : List UInt8 :=
  zeroPadded 2 c.hour ++ 0x3A :: zeroPadded 2 c.min ++ 0x3A :: zeroPadded 2 c.sec

/-- `rx_timestamp_prefix`: the local time of a wall time in milliseconds, whose zone is that
of `localtime`. -/
def rxTimestampPrefix (localtime : Int → Clock) (wallMs : Int) : List UInt8 :=
  0x5B :: (localtime (wallMs / 1000)).date ++ 0x2E :: zeroPadded 3 (wallMs % 1000).toNat ++
    [0x5D, 0x20]

/-! ## The stamp erased -/

/-- `%d` of a Lua pattern. -/
def isDigitByte (c : UInt8) : Bool := 0x30 ≤ c && c ≤ 0x39

/-- The single characters of a Lua pattern: `%d` is a digit, any other character behind a
`%` is itself, as is one without. -/
def patternItems : List UInt8 → List (UInt8 → Bool)
  | 0x25 :: c :: rest => (if c = 0x64 then isDigitByte else (· == c)) :: patternItems rest
  | c :: rest => (· == c) :: patternItems rest
  | [] => []

/-- `TIMESTAMP_PREFIX_PATTERN`: `%[%d%d:%d%d:%d%d%.%d%d%d%] `. -/
def timestampPrefixPattern : List UInt8 :=
  [0x25, 0x5B, 0x25, 0x64, 0x25, 0x64, 0x3A, 0x25, 0x64, 0x25, 0x64, 0x3A, 0x25, 0x64,
    0x25, 0x64, 0x25, 0x2E, 0x25, 0x64, 0x25, 0x64, 0x25, 0x64, 0x25, 0x5D, 0x20]

/-- The classes of the characters behind the opening bracket of a stamp. -/
def stampRest : List (UInt8 → Bool) :=
  [isDigitByte, isDigitByte, (· == 0x3A), isDigitByte, isDigitByte, (· == 0x3A), isDigitByte,
    isDigitByte, (· == 0x2E), isDigitByte, isDigitByte, isDigitByte, (· == 0x5D), (· == 0x20)]

/-- `strip_timestamps` of a string: `gsub` of the pattern with nothing. -/
def stripTimestamps (text : List UInt8) : List UInt8 :=
  if text = [] then text else Shapes.erase (patternItems timestampPrefixPattern) 0 text

/-- A text holds a token of the shape of a stamp. -/
def hasStampToken (text : List UInt8) : Bool :=
  Shapes.contains (patternItems timestampPrefixPattern) text

theorem patternItems_timestamp :
    patternItems timestampPrefixPattern = (· == 0x5B) :: stampRest := rfl

/-- No bracket opens within a stamp. -/
theorem headed_stamp : Shapes.Headed (· == (0x5B : UInt8)) stampRest := by
  intro q hq a ha
  obtain rfl : a = 0x5B := by simpa using ha
  simp only [stampRest, List.mem_cons, List.not_mem_nil, or_false] at hq
  rcases hq with rfl | rfl | rfl | rfl | rfl | rfl | rfl | rfl | rfl | rfl | rfl | rfl |
    rfl | rfl <;> decide

theorem stripTimestamps_eq (text : List UInt8) :
    stripTimestamps text = Shapes.erase (patternItems timestampPrefixPattern) 0 text := by
  unfold stripTimestamps
  split
  · rename_i hempty
    rw [hempty]
    rfl
  · rfl

/-! ## A written stamp is a token -/

theorem isDigitByte_digit {d : Nat} (h : d < 10) :
    isDigitByte (0x30 + UInt8.ofNat d) = true := by
  interval_cases d <;> rfl

theorem zeroPadded_two {n : Nat} (h : n < 100) :
    ∃ a b, zeroPadded 2 n = [a, b] ∧ isDigitByte a = true ∧ isDigitByte b = true := by
  have hlen : (Numeral.padded 10 2 n).length = 2 := Numeral.length_padded_of_lt (by decide) h
  obtain ⟨d, e, hde⟩ := List.length_eq_two.mp hlen
  have hdigit : ∀ x ∈ Numeral.padded 10 2 n, x < 10 :=
    fun x hx => Numeral.padded_lt (by decide) hx
  refine ⟨0x30 + UInt8.ofNat d, 0x30 + UInt8.ofNat e, ?_, ?_, ?_⟩
  · rw [zeroPadded, hde]
    rfl
  · exact isDigitByte_digit (hdigit d (by simp [hde]))
  · exact isDigitByte_digit (hdigit e (by simp [hde]))

theorem zeroPadded_three {n : Nat} (h : n < 1000) :
    ∃ a b c, zeroPadded 3 n = [a, b, c] ∧ isDigitByte a = true ∧ isDigitByte b = true ∧
      isDigitByte c = true := by
  have hlen : (Numeral.padded 10 3 n).length = 3 := Numeral.length_padded_of_lt (by decide) h
  obtain ⟨d, e, f, hdef⟩ := List.length_eq_three.mp hlen
  have hdigit : ∀ x ∈ Numeral.padded 10 3 n, x < 10 :=
    fun x hx => Numeral.padded_lt (by decide) hx
  refine ⟨0x30 + UInt8.ofNat d, 0x30 + UInt8.ofNat e, 0x30 + UInt8.ofNat f, ?_, ?_, ?_, ?_⟩
  · rw [zeroPadded, hdef]
    rfl
  · exact isDigitByte_digit (hdigit d (by simp [hdef]))
  · exact isDigitByte_digit (hdigit e (by simp [hdef]))
  · exact isDigitByte_digit (hdigit f (by simp [hdef]))

theorem isToken_rxTimestampPrefix (localtime : Int → Clock) (wallMs : Int) :
    Shapes.isToken ((· == 0x5B) :: stampRest) (rxTimestampPrefix localtime wallMs) = true := by
  obtain ⟨h₁, h₂, hhour, hh₁, hh₂⟩ := zeroPadded_two
    (n := (localtime (wallMs / 1000)).hour) (by omega)
  obtain ⟨m₁, m₂, hmin, hm₁, hm₂⟩ := zeroPadded_two
    (n := (localtime (wallMs / 1000)).min) (by omega)
  obtain ⟨s₁, s₂, hsec, hs₁, hs₂⟩ := zeroPadded_two
    (n := (localtime (wallMs / 1000)).sec) (by omega)
  obtain ⟨x, y, z, hms, hx, hy, hz⟩ := zeroPadded_three
    (n := (wallMs % 1000).toNat) (by omega)
  simp [rxTimestampPrefix, Clock.date, hhour, hmin, hsec, hms, Shapes.isToken, Shapes.fits,
    stampRest, hh₁, hh₂, hm₁, hm₂, hs₁, hs₂, hx, hy, hz]

/-! ## Stripping undoes stamping -/

section Strip

variable (localtime : Int → Clock)

theorem erase_stamps {pieces : List (Int × List UInt8)}
    (hclean : ∀ piece ∈ pieces, hasStampToken piece.2 = false) :
    Shapes.erase ((· == 0x5B) :: stampRest) 0
        (pieces.flatMap fun piece => rxTimestampPrefix localtime piece.1 ++ piece.2) =
      pieces.flatMap Prod.snd := by
  have hwritten : ∀ written ∈ pieces.map fun piece =>
        (rxTimestampPrefix localtime piece.1, piece.2),
      Shapes.isToken ((· == 0x5B) :: stampRest) written.1 = true ∧
        Shapes.contains ((· == 0x5B) :: stampRest) written.2 = false := by
    intro written hmem
    obtain ⟨piece, hpiece, rfl⟩ := List.mem_map.mp hmem
    exact ⟨isToken_rxTimestampPrefix localtime piece.1, hclean piece hpiece⟩
  have herase := Shapes.erase_written headed_stamp hwritten
  rw [List.flatMap_map, List.flatMap_map] at herase
  exact herase

/-- Stamped texts are given back, also where a stamp stands within a line and where the
text before it ends like the beginning of one. -/
theorem strip_stamped {pieces : List (Int × List UInt8)}
    (hclean : ∀ piece ∈ pieces, hasStampToken piece.2 = false) :
    stripTimestamps
        (pieces.flatMap fun piece => rxTimestampPrefix localtime piece.1 ++ piece.2) =
      pieces.flatMap Prod.snd := by
  rw [stripTimestamps_eq, patternItems_timestamp]
  exact erase_stamps localtime hclean

/-- Midnight at every time. -/
def midnight : Clock := ⟨0, 0, 0⟩

/-- A text that ends within what looks like a stamp, and the rest of it behind the next
stamp: `[12:34:56.7` and `89] x`. -/
def splitPieces : List (Int × List UInt8) :=
  [(5, [0x5B, 0x31, 0x32, 0x3A, 0x33, 0x34, 0x3A, 0x35, 0x36, 0x2E, 0x37]),
    (1500, [0x38, 0x39, 0x5D, 0x20, 0x78])]

theorem strip_stamped_split :
    stripTimestamps (splitPieces.flatMap fun piece =>
        rxTimestampPrefix (fun _ => midnight) piece.1 ++ piece.2) =
      [0x5B, 0x31, 0x32, 0x3A, 0x33, 0x34, 0x3A, 0x35, 0x36, 0x2E, 0x37, 0x38, 0x39, 0x5D,
        0x20, 0x78] :=
  strip_stamped (fun _ => midnight)
    (List.forall_mem_cons.mpr ⟨by decide, List.forall_mem_singleton.mpr (by decide)⟩)

/-- One text behind the timestamp stage, stamped or not. -/
theorem strip_stampRxText {cfg : RxConfig} (hcfg : cfg.timestampPrefix =
    rxTimestampPrefix localtime) (env : Env) (s : RxWindow) {out : List UInt8}
    (hclean : hasStampToken out = false) :
    stripTimestamps (s.stampRxText cfg env out).1 = out := by
  have hnone : Shapes.erase ((· == 0x5B) :: stampRest) 0 out = out := by
    simpa using Shapes.erase_clean_all headed_stamp hclean
  rw [stripTimestamps_eq, patternItems_timestamp]
  unfold RxWindow.stampRxText
  by_cases hstamp : s.rxSegmentStampPending = true ∧ s.opts.timestamp = true
  · rw [if_pos hstamp.1, if_pos hstamp.2, hcfg]
    have hpiece : ∀ piece ∈ [(s.segmentWall.getD env.wallMs, out)],
        hasStampToken piece.2 = false := List.forall_mem_singleton.mpr hclean
    simpa using erase_stamps localtime hpiece
  · by_cases hpending : s.rxSegmentStampPending = true
    · rw [if_pos hpending, if_neg fun hon => hstamp ⟨hpending, hon⟩]
      exact hnone
    · rw [if_neg hpending]
      exact hnone

end Strip

end Xcom.Receive
