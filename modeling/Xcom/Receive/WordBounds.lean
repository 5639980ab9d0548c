import Xcom.Text.Unicode

/-!
# Word bounds of a double click

`word_bounds` of `receive_selection.hpp`: the range of a row that a double click selects.  A
row is cut by the receive window, so that its bytes need not be whole characters.
-/

namespace Xcom.Receive.WordBounds

/-- `Range`. -/
structure Range where
  begin : Nat := 0
  stop : Nat := 0
deriving DecidableEq

/-- `ascii_word_byte`. -/
def asciiWordByte (c : UInt8) : Bool :=
  (48 ≤ c && c ≤ 57) || (65 ≤ c && c ≤ 90) || (97 ≤ c && c ≤ 122) || c == 95

/-- `utf8_sequence_length`. -/
def utf8SequenceLength (lead : UInt8) : Nat :=
  if 0xF0 ≤ lead then 4
  else if 0xE0 ≤ lead then 3
  else if 0xC0 ≤ lead then 2
  else 1

/-- `line[i]`. -/
def byteAt (line : List UInt8) (i : Nat) : UInt8 := line.getD i 0

/-- The loop that walks back to the lead byte. -/
def walkBack (line : List UInt8) : Nat → Nat
  | 0 => 0
  | probe + 1 =>
    if byteAt line (probe + 1) &&& 0xC0 = 0x80 then walkBack line probe else probe + 1

/-- The loop that moves `begin` over word bytes. -/
def wordBegin (line : List UInt8) : Nat → Nat
  | 0 => 0
  | b + 1 => if asciiWordByte (byteAt line b) then wordBegin line b else b + 1

/-- The loop that moves `end` over word bytes, `left` bytes before the end of the row. -/
def wordEnd (line : List UInt8) : Nat → Nat → Nat
  | 0, e => e
  | left + 1, e => if asciiWordByte (byteAt line e) then wordEnd line left (e + 1) else e

/-- `word_bounds`; a row that is no pointer is the empty one. -/
def wordBounds (line : List UInt8) (offset : Nat) : Range :=
  let length := line.length
  if length = 0 then {}
  else
    let offset := if offset > length then length else offset
    let probe := if offset < length then offset else if offset > 0 then offset - 1 else 0
    if byteAt line probe &&& 0x80 ≠ 0 then
      let probe := walkBack line probe
      let sequence := utf8SequenceLength (byteAt line probe)
      let sequence := if sequence > length - probe then 1 else sequence
      { begin := probe, stop := probe + sequence }
    else if asciiWordByte (byteAt line probe) = false then
      { begin := probe, stop := probe + 1 }
    else
      { begin := wordBegin line probe, stop := wordEnd line (length - probe) probe }

/-! ## What a range is to be -/

/-- The byte a click points at: the one at the offset, or the last one. -/
def probed (line : List UInt8) (offset : Nat) : Nat :=
  if offset < line.length then offset else line.length - 1

/-- The range of the word that contains the byte pointed at. -/
structure Law (line : List UInt8) (offset : Nat) (r : Range) : Prop where
  nonempty : r.begin < r.stop
  inside : r.stop ≤ line.length
  contains : r.begin ≤ probed line offset ∧ probed line offset < r.stop
  boundaries : ∀ t, line = Utf8.encode t →
    Utf8.IsBoundary t r.begin ∧ Utf8.IsBoundary t r.stop
  word : asciiWordByte (byteAt line (probed line offset)) = true →
    (∀ i, r.begin ≤ i → i < r.stop → asciiWordByte (byteAt line i) = true) ∧
      (r.begin = 0 ∨ asciiWordByte (byteAt line (r.begin - 1)) = false) ∧
      (r.stop = line.length ∨ asciiWordByte (byteAt line r.stop) = false)

/-- A byte that goes on with a sequence stands in one: the sequence is begun where the bytes
that go on begin, reaches over the byte, and is not cut. -/
def Covered (line : List UInt8) (i : Nat) : Prop :=
  Utf8.isTail (byteAt line i) = false ∨
    ∃ lead ≤ i, (∀ j, lead < j → j ≤ i → Utf8.isTail (byteAt line j) = true) ∧
      (lead = 0 ∨ Utf8.isTail (byteAt line lead) = false) ∧
      i < lead + utf8SequenceLength (byteAt line lead) ∧
      lead + utf8SequenceLength (byteAt line lead) ≤ line.length

/-! ## Bytes -/

/-- One bit of a number. -/
theorem and_bit (n i : Nat) : n &&& 2 ^ i = if n / 2 ^ i % 2 = 1 then 2 ^ i else 0 := by
  rw [Nat.and_two_pow, Nat.testBit_eq_decide_div_mod_eq]
  split_ifs with hone
  · rw [decide_eq_true hone, Bool.toNat_true, Nat.one_mul]
  · rw [decide_eq_false hone, Bool.toNat_false, Nat.zero_mul]

theorem high_iff (b : UInt8) : b &&& 0x80 ≠ 0 ↔ 0x80 ≤ b := by
  have hlt := b.toNat_lt
  have hbit : (b &&& 0x80).toNat = if b.toNat / 2 ^ 7 % 2 = 1 then 2 ^ 7 else 0 :=
    (UInt8.toNat_and b 0x80).trans (and_bit b.toNat 7)
  rw [Ne, ← UInt8.toNat_inj, hbit, UInt8.le_iff_toNat_le, UInt8.toNat_zero]
  change _ ↔ 128 ≤ b.toNat
  split_ifs
  · exact iff_of_true (by decide) (by omega)
  · exact iff_of_false (by decide) (by omega)

theorem tail_iff (b : UInt8) : b &&& 0xC0 = 0x80 ↔ Utf8.isTail b = true := by
  have hlt := b.toNat_lt
  have hbits : (b &&& 0xC0).toNat = (if b.toNat / 2 ^ 7 % 2 = 1 then 2 ^ 7 else 0) |||
      if b.toNat / 2 ^ 6 % 2 = 1 then 2 ^ 6 else 0 := by
    rw [← and_bit, ← and_bit, ← Nat.and_or_distrib_left]
    exact UInt8.toNat_and b 0xC0
  rw [← UInt8.toNat_inj, hbits, Utf8.isTail_iff]
  change _ = 128 ↔ _
  split_ifs
  · exact iff_of_false (by decide) (by omega)
  · exact iff_of_true (by decide) (by omega)
  · exact iff_of_false (by decide) (by omega)
  · exact iff_of_false (by decide) (by omega)

theorem utf8SequenceLength_eq (b : UInt8) : utf8SequenceLength b = Utf8.leadLength b := rfl

theorem high_of_tail (b : UInt8) (h : Utf8.isTail b = true) : 0x80 ≤ b :=
  UInt8.le_iff_toNat_le.mpr ((Utf8.isTail_iff b).mp h).1

theorem length_of_tail (b : UInt8) (h : Utf8.isTail b = true) : utf8SequenceLength b = 1 := by
  obtain ⟨-, hlt⟩ := (Utf8.isTail_iff b).mp h
  rw [utf8SequenceLength_eq, Utf8.leadLength_eq]
  split_ifs <;> omega

theorem length_of_low (b : UInt8) (h : ¬ 0x80 ≤ b) : Utf8.leadLength b = 1 :=
  (Utf8.lead_one (UInt8.le_iff_toNat_le.mpr
    (Nat.le_of_lt_succ (Nat.lt_of_not_le fun hle => h (UInt8.le_iff_toNat_le.mpr hle))))).2

theorem low_of_word (b : UInt8) (h : asciiWordByte b = true) : ¬ 0x80 ≤ b := by
  have hword : b.toNat < 128 := by
    simp only [asciiWordByte, Bool.or_eq_true, Bool.and_eq_true, decide_eq_true_eq,
      UInt8.le_iff_toNat_le, beq_iff_eq] at h
    rcases h with ((⟨-, hle⟩ | ⟨-, hle⟩) | ⟨-, hle⟩) | rfl
    · exact Nat.lt_of_le_of_lt hle (by decide)
    · exact Nat.lt_of_le_of_lt hle (by decide)
    · exact Nat.lt_of_le_of_lt hle (by decide)
    · decide
  exact fun hle => Nat.not_le_of_lt hword (UInt8.le_iff_toNat_le.mp hle)

theorem utf8SequenceLength_pos (b : UInt8) : 0 < utf8SequenceLength b := by
  unfold utf8SequenceLength
  split
  · decide
  · split
    · decide
    · split <;> decide

/-! ## The loops -/

variable {line : List UInt8}

theorem walkBack_spec (line : List UInt8) (i : Nat) : walkBack line i ≤ i ∧
    (∀ j, walkBack line i < j → j ≤ i → Utf8.isTail (byteAt line j) = true) ∧
    (walkBack line i = 0 ∨ Utf8.isTail (byteAt line (walkBack line i)) = false) := by
  induction i with
  | zero => exact ⟨Nat.le_refl 0, fun j hj hle => absurd hj (by simp [walkBack]; omega), .inl rfl⟩
  | succ i ih =>
    by_cases htail : byteAt line (i + 1) &&& 0xC0 = 0x80
    · obtain ⟨hle, htails, hlead⟩ := ih
      rw [walkBack, if_pos htail]
      refine ⟨Nat.le_succ_of_le hle, ?_, hlead⟩
      intro j hj hji
      by_cases hlast : j = i + 1
      · rw [hlast]
        exact (tail_iff _).mp htail
      · exact htails j hj (by omega)
    · rw [walkBack, if_neg htail]
      refine ⟨Nat.le_refl _, fun j hj hji => absurd hj (by omega), .inr ?_⟩
      exact Bool.eq_false_iff.mpr fun h => htail ((tail_iff _).mpr h)

/-- There is one byte that the bytes that go on are behind. -/
theorem walkBack_eq {i lead : Nat} (hle : lead ≤ i)
    (htails : ∀ j, lead < j → j ≤ i → Utf8.isTail (byteAt line j) = true)
    (hlead : lead = 0 ∨ Utf8.isTail (byteAt line lead) = false) : walkBack line i = lead := by
  obtain ⟨hle', htails', hlead'⟩ := walkBack_spec line i
  rcases Nat.lt_trichotomy (walkBack line i) lead with hlt | heq | hgt
  · have htail := htails' lead hlt hle
    rcases hlead with rfl | hlead
    · exact absurd hlt (Nat.not_lt_zero _)
    · exact absurd htail (by simp [hlead])
  · exact heq
  · have htail := htails _ hgt hle'
    rcases hlead' with hzero | hlead'
    · exact absurd hgt (by omega)
    · exact absurd htail (by simp [hlead'])

theorem covered_iff (i : Nat) : Covered line i ↔
    Utf8.isTail (byteAt line i) = false ∨
      i < walkBack line i + utf8SequenceLength (byteAt line (walkBack line i)) ∧
        walkBack line i + utf8SequenceLength (byteAt line (walkBack line i)) ≤ line.length := by
  constructor
  · rintro (htail | ⟨lead, hle, htails, hlead, hover, hend⟩)
    · exact .inl htail
    · rw [walkBack_eq hle htails hlead]
      exact .inr ⟨hover, hend⟩
  · rintro (htail | ⟨hover, hend⟩)
    · exact .inl htail
    · obtain ⟨hle, htails, hlead⟩ := walkBack_spec line i
      exact .inr ⟨walkBack line i, hle, htails, hlead, hover, hend⟩

theorem wordBegin_spec (line : List UInt8) (b : Nat) : wordBegin line b ≤ b ∧
    (∀ i, wordBegin line b ≤ i → i < b → asciiWordByte (byteAt line i) = true) ∧
    (wordBegin line b = 0 ∨ asciiWordByte (byteAt line (wordBegin line b - 1)) = false) := by
  induction b with
  | zero => exact ⟨Nat.le_refl 0, fun i _ hi => absurd hi (Nat.not_lt_zero i), .inl rfl⟩
  | succ b ih =>
    by_cases hword : asciiWordByte (byteAt line b) = true
    · obtain ⟨hle, hwords, hfirst⟩ := ih
      rw [wordBegin, if_pos hword]
      refine ⟨Nat.le_succ_of_le hle, ?_, hfirst⟩
      intro i hi hib
      by_cases hlast : i = b
      · rw [hlast]
        exact hword
      · exact hwords i hi (by omega)
    · rw [wordBegin, if_neg hword]
      refine ⟨Nat.le_refl _, fun i hi hib => absurd hi (by omega), .inr ?_⟩
      simpa using hword

theorem wordEnd_spec (line : List UInt8) (left e : Nat) :
    e ≤ wordEnd line left e ∧ wordEnd line left e ≤ e + left ∧
      (∀ i, e ≤ i → i < wordEnd line left e → asciiWordByte (byteAt line i) = true) ∧
      (wordEnd line left e = e + left ∨
        asciiWordByte (byteAt line (wordEnd line left e)) = false) := by
  induction left generalizing e with
  | zero =>
    exact ⟨Nat.le_refl e, Nat.le_refl e, fun i hi hie => absurd hie (by simp [wordEnd]; omega),
      .inl rfl⟩
  | succ left ih =>
    by_cases hword : asciiWordByte (byteAt line e) = true
    · obtain ⟨hfrom, hto, hwords, hlast⟩ := ih (e + 1)
      rw [wordEnd, if_pos hword]
      refine ⟨by omega, by omega, ?_, ?_⟩
      · intro i hi hie
        by_cases hfirst : i = e
        · rw [hfirst]
          exact hword
        · exact hwords i (by omega) hie
      · rcases hlast with hlast | hlast
        · exact .inl (by omega)
        · exact .inr hlast
    · rw [wordEnd, if_neg hword]
      refine ⟨Nat.le_refl e, by omega, fun i hi hie => absurd hie (by omega), .inr ?_⟩
      simpa using hword

/-- The word begins and ends on word bytes. -/
theorem wordEnd_pos {left e : Nat} (hleft : 0 < left)
    (hword : asciiWordByte (byteAt line e) = true) : e < wordEnd line left e := by
  obtain ⟨left, rfl⟩ := Nat.exists_eq_succ_of_ne_zero (Nat.pos_iff_ne_zero.mp hleft)
  rw [wordEnd, if_pos hword]
  exact (wordEnd_spec line left (e + 1)).1

/-! ## Rows of whole characters -/

/-- The lead byte and the tails of a character within a text. -/
theorem char_bytes {t u v : List Char} {c : Char} (ht : t = u ++ c :: v) {lead : UInt8}
    {tails : List UInt8} (hc : String.utf8EncodeChar c = lead :: tails) :
    byteAt (Utf8.encode t) (Utf8.encode u).length = lead ∧
      (∀ j, (Utf8.encode u).length < j → j < (Utf8.encode u).length + (tails.length + 1) →
        byteAt (Utf8.encode t) j ∈ tails) ∧
      (Utf8.encode u).length + (tails.length + 1) ≤ (Utf8.encode t).length := by
  have hbytes : Utf8.encode t = Utf8.encode u ++ (lead :: (tails ++ Utf8.encode v)) := by
    rw [ht, Utf8.encode_append, Utf8.encode_cons, hc, List.cons_append]
  refine ⟨?_, ?_, ?_⟩
  · simp [byteAt, hbytes]
  · intro j hj hlt
    obtain ⟨k, rfl⟩ := Nat.exists_eq_add_of_lt hj
    have hk : k < tails.length := by omega
    have hindex : (Utf8.encode u).length + k + 1 = (Utf8.encode u).length + (k + 1) := by omega
    have hbyte : byteAt (Utf8.encode t) ((Utf8.encode u).length + k + 1) = tails[k] := by
      simp [byteAt, hbytes, hindex, List.getElem?_append_right, List.getElem?_append_left hk, hk]
    rw [hbyte]
    exact List.getElem_mem hk
  · rw [hbytes, List.length_append, List.length_cons, List.length_append]
    omega

/-- In a row of whole characters the bytes walked over are those of one. -/
theorem boundary_glyph {t : List Char} {i : Nat} (hi : i < (Utf8.encode t).length) :
    let lead := walkBack (Utf8.encode t) i
    let sequence := utf8SequenceLength (byteAt (Utf8.encode t) lead)
    i < lead + sequence ∧ lead + sequence ≤ (Utf8.encode t).length ∧
      Utf8.IsBoundary t lead ∧ Utf8.IsBoundary t (lead + sequence) := by
  obtain ⟨u, c, v, ht, hfrom, hto⟩ := Utf8.locate hi
  obtain ⟨lead, tails, hc, hlead, hlen, htails⟩ := Utf8.encodeChar_shape c
  obtain ⟨hbyte, hrest, hend⟩ := char_bytes ht hc
  rw [hc, List.length_cons] at hto
  have hwalk : walkBack (Utf8.encode t) i = (Utf8.encode u).length := by
    apply walkBack_eq hfrom
    · intro j hj hji
      exact htails _ (hrest j hj (by omega))
    · exact .inr (by rw [hbyte]; exact hlead)
  have hseq : utf8SequenceLength lead = tails.length + 1 :=
    (utf8SequenceLength_eq lead).trans hlen.symm
  simp only [hwalk, hbyte, hseq]
  refine ⟨hto, hend, ⟨u, ?_, rfl⟩, ⟨u ++ [c], ?_, ?_⟩⟩
  · rw [ht]
    exact List.prefix_append u (c :: v)
  · rw [ht, List.append_cons u c v]
    exact List.prefix_append (u ++ [c]) v
  · simp [hc, Utf8.encode_cons]

/-- An ASCII byte is a character. -/
theorem boundary_ascii {t : List Char} {i : Nat} (hi : i < (Utf8.encode t).length)
    (hlow : ¬ 0x80 ≤ byteAt (Utf8.encode t) i) :
    Utf8.IsBoundary t i ∧ Utf8.IsBoundary t (i + 1) := by
  have htail : Utf8.isTail (byteAt (Utf8.encode t) i) = false :=
    Bool.eq_false_iff.mpr fun h => hlow (high_of_tail _ h)
  have hwalk : walkBack (Utf8.encode t) i = i :=
    walkBack_eq (Nat.le_refl i) (fun j hj hji => absurd hji (by omega)) (.inr htail)
  have hseq : utf8SequenceLength (byteAt (Utf8.encode t) i) = 1 :=
    (utf8SequenceLength_eq _).trans (length_of_low _ hlow)
  have hglyph := boundary_glyph hi
  simp only [hwalk, hseq] at hglyph
  exact hglyph.2.2

/-! ## The law -/

variable {offset : Nat}

theorem probed_lt (h : line ≠ []) (offset : Nat) : probed line offset < line.length := by
  have hpos : 0 < line.length := List.length_pos_iff.mpr h
  unfold probed
  split <;> omega

/-- The three kinds of bytes a click can point at. -/
theorem wordBounds_eq (h : line ≠ []) (offset : Nat) : wordBounds line offset =
    if 0x80 ≤ byteAt line (probed line offset) then
      let lead := walkBack line (probed line offset)
      let sequence := utf8SequenceLength (byteAt line lead)
      { begin := lead, stop := lead + if sequence > line.length - lead then 1 else sequence }
    else if asciiWordByte (byteAt line (probed line offset)) = false then
      { begin := probed line offset, stop := probed line offset + 1 }
    else
      { begin := wordBegin line (probed line offset)
        stop := wordEnd line (line.length - probed line offset) (probed line offset) } := by
  have hlen : 0 < line.length := List.length_pos_iff.mpr h
  have hprobe : (if (if offset > line.length then line.length else offset) < line.length then
      (if offset > line.length then line.length else offset)
    else if (if offset > line.length then line.length else offset) > 0 then
      (if offset > line.length then line.length else offset) - 1
    else 0) = probed line offset := by
    by_cases hin : offset < line.length
    · have hover : ¬ offset > line.length := by omega
      rw [probed, if_neg hover, if_pos hin, if_pos hin]
    · have hclamp : (if offset > line.length then line.length else offset) = line.length := by
        split <;> omega
      rw [probed, hclamp, if_neg (Nat.lt_irrefl _), if_pos hlen, if_neg hin]
  simp only [wordBounds, if_neg (Nat.ne_of_gt hlen), hprobe, high_iff]

/-- A byte that is not ASCII. -/
theorem law_glyph (h : line ≠ []) (hhigh : 0x80 ≤ byteAt line (probed line offset)) :
    Law line offset (wordBounds line offset) ↔ Covered line (probed line offset) := by
  have hlt := probed_lt h offset
  obtain ⟨hle, -, hlead⟩ := walkBack_spec line (probed line offset)
  have hpos := utf8SequenceLength_pos (byteAt line (walkBack line (probed line offset)))
  rw [wordBounds_eq h, if_pos hhigh, covered_iff]
  dsimp only
  constructor
  · intro hlaw
    by_cases htail : Utf8.isTail (byteAt line (probed line offset)) = false
    · exact .inl htail
    · have hover := hlaw.contains.2
      split at hover
      · -- One byte is left, which is the one pointed at: it goes on with nothing.
        rename_i hcut
        have hself : walkBack line (probed line offset) = probed line offset := by
          dsimp only at hover
          omega
        rw [hself, length_of_tail _ (Bool.not_eq_false _ ▸ htail)] at hcut
        omega
      · exact .inr ⟨hover, by omega⟩
  · intro hcovered
    have hover : probed line offset < walkBack line (probed line offset) +
        if utf8SequenceLength (byteAt line (walkBack line (probed line offset))) >
          line.length - walkBack line (probed line offset) then 1
        else utf8SequenceLength (byteAt line (walkBack line (probed line offset))) := by
      rcases hcovered with htail | ⟨hover, hend⟩
      · have hself : walkBack line (probed line offset) = probed line offset :=
          walkBack_eq (Nat.le_refl _) (fun j hj hji => absurd hji (by omega)) (.inr htail)
        rw [hself] at hpos ⊢
        split <;> omega
      · split <;> omega
    refine ⟨by dsimp only; omega, ?_, ⟨hle, hover⟩, ?_, ?_⟩
    · dsimp only
      split <;> omega
    · rintro t rfl
      obtain ⟨-, hend, hboundaries⟩ := boundary_glyph hlt
      rw [if_neg (by omega)]
      exact hboundaries
    · intro hword
      exact absurd hhigh (low_of_word _ hword)

/-- An ASCII byte that is none of a word is a range of its own. -/
theorem law_other (h : line ≠ []) (hlow : ¬ 0x80 ≤ byteAt line (probed line offset))
    (hother : asciiWordByte (byteAt line (probed line offset)) = false) :
    Law line offset (wordBounds line offset) := by
  have hlt := probed_lt h offset
  rw [wordBounds_eq h, if_neg hlow, if_pos hother]
  refine ⟨Nat.lt_succ_self _, hlt, ⟨Nat.le_refl _, Nat.lt_succ_self _⟩, ?_, ?_⟩
  · rintro t rfl
    exact boundary_ascii hlt hlow
  · intro hword
    rw [hother] at hword
    cases hword

/-- A word byte takes the whole run. -/
theorem law_word (h : line ≠ [])
    (hword : asciiWordByte (byteAt line (probed line offset)) = true) :
    Law line offset (wordBounds line offset) := by
  have hlt := probed_lt h offset
  have hlow := low_of_word _ hword
  obtain ⟨hle, hbefore, hfirst⟩ := wordBegin_spec line (probed line offset)
  obtain ⟨-, hend, hbehind, hlast⟩ :=
    wordEnd_spec line (line.length - probed line offset) (probed line offset)
  have hpos : probed line offset <
      wordEnd line (line.length - probed line offset) (probed line offset) :=
    wordEnd_pos (by omega) hword
  rw [wordBounds_eq h, if_neg hlow, if_neg (by simp [hword])]
  have hrun : ∀ i, wordBegin line (probed line offset) ≤ i →
      i < wordEnd line (line.length - probed line offset) (probed line offset) →
      asciiWordByte (byteAt line i) = true := by
    intro i hi hie
    by_cases hib : i < probed line offset
    · exact hbefore i hi hib
    · exact hbehind i (by omega) hie
  refine ⟨by dsimp only; omega, by dsimp only; omega, ⟨hle, hpos⟩, ?_, fun _ => ⟨hrun, hfirst, ?_⟩⟩
  · rintro t rfl
    constructor
    · have hbyte := hrun _ (Nat.le_refl _) (by omega)
      exact (boundary_ascii (by omega) (low_of_word _ hbyte)).1
    · have hbyte := hrun _ (Nat.le_sub_one_of_lt (by omega))
        (Nat.sub_one_lt (Nat.ne_of_gt (Nat.zero_lt_of_lt hpos)))
      have hboundary := (boundary_ascii (by omega) (low_of_word _ hbyte)).2
      rwa [Nat.sub_add_cancel (by omega)] at hboundary
  · rcases hlast with hlast | hlast
    · exact .inl (hlast.trans (by omega))
    · exact .inr hlast

/-- An ASCII byte is always selected right. -/
theorem law_low (h : line ≠ []) (hlow : ¬ 0x80 ≤ byteAt line (probed line offset)) :
    Law line offset (wordBounds line offset) := by
  by_cases hword : asciiWordByte (byteAt line (probed line offset)) = true
  · exact law_word h hword
  · exact law_other h hlow (Bool.not_eq_true _ ▸ hword)

/-- In a row of whole characters the range is right for every offset. -/
theorem law_encode {t : List Char} (h : Utf8.encode t ≠ []) (offset : Nat) :
    Law (Utf8.encode t) offset (wordBounds (Utf8.encode t) offset) := by
  by_cases hhigh : 0x80 ≤ byteAt (Utf8.encode t) (probed (Utf8.encode t) offset)
  · obtain ⟨hover, hend, -⟩ := boundary_glyph (probed_lt h offset)
    exact (law_glyph h hhigh).mpr ((covered_iff _).mpr (.inr ⟨hover, hend⟩))
  · exact law_low h hhigh

/-- The range is right exactly where the byte pointed at stands in a sequence that is whole, or
does not go on with one. -/
theorem word_bounds_iff (line : List UInt8) (offset : Nat) (h : line ≠ []) :
    Law line offset (wordBounds line offset) ↔ Covered line (probed line offset) := by
  by_cases hhigh : 0x80 ≤ byteAt line (probed line offset)
  · exact law_glyph h hhigh
  · have htail : Utf8.isTail (byteAt line (probed line offset)) = false :=
      Bool.eq_false_iff.mpr fun htail => hhigh (high_of_tail _ htail)
    exact ⟨fun _ => .inl htail, fun _ => law_low h hhigh⟩

/-- A word of four bytes that a blank follows. -/
theorem word_bounds_iff_word : [120, 99, 111, 109, 32] ≠ [] ∧
    (Law [120, 99, 111, 109, 32] 2 (wordBounds [120, 99, 111, 109, 32] 2) ↔
      Covered [120, 99, 111, 109, 32] (probed [120, 99, 111, 109, 32] 2)) :=
  ⟨List.cons_ne_nil _ _, word_bounds_iff _ 2 (List.cons_ne_nil _ _)⟩

example : wordBounds [120, 99, 111, 109, 32] 2 = { begin := 0, stop := 4 } := by decide

/-- A row that the receive window cut within its last character: a click on the second byte
that is left of it selects the first one alone. -/
theorem word_bounds_cut :
    ¬ Law [97, 98, 0xE6, 0xB8] 3 (wordBounds [97, 98, 0xE6, 0xB8] 3) := by
  have hrange : wordBounds [97, 98, 0xE6, 0xB8] 3 = { begin := 2, stop := 3 } := by decide
  intro hlaw
  have hover := hlaw.contains.2
  rw [hrange] at hover
  revert hover
  decide

end Xcom.Receive.WordBounds
