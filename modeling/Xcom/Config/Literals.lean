import Xcom.Config.Ini

/-!
# Values read back

The text of a boolean, of an integer of up to 14 digits, and of any byte string is read
back as that value.
-/

namespace Xcom.Config

/-! ## Blanks -/

theorem trim_space (s : Bytes) : trim (0x20 :: s) = trim s := by
  rw [trim, List.dropWhile_cons, if_pos (by decide)]
  rfl

/-- A text that neither begins nor ends with a blank. -/
theorem trim_eq_self {s : Bytes} (hhead : ∀ c, s.head? = some c → isSpace c = false)
    (hlast : ∀ c, s.getLast? = some c → isSpace c = false) : trim s = s := by
  have hfront : s.dropWhile isSpace = s := by
    cases s with
    | nil => rfl
    | cons c s => rw [List.dropWhile_cons, if_neg (by simp [hhead c rfl])]
  rw [trim, hfront, List.rdropWhile_eq_self_iff]
  intro hne
  rw [hlast (s.getLast hne) (List.getLast?_eq_some_getLast hne)]
  decide

theorem trim_length (s : Bytes) : (trim s).length ≤ (s.dropWhile isSpace).length :=
  (List.rdropWhile_prefix isSpace (s.dropWhile isSpace)).length_le

/-- A trimmed text begins with no blank. -/
theorem trimmed_dropWhile {s : Bytes} (h : trim s = s) : s.dropWhile isSpace = s := by
  have hlen := trim_length s
  rw [h] at hlen
  exact (List.dropWhile_suffix isSpace).eq_of_length_le hlen

theorem trimmed_head {s : Bytes} (h : trim s = s) {c : UInt8} (hc : s.head? = some c) :
    isSpace c = false := by
  have hdrop := trimmed_dropWhile h
  cases s with
  | nil => cases hc
  | cons d s =>
    obtain rfl := Option.some.inj hc
    rw [List.dropWhile_cons] at hdrop
    cases hspace : isSpace d with
    | false => rfl
    | true =>
      rw [if_pos hspace] at hdrop
      have hlen := (List.dropWhile_suffix (l := s) isSpace).length_le
      rw [hdrop, List.length_cons] at hlen
      omega

theorem trim_append_space {s : Bytes} (h : trim s = s) (hne : s ≠ []) :
    trim (s ++ [0x20]) = s := by
  obtain ⟨c, s, rfl⟩ := List.exists_cons_of_ne_nil hne
  have hc := trimmed_head h (List.head?_cons)
  have hdrop := trimmed_dropWhile h
  have hfront : ((c :: s) ++ [0x20]).dropWhile isSpace = (c :: s) ++ [0x20] := by
    rw [List.cons_append, List.dropWhile_cons, if_neg (by simp [hc])]
  rw [trim, hfront, List.rdropWhile_concat_pos isSpace _ _ (by decide)]
  rw [trim, hdrop] at h
  exact h

/-! ## Quoted literals -/

theorem escapeString_cons (c : UInt8) (s : Bytes) :
    escapeString (c :: s) = escapeString [c] ++ escapeString s := by
  simp [escapeString]

/-- An escaped byte: the byte itself, or a backslash and a letter for it. -/
theorem escapeString_singleton (c : UInt8) :
    (escapeString [c] = [c] ∧ c ≠ 0x5C ∧ c ≠ 0x22 ∧ c ≠ 0x0A) ∨
      ∃ d, escapeString [c] = [0x5C, d] ∧ d ≠ 0x0A ∧
        ∀ rest, unescapeString (0x5C :: d :: rest) = c :: unescapeString rest := by
  by_cases hslash : c = 0x5C
  · subst hslash
    exact .inr ⟨0x5C, rfl, by decide, fun rest => rfl⟩
  by_cases hlf : c = 0x0A
  · subst hlf
    exact .inr ⟨0x6E, rfl, by decide, fun rest => rfl⟩
  by_cases hcr : c = 0x0D
  · subst hcr
    exact .inr ⟨0x72, rfl, by decide, fun rest => rfl⟩
  by_cases htab : c = 0x09
  · subst htab
    exact .inr ⟨0x74, rfl, by decide, fun rest => rfl⟩
  by_cases hquote : c = 0x22
  · subst hquote
    exact .inr ⟨0x22, rfl, by decide, fun rest => rfl⟩
  · exact .inl ⟨by simp [escapeString, hslash, hlf, hcr, htab, hquote], hslash, hquote, hlf⟩

theorem unescapeString_cons {c : UInt8} (hc : c ≠ 0x5C) (rest : Bytes) :
    unescapeString (c :: rest) = c :: unescapeString rest := by
  simp [unescapeString, hc]

theorem unescape_escape (s : Bytes) : unescapeString (escapeString s) = s := by
  induction s with
  | nil => rfl
  | cons c s ih =>
    rw [escapeString_cons]
    rcases escapeString_singleton c with ⟨hc, hslash, -, -⟩ | ⟨d, hd, -, hread⟩
    · rw [hc, List.singleton_append, unescapeString_cons hslash, ih]
    · rw [hd, List.cons_append, List.singleton_append, hread, ih]

theorem closingQuoteIndex_cons {c : UInt8} (hslash : c ≠ 0x5C) (hquote : c ≠ 0x22)
    (rest : Bytes) (index : Nat) :
    closingQuoteIndex (c :: rest) index = closingQuoteIndex rest (index + 1) := by
  cases rest <;> simp [closingQuoteIndex, hslash, hquote]

theorem closingQuoteIndex_escaped (d : UInt8) (rest : Bytes) (index : Nat) :
    closingQuoteIndex (0x5C :: d :: rest) index = closingQuoteIndex rest (index + 2) := rfl

/-- The scan skips the escaped text and stops at the quote behind it. -/
theorem closingQuoteIndex_escape (s : Bytes) (index : Nat) :
    closingQuoteIndex (escapeString s ++ [0x22]) index =
      some (index + (escapeString s).length) := by
  induction s generalizing index with
  | nil => rfl
  | cons c s ih =>
    rw [escapeString_cons, List.append_assoc]
    rcases escapeString_singleton c with ⟨hc, hslash, hquote, -⟩ | ⟨d, hd, -, -⟩
    · rw [hc, List.singleton_append, closingQuoteIndex_cons hslash hquote, ih,
        List.singleton_append, List.length_cons]
      congr 1
      omega
    · rw [hd, List.cons_append, List.singleton_append, closingQuoteIndex_escaped, ih,
        List.cons_append, List.singleton_append, List.length_cons, List.length_cons]
      congr 1
      omega

theorem escapeString_lf (s : Bytes) : 0x0A ∉ escapeString s := by
  induction s with
  | nil => simp [escapeString]
  | cons c s ih =>
    rw [escapeString_cons, List.mem_append]
    rintro (hmem | hmem)
    · rcases escapeString_singleton c with ⟨hc, -, -, hlf⟩ | ⟨d, hd, hlf, -⟩
      · rw [hc, List.mem_singleton] at hmem
        exact hlf hmem.symm
      · rw [hd] at hmem
        rcases List.mem_cons.mp hmem with hmem | hmem
        · exact absurd hmem (by decide)
        · exact hlf (List.mem_singleton.mp hmem).symm
    · exact ih hmem

variable {N : Type} {numbers : Numbers N}

theorem parseValue_space (raw : Bytes) :
    parseValue numbers (0x20 :: raw) = parseValue numbers raw := by
  rw [parseValue, parseValue, trim_space]

/-- A quoted literal is read back whatever its bytes. -/
theorem parseValue_quoted (s : Bytes) :
    parseValue numbers ([0x22] ++ escapeString s ++ [0x22]) = some (.string s) := by
  have htrim : trim ([0x22] ++ escapeString s ++ [0x22]) =
      [0x22] ++ escapeString s ++ [0x22] := by
    apply trim_eq_self
    · intro c hc
      obtain rfl := Option.some.inj hc
      rfl
    · intro c hc
      rw [List.getLast?_concat] at hc
      obtain rfl := Option.some.inj hc
      rfl
  have hbody : (([0x22] ++ escapeString s ++ [0x22]).drop 1) = escapeString s ++ [0x22] := rfl
  unfold parseValue
  simp only [htrim, hbody, closingQuoteIndex_escape, Nat.add_sub_cancel_left,
    List.take_left]
  rw [if_neg (by simp), if_pos (by rfl), unescape_escape]

/-- A string that needs no quotes is read back bare. -/
theorem parseValue_bare {s : Bytes} (h : needsQuotes s = false) :
    parseValue numbers s = some (.string s) := by
  simp only [needsQuotes, decide_eq_false_iff_not, not_or, not_not, List.mem_append] at h
  obtain ⟨hne, htrim, -, -, hquote, -, ⟨htrue, hfalse⟩, hinteger, hdecimal⟩ := h
  have hhead : s.head? ≠ some 0x22 := fun hhead => hquote (List.mem_of_mem_head? hhead)
  unfold parseValue
  simp only [← htrim, if_neg hne, if_neg hhead]
  rw [parseBare, if_neg htrue, if_neg hfalse, if_neg]
  exact fun hnumber => hnumber.elim hinteger hdecimal

/-! ## Integers -/

/-- The decimal digits of a number. -/
def decimalDigits (n : Nat) : Bytes :=
  if n = 0 then [0x30] else (Nat.digits 10 n).reverse.map fun d => UInt8.ofNat (0x30 + d)

/-- An integer in decimal. -/
def decimal (n : Int) : Bytes :=
  (if n < 0 then [0x2D] else []) ++ decimalDigits n.natAbs

/-- What the runtime does with the integers of up to 14 digits. -/
structure Numbers.Lawful (numbers : Numbers N) : Prop where
  tostring_int : ∀ n : Int, n.natAbs < 10 ^ 14 → numbers.tostring (numbers.ofInt n) = decimal n
  tonumber_int : ∀ n : Int, n.natAbs < 10 ^ 14 →
    numbers.tonumber (decimal n) = some (numbers.ofInt n)

theorem isDigit_ofNat {d : Nat} (hd : d < 10) : isDigit (UInt8.ofNat (0x30 + d)) = true := by
  have hval : (UInt8.ofNat (0x30 + d)).toNat = 0x30 + d := by
    rw [UInt8.toNat_ofNat']
    omega
  simp only [isDigit, UInt8.le_iff_toNat_le, hval, decide_eq_true_eq]
  have hlow : (0x30 : UInt8).toNat = 0x30 := rfl
  have hhigh : (0x39 : UInt8).toNat = 0x39 := rfl
  omega

theorem decimalDigits_digits (n : Nat) :
    decimalDigits n ≠ [] ∧ ∀ b ∈ decimalDigits n, isDigit b = true := by
  unfold decimalDigits
  split
  · exact ⟨by simp, by simp [isDigit]⟩
  · rename_i hn
    constructor
    · simpa [Nat.digits_eq_nil_iff_eq_zero] using hn
    · intro b hb
      obtain ⟨d, hd, rfl⟩ := List.mem_map.mp hb
      exact isDigit_ofNat (Nat.digits_lt_base (by decide) (List.mem_reverse.mp hd))

theorem digit_facts {b : UInt8} (h : isDigit b = true) :
    isSpace b = false ∧ b ≠ 0x22 ∧ b ≠ 0x2B ∧ b ≠ 0x2D ∧ b ≠ 0x0A ∧ lowerByte b = b := by
  simp only [isDigit, decide_eq_true_eq, UInt8.le_iff_toNat_le] at h
  have hlow : (0x30 : UInt8).toNat = 0x30 := rfl
  have hhigh : (0x39 : UInt8).toNat = 0x39 := rfl
  rw [hlow, hhigh] at h
  have hne : ∀ c : UInt8, c.toNat < 0x30 → b ≠ c := by
    rintro c hc rfl
    omega
  refine ⟨?_, hne _ (by decide), hne _ (by decide), hne _ (by decide), hne _ (by decide), ?_⟩
  · have htab : (0x0D : UInt8).toNat = 0x0D := rfl
    have hspace := hne 0x20 (by decide)
    simp only [isSpace, decide_eq_false_iff_not, UInt8.le_iff_toNat_le, not_or, hspace,
      not_false_eq_true, and_true, htab]
    omega
  · rw [lowerByte, if_neg]
    rw [UInt8.le_iff_toNat_le]
    have hupper : (0x41 : UInt8).toNat = 0x41 := rfl
    omega

/-- A decimal text: a digit or a minus sign in front, and a digit at the end. -/
theorem decimal_facts (n : Int) :
    decimal n ≠ [] ∧ trim (decimal n) = decimal n ∧ 0x0A ∉ decimal n ∧
      matchesInteger (decimal n) = true ∧
      ∃ c, (decimal n).head? = some c ∧ (c = 0x2D ∨ isDigit c = true) := by
  obtain ⟨hne, hdigits⟩ := decimalDigits_digits n.natAbs
  obtain ⟨d, ds, hcons⟩ := List.exists_cons_of_ne_nil hne
  have hd : isDigit d = true := hdigits d (hcons ▸ List.mem_cons_self)
  have hall : (decimalDigits n.natAbs).all isDigit = true := List.all_eq_true.mpr hdigits
  have hlast : ∀ c, (decimal n).getLast? = some c → isDigit c = true := by
    intro c hc
    rw [decimal, List.getLast?_append_of_ne_nil _ hne] at hc
    exact hdigits c (List.mem_of_getLast? hc)
  have hunsigned : unsigned (decimal n) = decimalDigits n.natAbs := by
    unfold decimal
    split
    · rfl
    · obtain ⟨-, -, hplus, hminus, -, -⟩ := digit_facts hd
      rw [List.nil_append, hcons]
      unfold unsigned
      split
      · exact absurd (List.cons.inj ‹_›).1 hplus
      · exact absurd (List.cons.inj ‹_›).1 hminus
      · rfl
  have hhead : ∃ c, (decimal n).head? = some c ∧ (c = 0x2D ∨ isDigit c = true) := by
    unfold decimal
    split
    · exact ⟨0x2D, rfl, .inl rfl⟩
    · rw [List.nil_append, hcons]
      exact ⟨d, rfl, .inr hd⟩
  refine ⟨?_, ?_, ?_, ?_, hhead⟩
  · exact List.append_ne_nil_of_right_ne_nil _ hne
  · apply trim_eq_self
    · intro c hc
      obtain ⟨c', hc', hkind⟩ := hhead
      rw [hc] at hc'
      obtain rfl := Option.some.inj hc'
      rcases hkind with rfl | hkind
      · rfl
      · exact (digit_facts hkind).1
    · exact fun c hc => (digit_facts (hlast c hc)).1
  · rw [decimal, List.mem_append]
    rintro (hmem | hmem)
    · split at hmem
      · exact absurd (List.mem_singleton.mp hmem) (by decide)
      · cases hmem
    · exact (digit_facts (hdigits _ hmem)).2.2.2.2.1 rfl
  · simp only [matchesInteger, hunsigned, hall, decide_eq_true_eq]
    exact ⟨hne, trivial⟩

/-- No word for a boolean begins like a number. -/
theorem words_head {w : Bytes} (hw : w ∈ trueWords ++ falseWords) :
    ∃ c rest, w = c :: rest ∧ c ≠ 0x2D ∧ isDigit c = false := by
  simp only [trueWords, falseWords, List.cons_append, List.nil_append, List.mem_cons,
    List.not_mem_nil, or_false] at hw
  rcases hw with rfl | rfl | rfl | rfl | rfl | rfl
  all_goals exact ⟨_, _, rfl, by decide, by decide⟩

theorem decimal_not_word (n : Int) : (decimal n).map lowerByte ∉ trueWords ++ falseWords := by
  intro hmem
  obtain ⟨-, -, -, -, c, hc, hkind⟩ := decimal_facts n
  have hhead : ((decimal n).map lowerByte).head? = some (lowerByte c) := by
    rw [List.head?_map, hc]
    rfl
  obtain ⟨c', rest, hword, hminus, hdigit⟩ := words_head hmem
  rw [hword] at hhead
  obtain rfl := Option.some.inj hhead
  rcases hkind with rfl | hkind
  · exact hminus rfl
  · rw [(digit_facts hkind).2.2.2.2.2, hkind] at hdigit
    cases hdigit

theorem parseValue_decimal (hlaw : numbers.Lawful) {n : Int} (hn : n.natAbs < 10 ^ 14) :
    parseValue numbers (decimal n) = some (.number (numbers.ofInt n)) := by
  obtain ⟨hne, htrim, -, hmatch, c, hc, hkind⟩ := decimal_facts n
  have hquote : (decimal n).head? ≠ some 0x22 := by
    rw [hc]
    rintro hquote
    obtain rfl := Option.some.inj hquote
    rcases hkind with h | h
    · exact absurd h (by decide)
    · exact absurd h (by decide)
  have hword := decimal_not_word n
  rw [List.mem_append, not_or] at hword
  unfold parseValue
  simp only [htrim, if_neg hne, if_neg hquote]
  rw [parseBare, if_neg hword.1, if_neg hword.2, if_pos (.inl hmatch), hlaw.tonumber_int n hn]

/-! ## Every value -/

/-- The values a configuration can hold across a save: integers of up to 14 digits only. -/
def Value.Writable (numbers : Numbers N) : Value N → Prop
  | .boolean _ => True
  | .number n => ∃ i : Int, i.natAbs < 10 ^ 14 ∧ n = numbers.ofInt i
  | .string _ => True

theorem parseValue_dumpValue (hlaw : numbers.Lawful) {v : Value N} (hv : v.Writable numbers) :
    parseValue numbers (dumpValue numbers v) = some v := by
  cases v with
  | boolean b => cases b <;> rfl
  | number n =>
    obtain ⟨i, hi, rfl⟩ := hv
    rw [dumpValue, hlaw.tostring_int i hi, parseValue_decimal hlaw hi]
  | string s =>
    rw [dumpValue]
    split
    · exact parseValue_quoted s
    · exact parseValue_bare (Bool.eq_false_iff.mpr ‹_›)

/-- A value is written on one line. -/
theorem dumpValue_lf (hlaw : numbers.Lawful) {v : Value N} (hv : v.Writable numbers) :
    0x0A ∉ dumpValue numbers v := by
  cases v with
  | boolean b => cases b <;> simp [dumpValue]
  | number n =>
    obtain ⟨i, hi, rfl⟩ := hv
    rw [dumpValue, hlaw.tostring_int i hi]
    exact (decimal_facts i).2.2.1
  | string s =>
    rw [dumpValue]
    split
    · have hbody := escapeString_lf s
      simp only [List.mem_append, List.mem_singleton, not_or]
      exact ⟨⟨by decide, hbody⟩, by decide⟩
    · rename_i hquotes
      intro hmem
      apply hquotes
      simp [needsQuotes, hmem]

end Xcom.Config
