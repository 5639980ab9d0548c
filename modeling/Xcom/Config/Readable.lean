import Xcom.Config.RoundTrip

/-!
# Configurations that come from a text

Whatever stands in a file, the configuration read from it is written on lines that are read
as the same entries: nothing in it hides or changes another entry.
-/

namespace Xcom.Config

/-- The texts of the numbers of the runtime stay on their line and hold no bracket. -/
structure Numbers.Plain {N : Type} (numbers : Numbers N) : Prop where
  oneLine : ∀ n, 0x0A ∉ numbers.tostring n
  noBracket : ∀ n, 0x5D ∉ numbers.tostring n

/-! ## Trimming -/

theorem mem_of_mem_trim {s : Bytes} {b : UInt8} (h : b ∈ trim s) : b ∈ s :=
  List.dropWhile_subset isSpace ((List.rdropWhile_prefix isSpace _).subset h)

theorem head_dropWhile {s : Bytes} {c : UInt8} (h : (s.dropWhile isSpace).head? = some c) :
    isSpace c = false := by
  induction s with
  | nil => cases h
  | cons b s ih =>
    rw [List.dropWhile_cons] at h
    by_cases hb : isSpace b = true
    · rw [if_pos hb] at h
      exact ih h
    · rw [if_neg hb] at h
      obtain rfl := Option.some.inj h
      exact Bool.eq_false_iff.mpr hb

theorem trim_head {s : Bytes} {c : UInt8} (h : (trim s).head? = some c) :
    (s.dropWhile isSpace).head? = some c := by
  obtain ⟨t, ht⟩ := List.rdropWhile_prefix isSpace (s.dropWhile isSpace)
  rw [← ht]
  rw [trim] at h
  cases hs : (s.dropWhile isSpace).rdropWhile isSpace with
  | nil =>
    rw [hs] at h
    cases h
  | cons b rest =>
    rw [hs] at h
    exact h

theorem trim_trim (s : Bytes) : trim (trim s) = trim s := by
  apply trim_eq_self
  · intro c hc
    exact head_dropWhile (trim_head hc)
  · intro c hc
    have hne : trim s ≠ [] := by
      rintro hnil
      rw [hnil] at hc
      cases hc
    rw [List.getLast?_eq_some_getLast hne] at hc
    obtain rfl := Option.some.inj hc
    exact Bool.eq_false_iff.mpr (List.rdropWhile_last_not isSpace _ hne)

/-- A blank in front of a text that goes on is skipped. -/
theorem dropWhile_head_append {s t : Bytes} {c : UInt8}
    (h : (s.dropWhile isSpace).head? = some c) :
    ((s ++ t).dropWhile isSpace).head? = some c := by
  induction s with
  | nil => cases h
  | cons b s ih =>
    rw [List.cons_append, List.dropWhile_cons]
    rw [List.dropWhile_cons] at h
    by_cases hb : isSpace b = true
    · rw [if_pos hb] at h ⊢
      exact ih h
    · rw [if_neg hb] at h ⊢
      exact h

/-! ## Texts of values -/

theorem mem_unescapeString {s : Bytes} {b : UInt8} (h : b ∈ unescapeString s) :
    b ∈ s ∨ b ∈ [0x0A, 0x0D, 0x09, 0x5C, 0x22] := by
  induction s using unescapeString.induct with
  | case1 c rest ih =>
    rw [unescapeString] at h
    rcases List.mem_append.mp h with h | h
    · have hcases : b = c ∨ b ∈ [0x0A, 0x0D, 0x09, 0x5C, 0x22] := by
        split_ifs at h
        all_goals
          simp only [List.mem_cons, List.not_mem_nil, or_false] at h
          grind
      rcases hcases with rfl | hcases
      · exact .inl (List.mem_cons_of_mem _ List.mem_cons_self)
      · exact .inr hcases
    · rcases ih h with h | h
      · exact .inl (List.mem_cons_of_mem _ (List.mem_cons_of_mem _ h))
      · exact .inr h
  | case2 c rest hrest ih =>
    rw [unescapeString] at h
    · rcases List.mem_cons.mp h with rfl | h
      · exact .inl List.mem_cons_self
      · exact (ih h).imp_left (List.mem_cons_of_mem _)
    · exact hrest
  | case3 => cases h

theorem mem_escapeString {s : Bytes} {b : UInt8} (h : b ∈ escapeString s) :
    b ∈ s ∨ b ∈ [0x5C, 0x6E, 0x72, 0x74, 0x22] := by
  rw [escapeString, List.mem_flatMap] at h
  obtain ⟨c, hc, hb⟩ := h
  have hcases : b = c ∨ b ∈ [0x5C, 0x6E, 0x72, 0x74, 0x22] := by
    split_ifs at hb
    all_goals
      simp only [List.mem_cons, List.not_mem_nil, or_false] at hb
      grind
  rcases hcases with rfl | hcases
  · exact .inl hc
  · exact .inr hcases

variable {N : Type} {numbers : Numbers N}

/-- A value is written on one line. -/
theorem dumpValue_oneLine (hplain : numbers.Plain) (value : Value N) :
    0x0A ∉ dumpValue numbers value := by
  cases value with
  | boolean b => cases b <;> simp [dumpValue]
  | number n => exact hplain.oneLine n
  | string s =>
    rw [dumpValue]
    split
    · have hbody := escapeString_lf s
      simp only [List.mem_append, List.mem_singleton, not_or]
      exact ⟨⟨by decide, hbody⟩, by decide⟩
    · rename_i hquotes
      intro hmem
      apply hquotes
      simp [needsQuotes, hmem]

/-- A string that was read holds the bytes of its text, and those of escapes. -/
theorem mem_parseValue {raw s : Bytes} (h : parseValue numbers raw = some (.string s))
    {b : UInt8} (hb : b ∈ s) : b ∈ raw ∨ b ∈ [0x0A, 0x0D, 0x09, 0x5C, 0x22] := by
  have hbare : ∀ v, parseBare numbers v = .string s → s = v := by
    intro v hv
    unfold parseBare at hv
    split_ifs at hv
    · split at hv
      · cases hv
      · exact (Value.string.inj hv).symm
    · exact (Value.string.inj hv).symm
  unfold parseValue at h
  simp only at h
  split_ifs at h
  · split at h
    · obtain rfl := Value.string.inj (Option.some.inj h)
      rcases mem_unescapeString hb with hb | hb
      · exact .inl (mem_of_mem_trim (List.mem_of_mem_drop (List.mem_of_mem_take hb)))
      · exact .inr hb
    · rw [hbare _ (Option.some.inj h)] at hb
      exact .inl (mem_of_mem_trim hb)
  · rw [hbare _ (Option.some.inj h)] at hb
    exact .inl (mem_of_mem_trim hb)

/-- A value read from a text without a bracket is written without one. -/
theorem dumpValue_noBracket (hplain : numbers.Plain) {raw : Bytes} {value : Value N}
    (hvalue : parseValue numbers raw = some value) (hraw : 0x5D ∉ raw) :
    0x5D ∉ dumpValue numbers value := by
  cases value with
  | boolean b => cases b <;> simp [dumpValue]
  | number n => exact hplain.noBracket n
  | string s =>
    have hs : 0x5D ∉ s := by
      intro hmem
      rcases mem_parseValue hvalue hmem with hmem | hmem
      · exact hraw hmem
      · exact absurd hmem (by decide)
    rw [dumpValue]
    split
    · simp only [List.mem_append, List.mem_singleton, not_or]
      refine ⟨⟨by decide, ?_⟩, by decide⟩
      intro hmem
      rcases mem_escapeString hmem with hmem | hmem
      · exact hs hmem
      · exact absurd hmem (by decide)
    · exact hs

/-! ## Lines -/

theorem gmatchLines_lf {s line : Bytes} (hline : 0x0A ∉ line) :
    ∀ l ∈ gmatchLines s line, 0x0A ∉ l := by
  induction s generalizing line with
  | nil =>
    intro l hl
    cases hl
  | cons b rest ih =>
    intro l hl
    rw [gmatchLines] at hl
    by_cases hb : b = 0x0A
    · rw [if_pos hb] at hl
      rcases List.mem_cons.mp hl with rfl | hl
      · exact hline
      · exact ih List.not_mem_nil l hl
    · rw [if_neg hb] at hl
      apply ih _ l hl
      rw [List.mem_append, List.mem_singleton]
      rintro (hmem | hmem)
      · exact hline hmem
      · exact hb hmem.symm

/-- A header names a section that can be written. -/
theorem sectionHeader_wellFormed {line header : Bytes} (hline : 0x0A ∉ line)
    (h : sectionHeader (line.dropWhile isSpace) = some header) :
    WellFormedName (trim header) := by
  unfold sectionHeader at h
  split at h
  · rename_i rest hleading
    split_ifs at h
    obtain rfl := Option.some.inj h
    refine ⟨trim_trim _, ?_, ?_⟩
    · intro hmem
      have hrest : 0x0A ∈ rest := List.takeWhile_subset _ (mem_of_mem_trim hmem)
      have hleft : 0x0A ∈ line.dropWhile isSpace := hleading ▸ List.mem_cons_of_mem _ hrest
      exact hline (List.dropWhile_subset isSpace hleft)
    · intro hmem
      have hnot := List.mem_takeWhile_imp (mem_of_mem_trim hmem)
      exact absurd hnot (by decide)
  · cases h

/-- What a line that is no header says of brackets. -/
theorem sectionHeader_none {leading : Bytes} (h : sectionHeader leading = none)
    (hhead : leading.head? = some 0x5B) : 0x5D ∉ leading := by
  cases leading with
  | nil => cases hhead
  | cons b rest =>
    obtain rfl := Option.some.inj hhead
    intro hmem
    rcases List.mem_cons.mp hmem with hmem | hmem
    · exact absurd hmem (by decide)
    · rw [sectionHeader, if_pos hmem] at h
      cases h

/-- The entry of a line is written on a line that is read as the same entry. -/
theorem parseLine_readable (hplain : numbers.Plain) {line : Bytes} (hline : 0x0A ∉ line)
    (hignored : isIgnored line = false)
    (hheader : sectionHeader (line.dropWhile isSpace) = none)
    (hkey : trim (line.takeWhile (· ≠ 0x3D)) ≠ []) {value : Value N}
    (hvalue : parseValue numbers ((line.dropWhile (· ≠ 0x3D)).drop 1) = some value) :
    ReadableEntry numbers (trim (line.takeWhile (· ≠ 0x3D))) value := by
  have hsplit : line.takeWhile (· ≠ 0x3D) ++ line.dropWhile (· ≠ 0x3D) = line :=
    List.takeWhile_append_dropWhile
  have hkeySubset : ∀ b ∈ trim (line.takeWhile (· ≠ 0x3D)), b ∈ line := fun b hb =>
    List.takeWhile_subset _ (mem_of_mem_trim hb)
  -- the key and the line begin with the same character
  have hfirst : ∀ c, (trim (line.takeWhile (· ≠ 0x3D))).head? = some c →
      (line.dropWhile isSpace).head? = some c := by
    intro c hc
    rw [← hsplit]
    exact dropWhile_head_append (trim_head hc)
  refine ⟨hkey, trim_trim _, fun hmem => hline (hkeySubset _ hmem), ?_, ?_, ?_,
    dumpValue_oneLine hplain value⟩
  · intro hmem
    have hnot := List.mem_takeWhile_imp (mem_of_mem_trim hmem)
    exact absurd hnot (by decide)
  · rw [isIgnored, decide_eq_false_iff_not] at hignored
    constructor
    · intro hc
      rw [hfirst _ hc] at hignored
      exact hignored (by decide)
    · intro hc
      rw [hfirst _ hc] at hignored
      exact hignored (by decide)
  · intro hc
    have hleading := sectionHeader_none hheader (hfirst _ hc)
    have hnone : 0x5D ∉ line := by
      intro hmem
      rw [← List.takeWhile_append_dropWhile (p := isSpace) (l := line)] at hmem
      rcases List.mem_append.mp hmem with hmem | hmem
      · exact absurd (List.mem_takeWhile_imp hmem) (by decide)
      · exact hleading hmem
    have hraw : 0x5D ∉ (line.dropWhile (· ≠ 0x3D)).drop 1 := fun hmem =>
      hnone (List.dropWhile_subset _ (List.mem_of_mem_drop hmem))
    have hback := dumpValue_noBracket hplain hvalue hraw
    have hfront : 0x5D ∉ trim (line.takeWhile (· ≠ 0x3D)) := fun hmem =>
      hnone (hkeySubset _ hmem)
    simp only [entryLine, List.mem_append, not_or]
    exact ⟨⟨hfront, by decide⟩, hback⟩

/-! ## The whole text -/

/-- An entry that can be written keeps a configuration readable. -/
theorem Readable.assign {data : Data N} (h : Readable numbers data) {name key : Bytes}
    (hname : WellFormedName name) {value : Option (Value N)}
    (hentry : ∀ v, value = some v → ReadableEntry numbers key v) :
    Readable numbers (assign data name key value) where
  names := by
    intro other hother
    unfold Config.assign at hother
    rw [AList.mem_insert] at hother
    rcases hother with rfl | hother
    · exact hname
    · exact h.names other hother
  keys := by
    intro name' key' v hv
    rw [get_assign] at hv
    split_ifs at hv with hsame
    · rw [hsame.2]
      exact hentry v hv
    · exact h.keys name' key' v hv

/-- What a line leaves can be written. -/
theorem Readable.parseLine (hplain : numbers.Plain) {data : Data N} {name line : Bytes}
    (h : Readable numbers data) (hname : WellFormedName name) (hline : 0x0A ∉ line) :
    Readable numbers (parseLine numbers (data, name) line).1 ∧
      WellFormedName (parseLine numbers (data, name) line).2 := by
  unfold Config.parseLine
  split_ifs with hignored
  · exact ⟨h, hname⟩
  · split
    · rename_i header hheader
      exact ⟨h, sectionHeader_wellFormed hline hheader⟩
    · rename_i hheader
      simp only
      split_ifs with hkey
      · exact ⟨h, hname⟩
      · refine ⟨h.assign hname ?_, hname⟩
        intro v hv
        exact parseLine_readable hplain hline (Bool.eq_false_iff.mpr hignored) hheader hkey hv

/-- Whatever the text, the configuration read from it can be written and read again. -/
theorem parse_readable (hplain : numbers.Plain) (s : Bytes) :
    Readable numbers (parse numbers s) := by
  have hlines : ∀ (lines : List Bytes) (data : Data N) (name : Bytes),
      (∀ l ∈ lines, 0x0A ∉ l) → Readable numbers data → WellFormedName name →
      Readable numbers (lines.foldl (parseLine numbers) (data, name)).1 := by
    intro lines
    induction lines with
    | nil => exact fun data name _ h _ => h
    | cons line lines ih =>
      intro data name hlf h hname
      obtain ⟨hdata, hcurrent⟩ := h.parseLine hplain hname (hlf line List.mem_cons_self)
      exact ih _ _ (fun l hl => hlf l (List.mem_cons_of_mem line hl)) hdata hcurrent
  apply hlines
  · exact gmatchLines_lf List.not_mem_nil
  · exact ⟨fun name hname => absurd hname (AList.notMem_empty _), fun _ _ _ hv => by cases hv⟩
  · exact ⟨rfl, List.not_mem_nil, List.not_mem_nil⟩

end Xcom.Config
