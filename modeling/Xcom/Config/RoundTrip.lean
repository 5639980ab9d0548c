import Xcom.Config.Literals

/-!
# A configuration read back

The text of a configuration with well-formed names is read back as that configuration, up
to sections without keys.
-/

namespace Xcom.Config

/-- A key that is read as a key. -/
structure WellFormedKey (key : Bytes) : Prop where
  nonempty : key ≠ []
  trimmed : trim key = key
  oneLine : 0x0A ∉ key
  noEquals : 0x3D ∉ key
  noHeader : key.head? ≠ some 0x5B
  noComment : key.head? ≠ some 0x3B ∧ key.head? ≠ some 0x23

/-- A section name that is read as the same name. -/
structure WellFormedName (name : Bytes) : Prop where
  trimmed : trim name = name
  oneLine : 0x0A ∉ name
  noBracket : 0x5D ∉ name

/-- Every name is well formed and every value one that can be written. -/
structure WellFormed {N : Type} (numbers : Numbers N) (data : Data N) : Prop where
  names : ∀ name ∈ data, WellFormedName name
  keys : ∀ name key value, get data name key = some value →
    WellFormedKey key ∧ value.Writable numbers

/-- An entry whose line is read as an entry of its key, whatever its value is read as. -/
structure ReadableEntry {N : Type} (numbers : Numbers N) (key : Bytes) (value : Value N) :
    Prop where
  nonempty : key ≠ []
  trimmed : trim key = key
  oneLine : 0x0A ∉ key
  noEquals : 0x3D ∉ key
  noComment : key.head? ≠ some 0x3B ∧ key.head? ≠ some 0x23
  noHeader : key.head? = some 0x5B → 0x5D ∉ entryLine numbers key value
  value : 0x0A ∉ dumpValue numbers value

/-- A configuration whose lines are read as what they were written for. -/
structure Readable {N : Type} (numbers : Numbers N) (data : Data N) : Prop where
  names : ∀ name ∈ data, WellFormedName name
  keys : ∀ name key value, get data name key = some value → ReadableEntry numbers key value

/-- A value written and read back. -/
def reread {N : Type} (numbers : Numbers N) (value : Value N) : Option (Value N) :=
  parseValue numbers (dumpValue numbers value)

variable {N : Type} {numbers : Numbers N}

theorem WellFormedKey.readable (hlaw : numbers.Lawful) {key : Bytes} {value : Value N}
    (hkey : WellFormedKey key) (hvalue : value.Writable numbers) :
    ReadableEntry numbers key value where
  nonempty := hkey.nonempty
  trimmed := hkey.trimmed
  oneLine := hkey.oneLine
  noEquals := hkey.noEquals
  noComment := hkey.noComment
  noHeader := fun h => absurd h hkey.noHeader
  value := dumpValue_lf hlaw hvalue

theorem WellFormed.readable (hlaw : numbers.Lawful) {data : Data N}
    (h : WellFormed numbers data) : Readable numbers data where
  names := h.names
  keys name key value hget :=
    (h.keys name key value hget).1.readable hlaw (h.keys name key value hget).2

/-! ## One line -/

theorem parseLine_entry {key : Bytes} {value : Value N}
    (hkey : ReadableEntry numbers key value) (data : Data N) (name : Bytes) :
    parseLine numbers (data, name) (entryLine numbers key value) =
      (assign data name key (reread numbers value), name) := by
  obtain ⟨c, rest, rfl⟩ := List.exists_cons_of_ne_nil hkey.nonempty
  have hblank : isSpace c = false := trimmed_head hkey.trimmed rfl
  have hdrop : (entryLine numbers (c :: rest) value).dropWhile isSpace =
      entryLine numbers (c :: rest) value := by
    simp [entryLine, hblank]
  have hignored : isIgnored (entryLine numbers (c :: rest) value) = false := by
    obtain ⟨hsemicolon, hhash⟩ := hkey.noComment
    rw [isIgnored, hdrop]
    simp [entryLine] at hsemicolon hhash ⊢
    exact ⟨hsemicolon, hhash⟩
  have hheader : sectionHeader (entryLine numbers (c :: rest) value) = none := by
    unfold sectionHeader
    split
    · rename_i tail hline
      have hbracket : 0x5D ∉ entryLine numbers (c :: rest) value :=
        hkey.noHeader (by rw [show c = 0x5B from (List.cons.inj hline).1]; rfl)
      rw [hline] at hbracket
      exact if_neg fun hmem => hbracket (List.mem_cons_of_mem _ hmem)
    · rfl
  have hsplit : entryLine numbers (c :: rest) value =
      (c :: rest ++ [0x20]) ++ 0x3D :: 0x20 :: dumpValue numbers value := by
    simp [entryLine]
  have hbefore : ∀ b ∈ c :: rest ++ [0x20], decide (b ≠ 0x3D) = true := by
    intro b hb
    rw [decide_eq_true_eq]
    rintro rfl
    rcases List.mem_append.mp hb with hb | hb
    · exact hkey.noEquals hb
    · exact absurd (List.mem_singleton.mp hb) (by decide)
  have hkeyText : (entryLine numbers (c :: rest) value).takeWhile (· ≠ 0x3D) =
      c :: rest ++ [0x20] := by
    rw [hsplit, List.takeWhile_append_of_pos hbefore, List.takeWhile_cons, if_neg (by decide),
      List.append_nil]
  have hrest : ((entryLine numbers (c :: rest) value).dropWhile (· ≠ 0x3D)).drop 1 =
      0x20 :: dumpValue numbers value := by
    rw [hsplit, List.dropWhile_append_of_pos hbefore, List.dropWhile_cons, if_neg (by decide)]
    rfl
  unfold parseLine
  rw [hignored, hdrop, hheader]
  simp only [hkeyText, hrest, trim_append_space hkey.trimmed hkey.nonempty, parseValue_space,
    Bool.false_eq_true, if_false, if_neg hkey.nonempty]
  rfl

theorem parseLine_header {name : Bytes} (hname : WellFormedName name) (data : Data N)
    (current : Bytes) :
    parseLine numbers (data, current) ([0x5B] ++ name ++ [0x5D]) = (data, name) := by
  have hdrop : ([0x5B] ++ name ++ [0x5D]).dropWhile isSpace = [0x5B] ++ name ++ [0x5D] := by
    rw [List.append_assoc, List.singleton_append, List.dropWhile_cons, if_neg (by decide)]
  have hignored : isIgnored ([0x5B] ++ name ++ [0x5D]) = false := by
    rw [isIgnored, hdrop]
    rfl
  have hbefore : ∀ b ∈ name, decide (b ≠ 0x5D) = true := by
    intro b hb
    rw [decide_eq_true_eq]
    rintro rfl
    exact hname.noBracket hb
  have hheader : sectionHeader ([0x5B] ++ name ++ [0x5D]) = some name := by
    show (if 0x5D ∈ name ++ [0x5D] then
      some ((name ++ [0x5D]).takeWhile (· ≠ 0x5D)) else none) = _
    rw [if_pos (by simp), List.takeWhile_append_of_pos hbefore, List.takeWhile_cons,
      if_neg (by decide), List.append_nil]
  unfold parseLine
  rw [hignored, hdrop, hheader]
  simp only [hname.trimmed, Bool.false_eq_true, if_false]

/-! ## One section -/

theorem get_assign (data : Data N) (name key : Bytes) (value : Option (Value N))
    (name' key' : Bytes) :
    get (assign data name key value) name' key' =
      if name' = name ∧ key' = key then value else get data name' key' := by
  unfold get assign
  by_cases hname : name' = name
  · subst hname
    rw [AList.lookup_insert, Option.bind_some]
    by_cases hkey : key' = key
    · subst hkey
      cases value with
      | none => simp [AList.lookup_erase]
      | some value => simp [AList.lookup_insert]
    · rw [if_neg (fun h => hkey h.2)]
      cases value with
      | none =>
        rw [AList.lookup_erase_ne hkey]
        cases data.lookup name' with
        | none => rfl
        | some keys => rfl
      | some value =>
        rw [AList.lookup_insert_ne hkey]
        cases data.lookup name' with
        | none => rfl
        | some keys => rfl
  · rw [AList.lookup_insert_ne hname, if_neg (fun h => hname h.1)]

/-- The lines of a section's keys. -/
theorem foldl_entries (name : Bytes)
    {entries : List (Sigma fun _ : Bytes => Value N)} (hnodup : entries.NodupKeys)
    (hentries : ∀ e ∈ entries, ReadableEntry numbers e.1 e.2) (data : Data N) :
    ∃ data', (entries.map fun e => entryLine numbers e.1 e.2).foldl (parseLine numbers)
        (data, name) = (data', name) ∧
      ∀ name' key', get data' name' key' =
        if name' = name then (entries.dlookup key').elim (get data name key') (reread numbers)
        else get data name' key' := by
  induction entries generalizing data with
  | nil =>
    refine ⟨data, rfl, ?_⟩
    intro name' key'
    split
    · rename_i hname
      rw [hname]
      rfl
    · rfl
  | cons e entries ih =>
    obtain ⟨key, value⟩ := e
    have hkey := hentries _ List.mem_cons_self
    obtain ⟨hfresh, hnodup⟩ := List.nodupKeys_cons.mp hnodup
    obtain ⟨data', hfold, hget⟩ := ih hnodup (fun e he => hentries e (List.mem_cons_of_mem _ he))
      (assign data name key (reread numbers value))
    refine ⟨data', ?_, ?_⟩
    · rw [List.map_cons, List.foldl_cons, parseLine_entry hkey, hfold]
    · intro name' key'
      rw [hget, get_assign, get_assign]
      by_cases hname : name' = name
      · subst hname
        by_cases hk : key' = key
        · subst hk
          have hnone : entries.dlookup key' = none := List.dlookup_eq_none.mpr hfresh
          simp [hnone, List.dlookup_cons_eq]
        · rw [List.dlookup_cons_ne _ _ hk]
          simp [hk]
      · simp [hname]

/-- The lines of a section; the one without a name stands before any other. -/
theorem foldl_section {name : Bytes} (hname : WellFormedName name) {keys : Section N}
    (hkeys : ∀ key value, keys.lookup key = some value → ReadableEntry numbers key value)
    (data : Data N) {current : Bytes} (hcurrent : name = [] → current = []) :
    ∃ data', (emitSection numbers name keys).foldl (parseLine numbers) (data, current) =
        (data', name) ∧
      ∀ name' key', get data' name' key' =
        if name' = name then (keys.lookup key').elim (get data name key') (reread numbers)
        else get data name' key' := by
  have hentries : ∀ e ∈ keys.entries, ReadableEntry numbers e.1 e.2 := by
    rintro ⟨key, value⟩ he
    exact hkeys key value (List.mem_dlookup keys.nodupKeys he)
  obtain ⟨data', hfold, hget⟩ := foldl_entries name keys.nodupKeys hentries data
  have hheader : (if name = [] then [] else [[0x5B] ++ name ++ [0x5D]]).foldl
      (parseLine numbers) (data, current) = (data, name) := by
    split
    · rename_i hnil
      rw [hnil, hcurrent hnil]
      rfl
    · rw [List.foldl_cons, parseLine_header hname]
      rfl
  refine ⟨data', ?_, hget⟩
  rw [emitSection, List.foldl_append, List.foldl_append, hheader, hfold]
  rfl

/-! ## The whole text -/

theorem gmatchLines_cons (b : UInt8) (rest line : Bytes) : gmatchLines (b :: rest) line =
    if b = 0x0A then line :: gmatchLines rest [] else gmatchLines rest (line ++ [b]) := rfl

theorem gmatchLines_append {line : Bytes} (h : 0x0A ∉ line) (rest before : Bytes) :
    gmatchLines (line ++ 0x0A :: rest) before = (before ++ line) :: gmatchLines rest [] := by
  induction line generalizing before with
  | nil => simp [gmatchLines_cons]
  | cons b line ih =>
    have hb : b ≠ 0x0A := fun hb => h (hb ▸ List.mem_cons_self)
    have hline : 0x0A ∉ line := fun hmem => h (List.mem_cons_of_mem b hmem)
    rw [List.cons_append, gmatchLines_cons, if_neg hb, ih hline, List.append_assoc,
      List.singleton_append]

/-- The lines of a text made of lines. -/
theorem gmatchLines_intercalate {parts : List Bytes} (hne : parts ≠ [])
    (h : ∀ line ∈ parts, 0x0A ∉ line) :
    gmatchLines ([(0x0A : UInt8)].intercalate parts ++ [0x0A]) [] = parts := by
  induction parts with
  | nil => exact absurd rfl hne
  | cons line parts ih =>
    have hline := h line List.mem_cons_self
    cases parts with
    | nil =>
      have hone : [(0x0A : UInt8)].intercalate [line] = line := by
        simp [List.intercalate]
      rw [hone, gmatchLines_append hline, List.nil_append]
      rfl
    | cons next parts =>
      have hmore : [(0x0A : UInt8)].intercalate (line :: next :: parts) =
          line ++ 0x0A :: [(0x0A : UInt8)].intercalate (next :: parts) := by
        simp [List.intercalate]
      have hrest := ih (List.cons_ne_nil _ _) fun l hl => h l (List.mem_cons_of_mem line hl)
      rw [hmore, List.append_assoc, List.cons_append, gmatchLines_append hline, List.nil_append,
        hrest]

theorem lexLe_cons (x y : UInt8) (a b : Bytes) :
    lexLe (x :: a) (y :: b) = (x < y || (x = y && lexLe a b)) := rfl

theorem lexLe_trans (a b c : Bytes) : lexLe a b = true → lexLe b c = true → lexLe a c = true := by
  induction a generalizing b c with
  | nil => exact fun _ _ => rfl
  | cons x a ih =>
    cases b with
    | nil => exact fun h => absurd h Bool.false_ne_true
    | cons y b =>
      cases c with
      | nil => exact fun _ h => absurd h Bool.false_ne_true
      | cons z c =>
        simp only [lexLe_cons, Bool.or_eq_true, Bool.and_eq_true, decide_eq_true_eq]
        rintro (hxy | ⟨rfl, hab⟩) (hyz | ⟨rfl, hbc⟩)
        · exact .inl (UInt8.lt_trans hxy hyz)
        · exact .inl hxy
        · exact .inl hyz
        · exact .inr ⟨rfl, ih b c hab hbc⟩

theorem lexLe_total (a b : Bytes) : (lexLe a b || lexLe b a) = true := by
  induction a generalizing b with
  | nil => rfl
  | cons x a ih =>
    cases b with
    | nil => rfl
    | cons y b =>
      have hrest := ih b
      simp only [lexLe_cons, Bool.or_eq_true, Bool.and_eq_true, decide_eq_true_eq] at hrest ⊢
      rcases Nat.lt_trichotomy x.toNat y.toNat with hlt | heq | hgt
      · exact .inl (.inl hlt)
      · obtain rfl := UInt8.toNat_inj.mp heq
        rcases hrest with h | h
        · exact .inl (.inr ⟨rfl, h⟩)
        · exact .inr (.inr ⟨rfl, h⟩)
      · exact .inr (.inl hgt)

/-- The section without a name is written first. -/
theorem sectionNames_head (data : Data N) (h : [] ∈ sectionNames data) :
    ∃ rest, sectionNames data = [] :: rest := by
  have hsorted := List.pairwise_mergeSort lexLe_trans lexLe_total data.keys
  rw [← sectionNames] at hsorted
  cases hnames : sectionNames data with
  | nil =>
    rw [hnames] at h
    cases h
  | cons name rest =>
    rw [hnames] at hsorted h
    rcases List.mem_cons.mp h with rfl | h
    · exact ⟨rest, rfl⟩
    · have hle := (List.pairwise_cons.mp hsorted).1 [] h
      cases name with
      | nil => exact ⟨rest, rfl⟩
      | cons b name => cases hle

/-- The lines of all sections. -/
theorem foldl_names {written : Data N} (hwf : Readable numbers written)
    {names : List Bytes} (hnames : ∀ name ∈ names, WellFormedName name) (hnodup : names.Nodup)
    (data : Data N) {current : Bytes}
    (hfirst : [] ∈ names → current = [] ∧ ∃ rest, names = [] :: rest) :
    ∃ data' current', (names.flatMap fun name =>
        emitSection numbers name ((written.lookup name).getD ∅)).foldl (parseLine numbers)
        (data, current) = (data', current') ∧
      ∀ name key, get data' name key =
        if name ∈ names then (get written name key).elim (get data name key) (reread numbers)
        else get data name key := by
  induction names generalizing data current with
  | nil => exact ⟨data, current, rfl, fun _ _ => rfl⟩
  | cons name names ih =>
    obtain ⟨hfresh, hnodup⟩ := List.nodup_cons.mp hnodup
    have hgetD : ∀ key, ((written.lookup name).getD ∅).lookup key = get written name key := by
      intro key
      unfold get
      cases written.lookup name with
      | none => rfl
      | some keys => rfl
    have hkeys : ∀ key value, ((written.lookup name).getD ∅).lookup key = some value →
        ReadableEntry numbers key value := by
      intro key value hvalue
      exact hwf.keys name key value (hgetD key ▸ hvalue)
    have hcurrent : name = [] → current = [] := fun hnil =>
      (hfirst (hnil ▸ List.mem_cons_self)).1
    have hlater : [] ∈ names → False := by
      intro hmem
      obtain ⟨-, rest, heq⟩ := hfirst (List.mem_cons_of_mem name hmem)
      exact hfresh ((List.cons.inj heq).1 ▸ hmem)
    obtain ⟨data₁, hsection, hget₁⟩ :=
      foldl_section (hnames name List.mem_cons_self) hkeys data hcurrent
    have hnever : [] ∈ names → name = [] ∧ ∃ rest, names = [] :: rest :=
      fun hmem => (hlater hmem).elim
    obtain ⟨data₂, current₂, hrest, hget₂⟩ :=
      ih (fun n hn => hnames n (List.mem_cons_of_mem name hn)) hnodup data₁ hnever
    refine ⟨data₂, current₂, ?_, ?_⟩
    · rw [List.flatMap_cons, List.foldl_append, hsection, hrest]
    · intro name' key
      rw [hget₂, hget₁, hgetD]
      by_cases hname : name' = name
      · subst hname
        simp [hfresh]
      · simp [hname, List.mem_cons]

/-- No line of a section holds a line end. -/
theorem emitSection_lf {name : Bytes} (hname : WellFormedName name) {keys : Section N}
    (hkeys : ∀ key value, keys.lookup key = some value → ReadableEntry numbers key value) :
    ∀ line ∈ emitSection numbers name keys, 0x0A ∉ line := by
  intro line hline
  simp only [emitSection, List.mem_append, List.mem_map, List.mem_singleton] at hline
  rcases hline with (hline | ⟨⟨key, value⟩, he, rfl⟩) | rfl
  · split at hline
    · cases hline
    · obtain rfl := List.mem_singleton.mp hline
      have hbody := hname.oneLine
      simp only [List.mem_append, List.mem_singleton, not_or]
      exact ⟨⟨by decide, hbody⟩, by decide⟩
  · have hkey := hkeys key value (List.mem_dlookup keys.nodupKeys he)
    have hfront := hkey.oneLine
    have hback := hkey.value
    simp only [entryLine, List.mem_append, not_or]
    exact ⟨⟨hfront, by decide⟩, hback⟩
  · exact List.not_mem_nil

/-- A readable configuration is read back from its text: every key has what its value
is read as. -/
theorem parse_reread {data : Data N} (h : Readable numbers data) (name key : Bytes) :
    get (parse numbers (serialize numbers data)) name key =
      (get data name key).bind (reread numbers) := by
  have hmem : ∀ n, n ∈ sectionNames data ↔ n ∈ data := by
    intro n
    rw [sectionNames, List.mem_mergeSort, AList.mem_keys]
  have hnames : ∀ n ∈ sectionNames data, WellFormedName n := fun n hn => h.names n ((hmem n).mp hn)
  have hnodup : (sectionNames data).Nodup :=
    (List.mergeSort_perm data.keys lexLe).nodup_iff.mpr data.keys_nodup
  have hstart : [] ∈ sectionNames data →
      ([] : Bytes) = [] ∧ ∃ rest, sectionNames data = [] :: rest :=
    fun hnil => ⟨rfl, sectionNames_head data hnil⟩
  obtain ⟨data', current, hfold, hget⟩ := foldl_names h hnames hnodup ∅ hstart
  have hparse : parse numbers (serialize numbers data) = data' := by
    unfold parse serialize
    by_cases hempty : sectionNames data = []
    · rw [hempty] at hfold ⊢
      exact congrArg Prod.fst hfold
    · rw [gmatchLines_intercalate, hfold]
      · obtain ⟨n, ns, hcons⟩ := List.exists_cons_of_ne_nil hempty
        rw [hcons, List.flatMap_cons]
        exact List.append_ne_nil_of_left_ne_nil (by simp [emitSection]) _
      · intro line hline
        obtain ⟨n, hn, hline⟩ := List.mem_flatMap.mp hline
        refine emitSection_lf (hnames n hn) ?_ line hline
        intro k v hv
        apply h.keys n k v
        unfold get
        cases hkeys : data.lookup n with
        | none =>
          rw [hkeys] at hv
          cases hv
        | some keys =>
          rw [hkeys] at hv
          exact hv
  rw [hparse, hget]
  split
  · cases get data name key <;> rfl
  · rename_i hnot
    have hnone : data.lookup name = none :=
      AList.lookup_eq_none.mpr fun hin => hnot ((hmem name).mpr hin)
    rw [get, get, hnone]
    rfl

/-- A configuration with well-formed names is read back from its text: every key has the
value it had, of the same type. -/
theorem parse_serialize (hlaw : numbers.Lawful) {data : Data N} (h : WellFormed numbers data)
    (name key : Bytes) :
    get (parse numbers (serialize numbers data)) name key = get data name key := by
  rw [parse_reread (h.readable hlaw)]
  cases hget : get data name key with
  | none => rfl
  | some value => exact parseValue_dumpValue hlaw (h.keys name key value hget).2

/-! A runtime whose numbers are the integers. -/

/-- The value of decimal digits. -/
def digitsValue (s : Bytes) : Nat := Nat.ofDigits 10 (s.reverse.map fun b => b.toNat - 0x30)

def integerNumbers : Numbers Int where
  ofInt := id
  tostring := decimal
  tonumber s :=
    match s with
    | 0x2D :: rest => some (-(digitsValue rest : Int))
    | _ => some (digitsValue s : Int)

theorem digitsValue_decimalDigits (n : Nat) : digitsValue (decimalDigits n) = n := by
  unfold digitsValue decimalDigits
  split
  · rename_i hn
    subst hn
    rfl
  · rw [← List.map_reverse, List.reverse_reverse, List.map_map]
    have hid : (Nat.digits 10 n).map ((fun b : UInt8 => b.toNat - 0x30) ∘
        fun d => UInt8.ofNat (0x30 + d)) = Nat.digits 10 n := by
      have hdigit : ∀ d ∈ Nat.digits 10 n,
          ((fun b : UInt8 => b.toNat - 0x30) ∘ fun d => UInt8.ofNat (0x30 + d)) d = id d := by
        intro d hd
        have hlt := Nat.digits_lt_base (by decide) hd
        simp only [Function.comp_apply, UInt8.toNat_ofNat', id_eq]
        omega
      rw [List.map_congr_left hdigit, List.map_id]
    rw [hid, Nat.ofDigits_digits]

theorem integerNumbers_lawful : integerNumbers.Lawful where
  tostring_int _ _ := rfl
  tonumber_int n _ := by
    have hvalue := digitsValue_decimalDigits n.natAbs
    unfold decimal
    split
    · simp only [integerNumbers, List.singleton_append, hvalue, id_eq]
      congr 1
      omega
    · obtain ⟨hne, hdigits⟩ := decimalDigits_digits n.natAbs
      obtain ⟨d, ds, hcons⟩ := List.exists_cons_of_ne_nil hne
      have hminus := (digit_facts (hdigits d (hcons ▸ List.mem_cons_self))).2.2.2.1
      rw [List.nil_append]
      simp only [integerNumbers]
      split
      · rename_i heq
        rw [hcons] at heq
        exact absurd (List.cons.inj heq).1 hminus
      · rw [hvalue, id_eq]
        congr 1
        omega

/-- A command of two lines with quotes before any section, and a negative number in one. -/
def sampleData : Data Int :=
  assign (assign ∅ [] [0x61] (some (.string [0x20, 0x22, 0x0A, 0x5C, 0x09])))
    [0x73] [0x6E] (some (.number (-42)))

theorem sampleData_wellFormed : WellFormed integerNumbers sampleData where
  names := by
    intro name hname
    rw [sampleData, assign, AList.mem_insert, assign, AList.mem_insert] at hname
    rcases hname with rfl | rfl | hname
    · exact ⟨rfl, by decide, by decide⟩
    · exact ⟨rfl, by decide, by decide⟩
    · exact absurd hname (AList.notMem_empty _)
  keys := by
    intro name key value hvalue
    rw [sampleData, get_assign, get_assign] at hvalue
    split at hvalue
    · rename_i hkey
      obtain ⟨-, rfl⟩ := hkey
      obtain rfl := Option.some.inj hvalue
      exact ⟨⟨by decide, rfl, by decide, by decide, by decide, by decide⟩, -42, by decide, rfl⟩
    · split at hvalue
      · rename_i hkey
        obtain ⟨-, rfl⟩ := hkey
        obtain rfl := Option.some.inj hvalue
        exact ⟨⟨by decide, rfl, by decide, by decide, by decide, by decide⟩, trivial⟩
      · cases hvalue

theorem parse_serialize_sample :
    get (parse integerNumbers (serialize integerNumbers sampleData)) [0x73] [0x6E] =
      get sampleData [0x73] [0x6E] :=
  parse_serialize integerNumbers_lawful sampleData_wellFormed [0x73] [0x6E]

end Xcom.Config
