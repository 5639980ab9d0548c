import Xcom.Config.Readable
import Xcom.Pages.Book

/-!
# The pages in the configuration

The entries of a page have keys of their own.  A save writes every page the program has
under them, beside what earlier saves left, and the next start reads those pages.
-/

namespace Xcom.Pages

open Config (Bytes Value Data Numbers WellFormedKey WellFormedName Readable ReadableEntry)

variable {N : Type}

/-- The laws of the numbers of the runtime. -/
structure LuaNumbers.Lawful (numbers : LuaNumbers N) : Prop where
  integers : numbers.toNumbers.Lawful
  plain : numbers.toNumbers.Plain
  floor_int : ∀ n : Int, n.natAbs < 10 ^ 14 → numbers.floor (numbers.ofInt n) = n

/-! ## Names and keys -/

/-- A byte that means nothing to the format. -/
def ordinary (b : UInt8) : Bool := !Config.isSpace b && b != 0x3D && b != 0x5D

theorem ordinary_iff {b : UInt8} :
    ordinary b = true ↔ Config.isSpace b = false ∧ b ≠ 0x3D ∧ b ≠ 0x5D := by
  simp [ordinary, and_assoc]

theorem ordinary_of_mem {s : Bytes} (h : s.all ordinary = true) {b : UInt8} (hb : b ∈ s) :
    Config.isSpace b = false ∧ b ≠ 0x3D ∧ b ≠ 0x5D :=
  ordinary_iff.mp (List.all_eq_true.mp h b hb)

theorem trim_ordinary {s : Bytes} (h : s.all ordinary = true) : Config.trim s = s := by
  apply Config.trim_eq_self
  · intro c hc
    exact (ordinary_of_mem h (List.mem_of_mem_head? hc)).1
  · intro c hc
    exact (ordinary_of_mem h (List.mem_of_getLast? hc)).1

theorem wellFormedName_ordinary {s : Bytes} (h : s.all ordinary = true) : WellFormedName s where
  trimmed := trim_ordinary h
  oneLine hmem := absurd (ordinary_of_mem h hmem).1 (by decide)
  noBracket hmem := (ordinary_of_mem h hmem).2.2 rfl

theorem wellFormedKey_ordinary {s : Bytes} (h : s.all ordinary = true)
    (hhead : s.head? ∉ [none, some 0x5B, some 0x3B, some 0x23]) : WellFormedKey s where
  nonempty := by
    rintro rfl
    exact hhead (by decide)
  trimmed := trim_ordinary h
  oneLine hmem := absurd (ordinary_of_mem h hmem).1 (by decide)
  noEquals hmem := (ordinary_of_mem h hmem).2.1 rfl
  noHeader heq := hhead (by rw [heq]; decide)
  noComment := ⟨fun heq => hhead (by rw [heq]; decide), fun heq => hhead (by rw [heq]; decide)⟩

theorem decimalDigits_ordinary (n : Nat) : (Config.decimalDigits n).all ordinary = true := by
  rw [List.all_eq_true]
  intro b hb
  have hdigit := (Config.decimalDigits_digits n).2 b hb
  have hne : ∀ c : UInt8, Config.isDigit c = false → b ≠ c := by
    rintro c hc rfl
    rw [hdigit] at hc
    cases hc
  exact ordinary_iff.mpr
    ⟨(Config.digit_facts hdigit).1, hne _ (by decide), hne _ (by decide)⟩

theorem decimalDigits_dot (n : Nat) : 0x2E ∉ Config.decimalDigits n := by
  intro hmem
  exact absurd ((Config.decimalDigits_digits n).2 _ hmem) (by decide)

theorem decimalDigits_inj {m n : Nat} (h : Config.decimalDigits m = Config.decimalDigits n) :
    m = n := by
  rw [← Config.digitsValue_decimalDigits m, h, Config.digitsValue_decimalDigits]

/-- A text up to its first dot. -/
theorem append_dot_inj {a a' rest rest' : Bytes} (ha : 0x2E ∉ a) (ha' : 0x2E ∉ a')
    (h : a ++ 0x2E :: rest = a' ++ 0x2E :: rest') : a = a' ∧ rest = rest' := by
  induction a generalizing a' with
  | nil =>
    cases a' with
    | nil => exact ⟨rfl, (List.cons.inj h).2⟩
    | cons b a' => exact absurd ((List.cons.inj h).1 ▸ List.mem_cons_self) ha'
  | cons b a ih =>
    cases a' with
    | nil => exact absurd ((List.cons.inj h).1 ▸ List.mem_cons_self) ha
    | cons b' a' =>
      obtain ⟨hb, h⟩ := List.cons.inj h
      obtain ⟨ha, hrest⟩ := ih (fun hmem => ha (List.mem_cons_of_mem b hmem))
        (fun hmem => ha' (List.mem_cons_of_mem b' hmem)) h
      exact ⟨by rw [hb, ha], hrest⟩

/-- Different entries have different keys. -/
theorem entryKey_inj {page page' : Nat} {slot slot' : Slot} {key key' : Bytes}
    (h : entryKey page slot key = entryKey page' slot' key') :
    page = page' ∧ slot = slot' ∧ key = key' := by
  obtain ⟨hpage, h⟩ := append_dot_inj (decimalDigits_dot _) (decimalDigits_dot _)
    (List.append_cancel_left h)
  obtain ⟨hslot, hkey⟩ := append_dot_inj (decimalDigits_dot _) (decimalDigits_dot _) h
  exact ⟨decimalDigits_inj hpage, Fin.val_injective (decimalDigits_inj hslot), hkey⟩

theorem entryKey_wellFormed (page : Nat) (slot : Slot) {key : Bytes}
    (hkey : key.all ordinary = true) : WellFormedKey (entryKey page slot key) := by
  have hprefix : (bytes "entry.").all ordinary = true := by decide
  have hdot : ordinary 0x2E = true := by decide
  apply wellFormedKey_ordinary
  · rw [entryKey, List.all_append, List.all_append, List.all_cons, List.all_append, List.all_cons,
      hprefix, decimalDigits_ordinary, hdot, decimalDigits_ordinary, hkey]
    rfl
  · have hhead : (entryKey page slot key).head? = some 0x65 := rfl
    rw [hhead]
    decide

/-- The names of the other settings can be read back. -/
theorem SettingKey.wellFormed (k : SettingKey) :
    WellFormedName k.place.1 ∧ WellFormedKey k.place.2 := by
  cases k with
  | fixed i =>
    have htable : ∀ k ∈ settingKeys, (bytes k.1).all ordinary = true ∧
        (bytes k.2).all ordinary = true ∧
        (bytes k.2).head? ∉ [none, some 0x5B, some 0x3B, some 0x23] := by
      decide +kernel
    obtain ⟨hname, hkey, hhead⟩ := htable _ (List.get_mem settingKeys i)
    exact ⟨wellFormedName_ordinary hname, wellFormedKey_ordinary hkey hhead⟩
  | history index =>
    have hname : (bytes "send").all ordinary = true := by decide
    have hprefix : (bytes "history.").all ordinary = true := by decide
    refine ⟨wellFormedName_ordinary hname, wellFormedKey_ordinary ?_ ?_⟩
    · show (bytes "history." ++ Config.decimalDigits index).all ordinary = true
      rw [List.all_append, hprefix, decimalDigits_ordinary]
      rfl
    · have hhead : (SettingKey.history index).place.2.head? = some 0x68 := rfl
      rw [hhead]
      decide

/-- No other setting stands where the pages do. -/
theorem SettingKey.not_page (k : SettingKey) (hname : k.place.1 = bytes "multipage") :
    k.place.2 ≠ bytes "page_count" ∧ k.place.2 ≠ bytes "page" ∧
      ∀ page slot key, k.place.2 ≠ entryKey page slot key := by
  cases k with
  | fixed i =>
    have htable : ∀ k ∈ settingKeys, bytes k.1 = bytes "multipage" →
        bytes k.2 ≠ bytes "page_count" ∧ bytes k.2 ≠ bytes "page" ∧
        (bytes k.2).take 6 ≠ bytes "entry." := by
      decide +kernel
    obtain ⟨hcount, hpage, hentry⟩ := htable _ (List.get_mem settingKeys i) hname
    refine ⟨hcount, hpage, ?_⟩
    intro page slot key heq
    apply hentry
    show (SettingKey.fixed i).place.2.take 6 = _
    rw [heq]
    rfl
  | history index =>
    have hsend : bytes "send" ≠ bytes "multipage" := by decide
    exact absurd hname hsend

/-! ## Writing -/

theorem applyWrites_cons (data : Data N) (w : Write N) (writes : List (Write N)) :
    applyWrites data (w :: writes) =
      applyWrites (Config.assign data w.1 w.2.1 w.2.2) writes := rfl

/-- A key that no write names keeps its value. -/
theorem get_applyWrites_other {writes : List (Write N)} {name key : Bytes}
    (h : ∀ w ∈ writes, ¬(w.1 = name ∧ w.2.1 = key)) (data : Data N) :
    Config.get (applyWrites data writes) name key = Config.get data name key := by
  induction writes generalizing data with
  | nil => rfl
  | cons w writes ih =>
    rw [applyWrites_cons, ih fun w' hw' => h w' (List.mem_cons_of_mem w hw'), Config.get_assign,
      if_neg]
    rintro ⟨hname, hkey⟩
    exact h w List.mem_cons_self ⟨hname.symm, hkey.symm⟩

/-- A key whose writes agree has their value. -/
theorem get_applyWrites {writes : List (Write N)} {name key : Bytes} {value : Option (Value N)}
    (hmem : (name, key, value) ∈ writes)
    (hall : ∀ w ∈ writes, w.1 = name → w.2.1 = key → w.2.2 = value) (data : Data N) :
    Config.get (applyWrites data writes) name key = value := by
  induction writes generalizing data with
  | nil => cases hmem
  | cons w writes ih =>
    have hlater : ∀ w' ∈ writes, w'.1 = name → w'.2.1 = key → w'.2.2 = value :=
      fun w' hw' => hall w' (List.mem_cons_of_mem w hw')
    rw [applyWrites_cons]
    by_cases hagain : ∃ w' ∈ writes, w'.1 = name ∧ w'.2.1 = key
    · obtain ⟨w', hw', hname, hkey⟩ := hagain
      have hvalue := hlater w' hw' hname hkey
      apply ih _ hlater
      rw [← hname, ← hkey, ← hvalue]
      exact hw'
    · rw [get_applyWrites_other fun w' hw' heq => hagain ⟨w', hw', heq⟩]
      rcases List.mem_cons.mp hmem with rfl | hmem
      · rw [Config.get_assign, if_pos ⟨rfl, rfl⟩]
      · exact absurd ⟨_, hmem, rfl, rfl⟩ hagain

theorem Readable.applyWrites {numbers : Numbers N} (hplain : numbers.Plain)
    {writes : List (Write N)}
    (h : ∀ w ∈ writes, WellFormedName w.1 ∧ WellFormedKey w.2.1) {data : Data N}
    (hdata : Readable numbers data) : Readable numbers (applyWrites data writes) := by
  induction writes generalizing data with
  | nil => exact hdata
  | cons w writes ih =>
    obtain ⟨hname, hkey⟩ := h w List.mem_cons_self
    apply ih fun w' hw' => h w' (List.mem_cons_of_mem w hw')
    apply hdata.assign hname
    intro v _
    exact ⟨hkey.nonempty, hkey.trimmed, hkey.oneLine, hkey.noEquals, hkey.noComment,
      fun hhead => absurd hhead hkey.noHeader, Config.dumpValue_oneLine hplain v⟩

/-! ## What a save writes -/

theorem mem_pageWrites {page : Page N} {index : Nat} {w : Write N} :
    w ∈ pageWrites page index ↔ ∃ slot,
      w = (bytes "multipage", entryKey index slot (bytes "text"),
        some (orEmpty (page.text slot))) ∨
      w = (bytes "multipage", entryKey index slot (bytes "enabled"),
        some (.boolean (isTrue (page.enabled slot)))) := by
  simp [pageWrites]

theorem mem_settingWrites {settings : List (SettingKey × Option (Value N))} {w : Write N}
    (h : w ∈ settingWrites settings) : ∃ (k : SettingKey) (v : Option (Value N)),
      w = (k.place.1, k.place.2, v) := by
  obtain ⟨s, -, rfl⟩ := List.mem_map.mp h
  exact ⟨s.1, s.2, rfl⟩

/-- The calls of a save: another setting, the two numbers of the pages, or an entry of a
page. -/
theorem mem_saveWrites {numbers : Numbers N} {settings : Settings N} {b : Bridge N}
    {w : Write N} (h : w ∈ saveWrites numbers settings b) :
    (∃ (k : SettingKey) (v : Option (Value N)), w = (k.place.1, k.place.2, v)) ∨
      w = (bytes "multipage", bytes "page_count", some (.number (numbers.ofInt b.multiPageCount))) ∨
      (∃ index page, b.pages[index]? = some page ∧ w ∈ pageWrites page index) ∨
      w = (bytes "multipage", bytes "page", some (.number (numbers.ofInt b.multiPage))) := by
  simp only [saveWrites, List.mem_append, List.mem_cons, List.mem_flatMap] at h
  rcases h with ((h | rfl | ⟨e, he, h⟩) | h) | rfl | h
  · exact .inl (mem_settingWrites h)
  · exact .inr (.inl rfl)
  · exact .inr (.inr (.inl ⟨e.2, e.1, List.mem_zipIdx_iff_getElem?.mp he, h⟩))
  · exact .inl (mem_settingWrites h)
  · exact .inr (.inr (.inr rfl))
  · exact .inl (mem_settingWrites h)

/-- Every call names what can be read back. -/
theorem saveWrites_wellFormed (numbers : Numbers N) (settings : Settings N) (b : Bridge N) :
    ∀ w ∈ saveWrites numbers settings b, WellFormedName w.1 ∧ WellFormedKey w.2.1 := by
  have hsection : (bytes "multipage").all ordinary = true := by decide
  have htext : (bytes "text").all ordinary = true := by decide
  have henabled : (bytes "enabled").all ordinary = true := by decide
  have hcount : (bytes "page_count").all ordinary = true ∧
      (bytes "page_count").head? ∉ [none, some 0x5B, some 0x3B, some 0x23] := by decide
  have hpage : (bytes "page").all ordinary = true ∧
      (bytes "page").head? ∉ [none, some 0x5B, some 0x3B, some 0x23] := by decide
  intro w hw
  rcases mem_saveWrites hw with ⟨k, v, rfl⟩ | rfl | ⟨index, page, -, hw⟩ | rfl
  · exact k.wellFormed
  · exact ⟨wellFormedName_ordinary hsection, wellFormedKey_ordinary hcount.1 hcount.2⟩
  · obtain ⟨slot, rfl | rfl⟩ := mem_pageWrites.mp hw
    · exact ⟨wellFormedName_ordinary hsection, entryKey_wellFormed index slot htext⟩
    · exact ⟨wellFormedName_ordinary hsection, entryKey_wellFormed index slot henabled⟩
  · exact ⟨wellFormedName_ordinary hsection, wellFormedKey_ordinary hpage.1 hpage.2⟩

/-- No fixed key is the key of an entry. -/
theorem entryKey_ne {page : Nat} {slot : Slot} {key other : Bytes}
    (h : other.take 6 ≠ bytes "entry.") : entryKey page slot key ≠ other := by
  rintro rfl
  exact h rfl

section

variable (numbers : Numbers N) (settings : Settings N) (b : Bridge N) (data : Data N)

theorem get_saved_count :
    Config.get (applyWrites data (saveWrites numbers settings b)) (bytes "multipage")
      (bytes "page_count") = some (.number (numbers.ofInt b.multiPageCount)) := by
  have hentry : (bytes "page_count").take 6 ≠ bytes "entry." := by decide
  have hother : bytes "page" ≠ bytes "page_count" := by decide
  apply get_applyWrites
  · simp [saveWrites]
  · intro w hw hname hkey
    rcases mem_saveWrites hw with ⟨k, v, rfl⟩ | rfl | ⟨index, page, -, hw⟩ | rfl
    · exact absurd hkey (k.not_page hname).1
    · rfl
    · obtain ⟨slot, rfl | rfl⟩ := mem_pageWrites.mp hw
      · exact absurd hkey (entryKey_ne hentry)
      · exact absurd hkey (entryKey_ne hentry)
    · exact absurd hkey hother

theorem get_saved_page :
    Config.get (applyWrites data (saveWrites numbers settings b)) (bytes "multipage")
      (bytes "page") = some (.number (numbers.ofInt b.multiPage)) := by
  have hentry : (bytes "page").take 6 ≠ bytes "entry." := by decide
  have hother : bytes "page_count" ≠ bytes "page" := by decide
  apply get_applyWrites
  · simp [saveWrites]
  · intro w hw hname hkey
    rcases mem_saveWrites hw with ⟨k, v, rfl⟩ | rfl | ⟨index, page, -, hw⟩ | rfl
    · exact absurd hkey (k.not_page hname).2.1
    · exact absurd hkey hother
    · obtain ⟨slot, rfl | rfl⟩ := mem_pageWrites.mp hw
      · exact absurd hkey (entryKey_ne hentry)
      · exact absurd hkey (entryKey_ne hentry)
    · rfl

/-- A write of a page is the one its key has. -/
theorem get_saved_entry {index : Nat} {page : Page N} (hpage : b.pages[index]? = some page)
    {w : Write N} (hw : w ∈ pageWrites page index) :
    Config.get (applyWrites data (saveWrites numbers settings b)) w.1 w.2.1 = w.2.2 := by
  have hcount : (bytes "page_count").take 6 ≠ bytes "entry." := by decide
  have hcurrent : (bytes "page").take 6 ≠ bytes "entry." := by decide
  have hfields : bytes "text" ≠ bytes "enabled" := by decide
  have hwrite : ∃ slot key, w.1 = bytes "multipage" ∧ w.2.1 = entryKey index slot key := by
    obtain ⟨slot, rfl | rfl⟩ := mem_pageWrites.mp hw
    · exact ⟨slot, _, rfl, rfl⟩
    · exact ⟨slot, _, rfl, rfl⟩
  obtain ⟨slot, key, hname, hkey⟩ := hwrite
  apply get_applyWrites
  · simp only [saveWrites, List.mem_append, List.mem_cons, List.mem_flatMap]
    exact .inl (.inl (.inr (.inr ⟨(page, index), List.mem_zipIdx_iff_getElem?.mpr hpage, hw⟩)))
  · intro w' hw' hname' hkey'
    rw [hname] at hname'
    rcases mem_saveWrites hw' with ⟨k, v, rfl⟩ | rfl | ⟨index', page', hpage', hw'⟩ | rfl
    · exact absurd (hkey'.trans hkey) ((k.not_page hname').2.2 _ _ _)
    · exact absurd (hkey'.trans hkey).symm (entryKey_ne hcount)
    · obtain ⟨slot₁, hw₁⟩ := mem_pageWrites.mp hw
      obtain ⟨slot₂, hw₂⟩ := mem_pageWrites.mp hw'
      -- the same key is the same page, slot and field
      rcases hw₁ with rfl | rfl
      · rcases hw₂ with rfl | rfl
        · obtain ⟨rfl, rfl, -⟩ := entryKey_inj hkey'
          obtain rfl := Option.some.inj (hpage.symm.trans hpage')
          rfl
        · exact absurd (entryKey_inj hkey').2.2.symm hfields
      · rcases hw₂ with rfl | rfl
        · exact absurd (entryKey_inj hkey').2.2 hfields
        · obtain ⟨rfl, rfl, -⟩ := entryKey_inj hkey'
          obtain rfl := Option.some.inj (hpage.symm.trans hpage')
          rfl
    · exact absurd (hkey'.trans hkey).symm (entryKey_ne hcurrent)

/-- A setting outside the pages that no other call of the save names. -/
theorem get_saved_setting {key : SettingKey} (hsection : key.place.1 ≠ bytes "multipage")
    (value : Option (Value N)) (later : List (SettingKey × Option (Value N)))
    (hothers : ∀ setting ∈ settings.before ++ later ++ settings.between ++ settings.after,
      setting.1.place ≠ key.place) :
    Config.get (applyWrites data (saveWrites numbers
      { settings with before := settings.before ++ (key, value) :: later } b))
      key.place.1 key.place.2 = value := by
  have hother : ∀ setting ∈ settings.before ++ later ++ settings.between ++ settings.after,
      ¬(setting.1.place.1 = key.place.1 ∧ setting.1.place.2 = key.place.2) :=
    fun setting hmem hplace => hothers setting hmem (Prod.ext hplace.1 hplace.2)
  apply get_applyWrites
  · simp [saveWrites, settingWrites]
  · intro w hw hname hkey
    simp only [saveWrites, settingWrites, List.mem_append, List.mem_cons, List.mem_map,
      List.mem_flatMap, List.map_append, List.map_cons] at hw hother
    rcases hw with (((⟨x, hx, rfl⟩ | rfl | ⟨x, hx, rfl⟩) | rfl | ⟨e, -, he⟩) | ⟨x, hx, rfl⟩) |
      rfl | ⟨x, hx, rfl⟩
    · exact absurd ⟨hname, hkey⟩ (hother x (.inl (.inl (.inl hx))))
    · rfl
    · exact absurd ⟨hname, hkey⟩ (hother x (.inl (.inl (.inr hx))))
    · exact absurd hname.symm hsection
    · obtain ⟨slot, rfl | rfl⟩ := mem_pageWrites.mp he
      · exact absurd hname.symm hsection
      · exact absurd hname.symm hsection
    · exact absurd ⟨hname, hkey⟩ (hother x (.inl (.inr hx)))
    · exact absurd hname.symm hsection
    · exact absurd ⟨hname, hkey⟩ (hother x (.inr hx))

end

/-! ## Reading the pages back -/

variable {numbers : LuaNumbers N}

/-- What a value is after it was written and read. -/
theorem get_reloaded (hlaw : numbers.Lawful) {data : Data N}
    (h : Readable numbers.toNumbers data) {name key : Bytes} {value : Value N}
    (hget : Config.get data name key = some value) (hvalue : value.Writable numbers.toNumbers) :
    Config.get (loadConfig numbers.toNumbers (some (Config.serialize numbers.toNumbers data)))
      name key = some value := by
  show Config.get (Config.parse _ _) name key = some value
  rw [Config.parse_reread h, hget, Option.bind_some]
  exact Config.parseValue_dumpValue hlaw.integers hvalue

theorem loadConfig_readable (hlaw : numbers.Lawful) (file : Option Bytes) :
    Readable numbers.toNumbers (loadConfig numbers.toNumbers file) := by
  cases file with
  | some content => exact Config.parse_readable hlaw.plain content
  | none =>
    constructor
    · intro name hname
      rw [loadConfig, AList.mem_insert] at hname
      rcases hname with rfl | hname
      · exact ⟨rfl, List.not_mem_nil, List.not_mem_nil⟩
      · exact absurd hname (AList.notMem_empty _)
    · intro name key value hget
      rw [loadConfig, Config.get] at hget
      by_cases hname : name = []
      · subst hname
        rw [AList.lookup_insert] at hget
        cases hget
      · rw [AList.lookup_insert_ne hname] at hget
        cases hget

/-- A page as its entries are written. -/
def Page.written (page : Page N) : Page N where
  text slot := some (orEmpty (page.text slot))
  enabled slot := some (.boolean (isTrue (page.enabled slot)))

/-- A page that fits is written as it is. -/
theorem Page.Fits.written {page : Page N} (h : page.Fits) :
    page.written.Fits ∧ page.written.slots = page.slots ∧
      ∀ slot, ∃ s, orEmpty (page.text slot) = .string s := by
  have hentry : ∀ slot, ∃ s : Bytes, orEmpty (page.text slot) = .string s ∧
      entryText (page.text slot) = some s ∧ s.length ≤ multiSlotCapacity - 1 ∧ 0 ∉ s := by
    intro slot
    rcases (h slot).1 with hnone | ⟨s, hs, hlen, hzero⟩
    · rw [hnone]
      exact ⟨[], rfl, rfl, Nat.zero_le _, List.not_mem_nil⟩
    · rw [hs]
      exact ⟨s, rfl, rfl, hlen, hzero⟩
  have hflag : ∀ slot, isTrue (page.enabled slot) = truthy (page.enabled slot) := by
    intro slot
    rcases (h slot).2 with hnone | ⟨on, hon⟩
    · rw [hnone]
      rfl
    · rw [hon]
      rfl
  refine ⟨?_, ?_, ?_⟩
  · intro slot
    obtain ⟨s, hs, -, hlen, hzero⟩ := hentry slot
    exact ⟨.inr ⟨s, congrArg some hs, hlen, hzero⟩, .inr ⟨_, rfl⟩⟩
  · funext slot
    obtain ⟨s, hs, htext, -⟩ := hentry slot
    apply Prod.ext
    · show (entryText (some (orEmpty (page.text slot)))).getD [] = _
      rw [hs]
      show s = (entryText (page.text slot)).getD []
      rw [htext]
      rfl
    · exact hflag slot
  · intro slot
    obtain ⟨s, hs, -⟩ := hentry slot
    exact ⟨s, hs⟩

/-- The next start finds the pages that were saved. -/
theorem quickPages_saved (hlaw : numbers.Lawful) (settings : Settings N) {b : Bridge N}
    {data : Data N} (hdata : Readable numbers.toNumbers data) {pages : List Slots}
    (hstored : b.Stored pages) (hcount : b.multiPageCount = b.pages.length)
    (hpositive : 0 < b.pages.length) (hle : b.pages.length ≤ 50) :
    ∃ loaded, quickPages numbers (loadConfig numbers.toNumbers (some (Config.serialize
        numbers.toNumbers (applyWrites data (saveWrites numbers.toNumbers settings b))))) =
        some loaded ∧
      loaded.map Page.slots = pages ∧ ∀ page ∈ loaded, page.Fits := by
  have hreadable := Readable.applyWrites hlaw.plain
    (saveWrites_wellFormed numbers.toNumbers settings b) hdata
  have hnumber : (Value.number (numbers.ofInt b.multiPageCount)).Writable numbers.toNumbers :=
    ⟨b.multiPageCount, by omega, rfl⟩
  have hget := get_reloaded hlaw hreadable
    (get_saved_count numbers.toNumbers settings b data) hnumber
  have hturns : max 1 (min (numbers.floor (numbers.ofInt b.multiPageCount)) 50) =
      b.multiPageCount := by
    rw [hlaw.floor_int _ (by omega)]
    omega
  refine ⟨b.pages.map Page.written, ?_, ?_, ?_⟩
  · rw [quickPages, hget, pageCount, Option.map_some, hturns, hcount, Int.toNat_natCast]
    congr 1
    apply List.ext_getElem
    · rw [List.length_map, List.length_map, List.length_range]
    · intro index hindex hindex'
      rw [List.length_map, List.length_range] at hindex
      rw [List.getElem_map, List.getElem_map, List.getElem_range]
      have hpage := List.getElem?_eq_getElem hindex
      have hwritten := (hstored.fits _ (List.getElem_mem hindex)).written
      rw [Page.written, Page.mk.injEq]
      constructor
      · funext slot
        obtain ⟨s, hs⟩ := hwritten.2.2 slot
        have hwrite := get_saved_entry numbers.toNumbers settings b data hpage
          (mem_pageWrites.mpr ⟨slot, .inl rfl⟩)
        rw [hs] at hwrite ⊢
        rw [getMultiEntry, get_reloaded hlaw hreadable hwrite trivial]
        rfl
      · funext slot
        have hwrite := get_saved_entry numbers.toNumbers settings b data hpage
          (mem_pageWrites.mpr ⟨slot, .inr rfl⟩)
        rw [getMultiEntry, get_reloaded hlaw hreadable hwrite trivial]
        rfl
  · rw [List.map_map, ← hstored.pages]
    apply List.map_congr_left
    intro page hpage
    exact (hstored.fits page hpage).written.2.1
  · intro written hwritten
    obtain ⟨page, hpage, rfl⟩ := List.mem_map.mp hwritten
    exact (hstored.fits page hpage).written.1

end Xcom.Pages
