import Xcom.Pages.Store

/-!
# Pages of any configuration

A bare value of the configuration is read as the type it looks like, and `_load_page` takes
the length of the text of an entry whatever it is.  So the pages of a file can be shown as
long as no entry of them is a number or a bare `true`.
-/

namespace Xcom.Pages

open Config (Bytes Value Data)

variable {N : Type}

/-! ## The start with any numbers -/

/-- The numbers of the runtime with those that are `nan`. -/
structure LuaFloats (N : Type) extends LuaNumbers N where
  isNaN : N → Bool

/-- `tonumber(v)` is `nan`: the text `nan` is read so. -/
def readsNaN (numbers : LuaFloats N) : Option (Value N) → Bool
  | some (.number n) => numbers.isNaN n
  | some (.string s) => ((numbers.tonumber s).map numbers.isNaN).getD false
  | _ => false

/-- `math.max(1, math.min(v, 50))`; of a `nan` and a number `math.min` takes the second. -/
def pageTotal (numbers : LuaFloats N) (v : Option (Value N)) : Option Int :=
  if readsNaN numbers v then some 50 else pageCount numbers.toLuaNumbers v

/-- The entries of a page of the configuration. -/
def storedPage (data : Data N) (page : Nat) : Page N where
  text slot := some (getMultiEntry data page slot (bytes "text") (.string []))
  enabled slot := some (getMultiEntry data page slot (bytes "enabled") (.boolean false))

/-- `cfg.quick_pages`. -/
def storedPages (numbers : LuaFloats N) (data : Data N) : Option (List (Page N)) :=
  (pageTotal numbers (Config.get data (bytes "multipage") (bytes "page_count"))).map
    fun count => (List.range count.toNat).map (storedPage data)

/-- `set_pages`.  A `nan` passes `math.min` and `math.max`, and an `int` has the least value
for it. -/
def Bridge.setPagesAt (numbers : LuaFloats N) (b : Bridge N) (pages : List (Page N))
    (v : Option (Value N)) : Option (Bridge N) :=
  if readsNaN numbers v then
    if pages = [] then some b
    else
      { b with
        pages := pages
        multiPageCount := pages.length
        multiPage := -2 ^ 31 }.loadPage
  else b.setPages pages (initialPage numbers.toLuaNumbers v)

/-- The bridge behind the start of the program with a configuration file. -/
def startBridge (numbers : LuaFloats N) (file : Option Bytes) : Option (Bridge N) :=
  let data := loadConfig numbers.toNumbers file
  (storedPages numbers data).bind fun pages =>
    Bridge.new.setPagesAt numbers pages (Config.get data (bytes "multipage") (bytes "page"))

/-- What the user does with the pages. -/
inductive PageOp
  | edit (slot : Slot) (text : SlotText)
  | toggle (slot : Slot) (enabled : Int)
  | change (delta : Int)
  | add
  | remove

def Bridge.applyPage (b : Bridge N) : PageOp → Option (Bridge N)
  | .edit slot text => some (b.editText slot text)
  | .toggle slot enabled => some (b.toggle slot enabled)
  | .change delta => b.changePage delta
  | .add => b.addPage
  | .remove => b.removePage

/-- A run of page operations, `none` where one of them raises. -/
def Bridge.runPages (b : Bridge N) (ops : List PageOp) : Option (Bridge N) :=
  ops.foldlM Bridge.applyPage b

/-- The page on the screen is one of the pages. -/
def Bridge.InRange (b : Bridge N) : Prop :=
  0 ≤ b.multiPage ∧ b.multiPage < b.multiPageCount ∧ b.multiPageCount = b.pages.length

/-- Loading the pages of a file and showing any page never raises. -/
def PagesTotal (numbers : LuaFloats N) (file : Option Bytes) : Prop :=
  ∃ b, startBridge numbers file = some b ∧
    ∀ ops, ∃ b', b.runPages ops = some b' ∧ b'.InRange

/-! ## What a file may hold -/

/-- A value that `math.min` takes for a number. -/
def isCount (numbers : LuaFloats N) : Option (Value N) → Bool
  | none | some (.number _) => true
  | some (.string s) => (numbers.tonumber s).isSome
  | some (.boolean _) => false

/-- A value that `_load_page` can take for a text. -/
def isText : Value N → Bool
  | .string _ | .boolean false => true
  | _ => false

/-- The values of the pages are of the types they are used with. -/
structure Loadable (numbers : LuaFloats N) (data : Data N) : Prop where
  count : isCount numbers (Config.get data (bytes "multipage") (bytes "page_count")) = true
  texts : ∀ count, pageTotal numbers (Config.get data (bytes "multipage") (bytes "page_count")) =
      some count → ∀ page : Nat, page < count → ∀ slot v,
    Config.get data (bytes "multipage") (entryKey page slot (bytes "text")) = some v →
      isText v = true
  page : readsNaN numbers (Config.get data (bytes "multipage") (bytes "page")) = false

/-- Every text of a page can be taken for one. -/
def Page.Textual (page : Page N) : Prop := ∀ slot, (entryText (page.text slot)).isSome = true

/-- The pages can be shown, whichever is next. -/
structure Bridge.Sound (b : Bridge N) : Prop where
  lower : 0 ≤ b.multiPage
  upper : b.multiPage < b.pages.length
  count : b.multiPageCount = b.pages.length
  texts : ∀ page ∈ b.pages, page.Textual

theorem Bridge.Sound.inRange {b : Bridge N} (h : b.Sound) : b.InRange :=
  ⟨h.lower, h.count ▸ h.upper, h.count⟩

/-! ## Values -/

theorem entryText_isSome (v : Value N) : (entryText (some v)).isSome = isText v := by
  cases v with
  | boolean on => cases on <;> rfl
  | number n => rfl
  | string s => rfl

theorem pageTotal_isSome (numbers : LuaFloats N) (v : Option (Value N)) :
    (pageTotal numbers v).isSome = isCount numbers v := by
  unfold pageTotal
  by_cases hnan : readsNaN numbers v = true
  · rw [if_pos hnan]
    match v with
    | some (.number n) => rfl
    | some (.string s) =>
      have hsome : (numbers.tonumber s).isSome = true := by
        cases hread : numbers.tonumber s with
        | none => simp [readsNaN, hread] at hnan
        | some n => rfl
      exact hsome.symm
  · rw [if_neg hnan]
    match v with
    | none => rfl
    | some (.number n) => rfl
    | some (.string s) => exact Option.isSome_map
    | some (.boolean on) => rfl

/-- There are 1 to 50 pages. -/
theorem pageTotal_bounds {numbers : LuaFloats N} {v : Option (Value N)} {count : Int}
    (h : pageTotal numbers v = some count) : 1 ≤ count ∧ count ≤ 50 := by
  unfold pageTotal at h
  split at h
  · obtain rfl := Option.some.inj h
    omega
  · unfold pageCount at h
    split at h
    · obtain rfl := Option.some.inj h
      omega
    · obtain rfl := Option.some.inj h
      omega
    · obtain ⟨n, -, rfl⟩ := Option.map_eq_some_iff.mp h
      omega
    · cases h

theorem storedPage_textual_iff (data : Data N) (page : Nat) :
    (storedPage data page).Textual ↔ ∀ slot v,
      Config.get data (bytes "multipage") (entryKey page slot (bytes "text")) = some v →
        isText v = true := by
  apply forall_congr'
  intro slot
  show (entryText (some (getMultiEntry data page slot (bytes "text") (.string [])))).isSome =
    true ↔ _
  rw [entryText_isSome, getMultiEntry]
  cases Config.get data (bytes "multipage") (entryKey page slot (bytes "text")) with
  | none => simp [isText]
  | some v => simp

/-! ## The operations -/

variable {b : Bridge N}

theorem loadPage_iff : b.loadPage.isSome = true ↔ ∃ page, b.page = some page ∧ page.Textual := by
  unfold Bridge.loadPage
  cases b.page with
  | none => simp
  | some page =>
    rw [Option.bind_some]
    by_cases htexts : ∀ i, (entryText (page.text i)).isSome = true
    · rw [if_pos htexts]
      exact ⟨fun _ => ⟨page, rfl, htexts⟩, fun _ => rfl⟩
    · rw [if_neg htexts]
      refine ⟨nofun, ?_⟩
      rintro ⟨page', hpage, htextual⟩
      obtain rfl := Option.some.inj hpage
      exact absurd htextual htexts

theorem Bridge.Sound.page (h : b.Sound) : ∃ page ∈ b.pages, b.page = some page := by
  have hlt : b.multiPage.toNat < b.pages.length := by
    have hlower := h.lower
    have hupper := h.upper
    omega
  refine ⟨b.pages[b.multiPage.toNat], List.getElem_mem hlt, ?_⟩
  rw [Bridge.page, if_pos h.lower, List.getElem?_eq_getElem hlt]

theorem Bridge.Sound.loadPage (h : b.Sound) : ∃ b', b.loadPage = some b' ∧ b'.Sound := by
  obtain ⟨page, hmem, hpage⟩ := h.page
  have htexts : ∀ i, (entryText (page.text i)).isSome = true := h.texts page hmem
  refine ⟨b.fill page, ?_, h.lower, h.upper, h.count, h.texts⟩
  rw [Bridge.loadPage, hpage, Option.bind_some, if_pos htexts]

theorem visiblePage_textual (b : Bridge N) : b.visiblePage.Textual := fun _ => rfl

theorem Bridge.Sound.storePage (h : b.Sound) :
    b.storePage = some { b with pages := b.pages.set b.multiPage.toNat b.visiblePage } ∧
      ({ b with pages := b.pages.set b.multiPage.toNat b.visiblePage } : Bridge N).Sound := by
  obtain ⟨page, hmem, hpage⟩ := h.page
  have hlength : (b.pages.set b.multiPage.toNat b.visiblePage).length = b.pages.length :=
    List.length_set
  constructor
  · rw [Bridge.storePage, hpage]
    rfl
  · refine ⟨h.lower, ?_, ?_, ?_⟩
    · show b.multiPage < ((b.pages.set b.multiPage.toNat b.visiblePage).length : Int)
      rw [hlength]
      exact h.upper
    · show b.multiPageCount = ((b.pages.set b.multiPage.toNat b.visiblePage).length : Int)
      rw [hlength]
      exact h.count
    · intro page' hmem'
      rcases List.mem_or_eq_of_mem_set hmem' with hmem' | rfl
      · exact h.texts page' hmem'
      · exact visiblePage_textual b

/-- A page operation shows a page that is there. -/
theorem Bridge.Sound.applyPage (h : b.Sound) (op : PageOp) :
    ∃ b', b.applyPage op = some b' ∧ b'.Sound := by
  obtain ⟨hstore, hstored⟩ := h.storePage
  have hlower := hstored.lower
  have hupper := hstored.upper
  have hcount := hstored.count
  cases op with
  | edit slot text => exact ⟨_, rfl, h.lower, h.upper, h.count, h.texts⟩
  | toggle slot enabled => exact ⟨_, rfl, h.lower, h.upper, h.count, h.texts⟩
  | change delta =>
    show ∃ b', b.changePage delta = some b' ∧ _
    rw [Bridge.changePage, hstore, Option.bind_some]
    apply Bridge.Sound.loadPage
    refine ⟨?_, ?_, hcount, hstored.texts⟩
    · show 0 ≤ max 0 (min (b.multiPageCount - 1) (b.multiPage + delta))
      omega
    · show max 0 (min (b.multiPageCount - 1) (b.multiPage + delta)) < _
      dsimp only at hlower hupper hcount ⊢
      omega
  | add =>
    show ∃ b', b.addPage = some b' ∧ _
    rw [Bridge.addPage, hstore, Option.bind_some]
    split
    · exact ⟨_, rfl, hstored⟩
    · apply Bridge.Sound.loadPage
      refine ⟨?_, ?_, rfl, ?_⟩
      · dsimp only
        rw [List.length_append, List.length_singleton]
        omega
      · dsimp only
        omega
      · intro page hmem
        rcases List.mem_append.mp hmem with hmem | hmem
        · exact hstored.texts page hmem
        · rw [List.mem_singleton.mp hmem]
          exact fun _ => rfl
  | remove =>
    show ∃ b', b.removePage = some b' ∧ _
    unfold Bridge.removePage
    by_cases hone : b.multiPageCount ≤ 1
    · exact ⟨b, if_pos hone, h⟩
    · rw [if_neg hone, hstore, Option.bind_some]
      apply Bridge.Sound.loadPage
      dsimp only at hlower hupper hcount
      have hlt : b.multiPage.toNat < (b.pages.set b.multiPage.toNat b.visiblePage).length := by
        omega
      have herase := List.length_eraseIdx_of_lt hlt
      refine ⟨?_, ?_, rfl, ?_⟩
      · dsimp only
        omega
      · dsimp only
        omega
      · intro page hmem
        exact hstored.texts page (List.mem_of_mem_eraseIdx hmem)

theorem Bridge.Sound.runPages (h : b.Sound) (ops : List PageOp) :
    ∃ b', b.runPages ops = some b' ∧ b'.Sound := by
  induction ops generalizing b with
  | nil => exact ⟨b, rfl, h⟩
  | cons op ops ih =>
    obtain ⟨b₁, hstep, h₁⟩ := h.applyPage op
    obtain ⟨b₂, hrun, h₂⟩ := ih h₁
    refine ⟨b₂, ?_, h₂⟩
    rw [Bridge.runPages, List.foldlM_cons, hstep]
    exact hrun

/-! ## The start -/

/-- Pages are set: the initial page is no `nan` and has texts. -/
theorem setPagesAt_cases {numbers : LuaFloats N} {pages : List (Page N)} (hne : pages ≠ [])
    {v : Option (Value N)} {b b' : Bridge N} (h : b.setPagesAt numbers pages v = some b') :
    readsNaN numbers v = false ∧ b'.pages = pages ∧ b'.multiPageCount = pages.length ∧
      0 ≤ b'.multiPage ∧ b'.multiPage < pages.length ∧
      ∃ page, b'.page = some page ∧ page.Textual := by
  have hlength : 0 < pages.length := List.length_pos_iff.mpr hne
  unfold Bridge.setPagesAt at h
  by_cases hnan : readsNaN numbers v = true
  · rw [if_pos hnan, if_neg hne] at h
    have hnone : ({ b with
        pages := pages
        multiPageCount := pages.length
        multiPage := -2 ^ 31 } : Bridge N).page = none := rfl
    rw [Bridge.loadPage, hnone] at h
    cases h
  · rw [if_neg hnan, Bridge.setPages, if_neg hne] at h
    obtain ⟨page, hpage, htextual⟩ := loadPage_iff.mp (Option.isSome_of_eq_some h)
    have hfill := h
    have htexts : ∀ i, (entryText (page.text i)).isSome = true := htextual
    rw [Bridge.loadPage, hpage, Option.bind_some, if_pos htexts] at hfill
    obtain rfl := Option.some.inj hfill
    refine ⟨by simpa using hnan, rfl, rfl, ?_, ?_, page, hpage, htextual⟩
    · show 0 ≤ max 0 (min ((pages.length : Int) - 1) (initialPage numbers.toLuaNumbers v))
      omega
    · show max 0 (min ((pages.length : Int) - 1) (initialPage numbers.toLuaNumbers v)) < _
      omega

theorem setPagesAt_sound {numbers : LuaFloats N} {pages : List (Page N)} (hne : pages ≠ [])
    {v : Option (Value N)} (hnan : readsNaN numbers v = false)
    (htexts : ∀ page ∈ pages, page.Textual) (b : Bridge N) :
    ∃ b', b.setPagesAt numbers pages v = some b' ∧ b'.Sound := by
  have hlength : 0 < pages.length := List.length_pos_iff.mpr hne
  rw [Bridge.setPagesAt, if_neg (by rw [hnan]; exact Bool.false_ne_true), Bridge.setPages,
    if_neg hne]
  apply Bridge.Sound.loadPage
  refine ⟨?_, ?_, rfl, htexts⟩
  · show 0 ≤ max 0 (min ((pages.length : Int) - 1) (initialPage numbers.toLuaNumbers v))
    omega
  · show max 0 (min ((pages.length : Int) - 1) (initialPage numbers.toLuaNumbers v)) < _
    dsimp only
    omega

/-- A page that can be turned to has texts. -/
theorem textual_of_change {b b' : Bridge N} (hlower : 0 ≤ b.multiPage)
    (hcount : b.multiPageCount = b.pages.length)
    (hcurrent : ∃ page, b.page = some page ∧ page.Textual) {j : Nat} {page : Page N}
    (hpage : b.pages[j]? = some page) (h : b.changePage (j - b.multiPage) = some b') :
    page.Textual := by
  obtain ⟨current, hcur, htextual⟩ := hcurrent
  have hj : j < b.pages.length := (List.getElem?_eq_some_iff.mp hpage).1
  by_cases hsame : b.multiPage = j
  · rw [Bridge.page, if_pos hlower, hsame, Int.toNat_natCast, hpage] at hcur
    obtain rfl := Option.some.inj hcur
    exact htextual
  · have hstore : b.storePage =
        some { b with pages := b.pages.set b.multiPage.toNat b.visiblePage } := by
      rw [Bridge.storePage, hcur]
      rfl
    have hindex : max 0 (min (b.multiPageCount - 1) (b.multiPage + (j - b.multiPage))) =
        (j : Int) := by
      omega
    rw [Bridge.changePage, hstore, Option.bind_some] at h
    obtain ⟨shown, hshown, hshownTexts⟩ := loadPage_iff.mp (Option.isSome_of_eq_some h)
    have hother : b.multiPage.toNat ≠ j := by omega
    rw [Bridge.page, hindex, if_pos (Int.natCast_nonneg j), Int.toNat_natCast,
      List.getElem?_set_ne hother, hpage] at hshown
    obtain rfl := Option.some.inj hshown
    exact hshownTexts

theorem storedPages_ne_nil {numbers : LuaFloats N} {data : Data N} {pages : List (Page N)}
    (h : storedPages numbers data = some pages) : pages ≠ [] := by
  obtain ⟨count, hcount, rfl⟩ := Option.map_eq_some_iff.mp h
  have hbounds := pageTotal_bounds hcount
  apply List.ne_nil_of_length_pos
  rw [List.length_map, List.length_range]
  omega

/-- The pages of a file can be loaded and shown exactly when its number of pages is a number,
its current page is none that is `nan`, and no text of its pages is a number or a bare
`true`. -/
theorem pagesTotal_iff (numbers : LuaFloats N) (file : Option Bytes) :
    PagesTotal numbers file ↔ Loadable numbers (loadConfig numbers.toNumbers file) := by
  constructor
  · rintro ⟨b, hstart, hruns⟩
    obtain ⟨pages, hpages, hset⟩ := Option.bind_eq_some_iff.mp hstart
    obtain ⟨hnan, hb, hcount, hlower, -, hcurrent⟩ :=
      setPagesAt_cases (storedPages_ne_nil hpages) hset
    obtain ⟨count, htotal, hmap⟩ := Option.map_eq_some_iff.mp hpages
    refine ⟨?_, ?_, hnan⟩
    · rw [← pageTotal_isSome, htotal]
      rfl
    · intro count' htotal' page hpage
      obtain rfl := Option.some.inj (htotal.symm.trans htotal')
      have hstored : b.pages[page]? =
          some (storedPage (loadConfig numbers.toNumbers file) page) := by
        rw [hb, ← hmap, List.getElem?_map, List.getElem?_range (by omega)]
        rfl
      -- The page is turned to from the one the start shows.
      obtain ⟨b', hrun, -⟩ := hruns [.change (page - b.multiPage)]
      rw [Bridge.runPages, List.foldlM_cons] at hrun
      obtain ⟨turned, hturn, -⟩ := Option.bind_eq_some_iff.mp hrun
      exact (storedPage_textual_iff _ page).mp
        (textual_of_change hlower (hcount.trans (by rw [hb])) hcurrent hstored hturn)
  · rintro ⟨hcount, htexts, hnan⟩
    obtain ⟨count, htotal⟩ := Option.isSome_iff_exists.mp
      ((pageTotal_isSome numbers _).trans hcount)
    have hpages : storedPages numbers (loadConfig numbers.toNumbers file) =
        some ((List.range count.toNat).map (storedPage (loadConfig numbers.toNumbers file))) := by
      rw [storedPages, htotal]
      rfl
    have htextual : ∀ page ∈ (List.range count.toNat).map
        (storedPage (loadConfig numbers.toNumbers file)), page.Textual := by
      intro page hmem
      obtain ⟨index, hindex, rfl⟩ := List.mem_map.mp hmem
      have hlt : (index : Int) < count := by
        have hrange := List.mem_range.mp hindex
        omega
      exact (storedPage_textual_iff _ index).mpr (htexts count htotal index hlt)
    obtain ⟨b, hset, hsound⟩ :=
      setPagesAt_sound (storedPages_ne_nil hpages) hnan htextual Bridge.new
    refine ⟨b, ?_, fun ops => ?_⟩
    · rw [startBridge, hpages, Option.bind_some, hset]
    · obtain ⟨b', hrun, hsound'⟩ := hsound.runPages ops
      exact ⟨b', hrun, hsound'.inRange⟩

/-- Numbers without a `nan`. -/
def integerFloats : LuaFloats Int :=
  { Config.integerNumbers with
    floor := id
    isNaN := fun _ => false }

/-- `entry.0.0.text = 123`, as a version without quotes wrote the text `123`. -/
def bareTextFile : Bytes := bytes "[multipage]\nentry.0.0.text = 123\n"

theorem bare_text_raises :
    (startBridge integerFloats (some bareTextFile)).isSome = false ∧
      ¬ ∀ (numbers : LuaFloats Int) file, PagesTotal numbers file := by
  have hnone : (startBridge integerFloats (some bareTextFile)).isSome = false := by
    decide +kernel
  refine ⟨hnone, fun h => ?_⟩
  obtain ⟨b, hstart, -⟩ := h integerFloats (some bareTextFile)
  rw [hstart] at hnone
  cases hnone

end Xcom.Pages
