import Mathlib.Data.List.InsertIdx
import Xcom.Pages.Store

/-!
# The book of pages

What the user works with: pages of eight slots, one of them on the screen.  Every operation
of the bridge does to its buffers and tables what the operation does to the book.
-/

namespace Xcom.Pages

variable {N : Type}

/-- The texts and flags of a page. -/
abbrev Slots := Slot → Config.Bytes × Bool

/-- Pages, and the one on the screen. -/
structure Book where
  pages : List Slots
  current : Nat
  current_lt : current < pages.length
  length_le : pages.length ≤ 50

/-- A page without texts and flags. -/
def Slots.blank : Slots := fun _ => ([], false)

/-- A change of one slot of the page on the screen. -/
def Book.edit (book : Book) (slot : Slot) (f : Config.Bytes × Bool → Config.Bytes × Bool) :
    Book where
  pages := book.pages.modify book.current fun page =>
    Function.update page slot (f (page slot))
  current := book.current
  current_lt := by rw [List.length_modify]; exact book.current_lt
  length_le := by rw [List.length_modify]; exact book.length_le

/-- The page that many pages on, as far as there are pages. -/
def Book.turn (book : Book) (delta : Int) : Book where
  pages := book.pages
  current := (max 0 (min ((book.pages.length : Int) - 1) (book.current + delta))).toNat
  current_lt := by have h := book.current_lt; omega
  length_le := book.length_le

/-- A blank page behind the others, up to 50. -/
def Book.add (book : Book) : Book :=
  if h : book.pages.length < 50 then
    { pages := book.pages ++ [Slots.blank]
      current := book.pages.length
      current_lt := by rw [List.length_append]; exact Nat.lt_succ_self _
      length_le := by rw [List.length_append]; exact h }
  else book

/-- The page on the screen is taken out, unless it is the only one. -/
def Book.remove (book : Book) : Book :=
  if h : 1 < book.pages.length then
    { pages := book.pages.eraseIdx book.current
      current := min book.current (book.pages.length - 2)
      current_lt := by rw [List.length_eraseIdx_of_lt book.current_lt]; omega
      length_le := (List.length_eraseIdx_le _ _).trans book.length_le }
  else book

/-- What an operation does to the book.  A save and a restart leave it as it is. -/
def Book.apply (book : Book) : Op N → Book
  | .editText slot text => book.edit slot fun entry => (text.1, entry.2)
  | .toggle slot enabled => book.edit slot fun entry => (entry.1, enabled ≠ 0)
  | .changePage delta => book.turn delta
  | .addPage => book.add
  | .removePage => book.remove
  | .save _ _ => book
  | .restart _ _ => book

/-! ## What the bridge shows -/

/-- The texts and flags of a table. -/
def Page.slots (page : Page N) : Slots := fun i =>
  ((entryText (page.text i)).getD [], truthy (page.enabled i))

/-- The texts and flags in the buffers. -/
def Bridge.visible (b : Bridge N) : Slots := fun i => (cstr (b.multiText i), b.multiEnabled i ≠ 0)

/-- All pages: the tables, and the buffers in the place of the current one. -/
def Bridge.shown (b : Bridge N) : List Slots :=
  (b.pages.map Page.slots).set b.multiPage.toNat b.visible

/-- The entries of a page are texts that fit into a slot, and flags. -/
def Page.Fits (page : Page N) : Prop :=
  ∀ i, (page.text i = none ∨
      ∃ s : Config.Bytes, page.text i = some (.string s) ∧ s.length ≤ multiSlotCapacity - 1 ∧
        0 ∉ s) ∧
    (page.enabled i = none ∨ ∃ on, page.enabled i = some (.boolean on))

/-- The bridge shows the book. -/
structure Bridge.Shows (b : Bridge N) (book : Book) : Prop where
  pages : b.shown = book.pages
  current : b.multiPage = book.current
  count : b.multiPageCount = book.pages.length
  fits : ∀ page ∈ b.pages, page.Fits
  buffers : ∀ i, (cstr (b.multiText i)).length ≤ multiSlotCapacity - 1

/-! ## Buffers -/

theorem cstr_append {text : Config.Bytes} (h : 0 ∉ text) (rest : Config.Bytes) :
    cstr (text ++ 0 :: rest) = text := by
  have hall : ∀ b ∈ text, decide (b ≠ 0) = true := by
    intro b hb
    rw [decide_eq_true_eq]
    rintro rfl
    exact h hb
  rw [cstr, List.takeWhile_append_of_pos hall, List.takeWhile_cons, if_neg (by decide),
    List.append_nil]

theorem cstr_zero (buf : Config.Bytes) : 0 ∉ cstr buf := by
  intro hmem
  exact absurd (List.mem_takeWhile_imp hmem) (by decide)

/-- A text that fits is copied whole, with a zero behind it. -/
theorem cstr_slotBuffer {text : Config.Bytes} (hlen : text.length ≤ multiSlotCapacity - 1)
    (h : 0 ∉ text) : cstr (slotBuffer text) = text := by
  have hzeros : ∃ n, multiSlotCapacity - min text.length (multiSlotCapacity - 1) = n + 1 := by
    rw [Nat.min_eq_left hlen]
    exact ⟨multiSlotCapacity - text.length - 1, by unfold multiSlotCapacity at *; omega⟩
  obtain ⟨n, hn⟩ := hzeros
  rw [slotBuffer, hn, List.take_of_length_le hlen, List.replicate_succ, cstr_append h]

/-! ## Pages -/

/-- The text of an entry that fits. -/
theorem Page.Fits.text {page : Page N} (h : page.Fits) (i : Slot) :
    ∃ s : Config.Bytes, entryText (page.text i) = some s ∧
      s.length ≤ multiSlotCapacity - 1 ∧ 0 ∉ s := by
  rcases (h i).1 with hnone | ⟨s, hs, hlen, hzero⟩
  · refine ⟨[], ?_, Nat.zero_le _, List.not_mem_nil⟩
    rw [hnone]
    rfl
  · refine ⟨s, ?_, hlen, hzero⟩
    rw [hs]
    rfl

theorem Page.empty_fits : (Page.empty : Page N).Fits := fun _ => ⟨.inl rfl, .inl rfl⟩

theorem Bridge.visiblePage_slots (b : Bridge N) : b.visiblePage.slots = b.visible := rfl

theorem Bridge.visiblePage_fits {b : Bridge N}
    (h : ∀ i, (cstr (b.multiText i)).length ≤ multiSlotCapacity - 1) : b.visiblePage.Fits :=
  fun i => ⟨.inr ⟨_, rfl, h i, cstr_zero _⟩, .inr ⟨_, rfl⟩⟩

/-- A page that fits is shown as it is. -/
theorem Page.Fits.fill_visible {page : Page N} (h : page.Fits) (b : Bridge N) :
    (b.fill page).visible = page.slots := by
  funext i
  obtain ⟨s, hs, hlen, hzero⟩ := h.text i
  have htext : cstr (slotBuffer ((entryText (page.text i)).getD [])) =
      (entryText (page.text i)).getD [] := by
    rw [hs]
    exact cstr_slotBuffer hlen hzero
  have hflag : decide ((if truthy (page.enabled i) then (1 : Int) else 0) ≠ 0) =
      truthy (page.enabled i) := by
    cases truthy (page.enabled i) <;> rfl
  exact Prod.ext htext hflag

theorem Bridge.page_eq (b : Bridge N) {current : Nat} (h : b.multiPage = current)
    (hlt : current < b.pages.length) : b.page = some b.pages[current] := by
  rw [Bridge.page, h, if_pos (Int.natCast_nonneg current), Int.toNat_natCast,
    List.getElem?_eq_getElem hlt]

/-- The tables say what the book says, the page on the screen included. -/
structure Bridge.Stored (b : Bridge N) (pages : List Slots) : Prop where
  pages : b.pages.map Page.slots = pages
  fits : ∀ page ∈ b.pages, page.Fits

theorem Bridge.Shows.length {b : Bridge N} {book : Book} (h : b.Shows book) :
    b.pages.length = book.pages.length := by
  rw [← h.pages, Bridge.shown, List.length_set, List.length_map]

/-- `_store_page` brings the tables up to date and changes nothing else. -/
theorem Bridge.Shows.storePage {b : Bridge N} {book : Book} (h : b.Shows book) :
    ∃ b', b.storePage = some b' ∧ b'.Stored book.pages ∧ b'.Shows book := by
  have hlt : book.current < b.pages.length := h.length ▸ book.current_lt
  have hpage := b.page_eq h.current hlt
  have hset : (b.pages.set b.multiPage.toNat b.visiblePage).map Page.slots = book.pages := by
    rw [List.map_set, Bridge.visiblePage_slots, ← h.pages, Bridge.shown]
  have hfits : ∀ page ∈ b.pages.set b.multiPage.toNat b.visiblePage, page.Fits := by
    intro page hpage
    rcases List.mem_or_eq_of_mem_set hpage with hpage | rfl
    · exact h.fits page hpage
    · exact Bridge.visiblePage_fits h.buffers
  refine ⟨{ b with pages := b.pages.set b.multiPage.toNat b.visiblePage }, ?_, ⟨hset, hfits⟩, ?_⟩
  · rw [Bridge.storePage, hpage]
    rfl
  · refine ⟨?_, h.current, h.count, hfits, h.buffers⟩
    show ((b.pages.set b.multiPage.toNat b.visiblePage).map Page.slots).set b.multiPage.toNat
      b.visible = book.pages
    rw [List.map_set, List.set_set]
    exact h.pages

/-- `_load_page` puts the table of the current page into the buffers. -/
theorem Bridge.Stored.loadPage {b : Bridge N} {book : Book} (h : b.Stored book.pages)
    (hcurrent : b.multiPage = book.current) (hcount : b.multiPageCount = book.pages.length) :
    ∃ b', b.loadPage = some b' ∧ b'.Shows book := by
  have hlength : b.pages.length = book.pages.length := by rw [← h.pages, List.length_map]
  have hlt : book.current < b.pages.length := hlength ▸ book.current_lt
  have hpage := b.page_eq hcurrent hlt
  have hfits : (b.pages[book.current]).Fits := h.fits _ (List.getElem_mem hlt)
  refine ⟨b.fill b.pages[book.current], ?_, ?_, hcurrent, hcount, h.fits, ?_⟩
  · rw [Bridge.loadPage, hpage, Option.bind_some, if_pos]
    intro i
    obtain ⟨s, hs, -⟩ := hfits.text i
    rw [hs]
    rfl
  · have hentry : b.pages.map Page.slots = (b.pages.map Page.slots).set book.current
        (b.pages[book.current]).slots := by
      rw [← List.getElem_map Page.slots (h := by rw [List.length_map]; exact hlt),
        List.set_getElem_self]
    show (b.pages.map Page.slots).set b.multiPage.toNat _ = book.pages
    rw [hfits.fill_visible, hcurrent, Int.toNat_natCast, ← hentry]
    exact h.pages
  · intro i
    obtain ⟨s, hs, hlen, hzero⟩ := hfits.text i
    show (cstr (slotBuffer _)).length ≤ _
    rw [hs, Option.getD_some, cstr_slotBuffer hlen hzero]
    exact hlen

/-! ## Edits -/

theorem modify_set {l : List Slots} {i : Nat} (hlt : i < l.length) (v : Slots)
    (f : Slots → Slots) : (l.set i v).modify i f = l.set i (f v) := by
  apply List.ext_getElem?
  intro j
  rw [List.getElem?_modify, List.getElem?_set, List.getElem?_set]
  by_cases hj : i = j
  · subst hj
    simp [hlt]
  · simp [hj]

/-- An edit of the buffers of one slot. -/
theorem Bridge.Shows.edit {b : Bridge N} {book : Book} (h : b.Shows book) (b' : Bridge N)
    {slot : Slot}
    {f : Config.Bytes × Bool → Config.Bytes × Bool} (hpages : b'.pages = b.pages)
    (hpage : b'.multiPage = b.multiPage) (hcount : b'.multiPageCount = b.multiPageCount)
    (hvisible : b'.visible = Function.update b.visible slot (f (b.visible slot)))
    (hbuffers : ∀ i, (cstr (b'.multiText i)).length ≤ multiSlotCapacity - 1) :
    b'.Shows (book.edit slot f) := by
  have hlt : book.current < (b.pages.map Page.slots).length := by
    rw [List.length_map, h.length]
    exact book.current_lt
  refine ⟨?_, ?_, ?_, hpages ▸ h.fits, hbuffers⟩
  · show b'.shown = book.pages.modify book.current _
    rw [← h.pages, Bridge.shown, Bridge.shown, h.current, Int.toNat_natCast, modify_set hlt,
      hpages, hpage, hvisible, h.current, Int.toNat_natCast]
  · rw [hpage, h.current]
    rfl
  · rw [hcount, h.count]
    show _ = (((book.pages.modify book.current _).length : Nat) : Int)
    rw [List.length_modify]

theorem Bridge.Shows.editText {b : Bridge N} {book : Book} (h : b.Shows book) (slot : Slot)
    (text : SlotText) :
    (b.editText slot text).Shows (book.edit slot fun entry => (text.1, entry.2)) := by
  have hcstr : ∀ i, cstr ((b.editText slot text).multiText i) =
      if i = slot then text.1 else cstr (b.multiText i) := by
    intro i
    by_cases hi : i = slot
    · subst hi
      rw [if_pos rfl, Bridge.editText]
      simp only [Function.update_self]
      exact cstr_append text.2.2 _
    · rw [if_neg hi, Bridge.editText]
      simp only [Function.update_of_ne hi]
  apply h.edit (b.editText slot text) rfl rfl rfl
  · funext i
    by_cases hi : i = slot
    · subst hi
      rw [Function.update_self]
      exact Prod.ext ((hcstr i).trans (if_pos rfl)) rfl
    · rw [Function.update_of_ne hi]
      exact Prod.ext ((hcstr i).trans (if_neg hi)) rfl
  · intro i
    rw [hcstr]
    split
    · exact text.2.1
    · exact h.buffers i

theorem Bridge.Shows.toggle {b : Bridge N} {book : Book} (h : b.Shows book) (slot : Slot)
    (enabled : Int) :
    (b.toggle slot enabled).Shows (book.edit slot fun entry => (entry.1, enabled ≠ 0)) := by
  apply h.edit (b.toggle slot enabled) rfl rfl rfl
  · funext i
    by_cases hi : i = slot
    · subst hi
      simp [Bridge.visible, Bridge.toggle]
    · simp [Bridge.visible, Bridge.toggle, hi]
  · exact h.buffers

/-! ## Page changes -/

theorem Bridge.Shows.changePage {b : Bridge N} {book : Book} (h : b.Shows book) (delta : Int) :
    ∃ b', b.changePage delta = some b' ∧ b'.Shows (book.turn delta) := by
  obtain ⟨s, hstore, hstored, hs⟩ := h.storePage
  have hmoved : Bridge.Stored
      { s with multiPage := max 0 (min (s.multiPageCount - 1) (s.multiPage + delta)) }
      (book.turn delta).pages := ⟨hstored.pages, hstored.fits⟩
  have hcurrent : max 0 (min (s.multiPageCount - 1) (s.multiPage + delta)) =
      ((book.turn delta).current : Int) := by
    show _ = ((max 0 (min ((book.pages.length : Int) - 1) (book.current + delta))).toNat : Int)
    rw [hs.count, hs.current]
    omega
  obtain ⟨b', hload, hb'⟩ := hmoved.loadPage hcurrent hs.count
  refine ⟨b', ?_, hb'⟩
  rw [Bridge.changePage, hstore]
  exact hload

theorem Bridge.Shows.addPage {b : Bridge N} {book : Book} (h : b.Shows book) :
    ∃ b', b.addPage = some b' ∧ b'.Shows book.add := by
  obtain ⟨s, hstore, hstored, hs⟩ := h.storePage
  have hcount := hs.count
  rw [Bridge.addPage, hstore, Option.bind_some, Book.add]
  by_cases hroom : book.pages.length < 50
  · rw [if_neg (by omega), dif_pos hroom]
    apply Bridge.Stored.loadPage
    · constructor
      · show (s.pages ++ [Page.empty]).map Page.slots = book.pages ++ [Slots.blank]
        rw [List.map_append, hstored.pages]
        rfl
      · intro page hpage
        rcases List.mem_append.mp hpage with hpage | hpage
        · exact hstored.fits page hpage
        · rw [List.mem_singleton.mp hpage]
          exact Page.empty_fits
    · show (((s.pages ++ [Page.empty]).length : Nat) : Int) - 1 = (book.pages.length : Int)
      rw [List.length_append, hs.length, List.length_singleton]
      omega
    · show (((s.pages ++ [Page.empty]).length : Nat) : Int) =
        (((book.pages ++ [Slots.blank]).length : Nat) : Int)
      rw [List.length_append, List.length_append, hs.length]
      rfl
  · rw [if_pos (by omega), dif_neg hroom]
    exact ⟨s, rfl, hs⟩

theorem Bridge.Shows.removePage {b : Bridge N} {book : Book} (h : b.Shows book) :
    ∃ b', b.removePage = some b' ∧ b'.Shows book.remove := by
  have hcount := h.count
  rw [Bridge.removePage, Book.remove]
  by_cases hmore : 1 < book.pages.length
  · obtain ⟨s, hstore, hstored, hs⟩ := h.storePage
    have herased : (s.pages.eraseIdx s.multiPage.toNat).length = book.pages.length - 1 := by
      rw [hs.current, Int.toNat_natCast, List.length_eraseIdx_of_lt, hs.length]
      rw [hs.length]
      exact book.current_lt
    rw [if_neg (by omega), dif_pos hmore, hstore, Option.bind_some]
    apply Bridge.Stored.loadPage
    · constructor
      · show (s.pages.eraseIdx s.multiPage.toNat).map Page.slots =
          book.pages.eraseIdx book.current
        rw [hs.current, Int.toNat_natCast, ← hstored.pages, List.eraseIdx_map]
      · intro page hpage
        exact hstored.fits page (List.mem_of_mem_eraseIdx hpage)
    · show min s.multiPage (((s.pages.eraseIdx s.multiPage.toNat).length : Int) - 1) =
        ((min book.current (book.pages.length - 2) : Nat) : Int)
      rw [herased, hs.current]
      omega
    · show (((s.pages.eraseIdx s.multiPage.toNat).length : Nat) : Int) =
        (((book.pages.eraseIdx book.current).length : Nat) : Int)
      rw [herased, List.length_eraseIdx_of_lt book.current_lt]
  · rw [if_pos (by omega), dif_neg hmore]
    exact ⟨b, rfl, h⟩

/-- `set_pages` shows the pages it is given. -/
theorem Bridge.setPages_shows {pages : List (Page N)} {book : Book}
    (hslots : pages.map Page.slots = book.pages) (hfits : ∀ page ∈ pages, page.Fits)
    {initialPage : Int}
    (hcurrent : max 0 (min ((pages.length : Int) - 1) initialPage) = book.current)
    (b : Bridge N) : ∃ b', b.setPages pages initialPage = some b' ∧ b'.Shows book := by
  have hlength : pages.length = book.pages.length := by rw [← hslots, List.length_map]
  have hne : pages ≠ [] := by
    rintro rfl
    have hlt := book.current_lt
    rw [← hlength] at hlt
    cases hlt
  rw [Bridge.setPages, if_neg hne]
  have hstored : Bridge.Stored
      { b with
        pages := pages
        multiPageCount := pages.length
        multiPage := max 0 (min ((pages.length : Int) - 1) initialPage) } book.pages :=
    ⟨hslots, hfits⟩
  apply hstored.loadPage hcurrent
  rw [hlength]

end Xcom.Pages
