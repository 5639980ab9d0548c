import Xcom.Pages.Saved

/-!
# The book of pages over a run

Edits, page changes, saves and restarts in any order do to the pages on the screen and in
the configuration what they do to the book.
-/

namespace Xcom.Pages

open Config (Bytes Value Data Numbers Readable)

variable {N : Type} {numbers : LuaNumbers N}

/-- The program shows the book, and its configuration can be written. -/
structure Program.Holds (numbers : LuaNumbers N) (p : Program N) (book : Book) : Prop where
  shows : p.bridge.Shows book
  readable : Readable numbers.toNumbers p.data

/-! ## One step -/

/-- A done save has the configuration at its path. -/
theorem DoneSave.path (o : DoneSave) (numbers : Numbers N) (d : Config.Disk) (data : Data N) :
    (Config.save numbers o.1 d data).2.path = some (Config.serialize numbers data) := by
  obtain ⟨⟨hopened, hwrote, hclosed⟩, hrenamed⟩ := o.2
  have htext : Config.writtenText o.1 (Config.serialize numbers data) =
      Config.serialize numbers data := by
    rw [Config.writtenText, if_pos ⟨hwrote, hclosed⟩]
  have hdone : (Config.save numbers o.1 d data).1 = true := by
    simp only [Config.save, hopened, hwrote, Config.replaceConfig, Config.rename, htext,
      not_true_eq_false, if_false]
    by_cases hfirst : o.1.first.moveFileEx ∨ o.1.first.osRename
    · simp only [if_pos hfirst, if_true]
    · have hsecond := hrenamed.resolve_left hfirst
      simp only [if_neg hfirst, Bool.false_eq_true, if_false]
      by_cases hremoved : o.1.removed = true
      · simp only [if_pos hremoved, if_pos hsecond]
      · simp only [if_neg hremoved, if_pos hsecond]
  exact (Config.save_whole numbers d data fun _ _ => hclosed).2 hdone

/-- `_save_config` stores the visible page and changes nothing on the screen. -/
theorem Program.Holds.save (hlaw : numbers.Lawful) {p : Program N} {book : Book}
    (h : p.Holds numbers book) (settings : Settings N) (o : Config.SaveOutcome) :
    ∃ p', p.save numbers settings o = some p' ∧ p'.Holds numbers book ∧
      p'.bridge.Stored book.pages ∧
      p'.data = applyWrites p.data (saveWrites numbers.toNumbers settings p'.bridge) ∧
      p'.disk = (Config.save numbers.toNumbers o p.disk p'.data).2 := by
  obtain ⟨b, hstore, hstored, hb⟩ := h.shows.storePage
  have hreadable := Readable.applyWrites hlaw.plain
    (saveWrites_wellFormed numbers.toNumbers settings b) h.readable
  refine ⟨⟨b, _, (Config.save numbers.toNumbers o p.disk (applyWrites p.data
    (saveWrites numbers.toNumbers settings b))).2⟩, ?_, ⟨hb, hreadable⟩, hstored, rfl, rfl⟩
  rw [Program.save, saveConfig, hstore]
  rfl

/-- The save at the end of the program and the next start. -/
theorem Program.Holds.restart (hlaw : numbers.Lawful) {p : Program N} {book : Book}
    (h : p.Holds numbers book) (settings : Settings N) (o : DoneSave) :
    ∃ p', p.apply numbers (.restart settings o) = some p' ∧ p'.Holds numbers book := by
  obtain ⟨saved, hsave, hsaved, hstored, hdata, hdisk⟩ := h.save hlaw settings o.1
  have hcount : saved.bridge.multiPageCount = saved.bridge.pages.length := by
    rw [hsaved.shows.count, hsaved.shows.length]
  have hlt := book.current_lt
  have hle := book.length_le
  rw [← hsaved.shows.length] at hlt hle
  obtain ⟨loaded, hquick, hslots, hfits⟩ :=
    quickPages_saved hlaw settings h.readable hstored hcount (by omega) hle
  have hpath : saved.disk.path = some (Config.serialize numbers.toNumbers
      (applyWrites p.data (saveWrites numbers.toNumbers settings saved.bridge))) := by
    rw [hdisk, DoneSave.path, hdata]
  have hpage : Config.get (loadConfig numbers.toNumbers saved.disk.path) (bytes "multipage")
      (bytes "page") = some (.number (numbers.ofInt saved.bridge.multiPage)) := by
    have hcurrent := hsaved.shows.current
    rw [hpath]
    apply get_reloaded hlaw _ (get_saved_page numbers.toNumbers settings saved.bridge p.data)
    · exact ⟨_, by omega, rfl⟩
    · rw [← hdata]
      exact hsaved.readable
  have hinitial : max 0 (min ((loaded.length : Int) - 1) (initialPage numbers
      (some (.number (numbers.ofInt saved.bridge.multiPage))))) = book.current := by
    have hcurrent := hsaved.shows.current
    have hlength : loaded.length = saved.bridge.pages.length := by
      rw [hsaved.shows.length, ← hslots, List.length_map]
    rw [initialPage, hlaw.floor_int _ (by omega)]
    omega
  obtain ⟨b, hset, hb⟩ := Bridge.setPages_shows hslots hfits hinitial Bridge.new
  refine ⟨⟨b, _, saved.disk⟩, ?_, hb, loadConfig_readable hlaw saved.disk.path⟩
  rw [Program.apply, hsave, Option.bind_some, start, hpage]
  rw [hpath, hquick, Option.bind_some, hset]
  rfl

/-- One operation of the program is that operation on the book. -/
theorem Program.Holds.apply (hlaw : numbers.Lawful) {p : Program N} {book : Book}
    (h : p.Holds numbers book) (op : Op N) :
    ∃ p', p.apply numbers op = some p' ∧ p'.Holds numbers (book.apply op) := by
  cases op with
  | editText slot text => exact ⟨_, rfl, h.shows.editText slot text, h.readable⟩
  | toggle slot enabled => exact ⟨_, rfl, h.shows.toggle slot enabled, h.readable⟩
  | changePage delta =>
    obtain ⟨b, hb, hshows⟩ := h.shows.changePage delta
    refine ⟨{ p with bridge := b }, ?_, hshows, h.readable⟩
    rw [Program.apply, hb]
    rfl
  | addPage =>
    obtain ⟨b, hb, hshows⟩ := h.shows.addPage
    refine ⟨{ p with bridge := b }, ?_, hshows, h.readable⟩
    rw [Program.apply, hb]
    rfl
  | removePage =>
    obtain ⟨b, hb, hshows⟩ := h.shows.removePage
    refine ⟨{ p with bridge := b }, ?_, hshows, h.readable⟩
    rw [Program.apply, hb]
    rfl
  | save settings o =>
    obtain ⟨p', hsave, hholds, -⟩ := h.save hlaw settings o
    exact ⟨p', hsave, hholds⟩
  | restart settings o => exact h.restart hlaw settings o

/-! ## Runs -/

theorem Program.Holds.run (hlaw : numbers.Lawful) {p : Program N} {book : Book}
    (h : p.Holds numbers book) (ops : List (Op N)) :
    ∃ p', p.run numbers ops = some p' ∧ p'.Holds numbers (ops.foldl Book.apply book) := by
  induction ops generalizing p book with
  | nil => exact ⟨p, rfl, h⟩
  | cons op ops ih =>
    obtain ⟨p₁, hstep, h₁⟩ := h.apply hlaw op
    obtain ⟨p₂, hrun, h₂⟩ := ih h₁
    refine ⟨p₂, ?_, h₂⟩
    rw [Program.run, List.foldlM_cons, hstep]
    exact hrun

/-- The pages of a configuration are between 1 and 50. -/
theorem quickPages_length {data : Data N} {pages : List (Page N)}
    (h : quickPages numbers data = some pages) : 0 < pages.length ∧ pages.length ≤ 50 := by
  obtain ⟨count, hcount, rfl⟩ := Option.map_eq_some_iff.mp h
  have hbounds : 1 ≤ count ∧ count ≤ 50 := by
    unfold pageCount at hcount
    split at hcount
    · obtain rfl := Option.some.inj hcount
      omega
    · obtain rfl := Option.some.inj hcount
      omega
    · obtain ⟨n, -, rfl⟩ := Option.map_eq_some_iff.mp hcount
      omega
    · cases hcount
  rw [List.length_map, List.length_range]
  omega

/-- The start shows the pages of the configuration. -/
theorem start_holds (hlaw : numbers.Lawful) {disk : Config.Disk} {pages : List (Page N)}
    (hpages : quickPages numbers (loadConfig numbers.toNumbers disk.path) = some pages)
    (hfits : ∀ page ∈ pages, page.Fits) :
    ∃ (p : Program N) (book : Book), start numbers disk = some p ∧ p.Holds numbers book ∧
      book.pages = pages.map Page.slots := by
  obtain ⟨hpositive, hle⟩ := quickPages_length hpages
  let current := max 0 (min ((pages.length : Int) - 1) (initialPage numbers
    (Config.get (loadConfig numbers.toNumbers disk.path) (bytes "multipage") (bytes "page"))))
  have hlt : current.toNat < (pages.map Page.slots).length := by
    rw [List.length_map]
    omega
  let book : Book := ⟨pages.map Page.slots, current.toNat, hlt, by rwa [List.length_map]⟩
  have hcurrent : current = book.current := by
    show current = (current.toNat : Int)
    omega
  have hslots : pages.map Page.slots = book.pages := rfl
  obtain ⟨b, hset, hb⟩ := Bridge.setPages_shows hslots hfits hcurrent Bridge.new
  refine ⟨⟨b, _, disk⟩, book, ?_, ⟨hb, loadConfig_readable hlaw disk.path⟩, rfl⟩
  rw [start, hpages, Option.bind_some, hset]
  rfl

/-! ## Other pages -/

/-- Where a page stands after an operation: behind a removed page they move up by one. -/
def Op.moved (op : Op N) (book : Book) (j : Nat) : Nat :=
  match op with
  | .removePage => if 1 < book.pages.length ∧ book.current < j then j - 1 else j
  | _ => j

/-- An operation changes no page but the current one. -/
theorem Book.apply_others (book : Book) (op : Op N) {j : Nat} (hj : j < book.pages.length)
    (hother : j ≠ book.current) :
    (book.apply op).pages[op.moved book j]? = book.pages[j]? := by
  have hedit : ∀ slot f, (book.edit slot f).pages[j]? = book.pages[j]? := by
    intro slot f
    show (book.pages.modify book.current _)[j]? = _
    rw [List.getElem?_modify]
    simp [Ne.symm hother]
  cases op with
  | editText slot text => exact hedit slot _
  | toggle slot enabled => exact hedit slot _
  | changePage delta => rfl
  | addPage =>
    show book.add.pages[j]? = _
    rw [Book.add]
    split
    · exact List.getElem?_append_left hj
    · rfl
  | removePage =>
    show book.remove.pages[if 1 < book.pages.length ∧ book.current < j then j - 1 else j]? = _
    rw [Book.remove]
    by_cases hmore : 1 < book.pages.length
    · rw [dif_pos hmore]
      show (book.pages.eraseIdx book.current)[_]? = _
      by_cases hbehind : book.current < j
      · rw [if_pos ⟨hmore, hbehind⟩, List.getElem?_eraseIdx, if_neg (by omega),
          Nat.sub_add_cancel (by omega)]
      · rw [if_neg (fun h => hbehind h.2), List.getElem?_eraseIdx, if_pos (by omega)]
    · rw [dif_neg hmore, if_neg (fun h => hmore h.1)]
  | save settings o => rfl
  | restart settings o => rfl

/-! ## The pages are preserved -/

/-- The program starts with the pages of its configuration, and after any operations it
shows the book they lead to, with the current page in range.  The next operation does not
touch the other pages, and a done save with the start after it leaves every page and the
current one as they are. -/
theorem pages_preserved (hlaw : numbers.Lawful) {disk : Config.Disk} {pages : List (Page N)}
    (hpages : quickPages numbers (loadConfig numbers.toNumbers disk.path) = some pages)
    (hfits : ∀ page ∈ pages, page.Fits) :
    ∃ (p : Program N) (book : Book), start numbers disk = some p ∧
      book.pages = pages.map Page.slots ∧
      ∀ ops : List (Op N), ∃ p', p.run numbers ops = some p' ∧
        (p'.bridge.shown = (ops.foldl Book.apply book).pages ∧
          p'.bridge.multiPage = (ops.foldl Book.apply book).current) ∧
        (0 ≤ p'.bridge.multiPage ∧ p'.bridge.multiPage < p'.bridge.multiPageCount ∧
          p'.bridge.multiPageCount = p'.bridge.pages.length ∧ p'.bridge.pages.length ≤ 50) ∧
        (∀ op : Op N, ∃ p'', p'.apply numbers op = some p'' ∧
          ∀ j < p'.bridge.pages.length, (j : Int) ≠ p'.bridge.multiPage →
            p''.bridge.shown[op.moved (ops.foldl Book.apply book) j]? = p'.bridge.shown[j]?) ∧
        ∀ settings o, ∃ p'', p'.apply numbers (.restart settings o) = some p'' ∧
          p''.bridge.shown = p'.bridge.shown ∧ p''.bridge.multiPage = p'.bridge.multiPage := by
  obtain ⟨p, book, hstart, hholds, hbook⟩ := start_holds hlaw hpages hfits
  refine ⟨p, book, hstart, hbook, ?_⟩
  intro ops
  obtain ⟨p', hrun, h⟩ := hholds.run hlaw ops
  have hcurrent := h.shows.current
  have hcount := h.shows.count
  have hlength := h.shows.length
  have hlt := (ops.foldl Book.apply book).current_lt
  have hle := (ops.foldl Book.apply book).length_le
  refine ⟨p', hrun, ⟨h.shows.pages, hcurrent⟩, by omega, ?_, ?_⟩
  · intro op
    obtain ⟨p'', hstep, h'⟩ := h.apply hlaw op
    refine ⟨p'', hstep, ?_⟩
    intro j hj hother
    rw [h'.shows.pages, h.shows.pages]
    exact Book.apply_others _ op (by omega) (by omega)
  · intro settings o
    obtain ⟨p'', hstep, h'⟩ := h.restart hlaw settings o
    refine ⟨p'', hstep, ?_, ?_⟩
    · rw [h'.shows.pages, h.shows.pages]
    · rw [h'.shows.current, hcurrent]

/-! The runtime whose numbers are the integers. -/

def integerLua : LuaNumbers Int := { Config.integerNumbers with floor := id }

theorem integerLua_lawful : integerLua.Lawful where
  integers := Config.integerNumbers_lawful
  plain := by
    have hbracket : ∀ n : Int, 0x5D ∉ Config.decimal n := by
      intro n hmem
      rcases List.mem_append.mp hmem with hmem | hmem
      · split at hmem
        · exact absurd (List.mem_singleton.mp hmem) (by decide)
        · cases hmem
      · exact absurd ((Config.decimalDigits_digits _).2 _ hmem) (by decide)
    exact ⟨fun n => (Config.decimal_facts n).2.2.1, hbracket⟩
  floor_int _ _ := rfl

/-- Without a configuration there is one page, and a second one can be added. -/
theorem pages_preserved_first_start :
    ∃ p p', start integerLua ⟨none, none⟩ = some p ∧
      p.run integerLua [.addPage] = some p' ∧ p'.bridge.multiPageCount = 2 ∧
      p'.bridge.multiPage = 1 := by
  have hpages : quickPages integerLua (loadConfig integerLua.toNumbers
      (Config.Disk.mk none none).path) =
      some [⟨fun _ => some (.string []), fun _ => some (.boolean false)⟩] := rfl
  have hfits : ∀ page ∈ ([⟨fun _ => some (.string []), fun _ => some (.boolean false)⟩] :
      List (Page Int)), page.Fits := by
    intro page hpage
    rw [List.mem_singleton.mp hpage]
    exact fun i => ⟨.inr ⟨[], rfl, Nat.zero_le _, List.not_mem_nil⟩, .inr ⟨false, rfl⟩⟩
  obtain ⟨p, book, hstart, hbook, hops⟩ :=
    pages_preserved integerLua_lawful hpages hfits
  obtain ⟨p', hrun, ⟨hshown, hcurrent⟩, hbounds, -, -⟩ := hops [.addPage]
  have hone : book.pages.length = 1 := by rw [hbook]; rfl
  have hadd : ([Op.addPage (N := Int)].foldl Book.apply book) = book.add := rfl
  have hpagesLength : p'.bridge.pages.length = 2 := by
    rw [← List.length_map Page.slots, ← List.length_set, ← Bridge.shown, hshown, hadd, Book.add,
      dif_pos (by omega)]
    show (book.pages ++ [Slots.blank]).length = 2
    rw [List.length_append, hone]
    rfl
  have hlast : p'.bridge.multiPage = 1 := by
    rw [hcurrent, hadd, Book.add, dif_pos (by omega)]
    show (book.pages.length : Int) = 1
    omega
  exact ⟨p, p', hstart, hrun, by omega, hlast⟩

end Xcom.Pages
