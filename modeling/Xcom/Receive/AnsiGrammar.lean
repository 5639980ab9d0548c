import Xcom.Receive.AnsiReading

/-!
# The grammar of control sequences

A grammar says which bytes may stand in a control sequence; its machine reads a stream byte by
byte and knows behind each what is open.  `feed` reads what the machine reads, unless a
sequence is malformed or one ends the buffer.
-/

namespace Xcom.Receive.Ansi

open Transition

/-! ## The grammar -/

/-- Which bytes may stand between the bracket and the byte that ends a control sequence; what
`match_csi` calls malformed may not. -/
structure Grammar where
  isParam : UInt8 → Bool
  passed : ∀ b, isParam b = true → isPassed b = true

/-- Everything that `match_csi` passes over. -/
def anyPassed : Grammar := ⟨isPassed, fun _ h => h⟩

/-- What is open behind the bytes read. -/
inductive Mode
  | text
  | esc
  | csi (params : List UInt8)
  | malformed
deriving DecidableEq

/-- The bytes that are open. -/
def Mode.pending : Mode → List UInt8
  | .text => []
  | .esc => [27]
  | .csi params => 27 :: 91 :: params
  | .malformed => []

variable (g : Grammar)

/-- One byte. -/
def scanByte : Mode → UInt8 → List Token × Mode
  | .text, b => if b = 27 then ([], .esc) else ([.char b], .text)
  | .esc, b =>
    if b = 91 then ([], .csi [])
    else if b = 27 then ([.char 27], .esc)
    else ([.char 27, .char b], .text)
  | .csi params, b =>
    if isFinal b then ([.csi params b], .text)
    else if g.isParam b then ([], .csi (params ++ [b]))
    else ([], .malformed)
  | .malformed, _ => ([], .malformed)

/-- A stream. -/
def scan (m : Mode) (bs : List UInt8) : List Token × Mode := transduce (scanByte g) m bs

/-- Nothing, or one escape sequence that is not complete. -/
def Incomplete (residue : List UInt8) : Prop :=
  residue = [] ∨ residue = [27] ∨
    ∃ params, (∀ b ∈ params, g.isParam b = true) ∧ residue = 27 :: 91 :: params

/-- What was read ends with the byte that ends a control sequence. -/
def endsInFinal (read : List Token × Mode) : Bool :=
  match read.2, read.1.getLast? with
  | .text, some (.csi _ _) => true
  | _, _ => false

/-! ## What the machine reads -/

variable {g}

theorem scan_cons (m : Mode) (b : UInt8) (bs : List UInt8) :
    scan g m (b :: bs) =
      ((scanByte g m b).1 ++ (scan g (scanByte g m b).2 bs).1,
        (scan g (scanByte g m b).2 bs).2) := rfl

theorem scan_append (m : Mode) (bs bs' : List UInt8) :
    scan g m (bs ++ bs') =
      ((scan g m bs).1 ++ (scan g (scan g m bs).2 bs').1, (scan g (scan g m bs).2 bs').2) :=
  transduce_append (scanByte g) m bs bs'

/-- Behind a malformed sequence nothing more is read. -/
theorem scan_malformed (bs : List UInt8) : scan g .malformed bs = ([], .malformed) := by
  induction bs with
  | nil => rfl
  | cons b bs ih =>
    rw [scan_cons]
    show ([] ++ (scan g .malformed bs).1, (scan g .malformed bs).2) = _
    rw [ih]
    rfl

/-- The parameters that are open are those of the grammar. -/
def Mode.Fine (g : Grammar) : Mode → Prop
  | .csi params => ∀ b ∈ params, g.isParam b = true
  | _ => True

theorem scanByte_fine {m : Mode} (h : m.Fine g) (b : UInt8) : (scanByte g m b).2.Fine g := by
  cases m with
  | text =>
    simp only [scanByte]
    split <;> trivial
  | esc =>
    simp only [scanByte]
    split
    · intro c hc
      cases hc
    · split <;> trivial
  | csi params =>
    simp only [scanByte]
    split
    · trivial
    · split
      · rename_i hparam
        intro c hc
        rcases List.mem_append.mp hc with hc | hc
        · exact h c hc
        · rw [List.mem_singleton.mp hc]
          exact hparam
      · trivial
  | malformed => trivial

theorem scan_fine {m : Mode} (h : m.Fine g) (bs : List UInt8) : (scan g m bs).2.Fine g := by
  induction bs generalizing m with
  | nil => exact h
  | cons b bs ih => exact ih (scanByte_fine h b)

theorem not_final_of_param {b : UInt8} (h : g.isParam b = true) : isFinal b = false := by
  have hpassed := g.passed b h
  simp only [isPassed, Bool.and_eq_true, Bool.not_eq_true'] at hpassed
  exact hpassed.2

/-- Parameters, and one byte more at most, are no sequence for `match_csi`. -/
theorem matchCsi_open {params l : List UInt8} (hparams : ∀ b ∈ params, g.isParam b = true)
    (hl : l.length ≤ 1) : matchCsi (params ++ l) = none := by
  apply Option.eq_none_iff_forall_ne_some.mpr
  rintro ⟨found, term, behind⟩ hmatch
  obtain ⟨hsplit, hne, hterm, -⟩ := matchCsi_iff.mp hmatch
  have hpos := List.length_pos_iff.mpr hne
  rcases List.append_eq_append_iff.mp hsplit with ⟨more, -, htail⟩ | ⟨more, hhead, htail⟩
  · rw [htail, List.length_append, List.length_cons] at hl
    omega
  · cases more with
    | nil =>
      rw [List.nil_append] at htail
      rw [← htail, List.length_cons] at hl
      omega
    | cons c more =>
      obtain ⟨rfl, -⟩ := List.cons.inj htail
      have hparam := hparams term (by simp [hhead])
      rw [not_final_of_param hparam] at hterm
      cases hterm

/-- What is open is read as nothing. -/
theorem reads_pending {m : Mode} (h : m.Fine g) : Reads m.pending [] m.pending := by
  cases m with
  | text => exact .nil
  | esc => exact .lone
  | csi params =>
    have hopen := matchCsi_open (l := []) h (Nat.zero_le 1)
    rw [List.append_nil] at hopen
    exact .held hopen
  | malformed => exact .nil

theorem incomplete_pending {m : Mode} (h : m.Fine g) : Incomplete g m.pending := by
  cases m with
  | text => exact .inl rfl
  | esc => exact .inr (.inl rfl)
  | csi params => exact .inr (.inr ⟨params, h, rfl⟩)
  | malformed => exact .inl rfl

/-- A read that ends with the end of a sequence still does when more is put before it. -/
theorem endsInFinal_append {ts : List Token} {read : List Token × Mode}
    (h : endsInFinal (ts ++ read.1, read.2) = false) : endsInFinal read = false := by
  obtain ⟨later, m⟩ := read
  cases hlast : later.getLast? with
  | none =>
    cases m <;> simp [endsInFinal, hlast]
  | some t =>
    rw [← h]
    simp [endsInFinal, List.getLast?_append, hlast]

/-- `feed` reads what the machine reads, unless a sequence is malformed or the buffer ends with
one. -/
theorem reads_scan {m : Mode} {bs rest r : List UInt8} {ts : List Token} (hm : m.Fine g)
    (hgood : (scan g m bs).2 ≠ .malformed)
    (hend : rest = [] → endsInFinal (scan g m bs) = false)
    (h : Reads ((scan g m bs).2.pending ++ rest) ts r) :
    Reads (m.pending ++ (bs ++ rest)) ((scan g m bs).1 ++ ts) r := by
  induction bs generalizing m with
  | nil => exact h
  | cons b bs ih =>
    rw [scan_cons] at hgood hend h ⊢
    have hlater : Reads ((scanByte g m b).2.pending ++ (bs ++ rest))
        ((scan g (scanByte g m b).2 bs).1 ++ ts) r :=
      ih (scanByte_fine hm b) hgood (fun hrest => endsInFinal_append (hend hrest)) h
    cases m with
    | text =>
      by_cases hesc : b = 27
      · subst hesc
        exact hlater
      · simp only [scanByte, if_neg hesc] at hlater ⊢
        exact .char hesc hlater
    | esc =>
      by_cases hbracket : b = 91
      · subst hbracket
        exact hlater
      · by_cases hesc : b = 27
        · subst hesc
          exact .stray hbracket hlater
        · simp only [scanByte, if_neg hbracket, if_neg hesc] at hlater ⊢
          exact .stray hbracket (.char hesc hlater)
    | csi params =>
      by_cases hfinal : isFinal b = true
      · simp only [scanByte, if_pos hfinal] at hend hlater ⊢
        have hmore : bs ++ rest ≠ [] := by
          intro hnil
          obtain ⟨rfl, hrest⟩ := List.append_eq_nil_iff.mp hnil
          have hends := hend hrest
          simp [endsInFinal, scan, transduce] at hends
        have hmatch : matchCsi (params ++ b :: (bs ++ rest)) = some (params, b, bs ++ rest) :=
          matchCsi_iff.mpr ⟨rfl, hmore, hfinal, fun c hc => g.passed c (hm c hc)⟩
        exact .csi hmatch hlater
      · by_cases hparam : g.isParam b = true
        · simp only [scanByte, if_neg hfinal, if_pos hparam] at hlater ⊢
          have hbytes : (Mode.csi params).pending ++ (b :: bs ++ rest) =
              (Mode.csi (params ++ [b])).pending ++ (bs ++ rest) := by
            simp [Mode.pending]
          rw [hbytes]
          exact hlater
        · simp only [scanByte, if_neg hfinal, if_neg hparam, scan_malformed] at hgood
          exact absurd rfl hgood
    | malformed =>
      simp only [scanByte, scan_malformed] at hgood
      exact absurd rfl hgood

/-- A whole feed. -/
theorem reads_feed {m : Mode} {bs : List UInt8} (hm : m.Fine g)
    (hgood : (scan g m bs).2 ≠ .malformed) (hend : endsInFinal (scan g m bs) = false) :
    Reads (m.pending ++ bs) (scan g m bs).1 (scan g m bs).2.pending := by
  have hopen : Reads ((scan g m bs).2.pending ++ []) [] (scan g m bs).2.pending := by
    rw [List.append_nil]
    exact reads_pending (scan_fine hm bs)
  have hreads := reads_scan hm hgood (fun _ => hend) hopen
  rwa [List.append_nil, List.append_nil] at hreads

/-! ## Where `feed` goes another way -/

theorem not_incomplete {params rest : List UInt8} {b : UInt8} (h : g.isParam b = false) :
    ¬ Incomplete g (27 :: 91 :: (params ++ b :: rest)) := by
  rintro (hnil | hesc | ⟨others, hothers, heq⟩)
  · cases hnil
  · cases hesc
  · simp only [List.cons.injEq, true_and] at heq
    have hparam := hothers b (by simp [← heq])
    rw [h] at hparam
    cases hparam

/-- A read that ends with the end of a sequence had its parameters open before the last
byte. -/
theorem endsInFinal_split {m : Mode} {bs : List UInt8} (h : endsInFinal (scan g m bs) = true) :
    ∃ before b params, bs = before ++ [b] ∧ (scan g m before).2 = .csi params ∧
      isFinal b = true := by
  rcases List.eq_nil_or_concat bs with rfl | ⟨before, b, rfl⟩
  · cases m <;> simp [endsInFinal, scan, transduce] at h
  · rw [List.concat_eq_append] at h ⊢
    rw [scan_append, scan_cons] at h
    simp only [scan, transduce, List.append_nil] at h
    refine ⟨before, b, ?_⟩
    cases hmode : (scan g m before).2 with
    | text =>
      rw [scan] at hmode
      rw [hmode] at h
      by_cases hesc : b = 27 <;> simp [scanByte, endsInFinal, hesc] at h
    | esc =>
      rw [scan] at hmode
      rw [hmode] at h
      by_cases hbracket : b = 91
      · simp [scanByte, endsInFinal, hbracket] at h
      · by_cases hesc : b = 27 <;> simp [scanByte, endsInFinal, hbracket, hesc] at h
    | csi params =>
      rw [scan] at hmode
      rw [hmode] at h
      by_cases hfinal : isFinal b = true
      · exact ⟨params, rfl, rfl, hfinal⟩
      · by_cases hparam : g.isParam b = true <;> simp [scanByte, endsInFinal, hfinal, hparam] at h
    | malformed =>
      rw [scan] at hmode
      rw [hmode] at h
      simp [scanByte, endsInFinal] at h

/-- A sequence that ends a feed is kept whole. -/
theorem reads_final {m : Mode} {bs : List UInt8} (hm : m.Fine g)
    (h : endsInFinal (scan g m bs) = true) :
    ∃ ts r, Reads (m.pending ++ bs) ts r ∧ ¬ Incomplete g r := by
  obtain ⟨before, b, params, rfl, hmode, hfinal⟩ := endsInFinal_split h
  have hparams : (Mode.csi params).Fine g := hmode ▸ scan_fine hm before
  have hparam : g.isParam b = false := by
    rw [Bool.eq_false_iff]
    intro hparam
    rw [not_final_of_param hparam] at hfinal
    cases hfinal
  have hheld : Reads ((scan g m before).2.pending ++ [b]) [] (27 :: 91 :: (params ++ [b])) := by
    rw [hmode]
    exact .held (matchCsi_open hparams (Nat.le_refl 1))
  have hreads := reads_scan hm (by rw [hmode]; exact Mode.noConfusion)
    (fun hrest => absurd hrest (List.cons_ne_nil b [])) hheld
  exact ⟨_, _, hreads, not_incomplete hparam⟩

/-- The byte that breaks a sequence off. -/
theorem malformed_split {m : Mode} {bs : List UInt8} (hm : m ≠ .malformed)
    (h : (scan g m bs).2 = .malformed) :
    ∃ before b behind params, bs = before ++ b :: behind ∧ (scan g m before).2 = .csi params ∧
      isFinal b = false ∧ g.isParam b = false := by
  induction bs generalizing m with
  | nil => exact absurd h hm
  | cons b bs ih =>
    by_cases hnext : (scanByte g m b).2 = .malformed
    · cases m with
      | text => by_cases hesc : b = 27 <;> simp [scanByte, hesc] at hnext
      | esc =>
        by_cases hbracket : b = 91
        · simp [scanByte, hbracket] at hnext
        · by_cases hesc : b = 27 <;> simp [scanByte, hbracket, hesc] at hnext
      | csi params =>
        by_cases hfinal : isFinal b = true
        · simp [scanByte, hfinal] at hnext
        · by_cases hparam : g.isParam b = true
          · simp [scanByte, hfinal, hparam] at hnext
          · rw [Bool.not_eq_true] at hfinal hparam
            exact ⟨[], b, bs, params, rfl, rfl, hfinal, hparam⟩
      | malformed => exact absurd rfl hm
    · obtain ⟨before, c, behind, params, rfl, hmode, hfinal, hparam⟩ := ih hnext h
      exact ⟨b :: before, c, behind, params, rfl, hmode, hfinal, hparam⟩

/-- Behind a broken sequence `feed` holds everything, or takes the next byte that could end a
sequence for its end: the text up to there is lost. -/
theorem reads_broken {params behind r : List UInt8} {b : UInt8} {ts : List Token}
    (hparams : ∀ c ∈ params, g.isParam c = true) (hfinal : isFinal b = false)
    (hparam : g.isParam b = false)
    (h : Reads (27 :: 91 :: (params ++ b :: behind)) ts r) :
    ¬ Incomplete g r ∨
      ∃ ts' r', Reads behind ts' r' ∧ (chars ts).length < (chars ts').length := by
  cases h with
  | char hb _ => exact absurd rfl hb
  | stray hc _ => exact absurd rfl hc
  | held => exact .inl (not_incomplete hparam)
  | @csi _ found term rest ts _ hmatch hrest =>
    obtain ⟨hsplit, -, hterm, hpassed⟩ := matchCsi_iff.mp hmatch
    have hlost : ∃ lost, behind = lost ++ term :: rest ∧ ∀ c ∈ lost, c ∈ found := by
      rcases List.append_eq_append_iff.mp hsplit with ⟨more, hfound, htail⟩ | ⟨more, hhead, htail⟩
      · cases more with
        | nil =>
          obtain ⟨rfl, -⟩ := List.cons.inj htail
          rw [hfinal] at hterm
          cases hterm
        | cons c more =>
          obtain ⟨rfl, hbehind⟩ := List.cons.inj htail
          exact ⟨more, hbehind, fun c hc => by simp [hfound, hc]⟩
      · cases more with
        | nil =>
          obtain ⟨rfl, -⟩ := List.cons.inj htail
          rw [hfinal] at hterm
          cases hterm
        | cons c more =>
          obtain ⟨rfl, -⟩ := List.cons.inj htail
          have hopen := hparams term (by simp [hhead])
          rw [not_final_of_param hopen] at hterm
          cases hterm
    obtain ⟨lost, rfl, hmem⟩ := hlost
    have hesc : isPassed 27 = false := by decide
    have hplain : ∀ c ∈ lost, c ≠ 27 := by
      rintro c hc rfl
      have hp := hpassed 27 (hmem 27 hc)
      rw [hesc] at hp
      cases hp
    have hterm27 : term ≠ 27 := by
      rintro rfl
      exact absurd hterm (by decide)
    refine .inr ⟨_, _, reads_plain hplain (.char hterm27 hrest), ?_⟩
    rw [chars_append, List.length_append]
    show (chars ts).length < _ + (term :: chars ts).length
    rw [List.length_cons]
    omega

end Xcom.Receive.Ansi
