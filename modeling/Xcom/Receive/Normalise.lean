import Xcom.Display.Chunks
import Xcom.Receive.Recode

/-!
# Normalised and recoded text

The text view of the core works on bytes, before the display recodes them.  The two stages
together normalise the line ends of a text as long as no byte of a character is one the
text view drops or rewrites, and as long as the display knows the lead bytes of its code
page.
-/

namespace Xcom.Receive

open Xcom.Display

/-- CR LF and a lone CR are LF. -/
def normalise : List Char → List Char
  | [] => []
  | c :: rest =>
    if c = '\r' ∧ rest.head? = some '\n' then normalise rest
    else (if c = '\r' then '\n' else c) :: normalise rest

theorem normalise_eq_if (c : Char) (rest : List Char) : normalise (c :: rest) =
    if c = '\r' ∧ rest.head? = some '\n' then normalise rest
    else (if c = '\r' then '\n' else c) :: normalise rest := rfl

/-- A text without ESC and without control characters but CR, LF and TAB. -/
def Plain (t : List Char) : Prop :=
  ∀ c ∈ t, 0x20 ≤ c.toNat ∨ c = '\r' ∨ c = '\n' ∨ c = '\t'

/-- The text behind a CR that has been written as an LF. -/
def normaliseBehindCr (t : List Char) : List Char :=
  if t.head? = some '\n' then (normalise t).tail else normalise t

theorem normalise_cr (t : List Char) : normalise ('\r' :: t) = '\n' :: normaliseBehindCr t := by
  by_cases hlf : t.head? = some '\n'
  · obtain ⟨rest, rfl⟩ : ∃ rest, t = '\n' :: rest := by
      cases t with
      | nil => cases hlf
      | cons c rest => exact ⟨rest, by rw [Option.some.inj hlf]⟩
    simp [normalise_eq_if, normaliseBehindCr]
  · simp [normalise_eq_if, normaliseBehindCr, hlf]

theorem normalise_cons {c : Char} (hc : c ≠ '\r') (t : List Char) :
    normalise (c :: t) = c :: normalise t := by
  simp [normalise_eq_if, hc]

theorem normalise_of_not_mem {t : List Char} (h : '\r' ∉ t) : normalise t = t := by
  induction t with
  | nil => rfl
  | cons c t ih =>
    have hc : c ≠ '\r' := fun hc => h (hc ▸ List.mem_cons_self)
    rw [normalise_cons hc, ih fun ht => h (List.mem_cons_of_mem c ht)]

theorem mem_normalise {t : List Char} {c : Char} (hc : c ∈ t) (hcr : c ≠ '\r') :
    c ∈ normalise t := by
  induction t with
  | nil => cases hc
  | cons d t ih =>
    rw [normalise_eq_if]
    split
    · rename_i hpair
      rcases List.mem_cons.mp hc with rfl | hc
      · exact absurd hpair.1 hcr
      · exact ih hc
    · rcases List.mem_cons.mp hc with rfl | hc
      · rw [if_neg hcr]
        exact List.mem_cons_self
      · exact List.mem_cons_of_mem _ (ih hc)

theorem lf_mem_normalise {t : List Char} (h : '\r' ∈ t) : '\n' ∈ normalise t := by
  induction t with
  | nil => cases h
  | cons d t ih =>
    by_cases hd : d = '\r'
    · rw [hd, normalise_cr]
      exact List.mem_cons_self
    · rw [normalise_cons hd]
      have ht : '\r' ∈ t := (List.mem_cons.mp h).resolve_left (Ne.symm hd)
      exact List.mem_cons_of_mem d (ih ht)

/-- The characters of a normalised text are those of the text, and LF. -/
theorem of_mem_normalise {t : List Char} {c : Char} (hc : c ∈ normalise t) :
    c = '\n' ∨ c ∈ t := by
  induction t with
  | nil => cases hc
  | cons d t ih =>
    rw [normalise_eq_if] at hc
    split at hc
    · exact (ih hc).imp_right (List.mem_cons_of_mem d)
    · rcases List.mem_cons.mp hc with rfl | hc
      · split
        · exact .inl rfl
        · exact .inr List.mem_cons_self
      · exact (ih hc).imp_right (List.mem_cons_of_mem d)

/-! ## The text view on the bytes of a text -/

/-- The bytes the text view neither drops nor rewrites. -/
def Kept (b : UInt8) : Prop := b = 0x09 ∨ b = 0x0A ∨ 0x20 ≤ b

instance (b : UInt8) : Decidable (Kept b) :=
  inferInstanceAs (Decidable (b = 0x09 ∨ b = 0x0A ∨ 0x20 ≤ b))

theorem kept_visible {b : UInt8} (h : Kept b) : visible b = true ∧ b ≠ 0x0D ∧ b ≠ 0x1B := by
  rcases h with rfl | rfl | h
  · decide
  · decide
  · refine ⟨by simp [visible, h], ?_, ?_⟩ <;> rintro rfl <;> exact absurd h (by decide)

/-- Bytes that are kept, and do not begin with the LF of a pair, pass through. -/
theorem transduce_kept {bs : List UInt8} (hbs : ∀ b ∈ bs, Kept b) (st : TextState)
    (hst : st.strip = .text) (hpair : st.pendingCr = true → bs.head? ≠ some 0x0A) :
    (Transition.transduce TextState.feed st bs).1 = bs ∧
      (Transition.transduce TextState.feed st bs).2.strip = .text ∧
      (bs ≠ [] → (Transition.transduce TextState.feed st bs).2.pendingCr = false) := by
  induction bs generalizing st with
  | nil => exact ⟨rfl, hst, fun h => absurd rfl h⟩
  | cons b bs ih =>
    obtain ⟨hvis, hcr, hesc⟩ := kept_visible (hbs b List.mem_cons_self)
    have hno : ¬ (st.pendingCr = true ∧ b = 0x0A) := fun h => hpair h.1 (by rw [h.2]; rfl)
    have hfeed : TextState.feed st b =
        ([b], { st with lineStart := b = 0x0A, pendingCr := false }) := by
      simp [TextState.feed, hst, hno, hesc, hvis, hcr, textByte]
    obtain ⟨hout, hstrip, hlast⟩ := ih (fun c hc => hbs c (List.mem_cons_of_mem b hc))
      { st with lineStart := b = 0x0A, pendingCr := false } hst (by simp)
    rw [Transition.transduce, hfeed]
    refine ⟨congrArg (b :: ·) hout, hstrip, fun _ => ?_⟩
    by_cases hbs₀ : bs = []
    · rw [hbs₀]
      rfl
    · exact hlast hbs₀

/-- A charset that has ASCII as itself, and whose other characters have no byte the text
view drops or rewrites. -/
def AsciiBased (e : Encoding) : Prop :=
  (∀ c : Char, c.toNat < 0x80 → e c = some [UInt8.ofNat c.toNat]) ∧
    ∀ c bs, e c = some bs → 0x80 ≤ c.toNat → bs ≠ [] ∧ ∀ b ∈ bs, Kept b ∧ b ≠ 0x0A

/-- A character that is no line end is left as it is. -/
theorem plain_bytes {e : Encoding} (he : AsciiBased e) {c : Char} {bs : List UInt8}
    (hc : e c = some bs) (hplain : 0x20 ≤ c.toNat ∨ c = '\t') :
    bs ≠ [] ∧ ∀ b ∈ bs, Kept b ∧ b ≠ 0x0A := by
  by_cases hascii : c.toNat < 0x80
  · rw [he.1 c hascii] at hc
    obtain rfl := Option.some.inj hc
    refine ⟨by simp, ?_⟩
    intro b hb
    obtain rfl := List.mem_singleton.mp hb
    rcases hplain with hplain | rfl
    · have hval : (UInt8.ofNat c.toNat).toNat = c.toNat := by
        rw [UInt8.toNat_ofNat']
        omega
      refine ⟨.inr (.inr ?_), ?_⟩
      · rw [UInt8.le_iff_toNat_le, hval]
        exact hplain
      · intro hlf
        rw [hlf] at hval
        have hten : (0x0A : UInt8).toNat = 10 := rfl
        omega
    · decide
  · exact he.2 c bs hc (by omega)

/-- The text view normalises the line ends of a text in an ASCII based charset. -/
theorem transduce_normalise {e : Encoding} (he : AsciiBased e) {t : List Char}
    (hplain : Plain t) (hcov : e.Covers t) (st : TextState) (hst : st.strip = .text) :
    (Transition.transduce TextState.feed st (e.bytes t)).1 =
      e.bytes (if st.pendingCr then normaliseBehindCr t else normalise t) := by
  induction t generalizing st with
  | nil => cases st.pendingCr <;> rfl
  | cons c t ih =>
    have hplain' : Plain t := fun c' hc' => hplain c' (List.mem_cons_of_mem c hc')
    have hcov' : e.Covers t := fun c' hc' => hcov c' (List.mem_cons_of_mem c hc')
    have hrest := ih hplain' hcov'
    have hlfe : e '\n' = some [0x0A] := he.1 '\n' (by decide)
    have hcre : e '\r' = some [0x0D] := he.1 '\r' (by decide)
    by_cases hcr : c = '\r'
    · subst hcr
      have hhead : (if st.pendingCr then normaliseBehindCr ('\r' :: t) else normalise ('\r' :: t))
          = '\n' :: normaliseBehindCr t := by
        simp [normaliseBehindCr, normalise_cr]
      have hfeed : TextState.feed st 0x0D =
          ([0x0A], { st with lineStart := true, pendingCr := true }) := by
        simp [TextState.feed, hst, visible, textByte]
      rw [hhead, Encoding.bytes_cons hcre, Encoding.bytes_cons hlfe, List.singleton_append,
        Transition.transduce, hfeed]
      exact congrArg (0x0A :: ·) (hrest { st with lineStart := true, pendingCr := true } hst)
    by_cases hlf : c = '\n'
    · subst hlf
      rw [Encoding.bytes_cons hlfe, List.singleton_append, Transition.transduce]
      by_cases hpending : st.pendingCr = true
      · have hfeed : TextState.feed st 0x0A = ([], { st with pendingCr := false }) := by
          simp [TextState.feed, hst, hpending]
        rw [hfeed, if_pos hpending, normaliseBehindCr,
          if_pos (List.head?_cons), normalise_cons hcr]
        exact hrest { st with pendingCr := false } hst
      · have hfeed : TextState.feed st 0x0A =
            ([0x0A], { st with lineStart := true, pendingCr := false }) := by
          simp [TextState.feed, hst, hpending, visible, textByte]
        rw [hfeed, if_neg hpending, normalise_cons hcr, Encoding.bytes_cons hlfe]
        exact congrArg (0x0A :: ·) (hrest { st with lineStart := true, pendingCr := false } hst)
    · obtain ⟨bs, hc⟩ := Option.isSome_iff_exists.mp (hcov c List.mem_cons_self)
      have hshown : 0x20 ≤ c.toNat ∨ c = '\t' := by
        rcases hplain c List.mem_cons_self with h | h | h | h
        · exact .inl h
        · exact absurd h hcr
        · exact absurd h hlf
        · exact .inr h
      obtain ⟨hbs, hkept⟩ := plain_bytes he hc hshown
      have hhead : (if st.pendingCr then normaliseBehindCr (c :: t) else normalise (c :: t)) =
          c :: normalise t := by
        simp [normaliseBehindCr, hlf, normalise_cons hcr]
      obtain ⟨hout, hstrip, hlast⟩ := transduce_kept (fun b hb => (hkept b hb).1) st hst
        fun _ hhead => (hkept 0x0A (List.mem_of_mem_head? hhead)).2 rfl
      rw [hhead, Encoding.bytes_cons hc, Encoding.bytes_cons hc, Transition.transduce_append,
        hout, hrest _ hstrip, hlast hbs]
      rfl

/-! ## The converters of the system -/

/-- The lead bytes of the code pages. -/
def pageLead (cp : Nat) (b : UInt8) : Bool :=
  ((cp = 936 ∨ cp = 950) ∧ 0x81 ≤ b ∧ b ≤ 0xFE) ∨
    (cp = 932 ∧ (0x81 ≤ b ∧ b ≤ 0x9F ∨ 0xE0 ≤ b ∧ b ≤ 0xFC))

/-- A double-byte code page: ASCII as itself, single bytes from 0x80 on, and pairs of a
lead byte and a trail byte.  The default character stands for what it cannot read. -/
structure CodePage (cp : Nat) where
  encode : Encoding
  defaultChar : Char
  ascii : ∀ c : Char, c.toNat < 0x80 → encode c = some [UInt8.ofNat c.toNat]
  shape : ∀ c bs, encode c = some bs → 0x80 ≤ c.toNat →
    (∃ b, bs = [b] ∧ 0x80 ≤ b ∧ pageLead cp b = false) ∨
      ∃ l t, bs = [l, t] ∧ pageLead cp l = true ∧ 0x40 ≤ t
  default_read : ∀ l t, encode defaultChar = some [l, t] → dbcsLeadByte cp l = true

/-- The system's converters: whole characters are decoded as the code page has them, a lead
byte at the end as the default character, and UTF-16 becomes UTF-8. -/
structure Converters where
  kernel32 : Kernel32
  page : (cp : Nat) → CodePage cp
  whole : ∀ cp ∈ [936, 950, 932], ∀ t ≠ [], (page cp).encode.Covers t →
    kernel32.multiByteToWideChar cp ((page cp).encode.bytes t) = some (t.flatMap Utf16.units)
  dangling : ∀ cp ∈ [936, 950, 932], ∀ t l, (page cp).encode.Covers t → pageLead cp l = true →
    kernel32.multiByteToWideChar cp ((page cp).encode.bytes t ++ [l]) =
      some ((t ++ [(page cp).defaultChar]).flatMap Utf16.units)
  wide : ∀ us ≠ [], kernel32.wideCharToUtf8 us = some (Utf8.encode (Utf16.decode us))

/-- The bytes of the characters of a codec. -/
def Codec.encoding (os : Converters) : Codec → Encoding
  | .page cp => (os.page cp).encode
  | .utf16 => utf16Encoding

/-- The texts whose characters survive the text view and are told apart by the display. -/
def Intact (os : Converters) (t : List Char) : Codec → Prop
  | .page cp => ∀ c ∈ t, ∀ l b, (os.page cp).encode c = some [l, b] → dbcsLeadByte cp l = true
  | .utf16 => ∀ b ∈ Utf16.leBytes t, Kept b

theorem pageLead_of_dbcsLeadByte {cp : Nat} {b : UInt8} (h : dbcsLeadByte cp b = true) :
    pageLead cp b = true := by
  simp only [dbcsLeadByte, pageLead, decide_eq_true_eq] at h ⊢
  rcases h with h | ⟨hcp, h | ⟨hlow, hhigh⟩⟩
  · exact .inl h
  · exact .inr ⟨hcp, .inl h⟩
  · exact .inr ⟨hcp, .inr ⟨hlow, UInt8.le_trans hhigh (by decide)⟩⟩

/-- The display knows every lead byte of the Chinese code pages. -/
theorem intact_chinese (os : Converters) (t : List Char) {cp : Nat} (hcp : cp = 936 ∨ cp = 950) :
    Intact os t (.page cp) := by
  intro c _ l b hc
  by_cases hascii : c.toNat < 0x80
  · rw [(os.page cp).ascii c hascii] at hc
    cases hc
  · rcases (os.page cp).shape c _ hc (by omega) with ⟨_, hbs, -⟩ | ⟨_, _, hbs, hlead, -⟩
    · cases hbs
    · cases hbs
      simp only [pageLead, decide_eq_true_eq] at hlead
      simp only [dbcsLeadByte, decide_eq_true_eq]
      rcases hlead with hlead | ⟨h932, -⟩
      · exact .inl hlead
      · omega

theorem lead_high {cp : Nat} {b : UInt8} (h : pageLead cp b = true) : 0x81 ≤ b := by
  simp only [pageLead, decide_eq_true_eq] at h
  rcases h with ⟨-, h, -⟩ | ⟨-, ⟨h, -⟩ | ⟨h, -⟩⟩
  · exact h
  · exact h
  · exact UInt8.le_trans (by decide) h

theorem kept_of_le {n b : UInt8} (hn : 0x20 ≤ n) (hb : n ≤ b) : Kept b ∧ b ≠ 0x0A := by
  have hle := UInt8.le_trans hn hb
  refine ⟨.inr (.inr hle), ?_⟩
  rintro rfl
  exact absurd hle (by decide)

theorem page_asciiBased {cp : Nat} (p : CodePage cp) : AsciiBased p.encode := by
  refine ⟨p.ascii, ?_⟩
  intro c bs hc hhigh
  rcases p.shape c bs hc hhigh with ⟨b, rfl, hb, -⟩ | ⟨l, t, rfl, hl, ht⟩
  · refine ⟨by simp, ?_⟩
    intro b' hb'
    obtain rfl := List.mem_singleton.mp hb'
    exact kept_of_le (by decide) hb
  · refine ⟨by simp, ?_⟩
    intro b' hb'
    have hpre : b' = l ∨ b' = t := by simpa using hb'
    rcases hpre with rfl | rfl
    · exact kept_of_le (by decide) (lead_high hl)
    · exact kept_of_le (by decide) ht

/-- A character of a code page is one the scan reads rightly, or has a lead byte the
display does not know. -/
theorem page_readsRight {cp : Nat} (p : CodePage cp) {c : Char} (hc : (p.encode c).isSome)
    (hlead : ∀ l b, p.encode c = some [l, b] → dbcsLeadByte cp l = true) :
    ReadsRight p.encode cp c := by
  have hsingle : ∀ {b}, pageLead cp b = false → dbcsLeadByte cp b = false := by
    intro b hb
    cases h : dbcsLeadByte cp b with
    | false => rfl
    | true => rw [pageLead_of_dbcsLeadByte h] at hb; cases hb
  by_cases hascii : c.toNat < 0x80
  · refine .inl ⟨_, p.ascii c hascii, hsingle ?_⟩
    cases h : pageLead cp (UInt8.ofNat c.toNat) with
    | false => rfl
    | true =>
      have hle := UInt8.le_iff_toNat_le.mp (lead_high h)
      rw [UInt8.toNat_ofNat'] at hle
      have hval : (0x81 : UInt8).toNat = 0x81 := rfl
      omega
  · obtain ⟨bs, hbs⟩ := Option.isSome_iff_exists.mp hc
    rcases p.shape c bs hbs (by omega) with ⟨b, rfl, -, hb⟩ | ⟨l, t, rfl, -, -⟩
    · exact .inl ⟨b, hbs, hsingle hb⟩
    · exact .inr ⟨l, t, hbs, hlead l t hbs⟩

/-- The first of the two bytes of a character is a lead byte. -/
theorem page_lead {cp : Nat} (p : CodePage cp) {ch : Char} {l b : UInt8}
    (h : p.encode ch = some [l, b]) : pageLead cp l = true := by
  by_cases hascii : ch.toNat < 0x80
  · rw [p.ascii ch hascii] at h
    cases h
  · rcases p.shape ch _ h (by omega) with ⟨_, hbs, -⟩ | ⟨_, _, hbs, hlead, -⟩
    · cases hbs
    · cases hbs
      exact hlead

end Xcom.Receive
