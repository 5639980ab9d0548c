import Xcom.Receive.Normalise

/-!
# From bytes to shown text

The text view of the core, block after block, and the charset conversion of the display,
batch after batch.  Together they show a text with its line ends normalised exactly when
the text is one whose bytes survive the text view and whose characters the display tells
apart.
-/

namespace Xcom.Receive

open Xcom.Display

variable {os : Converters}

/-- However the bytes of a text are cut into blocks, and what the core makes of them into
batches, the display shows the text with its line ends normalised. -/
def ShowsNormalised (os : Converters) (codec : Codec) (c : Charset) (t : List Char) : Prop :=
  ∀ blocks batches : List (List UInt8), (∀ block ∈ blocks, block.length ≤ kRxBlockBytes) →
    blocks.flatten = (codec.encoding os).bytes t →
    batches.flatten = (formatBlocks {} blocks).1 →
    (convertBatches (some os.kernel32) c batches).1 = Utf8.encode (normalise t)

/-- The bytes of a text one by one. -/
theorem singletons_flatten (bs : List UInt8) :
    (∀ block ∈ bs.map ([·]), block.length ≤ kRxBlockBytes) ∧ (bs.map ([·])).flatten = bs := by
  constructor
  · intro block hblock
    obtain ⟨b, -, rfl⟩ := List.mem_map.mp hblock
    exact Nat.le_of_ble_eq_true rfl
  · induction bs with
    | nil => rfl
    | cons b bs ih => rw [List.map_cons, List.flatten_cons, ih, List.singleton_append]

/-! ## Double-byte code pages -/

section Page

variable {cp : Nat}

theorem recodePage_text (hpage : cp ∈ [936, 950, 932]) {t : List Char} (ht : t ≠ [])
    (hcov : (os.page cp).encode.Covers t) :
    recodePage os.kernel32 cp ((os.page cp).encode.bytes t) = Utf8.encode t := by
  have hunits : t.flatMap Utf16.units ≠ [] := by
    obtain ⟨c, t, rfl⟩ := List.exists_cons_of_ne_nil ht
    rw [List.flatMap_cons]
    exact List.append_ne_nil_of_left_ne_nil (Utf16.units_ne_nil c) _
  simp only [recodePage, os.whole cp hpage t ht hcov, os.wide _ hunits, Utf16.decode_units,
    Option.getD_some]

/-- A lead byte the display does not know is decoded without its trail byte. -/
theorem recodePage_dangling (hpage : cp ∈ [936, 950, 932]) {t : List Char} {l : UInt8}
    (hcov : (os.page cp).encode.Covers t) (hl : pageLead cp l = true) :
    recodePage os.kernel32 cp ((os.page cp).encode.bytes t ++ [l]) =
      Utf8.encode (t ++ [(os.page cp).defaultChar]) := by
  have hunits : (t ++ [(os.page cp).defaultChar]).flatMap Utf16.units ≠ [] := by
    rw [List.flatMap_append]
    apply List.append_ne_nil_of_right_ne_nil
    simpa using Utf16.units_ne_nil _
  simp only [recodePage, os.dangling cp hpage t l hcov hl, os.wide _ hunits,
    Utf16.decode_units, Option.getD_some]

theorem convert_page {c : Charset} (hc : c.currentCp = some (.page cp)) {text : List UInt8}
    (htext : text ≠ []) :
    c.convert (some os.kernel32) text =
      c.shift (dbcsHold cp) (recodePage os.kernel32 cp) text := by
  unfold Charset.convert
  rw [if_neg htext, hc]
  rfl

theorem normalise_covers {e : Encoding} (he : AsciiBased e) {t : List Char}
    (hcov : e.Covers t) : e.Covers (normalise t) := by
  intro c hc
  rcases of_mem_normalise hc with rfl | hc
  · rw [he.1 '\n' (by decide)]
    rfl
  · exact hcov c hc

/-- What the core makes of a text in a code page. -/
theorem formatBlocks_page {t : List Char} (hplain : Plain t)
    (hcov : (os.page cp).encode.Covers t) {blocks : List (List UInt8)}
    (hblocks : ∀ block ∈ blocks, block.length ≤ kRxBlockBytes)
    (hbytes : blocks.flatten = (os.page cp).encode.bytes t) :
    (formatBlocks {} blocks).1 = (os.page cp).encode.bytes (normalise t) := by
  rw [formatBlocks_eq_transduce {} hblocks, hbytes]
  exact transduce_normalise (page_asciiBased (os.page cp)) hplain hcov {} rfl

theorem page_shows (hpage : cp ∈ [936, 950, 932]) {c : Charset}
    (hc : c.currentCp = some (.page cp)) (hpending : c.pending = []) {t : List Char}
    (hplain : Plain t) (hcov : (os.page cp).encode.Covers t) (h : Intact os t (.page cp)) :
    ShowsNormalised os (.page cp) c t := by
  intro blocks batches hblocks hbytes hbatches
  rw [formatBlocks_page hplain hcov hblocks hbytes] at hbatches
  have hascii := page_asciiBased (os.page cp)
  have hncov := normalise_covers hascii hcov
  have hread : ∀ ch ∈ normalise t, ((os.page cp).encode ch).isSome ∧
      ReadsRight (os.page cp).encode cp ch := by
    intro ch hch
    refine ⟨hncov ch hch, page_readsRight _ (hncov ch hch) ?_⟩
    intro l b hlb
    rcases of_mem_normalise hch with rfl | hch
    · rw [hascii.1 '\n' (by decide)] at hlb
      cases hlb
    · exact h ch hch l b hlb
  have hcuts : CutsBetween (os.page cp).encode
      (fun ch => ((os.page cp).encode ch).isSome ∧ ReadsRight (os.page cp).encode cp ch)
      (dbcsHold cp) := by
    intro t data rest ht
    exact dbcsHold_cuts (os.page cp).encode cp t data rest fun ch hch => (ht ch hch).2
  refine convertBatches_text hcuts ?_ ?_ (fun c' hc' text htext => convert_page hc' htext) hc
    hread ?_ ?_
  · rintro ch ⟨-, ⟨b, hb, -⟩ | ⟨l, b, hb, -⟩⟩
    · exact ⟨b, [], hb⟩
    · exact ⟨l, [b], hb⟩
  · intro t ht hchars
    exact recodePage_text hpage ht fun ch hch => (hchars ch hch).1
  · rw [hpending, hbatches]
    rfl
  · intro _
    exact hpending

/-- A text that is not intact has a first character with an unknown lead byte. -/
theorem first_unread {e : Encoding} {cp : Nat} {t : List Char}
    (h : ∃ c ∈ t, ∃ l b, e c = some [l, b] ∧ dbcsLeadByte cp l = false) :
    ∃ t₁ c t₂ l b, t = t₁ ++ c :: t₂ ∧ e c = some [l, b] ∧ dbcsLeadByte cp l = false ∧
      ∀ c' ∈ t₁, ∀ l' b', e c' = some [l', b'] → dbcsLeadByte cp l' = true := by
  induction t with
  | nil =>
    obtain ⟨c, hc, -⟩ := h
    cases hc
  | cons d t ih =>
    by_cases hd : ∃ l b, e d = some [l, b] ∧ dbcsLeadByte cp l = false
    · obtain ⟨l, b, hlb, hl⟩ := hd
      refine ⟨[], d, t, l, b, rfl, hlb, hl, ?_⟩
      intro c' hc'
      cases hc'
    · obtain ⟨c, hc, hlb⟩ := h
      have hct : c ∈ t := by
        rcases List.mem_cons.mp hc with rfl | hc
        · exact absurd hlb hd
        · exact hc
      obtain ⟨t₁, c₁, t₂, l, b, rfl, hc₁, hl, hall⟩ := ih ⟨c, hct, hlb⟩
      refine ⟨d :: t₁, c₁, t₂, l, b, rfl, hc₁, hl, ?_⟩
      intro c' hc' l' b' hlb'
      rcases List.mem_cons.mp hc' with rfl | hc'
      · cases hlead : dbcsLeadByte cp l' with
        | true => rfl
        | false => exact absurd ⟨l', b', hlb', hlead⟩ hd
      · exact hall c' hc' l' b' hlb'

/-- The scan finds nothing dangling behind characters it reads rightly. -/
theorem dbcsHold_unread {e : Encoding} {t : List Char} (ht : ∀ c ∈ t, ReadsRight e cp c)
    {l : UInt8} (hl : dbcsLeadByte cp l = false) :
    dbcsHold cp (e.bytes t ++ [l]) = (e.bytes t ++ [l], []) := by
  induction t with
  | nil => simp [dbcsHold, endsWithDanglingLead, hl]
  | cons c t ih =>
    have hrest := ih fun c' hc' => ht c' (List.mem_cons_of_mem c hc')
    rcases ht c List.mem_cons_self with ⟨b, hb, hlead⟩ | ⟨l', b, hb, hlead⟩
    · rw [Encoding.bytes_cons hb, List.append_assoc, List.singleton_append,
        dbcsHold_cons hlead, hrest]
    · rw [Encoding.bytes_cons hb, List.append_assoc, List.cons_append, List.cons_append,
        List.nil_append, dbcsHold_pair hlead, hrest]

/-- A text with an unknown lead byte is spoilt by a batch that ends behind it. -/
theorem page_spoilt (hpage : cp ∈ [936, 950, 932]) {c : Charset}
    (hc : c.currentCp = some (.page cp)) (hpending : c.pending = []) {t : List Char}
    (hplain : Plain t) (hcov : (os.page cp).encode.Covers t) (h : ¬ Intact os t (.page cp)) :
    ¬ ShowsNormalised os (.page cp) c t := by
  have hascii := page_asciiBased (os.page cp)
  have hncov := normalise_covers hascii hcov
  have hbad : ∃ ch ∈ normalise t, ∃ l b,
      (os.page cp).encode ch = some [l, b] ∧ dbcsLeadByte cp l = false := by
    simp only [Intact, not_forall, Bool.not_eq_true] at h
    obtain ⟨ch, hch, l, b, hlb, hl⟩ := h
    refine ⟨ch, mem_normalise hch ?_, l, b, hlb, hl⟩
    rintro rfl
    rw [hascii.1 '\r' (by decide)] at hlb
    cases hlb
  obtain ⟨t₁, ch, t₂, l, b, hsplit, hlb, hl, hread⟩ := first_unread hbad
  have hcov₁ : (os.page cp).encode.Covers t₁ := by
    intro ch' hch'
    exact hncov ch' (hsplit ▸ List.mem_append_left _ hch')
  have hreads : ∀ ch' ∈ t₁, ReadsRight (os.page cp).encode cp ch' :=
    fun ch' hch' => page_readsRight _ (hcov₁ ch' hch') (hread ch' hch')
  have hlead := page_lead (os.page cp) hlb
  intro hshows
  obtain ⟨hsize, hflatten⟩ := singletons_flatten ((os.page cp).encode.bytes t)
  have hcut := formatBlocks_page hplain hcov hsize hflatten
  rw [hsplit, Encoding.bytes_append, Encoding.bytes_cons hlb] at hcut
  have hout := hshows _ [(os.page cp).encode.bytes t₁ ++ [l],
    b :: (os.page cp).encode.bytes t₂] hsize hflatten (by rw [hcut]; simp)
  have hfirst : ((c.convert (some os.kernel32)
      ((os.page cp).encode.bytes t₁ ++ [l])).1).getD [] =
        Utf8.encode (t₁ ++ [(os.page cp).defaultChar]) := by
    rw [convert_page hc (by simp), Charset.shift, hpending, List.nil_append,
      dbcsHold_unread hreads hl, if_neg (by simp), Option.getD_some,
      recodePage_dangling hpage hcov₁ hlead]
  rw [convertBatches, Transition.overBlocks, hfirst, hsplit, Utf8.encode_append,
    Utf8.encode_append, List.append_assoc] at hout
  have hsame := Utf8.encode_cons_append_inj
    (t := t₂) (y := []) (by simpa using List.append_cancel_left hout)
  rw [← hsame] at hlb
  rw [(os.page cp).default_read l b hlb] at hl
  cases hl

end Page

/-! ## UTF-16 -/

section Utf16

variable {c : Charset}

theorem leUnits_ne_nil {bs : List UInt8} (h : 2 ≤ bs.length) : Utf16.leUnits bs ≠ [] := by
  match bs with
  | [] => exact absurd h (by decide)
  | [_] => exact absurd h (by simp)
  | a :: b :: rest => exact List.cons_ne_nil _ _

theorem leBytes_length (t : List Char) (ht : t ≠ []) : 2 ≤ (Utf16.leBytes t).length := by
  obtain ⟨ch, t, rfl⟩ := List.exists_cons_of_ne_nil ht
  obtain ⟨u, us, hu⟩ := List.exists_cons_of_ne_nil (Utf16.units_ne_nil ch)
  rw [Utf16.leBytes, List.flatMap_cons, hu, List.cons_append, List.flatMap_cons,
    List.length_append]
  simp [Utf16.unitBytes]

theorem recodeUtf16_eq {bs : List UInt8} (h : 2 ≤ bs.length) :
    recodeUtf16 os.kernel32 bs = Utf8.encode (Utf16.decode (Utf16.leUnits bs)) := by
  rw [recodeUtf16, os.wide _ (leUnits_ne_nil h)]
  rfl

theorem recodeUtf16_text {t : List Char} (ht : t ≠ []) :
    recodeUtf16 os.kernel32 (utf16Encoding.bytes t) = Utf8.encode t := by
  rw [utf16_bytes, recodeUtf16_eq (leBytes_length t ht), Utf16.leUnits_leBytes,
    Utf16.decode_units]

theorem convert_utf16 {c : Charset} (hc : c.currentCp = some .utf16) {text : List UInt8}
    (htext : text ≠ []) :
    c.convert (some os.kernel32) text = c.shift utf16Hold (recodeUtf16 os.kernel32) text := by
  unfold Charset.convert
  rw [if_neg htext, hc]
  rfl

theorem kept_leBytes {t : List Char} (h : ∀ b ∈ Utf16.leBytes t, Kept b) {ch : Char}
    (hch : ch ∈ t) : ∀ b ∈ Utf16.leBytes [ch], Kept b := by
  intro b hb
  obtain ⟨u, hu, hb⟩ := List.mem_flatMap.mp hb
  apply h b
  rw [Utf16.leBytes, List.mem_flatMap]
  refine ⟨u, ?_, hb⟩
  rw [List.mem_flatMap]
  exact ⟨ch, hch, by simpa using hu⟩

theorem utf16_shows (hc : c.currentCp = some .utf16) (hpending : c.pending = [])
    {t : List Char} (h : Intact os t .utf16) : ShowsNormalised os .utf16 c t := by
  intro blocks batches hblocks hbytes hbatches
  have hkept : ∀ b ∈ blocks.flatten, Kept b := by
    rw [hbytes]
    intro b hb
    rw [Codec.encoding, utf16_bytes] at hb
    exact h b hb
  obtain ⟨hout, -⟩ := transduce_kept hkept {} rfl (by simp)
  rw [formatBlocks_eq_transduce {} hblocks, hout, hbytes] at hbatches
  have hcr : '\r' ∉ t := by
    intro hcr
    exact absurd (kept_leBytes h hcr 0x0D (by decide)) (by decide)
  rw [normalise_of_not_mem hcr]
  refine convertBatches_text utf16Hold_cuts ?_ ?_
    (fun c' hc' text htext => convert_utf16 hc' htext) hc (fun _ _ => trivial) ?_ ?_
  · rintro ch -
    rcases utf16Encoding_cases ch with ⟨a, b, hb, -⟩ | ⟨a, b, a', b', hb, -⟩
    · exact ⟨a, [b], hb⟩
    · exact ⟨a, [b, a', b'], hb⟩
  · intro t ht _
    exact recodeUtf16_text ht
  · rw [hpending, hbatches]
    rfl
  · intro _
    exact hpending

/-- A normalised text keeps a byte the text view would not have shown. -/
theorem normalise_not_kept {t : List Char} (h : ¬ ∀ b ∈ Utf16.leBytes t, Kept b) :
    ∃ ch ∈ normalise t, ¬ ∀ b ∈ Utf16.leBytes [ch], Kept b := by
  simp only [not_forall] at h
  obtain ⟨b, hb, hbad⟩ := h
  obtain ⟨u, hu, hbu⟩ := List.mem_flatMap.mp hb
  obtain ⟨ch, hch, hu⟩ := List.mem_flatMap.mp hu
  by_cases hcr : ch = '\r'
  · subst hcr
    refine ⟨'\n', lf_mem_normalise hch, ?_⟩
    intro hall
    exact absurd (hall 0x00 (by decide)) (by decide)
  · refine ⟨ch, mem_normalise hch hcr, ?_⟩
    intro hall
    apply hbad
    apply hall b
    rw [Utf16.leBytes, List.mem_flatMap]
    exact ⟨u, by simpa using hu, hbu⟩

/-- The characters read from bytes that are all kept have such bytes themselves. -/
theorem decode_kept {bs : List UInt8} (hbs : ∀ b ∈ bs, Kept b) :
    ∀ ch ∈ Utf16.decode (Utf16.leUnits bs), ∀ b ∈ Utf16.leBytes [ch], Kept b := by
  intro ch hch b hb
  obtain ⟨u, hu, hb⟩ := List.mem_flatMap.mp hb
  have hu' : u ∈ Utf16.units ch := by simpa using hu
  have hread : ∀ v ∈ Utf16.leUnits bs, ∀ b ∈ Utf16.unitBytes v, Kept b :=
    fun v hv b hb => hbs b (Utf16.mem_unitBytes_leUnits hv b hb)
  have hreplacement : ∀ b ∈ Utf16.unitBytes 0xFFFD, Kept b := by
    have hbytes : Utf16.unitBytes 0xFFFD = [0xFD, 0xFF] := rfl
    rw [hbytes]
    intro b hb
    rcases List.mem_cons.mp hb with rfl | hb
    · decide
    · obtain rfl := List.mem_singleton.mp hb
      decide
  exact Utf16.mem_units_decode (p := fun v => ∀ b ∈ Utf16.unitBytes v, Kept b)
    hreplacement hread ch hch u hu' b hb

theorem utf16Hold_mem {data : List UInt8} : ∀ b ∈ (utf16Hold data).1, b ∈ data := by
  intro b hb
  unfold utf16Hold at hb
  simp only at hb
  split at hb
  · exact List.mem_of_mem_take (List.mem_of_mem_take hb)
  · exact List.mem_of_mem_take hb

theorem utf16Hold_length (data : List UInt8) (h : (utf16Hold data).1 ≠ []) :
    2 ≤ (utf16Hold data).1.length := by
  have hpos := List.length_pos_iff.mpr h
  unfold utf16Hold at hpos ⊢
  simp only at hpos ⊢
  split at hpos
  · rw [List.length_take, List.length_take] at *
    rw [if_pos ‹_›, List.length_take, List.length_take]
    omega
  · rw [if_neg ‹_›]
    rw [List.length_take] at *
    omega

/-- A text with a byte the text view drops or rewrites is spoilt in every split. -/
theorem utf16_spoilt (hc : c.currentCp = some .utf16) (hpending : c.pending = [])
    {t : List Char} (h : ¬ Intact os t .utf16) : ¬ ShowsNormalised os .utf16 c t := by
  intro hshows
  obtain ⟨ch, hch, hbad⟩ := normalise_not_kept h
  obtain ⟨hsize, hflatten⟩ := singletons_flatten ((Codec.utf16.encoding os).bytes t)
  have hkept : ∀ b ∈ (formatBlocks {} (((Codec.utf16.encoding os).bytes t).map ([·]))).1,
      Kept b := by
    have hlen : 0 + ((Codec.utf16.encoding os).bytes t |>.map ([·])).flatten.length ≤
        ((Codec.utf16.encoding os).bytes t |>.map ([·])).flatten.length := by omega
    rw [formatBlocks_eq_transduce {} hsize, ← formatText_eq_transduce {} hlen]
    intro b hb
    rcases formatText_shows _ _ _ _ _ b hb with hb | hb | hb
    · exact .inr (.inl hb)
    · exact .inl hb
    · exact .inr (.inr hb)
  have hout := hshows _ [(formatBlocks {} (((Codec.utf16.encoding os).bytes t).map ([·]))).1]
    hsize hflatten (by simp)
  generalize (formatBlocks {} (((Codec.utf16.encoding os).bytes t).map ([·]))).1 = text
    at hkept hout
  have hne : normalise t ≠ [] := List.ne_nil_of_mem hch
  have hempty : Utf8.encode (normalise t) ≠ [] := by
    intro hnil
    exact hne (Utf8.encode_injective hnil)
  simp only [convertBatches, Transition.overBlocks, List.append_nil] at hout
  by_cases htext : text = []
  · rw [htext] at hout
    exact hempty hout.symm
  · rw [convert_utf16 hc htext, Charset.shift, hpending, List.nil_append] at hout
    by_cases hready : (utf16Hold text).1 = []
    · rw [if_pos hready] at hout
      exact hempty hout.symm
    · rw [if_neg hready, Option.getD_some, recodeUtf16_eq (utf16Hold_length text hready)] at hout
      have hsame := Utf8.encode_injective hout
      have hall := decode_kept (fun b hb => hkept b (utf16Hold_mem b hb)) ch (hsame ▸ hch)
      exact hbad hall

end Utf16

/-! ## Every charset the display offers -/

/-- The pages of the charsets the display offers. -/
theorem cpTable_page {item : CharsetItem} {cp : Nat}
    (h : cpTable item.name = some (some (.page cp))) : cp ∈ [936, 950, 932] := by
  cases item <;> simp [cpTable, CharsetItem.name] at h <;> simp [← h]

/-- What `M.set` leaves of a name it knows. -/
theorem set_name (c : Charset) {name : String} {selected : Option Codec}
    (hname : cpTable name = some selected) :
    (c.set (some name)).2 = { currentName := name, currentCp := selected } := by
  have hne : name ≠ "" := by
    rintro rfl
    exact absurd hname (by simp [cpTable])
  unfold Charset.set
  split
  · contradiction
  · exact absurd (Option.some.inj ‹_›) hne
  · rename_i name' _ heq
    obtain rfl := Option.some.inj heq
    rw [hname]

/-- The two stages normalise the line ends of a text, whatever the blocks and the batches,
exactly when the text is intact: the display knows the lead bytes of its characters, or no
byte of its UTF-16 is a control byte other than TAB and LF. -/
theorem showsNormalised_iff (os : Converters) (item : CharsetItem) {codec : Codec}
    (hitem : cpTable item.name = some (some codec)) (c : Charset) {t : List Char}
    (hplain : Plain t) (hcov : (codec.encoding os).Covers t) :
    ShowsNormalised os codec (c.set (some item.name)).2 t ↔ Intact os t codec := by
  rw [set_name c hitem]
  cases codec with
  | page cp =>
    have hpage := cpTable_page hitem
    constructor
    · intro hshows
      by_contra h
      exact page_spoilt hpage rfl rfl hplain hcov h hshows
    · intro h
      exact page_shows hpage rfl rfl hplain hcov h
  | utf16 =>
    constructor
    · intro hshows
      by_contra h
      exact utf16_spoilt rfl rfl h hshows
    · intro h
      exact utf16_shows rfl rfl h

/-! A system whose double-byte pages have one character besides ASCII: あ. -/

/-- The bytes of あ. -/
def kana (cp : Nat) : UInt8 × UInt8 :=
  if cp = 936 then (0xA4, 0xA2) else if cp = 950 then (0xC6, 0xE7) else (0x82, 0xA0)

def kanaEncode (cp : Nat) : Encoding := fun c =>
  if c.toNat < 0x80 then some [UInt8.ofNat c.toNat]
  else if c = 'あ' ∧ pageLead cp (kana cp).1 = true then some [(kana cp).1, (kana cp).2]
  else none

def kanaDecode (cp : Nat) : List UInt8 → List UInt16
  | [] => []
  | [b] => [if b < 0x80 then UInt16.ofNat b.toNat else 0xFFFD]
  | b :: t :: rest =>
    if b = (kana cp).1 ∧ t = (kana cp).2 then 0x3042 :: kanaDecode cp rest
    else (if b < 0x80 then UInt16.ofNat b.toNat else 0xFFFD) :: kanaDecode cp (t :: rest)

theorem kana_lead (cp : Nat) : 0x80 ≤ (kana cp).1 ∧ 0x40 ≤ (kana cp).2 := by
  unfold kana
  split_ifs <;> decide

theorem kanaDecode_ascii (cp : Nat) {b : UInt8} (hb : b < 0x80) (rest : List UInt8) :
    kanaDecode cp (b :: rest) = UInt16.ofNat b.toNat :: kanaDecode cp rest := by
  cases rest with
  | nil => simp [kanaDecode, hb]
  | cons t rest =>
    have hne : b ≠ (kana cp).1 := by
      rintro rfl
      exact absurd hb (UInt8.not_lt.mpr (kana_lead cp).1)
    simp [kanaDecode, hb, hne]

theorem kanaDecode_bytes (cp : Nat) {t : List Char} (hcov : (kanaEncode cp).Covers t)
    (rest : List UInt8) :
    kanaDecode cp ((kanaEncode cp).bytes t ++ rest) =
      t.flatMap Utf16.units ++ kanaDecode cp rest := by
  induction t with
  | nil => rfl
  | cons c t ih =>
    have hrest := ih fun c' hc' => hcov c' (List.mem_cons_of_mem c hc')
    have hc := hcov c List.mem_cons_self
    by_cases hascii : c.toNat < 0x80
    · have hbytes : kanaEncode cp c = some [UInt8.ofNat c.toNat] := by
        simp [kanaEncode, hascii]
      have hval : (UInt8.ofNat c.toNat).toNat = c.toNat := by
        rw [UInt8.toNat_ofNat']
        omega
      have hlt : UInt8.ofNat c.toNat < 0x80 := by
        rw [UInt8.lt_iff_toNat_lt, hval]
        exact hascii
      have hunits : Utf16.units c = [UInt16.ofNat c.toNat] := by
        rw [Utf16.units, if_pos (by omega)]
      rw [Encoding.bytes_cons hbytes, List.append_assoc, List.singleton_append,
        kanaDecode_ascii cp hlt, hrest, List.flatMap_cons, hunits, hval]
      rfl
    · by_cases hkana : c = 'あ' ∧ pageLead cp (kana cp).1 = true
      · have hbytes : kanaEncode cp c = some [(kana cp).1, (kana cp).2] := by
          rw [kanaEncode, if_neg hascii, if_pos hkana]
        have hunits : Utf16.units c = [0x3042] := by
          rw [hkana.1]
          rfl
        rw [Encoding.bytes_cons hbytes, List.flatMap_cons, hunits]
        simp [kanaDecode, hrest]
      · rw [kanaEncode, if_neg hascii, if_neg hkana] at hc
        cases hc

def kanaPage (cp : Nat) : CodePage cp where
  encode := kanaEncode cp
  defaultChar := Utf16.replacement
  ascii := by
    intro c hc
    rw [kanaEncode, if_pos hc]
  shape := by
    intro c bs hc hhigh
    rw [kanaEncode, if_neg (by omega)] at hc
    split at hc
    · rename_i hkana
      exact .inr ⟨_, _, (Option.some.inj hc).symm, hkana.2, (kana_lead cp).2⟩
    · cases hc
  default_read := by
    intro l t h
    have hnone : kanaEncode cp Utf16.replacement = none := by
      rw [kanaEncode, if_neg (by decide), if_neg]
      rintro ⟨h, -⟩
      exact absurd h (by decide)
    rw [hnone] at h
    cases h

def kanaConverters : Converters where
  kernel32 :=
    { multiByteToWideChar := fun cp bs => some (kanaDecode cp bs)
      wideCharToUtf8 := fun us => some (Utf8.encode (Utf16.decode us)) }
  page := kanaPage
  whole := by
    intro cp _ t _ hcov
    have h := kanaDecode_bytes cp hcov []
    rw [List.append_nil] at h
    show some (kanaDecode cp ((kanaEncode cp).bytes t)) = _
    rw [h]
    simp [kanaDecode]
  dangling := by
    intro cp _ t l hcov hl
    have h := kanaDecode_bytes cp hcov [l]
    have hlow : ¬ l < 0x80 := UInt8.not_lt.mpr (UInt8.le_trans (by decide) (lead_high hl))
    show some (kanaDecode cp ((kanaEncode cp).bytes t ++ [l])) = _
    rw [h, List.flatMap_append]
    simp [kanaDecode, hlow, kanaPage, Utf16.units_replacement]
  wide := by
    intro us _
    rfl

/-- A Japanese line with CR LF, in whatever blocks and batches. -/
theorem showsNormalised_iff_kana :
    ShowsNormalised kanaConverters (.page 932)
      (({} : Charset).set (some CharsetItem.shiftJis.name)).2 ['あ', '\r', '\n'] := by
  have hplain : Plain ['あ', '\r', '\n'] := by
    intro c hc
    simp only [List.mem_cons, List.not_mem_nil, or_false] at hc
    rcases hc with rfl | rfl | rfl <;> decide
  have hcov : ((Codec.page 932).encoding kanaConverters).Covers ['あ', '\r', '\n'] := by
    intro c hc
    simp only [List.mem_cons, List.not_mem_nil, or_false] at hc
    rcases hc with rfl | rfl | rfl <;> decide
  refine (showsNormalised_iff kanaConverters .shiftJis (by decide) {} hplain hcov).mpr ?_
  intro c hc l b hlb
  simp only [List.mem_cons, List.not_mem_nil, or_false] at hc
  rcases hc with rfl | rfl | rfl
  · obtain ⟨rfl, -⟩ : 0x82 = l ∧ [0xA0] = [b] := List.cons.inj (Option.some.inj hlb)
    decide
  · cases hlb
  · cases hlb

/-- UTF-16 loses the letter A: the text view drops the zero byte of its unit. -/
theorem showsNormalised_utf16 :
    Plain ['A'] ∧ ((Codec.utf16).encoding kanaConverters).Covers ['A'] ∧
      ¬ ShowsNormalised kanaConverters .utf16
        (({} : Charset).set (some CharsetItem.utf16.name)).2 ['A'] := by
  refine ⟨?_, ?_, ?_⟩
  · intro c hc
    obtain rfl := List.mem_singleton.mp hc
    decide
  · intro c _
    rfl
  · intro h
    have hout := h [[0x41, 0x00]] [[0x41]] (by decide) (by decide) (by decide)
    revert hout
    decide

end Xcom.Receive
