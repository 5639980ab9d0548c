import Xcom.Receive.Pipeline

/-!
# The pieces handed to the converters

What `convert` hands to the system's converters chunk after chunk, and what `flush` has
left.  Nothing is lost or handed twice in any charset.  Each piece ends between two
characters, except where a chunk ends behind a lead byte of code page 932 that
`dbcs_lead_byte` does not know.
-/

namespace Xcom.Receive

/-- What of a batch is converted now, and what is held back. -/
def Codec.hold : Codec → List UInt8 → List UInt8 × List UInt8
  | .page cp => dbcsHold cp
  | .utf16 => utf16Hold

/-- What the converters make of a piece. -/
def Codec.recode (k : Kernel32) : Codec → List UInt8 → List UInt8
  | .page cp => recodePage k cp
  | .utf16 => recodeUtf16 k

/-- The pieces of one chunk: at most one, and the chunk itself where it passes through. -/
def Charset.handed (k : Option Kernel32) (c : Charset) (text : List UInt8) : List (List UInt8) :=
  if text = [] then []
  else
    match c.currentCp, k with
    | none, _ | _, none => [text]
    | some codec, some _ =>
      let cut := codec.hold (c.pending ++ text)
      if cut.1 = [] then [] else [cut.1]

/-- The bytes `flush` hands over or shows as they are. -/
def Charset.flushed (k : Option Kernel32) (c : Charset) : List UInt8 :=
  match c.currentCp, k with
  | some .utf16, some _ =>
    let cut := utf16Hold c.pending
    if cut.1 = [] then c.pending else cut.1
  | _, _ => c.pending

/-- The pieces of chunk after chunk. -/
def handPieces (k : Option Kernel32) :
    Charset → List (List UInt8) → List (List UInt8) × Charset :=
  Transition.overBlocks fun c chunk => (c.handed k chunk, (c.convert k chunk).2)

/-- `convert` shows what the converters make of the piece. -/
theorem convert_handed {k : Kernel32} {c : Charset} {codec : Codec}
    (hc : c.currentCp = some codec) {text : List UInt8} (htext : text ≠ []) :
    c.convert (some k) text = ((c.handed (some k) text).head?.map (codec.recode k),
      { c with pending := (codec.hold (c.pending ++ text)).2 }) := by
  cases codec with
  | page cp =>
    by_cases hall : (dbcsHold cp (c.pending ++ text)).1 = []
    · simp [Charset.convert, Charset.dbcsToUtf8, Charset.shift, Charset.handed, Codec.hold,
        htext, hc, hall]
    · simp [Charset.convert, Charset.dbcsToUtf8, Charset.shift, Charset.handed, Codec.hold,
        Codec.recode, htext, hc, hall]
  | utf16 =>
    by_cases hall : (utf16Hold (c.pending ++ text)).1 = []
    · simp [Charset.convert, Charset.utf16ToUtf8, Charset.shift, Charset.handed, Codec.hold,
        htext, hc, hall]
    · simp [Charset.convert, Charset.utf16ToUtf8, Charset.shift, Charset.handed, Codec.hold,
        Codec.recode, htext, hc, hall]

/-! ## What is held back -/

/-- A batch that ends in the middle of a pair ends with a lead byte. -/
theorem last_lead {cp : Nat} {data : List UInt8} (h : endsWithDanglingLead cp data = true) :
    ∃ front l, data = front ++ [l] ∧ dbcsLeadByte cp l = true := by
  induction data using endsWithDanglingLead.induct cp with
  | case1 => simp [endsWithDanglingLead] at h
  | case2 b => exact ⟨[], b, rfl, h⟩
  | case3 b t rest hb ih =>
    simp only [endsWithDanglingLead, hb, if_true] at h
    obtain ⟨front, l, rfl, hl⟩ := ih h
    exact ⟨b :: t :: front, l, rfl, hl⟩
  | case4 b t rest hb ih =>
    simp only [endsWithDanglingLead, hb] at h
    obtain ⟨front, l, hrest, hl⟩ := ih h
    refine ⟨b :: front, l, ?_, hl⟩
    rw [hrest]
    rfl

/-- The cut of a batch puts the batch together again. -/
theorem hold_append (codec : Codec) (data : List UInt8) :
    (codec.hold data).1 ++ (codec.hold data).2 = data := by
  cases codec with
  | page cp =>
    by_cases hdangling : endsWithDanglingLead cp data = true
    · obtain ⟨front, l, rfl, -⟩ := last_lead hdangling
      simp [Codec.hold, dbcsHold, hdangling]
    · simp [Codec.hold, dbcsHold, hdangling]
  | utf16 =>
    simp only [Codec.hold, utf16Hold]
    split
    · rw [← List.append_assoc, List.take_append_drop, List.take_append_drop]
    · exact List.take_append_drop _ _

/-- What is held back is held back again. -/
def Codec.Holds (codec : Codec) (bytes : List UInt8) : Prop := codec.hold bytes = ([], bytes)

theorem holds_nil (codec : Codec) : codec.Holds [] := by
  cases codec <;> rfl

theorem endsWithHigh_short {data : List UInt8} (h : data.length < 2) :
    endsWithHigh data = false := by
  match data with
  | [] => rfl
  | [_] => rfl
  | _ :: _ :: _ => exact absurd h (by simp)

/-- The last unit of a batch that ends with half a pair. -/
theorem last_high {data : List UInt8} (h : endsWithHigh data = true) :
    ∃ front a b, data = front ++ [a, b] ∧ Utf16.isHigh (Utf16.unitOf a b) = true := by
  have hlong : 2 ≤ data.length := by
    by_contra hshort
    rw [endsWithHigh_short (by omega)] at h
    cases h
  have hlen : (data.drop (data.length - 2)).length = 2 := by
    rw [List.length_drop]
    omega
  obtain ⟨a, b, hab⟩ := List.length_eq_two.mp hlen
  refine ⟨data.take (data.length - 2), a, b, ?_, ?_⟩
  · rw [← hab, List.take_append_drop]
  · simpa [endsWithHigh, hab, Utf16.leUnits] using h

theorem hold_holds (codec : Codec) (data : List UInt8) : codec.Holds (codec.hold data).2 := by
  cases codec with
  | page cp =>
    by_cases hdangling : endsWithDanglingLead cp data = true
    · obtain ⟨front, l, rfl, hl⟩ := last_lead hdangling
      simp [Codec.Holds, Codec.hold, dbcsHold, hdangling, endsWithDanglingLead, hl]
    · simp [Codec.Holds, Codec.hold, dbcsHold, hdangling, endsWithDanglingLead]
  | utf16 =>
    have hodd : (data.drop (data.length / 2 * 2)).length < 2 := by
      rw [List.length_drop]
      omega
    generalize hrest : data.drop (data.length / 2 * 2) = odd at hodd
    by_cases hhigh : endsWithHigh (data.take (data.length / 2 * 2)) = true
    · obtain ⟨front, a, b, hfront, hab⟩ := last_high hhigh
      have hheld : (Codec.utf16.hold data).2 = [a, b] ++ odd := by
        rw [hfront] at hhigh
        simp [Codec.hold, utf16Hold, hrest, hfront, hhigh]
      rw [hheld]
      rcases odd with _ | ⟨x, _ | ⟨y, odd⟩⟩
      · simp [Codec.Holds, Codec.hold, utf16Hold, endsWithHigh, Utf16.leUnits, hab]
      · simp [Codec.Holds, Codec.hold, utf16Hold, endsWithHigh, Utf16.leUnits, hab]
      · exact absurd hodd (by simp)
    · have hheld : (Codec.utf16.hold data).2 = odd := by
        simp [Codec.hold, utf16Hold, hhigh, hrest]
      rw [hheld]
      rcases odd with _ | ⟨x, _ | ⟨y, odd⟩⟩
      · rfl
      · simp [Codec.Holds, Codec.hold, utf16Hold, endsWithHigh, Utf16.leUnits]
      · exact absurd hodd (by simp)

/-- What `flush` accounts for is what was held back. -/
theorem flushed_eq (k : Option Kernel32) {c : Charset}
    (hc : ∀ codec, c.currentCp = some codec → codec.Holds c.pending) :
    c.flushed k = c.pending := by
  unfold Charset.flushed
  split
  · have hheld := hc .utf16 ‹_›
    simp only [Codec.Holds, Codec.hold] at hheld
    simp [hheld]
  · rfl

/-- What `flush` shows of the held bytes: half a unit and half a pair as they are. -/
def Codec.orphan (k : Kernel32) : Codec → List UInt8 → List UInt8
  | .page cp => recodePage k cp
  | .utf16 => id

theorem flush_flushed {k : Kernel32} {c : Charset} {codec : Codec}
    (hc : c.currentCp = some codec) (hheld : codec.Holds c.pending) (hsome : c.pending ≠ []) :
    c.flush (some k) = (some (codec.orphan k (c.flushed (some k))), c.reset) := by
  cases codec with
  | page cp => simp [Charset.flush, Charset.flushed, Codec.orphan, hsome, hc]
  | utf16 =>
    simp only [Codec.Holds, Codec.hold] at hheld
    simp [Charset.flush, Charset.flushed, Charset.utf16ToUtf8, Charset.shift, Charset.reset,
      Codec.orphan, hsome, hc, hheld]

/-! ## The stream -/

/-- A charset between two chunks: what it holds back would be held back again, and what
passes through is not held back. -/
structure Charset.Between (k : Option Kernel32) (c : Charset) : Prop where
  held : ∀ codec, c.currentCp = some codec → codec.Holds c.pending
  through : c.currentCp = none ∨ k = none → c.pending = []

theorem Charset.Between.convert {k : Option Kernel32} {c : Charset} (hc : c.Between k)
    (text : List UInt8) : (c.convert k text).2.Between k := by
  by_cases htext : text = []
  · simpa [Charset.convert, htext] using hc
  cases hcp : c.currentCp with
  | none => simpa [Charset.convert, htext, hcp] using hc
  | some codec =>
    cases k with
    | none => simpa [Charset.convert, htext, hcp] using hc
    | some k =>
      rw [convert_handed hcp htext]
      constructor
      · intro codec' hcodec'
        obtain rfl : codec = codec' := Option.some.inj (hcp.symm.trans hcodec')
        exact hold_holds codec _
      · rintro (hnone | hnone)
        · exact absurd (hcp.symm.trans hnone) (by simp)
        · cases hnone

/-- One chunk: its piece and what is held back are what was held back and the chunk. -/
theorem handed_append {k : Option Kernel32} {c : Charset} (hc : c.Between k)
    (text : List UInt8) :
    (c.handed k text).flatten ++ (c.convert k text).2.pending = c.pending ++ text := by
  by_cases htext : text = []
  · simp [Charset.handed, Charset.convert, htext]
  cases hcp : c.currentCp with
  | none => simp [Charset.handed, Charset.convert, htext, hcp, hc.through (.inl hcp)]
  | some codec =>
    cases k with
    | none => simp [Charset.handed, Charset.convert, htext, hcp, hc.through (.inr rfl)]
    | some k =>
      have hcut := hold_append codec (c.pending ++ text)
      rw [convert_handed hcp htext]
      by_cases hall : (codec.hold (c.pending ++ text)).1 = []
      · simpa [Charset.handed, htext, hcp, hall] using hcut
      · simpa [Charset.handed, htext, hcp, hall] using hcut

/-- All chunks and the flush: by induction on the chunks, from any held bytes. -/
theorem handPieces_append {k : Option Kernel32} {c : Charset} (hc : c.Between k)
    (chunks : List (List UInt8)) :
    (handPieces k c chunks).1.flatten ++ (handPieces k c chunks).2.flushed k =
      c.pending ++ chunks.flatten := by
  induction chunks generalizing c with
  | nil =>
    show [] ++ c.flushed k = _
    rw [flushed_eq k hc.held]
    simp
  | cons chunk chunks ih =>
    have hrest := ih (hc.convert chunk)
    simp only [handPieces, Transition.overBlocks, List.flatten_append, List.append_assoc] at hrest ⊢
    rw [hrest, ← List.append_assoc, handed_append hc, List.flatten_cons, List.append_assoc]

/-! ## The boundaries of the pieces -/

/-- The bytes of the characters of a codec. -/
def Codec.chars (pages : (cp : Nat) → CodePage cp) : Codec → Encoding
  | .page cp => (pages cp).encode
  | .utf16 => utf16Encoding

/-- Where each batch is cut between two characters, so is the text: every piece ends behind
a whole character. -/
theorem handPieces_between {k : Kernel32} {e : Encoding} {chars : Char → Prop} {codec : Codec}
    (hhold : CutsBetween e chars codec.hold) {c : Charset} (hc : c.currentCp = some codec)
    {chunks : List (List UInt8)} {t : List Char} (ht : ∀ ch ∈ t, chars ch)
    (hbytes : c.pending ++ chunks.flatten = e.bytes t) {pieces : List (List UInt8)}
    (hpieces : pieces <+: (handPieces (some k) c chunks).1) :
    ∃ t₁ t₂, t = t₁ ++ t₂ ∧ pieces.flatten = e.bytes t₁ := by
  induction chunks generalizing c t pieces with
  | nil =>
    obtain rfl : pieces = [] := List.prefix_nil.mp hpieces
    exact ⟨[], t, rfl, rfl⟩
  | cons chunk chunks ih =>
    by_cases hempty : chunk = []
    · subst hempty
      exact ih hc ht hbytes hpieces
    rw [List.flatten_cons, ← List.append_assoc] at hbytes
    obtain ⟨t₁, t₂, rfl, hready, hheld, -⟩ := hhold t _ _ ht hbytes
    have ht₂ : ∀ ch ∈ t₂, chars ch := fun ch hch => ht ch (List.mem_append_right t₁ hch)
    have hcp : (c.convert (some k) chunk).2.currentCp = some codec := by
      rw [convert_currentCp]
      exact hc
    have hpending : (c.convert (some k) chunk).2.pending ++ chunks.flatten = e.bytes t₂ := by
      rw [convert_handed hc hempty]
      exact hheld
    have hhanded : (handPieces (some k) c (chunk :: chunks)).1 = c.handed (some k) chunk ++
        (handPieces (some k) (c.convert (some k) chunk).2 chunks).1 := rfl
    rw [hhanded] at hpieces
    by_cases hall : (codec.hold (c.pending ++ chunk)).1 = []
    · -- all of the chunk is held back
      have hnone : c.handed (some k) chunk = [] := by
        simp [Charset.handed, hempty, hc, hall]
      rw [hnone, List.nil_append] at hpieces
      obtain ⟨s₁, s₂, rfl, hs₁⟩ := ih hcp ht₂ hpending hpieces
      refine ⟨t₁ ++ s₁, s₂, (List.append_assoc _ _ _).symm, ?_⟩
      rw [Encoding.bytes_append, ← hready, hall, hs₁, List.nil_append]
    · have hone : c.handed (some k) chunk = [(codec.hold (c.pending ++ chunk)).1] := by
        simp [Charset.handed, hempty, hc, hall]
      rw [hone, List.singleton_append] at hpieces
      cases pieces with
      | nil => exact ⟨[], t₁ ++ t₂, rfl, rfl⟩
      | cons piece pieces =>
        obtain ⟨rfl, htail⟩ := List.cons_prefix_cons.mp hpieces
        obtain ⟨s₁, s₂, rfl, hs₁⟩ := ih hcp ht₂ hpending htail
        refine ⟨t₁ ++ s₁, s₂, (List.append_assoc _ _ _).symm, ?_⟩
        rw [List.flatten_cons, Encoding.bytes_append, ← hready, hs₁]

/-- The pieces and the flush of a stream are the stream, however it is cut into chunks, and
before the flush every piece of a text ends behind a whole character. -/
structure Splits (pages : (cp : Nat) → CodePage cp) (c : Charset) (stream : List UInt8) :
    Prop where
  whole : ∀ k chunks, chunks.flatten = stream →
    (handPieces k c chunks).1.flatten ++ (handPieces k c chunks).2.flushed k = stream
  between : ∀ k codec chunks t, c.currentCp = some codec → (codec.chars pages).Covers t →
    (codec.chars pages).bytes t = stream → chunks.flatten = stream →
      ∀ pieces, pieces <+: (handPieces (some k) c chunks).1 →
        ∃ t₁ t₂, t = t₁ ++ t₂ ∧ pieces.flatten = (codec.chars pages).bytes t₁

/-- `dbcs_lead_byte` knows every lead byte of the code pages but those of the last rows of
code page 932. -/
theorem dbcsLeadByte_iff {cp : Nat} {l : UInt8} (hl : pageLead cp l = true) :
    dbcsLeadByte cp l = true ↔ (cp = 932 → l ≤ 0xEF) := by
  simp only [dbcsLeadByte, pageLead, decide_eq_true_eq] at hl ⊢
  rcases hl with hl | ⟨rfl, hl⟩
  · have hother : cp ≠ 932 := by omega
    simp [hl, hother]
  · have h9F : (0x9F : UInt8) ≤ 0xEF := by decide
    rcases hl with hl | hl
    · simp [hl, UInt8.le_trans hl.2 h9F]
    · simp only [hl.1, true_and]
      constructor
      · rintro (h | h | h) _
        · omega
        · exact UInt8.le_trans h.2 h9F
        · exact h
      · intro h
        exact .inr (.inr (h trivial))

/-- A piece that ends between the two bytes of a character is no text's beginning. -/
theorem not_beginning {e : Encoding} {ch : Char} {l b : UInt8} (hch : e ch = some [l, b])
    {t₁ t₂ s₁ s₂ : List Char} (hsplit : t₁ ++ ch :: t₂ = s₁ ++ s₂) :
    e.bytes t₁ ++ [l] ≠ e.bytes s₁ := by
  intro hbytes
  rcases List.append_eq_append_iff.mp hsplit with ⟨w, hs₁, hw⟩ | ⟨w, ht₁, -⟩
  · rw [hs₁, Encoding.bytes_append] at hbytes
    have hlast := List.append_cancel_left hbytes
    cases w with
    | nil => simp at hlast
    | cons ch' w =>
      obtain ⟨rfl, -⟩ := List.cons.inj hw
      rw [Encoding.bytes_cons hch] at hlast
      simp at hlast
  · rw [ht₁, Encoding.bytes_append] at hbytes
    have hlen := congrArg List.length hbytes
    simp only [List.length_append, List.length_singleton] at hlen
    omega

theorem splits_of_known {pages : (cp : Nat) → CodePage cp} {c : Charset}
    (hpending : c.pending = []) {stream : List UInt8}
    (h : c.currentCp = some (.page 932) → ∀ t, (pages 932).encode.Covers t →
      (pages 932).encode.bytes t = stream → ∀ ch ∈ t, ∀ l b,
        (pages 932).encode ch = some [l, b] → l ≤ 0xEF) :
    Splits pages c stream := by
  constructor
  · intro k chunks hchunks
    have hbetween : c.Between k := by
      refine ⟨fun codec _ => ?_, fun _ => hpending⟩
      rw [hpending]
      exact holds_nil codec
    rw [handPieces_append hbetween, hpending, hchunks]
    rfl
  · intro k codec chunks t hc hcov hbytes hchunks pieces hpieces
    have hall : c.pending ++ chunks.flatten = (codec.chars pages).bytes t := by
      rw [hpending, hchunks, hbytes]
      rfl
    cases codec with
    | utf16 => exact handPieces_between utf16Hold_cuts hc (fun _ _ => trivial) hall hpieces
    | page cp =>
      refine handPieces_between (dbcsHold_cuts (pages cp).encode cp) hc ?_ hall hpieces
      intro ch hch
      apply page_readsRight (pages cp) (hcov ch hch)
      intro l b hlb
      rw [dbcsLeadByte_iff (page_lead (pages cp) hlb)]
      rintro rfl
      exact h hc t hcov hbytes ch hch l b hlb

/-- A chunk that ends behind an unknown lead byte hands it over without its trail byte. -/
theorem unknown_split {pages : (cp : Nat) → CodePage cp} {c : Charset} {cp : Nat}
    (hc : c.currentCp = some (.page cp)) (hpending : c.pending = []) {t : List Char}
    (hcov : (pages cp).encode.Covers t)
    (hbad : ∃ ch ∈ t, ∃ l b, (pages cp).encode ch = some [l, b] ∧ dbcsLeadByte cp l = false) :
    ¬ Splits pages c ((pages cp).encode.bytes t) := by
  obtain ⟨t₁, ch, t₂, l, b, rfl, hlb, hl, hread⟩ := first_unread hbad
  have hreads : ∀ ch' ∈ t₁, ReadsRight (pages cp).encode cp ch' := by
    intro ch' hch'
    exact page_readsRight _ (hcov ch' (List.mem_append_left _ hch')) (hread ch' hch')
  have hchunks : [(pages cp).encode.bytes t₁ ++ [l], b :: (pages cp).encode.bytes t₂].flatten =
      (pages cp).encode.bytes (t₁ ++ ch :: t₂) := by
    rw [Encoding.bytes_append, Encoding.bytes_cons hlb]
    simp
  intro hsplits
  have hfirst : [(pages cp).encode.bytes t₁ ++ [l]] <+:
      (handPieces (some ⟨fun _ _ => none, fun _ => none⟩) c
        [(pages cp).encode.bytes t₁ ++ [l], b :: (pages cp).encode.bytes t₂]).1 := by
    have hhanded : c.handed (some ⟨fun _ _ => none, fun _ => none⟩)
        ((pages cp).encode.bytes t₁ ++ [l]) = [(pages cp).encode.bytes t₁ ++ [l]] := by
      simp [Charset.handed, hc, Codec.hold, hpending, dbcsHold_unread hreads hl]
    simp only [handPieces, Transition.overBlocks, hhanded]
    exact List.prefix_append _ _
  obtain ⟨s₁, s₂, hsplit, hpiece⟩ := hsplits.between _ (.page cp) _ _ hc hcov rfl hchunks _ hfirst
  rw [List.flatten_singleton] at hpiece
  exact not_beginning hlb hsplit hpiece

/-- In every charset the pieces split a stream between its characters, unless the stream is
a SHIFT-JIS text with a character of a lead byte behind 0xEF. -/
theorem splits_iff (pages : (cp : Nat) → CodePage cp) (c : Charset) {name : String}
    {selected : Option Codec} (hname : cpTable name = some selected) (stream : List UInt8) :
    Splits pages (c.set (some name)).2 stream ↔
      (selected = some (.page 932) → ∀ t, (pages 932).encode.Covers t →
        (pages 932).encode.bytes t = stream → ∀ ch ∈ t, ∀ l b,
          (pages 932).encode ch = some [l, b] → l ≤ 0xEF) := by
  rw [set_name c hname]
  constructor
  · rintro hsplits rfl t hcov rfl ch hch l b hlb
    by_contra hl
    have hunknown : dbcsLeadByte 932 l = false := by
      rw [← Bool.not_eq_true, dbcsLeadByte_iff (page_lead (pages 932) hlb)]
      exact fun h => hl (h rfl)
    exact unknown_split rfl rfl hcov ⟨ch, hch, l, b, hlb, hunknown⟩ hsplits
  · intro h
    exact splits_of_known rfl h

/-! Code pages with one character besides ASCII: 髙, which code page 932 has in its last
rows. -/

def hashigoEncode (cp : Nat) : Encoding := fun c =>
  if c.toNat < 0x80 then some [UInt8.ofNat c.toNat]
  else if c = '髙' ∧ cp = 932 then some [0xFB, 0xFC]
  else none

theorem hashigo_ascii {cp : Nat} {c : Char} (hc : c.toNat < 0x80) :
    hashigoEncode cp c = some [UInt8.ofNat c.toNat] := if_pos hc

theorem hashigo_shape {cp : Nat} {c : Char} {bs : List UInt8} (hc : hashigoEncode cp c = some bs)
    (hhigh : 0x80 ≤ c.toNat) : (∃ b, bs = [b] ∧ 0x80 ≤ b ∧ pageLead cp b = false) ∨
      ∃ l t, bs = [l, t] ∧ pageLead cp l = true ∧ 0x40 ≤ t := by
  rw [hashigoEncode, if_neg (by omega)] at hc
  split at hc
  · rename_i hkanji
    obtain ⟨-, rfl⟩ := hkanji
    exact .inr ⟨_, _, (Option.some.inj hc).symm, by decide, by decide⟩
  · cases hc

theorem hashigo_default {cp : Nat} {l t : UInt8} : hashigoEncode cp '?' ≠ some [l, t] := by
  rw [hashigo_ascii (by decide)]
  nofun

def hashigoPage (cp : Nat) : CodePage cp where
  encode := hashigoEncode cp
  defaultChar := '?'
  ascii _ hc := hashigo_ascii hc
  shape _ _ hc hhigh := hashigo_shape hc hhigh
  default_read _ _ h := absurd h hashigo_default

/-- A text in GBK, whatever its characters. -/
theorem splits_gbk :
    Splits hashigoPage ((({} : Charset).set (some "GBK")).2) [0xFB, 0xFC] := by
  have hname : cpTable "GBK" = some (some (.page 936)) := by decide
  rw [splits_iff hashigoPage {} hname]
  intro h
  cases h

/-- A chunk ends between the two bytes of 髙, and the first one is handed over alone. -/
theorem lead_handed_alone :
    ¬ Splits hashigoPage ((({} : Charset).set (some "SHIFT-JIS")).2) [0xFB, 0xFC] := by
  have hname : cpTable "SHIFT-JIS" = some (some (.page 932)) := by decide
  rw [set_name _ hname]
  have hcov : (hashigoPage 932).encode.Covers ['髙'] := by
    intro ch hch
    obtain rfl := List.mem_singleton.mp hch
    rfl
  exact unknown_split rfl rfl hcov
    ⟨'髙', List.mem_singleton_self _, 0xFB, 0xFC, rfl, by decide⟩

end Xcom.Receive
