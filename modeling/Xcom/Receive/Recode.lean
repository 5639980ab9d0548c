import Xcom.Receive.Charset

/-!
# Recoding a split text

Whatever batches the bytes of a text arrive in, `convert` cuts them between characters:
it holds the first bytes of a character back until the rest of them arrives, and so shows
the text.
-/

namespace Xcom.Receive

/-- The bytes of each character a charset has. -/
abbrev Encoding := Char → Option (List UInt8)

/-- The bytes of a text. -/
def Encoding.bytes (e : Encoding) (t : List Char) : List UInt8 :=
  t.flatMap fun c => (e c).getD []

/-- A charset has every character of a text. -/
def Encoding.Covers (e : Encoding) (t : List Char) : Prop := ∀ c ∈ t, (e c).isSome

@[simp] theorem Encoding.bytes_nil (e : Encoding) : e.bytes [] = [] := rfl

theorem Encoding.bytes_append (e : Encoding) (s t : List Char) :
    e.bytes (s ++ t) = e.bytes s ++ e.bytes t := List.flatMap_append

theorem Encoding.bytes_cons {e : Encoding} {c : Char} {bs : List UInt8} (h : e c = some bs)
    (t : List Char) : e.bytes (c :: t) = bs ++ e.bytes t := by
  simp [Encoding.bytes, h]

/-- UTF-16, low byte of each unit first. -/
def utf16Encoding : Encoding := fun c => some (Utf16.leBytes [c])

theorem utf16_bytes (t : List Char) : utf16Encoding.bytes t = Utf16.leBytes t := by
  induction t with
  | nil => rfl
  | cons c t ih =>
    have hhead : utf16Encoding c = some (Utf16.leBytes [c]) := rfl
    rw [Encoding.bytes_cons hhead, ih]
    simp [Utf16.leBytes]

/-- A hold cuts texts of the given characters between two of them, and holds nothing back
at the end of a text. -/
def CutsBetween (e : Encoding) (chars : Char → Prop)
    (hold : List UInt8 → List UInt8 × List UInt8) : Prop :=
  ∀ t data rest, (∀ c ∈ t, chars c) → data ++ rest = e.bytes t →
    ∃ t₁ t₂, t = t₁ ++ t₂ ∧ (hold data).1 = e.bytes t₁ ∧
      (hold data).2 ++ rest = e.bytes t₂ ∧ (rest = [] → (hold data).2 = [])

/-- A hold that lets whole characters through one by one and keeps a beginning of one cuts
between characters. -/
theorem cutsBetween_of_chars {e : Encoding} {chars : Char → Prop}
    (hold : List UInt8 → List UInt8 × List UInt8) (hnil : hold [] = ([], []))
    (hchars : ∀ c, chars c → ∃ bs, e c = some bs ∧
      (∀ data, hold (bs ++ data) = (bs ++ (hold data).1, (hold data).2)) ∧
      ∀ data x, data ++ x = bs → x ≠ [] → hold data = ([], data)) :
    CutsBetween e chars hold := by
  intro t
  induction t with
  | nil =>
    intro data rest _ hbytes
    obtain ⟨rfl, rfl⟩ := List.append_eq_nil_iff.mp hbytes
    rw [hnil]
    exact ⟨[], [], rfl, rfl, rfl, fun _ => rfl⟩
  | cons c t ih =>
    intro data rest ht hbytes
    obtain ⟨bs, hc, hwhole, hpart⟩ := hchars c (ht c List.mem_cons_self)
    rw [Encoding.bytes_cons hc] at hbytes
    by_cases hshort : data.length < bs.length
    · -- the character has not arrived in full
      obtain ⟨x, hx, hrest⟩ : ∃ x, data ++ x = bs ∧ rest = x ++ e.bytes t := by
        rcases List.append_eq_append_iff.mp hbytes with ⟨x, hx, hrest⟩ | ⟨x, hx, -⟩
        · exact ⟨x, hx.symm, hrest⟩
        · have hlen := congrArg List.length hx
          rw [List.length_append] at hlen
          omega
      have hx₀ : x ≠ [] := by
        rintro rfl
        rw [← hx, List.append_nil] at hshort
        exact absurd hshort (Nat.lt_irrefl _)
      rw [hpart data x hx hx₀]
      refine ⟨[], c :: t, rfl, rfl, ?_, ?_⟩
      · rw [Encoding.bytes_cons hc]
        exact hbytes
      · intro hnone
        rw [hnone] at hrest
        exact absurd (List.append_eq_nil_iff.mp hrest.symm).1 hx₀
    · obtain ⟨data', rfl, hrest⟩ : ∃ data', data = bs ++ data' ∧ data' ++ rest = e.bytes t := by
        rcases List.append_eq_append_iff.mp hbytes with ⟨x, hx, hrest⟩ | ⟨x, hx, hrest⟩
        · have hlen := congrArg List.length hx
          rw [List.length_append] at hlen
          obtain rfl : x = [] := List.length_eq_zero_iff.mp (by omega)
          exact ⟨[], by rw [hx, List.append_nil, List.append_nil], hrest⟩
        · exact ⟨x, hx, hrest.symm⟩
      have htail : ∀ c' ∈ t, chars c' := fun c' hc' => ht c' (List.mem_cons_of_mem c hc')
      obtain ⟨t₁, t₂, rfl, hready, hheld, hend⟩ := ih data' rest htail hrest
      rw [hwhole data']
      refine ⟨c :: t₁, t₂, rfl, ?_, hheld, hend⟩
      rw [Encoding.bytes_cons hc, hready]

/-! ## Batch after batch -/

section Batches

variable {k : Option Kernel32} {e : Encoding} {chars : Char → Prop}
  {hold : List UInt8 → List UInt8 × List UInt8} {recode : List UInt8 → List UInt8}

theorem bytes_eq_nil (hne : ∀ c, chars c → ∃ b bs, e c = some (b :: bs)) {t : List Char}
    (ht : ∀ c ∈ t, chars c) (h : e.bytes t = []) : t = [] := by
  cases t with
  | nil => rfl
  | cons c t =>
    obtain ⟨b, bs, hc⟩ := hne c (ht c List.mem_cons_self)
    rw [Encoding.bytes_cons hc] at h
    cases h

/-- What is shown of a text that is cut between characters is its beginning. -/
theorem shift_text (hne : ∀ c, chars c → ∃ b bs, e c = some (b :: bs))
    (hrecode : ∀ t, t ≠ [] → (∀ c ∈ t, chars c) → recode (e.bytes t) = Utf8.encode t)
    {c : Charset} {text : List UInt8} {t : List Char} (ht : ∀ ch ∈ t, chars ch)
    (hcut : (hold (c.pending ++ text)).1 = e.bytes t) :
    (c.shift hold recode text).1.getD [] = Utf8.encode t := by
  simp only [Charset.shift]
  rw [hcut]
  split
  · rw [bytes_eq_nil hne ht ‹_›]
    rfl
  · apply hrecode t _ ht
    rintro rfl
    contradiction

/-- The batches of a text are shown as the text.  The induction carries what the state
holds back: the bytes of the text that have arrived and are not shown yet. -/
theorem convertBatches_text (hhold : CutsBetween e chars hold)
    (hne : ∀ c, chars c → ∃ b bs, e c = some (b :: bs))
    (hrecode : ∀ t, t ≠ [] → (∀ c ∈ t, chars c) → recode (e.bytes t) = Utf8.encode t)
    {cp : Option Codec} (hconvert : ∀ c : Charset, c.currentCp = cp → ∀ text, text ≠ [] →
      c.convert k text = c.shift hold recode text)
    {batches : List (List UInt8)} {c : Charset} {t : List Char} (hcp : c.currentCp = cp)
    (ht : ∀ ch ∈ t, chars ch) (hbytes : c.pending ++ batches.flatten = e.bytes t)
    (hlast : batches.flatten = [] → c.pending = []) :
    (convertBatches k c batches).1 = Utf8.encode t := by
  induction batches generalizing c t with
  | nil =>
    rw [hlast rfl] at hbytes
    rw [bytes_eq_nil hne ht hbytes.symm]
    rfl
  | cons batch batches ih =>
    by_cases hempty : batch = []
    · subst hempty
      exact ih hcp ht hbytes hlast
    · rw [List.flatten_cons, ← List.append_assoc] at hbytes
      obtain ⟨t₁, t₂, rfl, hready, hheld, hend⟩ := hhold t _ _ ht hbytes
      have ht₁ : ∀ ch ∈ t₁, chars ch := fun ch hch => ht ch (List.mem_append_left t₂ hch)
      have ht₂ : ∀ ch ∈ t₂, chars ch := fun ch hch => ht ch (List.mem_append_right t₁ hch)
      have hout := shift_text (c := c) hne hrecode ht₁ hready
      have hrest := ih (c := (c.shift hold recode batch).2) hcp ht₂ hheld hend
      rw [convertBatches, Transition.overBlocks, hconvert c hcp batch hempty, hout,
        Utf8.encode_append]
      exact congrArg (Utf8.encode t₁ ++ ·) hrest

end Batches

/-! ## Double-byte code pages -/

theorem dbcsHold_cons {cp : Nat} {b : UInt8} (hb : dbcsLeadByte cp b = false)
    (data : List UInt8) :
    dbcsHold cp (b :: data) = (b :: (dbcsHold cp data).1, (dbcsHold cp data).2) := by
  cases data with
  | nil => simp [dbcsHold, endsWithDanglingLead, hb]
  | cons t data =>
    simp only [dbcsHold, endsWithDanglingLead, hb, Bool.false_eq_true, if_false]
    split <;> simp

theorem dbcsHold_pair {cp : Nat} {l : UInt8} (hl : dbcsLeadByte cp l = true) (t : UInt8)
    (data : List UInt8) :
    dbcsHold cp (l :: t :: data) =
      (l :: t :: (dbcsHold cp data).1, (dbcsHold cp data).2) := by
  cases data with
  | nil => simp [dbcsHold, endsWithDanglingLead, hl]
  | cons u data =>
    simp only [dbcsHold, endsWithDanglingLead, hl, if_true]
    split <;> simp

/-- The characters `dbcs_lead_byte` reads rightly. -/
def ReadsRight (e : Encoding) (cp : Nat) (c : Char) : Prop :=
  (∃ b, e c = some [b] ∧ dbcsLeadByte cp b = false) ∨
    ∃ l t, e c = some [l, t] ∧ dbcsLeadByte cp l = true

/-- The scan stays on the boundaries of the characters it reads rightly. -/
theorem dbcsHold_cuts (e : Encoding) (cp : Nat) :
    CutsBetween e (ReadsRight e cp) (dbcsHold cp) := by
  apply cutsBetween_of_chars (dbcsHold cp) rfl
  rintro c (⟨b, hc, hb⟩ | ⟨l, u, hc, hl⟩)
  · refine ⟨[b], hc, dbcsHold_cons hb, ?_⟩
    intro data x hdata hx
    cases data with
    | nil => rfl
    | cons b' data =>
      obtain ⟨rfl, hnil⟩ := List.cons.inj hdata
      exact absurd (List.append_eq_nil_iff.mp hnil).2 hx
  · refine ⟨[l, u], hc, dbcsHold_pair hl u, ?_⟩
    intro data x hdata hx
    match data with
    | [] => rfl
    | [b] =>
      obtain ⟨rfl, -⟩ := List.cons.inj hdata
      simp [dbcsHold, endsWithDanglingLead, hl]
    | b :: b' :: data =>
      have hnil : data ++ x = [] := by
        simpa using congrArg (List.drop 2) hdata
      exact absurd (List.append_eq_nil_iff.mp hnil).2 hx

/-! ## UTF-16 -/

theorem endsWithHigh_cons (a b : UInt8) (data : List UInt8) (h : 2 ≤ data.length) :
    endsWithHigh (a :: b :: data) = endsWithHigh data := by
  have hdrop : (a :: b :: data).length - 2 = data.length - 2 + 2 := by
    simp only [List.length_cons]
    omega
  rw [endsWithHigh, hdrop]
  rfl

/-- A unit that stays: not the first half of a pair, or not the last one. -/
theorem utf16Hold_cons {a b : UInt8} (data : List UInt8)
    (h : Utf16.isHigh (Utf16.unitOf a b) = false ∨ 2 ≤ data.length) :
    utf16Hold (a :: b :: data) =
      (a :: b :: (utf16Hold data).1, (utf16Hold data).2) := by
  have hhalf : (a :: b :: data).length / 2 * 2 = data.length / 2 * 2 + 2 := by
    simp only [List.length_cons]
    omega
  have heven : (a :: b :: data).take (data.length / 2 * 2 + 2) =
      a :: b :: data.take (data.length / 2 * 2) := rfl
  have hodd : (a :: b :: data).drop (data.length / 2 * 2 + 2) =
      data.drop (data.length / 2 * 2) := rfl
  have hlen : (data.take (data.length / 2 * 2)).length = data.length / 2 * 2 := by
    rw [List.length_take]
    omega
  by_cases hlong : 2 ≤ data.length
  · have hhigh := endsWithHigh_cons a b (data.take (data.length / 2 * 2)) (by omega)
    have htake : (a :: b :: data.take (data.length / 2 * 2)).length - 2 =
        (data.take (data.length / 2 * 2)).length - 2 + 2 := by
      simp only [List.length_cons]
      omega
    simp only [utf16Hold, hhalf, heven, hodd, hhigh, htake]
    split <;> rfl
  · have hlow : Utf16.isHigh (Utf16.unitOf a b) = false := h.resolve_right hlong
    match data with
    | [] => simp [utf16Hold, endsWithHigh, Utf16.leUnits, hlow]
    | [x] => simp [utf16Hold, endsWithHigh, Utf16.leUnits, hlow]
    | _ :: _ :: _ => exact absurd (by simp) hlong

/-- A character is one unit that is not held back, or a pair. -/
theorem utf16Encoding_cases (c : Char) :
    (∃ a b, utf16Encoding c = some [a, b] ∧ Utf16.isHigh (Utf16.unitOf a b) = false) ∨
      ∃ a b a' b', utf16Encoding c = some [a, b, a', b'] ∧
        Utf16.isHigh (Utf16.unitOf a b) = true ∧
        Utf16.isHigh (Utf16.unitOf a' b') = false := by
  rcases Utf16.units_cases c with ⟨u, hc, halone, -⟩ | ⟨u, l, hc, hhigh, hlow, -⟩
  · left
    have hbytes : utf16Encoding c = some (Utf16.unitBytes u) := by
      simp [utf16Encoding, Utf16.leBytes, hc]
    refine ⟨_, _, hbytes, ?_⟩
    rw [Utf16.unitOf_unitBytes]
    simpa using fun h => halone (.inl h)
  · right
    have hbytes : utf16Encoding c = some (Utf16.unitBytes u ++ Utf16.unitBytes l) := by
      simp [utf16Encoding, Utf16.leBytes, hc]
    refine ⟨_, _, _, _, hbytes, ?_, ?_⟩
    · rw [Utf16.unitOf_unitBytes, hhigh]
    · rw [Utf16.unitOf_unitBytes]
      simp only [Utf16.isHigh, Utf16.isLow, decide_eq_true_eq, decide_eq_false_iff_not] at hlow ⊢
      omega

theorem utf16Hold_cuts : CutsBetween utf16Encoding (fun _ => True) utf16Hold := by
  apply cutsBetween_of_chars utf16Hold rfl
  intro c _
  rcases utf16Encoding_cases c with ⟨a, b, hc, hlow⟩ | ⟨a, b, a', b', hc, hhigh, hlow⟩
  · refine ⟨[a, b], hc, fun data => utf16Hold_cons data (.inl hlow), ?_⟩
    intro data x hdata hx
    rcases data with _ | ⟨d, _ | ⟨d', data⟩⟩
    · rfl
    · simp [utf16Hold, endsWithHigh, Utf16.leUnits]
    · have hnil : data ++ x = [] := by
        simpa using congrArg (List.drop 2) hdata
      exact absurd (List.append_eq_nil_iff.mp hnil).2 hx
  · refine ⟨[a, b, a', b'], hc, ?_, ?_⟩
    · intro data
      have hlong : 2 ≤ (a' :: b' :: data).length := by simp
      have hfirst := utf16Hold_cons (a := a) (b := b) (a' :: b' :: data) (.inr hlong)
      rw [utf16Hold_cons data (.inl hlow)] at hfirst
      exact hfirst
    · intro data x hdata hx
      rcases data with _ | ⟨d, _ | ⟨d', _ | ⟨f, _ | ⟨f', data⟩⟩⟩⟩
      · rfl
      · simp [utf16Hold, endsWithHigh, Utf16.leUnits]
      · obtain ⟨rfl, rfl⟩ : d = a ∧ d' = b := by
          simpa using congrArg (List.take 2) hdata
        simp [utf16Hold, endsWithHigh, Utf16.leUnits, hhigh]
      · obtain ⟨rfl, rfl⟩ : d = a ∧ d' = b := by
          simpa using congrArg (List.take 2) hdata
        simp [utf16Hold, endsWithHigh, Utf16.leUnits, hhigh]
      · have hnil : data ++ x = [] := by
          simpa using congrArg (List.drop 4) hdata
        exact absurd (List.append_eq_nil_iff.mp hnil).2 hx

end Xcom.Receive
