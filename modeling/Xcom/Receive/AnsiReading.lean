import Xcom.Receive.Ansi
import Xcom.Transition.Transducer

/-!
# What the ANSI parser reads

A buffer is read as bytes of text and control sequences, up to a residue.  The text of the
segments are the bytes read, each in the style that the sequences before it in its feed have
set.  However a stream is cut, what is read of it is the same.
-/

namespace Xcom.Receive.Ansi

open Transition Transition.Loop

/-- What is read: a byte of text, or a control sequence. -/
inductive Token
  | char (b : UInt8)
  | csi (params : List UInt8) (term : UInt8)
deriving DecidableEq

/-- What `feed` reads of a buffer, and the residue it leaves. -/
inductive Reads : List UInt8 → List Token → List UInt8 → Prop
  | nil : Reads [] [] []
  | char {b rest ts r} : b ≠ 27 → Reads rest ts r → Reads (b :: rest) (.char b :: ts) r
  | lone : Reads [27] [] [27]
  | stray {c rest ts r} : c ≠ 91 → Reads (c :: rest) ts r →
      Reads (27 :: c :: rest) (.char 27 :: ts) r
  | csi {l params term behind ts r} : matchCsi l = some (params, term, behind) →
      Reads behind ts r → Reads (27 :: 91 :: l) (.csi params term :: ts) r
  | held {l} : matchCsi l = none → Reads (27 :: 91 :: l) [] (27 :: 91 :: l)

variable {buf rest r r' : List UInt8} {ts ts' : List Token}

/-- Every buffer is read. -/
theorem reads_total (buf : List UInt8) : ∃ ts r, Reads buf ts r := by
  induction hn : buf.length using Nat.strongRecOn generalizing buf with
  | ind n ih =>
    cases buf with
    | nil => exact ⟨_, _, .nil⟩
    | cons b rest =>
      rw [List.length_cons] at hn
      by_cases hesc : b = 27
      · subst hesc
        cases rest with
        | nil => exact ⟨_, _, .lone⟩
        | cons c l =>
          rw [List.length_cons] at hn
          by_cases hbracket : c = 91
          · subst hbracket
            cases hmatch : matchCsi l with
            | none => exact ⟨_, _, .held hmatch⟩
            | some found =>
              obtain ⟨params, term, behind⟩ := found
              have hlen := congrArg List.length (matchCsi_iff.mp hmatch).1
              rw [List.length_append, List.length_cons] at hlen
              obtain ⟨ts, r, hreads⟩ := ih behind.length (by omega) behind rfl
              exact ⟨_, _, .csi hmatch hreads⟩
          · obtain ⟨ts, r, hreads⟩ := ih (c :: l).length (by rw [List.length_cons]; omega) _ rfl
            exact ⟨_, _, .stray hbracket hreads⟩
      · obtain ⟨ts, r, hreads⟩ := ih rest.length (by omega) rest rfl
        exact ⟨_, _, .char hesc hreads⟩

/-- A buffer is read in one way. -/
theorem Reads.unique (h : Reads buf ts r) (h' : Reads buf ts' r') : ts = ts' ∧ r = r' := by
  induction h generalizing ts' with
  | nil =>
    cases h'
    exact ⟨rfl, rfl⟩
  | char hb _ ih =>
    cases h' with
    | char _ hrest => exact ⟨congrArg _ (ih hrest).1, (ih hrest).2⟩
    | _ => exact absurd rfl hb
  | lone =>
    cases h' with
    | char hb _ => exact absurd rfl hb
    | lone => exact ⟨rfl, rfl⟩
  | stray hc _ ih =>
    cases h' with
    | char hb _ => exact absurd rfl hb
    | stray _ hrest => exact ⟨congrArg _ (ih hrest).1, (ih hrest).2⟩
    | csi => exact absurd rfl hc
    | held => exact absurd rfl hc
  | csi hmatch _ ih =>
    cases h' with
    | char hb _ => exact absurd rfl hb
    | stray hc _ => exact absurd rfl hc
    | csi hmatch' hrest =>
      rw [hmatch] at hmatch'
      cases hmatch'
      exact ⟨congrArg _ (ih hrest).1, (ih hrest).2⟩
    | held hmatch' =>
      rw [hmatch] at hmatch'
      cases hmatch'
  | held hmatch =>
    cases h' with
    | char hb _ => exact absurd rfl hb
    | stray hc _ => exact absurd rfl hc
    | csi hmatch' _ =>
      rw [hmatch] at hmatch'
      cases hmatch'
    | held => exact ⟨rfl, rfl⟩

/-- A residue is read as nothing. -/
theorem Reads.residue (h : Reads buf ts r) : Reads r [] r := by
  induction h with
  | nil => exact .nil
  | lone => exact .lone
  | held hmatch => exact .held hmatch
  | char _ _ ih => exact ih
  | stray _ _ ih => exact ih
  | csi _ _ ih => exact ih

/-- A sequence that is found stays found when more arrives. -/
theorem matchCsi_append {l params behind : List UInt8} {term : UInt8}
    (h : matchCsi l = some (params, term, behind)) (more : List UInt8) :
    matchCsi (l ++ more) = some (params, term, behind ++ more) := by
  obtain ⟨hsplit, hne, hterm, hpassed⟩ := matchCsi_iff.mp h
  apply matchCsi_iff.mpr
  refine ⟨?_, ?_, hterm, hpassed⟩
  · rw [hsplit, List.append_assoc, List.cons_append]
  · exact fun hnil => hne (List.append_eq_nil_iff.mp hnil).1

/-- More is read on behind the residue. -/
theorem Reads.append (h : Reads buf ts r) {more : List UInt8} (h' : Reads (r ++ more) ts' r') :
    Reads (buf ++ more) (ts ++ ts') r' := by
  induction h with
  | nil => exact h'
  | lone => exact h'
  | held => exact h'
  | char hb _ ih => exact .char hb (ih h')
  | stray hc _ ih => exact .stray hc (ih h')
  | csi hmatch _ ih => exact .csi (matchCsi_append hmatch more) (ih h')

/-- Bytes that are no escapes are text. -/
theorem reads_plain {plain : List UInt8} (hplain : ∀ b ∈ plain, b ≠ 27) (h : Reads rest ts r) :
    Reads (plain ++ rest) (plain.map Token.char ++ ts) r := by
  induction plain with
  | nil => exact h
  | cons b plain ih =>
    exact .char (hplain b List.mem_cons_self) (ih fun c hc => hplain c (.tail _ hc))

/-! ## Colours -/

/-- A byte of text with its colours. -/
abbrev Cell := UInt8 × Option Nat × Option Nat

/-- The bytes of the segments with their colours. -/
def cells (segments : List Segment) : List Cell :=
  segments.flatMap fun s => s.text.map fun b => (b, s.fg, s.bg)

/-- The visible text. -/
def textOf (segments : List Segment) : List UInt8 := segments.flatMap (·.text)

theorem cells_text (segments : List Segment) : (cells segments).map Prod.fst = textOf segments := by
  induction segments with
  | nil => rfl
  | cons s segments ih =>
    rw [cells, List.flatMap_cons, List.map_append, List.map_map]
    have hhead : s.text.map (Prod.fst ∘ fun b => ((b, s.fg, s.bg) : Cell)) = s.text := List.map_id _
    rw [hhead]
    exact congrArg (s.text ++ ·) ih

theorem cells_append (segments segments' : List Segment) :
    cells (segments ++ segments') = cells segments ++ cells segments' := List.flatMap_append

variable (pal : Palette)

/-- What a control sequence does to the style. -/
def obey (s : Style) (params : List UInt8) (term : UInt8) : Style :=
  if term = 109 then applySgr pal (parseParams params) s else s

/-- What is read, in the colours set before it. -/
def paint : Style → List Token → List Cell
  | _, [] => []
  | s, .char b :: ts => (b, s.fg, s.bg) :: paint s ts
  | s, .csi params term :: ts => paint (obey pal s params term) ts

/-- The style behind what is read. -/
def styleAfter (s : Style) (ts : List Token) : Style :=
  ts.foldl
    (fun s t => match t with
      | .char _ => s
      | .csi params term => obey pal s params term) s

/-- The bytes of what is read. -/
def chars : List Token → List UInt8
  | [] => []
  | .char b :: ts => b :: chars ts
  | .csi _ _ :: ts => chars ts

theorem paint_append (s : Style) (ts ts' : List Token) :
    paint pal s (ts ++ ts') = paint pal s ts ++ paint pal (styleAfter pal s ts) ts' := by
  induction ts generalizing s with
  | nil => rfl
  | cons t ts ih =>
    cases t with
    | char b => exact congrArg ((b, s.fg, s.bg) :: ·) (ih s)
    | csi params term => exact ih (obey pal s params term)

theorem paint_text (s : Style) (ts : List Token) : (paint pal s ts).map Prod.fst = chars ts := by
  induction ts generalizing s with
  | nil => rfl
  | cons t ts ih =>
    cases t with
    | char b => exact congrArg (b :: ·) (ih s)
    | csi params term => exact ih (obey pal s params term)

theorem paint_length (s : Style) (ts : List Token) :
    (paint pal s ts).length = (chars ts).length := by
  rw [← paint_text pal s, List.length_map]

theorem chars_append (ts ts' : List Token) : chars (ts ++ ts') = chars ts ++ chars ts' := by
  induction ts with
  | nil => rfl
  | cons t ts ih =>
    cases t with
    | char b => exact congrArg (b :: ·) ih
    | csi params term => exact ih

/-! ## The loop of `feed` -/

variable {pal}

theorem cells_flush_nil (segments : List Segment) (buf : List UInt8) (style : Style) :
    cells ({ buf := buf, style := style, segments := segments } : FeedState).flush =
      cells segments := rfl

/-- A byte more is pending. -/
theorem cells_flush (st : FeedState) (buf : List UInt8) (b : UInt8) :
    cells ({ st with buf := buf, pending := st.pending ++ [b] } : FeedState).flush =
      cells st.flush ++ [(b, st.style.fg, st.style.bg)] := by
  have hne : st.pending ++ [b] ≠ [] := List.concat_ne_nil b st.pending
  unfold FeedState.flush
  rw [if_neg hne, cells_append]
  by_cases hpending : st.pending = []
  · simp [hpending, cells]
  · rw [if_neg hpending, cells_append]
    simp [cells]

/-- As many rounds as there are bytes, and one more, read the buffer. -/
theorem run_feedRound (pal : Palette) (h : Reads buf ts r) (st : FeedState)
    (hbuf : st.buf = buf) {n : Nat} (hn : buf.length < n) :
    ∃ segments, run (feedRound pal) n st = some (segments, r) ∧
      cells segments = cells st.flush ++ paint pal st.style ts := by
  obtain ⟨n, rfl⟩ := Nat.exists_eq_succ_of_ne_zero (Nat.ne_of_gt (Nat.zero_lt_of_lt hn))
  induction h generalizing st n with
  | nil =>
    have hround : feedRound pal st = .done (st.flush, []) := by simp only [feedRound, hbuf]
    exact ⟨_, run_done hround n, (List.append_nil _).symm⟩
  | @char b rest ts r hb _ ih =>
    have hround : feedRound pal st =
        .next { st with buf := rest, pending := st.pending ++ [b] } := by
      simp only [feedRound, hbuf, if_pos hb]
    rw [List.length_cons] at hn
    obtain ⟨n, rfl⟩ := Nat.exists_eq_succ_of_ne_zero (show n ≠ 0 by omega)
    obtain ⟨segments, hrun, hcells⟩ :=
      ih { st with buf := rest, pending := st.pending ++ [b] } rfl n (by omega)
    refine ⟨segments, (run_next hround _).trans hrun, ?_⟩
    rw [hcells, cells_flush, List.append_assoc]
    rfl
  | lone =>
    have hround : feedRound pal st = .done (st.flush, [27]) := by
      simp only [feedRound, hbuf, ne_eq, not_true_eq_false, if_false]
    exact ⟨_, run_done hround n, (List.append_nil _).symm⟩
  | @stray c rest ts r hc _ ih =>
    have hround : feedRound pal st =
        .next { st with buf := c :: rest, pending := st.pending ++ [27] } := by
      simp only [feedRound, hbuf, ne_eq, not_true_eq_false, if_false, hc, not_false_eq_true,
        if_true]
    rw [List.length_cons] at hn
    obtain ⟨n, rfl⟩ := Nat.exists_eq_succ_of_ne_zero (show n ≠ 0 by omega)
    obtain ⟨segments, hrun, hcells⟩ :=
      ih { st with buf := c :: rest, pending := st.pending ++ [27] } rfl n (by omega)
    refine ⟨segments, (run_next hround _).trans hrun, ?_⟩
    rw [hcells, cells_flush, List.append_assoc]
    rfl
  | @csi l params term behind ts r hmatch _ ih =>
    have hround : feedRound pal st =
        .next { buf := behind, segments := st.flush, style := obey pal st.style params term } := by
      simp only [feedRound, hbuf, ne_eq, not_true_eq_false, if_false, hmatch, obey]
    have hlen := congrArg List.length (matchCsi_iff.mp hmatch).1
    rw [List.length_append, List.length_cons] at hlen
    rw [List.length_cons, List.length_cons] at hn
    obtain ⟨n, rfl⟩ := Nat.exists_eq_succ_of_ne_zero (show n ≠ 0 by omega)
    obtain ⟨segments, hrun, hcells⟩ :=
      ih { buf := behind, segments := st.flush, style := obey pal st.style params term } rfl n
        (by omega)
    refine ⟨segments, (run_next hround _).trans hrun, ?_⟩
    rw [hcells, cells_flush_nil]
    rfl
  | held hmatch =>
    have hround : feedRound pal st = .done (st.flush, st.buf) := by
      simp only [feedRound, hbuf, ne_eq, not_true_eq_false, if_false, hmatch]
    rw [← hbuf]
    exact ⟨_, run_done hround n, (List.append_nil _).symm⟩

/-- A feed gives what is read, each feed from the default style on. -/
theorem feed_reads (palette : Option Palette) {residue text : List UInt8}
    (h : Reads (residue ++ text) ts r) :
    ∃ segments, feed palette residue text = (segments, r) ∧
      cells segments = paint (palette.getD light) {} ts := by
  by_cases hempty : residue ++ text = []
  · rw [hempty] at h
    cases h
    exact ⟨[], by simp only [feed, if_pos hempty], rfl⟩
  · obtain ⟨segments, hrun, hcells⟩ :=
      run_feedRound (palette.getD light) h { buf := residue ++ text } rfl (Nat.lt_succ_self _)
    refine ⟨segments, ?_, hcells⟩
    simp only [feed, if_neg hempty]
    rw [hrun]
    rfl

/-! ## Streams -/

/-- What is read of each feed, and the residue behind them. -/
inductive ReadsAll : List UInt8 → List (List UInt8) → List (List Token) → List UInt8 → Prop
  | nil {residue : List UInt8} : ReadsAll residue [] [] residue
  | cons {residue f r r' : List UInt8} {feeds : List (List UInt8)} {ts : List Token}
      {tss : List (List Token)} : Reads (residue ++ f) ts r → ReadsAll r feeds tss r' →
      ReadsAll residue (f :: feeds) (ts :: tss) r'

/-- The feeds of a stream, one after the other. -/
def feedAll (palette : Option Palette) (residue : List UInt8) (feeds : List (List UInt8)) :
    List Segment × List UInt8 := overBlocks (feed palette) residue feeds

variable {feeds : List (List UInt8)} {tss : List (List Token)}

theorem readsAll_total (residue : List UInt8) (feeds : List (List UInt8)) :
    ∃ tss r, ReadsAll residue feeds tss r := by
  induction feeds generalizing residue with
  | nil => exact ⟨_, _, .nil⟩
  | cons f feeds ih =>
    obtain ⟨ts, r, hreads⟩ := reads_total (residue ++ f)
    obtain ⟨tss, r', hrest⟩ := ih r
    exact ⟨_, _, .cons hreads hrest⟩

/-- However a stream is cut, what is read of it is the same. -/
theorem ReadsAll.flatten {residue : List UInt8} (h : ReadsAll residue feeds tss r)
    (hidle : Reads residue [] residue) : Reads (residue ++ feeds.flatten) tss.flatten r := by
  induction h with
  | nil => simpa using hidle
  | cons hreads _ ih =>
    rw [List.flatten_cons, ← List.append_assoc, List.flatten_cons]
    exact hreads.append (ih hreads.residue)

theorem feedAll_reads (palette : Option Palette) {residue : List UInt8}
    (h : ReadsAll residue feeds tss r) :
    (feedAll palette residue feeds).2 = r ∧
      cells (feedAll palette residue feeds).1 =
        tss.flatMap (paint (palette.getD light) {}) := by
  induction h with
  | nil => exact ⟨rfl, rfl⟩
  | cons hreads _ ih =>
    obtain ⟨segments, hfeed, hcells⟩ := feed_reads palette hreads
    simp only [feedAll, overBlocks, hfeed, cells_append, List.flatMap_cons, hcells]
    exact ⟨ih.1, congrArg (_ ++ ·) ih.2⟩

end Xcom.Receive.Ansi
