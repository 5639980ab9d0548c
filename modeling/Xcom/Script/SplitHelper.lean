import Xcom.Pages.Store
import Xcom.Text.Delimited
import Xcom.Text.Occurrences
import Xcom.Transition.Loop

/-!
# `string.split`

The helper `str_split` of `script_engine.lua`: a loop that searches the delimiter and goes on
searching behind it.  Its position moves by the length of the delimiter, so that a delimiter
of no length keeps it where it is.
-/

namespace Xcom.Script.SplitHelper

open Transition.Loop Pages

/-- `string.find(s, pattern, init, true)`: the first place from `init` on, counted from one,
that the pattern stands at.  A pattern of no length stands at each. -/
def find (s pattern : Config.Bytes) (init : Nat) : Option Nat :=
  if pattern = [] then some init
  else (Occurrences.search pattern (s.drop (init - 1))).map (init + ·)

/-- `s:sub(first, last)`. -/
def sub (s : Config.Bytes) (first last : Nat) : Config.Bytes := (s.take last).drop (first - 1)

/-- The locals of the loop. -/
structure SplitState where
  pos : Nat := 1
  out : List Config.Bytes := []

/-- One round of `str_split`. -/
def splitRound (s delim : Config.Bytes) (st : SplitState) :
    Round SplitState (List Config.Bytes) :=
  match find s delim st.pos with
  | none => .done (st.out ++ [s.drop (st.pos - 1)])
  | some hit =>
    .next { pos := hit + delim.length, out := st.out ++ [sub s st.pos (hit - 1)] }

/-- `delim or ","`. -/
def delimiter (delim : Option Config.Bytes) : Config.Bytes := delim.getD (bytes ",")

/-- `str_split(s, delim)` ends and returns the pieces. -/
def Split (s : Config.Bytes) (delim : Option Config.Bytes) (pieces : List Config.Bytes) : Prop :=
  Returns (splitRound s (delimiter delim)) {} pieces

/-- The pieces with the delimiter between them are the string, and none has it inside. -/
structure Law (s delim : Config.Bytes) (pieces : List Config.Bytes) : Prop where
  joined : List.intercalate delim pieces = s
  free : delim ≠ [] → ∀ piece ∈ pieces, ¬ delim <:+: piece

/-! ## One round -/

variable {s delim : Config.Bytes} {st : SplitState}

theorem find_empty (init : Nat) : find s [] init = some init := if_pos rfl

theorem find_some (hne : delim ≠ []) {init hit : Nat} (h : find s delim init = some hit) :
    ∃ n, hit = init + n ∧ Occurrences.search delim (s.drop (init - 1)) = some n := by
  rw [find, if_neg hne] at h
  obtain ⟨n, hn, rfl⟩ := Option.map_eq_some_iff.mp h
  exact ⟨n, rfl, hn⟩

theorem find_none (hne : delim ≠ []) {init : Nat} (h : find s delim init = none) :
    ¬ delim <:+: s.drop (init - 1) := by
  rw [find, if_neg hne, Option.map_eq_none_iff] at h
  exact Occurrences.search_none hne h

/-- The piece before a hit. -/
theorem sub_hit {pos : Nat} (hpos : 1 ≤ pos) (n : Nat) :
    sub s pos (pos + n - 1) = (s.drop (pos - 1)).take n := by
  have hlast : pos + n - 1 - (pos - 1) = n := by omega
  rw [sub, List.drop_take, hlast]

/-- What is cut so far is what is read so far. -/
structure Cut (s delim : Config.Bytes) (st : SplitState) : Prop where
  first : 1 ≤ st.pos
  inside : st.pos ≤ s.length + 1
  read : st.out.flatMap (· ++ delim) = s.take (st.pos - 1)
  free : ∀ piece ∈ st.out, ¬ delim <:+: piece

theorem cut_start (s delim : Config.Bytes) : Cut s delim {} where
  first := Nat.le_refl 1
  inside := Nat.le_add_left 1 s.length
  read := by simp
  free := by simp

/-- A round that goes on cuts one piece more and moves the position. -/
theorem Cut.next (h : Cut s delim st) (hne : delim ≠ []) {st' : SplitState}
    (hround : splitRound s delim st = .next st') :
    Cut s delim st' ∧ s.length + 1 - st'.pos < s.length + 1 - st.pos := by
  have hfirst := h.first
  have hdelim : 0 < delim.length := List.length_pos_iff.mpr hne
  cases hfind : find s delim st.pos with
  | none =>
    simp only [splitRound, hfind] at hround
    cases hround
  | some hit =>
    simp only [splitRound, hfind] at hround
    cases hround
    obtain ⟨n, rfl, hsearch⟩ := find_some hne hfind
    obtain ⟨hsplit, hfree⟩ := Occurrences.search_split hsearch
    have hbound := Occurrences.search_bound hsearch
    rw [List.length_drop] at hbound
    refine ⟨⟨by dsimp only; omega, by dsimp only; omega, ?_, ?_⟩, by dsimp only; omega⟩
    · have hpiece : (s.drop (st.pos - 1)).take (n + delim.length) =
          (s.drop (st.pos - 1)).take n ++ delim := by
        have hlen : ((s.drop (st.pos - 1)).take n ++ delim).length = n + delim.length := by
          rw [List.length_append, List.length_take, List.length_drop]
          omega
        conv_lhs => rw [hsplit]
        rw [← hlen, List.take_left]
      have hpos : st.pos + n + delim.length - 1 = st.pos - 1 + (n + delim.length) := by omega
      show (st.out ++ [sub s st.pos (st.pos + n - 1)]).flatMap (· ++ delim) =
        s.take (st.pos + n + delim.length - 1)
      rw [List.flatMap_append, h.read, sub_hit hfirst, hpos, List.take_add, hpiece]
      simp
    · intro piece hmem
      rcases List.mem_append.mp hmem with hmem | hmem
      · exact h.free piece hmem
      · rw [List.mem_singleton.mp hmem, sub_hit hfirst]
        exact hfree hne

/-- A round that ends leaves what is behind the position as the last piece. -/
theorem Cut.done (h : Cut s delim st) (hne : delim ≠ []) {pieces : List Config.Bytes}
    (hround : splitRound s delim st = .done pieces) : Law s delim pieces := by
  cases hfind : find s delim st.pos with
  | some hit =>
    simp only [splitRound, hfind] at hround
    cases hround
  | none =>
    simp only [splitRound, hfind] at hround
    cases hround
    constructor
    · rw [Delimited.intercalate_concat, h.read, List.take_append_drop]
    · intro _ piece hmem
      rcases List.mem_append.mp hmem with hmem | hmem
      · exact h.free piece hmem
      · rw [List.mem_singleton.mp hmem]
        exact find_none hne hfind

/-! ## The whole loop -/

/-- With a delimiter of some length the helper ends, and its pieces are right. -/
theorem returns_law (hne : delim ≠ []) (s : Config.Bytes) :
    ∃ pieces, Returns (splitRound s delim) {} pieces ∧ Law s delim pieces :=
  returns (fun st => s.length + 1 - st.pos) (fun _ _ h => h.next hne) (fun _ _ h => h.done hne)
    (cut_start s delim)

/-- With a delimiter of no length each round adds an empty piece and moves nothing. -/
theorem round_empty (s : Config.Bytes) (st : SplitState) :
    splitRound s [] st = .next { st with out := st.out ++ [sub s st.pos (st.pos - 1)] } := by
  simp only [splitRound, find_empty, List.length_nil, Nat.add_zero]

theorem stays_empty (s : Config.Bytes) (st : SplitState) (pieces : List Config.Bytes) :
    ¬ Returns (splitRound s []) st pieces := by
  have hnext : ∀ st, True → ∃ st', splitRound s [] st = .next st' ∧ True :=
    fun st _ => ⟨_, round_empty s st, trivial⟩
  exact stays hnext trivial pieces

/-- The helper ends with pieces that are right exactly where the delimiter is not empty. -/
theorem split_law_iff (s : Config.Bytes) (delim : Option Config.Bytes) :
    (∃ pieces, Split s delim pieces ∧ Law s (delimiter delim) pieces) ↔ delim ≠ some [] := by
  constructor
  · rintro ⟨pieces, hsplit, -⟩ rfl
    exact stays_empty s {} pieces hsplit
  · intro hne
    have hdelim : delimiter delim ≠ [] := by
      cases delim with
      | none => decide
      | some delim => exact fun hempty => hne (congrArg some hempty)
    exact returns_law hdelim s

example : Transition.Loop.run (splitRound (bytes "a,b,,c") (delimiter none)) 5 {} =
    some [bytes "a", bytes "b", [], bytes "c"] := by decide

/-- `("abc"):split("")` does not end. -/
theorem split_empty_delimiter :
    ¬ ∃ pieces, Split (bytes "abc") (some []) pieces ∧ Law (bytes "abc") [] pieces := by
  rintro ⟨pieces, hsplit, -⟩
  exact stays_empty (bytes "abc") {} pieces hsplit

end Xcom.Script.SplitHelper
