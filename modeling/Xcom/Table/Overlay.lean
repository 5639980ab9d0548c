import Mathlib.Data.List.Infix
import Xcom.Table.Heap

/-!
# Values put at paths

A value is put at the end of a path; tables missing on the way are made.  For a table that
leads to no table twice this is an overlay of what was read: at the path there is the
value, before it there are tables, and beside it everything is as before.  Values at paths
of which none begins another may be put in any order.
-/

namespace Xcom.Table

universe u v

variable {κ : Type u} {α : Type v}

/-- No path begins another. -/
def Separate (leaves : List (List κ × α)) : Prop :=
  ∀ d ∈ leaves, ∀ e ∈ leaves, d ≠ e → ¬ d.1 <+: e.1

/-- No value stands before the end of the path. -/
def Open (w : List κ → Option (Option α)) (path : List κ) : Prop :=
  ∀ r, r <+: path → r ≠ path → ∀ v, w r ≠ some (some v)

/-- Only the beginnings of the path need to be looked at. -/
theorem open_of_inits {w : List κ → Option (Option α)} {path : List κ}
    (hinits : ∀ r ∈ path.inits, r = path ∨ (w r).join = none) : Open w path := by
  intro r hr hne v hv
  rcases hinits r ((List.mem_inits r path).mpr hr) with heq | hnone
  · exact hne heq
  · rw [hv] at hnone
    cases hnone

/-! ## Overlays -/

variable [DecidableEq κ]

/-- The value at one path, over what was there. -/
def put (w : List κ → Option (Option α)) (path : List κ) (v : α) (q : List κ) :
    Option (Option α) :=
  if path <+: q then (if q = path then some (some v) else none)
  else if q <+: path then some none
  else w q

/-- A table made in a field, over what was there. -/
def made (w : List κ → Option (Option α)) (k : κ) (q : List κ) : Option (Option α) :=
  if q = [k] then some none else w q

/-- The values at all paths, over what was there. -/
def merged (w : List κ → Option (Option α)) (leaves : List (List κ × α)) (q : List κ) :
    Option (Option α) :=
  match leaves.find? fun e => e.1 <+: q with
  | some e => if q = e.1 then some (some e.2) else none
  | none => if ∃ e ∈ leaves, q <+: e.1 then some none else w q

theorem merged_below {w : List κ → Option (Option α)} {leaves : List (List κ × α)}
    (hseparate : Separate leaves) {e : List κ × α} (he : e ∈ leaves) {q : List κ}
    (hq : e.1 <+: q) : merged w leaves q = if q = e.1 then some (some e.2) else none := by
  unfold merged
  cases hfind : leaves.find? fun e => e.1 <+: q with
  | none =>
    have hnot := List.find?_eq_none.mp hfind e he
    exact absurd (decide_eq_true hq) hnot
  | some d =>
    have hd : d.1 <+: q := by
      simpa using List.find?_some (p := fun e : List κ × α => decide (e.1 <+: q)) hfind
    have hmem := List.mem_of_find?_eq_some hfind
    have hsame : d = e := by
      by_contra hne
      rcases List.prefix_or_prefix_of_prefix hd hq with hde | hed
      · exact hseparate d hmem e he hne hde
      · exact hseparate e he d hmem (Ne.symm hne) hed
    rw [hsame]

theorem merged_beside {w : List κ → Option (Option α)} {leaves : List (List κ × α)}
    {q : List κ} (hq : ∀ e ∈ leaves, ¬ e.1 <+: q) :
    merged w leaves q = if ∃ e ∈ leaves, q <+: e.1 then some none else w q := by
  have hfind : (leaves.find? fun e => e.1 <+: q) = none :=
    List.find?_eq_none.mpr fun e he => by simpa using hq e he
  unfold merged
  rw [hfind]

/-- Only what the leaves are matters, not their order. -/
theorem merged_congr {w : List κ → Option (Option α)} {leaves leaves' : List (List κ × α)}
    (hseparate : Separate leaves) (hsame : ∀ e, e ∈ leaves' ↔ e ∈ leaves) :
    merged w leaves' = merged w leaves := by
  have hseparate' : Separate leaves' := fun d hd e he =>
    hseparate d ((hsame d).mp hd) e ((hsame e).mp he)
  funext q
  by_cases hq : ∃ e ∈ leaves, e.1 <+: q
  · obtain ⟨e, he, hprefix⟩ := hq
    rw [merged_below hseparate he hprefix, merged_below hseparate' ((hsame e).mpr he) hprefix]
  · have hnot : ∀ e ∈ leaves, ¬ e.1 <+: q := fun e he hprefix => hq ⟨e, he, hprefix⟩
    rw [merged_beside hnot, merged_beside fun e he => hnot e ((hsame e).mp he)]
    simp only [hsame]

/-- The first value may be put before the others. -/
theorem merged_cons {w : List κ → Option (Option α)} {e : List κ × α}
    {leaves : List (List κ × α)} (hseparate : Separate (e :: leaves)) (he : e ∉ leaves) :
    merged w (e :: leaves) = merged (put w e.1 e.2) leaves := by
  have htail : Separate leaves := fun d hd d' hd' =>
    hseparate d (List.mem_cons_of_mem _ hd) d' (List.mem_cons_of_mem _ hd')
  have hne : ∀ d ∈ leaves, d ≠ e := fun d hd heq => he (heq ▸ hd)
  funext q
  by_cases hq : ∃ d ∈ leaves, d.1 <+: q
  · obtain ⟨d, hd, hprefix⟩ := hq
    rw [merged_below hseparate (List.mem_cons_of_mem _ hd) hprefix,
      merged_below htail hd hprefix]
  · have hnot : ∀ d ∈ leaves, ¬ d.1 <+: q := fun d hd hprefix => hq ⟨d, hd, hprefix⟩
    rw [merged_beside hnot]
    by_cases hbelow : e.1 <+: q
    · have hafter : ¬ ∃ d ∈ leaves, q <+: d.1 := by
        rintro ⟨d, hd, hqd⟩
        exact hseparate e List.mem_cons_self d (List.mem_cons_of_mem _ hd) (hne d hd).symm
          (hbelow.trans hqd)
      rw [merged_below hseparate List.mem_cons_self hbelow, if_neg hafter]
      unfold put
      rw [if_pos hbelow]
    · have hall : ∀ d ∈ e :: leaves, ¬ d.1 <+: q := by
        intro d hd
        rcases List.mem_cons.mp hd with rfl | hd
        · exact hbelow
        · exact hnot d hd
      rw [merged_beside hall]
      unfold put
      rw [if_neg hbelow]
      by_cases hbefore : q <+: e.1
      · rw [if_pos ⟨e, List.mem_cons_self, hbefore⟩, if_pos hbefore, ite_self]
      · rw [if_neg hbefore]
        simp only [List.mem_cons, exists_eq_or_imp, hbefore, false_or]

/-- A value put behind a table that was made is put behind what was read before. -/
theorem put_made {w : List κ → Option (Option α)} {k : κ} (path : List κ)
    (v : α) :
    put (made w k) (k :: path) v = put w (k :: path) v := by
  funext q
  unfold put made
  by_cases hbelow : k :: path <+: q
  · rw [if_pos hbelow, if_pos hbelow]
  · rw [if_neg hbelow, if_neg hbelow]
    by_cases hbefore : q <+: k :: path
    · rw [if_pos hbefore, if_pos hbefore]
    · rw [if_neg hbefore, if_neg hbefore]
      have hq : q ≠ [k] := by
        rintro rfl
        exact hbefore ⟨path, rfl⟩
      rw [if_neg hq]

/-- A value put elsewhere leaves a path open. -/
theorem Open.put {w : List κ → Option (Option α)} {path path' : List κ} (hopen : Open w path)
    (hapart : ¬ path' <+: path) (v : α) : Open (put w path' v) path := by
  intro r hr hne x
  unfold Table.put
  rw [if_neg fun hbefore => hapart (hbefore.trans hr)]
  by_cases hafter : r <+: path'
  · rw [if_pos hafter]
    intro heq
    cases heq
  · rw [if_neg hafter]
    exact hopen r hr hne x

end Xcom.Table
