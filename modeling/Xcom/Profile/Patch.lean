import Xcom.Profile.Device

/-!
# The leaves of a patch

Flattened and split at its dots again, every leaf of a patch has the path it had: a dotted
key stands for the path of its parts.
-/

namespace Xcom.Profile

open Config (Bytes Value Data Numbers Section)
open Table (Separate)

variable {N : Type}

/-- The part of a path a key stands for. -/
def keySegments : Key → List Key
  | .name s => segments s
  | .index n => [.index n]

mutual

/-- The leaves of a field, by path. -/
def Patch.leaves : Patch N → List (List Key × Value N)
  | .leaf v => [([], v)]
  | .fields fs => fs.leaves

/-- The leaves of a patch, by path. -/
def Fields.leaves : Fields N → List (List Key × Value N)
  | .nil => []
  | .cons k p rest => p.leaves.map (fun e => (keySegments k ++ e.1, e.2)) ++ rest.leaves

end

mutual

/-- Every key in a field is a text that is not empty. -/
def Patch.Named : Patch N → Prop
  | .leaf _ => True
  | .fields fs => fs.Named

/-- Every key of a patch is a text that is not empty. -/
def Fields.Named : Fields N → Prop
  | .nil => True
  | .cons k p rest => (∃ s, k = .name s ∧ s ≠ []) ∧ p.Named ∧ rest.Named

end

/-- The keys of a patch. -/
def Fields.keys : Fields N → List Key
  | .nil => []
  | .cons k _ rest => k :: rest.keys

mutual

/-- Every key in a field is a text without a dot. -/
def Patch.Plain : Patch N → Prop
  | .leaf _ => True
  | .fields fs => fs.Plain

/-- Every key of a patch is a text without a dot, and stands once in its table. -/
def Fields.Plain : Fields N → Prop
  | .nil => True
  | .cons k p rest =>
    (∃ s, k = .name s ∧ s ≠ [] ∧ 0x2E ∉ s) ∧ k ∉ rest.keys ∧ p.Plain ∧ rest.Plain

end

mutual

/-- The assignments `flatten_into` makes for a field. -/
def Patch.flat (numbers : Numbers N) (path : Bytes) : Patch N → List (Bytes × Value N)
  | .leaf v => [(path, v)]
  | .fields fs => fs.flat numbers path

/-- The assignments `flatten_into` makes, in their order. -/
def Fields.flat (numbers : Numbers N) (before : Bytes) : Fields N → List (Bytes × Value N)
  | .nil => []
  | .cons k p rest =>
    let path := if before = [] then keyText numbers k else before ++ [0x2E] ++ keyText numbers k
    p.flat numbers path ++ rest.flat numbers before

end

/-- An assignment to a path of keys. -/
def segmented (e : Bytes × Value N) : List Key × Value N := (segments e.1, e.2)

variable {numbers : Numbers N}

/-! ## Paths -/

theorem segments_ne_nil (path : Bytes) : segments path ≠ [] := by
  intro hnil
  exact List.splitOn_ne_nil 0x2E path (List.map_eq_nil_iff.mp hnil)

theorem segments_append (before s : Bytes) :
    segments (before ++ [0x2E] ++ s) = segments before ++ segments s := by
  unfold segments
  rw [List.append_assoc, List.singleton_append, List.splitOn_append_cons_self, List.map_append]

/-- A path is known from its parts. -/
theorem segments_injective {path path' : Bytes} (h : segments path = segments path') :
    path = path' := by
  have hparts : path.splitOn 0x2E = path'.splitOn 0x2E :=
    List.map_injective_iff.mpr (fun s t hst => Key.name.inj hst) h
  have hjoin : [(0x2E : UInt8)].intercalate (path.splitOn 0x2E) = path :=
    List.intercalate_splitOn 0x2E
  rw [← hjoin, hparts, List.intercalate_splitOn]

theorem segmented_injective {d e : Bytes × Value N} (h : segmented d = segmented e) : d = e := by
  obtain ⟨hpath, hvalue⟩ := Prod.mk.inj h
  exact Prod.ext (segments_injective hpath) hvalue

/-! ## Flattening -/

mutual

theorem Patch.flattenInto_eq (path : Bytes) (p : Patch N) (out : Section N) :
    p.flattenInto numbers path out =
      (p.flat numbers path).foldl (fun out e => out.insert e.1 e.2) out := by
  cases p with
  | leaf v => rfl
  | fields fs => exact fs.flattenInto_eq path out

theorem Fields.flattenInto_eq (before : Bytes) (fs : Fields N) (out : Section N) :
    fs.flattenInto numbers before out =
      (fs.flat numbers before).foldl (fun out e => out.insert e.1 e.2) out := by
  cases fs with
  | nil => rfl
  | cons k p rest =>
    unfold Fields.flattenInto Fields.flat
    dsimp only
    rw [p.flattenInto_eq, rest.flattenInto_eq, List.foldl_append]

end

mutual

theorem Patch.flat_segmented {path : Bytes} (hpath : path ≠ []) {p : Patch N}
    (hnamed : p.Named) :
    (p.flat numbers path).map segmented =
      p.leaves.map fun e => (segments path ++ e.1, e.2) := by
  cases p with
  | leaf v =>
    unfold Patch.flat Patch.leaves
    simp [segmented]
  | fields fs => exact Fields.flat_segmented hpath hnamed

theorem Fields.flat_segmented {before : Bytes} (hbefore : before ≠ []) {fs : Fields N}
    (hnamed : fs.Named) :
    (fs.flat numbers before).map segmented =
      fs.leaves.map fun e => (segments before ++ e.1, e.2) := by
  cases fs with
  | nil => rfl
  | cons k p rest =>
    obtain ⟨⟨s, rfl, hs⟩, hp, hrest⟩ := hnamed
    unfold Fields.flat Fields.leaves
    dsimp only
    rw [if_neg hbefore, List.map_append, List.map_append,
      Patch.flat_segmented (by simp) hp, Fields.flat_segmented hbefore hrest, segments_append,
      List.map_map]
    simp only [Function.comp_def, List.append_assoc, keyText, keySegments]

end

/-- The assignments of a whole patch are its leaves. -/
theorem Fields.flat_leaves (numbers : Numbers N) {fs : Fields N} (hnamed : fs.Named) :
    (fs.flat numbers []).map segmented = fs.leaves := by
  cases fs with
  | nil => rfl
  | cons k p rest =>
    obtain ⟨⟨s, rfl, hs⟩, hp, hrest⟩ := hnamed
    unfold Fields.flat Fields.leaves
    dsimp only
    rw [if_pos rfl, List.map_append, Fields.flat_leaves numbers hrest]
    have hkey : keyText numbers (.name s) ≠ [] := hs
    rw [Patch.flat_segmented hkey hp]
    rfl

/-- The last assignment to a path stands; here there is one value for each. -/
theorem lookup_foldl_insert {assigned : List (Bytes × Value N)}
    (hone : ∀ d ∈ assigned, ∀ e ∈ assigned, d.1 = e.1 → d = e) (out : Section N) (path : Bytes)
    (v : Value N) :
    (assigned.foldl (fun out e => out.insert e.1 e.2) out).lookup path = some v ↔
      (path, v) ∈ assigned ∨ (∀ e ∈ assigned, e.1 ≠ path) ∧ out.lookup path = some v := by
  induction assigned generalizing out with
  | nil => simp
  | cons e assigned ih =>
    have htail : ∀ d ∈ assigned, ∀ d' ∈ assigned, d.1 = d'.1 → d = d' := fun d hd d' hd' =>
      hone d (List.mem_cons_of_mem _ hd) d' (List.mem_cons_of_mem _ hd')
    rw [List.foldl_cons, ih htail, List.mem_cons, List.forall_mem_cons]
    by_cases hpath : e.1 = path
    · subst hpath
      rw [AList.lookup_insert]
      constructor
      · rintro (hmem | ⟨_, hv⟩)
        · exact .inl (.inr hmem)
        · exact .inl (.inl (Prod.ext rfl (Option.some.inj hv).symm))
      · rintro ((heq | hmem) | ⟨⟨hne, _⟩, _⟩)
        · by_cases hin : ∃ d ∈ assigned, d.1 = e.1
          · obtain ⟨d, hd, hde⟩ := hin
            have hsame := hone d (List.mem_cons_of_mem _ hd) e List.mem_cons_self hde
            rw [heq, ← hsame]
            exact .inl hd
          · refine .inr ⟨fun d hd hde => hin ⟨d, hd, hde⟩, ?_⟩
            rw [← heq]
        · exact .inl hmem
        · exact absurd rfl hne
    · have hne : path ≠ e.1 := fun heq => hpath heq.symm
      have hpair : (path, v) ≠ e := fun heq => hne (congrArg Prod.fst heq)
      rw [AList.lookup_insert_ne hne]
      simp only [hpair, hpath, false_or, not_false_eq_true, true_and, ne_eq]

/-- The section of an override has the leaves of the patch. -/
theorem lookup_flattenInto {fs : Fields N} (hnamed : fs.Named) (hseparate : Separate fs.leaves)
    (path : Bytes) (v : Value N) :
    (fs.flattenInto numbers [] ∅).lookup path = some v ↔ (segments path, v) ∈ fs.leaves := by
  have hone : ∀ d ∈ fs.flat numbers [], ∀ e ∈ fs.flat numbers [], d.1 = e.1 → d = e := by
    intro d hd e he hpath
    by_contra hne
    have hd' : segmented d ∈ fs.leaves := Fields.flat_leaves numbers hnamed ▸ List.mem_map_of_mem hd
    have he' : segmented e ∈ fs.leaves := Fields.flat_leaves numbers hnamed ▸ List.mem_map_of_mem he
    apply hseparate _ hd' _ he' fun heq => hne (segmented_injective heq)
    exact ⟨[], (List.append_nil _).trans (congrArg segments hpath)⟩
  rw [Fields.flattenInto_eq, lookup_foldl_insert hone, AList.lookup_empty]
  constructor
  · rintro (hmem | ⟨_, hnone⟩)
    · exact Fields.flat_leaves numbers hnamed ▸ List.mem_map_of_mem (f := segmented) hmem
    · cases hnone
  · intro hmem
    rw [← Fields.flat_leaves numbers hnamed] at hmem
    obtain ⟨e, he, heq⟩ := List.mem_map.mp hmem
    obtain rfl : e = (path, v) := segmented_injective heq
    exact .inl he

/-! ## Keys without dots -/

theorem keySegments_plain {s : Bytes} (hs : 0x2E ∉ s) : keySegments (.name s) = [.name s] := by
  show (s.splitOn 0x2E).map Key.name = [.name s]
  rw [List.splitOn_eq_singleton hs]
  rfl

mutual

theorem Patch.Plain.named {p : Patch N} (hplain : p.Plain) : p.Named := by
  cases p with
  | leaf v => trivial
  | fields fs => exact Fields.Plain.named hplain

theorem Fields.Plain.named {fs : Fields N} (hplain : fs.Plain) : fs.Named := by
  cases fs with
  | nil => trivial
  | cons k p rest =>
    obtain ⟨⟨s, rfl, hs, _⟩, _, hp, hrest⟩ := hplain
    exact ⟨⟨s, rfl, hs⟩, Patch.Plain.named hp, Fields.Plain.named hrest⟩

end

/-- The path of a leaf begins with the key of its field. -/
theorem Fields.Plain.head {fs : Fields N} (hplain : fs.Plain) {e : List Key × Value N}
    (he : e ∈ fs.leaves) : ∃ k ∈ fs.keys, ∃ q, e.1 = k :: q := by
  cases fs with
  | nil => cases he
  | cons k p rest =>
    obtain ⟨⟨s, rfl, _, hdot⟩, _, _, hrest⟩ := hplain
    unfold Fields.leaves at he
    rw [keySegments_plain hdot, List.mem_append, List.mem_map] at he
    rcases he with ⟨d, _, rfl⟩ | he
    · exact ⟨.name s, List.mem_cons_self, d.1, rfl⟩
    · obtain ⟨j, hj, q, hq⟩ := Fields.Plain.head hrest he
      exact ⟨j, List.mem_cons_of_mem _ hj, q, hq⟩

mutual

theorem Patch.Plain.separate {p : Patch N} (hplain : p.Plain) : Separate p.leaves := by
  cases p with
  | leaf v =>
    intro d hd e he hne
    exact absurd ((List.mem_singleton.mp hd).trans (List.mem_singleton.mp he).symm) hne
  | fields fs => exact Fields.Plain.separate hplain

/-- Where no key holds a dot, no leaf stands on the way to another. -/
theorem Fields.Plain.separate {fs : Fields N} (hplain : fs.Plain) : Separate fs.leaves := by
  cases fs with
  | nil =>
    intro d hd
    cases hd
  | cons k p rest =>
    obtain ⟨⟨s, rfl, _, hdot⟩, honce, hp, hrest⟩ := hplain
    have hbeside : ∀ d q, d ∈ rest.leaves →
        ¬ d.1 <+: Key.name s :: q ∧ ¬ Key.name s :: q <+: d.1 := by
      intro d q hd
      obtain ⟨j, hj, q', hq⟩ := Fields.Plain.head hrest hd
      have hne : j ≠ .name s := fun heq => honce (heq ▸ hj)
      rw [hq, List.cons_prefix_cons, List.cons_prefix_cons]
      exact ⟨fun hboth => hne hboth.1, fun hboth => hne hboth.1.symm⟩
    intro d hd e he hne
    unfold Fields.leaves at hd he
    rw [keySegments_plain hdot, List.mem_append, List.mem_map] at hd he
    rcases hd with ⟨d, hd, rfl⟩ | hd
    · rcases he with ⟨e, he, rfl⟩ | he
      · intro hprefix
        apply Patch.Plain.separate hp d hd e he fun heq => hne (by rw [heq])
        exact (List.prefix_cons_inj _).mp hprefix
      · exact (hbeside e d.1 he).2
    · rcases he with ⟨e, he, rfl⟩ | he
      · exact (hbeside d e.1 hd).1
      · exact Fields.Plain.separate hrest d hd e he hne

end

end Xcom.Profile
