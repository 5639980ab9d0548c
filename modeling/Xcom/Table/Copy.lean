import Xcom.Table.Heap

/-!
# A deep copy

A copy has its own tables, in which the same is read, and leaves every table of the heap as
it was.  The copy of a cell whose tables lead nowhere deeper than the fuel is never refused.
-/

namespace Xcom.Table

universe u v

variable {κ : Type u} {α : Type v}

namespace Heap

/-- Every table behind a cell is in the heap, none deeper than `n`. -/
def fits : Nat → Heap κ α → Cell α → Bool
  | _, _, .scalar _ => true
  | 0, _, .table _ => false
  | n + 1, h, .table a => h.tables[a]?.any fun t => t.entries.all fun e => fits n h e.2

/-! ## Depth -/

theorem fits_table {n : Nat} {h : Heap κ α} {a : Nat} (hfits : fits (n + 1) h (.table a)) :
    ∃ t, h.tables[a]? = some t ∧ ∀ e ∈ t.entries, fits n h e.2 := by
  unfold fits at hfits
  cases htable : h.tables[a]? with
  | none =>
    rw [htable] at hfits
    cases hfits
  | some t =>
    rw [htable] at hfits
    exact ⟨t, rfl, List.all_eq_true.mp hfits⟩

theorem fits_kept {n : Nat} {h h' : Heap κ α} (hkept : h.Kept h') {c : Cell α}
    (hfits : fits n h c) : fits n h' c := by
  induction n generalizing c with
  | zero =>
    cases c with
    | scalar v => rfl
    | table a => cases hfits
  | succ n ih =>
    cases c with
    | scalar v => rfl
    | table a =>
      obtain ⟨t, ht, hentries⟩ := fits_table hfits
      unfold fits
      rw [hkept a t ht]
      exact List.all_eq_true.mpr fun e he => ih (hentries e he)

theorem fits_mono {n m : Nat} (hle : n ≤ m) {h : Heap κ α} {c : Cell α} (hfits : fits n h c) :
    fits m h c := by
  induction n generalizing m c with
  | zero =>
    cases c with
    | scalar v => cases m <;> rfl
    | table a => cases hfits
  | succ n ih =>
    obtain ⟨m, rfl⟩ : ∃ k, m = k + 1 := ⟨m - 1, by omega⟩
    cases c with
    | scalar v => rfl
    | table a =>
      obtain ⟨t, ht, hentries⟩ := fits_table hfits
      unfold fits
      rw [ht]
      exact List.all_eq_true.mpr fun e he => ih (Nat.le_of_succ_le_succ hle) (hentries e he)

/-! ## Copies -/

variable [DecidableEq κ]

/-- The copy of a cell, field by field into a new table.  An error comes with the tables it
leaves. -/
def copy : Nat → Heap κ α → Cell α → Except (Heap κ α) (Heap κ α × Cell α)
  | _, h, .scalar v => .ok (h, .scalar v)
  | 0, h, .table _ => .error h
  | n + 1, h, .table a =>
    match h.tables[a]? with
    | none => .error h
    | some t =>
      (t.entries.foldlM (fun h' e => (copy n h' e.2).map fun r => r.1.set h.size e.1 r.2)
        h.new).map fun h' => (h', .table h.size)

/-- What a copy of `c` is. -/
structure Copied (h : Heap κ α) (c : Cell α) (h' : Heap κ α) (c' : Cell α) : Prop where
  kept : h.Kept h'
  same : ∀ p, h'.observe c' p = h.observe c p
  fresh : ∀ p a, h'.look c' p = some (.table a) → h.size ≤ a ∧ a < h'.size
  unshared : h'.Unshared c'

/-- The fields `done` of a table have been copied into the new table of `h`. -/
structure Filled (h : Heap κ α) (done : List (Sigma fun _ : κ => Cell α)) (h' : Heap κ α) :
    Prop where
  kept : h.Kept h'
  room : h.size < h'.size
  absent : ∀ k, k ∉ done.keys → h'.get h.size k = none
  field : ∀ e ∈ done, ∃ c, h'.get h.size e.1 = some c ∧ ∀ p, h'.observe c p = h.observe e.2 p
  inside : ∀ k c p a, h'.get h.size k = some c → h'.look c p = some (.table a) →
    h.size < a ∧ a < h'.size
  apart : ∀ j k c d p q a, h'.get h.size j = some c → h'.get h.size k = some d →
    h'.look c p = some (.table a) → h'.look d q = some (.table a) → j = k ∧ p = q

/-- Behind a cell of bounded depth every table is one of the heap. -/
theorem fits_within {n : Nat} {h : Heap κ α} {c : Cell α} (hfits : fits n h c) :
    h.Within c := by
  intro p a hp
  induction n generalizing c p with
  | zero =>
    cases c with
    | table b => cases hfits
    | scalar v => cases p <;> cases hp
  | succ n ih =>
    cases c with
    | scalar v => cases p <;> cases hp
    | table b =>
      obtain ⟨t, ht, hentries⟩ := fits_table hfits
      cases p with
      | nil =>
        rw [look_nil] at hp
        obtain rfl := Cell.table.inj (Option.some.inj hp)
        exact (List.getElem?_eq_some_iff.mp ht).1
      | cons k p =>
        rw [look_table_cons] at hp
        obtain ⟨d, hd, hrest⟩ := Option.bind_eq_some_iff.mp hp
        have hlookup : t.lookup k = some d := by
          unfold Heap.get at hd
          rw [ht] at hd
          exact hd
        exact ih (hentries ⟨k, d⟩ (AList.mem_lookup_iff.mp hlookup)) p hrest

/-! ## Field by field -/

theorem copied_scalar (h : Heap κ α) (v : α) : Copied h (.scalar v) h (.scalar v) where
  kept := Kept.refl h
  same := fun _ => rfl
  fresh := fun p a hp => by cases p <;> cases hp
  unshared := fun p q a hp _ => by cases p <;> cases hp

/-- The new table of a heap. -/
theorem filled_new (h : Heap κ α) : Filled h [] h.new where
  kept := kept_new h
  room := by rw [size_new]; exact Nat.lt_succ_self _
  absent := fun k _ => by rw [get_new]; exact get_size h (Nat.le_refl _) k
  field := fun e he => absurd he List.not_mem_nil
  inside := fun k c p a hc _ => by
    rw [get_new, get_size h (Nat.le_refl _)] at hc
    cases hc
  apart := fun j k c d p q a hc _ _ _ => by
    rw [get_new, get_size h (Nat.le_refl _)] at hc
    cases hc

/-- The next field gets the copy of its cell. -/
theorem Filled.step {h h' h₁ : Heap κ α} {done : List (Sigma fun _ : κ => Cell α)}
    (hfilled : Filled h done h') {k : κ} {c c₁ : Cell α} (hk : k ∉ done.keys)
    (hwithin : h.Within c) (hcopied : Copied h' c h₁ c₁) :
    Filled h (⟨k, c⟩ :: done) (h₁.set h.size k c₁) := by
  have hroom : h.size < h₁.size := Nat.lt_of_lt_of_le hfilled.room hcopied.kept.size_le
  have hget : ∀ j, (h₁.set h.size k c₁).get h.size j =
      if j = k then some c₁ else h'.get h.size j := by
    intro j
    rw [get_set h₁ hroom, hcopied.kept.get hfilled.room]
    simp
  -- the copied cell and the cells before it do not lead to the table that is filled
  have hnew : ∀ p, (h₁.set h.size k c₁).look c₁ p = h₁.look c₁ p := by
    apply look_set_of_avoids hroom
    intro p hp
    exact Nat.not_lt.mpr (hcopied.fresh p _ hp).1 hfilled.room
  have hstays : ∀ j d, h'.get h.size j = some d → ∀ p,
      h₁.look d p = h'.look d p := by
    intro j d hd
    apply hcopied.kept.look
    intro p a hp
    exact (hfilled.inside j d p a hd hp).2
  have hold : ∀ j d, h'.get h.size j = some d → ∀ p,
      (h₁.set h.size k c₁).look d p = h'.look d p := by
    intro j d hd p
    rw [look_set_of_avoids hroom, hstays j d hd]
    intro q hq
    rw [hstays j d hd] at hq
    exact Nat.lt_irrefl _ (hfilled.inside j d q _ hd hq).1
  -- an old cell and the copied one lead to different tables
  have hdisjoint : ∀ j d p q a, h'.get h.size j = some d → h'.look d p = some (.table a) →
      h₁.look c₁ q = some (.table a) → False := by
    intro j d p q a hd hp hq
    exact Nat.not_lt.mpr (hcopied.fresh q a hq).1 (hfilled.inside j d p a hd hp).2
  refine ⟨(hfilled.kept.trans hcopied.kept).set (Nat.le_refl _) k c₁, ?_, ?_, ?_, ?_, ?_⟩
  · rw [size_set]
    exact hroom
  · intro j hj
    rw [List.keys_cons, List.mem_cons, not_or] at hj
    rw [hget, if_neg hj.1]
    exact hfilled.absent j hj.2
  · intro e he
    rcases List.mem_cons.mp he with rfl | he
    · refine ⟨c₁, by rw [hget, if_pos rfl], fun p => ?_⟩
      have hsame := hcopied.same p
      unfold observe at hsame ⊢
      rw [hnew, hsame, hfilled.kept.look hwithin]
    · have hne : e.1 ≠ k := fun heq => hk (heq ▸ List.mem_keys_of_mem he)
      obtain ⟨d, hd, hsame⟩ := hfilled.field e he
      refine ⟨d, by rw [hget, if_neg hne]; exact hd, fun p => ?_⟩
      rw [← hsame]
      unfold observe
      rw [hold e.1 d hd]
  · intro j d p a hd hp
    rw [hget] at hd
    rw [size_set]
    split_ifs at hd with hj
    · obtain rfl := Option.some.inj hd
      rw [hnew] at hp
      have hfresh := hcopied.fresh p a hp
      exact ⟨Nat.lt_of_lt_of_le hfilled.room hfresh.1, hfresh.2⟩
    · rw [hold j d hd] at hp
      have hinside := hfilled.inside j d p a hd hp
      exact ⟨hinside.1, Nat.lt_of_lt_of_le hinside.2 hcopied.kept.size_le⟩
  · intro i j d e p q a hd he hp hq
    rw [hget] at hd he
    split_ifs at hd he with hi hj hj
    · obtain rfl := Option.some.inj hd
      obtain rfl := Option.some.inj he
      rw [hnew] at hp hq
      exact ⟨hi.trans hj.symm, hcopied.unshared p q a hp hq⟩
    · obtain rfl := Option.some.inj hd
      rw [hnew] at hp
      rw [hold j e he] at hq
      exact (hdisjoint j e q p a he hq hp).elim
    · obtain rfl := Option.some.inj he
      rw [hnew] at hq
      rw [hold i d hd] at hp
      exact (hdisjoint i d p q a hd hp hq).elim
    · rw [hold i d hd] at hp
      rw [hold j e he] at hq
      exact hfilled.apart i j d e p q a hd he hp hq

/-- All fields. -/
theorem filled_foldlM {n : Nat} {h : Heap κ α}
    (ih : ∀ {h' : Heap κ α} {c : Cell α}, fits n h' c →
      ∃ h'' c', copy n h' c = .ok (h'', c') ∧ Copied h' c h'' c')
    {rest : List (Sigma fun _ : κ => Cell α)} (hnodup : rest.NodupKeys)
    (hfits : ∀ e ∈ rest, fits n h e.2) {done : List (Sigma fun _ : κ => Cell α)}
    (hdone : ∀ e ∈ rest, e.1 ∉ done.keys) {h' : Heap κ α} (hfilled : Filled h done h') :
    ∃ h'', rest.foldlM (fun h' e => (copy n h' e.2).map fun r => r.1.set h.size e.1 r.2) h' =
      .ok h'' ∧ Filled h (rest.reverse ++ done) h'' := by
  induction rest generalizing done h' with
  | nil => exact ⟨h', rfl, hfilled⟩
  | cons e rest ihrest =>
    obtain ⟨h₁, c₁, hcopy, hcopied⟩ :=
      ih (fits_kept hfilled.kept (hfits e List.mem_cons_self))
    have hstep := hfilled.step (hdone e List.mem_cons_self)
      (fits_within (hfits e List.mem_cons_self)) hcopied
    rw [List.nodupKeys_cons] at hnodup
    have hapart : ∀ e' ∈ rest, e'.1 ∉ (e :: done).keys := by
      intro e' he' hmem
      rw [List.keys_cons, List.mem_cons] at hmem
      rcases hmem with heq | hmem
      · exact hnodup.1 (heq ▸ List.mem_keys_of_mem he')
      · exact hdone e' (List.mem_cons_of_mem _ he') hmem
    obtain ⟨h'', hfold, hall⟩ := ihrest hnodup.2
      (fun e' he' => hfits e' (List.mem_cons_of_mem _ he')) hapart hstep
    refine ⟨h'', ?_, ?_⟩
    · rw [List.foldlM_cons, hcopy]
      exact hfold
    · rw [List.reverse_cons, List.append_assoc]
      exact hall

/-- The new table with all the fields of `t` is a copy of it. -/
theorem Filled.copied {h h' : Heap κ α} {a : Nat} {t : AList fun _ : κ => Cell α}
    (ht : h.tables[a]? = some t) {done : List (Sigma fun _ : κ => Cell α)}
    (hdone : ∀ e, e ∈ done ↔ e ∈ t.entries) (hfilled : Filled h done h') :
    Copied h (.table a) h' (.table h.size) where
  kept := hfilled.kept
  same := by
    intro p
    cases p with
    | nil => rfl
    | cons k p =>
      unfold observe
      rw [look_table_cons, look_table_cons]
      have hlookup : h.get a k = t.lookup k := by
        unfold Heap.get
        rw [ht]
        rfl
      rw [hlookup]
      cases hk : t.lookup k with
      | none =>
        rw [hfilled.absent k]
        · rfl
        · intro hmem
          obtain ⟨c, hc⟩ := List.exists_of_mem_keys hmem
          rw [AList.mem_lookup_iff.mpr ((hdone _).mp hc)] at hk
          cases hk
      | some c =>
        obtain ⟨d, hd, hsame⟩ := hfilled.field ⟨k, c⟩ ((hdone _).mpr (AList.mem_lookup_iff.mp hk))
        rw [hd]
        exact hsame p
  fresh := by
    intro p b hp
    cases p with
    | nil =>
      rw [look_nil] at hp
      obtain rfl := Cell.table.inj (Option.some.inj hp)
      exact ⟨Nat.le_refl _, hfilled.room⟩
    | cons k p =>
      rw [look_table_cons] at hp
      obtain ⟨d, hd, hrest⟩ := Option.bind_eq_some_iff.mp hp
      have hinside := hfilled.inside k d p b hd hrest
      exact ⟨Nat.le_of_lt hinside.1, hinside.2⟩
  unshared := by
    intro p q b hp hq
    cases p with
    | nil =>
      rw [look_nil] at hp
      obtain rfl := Cell.table.inj (Option.some.inj hp)
      cases q with
      | nil => rfl
      | cons j q =>
        rw [look_table_cons] at hq
        obtain ⟨e, he, hrest⟩ := Option.bind_eq_some_iff.mp hq
        exact absurd (hfilled.inside j e q _ he hrest).1 (Nat.lt_irrefl _)
    | cons k p =>
      rw [look_table_cons] at hp
      obtain ⟨d, hd, hp⟩ := Option.bind_eq_some_iff.mp hp
      cases q with
      | nil =>
        rw [look_nil] at hq
        obtain rfl := Cell.table.inj (Option.some.inj hq)
        exact absurd (hfilled.inside k d p _ hd hp).1 (Nat.lt_irrefl _)
      | cons j q =>
        rw [look_table_cons] at hq
        obtain ⟨e, he, hq⟩ := Option.bind_eq_some_iff.mp hq
        obtain ⟨rfl, rfl⟩ := hfilled.apart k j d e p q b hd he hp hq
        rfl

/-- A cell of bounded depth has a copy. -/
theorem copy_copied {n : Nat} {h : Heap κ α} {c : Cell α} (hfits : fits n h c) :
    ∃ h' c', copy n h c = .ok (h', c') ∧ Copied h c h' c' := by
  induction n generalizing h c with
  | zero =>
    cases c with
    | scalar v => exact ⟨h, .scalar v, rfl, copied_scalar h v⟩
    | table a => cases hfits
  | succ n ih =>
    cases c with
    | scalar v => exact ⟨h, .scalar v, rfl, copied_scalar h v⟩
    | table a =>
      obtain ⟨t, ht, hentries⟩ := fits_table hfits
      obtain ⟨h', hfold, hfilled⟩ := filled_foldlM ih t.nodupKeys hentries
        (fun e _ => List.not_mem_nil) (filled_new h)
      refine ⟨h', .table h.size, ?_, hfilled.copied ht fun e => ?_⟩
      · unfold copy
        rw [ht]
        dsimp only
        rw [hfold]
        rfl
      · rw [List.append_nil, List.mem_reverse]

end Heap

end Xcom.Table
