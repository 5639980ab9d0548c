import Xcom.Table.Overlay

/-!
# Assignments through paths

A value is assigned to the field at the end of a path; a table missing on the way is made,
and a scalar on the way is an error.  From a cell that leads to no table twice, this puts
the value over what was read and changes no table but those behind the cell.
-/

namespace Xcom.Table.Heap

universe u v

variable {κ : Type u} {α : Type v} [DecidableEq κ]

/-- The assignment at the end of a path.  An error comes with the tables it leaves. -/
def putAt : Heap κ α → Cell α → List κ → α → Except (Heap κ α) (Heap κ α)
  | h, _, [], _ => .ok h
  | h, .scalar _, _ :: _, _ => .error h
  | h, .table a, [k], v => .ok (h.set a k (.scalar v))
  | h, .table a, k :: j :: ks, v =>
    match h.get a k with
    | some c => putAt h c (j :: ks) v
    | none => putAt (h.new.set a k (.table h.size)) (.table h.size) (j :: ks) v

/-- Behind a cell are only tables from the address `n` on. -/
def Inside (n : Nat) (h : Heap κ α) (c : Cell α) : Prop :=
  ∀ p a, h.look c p = some (.table a) → n ≤ a ∧ a < h.size

/-- From `h` to `h'` only tables behind `c` were changed, or made, and `w` is read. -/
structure Changed (h : Heap κ α) (c : Cell α) (h' : Heap κ α)
    (w : List κ → Option (Option α)) : Prop where
  size_le : h.size ≤ h'.size
  frame : ∀ (b : Nat) (t : AList fun _ : κ => Cell α), h.tables[b]? = some t → h.Avoids b c →
    h'.tables[b]? = some t
  reach : ∀ p b, h'.look c p = some (.table b) →
    h.look c p = some (.table b) ∨ h.size ≤ b ∧ b < h'.size
  unshared : h'.Unshared c
  view : h'.observe c = w

/-! ## Tables out of reach

Whatever the path and whether or not it ends in an error, the tables that are not behind
the cell stay. -/

theorem Inside.step {n : Nat} {h : Heap κ α} {a : Nat} {k : κ} {c : Cell α}
    (hinside : Inside n h (.table a)) (hget : h.get a k = some c) : Inside n h c := by
  intro p b hp
  apply hinside (k :: p) b
  rw [look_table_cons, hget]
  exact hp

theorem inside_scalar (n : Nat) (h : Heap κ α) (v : α) : Inside n h (.scalar v) := by
  intro p b hp
  cases p <;> cases hp

theorem Inside.new {n : Nat} {h : Heap κ α} {c : Cell α} (hinside : Inside n h c) :
    Inside n h.new c := by
  intro p b hp
  rw [(kept_new h).look fun q a hq => (hinside q a hq).2] at hp
  rw [size_new]
  exact ⟨(hinside p b hp).1, Nat.lt_succ_of_lt (hinside p b hp).2⟩

theorem Inside.set {n : Nat} {h : Heap κ α} {a : Nat} {k : κ} {x c : Cell α}
    (hinside : Inside n h c) (ha : a < h.size) (hx : Inside n (h.set a k x) x) :
    Inside n (h.set a k x) c := by
  intro p b hp
  induction p generalizing c with
  | nil =>
    rw [look_nil] at hp
    rw [size_set]
    apply hinside [] b
    rw [look_nil]
    exact hp
  | cons j p ih =>
    cases c with
    | scalar v => cases hp
    | table d =>
      rw [look_table_cons, get_set h ha] at hp
      by_cases hfield : d = a ∧ j = k
      · rw [if_pos hfield] at hp
        exact hx p b hp
      · rw [if_neg hfield] at hp
        obtain ⟨e, he, hrest⟩ := Option.bind_eq_some_iff.mp hp
        exact ih (hinside.step he) hrest

/-- The table made on the way is a new one. -/
theorem inside_made {n : Nat} {h : Heap κ α} (hn : n ≤ h.size) {a : Nat} (ha : a < h.size)
    (k : κ) : Inside n (h.new.set a k (.table h.size)) (.table h.size) := by
  have ha' : a < h.new.size := Nat.lt_of_lt_of_le ha (kept_new h).size_le
  intro p b hp
  cases p with
  | nil =>
    rw [look_nil] at hp
    obtain rfl := Cell.table.inj (Option.some.inj hp)
    rw [size_set, size_new]
    exact ⟨hn, Nat.lt_succ_self _⟩
  | cons j p =>
    rw [look_table_cons, get_set _ ha', if_neg fun hboth => Nat.ne_of_gt ha hboth.1, get_new,
      get_size h (Nat.le_refl _)] at hp
    cases hp

/-- What an assignment behind tables from `n` on leaves, also where it fails. -/
structure Beyond (n : Nat) (h h' : Heap κ α) : Prop where
  size_le : h.size ≤ h'.size
  same : ∀ b, b < n → h'.tables[b]? = h.tables[b]?
  inside : ∀ c, Inside n h c → Inside n h' c

theorem Beyond.refl (n : Nat) (h : Heap κ α) : Beyond n h h :=
  ⟨Nat.le_refl _, fun _ _ => rfl, fun _ hinside => hinside⟩

theorem Beyond.trans {n : Nat} {h h₁ h' : Heap κ α} (hfirst : Beyond n h h₁)
    (hsecond : Beyond n h₁ h') : Beyond n h h' where
  size_le := Nat.le_trans hfirst.size_le hsecond.size_le
  same := fun _ hb => (hsecond.same _ hb).trans (hfirst.same _ hb)
  inside := fun _ hinside => hsecond.inside _ (hfirst.inside _ hinside)

theorem beyond_set {n : Nat} {h : Heap κ α} {a : Nat} (hna : n ≤ a) (ha : a < h.size) {k : κ}
    {x : Cell α} (hx : Inside n (h.set a k x) x) : Beyond n h (h.set a k x) where
  size_le := Nat.le_of_eq (size_set ..).symm
  same := fun _ hb => table_set (Nat.ne_of_lt (Nat.lt_of_lt_of_le hb hna)) k x
  inside := fun _ hinside => hinside.set ha hx

theorem beyond_new {n : Nat} {h : Heap κ α} (hn : n ≤ h.size) : Beyond n h h.new where
  size_le := (kept_new h).size_le
  same := fun b hb => by
    have hlt : b < h.tables.length := Nat.lt_of_lt_of_le hb hn
    have htable : h.tables[b]? = some h.tables[b] := List.getElem?_eq_getElem hlt
    rw [htable]
    exact kept_new h b _ htable
  inside := fun _ hinside => hinside.new

theorem putAt_beyond {n : Nat} {h : Heap κ α} (hn : n ≤ h.size) {c : Cell α}
    (hinside : Inside n h c) (path : List κ) (v : α) {h' : Heap κ α}
    (hput : putAt h c path v = .ok h' ∨ putAt h c path v = .error h') : Beyond n h h' := by
  induction path generalizing h c with
  | nil =>
    unfold putAt at hput
    rcases hput with hput | hput
    · obtain rfl := Except.ok.inj hput
      exact Beyond.refl n h
    · cases hput
  | cons k path ih =>
    cases c with
    | scalar x =>
      unfold putAt at hput
      rcases hput with hput | hput
      · cases hput
      · obtain rfl := Except.error.inj hput
        exact Beyond.refl n h
    | table a =>
      have ha := hinside [] a (look_nil _ _)
      cases path with
      | nil =>
        unfold putAt at hput
        rcases hput with hput | hput
        · obtain rfl := Except.ok.inj hput
          exact beyond_set ha.1 ha.2 (inside_scalar n _ v)
        · cases hput
      | cons j path =>
        unfold putAt at hput
        cases hget : h.get a k with
        | some d =>
          rw [hget] at hput
          exact ih hn (hinside.step hget) hput
        | none =>
          rw [hget] at hput
          have hmade := inside_made hn ha.2 k
          have hnew := (beyond_new hn).trans
            (beyond_set ha.1 (Nat.lt_of_lt_of_le ha.2 (kept_new h).size_le) hmade)
          exact hnew.trans (ih (Nat.le_trans hn hnew.size_le) hmade hput)

theorem foldlM_beyond {n : Nat} {h : Heap κ α} (hn : n ≤ h.size) {c : Cell α}
    (hinside : Inside n h c) (leaves : List (List κ × α)) {h' : Heap κ α}
    (hfold : leaves.foldlM (fun h e => putAt h c e.1 e.2) h = .ok h' ∨
      leaves.foldlM (fun h e => putAt h c e.1 e.2) h = .error h') : Beyond n h h' := by
  induction leaves generalizing h with
  | nil =>
    rcases hfold with hfold | hfold
    · obtain rfl := Except.ok.inj hfold
      exact Beyond.refl n h
    · cases hfold
  | cons e leaves ih =>
    rw [List.foldlM_cons] at hfold
    cases hput : putAt h c e.1 e.2 with
    | ok h₁ =>
      rw [hput] at hfold
      have hfirst := putAt_beyond hn hinside e.1 e.2 (.inl hput)
      exact hfirst.trans (ih (Nat.le_trans hn hfirst.size_le) (hfirst.inside c hinside) hfold)
    | error h₁ =>
      rw [hput] at hfold
      rcases hfold with hfold | hfold
      · cases hfold
      · obtain rfl := Except.error.inj hfold
        exact putAt_beyond hn hinside e.1 e.2 (.inr hput)

/-! ## One change after another -/

theorem Changed.refl {h : Heap κ α} {c : Cell α} (hunshared : h.Unshared c) :
    Changed h c h (h.observe c) where
  size_le := Nat.le_refl _
  frame := fun _ _ ht _ => ht
  reach := fun _ _ hp => .inl hp
  unshared := hunshared
  view := rfl

theorem Changed.within {h h' : Heap κ α} {c : Cell α} {w : List κ → Option (Option α)}
    (hchanged : Changed h c h' w) (hwithin : h.Within c) : h'.Within c := by
  intro p b hp
  rcases hchanged.reach p b hp with hold | hnew
  · exact Nat.lt_of_lt_of_le (hwithin p b hold) hchanged.size_le
  · exact hnew.2

theorem Changed.trans {h h₁ h' : Heap κ α} {c : Cell α} {w₁ w : List κ → Option (Option α)}
    (hfirst : Changed h c h₁ w₁) (hsecond : Changed h₁ c h' w) : Changed h c h' w where
  size_le := Nat.le_trans hfirst.size_le hsecond.size_le
  frame := by
    intro b t ht havoids
    apply hsecond.frame b t (hfirst.frame b t ht havoids)
    intro p hp
    rcases hfirst.reach p b hp with hold | hnew
    · exact havoids p hold
    · exact Nat.not_lt.mpr hnew.1 (List.getElem?_eq_some_iff.mp ht).1
  reach := by
    intro p b hp
    rcases hsecond.reach p b hp with hmid | hnew
    · rcases hfirst.reach p b hmid with hold | hnew
      · exact .inl hold
      · exact .inr ⟨hnew.1, Nat.lt_of_lt_of_le hnew.2 hsecond.size_le⟩
    · exact .inr ⟨Nat.le_trans hfirst.size_le hnew.1, hnew.2⟩
  unshared := hsecond.unshared
  view := hsecond.view

/-! ## One field -/

theorem observe_cons {h : Heap κ α} {a : Nat} {k : κ} {d : Cell α} (hget : h.get a k = some d)
    (q : List κ) : h.observe (.table a) (k :: q) = h.observe d q := by
  unfold observe
  rw [look_table_cons, hget]
  rfl

theorem changed_set {h : Heap κ α} {a : Nat} (ha : a < h.size)
    (hunshared : h.Unshared (.table a)) (k : κ) (v : α) :
    Changed h (.table a) (h.set a k (.scalar v)) (put (h.observe (.table a)) [k] v) := by
  have hreach : ∀ p b, (h.set a k (.scalar v)).look (.table a) p = some (.table b) →
      h.look (.table a) p = some (.table b) := by
    intro p b hp
    cases p with
    | nil => exact hp
    | cons j p =>
      rw [look_set_self ha hunshared] at hp
      split_ifs at hp with hj
      · cases p <;> cases hp
      · exact hp
  refine ⟨Nat.le_of_eq (size_set ..).symm, ?_, fun p b hp => .inl (hreach p b hp), ?_, ?_⟩
  · intro b t ht havoids
    rw [table_set fun heq => havoids [] (by rw [look_nil, heq])]
    exact ht
  · intro p q b hp hq
    exact hunshared p q b (hreach p b hp) (hreach q b hq)
  · funext q
    cases q with
    | nil => simp [put, observe]
    | cons j q =>
      unfold observe put
      rw [look_set_self ha hunshared]
      by_cases hj : j = k
      · subst hj
        cases q <;> simp
      · have hk : ¬ k = j := fun heq => hj heq.symm
        simp [hj, hk]

/-- A change behind one field of a table. -/
theorem Changed.under {h h' : Heap κ α} {a : Nat} {k : κ} {d : Cell α} {path : List κ} {v : α}
    (hwithin : h.Within (.table a)) (hunshared : h.Unshared (.table a))
    (hget : h.get a k = some d) (hchanged : Changed h d h' (put (h.observe d) path v)) :
    Changed h (.table a) h' (put (h.observe (.table a)) (k :: path) v) := by
  have hkept : ∀ b, b < h.size → h.Avoids b d → ∀ j, h'.get b j = h.get b j := by
    intro b hb havoids j
    have htable : h.tables[b]? = some h.tables[b] := List.getElem?_eq_getElem hb
    unfold Heap.get
    rw [hchanged.frame b _ htable havoids, htable]
  have hself : ∀ j, h'.get a j = h.get a j :=
    hkept a (hwithin [] a (look_nil _ _)) (hunshared.avoids_self hget)
  -- behind the other fields nothing changes
  have hbeside : ∀ j q, j ≠ k → h'.look (.table a) (j :: q) = h.look (.table a) (j :: q) := by
    intro j q hj
    rw [look_table_cons, look_table_cons, hself]
    cases he : h.get a j with
    | none => rfl
    | some e =>
      apply look_congr
      intro p b hp
      exact hkept b (hwithin.step he p b hp) (hunshared.fields hget he hj.symm hp)
  have hbelow : ∀ q, h'.look (.table a) (k :: q) = h'.look d q := by
    intro q
    rw [look_table_cons, hself, hget]
    rfl
  have hreach : ∀ p b, h'.look (.table a) p = some (.table b) →
      h.look (.table a) p = some (.table b) ∨
        ∃ q, p = k :: q ∧ h'.look d q = some (.table b) ∧ h.size ≤ b ∧ b < h'.size := by
    intro p b hp
    cases p with
    | nil => exact .inl hp
    | cons j q =>
      by_cases hj : j = k
      · subst hj
        rw [hbelow] at hp
        rcases hchanged.reach q b hp with hold | hnew
        · rw [look_table_cons, hget]
          exact .inl hold
        · exact .inr ⟨q, rfl, hp, hnew⟩
      · rw [hbeside j q hj] at hp
        exact .inl hp
  refine ⟨hchanged.size_le, ?_, ?_, ?_, ?_⟩
  · intro b t ht havoids
    exact hchanged.frame b t ht (havoids.step hget)
  · intro p b hp
    rcases hreach p b hp with hold | ⟨_, _, _, hnew⟩
    · exact .inl hold
    · exact .inr hnew
  · intro p q b hp hq
    rcases hreach p b hp with hold | ⟨p', rfl, hp', hpnew⟩
    · rcases hreach q b hq with hold' | ⟨_, _, _, hqnew⟩
      · exact hunshared p q b hold hold'
      · exact absurd (hwithin p b hold) (Nat.not_lt.mpr hqnew.1)
    · rcases hreach q b hq with hold | ⟨q', rfl, hq', _⟩
      · exact absurd (hwithin q b hold) (Nat.not_lt.mpr hpnew.1)
      · rw [hchanged.unshared p' q' b hp' hq']
  · funext q
    cases q with
    | nil => simp [put, observe]
    | cons j q =>
      by_cases hj : j = k
      · subst hj
        have hview : h'.observe (.table a) (j :: q) = put (h.observe d) path v q := by
          rw [← hchanged.view]
          unfold observe
          rw [hbelow]
        rw [hview]
        unfold put
        rw [observe_cons hget]
        simp
      · have hk : ¬ k = j := fun heq => hj heq.symm
        unfold observe put
        rw [hbeside j q hj]
        simp [hj, hk]

/-- The table made on the way. -/
theorem changed_made {h : Heap κ α} {a : Nat} (ha : a < h.size)
    (hwithin : h.Within (.table a)) (hunshared : h.Unshared (.table a)) {k : κ}
    (hnone : h.get a k = none) :
    Changed h (.table a) (h.new.set a k (.table h.size)) (made (h.observe (.table a)) k) := by
  have hnew : ∀ p, h.new.look (.table a) p = h.look (.table a) p :=
    (kept_new h).look hwithin
  have hunshared' : h.new.Unshared (.table a) := by
    intro p q b hp hq
    rw [hnew] at hp hq
    exact hunshared p q b hp hq
  have ha' : a < h.new.size := Nat.lt_of_lt_of_le ha (kept_new h).size_le
  have hempty : ∀ j, (h.new.set a k (.table h.size)).get h.size j = none := by
    intro j
    rw [get_set _ ha', if_neg fun hboth => Nat.ne_of_gt ha hboth.1, get_new,
      get_size h (Nat.le_refl _)]
  have hlook : ∀ j q, (h.new.set a k (.table h.size)).look (.table a) (j :: q) =
      if j = k then (if q = [] then some (.table h.size) else none)
      else h.look (.table a) (j :: q) := by
    intro j q
    rw [look_set_self ha' hunshared', hnew]
    by_cases hj : j = k
    · rw [if_pos hj, if_pos hj]
      cases q with
      | nil => rw [look_nil, if_pos rfl]
      | cons i q =>
        rw [look_table_cons, hempty]
        rfl
    · rw [if_neg hj, if_neg hj]
  have hreach : ∀ p b, (h.new.set a k (.table h.size)).look (.table a) p = some (.table b) →
      h.look (.table a) p = some (.table b) ∧ b < h.size ∨ p = [k] ∧ b = h.size := by
    intro p b hp
    cases p with
    | nil => exact .inl ⟨hp, hwithin [] b hp⟩
    | cons j p =>
      rw [hlook] at hp
      split_ifs at hp with hj hnil
      · obtain rfl := Cell.table.inj (Option.some.inj hp)
        rw [hj, hnil]
        exact .inr ⟨rfl, rfl⟩
      · exact .inl ⟨hp, hwithin (j :: p) b hp⟩
  have hsize : (h.new.set a k (.table h.size)).size = h.size + 1 := by
    rw [size_set, size_new]
  refine ⟨by rw [hsize]; exact Nat.le_succ _, ?_, ?_, ?_, ?_⟩
  · intro b t ht havoids
    rw [table_set fun heq => havoids [] (by rw [look_nil, heq])]
    exact kept_new h b t ht
  · intro p b hp
    rcases hreach p b hp with ⟨hold, _⟩ | ⟨_, rfl⟩
    · exact .inl hold
    · rw [hsize]
      exact .inr ⟨Nat.le_refl _, Nat.lt_succ_self _⟩
  · intro p q b hp hq
    rcases hreach p b hp with ⟨hold, hlt⟩ | ⟨rfl, hb⟩
    · rcases hreach q b hq with ⟨hold', _⟩ | ⟨_, hb⟩
      · exact hunshared p q b hold hold'
      · exact absurd hb (Nat.ne_of_lt hlt)
    · rcases hreach q b hq with ⟨_, hlt⟩ | ⟨rfl, _⟩
      · exact absurd hb (Nat.ne_of_lt hlt)
      · rfl
  · funext q
    cases q with
    | nil => simp [made, observe]
    | cons j q =>
      unfold made observe
      rw [hlook, look_table_cons]
      by_cases hj : j = k
      · subst hj
        cases q <;> simp [hnone]
      · simp [hj]

/-! ## Whole paths -/

/-- The assignment at the end of an open path. -/
theorem putAt_changed {h : Heap κ α} {c : Cell α} {path : List κ} (hpath : path ≠ [])
    (hwithin : h.Within c) (hunshared : h.Unshared c) (hopen : Open (h.observe c) path) (v : α) :
    ∃ h', putAt h c path v = .ok h' ∧ Changed h c h' (put (h.observe c) path v) := by
  induction path generalizing h c with
  | nil => exact absurd rfl hpath
  | cons k path ih =>
    cases c with
    | scalar x => exact absurd rfl (hopen [] List.nil_prefix (List.cons_ne_nil _ _).symm x)
    | table a =>
      have ha : a < h.size := hwithin [] a (look_nil _ _)
      cases path with
      | nil => exact ⟨_, rfl, changed_set ha hunshared k v⟩
      | cons j path =>
        have hne : j :: path ≠ [] := List.cons_ne_nil _ _
        cases hget : h.get a k with
        | some d =>
          have hopen' : Open (h.observe d) (j :: path) := by
            intro r hr hrne x hx
            apply hopen (k :: r) ((List.prefix_cons_inj k).mpr hr) _ x
            · rw [observe_cons hget]
              exact hx
            · intro heq
              exact hrne (List.cons.inj heq).2
          obtain ⟨h', hput, hchanged⟩ :=
            ih hne (hwithin.step hget) (hunshared.step hget) hopen'
          refine ⟨h', ?_, hchanged.under hwithin hunshared hget⟩
          unfold putAt
          rw [hget]
          exact hput
        | none =>
          have hmade := changed_made ha hwithin hunshared hget
          have ha' : a < h.new.size := Nat.lt_of_lt_of_le ha (kept_new h).size_le
          have hfield : (h.new.set a k (.table h.size)).get a k = some (.table h.size) := by
            rw [get_set _ ha', if_pos ⟨rfl, rfl⟩]
          have hwithin' := hmade.within hwithin
          -- nothing is read in the new table
          have hopen' : Open ((h.new.set a k (.table h.size)).observe (.table h.size))
              (j :: path) := by
            intro r _ _ x hx
            rw [← observe_cons hfield, hmade.view] at hx
            cases r with
            | nil =>
              unfold made at hx
              rw [if_pos rfl] at hx
              cases hx
            | cons i r =>
              unfold made observe at hx
              rw [if_neg (by simp)] at hx
              rw [look_table_cons, hget] at hx
              cases hx
          obtain ⟨h', hput, hchanged⟩ := ih hne (hwithin'.step hfield)
            (hmade.unshared.step hfield) hopen'
          refine ⟨h', ?_, ?_⟩
          · unfold putAt
            rw [hget]
            exact hput
          · have hunder := hchanged.under hwithin' hmade.unshared hfield
            rw [hmade.view, put_made] at hunder
            exact hmade.trans hunder

/-- Values at separate open paths, one after the other. -/
theorem foldlM_putAt {leaves : List (List κ × α)} (hnodup : leaves.Nodup)
    (hseparate : Separate leaves) (hpaths : ∀ e ∈ leaves, e.1 ≠ []) {h : Heap κ α}
    {c : Cell α} (hwithin : h.Within c) (hunshared : h.Unshared c)
    (hopen : ∀ e ∈ leaves, Open (h.observe c) e.1) :
    ∃ h', leaves.foldlM (fun h e => putAt h c e.1 e.2) h = .ok h' ∧
      Changed h c h' (merged (h.observe c) leaves) := by
  induction leaves generalizing h with
  | nil => exact ⟨h, rfl, Changed.refl hunshared⟩
  | cons e leaves ih =>
    rw [List.nodup_cons] at hnodup
    obtain ⟨h₁, hput, hchanged⟩ := putAt_changed (hpaths e List.mem_cons_self) hwithin
      hunshared (hopen e List.mem_cons_self) e.2
    have hopen' : ∀ d ∈ leaves, Open (h₁.observe c) d.1 := by
      intro d hd
      have hne : e ≠ d := fun heq => hnodup.1 (heq ▸ hd)
      rw [hchanged.view]
      exact (hopen d (List.mem_cons_of_mem _ hd)).put
        (hseparate e List.mem_cons_self d (List.mem_cons_of_mem _ hd) hne) e.2
    obtain ⟨h', hfold, hrest⟩ := ih hnodup.2
      (fun d hd d' hd' => hseparate d (List.mem_cons_of_mem _ hd) d' (List.mem_cons_of_mem _ hd'))
      (fun d hd => hpaths d (List.mem_cons_of_mem _ hd)) (hchanged.within hwithin)
      hchanged.unshared hopen'
    refine ⟨h', ?_, ?_⟩
    · rw [List.foldlM_cons, hput]
      exact hfold
    · rw [merged_cons hseparate hnodup.1, ← hchanged.view]
      exact hchanged.trans hrest

end Xcom.Table.Heap
