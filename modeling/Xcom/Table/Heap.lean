import Mathlib.Data.List.AList

/-!
# A heap of tables

Tables are mutable and known by their addresses; a field holds a scalar or the address of a
table.  What a program reads from a cell is the scalar or table behind each path of keys;
an assignment changes what is read through every path that leads to its table.
-/

namespace Xcom.Table

universe u v

variable {κ : Type u} {α : Type v}

/-- What a field holds. -/
inductive Cell (α : Type v)
  | scalar (v : α)
  | table (a : Nat)
  deriving DecidableEq, Repr

/-- The tables, by address. -/
structure Heap (κ : Type u) (α : Type v) where
  tables : List (AList fun _ : κ => Cell α)

namespace Heap

/-- The number of tables, which is the next address. -/
def size (h : Heap κ α) : Nat := h.tables.length

/-- A new table. -/
def new (h : Heap κ α) : Heap κ α := ⟨h.tables ++ [∅]⟩

/-- The tables of `h` stand unchanged in `h'`. -/
def Kept (h h' : Heap κ α) : Prop :=
  ∀ (a : Nat) (t : AList fun _ : κ => Cell α), h.tables[a]? = some t → h'.tables[a]? = some t

theorem size_new (h : Heap κ α) : h.new.size = h.size + 1 := by
  unfold size new
  rw [List.length_append]
  rfl

/-! ## Tables that stay -/

theorem Kept.refl (h : Heap κ α) : h.Kept h := fun _ _ ht => ht

theorem Kept.trans {h h' h'' : Heap κ α} (hfirst : h.Kept h') (hsecond : h'.Kept h'') :
    h.Kept h'' :=
  fun a t ht => hsecond a t (hfirst a t ht)

theorem kept_new (h : Heap κ α) : h.Kept h.new := by
  intro a t ht
  show (h.tables ++ [∅])[a]? = some t
  rw [List.getElem?_append_left (List.getElem?_eq_some_iff.mp ht).1]
  exact ht

theorem Kept.size_le {h h' : Heap κ α} (hkept : h.Kept h') : h.size ≤ h'.size := by
  by_contra hlt
  have hlast : h'.size < h.tables.length := Nat.lt_of_not_le hlt
  have htable := hkept h'.size _ (List.getElem?_eq_getElem hlast)
  have hnone : h'.tables[h'.size]? = none := List.getElem?_eq_none (Nat.le_refl _)
  rw [hnone] at htable
  cases htable

/-! ## Fields and paths -/

variable [DecidableEq κ]

/-- A field of a table. -/
def get (h : Heap κ α) (a : Nat) (k : κ) : Option (Cell α) :=
  h.tables[a]?.bind fun t => t.lookup k

/-- An assignment to a field. -/
def set (h : Heap κ α) (a : Nat) (k : κ) (c : Cell α) : Heap κ α :=
  ⟨h.tables.modify a fun t => t.insert k c⟩

/-- The cell behind a path of keys. -/
def look (h : Heap κ α) : Cell α → List κ → Option (Cell α)
  | c, [] => some c
  | .scalar _, _ :: _ => none
  | .table a, k :: ks => (h.get a k).bind fun c => h.look c ks

/-- What is seen behind a path: a scalar, a table (`some none`), or nothing. -/
def observe (h : Heap κ α) (c : Cell α) (p : List κ) : Option (Option α) :=
  (h.look c p).map fun
    | .scalar v => some v
    | .table _ => none

/-- Every path from a cell that leads to a table leads to one of the heap. -/
def Within (h : Heap κ α) (c : Cell α) : Prop :=
  ∀ p a, h.look c p = some (.table a) → a < h.size

/-- No path from a cell leads to the table `a`. -/
def Avoids (h : Heap κ α) (a : Nat) (c : Cell α) : Prop := ∀ p, h.look c p ≠ some (.table a)

/-- No two paths from a cell lead to one table. -/
def Unshared (h : Heap κ α) (c : Cell α) : Prop :=
  ∀ p q a, h.look c p = some (.table a) → h.look c q = some (.table a) → p = q

/-! ## Reading -/

@[simp] theorem look_nil (h : Heap κ α) (c : Cell α) : h.look c [] = some c := by
  cases c <;> rfl

@[simp] theorem look_scalar_cons (h : Heap κ α) (v : α) (k : κ) (ks : List κ) :
    h.look (.scalar v) (k :: ks) = none := rfl

theorem look_table_cons (h : Heap κ α) (a : Nat) (k : κ) (ks : List κ) :
    h.look (.table a) (k :: ks) = (h.get a k).bind fun c => h.look c ks := rfl

theorem Avoids.step {h : Heap κ α} {a b : Nat} {k : κ} {c : Cell α}
    (havoids : h.Avoids a (.table b)) (hget : h.get b k = some c) : h.Avoids a c := by
  intro p hp
  apply havoids (k :: p)
  rw [look_table_cons, hget]
  exact hp

theorem Unshared.step {h : Heap κ α} {b : Nat} {k : κ} {c : Cell α}
    (hunshared : h.Unshared (.table b)) (hget : h.get b k = some c) : h.Unshared c := by
  intro p q a hp hq
  have hsame := hunshared (k :: p) (k :: q) a
    (by rw [look_table_cons, hget]; exact hp) (by rw [look_table_cons, hget]; exact hq)
  exact (List.cons.inj hsame).2

/-- No field of a table leads back to it. -/
theorem Unshared.avoids_self {h : Heap κ α} {b : Nat} {k : κ} {c : Cell α}
    (hunshared : h.Unshared (.table b)) (hget : h.get b k = some c) : h.Avoids b c := by
  intro p hp
  have hsame := hunshared (k :: p) [] b
    (by rw [look_table_cons, hget]; exact hp) (look_nil _ _)
  cases hsame

/-- Different fields lead to different tables. -/
theorem Unshared.fields {h : Heap κ α} {b a : Nat} {j k : κ} {c d : Cell α} {p : List κ}
    (hunshared : h.Unshared (.table b)) (hj : h.get b j = some c) (hk : h.get b k = some d)
    (hne : j ≠ k) (hp : h.look d p = some (.table a)) : h.Avoids a c := by
  intro q hq
  have hsame := hunshared (j :: q) (k :: p) a
    (by rw [look_table_cons, hj]; exact hq) (by rw [look_table_cons, hk]; exact hp)
  exact hne (List.cons.inj hsame).1

theorem Within.step {h : Heap κ α} {b : Nat} {k : κ} {c : Cell α}
    (hwithin : h.Within (.table b)) (hget : h.get b k = some c) : h.Within c := by
  intro p a hp
  apply hwithin (k :: p) a
  rw [look_table_cons, hget]
  exact hp

theorem Kept.get {h h' : Heap κ α} (hkept : h.Kept h') {a : Nat} (ha : a < h.size) (k : κ) :
    h'.get a k = h.get a k := by
  have htable : h.tables[a]? = some h.tables[a] := List.getElem?_eq_getElem ha
  unfold Heap.get
  rw [htable, hkept a _ htable]

/-- Where the fields on the way are the same, the same is read. -/
theorem look_congr {h h' : Heap κ α} {c : Cell α}
    (hsame : ∀ p a, h.look c p = some (.table a) → ∀ k, h'.get a k = h.get a k) (q : List κ) :
    h'.look c q = h.look c q := by
  induction q generalizing c with
  | nil => rw [look_nil, look_nil]
  | cons k q ih =>
    cases c with
    | scalar v => rfl
    | table a =>
      rw [look_table_cons, look_table_cons, hsame [] a (look_nil _ _)]
      cases hget : h.get a k with
      | none => rfl
      | some d =>
        apply ih
        intro p b hp
        apply hsame (k :: p) b
        rw [look_table_cons, hget]
        exact hp

theorem Kept.look {h h' : Heap κ α} (hkept : h.Kept h') {c : Cell α} (hwithin : h.Within c)
    (p : List κ) : h'.look c p = h.look c p :=
  look_congr (fun q a hq => hkept.get (hwithin q a hq)) p

theorem Kept.within {h h' : Heap κ α} (hkept : h.Kept h') {c : Cell α} (hwithin : h.Within c) :
    h'.Within c := by
  intro p a hp
  rw [hkept.look hwithin] at hp
  exact Nat.lt_of_lt_of_le (hwithin p a hp) hkept.size_le

/-! ## Assignment -/

theorem size_set (h : Heap κ α) (a : Nat) (k : κ) (c : Cell α) : (h.set a k c).size = h.size :=
  List.length_modify _ _ _

theorem get_new (h : Heap κ α) (b : Nat) (j : κ) : h.new.get b j = h.get b j := by
  unfold get new
  dsimp only
  rcases Nat.lt_trichotomy b h.tables.length with hlt | heq | hgt
  · rw [List.getElem?_append_left hlt]
  · rw [heq, List.getElem?_concat_length, List.getElem?_eq_none (Nat.le_refl _)]
    rfl
  · rw [List.getElem?_eq_none (Nat.le_of_lt hgt), List.getElem?_eq_none]
    rw [List.length_append]
    exact hgt

theorem get_size (h : Heap κ α) {b : Nat} (hb : h.size ≤ b) (j : κ) : h.get b j = none := by
  unfold get
  rw [List.getElem?_eq_none hb]
  rfl

theorem get_set (h : Heap κ α) {a : Nat} (ha : a < h.size) (k : κ) (c : Cell α) (b : Nat)
    (j : κ) : (h.set a k c).get b j = if b = a ∧ j = k then some c else h.get b j := by
  unfold get set
  dsimp only
  rw [List.getElem?_modify]
  by_cases hb : a = b
  · subst hb
    have htable : h.tables[a]? = some h.tables[a] := List.getElem?_eq_getElem ha
    rw [htable]
    by_cases hj : j = k
    · subst hj
      simp
    · simp [hj, AList.lookup_insert_ne]
  · have hb' : ¬ b = a := fun heq => hb heq.symm
    simp [hb, hb']

/-- Reading goes on as before where the table is not met. -/
theorem look_set_of_avoids {h : Heap κ α} {a : Nat} (ha : a < h.size) {k : κ} {x c : Cell α}
    (havoids : h.Avoids a c) (q : List κ) : (h.set a k x).look c q = h.look c q := by
  apply look_congr
  intro p b hp j
  have hb : b ≠ a := by
    rintro rfl
    exact havoids p hp
  rw [get_set h ha, if_neg fun hboth => hb hboth.1]

/-- A table whose fields do not lead back to it, after an assignment to it. -/
theorem look_set_self {h : Heap κ α} {a : Nat} (ha : a < h.size)
    (hunshared : h.Unshared (.table a)) (k : κ) (x : Cell α) (j : κ) (q : List κ) :
    (h.set a k x).look (.table a) (j :: q) =
      if j = k then (h.set a k x).look x q else h.look (.table a) (j :: q) := by
  rw [look_table_cons, look_table_cons, get_set h ha]
  by_cases hj : j = k
  · rw [if_pos ⟨rfl, hj⟩, if_pos hj]
    rfl
  · rw [if_neg fun hboth => hj hboth.2, if_neg hj]
    cases hget : h.get a j with
    | none => rfl
    | some d => exact look_set_of_avoids ha (hunshared.avoids_self hget) q

/-- The other tables stay. -/
theorem table_set {h : Heap κ α} {a b : Nat} (hb : b ≠ a) (k : κ) (c : Cell α) :
    (h.set a k c).tables[b]? = h.tables[b]? := by
  show (h.tables.modify a fun t => t.insert k c)[b]? = h.tables[b]?
  rw [List.getElem?_modify]
  simp [hb.symm]

/-- A table outside of the old ones may be assigned to. -/
theorem Kept.set {h h' : Heap κ α} (hkept : h.Kept h') {a : Nat} (ha : h.size ≤ a) (k : κ)
    (c : Cell α) : h.Kept (h'.set a k c) := by
  intro b t ht
  have hb : b ≠ a := by
    rintro rfl
    exact absurd (List.getElem?_eq_some_iff.mp ht).1 (Nat.not_lt.mpr ha)
  rw [table_set hb]
  exact hkept b t ht

end Heap

end Xcom.Table
