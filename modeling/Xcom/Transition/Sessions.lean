import Mathlib.Data.List.Chain

/-!
# A rising counter read in sessions

A counter that never falls is read from time to time.  Each reading belongs to a session,
and some readings are told.  A session is told the rise from the last reading before it to
the last of its readings that is told.  The sessions together are told the whole rise
exactly when every rise is told within the session that saw it.
-/

namespace Transition

universe u

variable {κ : Type u}

/-- One reading, and whether it is told. -/
structure Reading (κ : Type u) where
  session : κ
  value : ℤ
  told : Bool
  deriving DecidableEq, Repr

/-- What is kept along the readings: the present session, the value before it, the last
value read, the last value told in the session, and what the sessions before were told. -/
structure Tally (κ : Type u) where
  session : κ
  before : ℤ
  last : ℤ
  told : ℤ
  ended : ℤ
  deriving DecidableEq, Repr

namespace Tally

/-- Behind the first reading. -/
def first (r : Reading κ) : Tally κ :=
  { session := r.session, before := r.value, last := r.value, told := r.value, ended := 0 }

/-- A reading of another session ends the present one. -/
def enter [DecidableEq κ] (t : Tally κ) (session : κ) : Tally κ :=
  if session = t.session then t
  else
    { t with
      session := session, before := t.last, told := t.last
      ended := t.ended + (t.told - t.before) }

def read [DecidableEq κ] (t : Tally κ) (r : Reading κ) : Tally κ :=
  let t := t.enter r.session
  { t with last := r.value, told := if r.told then r.value else t.told }

/-- What the sessions were told so far. -/
def total (t : Tally κ) : ℤ := t.ended + (t.told - t.before)

/-- A tally in the middle of its readings. -/
structure Ordered (t : Tally κ) : Prop where
  told : t.before ≤ t.told
  last : t.told ≤ t.last

theorem ordered_first (r : Reading κ) : (first r).Ordered := ⟨Int.le_refl _, Int.le_refl _⟩

end Tally

/-- A reading of the session that `rs` begin with is told. -/
def ToldIn [DecidableEq κ] (session : κ) (rs : List (Reading κ)) : Prop :=
  ∃ r ∈ rs.takeWhile (·.session = session), r.told = true

instance [DecidableEq κ] (session : κ) (rs : List (Reading κ)) : Decidable (ToldIn session rs) :=
  inferInstanceAs (Decidable (∃ r ∈ rs.takeWhile (·.session = session), r.told = true))

/-- Every rise, from the value before the readings on, is told in the session that saw it. -/
def RisesTold [DecidableEq κ] : ℤ → List (Reading κ) → Prop
  | _, [] => True
  | v, r :: rs => (v < r.value → ToldIn r.session (r :: rs)) ∧ RisesTold r.value rs

instance decidableRisesTold [DecidableEq κ] :
    ∀ v (rs : List (Reading κ)), Decidable (RisesTold v rs)
  | _, [] => .isTrue trivial
  | v, r :: rs =>
    have := decidableRisesTold r.value rs
    inferInstanceAs (Decidable ((v < r.value → ToldIn r.session (r :: rs)) ∧ _))

/-- The counter does not fall. -/
def Rising : ℤ → List (Reading κ) → Prop
  | _, [] => True
  | v, r :: rs => v ≤ r.value ∧ Rising r.value rs

instance decidableRising : ∀ v (rs : List (Reading κ)), Decidable (Rising v rs)
  | _, [] => .isTrue trivial
  | v, r :: rs =>
    have := decidableRising r.value rs
    inferInstanceAs (Decidable (v ≤ r.value ∧ Rising r.value rs))

/-- The last value read. -/
def lastValue (v : ℤ) (rs : List (Reading κ)) : ℤ := (rs.getLast?.map (·.value)).getD v

theorem lastValue_cons (v : ℤ) (r : Reading κ) (rs : List (Reading κ)) :
    lastValue v (r :: rs) = lastValue r.value rs := by
  cases rs with
  | nil => rfl
  | cons r' rs =>
    rw [lastValue, lastValue, List.getLast?_cons_cons]
    rfl

section Telling

variable [DecidableEq κ]

theorem not_toldIn_nil (session : κ) : ¬ ToldIn session [] := by
  rintro ⟨r, hr, -⟩
  cases hr

theorem toldIn_cons_of_eq {session : κ} {r : Reading κ} (h : r.session = session)
    (rs : List (Reading κ)) :
    ToldIn session (r :: rs) ↔ r.told = true ∨ ToldIn session rs := by
  simp [ToldIn, h]

theorem not_toldIn_cons {session : κ} {r : Reading κ} (h : r.session ≠ session)
    (rs : List (Reading κ)) : ¬ ToldIn session (r :: rs) := by
  simp [ToldIn, h]

namespace Tally

theorem Ordered.enter {t : Tally κ} (h : t.Ordered) (session : κ) : (t.enter session).Ordered := by
  by_cases hsame : session = t.session
  · rw [Tally.enter, if_pos hsame]
    exact h
  · rw [Tally.enter, if_neg hsame]
    exact ⟨Int.le_refl _, Int.le_refl _⟩

theorem enter_last (t : Tally κ) (session : κ) : (t.enter session).last = t.last := by
  by_cases hsame : session = t.session
  · rw [Tally.enter, if_pos hsame]
  · rw [Tally.enter, if_neg hsame]

theorem enter_session (t : Tally κ) (session : κ) : (t.enter session).session = session := by
  by_cases hsame : session = t.session
  · rw [Tally.enter, if_pos hsame, hsame]
  · rw [Tally.enter, if_neg hsame]

theorem Ordered.read {t : Tally κ} (h : t.Ordered) {r : Reading κ} (hr : t.last ≤ r.value) :
    (t.read r).Ordered := by
  have hin := h.enter r.session
  have hlast := t.enter_last r.session
  cases htold : r.told with
  | true =>
    have hbefore := Int.le_trans hin.told hin.last
    simp only [Tally.read, htold, if_true]
    exact ⟨by dsimp only; omega, Int.le_refl _⟩
  | false =>
    simp only [Tally.read, htold, Bool.false_eq_true, if_false]
    exact ⟨hin.told, by have := hin.last; dsimp only; omega⟩

/-- What the sessions are told is at most the rise, and all of it exactly when what is not
told yet, and each later rise, is told within its session.  By induction on the readings. -/
theorem total_foldl {t : Tally κ} (ht : t.Ordered) {rs : List (Reading κ)}
    (hrs : Rising t.last rs) :
    (rs.foldl read t).total ≤ t.ended + (lastValue t.last rs - t.before) ∧
      ((rs.foldl read t).total = t.ended + (lastValue t.last rs - t.before) ↔
        (t.told < t.last → ToldIn t.session rs) ∧ RisesTold t.last rs) := by
  induction rs generalizing t with
  | nil =>
    have hle := ht.last
    have hnone := not_toldIn_nil t.session
    simp only [List.foldl_nil, total, lastValue, List.getLast?_nil, Option.map_none,
      Option.getD_none, RisesTold, and_true, hnone, imp_false, Int.not_lt]
    omega
  | cons r rs ih =>
    obtain ⟨hrise, hrest⟩ := hrs
    have hread := ih (ht.read hrise) hrest
    have hlast : (t.read r).last = r.value := rfl
    have hsession : (t.read r).session = r.session := t.enter_session r.session
    rw [hlast, hsession] at hread
    rw [List.foldl_cons, lastValue_cons, RisesTold]
    obtain ⟨hbound, hiff⟩ := hread
    by_cases hsame : r.session = t.session
    · -- the session goes on
      have hkept : (t.read r).ended = t.ended ∧ (t.read r).before = t.before ∧
          (t.read r).told = if r.told then r.value else t.told := by
        simp [Tally.read, Tally.enter, hsame]
      obtain ⟨hended, hbefore, htold⟩ := hkept
      rw [hended, hbefore] at hbound hiff
      refine ⟨hbound, hiff.trans ?_⟩
      rw [htold, toldIn_cons_of_eq rfl, hsame, toldIn_cons_of_eq hsame]
      have hle := ht.last
      cases r.told with
      | true => simp
      | false =>
        simp only [Bool.false_eq_true, if_false, false_or]
        constructor
        · rintro ⟨htell, hrises⟩
          exact ⟨fun h => htell (by omega), fun h => htell (by omega), hrises⟩
        · rintro ⟨htell, htell', hrises⟩
          refine ⟨fun h => ?_, hrises⟩
          by_cases hlt : t.told < t.last
          · exact htell hlt
          · exact htell' (by omega)
    · -- the session ends with what it was told
      have hopened : (t.read r).ended = t.ended + (t.told - t.before) ∧
          (t.read r).before = t.last ∧
          (t.read r).told = if r.told then r.value else t.last := by
        simp [Tally.read, Tally.enter, hsame]
      obtain ⟨hended, hbefore, htold⟩ := hopened
      rw [hended, hbefore] at hbound hiff
      have hle := ht.last
      refine ⟨by omega, ?_⟩
      have hnone : ¬ ToldIn t.session (r :: rs) := not_toldIn_cons hsame rs
      rw [htold] at hiff
      constructor
      · intro heq
        have hall : t.told = t.last := by omega
        obtain ⟨htell, hrises⟩ := hiff.mp (by omega)
        refine ⟨fun h => by omega, fun h => ?_, hrises⟩
        rw [toldIn_cons_of_eq rfl]
        cases hr : r.told with
        | true => exact .inl rfl
        | false =>
          rw [hr] at htell
          exact .inr (htell (by simpa using h))
      · rintro ⟨htell, htell', hrises⟩
        have hall : t.told = t.last := by
          by_contra hne
          exact hnone (htell (by omega))
        have htold' : (if r.told then r.value else t.last) < r.value →
            ToldIn r.session rs := by
          intro h
          rw [toldIn_cons_of_eq rfl] at htell'
          cases hr : r.told with
          | true =>
            rw [hr, if_pos rfl] at h
            omega
          | false =>
            rw [hr, if_neg (by decide)] at h
            rw [hr] at htell'
            exact (htell' h).resolve_left (by decide)
        have hexact := hiff.mpr ⟨htold', hrises⟩
        omega

end Tally

/-- The sessions are told the rise from the first reading to the last exactly when every
rise is told in its session. -/
theorem total_eq_iff (r : Reading κ) {rs : List (Reading κ)} (hrs : Rising r.value rs) :
    (rs.foldl Tally.read (Tally.first r)).total = lastValue r.value rs - r.value ↔
      RisesTold r.value rs := by
  have hall := (Tally.total_foldl (Tally.ordered_first r) hrs).2
  simpa [Tally.first] using hall

end Telling

end Transition
