import Mathlib.Data.List.Infix

/-!
# Tokens of a fixed shape

A shape is a list of classes of symbols.  Tokens of a shape are erased from a text from the
left, and what is left of a text is not read again.  Where the first class shares no symbol
with the others, a token neither begins inside another one nor runs into it, and erasing the
tokens written between texts that hold none gives back the texts.
-/

namespace Shapes

variable {α : Type}

/-- A text begins with symbols of the classes, one behind the other. -/
def fits : List (α → Bool) → List α → Bool
  | [], _ => true
  | _ :: _, [] => false
  | p :: ps, x :: xs => p x && fits ps xs

/-- A text consists of symbols of the classes. -/
def isToken (shape : List (α → Bool)) (xs : List α) : Bool :=
  xs.length == shape.length && fits shape xs

/-- A token stands somewhere in a text. -/
def contains (shape : List (α → Bool)) (xs : List α) : Bool := xs.tails.any (fits shape)

/-- A text without its tokens, once `skip` symbols are passed over. -/
def erase (shape : List (α → Bool)) : Nat → List α → List α
  | _, [] => []
  | skip + 1, _ :: xs => erase shape skip xs
  | 0, x :: xs =>
    if fits shape (x :: xs) then erase shape (shape.length - 1) xs
    else x :: erase shape 0 xs

/-- The symbols of the first class are in none of the others. -/
def Headed (p : α → Bool) (ps : List (α → Bool)) : Prop :=
  ∀ q ∈ ps, ∀ a, p a = true → q a = false

variable {shape : List (α → Bool)} {p : α → Bool} {ps : List (α → Bool)}

/-! ## Reading -/

theorem fits_append {xs : List α} (h : fits shape xs = true) (ys : List α) :
    fits shape (xs ++ ys) = true := by
  induction shape generalizing xs with
  | nil => rfl
  | cons q qs ih =>
    cases xs with
    | nil => cases h
    | cons x xs =>
      obtain ⟨hx, hxs⟩ := Bool.and_eq_true_iff.mp h
      exact Bool.and_eq_true_iff.mpr ⟨hx, ih hxs⟩

theorem length_of_fits {xs : List α} (h : fits shape xs = true) : shape.length ≤ xs.length := by
  induction shape generalizing xs with
  | nil => exact Nat.zero_le _
  | cons q qs ih =>
    cases xs with
    | nil => cases h
    | cons x xs => exact Nat.succ_le_succ (ih (Bool.and_eq_true_iff.mp h).2)

/-- Only as many symbols are read as there are classes. -/
theorem fits_take {xs : List α} (h : fits shape xs = true) :
    fits shape (xs.take shape.length) = true := by
  induction shape generalizing xs with
  | nil => rfl
  | cons q qs ih =>
    cases xs with
    | nil => cases h
    | cons x xs =>
      obtain ⟨hx, hxs⟩ := Bool.and_eq_true_iff.mp h
      exact Bool.and_eq_true_iff.mpr ⟨hx, ih hxs⟩

/-- A token stops before a symbol that is in none of its classes. -/
theorem fits_before {xs ys : List α} {a : α} (ha : ∀ q ∈ shape, q a = false)
    (h : fits shape (xs ++ a :: ys) = true) : fits shape xs = true := by
  induction shape generalizing xs with
  | nil => rfl
  | cons q qs ih =>
    cases xs with
    | nil =>
      have hq := (Bool.and_eq_true_iff.mp h).1
      rw [ha q List.mem_cons_self] at hq
      cases hq
    | cons x xs =>
      obtain ⟨hx, hxs⟩ := Bool.and_eq_true_iff.mp h
      exact Bool.and_eq_true_iff.mpr ⟨hx, ih (fun q hq => ha q (.tail _ hq)) hxs⟩

theorem not_fits_of_contains {xs : List α} (h : contains shape xs = false) :
    fits shape xs = false := by
  cases xs <;> simp_all [contains]

theorem contains_of_cons {x : α} {xs : List α} (h : contains shape (x :: xs) = false) :
    contains shape xs = false := by
  simp_all [contains]

/-- What a text holds: a piece of it is a token. -/
theorem contains_iff {xs : List α} :
    contains shape xs = true ↔
      ∃ before token after, xs = before ++ token ++ after ∧ isToken shape token = true := by
  simp only [contains, List.any_eq_true, List.mem_tails]
  constructor
  · rintro ⟨tail, ⟨front, rfl⟩, hfits⟩
    have hlen := length_of_fits hfits
    refine ⟨front, tail.take shape.length, tail.drop shape.length, ?_, ?_⟩
    · rw [List.append_assoc, List.take_append_drop]
    · simp [isToken, fits_take hfits, hlen]
  · rintro ⟨front, token, after, rfl, htoken⟩
    refine ⟨token ++ after, ⟨front, (List.append_assoc _ _ _).symm⟩, ?_⟩
    exact fits_append (Bool.and_eq_true_iff.mp htoken).2 after

/-! ## Erasing -/

theorem erase_skip (skip : Nat) (xs : List α) :
    erase shape skip xs = erase shape 0 (xs.drop skip) := by
  induction skip generalizing xs with
  | zero => rfl
  | succ skip ih =>
    cases xs with
    | nil => rfl
    | cons x xs => rw [erase, ih, List.drop_succ_cons]

theorem erase_token {token : List α} (htoken : isToken (p :: ps) token = true) (xs : List α) :
    erase (p :: ps) 0 (token ++ xs) = erase (p :: ps) 0 xs := by
  obtain ⟨hlen, hfits⟩ := Bool.and_eq_true_iff.mp htoken
  replace hlen : token.length = ps.length + 1 := by simpa using hlen
  cases token with
  | nil => cases hlen
  | cons x token =>
    have hwhole : fits (p :: ps) (x :: (token ++ xs)) = true := fits_append hfits xs
    rw [List.cons_append, erase, if_pos hwhole, List.length_cons, Nat.add_sub_cancel,
      erase_skip, ← Nat.succ.inj hlen, List.drop_left]

/-- A text that holds no token is kept, up to where a token begins. -/
theorem erase_clean (hhead : Headed p ps) {xs rest : List α}
    (hclean : contains (p :: ps) xs = false) (hrest : ∀ a, rest.head? = some a → p a = true) :
    erase (p :: ps) 0 (xs ++ rest) = xs ++ erase (p :: ps) 0 rest := by
  induction xs with
  | nil => rfl
  | cons x xs ih =>
    have hno : fits (p :: ps) (x :: xs ++ rest) = false := by
      by_contra hfits
      rw [Bool.not_eq_false] at hfits
      have hwithin : fits (p :: ps) (x :: xs) = true := by
        cases rest with
        | nil => simpa using hfits
        | cons a rest =>
          -- The first symbol of the next token is in no later class.
          have ha : ∀ q ∈ ps, q a = false := fun q hq => hhead q hq a (hrest a rfl)
          obtain ⟨hx, hxs⟩ := Bool.and_eq_true_iff.mp hfits
          exact Bool.and_eq_true_iff.mpr ⟨hx, fits_before ha hxs⟩
      rw [not_fits_of_contains hclean] at hwithin
      cases hwithin
    rw [List.cons_append, erase, if_neg (by simpa using hno), ih (contains_of_cons hclean),
      List.cons_append]

/-- A text that holds no token is kept. -/
theorem erase_clean_all (hhead : Headed p ps) {xs : List α}
    (hclean : contains (p :: ps) xs = false) : erase (p :: ps) 0 xs = xs := by
  have hkept : erase (p :: ps) 0 (xs ++ []) = xs ++ erase (p :: ps) 0 [] :=
    erase_clean hhead hclean nofun
  simpa [erase] using hkept

/-- Erasing undoes the writing of a token before each text. -/
theorem erase_written (hhead : Headed p ps) {pieces : List (List α × List α)}
    (h : ∀ piece ∈ pieces,
      isToken (p :: ps) piece.1 = true ∧ contains (p :: ps) piece.2 = false) :
    erase (p :: ps) 0 (pieces.flatMap fun piece => piece.1 ++ piece.2) =
      pieces.flatMap Prod.snd := by
  induction pieces with
  | nil => rfl
  | cons piece pieces ih =>
    obtain ⟨htoken, hclean⟩ := h piece List.mem_cons_self
    have hrest := ih fun piece hp => h piece (.tail _ hp)
    have hnext : ∀ a, (pieces.flatMap fun piece => piece.1 ++ piece.2).head? = some a →
        p a = true := by
      intro a ha
      cases pieces with
      | nil => cases ha
      | cons next pieces =>
        have hfits := (Bool.and_eq_true_iff.mp (h next (.tail _ (.head _))).1).2
        cases htext : next.1 with
        | nil =>
          rw [htext] at hfits
          cases hfits
        | cons x token =>
          rw [htext] at hfits
          rw [List.flatMap_cons, htext] at ha
          obtain rfl : x = a := by simpa using ha
          exact (Bool.and_eq_true_iff.mp hfits).1
    rw [List.flatMap_cons, List.flatMap_cons, List.append_assoc, erase_token htoken,
      erase_clean hhead hclean hnext, hrest]

end Shapes
