import Mathlib.Data.List.Basic

/-!
# First items of a tagged stream

In a stream whose items carry tags, a mark stands immediately before the first item of each
tag, and nowhere else.
-/

namespace Transition

universe u v

variable {τ : Type u} {β : Type v} [DecidableEq τ]

/-- The items of a tagged stream with the mark of each tag before its first item; the tags
in `seen` have had theirs. -/
def marked (mark : τ → List β) : List τ → List (τ × β) → List β
  | _, [] => []
  | seen, (t, b) :: rest =>
    if t ∈ seen then b :: marked mark seen rest
    else mark t ++ b :: marked mark (t :: seen) rest

variable {mark : τ → List β} {seen : List τ} {t : τ}

theorem marked_cons (b : β) (rest : List (τ × β)) : marked mark seen ((t, b) :: rest) =
    if t ∈ seen then b :: marked mark seen rest
    else mark t ++ b :: marked mark (t :: seen) rest := rfl

/-- Only which tags are seen matters. -/
theorem marked_congr {seen' : List τ} (h : ∀ t, t ∈ seen ↔ t ∈ seen') (items : List (τ × β)) :
    marked mark seen items = marked mark seen' items := by
  induction items generalizing seen seen' with
  | nil => rfl
  | cons item rest ih =>
    obtain ⟨t, b⟩ := item
    have hcons : ∀ r, r ∈ t :: seen ↔ r ∈ t :: seen' := by
      intro r
      rw [List.mem_cons, List.mem_cons, h r]
    by_cases ht : t ∈ seen
    · rw [marked_cons, marked_cons, if_pos ht, if_pos ((h t).mp ht), ih h]
    · rw [marked_cons, marked_cons, if_neg ht, if_neg fun ht' => ht ((h t).mpr ht'), ih hcons]

/-- The marks of the tags that occur. -/
theorem marked_congr_mark {mark' : τ → List β} {items : List (τ × β)}
    (h : ∀ t ∈ items.map Prod.fst, mark t = mark' t) :
    marked mark seen items = marked mark' seen items := by
  induction items generalizing seen with
  | nil => rfl
  | cons item rest ih =>
    obtain ⟨t, b⟩ := item
    have hrest : ∀ r ∈ rest.map Prod.fst, mark r = mark' r :=
      fun r hr => h r (List.mem_cons_of_mem t hr)
    rw [marked_cons, marked_cons, ih hrest, ih hrest, h t List.mem_cons_self]

theorem marked_append (items items' : List (τ × β)) :
    marked mark seen (items ++ items') =
      marked mark seen items ++ marked mark (items.map Prod.fst ++ seen) items' := by
  induction items generalizing seen with
  | nil => rfl
  | cons item rest ih =>
    obtain ⟨t, b⟩ := item
    rw [List.cons_append, marked_cons, marked_cons]
    by_cases ht : t ∈ seen
    · have hseen : ∀ r, r ∈ rest.map Prod.fst ++ seen ↔
          r ∈ ((t, b) :: rest).map Prod.fst ++ seen := by
        intro r
        constructor
        · exact fun hr => List.mem_cons_of_mem t hr
        · rintro (_ | ⟨_, hr⟩)
          · exact List.mem_append_right _ ht
          · exact hr
      rw [if_pos ht, if_pos ht, ih, List.cons_append, marked_congr hseen]
    · have hseen : ∀ r, r ∈ rest.map Prod.fst ++ t :: seen ↔
          r ∈ ((t, b) :: rest).map Prod.fst ++ seen := by
        intro r
        rw [List.mem_append, List.mem_cons, List.map_cons, List.cons_append, List.mem_cons,
          List.mem_append]
        exact or_left_comm
      rw [if_neg ht, if_neg ht, ih, List.append_assoc, List.cons_append, marked_congr hseen]

/-- A block of a tag that has been seen. -/
theorem marked_block_seen (ht : t ∈ seen) (block : List β) :
    marked mark seen (block.map (Prod.mk t)) = block := by
  induction block with
  | nil => rfl
  | cons b block ih =>
    rw [List.map_cons, marked_cons, if_pos ht, ih]

/-- The first block of a tag has the mark before it. -/
theorem marked_block_new (ht : t ∉ seen) {block : List β} (hblock : block ≠ []) :
    marked mark seen (block.map (Prod.mk t)) = mark t ++ block := by
  cases block with
  | nil => exact absurd rfl hblock
  | cons b block =>
    rw [List.map_cons, marked_cons, if_neg ht, marked_block_seen List.mem_cons_self]

end Transition
