import Mathlib.Data.List.Nodup

/-!
# The most recent items of a stream

A list of bounded length that keeps the items of a stream without repetition, the most
recent one first: a new item moves to the front.
-/

namespace Recency

variable {α : Type} [DecidableEq α]

/-- The items without repetition, cut to `cap`; the most recent one is the first. -/
def recents (cap : Nat) (items : List α) : List α := items.eraseDups.take cap

/-- A new item at the front, and no older occurrence of it. -/
def moveToFront (cap : Nat) (kept : List α) (x : α) : List α :=
  (x :: kept.filter (· ≠ x)).take cap

/-! ## Items without repetition -/

theorem eraseDups_cons (x : α) (items : List α) :
    (x :: items).eraseDups = x :: (items.filter (· ≠ x)).eraseDups := by
  have hsame : (items.filter fun y => !y == x) = items.filter (· ≠ x) := by
    apply List.filter_congr
    intro y _
    by_cases hy : y = x <;> simp [hy]
  rw [List.eraseDups_cons, hsame]

theorem filter_ne_of_not_mem {items : List α} {x : α} (h : x ∉ items) :
    items.filter (· ≠ x) = items := by
  apply List.filter_eq_self.mpr
  intro y hy
  have hne : y ≠ x := fun heq => h (heq ▸ hy)
  simpa using hne

theorem filter_eraseDups (p : α → Bool) (items : List α) :
    (items.filter p).eraseDups = items.eraseDups.filter p := by
  match items with
  | [] => rfl
  | x :: items =>
    have hrest := filter_eraseDups p (items.filter (· ≠ x))
    by_cases hx : p x = true
    · have hswap : (items.filter p).filter (· ≠ x) = (items.filter (· ≠ x)).filter p :=
        List.filter_comm _ _ _
      rw [List.filter_cons_of_pos hx, eraseDups_cons, eraseDups_cons,
        List.filter_cons_of_pos hx, hswap, hrest]
    · -- The items that `p` leaves are none that equals `x`.
      have hsame : (items.filter (· ≠ x)).filter p = items.filter p := by
        rw [List.filter_filter]
        apply List.filter_congr
        intro y _
        by_cases hy : y = x <;> simp [hy, hx]
      rw [List.filter_cons_of_neg hx, eraseDups_cons, List.filter_cons_of_neg hx, ← hrest,
        hsame]
termination_by items.length
decreasing_by exact Nat.lt_succ_of_le (List.length_filter_le _ items)

theorem nodup_eraseDups (items : List α) : items.eraseDups.Nodup := by
  match items with
  | [] => exact List.nodup_nil
  | x :: items =>
    rw [eraseDups_cons]
    apply List.nodup_cons.mpr
    exact ⟨by simp, nodup_eraseDups (items.filter (· ≠ x))⟩
termination_by items.length
decreasing_by exact Nat.lt_succ_of_le (List.length_filter_le _ items)

theorem eraseDups_of_nodup {items : List α} (h : items.Nodup) : items.eraseDups = items := by
  induction items with
  | nil => rfl
  | cons x items ih =>
    obtain ⟨hx, hitems⟩ := List.nodup_cons.mp h
    rw [eraseDups_cons, filter_ne_of_not_mem hx, ih hitems]

/-! ## The kept items -/

theorem nodup_recents (cap : Nat) (items : List α) : (recents cap items).Nodup :=
  (nodup_eraseDups items).sublist (List.take_sublist _ _)

theorem length_recents_le (cap : Nat) (items : List α) : (recents cap items).length ≤ cap :=
  List.length_take_le _ _

theorem mem_of_mem_recents {cap : Nat} {items : List α} {x : α} (h : x ∈ recents cap items) :
    x ∈ items :=
  List.mem_eraseDups.mp (List.mem_of_mem_take h)

/-- A list within the bound that repeats nothing is kept as it is. -/
theorem recents_of_nodup {cap : Nat} {items : List α} (h : items.Nodup)
    (hlen : items.length ≤ cap) : recents cap items = items := by
  rw [recents, eraseDups_of_nodup h, List.take_of_length_le hlen]

/-- An item that came before is not kept again. -/
theorem recents_append_mem {front : List α} {x : α} (h : x ∈ front) (cap : Nat)
    (rest : List α) : recents cap (front ++ x :: rest) = recents cap (front ++ rest) := by
  have hskip : (x :: rest).removeAll front = rest.removeAll front := by
    rw [List.removeAll, List.filter_cons_of_neg (by simpa using h)]
    rfl
  rw [recents, recents, List.eraseDups_append, List.eraseDups_append, hskip]

/-- Nothing is kept behind a full list. -/
theorem recents_append_full {cap : Nat} {front : List α} (h : front.Nodup)
    (hfull : front.length = cap) (rest : List α) : recents cap (front ++ rest) = front := by
  rw [recents, List.eraseDups_append, eraseDups_of_nodup h,
    List.take_append_of_le_length (Nat.le_of_eq hfull.symm),
    List.take_of_length_le (Nat.le_of_eq hfull)]

theorem length_filter_ne {kept : List α} (h : kept.Nodup) (x : α) :
    kept.length ≤ (kept.filter (· ≠ x)).length + 1 := by
  by_cases hx : x ∈ kept
  · have hsame : kept.filter (· ≠ x) = kept.erase x := by
      rw [h.erase_eq_filter]
      apply List.filter_congr
      intro y _
      by_cases hy : y = x <;> simp [hy]
    rw [hsame, List.length_erase_of_mem hx]
    omega
  · rw [filter_ne_of_not_mem hx]
    omega

/-- Taking one item out of what is kept leaves enough. -/
theorem take_filter_take {kept : List α} (h : kept.Nodup) (n : Nat) (x : α) :
    ((kept.take (n + 1)).filter (· ≠ x)).take n = (kept.filter (· ≠ x)).take n := by
  by_cases hshort : kept.length ≤ n + 1
  · rw [List.take_of_length_le hshort]
  · have hfront : n ≤ ((kept.take (n + 1)).filter (· ≠ x)).length := by
      have hle := length_filter_ne (h.sublist (List.take_sublist (n + 1) kept)) x
      rw [List.length_take] at hle
      omega
    conv_rhs => rw [← List.take_append_drop (n + 1) kept, List.filter_append]
    rw [List.take_append_of_le_length hfront]

/-- Moving items to the front keeps the most recent ones of the stream. -/
theorem moveToFront_recents (n : Nat) (items : List α) (x : α) :
    moveToFront (n + 1) (recents (n + 1) items) x = recents (n + 1) (x :: items) := by
  rw [moveToFront, recents, recents, eraseDups_cons, filter_eraseDups, List.take_succ_cons,
    List.take_succ_cons, take_filter_take (nodup_eraseDups items)]

/-- Only the item at the front can come again without a change. -/
theorem moveToFront_eq_self_iff {cap : Nat} {kept : List α} (h : kept.Nodup)
    (hlen : kept.length ≤ cap) (hcap : 0 < cap) (x : α) :
    moveToFront cap kept x = kept ↔ kept.head? = some x := by
  obtain ⟨n, rfl⟩ : ∃ n, cap = n + 1 := ⟨cap - 1, by omega⟩
  rw [moveToFront, List.take_succ_cons]
  constructor
  · intro heq
    rw [← heq]
    rfl
  · intro hhead
    obtain ⟨rest, rfl⟩ : ∃ rest, kept = x :: rest := by
      cases kept with
      | nil => cases hhead
      | cons y rest => exact ⟨rest, by rw [Option.some.inj hhead]⟩
    obtain ⟨hx, -⟩ := List.nodup_cons.mp h
    have hkeep : (x :: rest).filter (· ≠ x) = rest := by
      rw [List.filter_cons_of_neg (by simp), filter_ne_of_not_mem hx]
    rw [hkeep, List.take_of_length_le (by simpa using hlen)]

end Recency
