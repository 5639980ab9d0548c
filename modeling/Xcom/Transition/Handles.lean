import Mathlib.Data.List.Nodup
import Mathlib.Logic.Function.Basic

/-!
# Numbers that are opened and closed

A table gives numbers to what is opened and takes them back when it is closed, so a number
may be used again.  Every opening has a serial number of its own; what each close hit is
kept.  As long as every close hits something open, each opening is open or was closed, once.
-/

namespace Transition

/-- The table, the openings so far, and what the closes hit, the newest first. -/
structure Handles where
  table : Nat → Option Nat := fun _ => none
  opened : Nat := 0
  closed : List (Option Nat) := []

namespace Handles

/-- An opening under the number `n`. -/
def openAt (h : Handles) (n : Nat) : Handles :=
  { h with table := Function.update h.table n (some h.opened), opened := h.opened + 1 }

/-- A close of the number `n`. -/
def close (h : Handles) (n : Nat) : Handles :=
  { h with table := Function.update h.table n none, closed := h.table n :: h.closed }

/-- The number is in use. -/
def IsOpen (h : Handles) (n : Nat) : Prop := (h.table n).isSome

/-- Every close hit something open, and each opening is open or was closed, once. -/
structure Balanced (h : Handles) : Prop where
  fresh : ∀ n k, h.table n = some k → k < h.opened
  apart : ∀ m n k, h.table m = some k → h.table n = some k → m = n
  hit : ∀ c ∈ h.closed, ∃ k, c = some k ∧ k < h.opened
  once : h.closed.Nodup
  gone : ∀ n k, h.table n = some k → some k ∉ h.closed
  all : ∀ k, k < h.opened → some k ∈ h.closed ∨ ∃ n, h.table n = some k

variable {h : Handles} {n m : Nat}

theorem balanced_empty : Balanced {} :=
  ⟨nofun, nofun, nofun, List.nodup_nil, nofun, fun _ hk => absurd hk (Nat.not_lt_zero _)⟩

theorem isOpen_openAt : (h.openAt n).IsOpen m ↔ m = n ∨ h.IsOpen m := by
  rw [IsOpen, IsOpen, openAt]
  dsimp only
  by_cases hm : m = n
  · simp [hm]
  · simp [hm]

theorem isOpen_close : (h.close n).IsOpen m ↔ m ≠ n ∧ h.IsOpen m := by
  rw [IsOpen, IsOpen, close]
  dsimp only
  by_cases hm : m = n
  · simp [hm]
  · simp [hm]

theorem Balanced.openAt (hb : Balanced h) (hfree : ¬h.IsOpen n) : Balanced (h.openAt n) := by
  have hnew : ∀ m k, (h.openAt n).table m = some k →
      (m = n ∧ k = h.opened) ∨ (m ≠ n ∧ h.table m = some k) := by
    intro m k hk
    dsimp only [Handles.openAt] at hk
    by_cases hm : m = n
    · subst hm
      rw [Function.update_self] at hk
      exact .inl ⟨rfl, (Option.some.inj hk).symm⟩
    · rw [Function.update_of_ne hm] at hk
      exact .inr ⟨hm, hk⟩
  refine ⟨?_, ?_, ?_, hb.once, ?_, ?_⟩
  · intro m k hk
    rcases hnew m k hk with ⟨_, rfl⟩ | ⟨_, hold⟩
    · exact Nat.lt_succ_self _
    · exact Nat.lt_succ_of_lt (hb.fresh m k hold)
  · intro a b k ha hb'
    rcases hnew a k ha with ⟨rfl, rfl⟩ | ⟨_, holda⟩
    · rcases hnew b _ hb' with ⟨rfl, _⟩ | ⟨_, holdb⟩
      · rfl
      · exact absurd (hb.fresh b _ holdb) (Nat.lt_irrefl _)
    · rcases hnew b k hb' with ⟨rfl, rfl⟩ | ⟨_, holdb⟩
      · exact absurd (hb.fresh a _ holda) (Nat.lt_irrefl _)
      · exact hb.apart a b k holda holdb
  · intro c hc
    obtain ⟨k, rfl, hk⟩ := hb.hit c hc
    exact ⟨k, rfl, Nat.lt_succ_of_lt hk⟩
  · intro m k hk hmem
    rcases hnew m k hk with ⟨_, rfl⟩ | ⟨_, hold⟩
    · obtain ⟨j, hj, hlt⟩ := hb.hit _ hmem
      cases hj
      exact Nat.lt_irrefl _ hlt
    · exact hb.gone m k hold hmem
  · intro k hk
    rcases Nat.lt_succ_iff_lt_or_eq.mp hk with hlt | rfl
    · rcases hb.all k hlt with hclosed | ⟨m, hm⟩
      · exact .inl hclosed
      · have hne : m ≠ n := by
          rintro rfl
          exact hfree (by rw [IsOpen, hm]; rfl)
        refine .inr ⟨m, ?_⟩
        dsimp only [Handles.openAt]
        rw [Function.update_of_ne hne, hm]
    · exact .inr ⟨n, Function.update_self _ _ _⟩

theorem Balanced.close (hb : Balanced h) (hopen : h.IsOpen n) : Balanced (h.close n) := by
  obtain ⟨j, hj⟩ := Option.isSome_iff_exists.mp hopen
  have hold : ∀ m k, (h.close n).table m = some k → m ≠ n ∧ h.table m = some k := by
    intro m k hk
    dsimp only [Handles.close] at hk
    by_cases hm : m = n
    · rw [hm, Function.update_self] at hk
      cases hk
    · rw [Function.update_of_ne hm] at hk
      exact ⟨hm, hk⟩
  refine ⟨?_, ?_, ?_, ?_, ?_, ?_⟩
  · exact fun m k hk => hb.fresh m k (hold m k hk).2
  · exact fun a b k ha hb' => hb.apart a b k (hold a k ha).2 (hold b k hb').2
  · intro c hc
    rcases List.mem_cons.mp hc with rfl | hc
    · exact ⟨j, hj, hb.fresh n j hj⟩
    · exact hb.hit c hc
  · refine List.nodup_cons.mpr ⟨?_, hb.once⟩
    rw [hj]
    exact hb.gone n j hj
  · intro m k hk hmem
    obtain ⟨hne, hwas⟩ := hold m k hk
    rcases List.mem_cons.mp hmem with hsame | hmem
    · exact hne (hb.apart m n k hwas hsame.symm)
    · exact hb.gone m k hwas hmem
  · intro k hk
    rcases hb.all k hk with hclosed | ⟨m, hm⟩
    · exact .inl (List.mem_cons_of_mem _ hclosed)
    · by_cases hmn : m = n
      · refine .inl ?_
        rw [← hm, hmn]
        exact List.mem_cons_self
      · refine .inr ⟨m, ?_⟩
        dsimp only [Handles.close]
        rw [Function.update_of_ne hmn, hm]

end Handles

end Transition
