import Xcom.Script.Console
import Mathlib.Data.Nat.Bitwise

/-!
# The events of the console over a run

The index of a script shares its bits with the type of the event and the mark of Ctrl+S.
-/

namespace Xcom.Script.Console

/-! ## One event -/

/-- The bridge reads what was raised. -/
structure Agrees (e : Raised) (t : Taken) : Prop where
  type : t.type = e.type
  index : ∀ i, e.index = some i → t.index = i
  flag : t.flag = true ↔ e = .save

/-- The index of the event fits into the byte it has, and leaves the mark of Ctrl+S alone. -/
def Raised.Fits (e : Raised) : Prop := ∀ i, e.index = some i → i < 256 ∧ i.testBit 6 = false

/-- What became of an event is what was raised. -/
def Right (e : Raised) : Outcome → Prop
  | .saved => e = .save
  | .taken t => Agrees e t

theorem pack_type (type low : Nat) :
    (type <<< 8 ||| low) >>> 8 = type ||| low >>> 8 := by
  rw [Nat.shiftRight_or_distrib, Nat.shiftLeft_shiftRight]

theorem pack_index (type low : Nat) : (type <<< 8 ||| low) &&& 0xFF = low % 256 := by
  have hmask : ∀ n : Nat, n &&& 0xFF = n % 256 := fun n => Nat.and_two_pow_sub_one_eq_mod n 8
  have hshift : type <<< 8 % 2 ^ 8 = 0 := by
    rw [Nat.shiftLeft_eq]
    exact Nat.mul_mod_left _ _
  rw [hmask, show (256 : Nat) = 2 ^ 8 from rfl, Nat.or_mod_two_pow, hshift, Nat.zero_or]

theorem pack_flag (type low : Nat) :
    (type <<< 8 ||| low) &&& 0x40 ≠ 0 ↔ low.testBit 6 = true := by
  have hbit : (type <<< 8 ||| low).testBit 6 = low.testBit 6 := by
    rw [Nat.testBit_or, Nat.testBit_shiftLeft]
    simp
  rw [show (0x40 : Nat) = 2 ^ 6 from rfl, Nat.and_two_pow, hbit]
  cases low.testBit 6 <;> simp

theorem ofPacked_type (e : Raised) :
    (Taken.ofPacked e.pack).type = e.type ||| e.low >>> 8 := pack_type _ _

theorem ofPacked_index (e : Raised) : (Taken.ofPacked e.pack).index = e.low % 256 :=
  pack_index _ _

theorem ofPacked_flag (e : Raised) :
    (Taken.ofPacked e.pack).flag = true ↔ e.low.testBit 6 = true := by
  rw [← pack_flag e.type e.low]
  exact decide_eq_true_iff

/-- An event about a script carries its index, a save the mark, the others nothing. -/
theorem low_cases (e : Raised) :
    (∃ i, e.index = some i ∧ e.low = i ∧ e ≠ .save) ∨
      e.index = none ∧ (e.low = saveFlag ∧ e = .save ∨ e.low = 0 ∧ e ≠ .save) := by
  cases e with
  | select i => exact .inl ⟨i, rfl, rfl, by simp⟩
  | reload i => exact .inl ⟨i, rfl, rfl, by simp⟩
  | save => exact .inr ⟨rfl, .inl ⟨rfl, rfl⟩⟩
  | clearLog => exact .inr ⟨rfl, .inr ⟨rfl, by simp⟩⟩
  | newScript => exact .inr ⟨rfl, .inr ⟨rfl, by simp⟩⟩
  | openFolder => exact .inr ⟨rfl, .inr ⟨rfl, by simp⟩⟩

/-- An event is read as raised exactly where its index fits. -/
theorem agrees_iff (e : Raised) : Agrees e (.ofPacked e.pack) ↔ e.Fits := by
  rcases low_cases e with ⟨i, hindex, hlow, hother⟩ | ⟨hindex, hlow⟩
  · constructor
    · intro h j hj
      have hread := h.index j hj
      rw [ofPacked_index, hlow] at hread
      have hsame : j = i := Option.some.inj (hj.symm.trans hindex)
      subst hsame
      refine ⟨by omega, ?_⟩
      rw [Bool.eq_false_iff]
      intro hbit
      exact hother (h.flag.mp ((ofPacked_flag e).mpr (hlow ▸ hbit)))
    · intro h
      obtain ⟨hlt, hbit⟩ := h i hindex
      constructor
      · have hhigh : i >>> 8 = 0 := by
          rw [Nat.shiftRight_eq_div_pow]
          exact Nat.div_eq_of_lt hlt
        rw [ofPacked_type, hlow, hhigh, Nat.or_zero]
      · intro j hj
        rw [ofPacked_index, hlow, Nat.mod_eq_of_lt hlt]
        exact Option.some.inj (hindex.symm.trans hj)
      · rw [ofPacked_flag, hlow, hbit]
        constructor
        · intro hfalse
          cases hfalse
        · exact fun hsave => absurd hsave hother
  · constructor
    · intro _ j hj
      rw [hindex] at hj
      cases hj
    · intro _
      refine ⟨?_, ?_, ?_⟩
      · rw [ofPacked_type]
        rcases hlow with ⟨hlow, -⟩ | ⟨hlow, -⟩
        · rw [hlow]
          exact Nat.or_zero _
        · rw [hlow]
          exact Nat.or_zero _
      · intro j hj
        rw [hindex] at hj
        cases hj
      · rw [ofPacked_flag]
        rcases hlow with ⟨hlow, hsave⟩ | ⟨hlow, hsave⟩
        · rw [hlow]
          exact ⟨fun _ => hsave, fun _ => by decide⟩
        · rw [hlow]
          exact ⟨fun h => by simp at h, fun h => absurd h hsave⟩

/-- An event that fits is taken for a save exactly if it is one. -/
theorem isSave_iff {e : Raised} (h : e.Fits) : isSave e.pack = true ↔ e = .save := by
  have hagrees := (agrees_iff e).mpr h
  have hsave : isSave e.pack = true ↔
      (Taken.ofPacked e.pack).type = 1 ∧ (Taken.ofPacked e.pack).flag = true := by
    rw [isSave, decide_eq_true_iff]
    simp [Taken.ofPacked, saveFlag]
  rw [hsave, hagrees.type, hagrees.flag]
  constructor
  · exact fun hboth => hboth.2
  · rintro rfl
    exact ⟨rfl, rfl⟩

/-! ## The queue -/

/-- What is queued is what was raised, and it fits. -/
def Queued.Good (q : Queued) : Prop := q.packed = q.raised.pack ∧ q.raised.Fits

/-- The event taken for a save and the others were all queued. -/
theorem takeSave_spec {qs rest : List Queued} {q : Queued} (h : takeSave qs = some (q, rest)) :
    isSave q.packed = true ∧ q ∈ qs ∧ ∀ r ∈ rest, r ∈ qs := by
  induction qs generalizing rest with
  | nil => cases h
  | cons head qs ih =>
    simp only [takeSave] at h
    split at h
    · rename_i hsave
      cases h
      exact ⟨hsave, List.mem_cons_self, fun r hr => List.mem_cons_of_mem _ hr⟩
    · obtain ⟨⟨found, others⟩, hfound, heq⟩ := Option.map_eq_some_iff.mp h
      cases heq
      obtain ⟨hsave, hmem, hothers⟩ := ih hfound
      refine ⟨hsave, List.mem_cons_of_mem _ hmem, ?_⟩
      intro r hr
      rcases List.mem_cons.mp hr with rfl | hr
      · exact List.mem_cons_self
      · exact List.mem_cons_of_mem _ (hothers r hr)

/-- Without a save nothing is taken for one. -/
theorem takeSave_none {qs : List Queued} (hgood : ∀ q ∈ qs, q.Good)
    (hnone : ∀ q ∈ qs, q.raised ≠ .save) : takeSave qs = none := by
  cases h : takeSave qs with
  | none => rfl
  | some found =>
    obtain ⟨q, rest⟩ := found
    obtain ⟨hsave, hmem, -⟩ := takeSave_spec h
    obtain ⟨hpacked, hfits⟩ := hgood q hmem
    rw [hpacked] at hsave
    exact absurd ((isSave_iff hfits).mp hsave) (hnone q hmem)

/-! ## Runs -/

/-- All that is queued fits, and what was taken was right. -/
structure EventsInv (s : State) : Prop where
  queue : ∀ q ∈ s.queue, q.Good
  outcomes : ∀ o ∈ s.outcomes, Right o.1 o.2

variable {canWrite : Bytes → Bool} {s : State}

theorem EventsInv.saveEditor (h : EventsInv s) : EventsInv (s.saveEditor canWrite) := by
  unfold State.saveEditor
  split
  · exact h
  · rename_i q rest hfound
    obtain ⟨hsave, hmem, hrest⟩ := takeSave_spec hfound
    have hright : Right q.raised .saved := by
      obtain ⟨hpacked, hfits⟩ := h.queue q hmem
      rw [hpacked] at hsave
      exact (isSave_iff hfits).mp hsave
    have hqueue : ∀ r ∈ rest, r.Good := fun r hr => h.queue r (hrest r hr)
    have houtcomes : ∀ o ∈ s.outcomes ++ [(q.raised, .saved)], Right o.1 o.2 := by
      intro o ho
      rcases List.mem_append.mp ho with ho | ho
      · exact h.outcomes o ho
      · rw [List.mem_singleton.mp ho]
        exact hright
    dsimp only
    split
    · exact ⟨hqueue, houtcomes⟩
    · exact ⟨hqueue, houtcomes⟩

theorem handle_frame (s : State) (t : Taken) :
    (s.handle t).queue = s.queue ∧ (s.handle t).outcomes = s.outcomes ∧
      (s.handle t).files = s.files ∧ (s.handle t).writes = s.writes := by
  unfold State.handle
  split
  · exact ⟨rfl, rfl, rfl, rfl⟩
  · split
    · split
      · exact ⟨rfl, rfl, rfl, rfl⟩
      · dsimp only
        split <;> exact ⟨rfl, rfl, rfl, rfl⟩
    · split <;> exact ⟨rfl, rfl, rfl, rfl⟩

theorem handles_frame (qs : List Queued) (s : State) :
    let s' := qs.foldl (fun s q => s.handle (.ofPacked q.packed)) s
    s'.queue = s.queue ∧ s'.outcomes = s.outcomes ∧ s'.files = s.files ∧
      s'.writes = s.writes := by
  induction qs generalizing s with
  | nil => exact ⟨rfl, rfl, rfl, rfl⟩
  | cons q qs ih =>
    obtain ⟨hqueue, houtcomes, hfiles, hwrites⟩ := handle_frame s (.ofPacked q.packed)
    obtain ⟨hqueue', houtcomes', hfiles', hwrites'⟩ := ih (s.handle (.ofPacked q.packed))
    exact ⟨hqueue'.trans hqueue, houtcomes'.trans houtcomes, hfiles'.trans hfiles,
      hwrites'.trans hwrites⟩

theorem takeEvents_frame (s : State) :
    s.takeEvents.queue = s.queue.drop eventCapacity ∧
      s.takeEvents.outcomes = s.outcomes ++
        (s.queue.take eventCapacity).map (fun q => (q.raised, .taken (.ofPacked q.packed))) ∧
      s.takeEvents.files = s.files ∧ s.takeEvents.writes = s.writes :=
  handles_frame _ _

theorem EventsInv.takeEvents (h : EventsInv s) : EventsInv s.takeEvents := by
  obtain ⟨hqueue, houtcomes, -, -⟩ := takeEvents_frame s
  constructor
  · intro q hq
    rw [hqueue] at hq
    exact h.queue q (List.mem_of_mem_drop hq)
  · intro o ho
    rw [houtcomes] at ho
    rcases List.mem_append.mp ho with ho | ho
    · exact h.outcomes o ho
    · obtain ⟨q, hq, rfl⟩ := List.mem_map.mp ho
      obtain ⟨hpacked, hfits⟩ := h.queue q (List.mem_of_mem_take hq)
      show Agrees q.raised (.ofPacked q.packed)
      rw [hpacked]
      exact (agrees_iff q.raised).mpr hfits

/-- An event raised fits. -/
def RaisesFit (_ : State) (l : Label) : Prop := ∀ e, l = .raise e → e.Fits

theorem EventsInv.step (h : EventsInv s) {l : Label} (hl : RaisesFit s l) :
    EventsInv (Console.step canWrite s l) := by
  cases l with
  | raise e =>
    refine ⟨?_, h.outcomes⟩
    intro q hq
    rcases List.mem_append.mp hq with hq | hq
    · exact h.queue q hq
    · rw [List.mem_singleton.mp hq]
      exact ⟨rfl, hl e rfl⟩
  | edit text =>
    simp only [Console.step]
    split
    · exact ⟨h.queue, h.outcomes⟩
    · exact h
  | pump => exact h.saveEditor.takeEvents
  | rescan scripts => exact ⟨h.queue, h.outcomes⟩
  | change path content => exact ⟨h.queue, h.outcomes⟩

theorem eventsInv_reach (h : Transition.ReachUnder (machine canWrite) RaisesFit s) :
    EventsInv s := by
  apply h.invariant
  · constructor
    · intro q hq
      cases hq
    · intro o ho
      cases ho
  · intro s l s' hs hl hstep
    cases hstep
    exact hs.step hl

/-- Any sequence of events is read as raised exactly where the index of every event fits.
In a run whose events all fit, whatever is taken for a save was one and the other events
are read as raised, and a pump that finds no save leaves every file alone. -/
theorem console_events (es : List Raised) :
    ((∀ e ∈ es, Agrees e (.ofPacked e.pack)) ↔ ∀ e ∈ es, e.Fits) ∧
    ∀ (canWrite : Bytes → Bool) (s : State),
      Transition.ReachUnder (machine canWrite) RaisesFit s →
      (∀ o ∈ s.outcomes, Right o.1 o.2) ∧
      ((∀ q ∈ s.queue, q.raised ≠ .save) →
        (s.pump canWrite).files = s.files ∧ (s.pump canWrite).writes = s.writes) := by
  constructor
  · constructor
    · exact fun h e he => (agrees_iff e).mp (h e he)
    · exact fun h e he => (agrees_iff e).mpr (h e he)
  · intro canWrite s hs
    have hinv := eventsInv_reach hs
    refine ⟨hinv.outcomes, ?_⟩
    intro hnone
    have hkept : s.saveEditor canWrite = s := by
      rw [State.saveEditor, takeSave_none hinv.queue hnone]
    obtain ⟨-, -, hfiles, hwrites⟩ := takeEvents_frame s
    rw [State.pump, hkept]
    exact ⟨hfiles, hwrites⟩

/-- As many scripts as the mark of Ctrl+S stands for, and one more. -/
def manyScripts : List Listed :=
  (List.range 65).map fun i => ⟨[0x41 + i.toUInt8], [0x2F, 0x41 + i.toUInt8]⟩

/-- The first script is edited and the last one selected. -/
def editThenSelect : List Label :=
  [.rescan manyScripts, .change [0x2F, 0x41] (some [0x78]), .raise (.select 0), .pump,
    .edit [0x79], .raise (.select 64), .pump]

/-- A selection is taken for a save, and overwrites the file that is edited. -/
theorem select_taken_for_save :
    (¬ ∀ es : List Raised, ∀ e ∈ es, Agrees e (.ofPacked e.pack)) ∧
    (Transition.exec (machine fun _ => true) {} editThenSelect).any (fun s =>
      s.outcomes = [(.select 0, .taken ⟨1, 0, false⟩), (.select 64, .saved)] ∧
        s.files [0x2F, 0x41] = some [0x79]) = true := by
  constructor
  · intro h
    have hsave := (h [.select 64] _ (List.mem_singleton.mpr rfl)).flag.mp (by decide)
    cases hsave
  · decide

/-- A selection and a save of the same script. -/
theorem console_events_two :
    Agrees (.select 3) (.ofPacked (Raised.select 3).pack) ∧
    ∃ s : State, s.outcomes =
        [(.save, .saved), (.select 3, .taken ⟨1, 3, false⟩)] ∧
      ∀ o ∈ s.outcomes, Right o.1 o.2 := by
  have hfits : (Raised.select 3).Fits := by
    intro i hi
    cases hi
    decide
  have hsave : Raised.save.Fits := by
    intro i hi
    cases hi
  constructor
  · apply (console_events [.select 3]).1.mpr
    · intro e he
      rw [List.mem_singleton.mp he]
      exact hfits
    · exact List.mem_singleton.mpr rfl
  · have hrun : Transition.ReachUnder (machine fun _ => true) RaisesFit
        (step (fun _ => true) (step (fun _ => true) (step (fun _ => true) {}
          (.raise (.select 3))) (.raise .save)) .pump) := by
      refine .step (.step (.step .init ?_ rfl) ?_ rfl) ?_ rfl
      · rintro e ⟨⟩
        exact hfits
      · rintro e ⟨⟩
        exact hsave
      · rintro e ⟨⟩
    exact ⟨_, by decide, ((console_events []).2 _ _ hrun).1⟩

end Xcom.Script.Console
