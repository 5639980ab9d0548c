import Mathlib.Algebra.Ring.Int.Defs
import Mathlib.Data.List.SplitBy
import Xcom.ViewModel.LossLedger

/-!
# Losses and their sessions

Over any run, the values the sessions showed last add up to the rise of the counter exactly
when every rise is followed, within its session, by a poll that the grace window does not
end early.
-/

namespace Xcom.ViewModel

open Transition

/-- A session: the polls of one generation in a row. -/
def sessions (ps : List LossSample) : List (List LossSample) :=
  ps.splitBy fun p q => p.generation == q.generation

/-- The last value a session showed, nothing where no poll got to the values. -/
def lastShown (kind : LossKind) (session : List LossSample) : Int :=
  (session.filterMap (·.value kind)).getLast?.getD 0

def shownTotal (kind : LossKind) (ps : List LossSample) : Int :=
  ((sessions ps).map (lastShown kind)).sum

/-- A polled counter, which is told where its value is shown. -/
def LossSample.reading (kind : LossKind) (p : LossSample) : Reading Nat where
  session := p.generation
  value := p.raw kind
  told := p.shown.isSome

/-- The polled counter does not fall. -/
def NonDecreasing (kind : LossKind) : List LossSample → Prop
  | [] => True
  | p :: ps => Rising (p.raw kind : Int) (ps.map (·.reading kind))

/-- Every rise of the counter between two polls is followed, from the second of them on and
within its session, by a poll that shows the values. -/
def RisesShown (kind : LossKind) : List LossSample → Prop
  | [] => True
  | p :: ps => RisesTold (p.raw kind : Int) (ps.map (·.reading kind))

instance (kind : LossKind) : ∀ ps, Decidable (NonDecreasing kind ps)
  | [] => .isTrue trivial
  | p :: ps =>
    inferInstanceAs (Decidable (Rising (p.raw kind : Int) (ps.map (·.reading kind))))

instance (kind : LossKind) : ∀ ps, Decidable (RisesShown kind ps)
  | [] => .isTrue trivial
  | p :: ps =>
    inferInstanceAs (Decidable (RisesTold (p.raw kind : Int) (ps.map (·.reading kind))))

/-- The value polled last less the one polled first. -/
def polledRise (kind : LossKind) (ps : List LossSample) : Int :=
  (ps.getLast?.map (·.raw kind)).getD 0 - ((ps.head?.map (·.raw kind)).getD 0 : Nat)

/-- No value is negative, and the values the sessions showed last are the rise. -/
structure Attributed (kind : LossKind) (ps : List LossSample) : Prop where
  nonneg : ∀ p ∈ ps, ∀ v, p.value kind = some v → 0 ≤ v
  sum : shownTotal kind ps = polledRise kind ps

/-! ## The values and the tally -/

/-- The values are those of the tally: what the counter rose by since before the session. -/
def ShowsTally (kind : LossKind) : Tally Nat → List LossSample → Prop
  | _, [] => True
  | t, p :: ps =>
    p.value kind = (if p.shown.isSome then
      some ((p.raw kind : Int) - (t.read (p.reading kind)).before) else none) ∧
      ShowsTally kind (t.read (p.reading kind)) ps

theorem lastShown_append (kind : LossKind) (session : List LossSample) (p : LossSample) :
    lastShown kind (session ++ [p]) = (p.value kind).getD (lastShown kind session) := by
  cases hvalue : p.value kind with
  | none => simp [lastShown, List.filterMap_append, hvalue]
  | some v => simp [lastShown, List.filterMap_append, hvalue]

/-- The sessions from one in progress on: by induction on the polls to come. -/
theorem sum_loop {kind : LossKind} {t : Tally Nat} {ps : List LossSample}
    (hps : ShowsTally kind t ps) {p : LossSample} {session : List LossSample}
    (hsession : p.generation = t.session)
    (hshown : lastShown kind (p :: session).reverse = t.told - t.before)
    {ended : List (List LossSample)} (hended : (ended.map (lastShown kind)).sum = t.ended) :
    ((List.splitBy.loop (fun p q => p.generation == q.generation) ps p session ended).map
      (lastShown kind)).sum = ((ps.map (·.reading kind)).foldl Tally.read t).total := by
  induction ps generalizing t p session ended with
  | nil =>
    simp only [List.splitBy.loop, List.map_reverse, List.sum_reverse, List.map_cons,
      List.sum_cons, List.map_nil, List.foldl_nil, Tally.total]
    rw [hended, hshown]
    exact Int.add_comm _ _
  | cons q ps ih =>
    obtain ⟨hvalue, hps⟩ := hps
    rw [List.map_cons, List.foldl_cons]
    by_cases hsame : q.generation = t.session
    · have hgoes : (p.generation == q.generation) = true := by
        rw [hsession, hsame]
        exact beq_self_eq_true _
      have hkept : (t.read (q.reading kind)).ended = t.ended ∧
          (t.read (q.reading kind)).before = t.before ∧
          (t.read (q.reading kind)).told = if q.shown.isSome then (q.raw kind : Int) else t.told
          := by
        simp [Tally.read, Tally.enter, LossSample.reading, hsame]
      obtain ⟨hended', hbefore, htold⟩ := hkept
      rw [List.splitBy.loop, hgoes]
      apply ih hps
      · exact (Tally.enter_session t q.generation).symm
      · rw [List.reverse_cons, lastShown_append, hvalue, hbefore, htold, hshown]
        cases q.shown.isSome <;> rfl
      · rw [hended, hended']
    · have hends : (p.generation == q.generation) = false := by
        rw [hsession]
        exact beq_false_of_ne (Ne.symm hsame)
      have hopened : (t.read (q.reading kind)).ended = t.ended + (t.told - t.before) ∧
          (t.read (q.reading kind)).before = t.last ∧
          (t.read (q.reading kind)).told = if q.shown.isSome then (q.raw kind : Int) else t.last
          := by
        simp [Tally.read, Tally.enter, LossSample.reading, hsame]
      obtain ⟨hended', hbefore, htold⟩ := hopened
      rw [List.splitBy.loop, hends]
      apply ih hps
      · exact (Tally.enter_session t q.generation).symm
      · have hone : lastShown kind [q] = (q.value kind).getD 0 := lastShown_append kind [] q
        rw [List.reverse_singleton, hone, hvalue, hbefore, htold]
        cases q.shown.isSome <;> simp
      · rw [List.map_cons, List.sum_cons, hended, hshown, hended']
        exact Int.add_comm _ _

/-- All sessions, behind a first poll whose value is nothing. -/
theorem shownTotal_cons {kind : LossKind} {p : LossSample} {ps : List LossSample}
    (hp : (p.value kind).getD 0 = 0)
    (hps : ShowsTally kind (Tally.first (p.reading kind)) ps) :
    shownTotal kind (p :: ps) =
      ((ps.map (·.reading kind)).foldl Tally.read (Tally.first (p.reading kind))).total := by
  apply sum_loop hps rfl
  · rw [List.reverse_singleton, ← List.nil_append [p], lastShown_append]
    simpa [lastShown, Tally.first] using hp
  · rfl

theorem polledRise_cons (kind : LossKind) (p : LossSample) (ps : List LossSample) :
    polledRise kind (p :: ps) =
      lastValue (p.raw kind : Int) (ps.map (·.reading kind)) - p.raw kind := by
  rw [polledRise, lastValue, List.getLast?_map, List.getLast?_cons]
  cases ps.getLast? <;> rfl

/-! ## The ledger along the tally -/

/-- The ledger remembers of a counter the value before the session and the last one. -/
structure LossLedger.Keeps (l : LossLedger) (kind : LossKind) (t : Tally Nat) : Prop where
  gen : l.gen = some t.session
  base : (l.account kind).base = some t.before
  last : ∃ raw : Nat, (l.account kind).last = some raw ∧ (raw : Int) = t.last

theorem baseline_same {l : LossLedger} {generation : Nat} (h : l.gen = some generation)
    (s : LossSnapshot) (kind : LossKind) :
    (l.baseline generation s).gen = some generation ∧
      (l.baseline generation s).account kind =
        { l.account kind with last := some (s.raw kind) } := by
  cases kind <;> simp [LossLedger.baseline, LossLedger.account, LossSnapshot.raw, h]

theorem baseline_other {l : LossLedger} {generation : Nat} (h : l.gen ≠ some generation)
    (s : LossSnapshot) (kind : LossKind) :
    (l.baseline generation s).gen = some generation ∧
      (l.baseline generation s).account kind =
        { (l.account kind).rebase (s.raw kind) with last := some (s.raw kind) } := by
  cases kind <;> simp [LossLedger.baseline, LossLedger.account, LossSnapshot.raw, h]

theorem report_account (l : LossLedger) (s : LossSnapshot) (kind : LossKind) :
    (l.report s).gen = l.gen ∧ (l.report s).account kind = l.account kind := by
  unfold LossLedger.report
  dsimp only
  split
  · exact ⟨rfl, rfl⟩
  · cases kind <;> exact ⟨rfl, rfl⟩

/-- A poll behind others: the baselines follow the tally. -/
theorem keeps_baseline {l : LossLedger} {kind : LossKind} {t : Tally Nat} (h : l.Keeps kind t)
    {generation : Nat} {s : LossSnapshot} (hrise : t.last ≤ s.raw kind) (told : Bool) :
    (l.baseline generation s).Keeps kind (t.read ⟨generation, s.raw kind, told⟩) := by
  obtain ⟨raw, hraw, hlast⟩ := h.last
  by_cases hsame : generation = t.session
  · subst hsame
    obtain ⟨hgen, haccount⟩ := baseline_same h.gen s kind
    refine ⟨?_, ?_, s.raw kind, ?_, rfl⟩
    · rw [hgen]
      exact congrArg some (Tally.enter_session t _).symm
    · rw [haccount]
      simpa [Tally.read, Tally.enter] using h.base
    · rw [haccount]
  · have hother : l.gen ≠ some generation := by
      rw [h.gen]
      exact fun heq => hsame (Option.some.inj heq).symm
    obtain ⟨hgen, haccount⟩ := baseline_other hother s kind
    refine ⟨?_, ?_, s.raw kind, ?_, rfl⟩
    · rw [hgen]
      exact congrArg some (Tally.enter_session t _).symm
    · rw [haccount]
      have hcarry : (l.account kind).carry (s.raw kind) = s.raw kind - t.last := by
        rw [LossAccount.carry, hraw]
        dsimp only
        omega
      simp [Tally.read, Tally.enter, hsame, LossAccount.rebase, hcarry]
    · rw [haccount]

/-- The first poll of all. -/
theorem keeps_first (generation : Nat) (s : LossSnapshot) (kind : LossKind) (told : Bool) :
    (({} : LossLedger).baseline generation s).Keeps kind
      (Tally.first ⟨generation, s.raw kind, told⟩) := by
  cases kind <;>
    exact ⟨rfl, congrArg some (Int.sub_zero _), _, rfl, rfl⟩

theorem keeps_report {l : LossLedger} {kind : LossKind} {t : Tally Nat} (h : l.Keeps kind t)
    (s : LossSnapshot) : (l.report s).Keeps kind t := by
  obtain ⟨hgen, haccount⟩ := report_account l s kind
  refine ⟨hgen.trans h.gen, ?_, ?_⟩
  · rw [haccount]
    exact h.base
  · rw [haccount]
    exact h.last

/-- One poll from baselines that are kept: the values and the ledger behind it. -/
theorem poll_kept {l : LossLedger} {kind : LossKind} {t : Tally Nat} {generation : Nat}
    {s : LossSnapshot} (passes : Bool)
    (h : (l.baseline generation s).Keeps kind t) (hbefore : t.before ≤ s.raw kind) :
    ((l.poll generation s passes).1.reading kind = ⟨generation, s.raw kind, passes⟩) ∧
      ((l.poll generation s passes).1.value kind =
        if passes then some ((s.raw kind : Int) - t.before) else none) ∧
      (l.poll generation s passes).2.Keeps kind t := by
  have hsession : ((l.baseline generation s).account kind).session (s.raw kind) =
      s.raw kind - t.before := by
    rw [LossAccount.session, h.base, Option.getD_some]
    omega
  cases passes with
  | true =>
    refine ⟨by cases kind <;> rfl, ?_, keeps_report h s⟩
    rw [if_pos rfl, ← hsession]
    cases kind <;> rfl
  | false => exact ⟨by cases kind <;> rfl, by cases kind <;> rfl, h⟩

/-! ## Runs -/

/-- What an event does to the ledger: nothing, or one poll. -/
theorem lossStep_cases (w : Window) (l : LossLedger) (e : Window.Event × LossSnapshot) :
    (∃ w', lossStep (w, l) e = ([], (w', l))) ∨
      ∃ w' generation passes, lossStep (w, l) e =
        ([(l.poll generation e.2 passes).1], (w', (l.poll generation e.2 passes).2)) := by
  unfold lossStep
  dsimp only
  split
  · exact .inl ⟨_, rfl⟩
  · split
    · exact .inl ⟨_, rfl⟩
    · exact .inr ⟨_, _, _, rfl⟩

/-- From kept baselines on, the values are those of the tally. -/
theorem showsTally_run {kind : LossKind} {es : List (Window.Event × LossSnapshot)} {w : Window}
    {l : LossLedger} {t : Tally Nat} (h : l.Keeps kind t) (ht : t.Ordered)
    (hrise : Rising t.last ((transduce lossStep (w, l) es).1.map (·.reading kind))) :
    ShowsTally kind t (transduce lossStep (w, l) es).1 := by
  induction es generalizing w l t with
  | nil => exact trivial
  | cons e es ih =>
    rcases lossStep_cases w l e with ⟨w', hstep⟩ | ⟨w', generation, passes, hstep⟩
    · rw [transduce, hstep] at hrise ⊢
      exact ih h ht hrise
    · rw [transduce, hstep] at hrise ⊢
      rw [List.singleton_append, List.map_cons] at hrise
      obtain ⟨hle, hrest⟩ := hrise
      have hraw : t.last ≤ e.2.raw kind := by
        cases passes <;> cases kind <;> exact hle
      have hread := ht.read (r := ⟨generation, e.2.raw kind, passes⟩) hraw
      have hbefore : (t.read ⟨generation, e.2.raw kind, passes⟩).before ≤ e.2.raw kind :=
        Int.le_trans hread.told hread.last
      obtain ⟨hreading, hvalue, hkept⟩ :=
        poll_kept passes (keeps_baseline h hraw passes) hbefore
      rw [List.singleton_append]
      have hshown : (l.poll generation e.2 passes).1.shown.isSome = passes := by
        cases passes <;> rfl
      have hraw' : (l.poll generation e.2 passes).1.raw kind = e.2.raw kind := by
        cases passes <;> rfl
      refine ⟨?_, ?_⟩
      · rw [hreading, hshown, hraw']
        exact hvalue
      · rw [hreading] at hrest ⊢
        exact ih hkept hread hrest

/-- A run without a poll, or its first poll and the tally from there on. -/
theorem samples_cases (kind : LossKind) (w : Window) (es : List (Window.Event × LossSnapshot))
    (hrise : NonDecreasing kind (lossSamples w es)) :
    lossSamples w es = [] ∨ ∃ p ps, lossSamples w es = p :: ps ∧
      (p.value kind).getD 0 = 0 ∧ ShowsTally kind (Tally.first (p.reading kind)) ps := by
  induction es generalizing w with
  | nil => exact .inl rfl
  | cons e es ih =>
    rcases lossStep_cases w {} e with ⟨w', hstep⟩ | ⟨w', generation, passes, hstep⟩
    · have hsame : lossSamples w (e :: es) = lossSamples w' es := by
        rw [lossSamples, transduce, hstep]
        rfl
      rw [hsame] at hrise ⊢
      exact ih w' hrise
    · have hcons : lossSamples w (e :: es) = (({} : LossLedger).poll generation e.2 passes).1 ::
          (transduce lossStep
            (w', (({} : LossLedger).poll generation e.2 passes).2) es).1 := by
        rw [lossSamples, transduce, hstep]
        rfl
      obtain ⟨hreading, hvalue, hkept⟩ := poll_kept passes
        (keeps_first generation e.2 kind passes) (Int.le_refl _)
      rw [hcons] at hrise ⊢
      refine .inr ⟨_, _, rfl, ?_, ?_⟩
      · rw [hvalue]
        cases passes <;> simp [Tally.first]
      · rw [hreading]
        refine showsTally_run hkept (Tally.ordered_first _) ?_
        have hraw : (({} : LossLedger).poll generation e.2 passes).1.raw kind =
            e.2.raw kind := by
          cases passes <;> rfl
        rw [NonDecreasing, hraw] at hrise
        exact hrise

/-- No value that is computed is negative. -/
theorem samples_nonneg {kind : LossKind} {w : Window} {l : LossLedger}
    {es : List (Window.Event × LossSnapshot)} :
    ∀ p ∈ (transduce lossStep (w, l) es).1, ∀ v, p.value kind = some v → 0 ≤ v := by
  induction es generalizing w l with
  | nil =>
    intro p hp
    cases hp
  | cons e es ih =>
    intro p hp v hv
    rcases lossStep_cases w l e with ⟨w', hstep⟩ | ⟨w', generation, passes, hstep⟩
    · rw [transduce, hstep] at hp
      exact ih p hp v hv
    · rw [transduce, hstep] at hp
      rcases List.mem_cons.mp hp with rfl | hp
      · cases passes with
        | true =>
          cases kind <;>
            · obtain rfl := Option.some.inj hv
              exact Int.le_max_right _ _
        | false => cases kind <;> cases hv
      · exact ih p hp v hv

/-- For each of the two counters, in every run of polls, opens and closes in which the
polled counter does not fall: the losses are attributed to the sessions, nothing lost and
nothing twice, exactly when every rise is shown within its session. -/
theorem losses_attributed_iff (w : Window) (es : List (Window.Event × LossSnapshot))
    (kind : LossKind) (hrise : NonDecreasing kind (lossSamples w es)) :
    Attributed kind (lossSamples w es) ↔ RisesShown kind (lossSamples w es) := by
  have hsum : shownTotal kind (lossSamples w es) = polledRise kind (lossSamples w es) ↔
      RisesShown kind (lossSamples w es) := by
    rcases samples_cases kind w es hrise with hnone | ⟨p, ps, hsamples, hfirst, hps⟩
    · rw [hnone]
      exact ⟨fun _ => trivial, fun _ => rfl⟩
    · rw [hsamples] at hrise ⊢
      rw [shownTotal_cons hfirst hps, polledRise_cons]
      exact total_eq_iff (p.reading kind) hrise
  rw [← hsum]
  exact ⟨fun h => h.sum, fun h => ⟨samples_nonneg, h⟩⟩

/-- A poll at `now` of a snapshot, with `log` bytes not stored so far. -/
def lossPoll (now : Nat) (s : PortState) (generation log : Nat) :
    Window.Event × LossSnapshot :=
  (.poll ⟨now, ⟨some s, generation, []⟩, [], [], [], [], .ok, none⟩, ⟨0, log, 0, 0⟩)

/-- A session that is closed: the loss between its last poll and the first one of the next
generation is shown in the next session. -/
theorem losses_attributed_over_close :
    shownTotal .log (lossSamples (.new "COM3" 8000)
      [lossPoll 0 .portOpen 1 3, lossPoll 250 .portOpen 1 5, lossPoll 500 .portClosed 2 9,
        lossPoll 750 .portOpen 2 9]) = 6 := by
  have hrise : NonDecreasing .log (lossSamples (.new "COM3" 8000)
      [lossPoll 0 .portOpen 1 3, lossPoll 250 .portOpen 1 5, lossPoll 500 .portClosed 2 9,
        lossPoll 750 .portOpen 2 9]) := by
    decide
  have hshown : RisesShown .log (lossSamples (.new "COM3" 8000)
      [lossPoll 0 .portOpen 1 3, lossPoll 250 .portOpen 1 5, lossPoll 500 .portClosed 2 9,
        lossPoll 750 .portOpen 2 9]) := by
    decide
  exact ((losses_attributed_iff _ _ .log hrise).mpr hshown).sum

/-- A session that faults with 100 bytes lost and is reopened by the grace driver: no
session shows them. -/
theorem loss_in_grace_window :
    NonDecreasing .log (lossSamples (.new "COM3" 8000)
      [lossPoll 0 .portOpen 1 0, lossPoll 250 .portFault 1 100, lossPoll 500 .portClosed 2 100,
        lossPoll 750 .portOpen 2 100, lossPoll 1000 .portOpen 2 100]) ∧
      ¬ Attributed .log (lossSamples (.new "COM3" 8000)
        [lossPoll 0 .portOpen 1 0, lossPoll 250 .portFault 1 100, lossPoll 500 .portClosed 2 100,
          lossPoll 750 .portOpen 2 100, lossPoll 1000 .portOpen 2 100]) := by
  refine ⟨by decide, ?_⟩
  intro h
  have hsum := h.sum
  revert hsum
  decide

end Xcom.ViewModel
