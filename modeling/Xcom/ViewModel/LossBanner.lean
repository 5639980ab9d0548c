import Xcom.ViewModel.LossesAttributed

/-!
# The DATA LOSS banner

The banner is rewritten only when the sum of the two values changes.  While the counters do
not fall, it shows both values of the last poll that got to them.
-/

namespace Xcom.ViewModel

open Transition

/-- What the banner shows of a counter. -/
def LossBanner.amount : LossBanner → LossKind → Int
  | .both overrun _ _, .overrun | .overrunOnly overrun _, .overrun => overrun
  | .both _ log _, .log | .logOnly log _ _, .log => log
  | .overrunOnly _ _, .log | .logOnly _ _ _, .overrun => 0

def LossLedger.bannerAmount (l : LossLedger) (kind : LossKind) : Int :=
  (l.banner.map (·.amount kind)).getD 0

/-- The banner is about the session: for each counter it shows no more than the rise since
before the session, and it is compared by the sum of both. -/
structure LossLedger.Latched (l : LossLedger) (s : LossSnapshot) : Prop where
  account : ∀ kind, ∃ base, (l.account kind).base = some base ∧
    (l.account kind).last = some (s.raw kind) ∧
    0 ≤ l.bannerAmount kind ∧ l.bannerAmount kind ≤ s.raw kind - base
  seen : l.seen = l.bannerAmount .overrun + l.bannerAmount .log

theorem bannerOf_amount (overrun log : Int) (ho : 0 ≤ overrun) (hl : 0 ≤ log) (s : LossSnapshot) :
    (((LossLedger.bannerOf overrun log s).map (·.amount .overrun)).getD 0 = overrun) ∧
      (((LossLedger.bannerOf overrun log s).map (·.amount .log)).getD 0 = log) := by
  unfold LossLedger.bannerOf
  split_ifs with hsome hboth honly
  · exact ⟨rfl, rfl⟩
  · exact ⟨rfl, by show (0 : Int) = log; omega⟩
  · exact ⟨by show (0 : Int) = overrun; omega, rfl⟩
  · exact ⟨by show (0 : Int) = overrun; omega, by show (0 : Int) = log; omega⟩

theorem Latched.baseline {l : LossLedger} {s s' : LossSnapshot} (h : l.Latched s)
    (hrise : ∀ kind, s.raw kind ≤ s'.raw kind) (generation : Nat) :
    (l.baseline generation s').Latched s' := by
  by_cases hsame : l.gen = some generation
  · have hbanner : (l.baseline generation s').banner = l.banner ∧
        (l.baseline generation s').seen = l.seen := by
      simp [LossLedger.baseline, hsame]
    have hamount : ∀ kind, (l.baseline generation s').bannerAmount kind = l.bannerAmount kind := by
      intro kind
      rw [LossLedger.bannerAmount, LossLedger.bannerAmount, hbanner.1]
    constructor
    · intro kind
      obtain ⟨base, hbase, -, hpos, hle⟩ := h.account kind
      have hup := hrise kind
      rw [(baseline_same hsame s' kind).2, hamount]
      exact ⟨base, hbase, rfl, hpos, by omega⟩
    · rw [hamount, hamount, hbanner.2]
      exact h.seen
  · have hamount : ∀ kind, (l.baseline generation s').bannerAmount kind = 0 := by
      intro kind
      simp [LossLedger.baseline, LossLedger.bannerAmount, hsame]
    constructor
    · intro kind
      rw [(baseline_other hsame s' kind).2, hamount]
      refine ⟨_, rfl, rfl, Int.le_refl _, ?_⟩
      obtain ⟨-, -, hlast, -⟩ := h.account kind
      rw [LossAccount.carry, hlast]
      dsimp only
      omega
    · rw [hamount, hamount]
      simp [LossLedger.baseline, hsame]

/-- What `report` leaves: the banner shows the values of the session. -/
theorem report_amount {l : LossLedger} {s : LossSnapshot} (h : l.Latched s) :
    (∀ kind, (l.report s).bannerAmount kind = (l.account kind).session (s.raw kind)) ∧
      (l.report s).Latched s := by
  have hsession : ∀ kind, ∃ base, (l.account kind).base = some base ∧
      (l.account kind).session (s.raw kind) = s.raw kind - base ∧
      0 ≤ l.bannerAmount kind ∧ l.bannerAmount kind ≤ s.raw kind - base := by
    intro kind
    obtain ⟨base, hbase, -, hpos, hle⟩ := h.account kind
    refine ⟨base, hbase, ?_, hpos, hle⟩
    rw [LossAccount.session, hbase, Option.getD_some]
    omega
  obtain ⟨baseO, -, hsessO, hposO, hleO⟩ := hsession .overrun
  obtain ⟨baseL, -, hsessL, hposL, hleL⟩ := hsession .log
  have hamount : ∀ kind,
      (l.report s).bannerAmount kind = (l.account kind).session (s.raw kind) := by
    by_cases hseen : (l.account .overrun).session (s.raw .overrun) +
        (l.account .log).session (s.raw .log) = l.seen
    · -- both counters rose by nothing, so the banner stands
      have hsame : l.report s = l := if_pos hseen
      rw [hsame]
      have hsum := h.seen
      intro kind
      cases kind
      · omega
      · omega
    · have hnew : (l.report s).banner = LossLedger.bannerOf
          ((l.account .overrun).session (s.raw .overrun))
          ((l.account .log).session (s.raw .log)) s :=
        congrArg LossLedger.banner (if_neg hseen)
      obtain ⟨hoverrun, hlog⟩ := bannerOf_amount
        ((l.account .overrun).session (s.raw .overrun))
        ((l.account .log).session (s.raw .log)) (Int.le_max_right _ _) (Int.le_max_right _ _) s
      intro kind
      cases kind
      · rw [LossLedger.bannerAmount, hnew]
        exact hoverrun
      · rw [LossLedger.bannerAmount, hnew]
        exact hlog
  refine ⟨hamount, ?_, ?_⟩
  · intro kind
    obtain ⟨base, hbase, hlast, -⟩ := h.account kind
    obtain ⟨base', hbase', hsess, hpos, hle⟩ := hsession kind
    rw [(report_account l s kind).2, hamount, hsess]
    exact ⟨base', hbase', hlast, by omega, Int.le_refl _⟩
  · rw [hamount, hamount, LossLedger.report]
    split
    · exact Eq.symm ‹_›
    · rfl

/-- A poll that gets to the values shows them in the banner. -/
theorem poll_banner {l : LossLedger} {s s' : LossSnapshot} (h : l.Latched s)
    (hrise : ∀ kind, s.raw kind ≤ s'.raw kind) (generation : Nat) (passes : Bool) :
    (l.poll generation s' passes).2.Latched s' ∧
      ∀ kind v, (l.poll generation s' passes).1.value kind = some v →
        (l.poll generation s' passes).2.bannerAmount kind = v := by
  have hbase := Latched.baseline h hrise generation
  cases passes with
  | true =>
    obtain ⟨hamount, hlatched⟩ := report_amount hbase
    refine ⟨hlatched, ?_⟩
    intro kind v hv
    refine (hamount kind).trans ?_
    cases kind <;> exact Option.some.inj hv
  | false =>
    refine ⟨hbase, ?_⟩
    intro kind v hv
    cases kind <;> cases hv

theorem latched_first (generation : Nat) (s : LossSnapshot) :
    (({} : LossLedger).baseline generation s).Latched s := by
  constructor
  · intro kind
    refine ⟨s.raw kind, ?_, ?_, Int.le_refl _, ?_⟩
    · cases kind <;> exact congrArg some (Int.sub_zero _)
    · cases kind <;> rfl
    · show (0 : Int) ≤ s.raw kind - s.raw kind
      omega
  · rfl

/-- Behind every poll of a run the banner shows the values of the last poll that got to
them: `p` is the poll before, whose values it shows already. -/
theorem banner_run {es : List (Window.Event × LossSnapshot)} {w : Window} {l : LossLedger}
    {p : LossSample} (h : l.Latched p.snapshot)
    (hp : ∀ kind v, p.value kind = some v → l.bannerAmount kind = v)
    (hrise : ∀ kind, Rising (p.raw kind : Int)
      ((transduce lossStep (w, l) es).1.map (·.reading kind))) {q : LossSample}
    (hq : (p :: (transduce lossStep (w, l) es).1).getLast? = some q) :
    ∀ kind v, q.value kind = some v →
      (transduce lossStep (w, l) es).2.2.bannerAmount kind = v := by
  induction es generalizing w l p with
  | nil =>
    obtain rfl : p = q := Option.some.inj hq
    exact hp
  | cons e es ih =>
    rcases lossStep_cases w l e with ⟨w', hstep⟩ | ⟨w', generation, passes, hstep⟩
    · rw [transduce, hstep] at hrise hq ⊢
      exact ih h hp hrise hq
    · rw [transduce, hstep] at hrise hq ⊢
      have hsnap : (l.poll generation e.2 passes).1.snapshot = e.2 := by
        cases passes <;> rfl
      have hle : ∀ kind, p.snapshot.raw kind ≤ e.2.raw kind := by
        intro kind
        have hup : (p.raw kind : Int) ≤ ((l.poll generation e.2 passes).1.raw kind : Int) :=
          (hrise kind).1
        rw [LossSample.raw, LossSample.raw, hsnap] at hup
        exact Int.ofNat_le.mp hup
      obtain ⟨hlatched, hshows⟩ := poll_banner h hle generation passes
      have hlatched' : (l.poll generation e.2 passes).2.Latched
          (l.poll generation e.2 passes).1.snapshot := by
        rw [hsnap]
        exact hlatched
      refine ih hlatched' hshows (fun kind => (hrise kind).2) ?_
      rw [List.singleton_append, List.getLast?_cons_cons] at hq
      exact hq

end Xcom.ViewModel
