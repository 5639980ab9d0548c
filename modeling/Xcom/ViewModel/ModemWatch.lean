import Xcom.Transition.Machine
import Mathlib.Data.List.Basic

/-!
# The modem lines of the peer

`Window:_note_modem_lines` over the snapshots of the status poll: a line that falls while the
port stays open is told once, and its return is told before the next fall.
-/

namespace Xcom.ViewModel

def MODEM_CTS : UInt32 := 0x1
def MODEM_DSR : UInt32 := 0x2
def MODEM_RLSD : UInt32 := 0x8
def MODEM_WATCH : UInt32 := 0xB
def MODEM_VALID : UInt32 := 0x80000000

/-- One status poll: the snapshot, as far as it is read here, and the level of our own DTR. -/
structure ModemPoll where
  portOpen : Bool
  modemLines : UInt32
  generation : Nat
  dtrOn : Bool
  deriving DecidableEq, Repr

/-- A status message. -/
inductive ModemNotice
  | fell (dropped : UInt32)
  | restored
  deriving DecidableEq, Repr

/-- The names of the lines that fell. -/
def modemNames (dropped : UInt32) : List String :=
  (if dropped &&& MODEM_CTS ≠ 0 then ["CTS"] else []) ++
    (if dropped &&& MODEM_DSR ≠ 0 then ["DSR"] else []) ++
    (if dropped &&& MODEM_RLSD ≠ 0 then ["RLSD"] else [])

def ModemNotice.text : ModemNotice → String
  | .fell dropped =>
    "对端线路落下（" ++ String.intercalate "/" (modemNames dropped) ++
      "），串口仍打开；若该线接到对端电源/握手，可能是 MCU 掉电或复位"
  | .restored => "对端线路恢复"

/-- The fields of the window behind the detector: `_loss_gen`, `_modem_prev`,
`_modem_drop_reported` and `_modem_lost`. -/
structure ModemWatch where
  lossGen : Option Nat := none
  prev : Option UInt32 := none
  dropReported : Bool := false
  lost : Option UInt32 := none
  deriving DecidableEq, Repr

/-- The first snapshot of a generation forgets the session before. -/
def ModemWatch.session (generation : Nat) (w : ModemWatch) : ModemWatch :=
  if w.lossGen = some generation then w
  else { lossGen := some generation, prev := none, dropReported := false, lost := none }

/-- `Window:_note_modem_lines`. -/
def noteModemLines (poll : ModemPoll) (w : ModemWatch) : ModemWatch × Option ModemNotice :=
  if poll.portOpen = false then ({ w with prev := none }, none)
  else if poll.modemLines &&& MODEM_VALID = 0 then ({ w with prev := none }, none)
  else
    let now := poll.modemLines &&& MODEM_WATCH
    let next := { w with prev := some now }
    match w.prev with
    | none => (next, none)
    | some prev =>
      let dropped := prev &&& ~~~now
      if dropped = 0 then
        let lost := w.lost.getD 0
        if w.dropReported ∧ lost ≠ 0 ∧ now &&& lost = lost then
          ({ next with dropReported := false, lost := none }, some .restored)
        else (next, none)
      -- A peer whose DSR follows our DTR shows our own change.
      else if dropped = MODEM_DSR ∧ poll.dtrOn = false then (next, none)
      else if w.dropReported then (next, none)
      else ({ next with dropReported := true, lost := some dropped }, some (.fell dropped))

/-- One poll with what it told. -/
structure ModemEntry where
  poll : ModemPoll
  notice : Option ModemNotice
  deriving DecidableEq, Repr

/-- The window over its polls.  `session` are those of this generation, newest first: the source
does not keep them. -/
structure ModemRun where
  watch : ModemWatch := {}
  session : List ModemEntry := []
  deriving DecidableEq, Repr

/-- The part of `Window:poll_status` about the modem lines. -/
def ModemRun.poll (r : ModemRun) (poll : ModemPoll) : ModemRun :=
  let (watch, notice) := noteModemLines poll (r.watch.session poll.generation)
  { watch := watch
    session := ⟨poll, notice⟩ :: if r.watch.lossGen = some poll.generation then r.session else [] }

def modemMachine : Transition.Machine ModemRun ModemPoll := ⟨{}, fun r poll => some (r.poll poll)⟩

/-! ## What the polls show -/

/-- The watched lines, where the snapshot has a sample. -/
def ModemPoll.level (poll : ModemPoll) : Option UInt32 :=
  if poll.portOpen = true ∧ poll.modemLines &&& MODEM_VALID ≠ 0 then
    some (poll.modemLines &&& MODEM_WATCH)
  else none

/-- The lines of the poll before. -/
def levelBefore (polls : List ModemEntry) : Option UInt32 := polls.head?.bind (·.poll.level)

/-- The last message of the session. -/
def lastNotice : List ModemEntry → Option ModemNotice
  | [] => none
  | entry :: polls => entry.notice.or (lastNotice polls)

/-- The lines that fell were up in the poll before and are down in this one, more than a DSR
beside our own DTR. -/
def Falls (polls : List ModemEntry) (poll : ModemPoll) (dropped : UInt32) : Prop :=
  ∃ before now, levelBefore polls = some before ∧ poll.level = some now ∧
    dropped = before &&& ~~~now ∧ dropped ≠ 0 ∧ ¬ (dropped = MODEM_DSR ∧ poll.dtrOn = false)

/-- Nothing fell since the poll before, and the lines of a fall that was told are up again. -/
def Returns (polls : List ModemEntry) (poll : ModemPoll) (dropped : UInt32) : Prop :=
  ∃ before now, levelBefore polls = some before ∧ poll.level = some now ∧
    before &&& ~~~now = 0 ∧ now &&& dropped = dropped

/-- What the polls call for: a fall is told where none is told and not yet back, a return where
one is. -/
inductive Called (polls : List ModemEntry) (poll : ModemPoll) : Option ModemNotice → Prop
  | fell {dropped : UInt32} (hlast : ∀ d, lastNotice polls ≠ some (.fell d))
      (hfalls : Falls polls poll dropped) : Called polls poll (some (.fell dropped))
  | restored {dropped : UInt32} (hlast : lastNotice polls = some (.fell dropped))
      (hreturns : Returns polls poll dropped) : Called polls poll (some .restored)
  | quiet (hfalls : ∀ dropped, Falls polls poll dropped → ∃ d, lastNotice polls = some (.fell d))
      (hreturns : ∀ dropped, lastNotice polls = some (.fell dropped) →
        ¬ Returns polls poll dropped) : Called polls poll none

/-- Each poll of the session told what the polls before it call for. -/
def Lawful : List ModemEntry → Prop
  | [] => True
  | entry :: polls => Called polls entry.poll entry.notice ∧ Lawful polls

/-- The detector stands for the polls of the session. -/
structure ModemWatch.Stands (w : ModemWatch) (polls : List ModemEntry) : Prop where
  prev : w.prev = levelBefore polls
  reported : ∀ dropped, (w.dropReported = true ∧ w.lost = some dropped) ↔
    lastNotice polls = some (.fell dropped)
  lost : w.dropReported = true → ∃ dropped, w.lost = some dropped ∧ dropped ≠ 0

theorem ModemWatch.Stands.silent {w : ModemWatch} {polls : List ModemEntry} (h : w.Stands polls)
    (hquiet : w.dropReported = false) (d : UInt32) : lastNotice polls ≠ some (.fell d) := by
  intro hlast
  have hreported := ((h.reported d).mpr hlast).1
  rw [hquiet] at hreported
  cases hreported

/-- A poll that tells nothing leaves the last message. -/
theorem ModemWatch.Stands.next {w : ModemWatch} {polls : List ModemEntry} (h : w.Stands polls)
    (poll : ModemPoll) : ({ w with prev := poll.level } : ModemWatch).Stands
      (⟨poll, none⟩ :: polls) :=
  ⟨rfl, h.reported, h.lost⟩

/-- One poll tells what is called for, and the detector stands for the polls with it. -/
theorem noteModemLines_called {w : ModemWatch} {polls : List ModemEntry} (h : w.Stands polls)
    (poll : ModemPoll) : Called polls poll (noteModemLines poll w).2 ∧
      (noteModemLines poll w).1.Stands (⟨poll, (noteModemLines poll w).2⟩ :: polls) := by
  have hdown : poll.level = none → Called polls poll none ∧
      ({ w with prev := none } : ModemWatch).Stands (⟨poll, none⟩ :: polls) := by
    intro hlevel
    have hstands := h.next poll
    rw [hlevel] at hstands
    refine ⟨.quiet ?_ ?_, hstands⟩
    · rintro dropped ⟨_, now, -, hnow, -⟩
      rw [hlevel] at hnow
      cases hnow
    · rintro dropped - ⟨_, now, -, hnow, -⟩
      rw [hlevel] at hnow
      cases hnow
  unfold noteModemLines
  split
  · rename_i hclosed
    exact hdown (by simp [ModemPoll.level, hclosed])
  · rename_i hopen
    split
    · rename_i hinvalid
      exact hdown (by simp [ModemPoll.level, hinvalid])
    · rename_i hvalid
      have hlevel : poll.level = some (poll.modemLines &&& MODEM_WATCH) := by
        simp [ModemPoll.level, hopen, hvalid]
      generalize poll.modemLines &&& MODEM_WATCH = now at hlevel ⊢
      have hnext := h.next poll
      rw [hlevel] at hnext
      have hprev := h.prev
      dsimp only
      split
      · rename_i hnone
        rw [hnone] at hprev
        refine ⟨.quiet ?_ ?_, hnext⟩
        · rintro dropped ⟨before, _, hbefore, -⟩
          rw [← hprev] at hbefore
          cases hbefore
        · rintro dropped - ⟨before, _, hbefore, -⟩
          rw [← hprev] at hbefore
          cases hbefore
      · rename_i prev hsome
        rw [hsome] at hprev
        -- With both levels known, a fall and a return are about `prev` and `now`.
        have hfalls : ∀ dropped, Falls polls poll dropped ↔ dropped = prev &&& ~~~now ∧
            dropped ≠ 0 ∧ ¬ (dropped = MODEM_DSR ∧ poll.dtrOn = false) := by
          intro dropped
          simp [Falls, ← hprev, hlevel]
        have hreturns : ∀ dropped, Returns polls poll dropped ↔
            prev &&& ~~~now = 0 ∧ now &&& dropped = dropped := by
          intro dropped
          simp [Returns, ← hprev, hlevel]
        split
        · rename_i hzero
          split
          · rename_i hback
            obtain ⟨hreported, -, hup⟩ := hback
            obtain ⟨dropped, hlost, -⟩ := h.lost hreported
            rw [hlost] at hup
            refine ⟨.restored ((h.reported dropped).mp ⟨hreported, hlost⟩)
              ((hreturns dropped).mpr ⟨hzero, hup⟩), hlevel.symm, ?_, ?_⟩
            · intro d
              simp [lastNotice]
            · intro hfalse
              cases hfalse
          · rename_i hback
            refine ⟨.quiet ?_ ?_, hnext⟩
            · intro d hfall
              obtain ⟨rfl, hne, -⟩ := (hfalls d).mp hfall
              exact absurd hzero hne
            · intro d hlast hreturn
              obtain ⟨hreported, hlost⟩ := (h.reported d).mpr hlast
              obtain ⟨d', hlost', hne⟩ := h.lost hreported
              obtain rfl := Option.some.inj (hlost.symm.trans hlost')
              exact hback ⟨hreported, by simpa [hlost] using hne,
                by simpa [hlost] using ((hreturns d).mp hreturn).2⟩
        · rename_i hne
          have hnoreturn : ∀ d, lastNotice polls = some (.fell d) → ¬ Returns polls poll d :=
            fun d _ hreturn => hne ((hreturns d).mp hreturn).1
          split
          · rename_i hown
            refine ⟨.quiet ?_ hnoreturn, hnext⟩
            intro d hfall
            obtain ⟨rfl, -, hother⟩ := (hfalls d).mp hfall
            exact absurd hown hother
          · rename_i hother
            split
            · rename_i hreported
              obtain ⟨d, hlost, -⟩ := h.lost hreported
              exact ⟨.quiet (fun _ _ => ⟨d, (h.reported d).mp ⟨hreported, hlost⟩⟩) hnoreturn, hnext⟩
            · rename_i hreported
              refine ⟨.fell (h.silent (Bool.not_eq_true _ ▸ hreported))
                ((hfalls _).mpr ⟨rfl, hne, hother⟩), hlevel.symm, ?_, fun _ => ⟨_, rfl, hne⟩⟩
              intro d
              simp [lastNotice]

/-- What holds of the window behind every poll. -/
structure ModemRun.Kept (r : ModemRun) : Prop where
  stands : r.watch.Stands r.session
  lawful : Lawful r.session
  same : ∀ entry ∈ r.session, r.watch.lossGen = some entry.poll.generation

theorem noteModemLines_lossGen (poll : ModemPoll) (w : ModemWatch) :
    (noteModemLines poll w).1.lossGen = w.lossGen := by
  unfold noteModemLines
  dsimp only
  repeat' split
  all_goals rfl

theorem ModemRun.Kept.poll {r : ModemRun} (h : r.Kept) (poll : ModemPoll) : (r.poll poll).Kept := by
  have hfresh : ({ lossGen := some poll.generation } : ModemWatch).Stands [] :=
    ⟨rfl, fun d => by simp [lastNotice], fun hfalse => by cases hfalse⟩
  obtain ⟨polls, hpolls, hstands, hlawful, hsame⟩ : ∃ polls,
      (if r.watch.lossGen = some poll.generation then r.session else []) = polls ∧
      (r.watch.session poll.generation).Stands polls ∧ Lawful polls ∧
      ∀ entry ∈ polls, entry.poll.generation = poll.generation := by
    unfold ModemWatch.session
    split
    · rename_i hgen
      refine ⟨_, rfl, h.stands, h.lawful, fun entry hentry => ?_⟩
      exact (Option.some.inj (hgen.symm.trans (h.same entry hentry))).symm
    · exact ⟨[], rfl, hfresh, trivial, fun entry hentry => absurd hentry List.not_mem_nil⟩
  have hgen : (r.watch.session poll.generation).lossGen = some poll.generation := by
    unfold ModemWatch.session
    split
    · assumption
    · rfl
  obtain ⟨hcalled, hnext⟩ := noteModemLines_called hstands poll
  unfold ModemRun.poll
  dsimp only
  rw [hpolls]
  refine ⟨hnext, ⟨hcalled, hlawful⟩, fun entry hentry => ?_⟩
  show (noteModemLines poll (r.watch.session poll.generation)).1.lossGen = _
  rw [noteModemLines_lossGen, hgen]
  rcases List.mem_cons.mp hentry with rfl | hold
  · rfl
  · rw [hsame entry hold]

/-- Over every run of status polls, whatever the snapshots show: each poll of a session tells of
the lines just when the polls of this session before it call for it, and nothing else. -/
theorem modem_notices_are_called {r : ModemRun} (h : Transition.Reach modemMachine r) :
    Lawful r.session ∧ ∀ entry ∈ r.session, r.watch.lossGen = some entry.poll.generation := by
  have hkept : r.Kept := by
    refine h.invariant ⟨⟨rfl, fun d => by simp [lastNotice, modemMachine], ?_⟩, trivial, ?_⟩
      fun _ poll _ hkept _ hstep => Option.some.inj hstep ▸ hkept.poll poll
    · exact fun hfalse => by cases hfalse
    · exact fun entry hentry => absurd hentry List.not_mem_nil
  exact ⟨hkept.lawful, hkept.same⟩

theorem modem_notices_are_called_restored : ∃ r : ModemRun,
    r.session.map (·.notice) = [some .restored, none, some (.fell MODEM_RLSD), none] ∧
      Lawful r.session := by
  obtain ⟨r, hr, hnotices⟩ : ∃ r : ModemRun, Transition.Reach modemMachine r ∧
      r.session.map (·.notice) = [some .restored, none, some (.fell MODEM_RLSD), none] :=
    Transition.exists_of_execUnder [⟨true, 0x80000009, 1, false⟩, ⟨true, 0x80000001, 1, false⟩,
      ⟨true, 0x80000001, 1, false⟩, ⟨true, 0x80000009, 1, false⟩] (by decide)
  exact ⟨r, hnotices, (modem_notices_are_called hr).1⟩

end Xcom.ViewModel
