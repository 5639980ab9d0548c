import Xcom.Transition.Sessions
import Xcom.Transition.Transducer
import Xcom.ViewModel.GraceDriver

/-!
# The loss ledger

The DATA LOSS part of `Window:poll_status`: the baselines taken at a change of the
generation, and the values of the session with the banner that shows them.  Between the two
stands the grace driver, which ends some polls early.
-/

namespace Xcom.ViewModel

/-- What the ledger reads of a snapshot besides its generation. -/
structure LossSnapshot where
  overrunErrors : Nat
  saveRejectedBytes : Nat
  rxLossOffset : Nat := 0
  rxSequence : Nat := 0
  deriving DecidableEq, Repr

/-- The two counters of the ledger. -/
inductive LossKind
  | overrun
  | log
  deriving DecidableEq, Repr

def LossSnapshot.raw (s : LossSnapshot) : LossKind → Nat
  | .overrun => s.overrunErrors
  | .log => s.saveRejectedBytes

/-- `_loss_base_*` and `_loss_last_*` of one counter. -/
structure LossAccount where
  base : Option Int := none
  last : Option Nat := none
  deriving DecidableEq, Repr

/-- What a counter rose by since the last poll. -/
def LossAccount.carry (a : LossAccount) (raw : Nat) : Int :=
  match a.last with
  | none => 0
  | some last => max ((raw : Int) - last) 0

def LossAccount.rebase (a : LossAccount) (raw : Nat) : LossAccount :=
  { a with base := some (raw - a.carry raw) }

/-- `sess_overrun` and `sess_log`. -/
def LossAccount.session (a : LossAccount) (raw : Nat) : Int :=
  max ((raw : Int) - a.base.getD 0) 0

/-- The three texts of the banner, with the numbers they show. -/
inductive LossBanner
  | both (overrun log : Int) (offset : Nat)
  | overrunOnly (overrun : Int) (offset : Nat)
  | logOnly (log : Int) (offset sequence : Nat)
  deriving DecidableEq, Repr

/-- The `_loss_*` fields. -/
structure LossLedger where
  gen : Option Nat := none
  overrun : LossAccount := {}
  log : LossAccount := {}
  seen : Int := 0
  banner : Option LossBanner := none
  deriving DecidableEq, Repr

namespace LossLedger

def account (l : LossLedger) : LossKind → LossAccount
  | .overrun => l.overrun
  | .log => l.log

/-- The new baselines of another generation, and the values remembered for the next one. -/
def baseline (l : LossLedger) (generation : Nat) (s : LossSnapshot) : LossLedger :=
  let l :=
    if l.gen = some generation then l
    else
      { gen := some generation
        overrun := l.overrun.rebase s.overrunErrors
        log := l.log.rebase s.saveRejectedBytes }
  { l with
    overrun := { l.overrun with last := some s.overrunErrors }
    log := { l.log with last := some s.saveRejectedBytes } }

/-- The banner for the values of a session. -/
def bannerOf (overrun log : Int) (s : LossSnapshot) : Option LossBanner :=
  if 0 < overrun + log then
    if 0 < overrun ∧ 0 < log then some (.both overrun log s.rxLossOffset)
    else if 0 < overrun then some (.overrunOnly overrun s.rxLossOffset)
    else some (.logOnly log s.rxLossOffset s.rxSequence)
  else none

/-- The values of the session and the banner. -/
def report (l : LossLedger) (s : LossSnapshot) : LossLedger :=
  let overrun := l.overrun.session s.overrunErrors
  let log := l.log.session s.saveRejectedBytes
  if overrun + log = l.seen then l
  else { l with seen := overrun + log, banner := bannerOf overrun log s }

end LossLedger

namespace Window

/-- The window of a poll that its watchdogs let get to the snapshot. -/
def awake (w : Window) (now : Nat) : Option Window :=
  let opening := w.openingWatchdog now
  if opening.2 then none
  else
    let closing := opening.1.closingWatchdog now
    if closing.2 then none else some closing.1

/-- The poll is not ended by the grace window, and so gets to the values of the session. -/
def passesGrace (w : Window) (i : PollInput) : Bool :=
  let w := abandonReconnect { w with portState := i.snapshot.portState }
  let wasOpen := w.vm.hsm.state = .opened ∨ w.vm.hsm.state = .opening
  if i.snapshot.portState = some .portFault ∧ (wasOpen ∨ w.grace.deadline.isSome) then false
  else
    match w.grace.deadline with
    | none => true
    | some deadline => (w.driveReconnect deadline i).grace.deadline.isNone

/-- The window at the call of `poll_status` that an event makes. -/
def polled (w : Window) : Event → Option (Window × PollInput)
  | .poll i => some (w, i)
  | .openPort status i =>
    if ¬ w.vm.intentOpen.2 then none
    else
      let w := { w with vm := w.vm.intentOpen.1 }
      if w.vm.portPresent = false ∨ w.serialPort = "" then none
      else some (if status ≠ .ok then { w with vm := w.vm.rejectOpen.1 } else w, i)
  | .closePort i =>
    if ¬ w.vm.intentClose.2 then none else some ({ w with vm := w.vm.intentClose.1 }, i)
  | .setPortPresent _ | .selectPort _ _ => none

theorem pollStatus_awake {w v : Window} {i : PollInput} (h : w.awake i.now = some v) :
    w.pollStatus i = v.pollSnapshot i := by
  unfold awake at h
  unfold pollStatus
  dsimp only at h ⊢
  split_ifs at h ⊢
  rw [Option.some.inj h]

/-- Behind the grace window the view-model takes the snapshot over. -/
theorem pollSnapshot_passes {w : Window} {i : PollInput} (h : w.passesGrace i = true) :
    ∃ v : Window, w.pollSnapshot i = v.takeSnapshot i.snapshot := by
  unfold passesGrace at h
  unfold pollSnapshot
  dsimp only at h ⊢
  generalize abandonReconnect { w with portState := i.snapshot.portState } = u at h ⊢
  split_ifs at h ⊢
  cases hdeadline : u.grace.deadline with
  | none => exact ⟨u, rfl⟩
  | some deadline =>
    rw [hdeadline] at h
    have hended : ¬ (u.driveReconnect deadline i).grace.deadline.isSome = true := by
      simpa using h
    dsimp only
    rw [if_neg hended]
    exact ⟨u.driveReconnect deadline i, rfl⟩

theorem step_polled {w v : Window} {e : Event} {i : PollInput} (h : w.polled e = some (v, i)) :
    w.step e = v.pollStatus i := by
  cases e with
  | poll j =>
    obtain ⟨rfl, rfl⟩ := Prod.mk.inj (Option.some.inj h)
    rfl
  | openPort status j =>
    unfold polled at h
    unfold step coreOpen
    dsimp only at h ⊢
    split_ifs at h ⊢ <;> obtain ⟨rfl, rfl⟩ := Prod.mk.inj (Option.some.inj h) <;> rfl
  | closePort j =>
    unfold polled at h
    unfold step coreClose
    dsimp only at h ⊢
    split_ifs at h ⊢
    obtain ⟨rfl, rfl⟩ := Prod.mk.inj (Option.some.inj h)
    rfl
  | setPortPresent present => cases h
  | selectPort name hardwareId => cases h

end Window

/-! ## The polls of a run -/

/-- A polled snapshot, and the values of the session where the poll got to them. -/
structure LossSample where
  generation : Nat
  snapshot : LossSnapshot
  shown : Option (Int × Int)
  deriving DecidableEq, Repr

def LossSample.raw (p : LossSample) (kind : LossKind) : Nat := p.snapshot.raw kind

def LossSample.value (p : LossSample) : LossKind → Option Int
  | .overrun => p.shown.map (·.1)
  | .log => p.shown.map (·.2)

/-- The ledger's part of one poll. -/
def LossLedger.poll (l : LossLedger) (generation : Nat) (s : LossSnapshot) (passes : Bool) :
    LossSample × LossLedger :=
  let l := l.baseline generation s
  if passes then
    (⟨generation, s,
      some (l.overrun.session s.overrunErrors, l.log.session s.saveRejectedBytes)⟩, l.report s)
  else (⟨generation, s, none⟩, l)

/-- One event: at most one snapshot is polled. -/
def lossStep (s : Window × LossLedger) (e : Window.Event × LossSnapshot) :
    List LossSample × (Window × LossLedger) :=
  match s.1.polled e.1 with
  | none => ([], (s.1.step e.1, s.2))
  | some (v, i) =>
    match v.awake i.now with
    | none => ([], (s.1.step e.1, s.2))
    | some v =>
      let r := s.2.poll i.snapshot.generation e.2 (v.passesGrace i)
      ([r.1], (s.1.step e.1, r.2))

/-- The polled snapshots of a run. -/
def lossSamples (w : Window) (es : List (Window.Event × LossSnapshot)) : List LossSample :=
  (Transition.transduce lossStep (w, {}) es).1

end Xcom.ViewModel
