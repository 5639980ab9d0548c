import Xcom.ViewModel.GraceWindow

/-!
# The port the grace driver opens

What a window remembers of the fault it was armed for decides which of the listed ports may
be adopted; every change of the selected port over a run is measured against it.
-/

namespace Xcom.ViewModel

/-! ## What may be adopted -/

/-- What is remembered when a window is armed: the ports that were there, and the texts of
the port that was lost. -/
structure Remembered where
  present : List PortInfo
  desc : Option String
  hwid : Option String
  deriving DecidableEq, Repr

/-- The entry is none of the ports that were there, nor the one that was lost. -/
def Remembered.IsNew (m : Remembered) (original : String) (p : PortInfo) : Prop :=
  p.name ≠ original ∧ p.name ∉ presentPortNames m.present

/-- A new entry with the remembered hardware id. -/
def Remembered.SameHardware (m : Remembered) (original : String) (p : PortInfo) : Prop :=
  m.IsNew original p ∧ p.hardwareId ≠ "" ∧ some p.hardwareId = m.hwid

/-- A new entry with the remembered description. -/
def Remembered.SameDescription (m : Remembered) (original : String) (p : PortInfo) : Prop :=
  m.IsNew original p ∧ p.description ≠ "" ∧ some p.description = m.desc

instance (m : Remembered) (original : String) : DecidablePred (m.IsNew original) := fun _ =>
  inferInstanceAs (Decidable (_ ∧ _))

instance (m : Remembered) (original : String) : DecidablePred (m.SameHardware original) :=
  fun _ => inferInstanceAs (Decidable (_ ∧ _))

instance (m : Remembered) (original : String) : DecidablePred (m.SameDescription original) :=
  fun _ => inferInstanceAs (Decidable (_ ∧ _))

/-- The entry that stands for the lost adapter: the only new one with its hardware id or,
where no new one has that, the only new one with its description. -/
def Remembered.Stands (m : Remembered) (ports : List PortInfo) (original : String)
    (p : PortInfo) : Prop :=
  (m.SameHardware original p ∧ ports.countP (m.SameHardware original ·) = 1) ∨
    (m.SameDescription original p ∧ ports.countP (m.SameHardware original ·) = 0 ∧
      ports.countP (m.SameDescription original ·) = 1)

/-- `target` may be opened in place of `original`. -/
structure Remembered.Adoptable (m : Remembered) (ports : List PortInfo)
    (original target : String) : Prop where
  selected : original ≠ ""
  gone : ∀ p ∈ ports, p.name ≠ original
  named : target ≠ ""
  stands : ∃ p ∈ ports, p.name = target ∧ m.Stands ports original p

/-- An adopted name is another one, and was not there when the window was armed. -/
theorem Remembered.Adoptable.absent {m : Remembered} {ports : List PortInfo}
    {original target : String} (h : m.Adoptable ports original target) :
    target ≠ original ∧ ∀ p ∈ m.present, p.name ≠ target := by
  obtain ⟨p, -, hname, hstands⟩ := h.stands
  have hnew : m.IsNew original p := by
    rcases hstands with ⟨hsame, -⟩ | ⟨hsame, -⟩
    · exact hsame.1
    · exact hsame.1
  subst hname
  refine ⟨hnew.1, ?_⟩
  intro q hq heq
  apply hnew.2
  apply List.mem_filter.mpr
  exact ⟨heq ▸ List.mem_map_of_mem hq, by simpa using h.named⟩

/-! ## What is chosen -/

/-- The fields of the window are those of `m`. -/
structure Grace.Remembers (g : Grace) (m : Remembered) : Prop where
  known : g.knownPorts = some (presentPortNames m.present)
  desc : g.portDesc = m.desc
  hwid : g.portHwid = m.hwid

section Resolve

variable {g : Grace} {m : Remembered}

theorem Grace.Remembers.hardware (h : g.Remembers m) (ports : List PortInfo)
    (original : String) :
    ((ports.filter fun p => p.name ≠ original ∧ p.name ∉ g.knownPorts.getD []).filter
      fun p => p.hardwareId ≠ "" ∧ some p.hardwareId = g.portHwid) =
    ports.filter (m.SameHardware original ·) := by
  rw [List.filter_filter, h.known, h.hwid]
  apply List.filter_congr
  intro p _
  simp [Remembered.SameHardware, Remembered.IsNew, and_comm]

theorem Grace.Remembers.description (h : g.Remembers m) (ports : List PortInfo)
    (original : String) :
    ((ports.filter fun p => p.name ≠ original ∧ p.name ∉ g.knownPorts.getD []).filter
      fun p => p.description ≠ "" ∧ some p.description = g.portDesc) =
    ports.filter (m.SameDescription original ·) := by
  rw [List.filter_filter, h.known, h.desc]
  apply List.filter_congr
  intro p _
  simp [Remembered.SameDescription, Remembered.IsNew, and_comm]

/-- What is found, in the words of what is remembered: one name by hardware id or, where
none has it, one by description. -/
theorem Grace.Remembers.resolve_iff (h : g.Remembers m) {ports : List PortInfo}
    {original : String} (hselected : original ≠ "") (hgone : ∀ p ∈ ports, p.name ≠ original)
    (target : String) :
    (resolveReconnectPort g ports original).matched = true ∧
        (resolveReconnectPort g ports original).target = target ↔
      (ports.filter (m.SameHardware original ·)).map (·.name) = [target] ∨
        (ports.filter (m.SameHardware original ·)).map (·.name) = [] ∧
          (ports.filter (m.SameDescription original ·)).map (·.name) = [target] := by
  have hpresent : ¬ (ports.any fun p => decide (p.name = original)) = true := by
    intro hany
    obtain ⟨p, hp, hname⟩ := List.any_eq_true.mp hany
    exact hgone p hp (of_decide_eq_true hname)
  unfold resolveReconnectPort
  rw [if_neg hselected]
  dsimp only
  rw [if_neg hpresent, h.hardware, h.description]
  generalize (ports.filter (m.SameHardware original ·)).map (·.name) = byHardware
  generalize (ports.filter (m.SameDescription original ·)).map (·.name) = byDescription
  cases byHardware with
  | nil =>
    cases byDescription with
    | nil => simp
    | cons b rest => cases rest <;> simp
  | cons a rest => cases rest <;> simp

/-- One name found stands for one entry counted. -/
theorem found_iff (p : PortInfo → Prop) [DecidablePred p] (ports : List PortInfo)
    (target : String) :
    (ports.filter (p ·)).map (·.name) = [target] ↔
      (∃ q ∈ ports, q.name = target ∧ p q) ∧ ports.countP (p ·) = 1 := by
  constructor
  · intro hfound
    have hmem : target ∈ (ports.filter (p ·)).map (·.name) := by simp [hfound]
    obtain ⟨q, hq, hname⟩ := List.mem_map.mp hmem
    obtain ⟨hlisted, hp⟩ := List.mem_filter.mp hq
    refine ⟨⟨q, hlisted, hname, of_decide_eq_true hp⟩, ?_⟩
    rw [List.countP_eq_length_filter, ← List.length_map (f := (·.name)), hfound]
    rfl
  · rintro ⟨⟨q, hlisted, hname, hp⟩, hcount⟩
    rw [List.countP_eq_length_filter, List.length_eq_one_iff] at hcount
    obtain ⟨only, honly⟩ := hcount
    have hq : q ∈ ports.filter (p ·) := List.mem_filter.mpr ⟨hlisted, decide_eq_true hp⟩
    rw [honly] at hq
    rw [honly, ← List.mem_singleton.mp hq, List.map_singleton, hname]

/-- The name that is found is that of the entry that stands for the lost adapter. -/
theorem Grace.Remembers.matched_iff (h : g.Remembers m) {ports : List PortInfo}
    {original : String} (hselected : original ≠ "") (hgone : ∀ p ∈ ports, p.name ≠ original)
    (target : String) :
    (resolveReconnectPort g ports original).matched = true ∧
        (resolveReconnectPort g ports original).target = target ↔
      ∃ p ∈ ports, p.name = target ∧ m.Stands ports original p := by
  have hnone : (ports.filter (m.SameHardware original ·)).map (·.name) = [] ↔
      ports.countP (m.SameHardware original ·) = 0 := by
    rw [List.map_eq_nil_iff, List.countP_eq_length_filter, List.length_eq_zero_iff]
  rw [h.resolve_iff hselected hgone, found_iff, found_iff, hnone]
  constructor
  · rintro (⟨⟨p, hp, hname, hsame⟩, hone⟩ | ⟨hzero, ⟨p, hp, hname, hsame⟩, hone⟩)
    · exact ⟨p, hp, hname, .inl ⟨hsame, hone⟩⟩
    · exact ⟨p, hp, hname, .inr ⟨hsame, hzero, hone⟩⟩
  · rintro ⟨p, hp, hname, ⟨hsame, hone⟩ | ⟨hsame, hzero, hone⟩⟩
    · exact .inl ⟨⟨p, hp, hname, hsame⟩, hone⟩
    · exact .inr ⟨hzero, ⟨p, hp, hname, hsame⟩, hone⟩

end Resolve

namespace Window

/-- The port after the choice: another one exactly where it may be adopted. -/
theorem adoptPort_iff {w : Window} {m : Remembered} (h : w.grace.Remembers m)
    (ports : List PortInfo) {target : String} (hother : target ≠ w.serialPort) :
    (w.adoptPort (resolveReconnectPort w.grace ports w.serialPort)).serialPort = target ↔
      m.Adoptable ports w.serialPort target := by
  have hadopt : (w.adoptPort (resolveReconnectPort w.grace ports w.serialPort)).serialPort =
        target ↔
      (resolveReconnectPort w.grace ports w.serialPort).matched = true ∧ target ≠ "" ∧
        (resolveReconnectPort w.grace ports w.serialPort).target = target := by
    unfold adoptPort
    dsimp only
    split
    · rename_i hguard
      constructor
      · rintro rfl
        exact ⟨hguard.1, hguard.2.1, rfl⟩
      · exact fun hmatched => hmatched.2.2
    · rename_i hguard
      constructor
      · exact fun heq => absurd heq.symm hother
      · rintro ⟨hmatched, hnamed, rfl⟩
        exact absurd ⟨hmatched, hnamed, hother⟩ hguard
  rw [hadopt]
  by_cases hselected : w.serialPort = ""
  · have hrefused : (resolveReconnectPort w.grace ports w.serialPort).matched = false := by
      rw [resolveReconnectPort, if_pos hselected]
    constructor
    · intro hmatched
      rw [hrefused] at hmatched
      cases hmatched.1
    · exact fun hadoptable => absurd hselected hadoptable.selected
  · by_cases hgone : ∀ p ∈ ports, p.name ≠ w.serialPort
    · rw [and_left_comm, h.matched_iff hselected hgone]
      constructor
      · exact fun hfound => ⟨hselected, hgone, hfound.1, hfound.2⟩
      · exact fun hadoptable => ⟨hadoptable.named, hadoptable.stands⟩
    · have hpresent : (ports.any fun p => decide (p.name = w.serialPort)) = true := by
        obtain ⟨p, hp⟩ := not_forall.mp hgone
        obtain ⟨hlisted, hname⟩ := Classical.not_imp.mp hp
        exact List.any_eq_true.mpr ⟨p, hlisted, decide_eq_true (not_not.mp hname)⟩
      constructor
      · intro hmatched
        have hsame := hmatched.2.2
        rw [resolveReconnectPort, if_neg hselected, if_pos hpresent] at hsame
        exact absurd hsame.symm hother
      · exact fun hadoptable => absurd hadoptable.gone hgone

/-! ## One poll -/

/-- What a part of a poll does to the port: the window stays the same, a window that is still
open remembers what it did, and another port is one the open window may adopt. -/
structure Follows (ports : List PortInfo) (w w' : Window) : Prop where
  windows : w'.windows = w.windows
  hwid : w'.portHwid = w.portHwid
  memory : w'.grace.deadline.isSome → w.grace.deadline.isSome ∧
    ∀ m, w.grace.Remembers m → w'.grace.Remembers m
  target : w'.serialPort ≠ w.serialPort → w.grace.deadline.isSome ∧
    ∀ m, w.grace.Remembers m → m.Adoptable ports w.serialPort w'.serialPort

variable {ports : List PortInfo} {w w' w'' : Window}

/-- A part that leaves the port alone, and the window or its memory. -/
theorem Follows.of_same (hport : w'.serialPort = w.serialPort) (hhwid : w'.portHwid = w.portHwid)
    (hwindows : w'.windows = w.windows)
    (hmemory : w'.grace.deadline.isSome → w'.grace = w.grace) : Follows ports w w' where
  windows := hwindows
  hwid := hhwid
  memory := by
    intro harmed
    have hgrace := hmemory harmed
    rw [hgrace] at harmed ⊢
    exact ⟨harmed, fun _ h => h⟩
  target := fun hother => absurd hport hother

/-- What an open window remembers goes through both parts. -/
theorem Follows.memory_trans (h : Follows ports w w') (h' : Follows ports w' w'')
    (harmed : w''.grace.deadline.isSome) :
    w.grace.deadline.isSome ∧ ∀ m, w.grace.Remembers m → w''.grace.Remembers m := by
  obtain ⟨harmed', hmemory'⟩ := h'.memory harmed
  obtain ⟨harmed, hmemory⟩ := h.memory harmed'
  exact ⟨harmed, fun m hm => hmemory' m (hmemory m hm)⟩

theorem Follows.same_trans (h : Follows ports w w') (hport : w'.serialPort = w.serialPort)
    (h' : Follows ports w' w'') : Follows ports w w'' where
  windows := h'.windows.trans h.windows
  hwid := h'.hwid.trans h.hwid
  memory := h.memory_trans h'
  target := by
    intro hother
    rw [← hport] at hother ⊢
    obtain ⟨harmed', hadopt⟩ := h'.target hother
    obtain ⟨harmed, hmemory⟩ := h.memory harmed'
    exact ⟨harmed, fun m hm => hadopt m (hmemory m hm)⟩

theorem Follows.trans_same (h : Follows ports w w') (h' : Follows ports w' w'')
    (hport : w''.serialPort = w'.serialPort) : Follows ports w w'' where
  windows := h'.windows.trans h.windows
  hwid := h'.hwid.trans h.hwid
  memory := h.memory_trans h'
  target := by
    rw [hport]
    exact h.target

theorem attempt_port (w : Window) (i : PollInput) :
    (w.attempt i).serialPort = w.serialPort ∧ (w.attempt i).portHwid = w.portHwid ∧
      (w.attempt i).grace.knownPorts = w.grace.knownPorts ∧
      (w.attempt i).grace.portDesc = w.grace.portDesc ∧
      (w.attempt i).grace.portHwid = w.grace.portHwid := by
  unfold attempt
  split
  · exact ⟨rfl, rfl, rfl, rfl, rfl⟩
  · split
    · exact ⟨rfl, rfl, rfl, rfl, rfl⟩
    · split <;> exact ⟨rfl, rfl, rfl, rfl, rfl⟩

theorem adoptPort_port (w : Window) (r : Resolved) :
    (w.adoptPort r).portHwid = w.portHwid ∧
      (w.adoptPort r).grace.knownPorts = w.grace.knownPorts ∧
      (w.adoptPort r).grace.portDesc = w.grace.portDesc ∧
      (w.adoptPort r).grace.portHwid = w.grace.portHwid := by
  unfold adoptPort
  dsimp only
  split <;> exact ⟨rfl, rfl, rfl, rfl⟩

/-- The driver in an armed window. -/
theorem follows_driveReconnect {deadline : Nat} (harmed : w.grace.deadline = some deadline)
    (i : PollInput) : Follows i.resolvePorts w (w.driveReconnect deadline i) := by
  have hopen : w.grace.deadline.isSome := by simp [harmed]
  by_cases hexpired : i.now ≥ deadline
  · unfold driveReconnect
    rw [if_pos hexpired]
    refine .of_same rfl rfl rfl ?_
    intro h
    simp [Grace.drop] at h
  · obtain ⟨-, hdeadline, hwindows, -⟩ := driveReconnect_running (w := w) hexpired
    unfold driveReconnect at hdeadline hwindows ⊢
    rw [if_neg hexpired] at hdeadline hwindows ⊢
    obtain ⟨hhwid, hknown, hdesc, hgraceHwid⟩ :=
      w.adoptPort_port (resolveReconnectPort w.grace i.resolvePorts w.serialPort)
    obtain ⟨hport', hhwid', hknown', hdesc', hgraceHwid'⟩ :=
      (w.adoptPort (resolveReconnectPort w.grace i.resolvePorts w.serialPort)).attempt_port i
    refine ⟨hwindows, hhwid'.trans hhwid, ?_, ?_⟩
    · intro _
      refine ⟨hopen, fun m hm => ?_⟩
      exact ⟨(hknown'.trans hknown).trans hm.known, (hdesc'.trans hdesc).trans hm.desc,
        (hgraceHwid'.trans hgraceHwid).trans hm.hwid⟩
    · intro hother
      refine ⟨hopen, fun m hm => ?_⟩
      rw [hport'] at hother ⊢
      exact (adoptPort_iff hm i.resolvePorts hother).mp rfl

/-- What arming remembers. -/
def remember (w : Window) (i : PollInput) : Remembered where
  present := i.presentPorts
  desc := portDescription i.descriptionPorts w.serialPort
  hwid := portHardwareId i.hardwarePorts w.serialPort <|> w.portHwid

theorem armReconnect_remembers (w : Window) (i : PollInput) :
    (w.armReconnect i).grace.Remembers (w.remember i) :=
  ⟨rfl, rfl, rfl⟩

theorem follows_absorb (ports : List PortInfo) (w : Window) (snap : SnapshotTable) :
    Follows ports w (w.absorb snap) ∧ (w.absorb snap).serialPort = w.serialPort := by
  unfold absorb
  dsimp only
  split
  · split
    · refine ⟨.of_same rfl rfl rfl ?_, rfl⟩
      intro h
      simp [Grace.drop] at h
    · exact ⟨.of_same rfl rfl rfl fun _ => rfl, rfl⟩
  · exact ⟨.of_same rfl rfl rfl fun _ => rfl, rfl⟩

theorem follows_takeSnapshot (ports : List PortInfo) (w : Window) (snap : SnapshotTable) :
    Follows ports w (w.takeSnapshot snap) ∧ (w.takeSnapshot snap).serialPort = w.serialPort :=
  ⟨.of_same rfl rfl rfl fun _ => rfl, rfl⟩

theorem follows_abandonReconnect (ports : List PortInfo) (w : Window) :
    Follows ports w w.abandonReconnect ∧ w.abandonReconnect.serialPort = w.serialPort := by
  unfold abandonReconnect
  split
  · refine ⟨.of_same rfl rfl rfl ?_, rfl⟩
    intro h
    simp [Grace.drop] at h
  · exact ⟨.of_same rfl rfl rfl fun _ => rfl, rfl⟩

/-- The watchdogs do not touch the window or the port. -/
theorem watchdogs_port (ports : List PortInfo) (w : Window) (now : Nat) :
    Follows ports w (w.openingWatchdog now).1 ∧
      (w.openingWatchdog now).1.serialPort = w.serialPort ∧
    Follows ports w (w.closingWatchdog now).1 ∧
      (w.closingWatchdog now).1.serialPort = w.serialPort := by
  have hsame : ∀ v : Window, v.serialPort = w.serialPort → v.portHwid = w.portHwid →
      v.windows = w.windows → v.grace = w.grace →
      Follows ports w v ∧ v.serialPort = w.serialPort := by
    intro v hport hhwid hwindows hgrace
    exact ⟨.of_same hport hhwid hwindows fun _ => hgrace, hport⟩
  refine and_assoc.mp ⟨?_, ?_⟩
  · unfold openingWatchdog
    split
    · split
      · exact hsame _ rfl rfl rfl rfl
      · split
        · exact hsame _ rfl rfl rfl rfl
        · split <;> exact hsame _ rfl rfl rfl rfl
    · exact hsame _ rfl rfl rfl rfl
  · unfold closingWatchdog
    split
    · split
      · exact hsame _ rfl rfl rfl rfl
      · split <;> exact hsame _ rfl rfl rfl rfl
    · exact hsame _ rfl rfl rfl rfl

/-- A poll: the window goes on, or the poll arms another one and drives that. -/
def Polled (i : PollInput) (w w' : Window) : Prop :=
  Follows i.resolvePorts w w' ∨
    ∃ v : Window, v.windows = w.windows + 1 ∧ v.serialPort = w.serialPort ∧
      v.portHwid = w.portHwid ∧ v.grace.Remembers (w.remember i) ∧ Follows i.resolvePorts v w'

theorem Polled.after {i : PollInput} (h : Follows i.resolvePorts w w')
    (hport : w'.serialPort = w.serialPort) (hpolled : Polled i w' w'') : Polled i w w'' := by
  rcases hpolled with hfollows | ⟨v, hwindows, hserial, hhwid, hremembers, hfollows⟩
  · exact .inl (h.same_trans hport hfollows)
  · refine .inr ⟨v, by rw [hwindows, h.windows], hserial.trans hport, hhwid.trans h.hwid, ?_,
      hfollows⟩
    have hsame : w'.remember i = w.remember i := by
      rw [remember, remember, hport, h.hwid]
    exact hsame ▸ hremembers

theorem polled_pollSnapshot (w : Window) (i : PollInput) : Polled i w (w.pollSnapshot i) := by
  have hnoted : Follows i.resolvePorts w { w with portState := i.snapshot.portState } :=
    .of_same rfl rfl rfl fun _ => rfl
  obtain ⟨hleft, hleftPort⟩ :=
    follows_abandonReconnect i.resolvePorts
      { w with portState := i.snapshot.portState }
  refine Polled.after hnoted rfl (Polled.after hleft hleftPort ?_)
  unfold pollSnapshot
  dsimp only
  generalize abandonReconnect { w with portState := i.snapshot.portState } = v
  split
  · unfold pollFault
    split
    · rename_i deadline hdeadline
      exact .inl (follows_driveReconnect hdeadline i)
    · refine .inr ⟨v.armReconnect i, rfl, rfl, rfl, v.armReconnect_remembers i, ?_⟩
      exact follows_driveReconnect rfl i
  · split
    · exact .inl (follows_takeSnapshot i.resolvePorts v i.snapshot).1
    · rename_i deadline hdeadline
      have hdriven := follows_driveReconnect hdeadline i
      split
      · obtain ⟨hfollows, hport⟩ := follows_absorb i.resolvePorts
          (v.driveReconnect deadline i) i.snapshot
        exact .inl (hdriven.trans_same hfollows hport)
      · obtain ⟨hfollows, hport⟩ := follows_takeSnapshot i.resolvePorts
          (v.driveReconnect deadline i) i.snapshot
        exact .inl (hdriven.trans_same hfollows hport)

theorem polled_pollStatus (w : Window) (i : PollInput) : Polled i w (w.pollStatus i) := by
  unfold pollStatus
  dsimp only
  obtain ⟨hopening, hopeningPort, -⟩ := w.watchdogs_port i.resolvePorts i.now
  split
  · exact .inl hopening
  · obtain ⟨-, -, hclosing, hclosingPort⟩ :=
      (w.openingWatchdog i.now).1.watchdogs_port i.resolvePorts i.now
    split
    · exact .inl (hopening.same_trans hopeningPort hclosing)
    · exact Polled.after hopening hopeningPort
        (Polled.after hclosing hclosingPort (polled_pollSnapshot _ i))

/-- The view-model has no part in it. -/
theorem polled_setVm (w : Window) (vm : ViewModel) (i : PollInput) :
    Polled i w ({ w with vm := vm }.pollStatus i) := by
  have hset : Follows i.resolvePorts w { w with vm := vm } :=
    .of_same rfl rfl rfl fun _ => rfl
  have hpolled : Polled i { w with vm := vm } ({ w with vm := vm }.pollStatus i) :=
    polled_pollStatus _ i
  exact Polled.after hset rfl hpolled

end Window

/-! ## Runs -/

/-- A window, and what was remembered when the last grace window was armed; the source keeps
the latter in the fields of the window only. -/
structure Watch where
  window : Window
  armedFor : Option Remembered

/-- What an event has the window read. -/
def Window.Event.input : Window.Event → Option PollInput
  | .poll i => some i
  | .openPort _ i => some i
  | .closePort i => some i
  | .setPortPresent _ => none
  | .selectPort _ _ => none

namespace Watch

/-- An event; where it arms a grace window, that is remembered. -/
def step (s : Watch) (e : Window.Event) : Watch where
  window := s.window.step e
  armedFor :=
    if (s.window.step e).windows = s.window.windows then s.armedFor
    else e.input.map s.window.remember

def run (s : Watch) (es : List Window.Event) : Watch := es.foldl step s

/-- A window of a new program. -/
def new (serialPort : String) (graceMs : Nat) : Watch := ⟨.new serialPort graceMs, none⟩

/-- An open window has in its fields what was remembered. -/
def Remembers (s : Watch) : Prop :=
  s.window.grace.deadline.isSome → ∃ m, s.armedFor = some m ∧ s.window.grace.Remembers m

/-- The user picks a port. -/
def Selects (e : Window.Event) : Prop := ∃ name hardwareId, e = .selectPort name hardwareId

/-- What one event does: the fields stay in step with the memory, and another port is one
the user picked or one that may be adopted. -/
structure Safe (s : Watch) (e : Window.Event) : Prop where
  remembers : (s.step e).Remembers
  target : (s.step e).window.serialPort ≠ s.window.serialPort → Selects e ∨
    ∃ i m, e.input = some i ∧ (s.step e).armedFor = some m ∧
      m.Adoptable i.resolvePorts s.window.serialPort (s.step e).window.serialPort

/-- An event that polls. -/
theorem safe_of_polled {s : Watch} (h : s.Remembers) {e : Window.Event} {i : PollInput}
    (hinput : e.input = some i) (hpolled : s.window.Polled i (s.window.step e)) :
    s.Safe e := by
  rcases hpolled with hfollows | ⟨v, hwindows, hserial, -, hremembers, hfollows⟩
  · have harmedFor : (s.step e).armedFor = s.armedFor := if_pos hfollows.windows
    constructor
    · intro harmed
      obtain ⟨hbefore, hmemory⟩ := hfollows.memory harmed
      obtain ⟨m, hm, hremembers⟩ := h hbefore
      exact ⟨m, harmedFor.trans hm, hmemory m hremembers⟩
    · intro hother
      obtain ⟨hbefore, hadopt⟩ := hfollows.target hother
      obtain ⟨m, hm, hremembers⟩ := h hbefore
      exact .inr ⟨i, m, hinput, harmedFor.trans hm, hadopt m hremembers⟩
  · have hanother : ¬ (s.window.step e).windows = s.window.windows := by
      rw [hfollows.windows, hwindows]
      exact Nat.succ_ne_self _
    have harmedFor : (s.step e).armedFor = some (s.window.remember i) := by
      show (if (s.window.step e).windows = s.window.windows then s.armedFor
        else e.input.map s.window.remember) = _
      rw [if_neg hanother, hinput]
      rfl
    constructor
    · intro harmed
      exact ⟨_, harmedFor, (hfollows.memory harmed).2 _ hremembers⟩
    · intro hother
      have hadopt := (hfollows.target (hserial ▸ hother)).2 _ hremembers
      exact .inr ⟨i, _, hinput, harmedFor, hserial ▸ hadopt⟩

/-- An event that leaves the grace window alone. -/
theorem safe_of_same {s : Watch} (h : s.Remembers) {e : Window.Event}
    (hgrace : (s.window.step e).grace = s.window.grace)
    (hwindows : (s.window.step e).windows = s.window.windows)
    (hport : (s.window.step e).serialPort ≠ s.window.serialPort → Selects e) : s.Safe e where
  remembers := by
    intro harmed
    have harmedFor : (s.step e).armedFor = s.armedFor := if_pos hwindows
    have hbefore : s.window.grace.deadline.isSome := by
      rw [← hgrace]
      exact harmed
    obtain ⟨m, hm, hremembers⟩ := h hbefore
    refine ⟨m, harmedFor.trans hm, ?_⟩
    show (s.window.step e).grace.Remembers m
    rw [hgrace]
    exact hremembers
  target := fun hother => .inl (hport hother)

theorem safe_of_kept {s : Watch} (h : s.Remembers) {e : Window.Event}
    (hgrace : (s.window.step e).grace = s.window.grace)
    (hwindows : (s.window.step e).windows = s.window.windows)
    (hport : (s.window.step e).serialPort = s.window.serialPort) : s.Safe e :=
  safe_of_same h hgrace hwindows fun hother => absurd hport hother

theorem safe_step {s : Watch} (h : s.Remembers) (e : Window.Event) : s.Safe e := by
  cases e with
  | poll i => exact safe_of_polled h rfl (s.window.polled_pollStatus i)
  | openPort status i =>
    by_cases hopen : s.window.vm.intentOpen.2 = true
    · have hstep : s.window.step (.openPort status i) = s.window.coreOpen status i := rfl
      rw [Window.coreOpen, if_neg (not_not.mpr hopen)] at hstep
      dsimp only at hstep
      split at hstep
      · exact safe_of_kept h (by rw [hstep]) (by rw [hstep]) (by rw [hstep])
      · apply safe_of_polled h rfl
        rw [hstep]
        split
        · exact s.window.polled_setVm _ i
        · exact s.window.polled_setVm _ i
    · have hstep : s.window.step (.openPort status i) = s.window := if_pos hopen
      exact safe_of_kept h (by rw [hstep]) (by rw [hstep]) (by rw [hstep])
  | closePort i =>
    by_cases hclose : s.window.vm.intentClose.2 = true
    · have hstep : s.window.step (.closePort i) =
          { s.window with vm := s.window.vm.intentClose.1 }.pollStatus i :=
        if_neg (not_not.mpr hclose)
      apply safe_of_polled h rfl
      rw [hstep]
      exact s.window.polled_setVm _ i
    · have hstep : s.window.step (.closePort i) = s.window := if_pos hclose
      exact safe_of_kept h (by rw [hstep]) (by rw [hstep]) (by rw [hstep])
  | setPortPresent present => exact safe_of_kept h rfl rfl rfl
  | selectPort name hardwareId =>
    exact safe_of_same h rfl rfl fun _ => ⟨name, hardwareId, rfl⟩

theorem remembers_run {s : Watch} (h : s.Remembers) (es : List Window.Event) :
    (s.run es).Remembers := by
  induction es generalizing s with
  | nil => exact h
  | cons e es ih => exact ih (safe_step h e).remembers

end Watch

/-- Whatever is remembered and listed, the driver takes another port exactly where that port
may be adopted.  Over a run the selected port changes only where the user picks one, or to
one that may be adopted for what was remembered when the window was armed. -/
theorem reconnect_target_safe :
    (∀ (w : Window) (m : Remembered) (ports : List PortInfo) (target : String),
      w.grace.Remembers m → target ≠ w.serialPort →
      ((w.adoptPort (resolveReconnectPort w.grace ports w.serialPort)).serialPort = target ↔
        m.Adoptable ports w.serialPort target)) ∧
    ∀ (serialPort : String) (graceMs : Nat) (es : List Window.Event) (e : Window.Event),
      let s := (Watch.new serialPort graceMs).run es
      (s.step e).window.serialPort ≠ s.window.serialPort → Watch.Selects e ∨
        ∃ i m, e.input = some i ∧ (s.step e).armedFor = some m ∧
          m.Adoptable i.resolvePorts s.window.serialPort (s.step e).window.serialPort ∧
          ∀ p ∈ m.present, p.name ≠ (s.step e).window.serialPort := by
  refine ⟨fun w m ports target h hother => Window.adoptPort_iff h ports hother, ?_⟩
  intro serialPort graceMs es e s hother
  have hinit : (Watch.new serialPort graceMs).Remembers := fun h => by cases h
  rcases (Watch.safe_step (Watch.remembers_run hinit es) e).target hother with
    hselects | ⟨i, m, hinput, harmedFor, hadopt⟩
  · exact .inl hselects
  · exact .inr ⟨i, m, hinput, harmedFor, hadopt, hadopt.absent.2⟩

/-- A poll of a session with the ports that are listed. -/
def samplePoll (now : Nat) (state : PortState) (ports : List PortInfo) : PollInput :=
  ⟨now, ⟨some state, 1, []⟩, ports, ports, ports, ports, .ok, none⟩

/-- The lost adapter, and the one that comes back beside a peer that was there. -/
def samplePorts : List PortInfo := [⟨"COM3", "USB", "id"⟩, ⟨"COM4", "USB", "id"⟩]

def renamedPorts : List PortInfo := [⟨"COM4", "USB", "id"⟩, ⟨"COM7", "USB", "id"⟩]

/-- A session that faulted. -/
def sampleFault : List Window.Event :=
  [.openPort .ok (samplePoll 0 .portOpening samplePorts),
    .poll (samplePoll 250 .portOpen samplePorts), .poll (samplePoll 500 .portFault samplePorts)]

/-- The adapter comes back as another port beside its peer, and that port is taken. -/
theorem reconnect_target_safe_renamed :
    (⟨samplePorts, some "USB", some "id"⟩ : Remembered).Adoptable renamedPorts "COM3" "COM7" ∧
    ∃ m, (((Watch.new "COM3" 8000).run sampleFault).step
        (.poll (samplePoll 750 .portFault renamedPorts))).armedFor = some m ∧
      m.Adoptable renamedPorts "COM3" "COM7" ∧ ∀ p ∈ m.present, p.name ≠ "COM7" := by
  constructor
  · have h := (reconnect_target_safe.1
      { Window.new "COM3" 8000 with grace.knownPorts := some (presentPortNames samplePorts)
                                    grace.portDesc := some "USB", grace.portHwid := some "id" }
      ⟨samplePorts, some "USB", some "id"⟩ renamedPorts "COM7" ⟨rfl, rfl, rfl⟩ (by decide)).mp
    exact h (by decide)
  · have h := reconnect_target_safe.2 "COM3" 8000 sampleFault
      (.poll (samplePoll 750 .portFault renamedPorts)) (by decide)
    rcases h with ⟨name, hardwareId, hselects⟩ | ⟨i, m, hinput, harmedFor, hadopt, habsent⟩
    · cases hselects
    · cases hinput
      exact ⟨m, harmedFor, hadopt, habsent⟩

end Xcom.ViewModel
