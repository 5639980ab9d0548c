import Xcom.ViewModel.Interlock

/-!
# What a rejected intent rolls back to

The remembered target is one slot.  A run is judged by its history: the intents that
nothing has resolved yet, and for every reject that was accepted the intent it
answers and the target it consumed.  A forced fault, the grace window and a snapshot
of the same generation resolve an intent and leave the slot alone, so a later reject
can find a target that belongs to no intent any more.
-/

namespace Xcom.ViewModel

/-- The two requests of the user. -/
inductive IntentKind
  | toOpen
  | toClose
  deriving DecidableEq, Repr

/-- An accepted intent and the state it was raised in. -/
structure Intent where
  kind : IntentKind
  raisedIn : UiState
  deriving DecidableEq, Repr

/-- An accepted reject: the unresolved intent it answers, the target that was
remembered and the state that was restored. -/
structure Reject where
  intent : Option Intent
  target : Option UiState
  restored : UiState
  deriving DecidableEq, Repr

/-- The state in which the matching intent was raised, and without such an intent no
remembered target. -/
structure Reject.Sound (r : Reject) : Prop where
  restores : ∀ i, r.intent = some i → r.restored = i.raisedIn
  forgets : r.intent = none → r.target = none

/-- A view-model with its history: the unresolved intents, newest first, and the
accepted rejects. -/
structure History where
  vm : ViewModel := {}
  unresolved : List Intent := []
  rejects : List Reject := []
  deriving DecidableEq, Repr

namespace History

/-- The newest unresolved intent of a kind. -/
def matching (s : History) (kind : IntentKind) : Option Intent :=
  s.unresolved.find? fun i => i.kind = kind

/-- An accepted intent is unresolved. -/
def noteIntent (s : History) (kind : IntentKind) (r : ViewModel × Bool) : History :=
  if r.2 then
    { s with vm := r.1, unresolved := ⟨kind, s.vm.hsm.state⟩ :: s.unresolved }
  else { s with vm := r.1 }

/-- An accepted reject resolves the intent it answers, and those raised after it. -/
def noteReject (s : History) (kind : IntentKind) (r : ViewModel × Bool) : History :=
  if r.2 then
    { vm := r.1
      unresolved := (s.unresolved.dropWhile fun i => i.kind ≠ kind).tail
      rejects := s.rejects ++ [⟨s.matching kind, s.vm.hsm.returnTo, r.1.hsm.state⟩] }
  else { s with vm := r.1 }

/-- Whatever else moves the state machine resolves every intent. -/
def noteOther (s : History) (r : ViewModel × Bool) : History :=
  { s with vm := r.1, unresolved := if r.1.hsm = s.vm.hsm then s.unresolved else [] }

/-- One operation of the view-model. -/
def apply (s : History) (op : Op) : History :=
  match op with
  | .intentOpen => s.noteIntent .toOpen (s.vm.apply op)
  | .intentClose => s.noteIntent .toClose (s.vm.apply op)
  | .rejectOpen => s.noteReject .toOpen (s.vm.apply op)
  | .rejectClose => s.noteReject .toClose (s.vm.apply op)
  | _ => s.noteOther (s.vm.apply op)

theorem apply_intentOpen (s : History) :
    s.apply .intentOpen = s.noteIntent .toOpen s.vm.intentOpen := rfl

theorem apply_intentClose (s : History) :
    s.apply .intentClose = s.noteIntent .toClose s.vm.intentClose := rfl

theorem apply_rejectOpen_eq (s : History) :
    s.apply .rejectOpen = s.noteReject .toOpen s.vm.rejectOpen := rfl

theorem apply_rejectClose_eq (s : History) :
    s.apply .rejectClose = s.noteReject .toClose s.vm.rejectClose := rfl

/-- The view-model and its history under any operations. -/
def machine : Transition.Machine History Op where
  init := {}
  step s op := some (s.apply op)

/-- When a reject is accepted, the remembered target is consumed or belongs to an
unresolved intent; an open that is still unresolved after its target was consumed was
raised in CLOSED. -/
def Remembers (s : History) : Op → Prop
  | .rejectOpen =>
    s.vm.hsm.state = .opening →
      (s.vm.hsm.returnTo = none ∨ s.unresolved ≠ []) ∧
        (s.vm.hsm.returnTo = none → ∀ i ∈ s.unresolved, i.raisedIn = .closed)
  | .rejectClose =>
    s.vm.hsm.state = .closing → s.vm.hsm.returnTo = none ∨ s.unresolved ≠ []
  | _ => True

instance (s : History) (op : Op) : Decidable (s.Remembers op) := by
  cases op <;> unfold Remembers <;> infer_instance

/-- How the unresolved intents, the state and the slot fit: an open shows OPENING, a
close shows CLOSING with its target in the slot, and a close raised over an open has
taken the slot of the open. -/
inductive Fits : Hsm → List Intent → Prop
  | resolved {h : Hsm} : Fits h []
  | opening {h : Hsm} {r : UiState} :
      h.state = .opening → h.returnTo = some r ∨ h.returnTo = none →
      Fits h [⟨.toOpen, r⟩]
  | closing {h : Hsm} {r : UiState} :
      h.state = .closing → h.returnTo = some r → Fits h [⟨.toClose, r⟩]
  | nested {h : Hsm} {r : UiState} :
      h.state = .closing → h.returnTo = some .opening →
      Fits h [⟨.toClose, .opening⟩, ⟨.toOpen, r⟩]

theorem Fits.nil_of_state {h : Hsm} {is : List Intent} (hf : Fits h is)
    (hopening : h.state ≠ .opening) (hclosing : h.state ≠ .closing) : is = [] := by
  cases hf with
  | resolved => rfl
  | opening hst _ => exact absurd hst hopening
  | closing hst _ => exact absurd hst hclosing
  | nested hst _ => exact absurd hst hclosing

theorem Fits.intentOpen {h : Hsm} {is : List Intent} (hf : Fits h is)
    (hcan : h.canOpen = true) : Fits h.intentOpen.1 (⟨.toOpen, h.state⟩ :: is) := by
  have hst : h.state = .closed ∨ h.state = .fault := by simpa [Hsm.canOpen] using hcan
  have hnil : is = [] := by
    apply hf.nil_of_state
    · rcases hst with hst | hst <;> simp [hst]
    · rcases hst with hst | hst <;> simp [hst]
  rw [hnil]
  unfold Hsm.intentOpen
  rw [if_pos hcan]
  exact .opening rfl (.inl rfl)

theorem Fits.intentClose {h : Hsm} {is : List Intent} (hf : Fits h is)
    (hcan : h.canClose = true) : Fits h.intentClose.1 (⟨.toClose, h.state⟩ :: is) := by
  have hst : h.state = .opened ∨ h.state = .opening ∨ h.state = .fault ∨
      h.state = .reconnecting := by
    simpa [Hsm.canClose] using hcan
  have hclosing : h.state ≠ .closing := by
    rcases hst with hst | hst | hst | hst <;> simp [hst]
  unfold Hsm.intentClose
  rw [if_pos hcan]
  cases hf with
  | resolved => exact .closing rfl rfl
  | opening hopening _ =>
    rw [hopening]
    exact .nested rfl rfl
  | closing hst _ => exact absurd hst hclosing
  | nested hst _ => exact absurd hst hclosing

/-- A reject of an open answers the only unresolved intent, if there is one. -/
theorem Fits.opening_cases {h : Hsm} {is : List Intent} (hf : Fits h is)
    (hst : h.state = .opening) :
    is = [] ∨ ∃ r, is = [⟨.toOpen, r⟩] ∧ (h.returnTo = some r ∨ h.returnTo = none) := by
  cases hf with
  | resolved => exact .inl rfl
  | opening _ hslot => exact .inr ⟨_, rfl, hslot⟩
  | closing hclosing _ => simp [hst] at hclosing
  | nested hclosing _ => simp [hst] at hclosing

/-- A reject of a close answers the newest unresolved intent, if there is one. -/
theorem Fits.closing_cases {h : Hsm} {is : List Intent} (hf : Fits h is)
    (hst : h.state = .closing) :
    is = [] ∨
      (∃ r, is = [⟨.toClose, r⟩] ∧ h.returnTo = some r) ∨
      ∃ r, is = [⟨.toClose, .opening⟩, ⟨.toOpen, r⟩] ∧ h.returnTo = some .opening := by
  cases hf with
  | resolved => exact .inl rfl
  | opening hopening _ => simp [hst] at hopening
  | closing _ hslot => exact .inr (.inl ⟨_, rfl, hslot⟩)
  | nested _ hslot => exact .inr (.inr ⟨_, rfl, hslot⟩)

/-- The reject that `reject_open` records. -/
def openReject (s : History) : Reject :=
  ⟨s.matching .toOpen, s.vm.hsm.returnTo, s.vm.hsm.returnTo.getD .closed⟩

/-- The reject that `reject_close` records. -/
def closeReject (s : History) : Reject :=
  ⟨s.matching .toClose, s.vm.hsm.returnTo, s.vm.hsm.returnTo.getD .fault⟩

/-- An accepted `reject_open` is sound exactly when its target is remembered for it. -/
theorem openReject_sound {s : History} (hf : Fits s.vm.hsm s.unresolved)
    (hst : s.vm.hsm.state = .opening) : s.openReject.Sound ↔ s.Remembers .rejectOpen := by
  unfold openReject matching Remembers
  rcases hf.opening_cases hst with hnil | ⟨r, his, hslot | hslot⟩
  · rw [hnil]
    constructor
    · intro hsound _
      exact ⟨.inl (hsound.forgets rfl), by simp⟩
    · intro hrem
      refine ⟨by simp, fun _ => ?_⟩
      rcases (hrem hst).1 with hempty | hne
      · exact hempty
      · exact absurd rfl hne
  · rw [his, hslot]
    constructor
    · intro _ _
      simp
    · intro _
      exact ⟨by simp, by simp⟩
  · rw [his, hslot]
    constructor
    · intro hsound _
      have hr := hsound.restores ⟨.toOpen, r⟩ (by simp)
      simp only [Option.getD_none] at hr
      simp [← hr]
    · intro hrem
      have hr := (hrem hst).2 rfl ⟨.toOpen, r⟩ (by simp)
      simp only at hr
      exact ⟨by simp [hr], by simp⟩

/-- An accepted `reject_close` is sound exactly when its target is remembered for it. -/
theorem closeReject_sound {s : History} (hf : Fits s.vm.hsm s.unresolved)
    (hst : s.vm.hsm.state = .closing) : s.closeReject.Sound ↔ s.Remembers .rejectClose := by
  unfold closeReject matching Remembers
  rcases hf.closing_cases hst with hnil | ⟨r, his, hslot⟩ | ⟨r, his, hslot⟩
  · rw [hnil]
    constructor
    · intro hsound _
      exact .inl (hsound.forgets rfl)
    · intro hrem
      refine ⟨by simp, fun _ => ?_⟩
      rcases hrem hst with hempty | hne
      · exact hempty
      · exact absurd rfl hne
  · rw [his, hslot]
    constructor
    · intro _ _
      simp
    · intro _
      exact ⟨by simp, by simp⟩
  · rw [his, hslot]
    constructor
    · intro _ _
      simp
    · intro _
      exact ⟨by simp, by simp⟩

theorem apply_rejectOpen {s : History} (hst : s.vm.hsm.state = .opening) :
    (s.apply .rejectOpen).rejects = s.rejects ++ [s.openReject] ∧
      (s.apply .rejectOpen).unresolved =
        (s.unresolved.dropWhile fun i => i.kind ≠ .toOpen).tail ∧
      (s.apply .rejectOpen).vm.hsm.state = s.vm.hsm.returnTo.getD .closed ∧
      (s.apply .rejectOpen).vm.hsm.returnTo = none := by
  simp [apply_rejectOpen_eq, noteReject, rejectOpen, showing, Hsm.rejectOpen,
    Hsm.rollBack, openReject, hst]

theorem apply_rejectClose {s : History} (hst : s.vm.hsm.state = .closing) :
    (s.apply .rejectClose).rejects = s.rejects ++ [s.closeReject] ∧
      (s.apply .rejectClose).unresolved =
        (s.unresolved.dropWhile fun i => i.kind ≠ .toClose).tail ∧
      (s.apply .rejectClose).vm.hsm.state = s.vm.hsm.returnTo.getD .fault ∧
      (s.apply .rejectClose).vm.hsm.returnTo = none := by
  simp [apply_rejectClose_eq, noteReject, rejectClose, showing, Hsm.rejectClose,
    Hsm.rollBack, closeReject, hst]

theorem apply_rejectOpen_refused {s : History} (hst : s.vm.hsm.state ≠ .opening) :
    s.apply .rejectOpen = s := by
  simp [apply_rejectOpen_eq, noteReject, rejectOpen, showing, Hsm.rejectOpen, hst]

theorem apply_rejectClose_refused {s : History} (hst : s.vm.hsm.state ≠ .closing) :
    s.apply .rejectClose = s := by
  simp [apply_rejectClose_eq, noteReject, rejectClose, showing, Hsm.rejectClose, hst]

/-- The invariant of a history. -/
structure Inv (s : History) : Prop where
  fits : Fits s.vm.hsm s.unresolved
  sound : ∀ r ∈ s.rejects, r.Sound

theorem Inv.noteOther {s : History} (hi : s.Inv) (r : ViewModel × Bool) :
    (s.noteOther r).Inv := by
  refine ⟨?_, hi.sound⟩
  unfold History.noteOther
  split
  · rename_i hsame
    rw [hsame]
    exact hi.fits
  · exact .resolved

theorem Inv.intentOpen {s : History} (hi : s.Inv) : (s.apply .intentOpen).Inv := by
  by_cases hcan : s.vm.hsm.canOpen = true
  · have hflag : s.vm.hsm.intentOpen.2 = true := by simp [Hsm.intentOpen, hcan]
    have happly : s.apply .intentOpen =
        { s with
          vm := { s.vm with hsm := s.vm.hsm.intentOpen.1 }
          unresolved := ⟨.toOpen, s.vm.hsm.state⟩ :: s.unresolved } := by
      simp [apply_intentOpen, noteIntent, ViewModel.intentOpen, hflag]
    rw [happly]
    exact ⟨hi.fits.intentOpen hcan, hi.sound⟩
  · have happly : s.apply .intentOpen = s := by
      simp [apply_intentOpen, noteIntent, ViewModel.intentOpen, Hsm.intentOpen, hcan]
    rwa [happly]

theorem Inv.intentClose {s : History} (hi : s.Inv) : (s.apply .intentClose).Inv := by
  by_cases hcan : s.vm.hsm.canClose = true
  · have hflag : s.vm.hsm.intentClose.2 = true := by simp [Hsm.intentClose, hcan]
    have happly : s.apply .intentClose =
        { s with
          vm := { s.vm with hsm := s.vm.hsm.intentClose.1 }
          unresolved := ⟨.toClose, s.vm.hsm.state⟩ :: s.unresolved } := by
      simp [apply_intentClose, noteIntent, ViewModel.intentClose, hflag]
    rw [happly]
    exact ⟨hi.fits.intentClose hcan, hi.sound⟩
  · have happly : s.apply .intentClose = s := by
      simp [apply_intentClose, noteIntent, ViewModel.intentClose, Hsm.intentClose, hcan]
    rwa [happly]

theorem Inv.rejectOpen {s : History} (hi : s.Inv) (hrem : s.Remembers .rejectOpen) :
    (s.apply .rejectOpen).Inv := by
  by_cases hst : s.vm.hsm.state = .opening
  · obtain ⟨hrejects, hrest, _, _⟩ := apply_rejectOpen hst
    constructor
    · rw [hrest]
      rcases hi.fits.opening_cases hst with hnil | ⟨r, his, _⟩
      · rw [hnil]
        exact .resolved
      · rw [his]
        exact .resolved
    · intro r hr
      rw [hrejects, List.mem_append, List.mem_singleton] at hr
      rcases hr with hr | rfl
      · exact hi.sound r hr
      · exact (openReject_sound hi.fits hst).mpr hrem
  · rwa [apply_rejectOpen_refused hst]

theorem Inv.rejectClose {s : History} (hi : s.Inv) (hrem : s.Remembers .rejectClose) :
    (s.apply .rejectClose).Inv := by
  by_cases hst : s.vm.hsm.state = .closing
  · obtain ⟨hrejects, hrest, hstate, hslot⟩ := apply_rejectClose hst
    constructor
    · rw [hrest]
      rcases hi.fits.closing_cases hst with hnil | ⟨r, his, _⟩ | ⟨r, his, htarget⟩
      · rw [hnil]
        exact .resolved
      · rw [his]
        exact .resolved
      · rw [his]
        -- The open under the rejected close is unresolved again, its slot gone.
        refine .opening ?_ (.inr hslot)
        rw [hstate, htarget]
        rfl
    · intro r hr
      rw [hrejects, List.mem_append, List.mem_singleton] at hr
      rcases hr with hr | rfl
      · exact hi.sound r hr
      · exact (closeReject_sound hi.fits hst).mpr hrem
  · rwa [apply_rejectClose_refused hst]

theorem inv_reach {s : History} (h : Transition.ReachUnder machine Remembers s) : s.Inv := by
  refine h.invariant ⟨.resolved, by simp [machine]⟩ ?_
  intro s op s' hi hrem hstep
  obtain rfl : s.apply op = s' := Option.some.inj hstep
  cases op with
  | intentOpen => exact hi.intentOpen
  | intentClose => exact hi.intentClose
  | rejectOpen => exact hi.rejectOpen hrem
  | rejectClose => exact hi.rejectClose hrem
  | forceFault => exact hi.noteOther _
  | enterReconnecting generation => exact hi.noteOther _
  | reconnectTimeout => exact hi.noteOther _
  | onPortState coreState generation => exact hi.noteOther _
  | onSnapshot snap => exact hi.noteOther _
  | settleRecovering => exact hi.noteOther _
  | setPortPresent present => exact hi.noteOther _

end History

end Xcom.ViewModel
