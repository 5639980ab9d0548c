import Xcom.Display.Cases
import Xcom.Transition.Machine

/-!
# No lost wakeup

The kick gate is armed exactly while one party owes the Dispatcher a run of
`rx_kick_action` up to its disarm.  Whatever ReceiveAo has not taken is then waited for
by someone, unless the display is paused or out of batches.
-/

namespace Xcom.Display

/-- The thread that moves on the display path. -/
inductive PathLabel
  | reader (l : IngressLabel)
  | kick (l : KickLabel)
  | consumer (l : ConsumerLabel)
  deriving DecidableEq, Repr

/-- One step on the display path. -/
def Path.step (env : Env) (p : Path) : PathLabel → Option Path
  | .reader l => p.readerStep env l
  | .kick l => p.kickStep env l
  | .consumer l => p.consumerStep env l

/-- The display path while no commit changes the generation.  The port state and the
admission are whatever each step finds. -/
def displayMachine (generation : UInt32) : Transition.Machine Path (Env × PathLabel) where
  init := {}
  step p l := if l.1.generation = generation then p.step l.1 l.2 else none

/-- No kick event is refused. -/
def SubmitsAccepted : PathLabel → Prop
  | .reader (.submit false) | .kick (.submit false) | .consumer (.submit false) => False
  | _ => True

instance : DecidablePred SubmitsAccepted := fun l => by
  unfold SubmitsAccepted
  split <;> infer_instance

/-- The ABI caller does not try the gate while the Dispatcher, having deferred a block,
is about to disarm it. -/
def ArmsUnseen (p : Path) (l : PathLabel) : Prop :=
  l = .consumer .run → p.consumer = .arm → p.kick = .disarm → p.deferred = none

instance (p : Path) (l : PathLabel) : Decidable (ArmsUnseen p l) :=
  inferInstanceAs (Decidable (_ → _ → _ → _))

namespace Path

/-- No kick is queued or running, the gate is down and nobody is inside a call. -/
def Quiescent (p : Path) : Prop :=
  p.kicks = 0 ∧ p.kick = .idle ∧ p.gate = false ∧ p.reader = .idle ∧ p.consumer = .idle

/-- A descriptor is in the RX ring or in the deferred slot. -/
def Undelivered (p : Path) : Prop := p.ring ≠ [] ∨ p.deferred ≠ none

instance (p : Path) : Decidable p.Quiescent := inferInstanceAs (Decidable (_ ∧ _))

instance (p : Path) : Decidable p.Undelivered := inferInstanceAs (Decidable (_ ∨ _))

end Path

/-- The party between a won `try_arm` and the end of its submission. -/
def IngressPc.submitting : IngressPc → Bool
  | .submit _ | .refused _ => true
  | _ => false

def ConsumerPc.submitting : ConsumerPc → Bool
  | .submit | .refused => true
  | _ => false

/-- `rx_kick_action` from its dispatch to its disarm, or submitting the next kick. -/
def KickPc.owesDisarm : KickPc → Bool
  | .idle | .recheck | .rearm => false
  | _ => true

/-- `rx_ingress` has published a block and not yet tried the gate. -/
def IngressPc.willArm : IngressPc → Bool
  | .alloc i | .publish i _ | .blockedAdmission i | .blockedState i | .unowned i => i.accepted
  | .arm _ => true
  | _ => false

/-- A drained batch has been or is being returned and the gate is still to be tried. -/
def ConsumerPc.willArm : ConsumerPc → Bool
  | .releaseDrained | .countPending | .arm => true
  | _ => false

/-- The Dispatcher has a batch in hand that is not on the ready ring. -/
def KickPc.batches : KickPc → Nat
  | .format _ _ | .discard _ _ | .push _ _ _ => 1
  | _ => 0

def ConsumerPc.batches : ConsumerPc → Nat
  | .releaseStale _ _ | .releaseDrained => 1
  | _ => 0

/-- The loop of `rx_kick_action` behind its first look at the deferred slot. -/
def KickPc.pastDeferred : KickPc → Bool
  | .loop n => n ≠ 0
  | .loadPause _ _ | .acquire _ _ | .format _ _ | .discard _ _ | .push _ _ _
  | .countPending _ => true
  | _ => false

/-- The generation a drain has loaded. -/
def ConsumerPc.loaded : ConsumerPc → Option UInt32
  | .checkActive _ g | .popReady _ g | .releaseStale _ g | .copy _ g => some g
  | _ => none

@[simp] theorem afterKick_submitting (f : Bool) : (afterKick f).submitting = false := by
  cases f <;> rfl

@[simp] theorem afterKick_ne_refused (f f' : Bool) : afterKick f ≠ .refused f' := by
  cases f <;> simp [afterKick]

theorem IngressPc.submitting_cases {pc : IngressPc} (h : pc.submitting = true) :
    (∃ f, pc = .submit f) ∨ ∃ f, pc = .refused f := by
  cases pc with
  | submit f => exact .inl ⟨f, rfl⟩
  | refused f => exact .inr ⟨f, rfl⟩
  | _ => cases h

theorem ConsumerPc.submitting_cases {pc : ConsumerPc} (h : pc.submitting = true) :
    pc = .submit ∨ pc = .refused := by
  cases pc with
  | submit => exact .inl rfl
  | refused => exact .inr rfl
  | _ => cases h

theorem KickPc.ne_idle_of_owesDisarm {pc : KickPc} (h : pc.owesDisarm = true) : pc ≠ .idle := by
  rintro rfl
  cases h

/-- Where a run is before its disarm. -/
theorem KickPc.owesDisarm_cases {pc : KickPc} (h : pc.owesDisarm = true) :
    pc.pastDeferred = true ∨ pc = .loop 0 ∨ pc = .disarm ∨ pc = .submit ∨ pc = .refused := by
  cases pc with
  | idle => cases h
  | recheck => cases h
  | rearm => cases h
  | loop n =>
    by_cases hn : n = 0
    · exact .inr (.inl (hn ▸ rfl))
    · exact .inl (decide_eq_true hn)
  | loadPause n d => exact .inl rfl
  | acquire n d => exact .inl rfl
  | format n d => exact .inl rfl
  | discard n d => exact .inl rfl
  | push n d text => exact .inl rfl
  | countPending n => exact .inl rfl
  | disarm => exact .inr (.inr (.inl rfl))
  | submit => exact .inr (.inr (.inr (.inl rfl)))
  | refused => exact .inr (.inr (.inr (.inr rfl)))

theorem finish_of_accepted {i : Ingress} (h : i.accepted = true) :
    i.finish = .arm i.fileLane := by
  rw [Ingress.finish, if_pos h]

theorem finish_of_not_accepted {i : Ingress} (h : i.accepted = false) :
    i.finish = afterKick i.fileLane := by
  rw [Ingress.finish, if_neg (by simp [h])]

namespace Path

/-- How many parties owe a disarm. -/
def tokens (p : Path) : Nat :=
  p.kicks + p.kick.owesDisarm.toNat + p.reader.submitting.toNat + p.consumer.submitting.toNat

/-- A run of `rx_kick_action` is queued or being submitted. -/
def Coming (p : Path) : Prop :=
  p.kicks ≠ 0 ∨ p.kick = .submit ∨ (∃ f, p.reader = .submit f) ∨ p.consumer = .submit

end Path

/-- What keeps wakeups from being lost. -/
structure WakeInv (generation : UInt32) (p : Path) : Prop where
  tokens : p.tokens = p.gate.toNat
  batches : p.free + p.ready.length + p.active.isSome.toNat + p.kick.batches +
    p.consumer.batches = kDisplayBatchCount
  ready : ∀ b ∈ p.ready, b.gen = generation
  active : ∀ b offset, p.active = some (b, offset) → b.gen = generation
  loaded : ∀ g, p.consumer.loaded = some g → g = generation
  popping : ∀ capacity g, p.consumer = .popReady capacity g → p.active = none
  live : p.kick ≠ .refused ∧ (∀ f, p.reader ≠ .refused f) ∧ p.consumer ≠ .refused ∧
    ∀ capacity g, p.consumer ≠ .releaseStale capacity g
  taken : p.kick.pastDeferred = true → p.deferred = none
  resume : ∀ o r, p.consumer = .storeHex o r ∨ p.consumer = .storePause o r →
    r = decide (p.pauseDisplay = true ∧ o.pauseDisplay = 0)
  deferred : p.deferred ≠ none →
    p.pauseDisplay = true ∨ p.free = 0 ∨ p.Coming ∨ p.kick = .loop 0 ∨
      p.consumer.willArm = true
  ring : p.ring ≠ [] →
    p.deferred ≠ none ∨ p.Coming ∨ p.kick ≠ .idle ∨ p.reader.willArm = true

/-- Behind a published block `rx_ingress` still has to try the gate. -/
theorem published_pc (i : Ingress) :
    let pc := if i.next.rest = [] then i.next.finish else .alloc i.next
    pc.submitting = false ∧ (∀ f, pc ≠ .refused f) ∧ pc.willArm = true := by
  have hfin : i.next.finish = .arm i.next.fileLane := finish_of_accepted rfl
  dsimp only
  split
  · rw [hfin]
    exact ⟨rfl, nofun, rfl⟩
  · exact ⟨rfl, nofun, rfl⟩

/-- Behind a dropped tail it does so when it had published a block. -/
theorem finish_pc (i : Ingress) :
    i.finish.submitting = false ∧ (∀ f, i.finish ≠ .refused f) ∧
      (i.accepted = true → i.finish.willArm = true) := by
  cases hacc : i.accepted with
  | true =>
    rw [finish_of_accepted hacc]
    exact ⟨rfl, nofun, fun _ => rfl⟩
  | false =>
    rw [finish_of_not_accepted hacc]
    exact ⟨afterKick_submitting _, afterKick_ne_refused _, nofun⟩

/-- An armed gate that the reader does not hold is held by a kick. -/
theorem WakeInv.reader_beaten {g : UInt32} {p : Path} (hinv : WakeInv g p)
    (hg : p.gate = true) (hs : p.reader.submitting = false) :
    p.Coming ∨ p.kick ≠ .idle := by
  have htok := hinv.tokens
  rw [Path.tokens, hg, hs] at htok
  by_cases hk : p.kick.owesDisarm = true
  · exact .inr (KickPc.ne_idle_of_owesDisarm hk)
  · by_cases hc : p.consumer.submitting = true
    · rcases ConsumerPc.submitting_cases hc with hc | hc
      · exact .inl (.inr (.inr (.inr hc)))
      · exact absurd hc hinv.live.2.2.1
    · rw [Bool.eq_false_of_not_eq_true hk, Bool.eq_false_of_not_eq_true hc] at htok
      have hone : p.kicks = 1 := htok
      exact .inl (.inl (by omega))

/-- A step of a reader that holds no token takes none away. -/
theorem Path.Coming.reader {p p' : Path} (h : p.Coming) (hs : p.reader.submitting = false)
    (hn : p'.kicks = p.kicks) (hk : p'.kick = p.kick) (hc : p'.consumer = p.consumer) :
    p'.Coming := by
  rcases h with h | h | ⟨f, h⟩ | h
  · exact .inl (hn ▸ h)
  · exact .inr (.inl (hk ▸ h))
  · rw [h] at hs
    cases hs
  · exact .inr (.inr (.inr (hc ▸ h)))

theorem Path.tokens_reader {p p' : Path} (h : p.tokens = p.gate.toNat)
    (hr : p'.reader.submitting = p.reader.submitting) (hn : p'.kicks = p.kicks)
    (hk : p'.kick = p.kick) (hc : p'.consumer = p.consumer) (hg : p'.gate = p.gate) :
    p'.tokens = p'.gate.toNat := by
  rw [Path.tokens, hr, hn, hk, hc, hg]
  exact h

/-- What the invariant reads beside the reader. -/
def Path.besideReader (p : Path) :=
  (p.kicks, p.kick, p.consumer, p.gate, p.free, p.ready, p.active, p.deferred,
    p.pauseDisplay, p.ring)

/-- The reader goes on without a submission, and still has to try the gate where it had to. -/
theorem WakeInv.readerMoves {g : UInt32} {p p' : Path} (hinv : WakeInv g p)
    (hsame : p'.besideReader = p.besideReader) (hold : p.reader.submitting = false)
    (hnew : p'.reader.submitting = false) (hrefused : ∀ f, p'.reader ≠ .refused f)
    (hwill : p.reader.willArm = true → p'.reader.willArm = true) : WakeInv g p' := by
  simp only [Path.besideReader, Prod.mk.injEq] at hsame
  obtain ⟨hkicks, hkick, hconsumer, hgate, hfree, hready, hactive, hdeferred, hpause, hring⟩ :=
    hsame
  have hcoming : p.Coming → p'.Coming := (·.reader hold hkicks hkick hconsumer)
  constructor
  · exact Path.tokens_reader hinv.tokens (hnew.trans hold.symm) hkicks hkick hconsumer hgate
  · rw [hfree, hready, hactive, hkick, hconsumer]
    exact hinv.batches
  · rw [hready]
    exact hinv.ready
  · rw [hactive]
    exact hinv.active
  · rw [hconsumer]
    exact hinv.loaded
  · rw [hconsumer, hactive]
    exact hinv.popping
  · rw [hkick, hconsumer]
    exact ⟨hinv.live.1, hrefused, hinv.live.2.2⟩
  · rw [hkick, hdeferred]
    exact hinv.taken
  · rw [hconsumer, hpause]
    exact hinv.resume
  · rw [hdeferred, hpause, hfree, hkick, hconsumer]
    intro hd
    exact (hinv.deferred hd).imp_right (.imp_right (.imp_left hcoming))
  · rw [hring, hdeferred, hkick]
    intro hr
    exact (hinv.ring hr).imp_right (.imp hcoming (.imp_right hwill))

theorem IngressStep.wake {g : UInt32} {env : Env} {p p' : Path} {l : IngressLabel}
    (h : IngressStep env p l p') (hacc : SubmitsAccepted (.reader l)) (hinv : WakeInv g p) :
    WakeInv g p' := by
  have htok := hinv.tokens
  have hring := hinv.ring
  have hdef := hinv.deferred
  have hlive := hinv.live
  cases h with
  | notSubmitted f hpc => exact hacc.elim
  | refused f hpc => exact absurd hpc (hinv.live.2.1 f)
  | deliver data hpc hd =>
    exact hinv.readerMoves rfl (by rw [hpc]; rfl) rfl nofun (by rw [hpc]; exact id)
  | admitted data first hpc =>
    exact hinv.readerMoves rfl (by rw [hpc]; rfl) rfl nofun (by rw [hpc]; exact id)
  | turnedAway data first hpc =>
    rcases hpc with hpc | hpc
    · exact hinv.readerMoves rfl (by rw [hpc]; rfl) rfl nofun (by rw [hpc]; exact id)
    · exact hinv.readerMoves rfl (by rw [hpc]; rfl) rfl nofun (by rw [hpc]; exact id)
  | opened data first hpc hs =>
    exact hinv.readerMoves rfl (by rw [hpc]; rfl) rfl nofun (by rw [hpc]; exact id)
  | reject data first hpc =>
    exact hinv.readerMoves rfl (by rw [hpc]; rfl) rfl nofun (by rw [hpc]; exact id)
  | lease data first mark granted hpc =>
    exact hinv.readerMoves rfl (by rw [hpc]; rfl) rfl nofun (by rw [hpc]; exact id)
  | allocated i displayOk hpc hok =>
    exact hinv.readerMoves rfl (by rw [hpc]; rfl) rfl nofun (by rw [hpc]; exact id)
  | fileLaneFull i hpc hf =>
    exact hinv.readerMoves rfl (by rw [hpc]; rfl) rfl nofun (by rw [hpc]; exact id)
  | poolFull i hpc =>
    exact hinv.readerMoves rfl (by rw [hpc]; rfl) rfl nofun (by rw [hpc]; exact id)
  | stillAdmitted i hpc =>
    exact hinv.readerMoves rfl (by rw [hpc]; rfl) rfl nofun (by rw [hpc]; exact id)
  | stillOpen i hpc =>
    exact hinv.readerMoves rfl (by rw [hpc]; rfl) rfl nofun (by rw [hpc]; exact id)
  | closing i hpc =>
    rcases hpc with hpc | hpc
    · exact hinv.readerMoves rfl (by rw [hpc]; rfl) rfl nofun (by rw [hpc]; exact id)
    · exact hinv.readerMoves rfl (by rw [hpc]; rfl) rfl nofun (by rw [hpc]; exact id)
  | unowned i hpc =>
    obtain ⟨hs, hr, ha⟩ := finish_pc i
    exact hinv.readerMoves rfl (by rw [hpc]; rfl) hs hr (by rw [hpc]; exact ha)
  | released hpc =>
    exact hinv.readerMoves rfl (by rw [hpc]; rfl) rfl nofun (by rw [hpc]; exact id)
  | armFailed f hpc hg =>
    have hold : p.reader.submitting = false := by rw [hpc]; rfl
    refine { hinv with
      tokens := ?_, live := ⟨hlive.1, afterKick_ne_refused f, hlive.2.2⟩
      deferred := fun hd => (hdef hd).imp_right (.imp_right (.imp_left ?_))
      ring := fun _ => .inr ?_ }
    · have hs := afterKick_submitting f
      exact Path.tokens_reader htok (hs.trans hold.symm) rfl rfl rfl rfl
    · exact (·.reader hold rfl rfl rfl)
    · exact (hinv.reader_beaten hg hold).imp (·.reader hold rfl rfl rfl) .inl
  | publish i displayOk ms hpc =>
    obtain ⟨hs, hr, ha⟩ := published_pc i
    have hold : p.reader.submitting = false := by rw [hpc]; rfl
    refine { hinv with
      tokens := ?_, live := ⟨hlive.1, hr, hlive.2.2⟩
      deferred := fun hd => (hdef hd).imp_right (.imp_right (.imp_left ?_))
      ring := fun _ => .inr (.inr (.inr ha)) }
    · exact Path.tokens_reader htok (hs.trans hold.symm) rfl rfl rfl rfl
    · exact (·.reader hold rfl rfl rfl)
  | armed f hpc hg =>
    refine { hinv with tokens := ?_, live := ?_, deferred := ?_, ring := ?_ }
    all_goals
      simp_all [Path.Coming, Path.tokens, IngressPc.submitting, IngressPc.willArm]
  | submitted f hpc =>
    have hold : p.reader.submitting = true := by rw [hpc]; rfl
    refine { hinv with tokens := ?_, live := ?_, deferred := ?_, ring := ?_ }
    · simp_all [Path.tokens]
      omega
    all_goals simp_all [Path.Coming]

/-- An armed gate that the Dispatcher does not hold is held by a queued kick. -/
theorem WakeInv.kick_beaten {g : UInt32} {p : Path} (hinv : WakeInv g p)
    (hg : p.gate = true) (hs : p.kick.owesDisarm = false) :
    p.kicks ≠ 0 ∨ (∃ f, p.reader = .submit f) ∨ p.consumer = .submit := by
  have htok := hinv.tokens
  rw [Path.tokens, hg, hs] at htok
  by_cases hr : p.reader.submitting = true
  · rcases IngressPc.submitting_cases hr with hr | ⟨f, hr⟩
    · exact .inr (.inl hr)
    · exact absurd hr (hinv.live.2.1 f)
  · by_cases hc : p.consumer.submitting = true
    · rcases ConsumerPc.submitting_cases hc with hc | hc
      · exact .inr (.inr hc)
      · exact absurd hc hinv.live.2.2.1
    · rw [Bool.eq_false_of_not_eq_true hr, Bool.eq_false_of_not_eq_true hc] at htok
      have hone : p.kicks = 1 := htok
      exact .inl (by omega)

/-- A batch in hand leaves room on the ready ring. -/
theorem WakeInv.ready_room {g : UInt32} {p : Path} (hinv : WakeInv g p)
    (h : p.kick.batches = 1) : p.ready.length < kDisplayBatchCount := by
  have := hinv.batches
  omega

/-- What the invariant reads beside the Dispatcher, but for the descriptors. -/
def Path.besideKick (p : Path) :=
  (p.kicks, p.reader, p.consumer, p.gate, p.free, p.ready, p.active, p.pauseDisplay)

/-- The Dispatcher goes on inside a run without taking or giving a token, and may take a
free batch in hand or put it back; a block it leaves deferred waits for the pause to end or
for a batch. -/
theorem WakeInv.kickTrades {g : UInt32} {p p' : Path} (hinv : WakeInv g p)
    (hsame : ({ p' with free := p.free } : Path).besideKick = p.besideKick)
    (howes : p'.kick.owesDisarm = p.kick.owesDisarm)
    (hbatches : p'.free + p'.kick.batches = p.free + p.kick.batches)
    (hidle : p'.kick ≠ .idle) (hrefused : p'.kick ≠ .refused)
    (hdeferred : p'.deferred = none ∨
      p'.kick.pastDeferred = false ∧ (p'.pauseDisplay = true ∨ p'.free = 0)) : WakeInv g p' := by
  simp only [Path.besideKick, Prod.mk.injEq] at hsame
  obtain ⟨hkicks, hreader, hconsumer, hgate, -, hready, hactive, hpause⟩ := hsame
  constructor
  · rw [Path.tokens, hkicks, howes, hreader, hconsumer, hgate]
    exact hinv.tokens
  · have hcount := hinv.batches
    rw [hready, hactive, hconsumer]
    omega
  · rw [hready]
    exact hinv.ready
  · rw [hactive]
    exact hinv.active
  · rw [hconsumer]
    exact hinv.loaded
  · rw [hconsumer, hactive]
    exact hinv.popping
  · rw [hreader, hconsumer]
    exact ⟨hrefused, hinv.live.2⟩
  · intro hpast
    rcases hdeferred with hnone | ⟨hnot, _⟩
    · exact hnone
    · rw [hpast] at hnot
      cases hnot
  · rw [hconsumer, hpause]
    exact hinv.resume
  · intro hd
    rcases hdeferred with hnone | ⟨_, hwaits | hwaits⟩
    · exact absurd hnone hd
    · exact .inl hwaits
    · exact .inr (.inl hwaits)
  · intro _
    exact .inr (.inr (.inl hidle))

/-- A step inside a run that leaves the batches where they are. -/
theorem WakeInv.kickMoves {g : UInt32} {p p' : Path} (hinv : WakeInv g p)
    (hsame : p'.besideKick = p.besideKick)
    (howes : p'.kick.owesDisarm = p.kick.owesDisarm) (hbatches : p'.kick.batches = p.kick.batches)
    (hidle : p'.kick ≠ .idle) (hrefused : p'.kick ≠ .refused)
    (hdeferred : p'.deferred = none ∨
      p'.kick.pastDeferred = false ∧ (p'.pauseDisplay = true ∨ p'.free = 0)) : WakeInv g p' := by
  have hfree : p'.free = p.free := by
    simp only [Path.besideKick, Prod.mk.injEq] at hsame
    exact hsame.2.2.2.2.1
  apply hinv.kickTrades ?_ howes ?_ hidle hrefused hdeferred
  · rw [← hfree]
    exact hsame
  · rw [hfree, hbatches]

theorem KickStep.wake {g : UInt32} {env : Env} {p p' : Path} {l : KickLabel}
    (h : KickStep env p l p') (henv : env.generation = g) (hacc : SubmitsAccepted (.kick l))
    (hinv : WakeInv g p) : WakeInv g p' := by
  have htok := hinv.tokens
  have hbat := hinv.batches
  have hring := hinv.ring
  have hdef := hinv.deferred
  have hlive := hinv.live
  have htaken := hinv.taken
  have hready := hinv.ready
  cases h with
  | notSubmitted hpc => exact hacc.elim
  | refused hpc => exact absurd hpc hinv.live.1
  | pushFull n d text hpc hr =>
    exact absurd (hinv.ready_room (by rw [hpc]; rfl)) (Nat.not_lt.mpr hr)
  | dispatch hpc hk =>
    have hheld : p.kicks - 1 + 1 = p.kicks := Nat.sub_add_cancel (Nat.pos_of_ne_zero hk)
    refine { hinv with
      tokens := ?_, batches := ?_, live := ?_, taken := ?_, deferred := ?_, ring := ?_ }
    all_goals
      simp_all [Path.Coming, Path.tokens, KickPc.owesDisarm, KickPc.batches, KickPc.pastDeferred]
  | enough n hpc hn =>
    have hnone : p.deferred = none := hinv.taken (by rw [hpc]; exact decide_eq_true (by omega))
    exact hinv.kickMoves rfl (by rw [hpc]; rfl) (by rw [hpc]; rfl) nofun nofun (.inl hnone)
  | retry n d hpc hd =>
    exact hinv.kickMoves rfl (by rw [hpc]; rfl) (by rw [hpc]; rfl) nofun nofun (.inl rfl)
  | pop n d ring hpc hd hr =>
    exact hinv.kickMoves rfl (by rw [hpc]; rfl) (by rw [hpc]; rfl) nofun nofun (.inl hd)
  | empty n hpc hd hr =>
    exact hinv.kickMoves rfl (by rw [hpc]; rfl) (by rw [hpc]; rfl) nofun nofun (.inl hd)
  | paused n d hpc hp =>
    exact hinv.kickMoves rfl (by rw [hpc]; rfl) (by rw [hpc]; rfl) nofun nofun
      (.inr ⟨rfl, .inl hp⟩)
  | showing n d hpc =>
    have hnone : p.deferred = none := hinv.taken (by rw [hpc]; rfl)
    exact hinv.kickMoves rfl (by rw [hpc]; rfl) (by rw [hpc]; rfl) nofun nofun (.inl hnone)
  | exhausted n d hpc hf =>
    exact hinv.kickMoves rfl (by rw [hpc]; rfl) (by rw [hpc]; rfl) nofun nofun
      (.inr ⟨rfl, .inr hf⟩)
  | blank n d hpc ht =>
    have hnone : p.deferred = none := hinv.taken (by rw [hpc]; rfl)
    exact hinv.kickMoves rfl (by rw [hpc]; rfl) (by rw [hpc]; rfl) nofun nofun (.inl hnone)
  | format n d hpc ht =>
    have hnone : p.deferred = none := hinv.taken (by rw [hpc]; rfl)
    exact hinv.kickMoves rfl (by rw [hpc]; rfl) (by rw [hpc]; rfl) nofun nofun (.inl hnone)
  | countPending n hpc =>
    have hnone : p.deferred = none := hinv.taken (by rw [hpc]; rfl)
    exact hinv.kickMoves rfl (by rw [hpc]; rfl) (by rw [hpc]; rfl) nofun nofun (.inl hnone)
  | more hpc hd hr =>
    exact hinv.kickMoves rfl (by rw [hpc]; rfl) (by rw [hpc]; rfl) nofun nofun (.inl hd)
  | acquire n d hpc hf =>
    have hnone : p.deferred = none := hinv.taken (by rw [hpc]; rfl)
    refine hinv.kickTrades rfl (by rw [hpc]; rfl) ?_ nofun nofun (.inl hnone)
    rw [hpc]
    exact Nat.sub_add_cancel (Nat.pos_of_ne_zero hf)
  | discard n d hpc =>
    have hnone : p.deferred = none := hinv.taken (by rw [hpc]; rfl)
    refine hinv.kickTrades rfl (by rw [hpc]; rfl) ?_ nofun nofun (.inl hnone)
    rw [hpc]
    rfl
  | push n d text hpc hr =>
    refine { hinv with
      tokens := ?_, batches := ?batches, ready := ?ready, live := ?_, taken := ?_,
      deferred := ?_, ring := ?_ }
    case batches =>
      simp only [hpc, KickPc.batches, List.length_append, List.length_singleton] at hbat ⊢
      omega
    case ready =>
      intro b hb
      rcases List.mem_append.mp hb with hb | hb
      · exact hready b hb
      · exact List.mem_singleton.mp hb ▸ henv
    all_goals
      simp_all [Path.Coming, Path.tokens, KickPc.owesDisarm, KickPc.pastDeferred]
  | disarm hpc =>
    refine { hinv with
      tokens := ?tokens, batches := ?_, live := ?_, taken := ?_, deferred := ?_, ring := ?_ }
    case tokens =>
      have hle : p.gate.toNat ≤ 1 := Bool.toNat_le p.gate
      simp only [Path.tokens, hpc, KickPc.owesDisarm, Bool.toNat_true, Bool.toNat_false]
        at htok ⊢
      omega
    all_goals simp_all [Path.Coming, KickPc.batches, KickPc.pastDeferred]
  | done hpc hd =>
    refine { hinv with
      tokens := ?_, batches := ?_, live := ?_, taken := ?_, deferred := ?_
      ring := fun hr => .inl (hd.resolve_right hr) }
    all_goals
      simp_all [Path.Coming, Path.tokens, KickPc.owesDisarm, KickPc.batches, KickPc.pastDeferred]
  | rearmFailed hpc hg =>
    have hbeaten := hinv.kick_beaten hg (by rw [hpc]; rfl)
    refine { hinv with
      tokens := ?_, batches := ?_, live := ?_, taken := ?_, deferred := ?_
      ring := fun _ => .inr (.inl ?coming) }
    case coming => exact hbeaten.imp_right .inr
    all_goals
      simp_all [Path.Coming, Path.tokens, KickPc.owesDisarm, KickPc.batches, KickPc.pastDeferred]
  | _ =>
    refine { hinv with
      tokens := ?_, batches := ?_, live := ?_, taken := ?_, deferred := ?_, ring := ?_ }
    all_goals
      simp_all [Path.Coming, Path.tokens, KickPc.owesDisarm, KickPc.batches, KickPc.pastDeferred]

/-- An armed gate that the ABI caller does not hold will have ReceiveAo look at the
deferred slot, unless the Dispatcher has just filled it. -/
theorem WakeInv.consumer_beaten {g : UInt32} {p : Path} (hinv : WakeInv g p)
    (hg : p.gate = true) (hs : p.consumer.submitting = false) (hd : p.deferred ≠ none)
    (hk : p.kick ≠ .disarm) : p.Coming ∨ p.kick = .loop 0 := by
  have htok := hinv.tokens
  rw [Path.tokens, hg, hs] at htok
  by_cases howes : p.kick.owesDisarm = true
  · rcases KickPc.owesDisarm_cases howes with hpast | hloop | hdisarm | hsubmit | hrefused
    · exact absurd (hinv.taken hpast) hd
    · exact .inr hloop
    · exact absurd hdisarm hk
    · exact .inl (.inr (.inl hsubmit))
    · exact absurd hrefused hinv.live.1
  · by_cases hr : p.reader.submitting = true
    · rcases IngressPc.submitting_cases hr with hr | ⟨f, hr⟩
      · exact .inl (.inr (.inr (.inl hr)))
      · exact absurd hr (hinv.live.2.1 f)
    · rw [Bool.eq_false_of_not_eq_true howes, Bool.eq_false_of_not_eq_true hr] at htok
      have hone : p.kicks = 1 := htok
      exact .inl (.inl (by omega))

theorem ConsumerStep.tokens {env : Env} {p p' : Path} {l : ConsumerLabel}
    (h : ConsumerStep env p l p') (hacc : SubmitsAccepted (.consumer l))
    (hlive : p.consumer ≠ .refused) (htok : p.tokens = p.gate.toNat) :
    p'.tokens = p'.gate.toNat := by
  unfold Path.tokens at *
  cases h with
  | notSubmitted hpc => exact hacc.elim
  | refused hpc => exact absurd hpc hlive
  | submitted hpc =>
    simp only [hpc, ConsumerPc.submitting, Bool.toNat_true, Bool.toNat_false] at htok ⊢
    omega
  | storePause o resume hpc => cases resume <;> simp_all [ConsumerPc.submitting]
  | _ => simp_all [ConsumerPc.submitting]

theorem ConsumerStep.batches {g : UInt32} {env : Env} {p p' : Path} {l : ConsumerLabel}
    (h : ConsumerStep env p l p') (hinv : WakeInv g p) :
    p'.free + p'.ready.length + p'.active.isSome.toNat + p'.kick.batches +
      p'.consumer.batches = kDisplayBatchCount := by
  have hbat := hinv.batches
  cases h with
  | storePause o resume hpc => cases resume <;> simp_all [ConsumerPc.batches]
  | releaseStale capacity g' hpc => exact absurd hpc (hinv.live.2.2.2 capacity g')
  | popReady capacity g' b ready hpc hr hg =>
    have hnone := hinv.popping capacity g' hpc
    simp only [hpc, hr, hnone, ConsumerPc.batches, List.length_cons, Option.isSome_none,
      Option.isSome_some, Bool.toNat_true, Bool.toNat_false] at hbat ⊢
    omega
  | _ => simp_all [ConsumerPc.batches] <;> omega

/-- Without a commit a drain meets no batch of another generation. -/
theorem ConsumerStep.current {g : UInt32} {env : Env} {p p' : Path} {l : ConsumerLabel}
    (h : ConsumerStep env p l p') (henv : env.generation = g) (hinv : WakeInv g p) :
    (∀ b ∈ p'.ready, b.gen = g) ∧ (∀ b offset, p'.active = some (b, offset) → b.gen = g) ∧
      (∀ g', p'.consumer.loaded = some g' → g' = g) ∧
      (∀ capacity g', p'.consumer = .popReady capacity g' → p'.active = none) ∧
      ∀ capacity g', p'.consumer ≠ .releaseStale capacity g' := by
  obtain ⟨hready, hactive, hloaded, hpop⟩ :=
    (⟨hinv.ready, hinv.active, hinv.loaded, hinv.popping⟩ : _ ∧ _ ∧ _ ∧ _)
  have hlive := hinv.live.2.2.2
  cases h with
  | dropActive capacity g' b offset hpc ha hg =>
    exact absurd ((hactive b offset ha).trans (hloaded g' (by rw [hpc]; rfl)).symm) hg
  | popStale capacity g' b ready hpc hr hg =>
    have hb := hready b (by rw [hr]; exact List.mem_cons_self)
    exact absurd (hb.trans (hloaded g' (by rw [hpc]; rfl)).symm) hg
  | storePause o resume hpc => cases resume <;> simp_all [ConsumerPc.loaded]
  | _ => simp_all [ConsumerPc.loaded]

theorem ConsumerStep.resume {g : UInt32} {env : Env} {p p' : Path} {l : ConsumerLabel}
    (h : ConsumerStep env p l p') (hinv : WakeInv g p) :
    ∀ o r, p'.consumer = .storeHex o r ∨ p'.consumer = .storePause o r →
      r = decide (p'.pauseDisplay = true ∧ o.pauseDisplay = 0) := by
  have hres := hinv.resume
  cases h with
  | storePause o resume hpc => cases resume <;> simp_all
  | _ => simp_all

/-- What a deferred block waits for is kept by the ABI caller. -/
theorem ConsumerStep.deferred {g : UInt32} {env : Env} {p p' : Path} {l : ConsumerLabel}
    (h : ConsumerStep env p l p') (hacc : SubmitsAccepted (.consumer l))
    (harm : ArmsUnseen p (.consumer l)) (hinv : WakeInv g p) (hd : p'.deferred ≠ none) :
    p'.pauseDisplay = true ∨ p'.free = 0 ∨ p'.Coming ∨ p'.kick = .loop 0 ∨
      p'.consumer.willArm = true := by
  have hdef := hinv.deferred
  unfold Path.Coming at *
  cases h with
  | notSubmitted hpc => exact hacc.elim
  | refused hpc => exact absurd hpc hinv.live.2.2.1
  | releaseStale capacity g' hpc => exact absurd hpc (hinv.live.2.2.2 capacity g')
  | returned l hpc => exact hdef hd
  | armFailed hpc hg =>
    have hk : p.kick ≠ .disarm := fun hk => hd (harm rfl hpc hk)
    rcases hinv.consumer_beaten hg (by rw [hpc]; rfl) hd hk with hc | hc
    · refine .inr (.inr (.inl ?_))
      simpa [Path.Coming, hpc] using hc
    · exact .inr (.inr (.inr (.inl hc)))
  | storePause o resume hpc =>
    have hres := hinv.resume o resume (.inr hpc)
    by_cases hp : p.pauseDisplay = true ∧ o.pauseDisplay = 0
    · simp [hres, hp, ConsumerPc.willArm]
    · by_cases ho : o.pauseDisplay = 0
      · simp_all [ConsumerPc.willArm]
      · exact .inl (by simpa using ho)
  | dropActive capacity g' b offset hpc ha hg =>
    exact absurd ((hinv.active b offset ha).trans (hinv.loaded g' (by rw [hpc]; rfl)).symm) hg
  | _ => simp_all [ConsumerPc.willArm]

theorem ConsumerStep.coming {env : Env} {p p' : Path} {l : ConsumerLabel}
    (h : ConsumerStep env p l p') (hacc : SubmitsAccepted (.consumer l)) (hc : p.Coming) :
    p'.Coming := by
  unfold Path.Coming at *
  cases h with
  | notSubmitted hpc => exact hacc.elim
  | storePause o resume hpc => cases resume <;> simp_all
  | _ => simp_all

/-- What the ABI caller leaves alone. -/
theorem ConsumerStep.others {env : Env} {p p' : Path} {l : ConsumerLabel}
    (h : ConsumerStep env p l p') :
    p'.kick = p.kick ∧ p'.reader = p.reader ∧ p'.ring = p.ring ∧ p'.deferred = p.deferred ∧
      (p'.consumer = .refused → l = .submit false ∨ p.consumer = .refused) := by
  cases h with
  | storePause o resume hpc => cases resume <;> simp
  | _ => simp_all

theorem ConsumerStep.wake {g : UInt32} {env : Env} {p p' : Path} {l : ConsumerLabel}
    (h : ConsumerStep env p l p') (henv : env.generation = g)
    (hacc : SubmitsAccepted (.consumer l)) (harm : ArmsUnseen p (.consumer l))
    (hinv : WakeInv g p) : WakeInv g p' := by
  obtain ⟨hready, hactive, hloaded, hpop, hstale⟩ := h.current henv hinv
  obtain ⟨hk, hr, hring, hdef, href⟩ := h.others
  have hlive := hinv.live
  refine
    { tokens := h.tokens hacc hlive.2.2.1 hinv.tokens
      batches := h.batches hinv
      ready := hready
      active := hactive
      loaded := hloaded
      popping := hpop
      live := ⟨hk ▸ hlive.1, hr ▸ hlive.2.1, fun hc => ?_, hstale⟩
      taken := by rw [hk, hdef]; exact hinv.taken
      resume := h.resume hinv
      deferred := h.deferred hacc harm hinv
      ring := fun hne => ?_ }
  · rcases href hc with rfl | hc
    · exact hacc
    · exact hlive.2.2.1 hc
  · rw [hk, hr, hdef]
    exact (hinv.ring (hring ▸ hne)).imp_right (.imp_left (h.coming hacc))

/-- The condition under which no wakeup is lost: kick events are accepted, and the ABI
caller does not find the gate armed by a run that has already deferred a block. -/
def WakesSeen (p : Path) (l : Env × PathLabel) : Prop :=
  SubmitsAccepted l.2 ∧ ArmsUnseen p l.2

instance (p : Path) (l : Env × PathLabel) : Decidable (WakesSeen p l) :=
  inferInstanceAs (Decidable (_ ∧ _))

theorem wakeInv_reach {g : UInt32} {p : Path}
    (h : Transition.ReachUnder (displayMachine g) WakesSeen p) : WakeInv g p := by
  refine h.invariant (p := WakeInv g) ?_ ?_
  · constructor <;> simp [displayMachine, Path.tokens, KickPc.owesDisarm,
      IngressPc.submitting, ConsumerPc.submitting, KickPc.batches, ConsumerPc.batches,
      KickPc.pastDeferred, ConsumerPc.loaded]
  intro p ⟨env, l⟩ p' hinv ⟨hacc, harm⟩ hstep
  simp only [displayMachine] at hstep
  split at hstep
  · rename_i henv
    cases l with
    | reader l => exact (readerStep_cases hstep).wake hacc hinv
    | kick l => exact (kickStep_cases hstep).wake henv hacc hinv
    | consumer l => exact (consumerStep_cases hstep).wake henv hacc harm hinv
  · cases hstep

/-- In a quiescent state a descriptor is undelivered only while the display is paused or
out of batches. -/
theorem no_lost_wakeup {g : UInt32} {p : Path}
    (h : Transition.ReachUnder (displayMachine g) WakesSeen p) (hq : p.Quiescent)
    (hu : p.Undelivered) : p.pauseDisplay = true ∨ p.free = 0 := by
  obtain ⟨hkicks, hkick, -, hreader, hconsumer⟩ := hq
  have hinv := wakeInv_reach h
  have hcoming : ¬ p.Coming := by simp [Path.Coming, hkicks, hkick, hreader, hconsumer]
  have hdeferred : p.deferred ≠ none := by
    refine hu.elim (fun hr => ?_) id
    rcases hinv.ring hr with hd | hc | hk | ha
    · exact hd
    · exact absurd hc hcoming
    · exact absurd hkick hk
    · simp [hreader, IngressPc.willArm] at ha
  rcases hinv.deferred hdeferred with hp | hf | hc | hk | ha
  · exact .inl hp
  · exact .inr hf
  · exact absurd hc hcoming
  · simp [hkick] at hk
  · simp [hconsumer, ConsumerPc.willArm] at ha

/-! ## Runs -/

/-- What the display path finds in an open session. -/
def openEnv : Env where
  portState := .portOpen
  callbackAdmission := true
  generation := 1
  opens := 1

/-- Steps of an open session. -/
def whileOpen (ls : List PathLabel) : List (Env × PathLabel) := ls.map fun l => (openEnv, l)

/-- The labels of one ingress that fits a block, with a free gate. -/
def ingressRun (data : List UInt8) : List IngressLabel :=
  [.deliver data, .run, .run, .lease false, .alloc (some true), .publish 0, .run, .submit true]

/-- `xcom_set_options` up to its try of the gate. -/
def optionsRun (pauseDisplay : UInt8) : List ConsumerLabel :=
  [.optionsCall (some ⟨sizeofXcomDisplayOptions, 0, pauseDisplay⟩), .run, .run, .run]

/-- `rx_kick_action` that finds the display paused, up to its disarm. -/
def pausedKickRun : List KickLabel := [.dispatch, .run, .run]

/-- A paused session up to the disarm of the kick that defers its only block. -/
def pausedRun : List PathLabel :=
  (optionsRun 1).map .consumer ++ (ingressRun [0x41]).map .reader ++ pausedKickRun.map .kick

/-- A paused session quiesces with a block in the deferred slot. -/
theorem no_lost_wakeup_paused :
    ∃ p : Path, p.Quiescent ∧ p.Undelivered ∧ (p.pauseDisplay = true ∨ p.free = 0) := by
  obtain ⟨p, hp, hq, hu⟩ := Transition.exists_of_execUnder (m := displayMachine 1)
    (c := WakesSeen) (p := fun p => p.Quiescent ∧ p.Undelivered)
    (whileOpen (pausedRun ++ [.kick .run, .kick .run])) (by decide +kernel)
  exact ⟨p, hq, hu, no_lost_wakeup hp hq hu⟩

/-- ReceiveAo defers a block because the display is paused.  Before it disarms the gate
the display is resumed, and the kick of the resume is dropped as already pending.  The
recheck then passes over the deferred block. -/
theorem resume_wakeup_lost :
    ∃ p : Path, Transition.ReachUnder (displayMachine 1) (fun _ l => SubmitsAccepted l.2) p ∧
      p.Quiescent ∧ p.Undelivered ∧ p.pauseDisplay = false ∧ p.free = kDisplayBatchCount :=
  Transition.exists_of_execUnder
    (whileOpen (pausedRun ++ (optionsRun 0).map PathLabel.consumer ++
      [PathLabel.consumer .run, .kick .run, .kick .run])) (by decide +kernel)

end Xcom.Display
