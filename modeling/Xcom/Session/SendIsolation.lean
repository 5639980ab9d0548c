import Xcom.Session.Boundary

/-!
# Sends stay in their session

A send carries the generation `xcom_send` captured.  It is written only where that
generation still is the open one, so it suffices that the captured generation is
the one of the session whose OPEN the call saw.
-/

namespace Xcom

open DispOp

/-- `xcom_send` has seen OPEN and not yet captured the generation. -/
def AbiPc.capturing : AbiPc → Bool
  | .sendAlloc _ _ | .sendLoadGeneration _ _ => true
  | _ => false

theorem AbiPc.capturing_of {pc : AbiPc} {data : List UInt8} {seen : Option Handle}
    (h : pc = .sendAlloc data seen ∨ pc = .sendLoadGeneration data seen) :
    pc.capturing = true := by
  rcases h with rfl | rfl <;> rfl

namespace World

/-- `d` was accepted and the Dispatcher has not yet handed it to the writer. -/
def Sent (w : World) (d : TxDescriptor) : Prop :=
  w.abi = .sendSubmit d ∨ .sigSend d ∈ w.events ∨ w.agenda = [sendLoadGeneration d] ∨
    w.agenda = [sendLoadState d] ∨ w.agenda = [sendEnqueue d]

/-- `d` is with the session writer. -/
def Held (w : World) (d : TxDescriptor) : Prop :=
  d ∈ w.jobs ∨ w.writer = .loadGeneration d ∨ w.writer = .loadState d ∨ w.writer = .write d

/-- The session is open, or its writer is still to be joined. -/
def Alive (w : World) : Prop := w.serialState = .portOpen ∨ joinWriter ∈ w.agenda

/-- Written bytes went to the device whose OPEN the send had seen. -/
def SendsIsolated (w : World) : Prop :=
  ∀ d handle bytes, .written d handle bytes ∈ w.trace →
    d.acceptedOn = some handle ∧ bytes <+: d.data

end World

/-- No commit falls between the loads of `xcom_send`, and the generation of a new
session does not wrap. -/
def NoCommitWhileCapturing (w : World) : Label → Prop
  | .disp _ =>
    (w.AtOp commitOpen → w.abi.capturing = false ∧ w.core.openGeneration.toNat + 1 < 2 ^ 32) ∧
    (w.AtOp commitClose → w.abi.capturing = false)
  | _ => True

instance : ∀ w l, Decidable (NoCommitWhileCapturing w l)
  | _, .disp _ => inferInstanceAs (Decidable (_ ∧ _))
  | _, .abi _ => inferInstanceAs (Decidable True)
  | _, .reader _ => inferInstanceAs (Decidable True)
  | _, .writer _ => inferInstanceAs (Decidable True)

/-- A generation of this or an earlier session.  Of this session it names the open
device. -/
def Belongs (w : World) (generation : UInt32) (seen : Option Handle) : Prop :=
  generation.toNat < w.core.openGeneration.toNat ∨
    generation = w.core.openGeneration ∧ ¬ Committed w.agenda ∧
      (w.serialState = .portOpen → seen = w.device)

/-- What keeps sends in their session. -/
structure SendInv (w : World) : Prop where
  opened : w.serialState = .portOpen ∨ Committed w.agenda →
    w.core.generation = w.core.openGeneration
  capturing : ∀ data seen, w.abi = .sendAlloc data seen ∨ w.abi = .sendLoadGeneration data seen →
    Belongs w w.core.generation seen
  sent : ∀ d, w.Sent d → Belongs w d.generation d.acceptedOn
  judged : ∀ d, w.agenda = [sendLoadState d] ∨ w.agenda = [sendEnqueue d] →
    d.generation = w.core.generation
  enqueued : ∀ d, w.agenda = [sendEnqueue d] → w.serialState = .portOpen
  held : ∀ d, w.Held d → d.acceptedOn = w.device ∧ w.Alive
  isolated : w.SendsIsolated

/-- What a step leaves alone that moves no send and commits nothing. -/
structure SendFrame (w w' : World) : Prop where
  generation : w'.core.generation = w.core.generation
  openGeneration : w'.core.openGeneration = w.core.openGeneration
  opened : w'.serialState = .portOpen → w.serialState = .portOpen ∧ w'.device = w.device
  committed : Committed w'.agenda → Committed w.agenda
  capturing : ∀ data seen,
    w'.abi = .sendAlloc data seen ∨ w'.abi = .sendLoadGeneration data seen →
      w.abi = .sendAlloc data seen ∨ w.abi = .sendLoadGeneration data seen
  sent : ∀ d, w'.Sent d → w.Sent d
  judged : ∀ d, w'.agenda = [sendLoadState d] ∨ w'.agenda = [sendEnqueue d] →
    w'.agenda = w.agenda ∧ w'.serialState = w.serialState
  held : ∀ d, w'.Held d → w.Held d ∧ (w.Alive → w'.device = w.device ∧ w'.Alive)
  written : ∀ d handle bytes, .written d handle bytes ∈ w'.trace →
    .written d handle bytes ∈ w.trace

theorem Belongs.frame {w w' : World} (hw : SendFrame w w') {g : UInt32} {seen : Option Handle}
    (h : Belongs w g seen) : Belongs w' g seen := by
  rcases h with hlt | ⟨heq, hcom, hseen⟩
  · exact .inl (hw.openGeneration ▸ hlt)
  · refine .inr ⟨hw.openGeneration ▸ heq, fun hc => hcom (hw.committed hc), fun ho => ?_⟩
    obtain ⟨hopen, hdev⟩ := hw.opened ho
    rw [hdev]
    exact hseen hopen

theorem SendInv.frame {w w' : World} (h : SendInv w) (hw : SendFrame w w') : SendInv w' where
  opened := fun ho => by
    rw [hw.generation, hw.openGeneration]
    exact h.opened (ho.imp (fun ho => (hw.opened ho).1) hw.committed)
  capturing := fun data seen hpc => by
    rw [hw.generation]
    exact (h.capturing data seen (hw.capturing data seen hpc)).frame hw
  sent := fun d hd => (h.sent d (hw.sent d hd)).frame hw
  judged := fun d hd => by
    rw [hw.generation]
    exact h.judged d (by rwa [(hw.judged d hd).1] at hd)
  enqueued := fun d hd => by
    obtain ⟨ha, hs⟩ := hw.judged d (.inr hd)
    rw [hs]
    exact h.enqueued d (ha ▸ hd)
  held := fun d hd => by
    obtain ⟨hheld, halive⟩ := hw.held d hd
    obtain ⟨hacc, ha⟩ := h.held d hheld
    obtain ⟨hdev, ha'⟩ := halive ha
    exact ⟨hdev ▸ hacc, ha'⟩
  isolated := fun d handle bytes hd => h.isolated d handle bytes (hw.written d handle bytes hd)

theorem AbiStep.send {w w' : World} (h : AbiStep w w') (hag : Agenda w.serialState w.agenda)
    (hview : ViewInv w) (hinv : SendInv w) : SendInv w' := by
  cases h with
  | sendLoadState data hpc hp =>
    have hopen : w.serialState = .portOpen := by
      rcases hview with heq | hf
      · exact heq ▸ hp
      · simp [hf] at hp
    refine { hinv with capturing := fun d seen hpc' => ?_, sent := fun d hd => ?_ }
    · simp only [AbiPc.sendAlloc.injEq, reduceCtorEq, or_false] at hpc'
      exact .inr ⟨hinv.opened (.inl hopen), (hopen ▸ hag).not_committed, fun _ => hpc'.2.symm⟩
    · exact hinv.sent d (.inr (by simpa [World.Sent] using hd))
  | sendAlloc data seen hpc =>
    refine { hinv with capturing := fun d seen' hpc' => ?_, sent := fun d hd => ?_ }
    · simp only [AbiPc.sendLoadGeneration.injEq, reduceCtorEq, false_or] at hpc'
      exact hinv.capturing data seen' (.inl (hpc'.2 ▸ hpc))
    · exact hinv.sent d (.inr (by simpa [World.Sent] using hd))
  | sendLoadGeneration data seen hpc =>
    refine { hinv with capturing := fun d seen' hpc' => ?_, sent := fun d hd => ?_ }
    · simp at hpc'
    · rcases hd with hd | hd
      · cases hd
        exact hinv.capturing data seen (.inr hpc)
      · exact hinv.sent d (.inr hd)
  | sendSubmit desc hpc =>
    refine { hinv with capturing := fun d seen' hpc' => ?_, sent := fun d hd => ?_ }
    · simp at hpc'
    · refine hinv.sent d ?_
      simp only [World.stage, World.Sent, reduceCtorEq, false_or, List.mem_append,
        List.mem_singleton, Event.sigSend.injEq] at hd
      rcases hd with (hd | rfl) | hd
      · exact .inr (.inl hd)
      · exact .inl hpc
      · exact .inr (.inr hd)
  | sendRefused hpc =>
    refine hinv.frame ⟨rfl, rfl, fun h => ⟨h, rfl⟩, id, ?_, ?_, fun _ _ => ⟨rfl, rfl⟩,
      fun _ h => ⟨h, fun h => ⟨rfl, h⟩⟩, fun _ _ _ => id⟩
    · simp
    · exact fun d hd => .inr (by simpa [World.Sent] using hd)
  | openQueued sync hpc =>
    refine hinv.frame ⟨rfl, rfl, fun h => ⟨h, rfl⟩, id, ?_, ?_, fun _ _ => ⟨rfl, rfl⟩,
      fun _ h => ⟨h, fun h => ⟨rfl, h⟩⟩, ?_⟩
    · cases sync <;> simp
    · cases sync <;> exact fun d hd => .inr (by simpa [World.Sent] using hd)
    · simp
  | pollAgain req i hpc =>
    refine hinv.frame ⟨rfl, rfl, fun h => ⟨h, rfl⟩, id, ?_, ?_, fun _ _ => ⟨rfl, rfl⟩,
      fun _ h => ⟨h, fun h => ⟨rfl, h⟩⟩, fun _ _ _ => id⟩
    · simp only [World.nextPoll]
      split <;> simp
    · refine fun d hd => .inr ?_
      simp only [World.nextPoll, World.Sent] at hd
      split at hd <;> simpa using hd
  | _ =>
    refine hinv.frame ⟨rfl, rfl, fun h => ⟨h, rfl⟩, id, ?_, ?_, fun _ _ => ⟨rfl, rfl⟩,
      fun _ h => ⟨h, fun h => ⟨rfl, h⟩⟩, ?_⟩
    all_goals simp_all [World.Sent]

theorem ReaderStep.send {w w' : World} (h : ReaderStep w w') (hinv : SendInv w) :
    SendInv w' := by
  cases h <;>
    exact hinv.frame ⟨rfl, rfl, fun h => ⟨h, rfl⟩, id, fun _ _ => id, by simp [World.Sent],
      fun _ _ => ⟨rfl, rfl⟩, fun _ h => ⟨h, fun h => ⟨rfl, h⟩⟩, by simp⟩

theorem WriterStep.send {w w' : World} (h : WriterStep w w') (hinv : SendInv w) :
    SendInv w' := by
  cases h with
  | write job handle count ok fatal hpc hd =>
    have hframe : SendFrame w { w.ownerWrite job handle count ok fatal with trace := w.trace } := by
      refine ⟨rfl, rfl, fun h => ⟨h, rfl⟩, id, fun _ _ => id, fun _ => id,
        fun _ _ => ⟨rfl, rfl⟩, fun d h => ⟨?_, fun h => ⟨rfl, h⟩⟩, fun _ _ _ => id⟩
      refine h.imp_right fun h => ?_
      simp only [World.ownerWrite, World.emit] at h
      split at h <;> simp at h
    refine { hinv.frame hframe with isolated := fun d h' bytes hmem => ?_ }
    simp only [World.ownerWrite, World.emit, List.mem_cons, Obs.written.injEq] at hmem
    rcases hmem with ⟨rfl, rfl, rfl⟩ | hmem
    · exact ⟨(hinv.held d (.inr (.inr (.inr hpc)))).1.trans hd, List.take_prefix _ _⟩
    · exact hinv.isolated d h' bytes hmem
  | pop job jobs hpc hjobs =>
    refine hinv.frame ⟨rfl, rfl, fun h => ⟨h, rfl⟩, id, fun _ _ => id, fun _ => id,
      fun _ _ => ⟨rfl, rfl⟩, fun d h => ⟨.inl ?_, fun h => ⟨rfl, h⟩⟩, fun _ _ _ => id⟩
    simpa [World.Held, hjobs, or_comm, eq_comm] using h
  | _ =>
    refine hinv.frame ⟨rfl, rfl, fun h => ⟨h, rfl⟩, id, fun _ _ => id, by simp [World.Sent],
      fun _ _ => ⟨rfl, rfl⟩, fun d h => ⟨?_, fun h => ⟨rfl, h⟩⟩, by simp⟩
    simp_all [World.Held]

theorem AfterClose.joined {s : PortState} {r : List DispOp} (h : AfterClose s r) :
    s ≠ .portOpen ∧ joinWriter ∉ r ∧ ∀ d, r ≠ [sendLoadGeneration d] ∧
      r ≠ [sendLoadState d] ∧ r ≠ [sendEnqueue d] := by
  cases h <;> simp

theorem OwnerStep.send {w w' : World} {l : DispLabel} (h : OwnerStep w w')
    (hview : ViewInv w) (hc : NoCommitWhileCapturing w (.disp l)) (hinv : SendInv w) :
    SendInv w' := by
  cases h with
  | commitOpen ha hs =>
    obtain ⟨hcap, hmax⟩ := hc.1 (by simp [World.AtOp, ha])
    have hnext : (w.core.openGeneration + 1).toNat = w.core.openGeneration.toNat + 1 := by
      rw [UInt32.toNat_add, UInt32.toNat_one, Nat.mod_eq_of_lt hmax]
    refine { hinv with opened := fun _ => rfl, capturing := ?_, sent := ?_, judged := by simp,
                       enqueued := by simp, held := fun d hd => ?_ }
    · exact fun data seen hpc => absurd (AbiPc.capturing_of hpc) (by simp [hcap])
    · intro d hd
      have hle : d.generation.toNat ≤ w.core.openGeneration.toNat := by
        rcases hinv.sent d (by simpa [World.Sent, ha] using hd) with hlt | ⟨heq, -⟩
        · exact hlt.le
        · rw [heq]
      exact .inl (by rw [hnext]; omega)
    · simpa [World.Alive, ha] using hinv.held d hd
  | commitClose ha hs =>
    have hcap := hc.2 (by simp [World.AtOp, ha])
    refine { hinv with opened := by simp [hs, Committed], capturing := ?_, sent := ?_,
                       judged := by simp, enqueued := by simp, held := fun d hd => ?_ }
    · exact fun data seen hpc => absurd (AbiPc.capturing_of hpc) (by simp [hcap])
    · intro d hd
      refine (hinv.sent d (by simpa [World.Sent, ha] using hd)).imp_right fun hkept => ?_
      exact ⟨hkept.1, by simp [Committed], by simp [hs]⟩
    · simpa [World.Alive, ha] using hinv.held d hd
  | publishOpen ha hs =>
    have hcm : Committed w.agenda := .inr ha
    refine { hinv with opened := fun _ => hinv.opened (.inr hcm), capturing := ?_, sent := ?_,
                       judged := by simp, enqueued := by simp, held := fun d hd => ?_,
                       isolated := ?_ }
    · intro data seen hpc
      exact (hinv.capturing data seen hpc).imp_right fun hkept => absurd hcm hkept.2.1
    · intro d hd
      exact (hinv.sent d (by simpa [World.Sent, ha] using hd)).imp_right
        fun hkept => absurd hcm hkept.2.1
    · exact ⟨(hinv.held d hd).1, .inl rfl⟩
    · exact fun d handle bytes hmem => hinv.isolated d handle bytes (by simpa using hmem)
  | sendCurrent d ha hs hg =>
    refine { hinv with opened := by simpa [Committed, ha] using hinv.opened, capturing := ?_,
                       sent := fun d' hd => ?_, judged := by simp [hg], enqueued := by simp,
                       held := fun d hd => by simpa [World.Alive, ha] using hinv.held d hd }
    · simpa [Belongs, Committed, ha] using hinv.capturing
    · have hsent : w.Sent d' := by simpa [World.Sent, ha] using hd
      simpa [Belongs, Committed, ha] using hinv.sent d' hsent
  | sendOpen d ha hs hp =>
    have hopen : w.serialState = .portOpen := by
      rcases hview with heq | hf
      · exact heq ▸ hp
      · simp [hf] at hp
    have hg := hinv.judged d (.inl ha)
    refine { hinv with opened := by simpa [Committed, ha] using hinv.opened, capturing := ?_,
                       sent := fun d' hd => ?_, judged := by simp [hg],
                       enqueued := fun _ _ => hopen,
                       held := fun d hd => by simpa [World.Alive, ha] using hinv.held d hd }
    · simpa [Belongs, Committed, ha] using hinv.capturing
    · have hsent : w.Sent d' := by simpa [World.Sent, ha] using hd
      simpa [Belongs, Committed, ha] using hinv.sent d' hsent
  | sendEnqueue d ha hs hw =>
    have hopen := hinv.enqueued d ha
    have hdev : d.acceptedOn = w.device := by
      rcases hinv.sent d (.inr (.inr (.inr (.inr ha)))) with hlt | ⟨-, -, hdev⟩
      · rw [hinv.judged d (.inr ha), hinv.opened (.inl hopen)] at hlt
        exact absurd hlt (lt_irrefl _)
      · exact hdev hopen
    refine { hinv with opened := by simpa [Committed, ha] using hinv.opened, capturing := ?_,
                       sent := fun d' hd => ?_, judged := by simp, enqueued := by simp,
                       held := fun d' hd => ?_ }
    · simpa [Belongs, Committed, ha] using hinv.capturing
    · have hsent : w.Sent d' := hd.imp_right fun hd => .inl (by simpa using hd)
      simpa [Belongs, Committed, ha] using hinv.sent d' hsent
    · refine ⟨?_, .inl hopen⟩
      simp only [World.Held, List.mem_append, List.mem_singleton] at hd
      rcases hd with (hd | rfl) | hd
      · exact (hinv.held d' (.inl hd)).1
      · exact hdev
      · exact (hinv.held d' (.inr hd)).1
  | sendStale d ha hs =>
    refine hinv.frame ⟨rfl, rfl, fun h => ⟨h, rfl⟩, by simp [Committed], fun _ _ => id, ?_,
      by simp, fun d hd => ⟨hd, fun hal => ⟨rfl, ?_⟩⟩, fun _ _ _ => id⟩
    · exact fun d hd => hd.imp_right fun hd => .inl (by simpa using hd)
    · rcases ha with ha | ha | ha <;> simpa [World.Alive, ha] using hal
  | submitClose ha hs =>
    refine hinv.frame ⟨rfl, rfl, fun h => ⟨h, rfl⟩, by simp [Committed], fun _ _ => id, ?_,
      by simp, fun d hd => ⟨hd, fun hal => ⟨rfl, ?_⟩⟩, fun _ _ _ => id⟩
    all_goals simp_all [World.Sent, World.Alive]
  | closeAdmit r hr ha =>
    obtain ⟨hs, hj, hsend⟩ := hr.joined
    refine hinv.frame ⟨rfl, rfl, fun h => ⟨h, rfl⟩, fun hcm => absurd hcm hr.not_committed,
      fun _ _ => id, ?_, ?_, fun d hd => ⟨hd, fun hal => ⟨rfl, ?_⟩⟩, fun _ _ _ => id⟩
    all_goals simp_all [World.Sent, World.Alive]
  | closeJoinReader r hr ha hw =>
    obtain ⟨hs, hj, hsend⟩ := hr.joined
    refine hinv.frame ⟨rfl, rfl, fun h => absurd h hs, by simp [Committed], fun _ _ => id, ?_,
      ?_, fun d hd => ⟨hd, fun hal => ?_⟩, fun _ _ _ => id⟩
    all_goals simp_all [World.Sent, World.Alive]
  | faultNoEdge r ha hr hs =>
    refine hinv.frame ⟨rfl, rfl, fun h => ⟨h, rfl⟩, ?_, fun _ _ => id, ?_, ?_,
      fun d hd => ⟨hd, fun hal => ⟨rfl, ?_⟩⟩, fun _ _ _ => id⟩
    all_goals rcases hr with rfl | rfl <;> simp_all [World.Sent, World.Alive, Committed]
  | _ =>
    refine hinv.frame ⟨rfl, rfl, ?_, ?_, fun _ _ => id, ?_, ?_, fun d hd => ⟨?_, fun hal => ?_⟩,
      ?_⟩
    all_goals simp_all [World.Sent, World.Held, World.Alive, Committed, sinkOwnerClose]

theorem actionOf_send (s : PortState) (event : Event) (d : TxDescriptor) :
    (actionOf s event = [sendLoadGeneration d] → event = .sigSend d) ∧
      actionOf s event ≠ [sendLoadState d] ∧ actionOf s event ≠ [sendEnqueue d] := by
  cases event with
  | sigFault =>
    simp only [actionOf, serialDoFault]
    split <;> simp
  | _ => simp [actionOf, serialDoOpen, serialDoClose]

theorem dispatched_send {w : World} {i : Nat} {event : Event} (ha : w.agenda = [])
    (hev : w.events[i]? = some event) (hinv : SendInv w) : SendInv (w.dispatched i event) := by
  have hno := actionOf_not_committed w.serialState event
  refine hinv.frame ⟨rfl, rfl, fun h => ⟨h, rfl⟩, fun hcm => absurd hcm hno, fun _ _ => id,
    fun d hd => ?_, fun d hd => ?_, fun d hd => ⟨hd, fun hal => ⟨rfl, ?_⟩⟩, fun _ _ _ => id⟩
  · obtain ⟨hgen, hstate, henq⟩ := actionOf_send w.serialState event d
    rcases hd with hd | hd | hd | hd | hd
    · exact .inl hd
    · exact .inr (.inl (List.mem_of_mem_eraseIdx hd))
    · exact .inr (.inl (hgen hd ▸ List.mem_of_getElem? hev))
    · exact absurd hd hstate
    · exact absurd hd henq
  · exact absurd hd (not_or.mpr (actionOf_send _ _ _).2)
  · have hopen : w.serialState = .portOpen := by simpa [World.Alive, ha] using hal
    exact .inl hopen

theorem sendInv_reach {w : World}
    (h : Transition.ReachUnder sessionMachine NoCommitWhileCapturing w) : SendInv w := by
  refine h.invariantUsing (q := fun w => Agenda w.serialState w.agenda ∧ ViewInv w)
    (fun _ h => ⟨agenda_reach h.reach, viewInv_reach h.reach⟩) ?_ ?_
  · constructor <;> simp [sessionMachine, Committed, World.Sent, World.Held, World.SendsIsolated]
  rintro w l w' ⟨hag, hview⟩ hinv hc hstep
  cases l with
  | abi l => exact (abiStep_cases hstep).send hag hview hinv
  | disp l =>
    rcases dispStep_cases hag hstep with h | ⟨i, event, rfl, ha, hev, rfl⟩
    · exact h.send hview hc hinv
    · exact dispatched_send ha hev hinv
  | reader l => exact (readerStep_cases hstep).send hinv
  | writer l => exact (writerStep_cases hstep).send hinv

end Xcom
