import Xcom.Session.Pending

/-!
# Taking the result of an open

`xcom_take_open_result` loads the published state and then the recorded result, and
the owner updates the two in the other order.
-/

namespace Xcom

open DispOp

namespace World

/-- The running open ends in CLOSED. -/
def Failing (w : World) : Prop :=
  (w.agenda = [resolveOpen] ∨ w.agenda = [transition .kOpenDone]) ∧
      w.core.lastOpenResult ≠ .status .ok ∨
    w.agenda = [publish .portClosed]

/-- `r` has not published OPEN and never will. -/
structure Spent (w : World) (r : Request) : Prop where
  recorded : w.Recorded r
  reached : w.reached r = false
  failing : w.current = some r → w.serialState = .portOpening → w.Failing

/-- A taken failure belongs to a request without an OPEN, a taken success to one
that did not fail. -/
def TakesTruthful (w : World) : Prop :=
  ∀ r st, .takeReturned (some r) st ∈ w.trace →
    (st.isFailure = true → w.reached r = false) ∧
      (st = .ok → ∀ result, .openResolved (some r) result ∈ w.trace → result = .status .ok)

/-- The second load of `queue_open` is about to let its caller through. -/
def queueAdmits (w : World) : Bool :=
  match w.abi with
  | .queueLoadResult _ _ st =>
    (st = .portClosed ∨ st = .portFault) ∧ w.core.lastOpenResult ≠ .status .errBusy
  | _ => false

end World

/-- No step falls into a pair of loads whose results it would tear apart: the owner
records no success between the loads of a take, a take finds no session that has
ended since, a reporter stores no FAULT over OPENING, and `queue_open` admits no
caller once the port has left the state it saw for OPENING or OPEN. -/
def LoadsUntorn (w : World) : Label → Prop
  | .abi _ =>
    (w.abi = .takeLoadState → w.core.portState = .portOpen ∨ w.core.portState = .portOpening ∨
      w.lastRequest.all (fun r => !w.reached r)) ∧
    (w.queueAdmits = true → w.core.portState ≠ .portOpening ∧ w.core.portState ≠ .portOpen)
  | .disp _ => w.AtOp (storeOpenResult (.status .ok)) → w.abi ≠ .takeLoadResult
  | .reader _ => w.reader = .faultStoreState → w.serialState ≠ .portOpening
  | .writer _ => w.writer = .faultStoreState → w.serialState ≠ .portOpening

instance : ∀ w l, Decidable (LoadsUntorn w l)
  | _, .abi _ => inferInstanceAs (Decidable (_ ∧ _))
  | _, .disp _ => inferInstanceAs (Decidable (_ → _))
  | _, .reader _ => inferInstanceAs (Decidable (_ → _))
  | _, .writer _ => inferInstanceAs (Decidable (_ → _))

/-! ## Requests that are spent -/

theorem AbiStep.reached {w w' : World} (h : AbiStep w w') : w'.reached = w.reached := by
  cases h <;> rfl

theorem ReaderStep.reached {w w' : World} (h : ReaderStep w w') : w'.reached = w.reached := by
  cases h <;> rfl

theorem WriterStep.reached {w w' : World} (h : WriterStep w w') : w'.reached = w.reached := by
  cases h <;> rfl

theorem OwnerStep.reached {w w' : World} (h : OwnerStep w w') :
    w'.reached = w.reached ∨
      w.agenda = [publish .portOpen] ∧ w.serialState = .portOpening ∧
        ∀ r, w'.reached r = (w.current = some r || w.reached r) := by
  cases h with
  | publishOpen ha hs => exact .inr ⟨ha, hs, fun r => rfl⟩
  | _ => exact .inl rfl

theorem AbiStep.result_ne_ok {w w' : World} (h : AbiStep w w')
    (hr : w.core.lastOpenResult ≠ .status .ok) : w'.core.lastOpenResult ≠ .status .ok := by
  cases h with
  | storeBusy sync hpc => simp
  | storeRejected hpc => simp
  | _ => exact hr

theorem OwnerStep.failing {w w' : World} (h : OwnerStep w w')
    (hs : w.serialState = .portOpening) (hf : w.Failing) (hs' : w'.serialState = .portOpening) :
    w'.Failing := by
  cases h with
  | resolveFailed ha hr => exact .inl ⟨.inr rfl, hr⟩
  | openFail ha hs hr => exact .inr rfl
  | closeAdmission r hr ha => exact absurd hs hr.ahead
  | closeRelease r hr ha => exact absurd hs hr.ahead
  | closeStopWriter r hr ha => exact absurd hs hr.ahead
  | closeJoinWriter r hr ha hw => exact absurd hs hr.ahead
  | closeStopReader r hr ha => exact absurd hs hr.ahead
  | closeJoinReader r hr ha hw => exact absurd hs hr.ahead
  | closeAdmit r hr ha => exact absurd hs hr.ahead
  | _ => simp_all [World.Failing]

namespace World.Spent

variable {w w' : World} {r : Request}

theorem abi (h : w.Spent r) (hs : AbiStep w w') : w'.Spent r where
  recorded := h.recorded.abi hs
  reached := by rw [hs.reached, h.reached]
  failing := fun hc hopening => by
    obtain ⟨hstate, ha, hcur⟩ := hs.owner
    rw [World.Failing, ha]
    exact (h.failing (hcur ▸ hc) (hstate ▸ hopening)).imp_left fun ⟨hag, hr⟩ =>
      ⟨hag, hs.result_ne_ok hr⟩

theorem reader (h : w.Spent r) (hs : ReaderStep w w') : w'.Spent r where
  recorded := h.recorded.reader hs
  reached := by rw [hs.reached, h.reached]
  failing := by cases hs <;> exact h.failing

theorem writer (h : w.Spent r) (hs : WriterStep w w') : w'.Spent r where
  recorded := h.recorded.writer hs
  reached := by rw [hs.reached, h.reached]
  failing := by cases hs <;> exact h.failing

theorem dispatched (h : w.Spent r) {i : Nat} {event : Event} (ha : w.agenda = [])
    (hne : w.serialState ≠ .portOpening) (hev : w.events[i]? = some event) :
    (w.dispatched i event).Spent r where
  recorded := h.recorded.dispatched ha hev
  reached := h.reached
  failing := fun _ hopening => absurd hopening hne

theorem owner (h : w.Spent r) (hs : OwnerStep w w') (hinv : PendingInv w) : w'.Spent r where
  recorded := h.recorded.owner hs hinv
  reached := by
    rcases hs.reached with heq | ⟨ha, hopening, hor⟩
    · rw [heq, h.reached]
    · rw [hor, h.reached, Bool.or_false, decide_eq_false_iff_not]
      intro hc
      simpa [World.Failing, ha] using h.failing hc hopening
  failing := fun hc hopening => by
    have hcur : w.current = some r := hs.pending.current ▸ hc
    rcases hs.pending.opening hopening with hahead | hstate
    · exact absurd (by simp [pending, hahead, hcur]) h.recorded.1
    · exact hs.failing hstate (h.failing hcur hstate) hopening

end World.Spent

/-! ## Takes over a run -/

/-- What keeps takes truthful. -/
structure ResultInv (w : World) : Prop where
  opening : w.serialState = .portOpening →
    w.core.portState = .portOpening ∧ w.current = w.lastRequest
  opened : w.core.portState = .portOpen → ∃ r, w.lastRequest = some r ∧ w.reached r = true
  admitted : w.abi.queuing = true →
    w.core.portState ≠ .portOpening ∧ w.core.portState ≠ .portOpen
  reached : ∀ r, w.reached r = true → w.Recorded r
  failed : ∀ r result, .openResolved (some r) result ∈ w.trace → result ≠ .status .ok →
    w.Spent r
  taking : w.abi = .takeLoadResult → ∀ r, w.lastRequest = some r →
    w.Spent r ∨ r ∈ w.pending
  failing : w.abi = .takeFailure → ∀ r, w.lastRequest = some r → w.Spent r
  taken : ∀ r st, .takeReturned (some r) st ∈ w.trace →
    (st.isFailure = true → w.Spent r) ∧ (st = .ok → w.reached r = true)

theorem ResultInv.truthful {w : World} (h : ResultInv w) : w.TakesTruthful := by
  intro r st htaken
  obtain ⟨hfail, hok⟩ := h.taken r st htaken
  refine ⟨fun hst => (hfail hst).reached, fun hst result hres => ?_⟩
  by_contra hne
  simp [(h.failed r result hres hne).reached] at hok
  exact hok hst

theorem AbiStep.queuing {w w' : World} (h : AbiStep w w') (hq : w'.abi.queuing = true) :
    w.abi.queuing = true ∨ w.queueAdmits = true := by
  cases h with
  | queueAllowed sync cfg st hpc hst hr => exact .inr (by simp [World.queueAdmits, hpc, hst, hr])
  | storeBusy sync hpc => exact .inl (by simp [hpc, AbiPc.queuing])
  | storeCancel sync hpc => exact .inl (by simp [hpc, AbiPc.queuing])
  | openRejected sync hpc => exact .inl (by simp [hpc, AbiPc.queuing])
  | openQueued sync hpc => exact .inl (by simp [hpc, AbiPc.queuing])
  | refused hpc => exact .inl hq
  | closePollAgain hpc => exact .inl hq
  | pollAgain req i hpc =>
    simp only [World.nextPoll] at hq
    split at hq <;> cases hq
  | _ => cases hq

theorem AbiStep.lastRequest {w w' : World} (h : AbiStep w w') :
    w'.lastRequest = w.lastRequest ∨ w.abi.queuing = true := by
  cases h with
  | openQueued sync hpc => exact .inr (by simp [hpc, AbiPc.queuing])
  | _ => exact .inl rfl

theorem AbiStep.portState {w w' : World} (h : AbiStep w w') :
    w'.core.portState = w.core.portState := by
  cases h <;> rfl

theorem AbiStep.take {w w' : World} (h : AbiStep w w') :
    (w'.abi = .takeLoadResult → w.abi = .takeLoadState ∧ w.core.portState ≠ .portOpen ∧
        w.core.portState ≠ .portOpening ∧ w'.lastRequest = w.lastRequest ∧
        w'.pending = w.pending) ∧
      (w'.abi = .takeFailure → w.abi = .takeLoadResult ∧ w'.lastRequest = w.lastRequest ∧
        w.core.lastOpenResult ≠ .status .errBusy) := by
  cases h with
  | takeLoadState hpc hp hp' => exact ⟨fun _ => ⟨hpc, hp, hp', rfl, rfl⟩, nofun⟩
  | takeLoadResult hpc hr => exact ⟨nofun, fun _ => ⟨hpc, rfl, hr⟩⟩
  | refused hpc => simp [hpc]
  | closePollAgain hpc => simp [hpc]
  | pollAgain req i hpc =>
    simp only [World.nextPoll]
    split <;> simp
  | openQueued sync hpc => cases sync <;> exact ⟨nofun, nofun⟩
  | _ => exact ⟨nofun, nofun⟩

theorem AbiStep.taken {w w' : World} {req : Option Request} {st : XcomStatus}
    (h : AbiStep w w') (hmem : .takeReturned req st ∈ w'.trace) :
    .takeReturned req st ∈ w.trace ∨ req = w.lastRequest ∧
      (st = .errBusy ∨ st = .ok ∧ w.core.portState = .portOpen ∨
        st ≠ .ok ∧ w.abi = .takeFailure) := by
  cases h with
  | takeOk hpc hp =>
    simp only [World.returns, World.emit, List.mem_cons, Obs.takeReturned.injEq] at hmem
    exact hmem.symm.imp_right fun ⟨hreq, hst⟩ => ⟨hreq, .inr (.inl ⟨hst, hp⟩)⟩
  | takeOpening hpc hp =>
    simp only [World.returns, World.emit, List.mem_cons, Obs.takeReturned.injEq] at hmem
    exact hmem.symm.imp_right fun ⟨hreq, hst⟩ => ⟨hreq, .inl hst⟩
  | takeBusy hpc hr =>
    simp only [World.returns, World.emit, List.mem_cons, Obs.takeReturned.injEq] at hmem
    exact hmem.symm.imp_right fun ⟨hreq, hst⟩ => ⟨hreq, .inl hst⟩
  | takeFailure st' hpc hst' =>
    simp only [World.returns, World.emit, List.mem_cons, Obs.takeReturned.injEq] at hmem
    refine hmem.symm.imp_right fun ⟨hreq, hst⟩ => ⟨hreq, .inr (.inr ⟨?_, hpc⟩)⟩
    have hfail := openFailureStatusFromResult_isFailure w.core.lastOpenResult
    rintro rfl
    rw [← hst', ← hst] at hfail
    cases hfail
  | _ => exact .inl (by simpa using hmem)

theorem AbiStep.resolved {w w' : World} {req : Option Request} {result : OpenResult}
    (h : AbiStep w w') (hmem : .openResolved req result ∈ w'.trace) :
    .openResolved req result ∈ w.trace := by
  cases h <;> first | exact hmem | simpa using hmem

theorem AbiStep.resultInv {w w' : World} {l : AbiLabel} (hs : AbiStep w w')
    (hp : PendingInv w) (hc : LoadsUntorn w (.abi l)) (h : ResultInv w) : ResultInv w' where
  opening := fun hopening => by
    rw [hs.owner.1] at hopening
    rcases hs.lastRequest with hlast | hq
    · rw [hs.portState, hlast, hs.owner.2.2]
      exact h.opening hopening
    · exact absurd (h.opening hopening).1 (h.admitted hq).1
  opened := fun hopen => by
    rw [hs.portState] at hopen
    rcases hs.lastRequest with hlast | hq
    · rw [hlast, hs.reached]
      exact h.opened hopen
    · exact absurd hopen (h.admitted hq).2
  admitted := fun hq => by
    rw [hs.portState]
    exact (hs.queuing hq).elim h.admitted hc.2
  reached := fun r hr => (h.reached r (hs.reached ▸ hr)).abi hs
  failed := fun r result hres hne => (h.failed r result (hs.resolved hres) hne).abi hs
  taking := fun hpc r hlast => by
    obtain ⟨htake, hnopen, hnopening, hl, hpend⟩ := hs.take.1 hpc
    rw [hl] at hlast
    rw [hpend]
    by_cases hmem : r ∈ w.pending
    · exact .inr hmem
    · have hunreached : w.reached r = false := by
        simpa [hlast, hnopen, hnopening] using hc.1 htake
      have hlt : r < w.nextRequest := by
        rw [lastRequest_eq_some.mp hlast]
        exact Nat.lt_succ_self r
      refine .inl (World.Spent.abi ⟨⟨hmem, hlt⟩, hunreached, fun _ hopening => ?_⟩ hs)
      exact absurd (h.opening hopening).1 hnopening
  failing := fun hpc r hlast => by
    obtain ⟨htake, hl, hr⟩ := hs.take.2 hpc
    refine ((h.taking htake r (hl ▸ hlast)).resolve_right fun hmem => ?_).abi hs
    exact hr (hp.busy (List.ne_nil_of_mem hmem)).1
  taken := fun r st hmem => by
    rw [hs.reached]
    rcases hs.taken hmem with hmem | ⟨hlast, rfl | ⟨rfl, hopen⟩ | ⟨hst, hpc⟩⟩
    · exact ⟨fun hst => ((h.taken r st hmem).1 hst).abi hs, (h.taken r st hmem).2⟩
    · exact ⟨nofun, nofun⟩
    · refine ⟨nofun, fun _ => ?_⟩
      obtain ⟨r', hr', hreached⟩ := h.opened hopen
      rwa [Option.some.inj (hlast.trans hr')]
    · exact ⟨fun _ => (h.failing hpc r hlast.symm).abi hs, fun hok => absurd hok hst⟩

/-- What a step of the owner does to what a take looks at. -/
theorem OwnerStep.portOpen {w w' : World} (h : OwnerStep w w')
    (hopen : w'.core.portState = .portOpen) :
    w.core.portState = .portOpen ∨ w.agenda = [publish .portOpen] ∧
      w.serialState = .portOpening ∧ ∀ r, w'.reached r = (w.current = some r || w.reached r) := by
  cases h with
  | publishOpen ha hs => exact .inr ⟨ha, hs, fun r => rfl⟩
  | openEdge | publishOpenFail | cancel | closeEdge | publishClosed | publishFault
  | faultOpen | faultClosing => cases hopen
  | _ => exact .inl hopen

theorem OwnerStep.resolved {w w' : World} {req : Option Request} {result : OpenResult}
    (h : OwnerStep w w') (hmem : .openResolved req result ∈ w'.trace) :
    .openResolved req result ∈ w.trace ∨ req = w.current ∧
      w.agenda = [storeOpenResult result, resolveOpen] ∧ w'.agenda = [resolveOpen] ∧
      w'.core.lastOpenResult = result := by
  cases h with
  | storeResult r ha hs hr =>
    simp only [World.emit, List.mem_cons, Obs.openResolved.injEq] at hmem
    rcases hmem with ⟨hreq, rfl⟩ | hmem
    · exact .inr ⟨hreq, ha, rfl, rfl⟩
    · exact .inl hmem
  | _ => exact .inl (by simpa using hmem)

theorem OwnerStep.taken {w w' : World} {req : Option Request} {st : XcomStatus}
    (h : OwnerStep w w') (hmem : .takeReturned req st ∈ w'.trace) :
    .takeReturned req st ∈ w.trace := by
  cases h <;> first | exact hmem | simpa using hmem

theorem openAhead_tail {w w' : World} {op : DispOp} (ha : w.agenda = op :: w'.agenda)
    (hop : opensAhead op = false) : w.openAhead = w'.openAhead := by
  simp only [World.openAhead, ha, List.any_cons, hop, Bool.false_or]

theorem OwnerStep.settles {w w' : World} (h : OwnerStep w w') (ha : w.openAhead = true)
    (ha' : w'.openAhead = false) :
    w.AtOp (storeOpenResult (.status .ok)) ∨
      (w'.serialState = .portOpening → w'.Failing) := by
  have htail (op : DispOp) (hag : w.agenda = op :: w'.agenda) (hop : opensAhead op = false) :
      w.AtOp (storeOpenResult (.status .ok)) ∨
        (w'.serialState = .portOpening → w'.Failing) := by
    simp [openAhead_tail hag hop, ha'] at ha
  cases h with
  | storeResult r hag hs hr =>
    by_cases hok : r = .status .ok
    · exact .inl (by simp [World.AtOp, hag, hok])
    · exact .inr fun _ => .inl ⟨.inl rfl, hok⟩
  | openNoEdge hag hs => exact .inr fun hopening => by simp_all
  | faultNoEdge r hag hr hs => exact htail _ hag rfl
  | closeAdmission r hr hag => exact htail _ hag rfl
  | closeRelease r hr hag => exact htail _ hag rfl
  | closeStopWriter r hr hag => exact htail _ hag rfl
  | closeJoinWriter r hr hag => exact htail _ hag rfl
  | closeStopReader r hr hag => exact htail _ hag rfl
  | closeJoinReader r hr hag => exact htail _ hag rfl
  | closeAdmit r hr hag => exact htail _ hag rfl
  | sendStale d hag hs =>
    rcases hag with hag | hag | hag <;> simp [World.openAhead, hag, opensAhead] at ha
  | _ =>
    clear htail
    simp_all [World.openAhead, opensAhead]

theorem OwnerStep.resultInv {w w' : World} {l : DispLabel} (hs : OwnerStep w w')
    (hp : PendingInv w) (hc : LoadsUntorn w (.disp l)) (h : ResultInv w) : ResultInv w' := by
  have hfr := hs.pending
  have hlast : w'.lastRequest = w.lastRequest := by rw [World.lastRequest, hfr.next]; rfl
  -- the request that publishes OPEN is no longer in flight
  have hopens {r : Request} (ha : w.agenda = [publish .portOpen]) (hcur : w.current = some r) :
      w.Recorded r := by
    obtain ⟨hno, hlt⟩ := hp.current r hcur
    exact ⟨by simpa [World.pending, World.openAhead, ha, opensAhead] using hno, hlt⟩
  -- and one that is recorded in this step ends without OPEN
  have hspent {r : Request} (ha : w.openAhead = true) (ha' : w'.openAhead = false)
      (hmem : r ∈ w.pending) (hf : w'.serialState = .portOpening → w'.Failing) : w'.Spent r := by
    refine ⟨⟨?_, ?_⟩, ?_, fun _ => hf⟩
    · simp [World.pending, ha', hfr.opens, hp.opens_of_ahead ha]
    · exact hfr.next ▸ hp.lt hmem
    · rcases hs.reached with heq | ⟨hag, -, -⟩
      · rw [heq]
        exact Bool.eq_false_iff.mpr fun hr => (h.reached r hr).1 hmem
      · simp [World.openAhead, hag, opensAhead] at ha
  exact
    { opening := fun hopening => by
        refine ⟨?_, ?_⟩
        · rcases hs.view with heq | ⟨hview, hstate⟩
          · rw [heq, hopening]
          · rw [hview, (h.opening (hstate ▸ hopening)).1]
        · rw [hfr.current, hlast]
          rcases hfr.opening hopening with hahead | hstate
          · obtain ⟨r, hcur, hmem⟩ := hp.ahead_current hahead
            rw [hcur, hp.last r hmem]
          · exact (h.opening hstate).2
      opened := fun hopen => by
        rw [hlast]
        rcases hs.portOpen hopen with hopen | ⟨ha, hopening, hreached⟩
        · obtain ⟨r, hr, hreached⟩ := h.opened hopen
          refine ⟨r, hr, ?_⟩
          rcases hs.reached with heq | ⟨-, -, heq⟩
          · rw [heq, hreached]
          · rw [heq, hreached, Bool.or_true]
        · obtain ⟨r, hr⟩ := Option.isSome_iff_exists.mp (hp.carried (.inr hopening))
          exact ⟨r, (h.opening hopening).2 ▸ hr, by simp [hreached, hr]⟩
      admitted := fun hq => by
        rw [hfr.abi] at hq
        obtain ⟨hnopening, hnopen⟩ := h.admitted hq
        have hidle : w.serialState ≠ .portOpening := fun hs => hnopening (h.opening hs).1
        refine ⟨fun hopening => ?_, fun hopen => ?_⟩
        · rcases hs.view with heq | ⟨hview, -⟩
          · rcases hfr.opening (heq ▸ hopening) with hahead | hstate
            · obtain ⟨r, -, hmem⟩ := hp.ahead_current hahead
              simp [hp.queuing hq] at hmem
            · exact hidle hstate
          · exact hnopening (hview ▸ hopening)
        · rcases hs.portOpen hopen with hopen | ⟨-, hopening, -⟩
          · exact hnopen hopen
          · exact hidle hopening
      reached := fun r hr => by
        rcases hs.reached with heq | ⟨ha, -, heq⟩
        · exact (h.reached r (heq ▸ hr)).owner hs hp
        · rw [heq, Bool.or_eq_true, decide_eq_true_eq] at hr
          exact (hr.elim (hopens ha) (h.reached r)).owner hs hp
      failed := fun r result hres hne => by
        rcases hs.resolved hres with hres | ⟨hcur, ha, ha', hresult⟩
        · exact (h.failed r result hres hne).owner hs hp
        · have hahead : w.openAhead = true := by simp [World.openAhead, ha, opensAhead]
          have hgone : w'.openAhead = false := by simp [World.openAhead, ha', opensAhead]
          obtain ⟨r', hcur', hmem⟩ := hp.ahead_current hahead
          obtain rfl : r = r' := Option.some.inj (hcur.trans hcur')
          exact hspent hahead hgone hmem fun _ => .inl ⟨.inl ha', hresult ▸ hne⟩
      taking := fun hpc r hr => by
        rw [hfr.abi] at hpc
        rw [hlast] at hr
        rcases h.taking hpc r hr with hsp | hmem
        · exact .inl (hsp.owner hs hp)
        cases hgone : w'.openAhead with
        | true =>
          simp only [World.pending, hfr.ahead hgone] at hmem
          exact .inr (by simpa [World.pending, hgone, hfr.opens, hfr.current] using hmem)
        | false =>
          cases hahead : w.openAhead with
          | true =>
            refine .inl (hspent hahead hgone hmem ?_)
            exact (hs.settles hahead hgone).resolve_left fun hat => hc hat hpc
          | false =>
            simp only [World.pending, hahead] at hmem
            exact .inr (by simpa [World.pending, hgone, hfr.opens] using hmem)
      failing := fun hpc r hr =>
        (h.failing (hfr.abi ▸ hpc) r (hlast ▸ hr)).owner hs hp
      taken := fun r st hmem => by
        obtain ⟨hfail, hok⟩ := h.taken r st (hs.taken hmem)
        refine ⟨fun hst => (hfail hst).owner hs hp, fun hst => ?_⟩
        rcases hs.reached with heq | ⟨-, -, heq⟩
        · rw [heq, hok hst]
        · rw [heq, hok hst, Bool.or_true] }

theorem dispatched_resultInv {w : World} {i : Nat} {event : Event} (ha : w.agenda = [])
    (hne : w.serialState ≠ .portOpening) (hev : w.events[i]? = some event)
    (h : ResultInv w) : ResultInv (w.dispatched i event) where
  opening := fun hopening => absurd hopening hne
  opened := h.opened
  admitted := h.admitted
  reached := fun r hr => (h.reached r hr).dispatched ha hev
  failed := fun r result hres hres' => (h.failed r result hres hres').dispatched ha hne hev
  taking := fun hpc r hr => (h.taking hpc r hr).imp (fun hsp => hsp.dispatched ha hne hev)
    (pending_dispatched ha hev).mem_iff.mpr
  failing := fun hpc r hr => (h.failing hpc r hr).dispatched ha hne hev
  taken := fun r st hmem =>
    ⟨fun hst => ((h.taken r st hmem).1 hst).dispatched ha hne hev, (h.taken r st hmem).2⟩

/-- What a reporter of faults leaves alone. -/
structure ReporterFrame (w w' : World) : Prop where
  owner : w'.serialState = w.serialState ∧ w'.agenda = w.agenda ∧ w'.current = w.current
  portState : w'.core.portState = w.core.portState ∨
    w'.core.portState = .portFault ∧ w.serialState ≠ .portOpening
  nextRequest : w'.nextRequest = w.nextRequest
  abi : w'.abi = w.abi
  opens : w'.opens = w.opens
  reached : w'.reached = w.reached
  spent : ∀ r, w.Spent r → w'.Spent r
  trace : ∀ o, o ∈ w'.trace → o ∈ w.trace ∨ o = .faultStored ∨ ∃ d h b, o = .written d h b

theorem ResultInv.reporter {w w' : World} (hw : ReporterFrame w w') (h : ResultInv w) :
    ResultInv w' := by
  obtain ⟨hstate, ha, hcur⟩ := hw.owner
  have hpend : w'.pending = w.pending := by
    rw [World.pending, World.openAhead, ha, hcur, hw.opens]; rfl
  have hlast : w'.lastRequest = w.lastRequest := by rw [World.lastRequest, hw.nextRequest]; rfl
  have hrec (r : Request) (hr : w.Recorded r) : w'.Recorded r := by
    rwa [World.Recorded, hpend, hw.nextRequest]
  refine ⟨fun hopening => ?_, fun hopen => ?_, fun hq => ?_, fun r hr => ?_,
    fun r result hres hne => ?_, fun hpc r hr => ?_, fun hpc r hr => ?_, fun r st hmem => ?_⟩
  · rw [hstate] at hopening
    rcases hw.portState with heq | ⟨-, hno⟩
    · rw [heq, hcur, hlast]
      exact h.opening hopening
    · exact absurd hopening hno
  · rcases hw.portState with heq | ⟨heq, -⟩
    · rw [hlast, hw.reached]
      exact h.opened (heq ▸ hopen)
    · simp [heq] at hopen
  · rcases hw.portState with heq | ⟨heq, -⟩
    · rw [heq]
      exact h.admitted (hw.abi ▸ hq)
    · simp [heq]
  · exact hrec r (h.reached r (hw.reached ▸ hr))
  · exact hw.spent r (h.failed r result (by simpa using hw.trace _ hres) hne)
  · rw [hpend]
    exact (h.taking (hw.abi ▸ hpc) r (hlast ▸ hr)).imp_left (hw.spent r)
  · exact hw.spent r (h.failing (hw.abi ▸ hpc) r (hlast ▸ hr))
  · rw [hw.reached]
    obtain ⟨hfail, hok⟩ := h.taken r st (by simpa using hw.trace _ hmem)
    exact ⟨fun hst => hw.spent r (hfail hst), hok⟩

theorem ReaderStep.reporter {w w' : World} {l : ReaderLabel} (hs : ReaderStep w w')
    (hc : LoadsUntorn w (.reader l)) : ReporterFrame w w' := by
  have hspent := fun r (h : w.Spent r) => h.reader hs
  cases hs with
  | submit hpc =>
    exact ⟨⟨rfl, rfl, rfl⟩, .inl rfl, rfl, rfl, by simp [World.opens, Event.request], rfl,
      hspent, fun _ => .inl⟩
  | storeState hpc =>
    exact ⟨⟨rfl, rfl, rfl⟩, .inr ⟨rfl, hc hpc⟩, rfl, rfl, rfl, rfl, hspent,
      by simp +contextual⟩
  | _ => exact ⟨⟨rfl, rfl, rfl⟩, .inl rfl, rfl, rfl, rfl, rfl, hspent, fun _ => .inl⟩

theorem WriterStep.reporter {w w' : World} {l : WriterLabel} (hs : WriterStep w w')
    (hc : LoadsUntorn w (.writer l)) : ReporterFrame w w' := by
  have hspent := fun r (h : w.Spent r) => h.writer hs
  cases hs with
  | submit hpc =>
    exact ⟨⟨rfl, rfl, rfl⟩, .inl rfl, rfl, rfl, by simp [World.opens, Event.request], rfl,
      hspent, fun _ => .inl⟩
  | storeState hpc =>
    exact ⟨⟨rfl, rfl, rfl⟩, .inr ⟨rfl, hc hpc⟩, rfl, rfl, rfl, rfl, hspent,
      by simp +contextual⟩
  | write job handle count ok fatal hpc hd =>
    exact ⟨⟨rfl, rfl, rfl⟩, .inl rfl, rfl, rfl, rfl, rfl, hspent,
      by simp +contextual⟩
  | _ => exact ⟨⟨rfl, rfl, rfl⟩, .inl rfl, rfl, rfl, rfl, rfl, hspent, fun _ => .inl⟩

theorem resultInv_reach {w : World}
    (h : Transition.ReachUnder sessionMachine LoadsUntorn w) : ResultInv w := by
  refine h.invariantUsing (q := fun w => Agenda w.serialState w.agenda ∧ PendingInv w)
    (fun _ h => ⟨agenda_reach h.reach, pendingInv_reach h.reach⟩) ?_ ?_
  · constructor <;> simp [sessionMachine, AbiPc.queuing, World.reached]
  rintro w l w' ⟨hag, hp⟩ hinv hc hstep
  cases l with
  | abi l => exact (abiStep_cases hstep).resultInv hp hc hinv
  | disp l =>
    rcases dispStep_cases hag hstep with h | ⟨i, event, -, ha, hev, rfl⟩
    · exact h.resultInv hp hc hinv
    · exact dispatched_resultInv ha (hag.idle_ne ha) hev hinv
  | reader l => exact hinv.reporter ((readerStep_cases hstep).reporter hc)
  | writer l => exact hinv.reporter ((writerStep_cases hstep).reporter hc)

/-- While no loads are torn, `xcom_take_open_result` reports a failure only for an
open that never reaches OPEN, and success only for one that did not fail. -/
theorem takes_truthful {w : World} (h : Transition.ReachUnder sessionMachine LoadsUntorn w) :
    w.TakesTruthful :=
  (resultInv_reach h).truthful

/-- `xcom_take_open_result` called while an open runs and again after it failed. -/
theorem takes_truthful_failed :
    ∃ w : World, .takeReturned (some 0) .errIo ∈ w.trace ∧ w.TakesTruthful := by
  obtain ⟨w, hw, hmem⟩ := Transition.exists_of_execUnder (m := sessionMachine)
    (c := LoadsUntorn) (p := fun w => .takeReturned (some 0) .errIo ∈ w.trace)
    ((queueOpenRun someConfig).map Label.abi ++
      [Label.disp (.dispatch 0), .disp .run, .disp .run, .abi .takeCall, .abi .loadState,
        .disp .run, .disp .run, .disp (.opened (some 0)), .disp .run, .disp .run, .disp .run,
        .disp .run, .abi .takeCall, .abi .loadState, .abi .loadResult, .abi .loadResult])
    (by decide +kernel)
  exact ⟨w, hmem, takes_truthful hw⟩

/-- A take loads CLOSED, then the owner runs the whole open, and the take finds the
recorded success where it expects the cause of a failure. -/
theorem take_reports_torn_failure :
    ∃ w : World, Transition.Reach sessionMachine w ∧ ¬ w.TakesTruthful := by
  obtain ⟨w, hw, hmem, hreached⟩ := Transition.exists_of_execUnder (m := sessionMachine)
    (c := fun _ _ => True)
    (p := fun w => .takeReturned (some 0) .errIo ∈ w.trace ∧ w.reached 0 = true)
    ((queueOpenRun someConfig).map Label.abi ++ [Label.abi .takeCall, .abi .loadState] ++
      (ownerOpenRun ++ ownerCommitRun).map Label.disp ++ [Label.abi .loadResult, .abi .loadResult])
    (by decide +kernel)
  refine ⟨w, hw, fun htruthful => ?_⟩
  have := (htruthful _ _ hmem).1 rfl
  simp [hreached] at this

end Xcom
