import Xcom.Display.Path

/-!
# What the steps of the display path do

One inversion lemma for each of the three threads.
-/

namespace Xcom.Display

/-- What a step of the read thread does.  `p` is the state before it. -/
inductive IngressStep (env : Env) (p : Path) : IngressLabel → Path → Prop
  | deliver (data : List UInt8) (hpc : p.reader = .idle) (hd : data ≠ []) :
      IngressStep env p (.deliver data) { p with
        received := p.received + data.length, reader := .loadAdmission data p.received }
  | admitted (data : List UInt8) (first : Nat) (hpc : p.reader = .loadAdmission data first) :
      IngressStep env p .run { p with reader := .loadState data first }
  | turnedAway (data : List UInt8) (first : Nat)
      (hpc : p.reader = .loadAdmission data first ∨ p.reader = .loadState data first) :
      IngressStep env p .run { p with reader := .reject data first }
  | opened (data : List UInt8) (first : Nat) (hpc : p.reader = .loadState data first)
      (hs : env.portState = .portOpen) :
      IngressStep env p .run { p with
        reader := .acquireLease data first ⟨env.generation, env.opens⟩ }
  | reject (data : List UInt8) (first : Nat) (hpc : p.reader = .reject data first) :
      IngressStep env p .run
        { p.countRejected data.length (List.range' first data.length) with reader := .idle }
  | lease (data : List UInt8) (first : Nat) (mark : Mark) (granted : Bool)
      (hpc : p.reader = .acquireLease data first mark) :
      IngressStep env p (.lease granted) { p with
        reader := .alloc ⟨data, first, mark, granted, false⟩ }
  | allocated (i : Ingress) (displayOk : Bool) (hpc : p.reader = .alloc i)
      (hok : i.fileLane = true ∨ displayOk = true) :
      IngressStep env p (.alloc (some displayOk)) { p with reader := .publish i displayOk }
  | fileLaneFull (i : Ingress) (hpc : p.reader = .alloc i) (hf : i.fileLane = true) :
      IngressStep env p (.alloc none) { p with reader := .blockedAdmission i }
  | poolFull (i : Ingress) (hpc : p.reader = .alloc i) :
      IngressStep env p (.alloc none) { p with reader := .unowned i }
  | stillAdmitted (i : Ingress) (hpc : p.reader = .blockedAdmission i) :
      IngressStep env p .run { p with reader := .blockedState i }
  | stillOpen (i : Ingress) (hpc : p.reader = .blockedState i) :
      IngressStep env p .run { p with reader := .alloc i }
  | closing (i : Ingress)
      (hpc : p.reader = .blockedAdmission i ∨ p.reader = .blockedState i) :
      IngressStep env p .run { p with reader := .unowned i }
  | publish (i : Ingress) (displayOk : Bool) (ms : UInt32)
      (hpc : p.reader = .publish i displayOk) :
      IngressStep env p (.publish ms) { p with
        ring := if displayOk then p.ring ++ [i.block env.generation ms] else p.ring
        reader := if i.next.rest = [] then i.next.finish else .alloc i.next }
  | unowned (i : Ingress) (hpc : p.reader = .unowned i) :
      IngressStep env p .run
        { p.countRejected i.rest.length (List.range' i.first i.rest.length) with
          reader := i.finish }
  | armFailed (fileLane : Bool) (hpc : p.reader = .arm fileLane) (hg : p.gate = true) :
      IngressStep env p .run { p with reader := afterKick fileLane }
  | armed (fileLane : Bool) (hpc : p.reader = .arm fileLane) (hg : p.gate = false) :
      IngressStep env p .run { p with gate := true, reader := .submit fileLane }
  | submitted (fileLane : Bool) (hpc : p.reader = .submit fileLane) :
      IngressStep env p (.submit true) { p with
        kicks := p.kicks + 1, reader := afterKick fileLane }
  | notSubmitted (fileLane : Bool) (hpc : p.reader = .submit fileLane) :
      IngressStep env p (.submit false) { p with reader := .refused fileLane }
  | refused (fileLane : Bool) (hpc : p.reader = .refused fileLane) :
      IngressStep env p .run { p with gate := false, reader := afterKick fileLane }
  | released (hpc : p.reader = .releaseLease) :
      IngressStep env p .run { p with reader := .idle }

theorem readerStep_cases {env : Env} {p p' : Path} {l : IngressLabel}
    (h : p.readerStep env l = some p') : IngressStep env p l p' := by
  unfold Path.readerStep at h
  split at h
  case h_1 data hpc =>
    split at h
    · cases h
    · cases h; exact .deliver data hpc ‹_›
  case h_2 data first hpc =>
    cases h
    split
    · exact .admitted data first hpc
    · exact .turnedAway data first (.inl hpc)
  case h_3 data first hpc =>
    cases h
    split
    · exact .opened data first hpc ‹_›
    · exact .turnedAway data first (.inr hpc)
  case h_4 data first hpc => cases h; exact .reject data first hpc
  case h_5 data first mark granted hpc => cases h; exact .lease data first mark granted hpc
  case h_6 i displayOk hpc =>
    split at h
    · cases h
    · cases h
      refine .allocated i displayOk hpc ?_
      grind
  case h_7 i hpc =>
    cases h
    split
    · exact .fileLaneFull i hpc ‹_›
    · exact .poolFull i hpc
  case h_8 i hpc =>
    cases h
    split
    · exact .stillAdmitted i hpc
    · exact .closing i (.inl hpc)
  case h_9 i hpc =>
    cases h
    split
    · exact .stillOpen i hpc
    · exact .closing i (.inr hpc)
  case h_10 i displayOk ms hpc => cases h; exact .publish i displayOk ms hpc
  case h_11 i hpc => cases h; exact .unowned i hpc
  case h_12 fileLane hpc =>
    cases h
    split
    · exact .armFailed fileLane hpc ‹_›
    · exact .armed fileLane hpc (Bool.eq_false_iff.mpr ‹_›)
  case h_13 fileLane hpc => cases h; exact .submitted fileLane hpc
  case h_14 fileLane hpc => cases h; exact .notSubmitted fileLane hpc
  case h_15 fileLane hpc => cases h; exact .refused fileLane hpc
  case h_16 hpc => cases h; exact .released hpc
  case h_17 => cases h

/-- What a step of `rx_kick_action` does. -/
inductive KickStep (env : Env) (p : Path) : KickLabel → Path → Prop
  | dispatch (hpc : p.kick = .idle) (hk : p.kicks ≠ 0) :
      KickStep env p .dispatch { p with kicks := p.kicks - 1, kick := .loop 0 }
  | enough (n : Nat) (hpc : p.kick = .loop n) (hn : 4 ≤ n) :
      KickStep env p .run { p with kick := .disarm }
  | retry (n : Nat) (d : RxDesc) (hpc : p.kick = .loop n) (hd : p.deferred = some d) :
      KickStep env p .run { p with deferred := none, kick := .loadPause n d }
  | pop (n : Nat) (d : RxDesc) (ring : List RxDesc) (hpc : p.kick = .loop n)
      (hd : p.deferred = none) (hr : p.ring = d :: ring) :
      KickStep env p .run { p with ring := ring, kick := .loadPause n d }
  | empty (n : Nat) (hpc : p.kick = .loop n) (hd : p.deferred = none) (hr : p.ring = []) :
      KickStep env p .run { p with kick := .disarm }
  | paused (n : Nat) (d : RxDesc) (hpc : p.kick = .loadPause n d)
      (hp : p.pauseDisplay = true) : KickStep env p .run (p.defer d)
  | showing (n : Nat) (d : RxDesc) (hpc : p.kick = .loadPause n d) :
      KickStep env p .run { p with kick := .acquire n d }
  | exhausted (n : Nat) (d : RxDesc) (hpc : p.kick = .acquire n d) (hf : p.free = 0) :
      KickStep env p .run (p.defer d)
  | acquire (n : Nat) (d : RxDesc) (hpc : p.kick = .acquire n d) (hf : p.free ≠ 0) :
      KickStep env p .run { p with free := p.free - 1, kick := .format n d }
  | blank (n : Nat) (d : RxDesc) (hpc : p.kick = .format n d)
      (ht : (formatPayload p.hexView p.textState d.payload).1 = []) :
      KickStep env p .run { p with
        textState := (formatPayload p.hexView p.textState d.payload).2, kick := .discard n d }
  | format (n : Nat) (d : RxDesc) (hpc : p.kick = .format n d)
      (ht : (formatPayload p.hexView p.textState d.payload).1 ≠ []) :
      KickStep env p .run { p with
        textState := (formatPayload p.hexView p.textState d.payload).2
        kick := .push n d (formatPayload p.hexView p.textState d.payload).1 }
  | discard (n : Nat) (d : RxDesc) (hpc : p.kick = .discard n d) :
      KickStep env p .run { p with
        free := p.free + 1, delivered := p.delivered ++ d.ids, kick := .loop (n + 1) }
  | push (n : Nat) (d : RxDesc) (text : List UInt8) (hpc : p.kick = .push n d text)
      (hr : p.ready.length < kDisplayBatchCount) :
      KickStep env p .run { p with
        ready := p.ready ++ [.push d text env.generation], kick := .countPending n }
  | pushFull (n : Nat) (d : RxDesc) (text : List UInt8) (hpc : p.kick = .push n d text)
      (hr : kDisplayBatchCount ≤ p.ready.length) :
      KickStep env p .run { p.defer d with free := p.free + 1 }
  | countPending (n : Nat) (hpc : p.kick = .countPending n) :
      KickStep env p .run { p with
        displayPending := p.displayPending + 1, kick := .loop (n + 1) }
  | disarm (hpc : p.kick = .disarm) :
      KickStep env p .run { p with gate := false, kick := .recheck }
  | more (hpc : p.kick = .recheck) (hd : p.deferred = none) (hr : p.ring ≠ []) :
      KickStep env p .run { p with kick := .rearm }
  | done (hpc : p.kick = .recheck) (hd : p.deferred ≠ none ∨ p.ring = []) :
      KickStep env p .run { p with kick := .idle }
  | rearmFailed (hpc : p.kick = .rearm) (hg : p.gate = true) :
      KickStep env p .run { p with kick := .idle }
  | rearmed (hpc : p.kick = .rearm) (hg : p.gate = false) :
      KickStep env p .run { p with gate := true, kick := .submit }
  | submitted (hpc : p.kick = .submit) :
      KickStep env p (.submit true) { p with kicks := p.kicks + 1, kick := .idle }
  | notSubmitted (hpc : p.kick = .submit) :
      KickStep env p (.submit false) { p with kick := .refused }
  | refused (hpc : p.kick = .refused) :
      KickStep env p .run { p with gate := false, kick := .idle }

theorem kickStep_cases {env : Env} {p p' : Path} {l : KickLabel}
    (h : p.kickStep env l = some p') : KickStep env p l p' := by
  unfold Path.kickStep at h
  split at h
  case h_1 hpc =>
    split at h
    · cases h
    · cases h; exact .dispatch hpc ‹_›
  case h_2 n hpc =>
    cases h
    split
    · exact .enough n hpc ‹_›
    · split
      · exact .retry n _ hpc ‹_›
      · exact .pop n _ _ hpc ‹_› ‹_›
      · exact .empty n hpc ‹_› ‹_›
  case h_3 n d hpc =>
    cases h
    split
    · exact .paused n d hpc ‹_›
    · exact .showing n d hpc
  case h_4 n d hpc =>
    cases h
    split
    · exact .exhausted n d hpc ‹_›
    · exact .acquire n d hpc ‹_›
  case h_5 n d hpc =>
    cases h
    split
    · exact .blank n d hpc ‹_›
    · exact .format n d hpc ‹_›
  case h_6 n d hpc => cases h; exact .discard n d hpc
  case h_7 n d text hpc =>
    cases h
    split
    · exact .push n d text hpc ‹_›
    · exact .pushFull n d text hpc (Nat.le_of_not_lt ‹_›)
  case h_8 n hpc => cases h; exact .countPending n hpc
  case h_9 hpc => cases h; exact .disarm hpc
  case h_10 hpc =>
    cases h
    split
    · rename_i hmore
      exact .more hpc hmore.1 hmore.2
    · rename_i hmore
      refine .done hpc ?_
      by_cases hd : p.deferred = none
      · exact .inr (not_not.mp fun hr => hmore ⟨hd, hr⟩)
      · exact .inl hd
  case h_11 hpc =>
    cases h
    split
    · exact .rearmFailed hpc ‹_›
    · exact .rearmed hpc (Bool.eq_false_iff.mpr ‹_›)
  case h_12 hpc => cases h; exact .submitted hpc
  case h_13 hpc => cases h; exact .notSubmitted hpc
  case h_14 hpc => cases h; exact .refused hpc
  case h_15 => cases h

/-- What a step of the ABI caller does. -/
inductive ConsumerStep (env : Env) (p : Path) : ConsumerLabel → Path → Prop
  | returned (l : ConsumerLabel) (hpc : p.consumer = .idle) : ConsumerStep env p l p
  | drainCall (capacity : Nat) (hpc : p.consumer = .idle) :
      ConsumerStep env p (.drainCall capacity) { p with consumer := .loadGeneration capacity }
  | optionsCall (o : XcomDisplayOptions) (hpc : p.consumer = .idle) :
      ConsumerStep env p (.optionsCall (some o)) { p with consumer := .loadPause o }
  | loadGeneration (capacity : Nat) (hpc : p.consumer = .loadGeneration capacity) :
      ConsumerStep env p .run { p with consumer := .checkActive capacity env.generation }
  | dropActive (capacity : Nat) (g : UInt32) (b : Batch) (offset : Nat)
      (hpc : p.consumer = .checkActive capacity g) (ha : p.active = some (b, offset))
      (hg : b.gen ≠ g) :
      ConsumerStep env p .run { p with
        active := none, free := p.free + 1, consumer := .popReady capacity g }
  | keepActive (capacity : Nat) (g : UInt32) (b : Batch) (offset : Nat)
      (hpc : p.consumer = .checkActive capacity g) (ha : p.active = some (b, offset))
      (hg : b.gen = g) :
      ConsumerStep env p .run { p with consumer := .copy capacity g }
  | noActive (capacity : Nat) (g : UInt32) (hpc : p.consumer = .checkActive capacity g)
      (ha : p.active = none) :
      ConsumerStep env p .run { p with consumer := .popReady capacity g }
  | nothing (capacity : Nat) (g : UInt32) (hpc : p.consumer = .popReady capacity g)
      (hr : p.ready = []) : ConsumerStep env p .run { p with consumer := .idle }
  | popReady (capacity : Nat) (g : UInt32) (b : Batch) (ready : List Batch)
      (hpc : p.consumer = .popReady capacity g) (hr : p.ready = b :: ready) (hg : b.gen = g) :
      ConsumerStep env p .run { p with
        ready := ready, active := some (b, 0), consumer := .copy capacity g }
  | popStale (capacity : Nat) (g : UInt32) (b : Batch) (ready : List Batch)
      (hpc : p.consumer = .popReady capacity g) (hr : p.ready = b :: ready) (hg : b.gen ≠ g) :
      ConsumerStep env p .run { p with ready := ready, consumer := .releaseStale capacity g }
  | releaseStale (capacity : Nat) (g : UInt32) (hpc : p.consumer = .releaseStale capacity g) :
      ConsumerStep env p .run { p with free := p.free + 1, consumer := .popReady capacity g }
  | copyLast (capacity : Nat) (g : UInt32) (b : Batch) (offset : Nat) (chunk : List UInt8)
      (hpc : p.consumer = .copy capacity g) (ha : p.active = some (b, offset)) :
      ConsumerStep env p .run { p with
        drained := ⟨b, chunk, env.opens⟩ :: p.drained
        active := none, delivered := p.delivered ++ b.source.ids, consumer := .releaseDrained }
  | copyPart (capacity : Nat) (g : UInt32) (b : Batch) (offset offset' : Nat)
      (chunk : List UInt8) (hpc : p.consumer = .copy capacity g)
      (ha : p.active = some (b, offset)) :
      ConsumerStep env p .run { p with
        drained := ⟨b, chunk, env.opens⟩ :: p.drained
        active := some (b, offset'), consumer := .idle }
  | releaseDrained (hpc : p.consumer = .releaseDrained) :
      ConsumerStep env p .run { p with free := p.free + 1, consumer := .countPending }
  | countPending (hpc : p.consumer = .countPending) :
      ConsumerStep env p .run { p with
        displayPending := p.displayPending - 1, consumer := .arm }
  | loadPause (o : XcomDisplayOptions) (hpc : p.consumer = .loadPause o) :
      ConsumerStep env p .run { p with
        consumer := .storeHex o (p.pauseDisplay ∧ o.pauseDisplay = 0) }
  | storeHex (o : XcomDisplayOptions) (resume : Bool)
      (hpc : p.consumer = .storeHex o resume) :
      ConsumerStep env p .run { p with
        hexView := o.hexView ≠ 0, consumer := .storePause o resume }
  | storePause (o : XcomDisplayOptions) (resume : Bool)
      (hpc : p.consumer = .storePause o resume) :
      ConsumerStep env p .run { p with
        pauseDisplay := o.pauseDisplay ≠ 0, consumer := if resume then .arm else .idle }
  | armFailed (hpc : p.consumer = .arm) (hg : p.gate = true) :
      ConsumerStep env p .run { p with consumer := .idle }
  | armed (hpc : p.consumer = .arm) (hg : p.gate = false) :
      ConsumerStep env p .run { p with gate := true, consumer := .submit }
  | submitted (hpc : p.consumer = .submit) :
      ConsumerStep env p (.submit true) { p with kicks := p.kicks + 1, consumer := .idle }
  | notSubmitted (hpc : p.consumer = .submit) :
      ConsumerStep env p (.submit false) { p with consumer := .refused }
  | refused (hpc : p.consumer = .refused) :
      ConsumerStep env p .run { p with gate := false, consumer := .idle }

theorem consumerStep_cases {env : Env} {p p' : Path} {l : ConsumerLabel}
    (h : p.consumerStep env l = some p') : ConsumerStep env p l p' := by
  unfold Path.consumerStep at h
  split at h
  case h_1 capacity hpc =>
    split at h <;> cases h
    · exact .returned _ hpc
    · exact .drainCall capacity hpc
  case h_2 hpc => cases h; exact .returned _ hpc
  case h_3 o hpc =>
    split at h <;> cases h
    · exact .returned _ hpc
    · exact .optionsCall o hpc
  case h_4 capacity hpc => cases h; exact .loadGeneration capacity hpc
  case h_5 capacity g hpc =>
    cases h
    split
    · split
      · exact .dropActive capacity g _ _ hpc ‹_› ‹_›
      · exact .keepActive capacity g _ _ hpc ‹_› (not_not.mp ‹_›)
    · exact .noActive capacity g hpc ‹_›
  case h_6 capacity g hpc =>
    cases h
    split
    · exact .nothing capacity g hpc ‹_›
    · split
      · exact .popReady capacity g _ _ hpc ‹_› ‹_›
      · exact .popStale capacity g _ _ hpc ‹_› ‹_›
  case h_7 capacity g hpc => cases h; exact .releaseStale capacity g hpc
  case h_8 capacity g hpc =>
    obtain ⟨⟨b, offset⟩, ha, rfl⟩ := Option.map_eq_some_iff.mp h
    simp only [Path.copyOut]
    split
    · exact .copyLast capacity g b offset _ hpc ha
    · exact .copyPart capacity g b offset _ _ hpc ha
  case h_9 hpc => cases h; exact .releaseDrained hpc
  case h_10 hpc => cases h; exact .countPending hpc
  case h_11 o hpc => cases h; exact .loadPause o hpc
  case h_12 o resume hpc => cases h; exact .storeHex o resume hpc
  case h_13 o resume hpc => cases h; exact .storePause o resume hpc
  case h_14 hpc =>
    cases h
    split
    · exact .armFailed hpc ‹_›
    · exact .armed hpc (Bool.eq_false_iff.mpr ‹_›)
  case h_15 hpc => cases h; exact .submitted hpc
  case h_16 hpc => cases h; exact .notSubmitted hpc
  case h_17 hpc => cases h; exact .refused hpc
  case h_18 => cases h

end Xcom.Display
