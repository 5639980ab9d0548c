import Xcom.Display.Lane

/-!
# The display path

From the read callback to the text an ABI caller drains: the RX display ring, the
deferred slot of ReceiveAo, the display lane and the gate that wakes ReceiveAo.
Three threads move on it: the read thread, the Dispatcher and the ABI caller.

The occupancy of the RX block pool is left to the environment, which answers each
`try_alloc`.  Fields marked as history are read by no step.
-/

namespace Xcom.Display

/-- What the display path reads of the lifecycle.  `opens` counts the published OPEN
and is history. -/
structure Env where
  portState : PortState
  callbackAdmission : Bool
  generation : UInt32
  opens : Nat
  deriving DecidableEq, Repr

/-- The locals of `rx_ingress`: the bytes that remain, the index of the first of them,
the session they were received in, the lease and whether a block was accepted. -/
structure Ingress where
  rest : List UInt8
  first : Nat
  mark : Mark
  fileLane : Bool
  accepted : Bool
  deriving DecidableEq, Repr

/-- Where the read thread stands in `serial_read_callback`. -/
inductive IngressPc
  | idle
  | loadAdmission (data : List UInt8) (first : Nat)
  | loadState (data : List UInt8) (first : Nat)
  | reject (data : List UInt8) (first : Nat)
  | acquireLease (data : List UInt8) (first : Nat) (mark : Mark)
  | alloc (i : Ingress)
  | publish (i : Ingress) (displayOk : Bool)
  | blockedAdmission (i : Ingress)
  | blockedState (i : Ingress)
  | unowned (i : Ingress)
  | arm (fileLane : Bool)
  | submit (fileLane : Bool)
  | refused (fileLane : Bool)
  | releaseLease
  deriving DecidableEq, Repr

/-- Where the Dispatcher stands in `rx_kick_action`.  `n` is the loop counter. -/
inductive KickPc
  | idle
  | loop (n : Nat)
  | loadPause (n : Nat) (d : RxDesc)
  | acquire (n : Nat) (d : RxDesc)
  | format (n : Nat) (d : RxDesc)
  | discard (n : Nat) (d : RxDesc)
  | push (n : Nat) (d : RxDesc) (text : List UInt8)
  | countPending (n : Nat)
  | disarm
  | recheck
  | rearm
  | submit
  | refused
  deriving DecidableEq, Repr

/-- `XcomDisplayOptions`. -/
structure XcomDisplayOptions where
  structSize : UInt32
  hexView : UInt8
  pauseDisplay : UInt8
  deriving DecidableEq, Repr

/-- `sizeof(XcomDisplayOptions)`. -/
def sizeofXcomDisplayOptions : UInt32 := 16

/-- Where the ABI caller stands in `xcom_drain_display` or in `xcom_set_options`. -/
inductive ConsumerPc
  | idle
  | loadGeneration (capacity : Nat)
  | checkActive (capacity : Nat) (generation : UInt32)
  | popReady (capacity : Nat) (generation : UInt32)
  | releaseStale (capacity : Nat) (generation : UInt32)
  | copy (capacity : Nat) (generation : UInt32)
  | releaseDrained
  | countPending
  | loadPause (options : XcomDisplayOptions)
  | storeHex (options : XcomDisplayOptions) (resume : Bool)
  | storePause (options : XcomDisplayOptions) (resume : Bool)
  | arm
  | submit
  | refused
  deriving DecidableEq, Repr

/-- Text copied out to the ABI caller: its batch, the bytes of this call and the number
of published OPEN at that moment.  It is history. -/
structure Drained where
  batch : Batch
  chunk : List UInt8
  opens : Nat
  deriving DecidableEq, Repr

/-- The state of the display path.  `active` pairs the batch of the consumer with its
offset; `purged` holds what a running reset has popped.  `received`, `delivered`,
`charged` and `drained` are history: the number of bytes handed to the read callback,
and the indices of those drained and of those charged to the loss ledger. -/
structure Path where
  ring : List RxDesc := []
  deferred : Option RxDesc := none
  free : Nat := kDisplayBatchCount
  ready : List Batch := []
  active : Option (Batch × Nat) := none
  gate : Bool := false
  kicks : Nat := 0
  pauseDisplay : Bool := false
  hexView : Bool := false
  textState : TextState := {}
  saveRejectedBytes : UInt32 := 0
  displayPending : UInt32 := 0
  purged : List Batch := []
  reader : IngressPc := .idle
  kick : KickPc := .idle
  consumer : ConsumerPc := .idle
  received : Nat := 0
  delivered : List Nat := []
  charged : List Nat := []
  drained : List Drained := []
  deriving DecidableEq, Repr

/-- What the read thread does next. -/
inductive IngressLabel
  | deliver (data : List UInt8)
  | run
  | lease (granted : Bool)
  | alloc (displayOk : Option Bool)
  | publish (ingressMs : UInt32)
  | submit (accepted : Bool)
  deriving DecidableEq, Repr

/-- What the Dispatcher does next for ReceiveAo. -/
inductive KickLabel
  | dispatch
  | run
  | submit (accepted : Bool)
  deriving DecidableEq, Repr

/-- What the ABI caller does next. -/
inductive ConsumerLabel
  | drainCall (capacity : Nat)
  | optionsCall (options : Option XcomDisplayOptions)
  | run
  | submit (accepted : Bool)
  deriving DecidableEq, Repr

/-- The rest of `rx_ingress` behind the kick. -/
def afterKick (fileLane : Bool) : IngressPc := if fileLane then .releaseLease else .idle

/-- The rest of `rx_ingress` behind its loop and the count of a dropped tail. -/
def Ingress.finish (i : Ingress) : IngressPc :=
  if i.accepted then .arm i.fileLane else afterKick i.fileLane

/-- The locals after one more published block. -/
@[simp] def Ingress.next (i : Ingress) : Ingress :=
  { i with
    rest := i.rest.drop kRxBlockBytes
    first := i.first + min kRxBlockBytes i.rest.length
    accepted := true }

/-- The block `rx_ingress` cuts off next. -/
def Ingress.block (i : Ingress) (generation ingressMs : UInt32) : RxDesc :=
  .publish (i.rest.take kRxBlockBytes) (List.length_take_le _ _) i.fileLane generation
    ingressMs i.first i.mark

namespace Path

/-- `count_rejected_rx`. -/
@[simp] def countRejected (p : Path) (n : Nat) (ids : List Nat) : Path :=
  { p with
    saveRejectedBytes := p.saveRejectedBytes + UInt32.ofNat n
    charged := p.charged ++ ids }

/-- One step of `serial_read_callback`. -/
def readerStep (env : Env) (p : Path) (l : IngressLabel) : Option Path :=
  match p.reader, l with
  | .idle, .deliver data =>
    if data = [] then none
    else some { p with
      received := p.received + data.length, reader := .loadAdmission data p.received }
  | .loadAdmission data first, .run => some
      { p with
        reader := if env.callbackAdmission then .loadState data first else .reject data first }
  | .loadState data first, .run => some
      { p with
        reader :=
          if env.portState = .portOpen then
            .acquireLease data first ⟨env.generation, env.opens⟩
          else .reject data first }
  | .reject data first, .run => some
      { p.countRejected data.length (List.range' first data.length) with reader := .idle }
  | .acquireLease data first mark, .lease granted => some
      { p with reader := .alloc ⟨data, first, mark, granted, false⟩ }
  | .alloc i, .alloc (some displayOk) =>
    if i.fileLane = false ∧ displayOk = false then none
    else some { p with reader := .publish i displayOk }
  | .alloc i, .alloc none => some
      { p with reader := if i.fileLane then .blockedAdmission i else .unowned i }
  | .blockedAdmission i, .run => some
      { p with reader := if env.callbackAdmission then .blockedState i else .unowned i }
  | .blockedState i, .run => some
      { p with reader := if env.portState = .portOpen then .alloc i else .unowned i }
  | .publish i displayOk, .publish ms => some
      { p with
        ring := if displayOk then p.ring ++ [i.block env.generation ms] else p.ring
        reader := if i.next.rest = [] then i.next.finish else .alloc i.next }
  | .unowned i, .run => some
      { p.countRejected i.rest.length (List.range' i.first i.rest.length) with
        reader := i.finish }
  | .arm fileLane, .run => some
      (if p.gate then { p with reader := afterKick fileLane }
       else { p with gate := true, reader := .submit fileLane })
  | .submit fileLane, .submit true => some
      { p with kicks := p.kicks + 1, reader := afterKick fileLane }
  | .submit fileLane, .submit false => some { p with reader := .refused fileLane }
  | .refused fileLane, .run => some { p with gate := false, reader := afterKick fileLane }
  | .releaseLease, .run => some { p with reader := .idle }
  | _, _ => none

/-- A block `rx_format_block` could not take stays in the deferred slot. -/
@[simp] def defer (p : Path) (d : RxDesc) : Path :=
  { p with deferred := some d, kick := .disarm }

/-- One step of `rx_kick_action`. -/
def kickStep (env : Env) (p : Path) (l : KickLabel) : Option Path :=
  match p.kick, l with
  | .idle, .dispatch =>
    if p.kicks = 0 then none else some { p with kicks := p.kicks - 1, kick := .loop 0 }
  | .loop n, .run => some
      (if 4 ≤ n then { p with kick := .disarm }
       else match p.deferred, p.ring with
        | some d, _ => { p with deferred := none, kick := .loadPause n d }
        | none, d :: ring => { p with ring := ring, kick := .loadPause n d }
        | none, [] => { p with kick := .disarm })
  | .loadPause n d, .run => some
      (if p.pauseDisplay then p.defer d else { p with kick := .acquire n d })
  | .acquire n d, .run => some
      (if p.free = 0 then p.defer d
       else { p with free := p.free - 1, kick := .format n d })
  | .format n d, .run =>
    let out := formatPayload p.hexView p.textState d.payload
    some { p with
      textState := out.2
      kick := if out.1 = [] then .discard n d else .push n d out.1 }
  | .discard n d, .run => some
      { p with
        free := p.free + 1, delivered := p.delivered ++ d.ids, kick := .loop (n + 1) }
  | .push n d text, .run => some
      (if p.ready.length < kDisplayBatchCount then
        { p with
          ready := p.ready ++ [.push d text env.generation], kick := .countPending n }
       else { p.defer d with free := p.free + 1 })
  | .countPending n, .run => some
      { p with displayPending := p.displayPending + 1, kick := .loop (n + 1) }
  | .disarm, .run => some { p with gate := false, kick := .recheck }
  | .recheck, .run => some
      { p with kick := if p.deferred = none ∧ p.ring ≠ [] then .rearm else .idle }
  | .rearm, .run => some
      (if p.gate then { p with kick := .idle } else { p with gate := true, kick := .submit })
  | .submit, .submit true => some { p with kicks := p.kicks + 1, kick := .idle }
  | .submit, .submit false => some { p with kick := .refused }
  | .refused, .run => some { p with gate := false, kick := .idle }
  | _, _ => none

/-- The end of `drain_into`: copies up to the capacity out of the active batch, which is
complete when its last byte is out. -/
def copyOut (env : Env) (p : Path) (capacity : Nat) (b : Batch) (offset : Nat) : Path :=
  let chunk := (b.text.drop offset).take capacity
  let p := { p with drained := ⟨b, chunk, env.opens⟩ :: p.drained }
  if offset + chunk.length = b.text.length then
    { p with
      active := none, delivered := p.delivered ++ b.source.ids, consumer := .releaseDrained }
  else { p with active := some (b, offset + chunk.length), consumer := .idle }

/-- One step of `xcom_drain_display` or `xcom_set_options`. -/
def consumerStep (env : Env) (p : Path) (l : ConsumerLabel) : Option Path :=
  match p.consumer, l with
  | .idle, .drainCall capacity =>
    if capacity = 0 then some p else some { p with consumer := .loadGeneration capacity }
  | .idle, .optionsCall none => some p
  | .idle, .optionsCall (some o) =>
    if o.structSize < sizeofXcomDisplayOptions then some p
    else some { p with consumer := .loadPause o }
  | .loadGeneration capacity, .run => some
      { p with consumer := .checkActive capacity env.generation }
  | .checkActive capacity g, .run => some
      (match p.active with
        | some (b, _) =>
          if b.gen ≠ g then
            { p with active := none, free := p.free + 1, consumer := .popReady capacity g }
          else { p with consumer := .copy capacity g }
        | none => { p with consumer := .popReady capacity g })
  | .popReady capacity g, .run => some
      (match p.ready with
        | [] => { p with consumer := .idle }
        | b :: ready =>
          if b.gen = g then
            { p with ready := ready, active := some (b, 0), consumer := .copy capacity g }
          else { p with ready := ready, consumer := .releaseStale capacity g })
  | .releaseStale capacity g, .run => some
      { p with free := p.free + 1, consumer := .popReady capacity g }
  | .copy capacity _, .run => p.active.map fun a => p.copyOut env capacity a.1 a.2
  | .releaseDrained, .run => some
      { p with free := p.free + 1, consumer := .countPending }
  | .countPending, .run => some
      { p with displayPending := p.displayPending - 1, consumer := .arm }
  | .loadPause o, .run => some
      { p with consumer := .storeHex o (p.pauseDisplay ∧ o.pauseDisplay = 0) }
  | .storeHex o resume, .run => some
      { p with hexView := o.hexView ≠ 0, consumer := .storePause o resume }
  | .storePause o resume, .run => some
      { p with
        pauseDisplay := o.pauseDisplay ≠ 0, consumer := if resume then .arm else .idle }
  | .arm, .run => some
      (if p.gate then { p with consumer := .idle }
       else { p with gate := true, consumer := .submit })
  | .submit, .submit true => some { p with kicks := p.kicks + 1, consumer := .idle }
  | .submit, .submit false => some { p with consumer := .refused }
  | .refused, .run => some { p with gate := false, consumer := .idle }
  | _, _ => none

/-! ## What the owner does to the path at a session boundary -/

/-- `release_deferred_rx`. -/
def releaseDeferred (p : Path) : Path :=
  match p.deferred with
  | none => p
  | some d =>
    if d.unlogged then { p.countRejected (lenOf d.len) d.ids with deferred := none }
    else { p with deferred := none }

/-- One turn of the loop of `DisplayLane::reset`. -/
def purge (p : Path) : Option Path :=
  match p.ready with
  | [] => none
  | b :: ready => some
      { p with ready := ready, free := p.free + 1, purged := p.purged ++ [b] }

/-- The batches of a reset that had no file lane. -/
def unloggedPurged (p : Path) : List Batch := p.purged.filter fun b => unloggedOf b.rxMeta

/-- The end of a commit once its reset has found the ready ring empty: the state of the
text view is reset, the pending count retired and the unlogged bytes are charged. -/
def commitReset (p : Path) : Path :=
  { p.countRejected (p.unloggedPurged.map fun b => lenOf b.rxMeta).sum
      (p.unloggedPurged.flatMap fun b => b.source.ids) with
    textState := {}
    displayPending := p.displayPending - UInt32.ofNat p.purged.length
    purged := [] }

end Path

end Xcom.Display
