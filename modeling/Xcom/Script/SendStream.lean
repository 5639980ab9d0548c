import Xcom.Script.SendFile

/-!
# The stream as a machine

One copy of `send_file.lua` with its timer, its reads and the descriptors of its files.  A
close waits for the reads of its descriptor, so a number is not used again while a read is
out.  Reads complete in any order; each gives a piece of the file, nothing or an error, and
the port accepts the chunk or refuses it.
-/

namespace Xcom.Script.SendFile

open Engine (Copy)

/-- What came of a completion that was acted upon. -/
inductive Outcome
  | accepted
  /-- Refused for the moment: the chunk is read again, or the limit is reached. -/
  | refused
  /-- Nothing read, or an error of the port. -/
  | failed
  deriving DecidableEq, Repr

/-- A completion that was acted upon: the firing of the timer it belongs to, and the offset
of the read. -/
structure Act where
  fired : Nat
  offset : Nat
  outcome : Outcome
  deriving DecidableEq, Repr

/-- What is recorded of the stream: the firings of the timer; since the last `Send` or
browse the bytes `uart.send` accepted and the completions acted upon, the newest first; the
refusals since the stream last moved or was started. -/
structure Log where
  fired : Nat := 0
  accepted : Bytes := []
  acts : List Act := []
  refusals : Nat := 0
  deriving DecidableEq, Repr

/-- What a completion that is acted upon comes to. -/
def outcome (data : Option Bytes) (sent : Sent) : Outcome :=
  match data.getD [], sent with
  | [], _ => .failed
  | _ :: _, .ok => .accepted
  | _ :: _, .refused code => if transient code then .refused else .failed

/-- A completion is acted upon. -/
def Log.act (log : Log) (offset : Nat) (data : Option Bytes) (sent : Sent) : Log :=
  { log with
    acts := ⟨log.fired, offset, outcome data sent⟩ :: log.acts
    accepted := if outcome data sent = .accepted then log.accepted ++ data.getD []
      else log.accepted
    refusals := if outcome data sent = .refused then log.refusals + 1 else 0 }

/-- A stream from the beginning. -/
def Log.restart (log : Log) : Log := { log with accepted := [], acts := [], refusals := 0 }

/-- The copy, the open descriptors with what their files hold, the closes that wait for a
read, the file browsed last, and the record. -/
structure State where
  ctx : Ctx := ⟨{}, {}⟩
  files : Nat → Option Bytes := fun _ => none
  fsCloseDeferred : List Nat := []
  content : Bytes := []
  log : Log := {}

/-- What happens: an interaction, the port opens or closes, a timer fires, a read completes
with at most `read` bytes or an error, and the port says `sent` to the chunk. -/
inductive Event
  | browse (path content : Option Bytes) (fd : Option Nat)
  | ui (e : UiEvent)
  | port (isOpen : Bool)
  | fire (handle : Nat)
  | readDone (index : Nat) (read : Option Nat) (sent : Sent)
  deriving DecidableEq, Repr

/-- A one-shot timer leaves the list before its function runs. -/
def Ctx.expire (x : Ctx) (handle : Nat) : Ctx :=
  { x with engine := x.engine.timerDestroy handle }

/-- A read that completes is no longer out. -/
def Ctx.complete (x : Ctx) (index : Nat) : Ctx :=
  { x with engine := { x.engine with reads := x.engine.reads.eraseIdx index } }

namespace State

/-- A read is out on the descriptor. -/
def reading (s : State) (fd : Nat) : Bool := s.ctx.engine.reads.any (·.fd = fd)

/-- `file_close`. -/
def fileClose (s : State) (fd : Nat) : State :=
  if s.reading fd then { s with fsCloseDeferred := fd :: s.fsCloseDeferred }
  else { s with files := Function.update s.files fd none }

/-- A handler runs; a descriptor the script lets go of is closed.  What the event loop
delivers inside the close finds a stream that has stopped or waits for no read. -/
def call (s : State) (f : Ctx → Ctx) : State :=
  let t := { s with ctx := f s.ctx }
  match s.ctx.plugin.fd with
  | some fd => if t.ctx.plugin.fd = some fd then t else t.fileClose fd
  | none => t

/-- The completion after the callback: the last read of a descriptor closes it. -/
def completeRest (s : State) (fd : Nat) : State :=
  if fd ∈ s.fsCloseDeferred ∧ s.reading fd = false then
    { s with
      fsCloseDeferred := s.fsCloseDeferred.filter (· ≠ fd)
      files := Function.update s.files fd none }
  else s

/-- The completion of this read would be acted upon. -/
def actsUpon (s : State) (flight : Flight) : Bool :=
  s.ctx.plugin.running && s.ctx.plugin.inflight = some flight

/-- What a read of the descriptor gives. -/
def readAt (s : State) (fd offset len : Nat) : Option Bytes :=
  (s.files fd).map fun content => (content.drop offset).take len

/-- A browse: the size is the one of the file, and the number of the descriptor is new. -/
def browse (c : Copy) (path content : Option Bytes) (fd : Option Nat) (s : State) : State :=
  let handler := uiEvent c (.browse path (content.map List.length) fd)
  match path, content, fd with
  | some _, some (b :: rest), some n =>
    { s with
      files := Function.update s.files n (some (b :: rest))
      content := b :: rest
      log := s.log.restart }.call handler
  | _, _, _ => s.call handler

/-- An interaction other than a browse. -/
def ui (c : Copy) (e : UiEvent) (s : State) : State :=
  let log := if starts e s.ctx then
    (if e = .start then s.log.restart else { s.log with refusals := 0 }) else s.log
  { s with log := log }.call (uiEvent c e)

/-- A timer fires. -/
def fire (c : Copy) (handle : Nat) (s : State) : State :=
  { s with log := { s.log with fired := s.log.fired + 1 } }.call fun x =>
    issueRead c (x.expire handle)

/-- A read completes. -/
def readDone (c : Copy) (index : Nat) (r : Engine.Read) (read : Option Nat) (sent : Sent)
    (s : State) : State :=
  let flight : Flight := ⟨r.fd, r.offset.toNat⟩
  let data := read.bind fun n => s.readAt r.fd flight.offset (min n r.len.toNat)
  let result := if s.ctx.engine.isOpen then sent else .refused (some (-2))
  let log := if s.actsUpon flight then s.log.act flight.offset data result else s.log
  let t := { s with log := log }.call fun x =>
    completion c flight data result (x.complete index)
  t.completeRest r.fd

/-- One step of the copy `c`. -/
def step (c : Copy) (s : State) : Event → Option State
  | .browse path content fd =>
    if fd.any fun n => (s.files n).isSome then none else some (s.browse c path content fd)
  | .ui e =>
    match e with
    | .browse .. => none
    | e => some (s.ui c e)
  | .port isOpen =>
    some { s with ctx := { s.ctx with engine := { s.ctx.engine with isOpen := isOpen } } }
  | .fire handle =>
    if s.ctx.engine.timers.any (·.handle = handle) then some (s.fire c handle) else none
  | .readDone index read sent =>
    s.ctx.engine.reads[index]?.map fun r => s.readDone c index r read sent

end State

/-- A freshly loaded copy. -/
def stream (c : Copy) : Transition.Machine State Event := ⟨{}, State.step c⟩

/-- A completion that would be acted upon is one of the open file, at the offset the stream
is at. -/
def Timely (s : State) : Event → Bool
  | .readDone index _ _ => s.ctx.engine.reads[index]?.all fun r =>
    !s.actsUpon ⟨r.fd, r.offset.toNat⟩ ||
      (s.ctx.plugin.fd = some r.fd && s.ctx.plugin.offset = r.offset.toNat)
  | _ => true

/-- What was accepted is the file up to the offset; a firing of the timer has one completion
acted upon, and an offset one that is not refused for the moment; a run of refusals ends
the stream after a hundred retries. -/
structure Exact (s : State) : Prop where
  accepted : s.log.accepted = s.content.take s.ctx.plugin.offset
  within : s.ctx.plugin.offset ≤ s.content.length
  perFiring : (s.log.acts.map Act.fired).Nodup
  perOffset : ((s.log.acts.filter (·.outcome ≠ .refused)).map Act.offset).Nodup
  refusals : s.log.refusals ≤ maxStallRetries + 1
  ended : s.log.refusals = maxStallRetries + 1 →
    s.ctx.plugin.running = false ∧ s.ctx.plugin.fd = none

end Xcom.Script.SendFile
