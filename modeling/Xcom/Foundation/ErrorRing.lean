import Mathlib.Data.List.Forall2
import Mathlib.Logic.Function.Basic
import Xcom.Transition.Machine
import Xcom.Transition.Wrap

/-!
# The error ring

`ErrorRing`, one shared access a step, for any number of producers and one consumer.
Every cell carries the sequence number that says whose turn it is; positions and
sequence numbers run freely over 32 bits.  The ring is a bounded queue in the order of
the reservations, as long as no producer sleeps on a position while the counters go
half way round.
-/

namespace Xcom.ErrorRing

open Transition

/-- `kErrorRingCount`. -/
def kErrorRingCount : Nat := 128

/-- `ErrorEntry`; the message is a field of 256 bytes. -/
structure ErrorEntry where
  code : Int := 0
  source : UInt16 := 0
  message : Nat → UInt8 := fun _ => 0

/-- The arguments of `push`. -/
structure Report where
  code : Int
  source : UInt16
  msg : List UInt8
  deriving DecidableEq, Repr

/-- The message clamped to the field, its terminator apart. -/
def Report.text (r : Report) : List UInt8 := r.msg.take (256 - 1)

/-- `ErrorSlot`.  `count` is history: the sequence number without the wrap. -/
structure ErrorSlot where
  sequence : UInt32
  entry : ErrorEntry := {}
  count : Nat

/-- What `push` stores next into the cell it has reserved. -/
inductive Stage
  | code
  | source
  | text
  | terminator
  | sequence
  deriving DecidableEq, Repr

/-- Where a producer stands in `push`.  `p` is history: its position without the wrap. -/
inductive ProducerPc
  | idle
  | loadPosition (r : Report)
  | loadSequence (r : Report) (position : UInt32) (p : Nat)
  | reserve (r : Report) (position : UInt32) (p : Nat)
  | fill (stage : Stage) (r : Report) (position : UInt32) (p : Nat)

/-- Where the consumer stands in `take`. -/
inductive ConsumerPc
  | idle
  | copy
  | release (entry : ErrorEntry)

/-- The ring and its threads.  `reserved`, `taken`, `refusals` and `misses` are history:
the reports in the order of their reservations, the entries handed out, for every
refused push how many reserved entries the ring held, and for every empty-handed take
whether the oldest entry had been published. -/
structure Ring (T : Type) where
  entries : UInt32 → ErrorSlot := fun i => { sequence := i, count := i.toNat }
  enqueuePos : UInt32 := 0
  dequeuePos : UInt32 := 0
  dropped : UInt32 := 0
  producer : T → ProducerPc := fun _ => .idle
  consumer : ConsumerPc := .idle
  reserved : List Report := []
  taken : List ErrorEntry := []
  refusals : List Nat := []
  misses : List Bool := []

/-- Who moves. -/
inductive Label (T : Type)
  | push (t : T) (r : Report)
  | produce (t : T)
  | reserve (t : T) (spurious : Bool)
  | take
  | consume

/-- `position & (kErrorRingCount - 1U)`. -/
def cell (position : UInt32) : UInt32 := position &&& UInt32.ofNat (kErrorRingCount - 1)

/-- One store of `push` into the entry. -/
def Stage.store (r : Report) (e : ErrorEntry) : Stage → ErrorEntry
  | .code => { e with code := r.code }
  | .source => { e with source := r.source }
  | .text => { e with message := fun i => if h : i < r.text.length then r.text[i] else e.message i }
  | .terminator => { e with message := Function.update e.message r.text.length 0 }
  | .sequence => e

/-- The store after this one. -/
def Stage.next : Stage → Stage
  | .code => .source
  | .source => .text
  | .text => .terminator
  | .terminator | .sequence => .sequence

variable {T : Type}

section Steps

variable [DecidableEq T]

namespace Ring

/-- A producer goes on at `pc`. -/
def goes (s : Ring T) (t : T) (pc : ProducerPc) : Ring T :=
  { s with producer := Function.update s.producer t pc }

/-- A cell is overwritten. -/
def put (s : Ring T) (position : UInt32) (slot : ErrorSlot) : Ring T :=
  { s with entries := Function.update s.entries (cell position) slot }

/-- A position is loaded from `enqueue_pos_`. -/
def atPosition (s : Ring T) (t : T) (r : Report) : Ring T :=
  s.goes t (.loadSequence r s.enqueuePos s.reserved.length)

/-- `push` has loaded the sequence number of its cell: the difference to its position is
read as a signed number. -/
def compare (s : Ring T) (t : T) (r : Report) (position : UInt32) (p : Nat) : Ring T :=
  let difference := (s.entries (cell position)).sequence - position
  if difference = 0 then s.goes t (.reserve r position p)
  else if 0x80000000 ≤ difference then
    { s.goes t .idle with
      dropped := s.dropped + 1
      refusals := s.refusals ++ [s.reserved.length - s.taken.length] }
  else s.goes t (.loadPosition r)

/-- One access of `push`, the compare-exchange apart. -/
def produce (s : Ring T) (t : T) : Option (Ring T) :=
  match s.producer t with
  | .loadPosition r => some (s.atPosition t r)
  | .loadSequence r position p => some (s.compare t r position p)
  | .fill .sequence _ position p =>
    some ((s.put position
      { s.entries (cell position) with sequence := position + 1, count := p + 1 }).goes t .idle)
  | .fill stage r position p =>
    some ((s.put position
      { s.entries (cell position) with
        entry := stage.store r (s.entries (cell position)).entry }).goes t
          (.fill stage.next r position p))
  | _ => none

/-- The weak compare-exchange on `enqueue_pos_`; a failure loads the position anew. -/
def reserve (s : Ring T) (t : T) (spurious : Bool) : Option (Ring T) :=
  match s.producer t with
  | .reserve r position _ =>
    if s.enqueuePos = position ∧ spurious = false then
      some { s.goes t (.fill .code r position s.reserved.length) with
        enqueuePos := position + 1, reserved := s.reserved ++ [r] }
    else some (s.atPosition t r)
  | _ => none

/-- One access of `take`. -/
def consume (s : Ring T) : Option (Ring T) :=
  match s.consumer with
  | .idle => none
  | .copy => some { s with consumer := .release (s.entries (cell s.dequeuePos)).entry }
  | .release entry =>
    some { s.put s.dequeuePos
        { s.entries (cell s.dequeuePos) with
          sequence := s.dequeuePos + UInt32.ofNat kErrorRingCount
          count := s.taken.length + kErrorRingCount } with
      dequeuePos := s.dequeuePos + 1, consumer := .idle, taken := s.taken ++ [entry] }

/-- One step of a producer or of the consumer. -/
def step (s : Ring T) : Label T → Option (Ring T)
  | .push t r =>
    match s.producer t with
    | .idle => some (s.atPosition t r)
    | _ => none
  | .produce t => s.produce t
  | .reserve t spurious => s.reserve t spurious
  | .take =>
    match s.consumer with
    | .idle =>
      if (s.entries (cell s.dequeuePos)).sequence - (s.dequeuePos + 1) ≠ 0 then
        some { s with
          misses := s.misses ++
            [decide ((s.entries (cell s.dequeuePos)).count = s.taken.length + 1)] }
      else some { s with consumer := .copy }
    | _ => none
  | .consume => s.consume

/-- No producer sleeps too long on a position: the cell it looks at has not moved on by
`2 ^ 31`, and fewer than `2 ^ 32` entries are reserved before its compare-exchange. -/
def Timely (s : Ring T) : Label T → Prop
  | .produce t =>
    match s.producer t with
    | .loadSequence _ position p => (s.entries (cell position)).count < p + 2 ^ 31
    | _ => True
  | .reserve t _ =>
    match s.producer t with
    | .reserve _ _ p => s.reserved.length < p + 2 ^ 32
    | _ => True
  | _ => True

end Ring

/-- The error ring. -/
def machine (T : Type) [DecidableEq T] : Machine (Ring T) (Label T) := ⟨{}, Ring.step⟩

end Steps

/-- An entry that carries a whole report. -/
structure ErrorEntry.Carries (e : ErrorEntry) (r : Report) : Prop where
  code : e.code = r.code
  source : e.source = r.source
  text : ∀ (i : Nat) (h : i < r.text.length), e.message i = r.text[i]
  terminator : e.message r.text.length = 0

/-- A bounded queue: the entries taken carry the reports reserved first, in that order
and each once; a push is refused only when the ring is full, and a take is empty-handed
only when the oldest entry is not there yet. -/
structure Ring.Queue (s : Ring T) : Prop where
  taken : List.Forall₂ ErrorEntry.Carries s.taken (s.reserved.take s.taken.length)
  refusals : ∀ held ∈ s.refusals, held = kErrorRingCount
  misses : ∀ published ∈ s.misses, published = false

end Xcom.ErrorRing
