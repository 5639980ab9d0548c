import Xcom.Session.Owner
import Xcom.Transition.Machine
import Xcom.Transition.Wrap

/-!
# The job ring of the session writer

`SessionWriter::try_enqueue` and `try_pop`, one shared access a step, between the
Dispatcher and the worker thread.  The counters run freely over 32 bits.
`try_enqueue` looks at their difference and is right however often they wrap;
`try_pop` compares them, and finds the ring empty from the moment the write counter
has wrapped.
-/

namespace Xcom.SessionWriter

open Transition

/-- `SessionWriter::Job`. -/
structure Job where
  block : UInt16 := 0
  len : UInt16 := 0
  gen : UInt32 := 0
  autoSend : Bool := false
  deriving DecidableEq, Repr

/-- Where the producer stands in `try_enqueue`. -/
inductive ProducerPc
  | idle
  | loadWrite (j : Job)
  | loadRead (j : Job) (w : UInt32)
  | storeJob (j : Job) (w : UInt32)
  | storeWrite (j : Job) (w : UInt32)

/-- Where the consumer stands in `try_pop`. -/
inductive ConsumerPc
  | idle
  | loadWrite
  | loadRead (w : UInt32)
  | copyJob (r : UInt32)
  | storeRead (r : UInt32) (out : Job)

/-- One `try_enqueue`, judged when it has loaded both counters: how many jobs the ring
held. -/
structure EnqueueRecord where
  refused : Bool
  held : Nat

/-- One `try_pop`, judged when it has loaded both counters: how many jobs had been
accepted and how many of them the ring held when the write counter was loaded. -/
structure PopRecord where
  failed : Bool
  accepted : Nat
  held : Nat

/-- The ring.  `accepted`, `popped`, `saw`, `enqueues` and `pops` are history: the jobs
accepted since the start, those handed out, what was accepted when `try_pop` loaded
the write counter, and the calls. -/
structure Ring where
  jobs : UInt32 → Job := fun _ => {}
  write : UInt32 := 0
  read : UInt32 := 0
  producer : ProducerPc := .idle
  consumer : ConsumerPc := .idle
  accepted : List Job := []
  popped : List Job := []
  saw : Nat := 0
  enqueues : List EnqueueRecord := []
  pops : List PopRecord := []

/-- `jobs_[w & (kMaxJobs - 1U)]`. -/
def cell (w : UInt32) : UInt32 := w &&& UInt32.ofNat (kMaxJobs - 1)

namespace Ring

/-- The jobs the ring holds: accepted, and their cell not yet given back. -/
def held (s : Ring) : Nat := s.accepted.length - s.popped.length

/-- One access of `try_enqueue`. -/
def produce (s : Ring) : Option Ring :=
  match s.producer with
  | .idle => none
  | .loadWrite j => some { s with producer := .loadRead j s.write }
  | .loadRead j w =>
    if UInt32.ofNat kMaxJobs ≤ w - s.read then
      some { s with producer := .idle, enqueues := s.enqueues ++ [⟨true, s.held⟩] }
    else some { s with producer := .storeJob j w, enqueues := s.enqueues ++ [⟨false, s.held⟩] }
  | .storeJob j w =>
    some { s with jobs := Function.update s.jobs (cell w) j, producer := .storeWrite j w }
  | .storeWrite j w =>
    some { s with write := w + 1, producer := .idle, accepted := s.accepted ++ [j] }

/-- One access of `try_pop`. -/
def consume (s : Ring) : Option Ring :=
  match s.consumer with
  | .idle => none
  | .loadWrite => some { s with consumer := .loadRead s.write, saw := s.accepted.length }
  | .loadRead w =>
    if w ≤ s.read then
      some { s with
        consumer := .idle, pops := s.pops ++ [⟨true, s.saw, s.saw - s.popped.length⟩] }
    else
      some { s with
        consumer := .copyJob s.read
        pops := s.pops ++ [⟨false, s.saw, s.saw - s.popped.length⟩] }
  | .copyJob r => some { s with consumer := .storeRead r (s.jobs (cell r)) }
  | .storeRead r out =>
    some { s with read := r + 1, consumer := .idle, popped := s.popped ++ [out] }

/-- Who moves.  `start` begins a new life of the ring, with no call in progress. -/
inductive Label
  | enqueue (j : Job)
  | produce
  | pop
  | consume
  | start

/-- One step of the Dispatcher or of the worker. -/
def step (s : Ring) : Label → Option Ring
  | .enqueue j =>
    match s.producer with
    | .idle => some { s with producer := .loadWrite j }
    | _ => none
  | .produce => s.produce
  | .pop =>
    match s.consumer with
    | .idle => some { s with consumer := .loadWrite }
    | _ => none
  | .consume => s.consume
  | .start =>
    match s.producer, s.consumer with
    | .idle, .idle => some { jobs := s.jobs }
    | _, _ => none

end Ring

/-- The job ring, from a start on. -/
def machine : Machine Ring Ring.Label := ⟨{}, Ring.step⟩

/-- A bounded FIFO: an enqueue is refused exactly when the ring is full, a pop fails
exactly when it is empty, and the jobs come out in the order they went in. -/
structure Ring.Fifo (s : Ring) : Prop where
  enqueues : ∀ e ∈ s.enqueues, e.refused = true ↔ e.held = kMaxJobs
  pops : ∀ p ∈ s.pops, p.failed = true ↔ p.held = 0
  order : s.popped <+: s.accepted

/-- `try_enqueue` before its last store: its write counter is the shared one, and past
the check there is a free cell, which holds the job once it is stored. -/
def ProducerPc.Holds (s : Ring) : ProducerPc → Prop
  | .idle | .loadWrite _ => True
  | .loadRead _ w => w = s.write
  | .storeJob _ w => w = s.write ∧ s.accepted.length < s.popped.length + kMaxJobs
  | .storeWrite j w =>
    w = s.write ∧ s.accepted.length < s.popped.length + kMaxJobs ∧ s.jobs (cell w) = j

/-- `try_pop` before its last store: the job it hands out is the oldest one. -/
def ConsumerPc.Holds (s : Ring) : ConsumerPc → Prop
  | .idle | .loadWrite => True
  | .loadRead w =>
    w = UInt32.ofNat s.saw ∧ s.popped.length ≤ s.saw ∧ s.saw ≤ s.accepted.length
  | .copyJob r =>
    r = s.read ∧ s.popped.length < s.accepted.length ∧ s.popped.length + 1 < 2 ^ 32
  | .storeRead r out =>
    r = s.read ∧ s.accepted[s.popped.length]? = some out ∧ s.popped.length + 1 < 2 ^ 32

/-- The invariant of the ring. -/
structure Inv (s : Ring) : Prop where
  write : s.write = UInt32.ofNat s.accepted.length
  read : s.read = UInt32.ofNat s.popped.length
  bound : s.accepted.length ≤ s.popped.length + kMaxJobs
  early : s.popped.length < 2 ^ 32
  order : s.popped <+: s.accepted
  cells : ∀ i, s.popped.length ≤ i → i < s.accepted.length →
    s.accepted[i]? = some (s.jobs (cell (UInt32.ofNat i)))
  producer : s.producer.Holds s
  consumer : s.consumer.Holds s
  enqueues : ∀ e ∈ s.enqueues, e.refused = true ↔ e.held = kMaxJobs
  pops : ∀ p ∈ s.pops, (p.failed = true ↔ p.held = 0) ↔ p.accepted < 2 ^ 32

theorem cell_ofNat (n : Nat) : cell (UInt32.ofNat n) = UInt32.ofNat (n % kMaxJobs) :=
  Wrap.and_mask (k := 8) (by omega) n

/-- Jobs of one filling of the ring have different cells. -/
theorem cell_ne {i n : Nat} (hlt : i < n) (hclose : n < i + kMaxJobs) :
    cell (UInt32.ofNat i) ≠ cell (UInt32.ofNat n) := by
  rw [cell_ofNat, cell_ofNat]
  intro heq
  have hi : i % kMaxJobs < kMaxJobs := Nat.mod_lt _ (by decide)
  have hn : n % kMaxJobs < kMaxJobs := Nat.mod_lt _ (by decide)
  have hmod := congrArg UInt32.toNat heq
  simp only [Wrap.toNat_ofNat] at hmod
  unfold kMaxJobs at hi hn hmod hclose
  have hcell : n % 256 = i % 256 := by omega
  have hsame : n = i := Wrap.cell_inj hcell (by omega) hclose
  omega

/-- The difference of the counters is what the ring holds. -/
theorem Inv.difference {s : Ring} (hi : Inv s) :
    UInt32.ofNat kMaxJobs ≤ s.write - s.read ↔ s.held = kMaxJobs := by
  have hle := hi.order.length_le
  have hbound := hi.bound
  unfold kMaxJobs at hbound
  rw [UInt32.le_iff_toNat_le, hi.write, hi.read, Wrap.toNat_sub hle (by omega),
    Wrap.toNat_ofNat]
  unfold Ring.held kMaxJobs
  omega

/-- The comparison of the counters finds the ring empty when it is empty, and whenever
the write counter has wrapped. -/
theorem Inv.comparison {s : Ring} (hi : Inv s) {n : Nat} (hle : s.popped.length ≤ n)
    (hn : n ≤ s.accepted.length) :
    UInt32.ofNat n ≤ s.read ↔ n = s.popped.length ∨ 2 ^ 32 ≤ n := by
  have hbound := hi.bound
  have hearly := hi.early
  unfold kMaxJobs at hbound
  rw [UInt32.le_iff_toNat_le, hi.read, Wrap.toNat_ofNat, Wrap.toNat_ofNat,
    Nat.mod_eq_of_lt hearly]
  omega

theorem inv_init : Inv {} where
  write := rfl
  read := rfl
  bound := by simp
  early := by simp
  order := List.prefix_rfl
  cells := by simp
  producer := trivial
  consumer := trivial
  enqueues := by simp
  pops := by simp

theorem Inv.start {s : Ring} : Inv { jobs := s.jobs } :=
  { inv_init with cells := by simp }

/-- What the consumer knows stays true when a job is accepted. -/
theorem ConsumerPc.Holds.accept {s : Ring} {pc : ConsumerPc} (h : pc.Holds s) (j : Job) :
    pc.Holds { s with
      write := s.write + 1, producer := .idle, accepted := s.accepted ++ [j] } := by
  have hlen : s.accepted.length ≤ (s.accepted ++ [j]).length := by simp
  cases pc with
  | idle => trivial
  | loadWrite => trivial
  | loadRead w => exact ⟨h.1, h.2.1, h.2.2.trans hlen⟩
  | copyJob r => exact ⟨h.1, h.2.1.trans_le hlen, h.2.2⟩
  | storeRead r out =>
    refine ⟨h.1, ?_, h.2.2⟩
    have hlt := (List.getElem?_eq_some_iff.mp h.2.1).1
    rw [List.getElem?_append_left hlt]
    exact h.2.1

/-- What the producer knows stays true when a job is handed out. -/
theorem ProducerPc.Holds.handOut {s : Ring} {pc : ProducerPc} (h : pc.Holds s) (out : Job) :
    pc.Holds { s with
      read := s.read + 1, consumer := .idle, popped := s.popped ++ [out] } := by
  have hlen : s.popped.length ≤ (s.popped ++ [out]).length := by simp
  cases pc with
  | idle => trivial
  | loadWrite j => trivial
  | loadRead j w => exact h
  | storeJob j w => exact ⟨h.1, h.2.trans_le (Nat.add_le_add_right hlen _)⟩
  | storeWrite j w => exact ⟨h.1, h.2.1.trans_le (Nat.add_le_add_right hlen _), h.2.2⟩

theorem Inv.produce {s s' : Ring} (hi : Inv s) (hstep : s.produce = some s') : Inv s' := by
  have hp := hi.producer
  unfold Ring.produce at hstep
  cases hpc : s.producer with
  | idle => simp [hpc] at hstep
  | loadWrite j =>
    simp only [hpc, Option.some.injEq] at hstep
    subst hstep
    exact { hi with producer := rfl }
  | loadRead j w =>
    simp only [hpc] at hp hstep
    obtain rfl : w = s.write := hp
    by_cases hfull : UInt32.ofNat kMaxJobs ≤ s.write - s.read
    · rw [if_pos hfull, Option.some.injEq] at hstep
      subst hstep
      refine { hi with producer := trivial, enqueues := ?_ }
      intro e he
      rw [List.mem_append, List.mem_singleton] at he
      rcases he with he | rfl
      · exact hi.enqueues e he
      · exact iff_of_true rfl (hi.difference.mp hfull)
    · rw [if_neg hfull, Option.some.injEq] at hstep
      subst hstep
      have hroom : s.held ≠ kMaxJobs := fun heq => hfull (hi.difference.mpr heq)
      have hfree : s.accepted.length < s.popped.length + kMaxJobs := by
        have hle := hi.order.length_le
        have hbound := hi.bound
        unfold Ring.held at hroom
        omega
      refine { hi with producer := ⟨rfl, hfree⟩, enqueues := ?_ }
      intro e he
      rw [List.mem_append, List.mem_singleton] at he
      rcases he with he | rfl
      · exact hi.enqueues e he
      · exact iff_of_false (by simp) hroom
  | storeJob j w =>
    simp only [hpc, Option.some.injEq] at hp hstep
    obtain ⟨rfl, hfree⟩ := hp
    subst hstep
    have hother : ∀ i, s.popped.length ≤ i → i < s.accepted.length →
        Function.update s.jobs (cell s.write) j (cell (UInt32.ofNat i)) =
          s.jobs (cell (UInt32.ofNat i)) := by
      intro i hlow hhigh
      apply Function.update_of_ne
      rw [hi.write]
      exact cell_ne hhigh (by omega)
    refine { hi with
      cells := ?_, producer := ⟨rfl, hfree, Function.update_self _ _ _⟩, consumer := ?_ }
    · intro i hlow hhigh
      show s.accepted[i]? = some (Function.update s.jobs (cell s.write) j (cell (.ofNat i)))
      rw [hother i hlow hhigh]
      exact hi.cells i hlow hhigh
    · exact hi.consumer
  | storeWrite j w =>
    simp only [hpc, Option.some.injEq] at hp hstep
    obtain ⟨rfl, hfree, hcell⟩ := hp
    subst hstep
    refine { hi with
      write := ?_, bound := ?_, order := ?_, cells := ?_, producer := trivial, consumer := ?_ }
    · rw [List.length_append, List.length_singleton, UInt32.ofNat_add, hi.write]
      rfl
    · show (s.accepted ++ [j]).length ≤ s.popped.length + kMaxJobs
      rw [List.length_append, List.length_singleton]
      omega
    · exact hi.order.trans (List.prefix_append _ _)
    · intro i hlow hhigh
      rw [List.length_append, List.length_singleton] at hhigh
      by_cases hlast : i = s.accepted.length
      · rw [hlast, ← hi.write, hcell]
        simp
      · rw [List.getElem?_append_left (by omega)]
        exact hi.cells i hlow (by omega)
    · exact hi.consumer.accept j

theorem Inv.consume {s s' : Ring} (hi : Inv s) (hstep : s.consume = some s') : Inv s' := by
  have hc := hi.consumer
  unfold Ring.consume at hstep
  cases hpc : s.consumer with
  | idle => simp [hpc] at hstep
  | loadWrite =>
    simp only [hpc, Option.some.injEq] at hstep
    subst hstep
    exact { hi with consumer := ⟨hi.write, hi.order.length_le, le_rfl⟩ }
  | loadRead w =>
    simp only [hpc] at hc hstep
    obtain ⟨rfl, hlow, hhigh⟩ := hc
    have hcmp := hi.comparison hlow hhigh
    by_cases hempty : UInt32.ofNat s.saw ≤ s.read
    · rw [if_pos hempty, Option.some.injEq] at hstep
      subst hstep
      refine { hi with consumer := trivial, pops := ?_ }
      intro p hp
      rw [List.mem_append, List.mem_singleton] at hp
      rcases hp with hp | rfl
      · exact hi.pops p hp
      · have hcase := hcmp.mp hempty
        have hearly := hi.early
        simp only [true_iff]
        omega
    · rw [if_neg hempty, Option.some.injEq] at hstep
      subst hstep
      have hcase : ¬ (s.saw = s.popped.length ∨ 2 ^ 32 ≤ s.saw) :=
        fun h => hempty (hcmp.mpr h)
      have hlt : s.popped.length < s.accepted.length := by omega
      have hnext : s.popped.length + 1 < 2 ^ 32 := by omega
      refine { hi with consumer := ⟨rfl, hlt, hnext⟩, pops := ?_ }
      intro p hp
      rw [List.mem_append, List.mem_singleton] at hp
      rcases hp with hp | rfl
      · exact hi.pops p hp
      · simp only [Bool.false_eq_true, false_iff]
        omega
  | copyJob r =>
    simp only [hpc, Option.some.injEq] at hc hstep
    obtain ⟨rfl, hlt, hnext⟩ := hc
    subst hstep
    refine { hi with consumer := ⟨rfl, ?_, hnext⟩ }
    rw [hi.read]
    exact hi.cells _ le_rfl hlt
  | storeRead r out =>
    simp only [hpc, Option.some.injEq] at hc hstep
    obtain ⟨rfl, hget, hnext⟩ := hc
    subst hstep
    obtain ⟨hlt, hval⟩ := List.getElem?_eq_some_iff.mp hget
    refine { hi with
      read := ?_, bound := ?_, early := ?_, order := ?_, cells := ?_, producer := ?_
      consumer := trivial }
    · rw [List.length_append, List.length_singleton, UInt32.ofNat_add, hi.read]
      rfl
    · have hbound := hi.bound
      show s.accepted.length ≤ (s.popped ++ [out]).length + kMaxJobs
      rw [List.length_append, List.length_singleton]
      omega
    · rw [List.length_append, List.length_singleton]
      exact hnext
    · have htake := List.prefix_iff_eq_take.mp hi.order
      rw [List.prefix_iff_eq_take, List.length_append, List.length_singleton,
        List.take_add_one, hget, ← htake]
      rfl
    · intro i hlow hhigh
      rw [List.length_append, List.length_singleton] at hlow
      exact hi.cells i (by omega) hhigh
    · exact hi.producer.handOut out

theorem Inv.step {s s' : Ring} {l : Ring.Label} (hi : Inv s) (hstep : s.step l = some s') :
    Inv s' := by
  cases l with
  | enqueue j =>
    simp only [Ring.step] at hstep
    split at hstep
    · obtain rfl := Option.some.inj hstep
      exact { hi with producer := trivial }
    · cases hstep
  | produce => exact hi.produce hstep
  | pop =>
    simp only [Ring.step] at hstep
    split at hstep
    · obtain rfl := Option.some.inj hstep
      exact { hi with consumer := trivial }
    · cases hstep
  | consume => exact hi.consume hstep
  | start =>
    simp only [Ring.step] at hstep
    split at hstep
    · obtain rfl := Option.some.inj hstep
      exact .start
    · cases hstep

theorem inv_reach {s : Ring} (h : Reach machine s) : Inv s :=
  h.invariant inv_init fun _ _ _ hi _ hstep => hi.step hstep

/-- The job ring is a bounded FIFO exactly as long as every pop loads the write counter
before `2 ^ 32` jobs have been accepted since the start. -/
theorem job_ring_fifo {s : Ring} (h : Reach machine s) :
    s.Fifo ↔ ∀ p ∈ s.pops, p.accepted < 2 ^ 32 := by
  have hi := inv_reach h
  constructor
  · intro hfifo p hp
    exact (hi.pops p hp).mp (hfifo.pops p hp)
  · intro hearly
    exact
      { enqueues := hi.enqueues
        pops := fun p hp => (hi.pops p hp).mpr (hearly p hp)
        order := hi.order }

/-- A job that goes through the ring. -/
theorem job_ring_fifo_once : ∃ s, Reach machine s ∧ s.popped = [{}] ∧ s.Fifo := by
  have hrun : ∃ s, exec machine machine.init
      [.enqueue {}, .produce, .produce, .produce, .produce, .pop, .consume, .consume, .consume,
        .consume] = some s ∧ s.popped = [{}] ∧ s.pops = [⟨false, 1, 1⟩] :=
    ⟨_, rfl, rfl, rfl⟩
  obtain ⟨s, hs, hpopped, hpops⟩ := hrun
  have h := reachUnder_of_execUnder .init hs
  refine ⟨s, h, hpopped, (job_ring_fifo h).mpr ?_⟩
  rw [hpops]
  intro p hp
  obtain rfl : p = ⟨false, 1, 1⟩ := List.mem_singleton.mp hp
  decide

/-- A call of `try_enqueue` runs through when the ring has room. -/
theorem reach_enqueue {s : Ring} (h : Reach machine s) (hidle : s.producer = .idle)
    (hroom : s.held ≠ kMaxJobs) (j : Job) :
    ∃ s', Reach machine s' ∧ s'.producer = .idle ∧ s'.consumer = s.consumer ∧
      s'.accepted = s.accepted ++ [j] ∧ s'.popped = s.popped := by
  have hbegin : machine.step s (.enqueue j) = some { s with producer := .loadWrite j } := by
    show s.step (.enqueue j) = _
    simp only [Ring.step, hidle]
  have hload : Reach machine { s with producer := .loadRead j s.write } :=
    .step (e := .produce) (.step h trivial hbegin) trivial rfl
  have hroom' : ¬ UInt32.ofNat kMaxJobs ≤ s.write - s.read :=
    fun hfull => hroom ((inv_reach h).difference.mp hfull)
  have hcheck : Reach machine
      { s with
        producer := .storeJob j s.write, enqueues := s.enqueues ++ [⟨false, s.held⟩] } :=
    .step (e := .produce) hload trivial (if_neg hroom')
  have hstore := ReachUnder.step (e := Ring.Label.produce) hcheck trivial rfl
  have hpublish := ReachUnder.step (e := Ring.Label.produce) hstore trivial rfl
  exact ⟨_, hpublish, rfl, rfl, rfl, rfl⟩

/-- A call of `try_pop` hands out a job as long as the write counter has not wrapped. -/
theorem reach_pop {s : Ring} (h : Reach machine s) (hidle : s.consumer = .idle)
    (hjob : s.popped.length < s.accepted.length) (hearly : s.accepted.length < 2 ^ 32) :
    ∃ s', Reach machine s' ∧ s'.producer = s.producer ∧ s'.consumer = .idle ∧
      s'.accepted = s.accepted ∧ s'.popped.length = s.popped.length + 1 := by
  have hi := inv_reach h
  have hbegin : machine.step s .pop = some { s with consumer := .loadWrite } := by
    show s.step .pop = _
    simp only [Ring.step, hidle]
  have hload : Reach machine
      { s with consumer := .loadRead s.write, saw := s.accepted.length } :=
    .step (e := .consume) (.step h trivial hbegin) trivial rfl
  have hsome : ¬ s.write ≤ s.read := by
    rw [hi.write, hi.comparison hjob.le le_rfl]
    omega
  have hcheck : Reach machine
      { s with
        consumer := .copyJob s.read, saw := s.accepted.length
        pops := s.pops ++
          [⟨false, s.accepted.length, s.accepted.length - s.popped.length⟩] } :=
    .step (e := .consume) hload trivial (if_neg hsome)
  have hcopy := ReachUnder.step (e := Ring.Label.consume) hcheck trivial rfl
  have hgive := ReachUnder.step (e := Ring.Label.consume) hcopy trivial rfl
  exact ⟨_, hgive, rfl, rfl, rfl, by simp⟩

/-- A ring that has passed on `n` jobs. -/
theorem reach_passed (n : Nat) (hn : n < 2 ^ 32) :
    ∃ s, Reach machine s ∧ s.producer = .idle ∧ s.consumer = .idle ∧
      s.accepted.length = n ∧ s.popped.length = n := by
  induction n with
  | zero => exact ⟨{}, .init, rfl, rfl, rfl, rfl⟩
  | succ n ih =>
    obtain ⟨s, h, hprod, hcons, hacc, hpop⟩ := ih (by omega)
    have hheld : s.held ≠ kMaxJobs := by
      unfold Ring.held kMaxJobs
      omega
    obtain ⟨s₁, h₁, hprod₁, hcons₁, hacc₁, hpop₁⟩ := reach_enqueue h hprod hheld {}
    have hlen : s₁.accepted.length = n + 1 := by
      rw [hacc₁, List.length_append, List.length_singleton, hacc]
    rw [hcons] at hcons₁
    obtain ⟨s₂, h₂, hprod₂, hcons₂, hacc₂, hpop₂⟩ :=
      reach_pop h₁ hcons₁ (by rw [hlen, hpop₁, hpop]; omega) (by rw [hlen]; exact hn)
    refine ⟨s₂, h₂, hprod₂.trans hprod₁, hcons₂, ?_, ?_⟩
    · rw [hacc₂, hlen]
    · rw [hpop₂, hpop₁, hpop]

/-- The `2 ^ 32`-th job is accepted and never popped. -/
theorem wrapped_ring_looks_empty : ∃ s, Reach machine s ∧ ¬ s.Fifo := by
  obtain ⟨s, h, hprod, hcons, hacc, hpop⟩ := reach_passed (2 ^ 32 - 1) (by omega)
  have hheld : s.held ≠ kMaxJobs := by
    unfold Ring.held kMaxJobs
    omega
  obtain ⟨s₁, h₁, _, hcons₁, hacc₁, hpop₁⟩ := reach_enqueue h hprod hheld {}
  have hlen : s₁.accepted.length = 2 ^ 32 := by
    have hnext := congrArg List.length hacc₁
    rw [List.length_append, List.length_singleton, hacc] at hnext
    omega
  rw [hcons] at hcons₁
  have hbegin : machine.step s₁ .pop = some { s₁ with consumer := .loadWrite } := by
    show s₁.step .pop = _
    simp only [Ring.step, hcons₁]
  have hload : Reach machine
      { s₁ with consumer := .loadRead s₁.write, saw := s₁.accepted.length } :=
    .step (e := .consume) (.step h₁ trivial hbegin) trivial rfl
  have hwrapped : s₁.write ≤ s₁.read := by
    rw [(inv_reach h₁).write, hlen]
    exact UInt32.le_iff_toNat_le.mpr (Nat.zero_le _)
  have hfail : Reach machine
      { s₁ with
        consumer := .idle, saw := s₁.accepted.length
        pops := s₁.pops ++
          [⟨true, s₁.accepted.length, s₁.accepted.length - s₁.popped.length⟩] } :=
    .step (e := .consume) hload trivial (if_pos hwrapped)
  refine ⟨_, hfail, fun hfifo => ?_⟩
  have hlate := (job_ring_fifo hfail).mp hfifo
    ⟨true, s₁.accepted.length, s₁.accepted.length - s₁.popped.length⟩ (by simp)
  exact absurd hlate (by rw [hlen]; exact lt_irrefl _)

end Xcom.SessionWriter
