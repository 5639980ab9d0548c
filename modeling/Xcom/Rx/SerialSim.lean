import Mathlib.Algebra.GroupWithZero.Nat
import Mathlib.Data.List.Perm.Basic
import Mathlib.Data.List.Flatten
import Xcom.Transition.History

/-!
# The queue of the serial simulator

`_queue` and the injection loop of `pump` in `serial_sim.lua`.  The fragments wait in order
in `pending`, and `pending_bytes` is kept beside them: a new fragment adds to it and a
dropped one takes from it, but an injected piece does not.
-/

namespace Xcom.Rx

universe u

/-- `PENDING_MAX_BYTES`. -/
def pendingMaxBytes : Nat := 256 * 1024

/-- `INJECT_CHUNK_MAX`. -/
def injectChunkMax : Nat := 4096

/-- The fields of the queue.  `queued`, `injected` and `dropped` are what went through it
since the start, and `drops` how many bytes were waiting at each drop; the source has none of
these four. -/
structure SerialSim (α : Type u) where
  pending : List (List α) := []
  pendingBytes : Nat := 0
  droppedBytes : Nat := 0
  injectedBytes : Nat := 0
  droppedLogged : Option Nat := none
  queued : List α := []
  injected : List α := []
  dropped : List α := []
  drops : List Nat := []
  deriving DecidableEq, Repr

namespace SerialSim

variable {α : Type u}

/-- How many bytes wait. -/
def waiting (s : SerialSim α) : Nat := (s.pending.map List.length).sum

/-- `stop`, with which each `start` begins: the totals stay. -/
def stop (s : SerialSim α) : SerialSim α :=
  { droppedBytes := s.droppedBytes, injectedBytes := s.injectedBytes
    droppedLogged := s.droppedLogged }

/-- The oldest fragment is dropped. -/
def dropOldest (s : SerialSim α) (old : List α) (rest : List (List α)) : SerialSim α :=
  { s with
    pending := rest
    pendingBytes := s.pendingBytes - old.length
    droppedBytes := s.droppedBytes + old.length
    dropped := s.dropped ++ old
    drops := s.drops ++ [s.waiting] }

/-- The overflow loop, over the fragments that wait. -/
def trim (s : SerialSim α) : List (List α) → SerialSim α
  | old :: next :: rest =>
    if s.pendingBytes > pendingMaxBytes then
      trim (s.dropOldest old (next :: rest)) (next :: rest)
    else s
  | _ => s

/-- The overflow is logged once for each new total. -/
def logDropped (s : SerialSim α) : SerialSim α :=
  if s.droppedBytes > 0 ∧ s.droppedLogged ≠ some s.droppedBytes then
    { s with droppedLogged := some s.droppedBytes }
  else s

/-- A fragment at the end of the queue. -/
def append (s : SerialSim α) (data : List α) : SerialSim α :=
  { s with
    pending := s.pending ++ [data]
    pendingBytes := s.pendingBytes + data.length
    queued := s.queued ++ data }

/-- `_queue`. -/
def queue (s : SerialSim α) (data : List α) : SerialSim α :=
  if data = [] then s
  else ((s.append data).trim (s.append data).pending).logDropped

/-- `_inject`: nothing is asked of the core for no bytes. -/
def inject (answer : Bool) (data : List α) : Bool := data.isEmpty || answer

/-- At most one block of the oldest fragment. -/
def piece (head : List α) : List α :=
  if head.length > injectChunkMax then head.take injectChunkMax else head

/-- A piece the core took. -/
def take (s : SerialSim α) (head : List α) (rest : List (List α)) : SerialSim α :=
  { s with
    pending :=
      if (piece head).length = head.length then rest
      else head.drop (piece head).length :: rest
    injectedBytes := s.injectedBytes + (piece head).length
    injected := s.injected ++ piece head }

/-- The injection loop, over the answers of the core; none where there is no core. -/
def injectLoop (s : SerialSim α) : List Bool → SerialSim α
  | [] => s
  | answer :: answers =>
    match s.pending with
    | [] => s
    | head :: rest =>
      if inject answer (piece head) then injectLoop (s.take head rest) answers else s

/-- What happens to the queue: a payload that is looped back, or a tick of the pump with
what the generator made of its budget and the answers of the core. -/
inductive Op (α : Type u)
  | enqueue (data : List α)
  | pump (out : List α) (answers : List Bool)

/-- `_queue` and `pump`. -/
def step (s : SerialSim α) : Op α → SerialSim α
  | .enqueue data => s.queue data
  | .pump out answers => (s.queue out).injectLoop answers

def run (s : SerialSim α) (ops : List (Op α)) : SerialSim α := ops.foldl step s

/-! ## What the fields have to do with the bytes -/

/-- The laws of every run behind a start that found `d` bytes dropped before: no fragment is
empty, the count is ahead of what waits by what was injected, each byte queued was injected,
dropped or waits, and what was injected and what waits are in the order of the queue. -/
structure Kept (d : Nat) (s : SerialSim α) : Prop where
  nonempty : ∀ data ∈ s.pending, data ≠ []
  count : s.pendingBytes = s.waiting + s.injected.length
  dropped : s.droppedBytes = d + s.dropped.length
  once : (s.injected ++ s.dropped ++ s.pending.flatten).Perm s.queued
  order : (s.injected ++ s.pending.flatten).Sublist s.queued

theorem waiting_eq (s : SerialSim α) : s.waiting = s.pending.flatten.length :=
  List.length_flatten.symm

theorem kept_stop (s : SerialSim α) : Kept s.droppedBytes s.stop where
  nonempty := fun _ h => absurd h List.not_mem_nil
  count := rfl
  dropped := rfl
  once := List.Perm.refl []
  order := List.Sublist.refl []

theorem Kept.append {d : Nat} {s : SerialSim α} (h : s.Kept d) {data : List α}
    (hdata : data ≠ []) : (s.append data).Kept d where
  nonempty := by
    intro data' hdata'
    rcases List.mem_append.mp hdata' with hold | hnew
    · exact h.nonempty data' hold
    · rw [List.mem_singleton.mp hnew]
      exact hdata
  count := by
    have hcount := h.count
    simp only [SerialSim.append, waiting, List.map_append, List.sum_append, List.map_singleton,
      List.sum_singleton] at hcount ⊢
    omega
  dropped := h.dropped
  once := by
    have hmore := h.once.append_right data
    simpa [SerialSim.append] using hmore
  order := by
    have hmore := h.order.append (List.Sublist.refl data)
    simpa [SerialSim.append] using hmore

/-- A dropped fragment was the next one of the queue. -/
theorem Kept.dropOldest {d : Nat} {s : SerialSim α} (h : s.Kept d) {old : List α}
    {rest : List (List α)} (hpending : s.pending = old :: rest) :
    (s.dropOldest old rest).Kept d where
  nonempty := fun data hdata => h.nonempty data (hpending ▸ List.mem_cons_of_mem old hdata)
  count := by
    have hcount := h.count
    simp only [SerialSim.dropOldest, waiting, hpending, List.map_cons, List.sum_cons]
      at hcount ⊢
    omega
  dropped := by
    have hdropped := h.dropped
    simp only [SerialSim.dropOldest, List.length_append]
    omega
  once := by
    have honce := h.once
    rw [hpending, List.flatten_cons] at honce
    simpa [SerialSim.dropOldest] using honce
  order := by
    have horder := h.order
    rw [hpending, List.flatten_cons] at horder
    have hfewer :=
      (List.Sublist.refl s.injected).append (List.sublist_append_right old rest.flatten)
    exact hfewer.trans horder

theorem piece_append (head : List α) : piece head ++ head.drop (piece head).length = head := by
  unfold piece
  split
  · rename_i hlong
    rw [List.length_take, Nat.min_eq_left (by omega)]
    exact List.take_append_drop _ _
  · rw [List.drop_length, List.append_nil]

theorem piece_ne_nil {head : List α} (h : head ≠ []) : piece head ≠ [] := by
  unfold piece
  split
  · intro hnil
    rcases List.take_eq_nil_iff.mp hnil with hzero | hhead
    · exact absurd hzero (by decide)
    · exact h hhead
  · exact h

/-- What waits behind a piece that was taken. -/
theorem take_flatten (s : SerialSim α) (head : List α) (rest : List (List α)) :
    piece head ++ (s.take head rest).pending.flatten = head ++ rest.flatten := by
  have hhead := piece_append head
  unfold take
  dsimp only
  split
  · rename_i hwhole
    rw [hwhole, List.drop_length, List.append_nil] at hhead
    rw [hhead]
  · rw [List.flatten_cons, ← List.append_assoc, hhead]

theorem Kept.take {d : Nat} {s : SerialSim α} (h : s.Kept d) {head : List α}
    {rest : List (List α)} (hpending : s.pending = head :: rest) : (s.take head rest).Kept d := by
  have hflatten := take_flatten s head rest
  have hlater : (s.take head rest).injected ++ (s.take head rest).pending.flatten =
      s.injected ++ s.pending.flatten := by
    rw [hpending, List.flatten_cons, ← hflatten]
    exact List.append_assoc _ _ _
  refine ⟨?_, ?_, h.dropped, ?_, ?_⟩
  · intro data hdata
    have hrest : ∀ data' ∈ rest, data' ≠ [] := fun data' hdata' =>
      h.nonempty data' (hpending ▸ List.mem_cons_of_mem head hdata')
    unfold SerialSim.take at hdata
    dsimp only at hdata
    split at hdata
    · exact hrest data hdata
    · rename_i hpart
      rcases List.mem_cons.mp hdata with rfl | hdata
      · intro hnil
        have hall := piece_append head
        rw [hnil, List.append_nil] at hall
        exact hpart (congrArg List.length hall)
      · exact hrest data hdata
  · have hlen := congrArg List.length hlater
    have hcount : s.pendingBytes = _ := h.count
    rw [waiting_eq] at hcount ⊢
    rw [List.length_append, List.length_append] at hlen
    show s.pendingBytes = _
    omega
  · have hsame : ((s.take head rest).injected ++ (s.take head rest).dropped ++
        (s.take head rest).pending.flatten).Perm
        (s.injected ++ s.dropped ++ s.pending.flatten) := by
      have hswap : ∀ xs ys zs : List α, (xs ++ ys ++ zs).Perm (ys ++ (xs ++ zs)) := by
        intro xs ys zs
        rw [← List.append_assoc]
        exact List.perm_append_comm.append_right zs
      refine (hswap _ _ _).trans ?_
      rw [hlater]
      exact (hswap _ _ _).symm
    exact hsame.trans h.once
  · rw [hlater]
    exact h.order

theorem Kept.trim {d : Nat} {s : SerialSim α} (h : s.Kept d) {pending : List (List α)}
    (hpending : s.pending = pending) : (s.trim pending).Kept d := by
  induction pending generalizing s with
  | nil => exact h
  | cons old rest ih =>
    cases rest with
    | nil => exact h
    | cons next rest =>
      rw [SerialSim.trim]
      split
      · exact ih (h.dropOldest hpending) rfl
      · exact h

theorem Kept.logDropped {d : Nat} {s : SerialSim α} (h : s.Kept d) : s.logDropped.Kept d := by
  unfold SerialSim.logDropped
  split
  · exact ⟨h.nonempty, h.count, h.dropped, h.once, h.order⟩
  · exact h

theorem Kept.queue {d : Nat} {s : SerialSim α} (h : s.Kept d) (data : List α) :
    (s.queue data).Kept d := by
  unfold SerialSim.queue
  split
  · exact h
  · rename_i hdata
    exact ((h.append hdata).trim rfl).logDropped

theorem Kept.injectLoop {d : Nat} {s : SerialSim α} (h : s.Kept d) (answers : List Bool) :
    (s.injectLoop answers).Kept d := by
  induction answers generalizing s with
  | nil => exact h
  | cons answer answers ih =>
    unfold SerialSim.injectLoop
    split
    · exact h
    · rename_i head rest hpending
      split
      · exact ih (h.take hpending)
      · exact h

theorem Kept.step {d : Nat} {s : SerialSim α} (h : s.Kept d) (op : Op α) : (s.step op).Kept d := by
  cases op with
  | enqueue data => exact h.queue data
  | pump out answers => exact (h.queue out).injectLoop answers

theorem Kept.run {d : Nat} {s : SerialSim α} (h : s.Kept d) (ops : List (Op α)) :
    (s.run ops).Kept d := by
  induction ops generalizing s with
  | nil => exact h
  | cons op ops ih => exact ih (h.step op)

/-! ## The count without injections -/

/-- The count is what waits, each byte queued is injected or dropped once or waits, in the
order of the queue, and what is dropped is counted and was too much. -/
structure Exact (d : Nat) (s : SerialSim α) : Prop where
  count : s.pendingBytes = s.waiting
  dropped : s.droppedBytes = d + s.dropped.length
  once : (s.injected ++ s.dropped ++ s.pending.flatten).Perm s.queued
  order : (s.injected ++ s.pending.flatten).Sublist s.queued
  needed : ∀ n ∈ s.drops, pendingMaxBytes < n

/-- Nothing was injected, and what was dropped was too much. -/
structure Quiet (s : SerialSim α) : Prop where
  injected : s.injected = []
  needed : ∀ n ∈ s.drops, pendingMaxBytes < n

theorem Kept.exact {d : Nat} {s : SerialSim α} (h : s.Kept d) (hquiet : s.Quiet) : s.Exact d where
  count := by
    have hcount := h.count
    rw [hquiet.injected] at hcount
    exact hcount
  dropped := h.dropped
  once := h.once
  order := h.order
  needed := hquiet.needed

theorem Kept.quiet {d : Nat} {s : SerialSim α} (h : s.Kept d) (hexact : s.Exact d) : s.Quiet where
  injected := by
    have hcount := h.count
    rw [hexact.count] at hcount
    exact List.length_eq_zero_iff.mp (by omega)
  needed := hexact.needed

theorem Quiet.trim {d : Nat} {s : SerialSim α} (hkept : s.Kept d) (h : s.Quiet)
    {pending : List (List α)} (hpending : s.pending = pending) : (s.trim pending).Quiet := by
  induction pending generalizing s with
  | nil => exact h
  | cons old rest ih =>
    cases rest with
    | nil => exact h
    | cons next rest =>
      rw [SerialSim.trim]
      split
      · rename_i hover
        refine ih (hkept.dropOldest hpending) ⟨h.injected, ?_⟩ rfl
        intro n hn
        rcases List.mem_append.mp hn with hn | hn
        · exact h.needed n hn
        · rw [List.mem_singleton.mp hn, ← (hkept.exact h).count]
          exact hover
      · exact h

theorem Quiet.queue {d : Nat} {s : SerialSim α} (hkept : s.Kept d) (h : s.Quiet)
    (data : List α) : (s.queue data).Quiet := by
  unfold SerialSim.queue
  split
  · exact h
  · rename_i hdata
    have htrim := Quiet.trim (hkept.append hdata) ⟨h.injected, h.needed⟩ rfl
    unfold SerialSim.logDropped
    split
    · exact ⟨htrim.injected, htrim.needed⟩
    · exact htrim

/-- The core refuses the first piece of a tick, if one waits. -/
def Refuses (s : SerialSim α) : Op α → Prop
  | .enqueue _ => True
  | .pump out answers => (s.queue out).pending ≠ [] → answers.head? ≠ some true

/-- A refused piece ends the loop before it did anything. -/
theorem injectLoop_refused {d : Nat} {s : SerialSim α} (h : s.Kept d) {answers : List Bool}
    (hrefused : s.pending ≠ [] → answers.head? ≠ some true) : s.injectLoop answers = s := by
  cases answers with
  | nil => rfl
  | cons answer answers =>
    unfold injectLoop
    split
    · rfl
    · rename_i head rest hpending
      have hhead : head ≠ [] := h.nonempty head (hpending ▸ List.mem_cons_self)
      have hno : answer = false := by
        cases answer with
        | false => rfl
        | true => exact absurd rfl (hrefused (by rw [hpending]; exact List.cons_ne_nil _ _))
      have hasked : (piece head).isEmpty = false := by
        rw [List.isEmpty_eq_false_iff]
        exact piece_ne_nil hhead
      rw [hno, inject, hasked]
      rfl

theorem injectLoop_injected (s : SerialSim α) (answers : List Bool) :
    s.injected <+: (s.injectLoop answers).injected := by
  induction answers generalizing s with
  | nil => exact List.prefix_rfl
  | cons answer answers ih =>
    unfold injectLoop
    split
    · exact List.prefix_rfl
    · rename_i head rest _
      split
      · have hmore : s.injected <+: (s.take head rest).injected := List.prefix_append _ _
        exact hmore.trans (ih _)
      · exact List.prefix_rfl

/-- A piece that is taken stays injected. -/
theorem injectLoop_accepted {d : Nat} {s : SerialSim α} (h : s.Kept d) {answers : List Bool}
    (hwaits : s.pending ≠ []) (hanswer : answers.head? = some true) :
    (s.injectLoop answers).injected ≠ [] := by
  obtain ⟨head, rest, hpending⟩ := List.exists_cons_of_ne_nil hwaits
  obtain ⟨answers', rfl⟩ : ∃ answers', answers = true :: answers' := by
    cases answers with
    | nil => cases hanswer
    | cons answer answers => exact ⟨answers, by rw [Option.some.inj hanswer]⟩
  have hhead : head ≠ [] := h.nonempty head (hpending ▸ List.mem_cons_self)
  have htaken : s.injectLoop (true :: answers') = (s.take head rest).injectLoop answers' := by
    simp [injectLoop, hpending, inject]
  rw [htaken]
  intro hnone
  have hprefix := injectLoop_injected (s.take head rest) answers'
  rw [hnone, List.prefix_nil] at hprefix
  exact piece_ne_nil hhead (List.append_eq_nil_iff.mp hprefix).2

theorem Quiet.step_iff {d : Nat} {s : SerialSim α} (hkept : s.Kept d) (h : s.Quiet) (op : Op α) :
    (s.step op).Quiet ↔ s.Refuses op := by
  cases op with
  | enqueue data => exact ⟨fun _ => trivial, fun _ => Quiet.queue hkept h data⟩
  | pump out answers =>
    have hqueue := hkept.queue out
    constructor
    · intro hquiet hwaits hanswer
      exact injectLoop_accepted hqueue hwaits hanswer hquiet.injected
    · intro hrefused
      have hsame : (s.queue out).injectLoop answers = s.queue out :=
        injectLoop_refused hqueue hrefused
      show ((s.queue out).injectLoop answers).Quiet
      rw [hsame]
      exact Quiet.queue hkept h out

theorem exact_iff {d : Nat} {s : SerialSim α} (hkept : s.Kept d) (h : s.Quiet)
    (ops : List (Op α)) :
    (∀ pre, pre <+: ops → (s.run pre).Exact d) ↔
      Transition.History.Throughout step Refuses s ops := by
  have hagree : ∀ (s : SerialSim α) op, s.Kept d ∧ s.Quiet →
      ((s.step op).Exact d ↔ s.Refuses op) := by
    rintro s op ⟨hkept, hquiet⟩
    rw [← Quiet.step_iff hkept hquiet op]
    exact ⟨(hkept.step op).quiet, (hkept.step op).exact⟩
  have hstep : ∀ (s : SerialSim α) op, s.Kept d ∧ s.Quiet → (s.step op).Exact d →
      (s.step op).Kept d ∧ (s.step op).Quiet :=
    fun s op hs hexact => ⟨hs.1.step op, (hs.1.step op).quiet hexact⟩
  rw [← Transition.History.throughout_congr hagree hstep ⟨hkept, h⟩ ops,
    Transition.History.throughout_iff]
  constructor
  · intro hall pre op hpre
    have hexact := hall _ hpre
    rw [run, List.foldl_concat] at hexact
    exact hexact
  · intro hall pre hpre
    rcases List.eq_nil_or_concat' pre with rfl | ⟨pre, op, rfl⟩
    · exact hkept.exact h
    · rw [run, List.foldl_concat]
      exact hall pre op hpre

/-- In every run of enqueues and ticks behind a start: the queue is exact in each state
exactly when the core takes no piece in it. -/
theorem queue_exact_iff (s : SerialSim α) (ops : List (Op α)) :
    (∀ pre, pre <+: ops → (s.stop.run pre).Exact s.droppedBytes) ↔
      Transition.History.Throughout step Refuses s.stop ops :=
  exact_iff (kept_stop s) ⟨rfl, fun _ h => absurd h List.not_mem_nil⟩ ops

/-- One byte that is queued and taken is still counted. -/
theorem injected_byte_counted :
    ¬ ∀ pre, pre <+: [Op.enqueue [(0x41 : UInt8)], Op.pump [] [true]] →
      ((({} : SerialSim UInt8).stop).run pre).Exact 0 := by
  intro hall
  have hcount := (hall _ List.prefix_rfl).count
  revert hcount
  decide

/-! ## The drops of any run -/

theorem drops_trim (s : SerialSim α) (pending : List (List α)) :
    s.drops <+: (s.trim pending).drops := by
  induction pending generalizing s with
  | nil => exact List.prefix_rfl
  | cons old rest ih =>
    cases rest with
    | nil => exact List.prefix_rfl
    | cons next rest =>
      rw [trim]
      split
      · have hmore : s.drops <+: (s.dropOldest old (next :: rest)).drops :=
          List.prefix_append _ _
        exact hmore.trans (ih _)
      · exact List.prefix_rfl

/-- What was injected since the start is taken off the room of the queue: a fragment behind
others drops one as soon as the bytes waiting and injected exceed the limit with it. -/
theorem queue_drops_iff {d : Nat} {s : SerialSim α} (h : s.Kept d) {data : List α}
    (hdata : data ≠ []) (hwaits : s.pending ≠ []) :
    (s.queue data).drops ≠ s.drops ↔
      pendingMaxBytes < s.waiting + s.injected.length + data.length := by
  have hlog : ∀ s : SerialSim α, s.logDropped.drops = s.drops := by
    intro s
    unfold logDropped
    split <;> rfl
  obtain ⟨old, next, rest, hpending⟩ : ∃ old next rest,
      (s.append data).pending = old :: next :: rest := by
    obtain ⟨old, more, hold⟩ := List.exists_cons_of_ne_nil hwaits
    have happend : (s.append data).pending = old :: (more ++ [data]) := by
      rw [append, hold]
      rfl
    obtain ⟨next, rest, hnext⟩ := List.exists_cons_of_ne_nil
      (List.append_ne_nil_of_right_ne_nil more (List.cons_ne_nil data []))
    exact ⟨old, next, rest, by rw [happend, hnext]⟩
  have hcount : (s.append data).pendingBytes = s.waiting + s.injected.length + data.length := by
    rw [← h.count]
    rfl
  rw [queue, if_neg hdata, hlog, hpending, trim, ← hcount]
  by_cases hover : (s.append data).pendingBytes > pendingMaxBytes
  · rw [if_pos hover]
    refine ⟨fun _ => hover, fun _ hsame => ?_⟩
    have hprefix := drops_trim ((s.append data).dropOldest old (next :: rest)) (next :: rest)
    have hlen := hprefix.length_le
    rw [hsame, dropOldest, List.length_append] at hlen
    exact absurd hlen (by simp [append])
  · rw [if_neg hover]
    exact ⟨fun hnew => absurd rfl hnew, fun hover' => absurd hover' hover⟩

end SerialSim

end Xcom.Rx
