import Xcom.Foundation.ErrorRing

/-!
# The error ring is a bounded queue

The cells of the next `kErrorRingCount` positions are numbered in order.  A producer
writes only to the cell of the position it has reserved, the consumer only to the
oldest one, and a timely producer reads off its cell whether the ring is full.
-/

namespace Xcom.ErrorRing

open Transition

variable {T : Type}

/-- What the stores before a stage have brought into the entry. -/
def Stage.Filled (e : ErrorEntry) (r : Report) : Stage → Prop
  | .code => True
  | .source => e.code = r.code
  | .text => e.code = r.code ∧ e.source = r.source
  | .terminator =>
    e.code = r.code ∧ e.source = r.source ∧
      ∀ (i : Nat) (h : i < r.text.length), e.message i = r.text[i]
  | .sequence => e.Carries r

/-- The cell of a count. -/
def Ring.at (s : Ring T) (i : Nat) : ErrorSlot := s.entries (cell (UInt32.ofNat i))

/-- What a producer knows. -/
def ProducerPc.Holds (s : Ring T) : ProducerPc → Prop
  | .idle | .loadPosition _ => True
  | .loadSequence _ position p => position = UInt32.ofNat p ∧ p ≤ s.reserved.length
  | .reserve _ position p =>
    position = UInt32.ofNat p ∧ p ≤ s.reserved.length ∧
      p < s.taken.length + kErrorRingCount
  | .fill stage r position p =>
    position = UInt32.ofNat p ∧ s.taken.length ≤ p ∧ s.reserved[p]? = some r ∧
      (s.at p).count = p ∧ stage.Filled (s.at p).entry r

/-- What the consumer knows: the oldest entry is published. -/
def ConsumerPc.Holds (s : Ring T) : ConsumerPc → Prop
  | .idle => True
  | .copy => s.taken.length < s.reserved.length ∧ (s.at s.taken.length).count = s.taken.length + 1
  | .release entry =>
    s.taken.length < s.reserved.length ∧ (s.at s.taken.length).count = s.taken.length + 1 ∧
      ∃ r, s.reserved[s.taken.length]? = some r ∧ entry.Carries r

/-- The position a producer has reserved. -/
def ProducerPc.filling : ProducerPc → Option Nat
  | .fill _ _ _ p => some p
  | _ => none

/-- The invariant of the ring.  The cells of the next `kErrorRingCount` positions are
numbered in order: published ones carry their report, free ones wait for their turn. -/
structure Inv (s : Ring T) : Prop where
  enqueue : s.enqueuePos = UInt32.ofNat s.reserved.length
  dequeue : s.dequeuePos = UInt32.ofNat s.taken.length
  ordered : s.taken.length ≤ s.reserved.length
  bound : s.reserved.length ≤ s.taken.length + kErrorRingCount
  sequences : ∀ i, (s.at i).sequence = UInt32.ofNat (s.at i).count
  free : ∀ i, s.reserved.length ≤ i → i < s.taken.length + kErrorRingCount → (s.at i).count = i
  busy : ∀ i r, s.taken.length ≤ i → s.reserved[i]? = some r →
    (s.at i).count = i ∨ (s.at i).count = i + 1 ∧ (s.at i).entry.Carries r
  producers : ∀ t, (s.producer t).Holds s
  apart : ∀ t t' p, (s.producer t).filling = some p → (s.producer t').filling = some p → t = t'
  consumer : s.consumer.Holds s
  taken : List.Forall₂ ErrorEntry.Carries s.taken (s.reserved.take s.taken.length)
  refusals : ∀ held ∈ s.refusals, held = kErrorRingCount
  misses : ∀ published ∈ s.misses, published = false

theorem cell_ofNat (n : Nat) : cell (UInt32.ofNat n) = UInt32.ofNat (n % kErrorRingCount) :=
  Wrap.and_mask (k := 7) (by omega) n

theorem cell_eq_iff {i j : Nat} :
    cell (UInt32.ofNat i) = cell (UInt32.ofNat j) ↔ i % kErrorRingCount = j % kErrorRingCount := by
  rw [cell_ofNat, cell_ofNat]
  have hi : i % kErrorRingCount < kErrorRingCount := Nat.mod_lt _ (by decide)
  have hj : j % kErrorRingCount < kErrorRingCount := Nat.mod_lt _ (by decide)
  constructor
  · intro heq
    have hmod := congrArg UInt32.toNat heq
    rw [Wrap.toNat_ofNat, Wrap.toNat_ofNat] at hmod
    unfold kErrorRingCount at hi hj hmod ⊢
    omega
  · intro heq
    rw [heq]

/-- Positions of one window have different cells. -/
theorem cell_ne {i j : Nat} (hne : i ≠ j) (hij : i < j + kErrorRingCount)
    (hji : j < i + kErrorRingCount) : cell (UInt32.ofNat i) ≠ cell (UInt32.ofNat j) := by
  rw [Ne, cell_eq_iff]
  intro hmod
  rcases Nat.le_total i j with hle | hle
  · exact hne (Wrap.cell_inj hmod.symm hle hji).symm
  · exact hne (Wrap.cell_inj hmod hle hij)

/-- Every position shares its cell with one of the window. -/
theorem exists_window (first p : Nat) :
    ∃ i, first ≤ i ∧ i < first + kErrorRingCount ∧
      i % kErrorRingCount = p % kErrorRingCount := by
  refine ⟨first + (p % kErrorRingCount + kErrorRingCount - first % kErrorRingCount) %
    kErrorRingCount, ?_⟩
  unfold kErrorRingCount
  omega

/-- The sequence number of the cell of a position that was loaded earlier: it is the
position or has moved on, unless the ring is full up to that position. -/
theorem Inv.count_at {s : Ring T} (hi : Inv s) {p : Nat} (hp : p ≤ s.reserved.length) :
    ((s.at p).count = p ∧ p < s.taken.length + kErrorRingCount) ∨ p < (s.at p).count ∨
      ((s.at p).count < p ∧ p < (s.at p).count + kErrorRingCount + 1 ∧
        s.reserved.length = s.taken.length + kErrorRingCount) := by
  obtain ⟨i, hlow, hhigh, hmod⟩ := exists_window s.taken.length p
  have hat : s.at p = s.at i := by
    unfold Ring.at
    rw [cell_eq_iff.mpr hmod]
  have hcount : (s.at i).count = i ∨ (s.at i).count = i + 1 := by
    by_cases hlt : i < s.reserved.length
    · rcases hi.busy i _ hlow (List.getElem?_eq_getElem hlt) with hcount | ⟨hcount, _⟩
      · exact .inl hcount
      · exact .inr hcount
    · exact .inl (hi.free i (by omega) hhigh)
  have hbound := hi.bound
  rw [hat]
  unfold kErrorRingCount at hhigh hmod hbound ⊢
  omega

theorem Stage.filled_store {e : ErrorEntry} {r : Report} {stage : Stage}
    (h : stage.Filled e r) (hstage : stage ≠ .sequence) :
    stage.next.Filled (stage.store r e) r := by
  cases stage with
  | code => exact rfl
  | source => exact ⟨h, rfl⟩
  | text => exact ⟨h.1, h.2, fun i hlt => dif_pos hlt⟩
  | terminator =>
    refine ⟨h.1, h.2.1, fun i hlt => ?_, Function.update_self _ _ _⟩
    show Function.update e.message r.text.length 0 i = _
    rw [Function.update_of_ne (by omega)]
    exact h.2.2 i hlt
  | sequence => exact absurd rfl hstage

/-- A producer that fills a cell has a position in use. -/
theorem Inv.fills {s : Ring T} (hi : Inv s) {t : T} {stage : Stage} {r : Report}
    {position : UInt32} {p : Nat} (hpc : s.producer t = .fill stage r position p) :
    position = UInt32.ofNat p ∧ s.taken.length ≤ p ∧ s.reserved[p]? = some r ∧
      p < s.reserved.length ∧ (s.at p).count = p ∧ stage.Filled (s.at p).entry r := by
  have hholds := hi.producers t
  rw [hpc] at hholds
  obtain ⟨hposition, hlow, hget, hcount, hfilled⟩ := hholds
  exact ⟨hposition, hlow, hget, (List.getElem?_eq_some_iff.mp hget).1, hcount, hfilled⟩

theorem getElem?_of_prefix {xs ys : List Report} (h : xs <+: ys) {i : Nat} {r : Report}
    (hget : xs[i]? = some r) : ys[i]? = some r := by
  obtain ⟨rest, rfl⟩ := h
  rw [List.getElem?_append_left (List.getElem?_eq_some_iff.mp hget).1, hget]

/-- What a producer knows stays true while positions are reserved and entries taken, as long
as the cell it fills is left alone. -/
theorem ProducerPc.Holds.transfer {s s' : Ring T} {pc : ProducerPc} (h : pc.Holds s)
    (hreserved : s.reserved <+: s'.reserved) (htaken : s.taken.length ≤ s'.taken.length)
    (hcell : ∀ stage r position p, pc = .fill stage r position p →
      s'.taken.length ≤ p ∧ s'.at p = s.at p) : pc.Holds s' := by
  cases pc with
  | idle => trivial
  | loadPosition r => trivial
  | loadSequence r position p => exact ⟨h.1, h.2.trans hreserved.length_le⟩
  | reserve r position p =>
    have hroom := h.2.2
    exact ⟨h.1, h.2.1.trans hreserved.length_le, by omega⟩
  | fill stage r position p =>
    obtain ⟨hposition, -, hget, hcount, hfilled⟩ := h
    obtain ⟨hlow, hat⟩ := hcell stage r position p rfl
    refine ⟨hposition, hlow, getElem?_of_prefix hreserved hget, ?_, ?_⟩
    · rw [hat]
      exact hcount
    · rw [hat]
      exact hfilled

/-- What the consumer knows stays true while positions are reserved and other cells written. -/
theorem ConsumerPc.Holds.transfer {s s' : Ring T} {pc : ConsumerPc} (h : pc.Holds s)
    (hreserved : s.reserved <+: s'.reserved) (htaken : s'.taken = s.taken)
    (hcell : (s.at s.taken.length).count = s.taken.length + 1 →
      (s'.at s.taken.length).count = s.taken.length + 1) : pc.Holds s' := by
  cases pc with
  | idle => trivial
  | copy =>
    unfold ConsumerPc.Holds
    rw [htaken]
    exact ⟨h.1.trans_le hreserved.length_le, hcell h.2⟩
  | release entry =>
    obtain ⟨hlt, hpublished, r, hget, hcarries⟩ := h
    unfold ConsumerPc.Holds
    rw [htaken]
    exact ⟨hlt.trans_le hreserved.length_le, hcell hpublished, r,
      getElem?_of_prefix hreserved hget, hcarries⟩

/-- A cell written with the sequence number of its count keeps the numbers in step. -/
theorem Inv.sequences_put {s : Ring T} (hi : Inv s) (position : UInt32) {slot : ErrorSlot}
    (hsequence : slot.sequence = UInt32.ofNat slot.count) (i : Nat) :
    ((s.put position slot).at i).sequence = UInt32.ofNat ((s.put position slot).at i).count := by
  by_cases hcell : cell (UInt32.ofNat i) = cell position
  · have hat : (s.put position slot).at i = slot := by
      show Function.update s.entries _ slot _ = slot
      rw [hcell, Function.update_self]
    rw [hat]
    exact hsequence
  · have hat : (s.put position slot).at i = s.at i := Function.update_of_ne hcell _ _
    rw [hat]
    exact hi.sequences i

section Preservation

variable [DecidableEq T]

theorem inv_init : Inv (machine T).init where
  enqueue := rfl
  dequeue := rfl
  ordered := le_rfl
  bound := by simp [machine]
  sequences i := by
    show cell (UInt32.ofNat i) = UInt32.ofNat (cell (UInt32.ofNat i)).toNat
    exact UInt32.ofNat_toNat.symm
  free i _ hhigh := by
    show (cell (UInt32.ofNat i)).toNat = i
    have hlt : i < kErrorRingCount := by simpa [machine] using hhigh
    rw [cell_ofNat, Nat.mod_eq_of_lt hlt, Wrap.toNat_ofNat]
    unfold kErrorRingCount at hlt
    omega
  busy i r _ h := by simp [machine] at h
  producers _ := trivial
  apart _ _ _ h := by cases h
  consumer := trivial
  taken := .nil
  refusals _ h := by cases h
  misses _ h := by cases h

@[simp] theorem Ring.goes_self (s : Ring T) (t : T) (pc : ProducerPc) :
    (s.goes t pc).producer t = pc :=
  Function.update_self ..

theorem Ring.goes_of_ne (s : Ring T) {t u : T} (hut : u ≠ t) (pc : ProducerPc) :
    (s.goes t pc).producer u = s.producer u :=
  Function.update_of_ne hut ..

/-- A producer that goes on without a new position leaves the positions in use. -/
theorem Ring.filling_goes (s : Ring T) {t : T} {pc : ProducerPc}
    (hfill : ∀ p, pc.filling = some p → (s.producer t).filling = some p) (u : T) (p : Nat)
    (hp : ((s.goes t pc).producer u).filling = some p) :
    (s.producer u).filling = some p := by
  by_cases hut : u = t
  · subst hut
    rw [Ring.goes_self] at hp
    exact hfill p hp
  · rwa [Ring.goes_of_ne _ hut] at hp

/-- A producer goes on while everything else stays; it fills nothing new. -/
theorem Inv.goes {s : Ring T} (hi : Inv s) (t : T) {pc : ProducerPc} (hpc : pc.Holds s)
    (hfill : ∀ p, pc.filling = some p → (s.producer t).filling = some p) :
    Inv (s.goes t pc) := by
  have hfilling := s.filling_goes hfill
  have hholds : ∀ u, ((s.goes t pc).producer u).Holds s := by
    intro u
    by_cases hut : u = t
    · subst hut
      rwa [Ring.goes_self]
    · rw [Ring.goes_of_ne _ hut]
      exact hi.producers u
  exact
    { hi with
      producers := hholds
      apart := fun u u' p hp hp' => hi.apart u u' p (hfilling u p hp) (hfilling u' p hp')
      consumer := hi.consumer }

/-- A position is loaded. -/
theorem Inv.atPosition {s : Ring T} (hi : Inv s) (t : T) (r : Report) :
    Inv (s.atPosition t r) :=
  hi.goes t ⟨hi.enqueue, le_rfl⟩ fun _ h => by cases h

/-- The sequence number is compared with a position that is not too old. -/
theorem Inv.compare {s : Ring T} (hi : Inv s) {t : T} {r : Report} {position : UInt32} {p : Nat}
    (hpc : s.producer t = .loadSequence r position p)
    (htimely : (s.entries (cell position)).count < p + 2 ^ 31) :
    Inv (s.compare t r position p) := by
  have hholds := hi.producers t
  rw [hpc] at hholds
  obtain ⟨rfl, hp⟩ := hholds
  have hseq : (s.entries (cell (UInt32.ofNat p))).sequence = UInt32.ofNat (s.at p).count :=
    hi.sequences p
  have htimely' : (s.at p).count < p + 2 ^ 31 := htimely
  have hcases := hi.count_at hp
  unfold kErrorRingCount at hcases
  unfold Ring.compare
  dsimp only
  rw [hseq]
  by_cases hzero : UInt32.ofNat (s.at p).count - UInt32.ofNat p = 0
  · rw [if_pos hzero]
    have hsame : UInt32.ofNat (s.at p).count = UInt32.ofNat p := by
      have hback := UInt32.sub_add_cancel (UInt32.ofNat (s.at p).count) (UInt32.ofNat p)
      rw [hzero, UInt32.zero_add] at hback
      exact hback.symm
    refine hi.goes t ⟨rfl, hp, ?_⟩ fun _ h => by cases h
    rcases hcases with ⟨_, hroom⟩ | hmoved | ⟨hbehind, hclose, _⟩
    · exact hroom
    · have := Wrap.eq_of_ofNat_eq hsame hmoved.le (by omega)
      omega
    · have := Wrap.eq_of_ofNat_eq hsame.symm hbehind.le (by omega)
      omega
  · rw [if_neg hzero]
    by_cases hneg : 0x80000000 ≤ UInt32.ofNat (s.at p).count - UInt32.ofNat p
    · rw [if_pos hneg]
      have hidle : Inv (s.goes t .idle) := hi.goes t trivial fun _ h => by cases h
      refine { hidle with
        producers := hidle.producers, consumer := hi.consumer, refusals := ?_ }
      intro held hheld
      rw [List.mem_append, List.mem_singleton] at hheld
      rcases hheld with hheld | rfl
      · exact hi.refusals held hheld
      · rw [UInt32.le_iff_toNat_le] at hneg
        have hhalf : (0x80000000 : UInt32).toNat = 2 ^ 31 := rfl
        have hordered := hi.ordered
        rw [hhalf] at hneg
        unfold kErrorRingCount
        rcases hcases with ⟨hsame, _⟩ | hmoved | ⟨_, _, hfull⟩
        · rw [hsame, UInt32.sub_self] at hneg
          exact absurd hneg (by decide)
        · rw [Wrap.toNat_sub hmoved.le (by omega)] at hneg
          omega
        · omega
    · rw [if_neg hneg]
      exact hi.goes t trivial fun _ h => by cases h

/-- The producer of position `p` writes to its cell and goes on at `pc`.  Nothing that
the others know is about that cell. -/
theorem Inv.put {s : Ring T} (hi : Inv s) {t : T} {stage : Stage} {r : Report}
    {position : UInt32} {p : Nat} (hpc : s.producer t = .fill stage r position p)
    {slot : ErrorSlot} {pc : ProducerPc}
    (hsequence : slot.sequence = UInt32.ofNat slot.count)
    (hslot : slot.count = p ∨ slot.count = p + 1 ∧ slot.entry.Carries r)
    (hholds : pc = .idle ∨ ∃ next, pc = .fill next r position p ∧ slot.count = p ∧
      next.Filled slot.entry r) :
    Inv ((s.put position slot).goes t pc) := by
  obtain ⟨rfl, hlow, hget, hlt, hcount, hfilled⟩ := hi.fills hpc
  have hbound := hi.bound
  have hself : (s.put (UInt32.ofNat p) slot).at p = slot := Function.update_self _ _ _
  have hother : ∀ i, i ≠ p → s.taken.length ≤ i → i < s.taken.length + kErrorRingCount →
      (s.put (UInt32.ofNat p) slot).at i = s.at i := by
    intro i hne hi₁ hi₂
    exact Function.update_of_ne (cell_ne hne (by omega) (by omega)) _ _
  have hfilling : ∀ u q, (((s.put (UInt32.ofNat p) slot).goes t pc).producer u).filling = some q →
      (s.producer u).filling = some q := by
    apply Ring.filling_goes (s.put (UInt32.ofNat p) slot)
    intro q hq
    show (s.producer t).filling = some q
    rw [hpc]
    rcases hholds with rfl | ⟨next, rfl, _⟩
    · cases hq
    · exact hq
  constructor
  · exact hi.enqueue
  · exact hi.dequeue
  · exact hi.ordered
  · exact hi.bound
  · exact hi.sequences_put (UInt32.ofNat p) hsequence
  · intro i hfree hroom
    show ((s.put (UInt32.ofNat p) slot).at i).count = i
    have hfree' : s.reserved.length ≤ i := hfree
    rw [hother i (by omega) (by omega) hroom]
    exact hi.free i hfree hroom
  · intro i r' hi₁ hget'
    show ((s.put (UInt32.ofNat p) slot).at i).count = i ∨ _
    by_cases hip : i = p
    · subst hip
      obtain rfl : r' = r := Option.some.inj (hget'.symm.trans hget)
      show ((s.put (UInt32.ofNat i) slot).at i).count = i ∨
        ((s.put (UInt32.ofNat i) slot).at i).count = i + 1 ∧
          ((s.put (UInt32.ofNat i) slot).at i).entry.Carries r'
      rw [hself]
      exact hslot
    · have hi₂ := (List.getElem?_eq_some_iff.mp hget').1
      show ((s.put (UInt32.ofNat p) slot).at i).count = i ∨
        ((s.put (UInt32.ofNat p) slot).at i).count = i + 1 ∧
          ((s.put (UInt32.ofNat p) slot).at i).entry.Carries r'
      have hi₂' : i < s.reserved.length := hi₂
      rw [hother i hip hi₁ (by omega)]
      exact hi.busy i r' hi₁ hget'
  · intro u
    by_cases hut : u = t
    · subst hut
      rw [Ring.goes_self]
      rcases hholds with rfl | ⟨next, rfl, hslotCount, hnext⟩
      · trivial
      · refine ⟨rfl, hlow, hget, ?_, ?_⟩
        · show ((s.put (UInt32.ofNat p) slot).at p).count = p
          rw [hself]
          exact hslotCount
        · show next.Filled ((s.put (UInt32.ofNat p) slot).at p).entry r
          rw [hself]
          exact hnext
    · rw [Ring.goes_of_ne _ hut]
      refine (hi.producers u).transfer ?_ ?_ ?_
      · exact List.prefix_rfl
      · exact le_rfl
      intro stage' r' position' q hupc
      obtain ⟨_, hlow', _, hlt', _, _⟩ := hi.fills hupc
      have hqp : q ≠ p := by
        intro hqp
        apply hut
        apply hi.apart u t q
        · rw [hupc]
          rfl
        · rw [hpc, hqp]
          rfl
      exact ⟨hlow', hother q hqp hlow' (by omega)⟩
  · exact fun u u' q hq hq' => hi.apart u u' q (hfilling u q hq) (hfilling u' q hq')
  · refine hi.consumer.transfer ?_ ?_ ?_
    · exact List.prefix_rfl
    · rfl
    intro hpublished
    have hne : s.taken.length ≠ p := by
      intro heq
      rw [heq, hcount] at hpublished
      omega
    have hpos : 0 < kErrorRingCount := by decide
    show ((s.put (UInt32.ofNat p) slot).at s.taken.length).count = s.taken.length + 1
    rw [hother _ hne le_rfl (by omega)]
    exact hpublished
  · exact hi.taken
  · exact hi.refusals
  · exact hi.misses

theorem Inv.produce {s s' : Ring T} (hi : Inv s) {t : T} (htimely : s.Timely (.produce t))
    (hstep : s.produce t = some s') : Inv s' := by
  unfold Ring.produce at hstep
  cases hpc : s.producer t with
  | idle => simp [hpc] at hstep
  | loadPosition r =>
    simp only [hpc, Option.some.injEq] at hstep
    subst hstep
    exact hi.atPosition t r
  | loadSequence r position p =>
    simp only [hpc, Option.some.injEq] at hstep
    simp only [Ring.Timely, hpc] at htimely
    subst hstep
    exact hi.compare hpc htimely
  | reserve r position p => simp [hpc] at hstep
  | fill stage r position p =>
    obtain ⟨hposition, _, _, _, hcount, hfilled⟩ := hi.fills hpc
    have hat : s.entries (cell position) = s.at p := by
      rw [hposition]
      rfl
    have hseq := hi.sequences p
    by_cases hstage : stage = .sequence
    · subst hstage
      simp only [hpc, Option.some.injEq] at hstep
      subst hstep
      refine hi.put hpc ?_ (.inr ⟨rfl, ?_⟩) (.inl rfl)
      · show position + 1 = UInt32.ofNat (p + 1)
        rw [hposition, UInt32.ofNat_add]
        rfl
      · rw [hat]
        exact hfilled
    · have hrun : some ((s.put position
          { s.entries (cell position) with
            entry := stage.store r (s.entries (cell position)).entry }).goes t
              (.fill stage.next r position p)) = some s' := by
        rw [← hstep, hpc]
        cases stage with
        | code => rfl
        | source => rfl
        | text => rfl
        | terminator => rfl
        | sequence => exact absurd rfl hstage
      obtain rfl := Option.some.inj hrun
      have hslot : (s.entries (cell position)).count = p := by rw [hat, hcount]
      refine hi.put hpc ?_ (.inl hslot) (.inr ⟨stage.next, rfl, hslot, ?_⟩)
      · show (s.entries (cell position)).sequence = UInt32.ofNat (s.entries (cell position)).count
        rw [hat]
        exact hseq
      · show stage.next.Filled (stage.store r (s.entries (cell position)).entry) r
        rw [hat]
        exact Stage.filled_store hfilled hstage

/-- The compare-exchange reserves the next position, whose cell is free. -/
theorem Inv.reserve {s s' : Ring T} (hi : Inv s) {t : T} {spurious : Bool}
    (htimely : s.Timely (.reserve t spurious)) (hstep : s.reserve t spurious = some s') :
    Inv s' := by
  unfold Ring.reserve at hstep
  cases hpc : s.producer t with
  | idle => simp [hpc] at hstep
  | loadPosition r => simp [hpc] at hstep
  | loadSequence r position p => simp [hpc] at hstep
  | fill stage r position p => simp [hpc] at hstep
  | reserve r position p =>
    simp only [hpc] at hstep
    simp only [Ring.Timely, hpc] at htimely
    have hholds := hi.producers t
    rw [hpc] at hholds
    obtain ⟨rfl, hp, hroom⟩ := hholds
    by_cases hwon : s.enqueuePos = UInt32.ofNat p ∧ spurious = false
    · rw [if_pos hwon, Option.some.injEq] at hstep
      subst hstep
      have hlast : s.reserved.length = p :=
        Wrap.eq_of_ofNat_eq (hi.enqueue ▸ hwon.1) hp htimely
      subst hlast
      have hfree := hi.free s.reserved.length le_rfl hroom
      have hlen : (s.reserved ++ [r]).length = s.reserved.length + 1 := by simp
      have hold : ∀ q, (∃ u, (s.producer u).filling = some q) → q < s.reserved.length := by
        intro q hq
        obtain ⟨u, hu⟩ := hq
        cases hupc : s.producer u with
        | fill stage' r' position' q' =>
          rw [hupc] at hu
          obtain rfl : q' = q := Option.some.inj hu
          exact (hi.fills hupc).2.2.2.1
        | idle => simp [hupc, ProducerPc.filling] at hu
        | loadPosition r' => simp [hupc, ProducerPc.filling] at hu
        | loadSequence r' position' q' => simp [hupc, ProducerPc.filling] at hu
        | reserve r' position' q' => simp [hupc, ProducerPc.filling] at hu
      have hfilling : ∀ u q, ((s.goes t (.fill .code r (UInt32.ofNat s.reserved.length)
          s.reserved.length)).producer u).filling = some q →
          u = t ∧ q = s.reserved.length ∨ u ≠ t ∧ (s.producer u).filling = some q := by
        intro u q hq
        by_cases hut : u = t
        · subst hut
          rw [Ring.goes_self] at hq
          exact .inl ⟨rfl, (Option.some.inj hq).symm⟩
        · rw [Ring.goes_of_ne _ hut] at hq
          exact .inr ⟨hut, hq⟩
      constructor
      · show UInt32.ofNat s.reserved.length + 1 = UInt32.ofNat (s.reserved ++ [r]).length
        rw [hlen, UInt32.ofNat_add]
        rfl
      · exact hi.dequeue
      · exact hi.ordered.trans (by rw [hlen]; exact Nat.le_succ _)
      · show (s.reserved ++ [r]).length ≤ s.taken.length + kErrorRingCount
        rw [hlen]
        omega
      · exact hi.sequences
      · intro i hlow hhigh
        have hlow' : (s.reserved ++ [r]).length ≤ i := hlow
        rw [hlen] at hlow'
        exact hi.free i (by omega) hhigh
      · intro i r' hlow hget
        by_cases hlt : i < s.reserved.length
        · refine hi.busy i r' hlow ?_
          rw [← hget]
          exact (List.getElem?_append_left hlt).symm
        · have hbelow := (List.getElem?_eq_some_iff.mp hget).1
          have hbelow' : i < (s.reserved ++ [r]).length := hbelow
          rw [hlen] at hbelow'
          obtain rfl : i = s.reserved.length := by omega
          exact .inl hfree
      · intro u
        show ((s.goes t (.fill .code r (UInt32.ofNat s.reserved.length)
          s.reserved.length)).producer u).Holds _
        by_cases hut : u = t
        · subst hut
          rw [Ring.goes_self]
          refine ⟨rfl, hi.ordered, ?_, hfree, trivial⟩
          show (s.reserved ++ [r])[s.reserved.length]? = some r
          simp
        · rw [Ring.goes_of_ne _ hut]
          refine (hi.producers u).transfer ?_ ?_ ?_
          · exact List.prefix_append _ _
          · exact le_rfl
          · intro stage' r' position' q hupc
            exact ⟨(hi.fills hupc).2.1, rfl⟩
      · intro u u' q hq hq'
        rcases hfilling u q hq with ⟨hu, hql⟩ | ⟨_, hq⟩
        · rcases hfilling u' q hq' with ⟨hu', _⟩ | ⟨_, hq'⟩
          · rw [hu, hu']
          · exact absurd (hold q ⟨u', hq'⟩) (by omega)
        · rcases hfilling u' q hq' with ⟨_, hql⟩ | ⟨_, hq'⟩
          · exact absurd (hold q ⟨u, hq⟩) (by omega)
          · exact hi.apart u u' q hq hq'
      · refine hi.consumer.transfer ?_ ?_ ?_
        · exact List.prefix_append _ _
        · rfl
        · exact id
      · show List.Forall₂ _ s.taken ((s.reserved ++ [r]).take s.taken.length)
        rw [List.take_append_of_le_length hi.ordered]
        exact hi.taken
      · exact hi.refusals
      · exact hi.misses
    · rw [if_neg hwon, Option.some.injEq] at hstep
      subst hstep
      exact hi.atPosition t r

end Preservation

/-- The consumer has looked at the oldest cell. -/
theorem Inv.oldest {s : Ring T} (hi : Inv s) :
    (s.at s.taken.length).count = s.taken.length ∨
      s.taken.length < s.reserved.length ∧
        (s.at s.taken.length).count = s.taken.length + 1 ∧
          ∃ r, s.reserved[s.taken.length]? = some r ∧ (s.at s.taken.length).entry.Carries r := by
  by_cases hlt : s.taken.length < s.reserved.length
  · have hget := List.getElem?_eq_getElem hlt
    rcases hi.busy _ _ le_rfl hget with hcount | ⟨hcount, hcarries⟩
    · exact .inl hcount
    · exact .inr ⟨hlt, hcount, _, hget, hcarries⟩
  · have hpos : 0 < kErrorRingCount := by decide
    exact .inl (hi.free _ (by omega) (by omega))

/-- The comparison of `take` is exact. -/
theorem Inv.take_iff {s : Ring T} (hi : Inv s) :
    (s.entries (cell s.dequeuePos)).sequence - (s.dequeuePos + 1) = 0 ↔
      (s.at s.taken.length).count = s.taken.length + 1 := by
  have hseq : (s.entries (cell s.dequeuePos)).sequence =
      UInt32.ofNat (s.at s.taken.length).count := by
    rw [hi.dequeue]
    exact hi.sequences s.taken.length
  have hnext : s.dequeuePos + 1 = UInt32.ofNat (s.taken.length + 1) := by
    rw [hi.dequeue, UInt32.ofNat_add]
    rfl
  rw [hseq, hnext]
  constructor
  · intro hzero
    rcases hi.oldest with hcount | ⟨_, hcount, _⟩
    · have hback := UInt32.sub_add_cancel (UInt32.ofNat (s.at s.taken.length).count)
        (UInt32.ofNat (s.taken.length + 1))
      rw [hzero, UInt32.zero_add, hcount] at hback
      have := Wrap.eq_of_ofNat_eq hback (Nat.le_succ _) (by omega)
      omega
    · exact hcount
  · intro hcount
    rw [hcount, UInt32.sub_self]

/-- The consumer gives the oldest cell to the position one round later. -/
theorem Inv.release {s : Ring T} (hi : Inv s) {entry : ErrorEntry}
    (hpc : s.consumer = .release entry) :
    Inv { s.put s.dequeuePos
        { s.entries (cell s.dequeuePos) with
          sequence := s.dequeuePos + UInt32.ofNat kErrorRingCount
          count := s.taken.length + kErrorRingCount } with
      dequeuePos := s.dequeuePos + 1, consumer := .idle, taken := s.taken ++ [entry] } := by
  have hc := hi.consumer
  rw [hpc] at hc
  obtain ⟨hlt, hpublished, r, hget, hcarries⟩ := hc
  have hbound := hi.bound
  have hlen : (s.taken ++ [entry]).length = s.taken.length + 1 := by simp
  obtain ⟨slot, hslot⟩ : ∃ slot : ErrorSlot, slot =
      { s.entries (cell s.dequeuePos) with
        sequence := s.dequeuePos + UInt32.ofNat kErrorRingCount
        count := s.taken.length + kErrorRingCount } := ⟨_, rfl⟩
  rw [← hslot]
  have hcount : slot.count = s.taken.length + kErrorRingCount := by rw [hslot]
  have hsequence : slot.sequence = UInt32.ofNat slot.count := by
    rw [hcount, UInt32.ofNat_add, ← hi.dequeue, hslot]
  have hother : ∀ i, s.taken.length < i → i < s.taken.length + kErrorRingCount →
      (s.put s.dequeuePos slot).at i = s.at i := by
    intro i hi₁ hi₂
    rw [hi.dequeue]
    exact Function.update_of_ne (cell_ne (by omega) (by omega) (by omega)) _ _
  have hround : (s.put s.dequeuePos slot).at (s.taken.length + kErrorRingCount) = slot := by
    have hcell : cell (UInt32.ofNat (s.taken.length + kErrorRingCount)) = cell s.dequeuePos := by
      rw [hi.dequeue, cell_eq_iff, Nat.add_mod_right]
    show Function.update s.entries _ slot _ = slot
    rw [hcell, Function.update_self]
  constructor
  · exact hi.enqueue
  · show s.dequeuePos + 1 = UInt32.ofNat (s.taken ++ [entry]).length
    rw [hlen, UInt32.ofNat_add, hi.dequeue]
    rfl
  · show (s.taken ++ [entry]).length ≤ s.reserved.length
    omega
  · show s.reserved.length ≤ (s.taken ++ [entry]).length + kErrorRingCount
    omega
  · exact hi.sequences_put s.dequeuePos hsequence
  · intro i hfree hroom
    show ((s.put s.dequeuePos slot).at i).count = i
    have hfree' : s.reserved.length ≤ i := hfree
    have hroom' : i < (s.taken ++ [entry]).length + kErrorRingCount := hroom
    by_cases hlast : i = s.taken.length + kErrorRingCount
    · rw [hlast, hround]
      exact hcount
    · rw [hother i (by omega) (by omega)]
      exact hi.free i hfree (by omega)
  · intro i r' hlow hget'
    have hlow' : (s.taken ++ [entry]).length ≤ i := hlow
    have hbelow : i < s.reserved.length := (List.getElem?_eq_some_iff.mp hget').1
    show ((s.put s.dequeuePos slot).at i).count = i ∨
      ((s.put s.dequeuePos slot).at i).count = i + 1 ∧
        ((s.put s.dequeuePos slot).at i).entry.Carries r'
    rw [hother i (by omega) (by omega)]
    exact hi.busy i r' (by omega) hget'
  · intro u
    refine (hi.producers u).transfer ?_ ?_ ?_
    · exact List.prefix_rfl
    · show s.taken.length ≤ (s.taken ++ [entry]).length
      omega
    · intro stage' r' position' q hupc
      obtain ⟨_, hlow', _, hlt', hcount', _⟩ := hi.fills hupc
      have hne : q ≠ s.taken.length := by
        intro heq
        rw [heq, hpublished] at hcount'
        omega
      refine ⟨?_, hother q (by omega) (by omega)⟩
      show (s.taken ++ [entry]).length ≤ q
      omega
  · exact hi.apart
  · trivial
  · show List.Forall₂ _ (s.taken ++ [entry]) (s.reserved.take (s.taken ++ [entry]).length)
    rw [hlen, List.take_add_one, hget]
    exact List.rel_append hi.taken (.cons hcarries .nil)
  · exact hi.refusals
  · exact hi.misses

theorem Inv.consume {s s' : Ring T} (hi : Inv s) (hstep : s.consume = some s') : Inv s' := by
  have hc := hi.consumer
  unfold Ring.consume at hstep
  cases hpc : s.consumer with
  | idle => simp [hpc] at hstep
  | copy =>
    simp only [hpc, Option.some.injEq] at hstep
    rw [hpc] at hc
    subst hstep
    rcases hi.oldest with hcount | ⟨_, _, r, hget, hcarries⟩
    · have := hc.2
      omega
    · refine { hi with producers := hi.producers, consumer := ⟨hc.1, hc.2, r, hget, ?_⟩ }
      rw [hi.dequeue]
      exact hcarries
  | release entry =>
    simp only [hpc, Option.some.injEq] at hstep
    subst hstep
    exact hi.release hpc

section Runs

variable [DecidableEq T]

theorem Inv.step {s s' : Ring T} {l : Label T} (hi : Inv s) (htimely : s.Timely l)
    (hstep : s.step l = some s') : Inv s' := by
  cases l with
  | push t r =>
    simp only [Ring.step] at hstep
    split at hstep
    · obtain rfl := Option.some.inj hstep
      exact hi.atPosition t r
    · cases hstep
  | produce t => exact hi.produce htimely hstep
  | reserve t spurious => exact hi.reserve htimely hstep
  | take =>
    simp only [Ring.step] at hstep
    split at hstep
    · split at hstep
      · rename_i hmiss
        obtain rfl := Option.some.inj hstep
        refine { hi with producers := hi.producers, consumer := hi.consumer, misses := ?_ }
        intro published hpublished
        rw [List.mem_append, List.mem_singleton] at hpublished
        rcases hpublished with hpublished | rfl
        · exact hi.misses published hpublished
        · apply decide_eq_false
          intro hcount
          rw [hi.dequeue] at hcount
          exact hmiss (hi.take_iff.mpr hcount)
      · rename_i htake
        obtain rfl := Option.some.inj hstep
        have hcount := hi.take_iff.mp (not_not.mp htake)
        rcases hi.oldest with hsame | ⟨hlt, _, _⟩
        · omega
        · exact { hi with producers := hi.producers, consumer := ⟨hlt, hcount⟩ }
    · cases hstep
  | consume => exact hi.consume hstep

theorem inv_reach {s : Ring T} (h : ReachUnder (machine T) Ring.Timely s) : Inv s :=
  h.invariant inv_init fun _ _ _ hi htimely hstep => hi.step htimely hstep

/-- In a run whose producers are timely the error ring is a bounded queue. -/
theorem error_ring_queue {s : Ring T} (h : ReachUnder (machine T) Ring.Timely s) : s.Queue :=
  have hi := inv_reach h
  { taken := hi.taken, refusals := hi.refusals, misses := hi.misses }

/-- A push reserves the next position when the ring has room. -/
theorem reach_reserve {s : Ring T} (h : ReachUnder (machine T) Ring.Timely s) {t : T}
    (hidle : s.producer t = .idle)
    (hroom : s.reserved.length < s.taken.length + kErrorRingCount) (r : Report) :
    ∃ s', ReachUnder (machine T) Ring.Timely s' ∧
      s'.producer t = .fill .code r s.enqueuePos s.reserved.length ∧
      (∀ u, u ≠ t → s'.producer u = s.producer u) ∧ s'.consumer = s.consumer ∧
      s'.reserved = s.reserved ++ [r] ∧ s'.taken = s.taken := by
  have hi := inv_reach h
  have hfree : (s.entries (cell s.enqueuePos)).count = s.reserved.length := by
    rw [hi.enqueue]
    exact hi.free _ le_rfl hroom
  have hseq : (s.entries (cell s.enqueuePos)).sequence = s.enqueuePos := by
    have hsequence := hi.sequences s.reserved.length
    unfold Ring.at at hsequence
    rw [← hi.enqueue, hfree, ← hi.enqueue] at hsequence
    exact hsequence
  have hbegin : (machine T).step s (.push t r) = some (s.atPosition t r) := by
    show s.step (.push t r) = _
    simp only [Ring.step, hidle]
  have hload := ReachUnder.step (e := Label.push t r) h trivial hbegin
  have hpc : (s.atPosition t r).producer t = .loadSequence r s.enqueuePos s.reserved.length :=
    Ring.goes_self ..
  have hcompare : (machine T).step (s.atPosition t r) (.produce t) =
      some ((s.atPosition t r).goes t (.reserve r s.enqueuePos s.reserved.length)) := by
    show (s.atPosition t r).produce t = _
    unfold Ring.produce
    rw [hpc]
    show some (Ring.compare _ _ _ _ _) = _
    unfold Ring.compare
    have hzero : (s.entries (cell s.enqueuePos)).sequence - s.enqueuePos = 0 := by
      rw [hseq, UInt32.sub_self]
    exact congrArg some (if_pos hzero)
  have htimely : (s.atPosition t r).Timely (.produce t) := by
    simp only [Ring.Timely, hpc]
    show (s.entries (cell s.enqueuePos)).count < _
    omega
  have hlook := ReachUnder.step hload htimely hcompare
  have hpc' : ((s.atPosition t r).goes t (.reserve r s.enqueuePos s.reserved.length)).producer t =
      .reserve r s.enqueuePos s.reserved.length :=
    Ring.goes_self ..
  have hexchange : (machine T).step
      ((s.atPosition t r).goes t (.reserve r s.enqueuePos s.reserved.length))
      (.reserve t false) =
      some { ((s.atPosition t r).goes t (.reserve r s.enqueuePos s.reserved.length)).goes t
          (.fill .code r s.enqueuePos s.reserved.length) with
        enqueuePos := s.enqueuePos + 1, reserved := s.reserved ++ [r] } := by
    show Ring.reserve _ t false = _
    unfold Ring.reserve
    rw [hpc']
    exact if_pos ⟨rfl, rfl⟩
  have htimely' : ((s.atPosition t r).goes t
      (.reserve r s.enqueuePos s.reserved.length)).Timely (.reserve t false) := by
    simp only [Ring.Timely, hpc']
    show s.reserved.length < _
    omega
  refine ⟨_, .step hlook htimely' hexchange, Ring.goes_self .., fun u hut => ?_, rfl, rfl, rfl⟩
  show (((s.atPosition t r).goes t _).goes t _).producer u = _
  rw [Ring.goes_of_ne _ hut, Ring.goes_of_ne _ hut]
  exact Ring.goes_of_ne s hut _

/-- The stores of a push run through to the sequence number. -/
theorem reach_fill (stage : Stage) {s : Ring T} (h : ReachUnder (machine T) Ring.Timely s)
    {t : T} {r : Report} {position : UInt32} {p : Nat}
    (hpc : s.producer t = .fill stage r position p) :
    ∃ s', ReachUnder (machine T) Ring.Timely s' ∧ s'.producer t = .idle ∧
      (∀ u, u ≠ t → s'.producer u = s.producer u) ∧ s'.consumer = s.consumer ∧
      s'.reserved = s.reserved ∧ s'.taken = s.taken ∧ (s'.at p).count = p + 1 := by
  -- One store, then the stores behind it.
  have hstore : ∀ (stage : Stage) {s : Ring T}, ReachUnder (machine T) Ring.Timely s →
      s.producer t = .fill stage r position p → stage ≠ .sequence →
      ∃ s', ReachUnder (machine T) Ring.Timely s' ∧
        s'.producer t = .fill stage.next r position p ∧
        (∀ u, u ≠ t → s'.producer u = s.producer u) ∧ s'.consumer = s.consumer ∧
        s'.reserved = s.reserved ∧ s'.taken = s.taken := by
    intro stage s h hpc hstage
    have hstep : (machine T).step s (.produce t) =
        some ((s.put position
          { s.entries (cell position) with
            entry := stage.store r (s.entries (cell position)).entry }).goes t
              (.fill stage.next r position p)) := by
      show s.produce t = _
      unfold Ring.produce
      rw [hpc]
      cases stage with
      | code => rfl
      | source => rfl
      | text => rfl
      | terminator => rfl
      | sequence => exact absurd rfl hstage
    have htimely : s.Timely (.produce t) := by
      simp only [Ring.Timely, hpc]
    exact ⟨_, .step h htimely hstep, Ring.goes_self .., fun u hut => Ring.goes_of_ne _ hut _,
      rfl, rfl, rfl⟩
  have hlast : ∀ {s : Ring T}, ReachUnder (machine T) Ring.Timely s →
      s.producer t = .fill .sequence r position p →
      ∃ s', ReachUnder (machine T) Ring.Timely s' ∧ s'.producer t = .idle ∧
        (∀ u, u ≠ t → s'.producer u = s.producer u) ∧ s'.consumer = s.consumer ∧
        s'.reserved = s.reserved ∧ s'.taken = s.taken ∧ (s'.at p).count = p + 1 := by
    intro s h hpc
    have hstep : (machine T).step s (.produce t) =
        some ((s.put position
          { s.entries (cell position) with
            sequence := position + 1, count := p + 1 }).goes t .idle) := by
      show s.produce t = _
      unfold Ring.produce
      rw [hpc]
    have htimely : s.Timely (.produce t) := by
      simp only [Ring.Timely, hpc]
    refine ⟨_, .step h htimely hstep, Ring.goes_self .., fun u hut => Ring.goes_of_ne _ hut _,
      rfl, rfl, rfl, ?_⟩
    have hposition := ((inv_reach h).fills hpc).1
    show (Function.update s.entries (cell position) _ (cell (UInt32.ofNat p))).count = p + 1
    rw [hposition, Function.update_self]
  have hmore : ∀ (stage : Stage), stage ≠ .sequence →
      (∀ {s : Ring T}, ReachUnder (machine T) Ring.Timely s →
        s.producer t = .fill stage.next r position p →
        ∃ s', ReachUnder (machine T) Ring.Timely s' ∧ s'.producer t = .idle ∧
          (∀ u, u ≠ t → s'.producer u = s.producer u) ∧ s'.consumer = s.consumer ∧
          s'.reserved = s.reserved ∧ s'.taken = s.taken ∧ (s'.at p).count = p + 1) →
      ∀ {s : Ring T}, ReachUnder (machine T) Ring.Timely s →
        s.producer t = .fill stage r position p →
        ∃ s', ReachUnder (machine T) Ring.Timely s' ∧ s'.producer t = .idle ∧
          (∀ u, u ≠ t → s'.producer u = s.producer u) ∧ s'.consumer = s.consumer ∧
          s'.reserved = s.reserved ∧ s'.taken = s.taken ∧ (s'.at p).count = p + 1 := by
    intro stage hstage hrest s h hpc
    obtain ⟨s₁, h₁, hpc₁, hprod₁, hcons₁, hres₁, htak₁⟩ := hstore stage h hpc hstage
    obtain ⟨s₂, h₂, hpc₂, hprod₂, hcons₂, hres₂, htak₂, hcount⟩ := hrest h₁ hpc₁
    exact ⟨s₂, h₂, hpc₂, fun u hut => (hprod₂ u hut).trans (hprod₁ u hut),
      hcons₂.trans hcons₁, hres₂.trans hres₁, htak₂.trans htak₁, hcount⟩
  cases stage with
  | code =>
    exact hmore .code (by decide) (hmore .source (by decide) (hmore .text (by decide)
      (hmore .terminator (by decide) hlast))) h hpc
  | source =>
    exact hmore .source (by decide) (hmore .text (by decide)
      (hmore .terminator (by decide) hlast)) h hpc
  | text => exact hmore .text (by decide) (hmore .terminator (by decide) hlast) h hpc
  | terminator => exact hmore .terminator (by decide) hlast h hpc
  | sequence => exact hlast h hpc

/-- A take hands out the oldest entry when it is there. -/
theorem reach_take {s : Ring T} (h : ReachUnder (machine T) Ring.Timely s)
    (hidle : s.consumer = .idle)
    (hcount : (s.at s.taken.length).count = s.taken.length + 1) :
    ∃ s', ReachUnder (machine T) Ring.Timely s' ∧ s'.producer = s.producer ∧
      s'.consumer = .idle ∧ s'.reserved = s.reserved ∧
      s'.taken.length = s.taken.length + 1 := by
  have hlook : (machine T).step s .take = some { s with consumer := .copy } := by
    show s.step .take = _
    simp only [Ring.step, hidle]
    exact if_neg (not_not.mpr ((inv_reach h).take_iff.mpr hcount))
  have hcopy := ReachUnder.step (e := Label.take) h trivial hlook
  have hread := ReachUnder.step (e := Label.consume) hcopy trivial rfl
  have hgive := ReachUnder.step (e := Label.consume) hread trivial rfl
  exact ⟨_, hgive, rfl, rfl, rfl, by simp⟩

end Runs

/-- One producer has loaded position 0 and sleeps while `k` reports pass through. -/
theorem reach_asleep (k : Nat) :
    ∃ s : Ring Bool, ReachUnder (machine Bool) Ring.Timely s ∧
      s.producer false = .loadSequence ⟨0, 0, []⟩ 0 0 ∧ s.producer true = .idle ∧
      s.consumer = .idle ∧ s.reserved.length = k ∧ s.taken.length = k := by
  induction k with
  | zero =>
    exact ⟨_, .step (e := .push false ⟨0, 0, []⟩) .init trivial rfl, rfl, rfl, rfl, rfl, rfl⟩
  | succ k ih =>
    obtain ⟨s, h, hsleep, hidle, hcons, hres, htak⟩ := ih
    have hpos : 0 < kErrorRingCount := by decide
    obtain ⟨s₁, h₁, hpc₁, hprod₁, hcons₁, hres₁, htak₁⟩ :=
      reach_reserve h hidle (by omega) ⟨1, 0, []⟩
    obtain ⟨s₂, h₂, hpc₂, hprod₂, hcons₂, hres₂, htak₂, hcount₂⟩ := reach_fill .code h₁ hpc₁
    have hlen₂ : s₂.taken.length = k := by rw [htak₂, htak₁, htak]
    have hcount₂' : (s₂.at s₂.taken.length).count = s₂.taken.length + 1 := by
      rw [hlen₂, ← hres]
      exact hcount₂
    obtain ⟨s₃, h₃, hprod₃, hcons₃, hres₃, htak₃⟩ :=
      reach_take h₂ (by rw [hcons₂, hcons₁, hcons]) hcount₂'
    refine ⟨s₃, h₃, ?_, ?_, hcons₃, ?_, ?_⟩
    · rw [hprod₃, hprod₂ false (by decide), hprod₁ false (by decide), hsleep]
    · rw [hprod₃, hpc₂]
    · rw [hres₃, hres₂, hres₁, List.length_append, List.length_singleton, hres]
    · rw [htak₃, hlen₂]

/-- A push that slept while the counters went half way round is refused by an empty
ring. -/
theorem sleeper_is_refused :
    ∃ s : Ring Bool, Reach (machine Bool) s ∧ ¬ s.Queue := by
  obtain ⟨s, h, hsleep, _, _, hres, htak⟩ := reach_asleep (2 ^ 31)
  have hi := inv_reach h
  have hcount : (s.at (2 ^ 31)).count = 2 ^ 31 := by
    have hpos : 0 < kErrorRingCount := by decide
    exact hi.free _ hres.le (by omega)
  have hseq : (s.entries (cell 0)).sequence = UInt32.ofNat (2 ^ 31) := by
    have hcell : cell 0 = cell (UInt32.ofNat (2 ^ 31)) := by decide
    have hsequence := hi.sequences (2 ^ 31)
    rw [hcount] at hsequence
    rw [hcell]
    exact hsequence
  have hrefuse : (machine Bool).step s (.produce false) =
      some { s.goes false .idle with
        dropped := s.dropped + 1
        refusals := s.refusals ++ [s.reserved.length - s.taken.length] } := by
    show s.produce false = _
    unfold Ring.produce
    rw [hsleep]
    show some (Ring.compare _ _ _ _ _) = _
    unfold Ring.compare
    dsimp only
    rw [hseq]
    rfl
  refine ⟨_, .step h.reach trivial hrefuse, fun hqueue => ?_⟩
  have hfull := hqueue.refusals (s.reserved.length - s.taken.length) (by simp)
  rw [hres, htak] at hfull
  exact absurd hfull (by decide)

/-- A report that goes through the ring. -/
theorem error_ring_queue_once :
    ∃ s : Ring Bool, s.reserved.length = 1 ∧ s.taken.length = 1 ∧ s.Queue := by
  obtain ⟨s, h, _, _, _, hres, htak⟩ := reach_asleep 1
  exact ⟨s, hres, htak, error_ring_queue h⟩

end Xcom.ErrorRing
