import Mathlib.Logic.Function.Basic
import Xcom.Foundation.FixedPool
import Xcom.Transition.Machine
import Xcom.Transition.Wrap

/-!
# The lock-free free list of the fixed pool

`FixedPool::allocate` and `release`, one shared access a step, for any number of
threads.  The free list is linked through the blocks themselves, so whoever owns a
block may overwrite its link; the head carries a tag that every exchange moves on.
The list follows the one-step pool of `FixedPool` as long as the tag of a loaded head
has not come round again before its compare-exchange.
-/

namespace Xcom.TaggedPool

open Transition

/-- `kEmpty`. -/
def kEmpty : UInt32 := 0xFFFFFFFF

/-- A block count that passes the static assertions. -/
abbrev BlockCount := { n : Nat // 0 < n ∧ n < kEmpty.toNat }

/-- The two halves of the 64-bit head. -/
structure Head where
  index : UInt32
  tag : UInt32
  deriving DecidableEq, Repr

/-- Where a thread stands.  `loadedAt`, the number of head changes when the thread
loaded its head, is history. -/
inductive Pc (n : BlockCount)
  | idle
  | allocLoadNext (head : Head) (loadedAt : Nat)
  | allocExchange (head : Head) (next : UInt32) (loadedAt : Nat)
  | releaseLoad (b : Fin n.1)
  | releaseStoreNext (b : Fin n.1) (head : Head) (loadedAt : Nat)
  | releaseExchange (b : Fin n.1) (head : Head) (loadedAt : Nat)

/-- The index of a block. -/
def index {n : BlockCount} (b : Fin n.1) : UInt32 := UInt32.ofNat b.1

/-- The block of an index; `none` fails the assertion of `block_ptr`. -/
def block? {n : BlockCount} (i : UInt32) : Option (Fin n.1) :=
  if h : i.toNat < n.1 then some ⟨i.toNat, h⟩ else none

/-- The links as the constructor stores them. -/
def initialNext (n : BlockCount) (i : UInt32) : UInt32 :=
  if i.toNat + 1 < n.1 then i + 1 else kEmpty

/-- The pool shared by the threads of `T`.  `owned` are the blocks in the hands of
callers.  `releasing`, `pool`, `changes` and `nulls` are history: the blocks inside a
`release`, the one-step pool that every successful exchange moves on, the number of
head changes, and for every null result how many blocks that pool had left when the
head was loaded. -/
structure Pool (n : BlockCount) (T : Type) where
  head : Head := ⟨0, 0⟩
  next : UInt32 → UInt32 := initialNext n
  pc : T → Pc n := fun _ => .idle
  owned : List (Fin n.1) := []
  releasing : List (Fin n.1) := []
  pool : FixedPool n.1 := {}
  changes : Nat := 0
  nulls : List Nat := []

/-- What a thread does next.  A weak compare-exchange may fail for no reason;
`overwrite` is an owner writing to the block it holds. -/
inductive Label (n : BlockCount) (T : Type)
  | allocate (t : T)
  | loadNext (t : T)
  | exchange (t : T) (spurious : Bool)
  | release (t : T) (b : Fin n.1)
  | loadHead (t : T)
  | storeNext (t : T)
  | overwrite (b : Fin n.1) (v : UInt32)

variable {n : BlockCount} {T : Type}

section Steps

variable [DecidableEq T]

namespace Pool

/-- A thread goes on at `pc`. -/
def goes (s : Pool n T) (t : T) (pc : Pc n) : Pool n T :=
  { s with pc := Function.update s.pc t pc }

/-- `allocate` has loaded the head: the list is empty, or it reads the link. -/
def allocLoaded (s : Pool n T) (t : T) : Pool n T :=
  if s.head.index = kEmpty then
    { s.goes t .idle with nulls := s.nulls ++ [s.pool.free.length] }
  else s.goes t (.allocLoadNext s.head s.changes)

/-- The exchange of `allocate` has succeeded. -/
def taken (s : Pool n T) (t : T) (b : Fin n.1) (next : UInt32) : Pool n T :=
  { s.goes t .idle with
    head := ⟨next, s.head.tag + 1⟩
    owned := b :: s.owned
    pool := (s.pool.allocate.map Prod.snd).getD s.pool
    changes := s.changes + 1 }

/-- The exchange of `release` has succeeded. -/
def given (s : Pool n T) (t : T) (b : Fin n.1) : Pool n T :=
  { s.goes t .idle with
    head := ⟨index b, s.head.tag + 1⟩
    releasing := s.releasing.erase b
    pool := s.pool.release b
    changes := s.changes + 1 }

/-- One shared access. -/
def step (s : Pool n T) : Label n T → Option (Pool n T)
  | .allocate t =>
    match s.pc t with
    | .idle => some (s.allocLoaded t)
    | _ => none
  | .loadNext t =>
    match s.pc t with
    | .allocLoadNext head loadedAt =>
      some (s.goes t (.allocExchange head (s.next head.index) loadedAt))
    | _ => none
  | .exchange t spurious =>
    match s.pc t with
    | .allocExchange head next _ =>
      if s.head = head ∧ spurious = false then
        (block? head.index).map fun b => s.taken t b next
      else some (s.allocLoaded t)
    | .releaseExchange b head _ =>
      if s.head = head ∧ spurious = false then some (s.given t b)
      else some (s.goes t (.releaseStoreNext b s.head s.changes))
    | _ => none
  | .release t b =>
    match s.pc t with
    | .idle =>
      if b ∈ s.owned then
        some { s.goes t (.releaseLoad b) with
          owned := s.owned.erase b, releasing := b :: s.releasing }
      else none
    | _ => none
  | .loadHead t =>
    match s.pc t with
    | .releaseLoad b => some (s.goes t (.releaseStoreNext b s.head s.changes))
    | _ => none
  | .storeNext t =>
    match s.pc t with
    | .releaseStoreNext b head loadedAt =>
      some { s.goes t (.releaseExchange b head loadedAt) with
        next := Function.update s.next (index b) head.index }
    | _ => none
  | .overwrite b v =>
    if b ∈ s.owned then some { s with next := Function.update s.next (index b) v } else none

/-- Fewer than `2 ^ 32` head changes fall between the load of a head and its
compare-exchange. -/
def Fresh (s : Pool n T) : Label n T → Prop
  | .exchange t _ =>
    match s.pc t with
    | .allocExchange _ _ loadedAt | .releaseExchange _ _ loadedAt =>
      s.changes < loadedAt + 2 ^ 32
    | _ => True
  | _ => True

end Pool

/-- The pool and its threads. -/
def machine (n : BlockCount) (T : Type) [DecidableEq T] : Machine (Pool n T) (Label n T) :=
  ⟨{}, Pool.step⟩

@[simp] theorem Pool.goes_self (s : Pool n T) (t : T) (pc : Pc n) : (s.goes t pc).pc t = pc :=
  Function.update_self ..

theorem Pool.goes_of_ne (s : Pool n T) {t u : T} (hut : u ≠ t) (pc : Pc n) :
    (s.goes t pc).pc u = s.pc u :=
  Function.update_of_ne hut ..

end Steps

/-- The blocks that are reached from an index through the links, up to `kEmpty`. -/
def Chain (next : UInt32 → UInt32) : UInt32 → List (Fin n.1) → Prop
  | start, [] => start = kEmpty
  | start, b :: bs => start = index b ∧ Chain next (next (index b)) bs

/-- The block a thread is releasing. -/
def Pc.block? : Pc n → Option (Fin n.1)
  | .releaseLoad b | .releaseStoreNext b _ _ | .releaseExchange b _ _ => some b
  | _ => none

/-- A head that was loaded at `loadedAt`: it is the current one unless the head has
changed since. -/
structure Loaded (s : Pool n T) (head : Head) (loadedAt : Nat) : Prop where
  tag : head.tag = UInt32.ofNat loadedAt
  past : loadedAt ≤ s.changes
  current : loadedAt = s.changes → head = s.head

/-- What a thread knows.  The link that `allocate` has read is the current one unless
the head has changed since; the link that `release` has stored is there. -/
def Pc.Holds (s : Pool n T) : Pc n → Prop
  | .idle | .releaseLoad _ => True
  | .allocLoadNext head loadedAt => Loaded s head loadedAt ∧ head.index ≠ kEmpty
  | .allocExchange head next loadedAt =>
    Loaded s head loadedAt ∧ head.index ≠ kEmpty ∧
      (loadedAt = s.changes → next = s.next head.index)
  | .releaseStoreNext _ head loadedAt => Loaded s head loadedAt
  | .releaseExchange b head loadedAt =>
    Loaded s head loadedAt ∧ s.next (index b) = head.index

/-- The invariant of the pool. -/
structure Inv (s : Pool n T) : Prop where
  tag : s.head.tag = UInt32.ofNat s.changes
  chain : Chain s.next s.head.index s.pool.free
  conserves : s.pool.Conserves (s.owned ++ s.releasing)
  pcs : ∀ t, (s.pc t).Holds s
  apart : ∀ t t' b, (s.pc t).block? = some b → (s.pc t').block? = some b → t = t'
  releasing : ∀ t b, (s.pc t).block? = some b → b ∈ s.releasing
  nulls : ∀ k ∈ s.nulls, k = 0

theorem toNat_index (b : Fin n.1) : (index b).toNat = b.1 := by
  apply UInt32.toNat_ofNat_of_lt'
  exact lt_trans b.2 (lt_trans n.2.2 kEmpty.toNat_lt)

theorem index_inj {b c : Fin n.1} (h : index b = index c) : b = c := by
  have hnat := congrArg UInt32.toNat h
  rw [toNat_index, toNat_index] at hnat
  exact Fin.ext hnat

theorem index_ne_empty (b : Fin n.1) : index b ≠ kEmpty := by
  intro h
  have hnat := congrArg UInt32.toNat h
  rw [toNat_index] at hnat
  have hlt := lt_trans b.2 n.2.2
  omega

theorem block?_index (b : Fin n.1) : block? (index b) = some b := by
  unfold block?
  rw [dif_pos (by rw [toNat_index]; exact b.2)]
  exact congrArg some (Fin.ext (toNat_index b))

/-- A write to a block off the list leaves the list alone. -/
theorem Chain.update {next : UInt32 → UInt32} {start : UInt32} {bs : List (Fin n.1)}
    (h : Chain next start bs) {b : Fin n.1} (hb : b ∉ bs) (v : UInt32) :
    Chain (Function.update next (index b) v) start bs := by
  induction bs generalizing start with
  | nil => exact h
  | cons c bs ih =>
    refine ⟨h.1, ?_⟩
    have hne : index c ≠ index b := by
      intro heq
      exact hb (List.mem_cons.mpr (.inl (index_inj heq).symm))
    rw [Function.update_of_ne hne]
    exact ih h.2 fun hmem => hb (List.mem_cons_of_mem _ hmem)

/-- The list is empty exactly when its first index is `kEmpty`. -/
theorem Chain.nil_iff {next : UInt32 → UInt32} {start : UInt32} {bs : List (Fin n.1)}
    (h : Chain next start bs) : start = kEmpty ↔ bs = [] := by
  cases bs with
  | nil => exact iff_of_true h rfl
  | cons b bs =>
    refine iff_of_false ?_ (List.cons_ne_nil b bs)
    rw [h.1]
    exact index_ne_empty b

/-- The constructor links the blocks in order. -/
theorem chain_init (n : BlockCount) :
    Chain (initialNext n) 0 (List.finRange n.1) := by
  have hlt := lt_trans n.2.2 kEmpty.toNat_lt
  -- From any block on the links run through the rest of the blocks.
  have hfrom : ∀ k, k ≤ n.1 → Chain (initialNext n)
      (if n.1 - k < n.1 then UInt32.ofNat (n.1 - k) else kEmpty)
      ((List.finRange n.1).drop (n.1 - k)) := by
    intro k hk
    induction k with
    | zero =>
      rw [Nat.sub_zero, if_neg (lt_irrefl _), List.drop_of_length_le (by simp)]
      exact rfl
    | succ k ih =>
      have hblock : n.1 - (k + 1) < n.1 := by omega
      have hnext : n.1 - (k + 1) + 1 = n.1 - k := by omega
      have hget : n.1 - (k + 1) < (List.finRange n.1).length := by
        rw [List.length_finRange]
        exact hblock
      rw [if_pos hblock, List.drop_eq_getElem_cons hget, hnext]
      refine ⟨by simp [index], ?_⟩
      have hlink : initialNext n (index (List.finRange n.1)[n.1 - (k + 1)]) =
          if n.1 - k < n.1 then UInt32.ofNat (n.1 - k) else kEmpty := by
        unfold initialNext
        rw [toNat_index]
        simp only [List.getElem_finRange, Fin.val_cast, hnext]
        by_cases hlast : n.1 - k < n.1
        · rw [if_pos hlast, if_pos hlast, ← hnext]
          simp [index, UInt32.ofNat_add]
        · rw [if_neg hlast, if_neg hlast]
      rw [hlink]
      exact ih (by omega)
  have hall := hfrom n.1 le_rfl
  rw [Nat.sub_self, if_pos n.2.1] at hall
  exact hall

theorem inv_init [DecidableEq T] : Inv (machine n T).init where
  tag := rfl
  chain := chain_init n
  conserves := FixedPool.conserves_init
  pcs := fun _ => trivial
  apart := fun _ _ _ h => by cases h
  releasing := fun _ _ h => by cases h
  nulls := fun _ h => by cases h

/-- Before the head moves on, what the threads know stays true. -/
theorem Loaded.keep {s s' : Pool n T} {head : Head} {loadedAt : Nat}
    (h : Loaded s head loadedAt) (hhead : s'.head = s.head) (hchanges : s'.changes = s.changes) :
    Loaded s' head loadedAt where
  tag := h.tag
  past := hchanges ▸ h.past
  current := by
    rw [hhead, hchanges]
    exact h.current

/-- A head that was loaded before the head moved on is an old one. -/
theorem Loaded.old {s s' : Pool n T} {head : Head} {loadedAt : Nat}
    (h : Loaded s head loadedAt) (hchanges : s'.changes = s.changes + 1) :
    Loaded s' head loadedAt where
  tag := h.tag
  past := by
    have := h.past
    omega
  current := by
    have := h.past
    omega

/-- The head as it is loaded now. -/
theorem Inv.loaded {s : Pool n T} (hi : Inv s) : Loaded s s.head s.changes :=
  ⟨hi.tag, le_rfl, fun _ => rfl⟩

/-- A loaded head whose tag has not come round is the current one only if the head has
not changed since. -/
theorem Inv.unchanged {s : Pool n T} (hi : Inv s) {head : Head} {loadedAt : Nat}
    (h : Loaded s head loadedAt) (heq : s.head = head) (hfresh : s.changes < loadedAt + 2 ^ 32) :
    loadedAt = s.changes := by
  have htag : UInt32.ofNat s.changes = UInt32.ofNat loadedAt := by
    rw [← hi.tag, heq, h.tag]
  exact (Wrap.eq_of_ofNat_eq htag h.past hfresh).symm

/-- What a thread knows survives a step that leaves the head and the links it has read
or written alone. -/
theorem Pc.Holds.keep {s s' : Pool n T} {pc : Pc n} (h : pc.Holds s)
    (hhead : s'.head = s.head) (hchanges : s'.changes = s.changes)
    (hfirst : s.head.index ≠ kEmpty → s'.next s.head.index = s.next s.head.index)
    (hown : ∀ b, pc.block? = some b → s'.next (index b) = s.next (index b)) : pc.Holds s' := by
  cases pc with
  | idle => trivial
  | allocLoadNext head loadedAt => exact ⟨h.1.keep hhead hchanges, h.2⟩
  | allocExchange head next loadedAt =>
    refine ⟨h.1.keep hhead hchanges, h.2.1, fun hnow => ?_⟩
    rw [hchanges] at hnow
    have hcurrent := h.1.current hnow
    rw [h.2.2 hnow, hcurrent, hfirst (hcurrent ▸ h.2.1)]
  | releaseLoad b => trivial
  | releaseStoreNext b head loadedAt => exact Loaded.keep h hhead hchanges
  | releaseExchange b head loadedAt =>
    exact ⟨h.1.keep hhead hchanges, by rw [hown b rfl]; exact h.2⟩

/-- What a thread knows when the head has moved on and the links are the same. -/
theorem Pc.Holds.old {s s' : Pool n T} {pc : Pc n} (h : pc.Holds s)
    (hchanges : s'.changes = s.changes + 1) (hnext : s'.next = s.next) : pc.Holds s' := by
  cases pc with
  | idle => trivial
  | allocLoadNext head loadedAt => exact ⟨h.1.old hchanges, h.2⟩
  | allocExchange head next loadedAt =>
    refine ⟨h.1.old hchanges, h.2.1, fun hnow => ?_⟩
    have hpast := h.1.past
    omega
  | releaseLoad b => trivial
  | releaseStoreNext b head loadedAt => exact Loaded.old h hchanges
  | releaseExchange b head loadedAt =>
    refine ⟨h.1.old hchanges, ?_⟩
    rw [hnext]
    exact h.2

/-- A block that a caller gives to `release` is not released by anybody else. -/
theorem Inv.releasing_not_owned {s : Pool n T} (hi : Inv s) {b : Fin n.1} (hb : b ∈ s.owned)
    (t : T) : (s.pc t).block? ≠ some b := by
  intro hblock
  exact List.disjoint_of_nodup_append hi.conserves.nodup hb (hi.releasing t b hblock)

/-- A block in somebody's hands is not on the free list. -/
theorem Inv.not_free {s : Pool n T} (hi : Inv s) {b : Fin n.1}
    (hb : b ∈ s.owned ∨ b ∈ s.releasing) : b ∉ s.pool.free :=
  hi.conserves.not_free (List.mem_append.mpr hb)

/-- A write to the link of a block off the free list, which no other thread is
releasing. -/
theorem Inv.write {s : Pool n T} (hi : Inv s) {b : Fin n.1} (hb : b ∉ s.pool.free)
    (hother : ∀ t, (s.pc t).block? ≠ some b ∨ ∃ head loadedAt,
      s.pc t = .releaseStoreNext b head loadedAt) (v : UInt32) :
    Inv { s with next := Function.update s.next (index b) v } := by
  refine { hi with chain := hi.chain.update hb v, pcs := fun t => ?_ }
  have hfirst : s.head.index ≠ kEmpty →
      Function.update s.next (index b) v s.head.index = s.next s.head.index := by
    intro hne
    apply Function.update_of_ne
    intro heq
    have hchain := hi.chain
    cases hfree : s.pool.free with
    | nil =>
      rw [hfree] at hchain
      exact hne hchain
    | cons c bs =>
      rw [hfree] at hchain
      apply hb
      rw [hfree, ← index_inj (hchain.1.symm.trans heq)]
      exact List.mem_cons_self
  rcases hother t with hne | ⟨head, loadedAt, hpc⟩
  · refine (hi.pcs t).keep rfl rfl hfirst fun c hc => Function.update_of_ne ?_ _ _
    intro heq
    rw [index_inj heq] at hc
    exact hne hc
  · have hholds := hi.pcs t
    show (s.pc t).Holds _
    rw [hpc] at hholds ⊢
    exact Loaded.keep hholds rfl rfl

variable [DecidableEq T]

/-- A thread goes on while everything else stays. -/
theorem Inv.goes {s : Pool n T} (hi : Inv s) (t : T) {pc : Pc n} (hpc : pc.Holds s)
    (hblock : ∀ b, pc.block? = some b → (s.pc t).block? = some b) : Inv (s.goes t pc) := by
  have hblocks : ∀ u b, ((s.goes t pc).pc u).block? = some b → (s.pc u).block? = some b := by
    intro u b hb
    by_cases hut : u = t
    · subst hut
      rw [Pool.goes_self] at hb
      exact hblock b hb
    · rw [Pool.goes_of_ne _ hut] at hb
      exact hb
  refine { hi with pcs := fun u => ?_, apart := ?_, releasing := ?_ }
  · by_cases hut : u = t
    · subst hut
      show ((s.goes u pc).pc u).Holds (s.goes u pc)
      rw [Pool.goes_self]
      exact hpc.keep rfl rfl (fun _ => rfl) (fun _ _ => rfl)
    · show ((s.goes t pc).pc u).Holds (s.goes t pc)
      rw [Pool.goes_of_ne _ hut]
      exact (hi.pcs u).keep rfl rfl (fun _ => rfl) (fun _ _ => rfl)
  · exact fun u u' b hb hb' => hi.apart u u' b (hblocks u b hb) (hblocks u' b hb')
  · exact fun u b hb => hi.releasing u b (hblocks u b hb)

/-- A load of the head by `allocate`. -/
theorem Inv.allocLoaded {s : Pool n T} (hi : Inv s) (t : T) : Inv (s.allocLoaded t) := by
  unfold Pool.allocLoaded
  by_cases hempty : s.head.index = kEmpty
  · rw [if_pos hempty]
    have hidle : Inv (s.goes t .idle) := hi.goes t trivial fun _ h => by cases h
    refine ⟨hi.tag, hi.chain, hi.conserves, fun u => ?_, hidle.apart, hidle.releasing, ?_⟩
    · exact (hidle.pcs u).keep rfl rfl (fun _ => rfl) (fun _ _ => rfl)
    intro k hk
    rw [List.mem_append, List.mem_singleton] at hk
    rcases hk with hk | rfl
    · exact hi.nulls k hk
    · rw [hi.chain.nil_iff.mp hempty]
      rfl
  · rw [if_neg hempty]
    exact hi.goes t ⟨hi.loaded, hempty⟩ fun _ h => by cases h

/-- The exchange of `allocate` takes the first block of the free list. -/
theorem Inv.taken {s : Pool n T} (hi : Inv s) {t : T} {head : Head} {next : UInt32}
    {loadedAt : Nat} {b : Fin n.1} (hpc : s.pc t = .allocExchange head next loadedAt)
    (heq : s.head = head) (hfresh : s.changes < loadedAt + 2 ^ 32)
    (hb : TaggedPool.block? head.index = some b) : Inv (s.taken t b next) := by
  have hholds := hi.pcs t
  rw [hpc] at hholds
  obtain ⟨hloaded, hne, hnext⟩ := hholds
  have hnow := hi.unchanged hloaded heq hfresh
  have hchain := hi.chain
  have hconserves := hi.conserves
  cases hfree : s.pool.free with
  | nil =>
    rw [hfree] at hchain
    exact absurd (heq ▸ hchain : head.index = kEmpty) hne
  | cons c bs =>
    rw [hfree, heq] at hchain
    have hcb : c = b := by
      rw [hchain.1, block?_index] at hb
      exact Option.some.inj hb
    subst hcb
    have halloc : s.pool.allocate = some (c, ⟨bs⟩) := by
      unfold FixedPool.allocate
      rw [hfree]
    have hpool : (s.taken t c next).pool = ⟨bs⟩ := by
      simp [Pool.taken, halloc]
    have hblock : (s.pc t).block? = none := by
      rw [hpc]
      rfl
    have hidle : Inv (s.goes t .idle) := hi.goes t trivial fun _ h => by cases h
    constructor
    · show s.head.tag + 1 = UInt32.ofNat (s.changes + 1)
      rw [hi.tag, UInt32.ofNat_add]
      rfl
    · rw [hpool]
      show Chain s.next next bs
      rw [hnext hnow, hchain.1]
      exact hchain.2
    · rw [hpool]
      exact hconserves.allocate halloc
    · intro u
      exact (hidle.pcs u).old rfl rfl
    · exact hidle.apart
    · exact hidle.releasing
    · exact hi.nulls

/-- The exchange of `release` puts the block in front of the free list. -/
theorem Inv.given {s : Pool n T} (hi : Inv s) {t : T} {head : Head} {loadedAt : Nat}
    {b : Fin n.1} (hpc : s.pc t = .releaseExchange b head loadedAt) (heq : s.head = head) :
    Inv (s.given t b) := by
  have hholds := hi.pcs t
  rw [hpc] at hholds
  have hmem : b ∈ s.releasing := hi.releasing t b (by rw [hpc]; rfl)
  have hidle : Inv (s.goes t .idle) := hi.goes t trivial fun _ h => by cases h
  have hother : ∀ u c, ((s.goes t .idle).pc u).block? = some c → c ≠ b := by
    intro u c hc hcb
    subst hcb
    by_cases hut : u = t
    · subst hut
      rw [Pool.goes_self] at hc
      cases hc
    · rw [Pool.goes_of_ne _ hut] at hc
      exact hut (hi.apart u t c hc (by rw [hpc]; rfl))
  constructor
  · show s.head.tag + 1 = UInt32.ofNat (s.changes + 1)
    rw [hi.tag, UInt32.ofNat_add]
    rfl
  · refine ⟨rfl, ?_⟩
    show Chain s.next (s.next (index b)) s.pool.free
    rw [hholds.2, ← heq]
    exact hi.chain
  · have hperm : (b :: (s.owned ++ s.releasing.erase b)).Perm (s.owned ++ s.releasing) :=
      List.perm_middle.symm.trans ((List.perm_cons_erase hmem).symm.append_left _)
    exact (hi.conserves.perm hperm).release
  · intro u
    exact (hidle.pcs u).old rfl rfl
  · exact hidle.apart
  · intro u c hc
    exact (List.mem_erase_of_ne (hother u c hc)).mpr (hidle.releasing u c hc)
  · exact hi.nulls

/-- A caller hands a block to `release`. -/
theorem Inv.begins {s : Pool n T} (hi : Inv s) {t : T} {b : Fin n.1} (hpc : s.pc t = .idle)
    (hb : b ∈ s.owned) :
    Inv { s.goes t (.releaseLoad b) with
      owned := s.owned.erase b, releasing := b :: s.releasing } := by
  have hblocks : ∀ u c, ((s.goes t (.releaseLoad b)).pc u).block? = some c →
      u = t ∧ c = b ∨ u ≠ t ∧ (s.pc u).block? = some c := by
    intro u c hc
    by_cases hut : u = t
    · subst hut
      rw [Pool.goes_self] at hc
      exact .inl ⟨rfl, (Option.some.inj hc).symm⟩
    · rw [Pool.goes_of_ne _ hut] at hc
      exact .inr ⟨hut, hc⟩
  refine { hi with conserves := ?_, pcs := fun u => ?_, apart := ?_, releasing := ?_ }
  · refine hi.conserves.perm (List.perm_middle.trans ?_)
    exact (List.perm_cons_erase hb).symm.append_right s.releasing
  · by_cases hut : u = t
    · subst hut
      show ((s.goes u (.releaseLoad b)).pc u).Holds _
      rw [Pool.goes_self]
      trivial
    · show ((s.goes t (.releaseLoad b)).pc u).Holds _
      rw [Pool.goes_of_ne _ hut]
      exact (hi.pcs u).keep rfl rfl (fun _ => rfl) (fun _ _ => rfl)
  · intro u u' c hc hc'
    rcases hblocks u c hc with ⟨hu, hcb⟩ | ⟨_, hc⟩
    · rcases hblocks u' c hc' with ⟨hu', _⟩ | ⟨_, hc'⟩
      · rw [hu, hu']
      · exact absurd (hcb ▸ hc') (hi.releasing_not_owned hb u')
    · rcases hblocks u' c hc' with ⟨_, hcb⟩ | ⟨_, hc'⟩
      · exact absurd (hcb ▸ hc) (hi.releasing_not_owned hb u)
      · exact hi.apart u u' c hc hc'
  · intro u c hc
    rcases hblocks u c hc with ⟨_, rfl⟩ | ⟨_, hc⟩
    · exact List.mem_cons_self
    · exact List.mem_cons_of_mem _ (hi.releasing u c hc)

theorem Inv.step {s s' : Pool n T} {l : Label n T} (hi : Inv s) (hfresh : s.Fresh l)
    (hstep : s.step l = some s') : Inv s' := by
  cases l with
  | allocate t =>
    cases hpc : s.pc t <;> simp only [Pool.step, hpc, reduceCtorEq, Option.some.injEq] at hstep
    subst hstep
    exact hi.allocLoaded t
  | loadNext t =>
    have hholds := hi.pcs t
    cases hpc : s.pc t <;> simp only [Pool.step, hpc, reduceCtorEq, Option.some.injEq] at hstep
    rw [hpc] at hholds
    subst hstep
    exact hi.goes t ⟨hholds.1, hholds.2, fun _ => rfl⟩ fun _ h => by cases h
  | exchange t spurious =>
    cases hpc : s.pc t <;> simp only [Pool.step, hpc, reduceCtorEq] at hstep
    case allocExchange head next loadedAt =>
      split at hstep
      · rename_i hwon
        obtain ⟨b, hb, rfl⟩ := Option.map_eq_some_iff.mp hstep
        have hclose : s.changes < loadedAt + 2 ^ 32 := by
          simpa only [Pool.Fresh, hpc] using hfresh
        exact hi.taken hpc hwon.1 hclose hb
      · obtain rfl := Option.some.inj hstep
        exact hi.allocLoaded t
    case releaseExchange b head loadedAt =>
      split at hstep
      · rename_i hwon
        obtain rfl := Option.some.inj hstep
        exact hi.given hpc hwon.1
      · obtain rfl := Option.some.inj hstep
        refine hi.goes t hi.loaded fun c hc => ?_
        rw [hpc]
        exact hc
  | release t b =>
    cases hpc : s.pc t <;> simp only [Pool.step, hpc, reduceCtorEq] at hstep
    split at hstep
    · rename_i hb
      obtain rfl := Option.some.inj hstep
      exact hi.begins hpc hb
    · cases hstep
  | loadHead t =>
    cases hpc : s.pc t <;> simp only [Pool.step, hpc, reduceCtorEq, Option.some.injEq] at hstep
    subst hstep
    refine hi.goes t hi.loaded fun c hc => ?_
    rw [hpc]
    exact hc
  | storeNext t =>
    have hholds := hi.pcs t
    cases hpc : s.pc t <;> simp only [Pool.step, hpc, reduceCtorEq, Option.some.injEq] at hstep
    rename_i b head loadedAt
    rw [hpc] at hholds
    subst hstep
    have hblock : (s.pc t).block? = some b := by
      rw [hpc]
      rfl
    have hout : b ∉ s.pool.free := hi.not_free (.inr (hi.releasing t b hblock))
    -- The link is stored first; the thread then knows it.
    have hwrite := hi.write hout (fun u => by
      by_cases hut : u = t
      · subst hut
        exact .inr ⟨head, loadedAt, hpc⟩
      · exact .inl fun hb => hut (hi.apart u t b hb hblock)) head.index
    refine hwrite.goes t ⟨Loaded.keep hholds rfl rfl, Function.update_self _ _ _⟩ fun c hc => ?_
    show (s.pc t).block? = some c
    rw [hblock]
    exact hc
  | overwrite b v =>
    simp only [Pool.step] at hstep
    split at hstep
    · rename_i hb
      obtain rfl := Option.some.inj hstep
      exact hi.write (hi.not_free (.inl hb)) (fun u => .inl (hi.releasing_not_owned hb u)) v
    · cases hstep

theorem inv_reach {s : Pool n T} (h : ReachUnder (machine n T) Pool.Fresh s) : Inv s :=
  h.invariant inv_init fun _ _ _ hi hfresh hstep => hi.step hfresh hstep

end Xcom.TaggedPool
