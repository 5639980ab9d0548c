import Xcom.Foundation.FixedPool

/-!
# Transmit blocks

`TxBlockPool` with the history of its blocks, and the descriptors that carry a block
from one owner to the next.
-/

namespace Xcom.Tx

/-- `kTxBlockCount`. -/
def kTxBlockCount : Nat := 32

/-- `kTxBlockBytes`. -/
def kTxBlockBytes : UInt32 := 4096

/-- A transmit block. -/
abbrev Block := Fin kTxBlockCount

/-- `TxBlockPool`.  What it has handed out and taken back is history. -/
structure TxBlockPool where
  blocks : FixedPool kTxBlockCount := {}
  acquired : List Block := []
  released : List Block := []
  deriving DecidableEq, Repr

/-- `TxDescriptor`. -/
structure TxDescriptor where
  block : Block
  length : UInt16
  generation : UInt32
  deriving DecidableEq, Repr

/-- `AutoTemplateDescriptor`, without a block where the source has 0xFFFF. -/
structure AutoTemplateDescriptor where
  block : Option Block := none
  length : UInt16 := 0
  intervalMs : UInt32 := 0
  deriving DecidableEq, Repr

/-- `SessionWriter::Job`. -/
structure Job where
  block : Block
  len : UInt16
  gen : UInt32
  autoSend : Bool
  deriving DecidableEq, Repr

/-- A descriptor that disables auto-send owns no block. -/
def AutoTemplateDescriptor.held (d : AutoTemplateDescriptor) : List Block :=
  if d.intervalMs = 0 then [] else d.block.toList

/-- The check of `autosend_config_action`. -/
def AutoTemplateDescriptor.valid (d : AutoTemplateDescriptor) : Bool :=
  d.intervalMs = 0 ∨ (d.block.isSome ∧ d.length ≠ 0 ∧ d.length.toUInt32 ≤ kTxBlockBytes)

namespace TxBlockPool

/-- `try_alloc`. -/
def tryAlloc (p : TxBlockPool) : Option (Block × TxBlockPool) :=
  p.blocks.allocate.map fun (b, blocks) =>
    (b, { p with blocks := blocks, acquired := b :: p.acquired })

/-- `release`. -/
def release (p : TxBlockPool) (b : Block) : TxBlockPool :=
  { p with blocks := p.blocks.release b, released := b :: p.released }

/-- The references in `held` are to different blocks, to all that are not free, and are
what has been acquired and not released. -/
structure Holds (p : TxBlockPool) (held : List Block) : Prop where
  conserves : p.blocks.Conserves held
  history : ∀ b, p.acquired.count b = p.released.count b + held.count b

theorem holds_init : Holds {} [] := ⟨FixedPool.conserves_init, fun _ => rfl⟩

theorem Holds.perm {p : TxBlockPool} {held held' : List Block} (h : p.Holds held)
    (hcount : ∀ b, held'.count b = held.count b) : p.Holds held' where
  conserves := h.conserves.perm (List.perm_iff_count.mpr hcount)
  history b := by
    rw [hcount b]
    exact h.history b

theorem Holds.tryAlloc {p p' : TxBlockPool} {held : List Block} {b : Block} (h : p.Holds held)
    (ha : p.tryAlloc = some (b, p')) : p'.Holds (b :: held) := by
  obtain ⟨⟨b', blocks⟩, hallocate, heq⟩ := Option.map_eq_some_iff.mp ha
  cases heq
  constructor
  · exact h.conserves.allocate hallocate
  · intro c
    have hc := h.history c
    simp only [List.count_cons]
    omega

theorem Holds.release {p : TxBlockPool} {held : List Block} {b : Block}
    (h : p.Holds (b :: held)) : (p.release b).Holds held := by
  constructor
  · exact h.conserves.release
  · intro c
    have hc := h.history c
    simp only [TxBlockPool.release, List.count_cons] at hc ⊢
    omega

theorem Holds.count_le {p : TxBlockPool} {held : List Block} (h : p.Holds held) (b : Block) :
    held.count b ≤ 1 :=
  List.nodup_iff_count_le_one.mp h.conserves.nodup b

end TxBlockPool

end Xcom.Tx
