import Xcom.Config.RoundTrip

/-!
# Saving the configuration

`M.save` writes a sibling file and renames it over the configuration.  Where no rename
lands, the last fallback leaves nothing at the path and the whole text in the sibling file.
-/

namespace Xcom.Config

/-- The configuration file and its sibling, by content. -/
structure Disk where
  path : Option Bytes
  tmp : Option Bytes
  deriving DecidableEq, Repr

/-- The outcomes of `fs_path.rename`: the atomic replace, and the rename of the C runtime it
falls back to. -/
structure RenameOutcome where
  moveFileEx : Bool
  osRename : Bool
  deriving DecidableEq, Repr

/-- The outcomes of the file operations of one save.  A write is buffered: `flushed` bytes
are on the disk where the write or the close fails. -/
structure SaveOutcome where
  opened : Bool
  wrote : Bool
  closed : Bool
  flushed : Nat
  removedTmp : Bool
  first : RenameOutcome
  removed : Bool
  second : RenameOutcome
  deriving DecidableEq, Repr

/-- `fs_path.rename` of the sibling file to the path. -/
def rename (o : RenameOutcome) (d : Disk) : Bool × Disk :=
  match d.tmp with
  | none => (false, d)
  | some text =>
    if o.moveFileEx ∨ o.osRename then (true, { path := some text, tmp := none })
    else (false, d)

/-- What the sibling file holds once it is closed. -/
def writtenText (o : SaveOutcome) (text : Bytes) : Bytes :=
  if o.wrote ∧ o.closed then text else text.take o.flushed

/-- The end of `M.save`: the atomic rename, or else a remove and a second rename. -/
def replaceConfig (o : SaveOutcome) (d : Disk) : Bool × Disk :=
  let renamed := rename o.first d
  if renamed.1 then (true, renamed.2)
  else
    let d := if o.removed then { renamed.2 with path := none } else renamed.2
    rename o.second d

/-- `M.save`.  The result of the close is not looked at. -/
def save {N : Type} (numbers : Numbers N) (o : SaveOutcome) (d : Disk) (data : Data N) :
    Bool × Disk :=
  if ¬ o.opened then (false, d)
  else
    let d := { d with tmp := some (writtenText o (serialize numbers data)) }
    if ¬ o.wrote then (false, if o.removedTmp then { d with tmp := none } else d)
    else replaceConfig o d

/-- A rename that succeeds moves the sibling file to the path, one that fails does nothing. -/
theorem rename_cases (o : RenameOutcome) (path : Option Bytes) (text : Bytes) :
    rename o ⟨path, some text⟩ = (true, ⟨some text, none⟩) ∨
      rename o ⟨path, some text⟩ = (false, ⟨path, some text⟩) := by
  unfold rename
  by_cases h : o.moveFileEx ∨ o.osRename
  · exact .inl (if_pos h)
  · exact .inr (if_neg h)

/-- Nothing is at the path: both renames failed, the remove between them did not, and the
sibling file has the whole text. -/
def Stranded (o : SaveOutcome) (d : Disk) (text : Bytes) : Prop :=
  d = ⟨none, some text⟩ ∧ o.removed = true ∧
    (∀ path, (rename o.first ⟨path, some text⟩).1 = false) ∧
    (rename o.second ⟨none, some text⟩).1 = false

/-- The outcome of a save is one the next start can live with. -/
def SavedWhole (o : SaveOutcome) (old : Option Bytes) (text : Bytes) (r : Bool × Disk) : Prop :=
  (r.2.path = old ∨ r.2.path = some text ∨ Stranded o r.2 text) ∧
    (r.1 = true → r.2.path = some text)

theorem rename_fails {o : RenameOutcome} {path : Option Bytes} {text : Bytes}
    (h : rename o ⟨path, some text⟩ = (false, ⟨path, some text⟩)) (path' : Option Bytes) :
    (rename o ⟨path', some text⟩).1 = false := by
  unfold rename at h ⊢
  by_cases hdone : o.moveFileEx ∨ o.osRename
  · simp only [if_pos hdone] at h
    cases congrArg Prod.fst h
  · simp only [if_neg hdone]

/-- The whole text in the sibling file. -/
theorem replaceConfig_whole (o : SaveOutcome) (old : Option Bytes) (text : Bytes) :
    SavedWhole o old text (replaceConfig o ⟨old, some text⟩) := by
  unfold replaceConfig
  rcases rename_cases o.first old text with hfirst | hfirst
  · rw [hfirst]
    exact ⟨.inr (.inl rfl), fun _ => rfl⟩
  · rw [hfirst]
    simp only [Bool.false_eq_true, if_false]
    by_cases hremoved : o.removed = true
    · rw [if_pos hremoved]
      rcases rename_cases o.second none text with hsecond | hsecond
      · rw [hsecond]
        exact ⟨.inr (.inl rfl), fun _ => rfl⟩
      · rw [hsecond]
        refine ⟨.inr (.inr ⟨rfl, hremoved, rename_fails hfirst, ?_⟩), fun h => ?_⟩
        · exact congrArg Prod.fst hsecond
        · cases h
    · rw [if_neg hremoved]
      rcases rename_cases o.second old text with hsecond | hsecond
      · rw [hsecond]
        exact ⟨.inr (.inl rfl), fun _ => rfl⟩
      · rw [hsecond]
        exact ⟨.inl rfl, fun h => by cases h⟩

/-- When the close of a written sibling file succeeds, the path holds its old content or
the whole new text, or nothing where both renames failed and the remove between them did
not, and then the sibling file holds the whole text.  A save reported as done has the new
text at the path. -/
theorem save_whole {N : Type} (numbers : Numbers N) (d : Disk) (data : Data N)
    {o : SaveOutcome} (hclose : o.opened = true → o.wrote = true → o.closed = true) :
    SavedWhole o d.path (serialize numbers data) (save numbers o d data) := by
  unfold save
  by_cases hopened : o.opened = true
  · rw [if_neg (not_not.mpr hopened)]
    by_cases hwrote : o.wrote = true
    · have htext : writtenText o (serialize numbers data) = serialize numbers data := by
        rw [writtenText, if_pos ⟨hwrote, hclose hopened hwrote⟩]
      simp only [htext, if_neg (not_not.mpr hwrote)]
      exact replaceConfig_whole o d.path _
    · simp only [if_pos hwrote]
      refine ⟨.inl ?_, fun h => by cases h⟩
      split <;> rfl
  · rw [if_pos hopened]
    exact ⟨.inl rfl, fun h => by cases h⟩

/-- The atomic rename fails and the fallback lands. -/
theorem save_whole_fallback :
    SavedWhole ⟨true, true, true, 0, true, ⟨false, false⟩, true, ⟨false, true⟩⟩ (some [0x61])
      (serialize integerNumbers sampleData)
      (save integerNumbers ⟨true, true, true, 0, true, ⟨false, false⟩, true, ⟨false, true⟩⟩
        ⟨some [0x61], none⟩ sampleData) :=
  save_whole integerNumbers ⟨some [0x61], none⟩ sampleData fun _ _ => rfl

/-- Both renames fail and the remove does not: the path holds neither the old content nor
the new text. -/
theorem save_stranded :
    (save integerNumbers ⟨true, true, true, 0, true, ⟨false, false⟩, true, ⟨false, false⟩⟩
      ⟨some [0x61], none⟩ sampleData).2.path = none :=
  rfl

end Xcom.Config
