import Xcom.Pages.Preserved
import Xcom.Text.Recency

/-!
# The history of the send box

`send_history.lua`, the window's use of it and its keys in the configuration: the most recent
commands, without repetition, kept from one start to the next.
-/

namespace Xcom.Tx.SendHistory

open Config (Bytes Value Data Numbers isSpace Readable)
open Pages (LuaNumbers bytes Settings SettingKey Bridge Write applyWrites settingWrites
  saveWrites DoneSave loadConfig)
open Recency

variable {N : Type}

/-! ## The policy -/

/-- `M.DEFAULT_MAX`. -/
def defaultMax : Nat := 64

/-- `is_blank` of a string. -/
def isBlank (text : Bytes) : Bool := text.all isSpace

/-- The cap for `max`; the default where there is none or it is not positive. -/
def cap : Option Int → Nat
  | none => defaultMax
  | some max => if max ≤ 0 then defaultMax else max.toNat

/-- `M.push`. -/
def push (list : List Bytes) (text : Bytes) (max : Option Int) : List Bytes :=
  if isBlank text then list
  else
    let out := text :: list.filter (· ≠ text)
    out.take (cap max)

/-- One turn of the loop of `M.sanitize`. -/
def sanitizeEntry (cap : Nat) (out : List Bytes) (text : Bytes) : List Bytes :=
  if ¬ isBlank text ∧ out.length < cap then
    if out.contains text then out else out ++ [text]
  else out

/-- `M.sanitize`. -/
def sanitize (list : List Bytes) (max : Option Int) : List Bytes :=
  list.foldl (sanitizeEntry (cap max)) []

/-! ## The window -/

/-- The window as far as the history goes; `published` are the calls of `set_send_history`.
A command is remembered only with the bridge there. -/
structure Sender where
  sendHistory : List Bytes
  published : List (List Bytes)
  dirtyMarks : Nat
  deriving DecidableEq, Repr

/-- The history as it is at the start. -/
def Sender.start (list : List Bytes) : Sender where
  sendHistory := sanitize list none
  published := [sanitize list none]
  dirtyMarks := 0

/-- `_remember_send_command`. -/
def Sender.remember (s : Sender) (text : Bytes) : Sender :=
  let nextList := push s.sendHistory text none
  if nextList.length = s.sendHistory.length ∧ nextList.head? = s.sendHistory.head? then s
  else
    { sendHistory := nextList
      published := s.published ++ [nextList]
      dirtyMarks := s.dirtyMarks + 1 }

/-! ## The configuration -/

/-- `[send] history_count`. -/
def countKey : SettingKey := .fixed ⟨32, by decide⟩

/-- The last `config.set` calls of `_save_config`. -/
def historySettings (numbers : Numbers N) (history : List Bytes) :
    List (SettingKey × Option (Value N)) :=
  (countKey, some (.number (numbers.ofInt history.length))) ::
    history.zipIdx.map fun e => (.history e.2, some (.string e.1))

/-- The `config.set` calls of a save, the history last. -/
def saveHistoryWrites (numbers : Numbers N) (settings : Settings N) (b : Bridge N)
    (history : List Bytes) : List (Write N) :=
  saveWrites numbers
    { settings with after := settings.after ++ historySettings numbers history } b

/-- `math.min(math.max(tonumber(v) or 0, 0), 200)`, the number of turns of the loop. -/
def storedCount (numbers : LuaNumbers N) : Option (Value N) → Nat
  | some (.number n) => (min (max (numbers.floor n) 0) 200).toNat
  | some (.string s) =>
    ((numbers.tonumber s).map fun n => (min (max (numbers.floor n) 0) 200).toNat).getD 0
  | _ => 0

/-- An entry that the start takes. -/
def storedEntry : Option (Value N) → Option Bytes
  | some (.string text) => if text = [] then none else some text
  | _ => none

/-- `cfg.send_history`. -/
def loadHistory (numbers : LuaNumbers N) (data : Data N) : List Bytes :=
  (List.range (storedCount numbers (Config.get data countKey.place.1 countKey.place.2))).filterMap
    fun index => storedEntry (Config.get data (SettingKey.history index).place.1
      (SettingKey.history index).place.2)

/-! ## The program -/

/-- The program as far as the history goes.  `commands` are the accepted ones since the
first start, the most recent first. -/
structure Program (N : Type) where
  sender : Sender
  data : Data N
  disk : Config.Disk
  commands : List Bytes

/-- The start with a configuration file. -/
def Program.start (numbers : LuaNumbers N) (disk : Config.Disk) (commands : List Bytes) :
    Program N :=
  let data := loadConfig numbers.toNumbers disk.path
  { sender := Sender.start (loadHistory numbers data), data, disk, commands }

/-- What happens: an accepted command, a save, or the last save and the next start.  The
other settings of a save and what it finds of the pages are any. -/
inductive Op (N : Type)
  | send (text : Bytes)
  | save (settings : Settings N) (bridge : Bridge N) (o : Config.SaveOutcome)
  | restart (settings : Settings N) (bridge : Bridge N) (o : DoneSave)

/-- `_save_config`. -/
def Program.save (numbers : LuaNumbers N) (p : Program N) (settings : Settings N)
    (b : Bridge N) (o : Config.SaveOutcome) : Program N :=
  let data := applyWrites p.data
    (saveHistoryWrites numbers.toNumbers settings b p.sender.sendHistory)
  { p with data, disk := (Config.save numbers.toNumbers o p.disk data).2 }

def Program.apply (numbers : LuaNumbers N) (p : Program N) : Op N → Program N
  | .send text =>
    { p with sender := p.sender.remember text, commands := text :: p.commands }
  | .save settings b o => p.save numbers settings b o
  | .restart settings b o =>
    Program.start numbers (p.save numbers settings b o.1).disk p.commands

/-- A run of the program. -/
def Program.run (numbers : LuaNumbers N) (p : Program N) (ops : List (Op N)) : Program N :=
  ops.foldl (Program.apply numbers) p

/-- What the history should be: the most recent commands that are not blank, each once, and
behind them what was there before. -/
def expected (commands former : List Bytes) : List Bytes :=
  recents defaultMax ((commands ++ former).filter fun text => !isBlank text)

/-! ## The policy as a law -/

theorem cap_pos (max : Option Int) : 0 < cap max := by
  cases max with
  | none => decide
  | some max =>
    by_cases hmax : max ≤ 0
    · rw [cap, if_pos hmax]
      decide
    · rw [cap, if_neg hmax]
      omega

/-- A list that the history can be. -/
structure Kept (list : List Bytes) : Prop where
  nodup : list.Nodup
  length_le : list.length ≤ defaultMax
  noBlank : ∀ text ∈ list, isBlank text = false

theorem Kept.filter {list : List Bytes} (h : Kept list) :
    list.filter (fun text => !isBlank text) = list := by
  apply List.filter_eq_self.mpr
  intro text hmem
  rw [h.noBlank text hmem]
  rfl

theorem kept_recents (items : List Bytes) :
    Kept (recents defaultMax (items.filter fun text => !isBlank text)) where
  nodup := nodup_recents defaultMax _
  length_le := length_recents_le defaultMax _
  noBlank text hmem := by
    have hnot := (List.mem_filter.mp (mem_of_mem_recents hmem)).2
    simpa using hnot

/-- The loop of `sanitize` from what it has put out. -/
theorem foldl_sanitizeEntry {cap : Nat} {out : List Bytes} (hnodup : out.Nodup)
    (hlen : out.length ≤ cap) (list : List Bytes) :
    list.foldl (sanitizeEntry cap) out =
      recents cap (out ++ list.filter fun text => !isBlank text) := by
  induction list generalizing out with
  | nil => rw [List.filter_nil, List.append_nil, recents_of_nodup hnodup hlen, List.foldl_nil]
  | cons text list ih =>
    rw [List.foldl_cons]
    by_cases hblank : isBlank text = true
    · have hskip : sanitizeEntry cap out text = out := by simp [sanitizeEntry, hblank]
      rw [hskip, ih hnodup hlen, List.filter_cons_of_neg (by simp [hblank])]
    · rw [List.filter_cons_of_pos (by simp [hblank])]
      by_cases hroom : out.length < cap
      · by_cases hseen : text ∈ out
        · have hskip : sanitizeEntry cap out text = out := by
            simp [sanitizeEntry, hseen]
          rw [hskip, ih hnodup hlen, recents_append_mem hseen]
        · have hadd : sanitizeEntry cap out text = out ++ [text] := by
            simp [sanitizeEntry, hblank, hroom, hseen]
          have hnodup' : (out ++ [text]).Nodup :=
            List.nodup_append'.mpr ⟨hnodup, List.nodup_singleton text, by simpa using hseen⟩
          have hlen' : (out ++ [text]).length ≤ cap := by
            rw [List.length_append, List.length_singleton]
            omega
          rw [hadd, ih hnodup' hlen', List.append_assoc, List.singleton_append]
      · -- Nothing is added to a full list.
        have hskip : sanitizeEntry cap out text = out := by simp [sanitizeEntry, hroom]
        have hfull : out.length = cap := by omega
        rw [hskip, ih hnodup hlen, recents_append_full hnodup hfull,
          recents_append_full hnodup hfull]

theorem sanitize_eq (list : List Bytes) (max : Option Int) :
    sanitize list max = recents (cap max) (list.filter fun text => !isBlank text) := by
  rw [sanitize, foldl_sanitizeEntry List.nodup_nil (Nat.zero_le _), List.nil_append]

theorem kept_sanitize (list : List Bytes) : Kept (sanitize list none) := by
  rw [sanitize_eq]
  exact kept_recents list

/-- A list the history can be is left as it is. -/
theorem sanitize_kept {list : List Bytes} (h : Kept list) : sanitize list none = list := by
  rw [sanitize_eq, h.filter]
  exact recents_of_nodup h.nodup h.length_le

theorem push_blank {text : Bytes} (h : isBlank text = true) (list : List Bytes)
    (max : Option Int) : push list text max = list := if_pos h

theorem push_command {text : Bytes} (h : isBlank text = false) (list : List Bytes)
    (max : Option Int) : push list text max = moveToFront (cap max) list text :=
  if_neg (by rw [h]; exact Bool.false_ne_true)

/-- A push makes the command the most recent one. -/
theorem push_expected (commands former : List Bytes) (text : Bytes) :
    push (expected commands former) text none = expected (text :: commands) former := by
  unfold expected
  cases hblank : isBlank text with
  | true => rw [push_blank hblank, List.cons_append, List.filter_cons_of_neg (by simp [hblank])]
  | false =>
    rw [push_command hblank, List.cons_append, List.filter_cons_of_pos (by simp [hblank])]
    exact moveToFront_recents 63 _ text

/-- The shortcut of `_remember_send_command`: length and head tell whether anything
changes. -/
theorem shortcut_iff {list : List Bytes} (h : Kept list) (text : Bytes) :
    (push list text none).length = list.length ∧ (push list text none).head? = list.head? ↔
      push list text none = list := by
  constructor
  · rintro ⟨-, hhead⟩
    cases hblank : isBlank text with
    | true => exact push_blank hblank list none
    | false =>
      rw [push_command hblank] at hhead ⊢
      exact (moveToFront_eq_self_iff h.nodup h.length_le (cap_pos none) text).mpr hhead.symm
  · intro heq
    rw [heq]
    exact ⟨rfl, rfl⟩

/-- The history is the pushed one, and it is published where it has changed. -/
theorem remember_spec {s : Sender} (h : Kept s.sendHistory) (text : Bytes) :
    (s.remember text).sendHistory = push s.sendHistory text none ∧
      (s.remember text).published =
        if push s.sendHistory text none = s.sendHistory then s.published
        else s.published ++ [push s.sendHistory text none] := by
  by_cases hsame : push s.sendHistory text none = s.sendHistory
  · have hstay : s.remember text = s := if_pos ((shortcut_iff h text).mpr hsame)
    rw [hstay, if_pos hsame]
    exact ⟨hsame.symm, rfl⟩
  · have hchange : s.remember text =
        { sendHistory := push s.sendHistory text none
          published := s.published ++ [push s.sendHistory text none]
          dirtyMarks := s.dirtyMarks + 1 } :=
      if_neg fun hshort => hsame ((shortcut_iff h text).mp hshort)
    rw [hchange, if_neg hsame]
    exact ⟨rfl, rfl⟩

end Xcom.Tx.SendHistory
