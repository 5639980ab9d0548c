import Xcom.Rx.SimStream

/-!
# The modem of the simulator

What it answers does not depend on how the commands are cut into sends, as long as no line and
no send is longer than its buffer takes.
-/

namespace Xcom.Rx.SimStream

open Config (Bytes)

/-! ## Lines of commands -/

theorem commandLines_cons (held : Bytes) (c : UInt8) (buf : Bytes) :
    commandLines held (c :: buf) =
      if isLineEnd c then (held :: (commandLines [] buf).1, (commandLines [] buf).2)
      else commandLines (held ++ [c]) buf := rfl

theorem commandLines_append (held a b : Bytes) :
    commandLines held (a ++ b) =
      ((commandLines held a).1 ++ (commandLines (commandLines held a).2 b).1,
        (commandLines (commandLines held a).2 b).2) := by
  induction a generalizing held with
  | nil => rfl
  | cons c a ih =>
    rw [List.cons_append, commandLines_cons, commandLines_cons]
    split
    · rw [ih]
      rfl
    · exact ih _

/-- What has begun may as well be read with the text. -/
theorem commandLines_held {held : Bytes} (h : held.all (!isLineEnd ·) = true) (begun buf : Bytes) :
    commandLines begun (held ++ buf) = commandLines (begun ++ held) buf := by
  induction held generalizing begun with
  | nil => rw [List.nil_append, List.append_nil]
  | cons c held ih =>
    rw [List.all_cons, Bool.and_eq_true, Bool.not_eq_true'] at h
    rw [List.cons_append, commandLines_cons, h.1, if_neg Bool.false_ne_true, ih h.2,
      List.append_assoc, List.singleton_append]

theorem commandLines_tail {held : Bytes} (h : held.all (!isLineEnd ·) = true) (buf : Bytes) :
    (commandLines held buf).2.all (!isLineEnd ·) = true := by
  induction buf generalizing held with
  | nil => exact h
  | cons c buf ih =>
    rw [commandLines_cons]
    split
    · exact ih rfl
    · rename_i hc
      refine ih ?_
      rw [List.all_append, h, Bool.true_and]
      simpa using hc

/-- Every line, and the one that has begun, has at most `n` bytes. -/
def LinesFit (n : Nat) (held buf : Bytes) : Prop :=
  (∀ line ∈ (commandLines held buf).1, line.length ≤ n) ∧ (commandLines held buf).2.length ≤ n

/-- A line that has begun is not longer than it will be. -/
theorem LinesFit.held {n : Nat} {held buf : Bytes} (h : LinesFit n held buf) :
    held.length ≤ n := by
  induction buf generalizing held with
  | nil => exact h.2
  | cons c buf ih =>
    unfold LinesFit at h
    rw [commandLines_cons] at h
    split at h
    · exact h.1 held List.mem_cons_self
    · have hmore := ih h
      rw [List.length_append] at hmore
      omega

theorem LinesFit.append {n : Nat} {held a b : Bytes} (h : LinesFit n held (a ++ b)) :
    LinesFit n (commandLines held a).2 b := by
  unfold LinesFit at h ⊢
  rw [commandLines_append] at h
  exact ⟨fun line hline => h.1 line (List.mem_append_right _ hline), h.2⟩

/-! ## Observations -/

namespace Sim

/-- The bytes that one send may bring. -/
def sendMax : Nat := atLineMax * 8 - atLineMax

/-- The replies to a text, without the caps of the buffer. -/
def answer (text : Bytes) (s : Sim) : Sim :=
  { (commandLines s.atBuf text).1.foldl respond s with atBuf := (commandLines s.atBuf text).2 }

/-- A modem at work, whose buffer holds the beginning of a line. -/
structure Modem (s : Sim) : Prop where
  running : s.running = true
  profileName : s.profileName = .atModem
  begun : s.atBuf.all (!isLineEnd ·) = true
  short : s.atBuf.length ≤ atLineMax

theorem foldl_respond_fields (lines : List Bytes) (s : Sim) :
    (lines.foldl respond s).running = s.running ∧
    (lines.foldl respond s).profileName = s.profileName := by
  induction lines generalizing s with
  | nil => exact ⟨rfl, rfl⟩
  | cons line lines ih => exact ih (s.respond line)

/-- Within the caps an observation answers the text. -/
theorem txObserve_eq_answer {s : Sim} (h : s.Modem) {payload : Bytes}
    (hsend : payload.length ≤ sendMax)
    (htail : (commandLines s.atBuf payload).2.length ≤ atLineMax) :
    s.txObserve payload = s.answer payload := by
  unfold txObserve
  rw [h.running, h.profileName]
  by_cases hempty : payload = []
  · subst hempty
    rfl
  · have hskip : (!true || payload.isEmpty) = false := by
      rw [Bool.eq_false_iff.mpr (List.isEmpty_iff.not.mpr hempty)]
      rfl
    have hcap : ¬ atLineMax * 8 < (s.atBuf ++ payload).length := by
      have hshort := h.short
      rw [List.length_append]
      unfold sendMax atLineMax at *
      omega
    have hheld := commandLines_held h.begun [] payload
    rw [List.nil_append] at hheld
    rw [hskip, if_neg Bool.false_ne_true]
    unfold observeModem answer
    dsimp only
    rw [if_neg hcap, hheld, if_neg (Nat.not_lt_of_le htail)]

theorem Modem.answer {s : Sim} (h : s.Modem) {text : Bytes}
    (htail : (commandLines s.atBuf text).2.length ≤ atLineMax) : (s.answer text).Modem := by
  obtain ⟨hrunning, hprofile⟩ := foldl_respond_fields (commandLines s.atBuf text).1 s
  exact ⟨hrunning.trans h.running, hprofile.trans h.profileName, commandLines_tail h.begun text,
    htail⟩

/-- The replies do not read the buffer. -/
theorem foldl_respond_atBuf (lines : List Bytes) (s : Sim) (buf : Bytes) :
    lines.foldl respond { s with atBuf := buf } =
      { lines.foldl respond s with atBuf := buf } := by
  induction lines generalizing s with
  | nil => rfl
  | cons line lines ih => exact ih (s.respond line)

theorem answer_append (s : Sim) (a b : Bytes) : s.answer (a ++ b) = (s.answer a).answer b := by
  have hbuf := foldl_respond_atBuf (commandLines (commandLines s.atBuf a).2 b).1
    ((commandLines s.atBuf a).1.foldl respond s) (commandLines s.atBuf a).2
  unfold answer
  dsimp only
  rw [commandLines_append, List.foldl_append, hbuf]

/-- Sends that fit are one text. -/
theorem foldl_txObserve {s : Sim} (h : s.Modem) (chunks : List Bytes)
    (hsends : ∀ chunk ∈ chunks, chunk.length ≤ sendMax)
    (hfit : LinesFit atLineMax s.atBuf chunks.flatten) :
    chunks.foldl (fun s chunk => s.txObserve chunk) s = s.answer chunks.flatten := by
  induction chunks generalizing s with
  | nil => rfl
  | cons chunk chunks ih =>
    rw [List.flatten_cons] at hfit
    have hrest := hfit.append
    rw [List.foldl_cons, List.flatten_cons, answer_append,
      txObserve_eq_answer h (hsends chunk List.mem_cons_self) hrest.held]
    exact ih (h.answer hrest.held) (fun c hc => hsends c (List.mem_cons_of_mem _ hc)) hrest

/-! ## Runs -/

theorem lastBytes_all {p : UInt8 → Bool} {text : Bytes} (h : text.all p = true) (n : Nat) :
    (lastBytes n text).all p = true :=
  List.all_eq_true.mpr fun c hc => List.all_eq_true.mp h c (List.mem_of_mem_drop hc)

/-- Whatever a modem is sent, the beginning of a line is in its buffer. -/
theorem Modem.apply {platform : Platform} {s : Sim} (h : s.Modem) (op : Op) :
    (s.apply platform op).Modem := by
  cases op with
  | pump budget answers =>
    show (s.pump platform budget answers).Modem
    unfold pump
    rw [if_pos h.running]
    exact ⟨h.running, h.profileName, h.begun, h.short⟩
  | txObserve payload =>
    show (s.txObserve payload).Modem
    unfold txObserve
    split
    · exact h
    · rw [h.profileName]
      show (s.observeModem payload).Modem
      unfold observeModem
      dsimp only
      generalize (if atLineMax * 8 < (s.atBuf ++ payload).length then
        lastBytes (atLineMax * 4) (s.atBuf ++ payload) else s.atBuf ++ payload) = kept
      obtain ⟨hrunning, hprofile⟩ := foldl_respond_fields (commandLines [] kept).1 s
      have htail : (commandLines [] kept).2.all (!isLineEnd ·) = true := commandLines_tail rfl kept
      refine ⟨hrunning.trans h.running, hprofile.trans h.profileName, ?_, ?_⟩
      · dsimp only
        split
        · exact lastBytes_all htail atLineMax
        · exact htail
      · dsimp only
        split
        · unfold lastBytes
          rw [List.length_drop]
          omega
        · rename_i hle
          exact Nat.le_of_not_lt hle

theorem modem_start {s : Sim} (h : s.profileName = .atModem) : (s.start true).Modem :=
  ⟨rfl, h, rfl, Nat.zero_le _⟩

theorem Modem.run {platform : Platform} {s : Sim} (h : s.Modem) (ops : List Op) :
    (s.run platform ops).Modem := by
  induction ops generalizing s with
  | nil => exact h
  | cons op ops ih => exact ih (h.apply op)

/-- Behind any run of the modem, a text of commands is answered alike however it is cut into
sends, where no line is longer than the buffer keeps and no send longer than it takes. -/
theorem replies_ignore_cuts (platform : Platform) {s : Sim} (hprofile : s.profileName = .atModem)
    (ops : List Op) (chunks chunks' : List Bytes) (hsame : chunks.flatten = chunks'.flatten)
    (hsends : ∀ chunk ∈ chunks ++ chunks', chunk.length ≤ sendMax)
    (hfit : LinesFit atLineMax ((s.start true).run platform ops).atBuf chunks.flatten) :
    ((s.start true).run platform ops).run platform (chunks.map .txObserve) =
      ((s.start true).run platform ops).run platform (chunks'.map .txObserve) := by
  have hmodem : ((s.start true).run platform ops).Modem := (modem_start hprofile).run ops
  have hrun : ∀ cs : List Bytes, ((s.start true).run platform ops).run platform
      (cs.map .txObserve) =
        cs.foldl (fun s chunk => s.txObserve chunk) ((s.start true).run platform ops) := by
    intro cs
    exact List.foldl_map
  rw [hrun, hrun, foldl_txObserve hmodem chunks
      (fun c hc => hsends c (List.mem_append_left _ hc)) hfit,
    foldl_txObserve hmodem chunks' (fun c hc => hsends c (List.mem_append_right _ hc))
      (hsame ▸ hfit), hsame]

theorem replies_ignore_cuts_command :
    ((start true { profileName := .atModem }).run passthrough []).run passthrough
        [.txObserve [0x41, 0x54, 0x0D]] =
      ((start true { profileName := .atModem }).run passthrough []).run passthrough
        [.txObserve [0x41], .txObserve [0x54, 0x0D]] :=
  replies_ignore_cuts passthrough rfl [] [[0x41, 0x54, 0x0D]] [[0x41], [0x54, 0x0D]] rfl
    (by decide) ⟨by decide, by decide⟩

end Sim

end Xcom.Rx.SimStream
