import Xcom.Config.Ini
import Xcom.Transition.Machine
import Mathlib.Data.List.Chain

/-!
# The transcript of a session

`_append_imgui_receive` as the one way into the receive view, `_clear_imgui_view`, and
`_echo_tx`, which shows what was sent among what is received.
-/

namespace Xcom.Receive

open Config (Bytes)

/-- The view and the log, as far as the echo goes.  `rows` is what the view was given since it
was last cleared, each byte with whether it was sent; `echoed` is what was echoed there, and
`logged` what went into the log: the source has neither. -/
structure Transcript where
  rows : List (UInt8 × Bool) := []
  viewTailOpen : Bool := false
  receiveTotal : Nat := 0
  autoClearBytes : Nat := 0
  selecting : Bool := false
  txEcho : Bool := true
  logActive : Bool := false
  log : Bytes := []
  notLogged : Option Int := none
  echoed : List Bytes := []
  logged : List Bytes := []
  deriving DecidableEq, Repr

namespace Transcript

/-- `_clear_imgui_view`. -/
def clearView (t : Transcript) : Transcript :=
  { t with rows := [], viewTailOpen := false, receiveTotal := 0, echoed := [] }

/-- The threshold of the automatic clear, which a drag defers. -/
def clearsNow (t : Transcript) : Bool :=
  0 < t.autoClearBytes && t.autoClearBytes ≤ t.receiveTotal && !t.selecting

/-- The view with more text. -/
def grown (sent : Bool) (text : Bytes) (t : Transcript) : Transcript :=
  { t with
    rows := t.rows ++ text.map (·, sent)
    receiveTotal := t.receiveTotal + text.length
    viewTailOpen := text.getLast? != some 0x0A }

/-- `_append_imgui_receive`, of bytes that were sent or received. -/
def appendReceive (sent : Bool) (text : Bytes) (t : Transcript) : Transcript :=
  if text = [] then t
  else if clearsNow (grown sent text t) then clearView (grown sent text t)
  else grown sent text t

/-- `"TX: "`. -/
def txMark : Bytes := [0x54, 0x58, 0x3A, 0x20]

/-- `display:gsub("\r\n", "\n")`. -/
def foldCrlf : Bytes → Bytes
  | 0x0D :: 0x0A :: rest => 0x0A :: foldCrlf rest
  | b :: rest => b :: foldCrlf rest
  | [] => []

/-- A line feed where there is none at the end. -/
def closeRow (line : Bytes) : Bytes := if line.getLast? = some 0x0A then line else line ++ [0x0A]

/-- The line of an echo in the log. -/
def logLine (payload : Bytes) : Bytes := closeRow (txMark ++ payload)

/-- The row of an echo in the view. -/
def viewRow (payload : Bytes) : Bytes := closeRow (foldCrlf (txMark ++ payload))

/-- The part of `_echo_tx` that writes the log; `xcom.ok` is zero. -/
def appendLog (payload : Bytes) (rc : Int) (t : Transcript) : Transcript :=
  if t.logActive then
    if rc = 0 then { t with log := t.log ++ logLine payload, logged := t.logged ++ [payload] }
    else { t with notLogged := some rc }
  else t

/-- `_echo_tx`, with the answer to the append to the log. -/
def echoTx (payload : Bytes) (rc : Int) (t : Transcript) : Transcript :=
  if !t.txEcho || payload.isEmpty then t
  else
    let fresh := if t.viewTailOpen then appendReceive false [0x0A] t else t
    let shown := appendReceive true (viewRow payload) (appendLog payload rc fresh)
    { shown with echoed := if shown.rows = [] then [] else shown.echoed ++ [payload] }

/-! ## Rows -/

/-- A row of the view was wholly sent or wholly received: bytes of the two kinds only meet
behind a line feed. -/
def RowsApart (rows : List (UInt8 × Bool)) : Prop :=
  rows.IsChain fun a b => a.2 = b.2 ∨ a.1 = 0x0A

/-- What holds of the view between two appends: the rows are apart, the flag tells whether the
last row is open, an open row was received, and the sent bytes are the rows of the echoes. -/
structure Kept (t : Transcript) : Prop where
  apart : RowsApart t.rows
  tail : t.viewTailOpen = true ↔ ∃ b, t.rows.getLast? = some b ∧ b.1 ≠ 0x0A
  received : ∀ b, t.rows.getLast? = some b → b.2 = true → b.1 = 0x0A
  echoes : (t.rows.filter (·.2)).map (·.1) = t.echoed.flatMap viewRow

theorem closeRow_last (line : Bytes) : (closeRow line).getLast? = some 0x0A := by
  unfold closeRow
  split
  · assumption
  · rw [List.getLast?_append, List.getLast?_singleton]
    rfl

theorem closeRow_ne_nil (line : Bytes) : closeRow line ≠ [] := by
  intro hnil
  have hlast := closeRow_last line
  rw [hnil] at hlast
  cases hlast

theorem kept_clearView (t : Transcript) : Kept (clearView t) where
  apart := List.isChain_nil
  tail := by simp [clearView]
  received := by simp [clearView]
  echoes := rfl

theorem rowsApart_map (text : Bytes) (sent : Bool) : RowsApart (text.map (·, sent)) := by
  refine (List.isChain_map _).mpr (List.Pairwise.isChain (List.pairwise_of_forall fun _ _ => ?_))
  exact Or.inl rfl

theorem filter_tag (text : Bytes) (sent : Bool) :
    ((text.map (·, sent)).filter (·.2)).map (·.1) = if sent then text else [] := by
  induction text with
  | nil => cases sent <;> rfl
  | cons b text ih =>
    rw [List.map_cons, List.filter_cons]
    cases sent
    · exact ih
    · exact congrArg (b :: ·) ih

/-- Text that is given to the view, where what was sent stands behind a row and ends its own. -/
theorem Kept.append {t : Transcript} (h : t.Kept) (sent : Bool) {text : Bytes}
    (echo : List Bytes) (htext : text ≠ [])
    (hecho : (if sent then text else []) = echo.flatMap viewRow)
    (hsent : sent = true → t.viewTailOpen = false ∧ text.getLast? = some 0x0A) :
    Kept { grown sent text t with echoed := t.echoed ++ echo } := by
  obtain ⟨b, hb⟩ := Option.isSome_iff_exists.mp (List.getLast?_isSome.mpr htext)
  have hlast : (t.rows ++ text.map (·, sent)).getLast? = some (b, sent) := by
    rw [List.getLast?_append, List.getLast?_map, hb]
    rfl
  refine ⟨?_, ?_, ?_, ?_⟩
  · refine List.isChain_append.mpr ⟨h.apart, rowsApart_map text sent, fun x hx y hy => ?_⟩
    obtain ⟨c, -, rfl⟩ := List.mem_map.mp (List.mem_of_mem_head? hy)
    by_cases hline : x.1 = 0x0A
    · exact Or.inr hline
    · have hopen : t.viewTailOpen = true := h.tail.mpr ⟨x, hx, hline⟩
      have hx2 : x.2 = false := Bool.eq_false_iff.mpr fun hs => hline (h.received x hx hs)
      cases sent with
      | false => exact Or.inl hx2
      | true => exact absurd hopen (by rw [(hsent rfl).1]; decide)
  · show (text.getLast? != some 0x0A) = true ↔
      ∃ c, (t.rows ++ text.map (·, sent)).getLast? = some c ∧ c.1 ≠ 0x0A
    rw [hlast, hb, bne_iff_ne, ne_eq, Option.some.injEq]
    constructor
    · exact fun hne => ⟨_, rfl, hne⟩
    · rintro ⟨c, hc, hne⟩
      rwa [← Option.some.inj hc] at hne
  · intro c hc hs
    obtain rfl : (b, sent) = c := Option.some.inj (hlast.symm.trans hc)
    exact Option.some.inj (hb.symm.trans (hsent hs).2)
  · show ((t.rows ++ text.map (·, sent)).filter (·.2)).map (·.1) = _
    rw [List.filter_append, List.map_append, filter_tag, h.echoes, hecho, List.flatMap_append]

theorem appendReceive_cases (sent : Bool) {text : Bytes} (htext : text ≠ []) (t : Transcript) :
    appendReceive sent text t = clearView (grown sent text t) ∨
      appendReceive sent text t = grown sent text t := by
  unfold appendReceive
  rw [if_neg htext]
  split
  · exact Or.inl rfl
  · exact Or.inr rfl

theorem Kept.appendReceive {t : Transcript} (h : t.Kept) (text : Bytes) :
    (appendReceive false text t).Kept := by
  by_cases htext : text = []
  · unfold Transcript.appendReceive
    rw [if_pos htext]
    exact h
  · have hshown := h.append false [] htext rfl fun hs => by cases hs
    rw [List.append_nil] at hshown
    rcases appendReceive_cases false htext t with hclear | hgrown
    · rw [hclear]
      exact kept_clearView _
    · rw [hgrown]
      exact hshown

theorem kept_appendLog {t : Transcript} (h : t.Kept) (payload : Bytes) (rc : Int) :
    (appendLog payload rc t).Kept ∧ (appendLog payload rc t).viewTailOpen = t.viewTailOpen := by
  unfold appendLog
  split
  · split
    · exact ⟨⟨h.apart, h.tail, h.received, h.echoes⟩, rfl⟩
    · exact ⟨⟨h.apart, h.tail, h.received, h.echoes⟩, rfl⟩
  · exact ⟨h, rfl⟩

/-- Behind the line feed that ends an open row. -/
theorem kept_fresh {t : Transcript} (h : t.Kept) :
    (if t.viewTailOpen then Transcript.appendReceive false [0x0A] t else t).Kept ∧
    (if t.viewTailOpen then Transcript.appendReceive false [0x0A] t else t).viewTailOpen =
      false := by
  split
  · refine ⟨h.appendReceive _, ?_⟩
    rcases appendReceive_cases false (List.cons_ne_nil 0x0A []) t with hclear | hgrown
    · rw [hclear]
      rfl
    · rw [hgrown]
      rfl
  · rename_i hopen
    exact ⟨h, Bool.eq_false_iff.mpr hopen⟩

theorem Kept.echoTx {t : Transcript} (h : t.Kept) (payload : Bytes) (rc : Int) :
    (echoTx payload rc t).Kept := by
  unfold Transcript.echoTx
  split
  · exact h
  · obtain ⟨hfresh, htail⟩ := kept_fresh h
    obtain ⟨hlogged, hsame⟩ := kept_appendLog hfresh payload rc
    dsimp only
    generalize hbefore : appendLog payload rc
      (if t.viewTailOpen then Transcript.appendReceive false [0x0A] t else t) = before at *
    rw [htail] at hsame
    have hrow := closeRow_ne_nil (foldCrlf (txMark ++ payload))
    have hshown := hlogged.append true [payload] hrow
      (by rw [List.flatMap_singleton]; rfl) fun _ => ⟨hsame, closeRow_last _⟩
    have hne : before.rows ++ (viewRow payload).map (·, true) ≠ [] := by
      simp [viewRow, hrow]
    rcases appendReceive_cases true hrow before with hclear | hgrown
    · rw [viewRow, hclear]
      exact kept_clearView (grown true (viewRow payload) before)
    · rw [viewRow, hgrown]
      have hrows : (grown true (closeRow (foldCrlf (txMark ++ payload))) before).rows ≠ [] := hne
      rw [if_neg hrows]
      exact hshown

/-! ## Sessions -/

/-- What happens to the view and the log. -/
inductive Op
  | receive (text : Bytes)
  | clear
  | options (autoClearBytes : Nat)
  | drag (selecting : Bool)
  | logging (active : Bool)
  | sent (payload : Bytes) (rc : Int)
  deriving DecidableEq, Repr

def apply (t : Transcript) : Op → Transcript
  | .receive text => appendReceive false text t
  | .clear => clearView t
  | .options autoClearBytes => { t with autoClearBytes := autoClearBytes }
  | .drag selecting => { t with selecting := selecting }
  | .logging active => { t with logActive := active }
  | .sent payload rc => echoTx payload rc t

def run (t : Transcript) (ops : List Op) : Transcript := ops.foldl apply t

/-- The payloads of a session, in order. -/
def payloads (ops : List Op) : List Bytes :=
  ops.filterMap fun op =>
    match op with
    | .sent payload _ => if payload = [] then none else some payload
    | _ => none

theorem Kept.apply {t : Transcript} (h : t.Kept) (op : Op) : (apply t op).Kept := by
  cases op with
  | receive text => exact h.appendReceive text
  | clear => exact kept_clearView t
  | options autoClearBytes => exact ⟨h.apart, h.tail, h.received, h.echoes⟩
  | drag selecting => exact ⟨h.apart, h.tail, h.received, h.echoes⟩
  | logging active => exact ⟨h.apart, h.tail, h.received, h.echoes⟩
  | sent payload rc => exact h.echoTx payload rc

theorem Kept.run {t : Transcript} (h : t.Kept) (ops : List Op) : (run t ops).Kept := by
  induction ops generalizing t with
  | nil => exact h
  | cons op ops ih => exact ih (h.apply op)

/-- A stretch without a line feed inside is of one kind. -/
theorem one_kind {row : List (UInt8 × Bool)} (h : RowsApart row)
    (hinside : ∀ b ∈ row.dropLast, b.1 ≠ 0x0A) : ∀ b ∈ row, ∀ c ∈ row, b.2 = c.2 := by
  induction row with
  | nil => exact fun b hb => absurd hb List.not_mem_nil
  | cons a row ih =>
    obtain _ | ⟨a', row⟩ := row
    · intro b hb c hc
      rw [List.mem_singleton.mp hb, List.mem_singleton.mp hc]
    · rw [List.dropLast_cons_cons] at hinside
      have hsame : a.2 = a'.2 := by
        rcases (List.isChain_cons_cons.mp h).1 with hkind | hline
        · exact hkind
        · exact absurd hline (hinside a (List.mem_cons_self ..))
      have hrest := ih (List.isChain_cons_cons.mp h).2 fun b hb =>
        hinside b (List.mem_cons_of_mem _ hb)
      have hall : ∀ b ∈ a :: a' :: row, b.2 = a'.2 := by
        intro b hb
        rcases List.mem_cons.mp hb with rfl | hb
        · exact hsame
        · exact hrest b hb a' (List.mem_cons_self ..)
      exact fun b hb c hc => (hall b hb).trans (hall c hc).symm

/-- What holds of the echoes behind payloads that were sent. -/
structure Told (sent : List Bytes) (t : Transcript) : Prop where
  echoed : t.echoed <:+ sent
  log : t.log = t.logged.flatMap logLine
  logged : t.logged.Sublist sent

theorem Told.appendReceive {sent : List Bytes} {t : Transcript} (h : Told sent t) (kind : Bool)
    (text : Bytes) : Told sent (appendReceive kind text t) := by
  by_cases htext : text = []
  · unfold Transcript.appendReceive
    rw [if_pos htext]
    exact h
  · rcases appendReceive_cases kind htext t with hclear | hgrown
    · rw [hclear]
      exact ⟨List.nil_suffix, h.log, h.logged⟩
    · rw [hgrown]
      exact ⟨h.echoed, h.log, h.logged⟩

/-- An echo that is wanted is not skipped. -/
theorem echo_wanted {t : Transcript} {payload : Bytes} (hne : payload ≠ [])
    (hecho : t.txEcho = true) : (!t.txEcho || payload.isEmpty) = false := by
  rw [hecho, Bool.eq_false_iff.mpr (List.isEmpty_iff.not.mpr hne)]
  rfl

/-- The log takes no part in the view. -/
theorem appendLog_same (payload : Bytes) (rc : Int) (t : Transcript) :
    (appendLog payload rc t).echoed = t.echoed ∧ (appendLog payload rc t).txEcho = t.txEcho ∧
      (appendLog payload rc t).autoClearBytes = t.autoClearBytes := by
  unfold appendLog
  split
  · split <;> exact ⟨rfl, rfl, rfl⟩
  · exact ⟨rfl, rfl, rfl⟩

theorem Told.echoTx {sent : List Bytes} {t : Transcript} (h : Told sent t) {payload : Bytes}
    (rc : Int) (hne : payload ≠ []) (hecho : t.txEcho = true) :
    Told (sent ++ [payload]) (echoTx payload rc t) := by
  have hfresh : Told sent
      (if t.viewTailOpen then Transcript.appendReceive false [0x0A] t else t) := by
    split
    · exact h.appendReceive false _
    · exact h
  unfold Transcript.echoTx
  rw [echo_wanted hne hecho, if_neg Bool.false_ne_true]
  dsimp only
  generalize (if t.viewTailOpen then Transcript.appendReceive false [0x0A] t else t) = fresh at *
  have hlogged : (appendLog payload rc fresh).log =
        (appendLog payload rc fresh).logged.flatMap logLine ∧
      (appendLog payload rc fresh).logged.Sublist (sent ++ [payload]) := by
    unfold appendLog
    split
    · split
      · refine ⟨?_, hfresh.logged.append_right [payload]⟩
        rw [List.flatMap_append, ← hfresh.log, List.flatMap_singleton]
      · exact ⟨hfresh.log, hfresh.logged.trans (List.sublist_append_left ..)⟩
    · exact ⟨hfresh.log, hfresh.logged.trans (List.sublist_append_left ..)⟩
  obtain ⟨hlog, hsub⟩ := hlogged
  have hechoed : (appendLog payload rc fresh).echoed <:+ sent :=
    (appendLog_same payload rc fresh).1 ▸ hfresh.echoed
  have hrow := closeRow_ne_nil (foldCrlf (txMark ++ payload))
  rcases appendReceive_cases true hrow (appendLog payload rc fresh) with hclear | hgrown
  · rw [viewRow, hclear]
    exact ⟨List.nil_suffix, hlog, hsub⟩
  · rw [viewRow, hgrown]
    refine ⟨?_, hlog, hsub⟩
    dsimp only
    split
    · exact List.nil_suffix
    · obtain ⟨before, hbefore⟩ := hechoed
      exact ⟨before, by rw [← hbefore, List.append_assoc]; rfl⟩

/-- Options that no step but their own one changes. -/
theorem appendReceive_options (kind : Bool) (text : Bytes) (t : Transcript) :
    (appendReceive kind text t).txEcho = t.txEcho ∧
      (appendReceive kind text t).autoClearBytes = t.autoClearBytes := by
  by_cases htext : text = []
  · unfold appendReceive
    rw [if_pos htext]
    exact ⟨rfl, rfl⟩
  · rcases appendReceive_cases kind htext t with hclear | hgrown
    · rw [hclear]
      exact ⟨rfl, rfl⟩
    · rw [hgrown]
      exact ⟨rfl, rfl⟩

theorem echoTx_options (payload : Bytes) (rc : Int) (t : Transcript) :
    (echoTx payload rc t).txEcho = t.txEcho ∧
      (echoTx payload rc t).autoClearBytes = t.autoClearBytes := by
  have hfresh : (if t.viewTailOpen then appendReceive false [0x0A] t else t).txEcho = t.txEcho ∧
      (if t.viewTailOpen then appendReceive false [0x0A] t else t).autoClearBytes =
        t.autoClearBytes := by
    split
    · exact appendReceive_options false _ t
    · exact ⟨rfl, rfl⟩
  unfold echoTx
  split
  · exact ⟨rfl, rfl⟩
  · have hrow := appendReceive_options true (viewRow payload)
      (appendLog payload rc (if t.viewTailOpen then appendReceive false [0x0A] t else t))
    obtain ⟨-, hecho, hlimit⟩ := appendLog_same payload rc
      (if t.viewTailOpen then appendReceive false [0x0A] t else t)
    exact ⟨hrow.1.trans (hecho.trans hfresh.1), hrow.2.trans (hlimit.trans hfresh.2)⟩

theorem apply_txEcho (t : Transcript) (op : Op) : (apply t op).txEcho = t.txEcho := by
  cases op with
  | receive text => exact (appendReceive_options false text t).1
  | clear | options _ | drag _ | logging _ => rfl
  | sent payload rc => exact (echoTx_options payload rc t).1

theorem payloads_snoc (ops : List Op) (op : Op) :
    payloads (ops ++ [op]) = payloads ops ++ payloads [op] := List.filterMap_append

theorem Told.apply {ops : List Op} {t : Transcript} (h : Told (payloads ops) t)
    (hecho : t.txEcho = true) (op : Op) : Told (payloads (ops ++ [op])) (apply t op) := by
  rw [payloads_snoc]
  cases op with
  | receive text => exact (List.append_nil _).symm ▸ h.appendReceive false text
  | clear => exact (List.append_nil _).symm ▸ ⟨List.nil_suffix, h.log, h.logged⟩
  | options _ | drag _ | logging _ =>
    exact (List.append_nil _).symm ▸ ⟨h.echoed, h.log, h.logged⟩
  | sent payload rc =>
    by_cases hne : payload = []
    · subst hne
      have hsame : Transcript.apply t (.sent [] rc) = t := by
        simp [Transcript.apply, Transcript.echoTx]
      have hnone : payloads [.sent [] rc] = [] := rfl
      rw [hsame, hnone, List.append_nil]
      exact h
    · have hone : payloads [.sent payload rc] = [payload] := by
        simp [payloads, hne]
      rw [hone]
      exact h.echoTx rc hne hecho

theorem run_snoc (t : Transcript) (ops : List Op) (op : Op) :
    run t (ops ++ [op]) = apply (run t ops) op := List.foldl_concat ..

theorem told_run (ops : List Op) : Told (payloads ops) (run {} ops) ∧
    (run {} ops).txEcho = true := by
  induction ops using List.reverseRecOn with
  | nil => exact ⟨⟨List.nil_suffix, rfl, List.Sublist.refl _⟩, rfl⟩
  | append_singleton ops op ih =>
    rw [run_snoc]
    exact ⟨ih.1.apply ih.2 op, (apply_txEcho _ op).trans ih.2⟩

/-- Steps that clear nothing. -/
def KeepsAll (op : Op) : Prop := op ≠ .clear ∧ ∀ n, op ≠ .options (n + 1)

theorem appendReceive_keeps (kind : Bool) (text : Bytes) {t : Transcript}
    (hlimit : t.autoClearBytes = 0) : appendReceive kind text t =
      if text = [] then t else grown kind text t := by
  have hnever : clearsNow (grown kind text t) = false := by
    simp [clearsNow, grown, hlimit]
  unfold appendReceive
  rw [hnever, if_neg Bool.false_ne_true]

theorem echoed_apply {ops : List Op} {t : Transcript} {op : Op} (hkeeps : KeepsAll op)
    (hlimit : t.autoClearBytes = 0) (hecho : t.txEcho = true) (h : t.echoed = payloads ops) :
    (apply t op).echoed = payloads (ops ++ [op]) ∧ (apply t op).autoClearBytes = 0 := by
  rw [payloads_snoc]
  cases op with
  | receive text =>
    refine ⟨?_, (appendReceive_options false text t).2.trans hlimit⟩
    rw [apply, appendReceive_keeps false text hlimit]
    split <;> exact h.trans (List.append_nil _).symm
  | clear => exact absurd rfl hkeeps.1
  | options limit =>
    obtain _ | n := limit
    · exact ⟨h.trans (List.append_nil _).symm, rfl⟩
    · exact absurd rfl (hkeeps.2 n)
  | drag _ | logging _ => exact ⟨h.trans (List.append_nil _).symm, hlimit⟩
  | sent payload rc =>
    refine ⟨?_, (echoTx_options payload rc t).2.trans hlimit⟩
    have hfresh :
        (if t.viewTailOpen then appendReceive false [0x0A] t else t).echoed = t.echoed ∧
        (if t.viewTailOpen then appendReceive false [0x0A] t else t).autoClearBytes = 0 := by
      split
      · rw [appendReceive_keeps false [0x0A] hlimit, if_neg (List.cons_ne_nil _ _)]
        exact ⟨rfl, hlimit⟩
      · exact ⟨rfl, hlimit⟩
    by_cases hne : payload = []
    · subst hne
      have hsame : apply t (.sent [] rc) = t := by simp [apply, echoTx]
      have hnone : payloads [.sent [] rc] = [] := rfl
      rw [hsame, hnone, List.append_nil, h]
    · have hone : payloads [.sent payload rc] = [payload] := by simp [payloads, hne]
      rw [hone, apply, echoTx, echo_wanted hne hecho, if_neg Bool.false_ne_true]
      dsimp only
      generalize (if t.viewTailOpen then appendReceive false [0x0A] t else t) = fresh at hfresh ⊢
      obtain ⟨hechoed, -, hlogLimit⟩ := appendLog_same payload rc fresh
      have hrow : viewRow payload ≠ [] := closeRow_ne_nil _
      have hrows : (grown true (viewRow payload) (appendLog payload rc fresh)).rows ≠ [] := by
        simp [grown, hrow]
      rw [appendReceive_keeps true _ (hlogLimit.trans hfresh.2), if_neg hrow, if_neg hrows, ← h,
        ← hfresh.1, ← hechoed]
      rfl

theorem echoed_run {ops : List Op} (h : ∀ op ∈ ops, KeepsAll op) :
    (run {} ops).echoed = payloads ops ∧ (run {} ops).autoClearBytes = 0 := by
  induction ops using List.reverseRecOn with
  | nil => exact ⟨rfl, rfl⟩
  | append_singleton ops op ih =>
    obtain ⟨hechoed, hlimit⟩ := ih fun o ho => h o (List.mem_append_left _ ho)
    rw [run_snoc]
    exact echoed_apply (h op (by simp)) hlimit (told_run ops).2 hechoed

/-- In every session no row of the view holds both sent and received bytes, the sent ones are the
rows of the last payloads, of all of them where nothing was cleared, and the log is the lines of
payloads that were sent, in order. -/
theorem session_transcript (ops : List Op) :
    (∀ before row behind, (run {} ops).rows = before ++ row ++ behind →
      (∀ b ∈ row.dropLast, b.1 ≠ 0x0A) → ∀ b ∈ row, ∀ c ∈ row, b.2 = c.2) ∧
    ((run {} ops).rows.filter (·.2)).map (·.1) = (run {} ops).echoed.flatMap viewRow ∧
    (run {} ops).echoed <:+ payloads ops ∧
    ((∀ op ∈ ops, KeepsAll op) → (run {} ops).echoed = payloads ops) ∧
    (run {} ops).log = (run {} ops).logged.flatMap logLine ∧
    (run {} ops).logged.Sublist (payloads ops) := by
  have hempty : Kept ({} : Transcript) := kept_clearView {}
  have hkept := hempty.run ops
  obtain ⟨htold, -⟩ := told_run ops
  refine ⟨fun before row behind hrows hinside => ?_, hkept.echoes, htold.echoed,
    fun hkeeps => (echoed_run hkeeps).1, htold.log, htold.logged⟩
  have hapart := hkept.apart
  rw [hrows] at hapart
  have hrow : RowsApart row :=
    hapart.left_of_append.right_of_append
  exact one_kind hrow hinside

end Transcript

end Xcom.Receive
