import Xcom.Text.LastPart
import Xcom.Transition.Machine

/-!
# The receive tail of the legacy path

Without the incremental DLL the window keeps the drained batches as chunks behind a cursor,
joins them to the previous tail once a frame and pushes the result with its position in the
stream.  Retiring, compacting and a frame that does not run must cost no byte of the tail.
-/

namespace Xcom.Receive.Legacy

/-- `DEFAULT_RECEIVE_CAPACITY`. -/
def defaultReceiveCapacity : Int := 64 * 1024

/-- `RECEIVE_WINDOW_MIN`. -/
def receiveWindowMin : Int := 16 * 1024

/-- `RECEIVE_WINDOW_MAX`. -/
def receiveWindowMax : Int := 1024 * 1024

/-- `clamp_receive_window`. -/
def clampReceiveWindow (bytes : Option Int) : Nat :=
  let n := bytes.getD defaultReceiveCapacity
  let n := if n < receiveWindowMin then receiveWindowMin else n
  let n := if receiveWindowMax < n then receiveWindowMax else n
  n.toNat

/-- The receive part of the bridge: its capacity, and the text and base pushed last. -/
structure Bridge where
  receiveCapacity : Nat
  text : List UInt8 := []
  base : Nat := 0
  deriving DecidableEq, Repr

/-- `set_receive_text`. -/
def Bridge.setReceiveText (b : Bridge) (text : List UInt8) (base : Nat) : Bridge :=
  { b with
    text := text.take (min text.length (b.receiveCapacity - 1))
    base := base }

/-- The receive part of the window.  `stream` records the bytes appended since the last
clear. -/
structure View where
  receiveWindow : Nat
  receive : List UInt8 := []
  chunks : List (List UInt8) := []
  cursor : Nat := 1
  chunkBytes : Nat := 0
  dirty : Bool := false
  total : Nat := 0
  autoClearBytes : Int := 0
  imgui : Option Bridge := none
  stream : List UInt8 := []
  deriving DecidableEq, Repr

/-- The retire loop over the chunks from the cursor on: the last chunk stays. -/
def retire (window : Nat) : List (List UInt8) → Nat → Nat → Nat × Nat
  | chunk :: next :: rest, cursor, chunkBytes =>
    if window < chunkBytes - chunk.length then
      retire window (next :: rest) (cursor + 1) (chunkBytes - chunk.length)
    else (cursor, chunkBytes)
  | _, cursor, chunkBytes => (cursor, chunkBytes)

namespace View

/-- The chunks from the cursor on. -/
def live (v : View) : List (List UInt8) := v.chunks.drop (v.cursor - 1)

/-- `_clear_imgui_view`. -/
def clearImguiView (v : View) : View :=
  { v with
    receive := []
    chunks := []
    cursor := 1
    chunkBytes := 0
    dirty := false
    total := 0
    imgui := v.imgui.map fun b => b.setReceiveText [] 0
    stream := [] }

/-- The legacy branch of `_append_imgui_receive`: keep the batch, retire, compact. -/
def keepChunk (v : View) (text : List UInt8) : View :=
  let chunks := v.chunks ++ [text]
  let r := retire v.receiveWindow (chunks.drop (v.cursor - 1)) v.cursor
    (v.chunkBytes + text.length)
  { v with
    chunks := if 64 < r.1 then chunks.drop (r.1 - 1) else chunks
    cursor := if 64 < r.1 then 1 else r.1
    chunkBytes := r.2
    dirty := true
    total := v.total + text.length
    stream := v.stream ++ text }

/-- `_append_imgui_receive`. -/
def appendImguiReceive (v : View) (text : List UInt8) (dragging : Bool) : View :=
  if text = [] then v
  else
    let v := v.keepChunk text
    let selecting := v.imgui.isSome && dragging
    if 0 < v.autoClearBytes ∧ v.autoClearBytes ≤ v.total ∧ selecting = false then
      v.clearImguiView
    else v

/-- `_flush_imgui_receive`. -/
def flushImguiReceive (v : View) : View × Bool :=
  if v.dirty then
    let combined := v.receive ++ v.live.flatten
    let tail :=
      if v.receiveWindow ≤ combined.length then combined.rtake (v.receiveWindow - 1)
      else combined
    ({ v with receive := tail, chunks := [], cursor := 1, chunkBytes := 0, dirty := false },
      true)
  else (v, false)

/-- The receive part of `render_imgui`. -/
def renderImgui (v : View) : View :=
  match v.imgui with
  | none => v
  | some b =>
    let (v, changed) := v.flushImguiReceive
    if changed then
      { v with imgui := some (b.setReceiveText v.receive (v.total - v.receive.length)) }
    else v

/-- What happens to the view; a frame that does not run is no event. -/
inductive Event
  | append (text : List UInt8) (dragging : Bool)
  | render
  | clear
  | syncDisplay (autoClearBytes : Int)
  | close
  deriving DecidableEq, Repr

def event (v : View) : Event → View
  | .append text dragging => v.appendImguiReceive text dragging
  | .render => v.renderImgui
  | .clear => v.clearImguiView
  | .syncDisplay autoClearBytes => { v with autoClearBytes := autoClearBytes }
  | .close => { v with imgui := none }

/-- The window from its construction on, with or without a bridge. -/
def machine (bytes : Option Int) (bridge : Bool) : Transition.Machine View Event where
  init :=
    { receiveWindow := clampReceiveWindow bytes
      imgui := if bridge then some { receiveCapacity := clampReceiveWindow bytes } else none }
  step v e := some (v.event e)

end View

theorem clampReceiveWindow_pos (bytes : Option Int) : 0 < clampReceiveWindow bytes := by
  have hleast : 0 < receiveWindowMin := by decide
  rw [clampReceiveWindow]
  generalize bytes.getD defaultReceiveCapacity = n
  by_cases hmin : n < receiveWindowMin
  · rw [if_pos hmin]
    decide
  · rw [if_neg hmin]
    by_cases hmax : receiveWindowMax < n
    · rw [if_pos hmax]
      decide
    · rw [if_neg hmax]
      omega

/-! ## The retire loop -/

/-- Retired chunks leave the accounting with their bytes, and what stays decides the tail. -/
theorem retire_spec (window : Nat) (chunks : List (List UInt8)) (cursor : Nat) :
    ∃ k, k ≤ chunks.length ∧
      (retire window chunks cursor chunks.flatten.length).1 = cursor + k ∧
      (retire window chunks cursor chunks.flatten.length).2 = (chunks.drop k).flatten.length ∧
      ∀ front : List UInt8, (front ++ (chunks.drop k).flatten).rtake (window - 1) =
        (front ++ chunks.flatten).rtake (window - 1) := by
  induction chunks generalizing cursor with
  | nil => exact ⟨0, Nat.le_refl 0, rfl, rfl, fun front => rfl⟩
  | cons chunk rest ih =>
    cases rest with
    | nil => exact ⟨0, Nat.zero_le 1, rfl, rfl, fun front => rfl⟩
    | cons next rest =>
      have hleft : (chunk :: next :: rest).flatten.length - chunk.length =
          (next :: rest).flatten.length := by
        rw [List.flatten_cons, List.length_append, Nat.add_sub_cancel_left]
      rw [retire, hleft]
      by_cases hmore : window < (next :: rest).flatten.length
      · obtain ⟨k, hk, hcursor, hbytes, htail⟩ := ih (cursor + 1)
        rw [if_pos hmore]
        refine ⟨k + 1, Nat.succ_le_succ hk, ?_, hbytes, ?_⟩
        · rw [hcursor]
          omega
        · intro front
          have hle : window - 1 ≤ (next :: rest).flatten.length := by omega
          have hsplit : front ++ (chunk :: next :: rest).flatten =
              (front ++ chunk) ++ (next :: rest).flatten := by
            rw [List.flatten_cons, List.append_assoc]
          have hdrop : (chunk :: next :: rest).drop (k + 1) = (next :: rest).drop k := rfl
          rw [hdrop, htail front, hsplit, Text.rtake_append_of_le hle,
            Text.rtake_append_of_le hle]
      · rw [if_neg hmore]
        exact ⟨0, Nat.zero_le _, rfl, rfl, fun front => rfl⟩

/-! ## Every run -/

/-- The bytes of the live chunks are accounted, and with the tail they end as the stream
does; what was pushed last is the tail, unless chunks wait. -/
structure Holds (window : Nat) (v : View) : Prop where
  windowSize : v.receiveWindow = window
  capacity : ∀ b, v.imgui = some b → b.receiveCapacity = window
  first : 1 ≤ v.cursor
  inside : v.cursor ≤ v.chunks.length + 1
  bytes : v.chunkBytes = v.live.flatten.length
  total : v.total = v.stream.length
  size : v.receive.length ≤ window - 1
  tail : (v.receive ++ v.live.flatten).rtake (window - 1) = v.stream.rtake (window - 1)
  clean : v.dirty = false → v.live = []
  shown : v.dirty = false → ∀ b, v.imgui = some b →
    b.text = v.receive ∧ b.base = v.total - v.receive.length

section Steps

variable {window : Nat} {v : View}

theorem Holds.keepChunk (hv : Holds window v) (text : List UInt8) :
    Holds window (v.keepChunk text) := by
  have hfirst := hv.first
  have hinside := hv.inside
  have hlive : (v.chunks ++ [text]).drop (v.cursor - 1) = v.live ++ [text] :=
    List.drop_append_of_le_length (by omega)
  have hbytes : v.chunkBytes + text.length = (v.live ++ [text]).flatten.length := by
    simp [hv.bytes]
  have hlen : (v.live ++ [text]).length = v.chunks.length + 1 - (v.cursor - 1) := by
    rw [← hlive, List.length_drop, List.length_append, List.length_singleton]
  obtain ⟨k, hk, hcursor, hleft, htail⟩ :=
    retire_spec v.receiveWindow (v.live ++ [text]) v.cursor
  rw [← hbytes, ← hlive] at hcursor hleft
  have hrest : (v.keepChunk text).live = (v.live ++ [text]).drop k := by
    have hdrop : (v.chunks ++ [text]).drop (v.cursor + k - 1) = (v.live ++ [text]).drop k := by
      rw [← hlive, List.drop_drop]
      congr 1
      omega
    rw [View.live, View.keepChunk]
    dsimp only
    rw [hcursor]
    by_cases hcompact : 64 < v.cursor + k
    · rw [if_pos hcompact, if_pos hcompact, hdrop]
      rfl
    · rw [if_neg hcompact, if_neg hcompact, hdrop]
  have hend : (v.receive ++ (v.live ++ [text]).flatten).rtake (window - 1) =
      (v.stream ++ text).rtake (window - 1) := by
    rw [List.flatten_append, List.flatten_singleton, ← List.append_assoc]
    exact Text.rtake_append_congr hv.tail
  have hsize : 1 ≤ (v.keepChunk text).cursor ∧
      (v.keepChunk text).cursor ≤ (v.keepChunk text).chunks.length + 1 := by
    rw [View.keepChunk]
    dsimp only
    rw [hcursor]
    by_cases hcompact : 64 < v.cursor + k
    · rw [if_pos hcompact, if_pos hcompact]
      omega
    · rw [if_neg hcompact, if_neg hcompact, List.length_append, List.length_singleton]
      omega
  refine ⟨hv.windowSize, hv.capacity, hsize.1, hsize.2, ?_, ?_, hv.size, ?_, nofun, nofun⟩
  · rw [hrest, ← hlive]
    exact hleft
  · show v.total + text.length = (v.stream ++ text).length
    rw [hv.total, List.length_append]
  · rw [hrest]
    show (v.receive ++ _).rtake (window - 1) = (v.stream ++ text).rtake (window - 1)
    rw [← hend, ← hv.windowSize]
    exact htail v.receive

theorem Holds.clearImguiView (hv : Holds window v) : Holds window v.clearImguiView := by
  have hpushed : ∀ b, v.clearImguiView.imgui = some b →
      b.receiveCapacity = window ∧ b.text = [] ∧ b.base = 0 := by
    intro b hb
    obtain ⟨old, hold, rfl⟩ := Option.map_eq_some_iff.mp hb
    exact ⟨hv.capacity old hold, List.take_nil, rfl⟩
  refine ⟨hv.windowSize, fun b hb => (hpushed b hb).1, Nat.le_refl 1, Nat.le_refl 1, rfl, rfl,
    Nat.zero_le _, rfl, fun _ => rfl, ?_⟩
  intro _ b hb
  exact (hpushed b hb).2

theorem Holds.appendImguiReceive (hv : Holds window v) (text : List UInt8) (dragging : Bool) :
    Holds window (v.appendImguiReceive text dragging) := by
  rw [View.appendImguiReceive]
  split
  · exact hv
  · dsimp only
    split
    · exact (hv.keepChunk text).clearImguiView
    · exact hv.keepChunk text

/-- The flush leaves the last part of the stream as the tail. -/
theorem Holds.flush_receive (hv : Holds window v) (hpos : 0 < window) :
    v.flushImguiReceive.1.receive = v.stream.rtake (window - 1) := by
  rw [View.flushImguiReceive]
  by_cases hdirty : v.dirty = true
  · rw [if_pos hdirty]
    dsimp only
    rw [hv.windowSize, ← hv.tail]
    split
    · rfl
    · exact (Text.rtake_of_length_le (by omega)).symm
  · rw [if_neg hdirty, ← hv.tail, hv.clean (Bool.eq_false_iff.mpr hdirty), List.flatten_nil,
      List.append_nil, Text.rtake_of_length_le hv.size]

theorem flush_frame (v : View) : v.flushImguiReceive.1.stream = v.stream ∧
    v.flushImguiReceive.1.total = v.total ∧ v.flushImguiReceive.1.imgui = v.imgui ∧
    v.flushImguiReceive.2 = v.dirty := by
  rw [View.flushImguiReceive]
  by_cases hdirty : v.dirty = true
  · rw [if_pos hdirty]
    exact ⟨rfl, rfl, rfl, hdirty.symm⟩
  · rw [if_neg hdirty]
    exact ⟨rfl, rfl, rfl, (Bool.eq_false_iff.mpr hdirty).symm⟩

theorem Holds.flushImguiReceive (hv : Holds window v) (hpos : 0 < window)
    (hdirty : v.dirty = true) {imgui : Option Bridge}
    (hpushed : ∀ b, imgui = some b → b.receiveCapacity = window ∧
      b.text = v.flushImguiReceive.1.receive ∧
      b.base = v.total - v.flushImguiReceive.1.receive.length) :
    Holds window { v.flushImguiReceive.1 with imgui := imgui } := by
  have hreceive := hv.flush_receive hpos
  rw [View.flushImguiReceive, if_pos hdirty] at hreceive hpushed ⊢
  dsimp only at hreceive hpushed ⊢
  refine ⟨hv.windowSize, fun b hb => (hpushed b hb).1, Nat.le_refl 1, Nat.le_refl 1, rfl,
    hv.total, ?_, ?_, fun _ => rfl, fun _ b hb => (hpushed b hb).2⟩
  · dsimp only
    rw [hreceive, Text.length_rtake]
    exact Nat.min_le_left _ _
  · show (_ ++ []).rtake (window - 1) = v.stream.rtake (window - 1)
    rw [List.append_nil, hreceive, Text.rtake_rtake (Nat.le_refl _)]

theorem renderImgui_dirty {b : Bridge} (hb : v.imgui = some b) (hdirty : v.dirty = true) :
    v.renderImgui = { v.flushImguiReceive.1 with
      imgui := some (b.setReceiveText v.flushImguiReceive.1.receive
        (v.total - v.flushImguiReceive.1.receive.length)) } := by
  obtain ⟨_, htotal, _, hchanged⟩ := flush_frame v
  rw [View.renderImgui, hb]
  dsimp only
  rw [hchanged, if_pos hdirty, htotal]

theorem renderImgui_clean (hclean : ¬v.dirty = true) : v.renderImgui = v := by
  rw [View.renderImgui]
  cases v.imgui with
  | none => rfl
  | some b => rw [View.flushImguiReceive, if_neg hclean]; rfl

/-- The capacity cuts nothing from the tail. -/
theorem Holds.setReceiveText (hv : Holds window v) (hpos : 0 < window) {b : Bridge}
    (hb : v.imgui = some b) (base : Nat) :
    (b.setReceiveText v.flushImguiReceive.1.receive base).text =
      v.flushImguiReceive.1.receive := by
  have hlen : v.flushImguiReceive.1.receive.length ≤ b.receiveCapacity - 1 := by
    rw [hv.flush_receive hpos, Text.length_rtake, hv.capacity b hb]
    exact Nat.min_le_left _ _
  rw [Bridge.setReceiveText, Nat.min_eq_left hlen]
  exact List.take_length

theorem Holds.renderImgui (hv : Holds window v) (hpos : 0 < window) :
    Holds window v.renderImgui := by
  by_cases hdirty : v.dirty = true
  · cases hb : v.imgui with
    | none =>
      rw [View.renderImgui, hb]
      exact hv
    | some b =>
      rw [renderImgui_dirty hb hdirty]
      apply hv.flushImguiReceive hpos hdirty
      intro pushed hpushed
      obtain rfl := Option.some.inj hpushed
      exact ⟨hv.capacity b hb, hv.setReceiveText hpos hb _, rfl⟩
  · rw [renderImgui_clean hdirty]
    exact hv

/-- What the bridge holds after a frame. -/
theorem Holds.pushed (hv : Holds window v) (hpos : 0 < window) {b : Bridge}
    (hb : v.renderImgui.imgui = some b) :
    b.text = v.stream.rtake (window - 1) ∧ b.base = v.total - b.text.length := by
  rw [← hv.flush_receive hpos]
  by_cases hdirty : v.dirty = true
  · cases hold : v.imgui with
    | none =>
      rw [View.renderImgui, hold] at hb
      cases hold.symm.trans hb
    | some old =>
      rw [renderImgui_dirty hold hdirty] at hb
      obtain rfl := Option.some.inj hb
      rw [hv.setReceiveText hpos hold]
      exact ⟨rfl, rfl⟩
  · have hreceive : v.flushImguiReceive.1.receive = v.receive := by
      rw [View.flushImguiReceive, if_neg hdirty]
    rw [renderImgui_clean hdirty] at hb
    obtain ⟨htext, hbase⟩ := hv.shown (Bool.eq_false_iff.mpr hdirty) b hb
    rw [hreceive, htext]
    exact ⟨rfl, hbase⟩

theorem Holds.event (hv : Holds window v) (hpos : 0 < window) (e : View.Event) :
    Holds window (v.event e) := by
  cases e with
  | append text dragging => exact hv.appendImguiReceive text dragging
  | render => exact hv.renderImgui hpos
  | clear => exact hv.clearImguiView
  | syncDisplay autoClearBytes => exact { hv with }
  | close => exact { hv with capacity := nofun, shown := fun _ => nofun }

end Steps

section Runs

variable {bytes : Option Int} {bridge : Bool}

theorem init_holds : Holds (clampReceiveWindow bytes) (View.machine bytes bridge).init := by
  have hpushed : ∀ b, (View.machine bytes bridge).init.imgui = some b →
      b = { receiveCapacity := clampReceiveWindow bytes } := by
    intro b hb
    cases bridge with
    | false => cases hb
    | true => exact (Option.some.inj hb).symm
  refine ⟨rfl, ?_, Nat.le_refl 1, Nat.le_refl 1, rfl, rfl, Nat.zero_le _, rfl, fun _ => rfl, ?_⟩
  · intro b hb
    rw [hpushed b hb]
  · intro _ b hb
    rw [hpushed b hb]
    exact ⟨rfl, rfl⟩

theorem run_holds {v : View} (hv : Transition.Reach (View.machine bytes bridge) v) :
    Holds (clampReceiveWindow bytes) v := by
  apply hv.invariant init_holds
  intro s e s' hs _ hstep
  obtain rfl := Option.some.inj hstep
  exact hs.event (clampReceiveWindow_pos bytes) e

/-- In every run, with frames that run or not: the tail and the chunks end in the last bytes
of the stream, a flush makes these the tail, and the bridge gets them with their position. -/
theorem legacy_tail {v : View} (hv : Transition.Reach (View.machine bytes bridge) v) :
    v.total = v.stream.length ∧
      v.stream.rtake (min v.total (clampReceiveWindow bytes - 1)) <:+
        v.receive ++ v.live.flatten ∧
      v.flushImguiReceive.1.receive =
        v.stream.rtake (min v.total (clampReceiveWindow bytes - 1)) ∧
      ∀ b, v.renderImgui.imgui = some b →
        b.text = v.stream.rtake (min v.total (clampReceiveWindow bytes - 1)) ∧
        b.base = v.total - b.text.length := by
  have hpos := clampReceiveWindow_pos bytes
  have hs := run_holds hv
  have hlast : v.stream.rtake (min v.total (clampReceiveWindow bytes - 1)) =
      v.stream.rtake (clampReceiveWindow bytes - 1) := by
    rw [hs.total, Text.rtake_min_length]
  rw [hlast]
  refine ⟨hs.total, ?_, hs.flush_receive hpos, fun b hb => hs.pushed hpos hb⟩
  rw [← hs.tail]
  exact Text.rtake_suffix _ _

end Runs

/-- A batch and its frame, then two batches whose frame is still to come. -/
def sampleRun : List View.Event :=
  [.append [0x61] false, .render, .append [0x62] false, .append [0x63, 0x0A] true]

theorem legacy_tail_two_batches :
    ∃ v : View, v.total = 4 ∧ v.flushImguiReceive.1.receive = [0x61, 0x62, 0x63, 0x0A] ∧
      ∀ b, v.renderImgui.imgui = some b →
        b.text = [0x61, 0x62, 0x63, 0x0A] ∧ b.base = 4 - b.text.length := by
  obtain ⟨v, hrun, htotal, hstream⟩ := Transition.exists_of_execUnder
    (m := View.machine none true) (c := fun _ _ => True)
    (p := fun v => v.total = 4 ∧ v.stream = [0x61, 0x62, 0x63, 0x0A]) sampleRun (by decide)
  obtain ⟨_, _, hreceive, hpushed⟩ := legacy_tail hrun
  rw [htotal, hstream] at hreceive hpushed
  exact ⟨v, htotal, hreceive, hpushed⟩

end Xcom.Receive.Legacy
