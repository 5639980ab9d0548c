import Xcom.Script.FilterChunks

/-!
# Order and loss in the line filter

Runs of `process_rx`, `pump` and the operations of the engine.  Held text waits in
`filter_pending` and `pending_output`; a batch that finds no rule in force goes past what is
held, although a filter that was cleared or disabled is documented to give it up first.
-/

namespace Xcom.Script.LineFilter

open Engine (State Codes hasReceiveHook dispatchReceive)
open Transition (ReachUnder Reach)
open Transition.Lines (lines pieces)

/-! ## Runs -/

/-- A line that was decided, with the rules in force. -/
structure Decision where
  keeps : List Bytes
  drops : List Bytes
  line : Bytes
  deriving DecidableEq

def Decision.visible (d : Decision) : Bool := visibleUnder d.keeps d.drops d.line

/-- The funnel with what came to the filter, what left the hold, and what was shown. -/
structure Session where
  funnel : Funnel
  input : Bytes := []
  decided : List Decision := []
  shown : Bytes := []

/-- A step took `input` in, showed `output` and left `f`: what is no longer held of the
queue was decided by the rules of `f`. -/
def Session.record (x : Session) (f : Funnel) (input output : Bytes) : Session :=
  let queue := x.funnel.filterPending ++ input
  { funnel := f
    input := x.input ++ input
    decided := x.decided ++
      (pieces lf (queue.take (queue.length - f.filterPending.length))).map
        (Decision.mk (keeps f.engine) (drops f.engine))
    shown := x.shown ++ output }

/-- What happens.  A load gives the partial line of the window to `process_rx`, framed,
before anything else: a batch of its own.  The other calls of `process_rx` are the only
receive operations. -/
inductive Label
  | processRx (text : Bytes) (codes : Codes) (now : Int) (framed : Bool)
  | pump (now : Int)
  | engine (o : Engine.Op)

/-- An operation that receives nothing. -/
def receivesNothing : Engine.Op → Bool
  | .receive _ _ => false
  | .enable _ file | .reload _ file => file.held.isNone
  | _ => true

/-- The batch as the hooks leave it, none where they drop it. -/
def behindHooks (codes : Codes) (text : Bytes) (s : State) : Option Bytes :=
  if text = [] then none else (dispatchReceive codes text s).2

def Session.step (x : Session) : Label → Option Session
  | .processRx text codes now framed =>
    let (f, out) := processRx codes text now framed x.funnel
    some (x.record f ((behindHooks codes text x.funnel.engine).getD []) (out.getD []))
  | .pump now => some (x.record (flushPending now x.funnel) [] [])
  | .engine o =>
    if receivesNothing o then
      (Engine.step x.funnel.engine o).map fun engine =>
        x.record { x.funnel with engine := engine } [] []
    else none

def filterMachine : Transition.Machine Session Label where
  init := { funnel := { engine := {} } }
  step := Session.step

/-- Every byte that came was decided in its order or is held, and what was decided visible
is shown in that order, or about to be. -/
structure Session.Lossless (x : Session) : Prop where
  order : x.input = (x.decided.map Decision.line).flatten ++ x.funnel.filterPending
  shown : x.shown ++ x.funnel.pendingOutput.getD [] =
    ((x.decided.filter Decision.visible).map Decision.line).flatten

/-- Nothing is held when a batch with text behind the hooks finds no rule in force. -/
def NothingHeld (x : Session) : Label → Prop
  | .processRx text codes _ _ => ∀ hooked ∈ behindHooks codes text x.funnel.engine,
      filtering (dispatchReceive codes text x.funnel.engine).1 = true ∨ hooked = [] ∨
        x.funnel.filterPending = []
  | _ => True

instance (x : Session) (e : Label) : Decidable (NothingHeld x e) := by
  cases e <;> unfold NothingHeld <;> infer_instance

/-! ## What `process_rx` comes to -/

theorem hasReceiveHook_again (s : State) :
    hasReceiveHook (hasReceiveHook s).1 = hasReceiveHook s := by
  unfold hasReceiveHook
  cases hon : s.recvHookOn with
  | some on => simp [hon]
  | none => rfl

theorem dispatchReceive_again (codes : Codes) (text : Bytes) (s : State) :
    dispatchReceive codes text (hasReceiveHook s).1 = dispatchReceive codes text s := by
  unfold dispatchReceive
  rw [hasReceiveHook_again]

/-- Without a hook the batch is what it was. -/
theorem dispatchReceive_off {s t : State} (codes : Codes) (text : Bytes)
    (h : hasReceiveHook s = (t, false)) : dispatchReceive codes text s = (t, some text) := by
  unfold dispatchReceive
  rw [h]

theorem hasReceiveHook_cached {s t : State} {on : Bool} (h : hasReceiveHook s = (t, on)) :
    t.recvHookOn = some on := by
  unfold hasReceiveHook at h
  split at h
  · rename_i hset
    cases h
    exact hset
  · cases h
    rfl

theorem hasLineFilter_again (s : State) : hasLineFilter (hasLineFilter s).1 = hasLineFilter s := by
  unfold hasLineFilter
  cases hon : s.lineFilterOn with
  | some on => simp [hon]
  | none => rfl

theorem hasLineFilter_recvHook (s : State) : (hasLineFilter s).1.recvHookOn = s.recvHookOn := by
  unfold hasLineFilter
  split <;> rfl

theorem applyLineFilter_again (now : Int) (text : Bytes) (framed : Bool) (f : Funnel) (s : State) :
    applyLineFilter now text framed { f with engine := (hasLineFilter s).1 } =
      applyLineFilter now text framed { f with engine := s } := by
  unfold applyLineFilter
  dsimp only
  rw [hasLineFilter_again]

/-- The batch goes through the hooks and the filter; the way round them gives the same. -/
theorem processRx_eq (codes : Codes) {text : Bytes} (htext : text ≠ []) (now : Int)
    (framed : Bool) (f : Funnel) :
    match dispatchReceive codes text f.engine with
    | (engine, none) => processRx codes text now framed f =
        ({ f with engine := engine, pendingOutput := none }, f.pendingOutput)
    | (engine, some hooked) =>
      (processRx codes text now framed f).1 =
          (applyLineFilter now hooked framed
            { f with engine := engine, pendingOutput := none }).1 ∧
        (processRx codes text now framed f).2.getD [] =
          f.pendingOutput.getD [] ++ (applyLineFilter now hooked framed
            { f with engine := engine, pendingOutput := none }).2 := by
  have hshown : ∀ filtered : Bytes, (if f.pendingOutput.getD [] ++ filtered = [] then none
      else some (f.pendingOutput.getD [] ++ filtered)).getD [] =
        f.pendingOutput.getD [] ++ filtered := by
    intro filtered
    split
    · rename_i hempty
      rw [hempty]
      rfl
    · rfl
  unfold processRx
  rw [if_neg htext]
  dsimp only
  rcases hhook : hasReceiveHook f.engine with ⟨e, hook⟩
  cases hook with
  | true =>
    have hsame : dispatchReceive codes text e = dispatchReceive codes text f.engine := by
      have hagain := dispatchReceive_again codes text f.engine
      rwa [hhook] at hagain
    simp only [if_true, hsame]
    rcases dispatchReceive codes text f.engine with ⟨engine, hooked⟩
    cases hooked with
    | none => rfl
    | some hooked => exact ⟨rfl, hshown _⟩
  | false =>
    have hoff := dispatchReceive_off codes text hhook
    rw [hoff]
    simp only [Bool.false_eq_true, if_false]
    have hagain := applyLineFilter_again now text framed { f with pendingOutput := none } e
    rcases hfilter : hasLineFilter e with ⟨e', on⟩
    rw [hfilter] at hagain
    cases on with
    | false =>
      have hround : applyLineFilter now text framed
          { f with engine := e, pendingOutput := none } =
            ({ f with engine := e', pendingOutput := none }, text) := by
        unfold applyLineFilter
        simp only [hfilter]
      rw [hround]
      exact ⟨rfl, rfl⟩
    | true =>
      have hcached : hasReceiveHook e' = (e', false) := by
        have hset := hasReceiveHook_cached hhook
        have hkept := hasLineFilter_recvHook e
        rw [hfilter, hset] at hkept
        unfold hasReceiveHook
        rw [hkept]
      simp only [dispatchReceive_off codes text hcached]
      dsimp only at hagain
      rw [hagain]
      exact ⟨rfl, hshown _⟩

/-! ## One step -/

/-- What was decided with a step, from the front of the queue, is shown with it. -/
theorem Session.Lossless.record {x : Session} {f : Funnel} {input output : Bytes}
    (h : x.Lossless) (decided : Bytes)
    (hqueue : x.funnel.filterPending ++ input = decided ++ f.filterPending)
    (hout : x.funnel.pendingOutput.getD [] ++
        ((pieces lf decided).filter (lineVisible f.engine)).flatten =
      output ++ f.pendingOutput.getD []) : (x.record f input output).Lossless := by
  have hdecided : (x.funnel.filterPending ++ input).take
      ((x.funnel.filterPending ++ input).length - f.filterPending.length) = decided := by
    rw [hqueue, List.length_append, Nat.add_sub_cancel, List.take_left]
  have hlines : ∀ ls : List Bytes,
      (ls.map (Decision.mk (keeps f.engine) (drops f.engine))).map Decision.line = ls := by
    intro ls
    rw [List.map_map]
    exact List.map_id ls
  have hvisible : ∀ ls : List Bytes,
      ((ls.map (Decision.mk (keeps f.engine) (drops f.engine))).filter Decision.visible).map
        Decision.line = ls.filter (lineVisible f.engine) := by
    intro ls
    have hsame : Decision.visible ∘ Decision.mk (keeps f.engine) (drops f.engine) =
        lineVisible f.engine := by
      funext line
      exact (lineVisible_eq f.engine line).symm
    rw [List.filter_map, hsame, hlines]
  constructor
  · show x.input ++ input = ((x.decided ++ _).map Decision.line).flatten ++ f.filterPending
    rw [hdecided, List.map_append, hlines, List.flatten_append,
      Transition.Lines.pieces_flatten, List.append_assoc, ← hqueue, ← List.append_assoc, ← h.order]
  · show (x.shown ++ output) ++ f.pendingOutput.getD [] =
      (((x.decided ++ _).filter Decision.visible).map Decision.line).flatten
    rw [hdecided, List.filter_append, List.map_append, List.flatten_append, hvisible, ← h.shown,
      List.append_assoc, List.append_assoc, hout]

/-- What else holds of the funnel: the flag of the filter is right, what is held ends no
line, and nothing is held while a line waits to be shown. -/
structure Session.Sound (x : Session) : Prop where
  flag : Current x.funnel.engine
  held : lf ∉ x.funnel.filterPending
  waiting : x.funnel.pendingOutput ≠ none → x.funnel.filterPending = []

theorem dispatchReceive_flag (codes : Codes) (text : Bytes) {s : State} (h : Current s) :
    Current (dispatchReceive codes text s).1 :=
  current_kept.dispatchReceive (fun role f => (codes role f).within_all) text h

/-- Without a rule in force every line is visible. -/
theorem lineVisible_unfiltered {s : State} (h : filtering s = false) (line : Bytes) :
    lineVisible s line = true := by
  obtain ⟨hkeeps, hdrops⟩ := (filtering_eq_false s).mp h
  rw [lineVisible_eq, hkeeps, hdrops]
  rfl

/-- A batch behind the hooks. -/
theorem filter_step {x : Session} {f f' : Funnel} {hooked : Bytes} {now : Int} {framed : Bool}
    (hx : x.Lossless) (hsound : x.Sound) (hpending : f.filterPending = x.funnel.filterPending)
    (hwaiting : f.pendingOutput = none) (hflag : Current f.engine)
    (hheld : filtering f.engine = true ∨ hooked = [] ∨ x.funnel.filterPending = [])
    {output : Bytes} (hf' : f' = (applyLineFilter now hooked framed f).1)
    (hout : output = x.funnel.pendingOutput.getD [] ++ (applyLineFilter now hooked framed f).2) :
    (x.record f' hooked output).Lossless ∧ (x.record f' hooked output).Sound := by
  have hself : RulesOf f.engine f := ⟨rfl, rfl, hflag⟩
  subst hf' hout
  by_cases hfilter : filtering f.engine = true
  · obtain ⟨hrules, hpublished, hrest, decided, hqueue, hshown, -⟩ :=
      applyLineFilter_on hself hfilter now hooked framed
    rw [hpending] at hqueue
    constructor
    · apply hx.record _ hqueue
      rw [hrules.visible, hpublished, hwaiting, hshown]
      exact (List.append_nil _).symm
    · refine ⟨hrules.flag, hrest, fun hne => absurd (hpublished.trans hwaiting) hne⟩
  · rw [Bool.not_eq_true] at hfilter
    obtain ⟨hon, hscripts, horder, hflag'⟩ := hasLineFilter_eq hflag
    rw [hfilter] at hon
    have hround : applyLineFilter now hooked framed f =
        ({ f with engine := (hasLineFilter f.engine).1 }, hooked) := by
      unfold applyLineFilter
      rcases hres : hasLineFilter f.engine with ⟨engine, on⟩
      rw [hres] at hon
      obtain rfl : on = false := hon
      rfl
    rw [hround]
    have hunfiltered : filtering (hasLineFilter f.engine).1 = false := by
      rw [← hfilter]
      exact filtering_congr horder fun name => by rw [hscripts]
    have hall : ∀ ls : List Bytes,
        ls.filter (lineVisible (hasLineFilter f.engine).1) = ls := by
      intro ls
      rw [List.filter_eq_self]
      exact fun line _ => lineVisible_unfiltered hunfiltered line
    constructor
    · apply hx.record hooked
      · rcases hheld with hheld | hheld | hheld
        · rw [hfilter] at hheld
          cases hheld
        · show _ = hooked ++ f.filterPending
          rw [hheld, hpending, List.append_nil, List.nil_append]
        · show _ = hooked ++ f.filterPending
          rw [hpending, hheld, List.append_nil, List.nil_append]
      · show _ ++ ((pieces lf hooked).filter
          (lineVisible (hasLineFilter f.engine).1)).flatten = _ ++ f.pendingOutput.getD []
        rw [hall, Transition.Lines.pieces_flatten, hwaiting]
        exact (List.append_nil _).symm
    · refine ⟨hflag', ?_, fun hne => absurd hwaiting hne⟩
      show lf ∉ f.filterPending
      rw [hpending]
      exact hsound.held

/-- `process_rx`. -/
theorem processRx_step {x : Session} {text : Bytes} {codes : Codes} {now : Int} {framed : Bool}
    (hx : x.Lossless) (hsound : x.Sound)
    (hheld : NothingHeld x (.processRx text codes now framed)) :
    (x.record (processRx codes text now framed x.funnel).1
        ((behindHooks codes text x.funnel.engine).getD [])
        ((processRx codes text now framed x.funnel).2.getD [])).Lossless ∧
      (x.record (processRx codes text now framed x.funnel).1
        ((behindHooks codes text x.funnel.engine).getD [])
        ((processRx codes text now framed x.funnel).2.getD [])).Sound := by
  by_cases htext : text = []
  · have hnothing : processRx codes text now framed x.funnel = (x.funnel, none) := by
      unfold processRx
      rw [if_pos htext]
    have hnone : behindHooks codes text x.funnel.engine = none := by
      unfold behindHooks
      rw [if_pos htext]
    rw [hnothing, hnone]
    constructor
    · apply hx.record []
      · exact List.append_nil _
      · exact List.append_nil _
    · exact ⟨hsound.flag, hsound.held, hsound.waiting⟩
  · have hround := processRx_eq codes htext now framed x.funnel
    have hflag := dispatchReceive_flag codes text hsound.flag
    have hbehind : behindHooks codes text x.funnel.engine =
        (dispatchReceive codes text x.funnel.engine).2 := by
      unfold behindHooks
      rw [if_neg htext]
    have hheld' : ∀ hooked, behindHooks codes text x.funnel.engine = some hooked →
        filtering (dispatchReceive codes text x.funnel.engine).1 = true ∨ hooked = [] ∨
          x.funnel.filterPending = [] := hheld
    rw [hbehind] at hheld' ⊢
    rcases hres : dispatchReceive codes text x.funnel.engine with ⟨engine, hooked⟩
    rw [hres] at hround hflag hheld'
    cases hooked with
    | none =>
      -- the hooks drop the batch: what was published is shown
      dsimp only at hround
      rw [hround]
      constructor
      · apply hx.record []
        · exact List.append_nil _
        · rfl
      · exact ⟨hflag, hsound.held, fun hne => absurd rfl hne⟩
    | some hooked =>
      exact filter_step (f := { x.funnel with engine := engine, pendingOutput := none })
        hx hsound rfl rfl hflag (hheld' hooked rfl) hround.1 hround.2

/-- `flush_pending`. -/
theorem flush_step {x : Session} (now : Int) (hx : x.Lossless) (hsound : x.Sound) :
    (x.record (flushPending now x.funnel) [] []).Lossless ∧
      (x.record (flushPending now x.funnel) [] []).Sound := by
  have hself : RulesOf x.funnel.engine x.funnel := ⟨rfl, rfl, hsound.flag⟩
  have hengine : (flushPending now x.funnel).engine = x.funnel.engine := by
    unfold flushPending
    split
    · rfl
    · split
      · dsimp only
        split <;> rfl
      · rfl
  rcases flushPending_decides hself now with hsame | ⟨hne, hgiven, hpublished⟩
  · rw [hsame]
    constructor
    · apply hx.record []
      · exact List.append_nil _
      · exact List.append_nil _
    · exact ⟨hsound.flag, hsound.held, hsound.waiting⟩
  · have hpieces : pieces lf x.funnel.filterPending = [x.funnel.filterPending] := by
      rw [pieces, Transition.Lines.lines_open [] hsound.held]
      exact if_neg hne
    have hwaiting : x.funnel.pendingOutput = none := by
      by_contra hpublished
      exact hne (hsound.waiting hpublished)
    constructor
    · apply hx.record x.funnel.filterPending
      · rw [hgiven]
      · rw [hengine, hpieces, hpublished, hwaiting]
        cases hvisible : lineVisible x.funnel.engine x.funnel.filterPending <;> simp [hvisible]
    · refine ⟨?_, ?_, fun _ => hgiven⟩
      · show Current (flushPending now x.funnel).engine
        rw [hengine]
        exact hsound.flag
      · show lf ∉ (flushPending now x.funnel).filterPending
        rw [hgiven]
        exact List.not_mem_nil

/-- An operation of the engine. -/
theorem engine_step {x : Session} {engine : State} {o : Engine.Op} (hx : x.Lossless)
    (hsound : x.Sound) (hstep : Engine.step x.funnel.engine o = some engine) :
    (x.record { x.funnel with engine := engine } [] []).Lossless ∧
      (x.record { x.funnel with engine := engine } [] []).Sound := by
  constructor
  · apply hx.record []
    · exact List.append_nil _
    · exact List.append_nil _
  · exact ⟨step_flag hsound.flag hstep, hsound.held, hsound.waiting⟩

theorem step_lossless {x x' : Session} {e : Label} (h : x.Lossless ∧ x.Sound)
    (hheld : NothingHeld x e) (hstep : x.step e = some x') : x'.Lossless ∧ x'.Sound := by
  obtain ⟨hx, hsound⟩ := h
  cases e with
  | processRx text codes now framed =>
    obtain rfl := Option.some.inj hstep
    exact processRx_step hx hsound hheld
  | pump now =>
    obtain rfl := Option.some.inj hstep
    exact flush_step now hx hsound
  | engine o =>
    unfold Session.step at hstep
    dsimp only at hstep
    split at hstep
    · obtain ⟨engine, hengine, rfl⟩ := Option.map_eq_some_iff.mp hstep
      exact engine_step hx hsound hengine
    · cases hstep

/-- In a run in which no batch finds held text and no rule in force, nothing is lost,
shown twice or shown out of order. -/
theorem filter_lossless {x : Session} (hx : ReachUnder filterMachine NothingHeld x) :
    x.Lossless := by
  have hboth := hx.invariant (p := fun x => Session.Lossless x ∧ Session.Sound x)
    ⟨⟨rfl, rfl⟩, current_of_none rfl, List.not_mem_nil, fun hne => absurd rfl hne⟩
    fun x e x' h hheld hstep => step_lossless h hheld hstep
  exact hboth.1

/-- No hook does anything. -/
def noHooks : Codes := fun _ _ => .ret .nothing

/-- A begun line is held and given up by the idle flush before its script is disabled. -/
def flushedRun : List Label :=
  [.engine (.loadAll [[0x61]]), .engine (.enable [0x61] dropD),
    .processRx [0x44, lf, 0x41] noHooks 1 false, .pump 1000, .engine (.disable [0x61]),
    .processRx [0x42, lf] noHooks 1001 false]

theorem filter_lossless_flushed :
    ∃ x, ReachUnder filterMachine NothingHeld x ∧ x.input = [0x44, lf, 0x41, 0x42, lf] ∧
      x.shown = [0x41, 0x42, lf] ∧ x.Lossless := by
  obtain ⟨x, hx, hinput, hshown⟩ := Transition.exists_of_execUnder (m := filterMachine)
    (c := NothingHeld)
    (p := fun x => x.input = [0x44, lf, 0x41, 0x42, lf] ∧ x.shown = [0x41, 0x42, lf])
    flushedRun (by decide +kernel)
  exact ⟨x, hx, hinput, hshown, filter_lossless hx⟩

/-- A begun line is held, the script disabled, and another line comes. -/
def clearedRun : List Label :=
  [.engine (.loadAll [[0x61]]), .engine (.enable [0x61] dropD),
    .processRx [0x41] noHooks 1 false, .engine (.disable [0x61]),
    .processRx [0x42, lf] noHooks 2 false]

/-- The later line is shown and the held text is not. -/
theorem held_text_overtaken : ¬ ∀ x, Reach filterMachine x → x.Lossless := by
  intro h
  obtain ⟨x, hx, hinput, hpending⟩ := Transition.exists_of_execUnder (m := filterMachine)
    (c := fun _ _ => True)
    (p := fun x => x.input = [0x41, 0x42, lf] ∧ x.funnel.filterPending = [0x41])
    clearedRun (by decide +kernel)
  have horder := (h x hx).order
  rw [hinput, hpending] at horder
  have hlast := congrArg List.getLast? horder
  rw [List.getLast?_append] at hlast
  cases hlast

end Xcom.Script.LineFilter
