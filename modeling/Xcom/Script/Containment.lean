import Xcom.Script.Engine

/-!
# What the engine calls

A copy of a script holds hooks, timers and reads.  They are followed through the code of
all scripts with a set of copies that may still run: the invariant says that whatever the
engine holds is of a copy of the set, and that no copy of the set was ever given up.
-/

namespace Xcom.Script.Engine

/-! ## Containment of a history -/

/-- An event of a copy of a script is later than the loads given up before it. -/
def Outlives (e older : Event) : Prop :=
  ∀ c d, older = .retired c → e.copy = some d → d.script = c.script → c.load < d.load

/-- Only functions of enabled scripts are called, and after a copy was disabled or replaced
neither its code nor that of an older copy calls, is called or sends. -/
structure Contained (trace : List Event) : Prop where
  enabled : ∀ role f on, .call role f on ∈ trace → on = true
  outlives : trace.Pairwise Outlives

/-! ## The invariant -/

/-- The load and the enabled flag of every script. -/
abbrev Table := Bytes → Option (Nat × Bool)

/-- The load of a record and its flag. -/
def Record.status (r : Record) : Nat × Bool := (r.load, r.enabled)

/-- The table of a state. -/
def State.table (s : State) : Table := fun name => (s.scripts name).map Record.status

/-- The present copy of an enabled script. -/
def Live (T : Table) (c : Copy) : Prop := T c.script = some (c.load, true)

/-- The functions a record holds are of one copy. -/
structure Record.HooksOf (r : Record) (c : Copy) : Prop where
  recv : ∀ f, r.recvHook = some f → f.owner = c
  send : ∀ f, r.sendHook = some f → f.owner = c
  uart : ∀ f, r.env.bind (·.uartReceive) = some f → f.owner = c
  ui : ∀ f, r.env.bind (·.uiEvent) = some f → f.owner = c
  env : ∀ e, r.env = some e → e.copy = c

/-- A set of copies between the live ones and the present ones. -/
structure Bounds (T : Table) (A : Copy → Prop) : Prop where
  live : ∀ c, Live T c → A c
  loaded : ∀ c, A c → ∃ b, T c.script = some (c.load, b)

/-- The engine holds nothing but functions of copies in `A`. -/
structure Held (T : Table) (A : Copy → Prop) (s : State) : Prop where
  table : s.table = T
  hooks : ∀ name r, s.scripts name = some r → r.HooksOf ⟨name, r.load⟩
  timers : ∀ t ∈ s.timers, A t.fn.owner
  reads : ∀ r ∈ s.reads, A r.fn.owner
  past : ∀ c, .retired c ∈ s.trace → ∃ n b, T c.script = some (n, b) ∧ c.load ≤ n
  beyond : ∀ c, .retired c ∈ s.trace → ∀ d, A d → d.script = c.script → c.load < d.load
  contained : Contained s.trace

theorem bounds_live (T : Table) : Bounds T (Live T) where
  live _ h := h
  loaded _ h := ⟨true, h⟩

theorem Record.HooksOf.congr {r r' : Record} {c : Copy} (h : r.HooksOf c)
    (hrecv : r'.recvHook = r.recvHook) (hsend : r'.sendHook = r.sendHook)
    (henv : r'.env = r.env) : r'.HooksOf c where
  recv := hrecv ▸ h.recv
  send := hsend ▸ h.send
  uart := henv ▸ h.uart
  ui := henv ▸ h.ui
  env := henv ▸ h.env

/-- A changed environment of the same copy. -/
theorem Record.HooksOf.mapEnv {r : Record} {c : Copy} (h : r.HooksOf c) (g : Env → Env)
    (hg : ∀ e, e.copy = c → (g e).copy = c ∧
      (∀ f, (g e).uartReceive = some f → e.uartReceive = some f ∨ f.owner = c) ∧
      ∀ f, (g e).uiEvent = some f → e.uiEvent = some f ∨ f.owner = c) :
    ({ r with env := r.env.map g } : Record).HooksOf c := by
  cases henv : r.env with
  | none => exact h.congr rfl rfl (by simp [henv])
  | some e =>
    have hcopy := h.env e henv
    obtain ⟨hc, huart, hui⟩ := hg e hcopy
    have hold : ∀ f, e.uartReceive = some f → f.owner = c := by
      intro f hf
      exact h.uart f (by simp [henv, hf])
    have hold' : ∀ f, e.uiEvent = some f → f.owner = c := by
      intro f hf
      exact h.ui f (by simp [henv, hf])
    constructor
    · exact h.recv
    · exact h.send
    · intro f hf
      exact (huart f (by simpa using hf)).elim (hold f) id
    · intro f hf
      exact (hui f (by simpa using hf)).elim (hold' f) id
    · intro e' he'
      have heq : g e = e' := by simpa using he'
      exact heq ▸ hc

namespace Held

variable {T : Table} {A : Copy → Prop} {s : State}

theorem isEnabled (h : Held T A s) {name : Bytes} {n : Nat}
    (hT : T name = some (n, true)) : s.isEnabled name = true := by
  have hrow : s.table name = some (n, true) := by rw [h.table, hT]
  cases hs : s.scripts name with
  | none => simp [State.table, hs] at hrow
  | some r =>
    have hstatus : r.load = n ∧ r.enabled = true := by
      simpa [State.table, hs, Record.status] using hrow
    simp [State.isEnabled, hs, hstatus.2]

theorem row (h : Held T A s) {name : Bytes} {r : Record} (hs : s.scripts name = some r) :
    T name = some (r.load, r.enabled) := by
  rw [← h.table]
  simp [State.table, hs, Record.status]

/-- The parts of the state that the invariant reads. -/
theorem congr (h : Held T A s) {t : State} (hscripts : t.scripts = s.scripts)
    (htimers : t.timers = s.timers) (hreads : t.reads = s.reads)
    (htrace : t.trace = s.trace) : Held T A t where
  table := by rw [← h.table]; unfold State.table; rw [hscripts]
  hooks := hscripts ▸ h.hooks
  timers := htimers ▸ h.timers
  reads := hreads ▸ h.reads
  past := htrace ▸ h.past
  beyond := htrace ▸ h.beyond
  contained := htrace ▸ h.contained

/-- An update of a record that keeps its load, its flag and whose functions it holds. -/
theorem modify (h : Held T A s) (name : Bytes) {f : Record → Record}
    (hstatus : ∀ r, (f r).status = r.status)
    (hhooks : ∀ r, s.scripts name = some r → r.HooksOf ⟨name, r.load⟩ →
      (f r).HooksOf ⟨name, r.load⟩) : Held T A (s.modify name f) where
  table := by
    rw [← h.table]
    funext n
    by_cases hn : n = name
    · cases hs : s.scripts n <;> simp [State.table, State.modify, ← hn, hs, hstatus]
    · simp [State.table, State.modify, hn]
  hooks := by
    intro n r hr
    by_cases hn : n = name
    · subst hn
      simp only [State.modify, if_true] at hr
      obtain ⟨r₀, hr₀, rfl⟩ := Option.map_eq_some_iff.mp hr
      have hload : (f r₀).load = r₀.load := congrArg Prod.fst (hstatus r₀)
      rw [hload]
      exact hhooks r₀ hr₀ (h.hooks n r₀ hr₀)
    · simp only [State.modify, if_neg hn] at hr
      exact h.hooks n r hr
  timers := h.timers
  reads := h.reads
  past := h.past
  beyond := h.beyond
  contained := h.contained

/-- An update of the data of a record. -/
theorem modifyData (h : Held T A s) (name : Bytes) {f : Record → Record}
    (hstatus : ∀ r, (f r).status = r.status)
    (hrecv : ∀ r, (f r).recvHook = r.recvHook ∨ (f r).recvHook = none)
    (hsend : ∀ r, (f r).sendHook = r.sendHook ∨ (f r).sendHook = none)
    (henv : ∀ r, (f r).env = r.env) : Held T A (s.modify name f) := by
  refine h.modify name hstatus ?_
  intro r _ hr
  constructor
  · intro g hg
    rcases hrecv r with he | he
    · exact hr.recv g (he ▸ hg)
    · rw [he] at hg
      cases hg
  · intro g hg
    rcases hsend r with he | he
    · exact hr.send g (he ▸ hg)
    · rw [he] at hg
      cases hg
  · exact henv r ▸ hr.uart
  · exact henv r ▸ hr.ui
  · exact henv r ▸ hr.env

/-- An event of a copy of the set. -/
theorem note (h : Held T A s) {e : Event} {c : Copy} (hcopy : e.copy = some c) (hc : A c)
    (hon : ∀ role f on, e = .call role f on → on = true) : Held T A (s.note e) := by
  have hnew : ∀ d, e ≠ .retired d := by
    rintro d rfl
    cases hcopy
  have hmem : ∀ d, .retired d ∈ (s.note e).trace → .retired d ∈ s.trace := by
    intro d hd
    rcases List.mem_cons.mp hd with heq | hd
    · exact absurd heq.symm (hnew d)
    · exact hd
  refine ⟨h.table, h.hooks, h.timers, h.reads, fun d hd => h.past d (hmem d hd),
    fun d hd => h.beyond d (hmem d hd), ⟨?_, ?_⟩⟩
  · intro role f on hcall
    rcases List.mem_cons.mp hcall with heq | hcall
    · exact hon role f on heq.symm
    · exact h.contained.enabled role f on hcall
  · refine List.pairwise_cons.mpr ⟨?_, h.contained.outlives⟩
    intro older hold d d' hd hd' hscript
    subst hd
    have hcd : c = d' := by
      rw [hcopy] at hd'
      exact Option.some.inj hd'
    exact h.beyond d hold d' (hcd ▸ hc) hscript

/-- A function of a live copy is called. -/
theorem calling (h : Held T A s) (hA : Bounds T A) (role : Role) {f : Fn}
    (hf : Live T f.owner) : Held T A (s.calling role f) := by
  refine h.note rfl (hA.live _ hf) ?_
  intro role' f' on he
  cases he
  exact h.isEnabled hf

theorem timerCreate (h : Held T A s) (ms : Nat) {f : Fn} (hf : A f.owner)
    (repeating : Bool) : Held T A (s.timerCreate ms f repeating) := by
  refine ⟨h.table, h.hooks, ?_, h.reads, h.past, h.beyond, h.contained⟩
  intro t ht
  rcases List.mem_append.mp ht with ht | ht
  · exact h.timers t ht
  · rw [List.mem_singleton.mp ht]
    exact hf

theorem timerDestroy (h : Held T A s) (handle : Nat) : Held T A (s.timerDestroy handle) :=
  ⟨h.table, h.hooks, fun t ht => h.timers t (List.mem_of_mem_eraseP ht), h.reads, h.past,
    h.beyond, h.contained⟩

theorem addRead (h : Held T A s) {r : Read} (hr : A r.fn.owner) :
    Held T A { s with reads := s.reads ++ [r] } := by
  refine ⟨h.table, h.hooks, h.timers, ?_, h.past, h.beyond, h.contained⟩
  intro r' hr'
  rcases List.mem_append.mp hr' with hr' | hr'
  · exact h.reads r' hr'
  · rw [List.mem_singleton.mp hr']
    exact hr

end Held

/-! ## Code and dispatch keep it -/

section Code

variable {T : Table} {A : Copy → Prop} {s : State}

/-- The record of a copy of the set is the one its functions belong to. -/
theorem Held.owner_eq (h : Held T A s) (hA : Bounds T A) {c : Copy} (hc : A c) {r : Record}
    (hr : s.scripts c.script = some r) : (⟨c.script, r.load⟩ : Copy) = c := by
  obtain ⟨b, hb⟩ := hA.loaded c hc
  have hrow := h.row hr
  rw [hb] at hrow
  simp only [Option.some.injEq, Prod.mk.injEq] at hrow
  rw [← hrow.1]

theorem held_callApi (h : Held T A s) (hA : Bounds T A) {c : Copy} (hc : A c) (a : Api) :
    Held T A (callApi c a s) := by
  -- a registration puts a function of `c` into the record of `c`
  have hset : ∀ {f : Record → Record} {t : State},
      t.scripts = (s.modify c.script f).scripts → t.timers = s.timers → t.reads = s.reads →
      t.trace = s.trace → (∀ r, (f r).status = r.status) →
      (∀ r, r.HooksOf c → (f r).HooksOf c) → Held T A t := by
    intro f t hscripts htimers hreads htrace hstatus hf
    refine (h.modify c.script hstatus ?_).congr hscripts htimers hreads htrace
    intro r hr hold
    rw [h.owner_eq hA hc hr] at hold ⊢
    exact hf r hold
  have hdata : ∀ {f : Record → Record} {t : State},
      t.scripts = (s.modify c.script f).scripts → t.timers = s.timers → t.reads = s.reads →
      t.trace = s.trace →
      (∀ r, (f r).status = r.status ∧ (f r).recvHook = r.recvHook ∧
        (f r).sendHook = r.sendHook ∧ (f r).env = r.env) → Held T A t := by
    intro f t hscripts htimers hreads htrace hf
    refine hset hscripts htimers hreads htrace (fun r => (hf r).1) ?_
    intro r hr
    exact hr.congr (hf r).2.1 (hf r).2.2.1 (hf r).2.2.2
  cases a with
  | onReceive id =>
    refine hset rfl rfl rfl rfl (fun _ => rfl) ?_
    intro r hr
    exact ⟨by rintro f ⟨rfl⟩; rfl, hr.send, hr.uart, hr.ui, hr.env⟩
  | onSend id =>
    refine hset rfl rfl rfl rfl (fun _ => rfl) ?_
    intro r hr
    exact ⟨hr.recv, by rintro f ⟨rfl⟩; rfl, hr.uart, hr.ui, hr.env⟩
  | setUartReceive id =>
    refine hset rfl rfl rfl rfl (fun _ => rfl) fun r hr => hr.mapEnv _ ?_
    intro e he
    rw [if_pos he]
    refine ⟨he, ?_, fun f hf => .inl hf⟩
    intro f hf
    obtain ⟨i, -, rfl⟩ := Option.map_eq_some_iff.mp hf
    exact .inr rfl
  | setUiEvent id =>
    refine hset rfl rfl rfl rfl (fun _ => rfl) fun r hr => hr.mapEnv _ ?_
    intro e he
    rw [if_pos he]
    refine ⟨he, fun f hf => .inl hf, ?_⟩
    intro f hf
    obtain ⟨i, -, rfl⟩ := Option.map_eq_some_iff.mp hf
    exact .inr rfl
  | filterKeep patterns => exact hdata rfl rfl rfl rfl fun _ => ⟨rfl, rfl, rfl, rfl⟩
  | filterDrop patterns => exact hdata rfl rfl rfl rfl fun _ => ⟨rfl, rfl, rfl, rfl⟩
  | filterClear => exact hdata rfl rfl rfl rfl fun _ => ⟨rfl, rfl, rfl, rfl⟩
  | highlightRule pattern color bg =>
    by_cases hp : pattern = []
    · simpa only [callApi, if_pos hp] using h
    · simp only [callApi, if_neg hp]
      exact hdata rfl rfl rfl rfl fun _ => ⟨rfl, rfl, rfl, rfl⟩
  | highlightClear => exact hdata rfl rfl rfl rfl fun _ => ⟨rfl, rfl, rfl, rfl⟩
  | busy active => exact hdata rfl rfl rfl rfl fun _ => ⟨rfl, rfl, rfl, rfl⟩
  | timerStart ms id => exact h.timerCreate ms hc false
  | timerLoopStart ms id => exact h.timerCreate ms hc true
  | timerStop handle => exact h.timerDestroy handle
  | fileReadAtAsync fd offset len id =>
    cases fd with
    | none => exact h
    | some fd =>
      by_cases hargs : offset < 0 ∨ len ≤ 0
      · simpa only [callApi, if_pos hargs] using h
      · simp only [callApi, if_neg hargs]
        exact h.addRead hc

/-- What calling functions of copies of the set does. -/
def Keeps (T : Table) (A : Copy → Prop) (run : Runner) : Prop :=
  ∀ f s, A f.owner → Held T A s → Held T A (run f s).1

/-- The owner of a function found in the record of an enabled script. -/
theorem Held.live_of_hook (h : Held T A s) {name : Bytes} {r : Record}
    (hr : s.scripts name = some r) (hon : r.enabled = true) {f : Fn}
    (hf : f.owner = ⟨name, r.load⟩) : Live T f.owner := by
  have hrow := h.row hr
  rw [hon] at hrow
  unfold Live
  rw [hf]
  exact hrow

theorem held_dispatchSend (hA : Bounds T A) {run : Runner} (hrun : Keeps T A run)
    (names : List Bytes) (payload : Bytes) (h : Held T A s) :
    Held T A (dispatchSend run names payload s).1 := by
  induction names generalizing payload s with
  | nil => exact h
  | cons name rest ih =>
    have hreset : ∀ {t : State}, Held T A t →
        Held T A (t.modify name fun r => { r with strikesSend := 0 }) := fun ht =>
      ht.modifyData name (fun _ => rfl) (fun _ => .inl rfl) (fun _ => .inl rfl) fun _ => rfl
    have hstrike : ∀ {t : State}, Held T A t → Held T A (t.strikeSend name) := by
      intro t ht
      refine ht.modifyData name ?_ ?_ ?_ ?_ <;>
        (intro r; split) <;> simp [Record.status]
    cases hs : s.scripts name with
    | none =>
      simp only [dispatchSend, hs]
      exact ih payload h
    | some record =>
      cases hon : record.enabled with
      | false =>
        simp only [dispatchSend, hs, hon]
        exact ih payload h
      | true =>
        cases hhook : record.sendHook with
        | none =>
          simp only [dispatchSend, hs, hon, hhook]
          exact ih payload h
        | some f =>
          have hlive : Live T f.owner :=
            h.live_of_hook hs hon ((h.hooks name record hs).send f hhook)
          have hcalled := hrun f _ (hA.live _ hlive) (h.calling hA .send hlive)
          simp only [dispatchSend, hs, hon, hhook]
          rcases hres : run f (s.calling .send f) with ⟨t, r⟩
          rw [hres] at hcalled
          cases r with
          | nothing => exact hreset hcalled
          | text p => exact ih p (hreset hcalled)
          | value => exact ih payload (hreset hcalled)
          | error => exact ih payload (hstrike hcalled)

theorem held_coreSend (hA : Bounds T A) {run : Runner} (hrun : Keeps T A run) (data : Bytes)
    (h : Held T A s) : Held T A (coreSend run data s).1 := by
  unfold coreSend
  split
  · exact h
  · exact held_dispatchSend hA hrun _ _ h

theorem held_uartSend (hA : Bounds T A) {run : Runner} (hrun : Keeps T A run) {c : Copy}
    (hc : A c) (data : Bytes) (h : Held T A s) : Held T A (uartSend c run data s) := by
  unfold uartSend
  split
  · exact h
  · have hsent := held_coreSend hA hrun data h
    rcases hres : coreSend run data s with ⟨t, payload⟩
    rw [hres] at hsent
    cases payload with
    | none => exact hsent
    | some p =>
      refine hsent.note rfl hc ?_
      intro role f on he
      cases he

/-- Code of a copy of the set, with all it sets off. -/
theorem held_exec (hA : Bounds T A) (code : Code) {c : Copy} (hc : A c) (h : Held T A s) :
    Held T A (exec code c s).1 := by
  induction code generalizing c s with
  | ret r => exact h
  | api a k ih => exact ih hc (held_callApi h hA hc a)
  | send data hooks k ihhooks ihk =>
    refine ihk hc (held_uartSend hA ?_ hc data h)
    intro f t hf ht
    exact ihhooks f hf ht

theorem keeps_run (hA : Bounds T A) (codes : Codes) (role : Role) :
    Keeps T A (codes.run role) := fun f _ hf hs => held_exec hA (codes role f) hf hs

theorem held_hasReceiveHook (h : Held T A s) : Held T A (hasReceiveHook s).1 := by
  unfold hasReceiveHook
  split
  · exact h
  · exact h.congr rfl rfl rfl rfl

theorem held_strikeRecv (h : Held T A s) (name : Bytes) (legacy : Bool) :
    Held T A (s.strikeRecv name legacy) := by
  unfold State.strikeRecv
  split
  · refine (h.modify name ?_ ?_).congr (t := { s.modify name _ with recvHookOn := none })
      rfl rfl rfl rfl
    · intro r
      cases legacy <;> rfl
    · intro r hr hold
      cases legacy with
      | false =>
        refine ⟨?_, hold.send, hold.uart, hold.ui, hold.env⟩
        intro f hf
        cases hf
      | true =>
        refine (hold.mapEnv (fun e => { e with uartReceive := none }) ?_).congr rfl rfl rfl
        intro e he
        exact ⟨he, by simp, fun f hf => .inl hf⟩
  · exact h.modifyData name (fun _ => rfl) (fun _ => .inl rfl) (fun _ => .inl rfl) fun _ => rfl

theorem held_callRecvHook (hA : Bounds T A) (codes : Codes) {name : Bytes} {record : Record}
    (hs : s.scripts name = some record) (hon : record.enabled = true) (text : Bytes)
    (h : Held T A s) : Held T A (callRecvHook codes name record text s).1 := by
  have hreset : ∀ {t : State}, Held T A t →
      Held T A (t.modify name fun r => { r with strikesRecv := 0 }) := fun ht =>
    ht.modifyData name (fun _ => rfl) (fun _ => .inl rfl) (fun _ => .inl rfl) fun _ => rfl
  cases hhook : record.recvHook with
  | none =>
    simp only [callRecvHook, hhook]
    exact h
  | some f =>
    have hlive : Live T f.owner :=
      h.live_of_hook hs hon ((h.hooks name record hs).recv f hhook)
    have hcalled := keeps_run hA codes .receive f _ (hA.live _ hlive)
      (h.calling hA .receive hlive)
    simp only [callRecvHook, hhook]
    rcases hres : codes.run .receive f (s.calling .receive f) with ⟨t, r⟩
    rw [hres] at hcalled
    cases r with
    | nothing => exact hreset hcalled
    | text p => exact hreset hcalled
    | value => exact hreset hcalled
    | error => exact held_strikeRecv hcalled name false

/-- The `uartReceive` of an enabled script. -/
theorem held_callUartReceive (hA : Bounds T A) (codes : Codes) {name : Bytes} {n : Nat}
    (hT : T name = some (n, true)) (h : Held T A s) :
    Held T A (callUartReceive codes name s) := by
  unfold callUartReceive
  split
  · exact h
  · rename_i f hf
    obtain ⟨e, he, huart⟩ := Option.bind_eq_some_iff.mp hf
    obtain ⟨record, hs, henv⟩ := Option.bind_eq_some_iff.mp he
    have hon : record.enabled = true := by
      have hrow := h.row hs
      rw [hT] at hrow
      exact (congrArg Prod.snd (Option.some.inj hrow)).symm
    have hlive : Live T f.owner :=
      h.live_of_hook hs hon ((h.hooks name record hs).uart f (by simp [henv, huart]))
    have hcalled := keeps_run hA codes .uartReceive f _ (hA.live _ hlive)
      (h.calling hA .uartReceive hlive)
    rcases hres : codes.run .uartReceive f (s.calling .uartReceive f) with ⟨t, r⟩
    rw [hres] at hcalled
    cases r with
    | error => exact held_strikeRecv hcalled name true
    | nothing => exact hcalled
    | text p => exact hcalled
    | value => exact hcalled

theorem held_receiveLoop (hA : Bounds T A) (codes : Codes) (names : List Bytes) (text : Bytes)
    (h : Held T A s) : Held T A (receiveLoop codes names text s).1 := by
  induction names generalizing text s with
  | nil => exact h
  | cons name rest ih =>
    cases hs : s.scripts name with
    | none =>
      simp only [receiveLoop, hs]
      exact ih text h
    | some record =>
      by_cases hon : record.enabled = true
      · have hrow := h.row hs
        rw [hon] at hrow
        have hhook := held_callRecvHook hA codes hs hon text h
        simp only [receiveLoop, hs, if_pos hon]
        rcases hres : callRecvHook codes name record text s with ⟨t, out⟩
        rw [hres] at hhook
        cases out with
        | none => exact hhook
        | some text' => exact ih text' (held_callUartReceive hA codes hrow hhook)
      · simp only [receiveLoop, hs, if_neg hon]
        exact ih text h

theorem held_dispatchReceive (hA : Bounds T A) (codes : Codes) (text : Bytes)
    (h : Held T A s) : Held T A (dispatchReceive codes text s).1 := by
  have hcache := held_hasReceiveHook h
  unfold dispatchReceive
  rcases hres : hasReceiveHook s with ⟨t, on⟩
  rw [hres] at hcache
  cases on with
  | false => exact hcache
  | true => exact held_receiveLoop hA codes _ _ hcache

theorem held_dispatchUiEvent (hA : Bounds T A) (codes : Codes) (page : Bytes)
    (h : Held T A s) : Held T A (dispatchUiEvent codes page s) := by
  unfold dispatchUiEvent
  split
  · exact h
  · rename_i name _
    split
    · rename_i hon
      split
      · exact h
      · rename_i f hf
        obtain ⟨e, he, hui⟩ := Option.bind_eq_some_iff.mp hf
        obtain ⟨record, hs, henv⟩ := Option.bind_eq_some_iff.mp he
        have hlive : Live T f.owner := by
          refine h.live_of_hook hs ?_ ((h.hooks name record hs).ui f (by simp [henv, hui]))
          simpa [State.isEnabled, hs] using hon
        exact keeps_run hA codes .uiEvent f _ (hA.live _ hlive) (h.calling hA .uiEvent hlive)
    · exact h

theorem live_replCopy (h : Held T A s) {c : Copy} (hc : replCopy s = some c) : Live T c := by
  unfold replCopy at hc
  obtain ⟨name, -, hname⟩ := List.mem_filterMap.mp (List.mem_of_mem_head? hc)
  obtain ⟨r, hr, henv⟩ := Option.bind_eq_some_iff.mp hname
  split at henv
  · rename_i hon
    obtain ⟨e, he, rfl⟩ := Option.map_eq_some_iff.mp henv
    have hrow := h.row hr
    rw [hon] at hrow
    unfold Live
    rw [(h.hooks name r hr).env e he]
    exact hrow
  · cases henv

end Code

end Xcom.Script.Engine
