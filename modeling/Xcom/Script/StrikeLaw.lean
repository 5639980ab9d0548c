import Xcom.Script.Strikes

/-!
# The three strikes over whole runs

The history of every step of the engine carries the law of the three strikes, whatever the
code of the scripts does; so does the history of every run.
-/

namespace Xcom.Script.Engine

open Transition.History

/-- A script that the engine knows it keeps knowing. -/
theorem preserves_present (name : Bytes) :
    Preserves (fun _ => True) fun s => (s.scripts name).isSome where
  policy c a _ hpolicy hs := by
    have hmodify : ∀ {s : State} (f : Record → Record), (s.scripts name).isSome →
        ((s.modify c.script f).scripts name).isSome := by
      intro s f hs
      unfold State.modify
      dsimp only
      split
      · rwa [Option.isSome_map]
      · exact hs
    cases a with
    | highlightRule pattern color bg =>
      rw [callApi]
      split
      · exact hs
      · exact hmodify _ hs
    | filterKeep patterns => exact hmodify _ hs
    | filterDrop patterns => exact hmodify _ hs
    | filterClear => exact hmodify _ hs
    | highlightClear => exact hmodify _ hs
    | _ => exact absurd hpolicy id
  modify n f _ hs := by
    unfold State.modify
    dsimp only
    split
    · rwa [Option.isSome_map]
    · exact hs
  congr hscripts _ _ _ hs := by rwa [hscripts]

/-- A runner whose events are told. -/
structure Runner.Told (run : Runner) (watch : Watch) : Prop where
  carries : ∀ f s, strikeBook.Carries (watch f s) s (run f s).1
  present : ∀ name, run.Keeps fun s => (s.scripts name).isSome

section Dispatch

variable {run : Runner} {watch : Watch} {s t : State} {es : List HookEvent}

/-- Where the records are the same, a history goes on. -/
theorem carries_before (h : strikeBook.Carries es t s) {r : State} (hsame : t.scripts = r.scripts) :
    strikeBook.Carries es r s :=
  h.of_before fun _ hown => Streaks.Counted.congr hown (strikes_congr hsame)

theorem carries_behind (h : strikeBook.Carries es s t) {r : State} (hsame : r.scripts = t.scripts) :
    strikeBook.Carries es s r :=
  h.of_behind fun _ hown => Streaks.Counted.congr hown (strikes_congr hsame)

/-- A call of a hook. -/
theorem carries_call (h : run.Told watch) {name : Bytes} (hs : (s.scripts name).isSome)
    (role : Role) (hook : Hook) (f : Fn) :
    strikeBook.Carries (callEvents run watch name hook f (s.calling role f)) s
      ((run f (s.calling role f)).1.settle name hook (run f (s.calling role f)).2) := by
  have hbody := carries_before (r := s) (h.carries f (s.calling role f)) rfl
  exact hbody.append (carries_settle (h.present name f (s.calling role f) hs) hook _)

theorem carries_dispatchSend (h : run.Told watch) (names : List Bytes) (payload : Bytes)
    (s : State) :
    strikeBook.Carries (sendEvents run watch names payload s) s
      (dispatchSend run names payload s).1 := by
  induction names generalizing payload s with
  | nil => exact Book.Carries.nil fun own hown => hown
  | cons name rest ih =>
    cases hrecord : s.scripts name with
    | none =>
      rw [sendEvents, dispatchSend, hrecord]
      exact ih payload s
    | some record =>
      have hpresent : (s.scripts name).isSome := by rw [hrecord]; rfl
      by_cases hcalled : record.enabled = true ∧ record.sendHook.isSome
      · obtain ⟨henabled, hhook⟩ := hcalled
        obtain ⟨f, hf⟩ := Option.isSome_iff_exists.mp hhook
        have hcall := carries_call h hpresent .send .send f
        rw [dispatchSend_call hrecord henabled hf, sendEvents, hrecord]
        simp only [henabled, hf]
        rcases hrun : run f (s.calling .send f) with ⟨t, r⟩
        rw [hrun] at hcall
        cases r with
        | nothing =>
          rw [List.append_nil]
          exact hcall
        | text p => exact hcall.append (ih p _)
        | value => exact hcall.append (ih payload _)
        | error => exact hcall.append (ih payload _)
      · rw [sendEvents, dispatchSend, hrecord]
        cases henabled : record.enabled with
        | false => simpa only [henabled] using ih payload s
        | true =>
          cases hhook : record.sendHook with
          | none => simpa only [henabled, hhook] using ih payload s
          | some f => exact absurd ⟨henabled, by rw [hhook]; rfl⟩ hcalled

theorem carries_coreSend (h : run.Told watch) (data : Bytes) (s : State) :
    strikeBook.Carries (coreSendEvents run watch data s) s (coreSend run data s).1 := by
  unfold coreSendEvents coreSend
  split
  · exact Book.Carries.nil fun own hown => hown
  · exact carries_dispatchSend h s.order data s

theorem carries_uartSend (h : run.Told watch) (c : Copy) (data : Bytes) (s : State) :
    strikeBook.Carries (uartSendEvents run watch data s) s (uartSend c run data s) := by
  unfold uartSendEvents uartSend
  split
  · exact Book.Carries.nil fun own hown => hown
  · have hcore := carries_coreSend h data s
    rcases hres : coreSend run data s with ⟨t, payload⟩
    rw [hres] at hcore
    cases payload with
    | none => exact hcore
    | some p => exact carries_behind hcore rfl

/-- Code carries the law, with all the calls it sets off. -/
theorem carries_exec (code : Code) (c : Copy) (s : State) :
    strikeBook.Carries (execEvents code c s) s (exec code c s).1 := by
  induction code generalizing c s with
  | ret r => exact Book.Carries.nil fun own hown => hown
  | api a k ih => exact (carries_api c a s).append (ih c (callApi c a s))
  | send data hooks k ihhooks ihk =>
    have htold : Runner.Told (fun f => exec (hooks f) f.owner)
        (fun f => execEvents (hooks f) f.owner) :=
      ⟨fun f => ihhooks f f.owner, fun name f _ ht =>
        (preserves_present name).exec (hooks f) (hooks f).within_all f.owner ht⟩
    exact (carries_uartSend htold c data s).append (ihk c _)

/-- Whatever the functions do in a step, it is told. -/
theorem told_codes (codes : Codes) (role : Role) : (codes.run role).Told (codes.watch role) :=
  ⟨fun f => carries_exec (codes role f) f.owner, fun name f _ ht =>
    (preserves_present name).exec (codes role f) (codes role f).within_all f.owner ht⟩

theorem carries_callRecvHook (codes : Codes) {name : Bytes} {record : Record}
    (hrecord : s.scripts name = some record) (text : Bytes) :
    strikeBook.Carries (recvHookEvents codes name record s) s
      (callRecvHook codes name record text s).1 := by
  cases hhook : record.recvHook with
  | none =>
    rw [recvHookEvents, callRecvHook, hhook]
    exact Book.Carries.nil fun own hown => hown
  | some f =>
    have hpresent : (s.scripts name).isSome := by rw [hrecord]; rfl
    rw [callRecvHook_settle hhook, recvHookEvents, hhook]
    exact carries_call (told_codes codes .receive) hpresent .receive .receive f

theorem carries_callUartReceive (codes : Codes) (name : Bytes) (s : State) :
    strikeBook.Carries (uartReceiveEvents codes name s) s (callUartReceive codes name s) := by
  cases hhook : ((s.scripts name).bind (·.env)).bind (·.uartReceive) with
  | none =>
    rw [uartReceiveEvents, callUartReceive, hhook]
    exact Book.Carries.nil fun own hown => hown
  | some f =>
    have hpresent : (s.scripts name).isSome := by
      cases hrecord : s.scripts name with
      | none => simp [hrecord] at hhook
      | some record => rfl
    rw [callUartReceive_settle hhook, uartReceiveEvents, hhook]
    exact carries_call (told_codes codes .uartReceive) hpresent .uartReceive .uartReceive f

theorem carries_receiveLoop (codes : Codes) (names : List Bytes) (text : Bytes) (s : State) :
    strikeBook.Carries (receiveLoopEvents codes names text s) s
      (receiveLoop codes names text s).1 := by
  induction names generalizing text s with
  | nil => exact Book.Carries.nil fun own hown => hown
  | cons name rest ih =>
    rw [receiveLoopEvents, receiveLoop]
    cases hrecord : s.scripts name with
    | none => exact ih text s
    | some record =>
      dsimp only
      by_cases hon : record.enabled = true
      · rw [if_pos hon, if_pos hon]
        have hhook := carries_callRecvHook codes hrecord text
        rcases hres : callRecvHook codes name record text s with ⟨t, out⟩
        rw [hres] at hhook
        cases out with
        | none =>
          rw [List.append_nil]
          exact hhook
        | some text' =>
          exact hhook.append ((carries_callUartReceive codes name t).append (ih text' _))
      · rw [if_neg hon, if_neg hon]
        exact ih text s

theorem carries_dispatchReceive (codes : Codes) (text : Bytes) (s : State) :
    strikeBook.Carries (receiveEvents codes text s) s (dispatchReceive codes text s).1 := by
  have hcache : (hasReceiveHook s).1.scripts = s.scripts := by
    unfold hasReceiveHook
    split <;> rfl
  unfold receiveEvents dispatchReceive
  rcases hres : hasReceiveHook s with ⟨t, on⟩
  rw [hres] at hcache
  cases on with
  | false => exact carries_behind (Book.Carries.nil fun own hown => hown) hcache
  | true => exact carries_before (carries_receiveLoop codes t.order text t) hcache

theorem carries_dispatchUiEvent (codes : Codes) (page : Bytes) (s : State) :
    strikeBook.Carries (uiEventEvents codes page s) s (dispatchUiEvent codes page s) := by
  unfold uiEventEvents dispatchUiEvent
  cases pageScript page with
  | none => exact Book.Carries.nil fun own hown => hown
  | some name =>
    dsimp only
    by_cases hon : s.isEnabled name = true
    · rw [if_pos hon, if_pos hon]
      cases ((s.scripts name).bind (·.env)).bind (·.uiEvent) with
      | none => exact Book.Carries.nil fun own hown => hown
      | some f => exact carries_before ((told_codes codes .uiEvent).carries f _) rfl
    · rw [if_neg hon, if_neg hon]
      exact Book.Carries.nil fun own hown => hown

theorem carries_onReload (file : File) (s : State) :
    strikeBook.Carries (onReloadEvents file s) s (onReload file s) := by
  unfold onReloadEvents onReload
  cases file.held with
  | none => exact Book.Carries.nil fun own hown => hown
  | some held => exact carries_dispatchReceive held.2 held.1 s

end Dispatch

/-! ## Loading and the steps of the engine -/

/-- A change that leaves the counts alone. -/
theorem carries_same {s t : State} (h : ∀ n hook, t.strikes n hook = s.strikes n hook) :
    strikeBook.Carries [] s t :=
  Book.Carries.nil fun _ hown => Streaks.Counted.congr hown h

/-- The counts of a script are cleared. -/
theorem carries_renewed {s t : State} {name : Bytes}
    (hself : ∀ hook, t.strikes name hook = 0)
    (hother : ∀ n hook, n ≠ name → t.strikes n hook = s.strikes n hook) :
    strikeBook.Carries [.renewed name] s t := by
  apply Book.Carries.single
  intro own hown _
  have hown : own.Counted s := hown
  refine ⟨trivial, ?_, ?_, ?_, ?_⟩
  · intro n
    show _ = if n = name then 0 else own n .send
    by_cases hn : n = name
    · rw [if_pos hn, hn, hself]
    · rw [if_neg hn, hother n _ hn, hown.send n]
  · intro n
    show _ = (if n = name then 0 else own n .receive) + if n = name then 0 else own n .uartReceive
    by_cases hn : n = name
    · rw [if_pos hn, if_pos hn, hn, hself]
    · rw [if_neg hn, if_neg hn, hother n _ hn, hown.recv n]
  · intro n
    show (if n = name then 0 else own n .receive) = 0 ∨
      (if n = name then 0 else own n .uartReceive) = 0
    by_cases hn : n = name
    · exact .inl (if_pos hn)
    · rw [if_neg hn, if_neg hn]
      exact hown.apart n
  · intro n hook
    show (if n = name then 0 else own n hook) < hookStrikes
    split
    · decide
    · exact hown.few n hook

theorem carries_loadScript (name : Bytes) (file : File) (s : State) :
    strikeBook.Carries (loadEvents name file s) s (loadScript name file s).1 := by
  unfold loadEvents loadScript
  cases s.scripts name with
  | none => exact Book.Carries.nil fun _ hown => hown
  | some record =>
    dsimp only
    have hreload := carries_onReload file s
    apply hreload.append
    cases file.chunk with
    | none =>
      apply carries_same
      intro n hook
      exact strikes_modify (s := (onReload file s).retire name) (fun r => by cases hook <;> rfl) n
    | some chunk =>
      dsimp only
      have hfresh : strikeBook.Carries [.renewed name] (onReload file s)
          (((onReload file s).retire name).modify name fun r => r.fresh name) := by
        apply carries_renewed
        · intro hook
          exact strikes_modify_zero fun r => by cases hook <;> rfl
        · intro n hook hn
          exact strikes_modify_of_ne ((onReload file s).retire name) hn _ hook
      have hrun := hfresh.append (carries_exec chunk ⟨name,
        (((onReload file s).retire name).modify name fun r => r.fresh name).loadOf name⟩ _)
      rcases hres : exec chunk ⟨name,
        (((onReload file s).retire name).modify name fun r => r.fresh name).loadOf name⟩
        (((onReload file s).retire name).modify name fun r => r.fresh name) with ⟨t, r⟩
      rw [hres] at hrun
      cases r with
      | error =>
        apply hrun.of_behind
        intro own hown
        apply Streaks.Counted.congr hown
        intro n hook
        exact strikes_modify (s := t.retire name) (fun r => by cases hook <;> rfl) n
      | _ => exact carries_behind hrun rfl

theorem carries_enable (name : Bytes) (file : File) (s : State) :
    strikeBook.Carries (loadEvents name file s) s (enable name file s) := by
  have hload := carries_loadScript name file s
  unfold enable
  rcases hres : loadScript name file s with ⟨t, ok⟩
  rw [hres] at hload
  apply hload.of_behind
  intro own hown
  apply Streaks.Counted.congr hown
  intro n hook
  cases ok with
  | false => exact strikes_modify (fun r => by cases hook <;> rfl) n
  | true => exact strikes_modify (s := t) (fun r => by cases hook <;> rfl) n

theorem carries_disable (name : Bytes) (s : State) :
    strikeBook.Carries [.renewed name] s (disable name s) := by
  unfold disable
  cases hrecord : s.scripts name with
  | none =>
    apply carries_renewed
    · intro hook
      rw [State.strikes, hrecord]
      rfl
    · exact fun _ _ _ => rfl
  | some record =>
    apply carries_renewed
    · intro hook
      exact strikes_modify_zero (s := s.retire name) fun r => by cases hook <;> rfl
    · intro n hook hn
      exact strikes_modify_of_ne (s.retire name) hn _ hook

theorem strikes_loadAll (names : List Bytes) (s : State) (n : Bytes) (hook : Hook) :
    (loadAll names s).strikes n hook = s.strikes n hook := by
  show ((if names.contains n then some ((s.scripts n).getD {}) else s.scripts n).map
    fun r => r.strikes hook).getD 0 = _
  unfold State.strikes
  split
  · cases s.scripts n with
    | none => cases hook <;> rfl
    | some r => rfl
  · rfl

/-- The history of a step carries the law. -/
theorem carries_step {s t : State} {op : Op} (h : step s op = some t) :
    strikeBook.Carries (stepEvents s op) s t := by
  cases op with
  | loadAll names =>
    obtain rfl := Option.some.inj h
    exact carries_same (strikes_loadAll names s)
  | enable name file =>
    obtain rfl := Option.some.inj h
    exact carries_enable name file s
  | disable name =>
    obtain rfl := Option.some.inj h
    exact carries_disable name s
  | reload name file =>
    obtain rfl := Option.some.inj h
    exact carries_loadScript name file s
  | receive text codes =>
    obtain rfl := Option.some.inj h
    exact carries_dispatchReceive codes text s
  | send data codes =>
    obtain rfl := Option.some.inj h
    exact carries_coreSend (told_codes codes .send) data s
  | uiEvent page codes =>
    obtain rfl := Option.some.inj h
    exact carries_dispatchUiEvent codes page s
  | fire handle code =>
    obtain ⟨timer, hfind, rfl⟩ := Option.map_eq_some_iff.mp h
    show strikeBook.Carries (fireEvents handle code s) s _
    unfold fireEvents
    rw [hfind]
    apply carries_before (carries_exec code timer.fn.owner _)
    split <;> rfl
  | readDone index code =>
    obtain ⟨r, hread, rfl⟩ := Option.map_eq_some_iff.mp h
    show strikeBook.Carries (readDoneEvents index code s) s _
    unfold readDoneEvents
    rw [hread]
    exact carries_before (carries_exec code r.fn.owner _) rfl
  | evalCommand code =>
    obtain ⟨c, hcopy, rfl⟩ := Option.map_eq_some_iff.mp h
    have hevents : stepEvents s (.evalCommand code) = execEvents code c s := by
      unfold stepEvents
      rw [hcopy]
    rw [hevents]
    exact carries_exec code c s
  | host isOpen ready =>
    obtain rfl := Option.some.inj h
    exact carries_same fun _ _ => rfl
  | shutdown =>
    obtain rfl := Option.some.inj h
    exact carries_same fun _ _ => rfl

/-- The streaks that the history of a run has led to. -/
def Watched.streaks (w : Watched) : Streaks := w.history.foldl Streaks.after fun _ _ => 0

/-- Every call of a hook so far has ended as the law says. -/
def Watched.Lawful (w : Watched) : Prop :=
  Throughout Streaks.after Streaks.Right (fun _ _ => 0) w.history

instance (w : Watched) : Decidable w.Lawful :=
  inferInstanceAs (Decidable (Throughout Streaks.after Streaks.Right _ _))

/-- A step keeps the receive hooks of every script apart. -/
def KeptApart (w : Watched) (op : Op) : Prop :=
  Throughout Streaks.after Streaks.Apart w.streaks (stepEvents w.engine op)

instance (w : Watched) (op : Op) : Decidable (KeptApart w op) :=
  inferInstanceAs (Decidable (Throughout Streaks.after Streaks.Apart _ _))

theorem step_lawful {w w' : Watched} {op : Op}
    (h : w.Lawful ∧ w.streaks.Counted w.engine) (hapart : KeptApart w op)
    (hstep : watchedMachine.step w op = some w') :
    w'.Lawful ∧ w'.streaks.Counted w'.engine := by
  obtain ⟨hlawful, hcounted⟩ := h
  obtain ⟨t, ht, rfl⟩ := Option.map_eq_some_iff.mp hstep
  obtain ⟨hright, hcounted'⟩ := carries_step ht w.streaks hcounted hapart
  constructor
  · exact throughout_append.mpr ⟨hlawful, hright⟩
  · unfold Watched.streaks
    rw [List.foldl_append]
    exact hcounted'

/-- In a run that keeps the receive hooks apart, a hook is disabled exactly with its third
failure in a row. -/
theorem hook_strikes {w : Watched} (hw : Transition.ReachUnder watchedMachine KeptApart w) :
    w.Lawful := by
  have hlawful : Watched.Lawful {} := trivial
  have hcounted : (Watched.streaks {}).Counted {} :=
    ⟨fun _ => rfl, fun _ => rfl, fun _ => .inl rfl, fun _ _ => Nat.succ_pos 2⟩
  have hboth := hw.invariant (p := fun w => Watched.Lawful w ∧ w.streaks.Counted w.engine)
    ⟨hlawful, hcounted⟩ fun w op w' h hapart hstep => step_lawful h hapart hstep
  exact hboth.1

/-- A script with all three hooks. -/
def allHooks : File where
  chunk := some (.api (.onReceive 1) (.api (.setUartReceive (some 2)) (.api (.onSend 3)
    (.ret .nothing))))

/-- The functions called as one of `roles` fail. -/
def failing (roles : List Role) : Codes :=
  fun role _ => .ret (if roles.contains role then .error else .value)

/-- `on.receive` and `on.send` fail three times beside a `uartReceive` that does not. -/
def twoStruckOut : List Op :=
  [.loadAll [[0x61]], .enable [0x61] allHooks, .host true true,
    .receive [0x78] (failing [.receive]), .send [0x79] (failing [.send]),
    .receive [0x78] (failing [.receive]), .send [0x79] (failing [.send]),
    .send [0x79] (failing []), .receive [0x78] (failing [.receive]),
    .send [0x79] (failing [.send]), .send [0x79] (failing [.send]),
    .send [0x79] (failing [.send])]

theorem hook_strikes_two :
    ∃ w, Transition.ReachUnder watchedMachine KeptApart w ∧
      w.engine.hook [0x61] .receive = none ∧ w.engine.hook [0x61] .send = none ∧
      (w.engine.hook [0x61] .uartReceive).isSome ∧ w.Lawful := by
  obtain ⟨w, hw, hreceive, hsend, huart⟩ := Transition.exists_of_execUnder
    (m := watchedMachine) (c := KeptApart)
    (p := fun w => w.engine.hook [0x61] .receive = none ∧ w.engine.hook [0x61] .send = none ∧
      (w.engine.hook [0x61] .uartReceive).isSome) twoStruckOut (by decide +kernel)
  exact ⟨w, hw, hreceive, hsend, huart, hook_strikes hw⟩

/-- A script with a `uartReceive` only. -/
def legacyHook : File where
  chunk := some (.api (.setUartReceive (some 1)) (.ret .nothing))

/-- `uartReceive` fails every other time. -/
def everyOther : List Op :=
  [.loadAll [[0x61]], .enable [0x61] legacyHook,
    .receive [0x78] (failing [.uartReceive]), .receive [0x78] (failing []),
    .receive [0x78] (failing [.uartReceive]), .receive [0x78] (failing []),
    .receive [0x78] (failing [.uartReceive])]

/-- It is disabled, though it never failed twice in a row. -/
theorem recovered_hook_disabled :
    ¬ ∀ w, Transition.Reach watchedMachine w → w.Lawful := by
  intro h
  obtain ⟨w, hw, hunlawful⟩ := Transition.exists_of_execUnder (m := watchedMachine)
    (c := fun _ _ => True) (p := fun w => ¬ w.Lawful) everyOther (by decide +kernel)
  exact hunlawful (h w hw)

end Xcom.Script.Engine
