import Xcom.Script.HookCalls
import Xcom.Transition.History

/-!
# Three strikes

A hook is to be disabled when it has failed three times in a row since it was registered
or last succeeded.  The engine counts the strikes of `on.receive` and `uartReceive`
together: an end of the one resets or raises the count of the other, and a success of
`uartReceive` resets nothing.  The law holds in the runs that keep the two apart.
-/

namespace Xcom.Script.Engine

open Transition.History

/-- How often each hook has failed in a row since it was registered or last succeeded. -/
abbrev Streaks := Bytes → Hook → Nat

/-- One streak set. -/
def Streaks.set (own : Streaks) (script : Bytes) (hook : Hook) (n : Nat) : Streaks :=
  fun s h => if s = script ∧ h = hook then n else own s h

/-- The streaks behind an event.  With its third failure a streak is over: the hook is to
be disabled. -/
def Streaks.after (own : Streaks) : HookEvent → Streaks
  | .registered script hook => own.set script hook 0
  | .ended script hook failed _ _ =>
    own.set script hook
      (if failed = true ∧ own script hook + 1 < hookStrikes then own script hook + 1 else 0)
  | .renewed script => fun s h => if s = script then 0 else own s h

/-- The law: at the end of a call the hook is disabled exactly if it is there and the call
is its third failure in a row. -/
def Streaks.Right (own : Streaks) : HookEvent → Prop
  | .ended script hook failed held disabled =>
    disabled = true ↔ held = true ∧ failed = true ∧ own script hook + 1 = hookStrikes
  | _ => True

instance (own : Streaks) (e : HookEvent) : Decidable (own.Right e) :=
  match e with
  | .registered _ _ => .isTrue trivial
  | .ended script hook failed held disabled =>
    inferInstanceAs (Decidable (disabled = true ↔
      held = true ∧ failed = true ∧ own script hook + 1 = hookStrikes))
  | .renewed _ => .isTrue trivial

/-- The streak that an event must not find.  `on.receive` is registered, and its calls end,
only while `uartReceive` is in no streak; `uartReceive` fails only while `on.receive` is in
none, and succeeds or is assigned only while it is in none itself. -/
def Streaks.standing (own : Streaks) : HookEvent → Nat
  | .registered script .receive => own script .uartReceive
  | .registered script .uartReceive => own script .uartReceive
  | .ended script .receive _ _ _ => own script .uartReceive
  | .ended script .uartReceive failed _ _ =>
    if failed then own script .receive else own script .uartReceive
  | _ => 0

/-- The two receive hooks are kept apart. -/
def Streaks.Apart (own : Streaks) (e : HookEvent) : Prop := own.standing e = 0

instance (own : Streaks) (e : HookEvent) : Decidable (own.Apart e) :=
  inferInstanceAs (Decidable (own.standing e = 0))

/-! ## The counts of the engine -/

/-- The count a record keeps for a hook; the receive hooks have one. -/
def Record.strikes (r : Record) : Hook → Nat
  | .send => r.strikesSend
  | _ => r.strikesRecv

/-- The count the engine keeps for a hook. -/
def State.strikes (s : State) (name : Bytes) (hook : Hook) : Nat :=
  ((s.scripts name).map fun r => r.strikes hook).getD 0

theorem strikes_congr {s t : State} (h : t.scripts = s.scripts) (n : Bytes) (hook : Hook) :
    t.strikes n hook = s.strikes n hook := by
  unfold State.strikes
  rw [h]

theorem strikes_modify_of_ne (s : State) {name n : Bytes} (hn : n ≠ name) (f : Record → Record)
    (hook : Hook) : (s.modify name f).strikes n hook = s.strikes n hook := by
  unfold State.strikes State.modify
  dsimp only
  rw [if_neg hn]

/-- The count of a record in which an update leaves it alone. -/
theorem strikes_modify {s : State} {name : Bytes} {f : Record → Record} {hook : Hook}
    (h : ∀ r, (f r).strikes hook = r.strikes hook) (n : Bytes) :
    (s.modify name f).strikes n hook = s.strikes n hook := by
  by_cases hn : n = name
  · unfold State.strikes State.modify
    dsimp only
    rw [if_pos hn, Option.map_map]
    cases s.scripts n with
    | none => rfl
    | some r => exact h r
  · exact strikes_modify_of_ne s hn f hook

/-- The count of a record that an update clears. -/
theorem strikes_modify_zero {s : State} {name : Bytes} {f : Record → Record} {hook : Hook}
    (h : ∀ r, (f r).strikes hook = 0) : (s.modify name f).strikes name hook = 0 := by
  unfold State.strikes State.modify
  dsimp only
  rw [if_pos rfl, Option.map_map]
  cases s.scripts name with
  | none => rfl
  | some r => exact h r

/-- The calls that clear the count of a hook. -/
def Api.clears : Api → Hook → Bool
  | .onReceive _, .receive | .onReceive _, .uartReceive | .onSend _, .send => true
  | _, _ => false

theorem strikes_callApi (c : Copy) (a : Api) (s : State) (n : Bytes) (hook : Hook) :
    (callApi c a s).strikes n hook =
      if n = c.script ∧ a.clears hook = true then 0 else s.strikes n hook := by
  have hmodify : ∀ {t : State} {f : Record → Record},
      t.scripts = (s.modify c.script f).scripts →
      (∀ r, (f r).strikes hook = if a.clears hook = true then 0 else r.strikes hook) →
      t.strikes n hook = if n = c.script ∧ a.clears hook = true then 0 else s.strikes n hook := by
    intro t f ht hf
    rw [strikes_congr ht]
    by_cases hn : n = c.script
    · unfold State.strikes State.modify
      dsimp only
      rw [if_pos hn, Option.map_map]
      cases s.scripts n with
      | none => simp
      | some r => simpa [hn] using hf r
    · rw [strikes_modify_of_ne s hn, if_neg fun hboth => hn hboth.1]
  have hsame : ∀ {t : State}, t.scripts = s.scripts → a.clears hook = false →
      t.strikes n hook = if n = c.script ∧ a.clears hook = true then 0 else s.strikes n hook := by
    intro t ht ha
    rw [strikes_congr ht, ha, if_neg fun hboth => Bool.noConfusion hboth.2]
  cases a with
  | timerStart ms id => exact hsame rfl rfl
  | timerLoopStart ms id => exact hsame rfl rfl
  | timerStop handle => exact hsame rfl rfl
  | highlightRule pattern color bg =>
    by_cases hempty : pattern = []
    · rw [callApi, if_pos hempty]
      exact hsame rfl rfl
    · rw [callApi, if_neg hempty]
      exact hmodify rfl fun r => by cases hook <;> rfl
  | fileReadAtAsync fd offset len id =>
    cases fd with
    | none => exact hsame rfl rfl
    | some fd =>
      unfold callApi
      dsimp only
      split
      · exact hsame rfl rfl
      · exact hsame rfl rfl
  | _ => exact hmodify rfl fun r => by cases hook <;> rfl

/-- What the end of a call makes of the record. -/
def Record.settle (record : Record) (hook : Hook) (r : Result) : Record :=
  if r = .error then
    if hookStrikes ≤ record.strikes hook + 1 then
      match hook with
      | .send => { record with sendHook := none, strikesSend := 0 }
      | .receive => { record with recvHook := none, strikesRecv := 0 }
      | .uartReceive =>
        { record with
          env := record.env.map fun e => { e with uartReceive := none }
          strikesRecv := 0 }
    else
      match hook with
      | .send => { record with strikesSend := record.strikesSend + 1 }
      | _ => { record with strikesRecv := record.strikesRecv + 1 }
  else
    match hook with
    | .send => { record with strikesSend := 0 }
    | .receive => { record with strikesRecv := 0 }
    | .uartReceive => record

theorem scripts_modify {s : State} {name : Bytes} {record : Record}
    (h : s.scripts name = some record) (f : Record → Record) (n : Bytes) :
    (s.modify name f).scripts n = if n = name then some (f record) else s.scripts n := by
  show (if n = name then (s.scripts n).map f else s.scripts n) = _
  split
  · rename_i hn
    rw [hn, h, Option.map_some]
  · rfl

theorem scripts_settle {s : State} {name : Bytes} {record : Record}
    (h : s.scripts name = some record) (hook : Hook) (r : Result) (n : Bytes) :
    (s.settle name hook r).scripts n =
      if n = name then some (record.settle hook r) else s.scripts n := by
  have hcount : ((s.scripts name).map (·.strikesRecv)).getD 0 = record.strikesRecv := by
    rw [h]
    rfl
  have hrecv : ∀ legacy, (s.strikeRecv name legacy).scripts n =
      if n = name then
        some (record.settle (if legacy then .uartReceive else .receive) .error)
      else s.scripts n := by
    intro legacy
    unfold State.strikeRecv
    rw [hcount]
    by_cases hlast : hookStrikes ≤ record.strikesRecv + 1
    · rw [if_pos hlast]
      cases legacy <;> simp [scripts_modify h, Record.settle, Record.strikes, hlast]
    · rw [if_neg hlast]
      cases legacy <;> simp [scripts_modify h, Record.settle, Record.strikes, hlast]
  cases hook with
  | send =>
    cases r with
    | error =>
      show (s.strikeSend name).scripts n = _
      rw [State.strikeSend, scripts_modify h]
      rfl
    | _ => exact scripts_modify h _ n
  | receive =>
    cases r with
    | error => exact hrecv false
    | _ => exact scripts_modify h _ n
  | uartReceive =>
    cases r with
    | error => exact hrecv true
    | _ =>
      show s.scripts n = _
      split
      · rename_i hn
        rw [hn, h]
        rfl
      · rfl

/-- The engine takes a hook away with the third strike of its count, and never else. -/
theorem Record.hook_settle (record : Record) (hook : Hook) (r : Result) :
    (record.settle hook r).hook hook =
      if r = .error ∧ hookStrikes ≤ record.strikes hook + 1 then none
      else record.hook hook := by
  by_cases herror : r = .error
  · by_cases hlast : hookStrikes ≤ record.strikes hook + 1
    · cases hook with
      | uartReceive => cases henv : record.env <;> simp [settle, herror, hlast, Record.hook, henv]
      | _ => simp [settle, herror, hlast, Record.hook]
    · cases hook <;> simp [settle, herror, hlast, Record.hook]
  · cases hook <;> simp [settle, herror, Record.hook]

/-- The count behind the end of a call, for a hook with the same count. -/
theorem Record.strikes_settle (record : Record) (hook : Hook) (r : Result) :
    (record.settle hook r).strikes hook =
      if r = .error then
        if record.strikes hook + 1 < hookStrikes then record.strikes hook + 1 else 0
      else if hook = .uartReceive then record.strikes hook else 0 := by
  unfold settle
  by_cases herror : r = .error
  · rw [if_pos herror, if_pos herror]
    by_cases hlast : hookStrikes ≤ record.strikes hook + 1
    · rw [if_pos hlast, if_neg (Nat.not_lt.mpr hlast)]
      cases hook <;> rfl
    · rw [if_neg hlast, if_pos (Nat.not_le.mp hlast)]
      cases hook <;> rfl
  · rw [if_neg herror, if_neg herror]
    cases hook <;> rfl

/-- The end of a call leaves the count of the other direction alone. -/
theorem Record.strikes_settle_send (record : Record) (r : Result) :
    (record.settle .send r).strikes .receive = record.strikes .receive := by
  unfold settle
  split
  · split <;> rfl
  · rfl

theorem Record.send_strikes_settle (record : Record) {hook : Hook} (hhook : hook ≠ .send)
    (r : Result) : (record.settle hook r).strikes .send = record.strikes .send := by
  unfold settle
  split
  · split
    · cases hook <;> first | rfl | exact absurd rfl hhook
    · cases hook <;> first | rfl | exact absurd rfl hhook
  · cases hook <;> first | rfl | exact absurd rfl hhook

/-- The streaks as the engine counts them: the count of the receive hooks is that of the one
that is in a streak. -/
structure Streaks.Counted (own : Streaks) (s : State) : Prop where
  send : ∀ name, s.strikes name .send = own name .send
  recv : ∀ name, s.strikes name .receive = own name .receive + own name .uartReceive
  apart : ∀ name, own name .receive = 0 ∨ own name .uartReceive = 0
  few : ∀ name hook, own name hook < hookStrikes

/-- The law of the three strikes. -/
def strikeBook : Book HookEvent Streaks State :=
  ⟨Streaks.after, Streaks.Apart, Streaks.Right, Streaks.Counted⟩

@[simp] theorem Streaks.set_self (own : Streaks) (script : Bytes) (hook : Hook) (n : Nat) :
    own.set script hook n script hook = n := if_pos ⟨rfl, rfl⟩

theorem Streaks.set_of_ne (own : Streaks) {script s : Bytes} {hook h : Hook} (n : Nat)
    (hne : ¬ (s = script ∧ h = hook)) : own.set script hook n s h = own s h := if_neg hne

namespace Streaks.Counted

variable {own : Streaks} {s t : State} {name : Bytes}

theorem congr (h : own.Counted s) (hstrikes : ∀ n hook, t.strikes n hook = s.strikes n hook) :
    own.Counted t where
  send n := (hstrikes n .send).trans (h.send n)
  recv n := (hstrikes n .receive).trans (h.recv n)
  apart := h.apart
  few := h.few

/-- A call that fails where the receive hooks are apart fails on the count of its hook. -/
theorem strikes_eq (h : own.Counted s) {hook : Hook}
    {held disabled : Bool} (hapart : own.standing (.ended name hook true held disabled) = 0) :
    s.strikes name hook = own name hook := by
  cases hook with
  | send => exact h.send name
  | receive =>
    have hother : own name .uartReceive = 0 := hapart
    rw [h.recv name, hother, Nat.add_zero]
  | uartReceive =>
    have hother : own name .receive = 0 := hapart
    show s.strikes name .receive = _
    rw [h.recv name, hother, Nat.zero_add]

/-- One streak of a send hook changed, with its count. -/
theorem set_send (h : own.Counted s) {v : Nat} (hv : v < hookStrikes)
    (hself : t.strikes name .send = v)
    (hother : ∀ n, n ≠ name → t.strikes n .send = s.strikes n .send)
    (hrecv : ∀ n, t.strikes n .receive = s.strikes n .receive) :
    (own.set name .send v).Counted t where
  send n := by
    by_cases hn : n = name
    · rw [hn, Streaks.set_self, hself]
    · rw [hother n hn, h.send n, own.set_of_ne v fun hboth => hn hboth.1]
  recv n := by
    rw [hrecv n, h.recv n, own.set_of_ne v (by simp), own.set_of_ne v (by simp)]
  apart n := by
    rw [own.set_of_ne v (by simp), own.set_of_ne v (by simp)]
    exact h.apart n
  few n hook := by
    unfold Streaks.set
    split
    · exact hv
    · exact h.few n hook

/-- One streak of a receive hook changed, with the common count, where the other hook is in
none. -/
theorem set_recv (h : own.Counted s) {hook other : Hook} {v : Nat} (hv : v < hookStrikes)
    (hhooks : (hook = .receive ∧ other = .uartReceive) ∨
      (hook = .uartReceive ∧ other = .receive))
    (hzero : own name other = 0 ∨ v = 0)
    (hself : t.strikes name .receive = v + own name other)
    (hother : ∀ n, n ≠ name → t.strikes n .receive = s.strikes n .receive)
    (hsend : ∀ n, t.strikes n .send = s.strikes n .send) :
    (own.set name hook v).Counted t where
  send n := by
    rw [hsend n, h.send n, own.set_of_ne v]
    rintro ⟨-, hsame⟩
    rcases hhooks with ⟨rfl, -⟩ | ⟨rfl, -⟩ <;> cases hsame
  recv n := by
    by_cases hn : n = name
    · subst hn
      rcases hhooks with ⟨rfl, rfl⟩ | ⟨rfl, rfl⟩
      · rw [hself, Streaks.set_self, own.set_of_ne v (by simp)]
      · rw [hself, Streaks.set_self, own.set_of_ne v (by simp), Nat.add_comm]
    · have hne : ∀ k, ¬ (n = name ∧ k = hook) := fun k hboth => hn hboth.1
      rw [hother n hn, h.recv n, own.set_of_ne v (hne _), own.set_of_ne v (hne _)]
  apart n := by
    by_cases hn : n = name
    · subst hn
      rcases hhooks with ⟨rfl, rfl⟩ | ⟨rfl, rfl⟩
      · rw [Streaks.set_self, own.set_of_ne v (by simp)]
        exact hzero.symm
      · rw [Streaks.set_self, own.set_of_ne v (by simp)]
        exact hzero
    · have hne : ∀ k, ¬ (n = name ∧ k = hook) := fun k hboth => hn hboth.1
      rw [own.set_of_ne v (hne _), own.set_of_ne v (hne _)]
      exact h.apart n
  few n k := by
    unfold Streaks.set
    split
    · exact hv
    · exact h.few n k

end Streaks.Counted

/-- The strikes of a script whose record alone is replaced. -/
theorem strikes_of_scripts {s t : State} {name : Bytes} {r : Record}
    (h : ∀ n, t.scripts n = if n = name then some r else s.scripts n) (n : Bytes) (hook : Hook) :
    t.strikes n hook = if n = name then r.strikes hook else s.strikes n hook := by
  unfold State.strikes
  rw [h n]
  split <;> rfl

section Settle

variable {s : State} {name : Bytes} {record : Record} {own : Streaks}

theorem strikes_settle_self (h : s.scripts name = some record) (hook : Hook) (r : Result)
    (k : Hook) : (s.settle name hook r).strikes name k = (record.settle hook r).strikes k := by
  rw [strikes_of_scripts (scripts_settle h hook r), if_pos rfl]

theorem strikes_settle_of_ne (h : s.scripts name = some record) (hook : Hook) (r : Result)
    {n : Bytes} (hn : n ≠ name) (k : Hook) :
    (s.settle name hook r).strikes n k = s.strikes n k := by
  rw [strikes_of_scripts (scripts_settle h hook r), if_neg hn]

theorem send_strikes_settle (h : s.scripts name = some record) (hook : Hook)
    (hhook : hook ≠ .send) (r : Result) (n : Bytes) :
    (s.settle name hook r).strikes n .send = s.strikes n .send := by
  by_cases hn : n = name
  · rw [hn, strikes_settle_self h, record.send_strikes_settle hhook, State.strikes, h]
    rfl
  · exact strikes_settle_of_ne h hook r hn .send

theorem strikes_settle_send (h : s.scripts name = some record) (r : Result) (n : Bytes) :
    (s.settle name .send r).strikes n .receive = s.strikes n .receive := by
  by_cases hn : n = name
  · rw [hn, strikes_settle_self h, record.strikes_settle_send, State.strikes, h]
    rfl
  · exact strikes_settle_of_ne h .send r hn .receive

/-- The streak of a hook behind the end of a call. -/
def Streaks.next (own : Streaks) (name : Bytes) (hook : Hook) (r : Result) : Nat :=
  if r = .error ∧ own name hook + 1 < hookStrikes then own name hook + 1 else 0

theorem Streaks.next_lt (own : Streaks) (name : Bytes) (hook : Hook) (r : Result) :
    own.next name hook r < hookStrikes := by
  unfold next
  split
  · rename_i hmore
    exact hmore.2
  · decide

theorem Streaks.after_ended (own : Streaks) (s : State) (name : Bytes) (hook : Hook)
    (r : Result) : own.after (ended s name hook r) = own.set name hook (own.next name hook r) := by
  simp [ended, after, next]

/-- Where a failure falls on the count of its own hook, the count goes on as the streak. -/
theorem strikes_settle_next (h : s.scripts name = some record) {hook : Hook} {r : Result}
    (hsame : r = .error → s.strikes name hook = own name hook)
    (hcase : hook ≠ .uartReceive ∨ r = .error) :
    (s.settle name hook r).strikes name hook = own.next name hook r := by
  rw [strikes_settle_self h, record.strikes_settle hook r, Streaks.next]
  by_cases herror : r = .error
  · have hcount : record.strikes hook = own name hook := by
      rw [← hsame herror, State.strikes, h]
      rfl
    simp [herror, hcount]
  · simp [herror, hcase.resolve_right herror]

/-- Where a failure falls on the count of its own hook, the hook is disabled with the third
in a row, and only then. -/
theorem ended_right (h : s.scripts name = some record) {hook : Hook} {r : Result}
    (hfew : own name hook < hookStrikes)
    (hsame : r = .error → s.strikes name hook = own name hook) :
    own.Right (ended s name hook r) := by
  have hhook : (s.settle name hook r).hook name hook =
      if r = .error ∧ hookStrikes ≤ s.strikes name hook + 1 then none
      else s.hook name hook := by
    rw [State.hook, scripts_settle h, if_pos rfl, State.hook, State.strikes, h]
    exact record.hook_settle hook r
  have hthird : r = .error ∧ hookStrikes ≤ s.strikes name hook + 1 ↔
      r = .error ∧ own name hook + 1 = hookStrikes := by
    apply and_congr_right
    intro herror
    rw [hsame herror]
    omega
  show _ ↔ _
  rw [hhook, if_congr hthird rfl rfl]
  cases hheld : s.hook name hook with
  | none => simp
  | some f => by_cases hlast : r = .error ∧ own name hook + 1 = hookStrikes <;> simp [hlast]

/-- The streaks stay counted where the receive hooks are apart. -/
theorem counted_settle (hown : own.Counted s) (h : s.scripts name = some record) (hook : Hook)
    (r : Result) (hapart : own.Apart (ended s name hook r))
    (hsame : r = .error → s.strikes name hook = own name hook) :
    (own.set name hook (own.next name hook r)).Counted (s.settle name hook r) := by
  have hv := own.next_lt name hook r
  cases hook with
  | send =>
    apply hown.set_send hv (strikes_settle_next h hsame (.inl nofun))
    · exact fun n hn => strikes_settle_of_ne h .send r hn .send
    · exact strikes_settle_send h r
  | receive =>
    have hrival : own name .uartReceive = 0 := hapart
    apply hown.set_recv hv (.inl ⟨rfl, rfl⟩) (.inl hrival)
    · rw [hrival, Nat.add_zero]
      exact strikes_settle_next h hsame (.inl nofun)
    · exact fun n hn => strikes_settle_of_ne h .receive r hn .receive
    · exact send_strikes_settle h .receive nofun r
  | uartReceive =>
    by_cases herror : r = .error
    · have hrival : own name .receive = 0 := by
        subst herror
        exact hapart
      apply hown.set_recv hv (.inr ⟨rfl, rfl⟩) (.inl hrival)
      · rw [hrival, Nat.add_zero]
        exact strikes_settle_next h hsame (.inr herror)
      · exact fun n hn => strikes_settle_of_ne h .uartReceive r hn .receive
      · exact send_strikes_settle h .uartReceive nofun r
    · -- A success leaves the common count to `on.receive`.
      have hnone : own name .uartReceive = 0 := by
        have hstanding : own.standing (ended s name .uartReceive r) = 0 := hapart
        simpa [ended, Streaks.standing, herror] using hstanding
      have hzero : own.next name .uartReceive r = 0 := by simp [Streaks.next, herror]
      have hleft : s.settle name .uartReceive r = s := by
        cases r with
        | error => exact absurd rfl herror
        | _ => rfl
      rw [hzero, hleft]
      apply hown.set_recv (by decide) (.inr ⟨rfl, rfl⟩) (.inr rfl)
      · rw [hown.recv name, hnone, Nat.add_comm]
      · exact fun n _ => rfl
      · exact fun n => rfl

/-- The end of a call is right, and the streaks stay counted. -/
theorem carries_settle (h : (s.scripts name).isSome) (hook : Hook) (r : Result) :
    strikeBook.Carries [ended s name hook r] s (s.settle name hook r) := by
  obtain ⟨record, hrecord⟩ := Option.isSome_iff_exists.mp h
  apply Book.Carries.single
  intro own hown hapart
  have hsame : r = .error → s.strikes name hook = own name hook := by
    intro herror
    subst herror
    exact Streaks.Counted.strikes_eq hown hapart
  constructor
  · exact ended_right hrecord (Streaks.Counted.few hown name hook) hsame
  · show (own.after (ended s name hook r)).Counted (s.settle name hook r)
    rw [own.after_ended]
    exact counted_settle hown hrecord hook r hapart hsame

end Settle

/-- The calls of the environment register hooks and leave the other counts alone. -/
theorem carries_api (c : Copy) (a : Api) (s : State) :
    strikeBook.Carries (apiEvents c a s) s (callApi c a s) := by
  have hquiet : (∀ k, a.clears k = false) → strikeBook.Carries [] s (callApi c a s) := by
    intro hclears
    apply Book.Carries.nil
    intro own hown
    apply Streaks.Counted.congr hown
    intro n k
    rw [strikes_callApi, hclears k, if_neg fun hboth => Bool.noConfusion hboth.2]
  cases a with
  | onReceive id =>
    apply Book.Carries.single
    intro own hown hapart
    have hrival : own c.script .uartReceive = 0 := hapart
    refine ⟨trivial, hown.set_recv (by decide) (.inl ⟨rfl, rfl⟩) (.inr rfl) ?_ ?_ ?_⟩
    · rw [strikes_callApi, if_pos ⟨rfl, rfl⟩, hrival]
    · intro n hn
      rw [strikes_callApi, if_neg fun hboth => hn hboth.1]
    · intro n
      rw [strikes_callApi, if_neg fun hboth => Bool.noConfusion hboth.2]
  | onSend id =>
    apply Book.Carries.single
    intro own hown hapart
    refine ⟨trivial, hown.set_send (by decide) ?_ ?_ ?_⟩
    · rw [strikes_callApi, if_pos ⟨rfl, rfl⟩]
    · intro n hn
      rw [strikes_callApi, if_neg fun hboth => hn hboth.1]
    · intro n
      rw [strikes_callApi, if_neg fun hboth => Bool.noConfusion hboth.2]
  | setUartReceive id =>
    have hkeep : ∀ n k, (callApi c (.setUartReceive id) s).strikes n k = s.strikes n k := by
      intro n k
      rw [strikes_callApi, if_neg fun hboth => Bool.noConfusion hboth.2]
    unfold apiEvents
    dsimp only
    split
    · apply Book.Carries.single
      intro own hown hapart
      have hnone : own c.script .uartReceive = 0 := hapart
      refine ⟨trivial, hown.set_recv (by decide) (.inr ⟨rfl, rfl⟩) (.inr rfl) ?_ ?_ ?_⟩
      · rw [hkeep, hown.recv, hnone, Nat.add_comm]
      · exact fun n _ => hkeep n .receive
      · exact fun n => hkeep n .send
    · exact hquiet fun k => by cases k <;> rfl
  | _ => exact hquiet fun k => by cases k <;> rfl

end Xcom.Script.Engine
