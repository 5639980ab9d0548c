import Xcom.Script.Containment

/-!
# Disabled and replaced copies

Disabling a script and loading it anew clear its hooks, not its timers and its reads in
flight, which belong to the engine and to the event loop.
-/

namespace Xcom.Script.Engine

/-- The script has no timer running and no read in flight. -/
def Idle (s : State) (name : Bytes) : Prop :=
  (∀ t ∈ s.timers, t.fn.owner.script ≠ name) ∧ ∀ r ∈ s.reads, r.fn.owner.script ≠ name

instance (s : State) (name : Bytes) : Decidable (Idle s name) :=
  inferInstanceAs (Decidable (_ ∧ _))

/-- Nothing of a script is under way when it is disabled, when a load replaces its copy, and
when a load leaves it disabled. -/
def Settled (s : State) : Op → Prop
  | .disable name => Idle s name
  | .enable name file =>
    Idle (onReload file s) name ∧
      ((loadScript name file s).2 = false → Idle (loadScript name file s).1 name)
  | .reload name file =>
    Idle (onReload file s) name ∧
      ((loadScript name file s).1.isEnabled name = false →
        Idle (loadScript name file s).1 name)
  | _ => True

instance (s : State) : (o : Op) → Decidable (Settled s o)
  | .disable name => inferInstanceAs (Decidable (Idle s name))
  | .enable _ _ => inferInstanceAs (Decidable (_ ∧ (_ → _)))
  | .reload _ _ => inferInstanceAs (Decidable (_ ∧ (_ → _)))
  | .loadAll _ | .receive _ _ | .send _ _ | .uiEvent _ _ | .fire _ _ | .readDone _ _
  | .evalCommand _ | .host _ _ | .shutdown => inferInstanceAs (Decidable True)

/-- Between two steps the engine holds functions of live copies only. -/
def Inv (s : State) : Prop := Held s.table (Live s.table) s

variable {T : Table} {A : Copy → Prop} {s : State} {name : Bytes}

theorem Held.inv (h : Held T (Live T) s) : Inv s := by
  unfold Inv
  rw [h.table]
  exact h

theorem Inv.touch (h : Inv s) : Inv s.touch :=
  (Held.congr h rfl rfl rfl rfl : Held s.table (Live s.table) s.touch).inv

theorem table_modify (s : State) {r : Record} (hs : s.scripts name = some r)
    (f : Record → Record) (n : Bytes) :
    (s.modify name f).table n = if n = name then some (f r).status else s.table n := by
  by_cases hn : n = name
  · simp [State.table, State.modify, hn, hs]
  · simp [State.table, State.modify, hn]

/-- The record of a row of the table. -/
theorem Held.record (h : Held T A s) {n : Nat} {b : Bool} (hT : T name = some (n, b)) :
    ∃ r, s.scripts name = some r ∧ r.load = n ∧ r.enabled = b := by
  have hrow : s.table name = some (n, b) := by rw [h.table, hT]
  obtain ⟨r, hr, hstatus⟩ := Option.map_eq_some_iff.mp hrow
  exact ⟨r, hr, congrArg Prod.fst hstatus, congrArg Prod.snd hstatus⟩

/-! ## A script goes out of use -/

/-- A smaller set that still has what the engine holds. -/
theorem Held.shrink (h : Held T A s) {B : Copy → Prop} (hsub : ∀ d, B d → A d)
    (htimers : ∀ t ∈ s.timers, B t.fn.owner) (hreads : ∀ r ∈ s.reads, B r.fn.owner) :
    Held T B s :=
  ⟨h.table, h.hooks, htimers, hreads, h.past, fun c hc d hd => h.beyond c hc d (hsub d hd),
    h.contained⟩

/-- An idle script leaves the set. -/
theorem Held.restrict (h : Held T A s) (hidle : Idle s name) :
    Held T (fun d => A d ∧ d.script ≠ name) s :=
  h.shrink (fun _ hd => hd.1) (fun t ht => ⟨h.timers t ht, hidle.1 t ht⟩)
    fun r hr => ⟨h.reads r hr, hidle.2 r hr⟩

/-- The present copy of a script outside the set is given up. -/
theorem Held.retire (h : Held T A s) (hA : ∀ d, A d → d.script ≠ name) {r : Record}
    (hs : s.scripts name = some r) : Held T A (s.retire name) := by
  have hload : s.loadOf name = r.load := by simp [State.loadOf, hs]
  refine ⟨h.table, h.hooks, h.timers, h.reads, ?_, ?_, ?_, ?_⟩
  · intro c hc
    rcases List.mem_cons.mp hc with heq | hc
    · cases heq
      exact ⟨r.load, r.enabled, h.row hs, Nat.le_of_eq hload⟩
    · exact h.past c hc
  · intro c hc d hd hscript
    rcases List.mem_cons.mp hc with heq | hc
    · cases heq
      exact absurd hscript (hA d hd)
    · exact h.beyond c hc d hd hscript
  · intro role f on hcall
    rcases List.mem_cons.mp hcall with heq | hcall
    · cases heq
    · exact h.contained.enabled role f on hcall
  · refine List.pairwise_cons.mpr ⟨?_, h.contained.outlives⟩
    intro older _ c d _ hd
    cases hd

/-- The flag of a script is set to what the set allows it. -/
theorem Held.settle (h : Held T A s) {r : Record} (hs : s.scripts name = some r)
    {f : Record → Record} {b : Bool} (hstatus : (f r).status = (r.load, b))
    (hhooks : r.HooksOf ⟨name, r.load⟩ → (f r).HooksOf ⟨name, r.load⟩)
    (hlive : ∀ d, d.script ≠ name → (A d ↔ Live T d))
    (hthis : ∀ d, d.script = name → A d → d.load = r.load)
    (hon : b = true → A ⟨name, r.load⟩) (hoff : b = false → Idle s name) :
    Inv (s.modify name f) := by
  have hT : ∀ n, (s.modify name f).table n = if n = name then some (r.load, b) else T n := by
    intro n
    rw [table_modify s hs f n, hstatus, h.table]
  have hself : ∀ d : Copy, d.script = name →
      (Live (s.modify name f).table d ↔ d.load = r.load ∧ b = true) := by
    intro d hd
    unfold Live
    rw [hT, if_pos hd]
    simp [eq_comm]
  have hother : ∀ d : Copy, d.script ≠ name →
      (Live (s.modify name f).table d ↔ A d) := by
    intro d hd
    rw [hlive d hd]
    unfold Live
    rw [hT, if_neg hd]
  -- what is held of the script itself is of its present copy, and the flag is on
  have hkept : ∀ d, A d → (d.script = name → b = true) → Live (s.modify name f).table d := by
    intro d hd hb
    by_cases hn : d.script = name
    · exact (hself d hn).mpr ⟨hthis d hn hd, hb hn⟩
    · exact (hother d hn).mpr hd
  have hflag : ∀ {d : Copy}, (Idle s name → d.script ≠ name) → d.script = name → b = true := by
    intro d hd hn
    cases hb : b with
    | true => rfl
    | false => exact absurd hn (hd (hoff hb))
  constructor
  · rfl
  · intro n q hq
    by_cases hn : n = name
    · subst hn
      have hqr : q = f r := by
        have hfr : (s.modify n f).scripts n = some (f r) := by simp [State.modify, hs]
        rw [hfr] at hq
        exact (Option.some.inj hq).symm
      have hload : (f r).load = r.load := congrArg Prod.fst hstatus
      rw [hqr, hload]
      exact hhooks (h.hooks n r hs)
    · simp only [State.modify, if_neg hn] at hq
      exact h.hooks n q hq
  · intro t ht
    exact hkept _ (h.timers t ht) (hflag fun hidle => hidle.1 t ht)
  · intro q hq
    exact hkept _ (h.reads q hq) (hflag fun hidle => hidle.2 q hq)
  · intro c hc
    obtain ⟨n, b', hrow, hle⟩ := h.past c hc
    by_cases hn : c.script = name
    · rw [hn, h.row hs] at hrow
      cases hrow
      exact ⟨r.load, b, by rw [hT, if_pos hn], hle⟩
    · exact ⟨n, b', by rw [hT, if_neg hn, hrow], hle⟩
  · intro c hc d hd hscript
    by_cases hn : d.script = name
    · obtain ⟨hload, hb⟩ := (hself d hn).mp hd
      have hd' : A d := by
        have heq : (⟨name, r.load⟩ : Copy) = d := by
          cases d
          simp_all
        exact heq ▸ hon hb
      exact h.beyond c hc d hd' hscript
    · exact h.beyond c hc d ((hother d hn).mp hd) hscript
  · exact h.contained

/-- A script is given up and left disabled. -/
theorem Held.giveUp (h : Held T A s) {r : Record} (hs : s.scripts name = some r)
    {f : Record → Record} (hstatus : (f r).status = (r.load, false))
    (hhooks : r.HooksOf ⟨name, r.load⟩ → (f r).HooksOf ⟨name, r.load⟩)
    (hlive : ∀ d, d.script ≠ name → (A d ↔ Live T d)) (hidle : Idle s name) :
    Inv (((s.retire name).modify name f).touch) := by
  have hretired := (h.restrict hidle).retire (fun d hd => hd.2) hs
  refine (hretired.settle hs hstatus hhooks ?_ ?_ (by simp) fun _ => hidle).touch
  · intro d hd
    rw [← hlive d hd]
    exact and_iff_left hd
  · intro d hd hA
    exact absurd hd hA.2

/-! ## A load -/

/-- The live copies of the other scripts and the copy `n` of this one. -/
def Opened (T : Table) (name : Bytes) (n : Nat) (d : Copy) : Prop :=
  d.script ≠ name ∧ Live T d ∨ d = ⟨name, n⟩

theorem bounds_opened {n : Nat} {b : Bool} (hT : T name = some (n, b)) :
    Bounds T (Opened T name n) where
  live d hd := by
    by_cases hn : d.script = name
    · have hload : d.load = n := by
        unfold Live at hd
        rw [hn, hT] at hd
        exact (congrArg Prod.fst (Option.some.inj hd)).symm
      cases d
      exact .inr (by simp_all)
    · exact .inl ⟨hn, hd⟩
  loaded d hd := by
    rcases hd with ⟨-, hd⟩ | rfl
    · exact ⟨true, hd⟩
    · exact ⟨b, hT⟩

/-- The record of an idle script is cleared for a new copy. -/
theorem Held.fresh (h : Held T (Live T) s) {r : Record} (hs : s.scripts name = some r)
    (hidle : Idle s name) {t : State}
    (ht : t = (s.retire name).modify name fun r => r.fresh name) :
    t.table name = some (r.load + 1, r.enabled) ∧
      Held t.table (Opened t.table name (r.load + 1)) t := by
  have hretired := (h.restrict hidle).retire (fun d hd => hd.2) hs
  have hT : ∀ n, t.table n = if n = name then some (r.load + 1, r.enabled) else T n := by
    intro n
    rw [ht, table_modify (s.retire name) hs _ n, hretired.table]
    rfl
  have htimers : t.timers = (s.retire name).timers := by rw [ht]; rfl
  have hreads : t.reads = (s.retire name).reads := by rw [ht]; rfl
  have htrace : t.trace = (s.retire name).trace := by rw [ht]; rfl
  have hkept : ∀ d, Live T d ∧ d.script ≠ name → Opened t.table name (r.load + 1) d := by
    intro d hd
    refine .inl ⟨hd.2, ?_⟩
    unfold Live
    rw [hT, if_neg hd.2]
    exact hd.1
  have hpast : ∀ c, .retired c ∈ t.trace →
      ∃ n b, T c.script = some (n, b) ∧ c.load ≤ n := by
    intro c hc
    exact hretired.past c (htrace ▸ hc)
  refine ⟨by rw [hT, if_pos rfl], rfl, ?_, ?_, ?_, ?_, ?_, ?_⟩
  · intro n q hq
    by_cases hn : n = name
    · subst hn
      have hfresh : t.scripts n = some (r.fresh n) := by
        rw [ht]
        simp [State.modify, State.retire, State.note, hs]
      rw [hfresh] at hq
      cases hq
      exact ⟨by rintro f ⟨⟩, by rintro f ⟨⟩, by rintro f ⟨⟩, by rintro f ⟨⟩,
        by rintro e ⟨⟩; rfl⟩
    · have hsame : t.scripts n = s.scripts n := by
        rw [ht]
        simp [State.modify, State.retire, State.note, hn]
      exact h.hooks n q (hsame ▸ hq)
  · intro u hu
    exact hkept _ (hretired.timers u (htimers ▸ hu))
  · intro u hu
    exact hkept _ (hretired.reads u (hreads ▸ hu))
  · intro c hc
    obtain ⟨n, b, hrow, hle⟩ := hpast c hc
    by_cases hn : c.script = name
    · rw [hn, h.row hs] at hrow
      cases hrow
      exact ⟨r.load + 1, r.enabled, by rw [hT, if_pos hn], Nat.le_succ_of_le hle⟩
    · exact ⟨n, b, by rw [hT, if_neg hn, hrow], hle⟩
  · intro c hc d hd hscript
    rcases hd with ⟨hn, hd⟩ | rfl
    · unfold Live at hd
      rw [hT, if_neg hn] at hd
      exact hretired.beyond c (htrace ▸ hc) d ⟨hd, hn⟩ hscript
    · obtain ⟨n, b, hrow, hle⟩ := hpast c hc
      rw [← hscript, h.row hs] at hrow
      cases hrow
      exact Nat.lt_succ_of_le hle
  · exact htrace ▸ hretired.contained

theorem held_onReload (h : Held T (Live T) s) (file : File) :
    Held T (Live T) (onReload file s) := by
  unfold onReload
  split
  · exact h
  · exact held_dispatchReceive (bounds_live T) _ _ h

theorem isEnabled_off (s : State) (name : Bytes) {f : Record → Record}
    (hf : ∀ r, (f r).enabled = false) : (s.modify name f).touch.isEnabled name = false := by
  cases hs : s.scripts name <;> simp [State.isEnabled, State.touch, State.modify, hs, hf]

theorem modify_unknown (hs : s.scripts name = none) (f : Record → Record) :
    s.modify name f = s := by
  have hsame : (s.modify name f).scripts = s.scripts := by
    funext n
    by_cases hn : n = name
    · simp [State.modify, hn, hs]
    · simp [State.modify, hn]
  cases s
  simpa [State.modify] using hsame

/-- What `load_script` leaves behind: a disabled script, or a new copy. -/
theorem loadScript_spec (h : Inv s) (name : Bytes) (file : File)
    (hidle : Idle (onReload file s) name) :
    ((loadScript name file s).2 = false ∧
      (loadScript name file s).1.isEnabled name = false ∧
      (Idle (loadScript name file s).1 name → Inv (loadScript name file s).1)) ∨
    (loadScript name file s).2 = true ∧ ∃ T n b, T name = some (n, b) ∧
      Held T (Opened T name n) (loadScript name file s).1 := by
  cases hs : s.scripts name with
  | none =>
    simp only [loadScript, hs]
    exact .inl ⟨trivial, by simp [State.isEnabled, hs], fun _ => h⟩
  | some r₀ =>
    have h₁ := held_onReload h file
    have hT : s.table name = some (r₀.load, r₀.enabled) := by
      simp [State.table, hs, Record.status]
    obtain ⟨r, hr, -, -⟩ := h₁.record hT
    cases hchunk : file.chunk with
    | none =>
      simp only [loadScript, hs, hchunk]
      refine .inl ⟨trivial, isEnabled_off _ name fun _ => rfl, fun _ => ?_⟩
      exact h₁.giveUp hr rfl (fun hold => hold.congr rfl rfl rfl) (fun d _ => Iff.rfl) hidle
    | some chunk =>
      obtain ⟨s₂, hs₂⟩ :
          ∃ t, t = ((onReload file s).retire name).modify name fun r => r.fresh name :=
        ⟨_, rfl⟩
      obtain ⟨hrow, h₂⟩ := h₁.fresh hr hidle hs₂
      obtain ⟨r₂, hr₂, hload₂, -⟩ := h₂.record hrow
      have hload : s₂.loadOf name = r.load + 1 := by simp [State.loadOf, hr₂, hload₂]
      have h₃ := held_exec (bounds_opened hrow) chunk (c := ⟨name, r.load + 1⟩) (.inr rfl) h₂
      simp only [loadScript, hs, hchunk, ← hs₂, hload]
      rcases hres : exec chunk ⟨name, r.load + 1⟩ s₂ with ⟨s₃, out⟩
      rw [hres] at h₃
      have hloaded : ∃ T n b, T name = some (n, b) ∧
          Held T (Opened T name n) { s₃ with rulesDirty := true }.touch :=
        ⟨_, _, _, hrow, h₃.congr rfl rfl rfl rfl⟩
      cases out with
      | nothing => exact .inr ⟨rfl, hloaded⟩
      | text p => exact .inr ⟨rfl, hloaded⟩
      | value => exact .inr ⟨rfl, hloaded⟩
      | error =>
        refine .inl ⟨rfl, isEnabled_off _ name fun _ => rfl, fun hfinal => ?_⟩
        obtain ⟨r₃, hr₃, hload₃, -⟩ := h₃.record hrow
        refine h₃.giveUp hr₃ rfl (fun hold => ⟨hold.recv, hold.send, ?_, ?_, ?_⟩) ?_ hfinal
        · rintro f ⟨⟩
        · rintro f ⟨⟩
        · rintro e ⟨⟩
        · intro d hd
          constructor
          · rintro (hA | rfl)
            · exact hA.2
            · exact absurd rfl hd
          · intro hlive
            exact .inl ⟨hd, hlive⟩

/-! ## Runs -/

theorem inv_init : Inv machine.init where
  table := rfl
  hooks := by rintro name r ⟨⟩
  timers := by rintro t ⟨⟩
  reads := by rintro r ⟨⟩
  past := by rintro c ⟨⟩
  beyond := by rintro c ⟨⟩
  contained := ⟨by rintro role f on ⟨⟩, .nil⟩

theorem inv_loadAll (h : Inv s) (names : List Bytes) : Inv (loadAll names s) := by
  have hold : ∀ n r, s.scripts n = some r → (loadAll names s).scripts n = some r := by
    intro n r hr
    simp [loadAll, State.touch, hr]
  have hnew : ∀ n r, (loadAll names s).scripts n = some r → s.scripts n = some r ∨ r = {} := by
    intro n r hr
    cases hs : s.scripts n with
    | none =>
      by_cases hn : n ∈ names
      · exact .inr (by simpa [loadAll, State.touch, hs, hn, eq_comm] using hr)
      · simp [loadAll, State.touch, hs, hn] at hr
    | some q =>
      rw [hold n q hs] at hr
      exact .inl hr
  have hrow : ∀ n x, s.table n = some x → (loadAll names s).table n = some x := by
    intro n x hx
    obtain ⟨r, hr, rfl⟩ := Option.map_eq_some_iff.mp hx
    simp [State.table, hold n r hr]
  have hlive : ∀ c, Live (loadAll names s).table c → Live s.table c := by
    intro c hc
    obtain ⟨r, hr, hstatus⟩ := Option.map_eq_some_iff.mp hc
    rcases hnew _ r hr with hr | rfl
    · unfold Live State.table
      rw [hr, Option.map_some, hstatus]
    · have hflag : false = true := congrArg Prod.snd hstatus
      cases hflag
  refine ⟨rfl, ?_, fun t ht => hrow _ _ (h.timers t ht), fun r hr => hrow _ _ (h.reads r hr),
    ?_, fun c hc d hd => h.beyond c hc d (hlive d hd), h.contained⟩
  · intro n r hr
    rcases hnew n r hr with hr | rfl
    · exact h.hooks n r hr
    · exact ⟨by rintro f ⟨⟩, by rintro f ⟨⟩, by rintro f ⟨⟩, by rintro f ⟨⟩, by rintro e ⟨⟩⟩
  · intro c hc
    obtain ⟨n, b, hT, hle⟩ := h.past c hc
    exact ⟨n, b, hrow _ _ hT, hle⟩

theorem inv_disable (h : Inv s) (hidle : Idle s name) : Inv (disable name s) := by
  unfold disable
  cases hs : s.scripts name with
  | none => exact h
  | some r =>
    exact Held.giveUp h hs rfl (fun hold => hold.congr rfl rfl rfl) (fun d _ => Iff.rfl) hidle

theorem inv_enable (h : Inv s) (file : File) (hidle : Idle (onReload file s) name)
    (hfailed : (loadScript name file s).2 = false → Idle (loadScript name file s).1 name) :
    Inv (enable name file s) := by
  have hspec := loadScript_spec h name file hidle
  unfold enable
  rcases hres : loadScript name file s with ⟨t, ok⟩
  rw [hres] at hspec hfailed
  rcases hspec with ⟨rfl, -, hinv⟩ | ⟨rfl, T, n, b, hT, hheld⟩
  · have hoff : Idle t name := hfailed rfl
    have ht : Inv t := hinv hoff
    cases hs : t.scripts name with
    | none =>
      simp only [modify_unknown hs]
      exact ht
    | some r =>
      refine (ht.restrict hoff).settle (b := false) hs rfl
        (fun hold => hold.congr rfl rfl rfl) ?_ ?_ (by simp) fun _ => hoff
      · intro d hd
        exact and_iff_left hd
      · intro d hd hA
        exact absurd hd hA.2
  · obtain ⟨r, hr, rfl, -⟩ := hheld.record hT
    refine (hheld.settle (b := true) hr rfl (fun hold => hold.congr rfl rfl rfl) ?_ ?_
      (fun _ => .inr rfl) (by simp)).touch
    · intro d hd
      constructor
      · rintro (hA | rfl)
        · exact hA.2
        · exact absurd rfl hd
      · intro hlive
        exact .inl ⟨hd, hlive⟩
    · rintro d hd (hA | rfl)
      · exact absurd hd hA.1
      · rfl

theorem inv_reload (h : Inv s) (file : File) (hidle : Idle (onReload file s) name)
    (hoff : (loadScript name file s).1.isEnabled name = false →
      Idle (loadScript name file s).1 name) : Inv (loadScript name file s).1 := by
  rcases loadScript_spec h name file hidle with ⟨-, hdisabled, hinv⟩ | ⟨-, T, n, b, hT, hheld⟩
  · exact hinv (hoff hdisabled)
  · -- the new copy is live when the script is enabled, and holds nothing when it is not
    have hlive : ∀ {d}, Opened T name n d → (b = false → d.script ≠ name) → Live T d := by
      rintro d (hA | rfl) hb
      · exact hA.2
      · cases b with
        | true => exact hT
        | false => exact absurd rfl (hb rfl)
    have hflag : b = false → Idle (loadScript name file s).1 name := by
      rintro rfl
      obtain ⟨r, hr, -, hon⟩ := hheld.record hT
      exact hoff (by simp [State.isEnabled, hr, hon])
    refine (hheld.shrink (fun d hd => (bounds_opened hT).live d hd) ?_ ?_).inv
    · intro t ht
      exact hlive (hheld.timers t ht) fun hb => (hflag hb).1 t ht
    · intro r hr
      exact hlive (hheld.reads r hr) fun hb => (hflag hb).2 r hr

theorem inv_fire (h : Inv s) {t : State} {handle : Nat} {code : Code}
    (hfire : fire handle code s = some t) : Inv t := by
  obtain ⟨u, hu, rfl⟩ := Option.map_eq_some_iff.mp hfire
  have hlive : Live s.table u.fn.owner := h.timers u (List.mem_of_find?_eq_some hu)
  have hrest : Held s.table (Live s.table)
      (if u.repeating then s else s.timerDestroy handle) := by
    split
    · exact h
    · exact Held.timerDestroy h handle
  exact (held_exec (bounds_live _) code hlive
    (hrest.calling (bounds_live _) .timer hlive)).inv

theorem inv_readDone (h : Inv s) {t : State} {index : Nat} {code : Code}
    (hdone : readDone index code s = some t) : Inv t := by
  obtain ⟨r, hr, rfl⟩ := Option.map_eq_some_iff.mp hdone
  have hlive : Live s.table r.fn.owner := h.reads r (List.mem_of_getElem? hr)
  have hrest : Held s.table (Live s.table) { s with reads := s.reads.eraseIdx index } :=
    ⟨h.table, h.hooks, h.timers, fun q hq => h.reads q (List.mem_of_mem_eraseIdx hq),
      h.past, h.beyond, h.contained⟩
  exact (held_exec (bounds_live _) code hlive
    (hrest.calling (bounds_live _) .read hlive)).inv

/-- What one step keeps. -/
theorem inv_step (h : Inv s) {o : Op} (hsettled : Settled s o) {t : State}
    (hstep : step s o = some t) : Inv t := by
  have hA := bounds_live s.table
  cases o with
  | loadAll names =>
    cases hstep
    exact inv_loadAll h names
  | enable name file =>
    cases hstep
    exact inv_enable h file hsettled.1 hsettled.2
  | disable name =>
    cases hstep
    exact inv_disable h hsettled
  | reload name file =>
    cases hstep
    exact inv_reload h file hsettled.1 hsettled.2
  | receive text codes =>
    cases hstep
    exact (held_dispatchReceive hA codes text h).inv
  | send data codes =>
    cases hstep
    exact (held_coreSend hA (keeps_run hA codes .send) data h).inv
  | uiEvent page codes =>
    cases hstep
    exact (held_dispatchUiEvent hA codes page h).inv
  | fire handle code => exact inv_fire h hstep
  | readDone index code => exact inv_readDone h hstep
  | evalCommand code =>
    obtain ⟨c, hc, rfl⟩ := Option.map_eq_some_iff.mp hstep
    exact (held_exec hA code (live_replCopy h hc) h).inv
  | host isOpen ready =>
    cases hstep
    exact (Held.congr h rfl rfl rfl rfl :
      Held s.table (Live s.table) { s with isOpen := isOpen, ready := ready }).inv
  | shutdown =>
    cases hstep
    exact (⟨h.table, h.hooks, by rintro u ⟨⟩, h.reads, h.past, h.beyond, h.contained⟩ :
      Held s.table (Live s.table) (shutdown s)).inv

/-- In a run that disables and replaces only copies with nothing under way, no function of a
copy given up is called and none of its code sends. -/
theorem calls_contained {s : State} (hs : Transition.ReachUnder machine Settled s) :
    Contained s.trace := by
  have hinv : Inv s := hs.invariant inv_init fun _ _ _ h hc hstep => inv_step h hc hstep
  exact hinv.contained

/-- The name of a script. -/
def sampleName : Bytes := [0x61]

/-- A chunk that registers a receive hook and starts a timer. -/
def sampleChunk (repeating : Bool) : Code :=
  .api (.onReceive 0)
    (.api (if repeating then .timerLoopStart 10 1 else .timerStart 10 1) (.ret .nothing))

/-- The script sends when its timer fires, and is disabled afterwards. -/
def sampleRun : List Op :=
  [.host true true, .loadAll [sampleName],
    .enable sampleName { chunk := some (sampleChunk false) },
    .receive [0x78] fun _ _ => .ret .value,
    .fire 0 (.send [0x79] (fun _ => .ret .value) (.ret .nothing)), .disable sampleName]

theorem calls_contained_timer :
    Contained [.retired ⟨sampleName, 1⟩, .sent ⟨sampleName, 1⟩ [0x79],
      .call .timer ⟨⟨sampleName, 1⟩, 1⟩ true, .call .receive ⟨⟨sampleName, 1⟩, 0⟩ true,
      .retired ⟨sampleName, 0⟩] := by
  obtain ⟨s, hs, htrace⟩ := Transition.exists_of_execUnder (m := machine) (c := Settled)
    (p := fun s => s.trace = [.retired ⟨sampleName, 1⟩, .sent ⟨sampleName, 1⟩ [0x79],
      .call .timer ⟨⟨sampleName, 1⟩, 1⟩ true, .call .receive ⟨⟨sampleName, 1⟩, 0⟩ true,
      .retired ⟨sampleName, 0⟩]) sampleRun (by decide)
  exact htrace ▸ calls_contained hs

/-- A repeating timer goes on after its script was disabled. -/
theorem calls_after_disable :
    ¬ ∀ s, Transition.Reach machine s → Contained s.trace := by
  intro hall
  obtain ⟨s, hs, hcall⟩ := Transition.exists_of_execUnder (m := machine)
    (c := fun _ _ => True)
    (p := fun s => .call .timer ⟨⟨sampleName, 1⟩, 1⟩ false ∈ s.trace)
    [.loadAll [sampleName], .enable sampleName { chunk := some (sampleChunk true) },
      .disable sampleName, .fire 0 (.ret .nothing)] (by decide)
  exact absurd ((hall s hs).enabled _ _ _ hcall) (by decide)

end Xcom.Script.Engine
