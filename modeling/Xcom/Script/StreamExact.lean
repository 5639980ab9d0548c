import Xcom.Script.StreamHandlers

/-!
# The stream sends the file

The record of the stream agrees with the table of the copy as long as no completion is
acted upon that belongs to another file or offset.
-/

namespace Xcom.Script.SendFile

open Engine (Copy)

/-! ## The laws of the stream -/

/-- The record agrees with the stream. -/
structure Told (k : Core) (content : Bytes) (log : Log) : Prop where
  accepted : log.accepted = content.take k.offset
  within : k.offset ≤ content.length
  past : ∀ a ∈ log.acts, a.fired ≤ log.fired
  fresh : k.inflight ≠ none → ∀ a ∈ log.acts, a.fired < log.fired
  perFiring : (log.acts.map Act.fired).Nodup
  behind : ∀ a ∈ log.acts, a.outcome = .accepted → a.offset < k.offset
  failed : ∀ a ∈ log.acts, a.outcome = .failed → k.fd = none
  perOffset : ((log.acts.filter (·.outcome ≠ .refused)).map Act.offset).Nodup
  counted : k.running = true →
    log.refusals = k.stallRetries ∧ k.stallRetries ≤ maxStallRetries
  refusals : log.refusals ≤ maxStallRetries + 1
  ended : log.refusals = maxStallRetries + 1 → k.running = false ∧ k.fd = none

section Laws

variable {k k' : Core} {content : Bytes} {log : Log}

theorem Told.halts (h : Told k content log) (hk : k.Halts k') : Told k' content log := by
  have hclosed : k.fd = none → k'.fd = none := by
    intro hnone
    rcases hk.fd with hfd | hfd
    · exact hfd.trans hnone
    · exact hfd
  refine ⟨?_, ?_, h.past, ?_, h.perFiring, ?_, ?_, h.perOffset, ?_, h.refusals, ?_⟩
  · rw [hk.offset]
    exact h.accepted
  · rw [hk.offset]
    exact h.within
  · intro hinflight
    apply h.fresh
    rcases hk.inflight with hsame | hnone
    · exact hsame ▸ hinflight
    · exact absurd hnone hinflight
  · rw [hk.offset]
    exact h.behind
  · exact fun a ha hfailed => hclosed (h.failed a ha hfailed)
  · intro hrunning
    rw [hk.running] at hrunning
    cases hrunning
  · exact fun hend => ⟨hk.running, hclosed (h.ended hend).2⟩

/-- The timer fires. -/
theorem Told.fired (h : Told k content log) :
    Told k content { log with fired := log.fired + 1 } :=
  ⟨h.accepted, h.within, fun a ha => Nat.le_succ_of_le (h.past a ha),
    fun hinflight a ha => Nat.lt_succ_of_lt (h.fresh hinflight a ha), h.perFiring, h.behind,
    h.failed, h.perOffset, h.counted, h.refusals, h.ended⟩

/-- The timer fires and a read is issued. -/
theorem Told.issue (h : Told k content log) (flight : Option Flight)
    (reads : List Engine.Read) :
    Told { k with inflight := flight, reads := reads } content
      { log with fired := log.fired + 1 } :=
  ⟨h.accepted, h.within, h.fired.past, fun _ a ha => Nat.lt_succ_of_le (h.past a ha),
    h.perFiring, h.behind, h.failed, h.perOffset, h.counted, h.refusals, h.ended⟩

/-- A stream from the beginning, or a new file. -/
theorem Told.restart (log : Log) (hoffset : k.offset = 0)
    (hstall : k.running = true → k.stallRetries = 0) : Told k content log.restart := by
  refine ⟨?_, ?_, nofun, fun _ => nofun, List.nodup_nil, nofun, nofun, List.nodup_nil, ?_,
    Nat.zero_le _, nofun⟩
  · rw [hoffset]
    rfl
  · rw [hoffset]
    exact Nat.zero_le _
  · intro hrunning
    rw [hstall hrunning]
    exact ⟨rfl, Nat.zero_le _⟩

/-- A stream that goes on where it was. -/
theorem Told.resume (h : Told k content log) :
    Told { k with running := true, stallRetries := 0 } content { log with refusals := 0 } :=
  ⟨h.accepted, h.within, h.past, h.fresh, h.perFiring, h.behind, h.failed, h.perOffset,
    fun _ => ⟨rfl, Nat.zero_le _⟩, Nat.zero_le _, nofun⟩

/-! ### A completion that is acted upon -/

section Act

variable {data : Option Bytes} {sent : Sent}

/-- Nothing but refusals has come of the offset the stream is at. -/
theorem Told.offset_fresh (h : Told k content log) (hfd : k.fd ≠ none) :
    k.offset ∉ (log.acts.filter (·.outcome ≠ .refused)).map Act.offset := by
  intro hmem
  obtain ⟨a, ha, hoffset⟩ := List.mem_map.mp hmem
  obtain ⟨ha, hnot⟩ := List.mem_filter.mp ha
  cases hout : a.outcome with
  | accepted =>
    have hlt := h.behind a ha hout
    omega
  | refused => simp [hout] at hnot
  | failed => exact hfd (h.failed a ha hout)

theorem Told.act_past (h : Told k content log) (offset : Nat) :
    ∀ a ∈ (log.act offset data sent).acts, a.fired ≤ (log.act offset data sent).fired := by
  intro a ha
  rcases List.mem_cons.mp ha with rfl | ha
  · exact Nat.le_refl _
  · exact h.past a ha

theorem Told.act_perFiring (h : Told k content log) (hflight : k.inflight ≠ none)
    (offset : Nat) : ((log.act offset data sent).acts.map Act.fired).Nodup := by
  refine List.nodup_cons.mpr ⟨?_, h.perFiring⟩
  intro hmem
  obtain ⟨a, ha, hfired⟩ := List.mem_map.mp hmem
  exact Nat.ne_of_lt (h.fresh hflight a ha) hfired

theorem Told.act_perOffset (h : Told k content log) (hfd : k.fd ≠ none) :
    (((log.act k.offset data sent).acts.filter (·.outcome ≠ .refused)).map
      Act.offset).Nodup := by
  rw [Log.act, List.filter_cons]
  split
  · exact List.nodup_cons.mpr ⟨h.offset_fresh hfd, h.perOffset⟩
  · exact h.perOffset

/-- The chunk at the offset is accepted. -/
theorem Told.accept (h : Told k content log) (hflight : k.inflight ≠ none)
    (hfd : k.fd ≠ none) (hout : outcome data sent = .accepted) (hdata : data.getD [] ≠ [])
    {n : Nat} (hread : data = some ((content.drop k.offset).take n)) :
    Told { k with
      inflight := none
      stallRetries := 0
      offset := k.offset + (data.getD []).length } content (log.act k.offset data sent) := by
  have hpos := List.length_pos_iff.mpr hdata
  have hbytes : data.getD [] = (content.drop k.offset).take (data.getD []).length := by
    rw [hread, Option.getD_some, List.length_take, ← List.take_eq_take_min]
  have hlength : (data.getD []).length ≤ content.length - k.offset := by
    rw [hread, Option.getD_some, List.length_take, List.length_drop]
    exact Nat.min_le_right _ _
  have hwithin := h.within
  refine ⟨?_, ?_, h.act_past _, fun hnone => absurd rfl hnone, h.act_perFiring hflight _, ?_,
    ?_, h.act_perOffset hfd, fun _ => ?_, ?_, ?_⟩
  · rw [Log.act, if_pos hout, h.accepted, List.take_add, ← hbytes]
  · dsimp only
    omega
  · intro a ha haccepted
    rcases List.mem_cons.mp ha with rfl | ha
    · exact Nat.lt_add_of_pos_right hpos
    · exact Nat.lt_add_right _ (h.behind a ha haccepted)
  · intro a ha hfailed
    rcases List.mem_cons.mp ha with rfl | ha
    · rw [hout] at hfailed
      cases hfailed
    · exact h.failed a ha hfailed
  · simp [Log.act, hout]
  · simp [Log.act, hout]
  · simp [Log.act, hout]

/-- The chunk is refused and will be read again. -/
theorem Told.refuse (h : Told k content log) (hflight : k.inflight ≠ none)
    (hfd : k.fd ≠ none) (hrunning : k.running = true) (hout : outcome data sent = .refused)
    (hstall : k.stallRetries < maxStallRetries) :
    Told { k with inflight := none, stallRetries := k.stallRetries + 1 } content
      (log.act k.offset data sent) := by
  obtain ⟨hcount, -⟩ := h.counted hrunning
  have hrefusals : (log.act k.offset data sent).refusals = k.stallRetries + 1 := by
    rw [Log.act, if_pos hout, hcount]
  refine ⟨?_, h.within, h.act_past _, fun hnone => absurd rfl hnone,
    h.act_perFiring hflight _, ?_, ?_, h.act_perOffset hfd, fun _ => ⟨hrefusals, hstall⟩,
    ?_, ?_⟩
  · rw [Log.act, if_neg (by simp [hout])]
    exact h.accepted
  · intro a ha haccepted
    rcases List.mem_cons.mp ha with rfl | ha
    · rw [hout] at haccepted
      cases haccepted
    · exact h.behind a ha haccepted
  · intro a ha hfailed
    rcases List.mem_cons.mp ha with rfl | ha
    · rw [hout] at hfailed
      cases hfailed
    · exact h.failed a ha hfailed
  · rw [hrefusals]
    omega
  · intro hend
    rw [hrefusals] at hend
    omega

/-- The stream ends: nothing was read, the port fails, or the limit is reached. -/
theorem Told.quit (h : Told k content log) (hflight : k.inflight ≠ none) (hfd : k.fd ≠ none)
    (hrunning : k.running = true) (hout : outcome data sent ≠ .accepted) (hk : k.Halts k')
    (hclosed : k'.fd = none) (hgone : k'.inflight = none) :
    Told k' content (log.act k.offset data sent) := by
  obtain ⟨hcount, hmax⟩ := h.counted hrunning
  have hhalted := h.halts hk
  have hbound : (log.act k.offset data sent).refusals ≤ maxStallRetries + 1 := by
    rw [Log.act]
    dsimp only
    split <;> omega
  refine ⟨?_, hhalted.within, h.act_past _, fun hnone => absurd hgone hnone,
    h.act_perFiring hflight _, ?_, fun _ _ _ => hclosed, h.act_perOffset hfd, ?_, hbound,
    fun _ => ⟨hk.running, hclosed⟩⟩
  · rw [Log.act, if_neg hout]
    exact hhalted.accepted
  · intro a ha haccepted
    rcases List.mem_cons.mp ha with rfl | ha
    · exact absurd haccepted hout
    · exact hhalted.behind a ha haccepted
  · intro hrunning
    rw [hk.running] at hrunning
    cases hrunning

end Act

end Laws

/-! ## Every step -/

section Steps

variable {c : Copy} {s s' : State}

theorem Filed.setLog (h : Filed s) (log : Log) : Filed { s with log := log } :=
  ⟨h.current, h.deferred, h.reading⟩

/-- A handler that keeps the file and the reads. -/
theorem Filed.keeps {f : Ctx → Ctx} (h : Filed s) (hfd : (f s.ctx).core.fd = s.ctx.core.fd)
    (hreads : (f s.ctx).core.reads = s.ctx.core.reads) : Filed (s.call f) := by
  apply h.handler (.inl hfd)
  intro r hr
  rw [hreads] at hr
  exact .inl hr

theorem Filed.same {f : Ctx → Ctx} (h : Filed s) (hcore : (f s.ctx).core = s.ctx.core) :
    Filed (s.call f) :=
  h.keeps (congrArg Core.fd hcore) (congrArg Core.reads hcore)

theorem isSome_update_some {files : Nat → Option Bytes} {n m : Nat} {content : Bytes}
    (h : (files m).isSome) : (Function.update files n (some content) m).isSome := by
  by_cases hm : m = n
  · rw [hm, Function.update_self]
    rfl
  · rw [Function.update_of_ne hm]
    exact h

/-- A new file under a number that is not in use. -/
theorem Filed.browse (h : Filed s) {path content : Option Bytes} {fd : Option Nat}
    (hfree : ¬(fd.any fun n => (s.files n).isSome) = true) :
    Filed (s.browse c path content fd) := by
  unfold State.browse
  dsimp only
  split
  · rename_i p b rest n
    have hnone : s.files n = none := by simpa using hfree
    have hcore := browse_core (c := c) (x := s.ctx) p b rest n
    have hreads : (uiEvent c (.browse (some p) ((some (b :: rest)).map List.length) (some n))
        s.ctx).engine.reads = s.ctx.engine.reads := congrArg Core.reads hcore
    refine Filed.call ⟨?_, ?_, ?_⟩ ?_
    · intro m hm
      obtain rfl : n = m := Option.some.inj ((congrArg Core.fd hcore).symm.trans hm)
      refine ⟨Function.update_self _ _ _, ?_⟩
      intro hmem
      have hopen := h.deferred n hmem
      rw [hnone] at hopen
      cases hopen
    · exact fun m hm => isSome_update_some (h.deferred m hm)
    · intro r hr
      exact isSome_update_some (h.reading r (hreads ▸ hr))
    · intro m hm
      obtain ⟨hfile, hkept⟩ := h.current m hm
      exact ⟨isSome_update_some (by rw [hfile]; rfl), hkept⟩
  · rename_i hnot
    apply h.same
    rw [browse_ignored hnot]

theorem Filed.ui (h : Filed s) {e : UiEvent} (hui : ∀ path size fd, e ≠ .browse path size fd) :
    Filed (s.ui c e) := by
  have hlog := h.setLog
  rcases uiEvent_core (c := c) (x := s.ctx) hui with ⟨-, hcore⟩ | ⟨-, hhalts⟩ |
    ⟨-, -, hcore⟩ | ⟨-, -, hcore⟩
  · exact (hlog _).same hcore
  · exact (hlog _).halts hhalts
  all_goals
    have hfd : (uiEvent c e s.ctx).core.fd = s.ctx.core.fd := by rw [hcore]
    have hreads : (uiEvent c e s.ctx).core.reads = s.ctx.core.reads := by rw [hcore]
    exact (hlog _).keeps hfd hreads

theorem Filed.fire (h : Filed s) (handle : Nat) : Filed (s.fire c handle) := by
  have hlog := h.setLog
  rcases issueRead_core (c := c) (x := s.ctx.expire handle) with
    hcore | hhalts | ⟨r, fd, hfd, hr, -, hcore⟩
  · exact (hlog _).same hcore
  · exact (hlog _).halts hhalts
  · have hsame : (issueRead c (s.ctx.expire handle)).core.fd = s.ctx.core.fd := by
      rw [hcore]
      rfl
    have hreads : (issueRead c (s.ctx.expire handle)).core.reads =
        s.ctx.core.reads ++ [r] := by
      rw [hcore]
      rfl
    apply (hlog _).handler (.inl hsame)
    intro r' hr'
    rcases List.mem_append.mp (hreads ▸ hr') with hold | hnew
    · exact .inl hold
    · refine .inr ?_
      rw [List.mem_singleton.mp hnew, hr]
      exact hfd

/-- A completion keeps or closes the file, and issues no read. -/
theorem completion_keeps (c : Copy) (flight : Flight) (data : Option Bytes) (sent : Sent)
    (x : Ctx) :
    ((completion c flight data sent x).core.fd = x.core.fd ∨
      (completion c flight data sent x).core.fd = none) ∧
    (completion c flight data sent x).core.reads = x.core.reads := by
  cases hacts : x.plugin.running && x.plugin.inflight = some flight with
  | false =>
    rw [completion_ignored data sent hacts]
    exact ⟨.inl rfl, rfl⟩
  | true =>
    rw [Bool.and_eq_true, decide_eq_true_eq] at hacts
    rcases completion_core (c := c) data sent hacts.1 hacts.2 with
      ⟨-, -, hcore⟩ | ⟨-, -, hcore⟩ | ⟨-, hhalts, hclosed, -⟩
    · rw [hcore]
      exact ⟨.inl rfl, rfl⟩
    · rw [hcore]
      exact ⟨.inl rfl, rfl⟩
    · exact ⟨.inr hclosed, hhalts.reads⟩

/-- The handler of a completion that has left the list of reads. -/
theorem Filed.completion (h : Filed s) (index : Nat) (flight : Flight) (data : Option Bytes)
    (sent : Sent) :
    Filed (s.call fun x => completion c flight data sent (x.complete index)) := by
  apply h.handler
  · exact (completion_keeps c flight data sent _).1
  · intro r hr
    rw [(completion_keeps c flight data sent _).2] at hr
    exact .inl (List.mem_of_mem_eraseIdx hr)

theorem Filed.readDone (h : Filed s) (index : Nat) (r : Engine.Read) (read : Option Nat)
    (sent : Sent) : Filed (s.readDone c index r read sent) := by
  apply Filed.completeRest
  exact (h.setLog _).completion index _ _ _

theorem told_call {f : Ctx → Ctx} (h : Told (f s.ctx).core s.content s.log) :
    Told (s.call f).ctx.core (s.call f).content (s.call f).log := by
  obtain ⟨hctx, hcontent, hlog⟩ := call_frame s f
  rw [hctx, hcontent, hlog]
  exact h

/-- The machine keeps its descriptors in order, and the record is right. -/
structure Kept (s : State) : Prop where
  filed : Filed s
  told : Told s.ctx.core s.content s.log

theorem Kept.browse (h : Kept s) {path content : Option Bytes} {fd : Option Nat}
    (hfree : ¬(fd.any fun n => (s.files n).isSome) = true) :
    Kept (s.browse c path content fd) := by
  refine ⟨h.filed.browse hfree, ?_⟩
  unfold State.browse
  dsimp only
  split
  · apply told_call
    dsimp only
    rw [browse_core]
    exact Told.restart _ rfl nofun
  · rename_i hnot
    apply told_call
    rw [browse_ignored hnot]
    exact h.told

theorem Kept.ui (h : Kept s) {e : UiEvent} (hui : ∀ path size fd, e ≠ .browse path size fd) :
    Kept (s.ui c e) := by
  refine ⟨h.filed.ui hui, ?_⟩
  apply told_call
  dsimp only
  rcases uiEvent_core (c := c) (x := s.ctx) hui with ⟨hstarts, hcore⟩ | ⟨hstarts, hhalts⟩ |
    ⟨hstarts, rfl, hcore⟩ | ⟨hstarts, rfl, hcore⟩
  · rw [hcore, hstarts]
    exact h.told
  · rw [hstarts]
    exact h.told.halts hhalts
  · rw [hcore, if_pos hstarts, if_pos rfl]
    exact Told.restart _ rfl fun _ => rfl
  · rw [hcore, if_pos hstarts, if_neg (by simp)]
    exact h.told.resume

theorem Kept.fire (h : Kept s) (handle : Nat) : Kept (s.fire c handle) := by
  refine ⟨h.filed.fire handle, ?_⟩
  apply told_call
  dsimp only
  rcases issueRead_core (c := c) (x := s.ctx.expire handle) with
    hcore | hhalts | ⟨r, fd, -, -, -, hcore⟩
  · rw [hcore]
    exact h.told.fired
  · exact h.told.fired.halts hhalts
  · rw [hcore]
    exact h.told.issue _ _

/-- A completion of the awaited read, which is one of the open file at the offset. -/
theorem Told.completion {x : Ctx} {content : Bytes} {log : Log} (h : Told x.core content log)
    {flight : Flight} (hrunning : x.plugin.running = true)
    (hflight : x.plugin.inflight = some flight) (hfd : x.core.fd = some flight.fd)
    (hoffset : x.core.offset = flight.offset) {data : Option Bytes} (sent : Sent)
    (hdata : data.getD [] ≠ [] →
      ∃ n, data = some ((content.drop flight.offset).take n)) :
    Told (completion c flight data sent x).core content
      (log.act flight.offset data sent) := by
  have hawaited : x.core.inflight ≠ none := by
    rw [show x.core.inflight = some flight from hflight]
    nofun
  have hopen : x.core.fd ≠ none := by
    rw [hfd]
    nofun
  rw [← hoffset] at hdata ⊢
  rcases completion_core (c := c) data sent hrunning hflight with
    ⟨hout, hbytes, hcore⟩ | ⟨hout, hstall, hcore⟩ | ⟨hout, hhalts, hclosed, hgone⟩
  · obtain ⟨n, hread⟩ := hdata hbytes
    rw [hcore, ← hoffset]
    exact h.accept hawaited hopen hout hbytes hread
  · rw [hcore]
    exact h.refuse hawaited hopen hrunning hout hstall
  · exact h.quit hawaited hopen hrunning hout hhalts hclosed hgone

theorem Told.setReads {k : Core} {content : Bytes} {log : Log} (h : Told k content log)
    (reads : List Engine.Read) : Told { k with reads := reads } content log :=
  ⟨h.accepted, h.within, h.past, h.fresh, h.perFiring, h.behind, h.failed, h.perOffset,
    h.counted, h.refusals, h.ended⟩

theorem Kept.readDone (h : Kept s) {r : Engine.Read}
    (htimely : s.actsUpon ⟨r.fd, r.offset.toNat⟩ = true →
      s.ctx.plugin.fd = some r.fd ∧ s.ctx.plugin.offset = r.offset.toNat)
    (index : Nat) (read : Option Nat) (sent : Sent) :
    Kept (s.readDone c index r read sent) := by
  refine ⟨h.filed.readDone index r read sent, ?_⟩
  unfold State.readDone
  dsimp only
  obtain ⟨hctx, hcontent, hlog⟩ := completeRest_frame (State.call _ _) r.fd
  rw [hctx, hcontent, hlog]
  apply told_call
  dsimp only
  have htold : Told (s.ctx.complete index).core s.content s.log := h.told.setReads _
  cases hacts : s.actsUpon ⟨r.fd, r.offset.toNat⟩ with
  | false =>
    rw [completion_ignored (x := s.ctx.complete index) _ _ hacts, if_neg (by simp)]
    exact htold
  | true =>
    obtain ⟨hfd, hoffset⟩ := htimely hacts
    rw [State.actsUpon, Bool.and_eq_true, decide_eq_true_eq] at hacts
    rw [if_pos rfl]
    apply Told.completion (x := s.ctx.complete index) htold hacts.1 hacts.2 hfd hoffset
    intro hbytes
    cases read with
    | none => exact absurd rfl hbytes
    | some n =>
      have hfile := (h.filed.current r.fd hfd).1
      refine ⟨min n r.len.toNat, ?_⟩
      rw [Option.bind_some, State.readAt, hfile]
      rfl

theorem Kept.step (h : Kept s) {e : Event} (htimely : Timely s e = true)
    (hstep : s.step c e = some s') : Kept s' := by
  cases e with
  | browse path content fd =>
    rw [State.step] at hstep
    split at hstep
    · cases hstep
    · rename_i hfree
      cases hstep
      exact h.browse hfree
  | ui e =>
    unfold State.step at hstep
    dsimp only at hstep
    split at hstep
    · cases hstep
    · rename_i hui
      cases hstep
      exact h.ui hui
  | port isOpen =>
    cases hstep
    exact ⟨⟨h.filed.current, h.filed.deferred, h.filed.reading⟩, h.told⟩
  | fire handle =>
    rw [State.step] at hstep
    split at hstep
    · cases hstep
      exact h.fire handle
    · cases hstep
  | readDone index read sent =>
    obtain ⟨r, hr, rfl⟩ := Option.map_eq_some_iff.mp hstep
    apply h.readDone
    intro hacts
    rw [Timely, hr, Option.all_some, hacts] at htimely
    simpa using htimely

/-! ### The close at the end -/

/-- No read is awaited at the end of the file, and an open file is not empty. -/
structure Idle (k : Core) : Prop where
  atEnd : k.size ≤ k.offset → k.inflight = none
  nonempty : k.fd ≠ none → 0 < k.size

theorem Idle.halts {k k' : Core} (h : Idle k) (hk : k.Halts k') : Idle k' := by
  constructor
  · intro hend
    rcases hk.inflight with hsame | hnone
    · rw [hk.size, hk.offset] at hend
      exact hsame.trans (h.atEnd hend)
    · exact hnone
  · intro hopen
    rw [hk.size]
    rcases hk.fd with hsame | hnone
    · exact h.nonempty (hsame ▸ hopen)
    · exact absurd hnone hopen

theorem Idle.call {f : Ctx → Ctx} (h : Idle (f s.ctx).core) : Idle (s.call f).ctx.core := by
  rw [(call_frame s f).1]
  exact h

theorem Idle.ui (h : Idle s.ctx.core) {e : UiEvent}
    (hui : ∀ path size fd, e ≠ .browse path size fd) : Idle (s.ui c e).ctx.core := by
  apply Idle.call
  dsimp only
  rcases uiEvent_core (c := c) (x := s.ctx) hui with ⟨-, hcore⟩ | ⟨-, hhalts⟩ |
    ⟨hstarts, -, hcore⟩ | ⟨-, -, hcore⟩
  · rw [hcore]
    exact h
  · exact h.halts hhalts
  · have hopen : s.ctx.core.fd ≠ none := by
      intro hnone
      have hfd : s.ctx.plugin.fd = none := hnone
      simp [starts, hfd] at hstarts
    rw [hcore]
    exact ⟨fun hend => absurd hend (Nat.not_le_of_lt (h.nonempty hopen)), h.nonempty⟩
  · rw [hcore]
    exact ⟨h.atEnd, h.nonempty⟩

theorem Idle.fire (h : Idle s.ctx.core) (handle : Nat) : Idle (s.fire c handle).ctx.core := by
  apply Idle.call
  dsimp only
  rcases issueRead_core (c := c) (x := s.ctx.expire handle) with
    hcore | hhalts | ⟨r, fd, -, -, hwithin, hcore⟩
  · rw [hcore]
    exact h
  · exact h.halts hhalts
  · rw [hcore]
    exact ⟨fun hend => absurd hend (Nat.not_le_of_lt hwithin), h.nonempty⟩

theorem Idle.readDone (h : Idle s.ctx.core) (index : Nat) (r : Engine.Read)
    (read : Option Nat) (sent : Sent) : Idle (s.readDone c index r read sent).ctx.core := by
  unfold State.readDone
  dsimp only
  rw [(completeRest_frame (State.call _ _) r.fd).1]
  apply Idle.call
  dsimp only
  have hcomplete : Idle (s.ctx.complete index).core := ⟨h.atEnd, h.nonempty⟩
  cases hacts : s.actsUpon ⟨r.fd, r.offset.toNat⟩ with
  | false =>
    rw [completion_ignored (x := s.ctx.complete index) _ _ hacts]
    exact hcomplete
  | true =>
    rw [State.actsUpon, Bool.and_eq_true, decide_eq_true_eq] at hacts
    rcases completion_core (c := c) (x := s.ctx.complete index) _ _ hacts.1 hacts.2 with
      ⟨-, -, hcore⟩ | ⟨-, -, hcore⟩ | ⟨-, hhalts, -, -⟩
    · rw [hcore]
      exact ⟨fun _ => rfl, h.nonempty⟩
    · rw [hcore]
      exact ⟨fun _ => rfl, h.nonempty⟩
    · exact hcomplete.halts hhalts

theorem Idle.browse (h : Idle s.ctx.core) (path content : Option Bytes) (fd : Option Nat) :
    Idle (s.browse c path content fd).ctx.core := by
  unfold State.browse
  dsimp only
  split
  · apply Idle.call
    dsimp only
    rw [browse_core]
    exact ⟨fun hend => absurd hend (Nat.not_succ_le_zero _), fun _ => Nat.succ_pos _⟩
  · rename_i hnot
    apply Idle.call
    rw [browse_ignored hnot]
    exact h

theorem Idle.step (h : Idle s.ctx.core) {e : Event} (hstep : s.step c e = some s') :
    Idle s'.ctx.core := by
  cases e with
  | browse path content fd =>
    rw [State.step] at hstep
    split at hstep
    · cases hstep
    · cases hstep
      exact h.browse path content fd
  | ui e =>
    unfold State.step at hstep
    dsimp only at hstep
    split at hstep
    · cases hstep
    · rename_i hui
      cases hstep
      exact h.ui hui
  | port isOpen =>
    cases hstep
    exact ⟨h.atEnd, h.nonempty⟩
  | fire handle =>
    rw [State.step] at hstep
    split at hstep
    · cases hstep
      exact h.fire handle
    · cases hstep
  | readDone index read sent =>
    obtain ⟨r, hr, rfl⟩ := Option.map_eq_some_iff.mp hstep
    exact h.readDone index r read sent

end Steps

/-! ## Every run -/

variable {c : Copy} {s : State}

/-- In every run: the timer that closes the file at its end finds no read awaited, so what
the event loop delivers inside the close is ignored. -/
theorem close_idle (hs : Transition.Reach (stream c) s)
    (hend : s.ctx.plugin.size ≤ s.ctx.plugin.offset) : s.ctx.plugin.inflight = none := by
  have h : Idle s.ctx.core := by
    apply hs.invariant (p := fun s => Idle s.ctx.core)
    · exact ⟨fun _ => rfl, fun hopen => absurd rfl hopen⟩
    · exact fun s e s' h _ hstep => h.step hstep
  exact h.atEnd hend

theorem run_kept
    (hs : Transition.ReachUnder (stream c) (fun s e => Timely s e = true) s) : Kept s := by
  apply hs.invariant
  · refine ⟨⟨nofun, nofun, nofun⟩, ?_⟩
    exact Told.restart {} rfl nofun
  · exact fun s e s' hs htimely hstep => hs.step htimely hstep

/-- In every run in which no completion is acted upon that is of another file or offset, the
stream sends the file. -/
theorem stream_exact
    (hs : Transition.ReachUnder (stream c) (fun s e => Timely s e = true) s) : Exact s := by
  have h := (run_kept hs).told
  exact ⟨h.accepted, h.within, h.perFiring, h.perOffset, h.refusals, h.ended⟩

def sampleCopy : Copy := ⟨[0x73], 0⟩

/-- A file of three bytes in chunks of two: a stop after the first chunk, a resume, a full
queue, and the rest. -/
def sampleRun : List Event :=
  [.port true, .browse (some [0x66]) (some [1, 2, 3]) (some 3), .ui (.chunk (some 2)),
    .ui .start, .fire 0, .readDone 0 (some 2) .ok, .ui .stop, .ui .resume, .fire 2,
    .readDone 0 (some 2) (.refused (some (-5))), .fire 3, .readDone 0 (some 2) .ok, .fire 4]

theorem stream_exact_resumed : ∃ s, Exact s ∧ s.log.accepted = [1, 2, 3] ∧
    s.ctx.plugin.fd = none := by
  obtain ⟨s, hrun, haccepted, hclosed⟩ := Transition.exists_of_execUnder
    (m := stream sampleCopy) (c := fun s e => Timely s e = true)
    (p := fun s => s.log.accepted = [1, 2, 3] ∧ s.ctx.plugin.fd = none) sampleRun (by decide)
  exact ⟨s, stream_exact hrun, haccepted, hclosed⟩

/-- A `Send` before the read of the stopped stream completes: the first two bytes are never
sent; and a browse and a `Send` before: the bytes are the ones of the other file. -/
theorem stale_read_sent :
    (∃ s, Transition.Reach (stream sampleCopy) s ∧ s.log.accepted = [3] ∧
      s.content.take s.ctx.plugin.offset = [1, 2, 3] ∧ ¬Exact s) ∧
    ∃ s, Transition.Reach (stream sampleCopy) s ∧ s.log.accepted = [1, 2, 3] ∧
      s.content.take s.ctx.plugin.offset = [7, 8, 9] ∧ ¬Exact s := by
  constructor
  · obtain ⟨s, hrun, haccepted, hprefix⟩ := Transition.exists_of_execUnder
      (m := stream sampleCopy) (c := fun _ _ => True)
      (p := fun s => s.log.accepted = [3] ∧
        s.content.take s.ctx.plugin.offset = [1, 2, 3])
      [.port true, .browse (some [0x66]) (some [1, 2, 3]) (some 3), .ui (.chunk (some 2)),
        .ui .start, .fire 0, .readDone 0 (some 2) .ok, .fire 1, .ui .stop, .ui .start,
        .readDone 0 (some 2) .ok] (by decide)
    refine ⟨s, hrun, haccepted, hprefix, ?_⟩
    intro hexact
    have hsent := hexact.accepted
    rw [haccepted, hprefix] at hsent
    cases hsent
  · obtain ⟨s, hrun, haccepted, hprefix⟩ := Transition.exists_of_execUnder
      (m := stream sampleCopy) (c := fun _ _ => True)
      (p := fun s => s.log.accepted = [1, 2, 3] ∧
        s.content.take s.ctx.plugin.offset = [7, 8, 9])
      [.port true, .browse (some [0x66]) (some [1, 2, 3]) (some 3), .ui .start, .fire 0,
        .browse (some [0x67]) (some [7, 8, 9]) (some 4), .ui .start,
        .readDone 0 (some 3) .ok] (by decide)
    refine ⟨s, hrun, haccepted, hprefix, ?_⟩
    intro hexact
    have hsent := hexact.accepted
    rw [haccepted, hprefix] at hsent
    cases hsent

end Xcom.Script.SendFile
