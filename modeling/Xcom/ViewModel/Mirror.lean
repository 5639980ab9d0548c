import Xcom.ViewModel.Hsm

/-!
# What a sampled mirror ends on

A mirror that sees some of a list of snapshots, in order.  It follows them to the
last one when generations never step back, and comes out of a grace window when an
OPEN after a FAULT has a newer generation.
-/

namespace Xcom.ViewModel

/-- The snapshots of a sample, oldest first, do not step back, and an OPEN after a
FAULT is of a newer generation. -/
def Steady (ss : List Snapshot) : Prop :=
  ss.Pairwise fun earlier later =>
    earlier.2 ≤ later.2 ∧
      (earlier.1 = .portFault → later.1 = .portOpen → earlier.2 < later.2)

/-- `Hsm:on_port_state` on every snapshot of a list. -/
def Hsm.feed (h : Hsm) (ss : List Snapshot) : Hsm :=
  ss.foldl (fun h s => (h.onPortState s.1 s.2).1) h

/-- `Window:poll_status` on every snapshot of a list, each with whether the grace
deadline has passed at that poll. -/
def Ui.pollAll (u : Ui) (ps : List (Snapshot × Bool)) : Ui :=
  ps.foldl (fun u p => u.poll p.1 p.2) u

/-- The mirror shows a snapshot of the core. -/
def Hsm.Shows (h : Hsm) (s : Snapshot) : Prop :=
  h.state = coreToUi s.1 ∧ h.effective = coreToUi s.1 ∧ h.generation = s.2

theorem coreToUi_ne_reconnecting (s : PortState) : coreToUi s ≠ .reconnecting := by
  cases s <;> simp [coreToUi]

theorem Hsm.feed_shows {ss : List Snapshot} {last : Snapshot} {h : Hsm}
    (hsteady : ss.Pairwise fun earlier later => earlier.2 ≤ later.2)
    (hst : h.state ≠ .reconnecting) (hgen : ∀ s ∈ ss, h.generation ≤ s.2)
    (hlast : ss.getLast? = some last) : (h.feed ss).Shows last := by
  induction ss generalizing h with
  | nil => simp at hlast
  | cons s ss ih =>
    obtain ⟨hhead, htail⟩ := List.pairwise_cons.mp hsteady
    have hs := Hsm.onPortState_of_le s.1 hst (hgen s (by simp))
    cases ss with
    | nil =>
      simp only [List.getLast?_singleton, Option.some.injEq] at hlast
      exact hlast ▸ hs
    | cons t ts =>
      have hlast' : (t :: ts).getLast? = some last := by
        rw [List.getLast?_cons_cons] at hlast
        exact hlast
      refine ih htail ?_ (fun s' hs' => ?_) hlast'
      · rw [hs.1]
        exact coreToUi_ne_reconnecting _
      · rw [hs.2.2]
        exact hhead s' hs'

namespace Ui

/-- The mirror before the snapshots of `later` are polled. -/
structure Tracks (u : Ui) (later : List Snapshot) : Prop where
  gen : ∀ s ∈ later, u.hsm.generation ≤ s.2
  armed : u.hsm.state = .reconnecting → u.deadline = true
  window : u.hsm.state = .reconnecting →
    ∀ s ∈ later, s.1 = .portOpen → u.hsm.generation < s.2

theorem Tracks.tail {u : Ui} {s : Snapshot} {later : List Snapshot}
    (h : u.Tracks (s :: later)) : u.Tracks later where
  gen := fun t ht => h.gen t (List.mem_cons_of_mem _ ht)
  armed := h.armed
  window := fun hst t ht => h.window hst t (List.mem_cons_of_mem _ ht)

/-- A mirror outside the grace window that shows a snapshot. -/
theorem Tracks.of_shows {u : Ui} {s : Snapshot} {later : List Snapshot}
    (h : u.hsm.Shows s) (hle : ∀ t ∈ later, s.2 ≤ t.2) : u.Tracks later := by
  have hst : u.hsm.state ≠ .reconnecting := by
    rw [h.1]
    exact coreToUi_ne_reconnecting _
  exact
    { gen := by rw [h.2.2]; exact hle
      armed := fun hre => absurd hre hst
      window := fun hre => absurd hre hst }

theorem Tracks.abandon {u : Ui} {later : List Snapshot} (h : u.Tracks later) :
    u.abandon.Tracks later := by
  unfold Ui.abandon
  split
  · rename_i hab
    exact
      { gen := h.gen
        armed := fun hre => absurd hre hab.2
        window := fun hre => absurd hre hab.2 }
  · exact h

theorem abandon_window {u : Ui} {later : List Snapshot} (h : u.Tracks later) :
    u.abandon.deadline = true ↔ u.abandon.hsm.state = .reconnecting := by
  unfold Ui.abandon
  split
  · rename_i hab
    simp [hab.2]
  · rename_i hab
    constructor
    · intro hd
      by_contra hst
      exact hab ⟨hd, hst⟩
    · exact h.armed

theorem driveReconnect_hsm (u : Ui) (expired : Bool) (hst : u.hsm.state = .reconnecting) :
    u.driveReconnect expired = u ∨
      ((u.driveReconnect expired).hsm.state = .fault ∧
        (u.driveReconnect expired).hsm.generation = u.hsm.generation ∧
        (u.driveReconnect expired).deadline = false) := by
  unfold driveReconnect
  split
  · right
    simp [Hsm.reconnectTimeout, hst]
  · exact .inl rfl

theorem Tracks.driveReconnect {u : Ui} {later : List Snapshot} (h : u.Tracks later)
    (hst : u.hsm.state = .reconnecting) (expired : Bool) :
    (u.driveReconnect expired).Tracks later := by
  rcases driveReconnect_hsm u expired hst with heq | ⟨hfault, hgen, -⟩
  · rw [heq]
    exact h
  · have hne : (u.driveReconnect expired).hsm.state ≠ .reconnecting := by simp [hfault]
    exact
      { gen := by rw [hgen]; exact h.gen
        armed := fun hre => absurd hre hne
        window := fun hre => absurd hre hne }

/-- Outside the window a poll takes the snapshot over. -/
theorem onSnapshot_shows {u : Ui} {s : Snapshot} (hst : u.hsm.state ≠ .reconnecting)
    (hle : u.hsm.generation ≤ s.2) : (u.onSnapshot s).hsm.Shows s := by
  unfold onSnapshot
  rw [if_neg (not_lt.mpr hle)]
  exact Hsm.onPortState_of_le _ hst hle

/-- The FAULT that opens a grace window. -/
theorem Tracks.pollFault {u : Ui} {s : Snapshot} {later : List Snapshot} {expired : Bool}
    (h : u.Tracks (s :: later)) (hwin : u.deadline = true ↔ u.hsm.state = .reconnecting)
    (hle : ∀ t ∈ later, s.2 ≤ t.2) (hlt : ∀ t ∈ later, t.1 = .portOpen → s.2 < t.2) :
    (u.pollFault s expired).Tracks later := by
  unfold Ui.pollFault
  split
  · rename_i hd
    exact h.tail.driveReconnect (hwin.mp hd) expired
  · rename_i hd
    have hst : u.hsm.state ≠ .reconnecting := fun hre => hd (hwin.mpr hre)
    by_cases hent : (u.hsm.enterReconnecting s.2).2 = true
    · have heff : (u.hsm.enterReconnecting s.2).1.state = .reconnecting ∧
          (u.hsm.enterReconnecting s.2).1.generation = s.2 := by
        revert hent
        unfold Hsm.enterReconnecting
        split_ifs <;> simp
      have htr : Tracks { hsm := (u.hsm.enterReconnecting s.2).1, deadline := true } later :=
        { gen := by rw [heff.2]; exact hle
          armed := fun _ => rfl
          window := fun _ => by rw [heff.2]; exact hlt }
      exact htr.driveReconnect heff.1 expired
    · have hsame : (u.hsm.enterReconnecting s.2).1 = u.hsm := by
        revert hent
        unfold Hsm.enterReconnecting
        split_ifs <;> simp
      rw [hsame]
      have hdrive : (Ui.driveReconnect { hsm := u.hsm, deadline := true } expired).hsm = u.hsm := by
        unfold Ui.driveReconnect
        split
        · simp [Hsm.reconnectTimeout, hst]
        · rfl
      exact
        { gen := by rw [hdrive]; exact h.tail.gen
          armed := by rw [hdrive]; exact fun hre => absurd hre hst
          window := by rw [hdrive]; exact fun hre => absurd hre hst }

/-- A poll on an armed window either keeps the window or shows the snapshot, and
shows it whenever it is OPEN. -/
theorem pollWindow_cases {u : Ui} {s : Snapshot} {later : List Snapshot} (expired : Bool)
    (h : u.Tracks (s :: later)) (hst : u.hsm.state = .reconnecting) :
    (u.pollWindow s expired = u ∧ s.1 ≠ .portOpen) ∨
      ((u.pollWindow s expired).hsm.Shows s ∧ (u.pollWindow s expired).deadline = false) := by
  have hle := h.gen s (by simp)
  have hwin := h.window hst s (by simp)
  unfold Ui.pollWindow
  rcases driveReconnect_hsm u expired hst with heq | ⟨hfault, hgen, hd⟩
  · rw [heq, if_pos (h.armed hst)]
    split
    · rename_i hcand
      by_cases hlt : u.hsm.generation < s.2
      · obtain ⟨hlatched, hshows⟩ := Hsm.onPortState_settle hst hlt hcand.symm
        right
        rw [absorb, if_pos hlatched]
        exact ⟨hshows, rfl⟩
      · have hopen : s.1 ≠ .portOpen := fun hop => hlt (hwin hop)
        have hopening : s.1 = .portOpening := hcand.resolve_left hopen
        have hrej : (u.hsm.onPortState s.1 s.2).2 = false := by
          simp [Hsm.onPortState, Hsm.latch, hst, hopening, coreToUi, not_lt.mp hlt, hle.not_gt]
        left
        rw [absorb, if_neg (by simp [hrej])]
        exact ⟨rfl, hopen⟩
    · rename_i hcand
      exact .inl ⟨rfl, fun hop => hcand (.inl hop)⟩
  · rw [if_neg (by simp [hd])]
    right
    have hne : (u.driveReconnect expired).hsm.state ≠ .reconnecting := by simp [hfault]
    refine ⟨onSnapshot_shows hne (by rw [hgen]; exact hle), ?_⟩
    unfold onSnapshot
    split <;> exact hd

theorem Tracks.poll {u : Ui} {s : Snapshot} {later : List Snapshot} {expired : Bool}
    (h : u.Tracks (s :: later)) (hle : ∀ t ∈ later, s.2 ≤ t.2)
    (hlt : s.1 = .portFault → ∀ t ∈ later, t.1 = .portOpen → s.2 < t.2) :
    (u.poll s expired).Tracks later := by
  have hab := h.abandon
  have hwin := abandon_window h
  unfold Ui.poll
  simp only
  split
  · rename_i hfault
    exact hab.pollFault hwin hle (hlt hfault.1)
  · split
    · rename_i hd
      rcases pollWindow_cases expired hab (hwin.mp hd) with ⟨heq, -⟩ | ⟨hshows, -⟩
      · rw [heq]
        exact hab.tail
      · exact .of_shows hshows hle
    · rename_i hd
      have hst : u.abandon.hsm.state ≠ .reconnecting := fun hre => hd (hwin.mpr hre)
      exact .of_shows (onSnapshot_shows hst (hab.gen s (by simp))) hle

theorem Tracks.poll_open {u : Ui} {s : Snapshot} {expired : Bool} (h : u.Tracks [s])
    (hopen : s.1 = .portOpen) :
    (u.poll s expired).hsm.Shows s ∧ (u.poll s expired).deadline = false := by
  have hab := h.abandon
  have hwin := abandon_window h
  unfold Ui.poll
  simp only
  rw [if_neg (by simp [hopen])]
  split
  · rename_i hd
    rcases pollWindow_cases expired hab (hwin.mp hd) with ⟨-, hne⟩ | hshows
    · exact absurd hopen hne
    · exact hshows
  · rename_i hd
    have hst : u.abandon.hsm.state ≠ .reconnecting := fun hre => hd (hwin.mpr hre)
    refine ⟨onSnapshot_shows hst (hab.gen s (by simp)), ?_⟩
    unfold onSnapshot
    split <;> simpa using hd

/-- A poller that has sampled steadily shows the OPEN it has just sampled, and has
left the grace window. -/
theorem pollAll_open {ps : List (Snapshot × Bool)} {last : Snapshot × Bool} {u : Ui}
    (hsteady : Steady (ps.map Prod.fst)) (hu : u.Tracks (ps.map Prod.fst))
    (hlast : ps.getLast? = some last) (hopen : last.1.1 = .portOpen) :
    (u.pollAll ps).hsm.Shows last.1 ∧ (u.pollAll ps).deadline = false := by
  induction ps generalizing u with
  | nil => simp at hlast
  | cons p ps ih =>
    obtain ⟨hhead, htail⟩ := List.pairwise_cons.mp hsteady
    cases ps with
    | nil =>
      simp only [List.getLast?_singleton, Option.some.injEq] at hlast
      subst hlast
      exact hu.poll_open hopen
    | cons q qs =>
      rw [List.getLast?_cons_cons] at hlast
      exact ih htail (hu.poll (fun t ht => (hhead t ht).1) fun hf t ht => (hhead t ht).2 hf)
        hlast

end Ui

end Xcom.ViewModel
