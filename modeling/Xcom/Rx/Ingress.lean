import Xcom.Abi.Status
import Xcom.Rx.BlockLane

/-!
# The accounts of `rx_ingress`

The read callback cuts what it is handed into blocks.  Each block is published to the
file lane, to the display lane or to both; what finds no owner is counted as loss.  The
call is modelled over the answers of the pool, one for each `try_alloc`, with what the
reader loads when it gets none.
-/

namespace Xcom.Rx

open Display (kRxBlockBytes)

/-- What the read thread is handed: its length is a `uint32_t`. -/
abbrev Payload := { data : List UInt8 // data.length < 2 ^ 32 }

/-- `RxIngressResult`. -/
inductive RxIngressResult
  | kAllAccepted
  | kPartialAccepted
  deriving DecidableEq, Repr

/-- The counters `rx_ingress` touches. -/
structure Metrics where
  rxBytes : UInt32 := 0
  rxSeq : UInt32 := 0
  callbackCount : UInt32 := 0
  saveRejectedBytes : UInt32 := 0
  rxPoolExhaustedBytes : UInt32 := 0
  rxLossOffset : UInt32 := 0
  rxFileBlockEvents : UInt32 := 0
  rxFileBlockedMs : UInt32 := 0
  rxBackpressureEvents : UInt32 := 0
  rxBackpressured : Bool := false
  deriving DecidableEq, Repr

/-- One answer of `try_alloc`.  A claimed block comes with what is left in it, and with
the generation and the clock as the reader loads them for its descriptor; without one
the reader loads the callback admission and the port state. -/
inductive PoolAnswer
  | claimed (event : Block) (displayOk : Bool) (stale : List UInt8) (generation : UInt16)
      (ingressMs : UInt32)
  | exhausted (callbackAdmission : Bool) (portState : PortState)
  deriving DecidableEq, Repr

/-- A published segment: its descriptor, the contents of its block and its two claims. -/
structure Published where
  ref : RxBlockRef
  block : List UInt8
  fileLane : Bool
  displayOk : Bool
  deriving DecidableEq, Repr

/-- The raw payload of a descriptor. -/
def Published.raw (p : Published) : List UInt8 := p.block.take p.ref.len.toNat

/-- The locals of the loop; `rest` is what `p` and `remaining` delimit. -/
structure Ingress where
  metrics : Metrics
  rest : List UInt8
  displayBacklog : UInt32 := 0
  unownedDrop : UInt32 := 0
  blockEpisode : Bool := false
  published : List Published := []
  deriving DecidableEq, Repr

/-- What a call leaves behind. -/
structure IngressReturn where
  result : RxIngressResult
  metrics : Metrics
  accepted : Nat := 0
  published : List Published := []
  deriving DecidableEq, Repr

namespace Metrics

/-- `count_rejected_rx`. -/
def countRejectedRx (m : Metrics) (n : UInt32) : Metrics :=
  if n = 0 then m
  else { m with saveRejectedBytes := m.saveRejectedBytes + n, rxLossOffset := m.rxBytes }

/-- The display backlog is counted where the display skipped a segment. -/
def countBacklog (m : Metrics) (n : UInt32) : Metrics :=
  if n = 0 then m
  else { m with rxPoolExhaustedBytes := m.rxPoolExhaustedBytes + n, rxLossOffset := m.rxBytes }

end Metrics

namespace Ingress

/-- One segment is copied into the claimed block and published. -/
def segment (s : Ingress) (fileLane : Bool) (event : Block) (displayOk : Bool)
    (stale : List UInt8) (generation : UInt16) (ingressMs : UInt32) : Ingress :=
  let n := min s.rest.length kRxBlockBytes
  { s with
    metrics.rxSeq := s.metrics.rxSeq + 1
    metrics.rxBytes := s.metrics.rxBytes + UInt32.ofNat n
    displayBacklog := if displayOk then s.displayBacklog else s.displayBacklog + UInt32.ofNat n
    rest := s.rest.drop n
    published := s.published ++
      [⟨⟨event, UInt16.ofNat n, generation, ingressMs⟩, s.rest.take n ++ stale.drop n,
        fileLane, displayOk⟩] }

/-- The reader starts to wait for a block of the file lane. -/
def stall (s : Ingress) : Ingress :=
  if s.blockEpisode then s
  else
    { s with
      blockEpisode := true
      metrics.rxFileBlockEvents := s.metrics.rxFileBlockEvents + 1
      metrics.rxBackpressured := true
      metrics.rxBackpressureEvents :=
        if s.metrics.rxBackpressured then s.metrics.rxBackpressureEvents
        else s.metrics.rxBackpressureEvents + 1 }

/-- The rest has no owner. -/
def drop (s : Ingress) : Ingress :=
  { s with unownedDrop := s.unownedDrop + UInt32.ofNat s.rest.length }

/-- The loop of `rx_ingress`; `none` while it still waits for the pool. -/
def loop (fileLane : Bool) : List PoolAnswer → Ingress → Option Ingress
  | [], s => if s.rest = [] then some s else none
  | answer :: answers, s =>
    if s.rest = [] then some s
    else
      match answer with
      | .claimed event displayOk stale generation ingressMs =>
        loop fileLane answers (s.segment fileLane event displayOk stale generation ingressMs)
      | .exhausted callbackAdmission portState =>
        if fileLane then
          if callbackAdmission = false ∨ portState ≠ .portOpen then some s.stall.drop
          else loop fileLane answers s.stall
        else some s.drop

/-- The end of `rx_ingress`, `size` bytes having been handed in. -/
def finish (s : Ingress) (size : Nat) (blockedMs : UInt32) : IngressReturn :=
  let blocked :=
    if s.blockEpisode then
      { s.metrics with rxFileBlockedMs := s.metrics.rxFileBlockedMs + blockedMs }
    else s.metrics
  { result := if s.rest = [] then .kAllAccepted else .kPartialAccepted
    metrics := (blocked.countBacklog s.displayBacklog).countRejectedRx s.unownedDrop
    accepted := size - s.rest.length
    published := s.published }

end Ingress

/-- `rx_ingress`; `data` is `none` for a null pointer, `lease` is the answer of
`acquire_lease`, and `blockedMs` the time spent waiting. -/
def rxIngress (m : Metrics) (data : Option Payload) (portState : PortState) (lease : Bool)
    (answers : List PoolAnswer) (blockedMs : UInt32) : Option IngressReturn :=
  match data with
  | none => some { result := .kAllAccepted, metrics := m }
  | some data =>
    if data.1.length = 0 then some { result := .kAllAccepted, metrics := m }
    else if portState ≠ .portOpen then
      some {
        result := .kPartialAccepted
        metrics := m.countRejectedRx (UInt32.ofNat data.1.length) }
    else
      let m := { m with callbackCount := m.callbackCount + 1 }
      (Ingress.loop lease answers { metrics := m, rest := data.1 }).map fun s =>
        s.finish data.1.length blockedMs

/-- The bytes of the segments whose display claim was refused. -/
def refusedBytes (ps : List Published) : Nat :=
  ((ps.filter fun p => !p.displayOk).map fun p => p.raw.length).sum

/-- The accounts of a call that was handed `data` with the counters at `m`. -/
structure IngressReturn.Accounts (r : IngressReturn) (m : Metrics) (data : List UInt8) :
    Prop where
  accepted : r.accepted ≤ data.length
  payloads : r.published.flatMap Published.raw = data.take r.accepted
  blocks : ∀ p ∈ r.published, p.raw.length ≤ kRxBlockBytes
  rxBytes : (r.metrics.rxBytes - m.rxBytes).toNat = r.accepted
  rejected : (r.metrics.saveRejectedBytes - m.saveRejectedBytes).toNat =
    data.length - r.accepted
  exhausted : (r.metrics.rxPoolExhaustedBytes - m.rxPoolExhaustedBytes).toNat =
    refusedBytes r.published
  result : r.result = .kAllAccepted ↔ r.accepted = data.length

/-- The number of blocks the pool hands out. -/
def claims (answers : List PoolAnswer) : Nat :=
  answers.countP fun answer => answer matches .claimed ..

namespace Metrics

@[simp] theorem countRejectedRx_rejected (m : Metrics) (n : UInt32) :
    (m.countRejectedRx n).saveRejectedBytes = m.saveRejectedBytes + n := by
  unfold countRejectedRx
  split
  · rename_i h
    rw [h, UInt32.add_zero]
  · rfl

@[simp] theorem countRejectedRx_rxBytes (m : Metrics) (n : UInt32) :
    (m.countRejectedRx n).rxBytes = m.rxBytes := by
  unfold countRejectedRx
  split <;> rfl

@[simp] theorem countRejectedRx_exhausted (m : Metrics) (n : UInt32) :
    (m.countRejectedRx n).rxPoolExhaustedBytes = m.rxPoolExhaustedBytes := by
  unfold countRejectedRx
  split <;> rfl

@[simp] theorem countBacklog_exhausted (m : Metrics) (n : UInt32) :
    (m.countBacklog n).rxPoolExhaustedBytes = m.rxPoolExhaustedBytes + n := by
  unfold countBacklog
  split
  · rename_i h
    rw [h, UInt32.add_zero]
  · rfl

@[simp] theorem countBacklog_rxBytes (m : Metrics) (n : UInt32) :
    (m.countBacklog n).rxBytes = m.rxBytes := by
  unfold countBacklog
  split <;> rfl

@[simp] theorem countBacklog_rejected (m : Metrics) (n : UInt32) :
    (m.countBacklog n).saveRejectedBytes = m.saveRejectedBytes := by
  unfold countBacklog
  split <;> rfl

end Metrics

theorem refusedBytes_append (ps qs : List Published) :
    refusedBytes (ps ++ qs) = refusedBytes ps + refusedBytes qs := by
  simp [refusedBytes]

/-- Refused segments are part of what was published. -/
theorem refusedBytes_le (ps : List Published) :
    refusedBytes ps ≤ (ps.flatMap Published.raw).length := by
  induction ps with
  | nil => simp [refusedBytes]
  | cons p ps ih =>
    rw [← List.singleton_append, refusedBytes_append, List.flatMap_append, List.length_append]
    have hone : refusedBytes [p] ≤ ([p].flatMap Published.raw).length := by
      cases hp : p.displayOk <;> simp [refusedBytes, hp]
    exact Nat.add_le_add hone ih

/-- A counter that has grown by less than `2 ^ 32`. -/
theorem toNat_grown (c : UInt32) {n : Nat} (hn : n < 2 ^ 32) :
    (c + UInt32.ofNat n - c).toNat = n := by
  rw [UInt32.add_comm, UInt32.add_sub_cancel]
  exact UInt32.toNat_ofNat_of_lt' hn

namespace Ingress

/-- The point the loop has reached: what is published and what is left make up the
payload, and the counters agree. -/
structure Inv (s : Ingress) (m : Metrics) (data : List UInt8) : Prop where
  split : s.published.flatMap Published.raw ++ s.rest = data
  blocks : ∀ p ∈ s.published, p.raw.length ≤ kRxBlockBytes
  rxBytes : s.metrics.rxBytes =
    m.rxBytes + UInt32.ofNat (s.published.flatMap Published.raw).length
  backlog : s.displayBacklog = UInt32.ofNat (refusedBytes s.published)
  rejected : s.metrics.saveRejectedBytes = m.saveRejectedBytes
  exhausted : s.metrics.rxPoolExhaustedBytes = m.rxPoolExhaustedBytes

variable {s : Ingress} {m : Metrics} {data : List UInt8}

theorem Inv.segment (hi : s.Inv m data) (fileLane : Bool) (event : Block) (displayOk : Bool)
    (stale : List UInt8) (generation : UInt16) (ingressMs : UInt32) :
    (s.segment fileLane event displayOk stale generation ingressMs).Inv m data ∧
      (s.segment fileLane event displayOk stale generation ingressMs).rest =
        s.rest.drop kRxBlockBytes := by
  obtain ⟨p, hp⟩ : ∃ p : Published, p =
      ⟨⟨event, UInt16.ofNat (min s.rest.length kRxBlockBytes), generation, ingressMs⟩,
        s.rest.take (min s.rest.length kRxBlockBytes) ++
          stale.drop (min s.rest.length kRxBlockBytes), fileLane, displayOk⟩ := ⟨_, rfl⟩
  have hlen : (UInt16.ofNat (min s.rest.length kRxBlockBytes)).toNat =
      min s.rest.length kRxBlockBytes := by
    apply UInt16.toNat_ofNat_of_lt'
    show min s.rest.length kRxBlockBytes < 2 ^ 16
    unfold kRxBlockBytes
    omega
  have hraw : p.raw = s.rest.take (min s.rest.length kRxBlockBytes) := by
    rw [hp]
    unfold Published.raw
    rw [hlen, List.take_append_of_le_length (by simp), List.take_take, Nat.min_self]
  have hrawlen : p.raw.length = min s.rest.length kRxBlockBytes := by
    rw [hraw, List.length_take]
    omega
  have hdrop : s.rest.drop (min s.rest.length kRxBlockBytes) = s.rest.drop kRxBlockBytes := by
    rcases Nat.le_total s.rest.length kRxBlockBytes with hle | hle
    · rw [Nat.min_eq_left hle, List.drop_length, List.drop_of_length_le hle]
    · rw [Nat.min_eq_right hle]
  have hseg : (s.segment fileLane event displayOk stale generation ingressMs).published =
      s.published ++ [p] := by
    rw [hp]
    rfl
  have hflat : (s.published ++ [p]).flatMap Published.raw =
      s.published.flatMap Published.raw ++ p.raw := by
    simp
  refine ⟨?_, hdrop⟩
  constructor
  · rw [hseg, hflat, hraw]
    show _ ++ s.rest.drop (min s.rest.length kRxBlockBytes) = data
    rw [List.append_assoc, List.take_append_drop]
    exact hi.split
  · rw [hseg]
    intro q hq
    rw [List.mem_append, List.mem_singleton] at hq
    rcases hq with hq | rfl
    · exact hi.blocks q hq
    · rw [hrawlen]
      exact Nat.min_le_right _ _
  · rw [hseg, hflat, List.length_append, hrawlen, UInt32.ofNat_add, ← UInt32.add_assoc,
      ← hi.rxBytes]
    rfl
  · rw [hseg, refusedBytes_append]
    have hok : p.displayOk = displayOk := by rw [hp]
    cases displayOk with
    | false =>
      have hone : refusedBytes [p] = min s.rest.length kRxBlockBytes := by
        simp [refusedBytes, hok, hrawlen]
      rw [hone, UInt32.ofNat_add, ← hi.backlog]
      rfl
    | true =>
      have hone : refusedBytes [p] = 0 := by simp [refusedBytes, hok]
      rw [hone, Nat.add_zero, ← hi.backlog]
      rfl
  · exact hi.rejected
  · exact hi.exhausted

theorem Inv.stall (hi : s.Inv m data) : s.stall.Inv m data := by
  unfold Ingress.stall
  split
  · exact hi
  · exact { hi with }

theorem stall_rest (s : Ingress) : s.stall.rest = s.rest := by
  unfold Ingress.stall
  split <;> rfl

theorem stall_unownedDrop (s : Ingress) : s.stall.unownedDrop = s.unownedDrop := by
  unfold Ingress.stall
  split <;> rfl

/-- However the loop ends, what is left is counted as dropped. -/
theorem loop_inv {fileLane : Bool} {answers : List PoolAnswer} {s' : Ingress}
    (hi : s.Inv m data) (hdrop : s.unownedDrop = 0) (h : loop fileLane answers s = some s') :
    s'.Inv m data ∧ s'.unownedDrop = UInt32.ofNat s'.rest.length := by
  have hdropped : ∀ t : Ingress, t.Inv m data → t.unownedDrop = 0 →
      t.drop.Inv m data ∧ t.drop.unownedDrop = UInt32.ofNat t.drop.rest.length := by
    intro t ht hzero
    refine ⟨{ ht with }, ?_⟩
    show t.unownedDrop + UInt32.ofNat t.rest.length = UInt32.ofNat t.rest.length
    rw [hzero, UInt32.zero_add]
  induction answers generalizing s with
  | nil =>
    rw [loop] at h
    split at h
    · rename_i hrest
      obtain rfl := Option.some.inj h
      exact ⟨hi, by rw [hdrop, hrest]; rfl⟩
    · cases h
  | cons answer answers ih =>
    unfold loop at h
    by_cases hrest : s.rest = []
    · rw [if_pos hrest] at h
      obtain rfl := Option.some.inj h
      exact ⟨hi, by rw [hdrop, hrest]; rfl⟩
    · rw [if_neg hrest] at h
      cases answer with
      | claimed event displayOk stale generation ingressMs =>
        exact ih (hi.segment fileLane event displayOk stale generation ingressMs).1 hdrop h
      | exhausted callbackAdmission portState =>
        have hstall : s.stall.unownedDrop = 0 := by rw [stall_unownedDrop, hdrop]
        simp only at h
        split at h
        · split at h
          · obtain rfl := Option.some.inj h
            exact hdropped _ hi.stall hstall
          · exact ih hi.stall hstall h
        · obtain rfl := Option.some.inj h
          exact hdropped _ hi hdrop

/-- Enough blocks let the loop end. -/
theorem loop_returns {fileLane : Bool} {answers : List PoolAnswer}
    (h : s.rest.length ≤ kRxBlockBytes * claims answers) :
    (loop fileLane answers s).isSome = true := by
  induction answers generalizing s with
  | nil =>
    have hrest : s.rest = [] := List.eq_nil_of_length_eq_zero (by simpa [claims] using h)
    rw [loop, if_pos hrest]
    rfl
  | cons answer answers ih =>
    unfold loop
    by_cases hrest : s.rest = []
    · rw [if_pos hrest]
      rfl
    · rw [if_neg hrest]
      cases answer with
      | claimed event displayOk stale generation ingressMs =>
        have hcons : claims (.claimed event displayOk stale generation ingressMs :: answers) =
            claims answers + 1 := by
          simp [claims]
        apply ih
        show (s.rest.drop (min s.rest.length kRxBlockBytes)).length ≤ _
        rw [List.length_drop]
        rw [hcons] at h
        unfold kRxBlockBytes at h ⊢
        omega
      | exhausted callbackAdmission portState =>
        have hcons : claims (.exhausted callbackAdmission portState :: answers) =
            claims answers := by
          simp [claims]
        rw [hcons] at h
        simp only
        split
        · split
          · rfl
          · apply ih
            rw [stall_rest]
            exact h
        · rfl

/-- The end of a call turns the point reached into its accounts. -/
theorem Inv.finish (hi : s.Inv m data) (hsize : data.length < 2 ^ 32)
    (hdrop : s.unownedDrop = UInt32.ofNat s.rest.length) (blockedMs : UInt32) :
    (s.finish data.length blockedMs).Accounts m data := by
  have hlen : (s.published.flatMap Published.raw).length + s.rest.length = data.length := by
    rw [← List.length_append, hi.split]
  have haccepted : (s.finish data.length blockedMs).accepted =
      (s.published.flatMap Published.raw).length := by
    show data.length - s.rest.length = _
    omega
  have hrefused := refusedBytes_le s.published
  refine ⟨?_, ?_, hi.blocks, ?_, ?_, ?_, ?_⟩
  · omega
  · rw [haccepted, ← hi.split, List.take_left]
    rfl
  · have hbytes : (s.finish data.length blockedMs).metrics.rxBytes = s.metrics.rxBytes := by
      unfold Ingress.finish
      cases s.blockEpisode <;> simp
    rw [hbytes, hi.rxBytes, haccepted]
    exact toNat_grown _ (by omega)
  · have hbytes : (s.finish data.length blockedMs).metrics.saveRejectedBytes =
        s.metrics.saveRejectedBytes + s.unownedDrop := by
      unfold Ingress.finish
      cases s.blockEpisode <;> simp
    rw [hbytes, hi.rejected, hdrop, haccepted, toNat_grown _ (by omega)]
    omega
  · have hbytes : (s.finish data.length blockedMs).metrics.rxPoolExhaustedBytes =
        s.metrics.rxPoolExhaustedBytes + s.displayBacklog := by
      unfold Ingress.finish
      cases s.blockEpisode <;> simp
    rw [hbytes, hi.exhausted, hi.backlog]
    exact toNat_grown _ (by omega)
  · rw [haccepted]
    by_cases hrest : s.rest = []
    · refine iff_of_true (if_pos hrest) ?_
      rw [hrest, List.length_nil] at hlen
      omega
    · refine iff_of_false ?_ ?_
      · show (if s.rest = [] then _ else _) ≠ _
        rw [if_neg hrest]
        simp
      · have hpos := List.length_pos_iff.mpr hrest
        omega

end Ingress

/-- `rx_ingress` keeps exact accounts of every payload, and returns as soon as the pool
has handed out enough blocks. -/
theorem rx_ingress_accounts (m : Metrics) (data : Payload) (portState : PortState)
    (lease : Bool) (answers : List PoolAnswer) (blockedMs : UInt32) :
    (data.1.length ≤ kRxBlockBytes * claims answers →
      (rxIngress m (some data) portState lease answers blockedMs).isSome = true) ∧
    ∀ r, rxIngress m (some data) portState lease answers blockedMs = some r →
      r.Accounts m data.1 := by
  unfold rxIngress
  dsimp only
  by_cases hempty : data.1.length = 0
  · rw [if_pos hempty]
    refine ⟨fun _ => rfl, fun r hr => ?_⟩
    obtain rfl := Option.some.inj hr
    have hnil := List.eq_nil_of_length_eq_zero hempty
    constructor <;> simp [hnil, refusedBytes]
  · rw [if_neg hempty]
    by_cases hport : portState ≠ .portOpen
    · rw [if_pos hport]
      refine ⟨fun _ => rfl, fun r hr => ?_⟩
      obtain rfl := Option.some.inj hr
      refine ⟨Nat.zero_le _, rfl, by simp, by simp, ?_, by simp [refusedBytes], ?_⟩
      · rw [Metrics.countRejectedRx_rejected]
        exact toNat_grown _ data.2
      · exact iff_of_false (by simp) (fun h => hempty h.symm)
    · rw [if_neg hport]
      refine ⟨fun hclaims => ?_, fun r hr => ?_⟩
      · rw [Option.isSome_map]
        exact Ingress.loop_returns hclaims
      · obtain ⟨s, hs, rfl⟩ := Option.map_eq_some_iff.mp hr
        have hinit : Ingress.Inv
            { metrics := { m with callbackCount := m.callbackCount + 1 }, rest := data.1 } m
            data.1 :=
          { split := rfl
            blocks := by simp
            rxBytes := by simp
            backlog := rfl
            rejected := rfl
            exhausted := rfl }
        obtain ⟨hi, hdrop⟩ := Ingress.loop_inv hinit rfl hs
        exact hi.finish data.2 hdrop blockedMs

/-- A reader that waits once and then publishes to the file lane only. -/
theorem rx_ingress_accounts_waits :
    ∃ (data : Payload) (event : Block) (r : IngressReturn), data.1 = [0x41, 0x42] ∧
      rxIngress {} (some data) .portOpen true
        [.exhausted true .portOpen, .claimed event false [] 1 0] 7 = some r ∧
      r.metrics.rxPoolExhaustedBytes = 2 ∧ r.Accounts {} data.1 := by
  have hlen : [0x41, (0x42 : UInt8)].length < 2 ^ 32 := by decide
  have hblock : 0 < kRxBlockCount := by decide
  have haccounts := rx_ingress_accounts {} ⟨[0x41, 0x42], hlen⟩ .portOpen true
    [.exhausted true .portOpen, .claimed ⟨0, hblock⟩ false [] 1 0] 7
  exact ⟨⟨[0x41, 0x42], hlen⟩, ⟨0, hblock⟩, _, rfl, rfl, rfl, haccounts.2 _ rfl⟩

end Xcom.Rx
