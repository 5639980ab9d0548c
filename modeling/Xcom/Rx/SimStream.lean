import Xcom.Checksum.Detection
import Xcom.Config.Ini
import Xcom.Rx.SerialSim
import Xcom.Text.Numeral
import Xcom.Transition.Records

/-!
# The generators of the serial simulator

The profiles of `serial_sim.lua`, `_stream` with its carry and `pump` over the queue of
fragments, and the modem that answers what is sent; then what the core is given in the end.
-/

namespace Xcom.Rx.SimStream

open Config (Bytes isSpace trim)

/-- `PROFILE_NAMES`. -/
inductive Profile
  | text
  | gb2312
  | hexbin
  | modbus
  | atModem
  | wave
  | echo
  deriving DecidableEq, Repr

/-- What the generators use of the platform: the one-shot conversion to code page 936, the
numbers of `wave` as `%.4f` writes them, and whether the checksum library is there. -/
structure Platform where
  utf8ToCp : Bytes → Bytes
  sine : Nat → Bytes
  saw : Nat → Bytes
  haveCrc : Bool

/-- A platform off Windows, where the conversion passes its text through. -/
def passthrough : Platform := ⟨id, fun _ => [0x30], fun _ => [0x31], true⟩

/-! ## Units -/

/-- The bytes of a literal. -/
def literal (s : String) : Bytes := s.toUTF8.data.toList

/-- `string.format("%0<width>d", n)`. -/
def zeroPadded (width n : Nat) : Bytes :=
  (Numeral.padded 10 width n).map fun d => UInt8.ofNat (0x30 + d)

/-- `GENERATORS.text`. -/
def textUnit (n : Nat) : Bytes :=
  0x5B :: zeroPadded 6 n ++
    literal "] SIM text frame: the quick brown fox 0123456789 ABCDEF\r\n"

/-- `GB_TEMPLATES`. -/
def gbTemplates : List (String × String) :=
  [("串口模拟帧 ", " 中文数据 测试"), ("接收显示 ", " 链路层验证"), ("模拟设备上报 ", " 状态正常")]

/-- `GENERATORS.gb2312`. -/
def gb2312Unit (platform : Platform) (n : Nat) : Bytes :=
  let template := gbTemplates.getD (n % 3) ("", "")
  platform.utf8ToCp
    (literal template.1 ++ zeroPadded 6 n ++ literal template.2 ++ [0x0D, 0x0A])

/-- `GENERATORS.hexbin`. -/
def hexbinUnit (n : Nat) : Bytes :=
  0x42 :: 0x49 :: 0x4E :: 0x20 :: zeroPadded 4 (n % 10000) ++
    0x3A :: (List.range 256).map UInt8.ofNat ++ [0x0D, 0x0A]

/-- `crc16`: the library's, or the loop of the file. -/
def crc16 (platform : Platform) (s : Bytes) : Nat :=
  if platform.haveCrc then Protocol.crc16Modbus s else Protocol.crc16Fallback s

/-- `crc16_wire`. -/
def crc16Wire (platform : Platform) (s : Bytes) : Bytes :=
  [UInt8.ofNat (crc16 platform s &&& 0xFF), UInt8.ofNat (crc16 platform s >>> 8)]

/-- The answer of a slave, up to its check. -/
def modbusBody (n : Nat) : Bytes :=
  [UInt8.ofNat (n % 247 + 1), if n % 2 = 0 then 4 else 3, 8] ++
    (List.range 8).map fun k => UInt8.ofNat ((n * 37 + (k + 1) * 11) % 256)

/-- `GENERATORS.modbus`. -/
def modbusUnit (platform : Platform) (n : Nat) : Bytes :=
  modbusBody n ++ crc16Wire platform (modbusBody n)

/-- `GENERATORS.wave`. -/
def waveUnit (platform : Platform) (n : Nat) : Bytes :=
  0x24 :: literal "CH0," ++ platform.sine n ++ literal "\r\n$CH1," ++ platform.saw n ++
    literal "\r\n"

/-- `GENERATORS`, over the number of the unit. -/
def generators (platform : Platform) : Profile → Option (Nat → Bytes)
  | .text => some textUnit
  | .gb2312 => some (gb2312Unit platform)
  | .hexbin => some hexbinUnit
  | .modbus => some (modbusUnit platform)
  | .wave => some (waveUnit platform)
  | .atModem | .echo => none

/-! ## The stream of a profile -/

/-- `gen_state`. -/
structure GenState where
  n : Nat := 0
  carry : Bytes := []
  deriving DecidableEq, Repr

/-- The loop of `_stream`, with what its guard leaves of rounds. -/
def fill (unit : Nat → Bytes) (want : Nat) : Nat → GenState → GenState
  | 0, st => st
  | rounds + 1, st =>
    if st.carry.length < want then
      fill unit want rounds { n := st.n + 1, carry := st.carry ++ unit (st.n + 1) }
    else st

/-- The rounds until `guard > 100000`. -/
def guardRounds : Nat := 100001

/-- `_stream`. -/
def stream (unit : Option (Nat → Bytes)) (want : Nat) (st : GenState) : Bytes × GenState :=
  match unit with
  | none => ([], st)
  | some unit =>
    if want = 0 then ([], st)
    else
      let filled := fill unit want guardRounds st
      (filled.carry.take want, { filled with carry := filled.carry.drop want })

/-- `generate`. -/
def generate (unit : Option (Nat → Bytes)) (n : Nat) : Bytes :=
  match unit with
  | none => []
  | some unit => (fill unit n guardRounds {}).carry.take n

/-! ## The modem -/

/-- `upper`. -/
def upper (s : Bytes) : Bytes := s.map fun c => if 0x61 ≤ c ∧ c ≤ 0x7A then c - 0x20 else c

/-- `%w`. -/
def isAlnum (c : UInt8) : Bool :=
  (0x30 ≤ c && c ≤ 0x39) || (0x41 ≤ c && c ≤ 0x5A) || (0x61 ≤ c && c ≤ 0x7A)

/-- `[%w%+%=%,%-%s]`. -/
def isParameter (c : UInt8) : Bool :=
  isAlnum c || c == 0x2B || c == 0x3D || c == 0x2C || c == 0x2D || isSpace c

/-- `s:match("^" .. mark .. set .. "+$")`. -/
def matchesAll (mark : Bytes) (set : UInt8 → Bool) (s : Bytes) : Bool :=
  mark.isPrefixOf s && mark.length < s.length && (s.drop mark.length).all set

def replyOk : Bytes := literal "\r\nOK\r\n"

def replyError : Bytes := literal "\r\nERROR\r\n"

/-- `at_respond`: the echo behind the command, and the reply. -/
def atRespond (echo : Bool) (line : Bytes) : Bool × Bytes :=
  let cmd := trim line
  let up := upper cmd
  if cmd = [] then (echo, [])
  else if up.take 2 ≠ literal "AT" then (echo, replyError)
  else if up = literal "ATE0" then (false, replyOk)
  else if up = literal "ATE1" then (true, replyOk)
  else
    let reply :=
      if up = literal "ATH" ∨ up = literal "ATH1" then literal "\r\nNO CARRIER\r\n"
      else if up.take 3 = literal "ATD" then literal "\r\nCONNECT 9600\r\n"
      else if up = literal "AT" ∨ up = literal "ATZ" ∨ up = literal "ATI" ∨
          matchesAll (literal "AT+C") isAlnum up then replyOk
      else if matchesAll (literal "AT") isParameter up then replyOk
      else replyError
    (echo, if echo then cmd ++ [0x0D, 0x0A] ++ reply else reply)

/-- `[\r\n]`. -/
def isLineEnd (c : UInt8) : Bool := c == 0x0D || c == 0x0A

/-- The lines that `buf:gmatch("([^\r\n]*)[\r\n]")` yields behind what has begun, and the tail
without an end. -/
def commandLines (held : Bytes) : Bytes → List Bytes × Bytes
  | [] => ([], held)
  | c :: buf =>
    if isLineEnd c then
      let (lines, tail) := commandLines [] buf
      (held :: lines, tail)
    else commandLines (held ++ [c]) buf

/-! ## The simulator -/

/-- `MAX_BURST_BYTES`. -/
def maxBurstBytes : Nat := 65536

/-- `AT_LINE_MAX`. -/
def atLineMax : Nat := 256

/-- The last `n` bytes: `s:sub(-n)`. -/
def lastBytes (n : Nat) (s : Bytes) : Bytes := s.drop (s.length - n)

/-- The fields of the simulator beside the queue. -/
structure Sim where
  queue : SerialSim UInt8 := {}
  profileName : Profile := .text
  running : Bool := false
  genState : GenState := {}
  atBuf : Bytes := []
  atEcho : Bool := true

namespace Sim

/-- `profile(name)`, of a name that is listed. -/
def profile (name : Profile) (s : Sim) : Sim := { s with profileName := name, genState := {} }

/-- `stop`. -/
def stop (s : Sim) : Sim := { s with running := false, queue := s.queue.stop }

/-- `start`, with whether the window has a core. -/
def start (core : Bool) (s : Sim) : Sim :=
  if core then { s.stop with genState := {}, atBuf := [], atEcho := true, running := true }
  else s.stop

/-- `pump`: the whole bytes of the budget and the answers of the core, none where there is no
core.  What a burst leaves of the budget goes to the next one. -/
def pump (platform : Platform) (budget : Nat) (answers : List Bool) (s : Sim) : Sim :=
  if s.running then
    let (out, st) :=
      stream (generators platform s.profileName) (min budget maxBurstBytes) s.genState
    { s with genState := st, queue := (s.queue.queue out).injectLoop answers }
  else s

/-- The replies to complete lines, queued one by one. -/
def respond (s : Sim) (line : Bytes) : Sim :=
  let (echo, reply) := atRespond s.atEcho line
  { s with atEcho := echo, queue := s.queue.queue reply }

/-- The branch of `tx_observe` for the modem. -/
def observeModem (payload : Bytes) (s : Sim) : Sim :=
  let buf := s.atBuf ++ payload
  let kept := if atLineMax * 8 < buf.length then lastBytes (atLineMax * 4) buf else buf
  let (lines, tail) := commandLines [] kept
  let answered := lines.foldl respond s
  { answered with atBuf := if atLineMax < tail.length then lastBytes atLineMax tail else tail }

/-- `tx_observe`. -/
def txObserve (payload : Bytes) (s : Sim) : Sim :=
  if !s.running || payload.isEmpty then s
  else
    match s.profileName with
    | .echo => { s with queue := s.queue.queue payload }
    | .atModem => s.observeModem payload
    | _ => s

/-- What happens to a simulator that was started. -/
inductive Op
  | pump (budget : Nat) (answers : List Bool)
  | txObserve (payload : Bytes)
  deriving DecidableEq, Repr

def apply (platform : Platform) (s : Sim) : Op → Sim
  | .pump budget answers => s.pump platform budget answers
  | .txObserve payload => s.txObserve payload

def run (platform : Platform) (s : Sim) (ops : List Op) : Sim := ops.foldl (apply platform) s

end Sim

end Xcom.Rx.SimStream

/-! ## What is injected

The bytes of a profile do not depend on the ticks: the core is given the first bytes of the
stream of its units, and the units of the Modbus profile pass the check of a receiver. -/

namespace Xcom.Rx

open Config (Bytes)
open Transition (Records.records Records.first)

/-! ## The queue and what went into it -/

namespace SerialSim

variable {α : Type}

theorem trim_queued (s : SerialSim α) (pending : List (List α)) :
    (s.trim pending).queued = s.queued := by
  induction pending generalizing s with
  | nil => rfl
  | cons old rest ih =>
    cases rest with
    | nil => rfl
    | cons next rest =>
      rw [trim]
      split
      · exact ih _
      · rfl

theorem queue_queued (s : SerialSim α) (data : List α) :
    (s.queue data).queued = s.queued ++ data := by
  unfold queue
  split
  · rename_i hdata
    rw [hdata, List.append_nil]
  · have htrim := trim_queued (s.append data) (s.append data).pending
    unfold logDropped
    split <;> exact htrim

theorem injectLoop_queued (s : SerialSim α) (answers : List Bool) :
    (s.injectLoop answers).queued = s.queued := by
  induction answers generalizing s with
  | nil => rfl
  | cons answer answers ih =>
    rw [injectLoop]
    split
    · rfl
    · split
      · exact ih _
      · rfl

/-- Where nothing was dropped, what was injected and what waits is all that was queued. -/
theorem Kept.undropped {d : Nat} {s : SerialSim α} (h : s.Kept d) (hdropped : s.dropped = []) :
    s.injected ++ s.pending.flatten = s.queued := by
  have hlen := h.once.length_eq
  rw [hdropped, List.append_nil] at hlen
  exact h.order.eq_of_length hlen

end SerialSim

/-! ## The stream of a profile -/

namespace SimStream

/-- The units as they are numbered. -/
def numbered (unit : Nat → Bytes) (i : Nat) : Bytes := unit (i + 1)

theorem fill_records (unit : Nat → Bytes) (want rounds : Nat) {st : GenState} {before : Bytes}
    (h : before ++ st.carry = Records.records (numbered unit) st.n) :
    before ++ (fill unit want rounds st).carry =
      Records.records (numbered unit) (fill unit want rounds st).n := by
  induction rounds generalizing st with
  | zero => exact h
  | succ rounds ih =>
    rw [fill]
    split
    · refine ih ?_
      rw [Transition.Records.records_succ, ← h, List.append_assoc]
      rfl
    · exact h

theorem length_fill {unit : Nat → Bytes} (hunit : ∀ n, unit n ≠ []) (want rounds : Nat)
    (st : GenState) : want ≤ (fill unit want rounds st).carry.length ∨
      st.carry.length + rounds ≤ (fill unit want rounds st).carry.length := by
  induction rounds generalizing st with
  | zero => exact Or.inr (Nat.le_refl _)
  | succ rounds ih =>
    rw [fill]
    split
    · rcases ih { n := st.n + 1, carry := st.carry ++ unit (st.n + 1) } with hwant | hrounds
      · exact Or.inl hwant
      · have hpos := List.length_pos_iff.mpr (hunit (st.n + 1))
        rw [List.length_append] at hrounds
        exact Or.inr (by omega)
    · rename_i henough
      exact Or.inl (Nat.le_of_not_lt henough)

/-- A pull takes the next bytes of the units, as many as are wanted. -/
theorem stream_spec {unit : Nat → Bytes} (hunit : ∀ n, unit n ≠ []) {want : Nat}
    (hwant : want ≤ guardRounds) {st : GenState} {before : Bytes}
    (h : before ++ st.carry = Records.records (numbered unit) st.n) :
    before ++ (stream (some unit) want st).1 ++ (stream (some unit) want st).2.carry =
        Records.records (numbered unit) (stream (some unit) want st).2.n ∧
      (stream (some unit) want st).1.length = want := by
  unfold stream
  dsimp only
  split
  · rename_i hzero
    rw [List.append_nil]
    exact ⟨h, hzero.symm⟩
  · have hfilled := fill_records unit want guardRounds h
    have henough : want ≤ (fill unit want guardRounds st).carry.length := by
      rcases length_fill hunit want guardRounds st with hle | hle <;> omega
    refine ⟨?_, ?_⟩
    · rw [List.append_assoc, List.take_append_drop]
      exact hfilled
    · rw [List.length_take, Nat.min_eq_left henough]

theorem generate_eq {unit : Nat → Bytes} (hunit : ∀ n, unit n ≠ []) {n : Nat}
    (hn : n ≤ guardRounds) : generate (some unit) n = Records.first (numbered unit) n := by
  have hfilled : ([] : Bytes) ++ (fill unit n guardRounds {}).carry =
      Records.records (numbered unit) (fill unit n guardRounds {}).n :=
    fill_records unit n guardRounds rfl
  have henough : n ≤ (fill unit n guardRounds {}).carry.length := by
    rcases length_fill hunit n guardRounds {} with hle | hle <;> omega
  rw [List.nil_append] at hfilled
  have hgenerate : generate (some unit) n = (fill unit n guardRounds {}).carry.take n := rfl
  rw [hgenerate, hfilled]
  exact Transition.Records.take_records (fun i => hunit (i + 1)) (hfilled ▸ henough)

/-! ## Units -/

theorem length_modbusUnit (platform : Platform) (n : Nat) :
    (modbusUnit platform n).length = 13 := by
  simp [modbusUnit, modbusBody, crc16Wire]

theorem generators_ne_nil {platform : Platform}
    (hcp : ∀ text, text ≠ [] → platform.utf8ToCp text ≠ []) {profile : Profile}
    {unit : Nat → Bytes} (hunit : generators platform profile = some unit) (n : Nat) :
    unit n ≠ [] := by
  cases profile with
  | text => exact Option.some.inj hunit ▸ List.cons_ne_nil _ _
  | gb2312 =>
    rw [← Option.some.inj hunit]
    exact hcp _ (by simp)
  | hexbin => exact Option.some.inj hunit ▸ List.cons_ne_nil _ _
  | modbus =>
    rw [← Option.some.inj hunit]
    intro hnil
    have hlen := length_modbusUnit platform n
    rw [hnil] at hlen
    cases hlen
  | wave => exact Option.some.inj hunit ▸ List.cons_ne_nil _ _
  | atModem | echo => cases hunit

theorem crc16_eq (platform : Platform) (s : Bytes) :
    crc16 platform s = Protocol.crc16Modbus s := by
  unfold crc16
  split
  · rfl
  · rw [Protocol.crc16Modbus_eq, Protocol.crc16Fallback_eq]

theorem crc16Wire_eq (platform : Platform) (s : Bytes) :
    crc16Wire platform s = Protocol.crc16ModbusBytes s := by
  have hhigh : (Protocol.crc16Modbus s >>> 8) &&& 0xFF = (Protocol.crc16Modbus s >>> 8) % 256 :=
    Nat.and_two_pow_sub_one_eq_mod _ 8
  rw [crc16Wire, Protocol.crc16ModbusBytes, crc16_eq, hhigh]
  congr 2
  apply UInt8.toNat_inj.mp
  rw [UInt8.toNat_ofNat', UInt8.toNat_ofNat', Nat.mod_mod]

/-- A unit of the Modbus profile passes the check of a receiver. -/
theorem modbusUnit_checks (platform : Platform) (n : Nat) :
    Protocol.crc16Modbus (modbusUnit platform n) = 0 := by
  rw [modbusUnit, crc16Wire_eq]
  exact (Protocol.residue_iff _ _ rfl).mpr rfl

/-! ## Runs -/

/-- The bytes that the ticks of a run ask for. -/
def asked (ops : List Sim.Op) : Nat :=
  (ops.map fun op =>
    match op with
    | .pump budget _ => min budget maxBurstBytes
    | .txObserve _ => 0).sum

/-- A simulator at work on a profile, behind what its ticks asked for. -/
structure Streams (unit : Nat → Bytes) (profile : Profile) (total d : Nat) (s : Sim) : Prop where
  running : s.running = true
  profileName : s.profileName = profile
  kept : s.queue.Kept d
  stream : s.queue.queued ++ s.genState.carry = Records.records (numbered unit) s.genState.n
  length : s.queue.queued.length = total

theorem Streams.pump {platform : Platform} {unit : Nat → Bytes} {profile : Profile}
    {total d : Nat} {s : Sim} (h : Streams unit profile total d s)
    (hunit : generators platform profile = some unit) (hne : ∀ n, unit n ≠ []) (budget : Nat)
    (answers : List Bool) :
    Streams unit profile (total + min budget maxBurstBytes) d (s.pump platform budget answers) := by
  obtain ⟨hrunning, rfl, hkept, hbefore, htotal⟩ := h
  have hwant : min budget maxBurstBytes ≤ guardRounds :=
    (Nat.min_le_right _ _).trans (by decide)
  obtain ⟨hstream, hlen⟩ := stream_spec hne hwant hbefore
  have hqueued : ∀ out : Bytes, ((s.queue.queue out).injectLoop answers).queued =
      s.queue.queued ++ out := fun out => by
    rw [SerialSim.injectLoop_queued, SerialSim.queue_queued]
  unfold Sim.pump
  rw [if_pos hrunning, hunit]
  refine ⟨hrunning, rfl, (hkept.queue _).injectLoop answers, ?_, ?_⟩
  · exact (congrArg (· ++ _) (hqueued _)).trans hstream
  · exact (congrArg List.length (hqueued _)).trans
      (by rw [List.length_append, htotal, hlen])

theorem Streams.apply {platform : Platform} {unit : Nat → Bytes} {profile : Profile}
    {total d : Nat} {s : Sim} (h : Streams unit profile total d s)
    (hunit : generators platform profile = some unit) (hne : ∀ n, unit n ≠ []) (op : Sim.Op) :
    Streams unit profile (total + asked [op]) d (s.apply platform op) := by
  cases op with
  | pump budget answers => exact h.pump hunit hne budget answers
  | txObserve payload =>
    have hsame : s.txObserve payload = s := by
      unfold Sim.txObserve
      rw [h.profileName]
      cases profile with
      | text | gb2312 | hexbin | modbus | wave => split <;> rfl
      | atModem | echo => cases hunit
    show Streams unit profile total d (s.txObserve payload)
    rw [hsame]
    exact h

theorem Streams.run {platform : Platform} {unit : Nat → Bytes} {profile : Profile}
    {total d : Nat} {s : Sim} (h : Streams unit profile total d s)
    (hunit : generators platform profile = some unit) (hne : ∀ n, unit n ≠ [])
    (ops : List Sim.Op) : Streams unit profile (total + asked ops) d (s.run platform ops) := by
  induction ops generalizing s total with
  | nil => exact h
  | cons op ops ih =>
    have hrest := ih (h.apply hunit hne op)
    rw [Nat.add_assoc] at hrest
    have hsum : asked [op] + asked ops = asked (op :: ops) := by
      simp [asked]
    rwa [hsum] at hrest

theorem streams_start (unit : Nat → Bytes) (s : Sim) :
    Streams unit s.profileName 0 s.queue.droppedBytes (s.start true) where
  running := rfl
  profileName := rfl
  kept := SerialSim.kept_stop s.queue
  stream := rfl
  length := rfl

theorem queued_first {platform : Platform} (s : Sim) {unit : Nat → Bytes}
    (hunit : generators platform s.profileName = some unit) (hne : ∀ n, unit n ≠ [])
    (ops : List Sim.Op) (hdropped : ((s.start true).run platform ops).queue.dropped = []) :
    ((s.start true).run platform ops).queue.injected ++
        ((s.start true).run platform ops).queue.pending.flatten =
      Records.first (numbered unit) (asked ops) := by
  have hnumbered : ∀ i, numbered unit i ≠ [] := fun i => hne (i + 1)
  have hrun := (streams_start unit s).run hunit hne ops
  rw [Nat.zero_add] at hrun
  have henough : asked ops ≤ (Records.records (numbered unit)
      ((s.start true).run platform ops).genState.n).length := by
    rw [← hrun.stream, List.length_append, hrun.length]
    exact Nat.le_add_right _ _
  rw [hrun.kept.undropped hdropped, ← Transition.Records.take_records hnumbered henough,
    ← hrun.stream, ← hrun.length, List.take_left]

/-- Whatever the ticks are and the core answers, as long as nothing was dropped the bytes that
were injected and those that wait are the first bytes of the profile, as many as the ticks asked
for. -/
theorem injected_is_stream {platform : Platform}
    (hcp : ∀ text, text ≠ [] → platform.utf8ToCp text ≠ []) (s : Sim) {unit : Nat → Bytes}
    (hunit : generators platform s.profileName = some unit) (ops : List Sim.Op)
    (hdropped : ((s.start true).run platform ops).queue.dropped = []) :
    ((s.start true).run platform ops).queue.injected ++
        ((s.start true).run platform ops).queue.pending.flatten =
      Records.first (numbered unit) (asked ops) ∧
    (asked ops ≤ guardRounds →
      ((s.start true).run platform ops).queue.injected <+:
        generate (generators platform s.profileName) (asked ops)) := by
  have hne := generators_ne_nil hcp hunit
  have hfirst := queued_first s hunit hne ops hdropped
  refine ⟨hfirst, fun hguard => ?_⟩
  rw [hunit, generate_eq hne hguard, ← hfirst]
  exact List.prefix_append ..

/-- A tick that asks for one frame of the Modbus profile, and the core takes it. -/
def oneFrame : List Sim.Op := [.pump 13 [true]]

theorem oneFrame_dropped :
    (((Sim.profile .modbus {}).start true).run passthrough oneFrame).queue.dropped = [] := by
  decide

theorem injected_is_stream_one_frame :
    (((Sim.profile .modbus {}).start true).run passthrough oneFrame).queue.injected <+:
      generate (generators passthrough .modbus) 13 :=
  (injected_is_stream (fun _ htext => htext) (Sim.profile .modbus {}) rfl oneFrame
    oneFrame_dropped).2 (by decide)

/-- Each whole frame that the Modbus profile brought to the core passes the check of a receiver;
it is the next answer of a slave, however the stream was cut. -/
theorem injected_frames_check (platform : Platform) (s : Sim) (hprofile : s.profileName = .modbus)
    (ops : List Sim.Op) (hdropped : ((s.start true).run platform ops).queue.dropped = [])
    (i : Nat) (hi : (i + 1) * 13 ≤ ((s.start true).run platform ops).queue.injected.length) :
    ((((s.start true).run platform ops).queue.injected.drop (i * 13)).take 13) =
      modbusUnit platform (i + 1) ∧
    Protocol.crc16Modbus
      ((((s.start true).run platform ops).queue.injected.drop (i * 13)).take 13) = 0 := by
  have hunit : generators platform s.profileName = some (modbusUnit platform) := by
    rw [hprofile]
    rfl
  have hsize : ∀ j, (numbered (modbusUnit platform) j).length = 13 := fun j =>
    length_modbusUnit platform (j + 1)
  have hne : ∀ n, modbusUnit platform n ≠ [] := by
    intro n hnil
    have hlen := length_modbusUnit platform n
    rw [hnil] at hlen
    cases hlen
  have hfirst := queued_first s hunit hne ops hdropped
  have hlen := Transition.Records.length_first (fun j => hne (j + 1)) (asked ops)
  have htotal : (i + 1) * 13 ≤ asked ops := by
    have hparts := congrArg List.length hfirst
    rw [List.length_append] at hparts
    change _ = (Records.first (numbered (modbusUnit platform)) (asked ops)).length at hparts
    have hall : (Records.first (numbered (modbusUnit platform)) (asked ops)).length = asked ops :=
      hlen
    omega
  have hframe := Transition.Records.record_at hsize (by decide) htotal
  rw [← hfirst, List.drop_append_of_le_length (by omega),
    List.take_append_of_le_length (by rw [List.length_drop]; omega)] at hframe
  exact ⟨hframe, by rw [hframe]; exact modbusUnit_checks platform (i + 1)⟩

theorem injected_frames_check_one_frame :
    Protocol.crc16Modbus ((((((Sim.profile .modbus {}).start true).run passthrough
      oneFrame).queue.injected.drop (0 * 13)).take 13)) = 0 :=
  (injected_frames_check passthrough (Sim.profile .modbus {}) rfl oneFrame oneFrame_dropped 0
    (by decide)).2

end SimStream

end Xcom.Rx
