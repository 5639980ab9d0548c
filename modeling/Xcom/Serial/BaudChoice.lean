import Xcom.Pages.Saved
import Xcom.Pages.Total

/-!
# The choice of the baud rate

The rate is chosen by a preset and by the Custom field, which wins where it holds a rate.
Besides, the rate that the start took from the configuration is kept as an override, which
hides the preset where the Custom field holds none.
-/

namespace Xcom.Serial.BaudChoice

open Config (Value)
open Pages (LuaFloats)

variable {N : Type}

/-! ## The rates of the configuration -/

/-- `BAUD`. -/
def baudItems : List Int :=
  [1200, 2400, 4800, 9600, 19200, 38400, 57600, 115200, 230400, 460800, 921600, 1000000,
    2000000, 3000000]

/-- The numbers of the runtime, and which of them are a given integer. -/
structure BaudNumbers (N : Type) extends LuaFloats N where
  isInt : N → Int → Bool

/-- Integers of up to 14 digits are numbers of their own. -/
structure BaudNumbers.Lawful (numbers : BaudNumbers N) : Prop where
  lua : numbers.toLuaNumbers.Lawful
  isInt_ofInt : ∀ n m : Int, n.natAbs < 10 ^ 14 →
    (numbers.isInt (numbers.ofInt n) m = true ↔ n = m)
  isNaN_ofInt : ∀ n : Int, n.natAbs < 10 ^ 14 → numbers.isNaN (numbers.ofInt n) = false

/-- `math.floor(tonumber(v) or 0)`, `none` for `nan`. -/
def floored (numbers : LuaFloats N) (v : Value N) : Option Int :=
  if Pages.readsNaN numbers (some v) then none
  else some (Pages.initialPage numbers.toLuaNumbers (some v))

/-- `index_of(BAUD, value, -1)`, `none` for the fallback. -/
def indexOf (numbers : BaudNumbers N) : Value N → Option Nat
  | .number n => baudItems.findIdx? (numbers.isInt n)
  | _ => none

/-- A rate outside the bounds is `0`, as is a rate that is absent. -/
def inBounds (rate : Int) : Int := if rate < 300 ∨ rate > 3000000 then 0 else rate

/-- `resolve_baud`: the index of the preset and the custom rate, `none` for `nan`. -/
def resolveBaud (numbers : BaudNumbers N) (baudRate baudCustom : Value N) : Nat × Option Int :=
  let custom := (floored numbers.toLuaFloats baudCustom).map inBounds
  match indexOf numbers baudRate with
  | some index => (index, custom)
  | none =>
    if custom = some 0 then
      match floored numbers.toLuaFloats baudRate with
      | some saved => (7, some (inBounds saved))
      | none => (7, some 0)
    else (7, custom)

/-! ## The controls -/

/-- `BAUD[index + 1] or 115200`. -/
def presetAt (index : Nat) : Int := (baudItems[index]?).getD 115200

/-- The fields of the bridge: the combo, the buffer of the Custom field where the native side
has one, and `_baud_override`. -/
structure Panel where
  baud : Nat
  baudCustom : Option Int
  baudOverride : Option Int
  deriving DecidableEq, Repr

namespace Panel

/-- The fields of a resolved pair; an `int` has the least value for `nan`. -/
def ofResolved (extra : Bool) (index : Nat) (custom : Option Int) : Panel :=
  { baud := index
    baudCustom := if extra then some (custom.getD (-2 ^ 31)) else none
    baudOverride := custom.bind fun custom => if custom > 0 then some custom else none }

/-- `M.new`. -/
def new (numbers : BaudNumbers N) (extra : Bool) (baudRate baudCustom : Value N) : Panel :=
  let resolved := resolveBaud numbers baudRate baudCustom
  ofResolved extra resolved.1 resolved.2

/-- The preset that is selected. -/
def preset (p : Panel) : Int := presetAt p.baud

/-- What the Custom field holds. -/
def liveCustom (p : Panel) : Int := p.baudCustom.getD 0

/-- The rate of `serial_config`. -/
def serialConfig (p : Panel) : Int :=
  let custom := if p.liveCustom < 300 then p.baudOverride.getD p.liveCustom else p.liveCustom
  if custom ≥ 300 then min custom 3000000 else p.preset

/-- The Custom field where it holds a rate, and the preset otherwise. -/
def Chosen (p : Panel) : Prop :=
  p.serialConfig = if p.liveCustom ≥ 300 then min p.liveCustom 3000000 else p.preset

instance (p : Panel) : Decidable p.Chosen := inferInstanceAs (Decidable (_ = _))

/-- Where the Custom field holds no rate, the override is none or the preset. -/
def Free (p : Panel) : Prop := p.liveCustom < 300 → ∀ rate, p.baudOverride = some rate →
  rate = p.preset

end Panel

/-! ## The start with a rate of the configuration -/

/-- The `baud_custom` of a configuration is no rate or its `baud_rate`, and `nan` beside a
preset only. -/
def Agrees (numbers : BaudNumbers N) (baudRate baudCustom : Value N) : Prop :=
  match floored numbers.toLuaFloats baudCustom with
  | none => (indexOf numbers baudRate).isSome = true
  | some custom => 300 ≤ custom → custom ≤ 3000000 →
      floored numbers.toLuaFloats baudRate = some custom

/-! ## The rate that is used -/

theorem Panel.chosen_iff {p : Panel} (h : ∀ rate, p.baudOverride = some rate → 300 ≤ rate ∧
    rate ≤ 3000000) : p.Chosen ↔ p.Free := by
  unfold Panel.Chosen Panel.Free Panel.serialConfig
  by_cases hlive : p.liveCustom < 300
  · have hnot : ¬ p.liveCustom ≥ 300 := by omega
    cases hover : p.baudOverride with
    | none => simp [hlive, hnot]
    | some rate =>
      obtain ⟨hlower, hupper⟩ := h rate hover
      have hmin : min rate 3000000 = rate := by omega
      simp [hlive, hnot, hlower, hmin]
  · have hrate : p.liveCustom ≥ 300 := by omega
    simp [hlive, hrate]

theorem baudItems_bounds {rate : Int} (h : rate ∈ baudItems) : 300 ≤ rate ∧ rate ≤ 3000000 := by
  simp only [baudItems, List.mem_cons, List.not_mem_nil, or_false] at h
  omega

theorem Panel.preset_bounds (p : Panel) : 300 ≤ p.preset ∧ p.preset ≤ 3000000 := by
  unfold Panel.preset presetAt
  cases hitem : baudItems[p.baud]? with
  | none => decide
  | some rate => exact baudItems_bounds (List.mem_of_getElem? hitem)

theorem Panel.serialConfig_bounds (p : Panel) :
    300 ≤ p.serialConfig ∧ p.serialConfig ≤ 3000000 := by
  have hpreset := p.preset_bounds
  dsimp only [Panel.serialConfig]
  generalize (if p.liveCustom < 300 then p.baudOverride.getD p.liveCustom else p.liveCustom) =
    custom
  by_cases hrate : custom ≥ 300
  · rw [if_pos hrate]
    omega
  · rw [if_neg hrate]
    exact hpreset

/-! ## The rate of the start -/

theorem inBounds_cases (rate : Int) :
    inBounds rate = 0 ∨ 300 ≤ inBounds rate ∧ inBounds rate ≤ 3000000 := by
  unfold inBounds
  split <;> omega

/-- A custom rate is within the bounds, and `0` stands for none. -/
theorem resolveBaud_custom (numbers : BaudNumbers N) (baudRate baudCustom : Value N) :
    ∀ custom, (resolveBaud numbers baudRate baudCustom).2 = some custom →
      custom = 0 ∨ 300 ≤ custom ∧ custom ≤ 3000000 := by
  have hread : ∀ read : Option Int, ∀ custom, read.map inBounds = some custom →
      custom = 0 ∨ 300 ≤ custom ∧ custom ≤ 3000000 := by
    intro read custom h
    obtain ⟨rate, -, rfl⟩ := Option.map_eq_some_iff.mp h
    exact inBounds_cases rate
  intro custom h
  simp only [resolveBaud] at h
  split at h
  · exact hread _ custom h
  · split at h
    · split at h
      · obtain rfl := Option.some.inj h
        exact inBounds_cases _
      · exact .inl (Option.some.inj h).symm
    · exact hread _ custom h

theorem new_override {numbers : BaudNumbers N} {extra : Bool} {baudRate baudCustom : Value N}
    {rate : Int} (h : (Panel.new numbers extra baudRate baudCustom).baudOverride = some rate) :
    300 ≤ rate ∧ rate ≤ 3000000 := by
  obtain ⟨custom, hcustom, hrate⟩ := Option.bind_eq_some_iff.mp h
  have hbounds := resolveBaud_custom _ _ _ custom hcustom
  split at hrate
  · obtain rfl := Option.some.inj hrate
    omega
  · cases hrate

/-- A custom rate is used, and the preset where there is none. -/
theorem ofResolved_custom (extra : Bool) (index : Nat) {custom : Int} (hlower : 300 ≤ custom)
    (hupper : custom ≤ 3000000) : (Panel.ofResolved extra index custom).serialConfig = custom := by
  have hpos : 0 < custom := by omega
  have hlive : ¬ custom < 300 := by omega
  have hmin : min custom 3000000 = custom := by omega
  cases extra with
  | false => simp [Panel.serialConfig, Panel.liveCustom, Panel.ofResolved, hpos, hlower, hmin]
  | true => simp [Panel.serialConfig, Panel.liveCustom, Panel.ofResolved, hlive, hlower, hmin]

theorem ofResolved_zero (extra : Bool) (index : Nat) :
    (Panel.ofResolved extra index (some 0)).serialConfig = presetAt index := by
  cases extra <;> rfl

theorem ofResolved_none (extra : Bool) (index : Nat) :
    (Panel.ofResolved extra index none).serialConfig = presetAt index := by
  cases extra <;> rfl

/-- No custom rate agrees with every rate. -/
theorem agrees_ofInt_zero {numbers : BaudNumbers N} (hlaw : numbers.Lawful) (baudRate : Value N) :
    Agrees numbers baudRate (.number (numbers.ofInt 0)) := by
  have hnan : Pages.readsNaN numbers.toLuaFloats (some (.number (numbers.ofInt 0))) = false :=
    hlaw.isNaN_ofInt 0 (by decide)
  have hfloor : Pages.initialPage numbers.toLuaNumbers (some (.number (numbers.ofInt 0))) = 0 :=
    hlaw.lua.floor_int 0 (by decide)
  simp [Agrees, floored, hnan, hfloor]

section

variable {numbers : BaudNumbers N} (hlaw : numbers.Lawful) {rate : Int}
  (hlower : 300 ≤ rate) (hupper : rate ≤ 3000000)

include hlaw hlower hupper

theorem floored_ofInt : floored numbers.toLuaFloats (.number (numbers.ofInt rate)) = some rate := by
  have hdigits : rate.natAbs < 10 ^ 14 := by omega
  have hnan : Pages.readsNaN numbers.toLuaFloats (some (.number (numbers.ofInt rate))) = false :=
    hlaw.isNaN_ofInt rate hdigits
  have hfloor := hlaw.lua.floor_int rate hdigits
  simp only [floored, hnan, Bool.false_eq_true, if_false]
  exact congrArg some hfloor

theorem indexOf_ofInt : indexOf numbers (.number (numbers.ofInt rate)) =
    baudItems.findIdx? (rate = ·) := by
  have hdigits : rate.natAbs < 10 ^ 14 := by omega
  show baudItems.findIdx? _ = _
  congr 1
  funext item
  rw [Bool.eq_iff_iff, hlaw.isInt_ofInt rate item hdigits]
  simp

theorem presetAt_indexOf {index : Nat}
    (h : indexOf numbers (.number (numbers.ofInt rate)) = some index) : presetAt index = rate := by
  rw [indexOf_ofInt hlaw hlower hupper] at h
  obtain ⟨hlt, heq, -⟩ := List.findIdx?_eq_some_iff_getElem.mp h
  rw [presetAt, List.getElem?_eq_getElem hlt]
  exact (of_decide_eq_true heq).symm

theorem ne_of_indexOf_none (h : indexOf numbers (.number (numbers.ofInt rate)) = none) :
    presetAt 7 ≠ rate := by
  rw [indexOf_ofInt hlaw hlower hupper, List.findIdx?_eq_none_iff] at h
  have hitem : presetAt 7 ∈ baudItems := by decide
  intro heq
  have hne := h _ hitem
  rw [heq, decide_eq_false_iff_not] at hne
  exact hne rfl

/-- A start takes the rate of the configuration just where `baud_custom` agrees with it. -/
theorem start_rate_iff (extra : Bool) (baudCustom : Value N) :
    (Panel.new numbers extra (.number (numbers.ofInt rate)) baudCustom).serialConfig = rate ↔
      Agrees numbers (.number (numbers.ofInt rate)) baudCustom := by
  have hread := floored_ofInt hlaw hlower hupper
  have hrate : inBounds rate = rate := if_neg (by omega)
  cases hcustom : floored numbers.toLuaFloats baudCustom with
  | none =>
    cases hindex : indexOf numbers (.number (numbers.ofInt rate)) with
    | none =>
      have hne := ne_of_indexOf_none hlaw hlower hupper hindex
      simp [Panel.new, resolveBaud, Agrees, hcustom, hindex, ofResolved_none, hne]
    | some index =>
      have heq := presetAt_indexOf hlaw hlower hupper hindex
      simp [Panel.new, resolveBaud, Agrees, hcustom, hindex, ofResolved_none, heq]
  | some custom =>
    by_cases hin : 300 ≤ custom ∧ custom ≤ 3000000
    · -- The custom rate is used, beside a preset and beside a rate that is none.
      have hbounds : inBounds custom = custom := if_neg (by omega)
      have hne : custom ≠ 0 := by omega
      have huse : ∀ index, (Panel.ofResolved extra index (some custom)).serialConfig = custom :=
        fun index => ofResolved_custom extra index hin.1 hin.2
      cases hindex : indexOf numbers (.number (numbers.ofInt rate)) with
      | none =>
        simp [Panel.new, resolveBaud, Agrees, hcustom, hindex, hbounds, hne, huse, hread, hin,
          eq_comm]
      | some index =>
        simp [Panel.new, resolveBaud, Agrees, hcustom, hindex, hbounds, huse, hread, hin, eq_comm]
    · have hbounds : inBounds custom = 0 := if_pos (by omega)
      have hagrees : Agrees numbers (.number (numbers.ofInt rate)) baudCustom := by
        rw [Agrees, hcustom]
        exact fun hlow hhigh => absurd ⟨hlow, hhigh⟩ hin
      cases hindex : indexOf numbers (.number (numbers.ofInt rate)) with
      | none =>
        -- The rate of the file is no preset, and is carried as the custom rate.
        have huse := ofResolved_custom extra 7 hlower hupper
        simp [Panel.new, resolveBaud, hcustom, hindex, hbounds, hread, hrate, huse, hagrees]
      | some index =>
        have heq := presetAt_indexOf hlaw hlower hupper hindex
        simp [Panel.new, resolveBaud, hcustom, hindex, hbounds, ofResolved_zero, heq, hagrees]

end

end Xcom.Serial.BaudChoice
