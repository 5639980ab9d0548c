import Mathlib.Data.List.Basic

/-!
# The serial write

`WinSerialBackend::write`: overlapped writes that continue a short transfer from where
the driver stopped.  The driver answers every attempt with an outcome, and part of the
data may be on the wire in each of them.  Only a completion reports a count: what an
operation sent that failed, or was cancelled after its timeout, is counted nowhere.
-/

namespace Xcom.Serial

/-- What the driver does with one `WriteFile`.  `sent` is the part of the request that
an operation without a count has put, or still puts, on the wire. -/
inductive DriverOutcome
  /-- `WriteFile` returns TRUE. -/
  | immediate (count : Nat)
  /-- `WriteFile` fails, and not with `ERROR_IO_PENDING`. -/
  | refused (code : Nat) (sent : Nat)
  /-- Pending, and `GetOverlappedResult` returns TRUE. -/
  | completed (count : Nat)
  /-- Pending, signalled, and `GetOverlappedResult` returns FALSE. -/
  | reapFailed (code : Nat) (sent : Nat)
  /-- Pending, and the wait ends with neither the event nor a timeout. -/
  | waitFailed (code : Nat) (sent : Nat)
  /-- Pending, and cancelled after the timeout. -/
  | timedOut (lineStatus : UInt32) (sent : Nat)
  deriving DecidableEq, Repr

namespace DriverOutcome

/-- The count that a completion reports. -/
def count? : DriverOutcome → Option Nat
  | immediate count | completed count => some count
  | refused _ _ | reapFailed _ _ | waitFailed _ _ | timedOut _ _ => none

/-- The bytes an operation puts on the wire without reporting a count. -/
def uncounted : DriverOutcome → Nat
  | immediate _ | completed _ => 0
  | refused _ sent | reapFailed _ sent | waitFailed _ sent | timedOut _ sent => sent

end DriverOutcome

/-- `kMaxWriteIterations`. -/
def kMaxWriteIterations : Nat := 8

/-- `ERROR_SUCCESS`, `ERROR_WRITE_FAULT`, `ERROR_INVALID_PARAMETER`, `ERROR_TIMEOUT`. -/
def errorSuccess : Nat := 0
def errorWriteFault : Nat := 29
def errorInvalidParameter : Nat := 87
def errorTimeout : Nat := 1460

/-- What `write` returns.  `wire` and `attempts` are history: the bytes put on the wire
and the number of `WriteFile` calls. -/
structure WriteResult where
  ok : Bool
  written : Nat
  error : Nat
  lineStatus : UInt32 := 0
  wire : List UInt8 := []
  attempts : Nat := 0
  deriving DecidableEq, Repr

/-- The loop of `write`, `left` iterations before its cap. -/
def writeLoop (data : List UInt8) (driver : Nat → DriverOutcome) :
    (left iteration total : Nat) → (wire : List UInt8) → WriteResult
  | 0, iteration, total, wire => ⟨false, total, errorWriteFault, 0, wire, iteration⟩
  | left + 1, iteration, total, wire =>
    let chunk := data.drop total
    match driver iteration with
    | .immediate count | .completed count =>
      -- A completion must not claim more than was requested.
      let nativeWritten := min count chunk.length
      let wire := wire ++ chunk.take nativeWritten
      if data.length ≤ total + nativeWritten then
        ⟨true, total + nativeWritten, errorSuccess, 0, wire, iteration + 1⟩
      else if nativeWritten = 0 then
        ⟨false, total + nativeWritten, errorWriteFault, 0, wire, iteration + 1⟩
      else writeLoop data driver left (iteration + 1) (total + nativeWritten) wire
    | .refused code sent | .reapFailed code sent | .waitFailed code sent =>
      ⟨false, total, code, 0, wire ++ chunk.take sent, iteration + 1⟩
    | .timedOut lineStatus sent =>
      ⟨false, total, errorTimeout, lineStatus, wire ++ chunk.take sent, iteration + 1⟩

/-- `WinSerialBackend::write`.  `usable` is that the port is open and its handle and the
data pointer are valid. -/
def write (usable : Bool) (data : List UInt8) (driver : Nat → DriverOutcome) : WriteResult :=
  if usable = false ∨ data.length = 0 then
    { ok := false, written := 0, error := errorInvalidParameter }
  else writeLoop data driver kMaxWriteIterations 0 0 []

/-- The bytes on the wire are the prefix of the payload of the reported length, the call
succeeds exactly when that is the whole payload, and its attempts are bounded. -/
structure WriteResult.Exact (r : WriteResult) (data : List UInt8) : Prop where
  wire : r.wire = data.take r.written
  written : r.written ≤ data.length
  ok : r.ok = true ↔ r.written = data.length
  attempts : r.attempts ≤ kMaxWriteIterations

/-- Attempt `i` is made, after completions that reported `total` bytes. -/
inductive Attempted (size : Nat) (driver : Nat → DriverOutcome) : (i total : Nat) → Prop
  | first : Attempted size driver 0 0
  | next {i total count : Nat} :
      Attempted size driver i total → (driver i).count? = some count → 0 < count →
      total + count < size → Attempted size driver (i + 1) (total + count)

namespace Attempted

variable {size : Nat} {driver : Nat → DriverOutcome}

theorem unique {i t t' : Nat} (h : Attempted size driver i t) (h' : Attempted size driver i t') :
    t = t' := by
  induction h generalizing t' with
  | first =>
    cases h' with
    | first => rfl
  | next _ hcount _ _ ih =>
    cases h' with
    | next hprev' hcount' _ _ =>
      rw [ih hprev', Option.some.inj (hcount.symm.trans hcount')]

/-- An attempt after attempt `i` needs `i` to make progress and to leave a tail. -/
theorem progress {i j t t' : Nat} (hi : Attempted size driver i t)
    (hj : Attempted size driver j t') (hlt : i < j) :
    ∃ count, (driver i).count? = some count ∧ 0 < count ∧ t + count < size := by
  induction hj with
  | first => exact absurd hlt (Nat.not_lt_zero _)
  | next hprev hcount hpos hroom ih =>
    rename_i k total count
    by_cases hik : i = k
    · subst hik
      rw [hi.unique hprev]
      exact ⟨count, hcount, hpos, hroom⟩
    · exact ih (by omega)

end Attempted

theorem take_append_drop_take (data : List UInt8) (total n : Nat) :
    data.take total ++ (data.drop total).take n = data.take (total + n) :=
  List.take_add.symm

/-- A completion that ends the loop, or is followed by the rest of it. -/
theorem writeLoop_completion {data : List UInt8} {driver : Nat → DriverOutcome}
    {left iteration total count : Nat} {wire : List UInt8}
    (hcount : (driver iteration).count? = some count) :
    writeLoop data driver (left + 1) iteration total wire =
      if data.length ≤ total + min count (data.length - total) then
        ⟨true, total + min count (data.length - total), errorSuccess, 0,
          wire ++ (data.drop total).take (min count (data.length - total)), iteration + 1⟩
      else if min count (data.length - total) = 0 then
        ⟨false, total + min count (data.length - total), errorWriteFault, 0,
          wire ++ (data.drop total).take (min count (data.length - total)), iteration + 1⟩
      else
        writeLoop data driver left (iteration + 1) (total + min count (data.length - total))
          (wire ++ (data.drop total).take (min count (data.length - total))) := by
  rw [writeLoop]
  cases hd : driver iteration with
  | immediate n =>
    obtain rfl : n = count := by simpa [hd, DriverOutcome.count?] using hcount
    simp only [List.length_drop]
  | completed n =>
    obtain rfl : n = count := by simpa [hd, DriverOutcome.count?] using hcount
    simp only [List.length_drop]
  | refused code sent => simp [hd, DriverOutcome.count?] at hcount
  | reapFailed code sent => simp [hd, DriverOutcome.count?] at hcount
  | waitFailed code sent => simp [hd, DriverOutcome.count?] at hcount
  | timedOut lineStatus sent => simp [hd, DriverOutcome.count?] at hcount

/-- An operation without a count ends the loop, with what it sent uncounted. -/
theorem writeLoop_uncounted (data : List UInt8) {driver : Nat → DriverOutcome}
    (left : Nat) {iteration : Nat} (total : Nat) (wire : List UInt8)
    (hcount : (driver iteration).count? = none) :
    ∃ r, writeLoop data driver (left + 1) iteration total wire = r ∧ r.ok = false ∧
      r.written = total ∧ r.attempts = iteration + 1 ∧
      r.wire = wire ++ (data.drop total).take (driver iteration).uncounted := by
  rw [writeLoop]
  cases hd : driver iteration with
  | immediate n => simp [hd, DriverOutcome.count?] at hcount
  | completed n => simp [hd, DriverOutcome.count?] at hcount
  | refused code sent => exact ⟨_, rfl, rfl, rfl, rfl, rfl⟩
  | reapFailed code sent => exact ⟨_, rfl, rfl, rfl, rfl, rfl⟩
  | waitFailed code sent => exact ⟨_, rfl, rfl, rfl, rfl, rfl⟩
  | timedOut lineStatus sent => exact ⟨_, rfl, rfl, rfl, rfl, rfl⟩

/-- From attempt `iteration` on the write is exact if and only if no attempt that is
made puts bytes on the wire without a count. -/
theorem writeLoop_exact {data : List UInt8} {driver : Nat → DriverOutcome}
    {left iteration total : Nat} (hleft : iteration + left = kMaxWriteIterations)
    (hmade : left ≠ 0 → Attempted data.length driver iteration total)
    (htotal : total < data.length) :
    (writeLoop data driver left iteration total (data.take total)).Exact data ↔
      ∀ i t, iteration ≤ i → i < kMaxWriteIterations → Attempted data.length driver i t →
        (driver i).uncounted = 0 := by
  induction left generalizing iteration total with
  | zero =>
    rw [writeLoop]
    refine iff_of_true ⟨rfl, Nat.le_of_lt htotal, ?_, by simp; omega⟩ (fun i t _ _ _ => by omega)
    simp only [Bool.false_eq_true, false_iff]
    omega
  | succ left ih =>
    have hmade' := hmade (by omega)
    cases hcount : (driver iteration).count? with
    | none =>
      obtain ⟨r, hr, hok, hwritten, hattempts, hwire⟩ :=
        writeLoop_uncounted data left total (data.take total) hcount
      rw [hr]
      constructor
      · intro hexact i t hlow hhigh hi
        have hsame : i = iteration := by
          by_contra hne
          obtain ⟨c, hc, _⟩ := hmade'.progress hi (by omega)
          rw [hcount] at hc
          cases hc
        subst hsame
        have hlen := congrArg List.length hexact.wire
        rw [hwire, hwritten, take_append_drop_take, List.length_take, List.length_take] at hlen
        omega
      · intro hnone
        have hzero := hnone iteration total (Nat.le_refl _) (by omega) hmade'
        refine ⟨?_, ?_, ?_, ?_⟩
        · rw [hwire, hwritten, hzero, List.take_zero, List.append_nil]
        · omega
        · rw [hok, hwritten]
          simp only [Bool.false_eq_true, false_iff]
          omega
        · omega
    | some count =>
      have huncounted : (driver iteration).uncounted = 0 := by
        cases hd : driver iteration with
        | immediate n => rfl
        | completed n => rfl
        | refused code sent => simp [hd, DriverOutcome.count?] at hcount
        | reapFailed code sent => simp [hd, DriverOutcome.count?] at hcount
        | waitFailed code sent => simp [hd, DriverOutcome.count?] at hcount
        | timedOut lineStatus sent => simp [hd, DriverOutcome.count?] at hcount
      rw [writeLoop_completion hcount, take_append_drop_take]
      by_cases hwhole : data.length ≤ total + min count (data.length - total)
      · rw [if_pos hwhole]
        have hall : total + min count (data.length - total) = data.length := by omega
        refine iff_of_true ⟨rfl, Nat.le_of_eq hall, by simp [hall], by simp; omega⟩ ?_
        intro i t hlow hhigh hi
        by_cases hsame : i = iteration
        · rw [hsame]
          exact huncounted
        · obtain ⟨c, hc, _, hroom⟩ := hmade'.progress hi (by omega)
          rw [hcount] at hc
          obtain rfl := Option.some.inj hc
          omega
      · rw [if_neg hwhole]
        have hmin : min count (data.length - total) = count := by omega
        rw [hmin]
        by_cases hzero : count = 0
        · rw [if_pos hzero]
          refine iff_of_true ⟨rfl, by simp only; omega, ?_, by simp; omega⟩ ?_
          · simp only [Bool.false_eq_true, false_iff]
            omega
          · intro i t hlow hhigh hi
            by_cases hsame : i = iteration
            · rw [hsame]
              exact huncounted
            · obtain ⟨c, hc, hpos, _⟩ := hmade'.progress hi (by omega)
              rw [hcount] at hc
              obtain rfl := Option.some.inj hc
              omega
        · rw [if_neg hzero]
          have hnext : Attempted data.length driver (iteration + 1) (total + count) :=
            .next hmade' hcount (by omega) (by omega)
          rw [ih (by omega) (fun _ => hnext) (by omega)]
          constructor
          · intro hrest i t hlow hhigh hi
            by_cases hsame : i = iteration
            · rw [hsame]
              exact huncounted
            · exact hrest i t (by omega) hhigh hi
          · intro hrest i t hlow hhigh hi
            exact hrest i t (by omega) hhigh hi

/-- A write is exact if and only if there is something to write and no attempt that is
made puts bytes on the wire without a count. -/
theorem write_exact (usable : Bool) (data : List UInt8) (driver : Nat → DriverOutcome) :
    (write usable data driver).Exact data ↔
      data ≠ [] ∧ (usable = true → ∀ i t, i < kMaxWriteIterations →
        Attempted data.length driver i t → (driver i).uncounted = 0) := by
  by_cases hdata : data = []
  · subst hdata
    refine iff_of_false (fun hexact => ?_) (fun h => h.1 rfl)
    have hok := hexact.ok.mpr (by simp [write])
    simp [write] at hok
  · have hpos : 0 < data.length := List.length_pos_iff.mpr hdata
    cases usable with
    | false =>
      refine iff_of_true ?_ ⟨hdata, fun h => absurd h Bool.false_ne_true⟩
      exact
        { wire := by simp [write]
          written := by simp [write]
          ok := by simp [write]; omega
          attempts := by simp [write] }
    | true =>
      have hrun : write true data driver =
          writeLoop data driver kMaxWriteIterations 0 0 (data.take 0) := by
        simp [write, hdata]
      rw [hrun, writeLoop_exact (by omega) (fun _ => .first) hpos]
      constructor
      · intro h
        exact ⟨hdata, fun _ i t hi hmade => h i t (Nat.zero_le i) hi hmade⟩
      · intro h i t _ hi hmade
        exact h.2 rfl i t hi hmade

/-- Two of three bytes go out before the timeout, and none is reported. -/
theorem timed_out_bytes_uncounted :
    ¬ (write true [0x41, 0x42, 0x43] fun _ => .timedOut 0 2).Exact [0x41, 0x42, 0x43] := by
  intro hexact
  exact absurd hexact.wire (by decide)

end Xcom.Serial
