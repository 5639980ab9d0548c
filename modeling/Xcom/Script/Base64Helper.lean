import Xcom.Pages.Store
import Xcom.Text.Base64
import Xcom.Transition.Loop

/-!
# `base64.encode`

The helper of the script environment: a loop over the groups of three bytes, of which the last
is filled up with zero bytes and cut to the symbols it needs.
-/

namespace Xcom.Script.Base64Helper

open Transition.Loop Pages

/-- `b64chars`. -/
def b64chars : Config.Bytes :=
  bytes "ABCDEFGHIJKLMNOPQRSTUVWXYZ" ++ bytes "abcdefghijklmnopqrstuvwxyz0123456789+/"

/-- `b64chars:sub(v + 1, v + 1)`. -/
def b64char (v : Nat) : Config.Bytes := (b64chars.drop v).take 1

/-- `data:byte(i) or 0`. -/
def byteAt (data : Config.Bytes) (i : Nat) : Nat := (data[i - 1]?.map UInt8.toNat).getD 0

/-- The text of one group; `remaining` bytes are left from its first on. -/
def encodeGroup (b1 b2 b3 remaining : Nat) : Config.Bytes :=
  let v := b1 * 65536 + b2 * 256 + b3
  let c1 := b64char (v / 262144 % 64)
  let c2 := b64char (v / 4096 % 64)
  let c3 := b64char (v / 64 % 64)
  let c4 := b64char (v % 64)
  if remaining = 1 then c1 ++ c2 ++ bytes "=="
  else if remaining = 2 then c1 ++ c2 ++ c3 ++ bytes "="
  else c1 ++ c2 ++ c3 ++ c4

/-- The locals of the loop. -/
structure EncodeState where
  i : Nat := 1
  out : List Config.Bytes := []

/-- One round of the loop; `table.concat` at its end. -/
def encodeRound (data : Config.Bytes) (st : EncodeState) : Round EncodeState Config.Bytes :=
  let n := data.length
  if st.i ≤ n then
    .next
      { i := st.i + 3
        out := st.out ++ [encodeGroup (byteAt data st.i) (byteAt data (st.i + 1))
          (byteAt data (st.i + 2)) (n - st.i + 1)] }
  else .done st.out.flatten

/-- `base64.encode(data)` ends and returns the text. -/
def Encode (data text : Config.Bytes) : Prop := Returns (encodeRound data) {} text

/-! ## One group -/

theorem b64char_eq : ∀ v < 64, b64char v = [Base64.symbol v] := by decide +kernel

theorem byteAt_getElem? (data : Config.Bytes) (i k : Nat) (hi : 1 ≤ i) :
    byteAt data (i + k) = ((data.drop (i - 1))[k]?.map UInt8.toNat).getD 0 := by
  have hindex : i + k - 1 = i - 1 + k := by omega
  rw [byteAt, List.getElem?_drop, hindex]

/-- The six bits of each place, out of the number of the group. -/
theorem digits {a b c : Nat} (ha : a < 256) (hb : b < 256) (hc : c < 256) :
    (a * 65536 + b * 256 + c) / 262144 % 64 = a / 4 ∧
      (a * 65536 + b * 256 + c) / 4096 % 64 = a % 4 * 16 + b / 16 ∧
      (a * 65536 + b * 256 + c) / 64 % 64 = b % 16 * 4 + c / 64 ∧
      (a * 65536 + b * 256 + c) % 64 = c % 64 := by
  omega

/-- The text of a group, its symbols in the place of the table's. -/
theorem encodeGroup_eq {a b c : Nat} (ha : a < 256) (hb : b < 256) (hc : c < 256)
    (remaining : Nat) :
    encodeGroup a b c remaining =
      if remaining = 1 then
        [Base64.symbol (a / 4), Base64.symbol (a % 4 * 16 + b / 16), Base64.pad, Base64.pad]
      else if remaining = 2 then
        [Base64.symbol (a / 4), Base64.symbol (a % 4 * 16 + b / 16),
          Base64.symbol (b % 16 * 4 + c / 64), Base64.pad]
      else
        [Base64.symbol (a / 4), Base64.symbol (a % 4 * 16 + b / 16),
          Base64.symbol (b % 16 * 4 + c / 64), Base64.symbol (c % 64)] := by
  obtain ⟨h1, h2, h3, h4⟩ := digits ha hb hc
  have hpads : bytes "==" = [Base64.pad, Base64.pad] := by decide
  have hpad : bytes "=" = [Base64.pad] := by decide
  simp only [encodeGroup, h1, h2, h3, h4, hpads, hpad]
  rw [b64char_eq (a / 4) (by omega), b64char_eq (a % 4 * 16 + b / 16) (by omega),
    b64char_eq (b % 16 * 4 + c / 64) (by omega), b64char_eq (c % 64) (by omega)]
  rfl

/-- The group at the head of what is left, and the rest behind it. -/
theorem encode_group {rest : Config.Bytes} (h : rest ≠ []) :
    encodeGroup ((rest[0]?.map UInt8.toNat).getD 0) ((rest[1]?.map UInt8.toNat).getD 0)
        ((rest[2]?.map UInt8.toNat).getD 0) rest.length ++ Base64.encode (rest.drop 3) =
      Base64.encode rest := by
  cases rest with
  | nil => exact absurd rfl h
  | cons a rest =>
    have ha := a.toNat_lt
    cases rest with
    | nil => simp [encodeGroup_eq ha, Base64.encode]
    | cons b rest =>
      have hb := b.toNat_lt
      cases rest with
      | nil => simp [encodeGroup_eq ha hb, Base64.encode]
      | cons c rest =>
        have hc := c.toNat_lt
        simp [encodeGroup_eq ha hb hc, Base64.encode]

/-! ## The whole loop -/

/-- The groups written and what is left make up the text. -/
structure Written (data : Config.Bytes) (st : EncodeState) : Prop where
  first : 1 ≤ st.i
  text : st.out.flatten ++ Base64.encode (data.drop (st.i - 1)) = Base64.encode data

variable {data : Config.Bytes} {st : EncodeState}

theorem Written.next (h : Written data st) {st' : EncodeState}
    (hround : encodeRound data st = .next st') :
    Written data st' ∧ data.length + 1 - st'.i < data.length + 1 - st.i := by
  have hfirst := h.first
  simp only [encodeRound] at hround
  split at hround
  · rename_i hle
    cases hround
    refine ⟨⟨by dsimp only; omega, ?_⟩, by dsimp only; omega⟩
    have hrest : data.drop (st.i - 1) ≠ [] := by
      rw [ne_eq, List.drop_eq_nil_iff]
      omega
    have hlen : data.length - st.i + 1 = (data.drop (st.i - 1)).length := by
      rw [List.length_drop]
      omega
    have hdrop : data.drop (st.i + 3 - 1) = (data.drop (st.i - 1)).drop 3 := by
      rw [List.drop_drop]
      congr 1
      omega
    have hgroup := encode_group hrest
    rw [← byteAt_getElem? data st.i 0 hfirst, ← byteAt_getElem? data st.i 1 hfirst,
      ← byteAt_getElem? data st.i 2 hfirst, ← hlen, ← hdrop] at hgroup
    show (st.out ++ [_]).flatten ++ _ = _
    rw [List.flatten_append, List.flatten_singleton, List.append_assoc]
    exact (congrArg (st.out.flatten ++ ·) hgroup).trans h.text
  · cases hround

theorem Written.done (h : Written data st) {text : Config.Bytes}
    (hround : encodeRound data st = .done text) : text = Base64.encode data := by
  have hfirst := h.first
  simp only [encodeRound] at hround
  split at hround
  · cases hround
  · rename_i hgt
    cases hround
    have hrest : data.drop (st.i - 1) = [] := List.drop_eq_nil_of_le (by omega)
    have htext := h.text
    rwa [hrest, Base64.encode, List.append_nil] at htext

/-- The helper ends with the text of the standard. -/
theorem encode_returns (data : Config.Bytes) : Encode data (Base64.encode data) := by
  have hstart : Written data {} := ⟨Nat.le_refl 1, rfl⟩
  obtain ⟨text, htext, rfl⟩ := returns (fun st => data.length + 1 - st.i)
    (fun _ _ h => h.next) (fun _ _ h => h.done) hstart
  exact htext

/-- The helper ends for every string with a text that decodes to the string and has four
symbols for each group of three bytes. -/
theorem encode_decodes (data : Config.Bytes) :
    ∃ text, Encode data text ∧ Base64.decode text = some data ∧
      text.length = 4 * ((data.length + 2) / 3) :=
  ⟨Base64.encode data, encode_returns data, Base64.decode_encode data, Base64.length_encode data⟩

example : Transition.Loop.run (encodeRound (bytes "xcom")) 3 {} = some (bytes "eGNvbQ==") := by decide

end Xcom.Script.Base64Helper
