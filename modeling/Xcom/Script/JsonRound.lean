import Xcom.Script.Json
import Mathlib.Data.List.Nodup

/-!
# JSON round trips

`decode` ends on every text, what it returns is a table as Lua has it, and a value that
`encode` takes apart is put together again.
-/

namespace Xcom.Protocol.Json

variable {N α : Type}

/-! ## Steps that end -/

/-- A step has not run out, and behind its value less than `n` bytes are left. -/
def Ends (n : Nat) (r : Except Fault (α × Text)) : Prop :=
  r ≠ .error .outOfFuel ∧ ∀ a rest, r = .ok (a, rest) → rest.length < n

theorem Ends.ok {n : Nat} {a : α} {rest : Text} (h : rest.length < n) :
    Ends n (.ok (a, rest) : Except Fault (α × Text)) := by
  refine ⟨nofun, fun a' rest' heq => ?_⟩
  cases heq
  exact h

theorem Ends.error {n : Nat} {fault : Fault} (h : fault ≠ .outOfFuel) :
    Ends n (.error fault : Except Fault (α × Text)) :=
  ⟨fun heq => h (Except.error.inj heq), nofun⟩

theorem Ends.mono {n m : Nat} {r : Except Fault (α × Text)} (h : Ends n r) (hle : n ≤ m) :
    Ends m r :=
  ⟨h.1, fun a rest heq => Nat.lt_of_lt_of_le (h.2 a rest heq) hle⟩

theorem length_skipSpaces (rest : Text) : (skipSpaces rest).length ≤ rest.length :=
  (List.dropWhile_suffix isSpace).length_le

theorem length_tail {rest : Text} {c : UInt8} (h : rest.head? = some c) :
    rest.tail.length < rest.length := by
  cases rest with
  | nil => cases h
  | cons c rest => exact Nat.lt_succ_self _

theorem hexQuad_length {text rest : Text} {n : Nat} (h : hexQuad text = some (n, rest)) :
    rest.length < text.length := by
  unfold hexQuad at h
  split at h
  · simp only [Option.bind_eq_bind, Option.bind_eq_some_iff] at h
    obtain ⟨a, -, b, -, c, -, d, -, heq⟩ := h
    cases heq
    simp only [List.length_cons]
    omega
  · cases h

theorem surrogatePair_length {text rest : Text} {n1 n2 : Nat}
    (h : surrogatePair text = some (n1, n2, rest)) : rest.length < text.length := by
  unfold surrogatePair at h
  split at h
  · rename_i rest' hquad
    split at h
    · obtain ⟨⟨n, left⟩, hpair, heq⟩ := Option.map_eq_some_iff.mp h
      cases heq
      have hlong := hexQuad_length hquad
      have hshort := hexQuad_length hpair
      rw [List.length_drop] at hshort
      omega
    · cases h
  · cases h

theorem codepointToUtf8_ends (n m : Nat) (rest : Text) (hm : rest.length < m) :
    Ends m ((codepointToUtf8 n).map (·, rest)) := by
  unfold codepointToUtf8
  split_ifs
  · exact .ok hm
  · exact .ok hm
  · exact .ok hm
  · exact .ok hm
  · exact .error nofun

theorem escapeSequence_ends (idx : Nat) (rest : Text) :
    Ends rest.length (escapeSequence idx rest) := by
  cases rest with
  | nil => exact .error nofun
  | cons c rest =>
    rw [escapeSequence]
    split
    · unfold unicodeEscape
      split
      · rename_i hpair
        have hlength := surrogatePair_length hpair
        exact codepointToUtf8_ends _ _ _ (Nat.lt_succ_of_lt hlength)
      · split
        · rename_i hquad
          have hlength := hexQuad_length hquad
          exact codepointToUtf8_ends _ _ _ (Nat.lt_succ_of_lt hlength)
        · exact .error nofun
    · split
      · exact .ok (Nat.lt_succ_self _)
      · exact .error nofun

theorem stringLoop_ends (size start fuel : Nat) (res rest : Text) (hfuel : rest.length < fuel) :
    Ends rest.length (stringLoop size start fuel res rest) := by
  induction fuel generalizing res rest with
  | zero => exact absurd hfuel (Nat.not_lt_zero _)
  | succ fuel ih =>
    cases rest with
    | nil => exact .error nofun
    | cons x rest =>
      rw [List.length_cons] at hfuel
      have hrest := ih (res ++ [x]) rest (by omega)
      unfold stringLoop
      split
      · exact .error nofun
      split
      · have hescape := escapeSequence_ends (index size (x :: rest)) rest
        split
        · rename_i fault hfault
          rw [hfault] at hescape
          exact .error fun heq => hescape.1 (congrArg _ heq)
        · rename_i bytes left hbytes
          have hless := hescape.2 _ _ hbytes
          exact (ih _ left (by omega)).mono (by rw [List.length_cons]; omega)
      split
      · exact .ok (Nat.lt_succ_self _)
      · exact hrest.mono (Nat.le_succ _)

theorem parseString_ends (size : Nat) (rest : Text) : Ends rest.length (parseString size rest) :=
  stringLoop_ends size _ _ [] rest (Nat.lt_succ_self _)

theorem behindWord_length {c : UInt8} (hc : isDelim c = false) (rest : Text) :
    (behindWord (c :: rest)).length < (c :: rest).length := by
  have hword : behindWord (c :: rest) = behindWord rest := by simp [behindWord, hc]
  rw [hword]
  exact Nat.lt_succ_of_le (List.dropWhile_suffix _).length_le

theorem numberStart_not_delim {c : UInt8} (h : (0x30 ≤ c ∧ c ≤ 0x39) ∨ c = 0x2D) :
    isDelim c = false := by
  cases hdelim : isDelim c with
  | false => rfl
  | true =>
    exfalso
    simp only [isDelim, isSpace, Bool.or_eq_true, decide_eq_true_iff] at hdelim
    rcases hdelim with (((((rfl | rfl) | rfl) | rfl) | rfl) | rfl) | rfl
    all_goals revert h; decide

theorem parseNumber_ends (rt : Runtime N) (size : Nat) {c : UInt8} (hc : isDelim c = false)
    (rest : Text) : Ends (c :: rest).length (parseNumber rt size (c :: rest)) := by
  unfold parseNumber
  split
  · exact .ok (behindWord_length hc rest)
  · exact .error nofun

theorem parseLiteral_ends (size : Nat) {c : UInt8} (hc : isDelim c = false) (rest : Text) :
    Ends (c :: rest).length (parseLiteral size (c :: rest) : Except Fault (Value N × Text)) := by
  unfold parseLiteral
  split_ifs
  · exact .ok (behindWord_length hc rest)
  · exact .ok (behindWord_length hc rest)
  · exact .ok (behindWord_length hc rest)
  · exact .error nofun

/-! ## What is returned -/

/-- A table as Lua has it: the last item is there, and each key is there once, with a value. -/
inductive Formed : Value N → Prop
  | nil : Formed .nil
  | bool (b : Bool) : Formed (.bool b)
  | number (n : N) : Formed (.number n)
  | string (s : Text) : Formed (.string s)
  | array {items : List (Value N)} (hlast : items.rdropWhile Value.isNil = items)
      (hitems : ∀ v ∈ items, Formed v) : Formed (.array items)
  | object {members : List (Text × Value N)} (hne : members ≠ [])
      (hkeys : (members.map Prod.fst).Nodup) (hnil : ∀ m ∈ members, m.2.isNil = false)
      (hmembers : ∀ m ∈ members, Formed m.2) : Formed (.object members)

/-- The members of a table that is being read. -/
structure Gathered (members : List (Text × Value N)) : Prop where
  keys : (members.map Prod.fst).Nodup
  nil : ∀ m ∈ members, m.2.isNil = false
  formed : ∀ m ∈ members, Formed m.2

theorem ofItems_formed {items : List (Value N)} (h : ∀ v ∈ items, Formed v) :
    Formed (ofItems items) :=
  .array (List.rdropWhile_idempotent _ _)
    fun v hv => h v ((List.rdropWhile_prefix _ _).subset hv)

theorem Gathered.formed_ofMembers {members : List (Text × Value N)} (h : Gathered members) :
    Formed (ofMembers members) := by
  cases members with
  | nil => exact .array rfl fun v hv => absurd hv List.not_mem_nil
  | cons m members => exact .object (List.cons_ne_nil _ _) h.keys h.nil h.formed

theorem Gathered.setMember {members : List (Text × Value N)} (h : Gathered members) (key : Text)
    {val : Value N} (hval : Formed val) : Gathered (setMember key val members) := by
  unfold Json.setMember
  split_ifs with hnil hany
  · have hsub : (members.filter (·.1 ≠ key)).Sublist members := List.filter_sublist
    exact ⟨(hsub.map Prod.fst).nodup h.keys, fun m hm => h.nil m (hsub.subset hm),
      fun m hm => h.formed m (hsub.subset hm)⟩
  · have hkeys : (members.map fun m => if m.1 = key then (key, val) else m).map Prod.fst =
        members.map Prod.fst := by
      rw [List.map_map]
      refine List.map_congr_left fun m _ => ?_
      show (if m.1 = key then (key, val) else m).1 = m.1
      split
      · rename_i heq
        exact heq.symm
      · rfl
    refine ⟨hkeys ▸ h.keys, ?_, ?_⟩
    all_goals
      intro m hm
      obtain ⟨m', hm', rfl⟩ := List.mem_map.mp hm
      split
    · exact Bool.not_eq_true _ ▸ hnil
    · exact h.nil m' hm'
    · exact hval
    · exact h.formed m' hm'
  · have hfresh : ∀ m ∈ members, m.1 ≠ key := by
      intro m hm heq
      exact hany (List.any_eq_true.mpr ⟨m, hm, by simpa using heq⟩)
    refine ⟨?_, ?_, ?_⟩
    · rw [List.map_append, List.nodup_append]
      refine ⟨h.keys, List.nodup_singleton _, fun k hk k' hk' => ?_⟩
      obtain ⟨m, hm, rfl⟩ := List.mem_map.mp hk
      rw [List.map_singleton, List.mem_singleton] at hk'
      exact hk' ▸ hfresh m hm
    · intro m hm
      rcases List.mem_append.mp hm with hold | hnew
      · exact h.nil m hold
      · rw [List.mem_singleton.mp hnew]
        exact Bool.not_eq_true _ ▸ hnil
    · intro m hm
      rcases List.mem_append.mp hm with hold | hnew
      · exact h.formed m hold
      · rw [List.mem_singleton.mp hnew]
        exact hval

/-- A step of the descent ends, and it returns a value as Lua has it. -/
structure Parses (n : Nat) (r : Except Fault (Value N × Text)) : Prop where
  ends : Ends n r
  formed : ∀ v rest, r = .ok (v, rest) → Formed v

theorem Parses.error {n : Nat} {fault : Fault} (h : fault ≠ .outOfFuel) :
    Parses n (.error fault : Except Fault (Value N × Text)) :=
  ⟨.error h, nofun⟩

theorem Parses.ok {n : Nat} {v : Value N} {rest : Text} (h : rest.length < n) (hv : Formed v) :
    Parses n (.ok (v, rest)) := by
  refine ⟨.ok h, fun v' rest' heq => ?_⟩
  cases heq
  exact hv

theorem Parses.mono {n m : Nat} {r : Except Fault (Value N × Text)} (h : Parses n r)
    (hle : n ≤ m) : Parses m r :=
  ⟨h.ends.mono hle, h.formed⟩

theorem parseNumber_formed {rt : Runtime N} {size : Nat} {text rest : Text} {v : Value N}
    (h : parseNumber rt size text = .ok (v, rest)) : Formed v := by
  unfold parseNumber at h
  split at h
  · cases h
    exact .number _
  · cases h

theorem parseLiteral_formed {size : Nat} {text rest : Text} {v : Value N}
    (h : parseLiteral size text = .ok (v, rest)) : Formed v := by
  unfold parseLiteral at h
  split_ifs at h
  · cases h
    exact .bool true
  · cases h
    exact .bool false
  · cases h
    exact .nil

/-- What holds of the three functions of the descent with as much fuel. -/
structure Descends (rt : Runtime N) (size fuel : Nat) : Prop where
  value : ∀ rest, 2 * rest.length + 1 ≤ fuel → Parses rest.length (parse rt size fuel rest)
  array : ∀ items rest, 2 * rest.length + 2 ≤ fuel → (∀ v ∈ items, Formed v) →
    Parses rest.length (parseArray rt size fuel items rest)
  object : ∀ members rest, 2 * rest.length + 2 ≤ fuel → Gathered members →
    Parses rest.length (parseObject rt size fuel members rest)

theorem Descends.parse {rt : Runtime N} {size fuel : Nat} (h : Descends rt size fuel) (rest : Text)
    (hfuel : 2 * rest.length + 1 ≤ fuel + 1) :
    Parses rest.length (parse rt size (fuel + 1) rest) := by
  cases rest with
  | nil => exact .error nofun
  | cons c rest =>
    rw [List.length_cons] at hfuel
    rw [Json.parse]
    split_ifs with hquote hnumber hliteral harray hobject
    · have hstring := parseString_ends size rest
      split
      · rename_i hfault
        rw [hfault] at hstring
        exact .error fun heq => hstring.1 (congrArg _ heq)
      · rename_i s left hs
        exact .ok (Nat.lt_succ_of_lt (hstring.2 s left hs)) (.string s)
    · have hc := numberStart_not_delim hnumber
      exact ⟨parseNumber_ends rt size hc rest, fun v left => parseNumber_formed⟩
    · have hc : isDelim c = false := by
        rcases hliteral with rfl | rfl | rfl <;> rfl
      exact ⟨parseLiteral_ends size hc rest, fun v left => parseLiteral_formed⟩
    · exact (h.array [] rest (by omega) fun v hv => absurd hv List.not_mem_nil).mono
        (Nat.le_succ _)
    · exact (h.object [] rest (by omega) ⟨List.nodup_nil, nofun, nofun⟩).mono (Nat.le_succ _)
    · exact .error nofun

theorem Descends.parseArray {rt : Runtime N} {size fuel : Nat} (h : Descends rt size fuel)
    (items : List (Value N)) (rest : Text) (hfuel : 2 * rest.length + 2 ≤ fuel + 1)
    (hitems : ∀ v ∈ items, Formed v) :
    Parses rest.length (parseArray rt size (fuel + 1) items rest) := by
  have hskip := length_skipSpaces rest
  rw [Json.parseArray]
  dsimp only
  split_ifs with hclose
  · have htail := length_tail hclose
    exact .ok (by omega) (ofItems_formed hitems)
  have hitem := h.value (skipSpaces rest) (by omega)
  split
  · rename_i hfault
    rw [hfault] at hitem
    exact .error fun heq => hitem.ends.1 (congrArg _ heq)
  · rename_i x left hx
    have hleft := hitem.ends.2 x left hx
    have hmore : ∀ v ∈ items ++ [x], Formed v := by
      intro v hv
      rcases List.mem_append.mp hv with hold | hnew
      · exact hitems v hold
      · rw [List.mem_singleton.mp hnew]
        exact hitem.formed x left hx
    have hagain := length_skipSpaces left
    split_ifs with hend hcomma
    · have htail := length_tail hend
      exact .ok (by omega) (ofItems_formed hmore)
    · have htail := length_tail hcomma
      exact (h.array _ _ (by omega) hmore).mono (by omega)
    · exact .error nofun

theorem Descends.parseObject {rt : Runtime N} {size fuel : Nat} (h : Descends rt size fuel)
    (members : List (Text × Value N)) (rest : Text) (hfuel : 2 * rest.length + 2 ≤ fuel + 1)
    (hmembers : Gathered members) :
    Parses rest.length (parseObject rt size (fuel + 1) members rest) := by
  have hskip := length_skipSpaces rest
  rw [Json.parseObject]
  dsimp only
  split_ifs with hclose hquote
  · have htail := length_tail hclose
    exact .ok (by omega) hmembers.formed_ofMembers
  · exact .error nofun
  have htail := length_tail (not_not.mp hquote)
  have hkey := parseString_ends size (skipSpaces rest).tail
  split
  · rename_i hfault
    rw [hfault] at hkey
    exact .error fun heq => hkey.1 (congrArg _ heq)
  · rename_i key left hk
    have hleft := hkey.2 key left hk
    have hagain := length_skipSpaces left
    split_ifs with hcolon
    · exact .error nofun
    have hbehind := length_tail (not_not.mp hcolon)
    have hvalue := length_skipSpaces (skipSpaces left).tail
    have hval := h.value (skipSpaces (skipSpaces left).tail) (by omega)
    split
    · rename_i hfault
      rw [hfault] at hval
      exact .error fun heq => hval.ends.1 (congrArg _ heq)
    · rename_i val last hv
      have hlast := hval.ends.2 val last hv
      have hskipped := length_skipSpaces last
      have hmore := hmembers.setMember key (hval.formed val last hv)
      split_ifs with hend hcomma
      · have hout := length_tail hend
        exact .ok (by omega) hmore.formed_ofMembers
      · have hout := length_tail hcomma
        exact (h.object _ _ (by omega) hmore).mono (by omega)
      · exact .error nofun

theorem descends (rt : Runtime N) (size fuel : Nat) : Descends rt size fuel := by
  induction fuel with
  | zero => constructor <;> intros <;> omega
  | succ fuel ih => exact ⟨ih.parse, ih.parseArray, ih.parseObject⟩

/-- `decode` ends on every text, and a value it returns is one as Lua has it. -/
theorem decode_ends (rt : Runtime N) (str : Text) :
    decodeSteps rt str ≠ .error .outOfFuel ∧ ∀ v, decode rt str = .ok v → Formed v := by
  have hskip := length_skipSpaces str
  have hparse := (descends rt str.length (2 * str.length + 2)).value (skipSpaces str) (by omega)
  have hsteps : decodeSteps rt str ≠ .error .outOfFuel ∧
      ∀ v, decodeSteps rt str = .ok v → Formed v := by
    unfold decodeSteps
    split
    · rename_i fault hfault
      rw [hfault] at hparse
      exact ⟨fun heq => hparse.ends.1 (congrArg _ (Except.error.inj heq)), nofun⟩
    · rename_i v rest hv
      dsimp only
      split_ifs
      · refine ⟨nofun, fun v' heq => ?_⟩
        cases heq
        exact hparse.formed v rest hv
      · refine ⟨fun heq => ?_, nofun⟩
        cases Except.error.inj heq
  refine ⟨hsteps.1, fun v hv => hsteps.2 v ?_⟩
  unfold decode at hv
  cases hres : decodeSteps rt str with
  | error fault =>
    rw [hres] at hv
    cases hv
  | ok v' =>
    rw [hres] at hv
    cases hv
    rfl

/-! ## Strings read back -/

theorem hexValue_hexDigit : ∀ d < 16, hexValue (hexDigit d) = some d := by decide

theorem hexQuad_hex4 {n : Nat} (hn : n < 65536) (rest : Text) :
    hexQuad (hex4 n ++ rest) = some (n, rest) := by
  have hdigit : ∀ k, hexValue (hexDigit (k % 16)) = some (k % 16) :=
    fun k => hexValue_hexDigit _ (Nat.mod_lt _ (by decide))
  have hvalue : ((n / 4096 % 16 * 16 + n / 256 % 16) * 16 + n / 16 % 16) * 16 + n % 16 = n := by
    omega
  simp only [hex4, List.cons_append, List.nil_append, hexQuad, hdigit, Option.bind_eq_bind,
    Option.bind_some, hvalue]

theorem unescape_escapeLetter {c letter : UInt8} (h : escapeLetter c = some letter) :
    letter ≠ 0x75 ∧ unescapeLetter letter = some c := by
  unfold escapeLetter at h
  split_ifs at h with h1 h2 h3 h4 h5 h6 h7
  all_goals
    cases h
    subst c
    exact ⟨by decide, by decide⟩

/-- An escape is read back as its byte. -/
theorem escapeSequence_escapeChar {c : UInt8} (hc : c < 32 ∨ c = 0x5C ∨ c = 0x22) (idx : Nat)
    (rest : Text) : ∃ code, escapeChar c = 0x5C :: code ∧
      escapeSequence idx (code ++ rest) = .ok ([c], rest) := by
  unfold escapeChar
  cases hletter : escapeLetter c with
  | some letter =>
    obtain ⟨hne, hback⟩ := unescape_escapeLetter hletter
    refine ⟨[letter], rfl, ?_⟩
    rw [List.singleton_append, escapeSequence, if_neg hne, hback]
  | none =>
    have hsmall : c.toNat < 32 := by
      rcases hc with hc | rfl | rfl
      · exact UInt8.lt_iff_toNat_lt.mp hc
      · cases hletter
      · cases hletter
    have hquad := hexQuad_hex4 (show c.toNat < 65536 by omega) rest
    have hpair : surrogatePair (hex4 c.toNat ++ rest) = none := by
      unfold surrogatePair
      rw [hquad]
      exact if_neg fun h => absurd h.1 (by omega)
    have hbyte : codepointToUtf8 c.toNat = .ok [c] := by
      unfold codepointToUtf8
      rw [if_pos (by omega), UInt8.ofNat_toNat]
    refine ⟨0x75 :: hex4 c.toNat, rfl, ?_⟩
    rw [List.cons_append, escapeSequence, if_pos rfl, unicodeEscape, hpair]
    dsimp only
    rw [hquad]
    dsimp only
    rw [hbyte]
    rfl

theorem stringLoop_escaped (size start : Nat) (val rest : Text) (res : Text) (fuel : Nat)
    (hfuel : val.length < fuel) :
    stringLoop size start fuel res (val.flatMap escaped ++ 0x22 :: rest) =
      .ok (res ++ val, rest) := by
  induction val generalizing res fuel with
  | nil =>
    obtain ⟨fuel, rfl⟩ := Nat.exists_eq_succ_of_ne_zero (Nat.ne_of_gt hfuel)
    rw [List.flatMap_nil, List.nil_append, stringLoop, if_neg (by decide), if_neg (by decide),
      if_pos rfl, List.append_nil]
  | cons c val ih =>
    obtain ⟨fuel, rfl⟩ := Nat.exists_eq_succ_of_ne_zero (Nat.ne_of_gt (Nat.zero_lt_of_lt hfuel))
    have hnext := ih (res ++ [c]) fuel (by rw [List.length_cons] at hfuel; omega)
    rw [List.append_assoc, List.singleton_append] at hnext
    rw [List.flatMap_cons, List.append_assoc]
    by_cases hc : c < 32 ∨ c = 0x5C ∨ c = 0x22
    · rw [escaped, if_pos hc]
      have hcode := escapeSequence_escapeChar hc
      obtain ⟨code, hchar, -⟩ := hcode 0 []
      rw [hchar, List.cons_append, stringLoop, if_neg (by decide), if_pos rfl]
      obtain ⟨code', hchar', hread⟩ := hcode (index size (0x5C :: (code ++
        (val.flatMap escaped ++ 0x22 :: rest)))) (val.flatMap escaped ++ 0x22 :: rest)
      obtain rfl : code = code' := (List.cons.inj (hchar.symm.trans hchar')).2
      rw [hread]
      exact hnext
    · rw [escaped, if_neg hc, List.singleton_append, stringLoop,
        if_neg fun hlow => hc (.inl hlow), if_neg fun hslash => hc (.inr (.inl hslash)),
        if_neg fun hquote => hc (.inr (.inr hquote))]
      exact hnext

theorem length_le_escaped (val : Text) : val.length ≤ (val.flatMap escaped).length := by
  induction val with
  | nil => exact Nat.le_refl 0
  | cons c val ih =>
    have hone : 1 ≤ (escaped c).length := by
      unfold escaped escapeChar
      split
      · split <;> simp
      · simp
    rw [List.flatMap_cons, List.length_append, List.length_cons]
    omega

/-- Behind its quote, a string that was encoded is read back. -/
theorem parseString_encoded (size : Nat) (val rest : Text) :
    parseString size (val.flatMap escaped ++ 0x22 :: rest) = .ok (val, rest) := by
  have hlength := length_le_escaped val
  refine stringLoop_escaped size _ val rest [] _ ?_
  rw [List.length_append]
  omega

/-! ## Values read back -/

/-- What is relied on: `%.14g` starts like a number and holds no delimiter, and a table whose items
are all there is as long as they are many. -/
structure Runtime.Sound (rt : Runtime N) : Prop where
  starts : ∀ n s, rt.format n = some s →
    ∃ c t, s = c :: t ∧ ((0x30 ≤ c ∧ c ≤ 0x39) ∨ c = 0x2D)
  undelimited : ∀ n s, rt.format n = some s → ∀ c ∈ s, isDelim c = false
  border : ∀ n, rt.border (List.replicate n true) = n

/-- A value whose numbers survive 14 digits, without a missing item. -/
inductive Whole (rt : Runtime N) : Value N → Prop
  | nil : Whole rt .nil
  | bool (b : Bool) : Whole rt (.bool b)
  | number {n : N} {s : Text} (hformat : rt.format n = some s) (hback : rt.tonumber s = some n) :
      Whole rt (.number n)
  | string (s : Text) : Whole rt (.string s)
  | array {items : List (Value N)} (hnil : ∀ v ∈ items, v.isNil = false)
      (hitems : ∀ v ∈ items, Whole rt v) : Whole rt (.array items)
  | object {members : List (Text × Value N)} (hmembers : ∀ m ∈ members, Whole rt m.2) :
      Whole rt (.object members)

/-- Behind a value stands a delimiter, or nothing. -/
def Follows (rest : Text) : Prop := ∀ c, rest.head? = some c → isDelim c = true

/-- The text reads as the value, whatever follows it. -/
structure Reads (rt : Runtime N) (v : Value N) (text : Text) : Prop where
  starts : ∃ c t, text = c :: t ∧ isSpace c = false ∧ c ≠ 0x5D
  parse : ∀ size fuel rest, Follows rest → 2 * text.length + 1 ≤ fuel →
    parse rt size fuel (text ++ rest) = .ok (v, rest)

theorem skipSpaces_cons {c : UInt8} (hc : isSpace c = false) (rest : Text) :
    skipSpaces (c :: rest) = c :: rest :=
  List.dropWhile_cons_of_neg (by rw [hc]; decide)

theorem word_follows {s rest : Text} (hs : ∀ c ∈ s, isDelim c = false) (hrest : Follows rest) :
    wordOf (s ++ rest) = s ∧ behindWord (s ++ rest) = rest := by
  have hall : ∀ c ∈ s, (!isDelim c) = true := fun c hc => by rw [hs c hc]; rfl
  have hstop : rest.takeWhile (!isDelim ·) = [] ∧ rest.dropWhile (!isDelim ·) = rest := by
    cases rest with
    | nil => exact ⟨rfl, rfl⟩
    | cons c rest =>
      have hc := hrest c rfl
      exact ⟨List.takeWhile_cons_of_neg (by rw [hc]; decide),
        List.dropWhile_cons_of_neg (by rw [hc]; decide)⟩
  constructor
  · rw [wordOf, List.takeWhile_append_of_pos hall, hstop.1, List.append_nil]
  · rw [behindWord, List.dropWhile_append_of_pos hall, hstop.2]

theorem number_reads {rt : Runtime N} (hrt : rt.Sound) {n : N} {s : Text}
    (hformat : rt.format n = some s) (hback : rt.tonumber s = some n) :
    Reads rt (.number n) s := by
  obtain ⟨c, t, rfl, hc⟩ := hrt.starts n s hformat
  have hdelim := hrt.undelimited n _ hformat
  have hstart := numberStart_not_delim hc
  have hspace : isSpace c = false := by
    rw [isDelim, Bool.or_eq_false_iff, Bool.or_eq_false_iff, Bool.or_eq_false_iff] at hstart
    exact hstart.1.1.1
  refine ⟨⟨c, t, rfl, hspace, ?_⟩, fun size fuel rest hrest hfuel => ?_⟩
  · rintro rfl
    cases hstart
  · obtain ⟨hword, hbehind⟩ := word_follows hdelim hrest
    obtain ⟨fuel, rfl⟩ := Nat.exists_eq_succ_of_ne_zero (show fuel ≠ 0 by omega)
    have hquote : c ≠ 0x22 := by
      rintro rfl
      revert hc
      decide
    rw [List.cons_append] at hword hbehind ⊢
    rw [Json.parse, if_neg hquote, if_pos hc, parseNumber, hword, hback, hbehind]

/-- A literal is read back. -/
theorem literal_reads {rt : Runtime N} {v : Value N} {c : UInt8} {t : Text}
    (hc : c = 0x74 ∨ c = 0x66 ∨ c = 0x6E) (hdelim : (c :: t).any isDelim = false)
    (hread : ∀ size text, wordOf text = c :: t →
      parseLiteral size text = (.ok (v, behindWord text) : Except Fault (Value N × Text))) :
    Reads rt v (c :: t) := by
  refine ⟨⟨c, t, rfl, ?_, ?_⟩, fun size fuel rest hrest hfuel => ?_⟩
  · rcases hc with rfl | rfl | rfl <;> rfl
  · rcases hc with rfl | rfl | rfl <;> decide
  · have hclean : ∀ b ∈ c :: t, isDelim b = false := fun b hb =>
      Bool.eq_false_iff.mpr (List.any_eq_false.mp hdelim b hb)
    obtain ⟨hword, hbehind⟩ := word_follows hclean hrest
    obtain ⟨fuel, rfl⟩ := Nat.exists_eq_succ_of_ne_zero (show fuel ≠ 0 by omega)
    have hnot : c ≠ 0x22 ∧ ¬ ((0x30 ≤ c ∧ c ≤ 0x39) ∨ c = 0x2D) := by
      rcases hc with rfl | rfl | rfl <;> decide
    have hparse := hread size _ hword
    rw [hbehind] at hparse
    rw [List.cons_append] at hparse ⊢
    rw [Json.parse, if_neg hnot.1, if_neg hnot.2, if_pos hc, hparse]

theorem string_reads (rt : Runtime N) (s : Text) : Reads rt (.string s) (encodeString s) := by
  refine ⟨⟨0x22, s.flatMap escaped ++ [0x22], rfl, rfl, by decide⟩,
    fun size fuel rest hrest hfuel => ?_⟩
  obtain ⟨fuel, rfl⟩ := Nat.exists_eq_succ_of_ne_zero (show fuel ≠ 0 by omega)
  have hshape : encodeString s ++ rest = 0x22 :: (s.flatMap escaped ++ 0x22 :: rest) := by
    simp [encodeString]
  rw [hshape, Json.parse, if_pos rfl, parseString_encoded]

theorem concat_singleton (text : Text) : concat [text] = text := List.intercalate_singleton

theorem concat_cons (text next : Text) (texts : List Text) :
    concat (text :: next :: texts) = text ++ 0x2C :: concat (next :: texts) := by
  simp [concat]

theorem follows_cons {c : UInt8} (hc : isDelim c = true) (rest : Text) : Follows (c :: rest) := by
  intro b hb
  obtain rfl := Option.some.inj hb
  exact hc

/-- The loop over the items of an array reads them back. -/
theorem items_read {rt : Runtime N} {items : List (Value N)} (hne : items ≠ [])
    (hnil : ∀ v ∈ items, v.isNil = false)
    (hitems : ∀ v ∈ items, ∃ text, encode rt v = .ok text ∧ Reads rt v text) :
    ∃ texts, encodeItems rt items = .ok texts ∧ texts ≠ [] ∧
      ∀ size fuel done rest, 2 * (concat texts).length + 2 ≤ fuel →
        parseArray rt size fuel done (concat texts ++ 0x5D :: rest) =
          .ok (ofItems (done ++ items), rest) := by
  induction items with
  | nil => exact absurd rfl hne
  | cons v items ih =>
    obtain ⟨text, hencode, hreads⟩ := hitems v List.mem_cons_self
    obtain ⟨c, t, htext, hspace, hbracket⟩ := hreads.starts
    have hhead : v.isNil = false := hnil v List.mem_cons_self
    -- The loop at the first item, up to the byte behind it.
    have hfirst : ∀ size fuel done rest, Follows rest → 2 * text.length + 2 ≤ fuel + 1 →
        parseArray rt size (fuel + 1) done (text ++ rest) =
          (let rest := skipSpaces rest
          if rest.head? = some 0x5D then .ok (ofItems (done ++ [v]), rest.tail)
          else if rest.head? = some 0x2C then parseArray rt size fuel (done ++ [v]) rest.tail
          else .error (.position (index size rest + 1) .arrayDelimiter)) := by
      intro size fuel done rest hrest hfuel
      have hskip : skipSpaces (text ++ rest) = text ++ rest := by
        rw [htext, List.cons_append, skipSpaces_cons hspace]
      have hopen : (text ++ rest).head? ≠ some 0x5D := by
        rw [htext]
        exact fun heq => hbracket (Option.some.inj heq)
      rw [Json.parseArray]
      dsimp only
      rw [hskip, if_neg hopen, hreads.parse size fuel rest hrest (by omega)]
    cases items with
    | nil =>
      refine ⟨[text], ?_, List.cons_ne_nil _ _, fun size fuel done rest hfuel => ?_⟩
      · rw [encodeItems, hhead, hencode]
        rfl
      · obtain ⟨fuel, rfl⟩ := Nat.exists_eq_succ_of_ne_zero (show fuel ≠ 0 by omega)
        rw [concat_singleton] at hfuel ⊢
        rw [hfirst size fuel done _ (follows_cons rfl rest) hfuel]
        rfl
    | cons next items =>
      obtain ⟨texts, htexts, hsome, hread⟩ := ih (List.cons_ne_nil _ _)
        (fun w hw => hnil w (List.mem_cons_of_mem _ hw))
        fun w hw => hitems w (List.mem_cons_of_mem _ hw)
      obtain ⟨first, texts, rfl⟩ := List.exists_cons_of_ne_nil hsome
      refine ⟨text :: first :: texts, ?_, List.cons_ne_nil _ _,
        fun size fuel done rest hfuel => ?_⟩
      · rw [encodeItems, hhead, hencode, htexts]
        rfl
      · obtain ⟨fuel, rfl⟩ := Nat.exists_eq_succ_of_ne_zero (show fuel ≠ 0 by omega)
        rw [concat_cons, List.length_append, List.length_cons] at hfuel
        rw [concat_cons, List.append_assoc, List.cons_append,
          hfirst size fuel done _ (follows_cons rfl _) (by omega)]
        have hmore := hread size fuel (done ++ [v]) rest (by omega)
        rw [List.append_assoc] at hmore
        exact hmore

theorem setMember_fresh {done : List (Text × Value N)} {key : Text} {v : Value N}
    (hkey : key ∉ done.map Prod.fst) (hv : v.isNil = false) :
    setMember key v done = done ++ [(key, v)] := by
  have hany : done.any (·.1 = key) = false := by
    rw [List.any_eq_false]
    intro m hm heq
    exact hkey (List.mem_map.mpr ⟨m, hm, by simpa using heq⟩)
  rw [setMember, hv, hany]
  rfl

/-- The loop over the members of an object reads them back. -/
theorem members_read {rt : Runtime N} {members : List (Text × Value N)} (hne : members ≠ [])
    (hnil : ∀ m ∈ members, m.2.isNil = false)
    (hmembers : ∀ m ∈ members, ∃ text, encode rt m.2 = .ok text ∧ Reads rt m.2 text) :
    ∃ texts, encodeMembers rt members = .ok texts ∧ texts ≠ [] ∧
      ∀ size fuel done rest, 2 * (concat texts).length + 2 ≤ fuel →
        ((done ++ members).map Prod.fst).Nodup →
        parseObject rt size fuel done (concat texts ++ 0x7D :: rest) =
          .ok (ofMembers (done ++ members), rest) := by
  induction members with
  | nil => exact absurd rfl hne
  | cons m members ih =>
    obtain ⟨key, v⟩ := m
    obtain ⟨text, hencode, hreads⟩ := hmembers (key, v) List.mem_cons_self
    obtain ⟨c, t, htext, hspace, -⟩ := hreads.starts
    have hv : v.isNil = false := hnil (key, v) List.mem_cons_self
    -- The loop at the first member, up to the byte behind it.
    have hfirst : ∀ size fuel done rest, Follows rest → 2 * text.length + 1 ≤ fuel →
        key ∉ done.map Prod.fst →
        parseObject rt size (fuel + 1) done (encodeString key ++ 0x3A :: text ++ rest) =
          (let rest := skipSpaces rest
          if rest.head? = some 0x7D then .ok (ofMembers (done ++ [(key, v)]), rest.tail)
          else if rest.head? = some 0x2C then
            parseObject rt size fuel (done ++ [(key, v)]) rest.tail
          else .error (.position (index size rest + 1) .objectDelimiter)) := by
      intro size fuel done rest hrest hfuel hkey
      have hshape : encodeString key ++ 0x3A :: text ++ rest =
          0x22 :: (key.flatMap escaped ++ 0x22 :: 0x3A :: (text ++ rest)) := by
        simp [encodeString]
      have hskip : skipSpaces (text ++ rest) = text ++ rest := by
        rw [htext, List.cons_append, skipSpaces_cons hspace]
      have hcolon : skipSpaces (0x3A :: (text ++ rest)) = 0x3A :: (text ++ rest) :=
        skipSpaces_cons rfl _
      rw [hshape, Json.parseObject]
      dsimp only
      rw [skipSpaces_cons rfl, List.head?_cons, if_neg (by decide), if_neg (not_not.mpr rfl),
        List.tail_cons, parseString_encoded]
      dsimp only
      rw [hcolon, List.head?_cons, if_neg (not_not.mpr rfl), List.tail_cons, hskip,
        hreads.parse size fuel rest hrest hfuel]
      dsimp only
      rw [setMember_fresh hkey hv]
    have hfresh : ∀ done : List (Text × Value N),
        ((done ++ (key, v) :: members).map Prod.fst).Nodup → key ∉ done.map Prod.fst := by
      intro done hkeys hmem
      rw [List.map_append, List.nodup_append] at hkeys
      exact hkeys.2.2 key hmem key List.mem_cons_self rfl
    cases members with
    | nil =>
      refine ⟨[encodeString key ++ 0x3A :: text], ?_, List.cons_ne_nil _ _,
        fun size fuel done rest hfuel hkeys => ?_⟩
      · rw [encodeMembers, hencode]
        rfl
      · obtain ⟨fuel, rfl⟩ := Nat.exists_eq_succ_of_ne_zero (show fuel ≠ 0 by omega)
        rw [concat_singleton, List.length_append, List.length_cons] at hfuel
        rw [concat_singleton, hfirst size fuel done _ (follows_cons rfl rest) (by omega)
          (hfresh done hkeys)]
        rfl
    | cons next members =>
      obtain ⟨texts, htexts, hsome, hread⟩ := ih (List.cons_ne_nil _ _)
        (fun m hm => hnil m (List.mem_cons_of_mem _ hm))
        fun m hm => hmembers m (List.mem_cons_of_mem _ hm)
      obtain ⟨first, texts, rfl⟩ := List.exists_cons_of_ne_nil hsome
      refine ⟨(encodeString key ++ 0x3A :: text) :: first :: texts, ?_, List.cons_ne_nil _ _,
        fun size fuel done rest hfuel hkeys => ?_⟩
      · rw [encodeMembers, hencode, htexts]
      · obtain ⟨fuel, rfl⟩ := Nat.exists_eq_succ_of_ne_zero (show fuel ≠ 0 by omega)
        rw [concat_cons, List.length_append, List.length_cons, List.length_append,
          List.length_cons] at hfuel
        rw [concat_cons, List.append_assoc, List.cons_append,
          hfirst size fuel done _ (follows_cons rfl _) (by omega) (hfresh done hkeys)]
        have hmore := hread size fuel (done ++ [(key, v)]) rest (by omega)
          (by rw [List.append_assoc]; exact hkeys)
        rw [List.append_assoc] at hmore
        exact hmore

theorem isNil_all {items : List (Value N)} (hnil : ∀ v ∈ items, v.isNil = false) :
    items.map (!·.isNil) = List.replicate items.length true ∧
      items.countP (!·.isNil) = items.length := by
  constructor
  · rw [List.eq_replicate_iff]
    refine ⟨List.length_map _, fun b hb => ?_⟩
    obtain ⟨v, hv, rfl⟩ := List.mem_map.mp hb
    rw [hnil v hv]
    rfl
  · rw [List.countP_eq_length]
    intro v hv
    rw [hnil v hv]
    rfl

theorem whole_reads {rt : Runtime N} (hrt : rt.Sound) {v : Value N} (hwhole : Whole rt v)
    (hformed : Formed v) : ∃ text, encode rt v = .ok text ∧ Reads rt v text := by
  induction hwhole with
  | nil =>
    refine ⟨nullText, rfl, literal_reads (.inr (.inr rfl)) (by decide) fun size text hword => ?_⟩
    rw [parseLiteral, hword]
    rfl
  | bool b =>
    cases b with
    | true =>
      refine ⟨trueText, rfl, literal_reads (.inl rfl) (by decide) fun size text hword => ?_⟩
      rw [parseLiteral, hword]
      rfl
    | false =>
      refine ⟨falseText, rfl, literal_reads (.inr (.inl rfl)) (by decide)
        fun size text hword => ?_⟩
      rw [parseLiteral, hword]
      rfl
  | @number n s hformat hback =>
    exact ⟨s, by rw [encode, hformat], number_reads hrt hformat hback⟩
  | string s => exact ⟨encodeString s, rfl, string_reads rt s⟩
  | @array items hnil _ ih =>
    cases hformed with
    | array hlast hitems =>
      cases items with
      | nil =>
        refine ⟨[0x5B, 0x5D], by rw [encode]; rfl, ⟨0x5B, [0x5D], rfl, rfl, by decide⟩,
          fun size fuel rest hrest hfuel => ?_⟩
        obtain ⟨fuel, rfl⟩ := Nat.exists_eq_add_of_le' (show 2 ≤ fuel by
          simp at hfuel
          omega)
        rfl
      | cons first items =>
        obtain ⟨texts, htexts, -, hread⟩ := items_read (List.cons_ne_nil _ _) hnil
          fun v hv => ih v hv (hitems v hv)
        have hfirst : first.isNil = false := hnil first List.mem_cons_self
        obtain ⟨hmap, hcount⟩ := isNil_all hnil
        refine ⟨0x5B :: concat texts ++ [0x5D], ?_, ⟨0x5B, _, rfl, rfl, by decide⟩,
          fun size fuel rest hrest hfuel => ?_⟩
        · have hall : (first :: items).all Value.isNil = false := by
            rw [List.all_cons, hfirst, Bool.false_and]
          have hhead : (first :: items).head?.all Value.isNil = false := hfirst
          rw [encode, hall, hhead, hmap, hrt.border, hcount, htexts, if_neg Bool.false_ne_true,
            if_neg Bool.false_ne_true, if_neg (not_not.mpr rfl)]
          rfl
        · obtain ⟨fuel, rfl⟩ := Nat.exists_eq_succ_of_ne_zero (show fuel ≠ 0 by omega)
          have hshape : 0x5B :: concat texts ++ [0x5D] ++ rest =
              0x5B :: (concat texts ++ 0x5D :: rest) := by
            simp
          rw [List.length_append, List.length_cons, List.length_singleton] at hfuel
          rw [hshape, Json.parse, if_neg (by decide), if_neg (by decide), if_neg (by decide),
            if_pos rfl, hread size fuel [] rest (by omega), List.nil_append, ofItems, hlast]
  | @object members _ ih =>
    cases hformed with
    | object hne hkeys hnil hmembers =>
      obtain ⟨texts, htexts, -, hread⟩ := members_read hne hnil
        fun m hm => ih m hm (hmembers m hm)
      refine ⟨0x7B :: concat texts ++ [0x7D], ?_, ⟨0x7B, _, rfl, rfl, by decide⟩,
        fun size fuel rest hrest hfuel => ?_⟩
      · have hempty : members.isEmpty = false := by
          cases members with
          | nil => exact absurd rfl hne
          | cons m members => rfl
        rw [encode, hempty, htexts]
        rfl
      · obtain ⟨fuel, rfl⟩ := Nat.exists_eq_succ_of_ne_zero (show fuel ≠ 0 by omega)
        have hshape : 0x7B :: concat texts ++ [0x7D] ++ rest =
            0x7B :: (concat texts ++ 0x7D :: rest) := by
          simp
        rw [List.length_append, List.length_cons, List.length_singleton] at hfuel
        rw [hshape, Json.parse, if_neg (by decide), if_neg (by decide), if_neg (by decide),
          if_neg (by decide), if_pos rfl, hread size fuel [] rest (by omega) hkeys,
          List.nil_append]
        cases members with
        | nil => exact absurd rfl hne
        | cons m members => rfl

/-- A value as Lua has it, with no item missing and with numbers that survive 14 digits, is
encoded, and the text is decoded to it. -/
theorem decode_reads_encoded {rt : Runtime N} (hrt : rt.Sound) {v : Value N} (hwhole : Whole rt v)
    (hformed : Formed v) : ∃ text, encode rt v = .ok text ∧ decode rt text = .ok v := by
  obtain ⟨text, hencode, hreads⟩ := whole_reads hrt hwhole hformed
  refine ⟨text, hencode, ?_⟩
  obtain ⟨c, t, htext, hspace, -⟩ := hreads.starts
  have hskip : skipSpaces text = text := by
    rw [htext, skipSpaces_cons hspace]
  have hparse := hreads.parse text.length (2 * text.length + 2) [] nofun (by omega)
  rw [List.append_nil] at hparse
  rw [decode, decodeSteps, hskip, hparse]
  rfl

/-- One-digit numbers. -/
def digitRuntime : Runtime (Fin 10) where
  format d := some [0x30 + UInt8.ofNat d.val]
  tonumber text := (List.finRange 10).find? fun d => text = [0x30 + UInt8.ofNat d.val]
  border items := (items.takeWhile id).length

theorem digitRuntime_sound : digitRuntime.Sound where
  starts d s h := by
    cases h
    exact ⟨_, [], rfl, .inl (by revert d; decide)⟩
  undelimited d s h c hc := by
    cases h
    rw [List.mem_singleton] at hc
    subst hc
    revert d
    decide
  border n := by
    show (List.takeWhile id (List.replicate n true)).length = n
    simp

theorem decode_reads_encoded_reply : ∃ text,
    encode digitRuntime (.object [([0x0A, 0x22], .array [.number 7, .string [0x01, 0xE4]])]) =
      .ok text ∧
    decode digitRuntime text =
      .ok (.object [([0x0A, 0x22], .array [.number 7, .string [0x01, 0xE4]])]) := by
  refine decode_reads_encoded digitRuntime_sound (.object ?_) (.object (by simp) (by simp) ?_ ?_)
  all_goals
    intro m hm
    obtain rfl := List.mem_singleton.mp hm
  · refine .array (fun v hv => ?_) fun v hv => ?_
    all_goals rcases List.mem_pair.mp hv with rfl | rfl
    · rfl
    · rfl
    · exact .number rfl rfl
    · exact .string _
  · rfl
  · refine .array rfl fun v hv => ?_
    rcases List.mem_pair.mp hv with rfl | rfl
    · exact .number _
    · exact .string _

end Xcom.Protocol.Json
