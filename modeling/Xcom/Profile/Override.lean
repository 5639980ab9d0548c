import Xcom.Profile.Patch

/-!
# Profiles under an override

The profile a configuration gives a device is its built-in profile with the leaves of the
recorded patch merged over it, before and after the configuration is saved.  No call changes
a table that was there before it.
-/

namespace Xcom.Profile

open Config (Bytes Value Data Numbers Section)
open Pages (bytes)
open Table (Cell Heap Separate Open merged merged_congr open_of_inits)
open Table.Heap

variable {N : Type} {numbers : Numbers N}

/-- A configuration the file format can hold: every line is read as what it was written
for, and every number is read back from its text. -/
structure Storable (numbers : Numbers N) (data : Data N) : Prop where
  readable : Config.Readable numbers data
  exact : ∀ name key n, Config.get data name key = some (.number n) →
    Config.reread numbers (.number n) = some (.number n)

/-- `data'` is `data`, or what is read from the file `data` was saved to. -/
def Saved (numbers : Numbers N) (data data' : Data N) : Prop :=
  data' = data ∨
    Storable numbers data ∧ data' = Config.parse numbers (Config.serialize numbers data)

/-- The tables a call of `M.for_config` leaves. -/
def tablesAfter : Except (Tables N) (Tables N × Cell (Value N) × Source) → Tables N
  | .ok r => r.1
  | .error h => h

/-- The built-in profile of a port. -/
def baseOf (h : Tables N) (port : Option PortInfo) : Cell (Value N) :=
  .table (resolve h (hwidOf port) (descriptionOf port) none).1

/-! ## Saving -/

theorem reread_text (s : Bytes) : Config.reread numbers (.string s) = some (.string s) := by
  show Config.parseValue numbers (if Config.needsQuotes s then _ else s) = some (.string s)
  split
  · exact Config.parseValue_quoted s
  · exact Config.parseValue_bare (Bool.eq_false_iff.mpr ‹_›)

/-- Every key has the value it had. -/
theorem Saved.get {data data' : Data N} (hsaved : Saved numbers data data')
    (name key : Bytes) : Config.get data' name key = Config.get data name key := by
  rcases hsaved with rfl | ⟨hstorable, rfl⟩
  · rfl
  · rw [Config.parse_reread hstorable.readable]
    cases hget : Config.get data name key with
    | none => rfl
    | some value =>
      cases value with
      | boolean b => cases b <;> rfl
      | number n => exact hstorable.exact name key n hget
      | string s => exact reread_text s

/-- A well-formed configuration can be stored. -/
theorem storable_of_wellFormed (hlaw : numbers.Lawful) {data : Data N}
    (hwf : Config.WellFormed numbers data) : Storable numbers data where
  readable := hwf.readable hlaw
  exact := fun name key n hget =>
    Config.parseValue_dumpValue hlaw (hwf.keys name key (.number n) hget).2

/-! ## What is recorded -/

theorem lookup_getD (data : Data N) (name key : Bytes) :
    ((data.lookup name).getD ∅).lookup key = Config.get data name key := by
  unfold Config.get
  cases data.lookup name <;> rfl

theorem get_setOverride_mode (data : Data N) (key : Option (Value N)) (patch : Fields N) :
    Config.get (setOverride numbers data key patch) (bytes "profile") (bytes "mode") =
      some (.string (bytes "custom")) := by
  unfold setOverride setProfile
  dsimp only
  unfold Config.get
  rw [AList.lookup_insert_ne (by decide)]
  show Config.get _ _ _ = _
  rw [Config.get_assign, if_pos ⟨rfl, rfl⟩]

theorem get_setOverride_key (data : Data N) (key : Option (Value N)) (patch : Fields N) :
    Config.get (setOverride numbers data key patch) (bytes "profile") (bytes "key") = key := by
  unfold setOverride setProfile
  dsimp only
  unfold Config.get
  rw [AList.lookup_insert_ne (by decide)]
  show Config.get _ _ _ = _
  rw [Config.get_assign, if_neg (by decide), Config.get_assign, if_pos ⟨rfl, rfl⟩]

theorem get_setOverride_custom (data : Data N) (key : Option (Value N)) (patch : Fields N)
    (path : Bytes) :
    Config.get (setOverride numbers data key patch) (bytes "profile.custom") path =
      (patch.flattenInto numbers [] ∅).lookup path := by
  unfold setOverride setProfile
  dsimp only
  unfold Config.get
  rw [AList.lookup_insert]
  rfl

/-! ## The built-in profiles -/

theorem builtin_fits (numbers : Numbers N) :
    (profiles.all fun p => fits 4 (builtin numbers) (.table p)) = true := rfl

theorem resolve_mem (h : Tables N) (hwid description overrideId : Option Bytes) :
    (resolve h hwid description overrideId).1 ∈ profiles := by
  unfold resolve
  split
  · rename_i chosen hchosen
    obtain ⟨id, _, hid⟩ := Option.bind_eq_some_iff.mp hchosen
    exact List.mem_of_find?_eq_some hid
  · split
    · rename_i p hp
      obtain ⟨_, _, hfind⟩ := Option.bind_eq_some_iff.mp hp
      exact List.mem_of_find?_eq_some hfind
    · split
      · rename_i p hp
        obtain ⟨_, _, hfind⟩ := Option.bind_eq_some_iff.mp hp
        exact List.mem_of_find?_eq_some hfind
      · cases hdefault : byId h (bytes "default") with
        | none => decide
        | some p => exact List.mem_of_find?_eq_some hdefault

/-- A profile is copied as a whole. -/
theorem deepCopy_base {h : Tables N} (hbuiltin : (builtin numbers).Kept h)
    (port : Option PortInfo) :
    ∃ h' c, deepCopy h (baseOf h port) = .ok (h', c) ∧ Copied h (baseOf h port) h' c := by
  apply copy_copied
  have hfits := List.all_eq_true.mp (builtin_fits numbers) _
    (resolve_mem h (hwidOf port) (descriptionOf port) none)
  have hsize : 4 ≤ h.size + 1 := by
    have hle : 30 ≤ h.size := hbuiltin.size_le
    omega
  exact fits_mono hsize (fits_kept hbuiltin hfits)

/-! ## One call -/

/-- The assignments of the override, as paths of keys. -/
theorem foldlM_setPath (custom : Section N) (h : Tables N) (c : Cell (Value N)) :
    custom.entries.foldlM (fun h e => setPath h c e.1 e.2) h =
      (custom.entries.map fun e => (segments e.1, e.2)).foldlM
        (fun h e => putAt h c e.1 e.2) h := by
  rw [List.foldlM_map]
  rfl

/-- The paths of an override change the copy only, also where one of them raises. -/
theorem setPaths_kept {h h₁ : Tables N} {c : Cell (Value N)} (hkept : h.Kept h₁)
    (hinside : Inside h.size h₁ c) (custom : Section N) {h' : Tables N}
    (hfold : custom.entries.foldlM (fun h e => setPath h c e.1 e.2) h₁ = .ok h' ∨
      custom.entries.foldlM (fun h e => setPath h c e.1 e.2) h₁ = .error h') : h.Kept h' := by
  rw [foldlM_setPath] at hfold
  have hbeyond := foldlM_beyond hkept.size_le hinside _ hfold
  intro a t ht
  rw [hbeyond.same a (List.getElem?_eq_some_iff.mp ht).1]
  exact hkept a t ht

/-- Whatever the configuration, no table that was there is changed. -/
theorem forConfig_kept {h : Tables N} (hbuiltin : (builtin numbers).Kept h) (data : Data N)
    (port : Option PortInfo) : h.Kept (tablesAfter (forConfig numbers h data port)) := by
  obtain ⟨h₁, c, hcopy, hcopied⟩ := deepCopy_base hbuiltin port
  unfold baseOf at hcopy
  unfold forConfig
  dsimp only
  split_ifs
  · rw [hcopy]
    dsimp only [Except.bind]
    cases hfold : (getProfile data).2.entries.foldlM (fun h e => setPath h c e.1 e.2) h₁ with
    | ok h' => exact setPaths_kept hcopied.kept hcopied.fresh _ (.inl hfold)
    | error h' => exact setPaths_kept hcopied.kept hcopied.fresh _ (.inr hfold)
  · exact Kept.refl h

/-- The profile under an override. -/
theorem forConfig_merged {h : Tables N} (hbuiltin : (builtin numbers).Kept h) {data : Data N}
    {port : Option PortInfo}
    (hmode : Config.get data (bytes "profile") (bytes "mode") = some (.string (bytes "custom")))
    (hkey : keyMatches numbers (Config.get data (bytes "profile") (bytes "key")) (hwidOf port)
      (descriptionOf port))
    {leaves : List (List Key × Value N)} (hseparate : Separate leaves)
    (hopen : ∀ e ∈ leaves, Open (h.observe (baseOf h port)) e.1)
    (hpaths : ∀ e ∈ leaves, ∃ path, e.1 = segments path)
    (hcustom : ∀ path v, Config.get data (bytes "profile.custom") path = some v ↔
      (segments path, v) ∈ leaves) :
    ∃ h' c, forConfig numbers h data port = .ok (h', c, .custom) ∧
      h'.observe c = merged (h.observe (baseOf h port)) leaves := by
  obtain ⟨h₁, c, hcopy, hcopied⟩ := deepCopy_base hbuiltin port
  have hview : h₁.observe c = h.observe (baseOf h port) := funext hcopied.same
  -- the section has the leaves, in some order
  have hmem : ∀ e, e ∈ (getProfile data).2.entries.map (fun e => (segments e.1, e.2)) ↔
      e ∈ leaves := by
    intro e
    rw [List.mem_map]
    constructor
    · rintro ⟨d, hd, rfl⟩
      rw [← hcustom, ← lookup_getD]
      exact AList.mem_lookup_iff.mpr hd
    · intro he
      obtain ⟨path, hpath⟩ := hpaths e he
      have hget := (hcustom path e.2).mpr (hpath ▸ he)
      rw [← lookup_getD] at hget
      exact ⟨⟨path, e.2⟩, AList.mem_lookup_iff.mp hget, Prod.ext hpath.symm rfl⟩
  have hnodup : ((getProfile data).2.entries.map fun e => (segments e.1, e.2)).Nodup := by
    apply (getProfile data).2.nodupKeys.nodup.map
    intro d e heq
    obtain ⟨hpath, hvalue⟩ := Prod.mk.inj heq
    exact Sigma.ext (segments_injective hpath) (heq_of_eq hvalue)
  have hseparate' : Separate ((getProfile data).2.entries.map fun e => (segments e.1, e.2)) :=
    fun d hd e he => hseparate d ((hmem d).mp hd) e ((hmem e).mp he)
  obtain ⟨h', hfold, hchanged⟩ := foldlM_putAt hnodup hseparate'
    (fun e he => by
      obtain ⟨path, hpath⟩ := hpaths e ((hmem e).mp he)
      rw [hpath]
      exact segments_ne_nil path)
    (fun p a hp => (hcopied.fresh p a hp).2) hcopied.unshared
    (fun e he => hview ▸ hopen e ((hmem e).mp he))
  have hmode' : isText ((getProfile data).1.lookup (bytes "mode")) (bytes "custom") = true := by
    show isText (((data.lookup (bytes "profile")).getD ∅).lookup (bytes "mode")) _ = true
    rw [lookup_getD, hmode]
    show decide (bytes "custom" = bytes "custom") = true
    exact decide_eq_true rfl
  have hkey' : keyMatches numbers ((getProfile data).1.lookup (bytes "key")) (hwidOf port)
      (descriptionOf port) = true := by
    show keyMatches numbers (((data.lookup (bytes "profile")).getD ∅).lookup (bytes "key")) _ _ =
      true
    rw [lookup_getD]
    exact hkey
  refine ⟨h', c, ?_, ?_⟩
  · unfold baseOf at hcopy
    unfold forConfig
    dsimp only
    rw [if_pos ⟨hmode', hkey'⟩, hcopy]
    dsimp only [Except.bind]
    rw [foldlM_setPath, hfold]
    rfl
  · rw [hchanged.view, hview]
    exact merged_congr hseparate hmem

/-- For every configuration, key and patch whose keys are texts, none of whose leaves stands on
the way to another or behind a value of the built-in profile: a device of the key gets the
built-in profile with the patch merged over it at every leaf, as soon as it is set and after
it is saved; and no call, for whatever configuration, changes a table that was there. -/
theorem override_merged {h : Tables N} (hbuiltin : (builtin numbers).Kept h) (data : Data N)
    (key : Option (Value N)) {patch : Fields N} (hnamed : patch.Named)
    (hseparate : Separate patch.leaves) (port : Option PortInfo)
    (hkey : keyMatches numbers key (hwidOf port) (descriptionOf port))
    (hopen : ∀ e ∈ patch.leaves, Open (h.observe (baseOf h port)) e.1) :
    (∀ data', Saved numbers (setOverride numbers data key patch) data' →
      ∃ h' c, forConfig numbers h data' port = .ok (h', c, .custom) ∧
        h'.observe c = merged (h.observe (baseOf h port)) patch.leaves) ∧
      ∀ data port, h.Kept (tablesAfter (forConfig numbers h data port)) := by
  refine ⟨fun data' hsaved => ?_, forConfig_kept hbuiltin⟩
  have hpaths : ∀ e ∈ patch.leaves, ∃ path, e.1 = segments path := by
    intro e he
    rw [← Fields.flat_leaves numbers hnamed] at he
    obtain ⟨d, _, rfl⟩ := List.mem_map.mp he
    exact ⟨d.1, rfl⟩
  apply forConfig_merged hbuiltin _ _ hseparate hopen hpaths
  · intro path v
    rw [hsaved.get, get_setOverride_custom, lookup_flattenInto hnamed hseparate]
  · rw [hsaved.get, get_setOverride_mode]
  · rw [hsaved.get, get_setOverride_key]
    exact hkey

/-! A board with its own reset line. -/

/-- `{ reset = { mode = "manual" }, silent_warn_ms = 8000 }`. -/
def boardPatch : Fields Int :=
  .cons (.name (bytes "reset"))
    (.fields (.cons (.name (bytes "mode")) (.leaf (.string (bytes "manual"))) .nil))
    (.cons (.name (bytes "silent_warn_ms")) (.leaf (.number 8000)) .nil)

def boardPort : Option PortInfo := some ⟨some (bytes "usb\\vid_1a86&pid_7523"), none, none⟩

def boardConfig : Data Int :=
  setOverride Config.integerNumbers ∅ (some (.string (bytes "USB\\VID_1A86&PID_7523"))) boardPatch

theorem boardPatch_plain : boardPatch.Plain :=
  ⟨⟨_, rfl, by decide, by decide⟩, by decide,
    ⟨⟨_, rfl, by decide, by decide⟩, by decide, trivial, trivial⟩,
    ⟨_, rfl, by decide, by decide⟩, by decide, trivial, trivial⟩

theorem boardConfig_wellFormed : Config.WellFormed Config.integerNumbers boardConfig where
  names := by
    intro name hname
    have hkeys : boardConfig.keys = [bytes "profile.custom", bytes "profile"] := by decide
    rw [AList.mem_keys, hkeys, List.mem_cons, List.mem_singleton] at hname
    rcases hname with rfl | rfl
    · exact ⟨by decide, by decide, by decide⟩
    · exact ⟨by decide, by decide, by decide⟩
  keys := by
    intro name key value hvalue
    by_cases hname : name = bytes "profile.custom"
    · subst hname
      rw [boardConfig, get_setOverride_custom,
        lookup_flattenInto boardPatch_plain.named boardPatch_plain.separate] at hvalue
      have hleaves : boardPatch.leaves =
          [(segments (bytes "reset.mode"), .string (bytes "manual")),
            (segments (bytes "silent_warn_ms"), .number 8000)] := by decide
      rw [hleaves, List.mem_cons, List.mem_singleton] at hvalue
      rcases hvalue with hpair | hpair
      · obtain ⟨hpath, rfl⟩ := Prod.mk.inj hpair
        obtain rfl := segments_injective hpath
        exact ⟨⟨by decide, by decide, by decide, by decide, by decide, by decide⟩, trivial⟩
      · obtain ⟨hpath, rfl⟩ := Prod.mk.inj hpair
        obtain rfl := segments_injective hpath
        exact ⟨⟨by decide, by decide, by decide, by decide, by decide, by decide⟩, 8000,
          by decide, rfl⟩
    · unfold boardConfig setOverride setProfile Config.get at hvalue
      dsimp only at hvalue
      rw [AList.lookup_insert_ne hname] at hvalue
      change Config.get _ _ _ = _ at hvalue
      rw [Config.get_assign, Config.get_assign] at hvalue
      split at hvalue
      · rename_i hkey
        obtain ⟨-, rfl⟩ := hkey
        obtain rfl := Option.some.inj hvalue
        exact ⟨⟨by decide, by decide, by decide, by decide, by decide, by decide⟩, trivial⟩
      · split at hvalue
        · rename_i hkey
          obtain ⟨-, rfl⟩ := hkey
          obtain rfl := Option.some.inj hvalue
          exact ⟨⟨by decide, by decide, by decide, by decide, by decide, by decide⟩, trivial⟩
        · cases hvalue

theorem override_merged_board :
    ∃ h' c, forConfig Config.integerNumbers (builtin Config.integerNumbers)
        (Config.parse Config.integerNumbers (Config.serialize Config.integerNumbers boardConfig))
        boardPort = .ok (h', c, .custom) ∧
      h'.observe c [.name (bytes "reset"), .name (bytes "mode")] =
        some (some (.string (bytes "manual"))) ∧
      h'.observe c [.name (bytes "reset"), .name (bytes "settle_ms")] =
        some (some (.number 3000)) := by
  have hopen : (boardPatch.leaves.all fun e => e.1.inits.all fun r => r = e.1 ∨
      ((builtin Config.integerNumbers).observe (baseOf (builtin Config.integerNumbers) boardPort)
        r).join = none) = true := by decide
  obtain ⟨h', c, hcall, hview⟩ := (override_merged (Kept.refl (builtin Config.integerNumbers)) ∅
    (some (.string (bytes "USB\\VID_1A86&PID_7523"))) boardPatch_plain.named
    boardPatch_plain.separate boardPort (by decide) fun e he =>
      open_of_inits fun r hr =>
        of_decide_eq_true (List.all_eq_true.mp (List.all_eq_true.mp hopen e he) r hr)).1 _
    (.inr ⟨storable_of_wellFormed Config.integerNumbers_lawful boardConfig_wellFormed, rfl⟩)
  refine ⟨h', c, hcall, ?_, ?_⟩
  · rw [hview]
    decide
  · rw [hview]
    decide

/-! Overrides that are not merged at their leaves. -/

/-- What is read of the profile of a port. -/
def resolved (numbers : Numbers N) (data : Data N) (port : Option PortInfo) (q : List Key) :
    Option (Option (Value N)) :=
  match forConfig numbers (builtin numbers) data port with
  | .ok r => r.1.observe r.2.1 q
  | .error _ => none

/-- The profile under `data'` is the one under `data` with the patch merged over it. -/
def Merges (numbers : Numbers N) (data data' : Data N) (patch : Fields N)
    (port : Option PortInfo) : Prop :=
  ∀ q, resolved numbers data' port q = merged (resolved numbers data port) patch.leaves q

/-- A patch of one field. -/
def single (k : Key) (p : Patch Int) : Fields Int := .cons k p .nil

def field (name : String) : Key := .name (bytes name)

def quietPatch : Fields Int := single (field "silent_warn_ms") (.leaf (.number 8000))

def flowConfig : Data Int :=
  setOverride Config.integerNumbers ∅ none
    (single (field "flow_control") (.leaf (.string (bytes "unsupported"))))

/-- `{ reset = { edges = { [1] = { delay = 7 } } } }`. -/
def edgePatch : Fields Int :=
  single (field "reset") (.fields (single (field "edges")
    (.fields (single (.index 1) (.fields (single (field "delay") (.leaf (.number 7))))))))

def tablePatch : Fields Int :=
  single (field "flow_control") (.fields (single (field "mode") (.leaf (.boolean true))))

def unnamedPatch : Fields Int :=
  single (field "") (.fields (single (field "id") (.leaf (.string (bytes "board")))))

def crossedPatch : Fields Int :=
  .cons (field "reset.mode") (.leaf (.string (bytes "auto")))
    (single (field "reset") (.leaf (.boolean true)))

def unwritablePatch : Fields Int := single (field "a=b") (.leaf (.boolean true))

def unwritableConfig : Data Int := setOverride Config.integerNumbers ∅ none unwritablePatch

theorem serialize_unwritableConfig :
    Config.serialize Config.integerNumbers unwritableConfig =
      bytes "[profile]\nmode = custom\n\n[profile.custom]\na=b = true\n" := by
  have hkeys : unwritableConfig.keys = [bytes "profile.custom", bytes "profile"] := by decide
  have horder : Config.lexLe (bytes "profile.custom") (bytes "profile") = false := by decide
  have hnames : Config.sectionNames unwritableConfig =
      [bytes "profile", bytes "profile.custom"] := by
    unfold Config.sectionNames
    rw [hkeys]
    simp [List.mergeSort, List.MergeSort.Internal.splitInTwo, horder]
  unfold Config.serialize
  rw [hnames]
  decide

theorem not_merges {data data' : Data Int} {patch : Fields Int} {port : Option PortInfo}
    {q : List Key}
    (hq : resolved Config.integerNumbers data' port q ≠
      merged (resolved Config.integerNumbers data port) patch.leaves q) :
    ¬ Merges Config.integerNumbers data data' patch port :=
  fun hmerges => hq (hmerges q)

/-- An override that was recorded before is lost; an array index becomes a name; a table over
a value raises, and so does a leaf behind another; what stands under an empty key is put
beside it; and a key that is no key of the file is gone after a save. -/
theorem override_not_merged :
    ¬ Merges Config.integerNumbers flowConfig
        (setOverride Config.integerNumbers flowConfig none quietPatch) quietPatch none ∧
      ¬ Merges Config.integerNumbers ∅ (setOverride Config.integerNumbers ∅ none edgePatch)
        edgePatch boardPort ∧
      ¬ Merges Config.integerNumbers ∅ (setOverride Config.integerNumbers ∅ none tablePatch)
        tablePatch none ∧
      ¬ Merges Config.integerNumbers ∅ (setOverride Config.integerNumbers ∅ none crossedPatch)
        crossedPatch none ∧
      ¬ Merges Config.integerNumbers ∅ (setOverride Config.integerNumbers ∅ none unnamedPatch)
        unnamedPatch none ∧
      ¬ Merges Config.integerNumbers ∅
        (Config.parse Config.integerNumbers
          (Config.serialize Config.integerNumbers unwritableConfig)) unwritablePatch none := by
  refine ⟨not_merges (q := [field "flow_control"]) (by decide +kernel),
    not_merges (q := [field "reset", field "edges", .index 1, field "delay"]) (by decide +kernel),
    not_merges (q := [field "flow_control", field "mode"]) (by decide +kernel),
    not_merges (q := [field "reset"]) (by decide +kernel), not_merges (q := [field "id"]) (by decide +kernel), ?_⟩
  rw [serialize_unwritableConfig]
  exact not_merges (q := [field "a=b"]) (by decide +kernel)

end Xcom.Profile
