import Flowgraph.Proofs.Precedence
import Mathlib.Data.List.Forall2
import Mathlib.Data.List.Nodup

/-!
# Settings files are validated key by key

What a settings file says under a key counts if the value fits the key, whatever else is in the file;
every field that does not fit is warned about, in order, and nothing else is.  So the settings that
come out are themselves free of faults.
-/

namespace Flowgraph

/-- The keys of a settings file. -/
inductive SettingsKey where
  | format
  | flag (which : SettingsFlag)
  | functions
  deriving DecidableEq

namespace SettingsKey

def name : SettingsKey → String
  | .format => "format"
  | .flag which => which.name
  | .functions => "functions"

def all : List SettingsKey := [.format, .flag .typescript, .flag .jsx, .functions]

/-- The values that may stand under a key. -/
inductive Fits : SettingsKey → Json → Prop where
  | format (format : OutputFormat) : Fits .format (.string format.name)
  | flag (which : SettingsFlag) (value : Bool) : Fits (.flag which) (.bool value)
  | functions (names : List String) : Fits .functions (.ofStrings names)

/-- The warning about a value that does not fit. -/
def warning : SettingsKey → Json → SettingsWarning
  | .format, value => .badFormat value
  | .flag which, value => .badFlag which value
  | .functions, _ => .badFunctions

end SettingsKey

open SettingsKey (Fits)

/-- The field has a key of a settings file, and a value that fits it. -/
def Settings.Allows (field : String × Json) : Prop :=
  ∃ key ∈ SettingsKey.all, key.name = field.1 ∧ Fits key field.2

/-- The warning is what is said about this field, which is not allowed. -/
inductive SettingsWarning.About : String × Json → SettingsWarning → Prop where
  | unfit {key : SettingsKey} {value : Json} (unfit : ¬ Fits key value) :
      About (key.name, value) (key.warning value)
  | unknown {name : String} (value : Json) (other : ∀ key : SettingsKey, key.name ≠ name) :
      About (name, value) (.unknownKey name)

/-! ## Reading values -/

theorem OutputFormat.ofJson?_eq_some_iff {value : Json} {format : OutputFormat} :
    OutputFormat.ofJson? value = some format ↔ value = .string format.name := by
  constructor
  · intro read
    obtain ⟨name, string, named⟩ := Option.bind_eq_some_iff.1 read
    cases value <;> cases string
    unfold ofName? at named
    split at named <;> cases named <;> rfl
  · rintro rfl
    exact format.ofName?_name

namespace Json

variable {value : Json}

theorem bool?_eq_some_iff {b : Bool} : value.bool? = some b ↔ value = .bool b := by
  cases value <;> simp [bool?]

theorem string?_eq_some_iff {s : String} : value.string? = some s ↔ value = .string s := by
  cases value <;> simp [string?]

theorem mapM_string?_eq_some_iff {items : List Json} {names : List String} :
    items.mapM string? = some names ↔ items = names.map .string := by
  induction items generalizing names with
  | nil => cases names <;> simp
  | cons item items ih =>
    rw [List.mapM_cons]
    constructor
    · intro read
      obtain ⟨name, first, read⟩ := Option.bind_eq_some_iff.1 read
      obtain ⟨later, rest, read⟩ := Option.bind_eq_some_iff.1 read
      cases read
      rw [string?_eq_some_iff.1 first, ih.1 rest, List.map_cons]
    · intro eq
      cases names with
      | nil => cases eq
      | cons name names =>
        obtain ⟨rfl, rest⟩ := List.cons.inj eq
        simp [string?, ih.2 rest]

theorem names?_eq_some_iff {names : List String} :
    value.names? = some names ↔ value = .ofStrings names := by
  cases value with
  | array items => simp [names?, array?, ofStrings, mapM_string?_eq_some_iff]
  | _ => simp [names?, array?, ofStrings]

end Json

namespace SettingsKey

variable {key : SettingsKey} {value : Json}

theorem mem_all (key : SettingsKey) : key ∈ all := by
  obtain _ | which | _ := key
  · decide
  · cases which <;> decide
  · decide

theorem name_injective {key key' : SettingsKey} (same : key.name = key'.name) : key = key' := by
  have apart : (all.map name).Nodup := by decide
  exact List.inj_on_of_nodup_map apart key.mem_all key'.mem_all same

/-- The value can be read as one for the key. -/
def reads : SettingsKey → Json → Bool
  | .format, value => (OutputFormat.ofJson? value).isSome
  | .flag _, value => value.bool?.isSome
  | .functions, value => value.names?.isSome

theorem reads_iff : key.reads value = true ↔ Fits key value := by
  constructor
  · intro read
    cases key with
    | format =>
      obtain ⟨format, read⟩ := Option.isSome_iff_exists.1 read
      exact OutputFormat.ofJson?_eq_some_iff.1 read ▸ .format format
    | flag which =>
      obtain ⟨b, read⟩ := Option.isSome_iff_exists.1 read
      exact Json.bool?_eq_some_iff.1 read ▸ .flag which b
    | functions =>
      obtain ⟨names, read⟩ := Option.isSome_iff_exists.1 read
      exact Json.names?_eq_some_iff.1 read ▸ .functions names
  · intro fits
    cases fits with
    | format format => exact Option.isSome_iff_exists.2 ⟨format, format.ofName?_name⟩
    | flag which b => rfl
    | functions names =>
      exact Option.isSome_iff_exists.2 ⟨names, Json.names?_eq_some_iff.2 rfl⟩

instance : Decidable (Fits key value) := decidable_of_iff _ reads_iff

end SettingsKey

instance (field : String × Json) : Decidable (Settings.Allows field) :=
  inferInstanceAs (Decidable (∃ key ∈ SettingsKey.all, key.name = field.1 ∧ Fits key field.2))

theorem Settings.allows_iff {key : SettingsKey} {value : Json} :
    Settings.Allows (key.name, value) ↔ Fits key value := by
  constructor
  · rintro ⟨key', -, same, fits⟩
    rwa [SettingsKey.name_injective same] at fits
  · intro fits
    exact ⟨key, key.mem_all, rfl, fits⟩

/-! ## Warnings -/

namespace PartialSettings

/-- A field is taken over if its value fits, and is warned about if not. -/
theorem accept_name (s : PartialSettings) (key : SettingsKey) (value : Json) :
    match s.accept key.name value with
    | .ok _ => Fits key value
    | .error warning => ¬ Fits key value ∧ warning = key.warning value := by
  rw [← SettingsKey.reads_iff]
  obtain _ | which | _ := key
  · simp only [SettingsKey.name, accept, SettingsKey.reads]
    cases OutputFormat.ofJson? value <;> simp [SettingsKey.warning]
  · cases which
    all_goals
      simp only [SettingsKey.name, SettingsFlag.name, accept, SettingsKey.reads]
      cases value.bool? <;> simp [SettingsKey.warning]
  · have names : (value.array? >>= fun items => items.mapM Json.string?) = value.names? := rfl
    simp only [SettingsKey.name, accept, SettingsKey.reads, names]
    cases value.names? <;> simp [SettingsKey.warning]

theorem accept_other (s : PartialSettings) {name : String} (value : Json)
    (other : ∀ key : SettingsKey, key.name ≠ name) :
    s.accept name value = .error (.unknownKey name) := by
  unfold accept
  dsimp only
  split
  case h_1 => exact absurd rfl (other .format)
  case h_2 => exact absurd rfl (other (.flag .typescript))
  case h_3 => exact absurd rfl (other (.flag .jsx))
  case h_4 => exact absurd rfl (other .functions)
  case h_5 => rfl

theorem accept_allows (s : PartialSettings) (field : String × Json) :
    match s.accept field.1 field.2 with
    | .ok _ => Settings.Allows field
    | .error warning => ¬ Settings.Allows field ∧ warning.About field := by
  obtain ⟨name, value⟩ := field
  by_cases known : ∃ key : SettingsKey, key.name = name
  · obtain ⟨key, rfl⟩ := known
    have step := s.accept_name key value
    rw [Settings.allows_iff]
    revert step
    cases s.accept key.name value with
    | ok s' => exact id
    | error warning =>
      rintro ⟨unfit, rfl⟩
      exact ⟨unfit, .unfit unfit⟩
  · have other : ∀ key : SettingsKey, key.name ≠ name := fun key same => known ⟨key, same⟩
    rw [s.accept_other value other]
    exact ⟨fun ⟨key, _, same, _⟩ => other key same, .unknown value other⟩

/-- There is one warning for each field that is not allowed, in the order of the fields. -/
theorem acceptAll_snd (s : PartialSettings) (fields : List (String × Json)) :
    List.Forall₂ SettingsWarning.About (fields.filter (¬ Settings.Allows ·))
      (s.acceptAll fields).2 := by
  induction fields generalizing s with
  | nil => exact .nil
  | cons field rest ih =>
    have step := s.accept_allows field
    unfold acceptAll
    revert step
    cases s.accept field.1 field.2 with
    | ok s' =>
      intro allowed
      -- whether a field is allowed does not depend on what was accepted before it
      rw [List.filter_cons_of_neg (by simpa using allowed)]
      exact ih s'
    | error warning =>
      rintro ⟨refused, about⟩
      rw [List.filter_cons_of_pos (by simpa using refused)]
      exact .cons about (ih s)

end PartialSettings

/-! ## Settings -/

namespace Json

/-- An object has every key once. -/
def Keyed : Json → Prop
  | .object fields => (fields.map (·.1)).Nodup
  | _ => True

theorem lastFit?_of_nodup {α : Type} {fields : List (String × Json)} (name : String)
    (read : Json → Option α) (apart : (fields.map (·.1)).Nodup) :
    lastFit? fields name read = fields.lookup name >>= read := by
  induction fields with
  | nil => rfl
  | cons field rest ih =>
    obtain ⟨first, later⟩ := List.nodup_cons.1 apart
    rw [lastFit?_cons, ih later, List.lookup_cons]
    by_cases same : field.1 = name
    · subst same
      have none : rest.lookup field.1 = none := by
        rw [List.lookup_eq_none_iff]
        intro other member
        have away : field.1 ≠ other.1 := by
          intro same
          exact first (List.mem_map.2 ⟨other, member, same.symm⟩)
        simpa using away
      simp [none]
    · have away : (name == field.1) = false := by simpa using Ne.symm same
      simp [same, away]

theorem Keyed.setting?_eq {α : Type} {raw : Json} (keyed : raw.Keyed) (name : String)
    (read : Json → Option α) : raw.setting? name read = raw.field? name >>= read := by
  cases raw with
  | object fields => exact lastFit?_of_nodup name read keyed
  | _ => rfl

end Json

namespace Settings

/-- What the settings say under a key. -/
def value (s : Settings) : SettingsKey → Json
  | .format => .string s.format.name
  | .flag .typescript => .bool s.typescript
  | .flag .jsx => .bool s.jsx
  | .functions => .ofStrings s.functions

/-- The settings, none of them missing. -/
def given (s : Settings) : PartialSettings :=
  ⟨some s.format, some s.typescript, some s.jsx, some s.functions⟩

theorem fits_value (s : Settings) (key : SettingsKey) : Fits key (s.value key) := by
  obtain _ | which | _ := key
  · exact .format s.format
  · cases which
    · exact .flag .typescript s.typescript
    · exact .flag .jsx s.jsx
  · exact .functions s.functions

theorem json_eq (s : Settings) :
    s.json = .object (SettingsKey.all.map fun key => (key.name, s.value key)) := rfl

theorem keyed_json (s : Settings) : s.json.Keyed := by
  have apart : (SettingsKey.all.map SettingsKey.name).Nodup := by decide
  rw [json_eq, Json.Keyed, List.map_map]
  exact apart

/-- What is said decides, if it can be read; else the default stays. -/
theorem getD_of_reads {α : Type} {read : Json → Option α} {write : α → Json}
    (reads : ∀ {value a}, read value = some a ↔ value = write a) (said : Option Json)
    (default : α) :
    (∃ value, said = some value ∧ (read value).isSome = true ∧
      write ((said >>= read).getD default) = value) ∨
    ((∀ value, said = some value → ¬ (read value).isSome = true) ∧
      (said >>= read).getD default = default) := by
  cases said with
  | none => exact .inr ⟨nofun, rfl⟩
  | some value =>
    cases found : read value with
    | none =>
      refine .inr ⟨fun other same => ?_, by simp [found]⟩
      cases same
      simp [found]
    | some a =>
      refine .inl ⟨value, rfl, by simp [found], ?_⟩
      rw [Option.bind_eq_bind, Option.bind_some, found]
      exact (reads.1 found).symm

/-- Under a key the settings say what the file says there, if that fits the key; else they say what
they say by default. -/
theorem value_override {raw : Json} (keyed : raw.Keyed) (key : SettingsKey) :
    (∃ value, raw.field? key.name = some value ∧ Fits key value ∧
      (override {} (PartialSettings.ofJson raw).1).value key = value) ∨
    ((∀ value, raw.field? key.name = some value → ¬ Fits key value) ∧
      (override {} (PartialSettings.ofJson raw).1).value key = value {} key) := by
  rw [PartialSettings.ofJson_fst]
  simp only [keyed.setting?_eq, override, ← SettingsKey.reads_iff]
  obtain _ | which | _ := key
  · obtain taken | ⟨none, left⟩ := getD_of_reads OutputFormat.ofJson?_eq_some_iff
      (raw.field? "format") .text
    · exact .inl taken
    · exact .inr ⟨none, congrArg (fun format => Json.string (OutputFormat.name format)) left⟩
  · cases which
    · obtain taken | ⟨none, left⟩ := getD_of_reads Json.bool?_eq_some_iff
        (raw.field? "typescript") true
      · exact .inl taken
      · exact .inr ⟨none, congrArg Json.bool left⟩
    · obtain taken | ⟨none, left⟩ := getD_of_reads Json.bool?_eq_some_iff (raw.field? "jsx") false
      · exact .inl taken
      · exact .inr ⟨none, congrArg Json.bool left⟩
  · obtain taken | ⟨none, left⟩ := getD_of_reads Json.names?_eq_some_iff
      (raw.field? "functions") []
    · exact .inl taken
    · exact .inr ⟨none, congrArg Json.ofStrings left⟩

theorem ofJson_json (s : Settings) : PartialSettings.ofJson s.json = (s.given, []) := by
  refine Prod.ext ?_ ?_
  · have format : s.json.field? "format" >>= OutputFormat.ofJson? = some s.format :=
      s.format.ofName?_name
    have functions : s.json.field? "functions" >>= Json.names? = some s.functions :=
      Json.names?_eq_some_iff.2 rfl
    rw [PartialSettings.ofJson_fst]
    simp only [s.keyed_json.setting?_eq, format, functions]
    rfl
  · have warned := PartialSettings.acceptAll_snd {}
      (SettingsKey.all.map fun key => (key.name, s.value key))
    -- complete settings hold an allowed value under every key, so nothing is warned about
    have none : (SettingsKey.all.map fun key => (key.name, s.value key)).filter
        (¬ Allows ·) = [] := by
      refine List.filter_eq_nil_iff.2 fun field member => ?_
      obtain ⟨key, -, rfl⟩ := List.mem_map.1 member
      simpa using allows_iff.2 (s.fits_value key)
    rw [none] at warned
    rw [json_eq, PartialSettings.ofJson]
    exact List.forall₂_nil_left_iff.1 warned

/-- The settings and the warnings that a JSON value gives. -/
structure Validated (raw : Json) (s : Settings) (warnings : List SettingsWarning) : Prop where
  /-- Each setting is what the value says if that fits, and the default otherwise. -/
  said : ∀ key : SettingsKey,
    (∃ value, raw.field? key.name = some value ∧ Fits key value ∧ s.value key = value) ∨
    ((∀ value, raw.field? key.name = some value → ¬ Fits key value) ∧ s.value key = value {} key)
  /-- There is one warning for each field that is not allowed, in order. -/
  warned : ∀ fields, raw = .object fields →
    List.Forall₂ SettingsWarning.About (fields.filter (¬ Allows ·)) warnings
  refused : (∀ fields, raw ≠ .object fields) → warnings = [.notAnObject]

theorem validated_override {raw : Json} (keyed : raw.Keyed) :
    Validated raw (override {} (PartialSettings.ofJson raw).1) (PartialSettings.ofJson raw).2 := by
  refine ⟨value_override keyed, ?_, fun other => ?_⟩
  · rintro fields rfl
    exact PartialSettings.acceptAll_snd {} fields
  · cases raw with
    | object fields => exact absurd rfl (other fields)
    | _ => rfl

/-- Whatever JSON value is validated, the settings are what it says where that fits and the default
elsewhere, and there is a warning for whatever does not fit.  Validated again, these settings come
out as they are, without a warning. -/
theorem validated_again (raw : Json) (keyed : raw.Keyed) :
    ∃ given warnings, PartialSettings.ofJson raw = (given, warnings) ∧
      Validated raw (override {} given) warnings ∧
      PartialSettings.ofJson (override {} given).json = ((override {} given).given, []) ∧
      override {} (override {} given).given = override {} given :=
  ⟨_, _, rfl, validated_override keyed, ofJson_json _, rfl⟩

/-- A settings file with one good value, two bad ones, an unknown key, and garbage inside. -/
def mixed : Json := .object [
  ("7", .array [.null]),
  ("format", .string "xml"),
  ("jsx", .bool true),
  ("functions", .array [.string "main", .object [("jsx", .bool false)]])]

theorem validated_again_mixed : mixed.Keyed ∧
    ∃ given warnings, PartialSettings.ofJson mixed = (given, warnings) ∧
      Validated mixed (override {} given) warnings ∧
      PartialSettings.ofJson (override {} given).json = ((override {} given).given, []) ∧
      override {} (override {} given).given = override {} given := by
  have keyed : mixed.Keyed := by
    have apart : ["7", "format", "jsx", "functions"].Nodup := by decide
    exact apart
  exact ⟨keyed, validated_again mixed keyed⟩

end Settings

/-! ## Files -/

namespace Json

/-- Setting a field keeps the keys apart. -/
theorem nodup_setField {fields : List (String × Json)} (key : String) (value : Json)
    (apart : (fields.map (·.1)).Nodup) : ((setField fields key value).map (·.1)).Nodup := by
  unfold setField
  split
  case isTrue =>
    have same : (fields.map fun entry => if entry.1 == key then (key, value) else entry).map (·.1) =
        fields.map (·.1) := by
      rw [List.map_map]
      refine List.map_congr_left fun entry _ => ?_
      by_cases here : entry.1 = key <;> simp [here]
    rw [same]
    exact apart
  case isFalse missing =>
    rw [List.map_append]
    refine apart.append (List.nodup_singleton key) fun name inside last => ?_
    obtain ⟨entry, member, rfl⟩ := List.mem_map.1 inside
    exact missing (List.any_eq_true.2 ⟨entry, member, by simpa using last⟩)

/-- The fields are listed in another order, and none is lost. -/
theorem listFields_perm (written : List (String × Json)) : (listFields written).Perm
    (written.foldl (fun fields entry => setField fields entry.1 entry.2) []) := by
  unfold listFields
  dsimp only
  generalize written.foldl (fun fields entry => setField fields entry.1 entry.2) [] = fields
  have indexed : (fields.filterMap fun entry => (index? entry.1).map (·, entry)).map (·.2) =
      fields.filter fun entry => (index? entry.1).isSome := by
    rw [List.map_filterMap, ← List.filterMap_eq_filter]
    refine List.filterMap_congr fun entry _ => ?_
    cases index : index? entry.1 <;> simp [Option.guard, index]
  have named : (fields.filter fun entry => (index? entry.1).isNone) =
      fields.filter fun entry => !(index? entry.1).isSome := by
    simp
  refine (((List.mergeSort_perm _ _).map _).append_right _).trans ?_
  rw [indexed, named]
  exact List.filter_append_perm _ fields

theorem keyed_listFields (written : List (String × Json)) : (object (listFields written)).Keyed := by
  -- for the induction the fields that were set before are any with keys apart
  have kept : ∀ fields : List (String × Json), (fields.map (·.1)).Nodup →
      ((written.foldl (fun fields entry => setField fields entry.1 entry.2) fields).map
        (·.1)).Nodup := by
    induction written with
    | nil => exact fun _ apart => apart
    | cons entry rest ih => exact fun fields apart => ih _ (nodup_setField entry.1 entry.2 apart)
  exact ((listFields_perm written).map _).nodup_iff.2 (kept [] List.nodup_nil)

theorem keyed_of_readNumber {cs rest : List Char} {raw : Json}
    (found : readNumber cs = some (raw, rest)) : raw.Keyed := by
  unfold readNumber at found
  split at found
  all_goals
    obtain ⟨_, -, same⟩ := Option.map_eq_some_iff.1 found
    cases same
    trivial

theorem keyed_of_readValue {fuel : Nat} {cs rest : List Char} {raw : Json}
    (found : readValue fuel cs = some (raw, rest)) : raw.Keyed := by
  cases fuel with
  | zero => cases found
  | succ fuel =>
    unfold readValue at found
    split at found
    case h_1 | h_2 | h_3 =>
      cases found
      trivial
    case h_4 =>
      obtain ⟨_, -, same⟩ := Option.map_eq_some_iff.1 found
      cases same
      trivial
    case h_5 =>
      split at found
      case h_1 =>
        cases found
        trivial
      case h_2 =>
        obtain ⟨_, -, same⟩ := Option.map_eq_some_iff.1 found
        cases same
        trivial
    case h_6 =>
      -- An object: without fields, or with fields that are listed.
      split at found
      case h_1 =>
        cases found
        exact List.nodup_nil
      case h_2 =>
        obtain ⟨⟨written, _⟩, -, same⟩ := Option.map_eq_some_iff.1 found
        cases same
        exact keyed_listFields written
    case h_7 => exact keyed_of_readNumber found

/-- The values that are read from JSON texts have every key once. -/
theorem keyed_of_parse? {text : String} {raw : Json} (read : parse? text = some raw) :
    raw.Keyed := by
  unfold parse? at read
  obtain ⟨⟨j, rest⟩, found, same⟩ := Option.bind_eq_some_iff.1 read
  dsimp only at same
  split at same
  case isTrue =>
    cases same
    exact keyed_of_readValue found
  case isFalse => cases same

end Json

end Flowgraph
