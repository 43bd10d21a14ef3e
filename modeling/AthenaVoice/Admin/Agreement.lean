import AthenaVoice.Admin.Validate
import AthenaVoice.Skills.HomeConfig
import AthenaVoice.Skills.JeedomConfig

/-
  What the validator accepts and what the skills read

  Four list fields are checked by the admin and parsed by the skills, and
  nothing ties the two together but the schema. The validator takes any JSON
  number where the skills take a `u64`, looks at the last of repeated fields
  where serde refuses them, and lets home's entities leave out fields that have
  no default there. One element that the skill refuses drops the whole list.

  What is proved:
    1. `field_reads_iff` — when a checked field is read by the skill.
    2. `sensor_reads_iff`, … — when a checked element is.
    3. `entries_eq_length_iff` — an accepted list yields one entry for each
       element exactly when every element is one that serde reads.
-/

namespace AthenaVoice.Admin

open Lib Sdk Serde Skills

universe u v

/-- The list fields the skills parse. -/
inductive ListField where
  | sensors
  | actions
  | shutters
  | entities
  deriving DecidableEq, Repr

namespace ListField

def schema : ListField → ConfigSchema
  | .sensors | .actions | .shutters => Jeedom.configSchema
  | .entities => Home.configSchema

def configField : ListField → ConfigField
  | .sensors => Jeedom.sensorsField
  | .actions => Jeedom.actionsField
  | .shutters => Jeedom.shuttersField
  | .entities => Home.entitiesField

/-- How many entries the skill parses out of the text. -/
def entries (json : JsonReader) (u : Unicode) (raw : Text) : ListField → Nat
  | .sensors => (Jeedom.parseSensors json u raw).length
  | .actions => (Jeedom.parseActions json u raw).length
  | .shutters => (Jeedom.parseShutters json u raw).length
  | .entities => (Home.parseEntities json raw).length

theorem configField_mem (lf : ListField) : lf.configField ∈ lf.schema.fields := by
  cases lf <;> simp [configField, schema, Jeedom.configSchema, Home.configSchema]

theorem configField_kind (lf : ListField) : lf.configField.kind = .list := by
  cases lf <;> rfl

end ListField

/-- The item's field passed the validator. -/
def Checked (item : List (Text × Doc)) (f : ItemField) : Prop :=
  (mapGet item f.key = none ∧ f.required = false) ∨ ∃ v, mapGet item f.key = some v ∧ fits f.kind v = true

/-- The item has the field once at most, and as a `u64` if it is a number. -/
structure Decodable (item : List (Text × Doc)) (f : ItemField) : Prop where
  unrepeated : (item.filter (fun g => g.1 == f.key)).length ≤ 1
  whole : f.kind = .number → ∀ v, mapGet item f.key = some v → ∃ n, v = .number (some n)

/-! ## One field -/

/-- A reader that takes every value of the kind, numbers only if they are `u64`s. -/
def Reads {α : Type u} (kind : FieldKind) (read : Doc → Option α) : Prop :=
  ∀ v, fits kind v = true → ((read v).isSome = true ↔ (kind = .number → ∃ n, v = .number (some n)))

theorem reads_string : Reads .string Doc.asString := by
  intro v hv
  cases v <;> simp [fits, Doc.isString] at hv
  simp [Doc.asString]

theorem reads_bool : Reads .bool Doc.asBool := by
  intro v hv
  cases v <;> simp [fits, Doc.isBoolean] at hv
  simp [Doc.asBool]

theorem reads_number : Reads .number Doc.asU64 := by
  intro v hv
  cases v with
  | number u64 => cases u64 <;> simp [Doc.asU64]
  | _ => simp [fits, Doc.isNumber] at hv

/-- A checked field is read if the item has it once at most, as a `u64` if it is
a number, and not at all only if there is a default. -/
theorem field_reads_iff {α : Type u} {item : List (Text × Doc)} {f : ItemField} {index : Nat}
    {read : Doc → Option α}
    {default : Option α} (hchecked : Checked item f) (hreads : Reads f.kind read) :
    (field (.object item) index f.key read default).isSome = true ↔
      Decodable item f ∧ (default.isSome = true ∨ mapGet item f.key ≠ none) := by
  rw [field_isSome_iff]
  cases hget : mapGet item f.key with
  | none =>
    have hnil : item.filter (fun g => g.1 == f.key) = [] := by
      simpa [mapGet] using hget
    constructor
    · rintro (⟨-, hdefault⟩ | ⟨v, hv, -⟩)
      · exact ⟨⟨by simp [hnil], fun _ v hv => by rw [hget] at hv; cases hv⟩, Or.inl hdefault⟩
      · cases hv
    · rintro ⟨-, hdefault | hne⟩
      · exact Or.inl ⟨rfl, hdefault⟩
      · exact absurd rfl hne
  | some v =>
    -- the check has seen the same value, so only its whole numbers are in question
    have hfits : fits f.kind v = true := by
      rcases hchecked with ⟨hnone, -⟩ | ⟨v', hv', hfits⟩
      · rw [hget] at hnone
        cases hnone
      · rw [hget] at hv'
        cases hv'
        exact hfits
    have hpos : 0 < (item.filter (fun g => g.1 == f.key)).length := by
      rw [List.length_pos_iff]
      intro hnil
      simp [mapGet, hnil] at hget
    constructor
    · rintro (⟨h, -⟩ | ⟨w, hw, hone, hread⟩)
      · cases h
      · cases hw
        refine ⟨⟨by omega, ?_⟩, Or.inr (by simp)⟩
        intro hkind w hw
        rw [hget] at hw
        cases hw
        exact (hreads v hfits).mp hread hkind
    · rintro ⟨⟨hone, hwhole⟩, -⟩
      refine Or.inr ⟨v, rfl, by omega, ?_⟩
      exact (hreads v hfits).mpr (fun hkind => hwhole hkind v hget)

/-! ## One element -/

theorem isSome_bind_iff {α : Type u} {γ : Type v} {o : Option α} {f : α → Option γ} {p : Prop}
    (hf : ∀ a, (f a).isSome = true ↔ p) : (o.bind f).isSome = true ↔ o.isSome = true ∧ p := by
  cases o with
  | none => simp
  | some a => simp [hf a]

theorem required_reads_iff {α : Type u} {item : List (Text × Doc)} {key : Text} {kind : FieldKind}
    {read : Doc → Option α} (index : Nat) (hreads : Reads kind read)
    (hchecked : Checked item ⟨key, kind, true⟩) :
    (field (.object item) index key read none).isSome = true ↔ Decodable item ⟨key, kind, true⟩ := by
  have hpresent : mapGet item key ≠ none := by
    rcases hchecked with ⟨-, hrequired⟩ | ⟨v, hv, -⟩
    · cases hrequired
    · exact fun h => Option.some_ne_none v (hv.symm.trans h)
  exact (field_reads_iff hchecked hreads).trans ⟨fun h => h.1, fun h => ⟨h, Or.inr hpresent⟩⟩

theorem optional_reads_iff {α : Type u} {item : List (Text × Doc)} {key : Text} {kind : FieldKind}
    {read : Doc → Option α} (index : Nat) (a : α) (hreads : Reads kind read)
    (hchecked : Checked item ⟨key, kind, false⟩) :
    (field (.object item) index key read (some a)).isSome = true ↔ Decodable item ⟨key, kind, false⟩ :=
  (field_reads_iff hchecked hreads).trans ⟨fun h => h.1, fun h => ⟨h, Or.inl rfl⟩⟩

theorem undefaulted_reads_iff {α : Type u} {item : List (Text × Doc)} {key : Text} {kind : FieldKind}
    {read : Doc → Option α} (index : Nat) (hreads : Reads kind read)
    (hchecked : Checked item ⟨key, kind, false⟩) :
    (field (.object item) index key read none).isSome = true ↔
      Decodable item ⟨key, kind, false⟩ ∧ mapGet item key ≠ none :=
  (field_reads_iff hchecked hreads).trans (and_congr_right (fun _ => by simp))

theorem sensor_reads_iff {item : List (Text × Doc)} (h : ∀ f ∈ Jeedom.sensorItems, Checked item f) :
    (Jeedom.Sensor.deserialize (.object item)).isSome = true ↔
      ∀ f ∈ Jeedom.sensorItems, Decodable item f := by
  simp only [Jeedom.sensorItems, Jeedom.item, List.forall_mem_cons, List.not_mem_nil, false_implies, implies_true,
    and_true] at h ⊢
  obtain ⟨hname, hid, hunit, hroom, hprefix, hkind, hon, hoff⟩ := h
  unfold Jeedom.Sensor.deserialize
  rw [if_pos (by rfl)]
  refine (isSome_bind_iff fun _ => isSome_bind_iff fun _ => isSome_bind_iff fun _ => isSome_bind_iff fun _ =>
    isSome_bind_iff fun _ => isSome_bind_iff fun _ => isSome_bind_iff fun _ => isSome_bind_iff fun _ =>
    iff_true_intro rfl).trans ?_
  refine (and_congr (required_reads_iff 0 reads_string hname) <|
    and_congr (required_reads_iff 1 reads_number hid) <|
    and_congr (optional_reads_iff 2 _ reads_string hunit) <|
    and_congr (optional_reads_iff 3 _ reads_string hroom) <|
    and_congr (optional_reads_iff 4 _ reads_string hkind) <|
    and_congr (optional_reads_iff 5 _ reads_string hon) <|
    and_congr (optional_reads_iff 6 _ reads_string hoff) <|
    and_congr (optional_reads_iff 7 _ reads_string hprefix) Iff.rfl).trans ?_
  constructor
  · rintro ⟨h1, h2, h3, h4, h5, h6, h7, h8, -⟩
    exact ⟨h1, h2, h3, h4, h8, h5, h6, h7⟩
  · rintro ⟨h1, h2, h3, h4, h8, h5, h6, h7⟩
    exact ⟨h1, h2, h3, h4, h5, h6, h7, h8, trivial⟩

theorem action_reads_iff {item : List (Text × Doc)} (h : ∀ f ∈ Jeedom.actionItems, Checked item f) :
    (Jeedom.ActionDevice.deserialize (.object item)).isSome = true ↔
      ∀ f ∈ Jeedom.actionItems, Decodable item f := by
  simp only [Jeedom.actionItems, Jeedom.item, List.forall_mem_cons, List.not_mem_nil, false_implies, implies_true,
    and_true] at h ⊢
  obtain ⟨hname, hon, hoff, hroom, hprefix, hconfirm⟩ := h
  unfold Jeedom.ActionDevice.deserialize
  rw [if_pos (by rfl)]
  refine (isSome_bind_iff fun _ => isSome_bind_iff fun _ => isSome_bind_iff fun _ => isSome_bind_iff fun _ =>
    isSome_bind_iff fun _ => isSome_bind_iff fun _ => iff_true_intro rfl).trans ?_
  refine (and_congr (required_reads_iff 0 reads_string hname) <|
    and_congr (optional_reads_iff 1 _ reads_string hroom) <|
    and_congr (optional_reads_iff 2 _ reads_string hprefix) <|
    and_congr (required_reads_iff 3 reads_number hon) <|
    and_congr (required_reads_iff 4 reads_number hoff) <|
    and_congr (optional_reads_iff 5 _ reads_bool hconfirm) Iff.rfl).trans ?_
  constructor
  · rintro ⟨h1, h2, h3, h4, h5, h6, -⟩
    exact ⟨h1, h4, h5, h2, h3, h6⟩
  · rintro ⟨h1, h4, h5, h2, h3, h6⟩
    exact ⟨h1, h2, h3, h4, h5, h6, trivial⟩

theorem shutter_reads_iff {item : List (Text × Doc)} (h : ∀ f ∈ Jeedom.shutterItems, Checked item f) :
    (Jeedom.Shutter.deserialize (.object item)).isSome = true ↔
      ∀ f ∈ Jeedom.shutterItems, Decodable item f := by
  simp only [Jeedom.shutterItems, Jeedom.item, List.forall_mem_cons, List.not_mem_nil, false_implies, implies_true,
    and_true] at h ⊢
  obtain ⟨hname, hup, hdown, hstop, hslider, hroom, hprefix, hconfirm⟩ := h
  unfold Jeedom.Shutter.deserialize
  rw [if_pos (by rfl)]
  refine (isSome_bind_iff fun _ => isSome_bind_iff fun _ => isSome_bind_iff fun _ => isSome_bind_iff fun _ =>
    isSome_bind_iff fun _ => isSome_bind_iff fun _ => isSome_bind_iff fun _ => isSome_bind_iff fun _ =>
    iff_true_intro rfl).trans ?_
  refine (and_congr (required_reads_iff 0 reads_string hname) <|
    and_congr (optional_reads_iff 1 _ reads_string hroom) <|
    and_congr (optional_reads_iff 2 _ reads_string hprefix) <|
    and_congr (required_reads_iff 3 reads_number hup) <|
    and_congr (required_reads_iff 4 reads_number hdown) <|
    and_congr (optional_reads_iff 5 _ reads_number hstop) <|
    and_congr (optional_reads_iff 6 _ reads_number hslider) <|
    and_congr (optional_reads_iff 7 _ reads_bool hconfirm) Iff.rfl).trans ?_
  constructor
  · rintro ⟨h1, h2, h3, h4, h5, h6, h7, h8, -⟩
    exact ⟨h1, h4, h5, h6, h7, h2, h3, h8⟩
  · rintro ⟨h1, h4, h5, h6, h7, h2, h3, h8⟩
    exact ⟨h1, h2, h3, h4, h5, h6, h7, h8, trivial⟩

theorem entity_reads_iff {item : List (Text × Doc)} (h : ∀ f ∈ Home.entityItems, Checked item f) :
    (Home.Entity.deserialize (.object item)).isSome = true ↔
      ∀ f ∈ Home.entityItems, Decodable item f ∧ mapGet item f.key ≠ none := by
  simp only [Home.entityItems, List.forall_mem_cons, List.not_mem_nil, false_implies, implies_true,
    and_true] at h ⊢
  obtain ⟨hname, hroom, hkind, htopic, hon, hoff⟩ := h
  have hpresent : mapGet item "name".toList ≠ none := by
    rcases hname with ⟨-, hrequired⟩ | ⟨v, hv, -⟩
    · cases hrequired
    · exact fun h => Option.some_ne_none v (hv.symm.trans h)
  unfold Home.Entity.deserialize
  rw [if_pos (by rfl)]
  refine (isSome_bind_iff fun _ => isSome_bind_iff fun _ => isSome_bind_iff fun _ => isSome_bind_iff fun _ =>
    isSome_bind_iff fun _ => isSome_bind_iff fun _ => iff_true_intro rfl).trans ?_
  refine (and_congr (required_reads_iff 0 reads_string hname) <|
    and_congr (undefaulted_reads_iff 1 reads_string hroom) <|
    and_congr (undefaulted_reads_iff 2 reads_string hkind) <|
    and_congr (undefaulted_reads_iff 3 reads_string htopic) <|
    and_congr (undefaulted_reads_iff 4 reads_string hon) <|
    and_congr (undefaulted_reads_iff 5 reads_string hoff) Iff.rfl).trans ?_
  constructor
  · rintro ⟨h1, h2, h3, h4, h5, h6, -⟩
    exact ⟨⟨h1, hpresent⟩, h2, h3, h4, h5, h6⟩
  · rintro ⟨⟨h1, -⟩, h2, h3, h4, h5, h6⟩
    exact ⟨h1, h2, h3, h4, h5, h6, trivial⟩

/-! ## A whole list -/

/-- An element that the skill reads, of those the validator accepts. -/
def ListField.Fits (lf : ListField) (item : List (Text × Doc)) : Prop :=
  ∀ f ∈ lf.configField.itemFields, Decodable item f ∧ (lf = .entities → mapGet item f.key ≠ none)

theorem ListField.fits_iff (lf : ListField) (hlf : lf ≠ .entities) {item : List (Text × Doc)} :
    (∀ f ∈ lf.configField.itemFields, Decodable item f) ↔ lf.Fits item :=
  ⟨fun h f hf => ⟨h f hf, fun heq => absurd heq hlf⟩, fun h f hf => (h f hf).1⟩

theorem length_parsed_iff {α : Type u} {json : JsonReader} {read : Doc → Option α} {raw : Text}
    {items : List Doc} {n : Nat}
    (hparse : json.parse raw = some (.array items)) (hsome : ∀ l, json.readVec read raw = some l → n = l.length)
    (hnone : json.readVec read raw = none → n = 0) : n = items.length ↔
      ∀ d ∈ items, (read d).isSome = true := by
  rw [← readAll_isSome]
  have hread : json.readVec read raw = readAll read items := by
    unfold JsonReader.readVec
    rw [hparse]
  rw [hread] at hsome hnone
  cases h : readAll read items with
  | some l =>
    rw [hsome l h, readAll_length h]
    simp
  | none =>
    rw [hnone h]
    cases items with
    | nil => simp [readAll] at h
    | cons d ds => simp

/-- **Agreement.** A non-blank list that the validator accepts is an array, and
the skill parses one entry for each of its elements exactly when every element
is one that its struct reads. -/
theorem entries_eq_length_iff (json : JsonReader) (u : Unicode) (lf : ListField) (values : Values) (raw : Text)
    (hraw : values.lookup lf.configField.key = some raw) (hblank : Str.trim raw ≠ [])
    (hvalid : validate json (some lf.schema) values = .ok ()) :
    ∃ items, json.parse raw = some (.array items) ∧
      (lf.entries json u raw = items.length ↔ ∀ d ∈ items, ∀ item, d = .object item → lf.Fits item) := by
  have hcheck := validate_ok hvalid lf.configField_mem hraw hblank
  rw [lf.configField_kind] at hcheck
  obtain ⟨items, hparse, hitems⟩ := check_list_ok hcheck
  refine ⟨items, hparse, ?_⟩
  -- an element is read when it fits, for each of the four
  have hread : ∀ {α : Type} (read : Doc → Option α),
      (∀ item, (∀ f ∈ lf.configField.itemFields, Checked item f) →
        ((read (.object item)).isSome = true ↔ lf.Fits item)) →
      ((∀ d ∈ items, (read d).isSome = true) ↔ ∀ d ∈ items, ∀ item, d = .object item → lf.Fits item) := by
    intro α read hone
    refine forall_congr' (fun d => forall_congr' (fun hd => ?_))
    obtain ⟨item, rfl, hchecked⟩ := hitems d hd
    rw [hone item hchecked]
    exact ⟨fun h item' heq => by cases heq; exact h, fun h => h item rfl⟩
  have hraw' : raw ≠ [] := by
    rintro rfl
    exact hblank rfl
  cases lf with
  | sensors =>
    refine (length_parsed_iff hparse ?_ ?_).trans (hread Jeedom.Sensor.deserialize ?_)
    · intro l h
      simp [ListField.entries, Jeedom.parseSensors, h]
    · intro h
      simp [ListField.entries, Jeedom.parseSensors, h]
    · intro item hchecked
      exact (sensor_reads_iff hchecked).trans (ListField.fits_iff .sensors (by decide))
  | actions =>
    refine (length_parsed_iff hparse ?_ ?_).trans (hread Jeedom.ActionDevice.deserialize ?_)
    · intro l h
      simp [ListField.entries, Jeedom.parseActions, h]
    · intro h
      simp [ListField.entries, Jeedom.parseActions, h]
    · intro item hchecked
      exact (action_reads_iff hchecked).trans (ListField.fits_iff .actions (by decide))
  | shutters =>
    refine (length_parsed_iff hparse ?_ ?_).trans (hread Jeedom.Shutter.deserialize ?_)
    · intro l h
      simp [ListField.entries, Jeedom.parseShutters, h]
    · intro h
      simp [ListField.entries, Jeedom.parseShutters, h]
    · intro item hchecked
      exact (shutter_reads_iff hchecked).trans (ListField.fits_iff .shutters (by decide))
  | entities =>
    refine (length_parsed_iff hparse ?_ ?_).trans (hread Home.Entity.deserialize ?_)
    · intro l h
      simp [ListField.entries, Home.parseEntities, hraw', h]
    · intro h
      simp [ListField.entries, Home.parseEntities, h]
    · intro item hchecked
      exact (entity_reads_iff hchecked).trans ⟨fun h f hf => ⟨(h f hf).1, fun _ => (h f hf).2⟩,
        fun h f hf => ⟨(h f hf).1, (h f hf).2 rfl⟩⟩

/-- A parser that knows one text. -/
def oneText (raw : Text) (doc : Doc) : JsonReader where
  parse := fun text => if text = raw then some doc else none
  errorAt := fun _ => (1, 0)

/-- A sensor list, as the web UI submits it. -/
def submitted (raw : Text) : Values := (∅ : Values).insert "sensors".toList raw

def salonText : Text := "[\x7b\"name\":\"salon\",\"id\":142\x7d]".toList

def salon (id : Option Nat) : List (Text × Doc) :=
  [("name".toList, .string "salon".toList), ("id".toList, .number id)]

theorem salon_decodable : ∀ f ∈ Jeedom.sensorItems, Decodable (salon (some 142)) f := by
  simp only [Jeedom.sensorItems, Jeedom.item, List.forall_mem_cons, List.not_mem_nil, false_implies, implies_true,
    and_true]
  refine ⟨⟨by decide, fun h => by cases h⟩, ⟨by decide, fun _ v hv => ?_⟩,
    ⟨by decide, fun h => by cases h⟩,
    ⟨by decide, fun h => by cases h⟩, ⟨by decide, fun h => by cases h⟩, ⟨by decide, fun h => by cases h⟩,
    ⟨by decide, fun h => by cases h⟩, ⟨by decide, fun h => by cases h⟩⟩
  exact ⟨142, (Option.some.inj hv).symm⟩

/-- One sensor with a whole id is one entry. -/
theorem salon_parsed :
    ∃ items, (oneText salonText (.array [.object (salon (some 142))])).parse salonText = some (.array items) ∧
      ListField.sensors.entries (oneText salonText (.array [.object (salon (some 142))])) .ascii salonText =
        items.length := by
  obtain ⟨items, hparse, hiff⟩ :=
    entries_eq_length_iff (oneText salonText (.array [.object (salon (some 142))])) .ascii .sensors
      (submitted salonText) salonText (by decide) (by decide) (by decide +kernel)
  refine ⟨items, hparse, hiff.mpr ?_⟩
  have hitems : items = [.object (salon (some 142))] := by
    simpa [oneText, eq_comm] using hparse
  rw [hitems]
  rintro d hd item rfl
  cases List.mem_singleton.mp hd
  exact fun f hf => ⟨salon_decodable f hf, fun h => by cases h⟩

def negativeText : Text := "[\x7b\"name\":\"salon\",\"id\":-1\x7d]".toList

/-- The validator accepts a negative id, and the skill drops the list. -/
theorem negative_id_drops_list :
    validate (oneText negativeText (.array [.object (salon none)])) (some Jeedom.configSchema)
      (submitted negativeText) = .ok () ∧
    (oneText negativeText (.array [.object (salon none)])).parse negativeText =
      some (.array [.object (salon none)]) ∧
    ListField.sensors.entries (oneText negativeText (.array [.object (salon none)])) .ascii negativeText = 0 := by
  refine ⟨by decide +kernel, ?_, by decide +kernel⟩
  simp only [oneText, if_true]

end AthenaVoice.Admin
