import AthenaVoice.Lib.Str

/-
  Reading structs from JSON text — serde's derived `Deserialize`

  A document is JSON as it is written: an object is the list of its fields in
  order, with the repeated ones. Two readers of the same text differ there. A
  `serde_json::Map` keeps the last of the fields of one name; a derived struct
  refuses a field of its own that comes twice, fills a missing one only if it
  has a default, and skips fields it does not know. The parser from text to
  documents is a parameter.

  What is proved:
    1. `readAll_isSome`, `readAll_length` — a list is read if all its elements are.
    2. `readVec_eq_some` — a vector is read from an array.
    3. `field_isSome_iff` — which objects give a struct its field.
-/

namespace AthenaVoice.Serde

open Lib

universe u

/-- A JSON document; a number says which `u64` it is, if it is one. -/
inductive Doc where
  | null
  | bool (b : Bool)
  | number (u64 : Option Nat)
  | string (s : Text)
  | array (items : List Doc)
  | object (fields : List (Text × Doc))

namespace Doc

/-- A `String`. -/
def asString : Doc → Option Text
  | .string s => some s
  | _ => none

/-- A `u64`. -/
def asU64 : Doc → Option Nat
  | .number u64 => u64
  | _ => none

/-- A `bool`. -/
def asBool : Doc → Option Bool
  | .bool b => some b
  | _ => none

/-- A `Map<String, Value>`, as the fields it is built from. -/
def asObject : Doc → Option (List (Text × Doc))
  | .object fields => some fields
  | _ => none

def isString : Doc → Bool
  | .string _ => true
  | _ => false

def isNumber : Doc → Bool
  | .number _ => true
  | _ => false

def isBoolean : Doc → Bool
  | .bool _ => true
  | _ => false

end Doc

/-- `Map::get`: the last of the fields of that name. -/
def mapGet (fields : List (Text × Doc)) (key : Text) : Option Doc :=
  ((fields.filter (fun f => f.1 == key)).getLast?).map Prod.snd

/-- A struct is read from an object, or from an array of no more than its fields. -/
def isStruct (size : Nat) : Doc → Bool
  | .object _ => true
  | .array items => items.length ≤ size
  | _ => false

/-- One field of a derived struct, the `index`-th; `default` is there under `#[serde(default)]`. -/
def field {α : Type u} (d : Doc) (index : Nat) (key : Text) (read : Doc → Option α)
    (default : Option α) : Option α :=
  match d with
  | .object fields =>
    match fields.filter (fun f => f.1 == key) with
    | [] => default
    | [f] => read f.2
    | _ => none
  | .array items =>
    match items[index]? with
    | some v => read v
    | none => default
  | _ => none

def readAll {α : Type u} (read : Doc → Option α) : List Doc → Option (List α)
  | [] => some []
  | d :: ds => (read d).bind (fun a => (readAll read ds).map (a :: ·))

/-- `serde_json`: the document a text spells, and where reading one that is
refused stops (line and column). -/
structure JsonReader where
  parse : Text → Option Doc
  errorAt : Text → Nat × Nat

/-- `serde_json::from_str::<Vec<T>>`. -/
def JsonReader.readVec {α : Type u} (json : JsonReader) (read : Doc → Option α) (raw : Text) : Option (List α) :=
  match json.parse raw with
  | some (.array items) => readAll read items
  | _ => none

/-! ## What is read -/

variable {α : Type u}

theorem readAll_isSome {read : Doc → Option α} {ds : List Doc} :
    (readAll read ds).isSome = true ↔ ∀ d ∈ ds, (read d).isSome = true := by
  induction ds with
  | nil => simp [readAll]
  | cons d ds ih =>
    cases hd : read d with
    | none => simp [readAll, hd]
    | some a => simp [readAll, hd, ih]

theorem readAll_length {read : Doc → Option α} : ∀ {ds : List Doc} {as : List α},
    readAll read ds = some as → as.length = ds.length := by
  intro ds
  induction ds with
  | nil =>
    intro as h
    cases h
    rfl
  | cons d ds ih =>
    intro as h
    cases hd : read d with
    | none => simp [readAll, hd] at h
    | some a =>
      simp only [readAll, hd, Option.bind_some, Option.map_eq_some_iff] at h
      obtain ⟨rest, hrest, rfl⟩ := h
      rw [List.length_cons, List.length_cons, ih hrest]

theorem readAll_mem {read : Doc → Option α} : ∀ {ds : List Doc} {as : List α}, readAll read ds = some as →
    ∀ d ∈ ds, ∃ a ∈ as, read d = some a := by
  intro ds
  induction ds with
  | nil =>
    intro as _ d hd
    cases hd
  | cons first ds ih =>
    intro as h d hd
    cases hfirst : read first with
    | none => simp [readAll, hfirst] at h
    | some a =>
      simp only [readAll, hfirst, Option.bind_some, Option.map_eq_some_iff] at h
      obtain ⟨rest, hrest, rfl⟩ := h
      rcases List.mem_cons.mp hd with rfl | hmem
      · exact ⟨a, List.mem_cons_self, hfirst⟩
      · obtain ⟨b, hb, hread⟩ := ih hrest d hmem
        exact ⟨b, List.mem_cons_of_mem a hb, hread⟩

/-- A vector is read from an array. -/
theorem JsonReader.readVec_eq_some {json : JsonReader} {read : Doc → Option α} {raw : Text} {as : List α} :
    json.readVec read raw = some as ↔ ∃ items, json.parse raw = some (.array items) ∧
      readAll read items = some as := by
  unfold JsonReader.readVec
  split
  · rename_i items hparse
    rw [hparse]
    simp
  · rename_i hnot
    refine ⟨fun h => (by cases h), ?_⟩
    rintro ⟨items, hparse, -⟩
    exact absurd hparse (hnot items)

/-- A struct finds its field in an object if it is there once and reads, or is
not there and has a default. -/
theorem field_isSome_iff {fields : List (Text × Doc)} {index : Nat} {key : Text} {read : Doc → Option α}
    {default : Option α} :
    (field (.object fields) index key read default).isSome = true ↔
      (mapGet fields key = none ∧ default.isSome = true) ∨
      (∃ v, mapGet fields key = some v ∧ (fields.filter (fun f => f.1 == key)).length = 1 ∧
        (read v).isSome = true) := by
  unfold field mapGet
  cases hf : fields.filter (fun f => f.1 == key) with
  | nil => simp [hf]
  | cons f fs =>
    cases fs with
    | nil => simp [hf]
    | cons g gs => simp [hf]

end AthenaVoice.Serde
