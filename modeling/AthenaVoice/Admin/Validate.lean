import AthenaVoice.Core.Sdk
import AthenaVoice.Core.Serde
import AthenaVoice.Lib.Table
import Mathlib.Data.List.Sort

/-
  Config validation — `validate.rs`

  A config write is checked against the skill's schema, field by field; a key
  that is not submitted is not checked. The hosts that url and host fields
  imply are cut out of their values by hand.

  What is proved:
    1. `validate_ok` — what was accepted passed the check of its field.
    2. `check_list_ok` — an accepted list is an array of objects whose fields
       have the declared kinds, the last one of each name being looked at.
    3. `mem_derivedAllowlist` — the hosts derived are those some field implies.

  Correspondence (Rust ↔ Lean):
    `validate`            `validate`
    `check`               `check`, `checkItems`, `checkItem`
    `derived_allowlist`   `derivedAllowlist`, `impliedHost`
-/

namespace AthenaVoice.Admin

open Lib Sdk Serde

/-- A submitted or merged config. -/
abbrev Values := Table Text Text

/-- A name in backquotes, as the messages have it. -/
def quoted (name : Text) : Text := "`".toList ++ name ++ "`".toList

/-- The JSON type a field of an item must have. -/
def fits (kind : FieldKind) (v : Doc) : Bool :=
  match kind with
  | .number => v.isNumber
  | .bool => v.isBoolean
  | _ => v.isString

/-- How a message names that type. -/
def wanted : FieldKind → Text
  | .number => "number".toList
  | .bool => "boolean".toList
  | _ => "string".toList

/-- The loop over the item's fields. -/
def checkItem (key : Text) (i : Nat) (item : List (Text × Doc)) : List ItemField → Except Text Unit
  | [] => .ok ()
  | f :: fs =>
    let place := key ++ "[".toList ++ (toString i).toList ++ "]".toList
    match mapGet item f.key with
    | none =>
      if f.required then .error (quoted place ++ " is missing ".toList ++ quoted f.key)
      else checkItem key i item fs
    | some v =>
      if fits f.kind v then checkItem key i item fs
      else .error (quoted (place ++ ".".toList ++ f.key) ++ " must be a ".toList ++ wanted f.kind)

/-- The loop over the items, from the `i`-th. -/
def checkItems (key : Text) (fields : List ItemField) : Nat → List (List (Text × Doc)) → Except Text Unit
  | _, [] => .ok ()
  | i, item :: items =>
    match checkItem key i item fields with
    | .error e => .error e
    | .ok () => checkItems key fields (i + 1) items

def check (json : JsonReader) (kind : FieldKind) (raw key : Text) (items : List ItemField) : Except Text Unit :=
  match kind with
  | .string | .secret => .ok ()
  | .bool =>
    if Str.trim raw = [] ∨ Str.trim raw = "true".toList ∨ Str.trim raw = "false".toList then .ok ()
    else .error (quoted key ++ " must be true or false".toList)
  | .number =>
    if Str.parsesF64 (Str.trim raw) then .ok () else .error (quoted key ++ " must be a number".toList)
  | .url =>
    if "http://".toList.isPrefixOf raw || "https://".toList.isPrefixOf raw then .ok ()
    else .error (quoted key ++ " must start with http:// or https://".toList)
  | .host =>
    if (Str.find raw "://".toList).isSome || raw.contains '/' || raw.contains ' ' then
      .error (quoted key ++ " must be a bare host name (no scheme or path)".toList)
    else .ok ()
  | .list =>
    match json.readVec Doc.asObject raw with
    | none =>
      let (line, column) := json.errorAt raw
      .error (quoted key ++ " is not a JSON array of objects (parse error at line ".toList ++
        (toString line).toList ++ ", column ".toList ++ (toString column).toList ++ ")".toList)
    | some parsed => checkItems key items 0 parsed

/-- The loop over the schema's fields. -/
def validateFields (json : JsonReader) (values : Values) : List ConfigField → Except Text Unit
  | [] => .ok ()
  | f :: fs =>
    match values.lookup f.key with
    | none => validateFields json values fs
    | some raw =>
      if (Str.trim raw).isEmpty then
        if f.required && !(f.kind == .secret) then .error (quoted f.key ++ " is required".toList)
        else validateFields json values fs
      else
        match check json f.kind raw f.key f.itemFields with
        | .error e => .error e
        | .ok () => validateFields json values fs

def validate (json : JsonReader) (schema : Option ConfigSchema) (values : Values) : Except Text Unit :=
  match schema with
  | none => .ok ()
  | some schema => validateFields json values schema.fields

/-! ## Derived hosts -/

/-- The host a field's value implies. -/
def impliedHost (kind : FieldKind) (raw : Text) : Option Text :=
  match kind with
  | .host => some (Str.trim raw)
  | .url =>
    let noScheme := (Str.splitNth1 "://".toList raw).getD raw
    let host := (noScheme.takeWhile (fun c => c != '/')).takeWhile (fun c => c != ':')
    if host.isEmpty then none else some host
  | _ => none

def dedup : List Text → List Text
  | [] => []
  | [a] => [a]
  | a :: b :: rest => if a = b then dedup (b :: rest) else a :: dedup (b :: rest)

def derivedAllowlist (schema : ConfigSchema) (mergedValues : Values) : List Text :=
  let hosts := schema.fields.filterMap (fun f =>
    (mergedValues.lookup f.key).bind (fun raw =>
      if (Str.trim raw).isEmpty then none else impliedHost f.kind raw))
  dedup (hosts.insertionSort (fun a b => keyLt b a = false))

/-! ## What is accepted -/

theorem validateFields_ok {json : JsonReader} {values : Values} : ∀ {fs : List ConfigField},
    validateFields json values fs = .ok () → ∀ f ∈ fs, ∀ raw, values.lookup f.key = some raw →
      Str.trim raw ≠ [] → check json f.kind raw f.key f.itemFields = .ok () := by
  intro fs
  induction fs with
  | nil =>
    intro _ f hf
    cases hf
  | cons g gs ih =>
    intro h f hf raw hraw hblank
    simp only [validateFields] at h
    rcases List.mem_cons.mp hf with rfl | hmem
    · simp only [hraw] at h
      rw [if_neg (by simpa using hblank)] at h
      cases hc : check json f.kind raw f.key f.itemFields with
      | error e => simp [hc] at h
      | ok u => rfl
    · refine ih ?_ f hmem raw hraw hblank
      -- whatever the first field's value is, the rest was checked
      cases hv : values.lookup g.key with
      | none => simpa [hv] using h
      | some v =>
        simp only [hv] at h
        split at h
        · split at h
          · cases h
          · exact h
        · cases hc : check json g.kind v g.key g.itemFields with
          | error e => simp [hc] at h
          | ok u => simpa [hc] using h

theorem validate_ok {json : JsonReader} {schema : ConfigSchema} {values : Values}
    (h : validate json (some schema) values = .ok ()) {f : ConfigField} (hf : f ∈ schema.fields) {raw : Text}
    (hraw : values.lookup f.key = some raw) (hblank : Str.trim raw ≠ []) :
    check json f.kind raw f.key f.itemFields = .ok () :=
  validateFields_ok h f hf raw hraw hblank

theorem checkItem_ok {key : Text} {i : Nat} {item : List (Text × Doc)} : ∀ {fs : List ItemField},
    checkItem key i item fs = .ok () → ∀ f ∈ fs,
      (mapGet item f.key = none ∧ f.required = false) ∨ ∃ v, mapGet item f.key = some v ∧
        fits f.kind v = true := by
  intro fs
  induction fs with
  | nil =>
    intro _ f hf
    cases hf
  | cons g gs ih =>
    intro h f hf
    simp only [checkItem] at h
    cases hv : mapGet item g.key with
    | none =>
      simp only [hv] at h
      split at h
      · cases h
      · rename_i hrequired
        rcases List.mem_cons.mp hf with rfl | hmem
        · exact Or.inl ⟨hv, by simpa using hrequired⟩
        · exact ih h f hmem
    | some v =>
      simp only [hv] at h
      split at h
      · rename_i hfits
        rcases List.mem_cons.mp hf with rfl | hmem
        · exact Or.inr ⟨v, hv, hfits⟩
        · exact ih h f hmem
      · cases h

theorem checkItems_ok {key : Text} {fields : List ItemField} : ∀ {items : List (List (Text × Doc))} {i : Nat},
    checkItems key fields i items = .ok () → ∀ item ∈ items, ∃ j, checkItem key j item fields = .ok () := by
  intro items
  induction items with
  | nil =>
    intro i _ item hitem
    cases hitem
  | cons first items ih =>
    intro i h item hitem
    simp only [checkItems] at h
    cases hc : checkItem key i first fields with
    | error e => simp [hc] at h
    | ok u =>
      simp only [hc] at h
      rcases List.mem_cons.mp hitem with rfl | hmem
      · exact ⟨i, hc⟩
      · exact ih h item hmem

/-- An accepted list is an array of objects, each with fields of the declared kinds. -/
theorem check_list_ok {json : JsonReader} {raw key : Text} {fields : List ItemField}
    (h : check json .list raw key fields = .ok ()) :
    ∃ items, json.parse raw = some (.array items) ∧ ∀ d ∈ items, ∃ item, d = .object item ∧
      ∀ f ∈ fields, (mapGet item f.key = none ∧ f.required = false) ∨
        ∃ v, mapGet item f.key = some v ∧ fits f.kind v = true := by
  simp only [check] at h
  cases hread : json.readVec Doc.asObject raw with
  | none => simp [hread] at h
  | some parsed =>
    simp only [hread] at h
    obtain ⟨items, hparse, hall⟩ := JsonReader.readVec_eq_some.mp hread
    refine ⟨items, hparse, ?_⟩
    intro d hd
    obtain ⟨item, hitem, hobject⟩ := readAll_mem hall d hd
    obtain ⟨j, hj⟩ := checkItems_ok h item hitem
    refine ⟨item, ?_, checkItem_ok hj⟩
    cases d <;> simp [Doc.asObject] at hobject
    rw [hobject]

/-! ## What is derived -/

theorem mem_dedup {a : Text} : ∀ {l : List Text}, a ∈ dedup l ↔ a ∈ l := by
  intro l
  induction l with
  | nil => simp [dedup]
  | cons b l ih =>
    cases l with
    | nil => simp [dedup]
    | cons c l =>
      by_cases hbc : b = c
      · subst hbc
        simp [dedup, ih]
      · simp [dedup, hbc, ih]

/-- The hosts derived are those some field with a non-blank value implies. -/
theorem mem_derivedAllowlist {schema : ConfigSchema} {values : Values} {host : Text} :
    host ∈ derivedAllowlist schema values ↔ ∃ f ∈ schema.fields, ∃ raw, values.lookup f.key = some raw ∧
      Str.trim raw ≠ [] ∧ impliedHost f.kind raw = some host := by
  unfold derivedAllowlist
  rw [mem_dedup, (List.perm_insertionSort _ _).mem_iff, List.mem_filterMap]
  refine exists_congr (fun f => and_congr_right (fun _ => ?_))
  rw [Option.bind_eq_some_iff]
  refine exists_congr (fun raw => and_congr_right (fun _ => ?_))
  by_cases hblank : Str.trim raw = [] <;> simp [hblank]

end AthenaVoice.Admin
