import AthenaVoice.Admin.Settings
import AthenaVoice.Lib.Prog
import AthenaVoice.Wasm.Registry
import Mathlib.Data.List.Dedup

/-
  The admin handlers — `api.rs`

  Each handler is the tree of the calls it makes: to the store, to the registry,
  to the skills directory. Between two calls other handlers may run. What the
  calls do is `serve`; whether the store or the file system fails, what a wasm
  file builds to and in which order the registry iterates is chosen outside, anew
  at each call. A request carries the order in which its hash map is iterated.

  A wasm file is what its `config_schema` export says: nothing else of it is
  read here. A file whose build fails is a choice.

  What is proved:
    1. `serve_frame` — which call can change which store.
    2. `replay` — the settings after a program are its writes, in order.
    3. `machine` — requests served one after the other, with what each observed.

  Correspondence (Rust ↔ Lean):
    `AppState`, `SkillsHandle`   the same
    `list_skills`, `skill_info`  `listSkills`, `skillInfos`, `skillInfo`
    `put_config`                 `putConfig`, `writeValue`, `deriveAllowlist`
    `reload_skill`               `reloadSkill`
    `enable_skill`, `disable_skill`, `upload_skill`, `install_bundled`
                                 the same; the end the last two share is `placeSkill`
-/

namespace AthenaVoice.Admin

open Lib Sdk

/-- A `.wasm` file, as the schema its `config_schema` export answers. -/
structure WasmFile where
  configSchema : Option ConfigSchema

/-- `SkillsHandle`: the skills directory, and of `deps` the locales and whether
there is an event bus. -/
structure SkillsHandle where
  dir : Text
  locales : List Text
  bus : Bool

/-- `AppState`, what does not change of it. -/
structure AppState where
  skills : Option SkillsHandle
  basePerSkill : Table Text SkillConfig
  bundledDir : Option (Table Text WasmFile)
  json : Serde.JsonReader
  hosts : Codec (List Text) Text

/-- What changes: the store's two tables, the skills directory, the registry. -/
structure AdminState where
  settings : Settings
  skillState : Table Text Bool
  files : Table Text WasmFile
  registry : Wasm.Registry

/-- `base_per_skill.get(name).cloned().unwrap_or_default()`. -/
def AppState.base (app : AppState) (name : Text) : SkillConfig := (app.basePerSkill.lookup name).getD .empty

/-! ## The calls -/

/-- A call to the store, the registry or the skills directory. -/
inductive Op where
  | skillSettingsAll
  | skillSettingsFor (skill : Text)
  | skillSettingSet (skill key value : Text) (isSecret : Bool)
  | skillEnabledSet (skill : Text) (enabled : Bool)
  | skillsDisabled
  | configSchema (name : Text)
  | skillNames
  | reloadPath (handle : SkillsHandle) (name : Text) (merged : SkillConfig)
  | remove (name : Text)
  | readDir
  | isFile (name : Text)
  | writeFile (name : Text) (file : WasmFile)
  | removeFile (name : Text)

@[reducible] def Op.Answer : Op → Type
  | .skillSettingsAll => Except Text (List SkillSettingRow)
  | .skillSettingsFor _ => Except Text (List SkillSettingRow)
  | .skillSettingSet _ _ _ _ => Except Text Unit
  | .skillEnabledSet _ _ => Except Text Unit
  | .skillsDisabled => Except Text (List Text)
  | .configSchema _ => Option ConfigSchema
  | .skillNames => List Text
  | .reloadPath _ _ _ => Except Wasm.RegistryError Text
  | .remove _ => Bool
  | .readDir => List Text
  | .isFile _ => Bool
  | .writeFile _ _ => Except Text Unit
  | .removeFile _ => Unit

/-- A handler, or what is left of one. -/
abbrev Handler (α : Type) := Prog Op Op.Answer α

/-- What the outside chooses at a call: that it fails, what a failed write
leaves, what a file builds to and whether its schema export answers, and the
order the registry is iterated in. -/
structure Choice where
  failure : Option Text
  leftover : Option WasmFile
  built : Except Text Wasm.Plugin
  schemaAnswers : Bool
  order : Wasm.IndexOrder

/-- The answer, or the failure chosen. -/
def Choice.attempt {α : Type} (e : Choice) (a : α) : Except Text α :=
  match e.failure with
  | some message => .error message
  | none => .ok a

/-- The plugin a file builds to; its schema is what the file exports. -/
def Choice.plugin (e : Choice) : Option WasmFile → Except Text Wasm.Plugin
  | none => .error (e.failure.getD [])
  | some file => e.built.map (fun p => { p with configSchema := if e.schemaAnswers then file.configSchema else none })

/-- `handle.dir.join(format!("{name}.wasm"))`. -/
def SkillsHandle.path (handle : SkillsHandle) (name : Text) : Wasm.Registry.SkillPath :=
  { fileStem := some name, display := handle.dir ++ "/".toList ++ name ++ ".wasm".toList }

def serve (s : AdminState) (e : Choice) : (c : Op) → AdminState × c.Answer
  | .skillSettingsAll => (s, e.attempt s.settings.rowsAll)
  | .skillSettingsFor skill => (s, e.attempt (s.settings.rowsFor skill))
  | .skillSettingSet skill key value isSecret =>
    match e.failure with
    | some message => (s, .error message)
    | none => ({ s with settings := s.settings.insert (skill, key) ⟨value, isSecret⟩ }, .ok ())
  | .skillEnabledSet skill enabled =>
    match e.failure with
    | some message => (s, .error message)
    | none => ({ s with skillState := s.skillState.insert skill enabled }, .ok ())
  | .skillsDisabled => (s, e.attempt (s.skillState.keys.filter (fun name => s.skillState.lookup name == some false)))
  | .configSchema name => (s, s.registry.schemas.lookup name)
  | .skillNames => (s, s.registry.plugins.keys)
  | .reloadPath handle name _ =>
    let r := s.registry.reloadPath (handle.path name) (e.plugin (s.files.lookup name)) handle.locales handle.bus e.order
    ({ s with registry := r.1 }, r.2.1)
  | .remove name =>
    let r := s.registry.remove name e.order
    ({ s with registry := r.1 }, r.2)
  | .readDir => (s, if e.failure.isSome then [] else s.files.keys)
  | .isFile name => (s, (s.files.lookup name).isSome)
  | .writeFile name file =>
    match e.failure with
    | some message =>
      ({ s with files := e.leftover.elim s.files (fun left => s.files.insert name left) }, .error message)
    | none => ({ s with files := s.files.insert name file }, .ok ())
  | .removeFile name => (if e.failure.isSome then s else { s with files := s.files.erase name }, ())

/-! ## Listing -/

inductive ConfigValue where
  | plain (value : Text)
  | secret (set : Bool)
  deriving DecidableEq, Repr

structure SkillInfo where
  name : Text
  loaded : Bool
  enabled : Bool
  schema : Option ConfigSchema
  config : List (Text × ConfigValue)
  httpAllowlist : List Text

/-- What a handler answers; `refused` is an error with its status. -/
inductive Response where
  | refused (status : Nat) (error : Text)
  | skills (infos : List SkillInfo)
  | saved (reloadError : Option Text)
  | installed (reloadError : Option Text) (removed : Bool)
  | uploaded (name : Text) (reloadError : Option Text) (removed : Bool)

def internalError (e : Text) : Response := .refused 500 e

/-- Texts as a `BTreeSet` iterates them. -/
def sortedSet (l : List Text) : List Text := l.dedup.insertionSort (fun a b => keyLt b a = false)

/-- The keys a schema declares secret. -/
def ConfigSchema.secretKeys (schema : Option ConfigSchema) : List Text :=
  (schema.elim [] ConfigSchema.fields).filterMap (fun f => if f.kind = .secret then some f.key else none)

/-- The keys of the rows stored as secret. -/
def secretRows (rows : List SkillSettingRow) : List Text := (rows.filter (fun r => r.isSecret)).map (fun r => r.key)

/-- `known_skill_names`; `files` are the stems in the skills directory. -/
def knownSkillNames (app : AppState) (allRows : List SkillSettingRow) (disabled registryNames files : List Text) :
    List Text :=
  sortedSet (app.basePerSkill.keys ++ registryNames ++ allRows.map (fun r => r.skill) ++ disabled ++ files)

/-- One entry of the config shown. -/
def shown (secretKeys : List Text) (e : Σ _ : Text, Text) : Text × ConfigValue :=
  (e.1, if e.1 ∈ secretKeys then .secret (!e.2.isEmpty) else .plain e.2)

/-- `skill_info` once the schema is there. -/
def skillInfoOf (app : AppState) (name : Text) (rows : List SkillSettingRow) (disabled registryNames : List Text)
    (schema : Option ConfigSchema) : SkillInfo :=
  let merged := applySettings app.hosts (app.base name) (pairs rows)
  { name
    loaded := decide (name ∈ registryNames)
    enabled := !decide (name ∈ disabled)
    schema
    config := ((merged.config.entries.filter (fun e => e.1 ≠ httpAllowlistKey)).map
      (shown (secretRows rows ++ ConfigSchema.secretKeys schema))).insertionSort (fun a b => keyLt b.1 a.1 = false)
    httpAllowlist := merged.httpAllowlist }

def skillInfo (app : AppState) (name : Text) (rows : List SkillSettingRow) (disabled registryNames : List Text) :
    Handler SkillInfo :=
  match app.skills with
  | none => .ret (skillInfoOf app name rows disabled registryNames none)
  | some _ => .call (.configSchema name) fun schema =>
    .ret (skillInfoOf app name rows disabled registryNames schema)

/-- The loop of `list_skills`. -/
def skillInfos (app : AppState) (allRows : List SkillSettingRow) (disabled registryNames : List Text) :
    List Text → Handler (List SkillInfo)
  | [] => .ret []
  | name :: names =>
    skillInfo app name (allRows.filter (fun r => r.skill == name)) disabled registryNames >>= fun info =>
      skillInfos app allRows disabled registryNames names >>= fun infos => .ret (info :: infos)

def listSkills (app : AppState) : Handler Response :=
  .call .skillSettingsAll fun
  | .error e => .ret (internalError e)
  | .ok allRows => .call .skillsDisabled fun
    | .error e => .ret (internalError e)
    | .ok disabled =>
      match app.skills with
      | none =>
        skillInfos app allRows disabled [] (knownSkillNames app allRows disabled [] []) >>= fun infos =>
          .ret (.skills infos)
      | some _ => .call .skillNames fun registryNames => .call .readDir fun files =>
        skillInfos app allRows disabled registryNames (knownSkillNames app allRows disabled registryNames files) >>=
          fun infos => .ret (.skills infos)

/-! ## Writing -/

def reloadSkill (app : AppState) (name : Text) : Handler (Except Text Unit) :=
  match app.skills with
  | none => .ret (.ok ())
  | some handle => .call .skillsDisabled fun
    | .error e => .ret (.error e)
    | .ok disabled =>
      -- a disabled skill must stay unloaded
      if name ∈ disabled then .ret (.ok ())
      else .call (.isFile name) fun
        | false => .ret (.ok ())
        | true => .call (.skillSettingsFor name) fun
          | .error e => .ret (.error e)
          | .ok rows =>
            .call (.reloadPath handle name (applySettings app.hosts (app.base name) (pairs rows))) fun
            | .error e => .ret (.error e.display)
            | .ok _ => .ret (.ok ())

/-- `.err()`. -/
def errorOf : Except Text Unit → Option Text
  | .error e => some e
  | .ok () => none

def validSkillName (name : Text) : Bool :=
  !name.isEmpty && name.all (fun c => c.isLower || c.isDigit || c == '_' || c == '-')

/-- `invalid_skill_name_response`. -/
def invalidSkillName : Response := .refused 400 "skill name must match [a-z0-9_-]+".toList

/-- One turn of the loop over the submitted values; `secretKeys` are those of the
schema and of the rows stored before. -/
def writeValue (name : Text) (secretKeys : List Text) (e : Σ _ : Text, Text) : Handler (Option Response) :=
  let isSecret := decide (e.1 ∈ secretKeys)
  -- a blank secret means unchanged, not clear
  if isSecret && (Str.trim e.2).isEmpty then .ret none
  else .call (.skillSettingSet name e.1 e.2 isSecret) fun
    | .error message => .ret (some (internalError message))
    | .ok () => .ret none

/-- The allowlist recomputed from the merged values; nothing is written if it is empty. -/
def deriveAllowlist (app : AppState) (name : Text) : Option ConfigSchema → Handler (Option Response)
  | none => .ret none
  | some schema => .call (.skillSettingsFor name) fun
    | .error e => .ret (some (internalError e))
    | .ok rows =>
      let merged := applySettings app.hosts (app.base name) (pairs rows)
      let allowed := derivedAllowlist schema merged.config
      if allowed.isEmpty then .ret none
      else .call (.skillSettingSet name httpAllowlistKey (app.hosts.encode allowed) false) fun
        | .error e => .ret (some (internalError e))
        | .ok () => .ret none

/-- `put_config` from the point where it writes. -/
def writeConfig (app : AppState) (name : Text) (schema : Option ConfigSchema) (values : List (Σ _ : Text, Text)) :
    Handler Response :=
  .call (.skillSettingsFor name) fun
  | .error e => .ret (internalError e)
  | .ok existingRows =>
    Prog.forEach (writeValue name (ConfigSchema.secretKeys schema ++ secretRows existingRows)) values >>= fun
    | some r => .ret r
    | none => deriveAllowlist app name schema >>= fun
      | some r => .ret r
      | none => reloadSkill app name >>= fun result => .ret (.saved (errorOf result))

/-- `put_config` once the schema is there. -/
def checkConfig (app : AppState) (name : Text) (values : Values) (order : Readout (Σ _ : Text, Text))
    (schema : Option ConfigSchema) : Handler Response :=
  match validate app.json schema values with
  | .error message => .ret (.refused 400 message)
  | .ok () =>
    match (order.order values.entries).find? (fun e => "$".toList.isPrefixOf e.1) with
    | some bad => .ret (.refused 400 (quoted bad.1 ++ " is a reserved key".toList))
    | none => writeConfig app name schema (order.order values.entries)

/-- `put_config`; `order` is the one the submitted map is iterated in. -/
def putConfig (app : AppState) (name : Text) (values : Values) (order : Readout (Σ _ : Text, Text)) :
    Handler Response :=
  if validSkillName name then
    match app.skills with
    | none => checkConfig app name values order none
    | some _ => .call (.configSchema name) fun schema => checkConfig app name values order schema
  else .ret invalidSkillName

def enableSkill (app : AppState) (name : Text) : Handler Response :=
  if validSkillName name then
    .call (.skillEnabledSet name true) fun
    | .error e => .ret (internalError e)
    | .ok () => reloadSkill app name >>= fun result => .ret (.saved (errorOf result))
  else .ret invalidSkillName

def disableSkill (app : AppState) (name : Text) : Handler Response :=
  if validSkillName name then
    .call (.skillEnabledSet name false) fun
    | .error e => .ret (internalError e)
    | .ok () =>
      match app.skills with
      | none => .ret (.saved none)
      | some _ => .call (.remove name) fun _ => .ret (.saved none)
  else .ret invalidSkillName

/-- What `upload_skill` and `install_bundled` do with the file, and how it went:
the reload's error, and whether the file was removed again. -/
def placeSkill (app : AppState) (name : Text) (file : WasmFile) (respond : Option Text → Bool → Response) :
    Handler Response :=
  .call (.isFile name) fun existedBefore => .call (.writeFile name file) fun
  | .error e => .ret (internalError e)
  | .ok () => .call (.skillEnabledSet name true) fun
    | .error e => .ret (internalError e)
    | .ok () => reloadSkill app name >>= fun result =>
      -- a new file that does not load is not left behind
      if (errorOf result).isSome && !existedBefore then
        .call (.removeFile name) fun () => .ret (respond (errorOf result) true)
      else .ret (respond (errorOf result) false)

/-- A multipart field: its name, its file name and its bytes. -/
structure Part where
  name : Option Text
  fileName : Option Text
  bytes : Except Text WasmFile

/-- `file_name.strip_suffix(".wasm")`. -/
def stripWasm (fileName : Text) : Option Text :=
  (Str.stripPrefix ".wasm".toList.reverse fileName.reverse).map List.reverse

def uploadSkill (app : AppState) : List Part → Handler Response
  | [] => .ret (.refused 400 "missing multipart field `file`".toList)
  | part :: parts =>
    if part.name = some "file".toList then
      match stripWasm (part.fileName.getD []) with
      | none => .ret (.refused 400 "file name must end in .wasm".toList)
      | some name =>
        if validSkillName name then
          match app.skills with
          | none => .ret (.refused 409 "no skills directory configured".toList)
          | some _ =>
            match part.bytes with
            | .error e => .ret (internalError e)
            | .ok file => placeSkill app name file (.uploaded name)
        else .ret invalidSkillName
    else uploadSkill app parts

def installBundled (app : AppState) (name : Text) : Handler Response :=
  if validSkillName name then
    match app.bundledDir, app.skills with
    | some bundled, some _ =>
      match bundled.lookup name with
      | none => .ret (.refused 404 "unknown bundled skill".toList)
      | some file => placeSkill app name file .installed
    | _, _ => .ret (.refused 409 "bundled skills not configured".toList)
  else .ret invalidSkillName

inductive Request where
  | listSkills
  | putConfig (name : Text) (values : Values) (order : Readout (Σ _ : Text, Text))
  | enableSkill (name : Text)
  | disableSkill (name : Text)
  | uploadSkill (parts : List Part)
  | installBundled (name : Text)

def handle (app : AppState) : Request → Handler Response
  | .listSkills => listSkills app
  | .putConfig name values order => putConfig app name values order
  | .enableSkill name => enableSkill app name
  | .disableSkill name => disableSkill app name
  | .uploadSkill parts => uploadSkill app parts
  | .installBundled name => installBundled app name

/-! ## What the calls change -/

/-- A call that is not a write to a store leaves it as it is. -/
theorem serve_frame (s : AdminState) (e : Choice) (c : Op) :
    ((∀ skill key value isSecret, c ≠ .skillSettingSet skill key value isSecret) →
      (serve s e c).1.settings = s.settings) ∧
    ((∀ skill enabled, c ≠ .skillEnabledSet skill enabled) → (serve s e c).1.skillState = s.skillState) ∧
    ((∀ handle name merged, c ≠ .reloadPath handle name merged) → (∀ name, c ≠ .remove name) →
      (serve s e c).1.registry = s.registry) := by
  cases c with
  | skillSettingSet skill key value isSecret =>
    refine ⟨fun h => absurd rfl (h _ _ _ _), fun _ => ?_, fun _ _ => ?_⟩ <;> unfold serve <;> split <;> rfl
  | skillEnabledSet skill enabled =>
    refine ⟨fun _ => ?_, fun h => absurd rfl (h _ _), fun _ _ => ?_⟩ <;> unfold serve <;> split <;> rfl
  | reloadPath handle name merged => exact ⟨fun _ => rfl, fun _ => rfl, fun h _ => absurd rfl (h _ _ _)⟩
  | remove name => exact ⟨fun _ => rfl, fun _ => rfl, fun _ h => absurd rfl (h _)⟩
  | writeFile name file =>
    refine ⟨fun _ => ?_, fun _ => ?_, fun _ _ => ?_⟩ <;> unfold serve <;> split <;> rfl
  | removeFile name =>
    refine ⟨fun _ => ?_, fun _ => ?_, fun _ _ => ?_⟩ <;> simp only [serve] <;> split <;> rfl
  | _ => exact ⟨fun _ => rfl, fun _ => rfl, fun _ _ => rfl⟩

theorem mem_plugins_reloadPath {s : AdminState} {e : Choice} {handle : SkillsHandle} {name n : Text}
    (merged : SkillConfig) (h : n ∈ (serve s e (.reloadPath handle name merged)).1.registry.plugins) :
    n ∈ s.registry.plugins ∨
      n = name ∧ ∃ plugin, e.plugin (s.files.lookup name) = .ok plugin ∧
        (plugin.provides handle.locales).isSome = true := by
  simp only [serve] at h
  cases hbuilt : e.plugin (s.files.lookup name) with
  | error source =>
    rw [hbuilt, Wasm.reloadPath_error (e := .build name source) rfl] at h
    exact Or.inl h
  | ok plugin =>
    rw [hbuilt, (Wasm.reloadPath_ok rfl s.registry plugin handle.locales handle.bus e.order).1] at h
    unfold Wasm.Registry.install at h
    rcases Wasm.queryRules_provides name plugin handle.locales with ⟨rules, skill, hq, hp, -⟩ | ⟨source, hq, -⟩
    · rw [hq] at h
      have hplugins : n ∈ (s.registry.plugins.insert name plugin.handle) := by
        have hframe := (Wasm.putSchema_frame ((s.registry.putPlugin name plugin.handle).putRules name rules) name
          plugin.configSchema).1
        rw [← show _ = s.registry.plugins.insert name plugin.handle from hframe]
        exact h
      rcases (AList.mem_insert _).mp hplugins with rfl | hmem
      · exact Or.inr ⟨rfl, plugin, rfl, by rw [hp]; rfl⟩
      · exact Or.inl hmem
    · rw [hq] at h
      exact Or.inl h

theorem mem_plugins_remove {s : AdminState} {e : Choice} {name n : Text}
    (h : n ∈ (serve s e (.remove name)).1.registry.plugins) : n ∈ s.registry.plugins ∧ n ≠ name := by
  have hplugins : (serve s e (.remove name)).1.registry.plugins = s.registry.plugins.erase name := by
    simp only [serve, Wasm.Registry.remove]
    split <;> rfl
  rw [hplugins, AList.mem_erase] at h
  exact ⟨h.2, h.1⟩

/-! ## What the handlers call -/

/-- A call that writes no setting and stores no disabled flag. -/
def Op.Harmless : Op → Prop
  | .skillSettingSet _ _ _ _ => False
  | .skillEnabledSet _ false => False
  | _ => True

theorem reloadSkill_harmless (app : AppState) (name : Text) : (reloadSkill app name).Uses Op.Harmless := by
  unfold reloadSkill
  cases app.skills with
  | none => trivial
  | some handle =>
    refine ⟨trivial, ?_⟩
    intro disabled
    cases disabled with
    | error e => trivial
    | ok disabled =>
      simp only
      split
      · trivial
      · refine ⟨trivial, ?_⟩
        intro isFile
        cases isFile with
        | false => trivial
        | true =>
          refine ⟨trivial, ?_⟩
          intro rows
          cases rows with
          | error e => trivial
          | ok rows =>
            refine ⟨trivial, ?_⟩
            intro result
            cases result <;> trivial

theorem skillInfos_harmless (app : AppState) (allRows : List SkillSettingRow)
    (disabled registryNames names : List Text) :
    (skillInfos app allRows disabled registryNames names).Uses Op.Harmless := by
  induction names with
  | nil => trivial
  | cons name names ih =>
    refine Prog.uses_bind ?_ (fun info => Prog.uses_bind ih (fun _ => trivial))
    unfold skillInfo
    cases app.skills with
    | none => trivial
    | some handle => exact ⟨trivial, fun _ => trivial⟩

theorem listSkills_harmless (app : AppState) : (listSkills app).Uses Op.Harmless := by
  refine ⟨trivial, ?_⟩
  intro allRows
  cases allRows with
  | error e => trivial
  | ok allRows =>
    refine ⟨trivial, ?_⟩
    intro disabled
    cases disabled with
    | error e => trivial
    | ok disabled =>
      simp only
      cases app.skills with
      | none => exact Prog.uses_bind (skillInfos_harmless app _ _ _ _) (fun _ => trivial)
      | some handle =>
        refine ⟨trivial, fun registryNames => ⟨trivial, fun files => ?_⟩⟩
        exact Prog.uses_bind (skillInfos_harmless app _ _ _ _) (fun _ => trivial)

theorem placeSkill_harmless (app : AppState) (name : Text) (file : WasmFile)
    (respond : Option Text → Bool → Response) :
    (placeSkill app name file respond).Uses Op.Harmless := by
  refine ⟨trivial, fun existedBefore => ⟨trivial, fun written => ?_⟩⟩
  cases written with
  | error e => trivial
  | ok u =>
    refine ⟨trivial, ?_⟩
    intro enabled
    cases enabled with
    | error e => trivial
    | ok u =>
      apply Prog.uses_bind (reloadSkill_harmless app name)
      intro result
      split
      · exact ⟨trivial, fun _ => trivial⟩
      · trivial

theorem uploadSkill_harmless (app : AppState) (parts : List Part) : (uploadSkill app parts).Uses Op.Harmless := by
  induction parts with
  | nil => trivial
  | cons part parts ih =>
    unfold uploadSkill
    split
    · split
      · trivial
      · split
        · split
          · trivial
          · split
            · trivial
            · exact placeSkill_harmless app _ _ _
        · trivial
    · exact ih

theorem enableSkill_harmless (app : AppState) (name : Text) : (enableSkill app name).Uses Op.Harmless := by
  unfold enableSkill
  split
  · refine ⟨trivial, ?_⟩
    intro result
    cases result with
    | error e => trivial
    | ok u => exact Prog.uses_bind (reloadSkill_harmless app name) (fun _ => trivial)
  · trivial

theorem installBundled_harmless (app : AppState) (name : Text) : (installBundled app name).Uses Op.Harmless := by
  unfold installBundled
  split
  · split
    · split
      · trivial
      · exact placeSkill_harmless app _ _ _
    · trivial
  · trivial

/-! ## An installation -/

/-- Nothing fails, and every file is the clock's. -/
def calm : Choice :=
  { failure := none, leftover := none, built := .ok (Wasm.clockPlugin 1 true), schemaAnswers := true
    order := Wasm.plainOrder }

def clock : Text := "clock".toList

def noJson : Serde.JsonReader := { parse := fun _ => none, errorAt := fun _ => (1, 0) }

/-- Admin over a skills directory, with no TOML config. -/
def plainApp : AppState :=
  { skills := some { dir := "skills".toList, locales := ["en".toList], bus := true }
    basePerSkill := ∅, bundledDir := none, json := noJson, hosts := strings }

end AthenaVoice.Admin
