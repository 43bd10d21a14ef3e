import AthenaVoice.Core.Event
import AthenaVoice.Intent.Rule
import AthenaVoice.Lib.Table

/-
  The skill registry — `wasm/registry.rs`

  Four stores, each behind its own lock: the plugins, the rules each plugin
  contributed, the schemas, and the published index. `install` queries the
  plugin first and touches the stores only once every locale has answered;
  `reload_path` builds a plugin from a file and installs it.

  A plugin is its instance and what its exports answer while it is installed,
  call by call, since a guest keeps state. The order in which a hash map is
  iterated over is a parameter of every operation. Each store's section is a
  function of its own.

  What is proved:
    1. `queryRules_spec` — a query collects the last answer for each locale, or
       fails because some locale's call did.
    2. `rebuildIndex_perm` — the published index is, up to order, the rules of
       the rule store.
    3. `registry_coherence` — the four stores are the views of one catalog of
       installed skills, over every sequence of operations.

  Correspondence (Rust ↔ Lean):
    `SkillRegistry`          `Registry`
    `SkillPlugin`            `Plugin`
    `install`                `queryRules`, then `putPlugin`, `putRules`,
                             `putSchema`, `rebuildIndex`
    `remove`                 `dropPlugin`, `dropRules`, `dropSchema`
    `build_plugin_from_file` `buildPluginFromFile`
    `reload_path`            `Registry.reloadPath`
-/

namespace AthenaVoice.Wasm

open Lib CoreTypes Intent
open Sdk (PatternRule ConfigSchema)

/-- `RegistryError`, as far as `install` and `reload_path` raise it. -/
inductive RegistryError where
  | noStem (path : Text)
  | build (skill source : Text)
  | patterns (skill locale source : Text)
  deriving DecidableEq, Repr

/-- `Display` of `RegistryError`. -/
def RegistryError.display : RegistryError → Text
  | .noStem path => "skill file has no filename stem: ".toList ++ path
  | .build skill source => "failed to build skill ".toList ++ skill ++ ": ".toList ++ source
  | .patterns skill locale source =>
    "skill ".toList ++ skill ++ " pattern_rules(".toList ++ locale ++ ") failed: ".toList ++ source

/-- A `SkillPlugin` instance: its handle, the answer to the `i`-th call of
`pattern_rules`, and the answer of `config_schema`. -/
structure Plugin where
  handle : Nat
  patternRules : Nat → Text → Except Text (List PatternRule)
  configSchema : Option ConfigSchema

abbrev PluginRules := Table Text (List HostPatternRule)

/-- `SkillRegistry`. -/
structure Registry where
  plugins : Table Text Nat
  pluginRules : Table Text PluginRules
  patterns : RuleIndex
  schemas : Table Text ConfigSchema

def Registry.new : Registry := { plugins := ∅, pluginRules := ∅, patterns := .new, schemas := ∅ }

/-- The orders in which `rebuild_index` meets the skills, and each skill's locales. -/
structure IndexOrder where
  skills : Readout (Σ _ : Text, PluginRules)
  locales : Text → Readout (Σ _ : Text, List HostPatternRule)

/-- The loop over the locales at the head of `install`; `i` calls have been made. -/
def queryRules (name : Text) (plugin : Plugin) : Nat → List Text → PluginRules → Except RegistryError PluginRules
  | _, [], thisRules => .ok thisRules
  | i, locale :: locales, thisRules =>
    match plugin.patternRules i locale with
    | .error source => .error (.patterns name locale source)
    | .ok rules => queryRules name plugin (i + 1) locales (thisRules.insert locale (rules.map HostPatternRule.from))

namespace Registry

/-! ## The sections -/

/-- `plugins.insert`. -/
def putPlugin (r : Registry) (name : Text) (handle : Nat) : Registry :=
  { r with plugins := r.plugins.insert name handle }

/-- `rules_map.insert`. -/
def putRules (r : Registry) (name : Text) (rules : PluginRules) : Registry :=
  { r with pluginRules := r.pluginRules.insert name rules }

/-- The schema is replaced, or dropped if the plugin exports none. -/
def putSchema (r : Registry) (name : Text) : Option ConfigSchema → Registry
  | some schema => { r with schemas := r.schemas.insert name schema }
  | none => { r with schemas := r.schemas.erase name }

/-- `plugins.remove`. -/
def dropPlugin (r : Registry) (name : Text) : Registry := { r with plugins := r.plugins.erase name }

/-- `rules_map.remove`. -/
def dropRules (r : Registry) (name : Text) : Registry := { r with pluginRules := r.pluginRules.erase name }

/-- `schemas.remove`. -/
def dropSchema (r : Registry) (name : Text) : Registry := { r with schemas := r.schemas.erase name }

/-- The innermost loop of `rebuild_index`. -/
def insertRules (skill : Text) (fresh : RuleIndex) (perLocale : Σ _ : Text, List HostPatternRule) : RuleIndex :=
  perLocale.2.foldl (fun fresh rule => fresh.insert perLocale.1 rule skill) fresh

/-- The loop over a skill's locales. -/
def insertSkill (order : IndexOrder) (fresh : RuleIndex) (skill : Σ _ : Text, PluginRules) : RuleIndex :=
  ((order.locales skill.1).order skill.2.entries).foldl (insertRules skill.1) fresh

def rebuildIndex (r : Registry) (order : IndexOrder) : Registry :=
  { r with patterns := (order.skills.order r.pluginRules.entries).foldl (insertSkill order) .new }

/-! ## The operations -/

def install (r : Registry) (name : Text) (plugin : Plugin) (locales : List Text) (order : IndexOrder) :
    Registry × Except RegistryError Unit :=
  match queryRules name plugin 0 locales ∅ with
  | .error e => (r, .error e)
  | .ok rules =>
    ((((r.putPlugin name plugin.handle).putRules name rules).putSchema name plugin.configSchema).rebuildIndex
      order, .ok ())

/-- `remove`; the answer says whether the plugin was there. -/
def remove (r : Registry) (name : Text) (order : IndexOrder) : Registry × Bool :=
  let existed := (r.plugins.lookup name).isSome
  let r' := ((r.dropPlugin name).dropRules name).dropSchema name
  (if existed then r'.rebuildIndex order else r', existed)

/-- A path, as far as it is read: its file stem, if it has one in UTF-8, and
how it is displayed. -/
structure SkillPath where
  fileStem : Option Text
  display : Text

/-- `build_plugin_from_file`; `built` is what the plugin builder makes of the file. -/
def buildPluginFromFile (path : SkillPath) (built : Except Text Plugin) :
    Except RegistryError (Text × Plugin) :=
  match path.fileStem with
  | none => .error (.noStem path.display)
  | some name =>
    match built with
    | .error source => .error (.build name source)
    | .ok plugin => .ok (name, plugin)

/-- `reload_path`, with the events it sends when `bus` is there. -/
def reloadPath (r : Registry) (path : SkillPath) (built : Except Text Plugin) (locales : List Text)
    (bus : Bool) (order : IndexOrder) : Registry × Except RegistryError Text × List Event :=
  let outcome : Registry × Except RegistryError Text :=
    match buildPluginFromFile path built with
    | .error e => (r, .error e)
    | .ok (name, plugin) =>
      let installed := r.install name plugin locales order
      (installed.1, installed.2.map (fun _ => name))
  let event := match outcome.2 with
    | .ok name => Event.skillReloaded name
    | .error e => Event.skillReloadFailed (path.fileStem.getD "<unknown>".toList) e.display
  (outcome.1, outcome.2, if bus then [event] else [])

end Registry

/-- The operations, with what the plugin builder answers and the order met. -/
inductive RegistryAction where
  | install (name : Text) (plugin : Plugin) (locales : List Text) (order : IndexOrder)
  | remove (name : Text) (order : IndexOrder)
  | reloadPath (path : Registry.SkillPath) (built : Except Text Plugin) (locales : List Text) (bus : Bool)
      (order : IndexOrder)

inductive Reply where
  | installed (result : Except RegistryError Unit)
  | removed (existed : Bool)
  | reloaded (result : Except RegistryError Text) (events : List Event)

/-- The operation returns an error. -/
def Reply.failed : Reply → Bool
  | .installed (.error _) => true
  | .reloaded (.error _) _ => true
  | _ => false

def Registry.apply (r : Registry) : RegistryAction → Registry × Reply
  | .install name plugin locales order =>
    let x := r.install name plugin locales order
    (x.1, .installed x.2)
  | .remove name order =>
    let x := r.remove name order
    (x.1, .removed x.2)
  | .reloadPath path built locales bus order =>
    let x := r.reloadPath path built locales bus order
    (x.1, .reloaded x.2.1 x.2.2)

/-- The registry after a sequence of operations. -/
def Registry.after (as : List RegistryAction) : Registry := as.foldl (fun r a => (r.apply a).1) .new

/-! ## The catalog -/

/-- An installed skill: which instance serves it, its rules for each locale it
was asked about, its schema. -/
structure Skill where
  handle : Nat
  rules : Text → Option (List HostPatternRule)
  schema : Option ConfigSchema

/-- What the registry is for: the skills installed, by name. -/
abbrev Catalog := Text → Option Skill

/-- What a plugin answers for a list of locales, from the `i`-th call on. -/
def Plugin.answers (plugin : Plugin) : Nat → List Text → List (Text × Except Text (List PatternRule))
  | _, [] => []
  | i, locale :: locales => (locale, plugin.patternRules i locale) :: plugin.answers (i + 1) locales

/-- The rules answered for a locale; a later answer replaces an earlier one. -/
def latestRules : List (Text × Except Text (List PatternRule)) → Text → Option (List HostPatternRule)
  | [], _ => none
  | (l, answer) :: rest, locale =>
    (latestRules rest locale).or
      (if locale = l then answer.toOption.map (List.map HostPatternRule.from) else none)

/-- The skill a plugin provides, unless it fails for some locale. -/
def Plugin.provides (plugin : Plugin) (locales : List Text) : Option Skill :=
  let answers := plugin.answers 0 locales
  if answers.all (fun a => a.2.isOk) then
    some { handle := plugin.handle, rules := latestRules answers, schema := plugin.configSchema }
  else none

/-- Installing what a plugin provides; nothing changes if it provides none. -/
def Catalog.install (c : Catalog) (name : Text) : Option Skill → Catalog
  | some skill => Function.update c name (some skill)
  | none => c

/-- One operation on the catalog. -/
def Catalog.apply (c : Catalog) : RegistryAction → Catalog
  | .install name plugin locales _ => c.install name (plugin.provides locales)
  | .remove name _ => Function.update c name none
  | .reloadPath path built locales _ _ =>
    match path.fileStem, built with
    | some name, .ok plugin => c.install name (plugin.provides locales)
    | _, _ => c

/-- The catalog after a sequence of operations. -/
def Catalog.after (as : List RegistryAction) : Catalog := as.foldl Catalog.apply (fun _ => none)

/-- The rules of the named skills for a locale, each tagged with its skill. -/
def Catalog.entries (c : Catalog) (names : List Text) (locale : Text) : List RuleEntry :=
  names.flatMap (fun name => ((c name).bind (fun skill => skill.rules locale)).elim []
    (fun rules => rules.map (fun rule => (rule, name))))

/-! ## The query -/

/-- A query collects what the plugin answers, or fails because some locale's
call did. -/
theorem queryRules_spec (name : Text) (plugin : Plugin) : ∀ (locales : List Text) (i : Nat) (acc : PluginRules),
    (∃ rules, queryRules name plugin i locales acc = .ok rules ∧
      (plugin.answers i locales).all (fun a => a.2.isOk) = true ∧
      ∀ locale, rules.lookup locale = (latestRules (plugin.answers i locales) locale).or (acc.lookup locale)) ∨
    ∃ locale ∈ locales, ∃ source, queryRules name plugin i locales acc = .error (.patterns name locale source) ∧
      (plugin.answers i locales).all (fun a => a.2.isOk) = false := by
  intro locales
  induction locales with
  | nil =>
    intro i acc
    exact Or.inl ⟨acc, rfl, rfl, fun locale => rfl⟩
  | cons l locales ih =>
    intro i acc
    cases ha : plugin.patternRules i l with
    | error source =>
      refine Or.inr ⟨l, List.mem_cons_self, source, ?_, ?_⟩
      · simp [queryRules, ha]
      · simp [Plugin.answers, ha, Except.isOk, Except.toBool]
    | ok answer =>
      have hquery : queryRules name plugin i (l :: locales) acc =
          queryRules name plugin (i + 1) locales (acc.insert l (answer.map HostPatternRule.from)) := by
        simp [queryRules, ha]
      have hall : (plugin.answers i (l :: locales)).all (fun a => a.2.isOk) =
          (plugin.answers (i + 1) locales).all (fun a => a.2.isOk) := by
        simp [Plugin.answers, ha, Except.isOk, Except.toBool]
      rw [hquery, hall]
      rcases ih (i + 1) (acc.insert l (answer.map HostPatternRule.from)) with ⟨rules, hq, hok, hlookup⟩
        | ⟨l', hl', hfail⟩
      · refine Or.inl ⟨rules, hq, hok, ?_⟩
        intro locale
        rw [hlookup, Table.lookup_insert_eq]
        simp only [Plugin.answers, latestRules, ha]
        by_cases hl : locale = l
        · simp [hl, Except.toOption]
        · simp [hl]
      · exact Or.inr ⟨l', List.mem_cons_of_mem _ hl', hfail⟩

/-! ## The published index -/

namespace Registry

theorem insertRules_entries (skill : Text) (fresh : RuleIndex) (e : Σ _ : Text, List HostPatternRule)
    (locale : Text) : (insertRules skill fresh e).entries locale =
      fresh.entries locale ++ if e.1 = locale then e.2.map (fun rule => (rule, skill)) else [] := by
  obtain ⟨l, rules⟩ := e
  unfold insertRules
  simp only
  induction rules generalizing fresh with
  | nil => simp
  | cons rule rules ih =>
    rw [List.foldl_cons, ih, RuleIndex.entries_insert]
    by_cases hl : l = locale
    · simp [hl]
    · simp [hl, Ne.symm hl]

theorem foldl_entries {ε : Type} {step : RuleIndex → ε → RuleIndex} {added : ε → List RuleEntry}
    {locale : Text}
    (hstep : ∀ idx e, ((step idx e).entries locale).Perm (idx.entries locale ++ added e)) :
    ∀ (es : List ε) (idx : RuleIndex),
      ((es.foldl step idx).entries locale).Perm (idx.entries locale ++ es.flatMap added) := by
  intro es
  induction es with
  | nil => intro idx; simp
  | cons e es ih =>
    intro idx
    rw [List.foldl_cons, List.flatMap_cons, ← List.append_assoc]
    exact (ih (step idx e)).trans ((hstep idx e).append_right _)

theorem insertSkill_entries (order : IndexOrder) (fresh : RuleIndex) (e : Σ _ : Text, PluginRules)
    (locale : Text) : ((insertSkill order fresh e).entries locale).Perm (fresh.entries locale ++
      (e.2.lookup locale).elim [] (fun rules => rules.map (fun rule => (rule, e.1)))) := by
  have hperm := ((order.locales e.1).complete e.2.entries).flatMap_right
    (fun l => if l.1 = locale then l.2.map (fun rule => (rule, e.1)) else [])
  rw [Table.flatMap_at] at hperm
  exact (foldl_entries (fun idx l => List.Perm.of_eq (insertRules_entries e.1 idx l locale)) _ fresh).trans
    (hperm.append_left _)

/-- **The index.** Whatever the order of iteration, the published index holds
the rules of the rule store, each tagged with its skill. -/
theorem rebuildIndex_perm (r : Registry) (order : IndexOrder) (locale : Text) :
    ((r.rebuildIndex order).patterns.entries locale).Perm (r.pluginRules.keys.flatMap (fun name =>
      ((r.pluginRules.lookup name).bind (fun rules => rules.lookup locale)).elim []
        (fun rules => rules.map (fun rule => (rule, name))))) := by
  have hfold := foldl_entries (fun idx e => insertSkill_entries order idx e locale)
    (order.skills.order r.pluginRules.entries) .new
  have hperm := (order.skills.complete r.pluginRules.entries).flatMap_right
    (fun e => (e.2.lookup locale).elim [] (fun rules => rules.map (fun rule => (rule, e.1))))
  refine (hfold.trans hperm).trans (List.Perm.of_eq ?_)
  rw [Table.flatMap_entries r.pluginRules
    (fun name rules => (rules.lookup locale).elim [] (fun rules => rules.map (fun rule => (rule, name))))]
  apply List.flatMap_congr
  intro name _
  cases r.pluginRules.lookup name <;> rfl

end Registry

/-! ## Coherence -/

/-- The stores are views of the catalog. -/
structure Stores (c : Catalog) (r : Registry) : Prop where
  plugins : ∀ name, r.plugins.lookup name = (c name).map Skill.handle
  pluginRules : ∀ name, (r.pluginRules.lookup name).map (fun rules locale => rules.lookup locale) =
    (c name).map Skill.rules
  schemas : ∀ name, r.schemas.lookup name = (c name).bind Skill.schema

/-- And so is the published index, up to order. -/
structure Refines (c : Catalog) (r : Registry) : Prop extends Stores c r where
  patterns : ∀ locale, (r.patterns.entries locale).Perm (c.entries r.plugins.keys locale)

theorem Stores.same_keys {c : Catalog} {r : Registry} (S : Stores c r) (name : Text) :
    name ∈ r.plugins ↔ name ∈ r.pluginRules := by
  have hrules := congrArg Option.isSome (S.pluginRules name)
  rw [Table.mem_iff_isSome, Table.mem_iff_isSome, S.plugins name]
  simp only [Option.isSome_map] at hrules ⊢
  rw [hrules]

theorem Stores.rebuilt {c : Catalog} {r : Registry} (S : Stores c r) (order : IndexOrder) :
    Refines c (r.rebuildIndex order) where
  plugins := S.plugins
  pluginRules := S.pluginRules
  schemas := S.schemas
  patterns := by
    intro locale
    refine (Registry.rebuildIndex_perm r order locale).trans ?_
    have hview : ∀ name, (r.pluginRules.lookup name).bind (fun rules => rules.lookup locale) =
        (c name).bind (fun skill => skill.rules locale) := by
      intro name
      have h := congrArg (fun view => Option.bind view (fun rules => rules locale)) (S.pluginRules name)
      simpa [Option.bind_map, Function.comp_def] using h
    simp only [hview]
    exact (Table.keys_perm (fun name => (S.same_keys name).symm)).flatMap_right _

theorem refines_new : Refines (fun _ => none) .new where
  plugins := by intro name; rfl
  pluginRules := by intro name; rfl
  schemas := by intro name; rfl
  patterns := by intro locale; exact List.Perm.refl _

theorem queryRules_provides (name : Text) (plugin : Plugin) (locales : List Text) :
    (∃ rules skill, queryRules name plugin 0 locales ∅ = .ok rules ∧ plugin.provides locales = some skill ∧
      skill.handle = plugin.handle ∧ skill.schema = plugin.configSchema ∧
      ∀ locale, rules.lookup locale = skill.rules locale) ∨
    ∃ e, queryRules name plugin 0 locales ∅ = .error e ∧ plugin.provides locales = none := by
  rcases queryRules_spec name plugin locales 0 ∅ with ⟨rules, hq, hok, hlookup⟩
    | ⟨locale, -, source, hq, hfail⟩
  · refine Or.inl ⟨rules, _, hq, if_pos hok, rfl, rfl, ?_⟩
    intro locale
    rw [hlookup, AList.lookup_empty, Option.or_none]
  · exact Or.inr ⟨_, hq, if_neg (by rw [hfail]; exact Bool.false_ne_true)⟩

theorem putSchema_frame (r : Registry) (name : Text) (schema : Option ConfigSchema) :
    (r.putSchema name schema).plugins = r.plugins ∧ (r.putSchema name schema).pluginRules = r.pluginRules ∧
      (r.putSchema name schema).patterns = r.patterns := by
  cases schema <;> exact ⟨rfl, rfl, rfl⟩

theorem putSchema_lookup (r : Registry) (name : Text) (schema : Option ConfigSchema) (k : Text) :
    (r.putSchema name schema).schemas.lookup k = if k = name then schema else r.schemas.lookup k := by
  cases schema with
  | none => exact Table.lookup_erase_eq r.schemas name k
  | some s => exact Table.lookup_insert_eq r.schemas name k s

theorem Stores.put {c : Catalog} {r : Registry} {name : Text} {skill : Skill} {rules : PluginRules}
    (S : Stores c r) (hrules : ∀ locale, rules.lookup locale = skill.rules locale) :
    Stores (Function.update c name (some skill))
      (((r.putPlugin name skill.handle).putRules name rules).putSchema name skill.schema) := by
  obtain ⟨hplugins, hstore, -⟩ := putSchema_frame ((r.putPlugin name skill.handle).putRules name rules) name
    skill.schema
  refine ⟨?_, ?_, ?_⟩
  · intro k
    rw [hplugins, Function.update_apply]
    refine (Table.lookup_insert_eq r.plugins name k skill.handle).trans ?_
    rw [S.plugins k]
    split <;> rfl
  · intro k
    rw [hstore, Function.update_apply]
    refine (congrArg _ (Table.lookup_insert_eq r.pluginRules name k rules)).trans ?_
    split
    · exact congrArg some (funext hrules)
    · exact S.pluginRules k
  · intro k
    rw [putSchema_lookup, Function.update_apply]
    split
    · rfl
    · exact S.schemas k

theorem Stores.drop {c : Catalog} {r : Registry} (S : Stores c r) (name : Text) :
    Stores (Function.update c name none) (((r.dropPlugin name).dropRules name).dropSchema name) := by
  refine ⟨?_, ?_, ?_⟩
  · intro k
    rw [Function.update_apply]
    refine (Table.lookup_erase_eq r.plugins name k).trans ?_
    rw [S.plugins k]
    split <;> rfl
  · intro k
    rw [Function.update_apply]
    refine (congrArg _ (Table.lookup_erase_eq r.pluginRules name k)).trans ?_
    split
    · rfl
    · exact S.pluginRules k
  · intro k
    rw [Function.update_apply]
    refine (Table.lookup_erase_eq r.schemas name k).trans ?_
    rw [S.schemas k]
    split <;> rfl

theorem refines_install {c : Catalog} {r : Registry} (R : Refines c r) (name : Text) (plugin : Plugin)
    (locales : List Text) (order : IndexOrder) :
    Refines (c.install name (plugin.provides locales)) (r.install name plugin locales order).1 := by
  unfold Registry.install
  rcases queryRules_provides name plugin locales with ⟨rules, skill, hq, hp, hhandle, hschema,
    hrules⟩ | ⟨e, hq, hp⟩
  · rw [hq, hp, ← hhandle, ← hschema]
    exact (R.toStores.put hrules).rebuilt order
  · rw [hq, hp]
    exact R

theorem install_failed {r : Registry} {name : Text} {plugin : Plugin} {locales : List Text}
    {order : IndexOrder} {e : RegistryError} (h : (r.install name plugin locales order).2 = .error e) :
    (r.install name plugin locales order).1 = r := by
  unfold Registry.install at h ⊢
  cases hq : queryRules name plugin 0 locales ∅ with
  | error e' => rfl
  | ok rules =>
    rw [hq] at h
    cases h

theorem refines_remove {c : Catalog} {r : Registry} (R : Refines c r) (name : Text) (order : IndexOrder) :
    Refines (Function.update c name none) (r.remove name order).1 := by
  have S := R.toStores.drop name
  unfold Registry.remove
  simp only
  split
  · exact S.rebuilt order
  · rename_i hnot
    refine { toStores := S, patterns := ?_ }
    intro locale
    have hnone : c name = none := by
      rw [R.plugins name] at hnot
      simpa using hnot
    have habsent : name ∉ r.plugins := by
      rw [Table.mem_iff_isSome]
      exact hnot
    show (r.patterns.entries locale).Perm (Catalog.entries _ (r.plugins.erase name).keys locale)
    rw [Table.keys_erase_of_notMem habsent, ← hnone, Function.update_eq_self]
    exact R.patterns locale

theorem reloadPath_ok {path : Registry.SkillPath} {name : Text} (hstem : path.fileStem = some name)
    (r : Registry) (plugin : Plugin) (locales : List Text) (bus : Bool) (order : IndexOrder) :
    (r.reloadPath path (.ok plugin) locales bus order).1 = (r.install name plugin locales order).1 ∧
      (r.reloadPath path (.ok plugin) locales bus order).2.1 =
        (r.install name plugin locales order).2.map (fun _ => name) := by
  unfold Registry.reloadPath Registry.buildPluginFromFile
  rw [hstem]
  exact ⟨rfl, rfl⟩

theorem reloadPath_error {path : Registry.SkillPath} {built : Except Text Plugin} {e : RegistryError}
    (hbuild : Registry.buildPluginFromFile path built = .error e) (r : Registry) (locales : List Text)
    (bus : Bool) (order : IndexOrder) : (r.reloadPath path built locales bus order).1 = r := by
  unfold Registry.reloadPath
  rw [hbuild]

/-- **One operation.** It keeps the registry the view of its catalog. -/
theorem refines_apply {c : Catalog} {r : Registry} (R : Refines c r) (a : RegistryAction) :
    Refines (c.apply a) (r.apply a).1 := by
  cases a with
  | install name plugin locales order => exact refines_install R name plugin locales order
  | remove name order => exact refines_remove R name order
  | reloadPath path built locales bus order =>
    unfold Catalog.apply Registry.apply
    simp only
    cases hstem : path.fileStem with
    | none =>
      have hbuild : Registry.buildPluginFromFile path built = .error (.noStem path.display) := by
        unfold Registry.buildPluginFromFile
        rw [hstem]
      rw [reloadPath_error hbuild]
      exact R
    | some name =>
      cases built with
      | error source =>
        have hbuild : Registry.buildPluginFromFile path (.error source) = .error (.build name source) := by
          unfold Registry.buildPluginFromFile
          rw [hstem]
        rw [reloadPath_error hbuild]
        exact R
      | ok plugin =>
        rw [(reloadPath_ok hstem r plugin locales bus order).1]
        exact refines_install R name plugin locales order

theorem apply_failed {r : Registry} {a : RegistryAction} (h : (r.apply a).2.failed = true) :
    (r.apply a).1 = r := by
  cases a with
  | install name plugin locales order =>
    cases hresult : (r.install name plugin locales order).2 with
    | error e => exact install_failed hresult
    | ok u => simp [Registry.apply, hresult, Reply.failed] at h
  | remove name order => cases h
  | reloadPath path built locales bus order =>
    cases hbuild : Registry.buildPluginFromFile path built with
    | error e => exact reloadPath_error hbuild r locales bus order
    | ok x =>
      obtain ⟨name, plugin⟩ := x
      obtain ⟨hstem, rfl⟩ : path.fileStem = some name ∧ built = .ok plugin := by
        unfold Registry.buildPluginFromFile at hbuild
        cases hs : path.fileStem <;> cases built <;> simp [hs] at hbuild
        obtain ⟨rfl, rfl⟩ := hbuild
        exact ⟨rfl, rfl⟩
      obtain ⟨hr, hres⟩ := reloadPath_ok hstem r plugin locales bus order
      cases hresult : (r.install name plugin locales order).2 with
      | error e => exact hr.trans (install_failed hresult)
      | ok u => simp [Registry.apply, hres, hresult, Except.map, Reply.failed] at h

theorem refines_after (as : List RegistryAction) : Refines (Catalog.after as) (Registry.after as) := by
  have hfold : ∀ (as : List RegistryAction) (c : Catalog) (r : Registry), Refines c r →
      Refines (as.foldl Catalog.apply c) (as.foldl (fun r a => (r.apply a).1) r) := by
    intro as
    induction as with
    | nil => intro c r R; exact R
    | cons a as ih => intro c r R; exact ih _ _ (refines_apply R a)
  exact hfold as _ _ refines_new

/-- **Coherence.** After every sequence of operations, whatever the plugins and
the builder answer and whatever the order of iteration:
the rules are stored for the plugins that are there;
schemas are stored for plugins that are there, and each is the newest plugin's;
the plugins and rules stored are those of the last successful installations;
the published index holds, for each locale, exactly the rules of the installed
skills, each tagged with its name;
and an operation that fails leaves the registry as it was. -/
theorem registry_coherence (as : List RegistryAction) :
    (∀ name, name ∈ (Registry.after as).plugins ↔ name ∈ (Registry.after as).pluginRules) ∧
    (∀ name, name ∈ (Registry.after as).schemas → name ∈ (Registry.after as).plugins) ∧
    (∀ name, (Registry.after as).plugins.lookup name = (Catalog.after as name).map Skill.handle ∧
      ((Registry.after as).pluginRules.lookup name).map (fun rules locale => rules.lookup locale) =
        (Catalog.after as name).map Skill.rules ∧
      (Registry.after as).schemas.lookup name = (Catalog.after as name).bind Skill.schema) ∧
    (∀ locale, ((Registry.after as).patterns.entries locale).Perm
      ((Catalog.after as).entries (Registry.after as).plugins.keys locale)) ∧
    ∀ a, ((Registry.after as).apply a).2.failed = true →
      ((Registry.after as).apply a).1 = Registry.after as := by
  have R := refines_after as
  refine ⟨R.same_keys, ?_, fun name => ⟨R.plugins name, R.pluginRules name, R.schemas name⟩, R.patterns,
    fun a ha => apply_failed ha⟩
  intro name hname
  rw [Table.mem_iff_isSome] at hname ⊢
  rw [R.schemas name] at hname
  rw [R.plugins name]
  cases hc : Catalog.after as name with
  | none => simp [hc] at hname
  | some skill => rfl

/-- A clock with one rule; its next build no longer answers for French. -/
def clockPlugin (handle : Nat) (french : Bool) : Plugin :=
  { handle := handle
    patternRules := fun _ locale =>
      if locale = "en".toList || french then
        .ok [{ intent := "time.query".toList, phrases := ["what time is it".toList], slots := [] }]
      else .error "no such locale".toList
    configSchema := none }

def plainOrder : IndexOrder := { skills := .plain, locales := fun _ => .plain }

/-- The clock is installed, and its file saved again. -/
def installClock : List RegistryAction :=
  [.install "clock".toList (clockPlugin 1 true) ["en".toList, "fr".toList] plainOrder]

def saveClock : RegistryAction :=
  .reloadPath ⟨some "clock".toList, "clock.wasm".toList⟩ (.ok (clockPlugin 2 false))
    ["en".toList, "fr".toList] true plainOrder

/-- The first build stays in place. -/
theorem saveClock_failed :
    ((Registry.after installClock).apply saveClock).2.failed = true ∧
      ((Registry.after installClock).apply saveClock).1 = Registry.after installClock := by
  refine ⟨rfl, ?_⟩
  exact (registry_coherence installClock).2.2.2.2 saveClock rfl

end AthenaVoice.Wasm
