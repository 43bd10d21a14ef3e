import AthenaVoice.Admin.Writes

/-
  Which values are shown

  `list_skills` masks a value if its row is flagged, or if the schema in the
  registry declares its key secret. The flag is set when the value is written
  under such a schema, and stays. The registry drops the schema with the plugin:
  a value that comes from TOML, or was written while the schema was not there,
  is then shown as it is.

  What is proved:
    1. `mem_config` — what the listing shows of a skill.
    2. `flagged_iff` — over every run, a row is flagged exactly if its key was
       written while the loaded schema declared it secret.
    3. `masked_iff` — after every run, the listing masks all secrets exactly if
       each of them is declared by the schema now loaded or was so written.
-/

namespace AthenaVoice.Admin

open Lib Sdk

/-- The schema the skill's file exports. -/
def AdminState.exportedSchema (app : AppState) (s : AdminState) (name : Text) : Option ConfigSchema :=
  app.skills.bind (fun _ => (s.files.lookup name).bind WasmFile.configSchema)

/-- The key was submitted while the loaded schema declared it secret. -/
def SubmittedSecret (h : List Observation) (name key : Text) : Prop :=
  ∃ o ∈ h, ∃ values order, o.request = .putConfig name values order ∧ key ∈ values ∧
    key ∈ ConfigSchema.secretKeys (o.schema name)

/-- The key was written while the loaded schema declared it secret. -/
def StoredSecret (h : List Observation) (name key : Text) : Prop :=
  ∃ o ∈ h, (name, key) ∈ written o.trace ∧ key ∈ ConfigSchema.secretKeys (o.schema name)

/-- What must not be shown: the keys that the skill's own schema, on disk or
loaded, declares secret, and those ever submitted under such a schema. -/
def Secret (app : AppState) (s : AdminState) (h : List Observation) (name key : Text) : Prop :=
  key ∈ ConfigSchema.secretKeys (s.exportedSchema app name) ∨
    key ∈ ConfigSchema.secretKeys (s.loadedSchema app name) ∨
    SubmittedSecret h name key

/-- The key has a value, from a row or from TOML. -/
def HasValue (app : AppState) (s : AdminState) (name key : Text) : Prop :=
  key ≠ httpAllowlistKey ∧
    ((s.settings.lookup (name, key)).isSome = true ∨ ((app.base name).config.lookup key).isSome = true)

def Masked (app : AppState) (s : AdminState) (h : List Observation) : Prop :=
  ∀ e infos, (Prog.exec serve e s (handle app .listSkills)).2.2 = .skills infos → ∀ info ∈ infos,
    ∀ key value, (key, ConfigValue.plain value) ∈ info.config → ¬ Secret app s h info.name key

/-! ## The listing -/

theorem mergedConfig_isSome {app : AppState} {s : AdminState} {name key : Text} (hkey : key ≠ httpAllowlistKey) :
    ((mergedConfig app s.settings name).config.lookup key).isSome = true ↔ HasValue app s name key := by
  unfold mergedConfig HasValue
  rw [applySettings_config s.settings (app.base name) name hkey]
  cases s.settings.lookup (name, key) <;> simp [hkey]

/-- The keys masked in the listing of a skill. -/
def maskedKeys (app : AppState) (s : AdminState) (name : Text) : List Text :=
  secretRows (s.settings.rowsFor name) ++ ConfigSchema.secretKeys (s.loadedSchema app name)

/-- The config shown is the merged one, with these keys masked. -/
theorem mem_config {app : AppState} {s : AdminState} {name : Text} {disabled registryNames : List Text} {key : Text}
    {value : ConfigValue} :
    (key, value) ∈ (skillInfoOf app name (s.settings.rowsFor name) disabled registryNames
      (s.loadedSchema app name)).config ↔
      key ≠ httpAllowlistKey ∧ ∃ v, (mergedConfig app s.settings name).config.lookup key = some v ∧
        value = if key ∈ maskedKeys app s name then .secret (!v.isEmpty) else .plain v := by
  unfold skillInfoOf
  simp only
  rw [(List.perm_insertionSort _ _).mem_iff, List.mem_map]
  simp only [List.mem_filter, shown, Prod.mk.injEq]
  constructor
  · rintro ⟨⟨k, v⟩, ⟨hentry, hkey⟩, rfl, rfl⟩
    exact ⟨of_decide_eq_true hkey, v, List.mem_dlookup (AList.nodupKeys _) hentry, rfl⟩
  · rintro ⟨hkey, v, hlookup, rfl⟩
    exact ⟨⟨key, v⟩, ⟨List.of_mem_dlookup hlookup, decide_eq_true hkey⟩, rfl, rfl⟩

theorem ensures_skillInfos (app : AppState) (s : AdminState) (allRows : List SkillSettingRow)
    (disabled registryNames : List Text) : ∀ names : List Text,
    Prog.Ensures serve s (skillInfos app allRows disabled registryNames names) (fun s' _ infos =>
      s' = s ∧ infos = names.map
        (fun name => skillInfoOf app name (allRows.filter (fun r => r.skill == name)) disabled
        registryNames (s.loadedSchema app name))) := by
  intro names
  induction names with
  | nil => exact ⟨rfl, rfl⟩
  | cons name names ih =>
    have hone : Prog.Ensures serve s
        (skillInfo app name (allRows.filter (fun r => r.skill == name)) disabled registryNames) (fun s' _ info =>
          s' = s ∧ info = skillInfoOf app name (allRows.filter (fun r => r.skill == name)) disabled registryNames
            (s.loadedSchema app name)) := by
      unfold skillInfo AdminState.loadedSchema
      cases app.skills with
      | none => exact ⟨rfl, rfl⟩
      | some skills => exact fun _ => ⟨rfl, rfl⟩
    refine Prog.ensures_bind (Prog.ensures_mono hone ?_)
    rintro s₁ t₁ info ⟨rfl, rfl⟩
    refine Prog.ensures_bind (Prog.ensures_mono ih ?_)
    rintro s₂ t₂ infos ⟨rfl, rfl⟩
    exact ⟨rfl, rfl⟩

/-- What a listing of the state shows: each skill that has a value is there. -/
def Lists (app : AppState) (s : AdminState) (infos : List SkillInfo) : Prop :=
  (∀ info ∈ infos, ∃ disabled registryNames, info =
    skillInfoOf app info.name (s.settings.rowsFor info.name) disabled registryNames (s.loadedSchema app info.name)) ∧
  ∀ name key, HasValue app s name key → ∃ info ∈ infos, info.name = name

theorem mem_sortedSet {l : List Text} {a : Text} : a ∈ sortedSet l ↔ a ∈ l := by
  unfold sortedSet
  rw [(List.perm_insertionSort _ _).mem_iff, List.mem_dedup]

theorem lists_known (app : AppState) (s : AdminState) (disabled registryNames files : List Text) :
    Lists app s ((knownSkillNames app s.settings.rowsAll disabled registryNames files).map (fun name =>
      skillInfoOf app name (s.settings.rowsAll.filter (fun r => r.skill == name)) disabled registryNames
        (s.loadedSchema app name))) := by
  refine ⟨?_, ?_⟩
  · intro info hinfo
    obtain ⟨name, -, rfl⟩ := List.mem_map.mp hinfo
    exact ⟨disabled, registryNames, rfl⟩
  · rintro name key ⟨-, hvalue⟩
    refine ⟨_, List.mem_map.mpr ⟨name, mem_sortedSet.mpr ?_, rfl⟩, rfl⟩
    simp only [List.mem_append, List.mem_map]
    rcases hvalue with hrow | hbase
    · obtain ⟨row, hrow⟩ := Option.isSome_iff_exists.mp hrow
      exact Or.inl (Or.inl (Or.inr ⟨⟨name, key, row.value, row.isSecret⟩, Settings.mem_rowsAll.mpr hrow, rfl⟩))
    · refine Or.inl (Or.inl (Or.inl (Or.inl ?_)))
      show name ∈ app.basePerSkill
      rw [Table.mem_iff_isSome]
      unfold AppState.base at hbase
      cases hname : app.basePerSkill.lookup name with
      | none => simp [hname, SkillConfig.empty] at hbase
      | some base => rfl

theorem ensures_listSkills (app : AppState) (s : AdminState) :
    Prog.Ensures serve s (listSkills app) (fun _ _ r => ∀ infos, r = .skills infos → Lists app s infos) := by
  intro choice
  cases hrows : choice.failure with
  | some message =>
    simp only [serve, Choice.attempt, hrows]
    intro infos h
    cases h
  | none =>
    simp only [serve, Choice.attempt, hrows]
    intro choice
    cases hflags : choice.failure with
    | some message =>
      simp only [serve, Choice.attempt, hflags]
      intro infos h
      cases h
    | none =>
      simp only [serve, Choice.attempt, hflags]
      have hlist : ∀ disabled registryNames files, Prog.Ensures serve s
          (skillInfos app s.settings.rowsAll disabled registryNames
            (knownSkillNames app s.settings.rowsAll disabled registryNames files) >>= fun infos =>
              .ret (Response.skills infos)) (fun _ _ r => ∀ infos, r = .skills infos → Lists app s infos) := by
        intro disabled registryNames files
        refine Prog.ensures_bind (Prog.ensures_mono (ensures_skillInfos app s _ disabled registryNames _) ?_)
        rintro s' t infos ⟨-, rfl⟩ shown hshown
        cases hshown
        exact lists_known app s disabled registryNames files
      cases app.skills with
      | none => exact hlist _ [] []
      | some skills => exact fun _ choice => hlist _ _ _

theorem listSkills_answered (app : AppState) (s : AdminState) :
    ∃ infos, (Prog.exec serve (fun _ => calm) s (listSkills app)).2.2 = .skills infos := by
  rw [Prog.exec_const]
  have hanswer : Prog.Ensures (fun s (_ : Unit) c => serve s calm c) s (listSkills app)
      (fun _ _ r => ∃ infos, r = .skills infos) := by
    refine fun _ _ => ?_
    cases app.skills with
    | none =>
      exact Prog.ensures_bind (Prog.ensures_of_forall (fun _ _ infos => ⟨infos, rfl⟩) _ _)
    | some skills =>
      exact fun _ _ => Prog.ensures_bind (Prog.ensures_of_forall (fun _ _ infos => ⟨infos, rfl⟩) _ _)
  exact Prog.exec_of_ensures hanswer _

/-! ## The flags -/

/-- A row is flagged exactly if its key was written while the loaded schema
declared it secret. -/
def FlagsTrue (h : List Observation) (s : AdminState) : Prop :=
  ∀ name key, key ≠ httpAllowlistKey → (s.settings.Flagged name key ↔ StoredSecret h name key)

theorem flagsTrue_step {app : AppState} (h : List Observation) (s : AdminState) (a : Request × (Nat → Choice))
    (s' : AdminState) (o : List Observation) (hs : FlagsTrue h s) (hstep : (server app).step s a = some (s', o)) :
    FlagsTrue (h ++ o) s' := by
  cases hstep
  intro name key hkey
  have hstored : StoredSecret
    (h ++ [⟨a.1, s.loadedSchema app, (Prog.exec serve a.2 s (handle app a.1)).2.1⟩]) name key ↔
      StoredSecret h name key ∨ ((name, key) ∈ written (Prog.exec serve a.2 s (handle app a.1)).2.1 ∧
        key ∈ ConfigSchema.secretKeys (s.loadedSchema app name)) := by
    unfold StoredSecret
    simp only [List.mem_append, List.mem_singleton, or_and_right, exists_or, exists_eq_left]
  rw [hstored, ← hs name key hkey]
  rcases Prog.exec_of_ensures (ensures_handle app s a.1) a.2 with ⟨hsettings, hwritten⟩
    | ⟨n, values, order, done, -, hdone⟩
  · show (Prog.exec serve a.2 s (handle app a.1)).1.settings.Flagged name key ↔ _
    rw [hsettings, hwritten]
    simp
  · -- the rows are those after part of the values, whatever became of the allowlist
    have hrow : ((Prog.exec serve a.2 s (handle app a.1)).1.settings).Flagged name key ↔
        (storeAll n (flaggedKeys app s n) s.settings done).Flagged name key := by
      unfold Settings.Flagged
      rcases hdone.settings with heq | heq
      · rw [heq]
      · rw [heq, lookup_derive _ _ _ _ (Or.inr hkey)]
    rw [hdone.writes name key hkey]
    show ((Prog.exec serve a.2 s (handle app a.1)).1.settings).Flagged name key ↔ _
    rw [hrow, flagged_storeAll]
    by_cases hw : name = n ∧ ∃ e ∈ done, e.1 = key ∧ Stored (flaggedKeys app s n) e
    · rw [if_pos hw]
      obtain ⟨rfl, hw'⟩ := hw
      have hflagged : key ∈ flaggedKeys app s name ↔
          key ∈ ConfigSchema.secretKeys (s.loadedSchema app name) ∨ s.settings.Flagged name key := by
        unfold flaggedKeys
        rw [List.mem_append, mem_secretRows]
      rw [hflagged, or_comm]
      exact or_congr_right (iff_and_self.mpr (fun _ => ⟨rfl, hw'⟩))
    · rw [if_neg hw]
      exact ⟨Or.inl, fun h => h.resolve_right (fun h => hw h.1)⟩

/-- **Flags.** Over every sequence of requests from an empty table. -/
theorem flagged_iff {app : AppState} {skillState : Table Text Bool} {files : Table Text WasmFile}
    {registry : Wasm.Registry} {as : List (Request × (Nat → Choice))} {s : AdminState} {h : List Observation}
    (hrun : (server app).run (.fresh skillState files registry) as = some (s, h)) : FlagsTrue h s := by
  have hfresh : FlagsTrue [] (.fresh skillState files registry) := by
    intro name key _
    refine ⟨?_, ?_⟩
    · rintro ⟨value, hvalue⟩
      cases hvalue
    · rintro ⟨o, ho, -⟩
      cases ho
  exact Machine.run_invariant flagsTrue_step hfresh hrun

/-- **Masking.** After any sequence of requests, from any TOML config and no
stored settings, the listing shows no secret exactly if every secret that has a
value is declared by the schema now loaded or was written under a schema that
declared it. -/
theorem masked_iff {app : AppState} {skillState : Table Text Bool} {files : Table Text WasmFile}
    {registry : Wasm.Registry} {as : List (Request × (Nat → Choice))} {s : AdminState} {h : List Observation}
    (hrun : (server app).run (.fresh skillState files registry) as = some (s, h)) :
    Masked app s h ↔ ∀ name key, Secret app s h name key → HasValue app s name key →
      key ∈ ConfigSchema.secretKeys (s.loadedSchema app name) ∨ StoredSecret h name key := by
  have hflags := flagged_iff hrun
  have hmasked : ∀ name key, key ≠ httpAllowlistKey → (key ∈ maskedKeys app s name ↔
      key ∈ ConfigSchema.secretKeys (s.loadedSchema app name) ∨ StoredSecret h name key) := by
    intro name key hkey
    unfold maskedKeys
    rw [List.mem_append, mem_secretRows, hflags name key hkey, or_comm]
  constructor
  · intro hmask name key hsecret hvalue
    rw [← hmasked name key hvalue.1]
    by_contra hshown
    obtain ⟨infos, hinfos⟩ := listSkills_answered app s
    have hlists := Prog.exec_of_ensures (ensures_listSkills app s) (fun _ => calm) infos hinfos
    obtain ⟨info, hinfo, rfl⟩ := hlists.2 name key hvalue
    obtain ⟨disabled, registryNames, heq⟩ := hlists.1 info hinfo
    obtain ⟨v, hv⟩ := Option.isSome_iff_exists.mp ((mergedConfig_isSome hvalue.1).mpr hvalue)
    refine hmask _ infos hinfos info hinfo key v ?_ hsecret
    rw [heq]
    exact mem_config.mpr ⟨hvalue.1, v, hv, by rw [if_neg hshown]⟩
  · intro hall e infos hinfos info hinfo key value hplain hsecret
    have hlists := Prog.exec_of_ensures (ensures_listSkills app s) e infos hinfos
    obtain ⟨disabled, registryNames, heq⟩ := hlists.1 info hinfo
    rw [heq] at hplain
    obtain ⟨hkey, v, hv, hshown⟩ := mem_config.mp hplain
    have hvalue : HasValue app s info.name key := (mergedConfig_isSome hkey).mp (by rw [hv]; rfl)
    rw [if_pos ((hmasked info.name key hkey).mpr (hall info.name key hsecret hvalue))] at hshown
    cases hshown

/-- The jeedom skill, with its key in TOML. -/
def jeedomApp : AppState :=
  { plainApp with
    basePerSkill := (∅ : Table Text SkillConfig).insert "jeedom".toList
      { SkillConfig.empty with config := (∅ : Values).insert "api_key".toList "s3cret".toList } }

/-- A file whose schema declares that key secret. -/
def jeedomFiles : Table Text WasmFile :=
  (∅ : Table Text WasmFile).insert "jeedom".toList ⟨some ⟨[
    { key := "api_key".toList, label := "API key".toList, kind := .secret, required := true, help := [], default := []
      itemFields := [] }]⟩⟩

/-- Once disabled, the listing shows the key. -/
theorem disabled_key_shown :
    ∃ s h, (server jeedomApp).run (.fresh ∅ jeedomFiles .new)
        [(.enableSkill "jeedom".toList, fun _ => calm),
          (.disableSkill "jeedom".toList, fun _ => calm)] = some (s, h) ∧
      ¬ Masked jeedomApp s h := by
  refine ⟨_, _, rfl, ?_⟩
  intro hmask
  refine hmask (fun _ => calm) _ rfl _ List.mem_cons_self "api_key".toList "s3cret".toList (by decide) (Or.inl ?_)
  decide

/-- While it is loaded, it does not. -/
theorem loaded_key_masked :
    ∃ s h, (server jeedomApp).run (.fresh ∅ jeedomFiles .new) [(.enableSkill "jeedom".toList, fun _ => calm)] =
      some (s, h) ∧ Masked jeedomApp s h := by
  have hloaded : ∃ (s : AdminState) (h : List Observation), (server jeedomApp).run (.fresh ∅ jeedomFiles .new)
      [(.enableSkill "jeedom".toList, fun _ => calm)] = some (s, h) ∧ s.settings = ∅ ∧
      "api_key".toList ∈ ConfigSchema.secretKeys (s.loadedSchema jeedomApp "jeedom".toList) :=
    ⟨_, _, rfl, rfl, by decide⟩
  obtain ⟨s, h, hrun, hempty, hkey⟩ := hloaded
  refine ⟨s, h, hrun, (masked_iff hrun).mpr ?_⟩
  rintro name key - ⟨-, hrow | hbase⟩
  · rw [hempty] at hrow
    cases hrow
  · -- the one value in TOML
    unfold AppState.base jeedomApp at hbase
    rw [Table.lookup_insert_eq] at hbase
    by_cases hname : name = "jeedom".toList
    · rw [if_pos hname, Option.getD_some, Table.lookup_insert_eq] at hbase
      by_cases hk : key = "api_key".toList
      · rw [hname, hk]
        exact Or.inl hkey
      · rw [if_neg hk] at hbase
        cases hbase
    · rw [if_neg hname] at hbase
      cases hbase

end AthenaVoice.Admin
