import AthenaVoice.Admin.Validate
import AthenaVoice.Lib.Codec

/-
  Stored settings over the TOML base — `wasm/settings.rs`, `skill_settings`

  A row overrides the TOML key of its name; the row of the reserved key holds
  the allowed hosts as JSON and overrides the whole TOML allowlist instead. The
  rows are one table keyed by skill and key. `serde_json` on a list of strings
  is a codec.

  What is proved:
    1. `mem_rowsFor`, `pairs_rowsFor_nodup` — the rows read for a skill are those
       stored for it, one of each key.
    2. `applySettings_config`, `applySettings_httpAllowlist` — what a key and the
       allowlist are once the rows of a skill are applied.

  Correspondence (Rust ↔ Lean):
    `SkillConfig`, `SkillSettingRow`  the same
    `apply_settings`                  `applySettings`
    `skill_settings_for`, `…_all`     `rowsFor`, `rowsAll`
-/

namespace AthenaVoice.Admin

open Lib Sdk

structure SkillConfig where
  httpAllowlist : List Text
  mqttPublishAllowlist : List Text
  config : Values
  retentionGcAfterSec : Option Nat
  configFile : Option Text

/-- `SkillConfig::default`. -/
def SkillConfig.empty : SkillConfig :=
  { httpAllowlist := [], mqttPublishAllowlist := [], config := ∅, retentionGcAfterSec := none, configFile := none }

def httpAllowlistKey : Text := "$http_allowlist".toList

structure SkillSettingRow where
  skill : Text
  key : Text
  value : Text
  isSecret : Bool
  deriving DecidableEq, Repr

/-- What a row holds beside its primary key. -/
structure Setting where
  value : Text
  isSecret : Bool
  deriving DecidableEq, Repr

/-- The `skill_settings` table. -/
abbrev Settings := Table (Text × Text) Setting

/-- One turn of the loop of `apply_settings`. -/
def applySetting (hosts : Codec (List Text) Text) (out : SkillConfig) (row : Text × Text) : SkillConfig :=
  if row.1 = httpAllowlistKey then
    match hosts.decode row.2 with
    | some allowed => { out with httpAllowlist := allowed }
    | none => out
  else { out with config := out.config.insert row.1 row.2 }

def applySettings (hosts : Codec (List Text) Text) (base : SkillConfig) (rows : List (Text × Text)) : SkillConfig :=
  rows.foldl (applySetting hosts) base

/-- The key and value of each row. -/
def pairs (rows : List SkillSettingRow) : List (Text × Text) := rows.map (fun r => (r.key, r.value))

/-- `ORDER BY`: rows by skill, then by key. -/
def rowLe (a b : SkillSettingRow) : Prop :=
  keyLt b.skill a.skill = false ∧ (a.skill = b.skill → keyLt b.key a.key = false)

instance : DecidableRel rowLe := fun a b => by unfold rowLe; infer_instance

/-- `skill_settings_all`. -/
def Settings.rowsAll (t : Settings) : List SkillSettingRow :=
  (t.entries.map (fun e =>
    { skill := e.1.1, key := e.1.2, value := e.2.value, isSecret := e.2.isSecret })).insertionSort
    rowLe

/-- `skill_settings_for`. -/
def Settings.rowsFor (t : Settings) (skill : Text) : List SkillSettingRow :=
  t.rowsAll.filter (fun r => r.skill == skill)

/-! ## The rows of a skill -/

theorem Settings.mem_rowsAll {t : Settings} {r : SkillSettingRow} :
    r ∈ t.rowsAll ↔ t.lookup (r.skill, r.key) = some ⟨r.value, r.isSecret⟩ := by
  unfold rowsAll
  rw [(List.perm_insertionSort rowLe _).mem_iff, List.mem_map]
  constructor
  · rintro ⟨e, he, rfl⟩
    exact List.mem_dlookup t.nodupKeys he
  · intro h
    exact ⟨⟨(r.skill, r.key), ⟨r.value, r.isSecret⟩⟩, List.of_mem_dlookup h, rfl⟩

/-- The rows read for a skill are those stored for it. -/
theorem Settings.mem_rowsFor {t : Settings} {skill : Text} {r : SkillSettingRow} :
    r ∈ t.rowsFor skill ↔ r.skill = skill ∧ t.lookup (skill, r.key) = some ⟨r.value, r.isSecret⟩ := by
  unfold rowsFor
  rw [List.mem_filter, mem_rowsAll, beq_iff_eq]
  constructor
  · rintro ⟨hlookup, rfl⟩
    exact ⟨rfl, hlookup⟩
  · rintro ⟨rfl, hlookup⟩
    exact ⟨hlookup, rfl⟩

theorem Settings.rowsAll_nodup (t : Settings) : t.rowsAll.Nodup := by
  unfold rowsAll
  rw [(List.perm_insertionSort rowLe _).nodup_iff]
  refine List.Nodup.map_on ?_ t.nodupKeys.nodup
  rintro ⟨⟨skill, key⟩, value⟩ - ⟨⟨skill', key'⟩, value'⟩ - h
  simp only [SkillSettingRow.mk.injEq] at h
  obtain ⟨rfl, rfl, hvalue, hsecret⟩ := h
  have hsame : value = value' := by
    cases value
    cases value'
    simp_all
  rw [hsame]

/-- A skill has one row of each key. -/
theorem Settings.pairs_rowsFor_nodup (t : Settings) (skill : Text) :
    ((pairs (t.rowsFor skill)).map Prod.fst).Nodup := by
  unfold pairs
  rw [List.map_map]
  refine List.Nodup.map_on ?_ (t.rowsAll_nodup.filter _)
  intro a ha b hb hkey
  have hkey' : a.key = b.key := hkey
  obtain ⟨hskill, hvalue⟩ := mem_rowsFor.mp ha
  obtain ⟨hskill', hvalue'⟩ := mem_rowsFor.mp hb
  rw [hkey', hvalue'] at hvalue
  cases a
  cases b
  simp_all

theorem Settings.mem_pairs_rowsFor {t : Settings} {skill key value : Text} :
    (key, value) ∈ pairs (t.rowsFor skill) ↔ ∃ isSecret, t.lookup (skill, key) = some ⟨value, isSecret⟩ := by
  unfold pairs
  rw [List.mem_map]
  constructor
  · rintro ⟨r, hr, heq⟩
    cases heq
    exact ⟨r.isSecret, (mem_rowsFor.mp hr).2⟩
  · rintro ⟨isSecret, h⟩
    exact ⟨⟨skill, key, value, isSecret⟩, mem_rowsFor.mpr ⟨rfl, h⟩, rfl⟩

/-! ## What is applied -/

variable {hosts : Codec (List Text) Text}

theorem applySettings_config_of_notMem {k : Text} : ∀ {rows : List (Text × Text)} {base : SkillConfig},
    (k = httpAllowlistKey ∨ k ∉ rows.map Prod.fst) →
      (applySettings hosts base rows).config.lookup k = base.config.lookup k := by
  intro rows
  induction rows with
  | nil =>
    intro base _
    rfl
  | cons row rows ih =>
    intro base hk
    have hrest : k = httpAllowlistKey ∨ k ∉ rows.map Prod.fst :=
      hk.imp_right (fun h hm => h (List.mem_cons_of_mem _ hm))
    refine (ih hrest).trans ?_
    unfold applySetting
    split
    · split <;> rfl
    · rename_i hrow
      show (base.config.insert row.1 row.2).lookup k = _
      rw [Table.lookup_insert_eq, if_neg]
      rintro rfl
      rcases hk with h | h
      · exact hrow h
      · exact h List.mem_cons_self

theorem applySettings_config_of_mem {k v : Text} (hk : k ≠ httpAllowlistKey) :
    ∀ {rows : List (Text × Text)} {base : SkillConfig}, (rows.map Prod.fst).Nodup → (k, v) ∈ rows →
      (applySettings hosts base rows).config.lookup k = some v := by
  intro rows
  induction rows with
  | nil =>
    intro base _ hm
    cases hm
  | cons row rows ih =>
    intro base hnodup hm
    have hnodup' := List.nodup_cons.mp hnodup
    rcases List.mem_cons.mp hm with rfl | hm'
    · -- the row is the last word on its key
      refine (applySettings_config_of_notMem (Or.inr hnodup'.1)).trans ?_
      unfold applySetting
      rw [if_neg hk]
      show (base.config.insert k v).lookup k = _
      rw [Table.lookup_insert_eq, if_pos rfl]
    · exact ih hnodup'.2 hm'

/-- The key of a skill: its row, or the base. -/
theorem applySettings_config (t : Settings) (base : SkillConfig) (skill : Text) {k : Text}
    (hk : k ≠ httpAllowlistKey) :
    (applySettings hosts base (pairs (t.rowsFor skill))).config.lookup k =
      ((t.lookup (skill, k)).map Setting.value).or (base.config.lookup k) := by
  cases hrow : t.lookup (skill, k) with
  | some row =>
    exact applySettings_config_of_mem hk (t.pairs_rowsFor_nodup skill)
      (Settings.mem_pairs_rowsFor.mpr ⟨row.isSecret, hrow⟩)
  | none =>
    refine applySettings_config_of_notMem (Or.inr ?_)
    intro hm
    obtain ⟨⟨k', v⟩, hmem, rfl⟩ := List.mem_map.mp hm
    obtain ⟨isSecret, h⟩ := Settings.mem_pairs_rowsFor.mp hmem
    rw [hrow] at h
    cases h

theorem applySettings_httpAllowlist_of_notMem : ∀ {rows : List (Text × Text)} {base : SkillConfig},
    httpAllowlistKey ∉ rows.map Prod.fst → (applySettings hosts base rows).httpAllowlist = base.httpAllowlist := by
  intro rows
  induction rows with
  | nil =>
    intro base _
    rfl
  | cons row rows ih =>
    intro base hk
    refine (ih (fun hm => hk (List.mem_cons_of_mem _ hm))).trans ?_
    unfold applySetting
    rw [if_neg]
    intro h
    exact hk (by rw [← h]; exact List.mem_cons_self)

theorem applySettings_httpAllowlist_of_mem {v : Text} {allowed : List Text} (hv : hosts.decode v = some allowed) :
    ∀ {rows : List (Text × Text)} {base : SkillConfig}, (rows.map Prod.fst).Nodup →
      (httpAllowlistKey, v) ∈ rows →
      (applySettings hosts base rows).httpAllowlist = allowed := by
  intro rows
  induction rows with
  | nil =>
    intro base _ hm
    cases hm
  | cons row rows ih =>
    intro base hnodup hm
    have hnodup' := List.nodup_cons.mp hnodup
    rcases List.mem_cons.mp hm with rfl | hm'
    · refine (applySettings_httpAllowlist_of_notMem hnodup'.1).trans ?_
      unfold applySetting
      rw [if_pos rfl]
      simp only [hv]
    · exact ih hnodup'.2 hm'

/-- The allowlist of a skill: the base's without a row, the row's with one. -/
theorem applySettings_httpAllowlist (t : Settings) (base : SkillConfig) (skill : Text) :
    (t.lookup (skill, httpAllowlistKey) = none →
      (applySettings hosts base (pairs (t.rowsFor skill))).httpAllowlist = base.httpAllowlist) ∧
    ∀ allowed isSecret, t.lookup (skill, httpAllowlistKey) = some ⟨hosts.encode allowed, isSecret⟩ →
      (applySettings hosts base (pairs (t.rowsFor skill))).httpAllowlist = allowed := by
  refine ⟨?_, ?_⟩
  · intro hnone
    apply applySettings_httpAllowlist_of_notMem
    intro hm
    obtain ⟨⟨k', v⟩, hmem, rfl⟩ := List.mem_map.mp hm
    obtain ⟨isSecret, h⟩ := Settings.mem_pairs_rowsFor.mp hmem
    rw [hnone] at h
    cases h
  · intro allowed isSecret hrow
    exact applySettings_httpAllowlist_of_mem (hosts.decode_encode allowed) (t.pairs_rowsFor_nodup skill)
      (Settings.mem_pairs_rowsFor.mpr ⟨isSecret, hrow⟩)

end AthenaVoice.Admin
