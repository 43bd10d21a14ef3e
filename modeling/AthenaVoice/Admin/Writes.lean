import AthenaVoice.Admin.Api

/-
  What a config write stores

  `put_config` stores the submitted values one at a time, each flagged secret if
  the loaded schema says so or the row already was, and leaves out blank
  secrets. Then it may store one more row, the derived allowlist. A failure in
  between leaves the rows stored so far.

  What is proved:
    1. `ensures_of_keepsSettings` — the other handlers write no setting.
    2. `ensures_putConfig` — the rows after a config write, whether it was saved,
       refused or cut short, and which writes it made.
    3. `lookup_stored`, `secret_stored` — one row after the values are stored.
-/

namespace AthenaVoice.Admin

open Lib Sdk

/-- The schema `put_config` and `skill_info` find. -/
def AdminState.loadedSchema (app : AppState) (s : AdminState) (name : Text) : Option ConfigSchema :=
  app.skills.bind (fun _ => s.registry.schemas.lookup name)

def wrote : (Σ c : Op, c.Answer) → Option (Text × Text)
  | ⟨.skillSettingSet skill key _ _, .ok ()⟩ => some (skill, key)
  | _ => none

def written (t : Prog.Trace Op Op.Answer) : List (Text × Text) := t.filterMap wrote

/-- The value is stored: it is not a blank secret. -/
def Stored (secretKeys : List Text) (e : Σ _ : Text, Text) : Prop := ¬ (e.1 ∈ secretKeys ∧ Str.trim e.2 = [])

instance (secretKeys : List Text) (e : Σ _ : Text, Text) : Decidable (Stored secretKeys e) := by
  unfold Stored
  infer_instance

/-- The rows once a value is stored. -/
def store (name : Text) (secretKeys : List Text) (t : Settings) (e : Σ _ : Text, Text) : Settings :=
  if Stored secretKeys e then t.insert (name, e.1) ⟨e.2, decide (e.1 ∈ secretKeys)⟩ else t

/-- The rows once the values are. -/
def storeAll (name : Text) (secretKeys : List Text) (t : Settings) (values : List (Σ _ : Text, Text)) : Settings :=
  values.foldl (store name secretKeys) t

/-- The config of the skill under the rows. -/
def mergedConfig (app : AppState) (t : Settings) (name : Text) : SkillConfig :=
  applySettings app.hosts (app.base name) (pairs (t.rowsFor name))

/-- The rows once the allowlist is derived from them. -/
def derive (app : AppState) (name : Text) (schema : Option ConfigSchema) (t : Settings) : Settings :=
  match schema with
  | none => t
  | some schema =>
    let allowed := derivedAllowlist schema (mergedConfig app t name).config
    if allowed.isEmpty then t else t.insert (name, httpAllowlistKey) ⟨app.hosts.encode allowed, false⟩

/-- The keys a config write flags as secret. -/
def flaggedKeys (app : AppState) (s : AdminState) (name : Text) : List Text :=
  ConfigSchema.secretKeys (s.loadedSchema app name) ++ secretRows (s.settings.rowsFor name)

/-! ## Handlers that write no setting -/

/-- A call that writes no setting. -/
def Op.KeepsSettings : Op → Prop
  | .skillSettingSet _ _ _ _ => False
  | _ => True

theorem keepsSettings_of_harmless {c : Op} (h : c.Harmless) : c.KeepsSettings := by
  cases c with
  | skillSettingSet skill key value isSecret => exact h
  | _ => trivial

theorem ensures_of_keepsSettings {α : Type} {p : Handler α} (hp : p.Uses Op.KeepsSettings) : ∀ s : AdminState,
    Prog.Ensures serve s p (fun s' t _ => s'.settings = s.settings ∧ written t = []) := by
  induction p with
  | ret a =>
    intro s
    exact ⟨rfl, rfl⟩
  | call c next ih =>
    intro s e
    apply Prog.ensures_mono (ih _ (hp.2 _) _)
    rintro s' t a ⟨hsettings, hwritten⟩
    have hc := hp.1
    refine ⟨hsettings.trans ((serve_frame s e c).1 ?_), ?_⟩
    · rintro skill key value isSecret rfl
      exact hc
    · have hnone : wrote ⟨c, (serve s e c).2⟩ = none := by
        cases c <;> first | rfl | exact absurd hc id
      unfold written at hwritten ⊢
      rw [List.filterMap_cons, hnone]
      exact hwritten

theorem disableSkill_keepsSettings (app : AppState) (name : Text) : (disableSkill app name).Uses Op.KeepsSettings := by
  unfold disableSkill
  split
  · refine ⟨trivial, ?_⟩
    intro result
    cases result with
    | error e => trivial
    | ok u =>
      simp only
      cases app.skills with
      | none => trivial
      | some handle => exact ⟨trivial, fun _ => trivial⟩
  · trivial

/-! ## The values -/

theorem ensures_writeValue (name : Text) (secretKeys : List Text) (e : Σ _ : Text, Text) (s : AdminState) :
    Prog.Ensures serve s (writeValue name secretKeys e) (fun s' t r =>
      match r with
      | none => s' = { s with settings := store name secretKeys s.settings e } ∧
          written t = if Stored secretKeys e then [(name, e.1)] else []
      | some answer => s' = s ∧ written t = [] ∧ Stored secretKeys e ∧
          ∃ message, answer = internalError message) := by
  unfold writeValue
  simp only
  split
  · -- a blank secret: nothing is called
    rename_i hblank
    have hskip : ¬ Stored secretKeys e := by
      simp only [Bool.and_eq_true, decide_eq_true_eq, List.isEmpty_iff] at hblank
      exact fun h => h hblank
    refine ⟨?_, ?_⟩
    · rw [store, if_neg hskip]
    · rw [if_neg hskip]
      rfl
  · rename_i hkept
    have hstored : Stored secretKeys e := by
      simpa [Stored] using hkept
    intro choice
    cases hfail : choice.failure with
    | some message =>
      simp only [serve, hfail]
      exact ⟨rfl, rfl, hstored, message, rfl⟩
    | none =>
      simp only [serve, hfail]
      refine ⟨?_, ?_⟩
      · rw [store, if_pos hstored]
      · rw [if_pos hstored]
        rfl

theorem storeAll_concat (name : Text) (secretKeys : List Text) (t : Settings) (done : List (Σ _ : Text, Text))
    (e : Σ _ : Text, Text) :
    storeAll name secretKeys t (done ++ [e]) = store name secretKeys (storeAll name secretKeys t done) e :=
  List.foldl_concat ..

theorem written_append (t t' : Prog.Trace Op Op.Answer) : written (t ++ t') = written t ++ written t' :=
  List.filterMap_append

/-- The rows and the writes after part of the values. -/
structure ValuesStored (name : Text) (secretKeys : List Text) (s : AdminState) (s' : AdminState)
    (done : List (Σ _ : Text, Text)) (t : Prog.Trace Op Op.Answer) : Prop where
  state : s' = { s with settings := storeAll name secretKeys s.settings done }
  writes : ∀ n k, (n, k) ∈ written t ↔ n = name ∧ ∃ e ∈ done, e.1 = k ∧ Stored secretKeys e

theorem ValuesStored.concat {name : Text} {secretKeys : List Text} {s s₁ : AdminState}
    {done : List (Σ _ : Text, Text)} {e : Σ _ : Text, Text} {t t' : Prog.Trace Op Op.Answer}
    (h : ValuesStored name secretKeys s s₁ done t)
    (ht' : written t' = if Stored secretKeys e then [(name, e.1)] else []) :
    ValuesStored name secretKeys s { s₁ with settings := store name secretKeys s₁.settings e } (done ++ [e])
      (t ++ t') where
  state := by rw [h.state, storeAll_concat]
  writes := by
    intro n k
    rw [written_append, List.mem_append, h.writes, ht']
    refine ⟨?_, ?_⟩
    · rintro (⟨hname, d, hd, hk, hstored⟩ | hnew)
      · exact ⟨hname, d, List.mem_append_left _ hd, hk, hstored⟩
      · split at hnew
        · rename_i hstored
          cases List.mem_singleton.mp hnew
          exact ⟨rfl, e, List.mem_append_right _ List.mem_cons_self, rfl, hstored⟩
        · cases hnew
    · rintro ⟨rfl, d, hd, rfl, hstored⟩
      rcases List.mem_append.mp hd with hold | hnew
      · exact Or.inl ⟨rfl, d, hold, rfl, hstored⟩
      · cases List.mem_singleton.mp hnew
        rw [if_pos hstored]
        exact Or.inr List.mem_cons_self

/-- The loop over the values: all of them are stored, or those before one whose
write failed. -/
theorem ensures_writeValues (name : Text) (secretKeys : List Text) (values : List (Σ _ : Text, Text))
    (s : AdminState) :
    Prog.Ensures serve s (Prog.forEach (writeValue name secretKeys) values) (fun s' t r =>
      ∃ done, ValuesStored name secretKeys s s' done t ∧
        match r with
        | none => done = values
        | some answer => (∃ message, answer = internalError message) ∧
            ∃ d rest, values = done ++ d :: rest ∧ Stored secretKeys d) := by
  apply Prog.ensures_forEach (I := fun s' done t => ValuesStored name secretKeys s s' done t)
  · intro s₁ done e rest t hvalues hdone
    apply Prog.ensures_mono (ensures_writeValue name secretKeys e s₁)
    intro s' t' r hturn
    cases r with
    | none =>
      obtain ⟨rfl, ht'⟩ := hturn
      exact hdone.concat ht'
    | some answer =>
      obtain ⟨rfl, ht', hstored, hmessage⟩ := hturn
      refine ⟨done, ⟨hdone.state, ?_⟩, hmessage, e, rest, hvalues, hstored⟩
      intro n k
      rw [written_append, ht', List.append_nil]
      exact hdone.writes n k
  · intro s' t hI
    exact ⟨values, hI, rfl⟩
  · exact ⟨rfl, fun n k => by simp [written]⟩

/-! ## The whole write -/

theorem ensures_deriveAllowlist (app : AppState) (name : Text) (schema : Option ConfigSchema) (s : AdminState) :
    Prog.Ensures serve s (deriveAllowlist app name schema) (fun s' t r =>
      (∀ n k, (n, k) ∈ written t → n = name ∧ k = httpAllowlistKey) ∧
        match r with
        | none => s' = { s with settings := derive app name schema s.settings }
        | some answer => s' = s ∧ schema.isSome = true ∧ ∃ message, answer = internalError message) := by
  cases schema with
  | none => exact ⟨fun n k h => (by cases h), rfl⟩
  | some schema =>
    intro choice
    -- the storage may fail on the read, and again on the write
    cases hread : choice.failure with
    | some message =>
      simp only [serve, Choice.attempt, hread]
      exact ⟨fun n k h => (by cases h), rfl, rfl, message, rfl⟩
    | none =>
      simp only [serve, Choice.attempt, hread]
      by_cases hempty : (derivedAllowlist schema (mergedConfig app s.settings name).config).isEmpty = true
      · have hsame : derive app name (some schema) s.settings = s.settings := if_pos hempty
        unfold mergedConfig at hempty
        rw [if_pos hempty, hsame]
        exact ⟨fun n k h => (by cases h), rfl⟩
      · have hderive : derive app name (some schema) s.settings = s.settings.insert (name, httpAllowlistKey)
            ⟨app.hosts.encode (derivedAllowlist schema (mergedConfig app s.settings name).config),
              false⟩ := if_neg hempty
        unfold mergedConfig at hempty
        rw [if_neg hempty, hderive]
        intro choice
        cases hwrite : choice.failure with
        | some message =>
          simp only [serve, hwrite]
          exact ⟨fun n k h => (by cases h), rfl, rfl, message, rfl⟩
        | none =>
          simp only [serve, hwrite]
          refine ⟨?_, rfl⟩
          intro n k h
          have hrow : (name, httpAllowlistKey) = (n, k) := by simpa [written, wrote] using h
          cases hrow
          exact ⟨rfl, rfl⟩

/-- What a config write leaves: the rows, and the writes it made. -/
structure ConfigStored (app : AppState) (s : AdminState) (name : Text) (values : List (Σ _ : Text, Text))
    (s' : AdminState) (t : Prog.Trace Op Op.Answer) (r : Response) (done : List (Σ _ : Text, Text)) : Prop where
  part : done <+: values
  unreserved : ∀ e ∈ done, "$".toList.isPrefixOf e.1 = false
  settings : s'.settings = storeAll name (flaggedKeys app s name) s.settings done ∨
    s'.settings = derive app name (s.loadedSchema app name) (storeAll name (flaggedKeys app s name) s.settings done)
  writes : ∀ n k, k ≠ httpAllowlistKey →
    ((n, k) ∈ written t ↔ n = name ∧ ∃ e ∈ done, e.1 = k ∧ Stored (flaggedKeys app s name) e)
  saved : ∀ reloadError, r = .saved reloadError → done = values ∧
    s'.settings = derive app name (s.loadedSchema app name) (storeAll name (flaggedKeys app s name) s.settings values)

theorem configStored_refused (app : AppState) (s : AdminState) (name : Text) (values : List (Σ _ : Text, Text))
    (status : Nat) (error : Text) {s' : AdminState} {t : Prog.Trace Op Op.Answer} (hs : s'.settings = s.settings)
    (ht : written t = []) : ConfigStored app s name values s' t (.refused status error) [] where
  part := List.nil_prefix
  unreserved := fun _ h => by cases h
  settings := Or.inl hs
  writes := fun n k _ => by rw [ht]; simp
  saved := fun _ h => by cases h

theorem ensures_writeConfig (app : AppState) (s : AdminState) (name : Text) (values : List (Σ _ : Text, Text))
    (hvalues : ∀ e ∈ values, "$".toList.isPrefixOf e.1 = false) :
    Prog.Ensures serve s (writeConfig app name (s.loadedSchema app name) values) (fun s' t r =>
      ∃ done, ConfigStored app s name values s' t r done) := by
  intro choice
  cases hread : choice.failure with
  | some message =>
    simp only [serve, Choice.attempt, hread]
    exact ⟨[], configStored_refused app s name values 500 message rfl rfl⟩
  | none =>
    simp only [serve, Choice.attempt, hread]
    refine Prog.ensures_bind (Prog.ensures_mono
      (ensures_writeValues name (flaggedKeys app s name) values s) ?_)
    rintro s₁ t₁ r ⟨done, hstored, hend⟩
    cases r with
    | some answer =>
      -- a write failed
      obtain ⟨⟨message, rfl⟩, d, rest, rfl, -⟩ := hend
      have hpart : done <+: done ++ d :: rest := List.prefix_append _ _
      refine ⟨done, hpart, fun e he => hvalues e (hpart.subset he), Or.inl (by rw [hstored.state]), ?_,
        fun _ h => by cases h⟩
      intro n k _
      simpa [written, wrote] using hstored.writes n k
    | none =>
      cases hend
      refine Prog.ensures_bind (Prog.ensures_mono (ensures_deriveAllowlist app name (s.loadedSchema app name) s₁) ?_)
      rintro s₂ t₂ r ⟨hlist, hend⟩
      have hs₁ : s₁.settings = storeAll name (flaggedKeys app s name) s.settings values := by rw [hstored.state]
      have hwrites : ∀ n k, k ≠ httpAllowlistKey → ((n, k) ∈ written t₁ ++ written t₂ ↔
          n = name ∧ ∃ e ∈ values, e.1 = k ∧ Stored (flaggedKeys app s name) e) := by
        intro n k hk
        rw [List.mem_append, hstored.writes]
        exact ⟨fun h => h.resolve_right (fun h => hk (hlist n k h).2), Or.inl⟩
      cases r with
      | some answer =>
        obtain ⟨rfl, -, message, rfl⟩ := hend
        refine ⟨values, List.prefix_refl _, hvalues, Or.inl hs₁, ?_, fun _ h => by cases h⟩
        intro n k hk
        show (n, k) ∈ written (t₁ ++ (t₂ ++ [])) ↔ _
        rw [List.append_nil, written_append]
        exact hwrites n k hk
      | none =>
        have hs₂ : s₂.settings = derive app name (s.loadedSchema app name)
            (storeAll name (flaggedKeys app s name) s.settings values) := by
          rw [hend, ← hs₁]
        refine Prog.ensures_bind (Prog.ensures_mono (ensures_of_keepsSettings
          (Prog.uses_mono (fun _ => keepsSettings_of_harmless) (reloadSkill_harmless app name)) s₂) ?_)
        rintro s₃ t₃ result ⟨hs₃, ht₃⟩
        refine ⟨values, List.prefix_refl _, hvalues, Or.inr (hs₃.trans hs₂), ?_,
          fun _ _ => ⟨rfl, hs₃.trans hs₂⟩⟩
        intro n k hk
        show (n, k) ∈ written (t₁ ++ (t₂ ++ (t₃ ++ []))) ↔ _
        rw [List.append_nil, written_append, written_append, ht₃, List.append_nil]
        exact hwrites n k hk

/-- **A config write.** The rows stored are a first part of the values, in order,
and all of them if it was saved, with the allowlist derived from them. -/
theorem ensures_putConfig (app : AppState) (s : AdminState) (name : Text) (values : Values)
    (order : Readout (Σ _ : Text, Text)) :
    Prog.Ensures serve s (putConfig app name values order) (fun s' t r =>
      ∃ done, ConfigStored app s name (order.order values.entries) s' t r done) := by
  have hcheck : Prog.Ensures serve s (checkConfig app name values order (s.loadedSchema app name)) (fun s' t r =>
      ∃ done, ConfigStored app s name (order.order values.entries) s' t r done) := by
    unfold checkConfig
    split
    · exact ⟨[], configStored_refused app s name _ _ _ rfl rfl⟩
    · split
      · exact ⟨[], configStored_refused app s name _ _ _ rfl rfl⟩
      · rename_i hfind
        apply ensures_writeConfig app s name _
        intro e he
        exact Bool.eq_false_iff.mpr (List.find?_eq_none.mp hfind e he)
  unfold putConfig
  split
  · unfold AdminState.loadedSchema at hcheck
    cases hskills : app.skills with
    | none =>
      simp only [hskills, Option.bind_none] at hcheck
      exact hcheck
    | some skills =>
      simp only [hskills, Option.bind_some] at hcheck
      intro choice
      apply Prog.ensures_mono hcheck
      rintro s' t r ⟨done, h⟩
      refine ⟨done, h.part, h.unreserved, h.settings, ?_, h.saved⟩
      intro n k hk
      simpa [written, wrote] using h.writes n k hk
  · exact ⟨[], configStored_refused app s name _ _ _ rfl rfl⟩

/-! ## One row -/

/-- The row is there and flagged. -/
def Settings.Flagged (t : Settings) (name key : Text) : Prop := ∃ value, t.lookup (name, key) = some ⟨value, true⟩

theorem lookup_store (name : Text) (secretKeys : List Text) (t : Settings) (e : Σ _ : Text, Text) (n k : Text) :
    (store name secretKeys t e).lookup (n, k) =
      if n = name ∧ k = e.1 ∧ Stored secretKeys e then some ⟨e.2, decide (e.1 ∈ secretKeys)⟩
        else t.lookup (n, k) := by
  unfold store
  by_cases hstored : Stored secretKeys e
  · rw [if_pos hstored, Table.lookup_insert_eq]
    refine if_congr ?_ rfl rfl
    simp [hstored]
  · rw [if_neg hstored, if_neg (fun h => hstored h.2.2)]

theorem lookup_storeAll_of_not {name : Text} {secretKeys : List Text} {n k : Text} :
    ∀ {values : List (Σ _ : Text, Text)} {t : Settings},
      (∀ e ∈ values, n = name → e.1 = k → ¬ Stored secretKeys e) →
      (storeAll name secretKeys t values).lookup (n, k) = t.lookup (n, k) := by
  intro values
  induction values with
  | nil =>
    intro t _
    rfl
  | cons e values ih =>
    intro t h
    refine (ih (fun d hd => h d (List.mem_cons_of_mem e hd))).trans ?_
    rw [lookup_store, if_neg]
    rintro ⟨hname, hkey, hstored⟩
    exact h e List.mem_cons_self hname hkey.symm hstored

theorem lookup_storeAll_of_mem {name : Text} {secretKeys : List Text} {e : Σ _ : Text, Text}
    (hstored : Stored secretKeys e) : ∀ {values : List (Σ _ : Text, Text)} {t : Settings},
      (values.map Sigma.fst).Nodup → e ∈ values →
      (storeAll name secretKeys t values).lookup (name, e.1) = some ⟨e.2, decide (e.1 ∈ secretKeys)⟩ := by
  intro values
  induction values with
  | nil =>
    intro t _ he
    cases he
  | cons d values ih =>
    intro t hnodup he
    have hnodup' := List.nodup_cons.mp hnodup
    rcases List.mem_cons.mp he with rfl | he'
    · have hlast : (storeAll name secretKeys (store name secretKeys t e) values).lookup (name, e.1) =
          (store name secretKeys t e).lookup (name, e.1) :=
        lookup_storeAll_of_not (fun d hd _ hkey => absurd (List.mem_map.mpr ⟨d, hd, hkey⟩) hnodup'.1)
      apply hlast.trans
      rw [lookup_store, if_pos ⟨rfl, rfl, hstored⟩]
    · exact ih hnodup'.2 he'

/-- A row is flagged after the values if it was and none is stored to it, or if
one is and its key is to be flagged. -/
theorem flagged_storeAll {name : Text} {secretKeys : List Text} {n k : Text} :
    ∀ (values : List (Σ _ : Text, Text)) (t : Settings), (storeAll name secretKeys t values).Flagged n k ↔
      if n = name ∧ ∃ e ∈ values, e.1 = k ∧ Stored secretKeys e then k ∈ secretKeys else t.Flagged n k := by
  intro values
  induction values with
  | nil =>
    intro t
    simp [storeAll]
  | cons e values ih =>
    intro t
    refine (ih (store name secretKeys t e)).trans ?_
    by_cases hrest : n = name ∧ ∃ d ∈ values, d.1 = k ∧ Stored secretKeys d
    · obtain ⟨hname, d, hd, hkey, hstored⟩ := hrest
      rw [if_pos ⟨hname, d, hd, hkey, hstored⟩, if_pos ⟨hname, d, List.mem_cons_of_mem e hd, hkey, hstored⟩]
    · rw [if_neg hrest]
      unfold Settings.Flagged
      rw [lookup_store]
      by_cases hfirst : n = name ∧ k = e.1 ∧ Stored secretKeys e
      · obtain ⟨hname, hkey, hstored⟩ := hfirst
        rw [if_pos ⟨hname, hkey, hstored⟩, if_pos ⟨hname, e, List.mem_cons_self, hkey.symm, hstored⟩, hkey]
        simp
      · rw [if_neg hfirst, if_neg]
        rintro ⟨hname, d, hd, hkey, hstored⟩
        rcases List.mem_cons.mp hd with rfl | hd'
        · exact hfirst ⟨hname, hkey.symm, hstored⟩
        · exact hrest ⟨hname, d, hd', hkey, hstored⟩

theorem lookup_derive (app : AppState) (name : Text) (schema : Option ConfigSchema) (t : Settings) {n k : Text}
    (h : n ≠ name ∨ k ≠ httpAllowlistKey) : (derive app name schema t).lookup (n, k) = t.lookup (n, k) := by
  unfold derive
  cases schema with
  | none => rfl
  | some schema =>
    simp only
    split
    · rfl
    · rw [Table.lookup_insert_eq, if_neg]
      intro heq
      cases heq
      rcases h with h | h <;> exact h rfl

theorem mem_secretRows {t : Settings} {name k : Text} : k ∈ secretRows (t.rowsFor name) ↔ t.Flagged name k := by
  unfold secretRows Settings.Flagged
  simp only [List.mem_map, List.mem_filter, Settings.mem_rowsFor]
  constructor
  · rintro ⟨r, ⟨⟨-, hr⟩, hsecret⟩, rfl⟩
    exact ⟨r.value, by rw [hr, hsecret]⟩
  · rintro ⟨value, h⟩
    exact ⟨⟨name, k, value, true⟩, ⟨⟨rfl, h⟩, rfl⟩, rfl⟩

/-! ## One request after the other -/

/-- What was served: the schemas loaded before it, and the calls made. -/
structure Observation where
  request : Request
  schema : Text → Option ConfigSchema
  trace : Prog.Trace Op Op.Answer

/-- Requests, each served to its end before the next. -/
def server (app : AppState) : Machine AdminState (Request × (Nat → Choice)) Observation where
  step := fun s a =>
    let served := Prog.exec serve a.2 s (handle app a.1)
    some (served.1, [{ request := a.1, schema := s.loadedSchema app, trace := served.2.1 }])

/-- Nothing is stored yet; which skills are installed, disabled or loaded is open. -/
def AdminState.fresh (skillState : Table Text Bool) (files : Table Text WasmFile)
    (registry : Wasm.Registry) : AdminState :=
  { settings := ∅, skillState, files, registry }

theorem ensures_handle (app : AppState) (s : AdminState) (r : Request) :
    Prog.Ensures serve s (handle app r) (fun s' t answer =>
      (s'.settings = s.settings ∧ written t = []) ∨
      ∃ name values order done, r = .putConfig name values order ∧
        ConfigStored app s name (order.order values.entries) s' t answer done) := by
  have hother : ∀ p : Handler Response, p.Uses Op.KeepsSettings → Prog.Ensures serve s p (fun s' t answer =>
      (s'.settings = s.settings ∧ written t = []) ∨
      ∃ name values order done, r = .putConfig name values order ∧
        ConfigStored app s name (order.order values.entries) s' t answer done) :=
    fun p hp => Prog.ensures_mono (ensures_of_keepsSettings hp s) (fun _ _ _ h => Or.inl h)
  have hharmless : ∀ p : Handler Response, p.Uses Op.Harmless → p.Uses Op.KeepsSettings :=
    fun p hp => Prog.uses_mono (fun _ => keepsSettings_of_harmless) hp
  cases r with
  | listSkills => exact hother _ (hharmless _ (listSkills_harmless app))
  | putConfig name values order =>
    apply Prog.ensures_mono (ensures_putConfig app s name values order)
    rintro s' t answer ⟨done, h⟩
    exact Or.inr ⟨name, values, order, done, rfl, h⟩
  | enableSkill name => exact hother _ (hharmless _ (enableSkill_harmless app name))
  | disableSkill name => exact hother _ (disableSkill_keepsSettings app name)
  | uploadSkill parts => exact hother _ (hharmless _ (uploadSkill_harmless app parts))
  | installBundled name => exact hother _ (hharmless _ (installBundled_harmless app name))

end AthenaVoice.Admin
