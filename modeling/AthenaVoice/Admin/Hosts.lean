import AthenaVoice.Admin.Writes

/-
  The allowlist over config writes

  The allowlist row is derived state: each config write recomputes it from the
  merged values, and leaves the row that is there when no host comes out. So it
  goes stale exactly when the last host goes away.

  What is proved:
    1. `derivedAllowlist_congr`, `derivedAllowlist_eq_nil` — what the derived
       hosts depend on, and when there are none.
    2. `allowlistRows_run` — over every run, an allowlist row holds hosts.
    3. `effective_allowlist_iff` — after a saved write under a loaded schema the
       effective allowlist is the derived one exactly if some value implies a host,
       or there was neither a row nor a TOML allowlist.
-/

namespace AthenaVoice.Admin

open Lib Sdk

/-- Some field's value implies a host. -/
def ImpliesHost (schema : ConfigSchema) (config : Text → Option Text) : Prop :=
  ∃ host, ∃ f ∈ schema.fields, ∃ raw, config f.key = some raw ∧ Str.trim raw ≠ [] ∧
    impliedHost f.kind raw = some host

/-- The hosts derived depend on what the fields' keys hold. -/
theorem derivedAllowlist_congr {schema : ConfigSchema} {values values' : Values}
    (h : ∀ k, values.lookup k = values'.lookup k) :
    derivedAllowlist schema values = derivedAllowlist schema values' := by
  unfold derivedAllowlist
  simp only [h]

theorem derivedAllowlist_eq_nil {schema : ConfigSchema} {values : Values} :
    derivedAllowlist schema values = [] ↔ ¬ ImpliesHost schema values.lookup := by
  rw [List.eq_nil_iff_forall_not_mem]
  unfold ImpliesHost
  simp only [mem_derivedAllowlist, not_exists]

/-- What a submitted key holds once the write is saved: a blank secret leaves it. -/
def submittedConfig (app : AppState) (s : AdminState) (name : Text) (values : Values) (key : Text) : Option Text :=
  match values.lookup key with
  | some value =>
    if Stored (flaggedKeys app s name) ⟨key, value⟩ then some value
    else (mergedConfig app s.settings name).config.lookup key
  | none => (mergedConfig app s.settings name).config.lookup key

/-! ## The row -/

/-- Every allowlist row holds at least one host. -/
def AllowlistRows (app : AppState) (t : Settings) : Prop :=
  ∀ name row, t.lookup (name, httpAllowlistKey) = some row → ∃ allowed, allowed ≠ [] ∧
    row = ⟨app.hosts.encode allowed, false⟩

theorem storeAll_allowlistKey {name : Text} {secretKeys : List Text} {t : Settings} {values : List (Σ _ : Text, Text)}
    (hvalues : ∀ e ∈ values, "$".toList.isPrefixOf e.1 = false) (n : Text) :
    (storeAll name secretKeys t values).lookup (n, httpAllowlistKey) = t.lookup (n, httpAllowlistKey) := by
  apply lookup_storeAll_of_not
  intro e he _ hkey
  have hreserved := hvalues e he
  rw [hkey] at hreserved
  exact absurd hreserved (by decide)

theorem AllowlistRows.derive {app : AppState} {t : Settings} (ht : AllowlistRows app t) (name : Text)
    (schema : Option ConfigSchema) : AllowlistRows app (derive app name schema t) := by
  unfold Admin.derive
  cases schema with
  | none => exact ht
  | some schema =>
    simp only
    split
    · exact ht
    · rename_i hsome
      intro n row hrow
      rw [Table.lookup_insert_eq] at hrow
      split at hrow
      · refine ⟨derivedAllowlist schema (mergedConfig app t name).config, ?_, (Option.some.inj hrow).symm⟩
        simpa using hsome
      · exact ht n row hrow

theorem allowlistRows_step {app : AppState} (_ : List Observation) (s : AdminState) (a : Request × (Nat → Choice))
    (s' : AdminState) (o : List Observation) (hs : AllowlistRows app s.settings)
    (hstep : (server app).step s a = some (s', o)) : AllowlistRows app s'.settings := by
  cases hstep
  rcases Prog.exec_of_ensures (ensures_handle app s a.1) a.2 with ⟨hsettings, -⟩
    | ⟨n, values, order, done, -, hdone⟩
  · show AllowlistRows app (Prog.exec serve a.2 s (handle app a.1)).1.settings
    rw [hsettings]
    exact hs
  · have hvalues : AllowlistRows app (storeAll n (flaggedKeys app s n) s.settings done) := by
      intro name row hrow
      rw [storeAll_allowlistKey hdone.unreserved] at hrow
      exact hs name row hrow
    show AllowlistRows app (Prog.exec serve a.2 s (handle app a.1)).1.settings
    rcases hdone.settings with heq | heq
    · rw [heq]
      exact hvalues
    · rw [heq]
      exact hvalues.derive n _

theorem allowlistRows_run {app : AppState} {skillState : Table Text Bool} {files : Table Text WasmFile}
    {registry : Wasm.Registry} {as : List (Request × (Nat → Choice))} {s : AdminState} {h : List Observation}
    (hrun : (server app).run (.fresh skillState files registry) as = some (s, h)) : AllowlistRows app s.settings := by
  have hfresh : AllowlistRows app (AdminState.fresh skillState files registry).settings := by
    intro name row hrow
    cases hrow
  exact Machine.run_invariant (P := fun _ s => AllowlistRows app s.settings) allowlistRows_step (h := []) hfresh hrun

/-! ## A saved write -/

theorem lookup_mergedConfig (app : AppState) (t : Settings) (name key : Text) :
    (mergedConfig app t name).config.lookup key =
      if key = httpAllowlistKey then (app.base name).config.lookup key
      else ((t.lookup (name, key)).map Setting.value).or ((app.base name).config.lookup key) := by
  unfold mergedConfig
  split
  · rename_i hkey
    exact applySettings_config_of_notMem (Or.inl hkey)
  · rename_i hkey
    exact applySettings_config t (app.base name) name hkey

theorem mergedConfig_derive (app : AppState) (t : Settings) (name : Text) (schema : Option ConfigSchema) (key : Text) :
    (mergedConfig app (derive app name schema t) name).config.lookup key =
      (mergedConfig app t name).config.lookup key := by
  rw [lookup_mergedConfig, lookup_mergedConfig]
  split
  · rfl
  · rename_i hkey
    rw [lookup_derive app name schema t (Or.inr hkey)]

theorem mem_order {values : Values} {order : Readout (Σ _ : Text, Text)} {e : Σ _ : Text, Text} :
    e ∈ order.order values.entries ↔ values.lookup e.1 = some e.2 := by
  rw [(order.complete values.entries).mem_iff]
  exact ⟨List.mem_dlookup values.nodupKeys, List.of_mem_dlookup⟩

theorem mergedConfig_storeAll {app : AppState} {s : AdminState} {name : Text} {values : Values}
    {order : Readout (Σ _ : Text, Text)}
    (hvalues : ∀ e ∈ order.order values.entries, "$".toList.isPrefixOf e.1 = false)
    (key : Text) :
    (mergedConfig app (storeAll name (flaggedKeys app s name) s.settings (order.order values.entries))
      name).config.lookup
      key = submittedConfig app s name values key := by
  have hnodup : ((order.order values.entries).map Sigma.fst).Nodup :=
    (((order.complete values.entries).map Sigma.fst).nodup_iff).mpr values.nodupKeys
  unfold submittedConfig
  cases hvalue : values.lookup key with
  | none =>
    have hrow : (storeAll name (flaggedKeys app s name) s.settings (order.order values.entries)).lookup (name, key) =
        s.settings.lookup (name, key) := by
      apply lookup_storeAll_of_not
      rintro e he - rfl
      rw [mem_order.mp he] at hvalue
      cases hvalue
    rw [lookup_mergedConfig, hrow, ← lookup_mergedConfig]
  | some value =>
    have hmem : (⟨key, value⟩ : Σ _ : Text, Text) ∈ order.order values.entries := mem_order.mpr hvalue
    have hkey : key ≠ httpAllowlistKey := by
      rintro rfl
      have hreserved : "$".toList.isPrefixOf httpAllowlistKey = false := hvalues _ hmem
      exact absurd hreserved (by decide)
    simp only
    -- a submitted value is stored, or is the blank one of a secret that stays
    by_cases hstored : Stored (flaggedKeys app s name) ⟨key, value⟩
    · rw [if_pos hstored, lookup_mergedConfig, if_neg hkey, lookup_storeAll_of_mem hstored hnodup hmem]
      rfl
    · have hrow : (storeAll name (flaggedKeys app s name) s.settings (order.order values.entries)).lookup (name, key) =
          s.settings.lookup (name, key) := by
        apply lookup_storeAll_of_not
        rintro ⟨k, v⟩ he - rfl
        have hlookup := mem_order.mp he
        rw [hvalue] at hlookup
        cases hlookup
        exact hstored
      rw [if_neg hstored, lookup_mergedConfig, hrow, ← lookup_mergedConfig]

/-- **The effective allowlist.** After any sequence of requests and one more
config write that is saved, under a loaded schema: it is what the schema derives
from the merged config exactly if some merged value implies a host, or there was
no allowlist row before and TOML has no allowlist. -/
theorem effective_allowlist_iff {app : AppState} {skillState : Table Text Bool} {files : Table Text WasmFile}
    {registry : Wasm.Registry} {as : List (Request × (Nat → Choice))} {s : AdminState} {h : List Observation}
    {name : Text} {values : Values} {order : Readout (Σ _ : Text, Text)} {e : Nat → Choice} {schema : ConfigSchema}
    {reloadError : Option Text} (hrun : (server app).run (.fresh skillState files registry) as = some (s, h))
    (hschema : s.loadedSchema app name = some schema)
    (hsaved : (Prog.exec serve e s (handle app (.putConfig name values order))).2.2 = .saved reloadError) :
    (mergedConfig app (Prog.exec serve e s (handle app (.putConfig name values order))).1.settings name).httpAllowlist =
        derivedAllowlist schema
          (mergedConfig app (Prog.exec serve e s (handle app (.putConfig name values order))).1.settings
            name).config ↔
      ImpliesHost schema (submittedConfig app s name values) ∨
        (s.settings.lookup (name, httpAllowlistKey) = none ∧ (app.base name).httpAllowlist = []) := by
  obtain ⟨done, hdone⟩ := Prog.exec_of_ensures (ensures_putConfig app s name values order) e
  obtain ⟨rfl, hafter⟩ := hdone.saved reloadError hsaved
  rw [hschema] at hafter
  rw [show handle app (.putConfig name values order) = putConfig app name values order from rfl, hafter]
  have hrow : (storeAll name (flaggedKeys app s name) s.settings (order.order values.entries)).lookup
      (name, httpAllowlistKey) = s.settings.lookup (name, httpAllowlistKey) :=
    storeAll_allowlistKey hdone.unreserved name
  have hconfig : ∀ key, (mergedConfig app (storeAll name (flaggedKeys app s name) s.settings
      (order.order values.entries)) name).config.lookup key = submittedConfig app s name values key :=
    mergedConfig_storeAll hdone.unreserved
  generalize storeAll name (flaggedKeys app s name) s.settings (order.order values.entries) = t at hrow hconfig ⊢
  have hderived : derivedAllowlist schema (mergedConfig app (derive app name (some schema) t) name).config =
      derivedAllowlist schema (mergedConfig app t name).config :=
    derivedAllowlist_congr (mergedConfig_derive app t name (some schema))
  have himplies : derivedAllowlist schema (mergedConfig app t name).config = [] ↔
      ¬ ImpliesHost schema (submittedConfig app s name values) := by
    rw [derivedAllowlist_eq_nil, funext hconfig]
  rw [hderived]
  by_cases hnone : derivedAllowlist schema (mergedConfig app t name).config = []
  · -- no row is written: the row there was, or TOML, stays in force
    have hsame : derive app name (some schema) t = t := if_pos (by rw [hnone]; rfl)
    obtain ⟨hbase, hlist⟩ : (t.lookup (name, httpAllowlistKey) = none →
        (mergedConfig app t name).httpAllowlist = (app.base name).httpAllowlist) ∧
        ∀ allowed isSecret, t.lookup (name, httpAllowlistKey) = some ⟨app.hosts.encode allowed, isSecret⟩ →
          (mergedConfig app t name).httpAllowlist = allowed := applySettings_httpAllowlist t (app.base name) name
    rw [hsame, hnone, or_iff_right (himplies.mp hnone), ← hrow]
    cases hthere : t.lookup (name, httpAllowlistKey) with
    | none => simp [hbase hthere]
    | some row =>
      obtain ⟨allowed, hne, rfl⟩ := allowlistRows_run hrun name row (hrow.symm.trans hthere)
      simp [hlist allowed false hthere, hne]
  · -- the row is the one just written
    have hwritten : (derive app name (some schema) t).lookup (name, httpAllowlistKey) =
        some ⟨app.hosts.encode (derivedAllowlist schema (mergedConfig app t name).config), false⟩ := by
      unfold derive
      simp only
      rw [if_neg (by simpa using hnone), Table.lookup_insert_eq, if_pos rfl]
    have hlist : (mergedConfig app (derive app name (some schema) t) name).httpAllowlist =
        derivedAllowlist schema (mergedConfig app t name).config :=
      (applySettings_httpAllowlist (derive app name (some schema) t) (app.base name) name).2 _ false hwritten
    exact iff_of_true hlist (Or.inl (not_not.mp (fun h => hnone (himplies.mpr h))))

def urlSchema : ConfigSchema :=
  ⟨[{ key := "base_url".toList, label := "URL".toList, kind := .url, required := false, help := [], default := []
      itemFields := [] }]⟩

def urlFiles : Table Text WasmFile := (∅ : Table Text WasmFile).insert clock ⟨some urlSchema⟩

def urlValues (url : Text) : Values := (∅ : Values).insert "base_url".toList url

/-- The clock is loaded, and its url stored. -/
def urlStored : List (Request × (Nat → Choice)) :=
  [(.enableSkill clock, fun _ => calm), (.putConfig clock (urlValues "http://a".toList) .plain, fun _ => calm)]

/-- Another url replaces the host. -/
theorem replaced_url_allowed :
    ∃ s h, (server plainApp).run (.fresh ∅ urlFiles .new) urlStored = some (s, h) ∧
      (mergedConfig plainApp (Prog.exec serve (fun _ => calm) s
        (handle plainApp (.putConfig clock (urlValues "http://b".toList) .plain))).1.settings clock).httpAllowlist =
      derivedAllowlist urlSchema (mergedConfig plainApp (Prog.exec serve (fun _ => calm) s
        (handle plainApp (.putConfig clock (urlValues "http://b".toList) .plain))).1.settings clock).config := by
  have hstored : ∃ (s : AdminState) (h : List Observation),
      (server plainApp).run (.fresh ∅ urlFiles .new) urlStored = some (s, h) ∧
      s.loadedSchema plainApp clock = some urlSchema ∧
      (Prog.exec serve (fun _ => calm) s
        (handle plainApp (.putConfig clock (urlValues "http://b".toList) .plain))).2.2 =
        .saved none ∧
      submittedConfig plainApp s clock (urlValues "http://b".toList) "base_url".toList = some "http://b".toList :=
    ⟨_, _, rfl, rfl, rfl, by decide⟩
  obtain ⟨s, h, hrun, hschema, hsaved, hurl⟩ := hstored
  refine ⟨s, h, hrun, (effective_allowlist_iff hrun hschema hsaved).mpr (Or.inl ?_)⟩
  exact ⟨"b".toList, _, List.mem_cons_self, "http://b".toList, hurl, by decide, by decide⟩

/-- A blank url leaves the old host allowed. -/
theorem blanked_url_stays_allowed :
    ∃ s h, (server plainApp).run (.fresh ∅ urlFiles .new) urlStored = some (s, h) ∧
      s.loadedSchema plainApp clock = some urlSchema ∧
      (Prog.exec serve (fun _ => calm) s (handle plainApp (.putConfig clock (urlValues []) .plain))).2.2 =
        .saved none ∧
      (mergedConfig plainApp (Prog.exec serve (fun _ => calm) s
        (handle plainApp (.putConfig clock (urlValues []) .plain))).1.settings clock).httpAllowlist ≠
      derivedAllowlist urlSchema (mergedConfig plainApp (Prog.exec serve (fun _ => calm) s
        (handle plainApp (.putConfig clock (urlValues []) .plain))).1.settings clock).config := by
  refine ⟨_, _, rfl, rfl, rfl, ?_⟩
  decide

end AthenaVoice.Admin
