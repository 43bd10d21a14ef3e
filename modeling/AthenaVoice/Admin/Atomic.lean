import AthenaVoice.Admin.Writes

/-
  A config write that fails halfway — `put_config`, `api.rs`

  The values are stored one call at a time, in the order the submitted map is
  iterated in, and a call that fails ends the request with an error. What was
  stored before it stays.

  What is proved:
    1. `ensures_writeConfig_atomic` — when an error is known to leave the rows.
    2. `allows_writeValues`, `allows_writeValues_cut` — the loop may finish, and
       it may fail at any value that is stored.
    3. `putConfig_atomic_iff` — an error leaves the rows as they were, whatever
       fails, exactly if every value with a call still to come is stored already.
    4. `half_saved` — two values, the second one refused by the store.
-/

namespace AthenaVoice.Admin

open Lib Sdk

/-- The row is there, with this value and flag. -/
def AlreadyStored (app : AppState) (s : AdminState) (name : Text) (e : Σ _ : Text, Text) : Prop :=
  s.settings.lookup (name, e.1) = some ⟨e.2, decide (e.1 ∈ flaggedKeys app s name)⟩

/-- What `put_config` checks before it writes. -/
structure Accepted (app : AppState) (s : AdminState) (name : Text) (values : Values) : Prop where
  skillName : validSkillName name = true
  valid : validate app.json (s.loadedSchema app name) values = .ok ()
  unreserved : ∀ e ∈ values.entries, "$".toList.isPrefixOf e.1 = false

/-- A value that is stored with a call of the store still to come: for another
value or, under a schema, for the allowlist. -/
def Exposed (app : AppState) (s : AdminState) (name : Text) (values : List (Σ _ : Text, Text))
    (e : Σ _ : Text, Text) :
    Prop :=
  ∃ before after, values = before ++ e :: after ∧ Stored (flaggedKeys app s name) e ∧
    ((s.loadedSchema app name).isSome = true ∨ ∃ d ∈ after, Stored (flaggedKeys app s name) d)

/-! ## After a failure -/

theorem lookup_storeAll_already {name : Text} {secretKeys : List Text} {t : Settings} {k : Text × Text} :
    ∀ {values : List (Σ _ : Text, Text)} {t' : Settings}, (∀ k, t'.lookup k = t.lookup k) →
      (∀ e ∈ values, Stored secretKeys e → t.lookup (name, e.1) = some ⟨e.2, decide (e.1 ∈ secretKeys)⟩) →
      (storeAll name secretKeys t' values).lookup k = t.lookup k := by
  intro values
  induction values with
  | nil =>
    intro t' ht' _
    exact ht' k
  | cons e values ih =>
    intro t' ht' h
    refine ih ?_ (fun d hd => h d (List.mem_cons_of_mem e hd))
    intro k'
    obtain ⟨n, key⟩ := k'
    rw [lookup_store]
    split
    · rename_i hrow
      obtain ⟨rfl, rfl, hstored⟩ := hrow
      exact (h e List.mem_cons_self hstored).symm
    · exact ht' (n, key)

/-- From the point where it writes: if the exposed values are stored already, an
error leaves the rows. -/
theorem ensures_writeConfig_atomic {app : AppState} {s : AdminState} {name : Text} {values : List (Σ _ : Text, Text)}
    (h : ∀ e, Exposed app s name values e → AlreadyStored app s name e) :
    Prog.Ensures serve s (writeConfig app name (s.loadedSchema app name) values) (fun s' _ r =>
      ∀ status error, r = .refused status error → ∀ k, s'.settings.lookup k = s.settings.lookup k) := by
  intro choice
  cases hread : choice.failure with
  | some message =>
    simp only [serve, Choice.attempt, hread]
    exact fun _ _ _ _ => rfl
  | none =>
    simp only [serve, Choice.attempt, hread]
    refine Prog.ensures_bind (Prog.ensures_mono
      (ensures_writeValues name (flaggedKeys app s name) values s) ?_)
    rintro s₁ t₁ r ⟨done, hstored, hend⟩
    cases r with
    | some answer =>
      -- another write was still to come for each of the values stored
      obtain ⟨-, d, rest, rfl, hd⟩ := hend
      intro status error _ k
      rw [hstored.state]
      apply lookup_storeAll_already (fun _ => rfl)
      intro e he hkept
      obtain ⟨before, after, rfl⟩ := List.append_of_mem he
      refine h e ⟨before, after ++ d :: rest, by simp, hkept, Or.inr ⟨d, ?_, hd⟩⟩
      exact List.mem_append_right after List.mem_cons_self
    | none =>
      cases hend
      refine Prog.ensures_bind (Prog.ensures_mono
        (ensures_deriveAllowlist app name (s.loadedSchema app name) s₁) ?_)
      rintro s₂ t₂ r ⟨-, hend⟩
      cases r with
      | some answer =>
        -- the allowlist was still to come
        obtain ⟨rfl, hschema, -⟩ := hend
        intro status error _ k
        rw [hstored.state]
        apply lookup_storeAll_already (fun _ => rfl)
        intro e he hkept
        obtain ⟨before, after, rfl⟩ := List.append_of_mem he
        exact h e ⟨before, after, rfl, hkept, Or.inl hschema⟩
      | none =>
        refine Prog.ensures_bind (Prog.ensures_of_forall ?_ _ _)
        intro s₃ t₃ result status error hrefused
        cases hrefused

/-! ## A failure at a chosen call -/

instance : Inhabited Choice := ⟨calm⟩

def broken : Choice := { calm with failure := some "disk full".toList }

theorem allows_writeValue (name : Text) (secretKeys : List Text) (s : AdminState) (e : Σ _ : Text, Text) :
    Prog.Allows serve s (writeValue name secretKeys e) (fun s' _ r =>
      r = none ∧ s' = { s with settings := store name secretKeys s.settings e }) := by
  unfold writeValue
  simp only
  split
  · rename_i hblank
    have hskip : ¬ Stored secretKeys e := by
      simpa [Stored] using hblank
    refine ⟨rfl, ?_⟩
    rw [store, if_neg hskip]
  · rename_i hkept
    have hstored : Stored secretKeys e := by
      simpa [Stored] using hkept
    refine ⟨calm, rfl, ?_⟩
    rw [store, if_pos hstored]
    rfl

theorem allows_writeValue_fail {name : Text} {secretKeys : List Text} {e : Σ _ : Text, Text}
    (h : Stored secretKeys e) (s : AdminState) :
    Prog.Allows serve s (writeValue name secretKeys e) (fun s' _ r =>
      (∃ message, r = some (internalError message)) ∧ s' = s) := by
  unfold writeValue
  simp only
  split
  · rename_i hblank
    exact absurd (by simpa using hblank) h
  · exact ⟨broken, ⟨"disk full".toList, rfl⟩, rfl⟩

theorem allows_deriveAllowlist_fail (app : AppState) (name : Text) {schema : Option ConfigSchema}
    (h : schema.isSome = true) (s : AdminState) :
    Prog.Allows serve s (deriveAllowlist app name schema) (fun s' _ r =>
      (∃ message, r = some (internalError message)) ∧ s' = s) := by
  cases schema with
  | none => cases h
  | some schema => exact ⟨broken, ⟨"disk full".toList, rfl⟩, rfl⟩

theorem foldl_store (name : Text) (secretKeys : List Text) : ∀ (values : List (Σ _ : Text, Text)) (s : AdminState),
    values.foldl (fun s e => { s with settings := store name secretKeys s.settings e }) s =
      { s with settings := storeAll name secretKeys s.settings values } := by
  intro values
  induction values with
  | nil =>
    intro s
    rfl
  | cons e values ih =>
    intro s
    exact ih _

/-- The loop may finish. -/
theorem allows_writeValues (name : Text) (secretKeys : List Text) (values : List (Σ _ : Text, Text)) (s : AdminState) :
    Prog.Allows serve s (Prog.forEach (writeValue name secretKeys) values) (fun s' _ r =>
      r = none ∧ s' = { s with settings := storeAll name secretKeys s.settings values }) := by
  have h : Prog.Allows serve s (Prog.forEach (writeValue name secretKeys) (values ++ [])) (fun s' _ r =>
      r = none ∧ s' = { s with settings := storeAll name secretKeys s.settings values }) := by
    refine Prog.allows_forEach_append (allows_writeValue name secretKeys)
      (Q := fun s' r => r = none ∧ s' = { s with settings := storeAll name secretKeys s.settings values }) values ?_
    exact ⟨rfl, foldl_store name secretKeys values s⟩
  rw [List.append_nil] at h
  exact h

/-- The loop may fail at any value that is stored. -/
theorem allows_writeValues_cut (name : Text) {secretKeys : List Text} (done rest : List (Σ _ : Text, Text))
    {d : Σ _ : Text, Text} (hd : Stored secretKeys d) (s : AdminState) :
    Prog.Allows serve s (Prog.forEach (writeValue name secretKeys) (done ++ d :: rest)) (fun s' _ r =>
      (∃ message, r = some (internalError message)) ∧
        s' = { s with settings := storeAll name secretKeys s.settings done }) := by
  refine Prog.allows_forEach_append (allows_writeValue name secretKeys)
    (Q := fun s' r => (∃ message, r = some (internalError message)) ∧
      s' = { s with settings := storeAll name secretKeys s.settings done }) done ?_
  rw [foldl_store]
  refine Prog.allows_bind (Prog.allows_mono (allows_writeValue_fail hd _) ?_)
  rintro s' t r ⟨⟨message, rfl⟩, rfl⟩
  exact ⟨⟨message, rfl⟩, rfl⟩

/-- From the point where it writes: an exposed value may be stored and the
request still end in an error. -/
theorem allows_writeConfig_cut {app : AppState} {s : AdminState} {name : Text} {values : List (Σ _ : Text, Text)}
    {e : Σ _ : Text, Text} (hnodup : (values.map Sigma.fst).Nodup) (he : Exposed app s name values e) :
    Prog.Allows serve s (writeConfig app name (s.loadedSchema app name) values) (fun s' _ r =>
      (∃ message, r = internalError message) ∧
        s'.settings.lookup (name, e.1) = some ⟨e.2, decide (e.1 ∈ flaggedKeys app s name)⟩) := by
  obtain ⟨before, after, rfl, hstored, hcall⟩ := he
  refine ⟨calm, ?_⟩
  apply Prog.allows_bind
  by_cases hlater : ∃ d ∈ after, Stored (flaggedKeys app s name) d
  · -- the next value that is stored is where the store fails
    obtain ⟨d, hd, hdstored⟩ := hlater
    obtain ⟨middle, rest, rfl⟩ := List.append_of_mem hd
    have hsplit : before ++ e :: (middle ++ d :: rest) = (before ++ e :: middle) ++ d :: rest := by simp
    rw [hsplit] at hnodup ⊢
    apply Prog.allows_mono (allows_writeValues_cut name _ rest hdstored s)
    rintro s₁ t₁ r ⟨⟨message, rfl⟩, rfl⟩
    refine ⟨⟨message, rfl⟩, lookup_storeAll_of_mem hstored ?_ (by simp)⟩
    rw [List.map_append] at hnodup
    exact hnodup.of_append_left
  · -- none is left, and reading the rows for the allowlist fails
    have hschema : (s.loadedSchema app name).isSome = true := hcall.resolve_right hlater
    apply Prog.allows_mono (allows_writeValues name _ _ s)
    rintro s₁ t₁ r ⟨rfl, rfl⟩
    refine Prog.allows_bind (Prog.allows_mono (allows_deriveAllowlist_fail app name hschema _) ?_)
    rintro s₂ t₂ r ⟨⟨message, rfl⟩, rfl⟩
    exact ⟨⟨message, rfl⟩, lookup_storeAll_of_mem hstored hnodup (by simp)⟩

/-! ## The request -/

theorem checkConfig_of_accepted {app : AppState} {s : AdminState} {name : Text} {values : Values}
    (order : Readout (Σ _ : Text, Text)) (h : Accepted app s name values) :
    checkConfig app name values order (s.loadedSchema app name) =
      writeConfig app name (s.loadedSchema app name) (order.order values.entries) := by
  have hnone : (order.order values.entries).find? (fun e => "$".toList.isPrefixOf e.1) = none := by
    rw [List.find?_eq_none]
    intro e he
    exact Bool.eq_false_iff.mp (h.unreserved e ((order.complete values.entries).mem_iff.mp he))
  unfold checkConfig
  rw [h.valid]
  simp only [hnone]

theorem ensures_putConfig_of_check {app : AppState} {s : AdminState} {name : Text} {values : Values}
    {order : Readout (Σ _ : Text, Text)} {Q : AdminState → Response → Prop} (hname : validSkillName name = true)
    (h : Prog.Ensures serve s (checkConfig app name values order (s.loadedSchema app name)) (fun s' _ r => Q s' r)) :
    Prog.Ensures serve s (putConfig app name values order) (fun s' _ r => Q s' r) := by
  unfold putConfig
  rw [if_pos hname]
  unfold AdminState.loadedSchema at h
  cases hskills : app.skills with
  | none =>
    rw [hskills] at h
    exact h
  | some handle =>
    rw [hskills] at h
    exact fun _ => h

theorem allows_putConfig_of_check {app : AppState} {s : AdminState} {name : Text} {values : Values}
    {order : Readout (Σ _ : Text, Text)} {Q : AdminState → Response → Prop} (hname : validSkillName name = true)
    (h : Prog.Allows serve s (checkConfig app name values order (s.loadedSchema app name)) (fun s' _ r => Q s' r)) :
    Prog.Allows serve s (putConfig app name values order) (fun s' _ r => Q s' r) := by
  unfold putConfig
  rw [if_pos hname]
  unfold AdminState.loadedSchema at h
  cases hskills : app.skills with
  | none =>
    rw [hskills] at h
    exact h
  | some handle =>
    rw [hskills] at h
    exact ⟨calm, h⟩

/-- If the exposed values of a request that passes the checks are stored already,
an error leaves the rows. -/
theorem ensures_putConfig_atomic {app : AppState} {s : AdminState} {name : Text} {values : Values}
    {order : Readout (Σ _ : Text, Text)}
    (h : Accepted app s name values →
      ∀ e, Exposed app s name (order.order values.entries) e → AlreadyStored app s name e) :
    Prog.Ensures serve s (putConfig app name values order) (fun s' _ r =>
      ∀ status error, r = .refused status error → ∀ k, s'.settings.lookup k = s.settings.lookup k) := by
  by_cases hname : validSkillName name = true
  · refine ensures_putConfig_of_check (Q := fun s' r =>
      ∀ status error, r = .refused status error → ∀ k, s'.settings.lookup k = s.settings.lookup k) hname ?_
    cases hvalid : validate app.json (s.loadedSchema app name) values with
    | error message =>
      unfold checkConfig
      rw [hvalid]
      exact fun _ _ _ _ => rfl
    | ok u =>
      cases hreserved : (order.order values.entries).find? (fun e => "$".toList.isPrefixOf e.1) with
      | some bad =>
        unfold checkConfig
        simp only [hvalid, hreserved]
        exact fun _ _ _ _ => rfl
      | none =>
        have haccepted : Accepted app s name values := by
          refine ⟨hname, hvalid, ?_⟩
          intro e he
          have hmem : e ∈ order.order values.entries := (order.complete values.entries).mem_iff.mpr he
          exact Bool.eq_false_iff.mpr (List.find?_eq_none.mp hreserved e hmem)
        rw [checkConfig_of_accepted order haccepted]
        exact ensures_writeConfig_atomic (h haccepted)
  · unfold putConfig
    rw [if_neg hname]
    exact fun _ _ _ _ => rfl

theorem nodup_order (values : Values) (order : Readout (Σ _ : Text, Text)) :
    ((order.order values.entries).map Sigma.fst).Nodup :=
  ((order.complete values.entries).map Sigma.fst).nodup_iff.mpr values.nodupKeys

/-- **A config write that fails.** Whatever fails, an error leaves the rows of the
skill as they were, exactly if the request does not pass the checks or each
value that is stored with a call still to come is stored already. -/
theorem putConfig_atomic_iff (app : AppState) (s : AdminState) (name : Text) (values : Values)
    (order : Readout (Σ _ : Text, Text)) :
    (∀ choices status error, (Prog.exec serve choices s (putConfig app name values order)).2.2 =
      .refused status error →
      ∀ key, (Prog.exec serve choices s (putConfig app name values order)).1.settings.lookup (name, key) =
        s.settings.lookup (name, key)) ↔
    (Accepted app s name values →
      ∀ e, Exposed app s name (order.order values.entries) e → AlreadyStored app s name e) := by
  constructor
  · intro hatomic haccepted e he
    have hwrite := allows_writeConfig_cut (nodup_order values order) he
    rw [← checkConfig_of_accepted order haccepted] at hwrite
    have hallows := allows_putConfig_of_check (Q := fun s' r => (∃ message, r = internalError message) ∧
      s'.settings.lookup (name, e.1) = some ⟨e.2,
        decide (e.1 ∈ flaggedKeys app s name)⟩) haccepted.skillName hwrite
    obtain ⟨choices, ⟨message, hanswer⟩, hrow⟩ := Prog.exec_of_allows hallows
    calc s.settings.lookup (name, e.1)
        = (Prog.exec serve choices s (putConfig app name values order)).1.settings.lookup (name, e.1) :=
          (hatomic choices 500 message hanswer e.1).symm
      _ = some ⟨e.2, decide (e.1 ∈ flaggedKeys app s name)⟩ := hrow
  · intro h choices status error hanswer key
    exact Prog.exec_of_ensures (ensures_putConfig_atomic h) choices status error hanswer (name, key)

def twoValues : Values := (∅ : Values).insert "volume".toList "3".toList |>.insert "city".toList "Lyon".toList

/-- The store fails at the third call: the rows are read, one value is stored. -/
def failsThird : Nat → Choice
  | 2 => broken
  | _ => calm

/-- Two values, the second one refused by the store: the answer is an error, and
the first value is stored. -/
theorem half_saved :
    let served := Prog.exec serve failsThird (.fresh ∅ ∅ .new)
      (putConfig { plainApp with skills := none } clock twoValues .plain)
    served.2.2 = .refused 500 "disk full".toList ∧
      served.1.settings.lookup (clock, "city".toList) = some ⟨"Lyon".toList, false⟩ ∧
      (AdminState.fresh ∅ ∅ .new).settings.lookup (clock, "city".toList) = none := by
  refine ⟨rfl, rfl, rfl⟩

end AthenaVoice.Admin
