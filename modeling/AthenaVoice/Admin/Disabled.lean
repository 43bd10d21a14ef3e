import AthenaVoice.Admin.Api
import AthenaVoice.Lib.Slots

/-
  Disabled skills under concurrent handlers

  `disable_skill` stores the flag and then removes the skill, two calls.
  `reload_skill` reads the flags and reloads two calls later, and nothing is
  checked in between: a whole disable fits there, and the reload brings the
  skill back.

  What is proved:
    1. `handle_disciplined` — whatever handler stores a disabled flag removes the
       skill with its next call.
    2. `unloaded_of_undisturbed` — if every reload of a disabled skill happens
       while some disable of it has its removal still to come, then no disabled
       skill is loaded once all handlers have returned.
    3. `disabled_midway_loaded` — the schedule that brings a skill back.
-/

namespace AthenaVoice.Admin

open Lib

/-- The stored flag says disabled. -/
def AdminState.Disabled (s : AdminState) (name : Text) : Prop := s.skillState.lookup name = some false

instance (s : AdminState) (name : Text) : Decidable (s.Disabled name) := by
  unfold AdminState.Disabled
  infer_instance

/-- The registry has the skill, if there is a registry. -/
def AdminState.Loaded (app : AppState) (s : AdminState) (name : Text) : Prop :=
  app.skills.isSome = true ∧ name ∈ s.registry.plugins

def AdminState.Unloaded (app : AppState) (s : AdminState) : Prop := ∀ name, s.Disabled name → ¬ s.Loaded app name

/-- The handlers in flight, over the state they share. -/
abbrev Handlers := Prog.Pool Op Op.Answer Response AdminState

/-- The handlers taking turns, a call at a time. -/
def handlers (app : AppState) : Machine Handlers (Prog.PoolAction Request Choice) Empty :=
  Prog.pool serve (handle app)

/-! ## One handler -/

/-- A handler that has stored a disabled flag removes the skill next. -/
def Disciplined (app : AppState) : Handler Response → Prop
  | .ret _ => True
  | .call c next =>
    (∀ name s e, c = .skillEnabledSet name false → e.failure = none → app.skills.isSome = true →
      (next (serve s e c).2).head = some (.remove name)) ∧ ∀ b, Disciplined app (next b)

/-- A call that stores no disabled flag. -/
def KeepsEnabled : Op → Prop
  | .skillEnabledSet _ false => False
  | _ => True

theorem keepsEnabled_of_harmless {c : Op} (h : c.Harmless) : KeepsEnabled c := by
  cases c with
  | skillEnabledSet skill enabled => cases enabled <;> exact h
  | _ => trivial

theorem disciplined_of_uses {app : AppState} {p : Handler Response} (h : p.Uses KeepsEnabled) : Disciplined app p := by
  induction p with
  | ret a => trivial
  | call c next ih =>
    refine ⟨?_, fun b => ih b (h.2 b)⟩
    rintro name s e rfl
    exact absurd h.1 id

theorem disciplined_of_harmless {app : AppState} {p : Handler Response} (h : p.Uses Op.Harmless) : Disciplined app p :=
  disciplined_of_uses (Prog.uses_mono (fun _ => keepsEnabled_of_harmless) h)

theorem writeConfig_uses (app : AppState) (name : Text) (schema : Option Sdk.ConfigSchema)
    (values : List (Σ _ : Text, Text)) : (writeConfig app name schema values).Uses KeepsEnabled := by
  -- read the rows, store the values, derive the allowlist, reload: each keeps the flag
  refine ⟨trivial, ?_⟩
  intro existingRows
  cases existingRows with
  | error e => trivial
  | ok existingRows =>
    refine Prog.uses_bind (Prog.uses_forEach ?_ values) ?_
    · intro e
      unfold writeValue
      simp only
      split
      · trivial
      · refine ⟨trivial, ?_⟩
        intro result
        cases result <;> trivial
    · intro r
      cases r with
      | some r => trivial
      | none =>
        apply Prog.uses_bind
        · cases schema with
          | none => trivial
          | some schema =>
            refine ⟨trivial, ?_⟩
            intro rows
            cases rows with
            | error e => trivial
            | ok rows =>
              simp only
              split
              · trivial
              · refine ⟨trivial, ?_⟩
                intro result
                cases result <;> trivial
        · intro r
          cases r with
          | some r => trivial
          | none =>
            exact Prog.uses_bind (Prog.uses_mono (fun _ => keepsEnabled_of_harmless) (reloadSkill_harmless app name))
              (fun _ => trivial)

theorem putConfig_uses (app : AppState) (name : Text) (values : Values) (order : Readout (Σ _ : Text, Text)) :
    (putConfig app name values order).Uses KeepsEnabled := by
  have hcheck : ∀ schema, (checkConfig app name values order schema).Uses KeepsEnabled := by
    intro schema
    unfold checkConfig
    split
    · trivial
    · split
      · trivial
      · exact writeConfig_uses app name schema _
  unfold putConfig
  split
  · cases app.skills with
    | none => exact hcheck none
    | some handle => exact ⟨trivial, hcheck⟩
  · trivial

theorem disableSkill_disciplined (app : AppState) (name : Text) : Disciplined app (disableSkill app name) := by
  unfold disableSkill
  split
  · refine ⟨?_, ?_⟩
    · intro n s e hc hgo hskills
      cases hc
      obtain ⟨handle, hhandle⟩ := Option.isSome_iff_exists.mp hskills
      simp [serve, hgo, hhandle, Prog.head]
    · intro result
      cases result with
      | error e => trivial
      | ok u =>
        simp only
        cases app.skills with
        | none => trivial
        | some handle => exact ⟨fun _ _ _ h => (by cases h), fun _ => trivial⟩
  · trivial

/-- Every handler is disciplined. -/
theorem handle_disciplined (app : AppState) (r : Request) : Disciplined app (handle app r) := by
  cases r with
  | listSkills => exact disciplined_of_harmless (listSkills_harmless app)
  | putConfig name values order => exact disciplined_of_uses (putConfig_uses app name values order)
  | enableSkill name => exact disciplined_of_harmless (enableSkill_harmless app name)
  | disableSkill name => exact disableSkill_disciplined app name
  | uploadSkill parts => exact disciplined_of_harmless (uploadSkill_harmless app parts)
  | installBundled name => exact disciplined_of_harmless (installBundled_harmless app name)

/-! ## All of them -/

/-- Some disable of the skill has its removal to come. -/
def Removing (s : Handlers) (name : Text) : Prop := ∃ p ∈ s.programs, p.head = some (.remove name)

/-- A disabled skill whose file loads is reloaded only while a removal is to come. -/
def Undisturbed (_ : List Empty) (s : Handlers) : Prog.PoolAction Request Choice → Prop
  | .request _ => True
  | .advance i e => ∀ skills name merged next, s.programs[i]? = some (.call (.reloadPath skills name merged) next) →
    (∃ plugin, e.plugin (s.shared.files.lookup name) = .ok plugin ∧
      (plugin.provides skills.locales).isSome = true) →
      s.shared.Disabled name → Removing s name

/-- Whatever is loaded and disabled, a handler is about to remove. -/
structure Unloading (app : AppState) (_ : List Empty) (s : Handlers) : Prop where
  disciplined : ∀ p ∈ s.programs, Disciplined app p
  removing : ∀ name, s.shared.Disabled name → s.shared.Loaded app name → Removing s name

theorem Removing.advance {s : Handlers} {name : Text} (h : Removing s name) {i : Nat} {c : Op}
    {next : c.Answer → Handler Response} (hi : s.programs[i]? = some (.call c next)) (hc : c ≠ .remove name)
    (shared : AdminState) (q : Handler Response) :
    Removing { shared, programs := s.programs.modify i (fun _ => q) } name := by
  obtain ⟨p, hp, hhead⟩ := h
  obtain ⟨j, hj⟩ := List.mem_iff_getElem?.mp hp
  have hne : i ≠ j := by
    rintro rfl
    rw [hi] at hj
    cases hj
    exact hc (Option.some.inj hhead)
  refine ⟨p, List.mem_of_getElem? (i := j) ?_, hhead⟩
  rw [Slots.getElem?_modify, if_neg hne]
  exact hj

theorem Unloading.advance {app : AppState} {s : Handlers} {i : Nat} {e : Choice} {c : Op}
    {next : c.Answer → Handler Response} (hs : Unloading app [] s) (hundisturbed : Undisturbed [] s (.advance i e))
    (hi : s.programs[i]? = some (.call c next)) :
    Unloading app [] { shared := (serve s.shared e c).1,
                       programs := s.programs.modify i (fun _ => next (serve s.shared e c).2) } := by
  have hself := hs.disciplined _ (List.mem_of_getElem? hi)
  have hplace : (s.programs.modify i (fun _ => next (serve s.shared e c).2))[i]? =
      some (next (serve s.shared e c).2) := by
    rw [Slots.getElem?_modify, if_pos rfl, hi]
    rfl
  refine ⟨?_, ?_⟩
  · intro p hp
    obtain ⟨j, hj⟩ := List.mem_iff_getElem?.mp hp
    rcases Slots.modify_cases hj with ⟨-, hold⟩ | ⟨-, -, -, rfl⟩
    · exact hs.disciplined p (List.mem_of_getElem? hold)
    · exact hself.2 _
  · intro name hdisabled hloaded
    have hframe := serve_frame s.shared e c
    -- a call that makes nothing disabled or loaded leaves the removal where it is
    have hkeep : s.shared.Disabled name → s.shared.Loaded app name → c ≠ .remove name →
        Removing { shared := (serve s.shared e c).1,
                   programs := s.programs.modify i (fun _ => next (serve s.shared e c).2) } name :=
      fun hd hl hc => (hs.removing name hd hl).advance hi hc _ _
    have hsame : (∀ skill enabled, c ≠ .skillEnabledSet skill enabled) → s.shared.Disabled name := by
      intro hc
      unfold AdminState.Disabled at hdisabled
      rw [hframe.2.1 hc] at hdisabled
      exact hdisabled
    cases c with
    | skillEnabledSet skill enabled =>
      have hbefore : s.shared.Loaded app name := by
        refine ⟨hloaded.1, ?_⟩
        have := hloaded.2
        rw [hframe.2.2 (fun _ _ _ h => by cases h) (fun _ h => by cases h)] at this
        exact this
      by_cases hnew : s.shared.Disabled name
      · exact hkeep hnew hbefore (fun h => by cases h)
      · -- it has become disabled at this call
        cases hfail : e.failure with
        | some message =>
          simp only [AdminState.Disabled, serve, hfail] at hdisabled
          exact absurd hdisabled hnew
        | none =>
          have hlookup : (s.shared.skillState.insert skill enabled).lookup name = some false := by
            simpa [AdminState.Disabled, serve, hfail] using hdisabled
          rw [Table.lookup_insert_eq] at hlookup
          split at hlookup
          · rename_i hname
            cases hlookup
            subst hname
            exact ⟨_, List.mem_of_getElem? hplace, hself.1 name s.shared e rfl hfail hloaded.1⟩
          · exact absurd hlookup hnew
    | reloadPath skills skill merged =>
      have hd := hsame (fun _ _ h => by cases h)
      rcases mem_plugins_reloadPath merged hloaded.2 with hbefore | ⟨rfl, hbuilds⟩
      · exact hkeep hd ⟨hloaded.1, hbefore⟩ (fun h => by cases h)
      · exact (hundisturbed skills name merged next hi hbuilds hd).advance hi (fun h => by cases h) _ _
    | remove skill =>
      obtain ⟨hbefore, hne⟩ := mem_plugins_remove hloaded.2
      exact hkeep (hsame (fun _ _ h => by cases h)) ⟨hloaded.1, hbefore⟩ (fun h => hne (by cases h; rfl))
    | _ =>
      refine hkeep (hsame (fun _ _ h => by cases h)) ⟨hloaded.1, ?_⟩ (fun h => by cases h)
      have hafter := hloaded.2
      rw [hframe.2.2 (fun _ _ _ h => by cases h) (fun _ h => by cases h)] at hafter
      exact hafter

theorem unloading_step {app : AppState} (o : List Empty) (s : Handlers) (a : Prog.PoolAction Request Choice)
    (s' : Handlers) (p : List Empty) (hs : Unloading app o s) (hundisturbed : Undisturbed o s a)
    (hstep : (handlers app).step s a = some (s', p)) : Unloading app (o ++ p) s' := by
  cases a with
  | request r =>
    cases hstep
    refine ⟨?_, ?_⟩
    · intro q hq
      rcases List.mem_append.mp hq with hold | hnew
      · exact hs.disciplined q hold
      · cases List.mem_singleton.mp hnew
        exact handle_disciplined app r
    · intro name hdisabled hloaded
      obtain ⟨q, hq, hhead⟩ := hs.removing name hdisabled hloaded
      exact ⟨q, List.mem_append_left _ hq, hhead⟩
  | advance i e =>
    simp only [handlers, Prog.pool] at hstep
    split at hstep
    · rename_i c next hi
      cases hstep
      have hadvance := Unloading.advance ⟨hs.disciplined, hs.removing⟩ hundisturbed hi
      exact ⟨hadvance.disciplined, hadvance.removing⟩
    · cases hstep

/-- **Disabled skills stay unloaded.** In every undisturbed run from a state in
which no disabled skill is loaded, none is loaded once all handlers have returned. -/
theorem unloaded_of_undisturbed {app : AppState} {shared : AdminState} {as : List (Prog.PoolAction Request Choice)}
    {s : Handlers} {o : List Empty} (hstart : shared.Unloaded app)
    (hundisturbed : (handlers app).Along Undisturbed [] ⟨shared, []⟩ as)
    (hrun : (handlers app).run ⟨shared, []⟩ as = some (s, o)) (hfinished : s.Finished) : s.shared.Unloaded app := by
  have hinit : Unloading app [] ⟨shared, []⟩ :=
    ⟨fun p hp => (by cases hp), fun name hdisabled hloaded => absurd hloaded (hstart name hdisabled)⟩
  have hend := Machine.run_invariant_along unloading_step as [] _ _ _ hinit hundisturbed hrun
  intro name hdisabled hloaded
  obtain ⟨p, hp, hhead⟩ := hend.removing name hdisabled hloaded
  rw [hfinished p hp] at hhead
  cases hhead

/-- The removal is to come, or the flag does not say disabled. -/
def Handlers.inTurn (s : Handlers) : Prog.PoolAction Request Choice → Bool
  | .request _ => true
  | .advance i _ =>
    match s.programs[i]? with
    | some (.call (.reloadPath _ name _) _) =>
      s.shared.skillState.lookup name != some false ||
        s.programs.any (fun p =>
          match p.head with
          | some (.remove n) => n == name
          | _ => false)
    | _ => true

theorem undisturbed_of_inTurn {o : List Empty} {s : Handlers} {a : Prog.PoolAction Request Choice}
    (h : s.inTurn a = true) : Undisturbed o s a := by
  cases a with
  | request r => trivial
  | advance i e =>
    intro skills name merged next hi _ hdisabled
    have hdisabled' : s.shared.skillState.lookup name = some false := hdisabled
    simp only [Handlers.inTurn, hi, hdisabled', Bool.or_eq_true, List.any_eq_true] at h
    rcases h with h | ⟨p, hp, hhead⟩
    · exact absurd h (by decide)
    · refine ⟨p, hp, ?_⟩
      split at hhead
      · rename_i n hn
        rw [hn, beq_iff_eq.mp hhead]
      · cases hhead

/-- The clock is in the directory. -/
def clockInstalled : AdminState :=
  { settings := ∅, skillState := ∅, files := (∅ : Table Text WasmFile).insert clock ⟨none⟩, registry := .new }

theorem clockInstalled_unloaded (app : AppState) : clockInstalled.Unloaded app := by
  intro name hdisabled _
  cases hdisabled

/-- A save of no values reads the flags; then the clock is disabled; then the
save reloads it, before or after the removal. -/
def savedMidway (removedFirst : Bool) : List (Prog.PoolAction Request Choice) :=
  [.request (.putConfig clock ∅ .plain), .request (.disableSkill clock),
   .advance 0 calm, .advance 0 calm, .advance 0 calm, .advance 0 calm, .advance 0 calm, .advance 1 calm] ++
  if removedFirst then [.advance 1 calm, .advance 0 calm] else [.advance 0 calm, .advance 1 calm]

/-- The clock is disabled and loaded, and no handler is left. -/
theorem disabled_midway_loaded :
    clockInstalled.Unloaded plainApp ∧
    ∃ s o, (handlers plainApp).run ⟨clockInstalled, []⟩ (savedMidway true) = some (s, o) ∧ s.Finished ∧
      ¬ s.shared.Unloaded plainApp := by
  refine ⟨clockInstalled_unloaded plainApp, _, _, rfl, by decide, ?_⟩
  intro hunloaded
  exact hunloaded clock (by decide) ⟨rfl, by decide⟩

/-- With the reload before the removal, it ends unloaded. -/
theorem disabled_last_unloaded :
    ∃ s o, (handlers plainApp).run ⟨clockInstalled, []⟩ (savedMidway false) = some (s, o) ∧
      s.shared.Unloaded plainApp := by
  have hturn : (handlers plainApp).Along (fun _ s a => Handlers.inTurn s a = true) [] ⟨clockInstalled, []⟩
      (savedMidway false) := by decide
  have hundisturbed : (handlers plainApp).Along Undisturbed [] ⟨clockInstalled, []⟩ (savedMidway false) :=
    Machine.along_imp (P := fun _ _ => True) (fun _ _ _ _ _ _ _ _ => trivial)
      (fun _ _ _ _ h => undisturbed_of_inTurn h) (savedMidway false) [] (Prog.Pool.mk clockInstalled []) trivial hturn
  have hdone : ∃ (s : Handlers) (o : List Empty),
      (handlers plainApp).run ⟨clockInstalled, []⟩ (savedMidway false) = some (s, o) ∧ s.Finished :=
    ⟨_, _, rfl, by decide⟩
  obtain ⟨s, o, hrun, hfinished⟩ := hdone
  exact ⟨s, o, hrun, unloaded_of_undisturbed (clockInstalled_unloaded plainApp) hundisturbed hrun hfinished⟩

end AthenaVoice.Admin
