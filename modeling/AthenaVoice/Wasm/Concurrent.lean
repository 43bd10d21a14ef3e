import AthenaVoice.Lib.Machine
import AthenaVoice.Lib.Slots
import AthenaVoice.Wasm.Registry

/-
  Concurrent registry calls — `SkillRegistry::install`, `reload_path`, `remove`

  Each call takes four locks one after the other, and between two of them any
  other call may take any of its own. `install` puts its plugin, its rules and
  its schema, and rebuilds the index; `remove` drops them, and rebuilds the
  index if it found a plugin. `rebuild_index` keeps the lock of the rules until
  the index is stored, so it is one section. `install` and `reload_path` query
  the plugin, and build it, before they take the first lock.

  What is proved:
    1. `install_alone`, `remove_alone` — a call that nothing interleaves with
       is the operation.
    2. `take_spec` — what a section changes, and what is left of its call.
    3. `repaired_step` — what a run keeps while its calls are orderly.
    4. `quiescent_coherent` — then the registry is coherent whenever every call
       has returned.
-/

namespace AthenaVoice.Wasm

open Lib CoreTypes Intent
open Sdk (PatternRule ConfigSchema)

/-- The section a call takes next. -/
inductive Section where
  | plugins
  | rules
  | schemas
  | index
  | returned
  deriving DecidableEq, Repr

/-- What a call is to do: `install` with what it queried, `remove` with what
`plugins.remove` answered, once it has. -/
inductive Op where
  | install (handle : Nat) (rules : PluginRules) (schema : Option ConfigSchema)
  | remove (existed : Bool)

structure Call where
  name : Text
  op : Op
  next : Section

/-- The call is an `install`. -/
def Call.installs (c : Call) : Bool :=
  match c.op with
  | .install _ _ _ => true
  | .remove _ => false

/-- The call takes its next section. -/
def Call.take (order : IndexOrder) (r : Registry) (c : Call) : Option (Registry × Call) :=
  match c.next, c.op with
  | .plugins, .install handle _ _ => some (r.putPlugin c.name handle, { c with next := .rules })
  | .plugins, .remove _ =>
    some (r.dropPlugin c.name, { c with op := .remove (r.plugins.lookup c.name).isSome, next := .rules })
  | .rules, .install _ rules _ => some (r.putRules c.name rules, { c with next := .schemas })
  | .rules, .remove _ => some (r.dropRules c.name, { c with next := .schemas })
  | .schemas, .install _ _ schema => some (r.putSchema c.name schema, { c with next := .index })
  | .schemas, .remove existed =>
    some (r.dropSchema c.name, { c with next := if existed then .index else .returned })
  | .index, _ => some (r.rebuildIndex order, { c with next := .returned })
  | .returned, _ => none

/-- The registry and the calls made so far, the returned ones included. -/
structure Racing where
  registry : Registry
  calls : List Call

/-- A call is made, or takes its next section. -/
inductive RacingAction where
  | install (name : Text) (plugin : Plugin) (locales : List Text)
  | reloadPath (path : Registry.SkillPath) (built : Except Text Plugin) (locales : List Text)
  | remove (name : Text)
  | advance (i : Nat) (order : IndexOrder)

/-- `install` up to its first lock; a query that fails touches nothing. -/
def Racing.install (s : Racing) (name : Text) (plugin : Plugin) (locales : List Text) : Racing :=
  match queryRules name plugin 0 locales ∅ with
  | .error _ => s
  | .ok rules =>
    { s with calls := s.calls ++
      [{ name := name, op := .install plugin.handle rules plugin.configSchema, next := .plugins }] }

def Racing.step (s : Racing) : RacingAction → Option (Racing × List Empty)
  | .install name plugin locales => some (s.install name plugin locales, [])
  | .reloadPath path built locales =>
    match Registry.buildPluginFromFile path built with
    | .error _ => some (s, [])
    | .ok (name, plugin) => some (s.install name plugin locales, [])
  | .remove name => some ({ s with calls := s.calls ++ [{ name := name, op := .remove false, next := .plugins }] }, [])
  | .advance i order =>
    match s.calls[i]? with
    | none => none
    | some c =>
      match c.take order s.registry with
      | none => none
      | some (registry, c') => some ({ registry := registry, calls := s.calls.modify i (fun _ => c') }, [])

/-- Any number of calls, section by section. -/
def Racing.machine : Machine Racing RacingAction Empty := ⟨Racing.step⟩

/-- An empty registry, and no call made. -/
def Racing.new : Racing := { registry := .new, calls := [] }

def Racing.Quiescent (s : Racing) : Prop := ∀ c ∈ s.calls, c.next = .returned

instance (s : Racing) : Decidable s.Quiescent := inferInstanceAs (Decidable (∀ c ∈ s.calls, c.next = .returned))

/-! ## A call on its own -/

/-- The sections of one call, one after the other. -/
def Call.toEnd (order : IndexOrder) : Nat → Registry → Call → Registry × Call
  | 0, r, c => (r, c)
  | n + 1, r, c =>
    match c.take order r with
    | none => (r, c)
    | some (r', c') => c'.toEnd order n r'

/-- An `install` that nothing interleaves with is `Registry.install`. -/
theorem install_alone (r : Registry) (name : Text) (plugin : Plugin) (locales : List Text) (order : IndexOrder)
    {rules : PluginRules} (hq : queryRules name plugin 0 locales ∅ = .ok rules) :
    Call.toEnd order 4 r { name := name, op := .install plugin.handle rules plugin.configSchema, next := .plugins } =
      ((r.install name plugin locales order).1,
        { name := name, op := .install plugin.handle rules plugin.configSchema, next := .returned }) := by
  simp [Call.toEnd, Call.take, Registry.install, hq]

/-- A `remove` that nothing interleaves with is `Registry.remove`. -/
theorem remove_alone (r : Registry) (name : Text) (order : IndexOrder) :
    Call.toEnd order 4 r { name := name, op := .remove false, next := .plugins } =
      ((r.remove name order).1, { name := name, op := .remove (r.remove name order).2, next := .returned }) := by
  cases h : (r.plugins.lookup name).isSome <;> simp [Call.toEnd, Call.take, Registry.remove, h]

/-! ## One section -/

/-- The call has a rebuild of the index to come. -/
def Call.willRebuild (c : Call) : Bool :=
  match c.next, c.op with
  | .returned, _ => false
  | _, .install _ _ _ => true
  | .plugins, .remove _ => false
  | _, .remove existed => existed

/-- What a section of `c` changes, and the call `c'` it leaves. -/
structure Took (c : Call) (r r' : Registry) (c' : Call) : Prop where
  name : c'.name = c.name
  installs : c'.installs = c.installs
  plugins : ∀ name, name ∈ r'.plugins ↔
    if c.next = .plugins ∧ name = c.name then c.installs = true else name ∈ r.plugins
  rules : ∀ name, name ∈ r'.pluginRules ↔
    if c.next = .rules ∧ name = c.name then c.installs = true else name ∈ r.pluginRules
  index : c.next ≠ .index → r'.patterns = r.patterns
  rebuilt : c.next = .index → ∀ locale, ∀ e ∈ r'.patterns.entries locale, e.2 ∈ r.pluginRules
  next : c'.next = .rules ↔ c.next = .plugins
  willRebuild : c.next ≠ .index → c.willRebuild = true → c'.willRebuild = true

theorem mem_rebuildIndex (r : Registry) (order : IndexOrder) (locale : Text) {e : RuleEntry}
    (he : e ∈ (r.rebuildIndex order).patterns.entries locale) : e.2 ∈ r.pluginRules := by
  have hmem := (Registry.rebuildIndex_perm r order locale).mem_iff.mp he
  obtain ⟨name, hname, hrule⟩ := List.mem_flatMap.mp hmem
  cases hl : (r.pluginRules.lookup name).bind (fun rules => rules.lookup locale) with
  | none => simp [hl] at hrule
  | some rules =>
    simp only [hl, Option.elim_some, List.mem_map] at hrule
    obtain ⟨rule, -, rfl⟩ := hrule
    exact AList.mem_keys.mp hname

/-- What the section a call takes does. -/
theorem take_spec {order : IndexOrder} {r r' : Registry} {c c' : Call} (h : c.take order r = some (r', c')) :
    Took c r r' c' := by
  obtain ⟨name, op, next⟩ := c
  -- by the section, and by the call: the first three write the name alone, the last only the index
  cases next with
  | returned => simp [Call.take] at h
  | plugins =>
    cases op with
    | install handle rules schema =>
      cases h
      refine ⟨rfl, rfl, ?_, ?_, fun _ => rfl, by simp, by simp, by simp [Call.willRebuild]⟩
      · intro k
        by_cases hk : k = name <;> simp [Registry.putPlugin, Call.installs, hk]
      · intro k
        simp [Registry.putPlugin]
    | remove existed =>
      cases h
      refine ⟨rfl, rfl, ?_, ?_, fun _ => rfl, by simp, by simp, ?_⟩
      · intro k
        by_cases hk : k = name <;> simp [Registry.dropPlugin, Call.installs, hk]
      · intro k
        simp [Registry.dropPlugin]
      · simp [Call.willRebuild]
  | rules =>
    cases op with
    | install handle rules schema =>
      cases h
      refine ⟨rfl, rfl, ?_, ?_, fun _ => rfl, by simp, by simp, by simp [Call.willRebuild]⟩
      · intro k
        simp [Registry.putRules]
      · intro k
        by_cases hk : k = name <;> simp [Registry.putRules, Call.installs, hk]
    | remove existed =>
      cases h
      refine ⟨rfl, rfl, ?_, ?_, fun _ => rfl, by simp, by simp, by simp [Call.willRebuild]⟩
      · intro k
        simp [Registry.dropRules]
      · intro k
        by_cases hk : k = name <;> simp [Registry.dropRules, Call.installs, hk]
  | schemas =>
    cases op with
    | install handle rules schema =>
      cases h
      obtain ⟨hplugins, hrules, hpatterns⟩ := putSchema_frame r name schema
      refine ⟨rfl, rfl, ?_, ?_, fun _ => hpatterns, by simp, by simp, by simp [Call.willRebuild]⟩
      · intro k
        simp [hplugins]
      · intro k
        simp [hrules]
    | remove existed =>
      cases h
      refine ⟨rfl, rfl, ?_, ?_, fun _ => rfl, by simp, ?_, ?_⟩
      · intro k
        simp [Registry.dropSchema]
      · intro k
        simp [Registry.dropSchema]
      · cases existed <;> simp
      · cases existed <;> simp [Call.willRebuild]
  | index =>
    cases h
    refine ⟨rfl, rfl, ?_, ?_, by simp, fun _ locale e he => mem_rebuildIndex r order locale he, by simp,
      by simp⟩
    · intro k
      simp [Registry.rebuildIndex]
    · intro k
      simp [Registry.rebuildIndex]

/-! ## Whole runs -/

/-- The plugins and the rules are stored for the same skills, and the index
holds rules of loaded skills only. -/
structure Coherent (r : Registry) : Prop where
  keys : ∀ name, name ∈ r.plugins ↔ name ∈ r.pluginRules
  index : ∀ locale, ∀ e ∈ r.patterns.entries locale, e.2 ∈ r.plugins

/-- A call is about to store the rules that go with the plugin stored under `name`. -/
def Racing.Follows (s : Racing) (name : Text) (j : Nat) : Prop :=
  ∃ c, s.calls[j]? = some c ∧ c.name = name ∧ c.next = .rules ∧
    (c.installs = true ↔ name ∈ s.registry.plugins)

/-- The rules of a skill are stored, or dropped, by the call that last had its
plugin, or before another such call; and rules that are in the index are
dropped only while some call has a rebuild to come. -/
def Racing.Orderly (_ : List Empty) (s : Racing) : RacingAction → Prop
  | .advance i _ => ∀ c, s.calls[i]? = some c → c.next = .rules →
    ((c.installs = true ↔ c.name ∈ s.registry.plugins) ∨ ∃ j, j ≠ i ∧ s.Follows c.name j) ∧
    (c.installs = false → (∃ locale, ∃ e ∈ s.registry.patterns.entries locale, e.2 = c.name) →
      ∃ c' ∈ s.calls, c'.willRebuild = true)
  | _ => True

/-- Whatever is amiss, a call in flight is about to repair it. -/
structure Repaired (_ : List Empty) (s : Racing) : Prop where
  keys : ∀ name, (name ∈ s.registry.plugins ↔ name ∈ s.registry.pluginRules) ∨ ∃ j, s.Follows name j
  index : ∀ locale, ∀ e ∈ s.registry.patterns.entries locale,
    e.2 ∈ s.registry.pluginRules ∨ ∃ c ∈ s.calls, c.willRebuild = true

theorem repaired_new : Repaired [] .new where
  keys name := Or.inl Iff.rfl
  index locale e he := by simp [Racing.new, Registry.new] at he

theorem Repaired.call {s : Racing} (hs : Repaired [] s) (c : Call) :
    Repaired [] { s with calls := s.calls ++ [c] } where
  keys name := by
    refine (hs.keys name).imp_right ?_
    rintro ⟨j, c', hc', hname, hnext, hkind⟩
    refine ⟨j, c', ?_, hname, hnext, hkind⟩
    show (s.calls ++ [c])[j]? = some c'
    rw [List.getElem?_append_left (List.getElem?_eq_some_iff.mp hc').1]
    exact hc'
  index locale e he := by
    refine (hs.index locale e he).imp_right ?_
    rintro ⟨c', hc', hw⟩
    exact ⟨c', List.mem_append_left _ hc', hw⟩

theorem Repaired.advance {s : Racing} (hs : Repaired [] s) {i : Nat} {order : IndexOrder} {c c' : Call}
    {r' : Registry} (horderly : s.Orderly [] (.advance i order)) (hi : s.calls[i]? = some c)
    (htake : c.take order s.registry = some (r', c')) :
    Repaired [] { registry := r', calls := s.calls.modify i (fun _ => c') } := by
  have htook := take_spec htake
  have hself : (s.calls.modify i (fun _ => c'))[i]? = some c' := by
    rw [Slots.getElem?_modify, if_pos rfl, hi]
    rfl
  have hother : ∀ j, j ≠ i → (s.calls.modify i (fun _ => c'))[j]? = s.calls[j]? := by
    intro j hj
    rw [Slots.getElem?_modify, if_neg (Ne.symm hj)]
  -- a call that follows still does, unless it is this one or this one takes the plugins
  have hfollows : ∀ name j, j ≠ i → ¬ (c.next = .plugins ∧ name = c.name) → s.Follows name j →
      Racing.Follows { registry := r', calls := s.calls.modify i (fun _ => c') } name j := by
    rintro name j hj hplugins ⟨d, hd, hname, hnext, hkind⟩
    refine ⟨d, (hother j hj).trans hd, hname, hnext, ?_⟩
    show _ ↔ name ∈ r'.plugins
    rw [htook.plugins, if_neg hplugins]
    exact hkind
  have hrebuild : c.next ≠ .index → (∃ d ∈ s.calls, d.willRebuild = true) →
      ∃ d ∈ s.calls.modify i (fun _ => c'), d.willRebuild = true := by
    rintro hindex ⟨d, hd, hw⟩
    obtain ⟨j, hj⟩ := List.mem_iff_getElem?.mp hd
    by_cases hji : j = i
    · subst hji
      obtain rfl : c = d := Option.some.inj (hi.symm.trans hj)
      exact ⟨c', List.mem_of_getElem? hself, htook.willRebuild hindex hw⟩
    · exact ⟨d, List.mem_of_getElem? ((hother j hji).trans hj), hw⟩
  constructor
  · intro name
    show (name ∈ r'.plugins ↔ name ∈ r'.pluginRules) ∨ _
    by_cases hplugins : c.next = .plugins ∧ name = c.name
    · -- the call itself is now between the two
      refine Or.inr ⟨i, c', hself, htook.name.trans hplugins.2.symm, htook.next.mpr hplugins.1, ?_⟩
      show _ ↔ name ∈ r'.plugins
      rw [htook.plugins, if_pos hplugins, htook.installs]
    · by_cases hrules : c.next = .rules ∧ name = c.name
      · obtain ⟨hnext, rfl⟩ := hrules
        rcases (horderly c hi hnext).1 with hkind | ⟨j, hj, hfollow⟩
        · refine Or.inl ?_
          rw [htook.plugins, if_neg hplugins, htook.rules, if_pos ⟨hnext, rfl⟩]
          exact hkind.symm
        · exact Or.inr ⟨j, hfollows _ j hj hplugins hfollow⟩
      · rcases hs.keys name with hsame | ⟨j, hfollow⟩
        · refine Or.inl ?_
          rw [htook.plugins, if_neg hplugins, htook.rules, if_neg hrules]
          exact hsame
        · refine Or.inr ⟨j, hfollows name j ?_ hplugins hfollow⟩
          rintro rfl
          obtain ⟨d, hd, hname, hnext, -⟩ := hfollow
          obtain rfl : c = d := Option.some.inj (hi.symm.trans hd)
          exact hrules ⟨hnext, hname.symm⟩
  · intro locale e he
    show e.2 ∈ r'.pluginRules ∨ _
    by_cases hindex : c.next = .index
    · refine Or.inl ?_
      rw [htook.rules, if_neg (fun h => by rw [hindex] at h; exact absurd h.1 (by decide))]
      exact htook.rebuilt hindex locale e he
    · rw [htook.index hindex] at he
      by_cases hrules : c.next = .rules ∧ e.2 = c.name
      · rw [htook.rules, if_pos hrules]
        cases hkind : c.installs with
        | true => exact Or.inl rfl
        | false =>
          exact Or.inr (hrebuild hindex ((horderly c hi hrules.1).2 hkind ⟨locale, e, he, hrules.2⟩))
      · rw [htook.rules, if_neg hrules]
        exact (hs.index locale e he).imp_right (hrebuild hindex)

/-- Every orderly step keeps it. -/
theorem repaired_step (o : List Empty) (s : Racing) (a : RacingAction) (s' : Racing) (p : List Empty)
    (hs : Repaired o s) (horderly : s.Orderly o a) (hstep : Racing.machine.step s a = some (s', p)) :
    Repaired (o ++ p) s' := by
  have hinstall : ∀ name plugin locales, Repaired [] (s.install name plugin locales) := by
    intro name plugin locales
    unfold Racing.install
    split
    · exact ⟨hs.keys, hs.index⟩
    · exact Repaired.call ⟨hs.keys, hs.index⟩ _
  suffices h : Repaired [] s' from ⟨h.keys, h.index⟩
  simp only [Racing.machine, Racing.step] at hstep
  cases a with
  | install name plugin locales =>
    cases hstep
    exact hinstall name plugin locales
  | reloadPath path built locales =>
    simp only at hstep
    split at hstep
    · cases hstep
      exact ⟨hs.keys, hs.index⟩
    · cases hstep
      exact hinstall _ _ _
  | remove name =>
    cases hstep
    exact Repaired.call ⟨hs.keys, hs.index⟩ _
  | advance i order =>
    cases hi : s.calls[i]? with
    | none => simp [hi] at hstep
    | some c =>
      simp only [hi] at hstep
      cases htake : c.take order s.registry with
      | none => simp [htake] at hstep
      | some taken =>
        simp only [htake, Option.some.injEq, Prod.mk.injEq] at hstep
        obtain ⟨rfl, -⟩ := hstep
        exact Repaired.advance ⟨hs.keys, hs.index⟩ horderly hi htake

theorem Repaired.coherent {o : List Empty} {s : Racing} (hs : Repaired o s) (hq : s.Quiescent) :
    Coherent s.registry := by
  have hkeys : ∀ name, name ∈ s.registry.plugins ↔ name ∈ s.registry.pluginRules := by
    intro name
    rcases hs.keys name with hsame | ⟨j, c, hc, -, hnext, -⟩
    · exact hsame
    · have hreturned := hq c (List.mem_of_getElem? hc)
      rw [hnext] at hreturned
      exact absurd hreturned (by decide)
  refine ⟨hkeys, ?_⟩
  intro locale e he
  rw [hkeys]
  rcases hs.index locale e he with hstored | ⟨c, hc, hw⟩
  · exact hstored
  · simp [Call.willRebuild, hq c hc] at hw

/-- **Concurrent calls.** In every run whose steps are orderly, the registry is
coherent in every state in which all calls have returned. -/
theorem quiescent_coherent {as : List RacingAction} {s : Racing} {o : List Empty}
    (horderly : Racing.machine.Along Racing.Orderly [] .new as) (hrun : Racing.machine.run .new as = some (s, o))
    (hq : s.Quiescent) : Coherent s.registry :=
  (Machine.run_invariant_along repaired_step as [] _ _ _ repaired_new horderly hrun).coherent hq

/-- The plugin stored is as the call left it, and the call rebuilds the index. -/
def Racing.inTurn (s : Racing) : RacingAction → Bool
  | .advance i _ =>
    match s.calls[i]? with
    | some c => c.next != .rules || (c.installs == decide (c.name ∈ s.registry.plugins) && c.willRebuild)
    | none => true
  | _ => true

theorem Racing.orderly_of_inTurn {o : List Empty} {s : Racing} {a : RacingAction} (h : s.inTurn a = true) :
    s.Orderly o a := by
  cases a with
  | install name plugin locales => trivial
  | reloadPath path built locales => trivial
  | remove name => trivial
  | advance i order =>
    intro c hc hnext
    simp [Racing.inTurn, hc, hnext] at h
    obtain ⟨hkind, hrebuild⟩ := h
    refine ⟨Or.inl ?_, fun _ _ => ⟨c, List.mem_of_getElem? hc, hrebuild⟩⟩
    simp [hkind]

/-- An install and a remove of the clock; the remove runs between the install's
first two sections. -/
def removedMidway : List RacingAction :=
  let clock := "clock".toList
  [.install clock (clockPlugin 1 true) ["en".toList], .remove clock,
   .advance 0 plainOrder, .advance 1 plainOrder, .advance 1 plainOrder, .advance 1 plainOrder, .advance 1 plainOrder,
   .advance 0 plainOrder, .advance 0 plainOrder, .advance 0 plainOrder]

/-- The clock is not loaded, and its rules are stored and matched. -/
theorem removed_midway_matched :
    ∃ s o, Racing.machine.run .new removedMidway = some (s, o) ∧ s.Quiescent ∧ ¬ Coherent s.registry := by
  refine ⟨_, _, rfl, by decide, ?_⟩
  intro hcoherent
  have hkey := (hcoherent.keys "clock".toList).mpr (by decide)
  exact absurd hkey (by decide)

/-- The same two calls, the remove one section behind the install. -/
def removedBehind : List RacingAction :=
  let clock := "clock".toList
  [.install clock (clockPlugin 1 true) ["en".toList], .remove clock,
   .advance 0 plainOrder, .advance 0 plainOrder, .advance 1 plainOrder, .advance 0 plainOrder, .advance 1 plainOrder,
   .advance 1 plainOrder, .advance 0 plainOrder, .advance 1 plainOrder]

theorem removed_behind_coherent :
    ∃ s o, Racing.machine.run .new removedBehind = some (s, o) ∧ s.Quiescent ∧ Coherent s.registry := by
  have hturn : Racing.machine.Along (fun _ s a => s.inTurn a = true) [] .new removedBehind := by decide
  have horderly : Racing.machine.Along Racing.Orderly [] .new removedBehind :=
    Machine.along_imp (P := fun _ _ => True) (fun _ _ _ _ _ _ _ _ => trivial)
      (fun _ _ _ _ h => Racing.orderly_of_inTurn h) removedBehind [] Racing.new trivial hturn
  have hdone : ∃ s o, Racing.machine.run .new removedBehind = some (s, o) ∧ s.Quiescent :=
    ⟨_, _, rfl, by decide⟩
  obtain ⟨s, o, hrun, hq⟩ := hdone
  exact ⟨s, o, hrun, hq, quiescent_coherent horderly hrun hq⟩

end AthenaVoice.Wasm
