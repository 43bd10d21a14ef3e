import AthenaVoice.Wasm.Registry

/-
  Loading the skills directory — `wasm/registry.rs`

  `load_dir` walks the directory in the order the file system lists it. A file
  that is not a `.wasm` is passed over, one whose plugin cannot be built is
  warned about and passed over; every other is installed, and an error of
  `install` or of the listing ends the walk.

  What is proved:
    1. `loadEntries_ok`, `loadEntries_error` — the walk installs what every file
       brings, or ends at the first file that is built and then fails to answer.
    2. `loads_every_skill_iff` — the registry returned holds exactly the skills
       of the directory when no file that is built fails `pattern_rules`, and
       only then: one such file is the end of all the others.

  Correspondence (Rust ↔ Lean):
    `load_dir`                 `loadDir` (`loadEntries`)
    `fs::read_dir`, its items  `Except Text (List (Except Text DirEntry))`
-/

namespace AthenaVoice.Wasm

open Lib

/-- A file of the directory: its path with its extension, if that is UTF-8,
what the plugin builder makes of it, and the orders of iteration met while it
is installed. -/
structure DirEntry where
  path : Registry.SkillPath
  extension : Option Text
  built : Except Text Plugin
  order : IndexOrder

/-- `RegistryError`, as `load_dir` raises it. -/
inductive LoadError where
  | io (dir source : Text)
  | skill (e : RegistryError)
  deriving DecidableEq, Repr

/-- The extension that is looked for. -/
def DirEntry.isWasm (entry : DirEntry) : Bool := entry.extension == some "wasm".toList

/-- The loop of `load_dir`. -/
def loadEntries (dir : Text) (locales : List Text) : Registry → List (Except Text DirEntry) →
    Except LoadError Registry
  | registry, [] => .ok registry
  | _, .error source :: _ => .error (.io dir source)
  | registry, .ok entry :: read =>
    if !entry.isWasm then loadEntries dir locales registry read
    else
      match Registry.buildPluginFromFile entry.path entry.built with
      -- warned about, and on to the next file
      | .error _ => loadEntries dir locales registry read
      | .ok (name, plugin) =>
        match registry.install name plugin locales entry.order with
        | (_, .error e) => .error (.skill e)
        | (registry', .ok ()) => loadEntries dir locales registry' read

def loadDir (dir : Text) (read : Except Text (List (Except Text DirEntry))) (locales : List Text) :
    Except LoadError Registry :=
  match read with
  | .error source => .error (.io dir source)
  | .ok entries => loadEntries dir locales .new entries

/-! ## What a directory holds -/

/-- The file's plugin is built, under this name. -/
def DirEntry.Builds (entry : DirEntry) (name : Text) (plugin : Plugin) : Prop :=
  entry.isWasm = true ∧ Registry.buildPluginFromFile entry.path entry.built = .ok (name, plugin)

/-- The skill a file brings: it builds, and `pattern_rules` succeeds for every locale. -/
def DirEntry.Brings (entry : DirEntry) (locales : List Text) (name : Text) (skill : Skill) : Prop :=
  ∃ plugin, entry.Builds name plugin ∧ plugin.provides locales = some skill

/-- A file that builds answers for every locale. -/
def DirEntry.Answers (entry : DirEntry) (locales : List Text) : Prop :=
  ∀ name plugin, entry.Builds name plugin → ∀ a ∈ plugin.answers 0 locales, a.2.isOk = true

/-- No two files are built under one name. -/
def DistinctNames (files : List DirEntry) : Prop :=
  files.Pairwise (fun e f => ∀ name p q, e.Builds name p → ¬ f.Builds name q)

/-- `load_dir` returns a registry of exactly the skills the files bring. -/
def LoadsEverySkill (dir : Text) (locales : List Text) (files : List DirEntry) : Prop :=
  ∃ registry c, loadDir dir (.ok (files.map .ok)) locales = .ok registry ∧ Refines c registry ∧
    ∀ name skill, c name = some skill ↔ ∃ e ∈ files, e.Brings locales name skill

theorem provides_isSome_iff (plugin : Plugin) (locales : List Text) :
    (plugin.provides locales).isSome = true ↔ ∀ a ∈ plugin.answers 0 locales, a.2.isOk = true := by
  unfold Plugin.provides
  simp only
  rw [← List.all_eq_true]
  split
  · rename_i hall
    exact ⟨fun _ => hall, fun _ => rfl⟩
  · rename_i hnot
    exact ⟨fun h => (by cases h), fun h => absurd h hnot⟩

theorem install_cases (r : Registry) (name : Text) (plugin : Plugin) (locales : List Text) (order : IndexOrder) :
    ((r.install name plugin locales order).2 = .ok () ∧ (plugin.provides locales).isSome = true) ∨
      ∃ e, (r.install name plugin locales order).2 = .error e ∧ plugin.provides locales = none := by
  unfold Registry.install
  rcases queryRules_provides name plugin locales with ⟨rules, skill, hq, hp, -⟩ | ⟨e, hq, hp⟩
  · rw [hq, hp]
    exact Or.inl ⟨rfl, rfl⟩
  · rw [hq, hp]
    exact Or.inr ⟨e, rfl, rfl⟩

/-! ## The walk -/

section

variable (dir : Text) (locales : List Text) (r : Registry) (read : List (Except Text DirEntry))

theorem loadEntries_other {entry : DirEntry} (h : entry.isWasm = false) :
    loadEntries dir locales r (.ok entry :: read) = loadEntries dir locales r read := by
  simp [loadEntries, h]

theorem loadEntries_unbuilt {entry : DirEntry} {e : RegistryError} (h : entry.isWasm = true)
    (hbuild : Registry.buildPluginFromFile entry.path entry.built = .error e) :
    loadEntries dir locales r (.ok entry :: read) = loadEntries dir locales r read := by
  simp [loadEntries, h, hbuild]

theorem loadEntries_built {entry : DirEntry} {name : Text} {plugin : Plugin} (h : entry.Builds name plugin) :
    loadEntries dir locales r (.ok entry :: read) =
      match r.install name plugin locales entry.order with
      | (_, .error e) => .error (.skill e)
      | (registry', .ok ()) => loadEntries dir locales registry' read := by
  obtain ⟨hwasm, hbuild⟩ := h
  simp [loadEntries, hwasm, hbuild]

end

/-- The catalog gains what one file brings. -/
def Catalog.add (c : Catalog) (locales : List Text) (entry : DirEntry) : Catalog :=
  if entry.isWasm then
    match Registry.buildPluginFromFile entry.path entry.built with
    | .error _ => c
    | .ok (name, plugin) => c.install name (plugin.provides locales)
  else c

theorem loadEntries_cons {c : Catalog} {r : Registry} (R : Refines c r) (dir : Text) (locales : List Text)
    {entry : DirEntry} (h : entry.Answers locales) (read : List (Except Text DirEntry)) :
    ∃ r', Refines (c.add locales entry) r' ∧
      loadEntries dir locales r (.ok entry :: read) = loadEntries dir locales r' read := by
  unfold Catalog.add
  cases hwasm : entry.isWasm with
  | false => exact ⟨r, R, loadEntries_other dir locales r read hwasm⟩
  | true =>
    cases hbuild : Registry.buildPluginFromFile entry.path entry.built with
    | error e => exact ⟨r, R, loadEntries_unbuilt dir locales r read hwasm hbuild⟩
    | ok built =>
      obtain ⟨name, plugin⟩ := built
      have hsome := (provides_isSome_iff plugin locales).mpr (h name plugin ⟨hwasm, hbuild⟩)
      refine ⟨(r.install name plugin locales entry.order).1, refines_install R name plugin locales entry.order, ?_⟩
      rcases install_cases r name plugin locales entry.order with ⟨hok, -⟩ | ⟨e, -, hnone⟩
      · rw [loadEntries_built dir locales r read ⟨hwasm, hbuild⟩,
          ← Prod.eta (r.install name plugin locales entry.order), hok]
      · rw [hnone] at hsome
        cases hsome

/-- The walk over files that all answer. -/
theorem loadEntries_ok (dir : Text) (locales : List Text) : ∀ (files : List DirEntry) {c : Catalog} {r : Registry},
    Refines c r → (∀ e ∈ files, e.Answers locales) →
      ∃ r', loadEntries dir locales r (files.map .ok) = .ok r' ∧
        Refines (files.foldl (fun c e => c.add locales e) c) r' := by
  intro files
  induction files with
  | nil => intro c r R _; exact ⟨r, rfl, R⟩
  | cons entry files ih =>
    intro c r R h
    obtain ⟨r₁, R₁, hload⟩ := loadEntries_cons R dir locales (h entry List.mem_cons_self) (files.map .ok)
    obtain ⟨r', hr', R'⟩ := ih R₁ (fun e he => h e (List.mem_cons_of_mem entry he))
    exact ⟨r', hload.trans hr', R'⟩

/-- A file that is built and does not answer ends the walk, whatever stands after it. -/
theorem loadEntries_error (dir : Text) (locales : List Text) : ∀ (files : List DirEntry) {c : Catalog} {r : Registry},
    Refines c r → (∃ e ∈ files, ¬ e.Answers locales) →
      ∃ e, loadEntries dir locales r (files.map .ok) = .error e := by
  intro files
  induction files with
  | nil =>
    intro c r _ h
    obtain ⟨e, he, -⟩ := h
    cases he
  | cons entry files ih =>
    intro c r R h
    by_cases hentry : entry.Answers locales
    · obtain ⟨r₁, R₁, hload⟩ := loadEntries_cons R dir locales hentry (files.map .ok)
      have hrest : ∃ e ∈ files, ¬ e.Answers locales := by
        obtain ⟨e, he, hnot⟩ := h
        rcases List.mem_cons.mp he with rfl | he
        · exact absurd hentry hnot
        · exact ⟨e, he, hnot⟩
      obtain ⟨e, he⟩ := ih R₁ hrest
      exact ⟨e, hload.trans he⟩
    · obtain ⟨name, plugin, ⟨hwasm, hbuild⟩, hfails⟩ : ∃ name plugin, entry.Builds name plugin ∧
          ¬ ∀ a ∈ plugin.answers 0 locales, a.2.isOk = true := by
        unfold DirEntry.Answers at hentry
        simpa only [not_forall, exists_prop] using hentry
      show ∃ e, loadEntries dir locales r (.ok entry :: files.map .ok) = .error e
      rcases install_cases r name plugin locales entry.order with ⟨-, hsome⟩ | ⟨e, herror, -⟩
      · exact absurd ((provides_isSome_iff plugin locales).mp hsome) hfails
      · refine ⟨.skill e, ?_⟩
        rw [loadEntries_built dir locales r (files.map .ok) ⟨hwasm, hbuild⟩,
          ← Prod.eta (r.install name plugin locales entry.order), herror]

/-! ## The catalog of a directory -/

theorem Catalog.add_cases (c : Catalog) (locales : List Text) (entry : DirEntry) :
    (∃ name skill, entry.Brings locales name skill ∧ c.add locales entry = Function.update c name (some skill)) ∨
      (∀ name skill, ¬ entry.Brings locales name skill) ∧ c.add locales entry = c := by
  unfold Catalog.add DirEntry.Brings DirEntry.Builds
  cases hwasm : entry.isWasm with
  | false =>
    refine Or.inr ⟨?_, rfl⟩
    intro name skill h
    obtain ⟨_, ⟨h, -⟩, -⟩ := h
    cases h
  | true =>
    cases hbuild : Registry.buildPluginFromFile entry.path entry.built with
    | error e =>
      refine Or.inr ⟨?_, rfl⟩
      intro name skill h
      obtain ⟨_, ⟨-, h⟩, -⟩ := h
      cases h
    | ok built =>
      obtain ⟨name, plugin⟩ := built
      cases hp : plugin.provides locales with
      | none =>
        refine Or.inr ⟨?_, by simp only [if_true, hp, Catalog.install]⟩
        intro name' skill h
        obtain ⟨_, ⟨-, h⟩, hskill⟩ := h
        cases h
        rw [hp] at hskill
        cases hskill
      | some skill =>
        exact Or.inl ⟨name, skill, ⟨plugin, ⟨rfl, rfl⟩, hp⟩, by simp only [if_true, hp, Catalog.install]⟩

theorem DirEntry.Brings.unique {e : DirEntry} {locales : List Text} {name name' : Text} {skill skill' : Skill}
    (h : e.Brings locales name skill) (h' : e.Brings locales name' skill') : name = name' ∧ skill = skill' := by
  obtain ⟨p, ⟨-, hp⟩, hs⟩ := h
  obtain ⟨p', ⟨-, hp'⟩, hs'⟩ := h'
  rw [hp] at hp'
  cases hp'
  rw [hs] at hs'
  cases hs'
  exact ⟨rfl, rfl⟩

theorem foldl_add_eq_some (locales : List Text) (name : Text) (skill : Skill) :
    ∀ (files : List DirEntry) (c : Catalog), DistinctNames files →
      ((files.foldl (fun c e => c.add locales e) c) name = some skill ↔
        (∃ e ∈ files, e.Brings locales name skill) ∨
          c name = some skill ∧ ∀ e ∈ files, ∀ s, ¬ e.Brings locales name s) := by
  intro files
  induction files with
  | nil => intro c _; simp
  | cons entry files ih =>
    intro c hnames
    obtain ⟨hhead, htail⟩ := List.pairwise_cons.mp hnames
    rw [List.foldl_cons, ih _ htail]
    rcases Catalog.add_cases c locales entry with ⟨name', skill', hbrings, hadd⟩ | ⟨hnot, hadd⟩
    · have honly : ∀ n s, entry.Brings locales n s → n = name' ∧ s = skill' := fun n s h => h.unique hbrings
      have hrest : name = name' → ∀ e ∈ files, ∀ s, ¬ e.Brings locales name s := by
        intro hname e he s h
        obtain ⟨p, hp, -⟩ := hbrings
        obtain ⟨q, hq, -⟩ := h
        exact hhead e he name' p q hp (hname ▸ hq)
      rw [hadd]
      by_cases hname : name = name'
      · rw [hname] at hrest ⊢
        rw [Function.update_self]
        have hfiles := hrest rfl
        constructor
        · intro h
          rcases h with ⟨e, he, h⟩ | ⟨h, -⟩
          · exact absurd h (hfiles e he skill)
          · cases h
            exact Or.inl ⟨entry, List.mem_cons_self, hbrings⟩
        · intro h
          rcases h with ⟨e, he, h⟩ | ⟨-, h⟩
          · rcases List.mem_cons.mp he with rfl | he
            · exact Or.inr ⟨congrArg some (honly _ _ h).2.symm, hfiles⟩
            · exact absurd h (hfiles e he skill)
          · exact absurd hbrings (h entry List.mem_cons_self skill')
      · have hskip : ∀ s, ¬ entry.Brings locales name s := fun s h => hname (honly name s h).1
        rw [Function.update_of_ne hname]
        simp only [List.mem_cons, exists_eq_or_imp, forall_eq_or_imp, hskip, false_or, not_false_eq_true,
          implies_true, true_and]
    · rw [hadd]
      simp only [List.mem_cons, exists_eq_or_imp, forall_eq_or_imp, hnot, false_or, not_false_eq_true,
        implies_true, true_and]

/-- **One bad skill.** Whatever the files and the order they are listed in, the
registry holds exactly the skills the files bring, unless some file is built
and then fails `pattern_rules` for some locale. -/
theorem loads_every_skill_iff (dir : Text) (locales : List Text) (files : List DirEntry)
    (hnames : DistinctNames files) :
    LoadsEverySkill dir locales files ↔ ∀ e ∈ files, e.Answers locales := by
  constructor
  · intro h
    obtain ⟨registry, c, hload, -, -⟩ := h
    by_contra hnot
    have hfails : ∃ e ∈ files, ¬ e.Answers locales := by
      simpa only [not_forall, exists_prop] using hnot
    obtain ⟨e, he⟩ := loadEntries_error dir locales files refines_new hfails
    have : loadDir dir (.ok (files.map .ok)) locales = .error e := he
    rw [hload] at this
    cases this
  · intro h
    obtain ⟨r, hr, R⟩ := loadEntries_ok dir locales files refines_new h
    refine ⟨r, _, hr, R, ?_⟩
    intro name skill
    rw [foldl_add_eq_some locales name skill files _ hnames]
    simp

/-- A clock skill in a file of this name; without `french` its rules for "fr" fail. -/
def clockFile (name : Text) (handle : Nat) (french : Bool) : DirEntry :=
  { path := ⟨some name, name ++ ".wasm".toList⟩
    extension := some "wasm".toList
    built := .ok (clockPlugin handle french)
    order := plainOrder }

theorem clockFiles_distinct (french french' : Bool) :
    DistinctNames [clockFile "alarm".toList 1 french, clockFile "clock".toList 2 french'] := by
  apply List.pairwise_pair.mpr
  intro name p q hp hq
  have halarm : "alarm".toList = name := congrArg Prod.fst (Except.ok.inj hp.2)
  have hclock : "clock".toList = name := congrArg Prod.fst (Except.ok.inj hq.2)
  exact absurd (halarm.trans hclock.symm) (by decide)

/-- Two skills that answer are both loaded. -/
theorem both_clocks_loaded :
    DistinctNames [clockFile "alarm".toList 1 true, clockFile "clock".toList 2 true] ∧
      LoadsEverySkill "skills".toList ["en".toList, "fr".toList]
        [clockFile "alarm".toList 1 true, clockFile "clock".toList 2 true] := by
  have hnames := clockFiles_distinct true true
  refine ⟨hnames, (loads_every_skill_iff _ _ _ hnames).mpr ?_⟩
  intro e he name plugin hbuilds
  obtain ⟨-, hbuilds⟩ := hbuilds
  simp only [List.mem_cons, List.not_mem_nil, or_false] at he
  rcases he with rfl | rfl <;> cases hbuilds <;> decide

/-- The alarm does not know French: the clock is not loaded either. -/
theorem clock_lost_with_alarm :
    DistinctNames [clockFile "alarm".toList 1 false, clockFile "clock".toList 2 true] ∧
      (loadDir "skills".toList
        (.ok [.ok (clockFile "alarm".toList 1 false), .ok (clockFile "clock".toList 2 true)])
        ["en".toList, "fr".toList]).isOk = false ∧
      ¬ LoadsEverySkill "skills".toList ["en".toList, "fr".toList]
        [clockFile "alarm".toList 1 false, clockFile "clock".toList 2 true] := by
  have hfails : (loadDir "skills".toList
      (.ok [.ok (clockFile "alarm".toList 1 false), .ok (clockFile "clock".toList 2 true)])
      ["en".toList, "fr".toList]).isOk = false := by decide
  refine ⟨clockFiles_distinct false true, hfails, ?_⟩
  intro h
  obtain ⟨registry, c, hload, -, -⟩ := h
  have hload' : loadDir "skills".toList
      (.ok [.ok (clockFile "alarm".toList 1 false), .ok (clockFile "clock".toList 2 true)])
      ["en".toList, "fr".toList] = .ok registry := hload
  rw [hload'] at hfails
  cases hfails

end AthenaVoice.Wasm
