import AthenaVoice.Wasm.Retention

/-
  Two thresholds for one retention — `SkillRegistry::dispatch`, `host_state_set`

  Both collect a skill's keys older than its retention. `host_state_set`
  subtracts with saturation and under every setting; `dispatch` subtracts plainly
  and under settings above 0 only. A plain subtraction below 0 panics in a build
  that checks arithmetic and wraps in one that does not. `dispatch` subtracts with
  the plugin's mutex locked, so its panic poisons the mutex, and it unwraps the
  lock before anything else, so every later dispatch of the skill panics too.

  The response of a plugin is chosen outside, its panic included. A dispatch is
  one step here.

  What is proved:
    1. `thresholds_agree_iff` — they agree exactly under a retention above 0 and
       at most the clock.
    2. `hostStateSet_of_agree` — a write then collects what a dispatch does.
    3. `longest_retention` — the longest retention a config file can name.
    4. `poisoned_iff` — in every run of dispatches a mutex ends up poisoned
       exactly if a dispatch of its skill broke it.

  Correspondence (Rust ↔ Lean):
    `Arc<Mutex<dyn SkillPlugin>>`   `LockedPlugin`
    `dispatch`                      `dispatch`; its collection is `spawnGc`
    the collection of `host_state_set`   `setGc`
-/

namespace AthenaVoice.Wasm

open Lib Storage

/-- `a - b` on u64; `none` is the panic of a build that checks arithmetic. -/
def subU64 (checks : Bool) (a b : UInt64) : Option UInt64 := if checks && decide (a < b) then none else some (a - b)

/-- A plugin behind its mutex: what its `ctx` answers, and whether the mutex is poisoned. -/
structure LockedPlugin where
  ctx : Option SkillCtx
  poisoned : Bool

inductive Dispatched (ρ : Type) where
  | handled (response : ρ)
  | failed (message : Text)
  | panicked
  deriving DecidableEq

/-- The collection `dispatch` spawns; `none` is a panic. -/
def spawnGc (checks : Bool) (skill : Text) (ctx : Option SkillCtx) (nowSec : UInt64) :
    Option (Option (Text × UInt64)) :=
  match ctx.bind SkillCtx.retentionGcAfterSec with
  | some gcSec => if gcSec > 0 then (subU64 checks nowSec gcSec).map (fun n => some (skill, n)) else some none
  | none => some none

/-- `dispatch`, under the clock's answer and the plugin's, `none` being a panic in
the plugin: the plugins after it, the collection spawned, and how it ends. -/
def dispatch {ρ : Type} (checks : Bool) (plugins : Table Text LockedPlugin) (skill : Text) (clock : Except Text UInt64)
    (response : Option ρ) : Table Text LockedPlugin × Option (Text × UInt64) × Dispatched ρ :=
  match clock with
  | .error e => (plugins, none, .failed ("time error: ".toList ++ e))
  | .ok nowSec =>
    match plugins.lookup skill with
    | none => (plugins, none, .failed ("unknown skill: ".toList ++ skill))
    | some plugin =>
      -- `plugin.lock().unwrap()`
      if plugin.poisoned then (plugins, none, .panicked)
      else
        match spawnGc checks skill plugin.ctx nowSec with
        | none => (plugins.insert skill { plugin with poisoned := true }, none, .panicked)
        | some spawned =>
          match response with
          | some response => (plugins, spawned, .handled response)
          | none => (plugins.insert skill { plugin with poisoned := true }, spawned, .panicked)

/-- The collection of `host_state_set`. -/
def setGc (ctx : SkillCtx) (now : UInt64) : Option (Text × UInt64) :=
  ctx.retentionGcAfterSec.map (fun ttl => (ctx.name, saturatingSub now ttl))

/-- The store once the collection ran, if there is one. -/
def collect (s : Store) : Option (Text × UInt64) → Store
  | some (skill, n) => s.skillKvGc skill n
  | none => s

theorem hostStateSet_eq (ctx : SkillCtx) (now : UInt64) (s : Store) (key : Text) (val : Bytes) :
    hostStateSet ctx now s key val = collect (s.skillKvSet now ctx.name key val) (setGc ctx now) := by
  unfold hostStateSet setGc
  cases ctx.retentionGcAfterSec <;> rfl

/-! ## One dispatch -/

/-- A dispatch of a skill with this retention, at this second, does not panic by
itself; its threshold is that of `host_state_set`; and the two collections leave
the same rows of any store. -/
structure Agree (checks : Bool) (skill : Text) (ttl now : UInt64) : Prop where
  noPanic : ∀ (ρ : Type) (plugins : Table Text LockedPlugin) (response : ρ),
    plugins.lookup skill = some ⟨some ⟨skill, some ttl⟩, false⟩ →
    (dispatch checks plugins skill (.ok now) (some response)).2.2 ≠ .panicked
  threshold : ∀ n, spawnGc checks skill (some ⟨skill, some ttl⟩) now = some (some (skill, n)) →
    setGc ⟨skill, some ttl⟩ now = some (skill, n)
  rows : ∀ spawned, spawnGc checks skill (some ⟨skill, some ttl⟩) now = some spawned →
    ∀ (s : Store) k, (collect s spawned).skillKv.lookup k =
      (collect s (setGc ⟨skill, some ttl⟩ now)).skillKv.lookup k

section Single

variable {skill : Text} {ttl now : UInt64}

theorem subU64_of_le (checks : Bool) {a b : UInt64} (h : b ≤ a) : subU64 checks a b = some (a - b) := by
  unfold subU64
  rw [decide_eq_false (UInt64.not_lt.mpr h), Bool.and_false]
  rfl

theorem spawnGc_pos (checks : Bool) (hpos : 0 < ttl) :
    spawnGc checks skill (some ⟨skill, some ttl⟩) now = (subU64 checks now ttl).map (fun n => some (skill, n)) := by
  unfold spawnGc
  rw [Option.bind_some]
  exact if_pos hpos

theorem spawnGc_eq_setGc (checks : Bool) (hpos : 0 < ttl) (hle : ttl ≤ now) :
    spawnGc checks skill (some ⟨skill, some ttl⟩) now = some (setGc ⟨skill, some ttl⟩ now) := by
  have hset : setGc ⟨skill, some ttl⟩ now = some (skill, now - ttl) := by
    have hsat : saturatingSub now ttl = now - ttl := if_pos hle
    rw [setGc, Option.map_some, hsat]
  rw [spawnGc_pos checks hpos, subU64_of_le checks hle, hset]
  rfl

theorem dispatch_underflow {ρ : Type} {plugins : Table Text LockedPlugin} (response : Option ρ) (hpos : 0 < ttl)
    (hlt : now < ttl) (hlookup : plugins.lookup skill = some ⟨some ⟨skill, some ttl⟩, false⟩) :
    dispatch true plugins skill (.ok now) response =
      (plugins.insert skill ⟨some ⟨skill, some ttl⟩, true⟩, none, .panicked) := by
  have hsub : subU64 true now ttl = none := if_pos (by simpa using hlt)
  have hspawn : spawnGc true skill (some ⟨skill, some ttl⟩) now = none := by
    rw [spawnGc_pos true hpos, hsub]
    rfl
  unfold dispatch
  simp only [hlookup, hspawn]
  rfl

theorem wrapped_ne_saturated (hlt : now < ttl) : now - ttl ≠ saturatingSub now ttl := by
  intro h
  have hzero : (now - ttl).toNat = 0 := by
    rw [h, toNat_saturatingSub]
    have := UInt64.lt_iff_toNat_lt.mp hlt
    omega
  have hsub := UInt64.toNat_sub now ttl
  have hbound := UInt64.toNat_lt ttl
  have hn := UInt64.lt_iff_toNat_lt.mp hlt
  omega

end Single

/-- A store with one row of the skill, stamped `t`. -/
def oneRow (skill : Text) (t : Int) : Store :=
  { Store.new with skillKv := (∅ : Table (Text × Text) KvRow).insert (skill, []) ⟨[], t⟩ }

theorem oneRow_lookup (skill : Text) (t : Int) : (oneRow skill t).skillKv.lookup (skill, []) = some ⟨[], t⟩ :=
  AList.lookup_insert _

theorem Agree.pos {checks : Bool} {skill : Text} {ttl now : UInt64} (h : Agree checks skill ttl now) : 0 < ttl := by
  by_contra hnot
  have hzero : ttl = 0 := by
    have hn : ¬ 0 < ttl.toNat := fun hn => hnot (UInt64.lt_iff_toNat_lt.mpr hn)
    exact UInt64.toNat_inj.mp (by rw [UInt64.toNat_zero]; omega)
  subst hzero
  have hsat : saturatingSub now 0 = now := by
    apply UInt64.toNat_inj.mp
    rw [toNat_saturatingSub, UInt64.toNat_zero, Nat.sub_zero]
  have hset : setGc ⟨skill, some 0⟩ now = some (skill, now) := by
    rw [setGc, Option.map_some, hsat]
  have hrow : (oneRow skill (asI64 now)).skillKv.lookup (skill, []) = none := by
    calc (oneRow skill (asI64 now)).skillKv.lookup (skill, [])
        = (collect (oneRow skill (asI64 now)) (setGc ⟨skill, some 0⟩ now)).skillKv.lookup (skill, []) :=
          h.rows none rfl _ _
      _ = ((oneRow skill (asI64 now)).skillKvGc skill now).skillKv.lookup (skill, []) := by rw [hset, collect]
      _ = none := Store.skillKv_gc_due _ (oneRow_lookup skill _) (Int.le_refl _)
  rw [oneRow_lookup] at hrow
  cases hrow

theorem Agree.le {checks : Bool} {skill : Text} {ttl now : UInt64} (h : Agree checks skill ttl now) : ttl ≤ now := by
  by_contra hnot
  have hlt : now < ttl := UInt64.not_le.mp hnot
  cases checks with
  | true =>
    have hlookup : ((∅ : Table Text LockedPlugin).insert skill ⟨some ⟨skill, some ttl⟩, false⟩).lookup skill =
        some ⟨some ⟨skill, some ttl⟩, false⟩ := AList.lookup_insert _
    apply h.noPanic Unit _ () hlookup
    rw [dispatch_underflow _ h.pos hlt hlookup]
  | false =>
    have hset := h.threshold (now - ttl) (spawnGc_pos false h.pos)
    rw [setGc, Option.map_some, Option.some.injEq, Prod.mk.injEq] at hset
    exact wrapped_ne_saturated hlt hset.2.symm

/-- **The two thresholds.** The two collections agree, in a build of either kind,
exactly under a retention above 0 and at most the clock. -/
theorem thresholds_agree_iff (checks : Bool) (skill : Text) (ttl now : UInt64) :
    Agree checks skill ttl now ↔ 0 < ttl ∧ ttl ≤ now := by
  constructor
  · intro h
    exact ⟨h.pos, h.le⟩
  · rintro ⟨hpos, hle⟩
    have hsame : spawnGc checks skill (some ⟨skill, some ttl⟩) now = some (setGc ⟨skill, some ttl⟩ now) :=
      spawnGc_eq_setGc checks hpos hle
    refine ⟨?_, ?_, ?_⟩
    · intro ρ plugins response hlookup
      unfold dispatch
      simp only [hlookup, hsame]
      simp
    · intro n hn
      rw [hsame] at hn
      exact Option.some.inj hn
    · intro spawned hspawned s k
      rw [hsame] at hspawned
      rw [Option.some.inj hspawned]

/-- Where the two agree, a write collects what a dispatch of that second does. -/
theorem hostStateSet_of_agree {checks : Bool} {skill : Text} {ttl now : UInt64} (h : Agree checks skill ttl now) :
    ∃ spawned, spawnGc checks skill (some ⟨skill, some ttl⟩) now = some spawned ∧ ∀ (s : Store) key val,
      hostStateSet ⟨skill, some ttl⟩ now s key val = collect (s.skillKvSet now skill key val) spawned :=
  ⟨setGc ⟨skill, some ttl⟩ now, spawnGc_eq_setGc checks h.pos h.le,
    fun s key val => hostStateSet_eq _ now s key val⟩

/-- The longest retention a config file can name, 2^63 - 1 seconds: with checked
arithmetic the first dispatch panics and poisons the mutex, without it the
threshold wraps. -/
theorem longest_retention :
    dispatch true ((∅ : Table Text LockedPlugin).insert "timer".toList
        ⟨some ⟨"timer".toList, some 9223372036854775807⟩, false⟩) "timer".toList (.ok 1784000000) (some ()) =
      ((∅ : Table Text LockedPlugin).insert "timer".toList
        ⟨some ⟨"timer".toList, some 9223372036854775807⟩, true⟩, none, .panicked) ∧
    ¬ Agree true "timer".toList 9223372036854775807 1784000000 ∧
    ¬ Agree false "timer".toList 9223372036854775807 1784000000 := by
  have hlookup : ((∅ : Table Text LockedPlugin).insert "timer".toList
      ⟨some ⟨"timer".toList, some 9223372036854775807⟩, false⟩).lookup "timer".toList =
      some ⟨some ⟨"timer".toList, some 9223372036854775807⟩, false⟩ := AList.lookup_insert _
  have hlt : (1784000000 : UInt64) < 9223372036854775807 := by decide
  have hpanic := dispatch_underflow (some ()) (by decide) hlt hlookup
  rw [AList.insert_insert] at hpanic
  refine ⟨hpanic, ?_, ?_⟩
  · intro h
    exact h.noPanic Unit _ () hlookup (by rw [hpanic])
  · intro h
    have hset := h.threshold _ (spawnGc_pos false (by decide))
    revert hset
    decide

/-! ## Whole runs -/

/-- A dispatch that is made: of which skill, what the clock answers and what the plugin. -/
structure Dispatch (ρ : Type) where
  skill : Text
  clock : Except Text UInt64
  response : Option ρ

/-- Dispatches one after the other, with what each spawned and how it ended. -/
def dispatches {ρ : Type} (checks : Bool) :
    Machine (Table Text LockedPlugin) (Dispatch ρ) (Text × Option (Text × UInt64) × Dispatched ρ) where
  step := fun plugins d =>
    let done := dispatch checks plugins d.skill d.clock d.response
    some (done.1, [(d.skill, done.2)])

/-- The dispatch panics with the mutex locked: its threshold does, or the plugin. -/
def Breaks {ρ : Type} (checks : Bool) (ctx : Option SkillCtx) (d : Dispatch ρ) : Prop :=
  ∃ nowSec, d.clock = .ok nowSec ∧ (spawnGc checks d.skill ctx nowSec = none ∨ d.response = none)

theorem dispatch_poisoned {ρ : Type} (checks : Bool) {plugins : Table Text LockedPlugin} {skill : Text}
    {ctx : Option SkillCtx} (hlookup : plugins.lookup skill = some ⟨ctx, true⟩) (nowSec : UInt64)
    (response : Option ρ) :
    dispatch checks plugins skill (.ok nowSec) response = (plugins, none, .panicked) := by
  unfold dispatch
  simp only [hlookup]
  rfl

theorem dispatch_other {ρ : Type} (checks : Bool) (plugins : Table Text LockedPlugin) {skill skill' : Text}
    (hne : skill' ≠ skill) (clock : Except Text UInt64) (response : Option ρ) :
    (dispatch checks plugins skill clock response).1.lookup skill' = plugins.lookup skill' := by
  unfold dispatch
  cases clock with
  | error e => rfl
  | ok nowSec =>
    cases plugins.lookup skill with
    | none => rfl
    | some plugin =>
      simp only
      split
      · rfl
      · split
        · exact AList.lookup_insert_ne hne
        · split
          · rfl
          · exact AList.lookup_insert_ne hne

theorem dispatch_lookup {ρ : Type} (checks : Bool) {plugins : Table Text LockedPlugin} {skill : Text}
    {plugin : LockedPlugin} (hlookup : plugins.lookup skill = some plugin) (d : Dispatch ρ) :
    ∃ poisoned, (dispatch checks plugins d.skill d.clock d.response).1.lookup skill =
      some ⟨plugin.ctx, poisoned⟩ ∧
      (poisoned = true ↔ plugin.poisoned = true ∨ d.skill = skill ∧ Breaks checks plugin.ctx d) := by
  obtain ⟨skill', clock, response⟩ := d
  obtain ⟨ctx, poisoned⟩ := plugin
  by_cases hskill : skill' = skill
  · subst hskill
    cases clock with
    | error e => exact ⟨poisoned, hlookup, by simp [Breaks]⟩
    | ok nowSec =>
      cases poisoned with
      | true =>
        rw [dispatch_poisoned checks hlookup]
        exact ⟨true, hlookup, by simp⟩
      | false =>
        unfold dispatch
        simp only [hlookup]
        cases hspawn : spawnGc checks skill' ctx nowSec with
        | none => exact ⟨true, AList.lookup_insert _, by simp [Breaks, hspawn]⟩
        | some spawned =>
          cases response with
          | none => exact ⟨true, AList.lookup_insert _, by simp [Breaks]⟩
          | some response => exact ⟨false, hlookup, by simp [Breaks, hspawn]⟩
  · refine ⟨poisoned, ?_, by simp [hskill]⟩
    rw [dispatch_other checks plugins (Ne.symm hskill)]
    exact hlookup

/-- **Lost skills.** After any run of dispatches a loaded skill's mutex is poisoned
exactly if it was before or one of its dispatches broke it. -/
theorem poisoned_iff {ρ : Type} (checks : Bool) {skill : Text} : ∀ {ds : List (Dispatch ρ)}
    {plugins plugins' : Table Text LockedPlugin} {plugin : LockedPlugin}
    {o : List (Text × Option (Text × UInt64) × Dispatched ρ)}, plugins.lookup skill = some plugin →
      (dispatches checks).run plugins ds = some (plugins', o) →
      ∃ poisoned, plugins'.lookup skill = some ⟨plugin.ctx, poisoned⟩ ∧
        (poisoned = true ↔ plugin.poisoned = true ∨ ∃ d ∈ ds, d.skill = skill ∧
          Breaks checks plugin.ctx d) := by
  intro ds
  induction ds with
  | nil =>
    intro plugins plugins' plugin o hlookup hrun
    cases hrun
    exact ⟨plugin.poisoned, hlookup, by simp⟩
  | cons d ds ih =>
    intro plugins plugins' plugin o hlookup hrun
    obtain ⟨plugins₁, o₁, o₂, hstep, hrest, rfl⟩ := (Machine.run_cons_some _).mp hrun
    cases hstep
    obtain ⟨poisoned₁, hlookup₁, hfirst⟩ := dispatch_lookup checks hlookup d
    obtain ⟨poisoned, hlookup', hlater⟩ := ih hlookup₁ hrest
    refine ⟨poisoned, hlookup', hlater.trans ?_⟩
    rw [hfirst, List.exists_mem_cons_iff]
    exact or_assoc

end AthenaVoice.Wasm
