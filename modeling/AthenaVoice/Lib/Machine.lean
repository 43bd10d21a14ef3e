import Mathlib.Data.List.Basic
import Mathlib.Data.List.Induction

/-
  Machines with observations — partial deterministic transition systems

  A machine takes a state and an action to the next state and to the list of
  observations the step emits, or refuses the action. A nondeterministic
  program is a machine whose actions name the choices (which queue is served,
  what an outside party answers), so "for every interleaving" is "for every
  list of actions".

  What is proved:
    1. `run_invariant` — a property of (history, state) that every step
       preserves holds after every run. The history is everything emitted so
       far, so trace properties are invariants too.
    2. `run_invariant_along` — the same when the steps are only known to
       preserve the property under a side condition that the run meets.
    3. `along_congr` — under an invariant, two side conditions that agree at
       every step of a run are met by it together.
    4. `along_of_invariant`, `along_imp`, `throughout_of_along` — what an
       invariant gives at every step and in every state of a run.
    5. `along_or_lost` — what a run keeps exactly while its steps meet a condition.
    6. `throughout_iff_along` — a property of every state a run reaches is a
       side condition on its steps.
    7. `Recorded.concat` — what each observation has to do with those before it.
    8. `run_append`, `run_total`, `run_map_eq` — runs one after another, runs that
       are never refused, and runs that answer each action.
    9. `run_actions`, `Sometime.last` — invariants that look at the actions of a
       run too, and what happens at some step of it.
-/

namespace AthenaVoice.Lib

universe u v w

/-- A partial deterministic transition system with observations. -/
structure Machine (σ : Type u) (α : Type v) (ω : Type w) where
  step : σ → α → Option (σ × List ω)

namespace Machine

variable {σ : Type u} {α : Type v} {ω : Type w} (M : Machine σ α ω)

/-- The state after a list of actions and everything emitted on the way;
`none` once an action is refused. -/
def run : σ → List α → Option (σ × List ω)
  | s, [] => some (s, [])
  | s, a :: as =>
    match M.step s a with
    | none => none
    | some (s', o) => (run s' as).map (fun r => (r.1, o ++ r.2))

@[simp] theorem run_nil (s : σ) : M.run s [] = some (s, []) := rfl

theorem run_cons_some {s s' : σ} {a : α} {as : List α} {o : List ω} :
    M.run s (a :: as) = some (s', o) ↔
      ∃ s₁ o₁ o₂, M.step s a = some (s₁, o₁) ∧ M.run s₁ as = some (s', o₂) ∧ o = o₁ ++ o₂ := by
  simp only [run]
  refine ⟨?_, ?_⟩
  · intro h
    split at h
    · simp at h
    · rename_i s₁ o₁ hs
      obtain ⟨⟨s₂, o₂⟩, hr, he⟩ := Option.map_eq_some_iff.mp h
      simp at he
      obtain ⟨rfl, rfl⟩ := he
      exact ⟨s₁, o₁, o₂, hs, hr, rfl⟩
  · intro h
    obtain ⟨s₁, o₁, o₂, hs, hr, rfl⟩ := h
    simp [hs, hr]

/-- A run is split where its actions are. -/
theorem run_append : ∀ (as bs : List α) (s : σ),
    M.run s (as ++ bs) = (M.run s as).bind (fun r => (M.run r.1 bs).map (fun q => (q.1, r.2 ++ q.2))) := by
  intro as
  induction as with
  | nil => intro bs s; simp
  | cons a as ih =>
    intro bs s
    simp only [List.cons_append, run]
    split
    · rfl
    · rename_i s₁ o₁ hs
      rw [ih, Option.map_bind, Option.bind_map]
      congr 1
      funext r
      simp [Function.comp_def]

theorem run_concat {as : List α} {a : α} {s s' : σ} {o : List ω} :
    M.run s (as ++ [a]) = some (s', o) ↔
      ∃ s₁ o₁ o₂, M.run s as = some (s₁, o₁) ∧ M.step s₁ a = some (s', o₂) ∧ o = o₁ ++ o₂ := by
  rw [run_append, Option.bind_eq_some_iff]
  constructor
  · rintro ⟨⟨s₁, o₁⟩, hfront, hlast⟩
    obtain ⟨⟨s₂, o₂⟩, hone, heq⟩ := Option.map_eq_some_iff.mp hlast
    obtain ⟨s₃, o₃, o₄, hs, hnil, rfl⟩ := M.run_cons_some.mp hone
    cases hnil
    cases heq
    exact ⟨s₁, o₁, o₃, hfront, hs, by rw [List.append_nil]⟩
  · rintro ⟨s₁, o₁, o₂, hfront, hs, rfl⟩
    refine ⟨(s₁, o₁), hfront, Option.map_eq_some_iff.mpr ⟨(s', o₂), ?_, rfl⟩⟩
    exact M.run_cons_some.mpr ⟨s', o₂, [], hs, rfl, (List.append_nil o₂).symm⟩

/-- A machine that accepts every action where the invariant holds, and keeps it,
accepts every run. -/
theorem run_total {P : σ → Prop} (hstep : ∀ s a, P s → ∃ s' o, M.step s a = some (s', o) ∧ P s') :
    ∀ (as : List α) (s : σ), P s → ∃ s' o, M.run s as = some (s', o) ∧ P s' := by
  intro as
  induction as with
  | nil => intro s hP; exact ⟨s, [], rfl, hP⟩
  | cons a as ih =>
    intro s hP
    obtain ⟨s₁, o₁, hs, hP₁⟩ := hstep s a hP
    obtain ⟨s', o₂, hr, hP'⟩ := ih s₁ hP₁
    exact ⟨s', o₁ ++ o₂, M.run_cons_some.mpr ⟨s₁, o₁, o₂, hs, hr, rfl⟩, hP'⟩

/-- A machine whose every step emits one answer, alike its action, answers a run
action by action. -/
theorem run_map_eq {β : Type*} {f : ω → β} {g : α → β}
    (hstep : ∀ s a s' o, M.step s a = some (s', o) → o.map f = [g a]) :
    ∀ (as : List α) (s s' : σ) (o : List ω), M.run s as = some (s', o) → o.map f = as.map g := by
  intro as
  induction as with
  | nil =>
    intro s s' o hr
    simp at hr
    obtain ⟨rfl, rfl⟩ := hr
    rfl
  | cons a as ih =>
    intro s s' o hr
    obtain ⟨s₁, o₁, o₂, hs, hrest, rfl⟩ := M.run_cons_some.mp hr
    rw [List.map_append, hstep s a s₁ o₁ hs, ih s₁ s' o₂ hrest]
    rfl

/-- Induction on a run from its start, with the actions taken so far. -/
theorem run_actions {s₀ : σ} {P : List α → List ω → σ → Prop} (hstart : P [] [] s₀)
    (hstep : ∀ as h s a s' o, M.run s₀ as = some (s, h) → P as h s → M.step s a = some (s', o) →
      P (as ++ [a]) (h ++ o) s') :
    ∀ (as : List α) (s : σ) (h : List ω), M.run s₀ as = some (s, h) → P as h s := by
  intro as
  induction as using List.reverseRecOn with
  | nil =>
    intro s h hr
    cases hr
    exact hstart
  | append_singleton as a ih =>
    intro s h hr
    obtain ⟨s₁, o₁, o₂, hfront, hs, rfl⟩ := M.run_concat.mp hr
    exact hstep as o₁ s₁ a s o₂ hfront (ih s₁ o₁ hfront) hs

/-! ## Conditions on the steps of a run -/

/-- At some step of the run from `s₀` the condition holds, of the history before
it, the state and the action. -/
def Sometime (s₀ : σ) (C : List ω → σ → α → Prop) (as : List α) : Prop :=
  ∃ before a after s h, as = before ++ a :: after ∧ M.run s₀ before = some (s, h) ∧ C h s a

variable {M} in
theorem Sometime.concat {s₀ : σ} {C : List ω → σ → α → Prop} {as : List α}
    (hC : M.Sometime s₀ C as) (a : α) :
    M.Sometime s₀ C (as ++ [a]) := by
  obtain ⟨before, b, after, s, h, rfl, hr, hb⟩ := hC
  exact ⟨before, b, after ++ [a], s, h, by rw [List.append_assoc, List.cons_append], hr, hb⟩

variable {M} in
theorem Sometime.last {s₀ s : σ} {C : List ω → σ → α → Prop} {as : List α} {h : List ω}
    (hr : M.run s₀ as = some (s, h)) {a : α} (hC : C h s a) : M.Sometime s₀ C (as ++ [a]) :=
  ⟨as, a, [], s, h, rfl, hr, hC⟩

/-- Every step of the run is taken with `C` holding of the history, the state
and the action. -/
def Along (C : List ω → σ → α → Prop) : List ω → σ → List α → Prop
  | _, _, [] => True
  | h, s, a :: as => C h s a ∧ ∀ s' o, M.step s a = some (s', o) → Along C (h ++ o) s' as

/-- Every state the run reaches, the first and the last included, satisfies `Q`. -/
def Throughout (Q : List ω → σ → Prop) : List ω → σ → List α → Prop
  | h, s, [] => Q h s
  | h, s, a :: as => Q h s ∧ ∀ s' o, M.step s a = some (s', o) → Throughout Q (h ++ o) s' as

/-- Every observation of the history stands in `P` to those before it. -/
def Recorded (P : List ω → ω → Prop) (h : List ω) : Prop :=
  ∀ before o after, h = before ++ o :: after → P before o

theorem recorded_nil (P : List ω → ω → Prop) : Recorded P [] := by
  intro before o after hsplit
  cases before <;> cases hsplit

theorem Recorded.concat {P : List ω → ω → Prop} {h : List ω} {x : ω} (hh : Recorded P h) (hx : P h x) :
    Recorded P (h ++ [x]) := by
  intro before o after hsplit
  rcases List.eq_nil_or_concat after with rfl | ⟨after', o', rfl⟩
  · obtain ⟨rfl, heq⟩ := List.append_inj' hsplit rfl
    cases heq
    exact hx
  · rw [List.concat_eq_append, ← List.cons_append, ← List.append_assoc] at hsplit
    exact hh before o after' (List.append_inj' hsplit rfl).1

variable {M}

/-- **Invariants under a side condition.** -/
theorem run_invariant_along {P : List ω → σ → Prop} {C : List ω → σ → α → Prop}
    (hstep : ∀ h s a s' o, P h s → C h s a → M.step s a = some (s', o) → P (h ++ o) s') :
    ∀ (as : List α) (h : List ω) (s s' : σ) (o : List ω), P h s → M.Along C h s as →
      M.run s as = some (s', o) → P (h ++ o) s' := by
  intro as
  induction as with
  | nil =>
    intro h s s' o hP _ hr
    simp at hr
    obtain ⟨rfl, rfl⟩ := hr
    simpa using hP
  | cons a as ih =>
    intro h s s' o hP hC hr
    obtain ⟨s₁, o₁, o₂, hs, hrest, rfl⟩ := (run_cons_some M).mp hr
    rw [← List.append_assoc]
    exact ih _ _ _ _ (hstep _ _ _ _ _ hP hC.1 hs) (hC.2 _ _ hs) hrest

/-- **Invariants.** What every step preserves holds after every run. -/
theorem run_invariant {P : List ω → σ → Prop}
    (hstep : ∀ h s a s' o, P h s → M.step s a = some (s', o) → P (h ++ o) s')
    {as : List α} {h : List ω} {s s' : σ} {o : List ω} (hP : P h s)
    (hr : M.run s as = some (s', o)) : P (h ++ o) s' := by
  refine run_invariant_along (C := fun _ _ _ => True) (fun h s a s' o hp _ => hstep h s a s' o hp)
    as h s s' o hP ?_ hr
  clear hr hP
  induction as generalizing h s with
  | nil => trivial
  | cons a as ih => exact ⟨trivial, fun s' o _ => ih⟩

theorem along_of_forall {C : List ω → σ → α → Prop} : ∀ (as : List α) (h : List ω) (s : σ),
    (∀ a ∈ as, ∀ h s, C h s a) → M.Along C h s as := by
  intro as
  induction as with
  | nil => intro h s _; trivial
  | cons a as ih =>
    intro h s hall
    exact ⟨hall a List.mem_cons_self h s,
      fun s' o _ => ih _ _ (fun b hb => hall b (List.mem_cons_of_mem a hb))⟩

/-- Under an invariant that the steps keep while they meet one condition, they
meet what the two give. -/
theorem along_imp {P : List ω → σ → Prop} {C D : List ω → σ → α → Prop}
    (hstep : ∀ h s a s' o, P h s → C h s a → M.step s a = some (s', o) → P (h ++ o) s')
    (hD : ∀ h s a, P h s → C h s a → D h s a) :
    ∀ (as : List α) (h : List ω) (s : σ), P h s → M.Along C h s as → M.Along D h s as := by
  intro as
  induction as with
  | nil => intro h s _ _; trivial
  | cons a as ih =>
    intro h s hP hC
    exact ⟨hD h s a hP hC.1, fun s' o hs => ih _ _ (hstep h s a s' o hP hC.1 hs) (hC.2 s' o hs)⟩

/-- A condition that an invariant gives at every step is met along the run. -/
theorem along_of_invariant {P : List ω → σ → Prop} {C : List ω → σ → α → Prop}
    (hstep : ∀ h s a s' o, P h s → M.step s a = some (s', o) → P (h ++ o) s')
    (hC : ∀ h s a, P h s → C h s a) (as : List α) (h : List ω) (s : σ) (hP : P h s) : M.Along C h s as :=
  along_imp (C := fun _ _ _ => True) (fun h s a s' o hp _ => hstep h s a s' o hp) (fun h s a hp _ => hC h s a hp) as h s
    hP (along_of_forall as h s (fun _ _ _ _ => trivial))

/-- What holds of every state of a run that meets the side condition. -/
theorem throughout_of_along {P Q : List ω → σ → Prop} {C : List ω → σ → α → Prop}
    (hstep : ∀ h s a s' o, P h s → C h s a → M.step s a = some (s', o) → P (h ++ o) s')
    (hQ : ∀ h s, P h s → Q h s) :
    ∀ (as : List α) (h : List ω) (s : σ), P h s → M.Along C h s as → M.Throughout Q h s as := by
  intro as
  induction as with
  | nil => intro h s hP _; exact hQ h s hP
  | cons a as ih =>
    intro h s hP hC
    exact ⟨hQ h s hP, fun s' o hs => ih _ _ (hstep h s a s' o hP hC.1 hs) (hC.2 s' o hs)⟩

theorem along_cons {C : List ω → σ → α → Prop} {h o : List ω} {s s' : σ} {a : α} {as : List α}
    (hs : M.step s a = some (s', o)) :
    M.Along C h s (a :: as) ↔ C h s a ∧ M.Along C (h ++ o) s' as := by
  refine and_congr_right (fun _ => ⟨fun ha => ha s' o hs, ?_⟩)
  intro ha s₁ o₁ hs₁
  rw [hs] at hs₁
  cases hs₁
  exact ha

theorem along_last {C : List ω → σ → α → Prop} : ∀ (as : List α) (a : α) (h o : List ω) (s s' : σ),
    M.Along C h s (as ++ [a]) → M.run s as = some (s', o) → C (h ++ o) s' a := by
  intro as
  induction as with
  | nil =>
    intro a h o s s' hC hr
    simp at hr
    obtain ⟨rfl, rfl⟩ := hr
    simpa using hC.1
  | cons b as ih =>
    intro a h o s s' hC hr
    obtain ⟨s₁, o₁, o₂, hs, hrest, rfl⟩ := (run_cons_some M).mp hr
    rw [← List.append_assoc]
    exact ih a _ _ _ _ (hC.2 _ _ hs) hrest

/-- Whether a run meets a decidable condition is decided by running it. -/
instance decidableAlong {C : List ω → σ → α → Prop} [∀ h s a, Decidable (C h s a)] :
    ∀ (h : List ω) (s : σ) (as : List α), Decidable (M.Along C h s as)
  | _, _, [] => isTrue trivial
  | h, s, a :: as =>
    match hs : M.step s a with
    | none => decidable_of_iff (C h s a)
        ⟨fun hc => ⟨hc, fun s' o h' => by rw [hs] at h'; cases h'⟩, fun ha => ha.1⟩
    | some (s', o) =>
      have := decidableAlong (C := C) (h ++ o) s' as
      decidable_of_iff (C h s a ∧ M.Along C (h ++ o) s' as) (along_cons hs).symm

/-- Under an invariant, a run meets both of two conditions that agree at each
of its steps, or neither. -/
theorem along_congr {P : List ω → σ → Prop} {C D : List ω → σ → α → Prop}
    (hstep : ∀ h s a s' o, P h s → M.step s a = some (s', o) → P (h ++ o) s') :
    ∀ (as : List α) (h : List ω) (s s' : σ) (o : List ω),
      (∀ a ∈ as, ∀ h s s' o, P h s → M.step s a = some (s', o) → (C h s a ↔ D h s a)) →
      P h s → M.run s as = some (s', o) → (M.Along C h s as ↔ M.Along D h s as) := by
  intro as
  induction as with
  | nil => intro h s s' o _ _ _; exact Iff.rfl
  | cons a as ih =>
    intro h s s' o hcd hP hr
    obtain ⟨s₁, o₁, o₂, hs, hrest, rfl⟩ := (run_cons_some M).mp hr
    have htail := ih (h ++ o₁) s₁ s' o₂ (fun b hb => hcd b (List.mem_cons_of_mem a hb))
      (hstep _ _ _ _ _ hP hs) hrest
    rw [along_cons hs, along_cons hs, hcd a List.mem_cons_self h s s₁ o₁ hP hs, htail]

/-- What a run keeps while its steps meet a condition, and what it has lost for
good once one of them does not. -/
theorem along_or_lost {P Q : List ω → σ → Prop} {C : List ω → σ → α → Prop}
    (hkept : ∀ h s a s' o, P h s → C h s a → M.step s a = some (s', o) → P (h ++ o) s')
    (hbroken : ∀ h s a s' o, P h s → ¬ C h s a → M.step s a = some (s', o) → Q (h ++ o) s')
    (hlost : ∀ h s a s' o, Q h s → M.step s a = some (s', o) → Q (h ++ o) s') :
    ∀ (as : List α) (h : List ω) (s s' : σ) (o : List ω), P h s → M.run s as = some (s', o) →
      (M.Along C h s as ∧ P (h ++ o) s') ∨ (¬ M.Along C h s as ∧ Q (h ++ o) s') := by
  intro as
  induction as with
  | nil =>
    intro h s s' o hP hr
    simp at hr
    obtain ⟨rfl, rfl⟩ := hr
    exact Or.inl ⟨trivial, by simpa using hP⟩
  | cons a as ih =>
    intro h s s' o hP hr
    obtain ⟨s₁, o₁, o₂, hs, hrest, rfl⟩ := (run_cons_some M).mp hr
    rw [along_cons hs, ← List.append_assoc]
    by_cases hC : C h s a
    · rcases ih _ _ _ _ (hkept _ _ _ _ _ hP hC hs) hrest with ⟨halong, hP'⟩ | ⟨hnot, hQ'⟩
      · exact Or.inl ⟨⟨hC, halong⟩, hP'⟩
      · exact Or.inr ⟨fun ha => hnot ha.2, hQ'⟩
    · exact Or.inr ⟨fun ha => hC ha.1, run_invariant hlost (hbroken _ _ _ _ _ hP hC hs) hrest⟩

theorem throughout_last {Q : List ω → σ → Prop} : ∀ (as : List α) (h : List ω) (s s' : σ) (o : List ω),
    M.Throughout Q h s as → M.run s as = some (s', o) → Q (h ++ o) s' := by
  intro as
  induction as with
  | nil =>
    intro h s s' o hQ hr
    simp at hr
    obtain ⟨rfl, rfl⟩ := hr
    simpa [Throughout] using hQ
  | cons a as ih =>
    intro h s s' o hQ hr
    obtain ⟨s₁, o₁, o₂, hs, hrest, rfl⟩ := (run_cons_some M).mp hr
    rw [← List.append_assoc]
    exact ih _ _ _ _ (hQ.2 _ _ hs) hrest

/-- A property of every state reached is a condition on the steps. -/
theorem throughout_iff_along {Q : List ω → σ → Prop} :
    ∀ (as : List α) (h : List ω) (s : σ), Q h s → (M.Throughout Q h s as ↔
      M.Along (fun h s a => ∀ s' o, M.step s a = some (s', o) → Q (h ++ o) s') h s as) := by
  intro as
  induction as with
  | nil => intro h s hQ; simp [Throughout, Along, hQ]
  | cons a as ih =>
    intro h s hQ
    simp only [Throughout, Along]
    refine ⟨?_, ?_⟩
    · intro ht
      have hr := ht.2
      have hQ' : ∀ s' o, M.step s a = some (s', o) → Q (h ++ o) s' := by
        intro s' o hs
        have := hr s' o hs
        cases as with
        | nil => exact this
        | cons b bs => exact this.1
      exact ⟨hQ', fun s' o hs => (ih _ _ (hQ' s' o hs)).mp (hr s' o hs)⟩
    · intro ha
      obtain ⟨hQ', hr⟩ := ha
      exact ⟨hQ, fun s' o hs => (ih _ _ (hQ' s' o hs)).mpr (hr s' o hs)⟩

end Machine

end AthenaVoice.Lib
