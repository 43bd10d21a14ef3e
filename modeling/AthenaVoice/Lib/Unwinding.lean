import AthenaVoice.Lib.Machine

/-
  Noninterference by unwinding

  Some actions of a machine are hidden, and an observer sees a part of what is
  emitted. The hidden actions do not interfere if the observer sees the same
  with and without them. It is enough to find a relation between the two runs'
  states that a hidden action, taken on one side only, keeps and shows nothing
  of, and that any other action, taken on both sides, keeps and shows alike.

  What is proved:
    1. `run_purged` — what the observer sees of a run is what it sees of the
       run without the hidden actions.
-/

namespace AthenaVoice.Lib

universe u v w x

namespace Machine

variable {σ : Type u} {α : Type v} {ω : Type w} {ν : Type x}

/-- A relation between the states of a run and of the run without the hidden
actions, as each allowed step keeps it. -/
structure Unwinding (M : Machine σ α ω) (allowed : α → Prop) (hidden : α → Bool) (view : ω → Option ν)
    (R : σ → σ → Prop) : Prop where
  /-- A hidden action, taken on the left only. -/
  hides : ∀ s t a s' o, R s t → allowed a → hidden a = true → M.step s a = some (s', o) →
    R s' t ∧ o.filterMap view = []
  /-- Any other action, taken on both sides. -/
  agrees : ∀ s t a s' o, R s t → allowed a → hidden a = false → M.step s a = some (s', o) →
    ∃ t' p, M.step t a = some (t', p) ∧ R s' t' ∧ o.filterMap view = p.filterMap view

variable {M : Machine σ α ω} {allowed : α → Prop} {hidden : α → Bool} {view : ω → Option ν}
    {R : σ → σ → Prop}

/-- **Noninterference.** -/
theorem Unwinding.run_purged (hu : M.Unwinding allowed hidden view R) :
    ∀ (as : List α) (s t s' : σ) (o : List ω), (∀ a ∈ as, allowed a) → R s t →
      M.run s as = some (s', o) →
      ∃ t' p, M.run t (as.filter (fun a => !hidden a)) = some (t', p) ∧ R s' t' ∧
        o.filterMap view = p.filterMap view := by
  intro as
  induction as with
  | nil =>
    intro s t s' o hall hR hr
    simp at hr
    obtain ⟨rfl, rfl⟩ := hr
    exact ⟨t, [], rfl, hR, rfl⟩
  | cons a as ih =>
    intro s t s' o hall hR hr
    obtain ⟨s₁, o₁, o₂, hs, hrest, rfl⟩ := (run_cons_some M).mp hr
    have hallowed := hall a List.mem_cons_self
    have hlater : ∀ c ∈ as, allowed c := fun c hc => hall c (List.mem_cons_of_mem a hc)
    -- a hidden action is skipped on the other side, any other is taken there too
    cases ha : hidden a with
    | true =>
      obtain ⟨hR₁, hview⟩ := hu.hides s t a s₁ o₁ hR hallowed ha hs
      obtain ⟨t', p, ht, hR', hp⟩ := ih s₁ t s' o₂ hlater hR₁ hrest
      have hskip : (a :: as).filter (fun a => !hidden a) = as.filter (fun a => !hidden a) := by
        simp [ha]
      refine ⟨t', p, ?_, hR', ?_⟩
      · rw [hskip]
        exact ht
      · rw [List.filterMap_append, hview, List.nil_append]
        exact hp
    | false =>
      obtain ⟨t₁, p₁, ht₁, hR₁, hview⟩ := hu.agrees s t a s₁ o₁ hR hallowed ha hs
      obtain ⟨t', p, ht, hR', hp⟩ := ih s₁ t₁ s' o₂ hlater hR₁ hrest
      have htake : (a :: as).filter (fun a => !hidden a) = a :: as.filter (fun a => !hidden a) := by
        simp [ha]
      refine ⟨t', p₁ ++ p, ?_, hR', ?_⟩
      · rw [htake]
        exact (run_cons_some M).mpr ⟨t₁, p₁, p, ht₁, ht, rfl⟩
      · rw [List.filterMap_append, List.filterMap_append, hview, hp]

end Machine

end AthenaVoice.Lib
