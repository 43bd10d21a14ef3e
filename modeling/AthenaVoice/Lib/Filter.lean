import Mathlib.Data.List.Basic

/-
  Filters over levels

  A filter is a list of levels: a fixed one, one of any kind, or a tail, which
  is to stand last. `Matches` is what a filter lets through, by derivation. A
  tail that does not stand last has no rule, so nothing matches.

  What is proved:
    1. `matches_exact_cons`, `matches_one_cons`, `matches_tail_cons` — the
       relation level by level.
    2. `Matches.split` — without a tail, a filter takes its own number of levels.
    3. `Matches.exact_unique` — two filters that fix the same place differently
       let nothing through in common.
-/

namespace AthenaVoice.Lib.Filter

universe u

inductive Level (α : Type u) where
  | exact (a : α)
  | one
  | tail
  deriving DecidableEq, Repr

variable {α : Type u}

inductive Matches : List (Level α) → List α → Prop where
  | nil : Matches [] []
  | exact (a : α) {ps : List (Level α)} {ts : List α} (rest : Matches ps ts) : Matches (.exact a :: ps) (a :: ts)
  | one (t : α) {ps : List (Level α)} {ts : List α} (rest : Matches ps ts) : Matches (.one :: ps) (t :: ts)
  | tail (ts : List α) : Matches [.tail] ts

@[simp] theorem matches_nil {ts : List α} : Matches [] ts ↔ ts = [] := by
  refine ⟨?_, ?_⟩
  · intro h
    cases h
    rfl
  · intro h
    rw [h]
    exact .nil

@[simp] theorem matches_exact_cons {a : α} {ps : List (Level α)} {ts : List α} :
    Matches (.exact a :: ps) ts ↔ ∃ rest, ts = a :: rest ∧ Matches ps rest := by
  refine ⟨?_, ?_⟩
  · intro h
    cases h with
    | exact _ rest => exact ⟨_, rfl, rest⟩
  · intro h
    obtain ⟨rest, rfl, hrest⟩ := h
    exact .exact a hrest

@[simp] theorem matches_one_cons {ps : List (Level α)} {ts : List α} :
    Matches (.one :: ps) ts ↔ ∃ t rest, ts = t :: rest ∧ Matches ps rest := by
  refine ⟨?_, ?_⟩
  · intro h
    cases h with
    | one t rest => exact ⟨t, _, rfl, rest⟩
  · intro h
    obtain ⟨t, rest, rfl, hrest⟩ := h
    exact .one t hrest

/-- A tail takes everything if it is the last level, and else nothing. -/
@[simp] theorem matches_tail_cons {ps : List (Level α)} {ts : List α} : Matches (.tail :: ps) ts ↔ ps = [] := by
  refine ⟨?_, ?_⟩
  · intro h
    cases h
    rfl
  · intro h
    rw [h]
    exact .tail ts

/-- Levels without a tail take as many. -/
theorem Matches.split {ps qs : List (Level α)} {ts : List α} (hps : Level.tail ∉ ps) (h : Matches (ps ++ qs) ts) :
    Matches qs (ts.drop ps.length) := by
  induction ps generalizing ts with
  | nil => exact h
  | cons p ps ih =>
    have hrest : Level.tail ∉ ps := fun hmem => hps (List.mem_cons_of_mem p hmem)
    cases p with
    | exact a =>
      obtain ⟨rest, rfl, htail⟩ := matches_exact_cons.mp h
      exact ih hrest htail
    | one =>
      obtain ⟨t, rest, rfl, htail⟩ := matches_one_cons.mp h
      exact ih hrest htail
    | tail => exact absurd List.mem_cons_self hps

/-- What two filters let through in common has one level where both fix one. -/
theorem Matches.exact_unique {ps ps' qs qs' : List (Level α)} {a b : α} {ts : List α} (hps : Level.tail ∉ ps)
    (hps' : Level.tail ∉ ps') (hlength : ps.length = ps'.length) (h : Matches (ps ++ .exact a :: qs) ts)
    (h' : Matches (ps' ++ .exact b :: qs') ts) : a = b := by
  obtain ⟨rest, hrest, -⟩ := matches_exact_cons.mp (h.split hps)
  obtain ⟨rest', hrest', -⟩ := matches_exact_cons.mp (h'.split hps')
  rw [hlength, hrest'] at hrest
  exact (List.cons.inj hrest).1.symm

end AthenaVoice.Lib.Filter
