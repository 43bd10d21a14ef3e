import Mathlib.Data.Finset.Insert
import Mathlib.Data.List.Nodup

/-
  Identifiers handed out once

  Passes over some input put out items, each made of identifiers, and keep a
  set of those used. A pass looks at the set before it takes an identifier and
  adds to it what it takes; it may add more.

  What is proved:
    1. `Sound.reserve`, `Sound.give` — what a step may do: use up more, or put
       out an item of identifiers that were not used and differ.
    2. `Sound.nodup_append` — identifiers outside the set can be handed out after.
-/

namespace AthenaVoice.Lib

universe u v

/-- The identifiers used, and what was put out. -/
structure Allot (ι : Type u) (α : Type v) where
  used : Finset ι
  out : List α

namespace Allot

variable {ι : Type u} {α : Type v} {ids : α → List ι} {good : α → Prop} {s : Allot ι α}

/-- No identifier was handed out twice, all handed out are used, and every item
put out is a good one. -/
structure Sound (ids : α → List ι) (good : α → Prop) (s : Allot ι α) : Prop where
  once : (s.out.flatMap ids).Nodup
  used : ∀ i ∈ s.out.flatMap ids, i ∈ s.used
  good : ∀ a ∈ s.out, good a

theorem sound_start (used : Finset ι) : Sound ids good { used := used, out := [] } :=
  ⟨List.nodup_nil, fun _ hi => (by cases hi), fun _ ha => (by cases ha)⟩

/-- More may be used up. -/
theorem Sound.reserve (h : Sound ids good s) {used : Finset ι} (hsub : s.used ⊆ used) :
    Sound ids good { s with used := used } :=
  ⟨h.once, fun i hi => hsub (h.used i hi), h.good⟩

/-- **An item** of unused identifiers may be put out. -/
theorem Sound.give (h : Sound ids good s) {used : Finset ι} {a : α} (hsub : s.used ⊆ used) (hnodup : (ids a).Nodup)
    (hfree : ∀ i ∈ ids a, i ∉ s.used) (hused : ∀ i ∈ ids a, i ∈ used) (ha : good a) :
    Sound ids good { used := used, out := s.out ++ [a] } := by
  have hids : (s.out ++ [a]).flatMap ids = s.out.flatMap ids ++ ids a := by
    rw [List.flatMap_append, List.flatMap_singleton]
  refine ⟨?_, ?_, ?_⟩
  · show ((s.out ++ [a]).flatMap ids).Nodup
    rw [hids]
    exact h.once.append hnodup (fun i hout hnew => hfree i hnew (h.used i hout))
  · intro i hi
    rw [hids] at hi
    rcases List.mem_append.mp hi with hout | hnew
    · exact hsub (h.used i hout)
    · exact hused i hnew
  · intro b hb
    rcases List.mem_append.mp hb with hout | hnew
    · exact h.good b hout
    · rw [List.mem_singleton.mp hnew]
      exact ha

/-- Other identifiers may be handed out after. -/
theorem Sound.nodup_append (h : Sound ids good s) {rest : List ι} (hnodup : rest.Nodup)
    (hfree : ∀ i ∈ rest, i ∉ s.used) :
    (s.out.flatMap ids ++ rest).Nodup :=
  h.once.append hnodup (fun i hout hrest => hfree i hrest (h.used i hout))

end Allot

end AthenaVoice.Lib
