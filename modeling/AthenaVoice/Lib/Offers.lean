import Mathlib.Data.List.Basic

/-
  Offers — the one made last, until it is answered

  Some events of a history make an offer, and some answer the one that stands.
  An offer stands from its event on until another takes its place or an answer
  settles it; the answer itself still finds it standing.

  What is proved:
    1. `stands_unique` — at most one offer stands.
    2. `answered_once` — no two events answer the same offer.
    3. `stands_concat`, `stands_append` — what stands after one more event, and
       that later events do not change what stood before.
-/

namespace AthenaVoice.Lib

universe u v

/-- Which events of a history make an offer, and which answer one. -/
structure Offering (ω : Type u) (π : Type v) where
  offers : ω → Option π
  answers : ω → Bool

namespace Offering

variable {ω : Type u} {π : Type v} (O : Offering ω π)

/-- The `i`-th event offered `p`, and before the `j`-th nothing has replaced or
answered it. -/
def Stands (h : List ω) (i j : Nat) (p : π) : Prop :=
  i < j ∧ (∃ a, h[i]? = some a ∧ O.offers a = some p) ∧
    ∀ k a, i < k → k < j → h[k]? = some a → O.offers a = none ∧ O.answers a = false

variable {O}

theorem Stands.lt_length {h : List ω} {i j : Nat} {p : π} (hs : O.Stands h i j p) : i < h.length := by
  obtain ⟨_, ⟨a, ha, _⟩, _⟩ := hs
  exact (List.getElem?_eq_some_iff.mp ha).1

/-- **At most one offer stands.** -/
theorem stands_unique {h : List ω} {i i' j : Nat} {p q : π} (hs : O.Stands h i j p) (hs' : O.Stands h i' j q) :
    i = i' ∧ p = q := by
  obtain ⟨hij, ⟨a, ha, hp⟩, hlater⟩ := hs
  obtain ⟨hij', ⟨b, hb, hq⟩, hlater'⟩ := hs'
  have heq : i = i' := by
    apply Nat.le_antisymm
    · apply Nat.le_of_not_lt
      intro hlt
      have hnone := (hlater' i a hlt hij ha).1
      rw [hp] at hnone
      cases hnone
    · apply Nat.le_of_not_lt
      intro hlt
      have hnone := (hlater i' b hlt hij' hb).1
      rw [hq] at hnone
      cases hnone
  subst heq
  rw [ha] at hb
  cases hb
  rw [hp] at hq
  exact ⟨rfl, Option.some.inj hq⟩

theorem Stands.le_of_answers {h : List ω} {i j k : Nat} {p : π} {a : ω} (hs : O.Stands h i k p) (hij : i < j)
    (ha : h[j]? = some a) (hanswers : O.answers a = true) : k ≤ j := by
  apply Nat.le_of_not_lt
  intro hlt
  have hfalse := (hs.2.2 j a hij hlt ha).2
  rw [hanswers] at hfalse
  cases hfalse

/-- **No two events answer the same offer.** -/
theorem answered_once {h : List ω} {i j k : Nat} {p q : π} {a b : ω} (hsj : O.Stands h i j p)
    (hsk : O.Stands h i k q) (ha : h[j]? = some a) (hb : h[k]? = some b) (hanswers : O.answers a = true)
    (hanswers' : O.answers b = true) : j = k := by
  apply Nat.le_antisymm
  · exact hsj.le_of_answers hsk.1 hb hanswers'
  · exact hsk.le_of_answers hsj.1 ha hanswers

/-- Later events do not change what stood. -/
theorem stands_append {h o : List ω} {i j : Nat} {p : π} (hj : j ≤ h.length) :
    O.Stands (h ++ o) i j p ↔ O.Stands h i j p := by
  have hget : ∀ k, k < j → (h ++ o)[k]? = h[k]? := by
    intro k hk
    apply List.getElem?_append_left
    omega
  refine and_congr_right (fun hij => and_congr ?_ ?_)
  · rw [hget i hij]
  · refine forall_congr' (fun k => forall_congr' (fun a => forall_congr' (fun _ => forall_congr' (fun hk => ?_))))
    rw [hget k hk]

/-- What stands after one more event: its own offer, or, if it makes none and
answers none, what stood. -/
theorem stands_concat {h : List ω} {a : ω} {i : Nat} {p : π} :
    O.Stands (h ++ [a]) i (h.length + 1) p ↔
      (i = h.length ∧ O.offers a = some p) ∨
        (O.offers a = none ∧ O.answers a = false ∧ O.Stands h i h.length p) := by
  have hlast : (h ++ [a])[h.length]? = some a := List.getElem?_concat_length
  constructor
  · intro hs
    by_cases hi : i = h.length
    · subst hi
      obtain ⟨_, ⟨b, hb, hp⟩, _⟩ := hs
      rw [hlast] at hb
      cases hb
      exact Or.inl ⟨rfl, hp⟩
    · have hlt : i < h.length := by
        have := hs.1
        omega
      obtain ⟨hnone, hfalse⟩ := hs.2.2 h.length a hlt (Nat.lt_succ_self _) hlast
      have hearlier : O.Stands (h ++ [a]) i h.length p :=
        ⟨hlt, hs.2.1, fun k b hik hk => hs.2.2 k b hik (Nat.lt_succ_of_lt hk)⟩
      exact Or.inr ⟨hnone, hfalse, (stands_append (Nat.le_refl _)).mp hearlier⟩
  · intro hs
    rcases hs with ⟨rfl, hp⟩ | ⟨hnone, hfalse, hs⟩
    · refine ⟨Nat.lt_succ_self _, ⟨a, hlast, hp⟩, ?_⟩
      intro k b hik hk
      omega
    · obtain ⟨hlt, hoffer, hlater⟩ := (stands_append (O := O) (o := [a]) (Nat.le_refl h.length)).mpr hs
      refine ⟨Nat.lt_succ_of_lt hlt, hoffer, ?_⟩
      intro k b hik hk hb
      by_cases hkl : k = h.length
      · subst hkl
        rw [hlast] at hb
        cases hb
        exact ⟨hnone, hfalse⟩
      · exact hlater k b hik (by omega) hb

end Offering

end AthenaVoice.Lib
