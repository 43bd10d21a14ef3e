import Mathlib.Data.Nat.Basic

/-
  Since — how long ago a condition last held

  Indices are counted from the start; the last one below `n` at which the
  condition holds is given by its distance from the end.

  What is proved:
    1. `since_congr` — only the indices below `n` matter.
    2. `since_eq_some_iff` — what the distance says.
-/

namespace AthenaVoice.Lib

/-- How many indices below `n` follow the last one at which `p` holds. -/
def since (p : Nat → Bool) : Nat → Option Nat
  | 0 => none
  | n + 1 => if p n then some 0 else (since p n).map (fun d => d + 1)

theorem since_congr {p q : Nat → Bool} {n : Nat} (h : ∀ k < n, p k = q k) : since p n = since q n := by
  induction n with
  | zero => rfl
  | succ n ih => rw [since, since, h n n.lt_succ_self, ih (fun k hk => h k (Nat.lt_succ_of_lt hk))]

/-- **The last index.** -/
theorem since_eq_some_iff {p : Nat → Bool} {n d : Nat} :
    since p (n + 1) = some d ↔ d ≤ n ∧ p (n - d) = true ∧ ∀ j, n - d < j → j ≤ n → p j = false := by
  -- by the last index, which is the answer or lies after it
  induction n generalizing d with
  | zero =>
    cases hp : p 0 with
    | true =>
      simp only [since, hp, if_true, Option.some.injEq]
      refine ⟨fun h => ⟨by omega, by simpa using hp, fun j hj hj' => by omega⟩, fun h => by omega⟩
    | false =>
      simp only [since, hp]
      refine ⟨fun h => by simp at h, fun h => ?_⟩
      have hlast := h.2.1
      rw [Nat.zero_sub, hp] at hlast
      cases hlast
  | succ n ih =>
    cases hp : p (n + 1) with
    | true =>
      rw [since, hp, if_pos rfl, Option.some.injEq]
      refine ⟨?_, ?_⟩
      · rintro rfl
        exact ⟨Nat.zero_le _, hp, fun j hj hj' => by omega⟩
      · intro h
        by_contra hne
        have hlater := h.2.2 (n + 1) (by omega) (Nat.le_refl _)
        rw [hp] at hlater
        cases hlater
    | false =>
      rw [since, hp, if_neg (by simp), Option.map_eq_some_iff]
      refine ⟨?_, ?_⟩
      · rintro ⟨e, he, rfl⟩
        obtain ⟨hle, hat, hafter⟩ := ih.mp he
        have hindex : n + 1 - (e + 1) = n - e := by omega
        refine ⟨by omega, hindex ▸ hat, ?_⟩
        intro j hj hj'
        by_cases hlast : j = n + 1
        · exact hlast ▸ hp
        · exact hafter j (by omega) (by omega)
      · rintro ⟨hle, hat, hafter⟩
        cases d with
        | zero =>
          rw [Nat.sub_zero, hp] at hat
          cases hat
        | succ e =>
          have hindex : n + 1 - (e + 1) = n - e := by omega
          rw [hindex] at hat
          exact ⟨e, ih.mpr ⟨by omega, hat, fun j hj hj' => hafter j (by omega) (by omega)⟩, rfl⟩

end AthenaVoice.Lib
