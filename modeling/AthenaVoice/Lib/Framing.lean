import Mathlib.Data.List.Basic
import Mathlib.Data.List.Induction

/-
  Framing — what lies between separators

  A list is read one element at a time; a separator closes the group before it.

  What is proved:
    1. `closed_concat_sep`, `closed_concat` — what one more element changes.
    2. `closed_prefix_append` — a group that is closed stays as it is.
    3. `append_spec` — reading on from what is left over.
-/

namespace AthenaVoice.Lib.Framing

universe u

variable {α : Type u} (p : α → Bool)

/-- The groups that a separator closes. -/
def closed (xs : List α) : List (List α) := (xs.splitOnP p).dropLast

/-- The elements since the last separator. -/
def remaining (xs : List α) : List α := (xs.splitOnP p).getLastD []

theorem closed_append_remaining (xs : List α) : closed p xs ++ [remaining p xs] = xs.splitOnP p := by
  have hne : xs.splitOnP p ≠ [] := List.splitOnP_ne_nil p xs
  rw [closed, remaining, List.getLastD_eq_getLast?, List.getLast?_eq_some_getLast hne]
  exact List.dropLast_append_getLast hne

variable {p} {x : α}

theorem splitOnP_concat (hx : p x = false) : ∀ xs : List α, ∃ groups last,
    xs.splitOnP p = groups ++ [last] ∧ (xs ++ [x]).splitOnP p = groups ++ [last ++ [x]] := by
  intro xs
  induction xs with
  | nil => exact ⟨[], [], rfl, by simp [List.splitOnP_cons_eq_if_modifyHead, hx]⟩
  | cons y ys ih =>
    obtain ⟨groups, last, hys, hysx⟩ := ih
    rw [List.cons_append, List.splitOnP_cons_eq_if_modifyHead, List.splitOnP_cons_eq_if_modifyHead, hys, hysx]
    by_cases hy : p y = true
    · rw [if_pos hy, if_pos hy]
      exact ⟨[] :: groups, last, rfl, rfl⟩
    · rw [if_neg hy, if_neg hy]
      cases groups with
      | nil => exact ⟨[], y :: last, rfl, rfl⟩
      | cons group groups => exact ⟨(y :: group) :: groups, last, rfl, rfl⟩

/-- A separator closes the last group. -/
theorem closed_concat_sep (hx : p x = true) (xs : List α) :
    closed p (xs ++ [x]) = closed p xs ++ [remaining p xs] := by
  rw [closed_append_remaining, closed, List.splitOnP_append_cons xs [] hx]
  exact List.dropLast_concat

theorem remaining_concat_sep (hx : p x = true) (xs : List α) : remaining p (xs ++ [x]) = [] := by
  rw [remaining, List.splitOnP_append_cons xs [] hx, List.getLastD_eq_getLast?]
  simp

/-- What is no separator closes nothing. -/
theorem closed_concat (hx : p x = false) (xs : List α) : closed p (xs ++ [x]) = closed p xs := by
  obtain ⟨groups, last, hxs, hconcat⟩ := splitOnP_concat hx xs
  rw [closed, closed, hxs, hconcat, List.dropLast_concat, List.dropLast_concat]

theorem remaining_concat (hx : p x = false) (xs : List α) : remaining p (xs ++ [x]) = remaining p xs ++ [x] := by
  obtain ⟨groups, last, hxs, hconcat⟩ := splitOnP_concat hx xs
  rw [remaining, remaining, hxs, hconcat, List.getLastD_concat, List.getLastD_concat]

/-- **Groups stay.** -/
theorem closed_prefix_append (p : α → Bool) : ∀ ys xs : List α, closed p xs <+: closed p (xs ++ ys) := by
  intro ys
  induction ys with
  | nil =>
    intro xs
    exact (List.append_nil xs).symm ▸ List.prefix_rfl
  | cons y ys ih =>
    intro xs
    have hstep : closed p xs <+: closed p (xs ++ [y]) := by
      by_cases hy : p y = true
      · rw [closed_concat_sep hy]
        exact List.prefix_append _ _
      · exact (closed_concat (by simpa using hy) xs).symm ▸ List.prefix_rfl
    have hrest := ih (xs ++ [y])
    rw [List.append_assoc, List.singleton_append] at hrest
    exact hstep.trans hrest

theorem remaining_spec (p : α → Bool) (xs : List α) :
    closed p (remaining p xs) = [] ∧ remaining p (remaining p xs) = remaining p xs := by
  refine List.reverseRecOn xs ⟨rfl, rfl⟩ ?_
  intro xs x ih
  by_cases hx : p x = true
  · rw [remaining_concat_sep hx]
    exact ⟨rfl, rfl⟩
  · have hx : p x = false := by simpa using hx
    rw [remaining_concat hx, closed_concat hx, remaining_concat hx, ih.2]
    exact ⟨ih.1, rfl⟩

/-- **Reading on.** What has been closed is done with; what is left over is read
again with what comes. -/
theorem append_spec (p : α → Bool) (xs ys : List α) :
    closed p (xs ++ ys) = closed p xs ++ closed p (remaining p xs ++ ys) ∧
      remaining p (xs ++ ys) = remaining p (remaining p xs ++ ys) := by
  obtain ⟨hnone, hsame⟩ := remaining_spec p xs
  refine List.reverseRecOn ys ?_ ?_
  · rw [List.append_nil, List.append_nil, hnone, hsame, List.append_nil]
    exact ⟨rfl, rfl⟩
  · intro ys y ih
    rw [← List.append_assoc, ← List.append_assoc]
    by_cases hy : p y = true
    · rw [closed_concat_sep hy, closed_concat_sep hy, remaining_concat_sep hy, remaining_concat_sep hy, ih.1, ih.2]
      exact ⟨List.append_assoc _ _ _, rfl⟩
    · have hy : p y = false := by simpa using hy
      rw [closed_concat hy, closed_concat hy, remaining_concat hy, remaining_concat hy, ih.1, ih.2]
      exact ⟨rfl, rfl⟩

theorem first_spec {p : α → Bool} {line : List α} {x : α} (hline : ∀ y ∈ line, p y = false) (hx : p x = true)
    (rest : List α) :
    closed p (line ++ x :: rest) = line :: closed p rest ∧ remaining p (line ++ x :: rest) = remaining p rest := by
  have hne : rest.splitOnP p ≠ [] := List.splitOnP_ne_nil p rest
  have hsplit : (line ++ x :: rest).splitOnP p = line :: rest.splitOnP p := by
    rw [List.splitOnP_append_cons line rest hx, List.splitOnP_eq_singleton hline]
    rfl
  rw [closed, remaining, hsplit]
  constructor
  · exact List.dropLast_cons_of_ne_nil hne
  · rw [remaining, List.getLastD_eq_getLast?, List.getLastD_eq_getLast?, List.getLast?_cons_of_ne_nil hne]

theorem closed_of_none {p : α → Bool} {xs : List α} (hxs : ∀ y ∈ xs, p y = false) :
    closed p xs = [] ∧ remaining p xs = xs := by
  rw [closed, remaining, List.splitOnP_eq_singleton hxs]
  exact ⟨rfl, rfl⟩

end AthenaVoice.Lib.Framing
