import Mathlib.Data.List.Basic

/-
  Levels — texts cut at a separator

  `List.splitOn sep` gives the levels of a text, at least one. Putting them
  together again is `[sep].intercalate`.

  What is proved:
    1. `splitOn_eq_iff` — the levels are the one way to write the text as
       separator-free pieces.
    2. `length_splitOn` — a level more than there are separators.
-/

namespace AthenaVoice.Lib.Levels

universe u

variable {α : Type u} [DecidableEq α] {sep : α}

theorem length_splitOn (xs : List α) : (xs.splitOn sep).length = xs.count sep + 1 := by
  induction xs with
  | nil => rfl
  | cons x xs ih =>
    rw [List.splitOn_cons_eq_if_modifyHead, List.count_cons]
    split
    · rw [List.length_cons, ih]
    · rw [List.length_modifyHead, ih, Nat.add_zero]

theorem not_mem_of_mem_splitOn {xs level : List α} (h : level ∈ xs.splitOn sep) : sep ∉ level := by
  induction xs generalizing level with
  | nil =>
    rw [List.mem_singleton.mp h]
    exact List.not_mem_nil
  | cons x xs ih =>
    rw [List.splitOn_cons_eq_if_modifyHead] at h
    split at h
    · rcases List.mem_cons.mp h with heq | hrest
      · rw [heq]
        exact List.not_mem_nil
      · exact ih hrest
    · rename_i hx
      obtain ⟨first, rest, hsplit⟩ := List.exists_cons_of_ne_nil (List.splitOn_ne_nil sep xs)
      rw [hsplit, List.modifyHead_cons] at h
      rcases List.mem_cons.mp h with heq | hrest
      · rw [heq, List.mem_cons, not_or]
        refine ⟨?_, ih (by rw [hsplit]; exact List.mem_cons_self)⟩
        intro hsep
        exact hx (beq_iff_eq.mpr hsep.symm)
      · exact ih (by rw [hsplit]; exact List.mem_cons_of_mem first hrest)

theorem splitOn_eq_iff {xs : List α} {levels : List (List α)} :
    xs.splitOn sep = levels ↔ levels ≠ [] ∧ (∀ level ∈ levels, sep ∉ level) ∧
      xs = [sep].intercalate levels := by
  refine ⟨?_, ?_⟩
  · intro h
    subst h
    exact ⟨List.splitOn_ne_nil sep xs, fun level h => not_mem_of_mem_splitOn h, (List.intercalate_splitOn sep).symm⟩
  · intro h
    obtain ⟨hne, hfree, rfl⟩ := h
    exact List.splitOn_intercalate sep hfree hne

end AthenaVoice.Lib.Levels
