import AthenaVoice.Lib.Runs
import Mathlib.Data.List.Induction

/-
  Collapsing — what lies between runs becomes one separator

  A text keeps the characters that meet a condition; whatever lies between two
  runs of them becomes a single separator, and what lies before the first or
  after the last is dropped.

  What is proved:
    1. `foldl_collapseStep` — a loop that remembers whether a separator is due
       computes it.
    2. `spaced_collapse` — every separator stands between two kept characters.
    3. `filter_collapse` — what is kept, and its order.
    4. `runs_collapse`, `collapse_collapse` — it is done once and for all.
-/

namespace AthenaVoice.Lib

universe u

variable {α : Type u} {p : α → Bool} {sep : α}

/-- The runs, with one separator between them. -/
def collapse (p : α → Bool) (sep : α) (xs : List α) : List α := [sep].intercalate (runs p xs)

/-- One turn of the loop: the output, and whether a separator is due. -/
def collapseStep (p : α → Bool) (sep : α) (acc : List α × Bool) (c : α) : List α × Bool :=
  if p c then ((if acc.2 && !acc.1.isEmpty then acc.1 ++ [sep] else acc.1) ++ [c], false) else (acc.1, true)

/-- Every separator stands between two elements that are kept. -/
structure Spaced (p : α → Bool) (sep : α) (out : List α) : Prop where
  chars : ∀ c ∈ out, p c = true ∨ c = sep
  between : ∀ before after, out = before ++ sep :: after →
    (∃ c, before.getLast? = some c ∧ p c = true) ∧ ∃ c, after.head? = some c ∧ p c = true

/-! ## Words between separators -/

theorem intercalate_concat {ws : List (List α)} (hws : ws ≠ []) (w : List α) :
    [sep].intercalate (ws ++ [w]) = [sep].intercalate ws ++ sep :: w := by
  induction ws with
  | nil => exact absurd rfl hws
  | cons v ws ih =>
    cases ws with
    | nil => simp
    | cons v' ws =>
      rw [List.cons_append, List.intercalate_cons_of_ne_nil (by simp), ih (by simp),
        List.intercalate_cons_of_ne_nil (List.cons_ne_nil v' ws), ← List.append_assoc]

theorem intercalate_concat_append (ws : List (List α)) (w t : List α) :
    [sep].intercalate (ws ++ [w ++ t]) = [sep].intercalate (ws ++ [w]) ++ t := by
  cases ws with
  | nil => simp
  | cons v ws => rw [intercalate_concat (by simp), intercalate_concat (by simp), List.append_assoc, List.cons_append]

theorem intercalate_eq_nil {ws : List (List α)} (hws : ∀ w ∈ ws, w ≠ []) :
    [sep].intercalate ws = [] ↔ ws = [] := by
  cases ws with
  | nil => simp
  | cons w ws =>
    have hw := hws w List.mem_cons_self
    cases ws with
    | nil => simp [hw]
    | cons v ws => simp

theorem collapse_eq_nil {xs : List α} : collapse p sep xs = [] ↔ runs p xs = [] :=
  intercalate_eq_nil (fun _ hw => (mem_runs hw).1)

/-! ## The loop -/

theorem collapse_concat_new {x c : α} (hx : p x = false) (hc : p c = true) (xs : List α) :
    collapse p sep (xs ++ [x] ++ [c]) =
      (if !(collapse p sep (xs ++ [x])).isEmpty then collapse p sep (xs ++ [x]) ++ [sep]
        else collapse p sep (xs ++ [x])) ++ [c] := by
  by_cases hnone : runs p (xs ++ [x]) = []
  · have hempty : collapse p sep (xs ++ [x]) = [] := collapse_eq_nil.mpr hnone
    rw [hempty, collapse, runs_concat_new hx hc, hnone]
    simp
  · have hsome : (collapse p sep (xs ++ [x])).isEmpty = false := by
      rw [List.isEmpty_eq_false_iff]
      exact fun h => hnone (collapse_eq_nil.mp h)
    rw [hsome, Bool.not_false, if_pos rfl, collapse, runs_concat_new hx hc, intercalate_concat hnone, collapse,
      List.append_assoc, List.singleton_append]

/-- **The loop** has collapsed what it has read; a separator is due after an
element that is dropped. -/
theorem foldl_collapseStep (p : α → Bool) (sep : α) (xs : List α) :
    xs.foldl (collapseStep p sep) ([], false) = (collapse p sep xs, xs.getLast?.any (fun c => !p c)) := by
  induction xs using List.reverseRecOn with
  | nil => rfl
  | append_singleton xs c ih =>
    rw [List.foldl_append, ih, List.foldl_cons, List.foldl_nil, collapseStep, List.getLast?_concat, Option.any_some]
    by_cases hc : p c = true
    · rw [if_pos hc, hc]
      refine Prod.ext ?_ rfl
      rcases List.eq_nil_or_concat xs with rfl | ⟨ys, d, rfl⟩
      · have hone : collapse p sep [c] = [c] := by
          rw [collapse, runs_of_forall (by simpa using hc) (List.cons_ne_nil c []), List.intercalate_singleton]
        rw [List.nil_append, hone]
        rfl
      · rw [List.concat_eq_append, List.getLast?_concat, Option.any_some]
        by_cases hd : p d = true
        · obtain ⟨before, run, hfirst, hsecond⟩ := runs_concat hd hc ys
          simp only [hd, collapse, hfirst, hsecond, intercalate_concat_append]
          rfl
        · have hd' : p d = false := by simpa using hd
          simp only [hd', collapse_concat_new hd' hc]
          rfl
    · have hc' : p c = false := by simpa using hc
      rw [if_neg hc, hc', collapse, collapse, runs_concat_out hc']
      rfl

/-! ## Normal forms -/

theorem spaced_of_kept {w : List α} (hsep : p sep = false) (hw : ∀ c ∈ w, p c = true) : Spaced p sep w := by
  refine ⟨fun c hc => Or.inl (hw c hc), ?_⟩
  intro before after hsplit
  have hkept := hw sep (hsplit ▸ List.mem_append_right before List.mem_cons_self)
  rw [hsep] at hkept
  cases hkept

theorem Spaced.cons_word {w rest : List α} (h : Spaced p sep rest) (hsep : p sep = false) (hne : w ≠ [])
    (hw : ∀ c ∈ w, p c = true) (hhead : ∃ c, rest.head? = some c ∧ p c = true) :
    Spaced p sep (w ++ sep :: rest) := by
  have hlast : ∃ c, w.getLast? = some c ∧ p c = true :=
    ⟨w.getLast hne, List.getLast?_eq_some_getLast hne, hw _ (List.getLast_mem hne)⟩
  refine ⟨?_, ?_⟩
  · intro c hc
    obtain hc | hc | hc := (List.mem_append.trans (or_congr_right List.mem_cons)).mp hc
    · exact Or.inl (hw c hc)
    · exact Or.inr hc
    · exact h.chars c hc
  · intro before after hsplit
    -- a separator is the one after the word, or lies in the rest
    obtain ⟨t, rfl, hrest⟩ | ⟨t, rfl, hafter⟩ := List.append_eq_append_iff.mp hsplit
    · cases t with
      | nil =>
        rw [List.append_nil]
        exact ⟨hlast, (List.cons.inj hrest).2 ▸ hhead⟩
      | cons x t =>
        obtain ⟨⟨c, hc, hpc⟩, hafter⟩ := h.between t after (List.cons.inj hrest).2
        refine ⟨⟨c, ?_, hpc⟩, hafter⟩
        rw [List.getLast?_append, List.getLast?_cons, hc]
        rfl
    · cases t with
      | nil =>
        rw [List.append_nil] at hlast
        exact ⟨hlast, (List.cons.inj hafter).2 ▸ hhead⟩
      | cons x t =>
        have hkept := hw x (List.mem_append_right before List.mem_cons_self)
        rw [← (List.cons.inj hafter).1, hsep] at hkept
        cases hkept

theorem spaced_intercalate {ws : List (List α)} (hsep : p sep = false)
    (hws : ∀ w ∈ ws, w ≠ [] ∧ ∀ c ∈ w, p c = true) :
    Spaced p sep ([sep].intercalate ws) := by
  induction ws with
  | nil => exact spaced_of_kept hsep (by simp)
  | cons w ws ih =>
    have hw := hws w List.mem_cons_self
    have hrest := ih (fun v hv => hws v (List.mem_cons_of_mem w hv))
    cases ws with
    | nil => rw [List.intercalate_singleton]; exact spaced_of_kept hsep hw.2
    | cons v ws =>
      rw [List.intercalate_cons_cons, List.append_assoc, List.singleton_append]
      refine hrest.cons_word hsep hw.1 hw.2 ?_
      have hv := hws v (List.mem_cons_of_mem w List.mem_cons_self)
      obtain ⟨c, cs, rfl⟩ := List.exists_cons_of_ne_nil hv.1
      exact ⟨c, by rw [List.intercalate_cons_cons_left]; rfl, hv.2 c List.mem_cons_self⟩

/-- **Every separator stands between two kept elements.** -/
theorem spaced_collapse (hsep : p sep = false) (xs : List α) : Spaced p sep (collapse p sep xs) :=
  spaced_intercalate hsep (fun _ hw => mem_runs hw)

theorem runs_intercalate {ws : List (List α)} (hsep : p sep = false)
    (hws : ∀ w ∈ ws, w ≠ [] ∧ ∀ c ∈ w, p c = true) :
    runs p ([sep].intercalate ws) = ws := by
  induction ws with
  | nil => rfl
  | cons w ws ih =>
    have hw := hws w List.mem_cons_self
    have hrest := ih (fun v hv => hws v (List.mem_cons_of_mem w hv))
    cases ws with
    | nil => rw [List.intercalate_singleton, runs_of_forall hw.2 hw.1]
    | cons v ws =>
      rw [List.intercalate_cons_cons, List.append_assoc, List.singleton_append, runs_append_cons hsep,
        runs_of_forall hw.2 hw.1, hrest, List.singleton_append]

/-- **The runs stay.** -/
theorem runs_collapse (hsep : p sep = false) (xs : List α) : runs p (collapse p sep xs) = runs p xs :=
  runs_intercalate hsep (fun _ hw => mem_runs hw)

/-- **Once and for all.** -/
theorem collapse_collapse (hsep : p sep = false) (xs : List α) :
    collapse p sep (collapse p sep xs) = collapse p sep xs := by
  rw [collapse, runs_collapse hsep, collapse]

/-- **What is kept, and its order.** -/
theorem filter_collapse (hsep : p sep = false) (xs : List α) : (collapse p sep xs).filter p = xs.filter p := by
  rw [← flatten_runs, runs_collapse hsep, flatten_runs]

end AthenaVoice.Lib
