import AthenaVoice.Lib.Framing

/-
  Runs — the maximal stretches of a list on which a condition holds

  What is proved:
    1. `runs_append_cons` — an element outside ends a run.
    2. `runs_of_forall`, `runs_of_none` — a list that is one run, or has none.
    3. `flatten_runs` — the runs hold exactly the elements that meet the condition.
    4. `cut_induction` — induction at the elements outside.
    5. `runs_length_le_one_iff` — there is at most one run exactly if nothing
       outside lies between two elements inside.
    6. `runs_concat` — an element inside joins the last run.
    7. `runs_flatMap` — the runs of an image.
-/

namespace AthenaVoice.Lib

universe u v

variable {α : Type u} {β : Type v} {p : α → Bool} {xs ys : List α} {x : α}

def runs (p : α → Bool) (xs : List α) : List (List α) :=
  (xs.splitOnP (fun x => !p x)).filter (fun run => !run.isEmpty)

/-- Nothing outside lies between two elements inside. -/
def Gapless (p : α → Bool) (xs : List α) : Prop := ∀ a b c, [a, b, c].Sublist xs → p a = true →
    p c = true → p b = true

theorem runs_append_cons (hx : p x = false) (xs ys : List α) : runs p (xs ++ x :: ys) = runs p xs ++ runs p ys := by
  rw [runs, List.splitOnP_append_cons xs ys (by simp [hx]), List.filter_append, runs, runs]

theorem runs_of_forall (hxs : ∀ x ∈ xs, p x = true) (hne : xs ≠ []) : runs p xs = [xs] := by
  rw [runs, List.splitOnP_eq_singleton (by simpa using hxs), List.filter_cons_of_pos (by simpa using hne),
    List.filter_nil]

theorem runs_of_none (hxs : ∀ x ∈ xs, p x = false) : runs p xs = [] := by
  induction xs with
  | nil => rfl
  | cons x xs ih =>
    have h := runs_append_cons (p := p) (hxs x List.mem_cons_self) [] xs
    rw [List.nil_append] at h
    rw [h, ih (fun y hy => hxs y (List.mem_cons_of_mem x hy))]
    rfl

theorem flatten_splitOnP (q : α → Bool) (xs : List α) : (xs.splitOnP q).flatten = xs.filter (fun x => !q x) := by
  induction xs with
  | nil => rfl
  | cons x xs ih =>
    rw [List.splitOnP_cons_eq_if_modifyHead, List.filter_cons]
    cases hq : q x with
    | true =>
      rw [if_pos rfl, List.flatten_cons, List.nil_append, ih]
      rfl
    | false =>
      rw [if_neg (by simp), ← ih]
      obtain ⟨group, groups, hsplit⟩ := List.exists_cons_of_ne_nil (List.splitOnP_ne_nil q xs)
      rw [hsplit]
      rfl

/-- **The runs hold what meets the condition.** -/
theorem flatten_runs (p : α → Bool) (xs : List α) : (runs p xs).flatten = xs.filter p := by
  rw [runs, List.flatten_filter_not_isEmpty, flatten_splitOnP]
  simp

theorem runs_eq_nil_iff : runs p xs = [] ↔ ∀ x ∈ xs, p x = false := by
  refine ⟨?_, runs_of_none⟩
  intro h x hx
  have hfilter := flatten_runs p xs
  rw [h, List.flatten_nil] at hfilter
  simpa using List.filter_eq_nil_iff.mp hfilter.symm x hx

/-- What holds of lists with nothing outside, and of two lists with something
outside between them if it holds of each, holds of every list. -/
theorem cut_induction {motive : List α → Prop} (inside : ∀ xs, (∀ x ∈ xs, p x = true) → motive xs)
    (cut : ∀ us b vs, p b = false → motive us → motive vs → motive (us ++ b :: vs)) : ∀ xs, motive xs := by
  intro xs
  induction hn : xs.length using Nat.strongRecOn generalizing xs with
  | _ n ih =>
    by_cases hall : ∀ x ∈ xs, p x = true
    · exact inside xs hall
    · simp only [not_forall, Bool.not_eq_true] at hall
      obtain ⟨b, hb, hpb⟩ := hall
      obtain ⟨us, vs, rfl⟩ := List.append_of_mem hb
      rw [List.length_append, List.length_cons] at hn
      exact cut us b vs hpb (ih us.length (by omega) us rfl) (ih vs.length (by omega) vs rfl)

/-! ## One run at most -/

theorem Gapless.sublist (h : Gapless p xs) (hys : ys.Sublist xs) : Gapless p ys :=
  fun a b c habc => h a b c (habc.trans hys)

theorem runs_length_le_one (xs : List α) : Gapless p xs → (runs p xs).length ≤ 1 := by
  induction xs using cut_induction (p := p) with
  | inside xs hall =>
    intro _
    by_cases hne : xs = []
    · rw [hne]
      exact Nat.zero_le 1
    · rw [runs_of_forall hall hne]
      exact Nat.le_refl 1
  | cut us b vs hpb ihu ihv =>
    -- Only one side can have elements inside.
    intro h
    rw [runs_append_cons hpb]
    by_cases hu : ∃ a ∈ us, p a = true
    · obtain ⟨a, ha, hpa⟩ := hu
      have hv : ∀ c ∈ vs, p c = false := by
        intro c hc
        by_contra hpc
        have hsub : [a, b, c].Sublist (us ++ b :: vs) :=
          (List.singleton_sublist.mpr ha).append ((List.singleton_sublist.mpr hc).cons_cons b)
        rw [h a b c hsub hpa (by simpa using hpc)] at hpb
        cases hpb
      rw [runs_of_none hv, List.append_nil]
      exact ihu (h.sublist (List.sublist_append_left us _))
    · have hnone : ∀ a ∈ us, p a = false := by simpa using hu
      rw [runs_of_none hnone, List.nil_append]
      exact ihv (h.sublist ((List.sublist_cons_self b vs).trans (List.sublist_append_right us _)))

/-- **At most one run.** -/
theorem runs_length_le_one_iff : (runs p xs).length ≤ 1 ↔ Gapless p xs := by
  refine ⟨?_, runs_length_le_one xs⟩
  intro h a b c habc ha hc
  by_contra hb
  obtain ⟨r₁, r₂, rfl, ha₁, hbc⟩ := List.cons_sublist_iff.mp habc
  obtain ⟨s₁, s₂, rfl, hb₁, hc₂⟩ := List.cons_sublist_iff.mp hbc
  obtain ⟨us, vs, rfl⟩ := List.append_of_mem hb₁
  have hsplit : r₁ ++ (us ++ b :: vs ++ s₂) = r₁ ++ us ++ b :: (vs ++ s₂) := by simp
  rw [hsplit, runs_append_cons (by simpa using hb), List.length_append] at h
  -- what is outside cuts the list, and each side has a run
  have hleft : runs p (r₁ ++ us) ≠ [] := by
    intro hnone
    rw [runs_eq_nil_iff.mp hnone a (List.mem_append_left us ha₁)] at ha
    cases ha
  have hright : runs p (vs ++ s₂) ≠ [] := by
    intro hnone
    rw [runs_eq_nil_iff.mp hnone c (List.mem_append_right vs (List.singleton_sublist.mp hc₂))] at hc
    cases hc
  have hpos := List.length_pos_iff.mpr hleft
  have hpos' := List.length_pos_iff.mpr hright
  omega

/-! ## Growing and mapping -/

theorem mem_runs {run : List α} (h : run ∈ runs p xs) : run ≠ [] ∧ ∀ x ∈ run, p x = true := by
  refine ⟨?_, ?_⟩
  · intro hnil
    simpa [hnil] using (List.mem_filter.mp h).2
  · intro x hx
    have hfilter := flatten_runs p xs
    have hmem : x ∈ xs.filter p := hfilter ▸ List.mem_flatten.mpr ⟨run, h, hx⟩
    exact (List.mem_filter.mp hmem).2

theorem runs_concat_out (hx : p x = false) (xs : List α) : runs p (xs ++ [x]) = runs p xs := by
  have hnil : runs p ([] : List α) = [] := rfl
  rw [runs_append_cons hx, hnil, List.append_nil]

theorem runs_concat_new {y : α} (hx : p x = false) (hy : p y = true) (xs : List α) :
    runs p (xs ++ [x] ++ [y]) = runs p (xs ++ [x]) ++ [[y]] := by
  have hone : runs p [y] = [[y]] := runs_of_forall (by simpa using hy) (by simp)
  rw [runs_concat_out hx, List.append_assoc, List.singleton_append, runs_append_cons hx, hone]

/-- **An element inside joins the last run.** -/
theorem runs_concat {y : α} (hx : p x = true) (hy : p y = true) (xs : List α) : ∃ before run,
    runs p (xs ++ [x]) = before ++ [run] ∧ runs p (xs ++ [x] ++ [y]) = before ++ [run ++ [y]] := by
  obtain ⟨groups, last, -, hfirst⟩ := Framing.splitOnP_concat (p := fun x => !p x) (x := x) (by simp [hx]) xs
  obtain ⟨groups', last', hlast, hsecond⟩ :=
    Framing.splitOnP_concat (p := fun x => !p x) (x := y) (by simp [hy]) (xs ++ [x])
  rw [hfirst] at hlast
  obtain ⟨rfl, heq⟩ := List.append_inj' hlast rfl
  cases heq
  refine ⟨groups.filter (fun run => !run.isEmpty), last ++ [x], ?_, ?_⟩
  · rw [runs, hfirst, List.filter_append]
    simp
  · rw [runs, hsecond, List.filter_append]
    simp

theorem runs_append_of_none (hxs : ∀ x ∈ xs, p x = false) (ys : List α) : runs p (xs ++ ys) = runs p ys := by
  induction xs with
  | nil => rfl
  | cons x xs ih =>
    have hfirst := runs_append_cons (p := p) (hxs x List.mem_cons_self) [] (xs ++ ys)
    rw [List.nil_append] at hfirst
    rw [List.cons_append, hfirst, ih (fun y hy => hxs y (List.mem_cons_of_mem x hy))]
    rfl

/-- **The runs of an image.** -/
theorem runs_flatMap {q : β → Bool} {f : α → List β} (hne : ∀ x, f x ≠ [])
    (hin : ∀ x, p x = true → ∀ y ∈ f x, q y = true)
    (hout : ∀ x, p x = false → ∀ y ∈ f x, q y = false) (xs : List α) :
    runs q (xs.flatMap f) = (runs p xs).map (fun run => run.flatMap f) := by
  induction xs using cut_induction (p := p) with
  | inside xs hall =>
    by_cases hxs : xs = []
    · rw [hxs]
      rfl
    · have himage : ∀ y ∈ xs.flatMap f, q y = true := by
        intro y hy
        obtain ⟨x, hx, hy⟩ := List.mem_flatMap.mp hy
        exact hin x (hall x hx) y hy
      have hne' : xs.flatMap f ≠ [] := by
        obtain ⟨x, hx⟩ := List.exists_mem_of_ne_nil xs hxs
        intro hnil
        exact hne x (List.flatMap_eq_nil_iff.mp hnil x hx)
      rw [runs_of_forall himage hne', runs_of_forall hall hxs, List.map_singleton]
  | cut us b vs hpb ihu ihv =>
    -- the image of what is outside is outside, and is not empty, so it cuts too
    obtain ⟨y, ys, hb⟩ := List.exists_cons_of_ne_nil (hne b)
    have hys : ∀ z ∈ y :: ys, q z = false := fun z hz => hout b hpb z (hb ▸ hz)
    rw [List.flatMap_append, List.flatMap_cons, hb, List.cons_append, runs_append_cons (hys y List.mem_cons_self),
      runs_append_of_none (fun z hz => hys z (List.mem_cons_of_mem y hz)), ihu, ihv, runs_append_cons hpb,
        List.map_append]

end AthenaVoice.Lib
