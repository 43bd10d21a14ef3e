import Mathlib.Algebra.Ring.Nat
import Mathlib.Data.List.Nodup

/-
  Slots — lists whose places are updated one at a time

  A pool of parties is a list, a party its place in it. What is added up over
  the places changes with a place by what that place gives: the first argument
  of each lemma says how much.

  What is proved:
    1. `sum_modify`, `count_modify` — a sum, and how often a value is collected
       over the places, after an update.
    2. `getElem?_modify`, `modify_cases`, `set_cases`, `concat_cases` — what is
       there after an update.
    3. `map_modify` — readings an update keeps.
    4. `eq_of_nodup` — a value collected once comes from one place.
-/

namespace AthenaVoice.Lib.Slots

universe u v

variable {α : Type u} {β : Type v}

theorem sum_modify (w : α → Nat) (f : α → α) : ∀ {l : List α} {i : Nat} {a : α}, l[i]? = some a →
    ((l.modify i f).map w).sum + w a = (l.map w).sum + w (f a) := by
  intro l
  induction l with
  | nil => intro i a h; simp at h
  | cons b l ih =>
    intro i a h
    cases i with
    | zero =>
      cases h
      simp [Nat.add_comm, Nat.add_left_comm]
    | succ i =>
      have htail := ih (i := i) (a := a) (by simpa using h)
      simp only [List.modify_succ_cons, List.map_cons, List.sum_cons]
      omega

section Count

variable [BEq β]

theorem count_modify (g : α → List β) (f : α → α) (x : β) {l : List α} {i : Nat} {a : α}
    (h : l[i]? = some a) :
    ((l.modify i f).flatMap g).count x + (g a).count x = (l.flatMap g).count x + (g (f a)).count x := by
  simp only [List.count_flatMap]
  exact sum_modify (fun b => (g b).count x) f h

end Count

theorem getElem?_modify {l : List α} (f : α → α) (i j : Nat) :
    (l.modify i f)[j]? = if i = j then l[j]?.map f else l[j]? := by
  by_cases h : i = j
  · rw [if_pos h, ← h, List.getElem?_modify_eq]
    rfl
  · rw [if_neg h, List.getElem?_modify_ne f l h]

/-- What is in a place after an update of one was there, or is the one updated. -/
theorem modify_cases {l : List α} {f : α → α} {i j : Nat} {b : α} (h : (l.modify i f)[j]? = some b) :
    i ≠ j ∧ l[j]? = some b ∨ i = j ∧ ∃ a, l[j]? = some a ∧ b = f a := by
  rw [getElem?_modify] at h
  split at h
  · rename_i hij
    obtain ⟨a, ha, rfl⟩ := Option.map_eq_some_iff.mp h
    exact Or.inr ⟨hij, a, ha, rfl⟩
  · rename_i hij
    exact Or.inl ⟨hij, h⟩

theorem set_cases {l : List α} {a b : α} {i j : Nat} (h : (l.set i a)[j]? = some b) :
    i ≠ j ∧ l[j]? = some b ∨ i = j ∧ b = a := by
  by_cases hij : i = j
  · rw [hij, List.getElem?_set_self'] at h
    obtain ⟨c, -, hc⟩ := Option.map_eq_some_iff.mp h
    exact Or.inr ⟨hij, hc.symm⟩
  · rw [List.getElem?_set_ne hij] at h
    exact Or.inl ⟨hij, h⟩

/-- What is in a place after one was added at the end was there, or is the one added. -/
theorem concat_cases {l : List α} {a b : α} {j : Nat} (h : (l ++ [a])[j]? = some b) :
    l[j]? = some b ∨ j = l.length ∧ b = a := by
  rcases Nat.lt_or_ge j l.length with hlt | hge
  · rw [List.getElem?_append_left hlt] at h
    exact Or.inl h
  · rw [List.getElem?_append_right hge] at h
    obtain ⟨hzero, ha⟩ := List.getElem?_eq_some_iff.mp h
    have hj : j = l.length := by
      rw [List.length_singleton] at hzero
      omega
    refine Or.inr ⟨hj, ?_⟩
    rw [← ha, List.getElem_singleton]

/-- An update that keeps a reading of its place keeps the readings of all. -/
theorem map_modify {l : List α} {f : α → α} {g : α → β} {i : Nat}
    (h : ∀ a, l[i]? = some a → g (f a) = g a) :
    (l.modify i f).map g = l.map g := by
  refine List.ext_getElem? ?_
  intro j
  rw [List.getElem?_map, List.getElem?_map, getElem?_modify]
  split
  · rename_i heq
    subst heq
    cases ha : l[i]? with
    | none => rfl
    | some a => exact congrArg some (h a ha)
  · rfl

theorem exists_of_map_eq {l l' : List α} {g : α → β} {i : Nat} {a : α} (h : l'.map g = l.map g)
    (ha : l[i]? = some a) : ∃ a', l'[i]? = some a' ∧ g a' = g a := by
  have hi : (l'.map g)[i]? = (l.map g)[i]? := by rw [h]
  rw [List.getElem?_map, List.getElem?_map, ha] at hi
  exact Option.map_eq_some_iff.mp hi

/-- If no value is collected twice, a value is of one place. -/
theorem eq_of_nodup {l : List α} {g : α → List β} {i j : Nat} {a b : α} {x : β} (h : (l.flatMap g).Nodup)
    (hi : l[i]? = some a) (hj : l[j]? = some b) (ha : x ∈ g a) (hb : x ∈ g b) : i = j := by
  have hpair := (List.nodup_flatMap.mp h).2
  obtain ⟨hi', rfl⟩ := List.getElem?_eq_some_iff.mp hi
  obtain ⟨hj', rfl⟩ := List.getElem?_eq_some_iff.mp hj
  rcases Nat.lt_trichotomy i j with hlt | heq | hgt
  · exact absurd hb (List.pairwise_iff_getElem.mp hpair i j hi' hj' hlt ha)
  · exact heq
  · exact absurd ha (List.pairwise_iff_getElem.mp hpair j i hj' hi' hgt hb)

end AthenaVoice.Lib.Slots
