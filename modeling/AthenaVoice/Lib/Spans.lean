import AthenaVoice.Lib.Words

/-
  A character before another

  A text spans from `o` to `c` if a `c` follows an `o` in it, anywhere: an
  opening bracket and a closing one, with one or several words between.

  What is proved:
    1. `not_spans_append`, `not_spans_join` — what a text made of parts spans.
    2. `spans_of_ends` — a text that starts with `o` and ends in `c` spans.
-/

namespace AthenaVoice.Lib.Str

variable {o c : Char}

/-- An `o` stands somewhere before a `c`. -/
def Spans (o c : Char) (s : Text) : Prop := [o, c].Sublist s

instance (o c : Char) (s : Text) : Decidable (Spans o c s) :=
  decidable_of_iff ([o, c].isSublist s = true) List.isSublist_iff_sublist

theorem not_spans_iff {s : Text} : ¬ Spans o c s ↔ s.Pairwise (fun a b => a = o → b ≠ c) := by
  rw [List.pairwise_iff_forall_sublist]
  constructor
  · rintro hnot a b hsub rfl rfl
    exact hnot hsub
  · intro h hsub
    exact h hsub rfl rfl

theorem not_spans_append {s t : Text} : ¬ Spans o c (s ++ t) ↔ ¬ Spans o c s ∧ ¬ Spans o c t ∧
    (o ∈ s → c ∉ t) := by
  simp only [not_spans_iff]
  rw [List.pairwise_append]
  refine and_congr_right (fun _ => and_congr_right (fun _ => ?_))
  constructor
  · intro h hs ht
    exact h o hs c ht rfl rfl
  · rintro h a ha b hb rfl rfl
    exact h ha hb

theorem not_spans_cons {d : Char} {s : Text} (hd : d ≠ o) : ¬ Spans o c (d :: s) ↔ ¬ Spans o c s := by
  rw [not_spans_iff, not_spans_iff, List.pairwise_cons]
  exact and_iff_right (fun _ _ heq => absurd heq hd)

theorem mem_join (hc : c ≠ ' ') {ws : List Text} : c ∈ join [' '] ws ↔ ∃ w ∈ ws, c ∈ w := by
  induction ws with
  | nil =>
    constructor
    · intro h
      cases h
    · rintro ⟨w, hw, -⟩
      cases hw
  | cons w ws ih =>
    cases ws with
    | nil =>
      rw [join, List.intercalate_singleton]
      constructor
      · intro h
        exact ⟨w, List.mem_cons_self, h⟩
      · rintro ⟨v, hv, h⟩
        rwa [List.mem_singleton.mp hv] at h
    | cons v ws =>
      rw [join_cons, List.mem_append, List.mem_cons, or_iff_right hc, ih]
      constructor
      · rintro (h | ⟨x, hx, h⟩)
        · exact ⟨w, List.mem_cons_self, h⟩
        · exact ⟨x, List.mem_cons_of_mem w hx, h⟩
      · rintro ⟨x, hx, h⟩
        rcases List.mem_cons.mp hx with rfl | hx
        · exact Or.inl h
        · exact Or.inr ⟨x, hx, h⟩

/-- **Words joined** span from `o` to `c` if one of them does, or an `o` and a `c`
are in two of them, in this order. -/
theorem not_spans_join (ho : o ≠ ' ') (hc : c ≠ ' ') {ws : List Text} :
    ¬ Spans o c (join [' '] ws) ↔ (∀ w ∈ ws, ¬ Spans o c w) ∧
      ws.Pairwise (fun w v => o ∈ w → c ∉ v) := by
  induction ws with
  | nil =>
    constructor
    · intro _
      exact ⟨fun w hw => (by cases hw), List.Pairwise.nil⟩
    · intro _ h
      cases h
  | cons w ws ih =>
    cases ws with
    | nil =>
      rw [join, List.intercalate_singleton, List.forall_mem_singleton]
      exact (and_iff_left (List.pairwise_singleton _ _)).symm
    | cons v ws =>
      have hrest : (o ∈ w → c ∉ ' ' :: join [' '] (v :: ws)) ↔ ∀ x ∈ v :: ws, o ∈ w → c ∉ x := by
        rw [List.mem_cons, or_iff_right hc, mem_join hc]
        constructor
        · intro h x hx hw hcx
          exact h hw ⟨x, hx, hcx⟩
        · rintro h hw ⟨x, hx, hcx⟩
          exact h x hx hw hcx
      have hpairs : (w :: v :: ws).Pairwise (fun w v => o ∈ w → c ∉ v) ↔ _ := List.pairwise_cons
      have hwords : (∀ x ∈ w :: v :: ws, ¬ Spans o c x) ↔ _ := List.forall_mem_cons
      rw [join_cons, not_spans_append, not_spans_cons (Ne.symm ho), ih, hpairs, hwords, hrest]
      constructor
      · rintro ⟨hw, ⟨hall, hpair⟩, hfirst⟩
        exact ⟨⟨hw, hall⟩, hfirst, hpair⟩
      · rintro ⟨⟨hw, hall⟩, hfirst, hpair⟩
        exact ⟨hw, ⟨hall, hpair⟩, hfirst⟩

theorem spans_of_ends (hne : o ≠ c) {s : Text} (hfirst : s.head? = some o) (hlast : s.getLast? = some c) :
    Spans o c s := by
  cases s with
  | nil => cases hfirst
  | cons d t =>
    cases hfirst
    cases t with
    | nil => exact absurd (Option.some.inj hlast) hne
    | cons e t =>
      rw [List.getLast?_cons_cons] at hlast
      exact List.Sublist.cons_cons o (List.singleton_sublist.mpr (List.mem_of_getLast? hlast))

end AthenaVoice.Lib.Str
