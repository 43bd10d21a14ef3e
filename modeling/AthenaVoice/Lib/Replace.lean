import Mathlib.Data.List.TakeWhile

/-
  Replacing every occurrence — `str::replace`, over lists

  The scan goes from the left; at an occurrence it writes the replacement and
  goes on behind it, elsewhere it copies one element. Patterns are not empty.
  Several patterns are replaced one after the other, each in what the one before
  it left.

  What is proved:
    1. `scan` — induction along the scan.
    2. `replace_first` — the first occurrence is replaced, then the rest.
    3. `replaceAll_intercalate` — pieces around a separator that no pattern has
       are replaced one by one.
    4. `replaceAll_of_clean` — one occurrence and no other gives one replacement.
    5. `clean_of_replaceAll` — and only so, when no pattern shares an element
       with the replacement.
-/

namespace AthenaVoice.Lib.Replace

universe u

variable {α : Type u} [DecidableEq α]

/-- The scan; the next `skip` elements belong to an occurrence. -/
def replaceFrom (pat mark : List α) : Nat → List α → List α
  | _, [] => []
  | skip + 1, _ :: s => replaceFrom pat mark skip s
  | 0, c :: s =>
    if pat.isPrefixOf (c :: s) then mark ++ replaceFrom pat mark (pat.length - 1) s
    else c :: replaceFrom pat mark 0 s

/-- `s.replace(pat, mark)`, for a `pat` that is not empty. -/
def replace (pat mark s : List α) : List α := replaceFrom pat mark 0 s

def replaceAll (mark : List α) (pats : List (List α)) (s : List α) : List α :=
  pats.foldl (fun out pat => replace pat mark out) s

/-! ## The scan -/

variable {pat mark s t : List α} {c : α}

@[simp] theorem replace_nil (pat mark : List α) : replace pat mark [] = [] := rfl

theorem replace_copied (h : ¬ pat <+: c :: s) : replace pat mark (c :: s) = c :: replace pat mark s := by
  unfold replace
  rw [replaceFrom, if_neg]
  intro hp
  exact h (List.isPrefixOf_iff_prefix.mp hp)

theorem replaceFrom_skip (pat mark : List α) : ∀ p t : List α,
    replaceFrom pat mark p.length (p ++ t) = replaceFrom pat mark 0 t := by
  intro p t
  induction p with
  | nil => rfl
  | cons c p ih => rw [List.length_cons, List.cons_append, replaceFrom, ih]

theorem replace_found (hpat : pat ≠ []) (mark t : List α) :
    replace pat mark (pat ++ t) = mark ++ replace pat mark t := by
  obtain ⟨c, p, rfl⟩ := List.exists_cons_of_ne_nil hpat
  have hfound : (c :: p).isPrefixOf (c :: (p ++ t)) = true :=
    List.isPrefixOf_iff_prefix.mpr (List.prefix_append (c :: p) t)
  unfold replace
  rw [List.cons_append, replaceFrom, if_pos hfound, List.length_cons, Nat.add_sub_cancel, replaceFrom_skip]

/-- Along the scan. -/
@[elab_as_elim] theorem scan {motive : List α → Prop} (hpat : pat ≠ []) (nil : motive [])
    (found : ∀ t, motive t → motive (pat ++ t))
    (copied : ∀ c s, ¬ pat <+: c :: s → motive s → motive (c :: s)) : ∀ s, motive s := by
  intro s
  induction hn : s.length using Nat.strongRecOn generalizing s with
  | _ n ih =>
    cases s with
    | nil => exact nil
    | cons c s =>
      by_cases hp : pat <+: c :: s
      · obtain ⟨t, ht⟩ := hp
        have hlength := congrArg List.length ht
        have hpos := List.length_pos_iff.mpr hpat
        rw [List.length_append] at hlength
        rw [← ht]
        exact found t (ih t.length (by omega) t rfl)
      · exact copied c s hp (ih s.length (by rw [← hn]; exact Nat.lt_succ_self _) s rfl)

theorem replace_of_absent (h : ¬ pat <:+: s) : replace pat mark s = s := by
  induction s with
  | nil => rfl
  | cons c s ih =>
    rw [List.infix_cons_iff, not_or] at h
    rw [replace_copied h.1, ih h.2]

theorem replace_self (hpat : pat ≠ []) (s : List α) : replace pat pat s = s := by
  refine scan hpat rfl ?_ ?_ s
  · intro t ih
    rw [replace_found hpat, ih]
  · intro c s hp ih
    rw [replace_copied hp, ih]

/-- The first occurrence is replaced, then what follows it. -/
theorem replace_first (hpat : pat ≠ []) (mark : List α) (h : pat <:+: s) : ∃ x y, s = x ++ pat ++ y ∧
    (∀ x' y', s = x' ++ pat ++ y' → x.length ≤ x'.length) ∧
      replace pat mark s = x ++ mark ++ replace pat mark y := by
  induction s with
  | nil => exact absurd (List.infix_nil.mp h) hpat
  | cons c s ih =>
    by_cases hp : pat <+: c :: s
    · obtain ⟨y, hy⟩ := hp
      refine ⟨[], y, hy.symm, fun x' y' _ => Nat.zero_le _, ?_⟩
      rw [← hy, replace_found hpat, List.nil_append]
    · obtain ⟨x, y, hs, hfirst, hreplace⟩ := ih ((List.infix_cons_iff.mp h).resolve_left hp)
      refine ⟨c :: x, y, by rw [hs]; rfl, ?_, ?_⟩
      · intro x' y' hs'
        cases x' with
        | nil => exact absurd ⟨y', hs'.symm⟩ hp
        | cons c' x' => exact Nat.succ_le_succ (hfirst x' y' (List.cons.inj hs').2)
      · rw [replace_copied hp, hreplace]
        rfl

theorem replace_at_first {l r : List α} (hpat : pat ≠ [])
    (hfirst : ∀ x y, l ++ pat ++ r = x ++ pat ++ y → l.length ≤ x.length) :
    replace pat mark (l ++ pat ++ r) = l ++ mark ++ replace pat mark r := by
  obtain ⟨x, y, hs, hfirst', hreplace⟩ := replace_first hpat mark ⟨l, r, rfl⟩
  have hlength : l.length = x.length := Nat.le_antisymm (hfirst x y hs) (hfirst' l r rfl)
  rw [List.append_assoc, List.append_assoc] at hs
  obtain ⟨rfl, hrest⟩ := List.append_inj hs hlength
  rw [hreplace, List.append_cancel_left hrest]

/-! ## Separators -/

variable {sep : α}

omit [DecidableEq α] in
theorem prefix_of_prefix_sep {xs ys : List α} (hsep : sep ∉ pat) (h : pat <+: xs ++ sep :: ys) : pat <+: xs := by
  rcases List.prefix_or_prefix_of_prefix h (List.prefix_append xs (sep :: ys)) with hp | hxs
  · exact hp
  · obtain ⟨d, rfl⟩ := hxs
    obtain ⟨e, he⟩ := h
    rw [List.append_assoc] at he
    cases d with
    | nil => exact (List.append_nil xs).symm ▸ List.prefix_rfl
    | cons c d =>
      have hc : c = sep := (List.cons.inj (List.append_cancel_left he)).1
      exact absurd (List.mem_append_right xs (hc ▸ List.mem_cons_self)) hsep

theorem replace_sep (hpat : pat ≠ []) (hsep : sep ∉ pat) (mark xs ys : List α) :
    replace pat mark (xs ++ sep :: ys) = replace pat mark xs ++ sep :: replace pat mark ys := by
  refine scan hpat ?_ ?_ ?_ xs
  · apply replace_copied
    intro hp
    obtain ⟨c, p, rfl⟩ := List.exists_cons_of_ne_nil hpat
    exact hsep ((List.cons_prefix_cons.mp hp).1 ▸ List.mem_cons_self)
  · intro t ih
    rw [List.append_assoc, replace_found hpat, replace_found hpat, ih, List.append_assoc]
  · intro c s hp ih
    have hcopied : ¬ pat <+: c :: (s ++ sep :: ys) := by
      intro hfound
      exact hp (prefix_of_prefix_sep hsep (show pat <+: (c :: s) ++ sep :: ys from hfound))
    rw [List.cons_append, replace_copied hcopied, ih, replace_copied hp, List.cons_append]

theorem replaceAll_cons (mark pat : List α) (pats : List (List α)) (s : List α) :
    replaceAll mark (pat :: pats) s = replaceAll mark pats (replace pat mark s) := rfl

theorem replaceAll_append (mark : List α) (pats pats' : List (List α)) (s : List α) :
    replaceAll mark (pats ++ pats') s = replaceAll mark pats' (replaceAll mark pats s) := List.foldl_append

section

variable {pats : List (List α)}

theorem replaceAll_sep (hpats : ∀ pat ∈ pats, pat ≠ [] ∧ sep ∉ pat) (mark xs ys : List α) :
    replaceAll mark pats (xs ++ sep :: ys) = replaceAll mark pats xs ++ sep :: replaceAll mark pats ys := by
  induction pats generalizing xs ys with
  | nil => rfl
  | cons pat pats ih =>
    have hpat := hpats pat List.mem_cons_self
    rw [replaceAll_cons, replace_sep hpat.1 hpat.2, ih (fun p hp => hpats p (List.mem_cons_of_mem pat hp))]
    rfl

/-- Piece by piece. -/
theorem replaceAll_intercalate (hpats : ∀ pat ∈ pats, pat ≠ [] ∧ sep ∉ pat) (mark : List α)
    (parts : List (List α)) :
    replaceAll mark pats ([sep].intercalate parts) = [sep].intercalate (parts.map (replaceAll mark pats)) := by
  have hnil : replaceAll mark pats [] = [] := by
    clear hpats
    induction pats with
    | nil => rfl
    | cons pat pats ih => exact ih
  induction parts with
  | nil => exact hnil
  | cons part parts ih =>
    cases parts with
    | nil => simp only [List.map_cons, List.map_nil, List.intercalate_singleton]
    | cons next parts =>
      rw [List.map_cons, List.map_cons, List.intercalate_cons_cons, List.intercalate_cons_cons,
        List.append_assoc, List.append_assoc]
      exact (replaceAll_sep hpats mark part _).trans (congrArg (replaceAll mark pats part ++ sep :: ·) ih)

theorem mem_replace (hpat : pat ≠ []) (h : c ∈ replace pat mark s) : c ∈ s ∨ c ∈ mark := by
  revert h
  refine scan hpat ?_ ?_ ?_ s
  · exact fun h => .inl h
  · intro t ih h
    rw [replace_found hpat] at h
    rcases List.mem_append.mp h with h | h
    · exact .inr h
    · exact (ih h).imp_left (List.mem_append_right pat)
  · intro d t hd ih h
    rw [replace_copied hd] at h
    rcases List.mem_cons.mp h with h | h
    · exact .inl (h ▸ List.mem_cons_self)
    · exact (ih h).imp_left (List.mem_cons_of_mem d)

theorem mem_replaceAll (hpats : ∀ pat ∈ pats, pat ≠ []) (h : c ∈ replaceAll mark pats s) :
    c ∈ s ∨ c ∈ mark := by
  induction pats generalizing s with
  | nil => exact .inl h
  | cons pat pats ih =>
    rw [replaceAll_cons] at h
    rcases ih (fun p hp => hpats p (List.mem_cons_of_mem pat hp)) h with h | h
    · exact mem_replace (hpats pat List.mem_cons_self) h
    · exact .inr h

/-! ## One occurrence -/

theorem replaceAll_of_absent (hpats : ∀ pat ∈ pats, pat ≠ []) {mark s : List α}
    (h : ∀ pat ∈ pats, pat = mark ∨ ¬ pat <:+: s) : replaceAll mark pats s = s := by
  induction pats with
  | nil => rfl
  | cons pat pats ih =>
    have hpat : replace pat mark s = s := by
      rcases h pat List.mem_cons_self with heq | habsent
      · rw [← heq]
        exact replace_self (hpats pat List.mem_cons_self) s
      · exact replace_of_absent habsent
    rw [replaceAll_cons, hpat]
    exact ih (fun p hp => hpats p (List.mem_cons_of_mem pat hp)) (fun p hp => h p (List.mem_cons_of_mem pat hp))

/-- The pattern `v` stands between `l` and `r`, and when its turn comes it is
found there and nowhere else; nor is another pattern at its own turn. The
replacement itself may be a pattern. -/
structure Clean (mark : List α) (pats : List (List α)) (l v r : List α) : Prop where
  earlier : ∀ pat ∈ pats.takeWhile (· ≠ v), pat = mark ∨ ¬ pat <:+: l ++ v ++ r
  first : v = mark ∨ ∀ x y, l ++ v ++ r = x ++ v ++ y → l.length ≤ x.length
  only : v = mark ∨ ¬ v <:+: r
  later : ∀ pat ∈ (pats.dropWhile (· ≠ v)).tail, pat = mark ∨ ¬ pat <:+: l ++ mark ++ r

theorem split_at_turn {v : List α} (hv : v ∈ pats) :
    pats = pats.takeWhile (· ≠ v) ++ v :: (pats.dropWhile (· ≠ v)).tail := by
  have hne : pats.dropWhile (· ≠ v) ≠ [] := by
    intro hnil
    rw [List.dropWhile_eq_nil_iff] at hnil
    exact absurd (hnil v hv) (by simp)
  have hhead : (pats.dropWhile (· ≠ v)).head hne = v := by
    have hnot := List.head_dropWhile_not (fun x => decide (x ≠ v)) hne
    simpa using hnot
  have htail := List.cons_head_tail hne
  rw [hhead] at htail
  rw [htail, List.takeWhile_append_dropWhile]

theorem replaceAll_of_clean (hpats : ∀ pat ∈ pats, pat ≠ []) {mark l v r : List α} (hv : v ∈ pats)
    (h : Clean mark pats l v r) : replaceAll mark pats (l ++ v ++ r) = l ++ mark ++ r := by
  have hmem : ∀ pat ∈ pats.takeWhile (· ≠ v) ++ v :: (pats.dropWhile (· ≠ v)).tail, pat ≠ [] := by
    rw [← split_at_turn hv]
    exact hpats
  have hturn : replace v mark (l ++ v ++ r) = l ++ mark ++ r := by
    rcases h.first with heq | hfirst
    · rw [← heq]
      exact replace_self (hpats v hv) _
    · rcases h.only with heq | honly
      · rw [← heq]
        exact replace_self (hpats v hv) _
      · rw [replace_at_first (hpats v hv) hfirst, replace_of_absent honly]
  rw [split_at_turn hv, replaceAll_append,
    replaceAll_of_absent (fun pat hp => hmem pat (List.mem_append_left _ hp)) h.earlier, replaceAll_cons, hturn]
  exact replaceAll_of_absent (fun pat hp => hmem pat (List.mem_append_right _ (List.mem_cons_of_mem v hp))) h.later

/-! ## Patterns that share nothing with the replacement -/

variable {mark : List α}

/-- A pattern without an element of the replacement. -/
def Foreign (mark pat : List α) : Prop := pat ≠ [] ∧ ∀ c ∈ pat, c ∉ mark

omit [DecidableEq α] in
theorem Foreign.free {m : α} (h : Foreign mark pat) (hm : m ∈ mark) : pat ≠ [] ∧ m ∉ pat :=
  ⟨h.1, fun hmem => h.2 m hmem hm⟩

theorem count_le_replace {m : α} (hpat : pat ≠ []) (hm : m ∉ pat) (mark s : List α) :
    s.count m ≤ (replace pat mark s).count m := by
  refine scan hpat (Nat.le_refl _) ?_ ?_ s
  · intro t ih
    rw [replace_found hpat, List.count_append, List.count_append, List.count_eq_zero_of_not_mem hm]
    omega
  · intro c s hp ih
    rw [replace_copied hp, List.count_cons, List.count_cons]
    omega

theorem count_le_replaceAll {m : α} (hpats : ∀ pat ∈ pats, pat ≠ [] ∧ m ∉ pat) (mark s : List α) :
    s.count m ≤ (replaceAll mark pats s).count m := by
  induction pats generalizing s with
  | nil => exact Nat.le_refl _
  | cons pat pats ih =>
    have hpat := hpats pat List.mem_cons_self
    exact Nat.le_trans (count_le_replace hpat.1 hpat.2 mark s)
      (ih (fun p hp => hpats p (List.mem_cons_of_mem pat hp)) _)

theorem count_of_found {m : α} (hm : m ∈ mark) (hpat : pat ≠ []) (hmpat : m ∉ pat)
    (hpats : ∀ pat ∈ pats, pat ≠ [] ∧ m ∉ pat) (h : pat <:+: s) :
    s.count m < (replaceAll mark pats (replace pat mark s)).count m := by
  obtain ⟨x, y, hs, -, hreplace⟩ := replace_first hpat mark h
  have hrest := count_le_replace hpat hmpat mark y
  have hmore := count_le_replaceAll hpats mark (replace pat mark s)
  have hone : 0 < mark.count m := List.count_pos_iff.mpr hm
  have htext := congrArg (List.count m) hs
  have hreplaced := congrArg (List.count m) hreplace
  simp only [List.count_append, List.count_eq_zero_of_not_mem hmpat] at htext hreplaced
  omega

theorem absent_of_count {m : α} (hm : m ∈ mark) (hpats : ∀ pat ∈ pats, pat ≠ [] ∧ m ∉ pat)
    (h : (replaceAll mark pats s).count m ≤ s.count m) : ∀ pat ∈ pats, ¬ pat <:+: s := by
  induction pats with
  | nil => exact fun pat hpat => absurd hpat List.not_mem_nil
  | cons p pats ih =>
    have hrest : ∀ pat ∈ pats, pat ≠ [] ∧ m ∉ pat := fun pat hpat => hpats pat (List.mem_cons_of_mem p hpat)
    have hp := hpats p List.mem_cons_self
    have habsent : ¬ p <:+: s := by
      intro hfound
      exact absurd h (Nat.not_le.mpr (count_of_found hm hp.1 hp.2 hrest hfound))
    rw [replaceAll_cons, replace_of_absent habsent] at h
    intro pat hpat
    rcases List.mem_cons.mp hpat with rfl | hpat
    · exact habsent
    · exact ih hrest h pat hpat

omit [DecidableEq α] in
theorem length_le_of_same {x y l r w v : List α} (hmark : mark ≠ []) (hw : Foreign mark w)
    (hmarks : x ++ (mark ++ y) = l ++ (mark ++ r)) (hplain : x ++ (w ++ y) = l ++ (v ++ r)) :
    l.length ≤ x.length := by
  apply Nat.le_of_not_lt
  intro hlt
  obtain ⟨d, rfl⟩ := List.prefix_of_prefix_length_le (List.prefix_append x (mark ++ y))
    (hmarks ▸ List.prefix_append l (mark ++ r)) (Nat.le_of_lt hlt)
  rw [List.append_assoc] at hmarks hplain
  have hm := List.append_cancel_left hmarks
  have hp := List.append_cancel_left hplain
  obtain ⟨c, others, rfl⟩ := List.exists_cons_of_ne_nil hw.1
  obtain ⟨m, ms, rfl⟩ := List.exists_cons_of_ne_nil hmark
  cases d with
  | nil => simp at hlt
  | cons d ds =>
    have hmd : m = d := (List.cons.inj hm).1
    have hcd : c = d := (List.cons.inj hp).1
    apply hw.2 c List.mem_cons_self
    rw [hcd, hmd]
    exact List.mem_cons_self

omit [DecidableEq α] in
theorem same_place {x y l r w v : List α} (hmark : mark ≠ []) (hw : Foreign mark w) (hv : Foreign mark v)
    (hmarks : x ++ mark ++ y = l ++ mark ++ r) (hplain : x ++ w ++ y = l ++ v ++ r) : x = l ∧ w = v ∧ y = r := by
  rw [List.append_assoc, List.append_assoc] at hmarks hplain
  have hlength : x.length = l.length :=
    Nat.le_antisymm (length_le_of_same hmark hv hmarks.symm hplain.symm) (length_le_of_same hmark hw hmarks hplain)
  obtain ⟨rfl, hrest⟩ := List.append_inj hmarks hlength
  have hy := List.append_cancel_left hrest
  subst hy
  exact ⟨rfl, List.append_cancel_right (List.append_cancel_left hplain), rfl⟩

/-- If the outcome is the text with `v` replaced between `l` and `r`, then `v`
was found there, and no pattern was found elsewhere at its turn. -/
theorem turn_of_replaceAll {l v r : List α} (hmark : mark ≠ []) (hpats : ∀ pat ∈ pats, Foreign mark pat)
    (hv : Foreign mark v) (h : replaceAll mark pats (l ++ v ++ r) = l ++ mark ++ r) :
    ∃ before after, pats = before ++ v :: after ∧ (∀ pat ∈ before, ¬ pat <:+: l ++ v ++ r) ∧
      (∀ x y, l ++ v ++ r = x ++ v ++ y → l.length ≤ x.length) ∧ ¬ v <:+: r ∧
      ∀ pat ∈ after, ¬ pat <:+: l ++ mark ++ r := by
  obtain ⟨m, hm⟩ := List.exists_mem_of_ne_nil mark hmark
  have hfree : ∀ {pats : List (List α)}, (∀ pat ∈ pats, Foreign mark pat) →
    ∀ pat ∈ pats, pat ≠ [] ∧ m ∉ pat :=
    fun hpats pat hpat => (hpats pat hpat).free hm
  induction pats with
  | nil =>
    -- nothing is replaced, so `v` would be the replacement
    have hv' : v = mark := List.append_cancel_left (List.append_cancel_right h)
    exact absurd hm (hv.2 m (hv' ▸ hm))
  | cons p pats ih =>
    have hp := hpats p List.mem_cons_self
    have hrest : ∀ pat ∈ pats, Foreign mark pat := fun pat hpat => hpats pat (List.mem_cons_of_mem p hpat)
    rw [replaceAll_cons] at h
    by_cases hfound : p <:+: l ++ v ++ r
    · -- the one replacement there is room for
      obtain ⟨x, y, hs, hfirst, hreplace⟩ := replace_first hp.1 mark hfound
      have hmp : m ∉ p := (hp.free hm).2
      have hmv : m ∉ v := (hv.free hm).2
      have hfinal := congrArg (List.count m) h
      have htext := congrArg (List.count m) hs
      have hreplaced := congrArg (List.count m) hreplace
      simp only [List.count_append, List.count_eq_zero_of_not_mem hmp,
        List.count_eq_zero_of_not_mem hmv] at hfinal htext hreplaced
      have hmono := count_le_replaceAll (hfree hrest) mark (replace p mark (l ++ v ++ r))
      have hy := count_le_replace hp.1 hmp mark y
      have hafter := absent_of_count hm (hfree hrest) (s := replace p mark (l ++ v ++ r)) (by
        rw [h]
        simp only [List.count_append]
        omega)
      have honly : ¬ p <:+: y := by
        have hnone : ∀ pat ∈ [p], ¬ pat <:+: y := absent_of_count hm
          (fun pat hpat => by rw [List.mem_singleton.mp hpat]; exact ⟨hp.1, hmp⟩) (by
            show (replace p mark y).count m ≤ y.count m
            omega)
        exact hnone p List.mem_cons_self
      rw [replaceAll_of_absent (fun pat hpat => (hrest pat hpat).1) (fun pat hpat => .inr (hafter pat hpat)), hreplace,
        replace_of_absent honly] at h
      obtain ⟨rfl, rfl, rfl⟩ := same_place hmark hp hv h hs.symm
      refine ⟨[], pats, rfl, fun pat hpat => absurd hpat List.not_mem_nil, hfirst, honly, ?_⟩
      rw [hreplace, replace_of_absent honly] at hafter
      exact hafter
    · rw [replace_of_absent hfound] at h
      obtain ⟨before, after, rfl, hbefore, htail⟩ := ih hrest h
      refine ⟨p :: before, after, rfl, ?_, htail⟩
      intro pat hpat
      rcases List.mem_cons.mp hpat with rfl | hpat
      · exact hfound
      · exact hbefore pat hpat

theorem clean_of_replaceAll {l v r : List α} (hmark : mark ≠ []) (hpats : ∀ pat ∈ pats, Foreign mark pat)
    (hv : Foreign mark v) (h : replaceAll mark pats (l ++ v ++ r) = l ++ mark ++ r) : Clean mark pats l v r := by
  obtain ⟨before, after, rfl, hbefore, hfirst, honly, hafter⟩ := turn_of_replaceAll hmark hpats hv h
  have hne : ∀ pat ∈ before, decide (pat ≠ v) = true := by
    intro pat hpat
    apply decide_eq_true
    intro heq
    exact hbefore pat hpat (heq ▸ ⟨l, r, rfl⟩)
  have htake : (before ++ v :: after).takeWhile (· ≠ v) = before := by
    rw [List.takeWhile_append_of_pos hne, List.takeWhile_cons_of_neg (by simp), List.append_nil]
  have hdrop : (before ++ v :: after).dropWhile (· ≠ v) = v :: after := by
    rw [List.dropWhile_append_of_pos hne, List.dropWhile_cons_of_neg (by simp)]
  refine ⟨?_, .inr hfirst, .inr honly, ?_⟩
  · rw [htake]
    exact fun pat hpat => .inr (hbefore pat hpat)
  · rw [hdrop, List.tail_cons]
    exact fun pat hpat => .inr (hafter pat hpat)

end

end AthenaVoice.Lib.Replace
