import AthenaVoice.Lib.Selection
import Mathlib.Data.List.MinMax
import Mathlib.Algebra.Order.Field.Basic
import Mathlib.Tactic.Linarith

/-
  Selection by score, with a band of near ties

  A key is a score and a weight. Two keys whose scores are at most `ε` apart
  are ranked by weight, others by score. What one would like to win is a key
  within `ε` of the best score, of the largest weight among those: a top key.
  A fold compares each key with the running best only, so a key below the band
  that lies within `ε` of a top key can take its place.

  What is proved:
    1. `select_top_of_unrivalled` — without such a rival a top key wins.
    2. `select_top_iff_unrivalled` — with one it does not, in some order of the
       list.
-/

namespace AthenaVoice.Lib

universe u v w

theorem exists_largest {α : Type u} {β : Type v} [LinearOrder β] (f : α → β) (P : α → Prop) {l : List α}
    (h : ∃ x ∈ l, P x) : ∃ m ∈ l, P m ∧ ∀ x ∈ l, P x → f x ≤ f m := by
  classical
  obtain ⟨x, hx, hPx⟩ := h
  have hne : (l.filter (fun y => P y)) ≠ [] :=
    List.ne_nil_of_mem (List.mem_filter.mpr ⟨hx, decide_eq_true hPx⟩)
  cases hm : (l.filter (fun y => P y)).argmax f with
  | none => exact absurd (List.argmax_eq_none.mp hm) hne
  | some m =>
    obtain ⟨hml, hPm⟩ := List.mem_filter.mp (List.argmax_mem hm)
    refine ⟨m, hml, of_decide_eq_true hPm, ?_⟩
    intro y hy hPy
    exact List.le_of_mem_argmax (List.mem_filter.mpr ⟨hy, decide_eq_true hPy⟩) hm

section Band

variable {K : Type u} [Field K] [LinearOrder K] {W : Type v} {α : Type w} (key : α → K × W) (ε : K)

/-- No score of the list is more than `ε` above that of the key. -/
def NearTop (l : List α) (k : K × W) : Prop := ∀ x ∈ l, (key x).1 - k.1 ≤ ε

variable {key ε}

theorem NearTop.perm {l l' : List α} (hp : l'.Perm l) {k : K × W} : NearTop key ε l' k ↔ NearTop key ε l k := by
  unfold NearTop
  simp only [hp.mem_iff]

variable [IsStrictOrderedRing K]

theorem lt_of_nearTop {l : List α} {c k : K × W} (hc : ¬ NearTop key ε l c) (hk : NearTop key ε l k) :
    c.1 < k.1 := by
  unfold NearTop at hc
  push Not at hc
  obtain ⟨x, hx, hfar⟩ := hc
  have hnear := hk x hx
  linarith

theorem abs_sub_le_of_nearTop {l : List α} {x y : α} (hx : x ∈ l) (hy : y ∈ l) (hxn : NearTop key ε l (key x))
    (hyn : NearTop key ε l (key y)) : |(key x).1 - (key y).1| ≤ ε := by
  have hxy := hyn x hx
  have hyx := hxn y hy
  rw [abs_le]
  constructor <;> linarith

variable [LinearOrder W]

omit [IsStrictOrderedRing K] in
/-- Within the band the larger weight wins, outside it the larger score. -/
def bandBeats (ε : K) (c b : K × W) : Prop := if |c.1 - b.1| ≤ ε then b.2 < c.2 else 0 < c.1 - b.1

instance decidableBandBeats (ε : K) : DecidableRel (bandBeats (W := W) ε) := fun c b => by
  unfold bandBeats
  infer_instance

variable (key ε) in
/-- A key near the best score, of the largest weight among those. -/
def TopKey (l : List α) (k : K × W) : Prop :=
  NearTop key ε l k ∧ ∀ x ∈ l, NearTop key ε l (key x) → (key x).2 ≤ k.2

omit [IsStrictOrderedRing K] in
theorem TopKey.perm {l l' : List α} (hp : l'.Perm l) {k : K × W} : TopKey key ε l' k ↔ TopKey key ε l k := by
  unfold TopKey
  simp only [hp.mem_iff, NearTop.perm hp]

variable (key ε) in
/-- No element below the band comes within `ε` of a top one with a larger
weight, or of every top one with the same. -/
def Unrivalled (l : List α) : Prop :=
  ∀ c ∈ l, ¬ NearTop key ε l (key c) → ∀ e ∈ l, TopKey key ε l (key e) → (key e).1 - (key c).1 ≤ ε →
    (key c).2 ≤ (key e).2 ∧
      ((key c).2 = (key e).2 → ∃ e' ∈ l, TopKey key ε l (key e') ∧ ε < (key e').1 - (key c).1)

theorem bandBeats_of_nearTop {l : List α} {x y : α} (hx : x ∈ l) (hy : y ∈ l) (hxn : NearTop key ε l (key x))
    (hyn : NearTop key ε l (key y)) : bandBeats ε (key x) (key y) ↔ (key y).2 < (key x).2 := by
  unfold bandBeats
  rw [if_pos (abs_sub_le_of_nearTop hx hy hxn hyn)]

/-- Against a key of the band, one below it can only win by weight, and only
from within `ε`. -/
theorem bandBeats_below_iff {l : List α} {c k : K × W} (hc : ¬ NearTop key ε l c) (hk : NearTop key ε l k) :
    bandBeats ε c k ↔ k.1 - c.1 ≤ ε ∧ k.2 < c.2 := by
  have hlt := lt_of_nearTop hc hk
  unfold bandBeats
  rw [abs_sub_comm, abs_of_pos (by linarith)]
  split
  · rename_i hband
    exact ⟨fun h => ⟨hband, h⟩, fun h => h.2⟩
  · rename_i hfar
    exact ⟨fun h => by linarith, fun h => absurd h.1 hfar⟩

theorem not_bandBeats_below_iff {l : List α} {c k : K × W} (hc : ¬ NearTop key ε l c) (hk : NearTop key ε l k) :
    ¬ bandBeats ε k c ↔ k.1 - c.1 ≤ ε ∧ k.2 ≤ c.2 := by
  have hlt := lt_of_nearTop hc hk
  unfold bandBeats
  rw [abs_of_pos (by linarith)]
  split
  · rename_i hband
    exact ⟨fun h => ⟨hband, not_lt.mp h⟩, fun h => not_lt.mpr h.2⟩
  · rename_i hfar
    exact ⟨fun h => absurd (by linarith) h, fun h => absurd h.1 hfar⟩

variable (key) in
theorem exists_top (hε : 0 ≤ ε) {l : List α} (hl : l ≠ []) :
    ∃ e ∈ l, TopKey key ε l (key e) ∧ ∀ x ∈ l, TopKey key ε l (key x) → (key x).1 ≤ (key e).1 := by
  obtain ⟨x, hx⟩ := List.exists_mem_of_ne_nil l hl
  obtain ⟨m, hm, -, hmax⟩ := exists_largest (fun y => (key y).1) (fun _ => True) ⟨x, hx, trivial⟩
  have hnear : NearTop key ε l (key m) := by
    intro y hy
    have hle := hmax y hy trivial
    linarith
  obtain ⟨t, ht, htnear, htop⟩ :=
    exists_largest (fun y => (key y).2) (fun y => NearTop key ε l (key y)) ⟨m, hm, hnear⟩
  exact exists_largest (fun y => (key y).1) (fun y => TopKey key ε l (key y)) ⟨t, ht, htnear, htop⟩

/-- **Without a rival.** A top key wins. -/
theorem select_top_of_unrivalled (hε : 0 ≤ ε) {l : List α} (hl : l ≠ []) (h : Unrivalled key ε l) :
    ∃ m, select key (bandBeats ε) l = some m ∧ TopKey key ε l (key m) := by
  obtain ⟨e, he, htop, hmax⟩ := exists_top key hε hl
  apply select_good key (bandBeats ε) (G := TopKey key ε l) he htop
  · -- what `e` does not beat when it is met
    intro x hx hnot
    by_cases hnear : NearTop key ε l (key x)
    · rw [bandBeats_of_nearTop he hx htop.1 hnear, not_lt] at hnot
      exact ⟨hnear, fun y hy hyn => (htop.2 y hy hyn).trans hnot⟩
    · obtain ⟨hclose, hweight⟩ := (not_bandBeats_below_iff hnear htop.1).mp hnot
      obtain ⟨hle, heq⟩ := h x hx hnear e he htop hclose
      obtain ⟨e', he', htop', hfar⟩ := heq (le_antisymm hle hweight)
      have hbest := hmax e' he' htop'
      exact absurd hclose (by linarith)
  · -- nothing beats a top key but another
    intro x hx y hy hytop hbeats
    by_cases hnear : NearTop key ε l (key x)
    · rw [bandBeats_of_nearTop hx hy hnear hytop.1] at hbeats
      exact absurd (hytop.2 x hx hnear) (not_le.mpr hbeats)
    · obtain ⟨hclose, hweight⟩ := (bandBeats_below_iff hnear hytop.1).mp hbeats
      exact absurd (h x hx hnear y hy hytop hclose).1 (not_le.mpr hweight)

/-! ## Orders in which a rival wins -/

omit [IsStrictOrderedRing K] in
theorem not_top_of_late {l : List α} {s : List α} {c : α} (hc : ¬ TopKey key ε l (key c))
    (hs : ∀ x ∈ s, ¬ TopKey key ε l (key x)) :
    ∃ m, s.foldl (pick key (bandBeats ε)) (some c) = some m ∧ ¬ TopKey key ε l (key m) := by
  obtain ⟨m, hm, -, hnot⟩ := foldl_pick_some key (bandBeats ε) (G := fun k => ¬ TopKey key ε l k) s c hc
    (fun x hx _ _ _ => hs x hx)
  exact ⟨m, hm, hnot⟩

omit [IsStrictOrderedRing K] in
variable (key ε) in
theorem exists_perm_top_first (l s : List α) : ∃ t r : List α, (t ++ r).Perm s ∧
    (∀ x ∈ t, x ∈ s ∧ TopKey key ε l (key x)) ∧
    ∀ x ∈ r, ¬ TopKey key ε l (key x) := by
  classical
  refine ⟨s.filter (fun x => TopKey key ε l (key x)), s.filter (fun x => ¬ TopKey key ε l (key x)), ?_, ?_, ?_⟩
  · simpa using List.filter_append_perm (fun x => decide (TopKey key ε l (key x))) s
  · intro x hx
    obtain ⟨hxs, hxt⟩ := List.mem_filter.mp hx
    exact ⟨hxs, of_decide_eq_true hxt⟩
  · intro x hx
    exact of_decide_eq_true (List.mem_filter.mp hx).2

/-- Behind the element of a top key, and before all that is not top, a rival of
larger weight takes its place. -/
theorem exists_perm_not_top_of_heavier {l : List α} {c e : α} (hc : c ∈ l) (hbelow : ¬ NearTop key ε l (key c))
    (he : e ∈ l) (htop : TopKey key ε l (key e)) (hclose : (key e).1 - (key c).1 ≤ ε)
    (hweight : (key e).2 < (key c).2) :
    ∃ l' m, l'.Perm l ∧ select key (bandBeats ε) l' = some m ∧ ¬ TopKey key ε l (key m) := by
  have hcnot : ¬ TopKey key ε l (key c) := fun h => hbelow h.1
  have hne : c ≠ e := fun h => hcnot (h ▸ htop)
  obtain ⟨pre, post, rfl⟩ := List.append_of_mem he
  have hc' : c ∈ pre ++ post := by
    simp only [List.mem_append, List.mem_cons] at hc ⊢
    tauto
  obtain ⟨pre', post', hsplit⟩ := List.append_of_mem hc'
  obtain ⟨t, r, hperm, ht, hr⟩ := exists_perm_top_first key ε (pre ++ e :: post) (pre' ++ post')
  have hall : (e :: (t ++ c :: r)).Perm (pre ++ e :: post) := by
    have h₁ : (t ++ c :: r).Perm (pre ++ post) := by
      rw [hsplit]
      exact List.perm_middle.trans ((hperm.cons c).trans List.perm_middle.symm)
    exact (h₁.cons e).trans List.perm_middle.symm
  have hstays : t.foldl (pick key (bandBeats ε)) (some e) = some e := by
    apply foldl_pick_unbeaten t e
    intro x hx
    have hxl : x ∈ pre ++ e :: post := hall.mem_iff.mp (by simp [hx])
    rw [bandBeats_of_nearTop hxl he (ht x hx).2.1 htop.1, not_lt]
    exact htop.2 x hxl (ht x hx).2.1
  obtain ⟨m, hm, hnot⟩ := not_top_of_late hcnot hr
  refine ⟨_, m, hall, ?_, hnot⟩
  have hbeats : bandBeats ε (key c) (key e) := (bandBeats_below_iff hbelow htop.1).mpr ⟨hclose, hweight⟩
  rw [select, List.foldl_cons, List.foldl_append]
  show (c :: r).foldl _ (t.foldl _ (some e)) = some m
  rw [hstays, List.foldl_cons]
  simp only [pick, if_pos hbeats]
  exact hm

/-- Before everything else, a rival of the same weight holds out against all
the top elements. -/
theorem exists_perm_not_top_of_equal {l : List α} {c : α} (hc : c ∈ l) (hbelow : ¬ NearTop key ε l (key c))
    (hall : ∀ e ∈ l, TopKey key ε l (key e) → (key e).1 - (key c).1 ≤ ε ∧ (key e).2 ≤ (key c).2) :
    ∃ l' m, l'.Perm l ∧ select key (bandBeats ε) l' = some m ∧ ¬ TopKey key ε l (key m) := by
  have hcnot : ¬ TopKey key ε l (key c) := fun h => hbelow h.1
  obtain ⟨pre, post, rfl⟩ := List.append_of_mem hc
  obtain ⟨t, r, hperm, ht, hr⟩ := exists_perm_top_first key ε (pre ++ c :: post) (pre ++ post)
  have hlist : (c :: (t ++ r)).Perm (pre ++ c :: post) := (hperm.cons c).trans List.perm_middle.symm
  have hstays : t.foldl (pick key (bandBeats ε)) (some c) = some c := by
    apply foldl_pick_unbeaten t c
    intro x hx
    have hxl : x ∈ pre ++ c :: post := hlist.mem_iff.mp (by simp [hx])
    exact (not_bandBeats_below_iff hbelow (ht x hx).2.1).mpr (hall x hxl (ht x hx).2)
  obtain ⟨m, hm, hnot⟩ := not_top_of_late hcnot hr
  refine ⟨_, m, hlist, ?_, hnot⟩
  rw [select, List.foldl_cons, List.foldl_append]
  show r.foldl _ (t.foldl _ (some c)) = some m
  rw [hstays]
  exact hm

/-- **Near ties.** In every order of the list a top key wins exactly when there
is no rival. -/
theorem select_top_iff_unrivalled (hε : 0 ≤ ε) (l : List α) :
    (∀ l', l'.Perm l → ∀ m, select key (bandBeats ε) l' = some m → TopKey key ε l (key m)) ↔
      Unrivalled key ε l := by
  constructor
  · intro h c hc hbelow e he htop hclose
    have hnone : ¬ ∃ l' m, l'.Perm l ∧ select key (bandBeats ε) l' = some m ∧ ¬ TopKey key ε l (key m) := by
      intro hex
      obtain ⟨l', m, hp, hm, hnot⟩ := hex
      exact hnot (h l' hp m hm)
    have hle : (key c).2 ≤ (key e).2 := by
      by_contra hlt
      exact hnone (exists_perm_not_top_of_heavier hc hbelow he htop hclose (not_le.mp hlt))
    refine ⟨hle, ?_⟩
    intro heq
    by_contra hfar
    push Not at hfar
    refine hnone (exists_perm_not_top_of_equal hc hbelow ?_)
    intro e' he' htop'
    exact ⟨hfar e' he' htop', heq ▸ htop.2 e' he' htop'.1⟩
  · intro h l' hp m hm
    have hl' : l' ≠ [] := by
      rintro rfl
      cases hm
    have h' : Unrivalled key ε l' := by
      unfold Unrivalled at h ⊢
      simpa only [hp.mem_iff, NearTop.perm hp, TopKey.perm hp] using h
    obtain ⟨m', hm', htop⟩ := select_top_of_unrivalled hε hl' h'
    rw [hm] at hm'
    cases hm'
    exact (TopKey.perm hp).mp htop

end Band

end AthenaVoice.Lib
