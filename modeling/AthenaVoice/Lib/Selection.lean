import Mathlib.Data.List.Perm.Basic
import Mathlib.Data.List.Basic

/-
  Selection by a left fold with a preference that need not be transitive

  `select` keeps a running best and replaces it by each later element whose
  key beats the key of the best. Nothing is assumed of the preference beyond
  asymmetry, so it may have cycles and ties, and the winner may depend on the
  order of the list.

  What is proved:
    1. `select_good` — a set of keys that contains the key of one element `e`
       and every key `e` does not beat, and that is closed under being beaten
       inside the list, contains the winner's key.
    2. `key_select_of_decisive` — a key that beats every other key of the list
       wins, in whatever order the list stands.
    3. `perm_invariant_iff` — the winning key is the same for every order of
       the list iff the list is empty or some key is decisive.
-/

namespace AthenaVoice.Lib

universe u v

section

variable {α : Type u} {κ : Type v} (key : α → κ) (beats : κ → κ → Prop) [DecidableRel beats]

/-- One round: the challenger `c` replaces the running best iff its key beats it. -/
def pick : Option α → α → Option α
  | none, c => some c
  | some b, c => if beats (key c) (key b) then some c else some b

/-- The element left standing after the whole list. -/
def select (l : List α) : Option α := l.foldl (pick key beats) none

variable {key beats}

variable (key beats) in
/-- From a running best the fold ends in an element, and a set of keys closed
under being beaten inside the list is never left. -/
theorem foldl_pick_some {G : κ → Prop} : ∀ (l : List α) (b : α), G (key b) →
    (∀ x ∈ l, ∀ k, G k → beats (key x) k → G (key x)) →
    ∃ m, l.foldl (pick key beats) (some b) = some m ∧ (m = b ∨ m ∈ l) ∧ G (key m) := by
  intro l
  induction l with
  | nil => intro b hb _; exact ⟨b, rfl, Or.inl rfl, hb⟩
  | cons c l ih =>
    intro b hb hcl
    have hcl' : ∀ x ∈ l, ∀ k, G k → beats (key x) k → G (key x) :=
      fun x hx => hcl x (List.mem_cons_of_mem c hx)
    by_cases h : beats (key c) (key b)
    · obtain ⟨m, hm, hmem, hg⟩ := ih c (hcl c List.mem_cons_self _ hb h) hcl'
      refine ⟨m, by simpa [pick, h] using hm, Or.inr ?_, hg⟩
      rcases hmem with rfl | hmem
      · exact List.mem_cons_self
      · exact List.mem_cons_of_mem c hmem
    · obtain ⟨m, hm, hmem, hg⟩ := ih b hb hcl'
      refine ⟨m, by simpa [pick, h] using hm, ?_, hg⟩
      exact hmem.imp_right (List.mem_cons_of_mem c)

theorem foldl_pick_unbeaten : ∀ (l : List α) (b : α), (∀ x ∈ l, ¬ beats (key x) (key b)) →
    l.foldl (pick key beats) (some b) = some b := by
  intro l
  induction l with
  | nil => intro b _; rfl
  | cons c l ih =>
    intro b h
    simp only [List.foldl_cons, pick, h c List.mem_cons_self, if_false]
    exact ih b (fun x hx => h x (List.mem_cons_of_mem c hx))

theorem select_eq_none {l : List α} : select key beats l = none ↔ l = [] := by
  cases l with
  | nil => simp [select]
  | cons c l =>
    obtain ⟨m, hm, -, -⟩ := foldl_pick_some key beats (G := fun _ => True) l c
      trivial (fun _ _ _ _ _ => trivial)
    simp [select, pick, hm]

theorem select_congr {beats' : κ → κ → Prop} [DecidableRel beats'] {l : List α}
    (h : ∀ x ∈ l, ∀ y ∈ l, beats (key x) (key y) ↔ beats' (key x) (key y)) :
    select key beats l = select key beats' l := by
  have hfold : ∀ (t : List α) (best : Option α), (∀ x ∈ t, x ∈ l) → (∀ b ∈ best, b ∈ l) →
      t.foldl (pick key beats) best = t.foldl (pick key beats') best := by
    intro t
    induction t with
    | nil => intro best _ _; rfl
    | cons c t ih =>
      intro best ht hbest
      have hc := ht c List.mem_cons_self
      have hpick : pick key beats best c = pick key beats' best c ∧ ∀ b ∈ pick key beats best c, b ∈ l := by
        cases best with
        | none => exact ⟨rfl, fun b hb => Option.some.inj hb ▸ hc⟩
        | some b =>
          have hb := hbest b rfl
          have hiff := h c hc b hb
          by_cases hbeats : beats (key c) (key b)
          · have hbeats' := hiff.mp hbeats
            simp only [pick, if_pos hbeats, if_pos hbeats', Option.mem_some_iff, forall_eq']
            exact ⟨trivial, hc⟩
          · have hbeats' := fun hcontra => hbeats (hiff.mpr hcontra)
            simp only [pick, if_neg hbeats, if_neg hbeats', Option.mem_some_iff, forall_eq']
            exact ⟨trivial, hb⟩
      rw [List.foldl_cons, List.foldl_cons, ← hpick.1]
      exact ih _ (fun x hx => ht x (List.mem_cons_of_mem c hx)) hpick.2
  exact hfold l none (fun _ hx => hx) (fun b hb => by cases hb)

theorem select_mem {l : List α} {m : α} (h : select key beats l = some m) : m ∈ l := by
  cases l with
  | nil => simp [select] at h
  | cons c l =>
    obtain ⟨x, hx, hmem, -⟩ := foldl_pick_some key beats (G := fun _ => True) l c
      trivial (fun _ _ _ _ _ => trivial)
    simp only [select, List.foldl_cons, pick] at h
    rw [hx] at h
    cases h
    rcases hmem with rfl | hmem
    · exact List.mem_cons_self
    · exact List.mem_cons_of_mem c hmem

variable (key beats) in
/-- Meeting `e`, a running best of the list becomes good: it is replaced by
`e`, or it is a key `e` does not beat. -/
theorem select_good {G : κ → Prop} {l : List α} {e : α} (he : e ∈ l) (hge : G (key e))
    (hunbeaten : ∀ x ∈ l, ¬ beats (key e) (key x) → G (key x))
    (hclosed : ∀ x ∈ l, ∀ y ∈ l, G (key y) → beats (key x) (key y) → G (key x)) :
    ∃ m, select key beats l = some m ∧ G (key m) := by
  obtain ⟨pre, post, rfl⟩ := List.append_of_mem he
  -- closure relative to keys of the list is closure relative to `G ∧ key of the list`
  have hpost : ∀ b, b ∈ pre ++ e :: post → G (key b) →
      ∃ m, post.foldl (pick key beats) (some b) = some m ∧ G (key m) := by
    intro b hb hgb
    have hcl : ∀ x ∈ post, ∀ k, (G k ∧ ∃ y ∈ pre ++ e :: post, key y = k) →
        beats (key x) k → (G (key x) ∧ ∃ y ∈ pre ++ e :: post, key y = key x) := by
      intro x hx k hk hbt
      obtain ⟨hgk, y, hy, rfl⟩ := hk
      have hx' : x ∈ pre ++ e :: post := by simp [hx]
      exact ⟨hclosed x hx' y hy hgk hbt, x, hx', rfl⟩
    obtain ⟨m, hm, -, hg, -⟩ := foldl_pick_some key beats post b ⟨hgb, b, hb, rfl⟩ hcl
    exact ⟨m, hm, hg⟩
  rw [select, List.foldl_append, List.foldl_cons]
  cases hpre : pre.foldl (pick key beats) none with
  | none => exact hpost e he hge
  | some b =>
    have hb : b ∈ pre := select_mem hpre
    by_cases h : beats (key e) (key b)
    · simpa [pick, h] using hpost e he hge
    · have hgb := hunbeaten b (by simp [hb]) h
      simpa [pick, h] using hpost b (by simp [hb]) hgb

/-! ## Decisive keys -/

variable (key beats) in
/-- A key of the list that beats every other key of the list. -/
def Decisive (l : List α) (k : κ) : Prop :=
  (∃ x ∈ l, key x = k) ∧ ∀ x ∈ l, key x ≠ k → beats k (key x)

omit [DecidableRel beats] in
theorem Decisive.perm {l l' : List α} {k : κ} (h : Decisive key beats l k) (hp : l'.Perm l) :
    Decisive key beats l' k := by
  obtain ⟨⟨x, hx, hk⟩, hb⟩ := h
  exact ⟨⟨x, hp.mem_iff.mpr hx, hk⟩, fun y hy => hb y (hp.mem_iff.mp hy)⟩

theorem key_select_of_decisive (hasymm : ∀ a b, beats a b → ¬ beats b a) {l : List α} {k : κ}
    (h : Decisive key beats l k) : ∃ m, select key beats l = some m ∧ key m = k := by
  obtain ⟨⟨e, he, rfl⟩, hb⟩ := h
  apply select_good key beats (G := fun k' => k' = key e) he rfl
  · intro x hx hnb
    by_contra hne
    exact hnb (hb x hx hne)
  · intro x hx y _ hy hbt
    by_contra hne
    rw [hy] at hbt
    exact hasymm _ _ hbt (hb x hx hne)

/-- A winner that no order of the list can dislodge beats every other key:
an unbeaten `x` put first, then the winner's elements, keeps them out. -/
theorem decisive_of_perm_invariant [DecidableEq κ] {l : List α} {m : α}
    (hm : select key beats l = some m)
    (hinv : ∀ l', l'.Perm l → (select key beats l').map key = some (key m)) :
    Decisive key beats l (key m) := by
  refine ⟨⟨m, select_mem hm, rfl⟩, ?_⟩
  intro x hx hne
  by_contra hnb
  obtain ⟨pre, post, rfl⟩ := List.append_of_mem hx
  let same := (pre ++ post).filter (fun y => key y = key m)
  let rest := (pre ++ post).filter (fun y => ¬ key y = key m)
  have hperm : (x :: (same ++ rest)).Perm (pre ++ x :: post) := by
    have h₁ : (same ++ rest).Perm (pre ++ post) := by
      simpa [same, rest] using List.filter_append_perm (fun y => decide (key y = key m)) (pre ++ post)
    exact (List.Perm.cons x h₁).trans List.perm_middle.symm
  have hsame : same.foldl (pick key beats) (some x) = some x := by
    refine foldl_pick_unbeaten same x (fun y hy => ?_)
    have hk : key y = key m := by simpa using (List.mem_filter.mp hy).2
    rw [hk]
    exact hnb
  obtain ⟨w, hw, -, hkw⟩ := foldl_pick_some key beats (G := fun k => k ≠ key m) rest x hne (by
      intro y hy _ _ _
      simpa using (List.mem_filter.mp hy).2)
  have hsel := hinv _ hperm
  rw [select, List.foldl_cons, List.foldl_append] at hsel
  simp only [pick] at hsel
  rw [hsame, hw] at hsel
  simp at hsel
  exact hkw hsel

/-- **Order independence.** The winning key is the same for every order of the
list iff the list is empty or has a decisive key. -/
theorem perm_invariant_iff [DecidableEq κ] (hasymm : ∀ a b, beats a b → ¬ beats b a) (l : List α) :
    (∀ l', l'.Perm l → (select key beats l').map key = (select key beats l).map key) ↔
      l = [] ∨ ∃ k, Decisive key beats l k := by
  refine ⟨?_, ?_⟩
  · intro h
    cases hm : select key beats l with
    | none => exact Or.inl (select_eq_none.mp hm)
    | some m =>
      refine Or.inr ⟨key m, decisive_of_perm_invariant hm ?_⟩
      intro l' hp
      rw [h l' hp, hm]
      rfl
  · intro h l' hp
    rcases h with rfl | ⟨k, hk⟩
    · rw [List.perm_nil.mp hp]
    · obtain ⟨m, hm, hkm⟩ := key_select_of_decisive hasymm hk
      obtain ⟨m', hm', hkm'⟩ := key_select_of_decisive hasymm (hk.perm hp)
      rw [hm, hm']
      simp [hkm, hkm']

end

/-! ## Lists that come in blocks -/

/-- When no block holds two elements, every order of the elements is the order
of some arrangement of the blocks. -/
theorem exists_perm_flatMap {α : Type u} {β : Type v} {f : α → List β} : ∀ (l' : List β) (bs : List α),
    (∀ b ∈ bs, (f b).length ≤ 1) → l'.Perm (bs.flatMap f) →
    ∃ bs' : List α, bs'.Perm bs ∧ bs'.flatMap f = l' := by
  intro l'
  induction l' with
  | nil => intro bs _ hp; exact ⟨bs, List.Perm.refl bs, hp.symm.eq_nil⟩
  | cons c t ih =>
    intro bs hlen hp
    obtain ⟨b, hb, hc⟩ := List.mem_flatMap.mp (hp.mem_iff.mp List.mem_cons_self)
    have hfb : f b = [c] := by
      have hl := hlen b hb
      match f b, hc, hl with
      | [d], hc, _ => rw [List.mem_singleton.mp hc]
    obtain ⟨pre, post, rfl⟩ := List.append_of_mem hb
    have ht : t.Perm ((pre ++ post).flatMap f) := by
      refine List.Perm.cons_inv (a := c) (hp.trans ?_)
      simp only [List.flatMap_append, List.flatMap_cons, hfb, List.singleton_append]
      exact List.perm_middle
    obtain ⟨bs', hbs', he⟩ := ih (pre ++ post) (fun x hx => hlen x (by simp at hx ⊢; tauto)) ht
    refine ⟨b :: bs', (hbs'.cons b).trans List.perm_middle.symm, ?_⟩
    rw [List.flatMap_cons, hfb, he]
    rfl

end AthenaVoice.Lib
