import AthenaVoice.Lib.Rounding
import AthenaVoice.Lib.Str
import Mathlib.Tactic.Linarith

/-
  String similarity, as the matcher uses it

  `strsim` is a third-party crate; the matcher relies on its Damerau–Levenshtein
  distance only through the normalised form `1 - distance / longer length`, and
  here only on two facts of the distance: a string is at distance zero from
  itself, and no distance exceeds the longer length. `Strsim` carries a
  distance with these facts, `Floats` how results are rounded: `Floats.ieee` is
  what the source computes with, `Floats.exact` no rounding at all.

  `damerauLevenshtein` is the distance itself (insert, delete, substitute,
  transpose two letters with anything in between), by recursion on the two
  strings, and `Strsim.reference` is the instance built on it.
-/

namespace AthenaVoice.Intent

open Lib

/-- A distance with what the matcher relies on. -/
structure Strsim where
  distance : Text → Text → Nat
  distance_self : ∀ s, distance s s = 0
  distance_le : ∀ s t, distance s t ≤ max s.length t.length

/-- The roundings of `f64` and `f32`. -/
structure Floats where
  f64 : Rounding
  f32 : Rounding

def Floats.exact : Floats := ⟨.exact, .exact⟩

/-- Significands of 53 and 24 bits. No similarity is small enough for the
exponent to matter. -/
def Floats.ieee : Floats := ⟨.binary 53 (Nat.succ_pos 52), .binary 24 (Nat.succ_pos 23)⟩

/-- `normalized_damerau_levenshtein`. -/
def Strsim.normalized (S : Strsim) (F : Floats) (s t : Text) : ℚ :=
  if s.isEmpty && t.isEmpty then 1
  else
    let distance := F.f64.round (S.distance s t)
    let len := F.f64.round (max s.length t.length : ℕ)
    F.f64.round (1 - F.f64.round (distance / len))

section

variable (S : Strsim) (F : Floats)

theorem Strsim.normalized_self (s : Text) : S.normalized F s s = 1 := by
  unfold Strsim.normalized
  split
  · rfl
  · simp [S.distance_self]

theorem Strsim.normalized_le_one (s t : Text) : S.normalized F s t ≤ 1 := by
  unfold Strsim.normalized
  split
  · exact le_refl 1
  · have hdist := F.f64.round_nonneg (Nat.cast_nonneg (α := ℚ) (S.distance s t))
    have hlen := F.f64.round_nonneg (Nat.cast_nonneg (α := ℚ) (max s.length t.length))
    have hshare := F.f64.round_nonneg (div_nonneg hdist hlen)
    exact F.f64.round_le_one (by linarith)

theorem Strsim.normalized_nonneg (s t : Text) : 0 ≤ S.normalized F s t := by
  unfold Strsim.normalized
  split
  · exact zero_le_one
  · have hlen := F.f64.round_nonneg (Nat.cast_nonneg (α := ℚ) (max s.length t.length))
    have hle := F.f64.mono (Nat.cast_le (α := ℚ).mpr (S.distance_le s t))
    have hshare := F.f64.round_le_one (div_le_one_of_le₀ hle hlen)
    exact F.f64.round_nonneg (by linarith)

/-- Nothing up to 1 is off by more than a millionth, and no length by anything. -/
structure Floats.Precise (F : Floats) : Prop where
  f64 : ∀ q, |q| ≤ 1 → |F.f64.round q - q| ≤ 1 / 10 ^ 6
  f32 : ∀ q, |q| ≤ 1 → |F.f32.round q - q| ≤ 1 / 10 ^ 6
  natCast : ∀ n : ℕ, n ≤ 2 ^ 20 → F.f64.round n = n

theorem Floats.exact_precise : Floats.exact.Precise where
  f64 q _ := by
    show |q - q| ≤ _
    norm_num
  f32 q _ := by
    show |q - q| ≤ _
    norm_num
  natCast _ _ := rfl

theorem Floats.ieee_precise : Floats.ieee.Precise where
  f64 q hq := (abs_toBinary_sub_le 53 hq).trans (by norm_num)
  f32 q hq := (abs_toBinary_sub_le 24 hq).trans (by norm_num)
  natCast n hn := by
    refine toBinary_of_representable (by decide) ⟨n, 0, ?_, by simp⟩
    have hn' : (n : ℤ) ≤ 2 ^ 20 := by exact_mod_cast hn
    rw [abs_of_nonneg (Int.natCast_nonneg n)]
    exact hn'.trans (by norm_num)

variable {F}

theorem Strsim.normalized_near (hF : F.Precise) {s t : Text} (hpos : 0 < max s.length t.length)
    (hlen : max s.length t.length ≤ 2 ^ 20) :
    |F.f32.round (S.normalized F s t) - (1 - S.distance s t / (max s.length t.length : ℕ))| ≤ 3 / 10 ^ 6 := by
  have hle := S.distance_le s t
  have hne : (s.isEmpty && t.isEmpty) = false := by
    rcases s with _ | ⟨c, s⟩
    · rcases t with _ | ⟨d, t⟩
      · simp at hpos
      · rfl
    · rfl
  have hsim := S.normalized_nonneg F s t
  have hsim' := S.normalized_le_one F s t
  have hsingle := hF.f32 (S.normalized F s t) (abs_le.mpr ⟨by linarith, hsim'⟩)
  unfold Strsim.normalized at hsim hsim' hsingle ⊢
  simp only [hne, Bool.false_eq_true, if_false, hF.natCast _ hlen,
    hF.natCast _ (hle.trans hlen)] at hsim hsim' hsingle ⊢
  have hshare : (0 : ℚ) ≤ S.distance s t / (max s.length t.length : ℕ) :=
    div_nonneg (Nat.cast_nonneg _) (Nat.cast_nonneg _)
  have hshare' : (S.distance s t : ℚ) / (max s.length t.length : ℕ) ≤ 1 :=
    div_le_one_of_le₀ (Nat.cast_le.mpr hle) (Nat.cast_nonneg _)
  have hquotient := hF.f64 _ (abs_le.mpr ⟨by linarith, hshare'⟩)
  have hround := F.f64.round_nonneg hshare
  have hround' := F.f64.round_le_one hshare'
  have hminus := hF.f64 (1 - F.f64.round (S.distance s t / (max s.length t.length : ℕ)))
    (abs_le.mpr ⟨by linarith, by linarith⟩)
  rw [abs_le] at *
  constructor <;> linarith

end

/-! ## The distance -/

/-- What stands after the first `c` of a string, and how many characters
before it. -/
def afterFirst (c : Char) : Text → Option (Nat × Text)
  | [] => none
  | d :: ds => if d = c then some (0, ds) else (afterFirst c ds).map (fun p => (p.1 + 1, p.2))

/-- Damerau–Levenshtein with `fuel` at least the two lengths together: the
last summand moves the first letter of each string to the place the other one
has it, editing what lies between. -/
def distanceWith : Nat → Text → Text → Nat
  | 0, _, _ => 0
  | _ + 1, [], t => t.length
  | _ + 1, s, [] => s.length
  | n + 1, x :: s, y :: t =>
    let edit := min (min (distanceWith n s (y :: t) + 1) (distanceWith n (x :: s) t + 1))
      (distanceWith n s t + if x = y then 0 else 1)
    match afterFirst y s, afterFirst x t with
    | some (i, s'), some (j, t') => min edit (distanceWith n s' t' + i + j + 1)
    | _, _ => edit

def damerauLevenshtein (s t : Text) : Nat := distanceWith (s.length + t.length) s t

example : damerauLevenshtein "lampe".toList "lmape".toList = 1 := by decide
example : damerauLevenshtein "ca".toList "abc".toList = 2 := by decide

theorem distanceWith_self (s : Text) : ∀ n, distanceWith n s s = 0 := by
  induction s with
  | nil => intro n; cases n <;> rfl
  | cons c s ih =>
    intro n
    cases n with
    | zero => rfl
    | succ n =>
      simp only [distanceWith, ih n, if_true]
      cases afterFirst c s <;> simp

/-- The distance never exceeds the longer length: substitute along the shorter
string, insert or delete the rest. -/
theorem distanceWith_le : ∀ (n : Nat) (s t : Text), distanceWith n s t ≤ max s.length t.length := by
  intro n
  induction n with
  | zero => intro s t; exact Nat.zero_le _
  | succ n ih =>
    intro s t
    cases s with
    | nil => simp [distanceWith]
    | cons x s =>
      cases t with
      | nil => simp [distanceWith]
      | cons y t =>
        have hsub := ih s t
        have hedit : distanceWith n s t + (if x = y then 0 else 1) ≤
            max (x :: s).length (y :: t).length := by
          simp only [List.length_cons]
          split <;> omega
        simp only [distanceWith]
        split <;> omega

theorem distanceWith_cons_le (c : Char) (n : Nat) (s t : Text) :
    distanceWith (n + 1) (c :: s) (c :: t) ≤ distanceWith n s t := by
  simp only [distanceWith]
  split <;> simp

theorem distanceWith_substitute_le (c d : Char) (n : Nat) (s t : Text) :
    distanceWith (n + 1) (c :: s) (d :: t) ≤ distanceWith n s t + 1 := by
  have hone : (if c = d then 0 else 1) ≤ 1 := by split <;> omega
  simp only [distanceWith]
  split <;> omega

theorem distanceWith_insert_le (d : Char) (n : Nat) (s t : Text) :
    distanceWith (n + 2) s (d :: t) ≤ distanceWith (n + 1) s t + 1 := by
  cases s with
  | nil => cases t <;> simp [distanceWith]
  | cons c s =>
    rw [distanceWith]
    split <;> omega

theorem distanceWith_append_le (p : Text) (n : Nat) (s t : Text) :
    distanceWith (n + p.length) (p ++ s) (p ++ t) ≤ distanceWith n s t := by
  induction p with
  | nil => exact le_refl _
  | cons c p ih => exact (distanceWith_cons_le c (n + p.length) (p ++ s) (p ++ t)).trans ih

theorem afterFirst_length {c : Char} : ∀ {s s' : Text} {i : Nat}, afterFirst c s = some (i, s') →
    s.length = i + 1 + s'.length := by
  intro s
  induction s with
  | nil => intro s' i h; simp [afterFirst] at h
  | cons d ds ih =>
    intro s' i h
    simp only [afterFirst] at h
    split at h
    · simp at h
      obtain ⟨rfl, rfl⟩ := h
      simp only [List.length_cons]; omega
    · obtain ⟨⟨j, r⟩, hj, he⟩ := Option.map_eq_some_iff.mp h
      simp at he
      obtain ⟨rfl, rfl⟩ := he
      have := ih hj
      simp only [List.length_cons]; omega

theorem le_distanceWith : ∀ (n : Nat) (s t : Text), s.length + t.length ≤ n →
    t.length ≤ s.length + distanceWith n s t ∧ s.length ≤ t.length + distanceWith n s t := by
  intro n
  induction n with
  | zero => intro s t h; omega
  | succ n ih =>
    intro s t h
    cases s with
    | nil => simp [distanceWith]
    | cons x s =>
      cases t with
      | nil => simp [distanceWith]
      | cons y t =>
        simp only [List.length_cons] at h
        have h₁ := ih s (y :: t) (by simp only [List.length_cons]; omega)
        have h₂ := ih (x :: s) t (by simp only [List.length_cons]; omega)
        have h₃ := ih s t (by omega)
        simp only [List.length_cons] at h₁ h₂
        simp only [distanceWith, List.length_cons]
        split
        · rename_i i s' j t' hs ht
          have hls := afterFirst_length hs
          have hlt := afterFirst_length ht
          have h₄ := ih s' t' (by omega)
          omega
        · omega

/-- The distance of the reference instance. -/
def Strsim.reference : Strsim where
  distance := damerauLevenshtein
  distance_self s := distanceWith_self s _
  distance_le s t := distanceWith_le _ s t

theorem reference_distance_append (p s : Text) : Strsim.reference.distance (p ++ s) p = s.length := by
  have hlen : (p ++ s).length = p.length + s.length := List.length_append
  have hle : distanceWith (p.length + s.length + p.length) (p ++ s) (p ++ []) ≤ s.length :=
    (distanceWith_append_le p _ s []).trans (by simpa using distanceWith_le (p.length + s.length) s [])
  have hge := (le_distanceWith (p.length + s.length + p.length) (p ++ s) p (by omega)).2
  rw [List.append_nil] at hle
  show distanceWith ((p ++ s).length + p.length) (p ++ s) p = s.length
  rw [hlen]
  omega

end AthenaVoice.Intent
