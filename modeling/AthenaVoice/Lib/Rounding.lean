import Mathlib.Algebra.Order.Field.Power
import Mathlib.Data.Int.ConditionallyCompleteOrder
import Mathlib.Data.Int.Log
import Mathlib.Data.Rat.Floor
import Mathlib.Tactic.LinearCombination
import Mathlib.Tactic.Positivity
import Mathlib.Tactic.Ring

/-
  Rounding to binary floating point

  A number of `p` bits is an integer of at most `p` bits times a power of two;
  the exponent is not bounded. `toBinary p` takes a rational to the nearest such
  number, of two the one whose last bit is 0. `Rounding` is what arithmetic with
  rounded results relies on, and exact arithmetic is one instance of it.

  What is proved:
    1. `toBinary_mono`, `toBinary_neg` — rounding keeps the order and the sign.
    2. `toBinary_of_representable`, `representable_toBinary` — it is onto the
       numbers of `p` bits, and keeps them.
    3. `Representable.sub` — the difference of two of them, neither more than
       twice the other, is one.
    4. `abs_toBinary_sub_le` — between -1 and 1 the error is at most half of the
       last bit of 1.
-/

namespace AthenaVoice.Lib

/-! ## To the nearest integer -/

/-- The nearest integer, of two the even one. -/
def nearestEven (q : ℚ) : ℤ :=
  if 2 * Int.fract q < 1 then ⌊q⌋
  else if 1 < 2 * Int.fract q then ⌊q⌋ + 1
  else if ⌊q⌋ % 2 = 0 then ⌊q⌋
  else ⌊q⌋ + 1

example : [1 / 2, 3 / 2, 5 / 2, -1 / 2, -3 / 2].map nearestEven = [0, 2, 2, 0, -2] := by decide +kernel

theorem nearestEven_cases (q : ℚ) : nearestEven q = ⌊q⌋ ∨ nearestEven q = ⌊q⌋ + 1 := by
  unfold nearestEven
  split
  · exact .inl rfl
  · split
    · exact .inr rfl
    · split
      · exact .inl rfl
      · exact .inr rfl

@[simp] theorem nearestEven_intCast (n : ℤ) : nearestEven (n : ℚ) = n := by
  unfold nearestEven
  rw [Int.fract_intCast, if_pos (by norm_num), Int.floor_intCast]

theorem abs_sub_nearestEven_le (q : ℚ) : |q - nearestEven q| ≤ 1 / 2 := by
  have hq := Int.floor_add_fract q
  have hnonneg := Int.fract_nonneg q
  have hlt := Int.fract_lt_one q
  unfold nearestEven
  rw [abs_le]
  split
  · constructor <;> linarith
  · split
    · push_cast
      constructor <;> linarith
    · split
      · constructor <;> linarith
      · push_cast
        constructor <;> linarith

theorem nearestEven_mono : Monotone nearestEven := by
  intro x y hxy
  have hfloor := Int.floor_mono hxy
  rcases lt_or_eq_of_le hfloor with hlt | heq
  · have hx := nearestEven_cases x
    have hy := nearestEven_cases y
    omega
  · -- between the same integers
    have hx := Int.floor_add_fract x
    have hy := Int.floor_add_fract y
    have hfract : Int.fract x ≤ Int.fract y := by
      rw [heq] at hx
      linarith
    unfold nearestEven
    rw [heq]
    split
    · split
      · exact le_refl _
      · split
        · omega
        · split <;> omega
    · rename_i hx₁
      rw [if_neg (by linarith : ¬ 2 * Int.fract y < 1)]
      split
      · rename_i hx₂
        rw [if_pos (by linarith)]
      · split
        · split
          · omega
          · exact le_refl _
        · split <;> exact le_refl _

theorem nearestEven_neg (q : ℚ) : nearestEven (-q) = -nearestEven q := by
  by_cases hq : Int.fract q = 0
  · have hint : q = (⌊q⌋ : ℚ) := by
      have := Int.floor_add_fract q
      linarith
    rw [hint, ← Int.cast_neg, nearestEven_intCast, nearestEven_intCast]
  · have hfract := Int.fract_neg hq
    have hfloor : ⌊-q⌋ = -⌊q⌋ - 1 := by
      have hsum := Int.floor_add_fract (-q)
      have hsum' := Int.floor_add_fract q
      have hcast : ((⌊-q⌋ : ℤ) : ℚ) = ((-⌊q⌋ - 1 : ℤ) : ℚ) := by
        push_cast
        linarith
      exact_mod_cast hcast
    unfold nearestEven
    rw [hfract, hfloor]
    rcases lt_trichotomy (2 * Int.fract q) 1 with hlow | hhalf | hhigh
    · rw [if_neg (by linarith), if_pos (by linarith), if_pos hlow]
      omega
    · -- halfway, one of the two neighbours is even
      have hlow : ¬ 2 * (1 - Int.fract q) < 1 := by linarith
      have hhigh : ¬ 1 < 2 * (1 - Int.fract q) := by linarith
      rw [if_neg hlow, if_neg hhigh, if_neg hhalf.not_lt, if_neg hhalf.not_gt]
      split <;> split <;> omega
    · rw [if_pos (by linarith), if_neg (by linarith), if_pos hhigh]
      omega

/-! ## Numbers of `p` bits -/

/-- A number of `p` bits. -/
def Representable (p : ℕ) (x : ℚ) : Prop := ∃ m e : ℤ, |m| ≤ 2 ^ p ∧ x = m * 2 ^ e

/-- The weight of the last of `p` bits. -/
def lastBit (p : ℕ) (q : ℚ) : ℚ := 2 ^ (Int.log 2 |q| + 1 - p)

/-- The nearest number of `p` bits. -/
def toBinary (p : ℕ) (q : ℚ) : ℚ := nearestEven (q / lastBit p q) * lastBit p q

theorem lastBit_pos (p : ℕ) (q : ℚ) : 0 < lastBit p q := by
  unfold lastBit
  positivity

theorem abs_lt_lastBit (p : ℕ) (q : ℚ) : |q| < 2 ^ p * lastBit p q := by
  have h := Int.lt_zpow_succ_log_self (b := 2) (by decide) |q|
  have hsplit : (2 : ℚ) ^ p * lastBit p q = 2 ^ (Int.log 2 |q| + 1) := by
    rw [lastBit, ← zpow_natCast, ← zpow_add₀ two_ne_zero]
    congr 1
    omega
  rw [hsplit]
  exact_mod_cast h

theorem le_abs_lastBit {p : ℕ} (hp : 0 < p) {q : ℚ} (hq : q ≠ 0) : 2 ^ (p - 1) * lastBit p q ≤ |q| := by
  have h := Int.zpow_log_le_self (b := 2) (by decide) (abs_pos.mpr hq)
  have hsplit : (2 : ℚ) ^ (p - 1) * lastBit p q = 2 ^ Int.log 2 |q| := by
    rw [lastBit, ← zpow_natCast, ← zpow_add₀ two_ne_zero]
    congr 1
    omega
  rw [hsplit]
  exact_mod_cast h

theorem lastBit_mono {p : ℕ} {x y : ℚ} (hx : 0 < x) (hxy : x ≤ y) : lastBit p x ≤ lastBit p y := by
  unfold lastBit
  rw [abs_of_pos hx, abs_of_pos (hx.trans_le hxy)]
  have hlog := Int.log_mono_right (b := 2) hx hxy
  exact zpow_le_zpow_right₀ one_le_two (by omega)

theorem representable_toBinary (p : ℕ) (q : ℚ) : Representable p (toBinary p q) := by
  refine ⟨nearestEven (q / lastBit p q), Int.log 2 |q| + 1 - p, ?_, rfl⟩
  have hpos := lastBit_pos p q
  have hlt := abs_lt.mp (abs_lt_lastBit p q)
  have hlow : ((-2 ^ p : ℤ) : ℚ) ≤ q / lastBit p q := by
    rw [le_div_iff₀ hpos]
    push_cast
    linarith
  have hhigh : q / lastBit p q ≤ ((2 ^ p : ℤ) : ℚ) := by
    rw [div_le_iff₀ hpos]
    push_cast
    linarith
  have hlow' := nearestEven_mono hlow
  have hhigh' := nearestEven_mono hhigh
  rw [nearestEven_intCast] at hlow' hhigh'
  exact abs_le.mpr ⟨hlow', hhigh'⟩

theorem toBinary_of_multiple {p : ℕ} {q : ℚ} {n : ℤ} (h : q = n * lastBit p q) : toBinary p q = q := by
  have hdiv : q / lastBit p q = n := by
    rw [div_eq_iff (lastBit_pos p q).ne']
    exact h
  rw [toBinary, hdiv, nearestEven_intCast, ← h]

theorem toBinary_zero (p : ℕ) : toBinary p 0 = 0 :=
  toBinary_of_multiple (n := 0) (by simp)

theorem toBinary_of_representable {p : ℕ} (hp : 0 < p) {x : ℚ} (hx : Representable p x) : toBinary p x = x := by
  obtain ⟨m, e, hm, rfl⟩ := hx
  by_cases hzero : m = 0
  · rw [hzero, Int.cast_zero, zero_mul, toBinary_zero]
  · have hpos : (0 : ℚ) < |(m : ℚ) * 2 ^ e| := abs_pos.mpr (by positivity)
    have habs : |(m : ℚ) * 2 ^ e| = |(m : ℚ)| * 2 ^ e := by
      rw [abs_mul, abs_of_pos (show (0 : ℚ) < 2 ^ e by positivity)]
    have hle : |(m : ℚ) * 2 ^ e| ≤ 2 ^ (p + e) := by
      rw [habs, zpow_add₀ two_ne_zero, zpow_natCast]
      have hm' : |(m : ℚ)| ≤ 2 ^ p := by exact_mod_cast hm
      exact mul_le_mul_of_nonneg_right hm' (by positivity)
    rcases lt_or_eq_of_le hle with hlt | heq
    · -- the last bit is no heavier than the unit of `m`
      have hlog : Int.log 2 |(m : ℚ) * 2 ^ e| < p + e := by
        rw [← Int.lt_zpow_iff_log_lt (by decide) hpos]
        exact_mod_cast hlt
      obtain ⟨k, hk⟩ := Int.eq_ofNat_of_zero_le (show 0 ≤ e - (Int.log 2 |(m : ℚ) * 2 ^ e| + 1 - p) by omega)
      refine toBinary_of_multiple (n := m * 2 ^ k) ?_
      have he : e = k + (Int.log 2 |(m : ℚ) * 2 ^ e| + 1 - p) := by omega
      calc (m : ℚ) * 2 ^ e = m * (2 ^ k * 2 ^ (Int.log 2 |(m : ℚ) * 2 ^ e| + 1 - p)) := by
            rw [← zpow_natCast, ← zpow_add₀ two_ne_zero, ← he]
        _ = _ := by
            rw [lastBit]
            push_cast
            ring
    · -- a power of two, one bit of which is the last but `p - 1`
      have hlog : Int.log 2 |(m : ℚ) * 2 ^ e| = p + e := by
        rw [heq]
        exact_mod_cast Int.log_zpow (R := ℚ) (b := 2) (by decide) (p + e)
      have hsign : (m : ℚ) = 2 ^ p ∨ (m : ℚ) = -2 ^ p := by
        rw [habs, zpow_add₀ two_ne_zero, zpow_natCast] at heq
        have hm' : |(m : ℚ)| = 2 ^ p := mul_right_cancel₀ (by positivity) heq
        exact (abs_eq (by positivity)).mp hm'
      have hbit : lastBit p ((m : ℚ) * 2 ^ e) = 2 ^ (e + 1) := by
        rw [lastBit, hlog]
        congr 1
        omega
      have hpow : (2 : ℚ) ^ p * 2 ^ e = 2 ^ (p - 1) * 2 ^ (e + 1) := by
        obtain ⟨k, rfl⟩ : ∃ k, p = k + 1 := ⟨p - 1, by omega⟩
        rw [zpow_add₀ two_ne_zero, Nat.add_sub_cancel]
        ring
      rcases hsign with hm' | hm'
      · refine toBinary_of_multiple (n := 2 ^ (p - 1)) ?_
        rw [hbit, hm', hpow]
        push_cast
        ring
      · refine toBinary_of_multiple (n := -2 ^ (p - 1)) ?_
        rw [hbit, hm', neg_mul, hpow]
        push_cast
        ring

theorem representable_two_zpow {p : ℕ} (k : ℤ) : Representable p (2 ^ k) :=
  ⟨1, k, by simpa using one_le_pow₀ (one_le_two (α := ℤ)), by simp⟩

/-- A difference that is smaller than both is of no more bits. -/
theorem Representable.sub {p : ℕ} {x y : ℚ} (hx : Representable p x) (hy : Representable p y) (hyx : y / 2 ≤ x)
    (hxy : x ≤ 2 * y) : Representable p (x - y) := by
  obtain ⟨m, e, hm, hxe⟩ := hx
  obtain ⟨n, f, hn, hyf⟩ := hy
  -- a multiple of `2 ^ c`, at most `k` of them
  have hmultiple : ∀ (k d c : ℤ), |k| ≤ 2 ^ p → x - y = d * 2 ^ c → |x - y| ≤ |(k : ℚ)| * 2 ^ c →
      Representable p (x - y) := by
    intro k d c hk hd hle
    refine ⟨d, c, ?_, hd⟩
    rw [hd, abs_mul, abs_of_pos (show (0 : ℚ) < 2 ^ c by positivity)] at hle
    have hdk : |(d : ℚ)| ≤ |(k : ℚ)| := le_of_mul_le_mul_right hle (by positivity)
    have hdk' : |d| ≤ |k| := by exact_mod_cast hdk
    exact hdk'.trans hk
  have hleft : |x - y| ≤ |x| := by
    rw [abs_le, abs_of_nonneg (by linarith)]
    constructor <;> linarith
  have hright : |x - y| ≤ |y| := by
    rw [abs_le, abs_of_nonneg (by linarith)]
    constructor <;> linarith
  have hscale : ∀ (c d : ℤ), c ≤ d → ∃ k : ℕ, (2 : ℚ) ^ d = 2 ^ k * 2 ^ c := by
    intro c d hcd
    obtain ⟨k, hk⟩ := Int.eq_ofNat_of_zero_le (show 0 ≤ d - c by omega)
    refine ⟨k, ?_⟩
    rw [← zpow_natCast, ← zpow_add₀ two_ne_zero]
    congr 1
    omega
  have habs : ∀ (k c : ℤ), |(k : ℚ) * 2 ^ c| = |(k : ℚ)| * 2 ^ c := by
    intro k c
    rw [abs_mul, abs_of_pos (show (0 : ℚ) < 2 ^ c by positivity)]
  rcases le_total e f with hef | hfe
  · obtain ⟨k, hk⟩ := hscale e f hef
    refine hmultiple m (m - n * 2 ^ k) e hm ?_ ?_
    · rw [hxe, hyf, hk]
      push_cast
      ring
    · rw [← habs, ← hxe]
      exact hleft
  · obtain ⟨k, hk⟩ := hscale f e hfe
    refine hmultiple n (m * 2 ^ k - n) f hn ?_ ?_
    · rw [hxe, hyf, hk]
      push_cast
      ring
    · rw [← habs, ← hyf]
      exact hright

theorem toBinary_neg (p : ℕ) (q : ℚ) : toBinary p (-q) = -toBinary p q := by
  have hbit : lastBit p (-q) = lastBit p q := by rw [lastBit, lastBit, abs_neg]
  rw [toBinary, toBinary, hbit, neg_div, nearestEven_neg, Int.cast_neg, neg_mul]

theorem toBinary_nonneg {p : ℕ} {q : ℚ} (hq : 0 ≤ q) : 0 ≤ toBinary p q := by
  have hpos := lastBit_pos p q
  have hle := nearestEven_mono (show ((0 : ℤ) : ℚ) ≤ q / lastBit p q by
    rw [Int.cast_zero]
    exact div_nonneg hq hpos.le)
  rw [nearestEven_intCast] at hle
  exact mul_nonneg (by exact_mod_cast hle) hpos.le

theorem toBinary_le_of_pos {p : ℕ} (hp : 0 < p) {x y : ℚ} (hx : 0 < x) (hxy : x ≤ y) :
    toBinary p x ≤ toBinary p y := by
  have hy := hx.trans_le hxy
  have hxpos := lastBit_pos p x
  have hypos := lastBit_pos p y
  rcases eq_or_lt_of_le (lastBit_mono (p := p) hx hxy) with heq | hlt
  · unfold toBinary
    rw [heq]
    have hle := nearestEven_mono (div_le_div_of_nonneg_right hxy hypos.le)
    exact mul_le_mul_of_nonneg_right (by exact_mod_cast hle) hypos.le
  · -- a power of two is between them
    have htwice : 2 * lastBit p x ≤ lastBit p y := by
      unfold lastBit at hlt ⊢
      have hexp := (zpow_lt_zpow_iff_right₀ (one_lt_two (α := ℚ))).mp hlt
      have hstep := zpow_le_zpow_right₀ (one_le_two (α := ℚ))
        (show Int.log 2 |x| + 1 - p + 1 ≤ Int.log 2 |y| + 1 - p by omega)
      rw [zpow_add_one₀ two_ne_zero] at hstep
      linarith
    have hpow : (2 : ℚ) ^ p = 2 ^ (p - 1) * 2 := by
      obtain ⟨k, rfl⟩ : ∃ k, p = k + 1 := ⟨p - 1, by omega⟩
      rw [Nat.add_sub_cancel, pow_succ]
    have hupper : toBinary p x ≤ 2 ^ p * lastBit p x := by
      have hdiv : x / lastBit p x ≤ ((2 ^ p : ℤ) : ℚ) := by
        rw [div_le_iff₀ hxpos]
        push_cast
        have := abs_lt_lastBit p x
        rw [abs_of_pos hx] at this
        linarith
      have hle := nearestEven_mono hdiv
      rw [nearestEven_intCast] at hle
      exact mul_le_mul_of_nonneg_right (by exact_mod_cast hle) hxpos.le
    have hlower : 2 ^ (p - 1) * lastBit p y ≤ toBinary p y := by
      have hdiv : ((2 ^ (p - 1) : ℤ) : ℚ) ≤ y / lastBit p y := by
        rw [le_div_iff₀ hypos]
        push_cast
        have := le_abs_lastBit hp hy.ne'
        rw [abs_of_pos hy] at this
        linarith
      have hle := nearestEven_mono hdiv
      rw [nearestEven_intCast] at hle
      exact mul_le_mul_of_nonneg_right (by exact_mod_cast hle) hypos.le
    calc toBinary p x ≤ 2 ^ p * lastBit p x := hupper
      _ = 2 ^ (p - 1) * (2 * lastBit p x) := by rw [hpow, mul_assoc]
      _ ≤ 2 ^ (p - 1) * lastBit p y := mul_le_mul_of_nonneg_left htwice (by positivity)
      _ ≤ toBinary p y := hlower

theorem toBinary_mono {p : ℕ} (hp : 0 < p) : Monotone (toBinary p) := by
  intro x y hxy
  rcases lt_or_ge 0 x with hx | hx
  · exact toBinary_le_of_pos hp hx hxy
  · rcases lt_or_ge y 0 with hy | hy
    · have hle := toBinary_le_of_pos hp (neg_pos.mpr hy) (neg_le_neg hxy)
      rw [toBinary_neg, toBinary_neg] at hle
      exact neg_le_neg_iff.mp hle
    · have hnonneg := toBinary_nonneg (p := p) (neg_nonneg.mpr hx)
      rw [toBinary_neg] at hnonneg
      exact (neg_nonneg.mp hnonneg).trans (toBinary_nonneg hy)

/-- Between -1 and 1 the result is off by half of the last bit of 1 at most. -/
theorem abs_toBinary_sub_le (p : ℕ) {q : ℚ} (hq : |q| ≤ 1) : |toBinary p q - q| ≤ 1 / 2 ^ p := by
  rcases eq_or_ne q 0 with rfl | hne
  · rw [toBinary_zero, sub_self, abs_zero]
    positivity
  · have hpos := lastBit_pos p q
    have hbit : lastBit p q ≤ 2 * (1 / 2 ^ p) := by
      have hlog : Int.log 2 |q| ≤ 0 := by
        have h := Int.log_mono_right (b := 2) (abs_pos.mpr hne) hq
        rwa [Int.log_one_right] at h
      calc lastBit p q ≤ 2 ^ (1 - p : ℤ) := zpow_le_zpow_right₀ one_le_two (by omega)
        _ = 2 * (1 / 2 ^ p) := by
          rw [zpow_sub₀ two_ne_zero, zpow_one, zpow_natCast]
          ring
    have hscale : toBinary p q - q = -((q / lastBit p q - nearestEven (q / lastBit p q)) * lastBit p q) := by
      rw [toBinary, sub_mul, div_mul_cancel₀ q hpos.ne']
      ring
    rw [hscale, abs_neg, abs_mul, abs_of_pos hpos]
    calc |q / lastBit p q - nearestEven (q / lastBit p q)| * lastBit p q ≤ 1 / 2 * lastBit p q :=
          mul_le_mul_of_nonneg_right (abs_sub_nearestEven_le _) hpos.le
      _ ≤ 1 / 2 ^ p := by linarith

/-! ## Arithmetic with rounded results -/

/-- What results are rounded with. -/
structure Rounding where
  round : ℚ → ℚ
  mono : Monotone round
  round_neg : ∀ q, round (-q) = -round q
  round_two_zpow : ∀ k : ℤ, round (2 ^ k) = 2 ^ k
  round_round : ∀ q, round (round q) = round q
  round_sub : ∀ {x y}, round x = x → round y = y → y / 2 ≤ x → x ≤ 2 * y → round (x - y) = x - y

namespace Rounding

def exact : Rounding where
  round := id
  mono := monotone_id
  round_neg _ := rfl
  round_two_zpow _ := rfl
  round_round _ := rfl
  round_sub _ _ _ _ := rfl

/-- To the nearest number of `p` bits. -/
def binary (p : ℕ) (hp : 0 < p) : Rounding where
  round := toBinary p
  mono := toBinary_mono hp
  round_neg := toBinary_neg p
  round_two_zpow k := toBinary_of_representable hp (representable_two_zpow k)
  round_round q := toBinary_of_representable hp (representable_toBinary p q)
  round_sub {x y} hx hy hyx hxy := by
    have hx' : Representable p x := hx ▸ representable_toBinary p x
    have hy' : Representable p y := hy ▸ representable_toBinary p y
    exact toBinary_of_representable hp (hx'.sub hy' hyx hxy)

variable (R : Rounding)

@[simp] theorem round_zero : R.round 0 = 0 := by
  have h := R.round_neg 0
  rw [neg_zero] at h
  linarith

@[simp] theorem round_one : R.round 1 = 1 := by
  simpa using R.round_two_zpow 0

theorem round_half : R.round (1 / 2) = 1 / 2 := by
  simpa using R.round_two_zpow (-1)

theorem round_nonneg {q : ℚ} (h : 0 ≤ q) : 0 ≤ R.round q := by
  simpa using R.mono h

theorem round_le_one {q : ℚ} (h : q ≤ 1) : R.round q ≤ 1 := by
  simpa using R.mono h

theorem half_le_round {q : ℚ} (h : 1 / 2 ≤ q) : 1 / 2 ≤ R.round q := by
  have hle := R.mono h
  rwa [R.round_half] at hle

end Rounding

end AthenaVoice.Lib
