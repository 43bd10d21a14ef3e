import AthenaVoice.Lib.Checked
import Mathlib.Algebra.Order.Floor.Div
import Mathlib.Algebra.Order.Floor.Semifield
import Mathlib.Analysis.Real.Sqrt

/-
  The level of a frame — `satellite-esp32/src/mic.rs`, `rms` and `isqrt`

  The root of the mean square, in whole numbers: a checked sum of squares, a
  division, and Newton's iteration from above.

  What is proved:
    1. `isqrtLoop_eq` — from above the root the iteration descends to it.
    2. `isqrt_eq` — the root of every 64-bit number, with no overflow.
    3. `rms_eq` — the root of the mean square, at most 32768.
    4. `rms_exact` — the same against the real square root.

  Correspondence (Rust ↔ Lean):
    `isqrt` and its `while`   `isqrt`, `isqrtLoop`
    `rms`                     `rms`
    a frame's slice           `Frame`
-/

namespace AthenaVoice.Esp32

open Lib

/-- A frame of samples; the target's lengths are of 32 bits. -/
structure Frame where
  samples : List Int16
  fits : samples.length < 2 ^ 32
  deriving DecidableEq, Repr

/-! ## The integer square root -/

/-- `while y < x { x = y; y = (x + n / x) / 2; }`. -/
def isqrtLoop (n x y : Nat) : Option Nat :=
  if y < x then
    (Checked.div n y).bind (fun q => (Checked.unsigned 64 (y + q)).bind (fun s => isqrtLoop n y (s / 2)))
  else some x
termination_by x

def isqrt (n : Nat) : Option Nat := if n < 2 then some n else isqrtLoop n n (n ⌈/⌉ 2)

theorem sqrt_le_step {n x : Nat} (hx : 0 < x) : n.sqrt ≤ (x + n / x) / 2 := by
  have hroot : n.sqrt * n.sqrt ≤ n := Nat.sqrt_le n
  have hdiv : n < x * (n / x + 1) := Nat.lt_mul_div_succ n hx
  rw [Nat.le_div_iff_mul_le (by decide)]
  -- were the sum less than twice the root, its square would be less than 4n
  by_contra hlt
  have hgap : x + n / x + 1 ≤ n.sqrt * 2 := by omega
  nlinarith [sq_nonneg ((n.sqrt : ℤ) - x), Nat.mul_le_mul_left x hgap]

theorem eq_sqrt_of_step_ge {n x : Nat} (habove : n.sqrt ≤ x) (hstep : x ≤ (x + n / x) / 2) : x = n.sqrt := by
  have hle : x ≤ n / x := by omega
  have hsquare : x * x ≤ n := (Nat.mul_le_mul_left x hle).trans (Nat.mul_div_le n x)
  exact Nat.le_antisymm (Nat.le_sqrt.mpr hsquare) habove

theorem step_fits {n y : Nat} (hn : n < 2 ^ 64) (hpos : 0 < y) (habove : n.sqrt ≤ y) (hy : y ≤ 2 ^ 63) :
    y + n / y < 2 ^ 64 := by
  -- at y = 1 the root is 1, so n is small; above it the quotient is at most half of n
  by_cases hone : y = 1
  · have hroot : n < 2 * 2 := Nat.sqrt_lt.mp (by omega)
    rw [hone, Nat.div_one]
    omega
  · have hhalf : n / y ≤ n / 2 := Nat.div_le_div_left (by omega) (by decide)
    omega

/-- **The descent.** -/
theorem isqrtLoop_eq {n : Nat} (hn : n < 2 ^ 64) (htwo : 2 ≤ n) : ∀ x y : Nat, n.sqrt ≤ y →
    y ≤ 2 ^ 63 → y < x →
    isqrtLoop n x y = some n.sqrt := by
  have hroot : 0 < n.sqrt := Nat.sqrt_pos.mpr (by omega)
  intro x y
  -- the iterate falls at each turn, and never below the root
  induction y using Nat.strong_induction_on generalizing x with
  | _ y ih =>
    intro habove hy hlt
    have hpos : 0 < y := hroot.trans_le habove
    rw [isqrtLoop, if_pos hlt, Checked.div_of_pos hpos, Option.bind_some,
      Checked.unsigned_of_lt (step_fits hn hpos habove hy), Option.bind_some]
    by_cases hdown : (y + n / y) / 2 < y
    · exact ih _ hdown y (sqrt_le_step hpos) (by omega) hdown
    · rw [isqrtLoop, if_neg hdown, eq_sqrt_of_step_ge habove (by omega)]

/-- **The root of every 64-bit number.** -/
theorem isqrt_eq {n : Nat} (hn : n < 2 ^ 64) : isqrt n = some n.sqrt := by
  unfold isqrt
  split
  · rename_i hsmall
    obtain rfl | rfl : n = 0 ∨ n = 1 := by omega
    · simp
    · simp
  · rename_i htwo
    rw [Nat.ceilDiv_eq_add_pred_div]
    have hroot : n.sqrt ≤ (n + 2 - 1) / 2 := by
      have hle : n.sqrt * n.sqrt ≤ n := Nat.sqrt_le n
      have hsq : n.sqrt * 2 ≤ n.sqrt * n.sqrt + 1 := by nlinarith [sq_nonneg ((n.sqrt : ℤ) - 1)]
      rw [Nat.le_div_iff_mul_le (by decide)]
      omega
    exact isqrtLoop_eq hn (by omega) n _ hroot (by omega) (by omega)

/-! ## The root of the mean square -/

/-- `(s * s) as u64`, of the sample as an `i64`. -/
def square (s : Int16) : Option Nat := (Checked.signed 64 (s.toInt * s.toInt)).map (fun p => (p % 2 ^ 64).toNat)

def rms (frame : List Int16) : Option Nat :=
  if frame.isEmpty then some 0
  else
    (frame.mapM square).bind (fun squares =>
      (Checked.sum 64 0 squares).bind (fun sumSq =>
        (Checked.div sumSq frame.length).bind (fun mean =>
          (isqrt mean).map (fun root => root % 2 ^ 32))))

def sumSquares (frame : List Int16) : Nat := (frame.map (fun s => s.toInt.natAbs ^ 2)).sum

def level (frame : List Int16) : Nat := (sumSquares frame / frame.length).sqrt

theorem natAbs_le (s : Int16) : s.toInt.natAbs ≤ 2 ^ 15 := by
  have hlow := s.le_toInt
  have hhigh := s.toInt_lt
  omega

theorem square_eq (s : Int16) : square s = some (s.toInt.natAbs ^ 2) := by
  have hbound : s.toInt.natAbs ^ 2 ≤ (2 ^ 15) ^ 2 := Nat.pow_le_pow_left (natAbs_le s) 2
  have hcast : s.toInt * s.toInt = ((s.toInt.natAbs ^ 2 : Nat) : Int) := by
    rw [Nat.cast_pow, Int.natAbs_sq, sq]
  rw [square, hcast, Checked.signed_of_bounds (by omega) (by omega), Option.map_some]
  congr 1
  omega

theorem mapM_square (frame : List Int16) : frame.mapM square = some (frame.map (fun s => s.toInt.natAbs ^ 2)) := by
  induction frame with
  | nil => rfl
  | cons s frame ih => simp [square_eq, ih]

theorem sumSquares_le (frame : List Int16) : sumSquares frame ≤ frame.length * 2 ^ 30 := by
  have h := List.sum_le_card_nsmul (frame.map (fun s => s.toInt.natAbs ^ 2)) (2 ^ 30) (by
    intro q hq
    obtain ⟨s, _, rfl⟩ := List.mem_map.mp hq
    exact (Nat.pow_le_pow_left (natAbs_le s) 2).trans (by decide))
  rwa [List.length_map, smul_eq_mul] at h

theorem level_le (frame : List Int16) : level frame ≤ 32768 := by
  have hmean : sumSquares frame / frame.length ≤ 2 ^ 30 := Nat.div_le_of_le_mul (sumSquares_le frame)
  calc level frame ≤ Nat.sqrt (2 ^ 30) := Nat.sqrt_le_sqrt hmean
    _ = Nat.sqrt (32768 * 32768) := by norm_num
    _ = 32768 := Nat.sqrt_eq 32768

/-- **The level is the root of the mean square.** -/
theorem rms_eq (frame : Frame) : rms frame.samples = some (level frame.samples) := by
  have hfits := frame.fits
  generalize frame.samples = samples at hfits
  cases samples with
  | nil => decide
  | cons s rest =>
    have hle := sumSquares_le (s :: rest)
    have hsum : 0 + sumSquares (s :: rest) < 2 ^ 64 := by omega
    have hpos : 0 < (s :: rest).length := Nat.succ_pos _
    have hmean : sumSquares (s :: rest) / (s :: rest).length < 2 ^ 64 := (Nat.div_le_self _ _).trans_lt (by omega)
    have hlevel : level (s :: rest) < 2 ^ 32 := (level_le _).trans_lt (by decide)
    rw [rms, if_neg (by simp), mapM_square, Option.bind_some, Checked.sum_of_lt _ _ hsum, Option.bind_some,
      Checked.div_of_pos hpos, Option.bind_some, Nat.zero_add, ← sumSquares, isqrt_eq hmean, Option.map_some]
    exact congrArg some (Nat.mod_eq_of_lt hlevel)

/-! ## Against the real root -/

noncomputable def meanSquare (frame : List Int16) : ℝ := (sumSquares frame : ℝ) / frame.length

theorem sqrt_floor {x : ℝ} (hx : 0 ≤ x) : Nat.sqrt ⌊x⌋₊ = ⌊√x⌋₊ := by
  apply eq_of_forall_le_iff
  -- both sides bound the same whole numbers
  intro k
  calc k ≤ Nat.sqrt ⌊x⌋₊ ↔ k ^ 2 ≤ ⌊x⌋₊ := Nat.le_sqrt'
    _ ↔ ((k ^ 2 : ℕ) : ℝ) ≤ x := Nat.le_floor_iff hx
    _ ↔ (k : ℝ) ≤ √x := by rw [Nat.cast_pow, Real.le_sqrt (Nat.cast_nonneg k) hx]
    _ ↔ k ≤ ⌊√x⌋₊ := (Nat.le_floor_iff (Real.sqrt_nonneg x)).symm

theorem level_eq_floor (frame : List Int16) : level frame = ⌊√(meanSquare frame)⌋₊ := by
  have hpos : 0 ≤ meanSquare frame := by
    unfold meanSquare
    positivity
  rw [← sqrt_floor hpos, meanSquare, Nat.floor_div_eq_div, level]

/-- **Roots are exact.** Of every 64-bit number, and of the mean square of every
frame: nothing overflows, nothing is divided by zero, and no level is above 32768. -/
theorem rms_exact :
    (∀ n : UInt64, isqrt n.toNat = some ⌊√(n.toNat : ℝ)⌋₊) ∧
      ∀ frame : Frame, ∃ r, rms frame.samples = some r ∧ r = ⌊√(meanSquare frame.samples)⌋₊ ∧
        r ≤ 32768 := by
  refine ⟨?_, ?_⟩
  · intro n
    rw [isqrt_eq n.toNat_lt, Real.nat_floor_real_sqrt_eq_nat_sqrt]
  · intro frame
    exact ⟨level frame.samples, rms_eq frame, level_eq_floor _, level_le _⟩

end AthenaVoice.Esp32
