import Mathlib.Algebra.Group.Nat.Defs
import AthenaVoice.Lib.Str

/-
  Unsigned decimal numbers, as Rust writes and reads them

  `display` writes a number in its digits. `parseU64` reads digits, after at
  most one plus sign, as long as the number is below 2^64; leading zeros are
  read too, so it is a left inverse of `display` and not an inverse.

  What is proved:
    1. `parseU64_display` — what is written reads back.
    2. `readDigits_display` — so do the digits a text starts with, if none follows them.
-/

namespace AthenaVoice.Lib

/-- `n.to_string()`, for an unsigned integer. -/
def display (n : Nat) : Text := Nat.toDigits 10 n

/-- `s.parse::<u64>()`. -/
def parseU64 (s : Text) : Option Nat :=
  let digits := match s with
    | '+' :: rest => rest
    | rest => rest
  if digits.isEmpty || !digits.all Char.isDigit then none
  else if Nat.ofDigitChars 10 digits 0 < 2 ^ 64 then some (Nat.ofDigitChars 10 digits 0)
  else none

example : parseU64 "+0120".toList = some 120 ∧ parseU64 "".toList = none ∧ parseU64 "1 ".toList = none ∧
    parseU64 "18446744073709551616".toList = none := by decide

theorem isDigit_of_mem_display {n : Nat} {c : Char} (h : c ∈ display n) : c.isDigit = true :=
  Nat.isDigit_of_mem_toDigits (by decide) (by decide) h

theorem display_ne_nil (n : Nat) : display n ≠ [] := Nat.toDigits_ne_nil

/-- **What is written reads back.** -/
theorem parseU64_display {n : Nat} (hn : n < 2 ^ 64) : parseU64 (display n) = some n := by
  have hdigits : (display n).all Char.isDigit = true :=
    List.all_eq_true.mpr (fun c hc => isDigit_of_mem_display hc)
  have hvalue : Nat.ofDigitChars 10 (display n) 0 = n := Nat.ofDigitChars_ten_toDigits
  have hsign : (match display n with
      | '+' :: rest => rest
      | rest => rest) = display n := by
    split
    · rename_i rest heq
      -- a plus sign is no digit
      have hplus : '+' ∈ display n := heq ▸ List.mem_cons_self
      exact absurd (isDigit_of_mem_display hplus) (by decide)
    · rfl
  have hne : (display n).isEmpty = false := by
    simp [display_ne_nil]
  unfold parseU64
  rw [hsign]
  simp only [hdigits, hne, hvalue, Bool.not_true, Bool.or_self, Bool.false_eq_true, if_false]
  rw [if_pos hn]

/-- What follows the digits is not one. -/
def NoDigitFirst (s : Text) : Prop := ∀ c, s.head? = some c → c.isDigit = false

theorem takeWhile_display {n : Nat} {s : Text} (hs : NoDigitFirst s) :
    (display n ++ s).takeWhile Char.isDigit = display n := by
  rw [List.takeWhile_append_of_pos (fun c hc => isDigit_of_mem_display hc)]
  cases s with
  | nil => rw [List.takeWhile_nil, List.append_nil]
  | cons c s =>
    have hc : ¬ c.isDigit = true := by
      rw [hs c rfl]
      decide
    rw [List.takeWhile_cons_of_neg hc, List.append_nil]

/-- The digits a text starts with, as a number, and what follows. -/
def readDigits (s : Text) : Nat × Text := (Nat.ofDigitChars 10 (s.takeWhile Char.isDigit) 0, s.dropWhile Char.isDigit)

theorem readDigits_display {n : Nat} {s : Text} (hs : NoDigitFirst s) : readDigits (display n ++ s) = (n, s) := by
  have hdigits := takeWhile_display (n := n) hs
  have hrest : (display n ++ s).dropWhile Char.isDigit = s := by
    have happ := List.takeWhile_append_dropWhile (p := Char.isDigit) (l := display n ++ s)
    rw [hdigits] at happ
    exact List.append_cancel_left happ
  unfold readDigits
  rw [hdigits, hrest]
  exact congrArg (fun m => (m, s)) Nat.ofDigitChars_ten_toDigits

end AthenaVoice.Lib
