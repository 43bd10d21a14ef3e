import AthenaVoice.Lib.Codec

/-
  Reading UTF-8 that may be broken — `String::from_utf8_lossy`

  Well-formed characters are read as they are; each longest start of a character
  that cannot go on, and each byte that starts none, is read as U+FFFD.

  What is proved:
    1. `lossyChar_encode` — a character is read as it was written.
    2. `fromUtf8Lossy_encode` — a text is.
-/

namespace AthenaVoice.Lib

def replacement : Char := Char.ofNat 0xFFFD

def isTail (b : UInt8) : Bool := 0x80 ≤ b.toNat && b.toNat ≤ 0xBF

/-- The second byte of three that can follow the first. -/
def secondOfThree (a b : UInt8) : Bool :=
  (a.toNat == 0xE0 && 0xA0 ≤ b.toNat && b.toNat ≤ 0xBF) || (0xE1 ≤ a.toNat && a.toNat ≤ 0xEC && isTail b) ||
    (a.toNat == 0xED && 0x80 ≤ b.toNat && b.toNat ≤ 0x9F) || (0xEE ≤ a.toNat && a.toNat ≤ 0xEF && isTail b)

/-- The second byte of four that can follow the first. -/
def secondOfFour (a b : UInt8) : Bool :=
  (a.toNat == 0xF0 && 0x90 ≤ b.toNat && b.toNat ≤ 0xBF) || (0xF1 ≤ a.toNat && a.toNat ≤ 0xF3 && isTail b) ||
    (a.toNat == 0xF4 && 0x80 ≤ b.toNat && b.toNat ≤ 0x8F)

/-- A number, and six more bits of it. -/
def shift6 (n : Nat) (b : UInt8) : Nat := n * 64 + (b.toNat - 0x80)

/-- The character that starts with `a`, and the bytes after it. -/
def lossyChar (a : UInt8) (rest : List UInt8) : Char × List UInt8 :=
  if a.toNat < 0x80 then (Char.ofNat a.toNat, rest)
  else if a.toNat < 0xC2 then (replacement, rest)
  else if a.toNat < 0xE0 then
    match rest with
    | b :: rest₁ =>
      if isTail b then (Char.ofNat (shift6 (a.toNat - 0xC0) b), rest₁) else (replacement, rest)
    | [] => (replacement, rest)
  else if a.toNat < 0xF0 then
    match rest with
    | b :: c :: rest₂ =>
      if secondOfThree a b then
        if isTail c then (Char.ofNat (shift6 (shift6 (a.toNat - 0xE0) b) c), rest₂) else (replacement, c :: rest₂)
      else (replacement, rest)
    | [b] => if secondOfThree a b then (replacement, []) else (replacement, rest)
    | [] => (replacement, rest)
  else if a.toNat < 0xF5 then
    match rest with
    | b :: c :: d :: rest₃ =>
      if secondOfFour a b then
        if isTail c then
          if isTail d then (Char.ofNat (shift6 (shift6 (shift6 (a.toNat - 0xF0) b) c) d), rest₃)
          else (replacement, d :: rest₃)
        else (replacement, c :: d :: rest₃)
      else (replacement, rest)
    | [b, c] =>
      if secondOfFour a b then if isTail c then (replacement, []) else (replacement, [c]) else (replacement, rest)
    | [b] => if secondOfFour a b then (replacement, []) else (replacement, rest)
    | [] => (replacement, rest)
  else (replacement, rest)

/-- At most `fuel` characters of the bytes. -/
def lossyFuel : Nat → List UInt8 → Text
  | _, [] => []
  | 0, _ => []
  | fuel + 1, a :: rest => (lossyChar a rest).1 :: lossyFuel fuel (lossyChar a rest).2

/-- `String::from_utf8_lossy`. A byte is at most one character. -/
def fromUtf8Lossy (bytes : List UInt8) : Text := lossyFuel bytes.length bytes

example : fromUtf8Lossy [0x61, 0xC3, 0xA9, 0xE2, 0x82, 0x62, 0xF0, 0x9F, 0x98, 0x80, 0xFF] =
    ['a', 'é', replacement, 'b', '😀', replacement] := by decide +kernel

theorem toNat_ofNat_lt {n : Nat} (h : n < 256) : (UInt8.ofNat n).toNat = n := by
  rw [UInt8.toNat_ofNat']
  exact Nat.mod_eq_of_lt h

section Bytes

variable {a b c d : UInt8} {n : Nat} (rest : List UInt8)

theorem isTail_low (hb : b.toNat = n % 64 + 0x80) : isTail b = true := by
  simp only [isTail, hb, Bool.and_eq_true, decide_eq_true_eq]
  omega

theorem shift6_low (m : Nat) (hb : b.toNat = n % 64 + 0x80) : shift6 m b = m * 64 + n % 64 := by
  unfold shift6
  omega

theorem lossyChar_two (ha : a.toNat = n / 64 + 0xC0) (hb : b.toNat = n % 64 + 0x80) (hlow : 0x80 ≤ n)
    (hhigh : n ≤ 0x7FF) :
    lossyChar a (b :: rest) = (Char.ofNat n, rest) := by
  have hvalue : shift6 (a.toNat - 0xC0) b = n := by
    rw [shift6_low _ hb]
    omega
  unfold lossyChar
  rw [if_neg (by omega), if_neg (by omega), if_pos (by omega)]
  simp only [isTail_low hb, if_true, hvalue]

theorem lossyChar_three (ha : a.toNat = n / 4096 + 0xE0) (hb : b.toNat = n / 64 % 64 + 0x80)
    (hc : c.toNat = n % 64 + 0x80) (hlow : 0x800 ≤ n) (hhigh : n ≤ 0xFFFF) (hscalar : n < 0xD800 ∨ 0xDFFF < n) :
    lossyChar a (b :: c :: rest) = (Char.ofNat n, rest) := by
  have hsecond : secondOfThree a b = true := by
    simp only [secondOfThree, isTail, ha, hb, Bool.or_eq_true, Bool.and_eq_true, beq_iff_eq, decide_eq_true_eq]
    omega
  have hvalue : shift6 (shift6 (a.toNat - 0xE0) b) c = n := by
    rw [shift6_low _ hb, shift6_low _ hc]
    omega
  unfold lossyChar
  rw [if_neg (by omega), if_neg (by omega), if_neg (by omega), if_pos (by omega)]
  simp only [hsecond, isTail_low hc, if_true, hvalue]

theorem lossyChar_four (ha : a.toNat = n / 262144 + 0xF0) (hb : b.toNat = n / 4096 % 64 + 0x80)
    (hc : c.toNat = n / 64 % 64 + 0x80) (hd : d.toNat = n % 64 + 0x80) (hlow : 0x10000 ≤ n) (hhigh : n < 0x110000) :
    lossyChar a (b :: c :: d :: rest) = (Char.ofNat n, rest) := by
  have hsecond : secondOfFour a b = true := by
    simp only [secondOfFour, isTail, ha, hb, Bool.or_eq_true, Bool.and_eq_true, beq_iff_eq, decide_eq_true_eq]
    omega
  have hvalue : shift6 (shift6 (shift6 (a.toNat - 0xF0) b) c) d = n := by
    rw [shift6_low _ hb, shift6_low _ hc, shift6_low _ hd]
    omega
  unfold lossyChar
  rw [if_neg (by omega), if_neg (by omega), if_neg (by omega), if_neg (by omega), if_pos (by omega)]
  simp only [hsecond, isTail_low hc, isTail_low hd, if_true, hvalue]

end Bytes

/-- **One character.** It is read as it was written. -/
theorem lossyChar_encode (x : Char) (rest : List UInt8) :
    ∃ a tail, String.utf8EncodeChar x ++ rest = a :: tail ∧ lossyChar a tail = (x, rest) := by
  have hx : Char.ofNat x.val.toNat = x := Char.ofNat_toNat x
  have hvalid : x.val.toNat < 0xD800 ∨ (0xDFFF < x.val.toNat ∧ x.val.toNat < 0x110000) := x.valid
  unfold String.utf8EncodeChar
  generalize x.val.toNat = v at hx hvalid
  have hbyte : ∀ {m : Nat}, m < 256 → (UInt8.ofNat m).toNat = m := toNat_ofNat_lt
  by_cases h1 : v ≤ 0x7f
  · rw [if_pos h1]
    refine ⟨_, _, rfl, ?_⟩
    unfold lossyChar
    rw [hbyte (by omega), if_pos (by omega), hx]
    rfl
  · rw [if_neg h1]
    by_cases h2 : v ≤ 0x7ff
    · rw [if_pos h2]
      refine ⟨_, _, rfl, ?_⟩
      rw [← hx]
      refine lossyChar_two rest ?_ ?_ (by omega) h2
      · rw [hbyte (by omega)]
        omega
      · exact hbyte (by omega)
    · rw [if_neg h2]
      by_cases h3 : v ≤ 0xffff
      · rw [if_pos h3]
        refine ⟨_, _, rfl, ?_⟩
        rw [← hx]
        refine lossyChar_three rest ?_ ?_ ?_ (by omega) h3 (by omega)
        · rw [hbyte (by omega)]
          omega
        · exact hbyte (by omega)
        · exact hbyte (by omega)
      · rw [if_neg h3]
        refine ⟨_, _, rfl, ?_⟩
        rw [← hx]
        refine lossyChar_four rest ?_ ?_ ?_ ?_ (by omega) (by omega)
        · rw [hbyte (by omega)]
          omega
        · exact hbyte (by omega)
        · exact hbyte (by omega)
        · exact hbyte (by omega)

theorem lossyFuel_encode : ∀ (s : Text) (fuel : Nat), (utf8.encode s).length ≤ fuel →
    lossyFuel fuel (utf8.encode s) = s := by
  intro s
  induction s with
  | nil =>
    intro fuel _
    cases fuel <;> rfl
  | cons x s ih =>
    intro fuel hlen
    obtain ⟨a, tail, hsplit, hchar⟩ := lossyChar_encode x (utf8.encode s)
    have hencode : utf8.encode (x :: s) = a :: tail := hsplit
    have hshorter : (utf8.encode s).length ≤ tail.length := by
      have hlens := congrArg List.length hsplit
      rw [List.length_append, String.length_utf8EncodeChar, List.length_cons] at hlens
      have hsize := Char.utf8Size_pos x
      omega
    rw [hencode] at hlen ⊢
    cases fuel with
    | zero => cases hlen
    | succ fuel =>
      rw [lossyFuel, hchar]
      congr 1
      apply ih
      rw [List.length_cons] at hlen
      omega

/-- **A text** is read as it was written. -/
theorem fromUtf8Lossy_encode (s : Text) : fromUtf8Lossy (utf8.encode s) = s :=
  lossyFuel_encode s _ (Nat.le_refl _)

end AthenaVoice.Lib
