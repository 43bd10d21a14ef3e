import AthenaVoice.Lib.Codec

/-
  Percent-encoding of some characters

  A writer puts `%XY` for the characters of a set and keeps the others, the
  percent sign among them. A reader takes every `%XY` for the byte it spells,
  whoever wrote it, and any other character for its UTF-8. So what a text has
  of its own that looks like an escape is read as one.

  What is proved:
    1. `not_mem_encode` — no character of the set is left.
    2. `escapeAt_encode` — a kept character starts an escape where it did before.
    3. `decode_encode_iff` — a text reads back exactly if it spells no escape.
-/

namespace AthenaVoice.Lib.Percent

/-- A hexadecimal digit, written. -/
def hexDigit (n : Nat) : Char := "0123456789ABCDEF".toList.getD n '0'

/-- The value of a hexadecimal digit, capital or not. -/
def hexValue (c : Char) : Option Nat :=
  if '0' ≤ c ∧ c ≤ '9' then some (c.toNat - 48)
  else if 'A' ≤ c ∧ c ≤ 'F' then some (c.toNat - 55)
  else if 'a' ≤ c ∧ c ≤ 'f' then some (c.toNat - 87)
  else none

/-- `%XY`. -/
def escape (c : Char) : Text := ['%', hexDigit (c.toNat / 16), hexDigit (c.toNat % 16)]

/-- What is written for a character. -/
def encodeChar (set : Char → Bool) (c : Char) : Text := if set c then escape c else [c]

/-- The characters of the set escaped, the others kept. -/
def encode (set : Char → Bool) (s : Text) : Text := s.flatMap (encodeChar set)

def byteOf (a b : Char) : Option UInt8 :=
  (hexValue a).bind (fun x => (hexValue b).map (fun y => UInt8.ofNat (x * 16 + y)))

/-- The byte of an escape at the start of a text. -/
def escapeAt : Text → Option UInt8
  | c :: a :: b :: _ => if c = '%' then byteOf a b else none
  | _ => none

/-- The bytes read, after `skip` characters of an escape that was read. -/
def decodeFrom : Nat → Text → List UInt8
  | _, [] => []
  | skip + 1, _ :: s => decodeFrom skip s
  | 0, c :: s =>
    match escapeAt (c :: s) with
    | some b => b :: decodeFrom 2 s
    | none => String.utf8EncodeChar c ++ decodeFrom 0 s

def decode (s : Text) : List UInt8 := decodeFrom 0 s

def Plain (s : Text) : Prop := ∀ t ∈ s.tails, escapeAt t = none

instance (s : Text) : Decidable (Plain s) := inferInstanceAs (Decidable (∀ t ∈ s.tails, escapeAt t = none))

theorem plain_cons {c : Char} {s : Text} : Plain (c :: s) ↔ escapeAt (c :: s) = none ∧ Plain s := by
  unfold Plain
  rw [List.tails_cons]
  exact List.forall_mem_cons

/-- The characters a set may hold: no hexadecimal digit, nothing beyond ASCII and
not the percent sign. -/
structure Escapable (set : Char → Bool) : Prop where
  ascii : ∀ c, set c = true → c.toNat < 128
  no_digit : ∀ c, set c = true → hexValue c = none
  no_percent : set '%' = false

section Set

variable {set : Char → Bool}

@[simp] theorem encode_nil : encode set [] = [] := rfl

@[simp] theorem encode_cons (c : Char) (s : Text) : encode set (c :: s) = encodeChar set c ++ encode set s := rfl

theorem hexValue_hexDigit : ∀ n < 16, hexValue (hexDigit n) = some n := by decide

theorem hexDigit_le (n : Nat) : (hexValue (hexDigit n)).isSome = true := by
  by_cases h : n < 16
  · rw [hexValue_hexDigit n h]
    rfl
  · rw [hexDigit, List.getD_eq_getElem?_getD, List.getElem?_eq_none (by simpa using h)]
    decide

/-- **No character of the set** is left. -/
theorem not_mem_encode (h : Escapable set) {c : Char} (hc : set c = true) (s : Text) : c ∉ encode set s := by
  intro hmem
  obtain ⟨d, -, hd⟩ := List.mem_flatMap.mp hmem
  unfold encodeChar at hd
  by_cases hset : set d = true
  · -- an escape is a percent sign and two digits
    rw [if_pos hset] at hd
    have hnone := h.no_digit c hc
    simp only [escape, List.mem_cons, List.not_mem_nil, or_false] at hd
    rcases hd with rfl | rfl | rfl
    · rw [h.no_percent] at hc
      cases hc
    · rw [← Option.not_isSome_iff_eq_none] at hnone
      exact hnone (hexDigit_le _)
    · rw [← Option.not_isSome_iff_eq_none] at hnone
      exact hnone (hexDigit_le _)
  · rw [if_neg hset] at hd
    rw [List.mem_singleton.mp hd] at hc
    exact hset hc

theorem escapeAt_ne {c : Char} (hc : c ≠ '%') (s : Text) : escapeAt (c :: s) = none := by
  match s with
  | [] => rfl
  | [_] => rfl
  | _ :: _ :: _ => exact if_neg hc

theorem escapeAt_of_no_digit {a : Char} (ha : hexValue a = none) (c : Char) (s : Text) :
    escapeAt (c :: a :: s) = none := by
  cases s with
  | nil => rfl
  | cons b s =>
    have hbyte : byteOf a b = none := by rw [byteOf, ha, Option.bind_none]
    show (if c = '%' then byteOf a b else none) = none
    rw [hbyte, ite_self]

theorem escapeAt_of_no_second {b : Char} (hb : hexValue b = none) (c a : Char) (s : Text) :
    escapeAt (c :: a :: b :: s) = none := by
  have hbyte : byteOf a b = none := by
    rw [byteOf, hb]
    cases hexValue a <;> rfl
  show (if c = '%' then byteOf a b else none) = none
  rw [hbyte, ite_self]

theorem encodeChar_of_set {c : Char} (hc : set c = true) :
    encodeChar set c = ['%', hexDigit (c.toNat / 16), hexDigit (c.toNat % 16)] := if_pos hc

theorem encodeChar_of_not {c : Char} (hc : ¬ set c = true) : encodeChar set c = [c] := if_neg hc

/-- **A kept character** starts an escape in what is written where it does in the text. -/
theorem escapeAt_encode (h : Escapable set) (c : Char) (s : Text) :
    escapeAt (c :: encode set s) = escapeAt (c :: s) := by
  have hpercent : hexValue '%' = none := by decide
  cases s with
  | nil => rfl
  | cons a s =>
    by_cases ha : set a = true
    · rw [encode_cons, encodeChar_of_set ha, escapeAt_of_no_digit (h.no_digit a ha)]
      exact escapeAt_of_no_digit hpercent _ _
    · rw [encode_cons, encodeChar_of_not ha]
      cases s with
      | nil => rfl
      | cons b s =>
        by_cases hb : set b = true
        · rw [encode_cons, encodeChar_of_set hb, escapeAt_of_no_second (h.no_digit b hb)]
          exact escapeAt_of_no_second hpercent _ _ _
        · rw [encode_cons, encodeChar_of_not hb]
          rfl

theorem utf8EncodeChar_ascii {c : Char} (hc : c.toNat < 128) : String.utf8EncodeChar c = [UInt8.ofNat c.toNat] := by
  unfold String.utf8EncodeChar
  exact if_pos (Nat.le_of_lt_succ hc)

theorem decode_escape (h : Escapable set) {c : Char} (hc : set c = true) (s : Text) :
    decode (encodeChar set c ++ s) = String.utf8EncodeChar c ++ decode s := by
  have hascii := h.ascii c hc
  have hbyte : escapeAt (encodeChar set c ++ s) = some (UInt8.ofNat c.toNat) := by
    rw [encodeChar_of_set hc]
    show byteOf (hexDigit (c.toNat / 16)) (hexDigit (c.toNat % 16)) = _
    rw [byteOf, hexValue_hexDigit _ (by omega), hexValue_hexDigit _ (by omega)]
    exact congrArg (fun n => some (UInt8.ofNat n)) (by omega)
  rw [encodeChar_of_set hc] at hbyte ⊢
  simp only [List.cons_append, List.nil_append] at hbyte ⊢
  rw [decode, decodeFrom, hbyte, utf8EncodeChar_ascii hascii]
  rfl

theorem decode_keep {c : Char} {s : Text} (hs : escapeAt (c :: s) = none) :
    decode (c :: s) = String.utf8EncodeChar c ++ decode s := by
  rw [decode, decodeFrom, hs]
  rfl

theorem decode_encode_cons (h : Escapable set) (c : Char) (s : Text) :
    (escapeAt (c :: s) = none ∧ decode (encode set (c :: s)) = String.utf8EncodeChar c ++ decode (encode set s)) ∨
      ∃ a b rest byte, c :: s = '%' :: a :: b :: rest ∧ (escapeAt (c :: s)).isSome = true ∧
        decode (encode set (c :: s)) = byte :: decode (encode set rest) := by
  by_cases hset : set c = true
  · refine .inl ⟨escapeAt_ne ?_ s, decode_escape h hset _⟩
    intro heq
    rw [heq, h.no_percent] at hset
    cases hset
  · rw [encode_cons, encodeChar_of_not hset]
    cases hat : escapeAt (c :: s) with
    | none => exact .inl ⟨rfl, decode_keep ((escapeAt_encode h c s).trans hat)⟩
    | some byte =>
      match s, hat with
      | a :: b :: rest, hat =>
        have hc : c = '%' := by
          by_contra hne
          rw [escapeAt_ne hne] at hat
          cases hat
        have ha : ¬ set a = true := by
          intro ha
          rw [escapeAt_of_no_digit (h.no_digit a ha)] at hat
          cases hat
        have hb : ¬ set b = true := by
          intro hb
          rw [escapeAt_of_no_second (h.no_digit b hb)] at hat
          cases hat
        refine .inr ⟨a, b, rest, byte, by rw [hc], rfl, ?_⟩
        have henc := (escapeAt_encode h c (a :: b :: rest)).trans hat
        rw [List.singleton_append, decode, decodeFrom, henc, encode_cons, encode_cons, encodeChar_of_not ha,
          encodeChar_of_not hb]
        rfl

theorem utf8_cons (c : Char) (s : Text) : utf8.encode (c :: s) = String.utf8EncodeChar c ++ utf8.encode s := rfl

theorem length_decode_encode (h : Escapable set) : ∀ (n : Nat) (s : Text), s.length ≤ n →
    (decode (encode set s)).length ≤ (utf8.encode s).length ∧
      (¬ Plain s → (decode (encode set s)).length < (utf8.encode s).length) := by
  intro n
  induction n with
  | zero =>
    intro s hs
    rw [List.eq_nil_of_length_eq_zero (Nat.le_zero.mp hs)]
    exact ⟨Nat.le_refl _, fun hplain => absurd (by decide) hplain⟩
  | succ n ih =>
    intro s hs
    cases s with
    | nil => exact ⟨Nat.le_refl _, fun hplain => absurd (by decide) hplain⟩
    | cons c s =>
      rw [List.length_cons] at hs
      rcases decode_encode_cons h c s with ⟨hnone, hread⟩ | ⟨a, b, rest, byte, hsplit, -, hread⟩
      · obtain ⟨hle, hlt⟩ := ih s (by omega)
        rw [hread, utf8_cons, List.length_append, List.length_append]
        refine ⟨by omega, ?_⟩
        intro hplain
        have hrest := hlt (fun hs => hplain (plain_cons.mpr ⟨hnone, hs⟩))
        omega
      · -- three characters for one byte
        have hshort : rest.length ≤ n := by
          have hlength := congrArg List.length hsplit
          simp only [List.length_cons] at hlength
          omega
        obtain ⟨hle, -⟩ := ih rest hshort
        have hpos := fun c : Char => (String.length_utf8EncodeChar c).symm ▸ Char.utf8Size_pos c
        have h1 := hpos '%'
        have h2 := hpos a
        have h3 := hpos b
        rw [hread, hsplit, utf8_cons, utf8_cons, utf8_cons]
        simp only [List.length_cons, List.length_append]
        exact ⟨by omega, fun _ => by omega⟩

theorem decode_encode_of_plain (h : Escapable set) : ∀ s, Plain s → decode (encode set s) = utf8.encode s := by
  intro s
  induction s with
  | nil => intro _; rfl
  | cons c s ih =>
    intro hplain
    obtain ⟨hnone, hs⟩ := plain_cons.mp hplain
    rcases decode_encode_cons h c s with ⟨-, hread⟩ | ⟨-, -, -, -, -, hsome, -⟩
    · rw [hread, ih hs, utf8_cons]
    · rw [hnone] at hsome
      cases hsome

/-- **Reading back.** Exactly the texts that spell no escape are read as they were. -/
theorem decode_encode_iff (h : Escapable set) (s : Text) : decode (encode set s) = utf8.encode s ↔ Plain s := by
  refine ⟨?_, decode_encode_of_plain h s⟩
  intro heq
  by_contra hplain
  have hlt := (length_decode_encode h s.length s (Nat.le_refl _)).2 hplain
  rw [heq] at hlt
  omega

end Set

end AthenaVoice.Lib.Percent
