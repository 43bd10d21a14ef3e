import Mathlib.Data.Nat.Digits.Lemmas
import AthenaVoice.Lib.Str

/-
  Codecs — what is written reads back

  A codec carries its law. Four are given: text as UTF-8, base64 of bytes, with
  the standard alphabet and padding, numbers as UUIDs are written, in hyphenated
  hexadecimal digits, and lists of strings as JSON arrays of them are written.
  Long data is cut into chunks before it is written.

  What is proved:
    1. `encode_inj` — different values are written differently.
    2. `flatten_chunks` — the chunks put together are what was cut.
    3. `decode_encode` of `utf8`, `base64`, `uuid` and `strings`.
-/

namespace AthenaVoice.Lib

universe u v w

/-- Values of `α`, and how they are written in `β`. -/
structure Codec (α : Type u) (β : Type v) where
  encode : α → β
  decode : β → Option α
  decode_encode : ∀ a, decode (encode a) = some a

theorem Codec.encode_inj {α : Type u} {β : Type v} (c : Codec α β) {a b : α} :
    c.encode a = c.encode b ↔ a = b := by
  refine ⟨?_, congrArg c.encode⟩
  intro h
  have hdecoded := congrArg c.decode h
  rw [c.decode_encode, c.decode_encode] at hdecoded
  exact Option.some.inj hdecoded

/-- What is written, written again. -/
def Codec.comp {α : Type u} {β : Type v} {γ : Type w} (c : Codec α β) (d : Codec β γ) : Codec α γ where
  encode := fun a => d.encode (c.encode a)
  decode := fun g => (d.decode g).bind c.decode
  decode_encode := by
    intro a
    rw [d.decode_encode, Option.bind_some, c.decode_encode]

def utf8 : Codec Text (List UInt8) where
  encode := List.flatMap String.utf8EncodeChar
  decode := fun bytes => bytes.toByteArray.utf8Decode?.map Array.toList
  decode_encode := by
    intro s
    show (List.utf8Encode s).utf8Decode?.map Array.toList = some s
    rw [List.utf8Decode?_utf8Encode]
    rfl

/-! ## Chunks -/

/-- The list cut every `size` places; at most `fuel` pieces. -/
def chunksFuel {α : Type u} (size : Nat) : Nat → List α → List (List α)
  | _, [] => []
  | 0, _ :: _ => []
  | fuel + 1, a :: l => (a :: l).take size :: chunksFuel size fuel ((a :: l).drop size)

/-- The list cut every `size` places. -/
def chunks {α : Type u} (size : Nat) (l : List α) : List (List α) := chunksFuel size l.length l

theorem flatten_chunksFuel {α : Type u} {size : Nat} (hsize : 0 < size) :
    ∀ (fuel : Nat) (l : List α), l.length ≤ fuel → (chunksFuel size fuel l).flatten = l := by
  intro fuel
  induction fuel with
  | zero =>
    intro l hl
    rw [List.eq_nil_of_length_eq_zero (Nat.le_zero.mp hl)]
    rfl
  | succ fuel ih =>
    intro l hl
    cases l with
    | nil => rfl
    | cons a l =>
      have hdrop : ((a :: l).drop size).length ≤ fuel := by
        rw [List.length_drop]
        omega
      rw [chunksFuel, List.flatten_cons, ih _ hdrop, List.take_append_drop]

theorem flatten_chunks {α : Type u} {size : Nat} (hsize : 0 < size) (l : List α) : (chunks size l).flatten = l :=
  flatten_chunksFuel hsize l.length l le_rfl

/-! ## Base64 -/

namespace Base64

/-- A group of six bits, written. -/
def digit (n : Nat) : Char :=
  if n < 26 then Char.ofNat (65 + n)
  else if n < 52 then Char.ofNat (97 + (n - 26))
  else if n < 62 then Char.ofNat (48 + (n - 52))
  else if n = 62 then '+'
  else '/'

/-- The group a character stands for. -/
def value (c : Char) : Option Nat :=
  if 'A' ≤ c ∧ c ≤ 'Z' then some (c.toNat - 65)
  else if 'a' ≤ c ∧ c ≤ 'z' then some (c.toNat - 97 + 26)
  else if '0' ≤ c ∧ c ≤ '9' then some (c.toNat - 48 + 52)
  else if c = '+' then some 62
  else if c = '/' then some 63
  else none

/-- The bytes, three at a time; the last group is filled with `=`. -/
def encode : List UInt8 → Text
  | [] => []
  | [a] => [digit (a.toNat / 4), digit (a.toNat % 4 * 16), '=', '=']
  | [a, b] => [digit (a.toNat / 4), digit (a.toNat % 4 * 16 + b.toNat / 16), digit (b.toNat % 16 * 4), '=']
  | a :: b :: c :: rest =>
    digit (a.toNat / 4) :: digit (a.toNat % 4 * 16 + b.toNat / 16) ::
      digit (b.toNat % 16 * 4 + c.toNat / 64) :: digit (c.toNat % 64) :: encode rest

/-- A group that ends in `=`; what it leaves over must be zero. -/
def decodeLast (w x y : Char) : Option (List UInt8) :=
  match value w, value x with
  | some p, some q =>
    if y = '=' then
      if q % 16 = 0 then some [UInt8.ofNat (p * 4 + q / 16)] else none
    else
      match value y with
      | some r =>
        if r % 4 = 0 then some [UInt8.ofNat (p * 4 + q / 16), UInt8.ofNat (q % 16 * 16 + r / 4)] else none
      | none => none
  | _, _ => none

def decodeGroup (w x y z : Char) : Option (List UInt8) :=
  match value w, value x, value y, value z with
  | some p, some q, some r, some t =>
    some [UInt8.ofNat (p * 4 + q / 16), UInt8.ofNat (q % 16 * 16 + r / 4), UInt8.ofNat (r % 4 * 64 + t)]
  | _, _, _, _ => none

/-- The bytes of a text, four characters at a time. -/
def decode : Text → Option (List UInt8)
  | [] => some []
  | w :: x :: y :: z :: rest =>
    if z = '=' then if rest = [] then decodeLast w x y else none
    else
      match decodeGroup w x y z, decode rest with
      | some group, some bytes => some (group ++ bytes)
      | _, _ => none
  | _ => none

theorem value_digit : ∀ n < 64, value (digit n) = some n := by decide

theorem digit_ne_pad : ∀ n < 64, digit n ≠ '=' := by decide

theorem ofNat_eq {a : UInt8} {n : Nat} (h : n = a.toNat) : UInt8.ofNat n = a := by
  rw [h, UInt8.ofNat_toNat]

theorem decode_encode : ∀ bytes, decode (encode bytes) = some bytes := by
  intro bytes
  induction bytes using encode.induct with
  | case1 => rfl
  | case2 a =>
    have ha := a.toNat_lt
    simp only [encode, decode, decodeLast, if_true, value_digit (a.toNat / 4) (by omega),
      value_digit (a.toNat % 4 * 16) (by omega)]
    rw [if_pos (by omega), ofNat_eq (a := a) (by omega)]
  | case3 a b =>
    have ha := a.toNat_lt
    have hb := b.toNat_lt
    simp only [encode, decode, decodeLast, if_true, value_digit (a.toNat / 4) (by omega),
      value_digit (a.toNat % 4 * 16 + b.toNat / 16) (by omega), value_digit (b.toNat % 16 * 4) (by omega),
      if_neg (digit_ne_pad (b.toNat % 16 * 4) (by omega))]
    rw [if_pos (by omega), ofNat_eq (a := a) (by omega), ofNat_eq (a := b) (by omega)]
  | case4 a b c rest ih =>
    have ha := a.toNat_lt
    have hb := b.toNat_lt
    have hc := c.toNat_lt
    simp only [encode, decode, if_neg (digit_ne_pad (c.toNat % 64) (by omega)), decodeGroup, ih,
      value_digit (a.toNat / 4) (by omega), value_digit (a.toNat % 4 * 16 + b.toNat / 16) (by omega),
      value_digit (b.toNat % 16 * 4 + c.toNat / 64) (by omega), value_digit (c.toNat % 64) (by omega)]
    rw [ofNat_eq (a := a) (by omega), ofNat_eq (a := b) (by omega), ofNat_eq (a := c) (by omega)]
    rfl

end Base64

def base64 : Codec (List UInt8) Text := ⟨Base64.encode, Base64.decode, Base64.decode_encode⟩

/-! ## Numbers as UUIDs are written -/

namespace Uuid

/-- The last `width` hexadecimal digits, the last one first. -/
def digits : Nat → Nat → List Nat
  | 0, _ => []
  | width + 1, n => n % 16 :: digits width (n / 16)

def digit (n : Nat) : Char := "0123456789abcdef".toList.getD n '0'

/-- The digit a character stands for; a hyphen stands for none. -/
def value (c : Char) : Option Nat := "0123456789abcdef".toList.findIdx? (· == c)

/-- 32 digits, unless the number is no UUID's. -/
def width (n : Nat) : Nat := if n < 16 ^ 32 then 32 else n

/-- Groups of 8, 4, 4, 4 and the rest. -/
def hyphenate (t : Text) : Text :=
  t.take 8 ++ '-' :: ((t.drop 8).take 4 ++ '-' :: ((t.drop 12).take 4 ++ '-' :: ((t.drop 16).take 4 ++
    '-' :: t.drop 20)))

def encode (n : Nat) : Text := hyphenate ((digits (width n) n).reverse.map digit)

/-- The number whose digits a text has, if it is written so. -/
def decode (t : Text) : Option Nat :=
  if encode (Nat.ofDigits 16 (t.filterMap value).reverse) = t then
    some (Nat.ofDigits 16 (t.filterMap value).reverse)
  else none

theorem value_digit : ∀ n < 16, value (digit n) = some n := by decide

theorem digits_lt : ∀ (w n : Nat), ∀ d ∈ digits w n, d < 16 := by
  intro w
  induction w with
  | zero => intro n d hd; cases hd
  | succ w ih =>
    intro n d hd
    rcases List.mem_cons.mp hd with heq | hrest
    · rw [heq]
      omega
    · exact ih _ d hrest

theorem ofDigits_digits : ∀ (w n : Nat), n < 16 ^ w → Nat.ofDigits 16 (digits w n) = n := by
  intro w
  induction w with
  | zero =>
    intro n hn
    simp only [Nat.pow_zero, Nat.lt_one_iff] at hn
    rw [hn]
    rfl
  | succ w ih =>
    intro n hn
    have htail := ih (n / 16) (by rw [Nat.pow_succ] at hn; omega)
    rw [digits, Nat.ofDigits_cons, htail]
    omega

theorem filterMap_hyphenate (t : Text) : (hyphenate t).filterMap value = t.filterMap value := by
  have hhyphen : value '-' = none := by decide
  have hsplit : t = t.take 8 ++ ((t.drop 8).take 4 ++ ((t.drop 12).take 4 ++ ((t.drop 16).take 4 ++ t.drop 20))) := by
    have h16 : (t.drop 16).take 4 ++ t.drop 20 = t.drop 16 := by
      rw [show t.drop 20 = (t.drop 16).drop 4 by rw [List.drop_drop], List.take_append_drop]
    have h12 : (t.drop 12).take 4 ++ t.drop 16 = t.drop 12 := by
      rw [show t.drop 16 = (t.drop 12).drop 4 by rw [List.drop_drop], List.take_append_drop]
    have h8 : (t.drop 8).take 4 ++ t.drop 12 = t.drop 8 := by
      rw [show t.drop 12 = (t.drop 8).drop 4 by rw [List.drop_drop], List.take_append_drop]
    rw [h16, h12, h8, List.take_append_drop]
  conv_rhs => rw [hsplit]
  simp only [hyphenate, List.filterMap_append, List.filterMap_cons, hhyphen]

theorem filterMap_digit : ∀ ds : List Nat, (∀ d ∈ ds, d < 16) → (ds.map digit).filterMap value = ds := by
  intro ds
  induction ds with
  | nil => intro _; rfl
  | cons d ds ih =>
    intro h
    rw [List.map_cons, List.filterMap_cons, value_digit d (h d List.mem_cons_self),
      ih (fun x hx => h x (List.mem_cons_of_mem d hx))]

theorem lt_width (n : Nat) : n < 16 ^ width n := by
  unfold width
  split
  · assumption
  · exact Nat.lt_pow_self (by decide)

theorem decode_encode (n : Nat) : decode (encode n) = some n := by
  have hdigits : (encode n).filterMap value = (digits (width n) n).reverse := by
    rw [encode, filterMap_hyphenate]
    exact filterMap_digit _ (fun d hd => digits_lt _ _ d (List.mem_reverse.mp hd))
  have hnumber : Nat.ofDigits 16 ((encode n).filterMap value).reverse = n := by
    rw [hdigits, List.reverse_reverse]
    exact ofDigits_digits _ n (lt_width n)
  rw [decode, hnumber, if_pos rfl]

theorem length_digits : ∀ w n : Nat, (digits w n).length = w := by
  intro w
  induction w with
  | zero => intro n; rfl
  | succ w ih => intro n; rw [digits, List.length_cons, ih]

theorem length_encode {n : Nat} (h : n < 16 ^ 32) : (encode n).length = 36 := by
  have hwidth : width n = 32 := if_pos h
  have hdigits : ((digits (width n) n).reverse.map digit).length = 32 := by
    rw [List.length_map, List.length_reverse, length_digits, hwidth]
  rw [encode, hyphenate]
  simp only [List.length_append, List.length_cons, List.length_take, List.length_drop, hdigits]
  rfl

theorem mem_hyphenate {t : Text} {c : Char} (h : c ∈ hyphenate t) : c ∈ t ∨ c = '-' := by
  simp only [hyphenate, List.mem_append, List.mem_cons] at h
  have htake : ∀ {n m : Nat}, c ∈ (t.drop n).take m → c ∈ t :=
    fun h => List.mem_of_mem_drop (List.mem_of_mem_take h)
  rcases h with h | h | h | h | h | h | h | h | h
  · exact .inl (List.mem_of_mem_take h)
  · exact .inr h
  · exact .inl (htake h)
  · exact .inr h
  · exact .inl (htake h)
  · exact .inr h
  · exact .inl (htake h)
  · exact .inr h
  · exact .inl (List.mem_of_mem_drop h)

theorem digit_ne_slash (n : Nat) : digit n ≠ '/' := by
  rcases Nat.lt_or_ge n 16 with h | h
  · have hall : ∀ n < 16, digit n ≠ '/' := by decide
    exact hall n h
  · rw [digit, List.getD_eq_getElem?_getD, List.getElem?_eq_none (by simpa using h)]
    decide

theorem encode_slash (n : Nat) : '/' ∉ encode n := by
  intro h
  rcases mem_hyphenate h with h | h
  · obtain ⟨d, -, hd⟩ := List.mem_map.mp h
    exact digit_ne_slash d hd
  · exact absurd h (by decide)

end Uuid

/-- Numbers, as UUIDs are written. -/
def uuid : Codec Nat Text := ⟨Uuid.encode, Uuid.decode, Uuid.decode_encode⟩

example : base64.encode [77, 97] = "TWE=".toList := by decide

example : uuid.encode 255 = "00000000-0000-0000-0000-0000000000ff".toList := by decide

/-! ## Lists of strings -/

namespace Strings

def quote : Char := Char.ofNat 0x22

def backslash : Char := Char.ofNat 0x5c

/-- A string between quotes; quotes and backslashes in it are escaped, control
characters kept. -/
def encodeString : Text → Text
  | [] => [quote]
  | c :: s => if c = quote ∨ c = backslash then backslash :: c :: encodeString s else c :: encodeString s

/-- A string up to its closing quote, and what follows; `escaped` is after a backslash. -/
def decodeString : Bool → Text → Option (Text × Text)
  | _, [] => none
  | true, c :: s => (decodeString false s).map (fun r => (c :: r.1, r.2))
  | false, c :: s =>
    if c = quote then some ([], s)
    else if c = backslash then decodeString true s
    else (decodeString false s).map (fun r => (c :: r.1, r.2))

/-- The strings with a comma between two, up to the bracket. -/
def encodeItems : List Text → Text
  | [] => [']']
  | [s] => quote :: encodeString s ++ [']']
  | s :: t :: rest => quote :: encodeString s ++ ',' :: encodeItems (t :: rest)

def encode (l : List Text) : Text := '[' :: encodeItems l

/-- At most `fuel` strings, each after its opening quote. -/
def decodeItems : Nat → Text → Option (List Text)
  | 0, _ => none
  | _ + 1, [] => none
  | fuel + 1, c :: text =>
    if c = quote then
      (decodeString false text).bind (fun r =>
        if r.2 = [']'] then some [r.1]
        else if r.2.head? = some ',' then (decodeItems fuel r.2.tail).map (r.1 :: ·)
        else none)
    else none

def decode : Text → Option (List Text)
  | [] => none
  | c :: text =>
    if c = '[' then if text = [']'] then some [] else decodeItems text.length text
    else none

theorem decodeString_encodeString (rest : Text) : ∀ s : Text,
    decodeString false (encodeString s ++ rest) = some (s, rest) := by
  intro s
  induction s with
  | nil => simp [encodeString, decodeString]
  | cons c s ih =>
    by_cases hq : c = quote
    · subst hq
      have hne : backslash ≠ quote := by decide
      simp [encodeString, decodeString, hne, ih]
    · by_cases hb : c = backslash
      · subst hb
        simp [encodeString, decodeString, hq, ih]
      · simp [encodeString, decodeString, hq, hb, ih]

theorem decodeItems_encodeItems : ∀ (l : List Text), l ≠ [] → ∀ fuel, (encodeItems l).length ≤ fuel →
    decodeItems fuel (encodeItems l) = some l := by
  intro l
  induction l with
  | nil =>
    intro h
    exact absurd rfl h
  | cons s l ih =>
    intro _ fuel hfuel
    cases fuel with
    | zero => cases l <;> simp [encodeItems] at hfuel
    | succ fuel =>
      cases l with
      | nil =>
        have hread := decodeString_encodeString [']'] s
        simp [encodeItems, decodeItems, hread]
      | cons t rest =>
        have hread := decodeString_encodeString (',' :: encodeItems (t :: rest)) s
        have hrest := ih (List.cons_ne_nil t rest) fuel (by
          simp only [encodeItems, List.cons_append, List.length_cons, List.length_append] at hfuel ⊢
          omega)
        simp [encodeItems, decodeItems, hread] at hrest ⊢
        exact hrest

theorem decode_encode : ∀ l, decode (encode l) = some l := by
  intro l
  cases l with
  | nil => rfl
  | cons s l =>
    have hitems := decodeItems_encodeItems (s :: l) (List.cons_ne_nil s l) _ (le_refl _)
    have hquote : encodeItems (s :: l) ≠ [']'] := by
      cases l <;> simp [encodeItems, quote]
    simp [encode, decode, hquote, hitems]

end Strings

/-- JSON arrays of strings, as they are written. -/
def strings : Codec (List Text) Text := ⟨Strings.encode, Strings.decode, Strings.decode_encode⟩

example : strings.encode ["a".toList, "b".toList] = "[\"a\",\"b\"]".toList := by decide

end AthenaVoice.Lib
