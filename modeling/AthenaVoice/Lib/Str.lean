import Mathlib.Data.List.Basic
import Mathlib.Data.List.DropRight

/-
  Rust strings over lists of characters

  A `str` is the list of its characters; positions are byte offsets of its
  UTF-8 encoding, as in Rust. `sliceFrom s i` is `s[i..]` and is `none` where
  Rust panics (an offset past the end or inside a character); `getRange` is
  `s.get(a..b)`. The lemmas say which offsets are character boundaries and that
  a search ends on one.

  The Unicode tables of `to_lowercase` and `is_alphanumeric` depend on the
  compiler's Unicode version, so they are a parameter (`Unicode`).
  `char::is_whitespace` is the White_Space property, which is short and fixed.
-/

namespace AthenaVoice.Lib

/-- A Rust `str`, as its characters. -/
abbrev Text := List Char

instance : LawfulBEq Text := inferInstance

/-- The standard library's Unicode tables. -/
structure Unicode where
  /-- `str::to_lowercase`: not character by character (a final sigma looks at
  its neighbours), and the result may be longer. -/
  toLowercase : Text → Text
  /-- `char::is_alphanumeric`. -/
  isAlphanumeric : Char → Bool
  toLowercase_nil : toLowercase [] = []

/-- The tables as they are on ASCII text. -/
def Unicode.ascii : Unicode where
  toLowercase := List.map Char.toLower
  isAlphanumeric := Char.isAlphanum
  toLowercase_nil := rfl

namespace Str

/-! ## Byte offsets -/

/-- `str::len`: the length of the UTF-8 encoding. -/
def len : Text → Nat
  | [] => 0
  | c :: cs => c.utf8Size + len cs

@[simp] theorem len_nil : len [] = 0 := rfl

@[simp] theorem len_cons (c : Char) (s : Text) : len (c :: s) = c.utf8Size + len s := rfl

@[simp] theorem len_append (s t : Text) : len (s ++ t) = len s + len t := by
  induction s with
  | nil => simp
  | cons c s ih =>
    rw [List.cons_append, len_cons, len_cons, ih]
    omega

/-- `s[i..]`; `none` where Rust panics. -/
def sliceFrom : Text → Nat → Option Text
  | s, 0 => some s
  | [], _ + 1 => none
  | c :: cs, i + 1 => if c.utf8Size ≤ i + 1 then sliceFrom cs (i + 1 - c.utf8Size) else none

/-- `s.get(..n)`. -/
def getTo : Text → Nat → Option Text
  | _, 0 => some []
  | [], _ + 1 => none
  | c :: cs, n + 1 =>
    if c.utf8Size ≤ n + 1 then (getTo cs (n + 1 - c.utf8Size)).map (c :: ·) else none

/-- `s.get(a..b)`. -/
def getRange (s : Text) (a b : Nat) : Option Text :=
  if a ≤ b then (sliceFrom s a).bind (fun t => getTo t (b - a)) else none

/-- `i` lies between two characters of `s`, or at one of its ends. -/
def IsCharBoundary (s : Text) (i : Nat) : Prop := ∃ pre post, s = pre ++ post ∧ len pre = i

theorem IsCharBoundary.zero (s : Text) : IsCharBoundary s 0 := ⟨[], s, rfl, rfl⟩

theorem IsCharBoundary.len (s : Text) : IsCharBoundary s (len s) := ⟨s, [], by simp, rfl⟩

theorem IsCharBoundary.le {s : Text} {i : Nat} (h : IsCharBoundary s i) : i ≤ Str.len s := by
  obtain ⟨pre, post, rfl, rfl⟩ := h
  simp

theorem sliceFrom_append (pre post : Text) : sliceFrom (pre ++ post) (len pre) = some post := by
  induction pre with
  | nil => cases post <;> rfl
  | cons c pre ih =>
    have hpos := c.utf8Size_pos
    obtain ⟨n, hn⟩ : ∃ n, len (c :: pre) = n + 1 := ⟨c.utf8Size + len pre - 1, by simp; omega⟩
    have hle : c.utf8Size ≤ n + 1 := by rw [← hn]; simp
    have hsub : n + 1 - c.utf8Size = len pre := by rw [← hn]; simp
    rw [hn, List.cons_append, sliceFrom, if_pos hle, hsub]
    exact ih

theorem sliceFrom_eq_some {s t : Text} : ∀ {i : Nat}, sliceFrom s i = some t →
    ∃ pre, s = pre ++ t ∧ len pre = i := by
  induction s with
  | nil =>
    intro i h
    cases i with
    | zero => simp [sliceFrom] at h; exact ⟨[], by simp [h], rfl⟩
    | succ i => simp [sliceFrom] at h
  | cons c s ih =>
    intro i h
    cases i with
    | zero => simp [sliceFrom] at h; exact ⟨[], by simp [h], rfl⟩
    | succ i =>
      simp only [sliceFrom] at h
      split at h
      · rename_i hle
        obtain ⟨pre, rfl, hl⟩ := ih h
        exact ⟨c :: pre, rfl, by simp [hl]; omega⟩
      · simp at h

theorem getTo_append (p post : Text) : getTo (p ++ post) (len p) = some p := by
  induction p with
  | nil => cases post <;> rfl
  | cons c p ih =>
    have hpos := c.utf8Size_pos
    obtain ⟨n, hn⟩ : ∃ n, len (c :: p) = n + 1 := ⟨c.utf8Size + len p - 1, by simp; omega⟩
    have hle : c.utf8Size ≤ n + 1 := by rw [← hn]; simp
    have hsub : n + 1 - c.utf8Size = len p := by rw [← hn]; simp
    rw [hn, List.cons_append, getTo, if_pos hle, hsub, ih]
    rfl

theorem getTo_eq_some {s p : Text} : ∀ {n : Nat}, getTo s n = some p → ∃ post, s = p ++ post ∧ len p = n := by
  induction s generalizing p with
  | nil =>
    intro n h
    cases n with
    | zero => simp [getTo] at h; exact ⟨[], by simp [h], by simp [h]⟩
    | succ n => simp [getTo] at h
  | cons c s ih =>
    intro n h
    cases n with
    | zero => simp [getTo] at h; exact ⟨c :: s, by simp [h], by simp [h]⟩
    | succ n =>
      simp only [getTo] at h
      split at h
      · rename_i hle
        obtain ⟨q, hq, rfl⟩ := Option.map_eq_some_iff.mp h
        obtain ⟨post, rfl, hl⟩ := ih hq
        exact ⟨post, rfl, by simp [hl]; omega⟩
      · simp at h

theorem getRange_eq_some {s p : Text} {a b : Nat} (h : getRange s a b = some p) :
    ∃ pre post, s = pre ++ p ++ post ∧ len pre = a ∧ len (pre ++ p) = b := by
  unfold getRange at h
  split at h
  · rename_i hle
    obtain ⟨t, ht, hp⟩ := Option.bind_eq_some_iff.mp h
    obtain ⟨pre, rfl, rfl⟩ := sliceFrom_eq_some ht
    obtain ⟨post, rfl, hl⟩ := getTo_eq_some hp
    exact ⟨pre, post, by simp, rfl, by rw [len_append, hl]; omega⟩
  · cases h

theorem getRange_append (pre p post : Text) :
    getRange (pre ++ p ++ post) (len pre) (len (pre ++ p)) = some p := by
  have hsub : len (pre ++ p) - len pre = len p := by rw [len_append]; omega
  unfold getRange
  rw [if_pos (by rw [len_append]; omega), List.append_assoc, sliceFrom_append, hsub]
  exact getTo_append p post

theorem sliceFrom_isSome_iff {s : Text} {i : Nat} : (∃ t, sliceFrom s i = some t) ↔ IsCharBoundary s i := by
  refine ⟨?_, ?_⟩
  · intro h
    obtain ⟨t, h⟩ := h
    obtain ⟨pre, rfl, hl⟩ := sliceFrom_eq_some h
    exact ⟨pre, t, rfl, hl⟩
  · intro h
    obtain ⟨pre, post, rfl, rfl⟩ := h
    exact ⟨post, sliceFrom_append pre post⟩

/-! ## Searching -/

/-- `hay.find(needle)`: the byte offset of the first occurrence. -/
def find : Text → Text → Option Nat
  | [], needle => if needle.isEmpty then some 0 else none
  | c :: cs, needle =>
    if needle.isPrefixOf (c :: cs) then some 0 else (find cs needle).map (· + c.utf8Size)

theorem find_eq_some {hay needle : Text} : ∀ {k : Nat}, find hay needle = some k →
    ∃ pre post, hay = pre ++ needle ++ post ∧ len pre = k := by
  induction hay with
  | nil =>
    intro k h
    simp [find] at h
    exact ⟨[], [], by simp [h.1], by simp [h.2]⟩
  | cons c cs ih =>
    intro k h
    simp only [find] at h
    split at h
    · rename_i hp
      cases h
      obtain ⟨post, hpost⟩ := List.isPrefixOf_iff_prefix.mp hp
      exact ⟨[], post, by simp [hpost], rfl⟩
    · obtain ⟨j, hj, rfl⟩ := Option.map_eq_some_iff.mp h
      obtain ⟨pre, post, rfl, rfl⟩ := ih hj
      exact ⟨c :: pre, post, rfl, by simp; omega⟩

theorem IsCharBoundary.find {s t needle : Text} {i hit : Nat} (hs : sliceFrom s i = some t)
    (hf : Str.find t needle = some hit) :
    IsCharBoundary s (i + hit) ∧ IsCharBoundary s (i + (hit + Str.len needle)) := by
  obtain ⟨pre, rfl, rfl⟩ := sliceFrom_eq_some hs
  obtain ⟨a, b, rfl, rfl⟩ := find_eq_some hf
  exact ⟨⟨pre ++ a, needle ++ b, by simp, by simp⟩, ⟨pre ++ a ++ needle, b, by simp, by simp⟩⟩

/-- `s.strip_prefix(p)`. -/
def stripPrefix (p s : Text) : Option Text :=
  if p.isPrefixOf s then some (s.drop p.length) else none

theorem stripPrefix_eq_some {p s t : Text} : stripPrefix p s = some t ↔ s = p ++ t := by
  unfold stripPrefix
  refine ⟨?_, ?_⟩
  · intro h
    split at h
    · rename_i hp
      obtain ⟨r, rfl⟩ := List.isPrefixOf_iff_prefix.mp hp
      simp at h
      rw [h]
    · simp at h
  · intro h
    simp [h]

theorem stripPrefix_append (p t : Text) : stripPrefix p (p ++ t) = some t := stripPrefix_eq_some.mpr rfl

theorem stripPrefix_apart {p q : Text} (hpq : ¬ p <+: q) (hqp : ¬ q <+: p) (t : Text) :
    stripPrefix p (q ++ t) = none := by
  apply Option.eq_none_iff_forall_ne_some.mpr
  intro r h
  have hp : p <+: q ++ t := ⟨r, (stripPrefix_eq_some.mp h).symm⟩
  rcases List.prefix_or_prefix_of_prefix hp (List.prefix_append q t) with hprefix | hprefix
  · exact hpq hprefix
  · exact hqp hprefix

/-- `s.strip_suffix(p)`. -/
def stripSuffix (p s : Text) : Option Text :=
  if p.isSuffixOf s then some (s.take (s.length - p.length)) else none

theorem append_of_stripSuffix {p s t : Text} (h : stripSuffix p s = some t) : s = t ++ p := by
  unfold stripSuffix at h
  split at h
  · rename_i hp
    obtain ⟨r, rfl⟩ := List.isSuffixOf_iff_suffix.mp hp
    rw [List.length_append, Nat.add_sub_cancel, List.take_left] at h
    rw [Option.some.inj h]
  · cases h

/-- `s.split_once(sep)`. -/
def splitOnce (sep : Text) : Text → Option (Text × Text)
  | [] => if sep.isEmpty then some ([], []) else none
  | c :: cs =>
    match stripPrefix sep (c :: cs) with
    | some rest => some ([], rest)
    | none => (splitOnce sep cs).map (fun p => (c :: p.1, p.2))

theorem splitOnce_eq_some {sep s a b : Text} (h : splitOnce sep s = some (a, b)) : s = a ++ sep ++ b := by
  induction s generalizing a with
  | nil =>
    unfold splitOnce at h
    split at h
    · rename_i hsep
      cases h
      rw [List.isEmpty_iff.mp hsep]
      rfl
    · cases h
  | cons c s ih =>
    unfold splitOnce at h
    split at h
    · rename_i rest hrest
      cases h
      exact stripPrefix_eq_some.mp hrest
    · obtain ⟨p, hp, hpair⟩ := Option.map_eq_some_iff.mp h
      cases hpair
      rw [ih (a := p.1) hp]
      rfl

/-- `s.split(sep).nth(1)`. -/
def splitNth1 (sep s : Text) : Option Text :=
  (splitOnce sep s).map (fun p => ((splitOnce sep p.2).map Prod.fst).getD p.2)

/-! ## White space -/

/-- `char::is_whitespace`: the White_Space property. -/
def isWhitespace (c : Char) : Bool :=
  (0x09 ≤ c.toNat && c.toNat ≤ 0x0D) || c.toNat == 0x20 || c.toNat == 0x85 || c.toNat == 0xA0 ||
    c.toNat == 0x1680 || (0x2000 ≤ c.toNat && c.toNat ≤ 0x200A) || c.toNat == 0x2028 ||
    c.toNat == 0x2029 || c.toNat == 0x202F || c.toNat == 0x205F || c.toNat == 0x3000

def trimStart (s : Text) : Text := s.dropWhile isWhitespace

def trimEnd (s : Text) : Text := s.rdropWhile isWhitespace

def trim (s : Text) : Text := trimEnd (trimStart s)

/-- The words after `cur`, the word being read. -/
def splitWhitespaceFrom : Text → Text → List Text
  | cur, [] => if cur.isEmpty then [] else [cur]
  | cur, c :: cs =>
    if isWhitespace c then
      (if cur.isEmpty then [] else [cur]) ++ splitWhitespaceFrom [] cs
    else splitWhitespaceFrom (cur ++ [c]) cs

/-- `str::split_whitespace`, collected. -/
def splitWhitespace (s : Text) : List Text := splitWhitespaceFrom [] s

def join (sep : Text) (ws : List Text) : Text := sep.intercalate ws

/-! ## Comparison and numbers -/

/-- `u8::to_ascii_lowercase` on a character; only ASCII letters change. -/
def asciiLower (c : Char) : Char := c.toLower

def eqIgnoreAsciiCase (s t : Text) : Bool := s.map asciiLower == t.map asciiLower

/-- The exponent part of a float literal: nothing, or `e`, a sign and digits. -/
def isExponent : Text → Bool
  | [] => true
  | c :: cs =>
    (c == 'e' || c == 'E') &&
      let ds := match cs with
        | '+' :: r => r
        | '-' :: r => r
        | r => r
      !ds.isEmpty && ds.all Char.isDigit

/-- The unsigned decimal literals `str::parse::<f64>` accepts. -/
def isDecimal (s : Text) : Bool :=
  let int := s.takeWhile Char.isDigit
  match s.dropWhile Char.isDigit with
  | '.' :: r =>
    let frac := r.takeWhile Char.isDigit
    (!int.isEmpty || !frac.isEmpty) && isExponent (r.dropWhile Char.isDigit)
  | r => !int.isEmpty && isExponent r

/-- `s.parse::<f64>().is_ok()`. -/
def parsesF64 (s : Text) : Bool :=
  let body := match s with
    | '+' :: r => r
    | '-' :: r => r
    | r => r
  eqIgnoreAsciiCase body "inf".toList || eqIgnoreAsciiCase body "infinity".toList ||
    eqIgnoreAsciiCase body "nan".toList || isDecimal body

example : ["12", "-3.5", ".5e-3", "+INF", "4."].all (parsesF64 ·.toList) ∧
    ["", ".", "1e", "12 ", "longtemps"].all (!parsesF64 ·.toList) := by decide

end Str

end AthenaVoice.Lib
