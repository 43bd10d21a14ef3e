import Mathlib.Data.List.TakeWhile
import AthenaVoice.Lib.Str

/-
  Words and white space

  A text read word by word, and read without its white space. Trimming loses
  nothing but white space; words written with one space between them are read
  as they were.

  What is proved:
    1. `solid_trim`, `trim_trim` — what trimming leaves.
    2. `mem_splitWhitespace` — a word has a character and no white space.
    3. `splitWhitespace_join` — words joined are split again.
    4. `join_of_ends_solid` — a start of joined words that ends in no white space
       is joined words again.
-/

namespace AthenaVoice.Lib.Str

/-- The text without its white space. -/
def solid (s : Text) : Text := s.filter (fun c => !isWhitespace c)

theorem solid_append (s t : Text) : solid (s ++ t) = solid s ++ solid t := List.filter_append ..

/-! ## Trimming -/

theorem solid_trimStart (s : Text) : solid (trimStart s) = solid s := by
  induction s with
  | nil => rfl
  | cons c s ih =>
    by_cases hc : isWhitespace c = true
    · rw [trimStart, List.dropWhile_cons_of_pos hc]
      exact ih.trans (List.filter_cons_of_neg (by simpa using hc)).symm
    · rw [trimStart, List.dropWhile_cons_of_neg hc]

theorem trimEnd_reverse (s : Text) : trimEnd s = (trimStart s.reverse).reverse := rfl

theorem solid_trimEnd (s : Text) : solid (trimEnd s) = solid s := by
  rw [trimEnd_reverse, solid, List.filter_reverse]
  show (solid (trimStart s.reverse)).reverse = _
  rw [solid_trimStart, solid, List.filter_reverse, List.reverse_reverse]
  rfl

/-- Trimming loses nothing but white space. -/
theorem solid_trim (s : Text) : solid (trim s) = solid s := (solid_trimEnd _).trans (solid_trimStart s)

theorem trim_eq_nil_iff {s : Text} : trim s = [] ↔ solid s = [] := by
  rw [← solid_trim s]
  constructor
  · intro h
    rw [h]
    rfl
  · intro h
    have hall : ∀ c ∈ trim s, isWhitespace c = true := by
      intro c hc
      by_contra hnot
      have hmem : c ∈ solid (trim s) := List.mem_filter.mpr ⟨hc, by simpa using hnot⟩
      rw [h] at hmem
      cases hmem
    by_contra hne
    exact List.rdropWhile_last_not isWhitespace (trimStart s) hne (hall _ (List.getLast_mem hne))

theorem trimEnd_trim (s : Text) : trimEnd (trim s) = trim s := List.rdropWhile_idempotent _ _

theorem trimStart_trim (s : Text) : trimStart (trim s) = trim s := by
  apply List.dropWhile_eq_self_iff.mpr
  intro hpos
  have hpre : trim s <+: trimStart s := List.rdropWhile_prefix _ _
  have hpos' : 0 < (trimStart s).length := Nat.lt_of_lt_of_le hpos hpre.length_le
  have hhead : (trim s)[0] = (trimStart s)[0] := hpre.getElem hpos
  rw [hhead]
  exact List.dropWhile_get_zero_not isWhitespace s _

theorem trim_trim (s : Text) : trim (trim s) = trim s := by
  show trimEnd (trimStart (trim s)) = trim s
  rw [trimStart_trim, trimEnd_trim]

/-! ## Words -/

def IsWord (w : Text) : Prop := w ≠ [] ∧ ∀ c ∈ w, isWhitespace c = false

theorem mem_splitWhitespaceFrom : ∀ (s cur w : Text), (∀ c ∈ cur, isWhitespace c = false) →
    w ∈ splitWhitespaceFrom cur s → IsWord w := by
  have hlast : ∀ cur w : Text, (∀ c ∈ cur, isWhitespace c = false) →
    w ∈ (if cur.isEmpty then [] else [cur]) → IsWord w := by
    intro cur w hcur hw
    cases cur with
    | nil => cases hw
    | cons c cur =>
      rw [List.mem_singleton.mp hw]
      exact ⟨List.cons_ne_nil c cur, hcur⟩
  intro s
  induction s with
  | nil =>
    intro cur w hcur hw
    exact hlast cur w hcur hw
  | cons c s ih =>
    intro cur w hcur hw
    rw [splitWhitespaceFrom] at hw
    by_cases hc : isWhitespace c = true
    · rw [if_pos hc] at hw
      rcases List.mem_append.mp hw with hw | hw
      · exact hlast cur w hcur hw
      · exact ih [] w (fun d hd => (by cases hd)) hw
    · rw [if_neg hc] at hw
      apply ih (cur ++ [c]) w _ hw
      intro d hd
      rcases List.mem_append.mp hd with hd | hd
      · exact hcur d hd
      · rw [List.mem_singleton.mp hd]
        simpa using hc

theorem mem_splitWhitespace {s w : Text} (hw : w ∈ splitWhitespace s) : IsWord w :=
  mem_splitWhitespaceFrom s [] w (fun c hc => (by cases hc)) hw

theorem splitWhitespaceFrom_append : ∀ (w cur s : Text), (∀ c ∈ w, isWhitespace c = false) →
    splitWhitespaceFrom cur (w ++ s) = splitWhitespaceFrom (cur ++ w) s := by
  intro w
  induction w with
  | nil =>
    intro cur s _
    rw [List.append_nil]
    rfl
  | cons c w ih =>
    intro cur s hw
    have hc : isWhitespace c = false := hw c List.mem_cons_self
    rw [List.cons_append, splitWhitespaceFrom, hc, if_neg (by decide),
      ih _ _ (fun d hd => hw d (List.mem_cons_of_mem c hd)),
      List.append_assoc]
    rfl

theorem splitWhitespace_word {w : Text} (hw : IsWord w) (s : Text) :
    splitWhitespace (w ++ ' ' :: s) = w :: splitWhitespace s := by
  rw [splitWhitespace, splitWhitespaceFrom_append w [] _ hw.2, List.nil_append, splitWhitespaceFrom, if_pos (by decide),
    if_neg (by simpa using hw.1)]
  rfl

theorem splitWhitespace_single {w : Text} (hw : IsWord w) : splitWhitespace w = [w] := by
  have hsplit := splitWhitespaceFrom_append w [] [] hw.2
  rw [List.append_nil] at hsplit
  rw [splitWhitespace, hsplit, List.nil_append, splitWhitespaceFrom, if_neg (by simpa using hw.1)]

theorem join_cons (w v : Text) (ws : List Text) : join [' '] (w :: v :: ws) = w ++ ' ' :: join [' '] (v :: ws) := by
  rw [join, List.intercalate_cons_cons, List.append_assoc]
  rfl

/-- **Words joined** by single spaces are split again. -/
theorem splitWhitespace_join : ∀ {ws : List Text}, (∀ w ∈ ws, IsWord w) →
    splitWhitespace (join [' '] ws) = ws := by
  intro ws
  induction ws with
  | nil =>
    intro _
    rfl
  | cons w ws ih =>
    intro hws
    have hw := hws w List.mem_cons_self
    cases ws with
    | nil => exact (congrArg splitWhitespace List.intercalate_singleton).trans (splitWhitespace_single hw)
    | cons v ws =>
      rw [join_cons, splitWhitespace_word hw, ih (fun x hx => hws x (List.mem_cons_of_mem w hx))]

/-- Nothing, or a text that ends in no white space. -/
def EndsSolid (s : Text) : Prop := ∀ c, s.getLast? = some c → isWhitespace c = false

theorem IsWord.start {w r : Text} (hw : IsWord w) (hr : r <+: w) : ∃ vs, (∀ v ∈ vs, IsWord v) ∧
    r = join [' '] vs := by
  by_cases hne : r = []
  · exact ⟨[], fun v hv => (by cases hv), hne⟩
  · refine ⟨[r], fun v hv => ?_, List.intercalate_singleton.symm⟩
    rw [List.mem_singleton.mp hv]
    exact ⟨hne, fun c hc => hw.2 c (hr.subset hc)⟩

/-- **A start** of joined words that ends in no white space is joined words. -/
theorem join_of_ends_solid : ∀ {ws : List Text} {r : Text}, (∀ w ∈ ws, IsWord w) →
    r <+: join [' '] ws → EndsSolid r →
    ∃ vs, (∀ v ∈ vs, IsWord v) ∧ r = join [' '] vs := by
  intro ws
  -- by the words, each taken off the front
  induction ws with
  | nil =>
    intro r _ hr _
    exact ⟨[], fun v hv => (by cases hv), List.prefix_nil.mp hr⟩
  | cons w ws ih =>
    intro r hws hr hends
    have hw := hws w List.mem_cons_self
    cases ws with
    | nil =>
      apply hw.start
      rwa [join, List.intercalate_singleton] at hr
    | cons v ws =>
      rw [join_cons] at hr
      obtain ⟨z, hz⟩ := hr
      rcases List.append_eq_append_iff.mp hz with ⟨a, ha, -⟩ | ⟨t, ht, hrest⟩
      · exact hw.start ⟨a, ha.symm⟩
      · -- the start goes past the first word
        cases t with
        | nil =>
          rw [List.append_nil] at ht
          exact hw.start (ht ▸ List.prefix_rfl)
        | cons c t =>
          obtain ⟨rfl, hjoin⟩ := List.cons.inj hrest
          by_cases ht' : t = []
          · have hspace := hends ' ' (by rw [ht, ht', List.getLast?_concat])
            exact absurd hspace (by decide)
          · have hends' : EndsSolid t := by
              intro d hd
              apply hends d
              rw [ht, List.getLast?_append, List.getLast?_cons_of_ne_nil ht', hd]
              rfl
            obtain ⟨vs, hvs, hjoined⟩ :=
              ih (fun x hx => hws x (List.mem_cons_of_mem w hx)) ⟨z, hjoin.symm⟩ hends'
            cases vs with
            | nil => exact absurd hjoined ht'
            | cons u us =>
              refine ⟨w :: u :: us, ?_, ?_⟩
              · intro x hx
                rcases List.mem_cons.mp hx with rfl | hx
                · exact hw
                · exact hvs x hx
              · rw [join_cons, ← hjoined, ht]

end AthenaVoice.Lib.Str
