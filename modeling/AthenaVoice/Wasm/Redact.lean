import AthenaVoice.Lib.Levels
import AthenaVoice.Lib.Replace
import AthenaVoice.Lib.Str

/-
  Query values in error texts — `wasm/host_fns.rs`

  An error text of the HTTP client has the request's URL in it.
  `redact_query_values` takes the values of the query one after the other and
  replaces each wherever it finds it: in the host and the path, in the text
  around the URL, in another value, in the marker it put in before.

  What it is for replaces each value where it stands. The text is cut at its
  `&`, which no value contains; a `Piece` holds at most one value.

  What is proved:
    1. `textOf_glue` — the pieces are the text, and redacted one by one they are
       the text redacted.
    2. `redactQueryValues_in_place` — if every value is found at its own place
       only, the text is redacted; and only then, if no value shares a character
       with the marker.
    3. `key_left_behind` — a value that is part of a key: the key stays readable.

  Correspondence (Rust ↔ Lean):
    `url::Url`              `Url`, as it is serialized
    `redact_query_values`   `redactQueryValues`
-/

namespace AthenaVoice.Wasm

open Lib Replace

/-- A URL, serialized: what stands before the query, the query, the fragment. -/
structure Url where
  head : Text
  query : Option Text
  fragment : Option Text
  deriving DecidableEq, Repr

def MARKER : Text := "REDACTED".toList

/-- A value of the query, from its pair; an empty one is none. -/
def pairValue (pair : Text) : Option Text :=
  match Str.splitOnce "=".toList pair with
  | some (_, value) => if value.isEmpty then none else some value
  | none => none

def redactQueryValues (text : Text) (url : Url) : Text :=
  match url.query with
  | none => text
  | some query =>
    (query.splitOn '&').foldl
      (fun out pair =>
        match pairValue pair with
        | some value => replace value MARKER out
        | none => out)
      text

/-! ## What it is for -/

namespace Url

def tail (url : Url) : Text :=
  match url.fragment with
  | some fragment => '#' :: fragment
  | none => []

def display (url : Url) : Text :=
  match url.query with
  | some query => url.head ++ '?' :: query ++ url.tail
  | none => url.head ++ url.tail

/-- A pair with its value replaced. -/
def redactPair (pair : Text) : Text :=
  match Str.splitOnce "=".toList pair with
  | some (name, value) => if value.isEmpty then pair else name ++ "=".toList ++ MARKER
  | none => pair

/-- The URL with its query values replaced, and nothing else. -/
def redacted (url : Url) : Text :=
  match url.query with
  | some query => url.head ++ '?' :: ['&'].intercalate ((query.splitOn '&').map redactPair) ++ url.tail
  | none => url.head ++ url.tail

/-- The values of the query, in its order. -/
def values (url : Url) : List Text :=
  match url.query with
  | some query => (query.splitOn '&').filterMap pairValue
  | none => []

end Url

/-! ## Pieces -/

/-- What lies between two `&` of a text, and the value in it, if any. -/
structure Piece where
  left : Text
  value : Text
  right : Text
  deriving DecidableEq, Repr

namespace Piece

def text (p : Piece) : Text := p.left ++ p.value ++ p.right

def redacted (p : Piece) : Text := if p.value = [] then p.text else p.left ++ MARKER ++ p.right

def plain (t : Text) : Piece := ⟨t, [], []⟩

def ofPair (pair : Text) : Piece :=
  match Str.splitOnce "=".toList pair with
  | some (name, value) => ⟨name ++ "=".toList, value, []⟩
  | none => plain pair

/-- Two pieces with nothing between them, one of them plain. -/
def join (p q : Piece) : Piece :=
  if p.value = [] then ⟨p.text ++ q.left, q.value, q.right⟩ else ⟨p.left, p.value, p.right ++ q.text⟩

/-- Every value is found at its own place only, as far as this piece goes. -/
def InPlace (values : List Text) (p : Piece) : Prop :=
  if p.value = [] then ∀ v ∈ values, v = MARKER ∨ ¬ v <:+: p.text
  else Clean MARKER values p.left p.value p.right

end Piece

/-- The pieces of a text without values. -/
def cut (t : Text) : List Piece := (t.splitOn '&').map .plain

def glue : List Piece → List Piece → List Piece
  | [], qs => qs
  | [p], [] => [p]
  | [p], q :: qs => p.join q :: qs
  | p :: p' :: ps, qs => p :: glue (p' :: ps) qs

/-- The text of pieces, each written by `f`. -/
def textOf (f : Piece → Text) (ps : List Piece) : Text := ['&'].intercalate (ps.map f)

/-- The pieces of a text that has the URL in it. -/
def Url.pieces (url : Url) (before after : Text) : List Piece :=
  match url.query with
  | some query =>
    glue (glue (cut (before ++ url.head ++ ['?'])) ((query.splitOn '&').map .ofPair)) (cut (url.tail ++ after))
  | none => cut (before ++ url.display ++ after)

/-! ## The pieces are the text -/

namespace Piece

theorem text_plain (t : Text) : (plain t).text = t := by
  show t ++ [] ++ [] = t
  rw [List.append_nil, List.append_nil]

theorem text_join (p q : Piece) : (p.join q).text = p.text ++ q.text := by
  unfold join
  split
  · show p.text ++ q.left ++ q.value ++ q.right = _
    simp only [text, List.append_assoc]
  · show p.left ++ p.value ++ (p.right ++ q.text) = _
    rw [← List.append_assoc]
    rfl

theorem redacted_join {p q : Piece} (h : p.value = [] ∨ q.value = []) :
    (p.join q).redacted = p.redacted ++ q.redacted := by
  by_cases hp : p.value = []
  · have hjoin : p.join q = ⟨p.text ++ q.left, q.value, q.right⟩ := if_pos hp
    by_cases hq : q.value = []
    · rw [redacted, redacted, redacted, if_pos hp, if_pos hq, text_join, hjoin, if_pos hq]
    · rw [redacted, redacted, redacted, if_pos hp, if_neg hq, hjoin, if_neg hq]
      simp only [List.append_assoc]
  · have hq : q.value = [] := h.resolve_left hp
    have hjoin : p.join q = ⟨p.left, p.value, p.right ++ q.text⟩ := if_neg hp
    rw [redacted, redacted, redacted, if_neg hp, if_pos hq, hjoin, if_neg hp]
    simp only [List.append_assoc]

theorem text_ofPair (pair : Text) : (ofPair pair).text = pair := by
  unfold ofPair
  split
  · rename_i name value hsplit
    rw [Str.splitOnce_eq_some hsplit, text, List.append_nil]
  · exact text_plain pair

theorem redacted_ofPair (pair : Text) : (ofPair pair).redacted = Url.redactPair pair := by
  have htext := text_ofPair pair
  unfold ofPair Url.redactPair at *
  split
  · rename_i name value hsplit
    rw [hsplit] at htext
    by_cases hvalue : value = []
    · rw [if_pos (List.isEmpty_iff.mpr hvalue), redacted, if_pos hvalue]
      exact htext
    · rw [if_neg (fun h => hvalue (List.isEmpty_iff.mp h)), redacted, if_neg hvalue]
      exact List.append_nil _
  · show (plain pair).text = pair
    exact text_plain pair

theorem value_ofPair (pair : Text) : (ofPair pair).value = [] ∨ pairValue pair = some (ofPair pair).value := by
  unfold ofPair pairValue
  split
  · rename_i name value hsplit
    by_cases hvalue : value = []
    · exact .inl hvalue
    · right
      rw [if_neg (fun h => hvalue (List.isEmpty_iff.mp h))]
  · exact .inl rfl

end Piece

section

variable {f : Piece → Text}

theorem textOf_singleton (p : Piece) : textOf f [p] = f p := List.intercalate_singleton

theorem textOf_cons {p : Piece} {ps : List Piece} (h : ps ≠ []) : textOf f (p :: ps) = f p ++ '&' :: textOf f ps := by
  obtain ⟨q, qs, rfl⟩ := List.exists_cons_of_ne_nil h
  rw [textOf, List.map_cons, List.map_cons, List.intercalate_cons_cons, List.append_assoc]
  rfl

theorem glue_ne_nil {ps qs : List Piece} (h : ps ≠ []) : glue ps qs ≠ [] := by
  fun_cases glue ps qs with
  | case1 => exact absurd rfl h
  | case2 => exact List.cons_ne_nil _ _
  | case3 => exact List.cons_ne_nil _ _
  | case4 => exact List.cons_ne_nil _ _

/-- Pieces put together are the texts put together, if joined pieces are. -/
theorem textOf_glue {ps qs : List Piece} (hps : ps ≠ []) (hqs : qs ≠ [])
    (hf : ∀ p ∈ ps, ∀ q ∈ qs, f (p.join q) = f p ++ f q) :
    textOf f (glue ps qs) = textOf f ps ++ textOf f qs := by
  fun_induction glue ps qs with
  | case1 => exact absurd rfl hps
  | case2 => exact absurd rfl hqs
  | case3 p q qs =>
    have hjoin := hf p List.mem_cons_self q List.mem_cons_self
    cases qs with
    | nil => rw [textOf_singleton, textOf_singleton, textOf_singleton, hjoin]
    | cons q' qs =>
      rw [textOf_cons (List.cons_ne_nil q' qs), textOf_cons (List.cons_ne_nil q' qs), textOf_singleton, hjoin,
        List.append_assoc]
  | case4 p p' ps qs ih =>
    have hrest := ih (List.cons_ne_nil p' ps) hqs (fun r hr => hf r (List.mem_cons_of_mem p hr))
    rw [textOf_cons (glue_ne_nil (List.cons_ne_nil p' ps)), textOf_cons (List.cons_ne_nil p' ps), hrest,
      List.append_assoc, List.cons_append]

end

theorem mem_glue {ps qs : List Piece} {r : Piece} (h : r ∈ glue ps qs) :
    r ∈ ps ∨ r ∈ qs ∨ ∃ p ∈ ps, ∃ q ∈ qs, r = p.join q := by
  fun_induction glue ps qs with
  | case1 => exact .inr (.inl h)
  | case2 => exact .inl h
  | case3 p q qs =>
    rcases List.mem_cons.mp h with h | h
    · exact .inr (.inr ⟨p, List.mem_cons_self, q, List.mem_cons_self, h⟩)
    · exact .inr (.inl (List.mem_cons_of_mem q h))
  | case4 p p' ps qs ih =>
    rcases List.mem_cons.mp h with h | h
    · exact .inl (h ▸ List.mem_cons_self)
    · rcases ih h with h | h | ⟨x, hx, y, hy, hr⟩
      · exact .inl (List.mem_cons_of_mem p h)
      · exact .inr (.inl h)
      · exact .inr (.inr ⟨x, List.mem_cons_of_mem p hx, y, hy, hr⟩)

/-! ## The pieces of a text with a URL in it -/

theorem cut_ne_nil (t : Text) : cut t ≠ [] := by
  intro h
  exact List.splitOn_ne_nil '&' t (List.map_eq_nil_iff.mp h)

theorem value_cut {t : Text} {p : Piece} (h : p ∈ cut t) : p.value = [] := by
  obtain ⟨part, -, rfl⟩ := List.mem_map.mp h
  rfl

theorem textOf_cut {f : Piece → Text} (hf : ∀ t, f (.plain t) = t) (t : Text) : textOf f (cut t) = t := by
  have hmap : (cut t).map f = t.splitOn '&' := by
    rw [cut, List.map_map]
    exact (List.map_congr_left (fun part _ => hf part)).trans (List.map_id _)
  rw [textOf, hmap, List.intercalate_splitOn]

theorem textOf_around {f : Piece → Text} {g : Text → Text} (hplain : ∀ t, f (.plain t) = t)
    (hpair : ∀ pair, f (.ofPair pair) = g pair)
    (hjoin : ∀ p q : Piece, p.value = [] ∨ q.value = [] → f (p.join q) = f p ++ f q) (a query b : Text) :
    textOf f (glue (glue (cut a) ((query.splitOn '&').map .ofPair)) (cut b)) =
      a ++ ['&'].intercalate ((query.splitOn '&').map g) ++ b := by
  have hquery : (query.splitOn '&').map Piece.ofPair ≠ [] :=
    fun h => List.splitOn_ne_nil '&' query (List.map_eq_nil_iff.mp h)
  have hpairs : textOf f ((query.splitOn '&').map .ofPair) = ['&'].intercalate ((query.splitOn '&').map g) := by
    rw [textOf, List.map_map]
    exact congrArg ['&'].intercalate (List.map_congr_left (fun pair _ => hpair pair))
  rw [textOf_glue (glue_ne_nil (cut_ne_nil a)) (cut_ne_nil b) (fun p _ q hq => hjoin p q (.inr (value_cut hq))),
    textOf_glue (cut_ne_nil a) hquery (fun p hp q _ => hjoin p q (.inl (value_cut hp))), textOf_cut hplain,
    textOf_cut hplain, hpairs]

variable (url : Url) (before after : Text)

theorem text_pieces : textOf Piece.text (url.pieces before after) = before ++ url.display ++ after := by
  unfold Url.pieces Url.display
  cases url.query with
  | none => exact textOf_cut Piece.text_plain _
  | some query =>
    show textOf Piece.text (glue (glue _ _) _) = _
    rw [textOf_around Piece.text_plain Piece.text_ofPair (fun p q _ => p.text_join q), List.map_id',
      List.intercalate_splitOn]
    simp only [List.append_assoc, List.cons_append, List.nil_append]

theorem redacted_pieces : textOf Piece.redacted (url.pieces before after) = before ++ url.redacted ++ after := by
  have hplain : ∀ t, (Piece.plain t).redacted = t := Piece.text_plain
  unfold Url.pieces Url.redacted
  cases hquery : url.query with
  | none =>
    rw [Url.display, hquery]
    exact textOf_cut hplain _
  | some query =>
    show textOf Piece.redacted (glue (glue _ _) _) = _
    rw [textOf_around hplain Piece.redacted_ofPair (fun p q => Piece.redacted_join)]
    simp only [List.append_assoc, List.cons_append, List.nil_append]

theorem pairValue_eq_some {pair value : Text} (h : pairValue pair = some value) :
    value ≠ [] ∧ ∃ name, pair = name ++ "=".toList ++ value := by
  unfold pairValue at h
  split at h
  · rename_i name v hsplit
    split at h
    · cases h
    · rename_i hvalue
      cases h
      exact ⟨fun h => hvalue (List.isEmpty_iff.mpr h), name, Str.splitOnce_eq_some hsplit⟩
  · cases h

theorem Url.mem_values {v : Text} (h : v ∈ url.values) : v ≠ [] ∧ '&' ∉ v := by
  unfold Url.values at h
  split at h
  · obtain ⟨pair, hpair, hv⟩ := List.mem_filterMap.mp h
    obtain ⟨hne, name, rfl⟩ := pairValue_eq_some hv
    exact ⟨hne, fun hamp => Levels.not_mem_of_mem_splitOn hpair (List.mem_append_right _ hamp)⟩
  · cases h

/-- A piece has no `&`, and what it holds is a value. -/
def Piece.Holds (values : List Text) (p : Piece) : Prop := '&' ∉ p.text ∧ (p.value = [] ∨ p.value ∈ values)

theorem holds_cut {values : List Text} {t : Text} {p : Piece} (h : p ∈ cut t) : p.Holds values := by
  refine ⟨?_, .inl (value_cut h)⟩
  obtain ⟨part, hpart, rfl⟩ := List.mem_map.mp h
  rw [Piece.text_plain]
  exact Levels.not_mem_of_mem_splitOn hpart

theorem Piece.Holds.join {values : List Text} {p q : Piece} (hp : p.Holds values) (hq : q.Holds values) :
    (p.join q).Holds values := by
  refine ⟨?_, ?_⟩
  · rw [Piece.text_join, List.mem_append, not_or]
    exact ⟨hp.1, hq.1⟩
  · unfold Piece.join
    split
    · exact hq.2
    · exact hp.2

theorem holds_glue {values : List Text} {ps qs : List Piece} (hps : ∀ p ∈ ps, p.Holds values)
    (hqs : ∀ q ∈ qs, q.Holds values) : ∀ r ∈ glue ps qs, r.Holds values := by
  intro r hr
  rcases mem_glue hr with h | h | ⟨p, hp, q, hq, rfl⟩
  · exact hps r h
  · exact hqs r h
  · exact (hps p hp).join (hqs q hq)

theorem holds_pieces : ∀ p ∈ url.pieces before after, p.Holds url.values := by
  unfold Url.pieces Url.values
  cases url.query with
  | none => exact fun p => holds_cut
  | some query =>
    refine holds_glue (holds_glue (fun p => holds_cut) ?_) (fun p => holds_cut)
    intro p hp
    obtain ⟨pair, hpair, rfl⟩ := List.mem_map.mp hp
    refine ⟨?_, ?_⟩
    · rw [Piece.text_ofPair]
      exact Levels.not_mem_of_mem_splitOn hpair
    · exact (Piece.value_ofPair pair).imp_right (fun h => List.mem_filterMap.mpr ⟨pair, hpair, h⟩)

/-! ## The function -/

theorem redactQueryValues_eq (text : Text) : redactQueryValues text url = replaceAll MARKER url.values text := by
  unfold redactQueryValues Url.values replaceAll
  cases url.query with
  | none => rfl
  | some query =>
    rw [List.foldl_filterMap]
    apply congrFun (congrFun (congrArg List.foldl ?_) text)
    funext out pair
    cases pairValue pair <;> rfl

theorem Piece.InPlace.redacts {values : List Text} (hvalues : ∀ v ∈ values, v ≠ []) {p : Piece}
    (hp : p.Holds values) (h : p.InPlace values) : replaceAll MARKER values p.text = p.redacted := by
  unfold Piece.InPlace at h
  unfold Piece.redacted
  split at h
  · rename_i hvalue
    rw [if_pos hvalue]
    exact replaceAll_of_absent hvalues h
  · rename_i hvalue
    rw [if_neg hvalue]
    exact replaceAll_of_clean hvalues (hp.2.resolve_left hvalue) h

theorem Piece.inPlace_of_redacts {values : List Text} (hvalues : ∀ v ∈ values, Foreign MARKER v) {p : Piece}
    (hp : p.Holds values) (h : replaceAll MARKER values p.text = p.redacted) : p.InPlace values := by
  have hmark : 'R' ∈ MARKER := by decide
  unfold Piece.redacted at h
  unfold Piece.InPlace
  split at h
  · rename_i hvalue
    rw [if_pos hvalue]
    intro v hv
    refine .inr (absent_of_count hmark ?_ (Nat.le_of_eq (congrArg _ h)) v hv)
    exact fun w hw => ⟨(hvalues w hw).1, fun hR => (hvalues w hw).2 'R' hR hmark⟩
  · rename_i hvalue
    rw [if_neg hvalue]
    exact clean_of_replaceAll (by decide) hvalues (hvalues p.value (hp.2.resolve_left hvalue)) h

theorem redactQueryValues_iff :
    redactQueryValues (before ++ url.display ++ after) url = before ++ url.redacted ++ after ↔
      ∀ p ∈ url.pieces before after, replaceAll MARKER url.values p.text = p.redacted := by
  have hvalues : ∀ v ∈ url.values, v ≠ [] ∧ '&' ∉ v := fun v => url.mem_values
  have hne : url.pieces before after ≠ [] := by
    unfold Url.pieces
    split
    · exact glue_ne_nil (glue_ne_nil (cut_ne_nil _))
    · exact cut_ne_nil _
  have hrun : redactQueryValues (before ++ url.display ++ after) url =
      textOf (fun p => replaceAll MARKER url.values p.text) (url.pieces before after) := by
    rw [redactQueryValues_eq, ← text_pieces, textOf, textOf, replaceAll_intercalate hvalues, List.map_map]
    rfl
  rw [hrun, ← redacted_pieces]
  refine ⟨?_, ?_⟩
  · intro h
    -- no piece has an ampersand, before or after, so joining them can be undone
    have hamp : ∀ p ∈ url.pieces before after, '&' ∉ p.text := fun p hp => (holds_pieces url before after p hp).1
    have hsplit := congrArg (List.splitOn '&') h
    unfold textOf at hsplit
    rw [List.splitOn_intercalate '&' ?_ (by simpa using hne),
      List.splitOn_intercalate '&' ?_ (by simpa using hne)] at hsplit
    · exact List.map_inj_left.mp hsplit
    · intro part hpart
      obtain ⟨p, hp, rfl⟩ := List.mem_map.mp hpart
      unfold Piece.redacted
      split
      · exact hamp p hp
      · have hp' := hamp p hp
        simp only [Piece.text, List.mem_append, not_or] at hp' ⊢
        exact ⟨⟨hp'.1.1, by decide⟩, hp'.2⟩
    · intro part hpart hmem
      obtain ⟨p, hp, rfl⟩ := List.mem_map.mp hpart
      rcases mem_replaceAll (fun v hv => (hvalues v hv).1) hmem with h | h
      · exact hamp p hp h
      · exact absurd h (by decide)
  · intro h
    exact congrArg ['&'].intercalate (List.map_congr_left h)

/-- Every value of the query is found, at its turn, at its own place only. -/
def Url.InPlace : Prop := ∀ p ∈ url.pieces before after, p.InPlace url.values

/-- The query values are redacted, and nothing else, if every value is found at
its own place only; and only then, if no value shares a character with the
marker. -/
theorem redactQueryValues_in_place :
    (url.InPlace before after →
      redactQueryValues (before ++ url.display ++ after) url = before ++ url.redacted ++ after) ∧
    ((∀ v ∈ url.values, ∀ c ∈ v, c ∉ MARKER) →
      redactQueryValues (before ++ url.display ++ after) url = before ++ url.redacted ++ after →
        url.InPlace before after) := by
  have hvalues : ∀ v ∈ url.values, v ≠ [] := fun v hv => (url.mem_values hv).1
  rw [redactQueryValues_iff]
  refine ⟨?_, ?_⟩
  · intro h p hp
    exact (h p hp).redacts hvalues (holds_pieces url before after p hp)
  · intro hforeign h p hp
    exact Piece.inPlace_of_redacts (fun v hv => ⟨hvalues v hv, hforeign v hv⟩)
      (holds_pieces url before after p hp) (h p hp)

-- each value at its own place, and the text is redacted; not so where the text around has a value in it
theorem key_and_command_redacted : ∃ url : Url, url.display = "http://jeedom/api?id=4&apikey=s3cr".toList ∧
    ¬ url.InPlace [] " 4".toList ∧ url.InPlace [] [] ∧
      redactQueryValues ([] ++ url.display ++ []) url = "http://jeedom/api?id=REDACTED&apikey=REDACTED".toList := by
  let url : Url := ⟨"http://jeedom/api".toList, some "id=4&apikey=s3cr".toList, none⟩
  have hvalues : (url.values.all fun v => v.all fun c => !MARKER.contains c) = true := by decide
  have hforeign : ∀ v ∈ url.values, ∀ c ∈ v, c ∉ MARKER := by
    intro v hv c hc hmark
    have hnot := List.all_eq_true.mp (List.all_eq_true.mp hvalues v hv) c hc
    rw [List.contains_iff_mem.mpr hmark] at hnot
    cases hnot
  have hplace : url.InPlace [] [] := (redactQueryValues_in_place url [] []).2 hforeign (by decide)
  refine ⟨url, by decide, ?_, hplace, (redactQueryValues_in_place url [] []).1 hplace⟩
  exact fun h => absurd ((redactQueryValues_in_place url [] " 4".toList).1 h) (by decide)

-- what one value cuts up, a later one may put right
example : redactQueryValues "h?x=b&y=abc&z=aREDACTEDc".toList
    ⟨"h".toList, some "x=b&y=abc&z=aREDACTEDc".toList, none⟩ = "h?x=REDACTED&y=REDACTED&z=REDACTED".toList := by
  decide

/-- The command's number is a digit of the key: the key is cut up, and what is
left of it stays readable. -/
theorem key_left_behind : ∃ url : Url, url.display = "http://jeedom/api?id=4&apikey=s4cr".toList ∧
    redactQueryValues ([] ++ url.display ++ []) url = "http://jeedom/api?id=REDACTED&apikey=sREDACTEDcr".toList ∧
      redactQueryValues ([] ++ url.display ++ []) url ≠ [] ++ url.redacted ++ [] :=
  ⟨⟨"http://jeedom/api".toList, some "id=4&apikey=s4cr".toList, none⟩, by decide⟩

end AthenaVoice.Wasm
