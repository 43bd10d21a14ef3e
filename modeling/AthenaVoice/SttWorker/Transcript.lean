import AthenaVoice.Lib.Spans

/-
  Cleaned transcripts — `athena-voice-stt-worker/src/main.rs` (`clean_transcript`)

  The words of whisper's output are joined again without those that are an
  annotation each, a word in square or in round brackets; then punctuation and
  white space are taken off the end. The function drops annotations of one word
  only, and those before it takes punctuation off.

  What is proved:
    1. `ends_clean` — nothing to be taken off is left at the end.
    2. `not_spans_cleanTranscript` — what is left contains no annotation exactly
       when no bracket is closed in the words that are none.
    3. `cleaned_iff` — and exactly then it is clean, and cleaning it again
       changes nothing.

  Correspondence (Rust ↔ Lean):
    `clean_transcript`                    `cleanTranscript`, its words `keptWords`
    `starts_with(o) && ends_with(c)`      `bracketed o c`
    the `while let` loop                  `rdropWhile isTrailing`
-/

namespace AthenaVoice.SttWorker

open Lib Str

/-- The word starts with `o` and ends with `c`. -/
def bracketed (o c : Char) (w : Text) : Bool := w.head? == some o && w.getLast? == some c

def isTrailing (c : Char) : Bool := ['.', '!', '?', '…', ','].contains c || isWhitespace c

/-- The words that pass both filters. -/
def keptWords (raw : Text) : List Text :=
  ((splitWhitespace raw).filter (fun w => !bracketed '[' ']' w)).filter (fun w => !bracketed '(' ')' w)

def cleanTranscript (raw : Text) : Text := (join [' '] (keptWords raw)).rdropWhile isTrailing

example : cleanTranscript "(bruit) bonjour…".toList = "bonjour".toList ∧
    cleanTranscript "  Quel heure est-il ?\n".toList = "Quel heure est-il".toList := by decide

/-! ## What is promised -/

/-- **A clean transcript** of the output: no annotation in brackets, of one word or
of several, nothing to be taken off at the end, and clean for good. -/
structure Cleaned (raw : Text) : Prop where
  square : ¬ Spans '[' ']' (cleanTranscript raw)
  round : ¬ Spans '(' ')' (cleanTranscript raw)
  ends : ∀ c, (cleanTranscript raw).getLast? = some c → isTrailing c = false
  again : cleanTranscript (cleanTranscript raw) = cleanTranscript raw

/-- A word that is an annotation by itself. -/
def isNonSpeech (w : Text) : Bool := bracketed '[' ']' w || bracketed '(' ')' w

/-- No `o` is closed by a `c` in the words of the output that are no annotations,
neither within a word nor in a later one. -/
structure Unclosed (o c : Char) (raw : Text) : Prop where
  within : ∀ w ∈ splitWhitespace raw, isNonSpeech w = false → ¬ Spans o c w
  across : (splitWhitespace raw).Pairwise (fun w v => isNonSpeech w = false → isNonSpeech v = false →
    o ∈ w → c ∉ v)

variable {raw : Text}

/-! ## The words kept -/

theorem keptWords_eq (raw : Text) : keptWords raw = (splitWhitespace raw).filter (fun w => !isNonSpeech w) := by
  unfold keptWords isNonSpeech
  rw [List.filter_filter]
  apply List.filter_congr
  intro w _
  rw [Bool.not_or, Bool.and_comm]

theorem isWord_of_kept {w : Text} (hw : w ∈ keptWords raw) : IsWord w := by
  rw [keptWords_eq] at hw
  exact mem_splitWhitespace (List.mem_of_mem_filter hw)

theorem keptWords_join {ws : List Text} (hws : ∀ w ∈ ws, IsWord w) (hnone : ∀ w ∈ ws, isNonSpeech w = false) :
    keptWords (join [' '] ws) = ws := by
  rw [keptWords_eq, splitWhitespace_join hws]
  apply List.filter_eq_self.mpr
  intro w hw
  rw [hnone w hw]
  rfl

theorem bracketed_spans {o c : Char} (hne : o ≠ c) {w : Text} (h : bracketed o c w = true) : Spans o c w := by
  rw [bracketed, Bool.and_eq_true, beq_iff_eq, beq_iff_eq] at h
  exact spans_of_ends hne h.1 h.2

theorem not_isNonSpeech {w : Text} (hsquare : ¬ Spans '[' ']' w) (hround : ¬ Spans '(' ')' w) :
    isNonSpeech w = false := by
  rw [isNonSpeech, Bool.or_eq_false_iff]
  constructor
  · exact Bool.eq_false_iff.mpr (fun h => hsquare (bracketed_spans (by decide) h))
  · exact Bool.eq_false_iff.mpr (fun h => hround (bracketed_spans (by decide) h))

/-! ## The end -/

/-- Nothing to be taken off is left. -/
theorem ends_clean : ∀ c, (cleanTranscript raw).getLast? = some c → isTrailing c = false := by
  intro c hc
  have hne : cleanTranscript raw ≠ [] := by
    intro hnil
    rw [hnil] at hc
    cases hc
  have hlast := List.rdropWhile_last_not isTrailing (join [' '] (keptWords raw)) hne
  rw [List.getLast?_eq_getLast_of_ne_nil hne] at hc
  rw [← Option.some.inj hc]
  exact Bool.eq_false_iff.mpr hlast

theorem endsSolid_clean : EndsSolid (cleanTranscript raw) := by
  intro c hc
  have hends := ends_clean c hc
  rw [isTrailing, Bool.or_eq_false_iff] at hends
  exact hends.2

theorem not_spans_clean {o c : Char} (hc : isTrailing c = false) :
    ¬ Spans o c (cleanTranscript raw) ↔ ¬ Spans o c (join [' '] (keptWords raw)) := by
  have hsplit : cleanTranscript raw ++ (join [' '] (keptWords raw)).rtakeWhile isTrailing =
    join [' '] (keptWords raw) :=
    List.rdropWhile_append_rtakeWhile
  have htail : c ∉ (join [' '] (keptWords raw)).rtakeWhile isTrailing := by
    intro hmem
    have htrailing := List.mem_rtakeWhile_imp hmem
    rw [hc] at htrailing
    cases htrailing
  constructor
  · intro h
    rw [← hsplit, not_spans_append]
    exact ⟨h, fun hspans => htail (hspans.subset (List.mem_cons_of_mem o List.mem_cons_self)), fun _ => htail⟩
  · intro h
    rw [← hsplit, not_spans_append] at h
    exact h.1

/-- **What is left** contains no `o … c` exactly when no `o` is closed. -/
theorem not_spans_cleanTranscript {o c : Char} (ho : o ≠ ' ') (hc : isTrailing c = false) :
    ¬ Spans o c (cleanTranscript raw) ↔ Unclosed o c raw := by
  have hspace : c ≠ ' ' := by
    rintro rfl
    exact absurd hc (by decide)
  rw [not_spans_clean hc, not_spans_join ho hspace, keptWords_eq, List.pairwise_filter]
  have hkept : ∀ w : Text, (!isNonSpeech w) = true ↔ isNonSpeech w = false := fun w => by rw [Bool.not_eq_true']
  simp only [List.mem_filter, hkept, and_imp]
  exact ⟨fun h => ⟨h.1, h.2⟩, fun h => ⟨h.within, h.across⟩⟩

/-! ## Cleaning again -/

theorem clean_again (hsquare : ¬ Spans '[' ']' (cleanTranscript raw))
    (hround : ¬ Spans '(' ')' (cleanTranscript raw)) :
    cleanTranscript (cleanTranscript raw) = cleanTranscript raw := by
  obtain ⟨ws, hws, hjoin⟩ := join_of_ends_solid (fun w hw => isWord_of_kept hw)
    (List.rdropWhile_prefix isTrailing (join [' '] (keptWords raw))) endsSolid_clean
  have hclean : cleanTranscript raw = join [' '] ws := hjoin
  rw [hclean, not_spans_join (by decide) (by decide)] at hsquare hround
  have hnone : ∀ w ∈ ws, isNonSpeech w = false := fun w hw => not_isNonSpeech (hsquare.1 w hw) (hround.1 w hw)
  calc cleanTranscript (cleanTranscript raw)
      = (join [' '] (keptWords (join [' '] ws))).rdropWhile isTrailing := by rw [hclean]; rfl
    _ = (join [' '] ws).rdropWhile isTrailing := by rw [keptWords_join hws hnone]
    _ = (cleanTranscript raw).rdropWhile isTrailing := by rw [hclean]
    _ = cleanTranscript raw := List.rdropWhile_idempotent isTrailing _

/-- **Cleaning cleans**, for good, exactly the outputs in whose words, annotations
of one word aside, no bracket is closed. -/
theorem cleaned_iff (raw : Text) : Cleaned raw ↔ Unclosed '[' ']' raw ∧ Unclosed '(' ')' raw := by
  constructor
  · intro h
    exact ⟨(not_spans_cleanTranscript (by decide) (by decide)).mp h.square,
      (not_spans_cleanTranscript (by decide) (by decide)).mp h.round⟩
  · intro ⟨hsquare, hround⟩
    have hsquare' := (not_spans_cleanTranscript (by decide) (by decide)).mpr hsquare
    have hround' := (not_spans_cleanTranscript (by decide) (by decide)).mpr hround
    exact ⟨hsquare', hround', ends_clean, clean_again hsquare' hround'⟩

/-- An annotation with a full stop, and one of two words: the first is left, and
dropped when it is cleaned again; the second is left for good. -/
theorem annotations_left :
    ¬ Cleaned "[Musique].".toList ∧ cleanTranscript "[Musique].".toList = "[Musique]".toList ∧
      cleanTranscript "[Musique]".toList = [] ∧
      ¬ Cleaned "[Musique douce]".toList ∧ cleanTranscript "[Musique douce]".toList = "[Musique douce]".toList := by
  refine ⟨?_, by decide, by decide, ?_, by decide⟩
  · intro h
    exact absurd h.square (by decide)
  · intro h
    exact absurd h.square (by decide)

end AthenaVoice.SttWorker
