import AthenaVoice.Lib.Machine
import AthenaVoice.Lib.Words
import AthenaVoice.Pipeline.Router
import AthenaVoice.Pipeline.Sentence

/-
  The sentence buffer over whole runs — `pipeline/sentence.rs`, `router.rs`

  Tokens go in, sentences come out, and what is left over can be taken at any
  time. A sentence is trimmed when it leaves, so white space is the only thing
  that can be lost. The router closes what it has to say with a full stop, so
  that it is not left waiting in the buffer.

  What is proved:
    1. `push_spec`, `take_spec` — what one call does.
    2. `speak_flushes` — what the router says leaves the buffer at once.
    3. `sentences_conserved` — over every run, the sentences and what is left over
       are the tokens, but for white space.
-/

namespace AthenaVoice.Pipeline

open Lib Lib.Str

inductive BufferCall where
  | push (token : Text)
  | take
  deriving DecidableEq, Repr

/-- A token that went in, a sentence that came out. -/
inductive BufferObs where
  | token (t : Text)
  | sentence (s : Text)
  deriving DecidableEq, Repr

def tokensOf (h : List BufferObs) : List Text := h.filterMap (fun | .token t => some t | .sentence _ => none)

def sentencesOf (h : List BufferObs) : List Text := h.filterMap (fun | .sentence s => some s | .token _ => none)

namespace SentenceBuffer

def step (b : SentenceBuffer) : BufferCall → Option (SentenceBuffer × List BufferObs)
  | .push token => some ((b.push token).1, .token token :: ((b.push token).2.map .sentence).toList)
  | .take => some (b.take.1, (b.take.2.map .sentence).toList)

/-- The machine of the two calls. -/
def machine : Machine SentenceBuffer BufferCall BufferObs := { step := step }

/-- The buffer is blank, or below the cap and ends in no sentence boundary. -/
def Settled (b : SentenceBuffer) : Prop :=
  trim b.buf = [] ∨ (len b.buf < 100 ∧ (trimEnd b.buf).getLast?.any isSentenceBoundary = false)

/-! ## One call -/

/-- A sentence that leaves the buffer holds its text, trimmed; the buffer is
empty after it, and settled if none leaves. -/
theorem push_spec (b : SentenceBuffer) (token : Text) :
    (b.push token = (new, some (trim (b.buf ++ token))) ∧ trim (b.buf ++ token) ≠ []) ∨
      (b.push token = (⟨b.buf ++ token⟩, none) ∧ Settled ⟨b.buf ++ token⟩) := by
  unfold push
  simp only
  split
  · rename_i hc
    simp only [Bool.and_eq_true, Bool.not_eq_true', List.isEmpty_eq_false_iff] at hc
    exact Or.inl ⟨rfl, hc.2⟩
  · rename_i hc
    refine Or.inr ⟨rfl, ?_⟩
    by_cases hblank : trim (b.buf ++ token) = []
    · exact Or.inl hblank
    · apply Or.inr
      simp only [Bool.and_eq_true, Bool.or_eq_true, Bool.not_eq_true', List.isEmpty_eq_false_iff, decide_eq_true_eq,
        not_and] at hc
      have hopen : ¬ ((trimEnd (b.buf ++ token)).getLast?.any isSentenceBoundary = true ∨
        len (b.buf ++ token) ≥ 100) :=
        fun hor => hc hor hblank
      constructor
      · show len (b.buf ++ token) < 100
        omega
      · simpa using fun h => hopen (Or.inl h)

/-- What is taken is the text, trimmed, unless that is nothing. -/
theorem take_spec (b : SentenceBuffer) :
    (b.take = (new, some (trim b.buf)) ∧ trim b.buf ≠ []) ∨ (b.take = (new, none) ∧ trim b.buf = []) := by
  unfold take
  simp only
  split
  · rename_i hblank
    exact Or.inr ⟨rfl, List.isEmpty_iff.mp hblank⟩
  · rename_i hsome
    exact Or.inl ⟨rfl, fun hblank => hsome (List.isEmpty_iff.mpr hblank)⟩

theorem settled_push (b : SentenceBuffer) (token : Text) : Settled (b.push token).1 := by
  rcases push_spec b token with ⟨hpush, -⟩ | ⟨hpush, hsettled⟩
  · rw [hpush]
    exact Or.inl rfl
  · rw [hpush]
    exact hsettled

/-! ## What the router says -/

theorem boundary_solid {c : Char} (hc : isSentenceBoundary c = true) : isWhitespace c = false := by
  simp only [isSentenceBoundary, Bool.or_eq_true, beq_iff_eq] at hc
  rcases hc with (rfl | rfl) | rfl <;> decide

theorem ends_of_ensure (text : Text) :
    ∃ start c, ensureSentenceBoundary text = start ++ [c] ∧ isSentenceBoundary c = true := by
  have hlast : ∀ c, text.getLast? = some c → isSentenceBoundary c = true →
      ∃ start c, text = start ++ [c] ∧ isSentenceBoundary c = true := by
    intro c hc hboundary
    obtain ⟨start, hstart⟩ := List.getLast?_eq_some_iff.mp hc
    exact ⟨start, c, hstart, hboundary⟩
  unfold ensureSentenceBoundary
  split
  · rename_i hc
    exact hlast '.' hc rfl
  · rename_i hc
    exact hlast '!' hc rfl
  · rename_i hc
    exact hlast '?' hc rfl
  · exact ⟨text, '.', rfl, rfl⟩

/-- **A token that ends in a boundary** takes the buffer's text with it. -/
theorem push_of_boundary (b : SentenceBuffer) (start : Text) {c : Char} (hc : isSentenceBoundary c = true) :
    b.push (start ++ [c]) = (new, some (trim (b.buf ++ (start ++ [c])))) := by
  rcases push_spec b (start ++ [c]) with ⟨hpush, -⟩ | ⟨-, hsettled⟩
  · exact hpush
  · have hsolid := boundary_solid hc
    have hend : trimEnd (b.buf ++ (start ++ [c])) = b.buf ++ (start ++ [c]) := by
      rw [← List.append_assoc]
      exact List.rdropWhile_concat_neg _ _ _ (by rw [hsolid]; decide)
    rcases hsettled with hblank | ⟨-, hopen⟩
    · have hnone := trim_eq_nil_iff.mp hblank
      have hmem : c ∈ solid (b.buf ++ (start ++ [c])) :=
        List.mem_filter.mpr ⟨List.mem_append_right _ (List.mem_append_right _ List.mem_cons_self), by
          rw [hsolid]; rfl⟩
      rw [hnone] at hmem
      cases hmem
    · have hlast : (b.buf ++ (start ++ [c])).getLast? = some c := by
        rw [← List.append_assoc]
        exact List.getLast?_concat
      rw [hend, hlast, Option.any_some, hc] at hopen
      cases hopen

/-- What the router says leaves the buffer at once. -/
theorem speak_flushes (b : SentenceBuffer) (text : Text) : ∃ sentence,
    b.push (ensureSentenceBoundary text) = (new, some sentence) := by
  obtain ⟨start, c, htext, hc⟩ := ends_of_ensure text
  rw [htext]
  exact ⟨_, push_of_boundary b start hc⟩

/-! ## Runs -/

/-- What went in is what came out and what is left over, but for white space;
sentences are trimmed and not empty; the next push settles the buffer, and what
the router says next leaves it at once. -/
structure Conserved (h : List BufferObs) (b : SentenceBuffer) : Prop where
  text : solid (sentencesOf h).flatten ++ solid b.buf = solid (tokensOf h).flatten
  whole : ∀ s ∈ sentencesOf h, s ≠ [] ∧ trim s = s
  settled : ∀ token, Settled (b.push token).1
  speak : ∀ text, ∃ sentence, b.push (ensureSentenceBoundary text) = (new, some sentence)

/-- What is kept, of which the rest follows. -/
structure Balanced (h : List BufferObs) (b : SentenceBuffer) : Prop where
  text : solid (sentencesOf h).flatten ++ solid b.buf = solid (tokensOf h).flatten
  whole : ∀ s ∈ sentencesOf h, s ≠ [] ∧ trim s = s

theorem Balanced.emit {h : List BufferObs} {b : SentenceBuffer} (B : Balanced h b) (hne : trim b.buf ≠ []) :
    Balanced (h ++ [.sentence (trim b.buf)]) new := by
  have hs : sentencesOf (h ++ [.sentence (trim b.buf)]) = sentencesOf h ++ [trim b.buf] := List.filterMap_append
  have ht : tokensOf (h ++ [.sentence (trim b.buf)]) = tokensOf h :=
    List.filterMap_append.trans (List.append_nil _)
  constructor
  · rw [hs, ht, List.flatten_append, List.flatten_singleton, solid_append, solid_trim]
    exact (List.append_nil _).trans B.text
  · intro s hmem
    rw [hs] at hmem
    rcases List.mem_append.mp hmem with hmem | hmem
    · exact B.whole s hmem
    · rw [List.mem_singleton.mp hmem]
      exact ⟨hne, trim_trim _⟩

theorem Balanced.token {h : List BufferObs} {b : SentenceBuffer} (B : Balanced h b) (t : Text) :
    Balanced (h ++ [.token t]) ⟨b.buf ++ t⟩ := by
  have hs : sentencesOf (h ++ [.token t]) = sentencesOf h := List.filterMap_append.trans (List.append_nil _)
  have ht : tokensOf (h ++ [.token t]) = tokensOf h ++ [t] := List.filterMap_append
  constructor
  · rw [hs, ht, List.flatten_append, List.flatten_singleton]
    calc solid (sentencesOf h).flatten ++ solid (b.buf ++ t)
        = (solid (sentencesOf h).flatten ++ solid b.buf) ++ solid t := by rw [solid_append, List.append_assoc]
      _ = solid (tokensOf h).flatten ++ solid t := by rw [B.text]
      _ = solid ((tokensOf h).flatten ++ t) := (solid_append _ _).symm
  · rw [hs]
    exact B.whole

theorem Balanced.blank {h : List BufferObs} {b : SentenceBuffer} (B : Balanced h b) (hblank : trim b.buf = []) :
    Balanced h new := by
  refine ⟨?_, B.whole⟩
  rw [← B.text, trim_eq_nil_iff.mp hblank]
  rfl

/-- **One call.** -/
theorem balanced_step {h o : List BufferObs} {b b' : SentenceBuffer} {a : BufferCall} (B : Balanced h b)
    (hs : b.step a = some (b', o)) : Balanced (h ++ o) b' := by
  cases a with
  | push token =>
    have hin := B.token token
    rcases push_spec b token with ⟨hpush, hne⟩ | ⟨hpush, -⟩
    · simp only [step, hpush] at hs
      cases hs
      have hout := hin.emit hne
      rw [List.append_assoc] at hout
      exact hout
    · simp only [step, hpush] at hs
      cases hs
      exact hin
  | take =>
    rcases take_spec b with ⟨htake, hne⟩ | ⟨htake, hblank⟩
    · simp only [step, htake] at hs
      cases hs
      exact B.emit hne
    · simp only [step, htake] at hs
      cases hs
      rw [show (Option.map BufferObs.sentence none).toList = [] from rfl, List.append_nil]
      exact B.blank hblank

/-- **Conservation.** In every run of pushes and takes nothing is lost, repeated
or reordered but white space, and the buffer is as it should be at each moment. -/
theorem sentences_conserved (as : List BufferCall) (b : SentenceBuffer) (o : List BufferObs)
    (hr : machine.run new as = some (b, o)) : Conserved o b := by
  have B := Machine.run_invariant (P := Balanced) (fun h b a b' o B hs => balanced_step B hs)
    (h := []) ⟨rfl, fun s hs => (by cases hs)⟩ hr
  rw [List.nil_append] at B
  exact ⟨B.text, B.whole, settled_push b, speak_flushes b⟩

/-- A sentence in three tokens, and one left over that is taken. -/
theorem sentences_conserved_two :
    Conserved [.token "Le".toList, .token " temps. ".toList, .sentence "Le temps.".toList, .token " oui".toList,
      .sentence "oui".toList] new :=
  sentences_conserved [.push "Le".toList, .push " temps. ".toList, .push " oui".toList, .take] _ _ (by decide)

end SentenceBuffer

end AthenaVoice.Pipeline
