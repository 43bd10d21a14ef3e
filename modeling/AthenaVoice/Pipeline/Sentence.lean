import AthenaVoice.Lib.Str

/-
  Sentence aggregation — `pipeline/sentence.rs`

  Token fragments are appended verbatim; a sentence leaves the buffer at a
  boundary character, at 100 bytes, or when it is drained.
-/

namespace AthenaVoice.Pipeline

open Lib Lib.Str

def isSentenceBoundary (c : Char) : Bool := c == '.' || c == '!' || c == '?'

structure SentenceBuffer where
  buf : Text
  deriving DecidableEq, Repr

namespace SentenceBuffer

def new : SentenceBuffer := ⟨[]⟩

/-- `push`: the buffer after the token, and the sentence it completes. -/
def push (b : SentenceBuffer) (token : Text) : SentenceBuffer × Option Text :=
  let buf := b.buf ++ token
  let boundary := (trimEnd buf).getLast?.any isSentenceBoundary
  if (boundary || len buf ≥ 100) && !(trim buf).isEmpty then (new, some (trim buf)) else (⟨buf⟩, none)

/-- `take`: whatever is buffered, unless it is blank. -/
def take (b : SentenceBuffer) : SentenceBuffer × Option Text :=
  let out := trim b.buf
  (new, if out.isEmpty then none else some out)

def clear (_ : SentenceBuffer) : SentenceBuffer := new

theorem push_fst_of_some {b : SentenceBuffer} {token sentence : Text}
    (h : (b.push token).2 = some sentence) : (b.push token).1 = new := by
  simp only [push] at h ⊢
  split at h
  · rename_i hc
    simp only [hc, if_true]
  · cases h

end SentenceBuffer

end AthenaVoice.Pipeline
