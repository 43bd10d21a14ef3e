import AthenaVoice.Intent.SlotText

/-
  The cursor of the walk — `intent/engine.rs`, `try_match_phrase`

  The walk slices the lower-cased utterance at its cursor, and a slice off a
  character boundary panics. The cursor moves past a literal, past a literal
  without its trailing white space, or to where a slot ends; the invariant is
  that it stays on a boundary.

  What is proved:
    1. `boundary_of_reaches` — the invariant, over any segments.
    2. `cursor_stays_on_boundary` — what the walk of a phrase reaches, and that
       no step from there panics.
-/

namespace AthenaVoice.Intent

open Lib Lib.Str Sdk

/-- The next step of the walk does not panic. -/
def StepSafe (U : Unicode) (rule : HostPatternRule) (input n : Text) : List Segment → Walk → Prop
  | [], _ => True
  | .literal lit :: _, w => ∃ r, walkLiteral U n lit w = .ok r
  | .slot name :: rest, w => ∃ w', walkSlot U rule input n name rest.head? w = .ok w'

section

variable {U : Unicode} {rule : HostPatternRule} {input n : Text}

/-- **The cursor stays on a boundary**, whatever the segments. -/
theorem boundary_of_reaches {segments rest : List Segment} {w w' : Walk} (h : Reaches U rule input n segments w rest w')
    (hw : IsCharBoundary n w.cursor) : IsCharBoundary n w'.cursor := by
  -- by the steps taken: a literal, or a slot
  induction h with
  | refl segments w => exact hw
  | @literal lit rest w w₁ rest' w' hstep hrest ih =>
    obtain ⟨r, hr, hb⟩ := walkLiteral_ok U n lit hw
    rw [hr] at hstep
    cases hstep
    exact ih (hb w₁ rfl)
  | @slot name rest w w₁ rest' w' hstep hrest ih =>
    obtain ⟨w₂, hw₂, hb⟩ := walkSlot_ok U rule input n name rest.head? hw
    rw [hw₂] at hstep
    cases hstep
    exact ih hb

theorem stepSafe_of_boundary {segments : List Segment} {w : Walk} (hw : IsCharBoundary n w.cursor) :
    StepSafe U rule input n segments w := by
  cases segments with
  | nil => trivial
  | cons segment rest =>
    cases segment with
    | literal lit =>
      obtain ⟨r, hr, -⟩ := walkLiteral_ok U n lit hw
      exact ⟨r, hr⟩
    | slot name =>
      obtain ⟨w', hw', -⟩ := walkSlot_ok U rule input n name rest.head? hw
      exact ⟨w', hw'⟩

end

/-- **No slice panics.** Whatever the phrase and the utterance, everywhere the
walk comes the cursor is within the lower-cased utterance and on a boundary of
it, the next step does not panic, and so matching does not. -/
theorem cursor_stays_on_boundary (F : Floats) (U : Unicode) (S : Strsim) (phrase : Text) (rule : HostPatternRule)
    (input : Text) :
    (∀ rest w, Reaches U rule input (U.toLowercase input) (splitPhrase phrase) Walk.start rest w →
      w.cursor ≤ len (U.toLowercase input) ∧ IsCharBoundary (U.toLowercase input) w.cursor ∧
        StepSafe U rule input (U.toLowercase input) rest w) ∧
    ∃ r, tryMatchPhrase F U S phrase rule input = .ok r := by
  refine ⟨?_, tryMatchPhrase_ok F U S phrase rule input⟩
  intro rest w hreaches
  have hboundary := boundary_of_reaches hreaches (IsCharBoundary.zero _)
  exact ⟨hboundary.le, hboundary, stepSafe_of_boundary hboundary⟩

end AthenaVoice.Intent
