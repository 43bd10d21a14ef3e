import AthenaVoice.Intent.Engine
import AthenaVoice.Lib.Collapse
import AthenaVoice.Skills.JeedomConfig

/-
  The normal forms of host and guest — `athena-voice-runtime/src/intent/engine.rs`,
  `normalize_literal`, and `skills-jeedom/src/lib.rs`, `clean_spoken`

  The host lowers an utterance and strips it; the skill strips the names of its
  configuration. Both loops collapse what is not kept into single spaces, so a
  name that has been stripped has the normal form of the raw one.

  Lowering is that of the tables. What is assumed of it (`CharLowercase`) is that
  it acts character by character, is idempotent, and keeps apart what is kept
  and what is not; of the tables, that a space is not alphanumeric.

  What is proved:
    1. `normalizeLiteral_eq`, `cleanSpoken_eq` — both loops collapse.
    2. `runs_toLowercase` — lowering acts on each stretch by itself.
    3. `normal_forms_agree` — the shape of both forms, what they keep, that they
       are idempotent, and that the host's form does not depend on the guest's.
-/

namespace AthenaVoice.Skills.Jeedom

open Lib Intent

/-- The characters that both loops keep. -/
def kept (U : Unicode) (c : Char) : Bool := U.isAlphanumeric c || c == apostrophe || c == '-'

/-- What is assumed of the tables. -/
structure CharLowercase (U : Unicode) (lower : Char → Text) : Prop where
  acts : ∀ s, U.toLowercase s = s.flatMap lower
  idempotent : ∀ s, U.toLowercase (U.toLowercase s) = U.toLowercase s
  nonempty : ∀ c, lower c ≠ []
  keeps : ∀ c, kept U c = true → ∀ d ∈ lower c, kept U d = true
  drops : ∀ c, kept U c = false → ∀ d ∈ lower c, kept U d = false
  space : U.isAlphanumeric ' ' = false

/-! ## The two loops -/

variable {U : Unicode} {lower : Char → Text}

/-- **The guest's loop.** -/
theorem cleanSpoken_eq (U : Unicode) (s : Text) : cleanSpoken U s = collapse (kept U) ' ' s := by
  have hstep : cleanStep U = collapseStep (kept U) ' ' := rfl
  rw [cleanSpoken, hstep, foldl_collapseStep]

theorem normalizeLiteralFrom_eq (U : Unicode) : ∀ (cs out : Text) (pendingSpace : Bool),
    normalizeLiteralFrom U out pendingSpace cs = (cs.foldl (collapseStep (kept U) ' ') (out, pendingSpace)).1 := by
  intro cs
  induction cs with
  | nil => intro out pendingSpace; rfl
  | cons c cs ih =>
    intro out pendingSpace
    have hkept : (U.isAlphanumeric c || c == '\'' || c == '-') = kept U c := rfl
    rw [normalizeLiteralFrom, List.foldl_cons, collapseStep, hkept]
    split
    · exact ih _ _
    · exact ih _ _

/-- **The host's loop.** -/
theorem normalizeLiteral_eq (U : Unicode) (s : Text) :
    normalizeLiteral U s = collapse (kept U) ' ' (U.toLowercase s) := by
  rw [normalizeLiteral, normalizeLiteralFrom_eq, foldl_collapseStep]

/-! ## Lowering -/

theorem CharLowercase.kept_space (h : CharLowercase U lower) : kept U ' ' = false := by
  rw [kept, h.space]
  decide

/-- **Lowering acts on each stretch by itself.** -/
theorem CharLowercase.runs_toLowercase (h : CharLowercase U lower) (s : Text) :
    runs (kept U) (U.toLowercase s) = (runs (kept U) s).map U.toLowercase := by
  rw [h.acts, runs_flatMap h.nonempty h.keeps h.drops, funext h.acts]

theorem CharLowercase.normalize_collapse (h : CharLowercase U lower) (s : Text) :
    normalizeLiteral U (collapse (kept U) ' ' s) = normalizeLiteral U s := by
  have hruns : runs (kept U) (U.toLowercase (collapse (kept U) ' ' s)) = runs (kept U) (U.toLowercase s) := by
    rw [h.runs_toLowercase, runs_collapse h.kept_space, h.runs_toLowercase]
  rw [normalizeLiteral_eq, normalizeLiteral_eq, collapse, hruns, collapse]

theorem CharLowercase.filter_toLowercase (h : CharLowercase U lower) (s : Text) :
    (U.toLowercase s).filter (kept U) = U.toLowercase (s.filter (kept U)) := by
  rw [h.acts, h.acts]
  induction s with
  | nil => rfl
  | cons c s ih =>
    rw [List.flatMap_cons, List.filter_append, ih]
    by_cases hc : kept U c = true
    · rw [List.filter_cons_of_pos hc, List.flatMap_cons, List.filter_eq_self.mpr (h.keeps c hc)]
    · have hdrop : ∀ d ∈ lower c, ¬ kept U d = true := by
        intro d hd
        simp [h.drops c (by simpa using hc) d hd]
      rw [List.filter_cons_of_neg hc, List.filter_eq_nil_iff.mpr hdrop, List.nil_append]

theorem toLower_ascii (c : Char) : kept Unicode.ascii c.toLower = kept Unicode.ascii c ∧
    c.toLower.toLower = c.toLower := by
  have hupper : ∀ n < 26, kept Unicode.ascii (Char.ofNat (65 + n)).toLower =
    kept Unicode.ascii (Char.ofNat (65 + n)) ∧
      (Char.ofNat (65 + n)).toLower.toLower = (Char.ofNat (65 + n)).toLower := by decide
  by_cases h : 65 ≤ c.toNat ∧ c.toNat ≤ 90
  · have hc : Char.ofNat (65 + (c.toNat - 65)) = c := by
      rw [Nat.add_sub_cancel' h.1, Char.ofNat_toNat]
    exact hc ▸ hupper (c.toNat - 65) (by omega)
  · have hc : c.toLower = c := dif_neg (fun hletter => h ⟨hletter.1, hletter.2⟩)
    rw [hc, hc]
    exact ⟨rfl, rfl⟩

theorem charLowercase_ascii : CharLowercase Unicode.ascii (fun c => [c.toLower]) := by
  refine ⟨?_, ?_, ?_, ?_, ?_, ?_⟩
  · intro s
    exact List.map_eq_flatMap
  · intro s
    simp [Unicode.ascii, (toLower_ascii _).2]
  · intro c
    exact List.cons_ne_nil _ _
  · intro c hc d hd
    rw [List.mem_singleton.mp hd, (toLower_ascii c).1, hc]
  · intro c hc d hd
    rw [List.mem_singleton.mp hd, (toLower_ascii c).1, hc]
  · decide

/-- **Host and guest agree.** -/
theorem normal_forms_agree (U : Unicode) (lower : Char → Text) (h : CharLowercase U lower) (s : Text) :
    Spaced (kept U) ' ' (normalizeLiteral U s) ∧ Spaced (kept U) ' ' (cleanSpoken U s) ∧
    (normalizeLiteral U s).filter (kept U) = U.toLowercase (s.filter (kept U)) ∧
    (cleanSpoken U s).filter (kept U) = s.filter (kept U) ∧
    normalizeLiteral U (normalizeLiteral U s) = normalizeLiteral U s ∧
    cleanSpoken U (cleanSpoken U s) = cleanSpoken U s ∧
    normalizeLiteral U (cleanSpoken U s) = normalizeLiteral U s := by
  have hspace := h.kept_space
  refine ⟨?_, ?_, ?_, ?_, ?_, ?_, ?_⟩
  · rw [normalizeLiteral_eq]
    exact spaced_collapse hspace _
  · rw [cleanSpoken_eq]
    exact spaced_collapse hspace _
  · rw [normalizeLiteral_eq, filter_collapse hspace, h.filter_toLowercase]
  · rw [cleanSpoken_eq, filter_collapse hspace]
  · calc normalizeLiteral U (normalizeLiteral U s) = normalizeLiteral U (U.toLowercase s) := by
          rw [normalizeLiteral_eq U s, h.normalize_collapse]
      _ = normalizeLiteral U s := by rw [normalizeLiteral_eq, h.idempotent, normalizeLiteral_eq]
  · rw [cleanSpoken_eq, cleanSpoken_eq, collapse_collapse hspace]
  · rw [cleanSpoken_eq, h.normalize_collapse]

/-- A room that discovery has decorated. -/
def decoratedRoom : Text := " Salon  * d'en-haut (2e) ".toList

example : cleanSpoken Unicode.ascii decoratedRoom = "Salon d'en-haut 2e".toList := by decide

/-- Its two forms. -/
theorem normal_forms_agree_room :
    Spaced (kept Unicode.ascii) ' ' (normalizeLiteral Unicode.ascii decoratedRoom) ∧
    Spaced (kept Unicode.ascii) ' ' (cleanSpoken Unicode.ascii decoratedRoom) ∧
    (normalizeLiteral Unicode.ascii decoratedRoom).filter (kept Unicode.ascii) =
      Unicode.ascii.toLowercase (decoratedRoom.filter (kept Unicode.ascii)) ∧
    (cleanSpoken Unicode.ascii decoratedRoom).filter (kept Unicode.ascii) =
      decoratedRoom.filter (kept Unicode.ascii) ∧
    normalizeLiteral Unicode.ascii (normalizeLiteral Unicode.ascii decoratedRoom) =
      normalizeLiteral Unicode.ascii decoratedRoom ∧
    cleanSpoken Unicode.ascii (cleanSpoken Unicode.ascii decoratedRoom) = cleanSpoken Unicode.ascii decoratedRoom ∧
    normalizeLiteral Unicode.ascii (cleanSpoken Unicode.ascii decoratedRoom) =
      normalizeLiteral Unicode.ascii decoratedRoom :=
  normal_forms_agree Unicode.ascii (fun c => [c.toLower]) charLowercase_ascii decoratedRoom

end AthenaVoice.Skills.Jeedom
