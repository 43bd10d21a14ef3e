import AthenaVoice.Core.Sdk

/-
  Pattern rules on the host, and the per-locale rule index

  Correspondence (Rust ↔ Lean):
    `intent/rule.rs`   `HostSlotKind`, `HostSlotSpec`, `HostPatternRule` and
                       their `From` conversions
    `intent/loader.rs` `RuleIndex`, `insert`, `for_locale`
-/

namespace AthenaVoice.Intent

open Lib Sdk

inductive HostSlotKind where
  | string
  | number
  | oneOf (options : List Text)
  deriving DecidableEq, Repr

structure HostSlotSpec where
  name : Text
  kind : HostSlotKind
  deriving DecidableEq, Repr

structure HostPatternRule where
  intent : Text
  phrases : List Text
  slots : List HostSlotSpec
  deriving DecidableEq, Repr

/-- `From<SlotKind> for HostSlotKind`. -/
def HostSlotKind.from : SlotKind → HostSlotKind
  | .string => .string
  | .number => .number
  | .oneOf v => .oneOf v

/-- `From<SlotSpec> for HostSlotSpec`. -/
def HostSlotSpec.from (s : SlotSpec) : HostSlotSpec :=
  { name := s.name, kind := HostSlotKind.from s.kind }

/-- `From<PatternRule> for HostPatternRule`. -/
def HostPatternRule.from (r : PatternRule) : HostPatternRule :=
  { intent := r.intent, phrases := r.phrases, slots := r.slots.map HostSlotSpec.from }

/-- A rule and the skill it is dispatched to. -/
abbrev RuleEntry := HostPatternRule × Text

/-- `RuleIndex`: per locale, the entries in insertion order. -/
structure RuleIndex where
  byLocale : Text → Option (List RuleEntry)

def RuleIndex.new : RuleIndex := ⟨fun _ => none⟩

def RuleIndex.insert (idx : RuleIndex) (locale : Text) (rule : HostPatternRule) (skill : Text) :
    RuleIndex :=
  ⟨fun l => if l = locale then some ((idx.byLocale l).getD [] ++ [(rule, skill)])
    else idx.byLocale l⟩

def RuleIndex.forLocale (idx : RuleIndex) (locale : Text) : Option (List RuleEntry) :=
  idx.byLocale locale

/-- The entries of a locale; a locale without any is empty. -/
def RuleIndex.entries (idx : RuleIndex) (locale : Text) : List RuleEntry :=
  (idx.forLocale locale).getD []

@[simp] theorem RuleIndex.entries_new (locale : Text) : RuleIndex.new.entries locale = [] := rfl

theorem RuleIndex.entries_insert (idx : RuleIndex) (locale l : Text) (rule : HostPatternRule)
    (skill : Text) : (idx.insert locale rule skill).entries l =
      idx.entries l ++ if l = locale then [(rule, skill)] else [] := by
  by_cases h : l = locale
  · simp [RuleIndex.entries, RuleIndex.forLocale, RuleIndex.insert, h]
  · simp [RuleIndex.entries, RuleIndex.forLocale, RuleIndex.insert, h]

end AthenaVoice.Intent
