import AthenaVoice.Lib.Str

/-
  The skill SDK — the types the host and the guest skills share

  `PatternRule` is what a skill's `pattern_rules` export returns, `Intent` what
  its `handle` export receives, `SkillResponse` what `handle` answers.
  A slot value is JSON text or JSON null (`none`): the matcher builds no other.
  Floats of audio samples and volume levels are carried as their bit patterns,
  since the host only copies them.
-/

namespace AthenaVoice

open Lib

namespace Sdk

inductive SlotKind where
  | string
  | number
  | oneOf (options : List Text)
  deriving DecidableEq, Repr

structure SlotSpec where
  name : Text
  kind : SlotKind
  deriving DecidableEq, Repr

structure PatternRule where
  intent : Text
  phrases : List Text
  slots : List SlotSpec
  deriving DecidableEq, Repr

/-- A `BTreeMap<String, Value>` of slot values, in key order. -/
abbrev Slots := List (Text × Option Text)

/-- Keys compare as Rust strings do: UTF-8 order is code point order. -/
def keyLt : Text → Text → Bool
  | [], [] => false
  | [], _ :: _ => true
  | _ :: _, [] => false
  | a :: as, b :: bs => a.toNat < b.toNat || (a == b && keyLt as bs)

def Slots.insert (k : Text) (v : Option Text) : Slots → Slots
  | [] => [(k, v)]
  | (k', v') :: rest =>
    if k == k' then (k, v) :: rest
    else if keyLt k k' then (k, v) :: (k', v') :: rest
    else (k', v') :: Slots.insert k v rest

/-- The names of the slots whose value is null. -/
def Slots.missing (slots : Slots) : List Text :=
  (slots.filter (fun kv => kv.2.isNone)).map Prod.fst

structure Intent where
  name : Text
  slots : Slots
  locale : Text
  deriving DecidableEq, Repr

inductive SkillResponse where
  | speak (text : Text)
  | empty
  | askLlm (prompt : Text)
  | sampledPcm (sampleRate : Nat) (samples : List UInt32)
  | sampledOpus (opusFrames : List UInt8)
  | volume (level : UInt32)
  deriving DecidableEq, Repr

inductive SkillError where
  | httpFailed (msg : Text)
  | mqttFailed (msg : Text)
  | state (msg : Text)
  | config (msg : Text)
  | hostFn (msg : Text)
  | custom (msg : Text)
  deriving DecidableEq, Repr

/-- `Result<SkillResponse, SkillError>`. -/
inductive SkillResult where
  | ok (r : SkillResponse)
  | err (e : SkillError)
  deriving DecidableEq, Repr

inductive FieldKind where
  | string | number | secret | url | host | list | bool
  deriving DecidableEq, Repr

structure ItemField where
  key : Text
  kind : FieldKind
  required : Bool
  deriving DecidableEq, Repr

structure ConfigField where
  key : Text
  label : Text
  kind : FieldKind
  required : Bool
  help : Text
  default : Text
  itemFields : List ItemField
  deriving DecidableEq, Repr

structure ConfigSchema where
  fields : List ConfigField
  deriving DecidableEq, Repr

end Sdk

end AthenaVoice
