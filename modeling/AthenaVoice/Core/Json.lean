import AthenaVoice.Lib.Str

/-
  JSON values, as the messages on the wire carry them

  Only what is read of them. A parser from bytes is a parameter wherever bytes
  come in; where both ends are modelled, a message is its value.
-/

namespace AthenaVoice

open Lib

/-- `serde_json::Value`; a number says which `u64` it is, if it is one. -/
inductive Json where
  | null
  | bool (b : Bool)
  | number (u64 : Option Nat)
  | string (s : Text)
  | array (items : List Json)
  | object (fields : List (Text × Json))

def Json.get (key : Text) : Json → Option Json
  | .object fields => fields.lookup key
  | _ => none

def Json.asU64 : Json → Option Nat
  | .number u64 => u64
  | _ => none

def Json.asStr : Json → Option Text
  | .string s => some s
  | _ => none

def Json.asBool : Json → Option Bool
  | .bool b => some b
  | _ => none

end AthenaVoice
