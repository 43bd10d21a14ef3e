import AthenaVoice.Lib.Codec

/-
  Identifiers — `athena-voice-core/src/ids.rs`

  A `SatelliteId` is a text that `new` let through, so it carries the check. A
  session's identifier is a UUID of the `uuid` crate, which is a parameter:
  `Uuids` has its reader and its `Display`, and what is documented of the texts
  the reader takes.

  What is proved:
    1. `SatelliteId.new_eq_ok` — `new` lets a text through as it is.
    2. `SatelliteId.no_slash` — an identifier is one topic level.
    3. `hyphenated` — numbers below 2^128, as UUIDs are written, are `Uuids`.

  Correspondence (Rust ↔ Lean):
    `IdError`               `IdError`, the case of a satellite
    `SatelliteId::new`      `SatelliteId.accepts`, `SatelliteId.new`
    `SessionId`             `Uuid`, with `Uuids.format` for `Display` and `FromStr`
-/

namespace AthenaVoice

open Lib

inductive IdError where
  | invalidSatelliteId (s : Text)
  deriving DecidableEq, Repr

/-- What `SatelliteId::new` checks. -/
def SatelliteId.accepts (s : Text) : Bool :=
  !(s.isEmpty || decide (Str.len s > 64) || !s.all (fun c => c.isLower || c.isDigit || c == '-'))

structure SatelliteId where
  text : Text
  accepted : SatelliteId.accepts text = true
  deriving DecidableEq, Repr

namespace SatelliteId

def new (s : Text) : Except IdError SatelliteId :=
  if h : accepts s = true then .ok ⟨s, h⟩ else .error (.invalidSatelliteId s)

theorem new_eq_ok {s : Text} {id : SatelliteId} : new s = .ok id ↔ id.text = s := by
  unfold new
  refine ⟨?_, ?_⟩
  · intro h
    split at h
    · cases h
      rfl
    · cases h
  · intro h
    subst h
    rw [dif_pos id.accepted]

theorem mem_text {id : SatelliteId} {c : Char} (h : c ∈ id.text) : c.isLower ∨ c.isDigit ∨ c = '-' := by
  have haccepted := id.accepted
  simp only [accepts, Bool.not_eq_true', Bool.or_eq_false_iff, Bool.not_eq_false', List.all_eq_true] at haccepted
  have hc := haccepted.2 c h
  simp only [Bool.or_eq_true, beq_iff_eq] at hc
  rcases hc with (hlower | hdigit) | hhyphen
  · exact .inl hlower
  · exact .inr (.inl hdigit)
  · exact .inr (.inr hhyphen)

theorem no_slash (id : SatelliteId) : '/' ∉ id.text := by
  intro h
  rcases mem_text h with hlower | hdigit | hhyphen
  · exact absurd hlower (by decide)
  · exact absurd hdigit (by decide)
  · exact absurd hhyphen (by decide)

end SatelliteId

/-- The `uuid` crate: `Display` writes the hyphenated form, `parse_str` reads it
and the simple, the braced and the URN form. -/
structure Uuids (Uuid : Type) where
  /-- `Uuid::nil`. -/
  nil : Uuid
  format : Codec Uuid Text
  parse_length : ∀ {t id}, format.decode t = some id → t.length ∈ [32, 36, 38, 45]
  parse_slash : ∀ {t id}, format.decode t = some id → '/' ∉ t

namespace Uuids

variable {Uuid : Type} (uuids : Uuids Uuid)

def display (id : Uuid) : Text := uuids.format.encode id

def parseStr (t : Text) : Option Uuid := uuids.format.decode t

theorem parseStr_display (id : Uuid) : uuids.parseStr (uuids.display id) = some id :=
  uuids.format.decode_encode id

theorem display_slash (id : Uuid) : '/' ∉ uuids.display id := uuids.parse_slash (uuids.parseStr_display id)

end Uuids

/-! ## Numbers below 2^128 -/

/-- A number below 2^128 that a text is read as. -/
def parseHyphenated (t : Text) : Option (Fin (16 ^ 32)) :=
  (uuid.decode t).bind fun n => if h : n < 16 ^ 32 then some ⟨n, h⟩ else none

theorem parseHyphenated_eq_some {t : Text} {id : Fin (16 ^ 32)} (h : parseHyphenated t = some id) :
    Uuid.encode id.val = t := by
  obtain ⟨n, hn, hid⟩ := Option.bind_eq_some_iff.mp h
  have hvalue : n = id.val := by
    split at hid
    · cases hid
      rfl
    · cases hid
  subst hvalue
  have hdecoded : Uuid.decode t = some id.val := hn
  unfold Uuid.decode at hdecoded
  split at hdecoded
  · rename_i heq
    rw [← Option.some.inj hdecoded]
    exact heq
  · cases hdecoded

/-- UUIDs as numbers, read in the hyphenated form only. -/
def hyphenated : Uuids (Fin (16 ^ 32)) where
  nil := ⟨0, by decide⟩
  format :=
    { encode := fun id => Uuid.encode id.val
      decode := parseHyphenated
      decode_encode := by
        intro id
        rw [parseHyphenated, show uuid.decode (Uuid.encode id.val) = some id.val from uuid.decode_encode _,
          Option.bind_some, dif_pos id.isLt] }
  parse_length := by
    intro t id h
    rw [← parseHyphenated_eq_some h, Uuid.length_encode id.isLt]
    decide
  parse_slash := by
    intro t id h
    rw [← parseHyphenated_eq_some h]
    exact Uuid.encode_slash id.val

end AthenaVoice
