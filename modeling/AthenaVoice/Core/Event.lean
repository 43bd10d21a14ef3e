import AthenaVoice.Core.Sdk
import Mathlib.Data.Rat.Defs

/-
  Events on the bus, and the types that travel with them

  Only the events the modelled stages send or look at. Identifiers of sessions
  are opaque; a UUID is its number.
-/

namespace AthenaVoice.CoreTypes

open Lib

abbrev SessionId := Nat

structure Transcript where
  text : Text
  isFinal : Bool
  deriving DecidableEq, Repr

/-- `Intent` of the core crate: the matched intent, with its confidence. -/
structure Intent where
  name : Text
  slots : Sdk.Slots
  confidence : ℚ
  deriving DecidableEq, Repr

inductive AudioFormat where
  | s16le | opus | f32le | text
  deriving DecidableEq, Repr

inductive BargeInReason where
  | newFinalTranscript | vadSpeechStart
  deriving DecidableEq, Repr

inductive LlmFallbackReason where
  | noMatch | missingSlots
  deriving DecidableEq, Repr

inductive Outcome where
  | ok | error | cancelled | overloaded | orphaned
  deriving DecidableEq, Repr

inductive Event where
  | transcriptPartial (session : SessionId) (text : Text)
  | transcriptFinal (session : SessionId) (text : Text)
  | intentMatched (session : SessionId) (intent : Intent)
  | skillInvoked (session : SessionId) (skill : Text)
  | llmFallback (session : SessionId) (reason : LlmFallbackReason) (slots : List Text)
  | ttsChunk (session : SessionId) (seq bytesLen : Nat)
  | sessionEnded (session : SessionId) (outcome : Outcome)
  | bargeIn (session : SessionId) (reason : BargeInReason)
  | skillCancelled (session : SessionId) (skill : Text)
  | audioChunk (session : SessionId) (format : AudioFormat) (sampleRate : Nat) (payload : List UInt8)
  | volumeChanged (session : SessionId) (level : UInt32)
  | ttsText (session : SessionId) (text : Text)
  | skillReloaded (name : Text)
  | skillReloadFailed (name reason : Text)
  deriving DecidableEq, Repr

/-- `Event::BargeIn`. -/
def Event.isBargeIn : Event → Bool
  | .bargeIn .. => true
  | _ => false

/-- `Event::SkillCancelled`. -/
def Event.isSkillCancelled : Event → Bool
  | .skillCancelled .. => true
  | _ => false

/-- `Event::AudioChunk`. -/
def Event.isAudioChunk : Event → Bool
  | .audioChunk .. => true
  | _ => false

end AthenaVoice.CoreTypes
