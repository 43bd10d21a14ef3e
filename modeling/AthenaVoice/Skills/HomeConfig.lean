import AthenaVoice.Core.Sdk
import AthenaVoice.Core.Serde

/-
  The home skill's configuration — `skills-home/src/lib.rs`

  The entities are one JSON list; if any element is refused, the list is empty.

  Correspondence (Rust ↔ Lean):
    `Entity`          `Entity`, with its `deserialize`
    `entities`        `parseEntities`, on the configured text
    `config_schema`   `configSchema`
-/

namespace AthenaVoice.Skills.Home

open Lib Sdk Serde

structure Entity where
  name : Text
  room : Text
  kind : Text
  setTopic : Text
  onPayload : Text
  offPayload : Text
  deriving DecidableEq

def Entity.deserialize (d : Doc) : Option Entity :=
  if isStruct 6 d then do
    let name ← field d 0 "name".toList Doc.asString none
    let room ← field d 1 "room".toList Doc.asString none
    let kind ← field d 2 "kind".toList Doc.asString none
    let setTopic ← field d 3 "set_topic".toList Doc.asString none
    let onPayload ← field d 4 "on_payload".toList Doc.asString none
    let offPayload ← field d 5 "off_payload".toList Doc.asString none
    some { name, room, kind, setTopic, onPayload, offPayload }
  else none

/-- What `entities` reads from the configured text. -/
def parseEntities (json : JsonReader) (raw : Text) : List Entity :=
  if raw.isEmpty then []
  else
    match json.readVec Entity.deserialize raw with
    | some v => v
    | none => []

def entityItems : List ItemField :=
  [{ key := "name".toList, kind := .string, required := true },
   { key := "room".toList, kind := .string, required := false },
   { key := "kind".toList, kind := .string, required := false },
   { key := "set_topic".toList, kind := .string, required := false },
   { key := "on_payload".toList, kind := .string, required := false },
   { key := "off_payload".toList, kind := .string, required := false }]

def entitiesField : ConfigField :=
  { key := "entities".toList, label := "Entities".toList, kind := .list, required := false
    help := "Devices this skill can turn on/off over MQTT".toList
    default := []
    itemFields := entityItems }

def configSchema : ConfigSchema := { fields := [entitiesField] }

end AthenaVoice.Skills.Home
