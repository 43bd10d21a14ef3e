import AthenaVoice.Core.Sdk
import AthenaVoice.Core.Serde

/-
  The jeedom skill's configuration — `skills-jeedom/src/lib.rs`

  The sensors, on/off devices and shutters are three JSON lists in the skill's
  config. Each is parsed whole: if any element is refused, the list is empty.
  What is spoken or matched is stripped of everything but letters, digits,
  apostrophes and hyphens.

  Correspondence (Rust ↔ Lean):
    `clean_spoken`                      `cleanSpoken`
    `Sensor`, `ActionDevice`, `Shutter` the same, each with its `deserialize`
    `parse_sensors`, `parse_actions`,   `parseSensors`, `parseActions`,
    `parse_shutters`                    `parseShutters`
    `config_schema`                     `configSchema`
-/

namespace AthenaVoice.Skills.Jeedom

open Lib Sdk Serde

/-- `'\''`. -/
def apostrophe : Char := Char.ofNat 0x27

/-- One turn of the loop of `clean_spoken`: the output and whether a space is due. -/
def cleanStep (u : Unicode) (acc : Text × Bool) (c : Char) : Text × Bool :=
  if u.isAlphanumeric c || c == apostrophe || c == '-' then
    ((if acc.2 && !acc.1.isEmpty then acc.1 ++ [' '] else acc.1) ++ [c], false)
  else (acc.1, true)

def cleanSpoken (u : Unicode) (s : Text) : Text := (s.foldl (cleanStep u) ([], false)).1

/-- A typographic apostrophe is written as a plain one. -/
def plainApostrophes (s : Text) : Text := s.map (fun c => if c == '’' then apostrophe else c)

structure Sensor where
  name : Text
  id : Nat
  unit : Text
  room : Text
  kind : Text
  onLabel : Text
  offLabel : Text
  prefixWord : Text
  deriving DecidableEq

structure ActionDevice where
  name : Text
  room : Text
  prefixWord : Text
  onId : Nat
  offId : Nat
  confirm : Bool
  deriving DecidableEq

structure Shutter where
  name : Text
  room : Text
  prefixWord : Text
  upId : Nat
  downId : Nat
  stopId : Nat
  sliderId : Nat
  confirm : Bool
  deriving DecidableEq

/-! ## Deserialization -/

def Sensor.deserialize (d : Doc) : Option Sensor :=
  if isStruct 8 d then do
    let name ← field d 0 "name".toList Doc.asString none
    let id ← field d 1 "id".toList Doc.asU64 none
    let unit ← field d 2 "unit".toList Doc.asString (some [])
    let room ← field d 3 "room".toList Doc.asString (some [])
    let kind ← field d 4 "kind".toList Doc.asString (some [])
    let onLabel ← field d 5 "on_label".toList Doc.asString (some [])
    let offLabel ← field d 6 "off_label".toList Doc.asString (some [])
    let prefixWord ← field d 7 "prefix".toList Doc.asString (some [])
    some { name, id, unit, room, kind, onLabel, offLabel, prefixWord }
  else none

def ActionDevice.deserialize (d : Doc) : Option ActionDevice :=
  if isStruct 6 d then do
    let name ← field d 0 "name".toList Doc.asString none
    let room ← field d 1 "room".toList Doc.asString (some [])
    let prefixWord ← field d 2 "prefix".toList Doc.asString (some [])
    let onId ← field d 3 "on_id".toList Doc.asU64 none
    let offId ← field d 4 "off_id".toList Doc.asU64 none
    let confirm ← field d 5 "confirm".toList Doc.asBool (some false)
    some { name, room, prefixWord, onId, offId, confirm }
  else none

def Shutter.deserialize (d : Doc) : Option Shutter :=
  if isStruct 8 d then do
    let name ← field d 0 "name".toList Doc.asString none
    let room ← field d 1 "room".toList Doc.asString (some [])
    let prefixWord ← field d 2 "prefix".toList Doc.asString (some [])
    let upId ← field d 3 "up_id".toList Doc.asU64 none
    let downId ← field d 4 "down_id".toList Doc.asU64 none
    let stopId ← field d 5 "stop_id".toList Doc.asU64 (some 0)
    let sliderId ← field d 6 "slider_id".toList Doc.asU64 (some 0)
    let confirm ← field d 7 "confirm".toList Doc.asBool (some false)
    some { name, room, prefixWord, upId, downId, stopId, sliderId, confirm }
  else none

/-- The cleaning of a parsed sensor; the unit is kept as it is. -/
def Sensor.clean (u : Unicode) (s : Sensor) : Sensor :=
  { s with
    name := cleanSpoken u s.name
    room := cleanSpoken u s.room
    onLabel := cleanSpoken u s.onLabel
    offLabel := cleanSpoken u s.offLabel
    prefixWord := cleanSpoken u (plainApostrophes s.prefixWord) }

def ActionDevice.clean (u : Unicode) (d : ActionDevice) : ActionDevice :=
  { d with
    name := cleanSpoken u d.name
    room := cleanSpoken u d.room
    prefixWord := cleanSpoken u (plainApostrophes d.prefixWord) }

def Shutter.clean (u : Unicode) (s : Shutter) : Shutter :=
  { s with
    name := cleanSpoken u s.name
    room := cleanSpoken u s.room
    prefixWord := cleanSpoken u (plainApostrophes s.prefixWord) }

def parseSensors (json : JsonReader) (u : Unicode) (raw : Text) : List Sensor :=
  match json.readVec Sensor.deserialize raw with
  | some v => v.map (Sensor.clean u)
  | none => []

def parseActions (json : JsonReader) (u : Unicode) (raw : Text) : List ActionDevice :=
  match json.readVec ActionDevice.deserialize raw with
  | some v => v.map (ActionDevice.clean u)
  | none => []

def parseShutters (json : JsonReader) (u : Unicode) (raw : Text) : List Shutter :=
  match json.readVec Shutter.deserialize raw with
  | some v => v.map (Shutter.clean u)
  | none => []

/-! ## The schema -/

def item (key : Text) (kind : FieldKind) (required : Bool) : ItemField := { key, kind, required }

def baseUrlField : ConfigField :=
  { key := "base_url".toList, label := "Jeedom URL".toList, kind := .url, required := true
    help := "e.g. http://192.168.1.91 — the host is allowed for HTTP automatically".toList
    default := [], itemFields := [] }

def apiKeyField : ConfigField :=
  { key := "api_key".toList, label := "API key".toList, kind := .secret, required := true
    help := "Jeedom → Settings → System → Configuration → API".toList
    default := [], itemFields := [] }

def sensorItems : List ItemField :=
  [item "name".toList .string true, item "id".toList .number true, item "unit".toList .string false,
   item "room".toList .string false, item "prefix".toList .string false, item "kind".toList .string false,
   item "on_label".toList .string false, item "off_label".toList .string false]

def sensorsField : ConfigField :=
  { key := "sensors".toList, label := "Sensors".toList, kind := .list, required := false
    help := "Spoken name → Jeedom command id; room/kind/prefix filled by discovery".toList
    default := []
    itemFields := sensorItems }

def actionItems : List ItemField :=
  [item "name".toList .string true, item "on_id".toList .number true, item "off_id".toList .number true,
   item "room".toList .string false, item "prefix".toList .string false, item "confirm".toList .bool false]

def actionsField : ConfigField :=
  { key := "actions".toList, label := "Actions".toList, kind := .list, required := false
    help := "On/off devices: spoken name → Jeedom on/off action command ids".toList
    default := []
    itemFields := actionItems }

def shutterItems : List ItemField :=
  [item "name".toList .string true, item "up_id".toList .number true, item "down_id".toList .number true,
   item "stop_id".toList .number false, item "slider_id".toList .number false, item "room".toList .string false,
   item "prefix".toList .string false, item "confirm".toList .bool false]

def shuttersField : ConfigField :=
  { key := "shutters".toList, label := "Shutters".toList, kind := .list, required := false
    help := "Roller shutters: spoken name → Jeedom up/down action ids; stop/slider optional".toList
    default := []
    itemFields := shutterItems }

def configSchema : ConfigSchema :=
  { fields := [baseUrlField, apiKeyField, sensorsField, actionsField, shuttersField] }

end AthenaVoice.Skills.Jeedom
