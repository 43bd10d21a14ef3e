import AthenaVoice.Intent.Similarity
import AthenaVoice.Lib.Codec
import AthenaVoice.Lib.Decimal
import AthenaVoice.Lib.Prog
import AthenaVoice.Lib.Selection
import AthenaVoice.Skills.JeedomConfig
import AthenaVoice.Wasm.HostFns

/-
  The jeedom skill's handler — `skills-jeedom/src/lib.rs`

  `handle` looks at the intent's name. Some names carry the id of what they are
  about behind a prefix: a sensor's own id, a device's `on_id`, a shutter's
  `up_id`. A command is executed by a GET, as a reading is made. A device that
  wants confirmation is not commanded: its command is left in the temporary
  store for thirty seconds, in one slot, where a later "yes" finds it. The store
  has no delete; the slot is cleared by an empty value.

  The handler is a program of the calls it makes to its host, so the clock and
  the outcomes of the GETs are whatever they are at each call. Its log lines
  are left out.

  Correspondence (Rust ↔ Lean):
    `handle`                          `handle`, and `handleReadAll`, `handleTurn`, …
    `tmp_set`, `tmp_get`              `Call.tmpSet`, `Call.tmpGet`, served by the host functions
    `http_get_json`                   `Call.httpGetJson`
    `serde_json`, on `Pending`        `Runtime.pending`, a parameter
    `p.clamp(0.0, 100.0) as u64`      `Runtime.percent`, a parameter, after the parse
    the other functions               the same
-/

namespace AthenaVoice.Skills.Jeedom

open Lib Sdk Serde Storage Wasm

/-! ## Calls to the host -/

/-- A `serde_json::Value` that is spoken: a string, or another value as `to_string` writes it. -/
inductive Scalar where
  | string (s : Text)
  | other (written : Text)
  deriving DecidableEq

/-- What `http_get_json` returns, as far as it is read: the value, and its `value` member. -/
structure Body where
  whole : Scalar
  value : Option Scalar
  deriving DecidableEq

inductive Call where
  | tmpGet (key : Text)
  | tmpSet (key : Text) (val : Bytes) (expiresSec : UInt64)
  | httpGetJson (url : Text)
  deriving DecidableEq

/-- What a call is answered; a GET may fail. -/
def Call.Answer : Call → Type
  | .tmpGet _ => Bytes
  | .tmpSet _ _ _ => Unit
  | .httpGetJson _ => Option Body

/-- What a call finds: the second, and how a GET turns out. -/
structure Moment where
  now : UInt64
  http : Option Body

/-- The host; the guest's context is the one `HostCtx::for_testing` builds. -/
def serve (s : Store) (m : Moment) : (c : Call) → Store × c.Answer
  | .tmpGet key => hostTmpGet m.now s HostCtx.forTesting.skillName key
  | .tmpSet key val expiresSec => (hostTmpSet m.now s HostCtx.forTesting.skillName key val expiresSec, ())
  | .httpGetJson _ => (s, m.http)

abbrev Guest (α : Type) := Prog Call Call.Answer α

/-! ## Configuration -/

/-- What the skill reads of its configuration, the lists parsed. -/
structure Config where
  baseUrl : Option Text
  apiKey : Option Text
  sensors : List Sensor
  actions : List ActionDevice
  shutters : List Shutter

structure Pending where
  cmdId : Nat
  label : Text
  slider : Option Nat
  deriving DecidableEq

/-- What the handler uses and does not contain. -/
structure Runtime where
  unicode : Unicode
  strsim : Intent.Strsim
  floats : Intent.Floats
  /-- `serde_json::to_vec` and `from_slice`. -/
  pending : Codec Pending Bytes
  /-- What is written is JSON text. -/
  pending_ne_nil : ∀ p, pending.encode p ≠ []
  /-- `parse::<f64>`, then clamped to 0..100 and truncated. -/
  percent : Text → Option Nat

/-- A pending command as it is written, control characters in its label aside. -/
def Pending.toJson (p : Pending) : Text :=
  "\x7b\"cmd_id\":".toList ++ (display p.cmdId ++ (",\"label\":\"".toList ++ (Strings.encodeString p.label ++
    (",\"slider\":".toList ++ (p.slider.elim "null".toList display ++ "\x7d".toList)))))

/-- A pending command that `toJson` has written. -/
def Pending.ofJson (text : Text) : Option Pending :=
  (Str.stripPrefix "\x7b\"cmd_id\":".toList text).bind (fun text => ofIdJson (readDigits text))
where
  ofIdJson (id : Nat × Text) : Option Pending :=
    (Str.stripPrefix ",\"label\":\"".toList id.2).bind (fun text =>
      (Strings.decodeString false text).bind (fun label =>
        (Str.stripPrefix ",\"slider\":".toList label.2).bind (fun text =>
          if text = "null\x7d".toList then some { cmdId := id.1, label := label.1, slider := none }
          else if (readDigits text).2 = "\x7d".toList then
            some { cmdId := id.1, label := label.1, slider := some (readDigits text).1 }
          else none)))

theorem noDigitFirst_of_head {c : Char} (hc : c.isDigit = false) (s : Text) : NoDigitFirst (c :: s) := by
  intro d hd
  cases hd
  exact hc

theorem Pending.ofJson_toJson (p : Pending) : ofJson p.toJson = some p := by
  have hlabel : NoDigitFirst (",\"label\":\"".toList ++ (Strings.encodeString p.label ++
      (",\"slider\":".toList ++ (p.slider.elim "null".toList display ++ "\x7d".toList)))) :=
    noDigitFirst_of_head (by decide) _
  unfold Pending.ofJson Pending.toJson
  rw [Str.stripPrefix_append, Option.bind_some, readDigits_display hlabel]
  unfold Pending.ofJson.ofIdJson
  rw [Str.stripPrefix_append, Option.bind_some, Strings.decodeString_encodeString, Option.bind_some,
    Str.stripPrefix_append, Option.bind_some]
  obtain ⟨cmdId, label, slider⟩ := p
  cases slider with
  | none => exact if_pos rfl
  | some v =>
    have hdigit : display v ++ "\x7d".toList ≠ "null\x7d".toList := by
      intro heq
      cases hv : display v with
      | nil => exact display_ne_nil v hv
      | cons c rest =>
        rw [hv] at heq
        have hc : c = 'n' := (List.cons.inj heq).1
        exact absurd (isDigit_of_mem_display (n := v) (hv ▸ List.mem_cons_self)) (by rw [hc]; decide)
    have hclose : NoDigitFirst "\x7d".toList := noDigitFirst_of_head (by decide) []
    have hread := readDigits_display (n := v) hclose
    have hslider : (readDigits (display v ++ "\x7d".toList)).1 = v := congrArg Prod.fst hread
    exact (if_neg hdigit).trans ((if_pos (congrArg Prod.snd hread)).trans
      (congrArg (fun n => some (Pending.mk cmdId label (some n))) hslider))

def Pending.json : Codec Pending Bytes := (Codec.mk Pending.toJson Pending.ofJson Pending.ofJson_toJson).comp utf8

/-- Over ASCII, with whole numbers for positions. -/
def Runtime.ascii : Runtime where
  unicode := .ascii
  strsim := .reference
  floats := .ieee
  pending := Pending.json
  pending_ne_nil := by
    intro p
    exact List.cons_ne_nil _ _
  percent := fun s => (parseU64 s).map (min 100)

/-! ## What is spoken -/

def speak (text : Text) : SkillResult := .ok (.speak text)

def unknownDevice (en : Bool) : SkillResult :=
  speak (if en then "sorry, I don't know that device".toList else "désolé, je ne connais pas cet appareil".toList)

def cannotReach (en : Bool) : Text :=
  if en then "sorry, I can't reach Jeedom right now".toList else "désolé, je n'arrive pas à joindre Jeedom".toList

def nothingToConfirm (en : Bool) : SkillResult :=
  speak (if en then "Nothing to confirm.".toList else "Rien à confirmer.".toList)

def binaryLabel (sensor : Sensor) (value : Text) (en : Bool) : Text :=
  if value == "1".toList || Str.eqIgnoreAsciiCase value "true".toList then
    if sensor.onLabel.isEmpty then if en then "on".toList else "activé".toList else sensor.onLabel
  else if sensor.offLabel.isEmpty then if en then "off".toList else "désactivé".toList
  else sensor.offLabel

/-- A sensor's unit, after a space if there is one. -/
def spokenUnit (sensor : Sensor) : Text := if sensor.unit.isEmpty then [] else ' ' :: sensor.unit

def phraseReading (sensor : Sensor) (value : Text) (en : Bool) : Text :=
  if sensor.kind == "binary".toList then
    if en then "the ".toList ++ sensor.name ++ " is ".toList ++ binaryLabel sensor value en
    else "la ".toList ++ sensor.name ++ " est ".toList ++ binaryLabel sensor value en
  else if en then "the ".toList ++ sensor.name ++ " is ".toList ++ value ++ spokenUnit sensor
  else "la ".toList ++ sensor.name ++ " est de ".toList ++ value ++ spokenUnit sensor

/-- Where a sensor is, as it is spoken. -/
def place (sensor : Sensor) : Text := if sensor.room.isEmpty then sensor.name else sensor.room

def enumClause (sensor : Sensor) (value : Text) (en : Bool) : Text :=
  if sensor.kind == "binary".toList then place sensor ++ " ".toList ++ binaryLabel sensor value en
  else place sensor ++ " ".toList ++ value ++ spokenUnit sensor

/-- `s.strip_suffix(p)`. -/
def stripSuffix (p s : Text) : Option Text :=
  if p.isSuffixOf s then some (s.take (s.length - p.length)) else none

/-- The connectors `metric_of` looks for where none is configured. -/
def articles : List Text :=
  ["du".toList, "de la".toList, "de l’".toList, "de l'".toList, "de".toList, "dans le".toList, "dans la".toList]

def metricOf (rt : Runtime) (sensor : Sensor) : Text :=
  let name := rt.unicode.toLowercase (Str.trim sensor.name)
  let room := rt.unicode.toLowercase (Str.trim sensor.room)
  if room.isEmpty || !room.isSuffixOf name then name
  else
    let head := Str.trimEnd (name.take (name.length - room.length))
    let prefixWord := rt.unicode.toLowercase (Str.trim sensor.prefixWord)
    let head :=
      if !prefixWord.isEmpty && prefixWord.isSuffixOf head then
        Str.trimEnd (head.take (head.length - prefixWord.length))
      else Str.trimEnd ((articles.findSome? (stripSuffix · head)).getD head)
    if head.isEmpty then name else head

/-- `resolve_in`: of the names that are similar enough, the last of the most similar. -/
def resolveIn (rt : Runtime) (list : List Sensor) (asked : Text) : Option Sensor :=
  let similarity := fun s : Sensor =>
    rt.strsim.normalized rt.floats (rt.unicode.toLowercase s.name) (rt.unicode.toLowercase asked)
  select similarity (fun a b => b ≤ a) (list.filter (fun s => 3 / 4 ≤ similarity s))

def actionLabel (d : ActionDevice) (isOn en : Bool) : Text :=
  match isOn, en with
  | true, false => "allumer ".toList ++ d.name
  | false, false => "éteindre ".toList ++ d.name
  | true, true => "turn on ".toList ++ d.name
  | false, true => "turn off ".toList ++ d.name

/-- `ShutterCmd`: open, close, stop, or a position. -/
inductive ShutterCmd where
  | opens
  | closes
  | stops
  | pos (percent : Nat)
  deriving DecidableEq

def shutterLabel (name : Text) (cmd : ShutterCmd) (en : Bool) : Text :=
  match cmd, en with
  | .opens, false => "ouvrir ".toList ++ name
  | .closes, false => "fermer ".toList ++ name
  | .stops, false => "arrêter ".toList ++ name
  | .pos v, false => "mettre ".toList ++ name ++ " à ".toList ++ display v ++ " pour cent".toList
  | .opens, true => "open ".toList ++ name
  | .closes, true => "close ".toList ++ name
  | .stops, true => "stop ".toList ++ name
  | .pos v, true => "set ".toList ++ name ++ " to ".toList ++ display v ++ " percent".toList

def askPosition (en : Bool) : Text :=
  if en then "To what position, in percent?".toList else "À quelle position, en pourcentage ?".toList

def doneOrError (executed en : Bool) : SkillResult :=
  speak (if executed then if en then "Done.".toList else "C'est fait.".toList else cannotReach en)

def groupAnswer (total failed : Nat) (en : Bool) : Text :=
  if failed = 0 then if en then "Done.".toList else "C'est fait.".toList
  else if total ≤ failed then cannotReach en
  else
    match en, failed with
    | false, 1 => "C'est fait, mais un volet n'a pas répondu.".toList
    | false, n => "C'est fait, mais ".toList ++ display n ++ " volets n'ont pas répondu.".toList
    | true, 1 => "Done, but 1 shutter did not respond.".toList
    | true, n => "Done, but ".toList ++ display n ++ " shutters did not respond.".toList

/-! ## Requests to the box -/

def jeedomUrl (cfg : Config) (id : Nat) : Option Text := do
  let base ← cfg.baseUrl.filter (fun s => !s.isEmpty)
  let apiKey ← cfg.apiKey.filter (fun s => !s.isEmpty)
  some (base.rdropWhile (fun c => c == '/') ++ "/core/api/jeeApi.php?apikey=".toList ++ apiKey ++
    "&type=cmd&id=".toList ++ display id)

/-- A GET whose answer does not matter: whether there is one. -/
def get (url : Text) : Guest Bool := Prog.call (.httpGetJson url) fun (r : Option Body) => pure r.isSome

/-- `exec_cmd`: whether the command was executed. -/
def execCmd (cfg : Config) (id : Nat) : Guest Bool :=
  match jeedomUrl cfg id with
  | none => pure false
  | some url => get url

def execSlider (cfg : Config) (id value : Nat) : Guest Bool :=
  match jeedomUrl cfg id with
  | none => pure false
  | some url => get (url ++ "&slider=".toList ++ display value)

/-- A command with a value goes to `exec_slider`, one without to `exec_cmd`. -/
def execute (cfg : Config) (id : Nat) : Option Nat → Guest Bool
  | some v => execSlider cfg id v
  | none => execCmd cfg id

def Scalar.spoken : Scalar → Text
  | .string s => s
  | .other written => written

def readValue (cfg : Config) (sensor : Sensor) : Guest (Option Text) :=
  match jeedomUrl cfg sensor.id with
  | none => pure none
  | some url => Prog.call (.httpGetJson url) fun (r : Option Body) =>
    pure (r.map (fun body => (body.value.getD body.whole).spoken))

def speakReading (cfg : Config) (sensor : Sensor) (en : Bool) : Guest SkillResult :=
  readValue cfg sensor >>= fun
    | some value => pure (speak (phraseReading sensor value en))
    | none => pure (speak (cannotReach en))

/-! ## The pending slot -/

def pendingKey : Text := "pending_action".toList

def pendingTtlSec : UInt64 := 30

/-- `load_pending`: no bytes, and bytes that spell no command, are nothing. -/
def loadPending (rt : Runtime) : Guest (Option Pending) :=
  Prog.call (.tmpGet pendingKey) fun (bytes : Bytes) =>
    pure (if bytes.isEmpty then none else rt.pending.decode bytes)

def clearPending : Guest Unit := Prog.call (.tmpSet pendingKey [] 1) fun _ => pure ()

/-- What the user is asked about a command. -/
def question (pending : Pending) (en : Bool) : SkillResult :=
  speak (if en then "Confirm: ".toList ++ pending.label ++ "?".toList
    else "Tu confirmes : ".toList ++ pending.label ++ " ?".toList)

/-- A command is left in the slot and put to the user. -/
def ask (rt : Runtime) (pending : Pending) (en : Bool) : Guest SkillResult :=
  Prog.call (.tmpSet pendingKey (rt.pending.encode pending) pendingTtlSec) fun _ => pure (question pending en)

/-! ## The handler -/

/-- `intent.locale.starts_with("en")`. -/
def isEn (intent : Intent) : Bool := "en".toList.isPrefixOf intent.locale

/-- The sensor a name carries the id of. -/
def readTarget (cfg : Config) (name : Text) : Option Sensor :=
  ((Str.stripPrefix "jeedom.read.".toList name).bind parseU64).bind (fun id => cfg.sensors.find? (fun s => s.id == id))

/-- The clauses of an enumeration, one for each sensor. -/
def readClauses (cfg : Config) (en : Bool) : List Sensor → Guest (List Text)
  | [] => pure []
  | sensor :: rest => readValue cfg sensor >>= fun value =>
    let clause := match value with
      | some v => enumClause sensor v en
      | none => place sensor ++ (if en then " unavailable".toList else " indisponible".toList)
    readClauses cfg en rest >>= fun clauses => pure (clause :: clauses)

def handleReadAll (rt : Runtime) (cfg : Config) (metric : Text) (en : Bool) : Guest SkillResult :=
  let matching := cfg.sensors.filter (fun s => metricOf rt s == metric || (Str.find s.name metric).isSome)
  if matching.isEmpty then
    pure (speak
      (if en then "no sensor matches ".toList ++ metric else "aucun capteur ne correspond à ".toList ++ metric))
  else readClauses cfg en matching >>= fun clauses => pure (speak (Str.join ", ".toList clauses))

/-- The key of an on/off intent, and whether it is for on. -/
def turnKey (name : Text) : Option (Text × Bool) :=
  ((Str.stripPrefix "jeedom.turn_on.".toList name).map (fun k => (k, true))).or
    ((Str.stripPrefix "jeedom.turn_off.".toList name).map (fun k => (k, false)))

/-- The on/off device of a key: the first whose `on_id` it is. -/
def findAction (cfg : Config) (key : Text) : Option ActionDevice :=
  (parseU64 key).bind (fun k => cfg.actions.find? (fun d => d.onId == k))

def ActionDevice.command (d : ActionDevice) (isOn : Bool) : Nat := if isOn then d.onId else d.offId

def handleTurn (rt : Runtime) (cfg : Config) (key : Text) (isOn en : Bool) : Guest SkillResult :=
  match findAction cfg key with
  | none => pure (unknownDevice en)
  | some device =>
    if device.confirm then
      ask rt { cmdId := device.command isOn, label := actionLabel device isOn en, slider := none } en
    else execCmd cfg (device.command isOn) >>= fun executed => pure (doneOrError executed en)

/-- How many of the shutters' commands fail. -/
def execEach (cfg : Config) (opening : Bool) : List Shutter → Guest Nat
  | [] => pure 0
  | s :: rest => execCmd cfg (if opening then s.upId else s.downId) >>= fun executed =>
    execEach cfg opening rest >>= fun failed => pure (if executed then failed else failed + 1)

/-- All shutters, unconditionally. -/
def handleGroup (cfg : Config) (opening en : Bool) : Guest SkillResult :=
  if cfg.shutters.isEmpty then pure (unknownDevice en)
  else execEach cfg opening cfg.shutters >>= fun failed => pure (speak (groupAnswer cfg.shutters.length failed en))

/-- The key of a shutter intent, and what it asks for. -/
def shutterKey (name : Text) : Option (Text × ShutterCmd) :=
  ((Str.stripPrefix "jeedom.shutter_open.".toList name).map (fun k => (k, ShutterCmd.opens))).or
    (((Str.stripPrefix "jeedom.shutter_close.".toList name).map (fun k => (k, ShutterCmd.closes))).or
      (((Str.stripPrefix "jeedom.shutter_stop.".toList name).map (fun k => (k, ShutterCmd.stops))).or
        ((Str.stripPrefix "jeedom.shutter_pos.".toList name).map (fun k => (k, ShutterCmd.pos 0)))))

/-- The shutter of a key: the first whose `up_id` it is. -/
def findShutter (cfg : Config) (key : Text) : Option Shutter :=
  (parseU64 key).bind (fun k => cfg.shutters.find? (fun s => s.upId == k))

/-- `slot_number`, and what it is clamped to. -/
def slotPercent (rt : Runtime) (intent : Intent) : Option Nat :=
  (intent.slots.lookup "position".toList).join.bind (fun s => rt.percent (Str.trim s))

/-- The command with its position, if it is about one and one can be read. -/
def aim (rt : Runtime) (intent : Intent) : ShutterCmd → Option ShutterCmd
  | .pos _ => (slotPercent rt intent).map .pos
  | cmd => some cmd

/-- The command id for what is asked; zero if there is none. -/
def Shutter.command (s : Shutter) : ShutterCmd → Nat
  | .opens => s.upId
  | .closes => s.downId
  | .stops => s.stopId
  | .pos _ => s.sliderId

def ShutterCmd.slider : ShutterCmd → Option Nat
  | .pos v => some v
  | _ => none

/-- A shutter intent. A stop is never put to the user. -/
def handleShutter (rt : Runtime) (cfg : Config) (intent : Intent) (key : Text) (cmd : ShutterCmd) : Guest SkillResult :=
  match findShutter cfg key with
  | none => pure (unknownDevice (isEn intent))
  | some shutter =>
    match aim rt intent cmd with
    | none => pure (speak (askPosition (isEn intent)))
    | some cmd =>
      if shutter.command cmd = 0 then pure (unknownDevice (isEn intent))
      else if shutter.confirm && cmd != .stops then
        ask rt
          { cmdId := shutter.command cmd, label := shutterLabel shutter.name cmd (isEn intent), slider := cmd.slider }
          (isEn intent)
      else execute cfg (shutter.command cmd) cmd.slider >>= fun executed => pure (doneOrError executed (isEn intent))

/-- `jeedom.confirm`. -/
def handleConfirm (rt : Runtime) (cfg : Config) (en : Bool) : Guest SkillResult :=
  loadPending rt >>= fun
    | some p =>
      clearPending >>= fun _ => execute cfg p.cmdId p.slider >>= fun executed => pure (doneOrError executed en)
    | none => pure (nothingToConfirm en)

/-- `jeedom.cancel`. -/
def handleCancel (rt : Runtime) (en : Bool) : Guest SkillResult :=
  loadPending rt >>= fun
    | some _ => clearPending >>= fun _ => pure (speak (if en then "Cancelled.".toList else "Annulé.".toList))
    | none => pure (nothingToConfirm en)

/-- A sensor asked for by its name. -/
def handleAsked (rt : Runtime) (cfg : Config) (intent : Intent) (en : Bool) : Guest SkillResult :=
  let asked := (((intent.slots.lookup "sensor".toList).join).map Str.trim).getD []
  if asked.isEmpty then
    pure (speak (if en then "which sensor should I read?".toList else "quel capteur dois-je lire ?".toList))
  else
    match resolveIn rt cfg.sensors asked with
    | none => pure (speak (if en then "sorry, I don't know a sensor called ".toList ++ asked
        else "désolé, je ne connais pas de capteur ".toList ++ asked))
    | some sensor => speakReading cfg sensor en

def openAllName : Text := "jeedom.shutter_open_all".toList
def closeAllName : Text := "jeedom.shutter_close_all".toList
def confirmName : Text := "jeedom.confirm".toList
def cancelName : Text := "jeedom.cancel".toList

def handle (rt : Runtime) (cfg : Config) (intent : Intent) : Guest SkillResult :=
  match readTarget cfg intent.name with
  | some sensor => speakReading cfg sensor (isEn intent)
  | none =>
    match Str.stripPrefix "jeedom.read_all.".toList intent.name with
    | some metric => handleReadAll rt cfg metric (isEn intent)
    | none =>
      match turnKey intent.name with
      | some (key, isOn) => handleTurn rt cfg key isOn (isEn intent)
      | none =>
        if intent.name = openAllName ∨ intent.name = closeAllName then
          handleGroup cfg ("open_all".toList.isSuffixOf intent.name) (isEn intent)
        else
          match shutterKey intent.name with
          | some (key, cmd) => handleShutter rt cfg intent key cmd
          | none =>
            if intent.name = confirmName then handleConfirm rt cfg (isEn intent)
            else if intent.name = cancelName then handleCancel rt (isEn intent)
            else handleAsked rt cfg intent (isEn intent)

/-! ## Where an intent goes -/

/-- What the name of an on/off intent starts with. -/
def turnWord (isOn : Bool) : Text := if isOn then "jeedom.turn_on.".toList else "jeedom.turn_off.".toList

/-- What the name of a shutter intent starts with. -/
def ShutterCmd.word : ShutterCmd → Text
  | .opens => "jeedom.shutter_open.".toList
  | .closes => "jeedom.shutter_close.".toList
  | .stops => "jeedom.shutter_stop.".toList
  | .pos _ => "jeedom.shutter_pos.".toList

/-- What a name says is asked for: a position comes with the slots. -/
def ShutterCmd.asked : ShutterCmd → ShutterCmd
  | .pos _ => .pos 0
  | cmd => cmd

theorem turnKey_word (isOn : Bool) (key : Text) : turnKey (turnWord isOn ++ key) = some (key, isOn) := by
  unfold turnKey turnWord
  cases isOn with
  | true =>
    rw [if_pos rfl, Str.stripPrefix_append]
    rfl
  | false =>
    rw [if_neg Bool.false_ne_true, Str.stripPrefix_append, Str.stripPrefix_apart (by decide) (by decide)]
    rfl

theorem turnKey_eq_some {name key : Text} {isOn : Bool} (h : turnKey name = some (key, isOn)) :
    name = turnWord isOn ++ key := by
  unfold turnKey at h
  cases hon : Str.stripPrefix "jeedom.turn_on.".toList name with
  | some k =>
    rw [hon] at h
    cases h
    exact Str.stripPrefix_eq_some.mp hon
  | none =>
    rw [hon, Option.map_none, Option.none_or, Option.map_eq_some_iff] at h
    obtain ⟨k, hoff, hk⟩ := h
    cases hk
    exact Str.stripPrefix_eq_some.mp hoff

theorem shutterKey_word (cmd : ShutterCmd) (key : Text) : shutterKey (cmd.word ++ key) = some (key, cmd.asked) := by
  cases cmd with
  | opens =>
    show shutterKey ("jeedom.shutter_open.".toList ++ key) = _
    rw [shutterKey, Str.stripPrefix_append]
    rfl
  | closes =>
    show shutterKey ("jeedom.shutter_close.".toList ++ key) = _
    rw [shutterKey, Str.stripPrefix_apart (by decide) (by decide), Str.stripPrefix_append]
    rfl
  | stops =>
    show shutterKey ("jeedom.shutter_stop.".toList ++ key) = _
    rw [shutterKey, Str.stripPrefix_apart (by decide) (by decide), Str.stripPrefix_apart (by decide) (by decide),
      Str.stripPrefix_append]
    rfl
  | pos v =>
    show shutterKey ("jeedom.shutter_pos.".toList ++ key) = _
    rw [shutterKey, Str.stripPrefix_apart (by decide) (by decide), Str.stripPrefix_apart (by decide) (by decide),
      Str.stripPrefix_apart (by decide) (by decide), Str.stripPrefix_append]
    rfl

theorem shutterKey_eq_some {name key : Text} {cmd : ShutterCmd} (h : shutterKey name = some (key, cmd)) :
    name = cmd.word ++ key := by
  simp only [shutterKey, Option.or_eq_some_iff, Option.map_eq_some_iff, Option.map_eq_none_iff] at h
  rcases h with ⟨k, hk, heq⟩ | ⟨_, ⟨k, hk, heq⟩ | ⟨_, ⟨k, hk, heq⟩ | ⟨_, k, hk, heq⟩⟩⟩
  all_goals
    cases heq
    exact Str.stripPrefix_eq_some.mp hk

theorem turn_apart {p : Text} (h : ∀ isOn, ¬ p <+: turnWord isOn ∧ ¬ turnWord isOn <+: p) (isOn : Bool)
    (key : Text) :
    Str.stripPrefix p (turnWord isOn ++ key) = none := Str.stripPrefix_apart (h isOn).1 (h isOn).2 key

/-- What the names of shutter intents start with. -/
def shutterWords : List Text :=
  ["jeedom.shutter_open.".toList, "jeedom.shutter_close.".toList, "jeedom.shutter_stop.".toList,
   "jeedom.shutter_pos.".toList]

theorem ShutterCmd.word_mem (cmd : ShutterCmd) : cmd.word ∈ shutterWords := by
  cases cmd with
  | opens => exact List.mem_cons_self
  | closes => exact List.mem_cons_of_mem _ List.mem_cons_self
  | stops => exact List.mem_cons_of_mem _ (List.mem_cons_of_mem _ List.mem_cons_self)
  | pos _ => exact List.mem_cons_of_mem _ (List.mem_cons_of_mem _ (List.mem_cons_of_mem _ List.mem_cons_self))

theorem shutter_apart {p : Text} (h : ∀ w ∈ shutterWords, ¬ p <+: w ∧ ¬ w <+: p) (cmd : ShutterCmd)
    (key : Text) :
    Str.stripPrefix p (cmd.word ++ key) = none :=
  Str.stripPrefix_apart (h _ cmd.word_mem).1 (h _ cmd.word_mem).2 key

theorem turnKey_of_shutterKey {name key : Text} {cmd : ShutterCmd} (h : shutterKey name = some (key, cmd)) :
    turnKey name = none := by
  rw [shutterKey_eq_some h, turnKey, shutter_apart (by decide), shutter_apart (by decide)]
  rfl

variable (rt : Runtime) (cfg : Config) (intent : Intent)

theorem handle_turn {key : Text} {isOn : Bool} (h : turnKey intent.name = some (key, isOn)) :
    handle rt cfg intent = handleTurn rt cfg key isOn (isEn intent) := by
  have hname := turnKey_eq_some h
  have hread : readTarget cfg intent.name = none := by
    rw [hname, readTarget, turn_apart (by decide)]
    rfl
  have hall : Str.stripPrefix "jeedom.read_all.".toList intent.name = none := by
    rw [hname, turn_apart (by decide)]
  unfold handle
  rw [hread, hall, h]

theorem handle_shutter {key : Text} {cmd : ShutterCmd} (h : shutterKey intent.name = some (key, cmd)) :
    handle rt cfg intent = handleShutter rt cfg intent key cmd := by
  have hname := shutterKey_eq_some h
  have hread : readTarget cfg intent.name = none := by
    rw [hname, readTarget, shutter_apart (by decide)]
    rfl
  have hall : Str.stripPrefix "jeedom.read_all.".toList intent.name = none := by
    rw [hname, shutter_apart (by decide)]
  have hgroup : ¬ (intent.name = openAllName ∨ intent.name = closeAllName) := by
    intro hor
    have hnone : shutterKey intent.name = none := by
      rcases hor with heq | heq
      · rw [heq]
        decide
      · rw [heq]
        decide
    rw [hnone] at h
    cases h
  unfold handle
  rw [hread, hall, turnKey_of_shutterKey h, if_neg hgroup, h]

theorem handle_confirm (h : intent.name = confirmName) :
    handle rt cfg intent = handleConfirm rt cfg (isEn intent) := by
  unfold handle
  rw [h]
  rfl

theorem handle_cancel (h : intent.name = cancelName) : handle rt cfg intent = handleCancel rt (isEn intent) := by
  unfold handle
  rw [h]
  rfl

/-! ## What a program does -/

def Call.url : Call → Option Text
  | .httpGetJson url => some url
  | _ => none

/-- The URLs a handler gets, in order. -/
def gets (calls : Prog.Trace Call Call.Answer) : List Text := calls.filterMap (fun c => c.1.url)

/-- What comes after the id in the URL of a command. -/
def sliderQuery : Option Nat → Text
  | none => []
  | some v => "&slider=".toList ++ display v

/-- The URL that executes a command. -/
def commandUrl (id : Nat) (slider : Option Nat) : Option Text :=
  (jeedomUrl cfg id).map (fun url => url ++ sliderQuery slider)

theorem execute_eq (id : Nat) (slider : Option Nat) : execute cfg id slider =
    match commandUrl cfg id slider with
    | none => pure false
    | some url => get url := by
  unfold commandUrl
  cases slider with
  | none =>
    show execCmd cfg id = _
    unfold execCmd
    cases jeedomUrl cfg id with
    | none => rfl
    | some url => exact congrArg get (List.append_nil url).symm
  | some v =>
    show execSlider cfg id v = _
    unfold execSlider
    cases jeedomUrl cfg id with
    | none => rfl
    | some url => exact congrArg get (List.append_assoc url _ _)

/-- Executing a command is getting its URL, once, and nothing where the box is
not configured. -/
theorem exec_execute (e : Nat → Moment) (s : Store) (id : Nat) (slider : Option Nat) (en : Bool) :
    (Prog.exec serve e s (execute cfg id slider >>= fun executed => pure (doneOrError executed en))).1 = s ∧
      gets (Prog.exec serve e s (execute cfg id slider >>= fun executed => pure (doneOrError executed en))).2.1 =
        (commandUrl cfg id slider).toList := by
  rw [execute_eq]
  cases commandUrl cfg id slider with
  | none => exact ⟨rfl, rfl⟩
  | some url => exact ⟨rfl, rfl⟩

theorem exec_ask (e : Nat → Moment) (s : Store) (p : Pending) (en : Bool) :
    Prog.exec serve e s (ask rt p en) =
      (s.tmpSet (e 0).now [] pendingKey (rt.pending.encode p) pendingTtlSec,
        [⟨.tmpSet pendingKey (rt.pending.encode p) pendingTtlSec, ()⟩], question p en) := rfl

/-! ## What makes GETs only -/

def Call.IsGet : Call → Prop
  | .httpGetJson _ => True
  | _ => False

theorem serve_of_isGet (s : Store) (m : Moment) (c : Call) (hc : c.IsGet) : (serve s m c).1 = s := by
  cases c with
  | httpGetJson url => rfl
  | tmpGet key => cases hc
  | tmpSet key val expiresSec => cases hc

variable {cfg}

theorem execCmd_uses (id : Nat) : (execCmd cfg id).Uses Call.IsGet := by
  unfold execCmd
  cases jeedomUrl cfg id with
  | none => trivial
  | some url => exact ⟨trivial, fun _ => trivial⟩

theorem execute_uses (id : Nat) (slider : Option Nat) : (execute cfg id slider).Uses Call.IsGet := by
  rw [execute_eq]
  cases commandUrl cfg id slider with
  | none => trivial
  | some url => exact ⟨trivial, fun _ => trivial⟩

theorem readValue_uses (sensor : Sensor) : (readValue cfg sensor).Uses Call.IsGet := by
  unfold readValue
  cases jeedomUrl cfg sensor.id with
  | none => trivial
  | some url => exact ⟨trivial, fun _ => trivial⟩

theorem speakReading_uses (sensor : Sensor) (en : Bool) : (speakReading cfg sensor en).Uses Call.IsGet := by
  apply Prog.uses_bind (readValue_uses sensor)
  intro value
  cases value with
  | none => trivial
  | some v => trivial

theorem readClauses_uses (en : Bool) (l : List Sensor) : (readClauses cfg en l).Uses Call.IsGet := by
  induction l with
  | nil => trivial
  | cons sensor rest ih => exact Prog.uses_bind (readValue_uses sensor) (fun _ => Prog.uses_bind ih (fun _ => trivial))

theorem handleReadAll_uses (metric : Text) (en : Bool) : (handleReadAll rt cfg metric en).Uses Call.IsGet := by
  simp only [handleReadAll]
  split
  · trivial
  · exact Prog.uses_bind (readClauses_uses en _) (fun _ => trivial)

theorem execEach_uses (opening : Bool) (l : List Shutter) : (execEach cfg opening l).Uses Call.IsGet := by
  induction l with
  | nil => trivial
  | cons s rest ih => exact Prog.uses_bind (execCmd_uses _) (fun _ => Prog.uses_bind ih (fun _ => trivial))

theorem handleGroup_uses (opening en : Bool) : (handleGroup cfg opening en).Uses Call.IsGet := by
  unfold handleGroup
  split
  · trivial
  · exact Prog.uses_bind (execEach_uses opening _) (fun _ => trivial)

theorem handleAsked_uses (en : Bool) : (handleAsked rt cfg intent en).Uses Call.IsGet := by
  simp only [handleAsked]
  split
  · trivial
  · split
    · trivial
    · exact speakReading_uses _ en

end AthenaVoice.Skills.Jeedom
