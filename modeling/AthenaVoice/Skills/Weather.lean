import AthenaVoice.Core.Sdk
import AthenaVoice.Lib.Percent
import AthenaVoice.Lib.Prog
import AthenaVoice.Skills.Timer
import AthenaVoice.Wasm.HostFns
import Mathlib.Data.Bool.AllAny

/-
  The weather skill — `skills-weather/src/lib.rs`, `weather_code.rs`

  A city is resolved to coordinates, by the skill's durable store or else by a
  geocoding service, whose answer is stored. Then the forecast for the
  coordinates is fetched and spoken. The key in the store is the city in lower
  case; the language of the query is no part of it.

  Floats are a parameter, with their `Display`; so is `serde_json` on what is
  stored, which need not read a float back exactly. Log lines are left out: what
  fails is spoken of in one way.

  What is proved:
    1. `urlEncode_eq` — the encoder escapes six characters.
    2. `query_parameters` — a city is one parameter of the query, whatever it
       holds, and is read back exactly if it spells no escape.

  Correspondence (Rust ↔ Lean):
    `serde_json::Value`, as it is read     `Value`
    `resolve_city`                         `resolveCity`
    `resolve_geocoding`                    `resolveGeocoding`, its call `geocode`
    `weather_now`, `weather_tomorrow`      the same, spoken by `nowSpeech`, `tomorrowSpeech`
    `fetch_forecast`                       the call of both, its URL `forecastUrl`
    `handle`, `url_encode`, `phrase`       the same
-/

namespace AthenaVoice.Skills.Weather

open Lib Sdk Storage Wasm

/-! ## What the services answer -/

/-- `serde_json::Value`, as it is read: a number is an `f64`, and maybe an `i64`. -/
inductive Value (F : Type) where
  | string (s : Text)
  | number (f64 : F) (i64 : Option Int)
  | array (items : List (Value F))
  | object (fields : List (Text × Value F))
  | other

section Values

variable {F : Type}

def Value.get (key : Text) : Value F → Option (Value F)
  | .object fields => fields.lookup key
  | _ => none

/-- `as_array`, then `first`. -/
def Value.first : Value F → Option (Value F)
  | .array items => items.head?
  | _ => none

def Value.asStr : Value F → Option Text
  | .string s => some s
  | _ => none

def Value.asF64 : Value F → Option F
  | .number f64 _ => some f64
  | _ => none

def Value.asI64 : Value F → Option Int
  | .number _ i64 => i64
  | _ => none

end Values

structure Geo (F : Type) where
  lat : F
  lon : F
  name : Text
  deriving DecidableEq

/-- What the skill uses and does not contain. -/
structure Runtime (F : Type) where
  unicode : Unicode
  /-- `serde_json::to_vec`, on a `Geo`. -/
  geoToBytes : Geo F → Option Bytes
  /-- `serde_json::from_slice`, to a `Geo`. -/
  geoFromBytes : Bytes → Option (Geo F)
  /-- `f64`'s `Display`. -/
  displayF64 : F → Text
  /-- `round`, as an i64. -/
  rounded : F → Int

/-- What the skill reads of its configuration. -/
structure Config where
  defaultCity : Option Text
  geocodingBaseUrl : Option Text
  forecastBaseUrl : Option Text

/-! ## Calls to the host -/

inductive Call where
  | stateGet (key : Text)
  | stateSet (key : Text) (val : Bytes)
  | httpGetJson (url : Text)
  deriving DecidableEq

/-- What a call is answered; a GET may fail. A read that fails is a read that
finds nothing, and whether a write does is not looked at. -/
def Call.Answer (F : Type) : Call → Type
  | .stateGet _ => Bytes
  | .stateSet _ _ => Unit
  | .httpGetJson _ => Option (Value F)

/-- What happens to the durable store while a skill is not in a call: another
skill writes, or a collection that was spawned runs. -/
inductive Elsewhere (name : Text) where
  | stateSet (ctx : SkillCtx) (other : ctx.name ≠ name) (now : UInt64) (key : Text) (val : Bytes)
  | gc (skill : Text) (threshold : UInt64)

def Elsewhere.on {name : Text} (s : Store) : Elsewhere name → Store
  | .stateSet ctx _ now key val => hostStateSet ctx now s key val
  | .gc skill threshold => s.skillKvGc skill threshold

/-- What a call finds: what has happened before it, the second, whether the
store fails, and how a GET turns out. -/
structure Moment (F : Type) (name : Text) where
  before : List (Elsewhere name)
  now : UInt64
  storeFails : Bool
  http : Option (Value F)

/-- The host, for the skill of `ctx`. -/
def serve {F : Type} (ctx : SkillCtx) (s : Store) (m : Moment F ctx.name) : (c : Call) → Store × c.Answer F :=
  let s := m.before.foldl Elsewhere.on s
  fun
  | .stateGet key => (s, if m.storeFails then [] else hostStateGet ctx s key)
  | .stateSet key val => (if m.storeFails then s else hostStateSet ctx m.now s key val, ())
  | .httpGetJson _ => (s, m.http)

abbrev Guest (F : Type) (α : Type) := Prog Call (Call.Answer F) α

/-! ## URLs -/

/-- A configured base URL or the default, without slashes at its end. -/
def baseUrl (configured : Option Text) (default : Text) : Text :=
  ((configured.filter (fun s => !s.isEmpty)).getD default).rdropWhile (fun c => c == '/')

def geocodingDefaultBase : Text := "https://geocoding-api.open-meteo.com".toList

def forecastDefaultBase : Text := "https://api.open-meteo.com".toList

def urlEncode (s : Text) : Text := s.flatMap fun c =>
  match c with
  | ' ' => "%20".toList
  | '&' => "%26".toList
  | '#' => "%23".toList
  | '?' => "%3F".toList
  | '=' => "%3D".toList
  | '+' => "%2B".toList
  | _ => [c]

def language (en : Bool) : Text := if en then "en".toList else "fr".toList

/-- What the geocoding service is asked. -/
def geocodingQuery (city : Text) (en : Bool) : Text :=
  "name=".toList ++ urlEncode city ++ "&language=".toList ++ language en ++ "&count=1".toList

def geocodingUrl (cfg : Config) (city : Text) (en : Bool) : Text :=
  baseUrl cfg.geocodingBaseUrl geocodingDefaultBase ++ "/v1/search?".toList ++ geocodingQuery city en

section Skill

variable {F : Type} (rt : Runtime F) (cfg : Config)

def forecastUrl (geo : Geo F) : Text :=
  baseUrl cfg.forecastBaseUrl forecastDefaultBase ++ "/v1/forecast?latitude=".toList ++ rt.displayF64 geo.lat ++
    "&longitude=".toList ++ rt.displayF64 geo.lon ++
    "&current=temperature_2m,weather_code&daily=temperature_2m_max,temperature_2m_min,weather_code&timezone=auto".toList

/-! ## From a city to coordinates -/

def hardDefaultCity : Text := "Paris".toList

def resolveCity (intent : Intent) : Text :=
  let slot := (intent.slots.lookup "city".toList).join.map Str.trim
  (slot.filter (fun s => !s.isEmpty)).getD ((cfg.defaultCity.filter (fun s => !s.isEmpty)).getD hardDefaultCity)

def geoKey (city : Text) : Text := "geo/".toList ++ rt.unicode.toLowercase city

def httpErrorSpeak (en : Bool) : Text :=
  if en then "sorry, the weather service is unavailable".toList
  else "désolé, le service météo est indisponible".toList

/-- What is stored, if it is coordinates. -/
def cached (bytes : Bytes) : Option (Geo F) := if bytes.isEmpty then none else rt.geoFromBytes bytes

/-- The first result of an answer. -/
def firstResult (value : Value F) : Option (Value F) := (value.get "results".toList).bind Value.first

/-- The coordinates a result has, under its name or else the city's. -/
def located (city : Text) (first : Value F) : Option (Geo F) := do
  let lat ← (first.get "latitude".toList).bind Value.asF64
  let lon ← (first.get "longitude".toList).bind Value.asF64
  some { lat := lat, lon := lon, name := ((first.get "name".toList).bind Value.asStr).getD city }

/-- Coordinates are stored, if they can be written. -/
def remember (city : Text) (geo : Geo F) : Guest F (Except Text (Option (Geo F))) :=
  match rt.geoToBytes geo with
  | none => pure (.ok (some geo))
  | some bytes => Prog.call (.stateSet (geoKey rt city) bytes) fun _ => pure (.ok (some geo))

/-- What is made of the service's first result. -/
def firstGeocoded (city : Text) (en : Bool) (first : Value F) : Guest F (Except Text (Option (Geo F))) :=
  match located city first with
  | none => pure (.error (httpErrorSpeak en))
  | some geo => remember rt city geo

/-- What is made of the geocoding service's answer. -/
def geocoded (city : Text) (en : Bool) : Option (Value F) → Guest F (Except Text (Option (Geo F)))
  | none => pure (.error (httpErrorSpeak en))
  | some value =>
    match firstResult value with
    | none => pure (.ok none)
    | some first => firstGeocoded rt city en first

theorem geocoded_unknown {city : Text} {en : Bool} {value : Value F} (h : firstResult value = none) :
    geocoded rt city en (some value) = pure (.ok none) := by
  rw [geocoded, h]

theorem geocoded_first {city : Text} {en : Bool} {value first : Value F} (h : firstResult value = some first) :
    geocoded rt city en (some value) = firstGeocoded rt city en first := by
  rw [geocoded, h]

/-- The geocoding service is asked, and its answer stored. -/
def geocode (city : Text) (en : Bool) : Guest F (Except Text (Option (Geo F))) :=
  Prog.call (.httpGetJson (geocodingUrl cfg city en)) fun (r : Option (Value F)) => geocoded rt city en r

/-- What is stored, or else the service's answer. -/
def cachedOr (city : Text) (en : Bool) : Option (Geo F) → Guest F (Except Text (Option (Geo F)))
  | some geo => pure (.ok (some geo))
  | none => geocode rt cfg city en

/-- `resolve_geocoding`: no coordinates are an unknown city, an error what is spoken of it. -/
def resolveGeocoding (city : Text) (en : Bool) : Guest F (Except Text (Option (Geo F))) :=
  Prog.call (.stateGet (geoKey rt city)) fun (bytes : Bytes) => cachedOr rt cfg city en (cached rt bytes)

/-! ## What is spoken -/

def enPhrase (code : Int) : Text :=
  if code = 0 then "clear skies".toList
  else if 1 ≤ code ∧ code ≤ 3 then "a few clouds".toList
  else if code = 45 ∨ code = 48 then "fog".toList
  else if 51 ≤ code ∧ code ≤ 57 then "drizzle".toList
  else if 61 ≤ code ∧ code ≤ 65 then "rain".toList
  else if code = 66 ∨ code = 67 then "freezing rain".toList
  else if 71 ≤ code ∧ code ≤ 75 then "snow".toList
  else if code = 77 then "snow grains".toList
  else if 80 ≤ code ∧ code ≤ 82 then "showers".toList
  else if code = 85 ∨ code = 86 then "snow showers".toList
  else if 95 ≤ code ∧ code ≤ 99 then "a thunderstorm".toList
  else "unusual weather".toList

def frPhrase (code : Int) : Text :=
  if code = 0 then "temps clair".toList
  else if 1 ≤ code ∧ code ≤ 3 then "quelques nuages".toList
  else if code = 45 ∨ code = 48 then "du brouillard".toList
  else if 51 ≤ code ∧ code ≤ 57 then "de la bruine".toList
  else if 61 ≤ code ∧ code ≤ 65 then "de la pluie".toList
  else if code = 66 ∨ code = 67 then "de la pluie verglaçante".toList
  else if 71 ≤ code ∧ code ≤ 75 then "de la neige".toList
  else if code = 77 then "des grains de neige".toList
  else if 80 ≤ code ∧ code ≤ 82 then "des averses".toList
  else if code = 85 ∨ code = 86 then "des averses de neige".toList
  else if 95 ≤ code ∧ code ≤ 99 then "un orage".toList
  else "un temps particulier".toList

def phrase (code : Int) (en : Bool) : Text := if en then enPhrase code else frPhrase code

def degrees (temp : F) : Text := Timer.displayI64 (rt.rounded temp)

/-- What `weather_now` makes of a forecast. -/
def nowSpeech (geo : Geo F) (en : Bool) (value : Value F) : Option Text := do
  let current ← value.get "current".toList
  let temp ← (current.get "temperature_2m".toList).bind Value.asF64
  let code ← (current.get "weather_code".toList).bind Value.asI64
  some (if en then "it is ".toList ++ degrees rt temp ++ " degrees in ".toList ++ geo.name ++ ", ".toList ++
    phrase code en
    else "il fait ".toList ++ degrees rt temp ++ " degrés à ".toList ++ geo.name ++ ", ".toList ++ phrase code en)

/-- What `weather_tomorrow` makes of a forecast. -/
def tomorrowSpeech (geo : Geo F) (en : Bool) (value : Value F) : Option Text := do
  let daily ← value.get "daily".toList
  let min ← ((daily.get "temperature_2m_min".toList).bind Value.first).bind Value.asF64
  let max ← ((daily.get "temperature_2m_max".toList).bind Value.first).bind Value.asF64
  let code ← ((daily.get "weather_code".toList).bind Value.first).bind Value.asI64
  some (if en then "tomorrow in ".toList ++ geo.name ++ ", it will be between ".toList ++ degrees rt min ++
    " and ".toList ++
      degrees rt max ++ " degrees with ".toList ++ phrase code en
    else "demain à ".toList ++ geo.name ++ ", il fera entre ".toList ++ degrees rt min ++ " et ".toList ++
      degrees rt max ++ " degrés avec ".toList ++ phrase code en)

def speak (text : Text) : SkillResult := .ok (.speak text)

/-- `fetch_forecast`, and what is said of it. -/
def forecast (geo : Geo F) (en : Bool) (speech : Geo F → Bool → Value F → Option Text) : Guest F SkillResult :=
  Prog.call (.httpGetJson (forecastUrl rt cfg geo)) fun (r : Option (Value F)) =>
    pure (speak ((r.bind (speech geo en)).getD (httpErrorSpeak en)))

def weatherNow (geo : Geo F) (en : Bool) : Guest F SkillResult := forecast rt cfg geo en (nowSpeech rt)

def weatherTomorrow (geo : Geo F) (en : Bool) : Guest F SkillResult := forecast rt cfg geo en (tomorrowSpeech rt)

def cannotFind (city : Text) (en : Bool) : SkillResult :=
  speak (if en then "sorry, I can't find ".toList ++ city else "désolé, je ne trouve pas ".toList ++ city)

/-- `locale.starts_with("en")`. -/
def isEn (intent : Intent) : Bool := "en".toList.isPrefixOf intent.locale

/-- What is done with the coordinates, by the intent's name. -/
def answer (name : Text) (geo : Geo F) (en : Bool) : Guest F SkillResult :=
  if name = "weather.now".toList then weatherNow rt cfg geo en
  else if name = "weather.tomorrow".toList then weatherTomorrow rt cfg geo en
  else pure (.err (.custom ("unknown intent: ".toList ++ name)))

/-- What is answered once the city is resolved. -/
def resolved (intent : Intent) : Except Text (Option (Geo F)) → Guest F SkillResult
  | .error msg => pure (speak msg)
  | .ok none => pure (cannotFind (resolveCity cfg intent) (isEn intent))
  | .ok (some geo) => answer rt cfg intent.name geo (isEn intent)

/-- `handle`. The city is resolved whatever the intent's name. -/
def handle (intent : Intent) : Guest F SkillResult :=
  resolveGeocoding rt cfg (resolveCity cfg intent) (isEn intent) >>= resolved rt cfg intent

end Skill

/-! ## One city, one parameter -/

/-- What `url_encode` escapes. -/
def reserved (c : Char) : Bool := c ∈ [' ', '&', '#', '?', '=', '+']

/-- **The encoder** escapes six characters and keeps the others. -/
theorem urlEncode_eq : urlEncode = Percent.encode reserved := by
  funext s
  apply List.flatMap_congr
  intro c _
  split
  · rfl
  · rfl
  · rfl
  · rfl
  · rfl
  · rfl
  · rename_i h1 h2 h3 h4 h5 h6
    have hkeep : ¬ reserved c = true := by
      intro hc
      have hmem : c ∈ [' ', '&', '#', '?', '=', '+'] := of_decide_eq_true hc
      simp only [List.mem_cons, List.not_mem_nil, or_false] at hmem
      rcases hmem with h | h | h | h | h | h
      · exact h1 h
      · exact h2 h
      · exact h3 h
      · exact h4 h
      · exact h5 h
      · exact h6 h
    exact (if_neg hkeep).symm

theorem escapable_reserved : Percent.Escapable reserved where
  ascii := by
    intro c hc
    have hall : ∀ c ∈ [' ', '&', '#', '?', '=', '+'], c.toNat < 128 := by
      rw [← List.all_iff_forall_prop]
      decide
    exact hall c (of_decide_eq_true hc)
  no_digit := by
    intro c hc
    have hall : ∀ c ∈ [' ', '&', '#', '?', '=', '+'], Percent.hexValue c = none := by
      rw [← List.all_iff_forall_prop]
      decide
    exact hall c (of_decide_eq_true hc)
  no_percent := by decide

theorem not_mem_urlEncode {c : Char} (hc : reserved c = true) (city : Text) : c ∉ urlEncode city := by
  rw [urlEncode_eq]
  exact Percent.not_mem_encode escapable_reserved hc city

def parameters (city : Text) (en : Bool) : List Text :=
  ["name=".toList ++ urlEncode city, "language=".toList ++ language en, "count=1".toList]

theorem query_eq (encoded lang : Text) :
    "name=".toList ++ encoded ++ "&language=".toList ++ lang ++ "&count=1".toList =
      ("name=".toList ++ encoded) ++ '&' :: (("language=".toList ++ lang) ++ '&' :: "count=1".toList) := by
  have hlanguage : "&language=".toList = '&' :: "language=".toList := by decide
  have hcount : "&count=1".toList = '&' :: "count=1".toList := by decide
  rw [hlanguage, hcount, List.append_assoc, List.append_assoc, List.cons_append, List.append_assoc]
  rfl

theorem geocodingQuery_eq (city : Text) (en : Bool) : geocodingQuery city en =
    ("name=".toList ++ urlEncode city) ++ '&' :: (("language=".toList ++ language en) ++ '&' :: "count=1".toList) :=
  query_eq (urlEncode city) (language en)

theorem not_mem_parameters {c : Char} (hc : reserved c = true) (hne : c ≠ '=') (city : Text) (en : Bool) :
    ∀ p ∈ parameters city en, c ∉ p := by
  have hfixed : ∀ c ∈ [' ', '&', '#', '?', '=', '+'], c ≠ '=' →
      c ∉ "name=".toList ∧ c ∉ "language=en".toList ∧ c ∉ "language=fr".toList ∧
        c ∉ "count=1".toList := by
    rw [← List.all_iff_forall_prop]
    decide
  obtain ⟨hname, hen, hfr, hcount⟩ := hfixed c (of_decide_eq_true hc) hne
  intro p hp hmem
  simp only [parameters, List.mem_cons, List.not_mem_nil, or_false] at hp
  rcases hp with rfl | rfl | rfl
  · rcases List.mem_append.mp hmem with h | h
    · exact hname h
    · exact not_mem_urlEncode hc city h
  · cases en with
    | true => exact hen hmem
    | false => exact hfr hmem
  · exact hcount hmem

theorem not_mem_geocodingQuery {c : Char} (hc : reserved c = true) (hamp : c ≠ '&') (hne : c ≠ '=') (city : Text)
    (en : Bool) : c ∉ geocodingQuery city en := by
  have hnone := not_mem_parameters hc hne city en
  intro hmem
  rw [geocodingQuery_eq] at hmem
  rcases List.mem_append.mp hmem with h | h
  · exact hnone _ List.mem_cons_self h
  · rcases List.mem_cons.mp h with h | h
    · exact hamp h
    · rcases List.mem_append.mp h with h | h
      · exact hnone _ (List.mem_cons_of_mem _ List.mem_cons_self) h
      · rcases List.mem_cons.mp h with h | h
        · exact hamp h
        · exact hnone _ (List.mem_cons_of_mem _ (List.mem_cons_of_mem _ List.mem_cons_self)) h

/-- **A city is one parameter.** Whatever the city, the query is cut at its `&`
into the three parameters, no other separator is in it, and the first parameter
is read as the city, byte by byte, exactly if the city spells no escape. -/
theorem query_parameters (cfg : Config) (city : Text) (en : Bool) :
    geocodingUrl cfg city en =
        baseUrl cfg.geocodingBaseUrl geocodingDefaultBase ++ "/v1/search?".toList ++ geocodingQuery city en ∧
      (geocodingQuery city en).splitOn '&' = parameters city en ∧
      (∀ c ∈ [' ', '#', '?', '+'], c ∉ geocodingQuery city en) ∧
      Str.splitOnce "=".toList ("name=".toList ++ urlEncode city) = some ("name".toList, urlEncode city) ∧
      '=' ∉ urlEncode city ∧
      (Percent.decode (urlEncode city) = utf8.encode city ↔ Percent.Plain city) := by
  refine ⟨rfl, ?_, ?_, rfl, not_mem_urlEncode (by decide) city, ?_⟩
  · rw [geocodingQuery_eq]
    exact List.splitOn_intercalate '&' (not_mem_parameters (by decide) (by decide) city en) (List.cons_ne_nil _ _)
  · intro c hc
    have hall : ∀ c ∈ [' ', '#', '?', '+'], reserved c = true ∧ c ≠ '&' ∧ c ≠ '=' := by
      rw [← List.all_iff_forall_prop]
      decide
    obtain ⟨hres, hamp, hne⟩ := hall c hc
    exact not_mem_geocodingQuery hres hamp hne city en
  · rw [urlEncode_eq]
    exact Percent.decode_encode_iff escapable_reserved city

example : urlEncode "Aix & Co".toList = "Aix%20%26%20Co".toList ∧ ¬ Percent.Plain "Aix%26".toList := by decide

end AthenaVoice.Skills.Weather
