import AthenaVoice.Skills.JeedomRules
import Mathlib.Data.Char
import Mathlib.Data.List.Destutter
import Mathlib.Data.List.Lex
import Mathlib.Data.List.Sort

/-
  The sensors' rules and what they read — `skills-jeedom/src/lib.rs`

  A sensor has a rule of literal phrases, with its id in the intent's name, and
  shares a rule with the sensors that measure the same, with the word for it in
  the intent's name. The handler takes the first sensor of the id; of the word it
  takes every sensor that measures it, and every other whose name has the word
  in it. It reads each by a GET, and says so if it cannot.

  What is proved:
    1. `mem_rulesFor`, `filter_patternRules` — every rule for sensors is the general
       one, a sensor's or a metric's.
    2. `ensures_readClauses` — an enumeration reads each sensor once, in order,
       and has a clause for each, read or not.
    3. `sensor_rules_answered` — an intent of a sensor's rule reads the sensor; an
       intent of a metric's rule reads all that measure it; and neither does
       anything else.

  Correspondence (Rust ↔ Lean):
    `join_prefix`, `dans_article`    `joinPrefix`, `dansArticle`
    `rules_for`                      `rulesFor`, by `readRule`, `sensorRule`, `metricRule`
    `pattern_rules`                  `patternRules`
-/

namespace AthenaVoice.Skills.Jeedom

open Lib Sdk Storage

/-! ## The rules -/

/-- `join_prefix`: no space after an elided form. -/
def joinPrefix (word room : Text) : Text :=
  if "'".toList.isSuffixOf word || "’".toList.isSuffixOf word then word ++ room else word ++ " ".toList ++ room

def dansArticle (word : Text) : Option Text :=
  let word := Str.trim word
  if word = "du".toList then some "le".toList
  else if word = "de la".toList then some "la".toList
  else if word = "de l'".toList ∨ word = "de l’".toList then some "l'".toList
  else none

def readName : Text := "jeedom.read".toList

def sensorPrefix : Text := "jeedom.read.".toList

def metricPrefix : Text := "jeedom.read_all.".toList

/-- The rule with a slot for the sensor, in a locale that is known. -/
def readRule (locale : Text) : Option PatternRule :=
  let slots : List SlotSpec := [{ name := "sensor".toList, kind := .string }]
  if locale = "fr".toList then
    some { intent := readName, slots := slots, phrases := ["capteur \x7bsensor\x7d".toList,
      "valeur du capteur \x7bsensor\x7d".toList, "donne-moi la \x7bsensor\x7d".toList,
        "combien fait la \x7bsensor\x7d".toList] }
  else if locale = "en".toList then
    some { intent := readName, slots := slots, phrases := ["sensor \x7bsensor\x7d".toList,
      "sensor value \x7bsensor\x7d".toList, "give me the \x7bsensor\x7d".toList, "read the \x7bsensor\x7d".toList] }
  else none

/-- What is said of a metric in a room with a connector, in French: the form with
"dans" only if the connector has an article. -/
def connectedPhrases (metric word room : Text) : List Text :=
  let withRoom := joinPrefix word room
  [metric ++ " ".toList ++ withRoom, "quelle est la ".toList ++ metric ++ " ".toList ++ withRoom] ++
    match dansArticle word with
    | some article =>
      let loc := joinPrefix article room
      [metric ++ " dans ".toList ++ loc, "quelle ".toList ++ metric ++ " dans ".toList ++ loc,
        "quelle est la ".toList ++ metric ++ " dans ".toList ++ loc]
    | none => []

/-- Without a connector both genders are offered. -/
def genderedPhrases (metric room : Text) : List Text :=
  ["quelle ".toList ++ metric ++ " dans le ".toList ++ room, "quelle ".toList ++ metric ++ " dans la ".toList ++ room,
    metric ++ " dans le ".toList ++ room, metric ++ " dans la ".toList ++ room,
    "quelle est la ".toList ++ metric ++ " dans le ".toList ++ room,
    "quelle est la ".toList ++ metric ++ " dans la ".toList ++ room,
    "quelle est la ".toList ++ metric ++ " du ".toList ++ room,
      "quelle est la ".toList ++ metric ++ " de la ".toList ++ room,
    metric ++ " du ".toList ++ room, metric ++ " de la ".toList ++ room]

/-- The literal phrases of a sensor. -/
def literalPhrases (rt : Runtime) (locale : Text) (sensor : Sensor) : List Text :=
  let metric := metricOf rt sensor
  if locale = "fr".toList then
    ["quelle est la ".toList ++ sensor.name, "quel est le niveau de ".toList ++ sensor.name] ++
      if sensor.room.isEmpty then []
      else if sensor.prefixWord.isEmpty then genderedPhrases metric sensor.room
      else connectedPhrases metric sensor.prefixWord sensor.room
  else if locale = "en".toList then
    ["what is the ".toList ++ sensor.name, "what's the ".toList ++ sensor.name] ++
      if sensor.room.isEmpty then []
      else [metric ++ " in the ".toList ++ sensor.room,
        "what is the ".toList ++ metric ++ " in the ".toList ++ sensor.room]
  else []

/-- The rule of a sensor; its id is in the name. -/
def sensorRule (rt : Runtime) (locale : Text) (sensor : Sensor) : PatternRule :=
  { intent := sensorPrefix ++ display sensor.id, phrases := literalPhrases rt locale sensor, slots := [] }

def plural (metric : Text) : Text := if "s".toList.isSuffixOf metric then metric else metric ++ "s".toList

/-- The rule that enumerates a metric. -/
def metricRule (locale metric : Text) : PatternRule :=
  { intent := metricPrefix ++ metric
    phrases :=
      if locale = "fr".toList then ["toutes les ".toList ++ plural metric, "toutes les ".toList ++ metric]
      else if locale = "en".toList then ["all ".toList ++ plural metric, "all the ".toList ++ plural metric]
      else []
    slots := [] }

/-- What is measured: `sort`, then `dedup`. -/
def metrics (rt : Runtime) (configured : List Sensor) : List Text :=
  ((configured.map (metricOf rt)).insertionSort (· ≤ ·)).destutter (· ≠ ·)

def rulesFor (rt : Runtime) (locale : Text) (configured : List Sensor) : List PatternRule :=
  if configured.isEmpty then []
  else
    match readRule locale with
    | none => []
    | some rule => rule :: configured.map (sensorRule rt locale) ++ (metrics rt configured).map (metricRule locale)

def patternRules (rt : Runtime) (locale : Text) (cfg : Config) : List PatternRule :=
  rulesFor rt locale cfg.sensors ++ actionRules locale cfg.actions ++ shutterRules locale cfg.shutters ++
    if cfg.actions.any (·.confirm) || cfg.shutters.any (·.confirm) then confirmRules locale else []

section Rules

variable {rt : Runtime} {cfg : Config}

theorem metrics_eq (rt : Runtime) (configured : List Sensor) :
    metrics rt configured = ((configured.map (metricOf rt)).insertionSort (· ≤ ·)).dedup :=
  (List.pairwise_insertionSort (· ≤ ·) _).destutter_eq_dedup

theorem mem_metrics {configured : List Sensor} {metric : Text} :
    metric ∈ metrics rt configured ↔ ∃ s ∈ configured, metricOf rt s = metric := by
  rw [metrics_eq, List.mem_dedup, List.mem_insertionSort, List.mem_map]

theorem nodup_metrics (rt : Runtime) (configured : List Sensor) : (metrics rt configured).Nodup := by
  rw [metrics_eq]
  exact List.nodup_dedup _

/-- **Every rule** is the general one, a configured sensor's, or one of what a
configured sensor measures. -/
theorem mem_rulesFor {locale : Text} {configured : List Sensor} {r : PatternRule}
    (hr : r ∈ rulesFor rt locale configured) :
    readRule locale = some r ∨ ∃ s ∈ configured, r = sensorRule rt locale s ∨
      r = metricRule locale (metricOf rt s) := by
  unfold rulesFor at hr
  split at hr
  · cases hr
  · cases hrule : readRule locale with
    | none =>
      rw [hrule] at hr
      cases hr
    | some rule =>
      rw [hrule] at hr
      simp only [List.mem_append, List.mem_cons, List.mem_map] at hr
      rcases hr with (rfl | ⟨s, hs, rfl⟩) | ⟨metric, hmetric, rfl⟩
      · exact .inl rfl
      · exact .inr ⟨s, hs, .inl rfl⟩
      · obtain ⟨s, hs, rfl⟩ := mem_metrics.mp hmetric
        exact .inr ⟨s, hs, .inr rfl⟩

theorem rules_of_sensor {locale : Text} {configured : List Sensor} {s : Sensor} (hs : s ∈ configured)
    (hlocale : (readRule locale).isSome = true) :
    sensorRule rt locale s ∈ rulesFor rt locale configured ∧
      metricRule locale (metricOf rt s) ∈ rulesFor rt locale configured := by
  obtain ⟨rule, hrule⟩ := Option.isSome_iff_exists.mp hlocale
  have hne : ¬ configured.isEmpty = true := by
    intro hempty
    rw [List.isEmpty_iff.mp hempty] at hs
    cases hs
  unfold rulesFor
  rw [if_neg hne, hrule]
  constructor
  · exact List.mem_append_left _ (List.mem_cons_of_mem _ (List.mem_map_of_mem hs))
  · exact List.mem_append_right _ (List.mem_map_of_mem (mem_metrics.mpr ⟨s, hs, rfl⟩))

/-! ### Rules by their names -/

/-- The name of a rule for sensors. -/
def isReading (r : PatternRule) : Bool := readName.isPrefixOf r.intent

theorem readRule_intent {locale : Text} {r : PatternRule} (hr : readRule locale = some r) : r.intent = readName := by
  unfold readRule at hr
  simp only at hr
  split at hr
  · cases hr
    rfl
  · split at hr
    · cases hr
      rfl
    · cases hr

theorem isReading_of_sensors {locale : Text} {configured : List Sensor} {r : PatternRule}
    (hr : r ∈ rulesFor rt locale configured) : isReading r = true := by
  unfold isReading
  rcases mem_rulesFor hr with hrule | ⟨s, -, rfl | rfl⟩
  · rw [readRule_intent hrule]
    decide
  · rfl
  · rfl

theorem not_isReading_of_actions {locale : Text} {devices : List ActionDevice} {r : PatternRule}
    (hr : r ∈ actionRules locale devices) : isReading r = false := by
  obtain ⟨d, -, isOn, phrases, rfl⟩ := mem_actionRules hr
  cases isOn <;> rfl

theorem not_isReading_of_shutters {locale : Text} {list : List Shutter} {r : PatternRule}
    (hr : r ∈ shutterRules locale list) : isReading r = false := by
  rcases mem_shutterRules hr with ⟨s, -, cmd, phrases, rfl, -⟩ | hgroup
  · cases cmd <;> rfl
  · rcases List.mem_pair.mp hgroup with rfl | rfl <;> rfl

theorem not_isReading_of_confirm {locale : Text} {r : PatternRule} (hr : r ∈ confirmRules locale) :
    isReading r = false := by
  unfold confirmRules at hr
  split at hr
  · rcases List.mem_pair.mp hr with rfl | rfl <;> rfl
  · split at hr
    · rcases List.mem_pair.mp hr with rfl | rfl <;> rfl
    · cases hr

/-- **The skill's rules for sensors** are those of `rules_for`. -/
theorem filter_patternRules (rt : Runtime) (locale : Text) (cfg : Config) :
    (patternRules rt locale cfg).filter isReading = rulesFor rt locale cfg.sensors := by
  have hnone : ∀ {l : List PatternRule}, (∀ r ∈ l, isReading r = false) → l.filter isReading = [] := by
    intro l hl
    refine List.filter_eq_nil_iff.mpr fun r hr => ?_
    rw [hl r hr]
    exact Bool.false_ne_true
  have hconfirm : ∀ r ∈ (if cfg.actions.any (·.confirm) || cfg.shutters.any (·.confirm)
    then confirmRules locale else []),
      isReading r = false := by
    intro r hr
    split at hr
    · exact not_isReading_of_confirm hr
    · cases hr
  unfold patternRules
  rw [List.filter_append, List.filter_append, List.filter_append,
    List.filter_eq_self.mpr fun r hr => isReading_of_sensors hr, hnone fun r hr => not_isReading_of_actions hr,
    hnone fun r hr => not_isReading_of_shutters hr, hnone hconfirm, List.append_nil, List.append_nil, List.append_nil]

/-- **A metric has one rule**, in a locale that is known. -/
theorem count_metricRule {locale : Text} {s : Sensor} (hs : s ∈ cfg.sensors)
    (hlocale : (readRule locale).isSome = true) :
    (patternRules rt locale cfg).countP (fun r => r.intent = (metricRule locale (metricOf rt s)).intent) = 1 := by
  obtain ⟨rule, hrule⟩ := Option.isSome_iff_exists.mp hlocale
  have hne : ¬ cfg.sensors.isEmpty = true := by
    intro hempty
    rw [List.isEmpty_iff.mp hempty] at hs
    cases hs
  -- only the rules for sensors have such a name
  have hreading : (patternRules rt locale cfg).countP (fun r => r.intent = (metricRule locale (metricOf rt s)).intent) =
      (rulesFor rt locale cfg.sensors).countP (fun r => r.intent = (metricRule locale (metricOf rt s)).intent) := by
    rw [← filter_patternRules, List.countP_filter]
    refine List.countP_congr fun r _ => ?_
    simp only [Bool.and_eq_true, decide_eq_true_eq]
    refine ⟨fun heq => ⟨heq, ?_⟩, fun h => h.1⟩
    rw [isReading, heq]
    rfl
  have hsensors : (cfg.sensors.map (sensorRule rt locale)).countP
      (fun r => r.intent = (metricRule locale (metricOf rt s)).intent) = 0 := by
    refine List.countP_eq_zero.mpr fun r hr => ?_
    obtain ⟨s', -, rfl⟩ := List.mem_map.mp hr
    rw [decide_eq_true_eq]
    exact ne_of_apply_ne (fun name : Text => name[11]?) (show some '.' ≠ some '_' by decide)
  have hmetrics : ((metrics rt cfg.sensors).map (metricRule locale)).countP
      (fun r => r.intent = (metricRule locale (metricOf rt s)).intent) = 1 := by
    rw [List.countP_map, ← List.count_eq_one_of_mem (nodup_metrics rt cfg.sensors) (mem_metrics.mpr ⟨s, hs, rfl⟩)]
    refine List.countP_congr fun metric _ => ?_
    show decide (metricPrefix ++ metric = metricPrefix ++ metricOf rt s) = true ↔ (metric == metricOf rt s) = true
    rw [decide_eq_true_eq, List.append_cancel_left_eq, beq_iff_eq]
  have hgeneral : ¬ rule.intent = (metricRule locale (metricOf rt s)).intent := by
    rw [readRule_intent hrule]
    exact ne_of_apply_ne (fun name : Text => name[11]?) (show none ≠ some '_' by decide)
  rw [hreading]
  unfold rulesFor
  rw [if_neg hne, hrule]
  simp only
  rw [List.countP_append, List.countP_cons, hsensors, hmetrics, if_neg (by rw [decide_eq_true_eq]; exact hgeneral)]

end Rules

/-! ## What is read -/

section Reads

variable {rt : Runtime} {cfg : Config} {intent : Intent}

/-- What a sensor was read as: the GET of its URL, if there is one, has been answered so. -/
def ReadAs (cfg : Config) (calls : Prog.Trace Call Call.Answer) (sensor : Sensor) (value : Option Text) : Prop :=
  match jeedomUrl cfg sensor.id with
  | none => value = none
  | some url => ∃ body : Option Body, (⟨.httpGetJson url, body⟩ : Σ c : Call, c.Answer) ∈ calls ∧
      value = body.map (fun b => (b.value.getD b.whole).spoken)

/-- The clause of a sensor, read or not. -/
def clauseOf (sensor : Sensor) (en : Bool) : Option Text → Text
  | some v => enumClause sensor v en
  | none => place sensor ++ (if en then " unavailable".toList else " indisponible".toList)

def urls (cfg : Config) (l : List Sensor) : List Text := l.filterMap (fun s => jeedomUrl cfg s.id)

theorem ReadAs.mono {calls more : Prog.Trace Call Call.Answer} {sensor : Sensor} {value : Option Text}
    (h : ReadAs cfg calls sensor value) (hsub : calls ⊆ more) : ReadAs cfg more sensor value := by
  unfold ReadAs at h ⊢
  cases hurl : jeedomUrl cfg sensor.id with
  | none =>
    rw [hurl] at h
    exact h
  | some url =>
    rw [hurl] at h
    obtain ⟨body, hbody, hvalue⟩ := h
    exact ⟨body, hsub hbody, hvalue⟩

theorem gets_append (calls more : Prog.Trace Call Call.Answer) : gets (calls ++ more) = gets calls ++ gets more :=
  List.filterMap_append

theorem ensures_readValue (s : Store) (sensor : Sensor) :
    Prog.Ensures serve s (readValue cfg sensor) (fun s' calls value =>
      s' = s ∧ gets calls = urls cfg [sensor] ∧ ReadAs cfg calls sensor value) := by
  have hone : urls cfg [sensor] = (jeedomUrl cfg sensor.id).toList := by
    unfold urls
    cases hurl : jeedomUrl cfg sensor.id with
    | none => simp [hurl]
    | some url => simp [hurl]
  unfold readValue ReadAs
  rw [hone]
  cases jeedomUrl cfg sensor.id with
  | none => exact ⟨rfl, rfl, rfl⟩
  | some url =>
    intro m
    exact ⟨rfl, rfl, m.http, List.mem_cons_self, rfl⟩

/-- **An enumeration.** Each sensor is read once, in order, and has its clause. -/
theorem ensures_readClauses (en : Bool) : ∀ (l : List Sensor) (s : Store),
    Prog.Ensures serve s (readClauses cfg en l) (fun s' calls clauses => s' = s ∧ gets calls = urls cfg l ∧
      List.Forall₂ (fun sensor clause => ∃ value, ReadAs cfg calls sensor value ∧
        clause = clauseOf sensor en value) l clauses) := by
  intro l
  induction l with
  | nil =>
    intro s
    exact ⟨rfl, rfl, .nil⟩
  | cons sensor rest ih =>
    intro s
    apply Prog.ensures_bind
    apply Prog.ensures_mono (ensures_readValue s sensor)
    rintro s' calls value ⟨rfl, hgets, hread⟩
    apply Prog.ensures_bind
    apply Prog.ensures_mono (ih s')
    rintro s'' more clauses ⟨rfl, hmore, hclauses⟩
    refine ⟨rfl, ?_, .cons ⟨value, hread.mono (List.subset_append_left _ _), ?_⟩ ?_⟩
    · rw [gets_append, hgets, List.append_nil, hmore]
      exact (List.filterMap_append (f := fun s => jeedomUrl cfg s.id) (l := [sensor])).symm
    · cases value <;> rfl
    · refine hclauses.imp ?_
      rintro other clause ⟨value', hread', hclause⟩
      refine ⟨value', hread'.mono ?_, hclause⟩
      intro c hc
      exact List.mem_append_right _ (List.mem_append_left _ hc)

/-- The sensors an enumeration of a metric is of. -/
def measuring (rt : Runtime) (cfg : Config) (metric : Text) : List Sensor :=
  cfg.sensors.filter (fun s => metricOf rt s == metric || (Str.find s.name metric).isSome)

/-- Handling the intent reads the sensor and says what it reads, and that is all. -/
def ReadsOne (rt : Runtime) (cfg : Config) (intent : Intent) (sensor : Sensor) : Prop :=
  ∀ (e : Nat → Moment) (s : Store), let r := Prog.exec serve e s (handle rt cfg intent)
    r.1 = s ∧ gets r.2.1 = urls cfg [sensor] ∧ ∃ value, ReadAs cfg r.2.1 sensor value ∧
      r.2.2 = speak (value.elim (cannotReach (isEn intent)) (fun v => phraseReading sensor v (isEn intent)))

/-- Handling the intent reads each sensor of the list, in order, and has a clause
for each, and that is all. -/
def Enumerates (rt : Runtime) (cfg : Config) (intent : Intent) (l : List Sensor) : Prop :=
  ∀ (e : Nat → Moment) (s : Store), let r := Prog.exec serve e s (handle rt cfg intent)
    r.1 = s ∧ gets r.2.1 = urls cfg l ∧ ∃ clauses, r.2.2 = speak (Str.join ", ".toList clauses) ∧
      List.Forall₂ (fun sensor clause => ∃ value, ReadAs cfg r.2.1 sensor value ∧
        clause = clauseOf sensor (isEn intent) value) l clauses

theorem handle_sensorName {sensor : Sensor} {id : Nat} (hname : intent.name = sensorPrefix ++ display id)
    (hid : id < 2 ^ 64)
    (hfirst : cfg.sensors.find? (fun s => s.id == id) = some sensor) :
    handle rt cfg intent = speakReading cfg sensor (isEn intent) := by
  have hstrip : Str.stripPrefix "jeedom.read.".toList intent.name = some (display id) :=
    Str.stripPrefix_eq_some.mpr hname
  have htarget : readTarget cfg intent.name = some sensor := by
    unfold readTarget
    rw [hstrip, Option.bind_some, parseU64_display hid]
    exact hfirst
  unfold handle
  rw [htarget]

theorem handle_metricName {metric : Text} (hname : intent.name = metricPrefix ++ metric) :
    handle rt cfg intent = handleReadAll rt cfg metric (isEn intent) := by
  have hapart : Str.stripPrefix "jeedom.read.".toList intent.name = none := by
    rw [hname]
    exact Str.stripPrefix_apart (by decide) (by decide) metric
  have hstrip : Str.stripPrefix "jeedom.read_all.".toList intent.name = some metric :=
    Str.stripPrefix_eq_some.mpr hname
  have htarget : readTarget cfg intent.name = none := by
    unfold readTarget
    rw [hapart]
    rfl
  unfold handle
  rw [htarget, hstrip]

theorem readsOne_of_handle {sensor : Sensor} (h : handle rt cfg intent = speakReading cfg sensor (isEn intent)) :
    ReadsOne rt cfg intent sensor := by
  intro e s
  rw [h]
  refine Prog.exec_of_ensures (Q := fun s' calls result => s' = s ∧ gets calls = urls cfg [sensor] ∧
    ∃ value, ReadAs cfg calls sensor value ∧
      result = speak (value.elim (cannotReach (isEn intent)) (fun v => phraseReading sensor v (isEn intent)))) ?_ e
  apply Prog.ensures_bind
  apply Prog.ensures_mono (ensures_readValue s sensor)
  rintro s' calls value ⟨hs, hgets, hread⟩
  have hread' : ReadAs cfg (calls ++ []) sensor value := hread.mono (List.subset_append_left _ _)
  cases value with
  | none => exact ⟨hs, by rw [List.append_nil, hgets], none, hread', rfl⟩
  | some v => exact ⟨hs, by rw [List.append_nil, hgets], some v, hread', rfl⟩

theorem enumerates_of_handle {metric : Text} (h : handle rt cfg intent = handleReadAll rt cfg metric (isEn intent))
    (hne : measuring rt cfg metric ≠ []) : Enumerates rt cfg intent (measuring rt cfg metric) := by
  intro e s
  rw [h]
  refine Prog.exec_of_ensures (Q := fun s' calls result => s' = s ∧
    gets calls = urls cfg (measuring rt cfg metric) ∧
    ∃ clauses, result = speak (Str.join ", ".toList clauses) ∧ List.Forall₂ (fun sensor clause => ∃ value,
      ReadAs cfg calls sensor value ∧ clause = clauseOf sensor (isEn intent) value)
        (measuring rt cfg metric) clauses) ?_ e
  have hsome : ¬ (measuring rt cfg metric).isEmpty = true := by
    intro hempty
    exact hne (List.isEmpty_iff.mp hempty)
  show Prog.Ensures serve s (if (measuring rt cfg metric).isEmpty then _ else _) _
  rw [if_neg hsome]
  apply Prog.ensures_bind
  apply Prog.ensures_mono (ensures_readClauses (isEn intent) (measuring rt cfg metric) s)
  rintro s' calls clauses ⟨hs, hgets, hclauses⟩
  refine ⟨hs, by rw [List.append_nil, hgets], clauses, rfl, ?_⟩
  rw [List.append_nil]
  exact hclauses

end Reads

/-- **Sensors' rules and the handler agree.** Of the skill's rules those for
sensors are the general one and those of the configured sensors; in a locale that
is known every sensor has its two, and every metric one. An intent of a sensor's own rule reads the first sensor
of its id. An intent of its metric's rule reads every sensor of that metric, and
of the others those whose name holds it, each once and in the configured order.
The store is left as it is and nothing but sensors is asked for. -/
theorem sensor_rules_answered (rt : Runtime) (cfg : Config) (locale : Text) :
    (patternRules rt locale cfg).filter isReading = rulesFor rt locale cfg.sensors ∧
    (∀ r ∈ rulesFor rt locale cfg.sensors, readRule locale = some r ∨
      ∃ s ∈ cfg.sensors, r = sensorRule rt locale s ∨ r = metricRule locale (metricOf rt s)) ∧
    (metrics rt cfg.sensors).Nodup ∧
    ∀ s ∈ cfg.sensors,
      ((readRule locale).isSome = true → sensorRule rt locale s ∈ rulesFor rt locale cfg.sensors ∧
        metricRule locale (metricOf rt s) ∈ rulesFor rt locale cfg.sensors ∧
        (patternRules rt locale cfg).countP (fun r => r.intent = (metricRule locale (metricOf rt s)).intent) = 1) ∧
      (s.id < 2 ^ 64 → ∀ intent : Intent, intent.name = (sensorRule rt locale s).intent →
        ∃ first, cfg.sensors.find? (fun s' => s'.id == s.id) = some first ∧ ReadsOne rt cfg intent first) ∧
      (∀ intent : Intent, intent.name = (metricRule locale (metricOf rt s)).intent →
        Enumerates rt cfg intent (measuring rt cfg (metricOf rt s)) ∧
          ∀ s' ∈ cfg.sensors, metricOf rt s' = metricOf rt s → s' ∈ measuring rt cfg (metricOf rt s)) := by
  refine ⟨filter_patternRules rt locale cfg, fun r hr => mem_rulesFor hr, nodup_metrics rt cfg.sensors, ?_⟩
  intro s hs
  have hmem : ∀ s' ∈ cfg.sensors, metricOf rt s' = metricOf rt s → s' ∈ measuring rt cfg (metricOf rt s) := by
    intro s' hs' hmetric
    refine List.mem_filter.mpr ⟨hs', ?_⟩
    rw [hmetric, beq_self_eq_true, Bool.true_or]
  refine ⟨?_, ?_, ?_⟩
  · intro hlocale
    obtain ⟨hown, hmetric⟩ := rules_of_sensor hs hlocale
    exact ⟨hown, hmetric, count_metricRule hs hlocale⟩
  · intro hid intent hname
    obtain ⟨first, hfirst⟩ := Option.isSome_iff_exists.mp
      (List.find?_isSome.mpr ⟨s, hs,
        beq_self_eq_true s.id⟩ : (cfg.sensors.find? (fun s' => s'.id == s.id)).isSome = true)
    exact ⟨first, hfirst, readsOne_of_handle (handle_sensorName hname hid hfirst)⟩
  · intro intent hname
    exact ⟨enumerates_of_handle (handle_metricName hname) (List.ne_nil_of_mem (hmem s hs rfl)), hmem⟩

/-- A thermometer in the living room, and one in the bedroom. -/
def salon : Sensor :=
  { name := "température du salon".toList, id := 4, unit := "degrés".toList, room := "salon".toList, kind := []
    onLabel := [], offLabel := [], prefixWord := "du".toList }

def chambre : Sensor :=
  { salon with name := "température de la chambre".toList, id := 5, room := "chambre".toList, prefixWord := [] }

def sensorsConfig : Config := { lampsConfig with actions := [], sensors := [salon, chambre] }

/-- The rule of the second sensor reads it, and the rule of temperatures reads both. -/
theorem salon_and_chambre_read :
    ReadsOne .ascii sensorsConfig (frIntent "jeedom.read.5".toList []) chambre ∧
    Enumerates .ascii sensorsConfig (frIntent "jeedom.read_all.température".toList [])
      (measuring .ascii sensorsConfig (metricOf .ascii salon)) ∧
    measuring .ascii sensorsConfig (metricOf .ascii salon) = [salon, chambre] := by
  obtain ⟨_, _, _, hsensors⟩ := sensor_rules_answered .ascii sensorsConfig "fr".toList
  refine ⟨?_, ?_, by decide +kernel⟩
  · obtain ⟨_, hread, _⟩ := hsensors chambre (List.mem_cons_of_mem _ List.mem_cons_self)
    obtain ⟨first, hfirst, hreads⟩ := hread (by decide) (frIntent "jeedom.read.5".toList []) (by decide)
    have hchambre : chambre = first := Option.some.inj hfirst
    subst hchambre
    exact hreads
  · obtain ⟨_, _, hall⟩ := hsensors salon List.mem_cons_self
    exact (hall (frIntent "jeedom.read_all.température".toList []) (by decide +kernel)).1

example : (rulesFor .ascii "fr".toList [salon, chambre]).map (·.intent) =
      ["jeedom.read".toList, "jeedom.read.4".toList, "jeedom.read.5".toList, "jeedom.read_all.température".toList] ∧
    "température dans le salon".toList ∈ literalPhrases .ascii "fr".toList salon := by decide +kernel

end AthenaVoice.Skills.Jeedom
