import AthenaVoice.Skills.JeedomHandle

/-
  Generated rules and the handler that resolves them — `skills-jeedom/src/lib.rs`

  For every on/off device and every shutter the skill registers pattern rules.
  A rule carries no slot for the device, so its intent's name does: the device's
  `on_id` or the shutter's `up_id`, whatever the direction. The handler reads
  the id back and takes the first device of its list that has it.

  What is proved:
    1. `mem_actionRules`, `mem_shutterRules` — every generated rule is one of a
       configured device, for a direction the device has.
    2. `handle_actionRule`, `handle_shutterRule` — an intent of such a name is
       handled for the first device with that id, in that direction.
    3. `rules_reach_first_keyed` — so it acts on, or asks about, that device's
       command and no other; the command is the rule's own device's for "on" and
       "open", and in every direction where no earlier device shares the id.

  Correspondence (Rust ↔ Lean):
    `action_rules`, `shutter_rules`, `confirm_rules`   `actionRules`, `shutterRules`, `confirmRules`
-/

namespace AthenaVoice.Skills.Jeedom

open Lib Sdk Storage

/-! ## On/off devices -/

/-- The on and off phrases of a locale. -/
def actionPhrases (locale name : Text) : Option (List Text × List Text) :=
  if locale = "fr".toList then
    some
      (["allume la ".toList ++ name, "allume le ".toList ++ name, "allume ".toList ++ name, "active ".toList ++ name],
       ["éteins la ".toList ++ name, "éteins le ".toList ++ name, "éteins ".toList ++ name, "coupe ".toList ++ name,
        "désactive ".toList ++ name])
  else if locale = "en".toList then
    some
      (["turn on the ".toList ++ name, "turn on ".toList ++ name, "switch on the ".toList ++ name],
       ["turn off the ".toList ++ name, "turn off ".toList ++ name, "switch off the ".toList ++ name])
  else none

/-- The rule of a device for one direction; its key is `on_id` for both. -/
def ActionDevice.rule (d : ActionDevice) (isOn : Bool) (phrases : List Text) : PatternRule :=
  { intent := turnWord isOn ++ display d.onId, phrases := phrases, slots := [] }

/-- The loop of `action_rules`; in a locale it does not know there are no rules at all. -/
def actionRulesFrom (locale : Text) : List ActionDevice → List PatternRule → List PatternRule
  | [], rules => rules
  | d :: ds, rules =>
    match actionPhrases locale d.name with
    | none => []
    | some (onPhrases, offPhrases) =>
        actionRulesFrom locale ds (rules ++ [d.rule true onPhrases, d.rule false offPhrases])

def actionRules (locale : Text) (devices : List ActionDevice) : List PatternRule :=
  if devices.isEmpty then [] else actionRulesFrom locale devices []

def confirmRules (locale : Text) : List PatternRule :=
  if locale = "fr".toList then
    [{ intent := confirmName, phrases := ["oui".toList, "confirme".toList, "c'est confirmé".toList], slots := [] },
     { intent := cancelName, phrases := ["non".toList, "annule".toList], slots := [] }]
  else if locale = "en".toList then
    [{ intent := confirmName, phrases := ["yes".toList, "confirm".toList], slots := [] },
     { intent := cancelName, phrases := ["no".toList, "cancel".toList], slots := [] }]
  else []

/-! ## Shutters -/

/-- The phrases of a locale for a command on a shutter. -/
def shutterPhrases (locale name : Text) : Option (ShutterCmd → List Text) :=
  if locale = "fr".toList then
    some fun
      | .opens => ["ouvre le ".toList ++ name, "ouvre la ".toList ++ name, "ouvre ".toList ++ name,
          "monte le ".toList ++ name, "lève le ".toList ++ name]
      | .closes => ["ferme le ".toList ++ name, "ferme la ".toList ++ name, "ferme ".toList ++ name,
          "descends le ".toList ++ name, "baisse le ".toList ++ name]
      | .stops => ["stop le ".toList ++ name, "stop ".toList ++ name, "arrête le ".toList ++ name]
      | .pos _ => ["ouvre le ".toList ++ name ++ " à \x7bposition\x7d".toList,
          "ouvre le ".toList ++ name ++ " à \x7bposition\x7d pour cent".toList,
          "mets le ".toList ++ name ++ " à \x7bposition\x7d".toList,
          "mets le ".toList ++ name ++ " à \x7bposition\x7d pour cent".toList]
  else if locale = "en".toList then
    some fun
      | .opens => ["open the ".toList ++ name, "open ".toList ++ name, "raise the ".toList ++ name]
      | .closes => ["close the ".toList ++ name, "close ".toList ++ name, "lower the ".toList ++ name]
      | .stops => ["stop the ".toList ++ name, "stop ".toList ++ name]
      | .pos _ => ["set the ".toList ++ name ++ " to \x7bposition\x7d".toList,
          "set the ".toList ++ name ++ " to \x7bposition\x7d percent".toList,
          "open the ".toList ++ name ++ " to \x7bposition\x7d percent".toList]
  else none

def ShutterCmd.slots : ShutterCmd → List SlotSpec
  | .pos _ => [{ name := "position".toList, kind := .number }]
  | _ => []

/-- The rule of a shutter for one command; its key is `up_id` for all. -/
def Shutter.rule (s : Shutter) (cmd : ShutterCmd) (phrases : List Text) : PatternRule :=
  { intent := cmd.word ++ display s.upId, phrases := phrases, slots := cmd.slots }

/-- The rules of one shutter; a stop and a position only if it has the command. -/
def Shutter.rules (s : Shutter) (phrases : ShutterCmd → List Text) : List PatternRule :=
  [s.rule .opens (phrases .opens), s.rule .closes (phrases .closes)] ++
    (if s.stopId ≠ 0 then [s.rule .stops (phrases .stops)] else []) ++
    (if s.sliderId ≠ 0 then [s.rule (.pos 0) (phrases (.pos 0))] else [])

/-- The two rules for all shutters. -/
def groupRules (locale : Text) : List PatternRule :=
  let phrases : List Text × List Text :=
    if locale = "fr".toList then
      (["ouvre tous les volets".toList, "ouvre les volets".toList],
        ["ferme tous les volets".toList, "ferme les volets".toList])
    else if locale = "en".toList then
      (["open all the shutters".toList, "open the shutters".toList],
       ["close all the shutters".toList, "close the shutters".toList])
    else ([], [])
  [{ intent := openAllName, phrases := phrases.1, slots := [] },
    { intent := closeAllName, phrases := phrases.2, slots := [] }]

/-- The loop of `shutter_rules`, and what follows it. -/
def shutterRulesFrom (locale : Text) : List Shutter → List PatternRule → List PatternRule
  | [], rules => rules ++ groupRules locale
  | s :: ss, rules =>
    match shutterPhrases locale s.name with
    | none => []
    | some phrases => shutterRulesFrom locale ss (rules ++ s.rules phrases)

def shutterRules (locale : Text) (list : List Shutter) : List PatternRule :=
  if list.isEmpty then [] else shutterRulesFrom locale list []

/-! ## What is generated -/

/-- The rule is one of the device, for one of its directions. -/
def ActionDevice.Generates (d : ActionDevice) (r : PatternRule) : Prop := ∃ isOn phrases, r = d.rule isOn phrases

/-- The shutter has the command: every shutter opens and closes. -/
def Shutter.Has (s : Shutter) : ShutterCmd → Prop
  | .stops => s.stopId ≠ 0
  | .pos _ => s.sliderId ≠ 0
  | _ => True

/-- The rule is one of the shutter, for a command it has. -/
def Shutter.Generates (s : Shutter) (r : PatternRule) : Prop := ∃ cmd phrases, r = s.rule cmd phrases ∧ s.Has cmd

theorem mem_actionRulesFrom {locale : Text} {r : PatternRule} : ∀ (ds : List ActionDevice) (rules : List PatternRule),
    r ∈ actionRulesFrom locale ds rules → r ∈ rules ∨ ∃ d ∈ ds, d.Generates r := by
  intro ds
  induction ds with
  | nil =>
    intro rules hr
    exact Or.inl hr
  | cons d ds ih =>
    intro rules hr
    unfold actionRulesFrom at hr
    cases hphrases : actionPhrases locale d.name with
    | none =>
      rw [hphrases] at hr
      cases hr
    | some p =>
      rw [hphrases] at hr
      rcases ih _ hr with hr | ⟨d', hd', hgen⟩
      · rcases List.mem_append.mp hr with hr | hr
        · exact Or.inl hr
        · refine Or.inr ⟨d, List.mem_cons_self, ?_⟩
          rcases List.mem_pair.mp hr with heq | heq
          · exact ⟨true, p.1, heq⟩
          · exact ⟨false, p.2, heq⟩
      · exact Or.inr ⟨d', List.mem_cons_of_mem d hd', hgen⟩

/-- **A rule of `action_rules` is one of a configured device.** -/
theorem mem_actionRules {locale : Text} {devices : List ActionDevice} {r : PatternRule}
    (hr : r ∈ actionRules locale devices) : ∃ d ∈ devices, d.Generates r := by
  unfold actionRules at hr
  split at hr
  · cases hr
  · rcases mem_actionRulesFrom devices [] hr with hr | hr
    · cases hr
    · exact hr

theorem Shutter.mem_rules {s : Shutter} {phrases : ShutterCmd → List Text} {r : PatternRule}
    (hr : r ∈ s.rules phrases) : s.Generates r := by
  rcases List.mem_append.mp hr with hr | hr
  · rcases List.mem_append.mp hr with hr | hr
    · rcases List.mem_pair.mp hr with heq | heq
      · exact ⟨.opens, _, heq, trivial⟩
      · exact ⟨.closes, _, heq, trivial⟩
    · by_cases hstop : s.stopId ≠ 0
      · rw [if_pos hstop] at hr
        exact ⟨.stops, _, List.mem_singleton.mp hr, hstop⟩
      · rw [if_neg hstop] at hr
        cases hr
  · by_cases hslider : s.sliderId ≠ 0
    · rw [if_pos hslider] at hr
      exact ⟨.pos 0, _, List.mem_singleton.mp hr, hslider⟩
    · rw [if_neg hslider] at hr
      cases hr

theorem mem_shutterRulesFrom {locale : Text} {r : PatternRule} : ∀ (ss : List Shutter) (rules : List PatternRule),
    r ∈ shutterRulesFrom locale ss rules → r ∈ rules ∨ (∃ s ∈ ss, s.Generates r) ∨
      r ∈ groupRules locale := by
  intro ss
  induction ss with
  | nil =>
    intro rules hr
    rcases List.mem_append.mp hr with hr | hr
    · exact Or.inl hr
    · exact Or.inr (Or.inr hr)
  | cons s ss ih =>
    intro rules hr
    unfold shutterRulesFrom at hr
    cases hphrases : shutterPhrases locale s.name with
    | none =>
      rw [hphrases] at hr
      cases hr
    | some phrases =>
      rw [hphrases] at hr
      rcases ih _ hr with hr | ⟨s', hs', hgen⟩ | hr
      · rcases List.mem_append.mp hr with hr | hr
        · exact Or.inl hr
        · exact Or.inr (Or.inl ⟨s, List.mem_cons_self, s.mem_rules hr⟩)
      · exact Or.inr (Or.inl ⟨s', List.mem_cons_of_mem s hs', hgen⟩)
      · exact Or.inr (Or.inr hr)

/-- **A rule of `shutter_rules` is one of a configured shutter, or for all of them.** -/
theorem mem_shutterRules {locale : Text} {list : List Shutter} {r : PatternRule} (hr : r ∈ shutterRules locale list) :
    (∃ s ∈ list, s.Generates r) ∨ r ∈ groupRules locale := by
  unfold shutterRules at hr
  split at hr
  · cases hr
  · rcases mem_shutterRulesFrom list [] hr with hr | hr
    · cases hr
    · exact hr

/-! ## What is resolved -/

/-- The command of an on/off device, as it is put to the user. -/
def ActionDevice.pending (d : ActionDevice) (isOn en : Bool) : Pending :=
  { cmdId := d.command isOn, label := actionLabel d isOn en, slider := none }

/-- The command of a shutter, as it is put to the user. -/
def Shutter.pending (s : Shutter) (cmd : ShutterCmd) (en : Bool) : Pending :=
  { cmdId := s.command cmd, label := shutterLabel s.name cmd en, slider := cmd.slider }

/-- Handling the intent acts on one command: it is left in the slot and asked
about, or, without confirmation, executed. No other command is executed. -/
def ActsOn (rt : Runtime) (cfg : Config) (intent : Intent) (confirm : Bool) (p : Pending) : Prop :=
  ∀ (e : Nat → Moment) (s : Store), let r := Prog.exec serve e s (handle rt cfg intent)
    if confirm then
      r.1 = s.tmpSet (e 0).now [] pendingKey (rt.pending.encode p) pendingTtlSec ∧ gets r.2.1 = [] ∧
        r.2.2 = question p (isEn intent)
    else r.1 = s ∧ gets r.2.1 = (commandUrl cfg p.cmdId p.slider).toList

/-- The first on/off device of a key. -/
def FirstAction (cfg : Config) (onId : Nat) (d : ActionDevice) : Prop :=
  cfg.actions.find? (fun d => d.onId == onId) = some d

def FirstShutter (cfg : Config) (upId : Nat) (s : Shutter) : Prop :=
  cfg.shutters.find? (fun s => s.upId == upId) = some s

variable {rt : Runtime} {cfg : Config} {intent : Intent}

theorem exists_firstAction {d : ActionDevice} (hd : d ∈ cfg.actions) : ∃ first, FirstAction cfg d.onId first :=
  Option.isSome_iff_exists.mp (List.find?_isSome.mpr ⟨d, hd, beq_self_eq_true d.onId⟩)

theorem exists_firstShutter {s : Shutter} (hs : s ∈ cfg.shutters) : ∃ first, FirstShutter cfg s.upId first :=
  Option.isSome_iff_exists.mp (List.find?_isSome.mpr ⟨s, hs, beq_self_eq_true s.upId⟩)

theorem FirstAction.onId {onId : Nat} {d : ActionDevice} (h : FirstAction cfg onId d) : d.onId = onId := by
  have hkey := List.find?_some h
  exact beq_iff_eq.mp hkey

theorem FirstShutter.upId {upId : Nat} {s : Shutter} (h : FirstShutter cfg upId s) : s.upId = upId := by
  have hkey := List.find?_some h
  exact beq_iff_eq.mp hkey

theorem actsOn_ask {p : Pending} (h : handle rt cfg intent = ask rt p (isEn intent)) : ActsOn rt cfg intent true p := by
  intro e s
  rw [h, exec_ask]
  exact ⟨rfl, rfl, rfl⟩

theorem actsOn_execute {p : Pending} (h : handle rt cfg intent =
    execute cfg p.cmdId p.slider >>= fun executed => pure (doneOrError executed (isEn intent))) :
    ActsOn rt cfg intent false p := by
  intro e s
  rw [h]
  exact exec_execute cfg e s p.cmdId p.slider _

/-- An intent of an on/off rule acts on the first device of its key. -/
theorem handle_actionRule {onId : Nat} {first : ActionDevice} (hfirst : FirstAction cfg onId first)
    (hid : onId < 2 ^ 64)
    {isOn : Bool} (hname : intent.name = turnWord isOn ++ display onId) :
    ActsOn rt cfg intent first.confirm (first.pending isOn (isEn intent)) := by
  have hkey : turnKey intent.name = some (display onId, isOn) := by
    rw [hname, turnKey_word]
  have hfind : findAction cfg (display onId) = some first := by
    rw [findAction, parseU64_display hid]
    exact hfirst
  have hhandle := handle_turn rt cfg intent hkey
  rw [handleTurn, hfind] at hhandle
  cases hconfirm : first.confirm with
  | true => exact actsOn_ask (hhandle.trans (if_pos hconfirm))
  | false => exact actsOn_execute (hhandle.trans (if_neg (by simp [hconfirm])))

/-- What comes of a shutter intent, for a given shutter: the position is asked
for if none can be read, a command without an id is unknown, and a stop is never
put to the user. -/
def ShutterOutcome (rt : Runtime) (cfg : Config) (intent : Intent) (s : Shutter) : Option ShutterCmd → Prop
  | none => handle rt cfg intent = pure (speak (askPosition (isEn intent)))
  | some cmd =>
    if s.command cmd = 0 then handle rt cfg intent = pure (unknownDevice (isEn intent))
    else ActsOn rt cfg intent (s.confirm && cmd != .stops) (s.pending cmd (isEn intent))

/-- An intent of a shutter rule acts on the first shutter of its key. -/
theorem handle_shutterRule {upId : Nat} {first : Shutter} (hfirst : FirstShutter cfg upId first) (hid : upId < 2 ^ 64)
    {cmd : ShutterCmd} (hname : intent.name = cmd.word ++ display upId) :
    ShutterOutcome rt cfg intent first (aim rt intent cmd) := by
  have hkey : shutterKey intent.name = some (display upId, cmd.asked) := by
    rw [hname, shutterKey_word]
  have hfind : findShutter cfg (display upId) = some first := by
    rw [findShutter, parseU64_display hid]
    exact hfirst
  have haim : aim rt intent cmd.asked = aim rt intent cmd := by
    cases cmd <;> rfl
  have hhandle := handle_shutter rt cfg intent hkey
  rw [handleShutter, hfind] at hhandle
  simp only [haim] at hhandle
  cases haimed : aim rt intent cmd with
  | none =>
    rw [haimed] at hhandle
    exact hhandle
  | some cmd =>
    rw [haimed] at hhandle
    unfold ShutterOutcome
    by_cases hzero : first.command cmd = 0
    · simp only [if_pos hzero] at hhandle ⊢
      exact hhandle
    · simp only [if_neg hzero] at hhandle ⊢
      cases hconfirm : first.confirm && cmd != .stops with
      | true => exact actsOn_ask (hhandle.trans (if_pos hconfirm))
      | false => exact actsOn_execute (hhandle.trans (if_neg (by simp [hconfirm])))

/-- **Rules and handler agree, by the first device of the key.** Every generated
rule is one of a configured device. An intent of its name acts on the command
of the first device with that device's key, in the rule's direction: the
device's own for "on" and "open", and in every direction if the device is the
first. -/
theorem rules_reach_first_keyed (rt : Runtime) (cfg : Config) (locale : Text) :
    (∀ r ∈ actionRules locale cfg.actions, ∃ d ∈ cfg.actions, d.Generates r) ∧
    (∀ r ∈ shutterRules locale cfg.shutters, (∃ s ∈ cfg.shutters, s.Generates r) ∨
      r ∈ groupRules locale) ∧
    (∀ d ∈ cfg.actions, d.onId < 2 ^ 64 → ∀ isOn phrases intent, intent.name = (d.rule isOn phrases).intent →
      ∃ first, FirstAction cfg d.onId first ∧
        ActsOn rt cfg intent first.confirm (first.pending isOn (isEn intent)) ∧
        (isOn = true → first.command isOn = d.command isOn)) ∧
    (∀ s ∈ cfg.shutters, s.upId < 2 ^ 64 → ∀ cmd phrases intent, intent.name = (s.rule cmd phrases).intent →
      ∃ first, FirstShutter cfg s.upId first ∧
        ShutterOutcome rt cfg intent first (aim rt intent cmd) ∧
        (cmd = .opens → first.command cmd = s.command cmd)) := by
  refine ⟨fun r hr => mem_actionRules hr, fun r hr => mem_shutterRules hr, ?_, ?_⟩
  · intro d hd hid isOn phrases intent hname
    obtain ⟨first, hfirst⟩ := exists_firstAction hd
    refine ⟨first, hfirst, handle_actionRule hfirst hid hname, ?_⟩
    rintro rfl
    exact hfirst.onId
  · intro s hs hid cmd phrases intent hname
    obtain ⟨first, hfirst⟩ := exists_firstShutter hs
    refine ⟨first, hfirst, handle_shutterRule hfirst hid hname, ?_⟩
    rintro rfl
    exact hfirst.upId

def deskLamp : ActionDevice :=
  { name := "lampe du bureau".toList, room := [], prefixWord := [], onId := 10, offId := 11, confirm := false }

def hallLamp : ActionDevice :=
  { name := "lampe du couloir".toList, room := [], prefixWord := [], onId := 10, offId := 21, confirm := false }

def blind : Shutter :=
  { name := "volet".toList, room := [], prefixWord := [], upId := 30, downId := 31
    stopId := 0, sliderId := 33, confirm := true }

/-- Two lamps that share the command that turns them on, and a shutter. -/
def lampsConfig : Config :=
  { baseUrl := some "http://jeedom.local".toList, apiKey := some "key".toList, sensors := []
    actions := [deskLamp, hallLamp], shutters := [blind] }

def frIntent (name : Text) (slots : Slots) : Intent := { name := name, slots := slots, locale := "fr".toList }

/-- The first lamp is turned off, and half the shutter is put to the user. -/
theorem lamp_and_blind_reached :
    ActsOn .ascii lampsConfig (frIntent "jeedom.turn_off.10".toList []) false (deskLamp.pending false false) ∧
    ActsOn .ascii lampsConfig (frIntent "jeedom.shutter_pos.30".toList [("position".toList, some "50".toList)]) true
      (blind.pending (.pos 50) false) := by
  obtain ⟨_, _, hactions, hshutters⟩ := rules_reach_first_keyed .ascii lampsConfig "fr".toList
  constructor
  · obtain ⟨first, hfirst, hacts, _⟩ := hactions deskLamp List.mem_cons_self (by decide) false []
      (frIntent "jeedom.turn_off.10".toList []) (by decide)
    have hdesk : deskLamp = first := Option.some.inj hfirst
    subst hdesk
    exact hacts
  · obtain ⟨first, hfirst, hout, _⟩ := hshutters blind List.mem_cons_self (by decide) (.pos 0) []
      (frIntent "jeedom.shutter_pos.30".toList [("position".toList, some "50".toList)]) (by decide)
    have hblind : blind = first := Option.some.inj hfirst
    subst hblind
    exact hout

/-- The rule that turns the second lamp off turns off the first. -/
theorem shared_key_turns_off_other :
    hallLamp.rule false ["éteins la lampe du couloir".toList, "éteins le lampe du couloir".toList,
      "éteins lampe du couloir".toList, "coupe lampe du couloir".toList, "désactive lampe du couloir".toList] ∈
        actionRules "fr".toList lampsConfig.actions ∧
    ¬ ActsOn .ascii lampsConfig (frIntent (hallLamp.rule false []).intent []) hallLamp.confirm
      (hallLamp.pending false false) ∧
    gets (Prog.exec serve (fun _ => { now := 0, http := none }) Store.new
      (handle .ascii lampsConfig (frIntent (hallLamp.rule false []).intent []))).2.1 =
        (commandUrl lampsConfig deskLamp.offId none).toList := by
  have hgets : gets (Prog.exec serve (fun _ => { now := 0, http := none }) Store.new
      (handle .ascii lampsConfig (frIntent (hallLamp.rule false []).intent []))).2.1 =
        (commandUrl lampsConfig deskLamp.offId none).toList := by
    decide +kernel
  refine ⟨by decide +kernel, ?_, hgets⟩
  intro hacts
  have hown := (hacts (fun _ => { now := 0, http := none }) Store.new).2
  rw [hgets] at hown
  exact absurd hown (by decide +kernel)

end AthenaVoice.Skills.Jeedom
