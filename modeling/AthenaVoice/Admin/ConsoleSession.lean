import AthenaVoice.Admin.Console
import AthenaVoice.Lib.Words
import AthenaVoice.Satellite.Egress

/-
  The test console and the runtime — `test_command.rs`, `satellite/ingress.rs`

  The console talks to the runtime as a satellite does, over the broker. Its
  client sends one request after the other; the broker acknowledges each, passes
  a publish on to the adapter, and to the console whatever is published below the
  session's topic once the subscription has reached it, the console's own
  publishes included. The adapter serves everybody else meanwhile, and others may
  publish below the session's topic too, though not where the answer is.

  The answer comes as JSON, one object for a sentence, and the console hands out
  the objects as they are.

  What is proved:
    1. `event_of_told` — what the adapter publishes where the console listens is
       what is spoken in the console's session.
    2. `linked_step` — one step of any of them.
    3. `console_in_session` — in every run, what the console hears is spoken in
       its session, and what it asks for reaches the adapter in order.

  Correspondence (Rust ↔ Lean):
    `test_command`                      `checked`, `respond`
    `AdminMqttConfig` of `serve.rs`     `Desk.command`
-/

namespace AthenaVoice.Admin

open Lib CoreTypes Mqtt Satellite

/-! ## One request -/

/-- `test_command`, up to the session: the text and the locale, or a status. -/
def checked (mqtt : Bool) (text : Text) (locale : Option Text) : Except (Nat × Text) (Text × Text) :=
  let text := Str.trim text
  let locale := locale.getD "en".toList
  if text.isEmpty then .error (400, "text must not be empty".toList)
  else if acceptsLocale locale = false then
    .error (400, "invalid locale (expected e.g. \"fr\" or \"fr-FR\")".toList)
  else if mqtt = false then .error (503, "MQTT is not configured on this admin server".toList)
  else .ok (text, locale)

/-- What is answered: a status, the one field's name and its text. -/
def respond : Except TestCommandError Text → Nat × Text × Text
  | .ok answer => (200, "answer".toList, answer)
  | .error (.connect e) => (502, "error".toList, "MQTT broker error: ".toList ++ e)
  | .error .timeout => (504, "error".toList, "no answer within 10s — is `serve` running with skills loaded?".toList)

/-- A request that is admitted, on a server whose console and adapter share their
configuration. -/
structure Desk where
  deps : SatelliteDeps
  sid : Sid
  text : Text
  locale : Text
  rawText : Text
  rawLocale : Option Text
  admitted : checked true rawText rawLocale = .ok (text, locale)
  /-- `serde_json::Value::to_string`. -/
  toString : Json → Text
  refuses : ClientRequest → Option Text

namespace Desk

variable (desk : Desk)

def command : Command :=
  { topicRoot := desk.deps.topicRoot, sid := desk.deps.uuids.display desk.sid, text := desk.text, locale := desk.locale
    toString := desk.toString, refuses := desk.refuses }

theorem admitted_text : desk.text = Str.trim desk.rawText ∧ desk.text ≠ [] ∧
    acceptsLocale desk.locale = true := by
  have hadmitted := desk.admitted
  simp only [checked] at hadmitted
  split at hadmitted
  · cases hadmitted
  · rename_i hne
    split at hadmitted
    · cases hadmitted
    · rename_i hlocale
      simp only [Bool.true_eq_false, if_false, Except.ok.injEq, Prod.mk.injEq] at hadmitted
      refine ⟨hadmitted.1.symm, ?_, ?_⟩
      · intro hnil
        rw [← hadmitted.1] at hnil
        exact hne (List.isEmpty_iff.mpr hnil)
      · rw [← hadmitted.2]
        exact Bool.of_not_eq_false hlocale

end Desk

/-! ## The three of them -/

/-- The console, the adapter and the broker. -/
structure Exchange where
  console : Console
  /-- What the console's client has still to send. -/
  requests : List ClientRequest
  subscribed : Bool
  /-- The console's publishes the adapter has still to be given. -/
  inbound : List (Text × Text)
  adapter : Adapter
  /-- What the console has still to poll. -/
  outbound : List Polled

inductive ExchangeAction where
  /-- Time passes for the console, or it looks at the clock. -/
  | console (a : ConsoleAction) (unpolled : ∀ x, a ≠ .polled x)
  | poll
  /-- The connection yields something else, or fails. -/
  | idle
  | fail (e : Text)
  /-- The broker takes the client's next request, and may acknowledge it first. -/
  | route (ackFirst : Bool)
  | deliver
  /-- Anything else the adapter does, for anyone. -/
  | adapter (a : AdapterAction)
  /-- Another client publishes below the session's topic. -/
  | publish (leaf : Text) (payload : List UInt8) (elsewhere : leaf ≠ "tts/text".toList)

inductive ExchangeObs where
  | console (x : ConsoleObs)
  /-- The adapter is given a publish of the console. -/
  | delivered (topic payload : Text)
  | adapter (x : AdapterObs)

namespace Exchange

variable (desk : Desk)

/-- The requests the client takes. -/
def taken (o : List ConsoleObs) : List ClientRequest := (askedOf o).filter (fun r => (desk.refuses r).isNone)

def start (clock : Nat) (adapter : Adapter) : Exchange × List ExchangeObs :=
  let r := Console.start desk.command clock
  ({ console := r.1, requests := taken desk r.2, subscribed := false, inbound := []
     adapter := adapter, outbound := [] },
    r.2.map .console)

def consoled (s : Exchange) (r : Console × List ConsoleObs) : Exchange × List ExchangeObs :=
  ({ s with console := r.1, requests := s.requests ++ taken desk r.2 }, r.2.map .console)

/-- Whether the subscription's filter matches. -/
def matchesFilter (topic : Text) : Bool := (desk.command.topic []).isPrefixOf topic

/-- What the broker passes on of the adapter's publishes. -/
def passed : AdapterObs → Option Polled
  | .told _ _ _ topic payload =>
    if matchesFilter desk topic then some (.publish topic (utf8.encode (desk.toString payload))) else none
  | _ => none

def adapted (s : Exchange) (r : Adapter × List AdapterObs) : Exchange × List ExchangeObs :=
  ({ s with adapter := r.1, outbound := s.outbound ++ if s.subscribed then r.2.filterMap (passed desk) else [] },
    r.2.map .adapter)

/-- A request reaches the broker. -/
def routed (s : Exchange) (ackFirst : Bool) : ClientRequest → Exchange
  | .subscribe _ => { s with subscribed := true, outbound := s.outbound ++ [.subAck] }
  | .publish topic payload =>
    let echo : List Polled := if s.subscribed then [.publish topic (utf8.encode payload)] else []
    { s with
      inbound := s.inbound ++ [(topic, payload)]
      outbound := s.outbound ++ if ackFirst then .pubAck :: echo else echo ++ [.pubAck] }
  | .disconnect => { s with subscribed := false }

def step (s : Exchange) : ExchangeAction → Option (Exchange × List ExchangeObs)
  | .console a _ => (s.console.step desk.command a).map (s.consoled desk)
  | .poll =>
    match s.outbound with
    | [] => none
    | x :: rest => (s.console.step desk.command (.polled x)).map ({ s with outbound := rest }.consoled desk)
  | .idle => (s.console.step desk.command (.polled .other)).map (s.consoled desk)
  | .fail e => (s.console.step desk.command (.polled (.failed e))).map (s.consoled desk)
  | .route ackFirst =>
    match s.requests with
    | [] => none
    | r :: rest => some ({ s with requests := rest }.routed ackFirst r, [])
  | .deliver =>
    match s.inbound with
    | [] => none
    | (topic, payload) :: rest =>
      (s.adapter.step desk.deps (.publish topic (utf8.encode payload))).map fun r =>
        let q := { s with inbound := rest }.adapted desk r
        (q.1, .delivered topic payload :: q.2)
  | .adapter a => (s.adapter.step desk.deps a).map (s.adapted desk)
  | .publish leaf payload _ =>
    let sent := if s.subscribed then [Polled.publish (desk.command.topic leaf) payload] else []
    some ({ s with outbound := s.outbound ++ sent }, [])

def machine : Machine Exchange ExchangeAction ExchangeObs where
  step := step desk

end Exchange

/-! ## What is seen of each -/

/-- The console's part of a run, the adapter's, and the console's publishes that
the adapter was given. -/
def consoleOf (h : List ExchangeObs) : List ConsoleObs :=
  h.filterMap fun
    | .console x => some x
    | _ => none

def adapterOf (h : List ExchangeObs) : List AdapterObs :=
  h.filterMap fun
    | .adapter x => some x
    | _ => none

def deliveredOf (h : List ExchangeObs) : List (Text × Text) :=
  h.filterMap fun
    | .delivered topic payload => some (topic, payload)
    | _ => none

def ClientRequest.publication : ClientRequest → Option (Text × Text)
  | .publish topic payload => some (topic, payload)
  | _ => none

/-- What is spoken in the session, as it is published. -/
def Desk.spoken (desk : Desk) : Event → Option Text
  | .ttsText session text =>
    if sidOf session = desk.sid then some (desk.toString (.object [("text".toList, .string text)])) else none
  | _ => none

/-- The segment a polled message is. -/
def Desk.segment (desk : Desk) (x : Polled) : Option Text := ConsoleObs.segment desk.command (.got x)

theorem consoleOf_append (h o : List ExchangeObs) : consoleOf (h ++ o) = consoleOf h ++ consoleOf o :=
  List.filterMap_append

theorem adapterOf_append (h o : List ExchangeObs) : adapterOf (h ++ o) = adapterOf h ++ adapterOf o :=
  List.filterMap_append

theorem deliveredOf_append (h o : List ExchangeObs) : deliveredOf (h ++ o) = deliveredOf h ++ deliveredOf o :=
  List.filterMap_append

@[simp] theorem consoleOf_console (o : List ConsoleObs) : consoleOf (o.map .console) = o := by
  simp [consoleOf, List.filterMap_map]

@[simp] theorem consoleOf_adapter (o : List AdapterObs) : consoleOf (o.map .adapter) = [] := by
  simp [consoleOf, List.filterMap_map]

@[simp] theorem adapterOf_adapter (o : List AdapterObs) : adapterOf (o.map .adapter) = o := by
  simp [adapterOf, List.filterMap_map]

@[simp] theorem adapterOf_console (o : List ConsoleObs) : adapterOf (o.map .console) = [] := by
  simp [adapterOf, List.filterMap_map]

@[simp] theorem deliveredOf_console (o : List ConsoleObs) : deliveredOf (o.map .console) = [] := by
  simp [deliveredOf, List.filterMap_map]

@[simp] theorem deliveredOf_adapter (o : List AdapterObs) : deliveredOf (o.map .adapter) = [] := by
  simp [deliveredOf, List.filterMap_map]

theorem filterMap_sublist {α β : Type*} {f g : α → Option β} : ∀ {l : List α},
    (∀ x ∈ l, ∀ y, f x = some y → g x = some y) → (l.filterMap f).Sublist (l.filterMap g)
  | [], _ => List.Sublist.refl _
  | x :: rest, h => by
    have hrest := filterMap_sublist fun y hy => h y (List.mem_cons_of_mem _ hy)
    cases hf : f x with
    | none =>
      rw [List.filterMap_cons_none hf]
      apply hrest.trans
      cases hg : g x with
      | none => rw [List.filterMap_cons_none hg]
      | some y =>
        rw [List.filterMap_cons_some hg]
        exact List.sublist_cons_self _ _
    | some y =>
      rw [List.filterMap_cons_some hf, List.filterMap_cons_some (h x List.mem_cons_self y hf)]
      exact hrest.cons_cons y

/-! ## What the adapter publishes, and what the console listens to -/

section Session

variable {desk : Desk}

/-- The console's id as a satellite. -/
def adminUi : SatelliteId := ⟨"admin-ui".toList, by decide⟩

theorem topic_inj {cmd : Command} {leaf leaf' : Text} : cmd.topic leaf = cmd.topic leaf' ↔ leaf = leaf' := by
  refine ⟨?_, congrArg _⟩
  intro h
  exact (List.cons.inj (List.append_cancel_left h)).2

theorem egressKind_answer {e : Event} {session : SessionId} {leaf : Text} {payload : Json}
    (h : Adapter.egressKind e = some (session, leaf, payload)) (hleaf : leaf ≠ "transcript".toList) :
    ∃ text, e = .ttsText session text ∧ payload = .object [("text".toList, .string text)] := by
  unfold Adapter.egressKind at h
  split at h
  · cases h
    exact absurd rfl hleaf
  · cases h
    exact absurd rfl hleaf
  · cases h
    exact ⟨_, rfl, rfl⟩
  · cases h

/-- **What the console hears.** A publication of the adapter on the topic the
console listens to is of a text spoken in the console's session. -/
theorem event_of_told {before : List AdapterObs} {session : SessionId} {token : Nat} {e : Event} {topic : Text}
    {payload : Json} (hanswers : Answers desk.deps before (.told session token e topic payload))
    (htopic : topic = desk.command.ttsTextTopic) : desk.spoken e = some (desk.toString payload) := by
  obtain ⟨-, sat, leaf, -, hkind, hsame, -⟩ := hanswers
  have hlevels := congrArg (List.splitOn '/') (hsame.symm.trans htopic)
  have hmine : desk.command.ttsTextTopic = sessionTopic desk.deps.topicRoot adminUi.text
    (desk.deps.uuids.display desk.sid) "tts/text".toList := rfl
  rw [hmine, splitOn_sessionTopic sat.no_slash, splitOn_sessionTopic adminUi.no_slash] at hlevels
  have hrest := List.append_cancel_left hlevels
  rw [splitOn_level (desk.deps.uuids.display_slash _), splitOn_level (desk.deps.uuids.display_slash _)] at hrest
  simp only [List.cons.injEq, List.singleton_append, true_and] at hrest
  obtain ⟨-, hsid, hleaf⟩ := hrest
  have hid : sidOf session = desk.sid := desk.deps.uuids.format.encode_inj.mp hsid
  have hne : leaf ≠ "transcript".toList := by
    rintro rfl
    exact absurd hleaf (by decide)
  obtain ⟨text, rfl, rfl⟩ := egressKind_answer hkind hne
  exact if_pos hid

theorem heard_of_passed {o : List AdapterObs} (hanswers : ∀ x ∈ o, ∃ before, Answers desk.deps before x) :
    ((o.filterMap (Exchange.passed desk)).filterMap desk.segment).Sublist ((toldOf o).filterMap desk.spoken) := by
  rw [toldOf, List.filterMap_filterMap, List.filterMap_filterMap]
  apply filterMap_sublist
  intro x hx segment hsegment
  obtain ⟨before, hbefore⟩ := hanswers x hx
  obtain ⟨polled, hpassed, hheard⟩ := Option.bind_eq_some_iff.mp hsegment
  cases x with
  | told session token e topic payload =>
    simp only [Exchange.passed] at hpassed
    split at hpassed
    · cases hpassed
      have hseg : (if topic = desk.command.ttsTextTopic then some (fromUtf8Lossy (utf8.encode (desk.toString payload)))
        else none) = some segment := hheard
      by_cases htopic : topic = desk.command.ttsTextTopic
      · rw [if_pos htopic, fromUtf8Lossy_encode] at hseg
        have hspoken := event_of_told hbefore htopic
        rw [← hseg]
        exact hspoken
      · rw [if_neg htopic] at hseg
        cases hseg
    · cases hpassed
  | _ => cases hpassed

/-- What has been seen of the whole: the console's conversation, the adapter's
publications, the console's publishes on their way, and the segments on theirs. -/
structure Linked (desk : Desk) (clock : Nat) (h : List ExchangeObs) (s : Exchange) : Prop where
  conversation : Conversation desk.command clock (consoleOf h) s.console
  telling : Telling desk.deps (adapterOf h) s.adapter
  carried : deliveredOf h ++ s.inbound ++ s.requests.filterMap ClientRequest.publication =
    (Exchange.taken desk (consoleOf h)).filterMap ClientRequest.publication
  heard : (s.console.segments ++ s.outbound.filterMap desk.segment).Sublist
    ((toldOf (adapterOf h)).filterMap desk.spoken)

theorem taken_append (h o : List ConsoleObs) :
    Exchange.taken desk (h ++ o) = Exchange.taken desk h ++ Exchange.taken desk o := by
  rw [Exchange.taken, askedOf_append, List.filter_append]
  rfl

theorem published_closing {cmd : Command} {phase : Phase} {topic payload : Text}
    (hclosing : .publish topic payload ∈ phase.closing cmd) :
    ClientRequest.publish topic payload = cmd.endRequest := by
  cases phase with
  | talking => cases hclosing
  | flushing result d => exact List.mem_singleton.mp hclosing
  | finished result =>
    rcases List.mem_cons.mp hclosing with hend | hleave
    · exact hend
    · cases List.mem_singleton.mp hleave
  | unsubscribed e => cases hclosing

theorem asked_elsewhere {cmd : Command} {clock : Nat} {h : List ConsoleObs} {s : Console}
    (C : Conversation cmd clock h s)
    {topic payload : Text} (hasked : .publish topic payload ∈ askedOf h) : topic ≠ cmd.ttsTextTopic := by
  have hleaf : ∃ leaf ∈ ["start".toList, "text".toList, "end".toList], topic = cmd.topic leaf := by
    rw [C.asked, List.mem_append, List.mem_append] at hasked
    rcases hasked with (hsubscribe | hopening) | hclosing
    · cases List.mem_singleton.mp hsubscribe
    · split at hopening
      · rcases List.mem_cons.mp hopening with hstart | htext
        · cases hstart
          exact ⟨_, List.mem_cons_self, rfl⟩
        · cases List.mem_singleton.mp htext
          exact ⟨_, List.mem_cons_of_mem _ List.mem_cons_self, rfl⟩
      · cases hopening
    · have hend := published_closing hclosing
      cases hend
      exact ⟨_, List.mem_cons_of_mem _ (List.mem_cons_of_mem _ List.mem_cons_self), rfl⟩
  obtain ⟨leaf, hmem, rfl⟩ := hleaf
  intro heq
  have hsame : leaf = "tts/text".toList := topic_inj.mp heq
  subst hsame
  exact absurd hmem (by decide)

namespace Linked

variable {clock : Nat} {h : List ExchangeObs} {s : Exchange}

theorem consoled (L : Linked desk clock h s) (rest : List Polled) {a : ConsoleAction} {r : Console × List ConsoleObs}
    (hstep : s.console.step desk.command a = some r)
    (hheard : (s.console.segments ++ ((a.segment desk.command).toList ++ rest.filterMap desk.segment)).Sublist
      ((toldOf (adapterOf h)).filterMap desk.spoken)) :
    Linked desk clock (h ++ (({ s with outbound := rest } : Exchange).consoled desk r).2)
      (({ s with outbound := rest } : Exchange).consoled desk r).1 := by
  obtain ⟨console, o⟩ := r
  have C : Conversation desk.command clock (consoleOf h ++ o) console := conversation_step L.conversation hstep
  have hsegments : console.segments = s.console.segments ++ heardOf desk.command o := by
    rw [C.heard, heardOf_append, L.conversation.heard]
  constructor
  · show Conversation desk.command clock (consoleOf (h ++ o.map .console)) console
    rw [consoleOf_append, consoleOf_console]
    exact C
  · show Telling desk.deps (adapterOf (h ++ o.map .console)) s.adapter
    rw [adapterOf_append, adapterOf_console, List.append_nil]
    exact L.telling
  · show deliveredOf (h ++ o.map .console) ++ s.inbound ++ (s.requests ++ Exchange.taken desk o).filterMap _ =
      (Exchange.taken desk (consoleOf (h ++ o.map .console))).filterMap _
    rw [deliveredOf_append, deliveredOf_console, List.append_nil, consoleOf_append, consoleOf_console, taken_append,
      List.filterMap_append, List.filterMap_append, ← L.carried, List.append_assoc, List.append_assoc,
        List.append_assoc]
  · show (console.segments ++ rest.filterMap desk.segment).Sublist
      ((toldOf (adapterOf (h ++ o.map .console))).filterMap desk.spoken)
    rw [adapterOf_append, adapterOf_console, List.append_nil, hsegments, List.append_assoc]
    refine List.Sublist.trans ?_ hheard
    exact (List.Sublist.refl _).append ((heardOf_step hstep).append (List.Sublist.refl _))

theorem consoled_unpolled (L : Linked desk clock h s) {a : ConsoleAction} {r : Console × List ConsoleObs}
    (hstep : s.console.step desk.command a = some r) (hnone : a.segment desk.command = none) :
    Linked desk clock (h ++ (s.consoled desk r).2) (s.consoled desk r).1 := by
  refine L.consoled s.outbound hstep ?_
  rw [hnone]
  exact L.heard

theorem adapted (L : Linked desk clock h s) (given : List (Text × Text)) {inbound : List (Text × Text)}
    (hinbound : s.inbound = given ++ inbound)
    {a : AdapterAction} {r : Adapter × List AdapterObs} (hstep : s.adapter.step desk.deps a = some r) :
    Linked desk clock (h ++ (given.map (fun p => .delivered p.1 p.2) ++ r.2.map .adapter))
      (({ s with inbound := inbound } : Exchange).adapted desk r).1 := by
  obtain ⟨adapter, o⟩ := r
  have T : Telling desk.deps (adapterOf h ++ o) adapter := telling_step L.telling (Adapter.step_effect hstep)
  have hconsole : consoleOf (h ++ (given.map (fun p => .delivered p.1 p.2) ++ o.map .adapter)) = consoleOf h := by
    have hgiven : consoleOf (given.map fun p => ExchangeObs.delivered p.1 p.2) = [] := by
      simp [consoleOf, List.filterMap_map]
    rw [consoleOf_append, consoleOf_append, consoleOf_adapter, hgiven, List.append_nil, List.append_nil]
  have hadapter : adapterOf (h ++ (given.map (fun p => .delivered p.1 p.2) ++ o.map .adapter)) = adapterOf h ++ o := by
    have hgiven : adapterOf (given.map fun p => ExchangeObs.delivered p.1 p.2) = [] := by
      simp [adapterOf, List.filterMap_map]
    rw [adapterOf_append, adapterOf_append, adapterOf_adapter, hgiven, List.nil_append]
  have hdelivered : deliveredOf (h ++ (given.map (fun p => .delivered p.1 p.2) ++ o.map .adapter)) =
      deliveredOf h ++ given := by
    have hgiven : deliveredOf (given.map fun p => ExchangeObs.delivered p.1 p.2) = given := by
      simp [deliveredOf, List.filterMap_map]
    rw [deliveredOf_append, deliveredOf_append, deliveredOf_adapter, hgiven, List.append_nil]
  constructor
  · rw [hconsole]
    exact L.conversation
  · rw [hadapter]
    exact T
  · rw [hdelivered, hconsole, ← L.carried, hinbound]
    show deliveredOf h ++ given ++ inbound ++ _ = deliveredOf h ++ (given ++ inbound) ++ _
    rw [List.append_assoc (deliveredOf h)]
    rfl
  · rw [hadapter]
    show (s.console.segments ++
      (s.outbound ++ if s.subscribed then o.filterMap (Exchange.passed desk) else []).filterMap
      desk.segment).Sublist ((toldOf (adapterOf h ++ o)).filterMap desk.spoken)
    have hanswers : ∀ x ∈ o, ∃ before, Answers desk.deps before x := by
      intro x hx
      obtain ⟨before, after, rfl⟩ := List.append_of_mem hx
      exact ⟨adapterOf h ++ before, T.answers (adapterOf h ++ before) x after (List.append_assoc _ _ _).symm⟩
    rw [toldOf_append, List.filterMap_append, List.filterMap_append, ← List.append_assoc]
    refine L.heard.append ?_
    split
    · exact heard_of_passed hanswers
    · exact List.nil_sublist _

theorem forwarded (L : Linked desk clock h s) (polled : List Polled) {s' : Exchange} (hconsole : s'.console = s.console)
    (hadapter : s'.adapter = s.adapter) (houtbound : s'.outbound = s.outbound ++ polled)
    (hunheard : polled.filterMap desk.segment = [])
    (hcarried : s'.inbound ++ s'.requests.filterMap ClientRequest.publication =
      s.inbound ++ s.requests.filterMap ClientRequest.publication) : Linked desk clock (h ++ []) s' := by
  rw [List.append_nil]
  constructor
  · rw [hconsole]
    exact L.conversation
  · rw [hadapter]
    exact L.telling
  · rw [List.append_assoc, hcarried, ← List.append_assoc]
    exact L.carried
  · rw [hconsole, houtbound, List.filterMap_append, hunheard, List.append_nil]
    exact L.heard

theorem routed (L : Linked desk clock h s) {r : ClientRequest} {rest : List ClientRequest}
    (hrequests : s.requests = r :: rest)
    (ackFirst : Bool) : Linked desk clock (h ++ []) (({ s with requests := rest } : Exchange).routed ackFirst r) := by
  cases r with
  | subscribe filter =>
    refine L.forwarded [.subAck] rfl rfl rfl rfl ?_
    rw [hrequests]
    rfl
  | disconnect =>
    refine L.forwarded [] rfl rfl (List.append_nil _).symm rfl ?_
    rw [hrequests]
    rfl
  | publish topic payload =>
    have hmem : (topic, payload) ∈ (Exchange.taken desk (consoleOf h)).filterMap ClientRequest.publication := by
      rw [← L.carried, hrequests]
      exact List.mem_append_right _ List.mem_cons_self
    obtain ⟨r, hr, hpublication⟩ := List.mem_filterMap.mp hmem
    have hsame : r = .publish topic payload := by
      cases r with
      | publish topic' payload' =>
        cases hpublication
        rfl
      | subscribe filter => cases hpublication
      | disconnect => cases hpublication
    subst hsame
    have htopic := asked_elsewhere L.conversation (List.mem_of_mem_filter hr)
    have hnone : desk.segment (.publish topic (utf8.encode payload)) = none := if_neg htopic
    have hecho : (if s.subscribed then [Polled.publish topic (utf8.encode payload)] else []).filterMap desk.segment =
      [] := by
      split
      · exact List.filterMap_cons_none hnone
      · rfl
    refine L.forwarded
      (if ackFirst then .pubAck :: (if s.subscribed then [.publish topic (utf8.encode payload)] else [])
      else (if s.subscribed then [.publish topic (utf8.encode payload)] else []) ++ [.pubAck]) rfl rfl rfl ?_ ?_
    · cases ackFirst with
      | true => exact hecho
      | false =>
        show ((if s.subscribed then _ else _) ++ [Polled.pubAck]).filterMap desk.segment = []
        rw [List.filterMap_append, hecho]
        rfl
    · rw [hrequests]
      exact List.append_assoc _ _ _

end Linked

/-- **One step** of any of them. -/
theorem linked_step {clock : Nat} {h o : List ExchangeObs} {s s' : Exchange} {a : ExchangeAction}
    (L : Linked desk clock h s) (hs : (Exchange.machine desk).step s a = some (s', o)) :
    Linked desk clock (h ++ o) s' := by
  cases a with
  | console a unpolled =>
    obtain ⟨r, hstep, hr⟩ := Option.map_eq_some_iff.mp hs
    cases hr
    refine L.consoled_unpolled hstep ?_
    cases a with
    | polled x => exact absurd rfl (unpolled x)
    | elapse ms => rfl
    | tick => rfl
    | deadline => rfl
  | poll =>
    simp only [Exchange.machine, Exchange.step] at hs
    cases houtbound : s.outbound with
    | nil =>
      rw [houtbound] at hs
      cases hs
    | cons x rest =>
      rw [houtbound] at hs
      obtain ⟨r, hstep, hr⟩ := Option.map_eq_some_iff.mp hs
      cases hr
      refine L.consoled rest hstep ?_
      have hheard := L.heard
      rw [houtbound, ← List.singleton_append, List.filterMap_append] at hheard
      have hone : [x].filterMap desk.segment = (desk.segment x).toList := by
        cases hsegment : desk.segment x with
        | none => exact List.filterMap_cons_none hsegment
        | some segment => exact List.filterMap_cons_some hsegment
      rw [hone] at hheard
      exact hheard
  | idle =>
    obtain ⟨r, hstep, hr⟩ := Option.map_eq_some_iff.mp hs
    cases hr
    exact L.consoled_unpolled hstep rfl
  | fail e =>
    obtain ⟨r, hstep, hr⟩ := Option.map_eq_some_iff.mp hs
    cases hr
    exact L.consoled_unpolled hstep rfl
  | route ackFirst =>
    simp only [Exchange.machine, Exchange.step] at hs
    cases hrequests : s.requests with
    | nil =>
      rw [hrequests] at hs
      cases hs
    | cons r rest =>
      rw [hrequests] at hs
      cases hs
      exact L.routed hrequests ackFirst
  | deliver =>
    simp only [Exchange.machine, Exchange.step] at hs
    cases hinbound : s.inbound with
    | nil =>
      rw [hinbound] at hs
      cases hs
    | cons p rest =>
      obtain ⟨topic, payload⟩ := p
      rw [hinbound] at hs
      obtain ⟨r, hstep, hr⟩ := Option.map_eq_some_iff.mp hs
      cases hr
      exact L.adapted [(topic, payload)] hinbound hstep
  | adapter a =>
    obtain ⟨r, hstep, hr⟩ := Option.map_eq_some_iff.mp hs
    cases hr
    exact L.adapted [] rfl hstep
  | publish leaf payload elsewhere =>
    cases hs
    have hnone : desk.segment (.publish (desk.command.topic leaf) payload) = none :=
      if_neg fun heq => elsewhere (topic_inj.mp heq)
    refine L.forwarded (if s.subscribed then [.publish (desk.command.topic leaf) payload] else []) rfl rfl rfl ?_ rfl
    split
    · exact List.filterMap_cons_none hnone
    · rfl

theorem linked_start (desk : Desk) (clock adapterClock : Nat) :
    Linked desk clock (Exchange.start desk clock (.init adapterClock)).2
      (Exchange.start desk clock (.init adapterClock)).1 := by
  have C := Conversation.start desk.command clock
  have hsegments : (Console.start desk.command clock).1.segments = [] := by
    unfold Console.start
    cases desk.command.refuses desk.command.subscribeRequest <;> rfl
  constructor
  · show Conversation desk.command clock (consoleOf ((Console.start desk.command clock).2.map .console)) _
    rw [consoleOf_console]
    exact C
  · show Telling desk.deps (adapterOf ((Console.start desk.command clock).2.map .console)) (.init adapterClock)
    rw [adapterOf_console]
    exact ⟨.start desk.deps adapterClock, List.nil_sublist _, Machine.recorded_nil _⟩
  · show deliveredOf ((Console.start desk.command clock).2.map .console) ++ [] ++ _ = _
    rw [deliveredOf_console, List.append_nil, List.nil_append]
    show (Exchange.taken desk (Console.start desk.command clock).2).filterMap _ =
      (Exchange.taken desk (consoleOf ((Console.start desk.command clock).2.map .console))).filterMap _
    rw [consoleOf_console]
  · show ((Console.start desk.command clock).1.segments ++ []).Sublist _
    rw [hsegments]
    exact List.nil_sublist _

/-- What the broker is given of these requests. -/
def Desk.publications (desk : Desk) (rs : List ClientRequest) : List (Text × Text) :=
  (rs.filter fun r => (desk.refuses r).isNone).filterMap ClientRequest.publication

theorem publications_append (rs rs' : List ClientRequest) :
    desk.publications (rs ++ rs') = desk.publications rs ++ desk.publications rs' := by
  rw [Desk.publications, List.filter_append, List.filterMap_append]
  rfl

theorem publications_none {r : ClientRequest} (hnone : r.publication = none) : desk.publications [r] = [] := by
  unfold Desk.publications
  rw [List.filter_singleton]
  cases (desk.refuses r).isNone with
  | false => rfl
  | true => exact List.filterMap_cons_none hnone

theorem publications_closing (phase : Phase) :
    desk.publications (phase.closing desk.command) <+: desk.publications [desk.command.endRequest] := by
  cases phase with
  | talking => exact List.nil_prefix
  | flushing result d => exact List.prefix_refl _
  | finished result =>
    have hleave : desk.publications [.disconnect] = [] := publications_none rfl
    show desk.publications ([desk.command.endRequest] ++ [.disconnect]) <+: _
    rw [publications_append, hleave, List.append_nil]
  | unsubscribed e => exact List.nil_prefix

/-- How the adapter reads what the console publishes. -/
structure Understood (desk : Desk) : Prop where
  start : parseSatelliteTopic desk.deps.uuids desk.deps.topicRoot (desk.command.topic "start".toList) =
    some (.start adminUi desk.sid)
  locale : extractLocale desk.deps (utf8.encode (desk.toString desk.command.startJson)) = some desk.locale
  text : parseSatelliteTopic desk.deps.uuids desk.deps.topicRoot (desk.command.topic "text".toList) =
    some (.text adminUi desk.sid)
  trimmed : Str.trim (fromUtf8Lossy (utf8.encode desk.text)) = desk.text ∧ desk.text ≠ []
  finish : parseSatelliteTopic desk.deps.uuids desk.deps.topicRoot (desk.command.topic "end".toList) =
    some (.finish adminUi desk.sid)

/-- Under a root of one level, and under no other, the adapter reads the start,
the text and the end of the session as what they are. -/
theorem understood_iff
    (hread : desk.deps.fromSlice (utf8.encode (desk.toString desk.command.startJson)) = some desk.command.startJson) :
    Understood desk ↔ '/' ∉ desk.deps.topicRoot := by
  constructor
  · intro hunderstood
    exact root_slash_of_parse desk.deps.uuids hunderstood.start
  · intro hroot
    obtain ⟨htext, hne, hlocale⟩ := desk.admitted_text
    refine ⟨parse_topic desk.deps.uuids hroot (.start adminUi desk.sid), ?_,
      parse_topic desk.deps.uuids hroot (.text adminUi desk.sid), ⟨?_, hne⟩,
      parse_topic desk.deps.uuids hroot (.finish adminUi desk.sid)⟩
    · unfold extractLocale
      rw [hread]
      exact if_pos hlocale
    · rw [fromUtf8Lossy_encode, htext, Str.trim_trim]

end Session

/-- **The console in its session.** In every run of the console, the broker and
the adapter, whatever else the adapter serves, however long messages are under
way and whatever others publish below the session's topic: the console keeps its
conversation; the segments it has, and so what it answers with, are the objects
of texts spoken in its own session, in the order they were spoken in and each
once; what the adapter is given of it is, in order and each once, the start and
the text, if the subscription was acknowledged, and the end. If the start is read
as it was written, the adapter takes the three for what they are exactly if the
root is one level. -/
theorem console_in_session (desk : Desk) (clock adapterClock : Nat) (as : List ExchangeAction) (s' : Exchange)
    (o : List ExchangeObs)
    (hr : (Exchange.machine desk).run (Exchange.start desk clock (.init adapterClock)).1 as = some (s', o)) :
    let h := (Exchange.start desk clock (.init adapterClock)).2 ++ o
    Conversation desk.command clock (consoleOf h) s'.console ∧
      s'.console.segments.Sublist ((busOf (adapterOf h)).filterMap desk.spoken) ∧
      deliveredOf h <+: desk.publications
        ((if s'.console.started then [desk.command.startRequest, desk.command.textRequest]
        else []) ++ [desk.command.endRequest]) ∧
      (desk.deps.fromSlice (utf8.encode (desk.toString desk.command.startJson)) = some desk.command.startJson →
        (Understood desk ↔ '/' ∉ desk.deps.topicRoot)) := by
  intro h
  have L : Linked desk clock h s' :=
    (Exchange.machine desk).run_invariant (fun _ _ _ _ _ L hs => linked_step L hs)
      (linked_start desk clock adapterClock) hr
  refine ⟨L.conversation, ?_, ?_, understood_iff⟩
  · have hspoken : (toldOf (adapterOf h)).Sublist (busOf (adapterOf h)) :=
      (List.sublist_append_left _ _).trans L.telling.order
    exact ((List.sublist_append_left _ _).trans L.heard).trans (hspoken.filterMap _)
  · have hcarried : deliveredOf h <+: desk.publications (askedOf (consoleOf h)) := by
      refine ⟨s'.inbound ++ s'.requests.filterMap ClientRequest.publication, ?_⟩
      rw [← List.append_assoc]
      exact L.carried
    rw [L.conversation.asked, publications_append, publications_append, publications_none rfl,
      List.nil_append] at hcarried
    rw [publications_append]
    exact hcarried.trans ((List.prefix_append_right_inj _).mpr (publications_closing _))

/-- An object of one plain text, as `serde_json` writes it. -/
def plainText : Json → Text
  | .object [(key, .string s)] => "\x7b\"".toList ++ key ++ "\":\"".toList ++ s ++ "\"\x7d".toList
  | _ => "null".toList

def frStart : Json := .object [("locale".toList, .string "fr".toList)]

/-- A console beside an adapter that reads its start. -/
def frDesk : Desk :=
  { deps := { plainDeps with
      fromSlice := fun bytes => if bytes = utf8.encode (plainText frStart) then some frStart else none }
    sid := sidOf 7
    text := "salut".toList
    locale := "fr".toList
    rawText := " salut ".toList
    rawLocale := some "fr".toList
    admitted := by rfl
    toString := plainText
    refuses := fun _ => none }

/-- The text is answered, and the console waits until it is quiet. -/
def answeredOnce : List ExchangeAction :=
  [.route true, .poll, .route true, .route true, .deliver, .adapter .wire, .deliver, .adapter .egress,
    .adapter (.bus (.ttsText 7 "bonjour".toList)), .adapter .egress, .poll, .poll, .poll, .poll, .poll, .poll,
    .console (.elapse 1300) (fun _ => ConsoleAction.noConfusion), .console .tick (fun _ => ConsoleAction.noConfusion),
    .route true, .deliver, .poll]

/-- The console hands out the object. -/
theorem salut_answered :
    ∃ s' o, (Exchange.machine frDesk).run (Exchange.start frDesk 0 (.init 0)).1 answeredOnce = some (s', o) ∧
      s'.console.phase.answer = [.ok "\x7b\"text\":\"bonjour\"\x7d".toList] ∧
      s'.console.segments.Sublist
        ((busOf (adapterOf ((Exchange.start frDesk 0 (.init 0)).2 ++ o))).filterMap frDesk.spoken) ∧
      (Understood frDesk ↔ '/' ∉ frDesk.deps.topicRoot) := by
  have hread : frDesk.deps.fromSlice (utf8.encode (frDesk.toString frDesk.command.startJson)) =
      some frDesk.command.startJson := rfl
  refine ⟨_, _, rfl, rfl, ?_, ?_⟩
  · exact (console_in_session frDesk 0 0 answeredOnce _ _ rfl).2.1
  · exact (console_in_session frDesk 0 0 answeredOnce _ _ rfl).2.2.2 hread

end AthenaVoice.Admin
