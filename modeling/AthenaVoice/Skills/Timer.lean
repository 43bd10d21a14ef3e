import AthenaVoice.Core.Sdk
import AthenaVoice.Lib.Codec
import AthenaVoice.Lib.Prog
import AthenaVoice.Skills.TimerDuration
import AthenaVoice.Storage.Schedule
import AthenaVoice.Wasm.Acl
import AthenaVoice.Wasm.HostFns

/-
  The timer skill's handler — `skills-timer/src/lib.rs`, with the SDK's and the
  host's `schedule_mqtt`

  A duration that was understood, and is at most 24 h, is scheduled as an MQTT
  event and noted in both stores. The bound is checked on what parsing returned,
  after its multiplication. The guest's clock counts nanoseconds since the epoch
  in 64 bits, so its milliseconds are an i64, and adding a day to them stays in
  i64: the sum is on integers here.

  The handler is a program of the calls it makes. A call may fail; a panic of
  the guest is the result `none`.

  What is proved:
    1. `ensures_setTimer` — an accepted duration leaves one row at most, that
       fires that much after the clock.
    2. `schedules_of_fits` — handling an intent leaves one row at most, for a
       spoken duration that is at most 24 h, that fires that much after the clock.
    3. `timerExact_iff` — for every text, both parsers are exact and so is the
       handler, exactly when what is said fits a u64.

  Correspondence (Rust ↔ Lean):
    `TimerSkill::handle`                `handle`, its last part `setTimer`
    `now_millis`                        `nowMillis`
    the SDK's `HostCtx::schedule_mqtt`  `scheduleReply`
    `host_schedule_mqtt`                `hostScheduleMqtt`
-/

namespace AthenaVoice.Skills.Timer

open Lib Sdk Storage Wasm

/-! ## Calls to the host -/

def schedErrAcl : Int := -1

def schedErrStore : Int := -2

/-- `host_schedule_mqtt` for a skill: the code returned is the row's id, or an error. -/
def hostScheduleMqtt (name : Text) (createdAtMs : Int) (storeFails : Bool) (events : ScheduledEvents)
    (firesAtMs : Int) (topic : Text) (payload : Bytes) : ScheduledEvents × Int :=
  if mqttTopicAllowed name topic then
    match if storeFails then none else events.scheduleEvent name firesAtMs topic payload createdAtMs with
    | some (events, row) => (events, row.id)
    | none => (events, schedErrStore)
  else (events, schedErrAcl)

/-- `{id}` of an i64. -/
def displayI64 (id : Int) : Text := if id < 0 then '-' :: display id.natAbs else display id.toNat

/-- What the SDK makes of the code. -/
def scheduleReply (topic : Text) (code : Int) : Except SkillError Int :=
  if code = schedErrAcl then .error (.mqttFailed ("topic ".toList ++ topic ++ " outside skill ACL namespace".toList))
  else if code = schedErrStore then .error (.mqttFailed "scheduler store error".toList)
  else if 0 ≤ code then .ok code
  else .error (.mqttFailed ("unknown schedule_mqtt result code ".toList ++ displayI64 code))

inductive Call where
  | now
  | scheduleMqtt (firesAtMs : Int) (topic : Text) (payload : Bytes)
  | tmpSet (key : Text) (val : Bytes) (expiresSec : UInt64)
  | stateSet (key : Text) (val : Bytes)
  deriving DecidableEq

/-- What a call is answered; all but the clock may fail. -/
def Call.Answer : Call → Type
  | .now => UInt64
  | .scheduleMqtt _ _ _ => Except SkillError Int
  | .tmpSet _ _ _ => Except SkillError Unit
  | .stateSet _ _ => Except SkillError Unit

/-- What a call finds: the clock, in nanoseconds, an error if the call itself
fails, and whether the event store does. -/
structure Moment where
  ns : UInt64
  failure : Option SkillError
  storeFails : Bool

structure Tables where
  events : ScheduledEvents
  store : Store

def nowMillis (ns : UInt64) : Int := (ns.toNat / 1000000 : Nat)

/-- The host's own clock, in seconds. -/
def Moment.sec (m : Moment) : UInt64 := m.ns / 1000000000

/-- The host, for the skill of `ctx`; the guest's own context is the one
`HostCtx::for_testing` builds. -/
def serve (ctx : SkillCtx) (t : Tables) (m : Moment) : (c : Call) → Tables × c.Answer
  | .now => (t, m.ns)
  | .scheduleMqtt firesAtMs topic payload =>
    match m.failure with
    | some e => (t, .error e)
    | none =>
      let served := hostScheduleMqtt ctx.name (nowMillis m.ns) m.storeFails t.events firesAtMs topic payload
      ({ t with events := served.1 }, scheduleReply topic served.2)
  | .tmpSet key val expiresSec =>
    match m.failure with
    | some e => (t, .error e)
    | none => ({ t with store := hostTmpSet m.sec t.store HostCtx.forTesting.skillName key val expiresSec }, .ok ())
  | .stateSet key val =>
    match m.failure with
    | some e => (t, .error e)
    | none => ({ t with store := hostStateSet ctx m.sec t.store key val }, .ok ())

abbrev Guest (α : Type) := Prog Call Call.Answer α

/-! ## The handler -/

def maxSeconds : Nat := 24 * 3600

/-- The topic of an expired timer. -/
def expiredTopic : Text := "athena/skills/timer/expired".toList

/-- `{"seconds": seconds}`, as `serde_json` writes it. -/
def payload (seconds : Nat) : Bytes :=
  utf8.encode ("\x7b\"seconds\":".toList ++ display seconds ++ "\x7d".toList)

def toLeBytes (n : Nat) : Bytes := (List.range 8).map (fun i => UInt8.ofNat (n / 256 ^ i))

/-- `format!("timer/{id}")`. -/
def timerKey (id : Int) : Text := "timer/".toList ++ displayI64 id

def speak (text : Text) : SkillResult := .ok (.speak text)

def notUnderstood (en : Bool) : SkillResult :=
  speak (if en then "sorry, I didn't understand the timer duration".toList
    else "désolé, je n'ai pas compris la durée du minuteur".toList)

def tooLong (en : Bool) : SkillResult :=
  speak (if en then "sorry, I only handle timers under twenty-four hours".toList
    else "désolé, je ne gère que les minuteurs de moins de vingt-quatre heures".toList)

def started (en : Bool) (durationText : Text) : SkillResult :=
  speak (if en then "okay, timer for ".toList ++ durationText ++ " started".toList
    else "d'accord, minuteur de ".toList ++ durationText ++ " lancé".toList)

/-- `?`: an error is returned, a value is gone on with. -/
def orReturn {α : Type} (r : Except SkillError α) (next : α → Guest SkillResult) : Guest SkillResult :=
  match r with
  | .error e => pure (.err e)
  | .ok a => next a

/-- A scheduled timer is noted in both stores. -/
def noteTimer (en : Bool) (durationText : Text) (seconds : Nat) (id : Int) : Guest SkillResult :=
  Prog.call (.tmpSet (timerKey id) (toLeBytes seconds) (UInt64.ofNat seconds)) fun (noted : Except SkillError Unit) =>
    orReturn noted fun () =>
      Prog.call (.stateSet (timerKey id) (toLeBytes seconds)) fun (kept : Except SkillError Unit) =>
        orReturn kept fun () => pure (started en durationText)

/-- What the handler does with a duration it accepts. -/
def setTimer (en : Bool) (durationText : Text) (seconds : Nat) : Guest SkillResult :=
  Prog.call .now fun (ns : UInt64) =>
    Prog.call (.scheduleMqtt (nowMillis ns + seconds * 1000) expiredTopic (payload seconds))
      fun (scheduled : Except SkillError Int) =>
        orReturn scheduled fun id => noteTimer en durationText seconds id

def durationText (intent : Intent) : Text := (intent.slots.lookup "duration".toList).join.getD []

/-- `intent.locale.starts_with("en")`. -/
def isEn (intent : Intent) : Bool := "en".toList.isPrefixOf intent.locale

/-- The parser of the intent's language, on its slot. -/
def parsed (checks : Bool) (u : Unicode) (intent : Intent) : Option (Option Nat) :=
  if isEn intent then parseEnDuration checks u (durationText intent) else parseFrDuration checks u (durationText intent)

/-- `handle`; `none` where it panics. -/
def handle (checks : Bool) (u : Unicode) (intent : Intent) : Guest (Option SkillResult) :=
  match parsed checks u intent with
  | none => pure none
  | some none => pure (some (notUnderstood (isEn intent)))
  | some (some seconds) =>
    if seconds > maxSeconds then pure (some (tooLong (isEn intent)))
    else setTimer (isEn intent) (durationText intent) seconds >>= fun result => pure (some result)

/-! ## What a run leaves -/

/-- One row at most, that fires a number of seconds in `durations` after the
clock that was read. -/
def OneTimer (durations : Nat → Prop) (t t' : Tables) (calls : Prog.Trace Call Call.Answer) : Prop :=
  t'.events.rows = t.events.rows ∨ ∃ (row : ScheduledEvent) (ns : UInt64) (d : Nat),
    t'.events.rows = t.events.rows ++ [row] ∧ (⟨.now, ns⟩ : Σ c : Call, c.Answer) ∈ calls ∧ durations d ∧
      row.firesAtMs = nowMillis ns + d * 1000

/-- What the slot says, in the intent's language. -/
def Said (u : Unicode) (intent : Intent) : Nat → Prop :=
  if isEn intent then SpokenEn u (durationText intent) else SpokenFr u (durationText intent)

/-- **The handler's promise** for an intent: whatever the tables, the clock and
the failures, a timer is scheduled only for a spoken duration of at most 24 h,
and for exactly then. -/
def SchedulesExactly (checks : Bool) (u : Unicode) (ctx : SkillCtx) (intent : Intent) : Prop :=
  ∀ (e : Nat → Moment) (t : Tables),
    let r := Prog.exec (serve ctx) e t (handle checks u intent)
    OneTimer (fun d => Said u intent d ∧ d ≤ 24 * 3600) t r.1 r.2.1

/-- **Timer arithmetic is exact** on a text: for both parsers, and for every
intent that carries it. -/
structure TimerExact (checks : Bool) (u : Unicode) (ctx : SkillCtx) (text : Text) : Prop where
  fr : ExactOn (SpokenFr u text) (parseFrDuration checks u text)
  en : ExactOn (SpokenEn u text) (parseEnDuration checks u text)
  scheduled : ∀ intent, durationText intent = text → SchedulesExactly checks u ctx intent

section Runs

variable {checks : Bool} {u : Unicode} {ctx : SkillCtx} {intent : Intent} {t : Tables}

theorem hostScheduleMqtt_rows (name : Text) (createdAtMs : Int) (storeFails : Bool) (events : ScheduledEvents)
    (firesAtMs : Int) (topic : Text) (payload : Bytes) :
    let r := hostScheduleMqtt name createdAtMs storeFails events firesAtMs topic payload
    r.1.rows = events.rows ∨ ∃ row : ScheduledEvent, r.1.rows = events.rows ++ [row] ∧
      row.firesAtMs = firesAtMs := by
  unfold hostScheduleMqtt
  cases mqttTopicAllowed name topic with
  | false => exact Or.inl rfl
  | true =>
    cases storeFails with
    | true => exact Or.inl rfl
    | false =>
      show let r := match events.scheduleEvent name firesAtMs topic payload createdAtMs with
          | some (events, row) => (events, row.id)
          | none => (events, schedErrStore)
        _
      cases hsched : events.scheduleEvent name firesAtMs topic payload createdAtMs with
      | none => exact Or.inl rfl
      | some added =>
        unfold ScheduledEvents.scheduleEvent at hsched
        by_cases hseq : events.seq < maxRowid
        · rw [if_pos hseq] at hsched
          cases hsched
          exact Or.inr ⟨_, rfl, rfl⟩
        · rw [if_neg hseq] at hsched
          cases hsched

theorem serve_tmpSet_events (ctx : SkillCtx) (t : Tables) (m : Moment) (key : Text) (val : Bytes)
    (expiresSec : UInt64) :
    (serve ctx t m (.tmpSet key val expiresSec)).1.events = t.events := by
  unfold serve
  cases m.failure <;> rfl

theorem serve_stateSet_events (ctx : SkillCtx) (t : Tables) (m : Moment) (key : Text) (val : Bytes) :
    (serve ctx t m (.stateSet key val)).1.events = t.events := by
  unfold serve
  cases m.failure <;> rfl

theorem serve_schedule_rows (ctx : SkillCtx) (t : Tables) (m : Moment) (firesAtMs : Int) (topic : Text)
    (payload : Bytes) :
    (serve ctx t m (.scheduleMqtt firesAtMs topic payload)).1.events.rows = t.events.rows ∨
      ∃ row : ScheduledEvent, (serve ctx t m (.scheduleMqtt firesAtMs topic payload)).1.events.rows =
        t.events.rows ++ [row] ∧ row.firesAtMs = firesAtMs := by
  unfold serve
  cases m.failure with
  | some e => exact Or.inl rfl
  | none => exact hostScheduleMqtt_rows ..

theorem ensures_orReturn {α : Type} {r : Except SkillError α} {next : α → Guest SkillResult}
    {Q : Tables → Prog.Trace Call Call.Answer → SkillResult → Prop} (herr : ∀ e, Q t [] (.err e))
    (hok : ∀ a, Prog.Ensures (serve ctx) t (next a) Q) : Prog.Ensures (serve ctx) t (orReturn r next) Q := by
  cases r with
  | error e => exact herr e
  | ok a => exact hok a

theorem ensures_noteTimer (en : Bool) (text : Text) (seconds : Nat) (id : Int) :
    Prog.Ensures (serve ctx) t (noteTimer en text seconds id) (fun t' _ _ => t'.events = t.events) := by
  intro m₁
  have htmp := serve_tmpSet_events ctx t m₁ (timerKey id) (toLeBytes seconds) (UInt64.ofNat seconds)
  apply ensures_orReturn (fun _ => htmp)
  intro _ m₂
  have hstate := (serve_stateSet_events ctx _ m₂ (timerKey id) (toLeBytes seconds)).trans htmp
  exact ensures_orReturn (fun _ => hstate) (fun _ => hstate)

/-- An accepted duration is scheduled once at most, that long after the clock. -/
theorem ensures_setTimer (en : Bool) (text : Text) (seconds : Nat) :
    Prog.Ensures (serve ctx) t (setTimer en text seconds) (fun t' calls _ => OneTimer (· = seconds) t t' calls) := by
  intro m₀ m₁
  have htimer : ∀ (t' : Tables) (calls : Prog.Trace Call Call.Answer), t'.events =
      (serve ctx t m₁ (.scheduleMqtt (nowMillis m₀.ns + seconds * 1000) expiredTopic
        (payload seconds))).1.events →
        OneTimer (· = seconds) t t' (⟨.now, m₀.ns⟩ :: calls) := by
    intro t' calls hevents
    unfold OneTimer
    rw [hevents]
    rcases serve_schedule_rows ctx t m₁ (nowMillis m₀.ns + seconds * 1000) expiredTopic (payload seconds) with
      hsame | ⟨row, hadd, hfires⟩
    · exact Or.inl hsame
    · exact Or.inr ⟨row, m₀.ns, seconds, hadd, List.mem_cons_self, rfl, hfires⟩
  apply ensures_orReturn (fun e => htimer _ _ rfl)
  intro id
  apply Prog.ensures_mono (ensures_noteTimer en text seconds id)
  intro t' calls _ hevents
  exact htimer t' _ hevents

theorem parsed_some {seconds : Nat} (h : parsed checks u intent = some (some seconds)) :
    ∃ d, Said u intent d ∧ (seconds = d ∨ (checks = false ∧ ¬ d < 2 ^ 64)) := by
  unfold parsed at h
  unfold Said
  cases hen : isEn intent with
  | true =>
    rw [hen, if_pos rfl] at h
    rw [if_pos rfl]
    exact parseDuration_some h
  | false =>
    rw [hen, if_neg Bool.false_ne_true] at h
    rw [if_neg Bool.false_ne_true]
    exact parseDuration_some h

/-- **Whatever is read exactly** is scheduled exactly. -/
theorem schedules_of_read
    (hread : ∀ seconds, parsed checks u intent = some (some seconds) → Said u intent seconds) :
    SchedulesExactly checks u ctx intent := by
  intro e t
  refine Prog.exec_of_ensures
    (Q := fun t' calls _ => OneTimer (fun d => Said u intent d ∧ d ≤ 24 * 3600) t t' calls) ?_ e
  unfold handle
  cases hparsed : parsed checks u intent with
  | none => exact Or.inl rfl
  | some outcome =>
    cases outcome with
    | none => exact Or.inl rfl
    | some seconds =>
      by_cases hlong : seconds > maxSeconds
      · show Prog.Ensures (serve ctx) t (if seconds > maxSeconds then _ else _) _
        rw [if_pos hlong]
        exact Or.inl rfl
      · show Prog.Ensures (serve ctx) t (if seconds > maxSeconds then _ else _) _
        rw [if_neg hlong]
        apply Prog.ensures_bind
        apply Prog.ensures_mono (ensures_setTimer _ _ seconds)
        intro t' calls result htimer
        show OneTimer _ t t' (calls ++ [])
        rw [List.append_nil]
        rcases htimer with hsame | ⟨row, ns, d, hadd, hns, rfl, hfires⟩
        · exact Or.inl hsame
        · exact Or.inr ⟨row, ns, d, hadd, hns, ⟨hread d hparsed, Nat.le_of_not_lt hlong⟩, hfires⟩

/-- **What fits is scheduled exactly**, in any build. -/
theorem schedules_of_fits (hfits : Fits (Said u intent)) : SchedulesExactly checks u ctx intent := by
  apply schedules_of_read
  intro seconds hread
  obtain ⟨d, hd, rfl | ⟨-, hover⟩⟩ := parsed_some hread
  · exact hd
  · exact absurd (hfits d hd) hover

end Runs

/-- **Timer arithmetic.** Both parsers return nothing or the exact product on a
text, and every intent that carries it schedules exactly, if and only if what
the text says, in French and in English, is below 2^64 seconds. -/
theorem timerExact_iff (checks : Bool) (u : Unicode) (ctx : SkillCtx) (text : Text) :
    TimerExact checks u ctx text ↔ Fits (SpokenFr u text) ∧ Fits (SpokenEn u text) := by
  constructor
  · intro h
    exact ⟨exactOn_iff.mp h.fr, exactOn_iff.mp h.en⟩
  · intro ⟨hfr, hen⟩
    refine ⟨exactOn_iff.mpr hfr, exactOn_iff.mpr hen, ?_⟩
    rintro intent rfl
    apply schedules_of_fits
    unfold Said
    cases isEn intent with
    | true => exact hen
    | false => exact hfr

/-! ## A duration that does not fit -/

/-- More hours than fit: 2^64 seconds and another 3584. -/
def tooManyHours : Text := "5124095576030432 heures".toList

/-- The intent of the skill's rules, in French. -/
def setIntent (text : Text) : Intent :=
  { name := "timer.set".toList, slots := [("duration".toList, some text)], locale := "fr".toList }

/-- The skill under its own name. -/
def timerCtx : SkillCtx := { name := "timer".toList, retentionGcAfterSec := none }

theorem spokenFr_tooManyHours : SpokenFr .ascii tooManyHours 18446744073709555200 :=
  ⟨"5124095576030432".toList, "heures".toList, 5124095576030432, 3600, by decide, by decide, by decide, rfl⟩

theorem not_timerExact_tooManyHours (checks : Bool) : ¬ TimerExact checks .ascii timerCtx tooManyHours := by
  intro h
  exact absurd (exactOn_iff.mp h.fr _ spokenFr_tooManyHours) (by decide)

/-- They are read as 3584 seconds, or not at all, and a timer is set that
expires within the hour. -/
theorem too_many_hours_wrap :
    parseFrDuration false .ascii tooManyHours = some (some 3584) ∧ parseFrDuration true .ascii tooManyHours = none ∧
      ¬ TimerExact false .ascii timerCtx tooManyHours ∧ ¬ TimerExact true .ascii timerCtx tooManyHours ∧
      ¬ SchedulesExactly false .ascii timerCtx (setIntent tooManyHours) := by
  refine ⟨by decide, by decide, not_timerExact_tooManyHours false, not_timerExact_tooManyHours true, ?_⟩
  intro h
  rcases h (fun _ => ⟨0, none, false⟩) ⟨.new, .new⟩ with hsame | ⟨row, ns, d, -, -, ⟨hsaid, hday⟩, -⟩
  · have hrow : (Prog.exec (serve timerCtx) (fun _ => (⟨0, none, false⟩ : Moment)) ⟨.new, .new⟩
        (handle false .ascii (setIntent tooManyHours))).1.events.rows.length = 1 := by decide
    rw [hsame] at hrow
    cases hrow
  · have hd := hsaid.unique spokenFr_tooManyHours
    omega

end AthenaVoice.Skills.Timer
