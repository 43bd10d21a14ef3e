import AthenaVoice.Skills.Timer
import AthenaVoice.Wasm.SkillSpeech

/-
  From a spoken duration to its announcement

  The timer skill writes its duration three times: as the time its row fires, in
  the payload it asks to be published, and in the two stores. The scheduler reads
  the payload back to say how long the timer was. Between them stand the host's
  access list, the table and JSON.

  What is proved:
    1. `allowed_expired` — the host lets only the skill named timer schedule the
       topic of an expired timer.
    2. `timer_round_trip` — the row an intent leaves fires as many seconds after
       the clock as are announced when it does.
-/

namespace AthenaVoice.Skills.Timer

open Lib Sdk Serde Storage Wasm

section RoundTrip

variable {checks : Bool} {u : Unicode} {ctx : SkillCtx} {intent : Intent} {t : Tables}

/-- The topic names its skill. -/
theorem allowed_expired {name : Text} (h : mqttTopicAllowed name expiredTopic = true) : name = "timer".toList := by
  have hprefix : name ++ "/".toList <+: "timer/expired".toList := by
    have hall : "athena/skills/".toList ++ (name ++ "/".toList) <+: "athena/skills/".toList ++
      "timer/expired".toList := by
      rw [← List.append_assoc]
      exact List.isPrefixOf_iff_prefix.mp h
    exact (List.prefix_append_right_inj _).mp hall
  have hlength : name.length + 1 ≤ 13 := by
    have hle := hprefix.length_le
    simpa using hle
  have htake := List.prefix_iff_eq_take.mp hprefix
  rw [List.length_append] at htake
  obtain ⟨n, hn⟩ : ∃ n, name.length = n := ⟨_, rfl⟩
  rw [hn] at htake hlength
  -- the only slash of the topic's end is the sixth character
  have hlast : ("timer/expired".toList.take (n + "/".toList.length)).getLast? = some '/' := by
    rw [← htake]
    exact List.getLast?_concat
  have hfive : n = 5 := by
    revert hlast
    have hn12 : n ≤ 12 := by omega
    clear htake hlength hn
    interval_cases n <;> decide
  subst hfive
  exact List.append_cancel_right (htake : name ++ "/".toList = "timer".toList ++ "/".toList)

theorem hostScheduleMqtt_row (name : Text) (createdAtMs : Int) (storeFails : Bool) (events : ScheduledEvents)
    (firesAtMs : Int) (topic : Text) (payload : Bytes) :
    let r := hostScheduleMqtt name createdAtMs storeFails events firesAtMs topic payload
    r.1.rows = events.rows ∨ (mqttTopicAllowed name topic = true ∧ ∃ id : Int, r.1.rows = events.rows ++
      [{ id := id, skill := name, firesAtMs := firesAtMs, mqttTopic := topic, payload := payload,
         createdAtMs := createdAtMs }]) := by
  unfold hostScheduleMqtt ScheduledEvents.scheduleEvent
  by_cases hallowed : mqttTopicAllowed name topic = true
  · rw [if_pos hallowed]
    cases storeFails with
    | true => exact .inl rfl
    | false =>
      by_cases hseq : events.seq < maxRowid
      · simp only [if_pos hseq]
        exact .inr ⟨hallowed, _, rfl⟩
      · simp only [if_neg hseq]
        exact .inl rfl
  · rw [if_neg hallowed]
    exact .inl rfl

/-- What a row an intent leaves is. -/
def TimerRow (seconds : Nat) (t t' : Tables) (calls : Prog.Trace Call Call.Answer) : Prop :=
  t'.events.rows = t.events.rows ∨ ∃ (id createdAtMs : Int) (ns : UInt64),
    (⟨.now, ns⟩ : Σ c : Call, c.Answer) ∈ calls ∧ t'.events.rows = t.events.rows ++
      [{ id := id, skill := "timer".toList, firesAtMs := nowMillis ns + seconds * 1000, mqttTopic := expiredTopic,
         payload := payload seconds, createdAtMs := createdAtMs }]

theorem ensures_setTimer_row (en : Bool) (text : Text) (seconds : Nat) :
    Prog.Ensures (serve ctx) t (setTimer en text seconds) (fun t' calls _ => TimerRow seconds t t' calls) := by
  intro m₀ m₁
  have hrow : ∀ (t' : Tables) (calls : Prog.Trace Call Call.Answer), t'.events =
      (serve ctx t m₁ (.scheduleMqtt (nowMillis m₀.ns + seconds * 1000) expiredTopic
        (payload seconds))).1.events →
        TimerRow seconds t t' (⟨.now, m₀.ns⟩ :: calls) := by
    intro t' calls hevents
    unfold TimerRow
    rw [hevents]
    unfold serve
    cases m₁.failure with
    | some e => exact .inl rfl
    | none =>
      rcases hostScheduleMqtt_row ctx.name (nowMillis m₁.ns) m₁.storeFails t.events
        (nowMillis m₀.ns + seconds * 1000)
        expiredTopic (payload seconds) with hsame | ⟨hallowed, id, hadd⟩
      · exact .inl hsame
      · refine .inr ⟨id, nowMillis m₁.ns, m₀.ns, List.mem_cons_self, ?_⟩
        rw [← allowed_expired hallowed]
        exact hadd
  apply ensures_orReturn (fun e => hrow _ _ rfl)
  intro id
  apply Prog.ensures_mono (ensures_noteTimer en text seconds id)
  intro t' calls _ hevents
  exact hrow t' _ hevents

theorem handle_row (checks : Bool) (u : Unicode) (ctx : SkillCtx) (intent : Intent) (e : Nat → Moment) (t : Tables) :
    let r := Prog.exec (serve ctx) e t (handle checks u intent)
    r.1.events.rows = t.events.rows ∨ ∃ seconds, parsed checks u intent = some (some seconds) ∧
      seconds ≤ maxSeconds ∧
      TimerRow seconds t r.1 r.2.1 := by
  refine Prog.exec_of_ensures (Q := fun t' calls _ => t'.events.rows = t.events.rows ∨ ∃ seconds,
    parsed checks u intent = some (some seconds) ∧ seconds ≤ maxSeconds ∧ TimerRow seconds t t' calls) ?_ e
  unfold handle
  cases hparsed : parsed checks u intent with
  | none => exact .inl rfl
  | some outcome =>
    cases outcome with
    | none => exact .inl rfl
    | some seconds =>
      show Prog.Ensures (serve ctx) t (if seconds > maxSeconds then _ else _) _
      by_cases hlong : seconds > maxSeconds
      · rw [if_pos hlong]
        exact .inl rfl
      · rw [if_neg hlong]
        apply Prog.ensures_bind
        apply Prog.ensures_mono (ensures_setTimer_row _ _ seconds)
        intro t' calls result hrow
        refine .inr ⟨seconds, rfl, Nat.le_of_not_lt hlong, ?_⟩
        rw [List.append_nil]
        exact hrow

theorem plan_timer (deps : SchedulerDeps) (row : ScheduledEvent) {seconds : Nat} (hskill : row.skill = "timer".toList)
    (hseconds : (deps.fromSlice row.payload).bind payloadSeconds = some seconds) :
    plan deps row = [.publish row.mqttTopic row.payload, .send (.scheduledFired "timer".toList row.id),
      .send (.skillNotify deps.session "timer".toList
        ("le minuteur de ".toList ++ display seconds ++ " secondes est terminé.".toList))] := by
  have htext : timerExpirationText deps row.payload =
      "le minuteur de ".toList ++ display seconds ++ " secondes est terminé.".toList := by
    unfold timerExpirationText
    rw [hseconds, Option.getD_some]
  rw [plan, if_pos hskill, announcement, htext, hskill]
  rfl

/-- **A timer says how long it was.** Whatever is said, the clock, the tables and
the failures: handling an intent leaves the events as they were, or one row more;
that row fires some seconds, at most a day's, after a clock that was read — those
said, if what is said fits a u64 — and what is planned for it is to publish just
these seconds and to announce them. JSON reads back what the skill writes. -/
theorem timer_round_trip (checks : Bool) (u : Unicode) (ctx : SkillCtx) (intent : Intent) (deps : SchedulerDeps)
    (hreads : ∀ seconds ≤ maxSeconds,
      deps.fromSlice (payload seconds) = some (.object [("seconds".toList, .number (some seconds))]))
    (e : Nat → Moment) (t : Tables) :
    let r := Prog.exec (serve ctx) e t (handle checks u intent)
    r.1.events.rows = t.events.rows ∨ ∃ (row : ScheduledEvent) (ns : UInt64) (seconds : Nat),
      r.1.events.rows = t.events.rows ++ [row] ∧ (⟨.now, ns⟩ : Σ c : Call, c.Answer) ∈ r.2.1 ∧
        row.firesAtMs = nowMillis ns + seconds * 1000 ∧ seconds ≤ maxSeconds ∧
        (Fits (Said u intent) → Said u intent seconds) ∧
        plan deps row = [.publish expiredTopic (payload seconds), .send (.scheduledFired "timer".toList row.id),
          .send (.skillNotify deps.session "timer".toList
            ("le minuteur de ".toList ++ display seconds ++ " secondes est terminé.".toList))] := by
  intro r
  rcases handle_row checks u ctx intent e t with hsame | ⟨seconds, hread, hle, hsame | hrow⟩
  · exact .inl hsame
  · exact .inl hsame
  · obtain ⟨id, createdAtMs, ns, hns, hadd⟩ := hrow
    refine .inr ⟨_, ns, seconds, hadd, hns, rfl, hle, ?_, ?_⟩
    · intro hfits
      obtain ⟨d, hd, rfl | ⟨-, hover⟩⟩ := parsed_some hread
      · exact hd
      · exact absurd (hfits d hd) hover
    · exact plan_timer deps _ rfl (by rw [hreads seconds hle]; rfl)

end RoundTrip

/-! ## Five minutes -/

/-- What the skill writes, read back; nothing else is. -/
def readSeconds (bytes : Bytes) : Option Doc :=
  (utf8.decode bytes).bind fun text =>
    let rest := readDigits (text.drop 11)
    if text.take 11 = "\x7b\"seconds\":".toList ∧ rest.2 = "\x7d".toList then
      some (.object [("seconds".toList, .number (some rest.1))])
    else none

theorem readSeconds_payload (seconds : Nat) :
    readSeconds (payload seconds) = some (.object [("seconds".toList, .number (some seconds))]) := by
  have hdecode : utf8.decode (payload seconds) =
      some ("\x7b\"seconds\":".toList ++ (display seconds ++ "\x7d".toList)) := by
    rw [payload, utf8.decode_encode, List.append_assoc]
  have hdigits : readDigits (display seconds ++ "\x7d".toList) = (seconds, "\x7d".toList) := by
    apply readDigits_display
    intro c hc
    cases hc
    rfl
  rw [readSeconds, hdecode, Option.bind_some]
  have hdrop : ("\x7b\"seconds\":".toList ++ (display seconds ++ "\x7d".toList)).drop 11 =
      display seconds ++ "\x7d".toList := rfl
  have htake : ("\x7b\"seconds\":".toList ++ (display seconds ++ "\x7d".toList)).take 11 = "\x7b\"seconds\":".toList :=
    rfl
  rw [hdrop, htake, hdigits]
  exact if_pos ⟨rfl, rfl⟩

/-- Five minutes are set, and will be announced. -/
theorem five_minutes_announced :
    let deps : SchedulerDeps := { session := 7, fromSlice := readSeconds }
    let r := Prog.exec (serve timerCtx) (fun _ => (⟨0, none, false⟩ : Moment)) ⟨.new, .new⟩
      (handle true .ascii (setIntent "5 minutes".toList))
    ∃ (row : ScheduledEvent) (seconds : Nat), r.1.events.rows = [row] ∧
      Said .ascii (setIntent "5 minutes".toList) seconds ∧
      plan deps row = [.publish expiredTopic (payload seconds), .send (.scheduledFired "timer".toList row.id),
        .send (.skillNotify deps.session "timer".toList
          ("le minuteur de ".toList ++ display seconds ++ " secondes est terminé.".toList))] := by
  intro deps r
  have hadded : r.1.events.rows.length = 1 := by decide
  rcases timer_round_trip true .ascii timerCtx (setIntent "5 minutes".toList) deps
    (fun seconds _ => readSeconds_payload seconds) (fun _ => ⟨0, none, false⟩) ⟨.new, .new⟩ with
    hsame | ⟨row, ns, seconds, hadd, -, -, -, hsaid, hplan⟩
  · rw [show r.1.events.rows = [] from hsame] at hadded
    cases hadded
  · refine ⟨row, seconds, hadd, hsaid ?_, hplan⟩
    intro d hd
    have hfive : SpokenFr .ascii "5 minutes".toList 300 :=
      ⟨"5".toList, "minutes".toList, 5, 60, by decide, by decide, by decide, rfl⟩
    have heq := Spoken.unique hd hfive
    omega

end AthenaVoice.Skills.Timer
