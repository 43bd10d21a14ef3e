import AthenaVoice.Wasm.Scheduler

/-
  What is spoken for the rows that fire

  The scheduler is a program over the rows popped: what it has done, followed by
  what it has still to do, is the plan of each, in the order they were popped.
  The forwarder is one over the receipts of the bus. Both equations are kept by
  every step, whatever happens in between, and the table keeps its own account.

  What is proved:
    1. `scheduler_step`, `forwarder_step` — one step of either keeps its equation.
    2. `skills_speak` — in every run, over a table with any past, both hold.
    3. `timers_announced` — if nobody else notifies, what is said is, for some of
       the timers popped, in order, one announcement each; and for all of them
       where the bus never outran the forwarder.
-/

namespace AthenaVoice.Wasm

open Lib CoreTypes Storage Pipeline SkillSpeech

/-! ## Appending to a history -/

theorem storedOf_append (h o : List SpeechObs) : storedOf (h ++ o) = storedOf h ++ storedOf o := List.filterMap_append

theorem deedsOf_append (h o : List SpeechObs) : deedsOf (h ++ o) = deedsOf h ++ deedsOf o := List.filterMap_append

theorem eventsOf_append (h o : List SpeechObs) : eventsOf (h ++ o) = eventsOf h ++ eventsOf o := List.filterMap_append

theorem receiptsOf_append (h o : List SpeechObs) : receiptsOf (h ++ o) = receiptsOf h ++ receiptsOf o :=
  List.filterMap_append

theorem saidOf_append (h o : List SpeechObs) : saidOf (h ++ o) = saidOf h ++ saidOf o := List.filterMap_append

theorem poppedRows_append (h o : List ScheduleObs) : poppedRows (h ++ o) = poppedRows h ++ poppedRows o :=
  List.flatMap_append

theorem storedOf_stored (o : List ScheduleObs) : storedOf (o.map .stored) = o := by
  rw [storedOf, List.filterMap_map]
  exact List.filterMap_some

theorem filterMap_stored {α : Type*} {f : SpeechObs → Option α} (hf : ∀ o, f (.stored o) = none)
    (o : List ScheduleObs) : (o.map SpeechObs.stored).filterMap f = [] := by
  apply List.filterMap_eq_nil_iff.mpr
  intro x hx
  obtain ⟨y, -, rfl⟩ := List.mem_map.mp hx
  exact hf y

theorem todo_next (deps : SchedulerDeps) (rows : List ScheduledEvent) :
    (SchedulerPhase.next rows).todo deps = rows.flatMap (plan deps) := by
  cases rows <;> rfl

/-! ## One step -/

/-- What holds of a history and the state it leads to, `past` being what happened
to the table before. -/
structure Speaks (deps : SchedulerDeps) (past : List ScheduleObs) (h : List SpeechObs) (s : SkillSpeech) : Prop where
  table : Consistent (past ++ storedOf h) s.table
  done : deedsOf h ++ s.scheduler.todo deps = (poppedRows (storedOf h)).flatMap (plan deps)
  heard : Accounted (receiptsOf h) (eventsOf h) s.bus
  said : saidOf h ++ s.forwarder.todo = (items (receiptsOf h)).flatMap speech

section Steps

variable {deps : SchedulerDeps} {past : List ScheduleObs} {h : List SpeechObs} {s s' : SkillSpeech}

theorem speaks_spawn {table : ScheduledEvents} (C : Consistent past table) (capacity : Nat) :
    Speaks deps past [] (spawn table capacity) :=
  ⟨by rwa [storedOf, List.filterMap_nil, List.append_nil], rfl, accounted_new capacity, rfl⟩

theorem Speaks.frame (S : Speaks deps past h s) {o : List SpeechObs}
    (htable : Consistent (past ++ storedOf (h ++ o)) s'.table)
    (hdone : deedsOf (h ++ o) ++ s'.scheduler.todo deps = (poppedRows (storedOf (h ++ o))).flatMap (plan deps))
    (hreceipts : receiptsOf o = []) (hevents : eventsOf o = []) (hsaid : saidOf o = []) (hbus : s'.bus = s.bus)
    (hforwarder : s'.forwarder = s.forwarder) : Speaks deps past (h ++ o) s' := by
  refine ⟨htable, hdone, ?_, ?_⟩
  · rw [receiptsOf_append, eventsOf_append, hreceipts, hevents, List.append_nil, List.append_nil, hbus]
    exact S.heard
  · rw [saidOf_append, receiptsOf_append, hsaid, hreceipts, List.append_nil, List.append_nil, hforwarder]
    exact S.said

theorem Speaks.store (S : Speaks deps past h s) {a : ScheduleAction} {t : ScheduledEvents} {o : List ScheduleObs}
    (hs : s.table.step a = some (t, o)) (hpopped : poppedRows o = []) :
    Speaks deps past (h ++ o.map .stored) { s with table := t } := by
  have hstored : storedOf (h ++ o.map .stored) = storedOf h ++ o := by rw [storedOf_append, storedOf_stored]
  have hdeeds : deedsOf (o.map .stored) = [] := filterMap_stored (fun _ => rfl) o
  refine S.frame ?_ ?_ (filterMap_stored (fun _ => rfl) o) (filterMap_stored (fun _ => rfl) o)
    (filterMap_stored (fun _ => rfl) o) rfl rfl
  · rw [hstored, ← List.append_assoc]
    exact consistent_step S.table hs
  · rw [hstored, poppedRows_append, hpopped, List.append_nil, ← S.done, deedsOf_append, hdeeds, List.append_nil]

theorem Speaks.tick (S : Speaks deps past h s) (hwaiting : s.scheduler = .waiting) (nowMs : Int)
    (order : Readout ScheduledEvent) :
    Speaks deps past (h ++ [.stored (.popped nowMs (s.table.popDueEvents nowMs order).2)])
      { s with table := (s.table.popDueEvents nowMs order).1,
               scheduler := .next (s.table.popDueEvents nowMs order).2 } := by
  refine S.frame ?_ ?_ rfl rfl rfl rfl rfl
  · rw [storedOf_append, ← List.append_assoc]
    exact consistent_step (a := .popDueEvents nowMs order) S.table rfl
  · have hdone := S.done
    rw [hwaiting, SchedulerPhase.todo, List.append_nil] at hdone
    rw [todo_next, storedOf_append, poppedRows_append, List.flatMap_append, ← hdone, deedsOf_append]
    simp [deedsOf, storedOf, poppedRows, SpeechObs.deed, SpeechObs.stored?]

theorem Speaks.send (S : Speaks deps past h s) (own : Bool) (e : BusEvent) (scheduler : SchedulerPhase)
    (hdone : s.scheduler.todo deps = (if own then [.send e] else []) ++ scheduler.todo deps) :
    Speaks deps past (h ++ [.sent own e]) (({ s with scheduler := scheduler }).send own e).1 := by
  have hstored : storedOf (h ++ [.sent own e]) = storedOf h := by
    rw [storedOf_append]
    exact List.append_nil _
  have hreceipts : receiptsOf (h ++ [.sent own e]) = receiptsOf h := by
    rw [receiptsOf_append]
    exact List.append_nil _
  have hsaid : saidOf (h ++ [.sent own e]) = saidOf h := by
    rw [saidOf_append]
    exact List.append_nil _
  refine ⟨?_, ?_, ?_, ?_⟩
  · rw [hstored]
    exact S.table
  · have hown : deedsOf [.sent own e] = if own then [.send e] else [] := by cases own <;> rfl
    rw [hstored, ← S.done, hdone, deedsOf_append, hown, List.append_assoc]
    rfl
  · rw [hreceipts, eventsOf_append]
    exact accounted_send S.heard e
  · rw [hsaid, hreceipts]
    exact S.said

/-- **A step of the scheduler** does the next of its deeds. -/
theorem scheduler_step (S : Speaks deps past h s) {published : Bool} {o : List SpeechObs}
    (hs : s.schedulerStep deps published = some (s', o)) : Speaks deps past (h ++ o) s' := by
  unfold schedulerStep at hs
  split at hs
  · rename_i ev rest hphase
    cases hs
    have hstored : storedOf (h ++ [.published ev.mqttTopic ev.payload published]) = storedOf h := by
      rw [storedOf_append]
      exact List.append_nil _
    refine S.frame ?_ ?_ rfl rfl rfl rfl rfl
    · rw [hstored]
      exact S.table
    · rw [hstored, ← S.done, hphase, deedsOf_append, List.append_assoc]
      rfl
  · rename_i ev rest hphase
    cases hs
    apply S.send true
    rw [hphase]
    by_cases htimer : ev.skill = "timer".toList
    · rw [if_pos htimer]
      simp only [SchedulerPhase.todo, plan, if_pos htimer]
      rfl
    · have hplan : plan deps ev = [.publish ev.mqttTopic ev.payload, .send (.scheduledFired ev.skill ev.id)] := by
        rw [plan, if_neg htimer]
        rfl
      rw [if_neg htimer, todo_next, SchedulerPhase.todo, hplan]
      rfl
  · rename_i ev rest hphase
    cases hs
    apply S.send true
    rw [hphase, todo_next]
    rfl
  · cases hs
  · cases hs

theorem Speaks.receive (S : Speaks deps past h s) (hwaiting : s.forwarder = .waiting) {bus : Bus BusEvent}
    {r : Receipt BusEvent} (hr : s.bus.receive = some (bus, r)) {forwarder : ForwarderPhase}
    (htodo : forwarder.todo = (items [r]).flatMap speech) :
    Speaks deps past (h ++ [.received r]) { s with bus := bus, forwarder := forwarder } := by
  have hstored : storedOf (h ++ [.received r]) = storedOf h := by
    rw [storedOf_append]
    exact List.append_nil _
  have hreceipts : receiptsOf (h ++ [.received r]) = receiptsOf h ++ [r] := by
    rw [receiptsOf_append]
    rfl
  have hevents : eventsOf (h ++ [.received r]) = eventsOf h := by
    rw [eventsOf_append]
    exact List.append_nil _
  refine ⟨?_, ?_, ?_, ?_⟩
  · rw [hstored]
    exact S.table
  · rw [hstored, ← S.done, deedsOf_append]
    simp [deedsOf, SpeechObs.deed]
  · rw [hreceipts, hevents]
    exact accounted_receive S.heard hr
  · have hsaid := S.said
    rw [hwaiting, ForwarderPhase.todo, List.append_nil] at hsaid
    rw [hreceipts, items_append, List.flatMap_append, ← hsaid, ← htodo, saidOf_append]
    simp [saidOf, SpeechObs.message]

theorem Speaks.say (S : Speaks deps past h s) {o : List SpeechObs} (hsaid : o = (saidOf o).map .said)
    {forwarder : ForwarderPhase} (htodo : s.forwarder.todo = saidOf o ++ forwarder.todo) :
    Speaks deps past (h ++ o) { s with forwarder := forwarder } := by
  have hnone : ∀ {α : Type} {f : SpeechObs → Option α}, (∀ m, f (.said m) = none) → o.filterMap f = [] := by
    intro α f hf
    apply List.filterMap_eq_nil_iff.mpr
    intro x hx
    rw [hsaid] at hx
    obtain ⟨m, -, rfl⟩ := List.mem_map.mp hx
    exact hf m
  have hstored : storedOf o = [] := hnone fun _ => rfl
  have hdeeds : deedsOf o = [] := hnone fun _ => rfl
  have hevents : eventsOf o = [] := hnone fun _ => rfl
  have hreceipts : receiptsOf o = [] := hnone fun _ => rfl
  refine ⟨?_, ?_, ?_, ?_⟩
  · rw [storedOf_append, hstored, List.append_nil]
    exact S.table
  · rw [storedOf_append, hstored, List.append_nil, ← S.done, deedsOf_append, hdeeds, List.append_nil]
  · rw [receiptsOf_append, eventsOf_append, hreceipts, hevents, List.append_nil, List.append_nil]
    exact S.heard
  · rw [receiptsOf_append, hreceipts, List.append_nil, ← S.said, htodo, saidOf_append, List.append_assoc]

/-- **A step of the forwarder** receives a notification, or says the next of what
it received. -/
theorem forwarder_step (S : Speaks deps past h s) {isOpen : Bool} {o : List SpeechObs}
    (hs : s.forwarderStep isOpen = some (s', o)) : Speaks deps past (h ++ o) s' := by
  unfold forwarderStep at hs
  split at hs
  · rename_i hwaiting
    split at hs
    · cases hs
    · rename_i bus session skill text hr
      cases hs
      exact S.receive hwaiting hr rfl
    · rename_i bus r hnotify hr
      cases hs
      have hsilent : ForwarderPhase.waiting.todo = (items [r]).flatMap speech := by
        cases r with
        | lagged n => rfl
        | item e =>
          cases e with
          | skillNotify session skill text => exact (hnotify session skill text rfl).elim
          | event e => rfl
          | scheduledFired skill id => rfl
      rw [← hwaiting] at hsilent
      exact S.receive hwaiting hr hsilent
  · rename_i text htoken
    split at hs
    · cases hs
      exact S.say rfl (by rw [htoken]; rfl)
    · cases hs
      exact S.say rfl (by rw [htoken]; rfl)
  · rename_i hending
    split at hs
    · cases hs
      exact S.say rfl (by rw [hending]; rfl)
    · cases hs
      exact S.say rfl (by rw [hending]; rfl)
  · cases hs

theorem poppedRows_step {t t' : ScheduledEvents} {a : ScheduleAction} {o : List ScheduleObs}
    (hs : t.step a = some (t', o)) (hpop : ∀ nowMs order, a ≠ .popDueEvents nowMs order) : poppedRows o = [] := by
  cases a with
  | popDueEvents nowMs order => exact absurd rfl (hpop nowMs order)
  | scheduleEvent skill firesAtMs topic payload createdAtMs =>
    simp only [ScheduledEvents.step] at hs
    split at hs <;> cases hs <;> rfl
  | deleteScheduled id =>
    cases hs
    rfl
  | failed =>
    cases hs
    rfl

/-- **One step**, of either task or around them. -/
theorem speaks_step (S : Speaks deps past h s) {a : SpeechAction} {o : List SpeechObs}
    (hs : step deps s a = some (s', o)) : Speaks deps past (h ++ o) s' := by
  cases a with
  | store a =>
    have hpop : (∀ nowMs order, a ≠ .popDueEvents nowMs order) ∧ s.onTable a = some (s', o) := by
      cases a with
      | popDueEvents nowMs order => cases hs
      | _ => exact ⟨nofun, hs⟩
    obtain ⟨⟨t, o'⟩, ht, heq⟩ := Option.map_eq_some_iff.mp hpop.2
    cases heq
    exact S.store ht (poppedRows_step ht hpop.1)
  | tick nowMs order =>
    simp only [step] at hs
    split at hs
    · rename_i hwaiting
      cases hs
      exact S.tick hwaiting nowMs order
    · cases hs
  | tickFails =>
    simp only [step] at hs
    split at hs
    · cases hs
      exact S.store (a := .failed) rfl rfl
    · cases hs
  | scheduler published => exact scheduler_step S hs
  | cancelScheduler =>
    simp only [step] at hs
    split at hs
    · rename_i hwaiting
      cases hs
      rw [List.append_nil]
      exact ⟨S.table, by rw [← S.done, hwaiting]; rfl, S.heard, S.said⟩
    · cases hs
  | send e =>
    cases hs
    exact S.send false e s.scheduler rfl
  | forwarder isOpen => exact forwarder_step S hs
  | cancelForwarder =>
    simp only [step] at hs
    split at hs
    · rename_i hwaiting
      cases hs
      rw [List.append_nil]
      exact ⟨S.table, S.done, S.heard, by rw [← S.said, hwaiting]; rfl⟩
    · cases hs

/-- **A whole run**, over a table with any past. -/
theorem speaks_run {table : ScheduledEvents} (C : Consistent past table) {capacity : Nat} {as : List SpeechAction}
    {o : List SpeechObs} (hr : (machine deps).run (spawn table capacity) as = some (s', o)) :
    Speaks deps past o s' := by
  have S := Machine.run_invariant (P := Speaks deps past) (fun h s a s' o S hs => speaks_step S hs)
    (speaks_spawn C capacity) hr
  rwa [List.nil_append] at S

end Steps

/-- **What skills have said.** In every run of the two tasks, over a table with
any past and whatever anyone else does to it and to the bus: no row is popped
twice, or before it is due; the scheduler does what is planned for each row
popped, one row after the other, and nothing else; and the forwarder says every
notification it receives, whole and in turn, having received the events of the
bus in order but for those it was told it missed. -/
theorem skills_speak (deps : SchedulerDeps) (before : List ScheduleAction) (table : ScheduledEvents)
    (past : List ScheduleObs) (hbefore : ScheduledEvents.machine.run .new before = some (table, past)) (capacity : Nat)
    (as : List SpeechAction) (s' : SkillSpeech) (o : List SpeechObs)
    (hr : (machine deps).run (spawn table capacity) as = some (s', o)) :
    Conserved (past ++ storedOf o) s'.table ∧
      deedsOf o ++ s'.scheduler.todo deps = (poppedRows (storedOf o)).flatMap (plan deps) ∧
      saidOf o ++ s'.forwarder.todo = (items (receiptsOf o)).flatMap speech ∧
      ∃ heard, heard <+: eventsOf o ∧ Explains (receiptsOf o) heard := by
  have C := Machine.run_invariant (P := Consistent) (fun h t a t' o C hs => consistent_step C hs) consistent_new hbefore
  rw [List.nil_append] at C
  have S := speaks_run C hr
  obtain ⟨read, lost, hsent, hread, -⟩ := S.heard
  refine ⟨S.table.conserved, S.done, S.said, read, ?_, hread⟩
  rw [hsent, List.append_assoc]
  exact List.prefix_append read _

def dueAtFive (id : Int) (skill : Text) : ScheduledEvent :=
  { id := id, skill := skill, firesAtMs := 5, mqttTopic := "t".toList, payload := [], createdAtMs := 0 }

/-- A timer and another skill's row fire together; three events are sent before
the forwarder reads the bus, which keeps two. -/
def firedTogether : List SpeechAction :=
  .store (.scheduleEvent "timer".toList 5 "t".toList [] 0) :: .tick 5 .plain ::
    (List.replicate 5 (.scheduler true) ++ List.replicate 5 (.forwarder true))

def noSeconds : SchedulerDeps := { session := 7, fromSlice := fun _ => none }

/-- The first event is missed; the timer's payload tells no seconds. -/
theorem skills_speak_together :
    let text := timerExpirationText noSeconds []
    ∃ s' o, (machine noSeconds).run (spawn { rows := [dueAtFive 1 "light".toList], seq := 1 } 2) firedTogether =
        some (s', o) ∧
      receiptsOf o = [.lagged 1, .item (.scheduledFired "timer".toList 2),
        .item (.skillNotify 7 "timer".toList text)] ∧
      saidOf o = [.token text, .answerEnd] ∧ ∃ heard, heard <+: eventsOf o ∧ Explains (receiptsOf o) heard := by
  intro text
  have hrun : ∃ s', (machine noSeconds).run
    (spawn { rows := [dueAtFive 1 "light".toList], seq := 1 } 2) firedTogether =
      some (s', [.stored (.scheduled (dueAtFive 2 "timer".toList)),
        .stored (.popped 5 [dueAtFive 1 "light".toList, dueAtFive 2 "timer".toList]),
        .published "t".toList [] true, .sent true (.scheduledFired "light".toList 1),
        .published "t".toList [] true, .sent true (.scheduledFired "timer".toList 2),
        .sent true (.skillNotify 7 "timer".toList text), .received (.lagged 1),
        .received (.item (.scheduledFired "timer".toList 2)),
        .received (.item (.skillNotify 7 "timer".toList text)), .said (.token text), .said .answerEnd]) := ⟨_, rfl⟩
  obtain ⟨s', hrun⟩ := hrun
  exact ⟨s', _, hrun, rfl, rfl, (skills_speak noSeconds [.scheduleEvent "light".toList 5 "t".toList [] 0]
    { rows := [dueAtFive 1 "light".toList], seq := 1 } [.scheduled (dueAtFive 1 "light".toList)] rfl 2 firedTogether
    s' _ hrun).2.2.2⟩

/-! ## The timers among them -/

def BusEvent.notice : BusEvent → Option Text
  | .skillNotify _ _ text => some text
  | _ => none

def Deed.notice : Deed → Option Text
  | .send e => e.notice
  | .publish _ _ => none

/-- A text, as an answer by itself. -/
def announce (text : Text) : List TtsMsg := [.token text, .answerEnd]

def timers (rows : List ScheduledEvent) : List ScheduledEvent := rows.filter (·.skill = "timer".toList)

theorem flatMap_speech (events : List BusEvent) :
    events.flatMap speech = (events.filterMap BusEvent.notice).flatMap announce := by
  induction events with
  | nil => rfl
  | cons e events ih =>
    rw [List.flatMap_cons, ih]
    cases e <;> rfl

theorem notices_plan (deps : SchedulerDeps) (rows : List ScheduledEvent) :
    (rows.flatMap (plan deps)).filterMap Deed.notice =
      (timers rows).map fun row => timerExpirationText deps row.payload := by
  induction rows with
  | nil => rfl
  | cons row rows ih =>
    rw [List.flatMap_cons, List.filterMap_append, ih]
    by_cases htimer : row.skill = "timer".toList
    · simp only [timers, plan, List.filter_cons, htimer, decide_true, if_true]
      rfl
    · simp only [timers, plan, List.filter_cons, htimer, decide_false]
      rfl

theorem notices_events {o : List SpeechObs} (hquiet : ∀ e, .sent false e ∈ o → e.notice = none) :
    (eventsOf o).filterMap BusEvent.notice = (deedsOf o).filterMap Deed.notice := by
  rw [eventsOf, deedsOf, List.filterMap_filterMap, List.filterMap_filterMap]
  apply List.filterMap_congr
  intro x hx
  cases x with
  | sent own e =>
    cases own with
    | true => rfl
    | false => exact hquiet e hx
  | _ => rfl

/-- **Timers are announced.** If nobody but the scheduler notifies: what is said
is, for some of the timers popped and in their order, that the timer of so many
seconds is over, once each; and it is said for all of them once both tasks wait
again and the bus is read, if it never outran the forwarder. -/
theorem timers_announced (deps : SchedulerDeps) (capacity : Nat) (as : List SpeechAction) (s' : SkillSpeech)
    (o : List SpeechObs) (hr : (machine deps).run (spawn .new capacity) as = some (s', o))
    (hquiet : ∀ e, .sent false e ∈ o → e.notice = none) :
    (∃ announced : List ScheduledEvent, announced.Sublist (timers (poppedRows (storedOf o))) ∧
      saidOf o ++ s'.forwarder.todo =
        announced.flatMap fun row => announce (timerExpirationText deps row.payload)) ∧
      (s'.scheduler = .waiting → s'.bus.backlog = [] → s'.bus.missed + gaps (receiptsOf o) = 0 →
        saidOf o ++ s'.forwarder.todo =
          (timers (poppedRows (storedOf o))).flatMap fun row => announce (timerExpirationText deps row.payload)) := by
  have S : Speaks deps [] o s' := speaks_run consistent_new hr
  have hdone := congrArg (List.filterMap Deed.notice) S.done
  rw [notices_plan, List.filterMap_append, ← notices_events hquiet] at hdone
  refine ⟨?_, ?_⟩
  · have hsub : ((items (receiptsOf o)).filterMap BusEvent.notice).Sublist
        ((timers (poppedRows (storedOf o))).map fun row => timerExpirationText deps row.payload) := by
      rw [← hdone]
      have hitems := (List.sublist_append_left _ _).trans (accounted_sublist S.heard)
      exact (hitems.filterMap _).trans (List.sublist_append_left _ _)
    obtain ⟨announced, hannounced, heq⟩ := List.sublist_map_iff.mp hsub
    refine ⟨announced, hannounced, ?_⟩
    rw [S.said, flatMap_speech, heq, List.flatMap_map]
  · intro hwaiting hread hkept
    have hevents := accounted_complete S.heard (by omega) (by omega)
    rw [hread, List.append_nil] at hevents
    rw [hwaiting, SchedulerPhase.todo, List.filterMap_nil, List.append_nil, hevents] at hdone
    rw [S.said, flatMap_speech, hdone, List.flatMap_map]

/-- The timer alone, on a bus that keeps everything. -/
def firedAlone : List SpeechAction :=
  .store (.scheduleEvent "timer".toList 5 "t".toList [] 0) :: .tick 5 .plain ::
    (List.replicate 3 (.scheduler true) ++ List.replicate 4 (.forwarder true))

/-- It is announced. -/
theorem timer_alone_announced :
    let text := timerExpirationText noSeconds []
    ∃ s' o, (machine noSeconds).run (spawn .new 1024) firedAlone = some (s', o) ∧
      saidOf o = [.token text, .answerEnd] ∧ saidOf o ++ s'.forwarder.todo =
        (timers (poppedRows (storedOf o))).flatMap fun row => announce (timerExpirationText noSeconds row.payload) := by
  intro text
  have hrun : ∃ s', (machine noSeconds).run (spawn .new 1024) firedAlone = some (s',
      [.stored (.scheduled (dueAtFive 1 "timer".toList)), .stored (.popped 5 [dueAtFive 1 "timer".toList]),
        .published "t".toList [] true, .sent true (.scheduledFired "timer".toList 1),
        .sent true (.skillNotify 7 "timer".toList text), .received (.item (.scheduledFired "timer".toList 1)),
        .received (.item (.skillNotify 7 "timer".toList text)), .said (.token text), .said .answerEnd]) ∧
      s'.scheduler = .waiting ∧ s'.bus = .new 1024 := ⟨_, rfl, rfl, rfl⟩
  obtain ⟨s', hrun, hwaiting, hbus⟩ := hrun
  exact ⟨s', _, hrun, rfl, (timers_announced noSeconds 1024 firedAlone s' _ hrun (by simp)).2 hwaiting
    (by rw [hbus]; rfl) (by rw [hbus]; rfl)⟩

end AthenaVoice.Wasm
