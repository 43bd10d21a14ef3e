import AthenaVoice.Satellite.Ledger

/-
  What satellites are told — `satellite/ingress.rs`, `spawn_transcript_egress`

  The egress task reads the event bus in order, late, and with gaps when it is
  slow. For a transcript, or the text of an answer, it looks up who has the
  session now. An event of a session that has ended goes nowhere; if the id has
  been opened again since, it goes to whoever opened it.

  What is proved:
    1. `telling_step` — one step keeps what was published, and what is still to
       be read, in the order of the bus.
    2. `satellites_told` — everything published answers an event of that
       session, in order and once, on the topic of the satellite whose session
       it is at the time, and never comes back as a message to the adapter.
-/

namespace AthenaVoice.Satellite

open Lib CoreTypes Mqtt Sessions

/-- What an observation sends on the bus, as far as the egress task may publish it. -/
def AdapterObs.event : AdapterObs → Option Event
  | .heard _ session _ t => some (transcriptEvent session t)
  | .sent e => some e
  | _ => none

/-- The event an observation publishes. -/
def AdapterObs.toldEvent : AdapterObs → Option Event
  | .told _ _ e _ _ => some e
  | _ => none

/-- The events of the bus, and those published, in order. -/
def busOf (h : List AdapterObs) : List Event := h.filterMap AdapterObs.event
def toldOf (h : List AdapterObs) : List Event := h.filterMap AdapterObs.toldEvent

/-- A publication is of an event of the bus, for the satellite that has the
session, in the form of that event, and parses as no message to the adapter. -/
def Answers (deps : SatelliteDeps) (before : List AdapterObs) : AdapterObs → Prop
  | .told session token e topic payload => e ∈ busOf before ∧ ∃ (sat : SatelliteId) (leaf : Text),
      entry session before = some (sat.text, token) ∧ Adapter.egressKind e = some (session, leaf, payload) ∧
      topic = sessionTopic deps.topicRoot sat.text (deps.uuids.display (sidOf session)) leaf ∧
      parseSatelliteTopic deps.uuids deps.topicRoot topic = none
  | _ => True

/-- What was published, and what is still to be read. -/
structure Telling (deps : SatelliteDeps) (h : List AdapterObs) (s : Adapter) : Prop where
  ledger : Ledger deps h s
  order : (toldOf h ++ s.backlog).Sublist (busOf h)
  answers : Machine.Recorded (Answers deps) h

theorem busOf_append (h o : List AdapterObs) : busOf (h ++ o) = busOf h ++ busOf o := List.filterMap_append

theorem toldOf_append (h o : List AdapterObs) : toldOf (h ++ o) = toldOf h ++ toldOf o := List.filterMap_append

theorem leaf_of_egressKind {e : Event} {session : SessionId} {leaf : Text} {payload : Json}
    (h : Adapter.egressKind e = some (session, leaf, payload)) :
    leaf = "transcript".toList ∨ leaf = "tts/text".toList := by
  unfold Adapter.egressKind at h
  split at h
  · cases h
    exact .inl rfl
  · cases h
    exact .inl rfl
  · cases h
    exact .inr rfl
  · cases h

theorem parse_told (deps : SatelliteDeps) {e : Event} {session : SessionId} {leaf : Text} {payload : Json}
    (h : Adapter.egressKind e = some (session, leaf, payload)) (sat : SatelliteId) (sid : Sid) :
    parseSatelliteTopic deps.uuids deps.topicRoot
      (sessionTopic deps.topicRoot sat.text (deps.uuids.display sid) leaf) = none := by
  rcases leaf_of_egressKind h with rfl | rfl
  · exact parse_egress deps.uuids (.transcript sat sid)
  · exact parse_egress deps.uuids (.ttsText sat sid)

namespace Telling

variable {deps : SatelliteDeps} {h o : List AdapterObs} {s s' : Adapter}

theorem send (T : Telling deps h s) (L : Ledger deps (h ++ o) s') (hbacklog : s'.backlog = s.backlog ++ busOf o)
    (htold : toldOf o = []) (hanswers : Machine.Recorded (Answers deps) (h ++ o)) : Telling deps (h ++ o) s' where
  ledger := L
  order := by
    rw [busOf_append, toldOf_append, htold, List.append_nil, hbacklog, ← List.append_assoc]
    exact T.order.append (List.Sublist.refl _)
  answers := hanswers

theorem send_one (T : Telling deps h s) {x : AdapterObs} (L : Ledger deps (h ++ [x]) s')
    (hbacklog : s'.backlog = s.backlog ++ busOf [x]) (htold : x.toldEvent = none) : Telling deps (h ++ [x]) s' := by
  refine T.send L hbacklog ?_ (T.answers.concat ?_)
  · rw [toldOf, List.filterMap_cons_none htold]
    rfl
  · cases x <;> trivial

theorem ran (T : Telling deps h s) (L : Ledger deps (h ++ o) s') {token : Nat} {dag dag' : Dag} {es : List Event}
    (hran : Ran token dag dag' o es) (hbacklog : s'.backlog = s.backlog ++ es) : Telling deps (h ++ o) s' := by
  have hnil : ∀ {s' : Adapter}, Ledger deps (h ++ []) s' → s'.backlog = s.backlog ++ [] →
    Telling deps (h ++ []) s' := by
    intro s' L hbacklog
    exact T.send L hbacklog rfl (by rw [List.append_nil]; exact T.answers)
  cases hran with
  | @relayed i m audio out _ _ =>
    cases out with
    | none => exact hnil L hbacklog
    | some frame => exact T.send_one L hbacklog rfl
  | transcribed _ _ => exact T.send_one L hbacklog rfl
  | forwarded _ _ => exact hnil L hbacklog
  | bereft _ _ => exact T.send_one L hbacklog rfl
  | deaf _ => exact hnil L hbacklog
  | @routed texts out _ =>
    cases out with
    | none => exact hnil L hbacklog
    | some t => exact T.send_one L hbacklog rfl
  | left _ => exact hnil L hbacklog

end Telling

/-- **One step** keeps the order of the bus. -/
theorem telling_step {deps : SatelliteDeps} {h o : List AdapterObs} {s s' : Adapter} (T : Telling deps h s)
    (he : Effect deps s s' o) : Telling deps (h ++ o) s' := by
  have L := ledger_step T.ledger he
  have hquiet : ∀ {x : AdapterObs}, x.event = none → busOf [x] = [] := by
    intro x hx
    rw [busOf, List.filterMap_cons_none hx]
    rfl
  cases he with
  | quiet _ _ hbacklog =>
    rw [List.append_nil] at L ⊢
    exact ⟨L, by rw [hbacklog]; exact T.order, T.answers⟩
  | opened _ _ _ _ _ _ hbacklog => exact T.send_one L (by rw [hbacklog, hquiet rfl, List.append_nil]) rfl
  | collided _ _ _ hbacklog => exact T.send_one L (by rw [hbacklog, hquiet rfl, List.append_nil]) rfl
  | started _ _ _ _ _ _ hbacklog => exact T.send_one L (by rw [hbacklog, hquiet rfl, List.append_nil]) rfl
  | panicked _ _ _ _ _ _ hbacklog => exact T.send_one L (by rw [hbacklog, hquiet rfl, List.append_nil]) rfl
  | closed _ _ _ _ _ hbacklog => exact T.send_one L (by rw [hbacklog, hquiet rfl, List.append_nil]) rfl
  | accepted _ _ _ _ _ _ hbacklog => exact T.send_one L (by rw [hbacklog, hquiet rfl, List.append_nil]) rfl
  | dropped _ _ _ _ _ hbacklog => exact T.send_one L (by rw [hbacklog, hquiet rfl, List.append_nil]) rfl
  | said _ _ _ _ _ _ _ hbacklog => exact T.send_one L hbacklog rfl
  | @unsaid token sat session t _ _ _ _ _ _ hbacklog =>
    refine T.send L hbacklog rfl ?_
    have hheard : Machine.Recorded (Answers deps) (h ++ [.heard token session .text t]) := T.answers.concat trivial
    have huntold : Answers deps (h ++ [.heard token session .text t]) (.untold token .text t) := trivial
    have hboth := hheard.concat huntold
    rwa [List.append_assoc] at hboth
  | ran _ hran _ _ hbacklog => exact T.ran L hran hbacklog
  | bus _ _ hbacklog => exact T.send_one L hbacklog rfl
  | lagged _ _ hbacklog =>
    rw [List.append_nil] at L ⊢
    refine ⟨L, List.Sublist.trans ?_ T.order, T.answers⟩
    rw [hbacklog]
    exact (List.Sublist.refl _).append (List.sublist_cons_self _ _)
  | @told e session leaf payload sat token _ _ hbacklog hkind hview =>
    obtain ⟨id, rfl⟩ := T.ledger.named session sat token hview
    refine ⟨L, ?_, T.answers.concat ⟨?_, id, leaf, ?_, hkind, rfl, parse_told deps hkind id _⟩⟩
    · have horder := T.order
      rw [hbacklog] at horder
      rw [busOf_append, hquiet rfl, toldOf_append, List.append_nil]
      simpa [toldOf, AdapterObs.toldEvent] using horder
    · apply T.order.subset
      rw [hbacklog]
      exact List.mem_append_right _ List.mem_cons_self
    · rw [← T.ledger.entries, hview]

/-- **What satellites are told.** In every run, whatever is sent on the bus and
however far the egress task falls behind: the events published are, in order and
each once, events of the bus, with nothing published out of turn; and each is
published for the session it names, while that session is open, on the topic of
the satellite that opened it and in the form its kind has. None of these topics
is one the adapter itself would act on. -/
theorem satellites_told (deps : SatelliteDeps) (clock : Nat) (as : List AdapterAction) (s' : Adapter)
    (o : List AdapterObs) (hr : (Adapter.machine deps).run (.init clock) as = some (s', o)) :
    (toldOf o ++ s'.backlog).Sublist (busOf o) ∧ Machine.Recorded (Answers deps) o := by
  have hstart : Telling deps [] (.init clock) :=
    ⟨.start deps clock, List.nil_sublist _, Machine.recorded_nil _⟩
  have hinv := Machine.run_invariant (P := Telling deps)
    (fun h s a s' o T hs => telling_step T (Adapter.step_effect hs)) hstart hr
  rw [List.nil_append] at hinv
  exact ⟨hinv.order, hinv.answers⟩

/-- An answer is spoken in a session that ends and is opened by the hall before
the egress task looks. -/
def lateAnswer : List AdapterAction :=
  [seventh [] .start kitchen, .wire, .bus (.ttsText 7 "bonjour".toList), seventh [] .finish kitchen,
    seventh [] .start hall, .wire, .egress]

/-- The hall is told the kitchen's answer. -/
theorem late_answer_to_the_hall :
    ∃ s' o topic payload, (Adapter.machine plainDeps).run (.init 0) lateAnswer = some (s', o) ∧
      o.getLast? = some (.told 7 1 (.ttsText 7 "bonjour".toList) topic payload) ∧
      toldOf o = [.ttsText 7 "bonjour".toList] ∧ (toldOf o ++ s'.backlog).Sublist (busOf o) := by
  refine ⟨_, _, _, _, rfl, rfl, rfl, ?_⟩
  exact (satellites_told plainDeps 0 lateAnswer _ _ rfl).1

end AthenaVoice.Satellite
