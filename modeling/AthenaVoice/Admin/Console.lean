import AthenaVoice.Lib.Machine
import AthenaVoice.Lib.Utf8
import AthenaVoice.Mqtt.Topics

/-
  The test console — `athena-voice-admin/src/test_command.rs`

  One request is one session. The console subscribes to everything below the
  session's topic, opens it once the subscription is acknowledged, and sends the
  text. It collects what is published on `tts/text` until `done`, a quiet
  moment, or the deadline; then it ends the session, waits for an
  acknowledgement, and disconnects.

  `select!` takes whichever of its branches is ready: the order is left open.
  Times are in milliseconds.

  What is proved:
    1. `turn_of_step` — all that one event can do.
    2. `conversation_step` — what the console has asked of its client, and what
       it answers with, after one more event.
    3. `console_conversation` — the same for every run.

  Correspondence (Rust ↔ Lean):
    `ANSWER_QUIET`, `SESSION_TIMEOUT`     `answerQuiet`, `sessionTimeout`
    `run_text_session`                    `Console.start`, then `Console.step`
    `eventloop.poll()`                    `Polled`
    requests of `AsyncClient`              `ClientRequest`; `Command.refuses` when they fail
-/

namespace AthenaVoice.Admin

open Lib Mqtt

def answerQuiet : Nat := 1200
def sessionTimeout : Nat := 10000

/-- How long the console waits for the last acknowledgement. -/
def flushTimeout : Nat := 1000

inductive TestCommandError where
  | connect (e : Text)
  | timeout
  deriving DecidableEq, Repr

/-- What the console asks of its MQTT client. -/
inductive ClientRequest where
  | subscribe (filter : Text)
  | publish (topic payload : Text)
  | disconnect
  deriving DecidableEq, Repr

/-- What polling the client's event loop yields. -/
inductive Polled where
  | subAck
  | pubAck
  | publish (topic : Text) (payload : List UInt8)
  | other
  | failed (e : Text)
  deriving DecidableEq, Repr

/-- One command, and what the client refuses. -/
structure Command where
  topicRoot : Text
  /-- The session's id, as it is displayed. -/
  sid : Text
  text : Text
  locale : Text
  /-- `serde_json::Value::to_string`. -/
  toString : Json → Text
  refuses : ClientRequest → Option Text

namespace Command

def topic (cmd : Command) (leaf : Text) : Text := adminBase cmd.topicRoot cmd.sid ++ '/' :: leaf

/-- What a session is opened with. -/
def startJson (cmd : Command) : Json := .object [("locale".toList, .string cmd.locale)]

/-- Where the answer is published, and that the session is done. -/
def ttsTextTopic (cmd : Command) : Text := cmd.topic "tts/text".toList
def doneTopic (cmd : Command) : Text := cmd.topic "done".toList

def subscribeRequest (cmd : Command) : ClientRequest := .subscribe (cmd.topic "#".toList)
def startRequest (cmd : Command) : ClientRequest := .publish (cmd.topic "start".toList) (cmd.toString cmd.startJson)
def textRequest (cmd : Command) : ClientRequest := .publish (cmd.topic "text".toList) cmd.text
def endRequest (cmd : Command) : ClientRequest := .publish (cmd.topic "end".toList) []

end Command

inductive Phase where
  | talking
  /-- The end is published, and its acknowledgement waited for. -/
  | flushing (result : Except TestCommandError Text) (deadline : Nat)
  | finished (result : Except TestCommandError Text)
  /-- The client does not take the subscription. -/
  | unsubscribed (e : Text)

/-- What a session is going to answer. -/
def Phase.result : Phase → Option (Except TestCommandError Text)
  | .talking => none
  | .flushing result _ => some result
  | .finished result => some result
  | .unsubscribed e => some (.error (.connect e))

def Phase.closing (cmd : Command) : Phase → List ClientRequest
  | .talking => []
  | .flushing _ _ => [cmd.endRequest]
  | .finished _ => [cmd.endRequest, .disconnect]
  | .unsubscribed _ => []

def Phase.answer : Phase → List (Except TestCommandError Text)
  | .talking => []
  | .flushing _ _ => []
  | .finished result => [result]
  | .unsubscribed e => [.error (.connect e)]

/-- `run_text_session`. -/
structure Console where
  now : Nat
  deadline : Nat
  started : Bool
  segments : List Text
  lastSegmentAt : Nat
  phase : Phase

inductive ConsoleAction where
  | elapse (ms : Nat)
  | polled (x : Polled)
  | tick
  /-- `sleep_until`, of the session's deadline or of the flush's. -/
  | deadline

inductive ConsoleObs where
  | asked (r : ClientRequest)
  /-- The client takes the start or the text back. -/
  | refused (e : Text)
  /-- What is polled while the session is under way. -/
  | got (x : Polled)
  | answered (result : Except TestCommandError Text)

namespace Console

def start (cmd : Command) (clock : Nat) : Console × List ConsoleObs :=
  let s : Console :=
    { now := clock, deadline := clock + sessionTimeout, started := false, segments := [], lastSegmentAt := clock
      phase := .talking }
  match cmd.refuses cmd.subscribeRequest with
  | some e => ({ s with phase := .unsubscribed e }, [.asked cmd.subscribeRequest, .answered (.error (.connect e))])
  | none => (s, [.asked cmd.subscribeRequest])

/-- The loop breaks, and the session is ended. -/
def finish (cmd : Command) (s : Console) (result : Except TestCommandError Text) : Console × List ConsoleObs :=
  ({ s with phase := .flushing result (s.now + flushTimeout) }, [.asked cmd.endRequest])

def leave (s : Console) (result : Except TestCommandError Text) : Console × List ConsoleObs :=
  ({ s with phase := .finished result }, [.asked .disconnect, .answered result])

/-- `segments.join(" ")`. -/
def answer (s : Console) : Text := Str.join " ".toList s.segments

/-- The subscription is acknowledged. -/
def subscribed (cmd : Command) (s : Console) : Console × List ConsoleObs :=
  let s := { s with started := true }
  -- both are published, and the first error counts
  match (cmd.refuses cmd.startRequest).or (cmd.refuses cmd.textRequest) with
  | none => (s, [.asked cmd.startRequest, .asked cmd.textRequest])
  | some e =>
    let r := s.finish cmd (.error (.connect e))
    (r.1, [.asked cmd.startRequest, .asked cmd.textRequest, .refused e] ++ r.2)

/-- What is polled while the session is under way. -/
def talk (cmd : Command) (s : Console) : Polled → Console × List ConsoleObs
  | .subAck => if s.started then (s, []) else s.subscribed cmd
  | .publish topic payload =>
    if topic = cmd.ttsTextTopic then
      ({ s with segments := s.segments ++ [fromUtf8Lossy payload], lastSegmentAt := s.now }, [])
    else if topic = cmd.doneTopic then s.finish cmd (.ok s.answer)
    else (s, [])
  | .failed e => s.finish cmd (.error (.connect e))
  | .pubAck => (s, [])
  | .other => (s, [])

def step (cmd : Command) (s : Console) : ConsoleAction → Option (Console × List ConsoleObs)
  | .elapse ms => some ({ s with now := s.now + ms }, [])
  | .polled x =>
    match s.phase with
    | .talking =>
      let r := s.talk cmd x
      some (r.1, .got x :: r.2)
    | .flushing result _ =>
      match x with
      | .pubAck => some (s.leave result)
      | .failed _ => some (s.leave result)
      | _ => some (s, [])
    | _ => none
  | .tick =>
    match s.phase with
    | .talking =>
      if ¬ s.segments.isEmpty ∧ s.lastSegmentAt + answerQuiet < s.now then some (s.finish cmd (.ok s.answer))
      else some (s, [])
    | _ => none
  | .deadline =>
    match s.phase with
    | .talking =>
      if s.deadline ≤ s.now then some (s.finish cmd (if s.segments.isEmpty then .error .timeout else .ok s.answer))
      else none
    | .flushing result deadline => if deadline ≤ s.now then some (s.leave result) else none
    | _ => none

def machine (cmd : Command) : Machine Console ConsoleAction ConsoleObs where
  step := step cmd

inductive Turn (cmd : Command) (s : Console) : ConsoleAction → Console → List ConsoleObs → Prop where
  | stay {a : ConsoleAction} : Turn cmd s a s []
  | elapse (ms : Nat) : Turn cmd s (.elapse ms) { s with now := s.now + ms } []
  | talk (x : Polled) (hphase : s.phase = .talking) :
      Turn cmd s (.polled x) (s.talk cmd x).1 (.got x :: (s.talk cmd x).2)
  | answer {a : ConsoleAction} (hphase : s.phase = .talking) (hsome : s.segments ≠ [])
      (hwhen : s.lastSegmentAt + answerQuiet < s.now ∨ s.deadline ≤ s.now) :
      Turn cmd s a (s.finish cmd (.ok s.answer)).1 (s.finish cmd (.ok s.answer)).2
  | timeout {a : ConsoleAction} (hphase : s.phase = .talking) (hnone : s.segments = []) (hlate : s.deadline ≤ s.now) :
      Turn cmd s a (s.finish cmd (.error .timeout)).1 (s.finish cmd (.error .timeout)).2
  | leave {a : ConsoleAction} {result : Except TestCommandError Text} {d : Nat}
      (hphase : s.phase = .flushing result d) :
      Turn cmd s a (s.leave result).1 (s.leave result).2

theorem turn_of_step {cmd : Command} {s s' : Console} {a : ConsoleAction} {o : List ConsoleObs}
    (hs : (machine cmd).step s a = some (s', o)) : Turn cmd s a s' o := by
  simp only [machine, step] at hs
  cases a with
  | elapse ms =>
    cases hs
    exact .elapse ms
  | polled x =>
    cases hphase : s.phase with
    | talking =>
      simp only [hphase] at hs
      cases hs
      exact .talk x hphase
    | flushing result d =>
      simp only [hphase] at hs
      cases x with
      | pubAck | failed e =>
        cases hs
        exact .leave hphase
      | subAck | publish topic payload | other =>
        cases hs
        exact .stay
    | finished result | unsubscribed e =>
      simp only [hphase] at hs
      cases hs
  | tick =>
    cases hphase : s.phase with
    | talking =>
      simp only [hphase] at hs
      split at hs
      · rename_i hquiet
        cases hs
        refine .answer hphase ?_ (.inl hquiet.2)
        intro hnone
        exact hquiet.1 (List.isEmpty_iff.mpr hnone)
      · cases hs
        exact .stay
    | flushing result d | finished result | unsubscribed e =>
      simp only [hphase] at hs
      cases hs
  | deadline =>
    cases hphase : s.phase with
    | talking =>
      simp only [hphase] at hs
      split at hs
      · rename_i hlate
        cases hs
        by_cases hnone : s.segments = []
        · rw [if_pos (List.isEmpty_iff.mpr hnone)]
          exact .timeout hphase hnone hlate
        · rw [if_neg (fun hempty => hnone (List.isEmpty_iff.mp hempty))]
          exact .answer hphase hnone (.inr hlate)
      · cases hs
    | flushing result d =>
      simp only [hphase] at hs
      split at hs
      · cases hs
        exact .leave hphase
      · cases hs
    | finished result | unsubscribed e =>
      simp only [hphase] at hs
      cases hs

end Console

/-! ## What a run has asked for -/

/-- The requests of a run, in order. -/
def askedOf (h : List ConsoleObs) : List ClientRequest :=
  h.filterMap fun
    | .asked r => some r
    | _ => none

def ConsoleObs.segment (cmd : Command) : ConsoleObs → Option Text
  | .got (.publish topic payload) => if topic = cmd.ttsTextTopic then some (fromUtf8Lossy payload) else none
  | _ => none

/-- The segments a run has polled. -/
def heardOf (cmd : Command) (h : List ConsoleObs) : List Text := h.filterMap (ConsoleObs.segment cmd)

/-- The segment an action brings. -/
def ConsoleAction.segment (cmd : Command) : ConsoleAction → Option Text
  | .polled x => ConsoleObs.segment cmd (.got x)
  | _ => none

def answersOf (h : List ConsoleObs) : List (Except TestCommandError Text) :=
  h.filterMap fun
    | .answered result => some result
    | _ => none

theorem askedOf_append (h o : List ConsoleObs) : askedOf (h ++ o) = askedOf h ++ askedOf o := List.filterMap_append

theorem heardOf_append (cmd : Command) (h o : List ConsoleObs) :
    heardOf cmd (h ++ o) = heardOf cmd h ++ heardOf cmd o :=
  List.filterMap_append

theorem answersOf_append (h o : List ConsoleObs) : answersOf (h ++ o) = answersOf h ++ answersOf o :=
  List.filterMap_append

theorem heardOf_talk (cmd : Command) (s : Console) (x : Polled) : heardOf cmd (s.talk cmd x).2 = [] := by
  cases x with
  | subAck =>
    show heardOf cmd (if s.started then (s, []) else s.subscribed cmd).2 = []
    by_cases hstarted : s.started = true
    · rw [if_pos hstarted]
      rfl
    · rw [if_neg hstarted, Console.subscribed]
      cases (cmd.refuses cmd.startRequest).or (cmd.refuses cmd.textRequest) <;> rfl
  | publish topic payload =>
    rw [Console.talk]
    by_cases htopic : topic = cmd.ttsTextTopic
    · rw [if_pos htopic]
      rfl
    · rw [if_neg htopic]
      by_cases hdone : topic = cmd.doneTopic
      · rw [if_pos hdone]
        rfl
      · rw [if_neg hdone]
        rfl
  | pubAck => rfl
  | other => rfl
  | failed e => rfl

theorem heardOf_step {cmd : Command} {s s' : Console} {a : ConsoleAction} {o : List ConsoleObs}
    (hs : (Console.machine cmd).step s a = some (s', o)) : (heardOf cmd o).Sublist (a.segment cmd).toList := by
  cases Console.turn_of_step hs with
  | talk x hphase =>
    have hone : heardOf cmd (.got x :: (s.talk cmd x).2) = (ConsoleObs.segment cmd (.got x)).toList := by
      rw [← List.singleton_append, heardOf_append, heardOf_talk, List.append_nil]
      cases hsegment : ConsoleObs.segment cmd (.got x) with
      | none => exact List.filterMap_cons_none hsegment
      | some segment => exact List.filterMap_cons_some hsegment
    rw [hone]
    exact List.Sublist.refl _
  | stay => exact List.nil_sublist _
  | elapse ms => exact List.nil_sublist _
  | answer hphase hsome hwhen => exact List.nil_sublist _
  | timeout hphase hnone hlate => exact List.nil_sublist _
  | leave hphase => exact List.nil_sublist _

/-- What a session that is going to answer so has seen. -/
def Verdict (cmd : Command) (h : List ConsoleObs) (s : Console) : Except TestCommandError Text → Prop
  | .ok a => a = s.answer ∧ ((∃ payload, .got (.publish cmd.doneTopic payload) ∈ h) ∨
      (s.segments ≠ [] ∧ (s.lastSegmentAt + answerQuiet < s.now ∨ s.deadline ≤ s.now)))
  | .error .timeout => s.segments = [] ∧ s.deadline ≤ s.now
  | .error (.connect e) => .got (.failed e) ∈ h ∨ .refused e ∈ h ∨ cmd.refuses cmd.subscribeRequest = some e

theorem Verdict.mono {cmd : Command} {h h' : List ConsoleObs} {s s' : Console} {result : Except TestCommandError Text}
    (hv : Verdict cmd h s result) (hsub : h ⊆ h') (hsegments : s'.segments = s.segments)
    (hlast : s'.lastSegmentAt = s.lastSegmentAt) (hdeadline : s'.deadline = s.deadline) (hnow : s.now ≤ s'.now) :
    Verdict cmd h' s' result := by
  cases result with
  | ok a =>
    obtain ⟨ha, hwhen⟩ := hv
    refine ⟨by rw [ha, Console.answer, Console.answer, hsegments], ?_⟩
    rw [hsegments, hlast, hdeadline]
    rcases hwhen with ⟨payload, hdone⟩ | ⟨hne, hquiet | hlate⟩
    · exact .inl ⟨payload, hsub hdone⟩
    · exact .inr ⟨hne, .inl (Nat.lt_of_lt_of_le hquiet hnow)⟩
    · exact .inr ⟨hne, .inr (Nat.le_trans hlate hnow)⟩
  | error e =>
    cases e with
    | timeout =>
      obtain ⟨hnone, hlate⟩ := hv
      refine ⟨by rw [hsegments, hnone], ?_⟩
      rw [hdeadline]
      exact Nat.le_trans hlate hnow
    | connect e =>
      rcases hv with hfailed | hrefused | hsubscribe
      · exact .inl (hsub hfailed)
      · exact .inr (.inl (hsub hrefused))
      · exact .inr (.inr hsubscribe)

/-- The session after a run: the subscription first, the start and the text once
it is acknowledged, the end and the farewell last, each once; every segment is
kept, and the answer given once. -/
structure Conversation (cmd : Command) (clock : Nat) (h : List ConsoleObs) (s : Console) : Prop where
  asked : askedOf h = [cmd.subscribeRequest] ++ (if s.started then [cmd.startRequest, cmd.textRequest] else []) ++
    s.phase.closing cmd
  acknowledged : s.started = true → .got .subAck ∈ h
  heard : s.segments = heardOf cmd h
  answered : answersOf h = s.phase.answer
  deadline : s.deadline = clock + sessionTimeout
  verdict : ∀ result, s.phase.result = some result → Verdict cmd h s result

namespace Conversation

variable {cmd : Command} {clock : Nat} {h o : List ConsoleObs} {s : Console}

theorem start (cmd : Command) (clock : Nat) :
    Conversation cmd clock (Console.start cmd clock).2 (Console.start cmd clock).1 := by
  unfold Console.start
  cases hrefused : cmd.refuses cmd.subscribeRequest with
  | none =>
    refine ⟨rfl, Bool.noConfusion, rfl, rfl, rfl, ?_⟩
    intro result hresult
    cases hresult
  | some e =>
    refine ⟨rfl, Bool.noConfusion, rfl, rfl, rfl, ?_⟩
    intro result hresult
    cases hresult
    exact .inr (.inr hrefused)

theorem quiet (C : Conversation cmd clock h s) (hphase : s.phase = .talking) (hasked : askedOf o = [])
    (hheard : heardOf cmd o = []) (hanswers : answersOf o = []) : Conversation cmd clock (h ++ o) s where
  asked := by rw [askedOf_append, hasked, List.append_nil, C.asked]
  acknowledged := fun hstarted => List.mem_append_left _ (C.acknowledged hstarted)
  heard := by rw [heardOf_append, hheard, List.append_nil, C.heard]
  answered := by rw [answersOf_append, hanswers, List.append_nil, C.answered]
  deadline := C.deadline
  verdict := by
    intro result hresult
    rw [hphase] at hresult
    cases hresult

theorem segment (C : Conversation cmd clock h s) (hphase : s.phase = .talking) (payload : List UInt8) :
    Conversation cmd clock (h ++ [.got (.publish cmd.ttsTextTopic payload)])
      { s with segments := s.segments ++ [fromUtf8Lossy payload], lastSegmentAt := s.now } where
  asked := by
    rw [askedOf_append, C.asked]
    exact List.append_nil _
  acknowledged := fun hstarted => List.mem_append_left _ (C.acknowledged hstarted)
  heard := by
    have hone : ConsoleObs.segment cmd (.got (.publish cmd.ttsTextTopic payload)) = some (fromUtf8Lossy payload) :=
      if_pos rfl
    rw [heardOf_append, ← C.heard, heardOf, List.filterMap_cons_some hone]
    rfl
  answered := by
    rw [answersOf_append, C.answered]
    exact List.append_nil _
  deadline := C.deadline
  verdict := by
    intro result hresult
    rw [hphase] at hresult
    cases hresult

theorem acknowledge (C : Conversation cmd clock h s) (hphase : s.phase = .talking) (hstarted : ¬ s.started = true) :
    Conversation cmd clock (h ++ [.got .subAck, .asked cmd.startRequest, .asked cmd.textRequest])
      { s with started := true } where
  asked := by
    rw [askedOf_append, C.asked, if_neg hstarted, hphase]
    rfl
  acknowledged := fun _ => List.mem_append_right _ List.mem_cons_self
  heard := by
    rw [heardOf_append, ← C.heard]
    exact (List.append_nil _).symm
  answered := by
    rw [answersOf_append, C.answered]
    exact List.append_nil _
  deadline := C.deadline
  verdict := by
    intro result hresult
    rw [hphase] at hresult
    cases hresult

theorem finish (C : Conversation cmd clock h s) (hphase : s.phase = .talking) {result : Except TestCommandError Text}
    (hverdict : Verdict cmd (h ++ [.asked cmd.endRequest]) s result) :
    Conversation cmd clock (h ++ (s.finish cmd result).2) (s.finish cmd result).1 where
  asked := by
    rw [askedOf_append, C.asked, hphase]
    exact congrArg (· ++ [cmd.endRequest]) (List.append_nil _)
  acknowledged := fun hstarted => List.mem_append_left _ (C.acknowledged hstarted)
  heard := by
    rw [heardOf_append, ← C.heard]
    exact (List.append_nil _).symm
  answered := by
    rw [answersOf_append, C.answered, hphase]
    rfl
  deadline := C.deadline
  verdict := by
    intro result' hresult
    cases hresult
    cases result with
    | ok a => exact hverdict
    | error e => cases e <;> exact hverdict

theorem leave (C : Conversation cmd clock h s) {result : Except TestCommandError Text} {d : Nat}
    (hphase : s.phase = .flushing result d) : Conversation cmd clock (h ++ (s.leave result).2) (s.leave result).1 where
  asked := by
    rw [askedOf_append, C.asked, hphase, List.append_assoc]
    rfl
  acknowledged := fun hstarted => List.mem_append_left _ (C.acknowledged hstarted)
  heard := by
    rw [heardOf_append, ← C.heard]
    exact (List.append_nil _).symm
  answered := by
    rw [answersOf_append, C.answered, hphase]
    rfl
  deadline := C.deadline
  verdict := by
    intro result' hresult
    have hverdict := C.verdict result (by rw [hphase]; rfl)
    cases hresult
    exact hverdict.mono (List.subset_append_left _ _) rfl rfl rfl (Nat.le_refl _)

theorem polled (C : Conversation cmd clock h s) (hphase : s.phase = .talking) (x : Polled) :
    Conversation cmd clock (h ++ .got x :: (s.talk cmd x).2) (s.talk cmd x).1 := by
  have happend : ∀ o : List ConsoleObs, h ++ .got x :: o = h ++ [.got x] ++ o := fun o => List.append_cons h _ o
  have hlast : ∀ o : List ConsoleObs, .got x ∈ h ++ [.got x] ++ o := fun o =>
    List.mem_append_left _ (List.mem_append_right _ List.mem_cons_self)
  rw [happend]
  cases x with
  | subAck =>
    have Q := C.quiet (o := [.got .subAck]) hphase rfl rfl rfl
    show Conversation cmd clock (_ ++ (if s.started then (s, []) else s.subscribed cmd).2)
      (if s.started then (s, []) else s.subscribed cmd).1
    by_cases hstarted : s.started = true
    · rw [if_pos hstarted, List.append_nil]
      exact Q
    · rw [if_neg hstarted]
      have S := C.acknowledge hphase hstarted
      unfold Console.subscribed
      cases hrefused : (cmd.refuses cmd.startRequest).or (cmd.refuses cmd.textRequest) with
      | none =>
        rw [← happend]
        exact S
      | some e =>
        have R := S.quiet (o := [.refused e]) hphase rfl rfl rfl
        have hverdict : Verdict cmd
          (h ++ [.got .subAck, .asked cmd.startRequest, .asked cmd.textRequest] ++ [.refused e] ++
            [.asked cmd.endRequest]) { s with started := true } (.error (.connect e)) :=
          .inr (.inl (List.mem_append_left _ (List.mem_append_right _ List.mem_cons_self)))
        have F := R.finish hphase hverdict
        simpa only [List.append_assoc, List.cons_append, List.nil_append] using F
  | publish topic payload =>
    rw [Console.talk]
    by_cases htopic : topic = cmd.ttsTextTopic
    · subst htopic
      rw [if_pos rfl, List.append_nil]
      exact C.segment hphase payload
    · have hnone : ConsoleObs.segment cmd (.got (.publish topic payload)) = none := if_neg htopic
      have Q : Conversation cmd clock (h ++ [.got (.publish topic payload)]) s :=
        C.quiet hphase rfl (List.filterMap_cons_none hnone) rfl
      rw [if_neg htopic]
      by_cases hdone : topic = cmd.doneTopic
      · subst hdone
        rw [if_pos rfl]
        exact Q.finish hphase ⟨rfl, .inl ⟨payload, hlast _⟩⟩
      · rw [if_neg hdone, List.append_nil]
        exact Q
  | failed e =>
    have Q := C.quiet (o := [.got (.failed e)]) hphase rfl rfl rfl
    exact Q.finish hphase (.inl (hlast _))
  | pubAck =>
    rw [show (s.talk cmd .pubAck).2 = [] from rfl, List.append_nil]
    exact C.quiet hphase rfl rfl rfl
  | other =>
    rw [show (s.talk cmd .other).2 = [] from rfl, List.append_nil]
    exact C.quiet hphase rfl rfl rfl

end Conversation

/-- **One event.** -/
theorem conversation_step {cmd : Command} {clock : Nat} {h o : List ConsoleObs} {s s' : Console} {a : ConsoleAction}
    (C : Conversation cmd clock h s) (hs : (Console.machine cmd).step s a = some (s', o)) :
    Conversation cmd clock (h ++ o) s' := by
  have hstay : Conversation cmd clock (h ++ []) s := by
    rw [List.append_nil]
    exact C
  cases Console.turn_of_step hs with
  | stay => exact hstay
  | elapse ms =>
    refine ⟨hstay.asked, hstay.acknowledged, hstay.heard, hstay.answered, hstay.deadline, ?_⟩
    intro result hresult
    exact (hstay.verdict result hresult).mono (List.Subset.refl _) rfl rfl rfl (Nat.le_add_right _ _)
  | talk x hphase => exact C.polled hphase x
  | answer hphase hsome hwhen => exact C.finish hphase ⟨rfl, .inr ⟨hsome, hwhen⟩⟩
  | timeout hphase hnone hlate => exact C.finish hphase ⟨hnone, hlate⟩
  | leave hphase => exact C.leave hphase

/-- **The console's conversation.** In every run, whatever is polled and
whenever: the console asks for the subscription, then for the start and the text
once the subscription is acknowledged, and last for the end and for nothing more
than the farewell, each once and in this order, on every way out; it keeps each
segment it is sent before the end, in order; it answers once, with these
segments after `done`, a quiet moment or the deadline, with a timeout only if
there is none at the deadline, and with an error only of the client's. -/
theorem console_conversation (cmd : Command) (clock : Nat) {as : List ConsoleAction} {s' : Console}
    {o : List ConsoleObs}
    (hr : (Console.machine cmd).run (Console.start cmd clock).1 as = some (s', o)) :
    Conversation cmd clock ((Console.start cmd clock).2 ++ o) s' :=
  (Console.machine cmd).run_invariant (fun _ _ _ _ _ C hs => conversation_step C hs) (.start cmd clock) hr

end AthenaVoice.Admin
