import AthenaVoice.Core.Event
import AthenaVoice.Intent.Engine
import AthenaVoice.Lib.Machine

/-
  The router — `pipeline/router.rs`

  One task per session. On each final transcript it asks the matcher, and hands
  the utterance to a skill or to the LLM; on each outcome of a spawned skill
  dispatch it forwards the answer, unless a newer final transcript has moved the
  epoch on.

  The two branches of the `select!` are pure functions, `onFinal` and
  `handleOutcome`. `RouterSys` adds what runs beside the loop: the spawned
  dispatches and the channel their outcomes come back on. A dispatch reports
  either the skill's result or, once its token is cancelled, the stub error;
  when both are ready either may be reported.

  Utterances are numbered by the final transcripts in order. The number serves
  as the identity of the dispatch's cancellation token and is otherwise not
  read by the router; observations carry it.

  Correspondence (Rust ↔ Lean):
    `RouterDeps`               `RouterDeps`
    `DispatchOutcome`          `DispatchOutcome`
    `PendingDispatch`          `PendingDispatch`
    loop locals                `RouterState`
    `Some(t) if t.is_final`    `onFinal`
    `handle_outcome`           `handleOutcome`
    `ensure_sentence_boundary` `ensureSentenceBoundary`
    the `select!` loop         `RouterSys.step`
-/

namespace AthenaVoice.Pipeline

open Lib CoreTypes Intent
open Sdk (SkillResponse SkillResult SkillError)

/-- `TtsMsg`: what the router and the LLM stage feed the TTS stage. -/
inductive TtsMsg where
  | token (text : Text)
  | answerEnd
  deriving DecidableEq, Repr

/-- `RouterDeps`: the data the router reads. -/
structure RouterDeps where
  session : SessionId
  locale : Text
  /-- `find_match`, of text, locale and the rules loaded at that moment. -/
  matcher : Text → Text → RuleIndex → Option IntentMatch
  /-- Whether a skill dispatcher is wired. -/
  dispatcher : Bool

/-- What a spawned dispatch is given; `token` is its cancellation token. -/
structure Dispatch where
  token : Nat
  epoch : Nat
  skill : Text
  intent : Sdk.Intent
  deriving DecidableEq, Repr

structure DispatchOutcome where
  token : Nat
  epoch : Nat
  skill : Text
  result : SkillResult
  deriving DecidableEq, Repr

structure PendingDispatch where
  epoch : Nat
  skill : Text
  cancel : Nat
  deriving DecidableEq, Repr

/-- The locals of the router loop. -/
structure RouterState where
  epoch : Nat
  pendingDispatch : Option PendingDispatch
  priorWorkInFlight : Bool
  rxClosed : Bool
  deriving DecidableEq, Repr

/-- A message of the router to a downstream channel. -/
inductive Send where
  | llm (prompt : Text)
  | tts (msg : TtsMsg)
  deriving DecidableEq, Repr

/-! ## A final transcript -/

/-- How the handling of a final transcript ends. -/
inductive Next where
  | dispatch (d : Dispatch)
  | prompt (text : Text)
  /-- The LLM stage is gone: the loop breaks. -/
  | llmGone
  deriving DecidableEq

/-- The effects of a final transcript, in order: events, the token cancelled,
and the hand-off. -/
structure Turn where
  state : RouterState
  events : List Event
  cancelled : Option Nat
  next : Next

/-- `u64::saturating_add(1)`. -/
def epochSucc (epoch : Nat) : Nat := min (epoch + 1) (2 ^ 64 - 1)

/-- `llm_tx.send(prompt)`, and the flag set when it succeeds. -/
def sendPrompt (llmOpen : Bool) (turn : RouterState) (events : List Event) (cancelled : Option Nat)
    (prompt : Text) : Turn :=
  if llmOpen then
    { state := { turn with priorWorkInFlight := true }, events := events, cancelled := cancelled,
      next := .prompt prompt }
  else { state := turn, events := events, cancelled := cancelled, next := .llmGone }

/-- The prompt that elicits the missing slots. -/
def elicitPrompt (text intent : Text) (missingSlots : List Text) : Text :=
  "The user said \"".toList ++ text ++ "\". The matched intent ".toList ++ intent ++
    " needs the value for slots ".toList ++ Str.join ", ".toList missingSlots ++
    ". Ask a short follow-up question to obtain it.".toList

/-- Anything from the previous utterance still outstanding, as far as the
router knows. -/
def RouterState.hasPriorWork (st : RouterState) : Bool :=
  st.pendingDispatch.isSome || st.priorWorkInFlight

/-- The barge-in: the event, and the pending dispatch's token. -/
def bargeIn (deps : RouterDeps) (st : RouterState) : List Event :=
  if st.hasPriorWork then [.bargeIn deps.session .newFinalTranscript] else []

/-- The state once the barge-in is done: the epoch moved on, nothing pending. -/
def RouterState.supersede (st : RouterState) : RouterState :=
  if st.hasPriorWork then
    { st with epoch := epochSucc st.epoch, pendingDispatch := none, priorWorkInFlight := false }
  else { st with epoch := epochSucc st.epoch }

/-- The branch `Some(t) if t.is_final`. `rules` is what `load_full` returns at
that moment, `token` the new dispatch's cancellation token, `llmOpen` whether
the LLM stage still holds its receiver. -/
def onFinal (deps : RouterDeps) (st : RouterState) (t : Transcript) (rules : RuleIndex) (token : Nat)
    (llmOpen : Bool) : Turn :=
  let barge := bargeIn deps st
  let cancelled := st.pendingDispatch.map PendingDispatch.cancel
  let st' := st.supersede
  match deps.matcher t.text deps.locale rules with
  | none =>
    sendPrompt llmOpen st' (barge ++ [.llmFallback deps.session .noMatch []]) cancelled t.text
  | some m =>
    let matched := Event.intentMatched deps.session
      { name := m.intent.name, slots := m.intent.slots, confidence := m.confidence }
    let missingSlots := m.intent.slots.missing
    let elicit := if missingSlots.isEmpty then [] else
      [Event.llmFallback deps.session .missingSlots missingSlots]
    -- with a dispatcher the skill is called even if slots are missing
    if deps.dispatcher then
      { state := { st' with pendingDispatch := some { epoch := st'.epoch, skill := m.skill, cancel := token } }
        events := barge ++ matched :: elicit
        cancelled := cancelled
        next := .dispatch { token := token, epoch := st'.epoch, skill := m.skill,
                            intent := { m.intent with locale := deps.locale } } }
    else if missingSlots.isEmpty then
      sendPrompt llmOpen st'
        (barge ++ [matched, .skillInvoked deps.session m.skill, .llmFallback deps.session .noMatch []])
        cancelled t.text
    else
      sendPrompt llmOpen st' (barge ++ matched :: .skillInvoked deps.session m.skill :: elicit) cancelled
        (elicitPrompt t.text m.intent.name missingSlots)

/-! ### What a final transcript leaves -/

/-- Superseding always ends with nothing pending and nothing noted: where there
is no prior work both are empty already. -/
theorem supersede_eq (st : RouterState) : st.supersede =
    { epoch := epochSucc st.epoch, pendingDispatch := none, priorWorkInFlight := false,
      rxClosed := st.rxClosed } := by
  unfold RouterState.supersede
  split
  · rfl
  · rename_i h
    obtain ⟨epoch, pending, prior, closed⟩ := st
    simp [RouterState.hasPriorWork] at h
    simp [h.1, h.2]

/-- The outcome of `onFinal`: which hand-off, and what the router remembers of it. -/
inductive FinalTurn (deps : RouterDeps) (st : RouterState) (token : Nat) (llmOpen : Bool) : Turn → Prop where
  | dispatched {turn : Turn} (skill : Text) (intent : Sdk.Intent)
      (next : turn.next = .dispatch { token := token, epoch := epochSucc st.epoch, skill := skill,
                                      intent := intent })
      (state : turn.state = { epoch := epochSucc st.epoch,
                              pendingDispatch := some { epoch := epochSucc st.epoch, skill := skill,
                                                        cancel := token }
                              priorWorkInFlight := false, rxClosed := st.rxClosed }) :
      FinalTurn deps st token llmOpen turn
  | prompted {turn : Turn} (text : Text) (up : llmOpen = true) (next : turn.next = .prompt text)
      (state : turn.state = { epoch := epochSucc st.epoch, pendingDispatch := none,
                              priorWorkInFlight := true, rxClosed := st.rxClosed }) :
      FinalTurn deps st token llmOpen turn
  | llmGone {turn : Turn} (down : llmOpen = false) (next : turn.next = .llmGone)
      (state : turn.state = { epoch := epochSucc st.epoch, pendingDispatch := none,
                              priorWorkInFlight := false, rxClosed := st.rxClosed }) :
      FinalTurn deps st token llmOpen turn

theorem sendPrompt_turn {deps : RouterDeps} {st : RouterState} {token : Nat} {llmOpen : Bool}
    (events : List Event) (cancelled : Option Nat) (prompt : Text) :
    FinalTurn deps st token llmOpen (sendPrompt llmOpen st.supersede events cancelled prompt) := by
  cases llmOpen with
  | true => exact .prompted prompt rfl rfl (by simp [sendPrompt, supersede_eq])
  | false => exact .llmGone rfl rfl (by simp [sendPrompt, supersede_eq])

theorem onFinal_turn (deps : RouterDeps) (st : RouterState) (t : Transcript) (rules : RuleIndex)
    (token : Nat) (llmOpen : Bool) :
    FinalTurn deps st token llmOpen (onFinal deps st t rules token llmOpen) := by
  unfold onFinal
  cases deps.matcher t.text deps.locale rules with
  | none => exact sendPrompt_turn _ _ _
  | some m =>
    simp only
    split
    · exact .dispatched m.skill { m.intent with locale := deps.locale } (by simp [supersede_eq])
        (by simp [supersede_eq])
    · split
      · exact sendPrompt_turn _ _ _
      · exact sendPrompt_turn _ _ _

theorem sendPrompt_events (llmOpen : Bool) (st : RouterState) (events : List Event)
    (cancelled : Option Nat) (prompt : Text) :
    (sendPrompt llmOpen st events cancelled prompt).events = events := by
  cases llmOpen <;> rfl

theorem onFinal_events (deps : RouterDeps) (st : RouterState) (t : Transcript) (rules : RuleIndex)
    (token : Nat) (llmOpen : Bool) :
    ∃ rest, (onFinal deps st t rules token llmOpen).events = bargeIn deps st ++ rest ∧
      ∀ e ∈ rest, e.isBargeIn = false ∧ e.isSkillCancelled = false ∧ e.isAudioChunk = false := by
  unfold onFinal
  cases deps.matcher t.text deps.locale rules with
  | none =>
    rw [sendPrompt_events]
    exact ⟨_, rfl, by simp [Event.isBargeIn, Event.isSkillCancelled, Event.isAudioChunk]⟩
  | some m =>
    simp only
    split
    · refine ⟨_, rfl, ?_⟩
      intro e he
      simp only [List.mem_cons] at he
      rcases he with rfl | he
      · exact ⟨rfl, rfl, rfl⟩
      · split at he
        · cases he
        · rw [List.mem_singleton.mp he]
          exact ⟨rfl, rfl, rfl⟩
    · split
      · rw [sendPrompt_events]
        exact ⟨_, rfl, by simp [Event.isBargeIn, Event.isSkillCancelled, Event.isAudioChunk]⟩
      · rw [sendPrompt_events]
        exact ⟨_, rfl, by simp [Event.isBargeIn, Event.isSkillCancelled, Event.isAudioChunk]⟩

theorem onFinal_bargeIn (deps : RouterDeps) (st : RouterState) (t : Transcript) (rules : RuleIndex)
    (token : Nat) (llmOpen : Bool) :
    (onFinal deps st t rules token llmOpen).events.any Event.isBargeIn = st.hasPriorWork := by
  obtain ⟨rest, hev, hrest⟩ := onFinal_events deps st t rules token llmOpen
  have hno : rest.any Event.isBargeIn = false := by
    rw [List.any_eq_false]
    intro e he
    rw [(hrest e he).1]
    simp
  rw [hev, List.any_append, hno, Bool.or_false]
  unfold bargeIn
  cases st.hasPriorWork <;> rfl

theorem mem_onFinal_events {deps : RouterDeps} {st : RouterState} {t : Transcript} {rules : RuleIndex}
    {token : Nat} {llmOpen : Bool} {e : Event}
    (h : e ∈ (onFinal deps st t rules token llmOpen).events) :
    (e = .bargeIn deps.session .newFinalTranscript ∧ st.hasPriorWork = true) ∨
      (e.isBargeIn = false ∧ e.isSkillCancelled = false ∧ e.isAudioChunk = false) := by
  obtain ⟨rest, hev, hrest⟩ := onFinal_events deps st t rules token llmOpen
  rw [hev] at h
  rcases List.mem_append.mp h with h | h
  · unfold bargeIn at h
    split at h
    · rename_i hp
      exact Or.inl ⟨List.mem_singleton.mp h, hp⟩
    · cases h
  · exact Or.inr (hrest e h)

/-! ## An outcome -/

def ensureSentenceBoundary (text : Text) : Text :=
  match text.getLast? with
  | some '.' => text
  | some '!' => text
  | some '?' => text
  | _ => text ++ ['.']

/-- `f32::to_le_bytes`, on the bits. -/
def toLeBytes (bits : UInt32) : List UInt8 :=
  [bits.toUInt8, (bits >>> 8).toUInt8, (bits >>> 16).toUInt8, (bits >>> 24).toUInt8]

/-- Which downstream stages still hold their receivers. -/
structure Links where
  llm : Bool
  tts : Bool
  deriving DecidableEq, Repr

def Links.up : Links := ⟨true, true⟩

/-- The effects of an outcome: all events precede the sends. -/
structure Handled where
  state : RouterState
  events : List Event
  sends : List Send

/-- `tts_tok_tx.send(TtsMsg::AnswerEnd)`, its failure ignored. -/
def answerEnd (links : Links) : List Send := if links.tts then [.tts .answerEnd] else []

/-- The first lines of `handle_outcome`: the pending slot is cleared if it is
this outcome's. -/
def RouterState.clearPending (st : RouterState) (o : DispatchOutcome) : RouterState :=
  if st.pendingDispatch.any (fun p => p.epoch == o.epoch && p.skill == o.skill) then
    { st with pendingDispatch := none }
  else st

/-- The current outcome's answer. -/
def answer (deps : RouterDeps) (links : Links) (st : RouterState) : SkillResult → Handled
  | .ok (.speak text) =>
    if links.tts then
      { state := { st with priorWorkInFlight := true }, events := [],
        sends := .tts (.token (ensureSentenceBoundary text)) :: answerEnd links }
    else { state := st, events := [], sends := [] }
  | .ok (.askLlm prompt) =>
    let fallback := Event.llmFallback deps.session .noMatch []
    if links.llm then
      { state := { st with priorWorkInFlight := true }, events := [fallback], sends := [.llm prompt] }
    else { state := st, events := [fallback], sends := [] }
  -- these end the turn here
  | .ok .empty => { state := st, events := [], sends := answerEnd links }
  | .ok (.sampledPcm sampleRate samples) =>
    { state := st, events := [.audioChunk deps.session .f32le sampleRate (samples.flatMap toLeBytes)],
      sends := answerEnd links }
  | .ok (.sampledOpus opusFrames) =>
    { state := st, events := [.audioChunk deps.session .opus 48000 opusFrames], sends := answerEnd links }
  | .ok (.volume level) =>
    { state := st, events := [.volumeChanged deps.session level], sends := answerEnd links }
  | .err _ => { state := st, events := [], sends := answerEnd links }

def handleOutcome (deps : RouterDeps) (links : Links) (st : RouterState) (o : DispatchOutcome) : Handled :=
  let st' := st.clearPending o
  if o.epoch ≠ st'.epoch then
    { state := st', events := [.skillCancelled deps.session o.skill], sends := [] }
  else answer deps links st' o.result

@[simp] theorem clearPending_epoch (st : RouterState) (o : DispatchOutcome) :
    (st.clearPending o).epoch = st.epoch := by
  unfold RouterState.clearPending
  split <;> rfl

@[simp] theorem clearPending_rxClosed (st : RouterState) (o : DispatchOutcome) :
    (st.clearPending o).rxClosed = st.rxClosed := by
  unfold RouterState.clearPending
  split <;> rfl

theorem answer_state (deps : RouterDeps) (links : Links) (st : RouterState) (r : SkillResult) :
    (answer deps links st r).state = st ∨
      (answer deps links st r).state = { st with priorWorkInFlight := true } := by
  unfold answer
  split
  · split
    · exact Or.inr rfl
    · exact Or.inl rfl
  · simp only
    split
    · exact Or.inr rfl
    · exact Or.inl rfl
  all_goals exact Or.inl rfl

/-- An outcome leaves the epoch and the transcript channel alone, and only ever
clears the pending slot. -/
theorem handleOutcome_state (deps : RouterDeps) (links : Links) (st : RouterState) (o : DispatchOutcome) :
    (handleOutcome deps links st o).state.epoch = st.epoch ∧
      (handleOutcome deps links st o).state.rxClosed = st.rxClosed ∧
      (handleOutcome deps links st o).state.pendingDispatch = (st.clearPending o).pendingDispatch := by
  unfold handleOutcome
  simp only
  split
  · simp
  · rcases answer_state deps links (st.clearPending o) o.result with h | h
    · simp [h]
    · simp [h]

/-! ## The router and its spawned dispatches -/

/-- A spawned dispatch that has not reported yet. -/
structure Task where
  dispatch : Dispatch
  cancelled : Bool
  deriving DecidableEq, Repr

/-- The stub a cancelled dispatch reports. -/
def cancelledResult : SkillResult := .err (.custom "dispatch cancelled by barge-in".toList)

def Task.outcome (t : Task) (result : SkillResult) : DispatchOutcome :=
  { token := t.dispatch.token, epoch := t.dispatch.epoch, skill := t.dispatch.skill, result := result }

/-- The router, its spawned dispatches, and the outcome channel. `finals`
counts the final transcripts taken. -/
structure RouterSys where
  router : RouterState
  tasks : List Task
  outcomes : List DispatchOutcome
  finals : Nat
  exited : Bool

def RouterSys.init : RouterSys :=
  { router := { epoch := 0, pendingDispatch := none, priorWorkInFlight := false, rxClosed := false }
    tasks := [], outcomes := [], finals := 0, exited := false }

/-- What the environment and the scheduler may do next. -/
inductive RouterAction where
  /-- The router takes a transcript; `rules` is the index then published. -/
  | transcript (t : Transcript) (rules : RuleIndex) (llmOpen : Bool)
  /-- The router finds the transcript channel closed. -/
  | closed
  /-- The skill of the `i`-th spawned dispatch answers, and the task reports. -/
  | finish (i : Nat) (result : SkillResult)
  /-- The `i`-th spawned dispatch reports its cancellation. -/
  | abandon (i : Nat)
  /-- The router takes an outcome. -/
  | outcome (links : Links)
  /-- The session is cancelled. -/
  | cancel

/-- What is observed of the router; the number is the utterance served. -/
inductive RouterObs where
  | final (n : Nat)
  | event (n : Nat) (e : Event)
  | send (n : Nat) (m : Send)
  | dispatched (n : Nat)
  /-- An outcome is handled when `latest` final transcripts have been taken. -/
  | handled (n latest : Nat) (result : SkillResult)
  deriving DecidableEq

/-- `CancellationToken::cancel`. -/
def cancelTask (token : Option Nat) (tasks : List Task) : List Task :=
  tasks.map (fun t => if token = some t.dispatch.token then { t with cancelled := true } else t)

/-- The exit test at the head of the loop. -/
def drained (st : RouterState) : Bool := st.rxClosed && st.pendingDispatch.isNone

namespace RouterSys

/-- A turn's effects on the tasks, and the test at the head of the loop. -/
def applyTurn (s : RouterSys) (turn : Turn) : RouterSys :=
  let tasks := cancelTask turn.cancelled s.tasks
  match turn.next with
  | .dispatch d =>
    { s with router := turn.state, tasks := tasks ++ [{ dispatch := d, cancelled := false }],
             finals := s.finals + 1, exited := drained turn.state }
  | .prompt _ =>
    { s with router := turn.state, tasks := tasks, finals := s.finals + 1, exited := drained turn.state }
  | .llmGone => { s with router := turn.state, tasks := tasks, finals := s.finals + 1, exited := true }

def turnObs (n : Nat) (turn : Turn) : List RouterObs :=
  .final n :: (turn.events.map (.event n) ++
    match turn.next with
    | .dispatch _ => [.dispatched n]
    | .prompt p => [.send n (.llm p)]
    | .llmGone => [])

/-- The outcome channel's capacity. -/
def OUTCOME_CAPACITY : Nat := 16

/-- A task sends its outcome, when there is room. -/
def report (s : RouterSys) (i : Nat) (t : Task) (result : SkillResult) : Option (RouterSys × List RouterObs) :=
  if s.outcomes.length < OUTCOME_CAPACITY then
    some ({ s with tasks := s.tasks.eraseIdx i, outcomes := s.outcomes ++ [t.outcome result] }, [])
  else none

/-- One step of the router, or of a spawned dispatch. -/
def step (deps : RouterDeps) (s : RouterSys) (a : RouterAction) : Option (RouterSys × List RouterObs) :=
  if s.exited then none else
    match a with
    | .transcript t rules llmOpen =>
      if s.router.rxClosed then none
      else if t.isFinal then
        let turn := onFinal deps s.router t rules (s.finals + 1) llmOpen
        some (s.applyTurn turn, turnObs (s.finals + 1) turn)
      else some (s, [])
    | .closed =>
      if s.router.rxClosed then none
      else
        let router := { s.router with rxClosed := true }
        some ({ s with router := router, exited := drained router }, [])
    | .finish i result => s.tasks[i]?.bind (fun t => s.report i t result)
    | .abandon i => s.tasks[i]?.bind (fun t => if t.cancelled then s.report i t cancelledResult else none)
    | .outcome links =>
      match s.outcomes with
      | [] => none
      | o :: rest =>
        let h := handleOutcome deps links s.router o
        some ({ s with router := h.state, outcomes := rest, exited := drained h.state },
          .handled o.token s.finals o.result ::
            (h.events.map (.event o.token) ++ h.sends.map (.send o.token)))
    | .cancel => some ({ s with exited := true }, [])

inductive Step (deps : RouterDeps) (s : RouterSys) : RouterAction → RouterSys → List RouterObs → Prop where
  | partial_ (t : Transcript) (rules : RuleIndex) (llmOpen : Bool) (isPartial : t.isFinal = false) :
      Step deps s (.transcript t rules llmOpen) s []
  | final (t : Transcript) (rules : RuleIndex) (llmOpen : Bool) (rxOpen : s.router.rxClosed = false)
      (isFinal : t.isFinal = true) :
      Step deps s (.transcript t rules llmOpen)
        (s.applyTurn (onFinal deps s.router t rules (s.finals + 1) llmOpen))
        (turnObs (s.finals + 1) (onFinal deps s.router t rules (s.finals + 1) llmOpen))
  | closed (rxOpen : s.router.rxClosed = false) :
      Step deps s .closed
        { s with router := { s.router with rxClosed := true },
                 exited := drained { s.router with rxClosed := true } } []
  | report (a : RouterAction) (i : Nat) (t : Task) (result : SkillResult) (task : s.tasks[i]? = some t)
      (by_ : a = .finish i result ∨ (a = .abandon i ∧ t.cancelled = true ∧ result = cancelledResult))
      (room : s.outcomes.length < OUTCOME_CAPACITY) :
      Step deps s a
        { s with tasks := s.tasks.eraseIdx i, outcomes := s.outcomes ++ [t.outcome result] } []
  | outcome (links : Links) (o : DispatchOutcome) (rest : List DispatchOutcome)
      (head : s.outcomes = o :: rest) :
      Step deps s (.outcome links)
        { s with router := (handleOutcome deps links s.router o).state, outcomes := rest,
                 exited := drained (handleOutcome deps links s.router o).state }
        (.handled o.token s.finals o.result ::
          ((handleOutcome deps links s.router o).events.map (.event o.token) ++
            (handleOutcome deps links s.router o).sends.map (.send o.token)))
  | cancel : Step deps s .cancel { s with exited := true } []

/-- **Inversion.** Only a running router steps, and only so. -/
theorem step_cases {deps : RouterDeps} {s s' : RouterSys} {a : RouterAction} {o : List RouterObs}
    (h : step deps s a = some (s', o)) : s.exited = false ∧ Step deps s a s' o := by
  unfold step at h
  split at h
  · cases h
  · rename_i hrun
    refine ⟨by simpa using hrun, ?_⟩
    cases a with
    | transcript t rules llmOpen =>
      simp only at h
      split at h
      · cases h
      · rename_i hrx
        split at h
        · rename_i hfinal
          cases h
          exact .final t rules llmOpen (by simpa using hrx) hfinal
        · rename_i hfinal
          cases h
          exact .partial_ t rules llmOpen (by simpa using hfinal)
    | closed =>
      simp only at h
      split at h
      · cases h
      · rename_i hrx
        cases h
        exact .closed (by simpa using hrx)
    | finish i result =>
      -- a task reports once, and only if the channel has room
      obtain ⟨t, ht, hr⟩ := Option.bind_eq_some_iff.mp h
      unfold report at hr
      split at hr
      · rename_i hroom
        cases hr
        exact .report _ i t result ht (Or.inl rfl) hroom
      · cases hr
    | abandon i =>
      obtain ⟨t, ht, hr⟩ := Option.bind_eq_some_iff.mp h
      split at hr
      · rename_i hc
        unfold report at hr
        -- an abandoned one reports that it was cancelled, as the select of the task does
        split at hr
        · rename_i hroom
          cases hr
          exact .report _ i t cancelledResult ht (Or.inr ⟨rfl, hc, rfl⟩) hroom
        · cases hr
      · cases hr
    | outcome links =>
      simp only at h
      split at h
      · cases h
      · rename_i o' rest ho
        cases h
        exact .outcome links o' rest ho
    | cancel =>
      cases h
      exact .cancel

def machine (deps : RouterDeps) : Machine RouterSys RouterAction RouterObs := ⟨step deps⟩

end RouterSys

end AthenaVoice.Pipeline
