import AthenaVoice.Assist.Topics
import AthenaVoice.Core.Event
import AthenaVoice.Lib.Machine
import AthenaVoice.Pipeline.Router
import AthenaVoice.Pipeline.Sentence

/-
  A device's actor in the assist bridge — `assist/bridge.rs`, `run_device_actor`

  The loop waits for a question, a token, a deadline or the end. A question
  first empties the token channel, message by message, and only then publishes
  `in progress` and hands the transcript on. The instants of the deadlines are
  left out: an arm with a deadline may fire whenever its deadline is set.

  Tokens carry a tag of any type, which the actor does not read; a publication
  is observed with the arm that made it and the tags of what it was made from.

  What is proved:
    1. `loader_cases` — what a step does to the device's loader.
    2. `loader_protocol` — over every run, `done` is published only on an
       `in progress`, and an actor that took a question leaves with `done`.

  Correspondence (Rust ↔ Lean):
    the locals of `run_device_actor`   `DeviceActor`
    the arms of its `select!`          `DeviceActor.step`
    `publish_answer`                   `publishAnswer`
    `publish_status`                   `publishStatus`
    the release after the loop         `leave`
-/

namespace AthenaVoice.Assist

open Lib CoreTypes
open Pipeline (SentenceBuffer TtsMsg epochSucc)

universe u

/-- What the actor's topics and events are made of. -/
structure ActorEnv where
  topicPrefix : Text
  device : Text
  session : SessionId

def ActorEnv.statusTopic (env : ActorEnv) : Text := Assist.statusTopic env.topicPrefix env.device

def ActorEnv.ttsTopic (env : ActorEnv) : Text := Assist.ttsTopic env.topicPrefix env.device

/-- Where the actor is in its loop. -/
inductive ActorPhase where
  | select
  /-- `while tok_rx.try_recv().is_ok() {}`, a question taken. -/
  | draining (text : Text)
  /-- `t_tx.send(..)`. -/
  | forwarding (text : Text)
  | exited
  deriving DecidableEq, Repr

/-- The locals of the loop; `tags` are those of the tokens in `buf`. A deadline
is its epoch, or whether it is set. -/
structure DeviceActor (ι : Type u) where
  phase : ActorPhase
  buf : SentenceBuffer
  tags : List ι
  epoch : Nat
  answerDeadline : Option Nat
  flushDeadline : Bool
  deriving DecidableEq, Repr

inductive ActorAction (ι : Type u) where
  | cancelled
  | idle
  | answerTimeout
  | idleFlush
  | question (text : Text)
  /-- The question channel is closed and empty. -/
  | questionsClosed
  /-- The drain takes a message. -/
  | drain (tag : ι) (msg : TtsMsg)
  /-- The drain finds the channel empty. -/
  | drained
  /-- The transcript is sent; `false` when the router is gone. -/
  | forwarded (ok : Bool)
  | token (tag : ι) (msg : TtsMsg)
  /-- The token channel is closed and empty. -/
  | tokensClosed

/-- What a publication comes from. -/
inductive Cause (ι : Type u) where
  | question
  /-- Text of the tokens tagged so. -/
  | text (tags : List ι)
  | answerEnd (tag : ι)
  | timeout
  | leaving
  deriving DecidableEq, Repr

/-- What is observed of the actor. -/
inductive ActorObs (ι : Type u) where
  /-- A question is taken. -/
  | asked (text : Text)
  | publish (topic : Text) (payload : Json) (cause : Cause ι)
  | event (e : Event)
  /-- The transcript is in the router's channel. -/
  | forwarded (t : Transcript)

def inProgress : Text := "in progress".toList
def done : Text := "done".toList

namespace DeviceActor

variable {ι : Type u}

/-- The actor as its loop begins. -/
def init : DeviceActor ι :=
  { phase := .select, buf := .new, tags := [], epoch := 0, answerDeadline := none, flushDeadline := false }

/-- A question's drain is under way. -/
def isDraining (s : DeviceActor ι) : Bool :=
  match s.phase with
  | .draining _ => true
  | .select | .forwarding _ | .exited => false

def publishStatus (env : ActorEnv) (status : Text) (cause : Cause ι) : ActorObs ι :=
  .publish env.statusTopic (statusPayload status) cause

/-- The release of the loader by the current question: `done`, if its answer is
still awaited. -/
def release (env : ActorEnv) (s : DeviceActor ι) (cause : Cause ι) : DeviceActor ι × List (ActorObs ι) :=
  -- a deadline of an earlier question is let be
  if s.answerDeadline = some s.epoch then
    ({ s with answerDeadline := none }, [publishStatus env done cause])
  else (s, [])

/-- `publish_answer`, of a sentence made of tokens tagged so. -/
def publishAnswer (env : ActorEnv) (s : DeviceActor ι) (sentence : Text) (tags : List ι) :
    DeviceActor ι × List (ActorObs ι) :=
  let r := s.release env (.text tags)
  (r.1, .publish env.ttsTopic (textPayload sentence) (.text tags) :: r.2)

/-- `if let Some(sentence) = buf.take() { publish_answer(..) }`. -/
def flush (env : ActorEnv) (s : DeviceActor ι) : DeviceActor ι × List (ActorObs ι) :=
  let s' := { s with buf := s.buf.take.1, tags := [] }
  match s.buf.take.2 with
  | some sentence => s'.publishAnswer env sentence s.tags
  | none => (s', [])

/-- The exit from the loop: the loader is released whatever its epoch. -/
def leave (env : ActorEnv) (s : DeviceActor ι) : DeviceActor ι × List (ActorObs ι) :=
  ({ s with phase := .exited, answerDeadline := none },
    if s.answerDeadline.isSome then [publishStatus env done .leaving] else [])

/-- `TtsMsg::Token`. -/
def onToken (env : ActorEnv) (s : DeviceActor ι) (tag : ι) (t : Text) : DeviceActor ι × List (ActorObs ι) :=
  let buf := (s.buf.push t).1
  match (s.buf.push t).2 with
  | some sentence =>
    { s with buf := buf, tags := [], flushDeadline := false }.publishAnswer env sentence (s.tags ++ [tag])
  | none => ({ s with buf := buf, tags := s.tags ++ [tag], flushDeadline := true }, [])

/-- `TtsMsg::AnswerEnd`. -/
def onAnswerEnd (env : ActorEnv) (s : DeviceActor ι) (tag : ι) : DeviceActor ι × List (ActorObs ι) :=
  let flushed := { s with flushDeadline := false }.flush env
  let released := flushed.1.release env (.answerEnd tag)
  (released.1, flushed.2 ++ released.2)

/-- The token channel is closed: what is buffered is said, then the loop ends. -/
def onTokensClosed (env : ActorEnv) (s : DeviceActor ι) : DeviceActor ι × List (ActorObs ι) :=
  let flushed := s.flush env
  let left := flushed.1.leave env
  (left.1, flushed.2 ++ left.2)

def step (env : ActorEnv) (s : DeviceActor ι) (a : ActorAction ι) :
    Option (DeviceActor ι × List (ActorObs ι)) :=
  match s.phase, a with
  | .select, .cancelled => some (s.leave env)
  | .select, .idle => some (s.leave env)
  | .select, .answerTimeout =>
    if s.answerDeadline.isSome then
      some ({ s with answerDeadline := none }, [publishStatus env done .timeout])
    else none
  | .select, .idleFlush => if s.flushDeadline then some ({ s with flushDeadline := false }.flush env) else none
  | .select, .question text =>
    some ({ s with phase := .draining text, epoch := epochSucc s.epoch, buf := s.buf.clear, tags := [],
                   flushDeadline := false }, [.asked text])
  -- none of these flushes what is buffered
  | .select, .questionsClosed => some (s.leave env)
  | .select, .token tag (.token t) => some (s.onToken env tag t)
  | .select, .token tag .answerEnd => some (s.onAnswerEnd env tag)
  | .select, .tokensClosed => some (s.onTokensClosed env)
  -- an `AnswerEnd` of the question before goes with its tokens
  | .draining _, .drain _ _ => some (s, [])
  | .draining text, .drained =>
    some ({ s with phase := .forwarding text, answerDeadline := some s.epoch },
      [publishStatus env inProgress .question, .event (.transcriptFinal env.session text)])
  | .forwarding text, .forwarded true => some ({ s with phase := .select }, [.forwarded ⟨text, true⟩])
  | .forwarding _, .forwarded false => some (s.leave env)
  | _, _ => none

def machine (env : ActorEnv) : Machine (DeviceActor ι) (ActorAction ι) (ActorObs ι) := ⟨step env⟩

inductive Step (env : ActorEnv) (s : DeviceActor ι) :
    ActorAction ι → DeviceActor ι → List (ActorObs ι) → Prop where
  | leave {a : ActorAction ι} (left : a = .cancelled ∨ a = .idle ∨ a = .questionsClosed ∨ a = .forwarded false)
      (running : s.phase = .select ∨ ∃ text, s.phase = .forwarding text) :
      Step env s a (s.leave env).1 (s.leave env).2
  | answerTimeout (phase : s.phase = .select) (waits : s.answerDeadline.isSome = true) :
      Step env s .answerTimeout { s with answerDeadline := none } [publishStatus env done .timeout]
  | idleFlush (phase : s.phase = .select) (due : s.flushDeadline = true) :
      Step env s .idleFlush ({ s with flushDeadline := false }.flush env).1
        ({ s with flushDeadline := false }.flush env).2
  | question (text : Text) (phase : s.phase = .select) :
      Step env s (.question text)
        { s with phase := .draining text, epoch := epochSucc s.epoch, buf := s.buf.clear, tags := [],
                 flushDeadline := false } [.asked text]
  | token (tag : ι) (t : Text) (phase : s.phase = .select) :
      Step env s (.token tag (.token t)) (s.onToken env tag t).1 (s.onToken env tag t).2
  | answerEnd (tag : ι) (phase : s.phase = .select) :
      Step env s (.token tag .answerEnd) (s.onAnswerEnd env tag).1 (s.onAnswerEnd env tag).2
  | tokensClosed (phase : s.phase = .select) :
      Step env s .tokensClosed (s.onTokensClosed env).1 (s.onTokensClosed env).2
  | drain (tag : ι) (msg : TtsMsg) (text : Text) (phase : s.phase = .draining text) :
      Step env s (.drain tag msg) s []
  | drained (text : Text) (phase : s.phase = .draining text) :
      Step env s .drained { s with phase := .forwarding text, answerDeadline := some s.epoch }
        [publishStatus env inProgress .question, .event (.transcriptFinal env.session text)]
  | forwarded (text : Text) (phase : s.phase = .forwarding text) :
      Step env s (.forwarded true) { s with phase := .select } [.forwarded ⟨text, true⟩]

/-- **Inversion.** -/
theorem step_cases {env : ActorEnv} {s s' : DeviceActor ι} {a : ActorAction ι} {o : List (ActorObs ι)}
    (h : step env s a = some (s', o)) : Step env s a s' o := by
  have hof : ∀ {a : ActorAction ι} {r : DeviceActor ι × List (ActorObs ι)}, some r = some (s', o) →
      Step env s a r.1 r.2 → Step env s a s' o := by
    intro a r heq hstep
    rw [Option.some.inj heq] at hstep
    exact hstep
  unfold step at h
  split at h
  all_goals rename_i hphase
  · exact hof h (.leave (by simp) (Or.inl hphase))
  · exact hof h (.leave (by simp) (Or.inl hphase))
  · split at h
    · rename_i hwaits
      exact hof h (.answerTimeout hphase hwaits)
    · cases h
  · split at h
    · rename_i hdue
      exact hof h (.idleFlush hphase hdue)
    · cases h
  · exact hof h (.question _ hphase)
  · exact hof h (.leave (by simp) (Or.inl hphase))
  · exact hof h (.token _ _ hphase)
  · exact hof h (.answerEnd _ hphase)
  · exact hof h (.tokensClosed hphase)
  · exact hof h (.drain _ _ _ hphase)
  · exact hof h (.drained _ hphase)
  · exact hof h (.forwarded _ hphase)
  · exact hof h (.leave (by simp) (Or.inr ⟨_, hphase⟩))
  · cases h

end DeviceActor

/-! ## The loader -/

variable {ι : Type u}

/-- The status an observation publishes on the topic, if it does. -/
def statusOn (topic : Text) : ActorObs ι → Option Text
  | .publish t payload _ => if t = topic then (payload.get "status".toList).bind Json.asStr else none
  | _ => none

/-- The statuses published on the topic, in order. -/
def statusesOn (topic : Text) (h : List (ActorObs ι)) : List Text := h.filterMap (statusOn topic)

/-- The questions taken, in order. -/
def questionsIn (h : List (ActorObs ι)) : List Text :=
  h.filterMap (fun x => match x with | .asked text => some text | _ => none)

/-- `done` comes only directly after `in progress`. -/
def LoaderProtocol (statuses : List Text) : Prop :=
  ∀ before after, statuses = before ++ done :: after → before.getLast? = some inProgress

@[simp] theorem statusesOn_append (topic : Text) (h h' : List (ActorObs ι)) :
    statusesOn topic (h ++ h') = statusesOn topic h ++ statusesOn topic h' := List.filterMap_append

@[simp] theorem questionsIn_append (h h' : List (ActorObs ι)) :
    questionsIn (h ++ h') = questionsIn h ++ questionsIn h' := List.filterMap_append

@[simp] theorem statusesOn_asked (topic text : Text) :
    statusesOn topic [(.asked text : ActorObs ι)] = [] := rfl

@[simp] theorem questionsIn_asked (text : Text) : questionsIn [(.asked text : ActorObs ι)] = [text] := rfl

@[simp] theorem statusesOn_forwarded (topic : Text) (t : Transcript) :
    statusesOn topic [(.forwarded t : ActorObs ι)] = [] := rfl

@[simp] theorem questionsIn_forwarded (t : Transcript) :
    questionsIn [(.forwarded t : ActorObs ι)] = [] := rfl

theorem statusesOn_status (env : ActorEnv) (status : Text) (cause : Cause ι) :
    statusesOn env.statusTopic [DeviceActor.publishStatus env status cause] = [status] := by
  have hstatus : statusOn env.statusTopic (DeviceActor.publishStatus env status cause) = some status :=
    if_pos rfl
  unfold statusesOn
  rw [List.filterMap_cons_some hstatus]
  rfl

@[simp] theorem statusesOn_opened (env : ActorEnv) (cause : Cause ι) (e : Event) :
    statusesOn env.statusTopic [DeviceActor.publishStatus env inProgress cause, .event e] = [inProgress] :=
  (statusesOn_append _ [DeviceActor.publishStatus env inProgress cause] _).trans
    (congrArg (· ++ []) (statusesOn_status env inProgress cause))

@[simp] theorem questionsIn_opened (env : ActorEnv) (cause : Cause ι) (e : Event) :
    questionsIn [DeviceActor.publishStatus env inProgress cause, .event e] = [] := rfl

theorem statusOn_answer (env : ActorEnv) (payload : Json) (cause : Cause ι) :
    statusOn env.statusTopic (.publish env.ttsTopic payload cause) = none :=
  if_neg (statusTopic_ne_ttsTopic env.topicPrefix env.device env.device)

/-- The observation is a publication. -/
def ActorObs.isPublish : ActorObs ι → Bool
  | .publish .. => true
  | _ => false

/-- What an arm that takes no question does to the loader: nothing, or one
`done` when the answer was awaited. -/
inductive Releases (env : ActorEnv) (s s' : DeviceActor ι) (o : List (ActorObs ι)) : Prop where
  | still (published : o.all ActorObs.isPublish = true) (quiet : statusesOn env.statusTopic o = [])
      (same : s'.answerDeadline = s.answerDeadline)
  | released (published : o.all ActorObs.isPublish = true) (done : statusesOn env.statusTopic o = [done])
      (waited : s.answerDeadline.isSome = true) (shut : s'.answerDeadline = none)

theorem Releases.trans {env : ActorEnv} {s s₁ s₂ : DeviceActor ι} {o₁ o₂ : List (ActorObs ι)}
    (h₁ : Releases env s s₁ o₁) (h₂ : Releases env s₁ s₂ o₂) : Releases env s s₂ (o₁ ++ o₂) := by
  cases h₁ with
  | still hpub hquiet hsame =>
    cases h₂ with
    | still hpub' hquiet' hsame' =>
      exact .still (by rw [List.all_append, hpub, hpub']; rfl) (by simp [hquiet, hquiet'])
        (hsame'.trans hsame)
    | released hpub' hdone hwaited hover =>
      exact .released (by rw [List.all_append, hpub, hpub']; rfl) (by simp [hquiet, hdone])
        (hsame ▸ hwaited) hover
  | released hpub hdone hwaited hover =>
    cases h₂ with
    | still hpub' hquiet' hsame' =>
      exact .released (by rw [List.all_append, hpub, hpub']; rfl) (by simp [hdone, hquiet']) hwaited
        (hsame'.trans hover)
    | released _ _ hwaited' _ =>
      -- a loader released once is not released again
      rw [hover] at hwaited'
      cases hwaited'

theorem Releases.published {env : ActorEnv} {s s' : DeviceActor ι} {o : List (ActorObs ι)}
    (R : Releases env s s' o) : ∀ x ∈ o, ∃ topic payload cause, x = .publish topic payload cause := by
  have hall : o.all ActorObs.isPublish = true := by
    cases R with
    | still hpub _ _ => exact hpub
    | released hpub _ _ _ => exact hpub
  intro x hx
  have hpub := List.all_eq_true.mp hall x hx
  cases x with
  | publish topic payload cause => exact ⟨topic, payload, cause, rfl⟩
  | _ => cases hpub

theorem Releases.unasked {env : ActorEnv} {s s' : DeviceActor ι} {o : List (ActorObs ι)}
    (R : Releases env s s' o) : questionsIn o = [] := by
  apply List.filterMap_eq_nil_iff.mpr
  intro x hx
  obtain ⟨topic, payload, cause, rfl⟩ := R.published x hx
  rfl

namespace DeviceActor

theorem release_releases (env : ActorEnv) (s : DeviceActor ι) (cause : Cause ι) :
    Releases env s (s.release env cause).1 (s.release env cause).2 := by
  unfold release
  split
  · rename_i hwaits
    exact .released rfl (statusesOn_status env done cause) (by rw [hwaits]; rfl) rfl
  · exact .still rfl rfl rfl

theorem publishAnswer_releases (env : ActorEnv) (s : DeviceActor ι) (sentence : Text) (tags : List ι) :
    Releases env s (s.publishAnswer env sentence tags).1 (s.publishAnswer env sentence tags).2 := by
  have hanswer : statusesOn env.statusTopic
      [.publish env.ttsTopic (textPayload sentence) (.text tags)] = [] := by
    unfold statusesOn
    rw [List.filterMap_cons_none (statusOn_answer env _ _)]
    rfl
  exact Releases.trans (.still rfl hanswer rfl) (s.release_releases env (.text tags))

theorem flush_releases (env : ActorEnv) (s : DeviceActor ι) :
    Releases env s (s.flush env).1 (s.flush env).2 := by
  have hclear : Releases env s { s with buf := s.buf.take.1, tags := [] } [] := .still rfl rfl rfl
  unfold flush
  simp only
  split
  · exact hclear.trans (publishAnswer_releases env _ _ _)
  · exact hclear

theorem leave_releases (env : ActorEnv) (s : DeviceActor ι) :
    Releases env s (s.leave env).1 (s.leave env).2 := by
  unfold leave
  cases hd : s.answerDeadline with
  | none => exact .still rfl rfl hd.symm
  | some e => exact .released rfl (statusesOn_status env done .leaving) (by rw [hd]; rfl) rfl

theorem onToken_releases (env : ActorEnv) (s : DeviceActor ι) (tag : ι) (t : Text) :
    Releases env s (s.onToken env tag t).1 (s.onToken env tag t).2 := by
  unfold onToken
  simp only
  split
  · rename_i sentence _
    have hpush : Releases env s { s with buf := (s.buf.push t).1, tags := [], flushDeadline := false } [] :=
      .still rfl rfl rfl
    exact hpush.trans (publishAnswer_releases env _ sentence _)
  · exact .still rfl rfl rfl

theorem onAnswerEnd_releases (env : ActorEnv) (s : DeviceActor ι) (tag : ι) :
    Releases env s (s.onAnswerEnd env tag).1 (s.onAnswerEnd env tag).2 := by
  have hstart : Releases env s { s with flushDeadline := false } [] := .still rfl rfl rfl
  have hflush := hstart.trans (flush_releases env { s with flushDeadline := false })
  exact hflush.trans (release_releases env _ (.answerEnd tag))

theorem onTokensClosed_releases (env : ActorEnv) (s : DeviceActor ι) :
    Releases env s (s.onTokensClosed env).1 (s.onTokensClosed env).2 :=
  (s.flush_releases env).trans (leave_releases env _)

theorem release_phase (env : ActorEnv) (s : DeviceActor ι) (cause : Cause ι) :
    (s.release env cause).1.phase = s.phase := by
  unfold release
  split <;> rfl

theorem flush_phase (env : ActorEnv) (s : DeviceActor ι) : (s.flush env).1.phase = s.phase := by
  unfold flush
  simp only
  split
  · exact release_phase env _ _
  · rfl

theorem onToken_phase (env : ActorEnv) (s : DeviceActor ι) (tag : ι) (t : Text) :
    (s.onToken env tag t).1.phase = s.phase := by
  unfold onToken
  simp only
  split
  · exact release_phase env _ _
  · rfl

theorem onAnswerEnd_phase (env : ActorEnv) (s : DeviceActor ι) (tag : ι) :
    (s.onAnswerEnd env tag).1.phase = s.phase :=
  (release_phase env _ _).trans (flush_phase env _)

/-- What a step does, as far as the loader and the phase go. -/
inductive LoaderStep (env : ActorEnv) (s s' : DeviceActor ι) :
    ActorAction ι → List (ActorObs ι) → Prop where
  /-- A question is taken, and its drain begins. -/
  | asked (text : Text) (same : s'.answerDeadline = s.answerDeadline) (ready : s.phase = .select)
      (draining : s'.phase = .draining text) (dropped : s'.tags = []) :
      LoaderStep env s s' (.question text) [.asked text]
  | opened (text : Text) (waits : s'.answerDeadline.isSome = true) (drained : s.phase = .draining text)
      (running : s'.phase = .forwarding text) (kept : s'.tags = s.tags) :
      LoaderStep env s s' .drained
        [publishStatus env inProgress .question, .event (.transcriptFinal env.session text)]
  /-- The drain takes a message. -/
  | waited (tag : ι) (msg : TtsMsg) (same : s' = s) (draining : s.isDraining = true) :
      LoaderStep env s s' (.drain tag msg) []
  | handedOn (text : Text) (forwarding : s.phase = .forwarding text) (same : s' = { s with phase := .select }) :
      LoaderStep env s s' (.forwarded true) [.forwarded ⟨text, true⟩]
  | served {a : ActorAction ι} {o : List (ActorObs ι)} (releases : Releases env s s' o)
      (before : s.phase = .select) (after : s'.phase = .select) : LoaderStep env s s' a o
  | left {a : ActorAction ι} {o : List (ActorObs ι)} (releases : Releases env s s' o)
      (before : s.isDraining = false) (shut : s'.answerDeadline = none) (exited : s'.phase = .exited) :
      LoaderStep env s s' a o

theorem isDraining_of_select {s : DeviceActor ι} (h : s.phase = .select) : s.isDraining = false := by
  simp [isDraining, h]

/-- **The loader, in one step.** -/
theorem loader_cases {env : ActorEnv} {s s' : DeviceActor ι} {a : ActorAction ι} {o : List (ActorObs ι)}
    (hs : step env s a = some (s', o)) : LoaderStep env s s' a o := by
  cases step_cases hs with
  | leave left running =>
    refine .left (s.leave_releases env) ?_ rfl rfl
    rcases running with h | ⟨text, h⟩ <;> simp [isDraining, h]
  | answerTimeout phase waits =>
    exact .served (.released rfl (statusesOn_status env done .timeout) waits rfl) phase phase
  | idleFlush phase due =>
    have hstart : Releases env s { s with flushDeadline := false } [] := .still rfl rfl rfl
    exact .served (hstart.trans (flush_releases env _)) phase ((flush_phase env _).trans phase)
  | question text phase => exact .asked text rfl phase rfl rfl
  | token tag t phase =>
    exact .served (s.onToken_releases env tag t) phase ((s.onToken_phase env tag t).trans phase)
  | answerEnd tag phase =>
    exact .served (s.onAnswerEnd_releases env tag) phase ((s.onAnswerEnd_phase env tag).trans phase)
  | tokensClosed phase =>
    exact .left (s.onTokensClosed_releases env) (isDraining_of_select phase) rfl rfl
  | drain tag msg text phase => exact .waited tag msg rfl (by simp [isDraining, phase])
  | drained text phase => exact .opened text rfl phase rfl rfl
  | forwarded text phase => exact .handedOn text phase rfl

end DeviceActor

/-! ## The protocol -/

/-- The statuses keep the protocol; the loader is open iff an answer is awaited;
a question taken is being drained or has opened it. -/
structure Loader (env : ActorEnv) (h : List (ActorObs ι)) (s : DeviceActor ι) : Prop where
  protocol : LoaderProtocol (statusesOn env.statusTopic h)
  words : ∀ x ∈ statusesOn env.statusTopic h, x = inProgress ∨ x = done
  open_iff : (statusesOn env.statusTopic h).getLast? = some inProgress ↔ s.answerDeadline.isSome = true
  asked : questionsIn h ≠ [] → statusesOn env.statusTopic h ≠ [] ∨ ∃ text, s.phase = .draining text
  exited : s.phase = .exited → s.answerDeadline = none

theorem inProgress_ne_done : inProgress ≠ done := by decide

theorem LoaderProtocol.concat {statuses : List Text} {status : Text} (P : LoaderProtocol statuses)
    (h : status = done → statuses.getLast? = some inProgress) : LoaderProtocol (statuses ++ [status]) := by
  intro before after heq
  rcases List.eq_nil_or_concat after with rfl | ⟨init, last, rfl⟩
  · obtain ⟨rfl, hlast⟩ := List.append_inj' heq rfl
    exact h (List.cons.inj hlast).1
  · rw [List.concat_eq_append, ← List.cons_append, ← List.append_assoc] at heq
    exact P before init (List.append_inj' heq rfl).1

theorem loader_init (env : ActorEnv) : Loader env ([] : List (ActorObs ι)) DeviceActor.init where
  protocol := by intro before after heq; simp [statusesOn] at heq
  words := by intro x hx; cases hx
  open_iff := by simp [statusesOn, DeviceActor.init]
  asked := by intro h; exact absurd rfl h
  exited := by intro h; cases h

theorem Loader.releases {env : ActorEnv} {h o : List (ActorObs ι)} {s s' : DeviceActor ι}
    (L : Loader env h s) (R : Releases env s s' o) (hbefore : s.isDraining = false)
    (hexited : s'.phase = .exited → s'.answerDeadline = none) : Loader env (h ++ o) s' := by
  have hasked : questionsIn h ≠ [] → statusesOn env.statusTopic h ≠ [] := by
    intro hne
    rcases L.asked hne with hst | ⟨text, hd⟩
    · exact hst
    · simp [DeviceActor.isDraining, hd] at hbefore
  have hask := R.unasked
  cases R with
  | still _ hquiet hsame =>
    refine ⟨?_, ?_, ?_, ?_, hexited⟩
    all_goals simp only [statusesOn_append, questionsIn_append, hquiet, hask, List.append_nil]
    · exact L.protocol
    · exact L.words
    · rw [hsame]
      exact L.open_iff
    · exact fun hne => Or.inl (hasked hne)
  | released _ hdone hwaited hover =>
    refine ⟨?_, ?_, ?_, ?_, hexited⟩
    all_goals simp only [statusesOn_append, questionsIn_append, hdone, hask, List.append_nil]
    · exact L.protocol.concat (fun _ => L.open_iff.mpr hwaited)
    · intro x hx
      rcases List.mem_append.mp hx with hx | hx
      · exact L.words x hx
      · exact Or.inr (List.mem_singleton.mp hx)
    · rw [List.getLast?_concat, hover]
      simpa using inProgress_ne_done.symm
    · exact fun _ => Or.inl (List.append_ne_nil_of_right_ne_nil _ (List.cons_ne_nil _ _))

/-- **One step.** -/
theorem loader_step {env : ActorEnv} {h o : List (ActorObs ι)} {s s' : DeviceActor ι} {a : ActorAction ι}
    (L : Loader env h s) (hs : DeviceActor.step env s a = some (s', o)) : Loader env (h ++ o) s' := by
  cases DeviceActor.loader_cases hs with
  | asked text hsame hready hdraining hdropped =>
    refine ⟨?_, ?_, ?_, fun _ => Or.inr ⟨text, hdraining⟩, ?_⟩
    · simpa using L.protocol
    · simpa using L.words
    · simpa [hsame] using L.open_iff
    · intro hexited
      rw [hdraining] at hexited
      cases hexited
  | opened text hwaits hdrained hrunning hkept =>
    refine ⟨?_, ?_, ?_, ?_, fun h => by rw [hrunning] at h; cases h⟩
    all_goals simp only [statusesOn_append, statusesOn_opened]
    · exact L.protocol.concat (fun h => absurd h inProgress_ne_done)
    · intro x hx
      rcases List.mem_append.mp hx with hx | hx
      · exact L.words x hx
      · exact Or.inl (List.mem_singleton.mp hx)
    · rw [List.getLast?_concat, hwaits]
      simp
    · intro _
      exact Or.inl (List.append_ne_nil_of_right_ne_nil _ (List.cons_ne_nil _ _))
  | waited tag msg hsame hdraining =>
    rw [hsame, List.append_nil]
    exact L
  | handedOn text hforwarding hsame =>
    subst hsame
    refine ⟨?_, ?_, ?_, ?_, nofun⟩
    all_goals simp only [statusesOn_append, questionsIn_append, statusesOn_forwarded, questionsIn_forwarded,
      List.append_nil]
    · exact L.protocol
    · exact L.words
    · exact L.open_iff
    · intro hne
      rcases L.asked hne with hst | ⟨text', hd⟩
      · exact Or.inl hst
      · rw [hforwarding] at hd
        cases hd
  | served releases before after =>
    exact L.releases releases (DeviceActor.isDraining_of_select before) (fun h => by rw [after] at h; cases h)
  | left releases before shut exited => exact L.releases releases before (fun _ => shut)

/-- **The loader protocol.** Over every run of an actor: `done` is published on
the device's status topic only when the last status there is `in progress`, and
when the actor has left after taking any question, the last status is `done`. -/
theorem loader_protocol (env : ActorEnv) (as : List (ActorAction ι)) (s : DeviceActor ι)
    (h : List (ActorObs ι)) (hrun : (DeviceActor.machine env).run DeviceActor.init as = some (s, h)) :
    LoaderProtocol (statusesOn env.statusTopic h) ∧
      (s.phase = .exited → questionsIn h ≠ [] → (statusesOn env.statusTopic h).getLast? = some done) := by
  have L : Loader env h s := by
    have := Machine.run_invariant (M := DeviceActor.machine env) (P := Loader env)
      (fun _ _ _ _ _ L hs => loader_step L hs) (loader_init env) hrun
    simpa using this
  refine ⟨L.protocol, ?_⟩
  intro hexited hasked
  rcases L.asked hasked with hne | ⟨text, hdraining⟩
  · obtain ⟨init, last, heq⟩ := (List.eq_nil_or_concat (statusesOn env.statusTopic h)).resolve_left hne
    have hclosed : (statusesOn env.statusTopic h).getLast? ≠ some inProgress := by
      rw [Ne, L.open_iff, L.exited hexited]
      simp
    rw [heq, List.concat_eq_append, List.getLast?_concat] at hclosed ⊢
    have hword := L.words last (by rw [heq]; simp)
    rcases hword with rfl | rfl
    · exact absurd rfl hclosed
    · rfl
  · rw [hexited] at hdraining
    cases hdraining

def kitchen : ActorEnv := { topicPrefix := "assist".toList, device := "kitchen".toList, session := 1 }

/-- Two questions, the second asked before the first is answered; then the
answer to the second, and an idle end. -/
def twoQuestions : List (ActorAction Nat) :=
  [.question "what time is it".toList, .drained, .forwarded true,
   .question "tell me a story".toList, .drain 1 .answerEnd, .drained, .forwarded true,
   .token 2 (.token "Once.".toList), .token 2 .answerEnd, .idle]

/-- The loader of that run. -/
theorem loader_twoQuestions : ∃ s h,
    (DeviceActor.machine kitchen).run DeviceActor.init twoQuestions = some (s, h) ∧
      statusesOn kitchen.statusTopic h = [inProgress, inProgress, done] ∧
      LoaderProtocol (statusesOn kitchen.statusTopic h) ∧
      (statusesOn kitchen.statusTopic h).getLast? = some done := by
  refine ⟨_, _, rfl, by decide, ?_⟩
  obtain ⟨hprotocol, hlast⟩ := loader_protocol kitchen twoQuestions _ _ rfl
  exact ⟨hprotocol, hlast rfl (by decide)⟩

/-! ## Tags -/

/-- Everything the publication comes from is tagged with `P`. -/
def Cause.Of (P : ι → Prop) : Cause ι → Prop
  | .text tags => ∀ t ∈ tags, P t
  | .answerEnd tag => P tag
  | .question | .timeout | .leaving => True

instance (P : ι → Prop) [DecidablePred P] (c : Cause ι) : Decidable (c.Of P) :=
  match c with
  | .text tags => inferInstanceAs (Decidable (∀ t ∈ tags, P t))
  | .answerEnd tag => inferInstanceAs (Decidable (P tag))
  | .question => isTrue trivial
  | .timeout => isTrue trivial
  | .leaving => isTrue trivial

/-- The same, of a publication observed. -/
def ActorObs.Of (P : ι → Prop) : ActorObs ι → Prop
  | .publish _ _ cause => cause.Of P
  | _ => True

instance (P : ι → Prop) [DecidablePred P] (x : ActorObs ι) : Decidable (x.Of P) :=
  match x with
  | .publish _ _ cause => inferInstanceAs (Decidable (cause.Of P))
  | .asked _ => isTrue trivial
  | .event _ => isTrue trivial
  | .forwarded _ => isTrue trivial

namespace DeviceActor

/-- What is held and what is published are tagged with `P`. -/
def TagsOf (P : ι → Prop) (r : DeviceActor ι × List (ActorObs ι)) : Prop :=
  (∀ t ∈ r.1.tags, P t) ∧ ∀ x ∈ r.2, x.Of P

theorem release_tags {P : ι → Prop} (env : ActorEnv) {s : DeviceActor ι} (cause : Cause ι)
    (h : ∀ t ∈ s.tags, P t) (hcause : cause.Of P) : TagsOf P (s.release env cause) := by
  unfold release
  split
  · exact ⟨h, List.forall_mem_singleton.mpr hcause⟩
  · exact ⟨h, by simp⟩

theorem publishAnswer_tags {P : ι → Prop} (env : ActorEnv) {s : DeviceActor ι} {sentence : Text} {tags : List ι}
    (h : ∀ t ∈ s.tags, P t) (htags : ∀ t ∈ tags, P t) : TagsOf P (s.publishAnswer env sentence tags) := by
  obtain ⟨hheld, hobs⟩ := release_tags env (.text tags) h htags
  exact ⟨hheld, List.forall_mem_cons.mpr ⟨htags, hobs⟩⟩

theorem flush_tags {P : ι → Prop} (env : ActorEnv) {s : DeviceActor ι} (h : ∀ t ∈ s.tags, P t) :
    TagsOf P (s.flush env) := by
  unfold flush
  simp only
  split
  · exact publishAnswer_tags env (by simp) h
  · exact ⟨by simp, by simp⟩

theorem leave_tags {P : ι → Prop} (env : ActorEnv) {s : DeviceActor ι} (h : ∀ t ∈ s.tags, P t) :
    TagsOf P (s.leave env) := by
  refine ⟨h, ?_⟩
  unfold leave
  simp only
  split
  · exact List.forall_mem_singleton.mpr trivial
  · simp

/-- **Tags, in one step.** A property of the tag of each token taken is one of
everything the actor holds and publishes. -/
theorem step_tags {P : ι → Prop} {env : ActorEnv} {s s' : DeviceActor ι} {a : ActorAction ι}
    {o : List (ActorObs ι)} (h : ∀ t ∈ s.tags, P t) (ha : ∀ tag msg, a = .token tag msg → P tag)
    (hs : step env s a = some (s', o)) : TagsOf P (s', o) := by
  cases step_cases hs with
  | leave left running => exact leave_tags env h
  | answerTimeout phase waits => exact ⟨h, List.forall_mem_singleton.mpr trivial⟩
  | idleFlush phase due => exact flush_tags (s := { s with flushDeadline := false }) env h
  | question text phase => exact ⟨by simp, List.forall_mem_singleton.mpr trivial⟩
  | token tag t phase =>
    have htags : ∀ x ∈ s.tags ++ [tag], P x :=
      List.forall_mem_append.mpr ⟨h, List.forall_mem_singleton.mpr (ha tag _ rfl)⟩
    unfold onToken
    simp only
    split
    · exact publishAnswer_tags env (by simp) htags
    · exact ⟨htags, by simp⟩
  | answerEnd tag phase =>
    obtain ⟨hheld, hobs⟩ := flush_tags (s := { s with flushDeadline := false }) env h
    obtain ⟨hheld', hobs'⟩ := release_tags env (.answerEnd tag) hheld (ha tag _ rfl)
    exact ⟨hheld', List.forall_mem_append.mpr ⟨hobs, hobs'⟩⟩
  | tokensClosed phase =>
    obtain ⟨hheld, hobs⟩ := flush_tags env h
    obtain ⟨hheld', hobs'⟩ := leave_tags env hheld
    exact ⟨hheld', List.forall_mem_append.mpr ⟨hobs, hobs'⟩⟩
  | drain tag msg text phase => exact ⟨h, by simp⟩
  | drained text phase =>
    exact ⟨h, List.forall_mem_cons.mpr ⟨trivial, List.forall_mem_singleton.mpr trivial⟩⟩
  | forwarded text phase => exact ⟨h, List.forall_mem_singleton.mpr trivial⟩

end DeviceActor

end AthenaVoice.Assist
