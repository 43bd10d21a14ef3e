import AthenaVoice.Assist.Actor
import AthenaVoice.Pipeline.Llm
import AthenaVoice.Pipeline.RouterDrain
import AthenaVoice.Pipeline.Session

/-
  A device's mini-pipeline — `assist/bridge.rs`, the tasks of one actor

  The actor, the router and the LLM stage of one device, with the channels
  between them: transcripts (16), prompts (4), tokens (64, from the router and
  the LLM stage). The k-th question is the k-th transcript, and the router's
  k-th utterance: messages carry its number, and nobody reads it. Once the
  session is cancelled a stage may be gone at any time, and sends may fail.

  A question empties the token channel, "so they can't surface as (part of) this
  question's answer"; the LLM stage keeps streaming the superseded prompt.

  What is proved:
    1. `answers_attributed` — while nothing is sent for an earlier question once
       a newer one's drain is over, every answer and every `done` is of the
       newest question.
    2. `questions_numbered` — the numbers are those of the questions.
    3. `stale_answer` — a superseded reply that streams on is published as the
       newer question's answer, and releases its loader.
-/

namespace AthenaVoice.Assist

open Lib CoreTypes Intent
open Pipeline

/-- What the actor's tasks are given. -/
structure AssistDeps where
  topicPrefix : Text
  device : Text
  router : RouterDeps

/-- The actor's topics, and the session it shares with its tasks. -/
def AssistDeps.env (deps : AssistDeps) : ActorEnv :=
  { topicPrefix := deps.topicPrefix, device := deps.device, session := deps.router.session }

/-- The tasks of one actor, what the router is about to send, and the channels.
`asked` counts the questions taken. -/
structure AssistSession where
  actor : DeviceActor Nat
  asked : Nat
  transcripts : List Transcript
  router : RouterSys
  routerOut : List (Nat × Send)
  prompts : List (Nat × Text)
  llm : Llm Nat
  tokens : List (Nat × TtsMsg)
  cancelled : Bool

/-- The tasks as they are spawned. -/
def AssistSession.init : AssistSession :=
  { actor := .init, asked := 0, transcripts := [], router := .init, routerOut := [], prompts := [], llm := .init,
    tokens := [], cancelled := false }

/-- What the scheduler and the world may do next. -/
inductive AssistAction where
  | actor (a : ActorAction Nat)
  | router (a : RouterAction)
  /-- The router's next message is sent, or finds its receiver gone. -/
  | routerSend (ok : Bool)
  /-- The LLM task takes a prompt. -/
  | llmPrompt
  /-- The LLM task goes on. -/
  | llm (a : LlmAction Nat)
  /-- The session's token is cancelled. -/
  | shutdown

inductive AssistObs where
  | actor (o : ActorObs Nat)
  | router (o : RouterObs)
  | llm (o : LlmObs Nat)

/-- The transcript channel's capacity. -/
def TRANSCRIPT_CAPACITY : Nat := 16

/-- The transcripts handed to the router. -/
def forwardedIn (o : List (ActorObs Nat)) : List Transcript :=
  o.filterMap (fun x => match x with | .forwarded t => some t | _ => none)

/-- How many messages of the token channel the action takes. -/
def tokensTaken : ActorAction Nat → Nat
  | .token .. | .drain .. => 1
  | _ => 0

/-- How many transcripts the action takes. -/
def transcriptsTaken : RouterAction → Nat
  | .transcript .. => 1
  | _ => 0

namespace AssistSession

/-- The channels offer the actor this action. It holds a sender of its own
question channel, which is therefore never closed. -/
def admits (s : AssistSession) : ActorAction Nat → Bool
  | .token n m | .drain n m => s.tokens.head? = some (n, m)
  | .drained => s.tokens.isEmpty
  | .tokensClosed => s.cancelled && s.tokens.isEmpty
  | .forwarded ok => if ok then s.transcripts.length < TRANSCRIPT_CAPACITY else s.cancelled
  | .cancelled => s.cancelled
  | .questionsClosed => false
  | .question _ | .idle | .answerTimeout | .idleFlush => true

/-- The channels offer the router this action. -/
def offers (s : AssistSession) (a : RouterAction) : Bool :=
  (a.attached || s.cancelled) && (s.routerOut.isEmpty || !a.isLoop) &&
    match a with
    | .transcript t _ _ => s.transcripts.head? = some t
    | .closed => s.cancelled && s.transcripts.isEmpty
    | _ => true

/-- The LLM task may go on so: there is room for what it sends, and nothing is
closed or cancelled before the session is. -/
def permits (s : AssistSession) : LlmAction Nat → Bool
  | .prompt .. => false
  | .sent ok => if ok then s.tokens.length < TOKEN_CAPACITY else s.cancelled
  | .completed _ | .item _ => true
  | .closed | .cancel => s.cancelled

/-- A step of the LLM task; what it sends joins the token channel. -/
def stepLlm (deps : AssistDeps) (s : AssistSession) (a : LlmAction Nat) :
    Option (AssistSession × List AssistObs) :=
  (s.llm.step deps.router.locale a).map (fun r =>
    ({ s with llm := r.1, tokens := s.tokens ++ sentBy r.2 }, r.2.map .llm))

def step (deps : AssistDeps) (s : AssistSession) : AssistAction → Option (AssistSession × List AssistObs)
  | .actor a =>
    if s.admits a then
      (s.actor.step deps.env a).map (fun r =>
        ({ s with actor := r.1, asked := s.asked + (questionsIn r.2).length,
                  tokens := s.tokens.drop (tokensTaken a),
                  transcripts := s.transcripts ++ forwardedIn r.2 }, r.2.map .actor))
    else none
  | .router a =>
    if s.offers a then
      (s.router.step deps.router a).map (fun r =>
        ({ s with router := r.1, routerOut := s.routerOut ++ sendsIn r.2,
                  transcripts := s.transcripts.drop (transcriptsTaken a) }, r.2.map .router))
    else none
  | .routerSend true =>
    match s.routerOut with
    | [] => none
    | (n, .llm prompt) :: rest =>
      if s.prompts.length < PROMPT_CAPACITY then
        some ({ s with routerOut := rest, prompts := s.prompts ++ [(n, prompt)] }, [])
      else none
    | (n, .tts m) :: rest =>
      if s.tokens.length < TOKEN_CAPACITY then
        some ({ s with routerOut := rest, tokens := s.tokens ++ [(n, m)] }, [])
      else none
  | .routerSend false =>
    -- a send that waits for room is given up once the session is cancelled
    if s.cancelled && !s.routerOut.isEmpty then some ({ s with routerOut := s.routerOut.tail }, []) else none
  | .llmPrompt =>
    match s.prompts with
    | [] => none
    | (n, prompt) :: rest => { s with prompts := rest }.stepLlm deps (.prompt n prompt)
  | .llm a => if s.permits a then s.stepLlm deps a else none
  | .shutdown => some ({ s with cancelled := true }, [])

def machine (deps : AssistDeps) : Machine AssistSession AssistAction AssistObs := ⟨step deps⟩

/-- The steps, by the task that takes them. -/
inductive Step (deps : AssistDeps) (s : AssistSession) :
    AssistAction → AssistSession → List AssistObs → Prop where
  | actor (a : ActorAction Nat) (actor : DeviceActor Nat) (o : List (ActorObs Nat)) (admitted : s.admits a = true)
      (step : s.actor.step deps.env a = some (actor, o)) :
      Step deps s (.actor a)
        { s with actor := actor, asked := s.asked + (questionsIn o).length,
                 tokens := s.tokens.drop (tokensTaken a), transcripts := s.transcripts ++ forwardedIn o }
        (o.map .actor)
  | router (a : RouterAction) (router : RouterSys) (o : List RouterObs) (offered : s.offers a = true)
      (step : s.router.step deps.router a = some (router, o)) :
      Step deps s (.router a)
        { s with router := router, routerOut := s.routerOut ++ sendsIn o,
                 transcripts := s.transcripts.drop (transcriptsTaken a) } (o.map .router)
  | sendPrompt (n : Nat) (prompt : Text) (rest : List (Nat × Send))
      (head : s.routerOut = (n, .llm prompt) :: rest) :
      Step deps s (.routerSend true) { s with routerOut := rest, prompts := s.prompts ++ [(n, prompt)] } []
  | sendToken (n : Nat) (m : TtsMsg) (rest : List (Nat × Send)) (head : s.routerOut = (n, .tts m) :: rest) :
      Step deps s (.routerSend true) { s with routerOut := rest, tokens := s.tokens ++ [(n, m)] } []
  | sendFailed : Step deps s (.routerSend false) { s with routerOut := s.routerOut.tail } []
  | llm (a : AssistAction) (b : LlmAction Nat) (prompts : List (Nat × Text)) (llm : Llm Nat)
      (o : List (LlmObs Nat)) (own : a = .llm b ∨ a = .llmPrompt ∧ ∃ n prompt, b = .prompt n prompt)
      (step : s.llm.step deps.router.locale b = some (llm, o)) :
      Step deps s a { s with prompts := prompts, llm := llm, tokens := s.tokens ++ sentBy o } (o.map .llm)
  | shutdown : Step deps s .shutdown { s with cancelled := true } []

/-- **Inversion.** -/
theorem step_cases {deps : AssistDeps} {s s' : AssistSession} {a : AssistAction} {o : List AssistObs}
    (h : s.step deps a = some (s', o)) : Step deps s a s' o := by
  have hllm : ∀ {a : AssistAction} {b : LlmAction Nat} {prompts : List (Nat × Text)},
      (a = .llm b ∨ a = .llmPrompt ∧ ∃ n prompt, b = .prompt n prompt) →
      { s with prompts := prompts }.stepLlm deps b = some (s', o) → Step deps s a s' o := by
    intro a b prompts hown hs
    obtain ⟨⟨llm, obs⟩, hr, he⟩ := Option.map_eq_some_iff.mp hs
    cases he
    exact .llm a b prompts llm obs hown hr
  cases a with
  | actor a =>
    simp only [step] at h
    split at h
    · rename_i hadmits
      obtain ⟨⟨actor, obs⟩, hr, he⟩ := Option.map_eq_some_iff.mp h
      cases he
      exact .actor a actor obs hadmits hr
    · cases h
  | router a =>
    simp only [step] at h
    split at h
    · rename_i hoffers
      obtain ⟨⟨router, obs⟩, hr, he⟩ := Option.map_eq_some_iff.mp h
      cases he
      exact .router a router obs hoffers hr
    · cases h
  | routerSend ok =>
    cases ok with
    | true =>
      simp only [step] at h
      split at h
      · cases h
      · rename_i n prompt rest hhead
        split at h
        · cases h
          exact .sendPrompt n prompt rest hhead
        · cases h
      · rename_i n m rest hhead
        split at h
        · cases h
          exact .sendToken n m rest hhead
        · cases h
    | false =>
      simp only [step] at h
      split at h
      · cases h
        exact .sendFailed
      · cases h
  | llmPrompt =>
    simp only [step] at h
    split at h
    · cases h
    · rename_i n prompt rest hhead
      exact hllm (Or.inr ⟨rfl, n, prompt, rfl⟩) h
  | llm a =>
    simp only [step] at h
    split at h
    · exact hllm (Or.inl rfl) h
    · cases h
  | shutdown =>
    cases h
    exact .shutdown

end AssistSession

/-! ## Attribution -/

def actorPart (h : List AssistObs) : List (ActorObs Nat) :=
  h.filterMap (fun x => match x with | .actor o => some o | _ => none)

/-- Where question `k` is the newest to be `in progress`: whatever is published
comes from `k`'s own text or `AnswerEnd`, from the timeout or from the exit. -/
def Attributed (topic : Text) : Nat → List (ActorObs Nat) → Prop
  | _, [] => True
  | k, x :: h =>
    x.Of (fun n => n = k) ∧ Attributed topic (if statusOn topic x = some inProgress then k + 1 else k) h

instance decidableAttributed (topic : Text) : ∀ (k : Nat) (h : List (ActorObs Nat)),
    Decidable (Attributed topic k h)
  | _, [] => isTrue trivial
  | k, x :: h =>
    have := decidableAttributed topic (if statusOn topic x = some inProgress then k + 1 else k) h
    inferInstanceAs (Decidable (x.Of (fun n => n = k) ∧ _))

/-- How many questions have been `in progress`. -/
def opened (topic : Text) (h : List (ActorObs Nat)) : Nat := (statusesOn topic h).count inProgress

/-- Nothing is put on the token channel for an earlier question once the drain
of a newer one is over. -/
def sendsCurrent (s : AssistSession) : AssistAction → Bool
  | .routerSend true =>
    match s.routerOut with
    | (n, .tts _) :: _ => s.actor.isDraining || n = s.asked
    | _ => true
  | .llm (.sent true) =>
    match s.llm.outbox with
    | (n, _) :: _ => s.actor.isDraining || n = s.asked
    | [] => true
  | _ => true

theorem Attributed.append {topic : Text} : ∀ {k : Nat} {h o : List (ActorObs Nat)}, Attributed topic k h →
    Attributed topic (k + opened topic h) o → Attributed topic k (h ++ o) := by
  intro k h
  induction h generalizing k with
  | nil => intro o _ ho; simpa [opened, statusesOn] using ho
  | cons x h ih =>
    intro o hh ho
    refine ⟨hh.1, ih hh.2 ?_⟩
    -- the count goes on where the first observation leaves it
    have hcount : k + opened topic (x :: h) =
        (if statusOn topic x = some inProgress then k + 1 else k) + opened topic h := by
      unfold opened statusesOn
      cases hx : statusOn topic x with
      | none => simp [List.filterMap_cons_none hx]
      | some status =>
        rw [List.filterMap_cons_some hx, List.count_cons]
        by_cases heq : status = inProgress
        · simp [heq]
          omega
        · simp [heq]
    rw [← hcount]
    exact ho

theorem attributed_of_quiet {topic : Text} {k : Nat} : ∀ {o : List (ActorObs Nat)},
    inProgress ∉ statusesOn topic o → (∀ x ∈ o, x.Of (fun n => n = k)) → Attributed topic k o := by
  intro o
  induction o with
  | nil => intro _ _; trivial
  | cons x o ih =>
    intro hquiet hof
    obtain ⟨hx, ho⟩ := List.forall_mem_cons.mp hof
    have hnot : statusOn topic x ≠ some inProgress := by
      intro hst
      apply hquiet
      unfold statusesOn
      rw [List.filterMap_cons_some hst]
      exact List.mem_cons_self
    refine ⟨hx, ?_⟩
    rw [if_neg hnot]
    refine ih (fun hmem => hquiet ?_) ho
    obtain ⟨y, hy, hst⟩ := List.mem_filterMap.mp hmem
    exact List.mem_filterMap.mpr ⟨y, List.mem_cons_of_mem x hy, hst⟩

@[simp] theorem actorPart_append (h h' : List AssistObs) :
    actorPart (h ++ h') = actorPart h ++ actorPart h' := List.filterMap_append

@[simp] theorem actorPart_actor (o : List (ActorObs Nat)) : actorPart (o.map .actor) = o := by
  simp [actorPart, List.filterMap_map]

@[simp] theorem actorPart_router (o : List RouterObs) : actorPart (o.map .router) = [] := by
  simp [actorPart, List.filterMap_map]

@[simp] theorem actorPart_llm (o : List (LlmObs Nat)) : actorPart (o.map .llm) = [] := by
  simp [actorPart, List.filterMap_map]

@[simp] theorem opened_append (topic : Text) (h h' : List (ActorObs Nat)) :
    opened topic (h ++ h') = opened topic h + opened topic h' := by
  simp [opened]

/-- Everything held and queued for the actor is of the newest question, which is
the one last `in progress`; before its drain is over the queue may hold more. -/
structure Current (topic : Text) (h : List AssistObs) (s : AssistSession) : Prop where
  count : opened topic (actorPart h) + (if s.actor.isDraining then 1 else 0) = s.asked
  held : ∀ t ∈ s.actor.tags, t = s.asked
  tokens : s.actor.isDraining = false → ∀ x ∈ s.tokens, x.1 = s.asked
  attributed : Attributed topic 0 (actorPart h)

theorem current_init (topic : Text) : Current topic [] AssistSession.init where
  count := rfl
  held := by intro t ht; cases ht
  tokens := by intro _ x hx; cases hx
  attributed := trivial

/-- A step that leaves the actor alone, and queues only for the newest question
once its drain is over. -/
theorem Current.queue {topic : Text} {h o : List AssistObs} {s s' : AssistSession} (C : Current topic h s)
    (hactor : s'.actor = s.actor) (hasked : s'.asked = s.asked) (hquiet : actorPart o = [])
    (htokens : ∀ x ∈ s'.tokens, x ∈ s.tokens ∨ s.actor.isDraining = true ∨ x.1 = s.asked) :
    Current topic (h ++ o) s' where
  count := by simpa [hquiet, hactor, hasked] using C.count
  held := by simpa [hactor, hasked] using C.held
  tokens := by
    intro hdraining x hx
    rw [hactor] at hdraining
    rw [hasked]
    rcases htokens x hx with hold | hd | hnew
    · exact C.tokens hdraining x hold
    · rw [hdraining] at hd
      cases hd
    · exact hnew
  attributed := by simpa [hquiet] using C.attributed

theorem Releases.quiet {ι : Type} {env : ActorEnv} {s s' : DeviceActor ι} {o : List (ActorObs ι)}
    (R : Releases env s s' o) : inProgress ∉ statusesOn env.statusTopic o := by
  cases R with
  | still _ hquiet _ => simp [hquiet]
  | released _ hdone _ _ => simp [hdone, inProgress_ne_done]

theorem Current.taken {topic : Text} {h : List AssistObs} {s : AssistSession} {env : ActorEnv} {tag : Nat}
    {msg : TtsMsg} {r : DeviceActor Nat × List (ActorObs Nat)} (C : Current topic h s)
    (hadmits : s.admits (.token tag msg) = true) (hs : s.actor.step env (.token tag msg) = some r) :
    tag = s.asked := by
  have hhead : s.tokens.head? = some (tag, msg) := by simpa [AssistSession.admits] using hadmits
  obtain ⟨actor, o⟩ := r
  have hselect : s.actor.phase = .select := by
    cases DeviceActor.step_cases hs with
    | token tag t phase => exact phase
    | answerEnd tag phase => exact phase
    | leave left running => simp at left
  exact C.tokens (DeviceActor.isDraining_of_select hselect) _ (List.mem_of_head? hhead)

theorem Current.serves {env : ActorEnv} {h : List AssistObs} {s s' : AssistSession} {o : List (ActorObs Nat)}
    (C : Current env.statusTopic h s) (R : Releases env s.actor s'.actor o)
    (htags : DeviceActor.TagsOf (fun n => n = s.asked) (s'.actor, o)) (hbefore : s.actor.isDraining = false)
    (hafter : s'.actor.isDraining = false) (hasked : s'.asked = s.asked)
    (htokens : ∀ x ∈ s'.tokens, x ∈ s.tokens) :
    Current env.statusTopic (h ++ o.map .actor) s' := by
  obtain ⟨hheld, hof⟩ := htags
  have hnone : opened env.statusTopic o = 0 := List.count_eq_zero.mpr R.quiet
  have hcount : opened env.statusTopic (actorPart h) = s.asked := by simpa [hbefore] using C.count
  refine ⟨?_, ?_, ?_, ?_⟩
  · simp [hnone, hafter, hcount, hasked]
  · simpa [hasked] using hheld
  · intro _ x hx
    rw [hasked]
    exact C.tokens hbefore x (htokens x hx)
  · rw [actorPart_append, actorPart_actor]
    refine C.attributed.append (attributed_of_quiet R.quiet ?_)
    rw [Nat.zero_add, hcount]
    exact hof

theorem Current.actor {deps : AssistDeps} {h : List AssistObs} {s : AssistSession} {a : ActorAction Nat}
    {actor : DeviceActor Nat} {o : List (ActorObs Nat)} (C : Current deps.env.statusTopic h s)
    (hadmits : s.admits a = true) (hs : s.actor.step deps.env a = some (actor, o)) :
    Current deps.env.statusTopic (h ++ o.map .actor)
      { s with actor := actor, asked := s.asked + (questionsIn o).length,
               tokens := s.tokens.drop (tokensTaken a), transcripts := s.transcripts ++ forwardedIn o } := by
  -- a token that is taken belongs to the question now asked
  have htags : DeviceActor.TagsOf (fun n => n = s.asked) (actor, o) := by
    refine DeviceActor.step_tags C.held ?_ hs
    intro tag msg heq
    subst heq
    exact C.taken hadmits hs
  have htokens : ∀ x ∈ s.tokens.drop (tokensTaken a), x ∈ s.tokens := fun x hx => List.mem_of_mem_drop hx
  cases DeviceActor.loader_cases hs with
  | asked text hsame hready hdraining hdropped =>
    have hbefore := DeviceActor.isDraining_of_select hready
    have hafter : actor.isDraining = true := by simp [DeviceActor.isDraining, hdraining]
    have hcount : opened deps.env.statusTopic (actorPart h) = s.asked := by simpa [hbefore] using C.count
    refine ⟨?_, ?_, ?_, ?_⟩
    · rw [actorPart_append, actorPart_actor]
      simpa [hafter, opened] using hcount
    · simp [hdropped]
    · intro hd
      rw [hafter] at hd
      cases hd
    · rw [actorPart_append, actorPart_actor]
      exact C.attributed.append ⟨trivial, trivial⟩
  | opened text hwaits hdrained hrunning hkept =>
    have hafter : actor.isDraining = false := by simp [DeviceActor.isDraining, hrunning]
    have hbefore : s.actor.isDraining = true := by simp [DeviceActor.isDraining, hdrained]
    have hempty : s.tokens = [] := by simpa [AssistSession.admits] using hadmits
    refine ⟨?_, ?_, ?_, ?_⟩
    · rw [actorPart_append, actorPart_actor]
      simpa [hafter, hbefore, opened] using C.count
    · simpa [hkept] using C.held
    · simp [hempty]
    · rw [actorPart_append, actorPart_actor]
      exact C.attributed.append ⟨trivial, trivial, trivial⟩
  | waited tag msg hsame hdraining =>
    subst hsame
    refine ⟨?_, ?_, ?_, ?_⟩
    · simpa [questionsIn] using C.count
    · simpa [questionsIn] using C.held
    · intro hd
      rw [hdraining] at hd
      cases hd
    · simpa using C.attributed
  | handedOn text hforwarding hsame =>
    subst hsame
    have hbefore : s.actor.isDraining = false := by simp [DeviceActor.isDraining, hforwarding]
    have hcount : opened deps.env.statusTopic (actorPart h) = s.asked := by simpa [hbefore] using C.count
    refine ⟨?_, ?_, ?_, ?_⟩
    · rw [actorPart_append, actorPart_actor]
      simpa [DeviceActor.isDraining, opened] using hcount
    · simpa using C.held
    · exact fun _ x hx => C.tokens hbefore x (htokens x hx)
    · rw [actorPart_append, actorPart_actor]
      exact C.attributed.append ⟨trivial, trivial⟩
  | served releases before after =>
    exact C.serves releases htags (DeviceActor.isDraining_of_select before) (DeviceActor.isDraining_of_select after)
      (by simp [releases.unasked]) htokens
  | left releases before shut exited =>
    exact C.serves releases htags before (by simp [DeviceActor.isDraining, exited])
      (by simp [releases.unasked]) htokens

theorem sent_head {ι : Type} {locale : Text} {s s' : Llm ι} {a : LlmAction ι} {o : List (LlmObs ι)}
    (hs : s.step locale a = some (s', o)) :
    sentBy o = [] ∨ a = .sent true ∧ ∃ x rest, s.outbox = x :: rest ∧ sentBy o = [x] := by
  cases Llm.step_cases hs with
  | sent => exact Or.inr ⟨rfl, _, _, rfl, rfl⟩
  | _ => exact Or.inl rfl

/-- **One step.** -/
theorem current_step {deps : AssistDeps} {h o : List AssistObs} {s s' : AssistSession} {a : AssistAction}
    (C : Current deps.env.statusTopic h s) (hcurrent : sendsCurrent s a = true)
    (hs : s.step deps a = some (s', o)) : Current deps.env.statusTopic (h ++ o) s' := by
  cases AssistSession.step_cases hs with
  | actor a actor obs hadmits hr => exact C.actor hadmits hr
  | router a router obs hoffers hr => exact C.queue rfl rfl (by simp) (fun x hx => Or.inl hx)
  | sendPrompt n prompt rest hhead => exact C.queue rfl rfl rfl (fun x hx => Or.inl hx)
  | sendToken n m rest hhead =>
    simp only [sendsCurrent, hhead, Bool.or_eq_true, decide_eq_true_eq] at hcurrent
    refine C.queue rfl rfl rfl ?_
    intro x hx
    rcases List.mem_append.mp hx with hx | hx
    · exact Or.inl hx
    · rw [List.mem_singleton.mp hx]
      exact Or.inr hcurrent
  | sendFailed => exact C.queue rfl rfl rfl (fun x hx => Or.inl hx)
  | llm _ b prompts llm obs hown hr =>
    refine C.queue rfl rfl (by simp) ?_
    intro x hx
    rcases List.mem_append.mp hx with hx | hx
    · exact Or.inl hx
    · rcases sent_head hr with hnone | ⟨rfl, y, rest, hout, hsent⟩
      · rw [hnone] at hx
        cases hx
      · rw [hsent, List.mem_singleton] at hx
        subst hx
        rcases hown with rfl | ⟨-, n, prompt, hprompt⟩
        · simp only [sendsCurrent, hout, Bool.or_eq_true, decide_eq_true_eq] at hcurrent
          exact Or.inr hcurrent
        · cases hprompt
  | shutdown => exact C.queue rfl rfl rfl (fun x hx => Or.inl hx)

/-- **Attribution.** Over every run in which nothing is put on the token channel
for an earlier question once the drain of a newer one is over: between two
`in progress`, everything published comes from the question's own text or
`AnswerEnd`, from the timeout or from the exit. -/
theorem answers_attributed (deps : AssistDeps) (as : List AssistAction) (s : AssistSession) (h : List AssistObs)
    (hrun : (AssistSession.machine deps).run AssistSession.init as = some (s, h))
    (hcurrent : (AssistSession.machine deps).Along (fun _ s a => sendsCurrent s a = true) []
      AssistSession.init as) :
    Attributed deps.env.statusTopic 0 (actorPart h) := by
  have hinv := Machine.run_invariant_along (M := AssistSession.machine deps)
    (P := Current deps.env.statusTopic) (C := fun _ s a => sendsCurrent s a = true)
    (fun _ _ _ _ _ C hc hs => current_step C hc hs) as [] AssistSession.init s h
    (current_init _) hcurrent hrun
  exact hinv.attributed

/-! ## The numbers -/

/-- The question taken and not handed on yet. -/
def inHand {ι : Type} (s : DeviceActor ι) : Nat :=
  match s.phase with
  | .draining _ | .forwarding _ => 1
  | .select | .exited => 0

/-- The questions taken are the router's utterances, the transcripts queued, and
the one in hand. -/
structure NumberedQuestions (s : AssistSession) : Prop where
  finals : ∀ t ∈ s.transcripts, t.isFinal = true
  taken : s.router.finals + s.transcripts.length ≤ s.asked
  current : s.actor.phase ≠ .exited →
    s.router.finals + s.transcripts.length + inHand s.actor = s.asked

theorem forwardedIn_of_releases {env : ActorEnv} {s s' : DeviceActor Nat} {o : List (ActorObs Nat)}
    (R : Releases env s s' o) : forwardedIn o = [] := by
  apply List.filterMap_eq_nil_iff.mpr
  intro x hx
  obtain ⟨topic, payload, cause, rfl⟩ := R.published x hx
  rfl

theorem router_finals {deps : RouterDeps} {s s' : RouterSys} {a : RouterAction} {o : List RouterObs}
    (hfinal : ∀ t rules llmOpen, a = .transcript t rules llmOpen → t.isFinal = true)
    (hs : s.step deps a = some (s', o)) : s'.finals = s.finals + transcriptsTaken a := by
  obtain ⟨-, hstep⟩ := RouterSys.step_cases hs
  cases hstep with
  | partial_ t rules llmOpen hp =>
    rw [hfinal t rules llmOpen rfl] at hp
    cases hp
  | final t rules llmOpen hrx hf => rw [applyTurn_finals]; rfl
  | report b i t result htask hby hroom => rcases hby with rfl | ⟨rfl, -, -⟩ <;> rfl
  | _ => rfl

theorem NumberedQuestions.actor {deps : AssistDeps} {s : AssistSession} {a : ActorAction Nat}
    {actor : DeviceActor Nat} {o : List (ActorObs Nat)} (N : NumberedQuestions s)
    (hs : s.actor.step deps.env a = some (actor, o)) :
    NumberedQuestions
      { s with actor := actor, asked := s.asked + (questionsIn o).length,
               tokens := s.tokens.drop (tokensTaken a), transcripts := s.transcripts ++ forwardedIn o } := by
  obtain ⟨hfinals, htaken, hcurrent⟩ := N
  cases DeviceActor.loader_cases hs with
  | asked text hsame hready hdraining hdropped =>
    have hnow := hcurrent (by simp [hready])
    simp only [inHand, hready] at hnow
    refine ⟨by simpa [forwardedIn] using hfinals, ?_, ?_⟩
    · simp [forwardedIn]
      omega
    · intro _
      simp [forwardedIn, inHand, hdraining]
      omega
  | opened text hwaits hdrained hrunning hkept =>
    have hnow := hcurrent (by simp [hdrained])
    simp only [inHand, hdrained] at hnow
    have hnone : forwardedIn [DeviceActor.publishStatus deps.env inProgress .question,
        .event (.transcriptFinal deps.env.session text)] = [] := rfl
    simp only [hnone, questionsIn_opened, List.append_nil, List.length_nil, Nat.add_zero]
    refine ⟨hfinals, htaken, ?_⟩
    intro _
    simp only [inHand, hrunning]
    omega
  | waited tag msg hsame hdraining =>
    subst hsame
    exact ⟨by simpa [forwardedIn] using hfinals, by simpa [forwardedIn, questionsIn] using htaken,
      by simpa [forwardedIn, questionsIn] using hcurrent⟩
  | handedOn text hforwarding hsame =>
    subst hsame
    -- the transcript in hand is the last that was asked
    have hnow := hcurrent (by simp [hforwarding])
    simp only [inHand, hforwarding] at hnow
    refine ⟨?_, ?_, ?_⟩
    · refine List.forall_mem_append.mpr ⟨hfinals, ?_⟩
      exact List.forall_mem_singleton.mpr rfl
    · simp [forwardedIn]
      omega
    · intro _
      simp [forwardedIn, inHand]
      omega
  | served releases before after =>
    have hnow := hcurrent (by simp [before])
    simp only [inHand, before] at hnow
    simp only [releases.unasked, forwardedIn_of_releases releases, List.append_nil, List.length_nil,
      Nat.add_zero]
    refine ⟨hfinals, htaken, ?_⟩
    intro _
    simpa [inHand, after] using hnow
  | left releases before shut exited =>
    simp only [releases.unasked, forwardedIn_of_releases releases, List.append_nil, List.length_nil,
      Nat.add_zero]
    exact ⟨hfinals, htaken, fun h => absurd exited h⟩

theorem NumberedQuestions.router {deps : AssistDeps} {s : AssistSession} {a : RouterAction} {router : RouterSys}
    {o : List RouterObs} (N : NumberedQuestions s) (hoffers : s.offers a = true)
    (hs : s.router.step deps.router a = some (router, o)) :
    NumberedQuestions
      { s with router := router, routerOut := s.routerOut ++ sendsIn o,
               transcripts := s.transcripts.drop (transcriptsTaken a) } := by
  obtain ⟨hfinals, htaken, hcurrent⟩ := N
  have hhead : ∀ t rules llmOpen, a = .transcript t rules llmOpen → s.transcripts.head? = some t := by
    intro t rules llmOpen heq
    subst heq
    simp only [AssistSession.offers, Bool.and_eq_true, decide_eq_true_eq] at hoffers
    exact hoffers.2
  have hone : router.finals = s.router.finals + transcriptsTaken a :=
    router_finals (fun t rules llmOpen heq => hfinals t (List.mem_of_head? (hhead t rules llmOpen heq))) hs
  -- what the router takes leaves the channel
  have hlength : (s.transcripts.drop (transcriptsTaken a)).length + transcriptsTaken a = s.transcripts.length := by
    rw [List.length_drop]
    cases a with
    | transcript t rules llmOpen =>
      obtain ⟨rest, hrest⟩ := List.head?_eq_some_iff.mp (hhead t rules llmOpen rfl)
      simp [transcriptsTaken, hrest]
    | _ => rfl
  refine ⟨fun t ht => hfinals t (List.mem_of_mem_drop ht), ?_, ?_⟩
  · simp only [hone]
    omega
  · intro hrunning
    have hnow := hcurrent hrunning
    simp only [hone]
    omega

/-- **The numbers.** In every state a run reaches, the questions taken are the
utterances the router has numbered, the transcripts on their way to it, and the
one in the actor's hand; only an actor that leaves drops one. -/
theorem questions_numbered (deps : AssistDeps) (as : List AssistAction) (s : AssistSession) (h : List AssistObs)
    (hrun : (AssistSession.machine deps).run AssistSession.init as = some (s, h)) : NumberedQuestions s := by
  refine Machine.run_invariant (M := AssistSession.machine deps) (P := fun _ s => NumberedQuestions s)
    ?_ (h := []) ⟨by simp [AssistSession.init], le_refl _, fun _ => rfl⟩ hrun
  intro h s a s' o N hs
  cases AssistSession.step_cases hs with
  | actor a actor obs hadmits hr => exact N.actor hr
  | router a router obs hoffers hr => exact N.router hoffers hr
  | _ => exact ⟨N.finals, N.taken, N.current⟩

/-- The mini-pipeline of a kitchen's device; nothing matches a rule. -/
def kitchenDeps : AssistDeps :=
  { topicPrefix := "assist".toList, device := "kitchen".toList,
    router := { timeDeps with matcher := fun _ _ _ => none } }

/-- A story is asked for, and the LLM is at it; then the time is asked. The
story's first sentence comes once the drain is over. -/
def storyStreamsOn : List AssistAction :=
  [.actor (.question "tell me a story".toList), .actor .drained, .actor (.forwarded true),
   .router (.transcript ⟨"tell me a story".toList, true⟩ .new true), .routerSend true, .llmPrompt,
   .llm (.completed true),
   .actor (.question "what time is it".toList), .actor .drained, .actor (.forwarded true),
   .llm (.item (.token "Once.".toList)), .llm (.sent true)]

/-- The actor takes the story's sentence. -/
def takeStory : AssistAction := .actor (.token 1 (.token "Once.".toList))

/-- The story is published as the answer about the time, and releases its loader. -/
theorem stale_answer : ∃ s h s' o,
    (AssistSession.machine kitchenDeps).run AssistSession.init storyStreamsOn = some (s, h) ∧
      opened kitchenDeps.env.statusTopic (actorPart h) = 2 ∧
      (AssistSession.machine kitchenDeps).step s takeStory = some (s', o) ∧
      o = [.actor (.publish kitchenDeps.env.ttsTopic (textPayload "Once.".toList) (.text [1])),
           .actor (.publish kitchenDeps.env.statusTopic (statusPayload done) (.text [1]))] ∧
      ¬ Attributed kitchenDeps.env.statusTopic 0 (actorPart (h ++ o)) := by
  refine ⟨_, _, _, _, rfl, by decide, rfl, rfl, by decide⟩

/-- The story is told to its end before the time is asked. -/
def storyTold : List AssistAction :=
  [.actor (.question "tell me a story".toList), .actor .drained, .actor (.forwarded true),
   .router (.transcript ⟨"tell me a story".toList, true⟩ .new true), .routerSend true, .llmPrompt,
   .llm (.completed true), .llm (.item (.token "Once.".toList)), .llm (.sent true),
   .llm (.item .finish), .llm (.sent true), .actor (.token 1 (.token "Once.".toList)),
   .actor (.question "what time is it".toList), .actor (.drain 1 .answerEnd), .actor .drained,
   .actor (.forwarded true), .actor .answerTimeout]

/-- There every publication is of its question. -/
theorem storyTold_attributed : ∃ s h,
    (AssistSession.machine kitchenDeps).run AssistSession.init storyTold = some (s, h) ∧
      opened kitchenDeps.env.statusTopic (actorPart h) = 2 ∧
      Attributed kitchenDeps.env.statusTopic 0 (actorPart h) := by
  refine ⟨_, _, rfl, by decide, ?_⟩
  exact answers_attributed kitchenDeps storyTold _ _ rfl (by decide)

end AthenaVoice.Assist
