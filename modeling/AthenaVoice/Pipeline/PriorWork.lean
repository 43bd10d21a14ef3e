import AthenaVoice.Pipeline.BargeIn

/-
  When a barge-in is announced

  A barge-in says that "a new user utterance interrupted work still in flight
  for the previous one". The router decides it by its pending slot, which an
  outcome empties, and by a flag, set when speech or a prompt is handed on and
  cleared by the next barge-in only: nothing tells the router that an answer
  has been spoken to its end.

  What is proved:
    1. `pendingBacked_step` — the pending slot is backed by a dispatch in flight.
    2. `priorWork_step` — the flag says that something has been handed on since
       the last barge-in.
    3. `bargeIn_outstanding_iff` — the barge-ins of a run each find work
       outstanding iff no final transcript arrives with something handed on and
       nothing outstanding.
    4. `bargeIn_after_answer` — the next question after a complete answer.
-/

namespace AthenaVoice.Pipeline

open Lib CoreTypes Intent
open Sdk (SkillResponse SkillResult SkillError)

/-! ## The pending slot -/

/-- The pending dispatch is spawned and has not reported, or its outcome waits. -/
def PendingBacked (s : RouterSys) : Prop :=
  ∀ p, s.router.pendingDispatch = some p →
    (∃ t ∈ s.tasks, t.dispatch.epoch = p.epoch ∧ t.dispatch.skill = p.skill) ∨
      ∃ o ∈ s.outcomes, o.epoch = p.epoch ∧ o.skill = p.skill

theorem PendingBacked.flights_ne_nil {s : RouterSys} (B : PendingBacked s)
    (hp : s.router.pendingDispatch.isSome = true) : s.flights ≠ [] := by
  obtain ⟨p, hp⟩ := Option.isSome_iff_exists.mp hp
  unfold RouterSys.flights
  rcases B p hp with ⟨t, ht, -⟩ | ⟨o, ho, -⟩
  · exact List.append_ne_nil_of_left_ne_nil (by simpa using List.ne_nil_of_mem ht) _
  · exact List.append_ne_nil_of_right_ne_nil _ (by simpa using List.ne_nil_of_mem ho)

theorem pendingBacked_step {deps : RouterDeps} {s s' : RouterSys} {a : RouterAction} {o : List RouterObs}
    (B : PendingBacked s) (hs : s.step deps a = some (s', o)) : PendingBacked s' := by
  obtain ⟨-, hstep⟩ := RouterSys.step_cases hs
  cases hstep with
  | partial_ t rules llmOpen hp => exact B
  | final t rules llmOpen hrx hfinal =>
    intro p hp
    rw [applyTurn_router] at hp
    cases onFinal_turn deps s.router t rules (s.finals + 1) llmOpen with
    | dispatched skill intent hnext hstate =>
      rw [hstate] at hp
      cases hp
      -- the new pending dispatch is that of the task just spawned
      let d : Dispatch :=
        { token := s.finals + 1, epoch := epochSucc s.router.epoch, skill := skill, intent := intent }
      refine Or.inl ⟨{ dispatch := d, cancelled := false }, ?_, rfl, rfl⟩
      simp [RouterSys.applyTurn, hnext, d]
    | prompted text up hnext hstate =>
      rw [hstate] at hp
      cases hp
    | llmGone down hnext hstate =>
      rw [hstate] at hp
      cases hp
  | closed hrx => exact B
  | report b i t result htask hby hroom =>
    intro p hp
    rcases B p hp with ⟨t', ht', heq⟩ | ⟨o', ho', heq⟩
    -- the task that reports may be the one: then its outcome is
    · rcases List.mem_cons.mp ((tasks_perm htask).mem_iff.mp ht') with rfl | ht'
      · exact Or.inr ⟨t'.outcome result, List.mem_append_right _ (List.mem_singleton_self _), heq⟩
      · exact Or.inl ⟨t', ht', heq⟩
    · exact Or.inr ⟨o', List.mem_append_left _ ho', heq⟩
  | outcome links out rest hhead =>
    obtain ⟨-, -, hpending⟩ := handleOutcome_state deps links s.router out
    intro p hp
    have hp' : (s.router.clearPending out).pendingDispatch = some p := hpending.symm.trans hp
    unfold RouterState.clearPending at hp'
    split at hp'
    · cases hp'
    · rename_i hother
      rw [hp'] at hother
      rcases B p hp' with ⟨t, ht, heq⟩ | ⟨o', ho', heq⟩
      · exact Or.inl ⟨t, ht, heq⟩
      · rw [hhead] at ho'
        rcases List.mem_cons.mp ho' with rfl | ho'
        · simp [heq.1, heq.2] at hother
        · exact Or.inr ⟨o', ho', heq⟩
  | cancel => exact B

/-! ## The flag -/

/-- What an observation says of work handed on: a prompt, or text for the TTS
stage, since the last barge-in. -/
def noteWork (handed : Bool) : RouterObs → Bool
  | .event _ e => !e.isBargeIn && handed
  | .send _ (.llm _) => true
  | .send _ (.tts (.token _)) => true
  | _ => handed

theorem noteWork_events (n : Nat) : ∀ (events : List Event) (handed : Bool),
    (events.map (.event n)).foldl noteWork handed = (!events.any Event.isBargeIn && handed) := by
  intro events
  induction events with
  | nil => intro handed; simp
  | cons e events ih =>
    intro handed
    rw [List.map_cons, List.foldl_cons, ih, List.any_cons]
    simp only [noteWork]
    cases e.isBargeIn <;> simp

@[simp] theorem clearPending_priorWork (st : RouterState) (o : DispatchOutcome) :
    (st.clearPending o).priorWorkInFlight = st.priorWorkInFlight := by
  unfold RouterState.clearPending
  split <;> rfl

theorem priorWork_outcome (deps : RouterDeps) (st : RouterState) (out : DispatchOutcome) :
    (outcomeObs out.token (handleOutcome deps .up st out)).foldl noteWork st.priorWorkInFlight =
      (handleOutcome deps .up st out).state.priorWorkInFlight := by
  unfold handleOutcome outcomeObs
  simp only
  split
  · simp [noteWork, Event.isBargeIn]
  · cases out.result with
    | err e => simp [answer, answerEnd, Links.up, noteWork]
    | ok r => cases r <;> simp [answer, answerEnd, Links.up, noteWork, Event.isBargeIn]

/-- **One step.** The flag says whether work has been handed on since the last
barge-in. -/
theorem priorWork_step {deps : RouterDeps} {s s' : RouterSys} {a : RouterAction} {o : List RouterObs}
    (ha : a.attached = true) (hs : s.step deps a = some (s', o)) :
    o.foldl noteWork s.router.priorWorkInFlight = s'.router.priorWorkInFlight := by
  obtain ⟨-, hstep⟩ := RouterSys.step_cases hs
  cases hstep with
  | final t rules llmOpen hrx hfinal =>
    cases ha
    have hclear : (!s.router.hasPriorWork && s.router.priorWorkInFlight) = false := by
      unfold RouterState.hasPriorWork
      cases s.router.priorWorkInFlight <;> simp
    rw [applyTurn_router]
    unfold RouterSys.turnObs
    rw [List.foldl_cons, List.foldl_append, noteWork_events, onFinal_bargeIn]
    show List.foldl noteWork (!s.router.hasPriorWork && s.router.priorWorkInFlight) _ = _
    rw [hclear]
    cases onFinal_turn deps s.router t rules (s.finals + 1) true with
    | dispatched skill intent hnext hstate => rw [hnext, hstate]; rfl
    | prompted text up hnext hstate => rw [hnext, hstate]; rfl
    | llmGone down hnext hstate => cases down
  | outcome links out rest hhead =>
    have hup : links = .up := by simpa [RouterAction.attached] using ha
    rw [hup]
    exact priorWork_outcome deps s.router out
  | cancel => cases ha
  | _ => rfl

/-! ## The barge-in -/

/-- The observation is a barge-in. -/
def RouterObs.isBargeIn : RouterObs → Bool
  | .event _ e => e.isBargeIn
  | _ => false

/-- The router takes a final transcript. -/
def RouterAction.isFinal : RouterAction → Bool
  | .transcript t _ _ => t.isFinal
  | _ => false

theorem turnObs_isBargeIn (n : Nat) (turn : Turn) :
    (RouterSys.turnObs n turn).any RouterObs.isBargeIn = turn.events.any Event.isBargeIn := by
  unfold RouterSys.turnObs
  cases turn.next <;> simp [RouterObs.isBargeIn, Function.comp_def]

theorem router_announces {deps : RouterDeps} {s s' : RouterSys} {a : RouterAction} {o : List RouterObs}
    (hs : s.step deps a = some (s', o)) :
    o.any RouterObs.isBargeIn = (a.isFinal && s.router.hasPriorWork) := by
  obtain ⟨-, hstep⟩ := RouterSys.step_cases hs
  cases hstep with
  | partial_ t rules llmOpen hp => simp [RouterAction.isFinal, hp]
  | final t rules llmOpen hrx hfinal =>
    rw [turnObs_isBargeIn, onFinal_bargeIn, RouterAction.isFinal, hfinal, Bool.true_and]
  | closed hrx => rfl
  | report b i t result htask hby hroom =>
    rcases hby with rfl | ⟨rfl, -, -⟩ <;> rfl
  | outcome links out rest hhead =>
    rw [show RouterAction.isFinal (.outcome links) = false from rfl, Bool.false_and, List.any_eq_false]
    intro x hx
    cases x with
    | event n e =>
      intro hbarge
      have hfinals := (router_bargeIn hs hbarge hx).2.1
      exact absurd hfinals (Nat.ne_of_lt (Nat.lt_succ_self s.finals))
    | _ => simp [RouterObs.isBargeIn]
  | cancel => rfl

/-! ## Work outstanding -/

def routerPart (h : List SessionObs) : List RouterObs :=
  h.filterMap (fun x => match x with | .router o => some o | _ => none)

/-- Something has been handed on since the last barge-in. -/
def handedOn (h : List SessionObs) : Bool := (routerPart h).foldl noteWork false

theorem handedOn_append (h o : List SessionObs) :
    handedOn (h ++ o) = (routerPart o).foldl noteWork (handedOn h) := by
  simp [handedOn, routerPart]

theorem routerPart_map (o : List RouterObs) : routerPart (o.map .router) = o := by
  simp [routerPart, List.filterMap_map]

theorem routerPart_eq_nil {o : List SessionObs} (h : ∀ x, .router x ∉ o) : routerPart o = [] := by
  apply List.filterMap_eq_nil_iff.mpr
  intro x hx
  cases x with
  | router y => exact absurd hx (h y)
  | _ => rfl

/-- The utterance for which an observation sends text to the TTS stage, if it does. -/
def SessionObs.textOf : SessionObs → Option Nat
  | .router (.send n (.tts (.token _))) => some n
  | .llm (.sent n (.token _)) => some n
  | _ => none

/-- A prompt is on its way, or the LLM task is at one. -/
def Session.promptUnderWay (s : Session) : Bool :=
  s.routerOut.any (fun x => match x.2 with | .llm _ => true | .tts _ => false) || !s.prompts.isEmpty ||
    s.llm.phase ≠ .idle

/-- A dispatch is not resolved, a prompt's stream has not ended, or some
utterance's text has not been followed by its `AnswerEnd` at the sink. -/
def Outstanding (h : List SessionObs) (s : Session) : Prop :=
  s.router.flights ≠ [] ∨ s.promptUnderWay = true ∨
    ∃ u ∈ h.filterMap SessionObs.textOf, .played [u] .answerEnd ∉ h

instance (h : List SessionObs) (s : Session) : Decidable (Outstanding h s) :=
  inferInstanceAs (Decidable (_ ∨ _ ∨ _))

def announces (o : List SessionObs) : Bool := (routerPart o).any RouterObs.isBargeIn

/-- The router takes a final transcript. -/
def SessionAction.isFinal : SessionAction → Bool
  | .router a => RouterAction.isFinal a
  | _ => false

/-- The flag and the pending slot mean what they say. -/
structure RouterNotes (h : List SessionObs) (s : Session) : Prop where
  flag : s.router.router.priorWorkInFlight = handedOn h
  backed : PendingBacked s.router

theorem routerNotes_init : RouterNotes [] Session.init where
  flag := rfl
  backed := by intro p hp; cases hp

theorem routerNotes_step {deps : SessionDeps} {h o : List SessionObs} {s s' : Session} {a : SessionAction}
    (N : RouterNotes h s) (hs : s.step deps a = some (s', o)) : RouterNotes (h ++ o) s' := by
  rcases router_cases hs with ⟨b, obs, -, hattached, hr, rfl⟩ | ⟨-, hr, hno⟩
  · refine ⟨?_, pendingBacked_step N.backed hr⟩
    rw [handedOn_append, routerPart_map, ← N.flag]
    exact (priorWork_step hattached hr).symm
  · refine ⟨?_, by rw [hr]; exact N.backed⟩
    rw [handedOn_append, routerPart_eq_nil hno, hr]
    exact N.flag

theorem announces_eq {deps : SessionDeps} {s s' : Session} {a : SessionAction} {o : List SessionObs}
    (hs : s.step deps a = some (s', o)) :
    announces o = (a.isFinal && s.router.router.hasPriorWork) := by
  unfold announces
  rcases router_cases hs with ⟨b, obs, rfl, -, hr, rfl⟩ | ⟨hnot, -, hno⟩
  · rw [routerPart_map]
    exact router_announces hr
  · rw [routerPart_eq_nil hno]
    cases a with
    | router b => exact absurd rfl (hnot b)
    | _ => rfl

/-- **Barge-ins and outstanding work.** Over every run: each barge-in finds work
of an earlier utterance outstanding iff no final transcript arrives with work
handed on since the last barge-in and nothing outstanding. -/
theorem bargeIn_outstanding_iff (deps : SessionDeps) (as : List SessionAction) (s : Session)
    (h : List SessionObs) (hrun : (Session.machine deps).run Session.init as = some (s, h)) :
    (Session.machine deps).Along (fun h s a => ∀ s' o, (Session.machine deps).step s a = some (s', o) →
        announces o = true → Outstanding h s) [] Session.init as ↔
      (Session.machine deps).Along (fun h s a => a.isFinal = true → handedOn h = true → Outstanding h s) []
        Session.init as := by
  refine Machine.along_congr (P := RouterNotes) (fun _ _ _ _ _ N hs => routerNotes_step N hs) as []
    Session.init s h ?_ routerNotes_init hrun
  intro a _ h s s' o N hs
  have hann := announces_eq hs
  refine ⟨?_, ?_⟩
  · intro hbarge hfinal hhanded
    apply hbarge s' o hs
    rw [hann, hfinal, RouterState.hasPriorWork, N.flag, hhanded, Bool.or_true]
    rfl
  · intro hcond s₁ o₁ hs₁ hemits
    rw [hs] at hs₁
    cases hs₁
    rw [hann, Bool.and_eq_true, RouterState.hasPriorWork, Bool.or_eq_true] at hemits
    obtain ⟨hfinal, hpending | hflag⟩ := hemits
    · exact Or.inl (N.backed.flights_ne_nil hpending)
    · exact hcond hfinal (N.flag.symm.trans hflag)

/-- A story is asked for and told to its end; then the time is asked. -/
def askedAfterStory : List SessionAction :=
  [.router (.transcript ⟨"tell me a story".toList, true⟩ .new true), .routerSend,
   .llmPrompt, .llmCompleted true, .llmItem (.token "Once.".toList), .llmSend, .llmItem .finish, .llmSend,
   .ttsToken, .ttsSynthesized (some (.s16le, 22050)), .ttsSend, .ttsBus, .ttsBus,
   .ttsAudio (.chunk [1, 2]), .ttsSend, .ttsBus, .ttsAudio .finish, .ttsToken, .ttsSend,
   .sinkMsg, .sinkMsg, .sinkMsg]

def askTime : SessionAction := .router (.transcript ⟨"what time is it".toList, true⟩ .new true)

/-- The second question barges in on nothing. -/
theorem bargeIn_after_answer :
    (∃ s h s' o, (Session.machine storySession).run Session.init askedAfterStory = some (s, h) ∧
      ¬ Outstanding h s ∧ (Session.machine storySession).step s askTime = some (s', o) ∧
      announces o = true) ∧
    ¬ (Session.machine storySession).Along (fun h s a => ∀ s' o,
        (Session.machine storySession).step s a = some (s', o) → announces o = true → Outstanding h s) []
      Session.init (askedAfterStory ++ [askTime]) := by
  refine ⟨⟨_, _, _, _, rfl, by decide, rfl, by decide⟩, ?_⟩
  intro hall
  have hlast := Machine.along_last askedAfterStory askTime [] _ Session.init _ hall rfl
  exact absurd (hlast _ _ rfl (by decide)) (by decide)

/-- The equivalence at that run. -/
theorem bargeIn_outstanding_askedAfterStory :
    (Session.machine storySession).Along (fun h s a => ∀ s' o,
        (Session.machine storySession).step s a = some (s', o) → announces o = true → Outstanding h s) []
        Session.init (askedAfterStory ++ [askTime]) ↔
      (Session.machine storySession).Along
        (fun h s a => a.isFinal = true → handedOn h = true → Outstanding h s) [] Session.init
        (askedAfterStory ++ [askTime]) :=
  bargeIn_outstanding_iff storySession (askedAfterStory ++ [askTime]) _ _ rfl

end AthenaVoice.Pipeline
