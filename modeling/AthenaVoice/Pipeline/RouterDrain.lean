import AthenaVoice.Pipeline.RouterLedger

/-
  The router's exit

  "Exit only once the transcript stream is drained AND no dispatch is still in
  flight — otherwise the outcome would be lost", says the loop. Its test looks
  at the pending slot, which holds the newest dispatch only: a barge-in takes
  the slot while the superseded dispatch is still in flight.

  What is proved:
    1. `outcome_lost` — a dispatch superseded by an utterance that goes to the
       LLM is in flight with an empty slot; the transcript channel closes, and
       the router is gone before the outcome arrives.
    2. `router_drain_iff` — a run without cancellation exits with nothing in
       flight iff each of its steps that can end the loop is taken with nothing
       else in flight.
-/

namespace AthenaVoice.Pipeline

open Lib CoreTypes Intent
open Sdk (SkillResponse SkillResult SkillError)

/-- The router is not gone before every outcome is handled. -/
def NothingLost (s : RouterSys) : Prop := s.exited = true → s.flights = []

/-- The utterance goes to the LLM: no match, or no dispatcher. -/
def forwards (deps : RouterDeps) (t : Transcript) (rules : RuleIndex) : Bool :=
  (deps.matcher t.text deps.locale rules).isNone || !deps.dispatcher

/-- The steps that can end the loop, and what must hold of them: the close of
the transcript channel with an empty slot, and a prompt to a closed LLM
channel, come with nothing in flight; the outcome that empties the slot after
the close is the last one in flight. -/
def DrainSafe (deps : RouterDeps) (s : RouterSys) : RouterAction → Prop
  | .closed => s.router.pendingDispatch = none → s.flights = []
  | .outcome _ => ∀ o rest, s.outcomes = o :: rest → s.router.rxClosed = true →
      (s.router.clearPending o).pendingDispatch = none → s.flights.length = 1
  | .transcript t rules llmOpen =>
    t.isFinal = true → llmOpen = false → forwards deps t rules = true → s.flights = []
  | .finish .. | .abandon .. | .cancel => True

theorem onFinal_dispatches (deps : RouterDeps) (st : RouterState) (t : Transcript) (rules : RuleIndex)
    (token : Nat) (llmOpen : Bool) :
    (∃ d, (onFinal deps st t rules token llmOpen).next = .dispatch d) ↔ forwards deps t rules = false := by
  have hprompt : ∀ events cancelled prompt,
      ¬ ∃ d, (sendPrompt llmOpen st.supersede events cancelled prompt).next = .dispatch d := by
    intro events cancelled prompt h
    obtain ⟨d, hd⟩ := h
    cases llmOpen <;> cases hd
  unfold onFinal forwards
  cases deps.matcher t.text deps.locale rules with
  | none => simpa using hprompt _ _ _
  | some m =>
    simp only
    split
    · rename_i hd
      simp [hd]
    · rename_i hd
      split
      · simpa [hd] using hprompt _ _ _
      · simpa [hd] using hprompt _ _ _

/-- **One step.** A step of a running router keeps every outcome iff it is safe. -/
theorem nothingLost_step_iff {deps : RouterDeps} {s s' : RouterSys} {a : RouterAction} {o : List RouterObs}
    (ha : a ≠ .cancel) (hs : (RouterSys.machine deps).step s a = some (s', o)) : NothingLost s' ↔
      DrainSafe deps s a := by
  obtain ⟨hrun, hstep⟩ := RouterSys.step_cases hs
  unfold NothingLost
  cases hstep with
  | partial_ t rules llmOpen hp =>
    refine ⟨?_, ?_⟩
    · intro _ hf
      rw [hp] at hf
      cases hf
    · intro _ he
      rw [hrun] at he
      cases he
  | final t rules llmOpen hrx hfinal =>
    -- a final ends the router only where the language model is gone; what is in flight then is lost
    have hturn := onFinal_turn deps s.router t rules (s.finals + 1) llmOpen
    have hflights := flights_applyTurn s (onFinal deps s.router t rules (s.finals + 1) llmOpen)
    have hdispatch := onFinal_dispatches deps s.router t rules (s.finals + 1) llmOpen
    cases hturn with
    | dispatched skill intent hnext hst =>
      have hfwd : forwards deps t rules = false := hdispatch.mp ⟨_, hnext⟩
      refine ⟨fun _ _ _ hf => (by rw [hfwd] at hf; cases hf), fun _ he => ?_⟩
      simp [RouterSys.applyTurn, hnext, hst, drained, hrx] at he
    | prompted text up hnext hst =>
      refine ⟨fun _ _ hdown => (by rw [up] at hdown; cases hdown), fun _ he => ?_⟩
      simp [RouterSys.applyTurn, hnext, hst, drained, hrx] at he
    | llmGone down hnext hst =>
      rw [hnext] at hflights
      have hexit : (s.applyTurn (onFinal deps s.router t rules (s.finals + 1) llmOpen)).exited = true := by
        simp [RouterSys.applyTurn, hnext]
      have hfwd : forwards deps t rules = true := by
        by_contra hf
        obtain ⟨d, hd⟩ := hdispatch.mpr (by simpa using hf)
        rw [hnext] at hd
        cases hd
      refine ⟨fun h _ _ _ => ?_, fun h _ => ?_⟩
      · rw [← List.nil_perm, ← h hexit]
        exact hflights
      · have hnil := h hfinal down hfwd
        simp only [hnil, List.perm_nil] at hflights
        exact hflights
  | closed hrx =>
    refine ⟨fun h hnone => h (by simp [drained, hnone]), fun h he => h ?_⟩
    simpa [drained] using he
  | report a i t result htask hby hroom =>
    have hsafe : DrainSafe deps s a := by
      rcases hby with rfl | ⟨rfl, -, -⟩ <;> trivial
    exact ⟨fun _ => hsafe, fun _ he => by rw [hrun] at he; cases he⟩
  | outcome links out rest hhead =>
    obtain ⟨-, hrx, hpending⟩ := handleOutcome_state deps links s.router out
    -- the last outcome taken is the one after which nothing is pending
    have hexit : drained (handleOutcome deps links s.router out).state = true ↔
        s.router.rxClosed = true ∧ (s.router.clearPending out).pendingDispatch = none := by
      simp [drained, hrx, hpending]
    have hlen : s.flights.length =
        (s.tasks.map (fun t => (t.dispatch.token, t.dispatch.epoch)) ++
          rest.map (fun o => (o.token, o.epoch))).length + 1 := by
      simp [RouterSys.flights, hhead]
      omega
    refine ⟨?_, ?_⟩
    · intro h o' rest' ho hc hnone
      rw [hhead] at ho
      cases ho
      have hnil := h (hexit.mpr ⟨hc, hnone⟩)
      rw [hlen]
      exact congrArg (fun l => List.length l + 1) hnil
    · intro h he
      obtain ⟨hc, hnone⟩ := hexit.mp he
      have hone := h out rest hhead hc hnone
      exact List.eq_nil_of_length_eq_zero (by
        show (s.tasks.map (fun t => (t.dispatch.token, t.dispatch.epoch)) ++
          rest.map (fun o => (o.token, o.epoch))).length = 0
        omega)
  | cancel => exact absurd rfl ha

/-- **The drain.** Over every run without cancellation: the router is never
gone with an outcome outstanding iff every step of the run is safe. -/
theorem router_drain_iff (deps : RouterDeps) (as : List RouterAction) (s : RouterSys) (h : List RouterObs)
    (hrun : (RouterSys.machine deps).run RouterSys.init as = some (s, h))
    (hcancel : ∀ a ∈ as, a ≠ .cancel) :
    (RouterSys.machine deps).Throughout (fun _ s => NothingLost s) [] RouterSys.init as ↔
      (RouterSys.machine deps).Along (fun _ s a => DrainSafe deps s a) [] RouterSys.init as := by
  rw [Machine.throughout_iff_along as [] RouterSys.init (fun he => by cases he)]
  refine Machine.along_congr (P := fun _ _ => True) (fun _ _ _ _ _ _ _ => trivial) as [] RouterSys.init s h
    ?_ trivial hrun
  intro a ha h₁ s₁ s₂ o _ hs
  rw [← nothingLost_step_iff (hcancel a ha) hs]
  refine ⟨fun hall => hall s₂ o hs, ?_⟩
  intro hlost s₃ o₃ hs₃
  rw [hs] at hs₃
  cases hs₃
  exact hlost

/-- A session where only the time is a skill's. -/
def timeDeps : RouterDeps :=
  { clockDeps with matcher := fun text locale rules =>
      if text = "what time is it".toList then clockDeps.matcher text locale rules else none }

/-- The time is asked, then something for the LLM; the transcript channel
closes before the skill has answered. -/
def closedTooSoon : List RouterAction :=
  [.transcript ⟨"what time is it".toList, true⟩ .new true,
   .transcript ⟨"tell me a story".toList, true⟩ .new true, .closed]

/-- The router is gone, the first dispatch still in flight. -/
theorem outcome_lost :
    (∀ a ∈ closedTooSoon, a ≠ .cancel) ∧
      (∃ s h, (RouterSys.machine timeDeps).run RouterSys.init closedTooSoon = some (s, h)) ∧
      ¬ (RouterSys.machine timeDeps).Throughout (fun _ s => NothingLost s) [] RouterSys.init closedTooSoon := by
  refine ⟨by simp [closedTooSoon], ⟨_, _, rfl⟩, ?_⟩
  intro hall
  have hlast := Machine.throughout_last closedTooSoon [] RouterSys.init _ _ hall rfl
  have hflights := hlast (by decide)
  exact absurd hflights (by decide)

/-- The equivalence at that run. -/
theorem router_drain_closedTooSoon :
    (RouterSys.machine timeDeps).Throughout (fun _ s => NothingLost s) [] RouterSys.init closedTooSoon ↔
      (RouterSys.machine timeDeps).Along (fun _ s a => DrainSafe timeDeps s a) [] RouterSys.init
        closedTooSoon :=
  router_drain_iff timeDeps closedTooSoon _ _ rfl (by simp [closedTooSoon])

end AthenaVoice.Pipeline
