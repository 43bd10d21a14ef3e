import AthenaVoice.Pipeline.Session
import AthenaVoice.Pipeline.RouterDrain

/-
  Barge-ins and the text they meet

  A barge-in is an event on the bus, text is a message on the token channel:
  neither says which utterance it serves, and the TTS task takes from either
  queue first. "Drop queued text: the previous response is dead", says the
  task; what it drops is what it holds, and what it goes on with is what is
  still queued.

  What is proved:
    1. `bargeIn_spares_newer` — while no token is taken ahead of a barge-in
       raised by its utterance or before, no barge-in drops text of its own
       utterance or a newer one.
    2. `own_answer_discarded` — taken ahead of it, the answer itself is dropped.
    3. `bargeIn_silences_older` — while nothing of an older utterance is in
       transit when a barge-in is acted on, nothing older is heard after it.
    4. `previous_answer_heard` — what is in transit is spoken, and completed.
-/

namespace AthenaVoice.Pipeline

open Lib CoreTypes Intent
open Sdk (SkillResponse SkillResult SkillError)

/-- The item is a barge-in of the session. -/
def BusItem.barges (session : SessionId) (item : BusItem) : Bool := isBargeInFor session item.event

theorem isBargeIn_of_barges {session : SessionId} {item : BusItem} {e : Event}
    (h : item.barges session = true) (he : item.event = some e) : e.isBargeIn = true := by
  unfold BusItem.barges at h
  rw [he] at h
  cases e <;> first | rfl | cases h

/-! ## What a step does to the router, the receiver and the text held -/

theorem router_cases {deps : SessionDeps} {s s' : Session} {a : SessionAction} {o : List SessionObs}
    (hs : s.step deps a = some (s', o)) :
    (∃ b obs, a = .router b ∧ b.attached = true ∧ s.router.step deps.router b = some (s'.router, obs) ∧
      o = obs.map .router) ∨
      ((∀ b, a ≠ .router b) ∧ s'.router = s.router ∧ ∀ x, .router x ∉ o) := by
  have htts : ∀ (n : Nat) (obs : List (TtsObs Nat)) (x : RouterObs), .router x ∉ obs.map (ttsObs n) := by
    intro n obs x hx
    obtain ⟨y, -, he⟩ := List.mem_map.mp hx
    cases y <;> cases he
  have hnoRouter : a.takesNothing = true → ∀ b, a ≠ .router b := by
    intro hown b heq
    rw [heq] at hown
    cases hown
  cases Session.step_cases hs with
  | router b router obs hattached hr => exact Or.inl ⟨b, obs, rfl, hattached, hr, rfl⟩
  | sendPrompt n prompt rest hhead => exact Or.inr ⟨by simp, rfl, by simp⟩
  | sendToken n m rest hhead => exact Or.inr ⟨by simp, rfl, by simp⟩
  | prompt n prompt rest llm obs hhead hr => exact Or.inr ⟨by simp, rfl, by simp⟩
  | llm _ b llm obs hown hprompt hr => exact Or.inr ⟨hnoRouter hown, rfl, by simp⟩
  | token n m rest tts obs hhead hr => exact Or.inr ⟨by simp, rfl, htts 0 obs⟩
  | bus item rest tts obs hhead hr => exact Or.inr ⟨by simp, rfl, htts _ obs⟩
  | tts _ b tts obs hown htoken hbus hr => exact Or.inr ⟨hnoRouter hown, rfl, htts 0 obs⟩
  | played tags m rest sink obs hhead hr => exact Or.inr ⟨by simp, rfl, by simp⟩
  | noise e hother => exact Or.inr ⟨by simp, rfl, by simp⟩
  | lag k => exact Or.inr ⟨by simp, rfl, by simp⟩

/-- A barge-in on the receiver was there before, or has just been raised by the
newest utterance. -/
theorem bus_cases {deps : SessionDeps} {s s' : Session} {a : SessionAction} {o : List SessionObs}
    (hs : s.step deps a = some (s', o)) {item : BusItem} (hmem : item ∈ s'.bus)
    (hbarge : item.barges deps.router.session = true) : item ∈ s.bus ∨
      (item.raisedBy = s'.router.finals ∧ s'.router.finals = s.router.finals + 1 ∧ s'.tts = s.tts) := by
  -- the TTS task's own events are no barge-ins
  have hecho : ∀ {b : TtsAction Nat} {tts : Tts Nat} {obs : List (TtsObs Nat)},
      s.tts.step deps.router.session b = some (tts, obs) → item ∉ echoesIn obs := by
    intro b tts obs hr hm
    obtain ⟨e, he, hobs⟩ := mem_echoesIn hm
    obtain ⟨-, -, hall⟩ := Tts.step_tags (P := fun _ => True) (Q := fun _ => True) (by simp) (by simp)
      (by simp) (by simp) hr
    have hno : e.isBargeIn = false := hall _ hobs
    rw [isBargeIn_of_barges hbarge he] at hno
    cases hno
  cases Session.step_cases hs with
  | router b router obs hattached hr =>
    rcases List.mem_append.mp hmem with hm | hm
    · exact Or.inl hm
    · obtain ⟨e, he, hobs⟩ := mem_eventsIn.mp hm
      obtain ⟨hn, hfinals, -⟩ := router_bargeIn hr (isBargeIn_of_barges hbarge he) hobs
      exact Or.inr ⟨hn, hfinals, rfl⟩
  | token n m rest tts obs hhead hr =>
    exact Or.inl ((List.mem_append.mp hmem).resolve_right (hecho hr))
  | bus head rest tts obs hhead hr =>
    rw [hhead]
    exact Or.inl (List.mem_cons_of_mem _ ((List.mem_append.mp hmem).resolve_right (hecho hr)))
  | tts _ b tts obs hown htoken hbus hr =>
    exact Or.inl ((List.mem_append.mp hmem).resolve_right (hecho hr))
  | noise e hother =>
    refine Or.inl ((List.mem_append.mp hmem).resolve_right ?_)
    intro hm
    rw [List.mem_singleton.mp hm] at hbarge
    rw [show BusItem.barges deps.router.session ⟨0, some e⟩ = false from hother] at hbarge
    cases hbarge
  | lag k =>
    rcases List.mem_cons.mp hmem with rfl | hm
    · cases hbarge
    · exact Or.inl (List.mem_of_mem_drop hm)
  | _ => exact Or.inl hmem

theorem text_step {P : Nat → Prop} {deps : SessionDeps} {s s' : Session} {a : SessionAction}
    {o : List SessionObs} (htext : ∀ t ∈ s.tts.textTags, P t)
    (htoken : a = .ttsToken → ∀ u t, s.tokens.head? = some (u, .token t) → P u)
    (hs : s.step deps a = some (s', o)) : ∀ t ∈ s'.tts.textTags, P t := by
  have hstep : ∀ {b : TtsAction Nat} {tts : Tts Nat} {obs : List (TtsObs Nat)},
      (∀ u t, b = .token u (.token t) → P u) → s.tts.step deps.router.session b = some (tts, obs) →
      ∀ t ∈ tts.textTags, P t := by
    intro b tts obs hb hr
    exact (Tts.step_tags (Q := fun _ => True) htext (by simp) (fun tag t h => hb tag t h) (by simp) hr).1
  cases Session.step_cases hs with
  | token n m rest tts obs hhead hr =>
    refine hstep ?_ hr
    intro u t heq
    cases heq
    exact htoken rfl _ _ (by rw [hhead]; rfl)
  | bus item rest tts obs hhead hr => exact hstep (by simp) hr
  | tts _ b tts obs hown htoken hbus hr => exact hstep (fun u t h => absurd h (htoken u (.token t))) hr
  | _ => exact htext

/-- A barge-in acted on was at the head of the receiver; what it drops is text
the TTS task held. -/
theorem barged_cases {deps : SessionDeps} {s s' : Session} {a : SessionAction} {o : List SessionObs}
    (hs : s.step deps a = some (s', o)) {n : Nat} {tags : List Nat} (h : .barged n tags ∈ o) :
    a = .ttsBus ∧ ∃ item, s.bus.head? = some item ∧ item.barges deps.router.session = true ∧
      n = item.raisedBy ∧ ∀ t ∈ tags, t ∈ s.tts.textTags := by
  -- an acted-on barge-in is what the session makes of text that the task discarded
  have hdiscarded : ∀ {k : Nat} {obs : List (TtsObs Nat)}, .barged n tags ∈ obs.map (ttsObs k) →
      n = k ∧ .discarded tags ∈ obs := by
    intro k obs hm
    obtain ⟨y, hy, he⟩ := List.mem_map.mp hm
    cases y <;> cases he
    exact ⟨rfl, hy⟩
  cases Session.step_cases hs with
  | router b router obs hattached hr => simp at h
  | prompt k prompt rest llm obs hhead hr => simp at h
  | llm _ b llm obs hown hprompt hr => simp at h
  | token k m rest tts obs hhead hr =>
    obtain ⟨ev, heq, -⟩ := Tts.discarded_cases hr (hdiscarded h).2
    cases heq
  | bus item rest tts obs hhead hr =>
    obtain ⟨rfl, hm⟩ := hdiscarded h
    obtain ⟨ev, heq, hbarge, htags⟩ := Tts.discarded_cases hr hm
    cases heq
    exact ⟨rfl, item, by rw [hhead]; rfl, hbarge, rfl, htags⟩
  | tts _ b tts obs hown htoken hbus hr =>
    obtain ⟨ev, heq, -⟩ := Tts.discarded_cases hr (hdiscarded h).2
    exact absurd heq (hbus ev)
  | played k m rest sink obs hhead hr => simp at h
  | sendPrompt k prompt rest hhead => cases h
  | sendToken k m rest hhead => cases h
  | noise e hother => cases h
  | lag k => cases h

/-- Everything in the session is of an utterance already heard. -/
structure Heard (s : Session) : Prop where
  flights : FlightsTaken s.router
  tagged : Tagged (fun t => t ≤ s.router.finals) s

theorem heard_init : Heard Session.init where
  flights := by intro f hf; cases hf
  tagged := tagged_init _

theorem session_finals_mono {deps : SessionDeps} {s s' : Session} {a : SessionAction} {o : List SessionObs}
    (hs : s.step deps a = some (s', o)) : s.router.finals ≤ s'.router.finals := by
  rcases router_cases hs with ⟨b, obs, -, -, hr, -⟩ | ⟨-, hr, -⟩
  · exact finals_mono hr
  · rw [hr]

theorem session_sends {deps : SessionDeps} {s s' : Session} {a : SessionAction} {o : List SessionObs}
    (H : Heard s) (hs : s.step deps a = some (s', o)) {n : Nat} {m : Send}
    (hm : .router (.send n m) ∈ o) :
    n ≤ s'.router.finals ∧ (Numbered s.router → n = s'.router.finals) := by
  rcases router_cases hs with ⟨b, obs, -, -, hr, rfl⟩ | ⟨-, -, hno⟩
  · exact router_sends H.flights hr (by simpa using hm)
  · exact absurd hm (hno _)

theorem heard_step {deps : SessionDeps} {s s' : Session} {a : SessionAction} {o : List SessionObs}
    (H : Heard s) (hs : s.step deps a = some (s', o)) : Heard s' := by
  have hmono := session_finals_mono hs
  refine ⟨?_, ?_⟩
  · rcases router_cases hs with ⟨b, obs, -, -, hr, -⟩ | ⟨-, hr, -⟩
    · exact flightsTaken_step H.flights hr
    · rw [hr]
      exact H.flights
  · have T : Tagged (fun t => t ≤ s'.router.finals) s := H.tagged.mono (fun n h => h.trans hmono)
    exact (T.step hs (fun n m hm => (session_sends H hs hm).1)).1

/-! ## What a barge-in drops -/

/-- No token is taken ahead of a barge-in raised by its own utterance or an
older one. -/
def bargeInsFirst (deps : SessionDeps) (s : Session) : SessionAction → Bool
  | .ttsToken =>
    match s.tokens.head? with
    | some (u, .token _) => s.bus.all (fun item => !item.barges deps.router.session || u < item.raisedBy)
    | _ => true
  | _ => true

/-- Barge-ins on the receiver are newer than the text they will meet, and those
acted on were. -/
structure Spared (deps : SessionDeps) (h : List SessionObs) (s : Session) : Prop extends Heard s where
  waiting : ∀ item ∈ s.bus, item.barges deps.router.session = true → ∀ t ∈ s.tts.textTags, t < item.raisedBy
  spared : ∀ n tags, .barged n tags ∈ h → ∀ u ∈ tags, u < n

theorem spared_init (deps : SessionDeps) : Spared deps [] Session.init where
  toHeard := heard_init
  waiting := by intro item hitem; cases hitem
  spared := by intro n tags hm; cases hm

/-- **One step.** -/
theorem spared_step {deps : SessionDeps} {h o : List SessionObs} {s s' : Session} {a : SessionAction}
    (S : Spared deps h s) (hfirst : bargeInsFirst deps s a = true) (hs : s.step deps a = some (s', o)) :
    Spared deps (h ++ o) s' where
  toHeard := heard_step S.toHeard hs
  waiting := by
    intro item hitem hbarge
    rcases bus_cases hs hitem hbarge with hold | ⟨hraised, hfinals, htts⟩
    · apply text_step (S.waiting item hold hbarge) _ hs
      intro ha u t hhead
      subst ha
      simp only [bargeInsFirst, hhead, List.all_eq_true] at hfirst
      have := hfirst item hold
      rw [hbarge] at this
      simpa using this
    · intro t ht
      rw [htts] at ht
      have := S.tagged.text t ht
      omega
  spared := by
    intro n tags hm u hu
    rcases List.mem_append.mp hm with hm | hm
    · exact S.spared n tags hm u hu
    · obtain ⟨-, item, hhead, hbarge, rfl, htags⟩ := barged_cases hs hm
      exact S.waiting item (List.mem_of_head? hhead) hbarge u (htags u hu)

/-- **Newer text is spared.** Over every run in which no token is taken ahead of
a barge-in raised by its own utterance or an older one: what a barge-in drops,
buffered or being synthesized, is of older utterances than the one that raised it. -/
theorem bargeIn_spares_newer (deps : SessionDeps) (as : List SessionAction) (s : Session)
    (h : List SessionObs) (hrun : (Session.machine deps).run Session.init as = some (s, h))
    (hfirst : (Session.machine deps).Along (fun _ s a => bargeInsFirst deps s a = true) [] Session.init as) :
    ∀ n tags, .barged n tags ∈ h → ∀ u ∈ tags, u < n := by
  have hinv := Machine.run_invariant_along (M := Session.machine deps) (P := Spared deps)
    (C := fun _ s a => bargeInsFirst deps s a = true) (fun _ _ _ _ _ hP hC hs => spared_step hP hC hs)
    as [] Session.init s h (spared_init deps) hfirst hrun
  exact hinv.spared

/-- A session where only the time is a skill's. -/
def storySession : SessionDeps :=
  { router := timeDeps
    sink := { session := 7, topicRoot := "athena".toList, sat := "kitchen".toList, sid := "7".toList } }

/-- A story is asked for, then the time; the time's answer is taken from the
token channel before the barge-in it raised is taken from the bus. -/
def hastyAnswer : List SessionAction :=
  [.router (.transcript ⟨"tell me a story".toList, true⟩ .new true), .routerSend,
   .router (.transcript ⟨"what time is it".toList, true⟩ .new true),
   .router (.finish 0 (.ok (.speak "noon".toList))), .router (.outcome .up), .routerSend,
   .ttsToken, .ttsSynthesized (some (.s16le, 22050)), .ttsSend, .ttsBus, .ttsBus]

/-- The newest utterance's own answer is aborted. -/
theorem own_answer_discarded : ∃ s h,
    (Session.machine storySession).run Session.init hastyAnswer = some (s, h) ∧
      s.router.finals = 2 ∧ .barged 2 [2] ∈ h := by
  refine ⟨_, _, rfl, rfl, by decide⟩

/-- The same, the barge-in taken from the bus first. -/
def patientAnswer : List SessionAction :=
  [.router (.transcript ⟨"tell me a story".toList, true⟩ .new true), .routerSend,
   .router (.transcript ⟨"what time is it".toList, true⟩ .new true),
   .router (.finish 0 (.ok (.speak "noon".toList))), .router (.outcome .up), .routerSend,
   .ttsBus, .ttsBus, .ttsToken, .ttsSynthesized (some (.s16le, 22050)), .ttsSend]

/-- There the barge-in drops nothing of its own utterance. -/
theorem patientAnswer_spared : ∃ s h,
    (Session.machine storySession).run Session.init patientAnswer = some (s, h) ∧
      ∀ n tags, .barged n tags ∈ h → ∀ u ∈ tags, u < n := by
  refine ⟨_, _, rfl, ?_⟩
  exact bargeIn_spares_newer storySession patientAnswer _ _ rfl (by decide)

/-! ## What is heard after a barge-in -/

/-- The utterances of everything still on its way to the TTS task and, of its
`AnswerEnd`s, to the sink. -/
def Session.inTransit (s : Session) : List Nat :=
  s.routerOut.map Prod.fst ++ s.prompts.map Prod.fst ++ s.llm.tags ++ s.tokens.map Prod.fst ++
    s.tts.endTags ++ (s.chunks.filter (fun x => x.2 = .answerEnd)).flatMap Prod.fst

theorem queued_iff_inTransit {P : Nat → Prop} {s : Session} : Queued P s ↔ ∀ t ∈ s.inTransit, P t := by
  unfold Session.inTransit
  simp only [List.forall_mem_append, List.forall_mem_map, List.forall_mem_flatMap, List.mem_filter,
    decide_eq_true_eq]
  refine ⟨?_, ?_⟩
  · intro Q
    exact ⟨⟨⟨⟨⟨Q.routerOut, Q.prompts⟩, Q.llm⟩, Q.tokens⟩, Q.ends⟩, fun x hx => Q.dones x hx.1 hx.2⟩
  · intro h
    obtain ⟨⟨⟨⟨⟨hout, hprompts⟩, hllm⟩, htokens⟩, hends⟩, hdones⟩ := h
    exact ⟨hout, hprompts, hllm, htokens, hends, fun x hx hend => hdones x ⟨hx, hend⟩⟩

/-- When a barge-in is acted on, nothing of an older utterance is in transit. -/
def olderSettled (deps : SessionDeps) (s : Session) : SessionAction → Bool
  | .ttsBus =>
    match s.bus.head? with
    | some item => !item.barges deps.router.session || s.inTransit.all (fun u => item.raisedBy ≤ u)
    | none => true
  | _ => true

/-- After a barge-in of utterance `n` is acted on, no text of an older utterance
is synthesized, dropped or forwarded, and no `AnswerEnd` of one is forwarded or
reaches the sink. -/
def OlderSilenced (h : List SessionObs) : Prop :=
  h.Pairwise (fun x y => ∀ n tags, x = .barged n tags → y.Tagged (fun t => n ≤ t))

/-- Since the last barge-in acted on, which utterance `floor` or an older one
raised, everything is of `floor` or newer. -/
structure Silenced (deps : SessionDeps) (h : List SessionObs) (s : Session) : Prop extends Heard s where
  numbered : Numbered s.router
  raised : ∀ item ∈ s.bus, item.barges deps.router.session = true → item.raisedBy ≤ s.router.finals
  tookAll : s.tts.FlushTookAll
  silenced : OlderSilenced h
  floor : ∃ floor ≤ s.router.finals, Tagged (fun t => floor ≤ t) s ∧
    ∀ n tags, .barged n tags ∈ h → n ≤ floor

theorem silenced_init (deps : SessionDeps) : Silenced deps [] Session.init where
  toHeard := heard_init
  numbered := numbered_init
  raised := by intro item hitem; cases hitem
  tookAll := by intro h; exact absurd rfl h
  silenced := List.Pairwise.nil
  floor := ⟨0, le_refl _, tagged_init _, by intro n tags hm; cases hm⟩

theorem session_numbered {deps : SessionDeps} {s s' : Session} {a : SessionAction} {o : List SessionObs}
    (N : Numbered s.router) (hs : s.step deps a = some (s', o)) (hbound : s'.router.finals < 2 ^ 64) :
    Numbered s'.router := by
  rcases router_cases hs with ⟨b, obs, -, -, hr, -⟩ | ⟨-, hr, -⟩
  · exact numbered_step N hr hbound
  · rw [hr]
    exact N

theorem session_tookAll {deps : SessionDeps} {s s' : Session} {a : SessionAction} {o : List SessionObs}
    (h : s.tts.FlushTookAll) (hs : s.step deps a = some (s', o)) : s'.tts.FlushTookAll := by
  cases Session.step_cases hs with
  | token n m rest tts obs hhead hr => exact Tts.flushTookAll_step h hr
  | bus item rest tts obs hhead hr => exact Tts.flushTookAll_step h hr
  | tts _ b tts obs hown htoken hbus hr => exact Tts.flushTookAll_step h hr
  | _ => exact h

theorem OlderSilenced.append {h o : List SessionObs} {floor : Nat} (S : OlderSilenced h)
    (hfloor : ∀ n tags, .barged n tags ∈ h → n ≤ floor) (ho : ∀ x ∈ o, x.Tagged (fun t => floor ≤ t))
    (hpair : OlderSilenced o) : OlderSilenced (h ++ o) := by
  refine List.pairwise_append.mpr ⟨S, hpair, ?_⟩
  intro x hx y hy n tags heq
  subst heq
  exact SessionObs.Tagged.mono (fun t ht => (hfloor n tags hx).trans ht) (ho y hy)

theorem bargeIn_acted {deps : SessionDeps} {s s' : Session} {o : List SessionObs} {item : BusItem}
    (htook : s.tts.FlushTookAll) (hhead : s.bus.head? = some item)
    (hbarge : item.barges deps.router.session = true) (hs : s.step deps .ttsBus = some (s', o)) :
    (∃ tags, o = [.barged item.raisedBy tags]) ∧ s'.tts.textTags = [] ∧ ∀ P, Queued P s → Queued P s' := by
  cases Session.step_cases hs with
  | bus head rest tts obs hbus hr =>
    rw [hbus] at hhead
    cases hhead
    obtain ⟨htext, hends, tags, rfl⟩ := Tts.bargeIn_step htook hbarge hr
    refine ⟨⟨tags, rfl⟩, htext, ?_⟩
    intro P Q
    refine { Q with ends := ?_, dones := ?_ }
    · intro t ht
      rw [show tts.endTags = s.tts.endTags from hends] at ht
      exact Q.ends t ht
    · intro x hx
      rw [show s.chunks ++ forwardsIn [.discarded tags] = s.chunks from List.append_nil _] at hx
      exact Q.dones x hx
  | llm _ b llm obs hown hprompt hr => cases hown
  | tts _ b tts obs hown htoken hbus hr => cases hown

/-- **One step.** -/
theorem silenced_step {deps : SessionDeps} {h o : List SessionObs} {s s' : Session} {a : SessionAction}
    (S : Silenced deps h s) (hsettled : olderSettled deps s a = true) (hs : s.step deps a = some (s', o))
    (hbound : s'.router.finals < 2 ^ 64) : Silenced deps (h ++ o) s' := by
  have hmono := session_finals_mono hs
  obtain ⟨floor, hle, T, hfloor⟩ := S.floor
  have hraised : ∀ item ∈ s'.bus, item.barges deps.router.session = true →
      item.raisedBy ≤ s'.router.finals := by
    intro item hitem hbarge
    rcases bus_cases hs hitem hbarge with hold | ⟨hnew, -, -⟩
    · exact (S.raised item hold hbarge).trans hmono
    · exact hnew.le
  have hsend : ∀ n m, .router (.send n m) ∈ o → floor ≤ n := by
    intro n m hm
    rw [(session_sends S.toHeard hs hm).2 S.numbered]
    omega
  obtain ⟨T', hobs⟩ := T.step hs hsend
  -- a barge-in acted on raises the floor to its utterance
  have hnew : OlderSilenced o ∧ ∃ floor' ≤ s'.router.finals, Tagged (fun t => floor' ≤ t) s' ∧
      ∀ n tags, .barged n tags ∈ h ++ o → n ≤ floor' := by
    by_cases hacts : ∃ n tags, .barged n tags ∈ o
    · obtain ⟨n, tags, hm⟩ := hacts
      obtain ⟨rfl, item, hhead, hbarge, -, -⟩ := barged_cases hs hm
      obtain ⟨⟨tags', rfl⟩, htext, hqueued⟩ := bargeIn_acted S.tookAll hhead hbarge hs
      simp only [olderSettled, hhead, hbarge, Bool.not_true, Bool.false_or, List.all_eq_true,
        decide_eq_true_eq] at hsettled
      have hraise := S.raised item (List.mem_of_head? hhead) hbarge
      have hold := queued_iff_inTransit.mp T.toQueued
      refine ⟨List.pairwise_singleton _ _, max floor item.raisedBy, by omega, ?_, ?_⟩
      · refine { toQueued := hqueued _ (queued_iff_inTransit.mpr ?_), text := by simp [htext] }
        intro t ht
        exact max_le (hold t ht) (hsettled t ht)
      · intro n tags hm
        rcases List.mem_append.mp hm with hm | hm
        · exact (hfloor n tags hm).trans (le_max_left _ _)
        · cases List.mem_singleton.mp hm
          exact le_max_right _ _
    · have hquiet : ∀ n tags, .barged n tags ∉ o := by simpa using hacts
      refine ⟨?_, floor, hle.trans hmono, T', ?_⟩
      · apply List.Pairwise.imp_of_mem (R := fun _ _ => True)
        · intro x y hx _ _ n tags heq
          rw [heq] at hx
          exact absurd hx (hquiet n tags)
        · exact List.pairwise_of_forall (fun _ _ => trivial)
      · intro n tags hm
        exact hfloor n tags ((List.mem_append.mp hm).resolve_right (hquiet n tags))
  exact
    { toHeard := heard_step S.toHeard hs
      numbered := session_numbered S.numbered hs hbound
      raised := hraised
      tookAll := session_tookAll S.tookAll hs
      silenced := S.silenced.append hfloor hobs hnew.1
      floor := hnew.2 }

/-- **Older answers are silenced.** Over every run of fewer than 2^64 final
transcripts in which each barge-in is acted on with nothing of an older
utterance in transit: afterwards no text of an older utterance is synthesized
and no `AnswerEnd` of one reaches the sink. -/
theorem bargeIn_silences_older (deps : SessionDeps) (as : List SessionAction) (s : Session)
    (h : List SessionObs) (hrun : (Session.machine deps).run Session.init as = some (s, h))
    (hfinals : s.router.finals < 2 ^ 64)
    (hsettled : (Session.machine deps).Along (fun _ s a => olderSettled deps s a = true) [] Session.init as) :
    OlderSilenced h := by
  have hinv := Machine.run_invariant_along (M := Session.machine deps)
    (P := fun h s => s.router.finals < 2 ^ 64 → Silenced deps h s)
    (C := fun _ s a => olderSettled deps s a = true) ?_ as [] Session.init s h
    (fun _ => silenced_init deps) hsettled hrun
  · exact (hinv hfinals).silenced
  · intro h s a s' o hP hC hs hbound
    exact silenced_step (hP ((session_finals_mono hs).trans_lt hbound)) hC hs hbound

/-- A story is asked for, then the time. The story's end is still in the token
channel when the barge-in is acted on. -/
def unfinishedStory : List SessionAction :=
  [.router (.transcript ⟨"tell me a story".toList, true⟩ .new true), .routerSend,
   .llmPrompt, .llmCompleted true, .llmItem (.token "Once.".toList), .llmSend, .llmItem .finish, .llmSend,
   .router (.transcript ⟨"what time is it".toList, true⟩ .new true), .ttsBus, .ttsBus,
   .ttsToken, .ttsSynthesized (some (.s16le, 22050)), .ttsSend, .ttsBus, .ttsBus,
   .ttsAudio (.chunk [1, 2]), .ttsSend, .ttsBus, .ttsAudio .finish, .ttsToken, .ttsSend,
   .sinkMsg, .sinkMsg, .sinkMsg]

/-- The story is spoken after the barge-in, and its `AnswerEnd` reaches the sink
while the time's dispatch is still in flight. -/
theorem previous_answer_heard : ∃ s h,
    (Session.machine storySession).run Session.init unfinishedStory = some (s, h) ∧
      s.router.inFlight 2 = 1 ∧
      [.barged 2 [], .tts (.spoke [1] "Once.".toList), .played [1] (.chunk [1, 2]),
        .played [1] .answerEnd].Sublist h ∧
      ¬ OlderSilenced h := by
  refine ⟨_, _, rfl, by decide, by decide, ?_⟩
  intro hsilent
  have hpair : OlderSilenced [.barged 2 [], .played [1] .answerEnd] := hsilent.sublist (by decide)
  have hend := List.rel_of_pairwise_cons hpair List.mem_cons_self 2 [] rfl rfl 1 (by decide)
  omega

/-- The story is over, its `AnswerEnd` with the sink, before the time is asked;
the barge-in is acted on, and the time's answer spoken. -/
def finishedStory : List SessionAction :=
  [.router (.transcript ⟨"tell me a story".toList, true⟩ .new true), .routerSend,
   .llmPrompt, .llmCompleted true, .llmItem (.token "Once.".toList), .llmSend, .llmItem .finish, .llmSend,
   .ttsToken, .ttsSynthesized none, .ttsToken, .ttsSend, .sinkMsg,
   .router (.transcript ⟨"what time is it".toList, true⟩ .new true), .ttsBus, .ttsBus, .ttsBus,
   .router (.finish 0 (.ok (.speak "noon".toList))), .router (.outcome .up), .routerSend, .routerSend,
   .ttsToken, .ttsSynthesized (some (.s16le, 22050)), .ttsSend, .ttsBus, .ttsBus, .ttsAudio (.chunk [3, 4]), .ttsSend,
   .ttsBus, .ttsAudio .finish, .ttsToken, .ttsSend, .sinkMsg, .sinkMsg, .sinkMsg]

/-- There nothing older is heard after the barge-in, only the time. -/
theorem finishedStory_silenced : ∃ s h,
    (Session.machine storySession).run Session.init finishedStory = some (s, h) ∧
      [.barged 2 [], .tts (.spoke [2] "noon.".toList), .played [2] (.chunk [3, 4]),
        .played [2] .answerEnd].Sublist h ∧
      OlderSilenced h := by
  refine ⟨_, _, rfl, by decide, ?_⟩
  exact bargeIn_silences_older storySession finishedStory _ _ rfl (by decide) (by decide)

end AthenaVoice.Pipeline
