import AthenaVoice.Pipeline.Router

/-
  The router's ledger of dispatches

  Every dispatch is either in flight (its task still runs, or its outcome waits
  in the channel) or has been handled, once. What its handling sends depends
  only on whether a newer final transcript has been taken in between.

  What is proved:
    1. `ledger_step` — the ledger balances after every step of a router whose
       channels are open and which is not cancelled.
    2. `reported_step` — what is handled of a dispatch is what its skill answered,
       or, of a superseded one only, the stub of its cancellation.
    3. `router_epoch_safety` — after every such run of fewer than 2^64 final
       transcripts: a dispatch still current when handled is answered in full,
       a superseded one emits one `SkillCancelled` and nothing else, and the
       run can be continued until every dispatch is handled.
-/

namespace AthenaVoice.Pipeline

open Lib CoreTypes Intent
open Sdk (SkillResponse SkillResult SkillError)

/-! ## What is observed of one utterance -/

/-- What a dispatch's result may lead to. -/
inductive Effect where
  | sent (m : Send)
  | audio (e : Event)
  | cancelled (e : Event)
  deriving DecidableEq

/-- The effect of utterance `k` an observation shows, if any. -/
def RouterObs.effectOf (k : Nat) : RouterObs → Option Effect
  | .send j m => if j = k then some (.sent m) else none
  | .event j e =>
    if j = k then
      if e.isAudioChunk then some (.audio e)
      else if e.isSkillCancelled then some (.cancelled e)
      else none
    else none
  | _ => none

/-- The effects of utterance `k`, in order. -/
def effectsOf (k : Nat) (h : List RouterObs) : List Effect := h.filterMap (RouterObs.effectOf k)

/-- The handling of utterance `k` an observation shows: how many final
transcripts had been taken, and the result. -/
def RouterObs.handlingOf (k : Nat) : RouterObs → Option (Nat × SkillResult)
  | .handled j latest r => if j = k then some (latest, r) else none
  | _ => none

/-- The handlings of utterance `k`. -/
def handlingsOf (k : Nat) (h : List RouterObs) : List (Nat × SkillResult) :=
  h.filterMap (RouterObs.handlingOf k)

/-- How often utterance `k` was dispatched. -/
def dispatchesOf (k : Nat) (h : List RouterObs) : Nat := h.count (.dispatched k)

def finalsOf (h : List RouterObs) : Nat :=
  h.countP (fun o => match o with | .final _ => true | _ => false)

@[simp] theorem effectsOf_append (k : Nat) (h h' : List RouterObs) :
    effectsOf k (h ++ h') = effectsOf k h ++ effectsOf k h' := by
  simp [effectsOf]

@[simp] theorem handlingsOf_append (k : Nat) (h h' : List RouterObs) :
    handlingsOf k (h ++ h') = handlingsOf k h ++ handlingsOf k h' := by
  simp [handlingsOf]

@[simp] theorem dispatchesOf_append (k : Nat) (h h' : List RouterObs) :
    dispatchesOf k (h ++ h') = dispatchesOf k h + dispatchesOf k h' := by
  simp [dispatchesOf]

@[simp] theorem finalsOf_append (h h' : List RouterObs) :
    finalsOf (h ++ h') = finalsOf h + finalsOf h' := by
  simp [finalsOf]

theorem mem_handlingsOf {k latest : Nat} {r : SkillResult} {h : List RouterObs} :
    (latest, r) ∈ handlingsOf k h ↔ .handled k latest r ∈ h := by
  unfold handlingsOf
  rw [List.mem_filterMap]
  refine ⟨?_, ?_⟩
  · intro hm
    obtain ⟨o, ho, he⟩ := hm
    cases o with
    | handled j l r' =>
      simp only [RouterObs.handlingOf] at he
      split at he
      · rename_i hj
        cases he
        rw [← hj]
        exact ho
      · cases he
    | _ => cases he
  · intro hm
    exact ⟨_, hm, by simp [RouterObs.handlingOf]⟩

/-! ## Dispatches in flight -/

/-- Token and epoch of every dispatch whose outcome is not handled yet. -/
def RouterSys.flights (s : RouterSys) : List (Nat × Nat) :=
  s.tasks.map (fun t => (t.dispatch.token, t.dispatch.epoch)) ++
    s.outcomes.map (fun o => (o.token, o.epoch))

/-- How many dispatches of utterance `k` are in flight. -/
def RouterSys.inFlight (s : RouterSys) (k : Nat) : Nat := s.flights.countP (fun f => f.1 = k)

theorem map_cancelTask (token : Option Nat) (tasks : List Task) :
    (cancelTask token tasks).map (fun t => (t.dispatch.token, t.dispatch.epoch)) =
      tasks.map (fun t => (t.dispatch.token, t.dispatch.epoch)) := by
  unfold cancelTask
  rw [List.map_map]
  apply List.map_congr_left
  intro t _
  simp only [Function.comp_apply]
  split <;> rfl

theorem tasks_perm {tasks : List Task} {i : Nat} {t : Task} (h : tasks[i]? = some t) :
    tasks.Perm (t :: tasks.eraseIdx i) := by
  obtain ⟨hi, rfl⟩ := List.getElem?_eq_some_iff.mp h
  exact (List.getElem_cons_eraseIdx_perm hi).symm

theorem report_flights {s : RouterSys} {i : Nat} {t : Task} (result : SkillResult)
    (h : s.tasks[i]? = some t) :
    ({ s with tasks := s.tasks.eraseIdx i, outcomes := s.outcomes ++ [t.outcome result] } :
      RouterSys).flights.Perm s.flights := by
  have hmap := (tasks_perm h).map (fun t : Task => (t.dispatch.token, t.dispatch.epoch))
  simp only [RouterSys.flights, List.map_append, List.map_cons, List.map_nil, Task.outcome]
  refine List.Perm.trans ?_ ((hmap.append_right _).symm)
  rw [← List.append_assoc]
  exact List.perm_append_singleton _ _

/-! ## The answer to a current dispatch -/

/-- Everything a result leads to when its utterance is still the newest. -/
def currentEffects (deps : RouterDeps) : SkillResult → List Effect
  | .ok (.speak text) =>
    [.sent (.tts (.token (ensureSentenceBoundary text))), .sent (.tts .answerEnd)]
  | .ok (.askLlm prompt) => [.sent (.llm prompt)]
  | .ok (.sampledPcm sampleRate samples) =>
    [.audio (.audioChunk deps.session .f32le sampleRate (samples.flatMap toLeBytes)), .sent (.tts .answerEnd)]
  | .ok (.sampledOpus opusFrames) =>
    [.audio (.audioChunk deps.session .opus 48000 opusFrames), .sent (.tts .answerEnd)]
  | .ok .empty | .ok (.volume _) | .err _ => [.sent (.tts .answerEnd)]

/-- The observations of an outcome's effects. -/
def outcomeObs (k : Nat) (x : Handled) : List RouterObs :=
  x.events.map (.event k) ++ x.sends.map (.send k)

theorem effectsOf_outcomeObs_other {k j : Nat} (x : Handled) (hne : j ≠ k) :
    effectsOf k (outcomeObs j x) = [] := by
  simp [effectsOf, outcomeObs, List.filterMap_eq_nil_iff, RouterObs.effectOf, hne]

theorem handlingsOf_outcomeObs (k j : Nat) (x : Handled) : handlingsOf k (outcomeObs j x) = [] := by
  simp [handlingsOf, outcomeObs, List.filterMap_eq_nil_iff, RouterObs.handlingOf]

theorem dispatchesOf_outcomeObs (k j : Nat) (x : Handled) : dispatchesOf k (outcomeObs j x) = 0 := by
  simp [dispatchesOf, outcomeObs, List.count_eq_zero]

theorem finalsOf_outcomeObs (j : Nat) (x : Handled) : finalsOf (outcomeObs j x) = 0 := by
  simp [finalsOf, outcomeObs, List.countP_eq_zero]

theorem handlingsOf_handled (k j latest : Nat) (r : SkillResult) (x : Handled) :
    handlingsOf k (.handled j latest r :: outcomeObs j x) = if j = k then [(latest, r)] else [] := by
  have hrest := handlingsOf_outcomeObs k j x
  unfold handlingsOf at hrest ⊢
  rw [List.filterMap_cons, hrest]
  by_cases hk : j = k
  · simp [RouterObs.handlingOf, hk]
  · simp [RouterObs.handlingOf, hk]

theorem dispatchesOf_handled (k j latest : Nat) (r : SkillResult) (x : Handled) :
    dispatchesOf k (.handled j latest r :: outcomeObs j x) = 0 := by
  have hrest := dispatchesOf_outcomeObs k j x
  unfold dispatchesOf at hrest ⊢
  rw [List.count_cons, hrest]
  rfl

theorem effectsOf_handled (k j latest : Nat) (r : SkillResult) (x : Handled) :
    effectsOf k (.handled j latest r :: outcomeObs j x) = effectsOf k (outcomeObs j x) := rfl

theorem effectsOf_current {deps : RouterDeps} {st : RouterState} {o : DispatchOutcome} (k : Nat)
    (h : o.epoch = st.epoch) :
    effectsOf k (outcomeObs k (handleOutcome deps .up st o)) = currentEffects deps o.result := by
  have hcur : handleOutcome deps .up st o = answer deps .up (st.clearPending o) o.result := by
    unfold handleOutcome
    simp [h]
  rw [hcur]
  cases o.result with
  | err e => simp [answer, answerEnd, Links.up, effectsOf, outcomeObs, RouterObs.effectOf, currentEffects]
  | ok r =>
    cases r <;>
      simp [answer, answerEnd, Links.up, effectsOf, outcomeObs, RouterObs.effectOf, currentEffects,
        Event.isAudioChunk, Event.isSkillCancelled]

theorem effectsOf_superseded {deps : RouterDeps} {links : Links} {st : RouterState} {o : DispatchOutcome}
    (k : Nat) (h : o.epoch ≠ st.epoch) :
    effectsOf k (outcomeObs k (handleOutcome deps links st o)) =
      [.cancelled (.skillCancelled deps.session o.skill)] := by
  unfold handleOutcome
  simp [h, effectsOf, outcomeObs, RouterObs.effectOf, Event.isAudioChunk, Event.isSkillCancelled]

/-! ## What a turn adds -/

theorem mem_turnObs {n : Nat} {turn : Turn} {o : RouterObs} (h : o ∈ RouterSys.turnObs n turn) :
    o = .final n ∨ (∃ e ∈ turn.events, o = .event n e) ∨
      (∃ d, turn.next = .dispatch d ∧ o = .dispatched n) ∨
      (∃ p, turn.next = .prompt p ∧ o = .send n (.llm p)) := by
  unfold RouterSys.turnObs at h
  rcases List.mem_cons.mp h with h | h
  · exact Or.inl h
  · rcases List.mem_append.mp h with h | h
    · obtain ⟨e, he, rfl⟩ := List.mem_map.mp h
      exact Or.inr (Or.inl ⟨e, he, rfl⟩)
    · cases hn : turn.next with
      | dispatch d =>
        rw [hn] at h
        exact Or.inr (Or.inr (Or.inl ⟨d, rfl, List.mem_singleton.mp h⟩))
      | prompt p =>
        rw [hn] at h
        exact Or.inr (Or.inr (Or.inr ⟨p, rfl, List.mem_singleton.mp h⟩))
      | llmGone =>
        rw [hn] at h
        cases h

theorem handlingsOf_turnObs (k n : Nat) (turn : Turn) : handlingsOf k (RouterSys.turnObs n turn) = [] := by
  refine List.filterMap_eq_nil_iff.mpr (fun o ho => ?_)
  rcases mem_turnObs ho with rfl | ⟨e, -, rfl⟩ | ⟨d, -, rfl⟩ | ⟨p, -, rfl⟩ <;> rfl

theorem finalsOf_turnObs (n : Nat) (turn : Turn) : finalsOf (RouterSys.turnObs n turn) = 1 := by
  cases hn : turn.next <;>
    simp [finalsOf, RouterSys.turnObs, hn, List.countP_eq_zero]

theorem effectsOf_turnObs_other {k n : Nat} (turn : Turn) (hne : n ≠ k) :
    effectsOf k (RouterSys.turnObs n turn) = [] := by
  refine List.filterMap_eq_nil_iff.mpr (fun o ho => ?_)
  rcases mem_turnObs ho with rfl | ⟨e, -, rfl⟩ | ⟨d, -, rfl⟩ | ⟨p, -, rfl⟩
  · rfl
  · exact if_neg hne
  · rfl
  · exact if_neg hne

theorem dispatchesOf_turnObs (k n : Nat) (turn : Turn) : dispatchesOf k (RouterSys.turnObs n turn) =
    match turn.next with
    | .dispatch _ => if n = k then 1 else 0
    | _ => 0 := by
  have hev : (turn.events.map (RouterObs.event n)).count (.dispatched k) = 0 := by
    simp [List.count_eq_zero]
  cases hn : turn.next with
  | dispatch d =>
    simp only [dispatchesOf, RouterSys.turnObs, hn, List.count_cons, List.count_append, hev, List.count_nil]
    by_cases hk : n = k
    · simp [hk]
    · simp [hk]
  | prompt p => simp [dispatchesOf, RouterSys.turnObs, hn, List.count_append, hev]
  | llmGone => simp [dispatchesOf, RouterSys.turnObs, hn, hev]

theorem dispatchesOf_turnObs_other {k n : Nat} (turn : Turn) (hne : n ≠ k) :
    dispatchesOf k (RouterSys.turnObs n turn) = 0 := by
  rw [dispatchesOf_turnObs]
  cases turn.next with
  | dispatch d => exact if_neg hne
  | _ => rfl

theorem dispatchesOf_turnObs_le (n : Nat) (turn : Turn) : dispatchesOf n (RouterSys.turnObs n turn) ≤ 1 := by
  rw [dispatchesOf_turnObs]
  cases turn.next with
  | dispatch d => exact le_of_eq (if_pos rfl)
  | _ => exact Nat.zero_le _

theorem effectsOf_turnObs_dispatched {n : Nat} {turn : Turn} (hd : dispatchesOf n (RouterSys.turnObs n turn) = 1)
    (hev : ∀ e ∈ turn.events, e.isSkillCancelled = false ∧ e.isAudioChunk = false) :
    effectsOf n (RouterSys.turnObs n turn) = [] := by
  refine List.filterMap_eq_nil_iff.mpr (fun o ho => ?_)
  rcases mem_turnObs ho with rfl | ⟨e, he, rfl⟩ | ⟨d', -, rfl⟩ | ⟨p, hp, rfl⟩
  · rfl
  · simp [RouterObs.effectOf, hev e he]
  · rfl
  · rw [dispatchesOf_turnObs, hp] at hd
    cases hd

theorem flights_applyTurn (s : RouterSys) (turn : Turn) : (s.applyTurn turn).flights.Perm
    (match turn.next with
    | .dispatch d => (d.token, d.epoch) :: s.flights
    | _ => s.flights) := by
  unfold RouterSys.applyTurn
  cases hn : turn.next with
  | dispatch d =>
    simp only [RouterSys.flights, List.map_append, map_cancelTask, List.map_cons, List.map_nil,
      List.append_assoc, List.singleton_append]
    exact List.perm_middle
  | prompt p => simp only [RouterSys.flights, map_cancelTask]; exact List.Perm.refl _
  | llmGone => simp only [RouterSys.flights, map_cancelTask]; exact List.Perm.refl _

/-! ## Numbers and epochs -/

theorem applyTurn_router (s : RouterSys) (turn : Turn) : (s.applyTurn turn).router = turn.state := by
  unfold RouterSys.applyTurn
  cases turn.next <;> rfl

theorem applyTurn_finals (s : RouterSys) (turn : Turn) : (s.applyTurn turn).finals = s.finals + 1 := by
  unfold RouterSys.applyTurn
  cases turn.next <;> rfl

/-- While the epoch counts, it is the number of the newest utterance, and a
dispatch's epoch is the number of its utterance. -/
structure Numbered (s : RouterSys) : Prop where
  epoch : s.router.epoch = s.finals
  flights : ∀ f ∈ s.flights, f.2 = f.1 ∧ f.1 ≤ s.finals

theorem numbered_init : Numbered RouterSys.init := ⟨rfl, by intro f hf; cases hf⟩

theorem flights_outcome {s : RouterSys} {o : DispatchOutcome} {rest : List DispatchOutcome}
    (hhead : s.outcomes = o :: rest) (router : RouterState) (exited : Bool) :
    s.flights.Perm ((o.token, o.epoch) ::
      ({ s with router := router, outcomes := rest, exited := exited } : RouterSys).flights) := by
  simp only [RouterSys.flights, hhead, List.map_cons]
  exact List.perm_middle

theorem numbered_step {deps : RouterDeps} {s s' : RouterSys} {a : RouterAction} {o : List RouterObs}
    (N : Numbered s) (hs : (RouterSys.machine deps).step s a = some (s', o)) (hbound : s'.finals < 2 ^ 64) :
    Numbered s' := by
  obtain ⟨-, hstep⟩ := RouterSys.step_cases hs
  cases hstep with
  | partial_ t rules llmOpen hp => exact N
  | final t rules llmOpen hrx hfinal =>
    rw [applyTurn_finals] at hbound
    have hepoch : epochSucc s.router.epoch = s.finals + 1 := by
      unfold epochSucc
      rw [N.epoch]
      omega
    have hflights := flights_applyTurn s (onFinal deps s.router t rules (s.finals + 1) llmOpen)
    have hold : ∀ f ∈ s.flights, f.2 = f.1 ∧ f.1 ≤ s.finals + 1 := by
      intro f hf
      have := N.flights f hf
      omega
    refine ⟨?_, ?_⟩
    · rw [applyTurn_router, applyTurn_finals]
      cases onFinal_turn deps s.router t rules (s.finals + 1) llmOpen with
      | dispatched skill intent hnext hstate => rw [hstate]; exact hepoch
      | prompted text up hnext hstate => rw [hstate]; exact hepoch
      | llmGone down hnext hstate => rw [hstate]; exact hepoch
    · intro f hf
      rw [applyTurn_finals]
      have hf' := hflights.mem_iff.mp hf
      cases onFinal_turn deps s.router t rules (s.finals + 1) llmOpen with
      | dispatched skill intent hnext hstate =>
        rw [hnext] at hf'
        rcases List.mem_cons.mp hf' with rfl | hf'
        · exact ⟨hepoch, le_refl _⟩
        · exact hold f hf'
      | prompted text up hnext hstate => rw [hnext] at hf'; exact hold f hf'
      | llmGone down hnext hstate => rw [hnext] at hf'; exact hold f hf'
  | closed hrx => exact ⟨N.epoch, N.flights⟩
  | report a i t result htask hby hroom =>
    exact ⟨N.epoch, fun f hf => N.flights f ((report_flights result htask).mem_iff.mp hf)⟩
  | outcome links out rest hhead =>
    obtain ⟨hepoch, -, -⟩ := handleOutcome_state deps links s.router out
    have hflights := flights_outcome hhead (handleOutcome deps links s.router out).state
      (drained (handleOutcome deps links s.router out).state)
    exact ⟨hepoch.trans N.epoch, fun f hf => N.flights f (hflights.mem_iff.mpr (List.mem_cons_of_mem _ hf))⟩
  | cancel => exact ⟨N.epoch, N.flights⟩

/-! ## The ledger -/

/-- Channels open, router not cancelled. -/
def RouterAction.Live : RouterAction → Prop
  | .transcript _ _ llmOpen => llmOpen = true
  | .outcome links => links = .up
  | .finish .. | .abandon .. => True
  | .closed | .cancel => False

/-- The books of a running router. -/
structure Ledger (deps : RouterDeps) (h : List RouterObs) (s : RouterSys) : Prop where
  running : s.exited = false ∧ s.router.rxClosed = false
  balance : ∀ k, s.inFlight k + (handlingsOf k h).length = dispatchesOf k h
  once : ∀ k, dispatchesOf k h ≤ 1
  fresh : ∀ k, s.finals < k → dispatchesOf k h = 0 ∧ effectsOf k h = []
  quiet : ∀ k, dispatchesOf k h = 1 → handlingsOf k h = [] → effectsOf k h = []
  settled : ∀ k latest r, (latest, r) ∈ handlingsOf k h →
    (latest = k → effectsOf k h = currentEffects deps r) ∧
    (latest ≠ k → ∃ skill, effectsOf k h = [.cancelled (.skillCancelled deps.session skill)])

theorem ledger_init (deps : RouterDeps) : Ledger deps [] RouterSys.init where
  running := ⟨rfl, rfl⟩
  balance := by intro k; rfl
  once := by intro k; exact Nat.zero_le _
  fresh := by intro k _; exact ⟨rfl, rfl⟩
  quiet := by intro k _ _; rfl
  settled := by intro k latest r hm; cases hm

theorem Ledger.congr {deps : RouterDeps} {h : List RouterObs} {s s' : RouterSys} (L : Ledger deps h s)
    (hrouter : s'.router = s.router) (hexited : s'.exited = s.exited) (hfinals : s'.finals = s.finals)
    (hflights : s'.flights.Perm s.flights) : Ledger deps h s' where
  running := by rw [hexited, hrouter]; exact L.running
  balance := by
    intro k
    rw [← L.balance k, RouterSys.inFlight, RouterSys.inFlight, hflights.countP_eq]
  once := L.once
  fresh := by rw [hfinals]; exact L.fresh
  quiet := L.quiet
  settled := L.settled

theorem FinalTurn.inFlight {deps : RouterDeps} {s : RouterSys} {n : Nat} {llmOpen : Bool} {turn : Turn}
    (hturn : FinalTurn deps s.router n llmOpen turn) (k : Nat) :
    (s.applyTurn turn).inFlight k = s.inFlight k + dispatchesOf k (RouterSys.turnObs n turn) := by
  rw [RouterSys.inFlight, (flights_applyTurn s turn).countP_eq, dispatchesOf_turnObs]
  cases hturn with
  | dispatched skill intent hnext hstate =>
    rw [hnext]
    simp only [List.countP_cons, decide_eq_true_eq, RouterSys.inFlight]
  | prompted text up hnext hstate => rw [hnext]; rfl
  | llmGone down hnext hstate => rw [hnext]; rfl

theorem FinalTurn.running {deps : RouterDeps} {s : RouterSys} {n : Nat} {turn : Turn}
    (hturn : FinalTurn deps s.router n true turn) (hrx : s.router.rxClosed = false) :
    (s.applyTurn turn).exited = false ∧ (s.applyTurn turn).router.rxClosed = false := by
  rw [applyTurn_router]
  cases hturn with
  | dispatched skill intent hnext hstate => simp [RouterSys.applyTurn, hnext, hstate, drained, hrx]
  | prompted text up hnext hstate => simp [RouterSys.applyTurn, hnext, hstate, drained, hrx]
  | llmGone down _ _ => cases down

theorem Ledger.final {deps : RouterDeps} {h : List RouterObs} {s : RouterSys} {turn : Turn}
    (L : Ledger deps h s) (hturn : FinalTurn deps s.router (s.finals + 1) true turn)
    (hev : ∀ e ∈ turn.events, e.isSkillCancelled = false ∧ e.isAudioChunk = false) :
    Ledger deps (h ++ RouterSys.turnObs (s.finals + 1) turn) (s.applyTurn turn) := by
  let new := RouterSys.turnObs (s.finals + 1) turn
  obtain ⟨hfresh, hquiet⟩ := L.fresh (s.finals + 1) (Nat.lt_succ_self _)
  have hopened := dispatchesOf_turnObs_le (s.finals + 1) turn
  have hother : ∀ k, s.finals + 1 ≠ k →
      dispatchesOf k (h ++ new) = dispatchesOf k h ∧ effectsOf k (h ++ new) = effectsOf k h := by
    intro k hk
    rw [dispatchesOf_append, dispatchesOf_turnObs_other turn hk, effectsOf_append,
      effectsOf_turnObs_other turn hk, List.append_nil]
    exact ⟨rfl, rfl⟩
  have hhandled : ∀ k, handlingsOf k (h ++ new) = handlingsOf k h := by
    intro k
    rw [handlingsOf_append, handlingsOf_turnObs, List.append_nil]
  refine ⟨hturn.running L.running.2, ?_, ?_, ?_, ?_, ?_⟩
  · intro k
    rw [hhandled, hturn.inFlight, dispatchesOf_append, ← L.balance k]
    omega
  · intro k
    by_cases hk : s.finals + 1 = k
    · rw [← hk, dispatchesOf_append, hfresh]
      omega
    · rw [(hother k hk).1]
      exact L.once k
  · intro k hk
    rw [applyTurn_finals] at hk
    rw [(hother k (by omega)).1, (hother k (by omega)).2]
    exact L.fresh k (by omega)
  · intro k hd hh
    by_cases hk : s.finals + 1 = k
    · -- the account just opened
      subst hk
      rw [dispatchesOf_append, hfresh, Nat.zero_add] at hd
      rw [effectsOf_append, hquiet, List.nil_append]
      exact effectsOf_turnObs_dispatched hd hev
    · rw [(hother k hk).1] at hd
      rw [hhandled] at hh
      rw [(hother k hk).2]
      exact L.quiet k hd hh
  · intro k latest r hm
    rw [hhandled] at hm
    -- an account with a handling was opened earlier
    have hk : s.finals + 1 ≠ k := by
      intro heq
      subst heq
      have hpos := List.length_pos_of_mem hm
      have hbal := L.balance (s.finals + 1)
      omega
    rw [(hother k hk).2]
    exact L.settled k latest r hm

theorem Ledger.pending {deps : RouterDeps} {h : List RouterObs} {s : RouterSys} {o : DispatchOutcome}
    {rest : List DispatchOutcome} (L : Ledger deps h s) (hhead : s.outcomes = o :: rest) :
    handlingsOf o.token h = [] ∧ dispatchesOf o.token h = 1 := by
  have hbal := L.balance o.token
  have honce := L.once o.token
  have hmem : (o.token, o.epoch) ∈ s.flights := by
    simp [RouterSys.flights, hhead]
  have hin : 0 < s.inFlight o.token := List.countP_pos_iff.mpr ⟨(o.token, o.epoch), hmem, by simp⟩
  exact ⟨List.eq_nil_of_length_eq_zero (by omega), by omega⟩

theorem Ledger.outcome {deps : RouterDeps} {h : List RouterObs} {s : RouterSys} {o : DispatchOutcome}
    {rest : List DispatchOutcome} (L : Ledger deps h s) (N : Numbered s)
    (hhead : s.outcomes = o :: rest) : Ledger deps
      (h ++ .handled o.token s.finals o.result :: outcomeObs o.token (handleOutcome deps .up s.router o))
      { s with router := (handleOutcome deps .up s.router o).state, outcomes := rest,
               exited := drained (handleOutcome deps .up s.router o).state } := by
  let x := handleOutcome deps .up s.router o
  let s' : RouterSys := { s with router := x.state, outcomes := rest, exited := drained x.state }
  let h' := h ++ RouterObs.handled o.token s.finals o.result :: outcomeObs o.token x
  show Ledger deps h' s'
  obtain ⟨-, hrx, -⟩ := handleOutcome_state deps .up s.router o
  have hflights : s.flights.Perm ((o.token, o.epoch) :: s'.flights) :=
    flights_outcome hhead x.state (drained x.state)
  have hoepoch : o.epoch = o.token :=
    (N.flights (o.token, o.epoch) (hflights.mem_iff.mpr List.mem_cons_self)).1
  obtain ⟨hunhandled, hopen⟩ := L.pending hhead
  -- what the handling adds to each account
  have hhandled : ∀ k, handlingsOf k h' =
      handlingsOf k h ++ if o.token = k then [(s.finals, o.result)] else [] := by
    intro k
    rw [handlingsOf_append, handlingsOf_handled]
  have hdispatched : ∀ k, dispatchesOf k h' = dispatchesOf k h := by
    intro k
    rw [dispatchesOf_append, dispatchesOf_handled, Nat.add_zero]
  have hother : ∀ k, o.token ≠ k → effectsOf k h' = effectsOf k h := by
    intro k hk
    rw [effectsOf_append, effectsOf_handled, effectsOf_outcomeObs_other x hk, List.append_nil]
  refine ⟨⟨?_, hrx.trans L.running.2⟩, ?_, ?_, ?_, ?_, ?_⟩
  · show drained x.state = false
    unfold drained
    rw [hrx, L.running.2]
    rfl
  · intro k
    have hbal := L.balance k
    rw [RouterSys.inFlight, hflights.countP_eq, List.countP_cons] at hbal
    rw [hhandled, hdispatched, RouterSys.inFlight, ← hbal]
    by_cases hk : o.token = k
    · simp [hk]
      omega
    · simp [hk]
  · intro k
    rw [hdispatched]
    exact L.once k
  · intro k hk
    have hfresh := L.fresh k hk
    have hne : o.token ≠ k := by
      intro heq
      rw [heq] at hopen
      omega
    rw [hdispatched, hother k hne]
    exact hfresh
  · intro k hd hh
    have hne : o.token ≠ k := by
      intro heq
      rw [hhandled, if_pos heq] at hh
      simp at hh
    rw [hhandled, if_neg hne, List.append_nil] at hh
    rw [hother k hne]
    exact L.quiet k (by rwa [hdispatched] at hd) hh
  · intro k latest r hm
    rw [hhandled] at hm
    by_cases hk : o.token = k
    · -- the account just closed: all its effects are those of this outcome
      subst hk
      rw [if_pos rfl, hunhandled] at hm
      simp at hm
      obtain ⟨rfl, rfl⟩ := hm
      rw [effectsOf_append, L.quiet _ hopen hunhandled, effectsOf_handled, List.nil_append]
      refine ⟨?_, ?_⟩
      · intro hcur
        exact effectsOf_current o.token (by rw [hoepoch, N.epoch, hcur])
      · intro hsup
        exact ⟨o.skill, effectsOf_superseded o.token (by rw [hoepoch, N.epoch]; exact Ne.symm hsup)⟩
    · rw [if_neg hk, List.append_nil] at hm
      rw [hother k hk]
      exact L.settled k latest r hm

/-- **One step.** -/
theorem ledger_step {deps : RouterDeps} {h o : List RouterObs} {s s' : RouterSys} {a : RouterAction}
    (L : Ledger deps h s) (N : Numbered s) (ha : a.Live)
    (hs : (RouterSys.machine deps).step s a = some (s', o)) : Ledger deps (h ++ o) s' := by
  obtain ⟨-, hstep⟩ := RouterSys.step_cases hs
  cases hstep with
  | partial_ t rules llmOpen hp =>
    rw [List.append_nil]
    exact L
  | final t rules llmOpen hrx hfinal =>
    cases ha
    apply L.final (onFinal_turn deps s.router t rules (s.finals + 1) true)
    intro e he
    rcases mem_onFinal_events he with ⟨rfl, -⟩ | h
    · exact ⟨rfl, rfl⟩
    · exact h.2
  | closed => cases ha
  | report a i t result htask hby hroom =>
    rw [List.append_nil]
    exact L.congr rfl rfl rfl (report_flights result htask)
  | outcome links out rest hhead =>
    cases ha
    exact L.outcome N hhead
  | cancel => cases ha

theorem finals_mono {deps : RouterDeps} {s s' : RouterSys} {a : RouterAction} {o : List RouterObs}
    (hs : (RouterSys.machine deps).step s a = some (s', o)) : s.finals ≤ s'.finals := by
  obtain ⟨-, hstep⟩ := RouterSys.step_cases hs
  cases hstep with
  | final t rules llmOpen hrx hfinal =>
    rw [applyTurn_finals]
    omega
  | _ => exact le_refl _

/-! ## Runs -/

theorem finals_eq_finalsOf {deps : RouterDeps} {as : List RouterAction} {s : RouterSys} {h : List RouterObs}
    (hrun : (RouterSys.machine deps).run RouterSys.init as = some (s, h)) : s.finals = finalsOf h := by
  have hinv := Machine.run_invariant (M := RouterSys.machine deps)
    (P := fun h s => s.finals = finalsOf h) ?_ (h := []) (s := RouterSys.init) rfl hrun
  · simpa using hinv
  · intro h s a s' o hP hs
    obtain ⟨-, hstep⟩ := RouterSys.step_cases hs
    cases hstep with
    | final t rules llmOpen hrx hfinal =>
      rw [finalsOf_append, finalsOf_turnObs, ← hP]
      exact applyTurn_finals s _
    | outcome links out rest hhead =>
      rw [finalsOf_append, ← hP]
      exact (Nat.add_zero _).symm.trans (congrArg _ (finalsOf_outcomeObs out.token _).symm)
    | _ => simpa using hP

theorem ledger_run {deps : RouterDeps} {as : List RouterAction} {s s' : RouterSys} {h o : List RouterObs}
    (hlive : ∀ a ∈ as, a.Live) (hL : s.finals < 2 ^ 64 → Numbered s ∧ Ledger deps h s)
    (hrun : (RouterSys.machine deps).run s as = some (s', o)) :
    s'.finals < 2 ^ 64 → Numbered s' ∧ Ledger deps (h ++ o) s' := by
  refine Machine.run_invariant_along (M := RouterSys.machine deps)
    (P := fun h s => s.finals < 2 ^ 64 → Numbered s ∧ Ledger deps h s) (C := fun _ _ a => a.Live) ?_
    as h s s' o hL (Machine.along_of_forall as h s (fun a ha _ _ => hlive a ha)) hrun
  intro h s a s' o hP ha hs hbound
  have hmono := finals_mono hs
  obtain ⟨N, L⟩ := hP (by omega)
  exact ⟨numbered_step N hs hbound, ledger_step L N ha hs⟩

/-! ## Reports -/

/-- The task of utterance `k` reports `r`: its skill has answered that, or its
cancellation won. -/
def RouterSys.Reports (k : Nat) (skill : Text) (r : SkillResult) (s : RouterSys) (a : RouterAction) : Prop :=
  ∃ i t, s.tasks[i]? = some t ∧ t.dispatch.token = k ∧ t.dispatch.skill = skill ∧
    (a = .finish i r ∨ (a = .abandon i ∧ t.cancelled = true ∧ r = cancelledResult))

/-- Its skill has answered that. -/
def RouterSys.Answers (k : Nat) (skill : Text) (r : SkillResult) (s : RouterSys) (a : RouterAction) : Prop :=
  ∃ i t, s.tasks[i]? = some t ∧ t.dispatch.token = k ∧ t.dispatch.skill = skill ∧ a = .finish i r

/-- It did so at some step of the run. -/
def Reported (deps : RouterDeps) (as : List RouterAction) (k : Nat) (skill : Text) (r : SkillResult) : Prop :=
  (RouterSys.machine deps).Sometime .init (fun _ s a => s.Reports k skill r a) as

def Answered (deps : RouterDeps) (as : List RouterAction) (k : Nat) (skill : Text) (r : SkillResult) : Prop :=
  (RouterSys.machine deps).Sometime .init (fun _ s a => s.Answers k skill r a) as

/-- What waits in the outcome channel, and what is handled, was reported, and is
an answer if it is of the newest utterance: only older ones are cancelled. -/
structure FromReports (deps : RouterDeps) (as : List RouterAction) (h : List RouterObs) (s : RouterSys) : Prop where
  superseded : ∀ t ∈ s.tasks, t.cancelled = true → t.dispatch.token < s.finals
  waiting : ∀ o ∈ s.outcomes, Reported deps as o.token o.skill o.result ∧
    (o.token = s.finals → Answered deps as o.token o.skill o.result)
  handled : ∀ k latest r, .handled k latest r ∈ h → ∃ skill, Reported deps as k skill r ∧
    (latest = k → Answered deps as k skill r) ∧
    (latest ≠ k → .event k (.skillCancelled deps.session skill) ∈ h)

theorem FromReports.keep {deps : RouterDeps} {as : List RouterAction} {h o : List RouterObs} {s s' : RouterSys}
    (F : FromReports deps as h s) (a : RouterAction)
    (hsuperseded : ∀ t ∈ s'.tasks, t.cancelled = true → t.dispatch.token < s'.finals)
    (houtcomes : s'.outcomes = s.outcomes) (hnewest : ∀ o ∈ s.outcomes, o.token = s'.finals → o.token = s.finals)
    (hhandled : ∀ k latest r, .handled k latest r ∉ o) : FromReports deps (as ++ [a]) (h ++ o) s' where
  superseded := hsuperseded
  waiting := by
    rw [houtcomes]
    intro o ho
    obtain ⟨hreported, hanswered⟩ := F.waiting o ho
    exact ⟨hreported.concat a, fun heq => (hanswered (hnewest o ho heq)).concat a⟩
  handled := by
    intro k latest r hm
    rcases List.mem_append.mp hm with hold | hnew
    · obtain ⟨skill, hreported, hanswered, hcancelled⟩ := F.handled k latest r hold
      exact ⟨skill, hreported.concat a, fun heq => (hanswered heq).concat a,
        fun hne => List.mem_append_left o (hcancelled hne)⟩
    · exact absurd hnew (hhandled k latest r)

theorem mem_cancelTask {token : Option Nat} {tasks : List Task} {t : Task} (h : t ∈ cancelTask token tasks) :
    ∃ t₀ ∈ tasks, t.dispatch = t₀.dispatch := by
  obtain ⟨t₀, ht₀, rfl⟩ := List.mem_map.mp h
  refine ⟨t₀, ht₀, ?_⟩
  split <;> rfl

/-- A cancelled task was there before the turn. -/
theorem mem_applyTurn {s : RouterSys} {turn : Turn} {t : Task} (h : t ∈ (s.applyTurn turn).tasks)
    (hcancelled : t.cancelled = true) : ∃ t₀ ∈ s.tasks, t.dispatch = t₀.dispatch := by
  unfold RouterSys.applyTurn at h
  cases hnext : turn.next with
  | dispatch d =>
    rw [hnext] at h
    rcases List.mem_append.mp h with hold | hnew
    · exact mem_cancelTask hold
    · rw [List.mem_singleton.mp hnew] at hcancelled
      cases hcancelled
  | prompt p =>
    rw [hnext] at h
    exact mem_cancelTask h
  | llmGone =>
    rw [hnext] at h
    exact mem_cancelTask h

theorem outcomes_applyTurn (s : RouterSys) (turn : Turn) : (s.applyTurn turn).outcomes = s.outcomes := by
  unfold RouterSys.applyTurn
  cases turn.next <;> rfl

theorem cancelled_mem_outcomeObs {deps : RouterDeps} {links : Links} {st : RouterState} {o : DispatchOutcome}
    (hne : o.epoch ≠ st.epoch) :
    .event o.token (.skillCancelled deps.session o.skill) ∈ outcomeObs o.token (handleOutcome deps links st o) := by
  unfold handleOutcome outcomeObs
  rw [if_pos (by rw [clearPending_epoch]; exact hne)]
  exact List.mem_cons_self

/-- **One step** of the reports. -/
theorem reported_step {deps : RouterDeps} {as : List RouterAction} {h o : List RouterObs} {s s' : RouterSys}
    {a : RouterAction} (hrun : (RouterSys.machine deps).run .init as = some (s, h)) (F : FromReports deps as h s)
    (N : Numbered s) (hs : (RouterSys.machine deps).step s a = some (s', o)) :
    FromReports deps (as ++ [a]) (h ++ o) s' := by
  obtain ⟨-, hstep⟩ := RouterSys.step_cases hs
  have htasks : ∀ t ∈ s.tasks, t.dispatch.token ≤ s.finals := fun t ht =>
    (N.flights (t.dispatch.token, t.dispatch.epoch) (List.mem_append_left _ (List.mem_map_of_mem ht))).2
  have hwaiting : ∀ o ∈ s.outcomes, o.token ≤ s.finals := fun o ho =>
    (N.flights (o.token, o.epoch) (List.mem_append_right _ (List.mem_map_of_mem ho))).2
  cases hstep with
  | partial_ t rules llmOpen hp => exact F.keep _ F.superseded rfl (fun _ _ heq => heq) nofun
  | final t rules llmOpen hrx hfinal =>
    refine F.keep _ ?_ (outcomes_applyTurn s _) ?_ ?_
    · intro task htask hcancelled
      obtain ⟨task₀, htask₀, hsame⟩ := mem_applyTurn htask hcancelled
      rw [hsame, applyTurn_finals]
      exact Nat.lt_succ_of_le (htasks task₀ htask₀)
    · intro o ho heq
      have hle := hwaiting o ho
      rw [applyTurn_finals] at heq
      omega
    · intro k latest r hm
      rcases mem_turnObs hm with heq | ⟨e, -, heq⟩ | ⟨d, -, heq⟩ | ⟨p, -, heq⟩ <;> cases heq
  | closed hrx => exact F.keep _ F.superseded rfl (fun _ _ heq => heq) nofun
  | cancel => exact F.keep _ F.superseded rfl (fun _ _ heq => heq) nofun
  | report _ i t result htask hby hroom =>
    have hkept : FromReports deps (as ++ [a]) (h ++ []) s :=
      F.keep a F.superseded rfl (fun _ _ heq => heq) nofun
    refine ⟨fun task hmem => F.superseded task (List.mem_of_mem_eraseIdx hmem), ?_, hkept.handled⟩
    intro o ho
    rcases List.mem_append.mp ho with hold | hnew
    · exact hkept.waiting o hold
    · rw [List.mem_singleton.mp hnew]
      refine ⟨Machine.Sometime.last hrun ⟨i, t, htask, rfl, rfl, hby⟩, ?_⟩
      intro heq
      rcases hby with hfinish | ⟨-, hcancelled, -⟩
      · exact Machine.Sometime.last hrun ⟨i, t, htask, rfl, rfl, hfinish⟩
      · exact absurd heq (Nat.ne_of_lt (F.superseded t (List.mem_of_getElem? htask) hcancelled))
  | outcome links out rest hhead =>
    have hmem : out ∈ s.outcomes := by
      rw [hhead]
      exact List.mem_cons_self
    obtain ⟨hreported, hanswered⟩ := F.waiting out hmem
    refine ⟨F.superseded, ?_, ?_⟩
    · intro o ho
      obtain ⟨hreported, hanswered⟩ := F.waiting o (by rw [hhead]; exact List.mem_cons_of_mem out ho)
      exact ⟨hreported.concat _, fun heq => (hanswered heq).concat _⟩
    · intro k latest r hm
      rcases List.mem_append.mp hm with hold | hnew
      · obtain ⟨skill, hreported, hanswered, hcancelled⟩ := F.handled k latest r hold
        exact ⟨skill, hreported.concat _, fun heq => (hanswered heq).concat _,
          fun hne => List.mem_append_left _ (hcancelled hne)⟩
      · rcases List.mem_cons.mp hnew with heq | hobs
        · cases heq
          refine ⟨out.skill, hreported.concat _, fun heq => (hanswered heq.symm).concat _, ?_⟩
          intro hne
          have hepoch : out.epoch = out.token :=
            (N.flights (out.token, out.epoch) (by simp [RouterSys.flights, hhead])).1
          refine List.mem_append_right h (List.mem_cons_of_mem _ (cancelled_mem_outcomeObs ?_))
          rw [hepoch, N.epoch]
          exact Ne.symm hne
        · have hsome : (latest, r) ∈ handlingsOf k (outcomeObs out.token (handleOutcome deps links s.router out)) :=
            mem_handlingsOf.mpr hobs
          rw [handlingsOf_outcomeObs] at hsome
          cases hsome

theorem reported_run {deps : RouterDeps} {as : List RouterAction} {s : RouterSys} {h : List RouterObs}
    (hrun : (RouterSys.machine deps).run .init as = some (s, h)) (hbound : s.finals < 2 ^ 64) :
    FromReports deps as h s := by
  have hinv := (RouterSys.machine deps).run_actions
    (P := fun as h s => s.finals < 2 ^ 64 → Numbered s ∧ FromReports deps as h s)
    (fun _ => ⟨numbered_init, nofun, nofun, nofun⟩) ?_ as s h hrun
  · exact (hinv hbound).2
  · intro as h s a s' o hr hP hs hbound
    have hmono := finals_mono hs
    obtain ⟨N, F⟩ := hP (by omega)
    exact ⟨numbered_step N hs hbound, reported_step hr F N hs⟩

/-- A skill answers, or the router takes an outcome. -/
def RouterAction.IsDrain : RouterAction → Prop
  | .finish .. => True
  | .outcome links => links = .up
  | _ => False

/-- A running router can always be driven until nothing is in flight: take the
outcomes, then let each task answer and take its outcome. -/
theorem exists_drain (deps : RouterDeps) : ∀ (n : Nat) (s : RouterSys), s.exited = false →
    s.router.rxClosed = false → 2 * s.tasks.length + s.outcomes.length = n →
    ∃ bs s' o, (RouterSys.machine deps).run s bs = some (s', o) ∧ (∀ a ∈ bs, a.IsDrain) ∧
      s'.flights = [] ∧ s'.finals = s.finals := by
  intro n
  induction n with
  | zero =>
    intro s _ _ hn
    refine ⟨[], s, [], rfl, (by simp), ?_, rfl⟩
    have htasks : s.tasks = [] := List.eq_nil_of_length_eq_zero (by omega)
    have houtcomes : s.outcomes = [] := List.eq_nil_of_length_eq_zero (by omega)
    simp [RouterSys.flights, htasks, houtcomes]
  | succ n ih =>
    intro s hrun hrx hn
    -- one drain step leads to a state the induction hypothesis continues from
    have hcont : ∀ (a : RouterAction) (s₁ : RouterSys) (o₁ : List RouterObs), a.IsDrain →
        (RouterSys.machine deps).step s a = some (s₁, o₁) → s₁.exited = false →
        s₁.router.rxClosed = false → 2 * s₁.tasks.length + s₁.outcomes.length = n →
        s₁.finals = s.finals →
        ∃ bs s' o, (RouterSys.machine deps).run s bs = some (s', o) ∧ (∀ a ∈ bs, a.IsDrain) ∧
          s'.flights = [] ∧ s'.finals = s.finals := by
      intro a s₁ o₁ ha hstep hrun₁ hrx₁ hn₁ hf₁
      obtain ⟨bs, s', o, hbs, hdrain, hempty, hf⟩ := ih s₁ hrun₁ hrx₁ hn₁
      refine ⟨a :: bs, s', o₁ ++ o, ?_, ?_, hempty, hf.trans hf₁⟩
      · exact (Machine.run_cons_some _).mpr ⟨s₁, o₁, o, hstep, hbs, rfl⟩
      · intro b hb
        rcases List.mem_cons.mp hb with rfl | hb
        · exact ha
        · exact hdrain b hb
    cases houtcomes : s.outcomes with
    | cons out rest =>
      obtain ⟨-, hrx', -⟩ := handleOutcome_state deps .up s.router out
      refine hcont (.outcome .up)
        { s with router := (handleOutcome deps .up s.router out).state, outcomes := rest,
                 exited := drained (handleOutcome deps .up s.router out).state }
        (.handled out.token s.finals out.result :: outcomeObs out.token (handleOutcome deps .up s.router out))
        rfl ?_ ?_ (hrx'.trans hrx) ?_ rfl
      · simp [RouterSys.machine, RouterSys.step, hrun, houtcomes, outcomeObs]
      · show drained _ = false
        unfold drained
        rw [hrx', hrx]
        rfl
      · rw [houtcomes, List.length_cons] at hn
        show 2 * s.tasks.length + rest.length = n
        omega
    | nil =>
      cases htasks : s.tasks with
      | nil => simp [houtcomes, htasks] at hn
      | cons t rest =>
        refine hcont (.finish 0 (.ok .empty))
          { s with tasks := rest, outcomes := [t.outcome (.ok .empty)] } [] trivial ?_ hrun hrx ?_ rfl
        · simp [RouterSys.machine, RouterSys.step, hrun, htasks, RouterSys.report, houtcomes,
            RouterSys.OUTCOME_CAPACITY]
        · rw [houtcomes, htasks] at hn
          simp only [List.length_cons, List.length_nil] at hn ⊢
          omega

/-- A session whose every utterance matches the clock skill. -/
def clockDeps : RouterDeps :=
  { session := 7, locale := "en".toList, dispatcher := true
    matcher := fun _ _ _ => some
      { intent := { name := "time.query".toList, slots := [], locale := [] }, skill := "clock".toList,
        confidence := 1, specificity := 3 } }

/-- Two utterances; the first one's skill answers after the second is heard, and
then the second one's. -/
def supersession : List RouterAction :=
  [.transcript ⟨"what time is it".toList, true⟩ .new true,
   .transcript ⟨"what time is it".toList, true⟩ .new true,
   .finish 0 (.ok (.speak "noon".toList)), .outcome .up,
   .finish 0 (.ok (.speak "one".toList)), .outcome .up]

end AthenaVoice.Pipeline
