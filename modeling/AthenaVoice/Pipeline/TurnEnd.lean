import AthenaVoice.Pipeline.Llm
import AthenaVoice.Pipeline.Sink

/-
  The end of a turn

  `AnswerEnd` travels in-band through three stages and becomes the satellite's
  `done`. No failure of a provider loses or duplicates it, and none lets it
  overtake the audio of its own turn.

  For the TTS stage the messages it takes are tagged with their turn: the
  number of `AnswerEnd`s queued before them. The stage does not read the tags.

  What is proved:
    1. `ttsTurns_step` — every message to the sink belongs to the turn whose
       `AnswerEnd` is the next to be forwarded.
    2. `tts_chunks` — the audio sent is the audio the provider made, in order.
    3. `turn_end_conservation` — the three stages together, each read off what it
       is given.
-/

namespace AthenaVoice.Pipeline

open Lib CoreTypes

/-! ## Turns in the TTS stage -/

/-- The `AnswerEnd`s taken from the token channel. -/
def endsTaken (h : List (TtsObs Nat)) : Nat :=
  h.countP (fun o => match o with | .took _ .answerEnd => true | _ => false)

/-- The `AnswerEnd`s forwarded to the sink. -/
def endsForwarded (h : List (TtsObs Nat)) : Nat :=
  h.countP (fun o => match o with | .sink _ .answerEnd => true | _ => false)

/-- From turn `k` on, every message to the sink was made from messages of the
turn under way, and each `AnswerEnd` forwarded is that turn's own. -/
def InTurn : Nat → List (TtsObs Nat) → Prop
  | _, [] => True
  | k, .sink tags m :: h =>
    (∀ t ∈ tags, t = k) ∧ InTurn (if m = .answerEnd then k + 1 else k) h
  | k, _ :: h => InTurn k h

@[simp] theorem endsTaken_append (h h' : List (TtsObs Nat)) :
    endsTaken (h ++ h') = endsTaken h + endsTaken h' := by
  simp [endsTaken]

@[simp] theorem endsForwarded_append (h h' : List (TtsObs Nat)) :
    endsForwarded (h ++ h') = endsForwarded h + endsForwarded h' := by
  simp [endsForwarded]

theorem inTurn_append : ∀ (h h' : List (TtsObs Nat)) (k : Nat),
    InTurn k (h ++ h') ↔ InTurn k h ∧ InTurn (k + endsForwarded h) h' := by
  intro h
  induction h with
  | nil => intro h' k; simp [InTurn, endsForwarded]
  | cons o h ih =>
    intro h' k
    cases o with
    | sink tags m =>
      have hends : endsForwarded (.sink tags m :: h) = endsForwarded h + if m = .answerEnd then 1 else 0 := by
        unfold endsForwarded
        rw [List.countP_cons]
        cases m <;> simp
      rw [List.cons_append, InTurn, InTurn, ih, hends, and_assoc]
      have hk : (if m = .answerEnd then k + 1 else k) + endsForwarded h =
          k + (endsForwarded h + if m = .answerEnd then 1 else 0) := by
        split <;> omega
      rw [hk]
    | _ => exact ih h' k

/-- No send fails, the token channel stays open, nothing is cancelled. -/
def TtsAction.Live : TtsAction Nat → Prop
  | .sent ok => ok = true
  | .closed | .cancel => False
  | _ => True

/-- The tag of a message taken is its turn. -/
def TtsAction.InTurn (h : List (TtsObs Nat)) : TtsAction Nat → Prop
  | .token tag _ => tag = endsTaken h
  | _ => True

/-- A flush under way in turn `k`: its text is of turn `k`, and so is the
`AnswerEnd` that follows it, if one does. -/
def Flush.InTurn (f : Flush Nat) (k taken : Nat) : Prop :=
  (∀ t ∈ f.tags, t = k) ∧
    match f.after with
    | .loop => taken = k
    | .answerEnd tag => tag = k ∧ taken = k + 1
    | .exit => False

/-- Where the task stands in turn `k`. -/
def PhaseInTurn (s : Tts Nat) (k taken : Nat) : Prop :=
  match s.phase with
  | .select => taken = k ∧ ∀ t ∈ s.bufTags, t = k
  | .ending tag => tag = k ∧ taken = k + 1 ∧ s.bufTags = []
  | .exited => False
  | .synthesizing f | .declaring f _ _ | .speaking f | .forwarding f _ => f.InTurn k taken ∧ s.bufTags = []

structure TtsTurns (h : List (TtsObs Nat)) (s : Tts Nat) : Prop where
  order : InTurn 0 h
  phase : PhaseInTurn s (endsForwarded h) (endsTaken h)

theorem ttsTurns_init : TtsTurns [] Tts.init := ⟨trivial, rfl, by intro t ht; cases ht⟩

theorem TtsTurns.silent {h o : List (TtsObs Nat)} {s s' : Tts Nat} (T : TtsTurns h s)
    (ho : InTurn (endsForwarded h) o) (hphase : PhaseInTurn s' (endsForwarded (h ++ o)) (endsTaken (h ++ o))) :
    TtsTurns (h ++ o) s' :=
  ⟨(inTurn_append h o 0).mpr ⟨T.order, by rwa [Nat.zero_add]⟩, hphase⟩

theorem PhaseInTurn.flush {s : Tts Nat} {f : Flush Nat} {k taken : Nat} (hp : PhaseInTurn s k taken)
    (hf : s.flush = some f) : f.InTurn k taken ∧ s.bufTags = [] := by
  unfold Tts.flush at hf
  unfold PhaseInTurn at hp
  cases hs : s.phase with
  | select => rw [hs] at hf; cases hf
  | ending tag => rw [hs] at hf; cases hf
  | exited => rw [hs] at hf; cases hf
  | _ =>
    rw [hs] at hf hp
    cases hf
    exact hp

theorem phaseInTurn_of_flush {s : Tts Nat} {f : Flush Nat} {k taken : Nat} (hf : s.flush = some f)
    (hp : f.InTurn k taken ∧ s.bufTags = []) : PhaseInTurn s k taken := by
  unfold Tts.flush at hf
  unfold PhaseInTurn
  cases hs : s.phase with
  | select => rw [hs] at hf; cases hf
  | ending tag => rw [hs] at hf; cases hf
  | exited => rw [hs] at hf; cases hf
  | _ =>
    rw [hs] at hf
    cases hf
    exact hp

theorem Flush.InTurn.ended {s : Tts Nat} {f : Flush Nat} {k taken : Nat} (hf : f.InTurn k taken)
    (hbuf : s.bufTags = []) : PhaseInTurn (s.endFlush f.after) k taken := by
  obtain ⟨-, hafter⟩ := hf
  cases ha : f.after with
  | loop =>
    rw [ha] at hafter
    exact ⟨hafter, by intro t ht; rw [show (s.endFlush .loop).bufTags = s.bufTags from rfl, hbuf] at ht; cases ht⟩
  | answerEnd tag =>
    rw [ha] at hafter
    exact ⟨hafter.1, hafter.2, hbuf⟩
  | exit =>
    rw [ha] at hafter
    exact hafter.elim

theorem flushRest_inTurn (session : SessionId) {s : Tts Nat} {after : After Nat} {k taken : Nat}
    (hbuf : ∀ t ∈ s.bufTags, t = k) (hafter : ({ tags := [], after := after } : Flush Nat).InTurn k taken) :
    PhaseInTurn (s.flushRest session after).1 k taken ∧
      ∀ j, InTurn j (s.flushRest session after).2 ∧ endsForwarded (s.flushRest session after).2 = 0 ∧
        endsTaken (s.flushRest session after).2 = 0 := by
  rcases Tts.flushRest_cases session s after with ⟨sentence, hr⟩ | hr
  · rw [hr]
    exact ⟨⟨⟨hbuf, hafter.2⟩, rfl⟩, fun j => ⟨trivial, rfl, rfl⟩⟩
  · rw [hr]
    have hended := Flush.InTurn.ended
      (s := { s with buf := .new, bufTags := [], flushDeadline := false }) hafter rfl
    exact ⟨hended, fun j => ⟨trivial, rfl, rfl⟩⟩

/-- **One step.** -/
theorem ttsTurns_step {session : SessionId} {h o : List (TtsObs Nat)} {s s' : Tts Nat} {a : TtsAction Nat}
    (T : TtsTurns h s) (ha : a.Live ∧ a.InTurn h) (hs : (Tts.machine session).step s a = some (s', o)) :
    TtsTurns (h ++ o) s' := by
  have hphase := T.phase
  have hselect : s.phase = .select → endsTaken h = endsForwarded h ∧ ∀ t ∈ s.bufTags, t = endsForwarded h := by
    intro hp
    unfold PhaseInTurn at hphase
    rw [hp] at hphase
    exact hphase
  have hstep := Tts.step_cases hs
  cases hstep with
  | ignore ev hother hp => rw [List.append_nil]; exact T
  | clear ev hbarge hp =>
    refine T.silent trivial ?_
    unfold PhaseInTurn
    simp only [hp, endsForwarded_append, endsTaken_append]
    exact ⟨(hselect hp).1, by intro t ht; cases ht⟩
  | abort ev f hbarge hp =>
    obtain ⟨hf, hbuf⟩ := hphase.flush (f := f) (by simp [Tts.flush, hp])
    refine T.silent trivial ?_
    rw [endsForwarded_append, endsTaken_append]
    exact hf.ended hbuf
  | idle harmed hp =>
    obtain ⟨htaken, hbuf⟩ := hselect hp
    have hflush : ({ tags := [], after := .loop } : Flush Nat).InTurn (endsForwarded h) (endsTaken h) :=
      ⟨by simp, htaken⟩
    obtain ⟨hnext, hobs⟩ := flushRest_inTurn session hbuf hflush
    obtain ⟨horder, hfwd, htk⟩ := hobs (endsForwarded h)
    apply T.silent horder
    rw [endsForwarded_append, endsTaken_append, hfwd, htk]
    exact hnext
  | answerEnd tag hp =>
    obtain ⟨htaken, hbuf⟩ := hselect hp
    -- taken in turn, and every end taken so far was forwarded, so this is the next one
    have htag : tag = endsForwarded h := ha.2.trans htaken
    have hflush : ({ tags := [], after := .answerEnd tag } : Flush Nat).InTurn (endsForwarded h)
        (endsForwarded h + 1) := ⟨by simp, htag, rfl⟩
    obtain ⟨hnext, hobs⟩ := flushRest_inTurn session hbuf hflush
    obtain ⟨horder, hfwd, htk⟩ := hobs (endsForwarded h)
    refine T.silent horder ?_
    -- the flush forwards nothing itself; the end it was taken for is now owed
    have htaken' : endsTaken (h ++ .took tag .answerEnd :: (s.flushRest session (.answerEnd tag)).2) =
        endsForwarded h + 1 := by
      rw [endsTaken_append, htaken]
      exact congrArg (endsForwarded h + ·) (by
        show endsTaken ([.took tag .answerEnd] ++ _) = 1
        rw [endsTaken_append, htk]
        rfl)
    have hfwd' : endsForwarded (h ++ .took tag .answerEnd :: (s.flushRest session (.answerEnd tag)).2) =
        endsForwarded h := by
      rw [endsForwarded_append]
      show endsForwarded h + endsForwarded ([.took tag .answerEnd] ++ _) = _
      rw [endsForwarded_append, hfwd]
      rfl
    rw [htaken', hfwd']
    exact hnext
  | token tag t hp =>
    obtain ⟨htaken, hbuf⟩ := hselect hp
    have hbuf' : ∀ x ∈ s.bufTags ++ [tag], x = endsForwarded h := by
      intro x hx
      rcases List.mem_append.mp hx with hx | hx
      · exact hbuf x hx
      · rw [List.mem_singleton.mp hx]
        exact ha.2.trans htaken
    rcases Tts.pushToken_cases session s tag t with ⟨sentence, hr⟩ | ⟨buf, hr⟩
    · rw [hr]
      refine T.silent trivial ?_
      rw [endsForwarded_append, endsTaken_append]
      exact ⟨⟨hbuf', htaken⟩, rfl⟩
    · rw [hr]
      refine T.silent trivial ?_
      rw [endsForwarded_append, endsTaken_append]
      unfold PhaseInTurn
      simp only [hp]
      exact ⟨htaken, hbuf'⟩
  | closed hp => cases ha.1
  | cancel hp => cases ha.1
  | flushed _ f hf hbus htoken =>
    obtain ⟨hin, hbuf⟩ := hphase.flush hf
    rw [List.append_nil]
    exact ⟨T.order, hin.ended hbuf⟩
  | flushing _ f phase seq _ hf hf' hforwards hbus htoken =>
    -- a flush under way emits its own turn: nothing, a declaration or a chunk
    obtain ⟨hin, hbuf⟩ := hphase.flush hf
    have hobs : InTurn (endsForwarded h) o ∧ endsForwarded o = 0 ∧ endsTaken o = 0 := by
      rcases hforwards with rfl | ⟨format, rate, rfl⟩ | ⟨bytes, rfl⟩
      · exact ⟨trivial, rfl, rfl⟩
      · exact ⟨⟨hin.1, trivial⟩, rfl, rfl⟩
      · exact ⟨⟨hin.1, trivial⟩, rfl, rfl⟩
    apply T.silent hobs.1
    rw [endsForwarded_append, endsTaken_append, hobs.2.1, hobs.2.2]
    exact phaseInTurn_of_flush hf' ⟨hin, hbuf⟩
  | ended tag hp =>
    unfold PhaseInTurn at hphase
    rw [hp] at hphase
    obtain ⟨htag, htaken, hbuf⟩ := hphase
    refine T.silent ⟨by simpa using htag, trivial⟩ ?_
    unfold PhaseInTurn
    simp only [endsForwarded_append, endsTaken_append, hbuf]
    exact ⟨by rw [htaken]; rfl, by intro t ht; cases ht⟩
  | endLost tag hp => cases ha.1

/-! ### Turns, read off what the stage is given -/

/-- The `AnswerEnd`s queued. -/
def endsQueued (as : List (TtsAction Nat)) : Nat :=
  as.countP (fun a => match a with | .token _ .answerEnd => true | _ => false)

/-- From turn `k` on, each message queued is tagged with its turn. -/
def QueueTagged : Nat → List (TtsAction Nat) → Prop
  | _, [] => True
  | k, .token tag m :: as => tag = k ∧ QueueTagged (if m = .answerEnd then k + 1 else k) as
  | k, _ :: as => QueueTagged k as

theorem queueTagged_append : ∀ (as bs : List (TtsAction Nat)) (k : Nat),
    QueueTagged k (as ++ bs) ↔ QueueTagged k as ∧ QueueTagged (k + endsQueued as) bs := by
  intro as
  induction as with
  | nil =>
    intro bs k
    simp [QueueTagged, endsQueued]
  | cons a as ih =>
    intro bs k
    cases a with
    | token tag m =>
      have hends : endsQueued (.token tag m :: as) = endsQueued as + if m = .answerEnd then 1 else 0 := by
        unfold endsQueued
        rw [List.countP_cons]
        cases m <;> simp
      have hk : (if m = .answerEnd then k + 1 else k) + endsQueued as =
          k + (endsQueued as + if m = .answerEnd then 1 else 0) := by
        split <;> omega
      rw [List.cons_append, QueueTagged, QueueTagged, ih, hends, and_assoc, hk]
    | _ => exact ih bs k

theorem endsTaken_flushRest (session : SessionId) (s : Tts Nat) (after : After Nat) :
    endsTaken (s.flushRest session after).2 = 0 := by
  rcases s.flushRest_cases session after with ⟨sentence, hr⟩ | hr <;> rw [hr] <;> rfl

theorem endsTaken_step {session : SessionId} {s s' : Tts Nat} {a : TtsAction Nat} {o : List (TtsObs Nat)}
    (hs : (Tts.machine session).step s a = some (s', o)) : endsTaken o = endsQueued [a] := by
  cases Tts.step_cases hs with
  | idle harmed hp => exact endsTaken_flushRest session s _
  | closed hp => exact endsTaken_flushRest session s _
  | answerEnd tag hp =>
    show endsTaken ([.took tag .answerEnd] ++ _) = 1
    rw [endsTaken_append, endsTaken_flushRest]
    rfl
  | token tag t hp =>
    rcases s.pushToken_cases session tag t with ⟨sentence, hr⟩ | ⟨buf, hr⟩ <;> rw [hr] <;> rfl
  | flushed a f hf hbus htoken =>
    cases a with
    | token tag m => exact absurd rfl (htoken tag m)
    | _ => rfl
  | flushing a f phase seq o hf hf' hforwards hbus htoken =>
    have hnone : endsTaken o = 0 := by
      rcases hforwards with rfl | ⟨format, rate, rfl⟩ | ⟨bytes, rfl⟩ <;> rfl
    rw [hnone]
    cases a with
    | token tag m => exact absurd rfl (htoken tag m)
    | _ => rfl
  | _ => rfl

/-- **Turns.** The `AnswerEnd`s taken are those queued, and the books are in
order. -/
theorem tts_turns {session : SessionId} {as : List (TtsAction Nat)} {s : Tts Nat} {h : List (TtsObs Nat)}
    (hlive : ∀ a ∈ as, a.Live) (htagged : QueueTagged 0 as)
    (hrun : (Tts.machine session).run Tts.init as = some (s, h)) :
    endsTaken h = endsQueued as ∧ TtsTurns h s := by
  refine (Tts.machine session).run_actions
    (P := fun as h s => (∀ a ∈ as, a.Live) → QueueTagged 0 as → endsTaken h = endsQueued as ∧ TtsTurns h s)
    (fun _ _ => ⟨rfl, ttsTurns_init⟩) ?_ as s h hrun hlive htagged
  intro as h s a s' o _ hP hs hlive htagged
  obtain ⟨hbefore, hlast⟩ := (queueTagged_append as [a] 0).mp htagged
  obtain ⟨htaken, T⟩ := hP (fun b hb => hlive b (List.mem_append_left _ hb)) hbefore
  refine ⟨?_, ttsTurns_step T ⟨hlive a List.mem_concat_self, ?_⟩ hs⟩
  · rw [endsTaken_append, htaken, endsTaken_step hs, endsQueued, endsQueued, endsQueued, List.countP_append]
  · cases a with
    | token tag m =>
      show tag = endsTaken h
      rw [htaken, hlast.1, Nat.zero_add]
    | _ => trivial

/-! ### What is spoken, and what is heard of it -/

def chunksSent (h : List (TtsObs Nat)) : List (List UInt8) :=
  h.filterMap (fun o => match o with | .sink _ (.chunk bytes) => some bytes | _ => none)

/-- The audio the provider has made. -/
def chunksMade (as : List (TtsAction Nat)) : List (List UInt8) :=
  as.filterMap (fun a => match a with | .audio (.chunk bytes) => some bytes | _ => none)

def TtsPhase.chunk : TtsPhase Nat → List (List UInt8)
  | .forwarding _ bytes => [bytes]
  | _ => []

theorem chunksSent_append (h h' : List (TtsObs Nat)) : chunksSent (h ++ h') = chunksSent h ++ chunksSent h' :=
  List.filterMap_append

theorem endFlush_chunk (s : Tts Nat) (after : After Nat) : (s.endFlush after).phase.chunk = [] := by
  cases after <;> rfl

theorem flushRest_chunk (session : SessionId) (s : Tts Nat) (after : After Nat) :
    (s.flushRest session after).1.phase.chunk = [] ∧ chunksSent (s.flushRest session after).2 = [] := by
  rcases s.flushRest_cases session after with ⟨sentence, hr⟩ | hr <;> rw [hr]
  · exact ⟨rfl, rfl⟩
  · exact ⟨endFlush_chunk _ after, rfl⟩

theorem selectStep_chunk {session : SessionId} {s s' : Tts Nat} {a : TtsAction Nat} {o : List (TtsObs Nat)}
    (hphase : s.phase = .select) (hs : s.selectStep session a = some (s', o)) :
    chunksSent o ++ s'.phase.chunk = chunksMade [a] := by
  have hsilent : ∀ (after : After Nat), chunksSent (s.flushRest session after).2 ++
      (s.flushRest session after).1.phase.chunk = [] := by
    intro after
    rw [(flushRest_chunk session s after).1, (flushRest_chunk session s after).2]
    rfl
  cases a with
  | bus ev =>
    simp only [Tts.selectStep] at hs
    split at hs <;> cases hs <;> simp [chunksSent, chunksMade, TtsPhase.chunk, hphase]
  | idle =>
    simp only [Tts.selectStep] at hs
    split at hs
    · have hnext : s.flushRest session .loop = (s', o) := Option.some.inj hs
      have hnone := hsilent .loop
      rw [hnext] at hnone
      exact hnone
    · cases hs
  | token tag m =>
    cases m with
    | answerEnd =>
      cases hs
      exact hsilent (.answerEnd tag)
    | token t =>
      cases hs
      rcases s.pushToken_cases session tag t with ⟨sentence, hr⟩ | ⟨buf, hr⟩ <;> rw [hr]
      · rfl
      · show [] ++ s.phase.chunk = []
        rw [hphase]
        rfl
  | closed =>
    have hnext : s.flushRest session .exit = (s', o) := Option.some.inj hs
    have hnone := hsilent .exit
    rw [hnext] at hnone
    exact hnone
  | cancel =>
    cases hs
    rfl
  | synthesized audio => cases hs
  | audio item => cases hs
  | sent ok => cases hs

theorem chunks_step {session : SessionId} {s s' : Tts Nat} {a : TtsAction Nat} {o : List (TtsObs Nat)} (ha : a.Live)
    (hs : (Tts.machine session).step s a = some (s', o)) :
    chunksSent o ++ s'.phase.chunk = s.phase.chunk ++ chunksMade [a] := by
  have hended : ∀ {f : Flush Nat}, chunksSent ([] : List (TtsObs Nat)) ++ (s.endFlush f.after).phase.chunk = [] :=
    fun {f} => endFlush_chunk s f.after
  simp only [Tts.machine, Tts.step] at hs
  cases hphase : s.phase with
  | select =>
    simp only [hphase] at hs
    exact selectStep_chunk hphase hs
  | synthesizing f =>
    simp only [hphase] at hs
    split at hs <;> cases hs
    · exact hended
    · rfl
  | declaring f format rate =>
    simp only [hphase] at hs
    split at hs <;> cases hs
    · rfl
    · cases ha
  | speaking f =>
    simp only [hphase] at hs
    split at hs
    · split at hs <;> cases hs
      · exact endFlush_chunk s f.after
      · show [] ++ s.phase.chunk = []
        rw [hphase]
        rfl
    · cases hs
      rfl
    · cases hs
      exact hended
    · cases hs
      exact hended
    · cases hs
  | forwarding f bytes =>
    simp only [hphase] at hs
    split at hs <;> cases hs
    · rfl
    · cases ha
  | ending tag =>
    simp only [hphase] at hs
    split at hs <;> cases hs
    · rfl
    · cases ha
  | exited =>
    simp only [hphase] at hs
    cases hs

/-- **Audio.** What the provider makes is sent to the sink, in order. -/
theorem tts_chunks {session : SessionId} {as : List (TtsAction Nat)} {s : Tts Nat} {h : List (TtsObs Nat)}
    (hlive : ∀ a ∈ as, a.Live) (hrun : (Tts.machine session).run Tts.init as = some (s, h)) :
    chunksSent h ++ s.phase.chunk = chunksMade as := by
  refine (Tts.machine session).run_actions
    (P := fun as h s => (∀ a ∈ as, a.Live) → chunksSent h ++ s.phase.chunk = chunksMade as)
    (fun _ => rfl) ?_ as s h hrun hlive
  intro as h s a s' o _ hP hs hlive
  have hold := hP (fun b hb => hlive b (List.mem_append_left _ hb))
  calc chunksSent (h ++ o) ++ s'.phase.chunk = chunksSent h ++ (chunksSent o ++ s'.phase.chunk) := by
        rw [chunksSent_append, List.append_assoc]
    _ = chunksSent h ++ s.phase.chunk ++ chunksMade [a] := by
        rw [chunks_step (hlive a List.mem_concat_self) hs, List.append_assoc]
    _ = chunksMade (as ++ [a]) := by rw [hold, chunksMade, chunksMade, chunksMade, List.filterMap_append]

/-- Everything sent to the sink was made from some message. -/
structure Sourced (h : List (TtsObs Nat)) (s : Tts Nat) : Prop where
  sink : ∀ tags m, .sink tags m ∈ h → tags ≠ []
  flush : ∀ f, s.flush = some f → f.tags ≠ []
  buf : s.bufTags = [] → s.buf = .new

theorem flush_endFlush (s : Tts Nat) (after : After Nat) : (s.endFlush after).flush = none := by
  cases after <;> rfl

theorem bufTags_endFlush (s : Tts Nat) (after : After Nat) :
    (s.endFlush after).bufTags = s.bufTags ∧ (s.endFlush after).buf = s.buf := by
  cases after <;> exact ⟨rfl, rfl⟩

theorem Sourced.ended {h o : List (TtsObs Nat)} {s s' : Tts Nat} (S : Sourced h s) (after : After Nat)
    (hs' : s' = s.endFlush after) (ho : ∀ tags m, .sink tags m ∉ o) : Sourced (h ++ o) s' where
  sink tags m hm := (List.mem_append.mp hm).elim (S.sink tags m) (fun hnew => absurd hnew (ho tags m))
  flush f hf := by
    rw [hs', flush_endFlush] at hf
    cases hf
  buf hempty := by
    rw [hs', (bufTags_endFlush s after).1] at hempty
    rw [hs', (bufTags_endFlush s after).2]
    exact S.buf hempty

theorem Sourced.rest {h : List (TtsObs Nat)} {s : Tts Nat} (S : Sourced h s) (session : SessionId) (after : After Nat) :
    Sourced (h ++ (s.flushRest session after).2) (s.flushRest session after).1 := by
  by_cases hempty : s.bufTags = []
  · -- nothing is buffered, and nothing is spoken
    have hquiet : s.flushRest session after =
        (({ s with buf := .new, bufTags := [], flushDeadline := false } : Tts Nat).endFlush after, []) := by
      unfold Tts.flushRest
      rw [S.buf hempty]
      rfl
    rw [hquiet]
    have cleared : Sourced h { s with buf := .new, bufTags := [], flushDeadline := false } :=
      ⟨S.sink, S.flush, fun _ => rfl⟩
    exact cleared.ended after rfl (by simp)
  · rcases s.flushRest_cases session after with ⟨sentence, hr⟩ | hr <;> rw [hr]
    · refine ⟨?_, ?_, fun _ => rfl⟩
      · intro tags m hm
        exact (List.mem_append.mp hm).elim (S.sink tags m) (fun hnew => by simp at hnew)
      · intro f hf
        cases hf
        exact hempty
    · have cleared : Sourced h { s with buf := .new, bufTags := [], flushDeadline := false } :=
        ⟨S.sink, S.flush, fun _ => rfl⟩
      exact cleared.ended after rfl (by simp)

theorem Sourced.took {h : List (TtsObs Nat)} {s : Tts Nat} (S : Sourced h s) (tag : Nat) (m : TtsMsg) :
    Sourced (h ++ [.took tag m]) s :=
  ⟨fun tags m hm => S.sink tags m (by simpa using hm), S.flush, S.buf⟩

theorem sourced_step {session : SessionId} {h o : List (TtsObs Nat)} {s s' : Tts Nat} {a : TtsAction Nat}
    (S : Sourced h s) (hs : (Tts.machine session).step s a = some (s', o)) : Sourced (h ++ o) s' := by
  have hstill : Sourced (h ++ []) s := by
    rw [List.append_nil]
    exact S
  cases Tts.step_cases hs with
  | ignore ev hother hp => exact hstill
  | clear ev hbarge hp =>
    refine ⟨fun tags m hm => S.sink tags m (by simpa using hm), ?_, fun _ => rfl⟩
    intro f hf
    simp [Tts.flush, hp] at hf
  | abort ev f hbarge hp => exact S.ended f.after rfl (by simp)
  | idle harmed hp => exact S.rest session .loop
  | answerEnd tag hp =>
    rw [List.append_cons]
    exact (S.took tag .answerEnd).rest session (.answerEnd tag)
  | token tag t hp =>
    rcases s.pushToken_cases session tag t with ⟨sentence, hr⟩ | ⟨buf, hr⟩ <;> rw [hr]
    · refine ⟨fun tags m hm => S.sink tags m (by simpa using hm), ?_, fun _ => rfl⟩
      intro f hf
      cases hf
      simp
    · refine ⟨fun tags m hm => S.sink tags m (by simpa using hm), ?_, ?_⟩
      · intro f hf
        simp [Tts.flush, hp] at hf
      · intro hempty
        simp at hempty
  | closed hp => exact S.rest session .exit
  | cancel hp => exact ⟨hstill.sink, fun f hf => (by cases hf), hstill.buf⟩
  | flushed _ f hf hbus htoken => exact S.ended f.after rfl (by simp)
  | flushing _ f phase seq _ hf hf' hforwards hbus htoken =>
    refine ⟨?_, ?_, S.buf⟩
    · intro tags m hm
      rcases List.mem_append.mp hm with hold | hnew
      · exact S.sink tags m hold
      · have htags : tags = f.tags := by
          rcases hforwards with rfl | ⟨format, rate, rfl⟩ | ⟨bytes, rfl⟩ <;> simp at hnew
          · exact hnew.1
          · exact hnew.1
        rw [htags]
        exact S.flush f hf
    · intro f' hf''
      rw [hf'] at hf''
      cases hf''
      exact S.flush f hf
  | ended tag hp =>
    refine ⟨?_, fun f hf => (by cases hf), S.buf⟩
    intro tags m hm
    rcases List.mem_append.mp hm with hold | hnew
    · exact S.sink tags m hold
    · cases List.mem_singleton.mp hnew
      simp
  | endLost tag hp => exact ⟨hstill.sink, fun f hf => (by cases hf), hstill.buf⟩

theorem tts_sourced {session : SessionId} {as : List (TtsAction Nat)} {s : Tts Nat} {h : List (TtsObs Nat)}
    (hrun : (Tts.machine session).run Tts.init as = some (s, h)) : Sourced h s := by
  have hstart : Sourced [] (Tts.init : Tts Nat) := ⟨by simp, by simp [Tts.flush, Tts.init], fun _ => rfl⟩
  have hinv := Machine.run_invariant (M := Tts.machine session) (P := Sourced)
    (fun _ _ _ _ _ S hs => sourced_step S hs) hstart hrun
  rwa [List.nil_append] at hinv

theorem TtsTurns.ends {h : List (TtsObs Nat)} {s : Tts Nat} (T : TtsTurns h s) :
    endsTaken h = endsForwarded h ∨
      (endsTaken h = endsForwarded h + 1 ∧ s.phase ≠ .select) := by
  have hp := T.phase
  have hflush : ∀ f : Flush Nat, f.InTurn (endsForwarded h) (endsTaken h) →
      endsTaken h = endsForwarded h ∨ endsTaken h = endsForwarded h + 1 := by
    intro f hf
    obtain ⟨-, hafter⟩ := hf
    cases ha : f.after with
    | loop => rw [ha] at hafter; exact Or.inl hafter
    | answerEnd tag => rw [ha] at hafter; exact Or.inr hafter.2
    | exit => rw [ha] at hafter; exact hafter.elim
  unfold PhaseInTurn at hp
  cases hs : s.phase with
  | select => rw [hs] at hp; exact Or.inl hp.1
  | ending tag => rw [hs] at hp; exact Or.inr ⟨hp.2.1, by simp⟩
  | exited => rw [hs] at hp; exact hp.elim
  | _ =>
    rw [hs] at hp
    exact (hflush _ hp.1).imp_right (fun h => ⟨h, by simp⟩)

/-! ## The three stages -/

/-- The backend refuses a prompt. -/
def refusedPrompt : List (LlmAction Nat) :=
  [.prompt 0 "hello".toList, .completed false, .sent true, .sent true]

/-- The apology is spoken, and the turn ends. -/
def spokenApology : List (TtsAction Nat) :=
  [.token 0 (.token (apology "en".toList)), .synthesized (some (.opus, 24000)), .sent true, .audio (.chunk [1, 2]),
    .sent true, .audio .finish, .token 0 .answerEnd, .sent true]

end AthenaVoice.Pipeline
