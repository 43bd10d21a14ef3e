import AthenaVoice.Pipeline.Router
import AthenaVoice.Pipeline.Sentence

/-
  The TTS stage — `pipeline/tts.rs`

  Tokens are gathered into sentences, each sentence is synthesized and its
  audio forwarded to the sink; an `AnswerEnd` flushes the buffer and is then
  forwarded itself. A barge-in on the event bus empties the buffer, or aborts
  the synthesis under way.

  Messages carry a tag of any type, which the stage does not read: the tags of
  the tokens in the buffer, and of the text being synthesized, are kept beside
  the text. The provider's behaviour and the order in which the channels are
  served are the actions. `flush` polls the bus only while the audio stream is
  awaited (`speaking`), before the audio.

  Correspondence (Rust ↔ Lean):
    `spawn_tts`'s `select!` `Tts.step` in phase `select`
    `flush`                 `Tts.startFlush`, then the phases `synthesizing`,
                            `declaring`, `speaking` and `forwarding`
    `is_barge_in_for`       `isBargeInFor`
-/

namespace AthenaVoice.Pipeline

open Lib CoreTypes

universe u

inductive SinkMsg where
  | format (format : AudioFormat) (sampleRate : Nat)
  | chunk (bytes : List UInt8)
  | answerEnd
  deriving DecidableEq, Repr

/-- What follows a flush: the loop, the pending `AnswerEnd`, or the end of the task. -/
inductive After (ι : Type u) where
  | loop
  | answerEnd (tag : ι)
  | exit
  deriving DecidableEq

/-- A flush under way: the tags of the text, and what follows. -/
structure Flush (ι : Type u) where
  tags : List ι
  after : After ι
  deriving DecidableEq

inductive TtsPhase (ι : Type u) where
  | select
  /-- `tts.synthesize(..)`. -/
  | synthesizing (f : Flush ι)
  /-- `chunk_tx.send(SinkMsg::Format ..)`. -/
  | declaring (f : Flush ι) (format : AudioFormat) (sampleRate : Nat)
  /-- The bus, or the next chunk of audio. -/
  | speaking (f : Flush ι)
  /-- `chunk_tx.send(SinkMsg::Chunk ..)`. -/
  | forwarding (f : Flush ι) (bytes : List UInt8)
  /-- `chunk_tx.send(SinkMsg::AnswerEnd)`. -/
  | ending (tag : ι)
  | exited
  deriving DecidableEq

/-- The TTS task. `flushDeadline` says whether the idle flush is armed. -/
structure Tts (ι : Type u) where
  buf : SentenceBuffer
  bufTags : List ι
  seq : Nat
  flushDeadline : Bool
  phase : TtsPhase ι
  deriving DecidableEq

/-- What the audio stream yields. -/
inductive AudioItem where
  | chunk (bytes : List UInt8)
  | error
  | finish
  deriving DecidableEq, Repr

inductive TtsAction (ι : Type u) where
  /-- `barge_rx.recv()`: an event, or none for a receive error. -/
  | bus (ev : Option Event)
  | token (tag : ι) (m : TtsMsg)
  /-- The idle flush's deadline passes. -/
  | idle
  /-- `synthesize` returns the audio's format, or an error. -/
  | synthesized (audio : Option (AudioFormat × Nat))
  | audio (item : AudioItem)
  /-- The message under way is sent; `false` when the sink is gone. -/
  | sent (ok : Bool)
  /-- The token channel is closed and empty. -/
  | closed
  | cancel

/-- What is observed of the task. -/
inductive TtsObs (ι : Type u) where
  | took (tag : ι) (m : TtsMsg)
  /-- Text is handed to the provider. -/
  | spoke (tags : List ι) (text : Text)
  | sink (tags : List ι) (m : SinkMsg)
  /-- A barge-in drops buffered text, or aborts its synthesis. -/
  | discarded (tags : List ι)
  | event (e : Event)
  deriving DecidableEq

def isBargeInFor (session : SessionId) : Option Event → Bool
  | some (.bargeIn s _) => s == session
  | _ => false

/-- `u32::saturating_add(1)`. -/
def seqSucc (seq : Nat) : Nat := min (seq + 1) (2 ^ 32 - 1)

namespace Tts

variable {ι : Type u}

def init : Tts ι :=
  { buf := .new, bufTags := [], seq := 0, flushDeadline := false, phase := .select }

/-- `flush`, up to the call of the provider. -/
def startFlush (session : SessionId) (s : Tts ι) (sentence : Text) (f : Flush ι) :
    Tts ι × List (TtsObs ι) :=
  ({ s with bufTags := [], phase := .synthesizing f },
    [.event (.ttsText session sentence), .spoke f.tags sentence])

/-- `flush` returns. -/
def endFlush (s : Tts ι) : After ι → Tts ι
  | .loop => { s with phase := .select }
  | .answerEnd tag => { s with phase := .ending tag }
  | .exit => { s with phase := .exited }

/-- The idle flush, the `AnswerEnd` and the end of the token channel: disarm
the deadline, speak what is buffered, go on. -/
def flushRest (session : SessionId) (s : Tts ι) (after : After ι) : Tts ι × List (TtsObs ι) :=
  let s' := { s with buf := s.buf.take.1, flushDeadline := false }
  -- an empty buffer is not flushed, and what follows comes at once
  match s.buf.take.2 with
  | some sentence => s'.startFlush session sentence { tags := s.bufTags, after := after }
  | none => ({ s' with bufTags := [] }.endFlush after, [])

/-- A token joins the buffer, and may complete a sentence. -/
def pushToken (session : SessionId) (s : Tts ι) (tag : ι) (t : Text) : Tts ι × List (TtsObs ι) :=
  let (buf, sentence) := s.buf.push t
  match sentence with
  | some sentence =>
    { s with buf := buf, flushDeadline := false }.startFlush session sentence
      { tags := s.bufTags ++ [tag], after := .loop }
  | none => ({ s with buf := buf, bufTags := s.bufTags ++ [tag], flushDeadline := true }, [])

theorem flushRest_cases (session : SessionId) (s : Tts ι) (after : After ι) :
    (∃ sentence, s.flushRest session after =
      ({ s with buf := .new, bufTags := [], flushDeadline := false,
                phase := .synthesizing { tags := s.bufTags, after := after } },
        [.event (.ttsText session sentence), .spoke s.bufTags sentence])) ∨
      s.flushRest session after =
        (({ s with buf := .new, bufTags := [], flushDeadline := false } : Tts ι).endFlush after, []) := by
  unfold flushRest
  simp only
  split
  · rename_i sentence _
    exact Or.inl ⟨sentence, rfl⟩
  · exact Or.inr rfl

theorem pushToken_cases (session : SessionId) (s : Tts ι) (tag : ι) (t : Text) :
    (∃ sentence, s.pushToken session tag t =
      ({ s with buf := .new, bufTags := [], flushDeadline := false,
                phase := .synthesizing { tags := s.bufTags ++ [tag], after := .loop } },
        [.event (.ttsText session sentence), .spoke (s.bufTags ++ [tag]) sentence])) ∨
      ∃ buf, s.pushToken session tag t =
        ({ s with buf := buf, bufTags := s.bufTags ++ [tag], flushDeadline := true }, []) := by
  unfold pushToken
  simp only
  split
  · rename_i sentence hs
    rw [SentenceBuffer.push_fst_of_some hs]
    exact Or.inl ⟨sentence, rfl⟩
  · exact Or.inr ⟨_, rfl⟩

/-- One step at the `select!` of the loop. -/
def selectStep (session : SessionId) (s : Tts ι) : TtsAction ι → Option (Tts ι × List (TtsObs ι))
  | .bus ev =>
    if isBargeInFor session ev then
      -- only what is buffered goes: the token channel keeps what it holds
      some ({ s with buf := s.buf.clear, bufTags := [], flushDeadline := false }, [.discarded s.bufTags])
    else some (s, [])
  | .idle => if s.flushDeadline then some (s.flushRest session .loop) else none
  | .token tag .answerEnd =>
    let r := s.flushRest session (.answerEnd tag)
    some (r.1, .took tag .answerEnd :: r.2)
  | .token tag (.token t) =>
    let r := s.pushToken session tag t
    some (r.1, .took tag (.token t) :: r.2)
  | .closed => some (s.flushRest session .exit)
  | .cancel => some ({ s with phase := .exited }, [])
  | _ => none

def step (session : SessionId) (s : Tts ι) (a : TtsAction ι) : Option (Tts ι × List (TtsObs ι)) :=
  match s.phase with
  | .select => s.selectStep session a
  | .synthesizing f =>
    match a with
    | .synthesized none => some (s.endFlush f.after, [])
    | .synthesized (some (format, sampleRate)) =>
      some ({ s with phase := .declaring f format sampleRate }, [])
    | _ => none
  | .declaring f format sampleRate =>
    match a with
    | .sent true => some ({ s with phase := .speaking f }, [.sink f.tags (.format format sampleRate)])
    | .sent false => some (s.endFlush f.after, [])
    | _ => none
  | .speaking f =>
    match a with
    | .bus ev =>
      -- a flush for an `AnswerEnd` or the exit still leads to it
      if isBargeInFor session ev then some (s.endFlush f.after, [.discarded f.tags]) else some (s, [])
    | .audio (.chunk bytes) => some ({ s with phase := .forwarding f bytes }, [])
    | .audio .error => some (s.endFlush f.after, [])
    | .audio .finish => some (s.endFlush f.after, [])
    | _ => none
  | .forwarding f bytes =>
    match a with
    | .sent true =>
      some ({ s with phase := .speaking f, seq := seqSucc s.seq },
        [.sink f.tags (.chunk bytes), .event (.ttsChunk session s.seq bytes.length)])
    | .sent false => some (s.endFlush f.after, [])
    | _ => none
  | .ending tag =>
    match a with
    | .sent true => some ({ s with phase := .select }, [.sink [tag] .answerEnd])
    | .sent false => some ({ s with phase := .exited }, [])
    | _ => none
  | .exited => none

def machine (session : SessionId) : Machine (Tts ι) (TtsAction ι) (TtsObs ι) := ⟨step session⟩

def flush (s : Tts ι) : Option (Flush ι) :=
  match s.phase with
  | .synthesizing f | .declaring f _ _ | .speaking f | .forwarding f _ => some f
  | _ => none

/-- The steps, grouped by what they do to the text and to the `AnswerEnd`. -/
inductive Step (session : SessionId) (s : Tts ι) : TtsAction ι → Tts ι → List (TtsObs ι) → Prop where
  /-- Nothing is taken, spoken or forwarded. -/
  | ignore (ev : Option Event) (other : isBargeInFor session ev = false)
      (phase : s.phase = .select ∨ ∃ f, s.phase = .speaking f) : Step session s (.bus ev) s []
  | clear (ev : Option Event) (barge : isBargeInFor session ev = true) (phase : s.phase = .select) :
      Step session s (.bus ev)
        { s with buf := s.buf.clear, bufTags := [], flushDeadline := false } [.discarded s.bufTags]
  | abort (ev : Option Event) (f : Flush ι) (barge : isBargeInFor session ev = true)
      (phase : s.phase = .speaking f) :
      Step session s (.bus ev) (s.endFlush f.after) [.discarded f.tags]
  | idle (armed : s.flushDeadline = true) (phase : s.phase = .select) :
      Step session s .idle (s.flushRest session .loop).1 (s.flushRest session .loop).2
  | answerEnd (tag : ι) (phase : s.phase = .select) :
      Step session s (.token tag .answerEnd) (s.flushRest session (.answerEnd tag)).1
        (.took tag .answerEnd :: (s.flushRest session (.answerEnd tag)).2)
  | token (tag : ι) (t : Text) (phase : s.phase = .select) :
      Step session s (.token tag (.token t)) (s.pushToken session tag t).1
        (.took tag (.token t) :: (s.pushToken session tag t).2)
  | closed (phase : s.phase = .select) :
      Step session s .closed (s.flushRest session .exit).1 (s.flushRest session .exit).2
  | cancel (phase : s.phase = .select) : Step session s .cancel { s with phase := .exited } []
  /-- The flush ends: no audio, the end of it, an error, or the sink is gone. -/
  | flushed (a : TtsAction ι) (f : Flush ι) (flush : s.flush = some f) (noBus : ∀ ev, a ≠ .bus ev)
      (noToken : ∀ tag m, a ≠ .token tag m) : Step session s a (s.endFlush f.after) []
  /-- The flush goes on; what it forwards is its own text's. -/
  | flushing (a : TtsAction ι) (f : Flush ι) (phase : TtsPhase ι) (seq : Nat) (o : List (TtsObs ι))
      (flush : s.flush = some f) (flush' : ({ s with phase := phase, seq := seq } : Tts ι).flush = some f)
      (forwards : o = [] ∨ (∃ format rate, o = [.sink f.tags (.format format rate)]) ∨
        ∃ bytes, o = [.sink f.tags (.chunk bytes), .event (.ttsChunk session s.seq bytes.length)])
      (noBus : ∀ ev, a ≠ .bus ev) (noToken : ∀ tag m, a ≠ .token tag m) :
      Step session s a { s with phase := phase, seq := seq } o
  | ended (tag : ι) (phase : s.phase = .ending tag) :
      Step session s (.sent true) { s with phase := .select } [.sink [tag] .answerEnd]
  | endLost (tag : ι) (phase : s.phase = .ending tag) :
      Step session s (.sent false) { s with phase := .exited } []

/-- **Inversion.** -/
theorem step_cases {session : SessionId} {s s' : Tts ι} {a : TtsAction ι} {o : List (TtsObs ι)}
    (h : step session s a = some (s', o)) : Step session s a s' o := by
  unfold step at h
  -- by the phase first: each phase reads its own channels, and refuses the others
  cases hp : s.phase with
  | select =>
    rw [hp] at h
    cases a with
    | bus ev =>
      simp only [selectStep] at h
      split at h
      · rename_i hb
        cases h
        exact .clear ev hb hp
      · rename_i hb
        cases h
        exact .ignore ev (by simpa using hb) (Or.inl hp)
    | idle =>
      simp only [selectStep] at h
      split at h
      · rename_i ha
        have hstep : Step session s .idle (s.flushRest session .loop).1 (s.flushRest session .loop).2 :=
          .idle ha hp
        rw [Option.some.inj h] at hstep
        exact hstep
      · cases h
    | token tag m =>
      cases m with
      | token t => cases h; exact .token tag t hp
      | answerEnd => cases h; exact .answerEnd tag hp
    | closed =>
      have hstep : Step session s .closed (s.flushRest session .exit).1 (s.flushRest session .exit).2 :=
        .closed hp
      rw [Option.some.inj h] at hstep
      exact hstep
    | cancel => cases h; exact .cancel hp
    | synthesized audio => cases h
    | audio item => cases h
    | sent ok => cases h
  | synthesizing f =>
    have hf : s.flush = some f := by simp [flush, hp]
    rw [hp] at h
    cases a with
    | synthesized audio =>
      cases audio with
      | none => cases h; exact .flushed _ f hf (by simp) (by simp)
      | some fr =>
        cases h
        exact .flushing _ f (.declaring f fr.1 fr.2) s.seq [] hf rfl (Or.inl rfl) (by simp) (by simp)
    | _ => cases h
  | declaring f format rate =>
    have hf : s.flush = some f := by simp [flush, hp]
    rw [hp] at h
    cases a with
    | sent ok =>
      cases ok with
      | true =>
        cases h
        exact .flushing _ f (.speaking f) s.seq _ hf rfl (Or.inr (Or.inl ⟨format, rate, rfl⟩)) (by simp) (by simp)
      | false => cases h; exact .flushed _ f hf (by simp) (by simp)
    | _ => cases h
  | speaking f =>
    have hf : s.flush = some f := by simp [flush, hp]
    rw [hp] at h
    cases a with
    | bus ev =>
      simp only at h
      split at h
      · rename_i hb
        cases h
        exact .abort ev f hb hp
      · rename_i hb
        cases h
        exact .ignore ev (by simpa using hb) (Or.inr ⟨f, hp⟩)
    | audio item =>
      cases item with
      | chunk bytes =>
        cases h
        exact .flushing _ f (.forwarding f bytes) s.seq [] hf rfl (Or.inl rfl) (by simp) (by simp)
      | error => cases h; exact .flushed _ f hf (by simp) (by simp)
      | finish => cases h; exact .flushed _ f hf (by simp) (by simp)
    | _ => cases h
  | forwarding f bytes =>
    have hf : s.flush = some f := by simp [flush, hp]
    rw [hp] at h
    cases a with
    | sent ok =>
      cases ok with
      | true =>
        cases h
        exact .flushing _ f (.speaking f) (seqSucc s.seq) _ hf rfl (Or.inr (Or.inr ⟨bytes, rfl⟩)) (by simp)
          (by simp)
      | false => cases h; exact .flushed _ f hf (by simp) (by simp)
    | _ => cases h
  | ending tag =>
    rw [hp] at h
    cases a with
    | sent ok =>
      cases ok with
      | true => cases h; exact .ended tag hp
      | false => cases h; exact .endLost tag hp
    | _ => cases h
  | exited =>
    rw [hp] at h
    cases h

/-! ## Tags -/

/-- The tags of the text the task holds: buffered, or being synthesized. -/
def textTags (s : Tts ι) : List ι := s.bufTags ++ (s.flush.map Flush.tags).getD []

/-- The tag of an `AnswerEnd` still to be forwarded. -/
def afterTags : After ι → List ι
  | .answerEnd tag => [tag]
  | .loop | .exit => []

/-- The tag of the `AnswerEnd` the task has taken and not forwarded, if any. -/
def endTags (s : Tts ι) : List ι :=
  match s.phase with
  | .ending tag => [tag]
  | _ => (s.flush.map (fun f => afterTags f.after)).getD []

theorem textTags_of_select {s : Tts ι} (h : s.phase = .select) : s.textTags = s.bufTags := by
  simp [textTags, flush, h]

theorem textTags_of_flush {s : Tts ι} {f : Flush ι} (h : s.flush = some f) :
    s.textTags = s.bufTags ++ f.tags := by
  simp [textTags, h]

theorem endTags_of_flush {s : Tts ι} {f : Flush ι} (h : s.flush = some f) :
    s.endTags = afterTags f.after := by
  unfold flush at h
  cases hp : s.phase <;> rw [hp] at h <;> cases h <;> simp [endTags, flush, hp]

@[simp] theorem textTags_endFlush (s : Tts ι) (after : After ι) :
    (s.endFlush after).textTags = s.bufTags := by
  cases after <;> simp [endFlush, textTags, flush]

@[simp] theorem endTags_endFlush (s : Tts ι) (after : After ι) :
    (s.endFlush after).endTags = afterTags after := by
  cases after <;> simp [endFlush, endTags, flush, afterTags]

@[simp] theorem endFlush_flush (s : Tts ι) (after : After ι) : (s.endFlush after).flush = none := by
  cases after <;> rfl

@[simp] theorem endFlush_bufTags (s : Tts ι) (after : After ι) :
    (s.endFlush after).bufTags = s.bufTags := by
  cases after <;> rfl

/-- What observations say about tags: `P` holds of the text they show, `Q` of
the `AnswerEnd`s forwarded. The task's own events are no barge-ins. -/
def ObsTags (P Q : ι → Prop) : TtsObs ι → Prop
  | .spoke tags _ | .discarded tags => ∀ t ∈ tags, P t
  | .sink tags .answerEnd => ∀ t ∈ tags, Q t
  | .sink tags _ => ∀ t ∈ tags, P t
  | .event e => e.isBargeIn = false
  | .took .. => True

theorem ObsTags.mono {P P' Q Q' : ι → Prop} {o : TtsObs ι} (hP : ∀ t, P t → P' t) (hQ : ∀ t, Q t → Q' t)
    (h : ObsTags P Q o) : ObsTags P' Q' o := by
  cases o with
  | took tag m => trivial
  | spoke tags text => exact fun t ht => hP t (h t ht)
  | discarded tags => exact fun t ht => hP t (h t ht)
  | event e => exact h
  | sink tags m =>
    cases m with
    | answerEnd => exact fun t ht => hQ t (h t ht)
    | format format rate => exact fun t ht => hP t (h t ht)
    | chunk bytes => exact fun t ht => hP t (h t ht)

theorem flushRest_tags {P Q : ι → Prop} (session : SessionId) {s : Tts ι} (after : After ι)
    (h : ∀ t ∈ s.bufTags, P t) (ha : ∀ t ∈ afterTags after, Q t) :
    (∀ t ∈ (s.flushRest session after).1.textTags, P t) ∧
      (∀ t ∈ (s.flushRest session after).1.endTags, Q t) ∧
      ∀ o ∈ (s.flushRest session after).2, ObsTags P Q o := by
  rcases flushRest_cases session s after with ⟨sentence, hr⟩ | hr
  · rw [hr]
    refine ⟨by simpa [textTags, flush] using h, by simpa [endTags, flush] using ha, ?_⟩
    intro o ho
    simp at ho
    rcases ho with rfl | rfl
    · trivial
    · exact h
  · rw [hr]
    exact ⟨by simp, by simpa using ha, by simp⟩

/-- A property of the tags of the tokens taken is one of all text held and
spoken; a property of the tags of the `AnswerEnd`s, of those forwarded. -/
theorem step_tags {P Q : ι → Prop} {session : SessionId} {s s' : Tts ι} {a : TtsAction ι}
    {o : List (TtsObs ι)} (htext : ∀ t ∈ s.textTags, P t) (hends : ∀ t ∈ s.endTags, Q t)
    (hP : ∀ tag t, a = .token tag (.token t) → P tag) (hQ : ∀ tag, a = .token tag .answerEnd → Q tag)
    (hs : step session s a = some (s', o)) :
    (∀ t ∈ s'.textTags, P t) ∧ (∀ t ∈ s'.endTags, Q t) ∧ ∀ x ∈ o, ObsTags P Q x := by
  -- what is held outside a flush is the buffer; in a flush, its sentence as well
  have hselect : s.phase = .select → ∀ t ∈ s.bufTags, P t := by
    intro hp
    rw [← textTags_of_select hp]
    exact htext
  have hflush : ∀ f, s.flush = some f →
      (∀ t ∈ s.bufTags, P t) ∧ (∀ t ∈ f.tags, P t) ∧ ∀ t ∈ afterTags f.after, Q t := by
    intro f hf
    rw [textTags_of_flush hf] at htext
    rw [endTags_of_flush hf] at hends
    exact ⟨fun t ht => htext t (List.mem_append_left _ ht), fun t ht => htext t (List.mem_append_right _ ht),
      hends⟩
  cases step_cases hs with
  | ignore ev hother hp => exact ⟨htext, hends, by simp⟩
  | clear ev hbarge hp =>
    refine ⟨by simp [textTags, flush, hp], by simp [endTags, flush, hp], ?_⟩
    intro x hx
    rw [List.mem_singleton.mp hx]
    exact hselect hp
  | abort ev f hbarge hp =>
    obtain ⟨hbuf, hf, ha⟩ := hflush f (by simp [flush, hp])
    refine ⟨by simpa using hbuf, by simpa using ha, ?_⟩
    intro x hx
    rw [List.mem_singleton.mp hx]
    exact hf
  | idle harmed hp => exact flushRest_tags session .loop (hselect hp) (by simp [afterTags])
  | answerEnd tag hp =>
    obtain ⟨h₁, h₂, h₃⟩ := flushRest_tags (P := P) (Q := Q) session (.answerEnd tag) (hselect hp)
      (by simpa [afterTags] using hQ tag rfl)
    refine ⟨h₁, h₂, ?_⟩
    intro x hx
    rcases List.mem_cons.mp hx with rfl | hx
    · trivial
    · exact h₃ x hx
  | token tag t hp =>
    have hbuf : ∀ x ∈ s.bufTags ++ [tag], P x := by
      intro x hx
      rcases List.mem_append.mp hx with hx | hx
      · exact hselect hp x hx
      · rw [List.mem_singleton.mp hx]
        exact hP tag t rfl
    rcases pushToken_cases session s tag t with ⟨sentence, hr⟩ | ⟨buf, hr⟩
    · rw [hr]
      refine ⟨by simpa [textTags, flush] using hbuf, by simp [endTags, flush, afterTags], ?_⟩
      intro x hx
      simp at hx
      rcases hx with rfl | rfl | rfl
      · trivial
      · trivial
      · exact hbuf
    · rw [hr]
      refine ⟨by simpa [textTags, flush, hp] using hbuf, by simp [endTags, flush, hp], ?_⟩
      intro x hx
      rw [List.mem_singleton.mp hx]
      trivial
  | closed hp => exact flushRest_tags session .exit (hselect hp) (by simp [afterTags])
  | cancel hp =>
    refine ⟨by simpa [textTags, flush] using hselect hp, by simp [endTags, flush], by simp⟩
  | flushed _ f hf hbus htoken =>
    obtain ⟨hbuf, -, ha⟩ := hflush f hf
    exact ⟨by simpa using hbuf, by simpa using ha, by simp⟩
  | flushing _ f phase seq _ hf hf' hforwards hbus htoken =>
    obtain ⟨hbuf, hft, ha⟩ := hflush f hf
    refine ⟨?_, ?_, ?_⟩
    · rw [textTags_of_flush hf']
      intro t ht
      exact (List.mem_append.mp ht).elim (hbuf t) (hft t)
    · rw [endTags_of_flush hf']
      exact ha
    · intro x hx
      rcases hforwards with rfl | ⟨format, rate, rfl⟩ | ⟨bytes, rfl⟩
      · cases hx
      · rw [List.mem_singleton.mp hx]
        exact hft
      · simp at hx
        rcases hx with rfl | rfl
        · exact hft
        · trivial
  | ended tag hp =>
    have htag : Q tag := hends tag (by simp [endTags, hp])
    refine ⟨?_, by simp [endTags, flush], ?_⟩
    · intro t ht
      exact htext t (by simpa [textTags, flush, hp] using ht)
    · intro x hx
      rw [List.mem_singleton.mp hx]
      simpa [ObsTags] using htag
  | endLost tag hp =>
    refine ⟨?_, by simp [endTags, flush], by simp⟩
    intro t ht
    exact htext t (by simpa [textTags, flush, hp] using ht)

theorem discarded_cases {session : SessionId} {s s' : Tts ι} {a : TtsAction ι} {o : List (TtsObs ι)}
    {tags : List ι} (hs : step session s a = some (s', o)) (h : .discarded tags ∈ o) :
    ∃ ev, a = .bus ev ∧ isBargeInFor session ev = true ∧ ∀ t ∈ tags, t ∈ s.textTags := by
  have hrest : ∀ after, .discarded tags ∉ (s.flushRest session after).2 := by
    intro after hm
    rcases flushRest_cases session s after with ⟨sentence, hr⟩ | hr
    · simp [hr] at hm
    · simp [hr] at hm
  cases step_cases hs with
  | clear ev hbarge hp =>
    simp at h
    rw [h, textTags_of_select hp]
    exact ⟨ev, rfl, hbarge, fun t ht => ht⟩
  | abort ev f hbarge hp =>
    simp at h
    rw [h, textTags_of_flush (f := f) (by simp [flush, hp])]
    exact ⟨ev, rfl, hbarge, fun t ht => List.mem_append_right _ ht⟩
  | idle harmed hp => exact absurd h (hrest _)
  | answerEnd tag hp => exact absurd (by simpa using h) (hrest (.answerEnd tag))
  | token tag t hp =>
    rcases pushToken_cases session s tag t with ⟨sentence, hr⟩ | ⟨buf, hr⟩
    · simp [hr] at h
    · simp [hr] at h
  | closed hp => exact absurd h (hrest _)
  | flushing _ f phase seq _ hf hf' hforwards hbus htoken =>
    rcases hforwards with rfl | ⟨format, rate, rfl⟩ | ⟨bytes, rfl⟩ <;> simp at h
  | ended tag hp => simp at h
  | _ => cases h

/-- A flush under way has taken the whole buffer. -/
def FlushTookAll (s : Tts ι) : Prop := s.flush ≠ none → s.bufTags = []

theorem flushTookAll_step {session : SessionId} {s s' : Tts ι} {a : TtsAction ι} {o : List (TtsObs ι)}
    (h : s.FlushTookAll) (hs : step session s a = some (s', o)) : s'.FlushTookAll := by
  have hrest : ∀ after, (s.flushRest session after).1.FlushTookAll := by
    intro after
    rcases flushRest_cases session s after with ⟨sentence, hr⟩ | hr
    · rw [hr]
      exact fun _ => rfl
    · rw [hr]
      simp [FlushTookAll]
  cases step_cases hs with
  | ignore ev hother hp => exact h
  | clear ev hbarge hp => exact fun _ => rfl
  | abort ev f hbarge hp => simp [FlushTookAll]
  | idle harmed hp => exact hrest _
  | answerEnd tag hp => exact hrest _
  | token tag t hp =>
    rcases pushToken_cases session s tag t with ⟨sentence, hr⟩ | ⟨buf, hr⟩
    · rw [hr]
      exact fun _ => rfl
    · rw [hr]
      simp [FlushTookAll, flush, hp]
  | closed hp => exact hrest _
  | cancel hp => simp [FlushTookAll, flush]
  | flushed _ f hf hbus htoken => simp [FlushTookAll]
  | flushing _ f phase seq _ hf hf' hforwards hbus htoken =>
    intro _
    exact h (by simp [hf])
  | ended tag hp => simp [FlushTookAll, flush]
  | endLost tag hp => simp [FlushTookAll, flush]

theorem bargeIn_step {session : SessionId} {s s' : Tts ι} {ev : Option Event} {o : List (TtsObs ι)}
    (htook : s.FlushTookAll) (hbarge : isBargeInFor session ev = true)
    (hs : step session s (.bus ev) = some (s', o)) :
    s'.textTags = [] ∧ s'.endTags = s.endTags ∧ ∃ tags, o = [.discarded tags] := by
  cases step_cases hs with
  | ignore _ hother hp =>
    rw [hbarge] at hother
    cases hother
  | clear _ _ hp => exact ⟨by simp [textTags, flush, hp], by simp [endTags, flush, hp], _, rfl⟩
  | abort _ f _ hp =>
    have hf : s.flush = some f := by simp [flush, hp]
    refine ⟨?_, ?_, _, rfl⟩
    · rw [textTags_endFlush]
      exact htook (by simp [hf])
    · rw [endTags_endFlush, endTags_of_flush hf]
  | flushed _ f hf hbus htoken => exact absurd rfl (hbus ev)
  | flushing _ f phase seq _ hf hf' hforwards hbus htoken => exact absurd rfl (hbus ev)

end Tts

end AthenaVoice.Pipeline
