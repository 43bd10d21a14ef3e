import AthenaVoice.Pipeline.Router
import Mathlib.Data.List.ModifyLast

/-
  The LLM stage — `pipeline/llm.rs`

  One prompt at a time: the provider's token stream is forwarded token by
  token, and an `AnswerEnd` follows however the stream ends. A backend that
  fails before any token has been sent is answered with an apology.

  Prompts carry a tag of any type, which the stage does not read and stamps on
  everything it sends. The provider's behaviour is the actions: `completed`
  says whether `complete` returned a stream, `item` what the stream yields.
  Messages go out one at a time, when the channel has room (`sent`).

  What is proved:
    1. `llm_blocks` — everything sent, and about to be sent, is the blocks of
       the prompts given, in order; all but the last prompt are answered.
    2. `llm_sends` — what is about to be sent can be.
-/

namespace AthenaVoice.Pipeline

open Lib CoreTypes

universe u

def apology (locale : Text) : Text :=
  if (Str.stripPrefix "fr".toList locale).isSome then
    "désolé, je ne peux pas répondre pour le moment.".toList
  else "sorry, I can't answer right now.".toList

/-- What the task awaits, its sends apart. -/
inductive LlmPhase (ι : Type u) where
  | idle
  /-- `llm.complete(..)`. -/
  | completing (tag : ι)
  /-- `tokens.next()`. -/
  | streaming (tag : ι) (sentAny : Bool)
  | exited
  deriving DecidableEq

/-- The LLM task: its phase once the messages of `outbox` are sent. -/
structure Llm (ι : Type u) where
  phase : LlmPhase ι
  outbox : List (ι × TtsMsg)
  deriving DecidableEq

/-- What the token stream yields. -/
inductive StreamItem where
  | token (text : Text)
  | error
  | finish
  deriving DecidableEq, Repr

inductive LlmAction (ι : Type u) where
  | prompt (tag : ι) (text : Text)
  | completed (ok : Bool)
  | item (i : StreamItem)
  /-- The next message is sent; `false` when the TTS stage is gone. -/
  | sent (ok : Bool)
  /-- The prompt channel is closed and empty. -/
  | closed
  | cancel

/-- What is observed of the task. -/
inductive LlmObs (ι : Type u) where
  | prompted (tag : ι)
  | token (text : Text)
  /-- The reply is over: the backend failed, or the stream ended. -/
  | ended (failed : Bool)
  | sent (tag : ι) (m : TtsMsg)
  deriving DecidableEq

namespace Llm

variable {ι : Type u}

def init : Llm ι := { phase := .idle, outbox := [] }

/-- The end of a reply on the error paths: an apology if nothing was sent. -/
def failure (locale : Text) (tag : ι) (sentAny : Bool) : List (ι × TtsMsg) :=
  (if sentAny then [] else [(tag, .token (apology locale))]) ++ [(tag, .answerEnd)]

/-- One step. Nothing but a send happens while a message waits to be sent. -/
def step (locale : Text) (s : Llm ι) : LlmAction ι → Option (Llm ι × List (LlmObs ι))
  | .sent ok =>
    match s.outbox with
    | [] => none
    | (tag, m) :: rest =>
      if ok then some ({ s with outbox := rest }, [.sent tag m])
      else some ({ phase := .exited, outbox := [] }, [])
  | .prompt tag _ =>
    match s.phase, s.outbox with
    | .idle, [] => some ({ s with phase := .completing tag }, [.prompted tag])
    | _, _ => none
  | .completed ok =>
    match s.phase, s.outbox with
    | .completing tag, [] =>
      if ok then some ({ s with phase := .streaming tag false }, [])
      else some ({ phase := .idle, outbox := failure locale tag false }, [.ended true])
    | _, _ => none
  | .item i =>
    match s.phase, s.outbox with
    | .streaming tag sentAny, [] =>
      match i with
      | .token t => some ({ phase := .streaming tag true, outbox := [(tag, .token t)] }, [.token t])
      | .error => some ({ phase := .idle, outbox := failure locale tag sentAny }, [.ended true])
      | .finish => some ({ phase := .idle, outbox := [(tag, .answerEnd)] }, [.ended false])
    | _, _ => none
  | .closed =>
    match s.phase, s.outbox with
    | .idle, [] => some ({ s with phase := .exited }, [])
    | _, _ => none
  | .cancel =>
    match s.phase, s.outbox with
    | .idle, [] => some ({ s with phase := .exited }, [])
    | _, _ => none

def machine (locale : Text) : Machine (Llm ι) (LlmAction ι) (LlmObs ι) := ⟨step locale⟩

inductive Step (locale : Text) : Llm ι → LlmAction ι → Llm ι → List (LlmObs ι) → Prop where
  | sent {phase : LlmPhase ι} {tag : ι} {m : TtsMsg} {rest : List (ι × TtsMsg)} :
      Step locale ⟨phase, (tag, m) :: rest⟩ (.sent true) ⟨phase, rest⟩ [.sent tag m]
  | sendFailed {phase : LlmPhase ι} {x : ι × TtsMsg} {rest : List (ι × TtsMsg)} :
      Step locale ⟨phase, x :: rest⟩ (.sent false) ⟨.exited, []⟩ []
  | prompt {tag : ι} {text : Text} :
      Step locale ⟨.idle, []⟩ (.prompt tag text) ⟨.completing tag, []⟩ [.prompted tag]
  | completed {tag : ι} :
      Step locale ⟨.completing tag, []⟩ (.completed true) ⟨.streaming tag false, []⟩ []
  | refused {tag : ι} :
      Step locale ⟨.completing tag, []⟩ (.completed false) ⟨.idle, failure locale tag false⟩ [.ended true]
  | token {tag : ι} {sentAny : Bool} {t : Text} :
      Step locale ⟨.streaming tag sentAny, []⟩ (.item (.token t))
        ⟨.streaming tag true, [(tag, .token t)]⟩ [.token t]
  | streamError {tag : ι} {sentAny : Bool} :
      Step locale ⟨.streaming tag sentAny, []⟩ (.item .error) ⟨.idle, failure locale tag sentAny⟩ [.ended true]
  | streamEnd {tag : ι} {sentAny : Bool} :
      Step locale ⟨.streaming tag sentAny, []⟩ (.item .finish) ⟨.idle, [(tag, .answerEnd)]⟩ [.ended false]
  | closed : Step locale ⟨.idle, []⟩ .closed ⟨.exited, []⟩ []
  | cancel : Step locale ⟨.idle, []⟩ .cancel ⟨.exited, []⟩ []

/-- **Inversion.** -/
theorem step_cases {locale : Text} {s s' : Llm ι} {a : LlmAction ι} {o : List (LlmObs ι)}
    (h : step locale s a = some (s', o)) : Step locale s a s' o := by
  obtain ⟨phase, outbox⟩ := s
  cases a with
  | sent ok =>
    cases outbox with
    | nil => cases h
    | cons x rest =>
      cases ok with
      | true => cases h; exact .sent
      | false => cases h; exact .sendFailed
  | prompt tag text =>
    cases phase <;> cases outbox <;> cases h
    exact .prompt
  | completed ok =>
    cases phase <;> cases outbox <;> cases ok <;> cases h
    · exact .refused
    · exact .completed
  | item i =>
    cases phase <;> cases outbox <;> cases i <;> cases h
    · exact .token
    · exact .streamError
    · exact .streamEnd
  | closed =>
    cases phase <;> cases outbox <;> cases h
    exact .closed
  | cancel =>
    cases phase <;> cases outbox <;> cases h
    exact .cancel

end Llm

/-! ## Replies and their blocks -/

/-- How far the provider's reply to a prompt has come. -/
inductive ReplyStatus where
  | unfinished | failed | finished
  deriving DecidableEq, Repr

/-- The provider's reply to one prompt. -/
structure Reply (ι : Type u) where
  tag : ι
  tokens : List Text
  status : ReplyStatus
  deriving DecidableEq

variable {ι : Type u}

/-- The provider's replies, read off one observation more. -/
def readReply (rs : List (Reply ι)) : LlmObs ι → List (Reply ι)
  | .prompted tag => rs ++ [{ tag := tag, tokens := [], status := .unfinished }]
  | .token t => rs.modifyLast (fun r => { r with tokens := r.tokens ++ [t] })
  | .ended failed => rs.modifyLast (fun r => { r with status := if failed then .failed else .finished })
  | .sent _ _ => rs

/-- The provider's replies to the prompts taken, in order. -/
def replies (h : List (LlmObs ι)) : List (Reply ι) := h.foldl readReply []

/-- What the stage owes for a reply: its tokens, the apology iff the backend
failed before any, and one `AnswerEnd` once it is over. -/
def Reply.block (locale : Text) (r : Reply ι) : List (ι × TtsMsg) :=
  r.tokens.map (fun t => (r.tag, .token t)) ++
    match r.status with
    | .unfinished => []
    | .failed =>
      (if r.tokens.isEmpty then [(r.tag, .token (apology locale))] else []) ++ [(r.tag, .answerEnd)]
    | .finished => [(r.tag, .answerEnd)]

/-- The messages sent to the TTS stage, in order. -/
def sentBy (h : List (LlmObs ι)) : List (ι × TtsMsg) :=
  h.filterMap (fun o => match o with | .sent tag m => some (tag, m) | _ => none)

@[simp] theorem replies_append (h h' : List (LlmObs ι)) :
    replies (h ++ h') = h'.foldl readReply (replies h) := by
  simp [replies]

@[simp] theorem sentBy_append (h h' : List (LlmObs ι)) : sentBy (h ++ h') = sentBy h ++ sentBy h' := by
  simp [sentBy]

/-- The reply the task is at, given its phase: none when idle, else the last
one, unfinished, and with tokens iff some were sent. -/
def AtReply (phase : LlmPhase ι) (rs : List (Reply ι)) : Prop :=
  match phase with
  | .idle => ∀ r ∈ rs, r.status ≠ .unfinished
  | .completing tag => ∃ done, rs = done ++ [{ tag := tag, tokens := [], status := .unfinished }] ∧
      ∀ r ∈ done, r.status ≠ .unfinished
  | .streaming tag sentAny => ∃ done tokens,
      rs = done ++ [{ tag := tag, tokens := tokens, status := .unfinished }] ∧
      sentAny = !tokens.isEmpty ∧ ∀ r ∈ done, r.status ≠ .unfinished
  | .exited => False

theorem AtReply.dropLast {phase : LlmPhase ι} {rs : List (Reply ι)} (h : AtReply phase rs) :
    ∀ r ∈ rs.dropLast, r.status ≠ .unfinished := by
  cases phase with
  | idle => intro r hr; exact h r (List.dropLast_subset rs hr)
  | completing tag =>
    obtain ⟨done, rfl, hdone⟩ := h
    rw [List.dropLast_concat]
    exact hdone
  | streaming tag sentAny =>
    obtain ⟨done, tokens, rfl, -, hdone⟩ := h
    rw [List.dropLast_concat]
    exact hdone
  | exited => exact h.elim

structure LlmLedger (locale : Text) (h : List (LlmObs ι)) (s : Llm ι) : Prop where
  blocks : sentBy h ++ s.outbox = (replies h).flatMap (Reply.block locale)
  current : AtReply s.phase (replies h)

theorem llmLedger_init (locale : Text) : LlmLedger locale ([] : List (LlmObs ι)) Llm.init where
  blocks := rfl
  current := by intro r hr; cases hr

/-- No send fails, no channel closes, nothing is cancelled. -/
def LlmAction.Live : LlmAction ι → Prop
  | .sent ok => ok = true
  | .closed | .cancel => False
  | _ => True

theorem LlmLedger.ended {locale : Text} {h : List (LlmObs ι)} {phase : LlmPhase ι} {done : List (Reply ι)}
    {r : Reply ι} {failed : Bool} {rest : List (ι × TtsMsg)} (L : LlmLedger locale h ⟨phase, []⟩)
    (hr : replies h = done ++ [r]) (hdone : ∀ r ∈ done, r.status ≠ .unfinished)
    (hblock : Reply.block locale { r with status := if failed then .failed else .finished } =
      Reply.block locale r ++ rest) :
    LlmLedger locale (h ++ [.ended failed]) ⟨.idle, rest⟩ := by
  have hreplies : replies (h ++ [.ended failed]) =
      done ++ [{ r with status := if failed then .failed else .finished }] := by
    rw [replies_append, hr]
    exact List.modifyLast_concat _ _ _
  refine ⟨?_, ?_⟩
  · have hb := L.blocks
    rw [hr, List.flatMap_append, List.append_nil] at hb
    rw [hreplies, List.flatMap_append, sentBy_append, hb]
    simp [sentBy, hblock]
  · show ∀ x ∈ replies (h ++ [.ended failed]), x.status ≠ .unfinished
    rw [hreplies]
    intro x hx
    rcases List.mem_append.mp hx with hx | hx
    · exact hdone x hx
    · rw [List.mem_singleton.mp hx]
      cases failed <;> simp

/-- **One step.** -/
theorem llmLedger_step {locale : Text} {h o : List (LlmObs ι)} {s s' : Llm ι} {a : LlmAction ι}
    (L : LlmLedger locale h s) (ha : a.Live) (hs : (Llm.machine locale).step s a = some (s', o)) :
    LlmLedger locale (h ++ o) s' := by
  have hstep := Llm.step_cases hs
  cases hstep with
  | sent =>
    rename_i phase tag m rest
    refine ⟨?_, by rw [replies_append]; exact L.current⟩
    rw [replies_append, sentBy_append, List.append_assoc]
    exact L.blocks
  | sendFailed => cases ha
  | prompt =>
    rename_i tag text
    refine ⟨?_, replies h, by rw [replies_append]; rfl, L.current⟩
    have hb := L.blocks
    rw [replies_append, sentBy_append]
    simp only [List.foldl_cons, List.foldl_nil, readReply, List.flatMap_append, ← hb]
    simp [sentBy, Reply.block]
  | completed =>
    rename_i tag
    obtain ⟨done, hr, hdone⟩ := L.current
    rw [List.append_nil]
    exact ⟨L.blocks, done, [], hr, rfl, hdone⟩
  | refused =>
    obtain ⟨done, hr, hdone⟩ := L.current
    exact L.ended hr hdone (by simp [Reply.block, Llm.failure])
  | token =>
    rename_i tag sentAny t
    obtain ⟨done, tokens, hr, -, hdone⟩ := L.current
    -- a token belongs to the reply that is open, the last one
    have hreplies : replies (h ++ [.token t]) =
        done ++ [{ tag := tag, tokens := tokens ++ [t], status := .unfinished }] := by
      rw [replies_append, hr]
      exact List.modifyLast_concat _ _ _
    refine ⟨?_, done, tokens ++ [t], hreplies, by simp, hdone⟩
    have hb := L.blocks
    rw [hr, List.flatMap_append, List.append_nil] at hb
    rw [hreplies, List.flatMap_append, sentBy_append, hb]
    simp [sentBy, Reply.block]
  | streamError =>
    obtain ⟨done, tokens, hr, hany, hdone⟩ := L.current
    apply L.ended hr hdone
    cases tokens <;> simp [Reply.block, Llm.failure, hany]
  | streamEnd =>
    obtain ⟨done, tokens, hr, hany, hdone⟩ := L.current
    exact L.ended hr hdone (by simp [Reply.block])
  | closed => cases ha
  | cancel => cases ha

/-! ### Replies, read off what the stage is given -/

/-- The provider's replies, read off one action more. -/
def hearReply (rs : List (Reply ι)) : LlmAction ι → List (Reply ι)
  | .prompt tag _ => rs ++ [{ tag := tag, tokens := [], status := .unfinished }]
  | .completed ok => if ok then rs else rs.modifyLast (fun r => { r with status := .failed })
  | .item (.token t) => rs.modifyLast (fun r => { r with tokens := r.tokens ++ [t] })
  | .item .error => rs.modifyLast (fun r => { r with status := .failed })
  | .item .finish => rs.modifyLast (fun r => { r with status := .finished })
  | .sent _ | .closed | .cancel => rs

/-- The provider's replies to the prompts given, in order. -/
def repliesTo (as : List (LlmAction ι)) : List (Reply ι) := as.foldl hearReply []

theorem readReply_step {locale : Text} {s s' : Llm ι} {a : LlmAction ι} {o : List (LlmObs ι)}
    (hs : (Llm.machine locale).step s a = some (s', o)) (rs : List (Reply ι)) :
    o.foldl readReply rs = hearReply rs a := by
  cases Llm.step_cases hs <;> rfl

theorem replies_eq_repliesTo {locale : Text} {as : List (LlmAction ι)} {s : Llm ι} {h : List (LlmObs ι)}
    (hrun : (Llm.machine locale).run Llm.init as = some (s, h)) : replies h = repliesTo as := by
  refine (Llm.machine locale).run_actions (P := fun as h _ => replies h = repliesTo as) rfl ?_ as s h hrun
  intro as h s a s' o _ hP hs
  rw [replies_append, readReply_step hs, hP, repliesTo, repliesTo, List.foldl_append]
  rfl

/-- **Blocks.** However the provider behaves, what is sent and about to be sent
is one block for each prompt given, in order, and every prompt before the last
is answered. -/
theorem llm_blocks {locale : Text} {as : List (LlmAction ι)} {s : Llm ι} {h : List (LlmObs ι)}
    (hlive : ∀ a ∈ as, a.Live) (hrun : (Llm.machine locale).run Llm.init as = some (s, h)) :
    sentBy h ++ s.outbox = (repliesTo as).flatMap (Reply.block locale) ∧ AtReply s.phase (repliesTo as) := by
  have hinv := Machine.run_invariant_along (M := Llm.machine locale) (P := LlmLedger locale)
    (C := fun _ _ a => a.Live) (fun _ _ _ _ _ hP ha hs => llmLedger_step hP ha hs) as [] Llm.init s h
    (llmLedger_init locale) (Machine.along_of_forall as [] Llm.init (fun a ha _ _ => hlive a ha)) hrun
  rw [List.nil_append] at hinv
  rw [← replies_eq_repliesTo hrun]
  exact ⟨hinv.blocks, hinv.current⟩

/-- What waits goes out, message by message. -/
theorem llm_sends (locale : Text) (phase : LlmPhase ι) : ∀ outbox : List (ι × TtsMsg), ∃ o,
    (Llm.machine locale).run ⟨phase, outbox⟩ (List.replicate outbox.length (.sent true)) =
      some (⟨phase, []⟩, o) ∧
      sentBy o = outbox := by
  intro outbox
  induction outbox with
  | nil => exact ⟨[], rfl, rfl⟩
  | cons x rest ih =>
    obtain ⟨o, hrun, hsent⟩ := ih
    refine ⟨.sent x.1 x.2 :: o, ?_, by rw [← List.singleton_append, sentBy_append, hsent]; rfl⟩
    exact (Machine.run_cons_some _).mpr ⟨⟨phase, rest⟩, [.sent x.1 x.2], o, rfl, hrun, rfl⟩

/-! ## Tags -/

/-- The tag of the prompt the phase is about. -/
def LlmPhase.tags : LlmPhase ι → List ι
  | .completing tag | .streaming tag _ => [tag]
  | .idle | .exited => []

def Llm.tags (s : Llm ι) : List ι := s.phase.tags ++ s.outbox.map Prod.fst

theorem mem_failure {locale : Text} {tag : ι} {sentAny : Bool} {x : ι × TtsMsg}
    (h : x ∈ Llm.failure locale tag sentAny) : x.1 = tag := by
  unfold Llm.failure at h
  cases sentAny <;> simp at h
  · rcases h with rfl | rfl <;> rfl
  · rw [h]

/-- A property of the tag of each prompt taken is one of everything the stage
holds and sends. -/
theorem Llm.step_tags {P : ι → Prop} {locale : Text} {s s' : Llm ι} {a : LlmAction ι}
    {o : List (LlmObs ι)} (h : ∀ t ∈ s.tags, P t) (ha : ∀ tag text, a = .prompt tag text → P tag)
    (hs : Llm.step locale s a = some (s', o)) : (∀ t ∈ s'.tags, P t) ∧ ∀ x ∈ sentBy o, P x.1 := by
  have hfailure : ∀ tag sentAny, P tag →
      ∀ t ∈ (⟨.idle, Llm.failure locale tag sentAny⟩ : Llm ι).tags, P t := by
    intro tag sentAny hp t ht
    have ht' : t ∈ (Llm.failure locale tag sentAny).map Prod.fst := ht
    obtain ⟨x, hx, rfl⟩ := List.mem_map.mp ht'
    rw [mem_failure hx]
    exact hp
  cases Llm.step_cases hs with
  | sent =>
    rename_i phase tag m rest
    simp only [Llm.tags, List.map_cons, List.mem_append, List.mem_cons] at h
    refine ⟨?_, ?_⟩
    · intro t ht
      simp only [Llm.tags, List.mem_append] at ht
      rcases ht with ht | ht
      · exact h t (Or.inl ht)
      · exact h t (Or.inr (Or.inr ht))
    · intro x hx
      simp [sentBy] at hx
      rw [hx]
      exact h tag (Or.inr (Or.inl rfl))
  | prompt => simpa [Llm.tags, LlmPhase.tags, sentBy] using ha _ _ rfl
  | completed => simpa [Llm.tags, LlmPhase.tags, sentBy] using h
  | refused =>
    refine ⟨hfailure _ _ (h _ (by simp [Llm.tags, LlmPhase.tags])), by simp [sentBy]⟩
  | token => simpa [Llm.tags, LlmPhase.tags, sentBy] using h
  | streamError =>
    refine ⟨hfailure _ _ (h _ (by simp [Llm.tags, LlmPhase.tags])), by simp [sentBy]⟩
  | streamEnd => simpa [Llm.tags, LlmPhase.tags, sentBy] using h
  | sendFailed => simp [Llm.tags, LlmPhase.tags, sentBy]
  | closed => simp [Llm.tags, LlmPhase.tags, sentBy]
  | cancel => simp [Llm.tags, LlmPhase.tags, sentBy]

end AthenaVoice.Pipeline
