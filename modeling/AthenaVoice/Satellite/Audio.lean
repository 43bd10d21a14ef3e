import AthenaVoice.Satellite.Ledger

/-
  Audio reaches the provider in order — the satellite adapter

  A frame published for an open session goes into the channel of the tasks that
  were wired for it, or is dropped when that channel is full. From there three
  relays take it to the provider: `ingest`, `vad`, and the stream itself. Empty
  frames, the marker of an utterance's end, go the same way.

  What is proved:
    1. `flowing_step` — one step keeps the flow of every session's audio.
    2. `placed_of_caused` — a frame published goes to the tasks of its session's
       entry, or is dropped there.
    3. `audio_in_order` — what the provider reads of a session is a prefix of
       what was accepted for it, that is of what was published for it, and while
       the session is open nothing of it is lost on the way.
-/

namespace AthenaVoice.Satellite

open Lib CoreTypes Mqtt Sessions

/-! ## Frames in the history -/

/-- A frame accepted for the tasks of this token. -/
def AdapterObs.acceptedFor (token : Nat) : AdapterObs → Option AudioFrame
  | .accepted t frame => if t = token then some frame else none
  | _ => none

/-- A frame their provider has read. -/
def AdapterObs.readFor (token : Nat) : AdapterObs → Option AudioFrame
  | .read t frame => if t = token then some frame else none
  | _ => none

/-- The frames accepted, in order. -/
def accepted (token : Nat) (h : List AdapterObs) : List AudioFrame := h.filterMap (AdapterObs.acceptedFor token)

def framesRead (token : Nat) (h : List AdapterObs) : List AudioFrame := h.filterMap (AdapterObs.readFor token)

def Dag.listening (dag : Dag) : Bool := Chain.reading dag.audio

/-- A change of a session's tasks that moves no audio, and may cancel them. -/
structure Dag.Silent (dag dag' : Dag) : Prop where
  audio : dag'.audio = dag.audio
  session : dag'.session = dag.session
  cancelled : dag.cancelled = true → dag'.cancelled = true

def Mute (o : List AdapterObs) : Prop := ∀ token, accepted token o = [] ∧ framesRead token o = []

/-- The audio of one session's tasks. -/
structure AudioFlow (h : List AdapterObs) (token : Nat) (dag : Dag) : Prop where
  flow : Chain.Flow audioChannel (accepted token h) (framesRead token h) dag.audio
  stages : dag.audio.length = 3
  running : dag.cancelled = false → dag.listening = true → dag.audio.all Relay.live = true
  own : ∀ frame ∈ accepted token h, frame.session = dag.session

structure Flowing (deps : SatelliteDeps) (h : List AdapterObs) (s : Adapter) : Prop where
  ledger : Ledger deps h s
  audio : ∀ token dag, s.dags[token]? = some dag → AudioFlow h token dag
  future : ∀ token, s.dags.length ≤ token → accepted token h = [] ∧ framesRead token h = []

section

variable {token : Nat} {h : List AdapterObs} {x : AdapterObs} {dag dag' : Dag}

theorem accepted_append (token : Nat) (h o : List AdapterObs) :
    accepted token (h ++ o) = accepted token h ++ accepted token o := List.filterMap_append

theorem framesRead_append (token : Nat) (h o : List AdapterObs) :
    framesRead token (h ++ o) = framesRead token h ++ framesRead token o := List.filterMap_append

theorem AudioFlow.keep (F : AudioFlow h token dag) {o : List AdapterObs}
    (ho : accepted token o = [] ∧ framesRead token o = []) (hsilent : dag.Silent dag') :
    AudioFlow (h ++ o) token dag' where
  flow := by
    rw [accepted_append, framesRead_append, ho.1, ho.2, List.append_nil, List.append_nil, hsilent.audio]
    exact F.flow
  stages := by rw [hsilent.audio, F.stages]
  running := by
    intro hopen hlistening
    rw [Dag.listening, hsilent.audio] at hlistening
    rw [hsilent.audio]
    refine F.running ?_ hlistening
    cases hc : dag.cancelled with
    | false => rfl
    | true => rw [hsilent.cancelled hc] at hopen; cases hopen
  own := by
    rw [accepted_append, ho.1, List.append_nil, hsilent.session]
    exact F.own

theorem AudioFlow.accept (F : AudioFlow h token dag) {frame : AudioFrame} {audio : Chain AudioFrame}
    (hsession : frame.session = dag.session) (hoffer : Chain.offer audioChannel frame dag.audio = some audio) :
    AudioFlow (h ++ [.accepted token frame]) token { dag with audio := audio } := by
  have haccepted : accepted token (h ++ [.accepted token frame]) = accepted token h ++ [frame] := by
    rw [accepted_append]
    simp [accepted, AdapterObs.acceptedFor]
  have hread : framesRead token (h ++ [.accepted token frame]) = framesRead token h := by
    rw [framesRead_append]
    exact List.append_nil _
  refine ⟨?_, ?_, ?_, ?_⟩
  · rw [haccepted, hread]
    exact F.flow.offer hoffer
  · obtain ⟨r, rest, haudio, -, -, rfl⟩ := Chain.offer_cases hoffer
    have hstages := F.stages
    rw [haudio] at hstages
    exact hstages
  · intro hopen hlistening
    rw [(Chain.offer_deliverable hoffer).1]
    refine F.running hopen ?_
    rw [Dag.listening, ← Chain.offer_reading hoffer]
    exact hlistening
  · rw [haccepted]
    intro f hf
    rcases List.mem_append.mp hf with hold | hnew
    · exact F.own f hold
    · rw [List.mem_singleton.mp hnew]
      exact hsession

/-- The relay that stopped is `ingest` or `vad` of a session that is closed, or
the provider. -/
theorem stopped_of_mayStop (F : AudioFlow h token dag) {i : Nat} {audio : Chain AudioFrame} {out : Option AudioFrame}
    (hstep : Chain.step audioChannel dag.audio i .stop = some (audio, out)) (hmay : Adapter.mayStop dag i = true)
    (hlive : dag.audio.all Relay.live = true) : dag.cancelled = true ∨ Chain.reading audio = false := by
  match i with
  | 0 => exact .inl hmay
  | 1 =>
    simp only [Adapter.mayStop, Bool.or_eq_true] at hmay
    rcases hmay with hcancelled | hempty
    · exact .inl hcancelled
    · -- `ingest` runs, so this is not the end of its input
      split at hempty
      · rename_i ingest vad rest haudio
        rw [haudio] at hlive
        simp_all
      · cases hempty
  | i + 2 =>
    refine .inr ?_
    match haudio : dag.audio, F.stages with
    | [ingest, vad, reader], _ =>
      rw [haudio] at hstep
      simp only [Chain.step] at hstep
      cases i with
      | zero =>
        simp only [Chain.step] at hstep
        split at hstep
        · simp only [Option.map_some, Option.some.injEq, Prod.mk.injEq] at hstep
          rw [← hstep.1]
          rfl
        · cases hstep
      | succ i => cases hstep

theorem AudioFlow.relay (F : AudioFlow h token dag) {i : Nat} {m : Relay.Move} {audio : Chain AudioFrame}
    {out : Option AudioFrame} (hstep : Chain.step audioChannel dag.audio i m = some (audio, out))
    (hstop : m = .stop → Adapter.mayStop dag i = true) :
    AudioFlow (h ++ out.toList.map (.read token)) token { dag with audio := audio } := by
  have haccepted : accepted token (h ++ out.toList.map (.read token)) = accepted token h := by
    rw [accepted_append]
    cases out <;> exact List.append_nil _
  have hread : framesRead token (h ++ out.toList.map (.read token)) = framesRead token h ++ out.toList := by
    rw [framesRead_append]
    cases out <;> simp [framesRead, AdapterObs.readFor]
  refine ⟨?_, ?_, ?_, ?_⟩
  · rw [haccepted, hread]
    exact F.flow.step hstep
  · rw [Chain.step_length hstep, F.stages]
  · intro hopen hlistening
    have hlive := F.running hopen (Chain.step_reading hstep hlistening)
    by_cases hm : m = .stop
    · subst hm
      rcases stopped_of_mayStop F hstep (hstop rfl) hlive with hcancelled | hgone
      · rw [hcancelled] at hopen
        cases hopen
      · rw [Dag.listening, hgone] at hlistening
        cases hlistening
    · exact Chain.step_live hstep F.flow.ready hlive hm
  · rw [haccepted]
    exact F.own

end

/-! ## The flow is kept -/

theorem Dag.silent_rfl (dag : Dag) : dag.Silent dag := ⟨rfl, rfl, id⟩

theorem Ran.audio_cases {token : Nat} {dag dag' : Dag} {o : List AdapterObs} {es : List Event}
    (h : Ran token dag dag' o es) :
    (∃ i m audio out, Chain.step audioChannel dag.audio i m = some (audio, out) ∧
      (m = .stop → Adapter.mayStop dag i = true) ∧ dag' = { dag with audio := audio } ∧
      o = out.toList.map (.read token)) ∨ (dag.Silent dag' ∧ Mute o) := by
  cases h with
  | relayed hstep hstop => exact .inl ⟨_, _, _, _, hstep, hstop, rfl, rfl⟩
  | transcribed _ _ => exact .inr ⟨⟨rfl, rfl, id⟩, fun _ => ⟨rfl, rfl⟩⟩
  | forwarded _ _ => exact .inr ⟨⟨rfl, rfl, id⟩, fun _ => ⟨rfl, rfl⟩⟩
  | bereft _ _ => exact .inr ⟨⟨rfl, rfl, id⟩, fun _ => ⟨rfl, rfl⟩⟩
  | deaf _ => exact .inr ⟨⟨rfl, rfl, id⟩, fun _ => ⟨rfl, rfl⟩⟩
  | @routed texts out _ => exact .inr ⟨⟨rfl, rfl, id⟩, fun _ => by cases out <;> exact ⟨rfl, rfl⟩⟩
  | left _ => exact .inr ⟨⟨rfl, rfl, id⟩, fun _ => ⟨rfl, rfl⟩⟩

namespace Flowing

variable {deps : SatelliteDeps} {h o : List AdapterObs} {s s' : Adapter}

theorem keep (F : Flowing deps h s) (L : Ledger deps (h ++ o) s') (ho : Mute o) (hdags : s'.dags = s.dags) :
    Flowing deps (h ++ o) s' where
  ledger := L
  audio token dag hdag := by
    rw [hdags] at hdag
    exact (F.audio token dag hdag).keep (ho token) dag.silent_rfl
  future token htoken := by
    rw [hdags] at htoken
    obtain ⟨haccepted, hread⟩ := F.future token htoken
    rw [accepted_append, framesRead_append, haccepted, hread, (ho token).1, (ho token).2]
    exact ⟨rfl, rfl⟩

theorem move (F : Flowing deps h s) (L : Ledger deps (h ++ o) s') {token : Nat} {f : Dag → Dag}
    (hdags : s'.dags = s.dags.modify token f) (ho : ∀ t, t ≠ token → accepted t o = [] ∧ framesRead t o = [])
    (hdag : ∃ dag, s.dags[token]? = some dag ∧ AudioFlow (h ++ o) token (f dag)) : Flowing deps (h ++ o) s' where
  ledger := L
  audio j d hd := by
    obtain ⟨dag, hdag, haudio⟩ := hdag
    rw [hdags] at hd
    rcases Slots.modify_cases hd with ⟨hj, hd⟩ | ⟨rfl, d₀, hd₀, rfl⟩
    · exact (F.audio j d hd).keep (ho j (Ne.symm hj)) d.silent_rfl
    · rw [hdag] at hd₀
      cases hd₀
      exact haudio
  future j hj := by
    obtain ⟨dag, hdag, -⟩ := hdag
    rw [hdags, List.length_modify] at hj
    have hlt := (List.getElem?_eq_some_iff.mp hdag).1
    obtain ⟨haccepted, hread⟩ := F.future j hj
    obtain ⟨hacc, hrd⟩ := ho j (by omega)
    rw [accepted_append, framesRead_append, haccepted, hread, hacc, hrd]
    exact ⟨rfl, rfl⟩

theorem hush (F : Flowing deps h s) (L : Ledger deps (h ++ o) s') (ho : Mute o) {token : Nat} {dag : Dag}
    {f : Dag → Dag} (hdag : s.dags[token]? = some dag) (hdags : s'.dags = s.dags.modify token f)
    (hsilent : dag.Silent (f dag)) : Flowing deps (h ++ o) s' :=
  F.move L hdags (fun t _ => ho t) ⟨dag, hdag, (F.audio token dag hdag).keep (ho token) hsilent⟩

end Flowing

theorem other_token {token t : Nat} (ht : t ≠ token) (frame : AudioFrame) :
    accepted t [.accepted token frame] = [] ∧ framesRead t [.read token frame] = [] := by
  simp [accepted, framesRead, AdapterObs.acceptedFor, AdapterObs.readFor, Ne.symm ht]

/-- **One step** keeps the flow of every session's audio. -/
theorem flowing_step {deps : SatelliteDeps} {h o : List AdapterObs} {s s' : Adapter} (F : Flowing deps h s)
    (he : Effect deps s s' o) : Flowing deps (h ++ o) s' := by
  have L := ledger_step F.ledger he
  cases he with
  | quiet _ hdags _ => exact F.keep L (fun _ => ⟨rfl, rfl⟩) hdags
  | opened _ _ _ _ _ hdags _ => exact F.keep L (fun _ => ⟨rfl, rfl⟩) hdags
  | collided _ _ hdags _ => exact F.keep L (fun _ => ⟨rfl, rfl⟩) hdags
  | panicked _ _ _ _ _ hdags _ => exact F.keep L (fun _ => ⟨rfl, rfl⟩) hdags
  | dropped _ _ _ _ hdags _ => exact F.keep L (fun _ => ⟨rfl, rfl⟩) hdags
  | unsaid _ _ _ _ hdags _ _ => exact F.keep L (fun _ => ⟨rfl, rfl⟩) hdags
  | bus _ hdags _ => exact F.keep L (fun _ => ⟨rfl, rfl⟩) hdags
  | lagged _ hdags _ => exact F.keep L (fun _ => ⟨rfl, rfl⟩) hdags
  | told _ hdags _ _ _ => exact F.keep L (fun _ => ⟨rfl, rfl⟩) hdags
  | @closed session sat token hthere _ _ _ hdags _ =>
    cases hdag : s.dags[token]? with
    | some dag => exact F.hush L (fun _ => ⟨rfl, rfl⟩) hdag hdags ⟨rfl, rfl, fun _ => rfl⟩
    | none =>
      -- the session is being opened: there are no tasks yet
      rw [List.modify_eq_self (List.getElem?_eq_none_iff.mp hdag)] at hdags
      exact F.keep L (fun _ => ⟨rfl, rfl⟩) hdags
  | said _ _ hdag _ _ hdags _ _ => exact F.hush L (fun _ => ⟨rfl, rfl⟩) hdag hdags ⟨rfl, rfl, id⟩
  | @started opening hopening _ _ _ _ hdags _ =>
    obtain ⟨haccepted, hread⟩ := F.future s.dags.length (Nat.le_refl _)
    refine ⟨L, ?_, ?_⟩
    · intro token dag' hdag'
      rw [hdags] at hdag'
      rcases Slots.concat_cases hdag' with hdag | ⟨rfl, rfl⟩
      · exact (F.audio token dag' hdag).keep ⟨rfl, rfl⟩ dag'.silent_rfl
      · refine ⟨?_, rfl, fun _ _ => rfl, ?_⟩
        · rw [accepted_append, framesRead_append, haccepted, hread]
          exact Chain.Flow.start 3
        · rw [accepted_append, haccepted]
          exact nofun
    · intro token htoken
      rw [hdags, List.length_append, List.length_singleton] at htoken
      rw [accepted_append, framesRead_append, (F.future token (by omega)).1, (F.future token (by omega)).2]
      exact ⟨rfl, rfl⟩
  | @accepted token sat frame dag audio hready hview hdag hoffer _ hdags _ =>
    obtain ⟨dag₀, hdag₀, hsession, -⟩ := F.ledger.wired_of_view hview hready
    rw [hdag] at hdag₀
    cases hdag₀
    exact F.move L hdags (fun t ht => ⟨(other_token ht frame).1, rfl⟩)
      ⟨dag, hdag, (F.audio token dag hdag).accept hsession.symm hoffer⟩
  | @ran token dag dag' o es hdag hran _ hdags _ =>
    rcases hran.audio_cases with ⟨i, m, audio, out, hstep, hstop, rfl, rfl⟩ | ⟨hsilent, hmute⟩
    · refine F.move L hdags ?_ ⟨dag, hdag, (F.audio token dag hdag).relay hstep hstop⟩
      intro t ht
      cases out with
      | none => exact ⟨rfl, rfl⟩
      | some frame => exact ⟨rfl, (other_token ht frame).2⟩
    · exact F.hush L hmute hdag hdags hsilent

theorem flowing_run {deps : SatelliteDeps} {clock : Nat} {as : List AdapterAction} {s' : Adapter}
    {o : List AdapterObs} (hr : (Adapter.machine deps).run (.init clock) as = some (s', o)) : Flowing deps o s' := by
  have hstart : Flowing deps [] (.init clock) := ⟨.start deps clock, nofun, fun _ _ => ⟨rfl, rfl⟩⟩
  have hinv := Machine.run_invariant (P := Flowing deps)
    (fun h s a s' o F hs => flowing_step F (Adapter.step_effect hs)) hstart hr
  rwa [List.nil_append] at hinv

/-! ## What is in flight can be read -/

theorem run_relays (deps : SatelliteDeps) (token : Nat) : ∀ (ms : List (Nat × Relay.Move)) (s : Adapter) (dag : Dag)
    (audio : Chain AudioFrame) (out : List AudioFrame), s.dags[token]? = some dag → (∀ p ∈ ms, p.2 ≠ .stop) →
    Chain.runMoves audioChannel dag.audio ms = some (audio, out) →
    ∃ s', (Adapter.machine deps).run s (ms.map fun p => .relay token p.1 p.2) = some (s', out.map (.read token)) := by
  intro ms
  induction ms with
  | nil =>
    intro s dag audio out _ _ hmoves
    cases hmoves
    exact ⟨s, rfl⟩
  | cons p ms ih =>
    intro s dag audio out hdag hstops hmoves
    obtain ⟨i, m⟩ := p
    have hm : m ≠ .stop := hstops (i, m) List.mem_cons_self
    obtain ⟨⟨audio₁, first⟩, hstep, hrest⟩ := Option.bind_eq_some_iff.mp hmoves
    obtain ⟨⟨audio₂, rest⟩, hrun, heq⟩ := Option.map_eq_some_iff.mp hrest
    cases heq
    have hmoved : Adapter.step deps s (.relay token i m) =
        some (s.modify token fun d => { d with audio := audio₁ }, first.toList.map (.read token)) := by
      simp only [Adapter.step, hdag, Option.bind_some, hm, false_and, if_false, hstep, Option.map_some]
    have hdag₁ : (s.modify token fun d => { d with audio := audio₁ }).dags[token]? =
        some { dag with audio := audio₁ } := by
      simp only [Adapter.modify, Slots.getElem?_modify, if_true, hdag, Option.map_some]
    obtain ⟨s', hs'⟩ := ih _ _ audio₂ rest hdag₁ (fun q hq => hstops q (List.mem_cons_of_mem _ hq)) hrun
    refine ⟨s', (Machine.run_cons_some _).mpr ⟨_, _, _, hmoved, hs', ?_⟩⟩
    rw [List.map_append]

theorem framesRead_map (token : Nat) (frames : List AudioFrame) :
    framesRead token (frames.map (.read token)) = frames := by
  simp [framesRead, List.filterMap_map, AdapterObs.readFor, Function.comp_def]

theorem dropped_full {deps : SatelliteDeps} {s s' : Adapter} {o : List AdapterObs} {token : Nat} {frame : AudioFrame}
    (he : Effect deps s s' o) (hdropped : .dropped token frame ∈ o) {dag : Dag} (hdag : s.dags[token]? = some dag) :
    Chain.offer audioChannel frame dag.audio = none := by
  cases he with
  | dropped _ _ hfull _ _ _ =>
    cases List.mem_singleton.mp hdropped
    exact hfull dag hdag
  | ran _ hran _ _ _ =>
    cases hran <;> simp at hdropped
  | _ => simp at hdropped

/-! ## Frames published -/

def AdapterAction.frame? (deps : SatelliteDeps) : AdapterAction → Option AudioFrame
  | .publish topic payload =>
    if (deps.assist.bind (Assist.parseTranscription · topic)).isSome then none
    else
      match parseSatelliteTopic deps.uuids deps.topicRoot topic with
      | some (.audio _ sid) => some { session := sid.val, seq := 0, pcm := payload }
      | _ => none
  | _ => none

/-- The frames published for a session, in order. -/
def published (deps : SatelliteDeps) (session : SessionId) (as : List AdapterAction) : List AudioFrame :=
  (as.filterMap (AdapterAction.frame? deps)).filter fun frame => frame.session = session

/-- A frame published goes to the tasks of its session's entry, or is dropped
there; without a frame, or an entry, neither is seen. -/
def Placed (deps : SatelliteDeps) (before : List AdapterObs) (a : AdapterAction) (o : List AdapterObs) : Prop :=
  match (a.frame? deps).bind fun frame => (entry frame.session before).map fun e => (e.2, frame) with
  | some (token, frame) => o = [.accepted token frame] ∨ o = [.dropped token frame]
  | none => ∀ token frame, .accepted token frame ∉ o ∧ .dropped token frame ∉ o

theorem not_placed {o : List AdapterObs} (h : ∀ x ∈ o, x.isServed = false) (token : Nat) (frame : AudioFrame) :
    .accepted token frame ∉ o ∧ .dropped token frame ∉ o :=
  ⟨fun hx => Bool.noConfusion (h _ hx), fun hx => Bool.noConfusion (h _ hx)⟩

theorem placed_of_served {deps : SatelliteDeps} {before o : List AdapterObs} {topic : Text} {payload : List UInt8}
    (h : Served deps before topic payload o)
    (hassist : ¬ (deps.assist.bind (Assist.parseTranscription · topic)).isSome = true) :
    Placed deps before (.publish topic payload) o := by
  unfold Served at h
  simp only [Placed, AdapterAction.frame?, if_neg hassist]
  cases hparse : parseSatelliteTopic deps.uuids deps.topicRoot topic with
  | none =>
    rw [hparse] at h
    rw [show o = [] from h]
    exact fun _ _ => ⟨nofun, nofun⟩
  | some p =>
    rw [hparse] at h
    cases p with
    | start sat sid =>
      intro token frame
      rw [show o = _ from h]
      split <;> exact ⟨by simp, by simp⟩
    | audio sat sid =>
      simp only [Option.bind_some] at h ⊢
      cases hentry : entry sid.val before with
      | none =>
        rw [hentry] at h
        rw [show o = [] from h]
        exact fun _ _ => ⟨nofun, nofun⟩
      | some e =>
        rw [hentry] at h
        exact h
    | text sat sid =>
      intro token frame
      cases hentry : entry sid.val before with
      | none =>
        simp only [hentry] at h
        rw [h]
        exact ⟨nofun, nofun⟩
      | some e =>
        simp only [hentry] at h
        split at h
        · rw [h]
          exact ⟨nofun, nofun⟩
        · rcases h with rfl | rfl <;> exact ⟨by simp, by simp⟩
    | finish sat sid =>
      intro token frame
      rw [show o = _ from h]
      cases entry sid.val before <;> exact ⟨by simp, by simp⟩

/-- Where a frame published goes is part of what causes it. -/
theorem placed_of_caused {deps : SatelliteDeps} {before o : List AdapterObs} {a : AdapterAction}
    (h : Caused deps before a o) : Placed deps before a o := by
  cases a with
  | publish topic payload =>
    simp only [Caused] at h
    split at h
    · rename_i hassist
      simp only [Placed, AdapterAction.frame?, if_pos hassist, Option.bind_none]
      rw [h]
      exact fun _ _ => ⟨nofun, nofun⟩
    · rename_i hassist
      exact placed_of_served h hassist
  | wire =>
    refine not_placed fun x hx => ?_
    rcases h x hx with ⟨_, _, _, _, rfl⟩ | ⟨_, rfl⟩ <;> rfl
  | reapNext =>
    refine not_placed fun x hx => ?_
    obtain ⟨_, _, rfl⟩ := h x hx
    rfl
  | _ => exact not_placed fun x hx => (h x hx).2

theorem placed_run (deps : SatelliteDeps) (clock : Nat) (as : List AdapterAction) :
    (Adapter.machine deps).Along (fun h s a => ∀ s' o, (Adapter.machine deps).step s a = some (s', o) →
      Placed deps h a o)
      [] (.init clock) as :=
  Machine.along_of_invariant (P := Ledger deps) (fun _ _ _ _ _ L hs => ledger_step L (Adapter.step_effect hs))
    (fun _ _ _ L _ _ hs => placed_of_caused (caused_of_step L hs)) as [] (.init clock) (Ledger.start deps clock)

theorem accepted_of_placed {deps : SatelliteDeps} {before o : List AdapterObs} {a : AdapterAction}
    (h : Placed deps before a o) (token : Nat) : (accepted token o).Sublist (a.frame? deps).toList := by
  unfold Placed at h
  split at h
  · rename_i t frame hframe
    obtain ⟨frame', hframe', hentry⟩ := Option.bind_eq_some_iff.mp hframe
    obtain ⟨e, -, heq⟩ := Option.map_eq_some_iff.mp hentry
    cases heq
    rw [hframe']
    rcases h with rfl | rfl
    · simp only [accepted, List.filterMap_cons, AdapterObs.acceptedFor, List.filterMap_nil, Option.toList_some]
      split
      · rename_i hnone
        exact List.nil_sublist _
      · rename_i f hsome
        split at hsome
        · cases hsome
          exact List.Sublist.refl _
        · cases hsome
    · exact List.nil_sublist _
  · rename_i hnone
    have hempty : accepted token o = [] := by
      rw [accepted, List.filterMap_eq_nil_iff]
      intro x hx
      cases x with
      | accepted t frame => exact absurd hx (h t frame).1
      | _ => rfl
    rw [hempty]
    exact List.nil_sublist _

theorem accepted_sublist_run {deps : SatelliteDeps} {clock : Nat} {as : List AdapterAction} {s : Adapter}
    {h : List AdapterObs} (hr : (Adapter.machine deps).run (.init clock) as = some (s, h)) (token : Nat) :
    (accepted token h).Sublist (as.filterMap (AdapterAction.frame? deps)) := by
  refine (Adapter.machine deps).run_actions
    (P := fun as h _ => (accepted token h).Sublist (as.filterMap (AdapterAction.frame? deps)))
    (List.Sublist.refl _) ?_ as s h hr
  intro as h s a s' o hrun hP hs
  have hplaced := placed_of_caused (caused_of_step (ledger_run hrun) hs)
  rw [accepted_append, List.filterMap_append]
  refine hP.append ?_
  rw [List.filterMap_cons, List.filterMap_nil]
  have hlast := accepted_of_placed hplaced token
  cases hframe : a.frame? deps <;> (rw [hframe] at hlast; exact hlast)

/-- **Audio reaches the provider in order.** In every run every frame published
for a session goes to the tasks its entry names, or is dropped there, and nothing
else does. For the tasks wired for any session: the frames their provider has
read are, in order, a prefix of the frames accepted for them, and these are, in
order and each once, among the frames published for that session. While the
session is open and the provider has its stream, at most 194 frames are on their
way, the relays alone can bring it all of them, and a frame is dropped only when
64 wait before `ingest`. -/
theorem audio_in_order (deps : SatelliteDeps) (clock : Nat) (as : List AdapterAction) (s' : Adapter)
    (o : List AdapterObs) (hr : (Adapter.machine deps).run (.init clock) as = some (s', o)) (token : Nat) (dag : Dag)
    (hdag : s'.dags[token]? = some dag) :
    (Adapter.machine deps).Along
      (fun h s a => ∀ s' o, (Adapter.machine deps).step s a = some (s', o) → Placed deps h a o) []
        (.init clock) as ∧
      framesRead token o <+: accepted token o ∧ (accepted token o).Sublist (published deps dag.session as) ∧
      (dag.cancelled = false → dag.listening = true →
        (accepted token o).length ≤ (framesRead token o).length + 194 ∧
        (∃ (moves : List (Nat × Relay.Move)) (s'' : Adapter) (o' : List AdapterObs),
          (Adapter.machine deps).run s' (moves.map fun p => .relay token p.1 p.2) = some (s'', o') ∧
            framesRead token (o ++ o') = accepted token o) ∧
        ∀ a s'' o' frame, (Adapter.machine deps).step s' a = some (s'', o') → .dropped token frame ∈ o' →
          (dag.audio.head?.map fun ingest => ingest.queue.length) = some 64) := by
  have F := flowing_run hr
  have A := F.audio token dag hdag
  have hpublished : (accepted token o).Sublist (published deps dag.session as) := by
    have hown : (accepted token o).filter (fun frame => frame.session = dag.session) = accepted token o :=
      List.filter_eq_self.mpr fun frame hframe => decide_eq_true (A.own frame hframe)
    rw [← hown]
    exact (accepted_sublist_run hr token).filter _
  refine ⟨placed_run deps clock as, (List.prefix_append _ _).trans A.flow.delivered, hpublished, ?_⟩
  intro hopen hlistening
  have hlive := A.running hopen hlistening
  refine ⟨?_, ?_, ?_⟩
  · have hne : dag.audio ≠ [] := by
      intro hnil
      have hstages := A.stages
      rw [hnil] at hstages
      cases hstages
    have hcontent := Chain.content_length_lt hne A.flow.ready A.flow.bounded
    rw [A.stages] at hcontent
    rw [← A.flow.whole hlive, List.length_append]
    have hcap : 3 * (audioChannel + 1) = 195 := rfl
    omega
  · obtain ⟨ms, audio, rest, hms, hrun, hwhole⟩ := A.flow.drains (by decide) hlive
    obtain ⟨s'', hs''⟩ := run_relays deps token ms s' dag audio rest hdag hms hrun
    refine ⟨ms, s'', _, hs'', ?_⟩
    rw [framesRead_append, framesRead_map, hwhole]
  · intro a s'' o' frame hs hdropped
    have hfull := dropped_full (Adapter.step_effect hs) hdropped hdag
    match haudio : dag.audio, A.stages with
    | ingest :: rest, _ =>
      have hbound : ingest.queue.length ≤ audioChannel :=
        A.flow.bounded ingest (by rw [haudio]; exact List.mem_cons_self)
      rw [haudio] at hfull hlive
      have hingest : ingest.live = true := by simp_all
      simp only [Chain.offer, hingest, true_and] at hfull
      split at hfull
      · cases hfull
      · have hcap : audioChannel = 64 := rfl
        simp only [List.head?_cons, Option.map_some, Option.some.injEq]
        omega

/-- Two frames of a session, the first of them on its way through `vad`. -/
def twoFrames : List AdapterAction :=
  [seventh [] .start kitchen, .wire, seventh [1, 2] .audio kitchen, .relay 0 0 .recv, .relay 0 0 .send,
    seventh [3] .audio kitchen, .relay 0 1 .recv]

/-- Neither is read yet, and both will be. -/
theorem two_frames_on_their_way :
    ∃ s' o, (Adapter.machine plainDeps).run (.init 0) twoFrames = some (s', o) ∧
      accepted 0 o = [⟨7, 0, [1, 2]⟩, ⟨7, 0, [3]⟩] ∧ framesRead 0 o = [] ∧
      ∃ (moves : List (Nat × Relay.Move)) (s'' : Adapter) (o' : List AdapterObs),
        (Adapter.machine plainDeps).run s' (moves.map fun p => .relay 0 p.1 p.2) = some (s'', o') ∧
          framesRead 0 (o ++ o') = accepted 0 o := by
  refine ⟨_, _, rfl, rfl, rfl, ?_⟩
  exact ((audio_in_order plainDeps 0 twoFrames _ _ rfl 0 _ rfl).2.2.2 rfl rfl).2.1

end AthenaVoice.Satellite
