import AthenaVoice.Satellite.Ledger

/-
  Transcripts reach the router behind their events — the satellite adapter

  A session's router reads one channel that two write to. The STT task sends a
  transcript's event, then the transcript, and waits for room before its next.
  The adapter sends the event of a text and then the text, without waiting: when
  the channel is full the event is out and the router never hears of it. The two
  do not wait for each other, so the router may read a text before a transcript
  whose event came first.

  What is proved:
    1. `spoken_step` — one step keeps what the router has read, what waits for
       it and what the STT task holds in agreement with the events.
    2. `transcripts_follow_events` — what the router reads are the STT
       transcripts in the order of their events and none left out, and texts in
       the order of theirs.
-/

namespace AthenaVoice.Satellite

open Lib CoreTypes Mqtt Sessions

/-! ## Transcripts in the history -/

/-- The event of a transcript of this source. -/
def AdapterObs.heardFrom (source : Source) (token : Nat) : AdapterObs → Option Transcript
  | .heard t _ src transcript => if t = token ∧ src = source then some transcript else none
  | _ => none

/-- A transcript the router takes. -/
def AdapterObs.routedFor (token : Nat) : AdapterObs → Option Transcript
  | .routed t transcript => if t = token then some transcript else none
  | _ => none

/-- A text its channel had no room for. -/
def AdapterObs.untoldFor (token : Nat) : AdapterObs → Option Transcript
  | .untold t .text transcript => if t = token then some transcript else none
  | _ => none

/-- What was heard from a source, what the router took, and what it was not told. -/
def heard (source : Source) (token : Nat) (h : List AdapterObs) : List Transcript :=
  h.filterMap (AdapterObs.heardFrom source token)

def routed (token : Nat) (h : List AdapterObs) : List Transcript := h.filterMap (AdapterObs.routedFor token)
def untold (token : Nat) (h : List AdapterObs) : List Transcript := h.filterMap (AdapterObs.untoldFor token)

/-- What of a list comes from one source. -/
def ofSource (source : Source) (l : List (Source × Transcript)) : List Transcript :=
  (l.filter fun p => p.1 = source).map Prod.snd

def Dag.waiting (dag : Dag) : List Transcript := Chain.content dag.texts

def Dag.routing (dag : Dag) : Bool := Chain.reading dag.texts

/-- What the router has read and what waits for it, each with its source. -/
structure Merge (h : List AdapterObs) (token : Nat) (dag : Dag) (read queue : List (Source × Transcript)) : Prop where
  routed : read.map Prod.snd = routed token h
  waiting : queue.map Prod.snd = dag.waiting
  stt : ofSource .stt (read ++ queue) <+: heard .stt token h
  text : (ofSource .text (read ++ queue)).Sublist (heard .text token h)
  whole : dag.routing = true → ofSource .stt (read ++ queue) ++ dag.stt.toList = heard .stt token h
  counted : dag.routing = true →
    (heard .text token h).length = (ofSource .text (read ++ queue)).length + (untold token h).length

/-- The transcripts of one session's tasks. -/
structure Spoken (h : List AdapterObs) (token : Nat) (dag : Dag) : Prop where
  router : ∃ r, dag.texts = [r] ∧ r.held = none ∧ r.queue.length ≤ textChannel
  merge : ∃ read queue, Merge h token dag read queue

/-- The transcripts of every session. -/
structure Speaking (deps : SatelliteDeps) (h : List AdapterObs) (s : Adapter) : Prop where
  ledger : Ledger deps h s
  texts : ∀ token dag, s.dags[token]? = some dag → Spoken h token dag
  future : ∀ token, s.dags.length ≤ token →
    (∀ source, heard source token h = []) ∧ routed token h = [] ∧ untold token h = []

/-- Observations of no transcript under this token. -/
def Wordless (token : Nat) (o : List AdapterObs) : Prop :=
  (∀ source, heard source token o = []) ∧ routed token o = [] ∧ untold token o = []

theorem heard_append (source : Source) (token : Nat) (h o : List AdapterObs) :
    heard source token (h ++ o) = heard source token h ++ heard source token o := List.filterMap_append

theorem routed_append (token : Nat) (h o : List AdapterObs) :
    routed token (h ++ o) = routed token h ++ routed token o :=
  List.filterMap_append

theorem untold_append (token : Nat) (h o : List AdapterObs) :
    untold token (h ++ o) = untold token h ++ untold token o :=
  List.filterMap_append

theorem ofSource_append (source : Source) (l l' : List (Source × Transcript)) :
    ofSource source (l ++ l') = ofSource source l ++ ofSource source l' := by
  simp only [ofSource, List.filter_append, List.map_append]

section

variable {token : Nat} {h o : List AdapterObs} {dag dag' : Dag}

theorem Spoken.keep (S : Spoken h token dag) (ho : Wordless token o) (htexts : dag'.texts = dag.texts)
    (hstt : dag'.stt = dag.stt) : Spoken (h ++ o) token dag' := by
  obtain ⟨read, queue, M⟩ := S.merge
  refine ⟨by rw [htexts]; exact S.router, read, queue, ?_, ?_, ?_, ?_, ?_, ?_⟩
  · rw [routed_append, ho.2.1, List.append_nil, M.routed]
  · rw [M.waiting, Dag.waiting, Dag.waiting, htexts]
  · rw [heard_append, ho.1, List.append_nil]
    exact M.stt
  · rw [heard_append, ho.1, List.append_nil]
    exact M.text
  · intro hrouting
    rw [Dag.routing, htexts] at hrouting
    rw [heard_append, ho.1, List.append_nil, hstt]
    exact M.whole hrouting
  · intro hrouting
    rw [Dag.routing, htexts] at hrouting
    rw [heard_append, untold_append, ho.1, ho.2.2, List.append_nil, List.append_nil]
    exact M.counted hrouting

theorem heard_snoc (source : Source) (session : SessionId) (t : Transcript) :
    heard source token [.heard token session source t] = [t] := by
  simp [heard, AdapterObs.heardFrom]

theorem Spoken.transcribed (S : Spoken h token dag) (session : SessionId) (t : Transcript) (hfree : dag.stt = none) :
    Spoken (h ++ [.heard token session .stt t]) token { dag with stt := some t } := by
  obtain ⟨read, queue, M⟩ := S.merge
  refine ⟨S.router, read, queue, ?_, M.waiting, ?_, ?_, ?_, ?_⟩
  · rw [routed_append, M.routed]
    exact (List.append_nil _).symm
  · rw [heard_append]
    exact M.stt.trans (List.prefix_append _ _)
  · have hnone : heard .text token [.heard token session .stt t] = [] := by
      simp [heard, AdapterObs.heardFrom]
    rw [heard_append, hnone, List.append_nil]
    exact M.text
  · intro hrouting
    have hwhole := M.whole hrouting
    rw [hfree, Option.toList_none, List.append_nil] at hwhole
    rw [heard_append, heard_snoc, ← hwhole]
    rfl
  · intro hrouting
    rw [heard_append, untold_append, show heard .text token [.heard token session .stt t] = [] from by
      simp [heard, AdapterObs.heardFrom], List.append_nil]
    exact (M.counted hrouting).trans (by simp [untold, AdapterObs.untoldFor])

theorem offer_texts {t : Transcript} {texts : Chain Transcript}
    (hoffer : Chain.offer textChannel t dag.texts = some texts)
    (hrouter : ∃ r, dag.texts = [r] ∧ r.held = none ∧ r.queue.length ≤ textChannel) :
    (∃ r, texts = [r] ∧ r.held = none ∧ r.queue.length ≤ textChannel) ∧
      Chain.content texts = dag.waiting ++ [t] ∧ dag.routing = true := by
  obtain ⟨r, hr, hheld, -⟩ := hrouter
  obtain ⟨r', rest, htexts, hlive, hroom, rfl⟩ := Chain.offer_cases hoffer
  rw [hr] at htexts
  cases htexts
  refine ⟨⟨_, rfl, hheld, ?_⟩, ?_, ?_⟩
  · rw [List.length_append, List.length_singleton]
    exact hroom
  · simp [Dag.waiting, hr, Chain.content, Relay.holding, hheld]
  · rw [Dag.routing, hr]
    exact hlive

theorem Spoken.forwarded (S : Spoken h token dag) {t : Transcript} {texts : Chain Transcript} (hheld : dag.stt = some t)
    (hoffer : Chain.offer textChannel t dag.texts = some texts) :
    Spoken h token { dag with stt := none, texts := texts } := by
  obtain ⟨read, queue, M⟩ := S.merge
  obtain ⟨hrouter, hcontent, hrouting⟩ := offer_texts hoffer S.router
  have hwhole := M.whole hrouting
  rw [hheld] at hwhole
  have hstt : ofSource .stt (read ++ (queue ++ [(.stt, t)])) = heard .stt token h := by
    rw [← List.append_assoc, ofSource_append, ← hwhole]
    rfl
  have htext : ofSource .text (read ++ (queue ++ [(.stt, t)])) = ofSource .text (read ++ queue) := by
    rw [← List.append_assoc, ofSource_append]
    exact List.append_nil _
  refine ⟨hrouter, read, queue ++ [(.stt, t)], M.routed, ?_, ?_, ?_, ?_, ?_⟩
  · rw [List.map_append, M.waiting]
    exact hcontent.symm
  · rw [hstt]
  · rw [htext]
    exact M.text
  · intro _
    rw [hstt]
    exact List.append_nil _
  · intro _
    rw [htext]
    exact M.counted hrouting

theorem Spoken.said (S : Spoken h token dag) (session : SessionId) {t : Transcript} {texts : Chain Transcript}
    (hoffer : Chain.offer textChannel t dag.texts = some texts) :
    Spoken (h ++ [.heard token session .text t]) token { dag with texts := texts } := by
  obtain ⟨read, queue, M⟩ := S.merge
  obtain ⟨hrouter, hcontent, hrouting⟩ := offer_texts hoffer S.router
  have hnone : heard .stt token [.heard token session .text t] = [] := by simp [heard, AdapterObs.heardFrom]
  have hstt : ofSource .stt (read ++ (queue ++ [(.text, t)])) = ofSource .stt (read ++ queue) := by
    rw [← List.append_assoc, ofSource_append]
    exact List.append_nil _
  have htext : ofSource .text (read ++ (queue ++ [(.text, t)])) = ofSource .text (read ++ queue) ++ [t] := by
    rw [← List.append_assoc, ofSource_append]
    rfl
  refine ⟨hrouter, read, queue ++ [(.text, t)], ?_, ?_, ?_, ?_, ?_, ?_⟩
  · rw [routed_append, M.routed]
    exact (List.append_nil _).symm
  · rw [List.map_append, M.waiting]
    exact hcontent.symm
  · rw [heard_append, hnone, List.append_nil, hstt]
    exact M.stt
  · rw [heard_append, heard_snoc, htext]
    exact M.text.append (List.Sublist.refl _)
  · intro _
    rw [heard_append, hnone, List.append_nil, hstt]
    exact M.whole hrouting
  · intro _
    rw [heard_append, heard_snoc, untold_append, htext, List.length_append, List.length_append, M.counted hrouting]
    simp only [untold, List.filterMap_cons, AdapterObs.untoldFor, List.filterMap_nil, List.append_nil,
      List.length_singleton]
    omega

theorem Spoken.unsaid (S : Spoken h token dag) (session : SessionId) (t : Transcript) :
    Spoken (h ++ [.heard token session .text t, .untold token .text t]) token dag := by
  obtain ⟨read, queue, M⟩ := S.merge
  have hnone : heard .stt token [.heard token session .text t, .untold token .text t] = [] := by
    simp [heard, AdapterObs.heardFrom]
  have hone : heard .text token [.heard token session .text t, .untold token .text t] = [t] := by
    simp [heard, AdapterObs.heardFrom]
  refine ⟨S.router, read, queue, ?_, M.waiting, ?_, ?_, ?_, ?_⟩
  · rw [routed_append, M.routed]
    exact (List.append_nil _).symm
  · rw [heard_append, hnone, List.append_nil]
    exact M.stt
  · rw [heard_append, hone]
    exact M.text.trans (List.sublist_append_left _ _)
  · intro hrouting
    rw [heard_append, hnone, List.append_nil]
    exact M.whole hrouting
  · intro hrouting
    have huntold : untold token [.heard token session .text t, .untold token .text t] = [t] := by
      simp only [untold, List.filterMap, AdapterObs.untoldFor, if_true]
    rw [heard_append, untold_append, hone, huntold, List.length_append, List.length_append, M.counted hrouting]
    omega

theorem Spoken.routed (S : Spoken h token dag) {texts : Chain Transcript} {out : Option Transcript}
    (hstep : Chain.step textChannel dag.texts 0 .recv = some (texts, out)) :
    Spoken (h ++ out.toList.map (.routed token)) token { dag with texts := texts } := by
  obtain ⟨read, queue, M⟩ := S.merge
  obtain ⟨r, hr, hheld, hroom⟩ := S.router
  simp only [hr, Chain.step] at hstep
  split at hstep
  · rename_i hready
    cases hqueue : r.queue with
    | nil => rw [hqueue] at hstep; cases hstep
    | cons t rest =>
      rw [hqueue] at hstep
      cases hstep
      -- what waits is what the router takes, and the rest
      have hwaiting : queue.map Prod.snd = t :: rest := by
        rw [M.waiting, Dag.waiting, hr]
        simp [Chain.content, Relay.holding, hheld, hqueue]
      obtain ⟨⟨source, t'⟩, queue', rfl, ht', hrest⟩ := List.map_eq_cons_iff.mp hwaiting
      simp only at ht'
      subst ht'
      have hsame : ∀ src, ofSource src ((read ++ [(source, t')]) ++ queue') =
        ofSource src (read ++ (source, t') :: queue') := by
        intro src
        rw [List.append_assoc, List.singleton_append]
      refine ⟨⟨_, rfl, hheld, ?_⟩, read ++ [(source, t')], queue', ?_, ?_, ?_, ?_, ?_, ?_⟩
      · rw [hqueue, List.length_cons] at hroom
        simp only
        omega
      · rw [routed_append, List.map_append, M.routed]
        simp [Satellite.routed, AdapterObs.routedFor]
      · simp [Dag.waiting, Chain.content, Relay.holding, hheld, hrest]
      · rw [hsame, heard_append]
        exact M.stt.trans (List.prefix_append _ _)
      · rw [hsame, heard_append]
        exact M.text.trans (List.sublist_append_left _ _)
      · intro _
        have hrouting : dag.routing = true := by rw [Dag.routing, hr]; exact hready.1
        rw [hsame, heard_append, M.whole hrouting]
        exact (List.append_nil _).symm
      · intro _
        have hrouting : dag.routing = true := by rw [Dag.routing, hr]; exact hready.1
        rw [hsame, heard_append, untold_append]
        exact (congrArg List.length (List.append_nil _)).trans
          ((M.counted hrouting).trans (by simp [untold, AdapterObs.untoldFor]))
  · cases hstep

theorem Spoken.left (S : Spoken h token dag) {texts : Chain Transcript} {out : Option Transcript}
    (hstep : Chain.step textChannel dag.texts 0 .stop = some (texts, out)) :
    Spoken h token { dag with texts := texts } := by
  obtain ⟨read, queue, M⟩ := S.merge
  obtain ⟨r, hr, hheld, hroom⟩ := S.router
  simp only [hr, Chain.step] at hstep
  split at hstep
  · cases hstep
    refine ⟨⟨_, rfl, rfl, Nat.zero_le _⟩, read, [], M.routed, rfl, ?_, ?_, ?_, ?_⟩
    · rw [List.append_nil]
      refine List.IsPrefix.trans ?_ M.stt
      rw [ofSource_append]
      exact List.prefix_append _ _
    · rw [List.append_nil]
      refine List.Sublist.trans ?_ M.text
      rw [ofSource_append]
      exact List.sublist_append_left _ _
    · intro hrouting
      cases hrouting
    · intro hrouting
      cases hrouting
  · cases hstep

theorem Spoken.bereft (S : Spoken h token dag) (t : Transcript) (hgone : ¬ dag.texts.all Relay.live = true) :
    Spoken (h ++ [.untold token .stt t]) token { dag with stt := none, sttLive := false } := by
  obtain ⟨read, queue, M⟩ := S.merge
  obtain ⟨r, hr, hheld, hroom⟩ := S.router
  have hnot : ¬ dag.routing = true := by
    rw [hr] at hgone
    rw [Dag.routing, hr, Chain.reading]
    simpa using hgone
  refine ⟨⟨r, hr, hheld, hroom⟩, read, queue, ?_, M.waiting, ?_, ?_, fun hrouting => absurd hrouting hnot,
    fun hrouting => absurd hrouting hnot⟩
  · rw [routed_append, M.routed]
    exact (List.append_nil _).symm
  · rw [heard_append]
    exact M.stt.trans (List.prefix_append _ _)
  · rw [heard_append]
    exact M.text.trans (List.sublist_append_left _ _)

end

/-! ## The transcripts of every session -/

/-- Relays move no transcript, and what the others of a session's tasks do keeps
theirs in order. -/
theorem Spoken.ran {token : Nat} {h o : List AdapterObs} {dag dag' : Dag} {es : List Event} (S : Spoken h token dag)
    (hran : Ran token dag dag' o es) : Spoken (h ++ o) token dag' := by
  have hnil : h ++ [] = h := List.append_nil h
  cases hran with
  | @relayed i m audio out _ _ =>
    refine S.keep ?_ rfl rfl
    cases out with
    | none => exact ⟨fun _ => rfl, rfl, rfl⟩
    | some frame => exact ⟨fun _ => rfl, rfl, rfl⟩
  | transcribed hlive hfree => exact S.transcribed dag.session _ hfree
  | forwarded hheld hoffer =>
    rw [hnil]
    exact S.forwarded hheld hoffer
  | bereft hheld hgone => exact S.bereft _ hgone
  | deaf hfree => exact S.keep ⟨fun _ => rfl, rfl, rfl⟩ rfl rfl
  | routed hstep => exact S.routed hstep
  | left hstep =>
    rw [hnil]
    exact S.left hstep

theorem Ran.wordless {token t : Nat} {o : List AdapterObs} {dag dag' : Dag} {es : List Event} (ht : t ≠ token)
    (hran : Ran token dag dag' o es) : Wordless t o := by
  cases hran with
  | @relayed i m audio out _ _ => cases out <;> exact ⟨fun _ => rfl, rfl, rfl⟩
  | @routed texts out _ =>
    cases out with
    | none => exact ⟨fun _ => rfl, rfl, rfl⟩
    | some transcript => exact ⟨fun _ => rfl, by simp [Satellite.routed, AdapterObs.routedFor, Ne.symm ht], rfl⟩
  | _ => simp [Wordless, heard, Satellite.routed, untold, AdapterObs.heardFrom, AdapterObs.routedFor,
      AdapterObs.untoldFor, Ne.symm ht]

namespace Speaking

variable {deps : SatelliteDeps} {h o : List AdapterObs} {s s' : Adapter}

theorem move (S : Speaking deps h s) (L : Ledger deps (h ++ o) s') {token : Nat} {f : Dag → Dag}
    (hdags : s'.dags = s.dags.modify token f) (ho : ∀ t, t ≠ token → Wordless t o)
    (hdag : ∃ dag, s.dags[token]? = some dag ∧ Spoken (h ++ o) token (f dag)) : Speaking deps (h ++ o) s' where
  ledger := L
  texts j d hd := by
    obtain ⟨dag, hdag, hspoken⟩ := hdag
    rw [hdags] at hd
    rcases Slots.modify_cases hd with ⟨hj, hd⟩ | ⟨rfl, d₀, hd₀, rfl⟩
    · exact (S.texts j d hd).keep (ho j (Ne.symm hj)) rfl rfl
    · rw [hdag] at hd₀
      cases hd₀
      exact hspoken
  future j hj := by
    obtain ⟨dag, hdag, -⟩ := hdag
    rw [hdags, List.length_modify] at hj
    have hlt := (List.getElem?_eq_some_iff.mp hdag).1
    obtain ⟨hheard, hrouted, huntold⟩ := S.future j hj
    obtain ⟨hh, hr, hu⟩ := ho j (by omega)
    simp only [heard_append, routed_append, untold_append, hheard, hrouted, huntold, hh, hr, hu]
    exact ⟨fun _ => rfl, rfl, rfl⟩

theorem keep (S : Speaking deps h s) (L : Ledger deps (h ++ o) s') (ho : ∀ t, Wordless t o)
    (hdags : s'.dags = s.dags) : Speaking deps (h ++ o) s' where
  ledger := L
  texts token dag hdag := by
    rw [hdags] at hdag
    exact (S.texts token dag hdag).keep (ho token) rfl rfl
  future token htoken := by
    rw [hdags] at htoken
    obtain ⟨hheard, hrouted, huntold⟩ := S.future token htoken
    obtain ⟨hh, hr, hu⟩ := ho token
    simp only [heard_append, routed_append, untold_append, hheard, hrouted, huntold, hh, hr, hu]
    exact ⟨fun _ => rfl, rfl, rfl⟩

end Speaking

/-- **One step** keeps the transcripts of every session in order. -/
theorem spoken_step {deps : SatelliteDeps} {h o : List AdapterObs} {s s' : Adapter} (S : Speaking deps h s)
    (he : Effect deps s s' o) : Speaking deps (h ++ o) s' := by
  have L := ledger_step S.ledger he
  cases he with
  | quiet _ hdags _ => exact S.keep L (fun _ => ⟨fun _ => rfl, rfl, rfl⟩) hdags
  | opened _ _ _ _ _ hdags _ => exact S.keep L (fun _ => ⟨fun _ => rfl, rfl, rfl⟩) hdags
  | collided _ _ hdags _ => exact S.keep L (fun _ => ⟨fun _ => rfl, rfl, rfl⟩) hdags
  | panicked _ _ _ _ _ hdags _ => exact S.keep L (fun _ => ⟨fun _ => rfl, rfl, rfl⟩) hdags
  | dropped _ _ _ _ hdags _ => exact S.keep L (fun _ => ⟨fun _ => rfl, rfl, rfl⟩) hdags
  | bus _ hdags _ => exact S.keep L (fun _ => ⟨fun _ => rfl, rfl, rfl⟩) hdags
  | lagged _ hdags _ => exact S.keep L (fun _ => ⟨fun _ => rfl, rfl, rfl⟩) hdags
  | told _ hdags _ _ _ => exact S.keep L (fun _ => ⟨fun _ => rfl, rfl, rfl⟩) hdags
  | @closed session sat token _ _ _ _ hdags _ =>
    have hwordless : ∀ t, Wordless t [.closed session token] := fun _ => ⟨fun _ => rfl, rfl, rfl⟩
    cases hdag : s.dags[token]? with
    | some dag => exact S.move L hdags (fun t _ => hwordless t) ⟨dag, hdag,
        (S.texts token dag hdag).keep (hwordless token) rfl rfl⟩
    | none =>
      rw [List.modify_eq_self (List.getElem?_eq_none_iff.mp hdag)] at hdags
      exact S.keep L hwordless hdags
  | @accepted token sat frame dag audio _ _ hdag _ _ hdags _ =>
    have hwordless : ∀ t, Wordless t [.accepted token frame] := fun _ => ⟨fun _ => rfl, rfl, rfl⟩
    exact S.move L hdags (fun t _ => hwordless t) ⟨dag, hdag,
      (S.texts token dag hdag).keep (hwordless token) rfl rfl⟩
  | @said token sat session t dag texts _ _ hdag hoffer _ hdags _ _ =>
    refine S.move L hdags ?_ ⟨dag, hdag, (S.texts token dag hdag).said session hoffer⟩
    intro j hj
    simp [Wordless, heard, routed, untold, AdapterObs.heardFrom, AdapterObs.routedFor, AdapterObs.untoldFor, Ne.symm hj]
  | @unsaid token sat session t hready hview _ _ hdags _ _ =>
    obtain ⟨dag, hdag, -, -⟩ := S.ledger.wired_of_view hview hready
    have hsame : s'.dags = s.dags.modify token id := by rw [hdags, List.modify_id]
    refine S.move L hsame ?_ ⟨dag, hdag, (S.texts token dag hdag).unsaid session t⟩
    intro j hj
    simp [Wordless, heard, routed, untold, AdapterObs.heardFrom, AdapterObs.routedFor, AdapterObs.untoldFor, Ne.symm hj]
  | @started opening _ _ _ _ _ hdags _ =>
    have hwordless : ∀ t, Wordless t [.started opening.session opening.sat opening.locale s.dags.length] :=
      fun _ => ⟨fun _ => rfl, rfl, rfl⟩
    have hfuture : ∀ t, s.dags.length ≤ t →
        Wordless t (h ++ [.started opening.session opening.sat opening.locale s.dags.length]) := by
      intro t ht
      obtain ⟨hheard, hrouted, huntold⟩ := S.future t ht
      simp only [Wordless, heard_append, routed_append, untold_append, hheard, hrouted, huntold]
      exact ⟨fun _ => rfl, rfl, rfl⟩
    refine ⟨L, ?_, ?_⟩
    · intro token dag' hdag'
      rw [hdags] at hdag'
      rcases Slots.concat_cases hdag' with hdag | ⟨rfl, rfl⟩
      · exact (S.texts token dag' hdag).keep (hwordless token) rfl rfl
      · obtain ⟨hheard, hrouted, huntold⟩ := hfuture s.dags.length (Nat.le_refl _)
        refine ⟨⟨.fresh, rfl, rfl, Nat.zero_le _⟩, [], [], hrouted.symm, rfl, List.nil_prefix,
          List.nil_sublist _, ?_, ?_⟩
        · intro _
          rw [hheard]
          rfl
        · intro _
          rw [hheard, huntold]
          rfl
    · intro token htoken
      rw [hdags, List.length_append, List.length_singleton] at htoken
      exact hfuture token (by omega)
  | @ran token dag dag' o es hdag hran _ hdags _ =>
    exact S.move L hdags (fun t ht => hran.wordless ht) ⟨dag, hdag, (S.texts token dag hdag).ran hran⟩

theorem speaking_run {deps : SatelliteDeps} {clock : Nat} {as : List AdapterAction} {s' : Adapter}
    {o : List AdapterObs} (hr : (Adapter.machine deps).run (.init clock) as = some (s', o)) : Speaking deps o s' := by
  have hstart : Speaking deps [] (.init clock) :=
    ⟨.start deps clock, nofun, fun _ _ => ⟨fun _ => rfl, rfl, rfl⟩⟩
  have hinv := Machine.run_invariant (P := Speaking deps)
    (fun h s a s' o S hs => spoken_step S (Adapter.step_effect hs)) hstart hr
  rwa [List.nil_append] at hinv

theorem untold_full {deps : SatelliteDeps} {s s' : Adapter} {o : List AdapterObs} {token : Nat} {t : Transcript}
    (he : Effect deps s s' o) (huntold : .untold token .text t ∈ o) {dag : Dag} (hdag : s.dags[token]? = some dag) :
    Chain.offer textChannel t dag.texts = none := by
  cases he with
  | unsaid _ _ _ hfull _ _ _ =>
    simp only [List.mem_cons, List.not_mem_nil, or_false, reduceCtorEq, false_or, AdapterObs.untold.injEq,
      true_and] at huntold
    obtain ⟨rfl, rfl⟩ := huntold
    exact hfull dag hdag
  | ran _ hran _ _ _ =>
    cases hran <;> simp at huntold
  | _ => simp at huntold

/-- **Transcripts reach the router behind their events.** In every run, for the
tasks wired for any session: what the router has read are transcripts of the STT
stream, in the order of their events and with none left out, among texts in the
order of theirs. While the router runs, an STT transcript whose event is out and
that it has not read is one of at most 17, a text is read, waits, or was not
told, and it is not told only when 16 transcripts wait. -/
theorem transcripts_follow_events (deps : SatelliteDeps) (clock : Nat) (as : List AdapterAction) (s' : Adapter)
    (o : List AdapterObs) (hr : (Adapter.machine deps).run (.init clock) as = some (s', o)) (token : Nat) (dag : Dag)
    (hdag : s'.dags[token]? = some dag) :
    ∃ read : List (Source × Transcript), read.map Prod.snd = routed token o ∧
      ofSource .stt read <+: heard .stt token o ∧ (ofSource .text read).Sublist (heard .text token o) ∧
      (dag.routing = true →
        (heard .stt token o).length ≤ (ofSource .stt read).length + 17 ∧
        (heard .text token o).length ≤ (ofSource .text read).length + dag.waiting.length + (untold token o).length ∧
        ∀ a s'' o' t, (Adapter.machine deps).step s' a = some (s'', o') → .untold token .text t ∈ o' →
          dag.waiting.length = 16) := by
  have S := (speaking_run hr).texts token dag hdag
  obtain ⟨r, hr, hheld, hroom⟩ := S.router
  obtain ⟨read, queue, M⟩ := S.merge
  have hlength : dag.waiting.length = r.queue.length := by
    rw [Dag.waiting, hr]
    simp [Chain.content, Relay.holding, hheld]
  have hcap : textChannel = 16 := rfl
  have hsources : ∀ source, (ofSource source queue).length ≤ dag.waiting.length := by
    intro source
    rw [← M.waiting, ofSource, List.length_map, List.length_map]
    exact List.length_filter_le _ _
  refine ⟨read, M.routed, ?_, ?_, ?_⟩
  · refine List.IsPrefix.trans ?_ M.stt
    rw [ofSource_append]
    exact List.prefix_append _ _
  · refine List.Sublist.trans ?_ M.text
    rw [ofSource_append]
    exact List.sublist_append_left _ _
  · intro hrouting
    refine ⟨?_, ?_, ?_⟩
    · have hone : dag.stt.toList.length ≤ 1 := by cases dag.stt <;> simp
      have hstt := hsources .stt
      rw [← M.whole hrouting, ofSource_append, List.length_append, List.length_append]
      omega
    · have htext := hsources .text
      rw [M.counted hrouting, ofSource_append, List.length_append]
      omega
    · intro a s'' o' t hs huntold
      have hfull := untold_full (Adapter.step_effect hs) huntold hdag
      have hlive : r.live = true := by
        rw [Dag.routing, hr] at hrouting
        exact hrouting
      rw [hr] at hfull
      simp only [Chain.offer, hlive, true_and] at hfull
      split at hfull
      · cases hfull
      · omega

/-- A transcript from the STT stream and a text, the text ahead of it. -/
def overtaken : List AdapterAction :=
  [seventh [] .start kitchen, .wire, .transcribe 0 ⟨"bonjour".toList, true⟩,
    seventh [115, 116, 111, 112, 32] .text kitchen,
    .route 0]

def overtakenObs : List AdapterObs :=
  [.opened 7 kitchen.text 0, .started 7 kitchen.text "en".toList 0, .heard 0 7 .stt ⟨"bonjour".toList, true⟩,
    .heard 0 7 .text ⟨"stop".toList, true⟩, .routed 0 ⟨"stop".toList, true⟩]

/-- The event of the transcript came first, and the router has the text. -/
theorem text_overtakes :
    ∃ s', (Adapter.machine plainDeps).run (.init 0) overtaken = some (s', overtakenObs) ∧
      routed 0 overtakenObs = [⟨"stop".toList, true⟩] ∧
        heard .stt 0 overtakenObs = [⟨"bonjour".toList, true⟩] ∧
      ∃ read : List (Source × Transcript), read.map Prod.snd = routed 0 overtakenObs ∧
        ofSource .stt read <+: heard .stt 0 overtakenObs := by
  have hrun : ∃ s', (Adapter.machine plainDeps).run (.init 0) overtaken = some (s', overtakenObs) ∧
      (s'.dags[0]?).isSome = true := ⟨_, rfl, rfl⟩
  obtain ⟨s', hrun, hsome⟩ := hrun
  obtain ⟨dag, hdag⟩ := Option.isSome_iff_exists.mp hsome
  obtain ⟨read, hrouted, hstt, -⟩ := transcripts_follow_events plainDeps 0 overtaken _ _ hrun 0 dag hdag
  exact ⟨s', hrun, rfl, rfl, read, hrouted, hstt⟩

end AthenaVoice.Satellite
