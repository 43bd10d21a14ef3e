import AthenaVoice.Remote.SttLink

/-
  What the router is told — the responses to a call, over the broker, to the
  session's router

  A response of a call is on the wire, in the call's channel, or met by its
  stream; the transcripts met are with the router, or one is with the stage. The
  stream ends at a terminal marker, and when no response comes in time: so a
  pause that is too long ends it like a worker that is dead, and nothing more of
  the session is heard. A pause that is not, and an utterance with no speech,
  change nothing of it.

  A response that finds its channel full is dropped; the runs are those in which
  none is.

  What is proved:
    1. `following_step` — a call's responses are those its stream has met, then
       those waiting for it, in the order of their publishes.
    2. `transcripts_forwarded` — while no stream times out, every transcript
       before the terminal marker is forwarded, once and in order, and the
       stream ends nowhere else.
    3. `pause_ends_stream` — after a long pause, what is said is lost.
-/

namespace AthenaVoice.Remote

open Lib CoreTypes

/-- A response of call `i` that is published. -/
def SttObs.response (i : Nat) : SttObs → Option Json
  | .published j v => if j = i then some v else none
  | .framed .. | .closed _ | .handled .. | .transcribed .. | .event _ | .forwarded .. | .timedOut _ => none

/-- A transcript of call `i` that the router takes. -/
def SttObs.taken (i : Nat) : SttObs → Option Transcript
  | .forwarded j t => if j = i then some t else none
  | .framed .. | .closed _ | .handled .. | .transcribed .. | .published .. | .event _ | .timedOut _ => none

/-- The responses of call `i` that are published. -/
def publishedFor (i : Nat) (h : List SttObs) : List Json := h.filterMap (SttObs.response i)

/-- The transcripts of call `i` that the router has taken. -/
def forwardedFor (i : Nat) (h : List SttObs) : List Transcript := h.filterMap (SttObs.taken i)

/-- The transcripts before the terminal marker. -/
def beforeDone : List Json → List Transcript
  | [] => []
  | v :: vs =>
    match parseSttResponse (some v) with
    | .transcript t => t :: beforeDone vs
    | .done => []
    | .malformed => beforeDone vs

/-- The responses of call `i` among publishes. -/
def responsesOf (i : Nat) (ps : List Publish) : List Json :=
  ps.filterMap (fun p => if p.request = i then p.payload else none)

/-- The transcript that waits for the router. -/
def SttStage.held : SttStage → List Transcript
  | .sending t => [t]
  | .listening | .stopped => []

namespace SttLink

/-- The session of call `i` stays open, and its channel has room for every
response that comes. -/
def attended (i : Nat) (s : SttLink) : SttAction → Bool
  | .pump =>
    match s.responses with
    | [] => true
    | p :: _ => p.request ≠ i || s.client.channels[i]?.all (fun c => c.queue.length < RESPONSES)
  | .forward j ok => j ≠ i || ok
  | .cancel j => j ≠ i
  | .start .. | .frame .. | .close _ | .handle .. | .respond .. | .remove | .poll .. => true

/-- A response of call `i` is on its way, or a transcript of it. -/
def pending (i : Nat) (s : SttLink) : Bool :=
  s.responses.any (fun p => p.request = i) || s.client.channels[i]?.any (fun c => !c.queue.isEmpty) ||
    s.calls[i]?.any (fun c => !c.stage.held.isEmpty)

/-- What brings a response of call `i` on. -/
def bringsOn (i : Nat) : List SttAction := [.pump, .remove, .poll i false, .forward i true]

end SttLink

/-- What the transcripts of call `i` come to. -/
structure Delivers (env : SttEnv) (i : Nat) (h : List SttObs) (s : SttLink) (c : SttCall) : Prop where
  /-- What is forwarded was published, in this order, before the marker. -/
  inOrder : forwardedFor i h <+: beforeDone (publishedFor i h)
  /-- The stream ends at the terminal marker. -/
  ends : .timedOut i ∉ h → c.stage = .stopped → ∃ v ∈ publishedFor i h, parseSttResponse (some v) = .done
  /-- All is forwarded, once nothing is on its way. -/
  complete : .timedOut i ∉ h → s.pending i = false → forwardedFor i h = beforeDone (publishedFor i h)
  /-- What is on its way can go on. -/
  goesOn : .timedOut i ∉ h → c.stage ≠ .stopped → s.pending i = true →
    ∃ a ∈ SttLink.bringsOn i, (s.step env a).isSome = true

/-! ## Transcripts of responses -/

/-- The transcripts of responses none of which is the marker. -/
def transcriptsIn (vs : List Json) : List Transcript :=
  vs.filterMap (fun v => match parseSttResponse (some v) with | .transcript t => some t | .done | .malformed => none)

/-- What the stage does on a response. -/
def SttResponse.next : SttResponse → SttStage
  | .transcript t => .sending t
  | .done => .stopped
  | .malformed => .listening

def Unended (vs : List Json) : Prop := ∀ v ∈ vs, parseSttResponse (some v) ≠ .done

theorem beforeDone_append {vs : List Json} (hvs : Unended vs) (ws : List Json) :
    beforeDone (vs ++ ws) = transcriptsIn vs ++ beforeDone ws := by
  induction vs with
  | nil => rfl
  | cons v vs ih =>
    have hrest := ih (fun w hw => hvs w (List.mem_cons_of_mem v hw))
    cases hv : parseSttResponse (some v) with
    | transcript t => simp only [List.cons_append, beforeDone, hv, hrest, transcriptsIn, List.filterMap_cons]
    | done => exact absurd hv (hvs v List.mem_cons_self)
    | malformed => simp only [List.cons_append, beforeDone, hv, hrest, transcriptsIn, List.filterMap_cons]

theorem beforeDone_cons_done {v : Json} (hv : parseSttResponse (some v) = .done) (vs : List Json) :
    beforeDone (v :: vs) = [] := by
  simp only [beforeDone, hv]

theorem beforeDone_prefix_append : ∀ vs ws : List Json, beforeDone vs <+: beforeDone (vs ++ ws) := by
  intro vs
  induction vs with
  | nil => intro ws; exact List.nil_prefix
  | cons v vs ih =>
    intro ws
    cases hv : parseSttResponse (some v) with
    | transcript t =>
      simp only [List.cons_append, beforeDone, hv]
      exact List.prefix_cons_iff.mpr (Or.inr ⟨_, rfl, ih ws⟩)
    | done =>
      simp only [List.cons_append, beforeDone, hv]
      exact List.nil_prefix
    | malformed =>
      simp only [List.cons_append, beforeDone, hv]
      exact ih ws

theorem Unended.concat {vs : List Json} (hvs : Unended vs) {v : Json} (hv : parseSttResponse (some v) ≠ .done) :
    Unended (vs ++ [v]) := by
  intro w hw
  rcases List.mem_append.mp hw with hold | hnew
  · exact hvs w hold
  · rw [List.mem_singleton.mp hnew]
    exact hv

/-! ## Histories -/

section Histories

variable (i : Nat) (h o : List SttObs)

@[simp] theorem publishedFor_append : publishedFor i (h ++ o) = publishedFor i h ++ publishedFor i o :=
  List.filterMap_append

@[simp] theorem forwardedFor_append : forwardedFor i (h ++ o) = forwardedFor i h ++ forwardedFor i o :=
  List.filterMap_append

@[simp] theorem responsesOf_append (ps qs : List Publish) :
    responsesOf i (ps ++ qs) = responsesOf i ps ++ responsesOf i qs := List.filterMap_append

end Histories

theorem responsesOf_posted (i j : Nat) (topic : Text) (ok : Bool) (os : List WorkerObs) :
    responsesOf i (os.flatMap (WorkerObs.posted topic j ok)) =
      publishedFor i (os.flatMap (WorkerObs.observed j ok)) := by
  induction os with
  | nil => rfl
  | cons x os ih =>
    rw [List.flatMap_cons, List.flatMap_cons, responsesOf_append, publishedFor_append, ih]
    congr 1
    cases x with
    | transcribed sessionId locale pcm => rfl
    | published v =>
      cases ok with
      | true => rfl
      | false => rfl

/-- It says something of call `i`'s responses. -/
def SttObs.concerns (i : Nat) : SttObs → Bool
  | .published j _ | .forwarded j _ | .timedOut j => j = i
  | .framed .. | .closed _ | .handled .. | .transcribed .. | .event _ => false

section Elsewhere

variable {i : Nat} {o : List SttObs} (helse : ∀ x ∈ o, x.concerns i = false)
include helse

theorem publishedFor_elsewhere : publishedFor i o = [] := by
  apply List.filterMap_eq_nil_iff.mpr
  intro x hx
  have hx := helse x hx
  cases x with
  | published j v => simpa [SttObs.concerns, SttObs.response] using hx
  | _ => rfl

theorem forwardedFor_elsewhere : forwardedFor i o = [] := by
  refine List.filterMap_eq_nil_iff.mpr ?_
  intro x hx
  have hx := helse x hx
  cases x with
  | forwarded j t => simpa [SttObs.concerns, SttObs.taken] using hx
  | _ => rfl

theorem timedOut_elsewhere : .timedOut i ∉ o := by
  intro hx
  have hx := helse _ hx
  simp [SttObs.concerns] at hx

end Elsewhere

section Serve

variable (env : SttEnv) (s : SttLink) (r : Request) (rest : List Request) (now : Nat) (outcome : Option Text)
  (ok : Bool)

theorem serve_cases {x : SttObs} (hx : x ∈ (s.serve env r rest now outcome ok).2) :
    (∃ sid, x = .handled sid now) ∨ (∃ sid locale pcm, x = .transcribed sid locale pcm) ∨
      ∃ v, x = .published r.call v := by
  rcases List.mem_append.mp hx with hhandled | hobserved
  · obtain ⟨sid, -, rfl⟩ := List.mem_map.mp hhandled
    exact Or.inl ⟨sid, rfl⟩
  · exact Or.inr (observed_cases hobserved)

theorem forwardedFor_serve (i : Nat) : forwardedFor i (s.serve env r rest now outcome ok).2 = [] := by
  refine List.filterMap_eq_nil_iff.mpr ?_
  intro x hx
  rcases serve_cases env s r rest now outcome ok hx with ⟨_, rfl⟩ | ⟨_, _, _, rfl⟩ | ⟨_, rfl⟩ <;> rfl

theorem timedOut_serve (i : Nat) : .timedOut i ∉ (s.serve env r rest now outcome ok).2 := by
  intro hx
  rcases serve_cases env s r rest now outcome ok hx with ⟨_, he⟩ | ⟨_, _, _, he⟩ | ⟨_, he⟩ <;> cases he

theorem responsesOf_serve (i : Nat) : responsesOf i (s.serve env r rest now outcome ok).1.responses =
    responsesOf i s.responses ++ publishedFor i (s.serve env r rest now outcome ok).2 := by
  have hhandled : ∀ sid :
    Option Text, publishedFor i (sid.toList.map (fun sessionId => .handled sessionId now)) = [] := by
    intro sid
    cases sid <;> rfl
  simp only [SttLink.serve, responsesOf_append, publishedFor_append, hhandled, List.nil_append, responsesOf_posted]

end Serve

/-! ## Where a call's responses are -/

/-- The responses of call `i`: those its stream has met, those in its channel and
those on the wire; or the stream has ended. -/
inductive Following (client : Client) (responses : List Publish) (h : List SttObs) (i : Nat) (session : SessionId)
    (stage : SttStage) : Prop where
  | going (met : List Json) (ch : Channel)
      (published : publishedFor i h = met ++ (ch.queue.filterMap Publish.payload ++ responsesOf i responses))
      (unended : Unended met) (transcripts : transcriptsIn met = forwardedFor i h ++ stage.held)
      (inTime : .timedOut i ∉ h) (running : stage ≠ .stopped) (route : client.routes session = some i)
      (channel : client.channels[i]? = some ch) (alive : ch.alive = true) (kept : client.removing ≠ some session)
  | ended (met rest : List Json) (v : Json) (published : publishedFor i h = met ++ v :: rest) (unended : Unended met)
      (marker : parseSttResponse (some v) = .done) (transcripts : transcriptsIn met = forwardedFor i h)
      (stopped : stage = .stopped)
  | gaveUp (inOrder : forwardedFor i h <+: beforeDone (publishedFor i h)) (stopped : stage = .stopped)
      (timedOut : .timedOut i ∈ h)

namespace Following

variable {client client' : Client} {responses responses' : List Publish} {h o : List SttObs} {i : Nat}
  {session : SessionId} {stage : SttStage}

theorem ofStopped (F : Following client responses h i session .stopped) (hforwarded : forwardedFor i o = []) :
    Following client' responses' (h ++ o) i session .stopped := by
  have hsame : forwardedFor i (h ++ o) = forwardedFor i h := by
    rw [forwardedFor_append, hforwarded, List.append_nil]
  cases F with
  | going met ch _ _ _ _ hrunning => exact absurd rfl hrunning
  | ended met rest v hpublished hunended hmarker htr hover =>
    refine .ended met (rest ++ publishedFor i o) v ?_ hunended hmarker (htr.trans hsame.symm) rfl
    rw [publishedFor_append, hpublished, List.append_assoc, List.cons_append]
  | gaveUp hbegins hover htimedOut =>
    refine .gaveUp ?_ rfl (List.mem_append_left _ htimedOut)
    rw [hsame, publishedFor_append]
    exact hbegins.trans (beforeDone_prefix_append _ _)

theorem update (F : Following client responses h i session stage)
    (hroute : client'.routes session = client.routes session)
    (hchannel : client'.channels[i]? = client.channels[i]?)
    (hkept : client.removing ≠ some session → client'.removing ≠ some session)
    (hresponses : responsesOf i responses' = responsesOf i responses ++ publishedFor i o)
    (hforwarded : forwardedFor i o = []) (htimedOut : .timedOut i ∉ o) :
    Following client' responses' (h ++ o) i session stage := by
  cases F with
  | going met ch hpublished hunended htr hinTime hon hr hc halive hk =>
    refine .going met ch ?_ hunended ?_ ?_ hon (hroute.trans hr) (hchannel.trans hc) halive (hkept hk)
    · rw [publishedFor_append, hpublished, hresponses]
      simp only [List.append_assoc]
    · rw [forwardedFor_append, hforwarded, List.append_nil, htr]
    · rw [List.mem_append]
      exact fun hor => hor.elim hinTime htimedOut
  | ended met rest v hpublished hunended hmarker htr hover =>
    subst hover
    have hstopped : Following client responses h i session .stopped :=
      ended met rest v hpublished hunended hmarker htr rfl
    exact hstopped.ofStopped hforwarded
  | gaveUp hbegins hover hout =>
    subst hover
    exact (gaveUp hbegins rfl hout : Following client responses h i session .stopped).ofStopped hforwarded

theorem elsewhere (F : Following client responses h i session stage)
    (hroute : client'.routes session = client.routes session)
    (hchannel : client'.channels[i]? = client.channels[i]?)
    (hkept : client.removing ≠ some session → client'.removing ≠ some session)
    (hresponses : responsesOf i responses' = responsesOf i responses) (helse : ∀ x ∈ o, x.concerns i = false) :
    Following client' responses' (h ++ o) i session stage := by
  refine F.update hroute hchannel hkept ?_ (forwardedFor_elsewhere helse) (timedOut_elsewhere helse)
  rw [hresponses, publishedFor_elsewhere helse, List.append_nil]

theorem listening_cases (F : Following client responses h i session .listening) :
    ∃ met ch, publishedFor i h =
      met ++ (ch.queue.filterMap Publish.payload ++ responsesOf i responses) ∧ Unended met ∧
      transcriptsIn met = forwardedFor i h ∧ client.routes session = some i ∧ client.channels[i]? = some ch := by
  cases F with
  | going met ch hpublished hunended htr hinTime hrunning hroute hchannel halive hkept =>
    exact ⟨met, ch, hpublished, hunended, htr.trans (List.append_nil _), hroute, hchannel⟩
  | ended _ _ _ _ _ _ _ hstopped => cases hstopped
  | gaveUp _ hstopped _ => cases hstopped

theorem heard {p : Publish} {rest : List Publish} {ch : Channel} (F : Following client responses h i session .listening)
    (hchannel : client.channels[i]? = some ch) (hqueue : ch.queue = p :: rest) :
    Following (client.setChannel i Channel.pop) responses h i session (parseSttResponse p.payload).next := by
  have hpopped : (client.setChannel i Channel.pop).channels[i]? = some ch.pop := by
    rw [Client.channel_setChannel, if_pos rfl, hchannel]
    rfl
  have hrest : ch.pop.queue = rest := by
    rw [Channel.pop, hqueue]
    rfl
  cases F with
  | ended _ _ _ _ _ _ _ hstopped => cases hstopped
  | gaveUp _ hstopped _ => cases hstopped
  | going met d hpublished hunended htr hinTime hrunning hroute hd halive hkept =>
    rw [hchannel] at hd
    cases hd
    rw [hqueue, List.filterMap_cons] at hpublished
    cases hpayload : p.payload with
    | none =>
      -- what is no JSON is skipped
      rw [hpayload] at hpublished
      exact .going met ch.pop
        (by rw [hrest]; exact hpublished) hunended htr hinTime hrunning hroute hpopped halive hkept
    | some v =>
      rw [hpayload] at hpublished
      have hmet : publishedFor i h =
        (met ++ [v]) ++ (ch.pop.queue.filterMap Publish.payload ++ responsesOf i responses) := by
        rw [hrest, hpublished, List.append_assoc, List.singleton_append]
        rfl
      have hadd : transcriptsIn (met ++ [v]) = forwardedFor i h ++ transcriptsIn [v] := by
        rw [transcriptsIn, List.filterMap_append, ← transcriptsIn, ← transcriptsIn, htr]
        exact congrArg (· ++ _) (List.append_nil _)
      cases hparse : parseSttResponse (some v) with
      | transcript t =>
        refine .going (met ++ [v]) ch.pop hmet (hunended.concat (by simp [hparse])) ?_ hinTime
          (by simp [SttResponse.next])
          hroute hpopped halive hkept
        rw [hadd]
        simp only [transcriptsIn, List.filterMap_cons, hparse, List.filterMap_nil, SttResponse.next, SttStage.held]
      | done => exact .ended met _ v hpublished hunended hparse (htr.trans (List.append_nil _)) rfl
      | malformed =>
        refine .going (met ++ [v]) ch.pop hmet (hunended.concat (by simp [hparse])) ?_ hinTime
          (by simp [SttResponse.next])
          hroute hpopped halive hkept
        rw [hadd]
        simp only [transcriptsIn, List.filterMap_cons, hparse, List.filterMap_nil, SttResponse.next, SttStage.held]

theorem taken {t : Transcript} (F : Following client responses h i session (.sending t)) :
    Following client responses (h ++ [.forwarded i t]) i session .listening := by
  cases F with
  | going met ch hpublished hunended htr hinTime hrunning hroute hchannel halive hkept =>
    refine .going met ch ?_ hunended ?_ (by simp [hinTime]) (by simp) hroute hchannel halive hkept
    · rw [publishedFor_append, hpublished]
      exact List.append_nil _
    · rw [htr, forwardedFor_append]
      simp [forwardedFor, SttObs.taken, SttStage.held]
  | ended _ _ _ _ _ _ _ hstopped => cases hstopped
  | gaveUp _ hstopped _ => cases hstopped

theorem timedOut (F : Following client responses h i session .listening) :
    Following client' responses' (h ++ [.timedOut i]) i session .stopped := by
  obtain ⟨met, ch, hpublished, hunended, htr, -, -⟩ := F.listening_cases
  refine .gaveUp ?_ rfl (List.mem_append_right _ (List.mem_singleton_self _))
  have hsame : publishedFor i (h ++ [.timedOut i]) = publishedFor i h := by
    rw [publishedFor_append]
    exact List.append_nil _
  rw [forwardedFor_append, hsame, hpublished, beforeDone_append hunended, htr]
  show forwardedFor i h ++ [] <+: _
  rw [List.append_nil]
  exact List.prefix_append _ _

theorem pushed {p : Publish} {rest : List Publish} {ch : Channel} (F : Following client (p :: rest) h i session stage)
    (hp : p.request = i) (hchannel : client.channels[i]? = some ch) :
    Following (client.setChannel i (Channel.push p)) rest h i session stage := by
  cases F with
  | going met d hpublished hunended htr hinTime hrunning hroute hd halive hkept =>
    rw [hchannel] at hd
    cases hd
    refine .going met (ch.push p) ?_ hunended htr hinTime hrunning hroute ?_ halive hkept
    · rw [hpublished]
      cases hpayload : p.payload with
      | none => simp [responsesOf, Channel.push, hp, hpayload]
      | some v => simp [responsesOf, Channel.push, hp, hpayload]
    · rw [Client.channel_setChannel, if_pos rfl, hchannel]
      rfl
  | ended met rest' v hpublished hunended hmarker htr hstopped =>
    exact .ended met rest' v hpublished hunended hmarker htr hstopped
  | gaveUp hbegins hstopped hout => exact .gaveUp hbegins hstopped hout

theorem removed {sid : SessionId} (F : Following client responses h i session stage)
    (hremoving : client.removing = some sid) :
    Following { (client.setRoute sid none) with removing := none } responses h i session stage := by
  cases F with
  | going met ch hpublished hunended htr hinTime hrunning hroute hchannel halive hkept =>
    have hne : session ≠ sid := fun he => hkept (he ▸ hremoving)
    refine .going met ch hpublished hunended htr hinTime hrunning ?_ hchannel halive (by simp)
    simp only [Client.setRoute, if_neg hne]
    exact hroute
  | ended met rest v hpublished hunended hmarker htr hstopped =>
    exact .ended met rest v hpublished hunended hmarker htr hstopped
  | gaveUp hbegins hstopped hout => exact .gaveUp hbegins hstopped hout

end Following

/-- Where the responses of call `i` are, once it is made. -/
structure Followed (env : SttEnv) (i : Nat) (h : List SttObs) (s : SttLink) : Prop where
  wired : Wired env s
  call : ∀ c, s.calls[i]? = some c → Following s.client s.responses h i c.session c.stage
  unmade : s.calls.length ≤ i → publishedFor i h = [] ∧ forwardedFor i h = [] ∧ .timedOut i ∉ h

namespace Followed

theorem new (env : SttEnv) (i : Nat) : Followed env i [] .new where
  wired := Wired.new env
  call := by intro c h; cases h
  unmade := fun _ => ⟨rfl, rfl, by intro hx; cases hx⟩

variable {env : SttEnv} {i j : Nat} {h o : List SttObs} {s s' : SttLink}

theorem next (I : Followed env i h s) (W : Wired env s') (hlength : s.calls.length ≤ s'.calls.length)
    (hcall : ∀ c', s'.calls[i]? = some c' → Following s'.client s'.responses (h ++ o) i c'.session c'.stage)
    (helse : s.calls.length ≤ i → ∀ x ∈ o, x.concerns i = false) : Followed env i (h ++ o) s' := by
  refine ⟨W, hcall, ?_⟩
  intro hi
  have hi' : s.calls.length ≤ i := Nat.le_trans hlength hi
  obtain ⟨hpublished, hforwarded, htimedOut⟩ := I.unmade hi'
  refine ⟨?_, ?_, ?_⟩
  · rw [publishedFor_append, hpublished, publishedFor_elsewhere (helse hi')]
    rfl
  · rw [forwardedFor_append, hforwarded, forwardedFor_elsewhere (helse hi')]
    rfl
  · rw [List.mem_append]
    exact fun hor => hor.elim htimedOut (timedOut_elsewhere (helse hi'))

theorem responsesOf_unmade (I : Followed env i h s) (hi : s.calls.length ≤ i) : responsesOf i s.responses = [] := by
  refine List.filterMap_eq_nil_iff.mpr ?_
  intro p hp
  obtain ⟨session, hname, -⟩ := I.wired.responses p hp
  have hlt := (List.getElem?_eq_some_iff.mp hname).1
  rw [SttLink.names, List.length_map] at hlt
  rw [if_neg (by omega)]

theorem concerns_unmade {c : SttCall} {x : SttObs} (hcall : s.calls[j]? = some c)
    (hx : ∀ k, k ≠ j → x.concerns k = false) :
    s.calls.length ≤ i → ∀ y ∈ [x], y.concerns i = false := by
  intro hi y hy
  have hj := (List.getElem?_eq_some_iff.mp hcall).1
  rw [List.mem_singleton.mp hy]
  exact hx i (by omega)

theorem changes {f : SttCall → SttCall} {g : Channel → Channel} {c : SttCall} (I : Followed env i h s)
    (W : Wired env { s with client := s.client.setChannel j g, calls := s.calls.modify j f })
    (hcall : s.calls[j]? = some c) (hself : i = j → Following (s.client.setChannel i g) s.responses (h ++ o) i
      (f c).session (f c).stage) (ho : ∀ x ∈ o, ∀ k, k ≠ j → x.concerns k = false) :
    Followed env i (h ++ o) { s with client := s.client.setChannel j g, calls := s.calls.modify j f } := by
  have hj := (List.getElem?_eq_some_iff.mp hcall).1
  refine I.next W (le_of_eq (List.length_modify _ _ _).symm) ?_ (fun hi x hx => ho x hx i (by omega))
  intro c' hc'
  rcases Slots.modify_cases hc' with ⟨hne, hold⟩ | ⟨rfl, d, hd, rfl⟩
  · refine (I.call c' hold).elsewhere rfl ?_ id rfl (fun x hx => ho x hx i (Ne.symm hne))
    rw [Client.channel_setChannel, if_neg hne]
  · have hdc : d = c := Option.some.inj (hd.symm.trans hcall)
    subst hdc
    exact hself rfl

theorem finish {c : SttCall} (I : Followed env i h s) (hcall : s.calls[j]? = some c)
    (hself : i = j → Following (s.client.setChannel i Channel.close) s.responses (h ++ o) i c.session .stopped)
    (ho : ∀ x ∈ o, ∀ k, k ≠ j → x.concerns k = false) : Followed env i (h ++ o) (s.finish j) :=
  I.changes (f := fun c => { c with stage := .stopped }) I.wired.finish hcall hself ho

theorem opened {session : SessionId} {locale : Text} {s' : SttLink} (I : Followed env i h s) (W : Wired env s')
    (hfresh : ∀ c ∈ s.calls, c.session ≠ session) (hclient : s'.client = s.client.insert session)
    (hcalls : s'.calls = s.calls ++ [{ session := session, locale := locale, closed := false, stage := .listening }])
    (hresponses : s'.responses = s.responses) : Followed env i (h ++ []) s' := by
  have hquiet : ∀ x ∈ ([] : List SttObs), x.concerns i = false := by intro x hx; cases hx
  refine I.next W (by simp [hcalls]) ?_ (fun _ => hquiet)
  intro c' hi
  rw [hcalls] at hi
  rw [hclient, hresponses]
  -- the call of the invariant was there, is the new one, or is still to be made
  rcases Nat.lt_trichotomy i s.calls.length with hlt | heq | hgt
  · rw [List.getElem?_append_left hlt] at hi
    obtain ⟨ch, hchannel, -⟩ := I.wired.channel_of_call hi
    refine (I.call c' hi).elsewhere ?_ ?_ id rfl hquiet
    · rw [Client.route_insert, if_neg (hfresh c' (List.mem_of_getElem? hi))]
    · rw [hchannel]
      exact Client.channel_insert_of_some hchannel
  · subst heq
    rw [List.getElem?_concat_length] at hi
    cases hi
    obtain ⟨hpublished, hforwarded, htimedOut⟩ := I.unmade le_rfl
    have hplaces : s.client.channels.length = s.calls.length := by
      have hlength := congrArg List.length I.wired.channels
      rw [SttLink.names, List.length_map, List.length_map] at hlength
      exact hlength
    rw [List.append_nil]
    refine .going [] { session := session, queue := [], alive := true } ?_ ?_ ?_ htimedOut (by simp) ?_ ?_ rfl ?_
    · rw [hpublished, I.responsesOf_unmade le_rfl]
      rfl
    · intro v hv
      cases hv
    · rw [hforwarded]
      rfl
    · rw [Client.route_insert, if_pos rfl, hplaces]
    · rw [← hplaces]
      exact List.getElem?_concat_length
    · intro hremoving
      obtain ⟨c, hc, he⟩ := List.mem_map.mp (I.wired.removing session hremoving)
      exact hfresh c hc he
  · rw [List.getElem?_eq_none (by simp; omega)] at hi
    cases hi

theorem pumpedAway {p : Publish} {client : Client} {obs : List ClientObs} {c : SttCall} {sid : SessionId}
    (I : Followed env i h s) (hrouted : env.client.routed p = some sid) (hne : sid ≠ c.session)
    (hstep : s.client.step env.client (.pump p) = some (client, obs)) (hcall : s.calls[i]? = some c) :
    client.routes = s.client.routes ∧ client.channels[i]? = s.client.channels[i]? ∧
      (s.client.removing ≠ some c.session → client.removing ≠ some c.session) := by
  obtain ⟨ch, hchannel, hsession⟩ := I.wired.channel_of_call hcall
  cases Client.step_cases hstep with
  | ignored _ hfree hnobody => exact ⟨rfl, rfl, id⟩
  | stale _ sid' k d hfree hr hroute hd hdead =>
    rw [hrouted] at hr
    cases hr
    exact ⟨rfl, rfl, fun _ he => hne (Option.some.inj he)⟩
  | sent _ sid' k d hfree hr hroute hd halive hroom =>
    rw [hrouted] at hr
    cases hr
    obtain ⟨e, he, hsid⟩ := I.wired.routed.route sid k hroute
    refine ⟨rfl, ?_, id⟩
    rw [Client.channel_setChannel, if_neg]
    rintro rfl
    rw [hchannel] at he
    cases he
    exact hne (hsid.symm.trans hsession)
  | full _ sid' k d hfree hr hroute hd halive hfull => exact ⟨rfl, rfl, id⟩

theorem pumpedSelf {p : Publish} {client : Client} {obs : List ClientObs} {ch : Channel} {session : SessionId}
    (hrouted : env.client.routed p = some session) (hroute : s.client.routes session = some i)
    (hchannel : s.client.channels[i]? = some ch) (halive : ch.alive = true) (hroom : ch.queue.length < RESPONSES)
    (hstep : s.client.step env.client (.pump p) = some (client, obs)) :
    client = s.client.setChannel i (Channel.push p) := by
  have hdispatch : s.client.dispatch session p = s.client.setChannel i (Channel.push p) := by
    simp only [Client.dispatch, hroute, hchannel, halive, if_pos hroom, Bool.true_eq_false, if_false]
  have hfree : s.client.removing = none := by
    cases Client.step_cases hstep <;> assumption
  simp only [Client.step, hfree, hrouted, hdispatch] at hstep
  cases hstep
  rfl

theorem pumped {p : Publish} {rest : List Publish} {client : Client} {obs : List ClientObs} {c : SttCall}
    (I : Followed env i h s) (hopen : s.attended i .pump = true) (hresponses : s.responses = p :: rest)
    (hstep : s.client.step env.client (.pump p) = some (client, obs)) (hcall : s.calls[i]? = some c) :
    Following client rest h i c.session c.stage := by
  obtain ⟨sid, hname, hrouted⟩ := I.wired.responses p (by rw [hresponses]; exact List.mem_cons_self)
  obtain ⟨ch, hchannel, hsession⟩ := I.wired.channel_of_call hcall
  have F := I.call c hcall
  by_cases hp : p.request = i
  · have hsid : sid = c.session := by
      rw [hp, Wired.names_of_call hcall] at hname
      exact (Option.some.inj hname).symm
    subst hsid
    rw [hresponses] at F
    cases F with
    | going met d hpublished hunended htr hinTime hrunning hroute hd halive hkept =>
      have hroom : d.queue.length < RESPONSES := by
        simp only [SttLink.attended, hresponses, hd, hp, Option.all_some] at hopen
        simpa using hopen
      rw [pumpedSelf hrouted hroute hd halive hroom hstep]
      exact (Following.going met d hpublished hunended htr hinTime hrunning hroute hd halive hkept).pushed hp hd
    | ended met rest' v hpublished hunended hmarker htr hstopped =>
      exact .ended met rest' v hpublished hunended hmarker htr hstopped
    | gaveUp hbegins hstopped hout => exact .gaveUp hbegins hstopped hout
  · -- it is another session's
    have hne : sid ≠ c.session := by
      rintro rfl
      exact hp (I.wired.eq_of_session hname (Wired.names_of_call hcall))
    have hrest : responsesOf i rest = responsesOf i s.responses := by
      rw [hresponses]
      simp [responsesOf, hp]
    obtain ⟨hroutes, hchannels, hkept⟩ := I.pumpedAway hrouted hne hstep hcall
    have hnext : Following client rest (h ++ []) i c.session c.stage :=
      F.elsewhere (congrFun hroutes _) hchannels hkept hrest (fun x hx => by cases hx)
    rw [List.append_nil] at hnext
    exact hnext

theorem staged {stage : SttStage} {c : SttCall} (I : Followed env i h s) (hcall : s.calls[j]? = some c)
    (hself : i = j → Following s.client s.responses (h ++ o) i c.session stage)
    (ho : ∀ x ∈ o, ∀ k, k ≠ j → x.concerns k = false) : Followed env i (h ++ o) (s.setStage j stage) := by
  have hj := (List.getElem?_eq_some_iff.mp hcall).1
  refine I.next (I.wired.setStage stage) (le_of_eq (List.length_modify _ _ _).symm) ?_
    (fun hi x hx => ho x hx i (by omega))
  intro c' hc'
  rcases Slots.modify_cases hc' with ⟨hne, hold⟩ | ⟨rfl, d, hd, rfl⟩
  · exact (I.call c' hold).elsewhere rfl rfl id rfl (fun x hx => ho x hx i (Ne.symm hne))
  · have hdc : d = c := Option.some.inj (hd.symm.trans hcall)
    subst hdc
    exact hself rfl

theorem heardAway {c : SttCall} {payload : Option Json} (I : Followed env i h s) (hcall : s.calls[j]? = some c)
    (hne : j ≠ i) : Followed env i (h ++ (s.hear j c payload).2) (s.hear j c payload).1 := by
  unfold SttLink.hear
  split
  · apply I.staged hcall (fun he => absurd he.symm hne)
    intro x hx k hk
    rw [List.mem_singleton.mp hx]
    rfl
  · exact I.finish hcall (fun he => absurd he.symm hne) (fun x hx => by cases hx)
  · rw [List.append_nil]
    exact I

theorem away {g : Channel → Channel} (I : Followed env i h s)
    (W : Wired env { s with client := s.client.setChannel j g })
    (hne : j ≠ i) : Followed env i h { s with client := s.client.setChannel j g } := by
  refine ⟨W, ?_, I.unmade⟩
  intro c hc
  have hsame : (s.client.setChannel j g).channels[i]? = s.client.channels[i]? := by
    rw [Client.channel_setChannel, if_neg hne]
  have hnext : Following (s.client.setChannel j g) s.responses (h ++ []) i c.session c.stage :=
    (I.call c hc).elsewhere rfl hsame id rfl (fun x hx => by cases hx)
  rw [List.append_nil] at hnext
  exact hnext

theorem heardSelf {c : SttCall} {p : Publish} {rest : List Publish} {ch : Channel} (I : Followed env i h s)
    (hcall : s.calls[i]? = some c) (hlistening : c.stage = .listening) (hchannel : s.client.channels[i]? = some ch)
    (hqueue : ch.queue = p :: rest) {s₁ : SttLink}
    (hs₁ : s₁ = { s with client := s.client.setChannel i Channel.pop })
    (W : Wired env (s₁.hear i c p.payload).1) :
    Followed env i (h ++ (s₁.hear i c p.payload).2) (s₁.hear i c p.payload).1 := by
  have F := I.call c hcall
  rw [hlistening] at F
  have G := F.heard hchannel hqueue
  subst hs₁
  have hi := (List.getElem?_eq_some_iff.mp hcall).1
  have hself : ∀ {f : SttCall → SttCall} {c' : SttCall}, (s.calls.modify i f)[i]? = some c' → c' = f c := by
    intro f c' hc'
    rcases Slots.modify_cases hc' with ⟨hne, -⟩ | ⟨-, d, hd, rfl⟩
    · exact absurd rfl hne
    · rw [Option.some.inj (hd.symm.trans hcall)]
  unfold SttLink.hear at W ⊢
  -- a transcript is forwarded next, the marker ends the stream, anything else is passed over
  cases hparse : parseSttResponse p.payload with
  | transcript t =>
    simp only [hparse] at W ⊢
    rw [hparse] at G
    refine I.next W (le_of_eq (List.length_modify _ _ _).symm) ?_ (fun hle => absurd hi (by omega))
    intro c' hc'
    rw [hself hc']
    apply G.elsewhere rfl rfl id rfl
    intro x hx
    rw [List.mem_singleton.mp hx]
    rfl
  | done =>
    simp only [hparse] at W ⊢
    rw [hparse] at G
    refine I.next W (le_of_eq (List.length_modify _ _ _).symm) ?_ (fun hle => absurd hi (by omega))
    intro c' hc'
    rw [hself hc']
    exact G.ofStopped rfl
  | malformed =>
    simp only [hparse] at W ⊢
    rw [hparse] at G
    refine I.next W le_rfl ?_ (fun hle => absurd hi (by omega))
    intro c' hc'
    have hc : c' = c := Option.some.inj (hc'.symm.trans hcall)
    rw [hc, hlistening, List.append_nil]
    exact G

end Followed

/-- **One step**, while the session stays open. -/
theorem following_step {env : SttEnv} {i : Nat} {h o : List SttObs} {s s' : SttLink} {a : SttAction}
    (I : Followed env i h s) (hopen : s.attended i a = true) (hs : s.step env a = some (s', o)) :
    Followed env i (h ++ o) s' := by
  have W := wired_step I.wired hs
  cases SttLink.step_cases hs with
  | opened session locale hfresh => exact I.opened W hfresh rfl rfl rfl
  | framed j pcm c hcall hrunning =>
    have hquiet : ∀ x ∈ [SttObs.framed j pcm], x.concerns i = false := by
      intro x hx
      rw [List.mem_singleton.mp hx]
      rfl
    exact I.next W le_rfl (fun c' hc' => (I.call c' hc').elsewhere rfl rfl id rfl hquiet) (fun _ => hquiet)
  | ended j c hcall hrunning =>
    have hquiet : ∀ x ∈ [SttObs.closed j], x.concerns i = false := by
      intro x hx
      rw [List.mem_singleton.mp hx]
      rfl
    refine I.next W (le_of_eq (List.length_modify _ _ _).symm) ?_ (fun _ => hquiet)
    intro c' hc'
    rcases Slots.modify_cases hc' with ⟨-, hold⟩ | ⟨-, d, hd, rfl⟩
    · exact (I.call c' hold).elsewhere rfl rfl id rfl hquiet
    · exact (I.call d hd).elsewhere rfl rfl id rfl hquiet
  | handled r rest now outcome ok hrequests hlater =>
    apply I.next W le_rfl
    · intro c' hc'
      exact (I.call c' hc').update rfl rfl id (responsesOf_serve ..) (forwardedFor_serve ..)
        (timedOut_serve env s r rest now outcome ok i)
    · intro hi x hx
      obtain ⟨session, hname, -⟩ := I.wired.requests r (by rw [hrequests]; exact List.mem_cons_self)
      have hr := (List.getElem?_eq_some_iff.mp hname).1
      rw [SttLink.names, List.length_map] at hr
      rcases serve_cases env s r rest now outcome ok hx with ⟨_, rfl⟩ | ⟨_, _, _, rfl⟩ | ⟨_, rfl⟩
      · rfl
      · rfl
      · exact decide_eq_false (by omega)
  | responded j v c hcall hnames =>
    refine I.next W le_rfl ?_ (Followed.concerns_unmade hcall (fun k hk => decide_eq_false (Ne.symm hk)))
    intro c' hc'
    refine (I.call c' hc').update rfl rfl id ?_ rfl (by simp)
    rw [responsesOf_append]
    rfl
  | pumped p rest client obs hresponses hstep =>
    rw [List.append_nil]
    exact ⟨W, fun c' hc' => I.pumped hopen hresponses hstep hc', I.unmade⟩
  | removed client obs hstep =>
    rw [List.append_nil]
    refine ⟨W, ?_, I.unmade⟩
    intro c' hc'
    cases Client.step_cases hstep with
    | removed sid hremoving => exact (I.call c' hc').removed hremoving
  | timedOut j c ch hcall hlistening hchannel hsilent =>
    apply I.finish hcall
    · rintro rfl
      exact (hlistening ▸ I.call c hcall).timedOut
    · intro x hx k hk
      rw [List.mem_singleton.mp hx]
      exact decide_eq_false (Ne.symm hk)
  | heard j c p client hcall hlistening hrecv =>
    cases Client.step_cases hrecv with
    | received _ ch _ rest hchannel halive hqueue =>
      by_cases hij : j = i
      · subst hij
        exact I.heardSelf hcall hlistening hchannel hqueue rfl W
      · exact (I.away (I.wired.client hrecv (by simp) rfl (fun _ hp => hp)) hij).heardAway hcall hij
  | cut j c client hcall hlistening hclosed =>
    refine I.finish hcall ?_ (by intro x hx; cases hx)
    rintro rfl
    -- the call's route stands, so its channel is not closed
    obtain ⟨-, -, -, -, -, hroute, -⟩ := (hlistening ▸ I.call c hcall).listening_cases
    obtain ⟨ch, hchannel, hsession⟩ := I.wired.channel_of_call hcall
    cases Client.step_cases hclosed with
    | closed _ e he hlive hempty hcut =>
      rw [hchannel] at he
      cases he
      exact absurd (hsession ▸ hroute) hcut
  | forwarded j c t hcall hsending =>
    apply I.staged hcall
    · rintro rfl
      exact (hsending ▸ I.call c hcall).taken
    · intro x hx k hk
      rw [List.mem_singleton.mp hx]
      exact decide_eq_false (Ne.symm hk)
  | refused j c t hcall hsending =>
    refine I.finish hcall ?_ (by intro x hx; cases hx)
    rintro rfl
    simp [SttLink.attended] at hopen
  | cancelled j c hcall hlistening =>
    refine I.finish hcall ?_ (by intro x hx; cases hx)
    rintro rfl
    simp [SttLink.attended] at hopen

theorem SttLink.pending_spec {i : Nat} {s : SttLink} {c : SttCall} {ch : Channel} (hcall : s.calls[i]? = some c)
    (hchannel : s.client.channels[i]? = some ch) : s.pending i = true ↔
      (∃ p ∈ s.responses, p.request = i) ∨ ch.queue ≠ [] ∨ ∃ t, c.stage = .sending t := by
  have hheld : (!c.stage.held.isEmpty) = true ↔ ∃ t, c.stage = .sending t := by
    cases c.stage with
    | sending t => simp [SttStage.held]
    | listening => simp [SttStage.held]
    | stopped => simp [SttStage.held]
  simp only [pending, hcall, hchannel, Option.any_some, Bool.or_eq_true, hheld, or_assoc]
  simp

theorem Followed.delivers {env : SttEnv} {i : Nat} {h : List SttObs} {s : SttLink} {c : SttCall}
    (I : Followed env i h s)
    (hcall : s.calls[i]? = some c) : Delivers env i h s c := by
  cases I.call c hcall with
  | going met ch hpublished hunended htr hinTime hon hroute hchannel halive hkept =>
    have hbefore : beforeDone (publishedFor i h) = forwardedFor i h ++ (c.stage.held ++
        beforeDone (ch.queue.filterMap Publish.payload ++ responsesOf i s.responses)) := by
      rw [hpublished, beforeDone_append hunended, htr, List.append_assoc]
    refine ⟨?_, fun _ hover => absurd hover hon, ?_, ?_⟩
    · rw [hbefore]
      exact List.prefix_append _ _
    · intro _ hpending
      -- nothing pending: neither on the wire, nor in the channel, nor in hand
      have hnone := mt (SttLink.pending_spec hcall hchannel).mpr (by rw [hpending]; exact Bool.false_ne_true)
      rw [not_or, not_or] at hnone
      obtain ⟨hwire, hqueue, hstage⟩ := hnone
      have hresponses : responsesOf i s.responses = [] := by
        apply List.filterMap_eq_nil_iff.mpr
        intro p hp
        rw [if_neg (fun hi => hwire ⟨p, hp, hi⟩)]
      have hheld : c.stage.held = [] := by
        cases hst : c.stage with
        | sending t => exact absurd ⟨t, hst⟩ hstage
        | listening => rfl
        | stopped => rfl
      rw [hbefore, hheld, not_not.mp hqueue, hresponses]
      exact (List.append_nil _).symm
    · -- whoever holds the response can go on with it
      intro _ _ hpending
      cases hst : c.stage with
      | stopped => exact absurd hst hon
      | sending t =>
        refine ⟨.forward i true, by simp [SttLink.bringsOn], ?_⟩
        obtain ⟨session, locale, closed, stage⟩ := c
        cases hst
        simp only [SttLink.step, hcall, if_true, Option.isSome_some]
      | listening =>
        cases hqueue : ch.queue with
        | cons p rest =>
          refine ⟨.poll i false, by simp [SttLink.bringsOn], ?_⟩
          have hrecv : s.client.step env.client (.recv i) =
            some (s.client.setChannel i Channel.pop, [.received i p]) := by
            simp only [Client.step, hchannel, halive, if_true, hqueue]
          simp only [SttLink.step, hcall, if_pos hst, SttLink.pollCall, Bool.false_eq_true, if_false, hrecv,
            Option.isSome_some]
        | nil =>
          have hwire : ∃ p ∈ s.responses, p.request = i := by
            rcases (SttLink.pending_spec hcall hchannel).mp hpending with hwire | hfull | ⟨t, hsending⟩
            · exact hwire
            · exact absurd hqueue hfull
            · rw [hst] at hsending
              cases hsending
          obtain ⟨p, hp, -⟩ := hwire
          cases hresponses : s.responses with
          | nil => rw [hresponses] at hp; cases hp
          | cons q rest =>
            cases hremoving : s.client.removing with
            | some sid =>
              refine ⟨.remove, by simp [SttLink.bringsOn], ?_⟩
              simp only [SttLink.step, Client.step, hremoving, Option.map_some, Option.isSome_some]
            | none =>
              refine ⟨.pump, by simp [SttLink.bringsOn], ?_⟩
              simp only [SttLink.step, hresponses, Client.step, hremoving]
              cases env.client.routed q <;> rfl
  | ended met rest v hpublished hunended hmarker htr hover =>
    have hbefore : beforeDone (publishedFor i h) = forwardedFor i h := by
      rw [hpublished, beforeDone_append hunended, beforeDone_cons_done hmarker, List.append_nil, htr]
    have hmem : v ∈ publishedFor i h := by
      rw [hpublished]
      exact List.mem_append_right _ List.mem_cons_self
    exact ⟨hbefore ▸ List.prefix_rfl, fun _ _ => ⟨v, hmem, hmarker⟩, fun _ _ => hbefore.symm,
      fun _ hon => absurd hover hon⟩
  | gaveUp hbegins hover hout =>
    exact ⟨hbegins, fun hin => absurd hout hin, fun hin => absurd hout hin, fun hin => absurd hout hin⟩

/-- **Transcripts arrive.** In every run in which the session of call `i` stays
open and finds its channel with room: what is forwarded to the router are
transcripts published before the terminal marker, once and in order; and unless
the request timeout has expired, all of them once none is on its way, each of
which can go on, and the stream has ended at the marker if it has. -/
theorem transcripts_forwarded (env : SttEnv) (i : Nat) (as : List SttAction)
    (hopen : (SttLink.machine env).Along (fun _ s a => s.attended i a = true) [] .new as) :
    (SttLink.machine env).Throughout (fun h s => ∀ c, s.calls[i]? = some c → Delivers env i h s c) [] .new as := by
  refine Machine.throughout_of_along (P := Followed env i) (fun h s a s' o I hp hs => following_step I hp hs) ?_ as []
    .new (Followed.new env i) hopen
  intro h s I c hcall
  exact I.delivers hcall

/-- An utterance of session 7, and what the worker makes of it. -/
def utters (first : Bool) (now : Nat) (outcome : Option Text) : List SttAction :=
  (if first then [.start 7 "fr".toList, .handle 0 none true] else []) ++
    [.frame 0 (List.replicate 3200 1), .frame 0 [], .handle now none true, .handle now outcome true]

/-- What comes back goes to the router. -/
def arrives : List SttAction := [.pump, .poll 0 false, .forward 0 true]

/-- Two utterances, and one with no speech between them, 40 seconds apart. -/
def threeUtterances : List SttAction :=
  utters true 0 (some "bonjour".toList) ++ arrives ++ utters false (40 * 10 ^ 9) (some []) ++
    utters false (80 * 10 ^ 9) (some "merci".toList) ++ arrives

/-- Both are forwarded. -/
theorem threeUtterances_forwarded :
    (SttLink.machine kitchenStt).Along (fun _ s a => s.attended 0 a = true) [] .new threeUtterances ∧
    ((SttLink.machine kitchenStt).run .new threeUtterances).map (fun r => (forwardedFor 0 r.2, r.1.pending 0)) =
      some ([{ text := "bonjour".toList, isFinal := true }, { text := "merci".toList, isFinal := true }], false) ∧
    (SttLink.machine kitchenStt).Throughout (fun h s => ∀ c, s.calls[0]? = some c →
      Delivers kitchenStt 0 h s c) [] .new
      threeUtterances := by
  have hopen : (SttLink.machine kitchenStt).Along (fun _ s a => s.attended 0 a = true) [] .new threeUtterances := by
    decide +kernel
  exact ⟨hopen, by decide +kernel, transcripts_forwarded kitchenStt 0 threeUtterances hopen⟩

/-- The request timeout expires between two utterances. -/
def longPause : List SttAction :=
  utters true 0 (some "bonjour".toList) ++ arrives ++ .poll 0 true :: utters false (40 * 10 ^ 9)
    (some "merci".toList) ++
    [.pump, .remove]

/-- The worker publishes the second one's transcript, and nobody is told. -/
theorem pause_ends_stream :
    (SttLink.machine kitchenStt).Along (fun _ s a => s.attended 0 a = true) [] .new longPause ∧
    ¬ (SttLink.machine kitchenStt).Throughout
      (fun h s => s.pending 0 = false → forwardedFor 0 h = beforeDone (publishedFor 0 h)) [] .new longPause := by
  refine ⟨by decide +kernel, ?_⟩
  intro hall
  have hrun : ((SttLink.machine kitchenStt).run .new longPause).map
      (fun r => (r.1.pending 0, forwardedFor 0 r.2, beforeDone (publishedFor 0 r.2))) =
        some (false, [{ text := "bonjour".toList, isFinal := true }],
          [{ text := "bonjour".toList, isFinal := true }, { text := "merci".toList, isFinal := true }]) := by
    decide +kernel
  obtain ⟨⟨s, h⟩, hr, he⟩ := Option.map_eq_some_iff.mp hrun
  simp only [Prod.mk.injEq] at he
  have hlast := Machine.throughout_last longPause [] SttLink.new s h hall hr
  have hsame := hlast he.1
  rw [List.nil_append, he.2.1, he.2.2] at hsame
  cases hsame

end AthenaVoice.Remote
