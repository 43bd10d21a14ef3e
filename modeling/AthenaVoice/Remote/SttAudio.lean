import AthenaVoice.Remote.SttLink

/-
  What the worker is told — the frames of all sessions, over the broker, to
  `transcribe`

  The frames of a call are those of its stream; the flush at their end is a
  boundary like an empty frame. The worker keeps what a session has said since
  its last boundary, unless it has heard nothing of it for `SESSION_TTL`.

  What is proved:
    1. `heard_step` — a call's frames are those the worker has handled, then
       those on their way, and the worker has the handled ones' remainder.
    2. `stt_framing` — if a session's messages are handled at less than
       `SESSION_TTL` from one another, what is transcribed of it is what lies
       between its boundaries.
-/

namespace AthenaVoice.Remote

open Lib CoreTypes

/-- A frame of call `i`. -/
def SttObs.frame (i : Nat) : SttObs → Option Bytes
  | .framed j pcm => if j = i then some pcm else none
  | .closed j => if j = i then some [] else none
  | .handled .. | .transcribed .. | .published .. | .event _ | .forwarded .. | .timedOut _ => none

/-- A transcription for a session, and the locale it is in. -/
def SttObs.pcm (sid : Text) : SttObs → Option (Text × Bytes)
  | .transcribed sessionId locale pcm => if sessionId = sid then some (locale, pcm) else none
  | .framed .. | .closed _ | .handled .. | .published .. | .event _ | .forwarded .. | .timedOut _ => none

/-- The instant of a session's message. -/
def SttObs.instant (sid : Text) : SttObs → Option Nat
  | .handled sessionId now => if sessionId = sid then some now else none
  | .framed .. | .closed _ | .transcribed .. | .published .. | .event _ | .forwarded .. | .timedOut _ => none

/-- The frames of call `i`, its last boundary included. -/
def framesOf (i : Nat) (h : List SttObs) : List Bytes := h.filterMap (SttObs.frame i)

/-- What is transcribed of a session. -/
def transcribedOf (sid : Text) (h : List SttObs) : List (Text × Bytes) := h.filterMap (SttObs.pcm sid)

/-- When the worker last handled a message of the session. -/
def lastHandled (sid : Text) (h : List SttObs) : Option Nat := (h.filterMap (SttObs.instant sid)).getLast?

def enough (pcm : Bytes) : Bool := MIN_PCM ≤ pcm.length

/-- What is there to transcribe of some frames. -/
def spoken (locale : Text) (frames : List Bytes) : List (Text × Bytes) :=
  ((utterances frames).filter enough).map (fun pcm => (locale, pcm))

/-- The messages of call `i` on their way. -/
def requestsOf (i : Nat) (rs : List Request) : List Json :=
  rs.filterMap (fun r => if r.call = i then some r.message else none)

/-- Less than `SESSION_TTL` passes between two messages of a session. -/
def SttLink.prompt (h : List SttObs) (s : SttLink) : SttAction → Bool
  | .handle now _ _ =>
    match s.requests with
    | [] => true
    | r :: _ => (sessionText r.message).all (fun sid => (lastHandled sid h).all (fun t => now - t < SESSION_TTL))
  | .start .. | .frame .. | .close _ | .respond .. | .pump | .remove | .poll .. | .forward .. | .cancel _ => true

section Histories

variable (i : Nat) (sid : Text) (h h' : List SttObs)

@[simp] theorem framesOf_append : framesOf i (h ++ h') = framesOf i h ++ framesOf i h' := List.filterMap_append

@[simp] theorem transcribedOf_append : transcribedOf sid (h ++ h') = transcribedOf sid h ++ transcribedOf sid h' :=
  List.filterMap_append

theorem lastHandled_append : lastHandled sid (h ++ h') = (lastHandled sid h').or (lastHandled sid h) := by
  rw [lastHandled, List.filterMap_append, List.getLast?_append]
  rfl

@[simp] theorem requestsOf_append (rs rs' : List Request) :
    requestsOf i (rs ++ rs') = requestsOf i rs ++ requestsOf i rs' := List.filterMap_append

theorem requestsOf_cons_self (r : Request) (rs : List Request) :
    requestsOf r.call (r :: rs) = r.message :: requestsOf r.call rs := by
  simp [requestsOf]

theorem requestsOf_cons_other {r : Request} (rs : List Request) (hne : r.call ≠ i) :
    requestsOf i (r :: rs) = requestsOf i rs := by
  simp [requestsOf, hne]

end Histories

/-- Nothing is heard of it by the worker. -/
def SttObs.isAside : SttObs → Bool
  | .published .. | .event _ | .forwarded .. | .timedOut _ => true
  | .framed .. | .closed _ | .handled .. | .transcribed .. => false

section Aside

variable {o : List SttObs} (haside : ∀ x ∈ o, x.isAside = true)
include haside

theorem framesOf_aside (i : Nat) : framesOf i o = [] := by
  apply List.filterMap_eq_nil_iff.mpr
  intro x hx
  have hx := haside x hx
  cases x with
  | published | event | forwarded | timedOut => rfl
  | framed | closed | handled | transcribed => cases hx

theorem transcribedOf_aside (sid : Text) : transcribedOf sid o = [] := by
  apply List.filterMap_eq_nil_iff.mpr
  intro x hx
  have hx := haside x hx
  cases x with
  | published | event | forwarded | timedOut => rfl
  | framed | closed | handled | transcribed => cases hx

theorem lastHandled_aside (sid : Text) (h : List SttObs) : lastHandled sid (h ++ o) = lastHandled sid h := by
  have hnone : o.filterMap (SttObs.instant sid) = [] := by
    apply List.filterMap_eq_nil_iff.mpr
    intro x hx
    have hx := haside x hx
    cases x with
    | published | event | forwarded | timedOut => rfl
    | framed | closed | handled | transcribed => cases hx
  rw [lastHandled_append, lastHandled, hnone]
  rfl

end Aside

/-! ## What a message adds to the history -/

/-- The transcriptions of a session among what the worker does. -/
def WorkerObs.pcm (sid : Text) : WorkerObs → Option (Text × Bytes)
  | .transcribed sessionId locale pcm => if sessionId = sid then some (locale, pcm) else none
  | .published _ => none

theorem transcribedOf_observed (sid : Text) (i : Nat) (ok : Bool) : ∀ os : List WorkerObs,
    transcribedOf sid (os.flatMap (WorkerObs.observed i ok)) = os.filterMap (WorkerObs.pcm sid) := by
  intro os
  induction os with
  | nil => rfl
  | cons x os ih =>
    rw [List.flatMap_cons, transcribedOf_append, ih]
    cases x with
    | transcribed sessionId locale pcm =>
      by_cases hsid : sessionId = sid
      · simp [WorkerObs.observed, WorkerObs.pcm, transcribedOf, SttObs.pcm, hsid]
      · simp [WorkerObs.observed, WorkerObs.pcm, transcribedOf, SttObs.pcm, hsid]
    | published v => cases ok <;> rfl

theorem transcribedOf_serve (sid : Text) (env : SttEnv) (s : SttLink) (r : Request) (rest : List Request) (now : Nat)
    (outcome : Option Text) (ok : Bool) : transcribedOf sid (s.serve env r rest now outcome ok).2 =
      (s.sessions.handleMessage env.b64 now outcome (some r.message)).2.filterMap (WorkerObs.pcm sid) := by
  have hhandled : transcribedOf sid ((sessionText r.message).toList.map (fun sessionId => .handled sessionId now)) =
    [] := by
    cases sessionText r.message <;> rfl
  rw [SttLink.serve, transcribedOf_append, hhandled, transcribedOf_observed, List.nil_append]

theorem framesOf_serve (i : Nat) (env : SttEnv) (s : SttLink) (r : Request) (rest : List Request) (now : Nat)
    (outcome : Option Text) (ok : Bool) : framesOf i (s.serve env r rest now outcome ok).2 = [] := by
  apply List.filterMap_eq_nil_iff.mpr
  intro x hx
  rcases List.mem_append.mp hx with hhandled | hobserved
  · obtain ⟨sid, -, rfl⟩ := List.mem_map.mp hhandled
    rfl
  · rcases observed_cases hobserved with ⟨_, _, _, rfl⟩ | ⟨_, rfl⟩ <;> rfl

theorem lastHandled_serve {v : Text} (sid : Text) (env : SttEnv) (s : SttLink) (r : Request) (rest : List Request)
    (now : Nat) (outcome : Option Text) (ok : Bool) (h : List SttObs) (hv : sessionText r.message = some v) :
    lastHandled sid (h ++ (s.serve env r rest now outcome ok).2) = if v = sid then some now else lastHandled sid h := by
  have hobserved : ∀ os : List WorkerObs,
      (os.flatMap (WorkerObs.observed r.call ok)).filterMap (SttObs.instant sid) = [] := by
    intro os
    apply List.filterMap_eq_nil_iff.mpr
    intro x hx
    rcases observed_cases hx with ⟨_, _, _, rfl⟩ | ⟨_, rfl⟩ <;> rfl
  rw [lastHandled_append]
  simp only [SttLink.serve, hv, Option.toList_some, List.map_singleton, lastHandled, List.filterMap_append, hobserved,
    List.append_nil]
  by_cases hsid : v = sid
  · simp [SttObs.instant, hsid]
  · simp [SttObs.instant, hsid]

/-! ## What the worker has of a call -/

theorem spoken_concat (locale : Text) (frames : List Bytes) (pcm : Bytes) :
    spoken locale (frames ++ [pcm]) =
      spoken locale frames ++ if pcm.isEmpty && enough (remainder frames)
        then [(locale, remainder frames)] else [] := by
  rw [spoken, utterances_concat]
  cases pcm.isEmpty with
  | false => simp [spoken]
  | true =>
    rw [if_pos rfl, List.filter_append, List.map_append]
    cases henough : enough (remainder frames) <;> simp [spoken, henough]

theorem pcm_flush (sid : Text) (outcome : Option Text) (buf : SessionBuf) :
    (SttWorker.flush sid outcome buf).filterMap (WorkerObs.pcm sid) =
      if enough buf.pcm then [(buf.locale, buf.pcm)] else [] := by
  have hanswer : (SttWorker.answer sid outcome).filterMap (WorkerObs.pcm sid) = [] := by
    unfold SttWorker.answer
    split
    · rfl
    · split <;> rfl
  unfold SttWorker.flush enough
  by_cases hmin : buf.pcm.length < MIN_PCM
  · rw [if_pos hmin, if_neg (by simpa using hmin)]
    rfl
  · rw [if_neg hmin, if_pos (by simpa using hmin), List.filterMap_cons, hanswer]
    simp [WorkerObs.pcm]

/-- What the worker has of call `i`: nothing, or its first frames, with the
remainder of them in the session's entry, unless the entry is too old. -/
inductive Collected (env : SttEnv) (h : List SttObs) (s : SttLink) (i : Nat) (c : SttCall) : Prop where
  | unheard
      (onWay : requestsOf i s.requests = sttStart (env.ids.encode c.session) c.locale ::
        (framesOf i h).map (frameMessage env.b64 (env.ids.encode c.session)))
      (transcribed : transcribedOf (env.ids.encode c.session) h = [])
      (fresh : lastHandled (env.ids.encode c.session) h = none)
  | heard (told rest : List Bytes) (t : Nat) (frames : framesOf i h = told ++ rest)
      (onWay : requestsOf i s.requests = rest.map (frameMessage env.b64 (env.ids.encode c.session)))
      (transcribed : transcribedOf (env.ids.encode c.session) h = spoken c.locale told)
      (last : lastHandled (env.ids.encode c.session) h = some t)
      (entry : s.sessions (env.ids.encode c.session) =
          some { pcm := remainder told, locale := c.locale, updated := t } ∨
        s.sessions (env.ids.encode c.session) = none ∧ t + SESSION_TTL ≤ s.clock)

/-- The calls' frames are told or on their way, and nothing else is. -/
structure Heard (env : SttEnv) (h : List SttObs) (s : SttLink) : Prop where
  wired : Wired env s
  collected : ∀ (i : Nat) (c : SttCall), s.calls[i]? = some c → Collected env h s i c
  unmade : ∀ i, s.calls.length ≤ i → framesOf i h = []
  unknown : ∀ sid, (∀ c ∈ s.calls, env.ids.encode c.session ≠ sid) →
    transcribedOf sid h = [] ∧ lastHandled sid h = none

namespace Heard

theorem new (env : SttEnv) : Heard env [] .new where
  wired := Wired.new env
  collected := by intro i c h; cases h
  unmade := fun _ _ => rfl
  unknown := fun _ _ => ⟨rfl, rfl⟩

variable {env : SttEnv} {h o : List SttObs} {s s' : SttLink}

theorem aside (I : Heard env h s) (W : Wired env s') (hlength : s'.calls.length = s.calls.length)
    (hcalls : ∀ (i : Nat) (c' : SttCall), s'.calls[i]? = some c' →
      ∃ c, s.calls[i]? = some c ∧ c'.session = c.session ∧ c'.locale = c.locale)
    (hrequests : s'.requests = s.requests) (hsessions : s'.sessions = s.sessions) (hclock : s'.clock = s.clock)
    (haside : ∀ x ∈ o, x.isAside = true) : Heard env (h ++ o) s' := by
  have hframes : ∀ i, framesOf i (h ++ o) = framesOf i h := by
    intro i
    rw [framesOf_append, framesOf_aside haside, List.append_nil]
  have htranscribed : ∀ sid, transcribedOf sid (h ++ o) = transcribedOf sid h := by
    intro sid
    rw [transcribedOf_append, transcribedOf_aside haside, List.append_nil]
  refine ⟨W, ?_, ?_, ?_⟩
  · intro i c' hc'
    obtain ⟨c, hc, hsession, hlocale⟩ := hcalls i c' hc'
    cases I.collected i c hc with
    | unheard honWay htr hfresh =>
      refine .unheard ?_ ?_ ?_
      · rw [hrequests, hframes, hsession, hlocale, honWay]
      · rw [htranscribed, hsession, htr]
      · rw [lastHandled_aside haside, hsession, hfresh]
    | heard told rest t hfr honWay htr hlast hentry =>
      refine .heard told rest t ?_ ?_ ?_ ?_ ?_
      · rw [hframes, hfr]
      · rw [hrequests, hsession, honWay]
      · rw [htranscribed, hsession, hlocale, htr]
      · rw [lastHandled_aside haside, hsession, hlast]
      · rw [hsessions, hsession, hlocale, hclock]
        exact hentry
  · intro i hi
    rw [hframes]
    exact I.unmade i (hlength ▸ hi)
  · intro sid hsid
    rw [htranscribed, lastHandled_aside haside]
    apply I.unknown sid
    intro c hc
    obtain ⟨i, hi⟩ := List.mem_iff_getElem?.mp hc
    have hlt : i < s'.calls.length := by
      rw [hlength]
      exact (List.getElem?_eq_some_iff.mp hi).1
    obtain ⟨d, hd, hsession, -⟩ := hcalls i _ (List.getElem?_eq_getElem hlt)
    rw [hi] at hd
    cases hd
    rw [← hsession]
    exact hsid _ (List.getElem_mem hlt)

theorem call_modify {f : SttCall → SttCall} {i j : Nat} {c' : SttCall}
    (hf : ∀ c, (f c).session = c.session ∧ (f c).locale = c.locale) (hc' : (s.calls.modify i f)[j]? = some c') :
    ∃ c, s.calls[j]? = some c ∧ c'.session = c.session ∧ c'.locale = c.locale := by
  rcases Slots.modify_cases hc' with ⟨-, hold⟩ | ⟨-, c, hc, rfl⟩
  · exact ⟨c', hold, rfl, rfl⟩
  · exact ⟨c, hc, (hf c).1, (hf c).2⟩

theorem quiet {client : Client} {responses : List Publish} {f : SttCall → SttCall} {i : Nat} (I : Heard env h s)
    (W : Wired env { s with client := client, responses := responses, calls := s.calls.modify i f })
    (hf : ∀ c, (f c).session = c.session ∧ (f c).locale = c.locale) (haside : ∀ x ∈ o, x.isAside = true) :
    Heard env (h ++ o) { s with client := client, responses := responses, calls := s.calls.modify i f } := by
  refine I.aside W (List.length_modify _ _ _) ?_ rfl rfl rfl haside
  intro j c' hc'
  exact call_modify hf hc'

theorem framesOf_framed (i j : Nat) (x : SttObs) (pcm : Bytes)
    (hx : ∀ k, x.frame k = if i = k then some pcm else none) :
    framesOf j (h ++ [x]) = framesOf j h ++ if i = j then [pcm] else [] := by
  rw [framesOf_append]
  congr 1
  simp only [framesOf, List.filterMap_cons, hx, List.filterMap_nil]
  by_cases hij : i = j
  · rw [if_pos hij, if_pos hij]
  · rw [if_neg hij, if_neg hij]

theorem told {i : Nat} {c : SttCall} {x : SttObs} {f : SttCall → SttCall} (I : Heard env h s) (pcm : Bytes)
    (hcall : s.calls[i]? = some c) (hf : ∀ c, (f c).session = c.session ∧ (f c).locale = c.locale)
    (hx : ∀ k, x.frame k = if i = k then some pcm else none) (hpcm : ∀ sid, x.pcm sid = none)
    (hinstant : ∀ sid, x.instant sid = none) :
    Heard env (h ++ [x]) { s.request i (frameMessage env.b64 (env.ids.encode c.session) pcm) with
      calls := s.calls.modify i f } := by
  have hframes : ∀ j, framesOf j (h ++ [x]) = framesOf j h ++ if i = j then [pcm] else [] :=
    fun j => framesOf_framed i j x pcm hx
  have htranscribed : ∀ sid, transcribedOf sid (h ++ [x]) = transcribedOf sid h := by
    intro sid
    have hnone : transcribedOf sid [x] = [] := by simp [transcribedOf, hpcm]
    rw [transcribedOf_append, hnone, List.append_nil]
  have hlast : ∀ sid, lastHandled sid (h ++ [x]) = lastHandled sid h := by
    intro sid
    have hnone : lastHandled sid [x] = none := by simp [lastHandled, hinstant]
    rw [lastHandled_append, hnone]
    rfl
  refine ⟨I.wired.request hcall (sessionText_frameMessage _ _ _) (Wired.names_modify (fun c => (hf c).1) s i), ?_, ?_,
    ?_⟩
  · intro j d' hd'
    obtain ⟨d, hd, hsession, hlocale⟩ := call_modify hf hd'
    -- the message goes behind those of its call, and the others' stay
    have honWay' : ∀ (ms : List Json) (fs : List Bytes), requestsOf j s.requests =
      ms ++ fs.map (frameMessage env.b64 (env.ids.encode d.session)) →
        requestsOf j (s.requests ++ [{ call := i, message := frameMessage env.b64 (env.ids.encode c.session) pcm }]) =
          ms ++ (fs ++ if i = j then [pcm] else []).map (frameMessage env.b64 (env.ids.encode d.session)) := by
      intro ms fs hms
      rw [requestsOf_append, hms, List.map_append, ← List.append_assoc]
      congr 1
      by_cases hij : i = j
      · subst hij
        rw [hcall] at hd
        cases hd
        simp [requestsOf]
      · simp [requestsOf, hij]
    cases I.collected j d hd with
    | unheard honWay htr hfresh =>
      refine .unheard ?_ ?_ ?_
      · rw [hframes, hsession, hlocale]
        exact honWay' [_] _ honWay
      · rw [htranscribed, hsession, htr]
      · rw [hlast, hsession, hfresh]
    | heard told rest t hfr honWay htr hlast' hentry =>
      refine .heard told (rest ++ if i = j then [pcm] else []) t ?_ ?_ ?_ ?_ ?_
      · rw [hframes, hfr, List.append_assoc]
      · rw [hsession]
        exact honWay' [] rest honWay
      · rw [htranscribed, hsession, hlocale, htr]
      · rw [hlast, hsession, hlast']
      · rw [hsession, hlocale]
        exact hentry
  · intro j hj
    have hj' : s.calls.length ≤ j := by
      rw [← List.length_modify f s.calls i]
      exact hj
    have hij : i ≠ j := by
      have hi := (List.getElem?_eq_some_iff.mp hcall).1
      omega
    rw [hframes, if_neg hij, List.append_nil]
    exact I.unmade j hj'
  · intro sid hsid
    rw [htranscribed, hlast]
    apply I.unknown sid
    intro d hd
    have hnames : s.calls.map SttCall.session = (s.calls.modify i f).map SttCall.session :=
      (Wired.names_modify (fun c => (hf c).1) s i).symm
    have hmem : d.session ∈ (s.calls.modify i f).map SttCall.session := by
      rw [← hnames]
      exact List.mem_map_of_mem hd
    obtain ⟨d', hd', hsession⟩ := List.mem_map.mp hmem
    rw [← hsession]
    exact hsid d' hd'

end Heard

namespace Heard

variable {env : SttEnv} {h : List SttObs} {s : SttLink}

theorem requestsOf_unmade (W : Wired env s) {i : Nat} (hi : s.calls.length ≤ i) : requestsOf i s.requests = [] := by
  apply List.filterMap_eq_nil_iff.mpr
  intro r hr
  obtain ⟨session, hsession, -⟩ := W.requests r hr
  have hlt := (List.getElem?_eq_some_iff.mp hsession).1
  rw [SttLink.names, List.length_map] at hlt
  rw [if_neg (by omega)]

theorem started {session : SessionId} {locale : Text} (I : Heard env h s)
    (hfresh : ∀ c ∈ s.calls, c.session ≠ session) :
    Heard env h { s with
      client := s.client.insert session
      calls := s.calls ++ [{ session := session, locale := locale, closed := false, stage := .listening }]
      requests := s.requests ++
        [{ call := s.calls.length, message := sttStart (env.ids.encode session) locale }] } := by
  refine ⟨I.wired.started hfresh, ?_, ?_, ?_⟩
  · intro i c hc
    have hi : (s.calls ++ [{ session := session, locale := locale, closed := false, stage := .listening }])[i]? =
        some c := hc
    rcases Nat.lt_trichotomy i s.calls.length with hlt | heq | hgt
    · rw [List.getElem?_append_left hlt] at hi
      have hsame : requestsOf i
        (s.requests ++ [{ call := s.calls.length, message := sttStart (env.ids.encode session) locale }]) =
          requestsOf i s.requests := by
        rw [requestsOf_append]
        simp [requestsOf, Nat.ne_of_gt hlt]
      cases I.collected i c hi with
      | unheard honWay htr hlast => exact .unheard (hsame.trans honWay) htr hlast
      | heard told rest t hfr honWay htr hlast hentry =>
          exact .heard told rest t hfr (hsame.trans honWay) htr hlast hentry
    · subst heq
      rw [List.getElem?_concat_length] at hi
      cases hi
      obtain ⟨htr, hlast⟩ :=
        I.unknown (env.ids.encode session) (fun c hc he => hfresh c hc (env.ids.encode_inj.mp he))
      refine .unheard ?_ htr hlast
      show requestsOf s.calls.length (s.requests ++ _) = _
      rw [requestsOf_append, requestsOf_unmade I.wired le_rfl, I.unmade _ le_rfl]
      simp [requestsOf]
    · rw [List.getElem?_eq_none (by simp; omega)] at hi
      cases hi
  · intro i hi
    apply I.unmade i
    refine Nat.le_trans ?_ hi
    show s.calls.length ≤ (s.calls ++ [_]).length
    rw [List.length_append]
    exact Nat.le_add_right _ _
  · intro sid hsid
    exact I.unknown sid (fun c hc => hsid c (List.mem_append_left _ hc))

theorem served_other {r : Request} {rest : List Request} {now : Nat} {outcome : Option Text} {ok : Bool} {i : Nat}
    {c d : SttCall} (I : Heard env h s) (hrequests : s.requests = r :: rest) (hlater : s.clock ≤ now)
    (hd : s.calls[r.call]? = some d) (hv : sessionText r.message = some (env.ids.encode d.session))
    (hc : s.calls[i]? = some c) (hne : i ≠ r.call) :
    Collected env (h ++ (s.serve env r rest now outcome ok).2) (s.serve env r rest now outcome ok).1 i c := by
  have hsid : env.ids.encode c.session ≠ env.ids.encode d.session := by
    intro he
    refine hne (I.wired.eq_of_session (Wired.names_of_call hc) ?_)
    rw [env.ids.encode_inj.mp he]
    exact Wired.names_of_call hd
  have hframes : framesOf i (h ++ (s.serve env r rest now outcome ok).2) = framesOf i h := by
    rw [framesOf_append, framesOf_serve, List.append_nil]
  have hmessages : requestsOf i (s.serve env r rest now outcome ok).1.requests = requestsOf i s.requests := by
    rw [hrequests, requestsOf_cons_other i rest (Ne.symm hne)]
    rfl
  have htranscribed : transcribedOf (env.ids.encode c.session) (h ++ (s.serve env r rest now outcome ok).2) =
      transcribedOf (env.ids.encode c.session) h := by
    rw [transcribedOf_append, transcribedOf_serve, List.filterMap_eq_nil_iff.mpr ?_, List.append_nil]
    intro x hx
    have hnames := SttWorker.handleMessage_names hv x hx
    cases x with
    | transcribed sessionId locale pcm =>
      have hsessionId : sessionId = env.ids.encode d.session := hnames
      simp only [WorkerObs.pcm, hsessionId, if_neg (Ne.symm hsid)]
    | published v => rfl
  have hlast : lastHandled (env.ids.encode c.session) (h ++ (s.serve env r rest now outcome ok).2) =
      lastHandled (env.ids.encode c.session) h := by
    rw [lastHandled_serve _ env s r rest now outcome ok h hv, if_neg (Ne.symm hsid)]
  have hsessions : (s.serve env r rest now outcome ok).1.sessions (env.ids.encode c.session) =
      s.sessions.retain now (env.ids.encode c.session) := SttWorker.handleMessage_other hv hsid
  cases I.collected i c hc with
  | unheard honWay htr hfresh =>
    exact .unheard (by rw [hmessages, hframes, honWay]) (htranscribed.trans htr) (hlast.trans hfresh)
  | heard told onWay t hfr honWay htr hlast' hentry =>
    refine .heard told onWay t (hframes.trans hfr) (hmessages.trans honWay) (htranscribed.trans htr)
      (hlast.trans hlast') ?_
    rw [hsessions]
    -- the entry may be dropped, being too old for the session's next message
    show _ ∨ _ ∧ t + SESSION_TTL ≤ now
    rcases hentry with hsome | ⟨hnone, hold⟩
    · exact SttWorker.retain_cases hsome
    · exact Or.inr ⟨SttWorker.retain_none hnone, Nat.le_trans hold hlater⟩

theorem served_self {r : Request} {rest : List Request} {now : Nat} {outcome : Option Text} {ok : Bool} {d : SttCall}
    (I : Heard env h s) (hrequests : s.requests = r :: rest) (hlater : s.clock ≤ now)
    (hprompt : s.prompt h (.handle now outcome ok) = true) (hd : s.calls[r.call]? = some d)
    (hv : sessionText r.message = some (env.ids.encode d.session)) :
    Collected env (h ++ (s.serve env r rest now outcome ok).2) (s.serve env r rest now outcome ok).1 r.call d := by
  have hframes : framesOf r.call (h ++ (s.serve env r rest now outcome ok).2) = framesOf r.call h := by
    rw [framesOf_append, framesOf_serve, List.append_nil]
  have hmessages : requestsOf r.call s.requests = r.message :: requestsOf r.call rest := by
    rw [hrequests]
    exact requestsOf_cons_self r rest
  have hlast : lastHandled (env.ids.encode d.session) (h ++ (s.serve env r rest now outcome ok).2) = some now := by
    rw [lastHandled_serve _ env s r rest now outcome ok h hv, if_pos rfl]
  cases I.collected r.call d hd with
  | unheard honWay htr hfresh =>
    -- it opens the session
    rw [hmessages] at honWay
    have hmessage := List.head_eq_of_cons_eq honWay
    have hrest := List.tail_eq_of_cons_eq honWay
    have hworker := SttWorker.handleMessage_start env.b64 now outcome s.sessions (env.ids.encode d.session) d.locale
    rw [← hmessage] at hworker
    refine .heard [] (framesOf r.call h) now hframes hrest ?_ hlast (Or.inl ?_)
    · rw [transcribedOf_append, htr, transcribedOf_serve, hworker]
      rfl
    · show (s.sessions.handleMessage env.b64 now outcome (some r.message)).1 _ = _
      rw [hworker]
      exact SttWorker.set_self _
  | heard told onWay t hfr honWay htr hlast' hentry =>
    rw [hmessages] at honWay
    cases onWay with
    | nil => cases honWay
    | cons pcm onWay =>
      have hmessage := List.head_eq_of_cons_eq honWay
      have hrest := List.tail_eq_of_cons_eq honWay
      -- the session has been heard of in time, so its entry is there
      have hgap : now - t < SESSION_TTL := by
        simp only [SttLink.prompt, hrequests, hv, Option.all_some, hlast'] at hprompt
        exact of_decide_eq_true hprompt
      have hbuf : s.sessions (env.ids.encode d.session) =
          some { pcm := remainder told, locale := d.locale, updated := t } := by
        rcases hentry with hsome | ⟨-, hold⟩
        · exact hsome
        · omega
      have hworker := SttWorker.handleMessage_frame env.b64 outcome pcm hbuf hgap
      rw [← hmessage] at hworker
      refine .heard (told ++ [pcm]) onWay now ?_ hrest ?_ hlast (Or.inl ?_)
      · rw [hframes, hfr, List.append_assoc]
        rfl
      · rw [transcribedOf_append, htr, transcribedOf_serve, hworker, spoken_concat]
        congr 1
        cases pcm.isEmpty with
        | false => rfl
        | true =>
          simp only [if_true, Bool.true_and]
          exact pcm_flush _ _ _
      · show (s.sessions.handleMessage env.b64 now outcome (some r.message)).1 _ = _
        rw [hworker, remainder_concat]
        exact SttWorker.set_self _

theorem served {r : Request} {rest : List Request} {now : Nat} {outcome : Option Text} {ok : Bool} (I : Heard env h s)
    (hrequests : s.requests = r :: rest) (hlater : s.clock ≤ now)
    (hprompt : s.prompt h (.handle now outcome ok) = true) :
    Heard env (h ++ (s.serve env r rest now outcome ok).2) (s.serve env r rest now outcome ok).1 := by
  obtain ⟨session, hsession, hv⟩ := I.wired.requests r (by rw [hrequests]; exact List.mem_cons_self)
  rw [SttLink.names, List.getElem?_map] at hsession
  obtain ⟨d, hd, rfl⟩ := Option.map_eq_some_iff.mp hsession
  refine ⟨I.wired.serve hrequests, ?_, ?_, ?_⟩
  · -- messages of one session do not meet those of another
    intro i c hc
    by_cases hi : i = r.call
    · subst hi
      have hcd : d = c := Option.some.inj (hd.symm.trans hc)
      exact hcd ▸ I.served_self hrequests hlater hprompt hd hv
    · exact I.served_other hrequests hlater hd hv hc hi
  · intro i hi
    rw [framesOf_append, framesOf_serve, List.append_nil]
    exact I.unmade i hi
  · intro sid hsid
    obtain ⟨htr, hlast⟩ := I.unknown sid hsid
    have hne : env.ids.encode d.session ≠ sid := hsid d (List.mem_of_getElem? hd)
    refine ⟨?_, ?_⟩
    · rw [transcribedOf_append, htr, transcribedOf_serve, List.nil_append]
      apply List.filterMap_eq_nil_iff.mpr
      intro x hx
      have hnames := SttWorker.handleMessage_names hv x hx
      cases x with
      | transcribed sessionId locale pcm =>
        have hsessionId : sessionId = env.ids.encode d.session := hnames
        simp only [WorkerObs.pcm, hsessionId, if_neg hne]
      | published v => rfl
    · rw [lastHandled_serve _ env s r rest now outcome ok h hv, if_neg hne]
      exact hlast

end Heard

/-- **One step.** -/
theorem heard_step {env : SttEnv} {h o : List SttObs} {s s' : SttLink} {a : SttAction} (I : Heard env h s)
    (hprompt : s.prompt h a = true) (hs : s.step env a = some (s', o)) : Heard env (h ++ o) s' := by
  have hnothing : ∀ x ∈ ([] : List SttObs), x.isAside = true := by intro x hx; cases hx
  -- most steps change no call, and emit nothing that a server hears
  have hsame : ∀ (i : Nat) (c' : SttCall), s.calls[i]? = some c' →
      ∃ c, s.calls[i]? = some c ∧ c'.session = c.session ∧ c'.locale = c.locale :=
        fun i c' hc' => ⟨c', hc', rfl, rfl⟩
  have W := wired_step I.wired hs
  cases SttLink.step_cases hs with
  | opened session locale hfresh =>
    rw [List.append_nil]
    exact I.started hfresh
  | framed i pcm c hcall hrunning =>
    have htold := I.told (x := .framed i pcm) (f := id) pcm hcall (fun _ => ⟨rfl, rfl⟩) (fun _ => rfl)
      (fun _ => rfl) (fun _ => rfl)
    rw [List.modify_id] at htold
    exact htold
  | ended i c hcall hrunning =>
    exact I.told (x := .closed i) [] hcall (fun _ => ⟨rfl, rfl⟩) (fun _ => rfl) (fun _ => rfl) (fun _ => rfl)
  | handled r rest now outcome ok hrequests hlater => exact I.served hrequests hlater hprompt
  | responded i v c hcall hnames =>
    apply I.aside W rfl hsame rfl rfl rfl
    intro x hx
    rw [List.mem_singleton.mp hx]
    rfl
  | pumped p rest client obs hresponses hstep => exact I.aside W rfl hsame rfl rfl rfl hnothing
  | removed client obs hstep => exact I.aside W rfl hsame rfl rfl rfl hnothing
  | timedOut i c ch hcall hlistening hchannel hsilent =>
    apply I.quiet W (fun _ => ⟨rfl, rfl⟩)
    intro x hx
    rw [List.mem_singleton.mp hx]
    rfl
  | heard i c p client hcall hlistening hrecv =>
    unfold SttLink.hear at W ⊢
    split at W
    · apply I.quiet W (fun _ => ⟨rfl, rfl⟩)
      intro x hx
      rw [List.mem_singleton.mp hx]
      rfl
    · exact I.quiet W (fun _ => ⟨rfl, rfl⟩) hnothing
    · exact I.aside W rfl hsame rfl rfl rfl hnothing
  | cut i c client hcall hlistening hclosed => exact I.quiet W (fun _ => ⟨rfl, rfl⟩) hnothing
  | forwarded i c t hcall hsending =>
    apply I.quiet W (fun _ => ⟨rfl, rfl⟩)
    intro x hx
    rw [List.mem_singleton.mp hx]
    rfl
  | refused i c t hcall hsending => exact I.quiet W (fun _ => ⟨rfl, rfl⟩) hnothing
  | cancelled i c hcall hlistening => exact I.quiet W (fun _ => ⟨rfl, rfl⟩) hnothing

/-- **Framing.** In every run in which less than `SESSION_TTL` passes between two
messages of a session, whatever sessions there are and however their messages
come: what is transcribed of a session, boundary after boundary, are the
frames between its boundaries, put together, wherever they are enough; all of
it, once nothing of the session is on its way. -/
theorem stt_framing (env : SttEnv) (as : List SttAction)
    (hprompt : (SttLink.machine env).Along (fun h s a => s.prompt h a = true) [] .new as) :
    (SttLink.machine env).Throughout (fun h s =>
      (∀ i c, s.calls[i]? = some c → ∃ later,
        spoken c.locale (framesOf i h) = transcribedOf (env.ids.encode c.session) h ++ later ∧
          (requestsOf i s.requests = [] → later = [])) ∧
      ∀ sid, (∀ c ∈ s.calls, env.ids.encode c.session ≠ sid) → transcribedOf sid h = []) [] .new as := by
  refine Machine.throughout_of_along (P := Heard env) (fun h s a s' o I hp hs => heard_step I hp hs) ?_ as [] .new
    (Heard.new env) hprompt
  intro h s I
  refine ⟨?_, fun sid hsid => (I.unknown sid hsid).1⟩
  intro i c hc
  cases I.collected i c hc with
  | unheard honWay htr hfresh =>
    refine ⟨_, by rw [htr, List.nil_append], ?_⟩
    intro hdone
    rw [hdone] at honWay
    cases honWay
  | heard told rest t hfr honWay htr hlast hentry =>
    obtain ⟨later, hlater⟩ := utterances_prefix_append told rest
    refine ⟨(later.filter enough).map (fun pcm => (c.locale, pcm)), ?_, ?_⟩
    · rw [hfr, spoken, ← hlater, List.filter_append, List.map_append, htr]
      rfl
    · intro hdone
      rw [hdone] at honWay
      have hrest : rest = [] := List.map_eq_nil_iff.mp honWay.symm
      rw [hrest, List.append_nil] at hlater
      have hnothing : later = [] := List.append_right_eq_self.mp hlater
      rw [hnothing]
      rfl

/-- Sessions 7 and 8 at once: 7 says enough in two frames, 8 too little. -/
def twoSpeakers : List SttAction :=
  [.start 7 "fr".toList, .start 8 "en".toList, .frame 0 (List.replicate 1600 1), .frame 1 [2, 2],
    .frame 0 (List.replicate 1600 3), .frame 1 [], .frame 0 [], .close 0, .handle 0 none true, .handle 1 none true,
    .handle 2 none true, .handle 3 none true, .handle 4 none true, .handle 5 none true,
    .handle 6 (some "bonjour".toList) true, .handle 7 none true]

/-- What 7 says is transcribed, and what 8 says is not. -/
theorem twoSpeakers_framed :
    (SttLink.machine kitchenStt).Along (fun h s a => s.prompt h a = true) [] .new twoSpeakers ∧
    ((SttLink.machine kitchenStt).run .new twoSpeakers).map
        (fun r => (transcribedOf (uuid.encode 7) r.2, transcribedOf (uuid.encode 8) r.2)) =
      some ([("fr".toList, List.replicate 1600 1 ++ List.replicate 1600 3)], []) ∧
    (SttLink.machine kitchenStt).Throughout (fun h s =>
      (∀ i c, s.calls[i]? = some c → ∃ later,
        spoken c.locale (framesOf i h) = transcribedOf (uuid.encode c.session) h ++ later ∧
          (requestsOf i s.requests = [] → later = [])) ∧
      ∀ sid, (∀ c ∈ s.calls, uuid.encode c.session ≠ sid) → transcribedOf sid h = [])
        [] .new twoSpeakers := by
  have hprompt : (SttLink.machine kitchenStt).Along (fun h s a => s.prompt h a = true) [] .new twoSpeakers := by
    decide +kernel
  exact ⟨hprompt, by decide +kernel, stt_framing kitchenStt twoSpeakers hprompt⟩

end AthenaVoice.Remote
