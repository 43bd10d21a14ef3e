import AthenaVoice.Esp32.Firmware

/-
  What the satellite lets out of the room — `satellite-esp32/src/main.rs`

  A frame is published when the main loop meets it in the channel while a
  session is spoken to. The `streaming` flag alone would not say when it was
  recorded: it may still be up from the session before, and frames put into the
  channel then wait there. What keeps them in is the channel itself: a session
  begins with the event that triggered it, and the main loop is past whatever was
  sent before.

  What is proved:
    1. `guarded_step` — one step keeps the published frames of every session, and
       those still on their way to it, within what was recorded since its trigger.
    2. `frames_after_trigger` — the published frames of a session are, in order
       and each once, recorded after its trigger was sent, but for the one being
       recorded at that moment; and the trigger is the button or the wake word.
-/

namespace AthenaVoice.Esp32

open Lib

/-! ## Frames in the history -/

/-- A frame the microphone has read. -/
def FirmwareObs.recording : FirmwareObs → Option Bytes
  | .recorded bytes => some bytes
  | _ => none

/-- A frame published in the session that event `m` began. -/
def FirmwareObs.publication (m : Nat) : FirmwareObs → Option Bytes
  | .executed began _ (.frame _) (.publish _ payload) => if began = m then some payload else none
  | _ => none

/-- What was recorded, and what of it was published in one session, in order. -/
def recordings (h : List FirmwareObs) : List Bytes := h.filterMap FirmwareObs.recording
def publications (m : Nat) (h : List FirmwareObs) : List Bytes := h.filterMap (FirmwareObs.publication m)

/-- What is still to be published of a frame event under way. -/
def MainPhase.frames : MainPhase → List Bytes
  | .executing _ (.frame _) commands => commands.filterMap fun
    | .publish _ payload => some payload
    | _ => none
  | _ => []

/-- A frame in the channel, behind event `m`. -/
def frameBehind (m : Nat) (x : Nat × AppEvent) : Option Bytes := if m < x.1 then x.2.frameBytes else none

/-- What may still be published in the session that event `m` began: a frame the
main loop has taken, those in the channel behind the event, and the one the
microphone holds. -/
def Firmware.onTheirWay (m : Nat) (s : Firmware) : List Bytes :=
  (if s.began = m then s.main.frames else []) ++ s.queue.filterMap (frameBehind m) ++ s.mic.phase.held

/-- An event that begins a session. -/
def AppEvent.isTrigger : AppEvent → Bool
  | .button | .wake => true
  | _ => false

/-- The numbers in the channel, and what is known of the event a session began with. -/
structure Numbered (h : List FirmwareObs) (s : Firmware) : Prop where
  sorted : (s.queue.map Prod.fst).Pairwise (· < ·)
  below : ∀ x ∈ s.queue, x.1 < s.sent
  sent : ∀ x ∈ s.queue, FirmwareObs.sent x.1 x.2 ∈ h
  trigger : s.session.state ≠ .idle → (∃ event, .sent s.began event ∈ h ∧ event.isTrigger = true) ∧
    s.began < s.sent ∧ ∀ x ∈ s.queue, s.began < x.1
  executing : ∀ n event commands, s.main = .executing n event commands → s.began < s.sent ∧
    (∀ topic payload, event.frameBytes.isSome = true → .publish topic payload ∈ commands →
      s.session.state ≠ .idle)
  past : ∀ began n event command, .executed began n event command ∈ h → began < s.sent
  held : ∀ b ∈ s.mic.phase.held, (recordings h).getLast? = some b

/-- The frames of every session, published and on their way. -/
def Guarded (h : List FirmwareObs) (s : Firmware) : Prop :=
  ∀ before m event after, h = before ++ .sent m event :: after →
    (publications m h ++ s.onTheirWay m).Sublist ((recordings before).getLast?.toList ++ recordings after)

/-- Who began a session of which a frame is published. -/
def Begun (h : List FirmwareObs) : Prop :=
  ∀ m, publications m h ≠ [] → ∃ event, FirmwareObs.sent m event ∈ h ∧ event.isTrigger = true

theorem recordings_append (h o : List FirmwareObs) : recordings (h ++ o) = recordings h ++ recordings o :=
  List.filterMap_append

theorem publications_append (m : Nat) (h o : List FirmwareObs) :
    publications m (h ++ o) = publications m h ++ publications m o := List.filterMap_append

theorem publication_some {m : Nat} {x : FirmwareObs} {b : Bytes} (h : x.publication m = some b) :
    ∃ n bytes topic, x = .executed m n (.frame bytes) (.publish topic b) := by
  unfold FirmwareObs.publication at h
  split at h
  · rename_i began n bytes topic payload
    split at h
    · rename_i hm
      cases h
      exact ⟨n, bytes, topic, by rw [hm]⟩
    · cases h
  · cases h

theorem frames_cons (n : Nat) (event : AppEvent) (command : Command) (commands : List Command) :
    (MainPhase.executing n event (command :: commands)).frames =
      (MainPhase.executing n event [command]).frames ++ (MainPhase.executing n event commands).frames := by
  cases event with
  | frame bytes =>
    simp only [MainPhase.frames]
    rw [← List.filterMap_append, List.singleton_append]
  | _ => rfl

theorem publications_executed (m began n : Nat) (event : AppEvent) (command : Command) :
    publications m [.executed began n event command] =
      if began = m then (MainPhase.executing n event [command]).frames else [] := by
  cases event with
  | frame bytes =>
    cases command with
    | publish topic payload =>
      by_cases hm : began = m
      · simp [publications, FirmwareObs.publication, MainPhase.frames, hm]
      · simp [publications, FirmwareObs.publication, hm]
    | _ => exact (ite_self _).symm
  | _ => exact (ite_self _).symm

open Firmware

variable {build : Build} {h o : List FirmwareObs} {s s' : Firmware}

theorem frames_handle {n : Nat} {event : AppEvent} {nowMs : UInt64} {uuid : Text} {session : Session}
    {commands : List Command} (hhandle : s.session.handle build.fromSlice
      { input := event.input, nowMs := nowMs, uuid := uuid } = (session, commands)) :
    (MainPhase.executing n event commands).frames = [] ∨
      (s.session.state = .streaming ∧ session = s.session ∧ ∃ bytes, event = .frame bytes ∧
        (MainPhase.executing n event commands).frames = [bytes]) := by
  cases event with
  | frame bytes =>
    have hmic := Session.handle_micFrame build.fromSlice s.session bytes nowMs uuid
    have heq : (session, commands) = (s.session,
        if s.session.state = .streaming then [Command.publish (s.session.topic "audio".toList) bytes] else []) :=
      hhandle.symm.trans hmic
    obtain ⟨rfl, rfl⟩ := Prod.mk.inj heq
    by_cases hstreaming : s.session.state = .streaming
    · rw [if_pos hstreaming]
      exact .inr ⟨hstreaming, rfl, bytes, rfl, rfl⟩
    · rw [if_neg hstreaming]
      exact .inl rfl
  | button => exact .inl rfl
  | wake => exact .inl rfl
  | utteranceEnd => exact .inl rfl
  | mqtt topic payload => exact .inl rfl
  | tick => exact .inl rfl

theorem trigger_of_started {event : AppEvent} {nowMs : UInt64} {uuid : Text} {session : Session}
    {commands : List Command} (hhandle : s.session.handle build.fromSlice
      { input := event.input, nowMs := nowMs, uuid := uuid } = (session, commands))
    (hidle : s.session.state = .idle) (hbusy : session.state ≠ .idle) : event.isTrigger = true := by
  have hinput : event.input = .trigger := (Session.handle_started build.fromSlice hhandle hidle hbusy).1
  cases event <;> first | rfl | cases hinput

theorem MicPhase.held_cases (phase : MicPhase) : phase.held = [] ∨ ∃ b, phase.held = [b] := by
  cases phase with
  | holding frame => exact .inr ⟨_, rfl⟩
  | sending frame done => exact .inr ⟨_, rfl⟩
  | _ => exact .inl rfl

theorem numbered_boot (d : Device) : Numbered [] (boot d) :=
  ⟨List.Pairwise.nil, nofun, nofun, fun hbusy => absurd rfl hbusy, nofun, nofun, nofun⟩

theorem Numbered.handle (N : Numbered h s) {n : Nat} {event : AppEvent} {queue : List (Nat × AppEvent)}
    {nowMs : UInt64}
    {uuid : Text} (hqueue : s.queue = (n, event) :: queue) {session : Session} {commands : List Command}
    (hhandle : s.session.handle build.fromSlice { input := event.input, nowMs := nowMs, uuid := uuid } =
      (session, commands)) :
    Numbered h { s with queue := queue, session := session, began := if s.session.state = .idle then n else s.began,
                        main := .executing n event commands } := by
  have hhead : (n, event) ∈ s.queue := by rw [hqueue]; exact List.mem_cons_self
  have htail : ∀ x ∈ queue, x ∈ s.queue := by
    intro x hx
    rw [hqueue]
    exact List.mem_cons_of_mem _ hx
  have hsorted := N.sorted
  rw [hqueue, List.map_cons, List.pairwise_cons] at hsorted
  have hbegan : (if s.session.state = .idle then n else s.began) < s.sent := by
    split
    · exact N.below _ hhead
    · rename_i hbusy
      exact (N.trigger hbusy).2.1
  refine ⟨hsorted.2, fun x hx => N.below x (htail x hx), fun x hx => N.sent x (htail x hx), ?_, ?_, ?_, N.held⟩
  · intro hbusy
    refine ⟨?_, hbegan, ?_⟩
    · by_cases hidle : s.session.state = .idle
      · simp only [if_pos hidle]
        exact ⟨event, N.sent _ hhead, trigger_of_started hhandle hidle hbusy⟩
      · simp only [if_neg hidle]
        exact (N.trigger hidle).1
    · intro x hx
      by_cases hidle : s.session.state = .idle
      · simp only [if_pos hidle]
        exact hsorted.1 x.1 (List.mem_map_of_mem hx)
      · simp only [if_neg hidle]
        exact (N.trigger hidle).2.2 x (htail x hx)
  · intro n' event' commands' hexecuting
    cases hexecuting
    refine ⟨hbegan, ?_⟩
    intro topic payload hframe hpublish
    obtain ⟨bytes, rfl⟩ : ∃ bytes, event = .frame bytes := by
      cases event <;> first | exact ⟨_, rfl⟩ | cases hframe
    rcases frames_handle (n := n) hhandle with hnone | ⟨hstreaming, rfl, -⟩
    · exfalso
      have hmem : payload ∈ (MainPhase.executing n (.frame bytes) commands).frames :=
        List.mem_filterMap.mpr ⟨_, hpublish, rfl⟩
      rw [hnone] at hmem
      cases hmem
    · rw [hstreaming]
      decide
  · intro began' n' event' command' hpast
    exact N.past began' n' event' command' hpast

theorem Numbered.send (N : Numbered h s) (event : AppEvent) (phase : MicPhase)
    (hheld : ∀ b ∈ phase.held, b ∈ s.mic.phase.held) :
    Numbered (h ++ [.sent s.sent event]) ((s.setMic phase).send event).1 := by
  have hrecordings : recordings (h ++ [.sent s.sent event]) = recordings h := by
    rw [recordings_append]
    exact List.append_nil _
  refine ⟨?_, ?_, ?_, ?_, ?_, ?_, ?_⟩
  · simp only [Firmware.send, setMic, List.map_append, List.map_singleton]
    refine List.pairwise_append.mpr ⟨N.sorted, List.pairwise_singleton _ _, ?_⟩
    intro a ha b hb
    obtain ⟨x, hx, rfl⟩ := List.mem_map.mp ha
    rw [List.mem_singleton.mp hb]
    exact N.below x hx
  · intro x hx
    rcases List.mem_append.mp hx with hold | hnew
    · exact Nat.lt_succ_of_lt (N.below x hold)
    · rw [List.mem_singleton.mp hnew]
      exact Nat.lt_succ_self _
  · intro x hx
    rcases List.mem_append.mp hx with hold | hnew
    · exact List.mem_append_left _ (N.sent x hold)
    · rw [List.mem_singleton.mp hnew]
      exact List.mem_append_right _ (List.mem_singleton_self _)
  · intro hbusy
    obtain ⟨⟨event', hsent, htrigger⟩, hlt, hqueue⟩ := N.trigger hbusy
    refine ⟨⟨event', List.mem_append_left _ hsent, htrigger⟩, Nat.lt_succ_of_lt hlt, ?_⟩
    intro x hx
    rcases List.mem_append.mp hx with hold | hnew
    · exact hqueue x hold
    · rw [List.mem_singleton.mp hnew]
      exact hlt
  · intro n event' commands hexecuting
    obtain ⟨hlt, hpublish⟩ := N.executing n event' commands hexecuting
    exact ⟨Nat.lt_succ_of_lt hlt, hpublish⟩
  · intro began n event' command hmem
    rcases List.mem_append.mp hmem with hold | hnew
    · exact Nat.lt_succ_of_lt (N.past began n event' command hold)
    · cases List.mem_singleton.mp hnew
  · intro b hb
    rw [hrecordings]
    exact N.held b (hheld b hb)

/-- **One step** keeps the numbers in order. -/
theorem numbered_step (N : Numbered h s) (he : Effect build s s' o) : Numbered (h ++ o) s' := by
  have hnil : h ++ [] = h := List.append_nil h
  cases he with
  | read frame hphase =>
    refine ⟨N.sorted, N.below, fun x hx => List.mem_append_left _ (N.sent x hx), ?_, N.executing, ?_, ?_⟩
    · intro hbusy
      obtain ⟨⟨event, hsent, htrigger⟩, hrest⟩ := N.trigger hbusy
      exact ⟨⟨event, List.mem_append_left _ hsent, htrigger⟩, hrest⟩
    · intro began n event command hmem
      rcases List.mem_append.mp hmem with hold | hnew
      · exact N.past began n event command hold
      · cases List.mem_singleton.mp hnew
    · intro b hb
      rw [recordings_append, List.mem_singleton.mp hb]
      exact List.getLast?_concat
  | mic mic hheld hsending =>
    rw [hnil]
    exact ⟨N.sorted, N.below, N.sent, N.trigger, N.executing, N.past, fun b hb => N.held b (hheld.subset hb)⟩
  | panicked hidle =>
    refine ⟨N.sorted, N.below, fun x hx => List.mem_append_left _ (N.sent x hx), ?_, N.executing, ?_, nofun⟩
    · intro hbusy
      obtain ⟨⟨event, hsent, htrigger⟩, hrest⟩ := N.trigger hbusy
      exact ⟨⟨event, List.mem_append_left _ hsent, htrigger⟩, hrest⟩
    · intro began n event command hmem
      rcases List.mem_append.mp hmem with hold | hnew
      · exact N.past began n event command hold
      · cases List.mem_singleton.mp hnew
  | frame frame done phase hphase hnext =>
    refine N.send _ phase ?_
    intro b hb
    rw [hnext.1] at hb
    cases hb
  | stop =>
    rw [hnil]
    exact ⟨N.sorted, N.below, N.sent, N.trigger, N.executing, N.past, nofun⟩
  | send event phase hevent hphase =>
    refine N.send event phase ?_
    intro b hb
    rcases hphase with rfl | ⟨rfl, -⟩
    · exact hb
    · cases hb
  | handle n event queue nowMs uuid hmain hqueue session commands hhandle =>
    rw [hnil]
    exact N.handle hqueue hhandle
  | execute n event command commands hmain =>
    obtain ⟨hlt, hpublish⟩ := N.executing n event _ hmain
    refine ⟨N.sorted, N.below, fun x hx => List.mem_append_left _ (N.sent x hx), ?_, ?_, ?_, ?_⟩
    · intro hbusy
      obtain ⟨⟨event, hsent, htrigger⟩, hrest⟩ := N.trigger hbusy
      exact ⟨⟨event, List.mem_append_left _ hsent, htrigger⟩, hrest⟩
    · intro n' event' commands' hexecuting
      cases hexecuting
      exact ⟨hlt, fun topic payload hframe hmem => hpublish topic payload hframe (List.mem_cons_of_mem _ hmem)⟩
    · intro began n' event' command' hmem
      rcases List.mem_append.mp hmem with hold | hnew
      · exact N.past began n' event' command' hold
      · cases List.mem_singleton.mp hnew
        exact hlt
    · intro b hb
      rw [recordings_append]
      exact (congrArg List.getLast? (List.append_nil _)).trans (N.held b hb)
  | executed n event hmain =>
    rw [hnil]
    exact ⟨N.sorted, N.below, N.sent, N.trigger, nofun, N.past, N.held⟩
  | settle hmain =>
    rw [hnil]
    exact ⟨N.sorted, N.below, N.sent, N.trigger, nofun, N.past, N.held⟩
  | arm hmain =>
    rw [hnil]
    exact ⟨N.sorted, N.below, N.sent, N.trigger, nofun, N.past, N.held⟩

theorem onTheirWay_sublist {m : Nat}
    (hmain : (if s'.began = m then s'.main.frames else []).Sublist (if s.began = m then s.main.frames else []))
    (hqueue : (s'.queue.filterMap (frameBehind m)).Sublist (s.queue.filterMap (frameBehind m)))
    (hheld : s'.mic.phase.held.Sublist s.mic.phase.held) : (s'.onTheirWay m).Sublist (s.onTheirWay m) :=
  (hmain.append hqueue).append hheld

theorem onTheirWay_silent {m : Nat} (hpublished : publications m o = []) (hrecorded : recordings o = [])
    (hway : (s'.onTheirWay m).Sublist (s.onTheirWay m)) :
    (publications m o ++ s'.onTheirWay m).Sublist (s.onTheirWay m ++ recordings o) := by
  rwa [hpublished, hrecorded, List.nil_append, List.append_nil]

/-- What may still be published of a session was on its way to it before, or is
being recorded. -/
theorem onTheirWay_step (N : Numbered h s) (he : Effect build s s' o) (m : Nat) :
    (publications m o ++ s'.onTheirWay m).Sublist (s.onTheirWay m ++ recordings o) := by
  cases he with
  | read frame hphase =>
    have heq : s.onTheirWay m ++ recordings [.recorded (leBytes frame.samples)] =
        (s.setMic (.holding frame)).onTheirWay m := by
      simp only [onTheirWay, setMic, hphase, MicPhase.held, List.append_nil]
      rfl
    rw [heq]
    exact List.Sublist.refl _
  | mic mic hheld hsending =>
    exact onTheirWay_silent rfl rfl (onTheirWay_sublist (List.Sublist.refl _) (List.Sublist.refl _) hheld)
  | panicked hidle =>
    exact onTheirWay_silent rfl rfl
      (onTheirWay_sublist (List.Sublist.refl _) (List.Sublist.refl _) (List.nil_sublist _))
  | frame frame done phase hphase hnext =>
    -- the frame moves from the microphone's hands into the channel
    have hnew : ([(s.sent, AppEvent.frame (leBytes frame.samples))].filterMap (frameBehind m)).Sublist
        [leBytes frame.samples] := by
      by_cases hlt : m < s.sent
      · simp [frameBehind, hlt, AppEvent.frameBytes]
      · simp [frameBehind, hlt]
    refine onTheirWay_silent rfl rfl ?_
    have hheld : s.mic.phase.held = [leBytes frame.samples] := by rw [hphase]; rfl
    simp only [onTheirWay, Firmware.send, setMic, hheld, hnext.1, List.filterMap_append, List.append_nil]
    rw [← List.append_assoc]
    exact hnew.append_left _
  | stop =>
    exact onTheirWay_silent rfl rfl
      (onTheirWay_sublist (List.Sublist.refl _) (List.Sublist.refl _) (List.nil_sublist _))
  | send event phase hevent hphase =>
    refine onTheirWay_silent rfl rfl (onTheirWay_sublist (List.Sublist.refl _) ?_ ?_)
    · have hnone : frameBehind m (s.sent, event) = none := by simp [frameBehind, hevent]
      simp only [Firmware.send, setMic, List.filterMap_append, List.filterMap_cons, hnone, List.filterMap_nil,
        List.append_nil]
      exact List.Sublist.refl _
    · rcases hphase with rfl | ⟨rfl, -⟩
      · exact List.Sublist.refl _
      · exact List.nil_sublist _
  | handle n event queue nowMs uuid hmain hqueue session commands hhandle =>
    refine onTheirWay_silent rfl rfl ?_
    have hqueued : s.queue.filterMap (frameBehind m) =
        (frameBehind m (n, event)).toList ++ queue.filterMap (frameBehind m) := by
      rw [hqueue, List.filterMap_cons]
      cases frameBehind m (n, event) <;> rfl
    -- the frame the main loop takes is behind the event its session began with
    have htaken : (if (if s.session.state = .idle then n else s.began) = m then
        (MainPhase.executing n event commands).frames else []).Sublist (frameBehind m (n, event)).toList := by
      rcases frames_handle (n := n) hhandle with hnone | ⟨hstreaming, -, bytes, rfl, hframes⟩
      · rw [hnone, ite_self]
        exact List.nil_sublist _
      · have hbusy : s.session.state ≠ .idle := by rw [hstreaming]; decide
        rw [if_neg hbusy, hframes]
        by_cases hm : s.began = m
        · have hlt : m < n := hm ▸ (N.trigger hbusy).2.2 (n, .frame bytes) (by rw [hqueue]; exact List.mem_cons_self)
          rw [if_pos hm]
          simp [frameBehind, hlt, AppEvent.frameBytes]
        · rw [if_neg hm]
          exact List.nil_sublist _
    have hwaiting : (if s.began = m then s.main.frames else []) = [] := by
      rw [hmain]
      exact ite_self _
    rw [onTheirWay, onTheirWay, hwaiting, hqueued, List.nil_append]
    exact (htaken.append (List.Sublist.refl _)).append (List.Sublist.refl _)
  | execute n event command commands hmain =>
    have hpublished : publications m [.executed s.began n event command] ++
        (if s.began = m then (MainPhase.executing n event commands).frames else []) =
          if s.began = m then s.main.frames else [] := by
      rw [publications_executed, hmain, frames_cons n event command commands]
      split <;> rfl
    rw [show recordings [.executed s.began n event command] = [] from rfl, List.append_nil, onTheirWay, onTheirWay,
      ← List.append_assoc, ← List.append_assoc, hpublished]
  | executed n event hmain =>
    refine onTheirWay_silent rfl rfl (onTheirWay_sublist ?_ (List.Sublist.refl _) (List.Sublist.refl _))
    rw [show (MainPhase.settling).frames = [] from rfl, ite_self]
    exact List.nil_sublist _
  | settle hmain =>
    refine onTheirWay_silent rfl rfl (onTheirWay_sublist ?_ (List.Sublist.refl _) (List.Sublist.refl _))
    rw [show (MainPhase.arming).frames = [] from rfl, ite_self]
    exact List.nil_sublist _
  | arm hmain =>
    refine onTheirWay_silent rfl rfl (onTheirWay_sublist ?_ (List.Sublist.refl _) (List.Sublist.refl _))
    rw [show (MainPhase.waiting).frames = [] from rfl, ite_self]
    exact List.nil_sublist _

theorem onTheirWay_fresh (N : Numbered h s) : publications s.sent h = [] ∧
    s.onTheirWay s.sent = s.mic.phase.held := by
  refine ⟨?_, ?_⟩
  · apply List.filterMap_eq_nil_iff.mpr
    intro x hx
    by_contra hsome
    obtain ⟨b, hb⟩ := Option.ne_none_iff_exists'.mp hsome
    obtain ⟨n, bytes, topic, rfl⟩ := publication_some hb
    exact (N.past _ _ _ _ hx).ne rfl
  · have hmain : (if s.began = s.sent then s.main.frames else []) = [] := by
      by_cases hbegan : s.began = s.sent
      · rw [if_pos hbegan]
        cases hphase : s.main with
        | executing n event commands => exact absurd hbegan (N.executing n event commands hphase).1.ne
        | _ => rfl
      · rw [if_neg hbegan]
    have hqueue : s.queue.filterMap (frameBehind s.sent) = [] := by
      apply List.filterMap_eq_nil_iff.mpr
      intro x hx
      have hlt := N.below x hx
      simp [frameBehind, hlt.le]
    rw [onTheirWay, hmain, hqueue]
    rfl

/-- **One step** lets nothing out that was recorded too early. -/
theorem guarded_step (N : Numbered h s) (G : Guarded h s) (he : Effect build s s' o) : Guarded (h ++ o) s' := by
  intro before m event after hsplit
  have hway := onTheirWay_step N he m
  -- the session's event lies before this step, or is what it sends
  have hbefore : ∀ after', after = after' ++ o → h = before ++ .sent m event :: after' →
      (publications m (h ++ o) ++ s'.onTheirWay m).Sublist
        ((recordings before).getLast?.toList ++ recordings after) := by
    intro after' hafter hh
    have hold := G before m event after' hh
    rw [hafter, recordings_append, publications_append, List.append_assoc, ← List.append_assoc _ _ (recordings o)]
    refine (hway.append_left (publications m h)).trans ?_
    rw [← List.append_assoc]
    exact hold.append_right (recordings o)
  rcases effect_obs he with rfl | ⟨x, rfl⟩
  · rw [List.append_nil] at hsplit
    exact hbefore after (List.append_nil after).symm hsplit
  · rcases snoc_split hsplit with ⟨rfl, rfl, rfl⟩ | ⟨after', hafter, hh⟩
    · have hm : m = s.sent := by cases he <;> rfl
      subst hm
      obtain ⟨hnone, hheld⟩ := onTheirWay_fresh N
      rw [publications_append, hnone, List.nil_append]
      rw [hheld] at hway
      refine hway.trans ?_
      refine List.Sublist.append ?_ (List.nil_sublist _)
      -- what the microphone holds is the last frame it has read
      rcases MicPhase.held_cases s.mic.phase with hempty | ⟨b, hb⟩
      · rw [hempty]
        exact List.nil_sublist _
      · rw [N.held b (by rw [hb]; exact List.mem_singleton_self b), hb]
        exact List.Sublist.refl _
    · exact hbefore after' hafter hh

/-- **One step** publishes a frame only in a session that a trigger began. -/
theorem begun_step (N : Numbered h s) (B : Begun h) (he : Effect build s s' o) : Begun (h ++ o) := by
  intro m hpublished
  rw [publications_append] at hpublished
  have hold : publications m h ≠ [] →
      ∃ event, FirmwareObs.sent m event ∈ h ++ o ∧ event.isTrigger = true := by
    intro hne
    obtain ⟨event, hsent, htrigger⟩ := B m hne
    exact ⟨event, List.mem_append_left o hsent, htrigger⟩
  by_cases hnew : publications m o = []
  · rw [hnew, List.append_nil] at hpublished
    exact hold hpublished
  · cases he with
    | execute n event command commands hmain =>
      obtain ⟨b, hb⟩ := List.exists_mem_of_ne_nil _ hnew
      obtain ⟨x, hx, hsome⟩ := List.mem_filterMap.mp hb
      rw [List.mem_singleton.mp hx] at hsome
      obtain ⟨n', bytes, topic, heq⟩ := publication_some hsome
      cases heq
      have hbusy := (N.executing n _ _ hmain).2 topic b rfl List.mem_cons_self
      obtain ⟨event, hsent, htrigger⟩ := (N.trigger hbusy).1
      exact ⟨event, List.mem_append_left _ hsent, htrigger⟩
    | _ => exact absurd rfl hnew

/-- **Nothing said before the trigger leaves the room.** In every interleaving of
the satellite's threads: a session of which a frame is published began with the
button or the wake word, and its published frames are, in order and each once,
among those recorded after that was put into the channel, and the one recorded
last before. -/
theorem frames_after_trigger (build : Build) (d : Device) (as : List FirmwareAction) (s' : Firmware)
    (o : List FirmwareObs) (hr : (machine build).run (boot d) as = some (s', o)) (m : Nat)
    (hpublished : publications m o ≠ []) :
    ∃ before event after, o = before ++ .sent m event :: after ∧ event.isTrigger = true ∧
      (publications m o).Sublist ((recordings before).getLast?.toList ++ recordings after) := by
  have hstart : Numbered [] (boot d) ∧ Guarded [] (boot d) ∧ Begun [] := by
    refine ⟨numbered_boot d, ?_, fun m hne => absurd rfl hne⟩
    intro before m event after hsplit
    cases before <;> cases hsplit
  have hinv := Machine.run_invariant (P := fun h s => Numbered h s ∧ Guarded h s ∧ Begun h)
    (fun h s a s' o hp hs => ⟨numbered_step hp.1 (step_effect hs), guarded_step hp.1 hp.2.1 (step_effect hs),
      begun_step hp.1 hp.2.2 (step_effect hs)⟩) hstart hr
  rw [List.nil_append] at hinv
  obtain ⟨-, G, B⟩ := hinv
  obtain ⟨event, hsent, htrigger⟩ := B m hpublished
  obtain ⟨before, after, hsplit⟩ := List.append_of_mem hsent
  refine ⟨before, event, after, hsplit, htrigger, ?_⟩
  have hall := G before m event after hsplit
  exact (List.sublist_append_left _ _).trans hall

/-- A frame is read just before the button is pressed, and one after. -/
def spokenTooSoon : List FirmwareAction :=
  [.mic SilenceTracker.silent false, .press] ++ mains 5 0 ++ List.replicate 5 (.mic ⟨[0, 0], by decide⟩ false) ++
    mains 5 20 ++ mains 2 40

/-- The first of the two published is the one read before. -/
theorem word_before_the_button :
    ∃ s' o, (machine ⟨true, true, noJson⟩).run (boot kitchen) spokenTooSoon = some (s', o) ∧
      publications 0 o = [[0, 0], [0, 0, 0, 0]] ∧
      ∃ before event after, o = before ++ .sent 0 event :: after ∧ event.isTrigger = true ∧
        (publications 0 o).Sublist ((recordings before).getLast?.toList ++ recordings after) := by
  have hrun : ∃ s', (machine ⟨true, true, noJson⟩).run (boot kitchen) spokenTooSoon = some (s',
      [.recorded [0, 0], .sent 0 .button,
        .executed 0 0 .button (.publish (kitchen.sessionPrefix "a".toList ++ "start".toList) kitchen.startPayload),
        .sent 1 (.frame [0, 0]), .recorded [0, 0, 0, 0], .sent 2 (.frame [0, 0, 0, 0]),
        .executed 0 1 (.frame [0, 0]) (.publish (kitchen.sessionPrefix "a".toList ++ "audio".toList) [0, 0]),
        .executed 0 2 (.frame [0, 0, 0, 0])
          (.publish (kitchen.sessionPrefix "a".toList ++ "audio".toList) [0, 0, 0, 0])]) := ⟨_, rfl⟩
  obtain ⟨s', hrun⟩ := hrun
  exact ⟨s', _, hrun, by decide,
    frames_after_trigger ⟨true, true, noJson⟩ kitchen spokenTooSoon s' _ hrun 0 (by decide)⟩

end AthenaVoice.Esp32
