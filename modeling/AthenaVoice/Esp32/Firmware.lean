import AthenaVoice.Esp32.Session
import AthenaVoice.Esp32.SilenceTracker

/-
  The satellite's threads together — `satellite-esp32/src/main.rs`

  The microphone's thread, the button's, the ticker's and the broker's put
  events into one unbounded channel; the main loop takes them, one at a time,
  to the session machine and carries out its commands. Two flags go the other
  way: `streaming` lets the microphone put its frames into the channel, `armed`
  lets it listen for the wake word. A flag is read and written on its own, and
  anything may happen between any two such steps, so a flag may be stale by the
  time it is acted upon.

  Events in the channel, and the session under way, carry the number of the
  event that brought them; nobody reads it. The wake word engine and the
  contents of what the microphone reads are the outside world's choices. A frame
  that would overflow the tracker stops the microphone's thread.

  What is proved:
    1. `step_effect` — what one step does to the channel, the flags, the frame
       the microphone holds and the session.
    2. `flags_settle` — between events, the wake word is listened for exactly
       while no session is under way, and no frame is let through then.

  Correspondence (Rust ↔ Lean):
    `AppEvent`                      `AppEvent`
    the closure of `spawn("mic")`   `MicPhase`, `Firmware.micStep`
    the loop over `rx`              `MainPhase`, `Firmware.mainStep`
    "button", "ticker", "mqtt-fwd"  `press`, `tick`, `inbound`
-/

namespace AthenaVoice.Esp32

open Lib

inductive AppEvent where
  | button
  | wake
  | frame (bytes : Bytes)
  | utteranceEnd
  | mqtt (topic : Text) (payload : Bytes)
  | tick
  deriving DecidableEq, Repr

/-- The input an event is to the session. -/
def AppEvent.input : AppEvent → Input
  | .button | .wake => .trigger
  | .frame bytes => .micFrame bytes
  | .utteranceEnd => .silenceDetected
  | .mqtt topic payload => .inbound topic payload
  | .tick => .tick

/-- `s.to_le_bytes()`, for every sample. -/
def leBytes (samples : List Int16) : Bytes :=
  samples.flatMap fun s => [UInt8.ofNat (s.toUInt16.toNat % 256), UInt8.ofNat (s.toUInt16.toNat / 256)]

/-- Where the microphone's loop is: what it does next. -/
inductive MicPhase where
  /-- `m.read_frame(&mut frame)`. -/
  | reading
  /-- `streaming.load()`. -/
  | holding (frame : Frame)
  /-- `tx.send(AppEvent::Frame(..))`. -/
  | sending (frame : Frame) (done : Bool)
  /-- `streaming.store(false)`. -/
  | stopping
  /-- `tx.send(AppEvent::UtteranceEnd)`. -/
  | ending
  /-- `armed.load()`, on an S3. -/
  | arming (frame : Frame)
  /-- `tx.send(AppEvent::Wake)`. -/
  | waking
  | panicked
  deriving DecidableEq, Repr

structure Mic where
  tracker : SilenceTracker
  wasStreaming : Bool
  phase : MicPhase
  deriving DecidableEq, Repr

inductive MainPhase where
  /-- `rx.recv()`. -/
  | waiting
  /-- `for command in session.handle(..)`, what is left of it, and the number
  and the event it came from. -/
  | executing (n : Nat) (event : AppEvent) (commands : List Command)
  /-- `if state == Streaming { streaming.store(true) }`. -/
  | settling
  /-- `armed.store(state == Idle)`. -/
  | arming
  deriving DecidableEq, Repr

structure Firmware where
  streaming : Bool
  armed : Bool
  /-- The channel, each event with its number. -/
  queue : List (Nat × AppEvent)
  /-- How many events were sent. -/
  sent : Nat
  mic : Mic
  main : MainPhase
  session : Session
  /-- The number of the event the session under way began with. -/
  began : Nat
  deriving DecidableEq, Repr

/-- What the build decides: whether it is an S3, and whether sums are checked. -/
structure Build where
  s3 : Bool
  checks : Bool
  /-- `serde_json::from_slice`. -/
  fromSlice : Bytes → Option Json

def Firmware.boot (d : Device) : Firmware :=
  { streaming := false, armed := true, queue := [], sent := 0,
    mic := { tracker := .new 500 800 20, wasStreaming := false, phase := .reading },
    main := .waiting, session := .new d, began := 0 }

inductive FirmwareAction where
  /-- The microphone's thread takes its next step; what it reads if it reads,
  and what the wake word engine says if it is fed. -/
  | mic (frame : Frame) (heard : Bool)
  /-- The main loop takes its next step; the clock and the identifier drawn if
  it handles an event. -/
  | main (nowMs : UInt64) (uuid : Text)
  | press
  | tick
  | inbound (topic : Text) (payload : Bytes)
  deriving DecidableEq, Repr

inductive FirmwareObs where
  /-- The microphone has read a frame. -/
  | recorded (bytes : Bytes)
  /-- An event is put into the channel. -/
  | sent (n : Nat) (event : AppEvent)
  /-- The main loop carries out a command of event `n`, in the session that
  event `began` began. -/
  | executed (began n : Nat) (event : AppEvent) (command : Command)
  /-- The microphone's thread is gone. -/
  | panicked
  deriving DecidableEq, Repr

namespace Firmware

/-- `tx.send(event)`. -/
def send (s : Firmware) (event : AppEvent) : Firmware × List FirmwareObs :=
  ({ s with queue := s.queue ++ [(s.sent, event)], sent := s.sent + 1 }, [.sent s.sent event])

/-- The microphone's loop goes on. -/
def setMic (s : Firmware) (phase : MicPhase) : Firmware := { s with mic := { s.mic with phase := phase } }

/-- A frame while `streaming`: the tracker is reset if it was not, and hears it. -/
def heed (build : Build) (m : Mic) (frame : Frame) : Option (Mic × Bool) :=
  let tracker := if m.wasStreaming then m.tracker else m.tracker.reset
  (tracker.push build.checks frame).map fun r => ({ m with tracker := r.1, wasStreaming := true }, r.2)

/-- A frame while not: the tracker learns the room. -/
def overhear (m : Mic) (frame : Frame) : Option Mic :=
  (m.tracker.observe frame).map fun tracker => { m with tracker := tracker, wasStreaming := false }

def micStep (build : Build) (s : Firmware) (read : Frame) (heard : Bool) : Option (Firmware × List FirmwareObs) :=
  match s.mic.phase with
  | .reading => some (s.setMic (.holding read), [.recorded (leBytes read.samples)])
  | .holding frame =>
    if s.streaming then
      match heed build s.mic frame with
      | none => some (s.setMic .panicked, [.panicked])
      | some (mic, done) => some ({ s with mic := { mic with phase := .sending frame done } }, [])
    else
      match overhear s.mic frame with
      | none => some (s.setMic .panicked, [.panicked])
      | some mic => some ({ s with mic := { mic with phase := if build.s3 then .arming frame else .reading } }, [])
  | .sending frame done =>
    some ((s.setMic (if done then .stopping else .reading)).send (.frame (leBytes frame.samples)))
  | .stopping => some ({ s.setMic .ending with streaming := false }, [])
  | .ending => some ((s.setMic .reading).send .utteranceEnd)
  -- the engine is fed only while armed, and may not be there at all
  | .arming _ => some (s.setMic (if s.armed && heard then .waking else .reading), [])
  | .waking => some ((s.setMic .reading).send .wake)
  | .panicked => none

def mainStep (build : Build) (s : Firmware) (nowMs : UInt64) (uuid : Text) : Option (Firmware × List FirmwareObs) :=
  match s.main with
  | .waiting =>
    match s.queue with
    | [] => none
    | (n, event) :: queue =>
      match s.session.handle build.fromSlice { input := event.input, nowMs := nowMs, uuid := uuid } with
      | (session, commands) =>
        let began := if s.session.state = .idle then n else s.began
        some ({ s with queue := queue, session := session, began := began, main := .executing n event commands }, [])
  | .executing n event (command :: commands) =>
    let streaming := if command = .sessionEnded then false else s.streaming
    some ({ s with main := .executing n event commands, streaming := streaming }, [.executed s.began n event command])
  | .executing _ _ [] => some ({ s with main := .settling }, [])
  | .settling =>
    some ({ s with main := .arming, streaming := if s.session.state = .streaming then true else s.streaming }, [])
  | .arming => some ({ s with main := .waiting, armed := decide (s.session.state = .idle) }, [])

def step (build : Build) (s : Firmware) : FirmwareAction → Option (Firmware × List FirmwareObs)
  | .mic frame heard => s.micStep build frame heard
  | .main nowMs uuid => s.mainStep build nowMs uuid
  | .press => some (s.send .button)
  | .tick => some (s.send .tick)
  | .inbound topic payload => some (s.send (.mqtt topic payload))

/-- The machine of the satellite's threads. -/
def machine (build : Build) : Machine Firmware FirmwareAction FirmwareObs := { step := step build }

end Firmware

/-! ## What one step does -/

/-- The frame the microphone may still put into the channel. -/
def MicPhase.held : MicPhase → List Bytes
  | .holding frame | .sending frame _ => [leBytes frame.samples]
  | _ => []

/-- The microphone is about to put a frame into the channel. -/
def MicPhase.isSending : MicPhase → Bool
  | .sending .. => true
  | _ => false

def AppEvent.frameBytes : AppEvent → Option Bytes
  | .frame bytes => some bytes
  | _ => none

namespace Firmware

/-- What one step does, with what is seen of it. -/
inductive Effect (build : Build) (s : Firmware) : Firmware → List FirmwareObs → Prop where
  | read (frame : Frame) (hphase : s.mic.phase = .reading) :
      Effect build s (s.setMic (.holding frame)) [.recorded (leBytes frame.samples)]
  | mic (mic : Mic) (hheld : mic.phase.held.Sublist s.mic.phase.held)
      (hsending : mic.phase.isSending = true → s.streaming = true) : Effect build s { s with mic := mic } []
  | panicked (hidle : s.mic.phase.isSending = false) : Effect build s (s.setMic .panicked) [.panicked]
  | frame (frame : Frame) (done : Bool) (phase : MicPhase) (hphase : s.mic.phase = .sending frame done)
      (hnext : phase.held = [] ∧ phase.isSending = false) :
      Effect build s ((s.setMic phase).send (.frame (leBytes frame.samples))).1
        [.sent s.sent (.frame (leBytes frame.samples))]
  | stop : Effect build s { s.setMic .ending with streaming := false } []
  | send (event : AppEvent) (phase : MicPhase) (hevent : event.frameBytes = none)
      (hphase : phase = s.mic.phase ∨ (phase = .reading ∧ s.mic.phase.isSending = false)) :
      Effect build s ((s.setMic phase).send event).1 [.sent s.sent event]
  | handle (n : Nat) (event : AppEvent) (queue : List (Nat × AppEvent)) (nowMs : UInt64) (uuid : Text)
      (hmain : s.main = .waiting) (hqueue : s.queue = (n, event) :: queue) (session : Session) (commands : List Command)
      (hhandle : s.session.handle build.fromSlice { input := event.input, nowMs := nowMs, uuid := uuid } =
        (session, commands)) :
      Effect build s { s with queue := queue, session := session,
                              began := if s.session.state = .idle then n else s.began,
                              main := .executing n event commands } []
  | execute (n : Nat) (event : AppEvent) (command : Command) (commands : List Command)
      (hmain : s.main = .executing n event (command :: commands)) :
      Effect build s { s with main := .executing n event commands,
                              streaming := if command = .sessionEnded then false else s.streaming }
        [.executed s.began n event command]
  | executed (n : Nat) (event : AppEvent) (hmain : s.main = .executing n event []) :
      Effect build s { s with main := .settling } []
  | settle (hmain : s.main = .settling) :
      Effect build s { s with main := .arming,
                              streaming := if s.session.state = .streaming then true else s.streaming } []
  | arm (hmain : s.main = .arming) :
      Effect build s { s with main := .waiting, armed := decide (s.session.state = .idle) } []

theorem micStep_effect {build : Build} {s s' : Firmware} {o : List FirmwareObs} {read : Frame} {heard : Bool}
    (h : s.micStep build read heard = some (s', o)) : Effect build s s' o := by
  unfold micStep at h
  split at h
  · rename_i hphase
    cases h
    exact .read read hphase
  · rename_i frame hphase
    split at h
    · rename_i hstreaming
      split at h
      · cases h
        exact .panicked (by rw [hphase]; rfl)
      · cases h
        exact .mic _ (by rw [hphase]; exact List.Sublist.refl _) (fun _ => hstreaming)
    · split at h
      · cases h
        exact .panicked (by rw [hphase]; rfl)
      · cases h
        refine .mic _ ?_ ?_
        · split <;> exact List.nil_sublist _
        · split <;> exact nofun
  · rename_i frame done hphase
    cases h
    refine .frame frame done _ hphase ?_
    cases done <;> exact ⟨rfl, rfl⟩
  · cases h
    exact .stop
  · rename_i hphase
    cases h
    exact .send _ _ rfl (.inr ⟨rfl, by rw [hphase]; rfl⟩)
  · cases h
    refine .mic _ ?_ ?_
    · simp only
      split <;> exact List.nil_sublist _
    · simp only
      split <;> exact nofun
  · rename_i hphase
    cases h
    exact .send _ _ rfl (.inr ⟨rfl, by rw [hphase]; rfl⟩)
  · cases h

theorem mainStep_effect {build : Build} {s s' : Firmware} {o : List FirmwareObs} {nowMs : UInt64} {uuid : Text}
    (h : s.mainStep build nowMs uuid = some (s', o)) : Effect build s s' o := by
  unfold mainStep at h
  split at h
  · rename_i hmain
    split at h
    · cases h
    · rename_i n event queue hqueue
      cases h
      exact .handle n event queue nowMs uuid hmain hqueue _ _ rfl
  · rename_i n event command commands hmain
    cases h
    exact .execute n event command commands hmain
  · rename_i n event hmain
    cases h
    exact .executed n event hmain
  · rename_i hmain
    cases h
    exact .settle hmain
  · rename_i hmain
    cases h
    exact .arm hmain

/-- **Everything a step may do.** -/
theorem step_effect {build : Build} {s s' : Firmware} {o : List FirmwareObs} {a : FirmwareAction}
    (h : step build s a = some (s', o)) : Effect build s s' o := by
  cases a with
  | mic read heard => exact micStep_effect h
  | main nowMs uuid => exact mainStep_effect h
  | press =>
    cases h
    exact .send .button s.mic.phase rfl (.inl rfl)
  | tick =>
    cases h
    exact .send .tick s.mic.phase rfl (.inl rfl)
  | inbound topic payload =>
    cases h
    exact .send (.mqtt topic payload) s.mic.phase rfl (.inl rfl)

end Firmware

/-! ## What the session machine makes of an event -/

namespace Session

theorem handle_micFrame (fromSlice : Bytes → Option Json) (s : Session) (bytes : Bytes) (nowMs : UInt64)
    (uuid : Text) :
    s.handle fromSlice { input := .micFrame bytes, nowMs := nowMs, uuid := uuid } =
      (s, if s.state = .streaming then [.publish (s.topic "audio".toList) bytes] else []) := by
  simp only [handle, onMicFrame, ne_eq]
  by_cases h : s.state = .streaming
  · rw [if_neg (not_not.mpr h), if_pos h]
  · rw [if_pos h, if_neg h]

theorem idle_of_not_trigger (fromSlice : Bytes → Option Json) {s : Session} {c : Call} (hidle : s.state = .idle)
    (hc : c.input ≠ .trigger) : s.handle fromSlice c = (s, []) := by
  unfold handle
  split
  · rename_i htrigger
    exact absurd htrigger hc
  · simp [onMicFrame, hidle]
  · simp [endUtterance, hidle]
  · simp [onInbound, hidle]
  · simp only [onTick]
    split <;> simp [hidle]

theorem handle_idle (fromSlice : Bytes → Option Json) {s s' : Session} {c : Call} {commands : List Command}
    (h : s.handle fromSlice c = (s', commands)) (hidle : s'.state = .idle) :
    (s.state = .idle ∧ commands = []) ∨ commands = [.sessionEnded] := by
  have he : Effect s c s' commands := by
    have hcases := handle_cases fromSlice s c
    rwa [h] at hcases
  cases he with
  | none => exact .inl ⟨hidle, rfl⟩
  | started _ => cases hidle
  | frame _ _ hstreaming => rw [hstreaming] at hidle; cases hidle
  | ended _ => cases hidle
  | replied state _ _ _ _ listening _ _ _ next _ =>
    exfalso
    have hstate : state = .idle := hidle
    rcases next with rfl | rfl
    · exact listening.ne_idle hstate
    · cases hstate
  | finished _ => exact .inr rfl

theorem handle_started (fromSlice : Bytes → Option Json) {s s' : Session} {c : Call} {commands : List Command}
    (h : s.handle fromSlice c = (s', commands)) (hidle : s.state = .idle) (hbusy : s'.state ≠ .idle) :
    c.input = .trigger ∧ ∃ topic payload, commands = [.publish topic payload] := by
  have htrigger : c.input = .trigger := by
    by_contra hc
    rw [idle_of_not_trigger fromSlice hidle hc] at h
    cases h
    exact hbusy hidle
  refine ⟨htrigger, ?_⟩
  simp only [handle, htrigger, onTrigger, ne_eq, hidle, not_true_eq_false, if_false] at h
  cases h
  exact ⟨_, _, rfl⟩

theorem handle_ended (fromSlice : Bytes → Option Json) {s s' : Session} {c : Call} {commands : List Command}
    (h : s.handle fromSlice c = (s', commands)) (hended : .sessionEnded ∈ commands) :
    commands = [.sessionEnded] ∧ s'.state = .idle := by
  have he : Effect s c s' commands := by
    have hcases := handle_cases fromSlice s c
    rwa [h] at hcases
  cases he with
  | none => cases hended
  | started _ => simp at hended
  | frame _ _ _ => simp at hended
  | ended _ => simp at hended
  | replied _ _ _ _ _ _ _ _ _ _ replies => exact absurd (replies _ hended) (by decide)
  | finished _ => exact ⟨rfl, rfl⟩

end Session

/-! ## The flags -/

def Command.isPublish : Command → Bool
  | .publish .. => true
  | _ => false

/-- A frame is put into the channel. -/
def FirmwareObs.isFrame : FirmwareObs → Bool
  | .sent _ (.frame _) => true
  | _ => false

/-- A command that publishes is carried out. -/
def FirmwareObs.publishes : FirmwareObs → Bool
  | .executed _ _ _ (.publish ..) => true
  | _ => false

/-- How many frames are put into the channel. -/
def frames (h : List FirmwareObs) : Nat := h.countP FirmwareObs.isFrame

/-- No session is under way, or one has begun and nothing of it is out yet; and
no frame is let through. -/
structure Calm (s : Firmware) : Prop where
  closed : s.streaming = false
  silent : s.session.state = .idle ∨
    ∃ n event commands, s.main = .executing n event commands ∧ commands.any Command.isPublish = true

/-- What the main loop has made of the flags. -/
structure Settled (s : Firmware) : Prop where
  waiting : s.main = .waiting → s.armed = decide (s.session.state = .idle)
  idle : s.session.state = .idle → s.streaming = false ∨
    ∃ n event commands, s.main = .executing n event commands ∧ Command.sessionEnded ∈ commands
  ended : ∀ n event commands, s.main = .executing n event commands → Command.sessionEnded ∈ commands →
    commands = [.sessionEnded] ∧ s.session.state = .idle

theorem snoc_split {α : Type*} {h before after : List α} {x y : α} (hsplit : h ++ [y] = before ++ x :: after) :
    (after = [] ∧ h = before ∧ y = x) ∨ ∃ after', after = after' ++ [y] ∧ h = before ++ x :: after' := by
  rcases List.eq_nil_or_concat after with rfl | ⟨after', z, rfl⟩
  · obtain ⟨rfl, heq⟩ := List.append_inj' hsplit rfl
    cases heq
    exact .inl ⟨rfl, rfl, rfl⟩
  · rw [List.concat_eq_append, ← List.cons_append, ← List.append_assoc] at hsplit
    obtain ⟨rfl, heq⟩ := List.append_inj' hsplit rfl
    cases heq
    exact .inr ⟨after', List.concat_eq_append, rfl⟩

/-- Since a session ended, if nothing was published since: no frame is let
through, and one at most was. -/
def Quiet (h : List FirmwareObs) (s : Firmware) : Prop :=
  ∀ before began n event after, h = before ++ .executed began n event .sessionEnded :: after →
    (∀ x ∈ after, x.publishes = false) → Calm s ∧ frames after + s.mic.phase.isSending.toNat ≤ 1

namespace Firmware

variable {build : Build} {s s' : Firmware} {o : List FirmwareObs}

theorem settled_boot (d : Device) : Settled (boot d) := ⟨fun _ => rfl, fun _ => .inl rfl, fun _ _ _ h => by cases h⟩

theorem settled_step (S : Settled s) (he : Effect build s s' o) : Settled s' := by
  cases he with
  | read frame hphase => exact ⟨S.waiting, S.idle, S.ended⟩
  | mic mic hheld hsending => exact ⟨S.waiting, S.idle, S.ended⟩
  | panicked hidle => exact ⟨S.waiting, S.idle, S.ended⟩
  | frame frame done phase hphase hnext => exact ⟨S.waiting, S.idle, S.ended⟩
  | stop => exact ⟨S.waiting, fun _ => .inl rfl, S.ended⟩
  | send event phase hevent hphase => exact ⟨S.waiting, S.idle, S.ended⟩
  | handle n event queue nowMs uuid hmain hqueue session commands hhandle =>
    refine ⟨nofun, ?_, ?_⟩
    · intro hidle
      rcases Session.handle_idle build.fromSlice hhandle hidle with ⟨hwas, rfl⟩ | rfl
      · rcases S.idle hwas with hclosed | ⟨n', event', commands', hexecuting, -⟩
        · exact .inl hclosed
        · rw [hmain] at hexecuting
          cases hexecuting
      · exact .inr ⟨n, event, _, rfl, List.mem_singleton_self _⟩
    · intro n' event' commands' hexecuting hended
      cases hexecuting
      exact Session.handle_ended build.fromSlice hhandle hended
  | execute n event command commands hmain =>
    refine ⟨nofun, ?_, ?_⟩
    · intro hidle
      rcases S.idle hidle with hclosed | ⟨n', event', commands', hexecuting, hended⟩
      · left
        simp only [hclosed, ite_self]
      · rw [hmain] at hexecuting
        cases hexecuting
        rcases List.mem_cons.mp hended with hthis | hlater
        · left
          simp only [← hthis, if_true]
        · exact .inr ⟨n, event, commands, rfl, hlater⟩
    · intro n' event' commands' hexecuting hended
      cases hexecuting
      obtain ⟨hcommands, -⟩ := S.ended n event _ hmain (List.mem_cons_of_mem command hended)
      cases hcommands
      cases hended
  | executed n event hmain =>
    refine ⟨nofun, ?_, nofun⟩
    intro hidle
    rcases S.idle hidle with hclosed | ⟨n', event', commands', hexecuting, hended⟩
    · exact .inl hclosed
    · rw [hmain] at hexecuting
      cases hexecuting
      cases hended
  | settle hmain =>
    refine ⟨nofun, ?_, nofun⟩
    intro hidle
    have hstate : s.session.state = .idle := hidle
    rcases S.idle hidle with hclosed | ⟨n', event', commands', hexecuting, -⟩
    · left
      simp [hstate, hclosed]
    · rw [hmain] at hexecuting
      cases hexecuting
  | arm hmain =>
    refine ⟨fun _ => rfl, ?_, nofun⟩
    intro hidle
    rcases S.idle hidle with hclosed | ⟨n', event', commands', hexecuting, -⟩
    · exact .inl hclosed
    · rw [hmain] at hexecuting
      cases hexecuting

theorem calm_step (C : Calm s) (he : Effect build s s' o) (ho : ∀ x ∈ o, x.publishes = false) :
    Calm s' ∧ frames o + s'.mic.phase.isSending.toNat ≤ s.mic.phase.isSending.toNat := by
  cases he with
  | read frame hphase => exact ⟨⟨C.closed, C.silent⟩, Nat.zero_le _⟩
  | mic mic hheld hsending =>
    have hnot : mic.phase.isSending = false := by
      cases hmic : mic.phase.isSending with
      | false => rfl
      | true =>
        have hopen := hsending hmic
        rw [C.closed] at hopen
        cases hopen
    refine ⟨⟨C.closed, C.silent⟩, ?_⟩
    simp only [hnot]
    exact Nat.zero_le _
  | panicked hidle => exact ⟨⟨C.closed, C.silent⟩, Nat.zero_le _⟩
  | frame frame done phase hphase hnext =>
    refine ⟨⟨C.closed, C.silent⟩, ?_⟩
    simp only [send, setMic, hphase, hnext.2]
    exact Nat.le_refl 1
  | stop => exact ⟨⟨rfl, C.silent⟩, Nat.zero_le _⟩
  | send event phase hevent hphase =>
    refine ⟨⟨C.closed, C.silent⟩, ?_⟩
    have hzero : frames [.sent s.sent event] = 0 := by cases event <;> first | rfl | cases hevent
    rw [hzero, Nat.zero_add]
    rcases hphase with rfl | ⟨rfl, -⟩
    · exact Nat.le_refl _
    · exact Nat.zero_le _
  | handle n event queue nowMs uuid hmain hqueue session commands hhandle =>
    have hidle : s.session.state = .idle := by
      rcases C.silent with hidle | ⟨n', event', commands', hexecuting, -⟩
      · exact hidle
      · rw [hmain] at hexecuting
        cases hexecuting
    refine ⟨⟨C.closed, ?_⟩, (Nat.zero_add _).le⟩
    by_cases hbusy : session.state = .idle
    · exact .inl hbusy
    · obtain ⟨-, topic, payload, rfl⟩ := Session.handle_started build.fromSlice hhandle hidle hbusy
      exact .inr ⟨n, event, _, rfl, rfl⟩
  | execute n event command commands hmain =>
    refine ⟨⟨?_, ?_⟩, (Nat.zero_add _).le⟩
    · simp only [C.closed, ite_self]
    · rcases C.silent with hidle | ⟨n', event', commands', hexecuting, hany⟩
      · exact .inl hidle
      · rw [hmain] at hexecuting
        cases hexecuting
        have hcommand : command.isPublish = false := by
          have hx := ho _ List.mem_cons_self
          cases command <;> first | rfl | cases hx
        rw [List.any_cons, hcommand, Bool.false_or] at hany
        exact .inr ⟨n, event, commands, rfl, hany⟩
  | executed n event hmain =>
    refine ⟨⟨C.closed, ?_⟩, (Nat.zero_add _).le⟩
    rcases C.silent with hidle | ⟨n', event', commands', hexecuting, hany⟩
    · exact .inl hidle
    · rw [hmain] at hexecuting
      cases hexecuting
      cases hany
  | settle hmain =>
    have hidle : s.session.state = .idle := by
      rcases C.silent with hidle | ⟨n', event', commands', hexecuting, -⟩
      · exact hidle
      · rw [hmain] at hexecuting
        cases hexecuting
    refine ⟨⟨?_, .inl hidle⟩, (Nat.zero_add _).le⟩
    simp [hidle, C.closed]
  | arm hmain =>
    refine ⟨⟨C.closed, ?_⟩, (Nat.zero_add _).le⟩
    rcases C.silent with hidle | ⟨n', event', commands', hexecuting, -⟩
    · exact .inl hidle
    · rw [hmain] at hexecuting
      cases hexecuting

theorem effect_obs (he : Effect build s s' o) : o = [] ∨ ∃ x, o = [x] := by
  cases he <;> first | exact .inl rfl | exact .inr ⟨_, rfl⟩

theorem quiet_step {h : List FirmwareObs} (S : Settled s) (Q : Quiet h s) (he : Effect build s s' o) :
    Quiet (h ++ o) s' := by
  intro before began n event after hsplit hsilent
  -- the end lies before this step, or is what it shows
  have hbefore : ∀ after', after = after' ++ o → h = before ++ .executed began n event .sessionEnded :: after' →
      Calm s' ∧ frames after + s'.mic.phase.isSending.toNat ≤ 1 := by
    intro after' hafter hh
    subst hafter
    obtain ⟨C, hcount⟩ := Q before began n event after' hh (fun x hx => hsilent x (List.mem_append_left o hx))
    obtain ⟨C', hstep⟩ := calm_step C he (fun x hx => hsilent x (List.mem_append_right after' hx))
    refine ⟨C', ?_⟩
    rw [frames, List.countP_append]
    simp only [frames] at hcount hstep
    omega
  rcases effect_obs he with rfl | ⟨x, rfl⟩
  · rw [List.append_nil] at hsplit
    exact hbefore after (List.append_nil after).symm hsplit
  · rcases snoc_split hsplit with ⟨rfl, -, hx⟩ | ⟨after', hafter, hh⟩
    · cases he with
      | execute n' event' command commands hmain =>
        cases hx
        obtain ⟨-, hidle⟩ := S.ended n event _ hmain List.mem_cons_self
        refine ⟨⟨by simp only [if_true], .inl hidle⟩, ?_⟩
        rw [show frames [] = 0 from rfl, Nat.zero_add]
        exact Bool.toNat_le _
      | _ => cases hx
    · exact hbefore after' hafter hh

/-- **The flags settle.** In every interleaving of the satellite's threads:
between events the wake word is listened for exactly when no session is under
way, and no frame is let through then; and from the end of a session until
something of the next is published, one more frame at most goes into the
channel. -/
theorem flags_settle (build : Build) (d : Device) (as : List FirmwareAction) (s' : Firmware) (o : List FirmwareObs)
    (hr : (machine build).run (boot d) as = some (s', o)) :
    (s'.main = .waiting → s'.armed = decide (s'.session.state = .idle) ∧
      (s'.session.state = .idle → s'.streaming = false)) ∧
      ∀ before began n event after, o = before ++ .executed began n event .sessionEnded :: after →
        (∀ x ∈ after, x.publishes = false) → frames after ≤ 1 := by
  have hstart : Settled (boot d) ∧ Quiet [] (boot d) := by
    refine ⟨settled_boot d, ?_⟩
    intro before began n event after hsplit
    cases before <;> cases hsplit
  have hinv := Machine.run_invariant (P := fun h s => Settled s ∧ Quiet h s)
    (fun h s a s' o hp hs => ⟨settled_step hp.1 (step_effect hs), quiet_step hp.1 hp.2 (step_effect hs)⟩) hstart hr
  rw [List.nil_append] at hinv
  obtain ⟨S, Q⟩ := hinv
  refine ⟨?_, ?_⟩
  · intro hwaiting
    refine ⟨S.waiting hwaiting, ?_⟩
    intro hidle
    rcases S.idle hidle with hclosed | ⟨n, event, commands, hexecuting, -⟩
    · exact hclosed
    · rw [hwaiting] at hexecuting
      cases hexecuting
  · intro before began n event after hsplit hsilent
    obtain ⟨-, hcount⟩ := Q before began n event after hsplit hsilent
    omega

/-- Some steps of the main loop, at a time. -/
def mains (k : Nat) (nowMs : UInt64) : List FirmwareAction := List.replicate k (.main nowMs "a".toList)

/-- The button is pressed, a frame is heard, and the session runs out of time
twice while the microphone still holds it. -/
def lateFrame : List FirmwareAction :=
  [.press] ++ mains 5 0 ++ [.mic SilenceTracker.silent false, .mic SilenceTracker.silent false, .tick] ++
    mains 5 20000 ++ [.tick] ++ mains 2 60000 ++
    [.mic SilenceTracker.silent false]

/-- The frame goes into the channel after the session's end, and is the only one. -/
theorem late_frame :
    ∃ s' before after, (machine ⟨true, true, noJson⟩).run (boot kitchen) lateFrame =
        some (s', before ++ .executed 0 2 .tick .sessionEnded :: after) ∧
      after = [.sent 3 (.frame [0, 0])] ∧ frames after ≤ 1 := by
  have hrun : ∃ s', (machine ⟨true, true, noJson⟩).run (boot kitchen) lateFrame = some (s',
      [.sent 0 .button, .executed 0 0 .button
        (.publish (kitchen.sessionPrefix "a".toList ++ "start".toList) kitchen.startPayload),
        .recorded [0, 0], .sent 1 .tick,
        .executed 0 1 .tick (.publish (kitchen.sessionPrefix "a".toList ++ "audio".toList) []), .sent 2 .tick] ++
        .executed 0 2 .tick .sessionEnded :: [.sent 3 (.frame [0, 0])]) := ⟨_, rfl⟩
  obtain ⟨s', hrun⟩ := hrun
  refine ⟨s', _, _, hrun, rfl, ?_⟩
  apply (flags_settle ⟨true, true, noJson⟩ kitchen lateFrame s' _ hrun).2 _ _ _ _ _ rfl
  intro x hx
  rw [List.mem_singleton.mp hx]
  rfl

end Firmware

end AthenaVoice.Esp32
