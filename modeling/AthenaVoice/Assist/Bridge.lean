import AthenaVoice.Assist.Topics
import AthenaVoice.Lib.Machine
import AthenaVoice.Lib.Slots

/-
  The assist bridge's routing — `assist/bridge.rs`, `handle`, `route` and the
  exit path of `run_device_actor`

  A question goes into the channel of its device's actor, or into a fresh
  channel whose actor is then spawned. An actor that leaves removes its own
  entry, closes its channel, drains it and routes what it found again. Any
  number of route calls and actors step in any order; each map operation,
  `try_send`, receive and close is one step. The loop itself is what it does to
  the channel: it takes questions, and may leave at any time.

  `devices.get` hands out a guard that locks the map until it is dropped, after
  the `try_send`; `guarded` says whether the map does. A question is numbered
  when its own route call has it accepted, and keeps the number.

  Correspondence (Rust ↔ Lean):
    `AssistBridge::devices`                    `Bridge.devices`
    a device's channel, and its actor          `Actor`
    `handle`                                   `BridgeAction.handle`
    `route`                                    `Bridge.route`, by stages
    `run_device_actor`, the question arm       `take`
    `run_device_actor`, after the loop         `leave` … `reroute`
-/

namespace AthenaVoice.Assist

open Lib

/-- A question in a channel, with its number. -/
structure Question where
  stamp : Nat
  text : Text
  deriving DecidableEq, Repr

/-- How far a call of `route` has come. A channel is its place in the list of actors. -/
inductive Stage where
  /-- `self.devices.get(device)`. -/
  | looking
  /-- `tx.try_send(..)`, the entry found. -/
  | found (c : Nat)
  /-- `self.devices.remove(device)`, the channel closed. -/
  | evicting
  /-- `mpsc::channel(8)`, and the `try_send` into it. -/
  | creating
  /-- `self.devices.insert(..)`, then `spawn_device_actor`. -/
  | inserting (c : Nat)
  deriving DecidableEq, Repr

/-- A call of `route`; `stamp` is the number of a question routed again, until
it is in its new channel. -/
structure Call where
  device : Text
  text : Text
  stamp : Option Nat
  stage : Stage
  deriving DecidableEq, Repr

inductive Phase where
  | unspawned
  | running
  /-- The loop is over; `remove_if` comes next. -/
  | leaving
  /-- `question_rx.close()` comes next. -/
  | deregistered
  /-- `while let Ok(text) = question_rx.try_recv()`. -/
  | draining
  /-- `for text in leftover { self.route(..) }`, and what follows. -/
  | rerouting
  deriving DecidableEq, Repr

/-- A device's channel and the actor that owns its receiver; `call` is the
actor's own call of `route`. -/
structure Actor where
  device : Text
  queue : List Question
  closed : Bool
  phase : Phase
  leftover : List Question
  call : Option Call
  deriving DecidableEq, Repr

/-- `AssistBridge`, with everything in flight; `calls` come from MQTT, `none`
once over, and `accepted` counts the questions they have had accepted. -/
structure Bridge where
  devices : Text → Option Nat
  actors : List Actor
  calls : List (Option Call)
  accepted : Nat

def Bridge.new : Bridge := { devices := fun _ => none, actors := [], calls := [], accepted := 0 }

/-- Who is in a call of `route`: an MQTT publish, or an actor. -/
inductive Caller where
  | mqtt (i : Nat)
  | actor (i : Nat)
  deriving DecidableEq, Repr

/-- The steps an actor takes by itself. -/
inductive OwnStep where
  /-- `question_rx.recv()`. -/
  | take
  /-- The loop breaks. -/
  | leave
  | close
  /-- `question_rx.try_recv()`. -/
  | drain
  /-- The next leftover is routed. -/
  | reroute
  deriving DecidableEq, Repr

/-- What the scheduler and the world may do next. -/
inductive BridgeAction where
  | handle (topic : Text) (payload : List UInt8)
  /-- The call takes its next step. -/
  | call (caller : Caller)
  | own (i : Nat) (b : OwnStep)
  /-- `self.devices.remove_if(..)`. -/
  | deregister (i : Nat)
  deriving DecidableEq, Repr

inductive BridgeObs where
  /-- `handle` returns. -/
  | handled (ours : Bool)
  | accepted (device : Text) (q : Question)
  /-- A question fresh from MQTT meets a full backlog. -/
  | refused (device text : Text)
  /-- A question routed again meets the full backlog of channel `c`. -/
  | dropped (n c : Nat)
  /-- An actor's loop takes a question. -/
  | taken (device : Text) (q : Question)
  /-- An actor's exit takes a question out of its channel, to route it again. -/
  | drained (device : Text) (q : Question)
  deriving DecidableEq, Repr

structure BridgeEnv where
  topicPrefix : Text
  /-- `serde_json::from_slice`. -/
  fromSlice : List UInt8 → Option Json
  /-- An entry of the map that is being read is locked. -/
  guarded : Bool

/-- The question channels' capacity. -/
def BACKLOG : Nat := 8

/-- The call holds the guard of the device's entry. -/
def Call.holds (device : Text) (c : Call) : Bool :=
  c.device = device &&
    match c.stage with
    | .found _ => true
    | .looking | .evicting | .creating | .inserting _ => false

/-- A fresh channel with its first question, the actor not spawned yet. -/
def Actor.fresh (device : Text) (q : Question) : Actor :=
  { device := device, queue := [q], closed := false, phase := .unspawned, leftover := [], call := none }

/-- `tx.try_send(text)`, there being room. -/
def Actor.push (q : Question) (a : Actor) : Actor := { a with queue := a.queue ++ [q] }

/-- `spawn_device_actor`. -/
def Actor.spawn (a : Actor) : Actor := { a with phase := .running }

/-- The call of `route` for a leftover. -/
def Question.again (device : Text) (q : Question) : Call :=
  { device := device, text := q.text, stamp := some q.stamp, stage := .looking }

def Actor.step (a : Actor) : OwnStep → Option (Actor × List BridgeObs)
  | .take =>
    match a.phase, a.queue with
    | .running, q :: rest => some ({ a with queue := rest }, [.taken a.device q])
    | _, _ => none
  | .leave =>
    match a.phase with
    | .running => some ({ a with phase := .leaving }, [])
    | _ => none
  | .close =>
    match a.phase with
    | .deregistered => some ({ a with closed := true, phase := .draining }, [])
    | _ => none
  | .drain =>
    match a.phase, a.queue with
    | .draining, q :: rest => some ({ a with queue := rest, leftover := a.leftover ++ [q] }, [.drained a.device q])
    -- what is drained first is routed again only now, with the channel empty
    | .draining, [] => some ({ a with phase := .rerouting }, [])
    | _, _ => none
  | .reroute =>
    match a.phase, a.call, a.leftover with
    | .rerouting, none, q :: rest => some ({ a with leftover := rest, call := some (q.again a.device) }, [])
    | _, _, _ => none

/-- An actor's steps, one case each. -/
inductive Actor.Own (a : Actor) : OwnStep → Actor → List BridgeObs → Prop where
  | take (q : Question) (rest : List Question) (phase : a.phase = .running) (queue : a.queue = q :: rest) :
      a.Own .take { a with queue := rest } [.taken a.device q]
  | leave (phase : a.phase = .running) : a.Own .leave { a with phase := .leaving } []
  | close (phase : a.phase = .deregistered) : a.Own .close { a with closed := true, phase := .draining } []
  | drain (q : Question) (rest : List Question) (phase : a.phase = .draining) (queue : a.queue = q :: rest) :
      a.Own .drain { a with queue := rest, leftover := a.leftover ++ [q] } [.drained a.device q]
  | drained (phase : a.phase = .draining) (queue : a.queue = []) : a.Own .drain { a with phase := .rerouting } []
  | reroute (q : Question) (rest : List Question) (phase : a.phase = .rerouting) (idle : a.call = none)
      (leftover : a.leftover = q :: rest) :
      a.Own .reroute { a with leftover := rest, call := some (q.again a.device) } []

theorem Actor.step_cases {a a' : Actor} {b : OwnStep} {o : List BridgeObs} (h : a.step b = some (a', o)) :
    a.Own b a' o := by
  unfold Actor.step at h
  cases b with
  | take =>
    simp only at h
    split at h
    · rename_i q rest hphase hqueue
      cases h
      exact .take q rest hphase hqueue
    · cases h
  | leave =>
    simp only at h
    split at h
    · rename_i hphase
      cases h
      exact .leave hphase
    · cases h
  | close =>
    simp only at h
    split at h
    · rename_i hphase
      cases h
      exact .close hphase
    · cases h
  | drain =>
    simp only at h
    split at h
    · rename_i q rest hphase hqueue
      cases h
      exact .drain q rest hphase hqueue
    · rename_i hphase hqueue
      cases h
      exact .drained hphase hqueue
    · cases h
  | reroute =>
    simp only at h
    split at h
    · rename_i q rest hphase hcall hleft
      cases h
      exact .reroute q rest hphase hcall hleft
    · cases h

namespace Bridge

def callOf (s : Bridge) : Caller → Option Call
  | .mqtt i => s.calls[i]?.bind id
  | .actor i => s.actors[i]?.bind Actor.call

/-- The actor at a place is changed. -/
def setActor (s : Bridge) (i : Nat) (f : Actor → Actor) : Bridge := { s with actors := s.actors.modify i f }

/-- The call goes on, or is over. -/
def setCall (s : Bridge) (k : Caller) (c : Option Call) : Bridge :=
  match k with
  | .mqtt i => { s with calls := s.calls.modify i (fun _ => c) }
  | .actor i => s.setActor i (fun a => { a with call := c })

/-- The map with one entry changed. -/
def setDevice (s : Bridge) (device : Text) (c : Option Nat) : Bridge :=
  { s with devices := fun d => if d = device then c else s.devices d }

/-- A fresh actor takes the next place. -/
def addActor (s : Bridge) (a : Actor) : Bridge := { s with actors := s.actors ++ [a] }

/-- The entry may not be written: someone is reading it. -/
def locked (env : BridgeEnv) (s : Bridge) (device : Text) : Bool :=
  env.guarded && (s.calls ++ s.actors.map Actor.call).any (fun c => c.any (Call.holds device))

/-- The call's question; one fresh from MQTT gets the next number. -/
def questionOf (s : Bridge) (c : Call) : Question := { stamp := c.stamp.getD s.accepted, text := c.text }

/-- The numbers given once the call's question is accepted. -/
def numbered (s : Bridge) (c : Call) : Bridge :=
  { s with accepted := if c.stamp.isNone then s.accepted + 1 else s.accepted }

/-- What is seen of a full backlog. -/
def turnedAway (c : Call) (i : Nat) : BridgeObs :=
  match c.stamp with
  | some n => .dropped n i
  | none => .refused c.device c.text

/-- The next step of a call of `route`. -/
def route (env : BridgeEnv) (s : Bridge) (caller : Caller) (c : Call) : Option (Bridge × List BridgeObs) :=
  match c.stage with
  | .looking =>
    match s.devices c.device with
    | some i => some (s.setCall caller (some { c with stage := .found i }), [])
    | none => some (s.setCall caller (some { c with stage := .creating }), [])
  | .found i =>
    match s.actors[i]? with
    | none => none
    | some a =>
      if a.closed then some (s.setCall caller (some { c with stage := .evicting }), [])
      -- `try_send`, with the entry still read
      else if a.queue.length < BACKLOG then
        some (((s.setCall caller none).setActor i (Actor.push (s.questionOf c))).numbered c,
          [.accepted c.device (s.questionOf c)])
      else some (s.setCall caller none, [turnedAway c i])
  | .evicting =>
    -- the removal is of whatever the entry is by now
    if s.locked env c.device then none
    else some ((s.setCall caller (some { c with stage := .creating })).setDevice c.device none, [])
  | .creating =>
    -- the question is in the fresh channel before the map knows of it
    some (((s.setCall caller (some { c with stamp := none, stage := .inserting s.actors.length })).addActor
      (Actor.fresh c.device (s.questionOf c))).numbered c, [.accepted c.device (s.questionOf c)])
  | .inserting i =>
    if s.locked env c.device then none
    else some (((s.setCall caller none).setDevice c.device (some i)).setActor i Actor.spawn, [])

def step (env : BridgeEnv) (s : Bridge) : BridgeAction → Option (Bridge × List BridgeObs)
  | .handle topic payload =>
    match parseTranscription env.topicPrefix topic with
    | none => some (s, [.handled false])
    | some device =>
      match parseTextPayload env.fromSlice payload with
      | none => some (s, [.handled true])
      | some text =>
        some ({ s with calls := s.calls ++
          [some { device := device, text := text, stamp := none, stage := .looking }] },
          [.handled true])
  | .call caller => (s.callOf caller).bind (s.route env caller)
  | .own i b => s.actors[i]?.bind (fun a => (a.step b).map (fun r => (s.setActor i (fun _ => r.1), r.2)))
  | .deregister i =>
    match s.actors[i]? with
    | none => none
    | some a =>
      -- `remove_if`: an entry that is a successor's stays
      if a.phase = .leaving ∧ s.locked env a.device = false then
        let s' := s.setActor i (fun a => { a with phase := .deregistered })
        some (if s.devices a.device = some i then s'.setDevice a.device none else s', [])
      else none

def machine (env : BridgeEnv) : Machine Bridge BridgeAction BridgeObs := ⟨step env⟩

inductive Step (env : BridgeEnv) (s : Bridge) : BridgeAction → Bridge → List BridgeObs → Prop where
  | ignored (topic : Text) (payload : List UInt8) (ours : Bool) :
      Step env s (.handle topic payload) s [.handled ours]
  | arrived (topic : Text) (payload : List UInt8) (device text : Text) :
      Step env s (.handle topic payload)
        { s with calls := s.calls ++ [some { device := device, text := text, stamp := none, stage := .looking }] }
        [.handled true]
  | found (caller : Caller) (c : Call) (i : Nat) (current : s.callOf caller = some c)
      (stage : c.stage = .looking) (entry : s.devices c.device = some i) :
      Step env s (.call caller) (s.setCall caller (some { c with stage := .found i })) []
  | missing (caller : Caller) (c : Call) (current : s.callOf caller = some c) (stage : c.stage = .looking)
      (entry : s.devices c.device = none) :
      Step env s (.call caller) (s.setCall caller (some { c with stage := .creating })) []
  | stale (caller : Caller) (c : Call) (i : Nat) (a : Actor) (current : s.callOf caller = some c)
      (stage : c.stage = .found i) (actor : s.actors[i]? = some a) (closed : a.closed = true) :
      Step env s (.call caller) (s.setCall caller (some { c with stage := .evicting })) []
  | sent (caller : Caller) (c : Call) (i : Nat) (a : Actor) (current : s.callOf caller = some c)
      (stage : c.stage = .found i) (actor : s.actors[i]? = some a) (isOpen : a.closed = false)
      (room : a.queue.length < BACKLOG) :
      Step env s (.call caller)
        (((s.setCall caller none).setActor i (Actor.push (s.questionOf c))).numbered c)
        [.accepted c.device (s.questionOf c)]
  | full (caller : Caller) (c : Call) (i : Nat) (a : Actor) (current : s.callOf caller = some c)
      (stage : c.stage = .found i) (actor : s.actors[i]? = some a) (isOpen : a.closed = false)
      (noRoom : BACKLOG ≤ a.queue.length) :
      Step env s (.call caller) (s.setCall caller none) [turnedAway c i]
  | evicted (caller : Caller) (c : Call) (current : s.callOf caller = some c) (stage : c.stage = .evicting)
      (free : s.locked env c.device = false) :
      Step env s (.call caller)
        ((s.setCall caller (some { c with stage := .creating })).setDevice c.device none) []
  | created (caller : Caller) (c : Call) (current : s.callOf caller = some c) (stage : c.stage = .creating) :
      Step env s (.call caller)
        (((s.setCall caller (some { c with stamp := none, stage := .inserting s.actors.length })).addActor
          (Actor.fresh c.device (s.questionOf c))).numbered c) [.accepted c.device (s.questionOf c)]
  | inserted (caller : Caller) (c : Call) (i : Nat) (current : s.callOf caller = some c)
      (stage : c.stage = .inserting i) (free : s.locked env c.device = false) :
      Step env s (.call caller)
        (((s.setCall caller none).setDevice c.device (some i)).setActor i Actor.spawn) []
  | own (i : Nat) (b : OwnStep) (a a' : Actor) (o : List BridgeObs) (actor : s.actors[i]? = some a)
      (step : a.step b = some (a', o)) : Step env s (.own i b) (s.setActor i (fun _ => a')) o
  | deregistered (i : Nat) (a : Actor) (actor : s.actors[i]? = some a) (phase : a.phase = .leaving)
      (free : s.locked env a.device = false) (entry : s.devices a.device = some i) :
      Step env s (.deregister i)
        ((s.setActor i (fun a => { a with phase := .deregistered })).setDevice a.device none) []
  /-- The entry is a successor's. -/
  | replaced (i : Nat) (a : Actor) (actor : s.actors[i]? = some a) (phase : a.phase = .leaving)
      (free : s.locked env a.device = false) (entry : s.devices a.device ≠ some i) :
      Step env s (.deregister i) (s.setActor i (fun a => { a with phase := .deregistered })) []

theorem route_cases {env : BridgeEnv} {s s' : Bridge} {caller : Caller} {c : Call} {o : List BridgeObs}
    (hc : s.callOf caller = some c) (h : s.route env caller c = some (s', o)) :
    Step env s (.call caller) s' o := by
  unfold route at h
  -- by the stage of the call: it looks, sends, evicts, makes a channel, or enters it
  split at h
  · rename_i hstage
    split at h
    · rename_i i hentry
      cases h
      exact .found caller c i hc hstage hentry
    · rename_i hentry
      cases h
      exact .missing caller c hc hstage hentry
  · rename_i i hstage
    split at h
    · cases h
    · rename_i a ha
      split at h
      · rename_i hclosed
        cases h
        exact .stale caller c i a hc hstage ha hclosed
      · rename_i hopen
        split at h
        · rename_i hroom
          cases h
          exact .sent caller c i a hc hstage ha (by simpa using hopen) hroom
        · rename_i hroom
          cases h
          exact .full caller c i a hc hstage ha (by simpa using hopen) (Nat.le_of_not_lt hroom)
  · rename_i hstage
    split at h
    · cases h
    · rename_i hfree
      cases h
      exact .evicted caller c hc hstage (by simpa using hfree)
  · rename_i hstage
    cases h
    exact .created caller c hc hstage
  · rename_i i hstage
    split at h
    · cases h
    · rename_i hfree
      cases h
      exact .inserted caller c i hc hstage (by simpa using hfree)

/-- **Inversion.** -/
theorem step_cases {env : BridgeEnv} {s s' : Bridge} {a : BridgeAction} {o : List BridgeObs}
    (h : s.step env a = some (s', o)) : Step env s a s' o := by
  cases a with
  | handle topic payload =>
    simp only [step] at h
    split at h
    · cases h
      exact .ignored topic payload false
    · split at h
      · cases h
        exact .ignored topic payload true
      · cases h
        exact .arrived topic payload _ _
  | call caller =>
    obtain ⟨c, hc, hr⟩ := Option.bind_eq_some_iff.mp h
    exact route_cases hc hr
  | own i b =>
    obtain ⟨a, ha, hr⟩ := Option.bind_eq_some_iff.mp h
    obtain ⟨⟨a', obs⟩, hb, he⟩ := Option.map_eq_some_iff.mp hr
    cases he
    exact .own i b a a' obs ha hb
  | deregister i =>
    simp only [step] at h
    split at h
    · cases h
    · rename_i a ha
      split at h
      · rename_i hok
        cases h
        split
        · rename_i hentry
          exact .deregistered i a ha hok.1 hok.2 hentry
        · rename_i hentry
          exact .replaced i a ha hok.1 hok.2 hentry
      · cases h

/-! ## What the updates change -/

section Updates

variable {s : Bridge} {k k' : Caller} {c : Call}

@[simp] theorem callOf_setDevice (device : Text) (i : Option Nat) :
    (s.setDevice device i).callOf k = s.callOf k := by cases k <;> rfl

@[simp] theorem callOf_numbered : (s.numbered c).callOf k = s.callOf k := by cases k <;> rfl

theorem callOf_setActor {i : Nat} {f : Actor → Actor} (h : ∀ a, (f a).call = a.call) :
    (s.setActor i f).callOf k = s.callOf k := by
  cases k with
  | mqtt j => rfl
  | actor j =>
    simp only [callOf, setActor, Slots.getElem?_modify]
    split
    · cases s.actors[j]? with
      | none => rfl
      | some a => exact h a
    · rfl

theorem callOf_addActor {a : Actor} (h : a.call = none) : (s.addActor a).callOf k = s.callOf k := by
  cases k with
  | mqtt j => rfl
  | actor j =>
    simp only [callOf, addActor]
    rcases Nat.lt_trichotomy j s.actors.length with hlt | heq | hgt
    · rw [List.getElem?_append_left hlt]
    · subst heq
      rw [List.getElem?_concat_length, List.getElem?_eq_none (le_refl _)]
      exact h
    · rw [List.getElem?_eq_none (by simp; omega), List.getElem?_eq_none hgt.le]

theorem callOf_setCall (hc : s.callOf k = some c) (c' : Option Call) :
    (s.setCall k c').callOf k' = if k' = k then c' else s.callOf k' := by
  cases k with
  | mqtt i =>
    cases k' with
    | mqtt j =>
      simp only [callOf, setCall, Slots.getElem?_modify] at hc ⊢
      by_cases h : j = i
      · subst h
        obtain ⟨x, hx, -⟩ := Option.bind_eq_some_iff.mp hc
        simp [hx]
      · have h' : ¬ i = j := fun he => h he.symm
        simp [h, h']
    | actor j => simp [callOf, setCall]
  | actor i =>
    cases k' with
    | mqtt j => simp [callOf, setCall, setActor]
    | actor j =>
      simp only [callOf, setCall, setActor, Slots.getElem?_modify] at hc ⊢
      by_cases h : j = i
      · subst h
        obtain ⟨x, hx, -⟩ := Option.bind_eq_some_iff.mp hc
        simp [hx]
      · have h' : ¬ i = j := fun he => h he.symm
        simp [h, h']

@[simp] theorem setCall_devices (c' : Option Call) : (s.setCall k c').devices = s.devices := by
  cases k <;> rfl

@[simp] theorem setCall_accepted (c' : Option Call) : (s.setCall k c').accepted = s.accepted := by
  cases k <;> rfl

theorem actors_setCall (c' : Option Call) (i : Nat) :
    (s.setCall k c').actors[i]? =
      s.actors[i]?.map (fun a => if k = .actor i then { a with call := c' } else a) := by
  cases k with
  | mqtt j => simp [setCall]
  | actor j =>
    simp only [setCall, setActor, Slots.getElem?_modify, Caller.actor.injEq]
    split <;> simp

theorem actors_length_setCall (c' : Option Call) : (s.setCall k c').actors.length = s.actors.length := by
  cases k with
  | mqtt j => rfl
  | actor j => simp [setCall, setActor]

theorem mem_calls (hc : s.callOf k = some c) : some c ∈ s.calls ++ s.actors.map Actor.call := by
  cases k with
  | mqtt j =>
    obtain ⟨x, hx, he⟩ := Option.bind_eq_some_iff.mp hc
    exact List.mem_append_left _ (List.mem_of_getElem? (hx.trans (congrArg some he)))
  | actor j =>
    obtain ⟨a, ha, he⟩ := Option.bind_eq_some_iff.mp hc
    exact List.mem_append_right _ (List.mem_map.mpr ⟨a, List.mem_of_getElem? ha, he⟩)

theorem not_found_of_free {env : BridgeEnv} (hg : env.guarded = true) {device : Text}
    (hfree : s.locked env device = false) (hc : s.callOf k = some c) (hd : c.device = device) (i : Nat) :
    c.stage ≠ .found i := by
  intro hstage
  rw [locked, hg, Bool.true_and, List.any_eq_false] at hfree
  have := hfree (some c) (mem_calls hc)
  simp [Call.holds, hd, hstage] at this

end Updates

end Bridge

end AthenaVoice.Assist
