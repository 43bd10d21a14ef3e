import AthenaVoice.Core.Event
import AthenaVoice.Core.Json
import AthenaVoice.Lib.Machine
import AthenaVoice.Lib.Slots

/-
  The request/reply client over MQTT — `remote/mqtt_client.rs`

  A request makes a channel and routes its session to it; the pump routes every
  response by the session id it carries. Requests are numbered as they are
  made, and a request's number is its channel's place. A receiver that is
  dropped is noticed by the next response: the pump finds the channel closed,
  and removes the session's route in a step of its own. The sender lives in the
  map, so a channel whose route is replaced or removed ends once it is read out.

  A payload is what `serde_json::from_slice` makes of its bytes. The parser of
  session ids is a parameter.

  What is proved:
    1. `removes_dead_routes` — if no request of a session is made while the pump
       is about to remove its route, only routes of dropped receivers are removed.
    2. `responses_delivered_iff` — a request's responses are all delivered, once
       and in order, exactly if each finds the request routed and room in its
       channel.
    3. `reused_route_removed`, `burst_dropped` — runs where neither is so.

  Correspondence (Rust ↔ Lean):
    `MqttProviderClient::routes`      `Client.routes`
    the channel of a request          `Channel`
    `call_streaming`, its insertion   `ClientAction.insert`
    `spawn_pump`                      `ClientAction.pump`, `remove`
    `rx.recv()`, and its drop         `ClientAction.recv`, `drop`
    `extract_session`                 `extractSession`
-/

namespace AthenaVoice.Remote

open Lib CoreTypes

/-- A publish; `request` is the number of the request it answers, and no code reads it. -/
structure Publish where
  topic : Text
  payload : Option Json
  request : Nat

/-- A request's channel; `alive` until its receiver is dropped. -/
structure Channel where
  session : SessionId
  queue : List Publish
  alive : Bool

/-- `MqttProviderClient`, with its channels; `removing` is the session whose route
the pump has found closed. -/
structure Client where
  routes : SessionId → Option Nat
  channels : List Channel
  removing : Option SessionId

inductive ClientAction where
  /-- `mpsc::channel::<Publish>(32)`, and `self.routes.insert(..)`. -/
  | insert (session : SessionId)
  /-- The pump receives a publish; the lookup and the `try_send`. -/
  | pump (p : Publish)
  /-- `routes.remove(&sid)`. -/
  | remove
  | recv (i : Nat)
  /-- The receiver of request `i` is dropped. -/
  | drop (i : Nat)

inductive ClientObs where
  /-- The pump has received a publish. -/
  | pumped (p : Publish)
  | received (i : Nat) (p : Publish)
  /-- `recv` gives `None`. -/
  | closed (i : Nat)

/-- What the client is made with, and the parser of session ids. -/
structure ClientEnv where
  responseTopic : Text
  parse : Text → Option SessionId

/-- The capacity of a request's channel. -/
def RESPONSES : Nat := 32

def sessionText (v : Json) : Option Text := (v.get "session_id".toList).bind Json.asStr

def extractSession (env : ClientEnv) (payload : Option Json) : Option SessionId :=
  ((payload.bind (Json.get "session_id".toList)).bind Json.asStr).bind env.parse

/-- The session a publish is routed by, if it is on the response topic. -/
def ClientEnv.routed (env : ClientEnv) (p : Publish) : Option SessionId :=
  if p.topic = env.responseTopic then extractSession env p.payload else none

/-- `tx.try_send(p)`, there being room. -/
def Channel.push (p : Publish) (c : Channel) : Channel := { c with queue := c.queue ++ [p] }

def Channel.pop (c : Channel) : Channel := { c with queue := c.queue.tail }

/-- The receiver is dropped, with what it has not read. -/
def Channel.close (c : Channel) : Channel := { c with queue := [], alive := false }

namespace Client

def new : Client := { routes := fun _ => none, channels := [], removing := none }

/-- The channel of a request is changed. -/
def setChannel (s : Client) (i : Nat) (f : Channel → Channel) : Client :=
  { s with channels := s.channels.modify i f }

/-- The map with one route changed. -/
def setRoute (s : Client) (session : SessionId) (i : Option Nat) : Client :=
  { s with routes := fun d => if d = session then i else s.routes d }

/-- `call_streaming` up to its publish. -/
def insert (s : Client) (session : SessionId) : Client :=
  { (s.setRoute session (some s.channels.length)) with
    channels := s.channels ++ [{ session := session, queue := [], alive := true }] }

/-- `routes.get(&sid)`, and the `try_send` into what it finds. -/
def dispatch (s : Client) (sid : SessionId) (p : Publish) : Client :=
  match s.routes sid with
  | none => s
  | some i =>
    match s.channels[i]? with
    | none => s
    | some c =>
      -- the map is let go of here, and the route removed in a step of its own
      if c.alive = false then { s with removing := some sid }
      else if c.queue.length < RESPONSES then s.setChannel i (Channel.push p)
      else s  -- `TrySendError::Full` is not looked at

def step (env : ClientEnv) (s : Client) : ClientAction → Option (Client × List ClientObs)
  | .insert session => some (s.insert session, [])
  | .pump p =>
    match s.removing with
    | some _ => none
    | none =>
      match env.routed p with
      | none => some (s, [.pumped p])
      | some sid => some (s.dispatch sid p, [.pumped p])
  | .remove =>
    match s.removing with
    | none => none
    -- by its session, whichever request has the route by now
    | some sid => some ({ (s.setRoute sid none) with removing := none }, [])
  | .recv i =>
    match s.channels[i]? with
    | none => none
    | some c =>
      if c.alive then
        match c.queue with
        | p :: _ => some (s.setChannel i Channel.pop, [.received i p])
        -- the route has the only sender: without it the receiver is told that nothing comes
        | [] => if s.routes c.session = some i then none else some (s, [.closed i])
      else none
  | .drop i =>
    match s.channels[i]? with
    | none => none
    | some c => if c.alive then some (s.setChannel i Channel.close, []) else none

def machine (env : ClientEnv) : Machine Client ClientAction ClientObs := ⟨step env⟩

inductive Step (env : ClientEnv) (s : Client) : ClientAction → Client → List ClientObs → Prop where
  | inserted (session : SessionId) : Step env s (.insert session) (s.insert session) []
  /-- No session is named, or none that has a route. -/
  | ignored (p : Publish) (free : s.removing = none)
      (nobody : ∀ sid i c, env.routed p = some sid → s.routes sid = some i → s.channels[i]? ≠ some c) :
      Step env s (.pump p) s [.pumped p]
  | stale (p : Publish) (sid : SessionId) (i : Nat) (c : Channel) (free : s.removing = none)
      (routed : env.routed p = some sid) (route : s.routes sid = some i) (channel : s.channels[i]? = some c)
      (dead : c.alive = false) : Step env s (.pump p) { s with removing := some sid } [.pumped p]
  | sent (p : Publish) (sid : SessionId) (i : Nat) (c : Channel) (free : s.removing = none)
      (routed : env.routed p = some sid) (route : s.routes sid = some i) (channel : s.channels[i]? = some c)
      (alive : c.alive = true) (room : c.queue.length < RESPONSES) :
      Step env s (.pump p) (s.setChannel i (Channel.push p)) [.pumped p]
  | full (p : Publish) (sid : SessionId) (i : Nat) (c : Channel) (free : s.removing = none)
      (routed : env.routed p = some sid) (route : s.routes sid = some i) (channel : s.channels[i]? = some c)
      (alive : c.alive = true) (noRoom : RESPONSES ≤ c.queue.length) : Step env s (.pump p) s [.pumped p]
  | removed (sid : SessionId) (removing : s.removing = some sid) :
      Step env s .remove { (s.setRoute sid none) with removing := none } []
  | received (i : Nat) (c : Channel) (p : Publish) (rest : List Publish) (channel : s.channels[i]? = some c)
      (alive : c.alive = true) (queue : c.queue = p :: rest) :
      Step env s (.recv i) (s.setChannel i Channel.pop) [.received i p]
  | closed (i : Nat) (c : Channel) (channel : s.channels[i]? = some c) (alive : c.alive = true)
      (queue : c.queue = []) (cut : s.routes c.session ≠ some i) : Step env s (.recv i) s [.closed i]
  | dropped (i : Nat) (c : Channel) (channel : s.channels[i]? = some c) (alive : c.alive = true) :
      Step env s (.drop i) (s.setChannel i Channel.close) []

theorem pump_cases {env : ClientEnv} {s : Client} {p : Publish} {sid : SessionId} (hfree : s.removing = none)
    (hrouted : env.routed p = some sid) : Step env s (.pump p) (s.dispatch sid p) [.pumped p] := by
  unfold dispatch
  split
  · rename_i hroute
    refine .ignored p hfree ?_
    intro sid' i c hr hi
    rw [hrouted] at hr
    cases hr
    rw [hroute] at hi
    cases hi
  · rename_i i hroute
    split
    · rename_i hnone
      refine .ignored p hfree ?_
      intro sid' j c hr hj hc
      rw [hrouted] at hr
      cases hr
      rw [hroute] at hj
      cases hj
      rw [hnone] at hc
      cases hc
    · rename_i c hc
      split
      · rename_i hdead
        exact .stale p sid i c hfree hrouted hroute hc hdead
      · rename_i halive
        split
        · rename_i hroom
          exact .sent p sid i c hfree hrouted hroute hc (by simpa using halive) hroom
        · rename_i hroom
          exact .full p sid i c hfree hrouted hroute hc (by simpa using halive) (Nat.le_of_not_lt hroom)

/-- **Inversion.** -/
theorem step_cases {env : ClientEnv} {s s' : Client} {a : ClientAction} {o : List ClientObs}
    (h : s.step env a = some (s', o)) : Step env s a s' o := by
  cases a with
  | insert session =>
    cases h
    exact .inserted session
  | pump p =>
    simp only [step] at h
    split at h
    · cases h
    -- while the pump removes a route it takes nothing
    · rename_i hfree
      split at h
      · rename_i hnone
        cases h
        refine .ignored p hfree ?_
        intro sid i c hr
        rw [hnone] at hr
        cases hr
      · rename_i sid hrouted
        cases h
        exact pump_cases hfree hrouted
  | remove =>
    simp only [step] at h
    split at h
    · cases h
    · rename_i sid hremoving
      cases h
      exact .removed sid hremoving
  | recv i =>
    simp only [step] at h
    split at h
    · cases h
    · rename_i c hc
      split at h
      · rename_i halive
        split at h
        · rename_i p rest hqueue
          cases h
          exact .received i c p rest hc halive hqueue
        · rename_i hqueue
          split at h
          · cases h
          · rename_i hcut
            cases h
            exact .closed i c hc halive hqueue hcut
      · cases h
  | drop i =>
    simp only [step] at h
    split at h
    · cases h
    · rename_i c hc
      split at h
      · rename_i halive
        cases h
        exact .dropped i c hc halive
      · cases h

end Client

/-! ## Routes -/

/-- Routes are of channels of their session, which hold what was routed to it. -/
structure Client.Routed (env : ClientEnv) (s : Client) : Prop where
  route : ∀ sid i, s.routes sid = some i → ∃ c, s.channels[i]? = some c ∧ c.session = sid
  queued : ∀ (i : Nat) (c : Channel), s.channels[i]? = some c → ∀ p ∈ c.queue, env.routed p = some c.session

namespace Client

section Updates

variable {s : Client} {i j : Nat} {c : Channel} {f : Channel → Channel}

theorem channel_setChannel (f : Channel → Channel) (i j : Nat) :
    (s.setChannel i f).channels[j]? = if i = j then s.channels[j]?.map f else s.channels[j]? :=
  Slots.getElem?_modify f i j

theorem channel_insert {session : SessionId} (h : (s.insert session).channels[j]? = some c) :
    s.channels[j]? = some c ∨ j = s.channels.length ∧ c = { session := session, queue := [], alive := true } := by
  have h' : (s.channels ++ [{ session := session, queue := [], alive := true }])[j]? = some c := h
  rcases Nat.lt_trichotomy j s.channels.length with hlt | heq | hgt
  · rw [List.getElem?_append_left hlt] at h'
    exact Or.inl h'
  · subst heq
    rw [List.getElem?_concat_length] at h'
    exact Or.inr ⟨rfl, (Option.some.inj h').symm⟩
  · rw [List.getElem?_eq_none (by simp; omega)] at h'
    cases h'

theorem channel_insert_of_some {session : SessionId} (h : s.channels[j]? = some c) :
    (s.insert session).channels[j]? = some c :=
  (List.getElem?_append_left (List.getElem?_eq_some_iff.mp h).1).trans h

theorem route_insert (session sid : SessionId) :
    (s.insert session).routes sid = if sid = session then some s.channels.length else s.routes sid := rfl

end Updates

theorem routed_new (env : ClientEnv) : Routed env new where
  route := by intro sid i h; cases h
  queued := by intro i c h; cases h

theorem Routed.set {env : ClientEnv} {s : Client} {i : Nat} {f : Channel → Channel} (R : Routed env s)
    (hsession : ∀ c, (f c).session = c.session)
    (hqueue : ∀ c, s.channels[i]? = some c → ∀ p ∈ (f c).queue, env.routed p = some c.session) :
    Routed env (s.setChannel i f) := by
  refine ⟨?_, ?_⟩
  · intro sid j hroute
    obtain ⟨c, hc, hsid⟩ := R.route sid j hroute
    rw [channel_setChannel, hc]
    split
    · exact ⟨f c, rfl, (hsession c).trans hsid⟩
    · exact ⟨c, rfl, hsid⟩
  · intro j c hc p hp
    rcases Slots.modify_cases hc with ⟨-, hold⟩ | ⟨hij, c₀, hc₀, rfl⟩
    · exact R.queued j c hold p hp
    · subst hij
      rw [hsession]
      exact hqueue c₀ hc₀ p hp

/-- **One step.** -/
theorem routed_step {env : ClientEnv} {s s' : Client} {a : ClientAction} {o : List ClientObs} (R : Routed env s)
    (hs : s.step env a = some (s', o)) : Routed env s' := by
  cases step_cases hs with
  | inserted session =>
    refine ⟨?_, ?_⟩
    · intro sid i hroute
      rw [route_insert] at hroute
      split at hroute
      · rename_i hsid
        cases hroute
        exact ⟨_, List.getElem?_concat_length, hsid.symm⟩
      · obtain ⟨c, hc, hsid⟩ := R.route sid i hroute
        exact ⟨c, channel_insert_of_some hc, hsid⟩
    · intro i c hc p hp
      rcases channel_insert hc with hold | ⟨-, rfl⟩
      · exact R.queued i c hold p hp
      · cases hp
  | ignored p hfree hnobody => exact R
  | stale p sid i c hfree hrouted hroute hc hdead => exact ⟨R.route, R.queued⟩
  | sent p sid i c hfree hrouted hroute hc halive hroom =>
    apply R.set (f := Channel.push p) (fun _ => rfl)
    intro c₀ hc₀ q hq
    obtain ⟨c₁, hc₁, hsid⟩ := R.route sid i hroute
    rw [hc₀] at hc₁
    cases hc₁
    rcases List.mem_append.mp hq with hold | hnew
    · exact R.queued i c₀ hc₀ q hold
    · rw [List.mem_singleton.mp hnew, hsid]
      exact hrouted
  | full p sid i c hfree hrouted hroute hc halive hfull => exact R
  | removed sid hremoving =>
    refine ⟨?_, R.queued⟩
    intro sid' i hroute
    simp only [setRoute] at hroute
    split at hroute
    · cases hroute
    · exact R.route sid' i hroute
  | received i c p rest hc halive hqueue =>
    exact R.set (fun _ => rfl) (fun c₀ hc₀ q hq => R.queued i c₀ hc₀ q (List.mem_of_mem_tail hq))
  | closed i c hc halive hqueue hcut => exact R
  | dropped i c hc halive => exact R.set (fun _ => rfl) (fun c₀ hc₀ q hq => (by cases hq))

theorem removing_step {env : ClientEnv} {s s' : Client} {a : ClientAction} {o : List ClientObs} {sid : SessionId}
    (R : Routed env s) (hs : s.step env a = some (s', o)) (hremoving : s'.removing = some sid) :
    s.removing = some sid ∨ sid ∈ s.channels.map Channel.session := by
  cases step_cases hs with
  | stale p sid' i c hfree hrouted hroute hc hdead =>
    cases hremoving
    obtain ⟨d, hd, hsid⟩ := R.route sid i hroute
    exact Or.inr (List.mem_map.mpr ⟨d, List.mem_of_getElem? hd, hsid⟩)
  | removed sid' hfound => cases hremoving
  | _ => exact Or.inl hremoving

/-- No route is made, and no channel changes its session. -/
structure Keeps (s s' : Client) : Prop where
  sessions : s'.channels.map Channel.session = s.channels.map Channel.session
  routes : ∀ sid k, s'.routes sid = some k → s.routes sid = some k

theorem Keeps.rfl {s : Client} : s.Keeps s := ⟨Eq.refl _, fun _ _ h => h⟩

theorem Keeps.set {s : Client} {i : Nat} {f : Channel → Channel} (h : ∀ c, (f c).session = c.session) :
    s.Keeps (s.setChannel i f) := ⟨Slots.map_modify (fun c _ => h c), fun _ _ h => h⟩

theorem step_keeps {env : ClientEnv} {s s' : Client} {a : ClientAction} {o : List ClientObs}
    (hs : s.step env a = some (s', o)) (hnot : ∀ session, a ≠ .insert session) : s.Keeps s' := by
  cases step_cases hs with
  | inserted session => exact absurd (Eq.refl _) (hnot session)
  | ignored p hfree hnobody => exact .rfl
  | stale p sid i c hfree hrouted hroute hc hdead => exact ⟨Eq.refl _, fun _ _ h => h⟩
  | sent p sid i c hfree hrouted hroute hc halive hroom => exact .set (fun _ => Eq.refl _)
  | full p sid i c hfree hrouted hroute hc halive hfull => exact .rfl
  | removed sid hremoving =>
    refine ⟨Eq.refl _, ?_⟩
    intro sid' k hroute
    simp only [setRoute] at hroute
    split at hroute
    · cases hroute
    · exact hroute
  | received i c p rest hc halive hqueue => exact .set (fun _ => Eq.refl _)
  | closed i c hc halive hqueue hcut => exact .rfl
  | dropped i c hc halive => exact .set (fun _ => Eq.refl _)

/-! ## Removal -/

/-- The pump's removal takes out the route of a dropped receiver, or none. -/
def RemovesDead (s : Client) : ClientAction → Prop
  | .remove => ∀ sid i c, s.removing = some sid → s.routes sid = some i → s.channels[i]? = some c →
      c.alive = false
  | .insert _ | .pump _ | .recv _ | .drop _ => True

/-- No request of the session whose route is about to be removed is made. -/
def apart (s : Client) : ClientAction → Bool
  | .insert session => s.removing ≠ some session
  | .pump _ | .remove | .recv _ | .drop _ => true

theorem removesDead_step {env : ClientEnv} {s s' : Client} {a : ClientAction} {o : List ClientObs} (R : Routed env s)
    (D : s.RemovesDead .remove) (hok : s.apart a = true) (hs : s.step env a = some (s', o)) :
    s'.RemovesDead .remove := by
  have hset : ∀ {i : Nat} {f : Channel → Channel}, (∀ c, c.alive = false → (f c).alive = false) →
      (s.setChannel i f).RemovesDead .remove := by
    intro i f hf sid j c hremoving hroute hc
    rcases Slots.modify_cases hc with ⟨-, hold⟩ | ⟨-, c₀, hc₀, rfl⟩
    · exact D sid j c hremoving hroute hold
    · exact hf c₀ (D sid j c₀ hremoving hroute hc₀)
  cases step_cases hs with
  | inserted session =>
    intro sid i c hremoving hroute hc
    -- the new route is of another session than the one to be removed
    have hne : sid ≠ session := by
      intro heq
      have hremoving' : s.removing = some session := heq ▸ hremoving
      simp [apart, hremoving'] at hok
    rw [route_insert, if_neg hne] at hroute
    obtain ⟨c₀, hc₀, -⟩ := R.route sid i hroute
    rw [channel_insert_of_some hc₀] at hc
    cases hc
    exact D sid i c hremoving hroute hc₀
  | ignored p hfree hnobody => exact D
  | stale p sid i c hfree hrouted hroute hc hdead =>
    intro sid' j d hremoving hroute' hd
    cases hremoving
    rw [hroute] at hroute'
    cases hroute'
    rw [hc] at hd
    cases hd
    exact hdead
  | sent p sid i c hfree hrouted hroute hc halive hroom => exact hset (fun _ h => h)
  | full p sid i c hfree hrouted hroute hc halive hfull => exact D
  | removed sid hremoving => intro sid' i c h; cases h
  | received i c p rest hc halive hqueue => exact hset (fun _ h => h)
  | closed i c hc halive hqueue hcut => exact D
  | dropped i c hc halive => exact hset (fun _ _ => rfl)

/-- **Only dead routes are removed**, in every run in which no request of a
session is made between the pump's failed `try_send` on its route and the
removal. -/
theorem removes_dead_routes (env : ClientEnv) (as : List ClientAction)
    (hok : (machine env).Along (fun _ s a => s.apart a = true) [] new as) :
    (machine env).Along (fun _ s a => s.RemovesDead a) [] new as := by
  refine Machine.along_imp (P := fun _ s => Routed env s ∧ s.RemovesDead .remove) ?_ ?_ as [] new
    ⟨routed_new env, by intro sid i c h; cases h⟩ hok
  · intro h s a s' o hP hok hs
    exact ⟨routed_step hP.1 hs, removesDead_step hP.1 hP.2 hok hs⟩
  · intro h s a hP _
    cases a with
    | remove => exact hP.2
    | _ => trivial

/-- A client whose session ids are their lengths. -/
def testEnv : ClientEnv := { responseTopic := "response".toList, parse := fun t => some t.length }

/-- An answer to request `r`, of session 1. -/
def answer (r : Nat) (done : Bool) : Publish :=
  { topic := "response".toList
    payload := some (.object [("session_id".toList, .string ['x']), ("done".toList, .bool done)])
    request := r }

/-- A stream is abandoned, its next response finds the channel closed, and the
route is removed before the next request of the session. -/
def abandonedOnce : List ClientAction :=
  [.insert 1, .drop 0, .pump (answer 0 false), .remove, .insert 1, .pump (answer 1 true), .recv 1]

theorem abandonedOnce_removes_dead : (machine testEnv).Along (fun _ s a => s.apart a = true) [] new abandonedOnce ∧
    (machine testEnv).Along (fun _ s a => s.RemovesDead a) [] new abandonedOnce := by
  have hok : (machine testEnv).Along (fun _ s a => s.apart a = true) [] new abandonedOnce := by decide
  exact ⟨hok, removes_dead_routes testEnv abandonedOnce hok⟩

/-- The next request of the session is made before the removal. -/
def reusedRoute : List ClientAction := [.insert 1, .drop 0, .pump (answer 0 false), .insert 1]

/-- Its route goes though its receiver is alive, and its stream ends with nothing received. -/
theorem reused_route_removed :
    (∃ s, (machine testEnv).run new (reusedRoute ++ [.remove, .recv 1]) =
      some (s, [.pumped (answer 0 false), .closed 1])) ∧
    ¬ (machine testEnv).Along (fun _ s a => s.RemovesDead a) [] new (reusedRoute ++ [.remove]) := by
  refine ⟨⟨_, rfl⟩, ?_⟩
  intro halong
  have hlast := Machine.along_last (M := machine testEnv) reusedRoute .remove [] _ new _ halong rfl
  exact absurd (hlast 1 1 { session := 1, queue := [], alive := true } rfl rfl rfl) nofun

/-! ## Delivery -/

end Client

/-- The publish for request `r` that its receiver takes, if the observation is one. -/
def ClientObs.takes (r : Nat) : ClientObs → Option Publish
  | .received i p => if i = r ∧ p.request = r then some p else none
  | .pumped _ | .closed _ => none

/-- The response of session `sid` to request `r` that the pump receives, if it is one. -/
def ClientObs.answers (env : ClientEnv) (sid : SessionId) (r : Nat) : ClientObs → Option Publish
  | .pumped p => if p.request = r ∧ env.routed p = some sid then some p else none
  | .received .. | .closed _ => none

/-- What the receiver of request `r` has taken of its responses. -/
def takenFor (r : Nat) (h : List ClientObs) : List Publish := h.filterMap (ClientObs.takes r)

/-- The responses to request `r` that the pump has received. -/
def answersFor (env : ClientEnv) (sid : SessionId) (r : Nat) (h : List ClientObs) : List Publish :=
  h.filterMap (ClientObs.answers env sid r)

@[simp] theorem takenFor_append (r : Nat) (h h' : List ClientObs) :
    takenFor r (h ++ h') = takenFor r h ++ takenFor r h' := List.filterMap_append

@[simp] theorem answersFor_append (env : ClientEnv) (sid : SessionId) (r : Nat) (h h' : List ClientObs) :
    answersFor env sid r (h ++ h') = answersFor env sid r h ++ answersFor env sid r h' := List.filterMap_append

theorem takenFor_pumped (r : Nat) (p : Publish) : takenFor r [.pumped p] = [] := rfl

theorem takenFor_closed (r i : Nat) : takenFor r [.closed i] = [] := rfl

theorem answersFor_closed (env : ClientEnv) (sid : SessionId) (r i : Nat) : answersFor env sid r [.closed i] = [] := rfl

theorem answersFor_pumped (env : ClientEnv) (sid : SessionId) (r : Nat) (p : Publish) :
    answersFor env sid r [.pumped p] = if p.request = r ∧ env.routed p = some sid then [p] else [] := by
  by_cases h : p.request = r ∧ env.routed p = some sid <;> simp [answersFor, ClientObs.answers, h]

namespace Client

/-- The responses to request `r` that wait in its channel. -/
def unreadFor (s : Client) (r : Nat) : List Publish :=
  match s.channels[r]? with
  | none => []
  | some c => c.queue.filter (fun p => p.request = r)

/-- If the pump receives a response to request `r`, the session's route is the
request's, and its channel has room. -/
def ready (env : ClientEnv) (sid : SessionId) (r : Nat) (s : Client) : ClientAction → Bool
  | .pump p =>
    if p.request = r ∧ env.routed p = some sid then
      s.routes sid = some r && s.channels[r]?.any (fun c => c.queue.length < RESPONSES)
    else true
  | .insert _ | .remove | .recv _ | .drop _ => true

/-- Request `r` is not one of session `sid` that is still read. -/
def Void (sid : SessionId) (r : Nat) (s : Client) : Prop :=
  ∃ c, s.channels[r]? = some c ∧ (c.alive = false ∨ c.session ≠ sid)

theorem unreadFor_setChannel {s : Client} {r i : Nat} {f : Channel → Channel} (hne : i ≠ r) :
    (s.setChannel i f).unreadFor r = s.unreadFor r := by
  simp only [unreadFor, channel_setChannel, if_neg hne]

theorem unreadFor_setChannel_self {s : Client} {r : Nat} {c : Channel} {f : Channel → Channel}
    (hc : s.channels[r]? = some c) :
    (s.setChannel r f).unreadFor r = (f c).queue.filter (fun p => p.request = r) := by
  simp [unreadFor, channel_setChannel, hc]

theorem void_step {env : ClientEnv} {s s' : Client} {a : ClientAction} {o : List ClientObs} {sid : SessionId}
    {r : Nat} (V : Void sid r s) (hs : s.step env a = some (s', o)) : Void sid r s' := by
  obtain ⟨c, hc, hvoid⟩ := V
  have hset : ∀ {i : Nat} {f : Channel → Channel}, (∀ d, (f d).session = d.session) →
      (∀ d, d.alive = false → (f d).alive = false) → Void sid r (s.setChannel i f) := by
    intro i f hsession halive
    rw [Void, channel_setChannel, hc]
    split
    · exact ⟨f c, rfl, hvoid.imp (halive c) (fun h => by rw [hsession]; exact h)⟩
    · exact ⟨c, rfl, hvoid⟩
  cases step_cases hs with
  | inserted session => exact ⟨c, channel_insert_of_some hc, hvoid⟩
  | ignored p hfree hnobody => exact ⟨c, hc, hvoid⟩
  | stale p sid' i d hfree hrouted hroute hd hdead => exact ⟨c, hc, hvoid⟩
  | sent p sid' i d hfree hrouted hroute hd halive hroom => exact hset (fun _ => rfl) (fun _ h => h)
  | full p sid' i d hfree hrouted hroute hd halive hfull => exact ⟨c, hc, hvoid⟩
  | removed sid' hremoving => exact ⟨c, hc, hvoid⟩
  | received i d p rest hd halive hqueue => exact hset (fun _ => rfl) (fun _ h => h)
  | closed i d hd halive hqueue hcut => exact ⟨c, hc, hvoid⟩
  | dropped i d hd halive => exact hset (fun _ => rfl) (fun _ _ => rfl)

theorem unreadFor_insert {s : Client} {session : SessionId} {r : Nat} :
    (s.insert session).unreadFor r = s.unreadFor r := by
  unfold unreadFor
  cases hc : s.channels[r]? with
  | some c => rw [channel_insert_of_some hc]
  | none =>
    cases hc' : (s.insert session).channels[r]? with
    | none => rfl
    | some c =>
      rcases channel_insert hc' with hold | ⟨-, rfl⟩
      · rw [hc] at hold
        cases hold
      · rfl

/-- A publish that is not put in the request's channel is none of its responses,
or the step was not ready for it. -/
theorem missed {env : ClientEnv} {s s' : Client} {sid : SessionId} {r : Nat} {p : Publish}
    (hunread : s'.unreadFor r = s.unreadFor r)
    (hnot : p.request = r → env.routed p = some sid → ready env sid r s (.pump p) = false) :
    (takenFor r [.pumped p] ++ s'.unreadFor r = s.unreadFor r ++ answersFor env sid r [.pumped p] ∧
        ready env sid r s (.pump p) = true) ∨
      (takenFor r [.pumped p] ++ s'.unreadFor r = s.unreadFor r ∧ ready env sid r s (.pump p) = false ∧
        0 < (answersFor env sid r [.pumped p]).length) := by
  rw [takenFor_pumped, answersFor_pumped, List.nil_append]
  by_cases hours : p.request = r ∧ env.routed p = some sid
  · refine Or.inr ⟨hunread, hnot hours.1 hours.2, ?_⟩
    rw [if_pos hours]
    exact Nat.one_pos
  · refine Or.inl ⟨?_, by simp [ready, hours]⟩
    rw [if_neg hours, List.append_nil]
    exact hunread

/-- What the pump receives for request `r` in one step is there to be taken if
the step is ready for it, and lost otherwise. -/
theorem delivered_step {env : ClientEnv} {s s' : Client} {a : ClientAction} {o : List ClientObs} {sid : SessionId}
    {r : Nat} (R : Routed env s) (hlive : ¬ Void sid r s') (hs : s.step env a = some (s', o)) :
    (takenFor r o ++ s'.unreadFor r = s.unreadFor r ++ answersFor env sid r o ∧ ready env sid r s a = true) ∨
      (takenFor r o ++ s'.unreadFor r = s.unreadFor r ∧ ready env sid r s a = false ∧
        0 < (answersFor env sid r o).length) := by
  have hlive₀ : ¬ Void sid r s := fun V => hlive (void_step V hs)
  cases step_cases hs with
  | inserted session => exact Or.inl ⟨by simp [takenFor, answersFor, unreadFor_insert], rfl⟩
  | ignored p hfree hnobody =>
    apply missed rfl
    intro hp hrouted
    by_contra hready
    simp only [ready, hp, hrouted, and_self, if_true, Bool.not_eq_false, Bool.and_eq_true, decide_eq_true_eq,
      Option.any_eq_true] at hready
    obtain ⟨hroute, c, hc, -⟩ := hready
    exact hnobody sid r c hrouted hroute hc
  | stale p sid' i c hfree hrouted hroute hc hdead =>
    apply missed rfl
    intro hp hrouted'
    by_contra hready
    rw [hrouted] at hrouted'
    cases hrouted'
    simp only [ready, hp, hrouted, and_self, if_true, Bool.not_eq_false, Bool.and_eq_true,
      decide_eq_true_eq] at hready
    have hir : i = r := Option.some.inj (hroute.symm.trans hready.1)
    subst hir
    exact hlive₀ ⟨c, hc, Or.inl hdead⟩
  | sent p sid' i c hfree hrouted hroute hc halive hroom =>
    by_cases hir : i = r
    · subst hir
      obtain ⟨c₀, hc₀, hsession⟩ := R.route sid' i hroute
      rw [hc] at hc₀
      cases hc₀
      -- the route found is of the channel's session, which is the one that is read
      have hsid : sid' = sid := by
        by_contra hne
        exact hlive₀ ⟨c, hc, Or.inr (fun h => hne (hsession.symm.trans h))⟩
      subst hsid
      have hunread : s.unreadFor i = c.queue.filter (fun q => q.request = i) := by simp [unreadFor, hc]
      refine Or.inl ⟨?_, ?_⟩
      · rw [unreadFor_setChannel_self hc, hunread]
        by_cases hp : p.request = i <;>
          simp [takenFor, ClientObs.takes, answersFor, ClientObs.answers, Channel.push, hp, hrouted]
      · simp [ready, hroute, hc, hroom]
    · apply missed (unreadFor_setChannel hir)
      intro hp hrouted'
      rw [hrouted] at hrouted'
      cases hrouted'
      simp [ready, hp, hrouted, hroute, hir]
  | full p sid' i c hfree hrouted hroute hc halive hfull =>
    apply missed rfl
    intro hp hrouted'
    rw [hrouted] at hrouted'
    cases hrouted'
    by_cases hir : i = r
    · subst hir
      simp [ready, hp, hrouted, hc, hfull]
    · simp [ready, hp, hrouted, hroute, hir]
  | removed sid' hremoving => exact Or.inl ⟨by simp [takenFor, answersFor, unreadFor, setRoute], rfl⟩
  | received i c p rest hc halive hqueue =>
    refine Or.inl ⟨?_, rfl⟩
    by_cases hir : i = r
    · subst hir
      rw [unreadFor_setChannel_self hc]
      by_cases hp : p.request = i <;>
        simp [takenFor, ClientObs.takes, answersFor, ClientObs.answers, unreadFor, Channel.pop, hc, hqueue, hp]
    · rw [unreadFor_setChannel hir]
      simp [takenFor, ClientObs.takes, answersFor, ClientObs.answers, hir]
  | closed i c hc halive hqueue hcut =>
    exact Or.inl ⟨by rw [takenFor_closed, answersFor_closed, List.append_nil, List.nil_append], rfl⟩
  | dropped i c hc halive =>
    by_cases hir : i = r
    · subst hir
      -- a receiver that is dropped reads no more
      exact absurd ⟨_, by rw [channel_setChannel, if_pos rfl, hc]; rfl, Or.inl rfl⟩ hlive
    · exact Or.inl ⟨by simp [takenFor, answersFor, unreadFor_setChannel hir], rfl⟩

/-- **Delivery.** Over a run at whose end request `r` is still read: what its
receiver has taken of its responses, and what waits for it, is all the pump has
received for it, in order, exactly if each response found the session's route
the request's own and fewer than 32 responses unread. -/
theorem responses_delivered_iff (env : ClientEnv) (as : List ClientAction) (s : Client) (h : List ClientObs)
    (hrun : (machine env).run new as = some (s, h)) (r : Nat) (c : Channel) (hc : s.channels[r]? = some c)
    (halive : c.alive = true) :
    takenFor r h ++ s.unreadFor r = answersFor env c.session r h ↔
      (machine env).Along (fun _ s a => ready env c.session r s a = true) [] new as := by
  have hlive : ¬ Void c.session r s := by
    intro V
    obtain ⟨d, hd, hvoid⟩ := V
    rw [hc] at hd
    cases hd
    rcases hvoid with hdead | hother
    · rw [halive] at hdead
      cases hdead
    · exact hother rfl
  -- a response once missed stays missed: the lengths differ from then on
  have hor := Machine.along_or_lost (M := machine env) (C := fun _ s a => ready env c.session r s a = true)
    (P := fun h s => Routed env s ∧ (Void c.session r s ∨
      takenFor r h ++ s.unreadFor r = answersFor env c.session r h))
    (Q := fun h s => Routed env s ∧ (Void c.session r s ∨
      (takenFor r h ++ s.unreadFor r).length < (answersFor env c.session r h).length))
    ?_ ?_ ?_ as [] new s h ⟨routed_new env, Or.inr rfl⟩ hrun
  · rcases hor with ⟨halong, -, hkept⟩ | ⟨hnot, -, hlost⟩
    · exact ⟨fun _ => halong, fun _ => hkept.resolve_left hlive⟩
    · refine ⟨?_, fun halong => absurd halong hnot⟩
      intro heq
      have hless := hlost.resolve_left hlive
      simp only [List.nil_append] at hless
      rw [heq] at hless
      exact absurd hless (lt_irrefl _)
  · intro h s a s' o hP hok hs
    refine ⟨routed_step hP.1 hs, ?_⟩
    by_cases hV : Void c.session r s'
    · exact Or.inl hV
    · have heq := hP.2.resolve_left (fun V => hV (void_step V hs))
      rcases delivered_step hP.1 hV hs with ⟨hkept, -⟩ | ⟨-, hnot, -⟩
      · refine Or.inr ?_
        rw [takenFor_append, answersFor_append, List.append_assoc, hkept, ← List.append_assoc, heq]
      · rw [hok] at hnot
        cases hnot
  · intro h s a s' o hP hnot hs
    refine ⟨routed_step hP.1 hs, ?_⟩
    by_cases hV : Void c.session r s'
    · exact Or.inl hV
    · have heq := hP.2.resolve_left (fun V => hV (void_step V hs))
      rcases delivered_step hP.1 hV hs with ⟨-, hok⟩ | ⟨hkept, -, hpos⟩
      · exact absurd hok hnot
      · refine Or.inr ?_
        rw [takenFor_append, answersFor_append, List.append_assoc, hkept, heq, List.length_append]
        omega
  · intro h s a s' o hQ hs
    refine ⟨routed_step hQ.1 hs, ?_⟩
    by_cases hV : Void c.session r s'
    · exact Or.inl hV
    · have hless := hQ.2.resolve_left (fun V => hV (void_step V hs))
      refine Or.inr ?_
      rw [takenFor_append, answersFor_append, List.append_assoc]
      rcases delivered_step hQ.1 hV hs with ⟨hkept, -⟩ | ⟨hkept, -, -⟩
      · rw [hkept]
        simp only [List.length_append] at hless ⊢
        omega
      · rw [hkept]
        simp only [List.length_append] at hless ⊢
        omega

/-- A burst of `n` chunks and the done marker, with the reader late. -/
def burst (n : Nat) : List ClientAction :=
  .insert 1 :: (List.replicate n (.pump (answer 0 false)) ++ [.pump (answer 0 true)])

/-- Two chunks and the marker are all delivered. -/
theorem shortBurst_delivered : ∃ s h c, (machine testEnv).run new (burst 2 ++ [.recv 0]) = some (s, h) ∧
    s.channels[0]? = some c ∧ c.alive = true ∧
    takenFor 0 h ++ s.unreadFor 0 = answersFor testEnv c.session 0 h := by
  refine ⟨_, _, _, rfl, rfl, rfl, ?_⟩
  refine (responses_delivered_iff testEnv (burst 2 ++ [.recv 0]) _ _ rfl 0 _ rfl rfl).mpr ?_
  decide

/-- Of 32 chunks and the marker, the marker is dropped. -/
theorem burst_dropped : ∃ s h c, (machine testEnv).run new (burst 32) = some (s, h) ∧
    s.channels[0]? = some c ∧ c.alive = true ∧ takenFor 0 h = [] ∧
    s.unreadFor 0 = List.replicate 32 (answer 0 false) ∧
    answersFor testEnv c.session 0 h = List.replicate 32 (answer 0 false) ++ [answer 0 true] := by
  exact ⟨_, _, _, rfl, rfl, rfl, rfl, rfl, rfl⟩

end Client

end AthenaVoice.Remote
