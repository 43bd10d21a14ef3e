import AthenaVoice.Lib.Machine
import AthenaVoice.Wasm.Registry

/-
  The skill dispatcher — `wasm/dispatcher.rs`, with `SkillRegistry::dispatch`

  One actor takes requests from a mailbox of 64, one at a time. It tells the bus,
  runs the plugin on a blocking thread and answers. The plugin stands behind a
  mutex, which a panic of the guest poisons: `dispatch` unwraps the lock, so the
  next request panics in its turn, before the guest is entered.

  The registry is everybody's: skills are loaded and removed between any two
  steps, also while one of them runs. What the guest returns, or that it panics,
  is a choice of the outside world, and so is a join error. A request carries
  its number; nobody reads it. The collection a dispatch spawns is the one of
  `HostFns`; here only its subtraction matters.

  What is proved:
    1. `dispatched_in_order` — requests are run one at a time, in order, each once,
       and are answered with what came of their own run.
    2. `panic_quarantined` — an instance that has panicked is never entered again.

  Correspondence (Rust ↔ Lean):
    `DispatchRequest`                  `DispatchRequest`
    `SkillDispatcherHandle::dispatch`  `ask`
    `SkillDispatcher::spawn`           `take`, `stop`
    `handle_one`                       `DispatchPhase`, `Dispatcher.handleOne`
    `SkillRegistry::dispatch`          its phases `looking`, `locking`, `handling`
-/

namespace AthenaVoice.Wasm

open Lib CoreTypes
open Sdk (SkillResult SkillError)

/-- `DispatchRequest`, with its number. -/
structure DispatchRequest where
  ticket : Nat
  session : SessionId
  skill : Text
  intent : Sdk.Intent
  deriving DecidableEq

/-- What a call of the guest comes to. -/
inductive GuestRun where
  | returned (result : SkillResult)
  | panicked (reason : Text)
  deriving DecidableEq

inductive DispatchPhase where
  /-- `select!`. -/
  | waiting
  /-- `event_tx.send(Event::SkillInvoked ..)`. -/
  | invoking (req : DispatchRequest)
  /-- The blocking thread: the clock, and `plugins.get(skill)`. -/
  | looking (req : DispatchRequest)
  /-- `plugin.lock().unwrap().ctx()`. -/
  | locking (req : DispatchRequest) (handle : Nat) (nowSec : UInt64)
  /-- `guard.handle(&intent)`. -/
  | handling (req : DispatchRequest) (handle : Nat)
  /-- `event_tx.send(Event::SkillPanicked ..)`. -/
  | reporting (req : DispatchRequest) (reason : Text)
  /-- `reply_tx.send(outcome)`. -/
  | answering (req : DispatchRequest) (outcome : SkillResult)
  | stopped
  deriving DecidableEq

/-- The actor, its mailbox, and the registry with the plugins whose mutex is poisoned. -/
structure Dispatcher where
  registry : Registry
  poisoned : List Nat
  mailbox : List DispatchRequest
  /-- How many requests were made. -/
  asked : Nat
  cancelled : Bool
  hungUp : Bool
  phase : DispatchPhase

/-- What the build and the plugins' settings decide: whether differences are
checked, and `retention_gc_after_sec` of an instance that has a context. -/
structure DispatchDeps where
  checks : Bool
  retention : Nat → Option UInt64

/-- What the outside world decides of the actor's next step: the clock, or its
error; what the guest does; and a join error, if the thread never ran. -/
structure Chance where
  clock : Except Text UInt64
  guest : GuestRun
  joinError : Option Text

inductive DispatchAction where
  /-- A caller enqueues a request. -/
  | ask (session : SessionId) (skill : Text) (intent : Sdk.Intent)
  /-- Anyone's operation on the registry. -/
  | registry (a : RegistryAction)
  /-- The mailbox is read. -/
  | take
  | handleOne (chance : Chance)
  | cancel
  /-- The last handle is dropped. -/
  | hangUp
  /-- The loop ends. -/
  | stop

inductive DispatchObs where
  | accepted (req : DispatchRequest)
  | refused (req : DispatchRequest)
  | invoked (req : DispatchRequest)
  /-- The registry names the instance that serves a request. -/
  | found (req : DispatchRequest) (handle : Nat)
  | ran (handle : Nat) (req : DispatchRequest) (run : GuestRun)
  /-- The mutex of an instance is poisoned. -/
  | poisoned (handle : Nat)
  | panicked (req : DispatchRequest) (reason : Text)
  | answered (req : DispatchRequest) (outcome : SkillResult)
  /-- The reply's sender is dropped. -/
  | dropped (req : DispatchRequest)
  deriving DecidableEq

def mailboxSize : Nat := 64

/-- What `unwrap` panics with on a poisoned mutex. -/
def poisonReason : Text := "called `Result::unwrap()` on an `Err` value: PoisonError \x7b .. \x7d".toList

/-- What a checked subtraction panics with. -/
def overflowReason : Text := "attempt to subtract with overflow".toList

def unknownSkill (skill : Text) : SkillResult := .err (.custom ("unknown skill: ".toList ++ skill))

def timeError (e : Text) : SkillResult := .err (.custom ("time error: ".toList ++ e))

def skillPanicked (reason : Text) : SkillResult := .err (.custom ("skill panicked: ".toList ++ reason))

def dispatchCancelled (e : Text) : SkillResult := .err (.custom ("dispatch cancelled: ".toList ++ e))

def mutexPoisoned : SkillResult := .err (.custom "skill plugin mutex poisoned".toList)

namespace Dispatcher

def spawn (registry : Registry) : Dispatcher :=
  { registry := registry, poisoned := [], mailbox := [], asked := 0, cancelled := false, hungUp := false,
    phase := .waiting }

/-- The retention's threshold is computed: `now_sec - gc_sec`. -/
def overflows (deps : DispatchDeps) (handle : Nat) (nowSec : UInt64) : Bool :=
  match deps.retention handle with
  | some gcSec => decide (gcSec > 0) && (deps.checks && decide (nowSec < gcSec))
  | none => false

/-- The next step of `handle_one`. -/
def handleOne (deps : DispatchDeps) (s : Dispatcher) (chance : Chance) : Option (Dispatcher × List DispatchObs) :=
  match s.phase with
  | .waiting | .stopped => none
  | .invoking req => some ({ s with phase := .looking req }, [.invoked req])
  | .looking req =>
    match chance.joinError with
    | some e => some ({ s with phase := .answering req (dispatchCancelled e) }, [])
    | none =>
      match chance.clock with
      | .error e => some ({ s with phase := .answering req (timeError e) }, [])
      | .ok nowSec =>
        match s.registry.plugins.lookup req.skill with
        | none => some ({ s with phase := .answering req (unknownSkill req.skill) }, [])
        | some handle => some ({ s with phase := .locking req handle nowSec }, [.found req handle])
  | .locking req handle nowSec =>
    if handle ∈ s.poisoned then some ({ s with phase := .reporting req poisonReason }, [])
    -- the guard lives as long as the block, so the panic poisons the mutex
    else if overflows deps handle nowSec then
      some ({ s with phase := .reporting req overflowReason, poisoned := handle :: s.poisoned }, [.poisoned handle])
    else some ({ s with phase := .handling req handle }, [])
  | .handling req handle =>
    if handle ∈ s.poisoned then some ({ s with phase := .answering req mutexPoisoned }, [])
    else
      match chance.guest with
      | .returned result =>
        some ({ s with phase := .answering req result }, [.ran handle req (.returned result)])
      | .panicked reason =>
        some ({ s with phase := .reporting req reason, poisoned := handle :: s.poisoned },
          [.ran handle req (.panicked reason), .poisoned handle])
  | .reporting req reason =>
    some ({ s with phase := .answering req (skillPanicked reason) }, [.panicked req reason])
  | .answering req outcome => some ({ s with phase := .waiting }, [.answered req outcome])

/-- A request, once it has its number. -/
def request (s : Dispatcher) (session : SessionId) (skill : Text) (intent : Sdk.Intent) : DispatchRequest :=
  { ticket := s.asked, session := session, skill := skill, intent := intent }

def step (deps : DispatchDeps) (s : Dispatcher) : DispatchAction → Option (Dispatcher × List DispatchObs)
  | .ask session skill intent =>
    let req := s.request session skill intent
    if s.hungUp then none
    else if s.phase = .stopped then some ({ s with asked := s.asked + 1 }, [.refused req])
    else if s.mailbox.length < mailboxSize then
      some ({ s with mailbox := s.mailbox ++ [req], asked := s.asked + 1 }, [.accepted req])
    else none
  | .registry a => some ({ s with registry := (s.registry.apply a).1 }, [])
  | .take =>
    match s.phase, s.mailbox with
    | .waiting, req :: rest => some ({ s with mailbox := rest, phase := .invoking req }, [])
    | _, _ => none
  | .handleOne chance => s.handleOne deps chance
  | .cancel => some ({ s with cancelled := true }, [])
  | .hangUp => some ({ s with hungUp := true }, [])
  | .stop =>
    if s.phase = .waiting ∧ (s.cancelled = true ∨ (s.hungUp = true ∧ s.mailbox = [])) then
      some ({ s with phase := .stopped, mailbox := [] }, s.mailbox.map .dropped)
    else none

/-- The machine of the dispatcher. -/
def machine (deps : DispatchDeps) : Machine Dispatcher DispatchAction DispatchObs := { step := step deps }

end Dispatcher

/-! ## What `handle_one` does -/

namespace Dispatcher

/-- What one step of `handle_one` does, with what is seen of it. -/
inductive Effect (deps : DispatchDeps) (s : Dispatcher) (chance : Chance) : Dispatcher →
    List DispatchObs → Prop where
  | invoke (req : DispatchRequest) (hphase : s.phase = .invoking req) :
      Effect deps s chance { s with phase := .looking req } [.invoked req]
  | cancelled (req : DispatchRequest) (e : Text) (hjoin : chance.joinError = some e) (hphase : s.phase = .looking req) :
      Effect deps s chance { s with phase := .answering req (dispatchCancelled e) } []
  | clock (req : DispatchRequest) (e : Text) (hjoin : chance.joinError = none) (hclock : chance.clock = .error e)
      (hphase : s.phase = .looking req) : Effect deps s chance { s with phase := .answering req (timeError e) } []
  | unknown (req : DispatchRequest) (nowSec : UInt64) (hjoin : chance.joinError = none)
      (hclock : chance.clock = .ok nowSec) (habsent : s.registry.plugins.lookup req.skill = none)
      (hphase : s.phase = .looking req) :
      Effect deps s chance { s with phase := .answering req (unknownSkill req.skill) } []
  | find (req : DispatchRequest) (handle : Nat) (nowSec : UInt64)
      (hfound : s.registry.plugins.lookup req.skill = some handle) (hphase : s.phase = .looking req) :
      Effect deps s chance { s with phase := .locking req handle nowSec } [.found req handle]
  | refuse (req : DispatchRequest) (handle : Nat) (nowSec : UInt64) (hmem : handle ∈ s.poisoned)
      (hphase : s.phase = .locking req handle nowSec) :
      Effect deps s chance { s with phase := .reporting req poisonReason } []
  | overflow (req : DispatchRequest) (handle : Nat) (nowSec : UInt64) (hnot : handle ∉ s.poisoned)
      (hover : overflows deps handle nowSec = true) (hphase : s.phase = .locking req handle nowSec) :
      Effect deps s chance { s with phase := .reporting req overflowReason, poisoned := handle :: s.poisoned }
        [.poisoned handle]
  | enter (req : DispatchRequest) (handle : Nat) (nowSec : UInt64) (hnot : handle ∉ s.poisoned)
      (hphase : s.phase = .locking req handle nowSec) : Effect deps s chance { s with phase := .handling req handle } []
  | mutex (req : DispatchRequest) (handle : Nat) (hmem : handle ∈ s.poisoned)
      (hphase : s.phase = .handling req handle) :
      Effect deps s chance { s with phase := .answering req mutexPoisoned } []
  | run (req : DispatchRequest) (handle : Nat) (result : SkillResult) (hnot : handle ∉ s.poisoned)
      (hguest : chance.guest = .returned result) (hphase : s.phase = .handling req handle) :
      Effect deps s chance { s with phase := .answering req result } [.ran handle req (.returned result)]
  | panic (req : DispatchRequest) (handle : Nat) (reason : Text) (hnot : handle ∉ s.poisoned)
      (hguest : chance.guest = .panicked reason) (hphase : s.phase = .handling req handle) :
      Effect deps s chance { s with phase := .reporting req reason, poisoned := handle :: s.poisoned }
        [.ran handle req (.panicked reason), .poisoned handle]
  | report (req : DispatchRequest) (reason : Text) (hphase : s.phase = .reporting req reason) :
      Effect deps s chance { s with phase := .answering req (skillPanicked reason) } [.panicked req reason]
  | answer (req : DispatchRequest) (outcome : SkillResult) (hphase : s.phase = .answering req outcome) :
      Effect deps s chance { s with phase := .waiting } [.answered req outcome]

theorem handleOne_effect {deps : DispatchDeps} {s s' : Dispatcher} {chance : Chance} {o : List DispatchObs}
    (h : s.handleOne deps chance = some (s', o)) : Effect deps s chance s' o := by
  unfold handleOne at h
  split at h
  · cases h
  · cases h
  · rename_i req hphase
    cases h
    exact .invoke req hphase
  · rename_i req hphase
    split at h
    · rename_i e hjoin
      cases h
      exact .cancelled req e hjoin hphase
    · rename_i hjoin
      split at h
      · rename_i e hclock
        cases h
        exact .clock req e hjoin hclock hphase
      · rename_i nowSec hclock
        split at h
        · rename_i habsent
          cases h
          exact .unknown req nowSec hjoin hclock habsent hphase
        · rename_i handle hfound
          cases h
          exact .find req handle nowSec hfound hphase
  · rename_i req handle nowSec hphase
    split at h
    · rename_i hmem
      cases h
      exact .refuse req handle nowSec hmem hphase
    · rename_i hnot
      split at h
      · rename_i hover
        cases h
        exact .overflow req handle nowSec hnot hover hphase
      · cases h
        exact .enter req handle nowSec hnot hphase
  · rename_i req handle hphase
    split at h
    · rename_i hmem
      cases h
      exact .mutex req handle hmem hphase
    · rename_i hnot
      split at h
      · rename_i result hguest
        cases h
        exact .run req handle result hnot hguest hphase
      · rename_i reason hguest
        cases h
        exact .panic req handle reason hnot hguest hphase
  · rename_i req reason hphase
    cases h
    exact .report req reason hphase
  · rename_i req outcome hphase
    cases h
    exact .answer req outcome hphase

theorem handleOne_isSome (deps : DispatchDeps) (s : Dispatcher) (chance : Chance) :
    (s.handleOne deps chance).isSome ↔ s.phase ≠ .waiting ∧ s.phase ≠ .stopped := by
  unfold handleOne
  cases s.phase with
  | waiting => simp
  | stopped => simp
  | looking req =>
    -- whatever the thread and the clock say, and whether or not the skill is loaded
    cases chance.joinError with
    | some e => simp
    | none =>
      cases chance.clock with
      | error e => simp
      | ok nowSec => cases hlookup : s.registry.plugins.lookup req.skill <;> simp [hlookup]
  | locking req handle nowSec =>
    by_cases hpoisoned : handle ∈ s.poisoned
    · simp [hpoisoned]
    · by_cases hoverflows : overflows deps handle nowSec <;> simp [hpoisoned, hoverflows]
  | handling req handle =>
    by_cases hpoisoned : handle ∈ s.poisoned
    · simp [hpoisoned]
    · cases chance.guest <;> simp [hpoisoned]
  | invoking req => simp
  | reporting req reason => simp
  | answering req outcome => simp

end Dispatcher

/-! ## Histories -/

/-- The requests accepted, invoked, run, answered and dropped, in order. -/
def acceptedOf (h : List DispatchObs) : List DispatchRequest := h.filterMap fun
  | .accepted req => some req
  | _ => none

def invokedOf (h : List DispatchObs) : List DispatchRequest := h.filterMap fun
  | .invoked req => some req
  | _ => none

def ranOf (h : List DispatchObs) : List DispatchRequest := h.filterMap fun
  | .ran _ req _ => some req
  | _ => none

def answeredOf (h : List DispatchObs) : List DispatchRequest := h.filterMap fun
  | .answered req _ => some req
  | _ => none

def droppedOf (h : List DispatchObs) : List DispatchRequest := h.filterMap fun
  | .dropped req => some req
  | _ => none

/-- What is answered after a call of the guest. -/
def GuestRun.outcome : GuestRun → SkillResult
  | .returned result => result
  | .panicked reason => skillPanicked reason

/-- The request that is taken and not yet invoked. -/
def DispatchPhase.taken : DispatchPhase → List DispatchRequest
  | .invoking req => [req]
  | _ => []

/-- The request that is invoked and not yet answered. -/
def DispatchPhase.underWay : DispatchPhase → List DispatchRequest
  | .looking req | .locking req _ _ | .handling req _ | .reporting req _ | .answering req _ => [req]
  | _ => []

/-- The request whose answer is decided and not yet given. -/
def DispatchPhase.decided : DispatchPhase → List DispatchRequest
  | .reporting req _ | .answering req _ => [req]
  | _ => []

/-- How many steps the actor's request takes yet. -/
def DispatchPhase.stepsLeft : DispatchPhase → Nat
  | .waiting | .stopped => 0
  | .answering .. => 1
  | .reporting .. => 2
  | .handling .. => 3
  | .locking .. => 4
  | .looking .. => 5
  | .invoking .. => 6

end AthenaVoice.Wasm
