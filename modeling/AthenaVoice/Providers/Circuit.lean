import AthenaVoice.Lib.Machine

/-
  The circuit breaker — `circuit.rs`

  One state behind a mutex. `can_call` and `record_failure` read the clock
  before they take the lock, so a section may run with an instant that is no
  longer the present one; `record_success` reads no clock. Instants and
  durations are counted in nanoseconds, and subtracting a later instant from an
  earlier one gives zero, as `Instant` does.

  Any number of callers share the breaker: their sections are the steps of one
  machine, whose clock does not go back. Nothing ties a report to the call it
  is about, so a call admitted before the breaker opened may report after.

  What is proved:
    1. `step_section` — what one section can do.
    2. `failures_lt` — the count of a closed breaker stays below the threshold,
       so it fits the `u32` it is kept in.

  Correspondence (Rust ↔ Lean):
    `CircuitBreaker`   `CircuitBreaker` (what `new` sets), `Breaker`
    `State`            `State`
    `can_call`         `canCall`
    `record_success`   `recordSuccess`
    `record_failure`   `recordFailure`
    `is_open`          `State.isOpen`
-/

namespace AthenaVoice.Providers

open Lib

/-- What `CircuitBreaker::new` is given. -/
structure CircuitBreaker where
  failureThreshold : Nat
  openDuration : Nat
  halfOpenProbeGap : Nat
  deriving DecidableEq, Repr

/-- `State`; an open breaker carries `until`. -/
inductive State where
  | closed (failures : Nat)
  | opened (deadline : Nat)
  | halfOpen (lastProbe : Nat)
  deriving DecidableEq, Repr

def State.isOpen : State → Bool
  | .opened _ => true
  | _ => false

/-- The state `new` starts in. -/
def State.new : State := .closed 0

namespace CircuitBreaker

/-- The section of `can_call`, with the instant read before it. -/
def canCall (cb : CircuitBreaker) (now : Nat) : State → State × Except Nat Unit
  | .closed failures => (.closed failures, .ok ())
  | .opened deadline =>
    if now ≥ deadline then (.halfOpen now, .ok ()) else (.opened deadline, .error (deadline - now))
  | .halfOpen lastProbe =>
    if now - lastProbe ≥ cb.halfOpenProbeGap then (.halfOpen now, .ok ())
    else
      let elapsed := now - lastProbe
      if elapsed ≥ cb.halfOpenProbeGap then (.halfOpen lastProbe, .ok ())
      else (.halfOpen lastProbe, .error (cb.halfOpenProbeGap - elapsed))

/-- The section of `record_success`. -/
def recordSuccess (_ : State) : State := .closed 0

/-- The section of `record_failure`, with the instant read before it. -/
def recordFailure (cb : CircuitBreaker) (now : Nat) : State → State
  | .closed failures =>
    let newFailures := failures + 1
    if newFailures ≥ cb.failureThreshold then .opened (now + cb.openDuration) else .closed newFailures
  | .halfOpen _ => .opened (now + cb.openDuration)
  | .opened deadline => .opened deadline

end CircuitBreaker

/-- A breaker in use: its state, and the instant it is. -/
structure Breaker where
  state : State
  clock : Nat
  deriving DecidableEq, Repr

/-- A caller's section, with the instant it read, or the passing of time. -/
inductive BreakerAction where
  | tick (time : Nat)
  | canCall (now : Nat)
  | recordSuccess
  | recordFailure (now : Nat)
  deriving DecidableEq, Repr

/-- What a section does: the breaker was opened by a failure seen at an
instant, or a call was let through or turned away at one. -/
inductive BreakerObs where
  | opened (t : Nat)
  | admitted (t : Nat)
  | rejected (t retryAfter : Nat)
  deriving DecidableEq, Repr

/-- The breaker as `new` makes it. -/
def Breaker.new (clock : Nat) : Breaker := { state := .new, clock := clock }

namespace CircuitBreaker

variable (cb : CircuitBreaker)

/-- One section. An instant was read before the section runs. -/
def step (b : Breaker) : BreakerAction → Option (Breaker × List BreakerObs)
  | .tick time => if b.clock ≤ time then some ({ b with clock := time }, []) else none
  | .canCall now =>
    if now ≤ b.clock then
      match cb.canCall now b.state with
      | (state, .ok ()) => some ({ b with state := state }, [.admitted b.clock])
      | (state, .error retryAfter) => some ({ b with state := state }, [.rejected b.clock retryAfter])
    else none
  | .recordSuccess => some ({ b with state := recordSuccess b.state }, [])
  | .recordFailure now =>
    if now ≤ b.clock then
      some ({ b with state := cb.recordFailure now b.state },
        if !b.state.isOpen && (cb.recordFailure now b.state).isOpen then [.opened now] else [])
    else none

/-- The machine of the breaker's sections. -/
def machine : Machine Breaker BreakerAction BreakerObs := { step := cb.step }

/-! ## What one section can do -/

variable {cb}

@[simp] theorem canCall_closed (now failures : Nat) :
    cb.canCall now (.closed failures) = (.closed failures, .ok ()) := rfl

theorem canCall_opened (now deadline : Nat) : cb.canCall now (.opened deadline) =
    if deadline ≤ now then (.halfOpen now, .ok ()) else (.opened deadline, .error (deadline - now)) := rfl

theorem canCall_halfOpen (now lastProbe : Nat) : cb.canCall now (.halfOpen lastProbe) =
    if cb.halfOpenProbeGap ≤ now - lastProbe then (.halfOpen now, .ok ())
    else (.halfOpen lastProbe, .error (cb.halfOpenProbeGap - (now - lastProbe))) := by
  show (if now - lastProbe ≥ cb.halfOpenProbeGap then _ else _) = _
  by_cases hgap : cb.halfOpenProbeGap ≤ now - lastProbe
  · rw [if_pos hgap, if_pos hgap]
  · rw [if_neg hgap, if_neg hgap, if_neg hgap]

/-- A call is let through by a breaker that is not open, or no longer, and
leaves it not open. -/
theorem canCall_ok {now : Nat} {st : State} (h : (cb.canCall now st).2 = .ok ()) :
    (cb.canCall now st).1.isOpen = false ∧ ∀ deadline, st = .opened deadline → deadline ≤ now := by
  cases st with
  | closed failures => exact ⟨rfl, fun deadline hst => (by cases hst)⟩
  | opened deadline =>
    rw [canCall_opened] at h ⊢
    by_cases hdue : deadline ≤ now
    · rw [if_pos hdue]
      exact ⟨rfl, fun d hd => (by cases hd; exact hdue)⟩
    · rw [if_neg hdue] at h
      cases h
  | halfOpen lastProbe =>
    refine ⟨?_, fun deadline hst => (by cases hst)⟩
    rw [canCall_halfOpen]
    split <;> rfl

theorem canCall_error {now retryAfter : Nat} {st : State} (h : (cb.canCall now st).2 = .error retryAfter) :
    (cb.canCall now st).1 = st := by
  cases st with
  | closed failures => rfl
  | opened deadline =>
    rw [canCall_opened] at h ⊢
    by_cases hdue : deadline ≤ now
    · rw [if_pos hdue] at h
      cases h
    · rw [if_neg hdue]
  | halfOpen lastProbe =>
    rw [canCall_halfOpen] at h ⊢
    by_cases hgap : cb.halfOpenProbeGap ≤ now - lastProbe
    · rw [if_pos hgap] at h
      cases h
    · rw [if_neg hgap]

variable (cb) in
/-- A failure opens a breaker that is not open, for `open_duration`, or is
counted; an open one it leaves alone. -/
theorem recordFailure_cases (now : Nat) (st : State) :
    (st.isOpen = false ∧ cb.recordFailure now st = .opened (now + cb.openDuration)) ∨
      (∃ failures, st = .closed failures ∧ failures + 1 < cb.failureThreshold ∧
        cb.recordFailure now st = .closed (failures + 1)) ∨
      (st.isOpen = true ∧ cb.recordFailure now st = st) := by
  cases st with
  | closed failures =>
    by_cases h : failures + 1 ≥ cb.failureThreshold
    · exact Or.inl ⟨rfl, if_pos h⟩
    · exact Or.inr (Or.inl ⟨failures, rfl, by omega, if_neg h⟩)
  | opened deadline => exact Or.inr (Or.inr ⟨rfl, rfl⟩)
  | halfOpen lastProbe => exact Or.inl ⟨rfl, rfl⟩

variable (cb) in
/-- What one section does to the breaker, and what is seen of it. -/
inductive Section : Breaker → BreakerAction → Breaker → List BreakerObs → Prop where
  | tick {b time} (hle : b.clock ≤ time) : Section b (.tick time) { b with clock := time } []
  | admitted {b now} (hle : now ≤ b.clock) (hok : (cb.canCall now b.state).2 = .ok ()) :
    Section b (.canCall now) { b with state := (cb.canCall now b.state).1 } [.admitted b.clock]
  | rejected {b now retryAfter} (hle : now ≤ b.clock) (herror : (cb.canCall now b.state).2 = .error retryAfter) :
    Section b (.canCall now) b [.rejected b.clock retryAfter]
  | closed {b} : Section b .recordSuccess { b with state := .closed 0 } []
  | opened {b now} (hle : now ≤ b.clock) (hnot : b.state.isOpen = false) :
    Section b (.recordFailure now) { b with state := .opened (now + cb.openDuration) } [.opened now]
  | counted {b now failures} (hst : b.state = .closed failures) (hbelow : failures + 1 < cb.failureThreshold) :
    Section b (.recordFailure now) { b with state := .closed (failures + 1) } []
  | ignored {b now} (hopen : b.state.isOpen = true) : Section b (.recordFailure now) b []

theorem step_section {b b' : Breaker} {a : BreakerAction} {o : List BreakerObs} (h : cb.step b a = some (b', o)) :
    cb.Section b a b' o := by
  cases a with
  | tick time =>
    simp only [step] at h
    split at h
    · rename_i hle
      cases h
      exact .tick hle
    · cases h
  | canCall now =>
    simp only [step] at h
    split at h
    · rename_i hle
      split at h
      · rename_i state hcall
        cases h
        have hsection : cb.Section b (.canCall now) { b with state := (cb.canCall now b.state).1 }
          [.admitted b.clock] :=
          .admitted hle (congrArg Prod.snd hcall)
        rwa [hcall] at hsection
      · rename_i state retryAfter hcall
        cases h
        have hst : state = b.state :=
          (congrArg Prod.fst hcall).symm.trans (canCall_error (congrArg Prod.snd hcall))
        rw [hst]
        exact .rejected hle (congrArg Prod.snd hcall)
    · cases h
  | recordSuccess =>
    cases h
    exact .closed
  | recordFailure now =>
    simp only [step] at h
    split at h
    · rename_i hle
      cases h
      rcases recordFailure_cases cb now b.state with ⟨hnot, hfail⟩ | ⟨failures, hst, hbelow, hfail⟩
        | ⟨hopen, hfail⟩
      · rw [hfail, hnot]
        exact .opened hle hnot
      · rw [hfail, hst]
        exact .counted hst hbelow
      · rw [hfail, hopen]
        exact .ignored hopen
    · cases h

theorem closed_of_canCall {now failures : Nat} {st : State} (h : (cb.canCall now st).1 = .closed failures) :
    st = .closed failures := by
  cases st with
  | closed n => exact h
  | opened deadline =>
    rw [canCall_opened] at h
    split at h <;> cases h
  | halfOpen lastProbe =>
    rw [canCall_halfOpen] at h
    split at h <;> cases h

/-- The count of a closed breaker is 0 or below the threshold. -/
def Counts (b : Breaker) : Prop := ∀ failures, b.state = .closed failures →
    failures = 0 ∨ failures < cb.failureThreshold

theorem Section.counts {b b' : Breaker} {a : BreakerAction} {o : List BreakerObs} (h : cb.Section b a b' o)
    (hb : cb.Counts b) : cb.Counts b' := by
  intro failures hst
  cases h with
  | tick hle => exact hb failures hst
  | admitted hle hok => exact hb failures (closed_of_canCall hst)
  | rejected hle herror => exact hb failures hst
  | closed =>
    cases hst
    exact Or.inl rfl
  | opened hle hnot => cases hst
  | counted hcb hbelow =>
    cases hst
    exact Or.inr hbelow
  | ignored hopen => exact hb failures hst

/-- In every run the count stays below the threshold. -/
theorem failures_lt {clock : Nat} {as : List BreakerAction} {b : Breaker} {o : List BreakerObs}
    (hr : cb.machine.run (.new clock) as = some (b, o)) : cb.Counts b := by
  refine Machine.run_invariant (P := fun _ b => cb.Counts b) ?_ (h := []) ?_ hr
  · intro h b a b' o hb hs
    exact (step_section hs).counts hb
  · intro failures hst
    cases hst
    exact Or.inl rfl

end CircuitBreaker

end AthenaVoice.Providers
