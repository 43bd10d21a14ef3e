import AthenaVoice.Providers.Circuit

/-
  Probing and recovery of the circuit breaker — `circuit.rs`

  A breaker whose time is over lets one call through and waits `half_open_probe_gap`
  before it lets the next one through. Nothing obliges a probe to report, so what
  a caller is told must not depend on it.

  What is proved, of every run of any number of callers:
    1. `probe_step` — without a report the breaker stays half open, and its last
       probe does not go back.
    2. `timed_step` — an open breaker carries the end of its time, a half open
       one its last probe, each counted from the last transition.
    3. `probing_and_recovery` — probes are a gap apart, a retry-after is
       honoured, and the breaker lets a call through once the longer of its two
       durations has passed since the last transition.
-/

namespace AthenaVoice.Providers

open Lib

/-- `record_success` and `record_failure`; nothing else reports. -/
def BreakerAction.isReport : BreakerAction → Bool
  | .recordSuccess => true
  | .recordFailure _ => true
  | _ => false

/-- The instant a section goes by: the one it has read, or else the present. -/
def BreakerAction.instant (clock : Nat) : BreakerAction → Nat
  | .canCall now => now
  | .recordFailure now => now
  | _ => clock

namespace CircuitBreaker

variable (cb : CircuitBreaker)

/-- The call made at `now` is let through, and leaves the breaker half open. -/
def Probe (now : Nat) (b b' : Breaker) : Prop :=
  cb.step b (.canCall now) = some (b', [.admitted b.clock]) ∧ ∃ lastProbe, b'.state = .halfOpen lastProbe

/-- The two instants are at least a gap apart. -/
def GapApart (t t' : Nat) : Prop := t + cb.halfOpenProbeGap ≤ t' ∨ t' + cb.halfOpenProbeGap ≤ t

/-- Two calls let through by a half open breaker with no report between them are
at least a gap apart, whatever else happens between them. -/
def ProbesApart (b : Breaker) : Prop :=
  ∀ (now now' : Nat) (b₁ b₂ b₃ : Breaker) (between : List BreakerAction) (o : List BreakerObs),
    cb.Probe now b b₁ → (∀ a ∈ between, a.isReport = false) → cb.machine.run b₁ between = some (b₂, o) →
      cb.Probe now' b₂ b₃ → cb.GapApart now now'

/-- A call turned away with `retryAfter` finds the breaker as it left it, and is
let through `retryAfter` later: counted from the moment it was answered, and
from the instant it had read, where no probe had read a later one. -/
def RetryHonoured (b : Breaker) : Prop :=
  ∀ now ≤ b.clock, ∀ retryAfter, (cb.canCall now b.state).2 = .error retryAfter → ∀ later,
    (b.clock + retryAfter ≤ later ∨
      (now + retryAfter ≤ later ∧ ∀ lastProbe, b.state = .halfOpen lastProbe → lastProbe ≤ now)) →
    (cb.canCall later (cb.canCall now b.state).1).2 = .ok ()

/-- A call is let through once the longer duration has passed since `t`. -/
def RecoversFrom (t : Nat) (b : Breaker) : Prop :=
  ∀ later, t + max cb.openDuration cb.halfOpenProbeGap ≤ later → (cb.canCall later b.state).2 = .ok ()

/-- The instant of the last section of a run that changed the state, `t` while
none has. -/
def lastTransition (t : Nat) : Breaker → List BreakerAction → Nat
  | _, [] => t
  | b, a :: as =>
    match cb.step b a with
    | none => t
    | some (b', _) => lastTransition (if b'.state = b.state then t else a.instant b.clock) b' as

variable {cb}

/-! ## Probes -/

theorem step_canCall_state {now : Nat} {b b' : Breaker} {o : List BreakerObs}
    (hs : cb.step b (.canCall now) = some (b', o)) : b'.state = (cb.canCall now b.state).1 := by
  cases step_section hs with
  | admitted hle hok => rfl
  | rejected hle herror => exact (canCall_error herror).symm

theorem canCall_probe {now : Nat} {st : State} (hok : (cb.canCall now st).2 = .ok ()) {lastProbe : Nat}
    (hst : (cb.canCall now st).1 = .halfOpen lastProbe) :
    lastProbe = now ∧ ∀ p, st = .halfOpen p → cb.halfOpenProbeGap ≤ now - p := by
  cases st with
  | closed failures => cases hst
  | opened deadline =>
    rw [canCall_opened] at hok hst
    by_cases hdue : deadline ≤ now
    · rw [if_pos hdue] at hst
      cases hst
      exact ⟨rfl, fun p hp => (by cases hp)⟩
    · rw [if_neg hdue] at hok
      cases hok
  | halfOpen p =>
    rw [canCall_halfOpen] at hok hst
    by_cases hgap : cb.halfOpenProbeGap ≤ now - p
    · rw [if_pos hgap] at hst
      cases hst
      exact ⟨rfl, fun q hq => (by cases hq; exact hgap)⟩
    · rw [if_neg hgap] at hok
      cases hok

theorem Probe.spec {now : Nat} {b b' : Breaker} (h : cb.Probe now b b') :
    b'.state = .halfOpen now ∧ ∀ p, b.state = .halfOpen p → cb.halfOpenProbeGap ≤ now - p := by
  obtain ⟨hs, lastProbe, hst⟩ := h
  have hok : (cb.canCall now b.state).2 = .ok () := by
    have hsec := step_section hs
    generalize hb : ([BreakerObs.admitted b.clock] : List BreakerObs) = o at hsec
    cases hsec with
    | admitted hle hok => exact hok
    | rejected hle herror => cases hb
  have hprobe := canCall_probe hok ((step_canCall_state hs).symm.trans hst)
  exact ⟨hprobe.1 ▸ hst, hprobe.2⟩

/-- **One section between two probes.** Without a report the breaker stays half
open, and its last probe does not go back unless no gap is kept at all. -/
theorem probe_step {b b' : Breaker} {a : BreakerAction} {o : List BreakerObs} {p : Nat}
    (hquiet : a.isReport = false) (hs : cb.Section b a b' o) (hst : b.state = .halfOpen p) :
    ∃ p', b'.state = .halfOpen p' ∧ (cb.halfOpenProbeGap = 0 ∨ p ≤ p') := by
  cases hs with
  | tick hle => exact ⟨p, hst, Or.inr (Nat.le_refl p)⟩
  | @admitted now hle hok =>
    rw [hst] at hok ⊢
    rw [canCall_halfOpen] at hok ⊢
    by_cases hgap : cb.halfOpenProbeGap ≤ now - p
    · apply Exists.intro now
      rw [if_pos hgap]
      exact ⟨rfl, by omega⟩
    · rw [if_neg hgap] at hok
      cases hok
  | rejected hle herror => exact ⟨p, hst, Or.inr (Nat.le_refl p)⟩
  | closed => cases hquiet
  | opened hle hnot => cases hquiet
  | counted hcb hbelow => cases hquiet
  | ignored hopen => cases hquiet

theorem probe_run : ∀ (between : List BreakerAction) (b b' : Breaker) (o : List BreakerObs) (p : Nat),
    (∀ a ∈ between, a.isReport = false) → cb.machine.run b between = some (b', o) → b.state = .halfOpen p →
      ∃ p', b'.state = .halfOpen p' ∧ (cb.halfOpenProbeGap = 0 ∨ p ≤ p') := by
  intro between
  induction between with
  | nil =>
    intro b b' o p _ hr hst
    cases hr
    exact ⟨p, hst, Or.inr (Nat.le_refl p)⟩
  | cons a as ih =>
    intro b b' o p hquiet hr hst
    obtain ⟨b₁, o₁, o₂, hs, hrest, -⟩ := (Machine.run_cons_some _).mp hr
    obtain ⟨p₁, hst₁, hp₁⟩ := probe_step (hquiet a List.mem_cons_self) (step_section hs) hst
    obtain ⟨p₂, hst₂, hp₂⟩ :=
      ih b₁ b' o₂ p₁ (fun c hc => hquiet c (List.mem_cons_of_mem a hc)) hrest hst₁
    exact ⟨p₂, hst₂, by omega⟩

theorem probesApart (b : Breaker) : cb.ProbesApart b := by
  intro now now' b₁ b₂ b₃ between o hfirst hquiet hr hsecond
  obtain ⟨p, hst, hp⟩ := probe_run between b₁ b₂ o now hquiet hr hfirst.spec.1
  have hgap := hsecond.spec.2 p hst
  show now + cb.halfOpenProbeGap ≤ now' ∨ now' + cb.halfOpenProbeGap ≤ now
  omega

/-! ## The time of the last transition -/

/-- What the breaker carries, counted from the last transition, which is past. -/
structure Timed (cb : CircuitBreaker) (t : Nat) (b : Breaker) : Prop where
  past : t ≤ b.clock
  opened : ∀ deadline, b.state = .opened deadline → deadline = t + cb.openDuration
  halfOpen : ∀ lastProbe, b.state = .halfOpen lastProbe → lastProbe = t

theorem Timed.same {t : Nat} {b : Breaker} (T : cb.Timed t b) (b' : Breaker) (hle : b.clock ≤ b'.clock)
    (hst : b'.state = b.state) (i : Nat) : cb.Timed (if b'.state = b.state then t else i) b' := by
  rw [if_pos hst]
  exact ⟨Nat.le_trans T.past hle, fun d hd => T.opened d (hst ▸ hd), fun p hp => T.halfOpen p (hst ▸ hp)⟩

theorem canCall_ok_state {now : Nat} {st : State} (hok : (cb.canCall now st).2 = .ok ()) :
    (cb.canCall now st).1 = .halfOpen now ∨ (cb.canCall now st).1 = st ∧ ∃ failures, st = .closed failures := by
  cases st with
  | closed failures => exact Or.inr ⟨rfl, failures, rfl⟩
  | opened deadline =>
    rw [canCall_opened] at hok ⊢
    by_cases hdue : deadline ≤ now
    · exact Or.inl (by rw [if_pos hdue])
    · rw [if_neg hdue] at hok
      cases hok
  | halfOpen p =>
    rw [canCall_halfOpen] at hok ⊢
    by_cases hgap : cb.halfOpenProbeGap ≤ now - p
    · exact Or.inl (by rw [if_pos hgap])
    · rw [if_neg hgap] at hok
      cases hok

theorem instant_le {b b' : Breaker} {a : BreakerAction} {o : List BreakerObs} (hs : cb.step b a = some (b', o)) :
    a.instant b.clock ≤ b'.clock := by
  cases a with
  | tick time =>
    simp only [step] at hs
    split at hs <;> cases hs
    assumption
  | canCall now =>
    cases step_section hs with
    | admitted hle hok => exact hle
    | rejected hle herror => exact hle
  | recordSuccess =>
    cases hs
    exact Nat.le_refl _
  | recordFailure now =>
    simp only [step] at hs
    split at hs <;> cases hs
    assumption

theorem Timed.of_closed {t failures : Nat} {b : Breaker} (hle : t ≤ b.clock) (hst : b.state = .closed failures) :
    cb.Timed t b :=
  ⟨hle, fun d hd => (by rw [hst] at hd; cases hd), fun p hp => (by rw [hst] at hp; cases hp)⟩

/-- **One section.** It keeps the state, or counts from its own instant. -/
theorem timed_step {t : Nat} {b b' : Breaker} {a : BreakerAction} {o : List BreakerObs} (T : cb.Timed t b)
    (hs : cb.step b a = some (b', o)) : cb.Timed (if b'.state = b.state then t else a.instant b.clock) b' := by
  have hinstant := instant_le hs
  have hpast : b.clock ≤ b'.clock := by
    cases step_section hs with
    | tick hle => exact hle
    | _ => exact Nat.le_refl _
  by_cases hsame : b'.state = b.state
  · exact T.same b' hpast hsame _
  rw [if_neg hsame]
  cases step_section hs with
  | tick hle => exact absurd rfl hsame
  | @admitted now hle hok =>
    rcases canCall_ok_state hok with hst | ⟨hst, -⟩
    · refine ⟨hle, fun d hd => ?_, fun p hp => ?_⟩
      · cases hst.symm.trans hd
      · cases hst.symm.trans hp
        rfl
    · exact absurd hst hsame
  | rejected hle herror => exact absurd rfl hsame
  | closed => exact Timed.of_closed hinstant rfl
  | opened hle hnot => exact ⟨hle, fun d hd => (by cases hd; rfl), fun p hp => (by cases hp)⟩
  | counted hst hbelow => exact Timed.of_closed hinstant rfl
  | ignored hopen => exact absurd rfl hsame

theorem timed_run : ∀ (as : List BreakerAction) (t : Nat) (b b' : Breaker) (o : List BreakerObs), cb.Timed t b →
    cb.machine.run b as = some (b', o) → cb.Timed (cb.lastTransition t b as) b' := by
  intro as
  induction as with
  | nil =>
    intro t b b' o T hr
    cases hr
    exact T
  | cons a as ih =>
    intro t b b' o T hr
    obtain ⟨b₁, o₁, o₂, hs, hrest, -⟩ := (Machine.run_cons_some _).mp hr
    have hstep : cb.step b a = some (b₁, o₁) := hs
    simp only [lastTransition, hstep]
    exact ih _ b₁ b' o₂ (timed_step T hstep) hrest

theorem timed_new (clock : Nat) : cb.Timed clock (.new clock) := Timed.of_closed (Nat.le_refl _) rfl

theorem Timed.retryHonoured {t : Nat} {b : Breaker} (T : cb.Timed t b) : cb.RetryHonoured b := by
  intro now hnow retryAfter herror later hlater
  rw [canCall_error herror]
  cases hst : b.state with
  | closed failures => rfl
  | opened deadline =>
    rw [hst, canCall_opened] at herror
    rw [canCall_opened]
    by_cases hdue : deadline ≤ now
    · rw [if_pos hdue] at herror
      cases herror
    · rw [if_neg hdue] at herror
      have hafter : deadline - now = retryAfter := Except.error.inj herror
      rw [if_pos (by omega)]
  | halfOpen lastProbe =>
    have hpast : lastProbe ≤ b.clock := T.halfOpen lastProbe hst ▸ T.past
    have hseen : (∀ p, b.state = .halfOpen p → p ≤ now) → lastProbe ≤ now := fun h => h lastProbe hst
    rw [hst, canCall_halfOpen] at herror
    rw [canCall_halfOpen]
    by_cases hgap : cb.halfOpenProbeGap ≤ now - lastProbe
    · rw [if_pos hgap] at herror
      cases herror
    · rw [if_neg hgap] at herror
      have hafter : cb.halfOpenProbeGap - (now - lastProbe) = retryAfter := Except.error.inj herror
      have hlate : cb.halfOpenProbeGap ≤ later - lastProbe := by
        rcases hlater with hlater | ⟨hlater, hfresh⟩
        · omega
        · have hle := hseen hfresh
          omega
      rw [if_pos hlate]

theorem Timed.recovers {t : Nat} {b : Breaker} (T : cb.Timed t b) : cb.RecoversFrom t b := by
  intro later hlater
  have hopen : t + cb.openDuration ≤ later := Nat.le_trans (Nat.add_le_add_left (Nat.le_max_left _ _) t) hlater
  have hgap : t + cb.halfOpenProbeGap ≤ later := Nat.le_trans (Nat.add_le_add_left (Nat.le_max_right _ _) t) hlater
  cases hst : b.state with
  | closed failures => rfl
  | opened deadline =>
    rw [canCall_opened, if_pos (T.opened deadline hst ▸ hopen)]
  | halfOpen lastProbe =>
    have hprobe := T.halfOpen lastProbe hst
    rw [canCall_halfOpen, if_pos (by omega)]

/-! ## Every run -/

/-- **Probing and recovery.** In every state that any callers bring the breaker
to, probes are a gap apart, a retry-after is honoured, and a call goes through
once the longer duration has passed since the last transition. -/
theorem probing_and_recovery (cb : CircuitBreaker) (clock : Nat) (as : List BreakerAction) (b : Breaker)
    (o : List BreakerObs) (hr : cb.machine.run (.new clock) as = some (b, o)) :
    cb.ProbesApart b ∧ cb.RetryHonoured b ∧ cb.RecoversFrom (cb.lastTransition clock (.new clock) as) b := by
  have T := timed_run as clock (.new clock) b o (timed_new clock) hr
  exact ⟨probesApart b, T.retryHonoured, T.recovers⟩

/-- Two failures open a breaker at 5, a probe goes through at 105 and never reports. -/
theorem probing_and_recovery_silent :
    let cb : CircuitBreaker := { failureThreshold := 2, openDuration := 100, halfOpenProbeGap := 30 }
    let b : Breaker := { state := .halfOpen 105, clock := 110 }
    cb.ProbesApart b ∧ cb.RetryHonoured b ∧ cb.RecoversFrom 105 b :=
  probing_and_recovery { failureThreshold := 2, openDuration := 100, halfOpenProbeGap := 30 } 0
    [.recordFailure 0, .tick 5, .recordFailure 5, .canCall 5, .tick 105, .canCall 105, .tick 110, .canCall 110]
    { state := .halfOpen 105, clock := 110 }
    [.opened 5, .rejected 5 100, .admitted 105, .rejected 110 25] (by decide)

end CircuitBreaker

end AthenaVoice.Providers
