import AthenaVoice.Providers.Circuit

/-
  The open window of the circuit breaker — `circuit.rs`

  A failure seen at `t` that opens the breaker opens a window: until
  `t + open_duration` calls are to be rejected. A call admitted before that is
  still under way may report inside the window. A failure then changes nothing,
  but `record_success` does not look at the state it overwrites.

  What is proved:
    1. `kept_step` — every section but a success inside the window keeps the
       window shut.
    2. `open_window_iff` — in a run with any number of callers, no call is let
       through inside a window, nor would be at any moment of the run, exactly
       when no success is reported while the breaker is open and its time is
       not over.
-/

namespace AthenaVoice.Providers.CircuitBreaker

open Lib

variable (cb : CircuitBreaker)

/-- A call let through after the breaker was opened at `t` is no earlier than
`t + open_duration`. -/
def Respects (a b : BreakerObs) : Prop := ∀ t t', a = .opened t → b = .admitted t' → t + cb.openDuration ≤ t'

/-- No call of the run was let through inside a window opened before. -/
def WindowKept (h : List BreakerObs) : Prop := h.Pairwise cb.Respects

/-- The instant lies inside a window opened before. -/
def InWindow (h : List BreakerObs) (time : Nat) : Prop := ∃ t, .opened t ∈ h ∧ time < t + cb.openDuration

/-- Inside a window no call is let through now, whatever instant it has read. -/
def Shut (h : List BreakerObs) (b : Breaker) : Prop :=
  cb.InWindow h b.clock → ∀ now ≤ b.clock, (cb.canCall now b.state).2 ≠ .ok ()

/-- A success is reported to an open breaker only once its time is over. -/
def SuccessWaits (_ : List BreakerObs) (b : Breaker) (a : BreakerAction) : Prop :=
  a = .recordSuccess → ∀ deadline, b.state = .opened deadline → deadline ≤ b.clock

/-- Every window opened is over, or the breaker is open at least as long; and
none was broken. -/
structure Kept (h : List BreakerObs) (b : Breaker) : Prop where
  covered : ∀ t, .opened t ∈ h →
    t + cb.openDuration ≤ b.clock ∨ ∃ deadline, b.state = .opened deadline ∧ t + cb.openDuration ≤ deadline
  kept : cb.WindowKept h

/-- An open breaker was opened by some failure. -/
def Opened (h : List BreakerObs) (b : Breaker) : Prop :=
  ∀ deadline, b.state = .opened deadline → ∃ t, .opened t ∈ h ∧ deadline = t + cb.openDuration

variable {cb}

/-! ## The invariants -/

theorem windowKept_snoc {h : List BreakerObs} {x : BreakerObs} (hk : cb.WindowKept h)
    (hx : ∀ a ∈ h, cb.Respects a x) : cb.WindowKept (h ++ [x]) := by
  refine List.pairwise_append.mpr ⟨hk, List.pairwise_singleton _ _, ?_⟩
  intro a ha b hb
  rw [List.mem_singleton.mp hb]
  exact hx a ha

theorem Kept.over {h : List BreakerObs} {b : Breaker} (K : cb.Kept h b)
    (hb : ∀ deadline, b.state = .opened deadline → deadline ≤ b.clock) {t : Nat} (ht : .opened t ∈ h) :
    t + cb.openDuration ≤ b.clock := by
  rcases K.covered t ht with hover | ⟨deadline, hst, hle⟩
  · exact hover
  · exact Nat.le_trans hle (hb deadline hst)

theorem deadline_le_of_not_open {b : Breaker} (hnot : b.state.isOpen = false) (deadline : Nat)
    (hst : b.state = .opened deadline) : deadline ≤ b.clock := by
  rw [hst] at hnot
  cases hnot

/-- **One section.** It keeps every window, unless it is a success inside one. -/
theorem kept_step {h : List BreakerObs} {b b' : Breaker} {a : BreakerAction} {o : List BreakerObs}
    (K : cb.Kept h b) (hwaits : SuccessWaits h b a) (hs : cb.Section b a b' o) : cb.Kept (h ++ o) b' := by
  cases hs with
  | tick hle =>
    rw [List.append_nil]
    refine ⟨?_, K.kept⟩
    intro t ht
    exact (K.covered t ht).imp_left (fun hover => Nat.le_trans hover hle)
  | @admitted now hle hok =>
    -- who is admitted comes after the deadline, so after every window so far
    obtain ⟨-, hdue⟩ := canCall_ok hok
    have hover : ∀ t, .opened t ∈ h → t + cb.openDuration ≤ b.clock :=
      fun t ht => K.over (fun deadline hst => Nat.le_trans (hdue deadline hst) hle) ht
    refine ⟨?_, windowKept_snoc K.kept ?_⟩
    · intro t ht
      rcases List.mem_append.mp ht with ht | ht
      · exact Or.inl (hover t ht)
      · cases List.mem_singleton.mp ht
    · intro x hx t t' hopened hadmitted
      cases hadmitted
      exact hover t (hopened ▸ hx)
  | rejected hle herror =>
    refine ⟨?_, windowKept_snoc K.kept (fun x hx t t' _ hadmitted => by cases hadmitted)⟩
    intro t ht
    rcases List.mem_append.mp ht with ht | ht
    · exact K.covered t ht
    · cases List.mem_singleton.mp ht
  | closed =>
    rw [List.append_nil]
    exact ⟨fun t ht => Or.inl (K.over (hwaits rfl) ht), K.kept⟩
  | @opened now hle hnot =>
    refine ⟨?_, windowKept_snoc K.kept (fun x hx t t' _ hadmitted => by cases hadmitted)⟩
    intro t ht
    rcases List.mem_append.mp ht with ht | ht
    · exact Or.inl (K.over (deadline_le_of_not_open hnot) ht)
    · cases List.mem_singleton.mp ht
      exact Or.inr ⟨_, rfl, Nat.le_refl _⟩
  | counted hst hbelow =>
    rw [List.append_nil]
    refine ⟨?_, K.kept⟩
    intro t ht
    exact Or.inl (K.over (deadline_le_of_not_open (by rw [hst]; rfl)) ht)
  | ignored hopen =>
    rw [List.append_nil]
    exact K

theorem opened_step {h : List BreakerObs} {b b' : Breaker} {a : BreakerAction} {o : List BreakerObs}
    (hb : cb.Opened h b) (hs : cb.Section b a b' o) : cb.Opened (h ++ o) b' := by
  intro deadline hst
  have hearlier : b.state = .opened deadline → ∃ t, .opened t ∈ h ++ o ∧ deadline = t + cb.openDuration := by
    intro hbst
    obtain ⟨t, ht, hd⟩ := hb deadline hbst
    exact ⟨t, List.mem_append_left o ht, hd⟩
  cases hs with
  | tick hle => exact hearlier hst
  | admitted hle hok =>
    have hnot := (canCall_ok hok).1
    rw [show (cb.canCall _ b.state).1 = .opened deadline from hst] at hnot
    cases hnot
  | rejected hle herror => exact hearlier hst
  | closed => cases hst
  | @opened now hle hnot =>
    cases hst
    exact ⟨now, List.mem_append_right h List.mem_cons_self, rfl⟩
  | counted hbst hbelow => cases hst
  | ignored hopen => exact hearlier hst

theorem Kept.shut {h : List BreakerObs} {b : Breaker} (K : cb.Kept h b) : cb.Shut h b := by
  intro hwindow now hnow hok
  obtain ⟨t, ht, hlt⟩ := hwindow
  have hover := K.over (fun deadline hst => Nat.le_trans ((canCall_ok hok).2 deadline hst) hnow) ht
  omega

theorem not_shut_of_success {h : List BreakerObs} {b : Breaker} {deadline : Nat} (hb : cb.Opened h b)
    (hst : b.state = .opened deadline) (hearly : b.clock < deadline) :
    ¬ cb.Shut h { b with state := .closed 0 } := by
  intro hshut
  obtain ⟨t, ht, hd⟩ := hb deadline hst
  exact hshut ⟨t, ht, hd ▸ hearly⟩ b.clock (Nat.le_refl _) rfl

/-! ## Runs -/

theorem kept_new (clock : Nat) : cb.Kept [] (.new clock) :=
  ⟨fun t ht => (by cases ht), List.Pairwise.nil⟩

theorem opened_new (clock : Nat) : cb.Opened [] (.new clock) := fun deadline hst => (by cases hst)

variable (cb) in
/-- In a run, no call was let through inside a window, and none would have been
at any moment of it. -/
def WindowHolds (clock : Nat) (as : List BreakerAction) : Prop :=
  (∀ b o, cb.machine.run (.new clock) as = some (b, o) → cb.WindowKept o) ∧
    cb.machine.Throughout cb.Shut [] (.new clock) as

/-- **The open window.** Over every run of any number of callers, it holds
exactly when every success that finds the breaker open finds its time over. -/
theorem open_window_iff (cb : CircuitBreaker) (clock : Nat) (as : List BreakerAction) :
    cb.WindowHolds clock as ↔ cb.machine.Along SuccessWaits [] (.new clock) as := by
  have hkept : ∀ h b a b' o, cb.Kept h b → SuccessWaits h b a → cb.machine.step b a = some (b', o) →
      cb.Kept (h ++ o) b' := fun h b a b' o K hwaits hs => kept_step K hwaits (step_section hs)
  constructor
  · intro hholds
    have hshut := hholds.2
    rw [Machine.throughout_iff_along as [] _ (kept_new clock).shut] at hshut
    refine Machine.along_imp (P := cb.Opened) ?_ ?_ as [] _ (opened_new clock) hshut
    · intro h b a b' o hb _ hs
      exact opened_step hb (step_section hs)
    · intro h b a hb hnext ha deadline hst
      by_contra hearly
      have hbroken := not_shut_of_success hb hst (by omega)
      have hnext' := hnext { b with state := .closed 0 } [] (by rw [ha]; rfl)
      rw [List.append_nil] at hnext'
      exact hbroken hnext'
  · intro hwaits
    refine ⟨?_, Machine.throughout_of_along hkept (fun h b K => K.shut) as [] _ (kept_new clock) hwaits⟩
    intro b o hr
    have K := Machine.run_invariant_along hkept as [] _ b o (kept_new clock) hwaits hr
    rw [List.nil_append] at K
    exact K.kept

/-- Two calls are under way when the first fails and opens the breaker; the
second succeeds, and a third call goes through at once. -/
def lateSuccess : List BreakerAction :=
  [.canCall 0, .canCall 0, .tick 5, .recordFailure 5, .recordSuccess, .canCall 5]

/-- The third call is let through 100 before the window is over. -/
theorem late_success_admits :
    ¬ WindowHolds { failureThreshold := 1, openDuration := 100, halfOpenProbeGap := 30 } 0 lateSuccess := by
  intro hholds
  have hkept := hholds.1 { state := .closed 0, clock := 5 }
    [.admitted 0, .admitted 0, .opened 5, .admitted 5] (by decide)
  have hwindow := (List.pairwise_cons.mp (List.pairwise_cons.mp (List.pairwise_cons.mp hkept).2).2).1
    (.admitted 5) List.mem_cons_self 5 5 rfl rfl
  exact absurd hwindow (by decide)

end AthenaVoice.Providers.CircuitBreaker
