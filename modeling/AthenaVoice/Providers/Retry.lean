import AthenaVoice.Lib.Slots
import AthenaVoice.Providers.Circuit

/-
  The retrying synthesizer — `retry.rs`

  `RetryingTts::synthesize` asks the breaker once, before its first attempt, and
  then makes up to `max_attempts` calls of the provider it wraps, reporting each
  to the breaker and sleeping between two of them. Its siblings for speech
  recognition and the language model ask before every call they make.

  The breaker is shared by all calls in progress, which take their steps in any
  order. A call can be dropped wherever it waits.

  What is proved:
    1. `step_turn` — what one step can do.
    2. `within_step` — a call makes at most `max_attempts` calls of the provider.
    3. `standing_step` — every step keeps the attempts to come admitted, but a
       failure that leaves the breaker open while an attempt is to come.
    4. `retries_admitted_iff` — in a run, each call of the provider is made while
       the breaker admits it exactly when no such failure is reported.

  Correspondence (Rust ↔ Lean):
    `RetryConfig`              `RetryConfig`
    `RetryingTts::synthesize`  `step`, one action for each stretch between two
                               points where other calls may run
    the `for` loop             `nextAttempt`, `afterFailure`
-/

namespace AthenaVoice.Providers

open Lib

/-- `RetryConfig`; delays in nanoseconds. -/
structure RetryConfig where
  maxAttempts : Nat
  backoff : List Nat
  deriving DecidableEq, Repr

def RetryConfig.tts : RetryConfig := { maxAttempts := 2, backoff := [200000000] }

/-- An error, as the text it shows. -/
abbrev BoxError := String

/-- Where a `synthesize` stands: about to make an attempt, waiting for the
provider, between two attempts, or over. `lastErr` is `last_err`. -/
inductive Stage (α : Type) where
  | ready (attempt : Nat) (lastErr : Option BoxError)
  | calling (attempt : Nat) (lastErr : Option BoxError)
  | sleeping (attempt wake : Nat) (lastErr : Option BoxError)
  | done (result : Except BoxError α)
  | dropped
  deriving DecidableEq

/-- A `synthesize` in progress, and what it was asked for. -/
structure Synthesis (ρ α : Type) where
  request : ρ
  stage : Stage α
  deriving DecidableEq

/-- The breaker and the calls that share it. -/
structure RetryingTts (ρ α : Type) where
  breaker : Breaker
  calls : List (Synthesis ρ α)
  deriving DecidableEq

/-- A step: time passes; a call begins, having read an instant; call `i` calls
the provider, or its provider answers, or it wakes; it is dropped. -/
inductive RetryAction (ρ α : Type) where
  | tick (time : Nat)
  | synthesize (request : ρ) (now : Nat)
  | issue (i : Nat)
  | succeed (i : Nat) (audio : α)
  | fail (i : Nat) (e : BoxError) (now : Nat)
  | wake (i : Nat)
  | drop (i : Nat)

/-- The provider was called for call `i`, with the breaker in a state. -/
inductive RetryObs (ρ : Type) where
  | issued (i attempt : Nat) (request : ρ) (st : State)
  deriving DecidableEq

variable {ρ α : Type}

/-- The attempt the call will make when it next goes on. -/
def Stage.armed : Stage α → Option Nat
  | .ready attempt _ => some attempt
  | .sleeping attempt _ _ => some attempt
  | _ => none

def RetryingTts.new (clock : Nat) : RetryingTts ρ α := { breaker := .new clock, calls := [] }

namespace RetryConfig

variable (cfg : RetryConfig)

/-- The head of the loop: one more attempt, or the last error. -/
def nextAttempt (attempt : Nat) (lastErr : Option BoxError) : Stage α :=
  if attempt < cfg.maxAttempts then .ready attempt lastErr
  else .done (.error (lastErr.getD "tts retry exhausted"))

/-- The end of the loop's body after a failure reported at `clock`. -/
def afterFailure (clock attempt : Nat) (e : BoxError) : Stage α :=
  if attempt + 1 < cfg.maxAttempts then
    match cfg.backoff[attempt]? with
    | some delay => .sleeping (attempt + 1) (clock + delay) (some e)
    | none => cfg.nextAttempt (attempt + 1) (some e)
  else cfg.nextAttempt (attempt + 1) (some e)

end RetryConfig

namespace RetryingTts

variable (cb : CircuitBreaker) (cfg : RetryConfig)

def step (s : RetryingTts ρ α) : RetryAction ρ α → Option (RetryingTts ρ α × List (RetryObs ρ))
  | .tick time =>
    if s.breaker.clock ≤ time then some ({ s with breaker := { s.breaker with clock := time } }, []) else none
  | .synthesize request now =>
    if now ≤ s.breaker.clock then
      -- the breaker is asked once for the request, not for each attempt
      match cb.canCall now s.breaker.state with
      | (st, .ok ()) =>
        some ({ breaker := { s.breaker with state := st },
                calls := s.calls ++ [⟨request, cfg.nextAttempt 0 none⟩] }, [])
      | (st, .error _) =>
        some ({ breaker := { s.breaker with state := st },
                calls := s.calls ++ [⟨request, .done (.error "tts circuit open")⟩] }, [])
    else none
  | .issue i =>
    match s.calls[i]? with
    | some ⟨request, .ready attempt lastErr⟩ =>
      some ({ s with calls := s.calls.set i ⟨request, .calling attempt lastErr⟩ },
        [.issued i attempt request s.breaker.state])
    | _ => none
  | .succeed i audio =>
    match s.calls[i]? with
    | some ⟨request, .calling _ _⟩ =>
      some ({ breaker := { s.breaker with state := CircuitBreaker.recordSuccess s.breaker.state },
              calls := s.calls.set i ⟨request, .done (.ok audio)⟩ }, [])
    | _ => none
  | .fail i e now =>
    match s.calls[i]? with
    | some ⟨request, .calling attempt _⟩ =>
      if now ≤ s.breaker.clock then
        some ({ breaker := { s.breaker with state := cb.recordFailure now s.breaker.state },
                calls := s.calls.set i ⟨request, cfg.afterFailure s.breaker.clock attempt e⟩ }, [])
      else none
    | _ => none
  | .wake i =>
    match s.calls[i]? with
    | some ⟨request, .sleeping attempt wake lastErr⟩ =>
      if wake ≤ s.breaker.clock then
        some ({ s with calls := s.calls.set i ⟨request, cfg.nextAttempt attempt lastErr⟩ }, [])
      else none
    | _ => none
  | .drop i =>
    match s.calls[i]? with
    | some ⟨request, .calling _ _⟩ => some ({ s with calls := s.calls.set i ⟨request, .dropped⟩ }, [])
    | some ⟨request, .sleeping _ _ _⟩ => some ({ s with calls := s.calls.set i ⟨request, .dropped⟩ }, [])
    | _ => none

/-- The machine of the calls in progress. -/
def machine : Machine (RetryingTts ρ α) (RetryAction ρ α) (RetryObs ρ) := { step := step cb cfg }

/-- The breaker admits the attempt: it is not open, and unless it is the first,
for which the breaker has been asked, a call would be let through. -/
def Admits (attempt : Nat) (st : State) : Prop :=
  st.isOpen = false ∧ (0 < attempt → ∀ now, (cb.canCall now st).2 = .ok ())

/-- Every attempt to come would be admitted now. -/
def ToComeAdmitted (_ : List (RetryObs ρ)) (s : RetryingTts ρ α) : Prop :=
  ∀ (i : Nat) (c : Synthesis ρ α) (attempt : Nat), s.calls[i]? = some c → c.stage.armed = some attempt →
    Admits cb attempt s.breaker.state

/-- How often call `i` has called the provider. -/
def made (i : Nat) (h : List (RetryObs ρ)) : Nat := h.countP (fun | .issued j _ _ _ => j = i)

/-- In a run, each call of the provider was made while the breaker admitted it,
and no `synthesize` made more than `max_attempts` of them. -/
def CallsAdmitted (clock : Nat) (as : List (RetryAction ρ α)) : Prop :=
  ∀ (s : RetryingTts ρ α) (o : List (RetryObs ρ)), (machine cb cfg).run (.new clock) as = some (s, o) →
    (∀ i attempt request st, .issued i attempt request st ∈ o → Admits cb attempt st) ∧
      ∀ i, made i o ≤ cfg.maxAttempts

/-- And at any moment of the run the attempts to come would be admitted. -/
def RetriesAdmitted (clock : Nat) (as : List (RetryAction ρ α)) : Prop :=
  CallsAdmitted cb cfg clock as ∧ (machine cb cfg).Throughout (ToComeAdmitted cb) [] (.new clock) as

/-- A failure reported in this state leaves the breaker open: it is open, half
open, or one failure below its threshold. -/
def Trips : State → Prop
  | .closed failures => cb.failureThreshold ≤ failures + 1
  | .opened _ => True
  | .halfOpen _ => True

/-- A failure that leaves the breaker open is the last attempt of its call, and
finds no other call with an attempt to come. -/
def FailureIsLast (_ : List (RetryObs ρ)) (s : RetryingTts ρ α) (a : RetryAction ρ α) : Prop :=
  ∀ (i : Nat) (e : BoxError) (now : Nat), a = .fail i e now → now ≤ s.breaker.clock →
    Trips cb s.breaker.state →
    ∀ (request : ρ) (attempt : Nat) (lastErr : Option BoxError),
      s.calls[i]? = some ⟨request, .calling attempt lastErr⟩ →
        cfg.maxAttempts ≤ attempt + 1 ∧ ∀ (j : Nat) (c : Synthesis ρ α), j ≠ i → s.calls[j]? = some c →
          c.stage.armed = none

variable {cb cfg}

/-! ## What one step can do -/

variable (cb cfg) in
/-- What one step does, and the call of the provider it makes. -/
inductive Turn (s : RetryingTts ρ α) : RetryAction ρ α → RetryingTts ρ α → List (RetryObs ρ) → Prop where
  | tick {time} : Turn s (.tick time) { s with breaker := { s.breaker with clock := time } } []
  | admitted {request now} (hok : (cb.canCall now s.breaker.state).2 = .ok ()) :
    Turn s (.synthesize request now)
      { breaker := { s.breaker with state := (cb.canCall now s.breaker.state).1 },
        calls := s.calls ++ [⟨request, cfg.nextAttempt 0 none⟩] } []
  | rejected {request now} :
    Turn s (.synthesize request now)
      { s with calls := s.calls ++ [⟨request, .done (.error "tts circuit open")⟩] } []
  | issued {i request attempt lastErr} (hi : s.calls[i]? = some ⟨request, .ready attempt lastErr⟩) :
    Turn s (.issue i) { s with calls := s.calls.set i ⟨request, .calling attempt lastErr⟩ }
      [.issued i attempt request s.breaker.state]
  | succeeded {i audio request attempt lastErr} (hi : s.calls[i]? = some ⟨request, .calling attempt lastErr⟩) :
    Turn s (.succeed i audio)
      { breaker := { s.breaker with state := .closed 0 }, calls := s.calls.set i ⟨request, .done (.ok audio)⟩ } []
  | failed {i e now request attempt lastErr} (hle : now ≤ s.breaker.clock)
      (hi : s.calls[i]? = some ⟨request, .calling attempt lastErr⟩) :
    Turn s (.fail i e now)
      { breaker := { s.breaker with state := cb.recordFailure now s.breaker.state },
        calls := s.calls.set i ⟨request, cfg.afterFailure s.breaker.clock attempt e⟩ } []
  | woken {i request attempt wake lastErr} (hi : s.calls[i]? = some ⟨request, .sleeping attempt wake lastErr⟩) :
    Turn s (.wake i) { s with calls := s.calls.set i ⟨request, cfg.nextAttempt attempt lastErr⟩ } []
  | dropped {i request stage} (hi : s.calls[i]? = some ⟨request, stage⟩) :
    Turn s (.drop i) { s with calls := s.calls.set i ⟨request, .dropped⟩ } []

theorem step_turn {s s' : RetryingTts ρ α} {a : RetryAction ρ α} {o : List (RetryObs ρ)}
    (h : step cb cfg s a = some (s', o)) : Turn cb cfg s a s' o := by
  cases a with
  | tick time =>
    simp only [step] at h
    split at h <;> cases h
    exact .tick
  | synthesize request now =>
    simp only [step] at h
    split at h
    · split at h
      · rename_i st hcall
        cases h
        have hturn : Turn cb cfg s (.synthesize request now) _ [] := .admitted (congrArg Prod.snd hcall)
        rwa [hcall] at hturn
      · rename_i st retryAfter hcall
        cases h
        have hst : st = s.breaker.state :=
          (congrArg Prod.fst hcall).symm.trans (CircuitBreaker.canCall_error (congrArg Prod.snd hcall))
        rw [hst]
        exact .rejected
    · cases h
  | issue i =>
    simp only [step] at h
    split at h
    · rename_i hi
      cases h
      exact .issued hi
    · cases h
  | succeed i audio =>
    simp only [step] at h
    split at h
    · rename_i hi
      cases h
      exact .succeeded hi
    · cases h
  | fail i e now =>
    simp only [step] at h
    split at h
    · rename_i hi
      split at h
      · rename_i hle
        cases h
        exact .failed hle hi
      · cases h
    · cases h
  | wake i =>
    simp only [step] at h
    split at h
    · rename_i hi
      split at h <;> cases h
      exact .woken hi
    · cases h
  -- a call is dropped while it waits for the provider, or for its next attempt
  | drop i =>
    simp only [step] at h
    split at h
    · rename_i hi
      cases h
      exact .dropped hi
    · rename_i hi
      cases h
      exact .dropped hi
    · cases h

theorem armed_nextAttempt {attempt k : Nat} {lastErr : Option BoxError}
    (h : (cfg.nextAttempt attempt lastErr : Stage α).armed = some k) : k = attempt ∧ attempt < cfg.maxAttempts := by
  unfold RetryConfig.nextAttempt at h
  split at h
  · rename_i hlt
    cases h
    exact ⟨rfl, hlt⟩
  · cases h

theorem armed_afterFailure {clock attempt k : Nat} {e : BoxError}
    (h : (cfg.afterFailure clock attempt e : Stage α).armed = some k) :
    k = attempt + 1 ∧ attempt + 1 < cfg.maxAttempts := by
  unfold RetryConfig.afterFailure at h
  split at h
  · rename_i hlt
    split at h
    · cases h
      exact ⟨rfl, hlt⟩
    · exact armed_nextAttempt h
  · exact armed_nextAttempt h

theorem armed_afterFailure_of_lt {attempt : Nat} (hlt : attempt + 1 < cfg.maxAttempts) (clock : Nat) (e : BoxError) :
    (cfg.afterFailure clock attempt e : Stage α).armed = some (attempt + 1) := by
  unfold RetryConfig.afterFailure
  rw [if_pos hlt]
  split
  · rfl
  · unfold RetryConfig.nextAttempt
    rw [if_pos hlt]
    rfl

/-! ## At most `max_attempts` calls of the provider -/

variable (cfg) in
/-- A call that stands here can have called the provider `n` times. -/
def Allows (n : Nat) : Stage α → Prop
  | .ready attempt _ => n ≤ attempt ∧ attempt < cfg.maxAttempts
  | .calling attempt _ => n ≤ attempt + 1 ∧ attempt < cfg.maxAttempts
  | .sleeping attempt _ _ => n ≤ attempt ∧ attempt < cfg.maxAttempts
  | .done _ => n ≤ cfg.maxAttempts
  | .dropped => n ≤ cfg.maxAttempts

variable (cfg) in
/-- Every call has called the provider as often as where it stands allows. -/
structure Within (h : List (RetryObs ρ)) (s : RetryingTts ρ α) : Prop where
  calls : ∀ i c, s.calls[i]? = some c → Allows cfg (made i h) c.stage
  others : ∀ i, s.calls.length ≤ i → made i h = 0

theorem Allows.le {n : Nat} {stage : Stage α} (h : Allows cfg n stage) : n ≤ cfg.maxAttempts := by
  cases stage with
  | ready attempt lastErr => exact Nat.le_of_lt (Nat.lt_of_le_of_lt h.1 h.2)
  | calling attempt lastErr => exact Nat.le_trans h.1 h.2
  | sleeping attempt wake lastErr => exact Nat.le_of_lt (Nat.lt_of_le_of_lt h.1 h.2)
  | done result => exact h
  | dropped => exact h

theorem allows_nextAttempt {n attempt : Nat} {lastErr : Option BoxError} (h : n ≤ attempt)
    (hle : n ≤ cfg.maxAttempts) :
    Allows cfg n (cfg.nextAttempt attempt lastErr : Stage α) := by
  unfold RetryConfig.nextAttempt
  by_cases hlt : attempt < cfg.maxAttempts
  · rw [if_pos hlt]
    exact ⟨h, hlt⟩
  · rw [if_neg hlt]
    exact hle

theorem allows_afterFailure {n clock attempt : Nat} {e : BoxError} (h : n ≤ attempt + 1)
    (hlt : attempt < cfg.maxAttempts) :
    Allows cfg n (cfg.afterFailure clock attempt e : Stage α) := by
  have hle : n ≤ cfg.maxAttempts := Nat.le_trans h hlt
  unfold RetryConfig.afterFailure
  split
  · rename_i hmore
    split
    · exact ⟨h, hmore⟩
    · exact allows_nextAttempt h hle
  · exact allows_nextAttempt h hle

theorem made_append (i : Nat) (h o : List (RetryObs ρ)) : made i (h ++ o) = made i h + made i o :=
  List.countP_append

theorem made_issued (i j attempt : Nat) (request : ρ) (st : State) :
    made i [.issued j attempt request st] = if j = i then 1 else 0 := by
  by_cases hj : j = i
  · rw [if_pos hj]
    exact List.countP_singleton.trans (if_pos (decide_eq_true hj))
  · rw [if_neg hj]
    exact List.countP_singleton.trans (if_neg (by rw [decide_eq_true_eq]; exact hj))

/-- A step that makes no call of the provider, and takes one call to a place that
allows as many. -/
theorem Within.set {h : List (RetryObs ρ)} {s : RetryingTts ρ α} (W : Within cfg h s) {i : Nat} {request : ρ}
    {stage : Stage α} (hstage : Allows cfg (made i h) stage) (b : Breaker) :
    Within cfg (h ++ []) ({ breaker := b, calls := s.calls.set i ⟨request, stage⟩ } : RetryingTts ρ α) := by
  rw [List.append_nil]
  constructor
  · intro j c hc
    rcases Slots.set_cases hc with ⟨-, hold⟩ | ⟨hij, hnew⟩
    · exact W.calls j c hold
    · rw [hnew, ← hij]
      exact hstage
  · intro j hj
    rw [List.length_set] at hj
    exact W.others j hj

theorem Within.concat {h : List (RetryObs ρ)} {s : RetryingTts ρ α} (W : Within cfg h s) {request : ρ}
    {stage : Stage α} (hstage : Allows cfg 0 stage) (b : Breaker) :
    Within cfg (h ++ []) ({ breaker := b, calls := s.calls ++ [⟨request, stage⟩] } : RetryingTts ρ α) := by
  rw [List.append_nil]
  constructor
  · intro j c hc
    rcases Slots.concat_cases hc with hold | ⟨hj, hnew⟩
    · exact W.calls j c hold
    · rw [hnew, W.others j (Nat.le_of_eq hj.symm)]
      exact hstage
  · intro j hj
    rw [List.length_append] at hj
    exact W.others j (Nat.le_trans (Nat.le_add_right _ _) hj)

/-- **One step.** No call gets ahead of where it stands. -/
theorem within_step {h : List (RetryObs ρ)} {s s' : RetryingTts ρ α} {a : RetryAction ρ α} {o : List (RetryObs ρ)}
    (W : Within cfg h s) (hs : Turn cb cfg s a s' o) : Within cfg (h ++ o) s' := by
  cases hs with
  | tick =>
    rw [List.append_nil]
    exact ⟨W.calls, W.others⟩
  | admitted hok =>
    apply W.concat
    exact allows_nextAttempt (Nat.le_refl 0) (Nat.zero_le _)
  | rejected =>
    apply W.concat
    exact Nat.zero_le cfg.maxAttempts
  | @issued i request attempt lastErr hi =>
    have hready : made i h ≤ attempt ∧ attempt < cfg.maxAttempts := W.calls i _ hi
    constructor
    · intro j c hc
      rw [made_append, made_issued]
      rcases Slots.set_cases hc with ⟨hij, hold⟩ | ⟨hij, hnew⟩
      · rw [if_neg hij, Nat.add_zero]
        exact W.calls j c hold
      · rw [if_pos hij, hnew, ← hij]
        exact ⟨Nat.succ_le_succ hready.1, hready.2⟩
    · intro j hj
      rw [List.length_set] at hj
      have hlt : i < s.calls.length := (List.getElem?_eq_some_iff.mp hi).1
      rw [made_append, made_issued, if_neg (by omega), W.others j hj]
  | succeeded hi =>
    apply W.set
    exact (W.calls _ _ hi).le
  | failed hle hi =>
    apply W.set
    have hcalling := W.calls _ _ hi
    exact allows_afterFailure hcalling.1 hcalling.2
  | woken hi =>
    apply W.set
    have hsleeping := W.calls _ _ hi
    exact allows_nextAttempt hsleeping.1 hsleeping.le
  | dropped hi =>
    apply W.set
    exact (W.calls _ _ hi).le

theorem within_new (clock : Nat) : Within cfg [] (.new clock : RetryingTts ρ α) :=
  ⟨fun i c hc => (by cases hc), fun _ _ => rfl⟩

theorem Within.made_le {h : List (RetryObs ρ)} {s : RetryingTts ρ α} (W : Within cfg h s) (i : Nat) :
    made i h ≤ cfg.maxAttempts := by
  cases hi : s.calls[i]? with
  | none =>
    rw [W.others i (List.getElem?_eq_none_iff.mp hi)]
    exact Nat.zero_le _
  | some c => exact (W.calls i c hi).le

/-! ## Attempts to come -/

/-- An attempt after the first comes only to a closed breaker. -/
def Stands (attempt : Nat) (st : State) : Prop :=
  st.isOpen = false ∧ (0 < attempt → ∃ failures, st = .closed failures)

theorem Stands.closed (attempt failures : Nat) : Stands attempt (.closed failures) :=
  ⟨rfl, fun _ => ⟨failures, rfl⟩⟩

theorem Stands.admits {attempt : Nat} {st : State} (h : Stands attempt st) : Admits cb attempt st := by
  refine ⟨h.1, fun hlater now => ?_⟩
  obtain ⟨failures, rfl⟩ := h.2 hlater
  rfl

theorem Stands.canCall {attempt now : Nat} {st : State} (h : Stands attempt st)
    (hok : (cb.canCall now st).2 = .ok ()) : Stands attempt (cb.canCall now st).1 := by
  refine ⟨(CircuitBreaker.canCall_ok hok).1, fun hlater => ?_⟩
  obtain ⟨failures, rfl⟩ := h.2 hlater
  exact ⟨failures, rfl⟩

theorem recordFailure_of_not_trips (now : Nat) {st : State} (h : ¬ Trips cb st) :
    ∃ failures, cb.recordFailure now st = .closed failures := by
  cases st with
  | closed failures => exact ⟨failures + 1, if_neg h⟩
  | opened deadline => exact absurd trivial h
  | halfOpen lastProbe => exact absurd trivial h

theorem recordFailure_of_trips {now : Nat} {st : State} (h : Trips cb st) :
    (cb.recordFailure now st).isOpen = true := by
  cases st with
  | closed failures =>
    show (if cb.failureThreshold ≤ failures + 1 then _ else _ : State).isOpen = true
    rw [if_pos (show cb.failureThreshold ≤ failures + 1 from h)]
    rfl
  | opened deadline => rfl
  | halfOpen lastProbe => rfl

/-- The attempts to come stand, and those made were admitted. -/
structure Standing (cb : CircuitBreaker) (h : List (RetryObs ρ)) (s : RetryingTts ρ α) : Prop where
  coming : ∀ (i : Nat) (c : Synthesis ρ α) (attempt : Nat), s.calls[i]? = some c →
    c.stage.armed = some attempt →
    Stands attempt s.breaker.state
  past : ∀ i attempt request st, .issued i attempt request st ∈ h → Admits cb attempt st

/-- A step that makes no call of the provider and takes one call to a place with
no other attempt to come than one that stands. -/
theorem Standing.set {h : List (RetryObs ρ)} {s : RetryingTts ρ α} (S : Standing cb h s) {i : Nat} {request : ρ}
    {stage : Stage α} {b : Breaker} (hst : ∀ attempt, Stands attempt s.breaker.state → Stands attempt b.state)
    (hstage : ∀ attempt, stage.armed = some attempt → Stands attempt b.state) :
    Standing cb (h ++ []) ({ breaker := b, calls := s.calls.set i ⟨request, stage⟩ } : RetryingTts ρ α) := by
  rw [List.append_nil]
  refine ⟨?_, S.past⟩
  intro j c attempt hc harmed
  rcases Slots.set_cases hc with ⟨-, hold⟩ | ⟨-, hnew⟩
  · exact hst attempt (S.coming j c attempt hold harmed)
  · rw [hnew] at harmed
    exact hstage attempt harmed

theorem Standing.concat {h : List (RetryObs ρ)} {s : RetryingTts ρ α} (S : Standing cb h s) {request : ρ}
    {stage : Stage α} {b : Breaker} (hst : ∀ attempt, Stands attempt s.breaker.state → Stands attempt b.state)
    (hstage : ∀ attempt, stage.armed = some attempt → Stands attempt b.state) :
    Standing cb (h ++ []) ({ breaker := b, calls := s.calls ++ [⟨request, stage⟩] } : RetryingTts ρ α) := by
  rw [List.append_nil]
  refine ⟨?_, S.past⟩
  intro j c attempt hc harmed
  rcases Slots.concat_cases hc with hold | ⟨-, hnew⟩
  · exact hst attempt (S.coming j c attempt hold harmed)
  · rw [hnew] at harmed
    exact hstage attempt harmed

/-- **One step.** It keeps the attempts to come standing, unless it reports a
failure that leaves the breaker open while an attempt is to come. -/
theorem standing_step {h : List (RetryObs ρ)} {s s' : RetryingTts ρ α} {a : RetryAction ρ α}
    {o : List (RetryObs ρ)}
    (S : Standing cb h s) (hlast : FailureIsLast cb cfg h s a) (hs : Turn cb cfg s a s' o) :
    Standing cb (h ++ o) s' := by
  cases hs with
  | tick =>
    rw [List.append_nil]
    exact ⟨S.coming, S.past⟩
  | admitted hok =>
    apply S.concat
    · exact fun attempt hstands => hstands.canCall hok
    · intro attempt harmed
      have hnot := (CircuitBreaker.canCall_ok hok).1
      obtain ⟨rfl, -⟩ := armed_nextAttempt harmed
      exact ⟨hnot, fun hlater => absurd hlater (Nat.lt_irrefl 0)⟩
  | rejected =>
    apply S.concat
    · exact fun attempt hstands => hstands
    · intro attempt harmed
      cases harmed
  | @issued i request attempt lastErr hi =>
    -- the attempt is issued under the state that stood for it
    have hstands := S.coming i _ attempt hi rfl
    have hset : Standing cb (h ++ [])
        ({ breaker := s.breaker
           calls := s.calls.set i ⟨request, .calling attempt lastErr⟩ } : RetryingTts ρ α) :=
      S.set (fun k hk => hk) (fun k hk => (by cases hk))
    rw [List.append_nil] at hset
    refine ⟨hset.coming, ?_⟩
    intro j k r st hmem
    rcases List.mem_append.mp hmem with hold | hnew
    · exact S.past j k r st hold
    · cases List.mem_singleton.mp hnew
      exact hstands.admits
  | succeeded hi =>
    apply S.set
    · exact fun attempt _ => Stands.closed attempt 0
    · exact fun attempt harmed => (by cases harmed)
  | @failed i e now request attempt lastErr hle hi =>
    by_cases htrips : Trips cb s.breaker.state
    · -- the breaker is left open: nothing may be to come
      obtain ⟨hmax, hothers⟩ := hlast i e now rfl hle htrips request attempt lastErr hi
      rw [List.append_nil]
      refine ⟨?_, S.past⟩
      intro j c k hc harmed
      rcases Slots.set_cases hc with ⟨hij, hold⟩ | ⟨-, hnew⟩
      · rw [hothers j c (Ne.symm hij) hold] at harmed
        cases harmed
      · rw [hnew] at harmed
        have hmore := (armed_afterFailure harmed).2
        omega
    · obtain ⟨failures, hclosed⟩ := recordFailure_of_not_trips now htrips
      apply S.set
      · intro k _
        show Stands k (cb.recordFailure now s.breaker.state)
        rw [hclosed]
        exact Stands.closed k failures
      · intro k _
        show Stands k (cb.recordFailure now s.breaker.state)
        rw [hclosed]
        exact Stands.closed k failures
  | @woken i request attempt wake lastErr hi =>
    apply S.set
    · exact fun k hk => hk
    · intro k harmed
      obtain ⟨rfl, -⟩ := armed_nextAttempt harmed
      exact S.coming i _ k hi rfl
  | dropped hi =>
    apply S.set
    · exact fun k hk => hk
    · exact fun k harmed => (by cases harmed)

theorem standing_new (clock : Nat) : Standing cb [] (.new clock : RetryingTts ρ α) :=
  ⟨fun i c attempt hc => (by cases hc), fun i attempt request st hmem => (by cases hmem)⟩

theorem Standing.toComeAdmitted {h : List (RetryObs ρ)} {s : RetryingTts ρ α} (S : Standing cb h s) :
    ToComeAdmitted cb h s := fun i c attempt hc harmed => (S.coming i c attempt hc harmed).admits

theorem failureIsLast_of_next {h : List (RetryObs ρ)} {s : RetryingTts ρ α} {a : RetryAction ρ α}
    (hnext : ∀ s' o, step cb cfg s a = some (s', o) → ToComeAdmitted cb (h ++ o) s') :
    FailureIsLast cb cfg h s a := by
  intro i e now ha hle htrips request attempt lastErr hi
  have hcoming := hnext
    { breaker := { s.breaker with state := cb.recordFailure now s.breaker.state },
      calls := s.calls.set i ⟨request, cfg.afterFailure s.breaker.clock attempt e⟩ } []
    (by
      rw [ha]
      simp only [step, hi]
      rw [if_pos hle])
  have hnone : ∀ (j : Nat) (c : Synthesis ρ α),
    (s.calls.set i ⟨request, cfg.afterFailure s.breaker.clock attempt e⟩)[j]? = some c →
      c.stage.armed = none := by
    intro j c hc
    cases harmed : c.stage.armed with
    | none => rfl
    | some k =>
      have hnot := (hcoming j c k hc harmed).1
      rw [recordFailure_of_trips htrips] at hnot
      cases hnot
  constructor
  · by_contra hlt
    have hself := hnone i _ (List.getElem?_set_self (List.getElem?_eq_some_iff.mp hi).1)
    rw [armed_afterFailure_of_lt (by omega)] at hself
    cases hself
  · intro j c hij hc
    apply hnone j c
    rw [List.getElem?_set_ne (Ne.symm hij)]
    exact hc

/-! ## Runs -/

/-- **Retries.** In a run in which every failure that leaves the breaker open is
the last attempt of its call and finds no other to come, every call of the
provider is made while the breaker admits it. That it is, and would be at any
moment, holds of no other run. -/
theorem retries_admitted_iff (cb : CircuitBreaker) (cfg : RetryConfig) (clock : Nat) (as : List (RetryAction ρ α)) :
    ((machine cb cfg).Along (FailureIsLast cb cfg) [] (.new clock) as → CallsAdmitted cb cfg clock as) ∧
      (RetriesAdmitted cb cfg clock as ↔ (machine cb cfg).Along (FailureIsLast cb cfg) [] (.new clock) as) := by
  have hstanding : ∀ h s a s' o, Standing cb h s → FailureIsLast cb cfg h s a →
      (machine cb cfg).step s a = some (s', o) → Standing cb (h ++ o) s' :=
    fun h (s : RetryingTts ρ α) a s' o S hlast hs => standing_step S hlast (step_turn hs)
  have hcalls : (machine cb cfg).Along (FailureIsLast cb cfg) [] (.new clock) as → CallsAdmitted cb cfg clock as := by
    intro hlast s o hr
    constructor
    · have S := Machine.run_invariant_along hstanding as [] _ s o (standing_new clock) hlast hr
      rw [List.nil_append] at S
      exact S.past
    · intro i
      have W := Machine.run_invariant (P := Within cfg) (fun h s a s' o W hs => within_step W (step_turn hs))
        (within_new clock) hr
      rw [List.nil_append] at W
      exact W.made_le i
  refine ⟨hcalls, ?_, ?_⟩
  · intro hadmitted
    have hcoming := hadmitted.2
    rw [Machine.throughout_iff_along as [] _ (standing_new clock).toComeAdmitted] at hcoming
    apply Machine.along_imp (P := fun _ _ => True) _ _ as [] _ trivial hcoming
    · intro h s a s' o _ _ _
      trivial
    · intro h s a _ hnext
      exact failureIsLast_of_next hnext
  · intro hlast
    exact ⟨hcalls hlast,
      Machine.throughout_of_along hstanding (fun h s S => S.toComeAdmitted) as [] _ (standing_new clock) hlast⟩

/-- The breaker's settings in `factory.rs`. -/
def freshCircuit : CircuitBreaker :=
  { failureThreshold := 5, openDuration := 60000000000, halfOpenProbeGap := 15000000000 }

/-- Three sentences one after the other, the provider down: the fifth failure
opens the breaker, and 200 ms later the third sentence is tried again. -/
def providerDown : List (RetryAction String Unit) :=
  [.synthesize "a" 0, .issue 0, .fail 0 "boom" 0, .tick 200000000, .wake 0, .issue 0, .fail 0 "boom" 200000000,
    .synthesize "b" 200000000, .issue 1, .fail 1 "boom" 200000000, .tick 400000000, .wake 1, .issue 1,
    .fail 1 "boom" 400000000, .synthesize "c" 400000000, .issue 2, .fail 2 "boom" 400000000, .tick 600000000,
    .wake 2, .issue 2]

/-- The sixth call of the provider is made to an open breaker. -/
theorem retry_while_open : ¬ CallsAdmitted freshCircuit RetryConfig.tts 0 providerDown := by
  intro hadmitted
  have hrun : ∃ s o, (machine freshCircuit RetryConfig.tts).run (.new 0) providerDown = some (s, o) ∧
      RetryObs.issued 2 1 "c" (.opened 60400000000) ∈ o := by
    refine ⟨_, _, rfl, ?_⟩
    decide
  obtain ⟨s, o, hr, hmem⟩ := hrun
  exact absurd ((hadmitted s o hr).1 2 1 "c" (.opened 60400000000) hmem).1 (by decide)

end RetryingTts

end AthenaVoice.Providers
