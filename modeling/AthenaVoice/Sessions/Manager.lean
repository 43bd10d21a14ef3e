import AthenaVoice.Core.Event
import AthenaVoice.Lib.Machine
import AthenaVoice.Lib.Table

/-
  The session manager and its idle reaper — `session/manager.rs`, `lib.rs`

  A concurrent map from session ids to what is kept of a session. `open`,
  `touch` and `close` each are one step on it. `reap_idle` is not: it reads the
  clock, collects the ids that are stale, and then closes them one by one, by
  id, and others run in between. One task reaps, every ten seconds.

  The clock is the wall clock in milliseconds, and may be set back. A session's
  channels are left out: nothing here reads them.

  What is proved:
    1. `recent_step` — while the clock is not set back, an entry's activity is
       the latest its id has had.
    2. `reap_idle_iff` — only idle sessions are reaped when every session is
       still idle when its turn comes, and only then: ids are collected once
       and closed unseen, whoever has spoken or come back meanwhile.

  Correspondence (Rust ↔ Lean):
    `SessionState`      `SessionState`
    `open`, `touch`     `SessionManager.openSession`, `SessionManager.touch`
    `close`             `SessionManager.close`
    `reap_idle`         `cutoff`, `SessionManager.staleIds`, then one `close` an id
-/

namespace AthenaVoice.Sessions

open Lib CoreTypes

/-- `SessionState`: `cancel` names the token. -/
structure SessionState where
  sat : Text
  locale : Text
  cancel : Nat
  lastActivityMs : Nat
  deriving DecidableEq, Repr

structure SessionManager where
  map : Table SessionId SessionState

structure SessionExists where
  session : SessionId
  deriving DecidableEq, Repr

namespace SessionManager

/-- `open`, with the new token and the time read. -/
def openSession (m : SessionManager) (session : SessionId) (sat locale : Text) (cancel now : Nat) :
    SessionManager × Except SessionExists Unit :=
  if session ∈ m.map then (m, .error ⟨session⟩)
  else
    ({ map := m.map.insert session { sat := sat, locale := locale, cancel := cancel, lastActivityMs := now } },
      .ok ())

/-- `touch`, with the time read. -/
def touch (m : SessionManager) (session : SessionId) (now : Nat) : SessionManager :=
  match m.map.lookup session with
  | some state => { map := m.map.insert session { state with lastActivityMs := now } }
  | none => m

/-- `close`, with the token it cancels. -/
def close (m : SessionManager) (session : SessionId) : SessionManager × Option Nat :=
  match m.map.lookup session with
  | some state => ({ map := m.map.erase session }, some state.cancel)
  | none => (m, none)

/-- The ids whose last activity lies before the cutoff, in the order the map is
iterated in. -/
def staleIds (m : SessionManager) (order : Readout (Σ _ : SessionId, SessionState)) (cutoff : Nat) :
    List SessionId :=
  ((order.order m.map.entries).filter (fun e => e.2.lastActivityMs < cutoff)).map Sigma.fst

end SessionManager

/-- The cutoff of a reap. The subtraction saturates. -/
def cutoff (now maxIdleMs : Nat) : Nat := now - maxIdleMs

/-- A reap under way: its cutoff and the ids still to be closed. -/
structure Reap where
  cutoff : Nat
  stale : List SessionId
  deriving DecidableEq, Repr

/-- The manager, the wall clock, and the reaper. -/
structure Managed where
  manager : SessionManager
  clock : Nat
  reap : Option Reap

def Managed.init (clock : Nat) : Managed := { manager := { map := ∅ }, clock := clock, reap := none }

inductive ManagedAction where
  | clock (now : Nat)
  | openSession (session : SessionId) (sat locale : Text) (cancel : Nat)
  | touch (session : SessionId)
  | close (session : SessionId)
  /-- `reap_idle` begins: cutoff and collection. -/
  | collect (order : Readout (Σ _ : SessionId, SessionState))
  /-- `reap_idle` closes the next id, or is done. -/
  | reapNext

/-- What is seen of it: a session became active, or ended and its token was
cancelled, closed by its own or by the reap of this cutoff. -/
inductive ManagedObs where
  | opened (session : SessionId) (t : Nat)
  | touched (session : SessionId) (t : Nat)
  | closed (session : SessionId) (cancelled : Nat)
  | reaped (session : SessionId) (cutoff cancelled : Nat)
  deriving DecidableEq, Repr

namespace Managed

def step (maxIdleMs : Nat) (s : Managed) : ManagedAction → Option (Managed × List ManagedObs)
  | .clock now => some ({ s with clock := now }, [])
  | .openSession session sat locale cancel =>
    match s.manager.openSession session sat locale cancel s.clock with
    | (manager, .ok ()) => some ({ s with manager := manager }, [.opened session s.clock])
    | (manager, .error _) => some ({ s with manager := manager }, [])
  | .touch session =>
    some ({ s with manager := s.manager.touch session s.clock },
      if session ∈ s.manager.map then [.touched session s.clock] else [])
  | .close session =>
    match s.manager.close session with
    | (manager, cancelled) =>
      some ({ s with manager := manager }, cancelled.toList.map (.closed session))
  | .collect order =>
    match s.reap with
    | some _ => none
    | none =>
      -- the list is that of one moment; the sessions on it are closed one by one
      let cutoff := cutoff s.clock maxIdleMs
      some ({ s with reap := some { cutoff := cutoff, stale := s.manager.staleIds order cutoff } }, [])
  | .reapNext =>
    match s.reap with
    | none => none
    | some { cutoff := _, stale := [] } => some ({ s with reap := none }, [])
    | some { cutoff := cutoff, stale := session :: stale } =>
      match s.manager.close session with
      | (manager, cancelled) =>
        some ({ s with manager := manager, reap := some { cutoff := cutoff, stale := stale } },
          cancelled.toList.map (.reaped session cutoff))

/-- The machine of the manager's steps. -/
def machine (maxIdleMs : Nat) : Machine Managed ManagedAction ManagedObs := { step := step maxIdleMs }

end Managed

/-! ## What the manager's operations change -/

namespace SessionManager

variable (m : SessionManager) (session : SessionId)

theorem openSession_cases (sat locale : Text) (cancel now : Nat) :
    (session ∈ m.map ∧ m.openSession session sat locale cancel now = (m, .error ⟨session⟩)) ∨
      (m.map.lookup session = none ∧ m.openSession session sat locale cancel now =
        ({ map := m.map.insert session { sat := sat, locale := locale, cancel := cancel, lastActivityMs := now } },
          .ok ())) := by
  unfold openSession
  by_cases h : session ∈ m.map
  · rw [if_pos h]
    exact Or.inl ⟨h, rfl⟩
  · rw [if_neg h]
    exact Or.inr ⟨AList.lookup_eq_none.mpr h, rfl⟩

theorem touch_cases (now : Nat) :
    (m.map.lookup session = none ∧ m.touch session now = m) ∨
      ∃ state m', m.map.lookup session = some state ∧ m.touch session now = m' ∧
        ∀ k, m'.map.lookup k =
          if k = session then some { state with lastActivityMs := now } else m.map.lookup k := by
  unfold touch
  cases h : m.map.lookup session with
  | none => exact Or.inl ⟨rfl, rfl⟩
  | some state => exact Or.inr ⟨state, _, rfl, rfl, fun k => Table.lookup_insert_eq m.map session k _⟩

theorem close_cases :
    (m.map.lookup session = none ∧ m.close session = (m, none)) ∨
      ∃ state m', m.map.lookup session = some state ∧ m.close session = (m', some state.cancel) ∧
        ∀ k, m'.map.lookup k = if k = session then none else m.map.lookup k := by
  unfold close
  cases h : m.map.lookup session with
  | none => exact Or.inl ⟨rfl, rfl⟩
  | some state => exact Or.inr ⟨state, _, rfl, rfl, fun k => Table.lookup_erase_eq m.map session k⟩

end SessionManager

/-! ## Activity -/

/-- The session was opened, or touched, at this time. -/
def Active (session : SessionId) (t : Nat) (h : List ManagedObs) : Prop :=
  .opened session t ∈ h ∨ .touched session t ∈ h

/-- A session reaped was not active after the cutoff of the reap. -/
def Fair (a b : ManagedObs) : Prop :=
  ∀ session cutoff cancelled t, b = .reaped session cutoff cancelled →
    a = .opened session t ∨ a = .touched session t → t ≤ cutoff

/-- Only idle sessions were reaped. -/
def ReapsIdle (h : List ManagedObs) : Prop := h.Pairwise Fair

/-- The wall clock is not set back. -/
def Forward (_ : List ManagedObs) (s : Managed) : ManagedAction → Prop
  | .clock now => s.clock ≤ now
  | _ => True

/-- A session whose turn has come is still idle: the activity last noted does
not lie after the cutoff. -/
def StillIdle (_ : List ManagedObs) (s : Managed) (a : ManagedAction) : Prop :=
  a = .reapNext → ∀ reap session rest, s.reap = some reap → reap.stale = session :: rest →
    ∀ state, s.manager.map.lookup session = some state → state.lastActivityMs ≤ reap.cutoff

/-- Neither the clock nor the session's activity has moved against the reaper. -/
def StaysIdle (h : List ManagedObs) (s : Managed) (a : ManagedAction) : Prop := Forward h s a ∧ StillIdle h s a

/-- The activity noted of a session is one it had. -/
def Known (h : List ManagedObs) (s : Managed) : Prop :=
  ∀ session state, s.manager.map.lookup session = some state → Active session state.lastActivityMs h

/-- No activity lies after the one noted, or in the future. -/
def Recent (h : List ManagedObs) (s : Managed) : Prop :=
  ∀ session t, Active session t h →
    t ≤ s.clock ∧ ∀ state, s.manager.map.lookup session = some state → t ≤ state.lastActivityMs

namespace Managed

/-- What one step does to the entries, and what is seen of it. -/
inductive Effect (s s' : Managed) : ManagedAction → List ManagedObs → Prop where
  | clock {now} (hclock : s'.clock = now) (hsame : s'.manager = s.manager) : Effect s s' (.clock now) []
  | opened {session sat locale cancel} (hclock : s'.clock = s.clock)
      (hlookup : ∀ k, s'.manager.map.lookup k = if k = session then
        some { sat := sat, locale := locale, cancel := cancel, lastActivityMs := s.clock }
        else s.manager.map.lookup k) :
      Effect s s' (.openSession session sat locale cancel) [.opened session s.clock]
  | touched {session state} (hclock : s'.clock = s.clock) (hstate : s.manager.map.lookup session = some state)
      (hlookup : ∀ k, s'.manager.map.lookup k = if k = session then
        some { state with lastActivityMs := s.clock } else s.manager.map.lookup k) :
      Effect s s' (.touch session) [.touched session s.clock]
  | closed {session state} (hclock : s'.clock = s.clock) (hstate : s.manager.map.lookup session = some state)
      (hlookup : ∀ k, s'.manager.map.lookup k = if k = session then none else s.manager.map.lookup k) :
      Effect s s' (.close session) [.closed session state.cancel]
  | reaped {reap session rest state} (hclock : s'.clock = s.clock) (hreap : s.reap = some reap)
      (hstale : reap.stale = session :: rest) (hstate : s.manager.map.lookup session = some state)
      (hlookup : ∀ k, s'.manager.map.lookup k = if k = session then none else s.manager.map.lookup k) :
      Effect s s' .reapNext [.reaped session reap.cutoff state.cancel]
  | quiet {a} (hclock : s'.clock = s.clock) (hsame : ∀ k, s'.manager.map.lookup k = s.manager.map.lookup k)
      (hnot : a = .reapNext → ∀ reap session rest, s.reap = some reap → reap.stale = session :: rest →
        s.manager.map.lookup session = none) : Effect s s' a []

theorem step_effect {maxIdleMs : Nat} {s s' : Managed} {a : ManagedAction} {o : List ManagedObs}
    (h : step maxIdleMs s a = some (s', o)) : Effect s s' a o := by
  cases a with
  | clock now =>
    cases h
    exact .clock rfl rfl
  | openSession session sat locale cancel =>
    simp only [step] at h
    rcases s.manager.openSession_cases session sat locale cancel s.clock with ⟨-, hopen⟩ | ⟨hnone, hopen⟩
    · rw [hopen] at h
      cases h
      exact .quiet rfl (fun k => rfl) (fun ha => by cases ha)
    · rw [hopen] at h
      cases h
      exact .opened rfl (fun k => Table.lookup_insert_eq _ session k _)
  | touch session =>
    simp only [step] at h
    rcases s.manager.touch_cases session s.clock with ⟨hnone, htouch⟩ | ⟨state, m', hstate, htouch, hlookup⟩
    · rw [htouch, if_neg (AList.lookup_eq_none.mp hnone)] at h
      cases h
      exact .quiet rfl (fun k => rfl) (fun ha => by cases ha)
    · have hpresent : session ∈ s.manager.map := Table.mem_iff_isSome.mpr (by rw [hstate]; rfl)
      rw [htouch, if_pos hpresent] at h
      cases h
      exact .touched rfl hstate hlookup
  | close session =>
    simp only [step] at h
    rcases s.manager.close_cases session with ⟨-, hclose⟩ | ⟨state, m', hstate, hclose, hlookup⟩
    · rw [hclose] at h
      cases h
      exact .quiet rfl (fun k => rfl) (fun ha => by cases ha)
    · rw [hclose] at h
      cases h
      exact .closed rfl hstate hlookup
  | collect order =>
    simp only [step] at h
    split at h
    · cases h
    · cases h
      exact .quiet rfl (fun k => rfl) (fun ha => by cases ha)
  -- the reaper closes one session of its list, which may be gone by now
  | reapNext =>
    simp only [step] at h
    split at h
    · cases h
    · rename_i hreap
      cases h
      refine .quiet rfl (fun k => rfl) ?_
      intro _ reap session rest hr hstale
      rw [hreap] at hr
      cases hr
      cases hstale
    · rename_i cutoff session stale hreap
      rcases s.manager.close_cases session with ⟨hnone, hclose⟩ | ⟨state, m', hstate, hclose, hlookup⟩
      · rw [hclose] at h
        cases h
        refine .quiet rfl (fun k => rfl) ?_
        intro _ reap session' rest hr hstale
        rw [hreap] at hr
        cases hr
        cases hstale
        exact hnone
      · rw [hclose] at h
        cases h
        exact Effect.reaped (by rfl) hreap rfl hstate hlookup

end Managed

/-! ## Invariants -/

theorem active_snoc {session : SessionId} {t : Nat} {h : List ManagedObs} {x : ManagedObs} :
    Active session t (h ++ [x]) ↔ Active session t h ∨ x = .opened session t ∨ x = .touched session t := by
  unfold Active
  simp only [List.mem_append, List.mem_singleton, eq_comm (b := x)]
  tauto

theorem Active.append {session : SessionId} {t : Nat} {h : List ManagedObs} (ha : Active session t h)
    (o : List ManagedObs) : Active session t (h ++ o) :=
  ha.imp (List.mem_append_left o) (List.mem_append_left o)

theorem known_step {h : List ManagedObs} {s s' : Managed} {a : ManagedAction} {o : List ManagedObs}
    (K : Known h s) (he : s.Effect s' a o) : Known (h ++ o) s' := by
  intro k state hk
  cases he with
  | clock hclock hsame =>
    rw [hsame] at hk
    exact (K k state hk).append []
  | @opened session sat locale cancel hclock hlookup =>
    rw [hlookup] at hk
    split at hk
    · rename_i hsession
      cases hk
      exact active_snoc.mpr (Or.inr (Or.inl (by rw [hsession])))
    · exact (K k state hk).append _
  | @touched session old hclock hstate hlookup =>
    rw [hlookup] at hk
    split at hk
    · rename_i hsession
      cases hk
      exact active_snoc.mpr (Or.inr (Or.inr (by rw [hsession])))
    · exact (K k state hk).append _
  | closed hclock hstate hlookup =>
    rw [hlookup] at hk
    split at hk
    · cases hk
    · exact (K k state hk).append _
  | reaped hclock hreap hstale hstate hlookup =>
    rw [hlookup] at hk
    split at hk
    · cases hk
    · exact (K k state hk).append _
  | quiet hclock hsame hnot =>
    rw [hsame] at hk
    exact (K k state hk).append []

theorem Recent.noted {h : List ManagedObs} {s s' : Managed} {x : ManagedObs} {session : SessionId}
    {noted : SessionState}
    (R : Recent h s) (hclock : s'.clock = s.clock)
    (hx : ∀ k t, x = .opened k t ∨ x = .touched k t → k = session ∧ t = s.clock)
    (hnoted : noted.lastActivityMs = s.clock)
    (hlookup : ∀ k, s'.manager.map.lookup k = if k = session then some noted else s.manager.map.lookup k) :
    Recent (h ++ [x]) s' := by
  intro k t hk
  have hpast : t ≤ s.clock := by
    rcases active_snoc.mp hk with hk | hk
    · exact (R k t hk).1
    · exact (hx k t hk).2.le
  refine ⟨hclock ▸ hpast, ?_⟩
  intro state hstate
  rw [hlookup] at hstate
  split at hstate
  · cases hstate
    exact hpast.trans hnoted.ge
  · rename_i hsession
    rcases active_snoc.mp hk with hk | hk
    · exact (R k t hk).2 state hstate
    · exact absurd (hx k t hk).1 hsession

theorem Recent.kept {h : List ManagedObs} {s s' : Managed} {o : List ManagedObs} (R : Recent h s)
    (hclock : s'.clock = s.clock) (ho : ∀ k t, ¬ Active k t o)
    (hlookup : ∀ k state, s'.manager.map.lookup k = some state → s.manager.map.lookup k = some state) :
    Recent (h ++ o) s' := by
  intro k t hk
  have hbefore : Active k t h := by
    have hsilent := ho k t
    unfold Active at hk hsilent ⊢
    simp only [List.mem_append] at hk
    tauto
  exact ⟨hclock ▸ (R k t hbefore).1, fun state hstate => (R k t hbefore).2 state (hlookup k state hstate)⟩

/-- **One step.** If the clock is not set back, the activity noted stays the latest. -/
theorem recent_step {h : List ManagedObs} {s s' : Managed} {a : ManagedAction} {o : List ManagedObs}
    (R : Recent h s) (hforward : Forward h s a) (he : s.Effect s' a o) : Recent (h ++ o) s' := by
  cases he with
  | clock hclock hsame =>
    intro k t hk
    rw [List.append_nil] at hk
    obtain ⟨hpast, hlast⟩ := R k t hk
    refine ⟨?_, ?_⟩
    · rw [hclock]
      -- the only place where the clock matters: it must not go back
      exact hpast.trans hforward
    · rw [hsame]
      exact hlast
  | opened hclock hlookup =>
    refine R.noted hclock ?_ rfl hlookup
    intro k t hx
    rcases hx with hx | hx <;> cases hx
    exact ⟨rfl, rfl⟩
  | touched hclock hold hlookup =>
    refine R.noted hclock ?_ rfl hlookup
    intro k t hx
    rcases hx with hx | hx <;> cases hx
    exact ⟨rfl, rfl⟩
  | closed hclock hold hlookup =>
    apply R.kept hclock (fun k t => by simp [Active])
    intro k state hstate
    rw [hlookup] at hstate
    split at hstate
    · cases hstate
    · exact hstate
  | reaped hclock hreap hstale hold hlookup =>
    apply R.kept hclock (fun k t => by simp [Active])
    intro k state hstate
    rw [hlookup] at hstate
    split at hstate
    · cases hstate
    · exact hstate
  | quiet hclock hsame hnot =>
      exact R.kept hclock (fun k t => by simp [Active]) (fun k state hstate => hsame k ▸ hstate)

/-! ## The reaper -/

theorem reapsIdle_append {h o : List ManagedObs} (hh : ReapsIdle h) (ho : ReapsIdle o)
    (hcross : ∀ a ∈ h, ∀ b ∈ o, Fair a b) : ReapsIdle (h ++ o) := List.pairwise_append.mpr ⟨hh, ho, hcross⟩

theorem fair_of_not_reaped {a b : ManagedObs}
    (hb : ∀ session cutoff cancelled, b ≠ .reaped session cutoff cancelled) :
    Fair a b := fun session cutoff cancelled _ h => absurd h (hb session cutoff cancelled)

theorem reapsIdle_step {h : List ManagedObs} {s s' : Managed} {a : ManagedAction} {o : List ManagedObs}
    (hidle : ReapsIdle h) (R : Recent h s) (hstill : StillIdle h s a) (he : s.Effect s' a o) : ReapsIdle (h ++ o) := by
  cases he with
  | clock hclock hsame => rwa [List.append_nil]
  | opened hclock hlookup =>
    refine reapsIdle_append hidle (List.pairwise_singleton _ _) (fun a _ b hb => fair_of_not_reaped ?_)
    rw [List.mem_singleton.mp hb]
    exact fun _ _ _ h => by cases h
  | touched hclock hold hlookup =>
    refine reapsIdle_append hidle (List.pairwise_singleton _ _) (fun a _ b hb => fair_of_not_reaped ?_)
    rw [List.mem_singleton.mp hb]
    exact fun _ _ _ h => by cases h
  | closed hclock hold hlookup =>
    refine reapsIdle_append hidle (List.pairwise_singleton _ _) (fun a _ b hb => fair_of_not_reaped ?_)
    rw [List.mem_singleton.mp hb]
    exact fun _ _ _ h => by cases h
  | @reaped reap session rest state hclock hreap hstale hold hlookup =>
    apply reapsIdle_append hidle (List.pairwise_singleton _ _)
    intro a ha b hb k cutoff cancelled t hb' hactive
    rw [List.mem_singleton.mp hb] at hb'
    cases hb'
    have hat : Active session t h := by
      rcases hactive with rfl | rfl
      · exact Or.inl ha
      · exact Or.inr ha
    exact ((R session t hat).2 state hold).trans (hstill rfl reap session rest hreap hstale state hold)
  | quiet hclock hsame hnot => rwa [List.append_nil]

theorem not_reapsIdle_step {maxIdleMs : Nat} {h : List ManagedObs} {s s' : Managed} {a : ManagedAction}
    {o : List ManagedObs} (K : Known h s) (hnot : ¬ StillIdle h s a)
    (hs : (Managed.machine maxIdleMs).step s a = some (s', o)) : ¬ ReapsIdle (h ++ o) := by
  unfold StillIdle at hnot
  push Not at hnot
  obtain ⟨rfl, reap, session, rest, hreap, hstale, state, hstate, hactive⟩ := hnot
  have he : s.Effect s' .reapNext o :=
    Managed.step_effect (show Managed.step maxIdleMs s .reapNext = some (s', o) from hs)
  cases he with
  | @reaped reap' session' rest' state' hclock hreap' hstale' hstate' hlookup =>
    rw [hreap] at hreap'
    cases hreap'
    rw [hstale] at hstale'
    cases hstale'
    rw [hstate] at hstate'
    cases hstate'
    intro hidle
    have hcross := (List.pairwise_append.mp hidle).2.2
    have hle : state.lastActivityMs ≤ reap.cutoff := by
      rcases K session state hstate with hopened | htouched
      · exact hcross _ hopened _ List.mem_cons_self _ _ _ _ rfl (Or.inl rfl)
      · exact hcross _ htouched _ List.mem_cons_self _ _ _ _ rfl (Or.inr rfl)
    omega
  | quiet hclock hsame hnone =>
    rw [hnone rfl reap session rest hreap hstale] at hstate
    cases hstate

/-- **The reaper.** In every run of opening, touching, closing and reaping:
if the clock is not set back and every session is still idle when its turn
comes, only idle sessions are reaped; and one that is not is a session reaped
that was active after the cutoff. -/
theorem reap_idle_iff (maxIdleMs clock : Nat) (as : List ManagedAction) (s' : Managed) (o : List ManagedObs)
    (hr : (Managed.machine maxIdleMs).run (.init clock) as = some (s', o)) :
    ((Managed.machine maxIdleMs).Along StaysIdle [] (.init clock) as → ReapsIdle o) ∧
      (ReapsIdle o → (Managed.machine maxIdleMs).Along StillIdle [] (.init clock) as) := by
  have hknown : Known [] (.init clock) := fun session state h => by cases h
  have hrecent : Recent [] (.init clock) := fun session t h => by cases h <;> contradiction
  refine ⟨?_, ?_⟩
  · intro halong
    have hinv := Machine.run_invariant_along (P := fun h s => ReapsIdle h ∧ Recent h s) ?_ as [] _ s' o
      ⟨List.Pairwise.nil, hrecent⟩ halong hr
    · rw [List.nil_append] at hinv
      exact hinv.1
    · intro h s a s' o hp hc hs
      have he := Managed.step_effect hs
      exact ⟨reapsIdle_step hp.1 hp.2 hc.2 he, recent_step hp.2 hc.1 he⟩
  · intro hidle
    have hlost := Machine.along_or_lost (P := Known) (Q := fun h _ => ¬ ReapsIdle h) (C := StillIdle)
      (fun h s a s' o K _ hs => known_step K (Managed.step_effect hs))
      (fun h s a s' o K hnot hs => not_reapsIdle_step K hnot hs)
      (fun h s a s' o hnot _ hidle => hnot (List.pairwise_append.mp hidle).1) as [] _ s' o hknown hr
    rw [List.nil_append] at hlost
    rcases hlost with ⟨halong, -⟩ | ⟨-, hnot⟩
    · exact halong
    · exact absurd hidle hnot

/-- A session silent for 100 ms with a limit of 50 is collected; `late` says
whether it speaks before its turn comes. -/
def silentSession (late : Bool) : List ManagedAction :=
  [.openSession 1 "kitchen".toList "fr".toList 7, .clock 100, .collect .plain] ++
    (if late then [.touch 1] else []) ++ [.reapNext]

/-- Silent, it is reaped. -/
theorem silent_session_reaped :
    ∃ s', (Managed.machine 50).run (.init 0) (silentSession false) = some (s', [.opened 1 0, .reaped 1 50 7]) ∧
      ((Managed.machine 50).Along StaysIdle [] (.init 0) (silentSession false) →
        ReapsIdle [.opened 1 0, .reaped 1 50 7]) := by
  have hr : (Managed.machine 50).run (.init 0) (silentSession false) =
      some (⟨⟨∅⟩, 100, some ⟨50, []⟩⟩, [.opened 1 0, .reaped 1 50 7]) := rfl
  exact ⟨_, hr, (reap_idle_iff 50 0 _ _ _ hr).1⟩

/-- It speaks at 100, and is reaped as silent since 50. -/
theorem speaking_session_reaped :
    ∃ s', (Managed.machine 50).run (.init 0) (silentSession true) =
        some (s', [.opened 1 0, .touched 1 100, .reaped 1 50 7]) ∧
      ¬ ReapsIdle [.opened 1 0, .touched 1 100, .reaped 1 50 7] := by
  refine ⟨⟨⟨∅⟩, 100, some ⟨50, []⟩⟩, rfl, ?_⟩
  intro hidle
  have hfair := (List.pairwise_cons.mp (List.pairwise_cons.mp hidle).2).1 (.reaped 1 50 7) List.mem_cons_self
  exact absurd (hfair 1 50 7 100 rfl (Or.inr rfl)) (by decide)

end AthenaVoice.Sessions
