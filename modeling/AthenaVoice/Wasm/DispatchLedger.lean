import AthenaVoice.Wasm.Dispatcher

/-
  What becomes of the requests to skills

  Requests move from the mailbox through the actor to their answers, and the
  lists a history holds of them differ by what is under way. The numbers make
  requests distinct, so an answer can be traced to the one run it came of.

  What is proved:
    1. `queued_step`, `accounted_step` — one step keeps the lists, the answers
       with their reasons and the poisoned instances in account.
    2. `answers_alone` — the actor needs nobody to answer what it has in hand.
    3. `dispatched_in_order`, `panic_quarantined` — what follows for every run.
-/

namespace AthenaVoice.Wasm

open Lib CoreTypes Dispatcher
open Sdk (SkillResult SkillError)

/-- The requests a history tells of, and where they are. -/
structure Queued (h : List DispatchObs) (s : Dispatcher) : Prop where
  order : acceptedOf h = invokedOf h ++ s.phase.taken ++ s.mailbox ++ droppedOf h
  run : invokedOf h = answeredOf h ++ s.phase.underWay
  room : s.mailbox.length ≤ mailboxSize
  dropped : droppedOf h ≠ [] → s.phase = .stopped
  numbered : (acceptedOf h).Pairwise (fun a b => a.ticket < b.ticket) ∧ ∀ req ∈ acceptedOf h, req.ticket < s.asked

/-- Why a request is answered without its guest being run, at the step of the
actor that decides it. -/
inductive Unserved (deps : DispatchDeps) (before : List DispatchObs) (s : Dispatcher) (chance : Chance)
    (req : DispatchRequest) : SkillResult → Prop where
  /-- The blocking thread never ran. -/
  | cancelled (e : Text) (hphase : s.phase = .looking req) (hjoin : chance.joinError = some e) :
      Unserved deps before s chance req (dispatchCancelled e)
  | clock (e : Text) (hphase : s.phase = .looking req) (hjoin : chance.joinError = none)
      (hclock : chance.clock = .error e) : Unserved deps before s chance req (timeError e)
  /-- No skill of that name is loaded. -/
  | unknown (nowSec : UInt64) (hphase : s.phase = .looking req) (hjoin : chance.joinError = none)
      (hclock : chance.clock = .ok nowSec) (habsent : s.registry.plugins.lookup req.skill = none) :
      Unserved deps before s chance req (unknownSkill req.skill)
  /-- The retention of its instance is longer than the time there has been. -/
  | overflow (handle : Nat) (nowSec : UInt64) (hphase : s.phase = .locking req handle nowSec)
      (hfound : .found req handle ∈ before) (hclean : .poisoned handle ∉ before)
      (hover : overflows deps handle nowSec = true) : Unserved deps before s chance req (skillPanicked overflowReason)
  /-- Its instance had panicked before. -/
  | poisoned (handle : Nat) (nowSec : UInt64) (hphase : s.phase = .locking req handle nowSec)
      (hfound : .found req handle ∈ before) (hmem : .poisoned handle ∈ before) :
      Unserved deps before s chance req (skillPanicked poisonReason)

/-- At some step of the run it is decided that the request is answered so,
without its guest being run. -/
def Refused (deps : DispatchDeps) (registry : Registry) (as : List DispatchAction) (req : DispatchRequest)
    (outcome : SkillResult) : Prop :=
  (machine deps).Sometime (spawn registry)
    (fun before s a => ∃ chance, a = .handleOne chance ∧ Unserved deps before s chance req outcome) as

/-- Why a request is answered as it is. -/
def Justified (refused : DispatchRequest → SkillResult → Prop) (h : List DispatchObs) (req : DispatchRequest)
    (outcome : SkillResult) : Prop :=
  (∃ handle run, .ran handle req run ∈ h ∧ outcome = run.outcome) ∨ refused req outcome

/-- What is seen of the mailbox, of an instance and of its guest has its cause
in the step. -/
def Caused (before : List DispatchObs) (s : Dispatcher) (a : DispatchAction) (o : List DispatchObs) : Prop :=
  match a with
  | .ask session skill intent =>
    o = [if s.phase = .stopped then .refused (s.request session skill intent)
      else .accepted (s.request session skill intent)]
  | .handleOne chance =>
    (∀ req, .accepted req ∉ o) ∧
      (∀ req handle, .found req handle ∈ o → s.phase = .looking req ∧
        s.registry.plugins.lookup req.skill = some handle) ∧
      ∀ handle req run, .ran handle req run ∈ o →
        s.phase = .handling req handle ∧ .found req handle ∈ before ∧ run = chance.guest
  | _ => ∀ x ∈ o, ∃ req, x = .dropped req

/-- The actor is about to answer a request so. -/
def DispatchPhase.Settles (req : DispatchRequest) (outcome : SkillResult) : DispatchPhase → Prop
  | .answering req' outcome' => req' = req ∧ outcome' = outcome
  | .reporting req' reason => req' = req ∧ outcome = skillPanicked reason
  | _ => False

theorem DispatchPhase.Settles.underWay {req : DispatchRequest} {outcome : SkillResult} {phase : DispatchPhase}
    (h : phase.Settles req outcome) : req ∈ phase.underWay := by
  cases phase with
  | answering req' outcome' => exact h.1 ▸ List.mem_singleton_self _
  | reporting req' reason => exact h.1 ▸ List.mem_singleton_self _
  | _ => cases h

/-- What is known of the answers, given and to be given. -/
structure Traced (refused : DispatchRequest → SkillResult → Prop) (h : List DispatchObs)
    (s : Dispatcher) : Prop where
  answered : ∀ req outcome, .answered req outcome ∈ h → Justified refused h req outcome
  settles : ∀ req outcome, s.phase.Settles req outcome → Justified refused h req outcome
  ran : ∀ handle req run, .ran handle req run ∈ h →
    (∀ outcome, .answered req outcome ∈ h → outcome = run.outcome) ∧
      (req ∈ answeredOf h ∨ s.phase.Settles req run.outcome)
  order : (ranOf h).Sublist (answeredOf h ++ s.phase.decided)

/-- The instance a request has, from when it is found until its guest was run. -/
def DispatchPhase.instance? : DispatchPhase → Option (DispatchRequest × Nat)
  | .locking req handle _ | .handling req handle => some (req, handle)
  | _ => none

/-- The instance at hand was found for the request at hand. -/
def Found (h : List DispatchObs) (s : Dispatcher) : Prop :=
  ∀ req handle, s.phase.instance? = some (req, handle) → .found req handle ∈ h

/-- A request reached an instance whose mutex was poisoned. -/
def FoundPoisoned (h : List DispatchObs) (req : DispatchRequest) (handle : Nat) : Prop :=
  ∃ before after, h = before ++ .found req handle :: after ∧ .poisoned handle ∈ before

def Unpoisoned (before : List DispatchObs) : DispatchObs → Prop
  | .ran handle _ _ => .poisoned handle ∉ before
  | _ => True

/-- What is known of the poisoned instances. -/
structure Quarantined (h : List DispatchObs) (s : Dispatcher) : Prop where
  poisoned : ∀ handle, .poisoned handle ∈ h ↔ handle ∈ s.poisoned
  entered : ∀ req handle, s.phase = .handling req handle → handle ∉ s.poisoned
  ran : Machine.Recorded Unpoisoned h
  refused : ∀ req handle, FoundPoisoned h req handle →
    (∀ outcome, .answered req outcome ∈ h → outcome = skillPanicked poisonReason) ∧
      (req ∈ answeredOf h ∨ (∃ nowSec, s.phase = .locking req handle nowSec) ∨
        s.phase.Settles req (skillPanicked poisonReason))

section Steps

variable {deps : DispatchDeps} {h o : List DispatchObs} {s s' : Dispatcher} {chance : Chance}

theorem acceptedOf_append (h o : List DispatchObs) : acceptedOf (h ++ o) = acceptedOf h ++ acceptedOf o :=
  List.filterMap_append

theorem invokedOf_append (h o : List DispatchObs) : invokedOf (h ++ o) = invokedOf h ++ invokedOf o :=
  List.filterMap_append

theorem answeredOf_append (h o : List DispatchObs) : answeredOf (h ++ o) = answeredOf h ++ answeredOf o :=
  List.filterMap_append

theorem droppedOf_append (h o : List DispatchObs) : droppedOf (h ++ o) = droppedOf h ++ droppedOf o :=
  List.filterMap_append

theorem ranOf_append (h o : List DispatchObs) : ranOf (h ++ o) = ranOf h ++ ranOf o :=
  List.filterMap_append

theorem mem_answeredOf {req : DispatchRequest} : req ∈ answeredOf h ↔ ∃ outcome, .answered req outcome ∈ h := by
  constructor
  · intro hreq
    obtain ⟨x, hx, hsome⟩ := List.mem_filterMap.mp hreq
    cases x with
    | answered req' outcome =>
      cases hsome
      exact ⟨outcome, hx⟩
    | _ => cases hsome
  · intro ⟨outcome, hx⟩
    exact List.mem_filterMap.mpr ⟨_, hx, rfl⟩

/-! ## The lists -/

theorem Queued.proceed (Q : Queued h s) (haccepted : acceptedOf o = []) (hdropped : droppedOf o = [])
    (hinvoked : invokedOf o ++ s'.phase.taken = s.phase.taken)
    (hanswered : answeredOf o ++ s'.phase.underWay = s.phase.underWay ++ invokedOf o)
    (hstopped : s.phase ≠ .stopped) (hmailbox : s'.mailbox = s.mailbox) (hasked : s'.asked = s.asked) :
    Queued (h ++ o) s' := by
  refine ⟨?_, ?_, ?_, ?_, ?_⟩
  · calc acceptedOf (h ++ o) = invokedOf h ++ s.phase.taken ++ s.mailbox ++ droppedOf h := by
          rw [acceptedOf_append, haccepted, List.append_nil, Q.order]
      _ = invokedOf h ++ invokedOf o ++ s'.phase.taken ++ s'.mailbox ++ droppedOf h := by
          rw [← hinvoked, hmailbox, ← List.append_assoc (invokedOf h)]
      _ = _ := by rw [invokedOf_append, droppedOf_append, hdropped, List.append_nil]
  · rw [invokedOf_append, Q.run, answeredOf_append, List.append_assoc, List.append_assoc, hanswered]
  · rw [hmailbox]
    exact Q.room
  · rw [droppedOf_append, hdropped, List.append_nil]
    exact fun hne => absurd (Q.dropped hne) hstopped
  · rw [acceptedOf_append, haccepted, List.append_nil, hasked]
    exact Q.numbered

theorem handleOne_moves (he : Effect deps s chance s' o) : invokedOf o ++ s'.phase.taken = s.phase.taken ∧
    answeredOf o ++ s'.phase.underWay = s.phase.underWay ++ invokedOf o := by
  cases he with
  | _ =>
    rename_i hphase
    rw [hphase]
    exact ⟨rfl, rfl⟩

theorem queued_handleOne (Q : Queued h s) (he : Effect deps s chance s' o) : Queued (h ++ o) s' := by
  obtain ⟨hinvoked, hanswered⟩ := handleOne_moves he
  cases he with
  | _ =>
    rename_i hphase
    exact Q.proceed rfl rfl hinvoked hanswered (by rw [hphase]; nofun) rfl rfl

theorem Queued.same (Q : Queued h s) (hphase : s'.phase = s.phase) (hmailbox : s'.mailbox = s.mailbox)
    (hasked : s'.asked = s.asked) : Queued (h ++ []) s' := by
  rw [List.append_nil]
  refine ⟨?_, ?_, ?_, ?_, ?_⟩
  · rw [hphase, hmailbox]
    exact Q.order
  · rw [hphase]
    exact Q.run
  · rw [hmailbox]
    exact Q.room
  · rw [hphase]
    exact Q.dropped
  · rw [hasked]
    exact Q.numbered

theorem Queued.refuse (Q : Queued h s) (req : DispatchRequest) :
    Queued (h ++ [.refused req]) { s with asked := s.asked + 1 } := by
  have haccepted : acceptedOf (h ++ [.refused req]) = acceptedOf h := by
    rw [acceptedOf_append]
    exact List.append_nil _
  have hinvoked : invokedOf (h ++ [.refused req]) = invokedOf h := by
    rw [invokedOf_append]
    exact List.append_nil _
  have hanswered : answeredOf (h ++ [.refused req]) = answeredOf h := by
    rw [answeredOf_append]
    exact List.append_nil _
  have hdropped : droppedOf (h ++ [.refused req]) = droppedOf h := by
    rw [droppedOf_append]
    exact List.append_nil _
  refine ⟨?_, ?_, Q.room, ?_, ?_, ?_⟩
  · rw [haccepted, hinvoked, hdropped]
    exact Q.order
  · rw [hinvoked, hanswered]
    exact Q.run
  · rw [hdropped]
    exact Q.dropped
  · rw [haccepted]
    exact Q.numbered.1
  · rw [haccepted]
    exact fun req hreq => Nat.lt_succ_of_lt (Q.numbered.2 req hreq)

theorem Queued.accept (Q : Queued h s) {req : DispatchRequest} (hticket : req.ticket = s.asked)
    (hrunning : s.phase ≠ .stopped) (hroom : s.mailbox.length < mailboxSize) :
    Queued (h ++ [.accepted req]) { s with mailbox := s.mailbox ++ [req], asked := s.asked + 1 } := by
  have hnone : droppedOf h = [] := by
    by_contra hne
    exact hrunning (Q.dropped hne)
  have haccepted : acceptedOf (h ++ [.accepted req]) = acceptedOf h ++ [req] := by
    rw [acceptedOf_append]
    rfl
  have hinvoked : invokedOf (h ++ [.accepted req]) = invokedOf h := by
    rw [invokedOf_append]
    exact List.append_nil _
  have hanswered : answeredOf (h ++ [.accepted req]) = answeredOf h := by
    rw [answeredOf_append]
    exact List.append_nil _
  have hdropped : droppedOf (h ++ [.accepted req]) = [] := by
    rw [droppedOf_append, hnone]
    rfl
  refine ⟨?_, ?_, ?_, ?_, ?_, ?_⟩
  · rw [haccepted, hinvoked, hdropped, Q.order, hnone, List.append_nil, List.append_nil, List.append_assoc]
  · rw [hinvoked, hanswered]
    exact Q.run
  · rw [List.length_append]
    exact hroom
  · rw [hdropped]
    exact fun hne => absurd rfl hne
  · rw [haccepted]
    refine List.pairwise_append.mpr ⟨Q.numbered.1, List.pairwise_singleton _ _, ?_⟩
    intro a ha b hb
    rw [List.mem_singleton.mp hb, hticket]
    exact Q.numbered.2 a ha
  · rw [haccepted]
    intro r hr
    rcases List.mem_append.mp hr with hold | hnew
    · exact Nat.lt_succ_of_lt (Q.numbered.2 r hold)
    · rw [List.mem_singleton.mp hnew, hticket]
      exact Nat.lt_succ_self _

theorem Queued.take (Q : Queued h s) {req : DispatchRequest} {rest : List DispatchRequest}
    (hwaiting : s.phase = .waiting)
    (hmailbox : s.mailbox = req :: rest) : Queued h { s with mailbox := rest, phase := .invoking req } := by
  have hroom := Q.room
  rw [hmailbox, List.length_cons] at hroom
  refine ⟨?_, ?_, Nat.le_of_succ_le hroom, ?_, Q.numbered⟩
  · calc acceptedOf h = invokedOf h ++ [] ++ (req :: rest) ++ droppedOf h := by rw [Q.order, hwaiting, hmailbox]; rfl
      _ = invokedOf h ++ [req] ++ rest ++ droppedOf h := by simp
  · have hrun := Q.run
    rwa [hwaiting] at hrun
  · intro hne
    have hstopped := Q.dropped hne
    rw [hwaiting] at hstopped
    cases hstopped

theorem Queued.stop (Q : Queued h s) (hwaiting : s.phase = .waiting) :
    Queued (h ++ s.mailbox.map .dropped) { s with phase := .stopped, mailbox := [] } := by
  have hnone : droppedOf h = [] := by
    by_contra hne
    have hstopped := Q.dropped hne
    rw [hwaiting] at hstopped
    cases hstopped
  have hall : ∀ {f : DispatchObs → Option DispatchRequest}, (∀ req, f (.dropped req) = none) →
      (s.mailbox.map DispatchObs.dropped).filterMap f = [] := by
    intro f hf
    apply List.filterMap_eq_nil_iff.mpr
    intro x hx
    obtain ⟨req, -, rfl⟩ := List.mem_map.mp hx
    exact hf req
  have haccepted : acceptedOf (h ++ s.mailbox.map .dropped) = acceptedOf h := by
    rw [acceptedOf_append, show acceptedOf (s.mailbox.map .dropped) = [] from hall fun _ => rfl, List.append_nil]
  have hinvoked : invokedOf (h ++ s.mailbox.map .dropped) = invokedOf h := by
    rw [invokedOf_append, show invokedOf (s.mailbox.map .dropped) = [] from hall fun _ => rfl, List.append_nil]
  have hanswered : answeredOf (h ++ s.mailbox.map .dropped) = answeredOf h := by
    rw [answeredOf_append, show answeredOf (s.mailbox.map .dropped) = [] from hall fun _ => rfl, List.append_nil]
  have hdropped : droppedOf (h ++ s.mailbox.map .dropped) = s.mailbox := by
    rw [droppedOf_append, hnone, List.nil_append, droppedOf, List.filterMap_map]
    exact List.filterMap_some
  refine ⟨?_, ?_, Nat.zero_le _, fun _ => rfl, ?_⟩
  · rw [haccepted, hinvoked, hdropped]
    calc acceptedOf h = invokedOf h ++ [] ++ s.mailbox ++ [] := by rw [Q.order, hwaiting, hnone]; rfl
      _ = invokedOf h ++ [] ++ [] ++ s.mailbox := by simp
  · have hrun := Q.run
    rw [hwaiting] at hrun
    rw [hinvoked, hanswered]
    exact hrun
  · rw [haccepted]
    exact Q.numbered

/-- **One step** keeps the lists. -/
theorem queued_step (Q : Queued h s) {a : DispatchAction} (hs : step deps s a = some (s', o)) : Queued (h ++ o) s' := by
  cases a with
  | ask session skill intent =>
    simp only [step] at hs
    split at hs
    · cases hs
    · split at hs
      · cases hs
        exact Q.refuse _
      · rename_i hrunning
        split at hs
        · rename_i hroom
          cases hs
          exact Q.accept rfl hrunning hroom
        · cases hs
  | registry a =>
    cases hs
    exact Q.same rfl rfl rfl
  | take =>
    simp only [step] at hs
    split at hs
    · rename_i req rest hwaiting hmailbox
      cases hs
      rw [List.append_nil]
      exact Q.take hwaiting hmailbox
    · cases hs
  | handleOne chance => exact queued_handleOne Q (handleOne_effect hs)
  | cancel =>
    cases hs
    exact Q.same rfl rfl rfl
  | hangUp =>
    cases hs
    exact Q.same rfl rfl rfl
  | stop =>
    simp only [step] at hs
    split at hs
    · rename_i hends
      cases hs
      exact Q.stop hends.1
    · cases hs

theorem queued_spawn (registry : Registry) : Queued [] (spawn registry) :=
  ⟨rfl, rfl, Nat.zero_le _, fun hne => absurd rfl hne, List.Pairwise.nil, nofun⟩

theorem Queued.distinct (Q : Queued h s) : (answeredOf h ++ s.phase.underWay).Nodup := by
  have hnodup : (acceptedOf h).Nodup :=
    Q.numbered.1.imp (fun hlt heq => absurd (congrArg DispatchRequest.ticket heq) hlt.ne)
  rw [Q.order, List.append_assoc, List.append_assoc] at hnodup
  rw [← Q.run]
  exact (List.nodup_append.mp hnodup).1

/-! ## The answers -/

theorem Justified.mono {refused refused' : DispatchRequest → SkillResult → Prop}
    (hle : ∀ req outcome, refused req outcome → refused' req outcome) {req : DispatchRequest}
    {outcome : SkillResult}
    (hj : Justified refused h req outcome) : Justified refused' (h ++ o) req outcome := by
  rcases hj with ⟨handle, run, hmem, heq⟩ | hu
  · exact .inl ⟨handle, run, List.mem_append_left o hmem, heq⟩
  · exact .inr (hle req outcome hu)

theorem answeredOf_mono {req : DispatchRequest} (hreq : req ∈ answeredOf h) : req ∈ answeredOf (h ++ o) := by
  rw [answeredOf_append]
  exact List.mem_append_left _ hreq

theorem Queued.unanswered (Q : Queued h s) {req : DispatchRequest} (hreq : req ∈ s.phase.underWay) :
    req ∉ answeredOf h := by
  intro hanswered
  exact (List.nodup_append.mp Q.distinct).2.2 req hanswered req hreq rfl

section

variable {refused refused' : DispatchRequest → SkillResult → Prop}
  (hle : ∀ req outcome, refused req outcome → refused' req outcome)
include hle

theorem Traced.quiet (T : Traced refused h s) (hanswered : ∀ req outcome, .answered req outcome ∉ o)
    (hran : ∀ handle req run, .ran handle req run ∉ o)
    (hsettles : ∀ req outcome, s'.phase.Settles req outcome → s.phase.Settles req outcome ∨ refused' req outcome)
    (hkept : ∀ req outcome, s.phase.Settles req outcome → s'.phase.Settles req outcome)
    (hdecided : s.phase.decided.Sublist s'.phase.decided) : Traced refused' (h ++ o) s' := by
  refine ⟨?_, ?_, ?_, ?_⟩
  · intro req outcome hmem
    rcases List.mem_append.mp hmem with hold | hnew
    · exact (T.answered req outcome hold).mono hle
    · exact absurd hnew (hanswered req outcome)
  · intro req outcome hs
    rcases hsettles req outcome hs with hold | hu
    · exact (T.settles req outcome hold).mono hle
    · exact .inr hu
  · intro handle req run hmem
    rcases List.mem_append.mp hmem with hold | hnew
    · obtain ⟨hall, hwhere⟩ := T.ran handle req run hold
      refine ⟨?_, hwhere.imp answeredOf_mono (hkept req _)⟩
      intro outcome hmem
      rcases List.mem_append.mp hmem with hbefore | hnow
      · exact hall outcome hbefore
      · exact absurd hnow (hanswered req outcome)
    · exact absurd hnew (hran handle req run)
  · have hnone : ranOf o = [] := by
      refine List.filterMap_eq_nil_iff.mpr fun x hx => ?_
      cases x with
      | ran handle req run => exact absurd hx (hran handle req run)
      | _ => rfl
    have hnone' : answeredOf o = [] := by
      refine List.filterMap_eq_nil_iff.mpr fun x hx => ?_
      cases x with
      | answered req outcome => exact absurd hx (hanswered req outcome)
      | _ => rfl
    rw [ranOf_append, answeredOf_append, hnone, hnone', List.append_nil, List.append_nil]
    exact T.order.trans (List.Sublist.append_left hdecided _)

theorem Traced.run (Q : Queued h s) (T : Traced refused h s) {req : DispatchRequest} {handle : Nat} {run : GuestRun}
    (hphase : s.phase = .handling req handle)
    (ho : o = [.ran handle req run] ∨ o = [.ran handle req run, .poisoned handle])
    (hsettles : ∀ req' outcome, s'.phase.Settles req' outcome ↔ req' = req ∧ outcome = run.outcome)
    (hdecided : s'.phase.decided = [req]) : Traced refused' (h ++ o) s' := by
  have hfresh : req ∉ answeredOf h := Q.unanswered (by rw [hphase]; exact List.mem_singleton_self req)
  have hanswered : ∀ req' outcome, .answered req' outcome ∉ o := by
    rcases ho with rfl | rfl <;> simp
  have hran : ∀ handle' req' run', .ran handle' req' run' ∈ o ↔ handle' = handle ∧ req' = req ∧
    run' = run := by
    rcases ho with rfl | rfl <;> simp
  refine ⟨?_, ?_, ?_, ?_⟩
  · intro req' outcome hmem
    rcases List.mem_append.mp hmem with hold | hnew
    · exact (T.answered req' outcome hold).mono hle
    · exact absurd hnew (hanswered req' outcome)
  · intro req' outcome hs
    obtain ⟨rfl, rfl⟩ := (hsettles req' outcome).mp hs
    exact .inl ⟨handle, run, List.mem_append_right h ((hran handle req' run).mpr ⟨rfl, rfl, rfl⟩), rfl⟩
  · intro handle' req' run' hmem
    have hold : ∀ outcome, .answered req' outcome ∈ h ++ o → .answered req' outcome ∈ h := by
      intro outcome hmem
      exact (List.mem_append.mp hmem).resolve_right (hanswered req' outcome)
    rcases List.mem_append.mp hmem with hbefore | hnow
    · obtain ⟨hall, hwhere⟩ := T.ran handle' req' run' hbefore
      refine ⟨fun outcome hmem => hall outcome (hold outcome hmem), .inl ?_⟩
      rcases hwhere with hdone | hs
      · exact answeredOf_mono hdone
      · rw [hphase] at hs
        cases hs
    · obtain ⟨rfl, rfl, rfl⟩ := (hran handle' req' run').mp hnow
      refine ⟨?_, .inr ((hsettles _ _).mpr ⟨rfl, rfl⟩)⟩
      intro outcome hmem
      exact absurd (mem_answeredOf.mpr ⟨outcome, hold outcome hmem⟩) hfresh
  · have hbefore : (ranOf h).Sublist (answeredOf h) := by
      have horder := T.order
      rw [hphase] at horder
      rwa [show DispatchPhase.decided (.handling req handle) = [] from rfl, List.append_nil] at horder
    have hlast : ranOf o = [req] ∧ answeredOf o = [] := by
      rcases ho with rfl | rfl <;> exact ⟨rfl, rfl⟩
    rw [ranOf_append, answeredOf_append, hlast.1, hlast.2, hdecided, List.append_nil]
    exact hbefore.append (List.Sublist.refl _)

theorem Traced.answer (Q : Queued h s) (T : Traced refused h s) {req : DispatchRequest} {outcome : SkillResult}
    (hphase : s.phase = .answering req outcome) :
    Traced refused' (h ++ [.answered req outcome]) { s with phase := .waiting } := by
  have hfresh : req ∉ answeredOf h := Q.unanswered (by rw [hphase]; exact List.mem_singleton_self req)
  have hs : s.phase.Settles req outcome := by
    rw [hphase]
    exact ⟨rfl, rfl⟩
  refine ⟨?_, nofun, ?_, ?_⟩
  · intro req' outcome' hmem
    rcases List.mem_append.mp hmem with hold | hnew
    · exact (T.answered req' outcome' hold).mono hle
    · cases List.mem_singleton.mp hnew
      exact (T.settles req outcome hs).mono hle
  · intro handle req' run hmem
    have hold : .ran handle req' run ∈ h := by simpa using hmem
    obtain ⟨hall, hwhere⟩ := T.ran handle req' run hold
    refine ⟨?_, .inl ?_⟩
    · intro outcome' hmem
      rcases List.mem_append.mp hmem with hbefore | hnow
      · exact hall outcome' hbefore
      · cases List.mem_singleton.mp hnow
        rcases hwhere with hdone | hsettles
        · exact absurd hdone hfresh
        · rw [hphase] at hsettles
          exact hsettles.2
    · rcases hwhere with hdone | hsettles
      · exact answeredOf_mono hdone
      · rw [hphase] at hsettles
        exact mem_answeredOf.mpr ⟨outcome, by rw [hsettles.1]; exact List.mem_concat_self⟩
  · have horder := T.order
    rw [hphase] at horder
    rw [ranOf_append, answeredOf_append]
    rwa [show ranOf [DispatchObs.answered req outcome] = [] from rfl, List.append_nil,
      show DispatchPhase.decided .waiting = [] from rfl, List.append_nil]

theorem traced_handleOne (Q : Queued h s) (T : Traced refused h s) (P : Quarantined h s) (F : Found h s)
    (hnow : ∀ req outcome, Unserved deps h s chance req outcome → refused' req outcome)
    (he : Effect deps s chance s' o) : Traced refused' (h ++ o) s' := by
  cases he with
  | invoke req hphase =>
      exact T.quiet hle (by simp) (by simp) nofun (by rw [hphase]; nofun) (by rw [hphase]; exact .slnil)
  | cancelled req e hjoin hphase =>
    refine T.quiet hle (by simp) (by simp) ?_ (by rw [hphase]; nofun) (by rw [hphase]; exact List.nil_sublist _)
    rintro req outcome ⟨rfl, rfl⟩
    exact .inr (hnow _ _ (.cancelled e hphase hjoin))
  | clock req e hjoin hclock hphase =>
    refine T.quiet hle (by simp) (by simp) ?_ (by rw [hphase]; nofun) (by rw [hphase]; exact List.nil_sublist _)
    rintro req outcome ⟨rfl, rfl⟩
    exact .inr (hnow _ _ (.clock e hphase hjoin hclock))
  | unknown req nowSec hjoin hclock habsent hphase =>
    refine T.quiet hle (by simp) (by simp) ?_ (by rw [hphase]; nofun) (by rw [hphase]; exact List.nil_sublist _)
    rintro req outcome ⟨rfl, rfl⟩
    exact .inr (hnow _ _ (.unknown nowSec hphase hjoin hclock habsent))
  | find req handle nowSec hfound hphase =>
    exact T.quiet hle (by simp) (by simp) nofun (by rw [hphase]; nofun) (by rw [hphase]; exact .slnil)
  | refuse req handle nowSec hmem hphase =>
    refine T.quiet hle (by simp) (by simp) ?_ (by rw [hphase]; nofun) (by rw [hphase]; exact List.nil_sublist _)
    rintro req outcome ⟨rfl, rfl⟩
    have hfound := F req handle (by rw [hphase]; rfl)
    exact .inr (hnow _ _ (.poisoned handle nowSec hphase hfound ((P.poisoned handle).mpr hmem)))
  | overflow req handle nowSec hnot hover hphase =>
    refine T.quiet hle (by simp) (by simp) ?_ (by rw [hphase]; nofun) (by rw [hphase]; exact List.nil_sublist _)
    rintro req outcome ⟨rfl, rfl⟩
    have hfound := F req handle (by rw [hphase]; rfl)
    exact .inr (hnow _ _ (.overflow handle nowSec hphase hfound (fun hmem => hnot ((P.poisoned handle).mp hmem)) hover))
  | enter req handle nowSec hnot hphase =>
    exact T.quiet hle (by simp) (by simp) nofun (by rw [hphase]; nofun) (by rw [hphase]; exact .slnil)
  | mutex req handle hmem hphase => exact absurd hmem (P.entered req handle hphase)
  | run req handle result hnot hguest hphase =>
    refine T.run hle Q hphase (.inl rfl) ?_ rfl
    intro req' outcome
    exact ⟨fun hs => ⟨hs.1.symm, hs.2.symm⟩, fun hs => ⟨hs.1.symm, hs.2.symm⟩⟩
  | panic req handle reason hnot hguest hphase =>
    refine T.run hle Q hphase (.inr rfl) ?_ rfl
    intro req' outcome
    exact ⟨fun hs => ⟨hs.1.symm, hs.2⟩, fun hs => ⟨hs.1.symm, hs.2⟩⟩
  | report req reason hphase =>
    refine T.quiet hle (by simp) (by simp) ?_ ?_ (by rw [hphase]; exact List.Sublist.refl _)
    · rintro req' outcome ⟨rfl, rfl⟩
      left
      rw [hphase]
      exact ⟨rfl, rfl⟩
    · rw [hphase]
      rintro req' outcome ⟨rfl, rfl⟩
      exact ⟨rfl, rfl⟩
  | answer req outcome hphase => exact T.answer hle Q hphase

end

/-! ## The poisoned instances -/

theorem FoundPoisoned.earlier {req : DispatchRequest} {handle : Nat} (hf : FoundPoisoned (h ++ o) req handle)
    (hnone : .found req handle ∉ o) : FoundPoisoned h req handle := by
  obtain ⟨before, after, hsplit, hpoisoned⟩ := hf
  rcases List.append_eq_append_iff.mp hsplit with ⟨more, hbefore, hafter⟩ | ⟨more, hh, hafter⟩
  · exact absurd (hafter ▸ List.mem_append_right more List.mem_cons_self) hnone
  · cases more with
    | nil =>
      rw [List.nil_append] at hafter
      exact absurd (hafter ▸ List.mem_cons_self) hnone
    | cons x more =>
      obtain ⟨rfl, -⟩ := List.cons.inj hafter
      exact ⟨before, more, hh, hpoisoned⟩

theorem recorded_unentered (hr : Machine.Recorded Unpoisoned h) (hran : ∀ handle req run, .ran handle req run ∉ o) :
    Machine.Recorded Unpoisoned (h ++ o) := by
  induction o generalizing h with
  | nil => rwa [List.append_nil]
  | cons x o ih =>
    rw [← List.singleton_append, ← List.append_assoc]
    refine ih (hr.concat ?_) (fun handle req run hmem => hran handle req run (List.mem_cons_of_mem x hmem))
    cases x with
    | ran handle req run => exact absurd List.mem_cons_self (hran handle req run)
    | _ => trivial

theorem Quarantined.quiet (P : Quarantined h s) (hpoisoned : ∀ handle, .poisoned handle ∉ o)
    (hfound : ∀ req handle, .found req handle ∉ o) (hran : Machine.Recorded Unpoisoned (h ++ o))
    (hanswered : ∀ req outcome, .answered req outcome ∉ o) (hsame : s'.poisoned = s.poisoned)
    (hentered : ∀ req handle, s'.phase = .handling req handle → handle ∉ s.poisoned)
    (hkept : ∀ req handle, .poisoned handle ∈ h →
      (∃ nowSec, s.phase = .locking req handle nowSec) ∨ s.phase.Settles req (skillPanicked poisonReason) →
        (∃ nowSec, s'.phase = .locking req handle nowSec) ∨ s'.phase.Settles req (skillPanicked poisonReason)) :
    Quarantined (h ++ o) s' := by
  refine ⟨?_, ?_, hran, ?_⟩
  · intro handle
    rw [hsame, ← P.poisoned handle, List.mem_append, or_iff_left (hpoisoned handle)]
  · rw [hsame]
    exact hentered
  · intro req handle hf
    have hbefore := hf.earlier (hfound req handle)
    obtain ⟨before, after, hsplit, hmem⟩ := hbefore
    obtain ⟨hall, hwhere⟩ := P.refused req handle ⟨before, after, hsplit, hmem⟩
    refine ⟨?_, hwhere.imp answeredOf_mono (hkept req handle (hsplit ▸ List.mem_append_left _ hmem))⟩
    intro outcome hmem
    exact hall outcome ((List.mem_append.mp hmem).resolve_right (hanswered req outcome))

theorem Quarantined.find (Q : Queued h s) (P : Quarantined h s) {req : DispatchRequest} {handle : Nat} {nowSec : UInt64}
    (hphase : s.phase = .looking req) :
    Quarantined (h ++ [.found req handle]) { s with phase := .locking req handle nowSec } := by
  have hfresh : req ∉ answeredOf h := Q.unanswered (by rw [hphase]; exact List.mem_singleton_self req)
  refine ⟨?_, nofun, recorded_unentered P.ran (by simp), ?_⟩
  · intro handle'
    rw [← P.poisoned handle']
    simp
  · intro req' handle' hf
    have hold : ∀ outcome, .answered req' outcome ∈ h ++ [.found req handle] → .answered req' outcome ∈ h := by
      intro outcome hmem
      simpa using hmem
    by_cases hnew : .found req' handle' ∈ [DispatchObs.found req handle]
    · cases List.mem_singleton.mp hnew
      refine ⟨?_, .inr (.inl ⟨nowSec, rfl⟩)⟩
      intro outcome hmem
      exact absurd (mem_answeredOf.mpr ⟨outcome, hold outcome hmem⟩) hfresh
    · obtain ⟨hall, hwhere⟩ := P.refused req' handle' (hf.earlier hnew)
      refine ⟨fun outcome hmem => hall outcome (hold outcome hmem), .inl ?_⟩
      rw [hphase] at hwhere
      rcases hwhere with hdone | ⟨_, hlocking⟩ | hsettles
      · exact answeredOf_mono hdone
      · cases hlocking
      · cases hsettles

theorem Quarantined.poison (P : Quarantined h s) {handle : Nat} (hnot : handle ∉ s.poisoned) {phase : DispatchPhase}
    (hran : Machine.Recorded Unpoisoned (h ++ o))
    (hpoisoned : ∀ handle', .poisoned handle' ∈ o ↔ handle' = handle)
    (hfound : ∀ req handle, .found req handle ∉ o) (hanswered : ∀ req outcome, .answered req outcome ∉ o)
    (hentered : ∀ req handle, phase ≠ .handling req handle)
    (hbusy : ∀ req handle', (∃ nowSec, s.phase = .locking req handle' nowSec) → handle' = handle)
    (hsettles : ∀ req outcome, ¬ s.phase.Settles req outcome) :
    Quarantined (h ++ o) { s with phase := phase, poisoned := handle :: s.poisoned } := by
  refine ⟨?_, fun req handle' heq => absurd heq (hentered req handle'), hran, ?_⟩
  · intro handle'
    rw [List.mem_append, P.poisoned handle', hpoisoned handle', List.mem_cons, or_comm]
  · intro req handle' hf
    have hbefore := hf.earlier (hfound req handle')
    obtain ⟨before, after, hsplit, hmem⟩ := hbefore
    obtain ⟨hall, hwhere⟩ := P.refused req handle' ⟨before, after, hsplit, hmem⟩
    refine ⟨?_, .inl ?_⟩
    · intro outcome hmem
      exact hall outcome ((List.mem_append.mp hmem).resolve_right (hanswered req outcome))
    · rcases hwhere with hdone | hlocking | hs
      · exact answeredOf_mono hdone
      · -- the instance at hand is not poisoned yet
        have hknown := (P.poisoned handle').mp (hsplit ▸ List.mem_append_left _ hmem)
        rw [hbusy req handle' hlocking] at hknown
        exact absurd hknown hnot
      · exact absurd hs (hsettles req _)

theorem Quarantined.answer (Q : Queued h s) (P : Quarantined h s) {req : DispatchRequest} {outcome : SkillResult}
    (hphase : s.phase = .answering req outcome) :
    Quarantined (h ++ [.answered req outcome]) { s with phase := .waiting } := by
  have hfresh : req ∉ answeredOf h := Q.unanswered (by rw [hphase]; exact List.mem_singleton_self req)
  refine ⟨?_, nofun, recorded_unentered P.ran (by simp), ?_⟩
  · intro handle
    rw [← P.poisoned handle]
    simp
  · intro req' handle hf
    obtain ⟨hall, hwhere⟩ := P.refused req' handle (hf.earlier (by simp))
    rw [hphase] at hwhere
    refine ⟨?_, .inl ?_⟩
    · intro outcome' hmem
      rcases List.mem_append.mp hmem with hbefore | hnow
      · exact hall outcome' hbefore
      · cases List.mem_singleton.mp hnow
        rcases hwhere with hdone | ⟨_, hlocking⟩ | hsettles
        · exact absurd hdone hfresh
        · cases hlocking
        · exact hsettles.2
    · rcases hwhere with hdone | ⟨_, hlocking⟩ | hsettles
      · exact answeredOf_mono hdone
      · cases hlocking
      · exact mem_answeredOf.mpr ⟨outcome, by rw [hsettles.1]; exact List.mem_concat_self⟩

/-- The actor moves on, no lock before it and no answer settled. -/
theorem Quarantined.move (P : Quarantined h s) {phase : DispatchPhase}
    (hlocking : ∀ req handle nowSec, s.phase ≠ .locking req handle nowSec)
    (hsettles : ∀ req outcome, ¬ s.phase.Settles req outcome)
    (hentered : ∀ req handle, phase ≠ .handling req handle) (hran : Machine.Recorded Unpoisoned (h ++ o))
    (hpoisoned : ∀ handle, .poisoned handle ∉ o)
    (hfound : ∀ req handle, .found req handle ∉ o) (hanswered : ∀ req outcome, .answered req outcome ∉ o) :
    Quarantined (h ++ o) { s with phase := phase } := by
  refine P.quiet hpoisoned hfound hran hanswered rfl (fun req handle heq => absurd heq (hentered req handle)) ?_
  rintro req handle - (⟨nowSec, heq⟩ | hs)
  · exact absurd heq (hlocking req handle nowSec)
  · exact absurd hs (hsettles req _)

theorem quarantined_handleOne (Q : Queued h s) (P : Quarantined h s) (he : Effect deps s chance s' o) :
    Quarantined (h ++ o) s' := by
  have hlooking : ∀ {req : DispatchRequest} {outcome : SkillResult}, s.phase = .looking req →
      Quarantined (h ++ []) { s with phase := .answering req outcome } := by
    intro req outcome hphase
    exact P.move (by rw [hphase]; nofun) (by rw [hphase]; nofun) nofun (recorded_unentered P.ran nofun) nofun nofun
      nofun
  cases he with
  | invoke req hphase =>
    exact P.move (by rw [hphase]; nofun) (by rw [hphase]; nofun) nofun (recorded_unentered P.ran (by simp)) (by simp)
      (by simp) (by simp)
  | cancelled req e hjoin hphase => exact hlooking hphase
  | clock req e hjoin hclock hphase => exact hlooking hphase
  | unknown req nowSec hjoin hclock habsent hphase => exact hlooking hphase
  | find req handle nowSec hfound hphase => exact P.find Q hphase
  | refuse req handle nowSec hmem hphase =>
    refine P.quiet (by simp) (by simp) (recorded_unentered P.ran (by simp)) (by simp) rfl nofun ?_
    rw [hphase]
    rintro req' handle' - (⟨nowSec', heq⟩ | hs)
    · cases heq
      exact .inr ⟨rfl, rfl⟩
    · cases hs
  | overflow req handle nowSec hnot hover hphase =>
    refine P.poison hnot (recorded_unentered P.ran (by simp)) (by simp) (by simp) (by simp) nofun ?_
      (by rw [hphase]; nofun)
    rw [hphase]
    rintro req' handle' ⟨nowSec', heq⟩
    cases heq
    rfl
  | enter req handle nowSec hnot hphase =>
    refine P.quiet (by simp) (by simp) (recorded_unentered P.ran (by simp)) (by simp) rfl ?_ ?_
    · intro req' handle' heq
      cases heq
      exact hnot
    · rw [hphase]
      rintro req' handle' hmem (⟨nowSec', heq⟩ | hs)
      · cases heq
        exact absurd ((P.poisoned handle).mp hmem) hnot
      · cases hs
  | mutex req handle hmem hphase => exact absurd hmem (P.entered req handle hphase)
  | run req handle result hnot hguest hphase =>
    have hran : Machine.Recorded Unpoisoned (h ++ [.ran handle req (.returned result)]) :=
      P.ran.concat fun hmem => hnot ((P.poisoned handle).mp hmem)
    exact P.move (by rw [hphase]; nofun) (by rw [hphase]; nofun) nofun hran (by simp) (by simp) (by simp)
  | panic req handle reason hnot hguest hphase =>
    have hran : Machine.Recorded Unpoisoned (h ++ [.ran handle req (.panicked reason)]) :=
      P.ran.concat fun hmem => hnot ((P.poisoned handle).mp hmem)
    refine P.poison hnot ?_ (by simp) (by simp) (by simp) nofun (by rw [hphase]; nofun) (by rw [hphase]; nofun)
    rw [← List.singleton_append, ← List.append_assoc]
    exact recorded_unentered hran (by simp)
  | report req reason hphase =>
    refine P.quiet (by simp) (by simp) (recorded_unentered P.ran (by simp)) (by simp) rfl nofun ?_
    rw [hphase]
    rintro req' handle' - (⟨nowSec', heq⟩ | hs)
    · cases heq
    · obtain ⟨rfl, heq⟩ := hs
      exact .inr ⟨rfl, heq.symm⟩
  | answer req outcome hphase => exact P.answer Q hphase

theorem found_handleOne (F : Found h s) (he : Effect deps s chance s' o) : Found (h ++ o) s' := by
  cases he with
  | find req handle nowSec hfound hphase =>
    rintro req' handle' heq
    cases heq
    exact List.mem_concat_self
  | enter req handle nowSec hnot hphase =>
    rintro req' handle' heq
    cases heq
    exact List.mem_append_left _ (F req handle (by rw [hphase]; rfl))
  | _ => exact nofun

/-- An observation of the mailbox. -/
def DispatchObs.isMail : DispatchObs → Bool
  | .accepted _ | .refused _ | .dropped _ => true
  | _ => false

theorem outside_step {refused refused' : DispatchRequest → SkillResult → Prop}
    (hle : ∀ req outcome, refused req outcome → refused' req outcome) (T : Traced refused h s) (P : Quarantined h s)
    (F : Found h s) (ho : ∀ x ∈ o, x.isMail = true) (hpoisoned : s'.poisoned = s.poisoned)
    (hphase : s'.phase = s.phase ∨ s.phase = .waiting ∧
      (s'.phase = .stopped ∨ ∃ req, s'.phase = .invoking req)) :
    Traced refused' (h ++ o) s' ∧ Quarantined (h ++ o) s' ∧ Found (h ++ o) s' := by
  have hnone : ∀ {x : DispatchObs}, x.isMail = false → x ∉ o := by
    intro x hx hmem
    rw [ho x hmem] at hx
    cases hx
  have hsettles : ∀ req outcome, s'.phase.Settles req outcome ↔ s.phase.Settles req outcome := by
    intro req outcome
    rcases hphase with heq | ⟨hwaiting, hstopped | ⟨req', hinvoking⟩⟩
    · rw [heq]
    · rw [hwaiting, hstopped]
      exact Iff.rfl
    · rw [hwaiting, hinvoking]
      exact Iff.rfl
  refine ⟨?_, ?_, ?_⟩
  · have hdecided : s'.phase.decided = s.phase.decided := by
      rcases hphase with heq | ⟨hwaiting, hstopped | ⟨req', hinvoking⟩⟩
      · rw [heq]
      · rw [hwaiting, hstopped]
        rfl
      · rw [hwaiting, hinvoking]
        rfl
    exact T.quiet hle (fun _ _ => hnone rfl) (fun _ _ _ => hnone rfl)
      (fun req outcome hs => .inl ((hsettles req outcome).mp hs)) (fun req outcome hs => (hsettles req outcome).mpr hs)
      (hdecided ▸ List.Sublist.refl _)
  · refine P.quiet (fun _ => hnone rfl) (fun _ _ => hnone rfl) (recorded_unentered P.ran fun _ _ _ => hnone rfl)
      (fun _ _ => hnone rfl) hpoisoned ?_ ?_
    · intro req handle heq
      rcases hphase with hsame | ⟨-, hstopped | ⟨req', hinvoking⟩⟩
      · exact P.entered req handle (hsame ▸ heq)
      · rw [hstopped] at heq
        cases heq
      · rw [hinvoking] at heq
        cases heq
    · intro req handle _ hwas
      rcases hwas with ⟨nowSec, hlocking⟩ | hs
      · rcases hphase with hsame | ⟨hwaiting, -⟩
        · exact .inl ⟨nowSec, hsame.trans hlocking⟩
        · rw [hwaiting] at hlocking
          cases hlocking
      · exact .inr ((hsettles req _).mpr hs)
  · intro req handle heq
    rcases hphase with hsame | ⟨-, hstopped | ⟨req', hinvoking⟩⟩
    · exact List.mem_append_left o (F req handle (hsame ▸ heq))
    · rw [hstopped] at heq
      cases heq
    · rw [hinvoking] at heq
      cases heq

/-- What is known of a run: its lists, its answers and its poisoned instances. -/
structure DispatchLedger (refused : DispatchRequest → SkillResult → Prop) (h : List DispatchObs)
    (s : Dispatcher) : Prop where
  queued : Queued h s
  traced : Traced refused h s
  quarantined : Quarantined h s
  found : Found h s

/-- **One step** keeps the account. -/
theorem accounted_step {refused refused' : DispatchRequest → SkillResult → Prop}
    (hle : ∀ req outcome, refused req outcome → refused' req outcome) (A : DispatchLedger refused h s)
    {a : DispatchAction}
    (hnow : ∀ chance req outcome, a = .handleOne chance → Unserved deps h s chance req outcome →
      refused' req outcome)
    (hs : step deps s a = some (s', o)) : DispatchLedger refused' (h ++ o) s' := by
  have Q := queued_step A.queued hs
  have houtside : (∀ x ∈ o, x.isMail = true) → s'.poisoned = s.poisoned →
      (s'.phase = s.phase ∨ s.phase = .waiting ∧ (s'.phase = .stopped ∨ ∃ req, s'.phase = .invoking req)) →
      DispatchLedger refused' (h ++ o) s' := by
    intro ho hpoisoned hphase
    obtain ⟨T, P, F⟩ := outside_step hle A.traced A.quarantined A.found ho hpoisoned hphase
    exact ⟨Q, T, P, F⟩
  cases a with
  | ask session skill intent =>
    simp only [step] at hs
    split at hs
    · cases hs
    · split at hs
      · cases hs
        exact houtside (by simp [DispatchObs.isMail]) rfl (.inl rfl)
      · split at hs
        · cases hs
          exact houtside (by simp [DispatchObs.isMail]) rfl (.inl rfl)
        · cases hs
  | registry a =>
    cases hs
    exact houtside nofun rfl (.inl rfl)
  | take =>
    simp only [step] at hs
    split at hs
    · rename_i req rest hwaiting hmailbox
      cases hs
      exact houtside nofun rfl (.inr ⟨hwaiting, .inr ⟨req, rfl⟩⟩)
    · cases hs
  | handleOne chance =>
    have he := handleOne_effect hs
    exact ⟨Q, traced_handleOne hle A.queued A.traced A.quarantined A.found (fun _ _ hu => hnow chance _ _ rfl hu) he,
      quarantined_handleOne A.queued A.quarantined he, found_handleOne A.found he⟩
  | cancel =>
    cases hs
    exact houtside nofun rfl (.inl rfl)
  | hangUp =>
    cases hs
    exact houtside nofun rfl (.inl rfl)
  | stop =>
    simp only [step] at hs
    split at hs
    · rename_i hends
      cases hs
      refine houtside ?_ rfl (.inr ⟨hends.1, .inl rfl⟩)
      intro x hx
      obtain ⟨req, -, rfl⟩ := List.mem_map.mp hx
      rfl
    · cases hs

theorem accounted_spawn (refused : DispatchRequest → SkillResult → Prop) (registry : Registry) :
    DispatchLedger refused [] (spawn registry) := by
  refine ⟨queued_spawn registry, ⟨nofun, nofun, nofun, .slnil⟩,
    ⟨?_, nofun, Machine.recorded_nil _, ?_⟩, nofun⟩
  · intro handle
    exact ⟨nofun, nofun⟩
  · rintro req handle ⟨before, after, hsplit, -⟩
    cases before <;> cases hsplit

theorem dispatcher_run {registry : Registry} {as : List DispatchAction}
    (hr : (machine deps).run (spawn registry) as = some (s', o)) : DispatchLedger (Refused deps registry as) o s' := by
  refine (machine deps).run_actions (P := fun as h s => DispatchLedger (Refused deps registry as) h s)
    (accounted_spawn _ registry) ?_ as s' o hr
  intro as h s a s' o hrun A hs
  refine accounted_step (fun req outcome hrefused => hrefused.concat a) A ?_ hs
  intro chance req outcome ha hu
  exact Machine.Sometime.last hrun ⟨chance, ha, hu⟩

/-! ## What causes an observation -/

theorem caused_handleOne (F : Found h s) (he : Effect deps s chance s' o) : Caused h s (.handleOne chance) o := by
  cases he with
  | find req handle nowSec hfound hphase =>
    refine ⟨by simp, ?_, by simp⟩
    intro req' handle' hmem
    cases List.mem_singleton.mp hmem
    exact ⟨hphase, hfound⟩
  | run req handle result hnot hguest hphase =>
    refine ⟨by simp, by simp, ?_⟩
    intro handle' req' run' hmem
    cases List.mem_singleton.mp hmem
    exact ⟨hphase, F req handle (by rw [hphase]; rfl), hguest.symm⟩
  | panic req handle reason hnot hguest hphase =>
    refine ⟨by simp, by simp, ?_⟩
    intro handle' req' run' hmem
    have heq : DispatchObs.ran handle' req' run' = .ran handle req (.panicked reason) := by simpa using hmem
    cases heq
    exact ⟨hphase, F req handle (by rw [hphase]; rfl), hguest.symm⟩
  | _ => exact ⟨by simp, by simp, by simp⟩

theorem caused_step (F : Found h s) {a : DispatchAction} (hs : step deps s a = some (s', o)) : Caused h s a o := by
  cases a with
  | ask session skill intent =>
    simp only [step] at hs
    split at hs
    · cases hs
    · split at hs
      · rename_i hstopped
        cases hs
        simp only [Caused, if_pos hstopped]
      · rename_i hrunning
        split at hs
        · cases hs
          simp only [Caused, if_neg hrunning]
        · cases hs
  | handleOne chance => exact caused_handleOne F (handleOne_effect hs)
  | take =>
    simp only [step] at hs
    split at hs
    · cases hs
      exact nofun
    · cases hs
  | stop =>
    simp only [step] at hs
    split at hs
    · cases hs
      intro x hx
      obtain ⟨req, -, rfl⟩ := List.mem_map.mp hx
      exact ⟨req, rfl⟩
    · cases hs
  | registry a =>
    cases hs
    exact nofun
  | cancel =>
    cases hs
    exact nofun
  | hangUp =>
    cases hs
    exact nofun

theorem caused_along (deps : DispatchDeps) (registry : Registry) (as : List DispatchAction) :
    (machine deps).Along (fun h s a => ∀ s' o, (machine deps).step s a = some (s', o) → Caused h s a o) []
      (spawn registry) as :=
  Machine.along_of_invariant (P := DispatchLedger fun _ _ => True)
    (fun _ _ _ _ _ A hs => accounted_step (fun _ _ h => h) A (fun _ _ _ _ _ => trivial) hs)
    (fun _ _ _ A _ _ hs => caused_step A.found hs) as [] (spawn registry) (accounted_spawn _ registry)

/-! ## The actor goes on alone -/

theorem stepsLeft_handleOne (he : Effect deps s chance s' o) : s'.phase.stepsLeft < s.phase.stepsLeft := by
  cases he with
  | _ =>
    rename_i hphase
    rw [hphase]
    simp only [DispatchPhase.stepsLeft]
    omega

/-- Left to itself it answers the request it has, in six steps at most. -/
theorem answers_alone (deps : DispatchDeps) (chance : Chance) : ∀ (left : Nat) (s : Dispatcher),
    s.phase.stepsLeft ≤ left → ∃ n ≤ left, ∃ s' o,
      (machine deps).run s (List.replicate n (.handleOne chance)) = some (s', o) ∧
        answeredOf o = s.phase.underWay ++ s.phase.taken := by
  intro left
  induction left with
  | zero =>
    intro s hleft
    refine ⟨0, le_refl 0, s, [], rfl, ?_⟩
    cases hphase : s.phase <;> rw [hphase] at hleft <;> first | rfl | cases hleft
  | succ left ih =>
    intro s hleft
    cases hstep : s.handleOne deps chance with
    | none =>
      refine ⟨0, Nat.zero_le _, s, [], rfl, ?_⟩
      have hidle := mt (handleOne_isSome deps s chance).mpr (by rw [hstep]; exact Bool.false_ne_true)
      cases hphase : s.phase <;> rw [hphase] at hidle <;> first | rfl | exact absurd ⟨nofun, nofun⟩ hidle
    | some r =>
      obtain ⟨s₁, o₁⟩ := r
      have he := handleOne_effect hstep
      have hless := stepsLeft_handleOne he
      obtain ⟨hinvoked, hanswered⟩ := handleOne_moves he
      obtain ⟨n, hn, s', o, hrun, hrest⟩ := ih s₁ (by omega)
      refine ⟨n + 1, by omega, s', o₁ ++ o,
        (machine deps).run_cons_some.mpr ⟨s₁, o₁, o, hstep, hrun, rfl⟩, ?_⟩
      rw [answeredOf_append, hrest, ← List.append_assoc, hanswered, List.append_assoc, hinvoked]

end Steps

/-- **Requests to skills** are run one at a time, in the order they were
accepted, each once: at most 64 wait, those still waiting when the dispatcher
stops are dropped, and every other is answered, for which the actor needs six
steps of its own at most. A guest is entered for the request its instance was
found for; what it returned, or that it panicked, is the answer to that request.
Any other answer was decided at a step that found its reason: no thread, no
clock, no skill of that name loaded, a retention longer than the clock, or an
instance that had panicked before. -/
theorem dispatched_in_order (deps : DispatchDeps) (registry : Registry) (as : List DispatchAction) (s' : Dispatcher)
    (o : List DispatchObs) (hr : (machine deps).run (spawn registry) as = some (s', o)) :
    (acceptedOf o = answeredOf o ++ s'.phase.underWay ++ s'.phase.taken ++ s'.mailbox ++ droppedOf o ∧
      (acceptedOf o).Pairwise (fun a b => a.ticket < b.ticket) ∧ (ranOf o).Sublist (acceptedOf o) ∧
      s'.mailbox.length ≤ 64 ∧ (droppedOf o ≠ [] → s'.phase = .stopped)) ∧
      (∀ req outcome, .answered req outcome ∈ o → Justified (Refused deps registry as) o req outcome) ∧
      (∀ handle req run outcome, .ran handle req run ∈ o → .answered req outcome ∈ o →
        outcome = run.outcome) ∧
      (machine deps).Along (fun h s a => ∀ s' o, (machine deps).step s a = some (s', o) → Caused h s a o) []
        (spawn registry) as ∧
      ∀ chance, ∃ n ≤ 6, ∃ s'' o', (machine deps).run s' (List.replicate n (.handleOne chance)) =
        some (s'', o') ∧
        answeredOf (o ++ o') = answeredOf o ++ s'.phase.underWay ++ s'.phase.taken := by
  have A := dispatcher_run hr
  have Q := A.queued
  have hlists : acceptedOf o = answeredOf o ++ s'.phase.underWay ++ s'.phase.taken ++ s'.mailbox ++ droppedOf o := by
    rw [Q.order, Q.run]
  refine ⟨⟨hlists, Q.numbered.1, ?_, Q.room, Q.dropped⟩, A.traced.answered, ?_,
    caused_along deps registry as, ?_⟩
  · -- what was run is answered, or decided and under way
    have hdecided : s'.phase.decided.Sublist s'.phase.underWay := by
      cases s'.phase <;> first | exact List.Sublist.refl _ | exact List.nil_sublist _
    rw [hlists]
    exact (((A.traced.order.trans (List.Sublist.append_left hdecided _)).trans (List.sublist_append_left _ _)).trans
      (List.sublist_append_left _ _)).trans (List.sublist_append_left _ _)
  · intro handle req run outcome hran hanswered
    exact (A.traced.ran handle req run hran).1 outcome hanswered
  · intro chance
    have hleft : s'.phase.stepsLeft ≤ 6 := by
      cases s'.phase <;> simp [DispatchPhase.stepsLeft]
    obtain ⟨n, hn, s'', o', hrun, hanswers⟩ := answers_alone deps chance 6 s' hleft
    refine ⟨n, hn, s'', o', hrun, ?_⟩
    rw [answeredOf_append, hanswers, List.append_assoc]

/-- A registry with one skill, and what its guest does when entered. -/
def crasher : Registry := { Registry.new with plugins := (∅ : Table Text Nat).insert "crasher".toList 7 }

def plainDispatch : DispatchDeps := { checks := false, retention := fun _ => none }

def boom : Chance := { clock := .ok 0, guest := .panicked "boom".toList, joinError := none }

/-- Two requests for it, the second while the first is run. -/
def crashTwice : List DispatchAction :=
  .ask 1 "crasher".toList ⟨[], [], []⟩ :: .take :: .ask 2 "crasher".toList ⟨[], [], []⟩ ::
    (List.replicate 6 (.handleOne boom) ++ .take :: List.replicate 5 (.handleOne boom))

def crashed (ticket session : Nat) : DispatchRequest :=
  { ticket := ticket, session := session, skill := "crasher".toList, intent := ⟨[], [], []⟩ }

/-- Its history: the second request does not enter the guest. -/
def crashedTwice : List DispatchObs :=
  [.accepted (crashed 0 1), .accepted (crashed 1 2), .invoked (crashed 0 1), .found (crashed 0 1) 7,
    .ran 7 (crashed 0 1) (.panicked "boom".toList), .poisoned 7, .panicked (crashed 0 1) "boom".toList,
    .answered (crashed 0 1) (skillPanicked "boom".toList), .invoked (crashed 1 2), .found (crashed 1 2) 7,
    .panicked (crashed 1 2) poisonReason, .answered (crashed 1 2) (skillPanicked poisonReason)]

theorem run_crashTwice :
    ∃ s', (machine plainDispatch).run (spawn crasher) crashTwice = some (s', crashedTwice) := ⟨_, rfl⟩

/-- Both are answered, in turn. -/
theorem crashed_in_order :
    ∃ s', (machine plainDispatch).run (spawn crasher) crashTwice = some (s', crashedTwice) ∧
      acceptedOf crashedTwice = [crashed 0 1, crashed 1 2] ∧ answeredOf crashedTwice = [crashed 0 1, crashed 1 2] ∧
      acceptedOf crashedTwice =
        answeredOf crashedTwice ++ s'.phase.underWay ++ s'.phase.taken ++ s'.mailbox ++ droppedOf crashedTwice := by
  obtain ⟨s', hrun⟩ := run_crashTwice
  exact ⟨s', hrun, rfl, rfl, (dispatched_in_order plainDispatch crasher crashTwice s' crashedTwice hrun).1.1⟩

/-- **A panic is for good.** Whatever is loaded and removed meanwhile: an
instance whose mutex was poisoned, by a panic of the guest or of the subtraction
before it, is never entered again; and every request that reaches it is answered,
or under way, and its answer is the panic of the lock, never the error that is
meant for it. -/
theorem panic_quarantined (deps : DispatchDeps) (registry : Registry) (as : List DispatchAction) (s' : Dispatcher)
    (o : List DispatchObs) (hr : (machine deps).run (spawn registry) as = some (s', o)) :
    (∀ before handle req run after, o = before ++ .ran handle req run :: after → .poisoned handle ∉ before) ∧
      ∀ before req handle after, o = before ++ .found req handle :: after → .poisoned handle ∈ before →
        (∀ outcome, .answered req outcome ∈ o → outcome = skillPanicked poisonReason) ∧
          (req ∈ answeredOf o ∨ req ∈ s'.phase.underWay) := by
  have P := (dispatcher_run hr).quarantined
  refine ⟨?_, ?_⟩
  · intro before handle req run after hsplit
    exact P.ran before _ after hsplit
  · intro before req handle after hsplit hpoisoned
    obtain ⟨hall, hwhere⟩ := P.refused req handle ⟨before, after, hsplit, hpoisoned⟩
    refine ⟨hall, hwhere.imp_right ?_⟩
    rintro (⟨nowSec, hlocking⟩ | hsettles)
    · rw [hlocking]
      exact List.mem_singleton_self req
    · exact hsettles.underWay

/-- What the second request is answered can only be the lock's panic. -/
theorem crashed_again :
    ∃ s' before after, (machine plainDispatch).run (spawn crasher) crashTwice =
        some (s', before ++ .found (crashed 1 2) 7 :: after) ∧ .poisoned 7 ∈ before ∧
      ∀ outcome, .answered (crashed 1 2) outcome ∈ before ++ .found (crashed 1 2) 7 :: after →
        outcome = skillPanicked poisonReason := by
  obtain ⟨s', hrun⟩ := run_crashTwice
  refine ⟨s', crashedTwice.take 9, crashedTwice.drop 10, hrun, by decide, ?_⟩
  exact ((panic_quarantined plainDispatch crasher crashTwice s' _ hrun).2 (crashedTwice.take 9) (crashed 1 2) 7
    (crashedTwice.drop 10) rfl (by decide)).1

end AthenaVoice.Wasm
