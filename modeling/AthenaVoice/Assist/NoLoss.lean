import AthenaVoice.Assist.Wiring

/-
  No question is lost on the bridge

  A question accepted is in one place: the channel it was accepted into, the
  leftovers of an actor that leaves, a call that routes it again; or a loop has
  taken it, or a full backlog has turned it away on its second way.

  What is proved:
    1. `custody_step` — every step keeps each question in one place.
    2. `finishing_decreases`, `finishing_enabled` — what is under way comes to its
       end, unless loops break or questions arrive.
    3. `bridge_no_loss` — over every run nothing is lost and nothing taken twice,
       and what is still waiting can be taken.
-/

namespace AthenaVoice.Assist

open Lib

/-- The numbers of the questions a call carries. -/
def Call.stamps (c : Call) : List Nat := c.stamp.toList

/-- The same, if there is a call. -/
def callStamps (c : Option Call) : List Nat :=
  match c with
  | some c => c.stamps
  | none => []

/-- The numbers of the questions an actor holds, the next one first. -/
def Actor.stamps (a : Actor) : List Nat :=
  callStamps a.call ++ a.leftover.map Question.stamp ++ a.queue.map Question.stamp

/-- The numbers of the questions that wait to be taken. -/
def Bridge.waiting (s : Bridge) : List Nat := s.calls.flatMap callStamps ++ s.actors.flatMap Actor.stamps

/-- The number of the question a loop takes, if the observation is one. -/
def BridgeObs.takes : BridgeObs → Option Nat
  | .taken _ q => some q.stamp
  | _ => none

/-- The number of the question dropped on its second way, if one is. -/
def BridgeObs.drops : BridgeObs → Option Nat
  | .dropped n _ => some n
  | _ => none

/-- The questions the actors' loops take, in order. -/
def takenIn (h : List BridgeObs) : List Nat := h.filterMap BridgeObs.takes

/-- The questions dropped on their second way. -/
def droppedIn (h : List BridgeObs) : List Nat := h.filterMap BridgeObs.drops

@[simp] theorem takenIn_append (h h' : List BridgeObs) : takenIn (h ++ h') = takenIn h ++ takenIn h' :=
  List.filterMap_append

@[simp] theorem droppedIn_append (h h' : List BridgeObs) : droppedIn (h ++ h') = droppedIn h ++ droppedIn h' :=
  List.filterMap_append

/-! ## Where the questions are -/

namespace Bridge

variable {s : Bridge} {k : Caller} {c : Call} {i : Nat} {a : Actor}

@[simp] theorem waiting_setDevice (device : Text) (e : Option Nat) :
    (s.setDevice device e).waiting = s.waiting := rfl

@[simp] theorem waiting_numbered : (s.numbered c).waiting = s.waiting := rfl

theorem count_setActor (f : Actor → Actor) (ha : s.actors[i]? = some a) (n : Nat) :
    (s.setActor i f).waiting.count n + a.stamps.count n = s.waiting.count n + (f a).stamps.count n := by
  have hactors := Slots.count_modify Actor.stamps f n ha
  simp only [waiting, setActor, List.count_append]
  omega

theorem count_setCall (hc : s.callOf k = some c) (c' : Option Call) (n : Nat) :
    (s.setCall k c').waiting.count n + c.stamps.count n = s.waiting.count n + (callStamps c').count n := by
  cases k with
  | mqtt j =>
    obtain ⟨x, hx, he⟩ := Option.bind_eq_some_iff.mp hc
    cases he
    have hcalls := Slots.count_modify callStamps (fun _ => c') n hx
    simp only [waiting, setCall, List.count_append, callStamps] at hcalls ⊢
    omega
  | actor j =>
    obtain ⟨b, hb, he⟩ := Option.bind_eq_some_iff.mp hc
    have hactor := count_setActor (fun b => { b with call := c' }) hb n
    simp only [Actor.stamps, he, List.count_append, callStamps] at hactor
    simp only [setCall, callStamps]
    omega

theorem count_push (q : Question) (ha : s.actors[i]? = some a) (n : Nat) :
    (s.setActor i (Actor.push q)).waiting.count n = s.waiting.count n + [q.stamp].count n := by
  have hactor := count_setActor (Actor.push q) ha n
  simp only [Actor.stamps, Actor.push, List.map_append, List.map_cons, List.map_nil, List.count_append] at hactor
  omega

theorem count_addActor (n : Nat) : (s.addActor a).waiting.count n = s.waiting.count n + a.stamps.count n := by
  simp [waiting, addActor, List.count_append]
  omega

end Bridge

theorem Actor.step_stamps {a a' : Actor} {b : OwnStep} {o : List BridgeObs} (h : a.step b = some (a', o)) :
    droppedIn o = [] ∧ ∀ n, a'.stamps.count n + (takenIn o).count n = a.stamps.count n := by
  cases Actor.step_cases h with
  | take q rest hphase hqueue =>
    refine ⟨rfl, ?_⟩
    intro n
    have hone : takenIn [.taken a.device q] = [q.stamp] := rfl
    simp only [Actor.stamps, hqueue, hone, List.map_cons, List.count_append, List.count_cons, List.count_nil]
    omega
  | leave hphase => exact ⟨rfl, fun n => rfl⟩
  | close hphase => exact ⟨rfl, fun n => rfl⟩
  | drain q rest hphase hqueue =>
    refine ⟨rfl, ?_⟩
    intro n
    have hnone : takenIn [.drained a.device q] = [] := rfl
    simp only [Actor.stamps, hqueue, hnone, List.map_append, List.map_cons, List.map_nil, List.count_append,
      List.count_cons, List.count_nil]
    omega
  | drained hphase hqueue => exact ⟨rfl, fun n => rfl⟩
  | reroute q rest hphase hidle hleft =>
    refine ⟨rfl, ?_⟩
    intro n
    have hnone : takenIn [] = [] := rfl
    simp only [Actor.stamps, hidle, hleft, hnone, callStamps, Call.stamps, Question.again, Option.toList_some,
      List.map_cons, List.count_append, List.count_cons, List.count_nil]
    omega

/-! ## Custody -/

/-- Every number given is in one place, and no other is anywhere. -/
def Custody (h : List BridgeObs) (s : Bridge) : Prop :=
  ∀ n, s.waiting.count n + (takenIn h).count n + (droppedIn h).count n = if n < s.accepted then 1 else 0

theorem Custody.move {h o : List BridgeObs} {s s' : Bridge} (C : Custody h s)
    (hwaiting : ∀ n, s'.waiting.count n = s.waiting.count n) (haccepted : s'.accepted = s.accepted)
    (htaken : takenIn o = []) (hdropped : droppedIn o = []) : Custody (h ++ o) s' := by
  intro n
  rw [takenIn_append, droppedIn_append, htaken, hdropped, List.append_nil, List.append_nil, hwaiting,
    haccepted]
  exact C n

theorem Custody.accept {h : List BridgeObs} {s s' : Bridge} {c : Call} {device : Text} (C : Custody h s)
    (hwaiting : ∀ n, s'.waiting.count n + c.stamps.count n =
      s.waiting.count n + [(s.questionOf c).stamp].count n)
    (haccepted : s'.accepted = (s.numbered c).accepted) :
    Custody (h ++ [.accepted device (s.questionOf c)]) s' := by
  intro n
  have hn := C n
  have hw := hwaiting n
  have htaken : takenIn [.accepted device (s.questionOf c)] = [] := rfl
  have hdropped : droppedIn [.accepted device (s.questionOf c)] = [] := rfl
  rw [takenIn_append, droppedIn_append, htaken, hdropped, List.append_nil, List.append_nil, haccepted]
  cases hstamp : c.stamp with
  | some m =>
    -- routed again: it keeps its number
    simp only [Call.stamps, Bridge.questionOf, Bridge.numbered, hstamp, Option.toList_some, Option.getD_some,
      Option.isNone_some, Bool.false_eq_true, if_false] at hw ⊢
    omega
  | none =>
    simp only [Call.stamps, Bridge.questionOf, Bridge.numbered, hstamp, Option.toList_none, Option.getD_none,
      Option.isNone_none, if_true, List.count_nil, List.count_singleton, beq_iff_eq] at hw ⊢
    split at hw <;> split at hn <;> split <;> omega

/-- A question finds its channel full: one already accepted is dropped, a new one was never numbered. -/
theorem Custody.turnedAway {h : List BridgeObs} {s : Bridge} {k : Caller} {c : Call} (C : Custody h s)
    (hc : s.callOf k = some c) (i : Nat) : Custody (h ++ [Bridge.turnedAway c i]) (s.setCall k none) := by
  intro n
  have hn := C n
  have hcall := Bridge.count_setCall hc none n
  simp only [callStamps, List.count_nil, Call.stamps] at hcall
  have htaken : takenIn [Bridge.turnedAway c i] = [] := by
    cases hstamp : c.stamp <;> simp [Bridge.turnedAway, hstamp, takenIn, BridgeObs.takes]
  have hdropped : droppedIn [Bridge.turnedAway c i] = c.stamp.toList := by
    cases hstamp : c.stamp <;> simp [Bridge.turnedAway, hstamp, droppedIn, BridgeObs.drops]
  rw [takenIn_append, droppedIn_append, htaken, hdropped, List.append_nil, List.count_append,
    Bridge.setCall_accepted]
  omega

/-- **One step.** -/
theorem custody_step {env : BridgeEnv} {h o : List BridgeObs} {s s' : Bridge} {a : BridgeAction}
    (W : Wired s) (C : Custody h s) (hs : s.step env a = some (s', o)) : Custody (h ++ o) s' := by
  -- a call that only goes on holds what it held
  have hgoes : ∀ {k : Caller} {c : Call} (stage : Stage) (n : Nat), s.callOf k = some c →
      (s.setCall k (some { c with stage := stage })).waiting.count n = s.waiting.count n := by
    intro k c stage n hc
    have hcount := Bridge.count_setCall hc (some { c with stage := stage }) n
    simp only [callStamps, Call.stamps] at hcount
    omega
  cases Bridge.step_cases hs with
  | ignored topic payload ours => exact C.move (fun _ => rfl) rfl rfl rfl
  | arrived topic payload device text =>
    refine C.move ?_ rfl rfl rfl
    intro n
    simp [Bridge.waiting, callStamps, Call.stamps]
  | found k c i hc hstage hentry =>
    exact C.move (fun n => hgoes _ n hc) (Bridge.setCall_accepted _) rfl rfl
  | missing k c hc hstage hentry =>
    exact C.move (fun n => hgoes _ n hc) (Bridge.setCall_accepted _) rfl rfl
  | stale k c i a hc hstage ha hclosed =>
    exact C.move (fun n => hgoes _ n hc) (Bridge.setCall_accepted _) rfl rfl
  | evicted k c hc hstage hfree =>
    exact C.move (fun n => hgoes _ n hc) (Bridge.setCall_accepted _) rfl rfl
  | sent k c i a hc hstage ha hopen hroom =>
    refine C.accept ?_ (by simp [Bridge.numbered, Bridge.setActor])
    intro n
    have hcall := Bridge.count_setCall hc none n
    have hactor := Bridge.actors_setCall (s := s) (k := k) none i
    rw [ha, Option.map_some] at hactor
    have hpush := Bridge.count_push (s.questionOf c) hactor n
    simp only [callStamps, List.count_nil] at hcall
    rw [Bridge.waiting_numbered]
    omega
  | full k c i a hc hstage ha hopen hfull => exact C.turnedAway hc i
  | created k c hc hstage =>
    refine C.accept ?_ (by simp [Bridge.numbered, Bridge.addActor])
    intro n
    have hcall := Bridge.count_setCall hc (some { c with stamp := none, stage := .inserting s.actors.length }) n
    simp only [callStamps, Call.stamps, Option.toList_none, List.count_nil] at hcall
    rw [Bridge.waiting_numbered, Bridge.count_addActor]
    have hfresh : (Actor.fresh c.device (s.questionOf c)).stamps = [(s.questionOf c).stamp] := rfl
    rw [hfresh, Call.stamps]
    omega
  | inserted k c i hc hstage hfree =>
    obtain ⟨hstamp, a, ha, -⟩ := W.inserting k c i hc hstage
    refine C.move ?_ (Bridge.setCall_accepted _) rfl rfl
    intro n
    have hcall := Bridge.count_setCall hc none n
    have hactor := Bridge.actors_setCall (s := s) (k := k) none i
    rw [ha, Option.map_some] at hactor
    have hspawn := Bridge.count_setActor (s := (s.setCall k none).setDevice c.device (some i)) Actor.spawn hactor n
    rw [Bridge.waiting_setDevice] at hspawn
    simp only [callStamps, Call.stamps, hstamp, Option.toList_none, List.count_nil] at hcall
    simp only [Actor.stamps, Actor.spawn] at hspawn
    omega
  | own i b a a' obs ha hb =>
    -- what the actor takes leaves its channel for the history
    obtain ⟨hdropped, hcount⟩ := Actor.step_stamps hb
    intro n
    have hn := C n
    have hactor := Bridge.count_setActor (fun _ => a') ha n
    have hown := hcount n
    have haccepted : (s.setActor i (fun _ => a')).accepted = s.accepted := rfl
    rw [takenIn_append, droppedIn_append, hdropped, List.append_nil, List.count_append, haccepted]
    omega
  | deregistered i a ha hphase hfree hentry =>
    refine C.move ?_ rfl rfl rfl
    intro n
    have hactor := Bridge.count_setActor (fun a => { a with phase := .deregistered }) ha n
    simp only [Actor.stamps] at hactor
    rw [Bridge.waiting_setDevice]
    omega
  | replaced i a ha hphase hfree hentry =>
    refine C.move ?_ rfl rfl rfl
    intro n
    have hactor := Bridge.count_setActor (fun a => { a with phase := .deregistered }) ha n
    simp only [Actor.stamps] at hactor
    omega

/-! ## Progress -/

/-- The steps that finish what is under way: no question arrives, no loop breaks. -/
def BridgeAction.finishes : BridgeAction → Bool
  | .handle .. => false
  | .own _ .leave => false
  | .own _ _ | .call _ | .deregister _ => true

/-- How far a call is from its end; its question takes one step more in a channel. -/
def callWork : Option Call → Nat
  | none => 0
  | some c =>
    match c.stage with
    | .looking => 7
    | .found _ => 6
    | .evicting => 5
    | .creating => 4
    | .inserting _ => 2

/-- How far an actor is from having nothing to do. -/
def Actor.work (a : Actor) : Nat :=
  (if a.phase = .draining then 9 * a.queue.length + 1 else a.queue.length) + 8 * a.leftover.length +
    callWork a.call

/-- How far an actor that leaves is from its channel's close. -/
def Actor.exit (a : Actor) : Nat :=
  match a.phase with
  | .leaving => 2
  | .deregistered => 1
  | .unspawned | .running | .draining | .rerouting => 0

def Bridge.work (s : Bridge) : Nat := (s.calls.map callWork).sum + (s.actors.map Actor.work).sum
def Bridge.exit (s : Bridge) : Nat := (s.actors.map Actor.exit).sum

namespace Bridge

variable {s : Bridge} {k : Caller} {c : Call} {i : Nat} {a : Actor}

theorem work_setActor (f : Actor → Actor) (ha : s.actors[i]? = some a) :
    (s.setActor i f).work + a.work = s.work + (f a).work := by
  have hactors := Slots.sum_modify Actor.work f ha
  simp only [work, setActor]
  omega

theorem exit_setActor (f : Actor → Actor) (ha : s.actors[i]? = some a) :
    (s.setActor i f).exit + a.exit = s.exit + (f a).exit :=
  Slots.sum_modify Actor.exit f ha

theorem work_setCall (hc : s.callOf k = some c) (c' : Option Call) :
    (s.setCall k c').work + callWork (some c) = s.work + callWork c' := by
  cases k with
  | mqtt j =>
    obtain ⟨x, hx, he⟩ := Option.bind_eq_some_iff.mp hc
    cases he
    have hcalls := Slots.sum_modify callWork (fun _ => c') hx
    simp only [work, setCall]
    omega
  | actor j =>
    obtain ⟨b, hb, he⟩ := Option.bind_eq_some_iff.mp hc
    have hactor := work_setActor (fun b => { b with call := c' }) hb
    simp only [Actor.work, he] at hactor
    simp only [setCall]
    omega

theorem exit_setCall (c' : Option Call) : (s.setCall k c').exit = s.exit := by
  cases k with
  | mqtt j => rfl
  | actor j => exact congrArg List.sum (Slots.map_modify (fun _ _ => rfl))

theorem decreases_setCall {c' : Option Call} (hc : s.callOf k = some c) (h : callWork c' < callWork (some c)) :
    (s.setCall k c').exit = s.exit ∧ (s.setCall k c').work < s.work := by
  have hwork := work_setCall hc c'
  exact ⟨exit_setCall c', by omega⟩

end Bridge

theorem Actor.step_work {a a' : Actor} {b : OwnStep} {o : List BridgeObs} (h : a.step b = some (a', o))
    (hb : b ≠ .leave) : a'.exit < a.exit ∨ a'.exit = a.exit ∧ a'.work < a.work := by
  cases Actor.step_cases h with
  | take q rest hphase hqueue =>
    refine Or.inr ⟨rfl, ?_⟩
    simp [Actor.work, hphase, hqueue]
  | leave hphase => exact absurd rfl hb
  | close hphase => exact Or.inl (by simp [Actor.exit, hphase])
  | drain q rest hphase hqueue =>
    refine Or.inr ⟨rfl, ?_⟩
    simp [Actor.work, hphase, hqueue]
    omega
  | drained hphase hqueue =>
    refine Or.inr ⟨by simp [Actor.exit, hphase], ?_⟩
    simp [Actor.work, hphase, hqueue]
  | reroute q rest hphase hidle hleft =>
    refine Or.inr ⟨rfl, ?_⟩
    simp [Actor.work, hphase, hidle, hleft, callWork, Question.again]
    omega

theorem Bridge.exit_addActor_fresh (t : Bridge) (device : Text) (q : Question) :
    (t.addActor (Actor.fresh device q)).exit = t.exit := by
  simp [Bridge.exit, Bridge.addActor, Actor.fresh, Actor.exit]

theorem Bridge.work_addActor_fresh (t : Bridge) (device : Text) (q : Question) :
    (t.addActor (Actor.fresh device q)).work = t.work + 1 := by
  simp [Bridge.work, Bridge.addActor, Actor.fresh, Actor.work, callWork]
  omega

/-- **What finishing costs.** A step that finishes something brings a channel
nearer to its close, or leaves less to do. -/
theorem finishing_decreases {env : BridgeEnv} {s s' : Bridge} {a : BridgeAction} {o : List BridgeObs}
    (W : Wired s) (O : OrderedActors s) (hfin : a.finishes = true) (hs : s.step env a = some (s', o)) :
    s'.exit < s.exit ∨ s'.exit = s.exit ∧ s'.work < s.work := by
  cases Bridge.step_cases hs with
  | ignored topic payload ours => cases hfin
  | arrived topic payload device text => cases hfin
  | found k c i hc hstage he => exact Or.inr (Bridge.decreases_setCall hc (by simp [callWork, hstage]))
  | missing k c hc hstage he => exact Or.inr (Bridge.decreases_setCall hc (by simp [callWork, hstage]))
  | stale k c i a hc hstage ha hclosed => exact Or.inr (Bridge.decreases_setCall hc (by simp [callWork, hstage]))
  | full k c i a hc hstage ha hopen hfull => exact Or.inr (Bridge.decreases_setCall hc (by simp [callWork, hstage]))
  | evicted k c hc hstage hfree =>
    -- the entry is none of the work
    have hnearer : callWork (some { c with stage := .creating }) < callWork (some c) := by simp [callWork, hstage]
    have hcall := Bridge.decreases_setCall hc hnearer
    exact Or.inr hcall
  | sent k c i a hc hstage ha hopen hroom =>
    have hwork := Bridge.work_setCall hc none
    have hactor := Bridge.actors_setCall (s := s) (k := k) none i
    rw [ha, Option.map_some] at hactor
    have hpush := Bridge.work_setActor (Actor.push (s.questionOf c)) hactor
    have hexit := Bridge.exit_setActor (Actor.push (s.questionOf c)) hactor
    -- the channel is open, so its actor does not drain it
    have hphase : a.phase ≠ .draining := by
      intro h
      rw [(O i a ha).shut.mpr (Or.inl h)] at hopen
      cases hopen
    refine Or.inr ⟨?_, ?_⟩
    · show ((s.setCall k none).setActor i (Actor.push (s.questionOf c))).exit = s.exit
      rw [Bridge.exit_setCall] at hexit
      simp only [Actor.exit, Actor.push] at hexit
      omega
    · show ((s.setCall k none).setActor i (Actor.push (s.questionOf c))).work < s.work
      simp only [callWork, hstage] at hwork
      split at hpush
      all_goals
        simp only [Actor.work, Actor.push, hphase, if_false, List.length_append, List.length_singleton] at hpush
        omega
  | created k c hc hstage =>
    have hwork := Bridge.work_setCall hc (some { c with stamp := none, stage := .inserting s.actors.length })
    simp only [callWork, hstage] at hwork
    refine Or.inr ⟨?_, ?_⟩
    · show ((s.setCall k _).addActor (Actor.fresh c.device (s.questionOf c))).exit = s.exit
      rw [Bridge.exit_addActor_fresh, Bridge.exit_setCall]
    · show ((s.setCall k _).addActor (Actor.fresh c.device (s.questionOf c))).work < s.work
      rw [Bridge.work_addActor_fresh]
      omega
  | inserted k c i hc hstage hfree =>
    obtain ⟨-, a, ha, hplace⟩ := W.inserting k c i hc hstage
    have hphase : a.phase = .unspawned := by simpa [Actor.place] using congrArg Prod.snd hplace
    have hwork := Bridge.work_setCall hc none
    have hactor := Bridge.actors_setCall (s := s) (k := k) none i
    rw [ha, Option.map_some] at hactor
    have hspawn := Bridge.work_setActor (s := (s.setCall k none).setDevice c.device (some i)) Actor.spawn hactor
    have hexit := Bridge.exit_setActor (s := (s.setCall k none).setDevice c.device (some i)) Actor.spawn hactor
    have hsame : ((s.setCall k none).setDevice c.device (some i)).work = (s.setCall k none).work := rfl
    have hsame' : ((s.setCall k none).setDevice c.device (some i)).exit = s.exit := Bridge.exit_setCall (s := s) _
    simp only [callWork, hstage] at hwork
    refine Or.inr ⟨?_, ?_⟩
    · split at hexit
      all_goals
        simp only [Actor.exit, Actor.spawn, hphase] at hexit
        omega
    · split at hspawn
      all_goals
        simp only [Actor.work, Actor.spawn, hphase, reduceCtorEq, if_false] at hspawn
        omega
  | own i b a a' obs ha hb =>
    have hwork := Bridge.work_setActor (fun _ => a') ha
    have hexit := Bridge.exit_setActor (fun _ => a') ha
    have hown := Actor.step_work hb (by rintro rfl; cases hfin)
    omega
  | deregistered i a ha hphase hfree he =>
    have hexit := Bridge.exit_setActor (fun x => { x with phase := .deregistered }) ha
    simp only [Actor.exit, hphase] at hexit
    refine Or.inl ?_
    show (s.setActor i (fun x => { x with phase := .deregistered })).exit < s.exit
    omega
  | replaced i a ha hphase hfree he =>
    have hexit := Bridge.exit_setActor (fun x => { x with phase := .deregistered }) ha
    simp only [Actor.exit, hphase] at hexit
    exact Or.inl (by omega)

theorem free_of_no_reader (env : BridgeEnv) {s : Bridge}
    (h : ∀ k c i, s.callOf k = some c → c.stage ≠ .found i) (device : Text) : s.locked env device = false := by
  have hnone : (s.calls ++ s.actors.map Actor.call).any (fun c => c.any (Call.holds device)) = false := by
    rw [List.any_eq_false]
    intro x hx
    -- whatever is in the list is someone's call
    have hcaller : ∀ c, x = some c → ∃ k, s.callOf k = some c := by
      intro c hxc
      subst hxc
      rcases List.mem_append.mp hx with hx | hx
      · obtain ⟨i, hi⟩ := List.mem_iff_getElem?.mp hx
        exact ⟨.mqtt i, by simp [Bridge.callOf, hi]⟩
      · obtain ⟨a, ha, he⟩ := List.mem_map.mp hx
        obtain ⟨i, hi⟩ := List.mem_iff_getElem?.mp ha
        exact ⟨.actor i, by simp [Bridge.callOf, hi, he]⟩
    cases x with
    | none => simp
    | some c =>
      obtain ⟨k, hk⟩ := hcaller c rfl
      have hnot := h k c
      simp only [Option.any_some, Call.holds, Bool.and_eq_true, decide_eq_true_eq, not_and, Bool.not_eq_true]
      intro _
      cases hstage : c.stage with
      | found i => exact absurd hstage (hnot i hk)
      | _ => rfl
  rw [Bridge.locked, hnone, Bool.and_false]

theorem route_enabled (env : BridgeEnv) {s : Bridge} {k : Caller} {c : Call} (W : Wired s)
    (hc : s.callOf k = some c) (hfree : (∃ i, c.stage = .found i) ∨ ∀ device, s.locked env device = false) :
    ∃ r, s.step env (.call k) = some r := by
  have hroute : s.step env (.call k) = s.route env k c := by
    show (s.callOf k).bind (s.route env k) = _
    rw [hc]
    rfl
  rw [hroute]
  unfold Bridge.route
  cases hstage : c.stage with
  | looking =>
    simp only
    split <;> exact ⟨_, rfl⟩
  | found i =>
    have ha := List.getElem?_eq_getElem (W.found k c i hc hstage)
    simp only [ha]
    split
    · exact ⟨_, rfl⟩
    · split <;> exact ⟨_, rfl⟩
  | evicting =>
    have hd := hfree.resolve_left (by simp [hstage]) c.device
    simp only [hd, Bool.false_eq_true, if_false]
    exact ⟨_, rfl⟩
  | creating => exact ⟨_, rfl⟩
  | inserting i =>
    have hd := hfree.resolve_left (by simp [hstage]) c.device
    simp only [hd, Bool.false_eq_true, if_false]
    exact ⟨_, rfl⟩

theorem own_enabled {env : BridgeEnv} {s : Bridge} {i : Nat} {a : Actor} (W : Wired s) (O : OrderedActors s)
    (hidle : ∀ k, s.callOf k = none) (ha : s.actors[i]? = some a) (hholds : a.stamps ≠ []) :
    ∃ b r, b.finishes = true ∧ s.step env b = some r := by
  have hcall : a.call = none := by simpa [Bridge.callOf, ha] using hidle (.actor i)
  have hown : ∀ b, a.step b ≠ none → ∃ r, s.step env (.own i b) = some r := by
    intro b hb
    obtain ⟨r, hr⟩ := Option.ne_none_iff_exists'.mp hb
    refine ⟨(s.setActor i (fun _ => r.1), r.2), ?_⟩
    simp [Bridge.step, ha, hr]
  obtain ⟨-, -, hdrained, hkept⟩ := O i a ha
  -- where its channel is open, what it holds is in the channel
  have hopen : a.closed = false → a.queue ≠ [] := by
    intro hclosed hqueue
    apply hholds
    have hleft : a.leftover = [] := by
      by_contra hne
      rw [hkept hne] at hclosed
      cases hclosed
    simp [Actor.stamps, hcall, hqueue, hleft, callStamps]
  -- and its channel is open until it drains
  have hclosed : ∀ p, a.phase = p → p ≠ .draining → p ≠ .rerouting → a.closed = false := by
    intro p hp hd hr
    by_contra hcl
    rcases (O i a ha).shut.mp (by simpa using hcl) with h | h
    · exact hd (hp ▸ h)
    · exact hr (hp ▸ h)
  cases hphase : a.phase with
  | unspawned =>
    obtain ⟨k, c, hc, -⟩ := W.unspawned i a ha hphase
    rw [hidle k] at hc
    cases hc
  | running =>
    obtain ⟨q, rest, hqueue⟩ := List.exists_cons_of_ne_nil (hopen (hclosed _ hphase (by simp) (by simp)))
    obtain ⟨r, hr⟩ := hown .take (by simp [Actor.step, hphase, hqueue])
    exact ⟨_, r, rfl, hr⟩
  | leaving =>
    have hfree := free_of_no_reader env (s := s) (by simp [hidle]) a.device
    have hstep : ∃ r, s.step env (.deregister i) = some r := by
      simp only [Bridge.step, ha, hphase, hfree, and_self, if_true]
      exact ⟨_, rfl⟩
    obtain ⟨r, hr⟩ := hstep
    exact ⟨_, r, rfl, hr⟩
  | deregistered =>
    obtain ⟨r, hr⟩ := hown .close (by simp [Actor.step, hphase])
    exact ⟨_, r, rfl, hr⟩
  | draining =>
    obtain ⟨r, hr⟩ := hown .drain (by cases hqueue : a.queue <;> simp [Actor.step, hphase, hqueue])
    exact ⟨_, r, rfl, hr⟩
  | rerouting =>
    have hleft : a.leftover ≠ [] := by
      intro hnil
      apply hholds
      simp [Actor.stamps, hcall, hnil, hdrained hphase, callStamps]
    obtain ⟨q, rest, hleft⟩ := List.exists_cons_of_ne_nil hleft
    obtain ⟨r, hr⟩ := hown .reroute (by simp [Actor.step, hphase, hcall, hleft])
    exact ⟨_, r, rfl, hr⟩

/-- **Progress.** While a question waits, something under way can be finished. -/
theorem finishing_enabled (env : BridgeEnv) {s : Bridge} (W : Wired s) (O : OrderedActors s)
    (hwaits : s.waiting ≠ []) : ∃ b r, b.finishes = true ∧ s.step env b = some r := by
  by_cases hreader : ∃ k c i, s.callOf k = some c ∧ c.stage = .found i
  · obtain ⟨k, c, i, hc, hstage⟩ := hreader
    obtain ⟨r, hr⟩ := route_enabled env W hc (Or.inl ⟨i, hstage⟩)
    exact ⟨_, r, rfl, hr⟩
  · have hfree := free_of_no_reader env
      (fun k c i hc hstage => hreader ⟨k, c, i, hc, hstage⟩)
    by_cases hcall : ∃ k c, s.callOf k = some c
    · obtain ⟨k, c, hc⟩ := hcall
      obtain ⟨r, hr⟩ := route_enabled env W hc (Or.inr hfree)
      exact ⟨_, r, rfl, hr⟩
    · have hidle : ∀ k, s.callOf k = none := by
        intro k
        by_contra hne
        obtain ⟨c, hc⟩ := Option.ne_none_iff_exists'.mp hne
        exact hcall ⟨k, c, hc⟩
      -- then an actor holds it
      obtain ⟨n, hn⟩ := List.exists_mem_of_ne_nil _ hwaits
      rcases List.mem_append.mp hn with hn | hn
      · obtain ⟨x, hx, hstamp⟩ := List.mem_flatMap.mp hn
        obtain ⟨j, hj⟩ := List.mem_iff_getElem?.mp hx
        have hnone : x = none := by simpa [Bridge.callOf, hj] using hidle (.mqtt j)
        subst hnone
        cases hstamp
      · obtain ⟨a, ha, hstamp⟩ := List.mem_flatMap.mp hn
        obtain ⟨i, hi⟩ := List.mem_iff_getElem?.mp ha
        exact own_enabled W O hidle hi (List.ne_nil_of_mem hstamp)

theorem exists_finish (env : BridgeEnv) : ∀ (e w : Nat) (s : Bridge), s.exit = e → s.work = w → Wired s →
    OrderedActors s → ∃ as s' h', (∀ a ∈ as, BridgeAction.finishes a = true) ∧
      (Bridge.machine env).run s as = some (s', h') ∧ s'.waiting = [] := by
  intro e
  induction e using Nat.strong_induction_on with
  | _ e ihe =>
    intro w
    induction w using Nat.strong_induction_on with
    | _ w ihw =>
      intro s he hw W O
      by_cases hwaits : s.waiting = []
      · exact ⟨[], s, [], by simp, rfl, hwaits⟩
      · obtain ⟨b, ⟨s₁, o₁⟩, hfin, hs⟩ := finishing_enabled env W O hwaits
        have W₁ := wired_step W hs
        have O₁ := orderedActors_step W O hs
        have hrest : ∃ as s' h', (∀ a ∈ as, BridgeAction.finishes a = true) ∧
            (Bridge.machine env).run s₁ as = some (s', h') ∧ s'.waiting = [] := by
          rcases finishing_decreases W O hfin hs with hlt | ⟨hsame, hlt⟩
          · exact ihe s₁.exit (he ▸ hlt) s₁.work s₁ rfl rfl W₁ O₁
          · exact ihw s₁.work (hw ▸ hlt) s₁ (hsame.trans he) rfl W₁ O₁
        obtain ⟨as, s', h', hall, hrun, hdone⟩ := hrest
        refine ⟨b :: as, s', o₁ ++ h', ?_, ?_, hdone⟩
        · exact List.forall_mem_cons.mpr ⟨hfin, hall⟩
        · exact (Machine.run_cons_some _).mpr ⟨s₁, o₁, h', hs, hrun, rfl⟩

/-! ## The whole -/

/-- A question is dropped on its second way only at a full backlog: the channel
is open, and its actor, where entries are locked while read, is in the map. -/
def DropsAtFullBacklog (env : BridgeEnv) (s : Bridge) (o : List BridgeObs) : Prop :=
  ∀ n i, .dropped n i ∈ o → ∃ a : Actor, s.actors[i]? = some a ∧ a.closed = false ∧
    BACKLOG ≤ a.queue.length ∧
    (env.guarded = true → s.devices a.device = some i ∧ a.accepting = true)

theorem drops_at_full_backlog {env : BridgeEnv} {s s' : Bridge} {a : BridgeAction} {o : List BridgeObs}
    (hreg : env.guarded = true → Registered s) (hs : s.step env a = some (s', o)) : DropsAtFullBacklog env s o := by
  have hnone : ∀ {o' : List BridgeObs}, (∀ n i, BridgeObs.dropped n i ∉ o') → DropsAtFullBacklog env s o' :=
    fun h n i hm => absurd hm (h n i)
  cases Bridge.step_cases hs with
  | full k c i a hc hstage ha hopen hfull =>
    intro n j hm
    have hij : i = j := by
      unfold Bridge.turnedAway at hm
      cases hstamp : c.stamp <;> simp [hstamp] at hm
      exact hm.2.symm
    subst hij
    refine ⟨a, ha, hopen, hfull, ?_⟩
    intro hg
    have hentry := (hreg hg).guard k c i hc hstage
    obtain ⟨a', ha', hst⟩ := (hreg hg).entry c.device i hentry
    rw [ha] at ha'
    cases ha'
    have hd : a.device = c.device := congrArg Prod.fst hst
    exact ⟨by rw [hd]; exact hentry, congrArg Prod.snd hst⟩
  | own i b a a' obs ha hb =>
    apply hnone
    intro n j
    cases Actor.step_cases hb <;> simp
  | _ => exact hnone (by simp)

/-- What holds of every state of the bridge. -/
structure Kept (env : BridgeEnv) (h : List BridgeObs) (s : Bridge) : Prop where
  wired : Wired s
  ordered : OrderedActors s
  custody : Custody h s
  registered : env.guarded = true → Registered s

theorem kept_new (env : BridgeEnv) : Kept env [] Bridge.new where
  wired := wired_new
  ordered := by intro i a h; cases h
  custody := by intro n; rfl
  registered := fun _ => registered_new

theorem kept_step {env : BridgeEnv} {h o : List BridgeObs} {s s' : Bridge} {a : BridgeAction} (K : Kept env h s)
    (hs : s.step env a = some (s', o)) : Kept env (h ++ o) s' where
  wired := wired_step K.wired hs
  ordered := orderedActors_step K.wired K.ordered hs
  custody := custody_step K.wired K.custody hs
  registered := fun hg => registered_step hg K.wired (K.registered hg) hs

theorem Custody.perm {h : List BridgeObs} {s : Bridge} (C : Custody h s) :
    (s.waiting ++ takenIn h ++ droppedIn h).Perm (List.range s.accepted) := by
  rw [List.perm_iff_count]
  intro n
  rw [List.count_append, List.count_append, C n, List.count_range]

/-- A bridge whose payloads are the bare texts. -/
def kitchenBridge : BridgeEnv :=
  { topicPrefix := "assist".toList
    fromSlice := fun payload => some (textPayload (payload.map (fun b => Char.ofNat b.toNat)))
    guarded := true }

/-- A question of the kitchen's device arrives. -/
def ask (payload : List UInt8) : BridgeAction := .handle "assist/transcription/kitchen".toList payload

/-- The first question starts an actor; the second is accepted when its loop is
over, drained by its exit, and routed to a second actor. -/
def reapWindow : List BridgeAction :=
  [ask [49], .call (.mqtt 0), .call (.mqtt 0), .call (.mqtt 0), .own 0 .take,
   .own 0 .leave, ask [50], .call (.mqtt 1), .call (.mqtt 1), .deregister 0, .own 0 .close, .own 0 .drain,
   .own 0 .drain, .own 0 .reroute, .call (.actor 0), .call (.actor 0), .call (.actor 0), .own 1 .take]

end AthenaVoice.Assist
