import Mathlib.Data.List.Basic

/-
  Chains of relays — bounded channels with a task between any two

  A relay is a task with the bounded channel it receives from. It receives an
  item, holds it, and sends it on to the next relay, for which it waits while
  that channel is full. The last relay of a chain is the reader: what it
  receives leaves the chain. A relay that stops drops its channel with all that
  is in it, and the relay before it stops when it next sends.

  Whoever feeds the chain does not wait: an offer is refused when the first
  channel is full or gone.

  What is proved:
    1. `offer_deliverable`, `step_deliverable` — what a chain may still deliver,
       and that a move only takes from it: the item read from its front, or, when
       a relay stops, items from its back.
    2. `Flow` — what was read and what may still be delivered are, in this
       order, a prefix of what was accepted, and all of it while every relay runs.
    3. `content_length_lt` — how much a chain can hold.
    4. `exists_drain` — a chain that runs can deliver all it holds.
-/

namespace AthenaVoice.Lib

universe u

/-- A relay: its channel, what it has received and not sent yet, and whether it
still runs. -/
structure Relay (α : Type u) where
  queue : List α
  held : Option α
  live : Bool
  deriving DecidableEq, Repr

namespace Relay

variable {α : Type u}

def fresh : Relay α := { queue := [], held := none, live := true }

/-- Stopped: the channel and what was held are dropped. -/
def stopped : Relay α := { queue := [], held := none, live := false }

/-- What is with the relay, the oldest first. -/
def holding (r : Relay α) : List α := r.held.toList ++ r.queue

inductive Move where
  | recv | send | stop
  deriving DecidableEq, Repr

end Relay

/-- The first relay is the one the chain is fed through. -/
abbrev Chain (α : Type u) := List (Relay α)

namespace Chain

open Relay

variable {α : Type u} (cap : Nat)

/-- An item is offered to the first relay, without waiting. -/
def offer (x : α) : Chain α → Option (Chain α)
  | [] => none
  | r :: rest =>
    if r.live = true ∧ r.queue.length < cap then some ({ r with queue := r.queue ++ [x] } :: rest) else none

/-- One move of one relay, with what is read from the chain by it. A relay that
waits cannot move. -/
def step : Chain α → Nat → Move → Option (Chain α × Option α)
  | [], _, _ => none
  | r :: rest, i + 1, m => (step rest i m).map fun q => (r :: q.1, q.2)
  | r :: rest, 0, .recv =>
    if r.live = true ∧ r.held = none then
      match r.queue, rest with
      | [], _ => none
      | x :: queue, [] => some ([{ r with queue := queue }], some x)
      | x :: queue, _ :: _ => some ({ r with queue := queue, held := some x } :: rest, none)
    else none
  | r :: rest, 0, .send =>
    match r.live, r.held with
    | true, some x =>
      if rest.head?.any Relay.live = true then
        (offer cap x rest).map fun rest => ({ r with held := none } :: rest, none)
      -- the receiver is gone, and so is what was to be sent
      else some (stopped :: rest, none)
    | _, _ => none
  | r :: rest, 0, .stop => if r.live = true ∧ r.held = none then some (stopped :: rest, none) else none

/-! ## What a chain holds, and what of it may still be read -/

/-- What is in the chain, the oldest first. -/
def content : Chain α → List α
  | [] => []
  | r :: rest => content rest ++ r.holding

/-- What no stopped relay is in the way of. -/
def deliverable : Chain α → List α
  | [] => []
  | r :: rest => deliverable rest ++ bif (r :: rest).all Relay.live then r.holding else []

/-- No channel holds more than it may. -/
def Bounded (c : Chain α) : Prop := ∀ r ∈ c, r.queue.length ≤ cap

theorem deliverable_of_live : ∀ {c : Chain α}, c.all Relay.live = true → deliverable c = content c := by
  intro c
  induction c with
  | nil => intro _; rfl
  | cons r rest ih =>
    intro hlive
    simp only [deliverable, content]
    rw [hlive, cond_true, ih (by simp_all)]

/-- The reader holds nothing: what it receives has left the chain. -/
def Ready : Chain α → Prop
  | [] => True
  | [r] => r.held = none
  | _ :: s :: rest => Ready (s :: rest)

/-- A chain whose reader holds nothing has one place less. -/
theorem content_length_lt {cap : Nat} : ∀ {c : Chain α}, c ≠ [] → Ready c → Bounded cap c →
    (content c).length < c.length * (cap + 1) := by
  intro c
  induction c with
  | nil => intro h; exact absurd rfl h
  | cons r rest ih =>
    intro _ hready hbounded
    have hr : r.queue.length ≤ cap := hbounded r List.mem_cons_self
    cases rest with
    | nil =>
      have hheld : r.held = none := hready
      simp only [content, holding, hheld, List.nil_append, Option.toList_none, List.length_singleton]
      omega
    | cons s rest =>
      have hrest := ih (List.cons_ne_nil s rest) hready (fun r' h => hbounded r' (List.mem_cons_of_mem r h))
      have hheld : r.held.toList.length ≤ 1 := by cases r.held <;> simp
      rw [content, List.length_append, List.length_cons, Nat.add_mul, Nat.one_mul, holding, List.length_append]
      omega

/-! ## Offers -/

variable {cap}

theorem offer_cases {x : α} {c c' : Chain α} (h : offer cap x c = some c') :
    ∃ r rest, c = r :: rest ∧ r.live = true ∧ r.queue.length < cap ∧
      c' = { r with queue := r.queue ++ [x] } :: rest := by
  cases c with
  | nil => cases h
  | cons r rest =>
    simp only [offer] at h
    split at h
    · rename_i hroom
      exact ⟨r, rest, rfl, hroom.1, hroom.2, (Option.some.inj h).symm⟩
    · cases h

/-- An item accepted is the last to be delivered, unless a relay has stopped. -/
theorem offer_deliverable {x : α} {c c' : Chain α} (h : offer cap x c = some c') :
    c'.all Relay.live = c.all Relay.live ∧
      deliverable c' = deliverable c ++ bif c.all Relay.live then [x] else [] := by
  obtain ⟨r, rest, rfl, -, -, rfl⟩ := offer_cases h
  refine ⟨rfl, ?_⟩
  simp only [deliverable, holding, List.all_cons]
  cases (r.live && rest.all Relay.live) with
  | true => simp only [cond_true, List.append_assoc]
  | false => simp only [cond_false, List.append_nil]

theorem offer_bounded {x : α} {c c' : Chain α} (h : offer cap x c = some c') (hbounded : Bounded cap c) :
    Bounded cap c' := by
  obtain ⟨r, rest, rfl, -, hroom, rfl⟩ := offer_cases h
  intro r' hr'
  rcases List.mem_cons.mp hr' with rfl | hrest
  · simp only [List.length_append, List.length_singleton]
    omega
  · exact hbounded r' (List.mem_cons_of_mem r hrest)

/-! ## Moves -/

/-- What one move of the first relay of a chain does. -/
inductive HeadMove (cap : Nat) (r : Relay α) : Chain α → Chain α → Option α → Prop where
  | read {x queue} (hlive : r.live = true) (hheld : r.held = none) (hqueue : r.queue = x :: queue) :
      HeadMove cap r [] [{ r with queue := queue }] (some x)
  | took {x queue s rest} (hlive : r.live = true) (hheld : r.held = none) (hqueue : r.queue = x :: queue) :
      HeadMove cap r (s :: rest) ({ r with queue := queue, held := some x } :: s :: rest) none
  | sent {x rest rest'} (hlive : r.live = true) (hheld : r.held = some x) (hoffer : offer cap x rest = some rest') :
      HeadMove cap r rest ({ r with held := none } :: rest') none
  | stopped {rest} : HeadMove cap r rest (Relay.stopped :: rest) none

theorem step_zero {r : Relay α} {rest c' : Chain α} {m : Move} {out : Option α}
    (h : step cap (r :: rest) 0 m = some (c', out)) : HeadMove cap r rest c' out := by
  cases m with
  | recv =>
    simp only [step] at h
    split at h
    · rename_i hready
      cases hqueue : r.queue with
      | nil => rw [hqueue] at h; cases h
      | cons x queue =>
        rw [hqueue] at h
        cases rest with
        | nil => cases h; exact .read hready.1 hready.2 hqueue
        | cons s rest => cases h; exact .took hready.1 hready.2 hqueue
    · cases h
  | send =>
    simp only [step] at h
    split at h
    · rename_i x hlive hheld
      split at h
      · obtain ⟨rest', hoffer, heq⟩ := Option.map_eq_some_iff.mp h
        cases heq
        exact .sent hlive hheld hoffer
      · cases h
        exact .stopped
    · cases h
  | stop =>
    simp only [step] at h
    split at h
    · cases h
      exact .stopped
    · cases h

/-- A move takes from what may be delivered: what is read, from its front, or
what stopping loses, from its back. -/
theorem step_deliverable : ∀ {c c' : Chain α} {i : Nat} {m : Move} {out : Option α},
    step cap c i m = some (c', out) →
      (c'.all Relay.live = true → c.all Relay.live = true ∧ out.toList ++ deliverable c' = deliverable c) ∧
        out.toList ++ deliverable c' <+: deliverable c := by
  intro c
  induction c with
  | nil => intro c' i m out h; cases h
  | cons r rest ih =>
    intro c' i m out h
    cases i with
    | succ i =>
      simp only [step] at h
      obtain ⟨⟨rest', out'⟩, hstep, heq⟩ := Option.map_eq_some_iff.mp h
      cases heq
      obtain ⟨hkept, hprefix⟩ := ih hstep
      have hall : (r :: rest').all Relay.live = true → (r :: rest).all Relay.live = true ∧
          out'.toList ++ deliverable (r :: rest') = deliverable (r :: rest) := by
        intro hlive
        have hrest := hkept (by simp_all)
        have hcons : (r :: rest).all Relay.live = true := by simp_all
        refine ⟨hcons, ?_⟩
        simp only [deliverable]
        rw [hlive, hcons, cond_true, ← List.append_assoc, hrest.2]
      refine ⟨hall, ?_⟩
      by_cases hlive : (r :: rest').all Relay.live = true
      · simp only [(hall hlive).2, List.prefix_rfl]
      · simp only [deliverable]
        rw [Bool.not_eq_true] at hlive
        rw [hlive, cond_false, List.append_nil]
        exact hprefix.trans (List.prefix_append _ _)
    | zero =>
      cases step_zero h with
      | @read x queue hlive hheld hqueue =>
        have heq : (some x).toList ++ deliverable [{ r with queue := queue }] = deliverable [r] := by
          simp [deliverable, holding, hlive, hheld, hqueue]
        exact ⟨fun _ => ⟨by simp [hlive], heq⟩, heq ▸ List.prefix_rfl⟩
      | @took x queue s rest hlive hheld hqueue =>
        have heq : deliverable ({ r with queue := queue, held := some x } :: s :: rest) =
          deliverable (r :: s :: rest) := by
          simp [deliverable, holding, hheld, hqueue]
        exact ⟨fun hall => ⟨by simpa using hall, heq⟩, heq ▸ List.prefix_rfl⟩
      | @sent x _ rest' hlive hheld hoffer =>
        obtain ⟨hlives, hdeliver⟩ := offer_deliverable hoffer
        have heq : deliverable ({ r with held := none } :: rest') = deliverable (r :: rest) := by
          simp only [deliverable, List.all_cons, hlives, hdeliver, holding, hheld, hlive]
          cases rest.all Relay.live <;> simp
        exact ⟨fun hall => ⟨by simpa [hlives] using hall, heq⟩, heq ▸ List.prefix_rfl⟩
      | stopped =>
        refine ⟨fun hall => by simp [Relay.stopped] at hall, ?_⟩
        simp only [deliverable, Relay.stopped, List.all_cons, Bool.false_and, cond_false, List.append_nil,
          Option.toList_none, List.nil_append]
        exact List.prefix_append _ _

theorem step_length : ∀ {c c' : Chain α} {i : Nat} {m : Move} {out : Option α},
    step cap c i m = some (c', out) → c'.length = c.length := by
  intro c
  induction c with
  | nil => intro c' i m out h; cases h
  | cons r rest ih =>
    intro c' i m out h
    cases i with
    | succ i =>
      simp only [step] at h
      obtain ⟨⟨rest', out'⟩, hstep, heq⟩ := Option.map_eq_some_iff.mp h
      cases heq
      simp only [List.length_cons, ih hstep]
    | zero =>
      cases step_zero h with
      | read => rfl
      | took => rfl
      | sent _ _ hoffer =>
        obtain ⟨s, rest, rfl, -, -, rfl⟩ := offer_cases hoffer
        rfl
      | stopped => rfl

theorem step_bounded : ∀ {c c' : Chain α} {i : Nat} {m : Move} {out : Option α},
    step cap c i m = some (c', out) → Bounded cap c → Bounded cap c' := by
  intro c
  induction c with
  | nil => intro c' i m out h; cases h
  | cons r rest ih =>
    intro c' i m out h hbounded
    have hr : r.queue.length ≤ cap := hbounded r List.mem_cons_self
    have hrest : Bounded cap rest := fun r' h => hbounded r' (List.mem_cons_of_mem r h)
    cases i with
    | succ i =>
      simp only [step] at h
      obtain ⟨⟨rest', out'⟩, hstep, heq⟩ := Option.map_eq_some_iff.mp h
      cases heq
      exact List.forall_mem_cons.mpr ⟨hr, ih hstep hrest⟩
    | zero =>
      cases step_zero h with
      | @read x queue hlive hheld hqueue =>
        rw [hqueue, List.length_cons] at hr
        exact List.forall_mem_cons.mpr ⟨by simp only; omega, hrest⟩
      | @took x queue s rest hlive hheld hqueue =>
        rw [hqueue, List.length_cons] at hr
        exact List.forall_mem_cons.mpr ⟨by simp only; omega, hrest⟩
      | sent _ _ hoffer => exact List.forall_mem_cons.mpr ⟨hr, offer_bounded hoffer hrest⟩
      | stopped => exact List.forall_mem_cons.mpr ⟨Nat.zero_le cap, hrest⟩

/-! ## What a chain holds can leave it -/

theorem offer_ready {x : α} {c c' : Chain α} (h : offer cap x c = some c') (hready : Ready c) : Ready c' := by
  obtain ⟨r, rest, rfl, -, -, rfl⟩ := offer_cases h
  cases rest <;> exact hready

theorem step_ready : ∀ {c c' : Chain α} {i : Nat} {m : Move} {out : Option α},
    step cap c i m = some (c', out) → Ready c → Ready c' := by
  intro c
  induction c with
  | nil => intro c' i m out h; cases h
  | cons r rest ih =>
    intro c' i m out h hready
    cases i with
    | succ i =>
      simp only [step] at h
      obtain ⟨⟨rest', out'⟩, hstep, heq⟩ := Option.map_eq_some_iff.mp h
      cases heq
      have hlength := step_length hstep
      cases rest with
      | nil => cases hstep
      | cons s rest =>
        cases rest' with
        | nil => simp at hlength
        | cons s' rest' =>
          have hrest : Ready (s' :: rest') := ih hstep hready
          exact hrest
    | zero =>
      cases step_zero h with
      | read _ hheld => exact hheld
      | took => exact hready
      | sent _ _ hoffer =>
        obtain ⟨s, rest, rfl, -, -, rfl⟩ := offer_cases hoffer
        have hrest : Ready (s :: rest) := hready
        have hrest' : Ready ({ s with queue := s.queue ++ [_] } :: rest) := offer_ready hoffer hrest
        exact hrest'
      | stopped => cases rest <;> first | rfl | exact hready

theorem step_live : ∀ {c c' : Chain α} {i : Nat} {m : Move} {out : Option α},
    step cap c i m = some (c', out) → Ready c → c.all Relay.live = true → m ≠ .stop →
      c'.all Relay.live = true := by
  intro c
  induction c with
  | nil => intro c' i m out h; cases h
  | cons r rest ih =>
    intro c' i m out h hready hlive hm
    have hr : r.live = true := by simp_all
    have hrest : rest.all Relay.live = true := by simp_all
    cases i with
    | succ i =>
      simp only [step] at h
      obtain ⟨⟨rest', out'⟩, hstep, heq⟩ := Option.map_eq_some_iff.mp h
      cases heq
      have hready' : Ready rest := by
        cases rest with
        | nil => trivial
        | cons s rest => exact hready
      rw [List.all_cons, hr, Bool.true_and]
      exact ih hstep hready' hrest hm
    | zero =>
      cases m with
      | recv =>
        simp only [step] at h
        split at h
        · split at h <;> cases h <;> simp_all
        · cases h
      | send =>
        simp only [step] at h
        split at h
        · rename_i x _ hheld
          split at h
          · obtain ⟨rest', hoffer, heq⟩ := Option.map_eq_some_iff.mp h
            cases heq
            rw [List.all_cons, (offer_deliverable hoffer).1, hrest]
            simpa using hr
          · rename_i hgone
            -- the next relay runs, and the reader holds nothing
            cases rest with
            | nil => rw [show r.held = none from hready] at hheld; cases hheld
            | cons s rest => simp_all
        · cases h
      | stop => exact absurd rfl hm

def reading : Chain α → Bool
  | [] => false
  | [r] => r.live
  | _ :: s :: rest => reading (s :: rest)

theorem offer_reading {x : α} {c c' : Chain α} (h : offer cap x c = some c') : reading c' = reading c := by
  obtain ⟨r, rest, rfl, -, -, rfl⟩ := offer_cases h
  cases rest <;> rfl

theorem step_reading : ∀ {c c' : Chain α} {i : Nat} {m : Move} {out : Option α},
    step cap c i m = some (c', out) → reading c' = true → reading c = true := by
  intro c
  induction c with
  | nil => intro c' i m out h; cases h
  | cons r rest ih =>
    intro c' i m out h hreading
    cases i with
    | succ i =>
      simp only [step] at h
      obtain ⟨⟨rest', out'⟩, hstep, heq⟩ := Option.map_eq_some_iff.mp h
      cases heq
      have hlength := step_length hstep
      cases rest with
      | nil => cases hstep
      | cons s rest =>
        cases rest' with
        | nil => simp at hlength
        | cons s' rest' => exact ih hstep hreading
    | zero =>
      cases step_zero h with
      | read hlive => exact hlive
      | took => exact hreading
      | sent _ _ hoffer =>
        have hsame := offer_reading hoffer
        obtain ⟨s, rest, rfl, -, -, rfl⟩ := offer_cases hoffer
        exact hsame.symm.trans hreading
      | stopped =>
        cases rest with
        | nil => cases hreading
        | cons s rest => exact hreading

/-- Moves of relays, one after another, with all that is read. -/
def runMoves (cap : Nat) : Chain α → List (Nat × Move) → Option (Chain α × List α)
  | c, [] => some (c, [])
  | c, (i, m) :: ms =>
    (step cap c i m).bind fun q => (runMoves cap q.1 ms).map fun t => (t.1, q.2.toList ++ t.2)

/-- How far what a chain holds is from its end: what is in a channel has to be
received, and what is held has to be sent. -/
def distance : Chain α → Nat
  | [] => 0
  | r :: rest => distance rest + r.held.toList.length * (2 * rest.length) + r.queue.length * (2 * rest.length + 1)

theorem exists_move (hcap : 0 < cap) : ∀ {c : Chain α}, c.all Relay.live = true → Ready c → content c ≠ [] →
    ∃ i m c' out, m ≠ .stop ∧ step cap c i m = some (c', out) ∧ c'.all Relay.live = true ∧ Ready c' ∧
      distance c' < distance c := by
  intro c
  induction c with
  | nil => intro _ _ h; exact absurd rfl h
  | cons r rest ih =>
    intro hlive hready hcontent
    have hr : r.live = true := by simp_all
    cases rest with
    | nil =>
      -- the reader reads
      have hheld : r.held = none := hready
      cases hqueue : r.queue with
      | nil => exact absurd (by simp [content, holding, hheld, hqueue]) hcontent
      | cons x queue =>
        refine ⟨0, .recv, [{ r with queue := queue }], some x, nofun, ?_, by simpa using hr, hheld, ?_⟩
        · simp [step, hr, hheld, hqueue]
        · simp [distance, hqueue]
    | cons s rest =>
      have hrest : (s :: rest).all Relay.live = true := by simp_all
      by_cases hempty : content (s :: rest) = []
      · -- nothing lies ahead, so the next channel has room
        have hqueue' : s.queue = [] := by
          simp only [content, holding, List.append_eq_nil_iff] at hempty
          exact hempty.2.2
        have hs : s.live = true := by simp_all
        cases hheld : r.held with
        | some x =>
          have hoffer : offer cap x (s :: rest) = some ({ s with queue := [x] } :: rest) := by
            simp [offer, hs, hqueue', hcap]
          refine ⟨0, .send, { r with held := none } :: { s with queue := [x] } :: rest, none, nofun, ?_, ?_, ?_, ?_⟩
          · simp [step, hr, hheld, hs, hoffer]
          · simp_all
          · cases rest <;> exact hready
          · simp only [distance, hheld, hqueue', Option.toList_some, Option.toList_none, List.length_nil,
              List.length_cons]
            omega
        | none =>
          cases hqueue : r.queue with
          | nil => exact absurd (by simp [content, holding, hheld, hqueue] at hempty ⊢; exact hempty) hcontent
          | cons x queue =>
            refine ⟨0, .recv, { r with queue := queue, held := some x } :: s :: rest, none, nofun, ?_, by simp_all,
              hready, ?_⟩
            · simp [step, hr, hheld, hqueue]
            · simp only [distance, hheld, hqueue, Option.toList_some, Option.toList_none, List.length_nil,
                List.length_cons, Nat.add_mul]
              omega
      · obtain ⟨i, m, c', out, hm, hstep, hlive', hready', hdist⟩ := ih hrest hready hempty
        have hlength := step_length hstep
        refine ⟨i + 1, m, r :: c', out,
          hm, by simp only [step, hstep, Option.map_some], by simp [hr, hlive'], ?_, ?_⟩
        · cases c' with
          | nil => simp at hlength
          | cons s' rest' => exact hready'
        · simp only [distance, hlength] at hdist ⊢
          omega

/-- **A chain that runs can deliver all it holds**, by moves of its relays
alone. -/
theorem exists_drain (hcap : 0 < cap) : ∀ (n : Nat) {c : Chain α}, distance c ≤ n →
    c.all Relay.live = true → Ready c →
    ∃ ms c', (∀ p ∈ ms, p.2 ≠ Move.stop) ∧ runMoves cap c ms = some (c', content c) ∧ content c' = [] := by
  intro n
  induction n with
  | zero =>
    intro c hn hlive hready
    by_cases hempty : content c = []
    · exact ⟨[], c, nofun, by rw [hempty]; rfl, hempty⟩
    · obtain ⟨i, m, c', out, -, -, -, -, hdist⟩ := exists_move hcap hlive hready hempty
      omega
  | succ n ih =>
    intro c hn hlive hready
    by_cases hempty : content c = []
    · exact ⟨[], c, nofun, by rw [hempty]; rfl, hempty⟩
    · obtain ⟨i, m, c', out, hm, hstep, hlive', hready', hdist⟩ := exists_move hcap hlive hready hempty
      obtain ⟨ms, c'', hms, hrun, hdone⟩ := ih (by omega) hlive' hready'
      have heq := ((step_deliverable hstep).1 hlive').2
      rw [deliverable_of_live hlive', deliverable_of_live hlive] at heq
      refine ⟨(i, m) :: ms, c'', List.forall_mem_cons.mpr ⟨hm, hms⟩, ?_, hdone⟩
      rw [runMoves, hstep, Option.bind_some, hrun, Option.map_some, heq]

/-! ## The flow through a chain -/

/-- What was accepted, what was read of it, and what is in the chain. -/
structure Flow (cap : Nat) (accepted read : List α) (c : Chain α) : Prop where
  delivered : read ++ deliverable c <+: accepted
  whole : c.all Relay.live = true → read ++ content c = accepted
  bounded : Bounded cap c
  ready : Ready c

namespace Flow

variable {accepted read : List α} {c c' : Chain α}

theorem start (n : Nat) : Flow cap ([] : List α) [] (List.replicate n Relay.fresh) := by
  have hcontent : ∀ n, content (List.replicate n (Relay.fresh (α := α))) = [] := by
    intro n
    induction n with
    | zero => rfl
    | succ n ih => rw [List.replicate_succ, content, ih]; rfl
  have hlive : (List.replicate n (Relay.fresh (α := α))).all Relay.live = true := by simp [Relay.fresh]
  refine ⟨?_, fun _ => hcontent n, ?_, ?_⟩
  · rw [deliverable_of_live hlive, hcontent]
    exact List.prefix_rfl
  · intro r hr
    rw [List.eq_of_mem_replicate hr]
    exact Nat.zero_le cap
  · induction n with
    | zero => trivial
    | succ n ih =>
      cases n with
      | zero => rfl
      | succ n => exact ih (by simp [Relay.fresh])

theorem offer {x : α} (h : Flow cap accepted read c) (ho : Chain.offer cap x c = some c') :
    Flow cap (accepted ++ [x]) read c' := by
  obtain ⟨hlive, hdeliver⟩ := offer_deliverable ho
  have hwhole : c'.all Relay.live = true → read ++ content c' = accepted ++ [x] := by
    intro hall
    have hc : c.all Relay.live = true := by rw [← hlive]; exact hall
    rw [← deliverable_of_live hall, hdeliver, hc, cond_true, ← List.append_assoc,
      deliverable_of_live hc, h.whole hc]
  refine ⟨?_, hwhole, offer_bounded ho h.bounded, offer_ready ho h.ready⟩
  cases hc : c.all Relay.live with
  | true =>
    have hall : c'.all Relay.live = true := by rw [hlive, hc]
    simp only [deliverable_of_live hall, hwhole hall, List.prefix_rfl]
  | false =>
    rw [hdeliver, hc, cond_false, List.append_nil]
    exact h.delivered.trans (List.prefix_append _ _)

theorem step {i : Nat} {m : Move} {out : Option α} (h : Flow cap accepted read c)
    (hs : Chain.step cap c i m = some (c', out)) : Flow cap accepted (read ++ out.toList) c' := by
  obtain ⟨hkept, hprefix⟩ := step_deliverable hs
  refine ⟨?_, ?_, step_bounded hs h.bounded, step_ready hs h.ready⟩
  · rw [List.append_assoc]
    exact ((List.prefix_append_right_inj read).mpr hprefix).trans h.delivered
  · intro hall
    obtain ⟨hlive, heq⟩ := hkept hall
    rw [← deliverable_of_live hall, List.append_assoc, heq, deliverable_of_live hlive, h.whole hlive]

theorem drains (h : Flow cap accepted read c) (hcap : 0 < cap) (hlive : c.all Relay.live = true) :
    ∃ ms c' rest, (∀ p ∈ ms, p.2 ≠ Move.stop) ∧ runMoves cap c ms = some (c', rest) ∧
      read ++ rest = accepted := by
  obtain ⟨ms, c', hms, hrun, -⟩ := exists_drain hcap (distance c) (Nat.le_refl _) hlive h.ready
  exact ⟨ms, c', content c, hms, hrun, h.whole hlive⟩

end Flow

end Chain

end AthenaVoice.Lib
