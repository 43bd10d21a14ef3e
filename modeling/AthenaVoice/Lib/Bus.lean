import Mathlib.Algebra.Ring.Nat
import Mathlib.Data.List.Basic

/-
  A broadcast channel, as one of its receivers sees it

  The channel keeps the newest values, up to its capacity, for a receiver that
  has not read them. A value sent to a full channel pushes the oldest out, which
  the receiver is told of by its next receive: how many it missed, and only then
  does it read on, with the oldest that is left.

  What is proved:
    1. `accounted_send`, `accounted_receive` — what was received explains what was
       sent, but for what the channel still keeps: the values themselves, and the
       number missed where some are missing.
    2. `Explains.items_sublist`, `Explains.items_eq` — the values are received in
       the order they were sent, each once, and all of them if none was missed.
    3. `Explains.length_eq` — none is lost unaccounted for.
-/

namespace AthenaVoice.Lib

universe u

/-- The channel: what it keeps for the receiver, and how many it has pushed out
since the receiver was last told. -/
structure Bus (α : Type u) where
  capacity : Nat
  backlog : List α
  missed : Nat
  deriving DecidableEq, Repr

inductive Receipt (α : Type u) where
  | item (x : α)
  | lagged (n : Nat)
  deriving DecidableEq, Repr

namespace Receipt

variable {α : Type u}

def item? : Receipt α → Option α
  | item x => some x
  | lagged _ => none

def gap : Receipt α → Nat
  | item _ => 0
  | lagged n => n

end Receipt

namespace Bus

variable {α : Type u}

/-- A receiver that has just subscribed. -/
def new (capacity : Nat) : Bus α := { capacity := capacity, backlog := [], missed := 0 }

def send (b : Bus α) (x : α) : Bus α :=
  if b.backlog.length < b.capacity then { b with backlog := b.backlog ++ [x] }
  else { b with backlog := (b.backlog ++ [x]).drop 1, missed := b.missed + 1 }

/-- `none` where the receiver has to wait. -/
def receive (b : Bus α) : Option (Bus α × Receipt α) :=
  if 0 < b.missed then some ({ b with missed := 0 }, .lagged b.missed)
  else
    match b.backlog with
    | [] => none
    | x :: rest => some ({ b with backlog := rest }, .item x)

end Bus

section Accounts

variable {α : Type u}

/-- What was received explains what was sent: each value where it stands, and
the number of those that are missing between. -/
inductive Explains : List (Receipt α) → List α → Prop where
  | nil : Explains [] []
  | item {got : List (Receipt α)} {sent : List α} (x : α) :
      Explains got sent → Explains (got ++ [.item x]) (sent ++ [x])
  | lagged {got : List (Receipt α)} {sent : List α} (lost : List α) :
      Explains got sent → Explains (got ++ [.lagged lost.length]) (sent ++ lost)

/-- The values received, and how many were missed. -/
def items (got : List (Receipt α)) : List α := got.filterMap Receipt.item?
def gaps (got : List (Receipt α)) : Nat := (got.map Receipt.gap).sum

theorem items_append (got more : List (Receipt α)) : items (got ++ more) = items got ++ items more :=
  List.filterMap_append

theorem gaps_append (got more : List (Receipt α)) : gaps (got ++ more) = gaps got + gaps more := by
  rw [gaps, List.map_append, List.sum_append]
  rfl

@[simp] theorem items_item (x : α) : items [.item x] = [x] := rfl
@[simp] theorem items_lagged (n : Nat) : items [.lagged (α := α) n] = [] := rfl
@[simp] theorem gaps_item (x : α) : gaps [.item x] = 0 := rfl
@[simp] theorem gaps_lagged (n : Nat) : gaps [.lagged (α := α) n] = n := rfl

variable {got : List (Receipt α)} {sent : List α}

/-- In the order sent, each once. -/
theorem Explains.items_sublist (h : Explains got sent) : (items got).Sublist sent := by
  induction h with
  | nil => exact List.Sublist.refl _
  | item x _ ih =>
    rw [items_append]
    exact ih.append (List.Sublist.refl _)
  | lagged lost _ ih =>
    rw [items_append]
    exact ih.append (List.nil_sublist _)

/-- Every value was received or counted as missed. -/
theorem Explains.length_eq (h : Explains got sent) : (items got).length + gaps got = sent.length := by
  induction h with
  | nil => rfl
  | item x _ ih =>
    rw [items_append, gaps_append, List.length_append, List.length_append, ← ih]
    simp only [items_item, gaps_item, List.length_singleton]
    omega
  | lagged lost _ ih =>
    rw [items_append, gaps_append, List.length_append, List.length_append, ← ih]
    simp only [items_lagged, gaps_lagged, List.length_nil]
    omega

/-- Nothing missed: everything received. -/
theorem Explains.items_eq (h : Explains got sent) (hnone : gaps got = 0) : items got = sent := by
  apply h.items_sublist.eq_of_length
  have hlength := h.length_eq
  omega

/-- What was received, what is missed and what the channel keeps are what was sent. -/
def Accounted (got : List (Receipt α)) (sent : List α) (b : Bus α) : Prop :=
  ∃ read lost, sent = read ++ lost ++ b.backlog ∧ Explains got read ∧ lost.length = b.missed

theorem accounted_new (capacity : Nat) : Accounted [] [] (Bus.new (α := α) capacity) :=
  ⟨[], [], rfl, .nil, rfl⟩

theorem accounted_send {b : Bus α} (h : Accounted got sent b) (x : α) : Accounted got (sent ++ [x]) (b.send x) := by
  obtain ⟨read, lost, hsent, hread, hlost⟩ := h
  unfold Bus.send
  split
  · refine ⟨read, lost, ?_, hread, hlost⟩
    rw [hsent, List.append_assoc]
  · -- the oldest of those kept, the new one among them, is missed
    obtain ⟨y, rest, hy⟩ :=
      List.exists_cons_of_ne_nil (List.append_ne_nil_of_right_ne_nil b.backlog (List.cons_ne_nil x []))
    refine ⟨read, lost ++ [y], ?_, hread, ?_⟩
    · calc sent ++ [x] = read ++ lost ++ (b.backlog ++ [x]) := by rw [hsent, List.append_assoc]
        _ = read ++ lost ++ ([y] ++ rest) := by rw [hy]; rfl
        _ = read ++ (lost ++ [y]) ++ rest := by simp only [List.append_assoc]
        _ = read ++ (lost ++ [y]) ++ (b.backlog ++ [x]).drop 1 := by rw [hy]; rfl
    · rw [List.length_append, hlost]
      rfl

theorem accounted_receive {b b' : Bus α} {r : Receipt α} (h : Accounted got sent b) (hr : b.receive = some (b', r)) :
    Accounted (got ++ [r]) sent b' := by
  obtain ⟨read, lost, hsent, hread, hlost⟩ := h
  unfold Bus.receive at hr
  split at hr
  · cases hr
    refine ⟨read ++ lost, [], ?_, hlost ▸ hread.lagged lost, rfl⟩
    rw [hsent, List.append_nil]
  · rename_i hmissed
    have hnone : lost = [] := List.eq_nil_of_length_eq_zero (by omega)
    split at hr
    · cases hr
    · rename_i x rest hbacklog
      cases hr
      refine ⟨read ++ [x], [], ?_, hread.item x, (Nat.eq_zero_of_not_pos hmissed).symm⟩
      rw [hsent, hnone, hbacklog, List.append_nil, List.append_nil, List.append_assoc]
      rfl

theorem accounted_complete {b : Bus α} (h : Accounted got sent b) (hgaps : gaps got = 0) (hmissed : b.missed = 0) :
    sent = items got ++ b.backlog := by
  obtain ⟨read, lost, hsent, hread, hlost⟩ := h
  have hnone : lost = [] := List.eq_nil_of_length_eq_zero (hlost.trans hmissed)
  rw [hsent, hnone, hread.items_eq hgaps, List.append_nil]

theorem accounted_sublist {b : Bus α} (h : Accounted got sent b) : (items got ++ b.backlog).Sublist sent := by
  obtain ⟨read, lost, hsent, hread, -⟩ := h
  rw [hsent]
  exact (hread.items_sublist.trans (List.sublist_append_left read lost)).append (List.Sublist.refl _)

end Accounts

end AthenaVoice.Lib
