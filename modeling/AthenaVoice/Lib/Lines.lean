import AthenaVoice.Lib.Framing

/-
  Line decoders — a stream of chunks read line by line

  A decoder appends each chunk to a buffer and drains the lines a separator
  closes; each line gives items, and may end the stream. An error of the
  transport is handed on and ends it too. What comes after the end is not read.

  What is proved:
    1. `drain_eq` — draining a buffer reads the lines closed in it.
    2. `decode_eq` — a decoder reads the lines closed in the whole body, however
       it is cut.
-/

namespace AthenaVoice.Lib.Lines

universe u v w

variable {β : Type u} {τ : Type v} {ε : Type w} (p : β → Bool) (read : List β → List τ × Bool)

/-- Drains the closed lines of a buffer: the items they give, and the buffer
left over, `none` once a line has ended the stream. -/
def drain : Nat → List β → List τ × Option (List β)
  | 0, buf => ([], some buf)
  | fuel + 1, buf =>
    match buf.findIdx? p with
    | none => ([], some buf)
    | some nl =>
      let line := buf.take (nl + 1)
      match read (line.take (line.length - 1)) with
      | (out, true) => (out, none)
      | (out, false) =>
        let r := drain fuel (buf.drop (nl + 1))
        (out ++ r.1, r.2)

/-- Reads a stream from a buffer. -/
def decodeFrom : List β → List (Except ε (List β)) → List (Except ε τ)
  | _, [] => []
  | _, .error e :: _ => [.error e]
  | buf, .ok chunk :: stream =>
    match drain p read (buf ++ chunk).length (buf ++ chunk) with
    | (out, none) => out.map .ok
    | (out, some buf') => out.map .ok ++ decodeFrom buf' stream

def decode (stream : List (Except ε (List β))) : List (Except ε τ) := decodeFrom p read [] stream

/-- The items of some lines, up to one that ends the stream. -/
def emit : List (List β) → List τ × Bool
  | [] => ([], false)
  | line :: lines =>
    match read line with
    | (out, true) => (out, true)
    | (out, false) => (out ++ (emit lines).1, (emit lines).2)

variable {p read}

/-! ## Lines in order -/

theorem emit_append (ls ms : List (List β)) : emit read (ls ++ ms) =
    if (emit read ls).2 then emit read ls else ((emit read ls).1 ++ (emit read ms).1, (emit read ms).2) := by
  induction ls with
  | nil => rfl
  | cons line ls ih =>
    rw [List.cons_append, emit, emit]
    obtain ⟨out, stop⟩ := read line
    cases stop with
    | true => rfl
    | false =>
      show (out ++ (emit read (ls ++ ms)).1, (emit read (ls ++ ms)).2) = _
      rw [ih]
      by_cases hstop : (emit read ls).2 = true
      · simp only [hstop, if_true]
      · simp only [hstop, Bool.false_eq_true, if_false, List.append_assoc]

theorem emit_stops {ls : List (List β)} : (emit read ls).2 = true ↔ ∃ line ∈ ls, (read line).2 = true := by
  induction ls with
  | nil => simp [emit]
  | cons line ls ih =>
    cases hread : read line with
    | mk out stop =>
      cases stop with
      | true => simp [emit, hread]
      | false => simp [emit, hread, ih]

theorem emit_of_open : ∀ {ls : List (List β)}, (∀ line ∈ ls, (read line).2 = false) →
    emit read ls = (ls.flatMap (fun line => (read line).1), false) := by
  intro ls
  induction ls with
  | nil =>
    intro _
    rfl
  | cons line ls ih =>
    intro hopen
    have hline : read line = ((read line).1, false) := Prod.ext rfl (hopen line List.mem_cons_self)
    rw [emit, hline]
    simp only [ih (fun l hl => hopen l (List.mem_cons_of_mem line hl)), List.flatMap_cons]

/-! ## One buffer -/

theorem split_at_first {buf : List β} {nl : Nat} (h : buf.findIdx? p = some nl) :
    Framing.closed p buf = buf.take nl :: Framing.closed p (buf.drop (nl + 1)) ∧
      Framing.remaining p buf = Framing.remaining p (buf.drop (nl + 1)) ∧
        (buf.take (nl + 1)).take ((buf.take (nl + 1)).length - 1) = buf.take nl ∧ nl < buf.length := by
  obtain ⟨hlt, hsep, hfirst⟩ := List.findIdx?_eq_some_iff_getElem.mp h
  have hsplit : buf = buf.take nl ++ buf[nl] :: buf.drop (nl + 1) := by
    rw [List.getElem_cons_drop, List.take_append_drop]
  have hline : ∀ y ∈ buf.take nl, p y = false := by
    intro y hy
    obtain ⟨j, hj, rfl⟩ := List.mem_iff_getElem.mp hy
    rw [List.length_take] at hj
    rw [List.getElem_take]
    simpa using hfirst j (by omega)
  obtain ⟨hclosed, hremaining⟩ := Framing.first_spec hline hsep (buf.drop (nl + 1))
  rw [← hsplit] at hclosed hremaining
  refine ⟨hclosed, hremaining, ?_, hlt⟩
  rw [List.take_take, List.length_take]
  congr 1
  omega

/-- **Draining.** It reads the lines closed in the buffer. -/
theorem drain_eq : ∀ (fuel : Nat) (buf : List β), buf.length ≤ fuel →
    drain p read fuel buf = ((emit read (Framing.closed p buf)).1,
      if (emit read (Framing.closed p buf)).2 then none else some (Framing.remaining p buf)) := by
  intro fuel
  induction fuel with
  | zero =>
    intro buf hlen
    rw [List.length_eq_zero_iff.mp (Nat.le_zero.mp hlen)]
    rfl
  | succ fuel ih =>
    intro buf hlen
    rw [drain]
    cases hnl : buf.findIdx? p with
    | none =>
      obtain ⟨hclosed, hremaining⟩ := Framing.closed_of_none (List.findIdx?_eq_none_iff.mp hnl)
      rw [hclosed, hremaining]
      rfl
    | some nl =>
      obtain ⟨hclosed, hremaining, hline, hlt⟩ := split_at_first hnl
      have hrest := ih (buf.drop (nl + 1)) (by rw [List.length_drop]; omega)
      simp only [hline, hclosed, hremaining, emit, hrest]
      split
      · rfl
      · rfl

/-! ## A stream -/

theorem decodeFrom_eq : ∀ (chunks : List (List β)) (buf : List β) (rest : List (Except ε (List β))),
    Framing.closed p buf = [] → Framing.remaining p buf = buf →
      decodeFrom p read buf (chunks.map .ok ++ rest) =
        ((emit read (Framing.closed p (buf ++ chunks.flatten))).1.map .ok ++
          if (emit read (Framing.closed p (buf ++ chunks.flatten))).2 then []
          else decodeFrom p read (Framing.remaining p (buf ++ chunks.flatten)) rest) := by
  intro chunks
  induction chunks with
  | nil =>
    intro buf rest hclosed hremaining
    rw [List.flatten_nil, List.append_nil, hclosed, hremaining]
    rfl
  | cons chunk chunks ih =>
    intro buf rest _ _
    obtain ⟨hclosed, hremaining⟩ := Framing.append_spec p (buf ++ chunk) chunks.flatten
    obtain ⟨hnone, hsame⟩ := Framing.remaining_spec p (buf ++ chunk)
    have hrest := ih (Framing.remaining p (buf ++ chunk)) rest hnone hsame
    rw [List.flatten_cons, ← List.append_assoc, hclosed, hremaining, emit_append, List.map_cons, List.cons_append,
      decodeFrom, drain_eq _ _ (Nat.le_refl _)]
    by_cases hstop : (emit read (Framing.closed p (buf ++ chunk))).2 = true
    · -- a line of this chunk ends the stream
      simp only [hstop, if_true, List.append_nil]
    · simp only [hstop, Bool.false_eq_true, if_false, hrest, List.map_append, List.append_assoc]

/-- **Decoding.** The lines closed in the body are read up to the one that ends
the stream, and what follows the body after them. -/
theorem decode_eq (chunks : List (List β)) (rest : List (Except ε (List β))) :
    decode p read (chunks.map .ok ++ rest) =
      ((emit read (Framing.closed p chunks.flatten)).1.map .ok ++
        if (emit read (Framing.closed p chunks.flatten)).2 then []
        else decodeFrom p read (Framing.remaining p chunks.flatten) rest) :=
  decodeFrom_eq chunks [] rest rfl rfl

end AthenaVoice.Lib.Lines
