import Mathlib.Data.List.Basic

/-
  Incremental decoders — items read from a buffer that fills up

  A decoder looks at what has been read: it takes an item off the front, asks
  for more, or fails, and says what the buffer is then. It is driven as a framed
  transport drives it: each read is appended, and items are taken until it asks
  for more.

  What is proved:
    1. `drain_of_reads` — a buffer that is a prefix of some frames.
    2. `feed_of_reads` — frames are read back however they are cut.
-/

namespace AthenaVoice.Lib

universe u v w

/-- A decoder; an item that it takes is taken off the buffer. -/
structure Decoder (β : Type u) (τ : Type v) (ε : Type w) where
  decode : List β → Except ε (Option τ) × List β
  shrinks : ∀ buf x, (decode buf).1 = .ok (some x) → (decode buf).2.length < buf.length

namespace Decoder

variable {β : Type u} {τ : Type v} {ε : Type w} (D : Decoder β τ ε)

/-- Takes items until the decoder asks for more: the items, the error if there
is one, and the buffer left over. -/
def drain (buf : List β) : List τ × Option ε × List β :=
  match _h : (D.decode buf).1 with
  | .error e => ([], some e, (D.decode buf).2)
  | .ok none => ([], none, (D.decode buf).2)
  | .ok (some x) => (x :: (drain (D.decode buf).2).1, (drain (D.decode buf).2).2)
termination_by buf.length
decreasing_by exact D.shrinks buf x _h

/-- Reads a stream into a buffer. -/
def feed : List β → List (List β) → List τ × Option ε × List β
  | buf, [] => ([], none, buf)
  | buf, chunk :: chunks =>
    match D.drain (buf ++ chunk) with
    | (xs, some e, rest) => (xs, some e, rest)
    | (xs, none, rest) => (xs ++ (feed rest chunks).1, (feed rest chunks).2)

/-- The decoder takes the item off its frame, and asks for more before that. -/
structure Reads (frame : τ → List β) (x : τ) : Prop where
  whole : ∀ rest, D.decode (frame x ++ rest) = (.ok (some x), rest)
  part : ∀ start, start <+: frame x → start ≠ frame x → D.decode start = (.ok none, start)

variable {D} {frame : τ → List β}

theorem drain_none {buf rest : List β} (h : D.decode buf = (.ok none, rest)) : D.drain buf = ([], none, rest) := by
  rw [drain]
  split
  · rename_i e he
    rw [h] at he
    cases he
  · rw [h]
  · rename_i x hx
    rw [h] at hx
    cases hx

theorem drain_some {buf rest : List β} {x : τ} (h : D.decode buf = (.ok (some x), rest)) :
    D.drain buf = (x :: (D.drain rest).1, (D.drain rest).2) := by
  rw [drain]
  split
  · rename_i e he
    rw [h] at he
    cases he
  · rename_i hn
    rw [h] at hn
    cases hn
  · rename_i y hy
    rw [h] at hy ⊢
    cases hy
    rfl

/-- **A prefix of some frames**: the whole ones are taken, and the rest waits. -/
theorem drain_of_reads (hnil : D.decode [] = (.ok none, [])) : ∀ (xs : List τ) (buf later : List β),
    (∀ x ∈ xs, D.Reads frame x) → buf ++ later = xs.flatMap frame →
      ∃ ys zs rest, xs = ys ++ zs ∧ D.drain buf = (ys, none, rest) ∧ rest ++ later = zs.flatMap frame ∧
        D.decode rest = (.ok none, rest) := by
  intro xs
  induction xs with
  | nil =>
    intro buf later _ hbuf
    obtain ⟨rfl, rfl⟩ := List.append_eq_nil_iff.mp hbuf
    exact ⟨[], [], [], rfl, drain_none hnil, rfl, hnil⟩
  | cons x xs ih =>
    intro buf later hxs hbuf
    have hx := hxs x List.mem_cons_self
    have htail := fun y hy => hxs y (List.mem_cons_of_mem x hy)
    -- a buffer that begins with the whole first frame
    have htake : ∀ rest, buf = frame x ++ rest → rest ++ later = xs.flatMap frame →
        ∃ ys zs rest, x :: xs = ys ++ zs ∧ D.drain buf = (ys, none, rest) ∧ rest ++ later = zs.flatMap frame ∧
          D.decode rest = (.ok none, rest) := by
      intro rest hrest hlater
      obtain ⟨ys, zs, rest', rfl, hdrain, hrest', hdecode⟩ := ih rest later htail hlater
      exact ⟨x :: ys, zs, rest', rfl, by rw [hrest, drain_some (hx.whole rest), hdrain], hrest', hdecode⟩
    rw [List.flatMap_cons] at hbuf
    obtain ⟨more, hframe, hlater⟩ | ⟨rest, hrest, hlater⟩ := List.append_eq_append_iff.mp hbuf
    -- the buffer ends within the first frame, or after it
    · by_cases hwhole : buf = frame x
      · refine htake [] (by rw [List.append_nil, hwhole]) ?_
        rw [hwhole] at hbuf
        exact List.append_cancel_left hbuf
      · have hpart := hx.part buf ⟨more, hframe.symm⟩ hwhole
        exact ⟨[], x :: xs, buf, rfl, drain_none hpart, by rw [List.flatMap_cons, hbuf], hpart⟩
    · exact htake rest hrest hlater.symm

/-- **Frames are read back however they are cut.** -/
theorem feed_of_reads (hnil : D.decode [] = (.ok none, [])) : ∀ (chunks : List (List β)) (xs : List τ)
    (buf : List β),
    (∀ x ∈ xs, D.Reads frame x) → buf ++ chunks.flatten = xs.flatMap frame → D.decode buf = (.ok none, buf) →
      D.feed buf chunks = (xs, none, []) := by
  intro chunks
  induction chunks with
  | nil =>
    intro xs buf hxs hbuf hwaits
    rw [List.flatten_nil, List.append_nil] at hbuf
    cases xs with
    | nil => rw [hbuf]; rfl
    | cons x xs =>
      have htaken := (hxs x List.mem_cons_self).whole (xs.flatMap frame)
      rw [← List.flatMap_cons, ← hbuf, hwaits] at htaken
      cases htaken
  | cons chunk chunks ih =>
    intro xs buf hxs hbuf hwaits
    rw [List.flatten_cons, ← List.append_assoc] at hbuf
    obtain ⟨ys, zs, rest, rfl, hdrain, hrest, hdecode⟩ :=
      drain_of_reads hnil xs (buf ++ chunk) chunks.flatten hxs hbuf
    have hzs := ih zs rest (fun z hz => hxs z (List.mem_append_right ys hz)) hrest hdecode
    rw [feed, hdrain]
    simp only [hzs]

end Decoder

end AthenaVoice.Lib
