import AthenaVoice.Lib.Checked
import AthenaVoice.Lib.Machine

/-
  The satellite's sample path — `satellite-esp32/src/mic.rs`, `convert_inmp441`
  and `DcBlocker`

  Slots of the microphone become samples, and a one-pole filter in Q8 takes
  their bias away. The filter is recursive, so nothing bounds one step from its
  own operands alone: what bounds every step is the distance of the output from
  the last input. The arithmetic is that of `i32`, checked; a shift that would
  lose bits counts as an overflow.

  What is proved:
    1. `Settled.step` — one sample keeps the distance, and overflows nothing.
    2. `frames_eq_samples` — how the stream is cut into frames does not matter.
    3. `process_never_overflows` — whatever the stream, `y_q8` stays within 25 bits.
    4. `capture_total` — whatever the driver reads.

  Correspondence (Rust ↔ Lean):
    `convert_inmp441`              `convertInmp441`
    `DcBlocker`, `new`, `process`  the same; the loop's body is `filter`
    a stream of frames             `DcBlocker.frames`
-/

namespace AthenaVoice.Esp32

open Lib

/-- `v.clamp(i16::MIN, i16::MAX) as i16`. -/
def clampSample (v : Int) : Int16 :=
  Int16.ofInt (if v < -2 ^ 15 then -2 ^ 15 else if 2 ^ 15 - 1 < v then 2 ^ 15 - 1 else v)

/-- `i32::from_le_bytes`. -/
def slotOf (a b c d : UInt8) : Int :=
  Int.bmod (a.toNat + 2 ^ 8 * b.toNat + 2 ^ 16 * c.toNat + 2 ^ 24 * d.toNat) (2 ^ 32)

/-- `convert_inmp441`: whole slots only. -/
def convertInmp441 : List UInt8 → List Int16
  | a :: b :: c :: d :: rest => clampSample (slotOf a b c d >>> (14 : Nat)) :: convertInmp441 rest
  | _ => []

theorem length_convertInmp441 (raw : List UInt8) : (convertInmp441 raw).length = raw.length / 4 := by
  induction raw using convertInmp441.induct with
  | case1 a b c d rest ih =>
    simp only [convertInmp441, List.length_cons, ih]
    omega
  | case2 raw hshort =>
    rw [convertInmp441.eq_2 raw hshort]
    match raw, hshort with
    | [], _ | [_], _ | [_, _], _ | [_, _, _], _ => simp
    | a :: b :: c :: d :: rest, hshort => exact absurd rfl (hshort a b c d rest)

structure DcBlocker where
  prevX : Int
  yQ8 : Int
  deriving DecidableEq, Repr

namespace DcBlocker

def new : DcBlocker := { prevX := 0, yQ8 := 0 }

/-- What `process` does with one sample. -/
def filter (d : DcBlocker) (s : Int16) : Option (DcBlocker × Int16) :=
  (Checked.signed 32 (s.toInt - d.prevX)).bind (fun diff =>
    (Checked.signed 32 (diff <<< (8 : Nat))).bind (fun scaled =>
      (Checked.signed 32 (scaled + d.yQ8)).bind (fun total =>
        (Checked.signed 32 (total - d.yQ8 >>> (8 : Nat))).map (fun y =>
          ({ prevX := s.toInt, yQ8 := y }, clampSample (y >>> (8 : Nat)))))))

/-- The filter, sample by sample; what it emits replaces what it read. -/
def samples : Machine DcBlocker Int16 Int16 := ⟨fun d s => (d.filter s).map (fun r => (r.1, [r.2]))⟩

def process (d : DcBlocker) (frame : List Int16) : Option (DcBlocker × List Int16) := samples.run d frame

def frames : Machine DcBlocker (List Int16) (List Int16) :=
  ⟨fun d frame => (d.process frame).map (fun r => (r.1, [r.2]))⟩

/-! ## The invariant -/

/-- The output is within 2^23 of 256 times the last input. -/
structure Settled (d : DcBlocker) : Prop where
  low : -2 ^ 15 ≤ d.prevX
  high : d.prevX < 2 ^ 15
  above : -2 ^ 23 ≤ d.yQ8 - 2 ^ 8 * d.prevX
  below : d.yQ8 - 2 ^ 8 * d.prevX ≤ 2 ^ 23

theorem settled_new : Settled new := ⟨by decide, by decide, by decide, by decide⟩

theorem Settled.natAbs_le {d : DcBlocker} (h : Settled d) : d.yQ8.natAbs ≤ 2 ^ 24 := by
  obtain ⟨hlow, hhigh, habove, hbelow⟩ := h
  omega

def next (d : DcBlocker) (s : Int16) : DcBlocker :=
  { prevX := s.toInt, yQ8 := 2 ^ 8 * (s.toInt - d.prevX) + d.yQ8 - d.yQ8 / 2 ^ 8 }

/-- **The distance is kept.** What the decay takes off the bound is at least what
an input can add to it. -/
theorem Settled.next {d : DcBlocker} (h : Settled d) (s : Int16) : Settled (d.next s) := by
  obtain ⟨hlow, hhigh, habove, hbelow⟩ := h
  refine ⟨s.le_toInt, s.toInt_lt, ?_, ?_⟩
  · simp only [DcBlocker.next]
    omega
  · simp only [DcBlocker.next]
    omega

/-- **Nothing overflows.** -/
theorem Settled.filter_eq {d : DcBlocker} (h : Settled d) (s : Int16) :
    d.filter s = some (d.next s, clampSample ((d.next s).yQ8 >>> (8 : Nat))) := by
  -- each of the four operations, in the order the expression is evaluated
  obtain ⟨hlow, hhigh, habove, hbelow⟩ := h
  have hslow := s.le_toInt
  have hshigh := s.toInt_lt
  have hshift : d.yQ8 >>> (8 : Nat) = d.yQ8 / 2 ^ 8 := by simp [Int.shiftRight_eq_div_pow]
  have hscale : (s.toInt - d.prevX) <<< (8 : Nat) = 2 ^ 8 * (s.toInt - d.prevX) := by
    rw [Int.shiftLeft_eq, Int.mul_comm]
  rw [filter, Checked.signed_of_bounds (by omega) (by omega), Option.bind_some, hscale, hshift,
    Checked.signed_of_bounds (by omega) (by omega), Option.bind_some,
    Checked.signed_of_bounds (by omega) (by omega), Option.bind_some,
    Checked.signed_of_bounds (by omega) (by omega), Option.map_some]
  rfl

/-! ## Streams -/

theorem Settled.process {d : DcBlocker} (h : Settled d) (frame : List Int16) :
    ∃ d' out, d.process frame = some (d', out) ∧ Settled d' := by
  refine samples.run_total (P := Settled) ?_ frame d h
  intro d s hd
  exact ⟨d.next s, [clampSample ((d.next s).yQ8 >>> (8 : Nat))], by simp [samples, hd.filter_eq s], hd.next s⟩

/-- A stream of frames is the stream of their samples. -/
theorem frames_eq_samples : ∀ (stream : List (List Int16)) (d : DcBlocker),
    (frames.run d stream).map (fun r => (r.1, r.2.flatten)) = samples.run d stream.flatten := by
  intro stream
  induction stream with
  | nil => intro d; rfl
  | cons frame stream ih =>
    intro d
    rw [List.flatten_cons, Machine.run_append, Machine.run]
    cases hframe : samples.run d frame with
    | none => simp [frames, process, hframe]
    | some r =>
      have hrest := ih r.1
      simp only [frames, process, hframe, Option.map_some, Option.map_map, Option.bind_some] at hrest ⊢
      rw [← hrest, Option.map_map]
      rfl

theorem Settled.samples_step {o : List Int16} {d d' : DcBlocker} {s : Int16} (hd : Settled d)
    (hs : samples.step d s = some (d', o)) : Settled d' := by
  simp only [samples, hd.filter_eq s, Option.map_some, Option.some.injEq, Prod.mk.injEq] at hs
  exact hs.1 ▸ hd.next s

theorem frames_total (stream : List (List Int16)) : ∃ d outs, frames.run new stream = some (d, outs) ∧
    Settled d := by
  refine frames.run_total (P := Settled) ?_ stream new settled_new
  intro d frame hd
  obtain ⟨d', out, hrun, hd'⟩ := hd.process frame
  exact ⟨d', [out], by simp [frames, hrun], hd'⟩

/-- **The filter never overflows.** Over every stream, however it is cut into
frames, every frame is taken, the output is that of the uncut stream, and after
every sample `y_q8` is below 2^25. -/
theorem process_never_overflows (stream : List (List Int16)) :
    ∃ d outs, frames.run new stream = some (d, outs) ∧ samples.run new stream.flatten = some (d, outs.flatten) ∧
      samples.Throughout (fun _ d => d.yQ8.natAbs < 2 ^ 25) [] new stream.flatten := by
  obtain ⟨d, outs, hrun, _⟩ := frames_total stream
  refine ⟨d, outs, hrun, ?_, ?_⟩
  · rw [← frames_eq_samples, hrun]
    rfl
  -- that every state is settled bounds every output on the way
  · refine Machine.throughout_of_along (P := fun _ d => Settled d) (C := fun _ _ _ => True) ?_ ?_ stream.flatten [] new
      settled_new (Machine.along_of_forall _ _ _ (fun _ _ _ _ => trivial))
    · intro h d s d' o hd _ hs
      exact hd.samples_step hs
    · intro h d hd
      exact Nat.lt_of_le_of_lt hd.natAbs_le (by decide)

/-! ## The path from the driver -/

theorem length_process {d d' : DcBlocker} {frame out : List Int16} (h : d.process frame = some (d', out)) :
    out.length = frame.length := by
  have hmap : out.map (fun _ => ()) = frame.map (fun _ => ()) := by
    refine samples.run_map_eq ?_ frame d d' out h
    intro d s d₁ o hstep
    obtain ⟨r, _, hr⟩ := Option.map_eq_some_iff.mp hstep
    obtain ⟨_, rfl⟩ := Prod.mk.inj hr
    rfl
  simpa using congrArg List.length hmap

theorem lengths_frames (stream : List (List Int16)) (d d' : DcBlocker) (outs : List (List Int16))
    (h : frames.run d stream = some (d', outs)) : outs.map List.length = stream.map List.length := by
  refine frames.run_map_eq ?_ stream d d' outs h
  intro d frame d₁ o hstep
  obtain ⟨r, hframe, hr⟩ := Option.map_eq_some_iff.mp hstep
  obtain ⟨_, rfl⟩ := Prod.mk.inj hr
  exact congrArg (fun n => [n]) (length_process hframe)

/-- **Whatever the driver reads**, the filter takes it, and every read becomes a
frame of its whole slots. -/
theorem capture_total (reads : List (List UInt8)) :
    ∃ d outs, frames.run new (reads.map convertInmp441) = some (d, outs) ∧
      outs.map List.length = reads.map (fun raw => raw.length / 4) := by
  obtain ⟨d, outs, hrun, _⟩ := frames_total (reads.map convertInmp441)
  refine ⟨d, outs, hrun, ?_⟩
  calc outs.map List.length = (reads.map convertInmp441).map List.length := lengths_frames _ _ _ _ hrun
    _ = reads.map (fun raw => (convertInmp441 raw).length) := List.map_map ..
    _ = reads.map (fun raw => raw.length / 4) := List.map_congr_left (fun raw _ => length_convertInmp441 raw)

end DcBlocker

end AthenaVoice.Esp32
