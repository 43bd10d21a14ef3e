import AthenaVoice.Lib.Runs
import Mathlib.Algebra.Order.Ring.Nat
import Mathlib.Data.List.Sort

/-
  Voice segments — `athena-voice-server/src/vad.rs` and `webrtcvad/src/lib.rs`

  A buffer is cut into frames of ten milliseconds, what is left over is dropped,
  and the detector decides on each frame. The decision is a parameter, which may
  depend on where the frame lies; the one the server uses is `isVoiceSegment`.

  A segment is to be a maximal run of voiced frames (`segmentsOf`). The loop
  never closes a segment, so it returns at most one.

  What is proved:
    1. `segmentsFrom_eq` — what the loop has gathered.
    2. `splitVoiceSegments_eq` — all the voiced frames, in one segment.
    3. `splitVoiceSegments_eq_iff` — the buffers on which that is the runs.
    4. `gap_lost` — two bursts with a pause between them.

  Correspondence (Rust ↔ Lean):
    `Vad::is_voice_segment`    `isVoiceSegment`
    `VadDetector::process`     `process`
    `split_voice_segments`     `splitVoiceSegments`, the loop `segmentsFrom`
-/

namespace AthenaVoice.Server

open Lib

abbrev Bytes := List UInt8

/-- The samples of a frame: `sample_rate / 1000 * frame_ms`, as `VadDetector::new` sets them. -/
def FRAME_SAMPLES : Nat := 48000 / 1000 * 10

/-- `frame_len` of `split_voice_segments`, in bytes. -/
def FRAME_LEN : Nat := FRAME_SAMPLES * 2

def isVoiceSegment (frame : List Int16) : Bool :=
  if frame.isEmpty then false
  else decide (300 < (frame.map (fun s => s.toInt.natAbs)).sum / frame.length)

/-- The samples of some bytes: `chunks_exact(2)` and `i16::from_le_bytes`. -/
def samplesOf : Bytes → List Int16
  | a :: b :: rest => Int16.ofInt (a.toNat + 2 ^ 8 * b.toNat) :: samplesOf rest
  | _ => []

/-- `process`, of the frame that begins at a position. -/
def process (vad : Nat → List Int16 → Bool) (cursor : Nat) (audio : List Int16) : Bool :=
  if audio.length < FRAME_SAMPLES then false else vad cursor (audio.take FRAME_SAMPLES)

def grow (segments : List Bytes) (frame : Bytes) : List Bytes :=
  match segments.getLast? with
  | some last => segments.dropLast ++ [last ++ frame]
  | none => segments ++ [frame]

/-- `&audio[cursor..cursor + frame_len]`. -/
def frameAt (audio : Bytes) (cursor : Nat) : Bytes := (audio.drop cursor).take FRAME_LEN

def segmentsFrom (vad : Nat → List Int16 → Bool) (audio : Bytes) (cursor : Nat)
    (segments : List Bytes) : List Bytes :=
  if cursor + FRAME_LEN ≤ audio.length then
    segmentsFrom vad audio (cursor + FRAME_LEN)
      (if process vad cursor (samplesOf (frameAt audio cursor)) then grow segments (frameAt audio cursor) else segments)
  else segments
termination_by audio.length - cursor
decreasing_by
  have hpos : 0 < FRAME_LEN := by decide
  omega

def splitVoiceSegments (vad : Nat → List Int16 → Bool) (audio : Bytes) : List Bytes := segmentsFrom vad audio 0 []

/-! ## What a segment is to be -/

/-- How many whole frames there are. -/
def frameCount (audio : Bytes) : Nat := audio.length / FRAME_LEN

/-- The `i`-th frame. -/
def frame (audio : Bytes) (i : Nat) : Bytes := frameAt audio (i * FRAME_LEN)

/-- Whether the `i`-th frame is voiced. -/
def voiced (vad : Nat → List Int16 → Bool) (audio : Bytes) (i : Nat) : Bool :=
  process vad (i * FRAME_LEN) (samplesOf (frame audio i))

/-- The maximal runs of voiced frames, each in one piece. -/
def segmentsOf (vad : Nat → List Int16 → Bool) (audio : Bytes) : List Bytes :=
  (runs (voiced vad audio) (List.range (frameCount audio))).map (fun run => run.flatMap (frame audio))

/-! ## What the loop returns -/

variable {vad : Nat → List Int16 → Bool} {audio : Bytes}

theorem frameLen_pos : 0 < FRAME_LEN := by decide

theorem foldl_grow_of_open (is : List Nat) (segment : Bytes) :
    is.foldl (fun segments i => grow segments (frame audio i)) [segment] = [segment ++ is.flatMap (frame audio)] := by
  induction is generalizing segment with
  | nil => simp
  | cons i is ih =>
    rw [List.foldl_cons, List.flatMap_cons, ← List.append_assoc, ← ih]
    rfl

theorem foldl_grow (is : List Nat) : is.foldl (fun segments i => grow segments (frame audio i)) [] =
    if is = [] then [] else [is.flatMap (frame audio)] := by
  cases is with
  | nil => rfl
  | cons i is =>
    rw [if_neg (by simp), List.flatMap_cons, ← foldl_grow_of_open]
    rfl

/-- **The loop**, from the `i`-th frame on. -/
theorem segmentsFrom_eq {n : Nat} : ∀ {i : Nat} (segments : List Bytes), i + n = frameCount audio →
    segmentsFrom vad audio (i * FRAME_LEN) segments =
      ((List.range' i n).filter (voiced vad audio)).foldl
        (fun segments i => grow segments (frame audio i)) segments := by
  -- by the frames still to come
  induction n with
  | zero =>
    intro i segments hi
    have hend : audio.length < i * FRAME_LEN + FRAME_LEN := by
      rw [← Nat.add_zero i, hi, frameCount]
      exact Nat.lt_div_mul_add frameLen_pos
    rw [segmentsFrom, if_neg (Nat.not_le.mpr hend)]
    rfl
  | succ n ih =>
    intro i segments hi
    have hroom : i * FRAME_LEN + FRAME_LEN ≤ audio.length := by
      rw [← Nat.succ_mul, ← Nat.le_div_iff_mul_le frameLen_pos, ← frameCount]
      omega
    rw [segmentsFrom, if_pos hroom, ← Nat.succ_mul, ih _ (by omega), List.range'_succ, List.filter_cons]
    cases hvoiced : voiced vad audio i with
    | true =>
      have hprocess : process vad (i * FRAME_LEN) (samplesOf (frameAt audio (i * FRAME_LEN))) = true := hvoiced
      rw [if_pos hprocess, if_pos rfl, List.foldl_cons]
      rfl
    | false =>
      have hprocess : process vad (i * FRAME_LEN) (samplesOf (frameAt audio (i * FRAME_LEN))) = false := hvoiced
      rw [if_neg (by simp [hprocess]), if_neg (by simp)]

def voicedFrames (vad : Nat → List Int16 → Bool) (audio : Bytes) : List Nat :=
  (List.range (frameCount audio)).filter (voiced vad audio)

/-- **All the voiced frames, in one segment.** -/
theorem splitVoiceSegments_eq (vad : Nat → List Int16 → Bool) (audio : Bytes) : splitVoiceSegments vad audio =
    if voicedFrames vad audio = [] then [] else [(voicedFrames vad audio).flatMap (frame audio)] := by
  have hloop : segmentsFrom vad audio (0 * FRAME_LEN) [] = _ := segmentsFrom_eq [] (Nat.zero_add _)
  rw [Nat.zero_mul, ← List.range_eq_range'] at hloop
  rw [splitVoiceSegments, hloop, foldl_grow]
  rfl

theorem splitVoiceSegments_eq_segmentsOf : splitVoiceSegments vad audio = segmentsOf vad audio ↔
    (runs (voiced vad audio) (List.range (frameCount audio))).length ≤ 1 := by
  have hflatten := flatten_runs (voiced vad audio) (List.range (frameCount audio))
  rw [splitVoiceSegments_eq, segmentsOf, voicedFrames, ← hflatten]
  -- no run, one run, or more runs than the one segment
  match hruns : runs (voiced vad audio) (List.range (frameCount audio)) with
  | [] => simp
  | [run] =>
    have hne : run ≠ [] := (mem_runs (hruns ▸ List.mem_singleton_self run)).1
    simp [hne]
  | run :: run' :: rest =>
    refine ⟨?_, fun h => by simp at h⟩
    intro h
    have hlength := congrArg List.length h
    split at hlength <;> simp at hlength

theorem triple_sublist_range_iff {i j k n : Nat} : [i, j, k].Sublist (List.range n) ↔ i < j ∧ j < k ∧ k < n := by
  refine ⟨?_, ?_⟩
  · intro h
    have hsorted := List.pairwise_lt_range.sublist h
    have hk : k < n := List.mem_range.mp (h.subset (by simp))
    simp only [List.pairwise_cons, List.mem_cons, List.not_mem_nil, or_false] at hsorted
    exact ⟨hsorted.1 j (Or.inl rfl), hsorted.2.1 k rfl, hk⟩
  · rintro ⟨hij, hjk, hkn⟩
    have hnodup : [i, j, k].Nodup := by simp; omega
    have hsub : [i, j, k] ⊆ List.range n := by
      intro x hx
      simp only [List.mem_cons, List.not_mem_nil, or_false] at hx
      rw [List.mem_range]
      omega
    exact List.sublist_of_subperm_of_pairwise (List.subperm_of_subset hnodup hsub)
      (by simp; omega) List.pairwise_lt_range

/-- **The segments are the runs exactly if no unvoiced frame lies between two
voiced ones.** -/
theorem splitVoiceSegments_eq_iff (vad : Nat → List Int16 → Bool) (audio : Bytes) :
    splitVoiceSegments vad audio = segmentsOf vad audio ↔
      ∀ i j k, i < j → j < k → k < frameCount audio → voiced vad audio i = true →
        voiced vad audio k = true →
        voiced vad audio j = true := by
  rw [splitVoiceSegments_eq_segmentsOf, runs_length_le_one_iff]
  refine ⟨?_, ?_⟩
  · intro h i j k hij hjk hk hi hk'
    exact h i j k (triple_sublist_range_iff.mpr ⟨hij, hjk, hk⟩) hi hk'
  · intro h i j k hsub hi hk
    obtain ⟨hij, hjk, hkn⟩ := triple_sublist_range_iff.mp hsub
    exact h i j k hij hjk hkn hi hk

def burst : Bytes := List.replicate FRAME_LEN 16

def pause : Bytes := List.replicate FRAME_LEN 0

/-- Two bursts with a pause between them are returned as one segment. -/
theorem gap_lost : splitVoiceSegments (fun _ => isVoiceSegment) (burst ++ pause ++ burst) = [burst ++ burst] ∧
    segmentsOf (fun _ => isVoiceSegment) (burst ++ pause ++ burst) = [burst, burst] ∧
      [burst ++ burst] ≠ [burst, burst] := by
  refine ⟨?_, ?_, ?_⟩
  · rw [splitVoiceSegments_eq]
    decide +kernel
  · decide +kernel
  · simp

end AthenaVoice.Server
