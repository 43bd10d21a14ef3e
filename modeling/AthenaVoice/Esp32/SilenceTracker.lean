import AthenaVoice.Esp32.Rms
import AthenaVoice.Lib.Machine
import AthenaVoice.Lib.Since

/-
  End of utterance — `satellite-esp32/src/mic.rs`, `SilenceTracker`

  The threshold of a frame comes from a noise floor that every frame before it
  has moved, pushed or only observed. The tracker itself keeps a few counters;
  what it is to do is said about the frames it has heard: the floor they leave
  (`floorAfter`), which of the pushed ones reach their threshold (`reached`),
  and how long ago the last of these was.

  The run counter is the only sum that can leave its 32 bits. Whether it then
  panics or wraps is the build's choice, and a parameter.

  What is proved:
    1. `Tracks.updateFloor_eq`, `Tracks.push_eq` — one frame, with no overflow in
       the floor.
    2. `tracks_run` — what any history leaves.
    3. `pushes_spec` — a whole utterance.
    4. `push_trace` — the frames on which `push` returns true.

  Correspondence (Rust ↔ Lean):
    `SilenceTracker` and its methods   the same
    a caller's calls                   `Op`, `SilenceTracker.machine`
-/

namespace AthenaVoice.Esp32

open Lib

def FLOOR_WARMUP_FRAMES : Nat := 10

/-- The largest `u32`. -/
def U32_MAX : Nat := 2 ^ 32 - 1

structure SilenceTracker where
  minThreshold : Nat
  silenceMs : Nat
  frameMs : Nat
  runMs : Nat
  floor : Option Nat
  seenFrames : Nat
  speechStarted : Bool
  deriving DecidableEq, Repr

inductive Op where
  | observe (frame : Frame)
  | push (frame : Frame)
  | reset
  deriving DecidableEq, Repr

namespace SilenceTracker

def new (minThreshold silenceMs frameMs : Nat) : SilenceTracker :=
  { minThreshold := minThreshold, silenceMs := silenceMs, frameMs := frameMs, runMs := 0, floor := none, seenFrames := 0
    speechStarted := false }

def reset (t : SilenceTracker) : SilenceTracker := { t with runMs := 0, speechStarted := false }

def threshold (t : SilenceTracker) : Nat := max ((t.floor.map (fun f => min (3 * f) U32_MAX)).getD 0) t.minThreshold

def updateFloor (t : SilenceTracker) (r : Nat) : Option SilenceTracker :=
  let seen := min (t.seenFrames + 1) U32_MAX
  if seen ≤ FLOOR_WARMUP_FRAMES then some { t with seenFrames := seen }
  else
    (match t.floor with
      | none => some (max r 1)
      | some f =>
        -- down by an eighth of the gap, up by a 4096th of the floor
        if r < f then (Checked.sub f r).bind (fun gap => Checked.sub f (gap ⌈/⌉ 8))
        else Checked.unsigned 32 (f + max (f / 4096) 1)).map
      (fun f => { t with seenFrames := seen, floor := some f })

def observe (t : SilenceTracker) (frame : Frame) : Option SilenceTracker := (rms frame.samples).bind t.updateFloor

/-- `self.run_ms += self.frame_ms`. -/
def addMs (checks : Bool) (a b : Nat) : Option Nat :=
  if checks then Checked.unsigned 32 (a + b) else some ((a + b) % 2 ^ 32)

def push (checks : Bool) (t : SilenceTracker) (frame : Frame) : Option (SilenceTracker × Bool) :=
  (rms frame.samples).bind (fun r =>
    (t.updateFloor r).bind (fun t' =>
      -- the threshold is that of the floor before this frame
      if t.threshold ≤ r then some ({ t' with speechStarted := true, runMs := 0 }, false)
      else if t'.speechStarted = false then some (t', false)
      else (addMs checks t'.runMs t'.frameMs).map
        (fun run => ({ t' with runMs := run }, decide (t'.silenceMs ≤ run)))))

/-- The tracker under its caller's calls; what `push` returns is observed. -/
def machine (checks : Bool) : Machine SilenceTracker Op Bool :=
  ⟨fun t op =>
    match op with
    | .observe frame => (t.observe frame).map (fun t' => (t', []))
    | .push frame => (t.push checks frame).map (fun r => (r.1, [r.2]))
    | .reset => some (t.reset, [])⟩

/-! ## What the tracker is to do -/

/-- What a level makes of a floor. -/
def nextFloor (f r : Nat) : Nat := if r < f then f - (f - r) ⌈/⌉ 8 else f + max (f / 4096) 1

/-- What a level makes of the floor, if there is one. -/
def learn : Option Nat → Nat → Option Nat
  | none, r => some (max r 1)
  | some f, r => some (nextFloor f r)

/-- The floor that the frames leave; the first ten are not listened to. -/
def floorAfter (heard : List Frame) : Option Nat :=
  ((heard.drop FLOOR_WARMUP_FRAMES).map (fun frame => level frame.samples)).foldl learn none

/-- The threshold of the next frame. -/
def thresholdAfter (minThreshold : Nat) (heard : List Frame) : Nat := max minThreshold (3 * (floorAfter heard).getD 0)

/-- Whether the next frame is speech. -/
def speech (minThreshold : Nat) (heard : List Frame) (frame : Frame) : Bool :=
  decide (thresholdAfter minThreshold heard ≤ level frame.samples)

/-- Whether the `k`-th of the pushed frames reaches its threshold. -/
def reached (minThreshold : Nat) (before frames : List Frame) (k : Nat) : Bool :=
  match frames[k]? with
  | some frame => speech minThreshold (before ++ frames.take k) frame
  | none => false

def heard : List Op → List Frame
  | [] => []
  | .observe frame :: ops => frame :: heard ops
  | .push frame :: ops => frame :: heard ops
  | .reset :: ops => heard ops

/-! ## The floor -/

theorem nextFloor_le {f r : Nat} (hf : f ≤ 32776) (hr : r ≤ 32768) : nextFloor f r ≤ 32776 := by
  unfold nextFloor
  split
  · exact (Nat.sub_le _ _).trans hf
  · omega

theorem floorAfter_concat (frames : List Frame) (frame : Frame) :
    floorAfter (frames ++ [frame]) = if frames.length < FLOOR_WARMUP_FRAMES then floorAfter frames
      else learn (floorAfter frames) (level frame.samples) := by
  unfold floorAfter
  split
  · rename_i hwarm
    rw [List.drop_eq_nil_of_le (by simp only [List.length_append, List.length_singleton]; omega),
      List.drop_eq_nil_of_le (by omega)]
  · rename_i hwarm
    rw [List.drop_append_of_le_length (by omega), List.map_append, List.foldl_append]
    rfl

theorem floorAfter_le {frames : List Frame} {f : Nat} (h : floorAfter frames = some f) : f ≤ 32776 := by
  induction frames using List.reverseRecOn generalizing f with
  | nil => cases h
  | append_singleton frames frame ih =>
    have hlevel := level_le frame.samples
    rw [floorAfter_concat] at h
    split at h
    · exact ih h
    · cases hfloor : floorAfter frames with
      | none =>
        rw [hfloor, learn, Option.some.injEq] at h
        omega
      | some g =>
        rw [hfloor, learn, Option.some.injEq] at h
        exact h ▸ nextFloor_le (ih hfloor) hlevel

/-! ## One frame -/

/-- The tracker has these settings, and has heard these frames. -/
structure Tracks (minThreshold silenceMs frameMs : Nat) (t : SilenceTracker) (frames : List Frame) : Prop where
  minThreshold_eq : t.minThreshold = minThreshold
  silenceMs_eq : t.silenceMs = silenceMs
  frameMs_eq : t.frameMs = frameMs
  seenFrames_eq : t.seenFrames = min frames.length U32_MAX
  floor_eq : t.floor = floorAfter frames

variable {checks : Bool} {minThreshold silenceMs frameMs : Nat} {t : SilenceTracker} {frames : List Frame}

theorem tracks_new : Tracks minThreshold silenceMs frameMs (new minThreshold silenceMs frameMs) [] :=
  ⟨rfl, rfl, rfl, rfl, rfl⟩

theorem Tracks.threshold_eq (h : Tracks minThreshold silenceMs frameMs t frames) :
    t.threshold = thresholdAfter minThreshold frames := by
  rw [threshold, thresholdAfter, h.floor_eq, h.minThreshold_eq, max_comm]
  cases hfloor : floorAfter frames with
  | none => rfl
  | some f =>
    -- three times a floor is far below the largest u32
    have hle := floorAfter_le hfloor
    have hmin : min (3 * f) U32_MAX = 3 * f := by
      unfold U32_MAX
      omega
    simp [hmin]

/-- The tracker with one more frame heard. -/
def hear (t : SilenceTracker) (frames : List Frame) : SilenceTracker :=
  { t with seenFrames := min frames.length U32_MAX, floor := floorAfter frames }

theorem Tracks.hear (h : Tracks minThreshold silenceMs frameMs t frames) (frames' : List Frame) :
    Tracks minThreshold silenceMs frameMs (t.hear frames') frames' :=
  ⟨h.minThreshold_eq, h.silenceMs_eq, h.frameMs_eq, rfl, rfl⟩

/-- **The floor never overflows**, and is what the frames leave. -/
theorem Tracks.updateFloor_eq (h : Tracks minThreshold silenceMs frameMs t frames) (frame : Frame) :
    t.updateFloor (level frame.samples) = some (t.hear (frames ++ [frame])) := by
  have hlevel := level_le frame.samples
  have hseen : min (t.seenFrames + 1) U32_MAX = min (frames ++ [frame]).length U32_MAX := by
    rw [h.seenFrames_eq, List.length_append, List.length_singleton]
    omega
  have hwarm : min (t.seenFrames + 1) U32_MAX ≤ FLOOR_WARMUP_FRAMES ↔ frames.length < FLOOR_WARMUP_FRAMES := by
    rw [h.seenFrames_eq, FLOOR_WARMUP_FRAMES, U32_MAX]
    omega
  -- by the cases of `update_floor`; in each the checked operation fits
  unfold updateFloor SilenceTracker.hear
  rw [floorAfter_concat]
  simp only [hwarm, ← hseen]
  split
  · rw [h.floor_eq]
  · cases hfloor : floorAfter frames with
    | none => simp [h.floor_eq, hfloor, learn]
    | some f =>
      have hle := floorAfter_le hfloor
      simp only [h.floor_eq, hfloor, learn, nextFloor]
      split
      · rename_i hbelow
        have hgap : (f - level frame.samples) ⌈/⌉ 8 ≤ f := by
          rw [Nat.ceilDiv_eq_add_pred_div]
          omega
        rw [Checked.sub_of_le (Nat.le_of_lt hbelow), Option.bind_some, Checked.sub_of_le hgap]
        rfl
      · rw [Checked.unsigned_of_lt (by omega)]
        rfl

theorem Tracks.observe_eq (h : Tracks minThreshold silenceMs frameMs t frames) (frame : Frame) :
    t.observe frame = some (t.hear (frames ++ [frame])) := by
  rw [observe, rms_eq, Option.bind_some, h.updateFloor_eq]

/-- **One pushed frame.** Speech is told by the frames before it. -/
theorem Tracks.push_eq (h : Tracks minThreshold silenceMs frameMs t frames) (frame : Frame) :
    t.push checks frame =
      if speech minThreshold frames frame then
        some ({ t.hear (frames ++ [frame]) with speechStarted := true, runMs := 0 }, false)
      else if t.speechStarted = false then some (t.hear (frames ++ [frame]), false)
      else (addMs checks t.runMs frameMs).map
        (fun run => ({ t.hear (frames ++ [frame]) with runMs := run }, decide (silenceMs ≤ run))) := by
  rw [push, rms_eq, Option.bind_some, h.updateFloor_eq, Option.bind_some, h.threshold_eq, speech, ← h.silenceMs_eq,
    ← h.frameMs_eq]
  simp only [decide_eq_true_eq]
  rfl

theorem addMs_eq {a b : Nat} (h : a + b < 2 ^ 32) : addMs checks a b = some (a + b) := by
  unfold addMs
  split
  · exact Checked.unsigned_of_lt h
  · rw [Nat.mod_eq_of_lt h]

theorem Tracks.push (h : Tracks minThreshold silenceMs frameMs t frames) {frame : Frame}
    {t' : SilenceTracker} {b : Bool}
    (hp : t.push checks frame = some (t', b)) : Tracks minThreshold silenceMs frameMs t' (frames ++ [frame]) := by
  have hheard := h.hear (frames ++ [frame])
  rw [h.push_eq] at hp
  split at hp
  · simp only [Option.some.injEq, Prod.mk.injEq] at hp
    exact hp.1 ▸ ⟨hheard.minThreshold_eq, hheard.silenceMs_eq, hheard.frameMs_eq, rfl, rfl⟩
  · split at hp
    · simp only [Option.some.injEq, Prod.mk.injEq] at hp
      exact hp.1 ▸ hheard
    · obtain ⟨run, _, he⟩ := Option.map_eq_some_iff.mp hp
      exact (Prod.mk.inj he).1 ▸ ⟨hheard.minThreshold_eq, hheard.silenceMs_eq, hheard.frameMs_eq, rfl, rfl⟩

/-! ## A history -/

theorem heard_append (ops ops' : List Op) : heard (ops ++ ops') = heard ops ++ heard ops' := by
  induction ops with
  | nil => rfl
  | cons op ops ih => cases op <;> simp [heard, ih]

/-- **One call.** -/
theorem Tracks.step (h : Tracks minThreshold silenceMs frameMs t frames) {op : Op} {t' : SilenceTracker}
    {out : List Bool}
    (hs : (machine checks).step t op = some (t', out)) :
    Tracks minThreshold silenceMs frameMs t' (frames ++ heard [op]) := by
  cases op with
  | observe frame =>
    simp only [machine, h.observe_eq, Option.map_some, Option.some.injEq, Prod.mk.injEq] at hs
    exact hs.1 ▸ h.hear _
  | push frame =>
    obtain ⟨⟨t₁, b⟩, hpush, he⟩ := Option.map_eq_some_iff.mp hs
    exact (Prod.mk.inj he).1 ▸ h.push hpush
  | reset =>
    simp only [machine, Option.some.injEq, Prod.mk.injEq] at hs
    rw [heard, heard, List.append_nil, ← hs.1]
    exact ⟨h.minThreshold_eq, h.silenceMs_eq, h.frameMs_eq, h.seenFrames_eq, h.floor_eq⟩

/-- **Any history.** -/
theorem tracks_run : ∀ (ops : List Op) (t t' : SilenceTracker) (frames : List Frame) (out : List Bool),
    Tracks minThreshold silenceMs frameMs t frames → (machine checks).run t ops = some (t', out) →
      Tracks minThreshold silenceMs frameMs t' (frames ++ heard ops) := by
  intro ops
  induction ops with
  | nil =>
    intro t t' frames out h hr
    simp only [Machine.run_nil, Option.some.injEq, Prod.mk.injEq] at hr
    rw [heard, List.append_nil, ← hr.1]
    exact h
  | cons op ops ih =>
    intro t t' frames out h hr
    obtain ⟨t₁, o₁, o₂, hstep, hrest, -⟩ := ((machine checks).run_cons_some).mp hr
    have hsplit : heard (op :: ops) = heard [op] ++ heard ops := heard_append [op] ops
    rw [hsplit, ← List.append_assoc]
    exact ih t₁ t' _ o₂ (h.step hstep) hrest

/-! ## An utterance -/

theorem reached_append {before more : List Frame} {k : Nat} (hk : k < frames.length) :
    reached minThreshold before (frames ++ more) k = reached minThreshold before frames k := by
  rw [reached, reached, List.getElem?_append_left hk, List.take_append_of_le_length (Nat.le_of_lt hk)]

theorem reached_last (before : List Frame) (frame : Frame) :
    reached minThreshold before (frames ++ [frame]) frames.length = speech minThreshold (before ++ frames) frame := by
  rw [reached, List.getElem?_concat_length, List.take_left]

/-- The gate is open since the last speech, and the counter has run since then. -/
structure Gate (frameMs : Nat) (t : SilenceTracker) (quiet : Option Nat) : Prop where
  started : t.speechStarted = quiet.isSome
  run : t.runMs = quiet.getD 0 * frameMs

/-- Whether so many quiet frames after speech end the utterance. -/
def ends (silenceMs frameMs : Nat) (quiet : Option Nat) : Bool :=
  quiet.any (fun d => decide (silenceMs ≤ d * frameMs))

/-- **One frame of an utterance.** -/
theorem Tracks.push_gate (h : Tracks minThreshold silenceMs frameMs t frames) {quiet : Option Nat}
    (hg : Gate frameMs t quiet) (checks : Bool) (hpos : 0 < silenceMs) (frame : Frame)
    (hms : (quiet.getD 0 + 1) * frameMs < 2 ^ 32) :
    ∃ t', t.push checks frame = some (t', ends silenceMs frameMs
        (if speech minThreshold frames frame then some 0 else quiet.map (fun d => d + 1))) ∧
      Gate frameMs t' (if speech minThreshold frames frame then some 0 else quiet.map (fun d => d + 1)) := by
  rw [h.push_eq]
  by_cases hspeech : speech minThreshold frames frame = true
  · simp only [hspeech, if_true, ends, Option.any_some, Nat.zero_mul]
    refine ⟨_, congrArg (fun b => some (_, b)) (decide_eq_false (by omega)).symm, rfl, ?_⟩
    simp
  · simp only [if_neg hspeech]
    -- below the threshold: nothing was said yet, or so many frames ago
    cases quiet with
    | none =>
      have hstarted : t.speechStarted = false := hg.started
      rw [if_pos hstarted]
      exact ⟨_, rfl, hg.started, hg.run⟩
    | some d =>
      have hstarted : t.speechStarted = true := hg.started
      have hrun : t.runMs + frameMs = (d + 1) * frameMs := by rw [hg.run, Option.getD_some, Nat.succ_mul]
      rw [if_neg (by simp [hstarted]), addMs_eq (hrun ▸ hms), hrun]
      exact ⟨_, rfl, hg.started, rfl⟩

theorem since_getD_le (p : Nat → Bool) (n : Nat) : (since p n).getD 0 ≤ n := by
  cases n with
  | zero => rfl
  | succ n =>
    cases hsince : since p (n + 1) with
    | none => exact Nat.zero_le _
    | some d => exact (since_eq_some_iff.mp hsince).1.trans n.le_succ

/-- What `push` is to return on each of the frames. -/
def verdicts (minThreshold silenceMs frameMs : Nat) (before frames : List Frame) : List Bool :=
  (List.range frames.length).map (fun n => ends silenceMs frameMs (since (reached minThreshold before frames) (n + 1)))

theorem since_reached_append {before more : List Frame} {n : Nat} (hn : n ≤ frames.length) :
    since (reached minThreshold before (frames ++ more)) n = since (reached minThreshold before frames) n :=
  since_congr (fun _ hk => reached_append (Nat.lt_of_lt_of_le hk hn))

theorem since_reached_last (before : List Frame) (frame : Frame) :
    since (reached minThreshold before (frames ++ [frame])) (frames.length + 1) =
      if speech minThreshold (before ++ frames) frame then some 0
      else (since (reached minThreshold before frames) frames.length).map (fun d => d + 1) := by
  rw [since, reached_last, since_reached_append (Nat.le_refl _)]

theorem verdicts_concat (before : List Frame) (frame : Frame) :
    verdicts minThreshold silenceMs frameMs before (frames ++ [frame]) =
      verdicts minThreshold silenceMs frameMs before frames ++
        [ends silenceMs frameMs (if speech minThreshold (before ++ frames) frame then some 0
          else (since (reached minThreshold before frames) frames.length).map (fun d => d + 1))] := by
  rw [verdicts, List.length_append, List.length_singleton, List.range_succ, List.map_append, List.map_singleton,
    since_reached_last, verdicts]
  congr 1
  apply List.map_congr_left
  intro n hn
  rw [since_reached_append (List.mem_range.mp hn)]

/-- **A whole utterance.** -/
theorem pushes_spec (checks : Bool) {before : List Frame} (h : Tracks minThreshold silenceMs frameMs t before)
    (hg : Gate frameMs t none) (hpos : 0 < silenceMs) : ∀ frames : List Frame, frames.length * frameMs < 2 ^ 32 →
      ∃ t', (machine checks).run t (frames.map Op.push) =
          some (t', verdicts minThreshold silenceMs frameMs before frames) ∧
        Tracks minThreshold silenceMs frameMs t' (before ++ frames) ∧
        Gate frameMs t' (since (reached minThreshold before frames) frames.length) := by
  intro frames
  -- one more frame at the end: its threshold is that of all the frames before it
  induction frames using List.reverseRecOn with
  | nil => intro _; exact ⟨t, rfl, by rwa [List.append_nil], hg⟩
  | append_singleton frames frame ih =>
    intro hms
    rw [List.length_append, List.length_singleton] at hms
    obtain ⟨t₁, hrun, htracks, hgate⟩ := ih ((Nat.mul_le_mul_right frameMs frames.length.le_succ).trans_lt hms)
    have hquiet := since_getD_le (reached minThreshold before frames) frames.length
    obtain ⟨t', hpush, hgate'⟩ := htracks.push_gate hgate checks hpos frame
      ((Nat.mul_le_mul_right frameMs (Nat.succ_le_succ hquiet)).trans_lt hms)
    refine ⟨t', ?_, ?_, ?_⟩
    · rw [List.map_append, Machine.run_append, hrun, Option.bind_some, verdicts_concat]
      simp [Machine.run, machine, hpush]
    · rw [← List.append_assoc]
      exact htracks.push hpush
    · rw [List.length_append, List.length_singleton, since_reached_last]
      exact hgate'

theorem ends_since_iff {p : Nat → Bool} {n : Nat} : ends silenceMs frameMs (since p (n + 1)) = true ↔
    ∃ i ≤ n, p i = true ∧ (∀ j, i < j → j ≤ n → p j = false) ∧ silenceMs ≤ (n - i) * frameMs := by
  rw [ends, Option.any_eq_true]
  refine ⟨?_, ?_⟩
  · rintro ⟨d, hd, hsilence⟩
    obtain ⟨hle, hat, hafter⟩ := since_eq_some_iff.mp hd
    refine ⟨n - d, Nat.sub_le n d, hat, hafter, ?_⟩
    rw [Nat.sub_sub_self hle]
    exact of_decide_eq_true hsilence
  · rintro ⟨i, hi, hat, hafter, hsilence⟩
    refine ⟨n - i, since_eq_some_iff.mpr ⟨Nat.sub_le n i, ?_, ?_⟩, decide_eq_true hsilence⟩
    · rwa [Nat.sub_sub_self hi]
    · rwa [Nat.sub_sub_self hi]

/-- **When an utterance ends.** After any history and a reset, the tracker takes
every sequence of frames of less than 2^32 ms, and `push` returns true on frame
`n` exactly when some frame has reached its threshold and the last one that did
is `silence_ms` back. -/
theorem push_trace (checks : Bool) (minThreshold silenceMs frameMs : Nat) (history : List Op) (frames : List Frame)
    {t : SilenceTracker} {out : List Bool}
    (hhistory : (machine checks).run (new minThreshold silenceMs frameMs) history = some (t, out))
    (hpos : 0 < silenceMs) (hms : frames.length * frameMs < 2 ^ 32) :
    ∃ t' results, (machine checks).run t (.reset :: frames.map Op.push) = some (t', results) ∧
      results.length = frames.length ∧
      ∀ n, results[n]? = some true ↔
        n < frames.length ∧ ∃ i ≤ n, reached minThreshold (heard history) frames i = true ∧
        (∀ j, i < j → j ≤ n → reached minThreshold (heard history) frames j = false) ∧
          silenceMs ≤ (n - i) * frameMs := by
  have htracks := tracks_run history _ t [] out tracks_new hhistory
  rw [List.nil_append] at htracks
  have hreset : Tracks minThreshold silenceMs frameMs t.reset (heard history) :=
    ⟨htracks.minThreshold_eq, htracks.silenceMs_eq, htracks.frameMs_eq, htracks.seenFrames_eq, htracks.floor_eq⟩
  obtain ⟨t', hrun, -, -⟩ := pushes_spec checks hreset ⟨rfl, (Nat.zero_mul _).symm⟩ hpos frames hms
  refine ⟨t', _, ((machine checks).run_cons_some).mpr ⟨t.reset, [], _, rfl, hrun, rfl⟩, by simp [verdicts], ?_⟩
  intro n
  rw [List.nil_append, verdicts, List.getElem?_map, Option.map_eq_some_iff, ← ends_since_iff]
  refine ⟨?_, ?_⟩
  · rintro ⟨k, hk, hends⟩
    obtain ⟨hlt, hat⟩ := List.getElem?_eq_some_iff.mp hk
    rw [List.getElem_range] at hat
    rw [List.length_range] at hlt
    subst hat
    exact ⟨hlt, hends⟩
  · rintro ⟨hlt, hends⟩
    exact ⟨n, List.getElem?_range hlt, hends⟩

def loud : Frame := ⟨[Int16.minValue], by decide⟩

def silent : Frame := ⟨[0], by decide⟩

/-- Speech, then 40 frames of silence: the satellite's own settings. -/
theorem push_trace_utterance : ∃ t' results,
    (machine false).run (new 500 800 20) (.reset :: (loud :: List.replicate 40 silent).map Op.push) =
      some (t', results) ∧
      results.length = (loud :: List.replicate 40 silent).length ∧
      ∀ n, results[n]? = some true ↔ n < (loud :: List.replicate 40 silent).length ∧
        ∃ i ≤ n, reached 500 (heard []) (loud :: List.replicate 40 silent) i = true ∧
          (∀ j, i < j → j ≤ n → reached 500 (heard []) (loud :: List.replicate 40 silent) j = false) ∧
            800 ≤ (n - i) * 20 :=
  push_trace false 500 800 20 [] (loud :: List.replicate 40 silent) rfl (by decide) (by simp)

end SilenceTracker

end AthenaVoice.Esp32
