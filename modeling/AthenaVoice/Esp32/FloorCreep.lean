import AthenaVoice.Esp32.SilenceTracker
import Mathlib.Order.Iterate

/-
  The creep of the noise floor — `satellite-esp32/src/mic.rs`, `update_floor`

  Loud frames raise the floor by a 4096th, and by at least one. The first makes
  it double in about 2800 frames, which is 56 seconds; below 4096 the second
  takes over, and makes the floor rise by a whole 2800 in that time.

  What is proved:
    1. `foldl_nextFloor_le` — no levels raise a floor faster than loud ones.
    2. `climb_iterate_small`, `climb_iterate_large` — how fast these do.
    3. `floor_doubles_iff` — the floors that 2800 frames at most double.
    4. `floor_captured` — fourteen seconds more than double that of a quiet room.
-/

namespace AthenaVoice.Esp32

open Lib

namespace SilenceTracker

/-- The frames of 56 seconds, at 20 ms each. -/
def CREEP_FRAMES : Nat := 2800

/-! ## The fastest climb -/

/-- What a level above the floor makes of it. -/
def climb (f : Nat) : Nat := f + max (f / 4096) 1

theorem climb_mono : Monotone climb := by
  intro f g h
  unfold climb
  omega

theorem le_climb : id ≤ climb := by
  intro f
  exact Nat.le_add_right f _

theorem nextFloor_le_climb (f r : Nat) : nextFloor f r ≤ climb f := by
  unfold nextFloor climb
  split
  · exact (Nat.sub_le _ _).trans (Nat.le_add_right _ _)
  · exact Nat.le_refl _

/-- **No levels climb faster.** -/
theorem foldl_nextFloor_le (f : Nat) (levels : List Nat) : levels.foldl nextFloor f ≤ climb^[levels.length] f := by
  induction levels using List.reverseRecOn with
  | nil => exact Nat.le_refl f
  | append_singleton levels r ih =>
    rw [List.foldl_append, List.length_append, List.length_singleton, Function.iterate_succ_apply']
    exact (nextFloor_le_climb _ r).trans (climb_mono ih)

/-- Below 8192 a step is one. -/
theorem climb_iterate_small {f k : Nat} (h : f + k ≤ 8192) : climb^[k] f = f + k := by
  induction k with
  | zero => rfl
  | succ k ih =>
    rw [Function.iterate_succ_apply', ih (by omega), climb]
    omega

/-- From 4096 on a step is a 4096th. -/
theorem climb_iterate_large {f : Nat} (h : 4096 ≤ f) (k : Nat) : climb^[k] f * 4096 ^ k ≤ f * 4097 ^ k := by
  induction k with
  | zero => exact Nat.le_refl _
  | succ k ih =>
    have hlarge : 4096 ≤ climb^[k] f := h.trans (Function.id_le_iterate_of_id_le le_climb k f)
    -- a 4096th of what is at least 4096 is at least one, so it is the whole step
    have hstep : climb (climb^[k] f) * 4096 ≤ climb^[k] f * 4097 := by
      unfold climb at hlarge ⊢
      omega
    calc climb^[k + 1] f * 4096 ^ (k + 1) = climb (climb^[k] f) * 4096 * 4096 ^ k := by
          rw [Function.iterate_succ_apply', Nat.pow_succ, Nat.mul_comm (4096 ^ k), Nat.mul_assoc]
      _ ≤ climb^[k] f * 4097 * 4096 ^ k := Nat.mul_le_mul_right _ hstep
      _ = climb^[k] f * 4096 ^ k * 4097 := Nat.mul_right_comm ..
      _ ≤ f * 4097 ^ k * 4097 := Nat.mul_le_mul_right _ ih
      _ = f * 4097 ^ (k + 1) := by rw [Nat.pow_succ, Nat.mul_assoc]

theorem creep_pow_le : 4097 ^ CREEP_FRAMES ≤ 2 * 4096 ^ CREEP_FRAMES := by decide +kernel

theorem climb_iterate_le_double {f : Nat} (h : CREEP_FRAMES ≤ f) : climb^[CREEP_FRAMES] f ≤ 2 * f := by
  -- from 4096 on by the power, below it by one at a time
  by_cases hlarge : 4096 ≤ f
  · have hpos : 0 < 4096 ^ CREEP_FRAMES := Nat.pow_pos (by decide)
    refine Nat.le_of_mul_le_mul_right ?_ hpos
    calc climb^[CREEP_FRAMES] f * 4096 ^ CREEP_FRAMES ≤ f * 4097 ^ CREEP_FRAMES := climb_iterate_large hlarge _
      _ ≤ f * (2 * 4096 ^ CREEP_FRAMES) := Nat.mul_le_mul_left f creep_pow_le
      _ = 2 * f * 4096 ^ CREEP_FRAMES := by rw [← Nat.mul_assoc, Nat.mul_comm f]
  · rw [climb_iterate_small (by simp only [CREEP_FRAMES]; omega)]
    omega

/-! ## Trackers -/

theorem warm_of_floor {frames : List Frame} {f : Nat} (h : floorAfter frames = some f) :
    FLOOR_WARMUP_FRAMES ≤ frames.length := by
  by_contra hcold
  rw [floorAfter, List.drop_eq_nil_of_le (by omega)] at h
  cases h

theorem floorAfter_append {frames : List Frame} {f : Nat} (h : floorAfter frames = some f) (more : List Frame) :
    floorAfter (frames ++ more) = some ((more.map (fun frame => level frame.samples)).foldl nextFloor f) := by
  induction more using List.reverseRecOn with
  | nil => rw [List.append_nil, h]; rfl
  | append_singleton more frame ih =>
    have hwarm := warm_of_floor h
    rw [← List.append_assoc, floorAfter_concat, if_neg (by rw [List.length_append]; omega), ih, List.map_append,
      List.foldl_append]
    rfl

variable {checks : Bool} {minThreshold silenceMs frameMs : Nat} {t : SilenceTracker} {frames : List Frame}

theorem level_singleton (s : Int16) : level [s] = s.toInt.natAbs := by
  have hsquare : sumSquares [s] / [s].length = s.toInt.natAbs ^ 2 := by simp [sumSquares]
  rw [level, hsquare, Nat.sqrt_eq']

theorem level_loud : level loud.samples = 32768 := level_singleton _

theorem observes_run (checks : Bool) : ∀ (more : List Frame) (t : SilenceTracker) (frames : List Frame),
    Tracks minThreshold silenceMs frameMs t frames →
      ∃ t', (machine checks).run t (more.map Op.observe) = some (t', []) ∧
        t'.floor = floorAfter (frames ++ more) := by
  intro more
  induction more with
  | nil => intro t frames h; exact ⟨t, rfl, by rw [List.append_nil, h.floor_eq]⟩
  | cons frame more ih =>
    intro t frames h
    obtain ⟨t', hrun, hfloor⟩ := ih _ _ (h.hear (frames ++ [frame]))
    refine ⟨t', ?_, by rw [hfloor, List.append_assoc]; rfl⟩
    exact ((machine checks).run_cons_some).mpr ⟨_, [], [], by simp [machine, h.observe_eq], hrun, rfl⟩

theorem heard_observes (frames : List Frame) : heard (frames.map Op.observe) = frames := by
  induction frames with
  | nil => rfl
  | cons frame frames ih => rw [List.map_cons, heard, ih]

theorem foldl_loud {f k : Nat} (h : f + k ≤ 8192) : (List.replicate k 32768).foldl nextFloor f = f + k := by
  induction k generalizing f with
  | zero => rfl
  | succ k ih =>
    have hstep : nextFloor f 32768 = f + 1 := by
      unfold nextFloor
      rw [if_neg (by omega)]
      omega
    rw [List.replicate_succ, List.foldl_cons, hstep, ih (by omega)]
    omega

theorem loud_run (checks : Bool) (h : Tracks minThreshold silenceMs frameMs t frames) {f k : Nat}
    (hfloor : t.floor = some f)
    (hk : f + k ≤ 8192) :
    ∃ t', (machine checks).run t ((List.replicate k loud).map Op.observe) = some (t', []) ∧
      t'.floor = some (f + k) := by
  obtain ⟨t', hrun, hfloor'⟩ := observes_run checks (List.replicate k loud) t frames h
  refine ⟨t', hrun, ?_⟩
  rw [hfloor', floorAfter_append (h.floor_eq ▸ hfloor), List.map_replicate, level_loud, foldl_loud hk]

/-- **The floors that 56 seconds at most double.** -/
theorem floor_doubles_iff (checks : Bool) (minThreshold silenceMs frameMs : Nat) (history : List Op)
    {t : SilenceTracker}
    {out : List Bool} {f : Nat}
    (hhistory : (machine checks).run (new minThreshold silenceMs frameMs) history = some (t, out))
    (hfloor : t.floor = some f) :
    (∀ ops t' out', (heard ops).length ≤ CREEP_FRAMES → (machine checks).run t ops = some (t', out') →
      ∃ f', t'.floor = some f' ∧ f' ≤ 2 * f) ↔ CREEP_FRAMES ≤ f := by
  have htracks := tracks_run history _ t [] out tracks_new hhistory
  rw [List.nil_append] at htracks
  refine ⟨?_, ?_⟩
  -- a lower floor is taken past its double by loud frames alone
  · intro h
    by_contra hlow
    rw [CREEP_FRAMES] at hlow
    have hroom : f + CREEP_FRAMES ≤ 8192 := by
      rw [CREEP_FRAMES]
      omega
    obtain ⟨t', hrun, hfloor'⟩ := loud_run checks htracks hfloor hroom
    obtain ⟨f', hf', hle⟩ := h _ t' [] (by rw [heard_observes, List.length_replicate]) hrun
    rw [hfloor', Option.some.injEq, CREEP_FRAMES] at hf'
    omega
  · intro hhigh ops t' out' hlength hrun
    have htracks' := tracks_run ops t t' _ out' htracks hrun
    refine ⟨_, htracks'.floor_eq.trans (floorAfter_append (htracks.floor_eq ▸ hfloor) (heard ops)), ?_⟩
    have hclimb := foldl_nextFloor_le f ((heard ops).map (fun frame => level frame.samples))
    rw [List.length_map] at hclimb
    exact hclimb.trans ((Function.monotone_iterate_of_id_le le_climb hlength f).trans (climb_iterate_le_double hhigh))

def quiet : Frame := ⟨[700], by decide⟩

theorem level_quiet : level quiet.samples = 700 := level_singleton _

theorem quiet_run (checks : Bool) :
    ∃ t, (machine checks).run (new 500 800 20) ((List.replicate 11 quiet).map Op.observe) = some (t, []) ∧
      t.floor = some 700 := by
  have htracks : Tracks 500 800 20 (new 500 800 20) [] := tracks_new
  obtain ⟨t, hrun, hfloor⟩ := observes_run checks (List.replicate 11 quiet) _ [] htracks
  refine ⟨t, hrun, ?_⟩
  have hdrop : (List.replicate 11 quiet).drop FLOOR_WARMUP_FRAMES = [quiet] := rfl
  rw [hfloor, List.nil_append, floorAfter, hdrop, List.map_singleton, level_quiet]
  rfl

/-- Fourteen seconds of noise more than double the floor of a quiet room. -/
theorem floor_captured : ∃ t t' : SilenceTracker,
    (machine true).run (new 500 800 20) ((List.replicate 11 quiet).map Op.observe) = some (t, []) ∧
      t.floor = some 700 ∧
      (machine true).run t ((List.replicate 701 loud).map Op.observe) = some (t', []) ∧
      (heard ((List.replicate 701 loud).map Op.observe)).length ≤ 2800 ∧ t'.floor = some 1401 ∧
        2 * 700 < 1401 := by
  obtain ⟨t, hrun, hfloor⟩ := quiet_run true
  have hnew : Tracks 500 800 20 (new 500 800 20) [] := tracks_new
  have htracks := tracks_run _ _ t [] [] hnew hrun
  obtain ⟨t', hrun', hfloor'⟩ := loud_run true htracks hfloor (show 700 + 701 ≤ 8192 by decide)
  exact ⟨t, t', hrun, hfloor, hrun', by rw [heard_observes, List.length_replicate]; decide, hfloor', by decide⟩

/-- The floor of a quiet room is not one of those. -/
theorem floor_doubles_iff_quiet : ∃ t,
    (machine true).run (new 500 800 20) ((List.replicate 11 quiet).map Op.observe) = some (t, []) ∧
    ((∀ ops t' out', (heard ops).length ≤ CREEP_FRAMES → (machine true).run t ops = some (t', out') →
      ∃ f', t'.floor = some f' ∧ f' ≤ 2 * 700) ↔ CREEP_FRAMES ≤ 700) := by
  obtain ⟨t, hrun, hfloor⟩ := quiet_run true
  exact ⟨t, hrun, floor_doubles_iff true 500 800 20 _ hrun hfloor⟩

end SilenceTracker

end AthenaVoice.Esp32
