import AthenaVoice.Wasm.HostFns

/-
  Retention — what collections leave of a skill's keys

  Under a retention of `ttl` seconds a key is promised for `ttl` seconds after
  its last write; with no retention, or with 0, which disables the collection,
  for ever. `host_state_set` collects under every setting, 0 included, and then
  its threshold is the second of its own write. `dispatch` does not collect
  under 0, and its threshold wraps below second `ttl`.

  What is proved:
    1. `asI64_setThreshold_lt`, `asI64_dispatchThreshold_le` — how far the two
       thresholds reach.
    2. `kept_step` — no step of the host, by whatever skill, takes a promised key.
    3. `retained_iff` — a skill's keys are kept as promised in every run exactly
       when its retention is missing, or is above 0 and does not wrap.
-/

namespace AthenaVoice.Wasm

open Lib Storage

/-- A key written at second `t` is promised at second `now`. -/
def Promised (retention : Option UInt64) (t now : UInt64) : Prop :=
  ∀ ttl, retention = some ttl → ttl = 0 ∨ now.toNat < t.toNat + ttl.toNat

/-- What the skill last wrote under the key, and when. -/
def lastWrite (skill key : Text) : List HostObs → Option (Bytes × UInt64)
  | [] => none
  | .stateWritten skill' key' now val :: os =>
    (lastWrite skill key os).or (if skill' = skill ∧ key' = key then some (val, now) else none)
  | _ :: os => lastWrite skill key os

/-- Every read of the skill's, of a key that is promised, returns the last value written. -/
def Retained (retention : Option UInt64) (skill : Text) (os : List HostObs) : Prop :=
  ∀ before key now val after, os = before ++ .stateRead skill key now val :: after →
    ∀ v t, lastWrite skill key before = some (v, t) → Promised retention t now → val = v

def Forward (_ : List HostObs) (h : Host) : HostAction → Prop
  | .clock now => h.clock ≤ now
  | _ => True

/-- A setting under which no collection takes a promised key, from the second
`start` on. From second 2^63 on the threshold's cast is negative. -/
def Lasting (retention : Option UInt64) (start : UInt64) : Prop :=
  ∀ ttl, retention = some ttl →
    (0 < ttl.toNat ∨ 2 ^ 63 ≤ start.toNat) ∧ 0 < start.toNat ∧ ttl.toNat ≤ start.toNat + 2 ^ 63

/-! ## The thresholds -/

theorem toNat_saturatingSub (a b : UInt64) : (saturatingSub a b).toNat = a.toNat - b.toNat := by
  unfold saturatingSub
  split
  · rename_i h
    exact UInt64.toNat_sub_of_le a b h
  · rename_i h
    have hlt : a.toNat < b.toNat := by
      rw [UInt64.le_iff_toNat_le] at h
      omega
    rw [UInt64.toNat_zero]
    omega

/-- The threshold of `host_state_set` lies before every promised write. -/
theorem asI64_setThreshold_lt {ttl t now start : UInt64} (hlasting : Lasting (some ttl) start)
    (hstart : start ≤ t) (ht : t ≤ now) (hpromised : Promised (some ttl) t now) :
    asI64 (saturatingSub now ttl) < t.toNat := by
  obtain ⟨hzero, hpos, -⟩ := hlasting ttl rfl
  have hst : start.toNat ≤ t.toNat := UInt64.le_iff_toNat_le.mp hstart
  have htn : t.toNat ≤ now.toNat := UInt64.le_iff_toNat_le.mp ht
  have hle := asI64_le (saturatingSub now ttl)
  rw [toNat_saturatingSub] at hle
  rcases hpromised ttl rfl with h0 | hlt
  · -- retention 0, past the range of the cast
    have hneg := asI64_eq (saturatingSub now ttl)
    rw [toNat_saturatingSub, h0, UInt64.toNat_zero, if_neg (by rw [h0, UInt64.toNat_zero] at hzero; omega)] at hneg
    have hbound := UInt64.toNat_lt now
    rw [h0]
    omega
  · omega

/-- The threshold of `dispatch` lies `ttl` seconds back, when it does not wrap
past the range of the cast. -/
theorem asI64_dispatchThreshold_le {ttl now start : UInt64} (hlasting : Lasting (some ttl) start)
    (hstart : start ≤ now) : asI64 (now - ttl) + ttl.toNat ≤ now.toNat := by
  obtain ⟨-, -, hwrap⟩ := hlasting ttl rfl
  have hst : start.toNat ≤ now.toNat := UInt64.le_iff_toNat_le.mp hstart
  by_cases hle : ttl ≤ now
  · have hsub := UInt64.toNat_sub_of_le now ttl hle
    have hcast := asI64_le (now - ttl)
    have hn : ttl.toNat ≤ now.toNat := UInt64.le_iff_toNat_le.mp hle
    omega
  · have hlt : now.toNat < ttl.toNat := by
      rw [UInt64.le_iff_toNat_le] at hle
      omega
    have hsub := UInt64.toNat_sub now ttl
    have hbound := UInt64.toNat_lt ttl
    have hcast := asI64_eq (now - ttl)
    split at hcast <;> omega

/-! ## Histories -/

theorem lastWrite_append (skill key : Text) (os ps : List HostObs) :
    lastWrite skill key (os ++ ps) = (lastWrite skill key ps).or (lastWrite skill key os) := by
  induction os with
  | nil => simp [lastWrite]
  | cons o os ih => cases o <;> simp [lastWrite, ih, Option.or_assoc]

theorem Retained.concat {retention : Option UInt64} {skill : Text} {os : List HostObs} {o : HostObs}
    (hos : Retained retention skill os)
    (ho : ∀ key now val, o = .stateRead skill key now val →
      ∀ v t, lastWrite skill key os = some (v, t) → Promised retention t now → val = v) :
    Retained retention skill (os ++ [o]) := by
  let kept : List HostObs → HostObs → Prop := fun before x => ∀ key now val, x = .stateRead skill key now val →
    ∀ v t, lastWrite skill key before = some (v, t) → Promised retention t now → val = v
  have hkept : Machine.Recorded kept os := by
    rintro before x after hsplit key now val rfl
    exact hos before key now val after hsplit
  intro before key now val after hsplit
  exact hkept.concat ho before _ after hsplit key now val rfl

theorem Promised.earlier {retention : Option UInt64} {t now now' : UInt64} (h : Promised retention t now')
    (hle : now ≤ now') : Promised retention t now := by
  intro ttl hr
  rcases h ttl hr with h0 | hlt
  · exact Or.inl h0
  · refine Or.inr ?_
    have := UInt64.le_iff_toNat_le.mp hle
    omega

/-! ## One step -/

/-- What a run keeps for one skill, from the second `start` on. -/
structure Kept (retention : Option UInt64) (skill : Text) (start : UInt64) (os : List HostObs) (h : Host) : Prop where
  clock : start ≤ h.clock
  stamps : ∀ key v t, lastWrite skill key os = some (v, t) → start ≤ t ∧ t ≤ h.clock
  rows : ∀ key v t, lastWrite skill key os = some (v, t) → Promised retention t h.clock →
    h.store.skillKv.lookup (skill, key) = some { value := v, timestampSec := t.toNat }
  gcs : ∀ threshold, (skill, threshold) ∈ h.gcs →
    ∃ ttl, retention = some ttl ∧ 0 < ttl.toNat ∧ asI64 threshold + ttl.toNat ≤ h.clock.toNat
  reads : Retained retention skill os

namespace Kept

variable {retention : Option UInt64} {skill : Text} {start : UInt64} {os : List HostObs} {h : Host}

theorem tick (hk : Kept retention skill start os h) {now : UInt64} (hle : h.clock ≤ now) :
    Kept retention skill start os { h with clock := now } where
  clock := UInt64.le_trans hk.clock hle
  stamps key v t hw := ⟨(hk.stamps key v t hw).1, UInt64.le_trans (hk.stamps key v t hw).2 hle⟩
  rows key v t hw hp := hk.rows key v t hw (hp.earlier hle)
  gcs threshold hm := by
    obtain ⟨ttl, hr, hpos, hthreshold⟩ := hk.gcs threshold hm
    have hn : h.clock.toNat ≤ now.toNat := UInt64.le_iff_toNat_le.mp hle
    refine ⟨ttl, hr, hpos, ?_⟩
    show _ ≤ (now.toNat : Int)
    omega
  reads := hk.reads

theorem store (hk : Kept retention skill start os h) {store : Store}
    (hrows : ∀ key, store.skillKv.lookup (skill, key) = h.store.skillKv.lookup (skill, key)) :
    Kept retention skill start os { h with store := store } :=
  ⟨hk.clock, hk.stamps, fun key v t hw hp => (hrows key).trans (hk.rows key v t hw hp), hk.gcs, hk.reads⟩

theorem observe (hk : Kept retention skill start os h) {o : HostObs} (hwrite : ∀ key, lastWrite skill key [o] = none)
    (hread : ∀ key now val, o = .stateRead skill key now val →
      ∀ v t, lastWrite skill key os = some (v, t) → Promised retention t now → val = v) :
    Kept retention skill start (os ++ [o]) h := by
  have hlast : ∀ key, lastWrite skill key (os ++ [o]) = lastWrite skill key os := by
    intro key
    rw [lastWrite_append, hwrite key, Option.none_or]
  refine ⟨hk.clock, ?_, ?_, hk.gcs, hk.reads.concat hread⟩
  · intro key v t hw
    rw [hlast] at hw
    exact hk.stamps key v t hw
  · intro key v t hw hp
    rw [hlast] at hw
    exact hk.rows key v t hw hp

theorem read (hk : Kept retention skill start os h) (key : Text) :
    Kept retention skill start
      (os ++ [.stateRead skill key h.clock (hostStateGet ⟨skill, retention⟩ h.store key)]) h := by
  apply hk.observe (fun _ => rfl)
  intro key' now val heq v t hw hp
  cases heq
  unfold hostStateGet Store.skillKvGet
  rw [hk.rows key v t hw hp]
  rfl

theorem write (hlasting : Lasting retention start) (hk : Kept retention skill start os h) (key : Text) (val : Bytes) :
    Kept retention skill start (os ++ [.stateWritten skill key h.clock val])
      { h with store := hostStateSet ⟨skill, retention⟩ h.clock h.store key val } := by
  have hlast : ∀ key', lastWrite skill key' (os ++ [.stateWritten skill key h.clock val]) =
      if key = key' then some (val, h.clock) else lastWrite skill key' os := by
    intro key'
    rw [lastWrite_append]
    by_cases hkey : key = key' <;> simp [lastWrite, hkey]
  have hstamps : ∀ key' v t, lastWrite skill key' (os ++ [.stateWritten skill key h.clock val]) = some (v, t) →
      start ≤ t ∧ t ≤ h.clock := by
    intro key' v t hw
    rw [hlast] at hw
    split at hw
    · cases hw
      exact ⟨hk.clock, UInt64.le_refl _⟩
    · exact hk.stamps key' v t hw
  refine ⟨hk.clock, hstamps, ?_, hk.gcs, hk.reads.concat (fun _ _ _ heq => by cases heq)⟩
  intro key' v t hw hp
  -- the row as the write leaves it
  have hset : (h.store.skillKvSet h.clock skill key val).skillKv.lookup (skill, key') =
      some { value := v, timestampSec := t.toNat } := by
    rw [Store.skillKv_set]
    rw [hlast] at hw
    by_cases hkey : key = key'
    · subst hkey
      rw [if_pos rfl] at hw ⊢
      cases hw
      rfl
    · rw [if_neg hkey] at hw
      rw [if_neg (fun heq => hkey (Prod.mk.inj heq).2.symm)]
      exact hk.rows key' v t hw hp
  unfold hostStateSet
  cases hr : retention with
  | none => exact hset
  | some ttl =>
    subst hr
    have hstamp := hstamps key' v t hw
    exact Store.skillKv_gc_after _ hset (asI64_setThreshold_lt hlasting hstamp.1 hstamp.2 hp)

theorem call {settings : Text → Option UInt64} (hlasting : Lasting (settings skill) start)
    (hk : Kept (settings skill) skill start os h) (skill' : Text) (c : HostCall) :
    Kept (settings skill) skill start (os ++ (h.call ⟨skill', settings skill'⟩ c).2)
      (h.call ⟨skill', settings skill'⟩ c).1 := by
  cases c with
  | tmpGet ns key =>
    refine (hk.store ?_).observe (fun _ => rfl) (fun _ _ _ heq => by cases heq)
    intro key'
    show (h.store.tmpGet h.clock ns key).1.skillKv.lookup _ = _
    rw [Store.tmpGet_skillKv]
  | tmpSet ns key val e =>
    show Kept _ _ _ (os ++ []) _
    rw [List.append_nil]
    exact hk.store (fun _ => rfl)
  | stateGet key =>
    by_cases hskill : skill' = skill
    · subst hskill
      exact hk.read key
    · apply hk.observe (fun _ => rfl)
      intro key' now val heq
      cases heq
      exact absurd rfl hskill
  | stateSet key val =>
    by_cases hskill : skill' = skill
    · subst hskill
      exact hk.write hlasting key val
    · refine (hk.store ?_).observe ?_ (fun _ _ _ heq => by cases heq)
      · intro key'
        exact skillKv_hostStateSet_other _ _ _ _ _ (Ne.symm hskill)
      · intro key'
        simp [lastWrite, hskill]

/-- A dispatch of any skill: the collection it spawns lies `ttl` seconds back. -/
theorem dispatch {settings : Text → Option UInt64} (hlasting : Lasting (settings skill) start)
    (hk : Kept (settings skill) skill start os h) (skill' : Text) :
    Kept (settings skill) skill start os
      { h with gcs := h.gcs ++ (dispatchGc ⟨skill', settings skill'⟩ h.clock).toList } := by
  refine ⟨hk.clock, hk.stamps, hk.rows, ?_, hk.reads⟩
  intro threshold hm
  rcases List.mem_append.mp hm with hold | hnew
  · exact hk.gcs threshold hold
  · have hspawned := Option.mem_toList.mp hnew
    unfold dispatchGc at hspawned
    cases hr : settings skill' with
    | none => simp [hr] at hspawned
    | some ttl =>
      simp only [hr] at hspawned
      split at hspawned
      · rename_i hpos
        cases hspawned
        rw [hr] at hlasting
        exact ⟨ttl, hr, UInt64.lt_iff_toNat_lt.mp hpos, asI64_dispatchThreshold_le hlasting hk.clock⟩
      · cases hspawned

theorem collect (hk : Kept retention skill start os h) {i : Nat} {skill' : Text} {threshold : UInt64}
    (hi : h.gcs[i]? = some (skill', threshold)) :
    Kept retention skill start os { h with store := h.store.skillKvGc skill' threshold, gcs := h.gcs.eraseIdx i } := by
  refine ⟨hk.clock, hk.stamps, ?_, fun T hm => hk.gcs T (List.mem_of_mem_eraseIdx hm), hk.reads⟩
  intro key v t hw hp
  have hrow := hk.rows key v t hw hp
  have hpromised : Promised retention t h.clock := hp
  by_cases hskill : skill' = skill
  · subst hskill
    obtain ⟨ttl, hr, hpos, hthreshold⟩ := hk.gcs threshold (List.mem_of_getElem? hi)
    apply Store.skillKv_gc_after _ hrow
    show asI64 threshold < t.toNat
    rcases hpromised ttl hr with h0 | hlt
    · rw [h0, UInt64.toNat_zero] at hpos
      omega
    · omega
  · exact (Store.skillKv_gc_other _ _ (Ne.symm hskill)).trans hrow

end Kept

/-- Every step keeps it. -/
theorem kept_step {settings : Text → Option UInt64} {skill : Text} {start : UInt64}
    (hlasting : Lasting (settings skill) start) (os : List HostObs) (h : Host) (a : HostAction) (h' : Host)
    (o : List HostObs) (hk : Kept (settings skill) skill start os h) (hforward : Forward os h a)
    (hstep : (Host.machine settings).step h a = some (h', o)) : Kept (settings skill) skill start (os ++ o) h' := by
  simp only [Host.machine, Host.step] at hstep
  cases a with
  | clock now =>
    cases hstep
    rw [List.append_nil]
    exact hk.tick hforward
  | call skill' c =>
    have hcall := hk.call hlasting skill' c
    rw [Option.some.inj hstep] at hcall
    exact hcall
  | dispatch skill' =>
    cases hstep
    rw [List.append_nil]
    exact hk.dispatch hlasting skill'
  | gc i =>
    cases hi : h.gcs[i]? with
    | none => simp [hi] at hstep
    | some e =>
      simp [hi] at hstep
      obtain ⟨rfl, rfl⟩ := hstep
      rw [List.append_nil]
      exact hk.collect hi

/-! ## Whole runs -/

/-- A host that starts at the second `start`, with anything stored and nothing spawned. -/
def Host.starting (store : Store) (start : UInt64) : Host := { store := store, clock := start, gcs := [] }

theorem kept_starting (retention : Option UInt64) (skill : Text) (store : Store) (start : UInt64) :
    Kept retention skill start [] (.starting store start) where
  clock := UInt64.le_refl start
  stamps key v t hw := by simp [lastWrite] at hw
  rows key v t hw := by simp [lastWrite] at hw
  gcs threshold hm := by simp [Host.starting] at hm
  reads before key now val after hsplit := by simp at hsplit

theorem hostStateGet_collected (ctx : SkillCtx) {s : Store} {key : Text} {threshold : UInt64} {row : KvRow}
    (hrow : s.skillKv.lookup (ctx.name, key) = some row) (hdue : row.timestampSec ≤ asI64 threshold) :
    hostStateGet ctx (s.skillKvGc ctx.name threshold) key = [] := by
  unfold hostStateGet Store.skillKvGet
  rw [Store.skillKv_gc_due s hrow hdue]
  rfl

theorem Promised.same (retention : Option UInt64) (t : UInt64) : Promised retention t t := by
  intro ttl _
  by_cases h0 : ttl = 0
  · exact Or.inl h0
  · have hne : ttl.toNat ≠ 0 := fun h => h0 (UInt64.toNat_inj.mp h)
    exact Or.inr (by omega)

section Needed

variable {settings : Text → Option UInt64} {skill : Text} {start ttl : UInt64}

theorem skillKv_written (skill : Text) (start : UInt64) :
    (Store.new.skillKvSet start skill [] [1]).skillKv.lookup (skill, []) =
      some { value := [1], timestampSec := start.toNat } := by
  rw [Store.skillKv_set, if_pos rfl]

/-- A write and a read in one second: for the read to return what was written,
the write's own threshold has to lie before it. -/
theorem setThreshold_of_retained (hr : settings skill = some ttl)
    (hall : ∀ as h o, (Host.machine settings).Along Forward [] (.starting .new start) as →
      (Host.machine settings).run (.starting .new start) as = some (h, o) → Retained (settings skill) skill o) :
    asI64 (saturatingSub start ttl) < start.toNat := by
  by_contra hnot
  have hdue : (start.toNat : Int) ≤ asI64 (saturatingSub start ttl) := by omega
  have hret := hall [.call skill (.stateSet [] [1]), .call skill (.stateGet [])] _ _
    ⟨trivial, fun _ _ _ => ⟨trivial, fun _ _ _ => trivial⟩⟩ rfl
  have hval := hret [.stateWritten skill [] start [1]] [] start _ [] rfl [1] start (by simp [lastWrite])
    (Promised.same _ start)
  simp only [Host.starting, hostStateSet, hr] at hval
  rw [hostStateGet_collected ⟨skill, some ttl⟩ (skillKv_written skill start) hdue] at hval
  cases hval

/-- A write, a dispatch with its collection, and a read in one second: the
dispatch's threshold has to lie before the write too. -/
theorem dispatchThreshold_of_retained (hr : settings skill = some ttl) (hpos : ttl > 0)
    (hall : ∀ as h o, (Host.machine settings).Along Forward [] (.starting .new start) as →
      (Host.machine settings).run (.starting .new start) as = some (h, o) → Retained (settings skill) skill o) :
    asI64 (start - ttl) < start.toNat := by
  by_contra hnot
  have hdue : (start.toNat : Int) ≤ asI64 (start - ttl) := by omega
  have hkept : (hostStateSet ⟨skill, some ttl⟩ start .new [] [1]).skillKv.lookup (skill, []) =
      some { value := [1], timestampSec := start.toNat } :=
    Store.skillKv_gc_after _ (skillKv_written skill start) (setThreshold_of_retained hr hall)
  let as : List HostAction := [.call skill (.stateSet [] [1]), .dispatch skill, .gc 0, .call skill (.stateGet [])]
  have hrun : ∃ h, (Host.machine settings).run (.starting .new start) as =
      some (h, [.stateWritten skill [] start [1], .stateRead skill [] start
        (hostStateGet ⟨skill, some ttl⟩
          ((hostStateSet ⟨skill, some ttl⟩ start .new [] [1]).skillKvGc skill (start - ttl)) [])]) := by
    simp [as, Machine.run, Host.machine, Host.step, Host.call, Host.starting, dispatchGc, hr, hpos]
  obtain ⟨h, hrun⟩ := hrun
  have hforward : (Host.machine settings).Along Forward [] (.starting .new start) as :=
    ⟨trivial, fun _ _ _ => ⟨trivial,
      fun _ _ _ => ⟨trivial, fun _ _ _ => ⟨trivial, fun _ _ _ => trivial⟩⟩⟩⟩
  have hval := hall as h _ hforward hrun [.stateWritten skill [] start [1]] [] start _ [] rfl [1] start
    (by simp [lastWrite]) (Promised.same _ start)
  rw [hostStateGet_collected ⟨skill, some ttl⟩ hkept hdue] at hval
  cases hval

end Needed

/-- **Retention.** Every run, whatever is stored at its start and whatever the
other skills do under their settings, returns the skill's promised keys exactly
when the skill's setting is a lasting one. -/
theorem retained_iff (settings : Text → Option UInt64) (skill : Text) (start : UInt64) :
    (∀ store as h o, (Host.machine settings).Along Forward [] (.starting store start) as →
      (Host.machine settings).run (.starting store start) as = some (h, o) → Retained (settings skill) skill o) ↔
      Lasting (settings skill) start := by
  constructor
  · intro hall ttl hr
    have hset := setThreshold_of_retained hr (hall .new)
    have hsat := toNat_saturatingSub start ttl
    have hcast := asI64_eq (saturatingSub start ttl)
    have hpos : 0 < start.toNat := by
      have hnonneg : saturatingSub start ttl = 0 → asI64 (saturatingSub start ttl) = 0 := by
        intro h0
        rw [h0]
        rfl
      by_contra hzero
      have h0 : saturatingSub start ttl = 0 := UInt64.toNat_inj.mp (by rw [hsat, UInt64.toNat_zero]; omega)
      have := hnonneg h0
      omega
    have hbound := UInt64.toNat_lt start
    -- what `set` collects is read off a run that sets, what a dispatch collects off one that dispatches
    by_cases h0 : 0 < ttl.toNat
    · refine ⟨Or.inl h0, hpos, ?_⟩
      have hthreshold := dispatchThreshold_of_retained hr (UInt64.lt_iff_toNat_lt.mpr h0) (hall .new)
      by_contra hwrap
      have hsub := UInt64.toNat_sub start ttl
      have hcast' := asI64_eq (start - ttl)
      have hbound' := UInt64.toNat_lt ttl
      split at hcast' <;> omega
    · refine ⟨Or.inr ?_, hpos, by omega⟩
      split at hcast <;> omega
  · intro hlasting store as h o hforward hrun
    have hkept := Machine.run_invariant_along (kept_step hlasting) as [] _ _ _
      (kept_starting (settings skill) skill store start) hforward hrun
    rw [List.nil_append] at hkept
    exact hkept.reads

/-- Under retention 0, which is to disable the collection, a write is collected
by the call that made it. -/
theorem zero_retention_collects :
    ∃ h o, (Host.machine (fun _ => some 0)).run (.starting .new 1700000000)
        [.call "timer".toList (.stateSet "timer/1".toList [60]), .call "timer".toList (.stateGet "timer/1".toList)] =
          some (h, o) ∧ ¬ Retained (some 0) "timer".toList o := by
  refine ⟨_, _, rfl, ?_⟩
  intro hret
  have hval := hret [.stateWritten "timer".toList "timer/1".toList 1700000000 [60]] "timer/1".toList 1700000000 _ []
    rfl [60] 1700000000 (by decide) (Promised.same _ _)
  exact absurd hval (by decide)

end AthenaVoice.Wasm
