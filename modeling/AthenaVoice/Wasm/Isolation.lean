import Mathlib.Data.Set.BooleanAlgebra
import Mathlib.Order.CompletePartialOrder
import AthenaVoice.Lib.Unwinding
import AthenaVoice.Wasm.HostFns

/-
  What one skill can learn of another's writes

  Two runs of the host are compared, one with and one without the writes of a
  skill `b`. The durable store's namespace is the host's, so `b`'s rows are
  never `a`'s. The temporary store's is the guest's: all that keeps `a` and `b`
  apart there is that they pass different arguments, and the bundled skills
  all pass the empty name.

  What is proved:
    1. `unwinding` — step by step, the two runs agree on everything but `b`'s
       rows and the temporary entries that `a` never reads.
    2. `isolated_iff_disjoint` — the skills are isolated in every run exactly
       when no pair that `a` reads is one that `b` writes.
-/

namespace AthenaVoice.Wasm

open Lib Storage

/-- A write of the skill `b`. -/
def HostAction.writeOf (b : Text) : HostAction → Bool
  | .call skill (.stateSet _ _) => skill == b
  | .call skill (.tmpSet _ _ _ _) => skill == b
  | _ => false

/-- The bytes a read of the skill `a` returns. -/
def HostObs.readOf (a : Text) : HostObs → Option Bytes
  | .stateRead skill _ _ val => if skill = a then some val else none
  | .tmpRead skill val => if skill = a then some val else none
  | .stateWritten _ _ _ _ => none

/-- Without the writes of `b`, the same sequence of actions goes through and
`a` reads the same. -/
def Isolated (retention : Text → Option UInt64) (a b : Text) (h : Host) (as : List HostAction) : Prop :=
  ∀ h' o, (Host.machine retention).run h as = some (h', o) →
    ∃ h'' p, (Host.machine retention).run h (as.filter (fun c => !c.writeOf b)) = some (h'', p) ∧
      o.filterMap (HostObs.readOf a) = p.filterMap (HostObs.readOf a)

/-- The pairs `a` passes to `host_tmp_get` are in `reads`, and the pairs `b`
passes to `host_tmp_set` in `writes`. -/
def HostAction.Passes (a b : Text) (reads writes : Set (Text × Text)) : HostAction → Prop
  | .call skill (.tmpGet ns key) => skill = a → (ns, key) ∈ reads
  | .call skill (.tmpSet ns key _ _) => skill = b → (ns, key) ∈ writes
  | _ => True

/-- The two runs' states: alike but for `b`'s rows and the entries `a` never reads. -/
structure SameFor (b : Text) (reads : Set (Text × Text)) (h t : Host) : Prop where
  clock : h.clock = t.clock
  gcs : h.gcs = t.gcs
  skillKv : ∀ k : Text × Text, k.1 ≠ b → h.store.skillKv.lookup k = t.store.skillKv.lookup k
  tmp : ∀ k ∈ reads, h.store.tmp.lookup k = t.store.tmp.lookup k

theorem SameFor.refl (b : Text) (reads : Set (Text × Text)) (h : Host) : SameFor b reads h h :=
  ⟨rfl, rfl, fun _ _ => rfl, fun _ _ => rfl⟩

/-! ## One call -/

section Calls

variable {b : Text} {reads writes : Set (Text × Text)}

theorem skillKv_hostStateSet_congr (ctx : SkillCtx) (now : UInt64) {s t : Store} (key : Text) (val : Bytes)
    {k : Text × Text} (hk : s.skillKv.lookup k = t.skillKv.lookup k) :
    (hostStateSet ctx now s key val).skillKv.lookup k = (hostStateSet ctx now t key val).skillKv.lookup k := by
  have hset : (s.skillKvSet now ctx.name key val).skillKv.lookup k =
      (t.skillKvSet now ctx.name key val).skillKv.lookup k := by
    rw [Store.skillKv_set, Store.skillKv_set, hk]
  unfold hostStateSet
  cases ctx.retentionGcAfterSec with
  | none => exact hset
  | some ttl =>
    show (Store.skillKvGc _ _ _).skillKv.lookup k = (Store.skillKvGc _ _ _).skillKv.lookup k
    rw [Store.skillKv_gc, Store.skillKv_gc, hset]

theorem SameFor.hidden {a : Text} {h t : Host} (hs : SameFor b reads h t) (hapart : Disjoint reads writes)
    (r : Option UInt64) {c : HostCall} (hpass : (HostAction.call b c).Passes a b reads writes)
    (hwrite : (HostAction.call b c).writeOf b = true) :
    SameFor b reads (h.call ⟨b, r⟩ c).1 t ∧ (h.call ⟨b, r⟩ c).2.filterMap (HostObs.readOf a) = [] := by
  cases c with
  | stateGet key => simp [HostAction.writeOf] at hwrite
  | tmpGet ns key => simp [HostAction.writeOf] at hwrite
  | stateSet key val =>
    refine ⟨⟨hs.clock, hs.gcs, ?_, ?_⟩, rfl⟩
    · intro k hk
      exact (skillKv_hostStateSet_other ⟨b, r⟩ h.clock h.store key val hk).trans (hs.skillKv k hk)
    · intro k hk
      simpa [Host.call] using hs.tmp k hk
  | tmpSet ns key val e =>
    refine ⟨⟨hs.clock, hs.gcs, hs.skillKv, ?_⟩, rfl⟩
    intro k hk
    have hne : k ≠ (ns, key) := by
      intro heq
      exact Set.disjoint_left.mp hapart (heq ▸ hk) (hpass rfl)
    show (h.store.tmpSet h.clock ns key val e).tmp.lookup k = _
    rw [Store.tmp_tmpSet, if_neg hne]
    exact hs.tmp k hk

theorem SameFor.call {a : Text} (hab : a ≠ b) {h t : Host} (hs : SameFor b reads h t) (skill : Text)
    (r : Option UInt64) {c : HostCall} (hpass : (HostAction.call skill c).Passes a b reads writes) :
    SameFor b reads (h.call ⟨skill, r⟩ c).1 (t.call ⟨skill, r⟩ c).1 ∧
      (h.call ⟨skill, r⟩ c).2.filterMap (HostObs.readOf a) =
        (t.call ⟨skill, r⟩ c).2.filterMap (HostObs.readOf a) := by
  cases c with
  | stateGet key =>
    refine ⟨hs, ?_⟩
    by_cases hskill : skill = a
    · subst hskill
      have hrow : hostStateGet ⟨skill, r⟩ h.store key = hostStateGet ⟨skill, r⟩ t.store key := by
        unfold hostStateGet Store.skillKvGet
        rw [hs.skillKv (skill, key) hab]
      simp [Host.call, hrow, HostObs.readOf]
    · simp [Host.call, HostObs.readOf, hskill]
  | stateSet key val =>
    refine ⟨⟨hs.clock, hs.gcs, ?_, ?_⟩, rfl⟩
    · intro k hk
      show _ = (hostStateSet ⟨skill, r⟩ t.clock t.store key val).skillKv.lookup k
      rw [← hs.clock]
      exact skillKv_hostStateSet_congr ⟨skill, r⟩ h.clock key val (hs.skillKv k hk)
    · intro k hk
      simpa [Host.call] using hs.tmp k hk
  | tmpSet ns key val e =>
    refine ⟨⟨hs.clock, hs.gcs, hs.skillKv, ?_⟩, rfl⟩
    intro k hk
    show (h.store.tmpSet h.clock ns key val e).tmp.lookup k = (t.store.tmpSet t.clock ns key val e).tmp.lookup k
    rw [Store.tmp_tmpSet, Store.tmp_tmpSet, hs.clock, hs.tmp k hk]
  | tmpGet ns key =>
    have hstate : SameFor b reads (h.call ⟨skill, r⟩ (.tmpGet ns key)).1
      (t.call ⟨skill, r⟩ (.tmpGet ns key)).1 := by
      refine ⟨hs.clock, hs.gcs, ?_, ?_⟩
      · intro k hk
        show (h.store.tmpGet h.clock ns key).1.skillKv.lookup k = (t.store.tmpGet t.clock ns key).1.skillKv.lookup k
        rw [Store.tmpGet_skillKv, Store.tmpGet_skillKv]
        exact hs.skillKv k hk
      · intro k hk
        show (h.store.tmpGet h.clock ns key).1.tmp.lookup k = (t.store.tmpGet t.clock ns key).1.tmp.lookup k
        rw [Store.tmp_tmpGet, Store.tmp_tmpGet, hs.clock, hs.tmp k hk]
    refine ⟨hstate, ?_⟩
    by_cases hskill : skill = a
    · have hentry := hs.tmp (ns, key) (hpass hskill)
      have hval : (h.store.tmpGet h.clock ns key).2 = (t.store.tmpGet t.clock ns key).2 := by
        rw [Store.tmpGet_value, Store.tmpGet_value, hentry, hs.clock]
      simp [Host.call, hostTmpGet, hval, HostObs.readOf]
    · simp [Host.call, HostObs.readOf, hskill]

end Calls

/-! ## Whole runs -/

/-- The two runs stay alike as far as `a` can see. -/
theorem unwinding (retention : Text → Option UInt64) {a b : Text} (hab : a ≠ b) {reads writes : Set (Text × Text)}
    (hapart : Disjoint reads writes) :
    (Host.machine retention).Unwinding (HostAction.Passes a b reads writes) (HostAction.writeOf b)
      (HostObs.readOf a) (SameFor b reads) where
  hides := by
    intro h t c h' o hs hpass hwrite hstep
    cases c with
    | clock now => simp [HostAction.writeOf] at hwrite
    | dispatch skill => simp [HostAction.writeOf] at hwrite
    | gc i => simp [HostAction.writeOf] at hwrite
    | call skill c =>
      -- only a call of the other skill writes on its behalf
      obtain rfl : skill = b := by
        cases c <;> simp [HostAction.writeOf] at hwrite <;> exact hwrite
      simp only [Host.machine, Host.step, Option.some.injEq] at hstep
      have hcall := hs.hidden hapart (retention skill) hpass hwrite
      rw [hstep] at hcall
      exact hcall
  agrees := by
    intro h t c h' o hs hpass hwrite hstep
    cases c with
    | clock now =>
      simp [Host.machine, Host.step] at hstep
      obtain ⟨rfl, rfl⟩ := hstep
      exact ⟨{ t with clock := now }, [], rfl, ⟨rfl, hs.gcs, hs.skillKv, hs.tmp⟩, rfl⟩
    | dispatch skill =>
      simp [Host.machine, Host.step] at hstep
      obtain ⟨rfl, rfl⟩ := hstep
      refine ⟨_, [], rfl, ⟨hs.clock, ?_, hs.skillKv, hs.tmp⟩, rfl⟩
      show h.gcs ++ _ = t.gcs ++ _
      rw [hs.gcs, hs.clock]
    | gc i =>
      simp only [Host.machine, Host.step] at hstep ⊢
      -- the collections under way are the same in both runs
      rw [← hs.gcs]
      cases hi : h.gcs[i]? with
      | none => simp [hi] at hstep
      | some e =>
        obtain ⟨skill, threshold⟩ := e
        simp [hi] at hstep
        obtain ⟨rfl, rfl⟩ := hstep
        refine ⟨_, [], rfl, ⟨hs.clock, rfl, ?_, hs.tmp⟩, rfl⟩
        intro k hk
        show (h.store.skillKvGc skill threshold).skillKv.lookup k = (t.store.skillKvGc skill threshold).skillKv.lookup k
        rw [Store.skillKv_gc, Store.skillKv_gc, hs.skillKv k hk]
    | call skill c =>
      simp only [Host.machine, Host.step, Option.some.injEq] at hstep ⊢
      have hcall := hs.call hab skill (retention skill) hpass
      rw [hstep] at hcall
      exact ⟨_, _, rfl, hcall.1, hcall.2⟩

/-- Jeedom's prompt waits for its confirmation while the tmp-test skill stores
a value of its own, both under the name `HostCtx::for_testing` gives them. -/
def sharedSlot : List HostAction :=
  let pending := "pending_action".toList
  [.call "jeedom".toList (HostCtx.forTesting.tmpSet pending [123, 125] 30),
   .call "tmp-test".toList (HostCtx.forTesting.tmpSet pending [104, 105] 2),
   .call "jeedom".toList (HostCtx.forTesting.tmpGet pending)]

/-- Jeedom's prompt waits while the timer skill notes a timer, under the same
empty name and another key. -/
def apartSlots : List HostAction :=
  [.call "jeedom".toList (HostCtx.forTesting.tmpSet "pending_action".toList [123, 125] 30),
   .call "timer".toList (HostCtx.forTesting.tmpSet "timer/1".toList [60, 0, 0, 0, 0, 0, 0, 0] 60),
   .call "jeedom".toList (HostCtx.forTesting.tmpGet "pending_action".toList)]

/-- **Isolation.** The writes of `b` are invisible to `a`, in every run from
every state, exactly when `a` and `b` pass the temporary store no common pair. -/
theorem isolated_iff_disjoint (retention : Text → Option UInt64) (a b : Text) (hab : a ≠ b)
    (reads writes : Set (Text × Text)) :
    (∀ h as, (∀ c ∈ as, HostAction.Passes a b reads writes c) → Isolated retention a b h as) ↔
      Disjoint reads writes := by
  constructor
  · intro hisolated
    rw [Set.disjoint_left]
    intro k hread hwrite
    -- `b` writes the common pair, and `a` reads it in the same second
    let as : List HostAction := [.call b (.tmpSet k.1 k.2 [1] 1), .call a (.tmpGet k.1 k.2)]
    have hpass : ∀ c ∈ as, HostAction.Passes a b reads writes c := by
      intro c hc
      simp [as] at hc
      rcases hc with rfl | rfl
      · exact fun _ => hwrite
      · exact fun _ => hread
    have hgot : (hostTmpGet 0 (hostTmpSet 0 Store.new k.1 k.2 [1] 1) k.1 k.2).2 = [1] := by
      rw [hostTmpGet_value, hostTmpSet, Store.tmpGet_value, Store.tmp_tmpSet, if_pos rfl]
      rfl
    have hfull : ∃ h', (Host.machine retention).run (.new 0) as = some (h', [.tmpRead a [1]]) := by
      rw [← hgot]
      exact ⟨_, rfl⟩
    obtain ⟨h', hrun⟩ := hfull
    obtain ⟨h'', p, hpurged, hsame⟩ := hisolated _ as hpass h' _ hrun
    have hkept : as.filter (fun c => !c.writeOf b) = [.call a (.tmpGet k.1 k.2)] := by
      simp [as, HostAction.writeOf]
    rw [hkept] at hpurged
    simp [Machine.run, Host.machine, Host.step, Host.call, hostTmpGet, Host.new, Store.new, Store.tmpGet] at hpurged
    obtain ⟨-, rfl⟩ := hpurged
    simp [HostObs.readOf] at hsame
  · intro hapart h as hpass h' o hrun
    obtain ⟨h'', p, hpurged, -, hsame⟩ :=
      (unwinding retention hab hapart).run_purged as h h h' o hpass (SameFor.refl b reads h) hrun
    exact ⟨h'', p, hpurged, hsame⟩

/-- The timer's key is not the prompt's: the confirmation is isolated from it. -/
theorem apart_slots_isolated :
    Isolated (fun _ => none) "jeedom".toList "timer".toList (.new 1700000000) apartSlots := by
  have hapart : Disjoint ({([], "pending_action".toList)} : Set (Text × Text)) {([], "timer/1".toList)} := by
    rw [Set.disjoint_left]
    rintro k rfl h
    have heq : (([], "pending_action".toList) : Text × Text) = ([], "timer/1".toList) := h
    exact absurd heq (by decide)
  refine (isolated_iff_disjoint (fun _ => none) "jeedom".toList "timer".toList (by decide) _ _).mpr hapart _ _ ?_
  intro c hc
  simp only [apartSlots, List.mem_cons, List.not_mem_nil, or_false] at hc
  rcases hc with rfl | rfl | rfl
  · exact fun h => absurd h (by decide)
  · exact fun _ => rfl
  · exact fun _ => rfl

/-- Jeedom's confirmation reads what the tmp-test skill wrote over its prompt. -/
theorem shared_slot_read :
    ¬ Isolated (fun _ => none) "jeedom".toList "tmp-test".toList (.new 1700000000) sharedSlot := by
  intro hisolated
  obtain ⟨h', p, hpurged, hsame⟩ := hisolated _ [.tmpRead "jeedom".toList [104, 105]] rfl
  have halone : (Host.machine (fun _ => none)).run (.new 1700000000)
      (sharedSlot.filter (fun c => !c.writeOf "tmp-test".toList)) =
        some (_, [.tmpRead "jeedom".toList [123, 125]]) := rfl
  rw [halone] at hpurged
  cases hpurged
  exact absurd hsame (by decide)

end AthenaVoice.Wasm
