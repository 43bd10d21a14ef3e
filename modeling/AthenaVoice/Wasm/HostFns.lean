import AthenaVoice.Lib.Machine
import AthenaVoice.Storage.SkillStore

/-
  The storage host functions — `wasm/host_fns.rs`, `SkillRegistry::dispatch`, the SDK's `host.rs`

  A guest reaches the two stores through four calls. The durable ones take the
  skill from the host's `SkillCtx`; the temporary ones take it from the guest,
  which passes what its `HostCtx` was built with. Two places collect the
  durable store: every `host_state_set` under a retention setting, before it
  returns, and every dispatch under a setting above zero, in a task of its own
  that runs some time later with the threshold of the dispatch.

  `machine` interleaves the calls of all skills with the clock and the spawned
  collections.

  Correspondence (Rust ↔ Lean):
    `host_state_get`, `host_state_set`   `hostStateGet`, `hostStateSet`
    `host_tmp_get`, `host_tmp_set`       `hostTmpGet`, `hostTmpSet`
    `dispatch` (the collection)          `dispatchGc`
    `HostCtx` and its storage methods    `HostCtx`, `HostCtx.stateGet`, …
-/

namespace AthenaVoice.Wasm

open Lib Storage

/-- `SkillCtx`, as far as the storage calls and the dispatch read it. -/
structure SkillCtx where
  name : Text
  retentionGcAfterSec : Option UInt64

def saturatingSub (a b : UInt64) : UInt64 := if b ≤ a then a - b else 0

/-! ## The host functions -/

def hostStateGet (ctx : SkillCtx) (s : Store) (key : Text) : Bytes := (s.skillKvGet ctx.name key).getD []

def hostStateSet (ctx : SkillCtx) (now : UInt64) (s : Store) (key : Text) (val : Bytes) : Store :=
  let s := s.skillKvSet now ctx.name key val
  match ctx.retentionGcAfterSec with
  | some ttl => s.skillKvGc ctx.name (saturatingSub now ttl)
  | none => s

def hostTmpSet (now : UInt64) (s : Store) (skill key : Text) (val : Bytes) (expiresSec : UInt64) : Store :=
  s.tmpSet now skill key val expiresSec

def hostTmpGet (now : UInt64) (s : Store) (skill key : Text) : Store × Bytes :=
  let (s, val) := s.tmpGet now skill key
  (s, val.getD [])

theorem hostTmpGet_value (now : UInt64) (s : Store) (skill key : Text) :
    (hostTmpGet now s skill key).2 = (s.tmpGet now skill key).2.getD [] := rfl

/-- The collection `dispatch` spawns: the skill and the threshold, which wraps. -/
def dispatchGc (ctx : SkillCtx) (nowSec : UInt64) : Option (Text × UInt64) :=
  match ctx.retentionGcAfterSec with
  | some gcSec => if gcSec > 0 then some (ctx.name, nowSec - gcSec) else none
  | none => none

theorem skillKv_hostStateSet_other (ctx : SkillCtx) (now : UInt64) (s : Store) (key : Text) (val : Bytes)
    {k : Text × Text} (hk : k.1 ≠ ctx.name) :
    (hostStateSet ctx now s key val).skillKv.lookup k = s.skillKv.lookup k := by
  have hset : (s.skillKvSet now ctx.name key val).skillKv.lookup k = s.skillKv.lookup k := by
    rw [Store.skillKv_set, if_neg]
    intro heq
    exact hk (congrArg Prod.fst heq)
  unfold hostStateSet
  cases ctx.retentionGcAfterSec with
  | none => exact hset
  | some ttl => exact (Store.skillKv_gc_other _ _ hk).trans hset

@[simp] theorem hostStateSet_tmp (ctx : SkillCtx) (now : UInt64) (s : Store) (key : Text) (val : Bytes) :
    (hostStateSet ctx now s key val).tmp = s.tmp := by
  unfold hostStateSet
  cases ctx.retentionGcAfterSec <;> rfl

/-! ## The guest's side -/

/-- A call of a guest, with the arguments it passes. -/
inductive HostCall where
  | stateGet (key : Text)
  | stateSet (key : Text) (val : Bytes)
  | tmpGet (skill key : Text)
  | tmpSet (skill key : Text) (val : Bytes) (expiresSec : UInt64)
  deriving DecidableEq

/-- The SDK's `HostCtx`. -/
structure HostCtx where
  skillName : Text

namespace HostCtx

/-- `HostCtx::for_testing`: what the bundled skills' exported `handle` builds. -/
def forTesting : HostCtx := ⟨[]⟩

def tmpSet (c : HostCtx) (key : Text) (val : Bytes) (expiresSec : UInt64) : HostCall :=
  .tmpSet c.skillName key val expiresSec

def tmpGet (c : HostCtx) (key : Text) : HostCall := .tmpGet c.skillName key

end HostCtx

/-! ## All skills at once -/

/-- The stores, the system clock, and the collections spawned and not yet run. -/
structure Host where
  store : Store
  clock : UInt64
  gcs : List (Text × UInt64)

inductive HostAction where
  /-- The clock reads `now`. -/
  | clock (now : UInt64)
  | call (skill : Text) (c : HostCall)
  | dispatch (skill : Text)
  /-- The `i`-th spawned collection runs. -/
  | gc (i : Nat)
  deriving DecidableEq

/-- A completed call: by whom, on what, when, and the bytes read or written. -/
inductive HostObs where
  | stateRead (skill key : Text) (now : UInt64) (val : Bytes)
  | stateWritten (skill key : Text) (now : UInt64) (val : Bytes)
  | tmpRead (skill : Text) (val : Bytes)
  deriving DecidableEq

/-- A call of the skill of `ctx`. -/
def Host.call (h : Host) (ctx : SkillCtx) : HostCall → Host × List HostObs
  | .stateGet key => (h, [.stateRead ctx.name key h.clock (hostStateGet ctx h.store key)])
  | .stateSet key val =>
    ({ h with store := hostStateSet ctx h.clock h.store key val }, [.stateWritten ctx.name key h.clock val])
  | .tmpGet skill key =>
    let (store, val) := hostTmpGet h.clock h.store skill key
    ({ h with store := store }, [.tmpRead ctx.name val])
  | .tmpSet skill key val expiresSec =>
    ({ h with store := hostTmpSet h.clock h.store skill key val expiresSec }, [])

/-- One action, under the skills' retention settings. -/
def Host.step (retention : Text → Option UInt64) (h : Host) : HostAction → Option (Host × List HostObs)
  | .clock now => some ({ h with clock := now }, [])
  | .call skill c => some (h.call ⟨skill, retention skill⟩ c)
  | .dispatch skill => some ({ h with gcs := h.gcs ++ (dispatchGc ⟨skill, retention skill⟩ h.clock).toList }, [])
  | .gc i =>
    match h.gcs[i]? with
    | none => none
    | some (skill, threshold) =>
      some ({ h with store := h.store.skillKvGc skill threshold, gcs := h.gcs.eraseIdx i }, [])

/-- The host under the given retention settings. -/
def Host.machine (retention : Text → Option UInt64) : Machine Host HostAction HostObs := ⟨Host.step retention⟩

/-- Nothing stored and nothing spawned. -/
def Host.new (clock : UInt64) : Host := { store := .new, clock := clock, gcs := [] }

end AthenaVoice.Wasm
