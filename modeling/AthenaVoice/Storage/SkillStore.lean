import Mathlib.Algebra.Group.Int.Defs
import Mathlib.Algebra.Group.Nat.Defs
import AthenaVoice.Lib.Str
import AthenaVoice.Lib.Table

/-
  Skill storage — `sqlite.rs` (the skill_kv table), `tmp/mod.rs`

  Two stores hold what skills keep. The durable one is a table keyed by skill
  and key whose rows are stamped by the database's clock; its collection
  deletes a skill's rows at or before a threshold, which is bound as an i64.
  The temporary one is a map keyed the same way whose entries carry the second
  they expire at; a read past it removes the entry. Seconds are u64 and wrap in
  `+` and `-`, as in a release build.

  What is proved:
    1. `asI64_eq`, `asI64_le` — what the cast of a threshold does.
    2. `skillKvGet_set`, `skillKv_gc` — what a write and a collection change.
    3. `tmpGet_value`, `tmp_tmpSet`, `tmp_tmpGet` — what the temporary store
       answers and what is left of it.

  Correspondence (Rust ↔ Lean):
    `skill_kv_get`, `skill_kv_set`, `skill_kv_gc`   `Store.skillKvGet`, …
    `MemoryTmpStore`: `tmp_set`, `tmp_get`          `Store.tmpSet`, `Store.tmpGet`
-/

namespace AthenaVoice.Storage

open Lib

/-- `Vec<u8>`. -/
abbrev Bytes := List UInt8

/-- `n as i64`. -/
def asI64 (n : UInt64) : Int := n.toInt64.toInt

/-- A row of `skill_kv`, under its primary key. -/
structure KvRow where
  value : Bytes
  timestampSec : Int
  deriving DecidableEq

/-- What the skills' two stores hold. -/
structure Store where
  skillKv : Table (Text × Text) KvRow
  tmp : Table (Text × Text) (UInt64 × Bytes)

def Store.new : Store := { skillKv := ∅, tmp := ∅ }

namespace Store

def skillKvGet (s : Store) (skill key : Text) : Option Bytes :=
  (s.skillKv.lookup (skill, key)).map (·.value)

/-- `skill_kv_set`, at the second `now` of the database's clock. -/
def skillKvSet (s : Store) (now : UInt64) (skill key : Text) (value : Bytes) : Store :=
  { s with skillKv := s.skillKv.insert (skill, key) { value := value, timestampSec := now.toNat } }

def skillKvGc (s : Store) (skill : Text) (nowSec : UInt64) : Store :=
  { s with skillKv := Table.keep s.skillKv (fun k row => !(k.1 = skill && row.timestampSec ≤ asI64 nowSec)) }

/-- `tmp_set`, at the second `now`. -/
def tmpSet (s : Store) (now : UInt64) (skill key : Text) (val : Bytes) (expiresSec : UInt64) : Store :=
  { s with tmp := s.tmp.insert (skill, key) (now + expiresSec, val) }

/-- `tmp_get`, at the second `now`. -/
def tmpGet (s : Store) (now : UInt64) (skill key : Text) : Store × Option Bytes :=
  match s.tmp.lookup (skill, key) with
  | none => (s, none)
  | some (expiresAt, val) =>
    if now ≥ expiresAt then ({ s with tmp := s.tmp.erase (skill, key) }, none)
    else (s, some val)

end Store

/-! ## The cast of a threshold -/

theorem asI64_eq (n : UInt64) : asI64 n = if 2 * n.toNat < 2 ^ 64 then (n.toNat : Int) else n.toNat - 2 ^ 64 := by
  show n.toBitVec.toInt = _
  rw [BitVec.toInt_eq_toNat_cond]
  rfl

theorem asI64_le (n : UInt64) : asI64 n ≤ n.toNat := by
  rw [asI64_eq]
  split
  · exact Int.le_refl _
  · omega

/-! ## The durable store -/

namespace Store

@[simp] theorem skillKvSet_tmp (s : Store) (now : UInt64) (skill key : Text) (value : Bytes) :
    (s.skillKvSet now skill key value).tmp = s.tmp := rfl

@[simp] theorem skillKvGc_tmp (s : Store) (skill : Text) (n : UInt64) : (s.skillKvGc skill n).tmp = s.tmp := rfl

@[simp] theorem tmpSet_skillKv (s : Store) (now : UInt64) (skill key : Text) (val : Bytes) (e : UInt64) :
    (s.tmpSet now skill key val e).skillKv = s.skillKv := rfl

@[simp] theorem tmpGet_skillKv (s : Store) (now : UInt64) (skill key : Text) :
    (s.tmpGet now skill key).1.skillKv = s.skillKv := by
  unfold tmpGet
  split
  · rfl
  · split <;> rfl

theorem skillKv_set (s : Store) (now : UInt64) (skill key : Text) (value : Bytes) (k : Text × Text) :
    (s.skillKvSet now skill key value).skillKv.lookup k =
      if k = (skill, key) then some { value := value, timestampSec := now.toNat } else s.skillKv.lookup k :=
  Table.lookup_insert_eq _ _ _ _

/-- A collection deletes the skill's rows at or before the threshold. -/
theorem skillKv_gc (s : Store) (skill : Text) (n : UInt64) (k : Text × Text) :
    (s.skillKvGc skill n).skillKv.lookup k =
      (s.skillKv.lookup k).filter (fun row => !(k.1 = skill && row.timestampSec ≤ asI64 n)) :=
  Table.lookup_keep_eq _ _ _

theorem skillKv_gc_other (s : Store) {skill : Text} (n : UInt64) {k : Text × Text} (hk : k.1 ≠ skill) :
    (s.skillKvGc skill n).skillKv.lookup k = s.skillKv.lookup k := by
  rw [skillKv_gc]
  cases s.skillKv.lookup k with
  | none => rfl
  | some row => simp [Option.filter, hk]

theorem skillKv_gc_after (s : Store) {skill : Text} {n : UInt64} {k : Text × Text} {row : KvRow}
    (hrow : s.skillKv.lookup k = some row) (hstamp : asI64 n < row.timestampSec) :
    (s.skillKvGc skill n).skillKv.lookup k = some row := by
  have hnot : ¬ row.timestampSec ≤ asI64 n := by omega
  rw [skillKv_gc, hrow]
  simp [Option.filter, hnot]

theorem skillKv_gc_due (s : Store) {skill key : Text} {n : UInt64} {row : KvRow}
    (hrow : s.skillKv.lookup (skill, key) = some row) (hstamp : row.timestampSec ≤ asI64 n) :
    (s.skillKvGc skill n).skillKv.lookup (skill, key) = none := by
  rw [skillKv_gc, hrow]
  simp [Option.filter, hstamp]

/-! ## The temporary store -/

theorem tmp_tmpSet (s : Store) (now : UInt64) (skill key : Text) (val : Bytes) (e : UInt64) (k : Text × Text) :
    (s.tmpSet now skill key val e).tmp.lookup k = if k = (skill, key) then some (now + e, val) else s.tmp.lookup k :=
  Table.lookup_insert_eq _ _ _ _

/-- A read answers from what its key holds and the second it is made at. -/
theorem tmpGet_value (s : Store) (now : UInt64) (skill key : Text) :
    (s.tmpGet now skill key).2 =
      ((s.tmp.lookup (skill, key)).filter (fun e => !(now ≥ e.1))).map (·.2) := by
  unfold tmpGet
  cases s.tmp.lookup (skill, key) with
  | none => rfl
  | some e =>
    by_cases hexpired : now ≥ e.1
    · simp [Option.filter, hexpired]
    · simp [Option.filter, hexpired]

/-- What a read leaves: its own key's entry goes if it has expired. -/
theorem tmp_tmpGet (s : Store) (now : UInt64) (skill key : Text) (k : Text × Text) :
    (s.tmpGet now skill key).1.tmp.lookup k =
      (s.tmp.lookup k).filter (fun e => !(k = (skill, key) && now ≥ e.1)) := by
  unfold tmpGet
  cases hentry : s.tmp.lookup (skill, key) with
  | none =>
    by_cases hk : k = (skill, key)
    · subst hk
      simp [hentry]
    · cases s.tmp.lookup k <;> simp [Option.filter, hk]
  | some e =>
    by_cases hexpired : now ≥ e.1
    · simp only [hexpired, if_true, Table.lookup_erase_eq]
      by_cases hk : k = (skill, key)
      · subst hk
        simp [hentry, Option.filter, hexpired]
      · cases s.tmp.lookup k <;> simp [Option.filter, hk]
    · simp only [hexpired, if_false]
      by_cases hk : k = (skill, key)
      · subst hk
        simp [hentry, Option.filter, hexpired]
      · cases s.tmp.lookup k <;> simp [Option.filter, hk]

end Store

end AthenaVoice.Storage
