import AthenaVoice.Lib.Machine
import AthenaVoice.Lib.Slots
import AthenaVoice.Storage.SkillStore

/-
  The temporary store under interleaving — `tmp/mod.rs`

  Every operation on the map is one step. `tmp_set` reads the clock, adds and
  inserts; `tmp_get` copies the entry it finds, reads the clock, and removes the
  key if the copy has expired, so another call may run between any two of
  these. The sum of `tmp_set` is a plain `+` on u64, whose second operand a
  skill chooses: it panics in a build that checks arithmetic and wraps in one
  that does not. `tmp_gc` takes the second it goes by from its caller. The clock
  does not go back.

  What is proved:
    1. `kept_step` — what keeps every value until it expires.
    2. `as_promised_iff` — in a run, values are returned until they expire and no
       removal takes a newer entry exactly when no sum leaves u64, no collection
       goes by a second to come that an entry expires at, and no entry is set
       between a read's lookup and its removal of the key.

  Correspondence (Rust ↔ Lean):
    `tmp_set`   the actions `tmpSet` (the clock) and `insert` (the sum, the map)
    `tmp_get`   the actions `tmpGet` (the map), `compare` (the clock), `remove`
    `tmp_gc`    the action `tmpGc`
-/

namespace AthenaVoice.Storage

open Lib

/-- `a + b` on u64; `none` is the panic of a build that checks arithmetic. -/
def addU64 (checks : Bool) (a b : UInt64) : Option UInt64 :=
  if checks && decide (2 ^ 64 ≤ a.toNat + b.toNat) then none else some (a + b)

def Store.tmpGc (s : Store) (nowSec : UInt64) : Store :=
  { s with tmp := Table.keep s.tmp (fun _ entry => entry.1 > nowSec) }

abbrev TmpKey := Text × Text

/-- A call in progress: a `tmp_set` that has read the clock, a `tmp_get` that has
copied an entry, one that has found its copy expired. -/
inductive TmpCall where
  | setting (key : TmpKey) (val : Bytes) (expiresSec now : UInt64)
  | found (key : TmpKey) (expiresAt : UInt64) (val : Bytes)
  | expired (key : TmpKey) (expiresAt : UInt64) (val : Bytes)
  | over
  deriving DecidableEq

/-- The store, the second it is, and the calls in progress. -/
structure TmpRun where
  store : Store
  clock : UInt64
  calls : List TmpCall

/-- A step; `i` is the place of a call in progress. -/
inductive TmpAction where
  | tick (time : UInt64)
  | tmpSet (key : TmpKey) (val : Bytes) (expiresSec : UInt64)
  | insert (i : Nat)
  | tmpGet (key : TmpKey)
  | compare (i : Nat)
  | remove (i : Nat)
  | tmpGc (nowSec : UInt64)
  deriving DecidableEq

/-- What a step does: a value set at `now` is in the map; a sum panicked; a read
found an entry at `now`, answered by it, or removed what its key held. -/
inductive TmpObs where
  | stored (key : TmpKey) (val : Bytes) (now expiresSec : UInt64)
  | panicked
  | looked (i : Nat) (key : TmpKey) (now : UInt64) (entry : Option (UInt64 × Bytes))
  | answered (i : Nat) (now expiresAt : UInt64) (val : Bytes) (answer : Option Bytes)
  | removed (i : Nat) (key : TmpKey) (taken : Option (UInt64 × Bytes))
  deriving DecidableEq

namespace TmpRun

/-- Nothing stored, nobody calling. -/
def new (clock : UInt64) : TmpRun := { store := .new, clock := clock, calls := [] }

def step (checks : Bool) (s : TmpRun) : TmpAction → Option (TmpRun × List TmpObs)
  | .tick time => if s.clock ≤ time then some ({ s with clock := time }, []) else none
  | .tmpSet key val expiresSec => some ({ s with calls := s.calls ++ [.setting key val expiresSec s.clock] }, [])
  | .insert i =>
    match s.calls[i]? with
    | some (.setting key val expiresSec now) =>
      -- the sum panics in a checked build, and wraps in the other
      match addU64 checks now expiresSec with
      | some expiresAt =>
        some ({ s with store := { s.store with tmp := s.store.tmp.insert key (expiresAt, val) },
                       calls := s.calls.set i .over }, [.stored key val now expiresSec])
      | none => some ({ s with calls := s.calls.set i .over }, [.panicked])
    | _ => none
  | .tmpGet key =>
    match s.store.tmp.lookup key with
    | some (expiresAt, val) =>
      some ({ s with calls := s.calls ++ [.found key expiresAt val] },
        [.looked s.calls.length key s.clock (some (expiresAt, val))])
    | none => some ({ s with calls := s.calls ++ [.over] }, [.looked s.calls.length key s.clock none])
  | .compare i =>
    match s.calls[i]? with
    | some (.found key expiresAt val) =>
      if s.clock ≥ expiresAt then
        some ({ s with calls := s.calls.set i (.expired key expiresAt val) },
          [.answered i s.clock expiresAt val none])
      else some ({ s with calls := s.calls.set i .over }, [.answered i s.clock expiresAt val (some val)])
    | _ => none
  | .remove i =>
    match s.calls[i]? with
    | some (.expired key _ _) =>
      some ({ s with store := { s.store with tmp := s.store.tmp.erase key }, calls := s.calls.set i .over },
        [.removed i key (s.store.tmp.lookup key)])
    | _ => none
  | .tmpGc nowSec => some ({ s with store := s.store.tmpGc nowSec }, [])

/-- The machine of the calls in progress, in a build of either kind. -/
def machine (checks : Bool) : Machine TmpRun TmpAction TmpObs := { step := step checks }

end TmpRun

/-! ## What is promised -/

/-- The last value set under the key, the second it was set at, and its expiry. -/
def lastSet (key : TmpKey) (h : List TmpObs) : Option (Bytes × UInt64 × UInt64) :=
  h.foldl (fun last o => match o with
    | .stored k val now expiresSec => if k = key then some (val, now, expiresSec) else last
    | _ => last) none

/-- The key was set after the lookup of read `i`. -/
def setSince (i : Nat) (key : TmpKey) (h : List TmpObs) : Bool :=
  h.foldl (fun b o => match o with
    | .looked j _ _ _ => if j = i then false else b
    | .stored k _ _ _ => b || decide (k = key)
    | _ => b) false

/-- What a step may do after a history: a lookup finds the value promised, an
answer goes by the entry found, a removal takes no entry newer than that, and
no sum panics. -/
def EventKept (before : List TmpObs) : TmpObs → Prop
  | .stored _ _ _ _ => True
  | .panicked => False
  | .looked _ key now entry => ∀ val t expiresSec, lastSet key before = some (val, t, expiresSec) →
      now.toNat < t.toNat + expiresSec.toNat →
        ∃ expiresAt, entry = some (expiresAt, val) ∧ expiresAt.toNat = t.toNat + expiresSec.toNat
  | .answered _ now expiresAt val answer => answer = if now < expiresAt then some val else none
  | .removed i key taken => taken = none ∨ setSince i key before = false

/-- So far everything was as promised, and a read would now return what is: the
last value set, until the second it expires. -/
def AsPromised (h : List TmpObs) (s : TmpRun) : Prop :=
  Machine.Recorded EventKept h ∧
    ∀ (key : TmpKey) (val : Bytes) (t expiresSec : UInt64), lastSet key h = some (val, t, expiresSec) →
      s.clock.toNat < t.toNat + expiresSec.toNat → (s.store.tmpGet s.clock key.1 key.2).2 = some val

/-- The sum of a `tmp_set` fits u64; a removal finds its key gone, or not set
again since it was looked up; a collection goes by no second to come that an
entry expires at or before. -/
def Careful (h : List TmpObs) (s : TmpRun) : TmpAction → Prop
  | .insert i => ∀ key val expiresSec now, s.calls[i]? = some (.setting key val expiresSec now) →
      now.toNat + expiresSec.toNat < 2 ^ 64
  | .remove i => ∀ key expiresAt val, s.calls[i]? = some (.expired key expiresAt val) →
      s.store.tmp.lookup key = none ∨ setSince i key h = false
  | .tmpGc nowSec => ∀ key expiresAt val, s.store.tmp.lookup key = some (expiresAt, val) →
      s.clock < expiresAt → nowSec < expiresAt
  | _ => True

/-! ## One operation -/

theorem addU64_of_lt (checks : Bool) {a b : UInt64} (h : a.toNat + b.toNat < 2 ^ 64) :
    addU64 checks a b = some (a + b) := by
  unfold addU64
  rw [if_neg]
  simp only [Bool.and_eq_true, decide_eq_true_eq, not_and]
  intro _
  omega

theorem toNat_add_of_lt {a b : UInt64} (h : a.toNat + b.toNat < 2 ^ 64) : (a + b).toNat = a.toNat + b.toNat := by
  rw [UInt64.toNat_add]
  exact Nat.mod_eq_of_lt h

theorem addU64_of_le (checks : Bool) {a b : UInt64} (h : 2 ^ 64 ≤ a.toNat + b.toNat) :
    addU64 checks a b = none ∨ ∃ c, addU64 checks a b = some c ∧ c.toNat < a.toNat := by
  have hb := UInt64.toNat_lt b
  have ha := UInt64.toNat_lt a
  cases checks with
  | true =>
    apply Or.inl
    unfold addU64
    rw [if_pos]
    exact decide_eq_true h
  | false =>
    refine Or.inr ⟨a + b, rfl, ?_⟩
    rw [UInt64.toNat_add]
    omega

theorem addU64_le {checks : Bool} {a b c : UInt64} (h : addU64 checks a b = some c) :
    c.toNat ≤ a.toNat + b.toNat := by
  unfold addU64 at h
  split at h
  · cases h
  · cases h
    rw [UInt64.toNat_add]
    exact Nat.mod_le _ _

theorem tmp_tmpGc (s : Store) (nowSec : UInt64) (k : TmpKey) :
    (s.tmpGc nowSec).tmp.lookup k = (s.tmp.lookup k).filter (fun e => e.1 > nowSec) :=
  Table.lookup_keep_eq _ _ _

theorem tmpGet_of_lookup {s : Store} {now expiresAt : UInt64} {key : TmpKey} {val : Bytes}
    (hentry : s.tmp.lookup key = some (expiresAt, val)) :
    (s.tmpGet now key.1 key.2).2 = if now < expiresAt then some val else none := by
  rw [Store.tmpGet_value, hentry]
  by_cases hlt : now < expiresAt
  · have hnot : ¬ now ≥ expiresAt := UInt64.not_le.mpr hlt
    simp [Option.filter, hlt, hnot]
  · have hge : now ≥ expiresAt := UInt64.not_lt.mp hlt
    simp [Option.filter, hlt, hge]

theorem lastSet_snoc (key : TmpKey) (h : List TmpObs) (o : TmpObs) :
    lastSet key (h ++ [o]) = match o with
      | .stored k val now expiresSec => if k = key then some (val, now, expiresSec) else lastSet key h
      | _ => lastSet key h := by
  unfold lastSet
  rw [List.foldl_append]
  cases o <;> rfl

theorem setSince_snoc (i : Nat) (key : TmpKey) (h : List TmpObs) (o : TmpObs) :
    setSince i key (h ++ [o]) = match o with
      | .looked j _ _ _ => if j = i then false else setSince i key h
      | .stored k _ _ _ => setSince i key h || decide (k = key)
      | _ => setSince i key h := by
  unfold setSince
  rw [List.foldl_append]
  cases o <;> rfl

theorem setSince_looked (i j : Nat) (key k : TmpKey) (h : List TmpObs) (now : UInt64)
    (entry : Option (UInt64 × Bytes)) :
    setSince i key (h ++ [.looked j k now entry]) = if j = i then false else setSince i key h :=
  setSince_snoc i key h _

namespace TmpRun

variable {checks : Bool}

inductive Turn (checks : Bool) (s : TmpRun) : TmpAction → TmpRun → List TmpObs → Prop where
  | tick {time} (hle : s.clock ≤ time) : Turn checks s (.tick time) { s with clock := time } []
  | setting {key val expiresSec} :
    Turn checks s (.tmpSet key val expiresSec) { s with calls := s.calls ++ [.setting key val expiresSec s.clock] } []
  | stored {i key val expiresSec now expiresAt} (hi : s.calls[i]? = some (.setting key val expiresSec now))
    (hsum : addU64 checks now expiresSec = some expiresAt) :
    Turn checks s (.insert i) { s with store := { s.store with tmp := s.store.tmp.insert key (expiresAt, val) },
                                       calls := s.calls.set i .over } [.stored key val now expiresSec]
  | panicked {i key val expiresSec now} (hi : s.calls[i]? = some (.setting key val expiresSec now))
    (hsum : addU64 checks now expiresSec = none) :
    Turn checks s (.insert i) { s with calls := s.calls.set i .over } [.panicked]
  | found {key expiresAt val} (hentry : s.store.tmp.lookup key = some (expiresAt, val)) :
    Turn checks s (.tmpGet key) { s with calls := s.calls ++ [.found key expiresAt val] }
      [.looked s.calls.length key s.clock (some (expiresAt, val))]
  | missed {key} (hentry : s.store.tmp.lookup key = none) :
    Turn checks s (.tmpGet key) { s with calls := s.calls ++ [.over] } [.looked s.calls.length key s.clock none]
  | expired {i key expiresAt val} (hi : s.calls[i]? = some (.found key expiresAt val)) (hge : expiresAt ≤ s.clock) :
    Turn checks s (.compare i) { s with calls := s.calls.set i (.expired key expiresAt val) }
      [.answered i s.clock expiresAt val none]
  | answered {i key expiresAt val} (hi : s.calls[i]? = some (.found key expiresAt val)) (hlt : s.clock < expiresAt) :
    Turn checks s (.compare i) { s with calls := s.calls.set i .over } [.answered i s.clock expiresAt val (some val)]
  | removed {i key expiresAt val} (hi : s.calls[i]? = some (.expired key expiresAt val)) :
    Turn checks s (.remove i) { s with store := { s.store with tmp := s.store.tmp.erase key },
                                       calls := s.calls.set i .over } [.removed i key (s.store.tmp.lookup key)]
  | collected {nowSec} : Turn checks s (.tmpGc nowSec) { s with store := s.store.tmpGc nowSec } []

theorem step_turn {s s' : TmpRun} {a : TmpAction} {o : List TmpObs} (h : step checks s a = some (s', o)) :
    Turn checks s a s' o := by
  cases a with
  | tick time =>
    simp only [step] at h
    split at h
    · rename_i hle
      cases h
      exact .tick hle
    · cases h
  | tmpSet key val expiresSec =>
    cases h
    exact .setting
  | insert i =>
    simp only [step] at h
    split at h
    · rename_i hi
      split at h
      · rename_i hsum
        cases h
        exact .stored hi hsum
      · rename_i hsum
        cases h
        exact .panicked hi hsum
    · cases h
  | tmpGet key =>
    simp only [step] at h
    split at h
    · rename_i hentry
      cases h
      exact .found hentry
    · rename_i hentry
      cases h
      exact .missed hentry
  | compare i =>
    simp only [step] at h
    split at h
    · rename_i hi
      split at h
      · rename_i hge
        cases h
        exact .expired hi hge
      · rename_i hnot
        cases h
        exact .answered hi (UInt64.not_le.mp hnot)
    · cases h
  | remove i =>
    simp only [step] at h
    split at h
    · rename_i hi
      cases h
      exact .removed hi
    · cases h
  | tmpGc nowSec =>
    cases h
    exact .collected

end TmpRun

/-! ## What a run keeps -/

/-- Entries carry the exact second they expire at; a read that looked its key up
and has not seen it set since finds it gone or as it was. -/
structure Kept (h : List TmpObs) (s : TmpRun) : Prop where
  recorded : Machine.Recorded EventKept h
  entries : ∀ (key : TmpKey) (expiresAt : UInt64) (val : Bytes), s.store.tmp.lookup key = some (expiresAt, val) →
    ∃ t expiresSec, lastSet key h = some (val, t, expiresSec) ∧ expiresAt.toNat = t.toNat + expiresSec.toNat
  held : ∀ (key : TmpKey) (val : Bytes) (t expiresSec : UInt64), lastSet key h = some (val, t, expiresSec) →
    s.clock.toNat < t.toNat + expiresSec.toNat →
      ∃ expiresAt, s.store.tmp.lookup key = some (expiresAt, val) ∧ expiresAt.toNat = t.toNat + expiresSec.toNat
  found : ∀ (i : Nat) (key : TmpKey) (expiresAt : UInt64) (val : Bytes),
    s.calls[i]? = some (.found key expiresAt val) ∨ s.calls[i]? = some (.expired key expiresAt val) →
      setSince i key h = false →
        s.store.tmp.lookup key = none ∨ s.store.tmp.lookup key = some (expiresAt, val)
  expired : ∀ (i : Nat) (key : TmpKey) (expiresAt : UInt64) (val : Bytes),
    s.calls[i]? = some (.expired key expiresAt val) → expiresAt ≤ s.clock

theorem Kept.asPromised {h : List TmpObs} {s : TmpRun} (K : Kept h s) : AsPromised h s := by
  refine ⟨K.recorded, ?_⟩
  intro key val t expiresSec hset hlt
  obtain ⟨expiresAt, hentry, hsum⟩ := K.held key val t expiresSec hset hlt
  have hbefore : s.clock < expiresAt := UInt64.lt_iff_toNat_lt.mpr (by omega)
  rw [tmpGet_of_lookup hentry, if_pos hbefore]

/-- The call holds a copy of an entry. -/
def TmpCall.isCopy : TmpCall → Bool
  | .found _ _ _ => true
  | .expired _ _ _ => true
  | _ => false

/-- Every copy held now was held before. -/
def NoNewCopy (calls calls' : List TmpCall) : Prop :=
  ∀ (i : Nat) (c : TmpCall), c.isCopy = true → calls'[i]? = some c → calls[i]? = some c

theorem noNewCopy_concat {c : TmpCall} (hc : c.isCopy = false) (calls : List TmpCall) :
    NoNewCopy calls (calls ++ [c]) := by
  intro i d hd hi
  rcases Slots.concat_cases hi with hold | ⟨-, hnew⟩
  · exact hold
  · rw [hnew, hc] at hd
    cases hd

theorem noNewCopy_over (calls : List TmpCall) (i : Nat) : NoNewCopy calls (calls.set i .over) := by
  intro j d hd hj
  rcases Slots.set_cases hj with ⟨-, hold⟩ | ⟨-, hnew⟩
  · exact hold
  · rw [hnew] at hd
    cases hd

section Steps

variable {h : List TmpObs} {s : TmpRun}

theorem Kept.found_of (K : Kept h s) {calls' : List TmpCall} (hcalls : NoNewCopy s.calls calls') {i : Nat}
    {key : TmpKey} {expiresAt : UInt64} {val : Bytes}
    (hi : calls'[i]? = some (.found key expiresAt val) ∨ calls'[i]? = some (.expired key expiresAt val))
    (hsince : setSince i key h = false) :
    s.store.tmp.lookup key = none ∨ s.store.tmp.lookup key = some (expiresAt, val) :=
  K.found i key expiresAt val (hi.imp (hcalls i _ rfl) (hcalls i _ rfl)) hsince

theorem lt_length_of_copy {calls : List TmpCall} {i : Nat} {key : TmpKey} {expiresAt : UInt64} {val : Bytes}
    (hi : calls[i]? = some (.found key expiresAt val) ∨ calls[i]? = some (.expired key expiresAt val)) :
    i < calls.length := by
  rcases hi with hi | hi
  · exact (List.getElem?_eq_some_iff.mp hi).1
  · exact (List.getElem?_eq_some_iff.mp hi).1

theorem Kept.quiet (K : Kept h s) {calls' : List TmpCall} (hcalls : NoNewCopy s.calls calls') {x : TmpObs}
    (hx : EventKept h x) (hset : ∀ key, lastSet key (h ++ [x]) = lastSet key h)
    (hsince : ∀ i key, setSince i key (h ++ [x]) = setSince i key h) :
    Kept (h ++ [x]) { s with calls := calls' } := by
  constructor
  · exact K.recorded.concat hx
  · intro key expiresAt val hentry
    rw [hset key]
    exact K.entries key expiresAt val hentry
  · intro key val t expiresSec hlast hlt
    rw [hset key] at hlast
    exact K.held key val t expiresSec hlast hlt
  · intro i key expiresAt val hi hs
    rw [hsince i key] at hs
    exact K.found_of hcalls hi hs
  · intro i key expiresAt val hi
    exact K.expired i key expiresAt val (hcalls i _ rfl hi)

theorem Kept.stored (K : Kept h s) {key : TmpKey} {val : Bytes} {now expiresSec expiresAt : UInt64}
    (hsum : expiresAt.toNat = now.toNat + expiresSec.toNat) (i : Nat) :
    Kept (h ++ [.stored key val now expiresSec])
      { s with
        store := { s.store with tmp := s.store.tmp.insert key (expiresAt, val) }
        calls := s.calls.set i .over } := by
  have hset : ∀ k, lastSet k (h ++ [.stored key val now expiresSec]) =
      if key = k then some (val, now, expiresSec) else lastSet k h := fun k => lastSet_snoc k h _
  have hlookup : ∀ k, (s.store.tmp.insert key (expiresAt, val)).lookup k =
      if k = key then some (expiresAt, val) else s.store.tmp.lookup k :=
    fun k => Table.lookup_insert_eq _ _ _ _
  constructor
  · exact K.recorded.concat trivial
  · intro k e v hentry
    have hentry' := (hlookup k).symm.trans hentry
    rw [hset k]
    by_cases hk : k = key
    · rw [if_pos hk] at hentry'
      cases hentry'
      exact ⟨now, expiresSec, if_pos hk.symm, hsum⟩
    · rw [if_neg hk] at hentry'
      rw [if_neg (Ne.symm hk)]
      exact K.entries k e v hentry'
  · intro k v t x hlast hlt
    rw [hset k] at hlast
    show ∃ e, (s.store.tmp.insert key (expiresAt, val)).lookup k = some (e, v) ∧ _
    rw [hlookup k]
    by_cases hk : k = key
    · rw [if_pos hk.symm] at hlast
      cases hlast
      exact ⟨expiresAt, if_pos hk, hsum⟩
    · rw [if_neg (Ne.symm hk)] at hlast
      rw [if_neg hk]
      exact K.held k v t x hlast hlt
  · intro j k e v hi hsince
    rw [setSince_snoc] at hsince
    simp only [Bool.or_eq_false_iff, decide_eq_false_iff_not] at hsince
    show (s.store.tmp.insert key (expiresAt, val)).lookup k = none ∨
      (s.store.tmp.insert key (expiresAt, val)).lookup k = some (e, v)
    rw [hlookup k, if_neg (Ne.symm hsince.2)]
    exact K.found_of (noNewCopy_over s.calls i) hi hsince.1
  · intro j k e v hj
    exact K.expired j k e v (noNewCopy_over s.calls i j _ rfl hj)

theorem Kept.looked (K : Kept h s) {key : TmpKey} {entry : Option (UInt64 × Bytes)}
    (hentry : s.store.tmp.lookup key = entry) {c : TmpCall}
    (hc : ∀ k e v, c = .found k e v → k = key ∧ entry = some (e, v)) (hnot : ∀ k e v, c ≠ .expired k e v) :
    Kept (h ++ [.looked s.calls.length key s.clock entry]) { s with calls := s.calls ++ [c] } := by
  have hset : ∀ k, lastSet k (h ++ [.looked s.calls.length key s.clock entry]) = lastSet k h :=
    fun k => lastSet_snoc k h _
  constructor
  · apply K.recorded.concat
    intro val t expiresSec hlast hlt
    rw [← hentry]
    exact K.held key val t expiresSec hlast hlt
  · intro k e v hk
    rw [hset k]
    exact K.entries k e v hk
  · intro k v t x hlast hlt
    rw [hset k] at hlast
    exact K.held k v t x hlast hlt
  · intro j k e v hj hsince
    rw [setSince_looked] at hsince
    rcases hj with hj | hj
    · rcases Slots.concat_cases hj with hold | ⟨-, hnew⟩
      · have hlt := lt_length_of_copy (Or.inl hold)
        rw [if_neg (by omega)] at hsince
        exact K.found j k e v (Or.inl hold) hsince
      · obtain ⟨rfl, rfl⟩ := hc k e v hnew.symm
        exact Or.inr hentry
    · rcases Slots.concat_cases hj with hold | ⟨-, hnew⟩
      · have hlt := lt_length_of_copy (Or.inr hold)
        rw [if_neg (by omega)] at hsince
        exact K.found j k e v (Or.inr hold) hsince
      · exact absurd hnew.symm (hnot k e v)
  · intro j k e v hj
    rcases Slots.concat_cases hj with hold | ⟨-, hnew⟩
    · exact K.expired j k e v hold
    · exact absurd hnew.symm (hnot k e v)

theorem Kept.expire (K : Kept h s) {i : Nat} {key : TmpKey} {expiresAt : UInt64} {val : Bytes}
    (hi : s.calls[i]? = some (.found key expiresAt val)) (hge : expiresAt ≤ s.clock) :
    Kept (h ++ [.answered i s.clock expiresAt val none])
      { s with calls := s.calls.set i (.expired key expiresAt val) } := by
  have hset : ∀ k, lastSet k (h ++ [.answered i s.clock expiresAt val none]) = lastSet k h :=
    fun k => lastSet_snoc k h _
  constructor
  · apply K.recorded.concat
    exact (if_neg (UInt64.not_lt.mpr hge)).symm
  · intro k e v hk
    rw [hset k]
    exact K.entries k e v hk
  · intro k v t x hlast hlt
    rw [hset k] at hlast
    exact K.held k v t x hlast hlt
  · intro j k e v hj hsince
    rw [setSince_snoc] at hsince
    rcases hj with hj | hj
    · rcases Slots.set_cases hj with ⟨-, hold⟩ | ⟨-, hnew⟩
      · exact K.found j k e v (Or.inl hold) hsince
      · cases hnew
    · rcases Slots.set_cases hj with ⟨-, hold⟩ | ⟨hij, hnew⟩
      · exact K.found j k e v (Or.inr hold) hsince
      · cases hnew
        exact K.found j key expiresAt val (Or.inl (hij ▸ hi)) hsince
  · intro j k e v hj
    rcases Slots.set_cases hj with ⟨-, hold⟩ | ⟨-, hnew⟩
    · exact K.expired j k e v hold
    · cases hnew
      exact hge

theorem Kept.fewer (K : Kept h s) {store : Store} (calls' : List TmpCall) (hcalls : NoNewCopy s.calls calls')
    (hstore : ∀ k, store.tmp.lookup k = s.store.tmp.lookup k ∨ store.tmp.lookup k = none)
    (hgone : ∀ (k : TmpKey) (e : UInt64) (v : Bytes), s.store.tmp.lookup k = some (e, v) →
      store.tmp.lookup k = none → e ≤ s.clock) :
    Kept h { s with store := store, calls := calls' } := by
  constructor
  · exact K.recorded
  · intro k e v hk
    rcases hstore k with hsame | hnone
    · exact K.entries k e v (hsame ▸ hk)
    · cases hnone.symm.trans hk
  · intro k v t x hlast hlt
    have hbefore : s.clock.toNat < t.toNat + x.toNat := hlt
    obtain ⟨e, he, hsum⟩ := K.held k v t x hlast hbefore
    rcases hstore k with hsame | hnone
    · exact ⟨e, hsame.trans he, hsum⟩
    · have hle := UInt64.le_iff_toNat_le.mp (hgone k e v he hnone)
      exact absurd hle (by omega)
  · intro j k e v hj hsince
    rcases hstore k with hsame | hnone
    · rw [show ({ s with store := store, calls := calls' } : TmpRun).store.tmp.lookup k =
        s.store.tmp.lookup k from hsame]
      exact K.found_of hcalls hj hsince
    · exact Or.inl hnone
  · intro j k e v hj
    exact K.expired j k e v (hcalls j _ rfl hj)

theorem Kept.removed (K : Kept h s) {i : Nat} {key : TmpKey} {expiresAt : UInt64} {val : Bytes}
    (hi : s.calls[i]? = some (.expired key expiresAt val))
    (hcareful : s.store.tmp.lookup key = none ∨ setSince i key h = false) :
    Kept (h ++ [.removed i key (s.store.tmp.lookup key)])
      { s with store := { s.store with tmp := s.store.tmp.erase key }, calls := s.calls.set i .over } := by
  have hfound := K.found i key expiresAt val (Or.inr hi)
  have hevent : EventKept h (.removed i key (s.store.tmp.lookup key)) := hcareful
  have hquiet := K.quiet (fun j c _ hj => hj) hevent (fun k => lastSet_snoc k h _) (fun j k => setSince_snoc j k h _)
  apply hquiet.fewer _ (noNewCopy_over s.calls i)
  · intro k
    show (s.store.tmp.erase key).lookup k = s.store.tmp.lookup k ∨ (s.store.tmp.erase key).lookup k = none
    rw [Table.lookup_erase_eq]
    by_cases hk : k = key
    · exact Or.inr (if_pos hk)
    · exact Or.inl (if_neg hk)
  · intro k e v hk hnone
    have herase : (s.store.tmp.erase key).lookup k = none := hnone
    rw [Table.lookup_erase_eq] at herase
    by_cases hkey : k = key
    · -- the entry taken is the copy that has expired
      rw [hkey] at hk
      rcases hcareful with hgone | hsince
      · cases hgone.symm.trans hk
      · rcases hfound hsince with hgone | hcopy
        · cases hgone.symm.trans hk
        · cases hcopy.symm.trans hk
          exact K.expired i key expiresAt val hi
    · rw [if_neg hkey] at herase
      cases herase.symm.trans hk

theorem Kept.collected (K : Kept h s) {nowSec : UInt64}
    (hcareful : ∀ key expiresAt val, s.store.tmp.lookup key = some (expiresAt, val) → s.clock < expiresAt →
      nowSec < expiresAt) : Kept h { s with store := s.store.tmpGc nowSec } := by
  apply K.fewer s.calls (fun j c _ hj => hj)
  · intro k
    rw [tmp_tmpGc]
    cases s.store.tmp.lookup k with
    | none => exact Or.inl rfl
    | some entry =>
      rw [Option.filter]
      split
      · exact Or.inl rfl
      · exact Or.inr rfl
  · intro k e v hk hnone
    rw [tmp_tmpGc, hk, Option.filter] at hnone
    split at hnone
    · cases hnone
    · rename_i hnot
      by_contra hlater
      exact hnot (decide_eq_true (hcareful k e v hk (UInt64.not_le.mp hlater)))

/-- **One step.** A careful step keeps every value until it expires. -/
theorem kept_step {checks : Bool} {h o : List TmpObs} {s s' : TmpRun} {a : TmpAction} (K : Kept h s)
    (hcareful : Careful h s a) (hs : TmpRun.Turn checks s a s' o) : Kept (h ++ o) s' := by
  cases hs with
  | @tick time hle =>
    have hclock : s.clock.toNat ≤ time.toNat := UInt64.le_iff_toNat_le.mp hle
    rw [List.append_nil]
    refine ⟨K.recorded, K.entries, ?_, K.found, ?_⟩
    · intro key val t expiresSec hset hlt
      exact K.held key val t expiresSec hset (Nat.lt_of_le_of_lt hclock hlt)
    · intro i key expiresAt val hi
      exact UInt64.le_trans (K.expired i key expiresAt val hi) hle
  | @setting key val expiresSec =>
    have hcalls := noNewCopy_concat (c := .setting key val expiresSec s.clock) rfl s.calls
    rw [List.append_nil]
    refine ⟨K.recorded, K.entries, K.held, ?_, ?_⟩
    · intro i k expiresAt v hi hsince
      exact K.found_of hcalls hi hsince
    · intro i k expiresAt v hi
      exact K.expired i k expiresAt v (hcalls i _ rfl hi)
  | @stored i key val expiresSec now expiresAt hi hsum =>
    -- the sum fits, so the date is the one asked for
    have hfits := hcareful key val expiresSec now hi
    rw [addU64_of_lt checks hfits] at hsum
    cases hsum
    exact K.stored (toNat_add_of_lt hfits) i
  | @panicked i key val expiresSec now hi hsum =>
    rw [addU64_of_lt checks (hcareful key val expiresSec now hi)] at hsum
    cases hsum
  | @found key expiresAt val hentry =>
    apply K.looked hentry
    · intro k e v hc
      cases hc
      exact ⟨rfl, rfl⟩
    · exact fun k e v hc => (by cases hc)
  | missed hentry =>
    apply K.looked hentry
    · exact fun k e v hc => (by cases hc)
    · exact fun k e v hc => (by cases hc)
  | expired hi hge => exact K.expire hi hge
  | @answered i key expiresAt val hi hlt =>
    apply K.quiet (noNewCopy_over s.calls i)
    · exact (if_pos hlt).symm
    · exact fun k => lastSet_snoc k h _
    · exact fun j k => setSince_snoc j k h _
  | @removed i key expiresAt val hi =>
    exact K.removed hi (hcareful key expiresAt val hi)
  | collected =>
    rw [List.append_nil]
    exact K.collected hcareful

theorem kept_new (clock : UInt64) : Kept [] (.new clock) :=
  ⟨Machine.recorded_nil _, fun k e v hk => (by cases hk), fun k v t x hlast => (by cases hlast),
    fun i k e v hi => hi.elim (fun hi => (by cases hi)) (fun hi => (by cases hi)), fun i k e v hi => (by cases hi)⟩

/-! ## What a careless step breaks -/

/-- An entry expires no later than promised, and calls have read a past second. -/
structure Dated (h : List TmpObs) (s : TmpRun) : Prop where
  entries : ∀ (key : TmpKey) (expiresAt : UInt64) (val : Bytes), s.store.tmp.lookup key = some (expiresAt, val) →
    ∃ t expiresSec, lastSet key h = some (val, t, expiresSec) ∧ expiresAt.toNat ≤ t.toNat + expiresSec.toNat
  setting : ∀ (i : Nat) (key : TmpKey) (val : Bytes) (expiresSec now : UInt64),
    s.calls[i]? = some (.setting key val expiresSec now) → now ≤ s.clock

theorem Dated.quiet (D : Dated h s) {s' : TmpRun} {o : List TmpObs}
    (hset : ∀ key, lastSet key (h ++ o) = lastSet key h)
    (hstore : ∀ k entry, s'.store.tmp.lookup k = some entry → s.store.tmp.lookup k = some entry)
    (hclock : s.clock ≤ s'.clock) (hcalls : ∀ (i : Nat) (c : TmpCall), s'.calls[i]? = some c →
      s.calls[i]? = some c ∨ ∀ key val expiresSec now, c = .setting key val expiresSec now → now ≤ s'.clock) :
    Dated (h ++ o) s' := by
  constructor
  · intro key expiresAt val hentry
    rw [hset key]
    exact D.entries key expiresAt val (hstore key _ hentry)
  · intro i key val expiresSec now hi
    rcases hcalls i _ hi with hold | hnew
    · exact UInt64.le_trans (D.setting i key val expiresSec now hold) hclock
    · exact hnew key val expiresSec now rfl

theorem dated_step {checks : Bool} {o : List TmpObs} {s' : TmpRun} {a : TmpAction} (D : Dated h s)
    (hs : TmpRun.Turn checks s a s' o) : Dated (h ++ o) s' := by
  have hsame : ∀ key, lastSet key (h ++ []) = lastSet key h := fun key => by rw [List.append_nil]
  -- a call that moves on is not one that is about to store, unless it was
  have hset : ∀ (i : Nat) (c : TmpCall), (∀ key val expiresSec now, c ≠ .setting key val expiresSec now) →
      ∀ (j : Nat) (d : TmpCall), (s.calls.set i c)[j]? = some d →
        s.calls[j]? = some d ∨ ∀ key val expiresSec now, d = .setting key val expiresSec now →
          now ≤ s.clock := by
    intro i c hc j d hj
    rcases Slots.set_cases hj with ⟨-, hold⟩ | ⟨-, hnew⟩
    · exact Or.inl hold
    · exact Or.inr (fun key val expiresSec now hd => absurd (hnew.symm.trans hd) (hc key val expiresSec now))
  have hconcat : ∀ (c : TmpCall),
    (∀ key val expiresSec now, c = .setting key val expiresSec now → now ≤ s.clock) →
      ∀ (j : Nat) (d : TmpCall), (s.calls ++ [c])[j]? = some d →
        s.calls[j]? = some d ∨ ∀ key val expiresSec now, d = .setting key val expiresSec now →
          now ≤ s.clock := by
    intro c hc j d hj
    rcases Slots.concat_cases hj with hold | ⟨-, hnew⟩
    · exact Or.inl hold
    · exact Or.inr (fun key val expiresSec now hd => hc key val expiresSec now (hnew.symm.trans hd))
  cases hs with
  | tick hle => exact D.quiet hsame (fun k e hk => hk) hle (fun i c hi => Or.inl hi)
  | setting =>
    refine D.quiet hsame (fun k e hk => hk) (UInt64.le_refl _) ?_
    apply hconcat
    intro k v x n hc
    cases hc
    exact UInt64.le_refl _
  | @stored i key val expiresSec now expiresAt hi hsum =>
    -- the only write: the new entry's date is that of the set now last
    constructor
    · intro k e v hentry
      have hentry' := (Table.lookup_insert_eq s.store.tmp key k (expiresAt, val)).symm.trans hentry
      rw [lastSet_snoc]
      by_cases hk : k = key
      · rw [if_pos hk] at hentry'
        cases hentry'
        exact ⟨now, expiresSec, if_pos hk.symm, addU64_le hsum⟩
      · rw [if_neg hk] at hentry'
        obtain ⟨t, x, hlast, hle⟩ := D.entries k e v hentry'
        exact ⟨t, x, (if_neg (Ne.symm hk)).trans hlast, hle⟩
    · intro j k v x n hj
      rcases hset i .over (fun k v x n => TmpCall.noConfusion) j _ hj with hold | hnew
      · exact D.setting j k v x n hold
      · exact hnew k v x n rfl
  | panicked hi hsum =>
    exact D.quiet (fun k => lastSet_snoc k h _) (fun k e hk => hk) (UInt64.le_refl _)
      (hset _ .over (fun k v x n => TmpCall.noConfusion))
  | found hentry =>
    exact D.quiet (fun k => lastSet_snoc k h _) (fun k e hk => hk) (UInt64.le_refl _)
      (hconcat _ (fun k v x n => TmpCall.noConfusion))
  | missed hentry =>
    exact D.quiet (fun k => lastSet_snoc k h _) (fun k e hk => hk) (UInt64.le_refl _)
      (hconcat _ (fun k v x n => TmpCall.noConfusion))
  | expired hi hge =>
    exact D.quiet (fun k => lastSet_snoc k h _) (fun k e hk => hk) (UInt64.le_refl _)
      (hset _ _ (fun k v x n => TmpCall.noConfusion))
  | answered hi hlt =>
    exact D.quiet (fun k => lastSet_snoc k h _) (fun k e hk => hk) (UInt64.le_refl _)
      (hset _ .over (fun k v x n => TmpCall.noConfusion))
  | @removed i key expiresAt val hi =>
    refine D.quiet (fun k => lastSet_snoc k h _) ?_ (UInt64.le_refl _)
      (hset _ .over (fun k v x n => TmpCall.noConfusion))
    intro k e hk
    have herase : (s.store.tmp.erase key).lookup k = some e := hk
    rw [Table.lookup_erase_eq] at herase
    split at herase
    · cases herase
    · exact herase
  | collected =>
    refine D.quiet hsame ?_ (UInt64.le_refl _) (fun i c hi => Or.inl hi)
    intro k e hk
    rw [tmp_tmpGc] at hk
    exact (Option.filter_eq_some_iff.mp hk).1

theorem dated_new (clock : UInt64) : Dated [] (.new clock) :=
  ⟨fun k e v hk => (by cases hk), fun i k v x n hi => (by cases hi)⟩

theorem careful_of_next {checks : Bool} {a : TmpAction} (D : Dated h s)
    (hnext : ∀ s' o, TmpRun.step checks s a = some (s', o) → AsPromised (h ++ o) s') : Careful h s a := by
  cases a with
  | insert i =>
    intro key val expiresSec now hi
    by_contra hover
    have hclock := UInt64.le_iff_toNat_le.mp (D.setting i key val expiresSec now hi)
    rcases addU64_of_le checks (Nat.le_of_not_lt hover) with hnone | ⟨expiresAt, hsome, hlt⟩
    · have hstep : TmpRun.step checks s (.insert i) = some ({ s with calls := s.calls.set i .over }, [.panicked]) := by
        simp only [TmpRun.step, hi, hnone]
      exact (hnext _ _ hstep).1 h .panicked [] rfl
    · -- the entry has expired before it is set
      have hstep : TmpRun.step checks s (.insert i) =
          some ({ s with store := { s.store with tmp := s.store.tmp.insert key (expiresAt, val) },
                         calls := s.calls.set i .over }, [.stored key val now expiresSec]) := by
        simp only [TmpRun.step, hi, hsome]
      have hbound := UInt64.toNat_lt s.clock
      have hread := (hnext _ _ hstep).2 key val now expiresSec ((lastSet_snoc key h _).trans (if_pos rfl))
        (show s.clock.toNat < _ by omega)
      rw [tmpGet_of_lookup ((Table.lookup_insert_eq _ _ _ _).trans (if_pos rfl)), if_neg] at hread
      · cases hread
      · rw [UInt64.lt_iff_toNat_lt]
        show ¬ s.clock.toNat < expiresAt.toNat
        omega
  | remove i =>
    intro key expiresAt val hi
    have hstep : TmpRun.step checks s (.remove i) =
        some ({ s with store := { s.store with tmp := s.store.tmp.erase key }, calls := s.calls.set i .over },
          [.removed i key (s.store.tmp.lookup key)]) := by
      simp only [TmpRun.step, hi]
    exact (hnext _ _ hstep).1 h _ [] rfl
  | tmpGc nowSec =>
    intro key expiresAt val hentry hbefore
    by_contra hafter
    obtain ⟨t, expiresSec, hlast, hle⟩ := D.entries key expiresAt val hentry
    have hlt := UInt64.lt_iff_toNat_lt.mp hbefore
    have hread := (hnext _ [] rfl).2 key val t expiresSec (by rw [List.append_nil]; exact hlast)
      (show s.clock.toNat < _ by omega)
    have hgone : (s.store.tmpGc nowSec).tmp.lookup key = none := by
      rw [tmp_tmpGc, hentry, Option.filter, if_neg]
      simpa using hafter
    rw [Store.tmpGet_value, show (s.store.tmpGc nowSec).tmp.lookup (key.1, key.2) = none from hgone] at hread
    cases hread
  | _ => trivial

end Steps

/-! ## Runs -/

/-- **The temporary store.** In every run, in a build of either kind, all is as
promised at every moment exactly when every step is careful. -/
theorem as_promised_iff (checks : Bool) (clock : UInt64) (as : List TmpAction) :
    (TmpRun.machine checks).Throughout AsPromised [] (.new clock) as ↔
      (TmpRun.machine checks).Along Careful [] (.new clock) as := by
  constructor
  · intro hpromised
    rw [Machine.throughout_iff_along as [] _ (kept_new clock).asPromised] at hpromised
    apply Machine.along_imp (P := Dated) _ _ as [] _ (dated_new clock) hpromised
    · intro h s a s' o D _ hs
      exact dated_step D (TmpRun.step_turn hs)
    · intro h s a D hnext
      exact careful_of_next D hnext
  · intro hcareful
    apply Machine.throughout_of_along (P := Kept) _ (fun h s K => K.asPromised) as [] _ (kept_new clock) hcareful
    intro h s a s' o K hc hs
    exact kept_step K hc (TmpRun.step_turn hs)

/-- A value set for 2^64 - 1 seconds at second 1. -/
def forEver : List TmpAction := [.tmpSet ([], []) [1] 18446744073709551615, .insert 0]

/-- A read copies an entry at second 10, the key is set anew at second 20, and
the read removes what the key holds. -/
def removedLate : List TmpAction :=
  [.tmpSet ([], []) [1] 5, .insert 0, .tick 20, .tmpGet ([], []), .compare 1, .tmpSet ([], []) [2] 100,
    .insert 2, .remove 1]

/-- The first value is gone at once in a build that wraps, and panics in one that
checks; the second is gone 100 seconds early. -/
theorem not_as_promised :
    ¬ (TmpRun.machine false).Throughout AsPromised [] (.new 1) forEver ∧
      ¬ (TmpRun.machine true).Throughout AsPromised [] (.new 1) forEver ∧
      ¬ (TmpRun.machine true).Throughout AsPromised [] (.new 10) removedLate := by
  refine ⟨fun hp => ?_, fun hp => ?_, fun hp => ?_⟩
  · have hread := (Machine.throughout_last forEver [] (TmpRun.new 1) _ _ hp rfl).2 ([], []) [1] 1 18446744073709551615
      (by decide) (by decide)
    exact absurd hread (by decide)
  · have hlast := Machine.throughout_last forEver [] (TmpRun.new 1) _ _ hp rfl
    exact hlast.1 [] .panicked [] rfl
  · have hlast := Machine.throughout_last removedLate [] (TmpRun.new 10) _ _ hp rfl
    have hremoved := hlast.1
      [.stored ([], []) [1] 10 5, .looked 1 ([], []) 20 (some (15, [1])), .answered 1 20 15 [1] none,
        .stored ([], []) [2] 20 100] (.removed 1 ([], []) (some (120, [2]))) [] rfl
    exact hremoved.elim (fun h => (by cases h)) (by decide)

end AthenaVoice.Storage
