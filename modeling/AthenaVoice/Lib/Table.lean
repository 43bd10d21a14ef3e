import Mathlib.Data.List.AList
import Mathlib.Data.List.Perm.Lattice

/-
  Tables — finite maps read out in an order nobody promises

  A hash map is an association list with distinct keys; whoever iterates over
  it meets a rearrangement of its entries. `Readout` is one such choice of
  order, with the proof that it loses and repeats nothing.

  What is proved:
    1. `lookup_insert_eq`, `lookup_erase_eq` — what an update changes.
    2. `flatMap_entries` — collecting over the entries is collecting over the keys.
    3. `flatMap_at` — collecting at one key is a lookup.
    4. `lookup_keep_eq` — what is left of a key when entries are filtered.
    5. `keys_perm` — two tables with the same keys list them up to order.
-/

namespace AthenaVoice.Lib

universe u v w

/-- A finite map, as its entries in some order. -/
abbrev Table (α : Type u) (β : Type v) := AList (fun _ : α => β)

structure Readout (ε : Type u) where
  order : List ε → List ε
  complete : ∀ l, (order l).Perm l

def Readout.plain {ε : Type u} : Readout ε := ⟨id, fun l => List.Perm.refl l⟩

namespace Table

variable {α : Type u} {β : Type v} {γ : Type w} [DecidableEq α]

theorem lookup_insert_eq (t : Table α β) (a k : α) (b : β) :
    (t.insert a b).lookup k = if k = a then some b else t.lookup k := by
  by_cases h : k = a
  · rw [if_pos h, h]
    exact AList.lookup_insert t
  · rw [if_neg h]
    exact AList.lookup_insert_ne h

theorem lookup_erase_eq (t : Table α β) (a k : α) :
    (t.erase a).lookup k = if k = a then none else t.lookup k := by
  by_cases h : k = a
  · rw [if_pos h, h]
    exact AList.lookup_erase a t
  · rw [if_neg h]
    exact AList.lookup_erase_ne h

theorem mem_iff_isSome {t : Table α β} {a : α} : a ∈ t ↔ (t.lookup a).isSome = true :=
  AList.lookup_isSome.symm

theorem keys_erase_of_notMem {t : Table α β} {a : α} (h : a ∉ t) : (t.erase a).keys = t.keys := by
  rw [AList.keys_erase]
  exact List.erase_of_not_mem (fun hm => h (AList.mem_keys.mpr hm))

/-- Collecting over the entries, in the order of the keys. -/
theorem flatMap_entries (t : Table α β) (f : α → β → List γ) :
    t.entries.flatMap (fun e => f e.1 e.2) = t.keys.flatMap (fun k => (t.lookup k).elim [] (f k)) := by
  unfold AList.keys List.keys
  rw [List.flatMap_map]
  apply List.flatMap_congr
  intro e he
  have hlookup : t.lookup e.1 = some e.2 := List.mem_dlookup t.nodupKeys he
  rw [hlookup]
  rfl

/-- Collecting only at one key. -/
theorem flatMap_at (t : Table α β) (a : α) (f : β → List γ) :
    t.entries.flatMap (fun e => if e.1 = a then f e.2 else []) = (t.lookup a).elim [] f := by
  obtain ⟨l, hnodup⟩ := t
  show l.flatMap _ = (l.dlookup a).elim [] f
  induction l with
  | nil => rfl
  | cons e l ih =>
    have hrest := ih (List.nodupKeys_of_nodupKeys_cons hnodup)
    rw [List.flatMap_cons, hrest]
    obtain ⟨k, b⟩ := e
    by_cases hk : k = a
    · -- the key does not come again
      subst hk
      have hnone : l.dlookup k = none :=
        List.dlookup_eq_none.mpr (List.notMem_keys_of_nodupKeys_cons hnodup)
      rw [hnone, List.dlookup_cons_eq]
      simp
    · rw [List.dlookup_cons_ne _ _ (Ne.symm hk)]
      simp [hk]

/-- The entries that pass a test. -/
def keep (t : Table α β) (p : α → β → Bool) : Table α β :=
  ⟨t.entries.filter (fun e => p e.1 e.2), t.nodupKeys.sublist List.filter_sublist⟩

/-- A test on entries is a test on what each key holds. -/
theorem lookup_keep_eq (t : Table α β) (p : α → β → Bool) (k : α) :
    (t.keep p).lookup k = (t.lookup k).filter (p k) := by
  obtain ⟨l, hnodup⟩ := t
  show (l.filter (fun e => p e.1 e.2)).dlookup k = (l.dlookup k).filter (p k)
  induction l with
  | nil => rfl
  | cons e l ih =>
    have hrest := ih (List.nodupKeys_of_nodupKeys_cons hnodup)
    obtain ⟨a, b⟩ := e
    by_cases hk : a = k
    · subst hk
      have hnone : l.dlookup a = none :=
        List.dlookup_eq_none.mpr (List.notMem_keys_of_nodupKeys_cons hnodup)
      rw [List.dlookup_cons_eq]
      by_cases hp : p a b = true
      · simp [hp, Option.filter]
      · -- the entry goes, and the key does not come again
        simp only [List.filter_cons, hp, Option.filter]
        simpa [hnone] using hrest
    · rw [List.dlookup_cons_ne _ _ (Ne.symm hk), ← hrest]
      by_cases hp : p a b = true
      · simp only [List.filter_cons, hp, if_true]
        exact List.dlookup_cons_ne _ _ (Ne.symm hk)
      · simp [hp]

omit [DecidableEq α] in
/-- Two tables with the same keys list them up to order. -/
theorem keys_perm {δ : Type v} {t : Table α β} {t' : Table α δ} (h : ∀ a, a ∈ t ↔ a ∈ t') :
    t.keys.Perm t'.keys :=
  (List.perm_ext_iff_of_nodup t.keys_nodup t'.keys_nodup).mpr h

end Table

end AthenaVoice.Lib
