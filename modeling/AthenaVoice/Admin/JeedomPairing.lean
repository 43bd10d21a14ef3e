import AthenaVoice.Lib.Allot
import AthenaVoice.Lib.Str

/-
  Discovery of Jeedom devices — `jeedom.rs` (`pair_shutters`, `pair_actions`)

  The action commands of an equipment are put together: an up and a down command
  to a shutter, to which a stop and a slider may be attached, then an on and an
  off command, of the rest, to a device. Commands pair by their generic types
  first, by their names after, and a set of used ids goes through all of it.
  Ids are u64.

  A name pairs with the name at the same index of another array. The two arrays
  are of one length, so the loop over the first with its index is one over the
  pairs.

  What is proved:
    1. `onPass_sound`, `upPass_sound`, `pairByName_sound` — what one turn of each
       pass keeps.
    2. `discoverPairs_wellPaired` — for commands of different ids, no id is given
       two roles, every id given one is an input's, and the pairs match.

  Correspondence (Rust ↔ Lean):
    `pair_actions`, `pair_shutters`, `push_shutter`   the same
    their first passes                                `onPass`, `upPass`
    their second passes                               `pairByName`
    `parse_fulldata` (the pairing)                    `discoverPairs`
-/

namespace AthenaVoice.Admin.Jeedom

open Lib

structure ActionCmd where
  id : Nat
  name : Text
  generic : Option Text
  subtype : Text
  deriving DecidableEq

structure DiscoveredAction where
  onId : Nat
  offId : Nat
  deriving DecidableEq

structure DiscoveredShutter where
  upId : Nat
  downId : Nat
  stopId : Option Nat
  sliderId : Option Nat
  deriving DecidableEq

def nameOn : List Text := ["on".toList, "allumer".toList, "marche".toList, "activer".toList]

def nameOff : List Text := ["off".toList, "éteindre".toList, "arrêt".toList, "désactiver".toList]

def shutterUp : List Text := ["monter".toList, "monté".toList, "up".toList, "ouvrir".toList, "open".toList]

def shutterDown : List Text :=
  ["descendre".toList, "descendu".toList, "down".toList, "fermer".toList, "close".toList]

def shutterStopNames : List Text := ["stop".toList, "arrêter".toList]

example : nameOn.length = nameOff.length ∧ shutterUp.length = shutterDown.length := by decide

/-! ## The passes -/

/-- The first command that is not used and fits. -/
def findFree (cmds : List ActionCmd) (used : Finset Nat) (fits : ActionCmd → Bool) : Option ActionCmd :=
  cmds.find? (fun c => decide (c.id ∉ used) && fits c)

/-- The second pass of both functions, over index-aligned names; `push` puts a pair out. -/
def pairByName {α : Type} (u : Unicode) (cmds : List ActionCmd) (push : Allot Nat α → Nat → Nat → Allot Nat α)
    (names : List (Text × Text)) (s : Allot Nat α) : Allot Nat α :=
  names.foldl (fun s name =>
    match findFree cmds s.used (fun c => u.toLowercase c.name == name.1),
        findFree cmds s.used (fun c => u.toLowercase c.name == name.2) with
    | some a, some b => push s a.id b.id
    | _, _ => s) s

/-- A turn of the first pass of `pair_actions`. -/
def onPass (cmds : List ActionCmd) (s : Allot Nat DiscoveredAction) (c : ActionCmd) : Allot Nat DiscoveredAction :=
  match c.generic.bind (Str.stripSuffix "_ON".toList) with
  | none => s
  | some stem =>
    match findFree cmds s.used (fun o => o.generic == some (stem ++ "_OFF".toList)) with
    | none => s
    | some off =>
      -- `used.insert(c.id) && used.insert(off.id)`
      if c.id ∈ s.used then s
      else if off.id ∈ insert c.id s.used then { s with used := insert c.id s.used }
      else { used := insert off.id (insert c.id s.used), out := s.out ++ [{ onId := c.id, offId := off.id }] }

/-- What the second pass of `pair_actions` does with a pair. -/
def pushAction (s : Allot Nat DiscoveredAction) (on off : Nat) : Allot Nat DiscoveredAction :=
  { used := insert off (insert on s.used), out := s.out ++ [{ onId := on, offId := off }] }

def pairActions (u : Unicode) (cmds : List ActionCmd) : List DiscoveredAction :=
  (pairByName u cmds pushAction (nameOn.zip nameOff) (cmds.foldl (onPass cmds) { used := ∅, out := [] })).out

/-- A command that stops a shutter. -/
def isStop (u : Unicode) (c : ActionCmd) : Bool :=
  c.generic == some "FLAP_STOP".toList || shutterStopNames.contains (u.toLowercase c.name)

/-- A command that positions a shutter. -/
def isSlider (u : Unicode) (c : ActionCmd) : Bool :=
  c.generic == some "FLAP_SLIDER".toList || c.subtype == "slider".toList || u.toLowercase c.name == "position".toList

def useOption (used : Finset Nat) : Option Nat → Finset Nat
  | some id => insert id used
  | none => used

def pushShutter (u : Unicode) (cmds : List ActionCmd) (s : Allot Nat DiscoveredShutter) (up down : Nat) :
    Allot Nat DiscoveredShutter :=
  let used := insert down (insert up s.used)
  let stopId := (findFree cmds used (isStop u)).map (·.id)
  let used := useOption used stopId
  let sliderId := (findFree cmds used (isSlider u)).map (·.id)
  { used := useOption used sliderId
    out := s.out ++ [{ upId := up, downId := down, stopId := stopId, sliderId := sliderId }] }

/-- A turn of the first pass of `pair_shutters`. -/
def upPass (u : Unicode) (cmds : List ActionCmd) (s : Allot Nat DiscoveredShutter) (c : ActionCmd) :
    Allot Nat DiscoveredShutter :=
  if c.id ∈ s.used || c.generic != some "FLAP_UP".toList then s
  else
    match findFree cmds s.used (fun o => o.generic == some "FLAP_DOWN".toList) with
    | some down => pushShutter u cmds s c.id down.id
    | none => s

/-- `pair_shutters`, from the ids in `used`. -/
def pairShutters (u : Unicode) (cmds : List ActionCmd) (used : Finset Nat) : Allot Nat DiscoveredShutter :=
  pairByName u cmds (pushShutter u cmds) (shutterUp.zip shutterDown)
    (cmds.foldl (upPass u cmds) { used := used, out := [] })

/-- The pairing of `parse_fulldata`: the shutters, and the on/off devices of the rest. -/
def discoverPairs (u : Unicode) (cmds : List ActionCmd) : List DiscoveredShutter × List DiscoveredAction :=
  let s := pairShutters u cmds ∅
  let remaining := cmds.filter (fun c => decide (c.id ∉ s.used))
  (s.out, pairActions u remaining)

/-! ## What a pairing promises -/

def DiscoveredAction.ids (a : DiscoveredAction) : List Nat := [a.onId, a.offId]

def DiscoveredShutter.ids (s : DiscoveredShutter) : List Nat :=
  [s.upId, s.downId] ++ s.stopId.toList ++ s.sliderId.toList

/-- The commands' names, in lower case, stand at one index of two arrays. -/
def Aligned (u : Unicode) (names names' : List Text) (a b : ActionCmd) : Prop :=
  (u.toLowercase a.name, u.toLowercase b.name) ∈ names.zip names'

/-- On and off commands of one generic type, or of aligned names. -/
def SwitchPair (u : Unicode) (on off : ActionCmd) : Prop :=
  (∃ stem, on.generic = some (stem ++ "_ON".toList) ∧ off.generic = some (stem ++ "_OFF".toList)) ∨
    Aligned u nameOn nameOff on off

/-- Up and down commands of the flap's generic types, or of aligned names. -/
def FlapPair (u : Unicode) (up down : ActionCmd) : Prop :=
  (up.generic = some "FLAP_UP".toList ∧ down.generic = some "FLAP_DOWN".toList) ∨
    Aligned u shutterUp shutterDown up down

/-- A device of two commands that pair. -/
def GoodAction (u : Unicode) (cmds : List ActionCmd) (a : DiscoveredAction) : Prop :=
  ∃ on ∈ cmds, ∃ off ∈ cmds, a.onId = on.id ∧ a.offId = off.id ∧ SwitchPair u on off

/-- A shutter of two commands that pair, whose stop and slider are commands for that. -/
structure GoodShutter (u : Unicode) (cmds : List ActionCmd) (s : DiscoveredShutter) : Prop where
  moves : ∃ up ∈ cmds, ∃ down ∈ cmds, s.upId = up.id ∧ s.downId = down.id ∧ FlapPair u up down
  stops : ∀ id, s.stopId = some id → ∃ c ∈ cmds, c.id = id ∧ isStop u c = true
  slides : ∀ id, s.sliderId = some id → ∃ c ∈ cmds, c.id = id ∧ isSlider u c = true

/-- **A good pairing** of the commands: no id is given twice, all that are given
are the commands', and each shutter and device is a good one. -/
structure WellPaired (u : Unicode) (cmds : List ActionCmd) (shutters : List DiscoveredShutter)
    (actions : List DiscoveredAction) : Prop where
  once : (shutters.flatMap DiscoveredShutter.ids ++ actions.flatMap DiscoveredAction.ids).Nodup
  input : ∀ i ∈ shutters.flatMap DiscoveredShutter.ids ++ actions.flatMap DiscoveredAction.ids,
    i ∈ cmds.map (·.id)
  shutters : ∀ s ∈ shutters, GoodShutter u cmds s
  actions : ∀ a ∈ actions, GoodAction u cmds a

section Passes

variable {u : Unicode} {cmds : List ActionCmd}

theorem findFree_some {used : Finset Nat} {fits : ActionCmd → Bool} {c : ActionCmd}
    (h : findFree cmds used fits = some c) :
    c ∈ cmds ∧ c.id ∉ used ∧ fits c = true := by
  have hfits := List.find?_some h
  rw [Bool.and_eq_true, decide_eq_true_iff] at hfits
  exact ⟨List.mem_of_find?_eq_some h, hfits⟩

/-- The pass by name keeps what its `push` keeps, the pair being of two unused
commands that differ and whose names are aligned. -/
theorem pairByName_keeps {α : Type} {push : Allot Nat α → Nat → Nat → Allot Nat α} {I : Allot Nat α → Prop}
    {names names' : List Text} (hids : (cmds.map (·.id)).Nodup)
    (hdiffer : ∀ name ∈ names.zip names', name.1 ≠ name.2)
    (hpush : ∀ s, I s → ∀ a ∈ cmds, ∀ b ∈ cmds, a.id ∉ s.used → b.id ∉ s.used → a.id ≠ b.id →
      Aligned u names names' a b → I (push s a.id b.id)) {s : Allot Nat α} (hs : I s) :
    I (pairByName u cmds push (names.zip names') s) := by
  unfold pairByName
  apply List.foldlRecOn _ _ hs
  intro s hs name hname
  split
  · rename_i a b ha hb
    obtain ⟨hamem, hafree, hafits⟩ := findFree_some ha
    obtain ⟨hbmem, hbfree, hbfits⟩ := findFree_some hb
    have haname : u.toLowercase a.name = name.1 := beq_iff_eq.mp hafits
    have hbname : u.toLowercase b.name = name.2 := beq_iff_eq.mp hbfits
    have hne : a.id ≠ b.id := by
      intro heq
      have hsame := List.inj_on_of_nodup_map hids hamem hbmem heq
      apply hdiffer name hname
      rw [← haname, ← hbname, hsame]
    apply hpush s hs a hamem b hbmem hafree hbfree hne
    show (_, _) ∈ _
    rw [haname, hbname]
    exact hname
  · exact hs

theorem pair_insert {a b : Nat} (hne : a ≠ b) (used : Finset Nat) :
    [a, b].Nodup ∧ (∀ i ∈ [a, b], i ∈ insert b (insert a used)) ∧ used ⊆ insert b (insert a used) := by
  refine ⟨List.nodup_cons.mpr ⟨by simpa using hne, List.nodup_singleton b⟩, ?_, ?_⟩
  · intro i hi
    rcases List.mem_pair.mp hi with rfl | rfl
    · exact Finset.mem_insert_of_mem (Finset.mem_insert_self _ _)
    · exact Finset.mem_insert_self _ _
  · exact (Finset.subset_insert _ _).trans (Finset.subset_insert _ _)

theorem pushAction_sound {s : Allot Nat DiscoveredAction} (h : s.Sound DiscoveredAction.ids (GoodAction u cmds))
    {on off : ActionCmd} (hon : on ∈ cmds) (hoff : off ∈ cmds) (hfree : on.id ∉ s.used)
    (hfree' : off.id ∉ s.used)
    (hne : on.id ≠ off.id) (hpair : SwitchPair u on off) :
    (pushAction s on.id off.id).Sound DiscoveredAction.ids (GoodAction u cmds) := by
  obtain ⟨hnodup, hused, hsub⟩ := pair_insert hne s.used
  refine h.give hsub hnodup ?_ hused ⟨on, hon, off, hoff, rfl, rfl, hpair⟩
  intro i hi
  rcases List.mem_pair.mp hi with rfl | rfl
  · exact hfree
  · exact hfree'

/-- A turn of the pass over generic types puts out a good device, or none. -/
theorem onPass_sound {s : Allot Nat DiscoveredAction} (h : s.Sound DiscoveredAction.ids (GoodAction u cmds))
    {c : ActionCmd} (hc : c ∈ cmds) : (onPass cmds s c).Sound DiscoveredAction.ids (GoodAction u cmds) := by
  unfold onPass
  split
  · exact h
  · rename_i stem hstem
    split
    · exact h
    · rename_i off hoff
      obtain ⟨hmem, hfree, hfits⟩ := findFree_some hoff
      by_cases hused : c.id ∈ s.used
      · rw [if_pos hused]
        exact h
      · rw [if_neg hused]
        by_cases hself : off.id ∈ insert c.id s.used
        · rw [if_pos hself]
          exact h.reserve (Finset.subset_insert _ _)
        · rw [if_neg hself]
          have hne : c.id ≠ off.id := fun heq => hself (heq ▸ Finset.mem_insert_self _ _)
          obtain ⟨g, hg, hstrip⟩ := Option.bind_eq_some_iff.mp hstem
          refine pushAction_sound h hc hmem hused hfree hne (Or.inl ⟨stem, ?_, beq_iff_eq.mp hfits⟩)
          rw [hg, Str.append_of_stripSuffix hstrip]

/-- **Devices** are put out soundly. -/
theorem pairActions_sound (hids : (cmds.map (·.id)).Nodup) : ∃ used,
    Allot.Sound DiscoveredAction.ids (GoodAction u cmds) { used := used, out := pairActions u cmds } := by
  refine ⟨_, pairByName_keeps hids (by decide) ?_ (List.foldlRecOn _ _ (Allot.sound_start ∅) ?_)⟩
  · intro s hs a ha b hb hfree hfree' hne haligned
    exact pushAction_sound hs ha hb hfree hfree' hne (Or.inr haligned)
  · intro s hs c hc
    exact onPass_sound hs hc

theorem useOption_extends {l : List Nat} {used : Finset Nat} {o : Option Nat} (hl : l.Nodup)
    (hused : ∀ i ∈ l, i ∈ used)
    (ho : ∀ i, o = some i → i ∉ used) : (l ++ o.toList).Nodup ∧
      ∀ i ∈ l ++ o.toList, i ∈ useOption used o := by
  cases o with
  | none =>
    rw [Option.toList_none, List.append_nil]
    exact ⟨hl, hused⟩
  | some j =>
    have hj : j ∉ l := fun hmem => ho j rfl (hused j hmem)
    refine ⟨List.nodup_append_comm.mp (List.nodup_cons.mpr ⟨hj, hl⟩), ?_⟩
    intro i hi
    rcases List.mem_append.mp hi with hmem | hmem
    · exact Finset.mem_insert_of_mem (hused i hmem)
    · rw [List.mem_singleton.mp hmem]
      exact Finset.mem_insert_self _ _

theorem subset_useOption (used : Finset Nat) (o : Option Nat) : used ⊆ useOption used o := by
  cases o with
  | none => exact Finset.Subset.refl used
  | some j => exact Finset.subset_insert j used

theorem findFree_id {used : Finset Nat} {fits : ActionCmd → Bool} {i : Nat}
    (h : (findFree cmds used fits).map (·.id) = some i) : i ∉ used ∧ ∃ c ∈ cmds, c.id = i ∧
      fits c = true := by
  obtain ⟨c, hc, rfl⟩ := Option.map_eq_some_iff.mp h
  obtain ⟨hmem, hfree, hfits⟩ := findFree_some hc
  exact ⟨hfree, c, hmem, rfl, hfits⟩

/-- A shutter of two unused commands that pair may be put out, with a stop and a
slider that are neither of the two, nor the same command. -/
theorem pushShutter_sound {s : Allot Nat DiscoveredShutter} (h : s.Sound DiscoveredShutter.ids (GoodShutter u cmds))
    {up down : ActionCmd} (hup : up ∈ cmds) (hdown : down ∈ cmds) (hfree : up.id ∉ s.used)
    (hfree' : down.id ∉ s.used)
    (hne : up.id ≠ down.id) (hpair : FlapPair u up down) :
    (pushShutter u cmds s up.id down.id).Sound DiscoveredShutter.ids (GoodShutter u cmds) := by
  let used₁ := insert down.id (insert up.id s.used)
  let stopId := (findFree cmds used₁ (isStop u)).map (·.id)
  let used₂ := useOption used₁ stopId
  let sliderId := (findFree cmds used₂ (isSlider u)).map (·.id)
  obtain ⟨hmoves, hmoves', hsub₁⟩ := pair_insert hne s.used
  obtain ⟨hstop, hstop'⟩ := useOption_extends (o := stopId) hmoves hmoves' (fun i hi => (findFree_id hi).1)
  obtain ⟨hslider, hslider'⟩ := useOption_extends (o := sliderId) hstop hstop' (fun i hi => (findFree_id hi).1)
  have hsub₂ : s.used ⊆ used₂ := hsub₁.trans (subset_useOption _ _)
  let shutter : DiscoveredShutter := { upId := up.id, downId := down.id, stopId := stopId, sliderId := sliderId }
  show Allot.Sound _ _ { used := useOption used₂ sliderId, out := s.out ++ [shutter] }
  refine h.give (a := shutter) (hsub₂.trans (subset_useOption _ _)) hslider ?_ hslider' ?_
  rotate_left
  · exact ⟨⟨up, hup, down, hdown, rfl, rfl, hpair⟩, fun i hi => (findFree_id hi).2,
      fun i hi => (findFree_id hi).2⟩
  · -- each id was not used when it was taken, and no id stops being used
    intro i hi
    rcases List.mem_append.mp hi with hi | hi
    · rcases List.mem_append.mp hi with hi | hi
      · rcases List.mem_pair.mp hi with rfl | rfl
        · exact hfree
        · exact hfree'
      · exact fun hused => (findFree_id (Option.mem_toList.mp hi)).1 (hsub₁ hused)
    · exact fun hused => (findFree_id (Option.mem_toList.mp hi)).1 (hsub₂ hused)

/-- A turn of the pass over generic types puts out a good shutter, or none. -/
theorem upPass_sound (hids : (cmds.map (·.id)).Nodup) {s : Allot Nat DiscoveredShutter}
    (h : s.Sound DiscoveredShutter.ids (GoodShutter u cmds)) {c : ActionCmd} (hc : c ∈ cmds) :
    (upPass u cmds s c).Sound DiscoveredShutter.ids (GoodShutter u cmds) := by
  unfold upPass
  split
  · exact h
  · rename_i hskip
    rw [Bool.or_eq_true, not_or, decide_eq_true_iff, bne_iff_ne, ne_eq, not_not] at hskip
    obtain ⟨hfree, hup⟩ := hskip
    split
    · rename_i down hfind
      obtain ⟨hmem, hfree', hfits⟩ := findFree_some hfind
      have hdown : down.generic = some "FLAP_DOWN".toList := beq_iff_eq.mp hfits
      have hne : c.id ≠ down.id := by
        intro heq
        have hsame := List.inj_on_of_nodup_map hids hc hmem heq
        rw [← hsame, hup] at hdown
        exact absurd hdown (by decide)
      exact pushShutter_sound h hc hmem hfree hfree' hne (Or.inl ⟨hup, hdown⟩)
    · exact h

/-- **Shutters** are put out soundly. -/
theorem pairShutters_sound (hids : (cmds.map (·.id)).Nodup) (used : Finset Nat) :
    (pairShutters u cmds used).Sound DiscoveredShutter.ids (GoodShutter u cmds) := by
  apply pairByName_keeps hids (by decide) _ (List.foldlRecOn _ _ (Allot.sound_start used) _)
  · intro s hs a ha b hb hfree hfree' hne haligned
    exact pushShutter_sound hs ha hb hfree hfree' hne (Or.inr haligned)
  · intro s hs c hc
    exact upPass_sound hids hs hc

/-! ## What was put out is the commands' -/

theorem GoodShutter.ids_mem {s : DiscoveredShutter} (h : GoodShutter u cmds s) {i : Nat} (hi : i ∈ s.ids) :
    i ∈ cmds.map (·.id) := by
  obtain ⟨⟨up, hup, down, hdown, hupId, hdownId, -⟩, hstops, hslides⟩ := h
  rcases List.mem_append.mp hi with hi | hi
  · rcases List.mem_append.mp hi with hi | hi
    · rcases List.mem_pair.mp hi with rfl | rfl
      · rw [hupId]
        exact List.mem_map_of_mem hup
      · rw [hdownId]
        exact List.mem_map_of_mem hdown
    · obtain ⟨c, hc, rfl, -⟩ := hstops i (Option.mem_toList.mp hi)
      exact List.mem_map_of_mem hc
  · obtain ⟨c, hc, rfl, -⟩ := hslides i (Option.mem_toList.mp hi)
    exact List.mem_map_of_mem hc

theorem GoodAction.ids_mem {a : DiscoveredAction} (h : GoodAction u cmds a) {i : Nat} (hi : i ∈ a.ids) :
    i ∈ cmds.map (·.id) := by
  obtain ⟨on, hon, off, hoff, honId, hoffId, -⟩ := h
  rcases List.mem_pair.mp hi with rfl | rfl
  · rw [honId]
    exact List.mem_map_of_mem hon
  · rw [hoffId]
    exact List.mem_map_of_mem hoff

theorem GoodAction.mono {a : DiscoveredAction} {rest : List ActionCmd} (h : GoodAction u rest a)
    (hsub : rest ⊆ cmds) :
    GoodAction u cmds a := by
  obtain ⟨on, hon, off, hoff, hrest⟩ := h
  exact ⟨on, hsub hon, off, hsub hoff, hrest⟩

end Passes

/-- **Discovery** pairs well: for commands of different ids, each id has one role
at most over the shutters and the on/off devices, and it is an input's; shutters
and devices are made of commands of one generic type or of aligned names. -/
theorem discoverPairs_wellPaired (u : Unicode) {cmds : List ActionCmd} (hids : (cmds.map (·.id)).Nodup) :
    WellPaired u cmds (discoverPairs u cmds).1 (discoverPairs u cmds).2 := by
  let s := pairShutters u cmds ∅
  let remaining := cmds.filter (fun c => decide (c.id ∉ s.used))
  have hsub : remaining.Sublist cmds := List.filter_sublist
  have hshutters := pairShutters_sound (u := u) hids ∅
  obtain ⟨used, hactions⟩ := pairActions_sound (u := u) ((hsub.map _).nodup hids)
  have hfree : ∀ i ∈ (pairActions u remaining).flatMap DiscoveredAction.ids, i ∉ s.used := by
    intro i hi
    obtain ⟨a, ha, hia⟩ := List.mem_flatMap.mp hi
    obtain ⟨c, hc, rfl⟩ := List.mem_map.mp ((hactions.good a ha).ids_mem hia)
    exact decide_eq_true_iff.mp (List.mem_filter.mp hc).2
  have hgood : ∀ a ∈ pairActions u remaining, GoodAction u cmds a :=
    fun a ha => (hactions.good a ha).mono hsub.subset
  refine ⟨hshutters.nodup_append hactions.once hfree, ?_, hshutters.good, hgood⟩
  intro i hi
  rcases List.mem_append.mp hi with hi | hi
  · obtain ⟨a, ha, hia⟩ := List.mem_flatMap.mp hi
    exact (hshutters.good a ha).ids_mem hia
  · obtain ⟨a, ha, hia⟩ := List.mem_flatMap.mp hi
    exact (hgood a ha).ids_mem hia

/-- A flap with a stop named as such, a slider, and a lamp. -/
def flapAndLamp : List ActionCmd :=
  [{ id := 7, name := "Stop".toList, generic := none, subtype := "other".toList },
    { id := 1, name := "Descendre".toList, generic := some "FLAP_DOWN".toList, subtype := "other".toList },
    { id := 2, name := "Monter".toList, generic := some "FLAP_UP".toList, subtype := "other".toList },
    { id := 3, name := "Position".toList, generic := none, subtype := "slider".toList },
    { id := 4, name := "Off".toList, generic := none, subtype := "other".toList },
    { id := 5, name := "On".toList, generic := none, subtype := "other".toList }]

theorem discoverPairs_flapAndLamp :
    discoverPairs .ascii flapAndLamp = ([⟨2, 1, some 7, some 3⟩], [⟨5, 4⟩]) ∧
      WellPaired .ascii flapAndLamp [⟨2, 1, some 7, some 3⟩] [⟨5, 4⟩] :=
  ⟨by decide, discoverPairs_wellPaired .ascii (by decide)⟩

end AthenaVoice.Admin.Jeedom
