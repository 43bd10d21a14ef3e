import AthenaVoice.Assist.Bridge

/-
  How calls, channels and the map fit together on the bridge

  What is proved:
    1. `wired_step` — a call under way has its channel, and a channel whose actor
       is not spawned yet has its call.
    2. `orderedActors_step` — an actor routes again only what it found in its
       channel, closed and drained.
    3. `registered_step` — where entries are locked while they are read, an
       entry is of an actor of the device that has not left the map.
-/

namespace AthenaVoice.Assist

open Lib

/-! ## Wiring -/

/-- What calls rely on in an actor: its device, and whether it is spawned. -/
def Actor.place (a : Actor) : Text × Bool := (a.device, decide (a.phase = .unspawned))

theorem Actor.unspawned_of_place {a b : Actor} (hplace : b.place = a.place) (hphase : a.phase = .unspawned) :
    b.phase = .unspawned := by
  simpa [Actor.place, hphase] using congrArg Prod.snd hplace

/-- The call is about to spawn an actor. -/
def Stage.isInserting : Stage → Bool
  | .inserting _ => true
  | .looking | .found _ | .evicting | .creating => false

/-- Calls under way and channels fit together. -/
structure Wired (s : Bridge) : Prop where
  entry : ∀ device i, s.devices device = some i → i < s.actors.length
  found : ∀ k c i, s.callOf k = some c → c.stage = .found i → i < s.actors.length
  inserting : ∀ k c i, s.callOf k = some c → c.stage = .inserting i →
    c.stamp = none ∧ ∃ a, s.actors[i]? = some a ∧ a.place = (c.device, true)
  unspawned : ∀ (i : Nat) (a : Actor), s.actors[i]? = some a → a.phase = .unspawned →
    ∃ k c, s.callOf k = some c ∧ c.stage = .inserting i
  distinct : ∀ k k' c c' i, s.callOf k = some c → s.callOf k' = some c' → c.stage = .inserting i →
    c'.stage = .inserting i → k = k'

theorem wired_new : Wired Bridge.new where
  entry := by intro device i h; cases h
  found := by intro k c i h; cases k <;> cases h
  inserting := by intro k c i h; cases k <;> cases h
  unspawned := by intro i a h; cases h
  distinct := by intro k k' c c' i h; cases k <;> cases h

/-- No channel is made and no actor spawned: calls that are not about to spawn
one take a step. -/
theorem Wired.update {s s' : Bridge} (W : Wired s) (hplaces : s'.actors.map Actor.place = s.actors.map Actor.place)
    (hentry : ∀ device i, s'.devices device = some i → i < s.actors.length)
    (hcalls : ∀ k, s'.callOf k = s.callOf k ∨
      (∀ c, s.callOf k = some c → c.stage.isInserting = false) ∧
      (∀ c, s'.callOf k = some c → c.stage.isInserting = false ∧
        ∀ i, c.stage = .found i → i < s.actors.length)) : Wired s' := by
  have hlength : s'.actors.length = s.actors.length := by
    simpa using congrArg List.length hplaces
  have hnew : ∀ k c i, s'.callOf k = some c → c.stage = .inserting i → s.callOf k = some c := by
    intro k c i hc hstage
    rcases hcalls k with hsame | ⟨-, hother⟩
    · rw [← hsame, hc]
    · have hnot := (hother c hc).1
      rw [hstage] at hnot
      cases hnot
  refine ⟨?_, ?_, ?_, ?_, ?_⟩
  · intro device i h
    rw [hlength]
    exact hentry device i h
  · intro k c i hc hstage
    rw [hlength]
    rcases hcalls k with hsame | ⟨-, hother⟩
    · exact W.found k c i (hsame ▸ hc) hstage
    · exact (hother c hc).2 i hstage
  · intro k c i hc hstage
    obtain ⟨hstamp, a, ha, hplace⟩ := W.inserting k c i (hnew k c i hc hstage) hstage
    obtain ⟨a', ha', hplace'⟩ := Slots.exists_of_map_eq hplaces ha
    exact ⟨hstamp, a', ha', hplace'.trans hplace⟩
  · intro i a ha hphase
    obtain ⟨b, hb, hplace⟩ := Slots.exists_of_map_eq hplaces.symm ha
    obtain ⟨k, c, hc, hstage⟩ := W.unspawned i b hb (Actor.unspawned_of_place hplace hphase)
    rcases hcalls k with hsame | ⟨hnot, -⟩
    · exact ⟨k, c, by rw [hsame, hc], hstage⟩
    · have hnot := hnot c hc
      rw [hstage] at hnot
      cases hnot
  · intro k k' c c' i hc hc' hstage hstage'
    exact W.distinct k k' c c' i (hnew k c i hc hstage) (hnew k' c' i hc' hstage') hstage hstage'

namespace Bridge

variable {s : Bridge} {k : Caller} {c : Call}

theorem places_setCall (c' : Option Call) : (s.setCall k c').actors.map Actor.place = s.actors.map Actor.place := by
  cases k with
  | mqtt i => rfl
  | actor i => exact Slots.map_modify (fun a _ => rfl)

theorem places_setActor {i : Nat} {f : Actor → Actor}
    (h : ∀ a, s.actors[i]? = some a → (f a).place = a.place) :
    (s.setActor i f).actors.map Actor.place = s.actors.map Actor.place := Slots.map_modify h

end Bridge

theorem Wired.goes {s s' : Bridge} {k : Caller} {c : Call} {e : Option Call} (W : Wired s)
    (hc : s.callOf k = some c) (hnot : c.stage.isInserting = false)
    (hcalls : ∀ k', s'.callOf k' = (s.setCall k e).callOf k')
    (hgoes : ∀ d, e = some d → d.stage.isInserting = false ∧ ∀ i, d.stage = .found i → i < s.actors.length)
    (hplaces : s'.actors.map Actor.place = s.actors.map Actor.place)
    (hentry : ∀ device i, s'.devices device = some i → i < s.actors.length) : Wired s' := by
  apply W.update hplaces hentry
  intro k'
  rw [hcalls, Bridge.callOf_setCall hc]
  by_cases hk : k' = k
  · subst hk
    refine Or.inr ⟨?_, ?_⟩
    · intro d hd
      rw [hc] at hd
      cases hd
      exact hnot
    · intro d hd
      rw [if_pos rfl] at hd
      exact hgoes d hd
  · rw [if_neg hk]
    exact Or.inl rfl

theorem callOf_arrived (s : Bridge) (c : Call) (k : Caller) :
    ({ s with calls := s.calls ++ [some c] } : Bridge).callOf k = s.callOf k ∨
      s.callOf k = none ∧ ({ s with calls := s.calls ++ [some c] } : Bridge).callOf k = some c := by
  cases k with
  | actor j => exact Or.inl rfl
  | mqtt j =>
    simp only [Bridge.callOf]
    rcases Nat.lt_trichotomy j s.calls.length with hlt | heq | hgt
    · rw [List.getElem?_append_left hlt]
      exact Or.inl rfl
    · subst heq
      rw [List.getElem?_concat_length, List.getElem?_eq_none (le_refl _)]
      exact Or.inr ⟨rfl, rfl⟩
    · rw [List.getElem?_eq_none (by simp; omega), List.getElem?_eq_none hgt.le]
      exact Or.inl rfl

theorem callOf_own {s : Bridge} {i : Nat} {a : Actor} (a' : Actor) (ha : s.actors[i]? = some a) (k : Caller) :
    (s.setActor i (fun _ => a')).callOf k = if k = .actor i then a'.call else s.callOf k := by
  cases k with
  | mqtt j => simp [Bridge.callOf, Bridge.setActor]
  | actor j =>
    simp only [Bridge.callOf, Bridge.setActor, Slots.getElem?_modify, Caller.actor.injEq]
    by_cases h : j = i
    · subst h
      simp [ha]
    · have h' : ¬ i = j := fun he => h he.symm
      simp [h, h']

theorem Actor.step_place {a a' : Actor} {b : OwnStep} {o : List BridgeObs} (h : a.step b = some (a', o)) :
    a'.place = a.place ∧ (a'.call = a.call ∨ a.call = none ∧
      ∃ q : Question, a'.call = some (q.again a.device)) := by
  cases Actor.step_cases h with
  | take q rest hphase hqueue => exact ⟨rfl, Or.inl rfl⟩
  | leave hphase => exact ⟨by simp [Actor.place, hphase], Or.inl rfl⟩
  | close hphase => exact ⟨by simp [Actor.place, hphase], Or.inl rfl⟩
  | drain q rest hphase hqueue => exact ⟨rfl, Or.inl rfl⟩
  | drained hphase hqueue => exact ⟨by simp [Actor.place, hphase], Or.inl rfl⟩
  | reroute q rest hphase hidle hleft => exact ⟨rfl, Or.inr ⟨hidle, q, rfl⟩⟩

theorem callOf_ownStep {s : Bridge} {i : Nat} {a a' : Actor} {b : OwnStep} {o : List BridgeObs}
    (ha : s.actors[i]? = some a) (h : a.step b = some (a', o)) (k : Caller) :
    (s.setActor i (fun _ => a')).callOf k = s.callOf k ∨ k = .actor i ∧ s.callOf k = none ∧
      ∃ q : Question, (s.setActor i (fun _ => a')).callOf k = some (q.again a.device) := by
  have hcall : s.callOf (.actor i) = a.call := by simp [Bridge.callOf, ha]
  rw [callOf_own a' ha]
  split
  · rename_i heq
    subst heq
    rcases (Actor.step_place h).2 with hsame | ⟨hnone, hnew⟩
    · exact Or.inl (hsame.trans hcall.symm)
    · exact Or.inr ⟨rfl, hcall.trans hnone, hnew⟩
  · exact Or.inl rfl

theorem callOf_deregistered (s : Bridge) (i : Nat) (k : Caller) :
    (s.setActor i (fun a => { a with phase := .deregistered })).callOf k = s.callOf k :=
  Bridge.callOf_setActor (f := fun a => { a with phase := .deregistered }) (fun _ => rfl)

/-- Once a call went on, an actor that waits to be spawned has the call it had,
which is another one. -/
theorem Wired.waiting {s : Bridge} {k : Caller} {c : Call} {e : Option Call} {j : Nat} {a : Actor} (W : Wired s)
    (hc : s.callOf k = some c) (hother : c.stage ≠ .inserting j) (ha : (s.setCall k e).actors[j]? = some a)
    (hphase : a.phase = .unspawned) : ∃ k' c', k' ≠ k ∧ s.callOf k' = some c' ∧ c'.stage = .inserting j := by
  obtain ⟨b, hb, hplace⟩ := Slots.exists_of_map_eq (Bridge.places_setCall e).symm ha
  obtain ⟨k', c', hc', hj⟩ := W.unspawned j b hb (Actor.unspawned_of_place hplace hphase)
  refine ⟨k', c', ?_, hc', hj⟩
  intro heq
  subst heq
  rw [hc] at hc'
  cases hc'
  exact hother hj

theorem Wired.created {s : Bridge} {k : Caller} {c : Call} (W : Wired s) (hc : s.callOf k = some c)
    (hstage : c.stage = .creating) (q : Question) :
    Wired (((s.setCall k (some { c with stamp := none, stage := .inserting s.actors.length })).addActor
      (Actor.fresh c.device q)).numbered c) := by
  let fresh : Call := { c with stamp := none, stage := .inserting s.actors.length }
  have hcalls : ∀ k', (((s.setCall k (some fresh)).addActor (Actor.fresh c.device q)).numbered c).callOf k' =
      if k' = k then some fresh else s.callOf k' := by
    intro k'
    rw [Bridge.callOf_numbered, Bridge.callOf_addActor rfl, Bridge.callOf_setCall hc]
  have hactors : (((s.setCall k (some fresh)).addActor (Actor.fresh c.device q)).numbered c).actors =
      (s.setCall k (some fresh)).actors ++ [Actor.fresh c.device q] := rfl
  have hlen : (s.setCall k (some fresh)).actors.length = s.actors.length := Bridge.actors_length_setCall _
  have hold : ∀ (i : Nat) (a : Actor), s.actors[i]? = some a → ∃ a' : Actor,
      ((s.setCall k (some fresh)).actors ++ [Actor.fresh c.device q])[i]? = some a' ∧ a'.place = a.place := by
    intro i a ha
    obtain ⟨a', ha', hplace⟩ := Slots.exists_of_map_eq (Bridge.places_setCall (k := k) (some fresh)) ha
    refine ⟨a', ?_, hplace⟩
    rw [List.getElem?_append_left (by rw [hlen]; exact (List.getElem?_eq_some_iff.mp ha).1)]
    exact ha'
  -- whoever is about to spawn an actor was so before, or is this call
  have hinserting : ∀ k' c' i, (if k' = k then some fresh else s.callOf k') = some c' → c'.stage = .inserting i →
      k' = k ∧ c' = fresh ∧ i = s.actors.length ∨ k' ≠ k ∧ s.callOf k' = some c' ∧ i < s.actors.length := by
    intro k' c' i hc' hi
    split at hc'
    · rename_i heq
      cases hc'
      exact Or.inl ⟨heq, rfl, (Stage.inserting.inj hi).symm⟩
    · rename_i hne
      obtain ⟨-, a, ha, -⟩ := W.inserting k' c' i hc' hi
      exact Or.inr ⟨hne, hc', (List.getElem?_eq_some_iff.mp ha).1⟩
  refine ⟨?_, ?_, ?_, ?_, ?_⟩
  · intro device i h
    rw [hactors, List.length_append, hlen]
    have hi : s.devices device = some i := by simpa [Bridge.numbered, Bridge.addActor] using h
    exact Nat.lt_add_right _ (W.entry device i hi)
  · intro k' c' i hc' hi
    rw [hcalls] at hc'
    rw [hactors, List.length_append, hlen]
    split at hc'
    · cases hc'
      cases hi
    · exact Nat.lt_add_right _ (W.found k' c' i hc' hi)
  · intro k' c' i hc' hi
    rw [hcalls] at hc'
    rw [hactors]
    rcases hinserting k' c' i hc' hi with ⟨-, rfl, rfl⟩ | ⟨-, hc', -⟩
    · refine ⟨rfl, Actor.fresh c.device q, ?_, rfl⟩
      rw [← hlen, List.getElem?_concat_length]
    · obtain ⟨hstamp, a, ha, hplace⟩ := W.inserting k' c' i hc' hi
      obtain ⟨a', ha', hplace'⟩ := hold i a ha
      exact ⟨hstamp, a', ha', hplace'.trans hplace⟩
  · intro i a ha hphase
    rw [hactors] at ha
    rcases Nat.lt_or_ge i s.actors.length with hlt | hge
    · rw [List.getElem?_append_left (by rw [hlen]; exact hlt)] at ha
      obtain ⟨k', c', hne, hc', hi⟩ := W.waiting hc (by simp [hstage]) ha hphase
      exact ⟨k', c', by rw [hcalls, if_neg hne, hc'], hi⟩
    · refine ⟨k, fresh, by rw [hcalls, if_pos rfl], ?_⟩
      have hi : i < (s.setCall k (some fresh)).actors.length + 1 := by
        simpa using (List.getElem?_eq_some_iff.mp ha).1
      rw [hlen] at hi
      exact congrArg Stage.inserting (by omega)
  · intro k₁ k₂ c₁ c₂ i h₁ h₂ hi₁ hi₂
    rw [hcalls] at h₁ h₂
    rcases hinserting k₁ c₁ i h₁ hi₁ with ⟨rfl, -, heq⟩ | ⟨-, h₁, hlt⟩
    · rcases hinserting k₂ c₂ i h₂ hi₂ with ⟨rfl, -, -⟩ | ⟨-, -, hlt⟩
      · rfl
      · omega
    · rcases hinserting k₂ c₂ i h₂ hi₂ with ⟨-, -, heq⟩ | ⟨-, h₂, -⟩
      · omega
      · exact W.distinct k₁ k₂ c₁ c₂ i h₁ h₂ hi₁ hi₂

theorem Wired.inserted {s : Bridge} {k : Caller} {c : Call} {i : Nat} (W : Wired s) (hc : s.callOf k = some c)
    (hstage : c.stage = .inserting i) :
    Wired (((s.setCall k none).setDevice c.device (some i)).setActor i Actor.spawn) := by
  obtain ⟨-, a, ha, -⟩ := W.inserting k c i hc hstage
  have hi : i < s.actors.length := (List.getElem?_eq_some_iff.mp ha).1
  have hcalls : ∀ k', (((s.setCall k none).setDevice c.device (some i)).setActor i Actor.spawn).callOf k' =
      if k' = k then none else s.callOf k' := by
    intro k'
    rw [Bridge.callOf_setActor (f := Actor.spawn) (fun _ => rfl), Bridge.callOf_setDevice,
      Bridge.callOf_setCall hc]
  have hlen : (((s.setCall k none).setDevice c.device (some i)).setActor i Actor.spawn).actors.length =
      s.actors.length := by
    simp [Bridge.setActor, Bridge.setDevice, Bridge.actors_length_setCall]
  have hother : ∀ k' c', (if k' = k then none else s.callOf k') = some c' → k' ≠ k ∧ s.callOf k' = some c' := by
    intro k' c' h
    split at h
    · cases h
    · rename_i hne
      exact ⟨hne, h⟩
  -- the only actor that changes is the one spawned, which waits no longer
  have hactor : ∀ j, j ≠ i →
    (((s.setCall k none).setDevice c.device (some i)).setActor i Actor.spawn).actors[j]? =
      (s.setCall k none).actors[j]? := by
    intro j hne
    show ((s.setCall k none).actors.modify i Actor.spawn)[j]? = _
    rw [Slots.getElem?_modify, if_neg (Ne.symm hne)]
  refine ⟨?_, ?_, ?_, ?_, ?_⟩
  · intro device j h
    rw [hlen]
    simp only [Bridge.setActor, Bridge.setDevice, Bridge.setCall_devices] at h
    split at h
    · cases h
      exact hi
    · exact W.entry device j h
  · intro k' c' j hc' hj
    rw [hcalls] at hc'
    rw [hlen]
    exact W.found k' c' j (hother k' c' hc').2 hj
  · intro k' c' j hc' hj
    rw [hcalls] at hc'
    obtain ⟨hne, hc'⟩ := hother k' c' hc'
    have hji : j ≠ i := by
      intro heq
      subst heq
      exact hne (W.distinct k' k c' c j hc' hc hj hstage)
    obtain ⟨hstamp, b, hb, hplace⟩ := W.inserting k' c' j hc' hj
    obtain ⟨b', hb', hplace'⟩ := Slots.exists_of_map_eq (Bridge.places_setCall (k := k) none) hb
    exact ⟨hstamp, b', by rw [hactor j hji, hb'], hplace'.trans hplace⟩
  · intro j b hb hphase
    have hji : j ≠ i := by
      intro heq
      subst heq
      have hb' : ((s.setCall k none).actors.modify j Actor.spawn)[j]? = some b := hb
      rw [Slots.getElem?_modify, if_pos rfl] at hb'
      obtain ⟨x, -, rfl⟩ := Option.map_eq_some_iff.mp hb'
      cases hphase
    rw [hactor j hji] at hb
    have hnot : c.stage ≠ .inserting j := by
      intro hj
      rw [hstage] at hj
      exact hji (Stage.inserting.inj hj).symm
    obtain ⟨k', c', hne, hc', hj⟩ := W.waiting hc hnot hb hphase
    exact ⟨k', c', by rw [hcalls, if_neg hne, hc'], hj⟩
  · intro k₁ k₂ c₁ c₂ j h₁ h₂ hj₁ hj₂
    rw [hcalls] at h₁ h₂
    exact W.distinct k₁ k₂ c₁ c₂ j (hother k₁ c₁ h₁).2 (hother k₂ c₂ h₂).2 hj₁ hj₂

/-- **One step.** -/
theorem wired_step {env : BridgeEnv} {s s' : Bridge} {a : BridgeAction} {o : List BridgeObs} (W : Wired s)
    (hs : s.step env a = some (s', o)) : Wired s' := by
  -- no call changes the map by itself
  have hentry : ∀ {k : Caller} {e : Option Call} (device : Text) (i : Nat),
      (s.setCall k e).devices device = some i → i < s.actors.length := by
    intro k e device i h
    rw [Bridge.setCall_devices] at h
    exact W.entry device i h
  -- nor makes a channel by going on to a stage before the insertion
  have hlook : ∀ {c : Call} {stage : Stage}, stage.isInserting = false →
      (∀ i, stage = .found i → i < s.actors.length) → ∀ d, some { c with stage := stage } = some d →
      d.stage.isInserting = false ∧ ∀ i, d.stage = .found i → i < s.actors.length := by
    intro c stage hnot hfound d hd
    cases hd
    exact ⟨hnot, hfound⟩
  cases Bridge.step_cases hs with
  | ignored topic payload ours => exact W
  | arrived topic payload device text =>
    refine W.update rfl W.entry ?_
    intro k
    rcases callOf_arrived s { device := device, text := text, stamp := none, stage := .looking } k with
      hsame | ⟨hnone, hnew⟩
    · exact Or.inl hsame
    · refine Or.inr ⟨by simp [hnone], ?_⟩
      intro c hc
      rw [hnew] at hc
      cases hc
      exact ⟨rfl, by simp⟩
  | found k c i hc hstage he =>
    refine W.goes hc (by rw [hstage]; rfl) (fun _ => rfl) (hlook rfl ?_) (Bridge.places_setCall _) hentry
    intro j hj
    cases hj
    exact W.entry _ _ he
  | missing k c hc hstage he =>
    exact W.goes hc (by rw [hstage]; rfl) (fun _ => rfl) (hlook rfl (by simp)) (Bridge.places_setCall _) hentry
  | stale k c i a hc hstage ha hclosed =>
    exact W.goes hc (by rw [hstage]; rfl) (fun _ => rfl) (hlook rfl (by simp)) (Bridge.places_setCall _) hentry
  | sent k c i a hc hstage ha hopen hroom =>
    refine W.goes hc (by rw [hstage]; rfl) (e := none) ?_ (by simp) ?_ ?_
    · intro k'
      rw [Bridge.callOf_numbered, Bridge.callOf_setActor (f := Actor.push _) (fun _ => rfl)]
    · exact (Bridge.places_setActor (f := Actor.push _) (fun _ _ => rfl)).trans (Bridge.places_setCall _)
    · exact hentry (k := k) (e := none)
  | full k c i a hc hstage ha hopen hfull =>
    exact W.goes hc (by rw [hstage]; rfl) (e := none) (fun _ => rfl) (by simp) (Bridge.places_setCall _) hentry
  | evicted k c hc hstage hfree =>
    refine W.goes hc (by rw [hstage]; rfl) (fun _ => Bridge.callOf_setDevice _ _) (hlook rfl (by simp))
      (Bridge.places_setCall _) ?_
    intro device i h
    simp only [Bridge.setDevice] at h
    split at h
    · cases h
    · exact hentry device i h
  | created k c hc hstage => exact W.created hc hstage _
  | inserted k c i hc hstage hfree => exact W.inserted hc hstage
  | own i b a a' obs ha hb =>
    refine W.update (Bridge.places_setActor ?_) W.entry ?_
    · intro x hx
      rw [ha] at hx
      cases hx
      exact (Actor.step_place hb).1
    · intro k
      rcases callOf_ownStep ha hb k with hsame | ⟨-, hnone, q, hnew⟩
      · exact Or.inl hsame
      · refine Or.inr ⟨by simp [hnone], ?_⟩
        -- an actor that routes a leftover again calls as anyone does
        intro c hc
        rw [hnew] at hc
        cases hc
        exact ⟨rfl, by simp [Question.again]⟩
  | deregistered i a ha hphase hfree he =>
    apply W.update
    · apply Bridge.places_setActor
      intro x hx
      rw [ha] at hx
      cases hx
      simp [Actor.place, hphase]
    · intro device j h
      simp only [Bridge.setDevice] at h
      split at h
      · cases h
      · exact W.entry device j h
    · intro k
      rw [Bridge.callOf_setDevice, callOf_deregistered]
      exact Or.inl rfl
  | replaced i a ha hphase hfree he =>
    refine W.update ?_ W.entry ?_
    · apply Bridge.places_setActor
      intro x hx
      rw [ha] at hx
      cases hx
      simp [Actor.place, hphase]
    · intro k
      rw [callOf_deregistered]
      exact Or.inl rfl

/-! ## Actors, each by itself -/

/-- An actor routes again only once its channel is closed and drained. -/
structure Actor.Ordered (a : Actor) : Prop where
  calling : a.call ≠ none → a.phase = .rerouting
  shut : a.closed = true ↔ a.phase = .draining ∨ a.phase = .rerouting
  drained : a.phase = .rerouting → a.queue = []
  kept : a.leftover ≠ [] → a.closed = true

theorem Actor.Ordered.own {a a' : Actor} {b : OwnStep} {o : List BridgeObs} (O : a.Ordered)
    (h : a.step b = some (a', o)) : a'.Ordered := by
  obtain ⟨hcalling, hshut, hdrained, hkept⟩ := O
  cases Actor.step_cases h with
  | take q rest hphase hqueue => exact ⟨hcalling, hshut, fun h => (by rw [hphase] at h; cases h), hkept⟩
  | leave hphase =>
    rw [hphase] at hshut hcalling
    exact ⟨fun h => absurd (hcalling h) nofun, by simpa using hshut, nofun, hkept⟩
  | close hphase =>
    rw [hphase] at hcalling
    exact ⟨fun h => absurd (hcalling h) nofun, by simp, nofun, fun _ => rfl⟩
  | drain q rest hphase hqueue =>
    exact ⟨hcalling, hshut, fun h => (by rw [hphase] at h; cases h), fun _ => hshut.mpr (Or.inl hphase)⟩
  | drained hphase hqueue =>
    rw [hphase] at hshut
    exact ⟨fun _ => rfl, by simpa using hshut, fun _ => hqueue, hkept⟩
  | reroute q rest hphase hidle hleft =>
    exact ⟨fun _ => hphase, hshut, hdrained, fun _ => hshut.mpr (Or.inr hphase)⟩

theorem Actor.Ordered.deregister {a : Actor} (O : a.Ordered) (hphase : a.phase = .leaving) :
    ({ a with phase := .deregistered } : Actor).Ordered := by
  obtain ⟨hcalling, hshut, -, hkept⟩ := O
  rw [hphase] at hcalling hshut
  exact ⟨fun h => absurd (hcalling h) nofun, by simpa using hshut, nofun, hkept⟩

def OrderedActors (s : Bridge) : Prop := ∀ (i : Nat) (a : Actor), s.actors[i]? = some a → a.Ordered

theorem OrderedActors.set {s : Bridge} {i : Nat} {f : Actor → Actor} (O : OrderedActors s)
    (h : ∀ a, s.actors[i]? = some a → a.Ordered → (f a).Ordered) : OrderedActors (s.setActor i f) := by
  intro j a ha
  rcases Slots.modify_cases ha with ⟨-, hold⟩ | ⟨rfl, b, hb, rfl⟩
  · exact O j a hold
  · exact h b hb (O i b hb)

theorem OrderedActors.call {s : Bridge} {k : Caller} {c : Call} (O : OrderedActors s)
    (hc : s.callOf k = some c) (c' : Option Call) : OrderedActors (s.setCall k c') := by
  cases k with
  | mqtt i => exact O
  | actor i =>
    apply O.set
    intro a ha hordered
    obtain ⟨b, hb, hcall⟩ := Option.bind_eq_some_iff.mp hc
    rw [ha] at hb
    cases hb
    exact ⟨fun _ => hordered.calling (by simp [hcall]), hordered.shut, hordered.drained, hordered.kept⟩

/-- **One step.** -/
theorem orderedActors_step {env : BridgeEnv} {s s' : Bridge} {a : BridgeAction} {o : List BridgeObs}
    (W : Wired s) (O : OrderedActors s) (hs : s.step env a = some (s', o)) : OrderedActors s' := by
  cases Bridge.step_cases hs with
  | ignored topic payload ours => exact O
  | arrived topic payload device text => exact O
  | found k c i hc hstage he => exact O.call hc _
  | missing k c hc hstage he => exact O.call hc _
  | stale k c i a hc hstage ha hclosed => exact O.call hc _
  | evicted k c hc hstage hfree => exact O.call hc _
  | full k c i a hc hstage ha hopen hfull => exact O.call hc _
  | sent k c i a hc hstage ha hopen hroom =>
    refine (O.call hc none).set ?_
    intro b hb hordered
    -- the channel is open, so the actor is not past its drain
    have hbopen : b.closed = false := by
      rw [Bridge.actors_setCall, ha, Option.map_some] at hb
      cases hb
      split <;> exact hopen
    refine ⟨hordered.calling, hordered.shut, ?_, hordered.kept⟩
    intro hphase
    have := hordered.shut.mpr (Or.inr hphase)
    rw [hbopen] at this
    cases this
  | created k c hc hstage =>
    intro j b hb
    have hb' : ((s.setCall k (some { c with stamp := none, stage := .inserting s.actors.length })).actors ++
        [Actor.fresh c.device (s.questionOf c)])[j]? = some b := hb
    rcases List.mem_append.mp (List.mem_of_getElem? hb') with hmem | hmem
    · obtain ⟨i, hi⟩ := List.mem_iff_getElem?.mp hmem
      exact O.call hc _ i b hi
    · rw [List.mem_singleton.mp hmem]
      exact ⟨by simp [Actor.fresh], by simp [Actor.fresh], nofun, by simp [Actor.fresh]⟩
  | inserted k c i hc hstage hfree =>
    obtain ⟨-, a, ha, hplace⟩ := W.inserting k c i hc hstage
    have hphase : a.phase = .unspawned := by simpa [Actor.place] using congrArg Prod.snd hplace
    apply OrderedActors.set (s := (s.setCall k none).setDevice c.device (some i)) (O.call hc none)
    intro b hb hordered
    have hbphase : b.phase = .unspawned := by
      have hb' : (s.setCall k none).actors[i]? = some b := hb
      rw [Bridge.actors_setCall, ha, Option.map_some] at hb'
      cases hb'
      split <;> exact hphase
    refine ⟨?_, ?_, nofun, hordered.kept⟩
    · intro hcall
      have := hordered.calling hcall
      rw [hbphase] at this
      cases this
    · have hopen := hordered.shut
      rw [hbphase] at hopen
      simpa [Actor.spawn] using hopen
  | own i b a a' obs ha hb =>
    apply O.set
    intro x hx hordered
    rw [ha] at hx
    cases hx
    exact hordered.own hb
  | deregistered i a ha hphase hfree he =>
    apply OrderedActors.set (s := s) O
    intro x hx hordered
    rw [ha] at hx
    cases hx
    exact hordered.deregister hphase
  | replaced i a ha hphase hfree he =>
    apply O.set
    intro x hx hordered
    rw [ha] at hx
    cases hx
    exact hordered.deregister hphase

/-! ## Registration -/

/-- The actor's loop is running, or over with its entry not removed yet. -/
def Actor.accepting (a : Actor) : Bool :=
  match a.phase with
  | .running | .leaving => true
  | .unspawned | .deregistered | .draining | .rerouting => false

/-- What the map relies on in an actor. -/
def Actor.standing (a : Actor) : Text × Bool := (a.device, a.accepting)

/-- Where entries are locked while they are read: an entry is of an accepting
actor of the device, and stays while someone holds it. -/
structure Registered (s : Bridge) : Prop where
  entry : ∀ device i, s.devices device = some i →
    ∃ a : Actor, s.actors[i]? = some a ∧ a.standing = (device, true)
  guard : ∀ k c i, s.callOf k = some c → c.stage = .found i → s.devices c.device = some i

theorem registered_new : Registered Bridge.new where
  entry := by intro device i h; cases h
  guard := by intro k c i h; cases k <;> cases h

theorem Registered.update {s s' : Bridge} (R : Registered s)
    (hstanding : s'.actors.map Actor.standing = s.actors.map Actor.standing) (hdevices : s'.devices = s.devices)
    (hcalls : ∀ k c i, s'.callOf k = some c → c.stage = .found i →
      s.callOf k = some c ∨ s.devices c.device = some i) : Registered s' := by
  refine ⟨?_, ?_⟩
  · intro device i h
    rw [hdevices] at h
    obtain ⟨a, ha, hst⟩ := R.entry device i h
    obtain ⟨a', ha', hst'⟩ := Slots.exists_of_map_eq hstanding ha
    exact ⟨a', ha', hst'.trans hst⟩
  · intro k c i hc hstage
    rw [hdevices]
    rcases hcalls k c i hc hstage with hold | hentry
    · exact R.guard k c i hold hstage
    · exact hentry

theorem standing_setCall {s : Bridge} {k : Caller} (c' : Option Call) :
    (s.setCall k c').actors.map Actor.standing = s.actors.map Actor.standing := by
  cases k with
  | mqtt i => rfl
  | actor i => exact Slots.map_modify (fun a _ => rfl)

theorem Actor.step_standing {a a' : Actor} {b : OwnStep} {o : List BridgeObs} (h : a.step b = some (a', o)) :
    a'.standing = a.standing := by
  cases Actor.step_cases h with
  | take q rest hphase hqueue => rfl
  | leave hphase => simp [Actor.standing, Actor.accepting, hphase]
  | close hphase => simp [Actor.standing, Actor.accepting, hphase]
  | drain q rest hphase hqueue => rfl
  | drained hphase hqueue => simp [Actor.standing, Actor.accepting, hphase]
  | reroute q rest hphase hidle hleft => rfl

theorem Registered.write {env : BridgeEnv} (hg : env.guarded = true) {s s' : Bridge} {device : Text}
    {e : Option Nat} (R : Registered s) (hfree : s.locked env device = false)
    (hdevices : s'.devices = (s.setDevice device e).devices)
    (hentry : ∀ i, e = some i → ∃ a : Actor, s'.actors[i]? = some a ∧ a.standing = (device, true))
    (hothers : ∀ (i : Nat) (a : Actor), s.actors[i]? = some a → a.device ≠ device → a.accepting = true →
      ∃ a' : Actor, s'.actors[i]? = some a' ∧ a'.standing = a.standing)
    (hcalls : ∀ k c i, s'.callOf k = some c → c.stage = .found i → s.callOf k = some c) : Registered s' := by
  refine ⟨?_, ?_⟩
  · intro d i h
    rw [hdevices] at h
    simp only [Bridge.setDevice] at h
    split at h
    · rename_i heq
      subst heq
      exact hentry i h
    · rename_i hne
      obtain ⟨a, ha, hst⟩ := R.entry d i h
      have hd : a.device = d := congrArg Prod.fst hst
      have hacc : a.accepting = true := congrArg Prod.snd hst
      obtain ⟨a', ha', hst'⟩ := hothers i a ha (by rw [hd]; exact hne) hacc
      exact ⟨a', ha', hst'.trans hst⟩
  · intro k c i hc hstage
    have hold := hcalls k c i hc hstage
    rw [hdevices]
    simp only [Bridge.setDevice]
    rw [if_neg]
    · exact R.guard k c i hold hstage
    · intro hd
      exact Bridge.not_found_of_free hg hfree hold hd i hstage

theorem callOf_of_goes {s : Bridge} {k k' : Caller} {c d : Call} {e : Option Call} {i : Nat} (hc : s.callOf k = some c)
    (hnot : ∀ x, e = some x → x.stage ≠ .found i) (hd : (s.setCall k e).callOf k' = some d)
    (hstage : d.stage = .found i) : s.callOf k' = some d := by
  rw [Bridge.callOf_setCall hc] at hd
  split at hd
  · exact absurd hstage (hnot d hd)
  · exact hd

theorem exists_standing_setCall {s : Bridge} {k : Caller} (e : Option Call) {i : Nat} {a : Actor}
    (ha : s.actors[i]? = some a) : ∃ a' : Actor, (s.setCall k e).actors[i]? = some a' ∧ a'.standing = a.standing :=
  Slots.exists_of_map_eq (standing_setCall e) ha

theorem index_ne {s : Bridge} {i j : Nat} {a b : Actor} (ha : s.actors[i]? = some a) (hb : s.actors[j]? = some b)
    (hne : b.device ≠ a.device) : ¬ i = j := by
  intro heq
  subst heq
  rw [ha] at hb
  cases hb
  exact hne rfl

theorem Registered.goes {s : Bridge} {k : Caller} {c : Call} {e : Option Call} (R : Registered s)
    (hc : s.callOf k = some c) (hnot : ∀ i x, e = some x → x.stage ≠ .found i) : Registered (s.setCall k e) :=
  R.update (standing_setCall _) (Bridge.setCall_devices _)
    (fun _ _ i hd hi => Or.inl (callOf_of_goes hc (hnot i) hd hi))

theorem Registered.created {s s' : Bridge} {k : Caller} {c d : Call} {a : Actor} (R : Registered s)
    (hc : s.callOf k = some c) (hnot : ∀ i, d.stage ≠ .found i) (hdevices : s'.devices = s.devices)
    (hactors : s'.actors = (s.setCall k (some d)).actors ++ [a])
    (hcalls : ∀ k', s'.callOf k' = (s.setCall k (some d)).callOf k') : Registered s' := by
  refine ⟨?_, ?_⟩
  · intro device i h
    rw [hdevices] at h
    obtain ⟨b, hb, hst⟩ := R.entry device i h
    obtain ⟨b', hb', hst'⟩ := exists_standing_setCall (k := k) (some d) hb
    refine ⟨b', ?_, hst'.trans hst⟩
    rw [hactors, List.getElem?_append_left (List.getElem?_eq_some_iff.mp hb').1, hb']
  · intro k' d' i hd hi
    rw [hcalls] at hd
    rw [hdevices]
    refine R.guard k' d' i (callOf_of_goes hc ?_ hd hi) hi
    intro x hx
    cases hx
    exact hnot i

theorem Registered.inserted {env : BridgeEnv} (hg : env.guarded = true) {s : Bridge} {k : Caller} {c : Call} {i : Nat}
    {a : Actor} (R : Registered s) (hc : s.callOf k = some c) (hfree : s.locked env c.device = false)
    (ha : s.actors[i]? = some a) (hdevice : a.device = c.device) :
    Registered (((s.setCall k none).setDevice c.device (some i)).setActor i Actor.spawn) := by
  have hmodify : ∀ j, (((s.setCall k none).setDevice c.device (some i)).setActor i Actor.spawn).actors[j]? =
      if i = j then (s.setCall k none).actors[j]?.map Actor.spawn else (s.setCall k none).actors[j]? :=
    fun j => Slots.getElem?_modify _ _ _
  apply R.write hg hfree (e := some i)
  · simp [Bridge.setDevice, Bridge.setActor]
  · intro j hj
    cases hj
    obtain ⟨a', ha', hst'⟩ := exists_standing_setCall (k := k) none ha
    refine ⟨a'.spawn, ?_, ?_⟩
    · rw [hmodify, if_pos rfl, ha']
      rfl
    · have hd' : a'.device = a.device := congrArg Prod.fst hst'
      exact Prod.ext (hd'.trans hdevice) rfl
  · intro j b hb hne hacc
    obtain ⟨b', hb', hst'⟩ := exists_standing_setCall (k := k) none hb
    exact ⟨b', by rw [hmodify, if_neg (index_ne ha hb (hdevice ▸ hne)), hb'], hst'⟩
  · intro k' d j hd hj
    rw [Bridge.callOf_setActor (f := Actor.spawn) (fun _ => rfl), Bridge.callOf_setDevice] at hd
    exact callOf_of_goes hc (by simp) hd hj

/-- **One step.** -/
theorem registered_step {env : BridgeEnv} (hg : env.guarded = true) {s s' : Bridge} {a : BridgeAction}
    {o : List BridgeObs} (W : Wired s) (R : Registered s) (hs : s.step env a = some (s', o)) :
    Registered s' := by
  cases Bridge.step_cases hs with
  | ignored topic payload ours => exact R
  | arrived topic payload device text =>
    refine R.update rfl rfl ?_
    intro k c i hc hstage
    rcases callOf_arrived s { device := device, text := text, stamp := none, stage := .looking } k with
      hsame | ⟨-, hnew⟩
    · exact Or.inl (hsame ▸ hc)
    · rw [hnew] at hc
      cases hc
      cases hstage
  | found k c i hc hstage he =>
    apply R.update (standing_setCall _) (Bridge.setCall_devices _)
    intro k' d j hd hj
    rw [Bridge.callOf_setCall hc] at hd
    split at hd
    · cases hd
      cases hj
      exact Or.inr he
    · exact Or.inl hd
  | missing k c hc hstage he => exact R.goes hc (by simp)
  | stale k c i a hc hstage ha hclosed => exact R.goes hc (by simp)
  | sent k c i a hc hstage ha hopen hroom =>
    refine R.update ?_ (Bridge.setCall_devices _) ?_
    · exact (Slots.map_modify (f := Actor.push _) (fun _ _ => rfl)).trans (standing_setCall _)
    · intro k' d j hd hj
      rw [Bridge.callOf_numbered, Bridge.callOf_setActor (f := Actor.push _) (fun _ => rfl)] at hd
      exact Or.inl (callOf_of_goes hc (by simp) hd hj)
  | full k c i a hc hstage ha hopen hfull => exact R.goes hc (by simp)
  | evicted k c hc hstage hfree =>
    refine R.write hg hfree (e := none) ?_ nofun (fun i a ha _ _ => exists_standing_setCall _ ha) ?_
    · simp [Bridge.setDevice]
    · intro k' d i hd hi
      rw [Bridge.callOf_setDevice] at hd
      exact callOf_of_goes hc (by simp) hd hi
  | created k c hc hstage =>
    refine R.created (d := { c with stamp := none, stage := .inserting s.actors.length }) hc nofun ?_ rfl ?_
    · simp [Bridge.numbered, Bridge.addActor]
    · intro k'
      rw [Bridge.callOf_numbered, Bridge.callOf_addActor rfl]
  | inserted k c i hc hstage hfree =>
    obtain ⟨-, a, ha, hplace⟩ := W.inserting k c i hc hstage
    exact R.inserted hg hc hfree ha (congrArg Prod.fst hplace)
  | own i b a a' obs ha hb =>
    refine R.update ?_ rfl ?_
    · apply Slots.map_modify
      intro x hx
      rw [ha] at hx
      cases hx
      exact Actor.step_standing hb
    · intro k c j hc hstage
      rcases callOf_ownStep ha hb k with hsame | ⟨-, -, q, hnew⟩
      · exact Or.inl (hsame.symm.trans hc)
      · rw [hnew] at hc
        cases hc
        cases hstage
  | deregistered i a ha hphase hfree he =>
    refine R.write hg hfree (e := none) rfl nofun ?_ ?_
    · intro j b hb hne _
      refine ⟨b, ?_, rfl⟩
      show (s.actors.modify i _)[j]? = some b
      rw [Slots.getElem?_modify, if_neg (index_ne ha hb hne), hb]
    · intro k c j hc hstage
      rw [Bridge.callOf_setDevice, callOf_deregistered] at hc
      exact hc
  | replaced i a ha hphase hfree he =>
    refine ⟨?_, ?_⟩
    · intro device j h
      have h' : s.devices device = some j := h
      obtain ⟨b, hb, hst⟩ := R.entry device j h'
      have hji : ¬ i = j := by
        intro heq
        subst heq
        rw [ha] at hb
        cases hb
        have hd : a.device = device := congrArg Prod.fst hst
        exact he (hd ▸ h')
      refine ⟨b, ?_, hst⟩
      show (s.actors.modify i _)[j]? = some b
      rw [Slots.getElem?_modify, if_neg hji, hb]
    · intro k c j hc hstage
      rw [callOf_deregistered] at hc
      exact R.guard k c j hc hstage

end AthenaVoice.Assist
