import AthenaVoice.Assist.NoLoss

/-
  One actor per device, and the order of its questions

  Where entries are locked while they are read, an actor that is in the map is
  alone on its device, and the numbers of the questions in its channel are less
  than those of the questions still to be routed again. Neither is kept when a
  call finds no entry while another is making a channel for the device, or while
  an actor that has left the map holds an earlier question.

  What is proved:
    1. `serial_step` — a map with one channel made at a time is the accepting
       actors.
    2. `lanes_step` — the questions of a device wait in order.
    3. `bridge_in_order` — in every run whose lookups are orderly, both hold in
       every state.
    4. `leftover_overtaken` — without it two actors run, and take the questions
       out of order.
-/

namespace AthenaVoice.Assist

open Lib

/-! ## Orderly lookups -/

/-- The actor has removed its entry. -/
def Actor.gone (a : Actor) : Bool :=
  match a.phase with
  | .deregistered | .draining | .rerouting => true
  | .unspawned | .running | .leaving => false

/-- The call has found no entry, and has not put its own there. -/
def Stage.making : Stage → Bool
  | .creating | .inserting _ => true
  | .looking | .found _ | .evicting => false

/-- The call knows where its question goes. -/
def Stage.placed : Stage → Bool
  | .found _ | .creating => true
  | .looking | .evicting | .inserting _ => false

/-- The call's question was accepted before question `n`. -/
def Call.before (c : Call) (n : Nat) : Bool := c.stamp.any (fun m => m < n)

/-- Nobody is making a channel for the device. -/
def Bridge.unmade (s : Bridge) (device : Text) : Bool :=
  (s.calls ++ s.actors.map Actor.call).all
    (fun c => c.all (fun c => if c.device = device then !c.stage.making else true))

/-- No other actor that has left the map holds a question accepted before the call's. -/
def Bridge.ahead (s : Bridge) (k : Caller) (c : Call) : Bool :=
  s.actors.zipIdx.all (fun p =>
    if k ≠ .actor p.2 ∧ p.1.device = c.device ∧ p.1.gone = true then p.1.stamps.all c.before else true)

/-- The step is no lookup that another call's channel, or an earlier question, is
about to race. -/
def Bridge.orderly (s : Bridge) : BridgeAction → Bool
  | .call k =>
    match s.callOf k with
    | none => true
    | some c =>
      match c.stage with
      | .looking => s.unmade c.device && s.ahead k c
      | .found _ | .evicting | .creating | .inserting _ => true
  | .handle .. | .own .. | .deregister _ => true

/-- The number of the question a loop of the device takes, if the observation is one. -/
def BridgeObs.takesOn (device : Text) : BridgeObs → Option Nat
  | .taken d q => if d = device then some q.stamp else none
  | _ => none

/-- The questions the device's actors take, in order. -/
def takenOn (device : Text) (h : List BridgeObs) : List Nat := h.filterMap (BridgeObs.takesOn device)

/-- At most one actor of a device is accepting questions. -/
def OneAccepting (s : Bridge) : Prop :=
  ∀ (i j : Nat) (a b : Actor), s.actors[i]? = some a → s.actors[j]? = some b → a.device = b.device →
    a.accepting = true → b.accepting = true → i = j

/-- The questions of a device are taken in the order they were accepted in. -/
def TakenInOrder (h : List BridgeObs) : Prop := ∀ device, (takenOn device h).Pairwise (· < ·)

@[simp] theorem takenOn_append (device : Text) (h h' : List BridgeObs) :
    takenOn device (h ++ h') = takenOn device h ++ takenOn device h' := List.filterMap_append

namespace Bridge

variable {s : Bridge} {k : Caller} {c : Call}

theorem orderly_looking (hc : s.callOf k = some c) (hstage : c.stage = .looking)
    (hok : s.orderly (.call k) = true) :
    (∀ k' c', s.callOf k' = some c' → c'.device = c.device → c'.stage.making = false) ∧
      ∀ (j : Nat) (b : Actor), s.actors[j]? = some b → k ≠ .actor j → b.device = c.device → b.gone = true →
        ∀ n ∈ b.stamps, c.before n = true := by
  simp only [orderly, hc, hstage, Bool.and_eq_true] at hok
  obtain ⟨hunmade, hahead⟩ := hok
  refine ⟨?_, ?_⟩
  · intro k' c' hc' hd
    have hall := List.all_eq_true.mp hunmade (some c') (mem_calls hc')
    simpa [hd] using hall
  · intro j b hb hk hd hgone
    have hall := List.all_eq_true.mp hahead (b, j) (List.mem_zipIdx_iff_getElem?.mpr hb)
    rw [if_pos ⟨hk, hd, hgone⟩] at hall
    exact List.all_eq_true.mp hall

end Bridge

/-! ## One channel made at a time -/

/-- The entries are the accepting actors, and nobody makes a second channel for a device. -/
structure Serial (s : Bridge) : Prop where
  mapped : ∀ (i : Nat) (a : Actor), s.actors[i]? = some a → a.accepting = true → s.devices a.device = some i
  vacant : ∀ k c, s.callOf k = some c → c.stage.making = true → s.devices c.device = none
  single : ∀ k k' c c', s.callOf k = some c → s.callOf k' = some c' → c.stage.making = true →
    c'.stage.making = true → c.device = c'.device → k = k'
  kept : ∀ k c, s.callOf k = some c → c.stage ≠ .evicting

theorem serial_new : Serial Bridge.new where
  mapped := by intro i a h; cases h
  vacant := by intro k c h; cases k <;> cases h
  single := by intro k k' c c' h; cases k <;> cases h
  kept := by intro k c h; cases k <;> cases h

theorem Serial.update {s s' : Bridge} (S : Serial s) (hdevices : s'.devices = s.devices)
    (hactors : ∀ (i : Nat) (a : Actor), s'.actors[i]? = some a → a.accepting = true →
      ∃ b : Actor, s.actors[i]? = some b ∧ b.standing = a.standing)
    (hcalls : ∀ k c, s'.callOf k = some c → c.stage ≠ .evicting ∧ (c.stage.making = true →
      ∃ c₀, s.callOf k = some c₀ ∧ c₀.device = c.device ∧ c₀.stage.making = true)) : Serial s' := by
  refine ⟨?_, ?_, ?_, fun k c hc => (hcalls k c hc).1⟩
  · intro i a ha hacc
    obtain ⟨b, hb, hst⟩ := hactors i a ha hacc
    have hd : b.device = a.device := congrArg Prod.fst hst
    have hbacc : b.accepting = true := (congrArg Prod.snd hst).trans hacc
    rw [hdevices, ← hd]
    exact S.mapped i b hb hbacc
  · intro k c hc hm
    obtain ⟨c₀, hc₀, hd, hm₀⟩ := (hcalls k c hc).2 hm
    rw [hdevices, ← hd]
    exact S.vacant k c₀ hc₀ hm₀
  · intro k k' c c' hc hc' hm hm' hd
    obtain ⟨c₀, hc₀, hd₀, hm₀⟩ := (hcalls k c hc).2 hm
    obtain ⟨c₁, hc₁, hd₁, hm₁⟩ := (hcalls k' c' hc').2 hm'
    exact S.single k k' c₀ c₁ hc₀ hc₁ hm₀ hm₁ (hd₀.trans (hd.trans hd₁.symm))

theorem Serial.goes {s s' : Bridge} {k : Caller} {c : Call} {e : Option Call} (S : Serial s)
    (hc : s.callOf k = some c) (hdevices : s'.devices = s.devices)
    (hactors : ∀ (i : Nat) (a : Actor), s'.actors[i]? = some a → a.accepting = true →
      ∃ b : Actor, s.actors[i]? = some b ∧ b.standing = a.standing)
    (hcalls : ∀ k', s'.callOf k' = (s.setCall k e).callOf k')
    (hgoes : ∀ d, e = some d → d.stage ≠ .evicting ∧
      (d.stage.making = true → c.device = d.device ∧ c.stage.making = true)) : Serial s' := by
  apply S.update hdevices hactors
  intro k' d hd
  rw [hcalls, Bridge.callOf_setCall hc] at hd
  by_cases hk : k' = k
  · rw [if_pos hk] at hd
    refine ⟨(hgoes d hd).1, ?_⟩
    intro hm
    obtain ⟨hdevice, hmc⟩ := (hgoes d hd).2 hm
    exact ⟨c, by rw [hk, hc], hdevice, hmc⟩
  · rw [if_neg hk] at hd
    exact ⟨S.kept k' d hd, fun hm => ⟨d, hd, rfl, hm⟩⟩

theorem standing_of_setCall {s : Bridge} {k : Caller} {c' : Option Call} (i : Nat) (a : Actor)
    (ha : (s.setCall k c').actors[i]? = some a) : ∃ b : Actor, s.actors[i]? = some b ∧ b.standing = a.standing :=
  Slots.exists_of_map_eq (standing_setCall c').symm ha

theorem open_of_found {s : Bridge} {k : Caller} {c : Call} {i : Nat} {a : Actor} (O : OrderedActors s)
    (R : Registered s) (hc : s.callOf k = some c) (hstage : c.stage = .found i) (ha : s.actors[i]? = some a) :
    a.device = c.device ∧ a.accepting = true ∧ a.closed = false := by
  obtain ⟨b, hb, hst⟩ := R.entry c.device i (R.guard k c i hc hstage)
  rw [ha] at hb
  cases hb
  have hacc : a.accepting = true := congrArg Prod.snd hst
  refine ⟨congrArg Prod.fst hst, hacc, ?_⟩
  have hshut := (O i a ha).shut
  rw [← Bool.not_eq_true, hshut]
  intro hphase
  rcases hphase with hphase | hphase <;> simp [Actor.accepting, hphase] at hacc

theorem Serial.makes {s : Bridge} {k : Caller} {c : Call} (S : Serial s) (hc : s.callOf k = some c)
    (hvacant : s.devices c.device = none)
    (hfree : ∀ k' c', s.callOf k' = some c' → c'.device = c.device → c'.stage.making = false) :
    Serial (s.setCall k (some { c with stage := .creating })) := by
  have hcalls : ∀ k' d, (s.setCall k (some { c with stage := .creating })).callOf k' = some d →
      k' = k ∧ d = { c with stage := .creating } ∨ k' ≠ k ∧ s.callOf k' = some d := by
    intro k' d hd
    rw [Bridge.callOf_setCall hc] at hd
    split at hd
    · rename_i hk
      exact Or.inl ⟨hk, (Option.some.inj hd).symm⟩
    · rename_i hk
      exact Or.inr ⟨hk, hd⟩
  refine ⟨?_, ?_, ?_, ?_⟩
  · intro i a ha hacc
    obtain ⟨b, hb, hst⟩ := standing_of_setCall i a ha
    have hd : b.device = a.device := congrArg Prod.fst hst
    rw [Bridge.setCall_devices, ← hd]
    exact S.mapped i b hb ((congrArg Prod.snd hst).trans hacc)
  · intro k' d hd hm
    rw [Bridge.setCall_devices]
    rcases hcalls k' d hd with ⟨-, rfl⟩ | ⟨-, hold⟩
    · exact hvacant
    · exact S.vacant k' d hold hm
  · intro k₁ k₂ c₁ c₂ h₁ h₂ hm₁ hm₂ hd
    rcases hcalls k₁ c₁ h₁ with ⟨rfl, rfl⟩ | ⟨-, hold₁⟩
    · rcases hcalls k₂ c₂ h₂ with ⟨rfl, -⟩ | ⟨-, hold₂⟩
      · rfl
      · rw [hfree k₂ c₂ hold₂ hd.symm] at hm₂
        cases hm₂
    · rcases hcalls k₂ c₂ h₂ with ⟨rfl, rfl⟩ | ⟨-, hold₂⟩
      · rw [hfree k₁ c₁ hold₁ hd] at hm₁
        cases hm₁
      · exact S.single k₁ k₂ c₁ c₂ hold₁ hold₂ hm₁ hm₂ hd
  · intro k' d hd
    rcases hcalls k' d hd with ⟨-, rfl⟩ | ⟨-, hold⟩
    · simp
    · exact S.kept k' d hold

theorem Serial.inserted {s : Bridge} {k : Caller} {c : Call} {i : Nat} (W : Wired s) (S : Serial s)
    (hc : s.callOf k = some c) (hstage : c.stage = .inserting i) :
    Serial (((s.setCall k none).setDevice c.device (some i)).setActor i Actor.spawn) := by
  have hmaking : c.stage.making = true := by rw [hstage]; rfl
  have hvacant := S.vacant k c hc hmaking
  obtain ⟨-, x, hx, hplace⟩ := W.inserting k c i hc hstage
  have hdevice : x.device = c.device := congrArg Prod.fst hplace
  have hcalls : ∀ k' d, (((s.setCall k none).setDevice c.device (some i)).setActor i Actor.spawn).callOf k' =
      some d → k' ≠ k ∧ s.callOf k' = some d := by
    intro k' d hd
    rw [Bridge.callOf_setActor (f := Actor.spawn) (fun _ => rfl), Bridge.callOf_setDevice,
      Bridge.callOf_setCall hc] at hd
    split at hd
    · cases hd
    · rename_i hk
      exact ⟨hk, hd⟩
  have hdevices : ∀ d, (((s.setCall k none).setDevice c.device (some i)).setActor i Actor.spawn).devices d =
      if d = c.device then some i else s.devices d := by
    intro d
    simp [Bridge.setActor, Bridge.setDevice]
  refine ⟨?_, ?_, ?_, fun k' d hd => S.kept k' d (hcalls k' d hd).2⟩
  · intro j b hb hacc
    have hb' : ((s.setCall k none).actors.modify i Actor.spawn)[j]? = some b := hb
    rw [hdevices]
    rcases Slots.modify_cases hb' with ⟨-, hb'⟩ | ⟨rfl, y, hy, rfl⟩
    · -- another accepting actor of the device would be its entry
      obtain ⟨z, hz, hst⟩ := standing_of_setCall _ b hb'
      have hd : z.device = b.device := congrArg Prod.fst hst
      have hmapped := S.mapped j z hz ((congrArg Prod.snd hst).trans hacc)
      rw [← hd, if_neg, hmapped]
      intro heq
      rw [heq, hvacant] at hmapped
      cases hmapped
    · obtain ⟨z, hz, hst⟩ := standing_of_setCall _ y hy
      rw [hx] at hz
      cases hz
      have hd : x.device = y.device := congrArg Prod.fst hst
      rw [if_pos]
      exact hd.symm.trans hdevice
  -- two calls that make a channel would be for two devices
  · intro k' d hd hm
    obtain ⟨hk, hold⟩ := hcalls k' d hd
    rw [hdevices, if_neg, S.vacant k' d hold hm]
    intro heq
    exact hk (S.single k' k d c hold hc hm hmaking heq)
  · intro k₁ k₂ c₁ c₂ h₁ h₂ hm₁ hm₂ hd
    exact S.single k₁ k₂ c₁ c₂ (hcalls k₁ c₁ h₁).2 (hcalls k₂ c₂ h₂).2 hm₁ hm₂ hd

/-- An actor's own step: it goes on accepting or not, and the call it makes looks its channel up. -/
theorem Serial.own {s : Bridge} {i : Nat} {a a' : Actor} {b : OwnStep} {o : List BridgeObs} (S : Serial s)
    (ha : s.actors[i]? = some a) (hb : a.step b = some (a', o)) : Serial (s.setActor i (fun _ => a')) := by
  have hstanding : (s.setActor i (fun _ => a')).actors.map Actor.standing = s.actors.map Actor.standing := by
    refine Slots.map_modify ?_
    intro x hx
    rw [ha] at hx
    cases hx
    exact Actor.step_standing hb
  refine S.update rfl (fun j x hx _ => Slots.exists_of_map_eq hstanding.symm hx) ?_
  intro k c hc
  rcases callOf_ownStep ha hb k with hsame | ⟨-, -, q, hnew⟩
  · have hold := hsame.symm.trans hc
    exact ⟨S.kept k c hold, fun hm => ⟨c, hold, rfl, hm⟩⟩
  · rw [hnew] at hc
    cases hc
    exact ⟨by simp [Question.again], by simp [Question.again, Stage.making]⟩

theorem Serial.deregistered {s : Bridge} {i : Nat} {a : Actor} (S : Serial s)
    (he : s.devices a.device = some i) :
    Serial ((s.setActor i (fun a => { a with phase := .deregistered })).setDevice a.device none) := by
  have hcalls : ∀ k, ((s.setActor i (fun a => { a with phase := .deregistered })).setDevice a.device none).callOf k =
      s.callOf k := by
    intro k
    rw [Bridge.callOf_setDevice, callOf_deregistered]
  refine ⟨?_, ?_, ?_, ?_⟩
  · intro j b hb hacc
    have hb' : (s.actors.modify i (fun a => { a with phase := .deregistered }))[j]? = some b := hb
    rcases Slots.modify_cases hb' with ⟨hij, hb'⟩ | ⟨-, y, -, rfl⟩
    · have hmapped := S.mapped j b hb' hacc
      have hd : b.device ≠ a.device := by
        intro heq
        rw [heq, he] at hmapped
        exact hij (Option.some.inj hmapped)
      simp only [Bridge.setDevice, if_neg hd]
      exact hmapped
    · cases hacc
  · intro k c hc hm
    rw [hcalls] at hc
    have hvacant := S.vacant k c hc hm
    simp only [Bridge.setDevice]
    split
    · rfl
    · exact hvacant
  · intro k₁ k₂ c₁ c₂ h₁ h₂
    rw [hcalls] at h₁ h₂
    exact S.single k₁ k₂ c₁ c₂ h₁ h₂
  · intro k c hc
    rw [hcalls] at hc
    exact S.kept k c hc

/-- **One step**, its lookup orderly. -/
theorem serial_step {env : BridgeEnv} {s s' : Bridge} {a : BridgeAction}
    {o : List BridgeObs} (W : Wired s) (O : OrderedActors s) (R : Registered s) (S : Serial s)
    (hok : s.orderly a = true) (hs : s.step env a = some (s', o)) : Serial s' := by
  cases Bridge.step_cases hs with
  | ignored topic payload ours => exact S
  | arrived topic payload device text =>
    refine S.update rfl (fun i a ha _ => ⟨a, ha, rfl⟩) ?_
    intro k c hc
    rcases callOf_arrived s { device := device, text := text, stamp := none, stage := .looking } k with
      hsame | ⟨-, hnew⟩
    · rw [hsame] at hc
      exact ⟨S.kept k c hc, fun hm => ⟨c, hc, rfl, hm⟩⟩
    · rw [hnew] at hc
      cases hc
      exact ⟨by simp, by simp [Stage.making]⟩
  | found k c i hc hstage he =>
    apply S.goes hc (Bridge.setCall_devices _) (fun j b hb _ => standing_of_setCall j b hb) (fun _ => rfl)
    intro d hd
    cases hd
    exact ⟨by simp, by simp [Stage.making]⟩
  | missing k c hc hstage he => exact S.makes hc he (Bridge.orderly_looking hc hstage hok).1
  | stale k c i a hc hstage ha hclosed =>
    -- the channel of an entry is open
    have hopen := (open_of_found O R hc hstage ha).2.2
    rw [hclosed] at hopen
    cases hopen
  | sent k c i a hc hstage ha hopen hroom =>
    refine S.goes hc (e := none) (Bridge.setCall_devices _) ?_ ?_ (by simp)
    · intro j b hb _
      have hpush : ((s.setCall k none).setActor i (Actor.push (s.questionOf c))).actors.map Actor.standing =
          (s.setCall k none).actors.map Actor.standing := Slots.map_modify (fun _ _ => rfl)
      obtain ⟨b', hb', hst'⟩ := Slots.exists_of_map_eq hpush.symm hb
      obtain ⟨b'', hb'', hst''⟩ := standing_of_setCall j b' hb'
      exact ⟨b'', hb'', hst''.trans hst'⟩
    · intro k'
      rw [Bridge.callOf_numbered, Bridge.callOf_setActor (f := Actor.push _) (fun _ => rfl)]
  | full k c i a hc hstage ha hopen hfull =>
    exact S.goes hc (e := none) (Bridge.setCall_devices _) (fun j b hb _ => standing_of_setCall j b hb)
      (fun _ => rfl) (by simp)
  | evicted k c hc hstage hfree => exact absurd hstage (S.kept k c hc)
  | created k c hc hstage =>
    apply S.goes hc (e := some { c with stamp := none, stage := .inserting s.actors.length })
    · simp [Bridge.numbered, Bridge.addActor]
    · intro j b hb hacc
      have hb' : ((s.setCall k (some { c with stamp := none, stage := .inserting s.actors.length })).actors ++
          [Actor.fresh c.device (s.questionOf c)])[j]? = some b := hb
      rw [List.getElem?_append] at hb'
      split at hb'
      · exact standing_of_setCall j b hb'
      · -- the fresh actor does not accept yet
        rw [List.mem_singleton.mp (List.mem_of_getElem? hb')] at hacc
        cases hacc
    · intro k'
      rw [Bridge.callOf_numbered, Bridge.callOf_addActor rfl]
    · intro d hd
      cases hd
      exact ⟨by simp, fun _ => ⟨rfl, by rw [hstage]; rfl⟩⟩
  | inserted k c i hc hstage hfree => exact S.inserted W hc hstage
  | own i b a a' obs ha hb => exact S.own ha hb
  | deregistered i a ha hphase hfree he => exact S.deregistered he
  | replaced i a ha hphase hfree he =>
    -- an actor that leaves is in the map
    exact absurd (S.mapped i a ha (by simp [Actor.accepting, hphase])) he

section Serial

variable {s : Bridge} {i j : Nat} {a b : Actor} {k : Caller} {c : Call}

theorem Actor.accepting_or_unspawned (hgone : a.gone = false) : a.accepting = true ∨ a.phase = .unspawned := by
  cases hphase : a.phase <;> simp [Actor.gone, Actor.accepting, hphase] at hgone ⊢

theorem Actor.gone_of_accepting (hacc : a.accepting = true) : a.gone = false := by
  cases hphase : a.phase <;> simp [Actor.gone, Actor.accepting, hphase] at hacc ⊢

theorem Wired.call_of_unspawned (W : Wired s) (ha : s.actors[i]? = some a) (hphase : a.phase = .unspawned) :
    ∃ k c, s.callOf k = some c ∧ c.stage = .inserting i ∧ a.device = c.device := by
  obtain ⟨k, c, hc, hstage⟩ := W.unspawned i a ha hphase
  obtain ⟨-, x, hx, hplace⟩ := W.inserting k c i hc hstage
  rw [ha] at hx
  cases hx
  exact ⟨k, c, hc, hstage, congrArg Prod.fst hplace⟩

theorem Serial.gone_of_making (W : Wired s) (S : Serial s) (hc : s.callOf k = some c)
    (hmaking : c.stage.making = true) (ha : s.actors[i]? = some a) (hd : a.device = c.device)
    (hgone : a.gone = false) : c.stage = .inserting i := by
  rcases Actor.accepting_or_unspawned hgone with hacc | hphase
  · have hmapped := S.mapped i a ha hacc
    rw [hd, S.vacant k c hc hmaking] at hmapped
    cases hmapped
  · obtain ⟨k', c', hc', hstage', hd'⟩ := W.call_of_unspawned ha hphase
    have hk := S.single k k' c c' hc hc' hmaking (by rw [hstage']; rfl) (hd.symm.trans hd')
    subst hk
    rw [hc] at hc'
    cases hc'
    exact hstage'

/-- **An actor that has not left the map is alone on its device.** -/
theorem Serial.alone (W : Wired s) (S : Serial s) (ha : s.actors[i]? = some a) (hb : s.actors[j]? = some b)
    (hd : a.device = b.device) (hga : a.gone = false) (hgb : b.gone = false) : i = j := by
  rcases Actor.accepting_or_unspawned hga with hacc | hphase
  · rcases Actor.accepting_or_unspawned hgb with hacc' | hphase'
    · have hmapped := S.mapped i a ha hacc
      rw [hd, S.mapped j b hb hacc'] at hmapped
      exact (Option.some.inj hmapped).symm
    · obtain ⟨k, c, hc, hstage, hdc⟩ := W.call_of_unspawned hb hphase'
      have hi := S.gone_of_making W hc (by rw [hstage]; rfl) ha (hd.trans hdc) hga
      rw [hstage] at hi
      exact (Stage.inserting.inj hi).symm
  · obtain ⟨k, c, hc, hstage, hdc⟩ := W.call_of_unspawned ha hphase
    have hj := S.gone_of_making W hc (by rw [hstage]; rfl) hb (hd.symm.trans hdc) hgb
    rw [hstage] at hj
    exact Stage.inserting.inj hj

theorem Serial.oneAccepting (S : Serial s) : OneAccepting s := by
  intro i j a b ha hb hd hacc hacc'
  have hmapped := S.mapped i a ha hacc
  rw [hd, S.mapped j b hb hacc'] at hmapped
  exact (Option.some.inj hmapped).symm

end Serial

/-! ## Where calls and actors come from -/

/-- What a call under way after a step was before it. -/
inductive Came (s : Bridge) (a : BridgeAction) (k : Caller) : Call → Prop where
  | stayed (c : Call) (current : s.callOf k = some c) : Came s a k c
  | arrived (i : Nat) (device text : Text) (caller : k = .mqtt i) :
      Came s a k { device := device, text := text, stamp := none, stage := .looking }
  | again (i : Nat) (x : Actor) (q : Question) (caller : k = .actor i) (actor : s.actors[i]? = some x) :
      Came s a k (q.again x.device)
  | looked (c : Call) (stage : Stage) (action : a = .call k) (current : s.callOf k = some c)
      (looking : c.stage = .looking) (goes : stage.isInserting = false) : Came s a k { c with stage := stage }
  | turned (c : Call) (stage : Stage) (current : s.callOf k = some c) (goes : c.stage.isInserting = false)
      (evicts : c.stage = .evicting ∨ stage = .evicting) : Came s a k { c with stage := stage }
  | made (c : Call) (i : Nat) (current : s.callOf k = some c) :
      Came s a k { c with stamp := none, stage := .inserting i }

theorem came_of_setCall {s : Bridge} {a : BridgeAction} {k k' : Caller} {c d : Call} {e : Option Call}
    (hc : s.callOf k = some c) (h : ∀ x, e = some x → Came s a k x) (hd : (s.setCall k e).callOf k' = some d) :
    Came s a k' d := by
  rw [Bridge.callOf_setCall hc] at hd
  split at hd
  · rename_i hk
    subst hk
    exact h d hd
  · exact .stayed d hd

/-- **Calls.** -/
theorem Bridge.step_came {env : BridgeEnv} {s s' : Bridge} {a : BridgeAction} {o : List BridgeObs}
    (hs : s.step env a = some (s', o)) {k : Caller} {c : Call} (hc' : s'.callOf k = some c) : Came s a k c := by
  cases Bridge.step_cases hs with
  | ignored topic payload ours => exact .stayed c hc'
  | arrived topic payload device text =>
    rcases callOf_arrived s { device := device, text := text, stamp := none, stage := .looking } k with
      hsame | ⟨hnone, hnew⟩
    · exact .stayed c (hsame ▸ hc')
    · rw [hnew] at hc'
      cases hc'
      cases k with
      | mqtt i => exact .arrived i device text rfl
      | actor i =>
        have hsame : s.callOf (.actor i) = some _ := hnew
        rw [hnone] at hsame
        cases hsame
  | found k₀ c₀ i hc hstage he =>
    refine came_of_setCall hc ?_ hc'
    intro x hx
    cases hx
    exact .looked c₀ _ rfl hc hstage rfl
  | missing k₀ c₀ hc hstage he =>
    refine came_of_setCall hc ?_ hc'
    intro x hx
    cases hx
    exact .looked c₀ _ rfl hc hstage rfl
  | stale k₀ c₀ i x hc hstage hx hclosed =>
    refine came_of_setCall hc ?_ hc'
    intro y hy
    cases hy
    exact .turned c₀ _ hc (by rw [hstage]; rfl) (Or.inr rfl)
  | sent k₀ c₀ i x hc hstage hx hopen hroom =>
    rw [Bridge.callOf_numbered, Bridge.callOf_setActor (f := Actor.push _) (fun _ => rfl)] at hc'
    exact came_of_setCall (e := none) hc nofun hc'
  | full k₀ c₀ i x hc hstage hx hopen hfull => exact came_of_setCall (e := none) hc nofun hc'
  | evicted k₀ c₀ hc hstage hfree =>
    rw [Bridge.callOf_setDevice] at hc'
    refine came_of_setCall hc ?_ hc'
    intro y hy
    cases hy
    exact .turned c₀ _ hc (by rw [hstage]; rfl) (Or.inl hstage)
  | created k₀ c₀ hc hstage =>
    rw [Bridge.callOf_numbered, Bridge.callOf_addActor rfl] at hc'
    refine came_of_setCall hc ?_ hc'
    intro y hy
    cases hy
    exact .made c₀ _ hc
  | inserted k₀ c₀ i hc hstage hfree =>
    rw [Bridge.callOf_setActor (f := Actor.spawn) (fun _ => rfl), Bridge.callOf_setDevice] at hc'
    exact came_of_setCall (e := none) hc nofun hc'
  | own i b x x' obs hx hb =>
    rcases callOf_ownStep hx hb k with hsame | ⟨hk, -, q, hnew⟩
    · exact .stayed c (hsame.symm.trans hc')
    · rw [hnew] at hc'
      cases hc'
      exact .again i x q hk hx
  | deregistered i x hx hphase hfree he =>
    rw [Bridge.callOf_setDevice, callOf_deregistered] at hc'
    exact .stayed c hc'
  | replaced i x hx hphase hfree he =>
    rw [callOf_deregistered] at hc'
    exact .stayed c hc'

/-- What an actor after a step was before it. -/
inductive Stood (env : BridgeEnv) (s : Bridge) (a : BridgeAction) (j : Nat) : Actor → Prop where
  | moved (b b' : Actor) (actor : s.actors[j]? = some b) (device : b'.device = b.device) (gone : b'.gone = b.gone)
      (stamps : b'.stamps.Sublist b.stamps) : Stood env s a j b'
  | pushed (k : Caller) (c : Call) (b b' : Actor) (action : a = .call k) (current : s.callOf k = some c)
      (stage : c.stage = .found j)
      (actor : s.actors[j]? = some b) (device : b'.device = b.device) (gone : b'.gone = b.gone)
      (stamps : b'.stamps.Sublist (b.stamps ++ [(s.questionOf c).stamp])) : Stood env s a j b'
  | made (k : Caller) (c : Call) (action : a = .call k) (current : s.callOf k = some c)
      (stage : c.stage = .creating) : Stood env s a j (Actor.fresh c.device (s.questionOf c))
  | left (b : Actor) (action : a = .deregister j) (actor : s.actors[j]? = some b) (phase : b.phase = .leaving)
      (free : s.locked env b.device = false) : Stood env s a j { b with phase := .deregistered }

theorem stood_of_setCall {s : Bridge} {k : Caller} {c : Call} {c' : Option Call} {j : Nat} {b' : Actor}
    (hc : s.callOf k = some c)
    (hsub : (callStamps c').Sublist c.stamps) (hb' : (s.setCall k c').actors[j]? = some b') :
    ∃ b, s.actors[j]? = some b ∧ b'.device = b.device ∧ b'.phase = b.phase ∧ b'.stamps.Sublist b.stamps := by
  rw [Bridge.actors_setCall] at hb'
  obtain ⟨b, hb, rfl⟩ := Option.map_eq_some_iff.mp hb'
  refine ⟨b, hb, ?_⟩
  split
  · rename_i hk
    subst hk
    have hcall : b.call = some c := by simpa [Bridge.callOf, hb] using hc
    refine ⟨rfl, rfl, ?_⟩
    simp only [Actor.stamps, hcall]
    exact (hsub.append_right _).append_right _
  · exact ⟨rfl, rfl, List.Sublist.refl _⟩

theorem Actor.gone_of_phase {a b : Actor} (h : a.phase = b.phase) : a.gone = b.gone := by
  simp only [Actor.gone, h]

theorem Actor.step_held {a a' : Actor} {b : OwnStep} {o : List BridgeObs} (h : a.step b = some (a', o)) :
    a'.device = a.device ∧ a'.gone = a.gone ∧ a'.stamps.Sublist a.stamps := by
  cases Actor.step_cases h with
  | take q rest hphase hqueue =>
    refine ⟨rfl, rfl, ?_⟩
    simp only [Actor.stamps, hqueue, List.map_cons]
    exact (List.sublist_cons_self _ _).append_left _
  | leave hphase => exact ⟨rfl, by simp [Actor.gone, hphase], List.Sublist.refl _⟩
  | close hphase => exact ⟨rfl, by simp [Actor.gone, hphase], List.Sublist.refl _⟩
  | drain q rest hphase hqueue =>
    refine ⟨rfl, rfl, ?_⟩
    simp [Actor.stamps, hqueue]
  | drained hphase hqueue => exact ⟨rfl, by simp [Actor.gone, hphase], List.Sublist.refl _⟩
  | reroute q rest hphase hidle hleft =>
    refine ⟨rfl, rfl, ?_⟩
    simp [Actor.stamps, callStamps, Call.stamps, Question.again, hidle, hleft]

/-- **Actors.** -/
theorem Bridge.step_stood {env : BridgeEnv} {s s' : Bridge} {a : BridgeAction} {o : List BridgeObs} (W : Wired s)
    (hs : s.step env a = some (s', o)) {j : Nat} {b' : Actor} (hb' : s'.actors[j]? = some b') :
    Stood env s a j b' := by
  -- what a call does to the actor it belongs to: it may only give up what it holds
  have hcall : ∀ {k : Caller} {c : Call} {e : Option Call}, s.callOf k = some c →
      (callStamps e).Sublist c.stamps → (s.setCall k e).actors[j]? = some b' → Stood env s a j b' := by
    intro k c e hc hsub hb
    obtain ⟨b, hb, hd, hp, hstamps⟩ := stood_of_setCall hc hsub hb
    exact .moved b b' hb hd (Actor.gone_of_phase hp) hstamps
  have hover : ∀ c : Call, (callStamps none).Sublist c.stamps := fun _ => List.nil_sublist _
  cases Bridge.step_cases hs with
  | ignored topic payload ours => exact .moved b' b' hb' rfl rfl (List.Sublist.refl _)
  | arrived topic payload device text => exact .moved b' b' hb' rfl rfl (List.Sublist.refl _)
  | found k c i hc hstage he => exact hcall hc (List.Sublist.refl _) hb'
  | missing k c hc hstage he => exact hcall hc (List.Sublist.refl _) hb'
  | stale k c i x hc hstage hx hclosed => exact hcall hc (List.Sublist.refl _) hb'
  | sent k c i x hc hstage hx hopen hroom =>
    have hb : ((s.setCall k none).actors.modify i (Actor.push (s.questionOf c)))[j]? = some b' := hb'
    rcases Slots.modify_cases hb with ⟨-, hb⟩ | ⟨rfl, y, hy, rfl⟩
    · exact hcall hc (hover c) hb
    · obtain ⟨b, hb, hd, hp, hstamps⟩ := stood_of_setCall hc (hover c) hy
      refine .pushed k c b _ rfl hc hstage hb hd (Actor.gone_of_phase hp) ?_
      have hpush : (y.push (s.questionOf c)).stamps = y.stamps ++ [(s.questionOf c).stamp] := by
        simp [Actor.stamps, Actor.push]
      rw [hpush]
      exact hstamps.append_right _
  | full k c i x hc hstage hx hopen hfull => exact hcall hc (hover c) hb'
  | evicted k c hc hstage hfree => exact hcall hc (List.Sublist.refl _) hb'
  | created k c hc hstage =>
    have hb : ((s.setCall k (some { c with stamp := none, stage := .inserting s.actors.length })).actors ++
        [Actor.fresh c.device (s.questionOf c)])[j]? = some b' := hb'
    rw [List.getElem?_append] at hb
    split at hb
    · exact hcall (e := some { c with stamp := none, stage := .inserting s.actors.length }) hc (List.nil_sublist _) hb
    · rw [List.mem_singleton.mp (List.mem_of_getElem? hb)]
      exact .made k c rfl hc hstage
  | inserted k c i hc hstage hfree =>
    obtain ⟨-, x, hx, hplace⟩ := W.inserting k c i hc hstage
    have hphase : x.phase = .unspawned := by simpa [Actor.place] using congrArg Prod.snd hplace
    have hb : ((s.setCall k none).actors.modify i Actor.spawn)[j]? = some b' := hb'
    rcases Slots.modify_cases hb with ⟨-, hb⟩ | ⟨rfl, y, hy, rfl⟩
    · exact hcall hc (hover c) hb
    · obtain ⟨b, hb, hd, hp, hstamps⟩ := stood_of_setCall hc (hover c) hy
      rw [hx] at hb
      cases hb
      exact .moved x _ hx hd (by simp [Actor.gone, Actor.spawn, hphase]) hstamps
  | own i b x x' obs hx hb =>
    have hb'' : (s.actors.modify i (fun _ => x'))[j]? = some b' := hb'
    rcases Slots.modify_cases hb'' with ⟨-, hb''⟩ | ⟨rfl, -, -, rfl⟩
    · exact .moved b' b' hb'' rfl rfl (List.Sublist.refl _)
    · obtain ⟨hd, hgone, hstamps⟩ := Actor.step_held hb
      exact .moved x b' hx hd hgone hstamps
  | deregistered i x hx hphase hfree he =>
    have hb : (s.actors.modify i (fun x => { x with phase := .deregistered }))[j]? = some b' := hb'
    rcases Slots.modify_cases hb with ⟨-, hb⟩ | ⟨rfl, y, hy, rfl⟩
    · exact .moved b' b' hb rfl rfl (List.Sublist.refl _)
    · rw [hx] at hy
      cases hy
      exact .left x rfl hx hphase hfree
  | replaced i x hx hphase hfree he =>
    have hb : (s.actors.modify i (fun x => { x with phase := .deregistered }))[j]? = some b' := hb'
    rcases Slots.modify_cases hb with ⟨-, hb⟩ | ⟨rfl, y, hy, rfl⟩
    · exact .moved b' b' hb rfl rfl (List.Sublist.refl _)
    · rw [hx] at hy
      cases hy
      exact .left x rfl hx hphase hfree

/-! ## Lanes -/

/-- An actor's call routes a question of its own device, and one from MQTT has no number yet. -/
structure Carried (s : Bridge) : Prop where
  mqtt : ∀ i c, s.callOf (.mqtt i) = some c → c.stamp = none
  actor : ∀ i c, s.callOf (.actor i) = some c → (∃ a, s.actors[i]? = some a ∧ a.device = c.device) ∧
    (c.stage.isInserting = false → c.stamp.isSome = true)

theorem carried_new : Carried Bridge.new where
  mqtt := by intro i c h; cases h
  actor := by intro i c h; cases h

theorem Bridge.step_device {env : BridgeEnv} {s s' : Bridge} {a : BridgeAction} {o : List BridgeObs}
    (hs : s.step env a = some (s', o)) {i : Nat} {x : Actor} (hx : s.actors[i]? = some x) :
    ∃ x', s'.actors[i]? = some x' ∧ x'.device = x.device := by
  have hcall : ∀ {k : Caller} {e : Option Call}, ∃ x', (s.setCall k e).actors[i]? = some x' ∧
      x'.device = x.device := by
    intro k e
    obtain ⟨x', hx', hst⟩ := Slots.exists_of_map_eq (standing_setCall e) hx
    exact ⟨x', hx', congrArg Prod.fst hst⟩
  have hset : ∀ {t : Bridge} {j : Nat} {f : Actor → Actor},
    (∀ y, t.actors[j]? = some y → (f y).device = y.device) →
      (∃ x', t.actors[i]? = some x' ∧ x'.device = x.device) →
      ∃ x', (t.setActor j f).actors[i]? = some x' ∧ x'.device = x.device := by
    intro t j f hf ht
    obtain ⟨y, hy, hd⟩ := ht
    have hmap : (t.setActor j f).actors.map Actor.device = t.actors.map Actor.device := Slots.map_modify hf
    obtain ⟨x', hx', hd'⟩ := Slots.exists_of_map_eq hmap hy
    exact ⟨x', hx', hd'.trans hd⟩
  cases Bridge.step_cases hs with
  | ignored topic payload ours => exact ⟨x, hx, rfl⟩
  | arrived topic payload device text => exact ⟨x, hx, rfl⟩
  | found k c j hc hstage he => exact hcall
  | missing k c hc hstage he => exact hcall
  | stale k c j y hc hstage hy hclosed => exact hcall
  | sent k c j y hc hstage hy hopen hroom => exact hset (fun _ _ => rfl) hcall
  | full k c j y hc hstage hy hopen hfull => exact hcall
  | evicted k c hc hstage hfree => exact hcall
  | created k c hc hstage =>
    obtain ⟨x', hx', hd⟩ := hcall (k := k) (e := some { c with stamp := none, stage := .inserting s.actors.length })
    exact ⟨x', (List.getElem?_append_left (List.getElem?_eq_some_iff.mp hx').1).trans hx', hd⟩
  | inserted k c j hc hstage hfree =>
    exact hset (t := (s.setCall k none).setDevice c.device (some j)) (fun _ _ => rfl) hcall
  | own j b y y' obs hy hb =>
    refine hset ?_ ⟨x, hx, rfl⟩
    intro z hz
    rw [hy] at hz
    cases hz
    exact (Actor.step_held hb).1
  | deregistered j y hy hphase hfree he => exact hset (t := s) (fun _ _ => rfl) ⟨x, hx, rfl⟩
  | replaced j y hy hphase hfree he => exact hset (fun _ _ => rfl) ⟨x, hx, rfl⟩

/-- **One step.** -/
theorem carried_step {env : BridgeEnv} {s s' : Bridge} {a : BridgeAction} {o : List BridgeObs} (C : Carried s)
    (hs : s.step env a = some (s', o)) : Carried s' := by
  have hgoes : ∀ {i : Nat} {c : Call}, (∃ x, s.actors[i]? = some x ∧ x.device = c.device) →
      ∃ x', s'.actors[i]? = some x' ∧ x'.device = c.device := by
    intro i c h
    obtain ⟨x, hx, hd⟩ := h
    obtain ⟨x', hx', hd'⟩ := Bridge.step_device hs hx
    exact ⟨x', hx', hd'.trans hd⟩
  refine ⟨?_, ?_⟩
  · intro i c' hc'
    cases Bridge.step_came hs hc' with
    | stayed c hc => exact C.mqtt i c' hc
    | arrived j device text hk => rfl
    | again j x q hk hx => cases hk
    | looked c stage ha hc hlooking hgo => exact C.mqtt i c hc
    | turned c stage hc hgo hev => exact C.mqtt i c hc
    | made c j hc => rfl
  · intro i c' hc'
    cases Bridge.step_came hs hc' with
    | stayed c hc =>
      obtain ⟨hdevice, hstamp⟩ := C.actor i c' hc
      exact ⟨hgoes hdevice, hstamp⟩
    | arrived j device text hk => cases hk
    | again j x q hk hx =>
      cases hk
      exact ⟨hgoes (c := q.again x.device) ⟨x, hx, rfl⟩, fun _ => rfl⟩
    | looked c stage ha hc hlooking hgo =>
      obtain ⟨hdevice, hstamp⟩ := C.actor i c hc
      exact ⟨hgoes hdevice, fun _ => hstamp (by rw [hlooking]; rfl)⟩
    | turned c stage hc hgo hev =>
      obtain ⟨hdevice, hstamp⟩ := C.actor i c hc
      exact ⟨hgoes hdevice, fun _ => hstamp hgo⟩
    | made c j hc =>
      obtain ⟨hdevice, -⟩ := C.actor i c hc
      exact ⟨hgoes hdevice, nofun⟩

/-- Of the actors that have left the map, only the one that makes the call may
hold a question accepted before the call's. -/
def Ahead (s : Bridge) : Prop :=
  ∀ k c (j : Nat) (b : Actor), s.callOf k = some c → c.stage.placed = true → s.actors[j]? = some b →
    k ≠ .actor j → b.device = c.device → b.gone = true → ∀ n ∈ b.stamps, c.before n = true

/-- **One step**, its lookup orderly. -/
theorem ahead_step {env : BridgeEnv} (hg : env.guarded = true) {s s' : Bridge} {a : BridgeAction}
    {o : List BridgeObs} (W : Wired s) (O : OrderedActors s) (R : Registered s) (S : Serial s) (A : Ahead s)
    (hok : s.orderly a = true) (hs : s.step env a = some (s', o)) : Ahead s' := by
  intro k c j b hc hplaced hb hk hd hgone n hn
  -- it was gone before, and held the question, unless it leaves the map now
  have hbefore : (∃ x, s.actors[j]? = some x ∧ x.device = c.device ∧ x.gone = true ∧ n ∈ x.stamps) ∨
      a = .deregister j ∧ ∃ x, s.actors[j]? = some x ∧ x.device = c.device ∧ x.accepting = true ∧
        s.locked env c.device = false := by
    cases Bridge.step_stood W hs hb with
    | moved x _ hx hdevice hsame hstamps =>
      exact Or.inl ⟨x, hx, hdevice.symm.trans hd, hsame.symm.trans hgone, hstamps.subset hn⟩
    | pushed k' d x _ ha hc' hstage hx hdevice hsame hstamps =>
      have hacc := (open_of_found O R hc' hstage hx).2.1
      rw [hsame, Actor.gone_of_accepting hacc] at hgone
      cases hgone
    | made k' d ha hc' hstage => cases hgone
    | left x ha hx hphase hfree =>
      have hdx : x.device = c.device := hd
      exact Or.inr ⟨ha, x, hx, hdx, by simp [Actor.accepting, hphase], hdx ▸ hfree⟩
  cases Bridge.step_came hs hc with
  | stayed _ hold =>
    rcases hbefore with ⟨x, hx, hdx, hgx, hnx⟩ | ⟨-, x, hx, hdx, hacc, hfree⟩
    · exact A k c j x hold hplaced hx hk hdx hgx n hnx
    · have hnot : ∀ i, c.stage ≠ .found i := Bridge.not_found_of_free hg hfree hold rfl
      have hmapped := S.mapped j x hx hacc
      have hcreating : c.stage = .creating := by
        cases hstage : c.stage with
        | creating => rfl
        | found i => exact absurd hstage (hnot i)
        | looking => simp [hstage, Stage.placed] at hplaced
        | evicting => simp [hstage, Stage.placed] at hplaced
        | inserting i => simp [hstage, Stage.placed] at hplaced
      rw [hdx, S.vacant k c hold (by rw [hcreating]; rfl)] at hmapped
      cases hmapped
  | arrived i device text hki => cases hplaced
  | again i x q hki hx => cases hplaced
  | looked d stage ha hold hlooking hgoes =>
    subst ha
    rcases hbefore with ⟨x, hx, hdx, hgx, hnx⟩ | ⟨ha, -⟩
    · exact (Bridge.orderly_looking hold hlooking hok).2 j x hx hk hdx hgx n hnx
    · cases ha
  | turned d stage hold hgoes hev =>
    rcases hev with hev | hev
    · exact absurd hev (S.kept k d hold)
    · subst hev
      cases hplaced
  | made d i hold => cases hplaced

section Custody

variable {h : List BridgeObs} {s : Bridge} {i j : Nat} {a b : Actor} {n : Nat}

theorem Bridge.mem_waiting (ha : s.actors[i]? = some a) (hn : n ∈ a.stamps) : n ∈ s.waiting :=
  List.mem_append_right _ (List.mem_flatMap.mpr ⟨a, List.mem_of_getElem? ha, hn⟩)

theorem Custody.lt_accepted (C : Custody h s) (hn : n ∈ s.waiting) : n < s.accepted := by
  have hcount := C n
  have hpos := List.count_pos_iff.mpr hn
  split at hcount <;> omega

theorem Custody.untaken (C : Custody h s) (ht : n ∈ takenIn h) : n ∉ s.waiting := by
  intro hn
  have hcount := C n
  have hpos := List.count_pos_iff.mpr hn
  have htaken := List.count_pos_iff.mpr ht
  split at hcount <;> omega

theorem Custody.apart (C : Custody h s) (ha : s.actors[i]? = some a) (hb : s.actors[j]? = some b)
    (hna : n ∈ a.stamps) (hnb : n ∈ b.stamps) : i = j := by
  have hnodup : (s.actors.flatMap Actor.stamps).Nodup := by
    apply List.nodup_iff_count_le_one.mpr
    intro m
    have hcount := C m
    simp only [Bridge.waiting, List.count_append] at hcount
    split at hcount <;> omega
  exact Slots.eq_of_nodup hnodup ha hb hna hnb

end Custody

theorem takenOn_subset {device : Text} {h : List BridgeObs} {n : Nat} (hn : n ∈ takenOn device h) :
    n ∈ takenIn h := by
  obtain ⟨x, hx, hq⟩ := List.mem_filterMap.mp hn
  refine List.mem_filterMap.mpr ⟨x, hx, ?_⟩
  cases x <;> simp [BridgeObs.takesOn, BridgeObs.takes] at hq ⊢
  exact hq.2

/-- The questions of a device wait in order: an actor's own, and those of the
actor in the map before those of the actors that have left it. -/
structure Lines (s : Bridge) : Prop where
  sorted : ∀ (i : Nat) (a : Actor), s.actors[i]? = some a → a.stamps.Pairwise (· < ·)
  behind : ∀ (i j : Nat) (a b : Actor), s.actors[i]? = some a → s.actors[j]? = some b → a.device = b.device →
    a.gone = false → b.gone = true → ∀ m ∈ a.stamps, ∀ n ∈ b.stamps, m < n

/-- What an actor has taken was accepted before what waits. -/
structure Served (h : List BridgeObs) (s : Bridge) : Prop where
  sorted : TakenInOrder h
  before : ∀ device, ∀ m ∈ takenOn device h, ∀ (j : Nat) (b : Actor), s.actors[j]? = some b →
    b.device = device → ∀ n ∈ b.stamps, m < n

/-- What holds of every state of a bridge whose lookups are orderly. -/
structure InOrder (env : BridgeEnv) (h : List BridgeObs) (s : Bridge) : Prop where
  kept : Kept env h s
  registered : Registered s
  serial : Serial s
  carried : Carried s
  ahead : Ahead s
  lines : Lines s
  served : Served h s

/-! ## Where a call's question stands -/

section Placed

variable {env : BridgeEnv} {h : List BridgeObs} {s : Bridge} {k : Caller} {c : Call}

/-- A call that knows where its question goes carries a fresh one, or the first
of those its actor still has. -/
theorem InOrder.question (I : InOrder env h s) (hc : s.callOf k = some c) (hplaced : c.stage.placed = true) :
    (s.questionOf c).stamp = s.accepted ∧ (∃ i, k = .mqtt i) ∧ c.stamp = none ∨
      ∃ (j : Nat) (x : Actor) (rest : List Nat), k = .actor j ∧ s.actors[j]? = some x ∧ x.device = c.device ∧
        x.gone = true ∧ x.stamps = (s.questionOf c).stamp :: rest := by
  cases k with
  | mqtt i =>
    have hstamp := I.carried.mqtt i c hc
    exact Or.inl ⟨by simp [Bridge.questionOf, hstamp], ⟨i, rfl⟩, hstamp⟩
  | actor j =>
    obtain ⟨⟨x, hx, hdevice⟩, hstamped⟩ := I.carried.actor j c hc
    have hnot : c.stage.isInserting = false := by
      cases hstage : c.stage <;> simp [Stage.placed, Stage.isInserting, hstage] at hplaced ⊢
    obtain ⟨m, hm⟩ := Option.isSome_iff_exists.mp (hstamped hnot)
    have hcall : x.call = some c := by simpa [Bridge.callOf, hx] using hc
    have hphase := (I.kept.ordered j x hx).calling (by simp [hcall])
    refine Or.inr ⟨j, x, x.leftover.map Question.stamp ++ x.queue.map Question.stamp, rfl, hx, hdevice, ?_, ?_⟩
    · simp [Actor.gone, hphase]
    · simp [Actor.stamps, hcall, callStamps, Call.stamps, Bridge.questionOf, hm]

theorem InOrder.after (I : InOrder env h s) (hc : s.callOf k = some c) (hplaced : c.stage.placed = true)
    {i : Nat} {b : Actor} (hb : s.actors[i]? = some b) (hd : b.device = c.device) (hgone : b.gone = false) :
    ∀ n ∈ b.stamps, n < (s.questionOf c).stamp := by
  intro n hn
  rcases I.question hc hplaced with ⟨hfresh, -⟩ | ⟨j, x, rest, -, hx, hdx, hgx, hstamps⟩
  · rw [hfresh]
    exact I.kept.custody.lt_accepted (Bridge.mem_waiting hb hn)
  · exact I.lines.behind i j b x hb hx (hd.trans hdx.symm) hgone hgx n hn _ (by rw [hstamps]; exact List.mem_cons_self)

theorem InOrder.not_after (I : InOrder env h s) (hc : s.callOf k = some c) (hplaced : c.stage.placed = true)
    {j : Nat} {b : Actor} (hb : s.actors[j]? = some b) (hd : b.device = c.device) (hgone : b.gone = true) :
    ∀ n ∈ b.stamps, (s.questionOf c).stamp ≤ n := by
  intro n hn
  by_cases hk : k = .actor j
  · rcases I.question hc hplaced with ⟨-, ⟨i, hi⟩, -⟩ | ⟨j', x, rest, hk', hx, -, -, hstamps⟩
    · rw [hk] at hi
      cases hi
    · rw [hk] at hk'
      cases hk'
      rw [hx] at hb
      cases hb
      have hsorted := I.lines.sorted j b hx
      rw [hstamps] at hn hsorted
      rcases List.mem_cons.mp hn with heq | hrest
      · exact heq.ge
      · exact ((List.pairwise_cons.mp hsorted).1 n hrest).le
  · have hbefore := I.ahead k c j b hc hplaced hb hk hd hgone n hn
    obtain ⟨m, hm, hlt⟩ := (Option.any_eq_true _ _).mp hbefore
    have hle : m < n := by simpa using hlt
    rw [Bridge.questionOf, hm]
    exact hle.le

theorem InOrder.untaken (I : InOrder env h s) (hc : s.callOf k = some c) (hplaced : c.stage.placed = true) :
    ∀ m ∈ takenOn c.device h, m < (s.questionOf c).stamp := by
  intro m hm
  rcases I.question hc hplaced with ⟨hfresh, -⟩ | ⟨j, x, rest, -, hx, hdx, -, hstamps⟩
  · rw [hfresh]
    have hcount := I.kept.custody m
    have htaken := List.count_pos_iff.mpr (takenOn_subset hm)
    split at hcount <;> omega
  · exact I.served.before c.device m hm j x hx hdx _ (by rw [hstamps]; exact List.mem_cons_self)

end Placed

/-- **The lines, one step.** -/
theorem lines_step {env : BridgeEnv} {h h' : List BridgeObs} {s s' : Bridge} {a : BridgeAction}
    {o : List BridgeObs} (I : InOrder env h s) (C : Custody h' s') (hs : s.step env a = some (s', o)) :
    Lines s' := by
  refine ⟨?_, ?_⟩
  · intro i x hx
    cases Bridge.step_stood I.kept.wired hs hx with
    | moved y _ hy hd hgone hstamps => exact (I.lines.sorted i y hy).sublist hstamps
    | pushed k c y _ ha hc hstage hy hd hgone hstamps =>
      obtain ⟨hdc, hacc, -⟩ := open_of_found I.kept.ordered I.registered hc hstage hy
      apply List.Pairwise.sublist hstamps
      rw [List.pairwise_append]
      refine ⟨I.lines.sorted i y hy, List.pairwise_singleton _ _, ?_⟩
      intro m hm n hn
      rw [List.mem_singleton.mp hn]
      exact I.after hc (by rw [hstage]; rfl) hy hdc (Actor.gone_of_accepting hacc) m hm
    | made k c ha hc hstage => exact List.pairwise_singleton _ _
    | left y ha hy hphase hfree => exact I.lines.sorted i y hy
  · intro i j x y hx hy hd hgx hgy m hm n hn
    -- an actor that is gone holds what it held
    have hback : (∃ y₀, s.actors[j]? = some y₀ ∧ y₀.device = y.device ∧ y₀.gone = true ∧
      n ∈ y₀.stamps) ∨
        a = .deregister j ∧ ∃ y₀, s.actors[j]? = some y₀ ∧ y₀.device = y.device ∧ y₀.gone = false := by
      cases Bridge.step_stood I.kept.wired hs hy with
      | moved y₀ _ hy₀ hdy hgone hstamps =>
        exact Or.inl ⟨y₀, hy₀, hdy.symm, hgone.symm.trans hgy, hstamps.subset hn⟩
      | pushed k c y₀ _ ha hc hstage hy₀ hdy hgone hstamps =>
        have hacc := (open_of_found I.kept.ordered I.registered hc hstage hy₀).2.1
        rw [hgone, Actor.gone_of_accepting hacc] at hgy
        cases hgy
      | made k c ha hc hstage => cases hgy
      | left y₀ ha hy₀ hphase hfree => exact Or.inr ⟨ha, y₀, hy₀, rfl, by simp [Actor.gone, hphase]⟩
    -- a number is in one place, so a question pushed is not the one that was first in line
    have hfirst : ∀ {k : Caller} {c : Call}, s.callOf k = some c → c.stage.placed = true → x.device = c.device →
        a = .call k → m = (s.questionOf c).stamp → m < n := by
      intro k c hc hplaced hdc ha heq
      rcases hback with ⟨y₀, hy₀, hdy, hgone, hn₀⟩ | ⟨ha', -⟩
      · have hle := I.not_after hc hplaced hy₀ (hdy.trans (hd.symm.trans hdc)) hgone n hn₀
        rw [← heq] at hle
        apply lt_of_le_of_ne hle
        intro hmn
        have hij := C.apart hx hy (hmn ▸ hm) hn
        subst hij
        rw [hx] at hy
        cases hy
        rw [hgx] at hgy
        cases hgy
      · rw [ha] at ha'
        cases ha'
    cases Bridge.step_stood I.kept.wired hs hx with
    | moved x₀ _ hx₀ hdx hgone hstamps =>
      rcases hback with ⟨y₀, hy₀, hdy, hgone₀, hn₀⟩ | ⟨-, y₀, hy₀, hdy, hgone₀⟩
      · exact I.lines.behind i j x₀ y₀ hx₀ hy₀ (hdx.symm.trans (hd.trans hdy.symm))
          (hgone.symm.trans hgx) hgone₀ m
          (hstamps.subset hm) n hn₀
      · -- the one that leaves was alone
        have hij := I.serial.alone I.kept.wired hx₀ hy₀ (hdx.symm.trans (hd.trans hdy.symm))
          (hgone.symm.trans hgx) hgone₀
        subst hij
        rw [hx] at hy
        cases hy
        rw [hgx] at hgy
        cases hgy
    | pushed k c x₀ _ ha hc hstage hx₀ hdx hgone hstamps =>
      obtain ⟨hdc, -, -⟩ := open_of_found I.kept.ordered I.registered hc hstage hx₀
      rcases List.mem_append.mp (hstamps.subset hm) with hold | hnew
      · rcases hback with ⟨y₀, hy₀, hdy, hgone₀, hn₀⟩ | ⟨ha', -⟩
        · exact I.lines.behind i j x₀ y₀ hx₀ hy₀ (hdx.symm.trans (hd.trans hdy.symm))
            (hgone.symm.trans hgx) hgone₀ m
            hold n hn₀
        · rw [ha] at ha'
          cases ha'
      · exact hfirst hc (by rw [hstage]; rfl) (hdx.trans hdc) ha (List.mem_singleton.mp hnew)
    | made k c ha hc hstage =>
      exact hfirst hc (by rw [hstage]; rfl) rfl ha (List.mem_singleton.mp hm)
    | left x₀ ha hx₀ hphase hfree => cases hgx

theorem Bridge.step_takes {env : BridgeEnv} {s s' : Bridge} {a : BridgeAction} {o : List BridgeObs}
    (O : OrderedActors s) (hs : s.step env a = some (s', o)) (device : Text) :
    takenOn device o = [] ∨ ∃ (i : Nat) (x : Actor) (n : Nat) (rest : List Nat), a = .own i .take ∧
      s.actors[i]? = some x ∧ x.device = device ∧ x.gone = false ∧ takenOn device o = [n] ∧
        x.stamps = n :: rest := by
  cases Bridge.step_cases hs with
  | own i b x x' obs hx hb =>
    cases Actor.step_cases hb with
    | take q rest hphase hqueue =>
      by_cases hd : x.device = device
      · have hordered := O i x hx
        have hidle : x.call = none := by
          by_contra hcall
          have := hordered.calling hcall
          rw [hphase] at this
          cases this
        have hkept : x.leftover = [] := by
          by_contra hleft
          have := hordered.shut.mp (hordered.kept hleft)
          simp [hphase] at this
        refine Or.inr ⟨i, x, q.stamp, rest.map Question.stamp, rfl, hx, hd, by simp [Actor.gone, hphase], ?_, ?_⟩
        · simp [takenOn, BridgeObs.takesOn, hd]
        · simp [Actor.stamps, callStamps, hidle, hkept, hqueue]
      · exact Or.inl (by simp [takenOn, BridgeObs.takesOn, hd])
    | leave hphase => exact Or.inl rfl
    | close hphase => exact Or.inl rfl
    | drain q rest hphase hqueue => exact Or.inl rfl
    | drained hphase hqueue => exact Or.inl rfl
    | reroute q rest hphase hidle hleft => exact Or.inl rfl
  | full k c i x hc hstage hx hopen hfull =>
    refine Or.inl ?_
    unfold Bridge.turnedAway
    cases c.stamp <;> rfl
  | _ => exact Or.inl rfl

/-- **What is taken, one step.** -/
theorem served_step {env : BridgeEnv} {h : List BridgeObs} {s s' : Bridge} {a : BridgeAction} {o : List BridgeObs}
    (I : InOrder env h s) (C : Custody (h ++ o) s') (hs : s.step env a = some (s', o)) : Served (h ++ o) s' := by
  -- what is taken is in order so far, and behind everything that still waits
  refine ⟨?_, ?_⟩
  · intro device
    rw [takenOn_append]
    rcases Bridge.step_takes I.kept.ordered hs device with hnone | ⟨i, x, n, rest, -, hx, hd, -, hone, hstamps⟩
    · rw [hnone, List.append_nil]
      exact I.served.sorted device
    · rw [hone, List.pairwise_append]
      refine ⟨I.served.sorted device, List.pairwise_singleton _ _, ?_⟩
      intro m hm m' hm'
      rw [List.mem_singleton.mp hm']
      exact I.served.before device m hm i x hx hd n (by rw [hstamps]; exact List.mem_cons_self)
  · intro device m hm j y hy hdy n hn
    rw [takenOn_append] at hm
    rcases List.mem_append.mp hm with hold | hnew
    · cases Bridge.step_stood I.kept.wired hs hy with
      | moved y₀ _ hy₀ hd hgone hstamps =>
        exact I.served.before device m hold j y₀ hy₀ (hd.symm.trans hdy) n (hstamps.subset hn)
      | pushed k c y₀ _ ha hc hstage hy₀ hd hgone hstamps =>
        obtain ⟨hdc, -, -⟩ := open_of_found I.kept.ordered I.registered hc hstage hy₀
        have hdevice : c.device = device := hdc.symm.trans (hd.symm.trans hdy)
        rcases List.mem_append.mp (hstamps.subset hn) with hn | hn
        · exact I.served.before device m hold j y₀ hy₀ (hd.symm.trans hdy) n hn
        · rw [List.mem_singleton.mp hn]
          exact I.untaken hc (by rw [hstage]; rfl) m (hdevice ▸ hold)
      | made k c ha hc hstage =>
        have hdevice : c.device = device := hdy
        rw [List.mem_singleton.mp hn]
        exact I.untaken hc (by rw [hstage]; rfl) m (hdevice ▸ hold)
      | left y₀ ha hy₀ hphase hfree => exact I.served.before device m hold j y₀ hy₀ hdy n hn
    · -- what is taken was the first of all that wait on the device
      rcases Bridge.step_takes I.kept.ordered hs device with hnone | ⟨i, x, q, rest, ha, hx, hd, hgx, hone, hstamps⟩
      · rw [hnone] at hnew
        cases hnew
      · rw [hone] at hnew
        have hmq : m = q := List.mem_singleton.mp hnew
        have hqx : m ∈ x.stamps := by rw [hstamps, hmq]; exact List.mem_cons_self
        have hne : m ≠ n := by
          intro heq
          have hin : m ∈ takenIn (h ++ o) := takenOn_subset (by rw [takenOn_append]; exact hm)
          exact C.untaken hin (heq ▸ Bridge.mem_waiting hy hn)
        cases Bridge.step_stood I.kept.wired hs hy with
        | moved y₀ _ hy₀ hdy₀ hgone hstamps₀ =>
          have hdevice : x.device = y₀.device := hd.trans (hdy.symm.trans hdy₀)
          by_cases hgy : y₀.gone = true
          · exact I.lines.behind i j x y₀ hx hy₀ hdevice hgx hgy m hqx n (hstamps₀.subset hn)
          · have hij := I.serial.alone I.kept.wired hx hy₀ hdevice hgx (by simpa using hgy)
            have hxy : y₀ = x := Option.some.inj (hy₀.symm.trans (hij ▸ hx))
            have hsorted := I.lines.sorted i x hx
            have hn₀ := hstamps₀.subset hn
            rw [hxy, hstamps] at hn₀
            rw [hstamps] at hsorted
            rcases List.mem_cons.mp hn₀ with heq | hrest
            · exact absurd (hmq.trans heq.symm) hne
            · exact hmq ▸ (List.pairwise_cons.mp hsorted).1 n hrest
        | pushed k c y₀ _ ha' =>
          rw [ha] at ha'
          cases ha'
        | made k c ha' =>
          rw [ha] at ha'
          cases ha'
        | left y₀ ha' =>
          rw [ha] at ha'
          cases ha'

/-! ## Runs -/

theorem inOrder_new (env : BridgeEnv) : InOrder env [] Bridge.new where
  kept := kept_new env
  registered := registered_new
  serial := serial_new
  carried := carried_new
  ahead := by intro k c j b h; cases k <;> cases h
  lines := ⟨fun i a h => (by cases h), fun i j a b h => (by cases h)⟩
  served := ⟨fun _ => List.Pairwise.nil, by intro device m hm; cases hm⟩

theorem inOrder_step {env : BridgeEnv} (hg : env.guarded = true) {h o : List BridgeObs} {s s' : Bridge}
    {a : BridgeAction} (I : InOrder env h s) (hok : s.orderly a = true) (hs : s.step env a = some (s', o)) :
    InOrder env (h ++ o) s' := by
  have K := kept_step I.kept hs
  exact
    { kept := K
      registered := registered_step hg I.kept.wired I.registered hs
      serial := serial_step I.kept.wired I.kept.ordered I.registered I.serial hok hs
      carried := carried_step I.carried hs
      ahead := ahead_step hg I.kept.wired I.kept.ordered I.registered I.serial I.ahead hok hs
      lines := lines_step I K.custody hs
      served := served_step I K.custody hs }

/-- **One actor, in order.** Where the map locks the entries that are read: in
every run whose lookups race no other channel of the device and overtake no
question accepted before, at most one actor of a device accepts questions in
any state, and the actors of a device have taken its questions in the order
they were accepted in. -/
theorem bridge_in_order (env : BridgeEnv) (hg : env.guarded = true) (as : List BridgeAction)
    (hok : (Bridge.machine env).Along (fun _ s a => s.orderly a = true) [] Bridge.new as) :
    (Bridge.machine env).Throughout (fun h s => OneAccepting s ∧ TakenInOrder h) [] Bridge.new as :=
  Machine.throughout_of_along (P := InOrder env) (fun _ _ _ _ _ I hok hs => inOrder_step hg I hok hs)
    (fun _ _ I => ⟨I.serial.oneAccepting, I.served.sorted⟩) as [] Bridge.new (inOrder_new env) hok

/-- The reap window is orderly: the second question is taken by the second actor, in order. -/
theorem reapWindow_in_order : kitchenBridge.guarded = true ∧
    (Bridge.machine kitchenBridge).Along (fun _ s a => s.orderly a = true) [] Bridge.new reapWindow ∧
    (Bridge.machine kitchenBridge).Throughout (fun h s => OneAccepting s ∧ TakenInOrder h) [] Bridge.new
      reapWindow := by
  have hok : (Bridge.machine kitchenBridge).Along (fun _ s a => s.orderly a = true) [] Bridge.new reapWindow := by
    decide
  exact ⟨rfl, hok, bridge_in_order kitchenBridge rfl reapWindow hok⟩

/-- The exit of the first actor drains the second question. Before it is routed
again, a third arrives: both calls find no entry, and both make a channel. -/
def overtaken : List BridgeAction :=
  [ask [49], .call (.mqtt 0), .call (.mqtt 0), .call (.mqtt 0), .own 0 .take,
   ask [50], .call (.mqtt 1), .call (.mqtt 1), .own 0 .leave, .deregister 0, .own 0 .close, .own 0 .drain,
   .own 0 .drain, .own 0 .reroute, .call (.actor 0), ask [51], .call (.mqtt 2), .call (.mqtt 2),
   .call (.actor 0), .call (.mqtt 2), .call (.actor 0), .own 1 .take, .own 2 .take]

/-- Two actors of the kitchen run, and the third question is taken before the second. -/
theorem leftover_overtaken : kitchenBridge.guarded = true ∧
    ∃ s h a b, (Bridge.machine kitchenBridge).run Bridge.new overtaken = some (s, h) ∧
      s.actors[1]? = some a ∧ s.actors[2]? = some b ∧ a.device = b.device ∧ a.phase = .running ∧
      b.phase = .running ∧ takenOn "kitchen".toList h = [0, 2, 1] ∧ ¬ (OneAccepting s ∧ TakenInOrder h) := by
  refine ⟨rfl, _, _, _, _, rfl, rfl, rfl, rfl, rfl, rfl, by decide, ?_⟩
  intro hboth
  exact absurd (hboth.1 1 2 _ _ rfl rfl rfl rfl rfl) (by decide)

end AthenaVoice.Assist
