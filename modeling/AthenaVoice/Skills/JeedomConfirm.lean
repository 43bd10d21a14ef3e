import AthenaVoice.Lib.Offers
import AthenaVoice.Skills.JeedomHandle

/-
  Spoken confirmation — the pending slot of `skills-jeedom/src/lib.rs` over whole runs

  A device may ask for confirmation. Its intents then leave a command in the
  slot, under an expiry, and "yes" executes what the slot holds. There is one
  slot for all devices, a later prompt overwrites an earlier one, and nothing
  deletes it.

  The protocol says what that is for: prompts are offers, "yes" and "no" answer
  the one that stands. `machine` handles any intents at any seconds, every call
  of a handler finding the clock and the box as it may.

  What is proved:
    1. `exec_handle` — what handling one intent can do.
    2. `inv_step` — the slot holds the offer that stands, with its expiry, and
       nothing if none does.
    3. `confirmation_protocol` — a gated intent executes nothing; "yes" executes
       the standing offer, if it is young enough, and no offer twice.
-/

namespace AthenaVoice.Skills.Jeedom

open Lib Sdk Storage Wasm

/-! ## The protocol -/

/-- The prompt an intent gives rise to: the command of the on/off device or
shutter it names, if that device asks for confirmation and has the command. -/
def promptOf (rt : Runtime) (cfg : Config) (intent : Intent) : Option Pending :=
  match turnKey intent.name with
  | some (key, isOn) =>
    ((findAction cfg key).filter (·.confirm)).map (fun d =>
      { cmdId := d.command isOn, label := actionLabel d isOn (isEn intent), slider := none })
  | none => do
    let (key, asked) ← shutterKey intent.name
    let s ← (findShutter cfg key).filter (·.confirm)
    let cmd ← (aim rt intent asked).filter (fun cmd => cmd != .stops && s.command cmd != 0)
    some { cmdId := s.command cmd, label := shutterLabel s.name cmd (isEn intent), slider := cmd.slider }

/-- The intent is about a device that asks for confirmation, and is no stop. -/
def Gated (cfg : Config) (intent : Intent) : Prop :=
  (∃ key isOn d, turnKey intent.name = some (key, isOn) ∧ findAction cfg key = some d ∧ d.confirm = true) ∨
    (∃ key cmd s, shutterKey intent.name = some (key, cmd) ∧ cmd ≠ .stops ∧ findShutter cfg key = some s ∧
      s.confirm = true)

def answersPrompt (intent : Intent) : Bool := intent.name == confirmName || intent.name == cancelName

/-- A handled intent: what each of the handler's calls found, the calls, and
what was answered. -/
structure Handled where
  intent : Intent
  moments : Nat → Moment
  calls : Prog.Trace Call Call.Answer
  answer : SkillResult

/-- The second of the handler's first call. -/
def Handled.second (o : Handled) : UInt64 := (o.moments 0).now

def step (rt : Runtime) (cfg : Config) (s : Store) (a : Intent × (Nat → Moment)) : Option (Store × List Handled) :=
  let r := Prog.exec serve a.2 s (handle rt cfg a.1)
  some (r.1, [{ intent := a.1, moments := a.2, calls := r.2.1, answer := r.2.2 }])

/-- The skill, one intent after the other. -/
def machine (rt : Runtime) (cfg : Config) : Machine Store (Intent × (Nat → Moment)) Handled := ⟨step rt cfg⟩

/-- Prompts are offers; "yes" and "no" answer them. -/
def protocol (rt : Runtime) (cfg : Config) : Offering Handled Pending where
  offers := fun o => promptOf rt cfg o.intent
  answers := fun o => answersPrompt o.intent

/-! ## The slot -/

/-- What the temporary store has in the slot. -/
def slot (s : Store) : Option (UInt64 × Bytes) := s.tmp.lookup ([], pendingKey)

/-- Nothing is in the slot but, possibly, the empty value. -/
def Cleared (s : Store) : Prop := ∀ expiresAt val, slot s = some (expiresAt, val) → val = []

variable (rt : Runtime) (cfg : Config)

/-- What `load_pending` finds. -/
def loaded (s : Store) (now : UInt64) : Option Pending :=
  let bytes := (hostTmpGet now s [] pendingKey).2
  if bytes.isEmpty then none else rt.pending.decode bytes

/-- What a "yes" or a "no" leaves. -/
def settled (s : Store) (e : Nat → Moment) : Store :=
  match loaded rt s (e 0).now with
  | none => (hostTmpGet (e 0).now s [] pendingKey).1
  | some _ => (hostTmpGet (e 0).now s [] pendingKey).1.tmpSet (e 1).now [] pendingKey [] 1

theorem slot_tmpSet (s : Store) (now : UInt64) (val : Bytes) (ttl : UInt64) :
    slot (s.tmpSet now [] pendingKey val ttl) = some (now + ttl, val) := by
  rw [slot, Store.tmp_tmpSet, if_pos rfl]

theorem slot_tmpGet (s : Store) (now : UInt64) :
    slot (hostTmpGet now s [] pendingKey).1 = (slot s).filter (fun e => !(now ≥ e.1)) := by
  show (s.tmpGet now [] pendingKey).1.tmp.lookup ([], pendingKey) = _
  rw [Store.tmp_tmpGet]
  rfl

theorem tmpGet_slot (s : Store) (now : UInt64) :
    (hostTmpGet now s [] pendingKey).2 = (((slot s).filter (fun e => !(now ≥ e.1))).map (·.2)).getD [] := by
  rw [hostTmpGet_value, Store.tmpGet_value]
  rfl

theorem loaded_of_cleared {s : Store} (hs : Cleared s) (now : UInt64) : loaded rt s now = none := by
  have hempty : (hostTmpGet now s [] pendingKey).2 = [] := by
    rw [tmpGet_slot]
    cases hslot : slot s with
    | none => rfl
    | some e =>
      by_cases hexpired : now ≥ e.1
      · simp [Option.filter, hexpired]
      · simp [Option.filter, hexpired, hs e.1 e.2 hslot]
  simp only [loaded, hempty, List.isEmpty_nil, if_true]

theorem loaded_of_slot {s : Store} {expiresAt : UInt64} {p : Pending}
    (hs : slot s = some (expiresAt, rt.pending.encode p)) (now : UInt64) :
    loaded rt s now = if now < expiresAt then some p else none := by
  by_cases hlive : now < expiresAt
  · have hbytes : (hostTmpGet now s [] pendingKey).2 = rt.pending.encode p := by
      rw [tmpGet_slot, hs]
      simp [Option.filter, hlive]
    have hne : (rt.pending.encode p).isEmpty = false := by
      simp [rt.pending_ne_nil p]
    simp only [loaded, hbytes, hne, Bool.false_eq_true, if_false, rt.pending.decode_encode, if_pos hlive]
  · have hbytes : (hostTmpGet now s [] pendingKey).2 = [] := by
      rw [tmpGet_slot, hs]
      simp [Option.filter, UInt64.not_lt.mp hlive]
    simp only [loaded, hbytes, List.isEmpty_nil, if_true, if_neg hlive]

theorem settled_cleared {s : Store} (e : Nat → Moment)
    (hs : Cleared s ∨ ∃ expiresAt p, slot s = some (expiresAt, rt.pending.encode p)) :
    Cleared (settled rt s e) := by
  intro expiresAt val hslot
  unfold settled at hslot
  cases hloaded : loaded rt s (e 0).now with
  | some p =>
    rw [hloaded, slot_tmpSet] at hslot
    cases hslot
    rfl
  | none =>
    rw [hloaded] at hslot
    simp only [slot_tmpGet] at hslot
    obtain ⟨hheld, hlive⟩ := Option.filter_eq_some_iff.mp hslot
    rcases hs with hcleared | ⟨expires, p, hoffer⟩
    · exact hcleared _ _ hheld
    · -- an offer that is not found has expired, so reading it has removed it
      rw [hoffer] at hheld
      cases hheld
      rw [loaded_of_slot rt hoffer, if_pos (by simpa using hlive)] at hloaded
      cases hloaded

/-! ## One intent -/

variable {rt cfg} {intent : Intent}

theorem promptOf_turn {key : Text} {isOn : Bool} (h : turnKey intent.name = some (key, isOn)) :
    promptOf rt cfg intent = ((findAction cfg key).filter (·.confirm)).map (fun d =>
      { cmdId := d.command isOn, label := actionLabel d isOn (isEn intent), slider := none }) := by
  unfold promptOf
  rw [h]

theorem promptOf_shutter {key : Text} {asked : ShutterCmd} (h : shutterKey intent.name = some (key, asked)) :
    promptOf rt cfg intent = ((findShutter cfg key).filter (·.confirm)).bind (fun s =>
      ((aim rt intent asked).filter (fun cmd => cmd != .stops && s.command cmd != 0)).bind (fun cmd =>
        some { cmdId := s.command cmd, label := shutterLabel s.name cmd (isEn intent), slider := cmd.slider })) := by
  unfold promptOf
  rw [turnKey_of_shutterKey h, h]
  rfl

theorem promptOf_other (hturn : turnKey intent.name = none) (hshutter : shutterKey intent.name = none) :
    promptOf rt cfg intent = none := by
  unfold promptOf
  rw [hturn, hshutter]
  rfl

theorem handle_of_prompt {p : Pending} (h : promptOf rt cfg intent = some p) :
    handle rt cfg intent = ask rt p (isEn intent) := by
  cases hturn : turnKey intent.name with
  | some named =>
    obtain ⟨key, isOn⟩ := named
    rw [promptOf_turn hturn, Option.map_eq_some_iff] at h
    obtain ⟨d, hd, rfl⟩ := h
    obtain ⟨hfind, hconfirm⟩ := Option.filter_eq_some_iff.mp hd
    rw [handle_turn rt cfg intent hturn, handleTurn, hfind]
    exact if_pos hconfirm
  | none =>
    cases hshutter : shutterKey intent.name with
    | none =>
      rw [promptOf_other hturn hshutter] at h
      cases h
    | some named =>
      obtain ⟨key, asked⟩ := named
      rw [promptOf_shutter hshutter, Option.bind_eq_some_iff] at h
      obtain ⟨s, hs, h⟩ := h
      obtain ⟨cmd, hcmd, heq⟩ := Option.bind_eq_some_iff.mp h
      cases heq
      obtain ⟨hfind, hconfirm⟩ := Option.filter_eq_some_iff.mp hs
      obtain ⟨haim, hasks⟩ := Option.filter_eq_some_iff.mp hcmd
      obtain ⟨hgated, hid⟩ := Bool.and_eq_true_iff.mp hasks
      rw [handle_shutter rt cfg intent hshutter, handleShutter, hfind]
      simp only [haim]
      rw [if_neg (by simpa using hid), if_pos (by rw [hconfirm, hgated]; rfl)]

theorem handle_of_gated (h : Gated cfg intent) :
    (∃ p, promptOf rt cfg intent = some p) ∨ ∃ r, handle rt cfg intent = pure r := by
  rcases h with ⟨key, isOn, d, hturn, hfind, hconfirm⟩ | ⟨key, asked, s, hshutter, hstop, hfind, hconfirm⟩
  · refine Or.inl ⟨{ cmdId := d.command isOn, label := actionLabel d isOn (isEn intent), slider := none }, ?_⟩
    rw [promptOf_turn hturn, hfind, Option.filter_some_pos hconfirm]
    rfl
  · rw [promptOf_shutter hshutter, hfind, Option.filter_some_pos hconfirm, handle_shutter rt cfg intent hshutter,
      handleShutter, hfind]
    cases haim : aim rt intent asked with
    | none => exact Or.inr ⟨_, rfl⟩
    | some cmd =>
      have hmoves : cmd ≠ .stops := by
        intro heq
        subst heq
        cases asked with
        | stops => exact hstop rfl
        | opens => cases haim
        | closes => cases haim
        | pos v =>
          obtain ⟨w, _, hw⟩ := Option.map_eq_some_iff.mp haim
          cases hw
      by_cases hid : s.command cmd = 0
      · exact Or.inr ⟨_, if_pos hid⟩
      · refine Or.inl
          ⟨{ cmdId := s.command cmd, label := shutterLabel s.name cmd (isEn intent), slider := cmd.slider }, ?_⟩
        rw [Option.bind_some, Option.filter_some_pos (by simp [hmoves, hid])]
        rfl

theorem handleTurn_uses {key : Text} {isOn : Bool} (h : turnKey intent.name = some (key, isOn))
    (hprompt : promptOf rt cfg intent = none) (en : Bool) : (handleTurn rt cfg key isOn en).Uses Call.IsGet := by
  unfold handleTurn
  cases hfind : findAction cfg key with
  | none => trivial
  | some d =>
    have hopen : ¬ d.confirm = true := by
      intro hconfirm
      rw [promptOf_turn h, hfind, Option.filter_some_pos hconfirm] at hprompt
      cases hprompt
    simp only [if_neg hopen]
    exact Prog.uses_bind (execCmd_uses _) (fun _ => trivial)

theorem handleShutter_uses {key : Text} {asked : ShutterCmd} (h : shutterKey intent.name = some (key, asked))
    (hprompt : promptOf rt cfg intent = none) : (handleShutter rt cfg intent key asked).Uses Call.IsGet := by
  unfold handleShutter
  cases hfind : findShutter cfg key with
  | none => trivial
  | some s =>
    cases haim : aim rt intent asked with
    | none => trivial
    | some cmd =>
      by_cases hid : s.command cmd = 0
      · simp only [if_pos hid]
        trivial
      · have hopen : ¬ (s.confirm && cmd != .stops) = true := by
          intro hboth
          obtain ⟨hconfirm, hmoves⟩ := Bool.and_eq_true_iff.mp hboth
          rw [promptOf_shutter h, hfind, Option.filter_some_pos hconfirm, Option.bind_some, haim,
            Option.filter_some_pos (by simp [hmoves, hid])] at hprompt
          cases hprompt
        simp only [if_neg hid, if_neg hopen]
        exact Prog.uses_bind (execute_uses _ _) (fun _ => trivial)

theorem handle_uses (hprompt : promptOf rt cfg intent = none) (hanswers : answersPrompt intent = false) :
    (handle rt cfg intent).Uses Call.IsGet := by
  have hyes : ¬ intent.name = confirmName := by
    intro h
    simp [answersPrompt, h] at hanswers
  have hno : ¬ intent.name = cancelName := by
    intro h
    simp [answersPrompt, h] at hanswers
  unfold handle
  cases readTarget cfg intent.name with
  | some sensor => exact speakReading_uses sensor _
  | none =>
    cases Str.stripPrefix "jeedom.read_all.".toList intent.name with
    | some metric => exact handleReadAll_uses rt metric _
    | none =>
      cases hturn : turnKey intent.name with
      | some named => exact handleTurn_uses hturn hprompt _
      | none =>
        by_cases hgroup : intent.name = openAllName ∨ intent.name = closeAllName
        · simp only [if_pos hgroup]
          exact handleGroup_uses _ _
        · cases hshutter : shutterKey intent.name with
          | some named =>
            simp only [if_neg hgroup]
            exact handleShutter_uses hshutter hprompt
          | none =>
            simp only [if_neg hgroup, if_neg hyes, if_neg hno]
            exact handleAsked_uses rt intent _

variable (rt) in
theorem exec_loadPending (f : Option Pending → Guest SkillResult) (e : Nat → Moment) (s : Store) :
    Prog.exec serve e s (loadPending rt >>= f) =
      let rest := Prog.exec serve (fun n => e (n + 1)) (hostTmpGet (e 0).now s [] pendingKey).1
        (f (loaded rt s (e 0).now))
      (rest.1, ⟨.tmpGet pendingKey, (hostTmpGet (e 0).now s [] pendingKey).2⟩ :: rest.2.1, rest.2.2) := rfl

theorem exec_clearPending (p : Guest SkillResult) (e : Nat → Moment) (s : Store) :
    Prog.exec serve e s (clearPending >>= fun _ => p) =
      let rest := Prog.exec serve (fun n => e (n + 1)) (s.tmpSet (e 0).now [] pendingKey [] 1) p
      (rest.1, ⟨.tmpSet pendingKey [] 1, ()⟩ :: rest.2.1, rest.2.2) := rfl

theorem exec_confirm (e : Nat → Moment) (s : Store) (en : Bool) :
    (Prog.exec serve e s (handleConfirm rt cfg en)).1 = settled rt s e ∧
      gets (Prog.exec serve e s (handleConfirm rt cfg en)).2.1 =
        (loaded rt s (e 0).now).elim [] (fun p => (commandUrl cfg p.cmdId p.slider).toList) := by
  unfold handleConfirm settled
  rw [exec_loadPending]
  cases loaded rt s (e 0).now with
  | none => exact ⟨rfl, rfl⟩
  | some p =>
    simp only [exec_clearPending]
    exact exec_execute cfg _ _ p.cmdId p.slider en

theorem exec_cancel (e : Nat → Moment) (s : Store) (en : Bool) :
    (Prog.exec serve e s (handleCancel rt en)).1 = settled rt s e ∧
      gets (Prog.exec serve e s (handleCancel rt en)).2.1 = [] := by
  unfold handleCancel settled
  rw [exec_loadPending]
  cases loaded rt s (e 0).now with
  | none => exact ⟨rfl, rfl⟩
  | some p => exact ⟨rfl, rfl⟩

theorem promptOf_answers (h : answersPrompt intent = true) : promptOf rt cfg intent = none := by
  rcases Bool.or_eq_true_iff.mp h with hname | hname
  · have heq : intent.name = confirmName := by simpa using hname
    apply promptOf_other
    · rw [heq]
      decide
    · rw [heq]
      decide
  · have heq : intent.name = cancelName := by simpa using hname
    apply promptOf_other
    · rw [heq]
      decide
    · rw [heq]
      decide

theorem exec_answers (h : answersPrompt intent = true) (e : Nat → Moment) (s : Store) :
    (Prog.exec serve e s (handle rt cfg intent)).1 = settled rt s e := by
  rcases Bool.or_eq_true_iff.mp h with hname | hname
  · rw [handle_confirm rt cfg intent (by simpa using hname)]
    exact (exec_confirm e s _).1
  · rw [handle_cancel rt cfg intent (by simpa using hname)]
    exact (exec_cancel e s _).1

/-! ## Runs -/

variable (rt cfg)

/-- The `j`-th intent, a "yes", executes the standing offer if it is young
enough, and nothing if it is not, or none stands. -/
def Executes (h : List Handled) (j : Nat) (o : Handled) : Prop :=
  (∀ i a p, (protocol rt cfg).Stands h i j p → h[i]? = some a →
    gets o.calls = if o.second < a.second + pendingTtlSec then (commandUrl cfg p.cmdId p.slider).toList else []) ∧
  ((∀ i p, ¬ (protocol rt cfg).Stands h i j p) → gets o.calls = [])

/-- The slot holds the standing offer, with its expiry; if none stands, nothing. -/
def Holds (h : List Handled) (s : Store) : Prop :=
  (∃ i a p, (protocol rt cfg).Stands h i h.length p ∧ h[i]? = some a ∧
    slot s = some (a.second + pendingTtlSec, rt.pending.encode p)) ∨
  ((∀ i p, ¬ (protocol rt cfg).Stands h i h.length p) ∧ Cleared s)

/-- What holds of a history and the store it leaves. -/
structure Inv (h : List Handled) (s : Store) : Prop where
  holds : Holds rt cfg h s
  gated : ∀ o ∈ h, Gated cfg o.intent → gets o.calls = []
  asks : ∀ o ∈ h, ∀ p, promptOf rt cfg o.intent = some p → o.answer = question p (isEn o.intent)
  executes : ∀ j o, h[j]? = some o → o.intent.name = confirmName → Executes rt cfg h j o

variable {rt cfg}

theorem executes_append {h l : List Handled} {j : Nat} {o : Handled} (hj : j ≤ h.length)
    (he : Executes rt cfg h j o) : Executes rt cfg (h ++ l) j o := by
  constructor
  · intro i a p hs ha
    have hs' := (Offering.stands_append hj).mp hs
    rw [List.getElem?_append_left hs'.lt_length] at ha
    exact he.1 i a p hs' ha
  · intro hnone
    apply he.2
    intro i p hs
    exact hnone i p ((Offering.stands_append hj).mpr hs)

theorem inv_new : Inv rt cfg [] Store.new where
  holds := by
    refine Or.inr ⟨?_, ?_⟩
    · intro i p hs
      exact absurd hs.1 (Nat.not_lt_zero i)
    · intro expiresAt val hslot
      cases hslot
  gated := by simp
  asks := by simp
  executes := by simp

theorem holds_step {h : List Handled} {s : Store} (hi : Holds rt cfg h s) (intent : Intent) (e : Nat → Moment)
    (o : Handled) (ho : o.intent = intent) (hm : o.moments = e) :
    Holds rt cfg (h ++ [o]) (Prog.exec serve e s (handle rt cfg intent)).1 := by
  subst ho hm
  have hlength : (h ++ [o]).length = h.length + 1 := by simp
  unfold Holds
  rw [hlength]
  cases hprompt : promptOf rt cfg o.intent with
  | some p =>
    refine Or.inl ⟨h.length, o, p, Offering.stands_concat.mpr (Or.inl ⟨rfl, hprompt⟩),
      List.getElem?_concat_length, ?_⟩
    rw [handle_of_prompt hprompt, exec_ask]
    exact slot_tmpSet _ _ _ _
  | none =>
    cases hanswers : answersPrompt o.intent with
    | true =>
      -- nothing stands after an answer
      refine Or.inr ⟨?_, ?_⟩
      · intro i p hs
        rcases Offering.stands_concat.mp hs with ⟨_, hoffers⟩ | ⟨_, hfalse, _⟩
        · exact absurd (hprompt.symm.trans hoffers) (by simp)
        · exact absurd (hanswers.symm.trans hfalse) (by simp)
      · rw [exec_answers hanswers]
        apply settled_cleared
        rcases hi with ⟨i, a, p, _, _, hslot⟩ | ⟨_, hcleared⟩
        · exact Or.inr ⟨_, _, hslot⟩
        · exact Or.inl hcleared
    | false =>
      have hstands : ∀ i p, (protocol rt cfg).Stands (h ++ [o]) i (h.length + 1) p ↔
          (protocol rt cfg).Stands h i h.length p := by
        intro i p
        constructor
        · intro hs
          rcases Offering.stands_concat.mp hs with ⟨_, hoffers⟩ | ⟨_, _, hs⟩
          · exact absurd (hprompt.symm.trans hoffers) (by simp)
          · exact hs
        · intro hs
          exact Offering.stands_concat.mpr (Or.inr ⟨hprompt, hanswers, hs⟩)
      rw [Prog.exec_frame serve_of_isGet (handle_uses hprompt hanswers)]
      rcases hi with ⟨i, a, p, hs, ha, hslot⟩ | ⟨hnone, hcleared⟩
      · refine Or.inl ⟨i, a, p, (hstands i p).mpr hs, ?_, hslot⟩
        rw [List.getElem?_append_left hs.lt_length]
        exact ha
      · exact Or.inr ⟨fun i p hs => hnone i p ((hstands i p).mp hs), hcleared⟩

theorem executes_step {h : List Handled} {s : Store} (hi : Holds rt cfg h s) (o : Handled)
    (hname : o.intent.name = confirmName)
    (hcalls : o.calls = (Prog.exec serve o.moments s (handle rt cfg o.intent)).2.1) :
    Executes rt cfg h h.length o := by
  have hgets : gets o.calls =
      (loaded rt s o.second).elim [] (fun p => (commandUrl cfg p.cmdId p.slider).toList) := by
    rw [hcalls, handle_confirm rt cfg o.intent hname]
    exact (exec_confirm o.moments s _).2
  rw [Executes, hgets]
  rcases hi with ⟨i, a, p, hs, ha, hslot⟩ | ⟨hnone, hcleared⟩
  · refine ⟨?_, fun hno => absurd hs (hno i p)⟩
    intro i' a' p' hs' ha'
    obtain ⟨rfl, rfl⟩ := Offering.stands_unique hs hs'
    rw [ha] at ha'
    cases ha'
    rw [loaded_of_slot rt hslot]
    split <;> rfl
  · refine ⟨fun i p _ hs => absurd hs (hnone i _), fun _ => ?_⟩
    rw [loaded_of_cleared rt hcleared]
    rfl

/-- **One step keeps the invariant.** -/
theorem inv_step (h : List Handled) (s : Store) (a : Intent × (Nat → Moment)) (s' : Store) (o : List Handled)
    (hi : Inv rt cfg h s) (hs : (machine rt cfg).step s a = some (s', o)) : Inv rt cfg (h ++ o) s' := by
  cases hs
  refine ⟨holds_step hi.holds a.1 a.2 _ rfl rfl, ?_, ?_, ?_⟩
  · intro o ho hgated
    rcases List.mem_append.mp ho with ho | ho
    · exact hi.gated o ho hgated
    · rw [List.mem_singleton.mp ho] at hgated ⊢
      have hgated' : (∃ p, promptOf rt cfg a.1 = some p) ∨ ∃ r, handle rt cfg a.1 = pure r :=
        handle_of_gated hgated
      rcases hgated' with ⟨p, hp⟩ | ⟨r, hr⟩
      · simp only [handle_of_prompt hp]
        rfl
      · simp only [hr]
        rfl
  · intro o ho p hp
    rcases List.mem_append.mp ho with ho | ho
    · exact hi.asks o ho p hp
    · rw [List.mem_singleton.mp ho] at hp ⊢
      simp only [handle_of_prompt hp]
      rfl
  · intro j o ho hname
    by_cases hj : j < h.length
    · rw [List.getElem?_append_left hj] at ho
      exact executes_append (Nat.le_of_lt hj) (hi.executes j o ho hname)
    · have hlast : j = h.length := by
        have := (List.getElem?_eq_some_iff.mp ho).1
        simp at this
        omega
      subst hlast
      rw [List.getElem?_concat_length] at ho
      cases ho
      exact executes_append (Nat.le_refl _) (executes_step hi.holds _ hname rfl)

variable (rt cfg) in
/-- The `j`-th intent, a "yes", executed the prompt of the `i`-th. -/
def Executed (h : List Handled) (i j : Nat) : Prop :=
  ∃ o p, h[j]? = some o ∧ o.intent.name = confirmName ∧ (protocol rt cfg).Stands h i j p ∧ gets o.calls ≠ []

theorem lt_of_fresh {made now : UInt64} (h : now < made + pendingTtlSec) : now.toNat < made.toNat + 30 := by
  have hlt : now.toNat < (made + pendingTtlSec).toNat := UInt64.lt_iff_toNat_lt.mp h
  have hsum : (made + pendingTtlSec).toNat = (made.toNat + 30) % 2 ^ 64 := UInt64.toNat_add made pendingTtlSec
  have hle := Nat.mod_le (made.toNat + 30) (2 ^ 64)
  omega

variable (rt cfg) in
/-- **The confirmation protocol.** Over any intents at any seconds: a gated
intent executes nothing and asks; a "yes" executes the standing prompt's command
if it is young enough, and nothing else; what it executes was put to the user
less than thirty seconds before; and no prompt is executed twice. -/
theorem confirmation_protocol {actions : List (Intent × (Nat → Moment))} {s : Store} {obs : List Handled}
    (hrun : (machine rt cfg).run Store.new actions = some (s, obs)) :
    (∀ o ∈ obs, Gated cfg o.intent → gets o.calls = []) ∧
    (∀ o ∈ obs, ∀ p, promptOf rt cfg o.intent = some p → o.answer = question p (isEn o.intent)) ∧
    (∀ j o, obs[j]? = some o → o.intent.name = confirmName → Executes rt cfg obs j o) ∧
    (∀ i j, Executed rt cfg obs i j →
      ∃ a o, obs[i]? = some a ∧ obs[j]? = some o ∧ o.second.toNat < a.second.toNat + 30) ∧
    (∀ i j k, Executed rt cfg obs i j → Executed rt cfg obs i k → j = k) := by
  have hinv : Inv rt cfg obs s := Machine.run_invariant (h := []) inv_step inv_new hrun
  refine ⟨hinv.gated, hinv.asks, hinv.executes, ?_, ?_⟩
  · intro i j hex
    obtain ⟨o, p, ho, hname, hs, hne⟩ := hex
    obtain ⟨a, ha, _⟩ := hs.2.1
    refine ⟨a, o, ha, ho, ?_⟩
    apply lt_of_fresh
    have hgets := (hinv.executes j o ho hname).1 i a p hs ha
    by_cases hfresh : o.second < a.second + pendingTtlSec
    · exact hfresh
    · rw [if_neg hfresh] at hgets
      exact absurd hgets hne
  · intro i j k hj hk
    obtain ⟨o, p, ho, hname, hs, _⟩ := hj
    obtain ⟨o', q, ho', hname', hs', _⟩ := hk
    exact Offering.answered_once hs hs' ho ho' (by simp [protocol, answersPrompt, hname])
      (by simp [protocol, answersPrompt, hname'])

/-- A gate that asks for confirmation. -/
def gateConfig : Config :=
  { baseUrl := some "http://jeedom.local/".toList, apiKey := some "key".toList, sensors := [], shutters := []
    actions := [{ name := "portail".toList, room := [], prefixWord := [], onId := 124, offId := 125, confirm := true }]
      }

/-- An intent in French, at one second, on a box that answers. -/
def spoken (name : String) (now : UInt64) : Intent × (Nat → Moment) :=
  ({ name := name.toList, slots := [], locale := "fr".toList },
    fun _ => { now := now, http := some { whole := .string "ok".toList, value := none } })

/-- The gate is asked for, confirmed twenty seconds later, and confirmed again. -/
def gateRun : List (Intent × (Nat → Moment)) :=
  [spoken "jeedom.turn_on.124" 100, spoken "jeedom.confirm" 120, spoken "jeedom.confirm" 121]

/-- The gate opens at the first "yes" only. -/
theorem gate_confirmed : ∃ s obs, (machine .ascii gateConfig).run Store.new gateRun = some (s, obs) ∧
    obs.map (fun o => gets o.calls) =
      [[], ["http://jeedom.local/core/api/jeeApi.php?apikey=key&type=cmd&id=124".toList], []] := by
  have hrun : (machine .ascii gateConfig).run Store.new gateRun = some (_, _) := rfl
  obtain ⟨hgated, _, hexecutes, _, _⟩ := confirmation_protocol .ascii gateConfig hrun
  have hprompt : gets _ = [] := hgated _ List.mem_cons_self
    (Or.inl ⟨"124".toList, true, gateConfig.actions.head (by decide), by decide, by decide, rfl⟩)
  have hyes : gets _ = ["http://jeedom.local/core/api/jeeApi.php?apikey=key&type=cmd&id=124".toList] :=
    ((hexecutes 1 _ rfl rfl).1 0 _ { cmdId := 124, label := "allumer portail".toList, slider := none }
      ⟨Nat.zero_lt_one, ⟨_, rfl, by decide⟩, fun k _ hk hk' _ => absurd hk' (by omega)⟩ rfl).trans (by decide)
  have hagain : gets _ = [] := (hexecutes 2 _ rfl rfl).2 (by
    rintro i p ⟨hlt, ⟨a, ha, hoffers⟩, hlater⟩
    cases i with
    | zero => exact absurd (hlater 1 _ Nat.zero_lt_one (Nat.lt_succ_self 1) rfl).2 (by decide)
    | succ i =>
      have hi : i = 0 := by omega
      subst hi
      cases ha
      have hnone : promptOf .ascii gateConfig (spoken "jeedom.confirm" 120).1 = none := promptOf_answers (by decide)
      exact absurd (hnone.symm.trans hoffers) (by simp))
  refine ⟨_, _, hrun, ?_⟩
  show [gets _, gets _, gets _] = _
  rw [hprompt, hyes, hagain]

end AthenaVoice.Skills.Jeedom
