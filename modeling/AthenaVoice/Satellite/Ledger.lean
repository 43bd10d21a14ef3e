import AthenaVoice.Satellite.Ingress

/-
  Sessions open and close in turn — the satellite adapter

  The history of the adapter is a ledger: what it records of a session is
  accounted for by what it recorded before. An entry is made when there is
  none, is removed when there is one, and a token is never given twice. What is
  fed to a session's tasks, or published for it, is while its entry stands.

  Nothing looks at who sends: a session opened by one satellite is spoken to,
  and ended, by whoever knows its id.

  What is proved:
    1. `ledger_step` — one step keeps the ledger.
    2. `caused_of_step` — what is seen of a step is what its message, and the
       history before it, call for.
    3. `sessions_ledger` — every run keeps a ledger with every entry caused, and
       the manager's entries are those of the ledger.
-/

namespace AthenaVoice.Satellite

open Lib CoreTypes Mqtt Sessions

/-! ## The ledger -/

/-- What an observation makes of a session's entry. -/
def AdapterObs.post (session : SessionId) (entry : Option (Text × Nat)) : AdapterObs → Option (Text × Nat)
  | .opened k sat token => if session = k then some (sat, token) else entry
  | .closed k _ => if session = k then none else entry
  | _ => entry

/-- Who opened a session, and its token, by the history. -/
def entry (session : SessionId) (h : List AdapterObs) : Option (Text × Nat) :=
  h.foldl (AdapterObs.post session) none

def AdapterObs.isOpened : AdapterObs → Bool
  | .opened .. => true
  | _ => false

def opens (h : List AdapterObs) : Nat := h.countP AdapterObs.isOpened

/-- The tasks of this token were wired. -/
def Wired (token : Nat) (h : List AdapterObs) : Prop :=
  ∃ session sat locale, AdapterObs.started session sat locale token ∈ h

/-- What the history before an observation has to account for. -/
def Legal (deps : SatelliteDeps) (before : List AdapterObs) : AdapterObs → Prop
  | .opened session _ token => entry session before = none ∧ token = opens before
  | .collided session => entry session before ≠ none
  | .started session sat _ token => entry session before = some (sat, token) ∧ ¬ Wired token before
  | .panicked session => entry session before = none
  | .closed session token => ∃ sat, entry session before = some (sat, token)
  | .accepted token frame => Wired token before ∧ ∃ sat, entry frame.session before = some (sat, token)
  | .dropped token frame => Wired token before ∧ ∃ sat, entry frame.session before = some (sat, token)
  | .heard token session source _ =>
    (∃ sat locale, AdapterObs.started session sat locale token ∈ before) ∧
      (source = .text → ∃ sat, entry session before = some (sat, token))
  | .read token _ => Wired token before
  | .routed token _ => Wired token before
  | .untold token _ _ => Wired token before
  | .sent _ => True
  | .told session token e topic payload =>
    ∃ sat leaf, entry session before = some (sat, token) ∧ Adapter.egressKind e = some (session, leaf, payload) ∧
      topic = sessionTopic deps.topicRoot sat (deps.uuids.display (sidOf session)) leaf

/-- The ledger and the adapter agree. -/
structure Ledger (deps : SatelliteDeps) (h : List AdapterObs) (s : Adapter) : Prop where
  recorded : Machine.Recorded (Legal deps) h
  entries : ∀ k, s.view k = entry k h
  cancelled : ∀ token dag, s.dags[token]? = some dag →
    (dag.cancelled = false ↔ s.view dag.session = some (dag.sat, token))
  opening : ∀ x, s.opening = some x →
    s.panicked = false ∧ (s.view x.session = some (x.sat, s.dags.length) ∨ s.view x.session = none)
  owner : ∀ k sat token, s.view k = some (sat, token) →
    (∃ dag, s.dags[token]? = some dag ∧ dag.session = k ∧ dag.sat = sat) ∨
      (token = s.dags.length ∧ ∃ x, s.opening = some x ∧ x.session = k)
  count : opens h = s.dags.length + s.opening.toList.length + s.panicked.toNat
  wired : ∀ token dag, s.dags[token]? = some dag → .started dag.session dag.sat dag.locale token ∈ h
  fresh : ∀ token, Wired token h → token < s.dags.length
  named : ∀ k sat token, s.view k = some (sat, token) → ∃ id : SatelliteId, id.text = sat

/-- Whose tasks they are, and whether they are cancelled. -/
def Dag.ident (d : Dag) : SessionId × Text × Text × Bool := (d.session, d.sat, d.locale, d.cancelled)

theorem Ran.ident {token : Nat} {dag dag' : Dag} {o : List AdapterObs} {es : List Event} (h : Ran token dag dag' o es) :
    dag'.ident = dag.ident := by
  cases h <;> rfl

/-! ## Reading the ledger -/

theorem entry_snoc (session : SessionId) (h : List AdapterObs) (x : AdapterObs) :
    entry session (h ++ [x]) = x.post session (entry session h) := by
  simp [entry]

theorem opens_snoc (h : List AdapterObs) (x : AdapterObs) : opens (h ++ [x]) = opens h + x.isOpened.toNat := by
  simp only [opens, List.countP_append, List.countP_singleton]
  cases x.isOpened <;> rfl

/-- An observation that opens, wires and closes nothing. -/
def AdapterObs.neutral : AdapterObs → Bool
  | .opened .. | .started .. | .closed .. => false
  | _ => true

theorem AdapterObs.post_neutral {x : AdapterObs} (hx : x.neutral = true) (session : SessionId)
    (entry : Option (Text × Nat)) : x.post session entry = entry := by
  cases x <;> first | rfl | cases hx

theorem AdapterObs.isOpened_neutral {x : AdapterObs} (hx : x.neutral = true) : x.isOpened = false := by
  cases x <;> first | rfl | cases hx

theorem wired_snoc {token : Nat} {h : List AdapterObs} {x : AdapterObs} :
    Wired token (h ++ [x]) ↔ Wired token h ∨ ∃ session sat locale, x = .started session sat locale token := by
  simp only [Wired, List.mem_append, List.mem_singleton]
  refine ⟨?_, ?_⟩
  · intro hw
    obtain ⟨session, sat, locale, hold | hnew⟩ := hw
    · exact .inl ⟨session, sat, locale, hold⟩
    · exact .inr ⟨session, sat, locale, hnew.symm⟩
  · intro hw
    rcases hw with ⟨session, sat, locale, hold⟩ | ⟨session, sat, locale, hnew⟩
    · exact ⟨session, sat, locale, .inl hold⟩
    · exact ⟨session, sat, locale, .inr hnew.symm⟩

theorem Ledger.start (deps : SatelliteDeps) (clock : Nat) : Ledger deps [] (.init clock) where
  recorded := Machine.recorded_nil _
  entries _ := rfl
  cancelled _ _ h := by cases h
  opening _ h := by cases h
  owner _ _ _ h := by cases h
  count := rfl
  wired _ _ h := by cases h
  fresh _ h := by obtain ⟨_, _, _, h⟩ := h; cases h
  named _ _ _ h := by cases h

namespace Ledger

variable {deps : SatelliteDeps} {h : List AdapterObs} {s s' : Adapter}

theorem note (L : Ledger deps h s) (x : AdapterObs) (hx : x.neutral = true) (hlegal : Legal deps h x) :
    Ledger deps (h ++ [x]) s where
  recorded := L.recorded.concat hlegal
  entries k := by rw [entry_snoc, AdapterObs.post_neutral hx, L.entries k]
  cancelled := L.cancelled
  opening := L.opening
  owner := L.owner
  count := by
    rw [opens_snoc, AdapterObs.isOpened_neutral hx, L.count]
    rfl
  wired token dag hdag := List.mem_append_left _ (L.wired token dag hdag)
  fresh token hw := by
    rcases wired_snoc.mp hw with hold | ⟨session, sat, locale, hnew⟩
    · exact L.fresh token hold
    · rw [hnew] at hx
      cases hx
  named := L.named

theorem keep (L : Ledger deps h s) (hkept : Kept s s') (hdags : s'.dags.map Dag.ident = s.dags.map Dag.ident) :
    Ledger deps h s' := by
  have hlength : s'.dags.length = s.dags.length := by
    have := congrArg List.length hdags
    simpa only [List.length_map] using this
  refine ⟨L.recorded, ?_, ?_, ?_, ?_, ?_, ?_, ?_, ?_⟩
  · intro k
    rw [hkept.view, L.entries k]
  · intro token dag' hdag'
    obtain ⟨dag, hdag, hident⟩ := Slots.exists_of_map_eq hdags.symm hdag'
    simp only [Dag.ident, Prod.mk.injEq] at hident
    rw [hkept.view, ← hident.1, ← hident.2.1, ← hident.2.2.2]
    exact L.cancelled token dag hdag
  · intro x hx
    rw [hkept.opening] at hx
    rw [hkept.view, hkept.panicked, hlength]
    exact L.opening x hx
  · intro k sat token hk
    rw [hkept.view] at hk
    rcases L.owner k sat token hk with ⟨dag, hdag, hsession, hsat⟩ | ⟨htoken, x, hx, hxk⟩
    · obtain ⟨dag', hdag', hident⟩ := Slots.exists_of_map_eq hdags hdag
      simp only [Dag.ident, Prod.mk.injEq] at hident
      exact .inl ⟨dag', hdag', hident.1.trans hsession, hident.2.1.trans hsat⟩
    · exact .inr ⟨by rw [hlength, htoken], x, by rw [hkept.opening, hx], hxk⟩
  · rw [L.count, hlength, hkept.opening, hkept.panicked]
  · intro token dag' hdag'
    obtain ⟨dag, hdag, hident⟩ := Slots.exists_of_map_eq hdags.symm hdag'
    simp only [Dag.ident, Prod.mk.injEq] at hident
    rw [← hident.1, ← hident.2.1, ← hident.2.2.1]
    exact L.wired token dag hdag
  · intro token hw
    rw [hlength]
    exact L.fresh token hw
  · intro k sat token hk
    rw [hkept.view] at hk
    exact L.named k sat token hk

/-- A session that is spoken to at a time when nothing is being opened has its
tasks. -/
theorem wired_of_view (L : Ledger deps h s) {k : SessionId} {sat : Text} {token : Nat}
    (hk : s.view k = some (sat, token)) (hready : s.opening = none) :
    ∃ dag, s.dags[token]? = some dag ∧ dag.session = k ∧ dag.sat = sat := by
  rcases L.owner k sat token hk with hdag | ⟨-, x, hx, -⟩
  · exact hdag
  · rw [hready] at hx
    cases hx

theorem ran (L : Ledger deps h s) {token : Nat} {dag dag' : Dag} {o : List AdapterObs} {es : List Event}
    (hdag : s.dags[token]? = some dag) (hran : Ran token dag dag' o es) : Ledger deps (h ++ o) s := by
  have hwired := L.wired token dag hdag
  have htoken : Wired token h := ⟨_, _, _, hwired⟩
  have hnil : Ledger deps (h ++ []) s := by rw [List.append_nil]; exact L
  cases hran with
  | @relayed i m audio out hstep hstop =>
    cases out with
    | none => exact hnil
    | some frame => exact L.note (.read token frame) rfl htoken
  | transcribed hlive hfree => exact L.note _ rfl ⟨⟨_, _, hwired⟩, nofun⟩
  | forwarded hheld hoffer => exact hnil
  | @bereft t hheld hgone => exact L.note (.untold token .stt t) rfl htoken
  | deaf hfree => exact hnil
  | @routed texts out hstep =>
    cases out with
    | none => exact hnil
    | some t => exact L.note (.routed token t) rfl htoken
  | left hstep => exact hnil

theorem opened (L : Ledger deps h s) {session : SessionId} {sat : SatelliteId} {locale : Text}
    (hfree : s.view session = none)
    (hready : s.opening = none ∧ s.panicked = false)
    (hview : ∀ k, s'.view k = if k = session then some (sat.text, s.dags.length) else s.view k)
    (hopening : s'.opening = some { session := session, sat := sat.text, locale := locale })
    (hpanicked : s'.panicked = false) (hdags : s'.dags = s.dags) :
    Ledger deps (h ++ [.opened session sat.text s.dags.length]) s' where
  recorded := by
    refine L.recorded.concat ⟨by rw [← L.entries, hfree], ?_⟩
    rw [L.count, hready.1, hready.2]
    rfl
  entries k := by
    rw [entry_snoc, hview, ← L.entries]
    rfl
  cancelled token dag hdag := by
    rw [hdags] at hdag
    rw [hview, L.cancelled token dag hdag]
    split
    · -- the entry is new, and so is its token
      rename_i hk
      have hlt : token < s.dags.length := (List.getElem?_eq_some_iff.mp hdag).1
      rw [hk, hfree]
      refine ⟨nofun, ?_⟩
      intro heq
      simp only [Option.some.injEq, Prod.mk.injEq] at heq
      omega
    · rfl
  opening x hx := by
    rw [hopening] at hx
    cases hx
    refine ⟨hpanicked, .inl ?_⟩
    rw [hview, if_pos rfl, hdags]
  owner k sat' token hk := by
    rw [hview] at hk
    rw [hdags]
    split at hk
    · rename_i hsession
      cases hk
      exact .inr ⟨rfl, _, hopening, hsession.symm⟩
    · exact .inl (L.wired_of_view hk hready.1)
  count := by
    rw [opens_snoc, L.count, hready.1, hready.2, hopening, hpanicked, hdags]
    rfl
  wired token dag hdag := by
    rw [hdags] at hdag
    exact List.mem_append_left _ (L.wired token dag hdag)
  fresh token hw := by
    rw [hdags]
    rcases wired_snoc.mp hw with hold | ⟨_, _, _, hnew⟩
    · exact L.fresh token hold
    · cases hnew
  named k sat' token hk := by
    rw [hview] at hk
    split at hk
    · cases hk
      exact ⟨sat, rfl⟩
    · exact L.named k sat' token hk

theorem started (L : Ledger deps h s) {x : Opening} (hopening : s.opening = some x)
    (hthere : (s.view x.session).isSome) (hview : ∀ k, s'.view k = s.view k) (hwired : s'.opening = none)
    (hpanicked : s'.panicked = s.panicked) (hdags : s'.dags = s.dags ++ [.wired x.session x.sat x.locale]) :
    Ledger deps (h ++ [.started x.session x.sat x.locale s.dags.length]) s' := by
  have hentry : s.view x.session = some (x.sat, s.dags.length) := by
    rcases (L.opening x hopening).2 with hview | hnone
    · exact hview
    · rw [hnone] at hthere
      cases hthere
  have hlength : s'.dags.length = s.dags.length + 1 := by rw [hdags, List.length_append, List.length_singleton]
  have hnew : s'.dags[s.dags.length]? = some (.wired x.session x.sat x.locale) := by
    rw [hdags, List.getElem?_append_right (Nat.le_refl _), Nat.sub_self]
    rfl
  have hold : ∀ {token : Nat} {dag : Dag}, s.dags[token]? = some dag → s'.dags[token]? = some dag := by
    intro token dag hdag
    rw [hdags, List.getElem?_append_left (List.getElem?_eq_some_iff.mp hdag).1, hdag]
  refine ⟨?_, ?_, ?_, ?_, ?_, ?_, ?_, ?_, ?_⟩
  · refine L.recorded.concat ⟨by rw [← L.entries, hentry], ?_⟩
    intro hw
    exact absurd (L.fresh _ hw) (Nat.lt_irrefl _)
  · intro k
    rw [entry_snoc, hview, L.entries k]
    rfl
  · intro token dag hdag
    rw [hview]
    rw [hdags] at hdag
    rcases Slots.concat_cases hdag with hdag | ⟨rfl, rfl⟩
    · exact L.cancelled token dag hdag
    · exact ⟨fun _ => hentry, fun _ => rfl⟩
  · intro y hy
    rw [hwired] at hy
    cases hy
  · intro k sat token hk
    rw [hview] at hk
    rcases L.owner k sat token hk with ⟨dag, hdag, hsession, hsat⟩ | ⟨rfl, y, hy, hyk⟩
    · exact .inl ⟨dag, hold hdag, hsession, hsat⟩
    · rw [hopening] at hy
      cases hy
      subst hyk
      rw [hentry] at hk
      cases hk
      exact .inl ⟨_, hnew, rfl, rfl⟩
  · rw [opens_snoc, L.count, hwired, hpanicked, hopening, hlength]
    simp only [AdapterObs.isOpened, Option.toList_some, Option.toList_none, List.length_singleton, List.length_nil,
      Bool.toNat_false]
    omega
  · intro token dag hdag
    rw [hdags] at hdag
    rcases Slots.concat_cases hdag with hdag | ⟨rfl, rfl⟩
    · exact List.mem_append_left _ (L.wired token dag hdag)
    · exact List.mem_append_right _ List.mem_cons_self
  · intro token hw
    rw [hlength]
    rcases wired_snoc.mp hw with hold | ⟨_, _, _, heq⟩
    · exact Nat.lt_succ_of_lt (L.fresh token hold)
    · cases heq
      exact Nat.lt_succ_self _
  · intro k sat token hk
    rw [hview] at hk
    exact L.named k sat token hk

theorem lost (L : Ledger deps h s) {x : Opening} (hopening : s.opening = some x) (hgone : s.view x.session = none)
    (hview : ∀ k, s'.view k = s.view k) (hwired : s'.opening = none) (hpanicked : s'.panicked = true)
    (hdags : s'.dags = s.dags) : Ledger deps (h ++ [.panicked x.session]) s' where
  recorded := L.recorded.concat (by rw [Legal, ← L.entries, hgone])
  entries k := by
    rw [entry_snoc, hview, L.entries k]
    rfl
  cancelled token dag hdag := by
    rw [hdags] at hdag
    rw [hview]
    exact L.cancelled token dag hdag
  opening y hy := by
    rw [hwired] at hy
    cases hy
  owner k sat token hk := by
    rw [hview] at hk
    rw [hdags]
    rcases L.owner k sat token hk with hdag | ⟨-, y, hy, hyk⟩
    · exact .inl hdag
    · rw [hopening] at hy
      cases hy
      rw [hyk.symm, hgone] at hk
      cases hk
  count := by
    rw [opens_snoc, L.count, hwired, hpanicked, hopening, (L.opening x hopening).1, hdags]
    rfl
  wired token dag hdag := by
    rw [hdags] at hdag
    exact List.mem_append_left _ (L.wired token dag hdag)
  fresh token hw := by
    rw [hdags]
    rcases wired_snoc.mp hw with hold | ⟨_, _, _, hnew⟩
    · exact L.fresh token hold
    · cases hnew
  named k sat token hk := by
    rw [hview] at hk
    exact L.named k sat token hk

theorem closed (L : Ledger deps h s) {session : SessionId} {sat : Text} {token : Nat}
    (hthere : s.view session = some (sat, token))
    (hview : ∀ k, s'.view k = if k = session then none else s.view k) (hopening : s'.opening = s.opening)
    (hpanicked : s'.panicked = s.panicked)
    (hdags : s'.dags = s.dags.modify token fun dag => { dag with cancelled := true }) :
    Ledger deps (h ++ [.closed session token]) s' := by
  have hlength : s'.dags.length = s.dags.length := by rw [hdags, List.length_modify]
  refine ⟨?_, ?_, ?_, ?_, ?_, ?_, ?_, ?_, ?_⟩
  · exact L.recorded.concat ⟨sat, by rw [← L.entries, hthere]⟩
  · intro k
    rw [entry_snoc, hview, ← L.entries]
    rfl
  · intro j dag' hdag'
    rw [hdags] at hdag'
    rw [hview]
    rcases Slots.modify_cases hdag' with ⟨hj, hdag⟩ | ⟨rfl, dag, hdag, rfl⟩
    · rw [L.cancelled j dag' hdag]
      split
      · -- the session's entry had another token
        rename_i hk
        rw [hk, hthere]
        refine ⟨?_, nofun⟩
        intro heq
        simp only [Option.some.injEq, Prod.mk.injEq] at heq
        exact absurd heq.2 hj
      · rfl
    · refine ⟨nofun, ?_⟩
      intro hk
      split at hk
      · cases hk
      · rename_i hne
        -- the token is this session's
        exfalso
        rcases L.owner session sat token hthere with ⟨dag₀, hdag₀, hsession, -⟩ | ⟨heq, -⟩
        · rw [hdag] at hdag₀
          cases hdag₀
          exact hne hsession
        · have hlt := (List.getElem?_eq_some_iff.mp hdag).1
          omega
  · intro x hx
    rw [hopening] at hx
    obtain ⟨hsafe, hcases⟩ := L.opening x hx
    refine ⟨by rw [hpanicked, hsafe], ?_⟩
    rw [hview, hlength]
    split
    · exact .inr rfl
    · exact hcases
  · intro k sat' j hk
    rw [hview] at hk
    split at hk
    · cases hk
    · rcases L.owner k sat' j hk with ⟨dag, hdag, hsession, hsat⟩ | ⟨hj, x, hx, hxk⟩
      · refine .inl ?_
        rw [hdags, Slots.getElem?_modify, hdag]
        split
        · exact ⟨_, rfl, hsession, hsat⟩
        · exact ⟨dag, rfl, hsession, hsat⟩
      · exact .inr ⟨by rw [hlength, hj], x, by rw [hopening, hx], hxk⟩
  · rw [opens_snoc, L.count, hopening, hpanicked, hlength]
    rfl
  · intro j dag' hdag'
    rw [hdags] at hdag'
    rcases Slots.modify_cases hdag' with ⟨-, hdag⟩ | ⟨-, dag, hdag, rfl⟩
    · exact List.mem_append_left _ (L.wired j dag' hdag)
    · exact List.mem_append_left _ (L.wired j dag hdag)
  · intro j hw
    rw [hlength]
    rcases wired_snoc.mp hw with hold | ⟨_, _, _, hnew⟩
    · exact L.fresh j hold
    · cases hnew
  · intro k sat' j hk
    rw [hview] at hk
    split at hk
    · cases hk
    · exact L.named k sat' j hk

end Ledger

/-- **One step** keeps the ledger. -/
theorem ledger_step {deps : SatelliteDeps} {h o : List AdapterObs} {s s' : Adapter} (L : Ledger deps h s)
    (he : Effect deps s s' o) : Ledger deps (h ++ o) s' := by
  cases he with
  | quiet hkept hdags hbacklog =>
    rw [List.append_nil]
    exact L.keep hkept (by rw [hdags])
  | opened hfree hready hview hopening hpanicked hdags hbacklog =>
      exact L.opened hfree hready hview hopening hpanicked hdags
  | @collided session htaken hkept hdags hbacklog =>
    refine (L.note (.collided session) rfl ?_).keep hkept (by rw [hdags])
    rw [Legal, ← L.entries]
    exact Option.isSome_iff_ne_none.mp htaken
  | started hopening hthere hview hwired hpanicked hdags hbacklog =>
    exact L.started hopening hthere hview hwired hpanicked hdags
  | panicked hopening hgone hview hwired hpanicked hdags hbacklog =>
      exact L.lost hopening hgone hview hwired hpanicked hdags
  | closed hthere hview hopening hpanicked hdags hbacklog => exact L.closed hthere hview hopening hpanicked hdags
  | @accepted token sat frame dag audio hready hview hdag hoffer hkept hdags hbacklog =>
    refine (L.note (.accepted token frame) rfl ⟨⟨_, _, _, L.wired token dag hdag⟩, sat, ?_⟩).keep hkept ?_
    · rw [← L.entries, hview]
    · rw [hdags]
      exact Slots.map_modify (fun _ _ => rfl)
  | @dropped token sat frame hready hview hfull hkept hdags hbacklog =>
    obtain ⟨dag, hdag, -, -⟩ := L.wired_of_view hview hready
    refine (L.note (.dropped token frame) rfl ⟨⟨_, _, _, L.wired token dag hdag⟩, sat, ?_⟩).keep hkept
      (by rw [hdags])
    rw [← L.entries, hview]
  | @said token sat session t dag texts hready hview hdag hoffer hkept hdags hfinal hbacklog =>
    obtain ⟨dag', hdag', hsession, -⟩ := L.wired_of_view hview hready
    refine (L.note (.heard token session .text t) rfl ⟨⟨dag'.sat, dag'.locale, ?_⟩,
      fun _ => ⟨sat, ?_⟩⟩).keep hkept ?_
    · rw [← hsession]
      exact L.wired token dag' hdag'
    · rw [← L.entries, hview]
    · rw [hdags]
      exact Slots.map_modify (fun _ _ => rfl)
  | @unsaid token sat session t hready hview hkept hfull hdags hfinal hbacklog =>
    obtain ⟨dag, hdag, hsession, -⟩ := L.wired_of_view hview hready
    have hheard : Ledger deps (h ++ [.heard token session .text t]) s := by
      refine L.note _ rfl ⟨⟨dag.sat, dag.locale, ?_⟩, fun _ => ⟨sat, ?_⟩⟩
      · rw [← hsession]
        exact L.wired token dag hdag
      · rw [← L.entries, hview]
    have hsplit : h ++ [.heard token session .text t, .untold token .text t] =
        (h ++ [.heard token session .text t]) ++ [.untold token .text t] := by
      rw [List.append_assoc]
      rfl
    rw [hsplit]
    exact (hheard.note (.untold token .text t) rfl ⟨_, _, _, hheard.wired token dag hdag⟩).keep hkept
      (by rw [hdags])
  | ran hdag hran hkept hdags hbacklog =>
    refine (L.ran hdag hran).keep hkept ?_
    rw [hdags]
    refine Slots.map_modify ?_
    intro dag hdag'
    rw [hdag] at hdag'
    cases hdag'
    exact hran.ident
  | @bus e hkept hdags hbacklog => exact (L.note (.sent e) rfl trivial).keep hkept (by rw [hdags])
  | lagged hkept hdags hbacklog =>
    rw [List.append_nil]
    exact L.keep hkept (by rw [hdags])
  | @told e session leaf payload sat token hkept hdags hbacklog hkind hview =>
    refine (L.note (.told session token e _ payload) rfl ⟨sat, leaf, ?_, hkind, rfl⟩).keep hkept (by rw [hdags])
    rw [← L.entries, hview]

theorem ledger_run {deps : SatelliteDeps} {clock : Nat} {as : List AdapterAction} {s' : Adapter}
    {o : List AdapterObs} (hr : (Adapter.machine deps).run (.init clock) as = some (s', o)) : Ledger deps o s' := by
  have hinv := Machine.run_invariant (P := Ledger deps)
    (fun h s a s' o L hs => ledger_step L (Adapter.step_effect hs)) (Ledger.start deps clock) hr
  rwa [List.nil_append] at hinv

/-! ## What a message makes happen -/

/-- What is seen of a satellite's message, given what was seen before it: the
entry of the session it names decides. -/
def Served (deps : SatelliteDeps) (before : List AdapterObs) (topic : Text) (payload : List UInt8)
    (o : List AdapterObs) : Prop :=
  match parseSatelliteTopic deps.uuids deps.topicRoot topic with
  | none => o = []
  | some (.start sat sid) =>
    o = [if entry sid.val before = none then .opened sid.val sat.text (opens before) else .collided sid.val]
  | some (.audio _ sid) =>
    match entry sid.val before with
    | none => o = []
    | some (_, token) =>
      let frame : AudioFrame := { session := sid.val, seq := 0, pcm := payload }
      o = [.accepted token frame] ∨ o = [.dropped token frame]
  | some (.text _ sid) =>
    match entry sid.val before with
    | none => o = []
    | some (_, token) =>
      let t : Transcript := { text := Str.trim (fromUtf8Lossy payload), isFinal := true }
      if t.text.isEmpty then o = []
      else o = [.heard token sid.val .text t] ∨ o = [.heard token sid.val .text t, .untold token .text t]
  | some (.finish _ sid) => o = ((entry sid.val before).map fun e => .closed sid.val e.2).toList

/-- Only a message makes it happen. -/
def AdapterObs.isServed : AdapterObs → Bool
  | .opened .. | .collided .. | .accepted .. | .dropped .. => true
  | .heard _ _ source _ | .untold _ source _ => source = .text
  | _ => false

/-- What is seen of a step has its cause: a message does what `Served` says,
and without one nothing it says happens; a session is wired by `wire`, and
closed by the reaper where no message does it. -/
def Caused (deps : SatelliteDeps) (before : List AdapterObs) (a : AdapterAction) (o : List AdapterObs) : Prop :=
  match a with
  | .publish topic payload =>
    if (deps.assist.bind (Assist.parseTranscription · topic)).isSome then o = []
      else Served deps before topic payload o
  | .wire => ∀ x ∈ o, (∃ session sat locale token, x = .started session sat locale token) ∨
      ∃ session, x = .panicked session
  | .reapNext => ∀ x ∈ o, ∃ session token, x = .closed session token
  | _ => ∀ x ∈ o, x.neutral = true ∧ x.isServed = false

section

variable {deps : SatelliteDeps} {h o : List AdapterObs} {s s' : Adapter}

theorem Ledger.entry_eq_none (L : Ledger deps h s) {session : SessionId} :
    entry session h = none ↔ s.managed.manager.map.lookup session = none := by
  rw [← L.entries, Adapter.view, Option.map_eq_none_iff]

theorem openSession_served (L : Ledger deps h s) (hready : s.opening = none ∧ s.panicked = false) (sat : SatelliteId)
    (session : SessionId) (locale : Text) : (s.openSession sat session locale).2 =
      [if entry session h = none then .opened session sat.text (opens h) else .collided session] := by
  have hcount : opens h = s.dags.length := by
    rw [L.count, hready.1, hready.2]
    rfl
  unfold Adapter.openSession
  rcases s.managed.manager.openSession_cases session sat.text locale s.dags.length s.managed.clock with
    ⟨hthere, hopen⟩ | ⟨hnone, hopen⟩
  · have hsome : ¬ entry session h = none := by
      rw [L.entry_eq_none]
      exact fun hnone => AList.lookup_eq_none.mp hnone hthere
    rw [hopen, if_neg hsome]
  · rw [hopen, if_pos (L.entry_eq_none.mpr hnone), hcount]

theorem close_served (L : Ledger deps h s) (session : SessionId) :
    (s.close session).2 = ((entry session h).map fun e => .closed session e.2).toList := by
  rw [← L.entries, Adapter.view]
  unfold Adapter.close
  rcases s.managed.manager.close_cases session with ⟨hnone, hclose⟩ | ⟨state, m', hstate, hclose, -⟩
  · rw [hclose, hnone]
    rfl
  · rw [hclose, hstate]
    rfl

theorem entry_touched (L : Ledger deps h s) (session : SessionId) : entry session h =
    ((s.touch session).managed.manager.map.lookup session).map fun state => (state.sat, state.cancel) := by
  rw [← L.entries, ← s.view_touch session session]
  rfl

theorem trySendAudio_served (s : Adapter) (token : Nat) (frame : AudioFrame) :
    (s.trySendAudio token frame).2 = [.accepted token frame] ∨
      (s.trySendAudio token frame).2 = [.dropped token frame] := by
  unfold Adapter.trySendAudio
  split
  · exact .inl rfl
  · exact .inr rfl

theorem trySendText_served (s : Adapter) (token : Nat) (t : Transcript) :
    (s.trySendText token t).2 = [] ∨ (s.trySendText token t).2 = [.untold token .text t] := by
  unfold Adapter.trySendText
  split
  · exact .inl rfl
  · exact .inr rfl

/-- **A message** does what the history before it says. -/
theorem handlePublish_served (L : Ledger deps h s) (hready : s.opening = none ∧ s.panicked = false) (topic : Text)
    (payload : List UInt8) : Served deps h topic payload (s.handlePublish deps topic payload).2 := by
  unfold Served Adapter.handlePublish
  cases parseSatelliteTopic deps.uuids deps.topicRoot topic with
  | none => rfl
  | some p =>
    cases p with
    | start sat sid => exact openSession_served L hready sat sid.val _
    | audio sat sid =>
      simp only [entry_touched L sid.val]
      cases (s.touch sid.val).managed.manager.map.lookup sid.val with
      | none => rfl
      | some state => exact trySendAudio_served _ state.cancel _
    | text sat sid =>
      simp only [entry_touched L sid.val]
      cases (s.touch sid.val).managed.manager.map.lookup sid.val with
      | none => rfl
      | some state =>
        simp only [Option.map_some]
        split
        · rfl
        · rcases trySendText_served
            ((s.touch sid.val).send (.transcriptFinal sid.val (Str.trim (fromUtf8Lossy payload))))
            state.cancel { text := Str.trim (fromUtf8Lossy payload), isFinal := true } with htold | htold
          · exact .inl (congrArg _ htold)
          · exact .inr (congrArg _ htold)
    | finish sat sid => exact close_served L sid.val

theorem egress_neutral (deps : SatelliteDeps) (s : Adapter) (e : Event) :
    ∀ x ∈ s.egress deps e, x.neutral = true ∧ x.isServed = false := by
  unfold Adapter.egress
  split
  · exact nofun
  · split
    · exact nofun
    · intro x hx
      rw [List.mem_singleton.mp hx]
      exact ⟨rfl, rfl⟩

/-- Without a message, a wiring and a reaping nothing that is seen touches an entry. -/
theorem neutral_of_step {a : AdapterAction} (hs : Adapter.step deps s a = some (s', o))
    (hpublish : ∀ topic payload, a ≠ .publish topic payload) (hwire : a ≠ .wire) (hreap : a ≠ .reapNext) :
    ∀ x ∈ o, x.neutral = true ∧ x.isServed = false := by
  cases a with
  | publish topic payload => exact absurd rfl (hpublish topic payload)
  | wire => exact absurd rfl hwire
  | reapNext => exact absurd rfl hreap
  | clock now =>
    cases hs
    exact List.forall_mem_nil _
  | collect order =>
    obtain ⟨q, -, heq⟩ := Option.map_eq_some_iff.mp hs
    cases heq
    exact List.forall_mem_nil _
  | bus e =>
    cases hs
    intro x hx
    rw [List.mem_singleton.mp hx]
    exact ⟨rfl, rfl⟩
  | lag =>
    simp only [Adapter.step] at hs
    split at hs
    · cases hs
    · cases hs
      exact List.forall_mem_nil _
  | egress =>
    simp only [Adapter.step] at hs
    split at hs
    · cases hs
    · cases hs
      exact egress_neutral deps s _
  | relay token i m =>
    obtain ⟨dag, -, hstep⟩ := Option.bind_eq_some_iff.mp hs
    split at hstep
    · cases hstep
    · obtain ⟨q, -, heq⟩ := Option.map_eq_some_iff.mp hstep
      cases heq
      intro x hx
      obtain ⟨frame, -, rfl⟩ := List.mem_map.mp hx
      exact ⟨rfl, rfl⟩
  | transcribe token t =>
    obtain ⟨dag, -, hstep⟩ := Option.bind_eq_some_iff.mp hs
    split at hstep
    · cases hstep
      intro x hx
      rw [List.mem_singleton.mp hx]
      exact ⟨rfl, rfl⟩
    · cases hstep
  | forward token =>
    obtain ⟨dag, -, hstep⟩ := Option.bind_eq_some_iff.mp hs
    obtain ⟨t, -, hstep⟩ := Option.bind_eq_some_iff.mp hstep
    split at hstep
    · obtain ⟨texts, -, heq⟩ := Option.map_eq_some_iff.mp hstep
      cases heq
      exact List.forall_mem_nil _
    · cases hstep
      intro x hx
      rw [List.mem_singleton.mp hx]
      exact ⟨rfl, rfl⟩
  | sttStop token =>
    obtain ⟨dag, -, hstep⟩ := Option.bind_eq_some_iff.mp hs
    split at hstep
    · cases hstep
      exact List.forall_mem_nil _
    · cases hstep
  | route token =>
    obtain ⟨dag, -, hstep⟩ := Option.bind_eq_some_iff.mp hs
    obtain ⟨q, -, heq⟩ := Option.map_eq_some_iff.mp hstep
    cases heq
    intro x hx
    obtain ⟨t, -, rfl⟩ := List.mem_map.mp hx
    exact ⟨rfl, rfl⟩
  | routerStop token =>
    obtain ⟨dag, -, hstep⟩ := Option.bind_eq_some_iff.mp hs
    obtain ⟨q, -, heq⟩ := Option.map_eq_some_iff.mp hstep
    cases heq
    exact List.forall_mem_nil _

theorem caused_of_step (L : Ledger deps h s) {a : AdapterAction} (hs : Adapter.step deps s a = some (s', o)) :
    Caused deps h a o := by
  unfold Caused
  cases a with
  | publish topic payload =>
    simp only [Adapter.step] at hs
    split at hs
    · cases hs
    · rename_i hready
      simp only [not_or, Bool.not_eq_true, Option.isSome_eq_false_iff, Option.isNone_iff_eq_none] at hready
      simp only
      split at hs
      · rename_i hassist
        cases hs
        rw [if_pos hassist]
      · rename_i hassist
        rw [if_neg hassist]
        rw [show o = _ from (congrArg Prod.snd (Option.some.inj hs)).symm]
        exact handlePublish_served L hready.symm topic payload
  | wire =>
    obtain ⟨opening, -, heq⟩ := Option.map_eq_some_iff.mp hs
    intro x hx
    unfold Adapter.wire at heq
    split at heq
    · cases heq
      exact .inr ⟨_, List.mem_singleton.mp hx⟩
    · cases heq
      exact .inl ⟨_, _, _, _, List.mem_singleton.mp hx⟩
  | reapNext =>
    intro x hx
    simp only [Adapter.step] at hs
    split at hs
    · cases hs
    · cases hs
      cases hx
    · cases hs
      simp only [List.mem_map] at hx
      obtain ⟨token, -, rfl⟩ := hx
      exact ⟨_, _, rfl⟩
  | _ => exact neutral_of_step hs (by simp) (by simp) (by simp)

end

theorem caused_run (deps : SatelliteDeps) (clock : Nat) (as : List AdapterAction) :
    (Adapter.machine deps).Along (fun h s a => ∀ s' o, (Adapter.machine deps).step s a = some (s', o) →
      Caused deps h a o)
      [] (.init clock) as :=
  Machine.along_of_invariant (P := Ledger deps) (fun _ _ _ _ _ L hs => ledger_step L (Adapter.step_effect hs))
    (fun _ _ _ L _ _ hs => caused_of_step L hs) as [] (.init clock) (Ledger.start deps clock)

/-- **Sessions open and close in turn.** In every run, whatever the satellites
publish and whenever the reaper closes: each message does what its topic and the
history before it say — a `start` makes an entry exactly when the session has
none, and nothing else makes one; `audio` and `text` are taken exactly while it
stands; `end` removes it, and so does the reaper. A token is never given twice
and is cancelled once; and every frame taken in, transcript and publication is
one of a session whose entry stands, under that entry's token and on its
satellite's topic. The manager's entries are those of the ledger, and a
session's tasks run uncancelled exactly while theirs stands. -/
theorem sessions_ledger (deps : SatelliteDeps) (clock : Nat) (as : List AdapterAction) (s' : Adapter)
    (o : List AdapterObs) (hr : (Adapter.machine deps).run (.init clock) as = some (s', o)) :
    (Adapter.machine deps).Along
      (fun h s a => ∀ s' o, (Adapter.machine deps).step s a = some (s', o) → Caused deps h a o) []
        (.init clock) as ∧
      Machine.Recorded (Legal deps) o ∧ (∀ session, s'.view session = entry session o) ∧
      ∀ token dag, s'.dags[token]? = some dag →
        (dag.cancelled = false ↔ entry dag.session o = some (dag.sat, token)) := by
  have L := ledger_run hr
  refine ⟨caused_run deps clock as, L.recorded, L.entries, ?_⟩
  intro token dag hdag
  rw [L.cancelled token dag hdag, L.entries]

/-- An adapter without a bridge, whose satellites send no JSON. -/
def plainDeps : SatelliteDeps :=
  { topicRoot := "athena".toList, assist := none, maxIdleMs := 60000, uuids := hyphenated, fromSlice := fun _ => none }

/-- The satellite in the kitchen, and one in the hall. -/
def kitchen : SatelliteId := ⟨"kitchen".toList, by decide⟩
def hall : SatelliteId := ⟨"hall".toList, by decide⟩

/-- A message of a satellite about session 7. -/
def seventh (payload : List UInt8) (p : SatelliteId → Sid → ParsedTopic Sid) (sat : SatelliteId) : AdapterAction :=
  .publish ((p sat ⟨7, by decide⟩).topic plainDeps.uuids plainDeps.topicRoot) payload

/-- The kitchen opens a session and the hall tries to; the hall ends it, and
opens it in its own name. -/
def handedOver : List AdapterAction :=
  [seventh [] .start kitchen, .wire, seventh [] .start hall, seventh [] .finish hall, seventh [] .start hall, .wire]

/-- Two entries, one after the other. -/
theorem handed_over :
    ∃ s', (Adapter.machine plainDeps).run (.init 0) handedOver =
        some (s', [.opened 7 kitchen.text 0, .started 7 kitchen.text "en".toList 0, .collided 7, .closed 7 0,
          .opened 7 hall.text 1, .started 7 hall.text "en".toList 1]) ∧
      s'.view 7 = some (hall.text, 1) := by
  refine ⟨_, rfl, ?_⟩
  exact (sessions_ledger plainDeps 0 handedOver _ _ rfl).2.2.1 7

end AthenaVoice.Satellite
