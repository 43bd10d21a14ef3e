import AthenaVoice.Lib.Machine
import AthenaVoice.Skills.JeedomHandle
import AthenaVoice.Skills.Weather

/-
  What the weather skill remembers — `skills-weather/src/lib.rs`

  Intents follow each other, and other skills' writes and the collections run
  between the calls. What is stored for a city was answered for it, or for one
  that is the same in lower case, whatever the language was. It is read back as
  `serde_json` reads it.

  What is proved:
    1. `ensures_handle` — what one intent asks for and leaves, by its calls.
    2. `coordinates_answered` — in every run, a forecast is asked for at the
       coordinates the geocoding service answered for the city.
    3. `asked_once` — a city that was found is not asked for again, as long as
       the store works and nothing of the skill is collected.
-/

namespace AthenaVoice.Skills.Weather

open Lib Sdk Storage Wasm

section Runs

variable {F : Type} (rt : Runtime F) (cfg : Config) (ctx : SkillCtx)

/-- An intent, and what its calls find. -/
structure Request (F : Type) (name : Text) where
  intent : Intent
  moments : Nat → Moment F name

structure Handled (F : Type) where
  intent : Intent
  calls : Prog.Trace Call (Call.Answer F)
  result : SkillResult

/-- The skill, an intent after the other. -/
def machine : Machine Store (Request F ctx.name) (Handled F) where
  step := fun s r =>
    let done := Prog.exec (serve ctx) r.moments s (handle rt cfg r.intent)
    some (done.1, [⟨r.intent, done.2.1, done.2.2⟩])

def Got (calls : Prog.Trace Call (Call.Answer F)) (url : Text) (r : Option (Value F)) : Prop :=
  (⟨.httpGetJson url, r⟩ : Σ c : Call, c.Answer F) ∈ calls

/-- A GET of a URL is made once these calls were. -/
def GotAfter (calls earlier : Prog.Trace Call (Call.Answer F)) (url : Text) : Prop :=
  ∃ (r : Option (Value F)) (later : Prog.Trace Call (Call.Answer F)),
    calls = earlier ++ ⟨.httpGetJson url, r⟩ :: later

/-- The geocoding service answers coordinates for a city. -/
def Locates (calls : Prog.Trace Call (Call.Answer F)) (city : Text) (en : Bool) (geo : Geo F) : Prop :=
  ∃ r, Got calls (geocodingUrl cfg city en) r ∧ (r.bind firstResult).bind (located city) = some geo

/-- The coordinates were answered for a city that is `low` in lower case. -/
def Answered (h : List (Handled F)) (low : Text) (geo : Geo F) : Prop :=
  ∃ d ∈ h, rt.unicode.toLowercase (resolveCity cfg d.intent) = low ∧
    Locates cfg d.calls (resolveCity cfg d.intent) (isEn d.intent) geo

/-- Coordinates, or what is read once they are written. -/
def ReadsAs (geo geo' : Geo F) : Prop :=
  geo' = geo ∨ ∃ bytes, rt.geoToBytes geo = some bytes ∧ cached rt bytes = some geo'

/-- What the store holds for a city. -/
def Stored (s : Store) (low : Text) (bytes : Bytes) : Prop :=
  ∃ stamp, s.skillKv.lookup (ctx.name, "geo/".toList ++ low) = some ⟨bytes, stamp⟩

end Runs

/-! ## The store between the calls -/

section Elsewhere

variable {F : Type} {rt : Runtime F} {cfg : Config} {ctx : SkillCtx}

theorem stored_gc {s : Store} {skill low : Text} {threshold : UInt64} {bytes : Bytes}
    (h : Stored ctx (s.skillKvGc skill threshold) low bytes) : Stored ctx s low bytes := by
  obtain ⟨stamp, h⟩ := h
  rw [Store.skillKv_gc] at h
  exact ⟨stamp, (Option.filter_eq_some_iff.mp h).1⟩

theorem stored_on {s : Store} {low : Text} {bytes : Bytes} {x : Elsewhere ctx.name}
    (h : Stored ctx (x.on s) low bytes) : Stored ctx s low bytes := by
  cases x with
  | gc skill threshold => exact stored_gc h
  | stateSet other hne now key val =>
    obtain ⟨stamp, h⟩ := h
    refine ⟨stamp, ?_⟩
    rw [← h]
    exact (skillKv_hostStateSet_other other now s key val hne.symm).symm

theorem stored_before : ∀ (xs : List (Elsewhere ctx.name)) {s : Store} {low : Text} {bytes : Bytes},
    Stored ctx (xs.foldl Elsewhere.on s) low bytes → Stored ctx s low bytes := by
  intro xs
  induction xs with
  | nil => intro s low bytes h; exact h
  | cons x xs ih => intro s low bytes h; exact stored_on (ih h)

theorem stored_set {s : Store} {now : UInt64} {city low : Text} {val bytes : Bytes}
    (h : Stored ctx (hostStateSet ctx now s (geoKey rt city) val) low bytes) :
    Stored ctx s low bytes ∨ (low = rt.unicode.toLowercase city ∧ bytes = val) := by
  have hset : Stored ctx (s.skillKvSet now ctx.name (geoKey rt city) val) low bytes := by
    unfold hostStateSet at h
    cases hret : ctx.retentionGcAfterSec with
    | none => rwa [hret] at h
    | some ttl =>
      rw [hret] at h
      exact stored_gc h
  obtain ⟨stamp, hset⟩ := hset
  rw [Store.skillKv_set] at hset
  by_cases hk : (ctx.name, "geo/".toList ++ low) = (ctx.name, geoKey rt city)
  · rw [if_pos hk] at hset
    cases hset
    exact .inr ⟨List.append_cancel_left (Prod.mk.inj hk).2, rfl⟩
  · rw [if_neg hk] at hset
    exact .inl ⟨stamp, hset⟩

theorem stored_of_get {s : Store} {city : Text} {geo : Geo F}
    (h : cached rt (hostStateGet ctx s (geoKey rt city)) = some geo) :
    ∃ bytes, Stored ctx s (rt.unicode.toLowercase city) bytes ∧ cached rt bytes = some geo := by
  unfold hostStateGet Store.skillKvGet at h
  cases hrow : s.skillKv.lookup (ctx.name, geoKey rt city) with
  | none =>
    rw [hrow] at h
    cases h
  | some row =>
    rw [hrow] at h
    exact ⟨row.value, ⟨row.timestampSec, hrow⟩, h⟩

end Elsewhere

/-! ## One intent -/

section Intent

variable {F : Type} {rt : Runtime F} {cfg : Config} {ctx : SkillCtx}

/-- Where coordinates are from: the store, or the service. -/
def Source (rt : Runtime F) (cfg : Config) (ctx : SkillCtx) (s : Store) (calls : Prog.Trace Call (Call.Answer F))
    (city : Text) (en : Bool) (geo : Geo F) : Prop :=
  (∃ bytes, Stored ctx s (rt.unicode.toLowercase city) bytes ∧ cached rt bytes = some geo) ∨
    Locates cfg calls city en geo

def SpeechOf (rt : Runtime F) (geo : Geo F) (en : Bool) (value : Value F) (text : Text) : Prop :=
  nowSpeech rt geo en value = some text ∨ tomorrowSpeech rt geo en value = some text

/-- What an answer says: a failure, or a forecast at coordinates that `from` has. -/
def Tells (rt : Runtime F) (cfg : Config) (calls : Prog.Trace Call (Call.Answer F)) (city : Text) (en : Bool)
    (found : Geo F → Prop) (result : SkillResult) : Prop :=
  result = speak (httpErrorSpeak en) ∨ result = cannotFind city en ∨
    (∃ name, result = .err (.custom ("unknown intent: ".toList ++ name))) ∨
    ∃ geo value text, found geo ∧ Got calls (forecastUrl rt cfg geo) (some value) ∧
      SpeechOf rt geo en value text ∧
      result = speak text

/-- What one intent asks for, says and leaves in the store. -/
structure Outcome (rt : Runtime F) (cfg : Config) (ctx : SkillCtx) (s : Store) (city : Text) (en : Bool) (s' : Store)
    (calls : Prog.Trace Call (Call.Answer F)) (result : SkillResult) : Prop where
  leaves : ∀ low bytes, Stored ctx s' low bytes → Stored ctx s low bytes ∨
    (low = rt.unicode.toLowercase city ∧ ∃ geo, Locates cfg calls city en geo ∧ rt.geoToBytes geo = some bytes)
  asks : ∀ url earlier, GotAfter calls earlier url → url = geocodingUrl cfg city en ∨
    ∃ geo, Source rt cfg ctx s earlier city en geo ∧ url = forecastUrl rt cfg geo
  tells : Tells rt cfg calls city en (Source rt cfg ctx s calls city en) result

theorem Locates.append_right {calls : Prog.Trace Call (Call.Answer F)} {city : Text} {en : Bool} {geo : Geo F}
    (h : Locates cfg calls city en geo) (more : Prog.Trace Call (Call.Answer F)) :
    Locates cfg (calls ++ more) city en geo := by
  obtain ⟨r, hgot, hgeo⟩ := h
  exact ⟨r, List.mem_append_left _ hgot, hgeo⟩

theorem Source.append_right {s : Store} {calls : Prog.Trace Call (Call.Answer F)} {city : Text}
    {en : Bool} {geo : Geo F}
    (h : Source rt cfg ctx s calls city en geo) (more : Prog.Trace Call (Call.Answer F)) :
    Source rt cfg ctx s (calls ++ more) city en geo := by
  rcases h with h | h
  · exact .inl h
  · exact .inr (h.append_right more)

/-- What resolving a city leaves, and where its coordinates are from. -/
structure Resolved (rt : Runtime F) (cfg : Config) (ctx : SkillCtx) (s : Store) (city : Text) (en : Bool) (s' : Store)
    (calls : Prog.Trace Call (Call.Answer F)) (r : Except Text (Option (Geo F))) : Prop where
  leaves : ∀ low bytes, Stored ctx s' low bytes → Stored ctx s low bytes ∨
    (low = rt.unicode.toLowercase city ∧ ∃ geo, Locates cfg calls city en geo ∧ rt.geoToBytes geo = some bytes)
  asks : ∀ url r, Got calls url r → url = geocodingUrl cfg city en
  found : ∀ geo, r = .ok (some geo) → Source rt cfg ctx s calls city en geo
  failed : ∀ msg, r = .error msg → msg = httpErrorSpeak en

theorem stored_serve_set {s : Store} {m : Moment F ctx.name} {city low : Text} {val bytes : Bytes}
    (h : Stored ctx (serve ctx s m (.stateSet (geoKey rt city) val)).1 low bytes) :
    Stored ctx s low bytes ∨ (low = rt.unicode.toLowercase city ∧ bytes = val) := by
  unfold serve at h
  by_cases hfails : m.storeFails = true
  · simp only [hfails, if_true] at h
    exact .inl (stored_before _ h)
  · simp only [hfails] at h
    rcases stored_set h with h | h
    · exact .inl (stored_before _ h)
    · exact .inr h

/-- **Remembering** coordinates that were answered. -/
theorem ensures_remember {s₀ s : Store} {city : Text} {en : Bool} {geo : Geo F}
    {calls : Prog.Trace Call (Call.Answer F)}
    (hbefore : ∀ low bytes, Stored ctx s low bytes → Stored ctx s₀ low bytes)
    (hgeo : Locates cfg calls city en geo)
    (hasks : ∀ url r, Got calls url r → url = geocodingUrl cfg city en) :
    Prog.Ensures (serve ctx) s (remember rt city geo)
      (fun s' more r => Resolved rt cfg ctx s₀ city en s' (calls ++ more) r) := by
  have hfound : ∀ more, ∀ geo', Except.ok (some geo) = (Except.ok (some geo') : Except Text (Option (Geo F))) →
      Source rt cfg ctx s₀ (calls ++ more) city en geo' := by
    intro more geo' heq
    cases heq
    exact .inr (hgeo.append_right more)
  unfold remember
  cases hbytes : rt.geoToBytes geo with
  | none =>
    refine ⟨fun low bytes h => .inl (hbefore low bytes h), ?_, hfound [], fun _ heq => by cases heq⟩
    intro url r hgot
    exact hasks url r (by rwa [List.append_nil] at hgot)
  | some val =>
    intro m
    refine ⟨?_, ?_, hfound _, fun _ heq => by cases heq⟩
    · intro low bytes h
      rcases stored_serve_set h with h | ⟨rfl, rfl⟩
      · exact .inl (hbefore low bytes h)
      · exact .inr ⟨rfl, geo, hgeo.append_right _, hbytes⟩
    · intro url r hgot
      rcases List.mem_append.mp hgot with hgot | hgot
      · exact hasks url r hgot
      · cases List.mem_singleton.mp hgot

/-- **Asking the service.** -/
theorem ensures_geocode {s₀ s : Store} (city : Text) (en : Bool) {calls : Prog.Trace Call (Call.Answer F)}
    (hbefore : ∀ low bytes, Stored ctx s low bytes → Stored ctx s₀ low bytes)
    (hnone : ∀ url r, ¬ Got calls url r) :
    Prog.Ensures (serve ctx) s (geocode rt cfg city en)
      (fun s' more r => Resolved rt cfg ctx s₀ city en s' (calls ++ more) r) := by
  intro m
  have hasks : ∀ url r, Got (calls ++ [⟨.httpGetJson (geocodingUrl cfg city en), m.http⟩]) url r →
      url = geocodingUrl cfg city en := by
    intro url r hgot
    rcases List.mem_append.mp hgot with hgot | hgot
    · exact absurd hgot (hnone url r)
    · cases List.mem_singleton.mp hgot
      rfl
  have hleaves : ∀ low bytes, Stored ctx (m.before.foldl Elsewhere.on s) low bytes → Stored ctx s₀ low bytes :=
    fun low bytes h => hbefore low bytes (stored_before _ h)
  show Prog.Ensures (serve ctx) (m.before.foldl Elsewhere.on s) (geocoded rt city en m.http)
    (fun s' more r => Resolved rt cfg ctx s₀ city en s'
      (calls ++ (⟨.httpGetJson (geocodingUrl cfg city en), m.http⟩ :: more)) r)
  cases hhttp : m.http with
  | none =>
    rw [hhttp] at hasks
    refine ⟨fun low bytes h => .inl (hleaves low bytes h), hasks, (fun _ heq => by cases heq), ?_⟩
    intro msg heq
    cases heq
    rfl
  | some value =>
    rw [hhttp] at hasks
    cases hfirst : firstResult value with
    | none =>
      rw [geocoded_unknown rt hfirst]
      refine ⟨fun low bytes h => .inl (hleaves low bytes h), hasks, ?_, fun _ heq => by cases heq⟩
      intro geo heq
      cases heq
    | some first =>
      rw [geocoded_first rt hfirst, firstGeocoded]
      cases hgeo : located city first with
      | none =>
        refine ⟨fun low bytes h => .inl (hleaves low bytes h), hasks, (fun _ heq => by cases heq), ?_⟩
        intro msg heq
        cases heq
        rfl
      | some geo =>
        have hlocates : Locates cfg
          (calls ++ [⟨.httpGetJson (geocodingUrl cfg city en), some value⟩]) city en geo :=
          ⟨some value, List.mem_append_right _ List.mem_cons_self, by
            rw [Option.bind_some, hfirst, Option.bind_some, hgeo]⟩
        apply Prog.ensures_mono (ensures_remember hleaves hlocates hasks)
        intro s' more r h
        rw [List.append_assoc] at h
        exact h

/-- **Resolving a city.** -/
theorem ensures_resolveGeocoding (s : Store) (city : Text) (en : Bool) :
    Prog.Ensures (serve ctx) s (resolveGeocoding rt cfg city en) (Resolved rt cfg ctx s city en) := by
  intro m
  have hread : ∀ url r, ¬ Got ([⟨.stateGet (geoKey rt city), (serve ctx s m (.stateGet (geoKey rt city))).2⟩] :
      Prog.Trace Call (Call.Answer F)) url r := by
    intro url r hgot
    cases List.mem_singleton.mp hgot
  have hbefore : ∀ low bytes, Stored ctx (m.before.foldl Elsewhere.on s) low bytes → Stored ctx s low bytes :=
    fun low bytes h => stored_before _ h
  show Prog.Ensures (serve ctx) (m.before.foldl Elsewhere.on s) (cachedOr rt cfg city en
    (cached rt (if m.storeFails then [] else hostStateGet ctx (m.before.foldl Elsewhere.on s) (geoKey rt city)))) _
  cases hcached : cached rt (if m.storeFails then [] else
    hostStateGet ctx (m.before.foldl Elsewhere.on s) (geoKey rt city)) with
  | some geo =>
    refine ⟨fun low bytes h => .inl (hbefore low bytes h), fun url r hgot => absurd hgot (hread url r), ?_,
      fun _ heq => by cases heq⟩
    intro geo' heq
    cases heq
    cases hfails : m.storeFails with
    | true =>
      rw [hfails] at hcached
      cases hcached
    | false =>
      rw [hfails] at hcached
      obtain ⟨bytes, hstored, hbytes⟩ := stored_of_get hcached
      exact .inl ⟨bytes, hbefore _ _ hstored, hbytes⟩
  | none => exact ensures_geocode city en hbefore hread

/-- **The forecast**, and what is said of it. -/
theorem ensures_forecast {s : Store} {geo : Geo F} {en : Bool} {speech : Geo F → Bool → Value F → Option Text} :
    Prog.Ensures (serve ctx) s (forecast rt cfg geo en speech) (fun s' calls result =>
      (∀ low bytes, Stored ctx s' low bytes → Stored ctx s low bytes) ∧
      (∀ url r, Got calls url r → url = forecastUrl rt cfg geo) ∧
      (result = speak (httpErrorSpeak en) ∨ ∃ value text, Got calls (forecastUrl rt cfg geo) (some value) ∧
        speech geo en value = some text ∧ result = speak text)) := by
  intro m
  refine ⟨fun low bytes h => stored_before _ h, ?_, ?_⟩
  · intro url r hgot
    cases List.mem_singleton.mp hgot
    rfl
  · cases hsaid : m.http.bind (speech geo en) with
    | none => exact .inl (congrArg (fun t => speak (t.getD (httpErrorSpeak en))) hsaid)
    | some text =>
      obtain ⟨value, hvalue, htext⟩ := Option.bind_eq_some_iff.mp hsaid
      refine .inr ⟨value, text, ?_, htext, congrArg (fun t => speak (t.getD (httpErrorSpeak en))) hsaid⟩
      rw [← hvalue]
      exact List.mem_cons_self

theorem GotAfter.cases {calls more earlier : Prog.Trace Call (Call.Answer F)} {url : Text}
    (h : GotAfter (calls ++ more) earlier url) :
    (∃ r, Got calls url r) ∨ ∃ mid r, earlier = calls ++ mid ∧ Got more url r := by
  obtain ⟨r, later, hsplit⟩ := h
  rcases List.append_eq_append_iff.mp hsplit with ⟨mid, hearlier, hmore⟩ | ⟨mid, hcalls, hlater⟩
  · exact .inr ⟨mid, r, hearlier, hmore ▸ List.mem_append_right mid List.mem_cons_self⟩
  · cases mid with
    | nil =>
      rw [List.nil_append] at hlater
      exact .inr ⟨[], r, by rw [hcalls, List.append_nil, List.append_nil], hlater ▸ List.mem_cons_self⟩
    | cons x mid =>
      obtain ⟨rfl, -⟩ := List.cons.inj hlater
      exact .inl ⟨r, hcalls ▸ List.mem_append_right earlier List.mem_cons_self⟩

/-- **One intent.** -/
theorem ensures_handle (s : Store) (intent : Intent) :
    Prog.Ensures (serve ctx) s (handle rt cfg intent)
      (Outcome rt cfg ctx s (resolveCity cfg intent) (isEn intent)) := by
  apply Prog.ensures_bind
  apply Prog.ensures_mono (ensures_resolveGeocoding s (resolveCity cfg intent) (isEn intent))
  intro s₁ calls r R
  -- an answer that calls nothing
  have hquiet : ∀ result,
    (∀ found, Tells rt cfg (calls ++ []) (resolveCity cfg intent) (isEn intent) found result) →
      Outcome rt cfg ctx s (resolveCity cfg intent) (isEn intent) s₁ (calls ++ []) result := by
    intro result htells
    refine ⟨?_, ?_, htells _⟩
    · rw [List.append_nil]
      exact R.leaves
    · intro url earlier hgot
      rcases hgot.cases with ⟨r, hgot⟩ | ⟨mid, r, -, hgot⟩
      · exact .inl (R.asks url r hgot)
      · cases hgot
  match r, R with
  | .error msg, R => exact hquiet _ (fun _ => .inl (congrArg speak (R.failed msg rfl)))
  | .ok none, R => exact hquiet _ (fun _ => .inr (.inl rfl))
  | .ok (some geo), R =>
    have hsource := R.found geo rfl
    have hforecast : ∀ speech, (∀ value text, speech geo (isEn intent) value = some text →
        SpeechOf rt geo (isEn intent) value text) →
        Prog.Ensures (serve ctx) s₁ (forecast rt cfg geo (isEn intent) speech) (fun s'' more result =>
          Outcome rt cfg ctx s (resolveCity cfg intent) (isEn intent) s'' (calls ++ more) result) := by
      intro speech hspeech
      apply Prog.ensures_mono ensures_forecast
      rintro s'' more result ⟨hleaves, hasks, htells⟩
      refine ⟨?_, ?_, ?_⟩
      · intro low bytes h
        rcases R.leaves low bytes (hleaves low bytes h) with h | ⟨hlow, geo', hgeo', hbytes⟩
        · exact .inl h
        · exact .inr ⟨hlow, geo', hgeo'.append_right more, hbytes⟩
      · intro url earlier hgot
        rcases hgot.cases with ⟨r, hgot⟩ | ⟨mid, r, rfl, hmore⟩
        · exact .inl (R.asks url r hgot)
        · exact .inr ⟨geo, hsource.append_right mid, hasks url r hmore⟩
      · rcases htells with hfails | ⟨value, text, hgot, htext, hresult⟩
        · exact .inl hfails
        · exact .inr (.inr (.inr ⟨geo, value, text, hsource.append_right more, List.mem_append_right _ hgot,
            hspeech value text htext, hresult⟩))
    show Prog.Ensures (serve ctx) s₁ (answer rt cfg intent.name geo (isEn intent)) _
    unfold answer
    by_cases hnow : intent.name = "weather.now".toList
    · rw [if_pos hnow]
      exact hforecast _ (fun _ _ => .inl)
    · rw [if_neg hnow]
      by_cases htomorrow : intent.name = "weather.tomorrow".toList
      · rw [if_pos htomorrow]
        exact hforecast _ (fun _ _ => .inr)
      · rw [if_neg htomorrow]
        exact hquiet _ (fun _ => .inr (.inr (.inl ⟨_, rfl⟩)))

end Intent

/-! ## Every run -/

section Runs

variable {F : Type} {rt : Runtime F} {cfg : Config} {ctx : SkillCtx}

/-- Coordinates that were answered for a city, as they are read. -/
def Known (rt : Runtime F) (cfg : Config) (h : List (Handled F)) (city : Text) (geo : Geo F) : Prop :=
  ∃ geo₀, Answered rt cfg h (rt.unicode.toLowercase city) geo₀ ∧ ReadsAs rt geo₀ geo

/-- What an intent asks for is of coordinates that were answered for its city
before it asks, in an earlier intent or earlier in this one; and what it says is
of such coordinates. -/
def Accounted (rt : Runtime F) (cfg : Config) (before : List (Handled F)) (d : Handled F) : Prop :=
  let city := resolveCity cfg d.intent
  let en := isEn d.intent
  (∀ url earlier, GotAfter d.calls earlier url → url = geocodingUrl cfg city en ∨
    ∃ geo, Known rt cfg (before ++ [{ d with calls := earlier }]) city geo ∧ url = forecastUrl rt cfg geo) ∧
  Tells rt cfg d.calls city en (Known rt cfg (before ++ [d]) city) d.result

theorem Answered.append {h : List (Handled F)} {low : Text} {geo : Geo F} (hanswered : Answered rt cfg h low geo)
    (more : List (Handled F)) : Answered rt cfg (h ++ more) low geo := by
  obtain ⟨d, hd, hlow, hgeo⟩ := hanswered
  exact ⟨d, List.mem_append_left _ hd, hlow, hgeo⟩

theorem Answered.last {h : List (Handled F)} {d : Handled F} {geo : Geo F}
    (hgeo : Locates cfg d.calls (resolveCity cfg d.intent) (isEn d.intent) geo) :
    Answered rt cfg (h ++ [d]) (rt.unicode.toLowercase (resolveCity cfg d.intent)) geo :=
  ⟨d, List.mem_append_right _ List.mem_cons_self, rfl, hgeo⟩

/-- What the store holds was answered, and so is what was asked for. -/
structure Coherent (rt : Runtime F) (cfg : Config) (ctx : SkillCtx) (h : List (Handled F)) (s : Store) : Prop where
  stored : ∀ low bytes, Stored ctx s low bytes → ∃ geo, Answered rt cfg h low geo ∧
    rt.geoToBytes geo = some bytes
  accounted : Machine.Recorded (Accounted rt cfg) h

theorem coherent_nil {s : Store} (hempty : ∀ key, s.skillKv.lookup (ctx.name, key) = none) :
    Coherent rt cfg ctx [] s := by
  refine ⟨?_, Machine.recorded_nil _⟩
  rintro low bytes ⟨stamp, hstored⟩
  rw [hempty] at hstored
  cases hstored

/-- **One intent** keeps the store coherent. -/
theorem coherent_step {h : List (Handled F)} {s s' : Store} {r : Request F ctx.name} {o : List (Handled F)}
    (C : Coherent rt cfg ctx h s) (hstep : (machine rt cfg ctx).step s r = some (s', o)) :
    Coherent rt cfg ctx (h ++ o) s' := by
  cases hstep
  have hhandle : Prog.Ensures (serve ctx) s (handle rt cfg r.intent)
      (Outcome rt cfg ctx s (resolveCity cfg r.intent) (isEn r.intent)) := ensures_handle s r.intent
  have hout := Prog.exec_of_ensures hhandle r.moments
  generalize Prog.exec (serve ctx) r.moments s (handle rt cfg r.intent) = done at hout ⊢
  obtain ⟨s', calls, result⟩ := done
  have hknown : ∀ (earlier : Prog.Trace Call (Call.Answer F)) (geo : Geo F),
      Source rt cfg ctx s earlier (resolveCity cfg r.intent) (isEn r.intent) geo →
        Known rt cfg (h ++ [⟨r.intent, earlier, result⟩]) (resolveCity cfg r.intent) geo := by
    intro earlier geo hsource
    rcases hsource with ⟨bytes, hstored, hcached⟩ | hlocates
    · obtain ⟨geo₀, hanswered, hbytes⟩ := C.stored _ _ hstored
      exact ⟨geo₀, hanswered.append _, .inr ⟨bytes, hbytes, hcached⟩⟩
    · exact ⟨geo, Answered.last (d := ⟨r.intent, earlier, result⟩) hlocates, .inl rfl⟩
  refine ⟨?_, C.accounted.concat ⟨?_, ?_⟩⟩
  · intro low bytes hstored
    rcases hout.leaves low bytes hstored with hold | ⟨rfl, geo, hlocates, hbytes⟩
    · obtain ⟨geo, hanswered, hbytes⟩ := C.stored low bytes hold
      exact ⟨geo, hanswered.append _, hbytes⟩
    · exact ⟨geo, Answered.last (d := ⟨r.intent, calls, result⟩) hlocates, hbytes⟩
  · intro url earlier hgot
    rcases hout.asks url earlier hgot with hgeo | ⟨geo, hsource, hurl⟩
    · exact .inl hgeo
    · exact .inr ⟨geo, hknown earlier geo hsource, hurl⟩
  · rcases hout.tells with htells | htells | htells | ⟨geo, value, text, hsource, hgot, htext, hresult⟩
    · exact .inl htells
    · exact .inr (.inl htells)
    · exact .inr (.inr (.inl htells))
    · exact .inr (.inr (.inr ⟨geo, value, text, hknown calls geo hsource, hgot, htext, hresult⟩))

/-- **Coordinates are answered ones.** In every run from a store that holds nothing
of the skill, whatever others do to the store and the services answer, a
forecast is asked for at coordinates that the geocoding service has answered
by then for the city, up to its case, or at what is read once they are written;
and a forecast that is spoken is one of these. -/
theorem coordinates_answered {s s' : Store} {rs : List (Request F ctx.name)} {h : List (Handled F)}
    (hempty : ∀ key, s.skillKv.lookup (ctx.name, key) = none)
    (hrun : (machine rt cfg ctx).run s rs = some (s', h)) : Machine.Recorded (Accounted rt cfg) h := by
  exact ((machine rt cfg ctx).run_invariant (fun _ _ _ _ _ C hs => coherent_step C hs)
    (coherent_nil hempty) hrun).accounted

end Runs

/-! ## A city that was found -/

section Once

variable {F : Type} {rt : Runtime F} {cfg : Config} {ctx : SkillCtx}

/-- The store works, and no collection of the skill runs. -/
def Steady (m : Moment F ctx.name) : Prop :=
  m.storeFails = false ∧ ∀ x ∈ m.before, ∀ threshold, x ≠ .gc ctx.name threshold

/-- Coordinates are written, and what is written is read as coordinates. -/
def Writes (rt : Runtime F) : Prop :=
  ∀ geo, ∃ bytes, rt.geoToBytes geo = some bytes ∧ (cached rt bytes).isSome = true

def steadyServe (ctx : SkillCtx) (s : Store) (m : { m : Moment F ctx.name // Steady m }) (c : Call) :
    Store × c.Answer F :=
  serve ctx s m.1 c

theorem steadyServe_get (s : Store) (m : { m : Moment F ctx.name // Steady m }) (key : Text) :
    steadyServe ctx s m (.stateGet key) =
      (m.1.before.foldl Elsewhere.on s, hostStateGet ctx (m.1.before.foldl Elsewhere.on s) key) := by
  show (_, if m.1.storeFails then [] else _) = _
  rw [m.2.1]
  rfl

theorem steadyServe_set (s : Store) (m : { m : Moment F ctx.name // Steady m }) (key : Text) (val : Bytes) :
    steadyServe ctx s m (.stateSet key val) =
      (hostStateSet ctx m.1.now (m.1.before.foldl Elsewhere.on s) key val, ()) := by
  show (if m.1.storeFails then _ else _, _) = _
  rw [m.2.1]
  rfl

/-- The forecast, or nothing, is asked for. -/
def OnlyForecast (rt : Runtime F) (cfg : Config) (geo : Geo F) (calls : Prog.Trace Call (Call.Answer F)) : Prop :=
  calls.length ≤ 1 ∧ ∀ x ∈ calls, x.1 = .httpGetJson (forecastUrl rt cfg geo)

theorem forecastUrl_ne_geocodingUrl (geo : Geo F) (city : Text) (en : Bool) :
    forecastUrl rt cfg geo ≠ geocodingUrl cfg city en := by
  intro heq
  have hlast := congrArg List.getLast? heq
  unfold forecastUrl geocodingUrl geocodingQuery at hlast
  rw [← List.append_assoc, List.getLast?_append_of_ne_nil _ (by decide),
    List.getLast?_append_of_ne_nil _ (by decide)] at hlast
  exact absurd hlast (by decide)

theorem Stored.unique {s : Store} {low : Text} {bytes bytes' : Bytes} (h : Stored ctx s low bytes)
    (h' : Stored ctx s low bytes') : bytes = bytes' := by
  obtain ⟨stamp, h⟩ := h
  obtain ⟨stamp', h'⟩ := h'
  rw [h] at h'
  cases h'
  rfl

theorem Stored.on {s : Store} {low : Text} {bytes : Bytes} {x : Elsewhere ctx.name}
    (hx : ∀ threshold, x ≠ .gc ctx.name threshold) (h : Stored ctx s low bytes) :
    Stored ctx (x.on s) low bytes := by
  obtain ⟨stamp, h⟩ := h
  refine ⟨stamp, ?_⟩
  rw [← h]
  cases x with
  | stateSet other hne now key val => exact skillKv_hostStateSet_other other now s key val hne.symm
  | gc skill threshold =>
    refine Store.skillKv_gc_other s threshold ?_
    rintro rfl
    exact hx threshold rfl

theorem Stored.before {low : Text} {bytes : Bytes} : ∀ {xs : List (Elsewhere ctx.name)},
    (∀ x ∈ xs, ∀ threshold, x ≠ .gc ctx.name threshold) → ∀ {s : Store}, Stored ctx s low bytes →
      Stored ctx (xs.foldl Elsewhere.on s) low bytes := by
  intro xs
  induction xs with
  | nil => intro _ s h; exact h
  | cons x xs ih =>
    intro hxs s h
    exact ih (fun y hy => hxs y (List.mem_cons_of_mem x hy)) (h.on (hxs x List.mem_cons_self))

theorem stored_hostStateSet (hret : ctx.retentionGcAfterSec = none) (s : Store) (now : UInt64) (city : Text)
    (val : Bytes) :
    Stored ctx (hostStateSet ctx now s (geoKey rt city) val) (rt.unicode.toLowercase city) val ∧
      ∀ low bytes, low ≠ rt.unicode.toLowercase city → Stored ctx s low bytes →
        Stored ctx (hostStateSet ctx now s (geoKey rt city) val) low bytes := by
  unfold hostStateSet
  rw [hret]
  refine ⟨⟨now.toNat, ?_⟩, ?_⟩
  · rw [Store.skillKv_set]
    exact if_pos rfl
  · rintro low bytes hlow ⟨stamp, h⟩
    refine ⟨stamp, ?_⟩
    rw [Store.skillKv_set, if_neg]
    · exact h
    · intro heq
      exact hlow (List.append_cancel_left (Prod.mk.inj heq).2)

/-- What asking the service leaves: coordinates that were answered are stored. -/
structure Noted (rt : Runtime F) (cfg : Config) (ctx : SkillCtx) (s : Store) (city : Text) (en : Bool) (s' : Store)
    (calls : Prog.Trace Call (Call.Answer F)) : Prop where
  kept : ∀ low bytes, low ≠ rt.unicode.toLowercase city → Stored ctx s low bytes → Stored ctx s' low bytes
  asks : ∀ url r, Got calls url r → url = geocodingUrl cfg city en
  noted : ∀ geo, Locates cfg calls city en geo →
    ∃ bytes, rt.geoToBytes geo = some bytes ∧ Stored ctx s' (rt.unicode.toLowercase city) bytes

theorem steady_geocode (hret : ctx.retentionGcAfterSec = none) (hwrites : Writes rt) (s : Store)
    (city : Text) (en : Bool) :
    Prog.Ensures (steadyServe ctx) s (geocode rt cfg city en)
      (fun s' calls _ => Noted rt cfg ctx s city en s' calls) := by
  rintro ⟨⟨before, now, storeFails, http⟩, -, hsteady⟩
  have hkept : ∀ low bytes, Stored ctx s low bytes → Stored ctx (before.foldl Elsewhere.on s) low bytes :=
    fun low bytes h => h.before hsteady
  -- nothing was answered, and nothing is stored
  have hnothing : (http.bind firstResult).bind (located city) = none →
      Noted rt cfg ctx s city en (before.foldl Elsewhere.on s)
        [⟨.httpGetJson (geocodingUrl cfg city en), http⟩] := by
    intro hnone
    refine ⟨fun low bytes _ => hkept low bytes, ?_, ?_⟩
    · intro url r hgot
      cases List.mem_singleton.mp hgot
      rfl
    · rintro geo ⟨r, hgot, hgeo⟩
      cases List.mem_singleton.mp hgot
      rw [hnone] at hgeo
      cases hgeo
  show Prog.Ensures (steadyServe ctx) (before.foldl Elsewhere.on s) (geocoded rt city en http)
    (fun s' more _ => Noted rt cfg ctx s city en s' (⟨.httpGetJson (geocodingUrl cfg city en), http⟩ :: more))
  cases http with
  | none => exact hnothing rfl
  | some value =>
    cases hfirst : firstResult value with
    | none =>
      rw [geocoded_unknown rt hfirst]
      exact hnothing (by rw [Option.bind_some, hfirst]; rfl)
    | some first =>
      rw [geocoded_first rt hfirst, firstGeocoded]
      cases hgeo : located city first with
      | none => exact hnothing (by rw [Option.bind_some, hfirst, Option.bind_some, hgeo])
      | some geo =>
        obtain ⟨bytes, hbytes, -⟩ := hwrites geo
        simp only [remember, hbytes]
        intro m
        have hset := @stored_hostStateSet F rt ctx hret (m.1.before.foldl Elsewhere.on (before.foldl Elsewhere.on s))
          m.1.now city bytes
        rw [steadyServe_set]
        refine ⟨fun low bytes hlow h => hset.2 low bytes hlow ((hkept low bytes h).before m.2.2), ?_, ?_⟩
        · intro url r hgot
          rcases List.mem_cons.mp hgot with hgot | hgot
          · cases hgot
            rfl
          · cases List.mem_singleton.mp hgot
        · rintro geo' ⟨r, hgot, hgeo'⟩
          rcases List.mem_cons.mp hgot with hgot | hgot
          · cases hgot
            rw [Option.bind_some, hfirst, Option.bind_some, hgeo] at hgeo'
            cases hgeo'
            exact ⟨bytes, hbytes, hset.1⟩
          · cases List.mem_singleton.mp hgot

theorem steady_answer (s : Store) (name : Text) (geo : Geo F) (en : Bool) :
    Prog.Ensures (steadyServe ctx) s (answer rt cfg name geo en) (fun s' calls _ =>
      (∀ low bytes, Stored ctx s low bytes → Stored ctx s' low bytes) ∧ OnlyForecast rt cfg geo calls) := by
  have hforecast : ∀ speech, Prog.Ensures (steadyServe ctx) s (forecast rt cfg geo en speech) (fun s' calls _ =>
      (∀ low bytes, Stored ctx s low bytes → Stored ctx s' low bytes) ∧ OnlyForecast rt cfg geo calls) := by
    intro speech m
    refine ⟨fun low bytes h => h.before m.2.2, Nat.le_refl 1, ?_⟩
    intro x hx
    rw [List.mem_singleton.mp hx]
  unfold answer
  by_cases hnow : name = "weather.now".toList
  · rw [if_pos hnow]
    exact hforecast _
  · rw [if_neg hnow]
    by_cases htomorrow : name = "weather.tomorrow".toList
    · rw [if_pos htomorrow]
      exact hforecast _
    · rw [if_neg htomorrow]
      exact ⟨fun _ _ h => h, Nat.zero_le 1, fun _ => List.not_mem_nil.elim⟩

/-- What one intent does to the memory of a city. -/
structure Remembers (rt : Runtime F) (cfg : Config) (ctx : SkillCtx) (s : Store) (city : Text) (en : Bool) (s' : Store)
    (calls : Prog.Trace Call (Call.Answer F)) : Prop where
  kept : ∀ low bytes, low ≠ rt.unicode.toLowercase city → Stored ctx s low bytes → Stored ctx s' low bytes
  /-- What is stored is used, and stays. -/
  hit : ∀ bytes geo, Stored ctx s (rt.unicode.toLowercase city) bytes → cached rt bytes = some geo →
    Stored ctx s' (rt.unicode.toLowercase city) bytes ∧
      ∃ more, calls = ⟨.stateGet (geoKey rt city), bytes⟩ :: more ∧ OnlyForecast rt cfg geo more
  noted : (∀ bytes, Stored ctx s (rt.unicode.toLowercase city) bytes → cached rt bytes = none) →
    ∀ geo, Locates cfg calls city en geo →
      ∃ bytes, rt.geoToBytes geo = some bytes ∧ Stored ctx s' (rt.unicode.toLowercase city) bytes

theorem hostStateGet_of_stored {s : Store} {city : Text} {bytes : Bytes}
    (h : Stored ctx s (rt.unicode.toLowercase city) bytes) : hostStateGet ctx s (geoKey rt city) = bytes := by
  obtain ⟨stamp, h⟩ := h
  have hrow : s.skillKv.lookup (ctx.name, geoKey rt city) = some ⟨bytes, stamp⟩ := h
  rw [hostStateGet, Store.skillKvGet, hrow]
  rfl

theorem steady_handle (hret : ctx.retentionGcAfterSec = none) (hwrites : Writes rt) (s : Store) (intent : Intent) :
    Prog.Ensures (steadyServe ctx) s (handle rt cfg intent) (fun s' calls _ =>
      Remembers rt cfg ctx s (resolveCity cfg intent) (isEn intent) s' calls) := by
  intro m
  generalize resolveCity cfg intent = city
  have hkept : ∀ low bytes, Stored ctx s low bytes → Stored ctx (m.1.before.foldl Elsewhere.on s) low bytes :=
    fun low bytes h => h.before m.2.2
  rw [steadyServe_get]
  generalize m.1.before = before at hkept ⊢
  show Prog.Ensures (steadyServe ctx) (before.foldl Elsewhere.on s)
    (cachedOr rt cfg city (isEn intent)
      (cached rt (hostStateGet ctx (before.foldl Elsewhere.on s) (geoKey rt city))) >>=
      resolved rt cfg intent)
    (fun s' more _ => Remembers rt cfg ctx s city (isEn intent) s'
      (⟨.stateGet (geoKey rt city), hostStateGet ctx (before.foldl Elsewhere.on s) (geoKey rt city)⟩ :: more))
  cases hcached : cached rt (hostStateGet ctx (before.foldl Elsewhere.on s) (geoKey rt city)) with
  | some geo =>
    obtain ⟨bytes₀, hstored, hgeo⟩ := stored_of_get hcached
    apply Prog.ensures_mono (steady_answer _ intent.name geo (isEn intent))
    rintro s' more result ⟨hleaves, honly⟩
    refine ⟨fun low bytes _ h => hleaves low bytes (hkept low bytes h), ?_, ?_⟩
    · intro bytes geo' hbytes hgeo'
      refine ⟨hleaves _ _ (hkept _ _ hbytes), more, ?_, ?_⟩
      · rw [hostStateGet_of_stored (hkept _ _ hbytes)]
      · rw [hostStateGet_of_stored (hkept _ _ hbytes), hgeo'] at hcached
        cases hcached
        exact honly
    · intro hnone
      rw [hnone bytes₀ (stored_before _ hstored)] at hgeo
      cases hgeo
  | none =>
    have hmiss : ∀ bytes geo, Stored ctx s (rt.unicode.toLowercase city) bytes → ¬ cached rt bytes = some geo := by
      intro bytes geo hbytes hgeo
      rw [hostStateGet_of_stored (hkept _ _ hbytes), hgeo] at hcached
      cases hcached
    have hread : ∀ url r, ¬ Got ([⟨.stateGet (geoKey rt city),
        hostStateGet ctx (before.foldl Elsewhere.on s) (geoKey rt city)⟩] :
          Prog.Trace Call (Call.Answer F)) url r := by
      intro url r hgot
      cases List.mem_singleton.mp hgot
    apply Prog.ensures_bind
    apply Prog.ensures_mono (steady_geocode hret hwrites _ city (isEn intent))
    intro s₁ calls r N
    -- whatever is answered, coordinates are noted and stay so
    have hdone : ∀ s' more, (∀ low bytes, Stored ctx s₁ low bytes → Stored ctx s' low bytes) →
        (∀ url r, Got more url r → url ≠ geocodingUrl cfg city (isEn intent)) →
        Remembers rt cfg ctx s city (isEn intent) s' (⟨.stateGet (geoKey rt city),
          hostStateGet ctx (before.foldl Elsewhere.on s) (geoKey rt city)⟩ :: (calls ++ more)) := by
      intro s' more hleaves hmore
      refine ⟨fun low bytes hlow h => hleaves low bytes (N.kept low bytes hlow (hkept low bytes h)),
        fun bytes geo hbytes hgeo => absurd hgeo (hmiss bytes geo hbytes), ?_⟩
      rintro - geo ⟨r, hgot, hgeo⟩
      rcases List.mem_cons.mp hgot with hgot | hgot
      · cases hgot
      · rcases List.mem_append.mp hgot with hgot | hgot
        · obtain ⟨bytes, hbytes, hstored⟩ := N.noted geo ⟨r, hgot, hgeo⟩
          exact ⟨bytes, hbytes, hleaves _ _ hstored⟩
        · exact absurd rfl (hmore _ _ hgot)
    have hquiet := hdone s₁ [] (fun _ _ h => h) (fun _ _ => List.not_mem_nil.elim)
    cases r with
    | error msg => exact hquiet
    | ok found =>
      cases found with
      | none => exact hquiet
      | some geo =>
        apply Prog.ensures_mono (steady_answer s₁ intent.name geo (isEn intent))
        rintro s' more result ⟨hleaves, -, honly⟩
        apply hdone s' more hleaves
        intro url r hgot
        cases honly _ hgot
        exact forecastUrl_ne_geocodingUrl geo city (isEn intent)

/-- An intent for a city that was found asks for its forecast at most. -/
def AsksOnce (rt : Runtime F) (cfg : Config) (before : List (Handled F)) (d : Handled F) : Prop :=
  ∀ geo₀, Answered rt cfg before (rt.unicode.toLowercase (resolveCity cfg d.intent)) geo₀ →
    ∃ bytes geo more, rt.geoToBytes geo₀ = some bytes ∧ cached rt bytes = some geo ∧
      d.calls = ⟨.stateGet (geoKey rt (resolveCity cfg d.intent)), bytes⟩ :: more ∧ OnlyForecast rt cfg geo more

/-- What was answered is stored, and is not asked for again. -/
structure Remembering (rt : Runtime F) (cfg : Config) (ctx : SkillCtx) (h : List (Handled F)) (s : Store) : Prop where
  coherent : Coherent rt cfg ctx h s
  stored : ∀ low geo, Answered rt cfg h low geo → ∃ bytes, rt.geoToBytes geo = some bytes ∧
    Stored ctx s low bytes
  once : Machine.Recorded (AsksOnce rt cfg) h

theorem answered_concat {h : List (Handled F)} {d : Handled F} {low : Text} {geo : Geo F}
    (hanswered : Answered rt cfg (h ++ [d]) low geo) : Answered rt cfg h low geo ∨
      (low = rt.unicode.toLowercase (resolveCity cfg d.intent) ∧
        Locates cfg d.calls (resolveCity cfg d.intent) (isEn d.intent) geo) := by
  obtain ⟨d', hd', hlow, hgeo⟩ := hanswered
  rcases List.mem_append.mp hd' with hd' | hd'
  · exact .inl ⟨d', hd', hlow, hgeo⟩
  · cases List.mem_singleton.mp hd'
    exact .inr ⟨hlow.symm, hgeo⟩

/-- **One intent** at steady moments. -/
theorem remembering_step (hret : ctx.retentionGcAfterSec = none) (hwrites : Writes rt) {h o : List (Handled F)}
    {s s' : Store} {r : Request F ctx.name} (hsteady : ∀ n, Steady (r.moments n)) (R : Remembering rt cfg ctx h s)
    (hstep : (machine rt cfg ctx).step s r = some (s', o)) : Remembering rt cfg ctx (h ++ o) s' := by
  have hcoherent := coherent_step R.coherent hstep
  cases hstep
  have hout := Prog.exec_of_ensures (@steady_handle F rt cfg ctx hret hwrites s r.intent)
    (fun n => (⟨r.moments n, hsteady n⟩ : { m : Moment F ctx.name // Steady m }))
  have hexec : Prog.exec (steadyServe ctx)
    (fun n => (⟨r.moments n, hsteady n⟩ : { m : Moment F ctx.name // Steady m })) s
      (handle rt cfg r.intent) = Prog.exec (serve ctx) r.moments s (handle rt cfg r.intent) :=
    (Prog.exec_comap Subtype.val _ s).symm
  rw [hexec] at hout
  generalize Prog.exec (serve ctx) r.moments s (handle rt cfg r.intent) = done at hout hcoherent ⊢
  obtain ⟨s', calls, result⟩ := done
  by_cases hknown : ∃ geo₀, Answered rt cfg h (rt.unicode.toLowercase (resolveCity cfg r.intent)) geo₀
  · obtain ⟨geo₀, hanswered⟩ := hknown
    obtain ⟨bytes, hbytes, hstored⟩ := R.stored _ _ hanswered
    obtain ⟨bytes', hbytes', hreads⟩ := hwrites geo₀
    cases hbytes.symm.trans hbytes'
    obtain ⟨geo, hgeo⟩ := Option.isSome_iff_exists.mp hreads
    obtain ⟨hstays, more, hcalls, honly⟩ := hout.hit bytes geo hstored hgeo
    refine ⟨hcoherent, ?_, R.once.concat ?_⟩
    · intro low geo' hanswered'
      rcases answered_concat hanswered' with hold | ⟨-, answer, hgot, -⟩
      · obtain ⟨bytes', hbytes', hstored'⟩ := R.stored low geo' hold
        refine ⟨bytes', hbytes', ?_⟩
        by_cases hlow : low = rt.unicode.toLowercase (resolveCity cfg r.intent)
        · subst hlow
          rw [hstored'.unique hstored]
          exact hstays
        · exact hout.kept low bytes' hlow hstored'
      · -- this intent asked for no coordinates
        rw [hcalls] at hgot
        rcases List.mem_cons.mp hgot with hgot | hgot
        · cases hgot
        · exact absurd (Call.httpGetJson.inj (honly.2 _ hgot)).symm (forecastUrl_ne_geocodingUrl _ _ _)
    · intro geo₁ hanswered₁
      obtain ⟨bytes₁, hbytes₁, hstored₁⟩ := R.stored _ _ hanswered₁
      cases hstored₁.unique hstored
      exact ⟨bytes, geo, more, hbytes₁, hgeo, hcalls, honly⟩
  · refine ⟨hcoherent, ?_, R.once.concat (fun geo₀ hanswered => absurd ⟨geo₀, hanswered⟩ hknown)⟩
    intro low geo' hanswered'
    rcases answered_concat hanswered' with hold | ⟨rfl, hlocates⟩
    · obtain ⟨bytes, hbytes, hstored⟩ := R.stored low geo' hold
      refine ⟨bytes, hbytes, hout.kept low bytes ?_ hstored⟩
      rintro rfl
      exact hknown ⟨geo', hold⟩
    · refine hout.noted ?_ geo' hlocates
      intro bytes hstored
      obtain ⟨geo₀, hanswered, -⟩ := R.coherent.stored _ _ hstored
      exact absurd ⟨geo₀, hanswered⟩ hknown

/-- **A city is asked for once.** In every run from a store that holds nothing of
the skill, as long as the store works, nothing of the skill is collected and
what is written is read: an intent for a city that the service has answered,
under any case and in any language, reads it from the store and asks for its
forecast at most. -/
theorem asked_once {s s' : Store} {rs : List (Request F ctx.name)} {h : List (Handled F)}
    (hempty : ∀ key, s.skillKv.lookup (ctx.name, key) = none) (hret : ctx.retentionGcAfterSec = none)
    (hwrites : Writes rt) (hsteady : ∀ r ∈ rs, ∀ n, Steady (r.moments n))
    (hrun : (machine rt cfg ctx).run s rs = some (s', h)) : Machine.Recorded (AsksOnce rt cfg) h := by
  have hstart : Remembering rt cfg ctx [] s := by
    refine ⟨coherent_nil hempty, ?_, Machine.recorded_nil _⟩
    rintro low geo ⟨d, hd, -⟩
    cases hd
  have halong : (machine rt cfg ctx).Along (fun _ _ r => ∀ n, Steady (r.moments n)) [] s rs :=
    Machine.along_of_forall rs [] s (fun r hr _ _ => hsteady r hr)
  exact ((machine rt cfg ctx).run_invariant_along
    (fun _ _ _ _ _ R hs => remembering_step hret hwrites hs R) rs [] s s' h
    hstart halong hrun).once

end Once

/-! ## Whole degrees -/

/-- Coordinates in whole degrees as they are written, control characters in the name aside. -/
def Geo.toJson (geo : Geo Nat) : Text :=
  "\x7b\"lat\":".toList ++ (display geo.lat ++ (".0,\"lon\":".toList ++ (display geo.lon ++
    (".0,\"name\":\"".toList ++ (Strings.encodeString geo.name ++ "\x7d".toList)))))

/-- Coordinates that `toJson` has written. -/
def Geo.ofJson (text : Text) : Option (Geo Nat) :=
  (Str.stripPrefix "\x7b\"lat\":".toList text).bind (fun lat =>
    (Str.stripPrefix ".0,\"lon\":".toList (readDigits lat).2).bind (fun lon =>
      (Str.stripPrefix ".0,\"name\":\"".toList (readDigits lon).2).bind (fun name =>
        (Strings.decodeString false name).map (fun name =>
          { lat := (readDigits lat).1, lon := (readDigits lon).1, name := name.1 }))))

theorem Geo.ofJson_toJson (geo : Geo Nat) : ofJson geo.toJson = some geo := by
  have hpoint : ∀ s : Text, NoDigitFirst (".0,\"lon\":".toList ++ s) ∧
    NoDigitFirst (".0,\"name\":\"".toList ++ s) :=
    fun s => ⟨Jeedom.noDigitFirst_of_head (by decide) _, Jeedom.noDigitFirst_of_head (by decide) _⟩
  unfold Geo.ofJson Geo.toJson
  rw [Str.stripPrefix_append, Option.bind_some, readDigits_display (hpoint _).1, Str.stripPrefix_append,
    Option.bind_some, readDigits_display (hpoint _).2, Str.stripPrefix_append, Option.bind_some,
    Strings.decodeString_encodeString]
  rfl

def Geo.json : Codec (Geo Nat) Bytes := (Codec.mk Geo.toJson Geo.ofJson Geo.ofJson_toJson).comp utf8

/-- Over ASCII and whole degrees. -/
def Runtime.whole : Runtime Nat where
  unicode := .ascii
  geoToBytes := fun geo => some (Geo.json.encode geo)
  geoFromBytes := Geo.json.decode
  displayF64 := display
  rounded := fun n => n

theorem writes_whole : Writes Runtime.whole := by
  intro geo
  refine ⟨_, rfl, ?_⟩
  have hread : Runtime.whole.geoFromBytes (Geo.json.encode geo) = some geo := Geo.json.decode_encode geo
  have hne : (Geo.json.encode geo).isEmpty = false := rfl
  rw [cached, hne, if_neg Bool.false_ne_true, hread]
  rfl

def Config.none : Config := ⟨.none, .none, .none⟩

def weatherCtx : SkillCtx := ⟨"weather".toList, .none⟩

def asking (name city locale : Text) (answers : List (Value Nat)) : Request Nat weatherCtx.name where
  intent := ⟨name, [("city".toList, some city)], locale⟩
  moments := fun n => ⟨[], 0, false, answers[n]?⟩

def nice : Value Nat :=
  .object [("results".toList, .array [.object
    [("latitude".toList, .number 43 .none), ("longitude".toList, .number 7 .none),
      ("name".toList, .string "Nice".toList)]])]

def sunny : Value Nat := .object [("current".toList, .object
  [("temperature_2m".toList, .number 21 .none), ("weather_code".toList, .number 0 (some 0))])]

def rainy : Value Nat := .object [("daily".toList, .object
  [("temperature_2m_min".toList, .array [.number 9 .none]), ("temperature_2m_max".toList, .array [.number 12 .none]),
    ("weather_code".toList, .array [.number 61 (some 61)])])]

/-- Nice, asked for in English and then, in capitals, in French. -/
def niceTwice : List (Request Nat weatherCtx.name) :=
  [asking "weather.now".toList "Nice".toList "en-US".toList [.other, nice, .other, sunny],
    asking "weather.tomorrow".toList "NICE".toList "fr-FR".toList [.other, rainy]]

theorem run_niceTwice : ∃ s' h, (machine Runtime.whole Config.none weatherCtx).run .new niceTwice = some (s', h) ∧
    h.map (·.result) = [speak "it is 21 degrees in Nice, clear skies".toList,
      speak "demain à Nice, il fera entre 9 et 12 degrés avec de la pluie".toList] ∧
    h.map (fun d => d.calls.length) = [4, 2] := by
  obtain ⟨s', h, hrun⟩ : ∃ s' h, (machine Runtime.whole Config.none weatherCtx).run .new niceTwice =
    some (s', h) :=
    ⟨_, _, rfl⟩
  have hall : ((machine Runtime.whole Config.none weatherCtx).run .new niceTwice).map (fun r =>
      (r.2.map (·.result), r.2.map (fun d => d.calls.length))) =
    some ([speak "it is 21 degrees in Nice, clear skies".toList,
      speak "demain à Nice, il fera entre 9 et 12 degrés avec de la pluie".toList], [4, 2]) := by decide +kernel
  rw [hrun] at hall
  have hpair := Prod.mk.inj (Option.some.inj hall)
  exact ⟨s', h, hrun, hpair.1, hpair.2⟩

/-- Both forecasts are of where Nice was answered to be, the second as it was written. -/
theorem nice_where_it_is : ∃ s' h, (machine Runtime.whole Config.none weatherCtx).run .new niceTwice =
    some (s', h) ∧
    h.map (·.result) = [speak "it is 21 degrees in Nice, clear skies".toList,
      speak "demain à Nice, il fera entre 9 et 12 degrés avec de la pluie".toList] ∧
    Machine.Recorded (Accounted Runtime.whole Config.none) h := by
  obtain ⟨s', h, hrun, hsaid, -⟩ := run_niceTwice
  exact ⟨s', h, hrun, hsaid, coordinates_answered (fun _ => rfl) hrun⟩

/-- The service is asked for Nice once: of the second intent's two calls, one
reads the store and one asks for the forecast. -/
theorem nice_asked_once : ∃ s' h, (machine Runtime.whole Config.none weatherCtx).run .new niceTwice = some (s', h) ∧
    h.map (fun d => d.calls.length) = [4, 2] ∧ Machine.Recorded (AsksOnce Runtime.whole Config.none) h := by
  obtain ⟨s', h, hrun, -, hcalls⟩ := run_niceTwice
  have hsteady : ∀ r ∈ niceTwice, ∀ n, Steady (r.moments n) := by
    intro r hr n
    have hempty : (r.moments n).storeFails = false ∧ (r.moments n).before = [] := by
      rcases List.mem_cons.mp hr with rfl | hr
      · exact ⟨rfl, rfl⟩
      · cases List.mem_singleton.mp hr
        exact ⟨rfl, rfl⟩
    refine ⟨hempty.1, ?_⟩
    rw [hempty.2]
    intro x hx
    cases hx
  exact ⟨s', h, hrun, hcalls, asked_once (fun _ => rfl) rfl writes_whole hsteady hrun⟩

end AthenaVoice.Skills.Weather
