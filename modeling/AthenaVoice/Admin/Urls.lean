import AthenaVoice.Admin.Validate

/-
  The derived hosts and the hosts of URLs — `validate.rs`, `http_url_allowed`

  The admin cuts a host out of a URL by hand: what follows `://`, up to a slash
  or a colon, as it is spelled. The runtime compares with the host a URL parser
  finds. The two meet where the parser leaves the host as it is spelled and
  nothing else stands between `://` and it, or between it and the end, a slash
  or a colon. The parser is a parameter.

  What is proved:
    1. `impliedHost_url_iff` — the host cut out is what the text spells.
    2. `url_permitted_iff` — an accepted URL is permitted exactly if some field of
       the schema spells its host.

  Correspondence (Rust ↔ Lean):
    `reqwest::Url`, `Url::parse`  `Url`, the parameter `parse`
    `http_url_allowed`            `httpUrlAllowed`
    `HostFnError`                 `HostFnError`, as far as it is raised here
-/

namespace AthenaVoice.Admin

open Lib Sdk

/-- A parsed URL, as far as it is read. -/
structure Url where
  scheme : Text
  host : Option Text
  deriving DecidableEq, Repr

/-- `HostFnError`, as far as a URL raises it. -/
inductive HostFnError where
  | httpBadUrl (error : Text)
  | httpBadScheme (scheme : Text)
  | httpHostNotAllowed (host : Text)
  deriving DecidableEq, Repr

def httpUrlAllowed (parse : Text → Except Text Url) (allowlist : List Text) (url : Text) : Except HostFnError Url :=
  match parse url with
  | .error e => .error (.httpBadUrl e)
  | .ok parsed =>
    if parsed.scheme = "http".toList ∨ parsed.scheme = "https".toList then
      match parsed.host with
      | none => .error (.httpBadUrl "missing host".toList)
      | some host => if host ∈ allowlist then .ok parsed else .error (.httpHostNotAllowed host)
    else .error (.httpBadScheme parsed.scheme)

/-- What the URL standard says of any parser: what stands before `://` is the
scheme, and white space alone is no URL. -/
structure Standard (parse : Text → Except Text Url) : Prop where
  http : ∀ raw url, parse raw = .ok url → "http://".toList.isPrefixOf raw = true → url.scheme = "http".toList
  https : ∀ raw url, parse raw = .ok url → "https://".toList.isPrefixOf raw = true → url.scheme = "https".toList
  nonblank : ∀ raw url, parse raw = .ok url → Str.trim raw ≠ []

/-! ## The host cut out -/

/-- What follows the scheme, if there is one. -/
def afterScheme (raw : Text) : Text := ((Str.splitOnce "://".toList raw).map Prod.snd).getD raw

/-- The value of a field spells the host: a host field all of it, but for white
space around; a url field after the scheme, before the end, a slash or a colon. -/
def Spells (kind : FieldKind) (raw host : Text) : Prop :=
  match kind with
  | .host => Str.trim raw = host
  | .url => host ≠ [] ∧ '/' ∉ host ∧ ':' ∉ host ∧
    ∃ rest, afterScheme raw = host ++ rest ∧ ∀ c, rest.head? = some c → c = '/' ∨ c = ':'
  | _ => False

/-- The longest start without a slash or a colon. -/
def bare (s : Text) : Text := s.takeWhile (fun c => c != '/' && c != ':')

theorem takeWhile_takeWhile (s : Text) : (s.takeWhile (fun c => c != '/')).takeWhile (fun c => c != ':') = bare s := by
  unfold bare
  induction s with
  | nil => rfl
  | cons c s ih =>
    rw [List.takeWhile_cons, List.takeWhile_cons]
    by_cases hslash : c = '/'
    · simp [hslash]
    · by_cases hcolon : c = ':'
      · simp [hcolon]
      · simp [hslash, hcolon, ih]

theorem bare_cons (c : Char) (s : Text) : bare (c :: s) = if c = '/' ∨ c = ':' then [] else c :: bare s := by
  unfold bare
  rw [List.takeWhile_cons]
  by_cases hslash : c = '/'
  · simp [hslash]
  · by_cases hcolon : c = ':' <;> simp [hslash, hcolon]

theorem bare_eq_iff {s host : Text} : bare s = host ↔
    '/' ∉ host ∧ ':' ∉ host ∧ ∃ rest, s = host ++ rest ∧ ∀ c, rest.head? = some c →
      c = '/' ∨ c = ':' := by
  constructor
  · rintro rfl
    induction s with
    | nil => exact ⟨List.not_mem_nil, List.not_mem_nil, [], rfl, fun c h => by cases h⟩
    | cons c s ih =>
      obtain ⟨hslash, hcolon, rest, hs, hstop⟩ := ih
      rw [bare_cons]
      split
      · rename_i hc
        refine ⟨List.not_mem_nil, List.not_mem_nil, c :: s, rfl, ?_⟩
        intro d hd
        cases hd
        exact hc
      · rename_i hc
        rw [not_or] at hc
        refine ⟨?_, ?_, rest, congrArg (c :: ·) hs, hstop⟩
        · exact fun h => (List.mem_cons.mp h).elim (fun h => hc.1 h.symm) hslash
        · exact fun h => (List.mem_cons.mp h).elim (fun h => hc.2 h.symm) hcolon
  · rintro ⟨hslash, hcolon, rest, rfl, hstop⟩
    induction host with
    | nil =>
      cases rest with
      | nil => rfl
      | cons c rest => rw [List.nil_append, bare_cons, if_pos (hstop c rfl)]
    | cons c host ih =>
      rw [List.cons_append, bare_cons, if_neg]
      · rw [ih (fun h => hslash (List.mem_cons_of_mem c h)) (fun h => hcolon (List.mem_cons_of_mem c h))]
      · rintro (rfl | rfl)
        · exact hslash List.mem_cons_self
        · exact hcolon List.mem_cons_self

theorem bare_splitOnce (s : Text) : bare (((Str.splitOnce "://".toList s).map Prod.fst).getD s) = bare s := by
  induction s with
  | nil => rfl
  | cons c s ih =>
    unfold Str.splitOnce
    cases hstrip : Str.stripPrefix "://".toList (c :: s) with
    | some rest =>
      -- the separator begins with a colon
      have hc : c = ':' := (List.cons.inj (Str.stripPrefix_eq_some.mp hstrip)).1
      simp only [Option.map_some, Option.getD_some]
      rw [bare_cons, if_pos (Or.inr hc)]
      rfl
    | none =>
      simp only
      cases hsplit : Str.splitOnce "://".toList s with
      | none => rfl
      | some p =>
        rw [hsplit] at ih
        simp only [Option.map_some, Option.getD_some] at ih ⊢
        rw [bare_cons, bare_cons, ih]

theorem impliedHost_iff {kind : FieldKind} {raw host : Text} : impliedHost kind raw = some host ↔
    Spells kind raw host := by
  cases kind with
  | host => exact ⟨Option.some.inj, congrArg some⟩
  | url =>
    have hcut : bare ((Str.splitNth1 "://".toList raw).getD raw) = bare (afterScheme raw) := by
      unfold Str.splitNth1 afterScheme
      cases Str.splitOnce "://".toList raw with
      | none => rfl
      | some p => exact bare_splitOnce p.2
    unfold impliedHost Spells
    simp only [takeWhile_takeWhile, hcut]
    rw [← bare_eq_iff]
    split
    · rename_i hempty
      rw [List.isEmpty_iff] at hempty
      rw [hempty]
      constructor
      · intro h
        cases h
      · rintro ⟨hne, rfl⟩
        exact absurd rfl hne
    · rename_i hsome
      rw [List.isEmpty_iff] at hsome
      constructor
      · intro h
        cases h
        exact ⟨hsome, rfl⟩
      · rintro ⟨-, rfl⟩
        rfl
  | _ => exact ⟨fun h => (by cases h), fun h => h.elim⟩

/-! ## What is permitted -/

/-- **Agreement.** A url field's value that the validator accepts and that has a
host by the standard is permitted by the derived allowlist exactly if some
non-blank url or host value of the schema spells that host. -/
theorem url_permitted_iff (json : Serde.JsonReader) {parse : Text → Except Text Url} (hstandard : Standard parse)
    (schema : ConfigSchema) (submitted values : Values) (hvalid : validate json (some schema) submitted = .ok ())
    {f : ConfigField} (hf : f ∈ schema.fields) (hkind : f.kind = .url) {raw : Text}
    (hsubmitted : submitted.lookup f.key = some raw) {url : Url}
    (hparse : parse raw = .ok url) {host : Text} (hhost : url.host = some host) :
    (httpUrlAllowed parse (derivedAllowlist schema values) raw).isOk = true ↔
      ∃ g ∈ schema.fields, ∃ r, values.lookup g.key = some r ∧ Str.trim r ≠ [] ∧ Spells g.kind r host := by
  have hcheck := validate_ok hvalid hf hsubmitted (hstandard.nonblank raw url hparse)
  rw [hkind] at hcheck
  have hscheme : url.scheme = "http".toList ∨ url.scheme = "https".toList := by
    simp only [check] at hcheck
    split at hcheck
    · rename_i hstart
      rcases Bool.or_eq_true_iff.mp hstart with h | h
      · exact Or.inl (hstandard.http raw url hparse h)
      · exact Or.inr (hstandard.https raw url hparse h)
    · cases hcheck
  have hallowed : (httpUrlAllowed parse (derivedAllowlist schema values) raw).isOk = true ↔
      host ∈ derivedAllowlist schema values := by
    unfold httpUrlAllowed
    simp only [hparse, if_pos hscheme, hhost]
    split
    · rename_i h
      exact iff_of_true rfl h
    · rename_i h
      exact iff_of_false Bool.false_ne_true h
  rw [hallowed, mem_derivedAllowlist]
  simp only [impliedHost_iff]

/-! ## A parser for plain http URLs -/

/-- The host of an authority: without what stands before an at sign and the
port, in lower case; an address in brackets keeps its colons. -/
def hostOf (authority : Text) : Text :=
  let hostPort := (authority.reverse.takeWhile (fun c => c != '@')).reverse
  let host := if hostPort.head? = some '[' then hostPort.takeWhile (fun c => c != ']') ++ "]".toList
    else hostPort.takeWhile (fun c => c != ':')
  host.map Str.asciiLower

/-- What follows the scheme of an http URL. -/
def parseAuthority (scheme rest : Text) : Except Text Url :=
  let host := hostOf (rest.takeWhile (fun c => c ∉ ['/', '?', '#', Char.ofNat 0x5c]))
  if host.isEmpty then .error "empty host".toList else .ok { scheme, host := some host }

/-- Absolute http and https URLs with ASCII hosts. -/
def parseUrl (raw : Text) : Except Text Url :=
  match Str.stripPrefix "http://".toList raw, Str.stripPrefix "https://".toList raw with
  | some rest, _ => parseAuthority "http".toList rest
  | none, some rest => parseAuthority "https".toList rest
  | none, none => .error "relative URL without a base".toList

theorem parseAuthority_scheme {scheme rest : Text} {url : Url} (h : parseAuthority scheme rest = .ok url) :
    url.scheme = scheme := by
  unfold parseAuthority at h
  simp only at h
  split at h
  · cases h
  · cases h
    rfl

theorem standard_parseUrl : Standard parseUrl := by
  have hstrip : ∀ {p raw : Text}, p.isPrefixOf raw = true → ∃ rest, Str.stripPrefix p raw = some rest := by
    intro p raw h
    obtain ⟨rest, hrest⟩ := List.isPrefixOf_iff_prefix.mp h
    exact ⟨rest, Str.stripPrefix_eq_some.mpr hrest.symm⟩
  refine ⟨?_, ?_, ?_⟩
  · intro raw url h hp
    obtain ⟨rest, hrest⟩ := hstrip hp
    simp only [parseUrl, hrest] at h
    exact parseAuthority_scheme h
  · intro raw url h hp
    obtain ⟨rest, hrest⟩ := hstrip hp
    -- a text does not begin both ways
    have hnone : Str.stripPrefix "http://".toList raw = none := by
      rw [Str.stripPrefix_eq_some.mp hrest]
      rfl
    simp only [parseUrl, hrest, hnone] at h
    exact parseAuthority_scheme h
  · intro raw url h hblank
    have hhead : raw.head? = some 'h' := by
      simp only [parseUrl] at h
      cases hhttp : Str.stripPrefix "http://".toList raw with
      | some rest => rw [Str.stripPrefix_eq_some.mp hhttp]; rfl
      | none =>
        cases hhttps : Str.stripPrefix "https://".toList raw with
        | some rest => rw [Str.stripPrefix_eq_some.mp hhttps]; rfl
        | none =>
          rw [hhttp, hhttps] at h
          cases h
    cases raw with
    | nil => cases hhead
    | cons c rest =>
      cases hhead
      have hstart : Str.trimStart ('h' :: rest) = 'h' :: rest := rfl
      unfold Str.trim Str.trimEnd at hblank
      rw [hstart] at hblank
      exact absurd (List.rdropWhile_eq_nil_iff.mp hblank 'h' List.mem_cons_self) (by decide)

def baseUrlSchema : ConfigSchema :=
  ⟨[{ key := "base_url".toList, label := "URL".toList, kind := .url, required := true, help := [], default := []
      itemFields := [] }]⟩

def baseUrl (url : Text) : Values := (∅ : Values).insert "base_url".toList url

/-- An address with a port and a path is permitted. -/
theorem plain_url_permitted :
    (httpUrlAllowed parseUrl (derivedAllowlist baseUrlSchema (baseUrl "http://192.168.1.91:80/core".toList))
      "http://192.168.1.91:80/core".toList).isOk = true := by
  refine (url_permitted_iff { parse := fun _ => none, errorAt := fun _ => (1, 0) } standard_parseUrl baseUrlSchema
    (baseUrl "http://192.168.1.91:80/core".toList) _ (by decide) List.mem_cons_self rfl rfl rfl rfl).mpr ?_
  exact ⟨_, List.mem_cons_self, _, rfl, by decide, by decide, by decide, by decide, ":80/core".toList, by decide,
    fun _ hc => Or.inr (Option.some.inj hc).symm⟩

/-- A host in upper case is accepted, and refused by the derived allowlist. -/
theorem upper_case_refused :
    validate { parse := fun _ => none, errorAt := fun _ => (1, 0) } (some baseUrlSchema)
      (baseUrl "http://Jeedom.local/".toList) = .ok () ∧
    parseUrl "http://Jeedom.local/".toList = .ok ⟨"http".toList, some "jeedom.local".toList⟩ ∧
    httpUrlAllowed parseUrl (derivedAllowlist baseUrlSchema (baseUrl "http://Jeedom.local/".toList))
      "http://Jeedom.local/".toList = .error (.httpHostNotAllowed "jeedom.local".toList) := by
  refine ⟨?_, ?_, ?_⟩
  · rfl
  · rfl
  · rfl

end AthenaVoice.Admin
