import AthenaVoice.Core.Json
import AthenaVoice.Core.Serde
import AthenaVoice.Lib.Lines
import AthenaVoice.Lib.Utf8

/-
  Token streams of the language models — `remote/openai.rs`, `remote/ollama.rs`

  Both read a streamed response line by line: server-sent events that `[DONE]`
  ends, and JSON objects one a line, the last of which says so. The bytes come
  in chunks cut anywhere, and may end with an error of the transport, which is
  handed on. A line that cannot be read is skipped. The JSON parsers are
  parameters.

  What is proved:
    1. `sseLine_ends`, `ndjsonLine_ends` — which lines end a stream.
    2. `chunk_independence` — the tokens depend on the body alone, and what comes
       after the line that ends it is not read.
    3. `no_token_lost_iff` — of a body that no line ends, all tokens are given
       exactly when none is on a last line that no newline closes.

  Correspondence (Rust ↔ Lean):
    `delta_content`        `deltaContent`
    `decode_sse_tokens`    `decodeSseTokens`; the body of its inner loop `sseLine`
    `decode_ndjson_tokens` `decodeNdjsonTokens`; the body of its inner loop `ndjsonLine`
    `ChatChunk`            `ChatChunk`, read by `ChatChunk.read`
-/

namespace AthenaVoice.Providers

open Lib Serde

abbrev Bytes := List UInt8

/-- `serde_json::from_str` into a value, and `from_slice` into a document. -/
structure JsonParser where
  fromStr : Text → Option Json
  fromSlice : Bytes → Option Doc

/-- `b == b'\n'`. -/
def isNewline (b : UInt8) : Bool := b == 10

/-- `Value::get` at an index. -/
def getIndex (i : Nat) : Json → Option Json
  | .array items => items[i]?
  | _ => none

def deltaContent (json : JsonParser) (data : Text) : Option Text := do
  let v ← json.fromStr data
  let choices ← v.get "choices".toList
  let choice ← getIndex 0 choices
  let delta ← choice.get "delta".toList
  let content ← delta.get "content".toList
  let content ← content.asStr
  if content.isEmpty then none else some content

/-- One line of an event stream: its token, and whether it ends the stream. -/
def sseLine (json : JsonParser) (line : Bytes) : List Text × Bool :=
  match Str.stripPrefix "data:".toList (Str.trim (fromUtf8Lossy line)) with
  | none => ([], false)
  | some data =>
    if Str.trim data = "[DONE]".toList then ([], true)
    else
      match deltaContent json (Str.trim data) with
      | some token => ([token], false)
      | none => ([], false)

structure ChatChunkMessage where
  content : Text
  deriving DecidableEq

structure ChatChunk where
  message : ChatChunkMessage
  done : Bool
  deriving DecidableEq

/-- Its derived `Deserialize`. -/
def ChatChunkMessage.read (d : Doc) : Option ChatChunkMessage :=
  if isStruct 1 d then do
    let content ← field d 0 "content".toList Doc.asString (some [])
    some { content := content }
  else none

/-- Its derived `Deserialize`. -/
def ChatChunk.read (d : Doc) : Option ChatChunk :=
  if isStruct 2 d then do
    let message ← field d 0 "message".toList ChatChunkMessage.read none
    let done ← field d 1 "done".toList Doc.asBool (some false)
    some { message := message, done := done }
  else none

/-- One line of JSON: its token, and whether it ends the stream. -/
def ndjsonLine (json : JsonParser) (line : Bytes) : List Text × Bool :=
  if line.isEmpty then ([], false)
  else
    match (json.fromSlice line).bind ChatChunk.read with
    | some parsed => (if parsed.message.content.isEmpty then [] else [parsed.message.content], parsed.done)
    | none => ([], false)

section Decoders

universe u

variable {ε : Type u} (json : JsonParser)

def decodeSseTokens (stream : List (Except ε Bytes)) : List (Except ε Text) :=
  Lines.decode isNewline (sseLine json) stream

def decodeNdjsonTokens (stream : List (Except ε Bytes)) : List (Except ε Text) :=
  Lines.decode isNewline (ndjsonLine json) stream

end Decoders

/-! ## The lines that end a stream -/

/-- `data: [DONE]`. -/
def IsDone (line : Bytes) : Prop :=
  ∃ data, Str.stripPrefix "data:".toList (Str.trim (fromUtf8Lossy line)) = some data ∧
    Str.trim data = "[DONE]".toList

/-- An object with `"done": true`. -/
def SaysDone (json : JsonParser) (line : Bytes) : Prop :=
  line ≠ [] ∧ ∃ parsed, (json.fromSlice line).bind ChatChunk.read = some parsed ∧ parsed.done = true

theorem sseLine_ends (json : JsonParser) (line : Bytes) : (sseLine json line).2 = true ↔ IsDone line := by
  unfold sseLine IsDone
  cases hdata : Str.stripPrefix "data:".toList (Str.trim (fromUtf8Lossy line)) with
  | none =>
    constructor
    · intro h
      cases h
    · rintro ⟨data, h, -⟩
      cases h
  | some data =>
    by_cases hdone : Str.trim data = "[DONE]".toList
    · simp only [hdone, if_true]
      exact ⟨fun _ => ⟨data, rfl, hdone⟩, fun _ => trivial⟩
    · simp only [hdone, if_false]
      constructor
      · intro h
        split at h <;> cases h
      · rintro ⟨data', h, hd⟩
        cases h
        exact absurd hd hdone

theorem ndjsonLine_ends (json : JsonParser) (line : Bytes) :
    (ndjsonLine json line).2 = true ↔ SaysDone json line := by
  unfold ndjsonLine SaysDone
  cases line with
  | nil => exact ⟨fun h => (by cases h), fun h => absurd rfl h.1⟩
  | cons b line =>
    cases hparsed : (json.fromSlice (b :: line)).bind ChatChunk.read with
    | none => exact ⟨fun h => (by cases h), fun h => (by obtain ⟨-, parsed, h, -⟩ := h; cases h)⟩
    | some parsed =>
      constructor
      · intro h
        exact ⟨List.cons_ne_nil b line, parsed, rfl, h⟩
      · rintro ⟨-, parsed', h, hdone⟩
        cases h
        exact hdone

/-! ## Chunks -/

/-- A decoder gives the same items however a body is cut, whatever follows it; and
once a line of the body has ended the stream, nothing more. -/
def ChunkIndependent (ends : Bytes → Prop)
    (decode : List (Except String Bytes) → List (Except String Text)) : Prop :=
  (∀ (chunks chunks' : List Bytes) (rest : List (Except String Bytes)), chunks.flatten = chunks'.flatten →
    decode (chunks.map .ok ++ rest) = decode (chunks'.map .ok ++ rest)) ∧
  ∀ (chunks : List Bytes) (body more : Bytes) (rest : List (Except String Bytes)), chunks.flatten = body ++ more →
    (∃ line ∈ Framing.closed isNewline body, ends line) → decode (chunks.map .ok ++ rest) = decode [.ok body]

theorem chunkIndependent_of_read {ends : Bytes → Prop} {read : Bytes → List Text × Bool}
    (hends : ∀ line, (read line).2 = true ↔ ends line) : ChunkIndependent ends (Lines.decode isNewline read) := by
  constructor
  · intro chunks chunks' rest hbody
    rw [Lines.decode_eq, Lines.decode_eq, hbody]
  · intro chunks body more rest hbody hended
    obtain ⟨line, hline, hlast⟩ := hended
    have hstop : (Lines.emit read (Framing.closed isNewline body)).2 = true :=
      Lines.emit_stops.mpr ⟨line, hline, (hends line).mpr hlast⟩
    have hsingle := @Lines.decode_eq _ _ _ isNewline read [body] ([] : List (Except String Bytes))
    rw [List.flatten_singleton, hstop, if_pos rfl] at hsingle
    rw [Lines.decode_eq, hbody, (Framing.append_spec isNewline body more).1, Lines.emit_append, if_pos hstop, hstop,
      if_pos rfl]
    exact hsingle.symm

/-- **Chunk independence.** -/
theorem chunk_independence (json : JsonParser) :
    ChunkIndependent IsDone (decodeSseTokens json) ∧ ChunkIndependent (SaysDone json) (decodeNdjsonTokens json) :=
  ⟨chunkIndependent_of_read (sseLine_ends json), chunkIndependent_of_read (ndjsonLine_ends json)⟩

/-! ## The end of the stream -/

/-- The lines of a body, the last one whether or not a newline closes it. -/
def linesOf (body : Bytes) : List Bytes := body.splitOnP isNewline

def allTokens (read : Bytes → List Text × Bool) (body : Bytes) : List Text :=
  (linesOf body).flatMap (fun line => (read line).1)

theorem decode_eq_all_iff {read : Bytes → List Text × Bool} {chunks : List Bytes}
    (hopen : ∀ line ∈ linesOf chunks.flatten, (read line).2 = false) :
    Lines.decode isNewline read (chunks.map .ok) =
      (allTokens read chunks.flatten).map (.ok : Text → Except String Text) ↔
      (read (Framing.remaining isNewline chunks.flatten)).1 = [] := by
  have hlines : linesOf chunks.flatten =
      Framing.closed isNewline chunks.flatten ++ [Framing.remaining isNewline chunks.flatten] :=
    (Framing.closed_append_remaining isNewline chunks.flatten).symm
  have hclosed : ∀ line ∈ Framing.closed isNewline chunks.flatten, (read line).2 = false := by
    intro line hline
    apply hopen
    rw [hlines]
    exact List.mem_append_left _ hline
  have hdecode := @Lines.decode_eq _ _ _ isNewline read chunks ([] : List (Except String Bytes))
  rw [List.append_nil, Lines.emit_of_open hclosed] at hdecode
  rw [hdecode, allTokens, hlines, List.flatMap_append, List.map_append, List.flatMap_singleton]
  show List.map Except.ok _ ++ [] = _ ↔ _
  rw [List.append_cancel_left_eq, eq_comm, List.map_eq_nil_iff]

/-- A body that no line ends gives all its tokens. -/
def NoTokenLost (ends : Bytes → Prop) (read : Bytes → List Text × Bool)
    (decode : List (Except String Bytes) → List (Except String Text)) (chunks : List Bytes) : Prop :=
  (∀ line ∈ linesOf chunks.flatten, ¬ ends line) →
    decode (chunks.map .ok) = (allTokens read chunks.flatten).map .ok

/-- **The last line.** Of a body that no line ends, however it is cut, all tokens
are given exactly when there is none after the last newline. -/
theorem no_token_lost_iff (json : JsonParser) (chunks : List Bytes) :
    (NoTokenLost IsDone (sseLine json) (decodeSseTokens json) chunks ↔
      ((∀ line ∈ linesOf chunks.flatten, ¬ IsDone line) →
        (sseLine json (Framing.remaining isNewline chunks.flatten)).1 = [])) ∧
    (NoTokenLost (SaysDone json) (ndjsonLine json) (decodeNdjsonTokens json) chunks ↔
      ((∀ line ∈ linesOf chunks.flatten, ¬ SaysDone json line) →
        (ndjsonLine json (Framing.remaining isNewline chunks.flatten)).1 = [])) := by
  constructor
  · apply forall_congr'
    intro hnone
    apply decode_eq_all_iff
    intro line hline
    rw [Bool.eq_false_iff]
    exact fun hstop => hnone line hline ((sseLine_ends json line).mp hstop)
  · apply forall_congr'
    intro hnone
    apply decode_eq_all_iff
    intro line hline
    rw [Bool.eq_false_iff]
    exact fun hstop => hnone line hline ((ndjsonLine_ends json line).mp hstop)

/-- `{"choices":[{"delta":{"content":"ok"}}]}`, as bytes. -/
def deltaBytes : Bytes := utf8.encode "\x7b\"choices\":[\x7b\"delta\":\x7b\"content\":\"ok\"\x7d\x7d]\x7d".toList

/-- `{"message":{"content":"ok"}}`, as bytes. -/
def messageBytes : Bytes := utf8.encode "\x7b\"message\":\x7b\"content\":\"ok\"\x7d\x7d".toList

/-- A parser that knows these two texts. -/
def twoTexts : JsonParser where
  fromStr := fun t =>
    if utf8.encode t = deltaBytes then
      some (.object [("choices".toList,
        .array [.object [("delta".toList, .object [("content".toList, .string "ok".toList)])]])])
    else none
  fromSlice := fun bytes =>
    if bytes = messageBytes then some (.object [("message".toList, .object [("content".toList, .string "ok".toList)])])
    else none

/-- The token of a last line is lost, by either decoder. -/
theorem last_line_lost :
    ¬ NoTokenLost IsDone (sseLine twoTexts) (decodeSseTokens twoTexts) [utf8.encode "data: ".toList ++ deltaBytes] ∧
      ¬ NoTokenLost (SaysDone twoTexts) (ndjsonLine twoTexts) (decodeNdjsonTokens twoTexts) [messageBytes] := by
  constructor
  · intro hkept
    have hlines : ∀ line ∈ linesOf [utf8.encode "data: ".toList ++ deltaBytes].flatten,
      (sseLine twoTexts line).2 = false := by
      decide +kernel
    have hlen := congrArg List.length (hkept (fun line hline hdone =>
      Bool.noConfusion ((hlines line hline).symm.trans ((sseLine_ends twoTexts line).mpr hdone))))
    exact absurd hlen (by decide +kernel)
  · intro hkept
    have hlines : ∀ line ∈ linesOf [messageBytes].flatten, (ndjsonLine twoTexts line).2 = false := by
      decide +kernel
    have hlen := congrArg List.length (hkept (fun line hline hdone =>
      Bool.noConfusion ((hlines line hline).symm.trans ((ndjsonLine_ends twoTexts line).mpr hdone))))
    exact absurd hlen (by decide +kernel)

end AthenaVoice.Providers
