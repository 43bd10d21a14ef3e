import AthenaVoice.Lib.Decimal
import AthenaVoice.Lib.Incremental
import AthenaVoice.Server.Vad

/-
  The audio socket's framing — `athena-voice-server/src/socket.rs`

  A frame is a header, an operation, a length of 16 bits and a payload. The
  length is written as `payload.len() as u16`, so that of a longer payload is
  written modulo 2^16, and the frame that then follows is no frame.

  What is proved:
    1. `decode_frame` — what is read from a frame, whatever its payload.
    2. `reads_frame` — a frame whose length fits is read back, and not before it
       is complete.
    3. `lawful_iff` — the items for which the codec keeps its law.
    4. `long_payload_lost` — a payload of 2^16 bytes.

  Correspondence (Rust ↔ Lean):
    `Op`, `Op::try_from`                    `Op`, `Op.tryFrom`
    `SocketCodec::decode`, `encode`         `decode`, `encode`
    `msg_to_frame`                          `msgToFrame`
    `Framed` over the codec                 `codec.feed`
-/

namespace AthenaVoice.Server

open Lib

def HEADER : UInt8 := 0xAE

inductive Op where
  | audio
  | transcript
  deriving DecidableEq, Repr

/-- `op as u8`. -/
def Op.code : Op → UInt8
  | .audio => 0x01
  | .transcript => 0x02

def Op.tryFrom (value : UInt8) : Except Text Op :=
  if value = 0x01 then .ok .audio
  else if value = 0x02 then .ok .transcript
  else .error ("Invalid operation code: ".toList ++ display value.toNat)

abbrev Item := Op × Bytes

/-- `u16::from_be_bytes`. -/
def u16OfBytes (hi lo : UInt8) : Nat := 2 ^ 8 * hi.toNat + lo.toNat

/-- `put_u16`, of `n as u16`. -/
def u16Bytes (n : Nat) : Bytes := [UInt8.ofNat (n % 2 ^ 16 / 2 ^ 8), UInt8.ofNat (n % 2 ^ 16 % 2 ^ 8)]

/-- `SocketCodec::decode`: the result, and the buffer afterwards. -/
def decode (src : Bytes) : Except Text (Option Item) × Bytes :=
  match src with
  | header :: code :: hi :: lo :: body =>
    if header ≠ HEADER then (.error ("Invalid header: ".toList ++ display header.toNat), src)
    else
      match Op.tryFrom code with
      | .error e => (.error e, src)
      | .ok op =>
        if src.length < 4 + u16OfBytes hi lo then (.ok none, src)
        else (.ok (some (op, body.take (u16OfBytes hi lo))), body.drop (u16OfBytes hi lo))
  | _ => (.ok none, src)

def encode (item : Item) (dst : Bytes) : Except Text Bytes :=
  .ok (dst ++ [HEADER, item.1.code] ++ u16Bytes item.2.length ++ item.2)

def msgToFrame (msg : Item) : Except Text Bytes :=
  .ok ([HEADER] ++ [msg.1.code] ++ u16Bytes msg.2.length ++ msg.2)

theorem decode_shrinks (src : Bytes) (item : Item) (h : (decode src).1 = .ok (some item)) :
    (decode src).2.length < src.length := by
  match src, h with
  | [], h | [_], h | [_, _], h | [_, _, _], h => cases h
  | header :: code :: hi :: lo :: body, h =>
    simp only [decode] at h ⊢
    by_cases hheader : header ≠ HEADER
    · rw [if_pos hheader] at h
      cases h
    · rw [if_neg hheader] at h ⊢
      generalize Op.tryFrom code = op at h ⊢
      cases op with
      | error e => cases h
      | ok op =>
        dsimp only at h ⊢
        split at h
        · cases h
        · rename_i hroom
          rw [if_neg hroom]
          simp only [List.length_drop, List.length_cons]
          omega

/-- The codec under a framed transport. -/
def codec : Decoder UInt8 Item Text := ⟨decode, decode_shrinks⟩

/-! ## One frame -/

def frameOf (item : Item) : Bytes := HEADER :: item.1.code :: (u16Bytes item.2.length ++ item.2)

theorem encode_eq (item : Item) (dst : Bytes) : encode item dst = .ok (dst ++ frameOf item) := by
  simp [encode, frameOf]

/-- **The two paths agree.** -/
theorem msgToFrame_eq (item : Item) : msgToFrame item = .ok (frameOf item) := by
  simp [msgToFrame, frameOf]

theorem tryFrom_code (op : Op) : Op.tryFrom op.code = .ok op := by
  cases op <;> rfl

theorem u16OfBytes_eq (n : Nat) :
    u16OfBytes (UInt8.ofNat (n % 2 ^ 16 / 2 ^ 8)) (UInt8.ofNat (n % 2 ^ 16 % 2 ^ 8)) = n % 2 ^ 16 := by
  rw [u16OfBytes, UInt8.toNat_ofNat', UInt8.toNat_ofNat']
  omega

/-- **What is read from a frame**: as much as its length says. -/
theorem decode_frame (item : Item) (rest : Bytes) : decode (frameOf item ++ rest) =
    (.ok (some (item.1, (item.2 ++ rest).take (item.2.length % 2 ^ 16))),
      (item.2 ++ rest).drop (item.2.length % 2 ^ 16)) := by
  have hroom : ¬ (frameOf item ++ rest).length < 4 + item.2.length % 2 ^ 16 := by
    simp only [frameOf, u16Bytes, List.length_append, List.length_cons, List.length_nil]
    omega
  rw [frameOf, u16Bytes] at hroom ⊢
  simp only [List.cons_append, List.nil_append] at hroom ⊢
  simp only [decode, ne_eq, not_true_eq_false, if_false, tryFrom_code, u16OfBytes_eq, if_neg hroom]

/-- The payload's length fits its field. -/
def Fits (item : Item) : Prop := item.2.length < 2 ^ 16

/-- **A frame that fits is read back**, and nothing is consumed before it is complete. -/
theorem reads_frame {item : Item} (h : Fits item) : codec.Reads frameOf item := by
  have hmod : item.2.length % 2 ^ 16 = item.2.length := Nat.mod_eq_of_lt h
  refine ⟨?_, ?_⟩
  · intro rest
    have hdecode := decode_frame item rest
    rwa [hmod, List.take_left, List.drop_left] at hdecode
  · intro start hstart hne
    match start, hstart, hne with
    | [], _, _ | [_], _, _ | [_, _], _, _ | [_, _, _], _, _ => rfl
    | header :: code :: hi :: lo :: body, hstart, hne =>
      simp only [frameOf, u16Bytes, List.cons_append, List.nil_append, List.cons_prefix_cons] at hstart
      obtain ⟨rfl, rfl, rfl, rfl, hbody⟩ := hstart
      -- a proper start of the frame lacks some of the payload
      have hshort : body.length < item.2.length := by
        refine Nat.lt_of_le_of_ne hbody.length_le (fun heq => hne ?_)
        rw [hbody.eq_of_length heq]
        rfl
      have hroom : (HEADER :: item.1.code :: UInt8.ofNat (item.2.length % 2 ^ 16 / 2 ^ 8) ::
          UInt8.ofNat (item.2.length % 2 ^ 16 % 2 ^ 8) :: body).length < 4 + item.2.length % 2 ^ 16 := by
        simp only [List.length_cons]
        omega
      simp only [codec, decode, ne_eq, not_true_eq_false, if_false, tryFrom_code, u16OfBytes_eq, if_pos hroom]

/-! ## Sequences of items -/

/-- A sequence of items, encoded into one buffer. -/
def encodeAll (items : List Item) (dst : Bytes) : Except Text Bytes :=
  items.foldlM (fun dst item => encode item dst) dst

theorem encodeAll_eq (items : List Item) (dst : Bytes) : encodeAll items dst = .ok (dst ++ items.flatMap frameOf) := by
  induction items generalizing dst with
  | nil => rw [List.flatMap_nil, List.append_nil]; rfl
  | cons item items ih =>
    rw [List.flatMap_cons, ← List.append_assoc, ← ih, encodeAll, List.foldlM_cons, encode_eq]
    rfl

/-- What the codec is to do with a sequence of items. -/
structure Lawful (items : List Item) : Prop where
  /-- However the encoded bytes are cut, they are read back, and all of them. -/
  roundTrip : ∃ bytes, encodeAll items [] = .ok bytes ∧
    ∀ chunks : List Bytes, chunks.flatten = bytes → codec.feed [] chunks = (items, none, [])
  /-- Decoding undoes encoding. -/
  undone : ∀ item ∈ items, ∃ bytes, encode item [] = .ok bytes ∧
    ∀ rest, decode (bytes ++ rest) = (.ok (some item), rest)
  /-- An incomplete frame consumes nothing. -/
  waits : ∀ item ∈ items, ∀ bytes, encode item [] = .ok bytes → ∀ start, start <+: bytes →
    start ≠ bytes →
    decode start = (.ok none, start)
  /-- Both paths write the same. -/
  agrees : ∀ item ∈ items, msgToFrame item = encode item []

theorem fits_of_drain : ∀ items : List Item, codec.drain (items.flatMap frameOf) = (items, none, []) →
    ∀ item ∈ items, Fits item := by
  intro items
  induction items with
  | nil => intro _ item hitem; cases hitem
  | cons item items ih =>
    intro hdrain
    have hdecode := decode_frame item (items.flatMap frameOf)
    rw [List.flatMap_cons, Decoder.drain_some hdecode, Prod.mk.injEq, List.cons.injEq] at hdrain
    obtain ⟨⟨hitem, hitems⟩, hrest⟩ := hdrain
    -- the payload read back is as long as the field says, so nothing was cut off
    have hpayload := congrArg (fun i : Item => i.2.length) hitem
    simp only [List.length_take, List.length_append] at hpayload
    have hle : item.2.length % 2 ^ 16 ≤ item.2.length := Nat.mod_le _ _
    have hmod : item.2.length % 2 ^ 16 = item.2.length := by omega
    have hfits : Fits item := by
      rw [Fits, ← hmod]
      exact Nat.mod_lt _ (by decide)
    rw [hmod, List.drop_left] at hitems hrest
    exact List.forall_mem_cons.mpr ⟨hfits, ih (Prod.ext hitems hrest)⟩

theorem drain_of_feed {buf : Bytes} {items : List Item} (h : codec.feed [] [buf] = (items, none, [])) :
    codec.drain buf = (items, none, []) := by
  simp only [Decoder.feed, List.nil_append] at h
  split at h
  · cases h
  · rename_i xs rest hdrain
    rw [hdrain]
    simpa using h

/-- **The codec's law**: it holds of a sequence of items exactly if every payload
is shorter than 2^16. -/
theorem lawful_iff (items : List Item) : Lawful items ↔ ∀ item ∈ items, item.2.length < 2 ^ 16 := by
  refine ⟨?_, ?_⟩
  · intro h
    obtain ⟨bytes, hbytes, hfeed⟩ := h.roundTrip
    rw [encodeAll_eq, Except.ok.injEq, List.nil_append] at hbytes
    exact fits_of_drain items (drain_of_feed (hfeed [items.flatMap frameOf] (by simpa using hbytes)))
  · intro hfits
    have hreads : ∀ item ∈ items, codec.Reads frameOf item := fun item hitem => reads_frame (hfits item hitem)
    refine ⟨⟨items.flatMap frameOf, encodeAll_eq items [], ?_⟩, ?_, ?_, ?_⟩
    · intro chunks hchunks
      exact Decoder.feed_of_reads rfl chunks items [] hreads hchunks rfl
    · intro item hitem
      exact ⟨frameOf item, encode_eq item [], (hreads item hitem).whole⟩
    · intro item hitem bytes hbytes
      rw [encode_eq, Except.ok.injEq, List.nil_append] at hbytes
      exact hbytes ▸ (hreads item hitem).part
    · intro item _
      rw [msgToFrame_eq, encode_eq]
      rfl

theorem decode_long (op : Op) {payload : Bytes} (h : payload.length = 2 ^ 16) :
    decode (frameOf (op, payload)) = (.ok (some (op, [])), payload) := by
  have hdecode := decode_frame (op, payload) []
  rw [List.append_nil, List.append_nil, h, Nat.mod_self] at hdecode
  exact hdecode

/-- Such a payload is lost, and the law with it. -/
theorem long_payload_lost : (∃ bytes, encode (.audio, List.replicate (2 ^ 16) 0) [] = .ok bytes ∧
    decode bytes = (.ok (some (.audio, [])), List.replicate (2 ^ 16) 0)) ∧
      ¬ Lawful [(.audio, List.replicate (2 ^ 16) 0)] := by
  have hdecode : decode (frameOf (.audio, List.replicate (2 ^ 16) 0)) = _ := decode_long .audio List.length_replicate
  refine ⟨⟨_, encode_eq _ [], hdecode⟩, ?_⟩
  intro h
  obtain ⟨bytes, hbytes, hundone⟩ := h.undone _ (List.mem_singleton_self _)
  rw [encode_eq, Except.ok.injEq, List.nil_append] at hbytes
  have hwhole := hundone []
  rw [List.append_nil, ← hbytes, hdecode, Prod.mk.injEq] at hwhole
  have hlength := congrArg List.length hwhole.2
  rw [List.length_replicate, List.length_nil] at hlength
  exact Nat.ne_of_gt (Nat.two_pow_pos 16) hlength

end AthenaVoice.Server
