import InferenceGateway.Lib.Numerals
import InferenceGateway.Lib.Panics
import InferenceGateway.Parsers.Json
/-!
# The vLLM gRPC parser

`vllmgrpc.go`. A frame is a flag, four bytes of length and the message. The length
comes from the peer, and the bound that is checked is computed in 32 bits: an
announced length within five of 2³² wraps around.

`proto.Unmarshal` is a parameter. A bound of a slice may go up to the capacity; the
ones here never pass the length.
-/

namespace InferenceGateway.Parsers.VllmGrpc

open Lib List

def gRPCPayloadHeaderLen : UInt32 := 5

/-! ## Frames -/

variable (data : List UInt8)

/-- The message, and whether it is compressed. -/
def parseGrpcPayload : Except Panic (Except String (List UInt8 × Bool)) :=
  let len := data.length
  let headerLen := gRPCPayloadHeaderLen
  if len < gRPCPayloadHeaderLen.toNat then
    .ok (.error s!"invalid gRPC frame: expected at least {headerLen} bytes for header, got {len}")
  else do
    let isCompressed := (← index data 0) == 1
    let msgLen := UInt32.ofNat (beNat (← slice data 1 5))
    let available := UInt32.ofNat len - gRPCPayloadHeaderLen
    if UInt32.ofNat len < gRPCPayloadHeaderLen + msgLen then
      .ok (.error s!"incomplete gRPC payload: header indicates {msgLen} bytes, but only {available} bytes are available")
    else
      let payload ← slice data gRPCPayloadHeaderLen.toNat (gRPCPayloadHeaderLen + msgLen).toNat
      .ok (.ok (payload, isCompressed))

/-- The length in the header. -/
def announced : Nat := beNat ((data.drop 1).take 4)

/-- The header and all that it announces. -/
def Complete : Prop := 5 ≤ data.length ∧ 5 + announced data ≤ data.length

/-- An answer as it should be: a message exactly where the frame is complete, and then
the bytes that are announced. -/
def Right (res : Except Panic (Except String (List UInt8 × Bool))) : Prop :=
  ∃ r, res = .ok r ∧ ((∃ p, r = .ok p) ↔ Complete data) ∧
    ∀ msg compressed, r = .ok (msg, compressed) → msg = (data.drop 5).take (announced data)

/-- Where the 32-bit comparison comes out as it should and no bound wraps around. -/
def Sound : Prop :=
  data.length < 5 ∨
    (data.length % 2 ^ 32 < (5 + announced data) % 2 ^ 32 ∧ data.length < 5 + announced data) ∨
    ((5 + announced data) % 2 ^ 32 ≤ data.length % 2 ^ 32 ∧ 5 + announced data < 2 ^ 32)

instance : Decidable (Sound data) := by unfold Sound; infer_instance

/-- An announced length that is too large for the comparison, and passes it. -/
def Wraps : Prop :=
  5 ≤ data.length ∧ 2 ^ 32 ≤ 5 + announced data ∧ (5 + announced data) % 2 ^ 32 ≤ data.length % 2 ^ 32

theorem announced_lt : announced data < 2 ^ 32 := by
  refine (beNat_lt _).trans_le ?_
  calc 256 ^ ((data.drop 1).take 4).length ≤ 256 ^ 4 := Nat.pow_le_pow_right (by decide) (length_take_le _ _)
    _ = 2 ^ 32 := by decide

variable {data : List UInt8}

/-- How the parser ends on a whole header. -/
theorem parseGrpcPayload_cases (h : 5 ≤ data.length) :
    (data.length % 2 ^ 32 < (5 + announced data) % 2 ^ 32 ∧ ∃ e, parseGrpcPayload data = .ok (.error e)) ∨
      ((5 + announced data) % 2 ^ 32 ≤ data.length % 2 ^ 32 ∧
        parseGrpcPayload data = if 2 ^ 32 ≤ 5 + announced data then .error .sliceBounds
          else .ok (.ok ((data.drop 5).take (announced data), data[0]? == some 1))) := by
  have hlt := announced_lt data
  obtain ⟨b, hb⟩ : ∃ b, data[0]? = some b := ⟨_, List.getElem?_eq_getElem (by omega)⟩
  have hslice : slice data 1 5 = .ok ((data.drop 1).take 4) := slice_ok (by decide) h
  have hsum : (gRPCPayloadHeaderLen + UInt32.ofNat (announced data)).toNat = (5 + announced data) % 2 ^ 32 := by
    rw [UInt32.toNat_add, UInt32.toNat_ofNat', Nat.add_mod_mod]
    rfl
  have hless : UInt32.ofNat data.length < gRPCPayloadHeaderLen + UInt32.ofNat (announced data) ↔
      data.length % 2 ^ 32 < (5 + announced data) % 2 ^ 32 := by
    rw [UInt32.lt_iff_toNat_lt, hsum, UInt32.toNat_ofNat']
  have hhead : ¬ data.length < gRPCPayloadHeaderLen.toNat := Nat.not_lt.2 h
  have hann : beNat ((data.drop 1).take 4) = announced data := rfl
  simp only [parseGrpcPayload, if_neg hhead, index_ok hb, hslice, ok_bind, hann]
  by_cases hcmp : data.length % 2 ^ 32 < (5 + announced data) % 2 ^ 32
  · refine .inl ⟨hcmp, ?_⟩
    rw [if_pos (hless.2 hcmp)]
    exact ⟨_, rfl⟩
  · refine .inr ⟨Nat.not_lt.1 hcmp, ?_⟩
    rw [if_neg (mt hless.1 hcmp), hsum, hb, show gRPCPayloadHeaderLen.toNat = 5 from rfl]
    have hle : data.length % 2 ^ 32 ≤ data.length := Nat.mod_le _ _
    split
    · -- the upper bound has wrapped around to less than five
      rw [slice_error (by omega)]
      rfl
    · rw [Nat.mod_eq_of_lt (by omega), slice_ok (by omega) (by omega), Nat.add_sub_cancel_left]
      rfl

theorem parseGrpcPayload_short (h : data.length < 5) : ∃ e, parseGrpcPayload data = .ok (.error e) :=
  ⟨_, if_pos h⟩

theorem right_of_error {e : String} : Right data (.ok (.error e)) ↔ ¬ Complete data := by
  constructor
  · rintro ⟨r, hr, hiff, -⟩ hc
    obtain ⟨p, rfl⟩ := hiff.2 hc
    cases hr
  · exact fun hc => ⟨_, rfl, ⟨fun ⟨p, hp⟩ => (by cases hp), fun h => (hc h).elim⟩, nofun⟩

theorem right_iff_sound (data : List UInt8) : Right data (parseGrpcPayload data) ↔ Sound data := by
  by_cases h5 : data.length < 5
  · obtain ⟨e, he⟩ := parseGrpcPayload_short h5
    rw [he, right_of_error]
    exact ⟨fun _ => .inl h5, fun _ hc => absurd hc.1 (by omega)⟩
  · have h5 : 5 ≤ data.length := Nat.not_lt.1 h5
    rcases parseGrpcPayload_cases h5 with ⟨hcmp, e, he⟩ | ⟨hcmp, he⟩
    · rw [he, right_of_error, Sound, Complete]
      omega
    · rw [he]
      split
      · rename_i hwrap
        refine ⟨fun ⟨r, hr, _⟩ => (by cases hr), fun hs => ?_⟩
        unfold Sound at hs
        omega
      · rename_i hfit
        have hle : data.length % 2 ^ 32 ≤ data.length := Nat.mod_le _ _
        rw [Nat.mod_eq_of_lt (Nat.not_le.1 hfit)] at hcmp
        refine ⟨fun _ => .inr (.inr ?_), fun _ => ⟨_, rfl, ⟨fun _ => ⟨h5, by omega⟩, fun _ => ⟨_, rfl⟩⟩, ?_⟩⟩
        · rw [Nat.mod_eq_of_lt (Nat.not_le.1 hfit)]
          exact ⟨hcmp, Nat.not_le.1 hfit⟩
        · intro msg compressed hr
          cases hr
          rfl

/-! ## Round trips -/

variable (compressed : Bool)

/-- A frame as a peer makes it. -/
def frame (msg : List UInt8) : List UInt8 := (if compressed then 1 else 0) :: beBytes 4 msg.length ++ msg

variable {msg : List UInt8}

theorem announced_frame (h : msg.length < 2 ^ 32) (trailing : List UInt8) :
    announced (frame compressed msg ++ trailing) = msg.length := by
  have htake : (beBytes 4 msg.length ++ msg ++ trailing).take 4 = beBytes 4 msg.length := by
    rw [append_assoc]
    exact take_left' (length_beBytes 4 _)
  show beNat ((beBytes 4 msg.length ++ msg ++ trailing).take 4) = _
  rw [htake, beNat_beBytes 4 _ h]

theorem drop_frame (msg trailing : List UInt8) :
    (frame compressed msg ++ trailing).drop 5 = msg ++ trailing := by
  show (beBytes 4 msg.length ++ msg ++ trailing).drop 4 = _
  rw [append_assoc]
  exact drop_left' (length_beBytes 4 _)

theorem complete_frame (h : msg.length < 2 ^ 32) (trailing : List UInt8) :
    Complete (frame compressed msg ++ trailing) := by
  have hlen : (frame compressed msg ++ trailing).length = 5 + msg.length + trailing.length := by
    simp only [frame, cons_append, length_cons, length_append, length_beBytes]
    omega
  rw [Complete, announced_frame compressed h, hlen]
  omega

/-- The parser is right about a frame exactly when it gives the message back. -/
theorem right_frame_iff (h : msg.length < 2 ^ 32) (trailing : List UInt8) :
    Right (frame compressed msg ++ trailing) (parseGrpcPayload (frame compressed msg ++ trailing)) ↔
      parseGrpcPayload (frame compressed msg ++ trailing) = .ok (.ok (msg, compressed)) := by
  have hc := complete_frame compressed h trailing
  have hmsg : ((frame compressed msg ++ trailing).drop 5).take (announced (frame compressed msg ++ trailing)) = msg := by
    rw [drop_frame, announced_frame compressed h, take_left]
  have hflag : ((frame compressed msg ++ trailing)[0]? == some 1) = compressed := by cases compressed <;> rfl
  constructor
  · rintro ⟨r, hr, hiff, hbytes⟩
    obtain ⟨p, rfl⟩ := hiff.2 hc
    rcases parseGrpcPayload_cases hc.1 with ⟨-, e, he⟩ | ⟨-, he⟩
    · rw [he] at hr; cases hr
    · rw [he] at hr ⊢
      split at hr
      · cases hr
      · rw [if_neg ‹_›, hmsg, hflag]
  · intro hok
    rw [hok]
    refine ⟨_, rfl, ⟨fun _ => hc, fun _ => ⟨_, rfl⟩⟩, fun msg' compressed' hr => ?_⟩
    cases hr
    exact hmsg.symm

/-- The parser is right on a body exactly where the two 32-bit numbers are sound; and so is
what it makes of a frame with anything after it. -/
theorem parseGrpcPayload_right_iff (data msg trailing : List UInt8) (compressed : Bool) (h : msg.length < 2 ^ 32) :
    (Right data (parseGrpcPayload data) ↔ Sound data) ∧
      (parseGrpcPayload (frame compressed msg ++ trailing) = .ok (.ok (msg, compressed)) ↔
        Sound (frame compressed msg ++ trailing)) :=
  ⟨right_iff_sound data, (right_frame_iff compressed h trailing).symm.trans (right_iff_sound _)⟩

/-- A message of three bytes, and two bytes of the next frame. -/
theorem parseGrpcPayload_three_bytes : Right [0, 0, 0, 0, 3, 7, 8, 9, 0, 0] (parseGrpcPayload [0, 0, 0, 0, 3, 7, 8, 9, 0, 0]) ∧
    parseGrpcPayload (frame false [7, 8, 9] ++ [0, 0]) = .ok (.ok ([7, 8, 9], false)) :=
  have h := parseGrpcPayload_right_iff [0, 0, 0, 0, 3, 7, 8, 9, 0, 0] [7, 8, 9] [0, 0] false (by decide)
  ⟨h.1.2 (by decide +kernel), h.2.2 (by decide +kernel)⟩

/-- A body of five bytes that announces 2³² - 1: the end of the slice is before its start. -/
theorem parseGrpcPayload_wraps : parseGrpcPayload [0, 255, 255, 255, 255] = .error .sliceBounds := by decide +kernel

/-! ## Decoders -/

/-- The message in a body. -/
def toMessage {M : Type} (unmarshal : List UInt8 → Except String M) (payload : List UInt8) : Except Panic (Except String M) :=
  (parseGrpcPayload payload).map fun
    | .error _ => .error "not able to parse payload"
    | .ok (_, true) => .error "compressed vllmgrpc payload is not supported"
    | .ok (parsedPayload, false) => unmarshal parsedPayload

structure TokenizedInput where
  originalText : String

inductive Input where
  | text (s : String)
  | tokenized (t : TokenizedInput)

structure GenerateRequest where
  input : Option Input
  stream : Bool

structure EmbedRequest where
  tokenized : Option TokenizedInput

structure TokenCounts where
  promptTokens : UInt32
  completionTokens : UInt32
  cachedTokens : UInt32

inductive Response where
  | chunk (tokens : TokenCounts)
  | complete (tokens : TokenCounts)

structure GenerateResponse where
  response : Option Response

structure EmbedResponse where
  embedding : List UInt32
  promptTokens : UInt32

/-- `proto.Unmarshal` at the four messages; a float is its bits. -/
structure Unmarshal where
  generateRequest : List UInt8 → Except String GenerateRequest
  embedRequest : List UInt8 → Except String EmbedRequest
  generateResponse : List UInt8 → Except String GenerateResponse
  embedResponse : List UInt8 → Except String EmbedResponse

/-- What of a request body is used. -/
inductive LLMRequestBody where
  | completions (prompt : String) (stream : Bool)
  | embeddings (input : String)

variable (proto : Unmarshal)

variable (payload : List UInt8)

def toGenerateRequest : Except Panic (Except String GenerateRequest) := toMessage proto.generateRequest payload

def toEmbedRequest : Except Panic (Except String EmbedRequest) := toMessage proto.embedRequest payload

def toGenerateResponse : Except Panic (Except String GenerateResponse) := toMessage proto.generateResponse payload

def toEmbedResponse : Except Panic (Except String EmbedResponse) := toMessage proto.embedResponse payload

def convertToLLMRequestBody : Except Panic (Except String LLMRequestBody) :=
  (toGenerateRequest proto payload).map fun r => r.bind fun pbReq =>
    match pbReq.input with
    | some (.text s) => .ok (.completions s pbReq.stream)
    | some (.tokenized t) => .ok (.completions t.originalText pbReq.stream)
    | none => .error "not supported request inputType"

def convertEmbedToLLMRequestBody : Except Panic (Except String LLMRequestBody) :=
  (toEmbedRequest proto payload).map fun r => r.bind fun pbReq =>
    match pbReq.tokenized with
    | some t => .ok (.embeddings t.originalText)
    | none => .error "missing tokenized input in EmbedRequest"

def vllmGeneratePath : String := "/vllm.grpc.engine.VllmEngine/Generate"

def vllmEmbedPath : String := "/vllm.grpc.engine.VllmEngine/Embed"

/-- `path` is the `:path` header. -/
def parseRequest (body : List UInt8) (path : String) : Except Panic (Except String LLMRequestBody) :=
  if path = vllmEmbedPath then
    (convertEmbedToLLMRequestBody proto body).map (·.mapError ("parsing gRPC payload for Embed: " ++ ·))
  else if path = vllmGeneratePath then
    (convertToLLMRequestBody proto body).map (·.mapError ("parsing gRPC payload for Generate: " ++ ·))
  else .ok (.error s!"unsupported gRPC path: {path}")

def requestControlUsage (promptToken completionToken cachedToken : Int64) : Usage where
  promptTokens := promptToken
  completionTokens := completionToken
  totalTokens := promptToken + completionToken
  promptTokenDetails := some ⟨cachedToken⟩

/-- The usage of a chunk or a complete response, if it has any tokens. -/
def TokenCounts.usage (t : TokenCounts) : Option Usage :=
  let promptToken := t.promptTokens.toUInt64.toInt64
  let completionToken := t.completionTokens.toUInt64.toInt64
  if promptToken > 0 ∨ completionToken > 0 then
    some (requestControlUsage promptToken completionToken t.cachedTokens.toUInt64.toInt64)
  else none

/-- The second attempt; `err` is how the first one failed. -/
def parseEmbedResponse (body : List UInt8) (err : Option String) : Except Panic (Except String ParsedResponse) :=
  (toEmbedResponse proto body).map fun
    | .ok embedResp =>
      if embedResp.embedding.length > 0 ∨ embedResp.promptTokens > 0 then
        let tokens := embedResp.promptTokens.toUInt64.toInt64
        .ok ⟨if embedResp.promptTokens > 0 then some ⟨tokens, 0, tokens, none⟩ else none⟩
      else .error (failure err)
    | .error _ => .error (failure err)
where
  failure (err : Option String) : String :=
    "failed to parse gRPC response payload as GenerateResponse or EmbedResponse: " ++ err.getD "%!w(<nil>)"

def parseResponse (body : List UInt8) : Except Panic (Except String ParsedResponse) := do
  match ← toGenerateResponse proto body with
  | .error err => parseEmbedResponse proto body (some err)
  | .ok ⟨none⟩ => parseEmbedResponse proto body none
  | .ok ⟨some (.chunk t)⟩ => .ok (.ok ⟨t.usage⟩)
  | .ok ⟨some (.complete t)⟩ => .ok (.ok ⟨t.usage⟩)

theorem parseGrpcPayload_returns_iff (data : List UInt8) : Returns (parseGrpcPayload data) ↔ ¬ Wraps data := by
  by_cases h5 : data.length < 5
  · obtain ⟨e, he⟩ := parseGrpcPayload_short h5
    rw [he]
    exact iff_of_true (returns_ok _) fun hw => absurd hw.1 (by omega)
  · rcases parseGrpcPayload_cases (Nat.not_lt.1 h5) with ⟨hcmp, e, he⟩ | ⟨hcmp, he⟩
    · rw [he]
      exact iff_of_true (returns_ok _) fun hw => absurd hw.2.2 (Nat.not_le.2 hcmp)
    · rw [he]
      split
      · exact iff_of_false (not_returns_error _) (not_not.2 ⟨by omega, ‹_›, hcmp⟩)
      · exact iff_of_true (returns_ok _) fun hw => absurd hw.2.1 ‹_›

/-- Whatever `proto.Unmarshal` makes of the messages, the parser panics exactly on the bodies whose length wraps around,
on a request only if it is for one of the two paths. -/
theorem parsers_return_iff (data : List UInt8) (path : String) :
    (Returns (parseRequest proto data path) ↔ (path = vllmEmbedPath ∨ path = vllmGeneratePath → ¬ Wraps data)) ∧
    (Returns (parseResponse proto data) ↔ ¬ Wraps data) := by
  have hdecode : ∀ {M : Type} (unmarshal : List UInt8 → Except String M), Returns (toMessage unmarshal data) ↔ ¬ Wraps data :=
    fun _ => returns_map.trans (parseGrpcPayload_returns_iff data)
  constructor
  · unfold parseRequest
    split_ifs with hembed hgenerate
    · rw [returns_map, convertEmbedToLLMRequestBody, returns_map, toEmbedRequest, hdecode]
      simp [hembed]
    · rw [returns_map, convertToLLMRequestBody, returns_map, toGenerateRequest, hdecode]
      simp [hgenerate]
    · simp [hembed, hgenerate]
  · rw [parseResponse, toGenerateResponse, returns_bind]
    constructor
    · rintro ⟨r, hr, -⟩
      exact (hdecode _).1 ⟨r, hr⟩
    · intro hw
      have hembed : ∀ err, Returns (parseEmbedResponse proto data err) := fun err => returns_map.2 ((hdecode _).2 hw)
      obtain ⟨r, hr⟩ := (hdecode proto.generateResponse).2 hw
      refine ⟨r, hr, ?_⟩
      split
      · exact hembed _
      · exact hembed _
      · exact ⟨_, rfl⟩
      · exact ⟨_, rfl⟩

end InferenceGateway.Parsers.VllmGrpc
