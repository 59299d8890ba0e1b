import InferenceGateway.Lib.Panics
import InferenceGateway.Parsers.Json
/-!
# The OpenAI response parser

`ParseResponse` of `openai.go`. The usage is looked up in a value of any shape, with
type assertions that are not checked. Streamed events are decoded into one struct,
line by line; the usage of a completed response is a map again. It is encoded and
decoded once more before the lookup, which gives back a decoded value as it was.
-/

namespace InferenceGateway.Parsers.OpenAI

open Lib Any

inductive JsonError where
  | invalidSyntax
  | unmarshalType
deriving DecidableEq, Repr

section Assertions
variable {F : Type}

/-- `x.(map[string]any)`. -/
def assertMap : Any F → Except Panic (List (String × Any F))
  | .map m => .ok m
  | _ => .error .typeAssertion

/-- `x.(float64)`. -/
def assertFloat : Any F → Except Panic F
  | .float x => .ok x
  | _ => .error .typeAssertion

/-- The string, or the empty one. -/
def asString : Any F → String
  | .str s => s
  | _ => ""

end Assertions

def hasPrefix (s start : String) : Bool := start.toList.isPrefixOf s.toList

variable (lib : Library)

abbrev AnyMap := List (String × Any lib.Float64)

/-! ## Usage -/

variable (usg : AnyMap lib)

/-- `if usg[key] != nil { … = int(usg[key].(float64)) }`, on a field that is zero. -/
def tokens (key : String) : Except Panic Int64 :=
  if (get usg key).isNil then .ok 0 else (assertFloat (get usg key)).map lib.toInt

/-- Either name of a field. -/
def tokensOr (key key' : String) : Except Panic Int64 :=
  if (get usg key).isNil then tokens lib usg key' else tokens lib usg key

/-- Two fields, one after the other. -/
def both (promptTokens completionTokens : Except Panic Int64) : Except Panic (Int64 × Int64) := do
  let p ← promptTokens
  let c ← completionTokens
  pure (p, c)

def extractUsageByAPIType (objectType : String) : Except Panic Usage := do
  let counts ←
    if hasPrefix objectType "response" ∨ hasPrefix objectType "conversation" then
      both (tokens lib usg "input_tokens") (tokens lib usg "output_tokens")
    else if objectType = "chat.completion" ∨ objectType = "chat.completion.chunk" ∨ objectType = "text_completion" then
      both (tokens lib usg "prompt_tokens") (tokens lib usg "completion_tokens")
    else
      both (tokensOr lib usg "input_tokens" "prompt_tokens") (tokensOr lib usg "output_tokens" "completion_tokens")
  let totalTokens ← tokens lib usg "total_tokens"
  pure ⟨counts.1, counts.2, totalTokens, none⟩

def extractDetails : Except Panic (Option PromptTokenDetails) :=
  if (get usg "prompt_token_details").isNil then .ok none
  else do
    let detailsMap ← assertMap (get usg "prompt_token_details")
    match find detailsMap "cached_tokens" with
    | none => .ok none
    | some cachedTokens => (assertFloat cachedTokens).map fun x => some ⟨lib.toInt x⟩

/-- `extractUsage` once the body is decoded. -/
def usageOf (responseBody : AnyMap lib) : Except Panic (Option Usage) :=
  if (get responseBody "usage").isNil then .ok none
  else do
    let usg ← assertMap (get responseBody "usage")
    let objectType := asString (get responseBody "object")
    let usage ← extractUsageByAPIType lib usg objectType
    let details ← extractDetails lib usg
    pure (some { usage with promptTokenDetails := details })

def extractUsage (responseBytes : List UInt8) : Except Panic (Except JsonError (Option Usage)) :=
  match lib.parse responseBytes with
  | none => .ok (.error .invalidSyntax)
  | some json =>
    match decodeMap lib none json with
    | (_, true) => .ok (.error .unmarshalType)
    | (responseBody, false) => (usageOf lib (responseBody.getD [])).map .ok

/-! ## Streams -/

structure ResponseObject where
  usage : Option (AnyMap lib)
  object : String

/-- `streamResponse`. -/
structure StreamResponse where
  usage : Option Usage
  response : ResponseObject lib
  type : String

def StreamResponse.zero : StreamResponse lib := ⟨none, ⟨none, ""⟩, ""⟩

def decodeDetails (old : PromptTokenDetails) (j : Json) : PromptTokenDetails × Bool :=
  decodeStruct lib ["cached_tokens"]
    (fun d _ v => (⟨(decodeInt lib d.cachedTokens v).1⟩, (decodeInt lib d.cachedTokens v).2)) old j

def decodeUsage (old : Usage) (j : Json) : Usage × Bool :=
  decodeStruct lib ["prompt_tokens", "completion_tokens", "total_tokens", "prompt_token_details"]
    (fun u name v =>
      if name = "prompt_tokens" then
        let r := decodeInt lib u.promptTokens v
        ({ u with promptTokens := r.1 }, r.2)
      else if name = "completion_tokens" then
        let r := decodeInt lib u.completionTokens v
        ({ u with completionTokens := r.1 }, r.2)
      else if name = "total_tokens" then
        let r := decodeInt lib u.totalTokens v
        ({ u with totalTokens := r.1 }, r.2)
      else
        let r := decodePointer (decodeDetails lib) ⟨0⟩ u.promptTokenDetails v
        ({ u with promptTokenDetails := r.1 }, r.2)) old j

def decodeResponse (old : ResponseObject lib) (j : Json) : ResponseObject lib × Bool :=
  decodeStruct lib ["usage", "object"]
    (fun o name v =>
      if name = "usage" then
        let r := decodeMap lib o.usage v
        ({ o with usage := r.1 }, r.2)
      else
        let r := decodeString o.object v
        ({ o with object := r.1 }, r.2)) old j

def decodeEvent (old : StreamResponse lib) (j : Json) : StreamResponse lib × Bool :=
  decodeStruct lib ["usage", "response", "type"]
    (fun s name v =>
      if name = "usage" then
        let r := decodePointer (decodeUsage lib) ⟨0, 0, 0, none⟩ s.usage v
        ({ s with usage := r.1 }, r.2)
      else if name = "response" then
        let r := decodeResponse lib s.response v
        ({ s with response := r.1 }, r.2)
      else
        let r := decodeString s.type v
        ({ s with type := r.1 }, r.2)) old j

/-- `"data: "`. -/
def streamingRespPrefix : List UInt8 := [100, 97, 116, 97, 58, 32]

/-- `"[DONE]"`. -/
def done : List UInt8 := [91, 68, 79, 78, 69, 93]

/-- The event on a line: its contents, where they are valid. -/
def eventOf (line : List UInt8) : Option Json :=
  if streamingRespPrefix.isPrefixOf line then
    let content := line.drop streamingRespPrefix.length
    if content = done then none else lib.parse content
  else none

/-- The loop over the lines. -/
def usageOfLines : List (List UInt8) → StreamResponse lib → Except Panic (Option Usage)
  | [], _ => .ok none
  | line :: lines, streamResponse =>
    match eventOf lib line with
    | none => usageOfLines lines streamResponse
    | some json =>
      match decodeEvent lib streamResponse json with
      | (streamResponse, true) => usageOfLines lines streamResponse
      | (streamResponse, false) =>
        match streamResponse.usage, streamResponse.response.usage with
        | some usage, _ => .ok (some usage)
        | none, none => usageOfLines lines streamResponse
        | none, some usg =>
          if streamResponse.type = "response.completed" then do
            match ← usageOf lib [("usage", .map usg), ("object", .str streamResponse.response.object)] with
            | some usage => .ok (some usage)
            | none => usageOfLines lines streamResponse
          else usageOfLines lines streamResponse

def extractUsageStreaming (responseText : List UInt8) : Except Panic (Option Usage) :=
  usageOfLines lib (responseText.splitOn 10) (.zero lib)

/-- Of the letters in these two texts only the ASCII ones have the lower case they have here. -/
def isStream (headers : List (String × String)) : Bool :=
  headers.any fun (k, v) => k.toLower = "content-type" ∧ "text/event-stream".toList <:+: v.toLower.toList

def parseStreamResponse (chunk : List UInt8) : Except Panic (Except JsonError (Option ParsedResponse)) :=
  (extractUsageStreaming lib chunk).map fun usage => .ok (some ⟨usage⟩)

/-- The response is `none` where Go returns two `nil`s. -/
def parseResponse (body : List UInt8) (headers : List (String × String)) : Except Panic (Except JsonError (Option ParsedResponse)) :=
  if body.length = 0 then .ok (.ok none)
  else if isStream headers then parseStreamResponse lib body
  else (extractUsage lib body).map fun r => r.map fun usage => some ⟨usage⟩

/-! ## Where the assertions hold -/

section Typed
variable {lib}

/-- Missing, `null` or a number. -/
def IsCount {F : Type} (x : Any F) : Prop := x = .nil ∨ ∃ n, x = .float n

/-- The name under which a field of two names is read. -/
def either (key key' : String) : String := if (get usg key).isNil then key' else key

/-- The fields that are read for this type of object. -/
def fieldsRead (objectType : String) : List String :=
  if hasPrefix objectType "response" ∨ hasPrefix objectType "conversation" then
    ["input_tokens", "output_tokens", "total_tokens"]
  else if objectType = "chat.completion" ∨ objectType = "chat.completion.chunk" ∨ objectType = "text_completion" then
    ["prompt_tokens", "completion_tokens", "total_tokens"]
  else [either usg "input_tokens" "prompt_tokens", either usg "output_tokens" "completion_tokens", "total_tokens"]

/-- The details are missing or `null`, or an object in which `cached_tokens`, if it is there, is a number. -/
def DetailsTyped : Prop :=
  get usg "prompt_token_details" = .nil ∨
    ∃ d, get usg "prompt_token_details" = .map d ∧ ∀ c, find d "cached_tokens" = some c → ∃ n, c = .float n

def UsageTyped (objectType : String) : Prop :=
  (∀ key ∈ fieldsRead usg objectType, IsCount (get usg key)) ∧ DetailsTyped usg

def BodyTyped (responseBody : AnyMap lib) : Prop :=
  get responseBody "usage" = .nil ∨
    ∃ usg, get responseBody "usage" = .map usg ∧ UsageTyped usg (asString (get responseBody "object"))

variable {F : Type}

theorem isNil_iff {x : Any F} : x.isNil = true ↔ x = .nil := by
  cases x <;> simp [isNil]

theorem assertFloat_returns {x : Any F} : Returns (assertFloat x) ↔ ∃ n, x = .float n := by
  cases x <;> simp [assertFloat]

theorem assertMap_eq {x : Any F} {m : List (String × Any F)} : assertMap x = .ok m ↔ x = .map m := by
  cases x <;> simp [assertMap]

variable {usg : AnyMap lib}

theorem tokens_returns {key : String} : Returns (tokens lib usg key) ↔ IsCount (get usg key) := by
  unfold tokens IsCount
  split
  · rename_i h
    rw [isNil_iff] at h
    exact ⟨fun _ => .inl h, fun _ => returns_ok _⟩
  · rename_i h
    rw [isNil_iff] at h
    rw [returns_map, assertFloat_returns, or_iff_right h]

theorem tokensOr_eq (usg : AnyMap lib) (key key' : String) : tokensOr lib usg key key' = tokens lib usg (either usg key key') := by
  unfold tokensOr either
  split <;> rfl

theorem extractUsageByAPIType_returns {objectType : String} :
    Returns (extractUsageByAPIType lib usg objectType) ↔ ∀ key ∈ fieldsRead usg objectType, IsCount (get usg key) := by
  have htwo : ∀ key key', Returns (do
      let counts ← both (tokens lib usg key) (tokens lib usg key')
      let total ← tokens lib usg "total_tokens"
      pure (⟨counts.1, counts.2, total, none⟩ : Usage)) ↔ ∀ k ∈ [key, key', "total_tokens"], IsCount (get usg k) := by
    intro key key'
    have hboth : Returns (both (tokens lib usg key) (tokens lib usg key')) ↔
        IsCount (get usg key) ∧ IsCount (get usg key') := by
      rw [← tokens_returns, ← tokens_returns]
      exact returns_bind_iff fun _ => returns_bind_pure
    refine (returns_bind_iff fun _ => returns_bind_pure.trans tokens_returns).trans ?_
    rw [hboth]
    simp only [List.forall_mem_cons, List.not_mem_nil, false_imp_iff, implies_true, and_true, and_assoc]
  unfold extractUsageByAPIType fieldsRead
  simp only [tokensOr_eq]
  split_ifs
  · exact htwo _ _
  · exact htwo _ _
  · exact htwo _ _

theorem extractDetails_returns : Returns (extractDetails lib usg) ↔ DetailsTyped usg := by
  unfold extractDetails DetailsTyped
  split
  · rename_i h
    rw [isNil_iff] at h
    exact ⟨fun _ => .inl h, fun _ => returns_ok _⟩
  · rename_i h
    rw [isNil_iff] at h
    rw [or_iff_right h, returns_bind]
    refine exists_congr fun d => and_congr assertMap_eq ?_
    cases find d "cached_tokens" with
    | none => exact ⟨fun _ => nofun, fun _ => returns_ok _⟩
    | some c =>
      rw [returns_map, assertFloat_returns]
      exact ⟨fun hc c' h' => by cases h'; exact hc, fun hc => hc c rfl⟩

theorem usageOf_returns {responseBody : AnyMap lib} : Returns (usageOf lib responseBody) ↔ BodyTyped responseBody := by
  unfold usageOf BodyTyped
  split
  · rename_i h
    rw [isNil_iff] at h
    exact ⟨fun _ => .inl h, fun _ => returns_ok _⟩
  · rename_i h
    rw [isNil_iff] at h
    rw [or_iff_right h, returns_bind]
    refine exists_congr fun usg => and_congr assertMap_eq ?_
    rw [UsageTyped, ← extractUsageByAPIType_returns, ← extractDetails_returns]
    exact returns_bind_iff fun _ => returns_bind_pure

/-- What the usage of a completed response comes to. -/
theorem usageOf_completed (usg : AnyMap lib) (objectType : String) :
    (Returns (usageOf lib [("usage", .map usg), ("object", .str objectType)]) ↔ UsageTyped usg objectType) ∧
      ∀ r, usageOf lib [("usage", .map usg), ("object", .str objectType)] = .ok r → r.isSome := by
  have husage : get [("usage", map usg), ("object", .str objectType)] "usage" = .map usg := rfl
  have hobject : get [("usage", map usg), ("object", .str objectType)] "object" = .str objectType := rfl
  constructor
  · rw [usageOf_returns, BodyTyped, husage, hobject]
    constructor
    · rintro (h | ⟨m, hm, ht⟩)
      · cases h
      · cases hm; exact ht
    · exact fun ht => .inr ⟨usg, rfl, ht⟩
  · intro r hr
    unfold usageOf at hr
    rw [husage, hobject] at hr
    simp only [isNil, Bool.false_eq_true, if_false, assertMap, ok_bind] at hr
    cases hu : extractUsageByAPIType lib usg (asString (.str objectType : Any lib.Float64)) with
    | error e => rw [hu] at hr; cases hr
    | ok u =>
      cases hd : extractDetails lib usg with
      | error e => rw [hu, hd] at hr; cases hr
      | ok d => rw [hu, hd] at hr; cases hr; rfl

/-- The struct after the event that ends the loop: the first one, decoded without an error,
that has a usage or completes a response that has one. -/
def deciding : List (List UInt8) → StreamResponse lib → Option (StreamResponse lib)
  | [], _ => none
  | line :: lines, streamResponse =>
    match eventOf lib line with
    | none => deciding lines streamResponse
    | some json =>
      match decodeEvent lib streamResponse json with
      | (streamResponse, true) => deciding lines streamResponse
      | (streamResponse, false) =>
        if streamResponse.usage.isSome ∨ (streamResponse.response.usage.isSome ∧ streamResponse.type = "response.completed") then
          some streamResponse
        else deciding lines streamResponse

/-- The event has a usage of its own, or that of its response is of the right types. -/
def EventTyped (event : StreamResponse lib) : Prop :=
  event.usage.isSome ∨ ∀ usg, event.response.usage = some usg → UsageTyped usg event.response.object

theorem usageOfLines_returns (lines : List (List UInt8)) : ∀ st : StreamResponse lib,
    Returns (usageOfLines lib lines st) ↔ ∀ event, deciding lines st = some event → EventTyped event := by
  induction lines with
  | nil => exact fun _ => ⟨fun _ => nofun, fun _ => returns_ok _⟩
  | cons line lines ih =>
    intro st
    unfold usageOfLines deciding
    cases eventOf lib line with
    | none => exact ih st
    | some json =>
      rcases hd : decodeEvent lib st json with ⟨st', _ | _⟩
      · simp only [hd]
        cases hu : st'.usage with
        | some u =>
          simp only [Option.isSome_some, true_or, if_true, Option.some.injEq]
          refine ⟨fun _ event he => .inl ?_, fun _ => returns_ok _⟩
          rw [← he, hu]
          rfl
        | none =>
          cases hr : st'.response.usage with
          | none => simpa using ih st'
          | some usg =>
            by_cases ht : st'.type = "response.completed"
            · obtain ⟨hret, hsome⟩ := usageOf_completed usg st'.response.object
              simp only [Option.isSome_none, Bool.false_eq_true, false_or, Option.isSome_some, true_and, ht, if_true,
                Option.some.injEq, returns_bind]
              constructor
              · rintro ⟨x, hx, -⟩ event rfl
                refine .inr fun usg' h' => ?_
                rw [hr] at h'
                cases h'
                exact hret.1 ⟨x, hx⟩
              · intro h
                rcases h st' rfl with hown | htyped
                · rw [hu] at hown; cases hown
                · obtain ⟨x, hx⟩ := hret.2 (htyped usg hr)
                  obtain ⟨u, rfl⟩ := Option.isSome_iff_exists.1 (hsome x hx)
                  exact ⟨_, hx, returns_ok _⟩
            · simpa [ht] using ih st'
      · simpa only [hd] using ih st'

/-- The condition on a response: empty; or a stream whose deciding event, if there is one,
has a usage of its own or one of the right types in its response; or a body that is no
valid JSON object, or one whose usage is of the right types. -/
def ResponseTyped (lib : Library) (body : List UInt8) (headers : List (String × String)) : Prop :=
  body = [] ∨
    (if isStream headers then ∀ event, deciding (body.splitOn 10) (.zero lib) = some event → EventTyped event
      else ∀ json m, lib.parse body = some json → decodeMap lib none json = (m, false) → BodyTyped (m.getD []))

end Typed

/-- For every body and all headers the parser returns, a response or an error, exactly
where the values it asserts a type of have that type. -/
theorem parseResponse_returns_iff (body : List UInt8) (headers : List (String × String)) :
    Returns (parseResponse lib body headers) ↔ ResponseTyped lib body headers := by
  unfold parseResponse ResponseTyped
  by_cases hb : body = []
  · subst hb
    exact ⟨fun _ => .inl rfl, fun _ => returns_ok _⟩
  · rw [if_neg (mt List.length_eq_zero_iff.1 hb), or_iff_right hb]
    split
    · rw [parseStreamResponse, returns_map]
      exact usageOfLines_returns ..
    · rw [returns_map, extractUsage]
      cases lib.parse body with
      | none => exact ⟨fun _ => nofun, fun _ => returns_ok _⟩
      | some json =>
        rcases hm : decodeMap lib none json with ⟨m, _ | _⟩
        · simp only [hm, returns_map, usageOf_returns, Option.some.injEq]
          refine ⟨fun h json' m' hj hm' => ?_, fun h => h json m rfl hm⟩
          subst hj
          rw [hm] at hm'
          cases hm'
          exact h
        · simp only [hm, returns_ok, true_iff]
          intro json' m' hj hm'
          cases hj
          rw [hm] at hm'
          cases hm'

/-- A library that reads one text, and numbers made of digits. -/
def oneText (text : String) (json : Json) : Library where
  Float64 := Nat
  parseFloat s := some (s.toList.foldl (fun n c => n * 10 + (c.toNat - '0'.toNat)) 0)
  toInt := Int64.ofNat
  parseInt s := some (Int64.ofNat (s.toList.foldl (fun n c => n * 10 + (c.toNat - '0'.toNat)) 0))
  parse bytes := if bytes = text.toUTF8.data.toList then some json else none
  foldName := String.toLower

/-- A usage that is a number, and an event whose response counts its tokens in a string. -/
theorem parseResponse_asserts :
    parseResponse (oneText "\x7b\"usage\": 5\x7d" (.obj [("usage", .num "5")])) "\x7b\"usage\": 5\x7d".toUTF8.data.toList [] =
      .error .typeAssertion ∧
    parseResponse
      (oneText "\x7b\"type\": \"response.completed\", \"response\": \x7b\"usage\": \x7b\"total_tokens\": \"1\"\x7d\x7d\x7d"
        (.obj [("type", .str "response.completed"), ("response", .obj [("usage", .obj [("total_tokens", .str "1")])])]))
      "data: \x7b\"type\": \"response.completed\", \"response\": \x7b\"usage\": \x7b\"total_tokens\": \"1\"\x7d\x7d\x7d\n".toUTF8.data.toList
      [("Content-Type", "text/event-stream; charset=utf-8")] = .error .typeAssertion := by
  decide +kernel

end InferenceGateway.Parsers.OpenAI
