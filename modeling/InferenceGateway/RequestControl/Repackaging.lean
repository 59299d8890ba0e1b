import InferenceGateway.Parsers.Encoding
import InferenceGateway.RequestControl.Director
/-!
# What becomes of a request body

`ParseRequest` of `openai.go` decodes a body into a map, the director sets the model in
it and writes it again. The typed requests that the body is decoded into besides are
kept only as a check. Of the body that is forwarded the model is the target; the rest
stands for what it did if the numbers do, which are a `float64` on the way.
-/

namespace InferenceGateway.Parsers.OpenAI

open Lib Handlers RequestControl

inductive ApiType where
  | conversations
  | responses
  | chatCompletions
  | completions
  | embeddings
deriving DecidableEq, Repr

/-- A header that is not empty. -/
def pathHeader (headers : HeaderMap) (key : String) : Option String :=
  (headers.lookup key).filter fun path => path ≠ ""

def getRequestPath (headers : HeaderMap) : String :=
  ((pathHeader headers ":path").or ((pathHeader headers "x-original-path").or (pathHeader headers "x-forwarded-path"))).getD
    "/v1/completions"

def determineAPITypeFromPath (path : String) : ApiType :=
  if "/v1/conversations".toList <:+: path.toList then .conversations
  else if "/v1/responses".toList <:+: path.toList then .responses
  else if "/v1/chat/completions".toList <:+: path.toList then .chatCompletions
  else if "/v1/completions".toList <:+: path.toList then .completions
  else if "/v1/embeddings".toList <:+: path.toList then .embeddings
  else .completions

def ApiType.invalid : ApiType → String
  | conversations => "invalid conversations request: must have items field"
  | responses => "invalid responses request: must have input field"
  | chatCompletions => "invalid chat completions request: must have valid messages field"
  | completions => "invalid completions request: must have prompt field"
  | embeddings => "invalid embeddings request: must have input field"

/-- What decoding into Go's types answers. -/
structure Decoders where
  /-- The request of the API can be decoded, and has the field it must have. -/
  valid : ApiType → List UInt8 → Bool
  /-- The text of the error of decoding into a map. -/
  mapError : List UInt8 → String

variable {lib : Library} (dec : Decoders)

def extractRequestBody {F : Type} (rawBody : List UInt8) (headers : HeaderMap) : Except String (LLMRequestBody F) :=
  let apiType := determineAPITypeFromPath (getRequestPath headers)
  if dec.valid apiType rawBody then .ok ⟨.other, false⟩ else .error apiType.invalid

/-- `x.(bool)`, and its value. -/
def isTrue {F : Type} : Any F → Bool
  | .bool b => b
  | _ => false

def parseRequest (body : List UInt8) (headers : HeaderMap) : Except String (LLMRequestBody lib.Float64) :=
  match (lib.parse body).map (decodeMap lib (some [])) with
  | none | some (_, true) => .error ("error unmarshaling request bodyMap: " ++ dec.mapError body)
  | some (bodyMap, false) => do
    let extractedBody : LLMRequestBody lib.Float64 ← extractRequestBody dec body headers
    return { extractedBody with
      payload := .map (bodyMap.getD [])
      stream := isTrue (Any.get (bodyMap.getD []) "stream") || extractedBody.stream }

/-- An object that is accepted is decoded without an error. -/
theorem parseRequest_ok {body : List UInt8} {headers : HeaderMap} {fields : List (String × Json)}
    {parsed : LLMRequestBody lib.Float64} (hbody : lib.parse body = some (.obj fields))
    (h : parseRequest dec body headers = .ok parsed) :
    (decodeEntries lib fields).2 = false ∧ parsed.payload = .map (decodeEntries lib fields).1 := by
  unfold parseRequest at h
  simp only [hbody, Option.map_some, decodeMap, Option.getD_some, List.nil_append] at h
  cases herror : (decodeEntries lib fields).2 with
  | true =>
    rw [herror] at h
    cases h
  | false =>
    rw [herror] at h
    obtain ⟨extractedBody, -, hparsed⟩ := bind_eq_ok h
    cases hparsed
    exact ⟨rfl, rfl⟩

end InferenceGateway.Parsers.OpenAI

namespace InferenceGateway.RequestControl

open Lib Parsers Handlers

variable {lib : Library}

/-- A director whose parser is the one for OpenAI. -/
def Director.openAI (d : Director lib.Float64) (codec : Codec lib) (dec : OpenAI.Decoders) : Director lib.Float64 :=
  { d with
    parseRequest := fun body headers => .ok (OpenAI.parseRequest dec body headers)
    marshal := codec.marshal }

/-- An object with the target as its model, and what `fields` has besides. -/
def KeepsAllButModel (target : String) (fields : List (String × Json)) (j : Json) : Prop :=
  ∃ fields', j = .obj fields' ∧ fields'.lookup "model" = some (.str target) ∧
    ∀ key, key ≠ "model" → Option.Rel Json.Same (fields.lookup key) (fields'.lookup key)

namespace Director

section Maps
variable {F : Type} {d : Director F} {c c' : RequestContext} {m m' : List (String × Any F)}

/-- A map with another model. -/
def retargeted (target : String) (m : List (String × Any F)) : List (String × Any F) :=
  (m.filter fun e => e.1 ≠ "model") ++ [("model", .str target)]

theorem mutateModel_ok (h : d.mutateModel c m = (c', .ok m')) :
    (∃ model, Any.get m "model" = .str model) ∧ m' = retargeted c'.targetModelName m := by
  unfold mutateModel at h
  split at h
  · rename_i model hmodel
    cases h
    exact ⟨⟨model, hmodel⟩, rfl⟩
  · cases h

theorem mutateAndRepackage_ok (h : d.mutateAndRepackage c m = (c', .ok m')) :
    (∃ model, Any.get m "model" = .str model) ∧ d.marshal (retargeted c'.targetModelName m) = some c'.request.rawBody := by
  unfold mutateAndRepackage at h
  rcases hmodel : d.mutateModel c m with ⟨c₁, _ | m₁⟩
  · rw [hmodel] at h
    cases h
  · rw [hmodel] at h
    obtain ⟨hstring, rfl⟩ := mutateModel_ok hmodel
    dsimp only at h
    split at h
    · cases h
    · rename_i text htext
      cases h
      exact ⟨hstring, htext⟩

theorem processRequestBody_map {parsed body' : LLMRequestBody F}
    (hparsed : d.parseRequest c.request.rawBody c.request.headers = .ok (.ok parsed)) (hpayload : parsed.payload = .map m)
    (h : d.processRequestBody c = (c', .ok body')) :
    (∃ model, Any.get m "model" = .str model) ∧ d.marshal (retargeted c'.targetModelName m) = some c'.request.rawBody := by
  unfold processRequestBody at h
  simp only [hparsed, hpayload] at h
  split at h
  · cases h
  · rename_i hpackaged
    cases h
    exact mutateAndRepackage_ok hpackaged

end Maps

variable {d : Director lib.Float64} {codec : Codec lib} {dec : OpenAI.Decoders} {c c' : RequestContext}
  {fields : List (String × Json)} {body' : LLMRequestBody lib.Float64}

/-- The body that is forwarded is that of the map with its model set. -/
theorem processRequestBody_openAI (hbody : lib.parse c.request.rawBody = some (.obj fields))
    (h : (d.openAI codec dec).processRequestBody c = (c', .ok body')) :
    (decodeEntries lib fields).2 = false ∧ (∃ model, Any.get (decodeEntries lib fields).1 "model" = .str model) ∧
      lib.parse c'.request.rawBody =
        some (encodeAny codec.formatFloat (.map (retargeted c'.targetModelName (decodeEntries lib fields).1))) := by
  cases hparsed : OpenAI.parseRequest dec c.request.rawBody c.request.headers with
  | error msg =>
    have hfailed : (d.openAI codec dec).parseRequest c.request.rawBody c.request.headers = .ok (.error msg) :=
      congrArg Except.ok hparsed
    unfold processRequestBody at h
    rw [hfailed] at h
    cases h
  | ok parsed =>
    obtain ⟨hok, hpayload⟩ := OpenAI.parseRequest_ok dec hbody hparsed
    obtain ⟨hmodel, hmarshal⟩ := processRequestBody_map (congrArg Except.ok hparsed) hpayload h
    exact ⟨hok, hmodel, codec.marshal_parse _ _ hmarshal⟩

/-- A model that is decoded to a string has no number in it. -/
theorem numbers_of_decoded_string {j : Json} {s : String} (h : (decodeAny lib j).1 = .str s) : j.numbers = [] := by
  cases j with
  | num literal =>
    rw [decodeAny] at h
    split at h <;> cases h
  | arr xs | obj fields => rw [decodeAny] at h; cases h
  | _ => rfl

theorem lookup_retargeted (formatFloat : lib.Float64 → String) (target : String)
    (hkeys : (fields.map Prod.fst).Nodup) :
    (sortedFields (encodeEntries formatFloat (retargeted target (decodeEntries lib fields).1))).lookup "model" =
        some (.str target) ∧
      ∀ key, key ≠ "model" →
        (sortedFields (encodeEntries formatFloat (retargeted target (decodeEntries lib fields).1))).lookup key =
          (fields.lookup key).map (recode formatFloat) := by
  rw [encodeEntries_eq, retargeted, List.map_append, List.map_singleton]
  refine ⟨?_, fun key hkey => ?_⟩
  · rw [lookup_sortedFields, List.reverse_append, List.reverse_singleton, List.singleton_append, List.lookup_cons_self,
      encodeAny]
  · rw [← lookup_recoded formatFloat hkeys key, lookup_sortedFields, lookup_sortedFields, List.reverse_append,
      List.reverse_singleton, List.singleton_append, List.lookup_cons, beq_false_of_ne hkey, encodeEntries_eq]
    dsimp only
    rw [← List.map_reverse, ← List.map_reverse, lookup_map_snd, lookup_map_snd, ← List.filter_reverse, lookup_filter_ne _ hkey]

/-- What is forwarded of a body is the same, save its model, exactly if each of its numbers
stands for the same when it is the nearest `float64` that is printed. -/
theorem forwarded_body_iff (d : Director lib.Float64) (codec : Codec lib) (dec : OpenAI.Decoders) {c c' : RequestContext}
    {fields : List (String × Json)} {body' : LLMRequestBody lib.Float64}
    (hbody : lib.parse c.request.rawBody = some (.obj fields)) (hkeys : (Json.obj fields).DistinctKeys)
    (hforward : (d.openAI codec dec).processRequestBody c = (c', .ok body')) :
    ∃ j, lib.parse c'.request.rawBody = some j ∧
      (KeepsAllButModel c'.targetModelName fields j ↔
        ∀ literal ∈ (Json.obj fields).numbers, Exact codec.formatFloat literal) := by
  obtain ⟨hok, ⟨model, hmodel⟩, hparse⟩ := processRequestBody_openAI hbody hforward
  rw [Json.DistinctKeys, Json.distinctInFields_iff] at hkeys
  obtain ⟨htarget, hothers⟩ := lookup_retargeted codec.formatFloat c'.targetModelName hkeys.1
  refine ⟨_, hparse, ?_⟩
  -- the model has no numbers, so that it does not matter that it is left out
  have hstring : ∀ f ∈ fields, f.1 = "model" → f.2.numbers = [] := by
    rintro ⟨_, j⟩ hf rfl
    have hdecoded : (decodeAny lib j).1 = .str model := by
      rw [decodeEntries_eq, Any.get, Any.find, ← List.map_reverse, lookup_map_snd fun j => (decodeAny lib j).1,
        lookup_reverse hkeys.1, lookup_of_mem hkeys.1 hf] at hmodel
      exact hmodel
    exact numbers_of_decoded_string hdecoded
  calc KeepsAllButModel c'.targetModelName fields _
      ↔ ∀ key, key ≠ "model" →
          Option.Rel Json.Same (fields.lookup key) ((fields.lookup key).map (recode codec.formatFloat)) := by
        rw [encodeAny]
        refine ⟨?_, fun h => ⟨_, rfl, htarget, fun key hkey => ?_⟩⟩
        · rintro ⟨_, hj, -, h⟩ key hkey
          cases hj
          rw [← hothers key hkey]
          exact h key hkey
        · rw [hothers key hkey]
          exact h key hkey
    _ ↔ ∀ f ∈ fields, f.1 ≠ "model" → f.2.Same (recode codec.formatFloat f.2) :=
        same_fields_iff hkeys.1 (recode codec.formatFloat) (· ≠ "model")
    _ ↔ ∀ f ∈ fields, ∀ literal ∈ f.2.numbers, Exact codec.formatFloat literal := by
        refine forall₂_congr fun f hf => ?_
        rw [same_recode_iff codec.formatFloat f.2 (hkeys.2 f hf) (decodeEntries_ok hok f hf)]
        refine ⟨fun h => ?_, fun h _ => h⟩
        by_cases hf' : f.1 = "model"
        · rw [hstring f hf hf']
          exact fun _ hliteral => absurd hliteral List.not_mem_nil
        · exact h hf'
    _ ↔ ∀ literal ∈ (Json.obj fields).numbers, Exact codec.formatFloat literal := by
        rw [Json.numbers, Json.numbersOfFields_eq, List.forall_mem_flatMap]

/-! ### Seeds -/

/-- An integer in its digits, another binary64 number with all of its decimals. -/
def exactLiteral (x : ℚ) : String :=
  if x.den = 1 then toString x.num else toString (x.num * 5 ^ x.den.log2) ++ "e-" ++ toString x.den.log2

def seedText (literal : String) : List UInt8 :=
  ("\x7b\"model\":\"m\",\"prompt\":\"p\",\"seed\":" ++ literal ++ "\x7d").toUTF8.data.toList

def seedFields (literal : String) : List (String × Json) :=
  [("model", .str "m"), ("prompt", .str "p"), ("seed", .num literal)]

/-- A library that reads requests with one of these seeds. -/
def readsSeeds (seeds : List String) : Library where
  Float64 := ℚ
  parseFloat literal := nearestBinary64 (literalValue literal)
  toInt x := Int64.ofInt ⌊x⌋
  parseInt _ := none
  parse text := (seeds.find? fun literal => seedText literal = text).map fun literal => .obj (seedFields literal)
  foldName := String.toLower

/-- The map of a request with a seed is written if it can be read. -/
def marshalSeed (seeds : List String) : List (String × Any ℚ) → Option (List UInt8)
  | [(promptKey, .str prompt), (seedKey, .float x), (modelKey, .str model)] =>
    if [promptKey, prompt, seedKey, modelKey, model] = ["prompt", "p", "seed", "model", "m"] ∧
        (seeds.find? fun literal => seedText literal = seedText (exactLiteral x)) = some (exactLiteral x)
    then some (seedText (exactLiteral x)) else none
  | _ => none

theorem encode_seed (x : ℚ) :
    encodeAny exactLiteral (.map [("prompt", .str "p"), ("seed", .float x), ("model", .str "m")]) =
      .obj (seedFields (exactLiteral x)) := by
  simp [encodeAny, encodeEntries, sortedFields, seedFields, List.lookup]

theorem marshalSeed_parse {seeds : List String} {m : List (String × Any ℚ)} {text : List UInt8}
    (h : marshalSeed seeds m = some text) : (readsSeeds seeds).parse text = some (encodeAny exactLiteral (.map m)) := by
  unfold marshalSeed at h
  split at h
  · split at h
    · rename_i hm
      obtain ⟨hkeys, hfind⟩ := hm
      simp only [List.cons.injEq, and_true] at hkeys
      obtain ⟨rfl, rfl, rfl, rfl, rfl⟩ := hkeys
      cases h
      simp only [readsSeeds, hfind, encode_seed, Option.map_some]
    · cases h
  · cases h

def seedCodec (seeds : List String) : Codec (readsSeeds seeds) where
  formatFloat := exactLiteral
  marshal := marshalSeed seeds
  marshal_parse _ _ := marshalSeed_parse

def oneModel : Director ℚ where
  parseRequest _ _ := .ok (.error "")
  modelRewrite _ := none
  marshal _ := none
  objectiveGet _ := none
  admission _ _ := none
  locate := []
  admitRequest _ _ := true
  schedule _ _ := .ok none
  preRequest _ _ := .ok ()
  getRandomEndpoint := none
  responseBody _ _ := none

def accepting : OpenAI.Decoders := ⟨fun _ _ => true, fun _ => ""⟩

/-- A stream with a body that has come. -/
def received (rawBody : List UInt8) : RequestContext := { RequestContext.new with request := ⟨∅, rawBody⟩ }

/-- A seed of 7 stays what it is. -/
theorem forwarded_body_seven :
    let r := (oneModel.openAI (seedCodec ["7"]) accepting).processRequestBody (received (seedText "7"))
    ∃ j, (readsSeeds ["7"]).parse r.1.request.rawBody = some j ∧
      KeepsAllButModel r.1.targetModelName (seedFields "7") j := by
  intro r
  have hok : r.2.isOk = true := by decide +kernel
  obtain ⟨body', hbody'⟩ := exists_of_isOk hok
  have hread : (readsSeeds ["7"]).parse (seedText "7") = some (.obj (seedFields "7")) := by simp [readsSeeds]
  have hkeys : (Json.obj (seedFields "7")).DistinctKeys := by
    simp [seedFields, Json.DistinctKeys, Json.DistinctInFields]
  obtain ⟨j, hj, hiff⟩ := forwarded_body_iff oneModel (seedCodec ["7"]) accepting hread hkeys (Prod.ext rfl hbody')
  refine ⟨j, hj, hiff.2 ?_⟩
  simp only [seedFields, Json.numbers, Json.numbersOfFields, List.nil_append, List.append_nil, List.forall_mem_singleton]
  have hnearest : nearestBinary64 (literalValue "7") = some 7 := by decide +kernel
  exact ⟨(7 : ℚ), hnearest, by decide +kernel⟩

/-- A seed beyond `2 ^ 53` is forwarded as its neighbour. -/
theorem forwarded_seed_rounded :
    let seeds := ["9007199254740992", "9007199254740993"]
    let r := (oneModel.openAI (seedCodec seeds) accepting).processRequestBody (received (seedText "9007199254740993"))
    r.2.isOk = true ∧ (readsSeeds seeds).parse r.1.request.rawBody = some (.obj (seedFields "9007199254740992")) ∧
      ¬ KeepsAllButModel r.1.targetModelName (seedFields "9007199254740993") (.obj (seedFields "9007199254740992")) := by
  intro seeds r
  have htext : r.1.request.rawBody = seedText "9007199254740992" := by decide +kernel
  refine ⟨by decide +kernel, ?_, ?_⟩
  · rw [htext]
    simp [readsSeeds, seeds]
  · rintro ⟨fields', hfields, -, hothers⟩
    cases hfields
    have hseed := hothers "seed" (by decide)
    cases hseed with
    | some hsame =>
      cases hsame with
      | num hvalue =>
        revert hvalue
        decide +kernel

end Director

end InferenceGateway.RequestControl
