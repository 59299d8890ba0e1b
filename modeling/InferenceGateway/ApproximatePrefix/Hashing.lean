import InferenceGateway.ApproximatePrefix.Indexer
import InferenceGateway.Lib.Numerals
import InferenceGateway.Lib.Panics
import InferenceGateway.Parsers.Json
/-!
# Hashes of a prompt

`hashing.go`. The input of a request is cut into blocks; the hash of each is made of the block
and of the hash before it. The model and the salt are written before the first block, one
right after the other: requests share a hash when these texts are the same and so are their
first blocks, or when the text of one is what is written for a block of the other. As long as
the products of the configured numbers fit into an `int`, the hashes of the first blocks
depend on the model, the salt and these blocks alone.
-/

namespace InferenceGateway.ApproximatePrefix

open Lib Parsers List

variable {F : Type}

structure Prompt where
  raw : String
  strings : List String

def Prompt.plainText (p : Prompt) : String := if p.raw ≠ "" then p.raw else " ".intercalate p.strings

/-- The part of an API's request that is hashed, and the salt. -/
structure Salted (α : Type) where
  content : α
  cacheSalt : String

structure ResponsesContent (F : Type) where
  input : Any F
  instructions : Any F
  tools : Any F

structure LLMRequestBody (F : Type) where
  /-- `Items`. -/
  conversations : Option (Salted (Any F))
  responses : Option (Salted (ResponsesContent F))
  /-- `Messages`. -/
  chatCompletions : Option (Salted (Any F))
  completions : Option (Salted Prompt)
  /-- `Input`. -/
  embeddings : Option (Salted (Any F))

structure LLMRequest (F : Type) where
  targetModel : String
  body : Option (LLMRequestBody F)

def LLMRequestBody.cacheSalt (body : LLMRequestBody F) : String :=
  match body with
  | { conversations := some c, .. } => c.cacheSalt
  | { responses := some c, .. } => c.cacheSalt
  | { chatCompletions := some c, .. } => c.cacheSalt
  | { completions := some c, .. } => c.cacheSalt
  | { embeddings := some c, .. } => c.cacheSalt
  | _ => ""

/-- What is taken from libraries: `json.Marshal`, which may fail, and the hash of all that is written. -/
structure HashLibrary (F : Type) where
  marshal : Any F → Option (List UInt8)
  sum64 : List UInt8 → UInt64

def textBytes (s : String) : List UInt8 := s.toUTF8.data.toList

def combined (r : ResponsesContent F) : Any F :=
  .arr ((if r.instructions.isNil then [] else [.map [("instructions", r.instructions)]]) ++
    (if r.tools.isNil then [] else [.map [("tools", r.tools)]]) ++ [.map [("input", r.input)]])

section Hash
variable (lib : HashLibrary F)

def getUserInputBytes (body : LLMRequestBody F) : Option (List UInt8) :=
  match body with
  | { conversations := some c, .. } => lib.marshal c.content
  | { responses := some c, .. } => lib.marshal (combined c.content)
  | { chatCompletions := some c, .. } => lib.marshal c.content
  | { completions := some c, .. } => some (textBytes c.content.plainText)
  | { embeddings := some c, .. } => lib.marshal c.content
  | _ => none

def averageCharactersPerToken : Int64 := 4

def toBytes (h : BlockHash) : List UInt8 := (beBytes 8 h.toNat).reverse

/-- The loop over the blocks. -/
def hashBlocks : List (List UInt8) → BlockHash → List BlockHash
  | [], _ => []
  | block :: blocks, prevBlockHash =>
    let blockHash := lib.sum64 (block ++ toBytes prevBlockHash)
    blockHash :: hashBlocks blocks blockHash

/-- The whole blocks of the input. -/
def blocks (cacheBlockSizeChars : ℕ) : ℕ → List UInt8 → List (List UInt8)
  | 0, _ => []
  | fuel + 1, userInput =>
    if cacheBlockSizeChars ≤ userInput.length then
      userInput.take cacheBlockSizeChars :: blocks cacheBlockSizeChars fuel (userInput.drop cacheBlockSizeChars)
    else []

/-- `userInput[:n]`. -/
def sliceTo (userInput : List UInt8) (n : Int64) : Except Panic (List UInt8) :=
  if n.toInt < 0 then .error .sliceBounds else slice userInput 0 n.toInt.toNat

/-- What is hashed before the first block. -/
def LLMRequest.start (request : LLMRequest F) : List UInt8 :=
  let cacheSalt := request.body.elim "" LLMRequestBody.cacheSalt
  textBytes request.targetModel ++ if cacheSalt ≠ "" then textBytes cacheSalt else []

/-- The blocks that are hashed. -/
def blocksOf (request : LLMRequest F) (blockSizeTokens maxPrefixBlocks : Int64) : Except Panic (List (List UInt8)) :=
  match request.body.bind (getUserInputBytes lib) with
  | none => .ok []
  | some userInput =>
    let cacheBlockSizeChars := blockSizeTokens * averageCharactersPerToken
    if cacheBlockSizeChars.toInt ≤ 0 then .ok []
    else if userInput.length < cacheBlockSizeChars.toInt then .ok []
    else do
      let userInput ←
        if userInput.length > (cacheBlockSizeChars * maxPrefixBlocks).toInt then sliceTo userInput (maxPrefixBlocks * cacheBlockSizeChars)
        else .ok userInput
      .ok (blocks cacheBlockSizeChars.toInt.toNat userInput.length userInput)

def hashPrompt (request : Option (LLMRequest F)) (blockSizeTokens maxPrefixBlocks : Int64) : Except Panic (List BlockHash) :=
  match request with
  | none => .ok []
  | some request =>
    (blocksOf lib request blockSizeTokens maxPrefixBlocks).map fun blocks => hashBlocks lib blocks (lib.sum64 request.start)

end Hash

/-! ## What is written -/

section Written
variable (lib : HashLibrary F)

/-- What is written last, when `start` and then the blocks are hashed: a block, and the hash of what was written before. -/
def after (start : List UInt8) (blocks : List (List UInt8)) : List UInt8 :=
  blocks.foldl (fun text block => block ++ toBytes (lib.sum64 text)) start

/-- All that is written for a request. -/
def LLMRequest.written (request : LLMRequest F) (size max : Int64) : List (List UInt8) :=
  match blocksOf lib request size max with
  | .ok blocks => (range (blocks.length + 1)).map fun i => after lib request.start (blocks.take i)
  | .error _ => []

/-- No two of the texts have the same hash. -/
def CollisionFree (texts : List (List UInt8)) : Prop :=
  ∀ bytes ∈ texts, ∀ bytes' ∈ texts, lib.sum64 bytes = lib.sum64 bytes' → bytes = bytes'

instance (texts : List (List UInt8)) : Decidable (CollisionFree lib texts) :=
  inferInstanceAs (Decidable (∀ bytes ∈ texts, ∀ bytes' ∈ texts, lib.sum64 bytes = lib.sum64 bytes' → bytes = bytes'))

/-- The first text is what is written right before a block of the others, and that block is also the first one after it. -/
def Meets (start : List UInt8) (blocks : List (List UInt8)) (start' : List UInt8) (blocks' : List (List UInt8)) : Prop :=
  ∃ k < blocks'.length, after lib start' (blocks'.take k) = start ∧ blocks.head? = blocks'[k]?

instance (start : List UInt8) (blocks : List (List UInt8)) (start' : List UInt8) (blocks' : List (List UInt8)) :
    Decidable (Meets lib start blocks start' blocks') :=
  inferInstanceAs (Decidable (∃ k < blocks'.length, after lib start' (blocks'.take k) = start ∧ blocks.head? = blocks'[k]?))

end Written

variable {lib : HashLibrary F} {start start' : List UInt8} {blocks blocks' : List (List UInt8)}

theorem mem_hashBlocks {hash : BlockHash} : hash ∈ hashBlocks lib blocks (lib.sum64 start) ↔
    ∃ i < blocks.length, hash = lib.sum64 (after lib start (blocks.take (i + 1))) := by
  induction blocks generalizing start with
  | nil => simp [hashBlocks]
  | cons block blocks ih =>
    rw [hashBlocks, mem_cons, ih]
    constructor
    · rintro (rfl | ⟨i, hi, rfl⟩)
      · exact ⟨0, by simp, by simp [after]⟩
      · exact ⟨i + 1, by simpa using hi, by simp [after]⟩
    · rintro ⟨i, hi, rfl⟩
      cases i with
      | zero => exact .inl (by simp [after])
      | succ i => exact .inr ⟨i, by simpa using hi, by simp [after]⟩

theorem after_take_succ {i : ℕ} {block : List UInt8} (h : blocks[i]? = some block) :
    after lib start (blocks.take (i + 1)) = block ++ toBytes (lib.sum64 (after lib start (blocks.take i))) := by
  rw [take_add_one, h]
  simp [after]

theorem toBytes_injective : Function.Injective toBytes := by
  intro p p' h
  have hnat := congrArg (fun bytes : List UInt8 => beNat bytes.reverse) h
  simp only [toBytes, reverse_reverse] at hnat
  rw [beNat_beBytes _ _ p.toNat_lt, beNat_beBytes _ _ p'.toNat_lt] at hnat
  exact UInt64.toNat.inj hnat

theorem append_toBytes_inj {block block' : List UInt8} {p p' : BlockHash} (h : block ++ toBytes p = block' ++ toBytes p') :
    block = block' ∧ p = p' := by
  obtain ⟨hblock, hbytes⟩ := append_inj' h (by simp [toBytes])
  exact ⟨hblock, toBytes_injective hbytes⟩

/-- Two texts that are the same have come from the same blocks, back to where the first of the two begins. -/
theorem meets_of_after_eq (hfree : ∀ i ≤ blocks.length, ∀ j ≤ blocks'.length,
      lib.sum64 (after lib start (blocks.take i)) = lib.sum64 (after lib start' (blocks'.take j)) →
        after lib start (blocks.take i) = after lib start' (blocks'.take j)) (i : ℕ) : ∀ j, i < blocks.length → j < blocks'.length →
    after lib start (blocks.take (i + 1)) = after lib start' (blocks'.take (j + 1)) →
      Meets lib start blocks start' blocks' ∨ Meets lib start' blocks' start blocks := by
  induction i with
  | zero =>
    intro j hi hj heq
    have hblock := List.getElem?_eq_getElem hi
    have hblock' := List.getElem?_eq_getElem hj
    rw [after_take_succ hblock, after_take_succ hblock'] at heq
    obtain ⟨hsame, hhash⟩ := append_toBytes_inj heq
    refine .inl ⟨j, hj, (hfree 0 (Nat.zero_le _) j hj.le hhash).symm, ?_⟩
    rw [hblock', ← hsame, ← hblock, head?_eq_getElem?]
  | succ i ih =>
    intro j hi hj heq
    have hblock := List.getElem?_eq_getElem hi
    have hblock' := List.getElem?_eq_getElem hj
    rw [after_take_succ hblock, after_take_succ hblock'] at heq
    obtain ⟨hsame, hhash⟩ := append_toBytes_inj heq
    have hbefore := hfree (i + 1) hi.le j hj.le hhash
    cases j with
    | zero =>
      refine .inr ⟨i + 1, hi, hbefore, ?_⟩
      rw [hblock, hsame, ← hblock', head?_eq_getElem?]
    | succ j => exact ih j (by omega) (by omega) hbefore

/-- The same block after the same text. -/
theorem Meets.after_eq (h : Meets lib start blocks start' blocks') : ∃ i < blocks.length, ∃ j < blocks'.length,
    after lib start (blocks.take (i + 1)) = after lib start' (blocks'.take (j + 1)) := by
  obtain ⟨k, hk, hstart, hhead⟩ := h
  have hblock' := List.getElem?_eq_getElem hk
  rw [head?_eq_getElem?, hblock'] at hhead
  refine ⟨0, (List.getElem?_eq_some_iff.1 hhead).1, k, hk, ?_⟩
  rw [after_take_succ hhead, after_take_succ hblock', hstart]
  rfl

/-- Where the hash has no collisions, requests share no hash if and only if neither model and salt, written one after the
other, is what is written right before a block of the other request that is also its own first block. -/
theorem hashes_apart_iff (lib : HashLibrary F) (request request' : LLMRequest F) (size max size' max' : Int64)
    (blocks blocks' : List (List UInt8)) (hashes hashes' : List BlockHash)
    (hblocks : blocksOf lib request size max = .ok blocks) (hblocks' : blocksOf lib request' size' max' = .ok blocks')
    (h : hashPrompt lib (some request) size max = .ok hashes) (h' : hashPrompt lib (some request') size' max' = .ok hashes')
    (hfree : CollisionFree lib (request.written lib size max ++ request'.written lib size' max')) :
    (∀ hash ∈ hashes, hash ∉ hashes') ↔
      ¬ Meets lib request.start blocks request'.start blocks' ∧ ¬ Meets lib request'.start blocks' request.start blocks := by
  rw [hashPrompt, hblocks] at h
  rw [hashPrompt, hblocks'] at h'
  cases h
  cases h'
  simp only [LLMRequest.written, hblocks, hblocks'] at hfree
  have hinj : ∀ i ≤ blocks.length, ∀ j ≤ blocks'.length,
      lib.sum64 (after lib request.start (blocks.take i)) = lib.sum64 (after lib request'.start (blocks'.take j)) →
        after lib request.start (blocks.take i) = after lib request'.start (blocks'.take j) :=
    fun i hi j hj => hfree _ (mem_append_left _ (mem_map_of_mem (mem_range.2 (Nat.lt_succ_of_le hi)))) _
      (mem_append_right _ (mem_map_of_mem (mem_range.2 (Nat.lt_succ_of_le hj))))
  rw [← not_or, iff_not_comm]
  constructor
  · intro hmeets
    obtain ⟨i, hi, j, hj, heq⟩ : ∃ i < blocks.length, ∃ j < blocks'.length,
        after lib request.start (blocks.take (i + 1)) = after lib request'.start (blocks'.take (j + 1)) := by
      rcases hmeets with hmeets | hmeets
      · exact hmeets.after_eq
      · obtain ⟨j, hj, i, hi, heq⟩ := hmeets.after_eq
        exact ⟨i, hi, j, hj, heq.symm⟩
    exact fun hapart => hapart _ (mem_hashBlocks.2 ⟨i, hi, rfl⟩) (mem_hashBlocks.2 ⟨j, hj, by rw [heq]⟩)
  · intro hshared
    push Not at hshared
    obtain ⟨hash, hmem, hmem'⟩ := hshared
    obtain ⟨i, hi, rfl⟩ := mem_hashBlocks.1 hmem
    obtain ⟨j, hj, heq⟩ := mem_hashBlocks.1 hmem'
    exact meets_of_after_eq hinj i j hi hj (hinj _ hi _ hj heq)

/-- Numbers are written as bytes, and the hash is a polynomial. -/
def plainLibrary : HashLibrary (List UInt8) where
  marshal
    | .float bytes => some bytes
    | _ => none
  sum64 bytes := bytes.foldl (fun h b => h * 31 + b.toUInt64) 7

def embedding (targetModel cacheSalt : String) (bytes : List UInt8) : LLMRequest (List UInt8) :=
  ⟨targetModel, some ⟨none, none, none, none, some ⟨.float bytes, cacheSalt⟩⟩⟩

/-- Two salts. -/
theorem hashes_apart_iff_salts : ∃ hashes hashes', hashPrompt plainLibrary (some (embedding "m" "x" [1, 2, 3, 4])) 1 2 = .ok hashes ∧
    hashPrompt plainLibrary (some (embedding "m" "y" [1, 2, 3, 4])) 1 2 = .ok hashes' ∧ hashes ≠ [] ∧
    ∀ hash ∈ hashes, hash ∉ hashes' :=
  ⟨_, _, rfl, rfl, nofun, (hashes_apart_iff plainLibrary (embedding "m" "x" [1, 2, 3, 4]) (embedding "m" "y" [1, 2, 3, 4]) 1 2 1 2
    _ _ _ _ rfl rfl rfl rfl (by decide +kernel)).2 (by decide +kernel)⟩

/-- The model and the salt are written with nothing between them. -/
theorem salt_in_model : ∃ hashes, hashPrompt plainLibrary (some (embedding "a" "bc" [1, 2, 3, 4])) 1 2 = .ok hashes ∧
    hashPrompt plainLibrary (some (embedding "ab" "c" [1, 2, 3, 4])) 1 2 = .ok hashes ∧ hashes ≠ [] ∧
    CollisionFree plainLibrary ((embedding "a" "bc" [1, 2, 3, 4]).written plainLibrary 1 2 ++
      (embedding "ab" "c" [1, 2, 3, 4]).written plainLibrary 1 2) :=
  ⟨_, rfl, by decide +kernel, nofun, by decide +kernel⟩

/-! ## Shared prefixes -/

section Prefixes

theorem length_hashBlocks (blocks : List (List UInt8)) : ∀ prev : BlockHash, (hashBlocks lib blocks prev).length = blocks.length := by
  induction blocks with
  | nil => exact fun _ => rfl
  | cons block blocks ih =>
    intro prev
    rw [hashBlocks, length_cons, ih, length_cons]

theorem take_hashBlocks (blocks : List (List UInt8)) : ∀ (k : ℕ) (prev : BlockHash),
    (hashBlocks lib blocks prev).take k = hashBlocks lib (blocks.take k) prev := by
  induction blocks with
  | nil =>
    intro k prev
    rw [take_nil, hashBlocks, take_nil]
  | cons block blocks ih =>
    intro k prev
    cases k with
    | zero => rfl
    | succ k => rw [hashBlocks, take_succ_cons, ih, take_succ_cons, hashBlocks]

/-- Every whole block of the input, by its number. -/
def wholeBlocks (size : ℕ) (userInput : List UInt8) : List (List UInt8) :=
  (range (userInput.length / size)).map fun i => (userInput.drop (i * size)).take size

theorem blocks_eq {size : ℕ} (hsize : 0 < size) (fuel : ℕ) : ∀ userInput : List UInt8, userInput.length ≤ fuel →
    ApproximatePrefix.blocks size fuel userInput = wholeBlocks size userInput := by
  induction fuel with
  | zero =>
    intro userInput hfuel
    rw [wholeBlocks, Nat.le_zero.1 hfuel, Nat.zero_div]
    rfl
  | succ fuel ih =>
    intro userInput hfuel
    rw [ApproximatePrefix.blocks]
    split
    · rename_i hle
      have hnext : userInput.length / size = (userInput.drop size).length / size + 1 := by
        rw [length_drop, Nat.div_eq_sub_div hsize hle]
      rw [ih _ (by rw [length_drop]; omega), wholeBlocks, wholeBlocks, hnext, range_succ_eq_map, map_cons, map_map]
      refine congrArg₂ _ (by simp) (map_congr_left fun i _ => ?_)
      rw [Function.comp_apply, drop_drop, Nat.succ_mul, add_comm]
    · rename_i hlt
      rw [wholeBlocks, Nat.div_eq_of_lt (not_le.1 hlt)]
      rfl

/-- The first blocks are those of the first bytes. -/
theorem take_wholeBlocks (size k : ℕ) (userInput : List UInt8) :
    (wholeBlocks size userInput).take k = wholeBlocks size (userInput.take (k * size)) := by
  rcases Nat.eq_zero_or_pos size with rfl | hsize
  · simp [wholeBlocks]
  have hmono : Monotone fun n : ℕ => n / size := fun _ _ hle => Nat.div_le_div_right hle
  have hcount : (userInput.take (k * size)).length / size = min k (userInput.length / size) := by
    rw [length_take, hmono.map_min, Nat.mul_div_cancel _ hsize]
  rw [wholeBlocks, wholeBlocks, hcount, ← map_take, take_range]
  refine map_congr_left fun i hi => ?_
  have hend : (i + 1) * size ≤ k * size := Nat.mul_le_mul_right _ (lt_min_iff.1 (mem_range.1 hi)).1
  rw [Nat.succ_mul] at hend
  rw [drop_take, take_take, min_eq_left (by omega)]

/-- The length of a block, if it is positive and fits. -/
def blockLength (blockSizeTokens : Int64) : ℕ := (4 * blockSizeTokens.toInt).toNat

/-- The products of the configured numbers are what they should be. -/
structure Fits (blockSizeTokens maxPrefixBlocks : Int64) : Prop where
  max : 0 ≤ maxPrefixBlocks.toInt
  blockLow : -2 ^ 63 ≤ 4 * blockSizeTokens.toInt
  blockHigh : 4 * blockSizeTokens.toInt < 2 ^ 63
  product : 4 * blockSizeTokens.toInt * maxPrefixBlocks.toInt < 2 ^ 63

variable {blockSizeTokens maxPrefixBlocks : Int64}

theorem Fits.blockSize (h : Fits blockSizeTokens maxPrefixBlocks) :
    (blockSizeTokens * averageCharactersPerToken).toInt = 4 * blockSizeTokens.toInt := by
  have hlow := h.blockLow
  have hhigh := h.blockHigh
  have hfour : averageCharactersPerToken.toInt = 4 := by decide
  rw [Int64.toInt_mul, hfour, mul_comm]
  exact Int.bmod_eq_of_le (by norm_num; omega) (by norm_num; omega)

theorem Fits.totalSize (h : Fits blockSizeTokens maxPrefixBlocks) (hpos : 0 < 4 * blockSizeTokens.toInt) :
    (blockSizeTokens * averageCharactersPerToken * maxPrefixBlocks).toInt =
      (maxPrefixBlocks.toInt.toNat * blockLength blockSizeTokens : ℕ) := by
  have hmax := h.max
  have hproduct := h.product
  have hnonneg : 0 ≤ 4 * blockSizeTokens.toInt * maxPrefixBlocks.toInt := mul_nonneg hpos.le hmax
  rw [Int64.toInt_mul, h.blockSize, Int.bmod_eq_of_le (by norm_num; omega) (by norm_num; omega), blockLength]
  push_cast
  rw [Int.toNat_of_nonneg hmax, Int.toNat_of_nonneg hpos.le, mul_comm]

/-- What the hashes of a request depend on. -/
def LLMRequest.Asks (lib : HashLibrary F) (targetModel cacheSalt : String) (userInput : List UInt8) (request : LLMRequest F) : Prop :=
  request.targetModel = targetModel ∧
    ∃ body, request.body = some body ∧ body.cacheSalt = cacheSalt ∧ getUserInputBytes lib body = some userInput

variable {request : LLMRequest F} {targetModel cacheSalt : String} {userInput : List UInt8}

/-- Without an overflow the blocks are the whole blocks of the input, as many as are allowed. -/
theorem blocksOf_eq (h : Fits blockSizeTokens maxPrefixBlocks) (hasks : request.Asks lib targetModel cacheSalt userInput) :
    blocksOf lib request blockSizeTokens maxPrefixBlocks =
      .ok ((wholeBlocks (blockLength blockSizeTokens) userInput).take maxPrefixBlocks.toInt.toNat) := by
  obtain ⟨-, body, hbody, -, hinput⟩ := hasks
  simp only [blocksOf, hbody, Option.bind_some, hinput, h.blockSize]
  by_cases hpos : 4 * blockSizeTokens.toInt ≤ 0
  · rw [if_pos hpos, blockLength, Int.toNat_eq_zero.2 hpos, wholeBlocks, Nat.div_zero, range_zero, map_nil, take_nil]
  · have hblock : ((blockLength blockSizeTokens : ℕ) : Int) = 4 * blockSizeTokens.toInt := Int.toNat_of_nonneg (by omega)
    have htotal := h.totalSize (by omega)
    have hcomm : maxPrefixBlocks * (blockSizeTokens * averageCharactersPerToken) =
        blockSizeTokens * averageCharactersPerToken * maxPrefixBlocks := Int64.mul_comm _ _
    rw [if_neg hpos, hcomm, sliceTo, htotal, ← hblock]
    simp only [Int.toNat_natCast]
    generalize blockLength blockSizeTokens = size at *
    generalize maxPrefixBlocks.toInt.toNat = max at *
    have hsize : 0 < size := by omega
    split
    · rename_i hshort
      rw [wholeBlocks, Nat.div_eq_of_lt (by omega), range_zero, map_nil, take_nil]
    · rw [take_wholeBlocks]
      split
      · -- the input is cut to the blocks that are allowed
        rename_i hlong
        rw [if_neg (by omega), slice_ok (Nat.zero_le _) (by omega), ok_bind, drop_zero, Nat.sub_zero, blocks_eq hsize _ _ le_rfl]
      · rename_i hall
        rw [ok_bind, blocks_eq hsize _ _ le_rfl, take_of_length_le (by omega)]

theorem hashPrompt_eq (h : Fits blockSizeTokens maxPrefixBlocks) (hasks : request.Asks lib targetModel cacheSalt userInput) :
    hashPrompt lib (some request) blockSizeTokens maxPrefixBlocks =
      .ok (hashBlocks lib ((wholeBlocks (blockLength blockSizeTokens) userInput).take maxPrefixBlocks.toInt.toNat)
        (lib.sum64 (textBytes targetModel ++ if cacheSalt ≠ "" then textBytes cacheSalt else []))) := by
  rw [hashPrompt, blocksOf_eq h hasks]
  obtain ⟨rfl, body, hbody, rfl, -⟩ := hasks
  rw [LLMRequest.start, hbody]
  rfl

theorem length_hashes (size max : ℕ) (userInput : List UInt8) (prev : BlockHash) :
    (hashBlocks lib ((wholeBlocks size userInput).take max) prev).length = min (userInput.length / size) max := by
  rw [length_hashBlocks, length_take, wholeBlocks, length_map, length_range, min_comm]

end Prefixes

/-- Requests for the same model and with the same salt, where the products fit: there is a hash for each whole block up to
the maximum, none if there is no whole block, and on the blocks on which the inputs agree the hashes agree. -/
theorem hashPrompt_prefixes (lib : HashLibrary F) (request request' : LLMRequest F) (targetModel cacheSalt : String)
    (userInput userInput' : List UInt8) (h : request.Asks lib targetModel cacheSalt userInput)
    (h' : request'.Asks lib targetModel cacheSalt userInput') (blockSizeTokens maxPrefixBlocks : Int64)
    (hfits : Fits blockSizeTokens maxPrefixBlocks) :
    ∃ hashes hashes', hashPrompt lib (some request) blockSizeTokens maxPrefixBlocks = .ok hashes ∧
      hashPrompt lib (some request') blockSizeTokens maxPrefixBlocks = .ok hashes' ∧
      hashes.length = min (userInput.length / blockLength blockSizeTokens) maxPrefixBlocks.toInt.toNat ∧
      (userInput.length < blockLength blockSizeTokens → hashes = []) ∧
      ∀ k, userInput.take (k * blockLength blockSizeTokens) = userInput'.take (k * blockLength blockSizeTokens) →
        hashes.take (min k maxPrefixBlocks.toInt.toNat) = hashes'.take (min k maxPrefixBlocks.toInt.toNat) := by
  refine ⟨_, _, hashPrompt_eq hfits h, hashPrompt_eq hfits h', length_hashes .., fun hshort => ?_, fun k hagree => ?_⟩
  · have hnone : min (userInput.length / blockLength blockSizeTokens) maxPrefixBlocks.toInt.toNat = 0 := by
      rw [Nat.div_eq_of_lt hshort, Nat.zero_min]
    exact length_eq_zero_iff.1 ((length_hashes ..).trans hnone)
  · have hblocks := take_wholeBlocks (blockLength blockSizeTokens) k userInput
    rw [hagree, ← take_wholeBlocks] at hblocks
    simp only [take_hashBlocks, take_take, min_assoc, min_self]
    rw [min_comm, ← take_take, hblocks, take_take]

/-- Two blocks of four bytes, the first of which is the same. -/
theorem hashPrompt_prefixes_two : ∃ hashes hashes',
    hashPrompt plainLibrary (some (embedding "m" "x" [1, 2, 3, 4, 5, 6, 7, 8, 9])) 1 2 = .ok hashes ∧
      hashPrompt plainLibrary (some (embedding "m" "x" [1, 2, 3, 4, 0, 0, 0, 0])) 1 2 = .ok hashes' ∧ hashes.length = 2 ∧
      hashes.take 1 = hashes'.take 1 := by
  obtain ⟨hashes, hashes', hok, hok', hlen, -, hagree⟩ := hashPrompt_prefixes plainLibrary
    (embedding "m" "x" [1, 2, 3, 4, 5, 6, 7, 8, 9]) (embedding "m" "x" [1, 2, 3, 4, 0, 0, 0, 0]) "m" "x" _ _
    ⟨rfl, _, rfl, rfl, rfl⟩ ⟨rfl, _, rfl, rfl, rfl⟩ 1 2 ⟨by decide, by decide, by decide, by decide⟩
  exact ⟨hashes, hashes', hok, hok', hlen, hagree 1 (by decide)⟩

/-- Blocks of 64 bytes and the largest maximum: the length to cut to is negative, as it is for a negative maximum. With
`2^62` blocks of four bytes it is zero. A block of `2^62 + 1` tokens is taken for one of four bytes. -/
theorem hashPrompt_overflows :
    hashPrompt plainLibrary (some (embedding "m" "" (replicate 64 0))) 16 9223372036854775807 = .error .sliceBounds ∧
    hashPrompt plainLibrary (some (embedding "m" "" (replicate 64 0))) 16 (-1) = .error .sliceBounds ∧
    hashPrompt plainLibrary (some (embedding "m" "" (replicate 64 0))) 1 4611686018427387904 = .ok [] ∧
    ∃ hash, hashPrompt plainLibrary (some (embedding "m" "" (replicate 4 0))) 4611686018427387905 1 = .ok [hash] := by
  refine ⟨by decide +kernel, by decide +kernel, by decide +kernel, _, rfl⟩

end InferenceGateway.ApproximatePrefix
