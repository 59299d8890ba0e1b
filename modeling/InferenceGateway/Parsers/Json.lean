import Mathlib
/-!
# What parsers return, and JSON as Go decodes it

The part of `encoding/json` that the parsers rest on. The syntax is a parameter: a
text is valid and stands for a `Json`, or it is not. A value that does not fit where
it should go leaves what is there as it is, and the rest is decoded all the same; the
call then returns an error. So decoding gives the new contents and whether there was
an error.
-/

namespace InferenceGateway.Parsers

/-! ## Results

Token counts are Go's `int`.
-/

structure PromptTokenDetails where
  cachedTokens : Int64
deriving DecidableEq, Repr

structure Usage where
  promptTokens : Int64
  completionTokens : Int64
  totalTokens : Int64
  promptTokenDetails : Option PromptTokenDetails
deriving DecidableEq, Repr

structure ParsedResponse where
  usage : Option Usage
deriving DecidableEq, Repr

/-! ## JSON -/

inductive Json where
  | null
  | bool (b : Bool)
  /-- A number is kept as it is written. -/
  | num (literal : String)
  | str (s : String)
  | arr (xs : List Json)
  | obj (fields : List (String × Json))

/-- A value of type `any`. In a map the last entry of a key counts. -/
inductive Any (F : Type) where
  | nil
  | bool (b : Bool)
  | float (x : F)
  | str (s : String)
  | arr (xs : List (Any F))
  | map (entries : List (String × Any F))

/-- What is taken from Go's libraries. -/
structure Library where
  Float64 : Type
  /-- `none` when the number is out of range. -/
  parseFloat : String → Option Float64
  /-- `int(x)`. -/
  toInt : Float64 → Int64
  parseInt : String → Option Int64
  /-- The text of a valid JSON value. -/
  parse : List UInt8 → Option Json
  /-- Field names are the same when they fold to the same. -/
  foldName : String → String

namespace Any

variable {F : Type}

/-- `m[key]`, with the second value of the lookup. -/
def find (m : List (String × Any F)) (key : String) : Option (Any F) := m.reverse.lookup key

/-- `m[key]`; `nil` stands for a missing key too. -/
def get (m : List (String × Any F)) (key : String) : Any F := (find m key).getD .nil

def isNil : Any F → Bool
  | .nil => true
  | _ => false

end Any

variable (lib : Library)

mutual

/-- Into an `any`. -/
def decodeAny : Json → Any lib.Float64 × Bool
  | .null => (.nil, false)
  | .bool b => (.bool b, false)
  | .num literal =>
    match lib.parseFloat literal with
    | some x => (.float x, false)
    | none => (.nil, true)
  | .str s => (.str s, false)
  | .arr xs => (.arr (decodeList xs).1, (decodeList xs).2)
  | .obj fields => (.map (decodeEntries fields).1, (decodeEntries fields).2)

def decodeList : List Json → List (Any lib.Float64) × Bool
  | [] => ([], false)
  | x :: xs => ((decodeAny x).1 :: (decodeList xs).1, (decodeAny x).2 || (decodeList xs).2)

def decodeEntries : List (String × Json) → List (String × Any lib.Float64) × Bool
  | [] => ([], false)
  | (key, x) :: rest => ((key, (decodeAny x).1) :: (decodeEntries rest).1, (decodeAny x).2 || (decodeEntries rest).2)

end

/-- Into a `map[string]any`, which keeps the entries it has. -/
def decodeMap (old : Option (List (String × Any lib.Float64))) : Json → Option (List (String × Any lib.Float64)) × Bool
  | .null => (none, false)
  | .obj fields => (some (old.getD [] ++ (decodeEntries lib fields).1), (decodeEntries lib fields).2)
  | _ => (old, true)

def decodeInt (old : Int64) : Json → Int64 × Bool
  | .null => (old, false)
  | .num literal =>
    match lib.parseInt literal with
    | some n => (n, false)
    | none => (old, true)
  | _ => (old, true)

def decodeString (old : String) : Json → String × Bool
  | .null => (old, false)
  | .str s => (s, false)
  | _ => (old, true)

/-- The field a key stands for: the one of that name, or one that differs in case. -/
def matchField (names : List String) (key : String) : Option String :=
  if key ∈ names then some key else names.find? fun name => lib.foldName name = lib.foldName key

section Structs
variable {σ : Type}

/-- Into a struct with these fields; `set` decodes one of them. -/
def decodeStruct (names : List String) (set : σ → String → Json → σ × Bool) (old : σ) : Json → σ × Bool
  | .null => (old, false)
  | .obj fields =>
    fields.foldl (fun (s : σ × Bool) (f : String × Json) =>
      match matchField lib names f.1 with
      | none => s
      | some name => ((set s.1 name f.2).1, s.2 || (set s.1 name f.2).2)) (old, false)
  | _ => (old, true)

/-- Into a pointer to a struct, which is allocated unless the value is `null`. -/
def decodePointer (decode : σ → Json → σ × Bool) (zero : σ) (old : Option σ) : Json → Option σ × Bool
  | .null => (none, false)
  | j => (some (decode (old.getD zero) j).1, (decode (old.getD zero) j).2)

end Structs

/-- The values that are given for a field. -/
def fieldValues (names : List String) (name : String) : Json → List Json
  | .obj fields => (fields.filter fun f => matchField lib names f.1 = some name).map Prod.snd
  | _ => []

section Structs
variable {lib} {σ β : Type} {names : List String} {set : σ → String → Json → σ × Bool}

theorem mem_of_matchField {key name : String} (h : matchField lib names key = some name) : name ∈ names := by
  unfold matchField at h
  split at h
  · rename_i hmem
    cases h
    exact hmem
  · exact List.mem_of_find?_eq_some h

/-- A field of the struct is what its own values make of it. -/
theorem decodeStruct_field (field : σ → β) (step : β → Json → β) (name : String)
    (hset : ∀ s, ∀ n ∈ names, ∀ v, field (set s n v).1 = if n = name then step (field s) v else field s) (old : σ) (j : Json) :
    field (decodeStruct lib names set old j).1 = (fieldValues lib names name j).foldl step (field old) := by
  cases j with
  | obj fields =>
    suffices h : ∀ s : σ × Bool, field (fields.foldl (fun (s : σ × Bool) (f : String × Json) =>
        match matchField lib names f.1 with
        | none => s
        | some name => ((set s.1 name f.2).1, s.2 || (set s.1 name f.2).2)) s).1 =
          ((fields.filter fun f => matchField lib names f.1 = some name).map Prod.snd).foldl step (field s.1) from h (old, false)
    induction fields with
    | nil => exact fun _ => rfl
    | cons f fields ih =>
      intro s
      rw [List.foldl_cons, ih, List.filter_cons]
      cases hname : matchField lib names f.1 with
      | none => simp
      | some n =>
        have hn := hset s.1 n (mem_of_matchField hname) f.2
        by_cases h : n = name
        · rw [if_pos h] at hn
          simp [h, ← hn]
        · rw [if_neg h] at hn
          simp [h, hn]
  | null | bool | num | str | arr => rfl

/-- Whether there is an error does not depend on what is there. -/
theorem decodeStruct_error (hset : ∀ s s' n v, (set s n v).2 = (set s' n v).2) (old old' : σ) (j : Json) :
    (decodeStruct lib names set old j).2 = (decodeStruct lib names set old' j).2 := by
  cases j with
  | obj fields =>
    refine List.foldl_rel (r := fun s s' : σ × Bool => s.2 = s'.2) rfl fun f _ s s' hs => ?_
    cases hname : matchField lib names f.1 with
    | none => simpa only [hname] using hs
    | some n => simp only [hs, hset s.1 s'.1 n f.2]
  | null | bool | num | str | arr => rfl

theorem decodeInt_error (old old' : Int64) (j : Json) : (decodeInt lib old j).2 = (decodeInt lib old' j).2 := by
  cases j with
  | num literal =>
    simp only [decodeInt]
    cases lib.parseInt literal <;> rfl
  | null | bool | str | arr | obj => rfl

theorem decodePointer_error {decode : σ → Json → σ × Bool} (hdecode : ∀ s s' j, (decode s j).2 = (decode s' j).2) {zero : σ}
    (old old' : Option σ) (j : Json) : (decodePointer decode zero old j).2 = (decodePointer decode zero old' j).2 := by
  cases j with
  | null => rfl
  | bool | num | str | arr | obj => exact hdecode ..

end Structs

end InferenceGateway.Parsers
