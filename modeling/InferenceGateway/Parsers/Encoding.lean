import InferenceGateway.Lib.Fields
import InferenceGateway.Lib.Numerals
import InferenceGateway.Parsers.Json
/-!
# JSON as Go encodes it

`json.Marshal` of a decoded value. An object is a map once it is decoded: its fields are
written in the order of their keys, and a number is a `float64` that is printed. So what
is decoded and encoded again stands for the same value if its numbers do.
-/

namespace InferenceGateway.Parsers

open Lib List Json

/-! ## Writing -/

/-- The entries of a map in the order in which they are written. -/
def sortedFields {α : Type} (entries : List (String × α)) : List (String × α) :=
  ((entries.map Prod.fst).dedup.insertionSort (· ≤ ·)).filterMap fun key =>
    (entries.reverse.lookup key).map fun x => (key, x)

section Encode
variable {F : Type} (formatFloat : F → String)

mutual

def encodeAny : Any F → Json
  | .nil => .null
  | .bool b => .bool b
  | .float x => .num (formatFloat x)
  | .str s => .str s
  | .arr xs => .arr (encodeList xs)
  | .map entries => .obj (sortedFields (encodeEntries entries))

def encodeList : List (Any F) → List Json
  | [] => []
  | x :: xs => encodeAny x :: encodeList xs

def encodeEntries : List (String × Any F) → List (String × Json)
  | [] => []
  | (key, x) :: rest => (key, encodeAny x) :: encodeEntries rest

end

end Encode

/-- How maps are written. A text that is written can be read, and stands for the map. -/
structure Codec (lib : Library) where
  formatFloat : lib.Float64 → String
  marshal : List (String × Any lib.Float64) → Option (List UInt8)
  marshal_parse : ∀ m text, marshal m = some text → lib.parse text = some (encodeAny formatFloat (.map m))

/-! ## The value of a text -/

namespace Json

/-- The same value: numbers are told by what they stand for, and the order of the fields
of an object does not matter. -/
inductive Same : Json → Json → Prop where
  | null : Same .null .null
  | bool (b : Bool) : Same (.bool b) (.bool b)
  | num {literal literal' : String} (h : literalValue literal = literalValue literal') :
      Same (.num literal) (.num literal')
  | str (s : String) : Same (.str s) (.str s)
  | arr {xs ys : List Json} (h : List.Forall₂ Same xs ys) : Same (.arr xs) (.arr ys)
  | obj {fields fields' : List (String × Json)}
      (h : ∀ key, Option.Rel Same (fields.lookup key) (fields'.lookup key)) : Same (.obj fields) (.obj fields')

mutual

/-- The numbers in a value, at any depth. -/
def numbers : Json → List String
  | .num literal => [literal]
  | .arr xs => numbersOfList xs
  | .obj fields => numbersOfFields fields
  | _ => []

def numbersOfList : List Json → List String
  | [] => []
  | x :: xs => numbers x ++ numbersOfList xs

def numbersOfFields : List (String × Json) → List String
  | [] => []
  | (_, x) :: rest => numbers x ++ numbersOfFields rest

end

mutual

/-- No object in a value has a key twice. -/
def DistinctKeys : Json → Prop
  | .arr xs => DistinctInList xs
  | .obj fields => (fields.map Prod.fst).Nodup ∧ DistinctInFields fields
  | _ => True

def DistinctInList : List Json → Prop
  | [] => True
  | x :: xs => DistinctKeys x ∧ DistinctInList xs

def DistinctInFields : List (String × Json) → Prop
  | [] => True
  | (_, x) :: rest => DistinctKeys x ∧ DistinctInFields rest

end

theorem induct {P : Json → Prop} (null : P .null) (bool : ∀ b, P (.bool b)) (num : ∀ literal, P (.num literal))
    (str : ∀ s, P (.str s)) (arr : ∀ xs, (∀ x ∈ xs, P x) → P (.arr xs))
    (obj : ∀ fields, (∀ f ∈ fields, P f.2) → P (.obj fields)) : ∀ j, P j
  | .null => null
  | .bool b => bool b
  | .num literal => num literal
  | .str s => str s
  | .arr xs => arr xs fun x hx =>
    have := sizeOf_lt_of_mem hx
    induct null bool num str arr obj x
  | .obj fields => obj fields fun f hf =>
    have := sizeOf_lt_of_mem hf
    have : sizeOf f.2 < sizeOf f := by cases f; simp
    induct null bool num str arr obj f.2

theorem numbersOfList_eq (xs : List Json) : numbersOfList xs = xs.flatMap numbers := by
  induction xs with
  | nil => rfl
  | cons x xs ih => rw [numbersOfList, ih, flatMap_cons]

theorem numbersOfFields_eq (fields : List (String × Json)) : numbersOfFields fields = fields.flatMap fun f => numbers f.2 := by
  induction fields with
  | nil => rfl
  | cons f fields ih => rw [numbersOfFields, ih, flatMap_cons]

theorem distinctInList_iff (xs : List Json) : DistinctInList xs ↔ ∀ x ∈ xs, DistinctKeys x := by
  induction xs with
  | nil => simp [DistinctInList]
  | cons x xs ih => rw [DistinctInList, ih, forall_mem_cons]

theorem distinctInFields_iff (fields : List (String × Json)) : DistinctInFields fields ↔ ∀ f ∈ fields, DistinctKeys f.2 := by
  induction fields with
  | nil => simp [DistinctInFields]
  | cons f fields ih => rw [DistinctInFields, ih, forall_mem_cons]

end Json

/-! ## Maps as lists of entries -/

section Entries
variable {α : Type} {entries : List (String × α)} {key : String}

/-- Of a key the last entry is written. -/
theorem lookup_sortedFields : (sortedFields entries).lookup key = entries.reverse.lookup key := by
  rw [sortedFields, lookup_filterMap_keys]
  split
  · rfl
  · rename_i hkey
    symm
    rw [Option.eq_none_iff_forall_ne_some]
    intro x hx
    refine hkey ?_
    rw [mem_insertionSort, mem_dedup]
    exact List.mem_map.2 ⟨_, mem_reverse.1 (mem_of_lookup hx), rfl⟩

end Entries

/-! ## There and back -/

section Recode
variable {lib : Library} (formatFloat : lib.Float64 → String)

/-- A value that is decoded and encoded again. -/
def recode (j : Json) : Json := encodeAny formatFloat (decodeAny lib j).1

/-- The number is printed as one that stands for the same. -/
def Exact (literal : String) : Prop :=
  ∃ x, lib.parseFloat literal = some x ∧ literalValue literal = literalValue (formatFloat x)

theorem recodeList_eq (xs : List Json) : encodeList formatFloat (decodeList lib xs).1 = xs.map (recode formatFloat) := by
  induction xs with
  | nil => rfl
  | cons x xs ih => rw [decodeList, encodeList, ih, map_cons, recode]

theorem encodeEntries_eq {F : Type} (formatFloat : F → String) (entries : List (String × Any F)) :
    encodeEntries formatFloat entries = entries.map fun e => (e.1, encodeAny formatFloat e.2) := by
  induction entries with
  | nil => rfl
  | cons e rest ih => rw [encodeEntries, ih, map_cons]

omit formatFloat in
theorem decodeEntries_eq (fields : List (String × Json)) :
    (decodeEntries lib fields).1 = fields.map fun f => (f.1, (decodeAny lib f.2).1) := by
  induction fields with
  | nil => rfl
  | cons f fields ih => rw [decodeEntries, ih, map_cons]

omit formatFloat in
theorem decodeList_ok {xs : List Json} (h : (decodeList lib xs).2 = false) : ∀ x ∈ xs, (decodeAny lib x).2 = false := by
  induction xs with
  | nil => simp
  | cons x xs ih =>
    rw [decodeList, Bool.or_eq_false_iff] at h
    exact forall_mem_cons.2 ⟨h.1, ih h.2⟩

variable {fields : List (String × Json)}

omit formatFloat in
theorem decodeEntries_ok (h : (decodeEntries lib fields).2 = false) : ∀ f ∈ fields, (decodeAny lib f.2).2 = false := by
  induction fields with
  | nil => simp
  | cons f fields ih =>
    rw [decodeEntries, Bool.or_eq_false_iff] at h
    exact forall_mem_cons.2 ⟨h.1, ih h.2⟩

theorem same_fields_iff (hkeys : (fields.map Prod.fst).Nodup) (f : Json → Json) (p : String → Prop) :
    (∀ key, p key → Option.Rel Json.Same (fields.lookup key) ((fields.lookup key).map f)) ↔
      ∀ e ∈ fields, p e.1 → e.2.Same (f e.2) := by
  refine ⟨fun h e he hp => ?_, fun h key hp => ?_⟩
  · have hrel := h e.1 hp
    rw [lookup_of_mem hkeys he, Option.map_some] at hrel
    cases hrel with
    | some hsame => exact hsame
  · cases hlookup : fields.lookup key with
    | none => exact .none
    | some x => exact .some (h (key, x) (mem_of_lookup hlookup) hp)

/-- Of an object every field comes back as itself, encoded. -/
theorem lookup_recoded (hkeys : (fields.map Prod.fst).Nodup) (key : String) :
    (sortedFields (encodeEntries formatFloat (decodeEntries lib fields).1)).lookup key =
      (fields.lookup key).map (recode formatFloat) := by
  rw [lookup_sortedFields, encodeEntries_eq, decodeEntries_eq, map_map, lookup_reverse]
  · exact lookup_map_snd (recode formatFloat)
  · simpa [map_map, Function.comp_def] using hkeys

/-- Only a number may come back as another one. -/
theorem same_recode_iff (j : Json) (hkeys : j.DistinctKeys) (hok : (decodeAny lib j).2 = false) :
    j.Same (recode formatFloat j) ↔ ∀ literal ∈ j.numbers, Exact formatFloat literal := by
  induction j using induct with
  | null => simp [recode, decodeAny, encodeAny, numbers, Json.Same.null]
  | bool b => simp [recode, decodeAny, encodeAny, numbers, Json.Same.bool]
  | str s => simp [recode, decodeAny, encodeAny, numbers, Json.Same.str]
  | num literal =>
    cases hx : lib.parseFloat literal with
    | none => simp [decodeAny, hx] at hok
    | some x =>
      simp only [recode, decodeAny, hx, encodeAny, numbers, forall_mem_singleton, Exact, Option.some.injEq,
        exists_eq_left']
      refine ⟨fun h => ?_, .num⟩
      cases h with
      | num hvalue => exact hvalue
  | arr xs ih =>
    rw [Json.DistinctKeys, distinctInList_iff] at hkeys
    rw [decodeAny] at hok
    have helem : ∀ x ∈ xs, (x.Same (recode formatFloat x) ↔ ∀ literal ∈ x.numbers, Exact formatFloat literal) :=
      fun x hx => ih x hx (hkeys x hx) (decodeList_ok hok x hx)
    calc Json.Same (.arr xs) (recode formatFloat (.arr xs))
        ↔ List.Forall₂ Json.Same xs (xs.map (recode formatFloat)) := by
          rw [recode, decodeAny, encodeAny, recodeList_eq]
          refine ⟨fun h => ?_, .arr⟩
          cases h with
          | arr h => exact h
      _ ↔ ∀ x ∈ xs, x.Same (recode formatFloat x) := by
          rw [forall₂_map_right_iff, forall₂_same]
      _ ↔ ∀ x ∈ xs, ∀ literal ∈ x.numbers, Exact formatFloat literal := forall₂_congr helem
      _ ↔ ∀ literal ∈ (arr xs).numbers, Exact formatFloat literal := by
          rw [numbers, numbersOfList_eq, forall_mem_flatMap]
  | obj fields ih =>
    rw [Json.DistinctKeys, distinctInFields_iff] at hkeys
    rw [decodeAny] at hok
    have hfield : ∀ f ∈ fields, (f.2.Same (recode formatFloat f.2) ↔ ∀ literal ∈ f.2.numbers, Exact formatFloat literal) :=
      fun f hf => ih f hf (hkeys.2 f hf) (decodeEntries_ok hok f hf)
    calc Json.Same (.obj fields) (recode formatFloat (.obj fields))
        ↔ ∀ key, Option.Rel Json.Same (fields.lookup key) ((fields.lookup key).map (recode formatFloat)) := by
          rw [recode, decodeAny, encodeAny]
          simp only [← lookup_recoded formatFloat hkeys.1]
          refine ⟨fun h => ?_, .obj⟩
          cases h with
          | obj h => exact h
      _ ↔ ∀ f ∈ fields, f.2.Same (recode formatFloat f.2) := by
          simpa using same_fields_iff hkeys.1 (recode formatFloat) fun _ => True
      _ ↔ ∀ f ∈ fields, ∀ literal ∈ f.2.numbers, Exact formatFloat literal := forall₂_congr hfield
      _ ↔ ∀ literal ∈ (obj fields).numbers, Exact formatFloat literal := by
          rw [numbers, numbersOfFields_eq, forall_mem_flatMap]

end Recode

end InferenceGateway.Parsers
