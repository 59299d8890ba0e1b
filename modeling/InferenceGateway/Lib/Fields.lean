import Mathlib
/-!
# Named fields

A list of fields, such as the headers of a message: a name may occur more than once,
and two names are the same when `norm` takes them to the same. In a list of entries that
stands for a map the first entry of a key counts.
-/

namespace InferenceGateway.Lib

open List

section Fields
variable {K N V : Type} [DecidableEq N] (norm : K → N)

/-- The values under a name, in order. -/
def values (fields : List (K × V)) (name : N) : List V := (fields.filter fun f => norm f.1 = name).map Prod.snd

/-- A field in place of all others of its name. -/
def put (fields : List (K × V)) (f : K × V) : List (K × V) := (fields.filter fun g => norm g.1 ≠ norm f.1) ++ [f]

/-- The fields of other names. -/
def without (fields : List (K × V)) (k : K) : List (K × V) := fields.filter fun g => norm g.1 ≠ norm k

variable {norm} {fields : List (K × V)} {name : N}

theorem values_eq_nil : values norm fields name = [] ↔ ∀ f ∈ fields, norm f.1 ≠ name := by
  simp [values, filter_eq_nil_iff]

theorem values_put_self (fields : List (K × V)) (f : K × V) : values norm (put norm fields f) (norm f.1) = [f.2] := by
  simp [values, put, filter_filter]

theorem values_put_of_ne (fields : List (K × V)) {f : K × V} (h : norm f.1 ≠ name) :
    values norm (put norm fields f) name = values norm fields name := by
  have hfilter : (fields.filter fun g => norm g.1 ≠ norm f.1).filter (fun g => norm g.1 = name) =
      fields.filter fun g => norm g.1 = name := by
    rw [filter_filter]
    refine filter_congr fun g _ => ?_
    by_cases hg : norm g.1 = name
    · simp [hg, Ne.symm h]
    · simp [hg]
  rw [values, put, filter_append, hfilter]
  simp [values, h]

/-- Fields of other names do not count. -/
theorem values_puts_of_ne {fs : List (K × V)} (h : ∀ f ∈ fs, norm f.1 ≠ name) : ∀ fields : List (K × V),
    values norm (fs.foldl (put norm) fields) name = values norm fields name := by
  induction fs with
  | nil => exact fun _ => rfl
  | cons f fs ih =>
    intro fields
    rw [foldl_cons, ih fun g hg => h g (mem_cons_of_mem _ hg), values_put_of_ne _ (h f mem_cons_self)]

/-- Of the fields put, the last of a name counts. -/
theorem values_puts (fs : List (K × V)) (f : K × V) {gs : List (K × V)} (h : ∀ g ∈ gs, norm g.1 ≠ norm f.1)
    (fields : List (K × V)) :
    values norm ((fs ++ f :: gs).foldl (put norm) fields) (norm f.1) = [f.2] := by
  rw [foldl_append, foldl_cons, values_puts_of_ne h, values_put_self]

end Fields

section Entries
variable {K V W : Type} [DecidableEq K] {entries : List (K × V)} {key : K} {x : V}

theorem mem_of_lookup (h : entries.lookup key = some x) : (key, x) ∈ entries := by
  obtain ⟨l₁, l₂, rfl, -⟩ := lookup_eq_some_iff.1 h
  simp

theorem lookup_of_mem (hkeys : (entries.map Prod.fst).Nodup) (h : (key, x) ∈ entries) : entries.lookup key = some x := by
  induction entries with
  | nil => cases h
  | cons e rest ih =>
    rw [map_cons, nodup_cons] at hkeys
    rcases mem_cons.1 h with rfl | hrest
    · simp
    · have hne : key ≠ e.1 := by
        rintro rfl
        exact hkeys.1 (List.mem_map.2 ⟨_, hrest, rfl⟩)
      rw [lookup_cons, beq_false_of_ne hne]
      exact ih hkeys.2 hrest

theorem lookup_reverse (hkeys : (entries.map Prod.fst).Nodup) : entries.reverse.lookup key = entries.lookup key := by
  have hkeys' : (entries.reverse.map Prod.fst).Nodup := by
    rw [map_reverse]
    exact nodup_reverse.2 hkeys
  refine Option.ext fun x => ⟨fun h => ?_, fun h => ?_⟩
  · exact lookup_of_mem hkeys (mem_reverse.1 (mem_of_lookup h))
  · exact lookup_of_mem hkeys' (mem_reverse.2 (mem_of_lookup h))

theorem lookup_map_snd (f : V → W) : (entries.map fun e => (e.1, f e.2)).lookup key = (entries.lookup key).map f := by
  induction entries with
  | nil => rfl
  | cons e rest ih =>
    rw [map_cons, lookup_cons, lookup_cons, ih]
    cases key == e.1 <;> rfl

theorem lookup_filterMap_keys (keys : List K) (f : K → Option V) :
    (keys.filterMap fun k => (f k).map fun x => (k, x)).lookup key = if key ∈ keys then f key else none := by
  induction keys with
  | nil => rfl
  | cons k keys ih =>
    rw [filterMap_cons]
    by_cases hk : key = k
    · subst hk
      cases hf : f key with
      | none => simp [ih, hf]
      | some x => simp
    · cases hf : f k with
      | none => simp [ih, hk]
      | some x => simp [ih, hk, lookup_cons, beq_false_of_ne hk]

theorem lookup_filter_ne (entries : List (K × V)) {old : K} (h : key ≠ old) :
    (entries.filter fun e => e.1 ≠ old).lookup key = entries.lookup key := by
  induction entries with
  | nil => rfl
  | cons e rest ih =>
    by_cases he : e.1 = old
    · rw [filter_cons_of_neg (by simpa using he), ih, lookup_cons, he, beq_false_of_ne h]
    · rw [filter_cons_of_pos (by simpa using he), lookup_cons, lookup_cons, ih]

end Entries

end InferenceGateway.Lib
