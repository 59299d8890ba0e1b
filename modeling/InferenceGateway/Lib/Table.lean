import Mathlib
/-!
# Maps

A Go map is a finite map without an order, here Mathlib's `AList`. This adds
what the loops over maps need: a change of every value, and the sum of a figure
over all entries.
-/

namespace InferenceGateway.Lib

open List AList

abbrev Table (K V : Type) := AList (fun _ : K => V)

namespace Table

variable {K V W : Type}

/-- Every value changed, the keys kept. -/
def mapVals (f : K → V → W) (t : Table K V) : Table K W where
  entries := t.entries.map fun e => ⟨e.1, f e.1 e.2⟩
  nodupKeys := by
    have h : (t.entries.map fun e => (⟨e.1, f e.1 e.2⟩ : Sigma fun _ : K => W)).keys = t.entries.keys := by
      simp [List.keys, map_map, Function.comp_def]
    change List.Nodup _
    rw [h]
    exact t.nodupKeys

/-- Some of the entries, with their values changed. -/
def filterMapVals (f : K → V → Option W) (t : Table K V) : Table K W where
  entries := t.entries.filterMap fun e => (f e.1 e.2).map fun w => ⟨e.1, w⟩
  nodupKeys := by
    refine List.Nodup.sublist ?_ t.nodupKeys
    rw [List.keys, map_filterMap]
    induction t.entries with
    | nil => exact .slnil
    | cons e l ih =>
      rw [filterMap_cons]
      cases f e.1 e.2 with
      | none => exact ih.cons _
      | some w => exact ih.cons_cons _

/-- The sum of `f` over all entries. -/
def total {M : Type} [AddCommGroup M] (f : K → V → M) (t : Table K V) : M := (t.entries.map fun e => f e.1 e.2).sum

@[simp] theorem keys_mapVals (f : K → V → W) (t : Table K V) : (mapVals f t).keys = t.keys := by
  simp [mapVals, AList.keys, List.keys, map_map, Function.comp_def]

variable {t : Table K V} {k : K}

@[simp] theorem mem_mapVals {f : K → V → W} : k ∈ mapVals f t ↔ k ∈ t := by
  rw [AList.mem_keys, AList.mem_keys, keys_mapVals]

variable [DecidableEq K]

theorem lookup_mapVals (f : K → V → W) (t : Table K V) (k : K) :
    (mapVals f t).lookup k = (t.lookup k).map (f k) := by
  simp only [AList.lookup, mapVals]
  exact dlookup_map₂ k

omit [DecidableEq K] in
theorem mapVals_congr {f g : K → V → W} (h : ∀ k ∈ t, ∀ v, f k v = g k v) : mapVals f t = mapVals g t := by
  refine AList.ext (map_congr_left fun e he => ?_)
  rw [h e.1 (AList.mem_keys.2 (mem_map_of_mem he)) e.2]

theorem lookup_filterMapVals (f : K → V → Option W) (t : Table K V) (k : K) :
    (filterMapVals f t).lookup k = (t.lookup k).bind (f k) := by
  simp only [AList.lookup, filterMapVals]
  have hnd := t.nodupKeys
  generalize t.entries = l at hnd ⊢
  induction l with
  | nil => rfl
  | cons e l ih =>
    obtain ⟨k', v⟩ := e
    rw [nodupKeys_cons] at hnd
    rw [filterMap_cons]
    by_cases hk : k = k'
    · subst hk
      rw [dlookup_cons_eq]
      cases hf : f k v with
      | none =>
        simp only [hf, Option.map_none, Option.bind_some]
        rw [ih hnd.2, dlookup_eq_none.2 hnd.1]; rfl
      | some w => simp [hf]
    · rw [dlookup_cons_ne l (⟨k', v⟩ : Sigma fun _ : K => V) hk, ← ih hnd.2]
      cases f k' v with
      | none => simp
      | some w =>
        simp only [Option.map_some]
        rw [dlookup_cons_ne _ (⟨k', w⟩ : Sigma fun _ : K => W) hk]

/-- A map built by a loop over another one: every value filed under its own key. -/
def collect (key : V → K) (f : V → W) (t : Table K V) : Table K W :=
  t.entries.foldl (fun acc e => acc.insert (key e.2) (f e.2)) ∅

theorem lookup_foldl_insert (f : V → W) (k : K) (l : List (Sigma fun _ : K => V)) : ∀ acc : Table K W, l.NodupKeys →
    (l.foldl (fun acc e => acc.insert e.1 (f e.2)) acc).lookup k = ((l.dlookup k).map f).or (acc.lookup k) := by
  induction l with
  | nil => intro acc _; rfl
  | cons e l ih =>
    intro acc hnd
    obtain ⟨k', v⟩ := e
    rw [nodupKeys_cons] at hnd
    rw [foldl_cons, ih _ hnd.2]
    by_cases hk : k = k'
    · subst hk
      rw [dlookup_cons_eq, dlookup_eq_none.2 hnd.1]
      simp
    · rw [lookup_insert_ne hk, dlookup_cons_ne l (⟨k', v⟩ : Sigma fun _ : K => V) hk]

/-- When the values know their keys, that is the same map with its values changed. -/
theorem lookup_collect {key : V → K} (f : V → W) (hkey : ∀ e ∈ t.entries, key e.2 = e.1) (k : K) :
    (collect key f t).lookup k = (t.lookup k).map f := by
  have hfold : collect key f t = t.entries.foldl (fun acc e => acc.insert e.1 (f e.2)) ∅ := by
    unfold collect
    refine foldl_ext _ _ _ fun acc e he => ?_
    rw [hkey e he]
  rw [hfold, lookup_foldl_insert f k t.entries ∅ t.nodupKeys, lookup_empty, Option.or_none]
  rfl

theorem mem_iff_lookup : k ∈ t ↔ ∃ v, t.lookup k = some v := by
  rw [← lookup_isSome, Option.isSome_iff_exists]

variable {v : V}

theorem mem_of_lookup (h : t.lookup k = some v) : k ∈ t :=
  mem_iff_lookup.2 ⟨v, h⟩

theorem lookup_mem_entries : (⟨k, v⟩ : Sigma fun _ : K => V) ∈ t.entries ↔ t.lookup k = some v :=
  mem_lookup_iff.symm

theorem lookup_erase_ite (t : Table K V) (k k' : K) :
    (t.erase k).lookup k' = if k' = k then none else t.lookup k' := by
  by_cases h : k' = k
  · rw [if_pos h, h, lookup_erase]
  · rw [if_neg h, lookup_erase_ne h]

theorem lookup_insert_ite (t : Table K V) (k : K) (v : V) (k' : K) :
    (t.insert k v).lookup k' = if k' = k then some v else t.lookup k' := by
  by_cases h : k' = k
  · rw [if_pos h, h, lookup_insert]
  · rw [if_neg h, lookup_insert_ne h]

/-- One value under several keys. -/
def insertAll (ks : List K) (v : V) (t : Table K V) : Table K V := ks.foldl (fun t k => t.insert k v) t

theorem lookup_insertAll (ks : List K) (v : V) (t : Table K V) (k : K) :
    (insertAll ks v t).lookup k = if k ∈ ks then some v else t.lookup k := by
  induction ks generalizing t with
  | nil => rfl
  | cons k' ks ih =>
    rw [insertAll, foldl_cons, ← insertAll, ih, lookup_insert_ite]
    by_cases hks : k ∈ ks
    · rw [if_pos hks, if_pos (mem_cons_of_mem _ hks)]
    · simp only [hks, mem_cons, or_false, if_false]

def eraseAll (ks : List K) (t : Table K V) : Table K V := ks.foldl (fun t k => t.erase k) t

theorem lookup_eraseAll (ks : List K) (t : Table K V) (k : K) :
    (eraseAll ks t).lookup k = if k ∈ ks then none else t.lookup k := by
  induction ks generalizing t with
  | nil => rfl
  | cons k' ks ih =>
    rw [eraseAll, foldl_cons, ← eraseAll, ih, lookup_erase_ite]
    by_cases hks : k ∈ ks
    · rw [if_pos hks, if_pos (mem_cons_of_mem _ hks)]
    · simp only [hks, mem_cons, or_false, if_false]

/-- A loop that sets each key of a list anew from what the key had. -/
theorem lookup_foldl_update {g : Option V → W → V} (k : K) (l : List (Sigma fun _ : K => W)) (h : l.NodupKeys) :
    ∀ t : Table K V, (l.foldl (fun t e => t.insert e.1 (g (t.lookup e.1) e.2)) t).lookup k =
      match l.dlookup k with
      | none => t.lookup k
      | some w => some (g (t.lookup k) w) := by
  induction l with
  | nil => intro t; rfl
  | cons e l ih =>
    intro t
    obtain ⟨k', w⟩ := e
    rw [nodupKeys_cons] at h
    rw [foldl_cons, ih h.2]
    by_cases hk : k = k'
    · subst hk
      rw [dlookup_eq_none.2 h.1, dlookup_cons_eq, lookup_insert_ite, if_pos rfl]
    · rw [dlookup_cons_ne l (⟨k', w⟩ : Sigma fun _ : K => W) hk, lookup_insert_ite, if_neg hk]

/-! ## Sums -/

variable {M : Type} [AddCommGroup M] {f g : K → V → M}

omit [DecidableEq K] in
@[simp] theorem total_empty : total f (∅ : Table K V) = 0 := rfl

/-- The entries are one entry and the map without it. -/
theorem entries_perm (h : t.lookup k = some v) : t.entries.Perm (⟨k, v⟩ :: (t.erase k).entries) := by
  obtain ⟨b, l₁, l₂, hnot, he, hk⟩ := exists_of_kerase (AList.mem_keys.1 (mem_of_lookup h))
  have hb : b = v := by
    have : (⟨k, b⟩ : Sigma fun _ : K => V) ∈ t.entries := by rw [he]; simp
    rw [lookup_mem_entries, h] at this
    exact (Option.some.inj this).symm
  subst hb
  have herase : (t.erase k).entries = l₁ ++ l₂ := hk
  rw [herase, he]
  exact perm_middle

theorem total_eq_add_erase (h : t.lookup k = some v) : total f t = f k v + total f (t.erase k) := by
  have := ((entries_perm h).map fun e => f e.1 e.2).sum_eq
  simpa [total] using this

theorem erase_of_notMem (h : k ∉ t) : t.erase k = t :=
  AList.ext (kerase_of_notMem_keys h)

theorem total_insert (t : Table K V) (k : K) (v : V) : total f (t.insert k v) = f k v + total f (t.erase k) := by
  simp [total, entries_insert, AList.erase]

/-- Replacing a value. -/
theorem total_insert_old {v₀ : V} (h : t.lookup k = some v₀) (v : V) :
    total f (t.insert k v) = total f t + (f k v - f k v₀) := by
  rw [total_insert, total_eq_add_erase h]; abel

theorem total_insert_new (h : k ∉ t) (v : V) : total f (t.insert k v) = f k v + total f t := by
  rw [total_insert, erase_of_notMem h]

theorem total_congr (h : ∀ k v, t.lookup k = some v → f k v = g k v) : total f t = total g t := by
  unfold total
  congr 1
  refine map_congr_left fun e he => h e.1 e.2 ?_
  exact lookup_mem_entries.1 he

omit [DecidableEq K] in
theorem total_mapVals (h : K → W → M) (g : K → V → W) (t : Table K V) :
    total h (mapVals g t) = total (fun k v => h k (g k v)) t := by
  simp [total, mapVals, map_map, Function.comp_def]

section Order
variable [PartialOrder M] [IsOrderedAddMonoid M]

theorem total_nonneg (h : ∀ k v, t.lookup k = some v → 0 ≤ f k v) : 0 ≤ total f t := by
  refine sum_nonneg fun x hx => ?_
  obtain ⟨e, he, rfl⟩ := List.mem_map.1 hx
  exact h e.1 e.2 (lookup_mem_entries.1 he)

theorem le_total (hnn : ∀ k v, t.lookup k = some v → 0 ≤ f k v) (h : t.lookup k = some v) : f k v ≤ total f t := by
  rw [total_eq_add_erase h]
  have : 0 ≤ total f (t.erase k) := total_nonneg fun k' v' h' => by
    by_cases hk : k' = k
    · subst hk; rw [lookup_erase] at h'; cases h'
    · exact hnn k' v' (by rwa [lookup_erase_ne hk] at h')
  exact le_add_of_nonneg_right this

end Order

end Table

end InferenceGateway.Lib
