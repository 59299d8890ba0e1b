import Mathlib
/-!
# Caches of the most recent keys

A library of caches with a capacity, as a parameter: its operations, and what is documented
of them. A key that is added is the most recent one; when there is no room for it, the one
that was not added for the longest time goes, and the callback is told which. Of keys that
are added one after the other, all stay if there is room for them. `Lru` is such a library.
-/

namespace InferenceGateway.Lib

open List

/-- The operations of caches `C` of keys. A change comes with the key that the callback of the
cache is called for. -/
structure LruLibrary (C α : Type) where
  new : ℤ → Option C
  capacity : C → ℕ
  /-- From the oldest to the most recent one. -/
  keys : C → List α
  add : C → α → C × Option α
  remove : C → α → C × Option α

namespace LruLibrary

variable {C α : Type} [DecidableEq α]

/-- What is documented of the operations. -/
structure Lawful (lib : LruLibrary C α) : Prop where
  new_empty : ∀ size c, lib.new size = some c → lib.keys c = [] ∧ lib.capacity c = size
  keys_nodup : ∀ c, (lib.keys c).Nodup
  keys_bounded : ∀ c, (lib.keys c).length ≤ lib.capacity c
  capacity_add : ∀ c x, lib.capacity (lib.add c x).1 = lib.capacity c
  add_present : ∀ c x, x ∈ lib.keys c → lib.keys (lib.add c x).1 = (lib.keys c).erase x ++ [x] ∧ (lib.add c x).2 = none
  add_room : ∀ c x, x ∉ lib.keys c → (lib.keys c).length < lib.capacity c →
    lib.keys (lib.add c x).1 = lib.keys c ++ [x] ∧ (lib.add c x).2 = none
  add_full : ∀ c x, x ∉ lib.keys c → lib.capacity c ≤ (lib.keys c).length →
    lib.keys (lib.add c x).1 = (lib.keys c).tail ++ [x] ∧ (lib.add c x).2 = (lib.keys c).head?
  remove_key : ∀ c x, lib.keys (lib.remove c x).1 = (lib.keys c).erase x ∧
    (lib.remove c x).2 = if x ∈ lib.keys c then some x else none

def addAll (lib : LruLibrary C α) (c : C) (xs : List α) : C := xs.foldl (fun c x => (lib.add c x).1) c

variable {lib : LruLibrary C α} (h : lib.Lawful) {c : C} {x y : α} {xs : List α}
include h

theorem Lawful.mem_add : y ∈ lib.keys (lib.add c x).1 ↔ (y = x ∨ y ∈ lib.keys c) ∧ (lib.add c x).2 ≠ some y := by
  by_cases hx : x ∈ lib.keys c
  · obtain ⟨hkeys, hnone⟩ := h.add_present c x hx
    rw [hkeys, hnone, mem_append, mem_singleton, (h.keys_nodup c).mem_erase_iff]
    by_cases hy : y = x
    · simp [hy]
    · simp [hy]
  · rcases lt_or_ge (lib.keys c).length (lib.capacity c) with hroom | hfull
    · obtain ⟨hkeys, hnone⟩ := h.add_room c x hx hroom
      rw [hkeys, hnone, mem_append, mem_singleton, or_comm]
      simp
    · obtain ⟨hkeys, hhead⟩ := h.add_full c x hx hfull
      have hnodup := h.keys_nodup c
      rw [hkeys, hhead, mem_append, mem_singleton]
      cases hc : lib.keys c with
      | nil => simp
      | cons oldest keys =>
        rw [hc, nodup_cons] at hnodup
        rw [hc, mem_cons, not_or] at hx
        rw [tail_cons, head?_cons, mem_cons, ne_eq, Option.some.injEq]
        constructor
        · rintro (hy | rfl)
          · exact ⟨.inr (.inr hy), fun heq => hnodup.1 (heq ▸ hy)⟩
          · exact ⟨.inl rfl, fun heq => hx.1 heq.symm⟩
        · rintro ⟨rfl | rfl | hy, hne⟩
          · exact .inr rfl
          · exact absurd rfl hne
          · exact .inl hy

theorem Lawful.mem_remove : y ∈ lib.keys (lib.remove c x).1 ↔ y ∈ lib.keys c ∧ (lib.remove c x).2 ≠ some y := by
  obtain ⟨hkeys, hgone⟩ := h.remove_key c x
  rw [hkeys, hgone, (h.keys_nodup c).mem_erase_iff]
  by_cases hx : x ∈ lib.keys c
  · simp [hx, and_comm, eq_comm]
  · simp only [if_neg hx, ne_eq, reduceCtorEq, not_false_eq_true, and_true, and_iff_right_iff_imp]
    rintro hy rfl
    exact hx hy

theorem Lawful.capacity_addAll (xs : List α) : ∀ c, lib.capacity (lib.addAll c xs) = lib.capacity c := by
  induction xs with
  | nil => exact fun c => rfl
  | cons x xs ih => exact fun c => (ih _).trans (h.capacity_add c x)

omit h [DecidableEq α] in
theorem addAll_concat : lib.addAll c (xs ++ [x]) = (lib.add (lib.addAll c xs) x).1 := by
  rw [addAll, foldl_append]
  rfl

omit h [DecidableEq α] in
/-- The keys that were added last are the most recent ones. -/
def Recent (lib : LruLibrary C α) (c : C) (xs : List α) : Prop :=
  ∃ rest recent, lib.keys c = rest ++ recent ∧ ∀ y, y ∈ recent ↔ y ∈ xs

theorem Lawful.recent_add (hr : lib.Recent c xs) (hroom : (xs ++ [x]).toFinset.card ≤ lib.capacity c) :
    lib.Recent (lib.add c x).1 (xs ++ [x]) := by
  obtain ⟨rest, recent, hkeys, hmem⟩ := hr
  have hnodup := h.keys_nodup c
  rw [hkeys] at hnodup
  have hmem' : ∀ y, y ∈ recent ++ [x] ↔ y ∈ xs ++ [x] := fun y => by rw [mem_append, hmem, mem_append]
  by_cases hx : x ∈ lib.keys c
  · rw [Recent, (h.add_present c x hx).1, hkeys]
    by_cases hrest : x ∈ rest
    · exact ⟨rest.erase x, recent ++ [x], by rw [erase_append_left _ hrest, append_assoc], hmem'⟩
    · refine ⟨rest, recent.erase x ++ [x], by rw [erase_append_right _ hrest, append_assoc], fun y => ?_⟩
      rw [← hmem', mem_append, mem_append, (hnodup.sublist (sublist_append_right _ _)).mem_erase_iff, mem_singleton]
      by_cases hy : y = x <;> simp [hy]
  · rcases lt_or_ge (lib.keys c).length (lib.capacity c) with hlt | hfull
    · exact ⟨rest, recent ++ [x], by rw [(h.add_room c x hx hlt).1, hkeys, append_assoc], hmem'⟩
    · have hrest : rest ≠ [] := by
        rintro rfl
        rw [nil_append] at hkeys hnodup
        have hcard : (xs ++ [x]).toFinset.card = recent.length + 1 := by
          have hsame : (xs ++ [x]).toFinset = (recent ++ [x]).toFinset := by
            ext y
            rw [mem_toFinset, mem_toFinset, hmem']
          rw [hkeys] at hx
          have hnew : (recent ++ [x]).Nodup := nodup_append_comm.1 (nodup_cons.2 ⟨hx, hnodup⟩)
          rw [hsame, toFinset_card_of_nodup hnew, length_append, length_singleton]
        rw [hkeys] at hfull
        omega
      refine ⟨rest.tail, recent ++ [x], ?_, hmem'⟩
      rw [(h.add_full c x hx hfull).1, hkeys, tail_append_of_ne_nil hrest, append_assoc]

theorem Lawful.recent_addAll (hroom : xs.toFinset.card ≤ lib.capacity c) : lib.Recent (lib.addAll c xs) xs := by
  induction xs using List.reverseRecOn with
  | nil => exact ⟨lib.keys c, [], (append_nil _).symm, fun _ => .rfl⟩
  | append_singleton xs x ih =>
    have hfewer : xs.toFinset.card ≤ lib.capacity c := by
      refine le_trans (Finset.card_le_card ?_) hroom
      rw [toFinset_append]
      exact Finset.subset_union_left
    rw [addAll_concat]
    exact h.recent_add (ih hfewer) (by rw [h.capacity_addAll]; exact hroom)

/-- What there is room for stays. -/
theorem Lawful.mem_addAll (hroom : xs.toFinset.card ≤ lib.capacity c) (hx : x ∈ xs) : x ∈ lib.keys (lib.addAll c xs) := by
  obtain ⟨rest, recent, hkeys, hmem⟩ := h.recent_addAll (c := c) hroom
  rw [hkeys]
  exact mem_append_right _ ((hmem x).2 hx)

end LruLibrary

/-! ## Lists as caches -/

structure Lru (α : Type) where
  capacity : ℕ
  keys : List α
  nodup : keys.Nodup
  bounded : keys.length ≤ capacity
  positive : 0 < capacity

namespace Lru

variable {α : Type}

/-- A cache of this size, which has to be positive. -/
def new (size : ℤ) : Option (Lru α) :=
  if h : 0 < size then some ⟨size.toNat, [], .nil, Nat.zero_le _, Int.lt_toNat.2 h⟩ else none

variable [DecidableEq α]

def add (c : Lru α) (x : α) : Lru α × Option α :=
  if hx : x ∈ c.keys then
    (⟨c.capacity, c.keys.erase x ++ [x], nodup_append_comm.1 (nodup_cons.2 ⟨c.nodup.not_mem_erase, c.nodup.erase x⟩), by
      rw [length_append, length_singleton, length_erase_add_one hx]; exact c.bounded, c.positive⟩, none)
  else if hroom : c.keys.length < c.capacity then
    (⟨c.capacity, c.keys ++ [x], nodup_append_comm.1 (nodup_cons.2 ⟨hx, c.nodup⟩), by
      rw [length_append]; exact hroom, c.positive⟩, none)
  else
    (⟨c.capacity, c.keys.tail ++ [x],
      nodup_append_comm.1 (nodup_cons.2 ⟨fun h => hx (mem_of_mem_tail h), c.nodup.sublist (tail_sublist _)⟩), by
        have := c.bounded
        have := c.positive
        rw [length_append, length_tail, length_singleton]
        omega, c.positive⟩, c.keys.head?)

def remove (c : Lru α) (x : α) : Lru α × Option α :=
  (⟨c.capacity, c.keys.erase x, c.nodup.erase x, length_erase_le.trans c.bounded, c.positive⟩, if x ∈ c.keys then some x else none)

def library : LruLibrary (Lru α) α := ⟨new, capacity, keys, add, remove⟩

theorem library_lawful : (library (α := α)).Lawful where
  new_empty size c hnew := by
    change new size = some c at hnew
    unfold new at hnew
    split at hnew
    · rename_i hpos
      cases hnew
      exact ⟨rfl, Int.toNat_of_nonneg hpos.le⟩
    · cases hnew
  keys_nodup c := c.nodup
  keys_bounded c := c.bounded
  capacity_add c x := by
    simp only [library, add]
    split
    · rfl
    · split <;> rfl
  add_present c x hx := by
    change x ∈ c.keys at hx
    simp only [library, add, dif_pos hx, and_self]
  add_room c x hx hroom := by
    change x ∉ c.keys at hx
    change c.keys.length < c.capacity at hroom
    simp only [library, add, dif_neg hx, dif_pos hroom, and_self]
  add_full c x hx hfull := by
    change x ∉ c.keys at hx
    change c.capacity ≤ c.keys.length at hfull
    simp only [library, add, dif_neg hx, dif_neg (not_lt.2 hfull), and_self]
  remove_key c x := ⟨rfl, rfl⟩

end Lru

end InferenceGateway.Lib
