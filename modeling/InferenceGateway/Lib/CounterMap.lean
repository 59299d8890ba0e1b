import InferenceGateway.Lib.Table
/-!
# A concurrent map of counters

Go's `sync.Map` from keys to pointers to atomic counters. A key is deleted from the map
without regard to who else has the pointer; what is added through an old pointer is then
lost to the key.
-/

namespace InferenceGateway.Lib

variable {K : Type} [DecidableEq K]

/-- Counters are numbered in the order they are made. -/
structure CounterMap (K : Type) [DecidableEq K] where
  pointers : Table K ℕ
  counters : List ℤ
  /-- A pointer points to a counter. -/
  made : ∀ key p, pointers.lookup key = some p → p < counters.length
  /-- Keys do not share counters. -/
  apart : ∀ key key' p, pointers.lookup key = some p → pointers.lookup key' = some p → key = key'

namespace CounterMap

variable (m : CounterMap K)

def empty : CounterMap K := ⟨∅, [], nofun, nofun⟩

/-- The value of a counter. -/
def load (p : ℕ) : ℤ := m.counters.getD p 0

/-- What is read under a key; a key that is missing counts as zero. -/
def value (key : K) : ℤ := ((m.pointers.lookup key).map m.load).getD 0

/-- `LoadOrStore` of a new counter, with the map after it. -/
def loadOrStore (key : K) : ℕ × CounterMap K :=
  match h : m.pointers.lookup key with
  | some p => (p, m)
  | none => (m.counters.length, {
      pointers := m.pointers.insert key m.counters.length
      counters := m.counters ++ [0]
      made := by
        intro k p hp
        rw [Table.lookup_insert_ite] at hp
        rw [List.length_append, List.length_singleton]
        split at hp
        · cases hp; omega
        · have := m.made k p hp; omega
      apart := by
        intro k k' p hk hk'
        rw [Table.lookup_insert_ite] at hk hk'
        split at hk <;> split at hk'
        · rename_i h1 h2; rw [h1, h2]
        · cases hk; exact absurd (m.made k' _ hk') (lt_irrefl _)
        · cases hk'; exact absurd (m.made k _ hk) (lt_irrefl _)
        · exact m.apart k k' p hk hk' })

def add (p : ℕ) (n : ℤ) : CounterMap K where
  pointers := m.pointers
  counters := m.counters.set p (m.load p + n)
  made key p' h := by rw [List.length_set]; exact m.made key p' h
  apart := m.apart

def delete (key : K) : CounterMap K where
  pointers := m.pointers.erase key
  counters := m.counters
  made k p h := by
    rw [Table.lookup_erase_ite] at h
    split at h
    · cases h
    · exact m.made k p h
  apart k k' p hk hk' := by
    rw [Table.lookup_erase_ite] at hk hk'
    split at hk
    · cases hk
    · split at hk'
      · cases hk'
      · exact m.apart k k' p hk hk'

variable {m} {key : K} {p : ℕ}

theorem load_eq_value (h : m.pointers.lookup key = some p) : m.load p = m.value key := by
  rw [value, h]
  rfl

/-! ## LoadOrStore -/

theorem lookup_loadOrStore (m : CounterMap K) (key : K) :
    (m.loadOrStore key).2.pointers.lookup key = some (m.loadOrStore key).1 := by
  unfold loadOrStore
  split
  · rename_i h; exact h
  · exact AList.lookup_insert _

/-- A pointer that is in the map stays there. -/
theorem lookup_loadOrStore_of_some {k : K} (h : m.pointers.lookup k = some p) :
    (m.loadOrStore key).2.pointers.lookup k = some p := by
  unfold loadOrStore
  split
  · exact h
  · rename_i hnone
    have hne : k ≠ key := by rintro rfl; rw [h] at hnone; cases hnone
    dsimp only
    rw [AList.lookup_insert_ne hne, h]

theorem value_loadOrStore (m : CounterMap K) (key k : K) : (m.loadOrStore key).2.value k = m.value k := by
  unfold loadOrStore
  split
  · rfl
  · rename_i hnone
    simp only [value, Table.lookup_insert_ite]
    split
    · rename_i hk
      subst hk
      simp [load, hnone]
    · cases hk : m.pointers.lookup k with
      | none => rfl
      | some p =>
        have hlt := m.made k p hk
        simp [load, List.getD, List.getElem?_append_left hlt]

/-! ## Add -/

theorem value_add (h : m.pointers.lookup key = some p) (n : ℤ) (k : K) :
    (m.add p n).value k = if k = key then m.value k + n else m.value k := by
  have hlt := m.made key p h
  split
  · rename_i hk
    subst hk
    simp [value, load, add, h, List.getD, List.getElem?_set_self hlt]
  · rename_i hk
    simp only [value, add]
    cases hk' : m.pointers.lookup k with
    | none => rfl
    | some p' =>
      have hne : p ≠ p' := by rintro rfl; exact hk (m.apart k key p hk' h)
      simp [load, List.getD, List.getElem?_set_ne hne]

/-! ## Delete -/

theorem lookup_delete (m : CounterMap K) (key k : K) :
    (m.delete key).pointers.lookup k = if k = key then none else m.pointers.lookup k :=
  Table.lookup_erase_ite _ _ _

/-- Deleting a key loses what its counter has. -/
theorem value_delete (m : CounterMap K) (key k : K) : (m.delete key).value k = if k = key then 0 else m.value k := by
  rw [value, lookup_delete]
  split
  · rfl
  · rfl

end CounterMap

end InferenceGateway.Lib
