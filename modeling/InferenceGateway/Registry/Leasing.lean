import InferenceGateway.Lib.Table
/-!
# Leases

`leasing.go`. A flow or a band is kept in a map with a lease count and the time
it became idle, the zero time standing for a resource in use. The operations on
one resource are its critical sections; the two loops are given for a caller
that nobody interferes with.
-/

namespace InferenceGateway.Registry

open Lib

structure LeasedState where
  leaseCount : Int
  /-- Nanoseconds; 0 is the zero time. -/
  becameIdleAt : Int
  markedForDeletion : Bool
deriving DecidableEq, Repr

namespace LeasedState

/-- A resource as `createFn` makes it. -/
def fresh : LeasedState where
  leaseCount := 0
  becameIdleAt := 0
  markedForDeletion := false

variable (ls : LeasedState)

/-- `none` when the collector has already marked the resource. -/
def tryPin : Option LeasedState :=
  if ls.markedForDeletion then none
  else some { ls with leaseCount := ls.leaseCount + 1, becameIdleAt := 0 }

def unpin (now : Int) : LeasedState :=
  let ls1 := { ls with leaseCount := ls.leaseCount - 1 }
  if ls1.leaseCount = 0 then { ls1 with becameIdleAt := now } else ls1

def isActive : Bool := ls.leaseCount > 0

variable (timeout now : Int)

def checkAndMarkForDeletion : LeasedState × Bool :=
  if ls.leaseCount > 0 then ({ ls with becameIdleAt := 0 }, false)
  else if ls.becameIdleAt = 0 then ({ ls with becameIdleAt := now }, false)
  else if now - ls.becameIdleAt < timeout then (ls, false)
  else ({ ls with markedForDeletion := true }, true)

/-- Idle, and known to be so for at least the timeout. -/
def Expired : Prop :=
  ls.leaseCount ≤ 0 ∧ ls.becameIdleAt ≠ 0 ∧ timeout ≤ now - ls.becameIdleAt

instance : Decidable (ls.Expired timeout now) := by
  unfold Expired; infer_instance

theorem unpin_marked (now : Int) : (ls.unpin now).markedForDeletion = ls.markedForDeletion := by
  unfold unpin
  simp only
  split_ifs <;> rfl

theorem unpin_count (now : Int) : (ls.unpin now).leaseCount = ls.leaseCount - 1 := by
  unfold unpin
  simp only
  split_ifs <;> rfl

/-- Either only the time changes, or the resource is idle and is marked. -/
theorem check_cases :
    (∃ t, ls.checkAndMarkForDeletion timeout now = ({ ls with becameIdleAt := t }, false)) ∨
      (ls.leaseCount ≤ 0 ∧ ls.checkAndMarkForDeletion timeout now = ({ ls with markedForDeletion := true }, true)) := by
  unfold checkAndMarkForDeletion
  split_ifs with hact
  · exact .inl ⟨0, rfl⟩
  · exact .inl ⟨now, rfl⟩
  · exact .inl ⟨ls.becameIdleAt, rfl⟩
  · exact .inr ⟨not_lt.1 hact, rfl⟩

/-- Exactly the expired resources are marked. -/
theorem check_iff {ls : LeasedState} {timeout now : Int} :
    (ls.checkAndMarkForDeletion timeout now).2 = true ↔ ls.Expired timeout now := by
  unfold checkAndMarkForDeletion Expired
  split_ifs <;> simp <;> omega

/-- Losing a lease changes nothing in this: a resource that becomes idle now is
not expired yet, and one that was expired stays so. -/
theorem unpin_expired_iff {ls : LeasedState} {timeout now : Int} (hpos : 0 < timeout) :
    (ls.unpin now).Expired timeout now ↔ ls.Expired timeout now := by
  unfold unpin Expired
  simp only
  split_ifs <;> simp only <;> omega

end LeasedState

variable {K : Type} [DecidableEq K]

/-- `collectLeasedResources`: the keys taken out of the map, and the map. -/
def collectLeasedResources (m : Table K LeasedState) (timeout now : Int) : List K × Table K LeasedState :=
  ((m.entries.filter fun e => (e.2.checkAndMarkForDeletion timeout now).2).map (·.1),
    m.filterMapVals fun _ ls =>
      let r := ls.checkAndMarkForDeletion timeout now
      if r.2 then none else some r.1)

/-- `pinLeasedResource`: the map with the resource pinned, and whether it is new.
On a resource marked for deletion the caller spins, which is `none`. -/
def pinLeasedResource (m : Table K LeasedState) (key : K) : Option (Table K LeasedState × Bool) :=
  match m.lookup key with
  | none => (LeasedState.fresh.tryPin).map fun ls => (m.insert key ls, true)
  | some ls => ls.tryPin.map fun ls => (m.insert key ls, false)

theorem mem_collected {m : Table K LeasedState} {timeout now : Int} {k : K} :
    k ∈ (collectLeasedResources m timeout now).1 ↔ ∃ ls, m.lookup k = some ls ∧ ls.Expired timeout now := by
  simp only [collectLeasedResources, List.mem_map, List.mem_filter, LeasedState.check_iff]
  constructor
  · rintro ⟨⟨k', ls⟩, ⟨hmem, hx⟩, rfl⟩
    exact ⟨ls, Table.lookup_mem_entries.1 hmem, hx⟩
  · rintro ⟨ls, hl, hx⟩
    exact ⟨⟨k, ls⟩, ⟨Table.lookup_mem_entries.2 hl, hx⟩, rfl⟩

/-- A resource stays in the map exactly when it is not collected. -/
theorem mem_remaining {m : Table K LeasedState} {timeout now : Int} {k : K} :
    k ∈ (collectLeasedResources m timeout now).2 ↔ k ∈ m ∧ k ∉ (collectLeasedResources m timeout now).1 := by
  rw [Table.mem_iff_lookup, Table.mem_iff_lookup, mem_collected]
  simp only [collectLeasedResources, Table.lookup_filterMapVals, Option.bind_eq_some_iff]
  constructor
  · rintro ⟨v, ls, hl, hv⟩
    refine ⟨⟨ls, hl⟩, ?_⟩
    rintro ⟨ls', hl', hx⟩
    rw [hl, Option.some.injEq] at hl'
    subst hl'
    rw [if_pos (LeasedState.check_iff.2 hx)] at hv
    cases hv
  · rintro ⟨⟨ls, hl⟩, hnot⟩
    refine ⟨(ls.checkAndMarkForDeletion timeout now).1, ls, hl, ?_⟩
    rw [if_neg]
    exact fun hx => hnot ⟨ls, hl, LeasedState.check_iff.1 hx⟩

/-! ## No caller spins -/

/-- Nothing in the map is marked: a marked resource leaves it at once. -/
def Unmarked (m : Table K LeasedState) : Prop := ∀ k ls, m.lookup k = some ls → ls.markedForDeletion = false

variable {m : Table K LeasedState}

theorem Unmarked.insert (h : Unmarked m) (k : K) {ls : LeasedState} (hls : ls.markedForDeletion = false) :
    Unmarked (m.insert k ls) := by
  intro k' ls' hl
  by_cases hk : k' = k
  · subst hk
    rw [AList.lookup_insert, Option.some.injEq] at hl
    exact hl ▸ hls
  · rw [AList.lookup_insert_ne hk] at hl
    exact h k' ls' hl

theorem Unmarked.erase (h : Unmarked m) (k : K) : Unmarked (m.erase k) := by
  intro k' ls hl
  by_cases hk : k' = k
  · subst hk; simp at hl
  · rw [AList.lookup_erase_ne hk] at hl
    exact h k' ls hl

theorem LeasedState.unpin_unmarked {ls : LeasedState} (h : ls.markedForDeletion = false) (now : Int) :
    (ls.unpin now).markedForDeletion = false := (ls.unpin_marked now).trans h

theorem Unmarked.collect (h : Unmarked m) (timeout now : Int) : Unmarked (collectLeasedResources m timeout now).2 := by
  intro k ls hl
  simp only [collectLeasedResources, Table.lookup_filterMapVals, Option.bind_eq_some_iff] at hl
  obtain ⟨ls₀, h0, h1⟩ := hl
  have hm := h k ls₀ h0
  unfold LeasedState.checkAndMarkForDeletion at h1
  split_ifs at h1 <;> cases h1 <;> first | exact hm | simp_all

/-- So a pin succeeds at once, and finds a new resource exactly when the map had none. -/
theorem Unmarked.pin (h : Unmarked m) (k : K) : ∃ m' isNew, pinLeasedResource m k = some (m', isNew) ∧ Unmarked m' ∧
    (isNew = true ↔ k ∉ m) := by
  unfold pinLeasedResource
  cases hl : m.lookup k with
  | none =>
    refine ⟨_, true, rfl, h.insert k rfl, ?_⟩
    simpa using AList.lookup_eq_none.1 hl
  | some ls =>
    have hls := h k ls hl
    refine ⟨m.insert k { ls with leaseCount := ls.leaseCount + 1, becameIdleAt := 0 }, false, ?_, h.insert k hls, ?_⟩
    · simp [LeasedState.tryPin, hls]
    · simpa using Table.mem_of_lookup hl

end InferenceGateway.Registry
