import InferenceGateway.Lib.Counting
import InferenceGateway.Registry.Leasing
/-!
# Leases shared by goroutines

`leasing.go` as goroutines run it side by side. The map holds pointers, and a state
that has left it may still be in the hands of a caller that has loaded it. Each
operation on the map and each critical section of a state is one atomic step; the
loops of `pinLeasedResource` and `collectLeasedResources` are cut between them.
-/

namespace InferenceGateway.Registry

open Lib Function

structure LeaseMap (K : Type) where
  /-- The states by their addresses; those from `next` on are not allocated. -/
  states : Nat → LeasedState
  entries : Table K Nat
  next : Nat

variable {K : Type} [DecidableEq K]

namespace LeaseMap

def empty : LeaseMap K := ⟨fun _ => .fresh, ∅, 0⟩

variable (m : LeaseMap K)

def load (k : K) : Option Nat := m.entries.lookup k

/-- A new entry, with a state from `createFn`. -/
def store (k : K) : LeaseMap K where
  states := update m.states m.next .fresh
  entries := m.entries.insert k m.next
  next := m.next + 1

/-- The flag tells that there was an entry. -/
def loadOrStore (k : K) : LeaseMap K × Nat × Bool :=
  match m.load k with
  | some o => (m, o, true)
  | none => (m.store k, m.next, false)

def delete (k : K) : LeaseMap K := { m with entries := m.entries.erase k }

def setState (o : Nat) (ls : LeasedState) : LeaseMap K :=
  { m with states := update m.states o ls }

def unpin (o : Nat) (now : Int) : LeaseMap K := m.setState o ((m.states o).unpin now)

/-- What the map shows to somebody who is alone with it. -/
def view : Table K LeasedState := m.entries.mapVals fun _ o => m.states o

end LeaseMap

/-- Where a caller of `pinLeasedResource` is. -/
inductive Pinning where
  | loading
  | storing
  | trying (o : Nat) (isNew : Bool)
  /-- The state is pinned; is it still in the map? -/
  | confirming (o : Nat) (isNew : Bool)
  | backingOff (o : Nat)
deriving DecidableEq

/-- The next atomic step, up to the state that is returned and whether it is new. -/
def Pinning.step (m : LeaseMap K) (k : K) (now : Int) : Pinning → LeaseMap K × (Pinning ⊕ Nat × Bool)
  | .loading =>
    match m.load k with
    | some o => (m, .inl (.trying o false))
    | none => (m, .inl .storing)
  | .storing =>
    let (m, o, loaded) := m.loadOrStore k
    (m, .inl (.trying o (!loaded)))
  | .trying o isNew =>
    match (m.states o).tryPin with
    | some ls => (m.setState o ls, .inl (.confirming o isNew))
    | none => (m, .inl .loading)
  | .confirming o isNew => if m.load k = some o then (m, .inr (o, isNew)) else (m, .inl (.backingOff o))
  | .backingOff o => (m.unpin o now, .inl .loading)

/-- Where `collectLeasedResources` is. It has read the clock at its start. -/
inductive Collecting (K : Type) where
  /-- In `Range`, between two entries. -/
  | ranging (now : Int) (resourcesToClean : List (K × Nat))
  /-- The callback has the entry. -/
  | checking (now : Int) (resourcesToClean : List (K × Nat)) (k : K) (o : Nat)
  /-- It has marked the state. -/
  | deleting (now : Int) (resourcesToClean : List (K × Nat)) (k : K) (o : Nat)
deriving DecidableEq

namespace Collecting

/-- `Range` calls back with an entry; it may be any. -/
def visit (m : LeaseMap K) (k : K) : Collecting K → Collecting K
  | .ranging now found =>
    match m.load k with
    | some o => .checking now found k o
    | none => .ranging now found
  | c => c

/-- The next atomic step of the callback. -/
def step (m : LeaseMap K) (timeout : Int) : Collecting K → LeaseMap K × Collecting K
  | .ranging now found => (m, .ranging now found)
  | .checking now found k o =>
    let (ls, expired) := (m.states o).checkAndMarkForDeletion timeout now
    (m.setState o ls, if expired then .deleting now found k o else .ranging now found)
  | .deleting now found k _ =>
    match m.load k with
    | some o => (m.delete k, .ranging now (found ++ [(k, o)]))
    | none => (m, .ranging now found)

def resourcesToClean : Collecting K → List (K × Nat)
  | .ranging _ found => found
  | .checking _ found _ _ => found
  | .deleting _ found _ _ => found

/-- The entry whose state the collector has marked and not yet deleted. -/
def doomed : Collecting K → Option (K × Nat)
  | .deleting _ _ k o => some (k, o)
  | _ => none

/-- The entry that the collector is busy with. -/
def visiting : Collecting K → Option (K × Nat)
  | .ranging _ _ => none
  | .checking _ _ k o => some (k, o)
  | .deleting _ _ k o => some (k, o)

end Collecting

/-! ## Counted leases -/

namespace LeaseMap

variable {ι : Type} {m : LeaseMap K} {pins pins' : ι → Nat → Prop} {doomed : Option (K × Nat)}

/-- The lease counts are right: each is the number of those who have the state pinned.
At most the doomed entry of the map is marked for deletion. -/
structure Counted (m : LeaseMap K) (pins : ι → Nat → Prop) (doomed : Option (K × Nat)) : Prop where
  stored : ∀ k o, m.load k = some o → o < m.next
  single : ∀ k k' o, m.load k = some o → m.load k' = some o → k = k'
  allocated : ∀ i o, pins i o → o < m.next
  count : ∀ o, Counts (m.states o).leaseCount fun i => pins i o
  live : ∀ i o, pins i o → (m.states o).markedForDeletion = false
  marked : ∀ k o, m.load k = some o → (m.states o).markedForDeletion = true → doomed = some (k, o)
  doom : ∀ k o, doomed = some (k, o) → m.load k = some o ∧ (m.states o).markedForDeletion = true

theorem counted_empty (h : ∀ i o, ¬ pins i o) : (empty : LeaseMap K).Counted pins none where
  stored := fun k o hl => by simp [load, empty] at hl
  single := fun k k' o hl => by simp [load, empty] at hl
  allocated := fun i o hp => absurd hp (h i o)
  count := fun o => Counts.zero fun i => h i o
  live := fun i o hp => absurd hp (h i o)
  marked := fun k o hl => by simp [load, empty] at hl
  doom := nofun

theorem Counted.congr (h : m.Counted pins doomed) (hp : ∀ i o, pins' i o ↔ pins i o) : m.Counted pins' doomed := by
  have : pins' = pins := funext fun i => funext fun o => propext (hp i o)
  rwa [this]

@[simp] theorem load_setState (m : LeaseMap K) (o : Nat) (ls : LeasedState) (k : K) : (m.setState o ls).load k = m.load k := rfl

@[simp] theorem load_unpin (m : LeaseMap K) (o : Nat) (now : Int) (k : K) : (m.unpin o now).load k = m.load k := rfl

theorem load_delete (m : LeaseMap K) (k k' : K) : (m.delete k).load k' = if k' = k then none else m.load k' := by
  unfold load delete
  split
  · subst k'; simp
  · rw [AList.lookup_erase_ne ‹_›]

variable {k k' : K} {o : Nat}

theorem load_of_load_delete (h : (m.delete k).load k' = some o) : k' ≠ k ∧ m.load k' = some o := by
  rw [load_delete] at h
  split at h
  · cases h
  · exact ⟨‹_›, h⟩

theorem load_store (m : LeaseMap K) (k k' : K) : (m.store k).load k' = if k' = k then some m.next else m.load k' := by
  unfold load store
  split
  · subst k'; exact AList.lookup_insert ..
  · exact AList.lookup_insert_ne ‹_›

theorem load_store_of_some (hk : m.load k = none) (h : m.load k' = some o) : (m.store k).load k' = some o := by
  rw [load_store, if_neg]
  · exact h
  · rintro rfl
    rw [hk] at h; cases h

omit [DecidableEq K] in
theorem marked_unpin (m : LeaseMap K) (o : Nat) (now : Int) (o' : Nat) :
    ((m.unpin o now).states o').markedForDeletion = (m.states o').markedForDeletion := by
  by_cases ho : o' = o
  · subst ho
    simp only [unpin, setState, update_self, LeasedState.unpin_marked]
  · simp only [unpin, setState, update_of_ne ho]

theorem loadOrStore_of_some (h : m.load k = some o) : m.loadOrStore k = (m, o, true) := by
  unfold loadOrStore
  rw [h]

theorem loadOrStore_of_none (h : m.load k = none) : m.loadOrStore k = (m.store k, m.next, false) := by
  unfold loadOrStore
  rw [h]

/-- An address that is in use is not the new one. -/
theorem states_store (k : K) (ho : o < m.next) : (m.store k).states o = m.states o :=
  update_of_ne (Nat.ne_of_lt ho) ..

variable (h : m.Counted pins doomed)
include h

theorem Counted.store (hk : m.load k = none) : (m.store k).Counted pins doomed := by
  refine ⟨fun k' o hl => ?_, fun k₁ k₂ o h₁ h₂ => ?_, fun i o hp => (h.allocated i o hp).trans (Nat.lt_succ_self _),
    fun o => ?_, fun i o hp => ?_, fun k' o hl hm => ?_, fun k' o hd => ?_⟩
  · rw [load_store] at hl
    split at hl
    · cases hl; exact Nat.lt_succ_self _
    · exact (h.stored k' o hl).trans (Nat.lt_succ_self _)
  · rw [load_store] at h₁ h₂
    split at h₁ <;> split at h₂
    · exact ‹k₁ = k›.trans ‹k₂ = k›.symm
    · cases h₁; exact absurd (h.stored k₂ _ h₂) (lt_irrefl _)
    · cases h₂; exact absurd (h.stored k₁ _ h₁) (lt_irrefl _)
    · exact h.single k₁ k₂ o h₁ h₂
  · by_cases ho : o = m.next
    · subst ho
      simp only [LeaseMap.store, update_self]
      exact Counts.zero fun i hp => absurd (h.allocated i _ hp) (lt_irrefl _)
    · simp only [LeaseMap.store, update_of_ne ho]
      exact h.count o
  · rw [states_store k (h.allocated i o hp)]
    exact h.live i o hp
  · rw [load_store] at hl
    split at hl
    · cases hl
      simp only [LeaseMap.store, update_self] at hm
      cases hm
    · rw [states_store k (h.stored k' o hl)] at hm
      exact h.marked k' o hl hm
  · obtain ⟨hl, hm⟩ := h.doom k' o hd
    refine ⟨?_, by rw [states_store k (h.stored k' o hl)]; exact hm⟩
    rw [load_store, if_neg]
    · exact hl
    · rintro rfl
      rw [hk] at hl; cases hl

variable {ls : LeasedState}

/-- Changing a state that keeps its mark. -/
theorem Counted.setState (ho : o < m.next)
    (hm : ls.markedForDeletion = (m.states o).markedForDeletion)
    (hp : ∀ i o', pins' i o' → pins i o' ∨ (o' = o ∧ (m.states o).markedForDeletion = false))
    (hothers : ∀ i o', o' ≠ o → (pins' i o' ↔ pins i o')) (hcount : Counts ls.leaseCount fun i => pins' i o) :
    (m.setState o ls).Counted pins' doomed := by
  have hmark : ∀ o', (update m.states o ls o').markedForDeletion = (m.states o').markedForDeletion := by
    intro o'
    by_cases he : o' = o
    · subst he; rw [update_self, hm]
    · rw [update_of_ne he]
  refine ⟨h.stored, h.single, fun i o' hpin => ?_, fun o' => ?_, fun i o' hpin => ?_, fun k o' hk => ?_, fun k o' hd => ?_⟩
  · rcases hp i o' hpin with hpin | ⟨rfl, -⟩
    · exact h.allocated i o' hpin
    · exact ho
  · by_cases he : o' = o
    · subst he
      simpa only [LeaseMap.setState, update_self] using hcount
    · simp only [LeaseMap.setState, update_of_ne he]
      exact (h.count o').congr fun i => hothers i o' he
  · refine (hmark o').trans ?_
    rcases hp i o' hpin with hpin | ⟨rfl, hlive⟩
    · exact h.live i o' hpin
    · exact hlive
  · intro hmk
    exact h.marked k o' hk ((hmark o').symm.trans hmk)
  · obtain ⟨hl, hmk⟩ := h.doom k o' hd
    exact ⟨hl, (hmark o').trans hmk⟩

/-- A successful `tryPin`. -/
theorem Counted.pin (hpin : (m.states o).tryPin = some ls) (ho : o < m.next) {i : ι}
    (hi : ¬ pins i o) (hp : ∀ j o', pins' j o' ↔ pins j o' ∨ (j = i ∧ o' = o)) :
    (m.setState o ls).Counted pins' doomed := by
  unfold LeasedState.tryPin at hpin
  split at hpin
  · cases hpin
  · rename_i hlive
    cases hpin
    rw [Bool.not_eq_true] at hlive
    refine h.setState ho rfl (fun j o' hj => ?_) (fun j o' hne => ?_) ?_
    · rcases (hp j o').1 hj with hj | ⟨-, rfl⟩
      · exact .inl hj
      · exact .inr ⟨rfl, hlive⟩
    · simp [hp, hne]
    · exact (h.count o).add hi fun j => by simp [hp]

theorem Counted.unpin {i : ι} (hi : pins i o) (now : Int)
    (hp : ∀ j o', pins' j o' ↔ pins j o' ∧ ¬ (j = i ∧ o' = o)) : (m.unpin o now).Counted pins' doomed := by
  refine h.setState (h.allocated i o hi) (LeasedState.unpin_marked _ now) (fun j o' hj => .inl ((hp j o').1 hj).1)
    (fun j o' hne => ?_) ?_
  · simp [hp, hne]
  · rw [LeasedState.unpin_count]
    exact (h.count o).remove hi fun j => by simp [hp]

omit h

/-- `checkAndMarkForDeletion` on the state of an entry. -/
theorem Counted.check (h : m.Counted pins none) (hl : m.load k = some o) (timeout now : Int) :
    (m.setState o ((m.states o).checkAndMarkForDeletion timeout now).1).Counted pins
      (if ((m.states o).checkAndMarkForDeletion timeout now).2 then some (k, o) else none) := by
  rcases (m.states o).check_cases timeout now with ⟨t, he⟩ | ⟨hidle, he⟩
  · rw [he]
    exact h.setState (h.stored k o hl) rfl (fun _ _ hp => .inl hp) (fun _ _ _ => Iff.rfl) (h.count o)
  · -- the count is down, so nobody has the state pinned
    have hne : ∀ i o', pins i o' → o' ≠ o := fun i o' hp he => (h.count o).none_of_le hidle i (he ▸ hp)
    rw [he]
    refine ⟨h.stored, h.single, h.allocated, fun o' => ?_, fun i o' hp => ?_, fun k' o' hk hm => ?_, fun k' o' hd => ?_⟩
    · by_cases heq : o' = o
      · subst heq
        simpa only [LeaseMap.setState, update_self] using h.count o'
      · simp only [LeaseMap.setState, update_of_ne heq]
        exact h.count o'
    · simp only [LeaseMap.setState, update_of_ne (hne i o' hp)]
      exact h.live i o' hp
    · by_cases heq : o' = o
      · subst heq
        rw [h.single k' k o' hk hl]
        rfl
      · simp only [LeaseMap.setState, update_of_ne heq] at hm
        exact absurd (h.marked k' o' hk hm) nofun
    · cases hd
      exact ⟨hl, by simp [LeaseMap.setState]⟩

/-- Deleting an entry that is not doomed. -/
theorem Counted.delete (h : m.Counted pins doomed) (hk : ∀ o, doomed ≠ some (k, o)) :
    (m.delete k).Counted pins doomed := by
  refine ⟨fun k' o hl => h.stored k' o (load_of_load_delete hl).2,
    fun k₁ k₂ o h₁ h₂ => h.single k₁ k₂ o (load_of_load_delete h₁).2 (load_of_load_delete h₂).2,
    h.allocated, h.count, h.live, fun k' o hl => h.marked k' o (load_of_load_delete hl).2, fun k' o hd => ?_⟩
  obtain ⟨hl, hm⟩ := h.doom k' o hd
  refine ⟨?_, hm⟩
  rw [load_delete, if_neg]
  · exact hl
  · rintro rfl
    exact hk o hd

/-- Deleting the doomed entry. -/
theorem Counted.deleteDoomed (h : m.Counted pins (some (k, o))) : (m.delete k).Counted pins none := by
  refine ⟨fun k' o' hl => h.stored k' o' (load_of_load_delete hl).2,
    fun k₁ k₂ o' h₁ h₂ => h.single k₁ k₂ o' (load_of_load_delete h₁).2 (load_of_load_delete h₂).2,
    h.allocated, h.count, h.live, fun k' o' hl hm => ?_, nofun⟩
  obtain ⟨hne, hold⟩ := load_of_load_delete hl
  have hd := h.marked k' o' hold hm
  rw [Option.some.injEq, Prod.mk.injEq] at hd
  exact absurd hd.1.symm hne

/-- An entry whose state is not marked is not deleted by the collector. -/
theorem Counted.load_deleteDoomed (h : m.Counted pins (some (k, o))) {o' : Nat} (hl : m.load k' = some o')
    (hm : (m.states o').markedForDeletion = false) : (m.delete k).load k' = some o' := by
  rw [load_delete, if_neg]
  · exact hl
  · rintro rfl
    obtain ⟨hlo, hmo⟩ := h.doom k' o rfl
    rw [hl, Option.some.injEq] at hlo
    rw [← hlo, hm] at hmo
    cases hmo

/-! ## What stays -/

/-- The map grows, and an entry that goes has been marked. -/
structure Evolves (m m' : LeaseMap K) : Prop where
  next : m.next ≤ m'.next
  entry : ∀ k o, m.load k = some o → m'.load k = some o ∨ (m'.states o).markedForDeletion = true
  mark : ∀ o < m.next, (m.states o).markedForDeletion = true → (m'.states o).markedForDeletion = true

theorem Evolves.refl (m : LeaseMap K) : m.Evolves m := ⟨le_rfl, fun _ _ hl => .inl hl, fun _ _ hm => hm⟩

theorem evolves_store (h : m.load k = none) : m.Evolves (m.store k) :=
  ⟨Nat.le_succ _, fun k' o hl => .inl (load_store_of_some h hl), fun o ho hm => by rwa [states_store k ho]⟩

theorem load_loadOrStore (h : m.load k' = some o) : (m.loadOrStore k).1.load k' = some o := by
  cases hk : m.load k with
  | some o' => rwa [loadOrStore_of_some hk]
  | none => rw [loadOrStore_of_none hk]; exact load_store_of_some hk h

theorem evolves_loadOrStore (m : LeaseMap K) (k : K) : m.Evolves (m.loadOrStore k).1 := by
  cases hk : m.load k with
  | some o => rw [loadOrStore_of_some hk]; exact .refl m
  | none => rw [loadOrStore_of_none hk]; exact evolves_store hk

theorem evolves_setState (hm : (m.states o).markedForDeletion = true → ls.markedForDeletion = true) :
    m.Evolves (m.setState o ls) := by
  refine ⟨le_rfl, fun k o' hl => .inl hl, fun o' _ hm' => ?_⟩
  by_cases he : o' = o
  · subst he
    simpa only [LeaseMap.setState, update_self] using hm hm'
  · simpa only [LeaseMap.setState, update_of_ne he] using hm'

theorem evolves_unpin (m : LeaseMap K) (o : Nat) (now : Int) : m.Evolves (m.unpin o now) :=
  evolves_setState fun hm => by rw [LeasedState.unpin_marked, hm]

theorem evolves_delete (h : ∀ o, m.load k = some o → (m.states o).markedForDeletion = true) :
    m.Evolves (m.delete k) := by
  refine ⟨le_rfl, fun k' o hl => ?_, fun _ _ hm => hm⟩
  by_cases hk : k' = k
  · subst hk
    exact .inr (h o hl)
  · rw [load_delete, if_neg hk]
    exact .inl hl

end LeaseMap

/-- No step of a pinning call deletes an entry or a mark. -/
theorem Pinning.evolves (m : LeaseMap K) (k : K) (now : Int) (p : Pinning) : m.Evolves (p.step m k now).1 := by
  cases p with
  | loading | confirming o isNew =>
    simp only [Pinning.step]
    split <;> exact .refl m
  | storing => exact m.evolves_loadOrStore k
  | trying o isNew =>
    simp only [Pinning.step]
    split
    · rename_i ls hpin
      refine LeaseMap.evolves_setState fun hm => ?_
      rw [LeasedState.tryPin, if_pos hm] at hpin
      cases hpin
    · exact .refl m
  | backingOff o => exact m.evolves_unpin o now

theorem Pinning.load_step {m : LeaseMap K} {k' : K} {o : Nat} (hl : m.load k' = some o) (k : K) (now : Int) (p : Pinning) :
    (p.step m k now).1.load k' = some o := by
  cases p with
  | storing => exact LeaseMap.load_loadOrStore hl
  | backingOff o' => exact hl
  | _ =>
    simp only [Pinning.step]
    split <;> exact hl

/-- The collector marks what it deletes. -/
theorem Collecting.evolves {ι : Type} {m : LeaseMap K} {pins : ι → Nat → Prop} {c : Collecting K}
    (h : m.Counted pins c.doomed) (timeout : Int) : m.Evolves (c.step m timeout).1 := by
  cases c with
  | ranging now found => exact .refl m
  | checking now found k o =>
    simp only [Collecting.step]
    rcases (m.states o).check_cases timeout now with ⟨t, he⟩ | ⟨-, he⟩ <;> rw [he]
    · exact LeaseMap.evolves_setState fun hm => hm
    · exact LeaseMap.evolves_setState fun _ => rfl
  | deleting now found k o =>
    obtain ⟨hl, hm⟩ := h.doom k o rfl
    simp only [Collecting.step, hl]
    refine LeaseMap.evolves_delete fun o' hl' => ?_
    rw [hl, Option.some.injEq] at hl'
    exact hl' ▸ hm

namespace Collecting

variable {ι : Type} {m : LeaseMap K} {pins : ι → Nat → Prop} {c : Collecting K}

theorem next_step (m : LeaseMap K) (timeout : Int) (c : Collecting K) : (c.step m timeout).1.next = m.next := by
  cases c with
  | ranging now found | checking now found k o => rfl
  | deleting now found k o =>
    simp only [Collecting.step]
    split <;> rfl

theorem counted_step (h : m.Counted pins c.doomed) (hv : ∀ k o, c.visiting = some (k, o) → m.load k = some o) (timeout : Int) :
    (c.step m timeout).1.Counted pins (c.step m timeout).2.doomed := by
  cases c with
  | ranging now found => exact h
  | checking now found k o =>
    have hcheck := LeaseMap.Counted.check h (hv k o rfl) timeout now
    cases he : ((m.states o).checkAndMarkForDeletion timeout now).2 <;>
      simpa only [Collecting.step, he, Bool.false_eq_true, if_true, if_false, Collecting.doomed] using hcheck
  | deleting now found k o =>
    simp only [Collecting.step, hv k o rfl]
    exact LeaseMap.Counted.deleteDoomed h

variable {k : K} {o : Nat}

/-- The collector stays with an entry until it is deleted. -/
theorem visiting_step (hv : ∀ k o, c.visiting = some (k, o) → m.load k = some o) {timeout : Int}
    (h : (c.step m timeout).2.visiting = some (k, o)) : (c.step m timeout).1.load k = some o := by
  cases c with
  | ranging now found => cases h
  | checking now found k' o' =>
    simp only [Collecting.step] at h ⊢
    split at h
    · cases h; exact hv k o rfl
    · cases h
  | deleting now found k' o' =>
    simp only [Collecting.step, hv k' o' rfl] at h
    cases h

theorem visiting_visit {k' : K} (hv : ∀ k o, c.visiting = some (k, o) → m.load k = some o)
    (h : (c.visit m k').visiting = some (k, o)) : m.load k = some o := by
  cases c with
  | ranging now found =>
    simp only [Collecting.visit] at h
    split at h
    · cases h; assumption
    · cases h
  | checking now found k₁ o₁ | deleting now found k₁ o₁ => exact hv k o h

theorem doomed_visit (m : LeaseMap K) (k : K) (c : Collecting K) : (c.visit m k).doomed = c.doomed := by
  cases c with
  | ranging now found =>
    simp only [Collecting.visit]
    split <;> rfl
  | _ => rfl

theorem resourcesToClean_visit (m : LeaseMap K) (k : K) (c : Collecting K) :
    (c.visit m k).resourcesToClean = c.resourcesToClean := by
  cases c with
  | ranging now found =>
    simp only [Collecting.visit]
    split <;> rfl
  | _ => rfl

/-- The collector enters nothing. -/
theorem load_of_step {timeout : Int} (h : (c.step m timeout).1.load k = some o) : m.load k = some o := by
  cases c with
  | ranging now found | checking now found k' o' => exact h
  | deleting now found k' o' =>
    simp only [Collecting.step] at h
    split at h
    · exact (LeaseMap.load_of_load_delete h).2
    · exact h

/-- It deletes nothing that is pinned. -/
theorem load_step (h : m.Counted pins c.doomed) (timeout : Int) {i : ι} (hp : pins i o) (hl : m.load k = some o) :
    (c.step m timeout).1.load k = some o := by
  cases c with
  | ranging now found | checking now found k' o' => exact hl
  | deleting now found k' o' =>
    simp only [Collecting.step, (h.doom k' o' rfl).1]
    exact LeaseMap.Counted.load_deleteDoomed h hl (h.live i o hp)

end Collecting

end InferenceGateway.Registry
