import Mathlib
/-!
# Counting

A counter that is raised and lowered by many parties is right when it is the number
of those that hold a share of it. `Counts n p` says that `n` is the number of the
`i` that `p` holds of, and that there are finitely many.
-/

namespace InferenceGateway.Lib

variable {ι κ : Type*} {n m : Int} {p q : ι → Prop}

def Counts (n : Int) (p : ι → Prop) : Prop := ∃ s : Finset ι, (∀ i, i ∈ s ↔ p i) ∧ n = s.card

namespace Counts

theorem zero (h : ∀ i, ¬ p i) : Counts 0 p := ⟨∅, by simpa using h, rfl⟩

variable (h : Counts n p)
include h

theorem congr (hpq : ∀ i, q i ↔ p i) : Counts n q := by
  obtain ⟨s, hs, rfl⟩ := h
  exact ⟨s, fun i => (hs i).trans (hpq i).symm, rfl⟩

theorem unique (h' : Counts m p) : n = m := by
  obtain ⟨s, hs, rfl⟩ := h
  obtain ⟨t, ht, rfl⟩ := h'
  rw [Finset.ext fun i => (hs i).trans (ht i).symm]

theorem nonneg : 0 ≤ n := by
  obtain ⟨s, -, rfl⟩ := h
  exact Int.natCast_nonneg _

variable {i : ι}

theorem pos (hi : p i) : 0 < n := by
  obtain ⟨s, hs, rfl⟩ := h
  exact Int.natCast_pos.2 (Finset.card_pos.2 ⟨i, (hs i).2 hi⟩)

/-- Nobody holds a share of a counter that is down. -/
theorem none_of_le (hn : n ≤ 0) (i : ι) : ¬ p i :=
  fun hi => absurd (h.pos hi) (not_lt.2 hn)

/-- One more. -/
theorem add (hi : ¬ p i) (hq : ∀ j, q j ↔ p j ∨ j = i) : Counts (n + 1) q := by
  classical
  obtain ⟨s, hs, rfl⟩ := h
  refine ⟨insert i s, fun j => ?_, ?_⟩
  · rw [Finset.mem_insert, hs, hq, or_comm]
  · rw [Finset.card_insert_of_notMem fun hmem => hi ((hs i).1 hmem)]
    rfl

/-- One less. -/
theorem remove (hi : p i) (hq : ∀ j, q j ↔ p j ∧ j ≠ i) : Counts (n - 1) q := by
  classical
  obtain ⟨s, hs, rfl⟩ := h
  have hmem : i ∈ s := (hs i).2 hi
  refine ⟨s.erase i, fun j => ?_, ?_⟩
  · rw [Finset.mem_erase, hs, hq, and_comm]
  · rw [Finset.card_erase_of_mem hmem]
    have := Finset.card_pos.2 ⟨i, hmem⟩
    omega

omit h

/-- The members of a list without repetitions. -/
theorem of_nodup {l : List ι} (hl : l.Nodup) : Counts l.length (· ∈ l) := by
  classical
  exact ⟨l.toFinset, fun i => List.mem_toFinset, by rw [List.toFinset_card_of_nodup hl]⟩

end Counts

end InferenceGateway.Lib
