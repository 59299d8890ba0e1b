import Mathlib
/-!
# The binary tree in an array

Position `j > 0` of an array is a child of position `(j - 1) / 2`. `Under r j`
says that `j` is in the subtree of `r`, and `Within n r a b` that `b` is `a`
with the first `n` entries of that subtree permuted among themselves, which is
all that sifting at `r` does to an array. Arrays are functions on positions;
exchanging two entries is composing with `Equiv.swap`.
-/

namespace InferenceGateway.Lib.ArrayTree

variable {α : Type*}

def parent (j : Nat) : Nat := (j - 1) / 2

/-- `j` is `r` or one of its descendants. -/
inductive Under (r : Nat) : Nat → Prop
  | self : Under r r
  | child {j : Nat} : 0 < j → Under r (parent j) → Under r j

theorem parent_lt {j : Nat} (h : 0 < j) : parent j < j := by
  unfold parent; omega

theorem eq_child_of_parent {j i : Nat} (h0 : 0 < j) (h : parent j = i) : j = 2 * i + 1 ∨ j = 2 * i + 2 := by
  unfold parent at h; omega

namespace Under

variable {j r : Nat}

theorem le (h : Under r j) : r ≤ j := by
  induction h with
  | self => exact Nat.le_refl r
  | child h0 _ ih => have := parent_lt h0; omega

theorem trans {i : Nat} (h : Under r i) (h' : Under i j) : Under r j := by
  induction h' with
  | self => exact h
  | child h0 _ ih => exact .child h0 ih

theorem antisymm (h : Under r j) (h' : Under j r) : r = j :=
  Nat.le_antisymm h.le h'.le

/-- Every position is under the root. -/
theorem root (j : Nat) : Under 0 j := by
  induction j using Nat.strongRecOn with
  | ind j ih =>
    rcases Nat.eq_zero_or_pos j with rfl | h
    · exact .self
    · exact .child h (ih _ (parent_lt h))

/-- A proper ancestor of `j` is above `j`'s parent. -/
theorem up (h : Under r j) (hne : r ≠ j) : 0 < j ∧ Under r (parent j) := by
  cases h with
  | self => exact absurd rfl hne
  | child h0 h => exact ⟨h0, h⟩

/-- A proper descendant of `i` is under one of its children. -/
theorem down {i : Nat} (h : Under i j) (hne : i ≠ j) : Under (2 * i + 1) j ∨ Under (2 * i + 2) j := by
  induction h with
  | self => exact absurd rfl hne
  | @child j h0 h ih =>
    by_cases hi : i = parent j
    · rcases eq_child_of_parent h0 hi.symm with rfl | rfl
      · exact .inl .self
      · exact .inr .self
    · rcases ih hi with h' | h'
      · exact .inl (.child h0 h')
      · exact .inr (.child h0 h')

end Under

/-- The subtree test as a walk over the ancestors. -/
def underB (r : Nat) : Nat → Nat → Bool
  | 0, j => r == j
  | fuel + 1, j => r == j || (j != 0 && underB r fuel (parent j))

theorem underB_iff (r : Nat) (fuel : Nat) : ∀ j, j ≤ fuel → (underB r fuel j = true ↔ Under r j) := by
  induction fuel with
  | zero =>
    intro j hj
    obtain rfl : j = 0 := by omega
    constructor
    · intro h
      simp only [underB, beq_iff_eq] at h
      rw [h]; exact .self
    · intro h
      have := h.le
      simp only [underB, beq_iff_eq]; omega
  | succ fuel ih =>
    intro j hj
    simp only [underB, Bool.or_eq_true, beq_iff_eq, Bool.and_eq_true, bne_iff_ne, ne_eq]
    constructor
    · rintro (rfl | ⟨h0, h⟩)
      · exact .self
      · have := parent_lt (Nat.pos_of_ne_zero h0)
        exact .child (Nat.pos_of_ne_zero h0) ((ih _ (by omega)).1 h)
    · intro h
      by_cases hne : r = j
      · exact .inl hne
      · obtain ⟨h0, hu⟩ := h.up hne
        have := parent_lt h0
        exact .inr ⟨by omega, (ih _ (by omega)).2 hu⟩

instance (r j : Nat) : Decidable (Under r j) :=
  decidable_of_iff _ (underB_iff r j j (Nat.le_refl j))

/-! ## Permuting a subtree -/

/-- `b` is `a` with the first `n` entries under `r` permuted among themselves. -/
def Within (n r : Nat) (a b : Nat → α) : Prop :=
  ∃ σ : Equiv.Perm Nat, (∀ j, ¬ Under r j ∨ n ≤ j → σ j = j) ∧ b = a ∘ σ

namespace Within

variable {n r : Nat} {a b c : Nat → α}

theorem refl (n r : Nat) (a : Nat → α) : Within n r a a :=
  ⟨1, fun _ _ => rfl, rfl⟩

theorem trans (h : Within n r a b) (h' : Within n r b c) : Within n r a c := by
  obtain ⟨σ, hσ, rfl⟩ := h
  obtain ⟨τ, hτ, rfl⟩ := h'
  refine ⟨σ * τ, fun j hj => ?_, rfl⟩
  rw [Equiv.Perm.mul_apply, hτ j hj, hσ j hj]

theorem mono {i : Nat} (h : Within n i a b) (hr : Under r i) : Within n r a b := by
  obtain ⟨σ, hσ, rfl⟩ := h
  exact ⟨σ, fun j hj => hσ j (hj.imp_left fun hn hu => hn (hr.trans hu)), rfl⟩

theorem swap {p q : Nat} (hp : Under r p) (hq : Under r q) (hpn : p < n) (hqn : q < n) :
    Within n r a (a ∘ Equiv.swap p q) := by
  refine ⟨Equiv.swap p q, fun j hj => Equiv.swap_apply_of_ne_of_ne ?_ ?_, rfl⟩
  · rintro rfl; rcases hj with hj | hj
    · exact hj hp
    · omega
  · rintro rfl; rcases hj with hj | hj
    · exact hj hq
    · omega

variable {j : Nat}

theorem outside (h : Within n r a b) (hj : ¬ Under r j) : b j = a j := by
  obtain ⟨σ, hσ, rfl⟩ := h
  simp [hσ j (.inl hj)]

/-- Every entry of `b` in the subtree comes from an entry of `a` in it. -/
theorem source (h : Within n r a b) (hj : Under r j) (hn : j < n) : ∃ i, i < n ∧ Under r i ∧ b j = a i := by
  obtain ⟨σ, hσ, rfl⟩ := h
  refine ⟨σ j, ?_, ?_, rfl⟩
  · by_contra hlt
    have := σ.injective (hσ (σ j) (.inr (by omega)))
    omega
  · by_contra hu
    have := σ.injective (hσ (σ j) (.inl hu))
    exact hu (by rw [this]; exact hj)

/-- Every entry of `a` in the subtree is an entry of `b` in it. -/
theorem target (h : Within n r a b) (hj : Under r j) (hn : j < n) : ∃ i, i < n ∧ Under r i ∧ b i = a j := by
  obtain ⟨σ, hσ, rfl⟩ := h
  refine ⟨σ.symm j, ?_, ?_, by simp⟩
  · by_contra hlt
    have := hσ (σ.symm j) (.inr (by omega))
    rw [Equiv.apply_symm_apply] at this
    omega
  · by_contra hu
    have := hσ (σ.symm j) (.inl hu)
    rw [Equiv.apply_symm_apply] at this
    exact hu (this ▸ hj)

end Within

end InferenceGateway.Lib.ArrayTree
