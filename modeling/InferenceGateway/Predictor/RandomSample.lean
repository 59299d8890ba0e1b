import InferenceGateway.Lib.Sorting
/-!
# The sample of the training entries

`randomSample` of `training.go`, with the proportions taken as exact fractions. Each
group gives its share, rounded down, and what is missing then comes from the largest
group, as far as that has it. There is too little in it only if one entry has to be left
out and none of the three groups is empty.
-/

namespace InferenceGateway.Predictor

open Lib List Function Nat

/-- `R` is for the fields that the sampling does not read. -/
structure TrainingEntry (R : Type) where
  actualTTFT : ℚ
  actualTPOT : ℚ
  rest : R
deriving DecidableEq

inductive Group where
  | ttft
  | tpot
  | other
deriving DecidableEq

variable {R : Type}

def TrainingEntry.group (entry : TrainingEntry R) : Group :=
  if 0 < entry.actualTTFT then .ttft else if 0 < entry.actualTPOT then .tpot else .other

def groupOf (entries : List (TrainingEntry R)) (g : Group) : List (TrainingEntry R) := entries.filter fun e => e.group = g

/-- The first of the groups that are not smaller than another. -/
def largestGroup (size : Group → ℕ) : Group :=
  if size .tpot ≤ size .ttft ∧ size .other ≤ size .ttft then .ttft
  else if size .other ≤ size .tpot then .tpot
  else .other

/-- Of all groups together. -/
def total (f : Group → ℕ) : ℕ := f .ttft + f .tpot + f .other

/-- The part of a group in proportion. -/
def share (len : Group → ℕ) (totalEntries maxSize : ℕ) (g : Group) : ℕ := len g * maxSize / totalEntries

/-- A size that would fall below zero samples nothing, as zero does. -/
def sampleSizes (len : Group → ℕ) (totalEntries maxSize : ℕ) : Group → ℕ :=
  let size := share len totalEntries maxSize
  let totalSampled := total size
  if totalSampled < maxSize then
    update size (largestGroup len) (size (largestGroup len) + (maxSize - totalSampled))
  else if maxSize < totalSampled then
    update size (largestGroup size) (size (largestGroup size) - (totalSampled - maxSize))
  else size

def sampleFromSlice (shuffle : Shuffle (TrainingEntry R)) (entries : List (TrainingEntry R)) (sampleSize : ℕ) :
    List (TrainingEntry R) :=
  if entries.length ≤ sampleSize then entries else (shuffle.run entries).take sampleSize

def sampleGroup (shuffle : Shuffle (TrainingEntry R)) (entries : List (TrainingEntry R)) (sampleSize : ℕ) :
    List (TrainingEntry R) :=
  if 0 < sampleSize ∧ 0 < entries.length then sampleFromSlice shuffle entries (min sampleSize entries.length) else []

def randomSample (shuffle : Group → Shuffle (TrainingEntry R)) (entries : List (TrainingEntry R)) (maxSize : ℕ) :
    List (TrainingEntry R) :=
  if entries.length ≤ maxSize then entries
  else if entries.length = 0 then entries
  else
    let size := sampleSizes (fun g => (groupOf entries g).length) entries.length maxSize
    sampleGroup (shuffle .ttft) (groupOf entries .ttft) (size .ttft) ++
      sampleGroup (shuffle .tpot) (groupOf entries .tpot) (size .tpot) ++
      sampleGroup (shuffle .other) (groupOf entries .other) (size .other)

/-! ## The sizes -/

section Sizes

variable {len : Group → ℕ} {n m : ℕ}

theorem forall_group {P : Group → Prop} : (∀ g, P g) ↔ P .ttft ∧ P .tpot ∧ P .other :=
  ⟨fun h => ⟨h _, h _, h _⟩, fun h g => by cases g <;> simp [h]⟩

theorem total_add_ite (f : Group → ℕ) (g : Group) (k : ℕ) : total (fun g' => f g' + if g' = g then k else 0) = total f + k := by
  cases g <;> simp only [total, reduceCtorEq, if_true, if_false] <;> omega

theorem le_largestGroup (size : Group → ℕ) (g : Group) : size g ≤ size (largestGroup size) := by
  unfold largestGroup
  cases g <;> split <;> (try split) <;> omega

section
variable (hm : m < n)
include hm

/-- What a group has and what its share is, with `m` of `n` entries to be sampled. -/
theorem share_add (len : Group → ℕ) (g : Group) : n * share len n m g + len g * m % n + len g * (n - m) = n * len g := by
  rw [share, Nat.div_add_mod, ← Nat.mul_add, Nat.add_sub_cancel' hm.le, Nat.mul_comm]

/-- The shares leave something of every group, and no less of a larger one. -/
theorem share_lt {g : Group} (hg : 0 < len g) : share len n m g < len g := by
  have hadd := share_add hm len g
  have hpos := Nat.mul_pos hg (Nat.sub_pos_of_lt hm)
  exact Nat.lt_of_mul_lt_mul_left (a := n) (by omega)

theorem rest_mono {g g' : Group} (hle : len g ≤ len g') : len g + share len n m g' ≤ len g' + share len n m g := by
  have hadd := share_add hm len g
  have hadd' := share_add hm len g'
  have hmod := mod_lt (len g * m) (zero_lt_of_lt hm)
  have hmul := mul_le_mul_right (n - m) hle
  refine Nat.le_of_lt_succ (Nat.lt_of_mul_lt_mul_left (a := n) ?_)
  rw [Nat.mul_succ, Nat.mul_add, Nat.mul_add]
  omega

/-- Together they are at most two too few. -/
theorem total_shares (hn : total len = n) : total (share len n m) ≤ m ∧ m < total (share len n m) + 3 := by
  have hdiv : ∀ g, n * share len n m g + len g * m % n = len g * m ∧ len g * m % n < n := fun g =>
    ⟨div_add_mod (len g * m) n, mod_lt _ (zero_lt_of_lt hm)⟩
  obtain ⟨h₁, h₂, h₃⟩ := forall_group.1 hdiv
  have hmul : len .ttft * m + len .tpot * m + len .other * m = n * m := by rw [← hn, total, add_mul, add_mul]
  constructor
  · refine Nat.le_of_mul_le_mul_left (c := n) ?_ (Nat.zero_lt_of_lt hm)
    simp only [total, mul_add]
    omega
  · refine Nat.lt_of_mul_lt_mul_left (a := n) ?_
    simp only [total, mul_add]
    omega

/-- What the shares leave out is in the largest group, but for one case: if it is not, then two are left out and no
group has more than one beyond its share. -/
theorem rest_fits (hn : total len = n) :
    share len n m (largestGroup len) + (m - total (share len n m)) ≤ len (largestGroup len) ∨ n = m + 1 ∧ ∀ g, 0 < len g := by
  have hshares := total_shares hm hn
  obtain ⟨h₁, h₂, h₃⟩ := forall_group.1 fun g => rest_mono hm (le_largestGroup len g)
  rw [forall_group]
  simp only [total] at hn hshares ⊢
  omega

end

theorem sampleSizes_eq (hm : m < n) (hn : total len = n) (g : Group) :
    sampleSizes len n m g = share len n m g + if g = largestGroup len then m - total (share len n m) else 0 := by
  have hle := (total_shares hm hn).1
  simp only [sampleSizes]
  by_cases hless : total (share len n m) < m
  · rw [if_pos hless, update_apply]
    split
    · rename_i hg
      rw [hg]
    · rfl
  · rw [if_neg hless, if_neg (Nat.not_lt.2 hle), Nat.sub_eq_zero_of_le (Nat.not_lt.1 hless), ite_self]
    rfl

/-- The sample has the size that was asked for, but for one case, in which one entry is missing. -/
theorem total_sampled_iff (hm : m < n) (hn : total len = n) :
    total (fun g => min (sampleSizes len n m g) (len g)) = m ↔ ¬ (n = m + 1 ∧ ∀ g, 0 < len g) := by
  have hle := (total_shares hm hn).1
  simp only [sampleSizes_eq hm hn]
  constructor
  · rintro hexact ⟨rfl, hall⟩
    have hshare : ∀ g, share len (m + 1) m g + 1 = len g := by
      intro g
      have hlt : len g < m + 1 := by
        obtain ⟨h₁, h₂, h₃⟩ := forall_group.1 hall
        simp only [total] at hn
        cases g <;> omega
      have hadd := share_add hm len g
      have hmod := mod_lt (len g * m) (zero_lt_of_lt hm)
      have hle : len g < share len (m + 1) m g + 2 := by
        refine Nat.lt_of_mul_lt_mul_left (a := m + 1) ?_
        rw [Nat.add_sub_cancel_left, Nat.mul_one] at hadd
        rw [mul_add]
        omega
      have := share_lt hm (hall g)
      omega
    obtain ⟨h₁, h₂, h₃⟩ := forall_group.1 hshare
    have htotal : total (share len (m + 1) m) + 3 = m + 1 := by
      simp only [total] at hn ⊢
      omega
    have hsampled : ∀ g, min (share len (m + 1) m g + if g = largestGroup len then m - total (share len (m + 1) m) else 0)
        (len g) = share len (m + 1) m g + if g = largestGroup len then 1 else 0 := by
      intro g
      have := hshare g
      split <;> omega
    simp only [hsampled, total_add_ite] at hexact
    omega
  · intro hnot
    have hfits := (rest_fits hm hn).resolve_right hnot
    have hsampled : ∀ g, min (share len n m g + if g = largestGroup len then m - total (share len n m) else 0) (len g) =
        share len n m g + if g = largestGroup len then m - total (share len n m) else 0 := by
      intro g
      refine min_eq_left ?_
      split
      · rename_i hg
        rw [hg]
        exact hfits
      · exact Nat.div_le_of_le_mul (Nat.mul_comm n _ ▸ Nat.mul_le_mul_left _ hm.le)
    simp only [hsampled, total_add_ite]
    omega

end Sizes

/-! ## The sample -/

variable {shuffle : Shuffle (TrainingEntry R)} {entries : List (TrainingEntry R)}

theorem length_sampleGroup (k : ℕ) : (sampleGroup shuffle entries k).length = min k entries.length := by
  unfold sampleGroup sampleFromSlice
  have hlength := (shuffle.perm entries).length_eq
  split
  · split
    · omega
    · rw [length_take]
      omega
  · rw [length_nil]
    omega

theorem sampleGroup_subperm (k : ℕ) : (sampleGroup shuffle entries k).Subperm entries := by
  unfold sampleGroup sampleFromSlice
  split
  · split
    · exact List.Subperm.refl _
    · exact (take_sublist _ _).subperm.trans (shuffle.perm entries).subperm
  · exact nil_subperm

theorem groups_perm (entries : List (TrainingEntry R)) :
    (groupOf entries .ttft ++ groupOf entries .tpot ++ groupOf entries .other).Perm entries := by
  induction entries with
  | nil => rfl
  | cons e rest ih =>
    unfold groupOf at ih ⊢
    cases h : e.group with
    | ttft => simpa [h] using ih
    | tpot => simpa [h] using perm_middle.trans ((append_assoc .. ▸ ih).cons e)
    | other => simpa [h] using perm_middle.trans (ih.cons e)

/-- The sample is of the entries, no group gives more than it has, and the size is as
asked for unless one entry is to be left out and no group is empty. -/
theorem randomSample_exact_iff (shuffle : Group → Shuffle (TrainingEntry R)) (entries : List (TrainingEntry R)) (maxSize : ℕ) :
    (randomSample shuffle entries maxSize).Subperm entries ∧
    (∀ g, (groupOf (randomSample shuffle entries maxSize) g).length ≤ (groupOf entries g).length) ∧
    ((randomSample shuffle entries maxSize).length = min maxSize entries.length ↔
      ¬ (entries.length = maxSize + 1 ∧ ∀ g, groupOf entries g ≠ [])) := by
  have hsub : (randomSample shuffle entries maxSize).Subperm entries := by
    unfold randomSample
    split
    · exact List.Subperm.refl _
    · split
      · exact List.Subperm.refl _
      · exact (((sampleGroup_subperm _).append (sampleGroup_subperm _)).append (sampleGroup_subperm _)).trans
          (groups_perm entries).subperm
  refine ⟨hsub, fun g => ?_, ?_⟩
  · rw [groupOf, groupOf, ← countP_eq_length_filter, ← countP_eq_length_filter]
    exact hsub.countP_le _
  · unfold randomSample
    split
    · rename_i hle
      rw [min_eq_right hle, eq_self, true_iff]
      omega
    · rename_i hlt
      have hn : total (fun g => (groupOf entries g).length) = entries.length := by
        rw [← (groups_perm entries).length_eq, length_append, length_append, total]
      rw [if_neg (by omega), min_eq_left (by omega)]
      simp only [length_append, length_sampleGroup, ← length_pos_iff]
      exact total_sampled_iff (by omega) hn

/-- An entry of each group, of which two are asked for and one is returned. -/
theorem sample_one_short :
    let entries : List (TrainingEntry ℕ) := [⟨1, 0, 0⟩, ⟨0, 1, 1⟩, ⟨0, 0, 2⟩]
    min 2 entries.length = 2 ∧ (randomSample (fun _ => .id) entries 2).length = 1 := by
  decide +kernel

end InferenceGateway.Predictor
