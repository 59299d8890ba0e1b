import Mathlib
/-!
# Sorting by a comparison

A sort is given a three-way comparison as `slices.SortStableFunc` is: negative when the
first entry belongs before the second. Whatever the comparison does, the result is a
permutation; it is in order when the comparison is an order on the entries at hand.
-/

namespace InferenceGateway.Lib

open List

variable {α : Type}

/-- The comparison orders the entries of the list. -/
structure OrdersOn (cmp : α → α → Int) (l : List α) : Prop where
  antisymm : ∀ a ∈ l, ∀ b ∈ l, cmp a b < 0 ↔ 0 < cmp b a
  trans : ∀ a ∈ l, ∀ b ∈ l, ∀ c ∈ l, cmp a b ≤ 0 → cmp b c ≤ 0 → cmp a c ≤ 0

variable {cmp : α → α → Int} {l : List α}

theorem OrdersOn.of_subset {l' : List α} (h : OrdersOn cmp l) (hsub : ∀ a ∈ l', a ∈ l) : OrdersOn cmp l' where
  antisymm a ha b hb := h.antisymm a (hsub a ha) b (hsub b hb)
  trans a ha b hb c hc := h.trans a (hsub a ha) b (hsub b hb) c (hsub c hc)

/-- What a sort function promises. -/
structure SortFunc (α : Type) where
  run : (α → α → Int) → List α → List α
  perm : ∀ cmp l, (run cmp l).Perm l
  sorted : ∀ cmp l, OrdersOn cmp l → (run cmp l).Pairwise fun a b => cmp a b ≤ 0

/-- A source of randomness may put a list in any order. -/
structure Shuffle (α : Type) where
  run : List α → List α
  perm : ∀ l, (run l).Perm l

def Shuffle.id : Shuffle α := ⟨fun l => l, fun l => .refl l⟩

/-! ## Insertion sort -/

/-- The entry moves to the front past every entry it belongs before. The entries already
in place are given last one first. -/
def insertBack (cmp : α → α → Int) (x : α) : List α → List α
  | [] => [x]
  | y :: ys => if cmp x y < 0 then y :: insertBack cmp x ys else x :: y :: ys

def insertionSort (cmp : α → α → Int) (l : List α) : List α :=
  (l.foldl (fun placed x => insertBack cmp x placed) []).reverse

theorem insertBack_perm (cmp : α → α → Int) (x : α) (l : List α) : (insertBack cmp x l).Perm (x :: l) := by
  induction l with
  | nil => exact .refl _
  | cons y ys ih =>
    rw [insertBack]
    split
    · exact (ih.cons y).trans (.swap x y ys)
    · exact .refl _

theorem placed_perm (cmp : α → α → Int) (l : List α) :
    ∀ placed, (l.foldl (fun placed x => insertBack cmp x placed) placed).Perm (l ++ placed) := by
  induction l with
  | nil => intro placed; exact .refl _
  | cons x l ih =>
    intro placed
    refine (ih _).trans ?_
    exact ((insertBack_perm cmp x placed).append_left l).trans perm_middle

theorem insertBack_sorted {x : α} (hord : OrdersOn cmp (x :: l)) (h : l.Pairwise fun a b => cmp b a ≤ 0) :
    (insertBack cmp x l).Pairwise fun a b => cmp b a ≤ 0 := by
  induction l with
  | nil => exact pairwise_singleton _ _
  | cons y ys ih =>
    obtain ⟨hy, hys⟩ := pairwise_cons.1 h
    have htail : OrdersOn cmp (x :: ys) := hord.of_subset (by grind)
    rw [insertBack]
    split
    · rename_i hlt
      refine pairwise_cons.2 ⟨?_, ih htail hys⟩
      intro z hz
      rcases mem_cons.1 ((insertBack_perm cmp x ys).mem_iff.1 hz) with rfl | hz
      · exact hlt.le
      · exact hy z hz
    · rename_i hge
      -- `x` stays last: it is not before `y`, and `y` not before what is in place
      have hyx : cmp y x ≤ 0 := by
        have := hord.antisymm x (by simp) y (by simp)
        omega
      refine pairwise_cons.2 ⟨?_, h⟩
      intro z hz
      rcases mem_cons.1 hz with rfl | hz
      · exact hyx
      · exact hord.trans z (by simp [hz]) y (by simp) x (by simp) (hy z hz) hyx

theorem placed_sorted (l : List α) : ∀ placed, OrdersOn cmp (l ++ placed) →
    placed.Pairwise (fun a b => cmp b a ≤ 0) →
    (l.foldl (fun placed x => insertBack cmp x placed) placed).Pairwise fun a b => cmp b a ≤ 0 := by
  induction l with
  | nil => intro placed _ h; exact h
  | cons x l ih =>
    intro placed hord h
    apply ih
    · refine hord.of_subset fun a ha => ?_
      rcases mem_append.1 ha with ha | ha
      · simp [ha]
      · have := (insertBack_perm cmp x placed).mem_iff.1 ha
        simp only [mem_cons] at this
        simp only [cons_append, mem_cons, mem_append]
        tauto
    · exact insertBack_sorted (hord.of_subset (by grind)) h

/-- What `slices.SortStableFunc` does with up to twenty entries. -/
def SortFunc.insertion : SortFunc α where
  run := insertionSort
  perm cmp l := by
    have h := placed_perm cmp l []
    rw [append_nil] at h
    exact (reverse_perm _).trans h
  sorted cmp l hord := by
    rw [insertionSort, pairwise_reverse]
    exact placed_sorted l [] (by rwa [append_nil]) List.Pairwise.nil

/-! ## The first entries of a sorted list -/

/-- Nothing left out belongs strictly before what the first `k` entries hold. -/
theorem take_first (h : l.Pairwise fun a b => cmp a b ≤ 0) (k : ℕ) {a b : α} (ha : a ∈ l.take k) (hb : b ∈ l.drop k) :
    cmp a b ≤ 0 := by
  rw [← take_append_drop k l] at h
  exact (pairwise_append.1 h).2.2 a ha b hb

end InferenceGateway.Lib
