import InferenceGateway.Queue.HeapCleanup
import InferenceGateway.Queue.HeapOrder
/-!
# The rebuild of Cleanup

`Cleanup` sifts the nodes of the packed array from the last parent up to the
root. Before each round the later nodes are in order, so a round is a single
sift down, and the rebuild works exactly as far as the sifts do.
-/

namespace InferenceGateway.Queue.MaxMinHeap

open Lib Lib.ArrayTree Lib.AltHeap

variable {α : Type} [QueueItemAccessor α]

/-! ## Rounds -/

/-- No sift of the rebuild's `k` rounds meets a child with children, each round
being made on what the textbook sift of the rounds before gives. -/
def rebuildClear (less : α → α → Bool) (h : MaxMinHeap α) : Nat → Bool
  | 0 => true
  | k + 1 => pathClear (ord less k) h h.items.length (h.get k) k &&
      rebuildClear less (settle (ord less k) h.items.length (h, k)) k

/-- The rebuild of `k` nodes stopped after `r` rounds. -/
def rounds (h : MaxMinHeap α) : Nat → Nat → MaxMinHeap α
  | k + 1, r + 1 => (h.down k).rounds k r
  | _, _ => h

/-- After every round, the nodes sifted so far and all later ones are in order. -/
def RoundsOk (h : MaxMinHeap α) (k : Nat) : Prop :=
  ∀ r, r ≤ k → ∀ j, k - r ≤ j → NodeOk h.less h.items.length (h.rounds k r).get j

theorem rounds_all (k : Nat) : ∀ h : MaxMinHeap α, h.rounds k k = h.rebuild k := by
  induction k with
  | zero => intro h; rfl
  | succ k ih => intro h; exact ih (h.down k)

theorem roundsOk_succ {h : MaxMinHeap α} {k : Nat} (hrest : ∀ j, k + 1 ≤ j → NodeOk h.less h.items.length h.get j) :
    h.RoundsOk (k + 1) ↔ (h.down k).RoundsOk k := by
  have hsw := h.down_swaps k
  unfold RoundsOk
  rw [hsw.less, hsw.length]
  constructor
  · intro hr r hle j hj
    exact hr (r + 1) (by omega) j (by omega)
  · intro hr r hle j hj
    cases r with
    | zero => exact hrest j (by omega)
    | succ r => exact hr r (by omega) j (by omega)

theorem siftsClean_eq (h : MaxMinHeap α) (i : Nat) :
    h.siftsClean i = pathClear (ord h.less i) h h.items.length (h.get i) i :=
  loopAll_eq_pathClear _ h i rfl fun _ _ _ _ => rfl

/-- The rebuild works round by round exactly as far as it is clear. -/
theorem roundsOk_iff (k : Nat) : ∀ h : MaxMinHeap α, IsStrictWeakOrder α (fun x y => h.less x y = true) →
    (∀ j, k ≤ j → NodeOk h.less h.items.length h.get j) → (h.RoundsOk k ↔ rebuildClear h.less h k = true) := by
  induction k with
  | zero =>
    intro h _ hrest
    refine iff_of_true (fun r hr j _ => ?_) rfl
    obtain rfl : r = 0 := by omega
    exact hrest j (Nat.zero_le j)
  | succ k ih =>
    intro h hw hrest
    have hsw := h.down_swaps k
    rw [roundsOk_succ hrest, rebuildClear, ← siftsClean_eq]
    cases hclean : h.siftsClean k with
    | false =>
      -- The round itself leaves a node out of order.
      refine iff_of_false (fun hr => ?_) (by simp)
      obtain ⟨j, hu, hbad⟩ := down_dirty h (fun j hu hne => hrest j (by have := hu.le; omega)) hclean
      have := hr 0 (Nat.zero_le k) j (by have := hu.le; omega)
      rw [hsw.less, hsw.length] at this
      exact hbad (by simpa [rounds] using this)
    | true =>
      rw [Bool.true_and, ← down_eq_settle h k hclean]
      rw [← hsw.less]
      refine ih (h.down k) (by rwa [hsw.less]) fun j hj => ?_
      rw [hsw.less, hsw.length]
      exact down_ok h (K := fun j => k ≤ j) (fun j hu => hu.le) (fun j hj hne => hrest j (by omega)) hclean j hj

theorem rebuild_valid {h : MaxMinHeap α} {k : Nat} (hr : h.RoundsOk k) :
    Valid h.less h.items.length (h.rebuild k).get := by
  intro j
  have := hr k (Nat.le_refl k) j (by omega)
  rwa [rounds_all] at this

/-! ## The condition only looks at the array -/

section Array
variable {behind : α → α → Bool} {h h' : MaxMinHeap α}

variable (hi : h'.items = h.items)
include hi

theorem get_congr : h'.get = h.get := by
  funext k; simp only [get, hi]

theorem swap_congr (p q : Nat) : (h'.swap p q).items = (h.swap p q).items := by
  rw [swap_items, swap_items, hi, get_congr hi]

theorem find_items (i : Nat) :
    findChildOrGrandchild behind h' i = findChildOrGrandchild behind h i :=
  find_congr (by rw [hi]) fun j _ _ _ => by rw [get_congr hi]

theorem downStep_items (i : Nat) :
    (downStep behind (h', i)).map (fun s => (s.1.items, s.2)) =
      (downStep behind (h, i)).map (fun s => (s.1.items, s.2)) := by
  simp only [downStep, find_items hi, get_congr hi]
  cases findChildOrGrandchild behind h i with
  | none => rfl
  | some m =>
    have hsw := swap_congr hi i m
    simp only [get_congr hsw]
    split_ifs <;> simp [hsw, swap_congr hsw]

omit hi

theorem settle_items (fuel : Nat) : ∀ (h h' : MaxMinHeap α) (i : Nat), h'.items = h.items →
    (settle behind fuel (h', i)).items = (settle behind fuel (h, i)).items := by
  induction fuel with
  | zero => intro h h' i hi; exact hi
  | succ fuel ih =>
    intro h h' i hi
    have hstep := @downStep_items _ _ behind _ _ hi i
    simp only [settle]
    cases hs : downStep behind (h, i) with
    | none =>
      rw [hs, Option.map_none, Option.map_eq_none_iff] at hstep
      rw [hstep]; exact hi
    | some t =>
      rw [hs, Option.map_some, Option.map_eq_some_iff] at hstep
      obtain ⟨⟨g', m'⟩, hs', ht⟩ := hstep
      obtain ⟨g, m⟩ := t
      obtain ⟨hg, rfl⟩ := Prod.mk.injEq _ _ _ _ ▸ ht
      simp only [hs']
      split
      · exact hg
      · exact ih g g' m' hg

theorem pathClear_items (hi : h'.items = h.items) (fuel : Nat) : ∀ (x : α) (i : Nat),
    pathClear behind h' fuel x i = pathClear behind h fuel x i := by
  induction fuel with
  | zero => intro x i; rfl
  | succ fuel ih => intro x i; simp only [pathClear, find_items hi, get_congr hi, hi, ih]

theorem rebuildClear_items (less : α → α → Bool) (k : Nat) : ∀ h h' : MaxMinHeap α, h'.items = h.items →
    rebuildClear less h' k = rebuildClear less h k := by
  induction k with
  | zero => intro h h' _; rfl
  | succ k ih =>
    intro h h' hi
    simp only [rebuildClear, pathClear_items hi, get_congr hi, hi]
    rw [ih _ _ (settle_items h.items.length h h' k hi)]

end Array

/-! ## Cleanup -/

/-- The items that stay, in the order of the array. -/
def kept (h : MaxMinHeap α) (predicate : α → Bool) : List α := h.items.filter (fun x => !predicate x)

/-- `Cleanup` leaves exactly the items that do not match. When the rebuild is
clear they are in order, and it is clear exactly when every round of it leaves
the nodes it has dealt with in order. -/
theorem cleanup_wellOrdered_of_clear (h : MaxMinHeap α) [IsStrictWeakOrder α (fun x y => h.less x y = true)]
    (predicate : α → Bool) (hmatch : ∃ x ∈ h.items, predicate x = true) :
    (h.cleanup predicate).2.items.Perm (h.kept predicate) ∧
      (rebuildClear h.less { h with items := h.kept predicate } ((h.kept predicate).length / 2) = true →
        (h.cleanup predicate).2.WellOrdered ∧ (h.cleanup predicate).2.PeeksExtremes) ∧
      (rebuildClear h.less { h with items := h.kept predicate } ((h.kept predicate).length / 2) = true ↔
        (h.swept predicate).RoundsOk ((h.kept predicate).length / 2)) := by
  obtain ⟨x, hx, hp⟩ := hmatch
  have hne : h.items.filter predicate ≠ [] := List.ne_nil_of_mem (List.mem_filter.2 ⟨hx, hp⟩)
  have hitems : (h.swept predicate).items = h.kept predicate := swept_items h predicate
  have hless : (h.swept predicate).less = h.less := swept_less h predicate
  have hclean : (h.cleanup predicate).2 = (h.swept predicate).rebuild ((h.kept predicate).length / 2) := by
    rw [cleanup_eq, if_neg hne]; rfl
  have hsw := rebuild_swaps ((h.kept predicate).length / 2) (h.swept predicate)
  have : IsStrictWeakOrder α (fun y z => (h.swept predicate).less y z = true) := by rwa [hless]
  have hiff : rebuildClear h.less { h with items := h.kept predicate } ((h.kept predicate).length / 2) = true ↔
      (h.swept predicate).RoundsOk ((h.kept predicate).length / 2) := by
    rw [roundsOk_iff _ _ this fun j hj => ?_, hless]
    · rw [rebuildClear_items h.less _ { h with items := h.kept predicate } (h.swept predicate) hitems]
    · exact .leaf (by rw [hitems]; omega)
  rw [hclean]
  refine ⟨hitems ▸ hsw.perm, fun hclear => ?_, hiff⟩
  have hv : ((h.swept predicate).rebuild ((h.kept predicate).length / 2)).WellOrdered := by
    unfold WellOrdered
    rw [hsw.less, hsw.length]
    exact rebuild_valid (hiff.1 hclear)
  have : IsStrictWeakOrder α
      (fun y z => ((h.swept predicate).rebuild ((h.kept predicate).length / 2)).less y z = true) := by rwa [hsw.less]
  exact ⟨hv, wellOrdered_peeks hv⟩

/-- Four requests of which one has expired. -/
theorem cleanup_wellOrdered_arrivals :
    let h := ofAdds Arrival.earlier [⟨1, 1⟩, ⟨2, 7⟩, ⟨3, 5⟩, ⟨4, 0⟩]
    (h.cleanup (fun x => x.id == 4)).2.WellOrdered ∧ (h.cleanup (fun x => x.id == 4)).2.PeeksExtremes := by
  intro h
  have : IsStrictWeakOrder Arrival (fun x y => h.less x y = true) :=
    inferInstanceAs (IsStrictWeakOrder Arrival (fun x y => Arrival.earlier x y = true))
  exact (cleanup_wellOrdered_of_clear h (fun x => x.id == 4) ⟨⟨4, 0⟩, by decide, by decide⟩).2.1 (by decide)

/-- Ten requests, most with one arrival time. Two expire; of the eight that stay
the earliest is not the one `PeekHead` gives. -/
theorem cleanup_breaks_order :
    let h := ofAdds Arrival.earlier [⟨0, 2⟩, ⟨1, 2⟩, ⟨2, 2⟩, ⟨3, 2⟩, ⟨4, 2⟩, ⟨5, 2⟩, ⟨6, 2⟩, ⟨7, 1⟩, ⟨8, 0⟩, ⟨9, 2⟩]
    let h' := (h.cleanup (fun x => x.id == 1 || x.id == 8)).2
    (∃ x ∈ h.items, (x.id == 1 || x.id == 8) = true) ∧ ¬ h'.WellOrdered ∧ h'.peekHead = some ⟨2, 2⟩ ∧
      ⟨7, 1⟩ ∈ h'.items ∧ Arrival.earlier ⟨7, 1⟩ ⟨2, 2⟩ = true := by
  decide +kernel

end InferenceGateway.Queue.MaxMinHeap
