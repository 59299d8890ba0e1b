import InferenceGateway.Queue.HeapSteps
/-!
# Bubbling up

An item that has just been appended is compared with its parent once, which
decides whether it belongs to the max or the min levels, and then climbs from
grandparent to grandparent on levels of that kind. `up_valid`: the array is an
alternating heap again.
-/

namespace InferenceGateway.Queue.MaxMinHeap

open Lib Lib.ArrayTree Lib.AltHeap

variable {α : Type} [QueueItemAccessor α]

theorem upLoop_swaps {beats : α → α → Bool} (fuel : Nat) (s : MaxMinHeap α × Nat) (hi : s.2 < s.1.items.length) :
    Swaps s.1 (loop (upStep beats) fuel s).1 := by
  have := @loop_inv _ (upStep beats) (fun t => Swaps s.1 t.1 ∧ t.2 < t.1.items.length) ?_ fuel s ⟨.refl, hi⟩
  · exact this.1
  · rintro ⟨h, i⟩ ⟨h', i'⟩ ⟨hsw, hi⟩ hs
    have hsw' := upStep_swaps hs hi
    have := upStep_lt hs
    exact ⟨hsw.trans hsw', by simp only at hi ⊢; rw [hsw'.length]; omega⟩

theorem upWith_swaps (beats : α → α → Bool) (h : MaxMinHeap α) (i : Nat) (hi : i < h.items.length) :
    Swaps h (upWith beats h i) :=
  upLoop_swaps i (h, i) hi

/-- `up` only exchanges items. -/
theorem up_swaps (h : MaxMinHeap α) (i : Nat) (hi : i < h.items.length) : Swaps h (h.up i) := by
  have hsw : Swaps h (h.swap i ((i - 1) / 2)) := .swap .refl hi (by omega)
  have hp : (i - 1) / 2 < (h.swap i ((i - 1) / 2)).items.length := by rw [swap_length]; omega
  simp only [up]
  split
  · exact .refl
  · split
    · split
      · exact hsw.trans (upWith_swaps _ _ _ hp)
      · exact upWith_swaps _ _ _ hi
    · split
      · exact hsw.trans (upWith_swaps _ _ _ hp)
      · exact upWith_swaps _ _ _ hi

/-- The comparisons of `up` in terms of the order at `i`. -/
theorem up_eq (h : MaxMinHeap α) {i : Nat} (h0 : 0 < i) : h.up i =
    if ord h.less i (h.get i) (h.get (parent i))
    then upWith (fun x y => ord h.less (parent i) y x) (h.swap i (parent i)) (parent i)
    else upWith (fun x y => ord h.less i y x) h i := by
  have hb : isMinLevel i = oddLevel i := rfl
  have hchild : ∀ x y, ord h.less (parent i) x y = ord h.less i y x := fun x y => (ord_child h.less h0 y x).symm
  simp only [hchild]
  unfold up
  rw [if_neg (by omega), hb]
  cases hi : oddLevel i <;> simp [ord, hi, upMin, upMax, parent]

section
variable {less : α → α → Bool} [IsStrictWeakOrder α (fun x y => less x y = true)] {n : Nat}

/-- Climbing on the levels of `i`'s kind ends in an alternating heap. -/
theorem upLoop_valid {beats : α → α → Bool} (fuel : Nat) : ∀ (h : MaxMinHeap α) (i : Nat), h.items.length = n → i ≤ fuel →
    (∀ x y, beats x y = ord less i y x) → UpReady less n h.get i →
    Valid less n (loop (upStep beats) fuel (h, i)).1.get := by
  induction fuel with
  | zero =>
    intro h i _ hfuel _ hu
    obtain rfl : i = 0 := by omega
    exact hu.top rfl
  | succ fuel ih =>
    intro h i hn hfuel hbeats hu
    cases hs : upStep beats (h, i) with
    | none =>
      rw [loop_break hs]
      rcases upStep_break hs with hp | ⟨h0, hp0, hle⟩
      · exact hu.top hp
      · rw [hbeats] at hle; exact hu.stop h0 hp0 hle
    | some t =>
      obtain ⟨h', i'⟩ := t
      rw [loop_next hs]
      obtain ⟨h0, hp0, rfl, rfl, hlt⟩ := upStep_cases hs
      have hlti := upStep_lt hs
      have hi := hu.lt
      rw [hbeats] at hlt
      refine ih _ _ (by simpa using hn) (by omega) (fun x y => ?_) ?_
      · rw [hbeats, ord_grandchild less h0 hp0]
      · rw [swap_get (by omega) (by omega)]
        exact hu.bubble h0 hp0 hlt

/-- Bubbling the last entry up restores the order. -/
theorem up_valid (h : MaxMinHeap α) [IsStrictWeakOrder α (fun x y => h.less x y = true)] (hn : h.items.length = n + 1)
    (hv : Valid h.less n h.get) : Valid h.less (n + 1) (h.up n).get := by
  rcases Nat.eq_zero_or_pos n with rfl | h0
  · intro k j hj hu
    obtain rfl : j = 0 := by omega
    obtain rfl : k = 0 := by have := hu.le; omega
    exact lt_irrefl _
  · have hp := parent_lt h0
    rw [up_eq h h0]
    split
    · rename_i hlt
      refine upLoop_valid _ _ _ (by simpa using hn) (by omega) (fun _ _ => rfl) ?_
      rw [swap_get (by omega) (by omega)]
      exact .append_swap hv h0 hlt
    · rename_i hle
      exact upLoop_valid _ _ _ hn (by omega) (fun _ _ => rfl) (.append hv h0 (by simpa using hle))

end

end InferenceGateway.Queue.MaxMinHeap
