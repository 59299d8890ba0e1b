import InferenceGateway.Queue.MaxMinHeap
/-!
# The steps of the heap's loops

`swap` composes the array with `Equiv.swap`, and the loops change the array by
`swap` alone. `downStep_cases` and `upStep_cases` say everything an iteration
can do; the order and the handle bookkeeping are both read off them.
-/

namespace InferenceGateway.Queue.MaxMinHeap

open Lib Lib.ArrayTree Lib.AltHeap List

variable {α : Type}

/-! ## Fields -/

@[simp] theorem invalidate_items (h : MaxMinHeap α) (s : Nat) : (h.invalidate s).items = h.items := rfl

@[simp] theorem invalidate_less (h : MaxMinHeap α) (s : Nat) : (h.invalidate s).less = h.less := rfl

@[simp] theorem release_rest (h : MaxMinHeap α) (x : α) : (h.release x).items = h.items ∧ (h.release x).less = h.less ∧
    (h.release x).handleOf = h.handleOf ∧ (h.release x).next = h.next ∧ (h.release x).byteSize = h.byteSize := by
  unfold release
  split <;> simp [invalidate, delete]

theorem setIndex_eq (h : MaxMinHeap α) (x : α) (i : Nat) :
    ∃ hs, h.setIndex x i = { h with handles := hs } := by
  unfold setIndex
  split
  · exact ⟨h.handles, rfl⟩
  · split
    · exact ⟨h.handles, rfl⟩
    · exact ⟨_, rfl⟩

@[simp] theorem setIndex_rest (h : MaxMinHeap α) (x : α) (i : Nat) : (h.setIndex x i).items = h.items ∧
    (h.setIndex x i).less = h.less ∧ (h.setIndex x i).handleOf = h.handleOf ∧ (h.setIndex x i).invalidated = h.invalidated ∧
    (h.setIndex x i).next = h.next ∧ (h.setIndex x i).byteSize = h.byteSize := by
  obtain ⟨_, e⟩ := h.setIndex_eq x i
  simp [e]

theorem setIndex_handles {h : MaxMinHeap α} {x : α} {s : Nat} {it : HeapItem α} (hx : h.handleOf x = some s)
    (hit : h.handles s = some it) (i : Nat) :
    (h.setIndex x i).handles = Function.update h.handles s (some { it with index := i }) := by
  simp [setIndex, hx, hit]

variable {i : Nat}

theorem setIndex_none {h : MaxMinHeap α} {x : α} {s : Nat} (hs : h.handles s = none) :
    (h.setIndex x i).handles s = none := by
  cases hx : h.handleOf x with
  | none => simpa [setIndex, hx] using hs
  | some t =>
    cases hit : h.handles t with
    | none => simpa [setIndex, hx, hit] using hs
    | some it =>
      have hne : s ≠ t := by rintro rfl; rw [hs] at hit; cases hit
      rw [setIndex_handles hx hit, Function.update_of_ne hne, hs]

section Get
variable [QueueItemAccessor α]

variable (h : MaxMinHeap α)
include h

@[simp] theorem subBytes_items (x : α) : (h.subBytes x).items = h.items := rfl

@[simp] theorem subBytes_less (x : α) : (h.subBytes x).less = h.less := rfl

@[simp] theorem dropLast_items (s : Nat) (x : α) :
    (h.dropLast s x).items = h.items.take (h.items.length - 1) := rfl

@[simp] theorem dropLast_less (s : Nat) (x : α) : (h.dropLast s x).less = h.less := rfl

@[simp] theorem setIndex_get (x : α) (i : Nat) : (h.setIndex x i).get = h.get := by
  funext k; simp [get]

omit h

theorem get_eq {h : MaxMinHeap α} {k : Nat} (hk : k < h.items.length) : h.get k = h.items[k] := by
  simp [get, getD_eq_getElem?_getD, List.getElem?_eq_getElem hk]

end Get

/-! ## swap -/

section Swap
variable [QueueItemAccessor α] {h : MaxMinHeap α} {i j : Nat}

theorem swap_items (h : MaxMinHeap α) (i j : Nat) :
    (h.swap i j).items = (h.items.set i (h.get j)).set j (h.get i) := by
  simp [swap]

@[simp] theorem swap_length (h : MaxMinHeap α) (i j : Nat) : (h.swap i j).items.length = h.items.length := by
  simp [swap_items]

@[simp] theorem swap_rest (h : MaxMinHeap α) (i j : Nat) : (h.swap i j).less = h.less ∧
    (h.swap i j).handleOf = h.handleOf ∧ (h.swap i j).invalidated = h.invalidated ∧ (h.swap i j).next = h.next ∧
    (h.swap i j).byteSize = h.byteSize := by
  simp [swap]

theorem swap_get (hi : i < h.items.length) (hj : j < h.items.length) :
    (h.swap i j).get = h.get ∘ Equiv.swap i j := by
  funext k
  rw [Function.comp_apply, Equiv.swap_apply_def]
  simp only [get, swap_items, getD_eq_getElem?_getD, List.getElem?_set, length_set]
  by_cases hkj : k = j
  · subst hkj
    by_cases hki : k = i
    · subst hki; simp [hi]
    · simp [hki, hj]
  · by_cases hki : k = i
    · subst hki; simp [Ne.symm hkj, hi]
    · simp [hkj, hki, Ne.symm hkj, Ne.symm hki]

theorem swap_perm (hi : i < h.items.length) (hj : j < h.items.length) : (h.swap i j).items.Perm h.items := by
  rw [swap_items, get_eq hi, get_eq hj]
  exact set_set_perm hi hj

/-- `h'` comes from `h` by exchanging items. The sifts do nothing else. -/
inductive Swaps : MaxMinHeap α → MaxMinHeap α → Prop
  | refl {h : MaxMinHeap α} : Swaps h h
  | swap {h h' : MaxMinHeap α} {i j : Nat} : Swaps h h' → i < h'.items.length → j < h'.items.length →
      Swaps h (h'.swap i j)

namespace Swaps
variable {h h' h'' : MaxMinHeap α}

variable (hs : Swaps h h')
include hs

theorem trans (hs' : Swaps h' h'') : Swaps h h'' := by
  induction hs' with
  | refl => exact hs
  | swap _ hi hj ih => exact ih.swap hi hj

theorem perm : h'.items.Perm h.items := by
  induction hs with
  | refl => exact .refl _
  | swap _ hi hj ih => exact (swap_perm hi hj).trans ih

theorem length : h'.items.length = h.items.length := hs.perm.length_eq

theorem less : h'.less = h.less := by
  induction hs with
  | refl => rfl
  | swap _ _ _ ih => simp [ih]

end Swaps

end Swap

/-! ## Bubbling up -/

section Up
variable [QueueItemAccessor α] {beats : α → α → Bool} {h h' : MaxMinHeap α} {i i' : Nat}

/-- An iteration of `upMin` or `upMax` exchanges the entry with its grandparent. -/
theorem upStep_cases (hs : upStep beats (h, i) = some (h', i')) :
    0 < i ∧ 0 < parent i ∧ i' = parent (parent i) ∧ h' = h.swap i i' ∧ beats (h.get i) (h.get i') = true := by
  simp only [upStep] at hs
  split at hs
  · cases hs
  · split at hs
    · simp only [Option.some.injEq, Prod.mk.injEq] at hs
      obtain ⟨rfl, rfl⟩ := hs
      unfold parent
      exact ⟨by omega, by omega, rfl, rfl, by assumption⟩
    · cases hs

/-- It breaks at the top, or below a grandparent it does not beat. -/
theorem upStep_break (hs : upStep beats (h, i) = none) :
    parent i = 0 ∨ (0 < i ∧ 0 < parent i ∧ beats (h.get i) (h.get (parent (parent i))) = false) := by
  simp only [upStep] at hs
  unfold parent
  split at hs
  · exact .inl (by assumption)
  · split at hs
    · cases hs
    · exact .inr ⟨by omega, by omega, by simpa using ‹¬ beats _ _ = true›⟩

theorem upStep_swaps (hs : upStep beats (h, i) = some (h', i')) (hi : i < h.items.length) : Swaps h h' := by
  obtain ⟨h0, hp0, rfl, rfl, -⟩ := upStep_cases hs
  have := parent_lt h0
  have := parent_lt hp0
  exact .swap .refl hi (by omega)

theorem upStep_lt (hs : upStep beats (h, i) = some (h', i')) : i' < i := by
  obtain ⟨h0, hp0, rfl, -⟩ := upStep_cases hs
  have := parent_lt h0
  have := parent_lt hp0
  omega

end Up

/-! ## Trickling down -/

/-- `c` is a child or a grandchild of `i`. -/
def Candidate (i c : Nat) : Prop := 0 < c ∧ (parent c = i ∨ (0 < parent c ∧ parent (parent c) = i))

variable {c : Nat}

theorem candidate_range (hc : Candidate i c) :
    c = 2 * i + 1 ∨ c = 2 * i + 2 ∨ (2 * (2 * i + 1) + 1 ≤ c ∧ c < 2 * (2 * i + 1) + 1 + 4) := by
  unfold Candidate parent at hc; omega

theorem candidate_of_range
    (hc : c = 2 * i + 1 ∨ c = 2 * i + 2 ∨ (2 * (2 * i + 1) + 1 ≤ c ∧ c < 2 * (2 * i + 1) + 1 + 4)) : Candidate i c := by
  unfold Candidate parent; omega

theorem candidate_lt (hc : Candidate i c) : i < c := by
  unfold Candidate parent at hc; omega

theorem candidate_under (hc : Candidate i c) : Under i c := by
  obtain ⟨h0, hp | ⟨hp0, hp⟩⟩ := hc
  · exact .child h0 (by rw [hp]; exact .self)
  · exact .child h0 (.child hp0 (by rw [hp]; exact .self))

section Find
variable [QueueItemAccessor α] {behind : α → α → Bool} {h : MaxMinHeap α} {i m : Nat}

/-- The leader between the two children, before the grandchildren are scanned. -/
theorem find_eq : findChildOrGrandchild behind h i =
    if h.items.length ≤ 2 * i + 1 then none
    else some ((List.range' (2 * (2 * i + 1) + 1) 4).foldl
      (fun m j => if j < h.items.length && behind (h.get m) (h.get j) then j else m)
      (if 2 * i + 2 < h.items.length && behind (h.get (2 * i + 1)) (h.get (2 * i + 2))
        then 2 * i + 2 else 2 * i + 1)) := rfl

theorem find_none : findChildOrGrandchild behind h i = none ↔ h.items.length ≤ 2 * i + 1 := by
  simp [find_eq]

/-- The search finds a child or grandchild, whatever the order. -/
theorem find_mem (hf : findChildOrGrandchild behind h i = some m) : m < h.items.length ∧ Candidate i m := by
  rw [find_eq] at hf
  split at hf
  · cases hf
  rename_i hl
  rw [Option.some.injEq] at hf
  have hr := scan_mem (fun m j => behind (h.get m) (h.get j)) h.items.length (List.range' (2 * (2 * i + 1) + 1) 4)
    (if 2 * i + 2 < h.items.length && behind (h.get (2 * i + 1)) (h.get (2 * i + 2)) then 2 * i + 2 else 2 * i + 1)
  simp only [hf] at hr
  rcases hr with hr | ⟨hr, hlt⟩
  · split at hr
    · rename_i h2
      simp only [Bool.and_eq_true, decide_eq_true_eq] at h2
      exact ⟨by omega, candidate_of_range (by omega)⟩
    · exact ⟨by omega, candidate_of_range (by omega)⟩
  · have := mem_range'_1.1 hr
    exact ⟨hlt, candidate_of_range (by omega)⟩

/-- It only looks at the entries below `i`. -/
theorem find_congr {h' : MaxMinHeap α} (hn : h'.items.length = h.items.length)
    (hg : ∀ j, j < h.items.length → Under i j → j ≠ i → h'.get j = h.get j) :
    findChildOrGrandchild behind h' i = findChildOrGrandchild behind h i := by
  have hc : ∀ c, c < h.items.length → Candidate i c → h'.get c = h.get c := fun c hlt hc =>
    hg c hlt (candidate_under hc) (by have := candidate_lt hc; omega)
  rw [find_eq, find_eq, hn]
  split
  · rfl
  · have h1 := hc (2 * i + 1) (by omega) (candidate_of_range (by omega))
    have h2 : 2 * i + 2 < h.items.length → h'.get (2 * i + 2) = h.get (2 * i + 2) :=
      fun hlt => hc _ hlt (candidate_of_range (by omega))
    have hfirst : (if 2 * i + 2 < h.items.length && behind (h'.get (2 * i + 1)) (h'.get (2 * i + 2)) then 2 * i + 2
        else 2 * i + 1) = if 2 * i + 2 < h.items.length && behind (h.get (2 * i + 1)) (h.get (2 * i + 2)) then 2 * i + 2
        else 2 * i + 1 := by
      by_cases hlt : 2 * i + 2 < h.items.length
      · rw [h1, h2 hlt]
      · simp [hlt]
    rw [hfirst, scan_congr behind h.get h'.get h.items.length]
    · split
      · rename_i hb
        simp only [Bool.and_eq_true, decide_eq_true_eq] at hb
        exact h2 hb.1
      · exact h1
    · intro j hj hlt
      have := mem_range'_1.1 hj
      exact hc j hlt (candidate_of_range (by omega))

/-- In a strict weak order it is behind no other candidate. -/
theorem find_best [IsStrictWeakOrder α (fun x y => behind x y = true)]
    (hf : findChildOrGrandchild behind h i = some m) :
    ∀ c, c < h.items.length → Candidate i c → behind (h.get m) (h.get c) = false := by
  rw [find_eq] at hf
  split at hf
  · cases hf
  rw [Option.some.injEq] at hf
  obtain ⟨hrm, hrc⟩ := scan_leader behind h.get h.items.length (List.range' (2 * (2 * i + 1) + 1) 4)
    (if 2 * i + 2 < h.items.length && behind (h.get (2 * i + 1)) (h.get (2 * i + 2)) then 2 * i + 2 else 2 * i + 1)
  simp only [hf] at hrm hrc
  intro c hc hcand
  rcases candidate_range hcand with rfl | rfl | hg
  · refine not_lt_trans hrm ?_
    split
    · rename_i h2
      simp only [Bool.and_eq_true, decide_eq_true_eq] at h2
      exact lt_asymm h2.2
    · exact lt_irrefl _
  · refine not_lt_trans hrm ?_
    split
    · exact lt_irrefl _
    · rename_i h2
      simpa [hc] using h2
  · exact hrc c (mem_range'_1.2 (by omega)) hc

end Find

section Down
variable [QueueItemAccessor α] {behind : α → α → Bool} {h h' : MaxMinHeap α} {i m : Nat}

/-- An iteration of `downMin` or `downMax` moves the winning child up, or the
winning grandchild with a second exchange where that one needs it. -/
theorem downStep_cases (hs : downStep behind (h, i) = some (h', m)) :
    findChildOrGrandchild behind h i = some m ∧ behind (h.get i) (h.get m) = true ∧
      ((parent m = i ∧ h' = h.swap i m) ∨ (parent m ≠ i ∧
        h' = if behind ((h.swap i m).get m) ((h.swap i m).get (parent m)) then (h.swap i m).swap m (parent m)
          else h.swap i m)) := by
  simp only [downStep] at hs
  split at hs
  · cases hs
  rename_i m' hf
  split at hs
  · rename_i hb
    unfold parent
    split at hs
    · rename_i hp
      split at hs <;> rename_i hb2 <;> simp only [Option.some.injEq, Prod.mk.injEq] at hs <;> obtain ⟨rfl, rfl⟩ := hs
      · exact ⟨hf, hb, .inr ⟨hp, by rw [if_pos hb2]⟩⟩
      · exact ⟨hf, hb, .inr ⟨hp, by rw [if_neg hb2]⟩⟩
    · rename_i hp
      simp only [Option.some.injEq, Prod.mk.injEq] at hs
      obtain ⟨rfl, rfl⟩ := hs
      exact ⟨hf, hb, .inl ⟨by simpa using hp, rfl⟩⟩
  · cases hs

theorem downStep_break (hs : downStep behind (h, i) = none) :
    findChildOrGrandchild behind h i = none ∨
      ∃ m, findChildOrGrandchild behind h i = some m ∧ behind (h.get i) (h.get m) = false := by
  simp only [downStep] at hs
  split at hs
  · exact .inl (by assumption)
  rename_i m hf
  split at hs
  · split at hs
    · split at hs <;> cases hs
    · cases hs
  · exact .inr ⟨m, hf, by simpa using ‹¬ behind _ _ = true›⟩

theorem downStep_next (hf : findChildOrGrandchild behind h i = some m) (hb : behind (h.get i) (h.get m) = true) :
    ∃ h', downStep behind (h, i) = some (h', m) := by
  cases hs : downStep behind (h, i) with
  | none =>
    rcases downStep_break hs with hn | ⟨m', hf', hb'⟩
    · rw [hf] at hn; cases hn
    · rw [hf, Option.some.injEq] at hf'
      subst hf'
      rw [hb] at hb'; cases hb'
  | some t =>
    obtain ⟨h', m'⟩ := t
    have := (downStep_cases hs).1
    rw [hf, Option.some.injEq] at this
    exact ⟨h', by rw [this]⟩

variable (hs : downStep behind (h, i) = some (h', m))
include hs

/-- What an iteration does to the array, as a composition of exchanges. -/
theorem downStep_get :
    h'.get = if parent m ≠ i ∧ behind (h.get i) (h.get (parent m)) = true
      then (h.get ∘ Equiv.swap i m) ∘ Equiv.swap m (parent m) else h.get ∘ Equiv.swap i m := by
  obtain ⟨hf, -, hh⟩ := downStep_cases hs
  obtain ⟨hm, hcand⟩ := find_mem hf
  have him := candidate_lt hcand
  have hpm := parent_lt hcand.1
  have hg : (h.swap i m).get = h.get ∘ Equiv.swap i m := swap_get (by omega) hm
  have hgm : (h.swap i m).get m = h.get i := by rw [hg]; simp
  rcases hh with ⟨hp, rfl⟩ | ⟨hp, rfl⟩
  · rw [if_neg (by simp [hp]), hg]
  · have hgp : (h.swap i m).get (parent m) = h.get (parent m) := by
      rw [hg, Function.comp_apply, Equiv.swap_apply_of_ne_of_ne hp (by omega)]
    rw [hgm, hgp]
    by_cases hb : behind (h.get i) (h.get (parent m)) = true
    · rw [if_pos hb, if_pos ⟨hp, hb⟩, swap_get (by simpa using hm) (by simp; omega), hg]
    · rw [if_neg hb, if_neg (by simp [hb]), hg]

theorem downStep_swaps : Swaps h h' := by
  obtain ⟨hf, -, hh⟩ := downStep_cases hs
  obtain ⟨hm, hcand⟩ := find_mem hf
  have him := candidate_lt hcand
  have hpm := parent_lt hcand.1
  have h1 : Swaps h (h.swap i m) := .swap .refl (by omega) hm
  rcases hh with ⟨-, rfl⟩ | ⟨-, rfl⟩
  · exact h1
  · split
    · exact h1.swap (by simpa using hm) (by simp; omega)
    · exact h1

theorem downStep_lt : i < m ∧ m < h.items.length := by
  obtain ⟨hm, hcand⟩ := find_mem (downStep_cases hs).1
  exact ⟨candidate_lt hcand, hm⟩

/-- An iteration permutes the subtree it works in. -/
theorem downStep_within : Within h.items.length i h.get h'.get := by
  obtain ⟨hm, hcand⟩ := find_mem (downStep_cases hs).1
  have him := candidate_lt hcand
  have hpm := parent_lt hcand.1
  have hum := candidate_under hcand
  have h1 : Within h.items.length i h.get (h.get ∘ Equiv.swap i m) := .swap .self hum (by omega) hm
  rw [downStep_get hs]
  split
  · exact h1.trans (.swap hum (hum.up (by omega)).2 hm (by omega))
  · exact h1

end Down

end InferenceGateway.Queue.MaxMinHeap
