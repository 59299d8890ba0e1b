import InferenceGateway.Queue.MaxMinHeap
/-!
# The list queue

`listqueue.go` over `container/list`. An element of the list is the `s`-th one
this queue made, and so is the handle that wraps it. An element keeps its value
after it has left the list, and `Remove` reads the item off the element, so the
values are kept apart from the list.
-/

namespace InferenceGateway.Queue

open List Function

structure ListQueue (α : Type) where
  /-- The elements of the list with their items, front first. -/
  requests : List (Nat × α)
  byteSize : UInt64
  /-- `element.Value` of every element made. -/
  value : Nat → Option α
  invalidated : Nat → Bool
  handleOf : α → Option Nat
  next : Nat

namespace ListQueue

variable {α : Type}

def newListQueue : ListQueue α where
  requests := []
  byteSize := 0
  value := fun _ => none
  invalidated := fun _ => false
  handleOf := fun _ => none
  next := 0

variable (q : ListQueue α)

def items : List α := q.requests.map Prod.snd

def len : Nat := q.requests.length

def peekHead : Option α := q.items.head?

def peekTail : Option α := q.items.getLast?

/-- `item.Handle().Invalidate()`. -/
def invalidateHandle (x : α) : ListQueue α :=
  match q.handleOf x with
  | none => q
  | some s => { q with invalidated := update q.invalidated s true }

variable [QueueItemAccessor α]

def add [DecidableEq α] (q : ListQueue α) (x : α) : ListQueue α :=
  { q with
    requests := q.requests ++ [(q.next, x)]
    byteSize := q.byteSize + QueueItemAccessor.byteSize x
    value := update q.value q.next (some x)
    handleOf := update q.handleOf x (some q.next)
    next := q.next + 1 }

def subBytes (q : ListQueue α) (x : α) : ListQueue α :=
  { q with byteSize := q.byteSize + (~~~(QueueItemAccessor.byteSize x) + 1) }

/-- The part of `Remove` after the checks. -/
def unlink (q : ListQueue α) (s : Nat) (x : α) : ListQueue α :=
  let q1 := { q with requests := q.requests.filter (fun e => e.1 != s) }.subBytes x
  { q1 with invalidated := update q1.invalidated s true }

/-- A handle of this queue that it never made has no element. -/
def remove (q : ListQueue α) (handle : QueueItemHandle) : Except QueueError (α × ListQueue α) :=
  match handle with
  | .nil => .error .invalidQueueItemHandle
  | .foreign sameType isInvalidated =>
    if isInvalidated then .error .invalidQueueItemHandle
    else if !sameType then .error .invalidQueueItemHandle
    else .error .queueItemNotFound
  | .own s =>
    if q.invalidated s then .error .invalidQueueItemHandle
    else
      match q.value s with
      | none => .error .queueItemNotFound
      | some x => .ok (x, q.unlink s x)

def cleanup (q : ListQueue α) (predicate : α → Bool) : List α × ListQueue α :=
  let removed := q.items.filter predicate
  let q1 := removed.foldl (fun q x => (q.subBytes x).invalidateHandle x) q
  (removed, { q1 with requests := q.requests.filter (fun e => !predicate e.2) })

def drain (q : ListQueue α) : List α × ListQueue α :=
  let q1 := q.items.foldl invalidateHandle q
  (q.items, { q1 with requests := [], byteSize := 0 })

/-- Elements and live handles are in bijection, and each handle is its item's. -/
structure Synced (q : ListQueue α) : Prop where
  nodup : q.items.Nodup
  element : ∀ e ∈ q.requests, q.value e.1 = some e.2 ∧ q.handleOf e.2 = some e.1 ∧ q.invalidated e.1 = false ∧ e.1 < q.next
  live : ∀ s x, q.value s = some x → q.invalidated s = false → (s, x) ∈ q.requests
  fresh : ∀ s, q.next ≤ s → q.value s = none ∧ q.invalidated s = false

omit [QueueItemAccessor α] in
theorem newListQueue_synced : (newListQueue : ListQueue α).Synced := by
  constructor <;> simp [newListQueue, items]

omit [QueueItemAccessor α] in
theorem mem_items {q : ListQueue α} {x : α} : x ∈ q.items ↔ ∃ s, (s, x) ∈ q.requests := by
  simp [items]

/-! ## Add -/

section Add
variable [DecidableEq α] {q : ListQueue α} {x : α}

theorem add_items (q : ListQueue α) (x : α) : (q.add x).items = q.items ++ [x] := by
  simp [add, items]

theorem add_synced (hs : q.Synced) (hx : x ∉ q.items) : (q.add x).Synced := by
  have hne : ∀ e ∈ q.requests, e.1 ≠ q.next ∧ e.2 ≠ x := by
    intro e he
    have hlt := (hs.element e he).2.2.2
    exact ⟨by omega, fun hc => hx (mem_items.2 ⟨e.1, hc ▸ he⟩)⟩
  constructor
  · rw [add_items]
    refine nodup_append.2 ⟨hs.nodup, by simp, fun y hy z hz he => ?_⟩
    rw [mem_singleton] at hz
    exact hx (hz ▸ he ▸ hy)
  · intro e he
    simp only [add, mem_append, mem_singleton] at he
    rcases he with he | rfl
    · obtain ⟨h1, h2, h3, h4⟩ := hs.element e he
      obtain ⟨hn, hxe⟩ := hne e he
      simp only [add, update_of_ne hn, update_of_ne hxe]
      exact ⟨h1, h2, h3, by omega⟩
    · simp only [add, update_self]
      exact ⟨trivial, trivial, (hs.fresh q.next (Nat.le_refl _)).2, by omega⟩
  · intro s y hv hi
    simp only [add, update_apply] at hv hi ⊢
    rw [mem_append]
    split at hv
    · rename_i hsn
      rw [Option.some.injEq] at hv
      exact .inr (by simp [hsn, hv])
    · exact .inl (hs.live s y hv hi)
  · intro s hle
    simp only [add] at hle ⊢
    rw [update_of_ne (by omega)]
    exact hs.fresh s (by omega)

end Add

/-! ## Remove -/

section Remove
variable {q : ListQueue α}

omit [QueueItemAccessor α] in
/-- Elements are distinct, since their items are. -/
theorem Synced.element_inj (hs : q.Synced) {e e' : Nat × α} (he : e ∈ q.requests) (he' : e' ∈ q.requests)
    (h : e.1 = e'.1) : e = e' := by
  have h1 := (hs.element e he).1
  have h2 := (hs.element e' he').1
  rw [h, h2, Option.some.injEq] at h1
  exact Prod.ext h h1.symm

omit [QueueItemAccessor α] in
theorem Synced.requests_nodup (hs : q.Synced) : q.requests.Nodup := List.Nodup.of_map _ hs.nodup

theorem unlink_synced (hs : q.Synced) {s : Nat} {x : α} (hv : q.value s = some x) (hi : q.invalidated s = false) :
    (q.unlink s x).Synced ∧ q.items.Perm (x :: (q.unlink s x).items) := by
  have hmem := hs.live s x hv hi
  constructor
  · constructor
    · exact hs.nodup.sublist (filter_sublist.map _)
    · intro e he
      simp only [unlink, mem_filter, bne_iff_ne, ne_eq, subBytes] at he ⊢
      obtain ⟨h1, h2, h3, h4⟩ := hs.element e he.1
      exact ⟨h1, h2, by rw [update_of_ne he.2]; exact h3, h4⟩
    · intro t y hv' hi'
      simp only [unlink, subBytes, update_apply, mem_filter, bne_iff_ne, ne_eq] at hv' hi' ⊢
      split at hi'
      · cases hi'
      · exact ⟨hs.live t y hv' hi', by assumption⟩
    · intro t hle
      have hlt := (hs.element _ hmem).2.2.2
      simp only [unlink, subBytes] at hle hlt ⊢
      rw [update_of_ne (by omega)]
      exact hs.fresh t hle
  · classical
    have hperm : q.requests.Perm ((s, x) :: q.requests.filter (fun e => e.1 != s)) := by
      refine (perm_cons_erase hmem).trans (List.Perm.cons _ ?_)
      rw [hs.requests_nodup.erase_eq_filter]
      refine List.Perm.of_eq (filter_congr fun e he => ?_)
      by_cases hes : e = (s, x)
      · subst hes; simp
      · have hne : e.1 ≠ s := fun hc => hes (hs.element_inj he hmem hc)
        rw [bne_iff_ne.2 hes, bne_iff_ne.2 hne]
    exact hperm.map Prod.snd

theorem remove_own {handle : QueueItemHandle} {x : α} {q' : ListQueue α} (h : q.remove handle = .ok (x, q')) :
    ∃ s, handle = .own s ∧ q.invalidated s = false ∧ q.value s = some x ∧ q' = q.unlink s x := by
  cases handle with
  | nil => cases h
  | foreign sameType isInvalidated =>
    simp only [remove] at h
    split_ifs at h
  | own s =>
    simp only [remove] at h
    split_ifs at h with hi
    split at h
    · cases h
    · rename_i y hv
      cases h
      exact ⟨s, rfl, by simpa using hi, hv, rfl⟩

theorem remove_ok (hq : q.Synced) {handle : QueueItemHandle} {x : α} {q' : ListQueue α}
    (h : q.remove handle = .ok (x, q')) : q'.Synced ∧ q.items.Perm (x :: q'.items) := by
  obtain ⟨s, rfl, hi, hv, rfl⟩ := remove_own h
  exact unlink_synced hq hv hi

end Remove

/-! ## Cleanup and Drain -/

section Cleanup
variable {q : ListQueue α}

/-- The fields that a loop of invalidations leaves, and the flags it sets. -/
structure Invalidated (q q' : ListQueue α) (xs : List α) : Prop where
  requests : q'.requests = q.requests
  value : q'.value = q.value
  handleOf : q'.handleOf = q.handleOf
  next : q'.next = q.next
  flag : ∀ s, q'.invalidated s = true ↔ q.invalidated s = true ∨ ∃ x ∈ xs, q.handleOf x = some s

omit [QueueItemAccessor α] in
theorem invalidateHandle_fields (q : ListQueue α) (x : α) : Invalidated q (q.invalidateHandle x) [x] := by
  unfold invalidateHandle
  cases hx : q.handleOf x with
  | none => constructor <;> simp [hx]
  | some t =>
    constructor <;> simp only [mem_singleton, exists_eq_left, hx, Option.some.injEq]
    intro s
    by_cases hst : s = t
    · subst hst; simp
    · simp [update_of_ne hst, Ne.symm hst]

omit [QueueItemAccessor α] in
theorem Invalidated.trans {q₁ q₂ q₃ : ListQueue α} {xs ys : List α} (h : Invalidated q₁ q₂ xs)
    (h' : Invalidated q₂ q₃ ys) : Invalidated q₁ q₃ (xs ++ ys) := by
  refine ⟨h'.requests.trans h.requests, h'.value.trans h.value, h'.handleOf.trans h.handleOf,
    h'.next.trans h.next, fun s => ?_⟩
  rw [h'.flag, h.flag, h.handleOf, or_assoc]
  simp only [mem_append, or_and_right, exists_or]

omit [QueueItemAccessor α] in
theorem foldl_invalidated {f : ListQueue α → α → ListQueue α} (hf : ∀ q x, Invalidated q (f q x) [x]) (xs : List α) :
    ∀ q : ListQueue α, Invalidated q (xs.foldl f q) xs := by
  induction xs with
  | nil => intro q; constructor <;> simp
  | cons x xs ih => intro q; exact (hf q x).trans (ih _)

omit [QueueItemAccessor α] in
/-- Cutting the list down to some of its elements, once the handles of exactly
the others are invalid. -/
theorem Synced.cut (hs : q.Synced) {q' : ListQueue α} {removed : List α} (hq : Invalidated q q' removed)
    (keep : Nat × α → Bool) (hremoved : ∀ x, x ∈ removed ↔ ∃ s, (s, x) ∈ q.requests ∧ keep (s, x) = false) (b : UInt64) :
    ({ q' with requests := q.requests.filter keep, byteSize := b } : ListQueue α).Synced := by
  constructor
  · exact hs.nodup.sublist (filter_sublist.map _)
  · intro e he
    obtain ⟨hmem, hk⟩ := mem_filter.1 he
    obtain ⟨h1, h2, h3, h4⟩ := hs.element e hmem
    simp only [hq.value, hq.handleOf, hq.next]
    refine ⟨h1, h2, ?_, h4⟩
    rw [Bool.eq_false_iff, ne_eq, hq.flag, not_or]
    refine ⟨by simp [h3], ?_⟩
    rintro ⟨y, hy, hye⟩
    obtain ⟨t, ht, hkt⟩ := (hremoved y).1 hy
    have hte := (hs.element _ ht).2.1
    rw [hye, Option.some.injEq] at hte
    have := hs.element_inj hmem ht hte
    rw [this, hkt] at hk; cases hk
  · intro s y hv hi
    simp only [hq.value] at hv
    have hflag := mt (hq.flag s).2 (by simpa using hi)
    rw [not_or, Bool.not_eq_true] at hflag
    have hmem := hs.live s y hv hflag.1
    refine mem_filter.2 ⟨hmem, ?_⟩
    by_contra hk
    exact hflag.2 ⟨y, (hremoved y).2 ⟨s, hmem, by simpa using hk⟩, (hs.element _ hmem).2.1⟩
  · intro s hle
    simp only [hq.next, hq.value] at hle ⊢
    obtain ⟨h1, h2⟩ := hs.fresh s hle
    refine ⟨h1, ?_⟩
    rw [Bool.eq_false_iff, ne_eq, hq.flag, not_or]
    refine ⟨by simp [h2], ?_⟩
    rintro ⟨y, hy, hys⟩
    obtain ⟨t, ht, -⟩ := (hremoved y).1 hy
    obtain ⟨-, h3, -, h4⟩ := hs.element _ ht
    rw [hys, Option.some.injEq] at h3
    simp only at h3 h4
    omega

theorem cleaned_invalidated (xs : List α) (q : ListQueue α) :
    Invalidated q (xs.foldl (fun q x => (q.subBytes x).invalidateHandle x) q) xs := by
  refine foldl_invalidated (fun q x => ?_) xs q
  obtain ⟨h1, h2, h3, h4, h5⟩ := invalidateHandle_fields (q.subBytes x) x
  exact ⟨h1, h2, h3, h4, h5⟩

theorem cleanup_synced (hs : q.Synced) (predicate : α → Bool) :
    (q.cleanup predicate).2.Synced ∧ (q.cleanup predicate).1 = q.items.filter predicate ∧
      (q.cleanup predicate).2.items = q.items.filter (fun x => !predicate x) := by
  refine ⟨hs.cut (cleaned_invalidated _ q) _ (fun x => ?_) _, rfl, ?_⟩
  · rw [mem_filter, mem_items]
    simp
  · simp only [cleanup, items, filter_map, Function.comp_def]

omit [QueueItemAccessor α] in
theorem drain_synced (hs : q.Synced) : q.drain.2.Synced ∧ q.drain.1 = q.items ∧ q.drain.2.items = [] := by
  have hq := foldl_invalidated invalidateHandle_fields q.items q
  have := hs.cut hq (fun _ => false) (fun x => by rw [mem_items]; simp) 0
  rw [filter_false] at this
  exact ⟨this, rfl, rfl⟩

end Cleanup

end ListQueue

end InferenceGateway.Queue
