import InferenceGateway.Queue.HeapHandles
/-!
# Cleanup and Drain

`Cleanup` releases the handles of the matching items, packs the others together,
gives each its new place and rebuilds the heap from the last parent upwards.
-/

namespace InferenceGateway.Queue.MaxMinHeap

open Lib Lib.ArrayTree List Function Option

variable {α : Type} [QueueItemAccessor α]

/-! ## Releasing handles -/

variable (h : MaxMinHeap α)

variable (xs : List α)

/-- The loop of `Cleanup` over the items that match. -/
def releaseAll : MaxMinHeap α :=
  xs.foldl (fun h x => (h.release x).subBytes x) h

theorem releaseAll_fields : ∀ h : MaxMinHeap α,
    (h.releaseAll xs).items = h.items ∧ (h.releaseAll xs).less = h.less ∧
      (h.releaseAll xs).handleOf = h.handleOf ∧ (h.releaseAll xs).next = h.next := by
  induction xs with
  | nil => intro h; exact ⟨rfl, rfl, rfl, rfl⟩
  | cons x xs ih =>
    intro h
    obtain ⟨h1, h2, h3, h4⟩ := ih ((h.release x).subBytes x)
    exact ⟨h1.trans (by simp), h2.trans (by simp), h3.trans (by simp [subBytes]), h4.trans (by simp [subBytes])⟩

/-- Exactly the handles of the released items are invalid and out of the map. -/
theorem releaseAll_handles : ∀ (h : MaxMinHeap α) (s : Nat),
    ((∃ x ∈ xs, h.handleOf x = some s) → (h.releaseAll xs).handles s = none) ∧
      ((∀ x ∈ xs, h.handleOf x ≠ some s) →
        (h.releaseAll xs).handles s = h.handles s ∧ (h.releaseAll xs).invalidated s = h.invalidated s) := by
  induction xs with
  | nil => intro h s; simp [releaseAll]
  | cons x xs ih =>
    intro h s
    obtain ⟨ih1, ih2⟩ := ih ((h.release x).subBytes x) s
    have hof : ((h.release x).subBytes x).handleOf = h.handleOf := by simp [subBytes]
    rw [hof] at ih1 ih2
    have hself : h.handleOf x = some s → ((h.release x).subBytes x).handles s = none := by
      intro hx; simp [release, hx, subBytes, delete]
    have hother : h.handleOf x ≠ some s → ((h.release x).subBytes x).handles s = h.handles s ∧
        ((h.release x).subBytes x).invalidated s = h.invalidated s := by
      intro hx
      cases he : h.handleOf x with
      | none => simp [release, he, subBytes]
      | some t =>
        have hne : s ≠ t := by rintro rfl; exact hx he
        simp [release, he, subBytes, delete, invalidate, update_of_ne hne]
    refine ⟨fun hex => ?_, fun hall => ?_⟩
    · by_cases hxs : ∃ y ∈ xs, h.handleOf y = some s
      · exact ih1 hxs
      · obtain ⟨y, hy, hys⟩ := hex
        rcases mem_cons.1 hy with rfl | hy
        · exact (ih2 fun z hz he => hxs ⟨z, hz, he⟩).1.trans (hself hys)
        · exact absurd ⟨y, hy, hys⟩ hxs
    · obtain ⟨h1, h2⟩ := ih2 fun y hy => hall y (mem_cons_of_mem _ hy)
      obtain ⟨h3, h4⟩ := hother (hall x mem_cons_self)
      exact ⟨h1.trans h3, h2.trans h4⟩

/-! ## New places -/

/-- The loop of `Cleanup` that writes the places of the items it keeps. -/
def reindex (xs : List (α × Nat)) : MaxMinHeap α :=
  xs.foldl (fun h (x, i) => h.setIndex x i) h

omit [QueueItemAccessor α] in
theorem reindex_fields (xs : List (α × Nat)) : ∀ h : MaxMinHeap α,
    (h.reindex xs).items = h.items ∧ (h.reindex xs).less = h.less ∧ (h.reindex xs).handleOf = h.handleOf ∧
      (h.reindex xs).next = h.next ∧ (h.reindex xs).invalidated = h.invalidated ∧ (h.reindex xs).byteSize = h.byteSize := by
  induction xs with
  | nil => intro h; exact ⟨rfl, rfl, rfl, rfl, rfl, rfl⟩
  | cons x xs ih =>
    intro h
    have hrest := ih (h.setIndex x.1 x.2)
    simp only [setIndex_rest] at hrest
    exact hrest

omit [QueueItemAccessor α] in
/-- Writing the places keeps each handle's item and gives each item of the list
its position. -/
theorem reindex_handles : ∀ (k : Nat) (h : MaxMinHeap α), xs.Nodup →
    (∀ x ∈ xs, ∃ s it, h.handleOf x = some s ∧ h.handles s = some it ∧ it.item = x) →
    (∀ s it, h.handles s = some it → h.handleOf it.item = some s) →
    ∀ s, ((h.reindex (xs.zipIdx k)).handles s).map (·.item) = (h.handles s).map (·.item) ∧
      ∀ it, (h.reindex (xs.zipIdx k)).handles s = some it →
        (∀ j, xs[j]? = some it.item → it.index = k + j) ∧ (it.item ∉ xs → h.handles s = some it) := by
  induction xs with
  | nil => intro k h _ _ _ s; simp [reindex]
  | cons x xs ih =>
    intro k h hn hmem hof s
    obtain ⟨hx, hn⟩ := nodup_cons.1 hn
    obtain ⟨sx, itx, hsx, hitx, hxi⟩ := hmem x mem_cons_self
    have hh : (h.setIndex x k).handles = update h.handles sx (some { itx with index := k }) :=
      setIndex_handles hsx hitx k
    have hitem : ∀ t, ((h.setIndex x k).handles t).map (·.item) = (h.handles t).map (·.item) := by
      intro t
      rw [hh]
      by_cases ht : t = sx
      · subst ht; simp [hitx]
      · rw [update_of_ne ht]
    have hback : ∀ t it, (h.setIndex x k).handles t = some it → ∃ it', h.handles t = some it' ∧ it'.item = it.item := by
      intro t it hit
      have := hitem t
      rw [hit] at this
      exact map_eq_some_iff.1 this.symm
    obtain ⟨ih1, ih2⟩ := ih (k + 1) (h.setIndex x k) hn
      (fun y hy => by
        obtain ⟨t, it, h1, h2, h3⟩ := hmem y (mem_cons_of_mem _ hy)
        have := hitem t
        rw [h2, map_some, map_eq_some_iff] at this
        obtain ⟨it', h4, h5⟩ := this
        exact ⟨t, it', by simpa using h1, h4, by rw [h5, h3]⟩)
      (fun t it hit => by
        obtain ⟨it', h1, h2⟩ := hback t it hit
        rw [(setIndex_rest ..).2.2.1, ← h2]; exact hof t it' h1) s
    have hstep : h.reindex ((x :: xs).zipIdx k) = (h.setIndex x k).reindex (xs.zipIdx (k + 1)) := by
      simp [reindex, zipIdx_cons]
    rw [hstep]
    refine ⟨ih1.trans (hitem s), fun it hit => ?_⟩
    obtain ⟨hpos, hkeep⟩ := ih2 it hit
    refine ⟨fun j hj => ?_, fun hnot => ?_⟩
    · cases j with
      | zero =>
        -- `x` itself: written now and, not being in the rest, never again.
        simp only [List.getElem?_cons_zero, some.injEq] at hj
        have hold := hkeep (hj ▸ hx)
        obtain ⟨it', h1, h2⟩ := hback s it hold
        have hs : s = sx := by
          have := hof s it' h1
          rw [h2, ← hj, hsx, some.injEq] at this
          exact this.symm
        subst hs
        rw [hh, update_self, some.injEq] at hold
        rw [← hold]; rfl
      | succ j =>
        rw [List.getElem?_cons_succ] at hj
        have := hpos j hj
        omega
    · rw [mem_cons, not_or] at hnot
      have hold := hkeep hnot.2
      have hs : s ≠ sx := by
        rintro rfl
        rw [hh, update_self, some.injEq] at hold
        exact hnot.1 (by rw [← hold, ← hxi])
      rw [hh, update_of_ne hs] at hold
      exact hold

/-! ## Cleanup -/

variable (predicate : α → Bool)

/-- The queue right before `Cleanup` rebuilds the heap. -/
def swept : MaxMinHeap α :=
  { h.releaseAll (h.items.filter predicate) with items := h.items.filter (fun x => !predicate x) }.reindex
    (h.items.filter (fun x => !predicate x)).zipIdx

theorem cleanup_eq : h.cleanup predicate =
    if h.items.filter predicate = [] then ([], h)
    else (h.items.filter predicate, (h.swept predicate).rebuild ((h.items.filter (fun x => !predicate x)).length / 2)) := by
  by_cases he : h.items.filter predicate = []
  · simp only [cleanup, he, length_nil, gt_iff_lt, Nat.lt_irrefl, if_false, if_true, foldl_nil]
  · rw [if_neg he]
    simp only [cleanup, gt_iff_lt, length_pos_iff.2 he, if_true]
    rfl

theorem swept_items :
    (h.swept predicate).items = h.items.filter (fun x => !predicate x) :=
  (reindex_fields _ _).1

theorem swept_less : (h.swept predicate).less = h.less :=
  (reindex_fields _ _).2.1.trans (releaseAll_fields _ h).2.1

theorem rebuild_swaps (k : Nat) : ∀ h : MaxMinHeap α, Swaps h (h.rebuild k) := by
  induction k with
  | zero => intro h; exact .refl
  | succ k ih => intro h; exact (h.down_swaps k).trans (ih _)

variable {h : MaxMinHeap α}

theorem swept_synced (hs : h.Synced) (predicate : α → Bool) : (h.swept predicate).Synced := by
  set removed := h.items.filter predicate with hremoved
  set keep := h.items.filter (fun x => !predicate x) with hkeep
  obtain ⟨-, -, r3, r4⟩ := releaseAll_fields removed h
  -- A handle is still in the map exactly when its item is kept.
  have hkept : ∀ s it, (h.releaseAll removed).handles s = some it →
      h.handles s = some it ∧ it.item ∈ keep ∧ (h.releaseAll removed).invalidated s = false := by
    intro s it hit
    by_cases hex : ∃ x ∈ removed, h.handleOf x = some s
    · rw [((releaseAll_handles removed h s).1 hex)] at hit; cases hit
    · obtain ⟨e1, e2⟩ := (releaseAll_handles removed h s).2 fun x hx he => hex ⟨x, hx, he⟩
      rw [e1] at hit
      obtain ⟨h1, h2, h3⟩ := hs.place s it hit
      refine ⟨hit, ?_, by rw [e2]; exact (hs.live s it hit).2⟩
      have hmem : it.item ∈ h.items := h2 ▸ get_mem h1
      refine mem_filter.2 ⟨hmem, ?_⟩
      by_contra hp
      exact hex ⟨it.item, mem_filter.2 ⟨hmem, by simpa using hp⟩, h3⟩
  have hlook : ∀ x ∈ keep, ∃ s it, h.handleOf x = some s ∧ (h.releaseAll removed).handles s = some it ∧ it.item = x := by
    intro x hx
    obtain ⟨hxi, hxp⟩ := mem_filter.1 hx
    obtain ⟨s, it, h1, h2, h3⟩ := hs.handle x hxi
    refine ⟨s, it, h1, ?_, h3⟩
    rw [((releaseAll_handles removed h s).2 fun y hy he => ?_).1, h2]
    obtain ⟨hyi, hyp⟩ := mem_filter.1 hy
    obtain ⟨it', h4, h5⟩ := hs.handle_of_mem hyi he
    rw [h2, some.injEq] at h4
    rw [← h5, ← h4, h3] at hyp
    simp [hyp] at hxp
  have hre := reindex_handles keep 0 { h.releaseAll removed with items := keep } (hs.nodup.filter _)
    (fun x hx => by
      obtain ⟨s, it, h1, h2, h3⟩ := hlook x hx
      exact ⟨s, it, by simpa [r3] using h1, h2, h3⟩)
    (fun s it hit => by
      have := (hkept s it hit).1
      simpa [r3] using (hs.place s it this).2.2)
  obtain ⟨f1, -, f3, f4, f5, -⟩ := reindex_fields keep.zipIdx { h.releaseAll removed with items := keep }
  have hback : ∀ s it, (h.swept predicate).handles s = some it →
      ∃ it', (h.releaseAll removed).handles s = some it' ∧ it'.item = it.item := by
    intro s it hit
    have := (hre s).1
    change ((h.swept predicate).handles s).map (·.item) = _ at this
    rw [hit] at this
    exact map_eq_some_iff.1 this.symm
  constructor
  · rw [swept_items]; exact hs.nodup.filter _
  · intro s it hit
    obtain ⟨it', h1, h2⟩ := hback s it hit
    obtain ⟨h3, h4, -⟩ := hkept s it' h1
    rw [h2] at h4
    obtain ⟨j, hj, hjx⟩ := getElem_of_mem h4
    have hidx := ((hre s).2 it hit).1 j (by rw [List.getElem?_eq_getElem hj, hjx])
    rw [Nat.zero_add] at hidx
    refine ⟨by rw [swept_items, hidx]; exact hj, ?_, ?_⟩
    · rw [get_eq (by rw [swept_items, hidx]; exact hj)]
      simp only [swept_items, hidx]; exact hjx
    · rw [show (h.swept predicate).handleOf = h.handleOf from f3.trans r3, ← h2]
      exact (hs.place s it' h3).2.2
  · intro x hx
    rw [swept_items] at hx
    obtain ⟨s, it, h1, h2, h3⟩ := hlook x hx
    have := (hre s).1
    change ((h.swept predicate).handles s).map (·.item) = ((h.releaseAll removed).handles s).map (·.item) at this
    rw [h2, map_some, map_eq_some_iff] at this
    obtain ⟨it', h4, h5⟩ := this
    exact ⟨s, it', by rw [show (h.swept predicate).handleOf = h.handleOf from f3.trans r3]; exact h1, h4, by rw [h5, h3]⟩
  · intro s it hit
    obtain ⟨it', h1, -⟩ := hback s it hit
    obtain ⟨h3, -, h4⟩ := hkept s it' h1
    refine ⟨?_, ?_⟩
    · rw [show (h.swept predicate).next = h.next from f4.trans r4]; exact (hs.live s it' h3).1
    · rw [show (h.swept predicate).invalidated = (h.releaseAll removed).invalidated from f5]; exact h4
  · intro s hle
    rw [show (h.swept predicate).next = h.next from f4.trans r4] at hle
    rw [show (h.swept predicate).invalidated = (h.releaseAll removed).invalidated from f5]
    rw [((releaseAll_handles removed h s).2 fun x hx he => ?_).2]
    · exact hs.fresh s hle
    · obtain ⟨it, h1, -⟩ := hs.handle_of_mem (mem_filter.1 hx).1 he
      have := (hs.live s it h1).1
      omega

/-- `Cleanup` takes out exactly the matching items, and the places stay right. -/
theorem cleanup_synced (hs : h.Synced) (predicate : α → Bool) :
    (h.cleanup predicate).2.Synced ∧ (h.cleanup predicate).1 = h.items.filter predicate ∧
      (h.cleanup predicate).2.items.Perm (h.items.filter (fun x => !predicate x)) := by
  rw [cleanup_eq]
  split
  · rename_i he
    refine ⟨hs, he.symm, ?_⟩
    rw [filter_eq_nil_iff] at he
    rw [filter_eq_self.2 fun x hx => by simpa using he x hx]
  · have hsw := rebuild_swaps ((h.items.filter (fun x => !predicate x)).length / 2) (h.swept predicate)
    refine ⟨hsw.synced (swept_synced hs predicate), rfl, ?_⟩
    have := hsw.perm
    rwa [swept_items] at this

/-! ## Drain -/

omit [QueueItemAccessor α] in
theorem drain_fields : ∀ h : MaxMinHeap α,
    let h' := xs.foldl (fun h x => match h.handleOf x with | none => h | some s => h.invalidate s) h
    h'.handleOf = h.handleOf ∧ h'.next = h.next ∧ h'.less = h.less ∧
      ∀ s, (∀ x ∈ xs, h.handleOf x ≠ some s) → h'.invalidated s = h.invalidated s := by
  induction xs with
  | nil => intro h; exact ⟨rfl, rfl, rfl, fun _ _ => rfl⟩
  | cons x xs ih =>
    intro h
    cases hx : h.handleOf x with
    | none =>
      obtain ⟨h1, h2, h3, h4⟩ := ih h
      simp only [foldl_cons, hx]
      exact ⟨h1, h2, h3, fun s hs => h4 s fun y hy => hs y (mem_cons_of_mem _ hy)⟩
    | some t =>
      obtain ⟨h1, h2, h3, h4⟩ := ih (h.invalidate t)
      simp only [foldl_cons, hx]
      refine ⟨h1, h2, h3, fun s hs => ?_⟩
      have hne : s ≠ t := by rintro rfl; exact hs x mem_cons_self hx
      rw [h4 s fun y hy => hs y (mem_cons_of_mem _ hy)]
      simp [invalidate, update_of_ne hne]

/-- `Drain` hands out all items and leaves the queue empty. -/
theorem drain_synced (hs : h.Synced) : h.drain.2.Synced ∧ h.drain.1 = h.items ∧ h.drain.2.items = [] := by
  obtain ⟨-, h2, -, h4⟩ := drain_fields h.items h
  refine ⟨⟨by simp [drain], by simp [drain], by simp [drain], by simp [drain], fun s hle => ?_⟩, rfl, rfl⟩
  have hle' : h.next ≤ s := by rw [← h2]; exact hle
  refine (h4 s fun x hx he => ?_).trans (hs.fresh s hle')
  obtain ⟨it, h5, -⟩ := hs.handle_of_mem hx he
  have := (hs.live s it h5).1
  omega

end InferenceGateway.Queue.MaxMinHeap
