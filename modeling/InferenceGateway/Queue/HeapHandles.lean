import InferenceGateway.Queue.HeapUp
import InferenceGateway.Queue.HeapDown
/-!
# Handles and places

In a `Synced` heap the live handles and the items are in bijection, and each
handle knows its item's place. Every operation keeps this (an item is added
while it is not in the queue), so no lookup of `swap`, `Remove` or `Cleanup`
ever misses and `Remove` takes out the item its handle was made for.
-/

namespace InferenceGateway.Queue.MaxMinHeap

open Lib Lib.ArrayTree List Function Option

variable {α : Type} [QueueItemAccessor α]

structure Synced (h : MaxMinHeap α) : Prop where
  nodup : h.items.Nodup
  place : ∀ s it, h.handles s = some it →
    it.index < h.items.length ∧ h.get it.index = it.item ∧ h.handleOf it.item = some s
  handle : ∀ x ∈ h.items, ∃ s it, h.handleOf x = some s ∧ h.handles s = some it ∧ it.item = x
  live : ∀ s it, h.handles s = some it → s < h.next ∧ h.invalidated s = false
  fresh : ∀ s, h.next ≤ s → h.invalidated s = false

theorem newMaxMinHeap_synced (less : α → α → Bool) : (newMaxMinHeap less).Synced := by
  constructor <;> simp [newMaxMinHeap]

theorem get_mem {h : MaxMinHeap α} {k : Nat} (hk : k < h.items.length) : h.get k ∈ h.items := by
  rw [get_eq hk]; exact getElem_mem hk

namespace Synced

variable {h : MaxMinHeap α}

theorem get_inj (hs : h.Synced) {i j : Nat} (hi : i < h.items.length) (hj : j < h.items.length)
    (he : h.get i = h.get j) : i = j := by
  rw [get_eq hi, get_eq hj] at he
  exact (List.Nodup.getElem_inj_iff hs.nodup).1 he

/-- The handle of an item determines it. -/
theorem handle_of_mem (hs : h.Synced) {x : α} (hx : x ∈ h.items) {s : Nat} (he : h.handleOf x = some s) :
    ∃ it, h.handles s = some it ∧ it.item = x := by
  obtain ⟨s', it, hs', hit, hx'⟩ := hs.handle x hx
  rw [he, some.injEq] at hs'
  exact ⟨it, hs' ▸ hit, hx'⟩

end Synced

/-! ## Exchanging two items -/

section Swap
variable {h : MaxMinHeap α}

variable {i j : Nat}

theorem swap_eq (hi : i < h.items.length) (hj : j < h.items.length) :
    h.swap i j = ({ h with items := (h.items.set i (h.get j)).set j (h.get i) }.setIndex (h.get j) i).setIndex
      (h.get i) j := by
  have hg : ({ h with items := (h.items.set i (h.get j)).set j (h.get i) } : MaxMinHeap α).get =
      h.get ∘ Equiv.swap i j := by
    rw [← swap_get hi hj]; funext k; simp [get, swap_items]
  simp only [swap, setIndex_get, hg, Function.comp_apply, Equiv.swap_apply_left, Equiv.swap_apply_right]

/-- The places in the map follow the exchange. -/
theorem swap_handles (hs : h.Synced) (hi : i < h.items.length) (hj : j < h.items.length) (s : Nat) :
    (h.swap i j).handles s = (h.handles s).map fun it => { it with index := Equiv.swap i j it.index } := by
  obtain ⟨si, iti, hsi, hiti, hxi⟩ := hs.handle _ (get_mem hi)
  obtain ⟨sj, itj, hsj, hitj, hxj⟩ := hs.handle _ (get_mem hj)
  have hpi := hs.place si iti hiti
  have hpj := hs.place sj itj hitj
  have hki : iti.index = i := hs.get_inj hpi.1 hi (hpi.2.1.trans hxi)
  have hkj : itj.index = j := hs.get_inj hpj.1 hj (hpj.2.1.trans hxj)
  have e2 := setIndex_handles (h := { h with items := (h.items.set i (h.get j)).set j (h.get i) }) hsj hitj i
  have hit2 : ({ h with items := (h.items.set i (h.get j)).set j (h.get i) }.setIndex (h.get j) i).handles si =
      some (if si = sj then { itj with index := i } else iti) := by
    rw [e2]
    by_cases hij : si = sj
    · subst hij; simp
    · simp [hij, hiti]
  rw [swap_eq hi hj, setIndex_handles (by simpa using hsi) hit2, e2]
  by_cases h1 : s = si
  · subst h1
    rw [update_self, hiti]
    by_cases hij : s = sj
    · subst hij
      rw [hiti, some.injEq] at hitj
      subst hitj
      simp [hki]
    · simp [hij, hki]
  · rw [update_of_ne h1]
    by_cases h2 : s = sj
    · subst h2; rw [update_self, hitj]; simp [hkj]
    · rw [update_of_ne h2]
      cases hit : h.handles s with
      | none => rfl
      | some it =>
        have hp := hs.place s it hit
        have hne : ∀ k t, h.handleOf (h.get k) = some t → s ≠ t → it.index ≠ k := by
          rintro k t ht hne rfl
          rw [hp.2.1, hp.2.2, some.injEq] at ht
          exact hne ht
        rw [map_some, Equiv.swap_apply_of_ne_of_ne (hne i si hsi h1) (hne j sj hsj h2)]

theorem swap_synced (hs : h.Synced) (hi : i < h.items.length) (hj : j < h.items.length) : (h.swap i j).Synced := by
  have hlook : ∀ s it', (h.swap i j).handles s = some it' →
      ∃ it, h.handles s = some it ∧ it' = { it with index := Equiv.swap i j it.index } := by
    intro s it' hit'
    rw [swap_handles hs hi hj, map_eq_some_iff] at hit'
    obtain ⟨it, hit, rfl⟩ := hit'
    exact ⟨it, hit, rfl⟩
  have hrange : ∀ k, k < h.items.length → Equiv.swap i j k < h.items.length := by
    intro k hk
    rw [Equiv.swap_apply_def]; split
    · exact hj
    · split
      · exact hi
      · exact hk
  refine ⟨(swap_perm hi hj).nodup_iff.2 hs.nodup, fun s it' hit' => ?_, fun x hx => ?_, fun s it' hit' => ?_, ?_⟩
  · obtain ⟨it, hit, rfl⟩ := hlook s it' hit'
    obtain ⟨h1, h2, h3⟩ := hs.place s it hit
    refine ⟨by simpa using hrange _ h1, ?_, by simpa using h3⟩
    rw [swap_get hi hj]
    simpa using h2
  · obtain ⟨s, it, hsx, hit, rfl⟩ := hs.handle x ((swap_perm hi hj).subset hx)
    refine ⟨s, { it with index := Equiv.swap i j it.index }, by simpa using hsx, ?_, rfl⟩
    rw [swap_handles hs hi hj, hit]; rfl
  · obtain ⟨it, hit, rfl⟩ := hlook s it' hit'
    simpa using hs.live s it hit
  · simpa using hs.fresh

theorem Swaps.synced {h' : MaxMinHeap α} (hsw : Swaps h h') (hs : h.Synced) : h'.Synced := by
  induction hsw with
  | refl => exact hs
  | swap _ hi hj ih => exact swap_synced ih hi hj

end Swap

/-! ## Add -/

section Add
variable [DecidableEq α] {h : MaxMinHeap α} {x : α}

/-- The queue right before `push` bubbles the new item up. -/
def appended (h : MaxMinHeap α) (x : α) : MaxMinHeap α :=
  { h with
    items := h.items ++ [x]
    handleOf := update h.handleOf x (some h.next)
    handles := update h.handles h.next (some { item := x, index := h.items.length })
    next := h.next + 1 }

theorem push_eq (h : MaxMinHeap α) (x : α) : h.push x = (h.appended x).up h.items.length := by
  simp [push, appended]

theorem appended_get (h : MaxMinHeap α) (x : α) :
    (∀ k, k < h.items.length → (h.appended x).get k = h.get k) ∧ (h.appended x).get h.items.length = x := by
  refine ⟨fun k hk => ?_, ?_⟩
  · simp only [get, appended, getD_eq_getElem?_getD, List.getElem?_append_left hk]
  · simp [get, appended]

theorem appended_synced (hs : h.Synced) (hx : x ∉ h.items) : (h.appended x).Synced := by
  obtain ⟨gl, gr⟩ := h.appended_get x
  have hlen : (h.appended x).items.length = h.items.length + 1 := by simp [appended]
  have hold : ∀ s it, h.handles s = some it → s ≠ h.next ∧ it.item ≠ x := by
    intro s it hit
    have hlt := (hs.live s it hit).1
    obtain ⟨hi, hg, -⟩ := hs.place s it hit
    exact ⟨by omega, fun he => hx (he ▸ hg ▸ get_mem hi)⟩
  have hlook : ∀ s it, (h.appended x).handles s = some it →
      (s = h.next ∧ it = { item := x, index := h.items.length }) ∨ (s ≠ h.next ∧ h.handles s = some it) := by
    intro s it hit
    simp only [appended, update_apply] at hit
    split at hit
    · exact .inl ⟨by assumption, by simpa using hit.symm⟩
    · exact .inr ⟨by assumption, hit⟩
  constructor
  · simp only [appended]
    refine nodup_append.2 ⟨hs.nodup, by simp, fun y hy z hz he => ?_⟩
    rw [mem_singleton] at hz
    exact hx (hz ▸ he ▸ hy)
  · intro s it hit
    rcases hlook s it hit with ⟨rfl, rfl⟩ | ⟨-, hit⟩
    · exact ⟨by rw [hlen]; simp, gr, by simp [appended]⟩
    · obtain ⟨h1, h2, h3⟩ := hs.place s it hit
      refine ⟨by omega, by rw [gl _ h1, h2], ?_⟩
      simpa [appended, update_of_ne (hold s it hit).2] using h3
  · intro y hy
    simp only [appended, mem_append, mem_singleton] at hy
    by_cases hyx : y = x
    · subst hyx
      exact ⟨h.next, { item := y, index := h.items.length }, by simp [appended], by simp [appended], rfl⟩
    · obtain ⟨s, it, h1, h2, h3⟩ := hs.handle y (hy.resolve_right hyx)
      refine ⟨s, it, by simpa [appended, update_of_ne hyx] using h1, ?_, h3⟩
      simpa [appended, update_of_ne (hold s it h2).1] using h2
  · intro s it hit
    rcases hlook s it hit with ⟨rfl, -⟩ | ⟨-, hit⟩
    · exact ⟨by simp [appended], hs.fresh h.next (Nat.le_refl _)⟩
    · have := hs.live s it hit
      exact ⟨by simp only [appended]; omega, this.2⟩
  · intro s hle
    exact hs.fresh s (by simp only [appended] at hle; omega)

theorem push_swaps (h : MaxMinHeap α) (x : α) : Swaps (h.appended x) (h.push x) := by
  rw [push_eq]; exact up_swaps _ _ (by simp [appended])

/-- `Add` puts exactly the item in, and the places stay right. -/
theorem add_perm (h : MaxMinHeap α) (x : α) : (h.add x).items.Perm (x :: h.items) := by
  have := (h.push_swaps x).perm
  exact this.trans (perm_append_singleton x h.items)

theorem add_synced (hs : h.Synced) (hx : x ∉ h.items) : (h.add x).Synced := by
  obtain ⟨h1, h2, h3, h4, h5⟩ := (h.push_swaps x).synced (appended_synced hs hx)
  exact ⟨h1, h2, h3, h4, h5⟩

end Add

/-! ## Remove -/

section Remove
variable {h : MaxMinHeap α}

/-- The queue right before `Remove` sifts: the last item is in the hole that the
removed one left. -/
def vacated (h : MaxMinHeap α) (s : Nat) (it : HeapItem α) : MaxMinHeap α :=
  (h.swap it.index (h.items.length - 1)).dropLast s (h.get it.index)

variable {s : Nat} {it : HeapItem α}

/-- What `Remove` does with a live handle. -/
theorem remove_live (hs : h.Synced) (hit : h.handles s = some it) : h.remove (.own s) = .ok (it.item,
      (if it.index < h.items.length - 1 then (h.vacated s it).down it.index else h.dropLast s it.item).invalidate s) := by
  have hl := (hs.live s it hit).2
  have hg := (hs.place s it hit).2.1
  by_cases hlt : it.index < h.items.length - 1
  · simp only [remove, hl, hit, hg, vacated, Bool.false_eq_true, if_false, if_pos hlt]
  · simp only [remove, hl, hit, hg, Bool.false_eq_true, if_false, if_neg hlt]

theorem dropLast_get {x : α} {k : Nat} (hk : k < h.items.length - 1) : (h.dropLast s x).get k = h.get k := by
  simp only [get, dropLast_items, getD_eq_getElem?_getD, List.getElem?_take, if_pos hk]

/-- Dropping the last item together with its handle. -/
theorem dropLast_synced (hs : h.Synced) (hit : h.handles s = some it) (hlast : it.index = h.items.length - 1) (x : α) :
    (h.dropLast s x).Synced := by
  obtain ⟨hi, hg, hh⟩ := hs.place s it hit
  have hlook : ∀ t jt, (h.dropLast s x).handles t = some jt → t ≠ s ∧ h.handles t = some jt := by
    intro t jt hjt
    simp only [dropLast, subBytes, delete, update_apply] at hjt
    split at hjt
    · cases hjt
    · exact ⟨by assumption, hjt⟩
  have hitems : (h.dropLast s x).items = h.items.take (h.items.length - 1) := rfl
  constructor
  · exact hs.nodup.sublist (take_sublist _ _)
  · intro t jt hjt
    obtain ⟨hne, hjt⟩ := hlook t jt hjt
    obtain ⟨h1, h2, h3⟩ := hs.place t jt hjt
    have hk : jt.index ≠ h.items.length - 1 := by
      intro he
      have : jt.item = it.item := by rw [← h2, ← hg, he, hlast]
      rw [this, hh, some.injEq] at h3
      exact hne h3.symm
    exact ⟨by rw [hitems, length_take]; omega, by rw [dropLast_get (by omega), h2], h3⟩
  · intro y hy
    obtain ⟨t, jt, h1, h2, h3⟩ := hs.handle y (mem_of_mem_take hy)
    have hts : t ≠ s := by
      rintro rfl
      rw [hit, some.injEq] at h2
      subst h2
      -- `y` would be the last item, which is gone.
      obtain ⟨k, hk, rfl⟩ := getElem_of_mem hy
      have hk' : k < h.items.length - 1 := by rw [hitems, length_take] at hk; omega
      have := hs.get_inj (i := k) (by omega) hi (by
        rw [← dropLast_get hk', get_eq hk, hg, h3])
      omega
    exact ⟨t, jt, h1, by simpa [dropLast, subBytes, delete, update_of_ne hts] using h2, h3⟩
  · intro t jt hjt
    exact hs.live t jt (hlook t jt hjt).2
  · exact hs.fresh

theorem invalidate_synced (hs : h.Synced) (hnone : h.handles s = none) (hlt : s < h.next) :
    (h.invalidate s).Synced := by
  obtain ⟨h1, h2, h3, h4, h5⟩ := hs
  refine ⟨h1, h2, h3, fun t it hit => ?_, fun t ht => ?_⟩
  · have hts : t ≠ s := by
      rintro rfl
      have : h.handles t = some it := hit
      rw [hnone] at this; cases this
    simpa [invalidate, update_of_ne hts] using h4 t it hit
  · have hts : t ≠ s := by
      rintro rfl
      simp only [invalidate] at ht
      omega
    simpa [invalidate, update_of_ne hts] using h5 t ht

theorem swap_last (hs : h.Synced) (hit : h.handles s = some it) :
    ∃ it', (h.swap it.index (h.items.length - 1)).handles s = some it' ∧ it'.item = it.item ∧
      it'.index = (h.swap it.index (h.items.length - 1)).items.length - 1 := by
  have hi := (hs.place s it hit).1
  refine ⟨{ it with index := h.items.length - 1 }, ?_, rfl, by simp⟩
  rw [swap_handles hs hi (by omega), hit]; simp

theorem vacated_synced (hs : h.Synced) (hit : h.handles s = some it) : (h.vacated s it).Synced := by
  have hi := (hs.place s it hit).1
  obtain ⟨it', hit', -, hlast⟩ := swap_last hs hit
  exact dropLast_synced (swap_synced hs hi (by omega)) hit' hlast _

/-- Every other field than the items and the places is as before. -/
theorem Swaps.fields {h' : MaxMinHeap α} (hsw : Swaps h h') :
    h'.byteSize = h.byteSize ∧ h'.handleOf = h.handleOf ∧ h'.next = h.next ∧
      ∀ s, h.handles s = none → h'.handles s = none := by
  induction hsw with
  | refl => exact ⟨rfl, rfl, rfl, fun _ h => h⟩
  | @swap h' i j _ _ _ ih =>
    obtain ⟨h1, h2, h3, h4⟩ := ih
    refine ⟨by simp [h1], by simp [h2], by simp [h3], fun s hs => ?_⟩
    simp only [MaxMinHeap.swap]
    exact setIndex_none (setIndex_none (h4 s hs))

/-- `Remove` takes the handle's item out, and the places stay right. -/
theorem remove_synced (hs : h.Synced) (hit : h.handles s = some it) :
    ∃ h', h.remove (.own s) = .ok (it.item, h') ∧ h'.Synced ∧ h.items.Perm (it.item :: h'.items) := by
  obtain ⟨hi, hg, -⟩ := hs.place s it hit
  have hlt := (hs.live s it hit).1
  refine ⟨_, remove_live hs hit, ?_, ?_⟩
  · by_cases hlast : it.index < h.items.length - 1
    · rw [if_pos hlast]
      have hsw := (h.vacated s it).down_swaps it.index
      have hf := hsw.fields
      refine invalidate_synced (hsw.synced (vacated_synced hs hit)) (hf.2.2.2 s ?_) ?_
      · simp [vacated, dropLast, subBytes, delete]
      · rw [hf.2.2.1]; simpa [vacated, dropLast, subBytes, delete] using hlt
    · rw [if_neg hlast]
      exact invalidate_synced (dropLast_synced hs hit (by omega) _) (by simp [dropLast, subBytes, delete]) hlt
  · rw [invalidate_items]
    have hpop : ∀ l : List α, ∀ k x, l[k]? = some x → k + 1 = l.length → l.Perm (x :: l.take k) := by
      intro l k x hx hk
      have : l = l.take k ++ [x] := by
        conv_lhs => rw [← take_append_drop k l]
        rw [drop_eq_getElem_cons (by omega), drop_of_length_le (by omega)]
        rw [List.getElem?_eq_getElem (by omega), some.injEq] at hx
        rw [hx]
      conv_lhs => rw [this]
      exact perm_append_singleton _ _
    by_cases hlast : it.index < h.items.length - 1
    · rw [if_pos hlast]
      have h1 := swap_perm (h := h) hi (show h.items.length - 1 < h.items.length by omega)
      have hx : (h.swap it.index (h.items.length - 1)).items[h.items.length - 1]? = some it.item := by
        have := congrFun (swap_get hi (show h.items.length - 1 < h.items.length by omega)) (h.items.length - 1)
        rw [get_eq (by simp; omega)] at this
        rw [List.getElem?_eq_getElem (by simp; omega), this]
        simp [hg]
      refine h1.symm.trans ((hpop _ _ _ hx (by simp; omega)).trans ?_)
      refine List.Perm.cons _ ?_
      refine List.Perm.trans ?_ ((h.vacated s it).down_swaps it.index).perm.symm
      simp [vacated]
    · rw [if_neg hlast]
      have hx : h.items[h.items.length - 1]? = some it.item := by
        rw [List.getElem?_eq_getElem (by omega), some.injEq, ← get_eq (by omega), ← hg]
        congr 1; omega
      exact hpop _ _ _ hx (by omega)

/-- Only a live handle takes something out. -/
theorem remove_own {handle : QueueItemHandle} {r : α × MaxMinHeap α} (hr : h.remove handle = .ok r) :
    ∃ s it, handle = .own s ∧ h.handles s = some it := by
  cases handle with
  | nil => cases hr
  | foreign sameType isInvalidated =>
    simp only [remove] at hr
    split_ifs at hr
  | own s =>
    cases hit : h.handles s with
    | none =>
      simp only [remove, hit] at hr
      split_ifs at hr
    | some it => exact ⟨s, it, rfl, hit⟩

theorem remove_ok (hh : h.Synced) {handle : QueueItemHandle} {x : α} {h' : MaxMinHeap α}
    (hr : h.remove handle = .ok (x, h')) : h'.Synced ∧ h.items.Perm (x :: h'.items) := by
  obtain ⟨s, it, rfl, hit⟩ := remove_own hr
  obtain ⟨h'', he, hs, hp⟩ := remove_synced hh hit
  rw [hr, Except.ok.injEq, Prod.mk.injEq] at he
  obtain ⟨rfl, rfl⟩ := he
  exact ⟨hs, hp⟩

end Remove

end InferenceGateway.Queue.MaxMinHeap
