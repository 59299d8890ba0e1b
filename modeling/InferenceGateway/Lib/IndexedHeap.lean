import InferenceGateway.Lib.BinaryHeap
/-!
# A heap of cells that know their place

The entries of the container are pointers to cells, and a cell holds an item and its place
in the container. The calls of `container/heap` keep the places, and take in or give back
the one entry they are about.
-/

namespace InferenceGateway.Lib

open List

/-- What the callbacks of a heap of cells do. -/
structure CellHeap {σ : Type} (H : HeapInterface σ ℕ) (β : Type) where
  entries : σ → List ℕ
  index : σ → ℕ → Int
  item : σ → ℕ → β
  len : ∀ s, H.len s = (entries s).length
  entries_swap : ∀ s i j, entries (H.swap s i j) = ((entries s).set i ((entries s).getD j 0)).set j ((entries s).getD i 0)
  index_swap : ∀ s i j e, i < (entries s).length → j < (entries s).length → index (H.swap s i j) e =
    if e = (entries s).getD i 0 then (j : Int) else if e = (entries s).getD j 0 then (i : Int) else index s e
  item_swap : ∀ s i j e, item (H.swap s i j) e = item s e
  entries_push : ∀ s e, entries (H.push s e) = entries s ++ [e]
  index_push : ∀ s e e', index (H.push s e) e' = if e' = e then ((entries s).length : Int) else index s e'
  item_push : ∀ s e e', item (H.push s e) e' = item s e'
  pop_fst : ∀ s, (H.pop s).1 = (entries s).getD ((entries s).length - 1) 0
  entries_pop : ∀ s, entries (H.pop s).2 = (entries s).dropLast
  index_pop : ∀ s e, e ≠ (H.pop s).1 → index (H.pop s).2 e = index s e
  item_pop : ∀ s e, item (H.pop s).2 e = item s e

namespace CellHeap

variable {σ β : Type} {H : HeapInterface σ ℕ} (C : CellHeap H β) {s s' : σ} {i j e : ℕ}

/-- Every entry is in the container once and knows its place. -/
structure Indexed (s : σ) : Prop where
  nodup : (C.entries s).Nodup
  index : ∀ (i e : ℕ), (C.entries s)[i]? = some e → C.index s e = i

/-- The same entries with the same items, and cells of others left alone. -/
structure Sifted (s s' : σ) : Prop where
  indexed : C.Indexed s'
  perm : (C.entries s').Perm (C.entries s)
  item : ∀ e, C.item s' e = C.item s e
  apart : ∀ e ∉ C.entries s, C.index s' e = C.index s e

variable {C}

theorem Sifted.refl (h : C.Indexed s) : C.Sifted s s := ⟨h, .refl _, fun _ => rfl, fun _ _ => rfl⟩

theorem getElem?_entries (hi : i < (C.entries s).length) : (C.entries s)[i]? = some ((C.entries s).getD i 0) := by
  rw [getD_eq_getElem?_getD, getElem?_eq_getElem hi, Option.getD_some]

theorem swap_sifted (h : C.Indexed s) (hi : i < (C.entries s).length) (hj : j < (C.entries s).length) :
    C.Sifted s (H.swap s i j) := by
  have hperm : (C.entries (H.swap s i j)).Perm (C.entries s) := by
    rw [C.entries_swap, getD_eq_getElem _ _ hi, getD_eq_getElem _ _ hj]
    exact set_set_perm hi hj
  refine ⟨⟨hperm.nodup_iff.2 h.nodup, fun k e he => ?_⟩, hperm, C.item_swap s i j, fun e he => ?_⟩
  · have hother : ∀ {a b e}, a ≠ b → b < (C.entries s).length → (C.entries s)[a]? = some e → e ≠ (C.entries s).getD b 0 := by
      rintro a b e hab hb ha rfl
      exact hab ((getElem?_inj (List.getElem?_eq_some_iff.1 ha).1 h.nodup).1 (ha.trans (getElem?_entries hb).symm))
    rw [C.entries_swap, getElem?_set] at he
    rw [C.index_swap s i j e hi hj]
    split at he
    · subst k
      rw [if_pos (by rwa [length_set]), Option.some.injEq] at he
      rw [if_pos he.symm]
    · rw [getElem?_set] at he
      split at he
      · subst k
        cases he
        rw [if_neg (hother ‹_› hi (getElem?_entries hj)), if_pos rfl]
      · rw [if_neg (hother (Ne.symm ‹_›) hi he), if_neg (hother (Ne.symm ‹_›) hj he), h.index k e he]
  · have hne : ∀ k < (C.entries s).length, e ≠ (C.entries s).getD k 0 := by
      rintro k hk rfl
      exact he (mem_of_getElem? (getElem?_entries hk))
    rw [C.index_swap s i j e hi hj, if_neg (hne i hi), if_neg (hne j hj)]

theorem Sifted.swap (hs : C.Sifted s s') (hi : i < (C.entries s).length) (hj : j < (C.entries s).length) :
    C.Sifted s (H.swap s' i j) := by
  rw [← hs.perm.length_eq] at hi hj
  obtain ⟨hx, hperm, hitem, hapart⟩ := swap_sifted hs.indexed hi hj
  exact ⟨hx, hperm.trans hs.perm, fun e => (hitem e).trans (hs.item e), fun e he =>
    (hapart e (mt hs.perm.mem_iff.1 he)).trans (hs.apart e he)⟩

theorem heapPush_spec (h : C.Indexed s) (he : e ∉ C.entries s) : C.Indexed (H.heapPush s e) ∧
    (C.entries (H.heapPush s e)).Perm (e :: C.entries s) ∧ (∀ e', C.item (H.heapPush s e) e' = C.item s e') ∧
      ∀ e' ∉ C.entries s, e' ≠ e → C.index (H.heapPush s e) e' = C.index s e' := by
  have hpushed : C.Indexed (H.push s e) := by
    refine ⟨?_, fun i e' he' => ?_⟩
    · rw [C.entries_push]
      exact nodup_append.2 ⟨h.nodup, nodup_singleton e, by
        rintro a ha b hb rfl
        exact he (mem_singleton.1 hb ▸ ha)⟩
    · rw [C.entries_push, getElem?_append] at he'
      rw [C.index_push]
      split at he'
      · have hne : e' ≠ e := by
          rintro rfl
          exact he (mem_of_getElem? he')
        rw [if_neg hne, h.index i e' he']
      · rw [getElem?_singleton] at he'
        split at he'
        · cases he'
          rw [if_pos rfl]
          omega
        · cases he'
  have hsifted : C.Sifted (H.push s e) (H.heapPush s e) := by
    refine HeapInterface.up_keeps (fun s' i j hs hi hj => hs.swap hi hj) (.refl hpushed) ?_
    rw [C.len, C.entries_push, length_append, length_singleton]
    omega
  refine ⟨hsifted.indexed, ?_, fun e' => (hsifted.item e').trans (C.item_push s e e'), fun e' he' hne => ?_⟩
  · exact hsifted.perm.trans (C.entries_push s e ▸ perm_append_singleton e _)
  · rw [hsifted.apart e' (by simp [C.entries_push, he', hne]), C.index_push, if_neg hne]

/-- An entry at the end, after sifts that do not reach it. -/
theorem Sifted.swap_end {n : ℕ} (hs : C.Sifted s s' ∧ (C.entries s')[n]? = some e) (hn : n < (C.entries s).length) (hi : i < n)
    (hj : j < n) : C.Sifted s (H.swap s' i j) ∧ (C.entries (H.swap s' i j))[n]? = some e := by
  refine ⟨hs.1.swap (hi.trans hn) (hj.trans hn), ?_⟩
  rw [C.entries_swap, getElem?_set_ne hj.ne, getElem?_set_ne hi.ne, hs.2]

theorem swap_to_end (h : C.Indexed s) {n : ℕ} (hi : (C.entries s)[i]? = some e) (hn : n < (C.entries s).length) :
    C.Sifted s (H.swap s i n) ∧ (C.entries (H.swap s i n))[n]? = some e := by
  have hlt : i < (C.entries s).length := (List.getElem?_eq_some_iff.1 hi).1
  refine ⟨swap_sifted h hlt hn, ?_⟩
  rw [C.entries_swap, getElem?_set_self (by rwa [length_set]), ← getElem?_entries hlt, hi]

/-- What is left when the last entry is taken. -/
theorem pop_spec (hs : C.Sifted s s' ∧ (C.entries s')[(C.entries s).length - 1]? = some e) : (H.pop s').1 = e ∧
    C.Indexed (H.pop s').2 ∧ (C.entries s).Perm (e :: C.entries (H.pop s').2) ∧ (∀ e', C.item (H.pop s').2 e' = C.item s e') ∧
      ∀ e' ∉ C.entries s, C.index (H.pop s').2 e' = C.index s e' := by
  obtain ⟨⟨hx, hperm, hitem, hapart⟩, hlast⟩ := hs
  rw [← hperm.length_eq] at hlast
  have hlt := (List.getElem?_eq_some_iff.1 hlast).1
  have hget : (H.pop s').1 = e := (C.pop_fst s').trans (Option.some.inj ((getElem?_entries hlt).symm.trans hlast))
  have hsplit : C.entries s' = (C.entries s').dropLast ++ [e] := by
    exact (dropLast_append_getLast? e (by rw [getLast?_eq_getElem?, hlast]; rfl)).symm
  have hnodup := hx.nodup
  rw [hsplit, nodup_append] at hnodup
  refine ⟨hget, ⟨?_, fun i e' he' => ?_⟩, ?_, fun e' => (C.item_pop s' e').trans (hitem e'), fun e' he' => ?_⟩
  · rw [C.entries_pop]
    exact hnodup.1
  · rw [C.entries_pop] at he'
    have hne : e' ≠ (H.pop s').1 := by
      rintro rfl
      exact hnodup.2.2 _ (mem_of_getElem? he') e (mem_singleton_self _) hget
    rw [C.index_pop s' e' hne]
    refine hx.index i e' ?_
    rw [hsplit, getElem?_append, if_pos (List.getElem?_eq_some_iff.1 he').1, he']
  · refine hperm.symm.trans ?_
    rw [C.entries_pop, hsplit]
    simp
  · rw [C.index_pop, hapart e' he']
    rintro rfl
    exact he' (hperm.mem_iff.1 (hget ▸ mem_of_getElem? hlast))

/-- The entry at a place leaves the heap, and all others stay. -/
theorem heapRemove_spec (h : C.Indexed s) (hi : (C.entries s)[i]? = some e) : (H.heapRemove s i).1 = e ∧
    C.Indexed (H.heapRemove s i).2 ∧ (C.entries s).Perm (e :: C.entries (H.heapRemove s i).2) ∧
      (∀ e', C.item (H.heapRemove s i).2 e' = C.item s e') ∧ ∀ e' ∉ C.entries s, C.index (H.heapRemove s i).2 e' = C.index s e' := by
  have hlt : i < (C.entries s).length := (List.getElem?_eq_some_iff.1 hi).1
  have hn : (C.entries s).length - 1 < (C.entries s).length := by omega
  refine pop_spec (HeapInterface.sendToEnd_keeps (I := fun s' => C.Sifted s s' ∧ (C.entries s')[(C.entries s).length - 1]? = some e)
    (fun s' i j hs hi hj => ?_) (by rwa [C.len]) (fun heq => ⟨.refl h, ?_⟩) ?_)
  · rw [C.len] at hi hj
    exact Sifted.swap_end hs hn hi hj
  · rw [C.len] at heq
    rwa [← heq]
  · rw [C.len]
    exact swap_to_end h hi hn

/-- The first entry leaves the heap. -/
theorem heapPop_spec (h : C.Indexed s) (he : (C.entries s)[0]? = some e) : (H.heapPop s).1 = e ∧
    C.Indexed (H.heapPop s).2 ∧ (C.entries s).Perm (e :: C.entries (H.heapPop s).2) ∧ ∀ e', C.item (H.heapPop s).2 e' = C.item s e' := by
  have hlt : 0 < (C.entries s).length := (List.getElem?_eq_some_iff.1 he).1
  have hn : (C.entries s).length - 1 < (C.entries s).length := by omega
  have hpop := pop_spec (HeapInterface.down_keeps (I := fun s' => C.Sifted s s' ∧ (C.entries s')[(C.entries s).length - 1]? = some e)
    (fun s' i j hs hi hj => Sifted.swap_end hs hn hi hj) 0 (swap_to_end h he hn))
  rw [← C.len] at hpop
  exact ⟨hpop.1, hpop.2.1, hpop.2.2.1, hpop.2.2.2.1⟩

end CellHeap

end InferenceGateway.Lib
