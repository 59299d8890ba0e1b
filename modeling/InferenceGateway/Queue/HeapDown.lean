import InferenceGateway.Queue.HeapSteps
/-!
# Sifting down

`down` is meant to put the one entry out of order back into its subtree. Each
iteration moves it to a child or a grandchild and goes on from there. A
grandchild is on a level of the same kind, and then every other node is in
order. A child is on a level of the other kind; going on from it is harmless
when it has no children. When it has some, they all tie with it, and the loop
pushes the entry below entries that have to stay below it: `siftsClean` says
that this does not happen, `down_ok` that the sift then works, and `down_dirty`
that it fails otherwise.
-/

namespace InferenceGateway.Queue.MaxMinHeap

open Lib Lib.ArrayTree Lib.AltHeap

variable {α : Type}

/-- An iteration of the sift that goes on from a child with children. -/
def innerChild (s s' : MaxMinHeap α × Nat) : Bool :=
  (s'.2 - 1) / 2 == s.2 && 2 * s'.2 + 1 < s.1.items.length

theorem innerChild_iff {h h' : MaxMinHeap α} {i m : Nat} :
    innerChild (h, i) (h', m) = true ↔ parent m = i ∧ 2 * m + 1 < h.items.length := by
  simp [innerChild, parent]

variable [QueueItemAccessor α]

/-- The sift down from `i` never goes on from a child that has children. -/
def siftsClean (h : MaxMinHeap α) (i : Nat) : Bool :=
  loopAll (downStep (ord h.less i)) (fun s s' => !innerChild s s') h.items.length (h, i)

/-- The sift of the textbooks, which stops when it has exchanged the entry with
a child. -/
def settle (behind : α → α → Bool) : Nat → MaxMinHeap α × Nat → MaxMinHeap α
  | 0, s => s.1
  | fuel + 1, s =>
    match downStep behind s with
    | none => s.1
    | some s' => if (s'.2 - 1) / 2 = s.2 then s'.1 else settle behind fuel s'

theorem down_eq (h : MaxMinHeap α) (i : Nat) : h.down i = downWith (ord h.less i) h i := by
  have hb : isMinLevel i = oddLevel i := rfl
  unfold down downMin downMax
  rw [hb]
  cases hi : oddLevel i
  · rw [show ord h.less i = fun x y => h.less y x by funext x y; simp [ord, hi]]; rfl
  · rw [show ord h.less i = h.less by funext x y; simp [ord, hi]]; rfl

variable {behind : α → α → Bool}

theorem downLoop_swaps (fuel : Nat) (s : MaxMinHeap α × Nat) : Swaps s.1 (loop (downStep behind) fuel s).1 := by
  refine loop_inv (fun t => Swaps s.1 t.1) ?_ fuel s .refl
  rintro ⟨h, i⟩ ⟨h', m⟩ hl hs
  exact hl.trans (downStep_swaps hs)

/-- `down` only exchanges items. -/
theorem down_swaps (h : MaxMinHeap α) (i : Nat) : Swaps h (h.down i) := by
  rw [down_eq]; exact downLoop_swaps _ (h, i)

theorem downLoop_within (fuel : Nat) (s : MaxMinHeap α × Nat) :
    Within s.1.items.length s.2 s.1.get (loop (downStep behind) fuel s).1.get := by
  induction fuel generalizing s with
  | zero => exact .refl _ _ _
  | succ fuel ih =>
    obtain ⟨h, i⟩ := s
    cases hs : downStep behind (h, i) with
    | none => rw [loop_break hs]; exact .refl _ _ _
    | some t =>
      obtain ⟨h', m⟩ := t
      rw [loop_next hs]
      have hrest := ih (h', m)
      rw [(downStep_swaps hs).length] at hrest
      have hcand := (find_mem (downStep_cases hs).1).2
      exact (downStep_within hs).trans (hrest.mono (candidate_under hcand))

section Loop
variable {less : α → α → Bool} [IsStrictWeakOrder α (fun x y => less x y = true)] {n : Nat}

variable {h : MaxMinHeap α} {i m : Nat}

/-- Below a node whose descendants are in order, the search finds an entry that
is behind nothing there. -/
theorem find_extreme (hrest : ∀ k, Under i k → k ≠ i → NodeOk less h.items.length h.get k)
    (hf : findChildOrGrandchild (ord less i) h i = some m) :
    ∀ j, j < h.items.length → Under i j → j ≠ i → ord less i (h.get m) (h.get j) = false :=
  extreme_of_candidates hrest fun c hc h0 hp => find_best hf c hc ⟨h0, hp⟩

/-- After an iteration to a grandchild, that one is the only node that may be
out of order. -/
theorem downStep_grandchild {K : Nat → Prop} {h' : MaxMinHeap α} (hn : h.items.length = n) (hK : ∀ k, Under i k → K k)
    (hrest : ∀ k, K k → k ≠ i → NodeOk less n h.get k) (hs : downStep (ord less i) (h, i) = some (h', m))
    (hm : parent m ≠ i) : ord less m = ord less i ∧ ∀ k, K k → k ≠ m → NodeOk less n h'.get k := by
  subst hn
  obtain ⟨hf, hb, -⟩ := downStep_cases hs
  obtain ⟨hlt, h0, hcand⟩ := find_mem hf
  obtain ⟨hp0, hpi⟩ : 0 < parent m ∧ parent (parent m) = i := hcand.resolve_left hm
  refine ⟨by rw [ord_grandchild less h0 hp0, hpi], ?_⟩
  refine NodeOk.trickle hK hrest hlt h0 hp0 hpi (find_extreme (fun k hk => hrest k (hK k hk)) hf) hb ?_
  rw [downStep_get hs]
  simp only [ne_eq, hm, not_false_eq_true, true_and]

theorem downLoop_ok {K : Nat → Prop} (fuel : Nat) : ∀ (h : MaxMinHeap α) (i : Nat), h.items.length = n → n ≤ i + fuel →
    (∀ k, Under i k → K k) → (∀ k, K k → k ≠ i → NodeOk less n h.get k) →
    loopAll (downStep (ord less i)) (fun s s' => !innerChild s s') fuel (h, i) = true →
    ∀ k, K k → NodeOk less n (loop (downStep (ord less i)) fuel (h, i)).1.get k := by
  induction fuel with
  | zero =>
    intro h i hn hfuel hK hrest _ k hk
    by_cases hki : k = i
    · subst hki; exact .leaf (by omega)
    · exact hrest k hk hki
  | succ fuel ih =>
    intro h i hn hfuel hK hrest hclean k hk
    cases hs : downStep (ord less i) (h, i) with
    | none =>
      rw [loop_break hs]
      by_cases hki : k = i
      · subst hki
        rcases downStep_break hs with hf | ⟨m, hf, hb⟩
        · exact .leaf (by rw [← hn]; exact find_none.1 hf)
        · intro j hj hu
          by_cases hjk : j = k
          · subst hjk; exact lt_irrefl _
          · rw [← hn] at hj hrest
            exact not_lt_trans hb (find_extreme (fun k' hk' => hrest k' (hK k' hk')) hf j hj hu hjk)
      · exact hrest k hk hki
    | some t =>
      obtain ⟨h', m⟩ := t
      rw [loopAll_next hs, Bool.and_eq_true, Bool.not_eq_true'] at hclean
      rw [loop_next hs]
      have hlt := downStep_lt hs
      have hn' : h'.items.length = n := by rw [(downStep_swaps hs).length, hn]
      by_cases hm : parent m = i
      · -- `m` has no children, so the loop ends after this exchange.
        have hleaf : n ≤ 2 * m + 1 := by
          by_contra hlt
          have hin : innerChild (h, i) (h', m) = true := innerChild_iff.2 ⟨hm, by omega⟩
          rw [hclean.1] at hin; cases hin
        have hbreak : downStep (ord less i) (h', m) = none := by
          simp only [downStep, find_none.2 (show h'.items.length ≤ 2 * m + 1 by omega)]
        rw [loop_break hbreak, downStep_get hs, if_neg (by simp [hm])]
        obtain ⟨hf, hb, -⟩ := downStep_cases hs
        have hext := find_extreme (fun k hk hne => by rw [hn]; exact hrest k (hK k hk) hne) hf
        rw [hn] at hext
        exact NodeOk.trickle_leaf hrest (by omega) (by omega) hm hleaf hext hb k hk
      · obtain ⟨hord, hrest'⟩ := downStep_grandchild hn hK hrest hs hm
        have hum : Under i m := candidate_under (find_mem (downStep_cases hs).1).2
        rw [← hord] at hclean ⊢
        exact ih h' m hn' (by omega) (fun k hk => hK k (hum.trans hk)) hrest' hclean.2 k hk

/-- The sift goes on from a child `m` with children: the entries below `m` tie
with the one that moved up, and the sifted entry ends below one of them. -/
theorem downLoop_inner {h' : MaxMinHeap α} (fuel : Nat) (hn : h.items.length = n) (hfuel : n ≤ m + fuel)
    (hrest : ∀ k, Under i k → k ≠ i → NodeOk less n h.get k) (hs : downStep (ord less i) (h, i) = some (h', m))
    (hm : parent m = i) (hinner : 2 * m + 1 < n) :
    ¬ NodeOk less n (loop (downStep (ord less i)) fuel (h', m)).1.get m := by
  obtain ⟨hf, hb, -⟩ := downStep_cases hs
  have hcand := (find_mem hf).2
  have him := candidate_lt hcand
  have hum := candidate_under hcand
  have hn' : h'.items.length = n := by rw [(downStep_swaps hs).length, hn]
  have hg' : h'.get = h.get ∘ Equiv.swap i m := by rw [downStep_get hs, if_neg (by simp [hm])]
  have hx : h'.get m = h.get i := by rw [hg']; simp
  -- Everything below `m` ties with the entry that moved up, so the sifted one is behind it.
  have hbelow : ∀ j, j < n → Under m j → j ≠ m → ord less i (h'.get m) (h'.get j) = true := by
    intro j hj hu hjm
    have hji : j ≠ i := by have := hu.le; omega
    rw [hx, hg', Function.comp_apply, Equiv.swap_apply_of_ne_of_ne hji hjm]
    have hold := hrest m hum (by omega) j hj hu
    rw [ord_child less hcand.1, hm] at hold
    exact lt_of_lt_of_not_lt hb hold
  cases hf2 : findChildOrGrandchild (ord less i) h' m with
  | none => have := find_none.1 hf2; omega
  | some m' =>
    obtain ⟨hlt', hcand'⟩ := find_mem hf2
    have hmm' := candidate_lt hcand'
    have hum' := candidate_under hcand'
    have hb' := hbelow m' (by omega) hum' (by omega)
    obtain ⟨h'', hs'⟩ := downStep_next hf2 hb'
    obtain ⟨fuel, rfl⟩ : ∃ f, fuel = f + 1 := ⟨fuel - 1, by omega⟩
    rw [loop_next hs']
    have hwithin : Within _ _ _ (loop (downStep (ord less i)) fuel (h'', m')).1.get := downLoop_within fuel (h'', m')
    simp only [(downStep_swaps hs').length, hn'] at hwithin
    have hget := downStep_get hs'
    have hpm' := parent_lt hcand'.1
    have hm_out : ¬ Under m' m := fun hu => by have := hu.le; omega
    by_cases hp : parent m' = m
    · rw [if_neg (by simp [hp])] at hget
      have h1 : h''.get m = h'.get m' := by rw [hget]; simp
      have h2 : h''.get m' = h'.get m := by rw [hget]; simp
      obtain ⟨j, hj, hu, he⟩ := hwithin.target .self (by omega)
      refine not_nodeOk_of_pushed hcand.1 hm hj (hum'.trans hu) ?_
      rw [he, hwithin.outside hm_out, h1, h2]; exact hb'
    · have hup : Under m (parent m') := (hum'.up (by omega)).2
      have hbp := hbelow (parent m') (by omega) hup hp
      rw [if_pos ⟨hp, hbp⟩] at hget
      have h1 : h''.get m = h'.get m' := by
        rw [hget]; simp [Equiv.swap_apply_of_ne_of_ne (show m ≠ m' by omega) (Ne.symm hp)]
      have h2 : h''.get (parent m') = h'.get m := by rw [hget]; simp
      have hp_out : ¬ Under m' (parent m') := fun hu => by have := hu.le; omega
      refine not_nodeOk_of_pushed hcand.1 hm (show parent m' < n by omega) hup ?_
      rw [hwithin.outside hp_out, hwithin.outside hm_out, h1, h2]; exact hb'

theorem downLoop_dirty (fuel : Nat) : ∀ (h : MaxMinHeap α) (i : Nat), h.items.length = n → n ≤ i + fuel →
    (∀ k, Under i k → k ≠ i → NodeOk less n h.get k) →
    loopAll (downStep (ord less i)) (fun s s' => !innerChild s s') fuel (h, i) = false →
    ∃ k, Under i k ∧ ¬ NodeOk less n (loop (downStep (ord less i)) fuel (h, i)).1.get k := by
  induction fuel with
  | zero => intro h i _ _ _ hd; simp [loopAll] at hd
  | succ fuel ih =>
    intro h i hn hfuel hrest hd
    cases hs : downStep (ord less i) (h, i) with
    | none => rw [loopAll_break hs] at hd; cases hd
    | some t =>
      obtain ⟨h', m⟩ := t
      rw [loopAll_next hs, Bool.and_eq_false_iff, Bool.not_eq_false'] at hd
      rw [loop_next hs]
      have hlt := downStep_lt hs
      have hn' : h'.items.length = n := by rw [(downStep_swaps hs).length, hn]
      have hum : Under i m := candidate_under (find_mem (downStep_cases hs).1).2
      by_cases hm : parent m = i
      · refine ⟨m, hum, ?_⟩
        rcases hd with hd | hd
        · have := (innerChild_iff.1 hd).2
          exact downLoop_inner fuel hn (by omega) hrest hs hm (by omega)
        · -- The loop goes on from `m`, so `m` has children.
          by_cases hleaf : n ≤ 2 * m + 1
          · have hbreak : downStep (ord less i) (h', m) = none := by
              simp only [downStep, find_none.2 (show h'.items.length ≤ 2 * m + 1 by omega)]
            rw [loopAll_break hbreak] at hd; cases hd
          · exact downLoop_inner fuel hn (by omega) hrest hs hm (by omega)
      · have hd : loopAll (downStep (ord less i)) (fun s s' => !innerChild s s') fuel (h', m) = false := by
          rcases hd with hd | hd
          · exact absurd (innerChild_iff.1 hd).1 hm
          · exact hd
        obtain ⟨hord, hrest'⟩ := downStep_grandchild (K := Under i) hn (fun _ hk => hk) hrest hs hm
        rw [← hord] at hd ⊢
        obtain ⟨k, hk, hbad⟩ := ih h' m hn' (by omega) (fun k hk hne => hrest' k (hum.trans hk) hne) hd
        exact ⟨k, hum.trans hk, hbad⟩

end Loop

/-! ## down -/

theorem down_within (h : MaxMinHeap α) (i : Nat) : Within h.items.length i h.get (h.down i).get := by
  rw [down_eq]; exact downLoop_within _ (h, i)

section
variable (h : MaxMinHeap α) [IsStrictWeakOrder α (fun x y => h.less x y = true)]

/-- A clean sift puts the node `i` in order and keeps the others so. -/
theorem down_ok {K : Nat → Prop} {i : Nat} (hK : ∀ k, Under i k → K k)
    (hrest : ∀ k, K k → k ≠ i → NodeOk h.less h.items.length h.get k) (hclean : h.siftsClean i = true) :
    ∀ k, K k → NodeOk h.less h.items.length (h.down i).get k := by
  rw [down_eq]
  exact downLoop_ok h.items.length h i rfl (by omega) hK hrest hclean

/-- Any other sift leaves a node of the subtree out of order. -/
theorem down_dirty {i : Nat} (hrest : ∀ k, Under i k → k ≠ i → NodeOk h.less h.items.length h.get k)
    (hclean : h.siftsClean i = false) : ∃ k, Under i k ∧ ¬ NodeOk h.less h.items.length (h.down i).get k := by
  rw [down_eq]
  exact downLoop_dirty h.items.length h i rfl (by omega) hrest hclean

end

/-- On a clean sift the code does what the textbooks do. -/
theorem downLoop_eq_settle (fuel : Nat) (s : MaxMinHeap α × Nat)
    (hclean : loopAll (downStep behind) (fun s s' => !innerChild s s') fuel s = true) :
    (loop (downStep behind) fuel s).1 = settle behind fuel s := by
  induction fuel generalizing s with
  | zero => rfl
  | succ fuel ih =>
    obtain ⟨h, i⟩ := s
    cases hs : downStep behind (h, i) with
    | none => rw [loop_break hs]; simp [settle, hs]
    | some t =>
      obtain ⟨h', m⟩ := t
      rw [loopAll_next hs, Bool.and_eq_true, Bool.not_eq_true'] at hclean
      rw [loop_next hs]
      simp only [settle, hs]
      split
      · rename_i hm
        have hleaf : ¬ 2 * m + 1 < h.items.length := fun hlt => by
          have hin : innerChild (h, i) (h', m) = true := innerChild_iff.2 ⟨hm, hlt⟩
          rw [hclean.1] at hin; cases hin
        have hlen := (downStep_swaps hs).length
        have hbreak : downStep behind (h', m) = none := by
          simp only [downStep, find_none.2 (show h'.items.length ≤ 2 * m + 1 by omega)]
        rw [loop_break hbreak]
      · exact ih (h', m) hclean.2

theorem down_eq_settle (h : MaxMinHeap α) (i : Nat) (hclean : h.siftsClean i = true) :
    h.down i = settle (ord h.less i) h.items.length (h, i) := by
  rw [down_eq]; exact downLoop_eq_settle _ _ hclean

/-! ## The way of the sifted entry -/

/-- Read off the array alone: an entry `x` on its way down at `i` never changes
places with a child that has children. On the way `x` itself stops at a parent
it has to stay above, and that parent's entry goes on. -/
def pathClear (behind : α → α → Bool) (h : MaxMinHeap α) : Nat → α → Nat → Bool
  | 0, _, _ => true
  | fuel + 1, x, i =>
    match findChildOrGrandchild behind h i with
    | none => true
    | some m =>
      if behind x (h.get m) then
        if parent m = i then h.items.length ≤ 2 * m + 1
        else pathClear behind h fuel (if behind x (h.get (parent m)) then h.get (parent m) else x) m
      else true

/-- The entries below the sifted one are untouched, so its whole way can be
read off the array before the sift. -/
theorem loopAll_eq_pathClear {h : MaxMinHeap α} (fuel : Nat) : ∀ (h' : MaxMinHeap α) (i : Nat),
    h'.items.length = h.items.length → (∀ j, j < h.items.length → Under i j → j ≠ i → h'.get j = h.get j) →
    loopAll (downStep behind) (fun s s' => !innerChild s s') fuel (h', i) = pathClear behind h fuel (h'.get i) i := by
  induction fuel with
  | zero => intro h' i _ _; rfl
  | succ fuel ih =>
    intro h' i hn hg
    have hfind : findChildOrGrandchild behind h' i = findChildOrGrandchild behind h i := find_congr hn hg
    cases hf : findChildOrGrandchild behind h i with
    | none =>
      rw [hf] at hfind
      rw [loopAll_break (by simp only [downStep, hfind])]
      simp only [pathClear, hf]
    | some m =>
      rw [hf] at hfind
      obtain ⟨hm, hcand⟩ := find_mem hf
      have him := candidate_lt hcand
      have hum := candidate_under hcand
      have hpm := parent_lt hcand.1
      have hgm := hg m hm hum (by omega)
      simp only [pathClear, hf]
      cases hb : behind (h'.get i) (h.get m) with
      | false =>
        rw [loopAll_break (by simp only [downStep, hfind, hgm, hb, Bool.false_eq_true, if_false])]
        simp
      | true =>
        obtain ⟨h'', hs⟩ := downStep_next hfind (by rw [hgm]; exact hb)
        have hn'' : h''.items.length = h.items.length := by rw [(downStep_swaps hs).length, hn]
        have hget := downStep_get hs
        rw [loopAll_next hs, if_pos rfl]
        by_cases hp : parent m = i
        · rw [if_pos hp]
          by_cases hleaf : h.items.length ≤ 2 * m + 1
          · have hin : innerChild (h', i) (h'', m) = false := by
              rw [Bool.eq_false_iff, ne_eq, innerChild_iff, hn]
              omega
            rw [hin, loopAll_break (by simp only [downStep, find_none.2 (show h''.items.length ≤ 2 * m + 1 by omega)])]
            simp [hleaf]
          · have hin : innerChild (h', i) (h'', m) = true := innerChild_iff.2 ⟨hp, by omega⟩
            simp [hin, hleaf]
        · rw [if_neg hp]
          have hin : innerChild (h', i) (h'', m) = false := by
            rw [Bool.eq_false_iff, ne_eq, innerChild_iff]
            exact fun hc => hp hc.1
          have hup : Under i (parent m) := (hum.up (by omega)).2
          have hgp := hg (parent m) (by omega) hup hp
          rw [hin, Bool.not_false, Bool.true_and, ih h'' m hn'' fun j hj hu hjm => ?_]
          · congr 1
            rw [hget, hgp]
            split
            · rename_i hc
              rw [if_pos hc.2]
              simp [Equiv.swap_apply_of_ne_of_ne hp (show parent m ≠ m by omega), hgp]
            · rename_i hc
              rw [if_neg (by simpa [hp] using hc)]
              simp
          · have hle := hu.le
            have hold := hg j hj (hum.trans hu) (by omega)
            rw [hget, ← hold]
            split
            · simp [Equiv.swap_apply_of_ne_of_ne (show j ≠ m by omega) (show j ≠ parent m by omega),
                Equiv.swap_apply_of_ne_of_ne (show j ≠ i by omega) (show j ≠ m by omega)]
            · simp [Equiv.swap_apply_of_ne_of_ne (show j ≠ i by omega) (show j ≠ m by omega)]

end InferenceGateway.Queue.MaxMinHeap
