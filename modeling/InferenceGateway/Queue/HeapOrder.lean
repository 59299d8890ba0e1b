import InferenceGateway.Queue.HeapHandles
/-!
# The order of the queue

What `Add` and `Remove` do to the max-min order, and what `PeekHead` and
`PeekTail` find in it. `Add` always keeps it. `Remove` fills the hole with the
last item and sifts that down, without ever looking at the items above the hole.
-/

namespace InferenceGateway.Queue.MaxMinHeap

open Lib Lib.ArrayTree Lib.AltHeap List

variable {α : Type} [QueueItemAccessor α]

variable (h : MaxMinHeap α)

/-- An item on an even level is preceded by no item below it, an item on an odd
level precedes none. -/
def WellOrdered : Prop := Valid h.less h.items.length h.get

instance : Decidable h.WellOrdered := inferInstanceAs (Decidable (Valid _ _ _))

/-- `PeekHead` gives an item that no other precedes and `PeekTail` one that
precedes no other; both give one unless the queue is empty. -/
structure PeeksExtremes (h : MaxMinHeap α) : Prop where
  some_head : h.items ≠ [] → ∃ x, h.peekHead = some x
  some_tail : h.items ≠ [] → ∃ x, h.peekTail = some x
  head : ∀ x, h.peekHead = some x → x ∈ h.items ∧ ∀ y ∈ h.items, h.less y x = false
  tail : ∀ x, h.peekTail = some x → x ∈ h.items ∧ ∀ y ∈ h.items, h.less x y = false

theorem exists_get_of_mem {h : MaxMinHeap α} {y : α} (hy : y ∈ h.items) : ∃ k, k < h.items.length ∧ h.get k = y := by
  obtain ⟨k, hk, rfl⟩ := getElem_of_mem hy
  exact ⟨k, hk, get_eq hk⟩

theorem peekHead_eq : h.peekHead = if h.items.length = 0 then none else some (h.get 0) := by
  unfold peekHead get
  cases h.items <;> simp

/-- Where `PeekTail` finds its item. -/
def tailIndex : Nat :=
  if h.items.length = 1 then 0
  else if h.items.length = 2 then 1
  else if h.less (h.get 1) (h.get 2) then 2
  else 1

theorem peekTail_eq :
    h.peekTail = if h.items.length = 0 then none else some (h.get h.tailIndex) := by
  simp only [peekTail, tailIndex]
  split_ifs <;> rfl

theorem tailIndex_lt {h : MaxMinHeap α} (hn : 0 < h.items.length) : h.tailIndex < h.items.length := by
  unfold tailIndex
  split_ifs <;> omega

section Peek
variable {h : MaxMinHeap α}

variable {k : Nat}

theorem root_first (hv : h.WellOrdered) (hk : k < h.items.length) : h.less (h.get k) (h.get 0) = false :=
  hv 0 k hk (.root k)

/-- A child of the root precedes nothing in its subtree. -/
theorem child_last (hv : h.WellOrdered) {c : Nat} (hc : c = 1 ∨ c = 2) (hk : k < h.items.length) (hu : Under c k) :
    h.less (h.get c) (h.get k) = false := by
  have := hv c k hk hu
  rcases hc with rfl | rfl <;> exact this

variable [IsStrictWeakOrder α (fun x y => h.less x y = true)]

theorem tail_last (hv : h.WellOrdered) (hk : k < h.items.length) : h.less (h.get h.tailIndex) (h.get k) = false := by
  rcases Nat.eq_zero_or_pos k with rfl | hk0
  · exact root_first hv (tailIndex_lt hk)
  -- Any other item is below one of the root's two children.
  have hsplit : Under 1 k ∨ Under 2 k := (Under.root k).down (by omega)
  unfold tailIndex
  split_ifs with h1 h2 hlt
  · omega
  · obtain rfl : k = 1 := by omega
    exact lt_irrefl _
  · rcases hsplit with hu | hu
    · exact not_lt_trans (lt_asymm hlt) (child_last hv (.inl rfl) hk hu)
    · exact child_last hv (.inr rfl) hk hu
  · rcases hsplit with hu | hu
    · exact child_last hv (.inl rfl) hk hu
    · exact not_lt_trans (by simpa using hlt) (child_last hv (.inr rfl) hk hu)

theorem wellOrdered_peeks (hv : h.WellOrdered) : h.PeeksExtremes := by
  constructor
  · intro hne
    rw [peekHead_eq, if_neg (by simpa using hne)]; exact ⟨_, rfl⟩
  · intro hne
    rw [peekTail_eq, if_neg (by simpa using hne)]; exact ⟨_, rfl⟩
  · intro x hx
    rw [peekHead_eq] at hx
    split at hx
    · cases hx
    obtain rfl : h.get 0 = x := by simpa using hx
    refine ⟨get_mem (by omega), fun y hy => ?_⟩
    obtain ⟨k, hk, rfl⟩ := exists_get_of_mem hy
    exact root_first hv hk
  · intro x hx
    rw [peekTail_eq] at hx
    split at hx
    · cases hx
    obtain rfl : h.get h.tailIndex = x := by simpa using hx
    refine ⟨get_mem (tailIndex_lt (by omega)), fun y hy => ?_⟩
    obtain ⟨k, hk, rfl⟩ := exists_get_of_mem hy
    exact tail_last hv hk

end Peek

/-! ## Concrete queues -/

/-- A request with its arrival time, first come first served. -/
structure Arrival where
  id : Nat
  time : Nat
deriving DecidableEq, Repr, Inhabited

instance : QueueItemAccessor Arrival where
  byteSize _ := 1

def Arrival.earlier (x y : Arrival) : Bool := x.time < y.time

instance : IsStrictWeakOrder Arrival (fun x y => Arrival.earlier x y = true) where
  irrefl x := by simp [Arrival.earlier]
  trans x y z := by simp only [Arrival.earlier, decide_eq_true_eq]; omega
  incomp_trans x y z := by simp only [Arrival.earlier, decide_eq_true_eq]; omega

/-- A check of what a run returned. -/
theorem ok_of_any {ε β : Type} {e : Except ε β} {p : β → Bool} (he : e.toOption.any p = true) :
    ∃ b, e = .ok b ∧ p b = true := by
  cases e with
  | error _ => cases he
  | ok b => exact ⟨b, rfl, he⟩

/-! ## Add -/

section Add
variable [DecidableEq α]

theorem push_less (h : MaxMinHeap α) (x : α) : (h.push x).less = h.less := (h.push_swaps x).less

theorem WellOrdered.add {h : MaxMinHeap α} [IsStrictWeakOrder α (fun x y => h.less x y = true)] (hv : h.WellOrdered)
    (x : α) : (h.add x).WellOrdered := by
  have : IsStrictWeakOrder α (fun y z => (h.appended x).less y z = true) := by
    rwa [show (h.appended x).less = h.less from rfl]
  have hold : Valid (h.appended x).less h.items.length (h.appended x).get := hv.congr (h.appended_get x).1
  have hup := up_valid (h.appended x) (by simp [appended]) hold
  have hlen : (h.push x).items.length = h.items.length + 1 := by
    rw [(h.push_swaps x).length]; simp [appended]
  change Valid (h.push x).less (h.push x).items.length (h.push x).get
  rw [hlen, push_less, push_eq]
  exact hup

/-- `Add` keeps the max-min order and puts in exactly its item; in a queue in
order the two ends are where `PeekHead` and `PeekTail` look. -/
theorem add_wellOrdered (h : MaxMinHeap α) [IsStrictWeakOrder α (fun x y => h.less x y = true)] (x : α)
    (hv : h.WellOrdered) :
    (h.add x).WellOrdered ∧ (h.add x).items.Perm (x :: h.items) ∧ h.PeeksExtremes ∧ (h.add x).PeeksExtremes := by
  have : IsStrictWeakOrder α (fun y z => (h.add x).less y z = true) := by
    rwa [show (h.add x).less = h.less from push_less h x]
  exact ⟨hv.add x, add_perm h x, wellOrdered_peeks hv, wellOrdered_peeks (hv.add x)⟩

/-- A queue filled by `Add`. -/
def ofAdds (less : α → α → Bool) (xs : List α) : MaxMinHeap α := xs.foldl add (newMaxMinHeap less)

/-- Three requests in a queue, and a fourth that arrived before them. -/
theorem add_wellOrdered_arrivals :
    let h : MaxMinHeap Arrival := ofAdds Arrival.earlier [⟨1, 1⟩, ⟨2, 7⟩, ⟨3, 5⟩]
    h.WellOrdered ∧ ((h.add ⟨4, 0⟩).WellOrdered ∧ (h.add ⟨4, 0⟩).items.Perm (⟨4, 0⟩ :: h.items) ∧
      h.PeeksExtremes ∧ (h.add ⟨4, 0⟩).PeeksExtremes) := by
  intro h
  have : IsStrictWeakOrder Arrival (fun x y => h.less x y = true) :=
    inferInstanceAs (IsStrictWeakOrder Arrival (fun x y => Arrival.earlier x y = true))
  have hv : h.WellOrdered := by decide
  exact ⟨hv, add_wellOrdered h ⟨4, 0⟩ hv⟩

theorem adds_keep (xs : List α) : ∀ h : MaxMinHeap α, IsStrictWeakOrder α (fun x y => h.less x y = true) →
    h.Synced → h.WellOrdered → (∀ x ∈ xs, x ∉ h.items) → xs.Nodup →
    (xs.foldl add h).Synced ∧ (xs.foldl add h).WellOrdered := by
  induction xs with
  | nil => intro h _ hs hv _ _; exact ⟨hs, hv⟩
  | cons x xs ih =>
    intro h hw hs hv hout hn
    obtain ⟨hx, hn⟩ := nodup_cons.1 hn
    refine ih (h.add x) ?_ (add_synced hs (hout x mem_cons_self)) (hv.add x) (fun y hy hc => ?_) hn
    · rwa [show (h.add x).less = h.less from push_less h x]
    · rcases mem_cons.1 ((add_perm h x).mem_iff.1 hc) with rfl | hc
      · exact hx hy
      · exact hout y (mem_cons_of_mem _ hy) hc

theorem ofAdds_keeps (less : α → α → Bool) [IsStrictWeakOrder α (fun x y => less x y = true)] (xs : List α)
    (hn : xs.Nodup) : (ofAdds less xs).Synced ∧ (ofAdds less xs).WellOrdered :=
  adds_keep xs (newMaxMinHeap less) ‹_› (newMaxMinHeap_synced less) (fun _ _ hj _ => absurd hj (Nat.not_lt_zero _))
    (fun _ _ => not_mem_nil) hn

end Add

/-! ## Remove -/

section Remove
variable {h : MaxMinHeap α}

/-- The last item may take the place `i`: either it is there already, or no item
above `i` is in its way and it finds its way down from `i`. -/
def FillsHole (h : MaxMinHeap α) (i : Nat) : Prop :=
  i + 1 = h.items.length ∨
    ((∀ k, k < i → Under k i → ord h.less k (h.get k) (h.get (h.items.length - 1)) = false) ∧
      pathClear (ord h.less i) { h with items := h.items.take (h.items.length - 1) } (h.items.length - 1)
        (h.get (h.items.length - 1)) i = true)

instance (h : MaxMinHeap α) (i : Nat) : Decidable (h.FillsHole i) := by unfold FillsHole; infer_instance

theorem vacated_length (s : Nat) (it : HeapItem α) : (h.vacated s it).items.length = h.items.length - 1 := by
  simp [vacated]

theorem vacated_less (s : Nat) (it : HeapItem α) : (h.vacated s it).less = h.less := by
  simp [vacated]

variable {k s : Nat} {it : HeapItem α}

theorem vacated_get (hi : it.index < h.items.length) (hk : k < h.items.length - 1) :
    (h.vacated s it).get k = if k = it.index then h.get (h.items.length - 1) else h.get k := by
  rw [vacated, dropLast_get (by simpa using hk), swap_get hi (by omega), Function.comp_apply]
  by_cases hki : k = it.index
  · rw [if_pos hki, hki, Equiv.swap_apply_left]
  · rw [if_neg hki, Equiv.swap_apply_of_ne_of_ne hki (by omega)]

theorem vacated_siftsClean (hi : it.index < h.items.length - 1) :
    (h.vacated s it).siftsClean it.index = pathClear (ord h.less it.index)
      { h with items := h.items.take (h.items.length - 1) } (h.items.length - 1)
        (h.get (h.items.length - 1)) it.index := by
  rw [siftsClean, vacated_less, vacated_length, loopAll_eq_pathClear (h := { h with items := _ }),
    vacated_get (by omega) hi, if_pos rfl]
  · simp [vacated_length]
  · intro j hj hu hne
    rw [length_take] at hj
    rw [vacated_get (by omega) (by omega), if_neg hne]
    exact (dropLast_get (h := h) (s := s) (x := it.item) (by omega)).symm

/-- Everywhere but at the hole and above it the order is that of before. -/
theorem vacated_nodeOk (hv : h.WellOrdered) (hi : it.index < h.items.length - 1) (hne : k ≠ it.index)
    (habove : Under k it.index → ord h.less k (h.get k) (h.get (h.items.length - 1)) = false) :
    NodeOk h.less (h.items.length - 1) (h.vacated s it).get k := by
  intro j hj hu
  have hkj := hu.le
  rw [vacated_get (by omega) (by omega), if_neg hne, vacated_get (by omega) hj]
  split
  · rename_i hji; subst hji; exact habove hu
  · exact hv k j (by omega) hu

/-- An item above the hole that is out of order with the last item stays so:
the sift works below it. -/
theorem refill_above (hi : it.index < h.items.length - 1)
    (hv : Valid h.less (h.items.length - 1) ((h.vacated s it).down it.index).get) (hk : k < it.index)
    (hu : Under k it.index) : ord h.less k (h.get k) (h.get (h.items.length - 1)) = false := by
  have hw := (h.vacated s it).down_within it.index
  rw [vacated_length] at hw
  obtain ⟨j, hj, huj, he⟩ := hw.target (.self (r := it.index)) hi
  have hout : ¬ Under it.index k := fun hc => by have := hc.le; omega
  have := hv k j hj (hu.trans huj)
  rwa [he, hw.outside hout, vacated_get (by omega) (by omega), if_neg (by omega), vacated_get (by omega) hi,
    if_pos rfl] at this

theorem refill_valid_iff [IsStrictWeakOrder α (fun x y => h.less x y = true)] (hv : h.WellOrdered)
    (hi : it.index < h.items.length - 1) :
    Valid h.less (h.items.length - 1) ((h.vacated s it).down it.index).get ↔ h.FillsHole it.index := by
  have hless := h.vacated_less s it
  have hlen := h.vacated_length s it
  have : IsStrictWeakOrder α (fun x y => (h.vacated s it).less x y = true) := by rwa [hless]
  rw [FillsHole, or_iff_right (by omega), ← vacated_siftsClean (s := s) hi]
  have hnear : ∀ k, k ≠ it.index → ¬ Under k it.index → NodeOk h.less (h.items.length - 1) (h.vacated s it).get k :=
    fun k hne hnot => vacated_nodeOk hv hi hne fun hu => absurd hu hnot
  constructor
  · intro hval
    refine ⟨fun k hk hu => refill_above hi hval hk hu, ?_⟩
    by_contra hdirty
    obtain ⟨k, -, hbad⟩ := down_dirty (h.vacated s it) (i := it.index) (fun k hu hne => by
      rw [hless, hlen]
      exact hnear k hne fun hc => hne (hc.antisymm hu)) (by simpa using hdirty)
    rw [hless, hlen] at hbad
    exact hbad (hval k)
  · rintro ⟨habove, hclean⟩ k
    have := down_ok (h.vacated s it) (K := fun _ => True) (fun _ _ => trivial) (fun k _ hne => by
      rw [hless, hlen]
      exact vacated_nodeOk hv hi hne fun hu => habove k (by have := hu.le; omega) hu) hclean k trivial
    rwa [hless, hlen] at this

/-- `Remove` takes out the handle's item, and the order survives exactly when
the last item may take its place. -/
theorem remove_wellOrdered_iff (h : MaxMinHeap α) [IsStrictWeakOrder α (fun x y => h.less x y = true)] (hs : h.Synced)
    (hv : h.WellOrdered) (s : Nat) (it : HeapItem α) (hit : h.handles s = some it) :
    ∃ h', h.remove (.own s) = .ok (it.item, h') ∧ h.items.Perm (it.item :: h'.items) ∧
      (h'.WellOrdered ∧ h'.PeeksExtremes ↔ h.FillsHole it.index) := by
  obtain ⟨hi, -, -⟩ := hs.place s it hit
  obtain ⟨h', hrem, -, hperm⟩ := remove_synced hs hit
  refine ⟨h', hrem, hperm, ?_⟩
  rw [remove_live hs hit, Except.ok.injEq, Prod.mk.injEq] at hrem
  obtain ⟨-, rfl⟩ := hrem
  have hiff : ∀ h' : MaxMinHeap α, h'.less = h.less → (h'.WellOrdered ∧ h'.PeeksExtremes ↔ h'.WellOrdered) := by
    intro h' hl
    have : IsStrictWeakOrder α (fun x y => h'.less x y = true) := by rwa [hl]
    exact ⟨fun hw => hw.1, fun hw => ⟨hw, wellOrdered_peeks hw⟩⟩
  by_cases hlast : it.index < h.items.length - 1
  · have hsw := (h.vacated s it).down_swaps it.index
    have hless : ((h.vacated s it).down it.index).less = h.less := by rw [hsw.less, vacated_less]
    rw [if_pos hlast, hiff _ (by simpa using hless), ← refill_valid_iff (s := s) hv hlast, WellOrdered]
    rw [invalidate_less, hless, invalidate_items, hsw.length, vacated_length]
    rfl
  · rw [if_neg hlast, hiff _ (by simp)]
    refine iff_of_true ?_ (.inl (by omega))
    intro k j hj hu
    have hj' : j < h.items.length - 1 := by simpa using hj
    have := hu.le
    have hg : ∀ l, l < h.items.length - 1 → ((h.dropLast s it.item).invalidate s).get l = h.get l :=
      fun l hl => dropLast_get (s := s) (x := it.item) hl
    rw [hg k (by omega), hg j hj']
    exact hv k j (by omega) hu

/-- The second of four requests leaves; the third takes its place. -/
theorem remove_wellOrdered_iff_arrivals :
    let h := ofAdds Arrival.earlier [⟨1, 1⟩, ⟨2, 7⟩, ⟨3, 5⟩, ⟨4, 0⟩]
    h.FillsHole 1 ∧ ∃ h', h.remove (.own 1) = .ok (⟨2, 7⟩, h') ∧ h'.WellOrdered ∧ h'.PeeksExtremes := by
  intro h
  have : IsStrictWeakOrder Arrival (fun x y => h.less x y = true) :=
    inferInstanceAs (IsStrictWeakOrder Arrival (fun x y => Arrival.earlier x y = true))
  obtain ⟨hs, hv⟩ := ofAdds_keeps Arrival.earlier [⟨1, 1⟩, ⟨2, 7⟩, ⟨3, 5⟩, ⟨4, 0⟩] (by decide)
  have hfills : h.FillsHole 1 := by decide
  obtain ⟨h', hrem, -, hiff⟩ := remove_wellOrdered_iff h hs hv 1 ⟨⟨2, 7⟩, 1⟩ (by decide)
  exact ⟨hfills, h', hrem, hiff.2 hfills⟩

/-- Six requests in order. The second leaves from the third level, and the last
one is put there below an item that has to come after it. When the sixth leaves
too, `PeekTail` names a request that is not the last in line. -/
theorem remove_breaks_order :
    let h := ofAdds Arrival.earlier [⟨0, 0⟩, ⟨1, 1⟩, ⟨2, 4⟩, ⟨3, 2⟩, ⟨4, 3⟩, ⟨5, 5⟩]
    h.Synced ∧ h.WellOrdered ∧ ∃ h', h.remove (.own 1) = .ok (⟨1, 1⟩, h') ∧ ¬ h'.WellOrdered ∧
      ∃ h'', h'.remove (.own 5) = .ok (⟨5, 5⟩, h'') ∧ h''.peekTail = some ⟨4, 3⟩ ∧ ⟨2, 4⟩ ∈ h''.items ∧
        Arrival.earlier ⟨4, 3⟩ ⟨2, 4⟩ = true := by
  intro h
  obtain ⟨hs, hv⟩ := ofAdds_keeps Arrival.earlier
    [⟨0, 0⟩, ⟨1, 1⟩, ⟨2, 4⟩, ⟨3, 2⟩, ⟨4, 3⟩, ⟨5, 5⟩] (by decide)
  have hrun : (h.remove (.own 1)).toOption.any (fun r => r.1 == ⟨1, 1⟩ && !decide r.2.WellOrdered &&
      (r.2.remove (.own 5)).toOption.any fun q => q.1 == ⟨5, 5⟩ && q.2.peekTail == some ⟨4, 3⟩ &&
        q.2.items.contains ⟨2, 4⟩) = true := by decide +kernel
  obtain ⟨⟨x, h'⟩, hrem, hrun⟩ := ok_of_any hrun
  simp only [Bool.and_eq_true, beq_iff_eq, Bool.not_eq_true', decide_eq_false_iff_not] at hrun
  obtain ⟨⟨rfl, hbad⟩, hrun⟩ := hrun
  obtain ⟨⟨y, h''⟩, hrem', hrun⟩ := ok_of_any hrun
  simp only [Bool.and_eq_true, beq_iff_eq, contains_iff_mem] at hrun
  obtain ⟨⟨rfl, htail⟩, hmem⟩ := hrun
  exact ⟨hs, hv, h', hrem, hbad, h'', hrem', htail, hmem, by decide⟩

end Remove

end InferenceGateway.Queue.MaxMinHeap
