import InferenceGateway.Lib.ArrayTree
/-!
# Alternating heaps

An alternating heap orders the tree in an array by a strict weak order `less`
whose direction changes from level to level: an entry on an even level is not
preceded by any entry below it, and an entry on an odd level precedes none.
`ord less k x y` says that `x` has to give way to `y` at position `k`; a node is
in order (`NodeOk`) when no entry of its subtree makes it give way.

The lemmas are the steps of the sifts. `NodeOk.trickle` and
`NodeOk.trickle_leaf` move the one node out of order two levels down, or one
level down onto a leaf; `UpReady.bubble` moves it two levels up.
-/

namespace InferenceGateway.Lib.AltHeap

open ArrayTree List Equiv

variable {α : Type*}

/-! ## Strict weak orders -/

section Order
variable {lt : α → α → Bool} [IsStrictWeakOrder α (fun x y => lt x y = true)] {x y z : α}

theorem lt_irrefl (x : α) : lt x x = false := by
  simpa using (Std.Irrefl.irrefl (r := fun x y => lt x y = true) x)

theorem lt_trans (h : lt x y = true) (h' : lt y z = true) : lt x z = true :=
  IsTrans.trans (r := fun x y => lt x y = true) _ _ _ h h'

theorem lt_asymm (h : lt x y = true) : lt y x = false := by
  by_contra h'
  have hxx := lt_trans h (by simpa using h')
  have hirr : lt x x = false := lt_irrefl x
  rw [hirr] at hxx; cases hxx

/-- Not giving way is transitive: in a strict weak order ties are an equivalence. -/
theorem not_lt_trans (h : lt x y = false) (h' : lt y z = false) : lt x z = false := by
  by_contra hxz
  rw [Bool.not_eq_false] at hxz
  have hzx := lt_asymm hxz
  by_cases hyx : lt y x = true
  · have := lt_trans hyx hxz
    rw [h'] at this; cases this
  · by_cases hzy : lt z y = true
    · have := lt_trans hxz hzy
      rw [h] at this; cases this
    · have := (@IsStrictWeakOrder.incomp_trans α (fun x y => lt x y = true) _ x y z
        ⟨by simp [h], hyx⟩ ⟨by simp [h'], hzy⟩).1
      exact this hxz

theorem lt_of_lt_of_not_lt (h : lt x y = true) (h' : lt z y = false) : lt x z = true := by
  by_contra hxz
  have := not_lt_trans (by simpa using hxz) h'
  rw [h] at this; cases this

variable (lt) in
/-- A scan over positions that changes its leader whenever the leader is
behind: the last leader is behind no position scanned. -/
theorem scan_leader (a : Nat → α) (n : Nat) (js : List Nat) :
    ∀ m, let r := js.foldl (fun m j => if j < n && lt (a m) (a j) then j else m) m
      lt (a r) (a m) = false ∧ ∀ c ∈ js, c < n → lt (a r) (a c) = false := by
  induction js with
  | nil => intro m; simp [lt_irrefl]
  | cons j js ih =>
    intro m
    simp only [foldl_cons]
    by_cases hj : j < n ∧ lt (a m) (a j) = true
    · rw [if_pos (by simp [hj])]
      obtain ⟨hrj, hrc⟩ := ih j
      refine ⟨not_lt_trans hrj (lt_asymm hj.2), fun c hc hcn => ?_⟩
      rcases mem_cons.1 hc with rfl | hc
      · exact hrj
      · exact hrc c hc hcn
    · rw [if_neg (by simpa using hj)]
      obtain ⟨hrm, hrc⟩ := ih m
      refine ⟨hrm, fun c hc hcn => ?_⟩
      rcases mem_cons.1 hc with rfl | hc
      · exact not_lt_trans hrm (by simpa [hcn] using hj)
      · exact hrc c hc hcn

end Order

/-- The last leader of a scan is the first one or a position scanned. -/
theorem scan_mem (p : Nat → Nat → Bool) (n : Nat) (js : List Nat) :
    ∀ m, let r := js.foldl (fun m j => if j < n && p m j then j else m) m
      r = m ∨ (r ∈ js ∧ r < n) := by
  induction js with
  | nil => intro m; exact .inl rfl
  | cons j js ih =>
    intro m
    simp only [foldl_cons]
    split
    · rename_i hj
      simp only [Bool.and_eq_true, decide_eq_true_eq] at hj
      rcases ih j with hr | hr
      · exact .inr ⟨by rw [hr]; exact mem_cons_self, by rw [hr]; exact hj.1⟩
      · exact .inr ⟨mem_cons_of_mem _ hr.1, hr.2⟩
    · exact (ih m).imp_right fun h => ⟨mem_cons_of_mem _ h.1, h.2⟩

/-- A scan only looks at the entries it visits. -/
theorem scan_congr (lt : α → α → Bool) (a b : Nat → α) (n : Nat) (js : List Nat) : ∀ m, b m = a m →
    (∀ j ∈ js, j < n → b j = a j) →
    js.foldl (fun m j => if j < n && lt (b m) (b j) then j else m) m =
      js.foldl (fun m j => if j < n && lt (a m) (a j) then j else m) m := by
  induction js with
  | nil => intro m _ _; rfl
  | cons j js ih =>
    intro m hm hjs
    have hrest : ∀ k ∈ js, k < n → b k = a k := fun k hk => hjs k (mem_cons_of_mem _ hk)
    simp only [foldl_cons]
    by_cases hj : j < n
    · have hbj := hjs j mem_cons_self hj
      rw [hm, hbj]
      split
      · exact ih j hbj hrest
      · exact ih m hm hrest
    · simp only [hj, decide_false, Bool.false_and, Bool.false_eq_true, if_false]
      exact ih m hm hrest

/-! ## Levels -/

/-- Levels count from 0 at the root. -/
def oddLevel (k : Nat) : Bool := Nat.log2 (k + 1) % 2 != 0

variable {j : Nat}

theorem oddLevel_child (h : 0 < j) : oddLevel j = !oddLevel (parent j) := by
  have hd : (j + 1) / 2 = parent j + 1 := by unfold parent; omega
  have hl : Nat.log2 (j + 1) = Nat.log2 (parent j + 1) + 1 := by
    rw [Nat.log2_def (j + 1), if_pos (by omega), hd]
  unfold oddLevel
  rw [hl]
  rcases Nat.mod_two_eq_zero_or_one (Nat.log2 (parent j + 1)) with h0 | h0 <;> simp [Nat.add_mod, h0]

variable (less : α → α → Bool)

/-- `x` has to give way to `y` at position `k`. -/
def ord (k : Nat) (x y : α) : Bool :=
  if oddLevel k then less x y else less y x

theorem ord_child (h : 0 < j) (x y : α) : ord less j x y = ord less (parent j) y x := by
  unfold ord
  rw [oddLevel_child h]
  cases oddLevel (parent j) <;> rfl

theorem ord_grandchild (h : 0 < j) (h' : 0 < parent j) :
    ord less j = ord less (parent (parent j)) := by
  funext x y
  rw [ord_child less h, ord_child less h']

instance ord_weak [IsStrictWeakOrder α (fun x y => less x y = true)] (k : Nat) :
    IsStrictWeakOrder α (fun x y => ord less k x y = true) where
  irrefl x := by unfold ord; split <;> simp [lt_irrefl]
  trans x y z := by
    unfold ord
    split
    · exact lt_trans
    · exact fun h h' => lt_trans h' h
  incomp_trans x y z := by
    unfold ord
    simp only [Bool.not_eq_true]
    split
    · exact fun h h' => ⟨not_lt_trans h.1 h'.1, not_lt_trans h'.2 h.2⟩
    · exact fun h h' => ⟨not_lt_trans h'.1 h.1, not_lt_trans h.2 h'.2⟩

/-! ## Nodes in order -/

/-- No entry of the subtree of `k`, of the first `n`, makes `a k` give way. -/
def NodeOk (n : Nat) (a : Nat → α) (k : Nat) : Prop :=
  ∀ j, j < n → Under k j → ord less k (a k) (a j) = false

/-- The first `n` entries are an alternating heap. -/
def Valid (n : Nat) (a : Nat → α) : Prop := ∀ k, NodeOk less n a k

theorem valid_iff {less : α → α → Bool} {n : Nat} {a : Nat → α} :
    Valid less n a ↔ ∀ j, j < n → ∀ k, k < n → Under k j → ord less k (a k) (a j) = false :=
  ⟨fun h j hj k _ hu => h k j hj hu, fun h k j hj hu => h j hj k (Nat.lt_of_le_of_lt hu.le hj) hu⟩

instance (n : Nat) (a : Nat → α) : Decidable (Valid less n a) :=
  decidable_of_iff _ valid_iff.symm

variable {less : α → α → Bool} {n : Nat} {a b : Nat → α}

variable {k : Nat}

theorem NodeOk.congr (h : NodeOk less n a k) (hb : ∀ j, j < n → Under k j → b j = a j) : NodeOk less n b k := by
  intro j hj hu
  rw [hb j hj hu, hb k (by have := hu.le; omega) .self]
  exact h j hj hu

theorem Valid.congr (h : Valid less n a) (hb : ∀ j, j < n → b j = a j) : Valid less n b :=
  fun k => (h k).congr fun j hj _ => hb j hj

variable {i : Nat}

/-- Permuting a subtree keeps the nodes above it in order. -/
theorem NodeOk.above (h : NodeOk less n a k) (hw : Within n i a b) (hk : Under k i) (hne : k ≠ i) :
    NodeOk less n b k := by
  intro j hj hu
  have hki : ¬ Under i k := fun hik => hne (hk.antisymm hik)
  rw [hw.outside hki]
  by_cases hij : Under i j
  · obtain ⟨j', hj', hu', he⟩ := hw.source hij hj
    rw [he]; exact h j' hj' (hk.trans hu')
  · rw [hw.outside hij]; exact h j hj hu

theorem NodeOk.leaf [IsStrictWeakOrder α (fun x y => less x y = true)] (h : n ≤ 2 * k + 1) : NodeOk less n a k := by
  intro j hj hu
  by_cases hne : k = j
  · subst hne; exact lt_irrefl _
  · rcases hu.down hne with h' | h' <;> · have := h'.le; omega

section Sift
variable [IsStrictWeakOrder α (fun x y => less x y = true)]

variable {i : Nat}

/-- An entry that gives way to none of `i`'s children and grandchildren gives
way to nothing below `i`, once everything below `i` is in order. -/
theorem extreme_of_candidates (hrest : ∀ k, Under i k → k ≠ i → NodeOk less n a k) {x : α}
    (hc : ∀ c, c < n → 0 < c → (parent c = i ∨ (0 < parent c ∧ parent (parent c) = i)) → ord less i x (a c) = false) :
    ∀ j, j < n → Under i j → j ≠ i → ord less i x (a j) = false := by
  intro j hj hu hne
  obtain ⟨h0, hp⟩ := hu.up (Ne.symm hne)
  by_cases hpi : i = parent j
  · exact hc j hj h0 (.inl hpi.symm)
  obtain ⟨h0', hpp⟩ := hp.up hpi
  -- Every other position is at or under a grandchild `g`, which is on a level of `i`'s kind.
  have hg : ∃ g, g < n ∧ 0 < g ∧ 0 < parent g ∧ parent (parent g) = i ∧ Under g j := by
    clear hc hp h0' hpp h0
    induction hu with
    | self => exact absurd rfl hne
    | @child j h0 h ih =>
      obtain ⟨h0', hpp⟩ := h.up hpi
      by_cases hppi : i = parent (parent j)
      · exact ⟨j, hj, h0, h0', hppi.symm, .self⟩
      · have := parent_lt h0
        obtain ⟨g, hgn, hg0, hgp, hgi, hgu⟩ := ih (by omega) (Ne.symm hpi) hppi
        exact ⟨g, hgn, hg0, hgp, hgi, .child h0 hgu⟩
  obtain ⟨g, hgn, hg0, hgp, hgi, hgu⟩ := hg
  have hgi' : Under i g := .child hg0 (.child hgp (by rw [hgi]; exact .self))
  have hgne : g ≠ i := by have := parent_lt hg0; have := parent_lt hgp; omega
  have hgj := hrest g hgi' hgne j hj hgu
  rw [ord_grandchild less hg0 hgp, hgi] at hgj
  exact not_lt_trans (hc g hgn hg0 (.inr ⟨hgp, hgi⟩)) hgj

/-- A step down: the extreme grandchild `m` of `i` moves up, the entry that was
at `i` takes its place, exchanged with `m`'s parent if those two are then out
of order. Every node but `m` is in order afterwards. -/
theorem NodeOk.trickle {K : Nat → Prop} {m : Nat} (hK : ∀ k, Under i k → K k)
    (hrest : ∀ k, K k → k ≠ i → NodeOk less n a k) (hm : m < n) (hm0 : 0 < m) (hp0 : 0 < parent m)
    (hmi : parent (parent m) = i) (hext : ∀ j, j < n → Under i j → j ≠ i → ord less i (a m) (a j) = false)
    (hlt : ord less i (a i) (a m) = true)
    (hb : b = if ord less i (a i) (a (parent m)) then (a ∘ swap i m) ∘ swap m (parent m)
      else a ∘ swap i m) : ∀ k, K k → k ≠ m → NodeOk less n b k := by
  set p := parent m with hp
  have hpm : p < m := parent_lt hm0
  have hip : i < p := hmi ▸ parent_lt hp0
  have hup : Under i p := .child hp0 (by rw [hmi]; exact .self)
  have hum : Under i m := .child hm0 hup
  have hpum : Under p m := .child hm0 .self
  have hext_i : ord less i (a m) (a i) = false := lt_asymm hlt
  have hext_p := hext p (by omega) hup (by omega)
  have hord_p : ∀ x y, ord less p x y = ord less i y x := fun x y => by rw [ord_child less hp0, hmi]
  -- What the exchanges leave at `i`, `p` and `m`.
  have bi : b i = a m := by
    rw [hb]; split <;> simp [swap_apply_def, show i ≠ m by omega, show i ≠ p by omega]
  have bother : ∀ j, j ≠ i → j ≠ p → j ≠ m → b j = a j := by
    intro j hji hjp hjm
    rw [hb]; split <;> simp [swap_apply_def, hji, hjp, hjm]
  have bpm : (b p = a p ∧ b m = a i ∧ ord less i (a i) (a p) = false) ∨
      (b p = a i ∧ b m = a p ∧ ord less i (a i) (a p) = true) := by
    by_cases h : ord less i (a i) (a p) = true
    · right
      rw [hb, if_pos h]
      simp [swap_apply_def, h, show p ≠ m by omega, show p ≠ i by omega]
    · left
      rw [hb, if_neg h]
      simp [swap_apply_def, show p ≠ m by omega, show p ≠ i by omega, h]
  have hw : Within n i a b := by
    rw [hb]
    have h1 : Within n i a (a ∘ swap i m) := .swap .self hum (by omega) hm
    split
    · exact h1.trans (.swap hum hup hm (by omega))
    · exact h1
  intro k hk hkm
  by_cases hki : k = i
  · subst hki
    intro j hj hu
    rw [bi]
    by_cases hjk : j = k
    · subst hjk; rw [bi]; exact lt_irrefl _
    by_cases hjp : j = p
    · subst hjp
      rcases bpm with ⟨h, -⟩ | ⟨h, -⟩ <;> rw [h] <;> assumption
    by_cases hjm : j = m
    · subst hjm
      rcases bpm with ⟨-, h, -⟩ | ⟨-, h, -⟩ <;> rw [h] <;> assumption
    · rw [bother j hjk hjp hjm]; exact hext j hj hu hjk
  by_cases hkp : k = p
  · subst hkp
    intro j hj hu
    rw [hord_p]
    have hold := hrest p (hK p hup) (by omega)
    have hji : j ≠ i := by rintro rfl; have := hu.le; omega
    by_cases hjp : j = p
    · subst hjp; exact lt_irrefl _
    rcases bpm with ⟨h1, h2, h3⟩ | ⟨h1, h2, h3⟩
    · rw [h1]
      by_cases hjm : j = m
      · subst hjm; rw [h2]; exact h3
      · rw [bother j hji hjp hjm, ← hord_p]; exact hold j hj hu
    · rw [h1]
      by_cases hjm : j = m
      · subst hjm; rw [h2]; exact lt_asymm h3
      · rw [bother j hji hjp hjm]
        have hjp' : ord less i (a j) (a p) = false := by rw [← hord_p]; exact hold j hj hu
        exact not_lt_trans hjp' (lt_asymm h3)
  by_cases hui : Under k i
  · exact (hrest k hk hki).above hw hui hki
  · -- No exchanged position is under `k`.
    refine (hrest k hk hki).congr fun j _ hu => bother j ?_ ?_ ?_
    · rintro rfl; exact hui hu
    · rintro rfl; exact hui (hmi ▸ (hu.up hkp).2)
    · rintro rfl
      have := (hu.up hkm).2
      exact hui (hmi ▸ (this.up hkp).2)

/-- The last step down: the extreme entry below `i` is a child without
children, and moves up. -/
theorem NodeOk.trickle_leaf {K : Nat → Prop} {m : Nat} (hrest : ∀ k, K k → k ≠ i → NodeOk less n a k) (hm : m < n)
    (hm0 : 0 < m) (hmi : parent m = i) (hleaf : n ≤ 2 * m + 1)
    (hext : ∀ j, j < n → Under i j → j ≠ i → ord less i (a m) (a j) = false) (hlt : ord less i (a i) (a m) = true) :
    ∀ k, K k → NodeOk less n (a ∘ swap i m) k := by
  have him : i < m := hmi ▸ parent_lt hm0
  have hum : Under i m := .child hm0 (by rw [hmi]; exact .self)
  have hw : Within n i a (a ∘ swap i m) := .swap .self hum (by omega) hm
  intro k hk
  by_cases hkm : k = m
  · subst hkm; exact .leaf hleaf
  by_cases hki : k = i
  · subst hki
    intro j hj hu
    simp only [Function.comp_apply, swap_apply_left]
    by_cases hjk : j = k
    · subst hjk; rw [swap_apply_left]; exact lt_irrefl _
    by_cases hjm : j = m
    · subst hjm; rw [swap_apply_right]; exact lt_asymm hlt
    · rw [swap_apply_of_ne_of_ne hjk hjm]; exact hext j hj hu hjk
  by_cases hui : Under k i
  · exact (hrest k hk hki).above hw hui hki
  · refine (hrest k hk hki).congr fun j _ hu => ?_
    have hji : j ≠ i := by rintro rfl; exact hui hu
    have hjm : j ≠ m := by rintro rfl; exact hui (hmi ▸ (hu.up hkm).2)
    rw [Function.comp_apply, swap_apply_of_ne_of_ne hji hjm]

/-! ## Sifting up -/

/-- Only the entry at `i` may be out of order, and only against the ancestors
whose levels are of `i`'s own kind. -/
structure UpReady (less : α → α → Bool) (n : Nat) (a : Nat → α) (i : Nat) : Prop where
  lt : i < n
  others : ∀ k j, j < n → j ≠ i → Under k j → ord less k (a k) (a j) = false
  opposite : ∀ k, Under k i → oddLevel k ≠ oddLevel i → ord less k (a k) (a i) = false

theorem ord_same (less : α → α → Bool) (h : oddLevel k = oddLevel i) : ord less k = ord less i := by
  funext x y; simp [ord, h]

theorem ord_opposite (less : α → α → Bool) (h : oddLevel k ≠ oddLevel i) (x y : α) :
    ord less k x y = ord less i y x := by
  unfold ord
  cases hk : oddLevel k <;> cases hi : oddLevel i <;> simp_all

/-- A step up: the entry at `i` and its grandparent change places. -/
theorem UpReady.bubble (h : UpReady less n a i) (h0 : 0 < i) (hp0 : 0 < parent i)
    (hlt : ord less i (a (parent (parent i))) (a i) = true) :
    UpReady less n (a ∘ swap i (parent (parent i))) (parent (parent i)) := by
  set p := parent i with hp
  set g := parent p with hg
  have hpi : p < i := parent_lt h0
  have hgp : g < p := parent_lt hp0
  have hn := h.lt
  have hup : Under g p := .child hp0 .self
  have hui : Under g i := .child h0 hup
  have hkind : oddLevel g = oddLevel i := by
    rw [oddLevel_child h0, ← hp, oddLevel_child hp0, ← hg, Bool.not_not]
  have bg : (a ∘ swap i g) g = a i := by simp
  have bi : (a ∘ swap i g) i = a g := by simp
  have bo : ∀ j, j ≠ i → j ≠ g → (a ∘ swap i g) j = a j := fun j hji hjg => by
    simp [swap_apply_of_ne_of_ne hji hjg]
  refine ⟨by omega, fun k j hj hjg hu => ?_, fun k hu hk => ?_⟩
  · by_cases hkg : k = g
    · -- The entry now at `g` beats the old one there, which beat everything below.
      subst hkg
      rw [bg, ord_same less hkind]
      by_cases hji : j = i
      · subst hji; rw [bi]; exact lt_asymm hlt
      · rw [bo j hji hjg]
        have hold := h.others g j hj hji hu
        rw [ord_same less hkind] at hold
        exact not_lt_trans (lt_asymm hlt) hold
    by_cases hji : j = i
    · subst hji
      rw [bi]
      by_cases hki : k = j
      · subst hki; rw [bi]; exact lt_irrefl _
      · rw [bo k hki hkg]
        by_cases hkp : k = p
        · subst hkp
          rw [ord_child less hp0]
          exact h.others g p (by omega) (by omega) hup
        · exact h.others k g (by omega) (by omega) (((hu.up hki).2).up hkp).2
    by_cases hki : k = i
    · subst hki
      rw [bi, bo j hji hjg, ← ord_same less hkind]
      exact h.others g j hj hji (hui.trans hu)
    · rw [bo j hji hjg, bo k hki hkg]
      exact h.others k j hj hji hu
  · have hkg : k ≠ g := by rintro rfl; exact hk rfl
    have hki : k ≠ i := by rintro rfl; have := hu.le; omega
    rw [bg, bo k hki hkg]
    exact h.opposite k (hu.trans hui) (by rw [← hkind]; exact hk)

/-- Without a grandparent there is nothing left to compare with. -/
theorem UpReady.top (h : UpReady less n a i) (hp : parent i = 0) : Valid less n a := by
  intro k j hj hu
  by_cases hji : j = i
  · subst hji
    by_cases hk : oddLevel k = oddLevel j
    · have hkj : k = j := by
        by_contra hne
        obtain ⟨h0, hu'⟩ := hu.up hne
        rw [hp] at hu'
        obtain rfl : k = 0 := by have := hu'.le; omega
        rw [oddLevel_child h0, hp] at hk
        cases h' : oddLevel 0 <;> simp [h'] at hk
      subst hkj; exact lt_irrefl _
    · exact h.opposite k hu hk
  · exact h.others k j hj hji hu

/-- An entry in order with its grandparent is in order with every ancestor. -/
theorem UpReady.stop (h : UpReady less n a i) (h0 : 0 < i) (hp0 : 0 < parent i)
    (hle : ord less i (a (parent (parent i))) (a i) = false) : Valid less n a := by
  intro k j hj hu
  by_cases hji : j = i
  · subst hji
    by_cases hk : oddLevel k = oddLevel j
    · by_cases hkj : k = j
      · subst hkj; exact lt_irrefl _
      have hkp : k ≠ parent j := by
        rintro rfl
        rw [oddLevel_child h0] at hk
        cases h' : oddLevel (parent j) <;> simp [h'] at hk
      have hg := ((hu.up hkj).2.up hkp).2
      have h1 := parent_lt h0
      have h2 := parent_lt hp0
      have hkg := h.others k (parent (parent j)) (by omega) (by omega) hg
      rw [ord_same less hk] at hkg ⊢
      exact not_lt_trans hkg hle
    · exact h.opposite k hu hk
  · exact h.others k j hj hji hu

/-- Appending an entry in order with its parent. -/
theorem UpReady.append (h : Valid less n a) (h0 : 0 < n) (hle : ord less n (a n) (a (parent n)) = false) :
    UpReady less (n + 1) a n := by
  refine ⟨by omega, fun k j hj hjn hu => h k j (by omega) hu, fun k hu hk => ?_⟩
  rw [ord_opposite less hk]
  have hkn : k ≠ n := by rintro rfl; exact hk rfl
  by_cases hkp : k = parent n
  · subst hkp; exact hle
  · have := parent_lt h0
    have hkp' := h k (parent n) (by omega) (hu.up hkn).2
    rw [ord_opposite less hk] at hkp'
    exact not_lt_trans hle hkp'

/-- Appending an entry out of order with its parent: the two change places. -/
theorem UpReady.append_swap (h : Valid less n a) (h0 : 0 < n) (hlt : ord less n (a n) (a (parent n)) = true) :
    UpReady less (n + 1) (a ∘ swap n (parent n)) (parent n) := by
  set p := parent n with hp
  have hpn : p < n := parent_lt h0
  have hup : Under p n := .child h0 .self
  have bp : (a ∘ swap n p) p = a n := by simp
  have bn : (a ∘ swap n p) n = a p := by simp
  have bo : ∀ j, j ≠ n → j ≠ p → (a ∘ swap n p) j = a j := fun j hjn hjp => by
    simp [swap_apply_of_ne_of_ne hjn hjp]
  have hordp : ∀ x y, ord less p x y = ord less n y x := fun x y => (ord_child less h0 y x).symm
  refine ⟨by omega, fun k j hj hjp hu => ?_, fun k hu hk => ?_⟩
  · by_cases hkp : k = p
    · subst hkp
      rw [bp, hordp]
      by_cases hjn : j = n
      · subst hjn; rw [bn]; exact lt_asymm hlt
      · rw [bo j hjn hjp]
        have hold := h p j (by omega) hu
        rw [hordp] at hold
        exact not_lt_trans hold (lt_asymm hlt)
    by_cases hjn : j = n
    · subst hjn
      rw [bn]
      by_cases hkj : k = j
      · subst hkj; rw [bn]; exact lt_irrefl _
      · rw [bo k hkj hkp]; exact h k p hpn (hu.up hkj).2
    · have hkn : k ≠ n := by rintro rfl; have := hu.le; omega
      rw [bo j hjn hjp, bo k hkn hkp]; exact h k j (by omega) hu
  · have hkp : k ≠ p := by rintro rfl; exact hk rfl
    have hkn : k ≠ n := by rintro rfl; have := hu.le; omega
    rw [bp, bo k hkn hkp]
    have hold := h k p hpn hu
    rw [ord_opposite less hk, hordp] at hold ⊢
    exact not_lt_trans hold (lt_asymm hlt)

end Sift

/-- A sift down that goes on past a child `m` which has children of its own
leaves `m` out of order: the entries under `m` all tie, `x` gives way to them,
and `x` ends below `m`. -/
theorem not_nodeOk_of_pushed {m : Nat} (hm0 : 0 < m) (hmi : parent m = i) (hj : j < n) (hu : Under m j)
    (h : ord less i (a j) (a m) = true) : ¬ NodeOk less n a m := by
  intro hok
  have := hok j hj hu
  rw [ord_child less hm0, hmi, h] at this
  cases this

end InferenceGateway.Lib.AltHeap
