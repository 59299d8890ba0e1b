import InferenceGateway.Lib.Panics
/-!
# Weighted draws

Entries share the numbers below the total of their weights: the first entry has the first
numbers, as many as its weight, the next entry those after them, and so on. A scan over
the entries finds whose a number is.
-/

namespace InferenceGateway.Lib

open List

variable {α : Type}

/-- What stops a program that draws. -/
inductive DrawPanic where
  /-- There is nothing to draw from. -/
  | emptyRange
  | operation (p : Panic)
deriving DecidableEq

/-- `Intn(n)`, when the generator has come to `draw`. -/
def intn (n : Int) (draw : ℕ) : Except DrawPanic ℕ :=
  if 0 < n then .ok (draw % n.toNat) else .error .emptyRange

def element (xs : List α) (i : ℕ) : Except DrawPanic α := (index xs i).mapError .operation

theorem intn_ok {n : Int} {draw : ℕ} (h : draw < n) : intn n draw = .ok draw := by
  have hlt : draw < n.toNat := by omega
  rw [intn, if_pos (by omega), Nat.mod_eq_of_lt hlt]

variable {xs : List α}

theorem element_ok {i : ℕ} {x : α} (h : xs[i]? = some x) : element xs i = .ok x := by
  rw [element, index_ok h]
  rfl

/-! ## Whose a number is -/

def owner : List ℕ → ℕ → Option ℕ
  | [], _ => none
  | w :: ws, r => if r < w then some 0 else (owner ws (r - w)).map (· + 1)

variable {ws : List ℕ}

/-- The numbers of an entry come after those of the entries before it. -/
theorem owner_eq_some : ∀ {r i : ℕ},
    owner ws r = some i ↔ i < ws.length ∧ (ws.take i).sum ≤ r ∧ r < (ws.take (i + 1)).sum := by
  induction ws with
  | nil => simp [owner]
  | cons w ws ih =>
    intro r i
    rw [owner]
    split
    · cases i with
      | zero | succ i => simp; omega
    · cases i with
      | zero => simp; omega
      | succ i =>
        simp only [Option.map_eq_some_iff, Nat.add_right_cancel_iff, exists_eq_right, ih, length_cons, take_succ_cons,
          sum_cons]
        omega

theorem exists_owner : ∀ {r : ℕ}, r < ws.sum → ∃ i, owner ws r = some i := by
  induction ws with
  | nil => simp
  | cons w ws ih =>
    intro r h
    rw [owner]
    split
    · exact ⟨0, rfl⟩
    · rw [sum_cons] at h
      obtain ⟨i, hi⟩ := ih (r := r - w) (by omega)
      exact ⟨i + 1, by simp [hi]⟩

/-- Each of the numbers below `total` is of one entry, and each entry has as many of them as its weight. -/
structure Shares (ws : List ℕ) (total : ℕ) (own : ℕ → ℕ) : Prop where
  entry : ∀ r < total, own r < ws.length
  count : ∀ i w, ws[i]? = some w → ((Finset.range total).filter fun r => own r = i).card = w

/-- An entry without weight has no number. -/
theorem Shares.pos {total : ℕ} {own : ℕ → ℕ} (h : Shares ws total own) {r w : ℕ} (hr : r < total)
    (hw : ws[own r]? = some w) : 0 < w := by
  rw [← h.count (own r) w hw, Finset.card_pos]
  exact ⟨r, by simp [hr]⟩

/-- There are as many numbers as the weights have in all. -/
theorem Shares.total_eq {total : ℕ} {own : ℕ → ℕ} (h : Shares ws total own) : total = ws.sum := by
  have hcard := Finset.card_eq_sum_card_fiberwise (f := own) (s := Finset.range total) (t := Finset.range ws.length)
    fun r hr => Finset.mem_coe.2 (Finset.mem_range.2 (h.entry r (Finset.mem_range.1 hr)))
  rw [Finset.card_range, Finset.sum_range] at hcard
  rw [hcard, ← Fin.sum_univ_getElem ws]
  exact Finset.sum_congr rfl fun i _ => h.count i _ (List.getElem?_eq_getElem i.2)

theorem shares_owner (ws : List ℕ) : Shares ws ws.sum fun r => (owner ws r).getD 0 where
  entry r hr := by
    obtain ⟨i, hi⟩ := exists_owner hr
    rw [hi]
    exact (owner_eq_some.1 hi).1
  count i w hw := by
    obtain ⟨hlt, hget⟩ := List.getElem?_eq_some_iff.1 hw
    have hstep : (ws.take (i + 1)).sum = (ws.take i).sum + w := by rw [sum_take_succ ws i hlt, hget]
    have hle : (ws.take (i + 1)).sum ≤ ws.sum := by
      conv_rhs => rw [← take_append_drop (i + 1) ws, sum_append]
      omega
    have hshare : (Finset.range ws.sum).filter (fun r => (owner ws r).getD 0 = i) =
        Finset.Ico (ws.take i).sum (ws.take (i + 1)).sum := by
      ext r
      rw [Finset.mem_filter, Finset.mem_range, Finset.mem_Ico]
      constructor
      · rintro ⟨hr, hown⟩
        obtain ⟨j, hj⟩ := exists_owner hr
        rw [hj, Option.getD_some] at hown
        subst hown
        exact (owner_eq_some.1 hj).2
      · rintro ⟨hlow, hhigh⟩
        rw [owner_eq_some.2 ⟨hlt, hlow, hhigh⟩]
        exact ⟨by omega, rfl⟩
    rw [hshare, Nat.card_Ico, hstep]
    omega

/-! ## The scan -/

/-- The first entry whose weight is above what the weights before it leave of the number. -/
def scanWeights (weight : α → Int) : List α → Int → Option α
  | [], _ => none
  | x :: xs, idx => if idx < weight x then some x else scanWeights weight xs (idx - weight x)

theorem scanWeights_eq_owner {weight : α → Int} : (∀ x ∈ xs, 0 ≤ weight x) → ∀ r : ℕ,
    scanWeights weight xs r = (owner (xs.map fun x => (weight x).toNat) r).bind fun i => xs[i]? := by
  induction xs with
  | nil => simp [scanWeights, owner]
  | cons x xs ih =>
    intro h r
    have hx := h x mem_cons_self
    rw [scanWeights, map_cons, owner]
    by_cases hr : (r : Int) < weight x
    · rw [if_pos hr, if_pos (by omega)]
      rfl
    · have hsub : (r : Int) - weight x = ((r - (weight x).toNat : ℕ) : Int) := by omega
      rw [if_neg hr, if_neg (by omega), hsub, ih fun y hy => h y (mem_cons_of_mem _ hy)]
      cases owner (xs.map fun x => (weight x).toNat) (r - (weight x).toNat) with
      | none => rfl
      | some i => simp

theorem sum_toNat {weight : α → Int} (h : ∀ x ∈ xs, 0 ≤ weight x) :
    (xs.map weight).sum = ((xs.map fun x => (weight x).toNat).sum : ℕ) := by
  induction xs with
  | nil => rfl
  | cons x xs ih =>
    have hx := h x mem_cons_self
    have hxs := ih fun y hy => h y (mem_cons_of_mem _ hy)
    simp only [map_cons, sum_cons, hxs]
    omega

/-- The scan finds an entry for every number below the total, each for as many as its weight. -/
theorem scanWeights_shares {weight : α → Int} (h : ∀ x ∈ xs, 0 ≤ weight x) :
    ∃ own, Shares (xs.map fun x => (weight x).toNat) (xs.map weight).sum.toNat own ∧
      ∀ r < (xs.map weight).sum.toNat, ∃ x, xs[own r]? = some x ∧ scanWeights weight xs r = some x := by
  have hsum : (xs.map weight).sum.toNat = (xs.map fun x => (weight x).toNat).sum := by
    rw [sum_toNat h, Int.toNat_natCast]
  rw [hsum]
  refine ⟨_, shares_owner _, fun r hr => ?_⟩
  obtain ⟨i, hi⟩ := exists_owner hr
  have hlt := (owner_eq_some.1 hi).1
  rw [length_map] at hlt
  refine ⟨xs[i], ?_, ?_⟩
  · rw [hi]
    exact List.getElem?_eq_getElem hlt
  · rw [scanWeights_eq_owner h, hi]
    exact List.getElem?_eq_getElem hlt

end InferenceGateway.Lib
