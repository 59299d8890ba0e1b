import InferenceGateway.Lib.Loop
/-!
# A heap over an interface

Go's `container/heap`: a binary heap over whatever has a length, compares two places and
swaps them. `up`, `down`, `push`, `pop` and `remove` change the container by swaps of two
places below the length, by one push at the end and by one pop from the end. What a swap
keeps, the sifts keep.
-/

namespace InferenceGateway.Lib

/-- `heap.Interface`, for entries of type `α`. -/
structure HeapInterface (σ α : Type) where
  len : σ → ℕ
  less : σ → ℕ → ℕ → Bool
  swap : σ → ℕ → ℕ → σ
  push : σ → α → σ
  pop : σ → α × σ

namespace HeapInterface

variable {σ α : Type} (H : HeapInterface σ α)

def upStep : σ × ℕ → Option (σ × ℕ)
  | (s, j) =>
    let i := (j - 1) / 2
    if i = j || !H.less s j i then none else some (H.swap s i j, i)

variable (s : σ)

def up (j : ℕ) : σ := (loop H.upStep j (s, j)).1

/-- The smaller of the two children below `n`. -/
def child (i n : ℕ) : ℕ :=
  let j1 := 2 * i + 1
  let j2 := j1 + 1
  if j2 < n ∧ H.less s j2 j1 then j2 else j1

def downStep (n : ℕ) : σ × ℕ → Option (σ × ℕ)
  | (s, i) =>
    if n ≤ 2 * i + 1 then none
    else if !H.less s (H.child s i n) i then none
    else some (H.swap s i (H.child s i n), H.child s i n)

/-- Whether the entry has moved. -/
def down (i₀ n : ℕ) : Bool × σ :=
  let r := loop (H.downStep n) (n - i₀) (s, i₀)
  (i₀ < r.2, r.1)

def heapPush (x : α) : σ :=
  let s := H.push s x
  H.up s (H.len s - 1)

def heapPop : α × σ :=
  let n := H.len s - 1
  H.pop (H.down (H.swap s 0 n) 0 n).2

/-- An entry is brought to the end. -/
def sendToEnd (i : ℕ) : σ :=
  let n := H.len s - 1
  if n = i then s
  else
    let (moved, s') := H.down (H.swap s i n) i n
    if moved then s' else H.up s' i

def heapRemove (i : ℕ) : α × σ := H.pop (H.sendToEnd s i)

variable {H} {I : σ → Prop} {n : ℕ}

variable {s : σ}

/-- What swaps of places below `n` keep, sifting up from below `n` keeps. -/
theorem up_keeps (hswap : ∀ s i j, I s → i < n → j < n → I (H.swap s i j)) {j : ℕ} (h : I s) (hj : j < n) :
    I (H.up s j) := by
  have hloop : I (loop H.upStep j (s, j)).1 ∧ (loop H.upStep j (s, j)).2 < n := by
    refine loop_inv (fun r : σ × ℕ => I r.1 ∧ r.2 < n) ?_ j (s, j) ⟨h, hj⟩
    rintro ⟨s, j⟩ r ⟨hs, hj⟩ hstep
    rw [upStep] at hstep
    split at hstep
    · cases hstep
    · cases hstep
      have hi : (j - 1) / 2 < n := by
        have hle := Nat.div_le_self (j - 1) 2
        simp only at hj
        omega
      exact ⟨hswap s _ j hs hi hj, hi⟩
  exact hloop.1

theorem child_lt {i : ℕ} (h : 2 * i + 1 < n) : H.child s i n < n := by
  unfold child
  simp only
  split
  · omega
  · omega

theorem down_keeps (hswap : ∀ s i j, I s → i < n → j < n → I (H.swap s i j)) (i₀ : ℕ) (h : I s) :
    I (H.down s i₀ n).2 := by
  refine loop_inv (fun r : σ × ℕ => I r.1) ?_ (n - i₀) (s, i₀) h
  rintro ⟨s, i⟩ r hs hstep
  rw [downStep] at hstep
  split at hstep
  · cases hstep
  · split at hstep
    · cases hstep
    · cases hstep
      exact hswap s i _ hs (by omega) (child_lt (by omega))

/-- What a swap with the last place gives and swaps before it keep holds when an entry is at the end. -/
theorem sendToEnd_keeps {i : ℕ} (hswap : ∀ s' i j, I s' → i < H.len s - 1 → j < H.len s - 1 → I (H.swap s' i j))
    (hi : i < H.len s) (hlast : i = H.len s - 1 → I s) (hfirst : I (H.swap s i (H.len s - 1))) :
    I (H.sendToEnd s i) := by
  unfold sendToEnd
  simp only
  split
  · exact hlast (Eq.symm ‹_›)
  · have hdown := down_keeps hswap i hfirst
    split
    · exact hdown
    · exact up_keeps hswap hdown (by omega)

end HeapInterface

end InferenceGateway.Lib
