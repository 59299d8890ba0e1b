import Mathlib
/-!
# Computations that fail and programs that panic

What is used of `Except` and of loops in `Option` everywhere else. An operation whose
operands are out of range stops the program. Whatever a function returns, an error value
included, is the `ok` of `Except Panic`.
-/

namespace InferenceGateway.Lib

/-! ## Failures -/

section Failures
variable {ε α β : Type}

@[simp] theorem ok_bind (x : α) (f : α → Except ε β) : (Except.ok x >>= f) = f x := rfl

@[simp] theorem error_bind (e : ε) (f : α → Except ε β) : (Except.error e >>= f) = .error e := rfl

theorem bind_eq_ok {e : Except ε α} {f : α → Except ε β} {c : β} (h : (e >>= f) = .ok c) : ∃ b, e = .ok b ∧ f b = .ok c := by
  cases e with
  | error _ => cases h
  | ok b => exact ⟨b, rfl, h⟩

theorem map_ok {e : Except ε α} {f : α → β} {c : β} (h : e.map f = .ok c) : ∃ b, e = .ok b ∧ f b = c := by
  cases e with
  | error _ => cases h
  | ok b => exact ⟨b, rfl, by simpa [Except.map] using h⟩

/-- What a computation failed with. -/
def failure : Except ε β → Option ε
  | .error e => some e
  | .ok _ => none

theorem eq_error_of_failure {x : Except ε β} {e : ε} (h : failure x = some e) : x = .error e := by
  cases x with
  | error _ => cases h; rfl
  | ok _ => cases h

theorem exists_of_isOk {x : Except ε α} (h : x.isOk = true) : ∃ a, x = .ok a := by
  cases x with
  | error _ => cases h
  | ok a => exact ⟨a, rfl⟩

/-! Loops in `Option`. -/

theorem mapM_of_isSome {g : α → Option β} (xs : List α) (h : ∀ x ∈ xs, (g x).isSome) : xs.mapM g = some (xs.filterMap g) := by
  induction xs with
  | nil => rfl
  | cons x xs ih =>
    obtain ⟨y, hy⟩ := Option.isSome_iff_exists.1 (h x List.mem_cons_self)
    rw [List.mapM_cons, hy, ih fun z hz => h z (List.mem_cons_of_mem _ hz), List.filterMap_cons_some hy]
    rfl

theorem isSome_of_mapM {g : α → Option β} {xs : List α} {ys : List β} (h : xs.mapM g = some ys) : ∀ x ∈ xs, (g x).isSome := by
  induction xs generalizing ys with
  | nil => nofun
  | cons x xs ih =>
    rw [List.mapM_cons] at h
    obtain ⟨z, hz, hrest⟩ := Option.bind_eq_some_iff.1 h
    obtain ⟨zs, hzs, -⟩ := Option.bind_eq_some_iff.1 hrest
    intro w hw
    rcases List.mem_cons.1 hw with rfl | hw
    · rw [hz]
      rfl
    · exact ih hzs w hw

theorem mem_of_mapM {g : α → Option β} {xs : List α} {ys : List β} (h : xs.mapM g = some ys) {y : β} (hy : y ∈ ys) :
    ∃ x ∈ xs, g x = some y := by
  rw [mapM_of_isSome xs (isSome_of_mapM h), Option.some.injEq] at h
  rw [← h] at hy
  exact List.mem_filterMap.1 hy

end Failures

/-! ## Panics -/

inductive Panic where
  /-- Bounds of a slice that are out of range, or not in order. -/
  | sliceBounds
  | indexOutOfRange
  /-- A value that is not of the type asserted. -/
  | typeAssertion
  | nilDereference
deriving DecidableEq, Repr

variable {α β : Type}

/-- The elements from `lo` up to `hi`. -/
def slice (xs : List α) (lo hi : Nat) : Except Panic (List α) :=
  if lo ≤ hi ∧ hi ≤ xs.length then .ok ((xs.take hi).drop lo) else .error .sliceBounds

def index (xs : List α) (i : Nat) : Except Panic α :=
  match xs[i]? with
  | some x => .ok x
  | none => .error .indexOutOfRange

/-- The computation comes to an end with a result. -/
def Returns (r : Except Panic α) : Prop := ∃ x, r = .ok x

instance : (r : Except Panic α) → Decidable (Returns r)
  | .ok x => isTrue ⟨x, rfl⟩
  | .error _ => isFalse nofun

@[simp] theorem returns_ok (x : α) : Returns (.ok x) := ⟨x, rfl⟩

@[simp] theorem returns_pure (x : α) : Returns (pure x : Except Panic α) := ⟨x, rfl⟩

@[simp] theorem not_returns_error (e : Panic) : ¬ Returns (.error e : Except Panic α) := nofun

variable {r : Except Panic α}

@[simp] theorem returns_map {f : α → β} : Returns (r.map f) ↔ Returns r := by
  cases r with
  | error e => exact ⟨nofun, nofun⟩
  | ok x => exact ⟨fun _ => returns_ok x, fun _ => returns_ok (f x)⟩

theorem returns_bind {f : α → Except Panic β} : Returns (r >>= f) ↔ ∃ x, r = .ok x ∧ Returns (f x) := by
  cases r with
  | error e => exact ⟨nofun, nofun⟩
  | ok x => simp

/-- A step whose result does not decide whether the rest comes to an end. -/
theorem returns_bind_iff {f : α → Except Panic β} {p : Prop} (h : ∀ x, Returns (f x) ↔ p) :
    Returns (r >>= f) ↔ Returns r ∧ p := by
  rw [returns_bind]
  exact ⟨fun ⟨x, hx, hf⟩ => ⟨⟨x, hx⟩, (h x).1 hf⟩, fun ⟨⟨x, hx⟩, hp⟩ => ⟨x, hx, (h x).2 hp⟩⟩

theorem returns_bind_pure {f : α → β} : Returns (r >>= fun x => pure (f x)) ↔ Returns r :=
  (returns_bind_iff fun x => iff_true_intro (returns_pure (f x))).trans (iff_of_eq (and_true _))

variable {xs : List α}

theorem slice_ok {lo hi : Nat} (h : lo ≤ hi) (h' : hi ≤ xs.length) :
    slice xs lo hi = .ok ((xs.drop lo).take (hi - lo)) := by
  rw [slice, if_pos ⟨h, h'⟩, List.drop_take]

theorem slice_error {lo hi : Nat} (h : hi < lo) : slice xs lo hi = .error .sliceBounds :=
  if_neg fun hb => absurd hb.1 (by omega)

variable {i : Nat}

theorem index_ok {x : α} (h : xs[i]? = some x) : index xs i = .ok x := by
  rw [index, h]

theorem index_error (h : xs.length ≤ i) : index xs i = .error .indexOutOfRange := by
  rw [index, List.getElem?_eq_none h]

theorem index_eq_ok {x : α} : index xs i = .ok x ↔ xs[i]? = some x := by
  unfold index
  cases xs[i]? with
  | none => exact ⟨nofun, nofun⟩
  | some y => simp

theorem index_returns : Returns (index xs i) ↔ i < xs.length := by
  constructor
  · intro h
    by_contra hle
    rw [index_error (Nat.not_lt.1 hle)] at h
    exact not_returns_error _ h
  · intro h
    rw [index_ok (List.getElem?_eq_getElem h)]
    exact returns_ok _

/-! ## Loops over a slice -/

/-- `for i, x := range xs { ys = append(ys, f(i, x)) }`, from the index `i` on. -/
def forRange (f : Nat → α → Except Panic β) : Nat → List α → Except Panic (List β)
  | _, [] => .ok []
  | i, x :: xs => do
    let y ← f i x
    let ys ← forRange f (i + 1) xs
    pure (y :: ys)

theorem forRange_returns {f : Nat → α → Except Panic β} : ∀ {xs : List α} {i : Nat},
    Returns (forRange f i xs) ↔ ∀ j x, xs[j]? = some x → Returns (f (i + j) x)
  | [], i => ⟨fun _ => nofun, fun _ => returns_ok _⟩
  | x :: xs, i => by
    rw [forRange, returns_bind_iff fun _ => returns_bind_pure, forRange_returns]
    constructor
    · rintro ⟨h0, h⟩ j x' hj
      cases j with
      | zero => cases hj; exact h0
      | succ j => rw [Nat.add_comm j 1, ← Nat.add_assoc]; exact h j x' hj
    · intro h
      refine ⟨h 0 x rfl, fun j x' hj => ?_⟩
      rw [Nat.add_assoc, Nat.add_comm 1 j]
      exact h (j + 1) x' hj

/-- A loop over one slice that reads another at the same index. -/
theorem forRange_index_returns {γ : Type} {ys : List β} {g : α → β → γ} :
    Returns (forRange (fun i x => (index ys i).map (g x)) 0 xs) ↔ xs.length ≤ ys.length := by
  rw [forRange_returns]
  simp only [returns_map, index_returns, Nat.zero_add]
  constructor
  · intro h
    by_contra hlt
    have hlen : ys.length < xs.length := Nat.not_le.1 hlt
    exact Nat.lt_irrefl _ (h ys.length xs[ys.length] (List.getElem?_eq_getElem hlen))
  · intro h j x hj
    exact Nat.lt_of_lt_of_le (List.getElem?_eq_some_iff.1 hj).1 h

/-- Every element has its result, in order. -/
theorem forRange_ok {f : Nat → α → Except Panic β} : ∀ {xs : List α} {i : Nat} {ys : List β}, forRange f i xs = .ok ys →
    ys.length = xs.length ∧ ∀ j x, xs[j]? = some x → ∃ y, ys[j]? = some y ∧ f (i + j) x = .ok y
  | [], i, ys, h => by
    cases h
    exact ⟨rfl, nofun⟩
  | x :: xs, i, ys, h => by
    unfold forRange at h
    cases h0 : f i x with
    | error e => rw [h0] at h; cases h
    | ok y =>
      cases h1 : forRange f (i + 1) xs with
      | error e => rw [h0, h1] at h; cases h
      | ok ys' =>
        rw [h0, h1] at h
        cases h
        obtain ⟨hlen, hget⟩ := forRange_ok h1
        refine ⟨congrArg (· + 1) hlen, fun j x' hj => ?_⟩
        cases j with
        | zero => cases hj; exact ⟨y, rfl, h0⟩
        | succ j =>
          obtain ⟨y', hy', hf⟩ := hget j x' hj
          rw [Nat.add_assoc, Nat.add_comm 1 j] at hf
          exact ⟨y', hy', hf⟩

end InferenceGateway.Lib
