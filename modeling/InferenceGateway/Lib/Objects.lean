import Mathlib
/-!
# Loops over objects

Objects behind pointers are a store `Nat → S`. A loop over a list of pointers
changes each object it visits and stops at the first that fails. When the
pointers are distinct each object is changed once, from its state before the
loop.
-/

namespace InferenceGateway.Lib

open List Function

variable {S ε : Type}

/-- `for i, s := range ids { s = f(i, s) }`, over the pairs of pointer and index. -/
def forEach (f : Nat → S → Except ε S) : List (Nat × Nat) → (Nat → S) → Except ε (Nat → S)
  | [], st => .ok st
  | (id, i) :: ids, st =>
    match f i (st id) with
    | .error e => .error e
    | .ok s => forEach f ids (update st id s)

section
variable {f : Nat → S → Except ε S}

theorem forEach_nodup (ids : List (Nat × Nat)) : ∀ st st' : Nat → S, (ids.map Prod.fst).Nodup →
    forEach f ids st = .ok st' →
    (∀ p ∈ ids, f p.2 (st p.1) = .ok (st' p.1)) ∧ ∀ id, id ∉ ids.map Prod.fst → st' id = st id := by
  induction ids with
  | nil =>
    intro st st' _ h
    simp only [forEach, Except.ok.injEq] at h
    subst h; simp
  | cons p ids ih =>
    intro st st' hn h
    obtain ⟨id, i⟩ := p
    simp only [map_cons, nodup_cons] at hn
    simp only [forEach] at h
    split at h
    · cases h
    · rename_i s hs
      obtain ⟨h1, h2⟩ := ih _ _ hn.2 h
      refine ⟨fun q hq => ?_, fun k hk => ?_⟩
      · rcases mem_cons.1 hq with rfl | hq
        · rw [h2 id hn.1, update_self]; exact hs
        · have hne : q.1 ≠ id := fun he => hn.1 (he ▸ List.mem_map.2 ⟨q, hq, rfl⟩)
          rw [← h1 q hq, update_of_ne hne]
      · rw [map_cons, mem_cons, not_or] at hk
        rw [h2 k hk.2, update_of_ne hk.1]

/-- A failing loop failed at one of its objects. -/
theorem forEach_error (ids : List (Nat × Nat)) : ∀ (st : Nat → S) (e : ε), (ids.map Prod.fst).Nodup →
    forEach f ids st = .error e → ∃ p ∈ ids, f p.2 (st p.1) = .error e := by
  induction ids with
  | nil => intro st e _ h; cases h
  | cons p ids ih =>
    intro st e hn h
    obtain ⟨id, i⟩ := p
    simp only [map_cons, nodup_cons] at hn
    simp only [forEach] at h
    split at h
    · rename_i e' he
      cases h
      exact ⟨(id, i), mem_cons_self, he⟩
    · obtain ⟨q, hq, hf⟩ := ih _ _ hn.2 h
      have hne : q.1 ≠ id := fun he => hn.1 (he ▸ List.mem_map.2 ⟨q, hq, rfl⟩)
      rw [update_of_ne hne] at hf
      exact ⟨q, mem_cons_of_mem _ hq, hf⟩

end

/-- A loop over the pointers `ids` themselves. -/
def forAll (ids : List Nat) (f : Nat → S → Except ε S) (st : Nat → S) : Except ε (Nat → S) :=
  forEach f ids.zipIdx st

variable {f : Nat → S → Except ε S} {ids : List Nat} {st st' : Nat → S}

theorem forAll_ok (hn : ids.Nodup) (h : forAll ids f st = .ok st') :
    (∀ i (hi : i < ids.length), f i (st ids[i]) = .ok (st' ids[i])) ∧ ∀ id, id ∉ ids → st' id = st id := by
  have hmap : ids.zipIdx.map Prod.fst = ids := zipIdx_map_fst 0 ids
  obtain ⟨h1, h2⟩ := forEach_nodup ids.zipIdx st st' (by rwa [hmap]) h
  rw [hmap] at h2
  refine ⟨fun i hi => h1 (ids[i], i) ?_, h2⟩
  rw [mem_zipIdx_iff_getElem?]
  exact List.getElem?_eq_getElem hi

theorem forAll_error {e : ε} (hn : ids.Nodup) (h : forAll ids f st = .error e) :
    ∃ i, ∃ hi : i < ids.length, f i (st ids[i]) = .error e := by
  have hmap : ids.zipIdx.map Prod.fst = ids := zipIdx_map_fst 0 ids
  obtain ⟨⟨id, i⟩, hp, hf⟩ := forEach_error ids.zipIdx st e (by rwa [hmap]) h
  rw [mem_zipIdx_iff_getElem?] at hp
  obtain ⟨hi, he⟩ := List.getElem?_eq_some_iff.1 hp
  exact ⟨i, hi, he ▸ hf⟩

theorem forEach_congr {g : Nat → S → Except ε S} (ids : List (Nat × Nat)) (h : ∀ p ∈ ids, f p.2 = g p.2) :
    ∀ st, forEach f ids st = forEach g ids st := by
  induction ids with
  | nil => intro st; rfl
  | cons p ids ih =>
    intro st
    unfold forEach
    rw [h p mem_cons_self]
    split
    · rfl
    · exact ih (fun q hq => h q (mem_cons_of_mem _ hq)) _

/-- Only the indices of the list matter. -/
theorem forAll_congr {g : Nat → S → Except ε S} (h : ∀ i < ids.length, f i = g i) : forAll ids f st = forAll ids g st := by
  refine forEach_congr _ (fun p hp => h p.2 ?_) st
  rw [mem_zipIdx_iff_getElem?] at hp
  exact (List.getElem?_eq_some_iff.1 hp).1

/-- A loop whose body succeeds on every object succeeds. -/
theorem forAll_total (hn : ids.Nodup) (h : ∀ i (hi : i < ids.length), ∃ s, f i (st ids[i]) = .ok s) :
    ∃ st', forAll ids f st = .ok st' := by
  cases hf : forAll ids f st with
  | ok st' => exact ⟨st', rfl⟩
  | error e =>
    obtain ⟨i, hi, he⟩ := forAll_error hn hf
    obtain ⟨s, hs⟩ := h i hi
    rw [hs] at he; cases he

variable {M : Type} {s : S}

/-- A sum over objects of which one changes. -/
theorem sum_map_update [AddCommGroup M] (g : S → M) (hn : ids.Nodup) {id : Nat} (hid : id ∈ ids) (st : Nat → S) {m : M}
    (hg : g s = g (st id) + m) :
    (ids.map fun k => g (update st id s k)).sum = (ids.map fun k => g (st k)).sum + m := by
  have hperm := perm_cons_erase hid
  have hrest : ∀ k ∈ ids.erase id, g (update st id s k) = g (st k) := by
    intro k hk
    rw [update_of_ne]
    rintro rfl
    exact hn.not_mem_erase hk
  rw [(hperm.map _).sum_eq, (hperm.map fun k => g (st k)).sum_eq, map_cons, map_cons, sum_cons,
    sum_cons, map_congr_left hrest, update_self, hg]
  abel

/-- A sum over a list of which one member changes. -/
theorem sum_map_set [AddCommGroup M] (g : S → M) {l : List S} {j : Nat} (h : l[j]? = some s) (s' : S) {m : M}
    (hg : g s' = g s + m) : ((l.set j s').map g).sum = (l.map g).sum + m := by
  obtain ⟨hj, rfl⟩ := List.getElem?_eq_some_iff.1 h
  rw [map_set, sum_set', dif_pos (by rwa [length_map]), getElem_map, hg]
  abel

/-- The same where nothing can be taken away. -/
theorem sum_map_set_add [AddCommMonoid M] (g : S → M) {l : List S} {j : Nat} (h : l[j]? = some s) (s' : S) :
    ((l.set j s').map g).sum + g s = (l.map g).sum + g s' := by
  induction l generalizing j with
  | nil => cases h
  | cons x l ih =>
    cases j with
    | zero =>
      cases h
      simp only [set_cons_zero, map_cons, sum_cons]
      abel
    | succ j =>
      have hrest := ih (j := j) h
      simp only [set_cons_succ, map_cons, sum_cons, add_assoc, hrest]

end InferenceGateway.Lib
