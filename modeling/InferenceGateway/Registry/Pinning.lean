import InferenceGateway.Registry.LeaseMap
/-!
# Pinned resources

Any number of callers of `pinLeasedResource`, and one collector that runs
`collectLeasedResources` again and again, in any interleaving of their atomic steps.
A state that a caller has been given stays where it is until the caller unpins it.
-/

namespace InferenceGateway.Registry

open Lib List Function Collecting Pinning

variable {K : Type} [DecidableEq K]

/-- Where a goroutine is that uses a resource. -/
inductive Caller (K : Type) where
  | idle
  | pinning (k : K) (p : Pinning)
  /-- `pinLeasedResource` has returned the state. -/
  | holding (k : K) (o : Nat)

namespace Caller

/-- The caller has a lease of the state. -/
def pins : Caller K → Nat → Prop
  | pinning _ (.confirming o _), o' => o' = o
  | pinning _ (.backingOff o), o' => o' = o
  | holding _ o, o' => o' = o
  | _, _ => False

/-- The caller has found the state under the key. -/
def Knows : Caller K → K → Nat → Prop
  | pinning k (.trying o _), k', o' => k' = k ∧ o' = o
  | pinning k (.confirming o _), k', o' => k' = k ∧ o' = o
  | holding k o, k', o' => k' = k ∧ o' = o
  | _, _, _ => False

end Caller

structure LeasePool (K : Type) where
  map : LeaseMap K
  clock : Int
  callers : Nat → Caller K
  /-- `none` between two runs of the collector. -/
  collector : Option (Collecting K)
  /-- The states that have gone to the cleanup. -/
  cleaned : List Nat

inductive PoolAction (K : Type) where
  /-- The caller calls `pinLeasedResource`. -/
  | pin (i : Nat) (k : K)
  | advance (i : Nat)
  | unpin (i : Nat)
  | collect
  | visit (k : K)
  | advanceCollector
  /-- `Range` has ended, and the states found go to the cleanup. -/
  | cleanUp
  | tick (d : Nat)

namespace LeasePool

def start (now : Int) : LeasePool K := ⟨.empty, now, fun _ => .idle, none, []⟩

def setCaller (s : LeasePool K) (i : Nat) (c : Caller K) : LeasePool K :=
  { s with callers := update s.callers i c }

/-- An action that is not possible changes nothing. -/
def step (timeout : Int) (s : LeasePool K) : PoolAction K → LeasePool K
  | .pin i k =>
    match s.callers i with
    | .idle => s.setCaller i (.pinning k .loading)
    | _ => s
  | .advance i =>
    match s.callers i with
    | .pinning k p =>
      match p.step s.map k s.clock with
      | (map, .inl p) => { s.setCaller i (.pinning k p) with map := map }
      | (map, .inr (o, _)) => { s.setCaller i (.holding k o) with map := map }
    | _ => s
  | .unpin i =>
    match s.callers i with
    | .holding _ o => { s.setCaller i .idle with map := s.map.unpin o s.clock }
    | _ => s
  | .collect =>
    match s.collector with
    | none => { s with collector := some (.ranging s.clock []) }
    | some _ => s
  | .visit k => { s with collector := s.collector.map (·.visit s.map k) }
  | .advanceCollector =>
    match s.collector with
    | none => s
    | some c => { s with map := (c.step s.map timeout).1, collector := some (c.step s.map timeout).2 }
  | .cleanUp =>
    match s.collector with
    | some (.ranging _ found) => { s with collector := none, cleaned := s.cleaned ++ found.map Prod.snd }
    | _ => s
  | .tick d => { s with clock := s.clock + d }

/-- The states reached from `s`, in any interleaving. -/
def Run (timeout : Int) : LeasePool K → LeasePool K → Prop := Relation.ReflTransGen fun s s' => ∃ a, s' = s.step timeout a

theorem run_foldl (timeout : Int) (actions : List (PoolAction K)) : ∀ s : LeasePool K,
    Run timeout s (actions.foldl (step timeout) s) := by
  induction actions with
  | nil => exact fun s => .refl
  | cons a actions ih => exact fun s => .head ⟨a, rfl⟩ (ih _)

/-- What the collector has taken out of the map. -/
def collected (s : LeasePool K) : List Nat :=
  s.cleaned ++ ((s.collector.map resourcesToClean).getD []).map Prod.snd

/-- What has been found under a key is still there, or has been marked; so what is
pinned is still there. -/
structure Inv (s : LeasePool K) : Prop where
  counted : s.map.Counted (fun i => (s.callers i).pins) (s.collector.bind doomed)
  visiting : ∀ k o, s.collector.bind Collecting.visiting = some (k, o) → s.map.load k = some o
  known : ∀ i k o, (s.callers i).Knows k o →
    o < s.map.next ∧ (s.map.load k = some o ∨ (s.map.states o).markedForDeletion = true)
  steady : ∀ i k o, s.callers i ≠ .pinning k (.backingOff o)
  gone : ∀ o ∈ s.collected, o < s.map.next ∧ (s.map.states o).markedForDeletion = true

variable {timeout : Int} {s : LeasePool K}

theorem start_inv (now : Int) : (start now : LeasePool K).Inv where
  counted := LeaseMap.counted_empty fun _ _ hp => hp
  visiting := nofun
  known := fun _ _ _ hk => hk.elim
  steady := nofun
  gone := nofun

variable {i : Nat}

/-- What is pinned and known is in the map. -/
theorem Inv.load_of_pins (h : s.Inv) {k : K} {o : Nat} (hk : (s.callers i).Knows k o) (hp : (s.callers i).pins o) :
    s.map.load k = some o := by
  refine (h.known i k o hk).2.resolve_right fun hm => ?_
  rw [h.counted.live i o hp] at hm
  cases hm

/-! ## Callers -/

/-- A caller takes a step that deletes nothing. -/
theorem Inv.setCaller (h : s.Inv) {c : Caller K} {m : LeaseMap K} (hev : s.map.Evolves m)
    (hload : ∀ k o, s.map.load k = some o → m.load k = some o)
    (hcounted : m.Counted (fun j => (update s.callers i c j).pins) (s.collector.bind doomed))
    (hknown : ∀ k o, c.Knows k o → o < m.next ∧ (m.load k = some o ∨ (m.states o).markedForDeletion = true))
    (hsteady : ∀ k o, c ≠ .pinning k (.backingOff o)) : Inv { s.setCaller i c with map := m } where
  counted := hcounted
  visiting := fun k o hv => hload k o (h.visiting k o hv)
  known := fun j k o hk => by
    by_cases hj : j = i
    · subst hj
      simp only [LeasePool.setCaller, update_self] at hk
      exact hknown k o hk
    · simp only [LeasePool.setCaller, update_of_ne hj] at hk
      obtain ⟨hlt, hl | hm⟩ := h.known j k o hk
      · exact ⟨hlt.trans_le hev.next, hev.entry k o hl⟩
      · exact ⟨hlt.trans_le hev.next, .inr (hev.mark o hlt hm)⟩
  steady := fun j k o => by
    by_cases hj : j = i
    · subst hj
      simp only [LeasePool.setCaller, update_self]
      exact hsteady k o
    · simp only [LeasePool.setCaller, update_of_ne hj]
      exact h.steady j k o
  gone := fun o ho => by
    obtain ⟨hlt, hm⟩ := h.gone o ho
    exact ⟨hlt.trans_le hev.next, hev.mark o hlt hm⟩

omit [DecidableEq K] in
/-- The leases of the others stay, and so do those of the caller if its own do. -/
theorem pins_update {c : Caller K} (hc : ∀ o, c.pins o ↔ (s.callers i).pins o) (j o : Nat) :
    (update s.callers i c j).pins o ↔ (s.callers j).pins o := by
  by_cases hj : j = i
  · subst hj
    rw [update_self]
    exact hc o
  · rw [update_of_ne hj]

/-- A step of `pinLeasedResource`. -/
theorem Inv.pinning (h : s.Inv) {k : K} {p : Pinning} (hc : s.callers i = .pinning k p) :
    Inv (s.step timeout (.advance i)) := by
  have hev := p.evolves s.map k s.clock
  have hload : ∀ k' o, s.map.load k' = some o → (p.step s.map k s.clock).1.load k' = some o :=
    fun k' o hl => load_step hl k s.clock p
  simp only [step, hc]
  cases p with
  | loading =>
    have hsame : ∀ q : Pinning, (∀ o, ¬ (Caller.pinning k q).pins o) →
        s.map.Counted (fun j => (update s.callers i (.pinning k q) j).pins) _ :=
      fun q hq => h.counted.congr (pins_update fun o => by rw [hc]; exact iff_of_false (hq o) not_false)
    simp only [Pinning.step]
    cases hl : s.map.load k with
    | some o =>
      refine h.setCaller (.refl _) (fun _ _ hl => hl) (hsame _ fun _ => not_false) (fun k' o' hk => ?_) (by simp)
      obtain ⟨rfl, rfl⟩ := hk
      exact ⟨h.counted.stored _ _ hl, .inl hl⟩
    | none => exact h.setCaller (.refl _) (fun _ _ hl => hl) (hsame _ fun _ => not_false) (fun _ _ hk => hk.elim) (by simp)
  | storing =>
    have hsame : ∀ o b j o', (update s.callers i (.pinning k (.trying o b)) j).pins o' ↔ (s.callers j).pins o' :=
      fun o b => pins_update fun o' => by rw [hc]; exact Iff.rfl
    simp only [Pinning.step] at hev hload ⊢
    cases hl : s.map.load k with
    | some o =>
      rw [LeaseMap.loadOrStore_of_some hl] at hev hload ⊢
      refine h.setCaller hev hload (h.counted.congr (hsame o _)) (fun k' o' hk => ?_) (by simp)
      obtain ⟨rfl, rfl⟩ := hk
      exact ⟨h.counted.stored _ _ hl, .inl hl⟩
    | none =>
      rw [LeaseMap.loadOrStore_of_none hl] at hev hload ⊢
      refine h.setCaller hev hload ((h.counted.store hl).congr (hsame _ _)) (fun k' o' hk => ?_) (by simp)
      obtain ⟨rfl, rfl⟩ := hk
      exact ⟨Nat.lt_succ_self _, .inl (by rw [LeaseMap.load_store, if_pos rfl])⟩
  | trying o isNew =>
    obtain ⟨hlt, hfound⟩ := h.known i k o (by rw [hc]; exact ⟨rfl, rfl⟩)
    simp only [Pinning.step] at hev hload ⊢
    cases hpin : (s.map.states o).tryPin with
    | some ls =>
      rw [hpin] at hev hload
      refine h.setCaller hev hload ?_ (fun k' o' hk => ?_) (by simp)
      · refine h.counted.pin hpin hlt (i := i) (by rw [hc]; exact not_false) fun j o' => ?_
        by_cases hj : j = i
        · subst hj
          rw [update_self, hc]
          simp [Caller.pins]
        · rw [update_of_ne hj]
          simp [hj]
      · obtain ⟨rfl, rfl⟩ := hk
        refine ⟨hlt, .inl (hfound.resolve_right fun hm => ?_)⟩
        rw [LeasedState.tryPin, if_pos hm] at hpin
        cases hpin
    | none =>
      refine h.setCaller (.refl _) (fun _ _ hl => hl) (h.counted.congr (pins_update fun o' => ?_)) (fun _ _ hk => hk.elim) (by simp)
      rw [hc]; exact Iff.rfl
  | confirming o isNew =>
    have hl := h.load_of_pins (i := i) (k := k) (o := o) (by rw [hc]; exact ⟨rfl, rfl⟩) (by rw [hc]; exact rfl)
    simp only [Pinning.step, if_pos hl]
    refine h.setCaller (.refl _) (fun _ _ hl => hl) (h.counted.congr (pins_update fun o' => ?_)) (fun k' o' hk => ?_) (by simp)
    · rw [hc]; exact Iff.rfl
    · obtain ⟨rfl, rfl⟩ := hk
      exact ⟨h.counted.stored _ _ hl, .inl hl⟩
  | backingOff o => exact absurd hc (h.steady i k o)

/-! ## The collector -/

/-- The collector takes a step that leaves the callers alone. -/
theorem Inv.setCollector (h : s.Inv) {c : Option (Collecting K)} {cleaned : List Nat}
    (hd : c.bind doomed = s.collector.bind doomed)
    (hv : ∀ k o, c.bind Collecting.visiting = some (k, o) → s.map.load k = some o)
    (hc : ∀ o, o ∈ cleaned ++ ((c.map resourcesToClean).getD []).map Prod.snd → o ∈ s.collected) :
    Inv { s with collector := c, cleaned := cleaned } where
  counted := by rw [hd]; exact h.counted
  visiting := hv
  known := h.known
  steady := h.steady
  gone := fun o ho => h.gone o (hc o ho)

theorem Inv.collecting (h : s.Inv) {c : Collecting K} (hc : s.collector = some c) :
    Inv (s.step timeout .advanceCollector) := by
  have hcounted := h.counted
  have hvisiting := h.visiting
  rw [hc] at hcounted hvisiting
  have hev := evolves hcounted timeout
  have hcoll : s.collected = s.cleaned ++ c.resourcesToClean.map Prod.snd := by rw [collected, hc]; rfl
  simp only [step, hc]
  refine ⟨?_, ?_, fun i k o hk => ?_, h.steady, fun o ho => ?_⟩
  · exact counted_step hcounted hvisiting timeout
  · exact fun k o => visiting_step hvisiting
  · obtain ⟨hlt, hl | hm⟩ := h.known i k o hk
    · exact ⟨hlt.trans_le hev.next, hev.entry k o hl⟩
    · exact ⟨hlt.trans_le hev.next, .inr (hev.mark o hlt hm)⟩
  · have hold : ∀ o' ∈ s.cleaned ++ c.resourcesToClean.map Prod.snd,
        o' < (c.step s.map timeout).1.next ∧ ((c.step s.map timeout).1.states o').markedForDeletion = true := by
      intro o' ho'
      obtain ⟨hlt, hm⟩ := h.gone o' (hcoll ▸ ho')
      exact ⟨hlt.trans_le hev.next, hev.mark o' hlt hm⟩
    cases c with
    | ranging now found => exact hold o ho
    | checking now found k o' =>
      refine hold o ?_
      simp only [collected, Collecting.step, Option.map_some, Option.getD_some] at ho
      split at ho <;> exact ho
    | deleting now found k o' =>
      -- the state that is added is the one that was marked
      obtain ⟨hl, hm⟩ := hcounted.doom k o' rfl
      simp only [collected, Collecting.step, hl, Option.map_some, Option.getD_some, resourcesToClean,
        map_append, map_cons, map_nil, mem_append, mem_singleton] at ho
      rcases ho with ho | ho | rfl
      · exact hold o (mem_append_left _ ho)
      · exact hold o (mem_append_right _ ho)
      · simp only [Collecting.step, hl]
        exact ⟨hcounted.stored k o hl, hm⟩

theorem Inv.step (h : s.Inv) (a : PoolAction K) : (s.step timeout a).Inv := by
  cases a with
  | pin i k =>
    simp only [LeasePool.step]
    split
    · rename_i hc
      refine h.setCaller (.refl _) (fun _ _ hl => hl) (h.counted.congr (pins_update fun o => ?_)) (fun _ _ hk => hk.elim) (by simp)
      rw [hc]; exact Iff.rfl
    · exact h
  | advance i =>
    cases hc : s.callers i with
    | pinning k p => exact h.pinning hc
    | idle | holding k o => simpa only [LeasePool.step, hc] using h
  | unpin i =>
    simp only [LeasePool.step]
    split
    · rename_i k o hc
      refine h.setCaller (LeaseMap.evolves_unpin _ _ _) (fun _ _ hl => hl) ?_ (fun _ _ hk => hk.elim) (by simp)
      refine h.counted.unpin (i := i) (by rw [hc]; exact rfl) s.clock fun j o' => ?_
      by_cases hj : j = i
      · subst hj
        rw [update_self, hc]
        simp [Caller.pins]
      · rw [update_of_ne hj]
        simp [hj]
    · exact h
  | collect =>
    simp only [LeasePool.step]
    split
    · rename_i hc
      refine h.setCollector (by rw [hc]; rfl) (fun _ _ he => by cases he) fun o ho => ?_
      simpa [collected, hc, resourcesToClean] using ho
    · exact h
  | visit k =>
    simp only [LeasePool.step]
    cases hc : s.collector with
    | none => rw [Option.map_none, ← hc]; exact h
    | some c =>
      cases c with
      | ranging now found =>
        simp only [Option.map_some, visit]
        split
        · rename_i o hl
          refine h.setCollector (by rw [hc]; rfl) (fun k' o' hv => ?_) fun o' ho' => ?_
          · cases hv; exact hl
          · rwa [collected, hc]
        · rw [← hc]; exact h
      | checking now found k' o =>
        show Inv { s with collector := some (.checking now found k' o) }
        rw [← hc]
        exact h
      | deleting now found k' o =>
        show Inv { s with collector := some (.deleting now found k' o) }
        rw [← hc]
        exact h
  | advanceCollector =>
    cases hc : s.collector with
    | none => simpa only [LeasePool.step, hc] using h
    | some c => exact h.collecting hc
  | cleanUp =>
    simp only [LeasePool.step]
    split
    · rename_i now found hc
      refine h.setCollector (by rw [hc]; rfl) (by simp) fun o ho => ?_
      simpa [collected, hc, resourcesToClean] using ho
    · exact h
  | tick d => exact ⟨h.counted, h.visiting, h.known, h.steady, h.gone⟩

theorem Inv.run {s' : LeasePool K} (h : s.Inv) (hr : Run timeout s s') : s'.Inv := by
  induction hr with
  | refl => exact h
  | tail _ hst ih =>
    obtain ⟨a, rfl⟩ := hst
    exact ih.step a

/-- In every interleaving: a state that a caller has been given and has not unpinned is
not marked, has not been collected, and is the one in the map; and no call is
about to return a state that is marked. -/
theorem pinned_states_stay (timeout now : Int) {s : LeasePool K} (h : Run timeout (start now) s) :
    (∀ i k o, s.callers i = .holding k o →
      (s.map.states o).markedForDeletion = false ∧ o ∉ s.collected ∧ s.map.load k = some o) ∧
    ∀ i k p o isNew, s.callers i = .pinning k p → (p.step s.map k s.clock).2 = .inr (o, isNew) →
      (s.map.states o).markedForDeletion = false := by
  have hinv := (start_inv now).run h
  refine ⟨fun i k o hc => ?_, fun i k p o isNew hc hret => ?_⟩
  · have hp : (s.callers i).pins o := by rw [hc]; exact rfl
    have hlive := hinv.counted.live i o hp
    refine ⟨hlive, fun hgone => ?_, hinv.load_of_pins (by rw [hc]; exact ⟨rfl, rfl⟩) hp⟩
    rw [(hinv.gone o hgone).2] at hlive
    cases hlive
  · -- only the last look at the map returns
    cases p with
    | confirming o' b =>
      simp only [Pinning.step] at hret
      split at hret
      · cases hret
        exact hinv.counted.live i o (by rw [hc]; exact rfl)
      · cases hret
    | loading | trying o' b => simp only [Pinning.step] at hret; split at hret <;> cases hret
    | storing | backingOff o' => cases hret

/-- A caller that finds its state marked, and tries again until the state is gone. -/
theorem pinned_after_collection : ∃ s : LeasePool String, Run 5 (start 1) s ∧ s.callers 1 = .holding "a" 1 ∧ s.collected = [0] ∧
    (s.map.states 1).markedForDeletion = false ∧ 1 ∉ s.collected ∧ s.map.load "a" = some 1 := by
  have hrun := run_foldl 5 ([.pin 0 "a", .advance 0, .advance 0, .advance 0, .advance 0, .unpin 0, .tick 5,
    .pin 1 "a", .advance 1, .collect, .visit "a", .advanceCollector, .advance 1, .advanceCollector, .cleanUp,
    .advance 1, .advance 1, .advance 1, .advance 1] : List (PoolAction String)) (start 1)
  exact ⟨_, hrun, rfl, rfl, (pinned_states_stay 5 1 hrun).1 1 "a" 1 rfl⟩

/-- In every interleaving: a lease count is the number of the callers that have the state pinned, and it is zero once the
state has been collected; the second look at the map finds what the first has found, so nobody backs off; and a marked
state that is still in the map is the one that the collector deletes next. -/
theorem lease_counts_exact (timeout now : Int) {s : LeasePool K} (h : Run timeout (start now) s) :
    (∀ o, Counts (s.map.states o).leaseCount fun i => (s.callers i).pins o) ∧
    (∀ o ∈ s.collected, (s.map.states o).leaseCount = 0) ∧
    (∀ i k o, s.callers i ≠ .pinning k (.backingOff o)) ∧
    ∀ k o, s.map.load k = some o → (s.map.states o).markedForDeletion = true → s.collector.bind doomed = some (k, o) := by
  have hinv := (start_inv now).run h
  refine ⟨hinv.counted.count, fun o ho => ?_, hinv.steady, hinv.counted.marked⟩
  have hfree : ∀ i, ¬ (s.callers i).pins o := by
    intro i hp
    have hlive := hinv.counted.live i o hp
    rw [(hinv.gone o ho).2] at hlive
    cases hlive
  exact (hinv.counted.count o).unique (.zero hfree)

/-- Two callers have the same state, and a third has none of it. -/
theorem lease_counts_exact_two : ∃ s : LeasePool String, Run 5 (start 1) s ∧ (s.map.states 0).leaseCount = 2 ∧
    Counts 2 fun i => (s.callers i).pins 0 := by
  have hrun := run_foldl 5 ([.pin 0 "a", .advance 0, .pin 1 "a", .advance 1, .advance 0, .advance 1, .advance 0, .advance 1,
    .advance 0, .collect, .visit "a", .advanceCollector, .pin 2 "b"] : List (PoolAction String)) (start 1)
  exact ⟨_, hrun, rfl, (lease_counts_exact 5 1 hrun).1 0⟩

end LeasePool

end InferenceGateway.Registry
