import Mathlib
/-!
# Check, then add

A store whose contents are measured by figures `ι → Int`, and counters that lag
behind them: what is put in is counted later and piece by piece, and so is what is
taken out. One caller at a time reads the counters, compares them with the limits
and adds to the store; others take things out whenever they like.

The counters that the caller has read can only have fallen since, as nobody else
adds. So the store stays within its limits.
-/

namespace InferenceGateway.Lib.Admission

open Function

variable {ι : Type*}

/-- Where the caller is. -/
inductive Phase (ι : Type*) where
  | idle
  /-- Something that measures `w` is to be put in; `seen` is what has been read so far. -/
  | reading (w : ι → Int) (seen : ι → Option Int)
  | admitted (w : ι → Int)
  /-- It is in the store, and is being counted. -/
  | counting

/-- What the thing measures that is to be put in. -/
def Phase.weight : Phase ι → ι → Int
  | reading w _ => w
  | admitted w => w
  | _ => 0

@[ext]
structure State (ι : Type*) where
  stored : ι → Int
  counter : ι → Int
  /-- Taken out, and still on the counters. -/
  released : ι → Int
  /-- Put in, and not yet on the counters. -/
  owed : ι → Int
  /-- At least what all that was ever to be put in measures. -/
  offered : ι → Int
  phase : Phase ι

inductive Step [DecidableEq ι] (limit : ι → Int) (s : State ι) : State ι → Prop where
  | offer (w o : ι → Int) (hp : s.phase = .idle) (hw : 0 ≤ w) (ho : w ≤ o) :
      Step limit s { s with offered := s.offered + o, phase := .reading w fun _ => none }
  | read (c : ι) (w : ι → Int) (seen : ι → Option Int) (hp : s.phase = .reading w seen) :
      Step limit s { s with phase := .reading w (update seen c (some (s.counter c))) }
  | refuse (w : ι → Int) (seen : ι → Option Int) (hp : s.phase = .reading w seen) :
      Step limit s { s with phase := .idle }
  | approve (w : ι → Int) (seen : ι → Option Int) (hp : s.phase = .reading w seen)
      (h : ∀ c, limit c ≠ 0 → w c ≠ 0 → ∃ v, seen c = some v ∧ v + w c ≤ limit c) :
      Step limit s { s with phase := .admitted w }
  | withdraw (w : ι → Int) (hp : s.phase = .admitted w) : Step limit s { s with phase := .idle }
  | add (w : ι → Int) (hp : s.phase = .admitted w) :
      Step limit s { s with stored := s.stored + w, owed := w, phase := .counting }
  | raise (c : ι) (n : Int) (hp : s.phase = .counting) (h₀ : 0 ≤ n) (hn : n ≤ s.owed c) :
      Step limit s { s with
        counter := update s.counter c (s.counter c + n)
        owed := update s.owed c (s.owed c - n) }
  | counted (hp : s.phase = .counting) (h : s.owed = 0) : Step limit s { s with phase := .idle }
  | take (r : ι → Int) (h₀ : 0 ≤ r) (hr : r ≤ s.stored) :
      Step limit s { s with stored := s.stored - r, released := s.released + r }
  | lower (c : ι) (n : Int) (h₀ : 0 ≤ n) (hn : n ≤ s.released c) :
      Step limit s { s with
        counter := update s.counter c (s.counter c - n)
        released := update s.released c (s.released c - n) }

structure Inv (limit : ι → Int) (s : State ι) : Prop where
  stored_nonneg : ∀ c, 0 ≤ s.stored c
  released_nonneg : ∀ c, 0 ≤ s.released c
  owed_nonneg : ∀ c, 0 ≤ s.owed c
  owed_le : ∀ c, s.owed c ≤ s.offered c
  owing : s.phase ≠ .counting → ∀ c, s.owed c = 0
  counted : ∀ c, s.counter c + s.owed c = s.stored c + s.released c
  bounded : ∀ c, limit c ≠ 0 → s.stored c + s.released c ≤ limit c
  weight_nonneg : ∀ c, 0 ≤ s.phase.weight c
  pending : ∀ c, s.stored c + s.released c + s.phase.weight c ≤ s.offered c
  seen : ∀ w seen, s.phase = .reading w seen → ∀ c v, seen c = some v →
    s.stored c + s.released c ≤ v ∧ v + w c ≤ s.offered c
  admitted : ∀ w, s.phase = .admitted w → ∀ c, limit c ≠ 0 → s.stored c + s.released c + w c ≤ limit c

/-- An empty store with its counters at zero. -/
def start : State ι := ⟨0, 0, 0, 0, 0, .idle⟩

theorem start_inv {limit : ι → Int} (hl : ∀ c, 0 ≤ limit c) : Inv limit start where
  stored_nonneg := fun _ => le_rfl
  released_nonneg := fun _ => le_rfl
  owed_nonneg := fun _ => le_rfl
  owed_le := fun _ => le_rfl
  owing := fun _ _ => rfl
  counted := fun _ => rfl
  bounded := fun c _ => by simpa [start] using hl c
  weight_nonneg := fun _ => le_rfl
  pending := fun _ => le_rfl
  seen := nofun
  admitted := nofun

section Invariant
variable {limit : ι → Int} {s s' : State ι}

variable {c : ι}

variable (h : Inv limit s)
include h

theorem Inv.stored_le (hc : limit c ≠ 0) : s.stored c ≤ limit c := by
  have := h.bounded c hc
  have := h.released_nonneg c
  omega

theorem Inv.counter_le (hc : limit c ≠ 0) : s.counter c ≤ limit c := by
  have := h.bounded c hc
  have := h.counted c
  have := h.owed_nonneg c
  omega

/-- No counter leaves the range of what was offered. -/
theorem Inv.counter_range (c : ι) : -s.offered c ≤ s.counter c ∧ s.counter c ≤ s.offered c := by
  have := h.counted c
  have := h.owed_nonneg c
  have := h.owed_le c
  have := h.stored_nonneg c
  have := h.released_nonneg c
  have := h.pending c
  have := h.weight_nonneg c
  omega

/-- What the caller reads is what is in the store and what is still to be taken off. -/
theorem Inv.counter_eq (hp : s.phase ≠ .counting) (c : ι) :
    s.counter c = s.stored c + s.released c := by
  have := h.counted c
  have := h.owing hp c
  omega

variable {w : ι → Int}

theorem Inv.offer {o : ι → Int} (hp : s.phase = .idle) (hw : 0 ≤ w) (ho : w ≤ o) :
    Inv limit { s with offered := s.offered + o, phase := .reading w fun _ => none } :=
  { h with
    owed_le := fun c => le_trans (h.owed_le c) (le_add_of_nonneg_right ((hw c).trans (ho c)))
    owing := fun _ => h.owing (by rw [hp]; nofun)
    weight_nonneg := hw
    pending := fun c => by
      have h1 := h.pending c
      have h2 : w c ≤ o c := ho c
      rw [hp] at h1
      simp only [Phase.weight, Pi.zero_apply, Pi.add_apply] at h1 ⊢
      omega
    seen := fun w' seen he c v hv => by cases he; cases hv
    admitted := nofun }

/-- The caller is at rest again. -/
theorem Inv.idle (ho : ∀ c, s.owed c = 0) : Inv limit { s with phase := .idle } :=
  { h with
    owing := fun _ => ho
    weight_nonneg := fun _ => le_rfl
    pending := fun c => by
      have h1 := h.pending c
      have h2 := h.weight_nonneg c
      simp only [Phase.weight, Pi.zero_apply]
      omega
    seen := nofun
    admitted := nofun }

theorem Inv.approve {seen : ι → Option Int} (hp : s.phase = .reading w seen)
    (hadm : ∀ c, limit c ≠ 0 → w c ≠ 0 → ∃ v, seen c = some v ∧ v + w c ≤ limit c) :
    Inv limit { s with phase := .admitted w } :=
  { h with
    owing := fun _ => h.owing (by rw [hp]; nofun)
    weight_nonneg := fun c => by simpa [hp, Phase.weight] using h.weight_nonneg c
    pending := fun c => by simpa [hp, Phase.weight] using h.pending c
    seen := nofun
    admitted := fun w' he c hc => by
      cases he
      by_cases hw : w c = 0
      · rw [hw, add_zero]
        exact h.bounded c hc
      · -- what was read may have fallen since, and has not risen
        obtain ⟨v, hv, hle⟩ := hadm c hc hw
        have := (h.seen w seen hp c v hv).1
        change s.stored c + s.released c + w c ≤ limit c
        omega }

theorem Inv.add (hp : s.phase = .admitted w) :
    Inv limit { s with stored := s.stored + w, owed := w, phase := .counting } := by
  have hw : ∀ c, 0 ≤ w c := fun c => by simpa [hp, Phase.weight] using h.weight_nonneg c
  have hpend : ∀ c, s.stored c + s.released c + w c ≤ s.offered c := fun c => by
    simpa [hp, Phase.weight] using h.pending c
  refine ⟨fun c => ?_, h.released_nonneg, hw, fun c => ?_, fun hc => absurd rfl hc, fun c => ?_, fun c hc => ?_,
    fun _ => le_rfl, fun c => ?_, nofun, nofun⟩
  · exact add_nonneg (h.stored_nonneg c) (hw c)
  · have h1 := hpend c
    have h2 := h.stored_nonneg c
    have h3 := h.released_nonneg c
    change w c ≤ s.offered c
    omega
  · have h1 := h.counter_eq (by rw [hp]; nofun) c
    simp only [Pi.add_apply]
    omega
  · have h1 := h.admitted w hp c hc
    simp only [Pi.add_apply]
    omega
  · have h1 := hpend c
    simp only [Pi.add_apply, Phase.weight, Pi.zero_apply]
    omega

theorem Inv.take {r : ι → Int} (h₀ : 0 ≤ r) (hr : r ≤ s.stored) :
    Inv limit { s with stored := s.stored - r, released := s.released + r } := by
  have hsum : ∀ c, (s.stored - r) c + (s.released + r) c = s.stored c + s.released c := fun c => by
    simp only [Pi.sub_apply, Pi.add_apply]
    omega
  exact
    { h with
      stored_nonneg := fun c => sub_nonneg.2 (hr c)
      released_nonneg := fun c => add_nonneg (h.released_nonneg c) (h₀ c)
      counted := fun c => (h.counted c).trans (hsum c).symm
      bounded := fun c hc => (hsum c).trans_le (h.bounded c hc)
      pending := fun c => (congrArg (· + s.phase.weight c) (hsum c)).trans_le (h.pending c)
      seen := fun w seen hp c v hv => ⟨(hsum c).trans_le (h.seen w seen hp c v hv).1, (h.seen w seen hp c v hv).2⟩
      admitted := fun w hp c hc => (congrArg (· + w c) (hsum c)).trans_le (h.admitted w hp c hc) }

variable [DecidableEq ι]

theorem Inv.read {seen : ι → Option Int} (hp : s.phase = .reading w seen) (c : ι) :
    Inv limit { s with phase := .reading w (update seen c (some (s.counter c))) } :=
  { h with
    owing := fun _ => h.owing (by rw [hp]; nofun)
    weight_nonneg := fun c => by simpa [hp, Phase.weight] using h.weight_nonneg c
    pending := fun c => by simpa [hp, Phase.weight] using h.pending c
    seen := fun w' seen' he c' v hv => by
      cases he
      by_cases hc : c' = c
      · subst hc
        rw [update_self, Option.some.injEq] at hv
        subst hv
        have h1 := h.counter_eq (by rw [hp]; nofun) c'
        have h2 := h.pending c'
        rw [hp] at h2
        simp only [Phase.weight] at h2
        exact ⟨h1.ge, by rw [h1]; exact h2⟩
      · rw [update_of_ne hc] at hv
        exact h.seen w seen hp c' v hv
    admitted := nofun }

theorem Inv.raise {n : Int} (hp : s.phase = .counting) (h₀ : 0 ≤ n) (hn : n ≤ s.owed c) :
    Inv limit { s with
      counter := update s.counter c (s.counter c + n)
      owed := update s.owed c (s.owed c - n) } := by
  have howed : ∀ c', 0 ≤ update s.owed c (s.owed c - n) c' ∧
      update s.owed c (s.owed c - n) c' ≤ s.owed c' ∧
      update s.counter c (s.counter c + n) c' + update s.owed c (s.owed c - n) c' =
        s.counter c' + s.owed c' := by
    intro c'
    by_cases hc : c' = c
    · subst hc
      simp only [update_self]
      omega
    · rw [update_of_ne hc, update_of_ne hc]
      exact ⟨h.owed_nonneg c', le_rfl, rfl⟩
  exact
    { h with
      owed_nonneg := fun c' => (howed c').1
      owed_le := fun c' => (howed c').2.1.trans (h.owed_le c')
      owing := fun hne => absurd hp hne
      counted := fun c' => (howed c').2.2.trans (h.counted c') }

theorem Inv.lower {n : Int} (h₀ : 0 ≤ n) (hn : n ≤ s.released c) : Inv limit { s with
      counter := update s.counter c (s.counter c - n)
      released := update s.released c (s.released c - n) } := by
  have hrel : ∀ c', 0 ≤ update s.released c (s.released c - n) c' ∧
      update s.released c (s.released c - n) c' ≤ s.released c' ∧
      update s.counter c (s.counter c - n) c' - update s.released c (s.released c - n) c' =
        s.counter c' - s.released c' := by
    intro c'
    by_cases hc : c' = c
    · subst hc
      simp only [update_self]
      omega
    · rw [update_of_ne hc, update_of_ne hc]
      exact ⟨h.released_nonneg c', le_rfl, rfl⟩
  -- what is in the store and still on the counters has only fallen
  have hsum : ∀ c', s.stored c' + update s.released c (s.released c - n) c' ≤ s.stored c' + s.released c' :=
    fun c' => add_le_add_right (hrel c').2.1 _
  exact
    { h with
      released_nonneg := fun c' => (hrel c').1
      counted := fun c' => by
        have h1 := h.counted c'
        have h2 := (hrel c').2.2
        simp only
        omega
      bounded := fun c' hc => (hsum c').trans (h.bounded c' hc)
      pending := fun c' => (add_le_add_left (hsum c') _).trans (h.pending c')
      seen := fun w seen hp c' v hv => ⟨(hsum c').trans (h.seen w seen hp c' v hv).1, (h.seen w seen hp c' v hv).2⟩
      admitted := fun w hp c' hc => (add_le_add_left (hsum c') _).trans (h.admitted w hp c' hc) }

theorem Inv.step (hst : Step limit s s') : Inv limit s' := by
  cases hst with
  | offer w o hp hw ho => exact h.offer hp hw ho
  | read c w seen hp => exact h.read hp c
  | refuse w seen hp | withdraw w hp => exact h.idle (h.owing (by rw [hp]; nofun))
  | approve w seen hp hadm => exact h.approve hp hadm
  | add w hp => exact h.add hp
  | raise c n hp h₀ hn => exact h.raise hp h₀ hn
  | counted hp ho => exact h.idle fun c => by rw [ho]; rfl
  | take r h₀ hr => exact h.take h₀ hr
  | lower c n h₀ hn => exact h.lower h₀ hn

end Invariant

end InferenceGateway.Lib.Admission
