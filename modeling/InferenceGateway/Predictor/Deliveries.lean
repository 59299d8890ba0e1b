import InferenceGateway.Predictor.Dispatcher
/-!
# One result for every submission

A submission that has been accepted is in exactly one place: in the channel, pending, with
the goroutine of a batch, or answered. Every step of the dispatcher and the goroutines
brings the submissions nearer to their results, so that when none of them can make a
step, all are answered; unless the dispatcher has returned with submissions left in the
channel, from which nobody takes them any more.
-/

namespace InferenceGateway.Predictor

open Lib List BatchRun Coalescer

variable {F : Type}

/-- What a goroutine still has to answer. -/
def BatchRun.held : BatchRun F → Multiset (Submission F)
  | waiting batch => batch
  | calling batch => batch
  | sending rest _ => rest.map (·.1)
  | ended => 0

def BatchRun.slots : BatchRun F → ℕ
  | waiting _ => 0
  | calling _ => 1
  | sending _ slot => if slot then 1 else 0
  | ended => 0

/-- The results on their way. -/
def BatchRun.outgoing : BatchRun F → List (Submission F × Result F)
  | sending rest _ => rest
  | _ => []

/-- The steps that a goroutine has before it, and more. -/
def BatchRun.work : BatchRun F → ℕ
  | waiting batch => batch.length + 3
  | calling batch => batch.length + 2
  | sending rest _ => rest.length + 1
  | ended => 0

namespace Coalescer

variable {config : DispatchConfig} {f : Option (PredictionRequest F → PredictionResponse F)} {s s' : Coalescer F}

/-! ## Steps -/

/-- What the steps do, where they can be made. -/
inductive Move (config : DispatchConfig) (s : Coalescer F) : Op F → Coalescer F → Prop where
  | submit (requests : List (PredictionRequest F)) : Move config s (.submit requests)
      { s with
        coalesceCh := s.coalesceCh ++ [⟨s.accepted.length, requests⟩]
        accepted := s.accepted ++ [⟨s.accepted.length, requests⟩] }
  | collect {sub : Submission F} {result : Result F} : (sub, result) ∈ s.results →
      Move config s (.collect sub.id) { s with returned := s.returned ++ [(sub.id, some result)] }
  | leave (id : ℕ) : Move config s (.leave id) { s with returned := s.returned ++ [(id, none)] }
  | stop : Move config s .stop { s with done := true }
  | receive {sub : Submission F} {rest : List (Submission F)} : s.stopped = false → s.coalesceCh = sub :: rest →
      Move config s .receive (s.received config sub rest)
  | expire : s.stopped = false → s.timer = true → Move config s .expire { s with timer := false }.dispatch
  | notice : s.stopped = false → s.done = true → Move config s .notice
      { s with
        stopped := true
        timer := false
        pending := []
        batches := s.batches ++ [.sending (reject s.pending) false] }
  | acquire {j n : ℕ} {batch : List (Submission F)} : s.batches[j]? = some (.waiting batch) → s.dispatchSem = n + 1 →
      Move config s (.acquire j) { s with dispatchSem := n, batches := s.batches.set j (.calling batch) }
  | reject {j : ℕ} {batch : List (Submission F)} : s.batches[j]? = some (.waiting batch) → s.done = true →
      Move config s (.reject j) { s with batches := s.batches.set j (.sending (reject batch) false) }
  | answered {j : ℕ} {batch : List (Submission F)} (answer : Result F) : s.batches[j]? = some (.calling batch) →
      Move config s (.answered j answer) { s with batches := s.batches.set j (.sending (handOut batch answer) true) }
  | send {j : ℕ} {r : Submission F × Result F} {rest : List (Submission F × Result F)} {slot : Bool} :
      s.batches[j]? = some (.sending (r :: rest) slot) → Move config s (.send j)
        { s with results := s.results ++ [r], batches := s.batches.set j (.sending rest slot) }
  | release {j : ℕ} {slot : Bool} : s.batches[j]? = some (.sending [] slot) → Move config s (.release j)
      { s with
        dispatchSem := if slot then s.dispatchSem + 1 else s.dispatchSem
        batches := s.batches.set j .ended }

variable {op : Op F}

theorem move_of_step (h : s.step config op = .ok s') : Move config s op s' := by
  cases op with
  | submit requests =>
    simp only [step] at h
    split at h
    · cases h; exact .submit requests
    · cases h
  | collect id =>
    simp only [step] at h
    cases hfind : s.results.find? (·.1.id = id) with
    | none => rw [hfind] at h; cases h
    | some r =>
      obtain ⟨sub, result⟩ := r
      have hid : sub.id = id := by simpa using List.find?_some hfind
      subst hid
      rw [hfind] at h
      dsimp only at h
      split at h
      · cases h
      · cases h
        exact .collect (mem_of_find?_eq_some hfind)
  | leave id =>
    simp only [step] at h
    split at h
    · cases h
    · cases h; exact .leave id
  | stop =>
    simp only [step] at h
    split at h
    · cases h
    · cases h; exact .stop
  | receive =>
    simp only [step] at h
    split at h
    · rename_i hstopped hch
      cases h
      exact .receive hstopped hch
    · cases h
  | expire =>
    simp only [step] at h
    split at h
    · cases h
    · rename_i hcan
      cases h
      exact .expire (by simp_all) (by simp_all)
  | notice =>
    simp only [step] at h
    split at h
    · cases h
    · rename_i hcan
      cases h
      exact .notice (by simp_all) (by simp_all)
  | acquire j =>
    simp only [step] at h
    split at h
    · rename_i hj hsem
      cases h
      exact .acquire hj hsem
    · cases h
  | reject j =>
    simp only [step] at h
    split at h
    · rename_i hj hdone
      cases h
      exact .reject hj hdone
    · cases h
  | answered j answer =>
    simp only [step] at h
    split at h
    · rename_i hj
      cases h
      exact .answered answer hj
    · cases h
  | send j =>
    simp only [step] at h
    split at h
    · rename_i hj
      cases h
      exact .send hj
    · cases h
  | release j =>
    simp only [step] at h
    split at h
    · rename_i hj
      cases h
      exact .release hj
    · cases h

/-! ## Places -/

/-- The submissions by the place they are in. -/
def places (s : Coalescer F) : Multiset (Submission F) :=
  ↑(s.coalesceCh ++ s.pending) + ((s.batches.map held).sum + ↑(s.results.map (·.1)))

theorem sum_dispatch {M : Type} [AddCommMonoid M] (g : BatchRun F → M) (h : s.pending = [] → g (.waiting []) = 0) :
    (s.dispatch.batches.map g).sum = (s.batches.map g).sum + g (.waiting s.pending) := by
  unfold dispatch
  dsimp only
  split
  · rename_i hempty
    rw [isEmpty_iff.1 hempty, h (isEmpty_iff.1 hempty), add_zero]
  · rw [map_append, sum_append, map_singleton, sum_singleton]

theorem places_dispatch : s.dispatch.places = s.places := by
  rw [places, sum_dispatch held fun _ => rfl, places]
  simp only [dispatch, held, append_nil, ← Multiset.coe_add]
  abel

variable {j : ℕ} {b : BatchRun F}

/-- A goroutine gives away what it has handed out, and keeps the rest. -/
theorem places_set (h : s.batches[j]? = some b) (b' : BatchRun F) (results : List (Submission F × Result F)) (sem : ℕ)
    (hheld : b.held + ↑(s.results.map (·.1)) = b'.held + ↑(results.map (·.1))) :
    ({ s with dispatchSem := sem, batches := s.batches.set j b', results := results } : Coalescer F).places =
      s.places := by
  have hsum := sum_map_set_add held h b'
  simp only [places, add_right_inj]
  apply add_right_cancel (b := b.held)
  calc _ = ((s.batches.set j b').map held).sum + b.held + ↑(results.map (·.1)) := add_right_comm _ _ _
    _ = (s.batches.map held).sum + (b.held + ↑(s.results.map (·.1))) := by rw [hsum, add_assoc, hheld]
    _ = _ := by rw [add_comm b.held, add_assoc]

/-- Submissions enter by being accepted, and go nowhere without a result. -/
theorem places_step (h : Move config s op s') (hs : s.places = ↑s.accepted) : s'.places = ↑s'.accepted := by
  cases h with
  | submit requests =>
    dsimp only
    rw [← Multiset.coe_add, ← hs]
    simp only [places, ← Multiset.coe_add]
    abel
  | @receive sub rest _ hch =>
    have hmoved : (↑(rest ++ (s.pending ++ [sub])) : Multiset (Submission F)) = ↑(s.coalesceCh ++ s.pending) := by
      rw [hch, Multiset.coe_eq_coe, ← append_assoc]
      exact perm_append_singleton _ _
    unfold received
    dsimp only
    split
    · rw [places_dispatch]
      simp only [places, hmoved]
      exact hs
    · simp only [places, hmoved]
      exact hs
  | expire _ _ =>
    rw [places_dispatch]
    exact hs
  | notice _ _ =>
    dsimp only
    rw [← hs]
    simp only [places, map_append, map_cons, map_nil, sum_append, sum_cons, sum_nil,
      held, reject_fst, append_nil, ← Multiset.coe_add]
    abel
  | @acquire j n batch hj _ => exact (places_set hj (.calling batch) s.results n rfl).trans hs
  | @reject j batch hj _ =>
    refine (places_set hj (.sending (reject batch) false) s.results s.dispatchSem ?_).trans hs
    rw [held, held, reject_fst]
  | @answered j batch answer hj =>
    refine (places_set hj (.sending (handOut batch answer) true) s.results s.dispatchSem ?_).trans hs
    rw [held, held, handOut_fst]
  | @send j r rest slot hj =>
    refine (places_set hj (.sending rest slot) (s.results ++ [r]) s.dispatchSem ?_).trans hs
    rw [held, held, map_append, Multiset.coe_add, Multiset.coe_add, Multiset.coe_eq_coe]
    exact (perm_append_singleton _ _).symm.trans (by simp)
  | @release j slot hj => exact (places_set hj .ended s.results _ rfl).trans hs
  | _ => exact hs

/-! ## Slots and the work that is left -/

theorem slots_set (h : s.batches[j]? = some b) (b' : BatchRun F) {sem : ℕ}
    (hslots : sem + b'.slots = s.dispatchSem + b.slots) :
    sem + ((s.batches.set j b').map slots).sum = s.dispatchSem + (s.batches.map slots).sum := by
  have hsum := sum_map_set_add slots h b'
  omega

/-- The slots that are not free are with goroutines that call or hand out. -/
theorem slots_step (h : Move config s op s') :
    s'.dispatchSem + (s'.batches.map slots).sum = s.dispatchSem + (s.batches.map slots).sum := by
  cases h with
  | receive _ _ =>
    unfold received
    dsimp only
    split
    · rw [sum_dispatch slots fun _ => rfl]; rfl
    · rfl
  | expire _ _ => rw [sum_dispatch BatchRun.slots fun _ => rfl]; rfl
  | notice _ _ => simp [BatchRun.slots]
  | acquire hj hsem => exact slots_set hj (.calling _) hsem.symm
  | reject hj _ => exact slots_set hj (.sending _ false) rfl
  | answered answer hj => exact slots_set hj (.sending _ true) rfl
  | send hj => exact slots_set hj (.sending _ _) rfl
  | @release _ slot hj =>
    refine slots_set hj .ended ?_
    cases slot <;> rfl
  | _ => rfl

/-- A bound of the steps that the dispatcher and the goroutines can make by themselves. -/
def work (s : Coalescer F) : ℕ :=
  6 * s.coalesceCh.length + s.pending.length + 4 * s.timer.toNat + 2 * (!s.stopped).toNat +
    (s.batches.map BatchRun.work).sum

theorem work_dispatch : s.dispatch.work ≤ s.work + 3 := by
  have hsum : (s.dispatch.batches.map BatchRun.work).sum ≤
      (s.batches.map BatchRun.work).sum + (s.pending.length + 3) := by
    unfold dispatch
    dsimp only
    split
    · exact Nat.le_add_right _ _
    · rw [map_append, sum_append, map_singleton, sum_singleton, BatchRun.work]
  have hwork : s.dispatch.work + (s.batches.map BatchRun.work).sum + s.pending.length =
      s.work + (s.dispatch.batches.map BatchRun.work).sum := by
    simp only [work, dispatch, length_nil]
    omega
  omega

variable {b' : BatchRun F}

theorem work_set (h : s.batches[j]? = some b) (hlt : b'.work < b.work) :
    ((s.batches.set j b').map BatchRun.work).sum < (s.batches.map BatchRun.work).sum := by
  have hsum := sum_map_set_add BatchRun.work h b'
  omega

/-- Every step of the dispatcher or a goroutine leaves less to do. -/
theorem work_step (h : Move config s op s') (hop : op.Internal) : s'.work < s.work := by
  cases h with
  | receive _ hch =>
    unfold received
    dsimp only
    split
    · refine lt_of_le_of_lt work_dispatch ?_
      simp only [work, hch, length_cons, length_append, length_nil, Bool.toNat_false]
      omega
    · simp only [work, hch, length_cons, length_append, length_nil, Bool.toNat_true]
      omega
  | expire hrun htimer =>
    refine lt_of_le_of_lt work_dispatch ?_
    simp only [work, htimer, Bool.toNat_true, Bool.toNat_false]
    omega
  | notice hrun _ =>
    simp only [work, hrun, Bool.not_false, Bool.not_true, Bool.toNat_false, Bool.toNat_true, map_append,
      sum_append, map_singleton, sum_singleton, BatchRun.work, reject, length_map,
      length_nil]
    omega
  | acquire hj hsem | send hj | release hj => exact Nat.add_lt_add_left (work_set hj (by simp [BatchRun.work])) _
  | reject hj _ => exact Nat.add_lt_add_left (work_set hj (by simp [BatchRun.work, reject])) _
  | answered answer hj => exact Nat.add_lt_add_left (work_set hj (by simp [BatchRun.work, length_handOut])) _
  | _ => cases hop

/-! ## The invariant -/

/-- A result that the caller can make use of, or the news of the shutdown. -/
def Right (g : PredictionRequest F → PredictionResponse F) (done : Bool) (r : Submission F × Result F) : Prop :=
  r.2 = .ok (r.1.requests.map g) ∨ r.2 = .error shuttingDown ∧ done = true

structure Kept (config : DispatchConfig) (f : Option (PredictionRequest F → PredictionResponse F)) (s : Coalescer F) :
    Prop where
  once : s.places = ↑s.accepted
  numbered : s.accepted.map (·.id) = List.range s.accepted.length
  slots : s.dispatchSem + (s.batches.map slots).sum = config.maxConcurrentDispatches
  window : s.pending ≠ [] → s.timer = true
  stopped : s.stopped = true → s.pending = [] ∧ s.coalesceCh = []
  right : ∀ g, f = some g → (∀ r ∈ s.results, Right g s.done r) ∧ ∀ b ∈ s.batches, ∀ r ∈ b.outgoing, Right g s.done r
  collected : ∀ id result, (id, some result) ∈ s.returned → ∃ sub, sub.id = id ∧ (sub, result) ∈ s.results

/-- The window is open while something is pending, and a dispatcher that has returned has nothing. -/
theorem window_step (h : Move config s op s') (horderly : s.Orderly op) (hw : s.pending ≠ [] → s.timer = true)
    (hs : s.stopped = true → s.pending = [] ∧ s.coalesceCh = []) :
    (s'.pending ≠ [] → s'.timer = true) ∧ (s'.stopped = true → s'.pending = [] ∧ s'.coalesceCh = []) := by
  cases h with
  | submit _ => exact ⟨hw, fun h => absurd (horderly.symm.trans h) Bool.false_ne_true⟩
  | receive hrun _ =>
    unfold received
    dsimp only
    split
    · exact ⟨fun h => absurd rfl h, fun h => absurd (hrun.symm.trans h) Bool.false_ne_true⟩
    · exact ⟨fun _ => rfl, fun h => absurd (hrun.symm.trans h) Bool.false_ne_true⟩
  | expire hrun _ => exact ⟨fun h => absurd rfl h, fun h => absurd (hrun.symm.trans h) Bool.false_ne_true⟩
  | notice _ _ => exact ⟨fun h => absurd rfl h, fun _ => ⟨rfl, horderly⟩⟩
  | _ => exact ⟨hw, hs⟩

theorem right_reject {g : PredictionRequest F → PredictionResponse F} {batch : List (Submission F)}
    {r : Submission F × Result F} (h : r ∈ reject batch) : Right g true r := by
  obtain ⟨sub, -, rfl⟩ := List.mem_map.1 h
  exact Or.inr ⟨rfl, rfl⟩

theorem right_handOut {g : PredictionRequest F → PredictionResponse F} {batch : List (Submission F)} {done : Bool}
    {r : Submission F × Result F} (h : r ∈ handOut batch (.ok ((batch.map (·.requests)).flatten.map g))) :
    Right g done r := by
  rw [handOut_serves] at h
  obtain ⟨sub, -, rfl⟩ := List.mem_map.1 h
  exact Or.inl rfl

variable {P : Submission F × Result F → Prop}

variable (h : ∀ b ∈ s.batches, ∀ r ∈ b.outgoing, P r)
include h

/-- What is on its way after a goroutine has made a step. -/
theorem outgoing_set (hb' : ∀ r ∈ b'.outgoing, P r) :
    ∀ b ∈ s.batches.set j b', ∀ r ∈ b.outgoing, P r := by
  intro b hb
  rcases mem_or_eq_of_mem_set hb with hb | rfl
  · exact h b hb
  · exact hb'

theorem outgoing_append (hb' : ∀ r ∈ b'.outgoing, P r) :
    ∀ b ∈ s.batches ++ [b'], ∀ r ∈ b.outgoing, P r := by
  intro b hb
  rcases mem_append.1 hb with hb | hb
  · exact h b hb
  · rw [mem_singleton.1 hb]
    exact hb'

theorem outgoing_dispatch :
    ∀ b ∈ s.dispatch.batches, ∀ r ∈ b.outgoing, P r := by
  unfold dispatch
  dsimp only
  split
  · exact h
  · exact outgoing_append h (by simp [outgoing])

omit h

theorem right_step (h : Move config s op s') (g : PredictionRequest F → PredictionResponse F)
    (hserves : s.Serves (some g) op) (hresults : ∀ r ∈ s.results, Right g s.done r)
    (hbatches : ∀ b ∈ s.batches, ∀ r ∈ b.outgoing, Right g s.done r) :
    (∀ r ∈ s'.results, Right g s'.done r) ∧ ∀ b ∈ s'.batches, ∀ r ∈ b.outgoing, Right g s'.done r := by
  cases h with
  | stop =>
    have hmono : ∀ r, Right g s.done r → Right g true r := fun r => Or.imp_right fun h => ⟨h.1, rfl⟩
    exact ⟨fun r hr => hmono r (hresults r hr), fun b hb r hr => hmono r (hbatches b hb r hr)⟩
  | receive _ _ =>
    unfold received
    dsimp only
    split
    · exact ⟨hresults, outgoing_dispatch hbatches⟩
    · exact ⟨hresults, hbatches⟩
  | expire _ _ => exact ⟨hresults, outgoing_dispatch hbatches⟩
  | notice _ hdone =>
    refine ⟨hresults, outgoing_append hbatches fun r hr => ?_⟩
    rw [hdone]
    exact right_reject hr
  | acquire _ _ | release _ => exact ⟨hresults, outgoing_set hbatches (by simp [outgoing])⟩
  | reject _ hdone =>
    refine ⟨hresults, outgoing_set hbatches fun r hr => ?_⟩
    rw [hdone]
    exact right_reject hr
  | answered answer hj =>
    refine ⟨hresults, outgoing_set hbatches fun r hr => ?_⟩
    rw [hserves g rfl _ hj] at hr
    exact right_handOut hr
  | send hj =>
    have hout := hbatches _ (mem_of_getElem? hj)
    refine ⟨fun r hr => ?_, outgoing_set hbatches fun r hr => hout r (mem_cons_of_mem _ hr)⟩
    rcases mem_append.1 hr with hr | hr
    · exact hresults r hr
    · rw [mem_singleton.1 hr]
      exact hout _ mem_cons_self
  | _ => exact ⟨hresults, hbatches⟩

/-- A step adds to the results and to what callers have, and takes nothing back. -/
theorem collected_step (h : Move config s op s')
    (hs : ∀ id result, (id, some result) ∈ s.returned → ∃ sub, sub.id = id ∧ (sub, result) ∈ s.results) :
    ∀ id result, (id, some result) ∈ s'.returned → ∃ sub, sub.id = id ∧ (sub, result) ∈ s'.results := by
  cases h with
  | @collect sub result hmem =>
    intro id result' hin
    rcases mem_append.1 hin with hin | hin
    · exact hs id result' hin
    · cases mem_singleton.1 hin
      exact ⟨sub, rfl, hmem⟩
  | leave id =>
    intro id' result' hin
    rcases mem_append.1 hin with hin | hin
    · exact hs id' result' hin
    · cases mem_singleton.1 hin
  | receive _ _ =>
    unfold received
    dsimp only
    split <;> exact hs
  | send _ =>
    intro id result' hin
    obtain ⟨sub, hid, hmem⟩ := hs id result' hin
    exact ⟨sub, hid, mem_append_left _ hmem⟩
  | _ => exact hs

theorem numbered_step (h : Move config s op s') (hs : s.accepted.map (·.id) = List.range s.accepted.length) :
    s'.accepted.map (·.id) = List.range s'.accepted.length := by
  cases h with
  | submit _ => simp [range_succ, hs]
  | receive _ _ =>
    unfold received
    dsimp only
    split <;> exact hs
  | _ => exact hs

theorem Kept.step (h : s.Kept config f) (horderly : s.Orderly op) (hserves : s.Serves f op)
    (hstep : s.step config op = .ok s') : s'.Kept config f := by
  have hmove := move_of_step hstep
  obtain ⟨hwindow, hstopped⟩ := window_step hmove horderly h.window h.stopped
  refine ⟨places_step hmove h.once, numbered_step hmove h.numbered, (slots_step hmove).trans h.slots, hwindow, hstopped,
    ?_, collected_step hmove h.collected⟩
  rintro g rfl
  exact right_step hmove g hserves (h.right g rfl).1 (h.right g rfl).2

theorem kept_new : (new config : Coalescer F).Kept config f where
  once := rfl
  numbered := rfl
  slots := rfl
  window h := absurd rfl h
  stopped h := absurd h Bool.false_ne_true
  right _ _ := ⟨fun _ h => absurd h not_mem_nil, fun _ h => absurd h not_mem_nil⟩
  collected _ _ h := absurd h not_mem_nil

/-! ## Nothing left to do -/

/-- Neither the dispatcher nor a goroutine can make a step. -/
def Quiet (config : DispatchConfig) (s : Coalescer F) : Prop :=
  ∀ op, op.Internal → s.Orderly op → s.step config op = .error ()

/-- In a quiet state every goroutine has ended: one that calls or hands out could go on, and
without those all slots are free for one that waits. -/
theorem Quiet.batches_ended (hquiet : s.Quiet config) (hslots : 0 < config.maxConcurrentDispatches)
    (hsem : s.dispatchSem + (s.batches.map slots).sum = config.maxConcurrentDispatches) : ∀ b ∈ s.batches, b = .ended := by
  have hidle : ∀ b ∈ s.batches, b = .ended ∨ ∃ batch, b = .waiting batch := by
    intro b hb
    obtain ⟨j, hj⟩ := mem_iff_getElem?.1 hb
    cases b with
    | waiting batch => exact Or.inr ⟨batch, rfl⟩
    | calling batch =>
      have hblocked := hquiet (.answered j (.error "")) trivial trivial
      simp [Coalescer.step, hj] at hblocked
    | sending rest slot =>
      cases rest with
      | nil =>
        have hblocked := hquiet (.release j) trivial trivial
        simp [Coalescer.step, hj] at hblocked
      | cons r rest =>
        have hblocked := hquiet (.send j) trivial trivial
        simp [Coalescer.step, hj] at hblocked
    | ended => exact Or.inl rfl
  have hfree : (s.batches.map BatchRun.slots).sum = 0 := by
    rw [sum_eq_zero_iff]
    intro n hn
    obtain ⟨b, hb, rfl⟩ := List.mem_map.1 hn
    rcases hidle b hb with rfl | ⟨batch, rfl⟩ <;> rfl
  rw [hfree, add_zero] at hsem
  intro b hb
  rcases hidle b hb with hended | ⟨batch, rfl⟩
  · exact hended
  · obtain ⟨j, hj⟩ := mem_iff_getElem?.1 hb
    obtain ⟨n, hn⟩ := Nat.exists_eq_succ_of_ne_zero (hsem.trans_ne hslots.ne')
    have hblocked := hquiet (.acquire j) trivial trivial
    simp [Coalescer.step, hj, hn] at hblocked

/-- In a quiet state the dispatcher has nothing: it has returned after all was taken from the
channel, or it waits for the first submission of a batch. -/
theorem Kept.dispatcher_empty (h : s.Kept config f) (hquiet : s.Quiet config) : s.coalesceCh = [] ∧ s.pending = [] := by
  cases hstopped : s.stopped with
  | true => exact ⟨(h.stopped hstopped).2, (h.stopped hstopped).1⟩
  | false =>
    have hch : s.coalesceCh = [] := by
      cases hch : s.coalesceCh with
      | nil => rfl
      | cons sub rest =>
        have hblocked := hquiet .receive trivial trivial
        simp [Coalescer.step, hstopped, hch] at hblocked
    have htimer : s.timer ≠ true := by
      intro htimer
      have hblocked := hquiet .expire trivial trivial
      simp [Coalescer.step, hstopped, htimer] at hblocked
    exact ⟨hch, not_not.1 fun hpending => htimer (h.window hpending)⟩

theorem Quiet.nothing_held (hquiet : s.Quiet config) (hslots : 0 < config.maxConcurrentDispatches)
    (hsem : s.dispatchSem + (s.batches.map slots).sum = config.maxConcurrentDispatches) : (s.batches.map held).sum = 0 := by
  apply sum_eq_zero
  intro m hm
  obtain ⟨b, hb, rfl⟩ := List.mem_map.1 hm
  rw [hquiet.batches_ended hslots hsem b hb]
  rfl

theorem Kept.results_perm (h : s.Kept config f) (hslots : 0 < config.maxConcurrentDispatches) (hquiet : s.Quiet config) :
    (s.results.map (·.1)).Perm s.accepted := by
  obtain ⟨hch, hpending⟩ := h.dispatcher_empty hquiet
  have hheld := hquiet.nothing_held hslots h.slots
  have honce := h.once
  rw [places, hch, hpending, hheld, zero_add] at honce
  exact Multiset.coe_eq_coe.1 ((zero_add _).symm.trans honce)

theorem Kept.results_le (h : s.Kept config f) : (↑(s.results.map (·.1)) : Multiset (Submission F)) ≤ ↑s.accepted := by
  rw [← h.once, places]
  exact le_add_left (le_add_left le_rfl)

theorem Kept.nodup_results (h : s.Kept config f) : (s.results.map (·.1.id)).Nodup := by
  have hle := Multiset.map_le_map (f := Submission.id) h.results_le
  rw [Multiset.map_coe, Multiset.map_coe, map_map, h.numbered] at hle
  exact Multiset.coe_nodup.1 (Multiset.nodup_of_le hle (Multiset.coe_nodup.2 nodup_range))

/-! ## Every run -/

def oneRow : PredictionRequest Int := ⟨0, 1, 0, 0, 0, 0, "", 0, 0⟩

def oneSlot : DispatchConfig := ⟨0, 1⟩

def echo (row : PredictionRequest Int) : PredictionResponse Int := ⟨row.inputTokenLength, row.inputTokenLength⟩

/-- A submission that is in the channel when the dispatcher takes its shutdown case stays there. -/
theorem left_in_channel : ∃ s : Coalescer Int,
    Runs (fun (s : Coalescer Int) op => s.step oneSlot op) (fun _ _ => True) (new oneSlot) s ∧
    (∀ op, op.Internal → s.step oneSlot op = .error ()) ∧ s.accepted.length = 1 ∧ s.results.length = 0 := by
  refine ⟨_, runs_of_runOps [.submit [oneRow], .stop, .notice, .release 0] rfl, ?_, rfl, rfl⟩
  intro op hop
  cases op with
  | receive | expire | notice => rfl
  -- the one goroutine there is has been the dispatcher's round of refusals, and has ended
  | acquire j | reject j | answered j answer | send j | release j => cases j <;> rfl
  | _ => cases hop

/-- In every run in which the dispatcher does not leave submissions behind in the channel: no
submission gets a second result, and each has one as soon as the dispatcher and the
goroutines have done what they can, which they do in at most `work` steps. Where the
server answers with `g` of the rows, so does the result, unless the predictor shuts down. -/
theorem one_result_each (hslots : 0 < config.maxConcurrentDispatches)
    (hrun : Runs (fun (s : Coalescer F) op => s.step config op) (fun s op => s.Orderly op ∧ s.Serves f op) (new config) s) :
    (s.results.map (·.1.id)).Nodup ∧ (∀ r ∈ s.results, r.1 ∈ s.accepted) ∧
    (∀ op s', op.Internal → s.step config op = .ok s' → s'.work < s.work) ∧
    (s.Quiet config → ∀ sub ∈ s.accepted, ∃! result, (sub, result) ∈ s.results) ∧
    (∀ g, f = some g → ∀ sub result, (sub, result) ∈ s.results →
      result = .ok (sub.requests.map g) ∨ result = .error shuttingDown ∧ s.done = true) ∧
    ∀ id result, (id, some result) ∈ s.returned → ∃ sub ∈ s.accepted, sub.id = id ∧ (sub, result) ∈ s.results := by
  have h : s.Kept config f :=
    Runs.invariant (Kept config f) (fun _ _ _ h hC hstep => h.step hC.1 hC.2 hstep) kept_new hrun
  have haccepted : ∀ r ∈ s.results, r.1 ∈ s.accepted := fun r hr =>
    Multiset.mem_coe.1 (Multiset.mem_of_le h.results_le (Multiset.mem_coe.2 (mem_map_of_mem hr)))
  refine ⟨h.nodup_results, haccepted, fun op s' hop hstep => work_step (move_of_step hstep) hop, ?_,
    fun g hg sub result hmem => (h.right g hg).1 _ hmem, ?_⟩
  · intro hquiet sub hsub
    obtain ⟨⟨_, result⟩, hmem, rfl⟩ := List.mem_map.1 ((h.results_perm hslots hquiet).mem_iff.2 hsub)
    refine ⟨result, hmem, fun result' hmem' => ?_⟩
    exact congrArg Prod.snd (inj_on_of_nodup_map h.nodup_results hmem' hmem rfl)
  · intro id result hin
    obtain ⟨sub, hid, hmem⟩ := h.collected id result hin
    exact ⟨sub, haccepted _ hmem, hid, hmem⟩

/-- What is pending is with a dispatcher that runs, and has its window open. -/
theorem pending_step (h : Move config s op s') (hs : s.pending ≠ [] → s.timer = true ∧ s.stopped = false) :
    s'.pending ≠ [] → s'.timer = true ∧ s'.stopped = false := by
  cases h with
  | receive hrun _ =>
    unfold received
    dsimp only
    split
    · exact fun h => absurd rfl h
    · exact fun _ => ⟨rfl, hrun⟩
  | expire _ _ | notice _ _ => exact fun h => absurd rfl h
  | _ => exact hs

/-- In every run, an untimely shutdown or not: each submission that has been accepted is in one place, and each slot is
free or with one goroutine. When the dispatcher and the goroutines can do no more, a submission has its result or is in
the channel, and in the channel only if the dispatcher has returned. -/
theorem submissions_accounted (hrun : Runs (fun (s : Coalescer F) op => s.step config op) (fun _ _ => True) (new config) s) :
    s.places = ↑s.accepted ∧ (s.accepted.map (·.id)).Nodup ∧
    s.dispatchSem + (s.batches.map slots).sum = config.maxConcurrentDispatches ∧
    (0 < config.maxConcurrentDispatches → (∀ op, op.Internal → s.step config op = .error ()) →
      (s.coalesceCh ++ s.results.map (·.1)).Perm s.accepted ∧ (s.coalesceCh ≠ [] → s.stopped = true)) := by
  obtain ⟨honce, hnumbered, hsem, hpending⟩ := Runs.invariant
    (fun s : Coalescer F => s.places = ↑s.accepted ∧ s.accepted.map (·.id) = List.range s.accepted.length ∧
      s.dispatchSem + (s.batches.map slots).sum = config.maxConcurrentDispatches ∧
      (s.pending ≠ [] → s.timer = true ∧ s.stopped = false))
    (fun _ _ _ h _ hstep => by
      have hmove := move_of_step hstep
      exact ⟨places_step hmove h.1, numbered_step hmove h.2.1, (slots_step hmove).trans h.2.2.1, pending_step hmove h.2.2.2⟩)
    ⟨rfl, rfl, rfl, fun h => absurd rfl h⟩ hrun
  refine ⟨honce, hnumbered ▸ nodup_range, hsem, fun hslots hblocked => ⟨?_, fun hch => ?_⟩⟩
  · have hempty : s.pending = [] := by
      by_contra hne
      obtain ⟨htimer, hstopped⟩ := hpending hne
      have hexpire := hblocked .expire trivial
      simp [step, htimer, hstopped] at hexpire
    have hquiet : s.Quiet config := fun op hop _ => hblocked op hop
    rw [places, hempty, append_nil, hquiet.nothing_held hslots hsem, zero_add, Multiset.coe_add] at honce
    exact Multiset.coe_eq_coe.1 honce
  · by_contra hstopped
    obtain ⟨sub, rest, heq⟩ := exists_cons_of_ne_nil hch
    have hreceive := hblocked .receive trivial
    simp [step, heq, Bool.eq_false_of_not_eq_true hstopped] at hreceive

/-- A submission is in the channel when the dispatcher returns, and another with a goroutine that waits. -/
theorem submissions_accounted_two : ∃ s : Coalescer Int,
    Runs (fun (s : Coalescer Int) op => s.step oneSlot op) (fun _ _ => True) (new oneSlot) s ∧
    s.stopped = true ∧ s.coalesceCh.length = 1 ∧ s.places = ↑s.accepted := by
  have hrun : Runs (fun (s : Coalescer Int) op => s.step oneSlot op) (fun _ _ => True) (new oneSlot) _ :=
    runs_of_runOps [.submit [oneRow], .receive, .expire, .submit [oneRow], .stop, .notice] rfl
  exact ⟨_, hrun, rfl, rfl, (submissions_accounted hrun).1⟩

/-- A caller whose batch is answered before the predictor shuts down. -/
theorem one_result_each_one : ∃ s : Coalescer Int, s.results.length = 1 ∧
    Runs (fun (s : Coalescer Int) op => s.step oneSlot op) (fun s op => s.Orderly op ∧ s.Serves (some echo) op)
      (new oneSlot) s ∧
    (s.results.map (·.1.id)).Nodup ∧ (s.Quiet oneSlot → ∀ sub ∈ s.accepted, ∃! result, (sub, result) ∈ s.results) := by
  have hserves : (⟨false, [], [], 0, false, false, [.calling [⟨0, [oneRow]⟩]], 0, [], [⟨0, [oneRow]⟩], []⟩ :
      Coalescer Int).Serves (some echo) (.answered 0 (.ok [echo oneRow])) := by
    intro g hg batch hbatch
    cases hg
    cases hbatch
    rfl
  have hrun : Runs (fun (s : Coalescer Int) op => s.step oneSlot op)
      (fun s op => s.Orderly op ∧ s.Serves (some echo) op) (new oneSlot) _ :=
    .head ⟨.submit [oneRow], ⟨rfl, trivial⟩, rfl⟩ <| .head ⟨.receive, ⟨trivial, trivial⟩, rfl⟩ <|
    .head ⟨.expire, ⟨trivial, trivial⟩, rfl⟩ <| .head ⟨.acquire 0, ⟨trivial, trivial⟩, rfl⟩ <|
    .head ⟨.answered 0 (.ok [echo oneRow]), ⟨trivial, hserves⟩, rfl⟩ <| .head ⟨.send 0, ⟨trivial, trivial⟩, rfl⟩ <|
    .head ⟨.release 0, ⟨trivial, trivial⟩, rfl⟩ <| .head ⟨.stop, ⟨trivial, trivial⟩, rfl⟩ <|
    .single ⟨.notice, ⟨rfl, trivial⟩, rfl⟩
  have hall := one_result_each (by decide) hrun
  exact ⟨_, rfl, hrun, hall.1, hall.2.2.2.1⟩

end Coalescer

end InferenceGateway.Predictor
