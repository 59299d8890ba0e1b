import InferenceGateway.Lib.Runs
import InferenceGateway.Processor.Places
/-!
# Final states

Every finalization of an item goes through its `Once`, so an item gets one final
state and keeps it. Only the processor finalizes an item as dispatched, and only
after it has taken the item out of its queue; and an item that has left the
processor never comes back.
-/

namespace InferenceGateway.Processor

open Function

def Phase.job : Phase → Option Job
  | finalizing j _ => some j
  | _ => none

def RequestPhase.job : RequestPhase → Option Job
  | finalizing j _ => some j
  | _ => none

theorem Next.job_phase (n : Next) : n.phase.job = none := by
  cases n <;> rfl

theorem settle_job (fs : FinalState) (x : Nat) (w : Bool) : (settle fs x w).job = none := by
  unfold settle
  split <;> rfl

namespace System

variable {cap : Nat} {s s' : System}

/-- The finalization that a goroutine is in the middle of. -/
def job (s : System) : Thread → Option Job
  | .request i => (s.requests i).job
  | .processor => s.processor.job
  | .eviction x => s.evictions x

/-- Nothing has happened to the item that a finalization looks at. -/
structure SameFinal (it it' : FlowItem) : Prop where
  once : it'.onceFinalize = it.onceFinalize
  final : it'.finalState = it.finalState
  done : it'.done = it.done

theorem SameFinal.refl (it : FlowItem) : SameFinal it it := ⟨rfl, rfl, rfl⟩

/-- A finalization as dispatched is the processor's, on an item that has left it. -/
def Honest (s : System) (t : Thread) (j : Job) : Prop :=
  ∀ isQueued, (j.call.result isQueued).outcome = .dispatched → t = .processor ∧ s.Gone j.item

/-- What a step does to finalizations. -/
inductive JobMove (s s' : System) : Prop where
  /-- Finalizations may begin. -/
  | begin (hi : ∀ x, SameFinal (s.items x) (s'.items x))
      (hj : ∀ t j, s'.job t = some j → s.job t = some j ∨ (j.stage = .entering ∧ j.item < s'.next ∧ s'.Honest t j))
  /-- One of them takes a step. -/
  | run (t : Thread) (j : Job) (it : FlowItem) (o : Option Job) (hj : s.job t = some j)
      (hr : j.run t (s.items j.item) = some (it, o)) (hi : s'.items = update s.items j.item it)
      (ht : s'.job t = o) (ho : ∀ t', t' ≠ t → s'.job t' = s.job t')

variable {j : Job}

theorem honest_of_not_dispatched {t : Thread} (h : ∀ b, (j.call.result b).outcome ≠ .dispatched) :
    s.Honest t j := fun b hb => absurd hb (h b)

/-- No goroutine begins a finalization. -/
theorem JobMove.of_jobs (hi : ∀ x, SameFinal (s.items x) (s'.items x))
    (hr : ∀ i, s'.requests i = s.requests i ∨ (s'.requests i).job = none)
    (hp : s'.processor.job = s.processor.job ∨ s'.processor.job = none) (he : s'.evictions = s.evictions) :
    JobMove s s' := by
  refine .begin hi fun t j hj => .inl ?_
  cases t with
  | request i =>
    rcases hr i with h | h
    · rwa [job, h] at hj
    · rw [job, h] at hj; cases hj
  | processor =>
    rcases hp with h | h
    · rwa [job, h] at hj
    · rw [job, h] at hj; cases hj
  | eviction x => rwa [job, he] at hj

/-- A request begins one. -/
theorem JobMove.of_request {i : Nat} {p : RequestPhase} (hi : s'.items = s.items)
    (hr : s'.requests = update s.requests i p)
    (hj : ∀ j, p.job = some j → j.stage = .entering ∧ j.item < s'.next ∧
      ∀ b, (j.call.result b).outcome ≠ .dispatched)
    (hp : s'.processor.job = s.processor.job) (he : s'.evictions = s.evictions) : JobMove s s' := by
  refine .begin (fun x => by rw [hi]; exact .refl _) fun t j hjob => ?_
  cases t with
  | request k =>
    rw [job, hr] at hjob
    by_cases hk : k = i
    · subst hk
      rw [update_self] at hjob
      obtain ⟨h1, h2, h3⟩ := hj j hjob
      exact .inr ⟨h1, h2, honest_of_not_dispatched h3⟩
    · rw [update_of_ne hk] at hjob
      exact .inl hjob
  | processor => rw [job, hp] at hjob; exact .inl hjob
  | eviction x => rw [job, he] at hjob; exact .inl hjob

/-- The processor begins one. -/
theorem JobMove.of_processor {n : Next} (hi : s'.items = s.items) (hp : s'.processor = .finalizing j n)
    (hr : ∀ i, s'.requests i = s.requests i ∨ (s'.requests i).job = none) (he : s'.evictions = s.evictions)
    (hj : j.stage = .entering) (hn : j.item < s'.next) (hh : s'.Honest .processor j) : JobMove s s' := by
  refine .begin (fun x => by rw [hi]; exact .refl _) fun t k hk => ?_
  cases t with
  | request i =>
    rcases hr i with h | h
    · rw [job, h] at hk; exact .inl hk
    · rw [job, h] at hk; cases hk
  | processor =>
    rw [job, hp] at hk
    cases hk
    exact .inr ⟨hj, hn, hh⟩
  | eviction x => rw [job, he] at hk; exact .inl hk

theorem requests_update (i : Nat) (p : RequestPhase) (f : Nat → RequestPhase) (hp : p.job = none) (k : Nat) :
    update f i p k = f k ∨ (update f i p k).job = none := by
  by_cases hk : k = i
  · subst hk; rw [update_self]; exact .inr hp
  · rw [update_of_ne hk]; exact .inl rfl

/-- A request takes a step of its finalization. -/
theorem JobMove.run_request {i : Nat} {w : Bool} {it : FlowItem} {o : Option Job} {p : RequestPhase}
    (h : s.requests i = .finalizing j w) (hr : j.run (.request i) (s.items j.item) = some (it, o)) (hp : p.job = o) :
    JobMove s ((s.setItem j.item it).setRequest i p) := by
  refine .run (.request i) j it o (by rw [job, h]; rfl) hr rfl ?_ fun t' ht => ?_
  · simp [job, setRequest, hp]
  · cases t' with
    | request k =>
      have hk : k ≠ i := fun he => ht (by rw [he])
      simp [job, setRequest, setItem, hk]
    | processor | eviction x => rfl

/-- The processor takes a step of its own. -/
theorem JobMove.run_processor {n : Next} {it : FlowItem} {o : Option Job} {p : Phase} (h : s.processor = .finalizing j n)
    (hr : j.run .processor (s.items j.item) = some (it, o)) (hp : p.job = o) :
    JobMove s { s.setItem j.item it with processor := p } := by
  refine .run .processor j it o (by rw [job, h]; rfl) hr rfl hp fun t' ht => ?_
  cases t' with
  | request k | eviction x => rfl
  | processor => exact absurd rfl ht

theorem JobMove.run_eviction {x : Nat} {it : FlowItem} {o : Option Job} (h : s.evictions x = some j)
    (hr : j.run (.eviction x) (s.items j.item) = some (it, o)) :
    JobMove s { s.setItem j.item it with evictions := update s.evictions x o } := by
  refine .run (.eviction x) j it o h hr rfl (by simp [job]) fun t' ht => ?_
  cases t' with
  | request k | processor => rfl
  | eviction y =>
    have hy : y ≠ x := fun he => ht (by rw [he])
    simp [job, hy]

theorem Refusal.not_dispatched {call : FinalizeCall} (h : Refusal call) (b : Bool) :
    (call.result b).outcome ≠ .dispatched := by
  cases h with
  | noShards | notAccepted err => nofun
  | contextDone cause => exact inferOutcome_not_dispatched cause b

/-- Every step is of one of the two kinds. -/
theorem job_move (hpl : s.Placed) (hnew : SameFinal newItem (s.items s.next))
    (haw : ∀ i x, s.requests i = .awaiting x → x < s.next) (h : Step cap s s') : JobMove s s' := by
  have same : ∀ x, SameFinal (s.items x) (s.items x) := fun x => .refl _
  have sameReq : ∀ i, s.requests i = s.requests i ∨ (s.requests i).job = none := fun i => .inl rfl
  cases h with
  | cancelParent | cancelProcessor | sweep x hs hx hf | sweepEnds hd => exact .of_jobs same sameReq (.inl rfl) rfl
  | giveUp i h | check i x h | refused i x h | send i x h =>
    exact .of_jobs same (requests_update i _ _ rfl) (.inl rfl) rfl
  | create i h =>
    refine .of_jobs (fun x => ?_) (requests_update i _ _ rfl) (.inl rfl) rfl
    by_cases hx : x = s.next
    · subst hx
      simp only [setItem, setRequest, update_self]
      exact ⟨hnew.once.symm, hnew.final.symm, hnew.done.symm⟩
    · simp only [setItem, setRequest, update_of_ne hx]
      exact .refl _
  | distributionFails i x call hc h =>
    refine .of_request rfl rfl (fun j hj => ?_) rfl rfl
    cases hj
    exact ⟨rfl, (hpl.pending i x (by rw [pending, h]; rfl)).1, Refusal.not_dispatched hc⟩
  | handOver i x h hc hp => exact .of_jobs same (requests_update i _ _ rfl) (.inr rfl) rfl
  | handOverDraining i x h hc hp =>
    exact .of_processor rfl rfl (requests_update i _ _ rfl) rfl rfl
      (hpl.pending i x (by rw [pending, h]; rfl)).1 (honest_of_not_dispatched fun _ he => by cases he)
  | expire i x cause h =>
    refine .of_request rfl rfl (fun j hj => ?_) rfl rfl
    cases hj
    exact ⟨rfl, haw i x h, inferOutcome_not_dispatched cause⟩
  | receive i x fs h hd | load i x w fs h hf =>
    exact .of_jobs same (requests_update i _ _ (settle_job _ _ _)) (.inl rfl) rfl
  | requestRuns i j j' w it h hr | requestRan i j w it h hr => exact .run_request h hr rfl
  | reject x fs hr h =>
    refine .of_processor rfl rfl sameReq rfl rfl (hpl.below x (by simp [held, h, Phase.hand]))
      (honest_of_not_dispatched fun b he => ?_)
    cases hr <;> cases he
  | add x h =>
    refine .of_jobs (fun y => ?_) sameReq (.inr rfl) rfl
    by_cases hy : y = x
    · subst hy
      simp only [setItem, update_self]
      exact ⟨rfl, rfl, rfl⟩
    · simp only [setItem, update_of_ne hy]
      exact .refl _
  | remove x h hx =>
    -- the one finalization as dispatched: the item has just left its queue
    refine .of_processor rfl rfl sameReq rfl rfl (hpl.below x (by simp [held, hx]))
      fun _ _ => ⟨rfl, hpl.gone_of_leave rfl rfl ?_⟩
    simp only [held, h, Phase.hand]
    exact held_erase hx _ _
  | processorRuns j j' next it h hr => exact .run_processor h hr rfl
  | processorRan j next it h hr => exact .run_processor h hr (Next.job_phase next)
  | drain x rest h hc =>
    exact .of_processor rfl rfl sameReq rfl rfl (hpl.below x (by simp [held, hc]))
      (honest_of_not_dispatched fun _ he => by cases he)
  | evict x h hx =>
    refine .begin same fun t j hj => ?_
    cases t with
    | request k | processor => exact .inl hj
    | eviction y =>
      by_cases hy : y = x
      · subst hy
        simp only [job, update_self] at hj
        cases hj
        exact .inr ⟨rfl, hpl.below y (by simp [held, hx]), honest_of_not_dispatched fun _ he => by cases he⟩
      · simp only [job, update_of_ne hy] at hj
        exact .inl hj
  | evictionRuns x j j' it h hr | evictionRan x j it h hr => exact .run_eviction h hr
  | _ => exact .of_jobs same sameReq (.inr rfl) rfl

end System

end InferenceGateway.Processor
