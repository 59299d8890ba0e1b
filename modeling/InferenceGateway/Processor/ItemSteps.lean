import InferenceGateway.Processor.Outcomes
/-!
# What a step does to one item

For an item that is followed through a run: how its fields change, how it leaves the
queues, when it comes up for admission, and why a finalization of it begins.
-/

namespace InferenceGateway.Processor

open List Function

def QueueOutcome.Rejected : QueueOutcome → Prop
  | rejectedCapacity => True
  | rejectedOther => True
  | _ => False

namespace System

variable {cap : Nat} {s s' : System}

/-- The step is the one of `enqueue` that admits an item. -/
def Adds (s s' : System) : Prop :=
  ∃ x, s.processor = .admitting x ∧ s' = { s.setItem x { s.items x with handle := true } with
    queued := s.queued ++ [x], processor := .dispatching }

/-- What a step does to one item, other than admitting it. -/
inductive ItemMove (s s' : System) (x : Nat) : Prop where
  | same (h : s'.items x = s.items x)
  | create (hx : x = s.next) (h : s'.items x = newItem)
  | run (t : Thread) (j : Job) (it : FlowItem) (o : Option Job) (hj : s.job t = some j) (hx : j.item = x)
      (hr : j.run t (s.items x) = some (it, o)) (h : s'.items x = it) (ho : s'.job t = o)

variable {t : Thread} {j : Job}

theorem itemMove_of_run {it : FlowItem} {o : Option Job} (hj : s.job t = some j)
    (hr : j.run t (s.items j.item) = some (it, o)) (hi : s'.items = update s.items j.item it)
    (ho : s'.job t = o) (x : Nat) : ItemMove s s' x := by
  by_cases hx : j.item = x
  · subst hx
    exact .run t j it o hj rfl hr (by rw [hi, update_self]) ho
  · exact .same (by rw [hi, update_of_ne (Ne.symm hx)])

theorem item_move (h : Step cap s s') (hadd : ¬ Adds s s') (x : Nat) : ItemMove s s' x := by
  cases h with
  | create i h hp =>
    by_cases hx : x = s.next
    · exact .create hx (by rw [hx]; exact update_self ..)
    · exact .same (update_of_ne hx _ _)
  | add y h => exact absurd ⟨y, h, rfl⟩ hadd
  | requestRuns i j j' w it h hr | requestRan i j w it h hr =>
    exact itemMove_of_run (t := .request i) (by rw [job, h]; rfl) hr rfl (by simp [job, setRequest]; rfl) x
  | processorRuns j j' next it h hr => exact itemMove_of_run (t := .processor) (by rw [job, h]; rfl) hr rfl rfl x
  | processorRan j next it h hr =>
    refine itemMove_of_run (t := .processor) (by rw [job, h]; rfl) hr rfl ?_ x
    exact Next.job_phase next
  | evictionRuns y j j' it h hr | evictionRan y j it h hr =>
    exact itemMove_of_run (t := .eviction y) h hr rfl (by simp [job]) x
  | _ => exact .same rfl

/-- Items leave their queues one at a time, and are gone then. -/
theorem queued_move (hpl : s.Placed) (h : Step cap s s') (hadd : ¬ Adds s s') :
    s'.queued = s.queued ∨ ∃ x, s'.queued = s.queued.erase x ∧ s'.Gone x := by
  cases h with
  | add y h => exact absurd ⟨y, h, rfl⟩ hadd
  | remove y h hy =>
    refine .inr ⟨y, rfl, hpl.gone_of_leave rfl rfl ?_⟩
    simp only [held, h, Phase.hand]
    exact held_erase hy _ _
  | evict y h hy | sweep y hs hy hf => exact .inr ⟨y, rfl, hpl.gone_of_leave rfl rfl (held_erase hy _ _)⟩
  | _ => exact .inl rfl

variable {x : Nat}

/-- An item comes up for admission when it is seen not to be finalized. -/
theorem admitting_of_step (h : Step cap s s') (hx : s'.processor = .admitting x) :
    s.processor = .admitting x ∨ s.processor = .enqueue x ∧ (s.items x).finalState = none := by
  cases h with
  | look y h hf => cases hx; exact .inr ⟨h, hf⟩
  | processorRan j next it h hr => cases next <;> cases hx
  | _ => first | exact .inl hx | cases hx

/-- Why a goroutine begins a finalization of the item. -/
inductive Begins (s s' : System) (x : Nat) : Thread → FinalizeCall → Prop where
  | finalize (i : Nat) (cause : Err) (hx : x < s'.next) : Begins s s' x (.request i) (.finalize cause)
  /-- The item was on its way to a queue, and is with nobody who could still put it there. -/
  | rejects (t : Thread) (fs : FinalState) (hr : fs.outcome.Rejected) (hq : x ∉ s.queued) (hs : ¬ s.Gone x)
      (hg : s'.Gone x) : Begins s s' x t (.finalizeWithOutcome fs)
  | takes (t : Thread) (fs : FinalState) (hr : ¬ fs.outcome.Rejected) (hx : x < s'.next) (hq : x ∈ s.queued) :
      Begins s s' x t (.finalizeWithOutcome fs)

/-- The goroutine was in the middle of the call already, or begins it. -/
def Continues (s s' : System) (t : Thread) (j : Job) : Prop :=
  (∃ k, s.job t = some k ∧ k.item = j.item ∧ k.call = j.call) ∨ Begins s s' j.item t j.call

theorem Continues.of_jobs (hj : s'.job t = some j)
    (hr : ∀ i, s'.requests i = s.requests i ∨ ∀ k, (s'.requests i).job = some k → Continues s s' (.request i) k)
    (hp : s'.processor = s.processor ∨ ∀ k, s'.processor.job = some k → Continues s s' .processor k)
    (he : ∀ x, s'.evictions x = s.evictions x ∨ ∀ k, s'.evictions x = some k → Continues s s' (.eviction x) k) :
    Continues s s' t j := by
  cases t with
  | request i =>
    rcases hr i with h | h
    · rw [job, h] at hj
      exact .inl ⟨j, hj, rfl, rfl⟩
    · exact h j hj
  | processor =>
    rcases hp with h | h
    · rw [job, h] at hj
      exact .inl ⟨j, hj, rfl, rfl⟩
    · exact h j hj
  | eviction x =>
    rcases he x with h | h
    · rw [job, h] at hj
      exact .inl ⟨j, hj, rfl, rfl⟩
    · exact h j hj

variable {i : Nat}

theorem request_continues {p : RequestPhase} (hr : s'.requests = update s.requests i p)
    (h : ∀ j, p.job = some j → Continues s s' (.request i) j) (k : Nat) :
    s'.requests k = s.requests k ∨ ∀ j, (s'.requests k).job = some j → Continues s s' (.request k) j := by
  by_cases hk : k = i
  · subst hk
    rw [hr, update_self]
    exact .inr h
  · rw [hr, update_of_ne hk]
    exact .inl rfl

theorem eviction_continues {o : Option Job} (he : s'.evictions = update s.evictions x o)
    (h : ∀ j, o = some j → Continues s s' (.eviction x) j) (y : Nat) :
    s'.evictions y = s.evictions y ∨ ∀ j, s'.evictions y = some j → Continues s s' (.eviction y) j := by
  by_cases hy : y = x
  · subst hy
    rw [he, update_self]
    exact .inr h
  · rw [he, update_of_ne hy]
    exact .inl rfl

/-- A step of a call leaves it the same call. -/
theorem run_same {j' : Job} {it it' : FlowItem} (h : j.run t it = some (it', some j')) :
    j.item = j'.item ∧ j.call = j'.call := by
  unfold Job.run at h
  split at h
  · split at h <;> cases h
    exact ⟨rfl, rfl⟩
  · cases h; exact ⟨rfl, rfl⟩
  · cases h

/-- The request gives its item up. -/
theorem Placed.gone_of_pending (h : s.Placed) (hx : s.pending i = some x) (hn : s'.next = s.next)
    (hh : s'.held = s.held) (hi : s'.pending i = none) (hp : ∀ k, k ≠ i → s'.pending k = s.pending k) :
    x ∉ s.queued ∧ ¬ s.Gone x ∧ s'.Gone x := by
  obtain ⟨hlt, hheld⟩ := h.pending i x hx
  refine ⟨fun hq => hheld (mem_append_right _ hq), fun hg => hg.notPending i hx, hn ▸ hlt, hh ▸ hheld, ?_⟩
  intro k hk
  by_cases hki : k = i
  · rw [hki, hi] at hk
    cases hk
  · rw [hp k hki] at hk
    exact hki (h.inj k i x hk hx)

/-- The processor lets an item go that is in no queue. -/
theorem Placed.gone_of_held (h : s.Placed) (hx : x ∈ s.enqueueChan ++ s.processor.hand) (hn : s'.next = s.next)
    (hr : s'.requests = s.requests) (hh : s.held.Perm (x :: s'.held)) : x ∉ s.queued ∧ ¬ s.Gone x ∧ s'.Gone x := by
  refine ⟨fun hq => ?_, fun hg => hg.notHeld (mem_append_left _ hx), h.gone_of_leave hn hr hh⟩
  exact (nodup_append.1 h.nodup).2.2 x hx x hq rfl

theorem pending_setRequest {p : RequestPhase} {k : Nat} (hr : s'.requests = update s.requests i p) (hk : k ≠ i) :
    s'.pending k = s.pending k := by
  rw [pending, pending, hr, update_of_ne hk]

theorem Rejection.rejected {fs : FinalState} (h : Rejection fs) : fs.outcome.Rejected := by
  cases h <;> trivial

theorem Begins.rejected {fs : FinalState} (hr : fs.outcome.Rejected) (hg : x ∉ s.queued ∧ ¬ s.Gone x ∧ s'.Gone x) :
    Begins s s' x t (.finalizeWithOutcome fs) :=
  .rejects t fs hr hg.1 hg.2.1 hg.2.2

theorem Refusal.begins {call : FinalizeCall} (h : Refusal call) (hg : x ∉ s.queued ∧ ¬ s.Gone x ∧ s'.Gone x) (i : Nat) :
    Begins s s' x (.request i) call := by
  cases h with
  | noShards | notAccepted err => exact .rejected trivial hg
  | contextDone cause => exact .finalize i cause hg.2.2.allocated

/-- Every finalization in progress has begun for one of the reasons. -/
theorem job_continues (hpl : s.Placed) (haw : ∀ i x, s.requests i = .awaiting x → x < s.next) (h : Step cap s s')
    (hj : s'.job t = some j) : Continues s s' t j := by
  have hnone : ∀ {i : Nat} {p : RequestPhase}, p.job = none → ∀ k, p.job = some k → Continues s s' (.request i) k :=
    fun hp k hk => by rw [hp] at hk; cases hk
  cases h with
  | giveUp i h | create i h | check i x h | refused i x h | send i x h | requestRan i k w it h hr =>
    exact .of_jobs hj (request_continues rfl (hnone rfl)) (.inl rfl) fun _ => .inl rfl
  | distributionFails i x call hc h =>
    refine .of_jobs hj (request_continues rfl fun k hk => ?_) (.inl rfl) fun _ => .inl rfl
    cases hk
    refine .inr (Refusal.begins hc ?_ i)
    exact hpl.gone_of_pending (i := i) (by rw [pending, h]; rfl) rfl rfl
      (by simp [pending, setRequest]; rfl) fun k => pending_setRequest rfl
  | handOver i x h hc hp => exact .of_jobs hj (request_continues rfl (hnone rfl)) (.inr fun _ hk => by cases hk) fun _ => .inl rfl
  | handOverDraining i x h hc hp =>
    refine .of_jobs hj (request_continues rfl (hnone rfl)) (.inr fun k hk => ?_) fun _ => .inl rfl
    cases hk
    refine .inr (.rejected trivial ?_)
    exact hpl.gone_of_pending (i := i) (by rw [pending, h]; rfl) rfl (by simp [held, accept, setRequest, Phase.hand, hp])
      (by simp [pending, accept, setRequest]; rfl) fun k => pending_setRequest rfl
  | expire i x cause h =>
    refine .of_jobs hj (request_continues rfl fun k hk => ?_) (.inl rfl) fun _ => .inl rfl
    cases hk
    exact .inr (.finalize i cause (haw i x h))
  | receive i x fs h hd | load i x w fs h hf =>
    exact .of_jobs hj (request_continues rfl (hnone (settle_job _ _ _))) (.inl rfl) fun _ => .inl rfl
  | requestRuns i k k' w it h hr =>
    refine .of_jobs hj (request_continues rfl fun l hl => ?_) (.inl rfl) fun _ => .inl rfl
    cases hl
    exact .inl ⟨k, by rw [job, h]; rfl, run_same hr⟩
  | reject x fs hr h =>
    refine .of_jobs hj (fun _ => .inl rfl) (.inr fun k hk => ?_) fun _ => .inl rfl
    cases hk
    refine .inr (.rejected (Rejection.rejected hr) (hpl.gone_of_held (by simp [h, Phase.hand, Job.start]) rfl rfl ?_))
    simp only [held, h, Phase.hand, append_nil, append_assoc]
    exact perm_middle
  | remove x h hx =>
    refine .of_jobs hj (fun _ => .inl rfl) (.inr fun k hk => ?_) fun _ => .inl rfl
    cases hk
    exact .inr (.takes _ _ (fun hr => by cases hr) (hpl.below x (mem_append_right _ hx)) hx)
  | processorRuns k k' next it h hr =>
    refine .of_jobs hj (fun _ => .inl rfl) (.inr fun l hl => ?_) fun _ => .inl rfl
    cases hl
    exact .inl ⟨k, by rw [job, h]; rfl, run_same hr⟩
  | processorRan k next it h hr =>
    refine .of_jobs hj (fun _ => .inl rfl) (.inr fun l hl => ?_) fun _ => .inl rfl
    rw [Next.job_phase] at hl
    cases hl
  | drain x rest h hc =>
    refine .of_jobs hj (fun _ => .inl rfl) (.inr fun k hk => ?_) fun _ => .inl rfl
    cases hk
    refine .inr (.rejected trivial (hpl.gone_of_held (by simp [hc, Job.start]) rfl rfl ?_))
    simp only [held, h, hc, Phase.hand]
    exact .refl _
  | evict x h hx =>
    refine .of_jobs hj (fun _ => .inl rfl) (.inl rfl) (eviction_continues rfl fun k hk => ?_)
    cases hk
    exact .inr (.takes _ _ (fun hr => by cases hr) (hpl.below x (mem_append_right _ hx)) hx)
  | evictionRuns x k k' it h hr =>
    refine .of_jobs hj (fun _ => .inl rfl) (.inl rfl) (eviction_continues rfl fun l hl => ?_)
    cases hl
    exact .inl ⟨k, h, run_same hr⟩
  | evictionRan x k it h hr => exact .of_jobs hj (fun _ => .inl rfl) (.inl rfl) (eviction_continues rfl (by simp))
  | cancelParent | cancelProcessor | sweep x hs hx hf | sweepEnds hd =>
    exact .of_jobs hj (fun _ => .inl rfl) (.inl rfl) fun _ => .inl rfl
  | _ => exact .of_jobs hj (fun _ => .inl rfl) (.inr fun _ hk => by cases hk) fun _ => .inl rfl

end System

end InferenceGateway.Processor
