import InferenceGateway.Processor.Outcomes
/-!
# What a dispatch cycle has done when it returns

A cycle is the part of a run from where the processor begins to look for an item to
where it is back at its loop, with the steps of every other goroutine in between. A
cycle that found nothing returns false. One that selected an item returns true: also
when the sweep took the item away before it was removed, and when its request had
finalized it already.
-/

namespace InferenceGateway.Processor

open Function

namespace System

variable {cap : Nat} {s₀ s s' : System}

/-- The item is finalized as dispatched. -/
def Dispatched (s : System) (x : Nat) : Prop := ∃ fs, (s.items x).finalState = some fs ∧ fs.outcome = .dispatched

/-- The states of a cycle that begins in `s₀`, each of which meets `P`. -/
inductive Cycle (cap : Nat) (P : System → Prop) (s₀ : System) : System → Prop where
  | begin (h : s₀.processor = .dispatching) (hP : P s₀) : Cycle cap P s₀ s₀
  | step {s s' : System} (h : Cycle cap P s₀ s) (hst : Step cap s s') (hin : s'.processor ≠ .loop) (hP : P s') :
      Cycle cap P s₀ s'

/-- The end of a cycle, with what `dispatchCycle` returns: false if no item was selected. -/
inductive CycleReturns (cap : Nat) (P : System → Prop) (s₀ : System) : System → Bool → Prop where
  | nothing {s s' : System} (h : Cycle cap P s₀ s) (hp : s.processor = .dispatching) (hst : Step cap s s')
      (hl : s'.processor = .loop) : CycleReturns cap P s₀ s' false
  | selected {s s' : System} (h : Cycle cap P s₀ s) (hp : s.processor ≠ .dispatching) (hst : Step cap s s')
      (hl : s'.processor = .loop) : CycleReturns cap P s₀ s' true

/-- The item that is about to be removed is still in its queue, and nobody has begun to finalize the item that the
processor is about to finalize. -/
def Undisturbed (s : System) : Prop :=
  (∀ x, s.processor = .removing x → x ∈ s.queued) ∧
    ∀ j, s.processor = .finalizing j .loop → j.stage = .entering → (s.items j.item).onceFinalize = .fresh

/-! ## The steps of a cycle -/

/-- Where the processor is in a cycle. -/
inductive InCycle : Phase → Prop where
  | dispatching : InCycle .dispatching
  | removing (x : Nat) : InCycle (.removing x)
  | finalizing (j : Job) : InCycle (.finalizing j .loop)

/-- What a step does to the processor in a cycle. -/
inductive CycleMove (s s' : System) : Prop where
  | same (hp : s'.processor = s.processor)
  | select (x : Nat) (hp : s.processor = .dispatching) (hp' : s'.processor = .removing x) (hi : s'.items = s.items)
  | ends (hp : s.processor = .dispatching) (hp' : s'.processor = .loop) (hi : s'.items = s.items)
  | remove (x : Nat) (hp : s.processor = .removing x) (hp' : s'.processor = .finalizing (.start x dispatchCall) .loop)
      (hi : s'.items = s.items)
  | removeFails (x : Nat) (hp : s.processor = .removing x) (hx : x ∉ s.queued) (hp' : s'.processor = .loop)
      (hi : s'.items = s.items)
  | runs (j j' : Job) (it : FlowItem) (hp : s.processor = .finalizing j .loop) (hp' : s'.processor = .finalizing j' .loop)
      (hr : j.run .processor (s.items j.item) = some (it, some j')) (hi : s'.items = update s.items j.item it)
  | ran (j : Job) (it : FlowItem) (hp : s.processor = .finalizing j .loop) (hp' : s'.processor = .loop)
      (hr : j.run .processor (s.items j.item) = some (it, none)) (hi : s'.items = update s.items j.item it)

theorem cycle_move (h : Step cap s s') (hin : InCycle s.processor) : CycleMove s s' := by
  cases h with
  | select x hp hx => exact .select x hp rfl rfl
  | cycleEnds hp => exact .ends hp rfl rfl
  | remove x hp hx => exact .remove x hp rfl rfl
  | removeFails x hp hx => exact .removeFails x hp hx rfl rfl
  | processorRuns j j' next it hp hr =>
    rw [hp] at hin
    cases hin
    exact .runs j j' it hp rfl hr rfl
  | processorRan j next it hp hr =>
    rw [hp] at hin
    cases hin
    exact .ran j it hp rfl hr rfl
  | handOver i x h hc hp | handOverDraining i x h hc hp | take x rest hp hc | tick hp | stop hp hd | discard x hp hf
  | look x hp hf | reject x fs hr hp | add x hp | setFlag hp | drain x rest hp hc | drained hp hc | evict x hp hx
  | evicted hp hq he | «return» hp hs => rw [hp] at hin; cases hin
  | _ => exact .same rfl

/-- An item is finalized as dispatched by the processor alone, when it is inside the finalization. -/
theorem Settled.newly_dispatched (h : s.Settled) (hst : Step cap s s') {x : Nat} (hd : s'.Dispatched x) :
    s.Dispatched x ∨ ∃ j, s.processor.job = some j ∧ j.item = x ∧ j.stage = .inside ∧ s'.job .processor ≠ some j := by
  obtain ⟨fs, hf, hout⟩ := hd
  cases job_move h.placed (h.unallocated _ le_rfl) h.awaiting hst with
  | begin hi hj =>
    rw [(hi x).final] at hf
    exact .inl ⟨fs, hf, hout⟩
  | run t j it o hj hr hi ht ho =>
    obtain ⟨-, hcon, hhon⟩ := h.jobs t j hj
    by_cases hx : x = j.item
    · subst hx
      rw [hi, update_self] at hf
      rcases (Job.run_finalState hcon hr).2 fs hf with hold | ⟨hin, rfl⟩
      · exact .inl ⟨fs, hold, hout⟩
      · obtain ⟨rfl, -⟩ := hhon _ hout
        refine .inr ⟨j, hj, rfl, hin, fun hsame => ?_⟩
        rw [ht] at hsame
        subst hsame
        simp only [Job.run, hin, Option.some.injEq, Prod.mk.injEq] at hr
        have hstage := congrArg Job.stage hr.2
        rw [hin] at hstage
        cases hstage
    · rw [hi, update_of_ne hx] at hf
      exact .inl ⟨fs, hf, hout⟩

/-! ## The invariant of a cycle -/

/-- Nothing was dispatched since `s₀`. -/
def NoneSince (s₀ s : System) : Prop := ∀ x, s.Dispatched x → s₀.Dispatched x

inductive CycleState (s₀ s : System) : Prop where
  | dispatching (h : s.processor = .dispatching) (hn : NoneSince s₀ s)
  | removing (x : Nat) (h : s.processor = .removing x) (hn : NoneSince s₀ s)
  | finalizing (j : Job) (h : s.processor = .finalizing j .loop) (hc : j.call = dispatchCall)
      (hst : j.stage = .entering ∨ j.stage = .inside) (hn : NoneSince s₀ s)
  /-- The item was not finalized before, and is now. -/
  | stored (j : Job) (h : s.processor = .finalizing j .loop) (hst : j.stage = .stored ⟨.dispatched, []⟩)
      (hfree : (s₀.items j.item).finalState = none) (honly : ∀ x, s.Dispatched x → s₀.Dispatched x ∨ x = j.item)

theorem CycleState.inCycle (h : CycleState s₀ s) : InCycle s.processor := by
  cases h with
  | dispatching h => rw [h]; exact .dispatching
  | removing x h => rw [h]; exact .removing x
  | finalizing j h | stored j h => rw [h]; exact .finalizing j

theorem noneSince_of_items (h : NoneSince s₀ s) (hi : s'.items = s.items) : NoneSince s₀ s' := by
  intro x hx
  unfold Dispatched at hx
  rw [hi] at hx
  exact h x hx

/-- Steps of the other goroutines dispatch nothing. -/
theorem Settled.others_dispatch_nothing (h : s.Settled) (hst : Step cap s s') (hp : s'.processor = s.processor) {x : Nat}
    (hd : s'.Dispatched x) : s.Dispatched x := by
  rcases h.newly_dispatched hst hd with hold | ⟨j, hj, -, -, hne⟩
  · exact hold
  · exact absurd (by rw [job, hp]; exact hj) hne

theorem CycleState.step (hc : CycleState s₀ s) (h : s.Settled)
    (hkeep : ∀ x fs, (s₀.items x).finalState = some fs → (s.items x).finalState = some fs) (hst : Step cap s s')
    (hin : s'.processor ≠ .loop) : CycleState s₀ s' := by
  cases cycle_move hst hc.inCycle with
  | same hp =>
    have hothers : ∀ x, s'.Dispatched x → s.Dispatched x := fun x => h.others_dispatch_nothing hst hp
    cases hc with
    | dispatching hp₀ hn => exact .dispatching (hp.trans hp₀) fun x hx => hn x (hothers x hx)
    | removing y hp₀ hn => exact .removing y (hp.trans hp₀) fun x hx => hn x (hothers x hx)
    | finalizing j hp₀ hcall hstage hn => exact .finalizing j (hp.trans hp₀) hcall hstage fun x hx => hn x (hothers x hx)
    | stored j hp₀ hstage hfree honly => exact .stored j (hp.trans hp₀) hstage hfree fun x hx => honly x (hothers x hx)
  | select x hp hp' hi =>
    cases hc with
    | dispatching hp₀ hn => exact .removing x hp' (noneSince_of_items hn hi)
    | removing y hp₀ hn | finalizing j hp₀ | stored j hp₀ => rw [hp] at hp₀; cases hp₀
  | remove x hp hp' hi =>
    cases hc with
    | dispatching hp₀ hn | finalizing j hp₀ | stored j hp₀ => rw [hp] at hp₀; cases hp₀
    | removing y hp₀ hn => exact .finalizing _ hp' rfl (.inl rfl) (noneSince_of_items hn hi)
  | runs j j' it hp hp' hr hi =>
    obtain ⟨-, hcon, -⟩ := h.jobs .processor j (by rw [job, hp]; rfl)
    cases hc with
    | dispatching hp₀ | removing y hp₀ => rw [hp] at hp₀; cases hp₀
    | stored k hp₀ hstage =>
      rw [hp] at hp₀
      cases hp₀
      rw [Job.run, hstage] at hr
      cases hr
    | finalizing k hp₀ hcall hstage hn =>
      rw [hp] at hp₀
      cases hp₀
      rcases hstage with hstage | hstage
      · -- getting through the `Once` leaves the final states alone
        have hnew : NoneSince s₀ s' := by
          intro x hx
          rcases h.newly_dispatched hst hx with hold | ⟨k, hk, -, hinside, -⟩
          · exact hn x hold
          · rw [hp] at hk
            cases hk
            rw [hstage] at hinside
            cases hinside
        simp only [Job.run, hstage] at hr
        split at hr
        · cases hr
          exact .finalizing _ hp' hcall (.inr rfl) hnew
        · cases hr
        · cases hr
      · rw [Job.Consistent, hstage] at hcon
        have honly : ∀ x, s'.Dispatched x → s₀.Dispatched x ∨ x = j.item := by
          intro x hx
          rcases h.newly_dispatched hst hx with hold | ⟨k, hk, hkx, -, -⟩
          · exact .inl (hn x hold)
          · rw [hp] at hk
            cases hk
            exact .inr hkx.symm
        have hfree : (s₀.items j.item).finalState = none := by
          cases hf : (s₀.items j.item).finalState with
          | none => rfl
          | some fs =>
            have hnone := hcon.2.1
            rw [hkeep _ fs hf] at hnone
            cases hnone
        rw [Job.run, hstage, hcall] at hr
        cases hr
        exact .stored _ hp' rfl hfree honly
  | ends hp hp' | removeFails x hp hx hp' | ran j it hp hp' => exact absurd hp' hin

/-- The invariant holds in every state of a cycle. -/
theorem Settled.cycle (h : s₀.Settled) {P : System → Prop} (hc : Cycle cap P s₀ s) :
    s.Settled ∧ CycleState s₀ s ∧ P s ∧ ∀ x fs, (s₀.items x).finalState = some fs → (s.items x).finalState = some fs := by
  induction hc with
  | begin hp hP => exact ⟨h, .dispatching hp fun _ hx => hx, hP, fun _ _ hf => hf⟩
  | step _ hst hin hP ih =>
    obtain ⟨hset, hstate, -, hkeep⟩ := ih
    obtain ⟨hset', hkeep'⟩ := hset.step hst
    exact ⟨hset', hstate.step hset hkeep hst hin, hP, fun x fs hf => hkeep' x fs (hkeep x fs hf)⟩

theorem Settled.returns (h : s₀.Settled) {P : System → Prop} {b : Bool} (hr : CycleReturns cap P s₀ s b) : s.Settled := by
  cases hr with
  | nothing hcyc _ hst | selected hcyc _ hst => exact ((h.cycle hcyc).1.step hst).1

/-! ## Returns -/

/-- In every run: a cycle that returns true, in which nobody takes away or finalizes the selected item before the
processor does, has finalized exactly one item as dispatched, one that was not finalized before, and has signalled it
to the item's request; a cycle that returns false has dispatched nothing. -/
theorem cycle_returns_dispatched (cap : Nat) (s₀ s₁ : System) (hrun : Run cap init s₀) :
    (CycleReturns cap Undisturbed s₀ s₁ true → ∃ x, (s₀.items x).finalState = none ∧
      (s₁.items x).finalState = some ⟨.dispatched, []⟩ ∧ (s₁.items x).done = some ⟨.dispatched, []⟩ ∧
      ∀ y, s₁.Dispatched y → s₀.Dispatched y ∨ y = x) ∧
    (CycleReturns cap (fun _ => True) s₀ s₁ false → ∀ y, s₁.Dispatched y → s₀.Dispatched y) := by
  have hset₀ := (init_settled.run hrun).1
  constructor
  · intro hret
    cases hret with
    | @selected s _ hcyc hne hst hl =>
      obtain ⟨hset, hstate, ⟨hqueued, hfresh⟩, -⟩ := hset₀.cycle hcyc
      cases cycle_move hst hstate.inCycle with
      | same hp =>
        have hin := hstate.inCycle
        rw [← hp, hl] at hin
        cases hin
      | select x hp | ends hp => exact absurd hp hne
      | remove x hp hp' | runs j j' it hp hp' => rw [hl] at hp'; cases hp'
      | removeFails x hp hx => exact absurd (hqueued x hp) hx
      | ran j it hp hp' hr hi =>
        obtain ⟨-, hcon, -⟩ := hset.jobs .processor j (by rw [job, hp]; rfl)
        cases hstate with
        | dispatching hp₀ => exact absurd hp₀ hne
        | removing y hp₀ => rw [hp] at hp₀; cases hp₀
        | finalizing k hp₀ hcall hstage =>
          rw [hp] at hp₀
          cases hp₀
          rcases hstage with hstage | hstage
          · rw [Job.run, hstage] at hr
            simp only [hfresh j hp hstage] at hr
            cases hr
          · rw [Job.run, hstage] at hr
            cases hr
        | stored k hp₀ hstage hfree honly =>
          rw [hp] at hp₀
          cases hp₀
          rw [Job.Consistent, hstage] at hcon
          rw [Job.run, hstage] at hr
          cases hr
          have hitem : s₁.items j.item = { s.items j.item with done := some ⟨.dispatched, []⟩, onceFinalize := .done } := by
            rw [hi, update_self]
          refine ⟨j.item, hfree, by rw [hitem]; exact hcon.2, by rw [hitem], fun y hy => ?_⟩
          -- the signal changes no final state
          rcases hset.newly_dispatched hst hy with hold | ⟨k, hk, -, hinside, -⟩
          · exact honly y hold
          · rw [hp] at hk
            cases hk
            rw [hstage] at hinside
            cases hinside
  · intro hret
    cases hret with
    | @nothing s _ hcyc hp hst hl =>
      obtain ⟨hset, hstate, -⟩ := hset₀.cycle hcyc
      intro y hy
      rcases hset.newly_dispatched hst hy with hold | ⟨k, hk, -⟩
      · cases hstate with
        | dispatching _ hn => exact hn y hold
        | removing z hp₀ | finalizing j hp₀ | stored j hp₀ => rw [hp] at hp₀; cases hp₀
      · rw [hp] at hk
        cases hk

/-- One item in a queue, its request waiting, and the processor about to look for an item. -/
def oneQueued : System :=
  { init with
    items := update (update init.items 0 newItem) 0 { newItem with handle := true }
    next := 1
    queued := [0]
    processor := .dispatching
    requests := update (update (update init.requests 0 (.distributing 0)) 0 (.sending 0)) 0
      (.awaiting 0)
    accepted := [0] }

theorem oneQueued_run : Run 1 init oneQueued := by
  have checked := ((Relation.ReflTransGen.refl : Run 1 init init).tail (.create 0 rfl rfl)).tail (.check 0 0 rfl rfl)
  have submitted := checked.tail (.handOver 0 0 rfl rfl rfl)
  exact (submitted.tail (.look 0 rfl rfl)).tail (.add 0 rfl)

theorem cycle_returns_dispatched_one : ∃ s₁, CycleReturns 1 Undisturbed oneQueued s₁ true ∧
    ∃ x, (oneQueued.items x).finalState = none ∧ (s₁.items x).done = some ⟨.dispatched, []⟩ := by
  have looking : Cycle 1 Undisturbed oneQueued oneQueued := .begin rfl ⟨nofun, nofun⟩
  have selected := looking.step (.select 0 rfl (by decide)) nofun ⟨fun x h => by cases h; decide, nofun⟩
  have removed := selected.step (.remove 0 rfl (by decide)) nofun ⟨nofun, fun j h _ => by cases h; rfl⟩
  have entered := removed.step (.processorRuns _ _ _ _ rfl rfl) nofun ⟨nofun, fun j h hs => by cases h; cases hs⟩
  have stored := entered.step (.processorRuns _ _ _ _ rfl rfl) nofun ⟨nofun, fun j h hs => by cases h; cases hs⟩
  have returned := CycleReturns.selected stored nofun (.processorRan _ _ _ rfl rfl) rfl
  obtain ⟨x, hnone, -, hdone, -⟩ := (cycle_returns_dispatched 1 oneQueued _ oneQueued_run).1 returned
  exact ⟨_, returned, x, hnone, hdone⟩

/-- With one item, whose final state is not that of a dispatched one, nothing is dispatched. -/
theorem Settled.none_dispatched (h : s.Settled) (hn : s.next = 1) {fs : FinalState} (hf : (s.items 0).finalState = some fs)
    (hout : fs.outcome ≠ .dispatched) (y : Nat) : ¬ s.Dispatched y := by
  rintro ⟨fs', hfs', hd⟩
  by_cases hy : y = 0
  · subst hy
    rw [hf] at hfs'
    cases hfs'
    exact hout hd
  · have hnone := (h.unallocated y (by omega)).final
    rw [hfs'] at hnone
    cases hnone

/-- The request gives up on its item while it is in the queue. The cycle selects the item, removes it and returns
true, and has dispatched nothing. The same when the sweep removes the item after it was selected. -/
theorem true_without_dispatch : ∃ s₁ s₂, Run 1 init oneQueued ∧
    CycleReturns 1 (fun _ => True) oneQueued s₁ true ∧ CycleReturns 1 (fun _ => True) oneQueued s₂ true ∧ (∀ y, ¬ s₁.Dispatched y) ∧ ∀ y, ¬ s₂.Dispatched y := by
  have looking : Cycle 1 (fun _ => True) oneQueued oneQueued := .begin rfl trivial
  have expired := looking.step (.expire 0 0 [.ttlExpired] rfl) nofun trivial
  have entered := expired.step (.requestRuns 0 _ _ _ _ rfl rfl) nofun trivial
  have stored := entered.step (.requestRuns 0 _ _ _ _ rfl rfl) nofun trivial
  have finalized := stored.step (.requestRan 0 _ _ _ rfl rfl) nofun trivial
  have selected := finalized.step (.select 0 rfl (by decide)) nofun trivial
  have removed := selected.step (.remove 0 rfl (by decide)) nofun trivial
  have swept := selected.step (.sweep 0 rfl (by decide) rfl) nofun trivial
  have returned := CycleReturns.selected removed nofun (.processorRan _ _ _ rfl rfl) rfl
  have returned' := CycleReturns.selected swept nofun (.removeFails 0 rfl (by decide)) rfl
  have hset := (init_settled.run oneQueued_run).1
  exact ⟨_, _, oneQueued_run, returned, returned', (hset.returns returned).none_dispatched rfl rfl (by decide),
    (hset.returns returned').none_dispatched rfl rfl (by decide)⟩

end System

end InferenceGateway.Processor
