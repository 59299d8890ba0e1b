import InferenceGateway.Processor.Finalization
/-!
# What `EnqueueAndWait` returns

Over every run: an item has one final state, the result of the call is the final
state of its item, and an item that was dispatched is out of its queue for good.
-/

namespace InferenceGateway.Processor

open Function

namespace System

variable {cap : Nat} {s s' : System}

/-! ## Requests -/

/-- Phases that say nothing about a final state. -/
def Plain : RequestPhase → Prop
  | .awaiting _ => False
  | .loading _ _ => False
  | .returned _ (some _) => False
  | _ => True

/-- What a step does to a request. -/
inductive RequestMove (s s' : System) (i : Nat) : Prop where
  | same (h : s'.requests i = s.requests i)
  | plain (h : Plain (s'.requests i))
  | await (x : Nat) (h : s.requests i = .sending x) (h' : s'.requests i = .awaiting x)
  /-- Its finalization has ended. -/
  | loads (j : Job) (w : Bool) (it : FlowItem) (h : s.job (.request i) = some j)
      (hr : j.run (.request i) (s.items j.item) = some (it, none)) (hi : s'.items = update s.items j.item it)
      (h' : s'.requests i = .loading j.item w)
  /-- It has got the final state of its item. -/
  | settles (x : Nat) (fs : FinalState) (w : Bool) (hf : (s.items x).finalState = some fs ∨ (s.items x).done = some fs)
      (h' : s'.requests i = settle fs x w)

theorem request_update {i : Nat} {p : RequestPhase} (hr : s'.requests = update s.requests i p)
    (h : s'.requests i = p → RequestMove s s' i) (k : Nat) : RequestMove s s' k := by
  by_cases hk : k = i
  · subst hk
    exact h (by rw [hr, update_self])
  · exact .same (by rw [hr, update_of_ne hk])

theorem request_move (h : Step cap s s') (k : Nat) : RequestMove s s' k := by
  cases h with
  | giveUp i h | create i h | distributionFails i x call hc h | check i x h | refused i x h | expire i x cause h
  | requestRuns i j j' w it h hr => exact request_update rfl (fun he => .plain (by rw [he]; trivial)) k
  | send i x h | handOver i x h | handOverDraining i x h => exact request_update rfl (fun he => .await x h he) k
  | receive i x fs h hd => exact request_update rfl (fun he => .settles x fs true (.inr hd) he) k
  | requestRan i j w it h hr =>
    exact request_update rfl (fun he => .loads j w it (by rw [job, h]; rfl) hr rfl he) k
  | load i x w fs h hf => exact request_update rfl (fun he => .settles x fs w (.inl hf) he) k
  | _ => exact .same rfl

/-! ## The invariant -/

structure Settled (s : System) : Prop where
  placed : s.Placed
  unallocated : ∀ x, s.next ≤ x → SameFinal newItem (s.items x)
  awaiting : ∀ i x, s.requests i = .awaiting x → x < s.next
  ok : ∀ x, (s.items x).Ok
  jobs : ∀ t j, s.job t = some j → j.item < s.next ∧ j.Consistent t (s.items j.item) ∧ s.Honest t j
  final : ∀ x fs, (s.items x).finalState = some fs → fs.outcome = .dispatched → s.Gone x
  loading : ∀ i x w, s.requests i = .loading x w → (s.items x).finalState.isSome
  returned : ∀ i fs x, s.requests i = .returned fs (some x) → (s.items x).finalState = some fs

theorem init_settled : init.Settled where
  placed := init_placed
  unallocated := fun _ _ => .refl _
  awaiting := nofun
  ok := fun _ => newItem_ok
  jobs := fun t j hj => by cases t <;> cases hj
  final := nofun
  loading := nofun
  returned := nofun

theorem PlaceMove.next_le (h : PlaceMove s s') : s.next ≤ s'.next := by
  cases h with
  | leave hn | enter i x hn => exact hn.ge
  | create i hn => rw [hn]; exact Nat.le_succ _

theorem SameFinal.ok {it it' : FlowItem} (h : SameFinal it it') (hok : it.Ok) : it'.Ok := by
  constructor
  · rw [h.once, h.final]; exact hok.fresh
  · rw [h.once, h.final]; exact hok.finished
  · rw [h.done, h.final]; exact hok.signal

theorem SameFinal.consistent {it it' : FlowItem} (h : SameFinal it it') {j : Job} {t : Thread} (hj : j.Consistent t it) :
    j.Consistent t it' := by
  unfold Job.Consistent at hj ⊢
  rw [h.once, h.final, h.done]
  exact hj

theorem Honest.move {t : Thread} {j : Job} (h : s.Honest t j) (hm : PlaceMove s s') : s'.Honest t j :=
  fun b hb => ⟨(h b hb).1, (h b hb).2.move hm⟩

/-- What a step does to the items and the finalizations that go on. -/
theorem Settled.jobs_step (h : s.Settled) (hm : PlaceMove s s') (hj : JobMove s s') :
    (∀ x fs, (s.items x).finalState = some fs → (s'.items x).finalState = some fs) ∧
      (∀ x, s'.next ≤ x → SameFinal newItem (s'.items x)) ∧ (∀ x, (s'.items x).Ok) ∧
      (∀ t j, s'.job t = some j → j.item < s'.next ∧ j.Consistent t (s'.items j.item) ∧ s'.Honest t j) ∧
      ∀ x fs, (s'.items x).finalState = some fs → fs.outcome = .dispatched → s'.Gone x := by
  have hle := hm.next_le
  cases hj with
  | begin hi hj =>
    refine ⟨fun x fs hf => (hi x).final.trans hf, fun x hx => ?_, fun x => (hi x).ok (h.ok x), fun t j hjob => ?_,
      fun x fs hf hd => (h.final x fs ((hi x).final.symm.trans hf) hd).move hm⟩
    · have h0 := h.unallocated x (le_trans hle hx)
      exact ⟨(hi x).once.trans h0.once, (hi x).final.trans h0.final, (hi x).done.trans h0.done⟩
    · rcases hj t j hjob with hold | ⟨hst, hlt, hh⟩
      · obtain ⟨h1, h2, h3⟩ := h.jobs t j hold
        exact ⟨lt_of_lt_of_le h1 hle, (hi _).consistent h2, h3.move hm⟩
      · refine ⟨hlt, ?_, hh⟩
        unfold Job.Consistent
        rw [hst]; trivial
  | run t j it o hjob hr hi ht ho =>
    obtain ⟨hlt, hcon, hhon⟩ := h.jobs t j hjob
    obtain ⟨hkeep, hnew⟩ := Job.run_finalState hcon hr
    have hitem : s'.items j.item = it := by rw [hi, update_self]
    have hother : ∀ x, x ≠ j.item → s'.items x = s.items x := fun x hx => by rw [hi, update_of_ne hx]
    have hitok : it.Ok := by
      cases o with
      | none => exact (Job.run_none (h.ok _) hcon hr).1
      | some j' => exact (Job.run_some (h.ok _) hcon hr).1
    refine ⟨fun x fs hf => ?_, fun x hx => ?_, fun x => ?_, fun t' k hk => ?_, fun x fs hf hd => ?_⟩
    · by_cases hx : x = j.item
      · subst hx; rw [hitem]; exact hkeep fs hf
      · rw [hother x hx]; exact hf
    · rw [hother x (by omega)]
      exact h.unallocated x (le_trans hle hx)
    · by_cases hx : x = j.item
      · subst hx; rw [hitem]; exact hitok
      · rw [hother x hx]; exact h.ok x
    · by_cases htt : t' = t
      · -- the goroutine that took the step
        subst htt
        rw [ht] at hk
        subst hk
        obtain ⟨-, h2, h3, h4⟩ := Job.run_some (h.ok _) hcon hr
        refine ⟨h3 ▸ lt_of_lt_of_le hlt hle, by rw [h3, hitem]; exact h2, ?_⟩
        intro b hb
        rw [h4] at hb
        rw [h3]
        exact (hhon.move hm) b hb
      · rw [ho t' htt] at hk
        obtain ⟨h1, h2, h3⟩ := h.jobs t' k hk
        refine ⟨lt_of_lt_of_le h1 hle, ?_, h3.move hm⟩
        by_cases hx : k.item = j.item
        · rw [hx, hitem]
          exact (hx ▸ h2 : k.Consistent t' (s.items j.item)).of_run htt hcon hr
        · rw [hother _ hx]; exact h2
    · by_cases hx : x = j.item
      · subst hx
        rw [hitem] at hf
        rcases hnew fs hf with hf | ⟨-, rfl⟩
        · exact (h.final _ fs hf hd).move hm
        · exact (hhon _ hd).2.move hm
      · rw [hother x hx] at hf
        exact (h.final x fs hf hd).move hm

/-- One step keeps all of it, and every final state there is. -/
theorem Settled.step (h : s.Settled) (hst : Step cap s s') :
    s'.Settled ∧ ∀ x fs, (s.items x).finalState = some fs → (s'.items x).finalState = some fs := by
  have hm := place_move hst
  have hjm := job_move h.placed (h.unallocated _ le_rfl) h.awaiting hst
  obtain ⟨hkeep, hun, hok, hjobs, hfinal⟩ := h.jobs_step hm hjm
  have hsettle : ∀ fs x w fs' y, settle fs x w = .returned fs' (some y) → fs' = fs ∧ y = x := by
    intro fs x w fs' y he
    unfold settle at he
    split at he
    · cases he
    · cases he; exact ⟨rfl, rfl⟩
  refine ⟨⟨h.placed.move hm, hun, fun i x hx => ?_, hok, hjobs, hfinal, fun i x w hx => ?_, fun i fs x hx => ?_⟩, hkeep⟩
  · rcases request_move hst i with he | hp | ⟨y, hy, he⟩ | ⟨j, w, it, -, -, -, he⟩ | ⟨y, fs, w, -, he⟩
    · exact lt_of_lt_of_le (h.awaiting i x (he ▸ hx)) hm.next_le
    · rw [hx] at hp; exact hp.elim
    · rw [hx] at he
      cases he
      exact lt_of_lt_of_le (h.placed.pending i x (by rw [pending, hy]; rfl)).1 hm.next_le
    · rw [hx] at he; cases he
    · rw [hx] at he; unfold settle at he; split at he <;> cases he
  · rcases request_move hst i with he | hp | ⟨y, hy, he⟩ | ⟨j, w', it, hj, hr, hi, he⟩ | ⟨y, fs, w, -, he⟩
    · obtain ⟨fs, hfs⟩ := Option.isSome_iff_exists.1 (h.loading i x w (he ▸ hx))
      rw [hkeep x fs hfs]; rfl
    · rw [hx] at hp; exact hp.elim
    · rw [hx] at he; cases he
    · rw [hx] at he
      cases he
      rw [hi, update_self]
      exact (Job.run_none (h.ok _) (h.jobs _ _ hj).2.1 hr).2.1
    · rw [hx] at he; unfold settle at he; split at he <;> cases he
  · rcases request_move hst i with he | hp | ⟨y, hy, he⟩ | ⟨j, w', it, hj, hr, hi, he⟩ | ⟨y, fs', w, hf, he⟩
    · exact hkeep x fs (h.returned i fs x (he ▸ hx))
    · rw [hx] at hp; exact hp.elim
    · rw [hx] at he; cases he
    · rw [hx] at he; cases he
    · obtain ⟨rfl, rfl⟩ := hsettle _ _ _ _ _ (he.symm.trans hx)
      refine hkeep x fs ?_
      rcases hf with hf | hf
      · exact hf
      · exact (h.ok x).signal fs hf

/-! ## Every run -/

abbrev Run (cap : Nat) : System → System → Prop := Relation.ReflTransGen (Step cap)

theorem Settled.run (h : s.Settled) (hr : Run cap s s') :
    s'.Settled ∧ ∀ x fs, (s.items x).finalState = some fs → (s'.items x).finalState = some fs := by
  induction hr with
  | refl => exact ⟨h, fun _ _ hf => hf⟩
  | tail _ hst ih =>
    obtain ⟨hset, hkeep⟩ := ih.1.step hst
    exact ⟨hset, fun x fs hf => hkeep x fs (ih.2 x fs hf)⟩

/-- The step is `dispatchItem` taking the item out of its queue. -/
def Dispatches (x : Nat) (s s' : System) : Prop :=
  s.processor = .removing x ∧ s'.processor = .finalizing (.start x dispatchCall) .loop

theorem mem_of_dispatches {x : Nat} (h : Step cap s s') (hd : Dispatches x s s') : x ∈ s.queued := by
  obtain ⟨hp, hp'⟩ := hd
  cases h with
  | remove y h hy => rw [h] at hp; cases hp; exact hy
  | removeFails y h hy => cases hp'
  | cancelParent => rw [hp] at hp'; cases hp'
  | _ => simp_all [setRequest, setItem, accept]

/-- The step is a request's own finalization storing the final state of its item. -/
def ControllerFinalizes (x : Nat) (fs : FinalState) (s s' : System) : Prop :=
  ∃ i j, s.job (.request i) = some j ∧ j.item = x ∧ j.stage = .inside ∧
    s'.job (.request i) = some { j with stage := .stored fs }

/-- A request never finalizes its item as dispatched. -/
theorem Settled.controllerFinalizes (h : s.Settled) (hst : Step cap s s') {x : Nat} {fs : FinalState}
    (hc : ControllerFinalizes x fs s s') : (s'.items x).finalState = some fs ∧ fs.outcome ≠ .dispatched := by
  obtain ⟨i, j, hj, rfl, hin, hj'⟩ := hc
  have hcon := ((h.step hst).1.jobs _ _ hj').2.1
  refine ⟨hcon.2, fun hd => ?_⟩
  cases job_move h.placed (h.unallocated _ le_rfl) h.awaiting hst with
  | begin hi hjobs =>
    rcases hjobs _ _ hj' with hold | ⟨hst, -⟩
    · rw [hj, Option.some.injEq] at hold
      rw [hold] at hin
      cases hin
    · cases hst
  | run t k it o hk hr hi ht ho =>
    by_cases hti : Thread.request i = t
    · subst hti
      rw [hj, Option.some.injEq] at hk
      subst hk
      rw [Job.run, hin, ← ht, hj'] at hr
      cases hr
      cases ((h.jobs _ _ hj).2.2 _ hd).1
    · rw [ho _ hti, hj, Option.some.injEq] at hj'
      rw [hj'] at hin
      cases hin

/-- In every run, with any number of requests: an item keeps the final state it
gets, `EnqueueAndWait` returns the final state of its item, an item that was
dispatched is in no queue and is not dispatched once more, and an item that its
request finalized is never returned as dispatched. -/
theorem final_states_agree (cap : Nat) {s : System} (h : Run cap init s) :
    (∀ x fs, (s.items x).finalState = some fs → ∀ s', Run cap s s' → (s'.items x).finalState = some fs) ∧
      (∀ i fs x, s.requests i = .returned fs (some x) → (s.items x).finalState = some fs) ∧
      (∀ x fs, (s.items x).finalState = some fs → fs.outcome = .dispatched → ∀ s', Run cap s s' →
        x ∉ s'.queued ∧ ∀ s'', Step cap s' s'' → ¬Dispatches x s' s'') ∧
      ∀ x fs s', Step cap s s' → ControllerFinalizes x fs s s' → ∀ s'', Run cap s' s'' →
        (s''.items x).finalState = some fs ∧ fs.outcome ≠ .dispatched ∧
          ∀ i fs', s''.requests i = .returned fs' (some x) → fs' = fs := by
  have hset := (init_settled.run h).1
  refine ⟨fun x fs hf s' hr => (hset.run hr).2 x fs hf, hset.returned, fun x fs hf hd s' hr => ?_,
    fun x fs s' hst hc s'' hr => ?_⟩
  · obtain ⟨hset', hkeep⟩ := hset.run hr
    have hgone := hset'.final x fs (hkeep x fs hf) hd
    have hq : x ∉ s'.queued := fun hx => hgone.notHeld (List.mem_append_right _ hx)
    exact ⟨hq, fun s'' hst hdis => hq (mem_of_dispatches hst hdis)⟩
  · obtain ⟨hf, hne⟩ := hset.controllerFinalizes hst hc
    obtain ⟨hset'', hkeep⟩ := (hset.step hst).1.run hr
    refine ⟨hkeep x fs hf, hne, fun i fs' hret => ?_⟩
    have := hset''.returned i fs' x hret
    rw [hkeep x fs hf, Option.some.injEq] at this
    exact this.symm

/-- A request that is enqueued, dispatched and told so. -/
theorem dispatched_request_returns : ∃ s, Run 1 init s ∧ s.requests 0 = .returned ⟨.dispatched, []⟩ (some 0) ∧
    (s.items 0).finalState = some ⟨.dispatched, []⟩ ∧ ∀ s', Run 1 s s' → 0 ∉ s'.queued := by
  have checked := ((Relation.ReflTransGen.refl : Run 1 init init).tail (.create 0 rfl rfl)).tail (.check 0 0 rfl rfl)
  have submitted := checked.tail (.handOver 0 0 rfl rfl rfl)
  have queued := ((submitted.tail (.look 0 rfl rfl)).tail (.add 0 rfl)).tail (.select 0 rfl (by decide))
  have removed := queued.tail (.remove 0 rfl (by decide))
  have finalized := ((removed.tail (.processorRuns _ _ _ _ rfl rfl)).tail (.processorRuns _ _ _ _ rfl rfl)).tail
    (.processorRan _ _ _ rfl rfl)
  have returned := finalized.tail (.receive 0 0 ⟨.dispatched, []⟩ rfl rfl)
  obtain ⟨-, hret, hdis, -⟩ := final_states_agree 1 returned
  exact ⟨_, returned, rfl, hret 0 _ 0 rfl, fun s' hr => (hdis 0 ⟨.dispatched, []⟩ rfl rfl s' hr).1⟩

end System

end InferenceGateway.Processor
