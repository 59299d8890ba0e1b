import InferenceGateway.Processor.Intake
/-!
# Rejected or evicted

An item that is evicted has been in a queue. One that is rejected has not, unless its
request looks for the handle while the processor is between its check of the final state
and the publication of the handle: the request is then told that the item was rejected,
and the item is in a queue.
-/

namespace InferenceGateway.Processor

open List Function

def QueueOutcome.Evicted : QueueOutcome → Prop
  | evictedTTL => True
  | evictedContextCancelled => True
  | evictedOther => True
  | _ => False

theorem QueueOutcome.Evicted.not_rejected {o : QueueOutcome} (h : o.Evicted) : ¬ o.Rejected := by
  cases o <;> simp_all [QueueOutcome.Evicted, QueueOutcome.Rejected]

theorem inferOutcome_not_queued (cause : Err) : (inferOutcome cause false).outcome.Rejected := by
  simp [inferOutcome, QueueOutcome.Rejected]

theorem inferOutcome_queued (cause : Err) : ¬ (inferOutcome cause true).outcome.Rejected := by
  unfold inferOutcome
  simp only [if_true]
  split_ifs <;> simp [QueueOutcome.Rejected]

namespace Intake

variable {cap : Nat} {a a' : Intake} {x : Nat}

/-- The processor is past the check of the final state and has not set the handle. -/
def Admitting (a : Intake) (x : Nat) : Prop := a.sys.processor = .admitting x ∨ a.publishing = some x

/-- No request has seen that the item has no handle while the processor admits it. -/
def Undisturbed (a : Intake) : Prop :=
  ∀ i j, a.sys.job (.request i) = some j → a.isQueued i = some false → ¬ a.Admitting j.item

/-! ## Items -/

/-- Every step moves items from place to place as the steps of `System` do. -/
theorem Step.place_move (h : Step cap a a') : System.PlaceMove a.sys a'.sys := by
  cases h with
  | other s' h => exact System.place_move h
  | insert x h =>
    refine .of_processor rfl rfl ?_
    simp only [System.held, h, Phase.hand, append_nil, append_assoc]
    exact perm_append_comm.append_left _
  | setHandle x h | load i j h => exact .of_processor rfl rfl (.refl _)
  | store i x cause w b h => exact .of_request rfl rfl rfl (.inr rfl)

variable {t : Thread} {j : Job}

/-- Why a finalization is in progress. -/
theorem Step.continues (hpl : a.sys.Placed) (haw : ∀ i x, a.sys.requests i = .awaiting x → x < a.sys.next)
    (h : Step cap a a') (hj : a'.sys.job t = some j) : System.Continues a.sys a'.sys t j := by
  cases h with
  | other s' h => exact System.job_continues hpl haw h hj
  | insert x h => exact .of_jobs hj (fun _ => .inl rfl) (.inr nofun) fun _ => .inl rfl
  | setHandle x h | load i k h => exact .inl ⟨j, hj, rfl, rfl⟩
  | store i x cause w b h =>
    refine .of_jobs hj (System.request_continues rfl fun k hk => ?_) (.inl rfl) fun _ => .inl rfl
    cases hk
    exact .inl ⟨⟨x, .finalize cause, .inside⟩, by rw [System.job, h]; rfl, rfl, rfl⟩

@[simp] theorem setHandle_finalState (s : System) (x y : Nat) (b : Bool) :
    ((s.setItem x { s.items x with handle := b }).items y).finalState = (s.items y).finalState := by
  by_cases h : y = x
  · subst h; simp [System.setItem]
  · simp [System.setItem, h]

@[simp] theorem store_handle (s : System) (x y : Nat) (fs : Option FinalState) :
    ((s.setItem x { s.items x with finalState := fs }).items y).handle = (s.items y).handle := by
  by_cases h : y = x
  · subst h; simp [System.setItem]
  · simp [System.setItem, h]

theorem run_handle {it it' : FlowItem} {o : Option Job} (h : j.run t it = some (it', o)) :
    it'.handle = it.handle ∧ (it.finalState.isSome → it'.finalState.isSome) := by
  unfold Job.run at h
  split at h
  · split at h <;> cases h <;> exact ⟨rfl, id⟩
  · cases h; exact ⟨rfl, fun _ => rfl⟩
  · cases h; exact ⟨rfl, id⟩

/-- The item is finalized, was never put in a queue, and never will be: `enqueue` discards it. -/
structure Discarded (a : Intake) (x : Nat) : Prop where
  allocated : x < a.sys.next
  finalized : (a.sys.items x).finalState.isSome
  notInserted : x ∉ a.inserted
  notAdmitting : a.sys.processor ≠ .admitting x

theorem Discarded.step (hd : a.Discarded x) (h : Step cap a a') : a'.Discarded x := by
  have hlt : x < a'.sys.next := lt_of_lt_of_le hd.allocated h.place_move.next_le
  cases h with
  | other s' h hadd =>
    refine ⟨hlt, ?_, hd.notInserted, fun hp => ?_⟩
    · cases System.item_move h hadd x with
      | same h => rw [h]; exact hd.finalized
      | create hx => exact absurd hx hd.allocated.ne
      | run t j it o hj hx hr h => rw [h]; exact (run_handle hr).2 hd.finalized
    · rcases System.admitting_of_step h hp with hp | ⟨-, hnone⟩
      · exact hd.notAdmitting hp
      · have hsome := hd.finalized
        rw [hnone] at hsome
        cases hsome
  | insert y h =>
    refine ⟨hlt, hd.finalized, fun hx => ?_, nofun⟩
    rcases mem_cons.1 hx with rfl | hx
    · exact hd.notAdmitting h
    · exact hd.notInserted hx
  | setHandle y h =>
    refine ⟨hlt, ?_, hd.notInserted, hd.notAdmitting⟩
    rw [setHandle_finalState]
    exact hd.finalized
  | load i j h => exact ⟨hlt, hd.finalized, hd.notInserted, hd.notAdmitting⟩
  | store i y cause w b h =>
    refine ⟨hlt, ?_, hd.notInserted, hd.notAdmitting⟩
    by_cases hy : x = y
    · subst hy
      simp only [System.setItem, System.setRequest, update_self]
      rfl
    · simp only [System.setItem, System.setRequest, update_of_ne hy]
      exact hd.finalized

theorem Discarded.run {P : Intake → Prop} (hd : a.Discarded x) (h : Run cap P a a') : a'.Discarded x := by
  induction h with
  | refl => exact hd
  | tail _ hlast ih => exact ih.step hlast.1

/-! ## The invariant -/

/-- What is known of an item that a goroutine finalizes. -/
def Founded (a : Intake) (t : Thread) (x : Nat) : FinalizeCall → Prop
  | .finalize _ => ∃ i, t = .request i
  | .finalizeWithOutcome fs =>
    (fs.outcome.Rejected → a.sys.Gone x ∧ x ∉ a.inserted) ∧ (¬ fs.outcome.Rejected → x ∈ a.inserted)

structure Tracked (a : Intake) : Prop where
  placed : a.sys.Placed
  awaiting : ∀ i x, a.sys.requests i = .awaiting x → x < a.sys.next
  /-- The items that were inserted are in their queues or gone. -/
  inserted : ∀ x ∈ a.inserted, x ∈ a.sys.queued ∨ a.sys.Gone x
  queued : ∀ x ∈ a.sys.queued, x ∈ a.inserted
  handle : ∀ x, (a.sys.items x).handle = true → x ∈ a.inserted
  published : ∀ x ∈ a.inserted, (a.sys.items x).handle = true ∨ a.publishing = some x
  publishing : ∀ x, a.publishing = some x → x ∈ a.inserted
  jobs : ∀ t j, a.sys.job t = some j → j.item < a.sys.next ∧ a.Founded t j.item j.call
  infers : ∀ i b, a.isQueued i = some b →
    ∃ j, a.sys.job (.request i) = some j ∧ j.Infers ∧ (b = true → j.item ∈ a.inserted)
  final : ∀ x fs, (a.sys.items x).finalState = some fs → ¬ fs.outcome.Rejected → x ∈ a.inserted

theorem init_tracked : init.Tracked where
  placed := System.init_placed
  awaiting := nofun
  inserted := nofun
  queued := nofun
  handle := nofun
  published := nofun
  publishing := nofun
  jobs := fun t j hj => by cases t <;> cases hj
  infers := nofun
  final := nofun

theorem Step.mem_inserted (h : Step cap a a') (hx : x ∈ a.inserted) : x ∈ a'.inserted := by
  cases h with
  | insert y h => exact mem_cons_of_mem _ hx
  | _ => exact hx

/-- What is gone is not inserted. -/
theorem Step.not_mem_inserted (h : Step cap a a') (hg : a'.sys.Gone x) (hx : x ∉ a.inserted) : x ∉ a'.inserted := by
  cases h with
  | insert y h =>
    intro hmem
    rcases mem_cons.1 hmem with rfl | hmem
    · exact hg.notHeld (by simp [System.held])
    · exact hx hmem
  | _ => exact hx

theorem Founded.step {call : FinalizeCall} (hf : a.Founded t x call) (h : Step cap a a') : a'.Founded t x call := by
  cases call with
  | finalize cause => exact hf
  | finalizeWithOutcome fs =>
    refine ⟨fun hr => ?_, fun hr => h.mem_inserted (hf.2 hr)⟩
    have hg := (hf.1 hr).1.move h.place_move
    exact ⟨hg, h.not_mem_inserted hg (hf.1 hr).2⟩

namespace Tracked

variable (ht : a.Tracked)
include ht

theorem below (hx : x ∈ a.inserted) : x < a.sys.next := by
  rcases ht.inserted x hx with hq | hg
  · exact ht.placed.below x (mem_append_right _ hq)
  · exact hg.allocated

theorem founded_of_begins (h : Step cap a a') {t : Thread} {call : FinalizeCall}
    (hb : System.Begins a.sys a'.sys x t call) : x < a'.sys.next ∧ a'.Founded t x call := by
  cases hb with
  | finalize i cause hx => exact ⟨hx, i, rfl⟩
  | rejects _ fs hr hq hs hg =>
    have hnew : x ∉ a.inserted := fun hx => (ht.inserted x hx).elim hq hs
    exact ⟨hg.allocated, fun _ => ⟨hg, h.not_mem_inserted hg hnew⟩, fun hn => absurd hr hn⟩
  | takes _ fs hr hx hq => exact ⟨hx, fun hn => absurd hn hr, fun _ => h.mem_inserted (ht.queued x hq)⟩

theorem jobs_step (h : Step cap a a') {t : Thread} {j : Job} (hj : a'.sys.job t = some j) :
    j.item < a'.sys.next ∧ a'.Founded t j.item j.call := by
  rcases h.continues ht.placed ht.awaiting hj with ⟨k, hk, hitem, hcall⟩ | hb
  · obtain ⟨hlt, hf⟩ := ht.jobs t k hk
    rw [← hitem, ← hcall]
    exact ⟨lt_of_lt_of_le hlt h.place_move.next_le, hf.step h⟩
  · exact ht.founded_of_begins h hb

variable {i : Nat}

variable (h : Step cap a a')
include h

theorem awaiting_step (hx : a'.sys.requests i = .awaiting x) :
    x < a'.sys.next := by
  have hle := h.place_move.next_le
  cases h with
  | other s' h =>
    rcases System.request_move h i with he | hp | ⟨y, hy, he⟩ | ⟨j, w, it, -, -, -, he⟩ | ⟨y, fs, w, -, he⟩
    · exact lt_of_lt_of_le (ht.awaiting i x (he ▸ hx)) hle
    · rw [hx] at hp; exact hp.elim
    · rw [hx] at he
      cases he
      exact lt_of_lt_of_le (ht.placed.pending i x (by rw [System.pending, hy]; rfl)).1 hle
    · rw [hx] at he; cases he
    · rw [hx] at he; unfold settle at he; split at he <;> cases he
  | store k y cause w b h =>
    refine ht.awaiting i x ?_
    by_cases hk : i = k
    · subst hk
      simp [System.setRequest] at hx
    · simpa [System.setRequest, System.setItem, hk] using hx
  | _ => exact ht.awaiting i x hx

theorem inserted_step :
    (∀ x ∈ a'.inserted, x ∈ a'.sys.queued ∨ a'.sys.Gone x) ∧ ∀ x ∈ a'.sys.queued, x ∈ a'.inserted := by
  have hm := h.place_move
  cases h with
  | other s' h hadd =>
    rcases System.queued_move ht.placed h hadd with hq | ⟨y, hq, hy⟩
    · simp only [hq]
      exact ⟨fun x hx => (ht.inserted x hx).imp id fun hg => hg.move hm, ht.queued⟩
    · refine ⟨fun x hx => ?_, fun x hx => ht.queued x (mem_of_mem_erase (hq ▸ hx))⟩
      rcases ht.inserted x hx with hx | hg
      · by_cases hxy : x = y
        · exact .inr (hxy ▸ hy)
        · simp only [hq]
          exact .inl ((mem_erase_of_ne hxy).2 hx)
      · exact .inr (hg.move hm)
  | insert y h =>
    refine ⟨fun x hx => ?_, fun x hx => ?_⟩
    · rcases mem_cons.1 hx with rfl | hx
      · exact .inl (by simp)
      · exact (ht.inserted x hx).imp (mem_append_left _) fun hg => hg.move hm
    · rcases mem_append.1 hx with hx | hx
      · exact mem_cons_of_mem _ (ht.queued x hx)
      · rw [mem_singleton.1 hx]
        exact mem_cons_self
  | setHandle y h | store i y cause w b h =>
    exact ⟨fun x hx => (ht.inserted x hx).imp id fun hg => hg.move hm, ht.queued⟩
  | load i j h => exact ⟨ht.inserted, ht.queued⟩

theorem handle_step (hx : (a'.sys.items x).handle = true) : x ∈ a'.inserted := by
  cases h with
  | other s' h hadd =>
    cases System.item_move h hadd x with
    | same h => exact ht.handle x (h ▸ hx)
    | create hn h => rw [h] at hx; cases hx
    | run t j it o hj hi hr h =>
      rw [h, (run_handle hr).1] at hx
      exact ht.handle x hx
  | insert y h => exact mem_cons_of_mem _ (ht.handle x hx)
  | setHandle y h =>
    by_cases hy : x = y
    · exact hy ▸ ht.publishing y h
    · exact ht.handle x (by simpa [System.setItem, hy] using hx)
  | load i j h => exact ht.handle x hx
  | store i y cause w b h => exact ht.handle x (store_handle _ _ _ _ ▸ hx)

theorem published_step (hx : x ∈ a'.inserted) :
    (a'.sys.items x).handle = true ∨ a'.publishing = some x := by
  cases h with
  | other s' h hadd =>
    refine (ht.published x hx).imp (fun hh => ?_) id
    cases System.item_move h hadd x with
    | same h => rw [h]; exact hh
    | create hn h => exact absurd hn (ht.below hx).ne
    | run t j it o hj hi hr h => rw [h, (run_handle hr).1]; exact hh
  | insert y h hp =>
    rcases mem_cons.1 hx with rfl | hx
    · exact .inr rfl
    · rcases ht.published x hx with hh | hh
      · exact .inl hh
      · rw [hp] at hh; cases hh
  | setHandle y h =>
    refine .inl ?_
    by_cases hy : x = y
    · subst hy; simp [System.setItem]
    · rcases ht.published x hx with hh | hh
      · simpa [System.setItem, hy] using hh
      · rw [h] at hh; cases hh; exact absurd rfl hy
  | load i j h => exact ht.published x hx
  | store i y cause w b h =>
    refine (ht.published x hx).imp (fun hh => ?_) id
    exact (store_handle _ _ _ _).trans hh

theorem publishing_step (hx : a'.publishing = some x) : x ∈ a'.inserted := by
  cases h with
  | insert y h => cases hx; exact mem_cons_self
  | setHandle y h => cases hx
  | _ => exact ht.publishing x hx

theorem infers_step {b : Bool} (hb : a'.isQueued i = some b) :
    ∃ j, a'.sys.job (.request i) = some j ∧ j.Infers ∧ (b = true → j.item ∈ a'.inserted) := by
  cases h with
  | other s' h hadd hj =>
    obtain ⟨j, hjob, hi, hq⟩ := ht.infers i b hb
    exact ⟨j, hj i j hjob hi, hi, hq⟩
  | insert y h =>
    obtain ⟨j, hjob, hi, hq⟩ := ht.infers i b hb
    exact ⟨j, hjob, hi, fun htrue => mem_cons_of_mem _ (hq htrue)⟩
  | setHandle y h => exact ht.infers i b hb
  | load k j hjob hj hk =>
    by_cases hik : i = k
    · subst hik
      simp only [update_self, Option.some.injEq] at hb
      exact ⟨j, hjob, hj, fun htrue => ht.handle _ (hb.trans htrue)⟩
    · simp only [update_of_ne hik] at hb
      exact ht.infers i b hb
  | store k y cause w c h =>
    by_cases hik : i = k
    · subst hik
      simp only [update_self] at hb
      cases hb
    · simp only [update_of_ne hik] at hb
      simp only [System.job, System.setRequest, System.setItem, update_of_ne hik]
      exact ht.infers i b hb

/-- A new final state is given by `FinalizeWithOutcome`, or is the one `Finalize` infers. -/
theorem new_final {fs : FinalState} (hf : (a'.sys.items x).finalState = some fs) :
    (a.sys.items x).finalState = some fs ∨ (a'.inserted = a.inserted ∧
      ((∃ t, a.Founded t x (.finalizeWithOutcome fs)) ∨ ∃ i j cause b, a.sys.job (.request i) = some j ∧ j.item = x ∧
        a.isQueued i = some b ∧ a'.sys.processor = a.sys.processor ∧ fs = inferOutcome cause b)) := by
  cases h with
  | other s' h hadd hkept =>
    cases System.item_move h hadd x with
    | same h => exact .inl (h ▸ hf)
    | create hn h => rw [h] at hf; cases hf
    | run t j it o hj hi hr h ho =>
      rw [h] at hf
      obtain ⟨-, hfounded⟩ := ht.jobs t j hj
      obtain ⟨y, call, stage⟩ := j
      subst hi
      cases stage with
      | entering =>
        refine .inl ?_
        simp only [Job.run] at hr
        split at hr <;> cases hr <;> exact hf
      | stored fs' => cases hr; exact .inl hf
      | inside =>
        cases call with
        | finalizeWithOutcome fs' =>
          cases hr
          cases hf
          exact .inr ⟨rfl, .inl ⟨t, hfounded⟩⟩
        | finalize cause =>
          -- a step of `System` does not take `Finalize` past the handle
          obtain ⟨i, rfl⟩ := hfounded
          have hsame := hkept i _ hj ⟨rfl, cause, rfl⟩
          rw [ho] at hsame
          cases hr
          cases hsame
  | insert y h | load i j h => exact .inl hf
  | setHandle y h => exact .inl (setHandle_finalState _ _ _ _ ▸ hf)
  | store i y cause w b h hq =>
    by_cases hy : x = y
    · subst hy
      simp only [System.setItem, System.setRequest, update_self, Option.some.injEq] at hf
      exact .inr ⟨rfl, .inr ⟨i, _, cause, b, by rw [System.job, h]; rfl, rfl, hq, rfl, hf.symm⟩⟩
    · refine .inl ?_
      simpa only [System.setItem, System.setRequest, update_of_ne hy] using hf

omit h

/-- What a finished `Finalize` has seen of its item. -/
theorem seen {j : Job} (hj : a.sys.job (.request i) = some j) (hq : a.isQueued i = some true) :
    j.item ∈ a.inserted := by
  obtain ⟨k, hk, -, hins⟩ := ht.infers i true hq
  rw [hj] at hk
  cases hk
  exact hins rfl

theorem final_step (h : Step cap a a') {fs : FinalState} (hf : (a'.sys.items x).finalState = some fs)
    (hr : ¬ fs.outcome.Rejected) : x ∈ a'.inserted := by
  rcases ht.new_final h hf with hold | ⟨hins, ⟨t, hfounded⟩ | ⟨i, j, cause, b, hj, rfl, hq, -, rfl⟩⟩
  · exact h.mem_inserted (ht.final x fs hold hr)
  · rw [hins]; exact hfounded.2 hr
  · rw [hins]
    cases b with
    | false => exact absurd (inferOutcome_not_queued cause) hr
    | true => exact ht.seen hj hq

theorem step (h : Step cap a a') : a'.Tracked where
  placed := ht.placed.move h.place_move
  awaiting := fun _ _ => ht.awaiting_step h
  inserted := (ht.inserted_step h).1
  queued := (ht.inserted_step h).2
  handle := fun _ => ht.handle_step h
  published := fun _ => ht.published_step h
  publishing := fun _ => ht.publishing_step h
  jobs := fun _ _ => ht.jobs_step h
  infers := fun _ _ => ht.infers_step h
  final := fun _ _ => ht.final_step h

theorem run {P : Intake → Prop} (h : Run cap P a a') : a'.Tracked := by
  induction h with
  | refl => exact ht
  | tail _ hlast ih => exact ih.step hlast.1

end Tracked

/-! ## Undisturbed runs -/

structure Agrees (a : Intake) : Prop where
  undisturbed : a.Undisturbed
  rejected : ∀ x fs, (a.sys.items x).finalState = some fs → fs.outcome.Rejected → a.Discarded x
  unseen : ∀ i j, a.sys.job (.request i) = some j → a.isQueued i = some false → j.item ∉ a.inserted

theorem init_agrees : init.Agrees := ⟨nofun, nofun, nofun⟩

/-- A request that sees no handle has an item that is in no queue. -/
theorem Agrees.unseen_step (ha : a.Agrees) (ht : a.Tracked) (h : Step cap a a') (hu : a'.Undisturbed) {i : Nat}
    (hj : a'.sys.job (.request i) = some j) (hq : a'.isQueued i = some false) : j.item ∉ a'.inserted := by
  -- a request that had seen it before is still there
  have hold : a.isQueued i = some false → a'.sys.job (.request i) = a.sys.job (.request i) → j.item ∉ a.inserted :=
    fun hq' hsame => ha.unseen i j (hsame ▸ hj) hq'
  have hbusy := hu i j hj hq
  cases h with
  | other s' h hadd hkept =>
    obtain ⟨k, hk, hi, -⟩ := ht.infers i false hq
    exact hold hq ((hkept i k hk hi).trans hk.symm)
  | insert y h =>
    intro hmem
    rcases mem_cons.1 hmem with hy | hmem
    · exact ha.undisturbed i j hj hq (.inl (by rw [h, hy]))
    · exact ha.unseen i j hj hq hmem
  | setHandle y h => exact ha.unseen i j hj hq
  | load k l hl hinf hk =>
    by_cases hik : i = k
    · subst hik
      have hjl : j = l := Option.some.inj (hj.symm.trans hl)
      subst hjl
      simp only [update_self, Option.some.injEq] at hq
      intro hmem
      rcases ht.published _ hmem with hh | hh
      · rw [hq] at hh; cases hh
      · exact hbusy (.inr hh)
    · simp only [update_of_ne hik] at hq
      exact ha.unseen i j hj hq
  | store k y cause w b h hb =>
    by_cases hik : i = k
    · subst hik
      simp only [update_self] at hq
      cases hq
    · simp only [update_of_ne hik] at hq
      refine hold hq ?_
      simp only [System.job, System.setRequest, System.setItem, update_of_ne hik]

theorem Agrees.rejected_step (ha : a.Agrees) (ht : a.Tracked) (h : Step cap a a') {fs : FinalState}
    (hf : (a'.sys.items x).finalState = some fs) (hr : fs.outcome.Rejected) : a'.Discarded x := by
  have hfinal : (a'.sys.items x).finalState.isSome := by rw [hf]; rfl
  rcases ht.new_final h hf with hold | ⟨hins, ⟨t, hfounded⟩ | ⟨i, j, cause, b, hj, rfl, hq, hproc, rfl⟩⟩
  · exact (ha.rejected x fs hold hr).step h
  · obtain ⟨hg, hx⟩ := hfounded.1 hr
    have hg' := hg.move h.place_move
    refine ⟨hg'.allocated, hfinal, hins ▸ hx, fun hp => hg'.notHeld ?_⟩
    simp [System.held, hp, Phase.hand]
  · cases b with
    | true => exact absurd hr (inferOutcome_queued cause)
    | false =>
      refine ⟨lt_of_lt_of_le (ht.jobs _ j hj).1 h.place_move.next_le, hfinal, hins ▸ ha.unseen i j hj hq, fun hp => ?_⟩
      exact ha.undisturbed i j hj hq (.inl (hproc ▸ hp))

theorem Agrees.run (h : Run cap Undisturbed init a) : a.Agrees := by
  induction h with
  | refl => exact init_agrees
  | tail hrun hlast ih =>
    have ht := init_tracked.run hrun
    exact ⟨hlast.2, fun _ _ => ih.rejected_step ht hlast.1, fun _ _ => ih.unseen_step ht hlast.1 hlast.2⟩

/-- In every run an item with an evicted outcome has been in a queue. In every run in which no request sees an item
without its handle while the processor admits it, an item with a rejected outcome has not been in a queue, and is not
put in one however the run goes on. -/
theorem outcome_tells_admission (cap : Nat) (a : Intake) (x : Nat) (fs : FinalState)
    (hf : (a.sys.items x).finalState = some fs) :
    (Run cap (fun _ => True) init a → fs.outcome.Evicted → x ∈ a.inserted) ∧
      (Run cap Undisturbed init a → fs.outcome.Rejected →
        x ∉ a.inserted ∧ ∀ a', Run cap (fun _ => True) a a' → x ∉ a'.inserted) := by
  constructor
  · intro hrun he
    exact (init_tracked.run hrun).final x fs hf he.not_rejected
  · intro hrun hr
    have hd := (Agrees.run hrun).rejected x fs hf hr
    exact ⟨hd.notInserted, fun a' hrun' => (hd.run hrun').notInserted⟩

/-- A step of `System` where nobody is in between. -/
theorem Step.quiet {s' : System} (h : Processor.Step cap a.sys s') (hp : a.publishing = none)
    (hproc : ∀ x, a.sys.processor ≠ .admitting x) (hj : ∀ i j, a.sys.job (.request i) = some j → ¬ j.Infers) :
    Step cap a { a with sys := s' } := by
  refine .other s' h (fun ⟨x, hx, _⟩ => hproc x hx) (fun i j hjob hi => absurd hi (hj i j hjob)) fun x hx => ?_
  rw [hp] at hx
  cases hx

theorem undisturbed_of_loop (hproc : a.sys.processor = .loop) (hp : a.publishing = none) : a.Undisturbed := by
  rintro i j - - (h | h)
  · rw [hproc] at h; cases h
  · rw [hp] at h; cases h

/-- A request that expires in its queue, and one that expires in the channel. -/
theorem outcome_tells_admission_expired :
    (∃ a, Run 1 (fun _ => True) init a ∧ (a.sys.items 0).finalState = some ⟨.evictedTTL, [.evicted, .ttlExpired]⟩ ∧
      0 ∈ a.inserted) ∧
    ∃ a, Run 1 Undisturbed init a ∧ (a.sys.items 0).finalState = some ⟨.rejectedOther, [.rejected, .ttlExpired]⟩ ∧
      ∀ a', Run 1 (fun _ => True) a a' → 0 ∉ a'.inserted := by
  constructor
  · have submitted := (((Relation.ReflTransGen.refl : System.Run 1 .init .init).tail (.create 0 rfl rfl)).tail
      (.check 0 0 rfl rfl)).tail (.handOver 0 0 rfl rfl rfl)
    have queued := (submitted.tail (.look 0 rfl rfl)).tail (.add 0 rfl)
    have stored := ((queued.tail (.expire 0 0 [.ttlExpired] rfl)).tail (.requestRuns 0 _ _ _ _ rfl rfl)).tail
      (.requestRuns 0 _ _ _ _ rfl rfl)
    obtain ⟨inserted, hrun⟩ := run_refined stored
    exact ⟨_, hrun, rfl, (outcome_tells_admission 1 _ 0 ⟨.evictedTTL, [.evicted, .ttlExpired]⟩ rfl).1 hrun trivial⟩
  · have quiet : ∀ {a : Intake} {s' : System}, Run 1 Undisturbed init a → Processor.Step 1 a.sys s' →
        a.publishing = none → a.sys.processor = .loop → s'.processor = .loop →
        (∀ i j, a.sys.job (.request i) = some j → ¬ j.Infers) → Run 1 Undisturbed init { a with sys := s' } :=
      fun hrun h hp hl hl' hj => hrun.tail
        ⟨.quiet h hp (fun x hx => by rw [hl] at hx; cases hx) hj, undisturbed_of_loop hl' hp⟩
    have created := quiet .refl (.create 0 rfl rfl) rfl rfl rfl nofun
    have checked := quiet created (.check 0 0 rfl rfl) rfl rfl rfl fun i j hj hi => by rcases i with _ | i <;> cases hj
    have sent := quiet checked (.send 0 0 rfl (by decide)) rfl rfl rfl fun i j hj hi => by rcases i with _ | i <;> cases hj
    have expired := quiet sent (.expire 0 0 [.ttlExpired] rfl) rfl rfl rfl fun i j hj hi => by
      rcases i with _ | i <;> cases hj
    have entered := quiet expired (.requestRuns 0 _ _ _ _ rfl rfl) rfl rfl rfl fun i j hj hi => by
      rcases i with _ | i <;> cases hj
      cases hi.1
    have loaded := entered.tail ⟨.load 0 _ rfl ⟨rfl, _, rfl⟩ rfl, undisturbed_of_loop rfl rfl⟩
    have stored := loaded.tail ⟨.store 0 0 [.ttlExpired] true false rfl rfl, undisturbed_of_loop rfl rfl⟩
    exact ⟨_, stored, rfl, ((outcome_tells_admission 1 _ 0 ⟨.rejectedOther, [.rejected, .ttlExpired]⟩ rfl).2 stored
      trivial).2⟩

/-- A request expires and sees that its item has no handle; the processor has seen no final state by then, and puts the
item in a queue. The item is rejected and takes up room until the sweep finds it. -/
theorem rejected_in_queue : ∃ a, Run 1 (fun _ => True) init a ∧
    (a.sys.items 0).finalState = some ⟨.rejectedOther, [.rejected, .ttlExpired]⟩ ∧ 0 ∈ a.inserted ∧ 0 ∈ a.sys.queued := by
  have submitted := (((Relation.ReflTransGen.refl : System.Run 1 .init .init).tail (.create 0 rfl rfl)).tail
    (.check 0 0 rfl rfl)).tail (.handOver 0 0 rfl rfl rfl)
  have expired := (submitted.tail (.expire 0 0 [.ttlExpired] rfl)).tail (.requestRuns 0 _ _ _ _ rfl rfl)
  obtain ⟨inserted, hrun⟩ := run_refined expired
  have loaded := hrun.tail ⟨.load 0 _ rfl ⟨rfl, _, rfl⟩ rfl, trivial⟩
  have looked := loaded.tail ⟨.other _ (.look 0 rfl rfl) (fun ⟨x, h, _⟩ => by cases h) (fun _ _ h _ => h) nofun, trivial⟩
  have stored := looked.tail ⟨.store 0 0 [.ttlExpired] true false rfl rfl, trivial⟩
  have queued := (stored.tail ⟨.insert 0 rfl rfl, trivial⟩).tail ⟨.setHandle 0 rfl, trivial⟩
  exact ⟨_, queued, rfl, mem_cons_self, mem_cons_self (l := [])⟩

end Intake

end InferenceGateway.Processor
