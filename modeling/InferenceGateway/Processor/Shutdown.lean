import InferenceGateway.Processor.Outcomes
/-!
# Shutdown

`Submit` returns `nil` when it has handed its item to the processor, which then
has to finalize it. `shutdown` sets the flag that `Submit` looks at, drains the
channel until it finds it empty, and evicts what is queued. A submit call that
looked at the flag before it was set can still send after the drain: then the item
stays in the channel for good. Otherwise every item is accounted for.
-/

namespace InferenceGateway.Processor

open List Function

/-- `shutdown` has found the channel empty. -/
def Phase.drained : Phase → Bool
  | evicting => true
  | waiting => true
  | returned => true
  | _ => false

/-- `evictAll` has returned. -/
def Phase.evicted : Phase → Bool
  | waiting => true
  | returned => true
  | _ => false

theorem Phase.drained_of_evicted {p : Phase} (h : p.evicted = true) : p.drained = true := by
  cases p <;> first | rfl | cases h

theorem Next.phase_not_drained (n : Next) : n.phase.drained = false := by
  cases n <;> rfl

namespace System

variable {cap : Nat} {s s' : System}

/-- Nothing is sent to the channel once `shutdown` has found it empty. -/
def Timely (s s' : System) : Prop :=
  s.processor.drained = true → s'.enqueueChan.length ≤ s.enqueueChan.length

/-- The processor has not lost an item that was handed over to it. -/
structure Owning (s : System) : Prop where
  settled : s.Settled
  keyed : ∀ x j, s.evictions x = some j → j.item = x
  owned : ∀ x ∈ s.accepted, x ∈ s.held ∨ s.Parted x
  drained : s.processor.drained = true → s.enqueueChan = []
  evicted : s.processor.evicted = true → s.queued = [] ∧ ∀ x, s.evictions x = none

theorem init_owning : init.Owning where
  settled := init_settled
  keyed := nofun
  owned := nofun
  drained := nofun
  evicted := nofun

/-- What a step does to the eviction of an item. -/
inductive EvictionMove (s s' : System) (x : Nat) : Prop where
  | same (h : s'.evictions x = s.evictions x)
  | start (h : s'.evictions x = some (.start x evictCall))
  | run (j : Job) (it : FlowItem) (o : Option Job) (hj : s.evictions x = some j)
      (hr : j.run (.eviction x) (s.items j.item) = some (it, o)) (hi : s'.items = update s.items j.item it)
      (h : s'.evictions x = o)

theorem eviction_update {y : Nat} {o : Option Job} (he : s'.evictions = update s.evictions y o)
    (h : s'.evictions y = o → EvictionMove s s' y) (x : Nat) : EvictionMove s s' x := by
  by_cases hx : x = y
  · subst hx
    exact h (by rw [he, update_self])
  · exact .same (by rw [he, update_of_ne hx])

theorem eviction_move (hst : Step cap s s') (x : Nat) : EvictionMove s s' x := by
  cases hst with
  | evict y hp hy => exact eviction_update rfl .start x
  | evictionRuns y j j' it hj hr | evictionRan y j it hj hr => exact eviction_update rfl (.run j it _ hj hr rfl) x
  | _ => exact .same rfl

theorem keyed_step (h : ∀ x j, s.evictions x = some j → j.item = x) (hs : s.Settled) (hst : Step cap s s') :
    ∀ x j, s'.evictions x = some j → j.item = x := by
  intro x j hj
  rcases eviction_move hst x with he | he | ⟨k, it, o, hk, hr, -, he⟩
  · exact h x j (he ▸ hj)
  · rw [he] at hj
    cases hj; rfl
  · rw [he] at hj
    subst hj
    rw [(Job.run_some (hs.ok _) (hs.jobs (.eviction x) k hk).2.1 hr).2.2.1]
    exact h x k hk

variable {x : Nat}

/-- A finalization that has begun goes on until the item is finalized. -/
theorem Parted.step (hkey : ∀ x j, s.evictions x = some j → j.item = x) (hs : s.Settled) (hst : Step cap s s')
    (h : s.Parted x) : s'.Parted x := by
  cases h with
  | final hf =>
    obtain ⟨fs, hfs⟩ := Option.isSome_iff_exists.1 hf
    exact .final (by rw [(hs.step hst).2 x fs hfs]; rfl)
  | processor j n hp hx =>
    have hcon := (hs.jobs .processor j (by rw [job, hp]; rfl)).2.1
    cases hst with
    | processorRuns k k' n' it hk hr =>
      rw [hp] at hk
      cases hk
      exact .processor k' n rfl ((Job.run_some (hs.ok _) hcon hr).2.2.1.trans hx)
    | processorRan k n' it hk hr =>
      rw [hp] at hk
      cases hk
      subst hx
      refine .final ?_
      simp only [setItem, update_self]
      exact (Job.run_none (hs.ok _) hcon hr).2.1
    | _ => first | exact .processor j n hp hx | simp_all
  | eviction j he =>
    rcases eviction_move hst x with he' | he' | ⟨k, it, o, hk, hr, hi, he'⟩
    · exact .eviction j (he'.trans he)
    · exact .eviction _ he'
    · cases o with
      | some k' => exact .eviction k' he'
      | none =>
        refine .final ?_
        rw [hi, hkey x k hk, update_self]
        exact (Job.run_none (hs.ok _) (hs.jobs (.eviction x) k hk).2.1 hr).2.1

/-- What the processor has, it keeps or finalizes. -/
theorem held_step (hst : Step cap s s') (hx : x ∈ s.held) : x ∈ s'.held ∨ s'.Parted x := by
  cases place_move hst with
  | leave hn hh hp =>
    obtain ⟨l, hl, hpart⟩ := hh
    rcases mem_append.1 (hl.mem_iff.1 hx) with hx | hx
    · exact .inr (hpart x hx)
    · exact .inl hx
  | create i hn hh => exact .inl (hh ▸ hx)
  | enter i y hn hh => exact .inl (hh.mem_iff.2 (mem_cons_of_mem _ hx))

theorem accepted_step (hst : Step cap s s') (hx : x ∈ s'.accepted) : x ∈ s.accepted ∨ x ∈ s'.held ∨ s'.Parted x := by
  cases hst with
  | send i y h hc =>
    rcases mem_cons.1 hx with rfl | hx
    · exact .inr (.inl (by simp [held, accept]))
    · exact .inl hx
  | handOver i y h hc hp =>
    rcases mem_cons.1 hx with rfl | hx
    · exact .inr (.inl (by simp [held, accept, Phase.hand]))
    · exact .inl hx
  | handOverDraining i y h hc hp =>
    rcases mem_cons.1 hx with rfl | hx
    · exact .inr (.inr (.processor _ _ rfl rfl))
    · exact .inl hx
  | _ => exact .inl hx

/-- The one step that needs the condition is a send. -/
theorem drained_step (h : s.processor.drained = true → s.enqueueChan = []) (ht : Timely s s') (hst : Step cap s s') :
    s'.processor.drained = true → s'.enqueueChan = [] := by
  intro hd
  cases hst with
  | send i x hx hc =>
    have := ht hd
    simp only [length_append, length_singleton] at this
    omega
  | processorRan j n it hj hr => rw [Next.phase_not_drained] at hd; cases hd
  | drained hp hc => exact hc
  | evicted hp hq he | «return» hp hs => exact h (by rw [hp]; rfl)
  | _ => first | exact h hd | cases hd

theorem evicted_step (h : s.processor.evicted = true → s.queued = [] ∧ ∀ x, s.evictions x = none)
    (hst : Step cap s s') : s'.processor.evicted = true → s'.queued = [] ∧ ∀ x, s'.evictions x = none := by
  intro hd
  cases hst with
  | processorRan j n it hj hr =>
    have := Phase.drained_of_evicted hd
    rw [Next.phase_not_drained] at this; cases this
  | evict x hp hx => simp only [hp] at hd; cases hd
  | evictionRuns x j j' it hj hr | evictionRan x j it hj hr => rw [(h hd).2 x] at hj; cases hj
  | evicted hp hq he => exact ⟨hq, he⟩
  | «return» hp hs => exact h (by rw [hp]; rfl)
  | sweep x hs hx hf => rw [(h hd).1] at hx; cases hx
  | _ => first | exact h hd | cases hd

/-- What holds of the items whether a send comes in time or not. -/
structure Accounted (s : System) : Prop where
  settled : s.Settled
  keyed : ∀ x j, s.evictions x = some j → j.item = x
  owned : ∀ x ∈ s.accepted, x ∈ s.held ∨ s.Parted x
  evicted : s.processor.evicted = true → s.queued = [] ∧ ∀ x, s.evictions x = none

theorem Owning.accounted (h : s.Owning) : s.Accounted := ⟨h.settled, h.keyed, h.owned, h.evicted⟩

theorem Accounted.step (h : s.Accounted) (hst : Step cap s s') : s'.Accounted where
  settled := (h.settled.step hst).1
  keyed := keyed_step h.keyed h.settled hst
  owned := fun x hx => by
    rcases accepted_step hst hx with hold | hnew
    · rcases h.owned x hold with hheld | hpart
      · exact held_step hst hheld
      · exact .inr (hpart.step h.keyed h.settled hst)
    · exact hnew
  evicted := evicted_step h.evicted hst

theorem Owning.step (h : s.Owning) (hst : Step cap s s') (ht : Timely s s') : s'.Owning := by
  obtain ⟨hsettled, hkeyed, howned, hevicted⟩ := h.accounted.step hst
  exact ⟨hsettled, hkeyed, howned, drained_step h.drained ht hst, hevicted⟩

/-- The runs in which nothing is sent after the drain. -/
abbrev TimelyRun (cap : Nat) : System → System → Prop :=
  Relation.ReflTransGen fun s s' => Step cap s s' ∧ Timely s s'

theorem Owning.run (h : s.Owning) (hr : TimelyRun cap s s') : s'.Owning := by
  induction hr with
  | refl => exact h
  | tail _ hst ih => exact ih.step hst.1 hst.2

/-- Once `Run` has returned, nothing is in the making, and nothing is held but what is in the channel. -/
theorem Accounted.finalized (h : s.Accounted) (hp : s.processor = .returned) (hx : x ∈ s.accepted) :
    (s.items x).finalState.isSome ∨ x ∈ s.enqueueChan := by
  obtain ⟨hq, he⟩ := h.evicted (by rw [hp]; rfl)
  rcases h.owned x hx with hheld | hf | ⟨j, n, hj, -⟩ | ⟨j, hj⟩
  · rw [held, hp, hq, append_nil] at hheld
    exact .inr (by simpa [Phase.hand] using hheld)
  · exact .inl hf
  · rw [hp] at hj; cases hj
  · rw [he x] at hj; cases hj

theorem Owning.finalized (h : s.Owning) (hp : s.processor = .returned) (hx : x ∈ s.accepted) :
    (s.items x).finalState.isSome := by
  refine (h.accounted.finalized hp hx).resolve_right ?_
  rw [h.drained (by rw [hp]; rfl)]
  exact not_mem_nil

/-- In every run in which nothing is sent after the drain, every item for which a
submit call has returned `nil` is finalized once `Run` has returned. -/
theorem accepted_finalized (cap : Nat) {s : System} (h : TimelyRun cap init s) (hp : s.processor = .returned) :
    ∀ x ∈ s.accepted, (s.items x).finalState.isSome :=
  fun _ hx => (init_owning.run h).finalized hp hx

/-- A run that shuts down with one item in the channel. -/
theorem accepted_finalized_on_shutdown : ∃ s, TimelyRun 1 init s ∧ s.processor = .returned ∧ s.accepted = [0] ∧
    ∀ x ∈ s.accepted, (s.items x).finalState.isSome := by
  have sent := (((Relation.ReflTransGen.refl : TimelyRun 1 init init).tail ⟨.create 0 rfl rfl, nofun⟩).tail
    ⟨.check 0 0 rfl rfl, nofun⟩).tail ⟨.send 0 0 rfl (by decide), nofun⟩
  have stopped := ((sent.tail ⟨.cancelProcessor, nofun⟩).tail ⟨.stop rfl rfl, nofun⟩).tail ⟨.setFlag rfl, nofun⟩
  have rejected := (((stopped.tail ⟨.drain 0 [] rfl rfl, nofun⟩).tail ⟨.processorRuns _ _ _ _ rfl rfl, nofun⟩).tail
    ⟨.processorRuns _ _ _ _ rfl rfl, nofun⟩).tail ⟨.processorRan _ _ _ rfl rfl, nofun⟩
  have evicted := (rejected.tail ⟨.drained rfl rfl, nofun⟩).tail ⟨.evicted rfl rfl fun _ => rfl, fun _ => le_rfl⟩
  have returned := (evicted.tail ⟨.sweepEnds rfl, fun _ => le_rfl⟩).tail ⟨.return rfl rfl, fun _ => le_rfl⟩
  exact ⟨_, returned, rfl, rfl, accepted_finalized 1 returned rfl⟩

/-- The submit call looks at the flag, `Run` shuts down and returns, and only then
does the call send its item: the buffer has room, and nobody will look at it again. -/
theorem accepted_item_lost : ∃ s, Run 1 init s ∧ s.processor = .returned ∧ (∀ i x, s.requests i ≠ .sending x) ∧
    0 ∈ s.accepted ∧ (s.items 0).finalState = none ∧ s.enqueueChan = [0] := by
  have checked := ((Relation.ReflTransGen.refl : Run 1 init init).tail (.create 0 rfl rfl)).tail (.check 0 0 rfl rfl)
  have drained := (((checked.tail .cancelProcessor).tail (.stop rfl rfl)).tail (.setFlag rfl)).tail (.drained rfl rfl)
  have returned := ((drained.tail (.evicted rfl rfl fun _ => rfl)).tail (.sweepEnds rfl)).tail (.return rfl rfl)
  have sent := returned.tail (.send 0 0 rfl (by decide))
  refine ⟨_, sent, rfl, fun i x => ?_, mem_singleton_self 0, rfl, rfl⟩
  by_cases hi : i = 0
  · subst hi; nofun
  · simp [accept, setRequest, setItem, init, hi]

/-- In every run, however late a send comes: the processor has each item for which a submit call has returned `nil`, or
has begun to finalize it, and once `Run` has returned those that are not finalized are in the channel. -/
theorem unfinalized_in_channel (cap : Nat) {s : System} (h : Run cap init s) :
    (∀ x ∈ s.accepted, x ∈ s.held ∨ s.Parted x) ∧
    (s.processor = .returned → ∀ x ∈ s.accepted, (s.items x).finalState.isSome ∨ x ∈ s.enqueueChan) := by
  have haccounted : s.Accounted := by
    induction h with
    | refl => exact init_owning.accounted
    | tail _ hst ih => exact ih.step hst
  exact ⟨haccounted.owned, fun hp x hx => haccounted.finalized hp hx⟩

/-- An item that is sent while `Run` waits for the sweep to end. -/
theorem unfinalized_in_channel_late : ∃ s, Run 1 init s ∧ s.accepted = [0] ∧
    ∀ x ∈ s.accepted, (s.items x).finalState.isSome ∨ x ∈ s.enqueueChan := by
  have checked := ((Relation.ReflTransGen.refl : Run 1 init init).tail (.create 0 rfl rfl)).tail (.check 0 0 rfl rfl)
  have drained := (((checked.tail .cancelProcessor).tail (.stop rfl rfl)).tail (.setFlag rfl)).tail (.drained rfl rfl)
  have sent := (drained.tail (.evicted rfl rfl fun _ => rfl)).tail (.send 0 0 rfl (by decide))
  have returned := (sent.tail (.sweepEnds rfl)).tail (.return rfl rfl)
  exact ⟨_, returned, rfl, (unfinalized_in_channel 1 returned).2 rfl⟩

/-- With an unbuffered channel an item only goes to a processor that receives it. -/
theorem timely_of_unbuffered (h : Step 0 s s') : Timely s s' := by
  intro _
  cases h with
  | send i x h hc => exact absurd hc (Nat.not_lt_zero _)
  | take x rest h hc | drain x rest h hc => simp only [hc, length_cons]; omega
  | _ => exact le_rfl

/-- So `EnqueueChannelBufferSize: 0` needs no condition. -/
theorem unbuffered_items_finalized (h : Run 0 init s) (hp : s.processor = .returned) :
    ∀ x ∈ s.accepted, (s.items x).finalState.isSome := by
  have hrun : TimelyRun 0 init s := h.lift (fun s => s) fun _ _ hst => ⟨hst, timely_of_unbuffered hst⟩
  exact fun _ hx => (init_owning.run hrun).finalized hp hx

/-- An item that the drain takes over from the submit call, and rejects. -/
theorem unbuffered_item_rejected : ∃ s, Run 0 init s ∧ s.processor = .returned ∧ s.accepted = [0] ∧
    ∀ x ∈ s.accepted, (s.items x).finalState.isSome := by
  have checked := ((Relation.ReflTransGen.refl : Run 0 init init).tail (.create 0 rfl rfl)).tail (.check 0 0 rfl rfl)
  have stopped := ((checked.tail .cancelProcessor).tail (.stop rfl rfl)).tail (.setFlag rfl)
  have taken := stopped.tail (.handOverDraining 0 0 rfl rfl rfl)
  have rejected := ((taken.tail (.processorRuns _ _ _ _ rfl rfl)).tail (.processorRuns _ _ _ _ rfl rfl)).tail
    (.processorRan _ _ _ rfl rfl)
  have evicted := (rejected.tail (.drained rfl rfl)).tail (.evicted rfl rfl fun _ => rfl)
  have returned := (evicted.tail (.sweepEnds rfl)).tail (.return rfl rfl)
  exact ⟨_, returned, rfl, rfl, unbuffered_items_finalized returned rfl⟩

end System

end InferenceGateway.Processor
