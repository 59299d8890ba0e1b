import InferenceGateway.Lib.Floats
import InferenceGateway.Registry.Contents
import InferenceGateway.Registry.Levels
/-!
# One dispatch cycle

`dispatchCycle`, `selectItem` and `dispatchItem` of `processor.go`, on a shard that
nothing else touches meanwhile. The cycle goes through the bands from the highest
level down: a band at its ceiling ends it, a band whose lookup or policy fails or that
has nothing to offer is passed, and the first item that is selected and found ends it.

The plugins are parameters: a fairness policy returns any queue at all, or an error,
and items may have any handle.
-/

namespace InferenceGateway.Processor

open Lib Queue Registry List FlowRegistry RegistryShard ManagedQueue Floats

/-- `a >= b`. -/
def floatGe {F : Type} [Floats F] (a b : F) : Bool := !isNaN a && !isNaN b && !lt a b

/-- What is used of the queue that a fairness policy picks. -/
structure FlowQueueAccessor (α : Type) where
  peekHead : Option α

inductive PolicyError where
  | failed
deriving DecidableEq, Repr

/-- `ComputeLimit` gives one ceiling for each priority. -/
structure UsageLimitPolicy (F : Type) where
  computeLimit : F → List Int → List F
  length_eq : ∀ saturation priorities, (computeLimit saturation priorities).length = priorities.length

/-- What a cycle meets besides the shard. -/
structure CycleEnv (α F : Type) where
  saturation : F
  usageLimitPolicy : UsageLimitPolicy F
  /-- `Pick`, for the band of a priority. -/
  pick : Int → FairnessPolicy → PriorityBand α → Except PolicyError (Option (FlowQueueAccessor α))
  flowKey : α → FlowKey
  /-- The item's handle as the queue of its flow sees it. -/
  handle : α → QueueItemHandle

/-- Why there is no item to consider in a band. -/
inductive SelectError where
  | bandNotFound
  | policyNotFound
  | policyFailed (err : PolicyError)
deriving DecidableEq, Repr

variable {α F : Type}

variable (env : CycleEnv α F)

def selectItem (s : RegistryShard α) (priority : Int) (flowGroup : PriorityBand α) :
    Except SelectError (Option α) :=
  match s.priorityBands.lookup flowGroup.config.priority with
  | none => .error .policyNotFound
  | some band =>
    match env.pick priority band.fairnessPolicy flowGroup with
    | .error e => .error (.policyFailed e)
    | .ok none => .ok none
    | .ok (some queue) => .ok queue.peekHead

/-- `PriorityBandAccessor` and `selectItem`. -/
def selectFrom (s : RegistryShard α) (priority : Int) : Except SelectError (Option α) :=
  match s.priorityBands.lookup priority with
  | none => .error .bandNotFound
  | some band => selectItem env s priority band

inductive DispatchResult (α : Type) where
  /-- `failed to get ManagedQueue`. -/
  | queueNotFound
  /-- `Remove` returned an error, which is only logged. -/
  | notRemoved
  | removed (x : α) (shard : RegistryShard α)

/-- A cycle's result: what it returned, the shard, and the item that it removed with the level it was at and the
queue the item was in. -/
structure CycleResult (α : Type) where
  returned : Bool
  shard : RegistryShard α
  removed : Option (Int × FlowKey × α)

/-- The band is passed: a lookup or its policy fails, or nothing is selected. -/
def Passed (s : RegistryShard α) (priority : Int) : Prop :=
  (∃ e, selectFrom env s priority = .error e) ∨ selectFrom env s priority = .ok none ∨
    ∃ x, selectFrom env s priority = .ok (some x) ∧ s.managedQueue (env.flowKey x) = none

variable [QueueItemAccessor α] [DecidableEq α]

def dispatchItem (env : CycleEnv α F) (s : RegistryShard α) (item : α) : Except Fault (DispatchResult α) :=
  match s.managedQueue (env.flowKey item) with
  | none => .ok .queueNotFound
  | some managedQ =>
    match managedQ.queue.remove (env.handle item) with
    | .error _ => .ok .notRemoved
    | .ok (removedItem, _) =>
      (s.queueOp (env.flowKey item) (.remove (env.handle item))).map fun r => .removed removedItem r.1

variable [Floats F]

/-- The loop over the levels and their ceilings. -/
def visitBands (env : CycleEnv α F) (s : RegistryShard α) : List (Int × F) → Except Fault (CycleResult α)
  | [] => .ok ⟨false, s, none⟩
  | (priority, usageLimit) :: rest =>
    if floatGe env.saturation usageLimit then .ok ⟨false, s, none⟩
    else
      match selectFrom env s priority with
      | .error _ => visitBands env s rest
      | .ok none => visitBands env s rest
      | .ok (some item) =>
        match dispatchItem env s item with
        | .error fault => .error fault
        | .ok .queueNotFound => visitBands env s rest
        | .ok .notRemoved => .ok ⟨true, s, none⟩
        | .ok (.removed x shard) => .ok ⟨true, shard, some (priority, env.flowKey item, x)⟩

def dispatchCycle (env : CycleEnv α F) (s : RegistryShard α) : Except Fault (CycleResult α) :=
  visitBands env s (s.orderedPriorityLevels.zip (env.usageLimitPolicy.computeLimit env.saturation s.orderedPriorityLevels))

/-! ## The loop -/

variable {env : CycleEnv α F} {s s' : RegistryShard α} {r : CycleResult α}

omit [Floats F] in
/-- What `dispatchItem` removes comes out of the queue of the item's flow, and nothing else changes. -/
theorem dispatchItem_removed {item x : α} (h : dispatchItem env s item = .ok (.removed x s')) :
    ∃ mq mq', s.managedQueue (env.flowKey item) = some mq ∧ s'.managedQueue (env.flowKey item) = some mq' ∧
      mq.queue.remove (env.handle item) = .ok (x, mq'.queue) ∧
      (∀ k, k ≠ env.flowKey item → s'.managedQueue k = s.managedQueue k) ∧ s'.detached = s.detached := by
  unfold dispatchItem at h
  split at h
  · cases h
  · rename_i mq hmq
    split at h
    · cases h
    · rename_i y q hrem
      obtain ⟨⟨s₁, d⟩, hop, he⟩ := map_ok h
      cases he
      obtain ⟨hdet, hothers, hnone | ⟨mq₀, mq', hmq₀, hperf, hmq'⟩⟩ := queueOp_queues hop
      · rw [hmq] at hnone
        cases hnone.1
      · cases hmq.symm.trans hmq₀
        refine ⟨mq, mq', hmq, hmq', ?_, hothers, hdet⟩
        rw [perform, remove, hrem] at hperf
        unfold propagateStatsDeltaLocked at hperf
        simp only at hperf
        split at hperf
        · cases hperf
        · cases hperf
          exact hrem

/-- An item selected at one of the levels was removed, with no ceiling reached so far and every level before it
passed. -/
def Removes (env : CycleEnv α F) (s : RegistryShard α) (bands : List (Int × F)) (r : CycleResult α) : Prop :=
  ∃ before p limit rest item x, bands = before ++ (p, limit) :: rest ∧ r.returned = true ∧
    r.removed = some (p, env.flowKey item, x) ∧ selectFrom env s p = .ok (some item) ∧
    dispatchItem env s item = .ok (.removed x r.shard) ∧
    (∀ b ∈ before ++ [(p, limit)], floatGe env.saturation b.2 = false) ∧ ∀ b ∈ before, Passed env s b.1

/-- A level that is passed comes before whatever the rest of the loop does. -/
theorem Removes.later {bands : List (Int × F)} (h : Removes env s bands r) {priority : Int} {usageLimit : F}
    (hlimit : floatGe env.saturation usageLimit = false) (hpassed : Passed env s priority) :
    Removes env s ((priority, usageLimit) :: bands) r := by
  obtain ⟨before, p, limit, rest, item, x, rfl, h₁, h₂, h₃, h₄, hceil, hpass⟩ := h
  refine ⟨(priority, usageLimit) :: before, p, limit, rest, item, x, rfl, h₁, h₂, h₃, h₄, ?_, ?_⟩
  · intro b hb
    rcases mem_cons.1 hb with rfl | hb
    · exact hlimit
    · exact hceil b hb
  · intro b hb
    rcases mem_cons.1 hb with rfl | hb
    · exact hpassed
    · exact hpass b hb

omit [Floats F] in
theorem dispatchItem_queueNotFound {item : α} (h : dispatchItem env s item = .ok .queueNotFound) :
    s.managedQueue (env.flowKey item) = none := by
  unfold dispatchItem at h
  split at h
  · assumption
  · split at h
    · cases h
    · obtain ⟨_, -, hne⟩ := map_ok h
      cases hne

/-- A cycle leaves the shard as it was, or it removes an item. -/
theorem visitBands_cases (bands : List (Int × F)) (h : visitBands env s bands = .ok r) :
    (r.removed = none ∧ r.shard = s) ∨ Removes env s bands r := by
  induction bands with
  | nil => cases h; exact .inl ⟨rfl, rfl⟩
  | cons b bands ih =>
    obtain ⟨priority, usageLimit⟩ := b
    unfold visitBands at h
    split at h
    · cases h; exact .inl ⟨rfl, rfl⟩
    · rename_i hlimit
      rw [Bool.not_eq_true] at hlimit
      split at h
      · rename_i e he
        exact (ih h).imp_right fun hr => hr.later hlimit (.inl ⟨e, he⟩)
      · rename_i hnone
        exact (ih h).imp_right fun hr => hr.later hlimit (.inr (.inl hnone))
      · rename_i item hitem
        split at h
        · cases h
        · rename_i hmissing
          exact (ih h).imp_right fun hr => hr.later hlimit (.inr (.inr ⟨item, hitem, dispatchItem_queueNotFound hmissing⟩))
        · cases h; exact .inl ⟨rfl, rfl⟩
        · rename_i x shard hremoved
          cases h
          refine .inr ⟨[], priority, usageLimit, bands, item, x, rfl, rfl, rfl, hitem, hremoved, ?_, nofun⟩
          intro b hb
          cases mem_singleton.1 hb
          exact hlimit

/-! ## Queues whose length is right -/

/-- The queues that something can be removed from have a positive length. -/
def Counted (s : RegistryShard α) : Prop := ∀ key mq, s.managedQueue key = some mq →
  ∀ handle res, mq.queue.remove handle = .ok res → 0 < mq.len

theorem pred_nonneg {n : Int64} (h : 0 < n) : ¬ n + (-1) < 0 := by
  rw [Int64.lt_iff_toInt_lt] at h ⊢
  have hlt := n.toInt_lt
  have hone : (-1 : Int64).toInt = -1 := by decide
  rw [Int64.toInt_add, hone]
  rw [Int64.toInt_zero] at *
  rw [Int.bmod_eq_of_le (by omega) (by omega)]
  omega

omit [Floats F] in
theorem dispatchItem_total (hs : Counted s) (item : α) : ∃ res, dispatchItem env s item = .ok res := by
  unfold dispatchItem
  split
  · exact ⟨_, rfl⟩
  · rename_i mq hmq
    split
    · exact ⟨_, rfl⟩
    · rename_i x q hrem
      have hlen := pred_nonneg (hs _ mq hmq _ _ hrem)
      obtain ⟨mq', d, hperf⟩ : ∃ mq' d, mq.perform s.isDraining (.remove (env.handle item)) = .ok (mq', d) := by
        simp only [perform, remove, hrem, propagateStatsDeltaLocked, if_neg hlen]
        exact ⟨_, _, rfl⟩
      obtain ⟨s', hop⟩ := queueOp_total hmq hperf
      exact ⟨_, by rw [hop]; rfl⟩

theorem visitBands_total (hs : Counted s) (bands : List (Int × F)) : ∃ r, visitBands env s bands = .ok r := by
  induction bands with
  | nil => exact ⟨_, rfl⟩
  | cons b bands ih =>
    obtain ⟨priority, usageLimit⟩ := b
    unfold visitBands
    split
    · exact ⟨_, rfl⟩
    · split
      · exact ih
      · exact ih
      · rename_i item hitem
        obtain ⟨res, hres⟩ : ∃ res, dispatchItem env s item = .ok res := dispatchItem_total hs item
        rw [hres]
        cases res with
        | queueNotFound => exact ih
        | notRemoved | removed x shard => exact ⟨_, rfl⟩

/-! ## Strict priority -/

omit [QueueItemAccessor α] [DecidableEq α] [Floats F] in
theorem levels_eq_map (env : CycleEnv α F) (levels : List Int) :
    (levels.zip (env.usageLimitPolicy.computeLimit env.saturation levels)).map Prod.fst = levels :=
  map_fst_zip (by rw [env.usageLimitPolicy.length_eq])

omit [QueueItemAccessor α] [DecidableEq α] [Floats F] in
/-- With the levels in descending order, a level is before `p` if it is higher and after it if it is lower. -/
theorem split_levels {levels : List Int} (hsorted : levels.Pairwise (· > ·)) {bands before rest : List (Int × F)} {p : Int}
    {limit : F} (hmap : bands.map Prod.fst = levels) (h : bands = before ++ (p, limit) :: rest) {b : Int × F} (hb : b ∈ bands) :
    (p < b.1 → b ∈ before) ∧ (p ≤ b.1 → b ∈ before ++ [(p, limit)]) := by
  rw [← hmap, h, map_append, map_cons, pairwise_append, pairwise_cons] at hsorted
  rw [h, mem_append, mem_cons] at hb
  rcases hb with hb | rfl | hb
  · exact ⟨fun _ => hb, fun _ => mem_append_left _ hb⟩
  · exact ⟨fun hlt => absurd hlt (lt_irrefl _), fun _ => mem_append_right _ mem_cons_self⟩
  · have hlt := hsorted.2.1.1 b.1 (mem_map_of_mem hb)
    exact ⟨fun h' => absurd h' (by omega), fun h' => absurd h' (by omega)⟩

omit [DecidableEq α] [QueueItemAccessor α] in
theorem below_of_floatGe {a b : F} (h : floatGe a b = false) :
    lt a b = true ∨ isNaN a = true ∨ isNaN b = true := by
  unfold floatGe at h
  revert h
  cases lt a b <;> cases isNaN a <;> cases isNaN b <;> simp

/-- On every shard whose levels are in order, whatever the plugins do: the cycle returns if the lengths of the queues
are right. It removes one item at most. If it removes one, selected at the level `p`, then the saturation is below the
ceiling of every level down to `p`, NaNs apart; every higher band was passed; the item has left the queue of its flow,
and no other queue has changed. -/
theorem dispatchCycle_strict_priority (env : CycleEnv α F) (s : RegistryShard α) (hs : s.Levelled) :
    (Counted s → ∃ r, dispatchCycle env s = .ok r) ∧
    ∀ r, dispatchCycle env s = .ok r →
      (r.removed = none → r.shard = s) ∧
      ∀ p key x, r.removed = some (p, key, x) →
        (∃ item, selectFrom env s p = .ok (some item) ∧ env.flowKey item = key) ∧
        (∀ b ∈ s.orderedPriorityLevels.zip (env.usageLimitPolicy.computeLimit env.saturation s.orderedPriorityLevels), p ≤ b.1 →
          lt env.saturation b.2 = true ∨ isNaN env.saturation = true ∨ isNaN b.2 = true) ∧
        (∀ q ∈ s.priorityBands, p < q → Passed env s q) ∧
        (∃ mq mq', s.managedQueue key = some mq ∧ r.shard.managedQueue key = some mq' ∧
          (∃ handle, mq.queue.remove handle = .ok (x, mq'.queue)) ∧ (mq.queue.Ok → mq.items.Perm (x :: mq'.items))) ∧
        (∀ k, k ≠ key → r.shard.managedQueue k = s.managedQueue k) ∧ r.shard.detached = s.detached := by
  refine ⟨fun hc => visitBands_total hc _, fun r hr => ?_⟩
  rcases visitBands_cases _ hr with ⟨hnone, hsame⟩ | ⟨before, p₀, limit, rest, item, x₀, hsplit, -, hrem, hsel, hitem, hceil, hpass⟩
  · refine ⟨fun _ => hsame, fun p key x hsome => ?_⟩
    rw [hnone] at hsome
    cases hsome
  · refine ⟨fun hnone => ?_, fun p key x hsome => ?_⟩
    · rw [hrem] at hnone
      cases hnone
    rw [hrem] at hsome
    cases hsome
    have hmap := levels_eq_map env s.orderedPriorityLevels
    obtain ⟨mq, mq', hmq, hmq', hremove, hothers, hdet⟩ := dispatchItem_removed hitem
    refine ⟨⟨item, hsel, rfl⟩, fun b hb hle => ?_, fun q hq hlt => ?_, ⟨mq, mq', hmq, hmq', ⟨_, hremove⟩, fun hok => ?_⟩,
      hothers, hdet⟩
    · exact below_of_floatGe (hceil b ((split_levels hs.sorted hmap hsplit hb).2 hle))
    · have hlevel := (hs.mem_iff q).2 hq
      rw [← hmap] at hlevel
      obtain ⟨b, hb, rfl⟩ := List.mem_map.1 hlevel
      exact hpass b ((split_levels hs.sorted hmap hsplit hb).1 hlt)
    · exact (SafeQueue.remove_ok hok hremove).2

/-! ## Two bands -/

/-- Ceilings that are all the same. -/
def flatLimit (limit : Option ℚ) : UsageLimitPolicy (Option ℚ) where
  computeLimit _ priorities := priorities.map fun _ => limit
  length_eq _ _ := by rw [length_map]

/-- The head of the first queue of the band. -/
def pickFirst (band : PriorityBand Request) : Option (FlowQueueAccessor Request) :=
  band.queues.entries.head?.map fun e => ⟨e.2.queue.peekHead⟩

/-- The item of the flow `a`, the first of its queue. -/
def oneFlowEnv (saturation : Option ℚ)
    (pick : Int → PriorityBand Request → Option (FlowQueueAccessor Request)) : CycleEnv Request (Option ℚ) where
  saturation := saturation
  usageLimitPolicy := flatLimit (some 1)
  pick p _ band := .ok (pick p band)
  flowKey _ := ⟨"a", 0⟩
  handle _ := .own 0

def oneQueued : List (AdminOp Request) :=
  [.registry (.connect ⟨"a", 0⟩), .ensurePriorityBand 7, .registry (.queue 0 ⟨"a", 0⟩ (.add ⟨1, 10⟩))]

/-- The higher band has no flow, and the item of the lower one is removed. -/
theorem dispatchCycle_strict_priority_lower : ∃ r₀ r : FlowRegistry Request,
    newFlowRegistry Request.smallConfig.toConfig 1 = .ok r₀ ∧
    Runs administer (fun _ _ => True) r₀ r ∧
    ∃ res, dispatchCycle (oneFlowEnv (some 0) fun _ => pickFirst) (r.shards 0) = .ok res ∧
      res.removed = some (0, ⟨"a", 0⟩, ⟨1, 10⟩) ∧ Passed (oneFlowEnv (some 0) fun _ => pickFirst) (r.shards 0) 7 := by
  refine exists_run oneQueued (fun r => 7 ∈ (r.shards 0).priorityBands ∧
      (dispatchCycle (oneFlowEnv (some 0) fun _ => pickFirst) (r.shards 0)).toOption.map (·.removed) =
        some (some (0, ⟨"a", 0⟩, ⟨1, 10⟩))) (by decide +kernel) ?_
  rintro r₀ r h₀ hrun ⟨hseven, hremoved⟩
  obtain ⟨-, hlevelled⟩ := runs_levelled Request.smallConfig 1 h₀ hrun
  cases hres : dispatchCycle (oneFlowEnv (some 0) fun _ => pickFirst) (r.shards 0) with
  | error e => rw [hres] at hremoved; cases hremoved
  | ok res =>
    rw [hres] at hremoved
    have hsome : res.removed = some (0, ⟨"a", 0⟩, ⟨1, 10⟩) := Option.some.inj hremoved
    have hstrict := (dispatchCycle_strict_priority _ _ (hlevelled 0)).2 res hres
    exact ⟨res, rfl, hsome, (hstrict.2 _ _ _ hsome).2.2.1 7 hseven (by decide)⟩

/-- With a saturation that is a NaN the ceiling of 1 holds nothing back: the saturation is not below it. And with a
policy of the higher band that returns the queue of the lower one, an item of priority 0 is removed although the band
above it has had something selected. -/
theorem dispatched_at_nan_saturation : ∃ r₀ r : FlowRegistry Request,
    newFlowRegistry Request.smallConfig.toConfig 1 = .ok r₀ ∧
    Runs administer (fun _ _ => True) r₀ r ∧
    ((dispatchCycle (oneFlowEnv none fun _ => pickFirst) (r.shards 0)).toOption.map (·.removed) =
        some (some (0, ⟨"a", 0⟩, ⟨1, 10⟩)) ∧ lt (none : Option ℚ) (some 1) = false) ∧
    (dispatchCycle (oneFlowEnv (some 0) fun _ _ => some ⟨some ⟨1, 10⟩⟩) (r.shards 0)).toOption.map (·.removed) =
        some (some (7, ⟨"a", 0⟩, ⟨1, 10⟩)) :=
  exists_run oneQueued (fun r : FlowRegistry Request => _) (by decide +kernel) fun _ _ _ _ h => h

end InferenceGateway.Processor
