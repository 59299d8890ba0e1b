import InferenceGateway.Processor.WithinLimits
import InferenceGateway.Registry.Shares
/-!
# The limits of the whole registry

Each active shard gets its share of every limit, and keeps to it; and the shares add
up to the limit. But a share can be 0, which a shard takes for no limit: that happens
when a limit is below the number of shards.
-/

namespace InferenceGateway.Processor

open Lib Queue Registry List Function FlowRegistry

/-- The traffic on every shard. -/
abbrev Fleet (α : Type) := Nat → Traffic α

namespace Fleet

variable {α : Type} [QueueItemAccessor α] [DecidableEq α]

def start (r : FlowRegistry α) : Fleet α := fun id => .start (r.shards id)

/-- One of the shards takes a step. -/
def Step (ids : List Nat) (t t' : Fleet α) : Prop :=
  ∃ id ∈ ids, ∃ u, Traffic.Step (t id) u ∧ t' = update t id u

abbrev Run (ids : List Nat) : Fleet α → Fleet α → Prop := Relation.ReflTransGen (Step ids)

variable {ids : List Nat} {t : Fleet α}

theorem Run.at {t' : Fleet α} (h : Run ids t t') (id : Nat) : Traffic.Run (t id) (t' id) := by
  induction h with
  | refl => exact .refl
  | tail _ hst ih =>
    obtain ⟨k, -, u, hu, rfl⟩ := hst
    by_cases hk : id = k
    · subst hk
      rw [update_self]
      exact ih.tail hu
    · rw [update_of_ne hk]
      exact ih

/-- A run of one shard is one of the fleet. -/
theorem run_update {id : Nat} (hid : id ∈ ids) {u : Traffic α} (h : Traffic.Run (t id) u) :
    Run ids t (update t id u) := by
  induction h with
  | refl =>
    rw [update_eq_self]
  | @tail v w _ hst ih =>
    refine ih.tail ⟨id, hid, w, ?_, ?_⟩
    · rwa [update_self]
    · rw [update_idem]

/-- What is queued on the shards, by the counters it is for. -/
def amount (t : Fleet α) (ids : List Nat) (c : Counter) : Int := (ids.map fun id => (t id).shard.amount c).sum

omit [QueueItemAccessor α] [DecidableEq α] in
theorem sum_le_of_getElem {f g : Nat → Int} (h : ∀ i (hi : i < ids.length), f ids[i] ≤ g i) :
    (ids.map f).sum ≤ ((List.range ids.length).map g).sum := by
  refine List.Forall₂.sum_le_sum (forall₂_iff_get.2 ⟨by simp, fun i hi _ => ?_⟩)
  simp only [length_map] at hi
  simpa using h i hi

/-- Something happens to one of the shards. -/
def apply (t : Fleet α) (e : Nat × Traffic.Event α) : Except Fault (Fleet α) :=
  ((t e.1).apply e.2).map (update t e.1)

theorem run_of_runs {t' : Fleet α} (hw : ∀ id, (t id).work = .idle) (h : Runs apply (fun _ e => e.1 ∈ ids) t t') :
    Run ids t t' := by
  refine (Runs.invariant (fun u => Run ids t u ∧ ∀ id, (u id).work = .idle) ?_ ⟨.refl, hw⟩ h).1
  rintro u ⟨id, e⟩ u' ⟨hrun, hidle⟩ hid hok
  obtain ⟨v, hv, rfl⟩ := map_ok hok
  obtain ⟨hsteps, hwork⟩ := Traffic.apply_run (hidle id) hv
  refine ⟨hrun.trans (run_update hid hsteps), fun k => ?_⟩
  by_cases hk : k = id
  · subst hk
    rwa [update_self]
  · rw [update_of_ne hk]
    exact hidle k

/-- A new registry, and events on its shards, with a check of what they lead to. -/
theorem exists_fleet (first : Except Fault (FlowRegistry α)) (events : List (Nat × Traffic.Event α))
    (p : FlowRegistry α → Fleet α → Bool)
    (h : (first.toOption.any fun r => (runOps apply (fun _ e => e.1 ∈ r.activeShards) events (start r)).any (p r)) = true) :
    ∃ (r : FlowRegistry α) (t : Fleet α), first = .ok r ∧ Run r.activeShards (start r) t ∧ p r t = true := by
  cases first with
  | error e => cases h
  | ok r =>
    obtain ⟨r', hr', h'⟩ := (Option.any_eq_true _ _).1 h
    cases hr'
    obtain ⟨t, ht, hp⟩ := (Option.any_eq_true _ _).1 h'
    exact ⟨r, t, rfl, run_of_runs (fun _ => rfl) (runs_of_runOps events ht), hp⟩

/-- The sample configuration with a limit for the number of requests. -/
def limitedTo (n : UInt64) : ValidConfig Request := { Request.config with maxRequests := n }

/-- The registry after any number of flows, bands, shards and requests, with its
queues empty. From there on, with the shards that are active: as long as the
requests of each shard are below 2^63 in number and bytes, what is queued on all of
them stays within every limit that is at least the number of shards. -/
theorem totals_within_limits (cfg : ValidConfig α) (now : Int) (r₀ r : FlowRegistry α)
    (h₀ : newFlowRegistry cfg.toConfig now = .ok r₀)
    (hrun : Runs step (fun r op => Op.Growing r op) r₀ r) (hempty : r.load = 0) {t : Fleet α}
    (ht : Run r.activeShards (start r) t) (hfit : ∀ id ∈ r.activeShards, Fits (loadOf (t id).arrived)) (c : Counter)
    (hn : r.activeShards.length ≤ (r.config.limit c).toNat) :
    t.amount r.activeShards c ≤ (r.config.limit c).toNat := by
  have hagreed : r.Agreed := Runs.invariant FlowRegistry.Agreed (fun _ _ _ hs hC hok => hs.step hC hok)
    (newFlowRegistry_agreed cfg now h₀) hrun
  have hshare : ∀ i (hi : i < r.activeShards.length),
      (t r.activeShards[i]).shard.amount c ≤ (partitionUint64 (r.config.limit c) i r.activeShards.length).toNat := by
    intro i hi
    have hid : r.activeShards[i] ∈ r.activeShards := getElem_mem hi
    have hall : r.activeShards[i] ∈ r.allShards := hagreed.topology.mem_all.2 (.inl hid)
    have hload : (r.shards r.activeShards[i]).load = 0 :=
      le_antisymm (hempty ▸ shard_le hall) (RegistryShard.load_nonneg _)
    have hlimit := (hagreed.topology.active i hi).limit c
    have hbound := ((Traffic.start_sound (hagreed.shards _ hall) hload).run (ht.at _) (hfit _ hid)).inv
    have hne : (((r.shards r.activeShards[i]).limit c).toNat : Int) ≠ 0 := by
      rw [hlimit]
      intro hz
      exact partitionUint64_ne_zero hi hn (UInt64.toNat_inj.1 (by simpa using hz))
    have := hbound.stored_le hne
    rwa [hlimit] at this
  rcases Nat.eq_zero_or_pos r.activeShards.length with hz | hpos
  · rw [amount, length_eq_zero_iff.1 hz]
    exact Int.natCast_nonneg _
  · calc t.amount r.activeShards c
        ≤ ((List.range r.activeShards.length).map fun i =>
            ((partitionUint64 (r.config.limit c) i r.activeShards.length).toNat : Int)).sum := sum_le_of_getElem hshare
      _ = (((List.range r.activeShards.length).map fun i =>
            (partitionUint64 (r.config.limit c) i r.activeShards.length).toNat).sum : Nat) := by
          rw [Nat.cast_list_sum, map_map]; rfl
      _ = (r.config.limit c).toNat := by
          rw [sum_partitionUint64 _ hpos (hn.trans_lt (r.config.limit c).toNat_lt)]

/-- Three requests for two shards: the first gets two of them. -/
theorem third_request_rejected : ∃ (r : FlowRegistry Request) (t : Fleet Request),
    newFlowRegistry (limitedTo 3).toConfig 1 = .ok r ∧ Run r.activeShards (start r) t ∧
    ((t 0).arrived.length = 3 ∧ (t 1).arrived.length = 2) ∧ t.amount r.activeShards .totalLen ≤ 3 := by
  obtain ⟨r, t, h₀, hrun, hp⟩ := exists_fleet (newFlowRegistry (limitedTo 3).toConfig 1)
    [(0, .connect ⟨"a", 0⟩ Request.inOrder "ListQueue"), (1, .connect ⟨"a", 0⟩ Request.inOrder "ListQueue"),
      (0, .enqueue ⟨"a", 0⟩ ⟨1, 10⟩), (0, .enqueue ⟨"a", 0⟩ ⟨2, 10⟩), (0, .enqueue ⟨"a", 0⟩ ⟨3, 10⟩),
      (1, .enqueue ⟨"a", 0⟩ ⟨4, 10⟩), (1, .enqueue ⟨"a", 0⟩ ⟨5, 10⟩)]
    (fun r t => r.load = 0 ∧ r.activeShards = [0, 1] ∧ r.config.maxRequests = 3 ∧
      (t 0).arrived = [⟨3, 10⟩, ⟨2, 10⟩, ⟨1, 10⟩] ∧ (t 1).arrived = [⟨5, 10⟩, ⟨4, 10⟩]) (by decide +kernel)
  rw [decide_eq_true_eq] at hp
  obtain ⟨hload, hids, hmax, h0, h1⟩ := hp
  have hlimit : r.config.limit .totalLen = 3 := hmax
  have hfit : ∀ id ∈ r.activeShards, Fits (loadOf (t id).arrived) := by
    rw [hids]
    intro id hid
    simp only [mem_cons, not_mem_nil, or_false] at hid
    rcases hid with rfl | rfl
    · rw [h0]
      exact ⟨by decide, by decide⟩
    · rw [h1]
      exact ⟨by decide, by decide⟩
  have hbound := totals_within_limits (limitedTo 3) 1 r r h₀ .refl hload hrun hfit .totalLen
    (by rw [hlimit, hids]; decide)
  rw [hlimit] at hbound
  exact ⟨r, t, h₀, hrun, ⟨by rw [h0]; rfl, by rw [h1]; rfl⟩, hbound⟩

/-- One request for two shards: the second shard's share is 0, and it takes that for
no limit at all. -/
theorem limit_exceeded_by_zero_share : ∃ (r : FlowRegistry Request) (t : Fleet Request),
    newFlowRegistry (limitedTo 1).toConfig 1 = .ok r ∧ Run r.activeShards (start r) t ∧
    r.config.limit .totalLen = 1 ∧ t.amount r.activeShards .totalLen = 4 := by
  obtain ⟨r, t, h₀, hrun, hp⟩ := exists_fleet (newFlowRegistry (limitedTo 1).toConfig 1)
    [(0, .connect ⟨"a", 0⟩ Request.inOrder "ListQueue"), (1, .connect ⟨"a", 0⟩ Request.inOrder "ListQueue"),
      (0, .enqueue ⟨"a", 0⟩ ⟨1, 10⟩), (1, .enqueue ⟨"a", 0⟩ ⟨2, 10⟩), (1, .enqueue ⟨"a", 0⟩ ⟨3, 10⟩),
      (1, .enqueue ⟨"a", 0⟩ ⟨4, 10⟩)]
    (fun r t => r.config.limit .totalLen = 1 ∧ t.amount r.activeShards .totalLen = 4) (by decide +kernel)
  rw [decide_eq_true_eq] at hp
  exact ⟨r, t, h₀, hrun, hp⟩

end Fleet

end InferenceGateway.Processor
