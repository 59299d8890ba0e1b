import InferenceGateway.Registry.Totals
/-!
# Counters over runs

In every run in which flows, bands and shards are added and requests come and
go, the counters of queues, bands, shards and registry agree with each other and
with the contents, as long as the contents fit in the counters.
-/

namespace InferenceGateway.Registry

open Lib Queue FlowRegistry

variable {α : Type} [QueueItemAccessor α] {r r' : FlowRegistry α}

/-! ## Figures -/

/-- What a pair of counters shows. -/
def shown (len byteSize : Int64) : Load := (len.toInt, byteSize.toInt)

/-- The counters are the figures themselves at every level, and none is negative. -/
structure FlowRegistry.CountersAgree (r : FlowRegistry α) : Prop where
  queue : ∀ id ∈ r.allShards, ∀ p band, (r.shards id).priorityBands.lookup p = some band →
    ∀ f mq, band.queues.lookup f = some mq →
      shown mq.len mq.byteSize = loadOf mq.items ∧ 0 ≤ shown mq.len mq.byteSize
  band : ∀ id ∈ r.allShards, ∀ p band, (r.shards id).priorityBands.lookup p = some band →
    shown band.len band.byteSize = band.queues.total (fun _ mq => shown mq.len mq.byteSize) ∧
      0 ≤ shown band.len band.byteSize
  shard : ∀ id ∈ r.allShards, shown (r.shards id).totalLen (r.shards id).totalByteSize =
      (r.shards id).priorityBands.total (fun _ band => shown band.len band.byteSize) ∧
    0 ≤ shown (r.shards id).totalLen (r.shards id).totalByteSize
  perBand : ∀ p st, r.perPriorityBandStats.lookup p = some st →
    shown st.len st.byteSize = (r.allShards.map fun id =>
      (((r.shards id).priorityBands.lookup p).map fun band => shown band.len band.byteSize).getD 0).sum ∧
    0 ≤ shown st.len st.byteSize
  total : shown r.totalLen r.totalByteSize =
      (r.allShards.map fun id => shown (r.shards id).totalLen (r.shards id).totalByteSize).sum ∧
    0 ≤ shown r.totalLen r.totalByteSize

/-- A load that 64-bit counters can show. -/
def Fits (l : Load) : Prop := l.1 < 2 ^ 63 ∧ l.2 < 2 ^ 63

theorem Fits.mono {l l' : Load} (h : Fits l') (hle : l ≤ l') : Fits l :=
  ⟨lt_of_le_of_lt hle.1 h.1, lt_of_le_of_lt hle.2 h.2⟩

theorem shown_eq {len byteSize : Int64} {l : Load} (h : (⟨len, byteSize⟩ : StatsDelta) = wrap l) (h₀ : 0 ≤ l)
    (hf : Fits l) : shown len byteSize = l := by
  rw [wrap, StatsDelta.mk.injEq] at h
  rw [shown, h.1, h.2, toInt_ofInt_of_lt h₀.1 hf.1, toInt_ofInt_of_lt h₀.2 hf.2]

namespace FlowRegistry

theorem shard_le {id : Nat} (hid : id ∈ r.allShards) : (r.shards id).load ≤ r.load :=
  List.single_le_sum (fun l hl => by
    obtain ⟨k, -, rfl⟩ := List.mem_map.1 hl
    exact (r.shards k).load_nonneg) _ (List.mem_map.2 ⟨id, hid, rfl⟩)

theorem queue_le {id : Nat} {key : FlowKey} {mq : ManagedQueue α} (hid : id ∈ r.allShards)
    (hmq : (r.shards id).managedQueue key = some mq) : loadOf mq.items ≤ r.load := by
  obtain ⟨band, hb, hq⟩ := Option.bind_eq_some_iff.1 hmq
  exact (Table.le_total (fun _ mq _ => loadOf_nonneg mq.items) hq).trans
    ((RegistryShard.band_le hb).trans (shard_le hid))

/-- A band of a registered shard is in the configuration. -/
theorem Agreed.mem_config (h : r.Agreed) {id : Nat} (hid : id ∈ r.allShards) {p : Int}
    (hp : p ∈ (r.shards id).priorityBands) : p ∈ r.config.priorityBands := by
  rcases h.topology.mem_all.1 hid with hid | hid
  · exact ((h.topology.agrees hid).mem_iff p).1 hp
  · exact h.within id hid p hp

theorem load_nonneg (r : FlowRegistry α) : 0 ≤ r.load := List.sum_nonneg fun l hl => by
  obtain ⟨k, -, rfl⟩ := List.mem_map.1 hl
  exact (r.shards k).load_nonneg

theorem bandLoad_nonneg (r : FlowRegistry α) (p : Int) : 0 ≤ r.bandLoad p := List.sum_nonneg fun l hl => by
  obtain ⟨k, -, rfl⟩ := List.mem_map.1 hl
  exact (r.shards k).bandLoad_nonneg p

theorem bandLoad_le (r : FlowRegistry α) (p : Int) : r.bandLoad p ≤ r.load :=
  List.sum_le_sum fun k _ => (r.shards k).bandLoad_le p

/-- Counters that stand for loads that fit show these loads. -/
theorem Agreed.countersAgree (h : r.Agreed) (hfit : Fits r.load) : r.CountersAgree := by
  have hshard : ∀ id ∈ r.allShards, shown (r.shards id).totalLen (r.shards id).totalByteSize = (r.shards id).load :=
    fun id hid => shown_eq (h.shards id hid).counters (r.shards id).load_nonneg (hfit.mono (shard_le hid))
  have hband : ∀ id ∈ r.allShards, ∀ p band, (r.shards id).priorityBands.lookup p = some band →
      Fits band.load ∧ shown band.len band.byteSize = band.load := by
    intro id hid p band hb
    have hle : band.load ≤ r.load := le_trans (RegistryShard.band_le hb) (shard_le hid)
    exact ⟨hfit.mono hle, shown_eq ((h.shards id hid).bands p band hb).counters band.load_nonneg (hfit.mono hle)⟩
  have hqueue : ∀ id ∈ r.allShards, ∀ p band, (r.shards id).priorityBands.lookup p = some band →
      ∀ f mq, band.queues.lookup f = some mq → shown mq.len mq.byteSize = loadOf mq.items := by
    intro id hid p band hb f mq hq
    refine shown_eq (((h.shards id hid).bands p band hb).queues f mq hq).counters (loadOf_nonneg _) ?_
    exact (hband id hid p band hb).1.mono (Table.le_total (fun _ mq _ => loadOf_nonneg mq.items) hq)
  refine ⟨fun id hid p band hb f mq hq => ?_, fun id hid p band hb => ?_, fun id hid => ?_, fun p st hst => ?_, ?_⟩
  · have he := hqueue id hid p band hb f mq hq
    exact ⟨he, he ▸ loadOf_nonneg _⟩
  · have he := (hband id hid p band hb).2
    refine ⟨he.trans (Table.total_congr fun f mq hq => (hqueue id hid p band hb f mq hq).symm), ?_⟩
    rw [he]; exact band.load_nonneg
  · have he := hshard id hid
    refine ⟨he.trans (Table.total_congr fun p band hb => (hband id hid p band hb).2.symm), ?_⟩
    rw [he]; exact (r.shards id).load_nonneg
  · have he := shown_eq (h.stats p st hst) (r.bandLoad_nonneg p) (hfit.mono (r.bandLoad_le p))
    refine ⟨he.trans (congrArg List.sum (List.map_congr_left fun id hid => ?_)), ?_⟩
    · rw [RegistryShard.bandLoad]
      cases hb : (r.shards id).priorityBands.lookup p with
      | none => rfl
      | some band => exact (hband id hid p band hb).2.symm
    · rw [he]; exact r.bandLoad_nonneg p
  · have he := shown_eq h.totals r.load_nonneg hfit
    refine ⟨he.trans (congrArg List.sum (List.map_congr_left fun id hid => (hshard id hid).symm)), ?_⟩
    rw [he]; exact r.load_nonneg

end FlowRegistry

/-! ## Runs -/

/-- Flows, bands and shards are added, and requests come and go: no collection,
and a request is added to a queue of a registered shard that does not hold it. -/
def Op.Growing (r : FlowRegistry α) : Op α → Prop
  | .queue id key op => id ∈ r.allShards ∧ match op with
      | .add x => ∀ mq ∈ (r.shards id).managedQueue key, x ∉ mq.items
      | _ => True
  | .gc => False
  | .detached _ _ _ => False
  | _ => True

variable [DecidableEq α]

instance (r : FlowRegistry α) (op : Op α) : Decidable (op.Growing r) :=
  match op with
  | .queue id key (.add x) =>
    inferInstanceAs (Decidable (id ∈ r.allShards ∧ ∀ mq ∈ (r.shards id).managedQueue key, x ∉ mq.items))
  | .queue id _ (.remove _) => inferInstanceAs (Decidable (id ∈ r.allShards ∧ True))
  | .queue id _ (.cleanup _) => inferInstanceAs (Decidable (id ∈ r.allShards ∧ True))
  | .queue id _ .drain => inferInstanceAs (Decidable (id ∈ r.allShards ∧ True))
  | .gc => .isFalse nofun
  | .detached _ _ _ => .isFalse nofun
  | .connect _ => .isTrue trivial
  | .disconnect _ _ => .isTrue trivial
  | .tick _ => .isTrue trivial
  | .scale _ => .isTrue trivial

theorem FlowRegistry.Agreed.step (h : r.Agreed) {op : Op α} (hop : op.Growing r) (hok : r.step op = .ok r') :
    r'.Agreed := by
  cases op with
  | connect key => exact h.connect hok
  | disconnect key since => cases hok; exact h.disconnect key since
  | tick d =>
    cases hok
    exact ⟨{ h.topology with }, h.within, h.shards, h.stats, h.totals⟩
  | gc | detached id i op => exact hop.elim
  | scale n => exact h.updateShardCount hok
  | queue id key op => exact h.queueOp hop.1 (fun x hx => by subst hx; exact hop.2) hok

/-- A request that comes in fits beside those that are there. -/
def Op.FitsIn (r : FlowRegistry α) (op : Op α) : Prop := ∀ id key x, op = .queue id key (.add x) → Fits (load x + r.load)

namespace FlowRegistry

theorem Agreed.queueOp_total (h : r.Agreed) {id : Nat} {key : FlowKey} {op : QueueOp α} (hfit : Fits r.load)
    (hop : Op.Growing r (.queue id key op)) (hin : Op.FitsIn r (.queue id key op)) :
    ∃ r', r.queueOp id key op = .ok r' := by
  have hshard : ∃ s d, (r.shards id).queueOp key op = .ok (s, d) ∧ (d = none ∨ key.priority ∈ r.config.priorityBands) := by
    cases hmq : (r.shards id).managedQueue key with
    | none => exact ⟨_, none, by rw [RegistryShard.queueOp, hmq], .inl rfl⟩
    | some mq =>
      obtain ⟨band, hb, hq⟩ := Option.bind_eq_some_iff.1 hmq
      have hle := queue_le hop.1 hmq
      have hexact := ((h.shards id hop.1).bands _ _ hb).queues _ _ hq
      obtain ⟨⟨mq', d⟩, hperf⟩ := ManagedQueue.perform_total hexact (r.shards id).isDraining (hfit.mono hle).1
        fun x (hx : op = .add x) => by
          subst hx
          exact ⟨hop.2 mq hmq, ((hin id key x rfl).mono (add_le_add_right hle _)).1⟩
      obtain ⟨s, hs⟩ := RegistryShard.queueOp_total hmq hperf
      exact ⟨s, d, hs, .inr (h.mem_config hop.1 (Table.mem_of_lookup hb))⟩
  obtain ⟨s, d, hs, hd⟩ := hshard
  obtain ⟨r', hr'⟩ := h.topology.finishOp_total id s hd
  exact ⟨r', by rw [FlowRegistry.queueOp, hs]; exact hr'⟩

/-- No check fails; a connection finds the bands it needs while no shard is draining. -/
theorem Agreed.step_total (h : r.Agreed) (hfit : Fits r.load) {op : Op α} (hop : op.Growing r) (hin : op.FitsIn r)
    (hconnect : r.drainingShards = [] ∨ ∀ key, op ≠ .connect key) : ∃ r', r.step op = .ok r' := by
  cases op with
  | connect key =>
    have hnone := hconnect.resolve_right fun hne => hne key rfl
    exact h.topology.connect_total (fun id hid => by rw [hnone] at hid; cases hid) (.inr (.inr hnone))
  | disconnect key since | tick d => exact ⟨_, rfl⟩
  | gc | detached id i op => exact hop.elim
  | scale n => exact h.topology.updateShardCount_total n
  | queue id key op => exact h.queueOp_total hfit hop hin

end FlowRegistry

/-- In every run in which flows, bands and shards are added and requests come and
go, as long as the number of requests and of bytes held fit in 63 bits, the
counters at every level are the sums of those below, a queue's are the number
and bytes of its requests, and none is negative. No next operation is stopped by
the check for a negative length or by another one, if its request fits too and no
shard is draining when it connects. -/
theorem counters_agree (cfg : ValidConfig α) (now : Int) (r₀ r : FlowRegistry α)
    (h₀ : newFlowRegistry cfg.toConfig now = .ok r₀)
    (hrun : Runs step (fun r op => Op.Growing r op) r₀ r) (hfit : Fits r.load) :
    r.CountersAgree ∧ ∀ op : Op α, op.Growing r → op.FitsIn r → (r.drainingShards = [] ∨ ∀ key, op ≠ .connect key) →
      ∃ r', r.step op = .ok r' := by
  have hinv : r.Agreed := Runs.invariant FlowRegistry.Agreed (fun _ _ _ hs hC hok => hs.step hC hok)
    (newFlowRegistry_agreed cfg now h₀) hrun
  exact ⟨hinv.countersAgree hfit, fun op => hinv.step_total hfit⟩

/-- Two flows, a new band, a third shard, and requests that come and go; all can be drained next. -/
theorem counters_agree_growing : ∃ r₀ r : FlowRegistry Request,
    newFlowRegistry Request.config.toConfig 1 = .ok r₀ ∧
    Runs step (fun r op => Op.Growing r op) r₀ r ∧ (r.load = (2, 30) ∧ 1 ∈ r.allShards) ∧ r.CountersAgree ∧
      ∃ r', r.step (.queue 1 ⟨"b", 7⟩ .drain) = .ok r' := by
  refine exists_run
    [.connect ⟨"a", 0⟩, .queue 0 ⟨"a", 0⟩ (.add ⟨1, 10⟩), .connect ⟨"b", 7⟩, .queue 1 ⟨"b", 7⟩ (.add ⟨2, 20⟩), .scale 3,
      .queue 2 ⟨"b", 7⟩ (.add ⟨3, 5⟩), .queue 2 ⟨"b", 7⟩ (.remove (.own 0)), .queue 2 ⟨"b", 7⟩ (.remove (.own 0))]
    (fun r => r.load = (2, 30) ∧ 1 ∈ r.allShards) (by decide +kernel) fun r₀ r h₀ hrun hr => ⟨hr, ?_⟩
  have hfit : Fits r.load := by
    rw [hr.1]
    exact ⟨by norm_num, by norm_num⟩
  obtain ⟨hagree, hnext⟩ := counters_agree Request.config 1 r₀ r h₀ hrun hfit
  exact ⟨hagree, hnext _ ⟨hr.2, trivial⟩ (by simp [Op.FitsIn]) (.inr (by simp))⟩

/-- An operation on a queue, or one that connects a flow. -/
def Op.OnQueues : Op α → Bool
  | .connect _ | .queue _ _ _ => true
  | _ => false

/-- Two requests of 2⁶² bytes: the sum is one too many for a 64-bit counter. And a request that
is added twice and removed by both a cleanup and its first handle: the other request of
the queue is not counted any more. -/
theorem counters_overflow :
    (∃ r₀ r : FlowRegistry Request, newFlowRegistry Request.config.toConfig 1 = .ok r₀ ∧
      Runs step (fun r op => Op.Growing r op) r₀ r ∧ r.load = (2, 2 ^ 63) ∧ r.totalByteSize < 0) ∧
    ∃ r₀ r : FlowRegistry Request, newFlowRegistry Request.config.toConfig 1 = .ok r₀ ∧
      Runs step (fun _ op => op.OnQueues) r₀ r ∧ r.load = (1, 20) ∧ r.totalLen = 0 :=
  ⟨exists_run [.connect ⟨"a", 0⟩, .queue 0 ⟨"a", 0⟩ (.add ⟨1, 2 ^ 62⟩), .queue 0 ⟨"a", 0⟩ (.add ⟨2, 2 ^ 62⟩)]
      (fun r : FlowRegistry Request => _) (by decide +kernel) fun _ _ _ _ h => h,
    exists_run [.connect ⟨"a", 0⟩, .queue 0 ⟨"a", 0⟩ (.add ⟨1, 10⟩), .queue 0 ⟨"a", 0⟩ (.add ⟨1, 10⟩),
        .queue 0 ⟨"a", 0⟩ (.add ⟨2, 20⟩), .queue 0 ⟨"a", 0⟩ (.cleanup fun x => x.id = 1), .queue 0 ⟨"a", 0⟩ (.remove (.own 0))]
      (fun r : FlowRegistry Request => _) (by decide +kernel) fun _ _ _ _ h => h⟩

end InferenceGateway.Registry
