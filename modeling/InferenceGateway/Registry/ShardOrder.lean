import InferenceGateway.Registry.Contents
/-!
# The order of the shards

`updateAllShardsCacheLocked` sorts the shards by their names, in which the number has four
digits at least. Up to the number 9999 that is the order in which they were made; after that
`shard-10000` comes before `shard-9999`.
-/

namespace InferenceGateway.Registry

open Lib Queue List FlowRegistry

variable {α : Type} {r r' : FlowRegistry α}

/-! ## Names -/

theorem toList_shardName {n : Nat} (hn : n < 10000) : (shardName n).toList = "shard-".toList ++
    [(n / 1000).digitChar, (n / 100 % 10).digitChar, (n / 10 % 10).digitChar, (n % 10).digitChar] := by
  have hlast : ∀ m, 10 ≤ m → Nat.toDigits 10 m = Nat.toDigits 10 (m / 10) ++ [(m % 10).digitChar] := fun m =>
    Nat.toDigits_of_base_le (by decide)
  have hone : ∀ m, m < 10 → Nat.toDigits 10 m = [m.digitChar] := fun m => Nat.toDigits_of_lt_base
  have hname : (shardName n).toList =
      "shard-".toList ++ (replicate (4 - (Nat.toDigits 10 n).length) '0' ++ Nat.toDigits 10 n) := by
    simp [shardName, toString, Nat.repr]
  rw [hname]
  refine congrArg _ ?_
  rcases lt_or_ge n 10 with h1 | h1
  · simp [hone n h1, show n / 1000 = 0 by omega, show n / 100 = 0 by omega, show n / 10 = 0 by omega, Nat.mod_eq_of_lt h1]
  rw [hlast n h1]
  rcases lt_or_ge n 100 with h2 | h2
  · simp [hone (n / 10) (by omega), show n / 1000 = 0 by omega, show n / 100 = 0 by omega, show n / 10 % 10 = n / 10 by omega]
  rw [hlast (n / 10) (by omega), Nat.div_div_eq_div_mul]
  rcases lt_or_ge n 1000 with h3 | h3
  · simp [hone (n / 100) (by omega), show n / 1000 = 0 by omega, show n / 100 % 10 = n / 100 by omega]
  · simp [hlast (n / 100) (by omega), Nat.div_div_eq_div_mul, hone (n / 1000) (by omega)]

theorem digitChar_lt {a b : Nat} (hb : b < 10) (h : a < b) : a.digitChar < b.digitChar := by
  interval_cases b <;> interval_cases a <;> decide

theorem shardName_lt {a b : Nat} (hab : a < b) (hb : b < 10000) : shardName a < shardName b := by
  rw [String.lt_iff, toList_shardName hb, toList_shardName (by omega)]
  apply List.append_left_lt
  simp only [List.cons_lt_cons_iff]
  rcases lt_trichotomy (a / 1000) (b / 1000) with h1 | h1 | h1
  · exact .inl (digitChar_lt (by omega) h1)
  · rw [h1]
    rcases lt_trichotomy (a / 100) (b / 100) with h2 | h2 | h2
    · exact .inr ⟨rfl, .inl (digitChar_lt (by omega) (by omega))⟩
    · rw [h2]
      rcases lt_trichotomy (a / 10) (b / 10) with h3 | h3 | h3
      · exact .inr ⟨rfl, .inr ⟨rfl, .inl (digitChar_lt (by omega) (by omega))⟩⟩
      · rw [h3]
        exact .inr ⟨rfl, .inr ⟨rfl, .inr ⟨rfl, .inl (digitChar_lt (by omega) (by omega))⟩⟩⟩
      · omega
    · omega
  · omega

/-! ## Which operations sort -/

/-- The list of all shards is sorted by name. -/
def ByName (r : FlowRegistry α) : Prop := r.allShards.Pairwise fun a b => shardName a ≤ shardName b

theorem byName_update (r : FlowRegistry α) : ByName r.updateAllShardsCacheLocked := by
  have : Std.Total fun a b => shardName a ≤ shardName b := ⟨fun _ _ => le_total _ _⟩
  have : IsTrans Nat fun a b => shardName a ≤ shardName b := ⟨fun _ _ _ => le_trans⟩
  exact pairwise_insertionSort _ _

theorem ByName.updateShardCount (h : ByName r) {n : Int} (hok : r.updateShardCount n = .ok r') : ByName r' := by
  unfold FlowRegistry.updateShardCount executeScaleUpLocked executeScaleDownLocked at hok
  split_ifs at hok
  · cases hok; exact h
  · cases hok; exact h
  · split at hok
    · cases hok; exact h
    · split at hok
      · cases hok
      · obtain ⟨r₁, -, rfl⟩ := map_ok hok
        exact byName_update r₁
  · obtain ⟨r₁, -, rfl⟩ := map_ok hok
    exact byName_update r₁

theorem allShards_cleanupFlowResources (keys : List FlowKey) : ∀ r : FlowRegistry α,
    (r.cleanupFlowResources keys).allShards = r.allShards := by
  induction keys with
  | nil => exact fun _ => rfl
  | cons key keys ih =>
    intro r
    rw [cleanupFlowResources, ih]
    split <;> rfl

theorem allShards_cleanupPriorityBandResources (ps : List Int) : ∀ r : FlowRegistry α,
    (r.cleanupPriorityBandResources ps).allShards = r.allShards := by
  induction ps with
  | nil => exact fun _ => rfl
  | cons p ps ih =>
    intro r
    refine (ih (r.deleteBand p)).trans ?_
    unfold deleteBand
    split <;> rfl

theorem ByName.executeGCCycle (h : ByName r) : ByName r.executeGCCycle := by
  unfold FlowRegistry.executeGCCycle sweepDrainingShards
  dsimp only
  split
  · rw [ByName, gcPriorityBands, allShards_cleanupPriorityBandResources]
    change (r.gcFlows.allShards).Pairwise _
    rw [gcFlows, allShards_cleanupFlowResources]
    exact h
  · exact byName_update _

variable [QueueItemAccessor α] [DecidableEq α]

theorem ByName.step (ht : r.Topology) (h : ByName r) {op : Op α} (hok : r.step op = .ok r') : ByName r' := by
  cases op with
  | connect key => rwa [ByName, (connect_alike ht hok).all]
  | disconnect key since =>
    cases hok
    unfold FlowRegistry.disconnect
    split
    · exact h
    · split <;> exact h
  | tick d => cases hok; exact h
  | gc => cases hok; exact h.executeGCCycle
  | scale n => exact h.updateShardCount hok
  | queue id key op =>
    simp only [FlowRegistry.step, FlowRegistry.queueOp] at hok
    split at hok
    · cases hok
    · obtain ⟨_, _, _, rfl, -⟩ := finishOp_ok hok
      exact h
  | detached id i op =>
    simp only [FlowRegistry.step, FlowRegistry.detachedOp] at hok
    split at hok
    · cases hok; exact h
    · split at hok
      · cases hok
      · obtain ⟨_, _, _, rfl, -⟩ := finishOp_ok hok
        exact h

/-! ## Runs -/

/-- In every run the shards are the active and the draining ones, each once, and they are in
the order in which they were made as long as their numbers have four digits. -/
theorem shards_in_order (cfg : ValidConfig α) (now : Int) (r₀ r : FlowRegistry α)
    (h₀ : newFlowRegistry cfg.toConfig now = .ok r₀) (hrun : Runs FlowRegistry.step (fun _ _ => True) r₀ r) :
    r.allShards.Perm (r.activeShards ++ r.drainingShards) ∧ r.allShards.Nodup ∧
      ((∀ id ∈ r.allShards, id < 10000) → r.allShards.Pairwise (· < ·)) := by
  have hempty : ByName (emptyRegistry cfg.toConfig now) := .nil
  obtain ⟨ht, hname⟩ := hrun.invariant (fun r => r.Topology ∧ ByName r)
    (fun r op r' h _ hok => ⟨(h.1.step hok).1, h.2.step h.1 hok⟩)
    ⟨(newFlowRegistry_topology cfg now h₀).1, hempty.updateShardCount h₀⟩
  refine ⟨ht.perm, ht.nodup_all, fun hbelow => ?_⟩
  refine (ht.nodup_all.and hname).imp_of_mem fun {a b} ha hb hab => ?_
  by_contra hle
  exact absurd (shardName_lt (lt_of_le_of_ne (not_lt.1 hle) hab.1.symm) (hbelow a ha)) (not_lt.2 hab.2)

theorem shards_in_order_scaled : ∃ r₀ r : FlowRegistry Request, newFlowRegistry Request.config.toConfig 1 = .ok r₀ ∧
    Runs FlowRegistry.step (fun _ _ => True) r₀ r ∧ r.allShards.Pairwise (· < ·) :=
  exists_run [.scale 1, .scale 3, .gc] (fun r => ∀ id ∈ r.allShards, id < 10000) (by decide +kernel)
    fun r₀ r h₀ hrun hbelow => (shards_in_order Request.config 1 r₀ r h₀ hrun).2.2 hbelow

/-- More shards than four digits can number. -/
def Request.manyShards : ValidConfig Request :=
  { Request.config with initialShardCount := 10001, valid := by decide +kernel }

omit [QueueItemAccessor α] [DecidableEq α] in
theorem mem_newFlowRegistry {config : Config α} {now : Int} (hok : newFlowRegistry config now = .ok r) {id : Nat}
    (hid : id < config.initialShardCount.toNat) : id ∈ r.allShards := by
  have hcomps : (emptyRegistry config now).buildAllComponents = some [] := rfl
  unfold newFlowRegistry FlowRegistry.updateShardCount executeScaleUpLocked at hok
  rw [hcomps, if_neg (by omega), if_neg (by simp [emptyRegistry]; omega), if_pos (by simp [emptyRegistry]; omega)] at hok
  dsimp only at hok
  split at hok
  · cases hok
  · obtain ⟨r₁, hr₁, rfl⟩ := map_ok hok
    obtain ⟨shards, -, rfl⟩ := map_ok hr₁
    simpa [updateAllShardsCacheLocked, emptyRegistry] using hid

/-- The shard with the number 10000 comes before the one with the number 9999. -/
theorem shards_out_of_order : ∃ r : FlowRegistry Request, newFlowRegistry Request.manyShards.toConfig 1 = .ok r ∧
    ¬ r.allShards.Pairwise (· < ·) := by
  have hempty : ByName (emptyRegistry Request.manyShards.toConfig 1) := .nil
  obtain ⟨r, hr⟩ := (emptyRegistry_topology Request.manyShards 1).updateShardCount_total 10001
  refine ⟨r, hr, fun hlt => ?_⟩
  have hname : r.allShards.Pairwise fun a b => shardName a ≤ shardName b := hempty.updateShardCount hr
  have hmem : ∀ id < 10001, id ∈ r.allShards := fun id hid => mem_newFlowRegistry hr hid
  obtain ⟨before, after, hl⟩ := append_of_mem (hmem 9999 (by decide))
  have hlast := hmem 10000 (by decide)
  rw [hl] at hlt hname hlast
  rcases mem_append.1 hlast with hlast | hlast
  · exact absurd ((pairwise_append.1 hlt).2.2 _ hlast _ mem_cons_self) (by decide)
  · have hafter := (mem_cons.1 hlast).resolve_left (by decide)
    exact absurd ((pairwise_cons.1 (pairwise_append.1 hname).2.1).1 _ hafter) (by decide +kernel)

end InferenceGateway.Registry
