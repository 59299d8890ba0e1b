import InferenceGateway.Registry.Frame
/-!
# What a registry operation does

Each operation once, as what it does to every shard and to the rest of the
registry. The invariants use these and do not look at the loops again.
-/

namespace InferenceGateway.Registry

open Lib Queue List RegistryShard

variable {α : Type} {r r' : FlowRegistry α}

namespace FlowRegistry

/-- `shards'` is `shards` with `f i` done to the `i`-th of `ids`. -/
structure Loop (ids : List Nat) (f : Nat → RegistryShard α → Except Fault (RegistryShard α))
    (shards shards' : Nat → RegistryShard α) : Prop where
  inside : ∀ i (hi : i < ids.length), f i (shards ids[i]) = .ok (shards' ids[i])
  outside : ∀ id, id ∉ ids → shards' id = shards id

theorem Loop.of_mem {ids : List Nat} {f : Nat → RegistryShard α → Except Fault (RegistryShard α)}
    {shards shards' : Nat → RegistryShard α} (h : Loop ids f shards shards') {id : Nat} (hid : id ∈ ids) :
    ∃ i, ∃ hi : i < ids.length, ids[i] = id ∧ f i (shards id) = .ok (shards' id) := by
  obtain ⟨i, hi, rfl⟩ := getElem_of_mem hid
  exact ⟨i, hi, rfl, h.inside i hi⟩

/-- What holds of a shard left as it is and of each shard visited, holds of every shard. -/
theorem Loop.each {P : RegistryShard α → RegistryShard α → Prop} {ids : List Nat}
    {f : Nat → RegistryShard α → Except Fault (RegistryShard α)} {shards shards' : Nat → RegistryShard α}
    (h : Loop ids f shards shards') (hrefl : ∀ s, P s s)
    (hf : ∀ id ∈ ids, ∀ i, f i (shards id) = .ok (shards' id) → P (shards id) (shards' id)) (id : Nat) :
    P (shards id) (shards' id) := by
  by_cases hid : id ∈ ids
  · obtain ⟨i, -, -, hs⟩ := h.of_mem hid
    exact hf id hid i hs
  · rw [h.outside id hid]
    exact hrefl _

theorem onShards_each {P : RegistryShard α → RegistryShard α → Prop} {f : RegistryShard α → RegistryShard α}
    (hrefl : ∀ s, P s s) (hf : ∀ s, P s (f s)) (ids : List Nat) (shards : Nat → RegistryShard α) (id : Nat) :
    P (shards id) (onShards ids f shards id) := by
  unfold onShards
  split
  · exact hf _
  · exact hrefl _

theorem loop_of_forAll {ids : List Nat} (hn : ids.Nodup) {f : Nat → RegistryShard α → Except Fault (RegistryShard α)}
    {shards shards' : Nat → RegistryShard α} (h : forAll ids f shards = .ok shards') : Loop ids f shards shards' :=
  ⟨(forAll_ok hn h).1, (forAll_ok hn h).2⟩

/-! ## Loops over the active shards -/

variable (hn : r.activeShards.Nodup)
include hn

theorem repartition_ok (h : r.repartitionShardConfigsLocked = .ok r') :
    ∃ shards, r' = { r with shards := shards } ∧
      Loop r.activeShards (fun i s => s.updateConfig (r.config.partition i r.activeShards.length)) r.shards shards := by
  obtain ⟨shards, h1, h2⟩ := map_ok h
  exact ⟨shards, h2.symm, loop_of_forAll hn h1⟩

/-- It never fails on shards that only have bands of the configuration. -/
theorem repartition_total (hk : r.config.Keyed)
    (hb : ∀ id ∈ r.activeShards, ∀ p, p ∈ (r.shards id).priorityBands → p ∈ r.config.priorityBands) :
    ∃ r', r.repartitionShardConfigsLocked = .ok r' := by
  obtain ⟨shards, hs⟩ : ∃ shards, forAll r.activeShards
      (fun i s => s.updateConfig (r.config.partition i r.activeShards.length)) r.shards = .ok shards :=
    forAll_total hn fun i hi => by
      apply updateConfig_ok
      intro p hp
      rw [Table.mem_iff_lookup, hk.lookup_partition]
      obtain ⟨c, hc⟩ := Table.mem_iff_lookup.1 (hb _ (getElem_mem hi) p hp)
      exact ⟨_, by rw [hc]; rfl⟩
  exact ⟨{ r with shards := shards }, by unfold repartitionShardConfigsLocked; rw [hs]; rfl⟩

variable {p : Int}

theorem addBandToShards_ok (h : r.addBandToShards p = .ok r') :
    ∃ shards, r' = { r with shards := shards } ∧
      Loop r.activeShards (fun _ s => s.addPriorityBand p) r.shards shards := by
  obtain ⟨shards, h1, h2⟩ := map_ok h
  exact ⟨shards, h2.symm, loop_of_forAll hn h1⟩

theorem addBandToShards_total
    (hc : ∀ id ∈ r.activeShards, p ∈ (r.shards id).config.priorityBands) : ∃ r', r.addBandToShards p = .ok r' := by
  obtain ⟨shards, hs⟩ : ∃ shards, forAll r.activeShards (fun _ s => s.addPriorityBand p) r.shards = .ok shards :=
    forAll_total hn fun i hi => by
    obtain ⟨c, hl⟩ := Table.mem_iff_lookup.1 (hc _ (getElem_mem hi))
    unfold addPriorityBand
    split
    · exact ⟨_, rfl⟩
    · rw [hl]; exact ⟨_, rfl⟩
  exact ⟨{ r with shards := shards }, by unfold addBandToShards; rw [hs]; rfl⟩

omit hn

/-! ## Connections -/

theorem withBand_keyed (hk : r.config.Keyed) (p : Int) : (r.withBand p).config.Keyed := by
  intro e he
  have hl := Table.lookup_mem_entries.1 (show (⟨e.1, e.2⟩ : Sigma fun _ : Int => PriorityBandConfig α) ∈ _ from he)
  simp only [withBand] at hl
  by_cases hp : e.1 = p
  · rw [hp, AList.lookup_insert, Option.some.injEq] at hl
    rw [← hl, hp]
  · rw [AList.lookup_insert_ne hp] at hl
    exact hk _ (Table.lookup_mem_entries.2 hl)

/-- A new band reaches every active shard: first its configuration, then itself. -/
theorem ensurePriorityBand_ok (hn : r.activeShards.Nodup) (hp : p ∉ r.config.priorityBands)
    (h : r.ensurePriorityBand p = .ok r') : ∃ shards₁ shards₂, r' = { r.withBand p with shards := shards₂ } ∧
      Loop r.activeShards (fun i s => s.updateConfig ((r.withBand p).config.partition i r.activeShards.length))
        r.shards shards₁ ∧
      Loop r.activeShards (fun _ s => s.addPriorityBand p) shards₁ shards₂ := by
  unfold ensurePriorityBand at h
  rw [if_neg hp] at h
  split at h
  · cases h
  · rename_i r₂ hr
    obtain ⟨shards₁, rfl, hl₁⟩ := repartition_ok (r := r.withBand p) hn hr
    obtain ⟨shards₂, rfl, hl₂⟩ := addBandToShards_ok (r := { r.withBand p with shards := shards₁ }) hn h
    exact ⟨shards₁, shards₂, rfl, hl₁, hl₂⟩

theorem ensurePriorityBand_total (hn : r.activeShards.Nodup) (hk : r.config.Keyed)
    (hb : ∀ id ∈ r.activeShards, ∀ p, p ∈ (r.shards id).priorityBands → p ∈ r.config.priorityBands) (p : Int) :
    ∃ r', r.ensurePriorityBand p = .ok r' := by
  by_cases hp : p ∈ r.config.priorityBands
  · exact ⟨r, by unfold ensurePriorityBand; rw [if_pos hp]⟩
  · obtain ⟨r₁, h1⟩ := repartition_total (r := r.withBand p) hn (withBand_keyed hk p) fun id hid q hq => by
      simp only [withBand, AList.mem_insert]
      exact .inr (hb id hid q hq)
    obtain ⟨shards₁, rfl, hl₁⟩ := repartition_ok (r := r.withBand p) hn h1
    obtain ⟨r₂, h2⟩ := addBandToShards_total (r := { r.withBand p with shards := shards₁ }) hn (p := p)
      fun id hid => by
        obtain ⟨i, hi, rfl, hu⟩ := hl₁.of_mem hid
        rw [(frame_updateConfig hu p).1, Table.mem_iff_lookup, (withBand_keyed hk p).lookup_partition]
        exact ⟨_, by rw [withBand, AList.lookup_insert]; rfl⟩
    refine ⟨r₂, ?_⟩
    unfold ensurePriorityBand
    rw [if_neg hp]
    rw [h1]; exact h2

theorem synchronizeShards_ok (hn : r.allShards.Nodup) {key : FlowKey} {ok : Bool}
    (h : r.synchronizeShards key = .ok (r', ok)) :
    (ok = false ∧ r' = r) ∨ ∃ policy q shards, ok = true ∧ r.buildFlowComponents key = some (policy, q) ∧
      r' = { r with shards := shards } ∧
      Loop r.allShards (fun _ s => s.synchronizeFlow key policy q) r.shards shards := by
  unfold synchronizeShards at h
  split at h
  · cases h; exact .inl ⟨rfl, rfl⟩
  · rename_i policy q hc
    obtain ⟨shards, h1, h2⟩ := map_ok h
    rw [Prod.mk.injEq] at h2
    exact .inr ⟨policy, q, shards, h2.2.symm, hc, h2.1.symm, loop_of_forAll hn h1⟩

/-- It fails only on a shard without the flow's band. -/
theorem synchronizeShards_total (hn : r.allShards.Nodup) {key : FlowKey}
    (hb : ∀ id ∈ r.allShards, key.priority ∈ (r.shards id).priorityBands) :
    ∃ res, r.synchronizeShards key = .ok res := by
  unfold synchronizeShards
  split
  · exact ⟨_, rfl⟩
  · rename_i policy q hc
    obtain ⟨shards, hs⟩ : ∃ shards,
        forAll r.allShards (fun _ s => s.synchronizeFlow key policy q) r.shards = .ok shards :=
      forAll_total hn fun i hi => synchronizeFlow_total policy q (hb _ (getElem_mem hi))
    exact ⟨({ r with shards := shards }, true), by rw [hs]; rfl⟩

/-! ## Scaling -/

theorem scaleUp_ok {n : Nat} (hn : (r.activeShards ++ List.range' r.nextShardID (n - r.activeShards.length)).Nodup)
    (h : r.executeScaleUpLocked n = .ok r') :
    r' = r ∨ ∃ comps shards₁ r₁, r.buildAllComponents = some comps ∧
      Loop (List.range' r.nextShardID (n - r.activeShards.length)) (fun _ s => synchronizeFlows s comps)
        (r.newShards n) shards₁ ∧
      { r with
        shards := shards₁
        activeShards := r.activeShards ++ List.range' r.nextShardID (n - r.activeShards.length)
        nextShardID := r.nextShardID + (n - r.activeShards.length) }.repartitionShardConfigsLocked = .ok r₁ ∧
      r' = r₁.updateAllShardsCacheLocked := by
  unfold executeScaleUpLocked at h
  split at h
  · cases h; exact .inl rfl
  · rename_i comps hc
    split at h
    · cases h
    · rename_i shards₁ hs
      obtain ⟨r₁, h1, h2⟩ := map_ok h
      exact .inr ⟨comps, shards₁, r₁, hc, loop_of_forAll (nodup_append.1 hn).2.1 hs, h1, h2.symm⟩

end FlowRegistry

end InferenceGateway.Registry
