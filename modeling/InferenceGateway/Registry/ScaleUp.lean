import InferenceGateway.Registry.Administration
/-!
# Scaling up in stages

`executeScaleUpLocked` as the source runs it: the new shards are made first, then
the components of every flow for every one of them, and only then is anything
entered in the registry. The new shards are objects that no list names yet; an
error of the second stage returns with them made. A queue constructor may fail at
any call, and the flows come in any order, for each shard in its own.
-/

namespace InferenceGateway.Registry

open Lib Queue List FlowRegistry RegistryShard Option Request

variable {α : Type}

/-- The errors of `buildFlowComponents`. -/
inductive BuildError where
  /-- `priority band %d not found`, around `ErrPriorityBandNotFound`. -/
  | priorityBandNotFound (priority : Int)
  /-- `failed to instantiate queue %q for flow %s`, around the constructor's error. -/
  | queue (name : String) (key : FlowKey)
deriving DecidableEq, Repr

/-- The errors of `updateShardCount`. -/
inductive UpdateError where
  /-- `shard count must be a positive integer, but got %d`, around `ErrInvalidShardCount`. -/
  | invalidShardCount (n : Int)
  /-- `failed to prepare components for flow %s on new shards`, around a `BuildError`. -/
  | prepare (key : FlowKey) (err : BuildError)
deriving DecidableEq, Repr

structure FlowComponents (α : Type) where
  policy : OrderingPolicy α
  queue : SafeQueue α

/-- What `NewQueueFromName` returns in the `i`-th call for a flow. -/
def Construct (α : Type) : Type := FlowKey → Nat → String → OrderingPolicy α → Option (SafeQueue α)

/-- The components of one flow, one for each of `n` shards. -/
def Instances (α : Type) (n : Nat) : Type := { cs : List (FlowComponents α) // cs.length = n }

def Instances.get {n : Nat} (cs : Instances α n) (i : Nat) (hi : i < n) : FlowComponents α :=
  cs.1.get ⟨i, by rw [cs.2]; exact hi⟩

/-! ## Shards with maps in any order -/

/-- A band apart from its queues. -/
def PriorityBand.hull (band : PriorityBand α) : PriorityBand α := { band with queues := ∅ }

/-- The shard apart from the queues of its bands. -/
structure RegistryShard.SameHull (s s' : RegistryShard α) : Prop where
  rest : s' = { s with priorityBands := s'.priorityBands }
  bands : ∀ p, (s'.priorityBands.lookup p).map PriorityBand.hull = (s.priorityBands.lookup p).map PriorityBand.hull

/-- The same shard, with its maps in any order. -/
structure RegistryShard.SameAs (s s' : RegistryShard α) : Prop extends s.SameHull s' where
  queues : ∀ key, s'.managedQueue key = s.managedQueue key

/-- The same registry, with the maps of its shards in any order. -/
structure FlowRegistry.SameAs (r r' : FlowRegistry α) : Prop where
  rest : r' = { r with shards := r'.shards }
  shards : ∀ id, (r.shards id).SameAs (r'.shards id)

namespace RegistryShard

variable {s s' s₁ s₂ : RegistryShard α}

theorem SameHull.refl (s : RegistryShard α) : s.SameHull s := ⟨rfl, fun _ => rfl⟩

theorem SameHull.trans {s'' : RegistryShard α} (h : s.SameHull s') (h' : s'.SameHull s'') : s.SameHull s'' where
  rest := by rw [h'.rest, h.rest]
  bands p := (h'.bands p).trans (h.bands p)

theorem SameHull.symm (h : s.SameHull s') : s'.SameHull s where
  rest := by rw [h.rest]
  bands p := (h.bands p).symm

theorem sameHull_synchronizeFlow {key : FlowKey} {policy : OrderingPolicy α} {q : SafeQueue α}
    (h : s.synchronizeFlow key policy q = .ok s') : s.SameHull s' := by
  unfold synchronizeFlow at h
  split at h
  · cases h
  · rename_i band hb
    split at h <;> cases h
    · exact .refl s
    · refine ⟨rfl, fun p => ?_⟩
      rw [Table.lookup_insert_ite]
      split
      · subst p
        rw [hb]
        rfl
      · rfl

theorem sameHull_synchronizeFlows (comps : List (FlowKey × OrderingPolicy α × SafeQueue α)) : ∀ {s s' : RegistryShard α},
    synchronizeFlows s comps = .ok s' → s.SameHull s' := by
  induction comps with
  | nil =>
    intro s s' h
    cases h
    exact .refl s
  | cons c comps ih =>
    intro s s' h
    unfold synchronizeFlows at h
    split at h
    · cases h
    · rename_i s₁ hs
      exact (sameHull_synchronizeFlow hs).trans (ih h)

/-- A new configuration for the same shard. -/
theorem SameAs.updateConfig (h : s.SameAs s') {c : ShardConfig α} (h₁ : s.updateConfig c = .ok s₁)
    (h₂ : s'.updateConfig c = .ok s₂) : s₁.SameAs s₂ := by
  have hqueues : ∀ key, s₂.managedQueue key = s₁.managedQueue key := fun key => by
    rw [managedQueue_updateConfig h₂, h.queues, managedQueue_updateConfig h₁]
  unfold RegistryShard.updateConfig at h₁ h₂
  split at h₁ <;> cases h₁
  split at h₂ <;> cases h₂
  refine ⟨⟨by rw [h.rest], fun p => ?_⟩, hqueues⟩
  have hband := h.bands p
  simp only [Table.lookup_mapVals, Option.map_map] at hband ⊢
  cases hb : s.priorityBands.lookup p with
  | none =>
    rw [hb, Option.map_none, Option.map_eq_none_iff] at hband
    rw [hband]
  | some band =>
    rw [hb, Option.map_some, Option.map_eq_some_iff] at hband
    obtain ⟨band', hb', hhull⟩ := hband
    rw [hb', Option.map_some, Option.map_some, Option.some.injEq, Function.comp_apply, Function.comp_apply]
    simp only [PriorityBand.hull, PriorityBand.mk.injEq] at hhull
    cases c.priorityBands.lookup p <;> simp [PriorityBand.hull, hhull]

end RegistryShard

/-! ## The stages -/

namespace ScaleUp

/-- The loop of `buildFlowComponents`. -/
def instantiate (construct : Construct α) (key : FlowKey) (bandConfig : PriorityBandConfig α) :
    (numInstances : Nat) → Except BuildError (Instances α numInstances)
  | 0 => .ok ⟨[], rfl⟩
  | i + 1 =>
    match instantiate construct key bandConfig i with
    | .error e => .error e
    | .ok cs =>
      match construct key i bandConfig.queue bandConfig.orderingPolicy with
      | none => .error (.queue bandConfig.queue key)
      | some q => .ok ⟨cs.1 ++ [⟨bandConfig.orderingPolicy, q⟩], by rw [length_append, cs.2, length_singleton]⟩

def buildFlowComponents (construct : Construct α) (fr : FlowRegistry α) (key : FlowKey) (numInstances : Nat) :
    Except BuildError (Instances α numInstances) :=
  match fr.config.priorityBands.lookup key.priority with
  | none => .error (.priorityBandNotFound key.priority)
  | some bandConfig => instantiate construct key bandConfig numInstances

/-- `flowStates.Range`, over the flows in the order in which it meets them. -/
def prepareComponents (construct : Construct α) (fr : FlowRegistry α) (n : Nat) :
    List FlowKey → Table FlowKey (Instances α n) → Except UpdateError (Table FlowKey (Instances α n))
  | [], allComponents => .ok allComponents
  | key :: keys, allComponents =>
    match buildFlowComponents construct fr key n with
    | .error err => .error (.prepare key err)
    | .ok components => prepareComponents construct fr n keys (allComponents.insert key components)

/-- What the `i`-th new shard gets, with `allComponents` in the given order. -/
def components {n : Nat} (allComponents : Table FlowKey (Instances α n)) (order : List FlowKey) (i : Nat) (hi : i < n) :
    List (FlowKey × OrderingPolicy α × SafeQueue α) :=
  order.filterMap fun key => (allComponents.lookup key).map fun cs => (key, (cs.get i hi).policy, (cs.get i hi).queue)

/-- The body of the loop over the new shards. -/
def synchronize {n : Nat} (allComponents : Table FlowKey (Instances α n)) (orders : Nat → List FlowKey) (i : Nat)
    (s : RegistryShard α) : Except Fault (RegistryShard α) :=
  if hi : i < n then synchronizeFlows s (components allComponents (orders i) i hi) else .ok s

/-- The new shard objects. -/
def prepareShards (fr : FlowRegistry α) (newTotalActive : Nat) : FlowRegistry α :=
  { fr with shards := fr.newShards newTotalActive }

/-- The last stage: the new shards get their flows and are entered. -/
def commit (fr : FlowRegistry α) {n : Nat} (allComponents : Table FlowKey (Instances α n)) (orders : Nat → List FlowKey) :
    Except Fault (FlowRegistry α) :=
  match forAll (List.range' fr.nextShardID n) (synchronize allComponents orders) fr.shards with
  | .error e => .error e
  | .ok shards =>
    ({ fr with
      shards := shards
      activeShards := fr.activeShards ++ List.range' fr.nextShardID n
      nextShardID := fr.nextShardID + n }.repartitionShardConfigsLocked).map updateAllShardsCacheLocked

/-- `flows` is the order of `flowStates`, `orders i` that of `allComponents` for the `i`-th new shard. -/
def executeScaleUpLocked (construct : Construct α) (flows : List FlowKey) (orders : Nat → List FlowKey) (fr : FlowRegistry α)
    (newTotalActive : Nat) : Except Fault (Option UpdateError × FlowRegistry α) :=
  let numToAdd := newTotalActive - fr.activeShards.length
  let prepared := prepareShards fr newTotalActive
  match prepareComponents construct prepared numToAdd flows ∅ with
  | .error rangeErr => .ok (some rangeErr, prepared)
  | .ok allComponents => (commit prepared allComponents orders).map fun fr => (none, fr)

def updateShardCount (construct : Construct α) (flows : List FlowKey) (orders : Nat → List FlowKey) (fr : FlowRegistry α)
    (n : Int) : Except Fault (Option UpdateError × FlowRegistry α) :=
  if n ≤ 0 then .ok (some (.invalidShardCount n), fr)
  else if n = fr.activeShards.length then .ok (none, fr)
  else if n > fr.activeShards.length then executeScaleUpLocked construct flows orders fr n.toNat
  else (fr.executeScaleDownLocked n.toNat).map fun fr => (none, fr)

variable {construct : Construct α} {r r' : FlowRegistry α} {n : Nat}

/-! ## Components -/

variable {key : FlowKey} {m : Nat}

/-- Every instance is there, each from its own call. -/
theorem instantiate_ok {bandConfig : PriorityBandConfig α} {cs : Instances α m}
    (h : instantiate construct key bandConfig m = .ok cs) (i : Nat) (hi : i < m) :
    (cs.get i hi).policy = bandConfig.orderingPolicy ∧
      construct key i bandConfig.queue bandConfig.orderingPolicy = some (cs.get i hi).queue := by
  induction m with
  | zero => omega
  | succ m ih =>
    unfold instantiate at h
    split at h
    · cases h
    · rename_i cs₀ h₀
      split at h
      · cases h
      · rename_i q hq
        cases h
        by_cases hlast : i = m
        · subst i
          simp only [Instances.get, get_eq_getElem, getElem_append_right cs₀.2.le, cs₀.2, Nat.sub_self,
            getElem_cons_zero]
          exact ⟨trivial, hq⟩
        · have him : i < m := by omega
          have hget : ∀ h', (cs₀.1 ++ [FlowComponents.mk bandConfig.orderingPolicy q]).get ⟨i, h'⟩ = cs₀.get i him := fun h' =>
            getElem_append_left (by rw [cs₀.2]; exact him)
          simp only [Instances.get, hget]
          exact ih h₀ him

theorem buildFlowComponents_ok {cs : Instances α n} (h : buildFlowComponents construct r key n = .ok cs) :
    ∃ bandConfig, r.config.priorityBands.lookup key.priority = some bandConfig ∧ ∀ i (hi : i < n),
      (cs.get i hi).policy = bandConfig.orderingPolicy ∧
        construct key i bandConfig.queue bandConfig.orderingPolicy = some (cs.get i hi).queue := by
  unfold buildFlowComponents at h
  split at h
  · cases h
  · rename_i bandConfig hb
    exact ⟨bandConfig, hb, instantiate_ok h⟩

/-- The map has what was built for the flows that were met. -/
theorem prepareComponents_ok (keys : List FlowKey) : ∀ {all all' : Table FlowKey (Instances α n)},
    prepareComponents construct r n keys all = .ok all' →
    (∀ key ∈ keys, ∃ cs, buildFlowComponents construct r key n = .ok cs ∧ all'.lookup key = some cs) ∧
      ∀ key ∉ keys, all'.lookup key = all.lookup key := by
  induction keys with
  | nil =>
    intro all all' h
    cases h
    exact ⟨nofun, fun _ _ => rfl⟩
  | cons key keys ih =>
    intro all all' h
    unfold prepareComponents at h
    split at h
    · cases h
    · rename_i cs hcs
      obtain ⟨hin, hout⟩ := ih h
      refine ⟨fun k hk => ?_, fun k hk => ?_⟩
      · by_cases hmem : k ∈ keys
        · exact hin k hmem
        · obtain rfl : k = key := (mem_cons.1 hk).resolve_right hmem
          exact ⟨cs, hcs, by rw [hout k hmem, AList.lookup_insert]⟩
      · rw [mem_cons, not_or] at hk
        rw [hout k hk.2, AList.lookup_insert_ne hk.1]

/-- An error comes from the components of a flow that was met. -/
theorem prepareComponents_error (keys : List FlowKey) : ∀ {all : Table FlowKey (Instances α n)} {e : UpdateError},
    prepareComponents construct r n keys all = .error e →
    ∃ key ∈ keys, ∃ err, e = .prepare key err ∧ buildFlowComponents construct r key n = .error err := by
  induction keys with
  | nil => intro all e h; cases h
  | cons key keys ih =>
    intro all e h
    unfold prepareComponents at h
    split at h
    · rename_i err herr
      cases h
      exact ⟨key, mem_cons_self, err, rfl, herr⟩
    · obtain ⟨k, hk, hrest⟩ := ih h
      exact ⟨k, mem_cons_of_mem _ hk, hrest⟩

variable {all : Table FlowKey (Instances α n)}

theorem mem_components {order : List FlowKey} {i : Nat} {hi : i < n} :
    (∃ c ∈ components all order i hi, c.1 = key) ↔ key ∈ order ∧ key ∈ all := by
  simp only [components, mem_filterMap, map_eq_some_iff]
  constructor
  · rintro ⟨c, ⟨k, hk, cs, hcs, rfl⟩, rfl⟩
    exact ⟨hk, Table.mem_of_lookup hcs⟩
  · rintro ⟨hk, hall⟩
    obtain ⟨cs, hcs⟩ := Table.mem_iff_lookup.1 hall
    exact ⟨_, ⟨key, hk, cs, hcs, rfl⟩, rfl⟩

/-! ## New shards -/

/-- The flows get the queues that were made for them, and those that have one keep it. -/
theorem managedQueue_components {i : Nat} {hi : i < n} (order : List FlowKey) : ∀ {s s' : RegistryShard α},
    synchronizeFlows s (components all order i hi) = .ok s' → ∀ k, s'.managedQueue k = (s.managedQueue k).or
      (if k ∈ order then (all.lookup k).map fun cs => newManagedQueue (cs.get i hi).queue (cs.get i hi).policy k else none) := by
  induction order with
  | nil =>
    intro s s' h k
    cases h
    simp
  | cons key order ih =>
    intro s s' h k
    cases hall : all.lookup key with
    | none =>
      rw [components, filterMap_cons_none (by rw [hall]; rfl)] at h
      rw [ih h k]
      by_cases hk : k = key
      · subst hk
        simp [hall]
      · simp [hk]
    | some cs =>
      rw [components, filterMap_cons_some (by rw [hall]; rfl)] at h
      unfold synchronizeFlows at h
      split at h
      · cases h
      · rename_i s₁ hs
        rw [ih h k, managedQueue_synchronizeFlow hs]
        by_cases hk : k = key
        · subst hk
          cases s.managedQueue k <;> simp [hall]
        · simp [hk]

theorem frame_synchronize {orders : Nat → List FlowKey} {i : Nat} {s s' : RegistryShard α}
    (h : synchronize all orders i s = .ok s') : s'.frame = s.frame := by
  unfold synchronize at h
  split at h
  · exact (frame_synchronizeFlows h).1
  · cases h; rfl

/-- Making the new shards touches none that a list names. -/
theorem prepareShards_named (h : r.Topology) (m : Nat) {id : Nat} (hid : id ∈ r.activeShards ++ r.drainingShards) :
    (prepareShards r m).shards id = r.shards id := by
  have hnot : id ∉ List.range' r.nextShardID (m - r.activeShards.length) := by
    have hbelow := h.below id hid
    rw [mem_range'_1]
    omega
  exact if_neg hnot

/-- The last stage succeeds when the components are there, and gives the flows in `order` their queues. -/
theorem commit_ok (h : r.Topology) {all : Table FlowKey (Instances α (m - r.activeShards.length))}
    (orders : Nat → List FlowKey) (hall : ∀ key ∈ all, key.priority ∈ r.config.priorityBands) :
    ∃ r', commit (prepareShards r m) all orders = .ok r' ∧
      r'.activeShards = r.activeShards ++ List.range' r.nextShardID (m - r.activeShards.length) ∧
      ∀ i < m - r.activeShards.length, ∀ key ∈ orders i, key ∈ all →
        ((r'.shards (r.nextShardID + i)).managedQueue key).isSome := by
  have hnd := h.fresh_nodup (m - r.activeShards.length)
  obtain ⟨shards, hs⟩ : ∃ shards, forAll (List.range' r.nextShardID (m - r.activeShards.length)) (synchronize all orders)
      (r.newShards m) = .ok shards := by
    refine forAll_total nodup_range' fun i hi => ?_
    rw [length_range'] at hi
    rw [synchronize, dif_pos hi]
    apply synchronizeFlows_total
    intro c hc
    rw [newShards, if_pos (getElem_mem _), (newShard_carries h.keyed _).agrees.mem_iff]
    exact hall c.1 (mem_components.1 ⟨c, hc, rfl⟩).2
  have hloop := loop_of_forAll nodup_range' hs
  obtain ⟨hagree, -⟩ := h.newShards_loop (fun _ _ _ => frame_synchronize) hloop
  obtain ⟨r₁, hr⟩ := h.rescale_total shards (r.nextShardID + (m - r.activeShards.length)) hnd hagree
  refine ⟨r₁.updateAllShardsCacheLocked, ?_, ?_, fun i hi key hkey hmem => ?_⟩
  · unfold commit
    simp only [prepareShards, hs]
    exact congrArg (Except.map updateAllShardsCacheLocked) hr
  · obtain ⟨shards', rfl, -⟩ := repartition_ok (nodup_append.1 hnd).1 hr
    rfl
  · obtain ⟨shards', rfl, hrep⟩ := repartition_ok (nodup_append.1 hnd).1 hr
    have hnew : r.nextShardID + i ∈ List.range' r.nextShardID (m - r.activeShards.length) := by
      rw [mem_range'_1]
      omega
    obtain ⟨j, hj, -, hu⟩ := hrep.of_mem (mem_append_right _ hnew)
    have hsync := hloop.inside i (by rw [length_range']; exact hi)
    rw [getElem_range', Nat.one_mul, synchronize, dif_pos hi] at hsync
    -- the queues survive the new partition
    change ((shards' (r.nextShardID + i)).managedQueue key).isSome
    rw [managedQueue_updateConfig hu]
    obtain ⟨cs, hcs⟩ := Table.mem_iff_lookup.1 hmem
    rw [managedQueue_components _ hsync key, if_pos hkey, hcs]
    cases (r.newShards m (r.nextShardID + i)).managedQueue key <;> rfl

/-- What the second stage built is for flows whose band is configured. -/
theorem prepared_mem {flows : List FlowKey} (h : prepareComponents construct (prepareShards r m) n flows ∅ = .ok all) :
    (∀ key, key ∈ all ↔ key ∈ flows) ∧ ∀ key ∈ all, key.priority ∈ r.config.priorityBands := by
  obtain ⟨hin, hout⟩ := prepareComponents_ok flows h
  have hmem : ∀ key, key ∈ all ↔ key ∈ flows := by
    intro key
    constructor
    · intro hkey
      by_contra hnot
      obtain ⟨cs, hcs⟩ := Table.mem_iff_lookup.1 hkey
      rw [hout key hnot] at hcs
      cases hcs
    · intro hkey
      obtain ⟨cs, -, hcs⟩ := hin key hkey
      exact Table.mem_of_lookup hcs
  refine ⟨hmem, fun key hkey => ?_⟩
  obtain ⟨cs, hcs, -⟩ := hin key ((hmem key).1 hkey)
  obtain ⟨bandConfig, hband, -⟩ := buildFlowComponents_ok hcs
  exact Table.mem_of_lookup hband

/-! ## The order of the maps -/

/-- The flows of a new shard come in any order. -/
theorem synchronize_same {orders orders' : Nat → List FlowKey} {i : Nat} (horders : ∀ key, key ∈ orders i ↔ key ∈ orders' i)
    {s s₁ s₂ : RegistryShard α} (h₁ : synchronize all orders i s = .ok s₁) (h₂ : synchronize all orders' i s = .ok s₂) :
    s₁.SameAs s₂ := by
  unfold synchronize at h₁ h₂
  split at h₁
  · rename_i hi
    rw [dif_pos hi] at h₂
    refine ⟨(sameHull_synchronizeFlows _ h₁).symm.trans (sameHull_synchronizeFlows _ h₂), fun key => ?_⟩
    rw [managedQueue_components _ h₁, managedQueue_components _ h₂]
    simp only [horders key]
  · rename_i hi
    rw [dif_neg hi] at h₂
    cases h₁
    cases h₂
    exact ⟨.refl s, fun _ => rfl⟩

/-- Two loops over the same shards that do the same to each. -/
theorem loops_same {ids : List Nat} {f g : Nat → RegistryShard α → Except Fault (RegistryShard α)}
    {shards shards' shards₁ shards₂ : Nat → RegistryShard α} (hf : Loop ids f shards shards₁) (hg : Loop ids g shards' shards₂)
    (hsame : ∀ id, (shards id).SameAs (shards' id))
    (hbody : ∀ i < ids.length, ∀ s s' s₁ s₂, s.SameAs s' → s = shards ids[i]! → s' = shards' ids[i]! →
      f i s = .ok s₁ → g i s' = .ok s₂ → s₁.SameAs s₂) (id : Nat) : (shards₁ id).SameAs (shards₂ id) := by
  by_cases hid : id ∈ ids
  · obtain ⟨i, hi, rfl⟩ := getElem_of_mem hid
    have hget : ids[i]! = ids[i] := getElem!_pos ids i hi
    exact hbody i hi _ _ _ _ (hsame _) (by rw [hget]) (by rw [hget]) (hf.inside i hi) (hg.inside i hi)
  · rw [hf.outside id hid, hg.outside id hid]
    exact hsame id

/-- What is entered is the same, in whatever order the flows come. -/
theorem commit_same (h : r.Topology) {all : Table FlowKey (Instances α (m - r.activeShards.length))}
    {orders orders' : Nat → List FlowKey} (horders : ∀ i key, key ∈ orders i ↔ key ∈ orders' i) {r₁ r₂ : FlowRegistry α}
    (h₁ : commit (prepareShards r m) all orders = .ok r₁) (h₂ : commit (prepareShards r m) all orders' = .ok r₂) :
    r₁.SameAs r₂ := by
  have hnd := (nodup_append.1 (h.fresh_nodup (m - r.activeShards.length))).1
  unfold commit at h₁ h₂
  split at h₁
  · cases h₁
  · rename_i shards₁ hs₁
    split at h₂
    · cases h₂
    · rename_i shards₂ hs₂
      obtain ⟨r₁', hr₁, rfl⟩ := map_ok h₁
      obtain ⟨r₂', hr₂, rfl⟩ := map_ok h₂
      obtain ⟨shards₁', rfl, hl₁⟩ := repartition_ok hnd hr₁
      obtain ⟨shards₂', rfl, hl₂⟩ := repartition_ok hnd hr₂
      have hsync := loops_same (loop_of_forAll nodup_range' hs₁) (loop_of_forAll nodup_range' hs₂)
        (fun id => ⟨.refl _, fun _ => rfl⟩) fun i _ s s' s₁ s₂ _ hs hs' hf hg => by
          subst hs'
          subst hs
          exact synchronize_same (horders i) hf hg
      exact ⟨rfl, loops_same hl₁ hl₂ hsync fun i _ s s' s₁ s₂ hsame _ _ => hsame.updateConfig⟩

/-! ## The atomic scale-up -/

theorem instantiate_error {bandConfig : PriorityBandConfig α} {err : BuildError}
    (h : instantiate construct key bandConfig m = .error err) :
    ∃ i < m, construct key i bandConfig.queue bandConfig.orderingPolicy = none := by
  induction m with
  | zero => cases h
  | succ m ih =>
    unfold instantiate at h
    split at h
    · rename_i h₀
      cases h
      obtain ⟨i, hi, hnone⟩ := ih h₀
      exact ⟨i, by omega, hnone⟩
    · split at h
      · exact ⟨m, Nat.lt_succ_self m, by assumption⟩
      · cases h

/-- The constructors that are registered here never fail at one call and succeed at another. -/
def registered : Construct α := fun _ _ => newQueueFromName

theorem buildFlowComponents_registered {cs : Instances α n} (h : buildFlowComponents registered r key n = .ok cs)
    (i : Nat) (hi : i < n) : r.buildFlowComponents key = some ((cs.get i hi).policy, (cs.get i hi).queue) := by
  obtain ⟨bandConfig, hband, hcs⟩ := buildFlowComponents_ok h
  obtain ⟨hpolicy, hqueue⟩ := hcs i hi
  have hq : newQueueFromName bandConfig.queue bandConfig.orderingPolicy = some (cs.get i hi).queue := hqueue
  rw [FlowRegistry.buildFlowComponents, hband, Option.bind_some, hq, hpolicy]
  rfl

theorem buildFlowComponents_unregistered {err : BuildError} (h : buildFlowComponents registered r key n = .error err) :
    r.buildFlowComponents key = none := by
  unfold buildFlowComponents at h
  split at h
  · rename_i hband
    rw [FlowRegistry.buildFlowComponents, hband]
    rfl
  · rename_i bandConfig hband
    obtain ⟨i, -, hnone⟩ := instantiate_error h
    have hq : newQueueFromName bandConfig.queue bandConfig.orderingPolicy = none := hnone
    rw [FlowRegistry.buildFlowComponents, hband, Option.bind_some, hq]
    rfl

/-- A flow whose components cannot be built keeps the scale-up in one step from entering anything. -/
theorem executeScaleUpLocked_of_error {flows : List FlowKey} {e : UpdateError} (hflows : ∀ key ∈ flows, key ∈ r.flowStates)
    (hprep : prepareComponents registered (prepareShards r m) n flows ∅ = .error e) : r.executeScaleUpLocked m = .ok r := by
  obtain ⟨key, hkey, err, -, herr⟩ := prepareComponents_error _ hprep
  have hbuild : r.buildFlowComponents key = none := buildFlowComponents_unregistered (r := prepareShards r m) herr
  rw [FlowRegistry.executeScaleUpLocked]
  cases hall : r.buildAllComponents with
  | none => rfl
  | some comps =>
    have hsome := isSome_of_mapM hall key (hflows key hkey)
    rw [hbuild] at hsome
    cases hsome

/-- Every new shard gets the list that is built in one step. -/
theorem buildAllComponents_eq {flows : List FlowKey} (hflows : ∀ key, key ∈ flows ↔ key ∈ r.flowStates)
    (hprep : prepareComponents registered (prepareShards r m) n flows ∅ = .ok all) (i : Nat) (hi : i < n) :
    r.buildAllComponents = some (components all r.flowStates.keys i hi) := by
  have hkey : ∀ key ∈ r.flowStates.keys, (r.buildFlowComponents key).map (fun c => (key, c)) =
      (all.lookup key).map fun cs => (key, (cs.get i hi).policy, (cs.get i hi).queue) := by
    intro key hkey
    obtain ⟨cs, hcs, hlook⟩ := (prepareComponents_ok _ hprep).1 key ((hflows key).2 hkey)
    have hbuild : r.buildFlowComponents key = some ((cs.get i hi).policy, (cs.get i hi).queue) :=
      buildFlowComponents_registered (r := prepareShards r m) hcs i hi
    rw [hbuild, hlook]
    rfl
  rw [buildAllComponents, components, ← filterMap_congr hkey]
  refine mapM_of_isSome _ fun key hmemKey => ?_
  rw [hkey key hmemKey, isSome_map]
  exact AList.lookup_isSome.2 (((prepared_mem hprep).1 key).2 ((hflows key).2 hmemKey))

/-- With the flows in the order of the map, the commit is the scale-up in one step. -/
theorem executeScaleUpLocked_eq_commit (hm : r.activeShards.length < m) {flows : List FlowKey}
    (hflows : ∀ key, key ∈ flows ↔ key ∈ r.flowStates) {all : Table FlowKey (Instances α (m - r.activeShards.length))}
    (hprep : prepareComponents registered (prepareShards r m) (m - r.activeShards.length) flows ∅ = .ok all) :
    r.executeScaleUpLocked m = commit (prepareShards r m) all fun _ => r.flowStates.keys := by
  have hcomps := buildAllComponents_eq hflows hprep
  have hbody : ∀ i < (List.range' r.nextShardID (m - r.activeShards.length)).length,
      synchronize all (fun _ => r.flowStates.keys) i =
        fun s => synchronizeFlows s (components all r.flowStates.keys 0 (by omega)) := by
    intro i hi
    rw [length_range'] at hi
    funext s
    have hsame := (hcomps i hi).symm.trans (hcomps 0 (by omega))
    rw [synchronize, dif_pos hi, Option.some.inj hsame]
  rw [FlowRegistry.executeScaleUpLocked, hcomps 0 (by omega), commit]
  simp only [prepareShards]
  rewrite [forAll_congr hbody]
  rfl

/-- With the maps in any order the stages make up the scale-up in one step: where that enters nothing, there is
an error and nothing is entered; otherwise they come to the same registry. -/
theorem executeScaleUpLocked_eq (h : r.Topology) (hm : r.activeShards.length < m) {flows : List FlowKey}
    {orders : Nat → List FlowKey} (hflows : ∀ key, key ∈ flows ↔ key ∈ r.flowStates) (horders : ∀ i key, key ∈ orders i ↔ key ∈ flows) :
    (∃ e shards, executeScaleUpLocked registered flows orders r m = .ok (some e, { r with shards := shards }) ∧
      (∀ id ∈ r.allShards, shards id = r.shards id) ∧ r.executeScaleUpLocked m = .ok r) ∨
    ∃ r' r'', executeScaleUpLocked registered flows orders r m = .ok (none, r') ∧
      r.executeScaleUpLocked m = .ok r'' ∧ r''.SameAs r' := by
  unfold executeScaleUpLocked
  cases hprep : prepareComponents registered (prepareShards r m) (m - r.activeShards.length) flows ∅ with
  | error e =>
    exact .inl ⟨e, _, by simp only [hprep]; rfl, fun id hid => prepareShards_named h m (h.perm.mem_iff.1 hid),
      executeScaleUpLocked_of_error (fun key => (hflows key).1) hprep⟩
  | ok all =>
    obtain ⟨r', hr', -⟩ := commit_ok h orders (prepared_mem hprep).2
    obtain ⟨r'', hr'', -⟩ := commit_ok h (fun _ => r.flowStates.keys) (prepared_mem hprep).2
    have hkeys : ∀ i key, key ∈ r.flowStates.keys ↔ key ∈ orders i := fun i key => by
      rw [horders i key, hflows key]
      exact AList.mem_keys.symm
    exact .inr ⟨r', r'', by simp only [hprep, hr', Except.map], (executeScaleUpLocked_eq_commit hm hflows hprep).trans hr'',
      commit_same h hkeys hr'' hr'⟩

/-! ## All or nothing -/

theorem executeScaleUpLocked_all_or_nothing (h : r.Topology) {flows : List FlowKey} {orders : Nat → List FlowKey}
    (horders : ∀ i key, key ∈ orders i ↔ key ∈ flows) (m : Nat) :
    (∃ e, executeScaleUpLocked construct flows orders r m = .ok (some e, prepareShards r m)) ∨
    ∃ r', executeScaleUpLocked construct flows orders r m = .ok (none, r') ∧
      r'.activeShards = r.activeShards ++ List.range' r.nextShardID (m - r.activeShards.length) ∧
      ∀ key ∈ flows, ∀ id ∈ List.range' r.nextShardID (m - r.activeShards.length), ((r'.shards id).managedQueue key).isSome := by
  unfold executeScaleUpLocked
  cases hprep : prepareComponents construct (prepareShards r m) (m - r.activeShards.length) flows ∅ with
  | error e => exact .inl ⟨e, by simp only [hprep]⟩
  | ok all =>
    obtain ⟨hmem, hbands⟩ := prepared_mem hprep
    obtain ⟨r', hr', hactive, hqueues⟩ := commit_ok h orders hbands
    refine .inr ⟨r', by simp only [hprep, hr', Except.map], hactive, fun key hkey id hid => ?_⟩
    rw [mem_range'_1] at hid
    obtain ⟨i, rfl⟩ := Nat.exists_eq_add_of_le hid.1
    exact hqueues i (by omega) key ((horders i key).2 hkey) ((hmem key).2 hkey)

end ScaleUp

variable [QueueItemAccessor α] [DecidableEq α]

theorem topology_of_runs {cfg : ValidConfig α} {now : Int} {r₀ r : FlowRegistry α} (h₀ : newFlowRegistry cfg.toConfig now = .ok r₀)
    (hrun : Runs administer (fun _ _ => True) r₀ r) : r.Topology :=
  Runs.invariant (fun r => r.Topology) (fun _ _ _ hs _ hok => hs.administer hok) (newFlowRegistry_topology cfg now h₀).1 hrun

/-- In every state that a run reaches, for every requested count, every failing constructor and every order of the
maps: a call that returns an error has changed nothing but objects that no list names; after one that does not,
every registered flow has a queue on every shard that is new. -/
theorem updateShardCount_all_or_nothing (cfg : ValidConfig α) (now : Int) (r₀ r : FlowRegistry α)
    (h₀ : newFlowRegistry cfg.toConfig now = .ok r₀) (hrun : Runs administer (fun _ _ => True) r₀ r)
    (construct : Construct α) (flows : List FlowKey) (orders : Nat → List FlowKey) (hflows : ∀ key ∈ r.flowStates, key ∈ flows)
    (horders : ∀ i key, key ∈ orders i ↔ key ∈ flows) (n : Int) :
    ∃ err r', ScaleUp.updateShardCount construct flows orders r n = .ok (err, r') ∧
      (err ≠ none → r' = { r with shards := r'.shards } ∧ ∀ id ∈ r.allShards, r'.shards id = r.shards id) ∧
      (err = none → (r'.activeShards.length : Int) = n ∧
        ∀ key ∈ r.flowStates, ∀ id ∈ r'.activeShards, id ∉ r.activeShards → ((r'.shards id).managedQueue key).isSome) := by
  have h : r.Topology := topology_of_runs h₀ hrun
  unfold ScaleUp.updateShardCount
  split_ifs with hpos heq hup
  · exact ⟨_, r, rfl, fun _ => ⟨rfl, fun _ _ => rfl⟩, nofun⟩
  · exact ⟨none, r, rfl, fun hne => absurd rfl hne, fun _ => ⟨heq.symm, fun key _ id hid hnew => absurd hid hnew⟩⟩
  · rcases ScaleUp.executeScaleUpLocked_all_or_nothing h horders n.toNat with ⟨e, he⟩ | ⟨r', hr', hactive, hqueues⟩
    · refine ⟨some e, _, he, fun _ => ⟨rfl, fun id hid => ?_⟩, nofun⟩
      exact ScaleUp.prepareShards_named h _ (h.perm.mem_iff.1 hid)
    · refine ⟨none, r', hr', fun hne => absurd rfl hne, fun _ => ⟨?_, fun key hkey id hid hnew => ?_⟩⟩
      · rw [hactive, length_append, length_range']
        omega
      · rw [hactive] at hid
        exact hqueues key (hflows key hkey) id ((mem_append.1 hid).resolve_left hnew)
  · obtain ⟨r', hr'⟩ := h.updateShardCount_total n
    rw [updateShardCount, if_neg hpos, if_neg heq, if_neg hup] at hr'
    have hactive : r'.activeShards = r.activeShards.take n.toNat := by
      obtain ⟨r₁, hrep, rfl⟩ := map_ok hr'
      obtain ⟨r₂, -, rfl⟩ := map_ok hrep
      rfl
    refine ⟨none, r', by rw [hr']; rfl, fun hne => absurd rfl hne, fun _ => ⟨?_, fun key _ id hid hnew => ?_⟩⟩
    · rw [hactive, length_take]
      omega
    · rw [hactive] at hid
      exact absurd (mem_of_mem_take hid) hnew

/-- Two flows, one in a band of its own. -/
def Request.twoFlows : List FlowKey := [⟨"a", 0⟩, ⟨"b", 7⟩]

/-- Two flows in two bands, met in one order and entered on the second new shard in the other. -/
theorem executeScaleUpLocked_eq_two : ∃ r₀ r : FlowRegistry Request,
    newFlowRegistry smallConfig.toConfig 1 = .ok r₀ ∧ Runs administer (fun _ _ => True) r₀ r ∧
    ∃ r' r'', ScaleUp.executeScaleUpLocked ScaleUp.registered twoFlows
        (fun i => if i = 0 then twoFlows else twoFlows.reverse) r 4 = .ok (none, r') ∧
      r.executeScaleUpLocked 4 = .ok r'' ∧ r''.SameAs r' := by
  refine exists_run [.registry (.connect ⟨"a", 0⟩), .registry (.connect ⟨"b", 7⟩)]
    (fun r => r.activeShards.length < 4 ∧ r.flowStates.keys.Perm twoFlows ∧
      (ScaleUp.executeScaleUpLocked ScaleUp.registered twoFlows (fun i => if i = 0 then twoFlows else twoFlows.reverse)
        r 4).toOption.map Prod.fst = some none) (by decide +kernel) ?_
  rintro r₀ r h₀ hrun ⟨hactive, hkeys, hnone⟩
  have hflows : ∀ key, key ∈ twoFlows ↔ key ∈ r.flowStates := fun key => hkeys.mem_iff.symm.trans AList.mem_keys.symm
  have horders : ∀ (i : Nat) key, key ∈ (if i = 0 then twoFlows else twoFlows.reverse) ↔ key ∈ twoFlows := fun i key => by
    split
    · rfl
    · exact mem_reverse
  rcases ScaleUp.executeScaleUpLocked_eq (topology_of_runs h₀ hrun) hactive hflows horders with ⟨e, shards, he, -⟩ | hdone
  · rw [he] at hnone
    cases hnone
  · exact hdone

/-- The second queue of the second flow cannot be made. -/
def Request.failing : Construct Request := fun key i name policy =>
  if key = ⟨"b", 7⟩ ∧ i = 1 then none else newQueueFromName name policy

/-- Two shards more: with the registered constructors both flows get their queues; with one that fails at its second
call nothing has happened. -/
theorem updateShardCount_all_or_nothing_two : ∃ r₀ r : FlowRegistry Request,
    newFlowRegistry smallConfig.toConfig 1 = .ok r₀ ∧
    Runs administer (fun _ _ => True) r₀ r ∧
    (∃ r', ScaleUp.updateShardCount ScaleUp.registered twoFlows (fun _ => twoFlows) r 4 = .ok (none, r') ∧
      r'.activeShards.length = (4 : Int)) ∧
    ∃ r', ScaleUp.updateShardCount failing twoFlows (fun _ => twoFlows) r 4 =
        .ok (some (.prepare ⟨"b", 7⟩ (.queue "ListQueue" ⟨"b", 7⟩)), r') ∧
      ∀ id ∈ r.allShards, r'.shards id = r.shards id := by
  refine exists_run [.registry (.connect ⟨"a", 0⟩), .registry (.connect ⟨"b", 7⟩)]
    (fun r => r.flowStates.keys.all (· ∈ twoFlows) ∧
      ((ScaleUp.updateShardCount ScaleUp.registered twoFlows (fun _ => twoFlows) r 4).toOption.map
        Prod.fst) = some none ∧
      ((ScaleUp.updateShardCount failing twoFlows (fun _ => twoFlows) r 4).toOption.map
        Prod.fst) = some (some (.prepare ⟨"b", 7⟩ (.queue "ListQueue" ⟨"b", 7⟩)))) (by decide +kernel) ?_
  rintro r₀ r h₀ hrun ⟨hkeys, hok, herr⟩
  have hflows : ∀ key ∈ r.flowStates, key ∈ twoFlows := fun key hkey => by
    simpa using all_eq_true.1 hkeys key hkey
  obtain ⟨e₁, r₁, hr₁, -, hnone⟩ := updateShardCount_all_or_nothing smallConfig 1 r₀ r h₀ hrun ScaleUp.registered
    twoFlows (fun _ => twoFlows) hflows (fun _ _ => Iff.rfl) 4
  obtain ⟨e₂, r₂, hr₂, hsome, -⟩ := updateShardCount_all_or_nothing smallConfig 1 r₀ r h₀ hrun failing
    twoFlows (fun _ => twoFlows) hflows (fun _ _ => Iff.rfl) 4
  rw [hr₁] at hok
  rw [hr₂] at herr
  cases hok
  cases herr
  exact ⟨⟨r₁, hr₁, (hnone rfl).1⟩, r₂, hr₂, (hsome nofun).2⟩

end InferenceGateway.Registry
