import InferenceGateway.Registry.BandSafety
import InferenceGateway.Registry.Counters
/-!
# Additions while shards drain

`managedQueue.Add` holds the lock of its queue while it looks whether the shard is
draining, puts the item in, and sends the change to the shard's counter. The flag and
the counter are not under that lock: a scale-down sets the flag and a sweep reads the
counter between any two of these steps.

Queues are objects here. A shard has every queue it was ever given, as one that has been
deleted can still be in a caller's hands, and a queue has the addition that holds its lock.
-/

namespace InferenceGateway.Registry

open Lib Queue List RegistryShard ManagedQueue Request

variable {α : Type}

/-- How far an addition is that has passed the check of the flag. -/
inductive Adding (α : Type) where
  | checked (x : α)
  | inserted (x : α)

structure QueueObject (α : Type) where
  mq : ManagedQueue α
  adding : Option (Adding α)

structure ShardObject (α : Type) where
  isDraining : Bool
  totalLen : Int64
  queues : List (QueueObject α)

structure ShardPool (α : Type) where
  shards : Nat → ShardObject α
  activeShards : List Nat
  drainingShards : List Nat
  nextShardID : Nat

/-- The number of items that the shard's queues hold. -/
def ShardObject.size (s : ShardObject α) : Nat := (s.queues.map (·.mq.items.length)).sum

namespace ShardPool

def init : ShardPool α where
  shards := fun _ => ⟨false, 0, []⟩
  activeShards := []
  drainingShards := []
  nextShardID := 0

variable (p : ShardPool α)

def setShard (id : Nat) (s : ShardObject α) : ShardPool α :=
  { p with shards := Function.update p.shards id s }

/-- `executeScaleUpLocked`, with the queues that the new shards are given. -/
def scaleUp (newTotalActive : Nat) (queues : Nat → List (ManagedQueue α)) : ShardPool α :=
  let new := List.range' p.nextShardID (newTotalActive - p.activeShards.length)
  { p with
    shards := fun id => if id ∈ new then ⟨false, 0, (queues id).map fun mq => ⟨mq, none⟩⟩ else p.shards id
    activeShards := p.activeShards ++ new
    nextShardID := p.nextShardID + (newTotalActive - p.activeShards.length) }

/-- `executeScaleDownLocked`. -/
def scaleDown (newTotalActive : Nat) : ShardPool α :=
  let shardsToDrain := p.activeShards.drop newTotalActive
  { p with
    shards := fun id => if id ∈ shardsToDrain then { p.shards id with isDraining := true } else p.shards id
    activeShards := p.activeShards.take newTotalActive
    drainingShards := p.drainingShards ++ shardsToDrain }

/-- `sweepDrainingShards`. -/
def sweep : ShardPool α :=
  { p with drainingShards := p.drainingShards.filter fun id => (p.shards id).totalLen != 0 }

end ShardPool

/-- A queue as `synchronizeFlow` makes it. -/
def NewQueue (mq : ManagedQueue α) : Prop :=
  ∃ name policy q key, newQueueFromName name policy = some q ∧ mq = newManagedQueue q policy key

section
variable [QueueItemAccessor α] [DecidableEq α]

/-- One step on a queue of a shard with this flag, and what it adds to the shard's counter. -/
inductive QueueStep (isDraining : Bool) (o : QueueObject α) : QueueObject α → Int64 → Prop where
  -- an item is added by one processor, once
  | check (x : α) (h : o.adding = none) (hd : isDraining = false) (hx : x ∉ o.mq.items) :
      QueueStep isDraining o { o with adding := some (.checked x) } 0
  | insert (x : α) (h : o.adding = some (.checked x)) :
      QueueStep isDraining o ⟨{ o.mq with queue := o.mq.queue.add x }, some (.inserted x)⟩ 0
  | count (x : α) (mq : ManagedQueue α) (d : StatsDelta) (h : o.adding = some (.inserted x))
      (hp : o.mq.propagateStatsDeltaLocked ⟨1, size x⟩ = .ok (mq, some d)) :
      QueueStep isDraining o ⟨mq, none⟩ d.len
  | perform (op : QueueOp α) (mq : ManagedQueue α) (d : Option StatsDelta) (h : o.adding = none)
      (hop : ∀ x, op ≠ .add x) (hp : o.mq.perform isDraining op = .ok (mq, d)) :
      QueueStep isDraining o ⟨mq, none⟩ (d.getD ⟨0, 0⟩).len

namespace ShardPool

inductive Step (p : ShardPool α) : ShardPool α → Prop where
  | queue (id i : Nat) (o o' : QueueObject α) (d : Int64) (ho : (p.shards id).queues[i]? = some o)
      (h : QueueStep (p.shards id).isDraining o o' d) :
      Step p (p.setShard id { p.shards id with
        queues := (p.shards id).queues.set i o', totalLen := (p.shards id).totalLen + d })
  | synchronizeFlow (id : Nat) (mq : ManagedQueue α) (hid : id ∈ p.activeShards ++ p.drainingShards) (hq : NewQueue mq) :
      Step p (p.setShard id { p.shards id with queues := (p.shards id).queues ++ [⟨mq, none⟩] })
  | scaleUp (n : Nat) (queues : Nat → List (ManagedQueue α)) (hn : p.activeShards.length < n)
      (hq : ∀ id, ∀ mq ∈ queues id, NewQueue mq) : Step p (p.scaleUp n queues)
  | scaleDown (n : Nat) (hpos : 0 < n) (hn : n < p.activeShards.length) : Step p (p.scaleDown n)
  | sweep : Step p p.sweep

/-- No addition is past its check of the flag on a shard that is draining. -/
def Undisturbed (p : ShardPool α) : Prop :=
  ∀ id, (p.shards id).isDraining = true → ∀ o ∈ (p.shards id).queues, o.adding = none

/-- The counters have room. -/
def Fits (p : ShardPool α) : Prop := ∀ id, (p.shards id).size < 2 ^ 63

/-- The runs in all of whose states `P` holds. -/
def Run (P : ShardPool α → Prop) : ShardPool α → ShardPool α → Prop :=
  Relation.ReflTransGen fun p p' => Step p p' ∧ P p'

/-- The shard has been made, and is neither active nor draining any more. -/
def Swept (p : ShardPool α) (id : Nat) : Prop := id < p.nextShardID ∧ id ∉ p.activeShards ∧ id ∉ p.drainingShards

end ShardPool

/-! ## The registry's operations -/

end

/-- The queues of a shard, with those it has deleted. -/
def RegistryShard.allQueues (s : RegistryShard α) : List (ManagedQueue α) :=
  (s.priorityBands.entries.flatMap fun e => e.2.queues.entries.map (·.2)) ++ s.detached

def RegistryShard.object (s : RegistryShard α) : ShardObject α :=
  ⟨s.isDraining, s.totalLen, s.allQueues.map fun mq => ⟨mq, none⟩⟩

/-- The registry between two additions. -/
def FlowRegistry.pool (r : FlowRegistry α) : ShardPool α where
  shards := fun id => (r.shards id).object
  activeShards := r.activeShards
  drainingShards := r.drainingShards
  nextShardID := r.nextShardID

theorem FlowRegistry.pool_sweepDrainingShards (r : FlowRegistry α) : r.sweepDrainingShards.pool = r.pool.sweep := by
  unfold FlowRegistry.sweepDrainingShards
  simp only
  split
  · rename_i hlen
    have hall := filter_eq_self.2 (length_filter_eq_length_iff.1 hlen)
    exact congrArg (fun l => { r.pool with drainingShards := l }) hall.symm
  · rfl

theorem RegistryShard.object_updateConfig {s s' : RegistryShard α} {c : ShardConfig α} (h : s.updateConfig c = .ok s') :
    s'.object = s.object := by
  unfold updateConfig at h
  split at h
  · cases h
    simp only [object, allQueues, Table.mapVals, flatMap_map]
    congr 4
    funext e
    split <;> rfl
  · cases h

theorem FlowRegistry.pool_executeScaleDownLocked {r r' : FlowRegistry α} (hn : r.activeShards.Nodup) {n : Nat}
    (h : r.executeScaleDownLocked n = .ok r') : r'.pool = r.pool.scaleDown n := by
  obtain ⟨r₁, hr, rfl⟩ := map_ok h
  obtain ⟨shards, rfl, hl⟩ := repartition_ok (hn.sublist (take_sublist _ _)) hr
  have hobj := hl.each (P := fun s s' => s'.object = s.object) (fun _ => rfl) fun _ _ _ => object_updateConfig
  have hmark : ∀ id, (onShards (r.activeShards.drop n) .markAsDraining r.shards id).object =
      (r.pool.scaleDown n).shards id := by
    intro id
    by_cases hid : id ∈ r.activeShards.drop n
    · rw [onShards, if_pos hid]
      exact (if_pos hid).symm
    · rw [onShards, if_neg hid]
      exact (if_neg hid).symm
  exact congrArg (fun f => { r.pool.scaleDown n with shards := f }) (funext fun id => (hobj id).trans (hmark id))

section
variable [QueueItemAccessor α] [DecidableEq α]

/-! ## One queue -/

namespace QueueObject

/-- How many items of the queue are counted. -/
def counted (o : QueueObject α) : Int :=
  match o.adding with
  | some (.inserted _) => o.mq.items.length - 1
  | _ => o.mq.items.length

/-- The counters are exact, but for the item that is being added. -/
def Sound (o : QueueObject α) : Prop :=
  match o.adding with
  | none => o.mq.Exact
  | some (.checked x) => o.mq.Exact ∧ x ∉ o.mq.items
  | some (.inserted x) => ∃ mq : ManagedQueue α, mq.Exact ∧ x ∉ mq.items ∧ o.mq = { mq with queue := mq.queue.add x }

end QueueObject

variable {mq : ManagedQueue α}

omit [DecidableEq α] in
theorem ManagedQueue.Removes.length_le {mq' : ManagedQueue α} {d : Option StatsDelta} (h : mq.Removes mq' d) :
    mq'.items.length ≤ mq.items.length := by
  obtain ⟨gone, hp⟩ := h.gone
  rw [hp.length_eq, length_append]
  exact Nat.le_add_left _ _

theorem perform_removes {mq' : ManagedQueue α} (h : mq.Exact) {isDraining : Bool} {op : QueueOp α}
    (hop : ∀ x, op ≠ .add x) {d : Option StatsDelta} (hok : mq.perform isDraining op = .ok (mq', d)) :
    mq.Removes mq' d := by
  cases op with
  | add x => exact absurd rfl (hop x)
  | remove handle => exact remove_removes h hok
  | cleanup predicate => exact cleanup_removes h hok
  | drain => exact drain_removes h hok

variable {isDraining : Bool} {o o' : QueueObject α} {d : Int64}

/-- The change of the shard's counter is the change of what is counted. -/
theorem QueueStep.sound (hs : o.Sound) (h : QueueStep isDraining o o' d) :
    o'.Sound ∧ d = .ofInt (o'.counted - o.counted) := by
  obtain ⟨mq, adding⟩ := o
  cases h with
  | check x h hd hx =>
    cases h
    exact ⟨⟨hs, hx⟩, by simp [QueueObject.counted]⟩
  | insert x h =>
    cases h
    obtain ⟨hex, hx⟩ := hs
    refine ⟨⟨mq, hex, hx, rfl⟩, ?_⟩
    have hlen : (mq.queue.add x).items.length = mq.queue.items.length + 1 := (SafeQueue.add_ok hex.ok hx).2.length_eq
    simp [QueueObject.counted, items, hlen]
  | count x mq' d h hp =>
    cases h
    obtain ⟨mq₀, hex, hx, rfl⟩ := hs
    have hadd : mq₀.add false x = .ok (mq', some d) := hp
    rcases add_adds hex hx hadd with ⟨-, hd⟩ | ⟨hex', hperm, hd⟩
    · cases hd
    · cases hd
      refine ⟨hex', ?_⟩
      have hbefore : (mq₀.queue.add x).items.length = mq₀.items.length + 1 := (SafeQueue.add_ok hex.ok hx).2.length_eq
      have hafter : mq'.items.length = mq₀.items.length + 1 := hperm.length_eq
      change Int64.ofInt 1 = Int64.ofInt ((mq'.items.length : Int) - (((mq₀.queue.add x).items.length : Int) - 1))
      congr 1
      omega
  | perform op mq' d h hop hp =>
    cases h
    have hr := perform_removes hs hop hp
    refine ⟨hr.keeps, ?_⟩
    rw [← hr.change, wrap]
    simp [QueueObject.counted, loadOf_fst]

/-- Without an addition past its check there is none. -/
theorem QueueStep.shrinks (hs : o.Sound) (hn : o.adding = none) (h : QueueStep true o o' d) :
    o'.mq.items.length ≤ o.mq.items.length := by
  obtain ⟨mq, adding⟩ := o
  cases hn
  cases h with
  | check x h hd => cases hd
  | insert x h | count x mq' d h => cases h
  | perform op mq' d h hop hp => exact (perform_removes hs hop hp).length_le

theorem NewQueue.sound (h : NewQueue mq) : (⟨mq, none⟩ : QueueObject α).Sound ∧ mq.items = [] := by
  obtain ⟨name, policy, q, key, hq, rfl⟩ := h
  have hok := SafeQueue.newQueueFromName_ok hq
  exact ⟨(newManagedQueue_exact hok policy key).1, hok.2⟩

/-! ## One shard -/

namespace ShardObject

variable {s s' : ShardObject α}

def counted (s : ShardObject α) : Int := (s.queues.map QueueObject.counted).sum

structure Sound (s : ShardObject α) : Prop where
  queues : ∀ o ∈ s.queues, o.Sound
  counter : s.totalLen = .ofInt s.counted

/-- What a step of the pool does to a shard that is there. -/
inductive Move (s : ShardObject α) : ShardObject α → Prop where
  | same : Move s s
  | queue (i : Nat) (o o' : QueueObject α) (d : Int64) (ho : s.queues[i]? = some o) (h : QueueStep s.isDraining o o' d) :
      Move s { s with queues := s.queues.set i o', totalLen := s.totalLen + d }
  | synchronizeFlow (mq : ManagedQueue α) (hq : NewQueue mq) : Move s { s with queues := s.queues ++ [⟨mq, none⟩] }
  | markAsDraining : Move s { s with isDraining := true }

omit [QueueItemAccessor α] [DecidableEq α] in
/-- One summand is replaced. -/
theorem sum_set {β : Type} [AddCommGroup β] (f : QueueObject α → β) {l : List (QueueObject α)} {i : Nat}
    (ho : l[i]? = some o) (o' : QueueObject α) : ((l.set i o').map f).sum = (l.map f).sum + (f o' - f o) := by
  obtain ⟨hi, rfl⟩ := List.getElem?_eq_some_iff.1 ho
  rw [map_set, sum_set']
  simp [hi]
  abel

theorem Sound.move (hs : s.Sound) (h : Move s s') : s'.Sound := by
  cases h with
  | same => exact hs
  | queue i o o' d ho h =>
    obtain ⟨hsound, hd⟩ := h.sound (hs.queues o (mem_of_getElem? ho))
    refine ⟨fun q hq => ?_, ?_⟩
    · rcases mem_or_eq_of_mem_set hq with hq | rfl
      · exact hs.queues q hq
      · exact hsound
    · change s.totalLen + d = .ofInt _
      rw [counted, sum_set _ ho, Int64.ofInt_add, ← hd, hs.counter]
      rfl
  | synchronizeFlow mq hq =>
    obtain ⟨hsound, hitems⟩ := hq.sound
    refine ⟨fun q hmem => ?_, ?_⟩
    · rcases mem_append.1 hmem with hmem | hmem
      · exact hs.queues q hmem
      · rw [mem_singleton.1 hmem]
        exact hsound
    · change s.totalLen = .ofInt _
      rw [hs.counter, counted, counted, map_append, sum_append]
      simp [QueueObject.counted, hitems]
  | markAsDraining => exact ⟨hs.queues, hs.counter⟩

theorem sound_new {mqs : List (ManagedQueue α)} (h : ∀ mq ∈ mqs, NewQueue mq) :
    Sound ⟨false, 0, mqs.map fun mq => ⟨mq, none⟩⟩ := by
  refine ⟨fun o ho => ?_, ?_⟩
  · obtain ⟨mq, hmq, rfl⟩ := List.mem_map.1 ho
    exact (h mq hmq).sound.1
  · have hzero : counted (⟨false, 0, mqs.map fun mq => ⟨mq, none⟩⟩ : ShardObject α) = 0 := by
      refine sum_eq_zero fun n hn => ?_
      simp only [map_map, List.mem_map] at hn
      obtain ⟨mq, hmq, rfl⟩ := hn
      simp [QueueObject.counted, (h mq hmq).sound.2]
    rw [hzero]
    rfl

omit [QueueItemAccessor α] [DecidableEq α] in
theorem size_eq (s : ShardObject α) : (s.size : Int) = (s.queues.map fun o => (o.mq.items.length : Int)).sum := by
  rw [size, Nat.cast_list_sum, map_map]
  rfl

omit [QueueItemAccessor α] [DecidableEq α] in
/-- With no addition under way every item is counted. -/
theorem counted_eq (h : ∀ o ∈ s.queues, o.adding = none) : s.counted = s.size := by
  rw [counted, size_eq]
  congr 1
  refine map_congr_left fun o ho => ?_
  simp [QueueObject.counted, h o ho]

theorem Sound.toInt_totalLen (hs : s.Sound) (h : ∀ o ∈ s.queues, o.adding = none) (hfit : s.size < 2 ^ 63) :
    s.totalLen.toInt = s.size := by
  rw [hs.counter, counted_eq h]
  exact toInt_ofInt_of_lt (by omega) (by omega)

/-- A draining shard on which no addition is under way only loses items. -/
theorem Move.shrinks (h : Move s s') (hs : s.Sound) (hd : s.isDraining = true) (hn : ∀ o ∈ s.queues, o.adding = none) :
    s'.isDraining = true ∧ s'.size ≤ s.size := by
  cases h with
  | same => exact ⟨hd, le_rfl⟩
  | queue i o o' d ho h =>
    have hmem := mem_of_getElem? ho
    rw [hd] at h
    have hle := h.shrinks (hs.queues o hmem) (hn o hmem)
    refine ⟨hd, ?_⟩
    zify
    rw [size_eq, size_eq, sum_set _ ho]
    omega
  | synchronizeFlow mq hq =>
    refine ⟨hd, ?_⟩
    simp [size, hq.sound.2]
  | markAsDraining => exact ⟨rfl, le_rfl⟩

end ShardObject

/-! ## The pool -/

namespace ShardPool

variable {p p' : ShardPool α}

omit [QueueItemAccessor α] [DecidableEq α] in
theorem setShard_shards (p : ShardPool α) (id k : Nat) (s : ShardObject α) :
    (p.setShard id s).shards k = if k = id then s else p.shards k := by
  simp only [setShard, Function.update_apply]

/-- Each shard moves, or is new. -/
theorem Step.shard (h : Step p p') (id : Nat) : ShardObject.Move (p.shards id) (p'.shards id) ∨
    p.nextShardID ≤ id ∧ ∃ mqs : List (ManagedQueue α), (∀ mq ∈ mqs, NewQueue mq) ∧
      p'.shards id = ⟨false, 0, mqs.map fun mq => ⟨mq, none⟩⟩ := by
  cases h with
  | queue k i o o' d ho h =>
    rw [setShard_shards]
    split
    · rename_i hk
      subst hk
      exact .inl (.queue i o o' d ho h)
    · exact .inl .same
  | synchronizeFlow k mq hid hq =>
    rw [setShard_shards]
    split
    · rename_i hk
      subst hk
      exact .inl (.synchronizeFlow mq hq)
    · exact .inl .same
  | scaleUp n queues hn hq =>
    simp only [ShardPool.scaleUp]
    split
    · rename_i hid
      exact .inr ⟨(mem_range'_1.1 hid).1, queues id, hq id, rfl⟩
    · exact .inl .same
  | scaleDown n hpos hn =>
    simp only [ShardPool.scaleDown]
    split
    · exact .inl .markAsDraining
    · exact .inl .same
  | sweep => exact .inl .same

structure Sound (p : ShardPool α) : Prop where
  shards : ∀ id, (p.shards id).Sound
  listed : ∀ id ∈ p.activeShards ++ p.drainingShards, id < p.nextShardID
  made : ∀ id, (p.shards id).isDraining = true → id < p.nextShardID
  /-- A shard stops being active when it is marked. -/
  marked : ∀ id < p.nextShardID, id ∉ p.activeShards → (p.shards id).isDraining = true
  blank : ∀ id, p.nextShardID ≤ id → (p.shards id).queues = []

theorem init_sound : (init : ShardPool α).Sound where
  shards := fun _ => ⟨nofun, rfl⟩
  listed := nofun
  made := nofun
  marked := nofun
  blank := fun _ _ => rfl

variable (hp : p.Sound)
include hp

theorem Sound.shards_step (h : Step p p') (id : Nat) : (p'.shards id).Sound := by
  rcases h.shard id with hm | ⟨-, mqs, hq, he⟩
  · exact (hp.shards id).move hm
  · rw [he]
    exact ShardObject.sound_new hq

variable {id : Nat}

/-- The lists and the flags stay as they are. -/
theorem Sound.of_setShard {s : ShardObject α} (hs : ∀ k, ((p.setShard id s).shards k).Sound)
    (hf : s.isDraining = (p.shards id).isDraining) (hid : id < p.nextShardID) : (p.setShard id s).Sound := by
  have hflag : ∀ k, ((p.setShard id s).shards k).isDraining = (p.shards k).isDraining := by
    intro k
    rw [setShard_shards]
    split
    · rename_i hk
      rw [hf, hk]
    · rfl
  refine ⟨hs, hp.listed, fun k hk => hp.made k (hflag k ▸ hk), fun k hk hna => (hflag k).trans (hp.marked k hk hna),
    fun k hk => ?_⟩
  rw [setShard_shards, if_neg (by intro he; rw [he] at hk; exact absurd hk (not_le.2 hid))]
  exact hp.blank k hk

theorem Sound.scaleUp (n : Nat) (queues : Nat → List (ManagedQueue α))
    (hs : ∀ id, ((p.scaleUp n queues).shards id).Sound) : (p.scaleUp n queues).Sound := by
  refine ⟨hs, fun id hid => ?_, fun id hd => ?_, fun id hlt hna => ?_, fun id hle => ?_⟩
  · simp only [ShardPool.scaleUp, mem_append, mem_range'_1] at hid ⊢
    rcases hid with (hid | hid) | hid
    · exact Nat.lt_add_right _ (hp.listed id (mem_append_left _ hid))
    · exact hid.2
    · exact Nat.lt_add_right _ (hp.listed id (mem_append_right _ hid))
  · simp only [ShardPool.scaleUp] at hd ⊢
    split at hd
    · cases hd
    · exact Nat.lt_add_right _ (hp.made id hd)
  · simp only [ShardPool.scaleUp, mem_append, not_or, mem_range'_1] at hlt hna ⊢
    rw [if_neg hna.2]
    exact hp.marked id (by omega) hna.1
  · simp only [ShardPool.scaleUp, mem_range'_1] at hle ⊢
    rw [if_neg (by omega)]
    exact hp.blank id (by omega)

theorem Sound.scaleDown (n : Nat) (hs : ∀ id, ((p.scaleDown n).shards id).Sound) : (p.scaleDown n).Sound := by
  refine ⟨hs, fun id hid => ?_, fun id hd => ?_, fun id hlt hna => ?_, fun id hle => ?_⟩
  · simp only [ShardPool.scaleDown, mem_append] at hid ⊢
    rcases hid with hid | hid | hid
    · exact hp.listed id (mem_append_left _ (mem_of_mem_take hid))
    · exact hp.listed id (mem_append_right _ hid)
    · exact hp.listed id (mem_append_left _ (mem_of_mem_drop hid))
  · simp only [ShardPool.scaleDown] at hd ⊢
    split at hd
    · rename_i hid
      exact hp.listed id (mem_append_left _ (mem_of_mem_drop hid))
    · exact hp.made id hd
  · simp only [ShardPool.scaleDown] at hlt hna ⊢
    split
    · rfl
    · rename_i hid
      refine hp.marked id hlt fun ha => ?_
      rw [← take_append_drop n p.activeShards, mem_append] at ha
      exact ha.elim hna hid
  · simp only [ShardPool.scaleDown]
    split
    · exact hp.blank id hle
    · exact hp.blank id hle

theorem Sound.step (h : Step p p') : p'.Sound := by
  have hs := hp.shards_step h
  cases h with
  | queue k i o o' d ho h =>
    refine hp.of_setShard hs rfl (not_le.1 fun hle => ?_)
    rw [hp.blank k hle] at ho
    cases ho
  | synchronizeFlow k mq hid hq => exact hp.of_setShard hs rfl (hp.listed k hid)
  | scaleUp n queues hn hq => exact hp.scaleUp n queues hs
  | scaleDown n hpos hn => exact hp.scaleDown n hs
  | sweep =>
    refine ⟨hs, fun id hid => hp.listed id ?_, hp.made, hp.marked, hp.blank⟩
    exact (filter_sublist.append_left p.activeShards).subset hid

theorem Sound.run {P : ShardPool α → Prop} (h : Run P p p') : p'.Sound := by
  induction h with
  | refl => exact hp
  | tail _ hlast ih => exact ih.step hlast.1

omit hp

/-! ## Undisturbed runs -/

/-- What is assumed of every state of a run. -/
def Calm (p : ShardPool α) : Prop := p.Undisturbed ∧ p.Fits

theorem Sound.shrinks_step (hp : p.Sound) (hu : p.Undisturbed) (h : Step p p') (hd : (p.shards id).isDraining = true) :
    (p'.shards id).isDraining = true ∧ (p'.shards id).size ≤ (p.shards id).size := by
  rcases h.shard id with hm | ⟨hnew, -⟩
  · exact hm.shrinks (hp.shards id) hd (hu id hd)
  · exact absurd (hp.made id hd) (by omega)

theorem Sound.shrinks_run (hp : p.Sound) (hc : p.Calm) (h : Run Calm p p') (hd : (p.shards id).isDraining = true) :
    p'.Sound ∧ p'.Calm ∧ (p'.shards id).isDraining = true ∧ (p'.shards id).size ≤ (p.shards id).size := by
  induction h with
  | refl => exact ⟨hp, hc, hd, le_rfl⟩
  | tail _ hlast ih =>
    obtain ⟨hp', hc', hd', hle⟩ := ih
    obtain ⟨hd'', hle'⟩ := hp'.shrinks_step hc'.1 hlast.1 hd'
    exact ⟨hp'.step hlast.1, hlast.2, hd'', hle'.trans hle⟩

/-- A shard was swept before, or is now, when its counter is zero. -/
theorem Step.swept (h : Step p p') (hs : p'.Swept id) :
    p.Swept id ∨ id < p.nextShardID ∧ id ∉ p.activeShards ∧ (p.shards id).totalLen = 0 ∧ p' = p.sweep := by
  obtain ⟨hlt, hna, hnd⟩ := hs
  cases h with
  | queue k i o o' d ho h | synchronizeFlow k mq hid hq => exact .inl ⟨hlt, hna, hnd⟩
  | scaleUp n queues hn hq =>
    simp only [ShardPool.scaleUp, mem_append, not_or, mem_range'_1] at hlt hna hnd
    exact .inl ⟨by omega, hna.1, hnd⟩
  | scaleDown n hpos hn =>
    simp only [ShardPool.scaleDown, mem_append, not_or] at hlt hna hnd
    refine .inl ⟨hlt, fun ha => ?_, hnd.1⟩
    rw [← take_append_drop n p.activeShards, mem_append] at ha
    exact ha.elim hna hnd.2
  | sweep =>
    by_cases hd : id ∈ p.drainingShards
    · refine .inr ⟨hlt, hna, ?_, rfl⟩
      by_contra hne
      exact hnd (mem_filter.2 ⟨hd, by simpa using hne⟩)
    · exact .inl ⟨hlt, hna, hd⟩

theorem Sound.swept_step (hp : p.Sound) (hc : p.Calm) (hs : ∀ id, p.Swept id → (p.shards id).size = 0) (h : Step p p')
    (hsw : p'.Swept id) : (p'.shards id).size = 0 := by
  rcases h.swept hsw with hold | ⟨hlt, hna, hzero, rfl⟩
  · have hd := hp.marked id hold.1 hold.2.1
    have hle := (hp.shrinks_step hc.1 h hd).2
    rw [hs id hold] at hle
    exact Nat.le_zero.1 hle
  · have hd := hp.marked id hlt hna
    have hlen := (hp.shards id).toInt_totalLen (hc.1 id hd) (hc.2 id)
    rw [hzero] at hlen
    exact (Int.ofNat_eq_zero.1 hlen.symm :)

omit [QueueItemAccessor α] [DecidableEq α] in
theorem init_calm : (init : ShardPool α).Calm := ⟨nofun, fun _ => by simp [init, ShardObject.size]⟩

theorem run_calm (h : Run Calm init p) : p.Sound ∧ p.Calm ∧ ∀ id, p.Swept id → (p.shards id).size = 0 := by
  induction h with
  | refl => exact ⟨init_sound, init_calm, fun id hs => absurd hs.1 (Nat.not_lt_zero id)⟩
  | tail _ hlast ih =>
    obtain ⟨hp, hc, hs⟩ := ih
    exact ⟨hp.step hlast.1, hlast.2, fun id => hp.swept_step hc hs hlast.1⟩

/-- In every run in which no addition is past its check on a shard when it is marked as draining: what a draining shard
holds never grows, in number or by its counter, and a shard that has been swept holds nothing, then and ever after. -/
theorem draining_only_shrinks (p : ShardPool α) (hrun : Run Calm init p) (id : Nat) :
    ((p.shards id).isDraining = true → ∀ p', Run Calm p p' →
      (p'.shards id).size ≤ (p.shards id).size ∧ (p'.shards id).totalLen.toInt ≤ (p.shards id).totalLen.toInt) ∧
    (p.Swept id → (p.shards id).size = 0 ∧ ∀ p', Run Calm p p' → (p'.shards id).size = 0) := by
  obtain ⟨hp, hc, hs⟩ := run_calm hrun
  refine ⟨fun hd p' hrun' => ?_, fun hsw => ⟨hs id hsw, fun p' hrun' => ?_⟩⟩
  · obtain ⟨hp', hc', hd', hle⟩ := hp.shrinks_run hc hrun' hd
    rw [(hp'.shards id).toInt_totalLen (hc'.1 id hd') (hc'.2 id), (hp.shards id).toInt_totalLen (hc.1 id hd) (hc.2 id)]
    exact ⟨hle, Int.ofNat_le.2 hle⟩
  · obtain ⟨-, -, -, hle⟩ := hp.shrinks_run hc hrun' (hp.marked id hsw.1 hsw.2.1)
    rw [hs id hsw] at hle
    exact Nat.le_zero.1 hle

/-- On the shards that are there. -/
def CalmSoFar (p : ShardPool α) : Bool :=
  decide (∀ id < p.nextShardID, ((p.shards id).isDraining = true → ∀ o ∈ (p.shards id).queues, o.adding.isNone = true) ∧
    (p.shards id).size < 2 ^ 63)

theorem Run.extend {q : ShardPool α} (hrun : Run Calm q p) (h : Step p p') (hc : p'.CalmSoFar = true) (hq : q.Sound) :
    Run Calm q p' := by
  have hp := (hq.run hrun).step h
  rw [CalmSoFar, decide_eq_true_eq] at hc
  refine hrun.tail ⟨h, fun id hd o ho => ?_, fun id => ?_⟩
  · exact Option.isNone_iff_eq_none.1 ((hc id (hp.made id hd)).1 hd o ho)
  · by_cases hid : id < p'.nextShardID
    · exact (hc id hid).2
    · rw [ShardObject.size, hp.blank id (not_lt.1 hid)]
      norm_num

end ShardPool

end

/-- The queue of a flow that nobody has used. -/
def Request.freshQueue : ManagedQueue Request := newManagedQueue (.listQueue .newListQueue) inOrder ⟨"a", 0⟩

theorem Request.freshQueue_new : NewQueue freshQueue := ⟨"ListQueue", inOrder, _, _, if_pos rfl, rfl⟩

namespace ShardPool

/-- A request is added and the shard is scaled down; when it has been removed the shard is swept. -/
theorem draining_only_shrinks_two : ∃ p p' : ShardPool Request, Run Calm init p ∧ Run Calm p p' ∧
    (p.shards 1).isDraining = true ∧ (p.shards 1).size = 1 ∧ p'.Swept 1 ∧ (p'.shards 1).size = 0 := by
  have scaled := Run.extend .refl (.scaleUp 2 (fun _ => [freshQueue]) (by decide) fun _ mq hmq => by
    rw [mem_singleton.1 hmq]
    exact freshQueue_new) (by decide) init_sound
  have checked := scaled.extend (.queue 1 0 _ _ _ rfl (.check ⟨1, 10⟩ rfl rfl (by decide))) (by decide) init_sound
  have inserted := checked.extend (.queue 1 0 _ _ _ rfl (.insert ⟨1, 10⟩ rfl)) (by decide) init_sound
  have counted := inserted.extend (.queue 1 0 _ _ _ rfl (.count ⟨1, 10⟩ _ _ rfl rfl)) (by decide) init_sound
  have drained := counted.extend (.scaleDown 1 (by decide) (by decide)) (by decide) init_sound
  have hsound := init_sound.run drained
  have removed := Run.extend .refl (.queue 1 0 _ _ _ rfl (.perform .drain _ _ rfl nofun rfl)) (by decide) hsound
  have swept := removed.extend .sweep (by decide) hsound
  have hempty := (draining_only_shrinks _ (Relation.ReflTransGen.trans drained swept) 1).2
    ⟨by decide, by decide, by decide⟩
  exact ⟨_, _, drained, swept, rfl, rfl, ⟨by decide, by decide, by decide⟩, hempty.1⟩

/-- An addition has passed its check when the shard is scaled down. The shard is swept as empty, and then gets the item:
what it holds has grown while it was draining, and it holds an item after it has been swept. -/
theorem swept_shard_fills : ∃ p p' : ShardPool Request, Run (fun _ => True) init p ∧ Run (fun _ => True) p p' ∧
    (p.shards 1).isDraining = true ∧ p.Swept 1 ∧ (p.shards 1).size = 0 ∧ p'.Swept 1 ∧ (p'.shards 1).size = 1 := by
  have scaled : Run (fun _ => True) init _ := .single ⟨.scaleUp 2 (fun _ => [freshQueue]) (by decide)
    fun _ mq hmq => by
      rw [mem_singleton.1 hmq]
      exact freshQueue_new, trivial⟩
  have checked := scaled.tail ⟨.queue 1 0 _ _ _ rfl (.check ⟨1, 10⟩ rfl rfl (by decide)), trivial⟩
  have drained := checked.tail ⟨.scaleDown 1 (by decide) (by decide), trivial⟩
  have swept := drained.tail ⟨.sweep, trivial⟩
  refine ⟨_, _, swept, .tail (.single ⟨.queue 1 0 _ _ _ rfl (.insert ⟨1, 10⟩ rfl), trivial⟩)
    ⟨.queue 1 0 _ _ _ rfl (.count ⟨1, 10⟩ _ _ rfl rfl), trivial⟩, rfl, ⟨by decide, by decide, by decide⟩, rfl,
    ⟨by decide, by decide, by decide⟩, rfl⟩

end ShardPool

end InferenceGateway.Registry
