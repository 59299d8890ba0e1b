import InferenceGateway.Registry.Queues
import InferenceGateway.Registry.Totals
/-!
# The counters of a shard, one by one

`Stats` reads the counters of a shard one after the other, and `propagateStatsDelta`
adds to them one after the other; only the single accesses are atomic. Here are
these accesses, what each counter counts, and its limit.
-/

namespace InferenceGateway.Registry

open Lib Queue AList

inductive Counter where
  | totalByteSize
  | totalLen
  | byteSize (priority : Int)
  | len (priority : Int)
deriving DecidableEq, Repr

/-- What a load in the band `p` means for each counter. -/
def Load.at (l : Load) (p : Int) : Counter → Int
  | .totalByteSize => l.2
  | .totalLen => l.1
  | .byteSize q => if q = p then l.2 else 0
  | .len q => if q = p then l.1 else 0

/-- The figure of a load that the counter is about, whatever its band. -/
def Load.figure (l : Load) : Counter → Int
  | .totalByteSize => l.2
  | .totalLen => l.1
  | .byteSize _ => l.2
  | .len _ => l.1

theorem Load.at_le_figure {l : Load} (h : 0 ≤ l) (p : Int) : l.at p ≤ l.figure := by
  intro c
  cases c with
  | totalByteSize | totalLen => exact le_rfl
  | byteSize q => simp only [Load.at, Load.figure]; split <;> [exact le_rfl; exact h.2]
  | len q => simp only [Load.at, Load.figure]; split <;> [exact le_rfl; exact h.1]

theorem Load.at_nonneg {l : Load} (h : 0 ≤ l) (p : Int) : 0 ≤ l.at p := by
  intro c
  cases c with
  | totalByteSize => exact h.2
  | totalLen => exact h.1
  | byteSize q => simp only [Load.at]; split <;> [exact h.2; exact le_rfl]
  | len q => simp only [Load.at]; split <;> [exact h.1; exact le_rfl]

theorem Load.neg_at (l : Load) (p : Int) : (-l).at p = -l.at p := by
  funext c
  cases c with
  | totalByteSize | totalLen => rfl
  | byteSize q => simp only [Load.at, Pi.neg_apply, Prod.snd_neg]; split <;> simp
  | len q => simp only [Load.at, Pi.neg_apply, Prod.fst_neg]; split <;> simp

structure PriorityBandStats where
  capacityBytes : UInt64
  capacityRequests : UInt64
  byteSize : UInt64
  len : UInt64

structure ShardStats where
  totalCapacityBytes : UInt64
  totalCapacityRequests : UInt64
  totalByteSize : UInt64
  totalLen : UInt64
  perPriorityBandStats : Table Int PriorityBandStats

namespace RegistryShard

variable {α : Type}

variable (s : RegistryShard α)

def counter : Counter → Int64
  | .totalByteSize => s.totalByteSize
  | .totalLen => s.totalLen
  | .byteSize p => ((s.priorityBands.lookup p).map (·.byteSize)).getD 0
  | .len p => ((s.priorityBands.lookup p).map (·.len)).getD 0

/-- The counters in the order in which `Stats` reads them. -/
def statsReads : List Counter :=
  [.totalByteSize, .totalLen] ++ s.priorityBands.keys.flatMap fun p => [.byteSize p, .len p]

/-- `Stats`, from the figures that it has read. -/
def stats (seen : Counter → UInt64) : ShardStats where
  totalCapacityBytes := s.config.maxBytes
  totalCapacityRequests := s.config.maxRequests
  totalByteSize := seen .totalByteSize
  totalLen := seen .totalLen
  perPriorityBandStats := s.priorityBands.mapVals fun p band =>
    { capacityBytes := band.config.maxBytes
      capacityRequests := band.config.maxRequests
      byteSize := seen (.byteSize p)
      len := seen (.len p) }

/-- `Stats` with nothing in between. -/
def snapshot : ShardStats := s.stats fun c => (s.counter c).toUInt64

def updateBand (p : Int) (f : PriorityBand α → PriorityBand α) : RegistryShard α :=
  match s.priorityBands.lookup p with
  | none => s
  | some band => { s with priorityBands := s.priorityBands.insert p (f band) }

/-- One atomic addition. -/
def addCounter (c : Counter) (d : Int64) : RegistryShard α :=
  match c with
  | .totalByteSize => { s with totalByteSize := s.totalByteSize + d }
  | .totalLen => { s with totalLen := s.totalLen + d }
  | .byteSize p => s.updateBand p fun band => { band with byteSize := band.byteSize + d }
  | .len p => s.updateBand p fun band => { band with len := band.len + d }

/-- The additions of `propagateStatsDelta`, in their order. -/
def statsWrites (priority : Int) (d : StatsDelta) : List (Counter × Int64) :=
  [(.len priority, d.len), (.byteSize priority, d.byteSize), (.totalLen, d.len), (.totalByteSize, d.byteSize)]

variable {s : RegistryShard α}

/-- With nothing in between, they are `propagateStatsDelta`. -/
theorem propagateStatsDelta_eq {p : Int} (hp : p ∈ s.priorityBands) (d : StatsDelta) :
    s.propagateStatsDelta p d = .ok ((statsWrites p d).foldl (fun s e => s.addCounter e.1 e.2) s) := by
  obtain ⟨band, hb⟩ := Table.mem_iff_lookup.1 hp
  simp only [propagateStatsDelta, hb, statsWrites, List.foldl_cons, List.foldl_nil, addCounter, updateBand,
    lookup_insert, insert_insert]

/-- What a counter may count up to; 0 is no limit. -/
def limit (s : RegistryShard α) : Counter → UInt64
  | .totalByteSize => s.config.maxBytes
  | .totalLen => s.config.maxRequests
  | .byteSize p => ((s.priorityBands.lookup p).map (·.config.maxBytes)).getD 0
  | .len p => ((s.priorityBands.lookup p).map (·.config.maxRequests)).getD 0

/-- The shard has the counter. -/
def Has (s : RegistryShard α) : Counter → Prop
  | .byteSize p => p ∈ s.priorityBands
  | .len p => p ∈ s.priorityBands
  | _ => True

theorem mem_statsReads {c : Counter} (h : s.Has c) : c ∈ s.statsReads := by
  cases c with
  | totalByteSize | totalLen => simp [statsReads]
  | byteSize p | len p => simpa [statsReads] using mem_keys.1 h

theorem stats_congr {f g : Counter → UInt64} (h : ∀ c, s.Has c → f c = g c) : s.stats f = s.stats g := by
  have hbands := Table.mapVals_congr (t := s.priorityBands) fun p hp (band : PriorityBand α) =>
    congrArg₂ (PriorityBandStats.mk band.config.maxBytes band.config.maxRequests) (h (.byteSize p) hp) (h (.len p) hp)
  simp only [stats, h .totalByteSize trivial, h .totalLen trivial, hbands]

theorem limit_frame (s : RegistryShard α) (p : Int) :
    s.limit (.byteSize p) = ((s.frame p).map (·.1.maxBytes)).getD 0 ∧
      s.limit (.len p) = ((s.frame p).map (·.1.maxRequests)).getD 0 := by
  simp only [limit, frame, Option.map_map, Function.comp_def, and_self]

/-- Bands and limits are a matter of the frame. -/
theorem of_frame {s' : RegistryShard α} (h : s'.frame = s.frame ∧ s'.config = s.config) (c : Counter) :
    s'.limit c = s.limit c ∧ (s'.Has c ↔ s.Has c) := by
  cases c with
  | totalByteSize | totalLen => exact ⟨by rw [limit, h.2]; rfl, .rfl⟩
  | byteSize p => exact ⟨by rw [(limit_frame s' p).1, h.1, (limit_frame s p).1], by simp only [Has, mem_bands_iff, h.1]⟩
  | len p => exact ⟨by rw [(limit_frame s' p).2, h.1, (limit_frame s p).2], by simp only [Has, mem_bands_iff, h.1]⟩

/-! ## A band replaced -/

section Insert
variable {s s' : RegistryShard α} {p : Int} {band band' : PriorityBand α}

/-- A queue of the band replaced or added, the counters as they are. -/
theorem queue_insert (s' : RegistryShard α) {key : FlowKey} {mq : ManagedQueue α} (hb : s.priorityBands.lookup key.priority = some band)
    (hs : s'.priorityBands = s.priorityBands.insert key.priority { band with queues := band.queues.insert key.id mq })
    (ht : s'.totalLen = s.totalLen ∧ s'.totalByteSize = s.totalByteSize) :
    s'.counter = s.counter ∧ ∀ k, s'.managedQueue k = if k = key then some mq else s.managedQueue k := by
  refine ⟨funext fun c => ?_, fun k => ?_⟩
  · cases c with
    | totalByteSize => exact ht.2
    | totalLen => exact ht.1
    | byteSize q | len q =>
      simp only [counter, hs]
      by_cases hq : q = key.priority
      · subst hq; rw [lookup_insert, hb]; rfl
      · rw [lookup_insert_ne hq]
  · unfold managedQueue
    rw [hs]
    by_cases hk : k = key
    · subst hk
      rw [lookup_insert, Option.bind_some, lookup_insert, if_pos rfl]
    · rw [if_neg hk]
      by_cases hp : k.priority = key.priority
      · have hid : k.id ≠ key.id := fun hid => hk (by cases k; cases key; simp_all)
        rw [hp, lookup_insert, hb, Option.bind_some, Option.bind_some, lookup_insert_ne hid]
      · rw [lookup_insert_ne hp]

end Insert

/-! ## One addition -/

theorem updateBand_some {p : Int} {band : PriorityBand α} (hb : s.priorityBands.lookup p = some band)
    (f : PriorityBand α → PriorityBand α) :
    s.updateBand p f = { s with priorityBands := s.priorityBands.insert p (f band) } := by
  unfold updateBand
  rw [hb]

theorem counter_addCounter {c : Counter} (h : s.Has c) (d : Int64) (c' : Counter) :
    (s.addCounter c d).counter c' = if c' = c then s.counter c + d else s.counter c' := by
  cases c with
  | totalByteSize | totalLen => cases c' <;> simp [addCounter, counter]
  | byteSize p | len p =>
    obtain ⟨band, hb⟩ := Table.mem_iff_lookup.1 h
    rw [addCounter, updateBand_some hb]
    cases c' with
    | totalByteSize | totalLen => simp [counter]
    | byteSize q | len q =>
      by_cases hq : q = p
      · subst hq; simp [counter, hb]
      · simp [counter, hq]

/-! ## What is counted -/

section Amount
variable [QueueItemAccessor α] {s s' : RegistryShard α}

/-- What the counter is there to count. -/
def amount (s : RegistryShard α) : Counter → Int
  | .totalByteSize => s.load.2
  | .totalLen => s.load.1
  | .byteSize p => (s.bandLoad p).2
  | .len p => (s.bandLoad p).1

theorem amount_nonneg (s : RegistryShard α) (c : Counter) : 0 ≤ s.amount c := by
  cases c with
  | totalByteSize => exact s.load_nonneg.2
  | totalLen => exact s.load_nonneg.1
  | byteSize p => exact (s.bandLoad_nonneg p).2
  | len p => exact (s.bandLoad_nonneg p).1

theorem amount_of_loads (h : s'.load = s.load ∧ ∀ q, s'.bandLoad q = s.bandLoad q) : s'.amount = s.amount := by
  funext c
  cases c with
  | totalByteSize | totalLen => rw [amount, h.1]; rfl
  | byteSize p | len p => rw [amount, h.2]; rfl

theorem amount_insert {p : Int} {band band' : PriorityBand α} (hb : s.priorityBands.lookup p = some band)
    (hs : s'.priorityBands = s.priorityBands.insert p band') :
    s'.amount = s.amount + (band'.load - band.load).at p := by
  obtain ⟨hload, hband⟩ := loads_insert hb hs
  funext c
  simp only [Pi.add_apply]
  cases c with
  | totalByteSize | totalLen => rw [amount, hload]; rfl
  | byteSize q => rw [amount, hband]; simp only [Prod.snd_add, amount, Load.at]; split <;> rfl
  | len q => rw [amount, hband]; simp only [Prod.fst_add, amount, Load.at]; split <;> rfl

/-- An operation that leaves queues and limits as they are. -/
structure Recounts (s s' : RegistryShard α) : Prop where
  frame : s'.frame = s.frame ∧ s'.config = s.config
  draining : s'.isDraining = s.isDraining
  queues : ∀ key, s'.managedQueue key = s.managedQueue key
  amount : s'.amount = s.amount

theorem recounts_updateBand (s : RegistryShard α) (p : Int) {f : PriorityBand α → PriorityBand α}
    (hq : ∀ b, (f b).queues = b.queues) (hc : ∀ b, (f b).config = b.config)
    (hf : ∀ b, (f b).fairnessPolicy = b.fairnessPolicy) : s.Recounts (s.updateBand p f) := by
  unfold updateBand
  split
  · exact ⟨⟨rfl, rfl⟩, rfl, fun _ => rfl, rfl⟩
  · rename_i band hb
    refine ⟨⟨frame_insert hb rfl (hc band) (hf band), rfl⟩, rfl, managedQueue_insert hb rfl (hq band), ?_⟩
    have hload : (f band).load = band.load := by rw [PriorityBand.load, hq, PriorityBand.load]
    rw [amount_insert hb rfl, hload, sub_self]
    funext c
    cases c <;> simp [Load.at]

theorem recounts_addCounter (s : RegistryShard α) (c : Counter) (d : Int64) : s.Recounts (s.addCounter c d) := by
  cases c with
  | totalByteSize | totalLen => exact ⟨⟨rfl, rfl⟩, rfl, fun _ => rfl, rfl⟩
  | byteSize p | len p => exact s.recounts_updateBand p (fun _ => rfl) (fun _ => rfl) fun _ => rfl

/-! ## One queue changed -/

/-- A queue gets new contents, and no counter of the shard has changed yet. -/
structure Refills (s s' : RegistryShard α) (key : FlowKey) (mq mq' : ManagedQueue α) : Prop where
  frame : s'.frame = s.frame ∧ s'.config = s.config
  draining : s'.isDraining = s.isDraining
  counter : s'.counter = s.counter
  queues : ∀ k, s'.managedQueue k = if k = key then some mq' else s.managedQueue k
  amount : s'.amount = s.amount + (loadOf mq'.items - loadOf mq.items).at key.priority

theorem refills_setQueue {key : FlowKey} {mq : ManagedQueue α} (hmq : s.managedQueue key = some mq) (mq' : ManagedQueue α) :
    s.Refills (s.setQueue key mq') key mq mq' := by
  obtain ⟨band, hb, hq⟩ := Option.bind_eq_some_iff.1 hmq
  have hset : s.setQueue key mq' = { s with
      priorityBands := s.priorityBands.insert key.priority { band with queues := band.queues.insert key.id mq' } } := by
    unfold setQueue; rw [hb]
  obtain ⟨hcounter, hqueues⟩ := queue_insert (s.setQueue key mq') hb (by rw [hset]) ⟨by rw [hset], by rw [hset]⟩
  refine ⟨s.frame_setQueue key mq', by rw [hset], hcounter, hqueues, ?_⟩
  · rw [hset, amount_insert hb rfl]
    have hload : PriorityBand.load { band with queues := band.queues.insert key.id mq' } - band.load =
        loadOf mq'.items - loadOf mq.items := by
      rw [PriorityBand.load, Table.total_insert_old hq]
      exact add_sub_cancel_left _ _
    rw [hload]

/-- A flow gets its queue: an empty one, unless it has one. -/
theorem recounts_synchronizeFlow {key : FlowKey} {policy : OrderingPolicy α} {q : SafeQueue α} (hq : q.Ok ∧ q.items = [])
    (h : s.synchronizeFlow key policy q = .ok s') :
    (s'.frame = s.frame ∧ s'.config = s.config) ∧ s'.isDraining = s.isDraining ∧ s'.counter = s.counter ∧
      s'.amount = s.amount ∧
      ∀ k, s'.managedQueue k = s.managedQueue k ∨ s'.managedQueue k = some (newManagedQueue q policy key) := by
  obtain ⟨-, hband, hload⟩ := still_synchronizeFlow hq h
  refine ⟨frame_synchronizeFlow h, ?_⟩
  have hamount := amount_of_loads ⟨hload, hband⟩
  unfold synchronizeFlow at h
  split at h
  · cases h
  · rename_i band hb
    split at h
    · cases h
      exact ⟨rfl, rfl, rfl, fun _ => .inl rfl⟩
    · rw [Except.ok.injEq] at h
      obtain ⟨hcounter, hqueues⟩ := queue_insert s' hb (by rw [← h]) ⟨by rw [← h], by rw [← h]⟩
      refine ⟨by rw [← h], hcounter, hamount, fun k => ?_⟩
      rw [hqueues]
      split
      · exact .inr rfl
      · exact .inl rfl

end Amount

end RegistryShard

end InferenceGateway.Registry
