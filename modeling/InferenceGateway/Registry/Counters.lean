import InferenceGateway.Registry.Frame
/-!
# Counters of queues and shards

The load of a list of requests is their number and their bytes, as integers.
A counter pair stands for a load when it is that load cut to 64 bits: the sums
below are then exact whatever the counters have been through, and the counters
are the sums themselves as long as these fit.
-/

namespace InferenceGateway.Registry

open Lib Queue List Option AList Table ManagedQueue

/-- Number of requests and of bytes. -/
abbrev Load := Int × Int

/-- The counters that stand for a load. -/
def wrap (l : Load) : StatsDelta := ⟨.ofInt l.1, .ofInt l.2⟩

instance : Add StatsDelta := ⟨fun a b => ⟨a.len + b.len, a.byteSize + b.byteSize⟩⟩

theorem wrap_add (a b : Load) : wrap (a + b) = wrap a + wrap b := by
  change StatsDelta.mk _ _ = StatsDelta.mk _ _
  rw [StatsDelta.mk.injEq]
  exact ⟨Int64.ofInt_add _ _, Int64.ofInt_add _ _⟩

theorem wrap_zero : wrap 0 = ⟨0, 0⟩ := rfl

theorem add_zero_delta (d : StatsDelta) : d + ⟨0, 0⟩ = d := by
  change StatsDelta.mk (_ + 0) (_ + 0) = _
  simp

theorem wrap_sub_add (a b : Load) : wrap b + wrap (a - b) = wrap a := by
  rw [← wrap_add, add_sub_cancel]

/-- A counter is the figure it stands for when this fits in 63 bits and a sign. -/
theorem toInt_ofInt_of_range {n : Int} (h₀ : -2 ^ 63 ≤ n) (h : n < 2 ^ 63) : (Int64.ofInt n).toInt = n := by
  rw [Int64.toInt_ofInt]
  exact Int.bmod_eq_of_le (by simp only [Int64.size]; omega) (by simp only [Int64.size]; omega)

theorem toInt_ofInt_of_lt {n : Int} (h₀ : 0 ≤ n) (h : n < 2 ^ 63) : (Int64.ofInt n).toInt = n :=
  toInt_ofInt_of_range (by omega) h

variable {α : Type} [QueueItemAccessor α]

def load (x : α) : Load := (1, (QueueItemAccessor.byteSize x).toNat)

def loadOf (xs : List α) : Load := (xs.map load).sum

@[simp] theorem loadOf_nil : loadOf ([] : List α) = 0 := rfl

@[simp] theorem loadOf_cons (x : α) (xs : List α) : loadOf (x :: xs) = load x + loadOf xs := rfl

theorem loadOf_fst (xs : List α) : (loadOf xs).1 = xs.length := by
  induction xs with
  | nil => rfl
  | cons x xs ih =>
    rw [loadOf_cons, Prod.fst_add, ih, length_cons]
    push_cast
    exact add_comm _ _

theorem loadOf_perm {xs ys : List α} (h : xs.Perm ys) : loadOf xs = loadOf ys := (h.map load).sum_eq

theorem load_nonneg (x : α) : 0 ≤ load x := ⟨Int.one_nonneg, Int.natCast_nonneg _⟩

theorem loadOf_nonneg (xs : List α) : 0 ≤ loadOf xs := by
  refine sum_nonneg fun l hl => ?_
  obtain ⟨x, -, rfl⟩ := List.mem_map.1 hl
  exact load_nonneg x

theorem loadOf_filter_add (xs : List α) (p : α → Bool) :
    loadOf (xs.filter p) + loadOf (xs.filter fun x => !p x) = loadOf xs := by
  have hsplit : (xs.filter p ++ xs.filter fun x => !p x).Perm xs := filter_append_perm p xs
  have happ : loadOf (xs.filter p ++ xs.filter fun x => !p x) =
      loadOf (xs.filter p) + loadOf (xs.filter fun x => !p x) := by
    simp only [loadOf, map_append, sum_append]
  rw [← happ, loadOf_perm hsplit]

theorem wrap_load (x : α) : wrap (load x) = ⟨1, size x⟩ := by
  rw [wrap, load, StatsDelta.mk.injEq]
  refine ⟨rfl, ?_⟩
  apply Int64.toBitVec.inj
  simp [size, Int64.toBitVec_ofInt]

theorem wrap_neg_load (x : α) : wrap (-load x) = ⟨-1, -size x⟩ := by
  have h := wrap_load x
  rw [wrap, StatsDelta.mk.injEq] at h
  rw [wrap, StatsDelta.mk.injEq, ← h.2]
  exact ⟨rfl, Int64.ofInt_neg _⟩

namespace ManagedQueue

theorem removedDelta_eq (xs : List α) : removedDelta xs = wrap (-loadOf xs) := by
  have hfold : ∀ (l : Load), xs.foldl (fun d x => (⟨d.len - 1, d.byteSize - size x⟩ : StatsDelta)) (wrap l) =
      wrap (l - loadOf xs) := by
    induction xs with
    | nil => intro l; simp
    | cons x xs ih =>
      intro l
      have hstep : (⟨(wrap l).len - 1, (wrap l).byteSize - size x⟩ : StatsDelta) = wrap (l - load x) := by
        have hx := wrap_load x
        rw [wrap, StatsDelta.mk.injEq] at hx
        rw [wrap, wrap, StatsDelta.mk.injEq, ← hx.1, ← hx.2]
        exact ⟨(Int64.ofInt_sub l.1 (load x).1).symm, (Int64.ofInt_sub l.2 (load x).2).symm⟩
      rw [foldl_cons, hstep, ih, loadOf_cons, sub_sub]
  have h := hfold 0
  rw [zero_sub] at h
  exact h

/-- The queue's handles are in step and its counters stand for its contents. -/
structure Exact (mq : ManagedQueue α) : Prop where
  ok : mq.queue.Ok
  counters : (⟨mq.len, mq.byteSize⟩ : StatsDelta) = wrap (loadOf mq.items)

theorem newManagedQueue_exact {q : SafeQueue α} (hq : q.Ok ∧ q.items = []) (policy : OrderingPolicy α) (key : FlowKey) :
    (newManagedQueue q policy key).Exact ∧ loadOf (newManagedQueue q policy key).items = 0 := by
  have hitems : (newManagedQueue q policy key).items = [] := hq.2
  refine ⟨⟨hq.1, ?_⟩, ?_⟩
  · rw [hitems]; rfl
  · rw [hitems]; rfl

variable {mq mq' : ManagedQueue α}

/-- The change that is sent up is the change of the load. -/
theorem propagate_exact (h : (⟨mq.len, mq.byteSize⟩ : StatsDelta) = wrap (loadOf mq.items)) {queue : SafeQueue α}
    (hq : queue.Ok) {d : StatsDelta} (hd : d = wrap (loadOf queue.items - loadOf mq.items)) {d' : Option StatsDelta}
    (hok : { mq with queue := queue }.propagateStatsDeltaLocked d = .ok (mq', d')) :
    mq'.Exact ∧ mq'.items = queue.items ∧ wrap (loadOf mq'.items - loadOf mq.items) = d'.getD ⟨0, 0⟩ := by
  unfold propagateStatsDeltaLocked at hok
  simp only at hok
  split at hok
  · cases hok
  · cases hok
    refine ⟨⟨hq, ?_⟩, rfl, hd.symm⟩
    have hsum := wrap_sub_add (loadOf queue.items) (loadOf mq.items)
    rw [← h, ← hd] at hsum
    exact hsum

/-- A load that the counter of the length can show passes the check. -/
theorem propagate_total (h : (⟨mq.len, mq.byteSize⟩ : StatsDelta) = wrap (loadOf mq.items)) {queue : SafeQueue α}
    {d : StatsDelta} (hd : d = wrap (loadOf queue.items - loadOf mq.items)) (hfit : (loadOf queue.items).1 < 2 ^ 63) :
    ∃ res, { mq with queue := queue }.propagateStatsDeltaLocked d = .ok res := by
  have hsum := wrap_sub_add (loadOf queue.items) (loadOf mq.items)
  rw [← h, ← hd] at hsum
  have hlen : mq.len + d.len = .ofInt (loadOf queue.items).1 := congrArg StatsDelta.len hsum
  have hpos : ¬ mq.len + d.len < 0 := by
    rw [Int64.lt_iff_toInt_lt, hlen, toInt_ofInt_of_lt (loadOf_nonneg _).1 hfit]
    exact not_lt.2 (loadOf_nonneg _).1
  exact ⟨_, if_neg hpos⟩

/-! What is sent up is the change of the load. -/

theorem wrap_added {xs ys : List α} {x : α} (hp : ys.Perm (x :: xs)) : ⟨1, size x⟩ = wrap (loadOf ys - loadOf xs) := by
  rw [loadOf_perm hp, loadOf_cons, ← wrap_load]
  exact congrArg wrap (add_sub_cancel_right _ _).symm

theorem wrap_removed {xs ys : List α} {x : α} (hp : xs.Perm (x :: ys)) : ⟨-1, -size x⟩ = wrap (loadOf ys - loadOf xs) := by
  have hneg : -load x = loadOf ys - loadOf xs := by rw [loadOf_perm hp, loadOf_cons]; abel
  rw [← wrap_neg_load, hneg]

theorem removedDelta_change {gone xs ys : List α} (h : loadOf gone + loadOf ys = loadOf xs) :
    removedDelta gone = wrap (loadOf ys - loadOf xs) := by
  have hneg : -loadOf gone = loadOf ys - loadOf xs := by rw [← h]; abel
  rw [removedDelta_eq, hneg]

theorem cleanup_load (h : mq.Exact) (predicate : α → Bool) :
    loadOf (mq.queue.cleanup predicate).1 + loadOf (mq.queue.cleanup predicate).2.items = loadOf mq.items := by
  obtain ⟨-, h1, h2⟩ := SafeQueue.cleanup_ok h.ok predicate
  rw [h1, loadOf_perm h2]
  exact loadOf_filter_add _ _

theorem drain_load (h : mq.Exact) : loadOf mq.queue.drain.1 + loadOf mq.queue.drain.2.items = loadOf mq.items := by
  obtain ⟨-, h1, h2⟩ := SafeQueue.drain_ok h.ok
  rw [h1, h2, loadOf_nil, add_zero]
  rfl

variable {d : Option StatsDelta}

theorem propagateRemoved_exact (h : mq.Exact) {res : List α × SafeQueue α} (hq : res.2.Ok)
    (hr : loadOf res.1 + loadOf res.2.items = loadOf mq.items) (hok : mq.propagateRemoved res = .ok (mq', d)) :
    mq'.Exact ∧ mq'.items = res.2.items ∧ wrap (loadOf mq'.items - loadOf mq.items) = d.getD ⟨0, 0⟩ := by
  unfold propagateRemoved at hok
  split at hok
  · rename_i hnone
    cases hok
    have hl : loadOf res.2.items = loadOf mq.items := by
      rw [← hr, length_eq_zero_iff.1 hnone, loadOf_nil, zero_add]
    refine ⟨⟨hq, ?_⟩, rfl, ?_⟩
    · change _ = wrap (loadOf res.2.items)
      rw [hl]; exact h.counters
    · change wrap (loadOf res.2.items - _) = _
      rw [hl, sub_self]; rfl
  · exact propagate_exact h.counters hq (removedDelta_change hr) hok

theorem propagateRemoved_total (h : mq.Exact) {res : List α × SafeQueue α}
    (hr : loadOf res.1 + loadOf res.2.items = loadOf mq.items) (hfit : (loadOf mq.items).1 < 2 ^ 63) :
    ∃ res', mq.propagateRemoved res = .ok res' := by
  unfold propagateRemoved
  split
  · exact ⟨_, rfl⟩
  · refine propagate_total h.counters (removedDelta_change hr) (lt_of_le_of_lt ?_ hfit)
    rw [← hr]
    exact le_add_of_nonneg_left (loadOf_nonneg res.1).1

/-- Some items are gone, and the change that is sent up is their load. -/
structure Removes (mq mq' : ManagedQueue α) (d : Option StatsDelta) : Prop where
  keeps : mq'.Exact
  change : wrap (loadOf mq'.items - loadOf mq.items) = d.getD ⟨0, 0⟩
  gone : ∃ gone, mq.items.Perm (gone ++ mq'.items)

theorem remove_removes (h : mq.Exact) {handle : QueueItemHandle} (hok : mq.remove handle = .ok (mq', d)) :
    mq.Removes mq' d := by
  simp only [remove] at hok
  split at hok
  · cases hok
    exact ⟨h, by rw [sub_self]; rfl, [], .refl _⟩
  · rename_i x queue hrem
    obtain ⟨hq, hp⟩ := SafeQueue.remove_ok h.ok hrem
    obtain ⟨h1, h2, h3⟩ := propagate_exact h.counters hq (wrap_removed hp) hok
    exact ⟨h1, h3, [x], by rw [h2]; exact hp⟩

theorem cleanup_removes (h : mq.Exact) {predicate : α → Bool} (hok : mq.cleanup predicate = .ok (mq', d)) :
    mq.Removes mq' d := by
  obtain ⟨hq, -, h2⟩ := SafeQueue.cleanup_ok h.ok predicate
  obtain ⟨h3, h4, h5⟩ := propagateRemoved_exact h hq (cleanup_load h predicate) hok
  refine ⟨h3, h5, mq.items.filter predicate, ?_⟩
  rw [h4]
  exact (filter_append_perm predicate mq.items).symm.trans (h2.symm.append_left _)

theorem drain_removes (h : mq.Exact) (hok : mq.drain = .ok (mq', d)) : mq.Removes mq' d := by
  obtain ⟨hq, -, h2⟩ := SafeQueue.drain_ok h.ok
  obtain ⟨h3, h4, h5⟩ := propagateRemoved_exact h hq (drain_load h) hok
  exact ⟨h3, h5, mq.items, by rw [h4, h2, append_nil]⟩

variable [DecidableEq α]

/-- A request is refused, or it is in the queue and its load is sent up. It is
added only where it is not already. -/
theorem add_adds (h : mq.Exact) {isDraining : Bool} {x : α} (hx : x ∉ mq.items)
    (hok : mq.add isDraining x = .ok (mq', d)) :
    (mq' = mq ∧ d = none) ∨ (mq'.Exact ∧ mq'.items.Perm (x :: mq.items) ∧ d = some (wrap (load x))) := by
  simp only [add] at hok
  split at hok
  · cases hok; exact .inl ⟨rfl, rfl⟩
  · obtain ⟨hq, hp⟩ := SafeQueue.add_ok h.ok hx
    obtain ⟨h1, h2, -⟩ := propagate_exact h.counters hq (wrap_added hp) hok
    refine .inr ⟨h1, by rw [h2]; exact hp, ?_⟩
    unfold propagateStatsDeltaLocked at hok
    simp only at hok
    split at hok
    · cases hok
    · cases hok; rw [wrap_load]

/-- One operation: the counters go with the contents, and what is sent up is the
change. -/
theorem perform_exact (h : mq.Exact) {isDraining : Bool} {op : QueueOp α} (hadd : ∀ x, op = .add x → x ∉ mq.items)
    (hok : mq.perform isDraining op = .ok (mq', d)) :
    mq'.Exact ∧ wrap (loadOf mq'.items - loadOf mq.items) = d.getD ⟨0, 0⟩ := by
  cases op with
  | add x =>
    rcases add_adds h (hadd x rfl) hok with ⟨rfl, rfl⟩ | ⟨hex, hp, rfl⟩
    · exact ⟨h, by rw [sub_self]; rfl⟩
    · refine ⟨hex, ?_⟩
      rw [loadOf_perm hp, loadOf_cons, add_sub_cancel_right]; rfl
  | remove handle => exact ⟨(remove_removes h hok).keeps, (remove_removes h hok).change⟩
  | cleanup predicate => exact ⟨(cleanup_removes h hok).keeps, (cleanup_removes h hok).change⟩
  | drain => exact ⟨(drain_removes h hok).keeps, (drain_removes h hok).change⟩

/-- It passes the check of the length, as long as the number of items fits in the counter. -/
theorem perform_total (h : mq.Exact) (isDraining : Bool) {op : QueueOp α} (hfit : (loadOf mq.items).1 < 2 ^ 63)
    (hadd : ∀ x, op = .add x → x ∉ mq.items ∧ (load x + loadOf mq.items).1 < 2 ^ 63) :
    ∃ res, mq.perform isDraining op = .ok res := by
  cases op with
  | add x =>
    obtain ⟨hx, hfit'⟩ := hadd x rfl
    simp only [perform, add]
    split
    · exact ⟨_, rfl⟩
    · obtain ⟨-, hp⟩ := SafeQueue.add_ok h.ok hx
      refine propagate_total h.counters (wrap_added hp) ?_
      rwa [loadOf_perm hp]
  | remove handle =>
    simp only [perform, remove]
    split
    · exact ⟨_, rfl⟩
    · rename_i x queue hrem
      have hp := (SafeQueue.remove_ok h.ok hrem).2
      refine propagate_total h.counters (wrap_removed hp) (lt_of_le_of_lt ?_ hfit)
      rw [items, loadOf_perm hp, loadOf_cons]
      exact le_add_of_nonneg_left (load_nonneg x).1
  | cleanup predicate => exact propagateRemoved_total h (cleanup_load h predicate) hfit
  | drain => exact propagateRemoved_total h (drain_load h) hfit

end ManagedQueue

/-! ## Bands and shards -/

namespace PriorityBand

def load (band : PriorityBand α) : Load := band.queues.total fun _ mq => loadOf mq.items

structure Exact (band : PriorityBand α) : Prop where
  queues : ∀ id mq, band.queues.lookup id = some mq → mq.Exact
  counters : (⟨band.len, band.byteSize⟩ : StatsDelta) = wrap band.load

theorem load_nonneg (band : PriorityBand α) : 0 ≤ band.load := total_nonneg fun _ mq _ => loadOf_nonneg mq.items

end PriorityBand

namespace RegistryShard

variable {s s' : RegistryShard α}

/-- The load of one band, nothing where there is none. -/
def bandLoad (s : RegistryShard α) (p : Int) : Load := ((s.priorityBands.lookup p).map PriorityBand.load).getD 0

def load (s : RegistryShard α) : Load := s.priorityBands.total fun _ band => band.load

structure Exact (s : RegistryShard α) : Prop where
  bands : ∀ p band, s.priorityBands.lookup p = some band → band.Exact
  counters : (⟨s.totalLen, s.totalByteSize⟩ : StatsDelta) = wrap s.load

theorem bandLoad_nonneg (s : RegistryShard α) (p : Int) : 0 ≤ s.bandLoad p := by
  unfold bandLoad
  cases s.priorityBands.lookup p with
  | none => exact le_refl _
  | some band => exact band.load_nonneg

theorem load_nonneg (s : RegistryShard α) : 0 ≤ s.load := total_nonneg fun _ band _ => band.load_nonneg

variable {p : Int} {band : PriorityBand α}

theorem band_le (hb : s.priorityBands.lookup p = some band) : band.load ≤ s.load :=
  le_total (fun _ band _ => band.load_nonneg) hb

theorem bandLoad_le (s : RegistryShard α) (p : Int) : s.bandLoad p ≤ s.load := by
  unfold bandLoad
  cases hb : s.priorityBands.lookup p with
  | none => exact s.load_nonneg
  | some band => exact band_le hb

/-- The step from `s` to `s'` adds `l` to the band `p` and keeps the counters exact. -/
structure Moves (s s' : RegistryShard α) (p : Int) (l : Load) : Prop where
  keeps : s.Exact → s'.Exact
  band : ∀ q, s'.bandLoad q = s.bandLoad q + if q = p then l else 0
  all : s'.load = s.load + l

/-- A band is replaced. -/
theorem loads_insert {band' : PriorityBand α} (hb : s.priorityBands.lookup p = some band)
    (hs : s'.priorityBands = s.priorityBands.insert p band') : s'.load = s.load + (band'.load - band.load) ∧
      ∀ q, s'.bandLoad q = s.bandLoad q + if q = p then band'.load - band.load else 0 := by
  refine ⟨by rw [load, hs, total_insert_old hb]; rfl, fun q => ?_⟩
  unfold bandLoad
  rw [hs]
  by_cases hq : q = p
  · subst hq
    rw [lookup_insert, hb, if_pos rfl]
    exact (add_sub_cancel _ _).symm
  · rw [lookup_insert_ne hq, if_neg hq, add_zero]

/-- The shard's counters change by as much as the band's. -/
theorem moves_insert {band' : PriorityBand α} (hb : s.priorityBands.lookup p = some band)
    (hs : s'.priorityBands = s.priorityBands.insert p band') (hex : band.Exact → band'.Exact)
    (hc : (⟨s'.totalLen, s'.totalByteSize⟩ : StatsDelta) =
      ⟨s.totalLen, s.totalByteSize⟩ + wrap (band'.load - band.load)) : s.Moves s' p (band'.load - band.load) := by
  obtain ⟨hload, hband⟩ := loads_insert hb hs
  refine ⟨fun hs₀ => ⟨?_, ?_⟩, hband, hload⟩
  · intro q b hl
    rw [hs] at hl
    by_cases hq : q = p
    · subst hq
      rw [lookup_insert, Option.some.injEq] at hl
      exact hl ▸ hex (hs₀.bands _ _ hb)
    · rw [lookup_insert_ne hq] at hl
      exact hs₀.bands q b hl
  · rw [hc, hs₀.counters, hload, wrap_add]

variable {key : FlowKey}

/-- What a queue operation does to its shard. -/
theorem queueOp_ok [DecidableEq α] {op : QueueOp α} {d : Option StatsDelta} (h : s.queueOp key op = .ok (s', d)) :
    (s' = s ∧ d = none) ∨ ∃ band mq mq',
      s.priorityBands.lookup key.priority = some band ∧ band.queues.lookup key.id = some mq ∧
      mq.perform s.isDraining op = .ok (mq', d) ∧
      s'.priorityBands = s.priorityBands.insert key.priority { band with
        queues := band.queues.insert key.id mq'
        len := band.len + (d.getD ⟨0, 0⟩).len
        byteSize := band.byteSize + (d.getD ⟨0, 0⟩).byteSize } ∧
      (⟨s'.totalLen, s'.totalByteSize⟩ : StatsDelta) = ⟨s.totalLen, s.totalByteSize⟩ + d.getD ⟨0, 0⟩ := by
  unfold queueOp at h
  split at h
  · cases h; exact .inl ⟨rfl, rfl⟩
  · rename_i mq hmq
    obtain ⟨band, hb, hq⟩ := bind_eq_some_iff.1 hmq
    split at h
    · cases h
    · rename_i mq' d₁ hperf
      have hset : s.setQueue key mq' = { s with
          priorityBands := s.priorityBands.insert key.priority
            { band with queues := band.queues.insert key.id mq' } } := by
        unfold setQueue; rw [hb]
      rw [hset] at h
      cases d₁ with
      | none =>
        cases h
        refine .inr ⟨band, mq, mq', hb, hq, hperf, ?_, ?_⟩
        · simp
        · rw [getD_none, add_zero_delta]
      | some d₁ =>
        simp only [propagate, propagateStatsDelta, lookup_insert, Except.map] at h
        cases h
        refine .inr ⟨band, mq, mq', hb, hq, hperf, ?_, rfl⟩
        simp only [insert_insert, getD_some]

theorem queueOp_moves [DecidableEq α] {op : QueueOp α} {d : Option StatsDelta} (hs : s.Exact)
    (hadd : ∀ x, op = .add x → ∀ mq ∈ s.managedQueue key, x ∉ mq.items) (h : s.queueOp key op = .ok (s', d)) :
    ∃ l, s.Moves s' key.priority l ∧ wrap l = d.getD ⟨0, 0⟩ := by
  rcases queueOp_ok h with ⟨rfl, rfl⟩ | ⟨band, mq, mq', hb, hq, hperf, hbands, hc⟩
  · exact ⟨0, ⟨fun hs => hs, fun q => by simp, by simp⟩, rfl⟩
  · have hband := hs.bands _ _ hb
    have hmq : mq ∈ s.managedQueue key := bind_eq_some_iff.2 ⟨band, hb, hq⟩
    obtain ⟨hex, hd⟩ := perform_exact (hband.queues _ _ hq) (fun x hx => hadd x hx mq hmq) hperf
    have hl : PriorityBand.load { band with
        queues := band.queues.insert key.id mq'
        len := band.len + (d.getD ⟨0, 0⟩).len
        byteSize := band.byteSize + (d.getD ⟨0, 0⟩).byteSize } - band.load = loadOf mq'.items - loadOf mq.items := by
      rw [PriorityBand.load, total_insert_old hq]
      exact add_sub_cancel_left _ _
    refine ⟨_, moves_insert hb hbands (fun _ => ⟨?_, ?_⟩) (by rw [hl, hd]; exact hc), by rw [hl, hd]⟩
    · intro id q hl'
      by_cases hid : id = key.id
      · subst hid
        rw [lookup_insert, Option.some.injEq] at hl'
        exact hl' ▸ hex
      · rw [lookup_insert_ne hid] at hl'
        exact hband.queues id q hl'
    · have hsum := wrap_add band.load (loadOf mq'.items - loadOf mq.items)
      rw [← hl, add_sub_cancel, hl, hd, ← hband.counters] at hsum
      exact hsum.symm

/-! ## What leaves the load alone -/

/-- The step from `s` to `s'` leaves every load as it is and keeps the counters exact. -/
structure Still (s s' : RegistryShard α) : Prop where
  keeps : s.Exact → s'.Exact
  band : ∀ q, s'.bandLoad q = s.bandLoad q
  all : s'.load = s.load

theorem Still.refl (s : RegistryShard α) : s.Still s := ⟨fun h => h, fun _ => rfl, rfl⟩

theorem Still.trans {s'' : RegistryShard α} (h : s.Still s') (h' : s'.Still s'') : s.Still s'' :=
  ⟨fun hs => h'.keeps (h.keeps hs), fun q => (h'.band q).trans (h.band q), h'.all.trans h.all⟩

/-- Each band keeps its queues and counters. -/
theorem still_updateConfig {newConfig : ShardConfig α} (h : s.updateConfig newConfig = .ok s') : s.Still s' := by
  unfold updateConfig at h
  split at h
  · cases h
    refine ⟨fun hs => ⟨fun p band' hl => ?_, hs.counters.trans (congrArg wrap ?_)⟩, fun q => ?_, ?_⟩
    · rw [Table.lookup_mapVals, map_eq_some_iff] at hl
      obtain ⟨band, hb, rfl⟩ := hl
      have hband := hs.bands p band hb
      split
      · exact hband
      · exact ⟨hband.queues, hband.counters⟩
    · rw [load, load, total_mapVals]
      exact total_congr fun p band _ => by split <;> rfl
    · simp only [bandLoad, Table.lookup_mapVals, Option.map_map]
      congr 2
      funext band
      dsimp only [Function.comp]
      split <;> rfl
    · rw [load, load, total_mapVals]
      exact total_congr fun p band _ => by split <;> rfl
  · cases h

/-- A band that is new and empty. -/
theorem still_initPriorityBand {c : PriorityBandConfig α} (hp : c.priority ∉ s.priorityBands) :
    s.Still (s.initPriorityBand c) := by
  have hempty : PriorityBand.load (⟨c.fairnessPolicy, c, ∅, 0, 0⟩ : PriorityBand α) = 0 := rfl
  have hload : (s.initPriorityBand c).load = s.load := by
    rw [load, initPriorityBand, total_insert_new hp, hempty, zero_add]; rfl
  refine ⟨fun hs => ⟨fun p band hl => ?_, by rw [hload]; exact hs.counters⟩, fun q => ?_, hload⟩
  · by_cases hq : p = c.priority
    · subst hq
      rw [initPriorityBand, lookup_insert, Option.some.injEq] at hl
      subst hl
      exact ⟨fun id mq hmq => by simp at hmq, rfl⟩
    · rw [initPriorityBand, lookup_insert_ne hq] at hl
      exact hs.bands p band hl
  · unfold bandLoad
    by_cases hq : q = c.priority
    · subst hq
      rw [initPriorityBand, lookup_insert, lookup_eq_none.2 hp]
      exact hempty
    · rw [initPriorityBand, lookup_insert_ne hq]

theorem still_addPriorityBand (hk : ∀ c, s.config.priorityBands.lookup p = some c → c.priority = p)
    (h : s.addPriorityBand p = .ok s') : s.Still s' := by
  unfold addPriorityBand at h
  split at h
  · cases h; exact .refl s
  · rename_i hp
    split at h
    · cases h
    · rename_i c hc
      cases h
      exact still_initPriorityBand (hk c hc ▸ hp)

/-- A flow's new queue is empty. -/
theorem still_synchronizeFlow {policy : OrderingPolicy α} {q : SafeQueue α} (hq : q.Ok ∧ q.items = [])
    (h : s.synchronizeFlow key policy q = .ok s') : s.Still s' := by
  unfold synchronizeFlow at h
  split at h
  · cases h
  · rename_i band hb
    split at h
    · cases h; exact .refl s
    · rename_i hnew
      cases h
      obtain ⟨hex, hzero⟩ := newManagedQueue_exact hq policy key
      generalize newManagedQueue q policy key = mq₀ at hex hzero ⊢
      have hl : PriorityBand.load { band with queues := band.queues.insert key.id mq₀ } = band.load := by
        rw [PriorityBand.load, total_insert_new hnew, hzero, zero_add]; rfl
      have hkeeps : band.Exact → PriorityBand.Exact { band with queues := band.queues.insert key.id mq₀ } := by
        refine fun hband => ⟨fun id mq hmq => ?_, by rw [hl]; exact hband.counters⟩
        by_cases hid : id = key.id
        · subst hid
          rw [lookup_insert, Option.some.injEq] at hmq
          exact hmq ▸ hex
        · rw [lookup_insert_ne hid] at hmq
          exact hband.queues id mq hmq
      obtain ⟨h1, h2, h3⟩ : s.Moves { s with
          priorityBands := s.priorityBands.insert key.priority
            { band with queues := band.queues.insert key.id mq₀ } } key.priority _ :=
        moves_insert hb rfl hkeeps (by rw [hl, sub_self, wrap_zero, add_zero_delta])
      rw [hl, sub_self] at h2 h3
      exact ⟨h1, fun q => by simpa using h2 q, by simpa using h3⟩

theorem still_markAsDraining (s : RegistryShard α) : s.Still s.markAsDraining :=
  ⟨fun hs => ⟨hs.bands, hs.counters⟩, fun _ => rfl, rfl⟩

end RegistryShard

end InferenceGateway.Registry
