import InferenceGateway.Lib.Admission
import InferenceGateway.Processor.Capacity
import InferenceGateway.Registry.CounterRuns
/-!
# Queues within their limits

The traffic of a shard is a check-then-add on a store whose counters lag behind:
the view below forgets queues and 64-bit words and keeps the figures. As long as
all requests together are below 2^63 no counter wraps, every step of the traffic
is a step of the view, and the bound of the view is the bound of the shard.
-/

namespace InferenceGateway.Processor

open Lib Queue Registry List RegistryShard Option ManagedQueue

/-! ## Machine integers -/

theorem toInt_add_of_range {a b : Int64} (h₀ : -2 ^ 63 ≤ a.toInt + b.toInt) (h : a.toInt + b.toInt < 2 ^ 63) :
    (a + b).toInt = a.toInt + b.toInt := by
  rw [Int64.toInt_add]
  exact Int.bmod_eq_of_le (by omega) (by omega)

theorem toNat_toUInt64 {v : Int64} (h : 0 ≤ v.toInt) : (v.toUInt64.toNat : Int) = v.toInt := by
  have hlt : 2 * v.toBitVec.toNat < 2 ^ 64 := by
    by_contra hlt
    have hv := BitVec.toInt_eq_toNat_cond v.toBitVec
    rw [if_neg hlt] at hv
    have h2 := v.toBitVec.isLt
    change 0 ≤ v.toBitVec.toInt at h
    omega
  exact (v.toBitVec.toInt_eq_toNat_of_lt hlt).symm

theorem add_le_of_not_lt {a b l : UInt64} (h : ¬a + b > l) (hfit : a.toNat + b.toNat < 2 ^ 64) :
    a.toNat + b.toNat ≤ l.toNat := by
  have := UInt64.le_iff_toNat_le.1 (UInt64.not_lt.1 h)
  rwa [UInt64.toNat_add, Nat.mod_eq_of_lt hfit] at this

/-! ## The check -/

/-- What a request of this size adds to a counter that it concerns. -/
def Counter.unit (itemByteSize : UInt64) : Counter → UInt64
  | .totalByteSize => itemByteSize
  | .totalLen => 1
  | .byteSize _ => itemByteSize
  | .len _ => 1

/-- The counter changes with the band `p`. -/
def Counter.Concerns (p : Int) : Counter → Prop
  | .byteSize q => q = p
  | .len q => q = p
  | _ => True

variable {α : Type} {p : Int}

theorem hasCapacity_limit {shard : RegistryShard α} {seen : Counter → UInt64} {itemByteSize : UInt64}
    (h : hasCapacity (shard.stats seen) p itemByteSize = true) :
    p ∈ shard.priorityBands ∧ ∀ c, Counter.Concerns p c → shard.limit c ≠ 0 →
      ¬seen c + Counter.unit itemByteSize c > shard.limit c := by
  unfold hasCapacity at h
  split_ifs at h with h1 h2
  split at h
  · cases h
  · rename_i bandStats hb
    split_ifs at h with h3 h4
    simp only [stats, Table.lookup_mapVals, map_eq_some_iff] at hb
    obtain ⟨band, hb, rfl⟩ := hb
    refine ⟨Table.mem_of_lookup hb, fun c hc hl => ?_⟩
    cases c with
    | totalByteSize => exact fun hgt => h1 ⟨UInt64.pos_iff_ne_zero.2 hl, hgt⟩
    | totalLen => exact fun hgt => h2 ⟨UInt64.pos_iff_ne_zero.2 hl, hgt⟩
    | byteSize q =>
      cases hc
      simp only [limit, hb, map_some, getD_some] at hl ⊢
      exact fun hgt => h3 ⟨UInt64.pos_iff_ne_zero.2 hl, hgt⟩
    | len q =>
      cases hc
      simp only [limit, hb, map_some, getD_some] at hl ⊢
      exact fun hgt => h4 ⟨UInt64.pos_iff_ne_zero.2 hl, hgt⟩

theorem load_at_ne_zero [QueueItemAccessor α] {x : α} {c : Counter} (h : (load x).at p c ≠ 0) :
    Counter.Concerns p c ∧ (load x).at p c = ((Counter.unit (QueueItemAccessor.byteSize x) c).toNat : Int) := by
  cases c with
  | totalByteSize | totalLen => exact ⟨trivial, rfl⟩
  | byteSize q | len q =>
    simp only [Load.at] at h ⊢
    split at h
    · rename_i hq; rw [if_pos hq]; exact ⟨hq, rfl⟩
    · exact absurd rfl h

/-! ## What is still to be counted -/

/-- What a propagation has still to add to a counter. -/
def owed (todo : Propagation) (c : Counter) : Int := (todo.map fun e => if e.1 = c then e.2.toInt else 0).sum

@[simp] theorem owed_nil (c : Counter) : owed [] c = 0 := rfl

@[simp] theorem owed_cons (e : Counter × Int64) (todo : Propagation) (c : Counter) :
    owed (e :: todo) c = (if e.1 = c then e.2.toInt else 0) + owed todo c := rfl

@[simp] theorem owed_append (todo todo' : Propagation) (c : Counter) :
    owed (todo ++ todo') c = owed todo c + owed todo' c := by
  simp [owed]

theorem owed_nonneg {todo : Propagation} (h : ∀ e ∈ todo, 0 ≤ e.2.toInt) (c : Counter) : 0 ≤ owed todo c := by
  refine sum_nonneg fun n hn => ?_
  obtain ⟨e, he, rfl⟩ := List.mem_map.1 hn
  split
  · exact h e he
  · exact le_rfl

theorem owed_nonpos {todo : Propagation} (h : ∀ e ∈ todo, e.2.toInt ≤ 0) (c : Counter) : owed todo c ≤ 0 := by
  induction todo with
  | nil => exact le_rfl
  | cons e todo ih =>
    rw [owed_cons]
    refine add_nonpos ?_ (ih fun e he => h e (mem_cons_of_mem _ he))
    split
    · exact h e mem_cons_self
    · exact le_rfl

theorem owed_statsWrites (p : Int) (d : StatsDelta) :
    owed (statsWrites p d) = Load.at (d.len.toInt, d.byteSize.toInt) p := by
  funext c
  cases c <;> simp [owed, statsWrites, Load.at, eq_comm]

theorem mem_statsWrites {s : RegistryShard α} {d : StatsDelta} (hp : p ∈ s.priorityBands) {e : Counter × Int64}
    (he : e ∈ statsWrites p d) : s.Has e.1 ∧ (e.2 = d.len ∨ e.2 = d.byteSize) := by
  simp only [statsWrites, mem_cons, not_mem_nil, or_false] at he
  rcases he with rfl | rfl | rfl | rfl
  · exact ⟨hp, .inl rfl⟩
  · exact ⟨hp, .inr rfl⟩
  · exact ⟨trivial, .inl rfl⟩
  · exact ⟨trivial, .inr rfl⟩

/-! ## The view -/

namespace Work
variable {α : Type}

def adds : Work α → Propagation
  | adding todo => todo
  | _ => []

def releases : Work α → Propagation
  | releasing todo => todo
  | _ => []

/-- The item that is to be added. -/
def hand : Work α → Option α
  | looking _ x => some x
  | reading _ x _ _ => some x
  | admitted _ x => some x
  | _ => none

/-- `Stats` has read the counter, or will. -/
def Reads (c : Counter) : Work α → Prop
  | reading _ _ seen rest => c ∈ rest ∨ (seen c).isSome
  | _ => True

def phase [QueueItemAccessor α] : Work α → Admission.Phase Counter
  | idle => .idle
  | looking key x => .reading ((load x).at key.priority) fun _ => none
  | reading key x seen _ => .reading ((load x).at key.priority) fun c => (seen c).map fun v => (v.toNat : Int)
  | admitted key x => .admitted ((load x).at key.priority)
  | adding _ => .counting
  | releasing _ => .idle

end Work

namespace Traffic

variable {α : Type}

def releases (s : Traffic α) : Propagation := s.work.releases ++ s.sweeps.flatten

variable [QueueItemAccessor α]

def view (s : Traffic α) : Admission.State Counter where
  stored := s.shard.amount
  counter := fun c => (s.shard.counter c).toInt
  released := fun c => -owed s.releases c
  owed := owed s.work.adds
  offered := (loadOf s.arrived).figure
  phase := s.work.phase

/-! ## What every step keeps -/

section Steps
variable [DecidableEq α] {s s' : Traffic α}

/-- Bands and limits stay. -/
theorem frame_step (h : Step s s') : s'.shard.frame = s.shard.frame ∧ s'.shard.config = s.shard.config := by
  cases h with
  | synchronizeFlow key policy name q shard hq h => exact frame_synchronizeFlow h
  | add key x mq mq' d hw hq h | dispatch key handle mq mq' d hw hq h | sweep key predicate mq mq' d hq h =>
    exact s.shard.frame_setQueue key mq'
  | addWrites c d rest hw | dispatchWrites c d rest hw | sweepWrites before after c d rest hs =>
    exact (s.shard.recounts_addCounter c d).frame
  | _ => exact ⟨rfl, rfl⟩

/-- The queues are in order, and no item comes twice. -/
structure Stocked (s : Traffic α) : Prop where
  queues : ∀ key mq, s.shard.managedQueue key = some mq → mq.Exact
  held : ∀ key mq, s.shard.managedQueue key = some mq → ∀ x ∈ mq.items, x ∈ s.arrived ∧ s.work.hand ≠ some x
  hand : ∀ x, s.work.hand = some x → x ∈ s.arrived

omit [DecidableEq α] in
/-- The processor goes on, and takes up no new item. -/
theorem Stocked.work (h : s.Stocked) {shard : RegistryShard α} (hs : ∀ key, shard.managedQueue key = s.shard.managedQueue key)
    {w : Work α} (hw : w.hand = s.work.hand ∨ w.hand = none) (sweeps : List Propagation) :
    Stocked { s with shard := shard, work := w, sweeps := sweeps } := by
  have hhand : ∀ x, w.hand = some x → s.work.hand = some x := by
    intro x hx
    rcases hw with hw | hw
    · rwa [hw] at hx
    · rw [hw] at hx; cases hx
  refine ⟨fun key mq hmq => ?_, fun key mq hmq x hx => ?_, fun x hx => h.hand x (hhand x hx)⟩
  · rw [hs] at hmq
    exact h.queues key mq hmq
  · rw [hs] at hmq
    obtain ⟨h1, h2⟩ := h.held key mq hmq x hx
    exact ⟨h1, fun hx' => h2 (hhand x hx')⟩

variable {key : FlowKey} {mq mq' : ManagedQueue α}

omit [DecidableEq α] in
/-- A queue gets other contents. -/
theorem Stocked.refill (h : s.Stocked) (hf : s.shard.Refills s'.shard key mq mq') (hex : mq'.Exact)
    (ha : s'.arrived = s.arrived) (hh : s'.work.hand = s.work.hand ∨ s'.work.hand = none)
    (hitems : ∀ x ∈ mq'.items, x ∈ s.arrived ∧ s'.work.hand ≠ some x) : s'.Stocked := by
  have hhand : ∀ x, s'.work.hand = some x → s.work.hand = some x := by
    intro x hx
    rcases hh with hh | hh
    · rwa [hh] at hx
    · rw [hh] at hx; cases hx
  have hold : ∀ k q, s'.shard.managedQueue k = some q → q = mq' ∨ s.shard.managedQueue k = some q := by
    intro k q hq
    rw [hf.queues] at hq
    split at hq
    · exact .inl (Option.some.inj hq).symm
    · exact .inr hq
  refine ⟨fun k q hq => ?_, fun k q hq x hx => ?_, fun x hx => ha ▸ h.hand x (hhand x hx)⟩
  · rcases hold k q hq with rfl | hq
    · exact hex
    · exact h.queues k q hq
  · rw [ha]
    rcases hold k q hq with rfl | hq
    · exact hitems x hx
    · exact ⟨(h.held k q hq x hx).1, fun hx' => (h.held k q hq x hx).2 (hhand x hx')⟩

theorem Stocked.step (h : s.Stocked) (hst : Step s s') : s'.Stocked := by
  have removed : ∀ {key : FlowKey} {mq mq' : ManagedQueue α} {d : Option StatsDelta} {w : Work α},
      s.shard.managedQueue key = some mq → mq.Removes mq' d → (w.hand = s.work.hand ∨ w.hand = none) →
      ∀ x ∈ mq'.items, x ∈ s.arrived ∧ w.hand ≠ some x := by
    intro key mq mq' d w hq hr hw x hx
    obtain ⟨gone, hp⟩ := hr.gone
    obtain ⟨h1, h2⟩ := h.held key mq hq x (hp.mem_iff.2 (mem_append_right _ hx))
    refine ⟨h1, fun hx' => h2 ?_⟩
    rcases hw with hw | hw
    · rwa [hw] at hx'
    · rw [hw] at hx'; cases hx'
  cases hst with
  | synchronizeFlow key policy name q shard hq hs =>
    obtain ⟨-, -, -, -, hqueues⟩ := recounts_synchronizeFlow (SafeQueue.newQueueFromName_ok hq) hs
    obtain ⟨hnew, -⟩ := newManagedQueue_exact (SafeQueue.newQueueFromName_ok hq) policy key
    refine ⟨fun k mq hmq => ?_, fun k mq hmq x hx => ?_, h.hand⟩
    · rcases hqueues k with he | he
      · exact h.queues k mq (he ▸ hmq)
      · exact Option.some.inj (he.symm.trans hmq) ▸ hnew
    · rcases hqueues k with he | he
      · exact h.held k mq (he ▸ hmq) x hx
      · have hmq' := Option.some.inj (he.symm.trans hmq)
        rw [← hmq', items, newManagedQueue, (SafeQueue.newQueueFromName_ok hq).2] at hx
        cases hx
  | receive key x hw hx =>
    refine ⟨h.queues, fun k mq hmq y hy => ?_, fun y hy => ?_⟩
    · have hy' := (h.held k mq hmq y hy).1
      exact ⟨mem_cons_of_mem _ hy', fun he => hx (Option.some.inj he ▸ hy')⟩
    · exact Option.some.inj hy ▸ mem_cons_self
  | check key x hw hq | read key x seen c rest hw | approve key x seen hw hc =>
    exact h.work (fun _ => rfl) (.inl (by rw [hw]; rfl)) _
  | add key x mq mq' d hw hq ha =>
    have hx : x ∉ mq.items := fun hx => (h.held key mq hq x hx).2 (by rw [hw]; rfl)
    rcases add_adds (h.queues key mq hq) hx ha with ⟨-, hd⟩ | ⟨hex, hp, -⟩
    · cases hd
    · refine h.refill (refills_setQueue hq mq') hex rfl (.inr rfl) fun y hy => ⟨?_, fun he => by cases he⟩
      rcases mem_cons.1 (hp.mem_iff.1 hy) with rfl | hy
      · exact h.hand y (by rw [hw]; rfl)
      · exact (h.held key mq hq y hy).1
  | addWrites c d rest hw | dispatchWrites c d rest hw =>
    exact h.work (s.shard.recounts_addCounter c d).queues (.inr rfl) _
  | dispatch key handle mq mq' d hw hq hr =>
    have hrem := remove_removes (h.queues key mq hq) hr
    exact h.refill (refills_setQueue hq mq') hrem.keeps rfl (.inr rfl) (removed hq hrem (.inr rfl))
  | sweep key predicate mq mq' d hq hc =>
    have hrem := cleanup_removes (h.queues key mq hq) hc
    exact h.refill (refills_setQueue hq mq') hrem.keeps rfl (.inl rfl) (removed hq hrem (.inl rfl))
  | sweepWrites before after c d rest hs => exact h.work (s.shard.recounts_addCounter c d).queues (.inl rfl) _
  | swept before after hs => exact h.work (fun _ => rfl) (.inl rfl) _
  | _ => exact h.work (fun _ => rfl) (.inr rfl) _

/-! ## Changes on their way -/

omit [DecidableEq α] in
theorem shown_wrap {l : Load} (h₀ : -(2 ^ 63 : Int) ≤ l.1 ∧ -(2 ^ 63 : Int) ≤ l.2) (h : Fits l) :
    shown (wrap l).len (wrap l).byteSize = l :=
  Prod.ext (toInt_ofInt_of_range h₀.1 h.1) (toInt_ofInt_of_range h₀.2 h.2)

omit [DecidableEq α] in
/-- What leaves a queue is taken from the shard, and sent up as it is. -/
theorem removed_load {d : Option StatsDelta} {shard shard' : RegistryShard α} (hf : shard.Refills shard' key mq mq')
    (hr : mq.Removes mq' d) (hfit : ∀ c, shard.amount c < 2 ^ 63) :
    ∃ r : Load, 0 ≤ r ∧ r.at key.priority ≤ shard.amount ∧ shard'.amount = shard.amount - r.at key.priority ∧
      shown (d.getD ⟨0, 0⟩).len (d.getD ⟨0, 0⟩).byteSize = -r := by
  obtain ⟨gone, hp⟩ := hr.gone
  have hload : loadOf mq'.items - loadOf mq.items = -loadOf gone := by
    have happ : loadOf (gone ++ mq'.items) = loadOf gone + loadOf mq'.items := by
      simp only [loadOf, map_append, sum_append]
    rw [loadOf_perm hp, happ]; abel
  have hamount : shard'.amount = shard.amount - (loadOf gone).at key.priority := by
    rw [hf.amount, hload, Load.neg_at, sub_eq_add_neg]
  have hle : (loadOf gone).at key.priority ≤ shard.amount := by
    intro c
    have hc := shard'.amount_nonneg c
    rw [hamount, Pi.sub_apply] at hc
    exact sub_nonneg.1 hc
  refine ⟨loadOf gone, loadOf_nonneg gone, hle, hamount, ?_⟩
  rw [← hr.change, hload]
  have h1 : (loadOf gone).1 ≤ shard.amount .totalLen := hle .totalLen
  have h2 : (loadOf gone).2 ≤ shard.amount .totalByteSize := hle .totalByteSize
  have h3 := hfit .totalLen
  have h4 := hfit .totalByteSize
  have h5 : 0 ≤ (loadOf gone).1 := (loadOf_nonneg gone).1
  have h6 : 0 ≤ (loadOf gone).2 := (loadOf_nonneg gone).2
  exact shown_wrap ⟨by simp only [Prod.fst_neg]; omega, by simp only [Prod.snd_neg]; omega⟩
    ⟨by simp only [Prod.fst_neg]; omega, by simp only [Prod.snd_neg]; omega⟩

/-- Additions raise, releases lower, both existing counters; and `Stats` reads them all. -/
structure Flowing (s : Traffic α) : Prop where
  adds : ∀ e ∈ s.work.adds, 0 ≤ e.2.toInt ∧ s.shard.Has e.1
  releases : ∀ e ∈ s.releases, e.2.toInt ≤ 0 ∧ s.shard.Has e.1
  reads : ∀ c, s.shard.Has c → s.work.Reads c

variable {x : α}

omit [DecidableEq α] in
theorem load_le_of_mem {xs : List α} (hx : x ∈ xs) : load x ≤ loadOf xs :=
  single_le_sum (fun l hl => by obtain ⟨y, -, rfl⟩ := List.mem_map.1 hl; exact load_nonneg y) _
    (mem_map_of_mem hx)

omit [DecidableEq α] in
/-- The load of one request fits if all of them do. -/
theorem shown_load {xs : List α} (hx : x ∈ xs) (hfit : Fits (loadOf xs)) :
    shown (wrap (load x)).len (wrap (load x)).byteSize = load x := by
  have h1 : 0 ≤ (load x).1 := (load_nonneg x).1
  have h2 : 0 ≤ (load x).2 := (load_nonneg x).2
  exact shown_wrap ⟨by omega, by omega⟩ (hfit.mono (load_le_of_mem hx))

/-- The change that `Add` sends up. -/
theorem Stocked.added_delta (h : s.Stocked) {d : StatsDelta} (hw : s.work = .admitted key x)
    (hq : s.shard.managedQueue key = some mq) (ha : mq.add s.shard.isDraining x = .ok (mq', some d))
    (hfit : Fits (loadOf s.arrived)) : shown d.len d.byteSize = load x ∧ mq'.items.Perm (x :: mq.items) := by
  have hx : x ∉ mq.items := fun hx => (h.held key mq hq x hx).2 (by rw [hw]; rfl)
  rcases add_adds (h.queues key mq hq) hx ha with ⟨-, hd⟩ | ⟨-, hp, hd⟩
  · cases hd
  · rw [some.injEq] at hd
    subst hd
    exact ⟨shown_load (h.hand x (by rw [hw]; rfl)) hfit, hp⟩

omit [QueueItemAccessor α] [DecidableEq α] in
/-- The processor goes on, and neither adds nor removes. -/
theorem Flowing.work (h : s.Flowing) (w : Work α) (ha : w.adds = []) (hr : w.releases = [])
    (hreads : ∀ c, s.shard.Has c → w.Reads c) {arrived : List α} : Flowing { s with work := w, arrived := arrived } := by
  refine ⟨fun e he => ?_, fun e he => ?_, hreads⟩
  · rw [ha] at he; cases he
  · simp only [Traffic.releases, hr, nil_append] at he
    exact h.releases e (mem_append_right _ he)

/-- What a removal writes back is never positive. -/
private theorem nonpos_of_removed {r : Load} (hr : 0 ≤ r.1 ∧ 0 ≤ r.2) {v : Int} (h : v = (-r).1 ∨ v = (-r).2) : v ≤ 0 := by
  rcases h with rfl | rfl
  · exact neg_nonpos.2 hr.1
  · exact neg_nonpos.2 hr.2

theorem Flowing.step (h : s.Flowing) (hs : s.Stocked) (hfit : Fits (loadOf s.arrived))
    (hamount : ∀ c, s.shard.amount c < 2 ^ 63) (hst : Step s s') : s'.Flowing := by
  have hhas : ∀ c, s'.shard.Has c ↔ s.shard.Has c := fun c => (of_frame (frame_step hst) c).2
  have writes : ∀ {key : FlowKey} {mq : ManagedQueue α} {d : StatsDelta} {l : Load}, s.shard.managedQueue key = some mq →
      shown d.len d.byteSize = l → ∀ e ∈ statsWrites key.priority d,
      (e.2.toInt = l.1 ∨ e.2.toInt = l.2) ∧ s'.shard.Has e.1 := by
    rintro key mq d l hq rfl e he
    obtain ⟨h1, h2⟩ := mem_statsWrites (mem_bands_of_managedQueue hq) he
    exact ⟨h2.imp (congrArg Int64.toInt) (congrArg Int64.toInt), (hhas _).2 h1⟩
  have same : ∀ e ∈ s.releases, e.2.toInt ≤ 0 ∧ s'.shard.Has e.1 := fun e he =>
    ⟨(h.releases e he).1, (hhas _).2 (h.releases e he).2⟩
  cases hst with
  | synchronizeFlow key policy name q shard hq hsync =>
    exact ⟨fun e he => ⟨(h.adds e he).1, (hhas _).2 (h.adds e he).2⟩, same,
      fun c hc => h.reads c ((hhas c).1 hc)⟩
  | receive key x hw hx => exact h.work (.looking key x) rfl rfl fun _ _ => trivial
  | check key x hw hq =>
    exact h.work (.reading key x _ _) rfl rfl fun c hc => .inl (mem_statsReads hc)
  | read key x seen c rest hw =>
    refine h.work (.reading key x _ rest) rfl rfl fun c' hc => ?_
    by_cases hcc : c' = c
    · subst hcc
      exact .inr (by rw [Function.update_self]; rfl)
    · have hread := h.reads c' hc
      rw [hw] at hread
      rcases hread with hmem | hsome
      · exact .inl ((mem_cons.1 hmem).resolve_left hcc)
      · exact .inr (by rw [Function.update_of_ne hcc]; exact hsome)
  | approve key x seen hw hc => exact h.work (.admitted key x) rfl rfl fun _ _ => trivial
  | add key x mq mq' d hw hq ha =>
    refine ⟨fun e he => ?_, fun e he => same e ?_, fun _ _ => trivial⟩
    · obtain ⟨h1, h2⟩ := writes hq (hs.added_delta hw hq ha hfit).1 e he
      refine ⟨?_, h2⟩
      rcases h1 with h1 | h1
      · rw [h1]; exact (load_nonneg x).1
      · rw [h1]; exact (load_nonneg x).2
    · exact mem_append_right _ he
  | addWrites c d rest hw =>
    have hsub : ∀ e ∈ rest, e ∈ s.work.adds := fun e he => by rw [hw]; exact mem_cons_of_mem _ he
    exact ⟨fun e he => ⟨(h.adds e (hsub e he)).1, (hhas _).2 (h.adds e (hsub e he)).2⟩,
      fun e he => same e (mem_append_right _ he), fun _ _ => trivial⟩
  | dispatch key handle mq mq' d hw hq hr =>
    have hrem := remove_removes (hs.queues key mq hq) hr
    obtain ⟨r, hr0, -, -, hd⟩ := removed_load (refills_setQueue hq mq') hrem hamount
    refine ⟨nofun, fun e he => ?_, fun _ _ => trivial⟩
    rcases mem_append.1 he with he | he
    · obtain ⟨h1, h2⟩ := writes hq hd e he
      exact ⟨nonpos_of_removed hr0 h1, h2⟩
    · exact same e (mem_append_right _ he)
  | dispatchWrites c d rest hw =>
    refine ⟨nofun, fun e he => same e ?_, fun _ _ => trivial⟩
    rw [Traffic.releases, hw]
    exact mem_cons_of_mem _ he
  | sweep key predicate mq mq' d hq hc =>
    have hrem := cleanup_removes (hs.queues key mq hq) hc
    obtain ⟨r, hr0, -, -, hd⟩ := removed_load (refills_setQueue hq mq') hrem hamount
    refine ⟨fun e he => ⟨(h.adds e he).1, (hhas _).2 (h.adds e he).2⟩, fun e he => ?_,
      fun c hc => h.reads c ((hhas c).1 hc)⟩
    simp only [Traffic.releases, flatten_append, mem_append] at he
    rcases he with he | he | he
    · exact same e (mem_append_left _ he)
    · cases d with
      | none => cases he
      | some d =>
        simp only [map_some, toList_some, flatten_cons, flatten_nil, append_nil] at he
        obtain ⟨h1, h2⟩ := writes hq hd e he
        exact ⟨nonpos_of_removed hr0 h1, h2⟩
    · exact same e (mem_append_right _ he)
  | sweepWrites before after c d rest hsw =>
    refine ⟨fun e he => ⟨(h.adds e he).1, (hhas _).2 (h.adds e he).2⟩, fun e he => same e ?_,
      fun c hc => h.reads c ((hhas c).1 hc)⟩
    simp only [Traffic.releases, hsw, flatten_append, flatten_cons, mem_append, mem_cons] at he ⊢
    tauto
  | swept before after hsw =>
    refine ⟨h.adds, fun e he => same e ?_, h.reads⟩
    simpa [Traffic.releases, hsw] using he
  | _ => exact h.work .idle rfl rfl fun _ _ => trivial

end Steps

end Traffic

end InferenceGateway.Processor
