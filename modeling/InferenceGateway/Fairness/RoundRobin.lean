import InferenceGateway.Lib.Sorting
import InferenceGateway.Lib.Turns
import InferenceGateway.Registry.BandSafety
/-!
# The round-robin fairness policy

`roundrobin.go`. Each pick takes the keys of the band in the order in which its
map gives them, sorts them, and scans them in a circle from the key after the one
selected last. Queues fill and empty between picks, and while a pick runs: a pick
reads each queue once, so what it sees is one band.
-/

namespace InferenceGateway.Registry

/-- `Compare`: higher priorities first, then by name. The order of code points is that of the bytes. -/
def FlowKey.compare (k other : FlowKey) : Int :=
  if k.priority > other.priority then -1
  else if k.priority < other.priority then 1
  else if k.id < other.id then -1
  else if k.id = other.id then 0
  else 1

/-- What a policy sees of a band; `ids` has the keys of the map in the order of one iteration over it. -/
structure PriorityBandAccessor (α : Type) where
  band : PriorityBand α
  ids : List String
  perm : ids.Perm band.queues.keys

namespace PriorityBandAccessor

variable {α : Type}

def flowKeys (a : PriorityBandAccessor α) : List FlowKey := a.ids.map fun id => ⟨id, a.band.config.priority⟩

def queue (a : PriorityBandAccessor α) (id : String) : Option (ManagedQueue α) := a.band.queues.lookup id

/-- The flow has a queue, and its `Len` is positive. -/
def NonEmpty (a : PriorityBandAccessor α) (key : FlowKey) : Prop := ∃ mq, a.queue key.id = some mq ∧ 0 < mq.len

end PriorityBandAccessor

end InferenceGateway.Registry

namespace InferenceGateway.Fairness

open Lib Registry FlowKey List

variable {α : Type}

/-- The state that a policy keeps on a band, which may be another policy's. -/
inductive PolicyState where
  | roundRobinCursor (lastSelected : Option FlowKey)
  | other
deriving DecidableEq

inductive PickError where
  /-- `invalid state type for RoundRobin policy`. -/
  | invalidState
deriving DecidableEq, Repr

namespace RoundRobin

/-- Where the scan starts. -/
def startIndex (keys : List FlowKey) : Option FlowKey → Nat
  | none => 0
  | some last => if last ∈ keys then (keys.idxOf last + 1) % keys.length else 0

/-- One turn of the loop: the queue of the key, if it has one that is not empty. -/
def candidate (flowGroup : PriorityBandAccessor α) (key : FlowKey) : Option (ManagedQueue α × FlowKey) :=
  (flowGroup.queue key.id).bind fun q => if 0 < q.len then some (q, key) else none

/-- The loop over all keys, from `start` on. -/
def scan (flowGroup : PriorityBandAccessor α) (keys : List FlowKey) (start : Nat) : Option (ManagedQueue α × FlowKey) :=
  (range keys.length).findSome? fun i => (keys[(start + i) % keys.length]?).bind (candidate flowGroup)

variable (sort : SortFunc FlowKey)

/-- `Pick` under the lock of the cursor. -/
def advance (flowGroup : PriorityBandAccessor α) (lastSelected : Option FlowKey) :
    Option (ManagedQueue α) × Option FlowKey :=
  let keys := flowGroup.flowKeys
  if keys.length = 0 then (none, none)
  else
    let keys := sort.run compare keys
    match scan flowGroup keys (startIndex keys lastSelected) with
    | some (queue, currentKey) => (some queue, some currentKey)
    | none => (none, none)

def pick (flowGroup : Option (PriorityBandAccessor α)) (state : PolicyState) :
    Except PickError (Option (ManagedQueue α)) × PolicyState :=
  match flowGroup, state with
  | none, _ => (.ok none, state)
  | some _, .other => (.error .invalidState, state)
  | some flowGroup, .roundRobinCursor lastSelected =>
    let (queue, cursor) := advance sort flowGroup lastSelected
    (.ok queue, .roundRobinCursor cursor)

/-! ## Keys in order -/

theorem compare_ordersOn (keys : List FlowKey) : OrdersOn compare keys where
  antisymm a _ b _ := by
    unfold FlowKey.compare
    grind
  trans a _ b _ c _ hab hbc := by
    unfold FlowKey.compare at *
    grind

theorem eq_of_compare {a b : FlowKey} (hab : a.compare b ≤ 0) (hba : b.compare a ≤ 0) : a = b := by
  obtain ⟨id, priority⟩ := a
  obtain ⟨id', priority'⟩ := b
  unfold FlowKey.compare at *
  grind

/-- A band with the same keys gives the same sorted list, in whatever order they come. -/
theorem sorted_eq {keys keys' : List FlowKey} (h : keys.Perm keys') :
    sort.run compare keys = sort.run compare keys' := by
  have hperm := (sort.perm compare keys).trans (h.trans (sort.perm compare keys').symm)
  exact hperm.eq_of_pairwise (fun a b _ _ hab hba => eq_of_compare hab hba) (sort.sorted _ _ (compare_ordersOn _))
    (sort.sorted _ _ (compare_ordersOn _))

theorem nodup_flowKeys (a : PriorityBandAccessor α) : a.flowKeys.Nodup := by
  refine List.Nodup.map (fun id id' h => ?_) (a.perm.nodup_iff.2 a.band.queues.nodupKeys)
  exact congrArg FlowKey.id h

/-! ## The scan -/

variable {flowGroup : PriorityBandAccessor α} {keys : List FlowKey}

/-- Positions taken modulo the length are the list turned. -/
theorem scan_eq_rotate (flowGroup : PriorityBandAccessor α) (keys : List FlowKey) (start : Nat) :
    scan flowGroup keys start = (keys.rotate start).findSome? (candidate flowGroup) := by
  have hturned : (range keys.length).map (fun i => keys[(start + i) % keys.length]?) = (keys.rotate start).map some := by
    refine ext_getElem (by simp) fun i hi _ => ?_
    rw [length_map, length_range] at hi
    have hpos : (start + i) % keys.length < keys.length := Nat.mod_lt _ (by omega)
    simp only [getElem_map, getElem_range, getElem_rotate, getElem?_eq_getElem hpos, Nat.add_comm i start]
  have hscan : scan flowGroup keys start =
      ((range keys.length).map fun i => keys[(start + i) % keys.length]?).findSome? (·.bind (candidate flowGroup)) := by
    rw [findSome?_map]
    rfl
  rw [hscan, hturned, findSome?_map]
  rfl

theorem scan_eq_turns (flowGroup : PriorityBandAccessor α) (keys : List FlowKey) (last : Option FlowKey) :
    scan flowGroup keys (startIndex keys last) = (turns keys last).findSome? (candidate flowGroup) := by
  rw [scan_eq_rotate]
  cases last with
  | none => rw [startIndex, turns, rotate_zero]
  | some k =>
    rw [startIndex, turns]
    split
    · rw [rotate_mod]
    · rw [rotate_zero]

/-- A flow that is ready to be selected. -/
def ready (flowGroup : PriorityBandAccessor α) (key : FlowKey) : Bool := (candidate flowGroup key).isSome

theorem ready_iff {key : FlowKey} : ready flowGroup key = true ↔ flowGroup.NonEmpty key := by
  unfold ready candidate PriorityBandAccessor.NonEmpty
  cases hq : flowGroup.queue key.id with
  | none => simp
  | some mq =>
    by_cases hlen : 0 < mq.len
    · simp [hlen]
    · simp [hlen]

theorem candidate_eq_some {key : FlowKey} {c : ManagedQueue α × FlowKey} (h : candidate flowGroup key = some c) :
    c.2 = key ∧ flowGroup.queue key.id = some c.1 := by
  obtain ⟨mq, hq, hif⟩ := Option.bind_eq_some_iff.1 h
  split at hif
  · cases hif
    exact ⟨rfl, hq⟩
  · cases hif

/-- What a scan finds is the first flow that is ready. -/
theorem findSome?_candidate (flowGroup : PriorityBandAccessor α) (l : List FlowKey) :
    (l.findSome? (candidate flowGroup)).map Prod.snd = l.find? (ready flowGroup) := by
  induction l with
  | nil => rfl
  | cons key l ih =>
    rw [findSome?_cons, find?_cons, ready]
    cases hc : candidate flowGroup key with
    | none => exact ih
    | some c => exact congrArg some (candidate_eq_some hc).1

/-- The new cursor, and the queue that goes with it. -/
theorem advance_eq (flowGroup : PriorityBandAccessor α) (last : Option FlowKey) :
    (advance sort flowGroup last).2 =
        (turns (sort.run compare flowGroup.flowKeys) last).find? (ready flowGroup) ∧
      (advance sort flowGroup last).1 = (advance sort flowGroup last).2.bind fun key => flowGroup.queue key.id := by
  unfold advance
  simp only
  split
  · rename_i hempty
    rw [length_eq_zero_iff] at hempty
    have hnone : turns (sort.run compare flowGroup.flowKeys) last = [] := by
      apply List.Perm.eq_nil
      rw [← hempty]
      exact (turns_perm _ last).trans (sort.perm _ _)
    rw [hnone]
    exact ⟨rfl, rfl⟩
  · rw [scan_eq_turns, ← findSome?_candidate]
    cases hfound : (turns (sort.run compare flowGroup.flowKeys) last).findSome? (candidate flowGroup) with
    | none => exact ⟨rfl, rfl⟩
    | some c =>
      obtain ⟨key, -, hc⟩ := exists_of_findSome?_eq_some hfound
      obtain ⟨hkey, hq⟩ := candidate_eq_some hc
      refine ⟨rfl, ?_⟩
      rw [Option.bind_some, hkey, hq]

/-! ## Picks in a row -/

/-- The state after the first `t` picks. -/
def stateAt (sort : SortFunc FlowKey) (groups : Nat → PriorityBandAccessor α) (lastSelected : Option FlowKey) :
    Nat → PolicyState
  | 0 => .roundRobinCursor lastSelected
  | t + 1 => (pick sort (some (groups t)) (stateAt sort groups lastSelected t)).2

/-- The cursor after the first `t` picks. -/
def cursorAt (sort : SortFunc FlowKey) (groups : Nat → PriorityBandAccessor α) (lastSelected : Option FlowKey) :
    Nat → Option FlowKey
  | 0 => lastSelected
  | t + 1 => (advance sort (groups t) (cursorAt sort groups lastSelected t)).2

variable {sort : SortFunc FlowKey} {groups : Nat → PriorityBandAccessor α} {lastSelected : Option FlowKey}

theorem stateAt_eq (t : Nat) : stateAt sort groups lastSelected t = .roundRobinCursor (cursorAt sort groups lastSelected t) := by
  induction t with
  | zero => rfl
  | succ t ih =>
    rw [stateAt, ih]
    rfl

theorem cursorAt_takesTurns (sort : SortFunc FlowKey) (lastSelected : Option FlowKey)
    (hfixed : ∀ t, (groups t).flowKeys.Perm (groups 0).flowKeys) :
    TakesTurns (sort.run compare (groups 0).flowKeys) (fun t => ready (groups t))
      (cursorAt sort groups lastSelected) := by
  intro t
  rw [cursorAt, (advance_eq sort (groups t) _).1, sorted_eq sort (hfixed t)]

/-- Over any fixed set of `n` flows, from any cursor and whatever the queues of the others do: a flow whose queue is
not empty in `n` consecutive picks is selected in one of them; and a pick that selects nothing has found every queue
empty. -/
theorem picks_take_turns (sort : SortFunc FlowKey) (groups : Nat → PriorityBandAccessor α) (lastSelected : Option FlowKey)
    (hfixed : ∀ t, (groups t).flowKeys.Perm (groups 0).flowKeys) :
    (∀ key ∈ (groups 0).flowKeys, ∀ t,
      (∀ s, t ≤ s → s < t + (groups 0).flowKeys.length → (groups s).NonEmpty key) →
      ∃ s, t ≤ s ∧ s < t + (groups 0).flowKeys.length ∧ ∃ mq, (groups s).queue key.id = some mq ∧
        pick sort (some (groups s)) (stateAt sort groups lastSelected s) = (.ok (some mq), .roundRobinCursor (some key))) ∧
    ∀ t, (pick sort (some (groups t)) (stateAt sort groups lastSelected t)).1 = .ok none →
      ∀ key ∈ (groups t).flowKeys, ¬ (groups t).NonEmpty key := by
  have hturns := cursorAt_takesTurns sort lastSelected hfixed
  have hperm := sort.perm compare (groups 0).flowKeys
  refine ⟨fun key hkey t hready => ?_, fun t hnothing key hkey hne => ?_⟩
  · obtain ⟨s, hs, hs', hlast⟩ := hturns.chosen (hperm.nodup_iff.2 (nodup_flowKeys _)) (hperm.mem_iff.2 hkey) t
      fun s hs hs' => ready_iff.2 (hready s hs (by rwa [hperm.length_eq] at hs'))
    rw [hperm.length_eq] at hs'
    obtain ⟨mq, hmq, -⟩ := hready s hs hs'
    refine ⟨s, hs, hs', mq, hmq, ?_⟩
    have hcursor : (advance sort (groups s) (cursorAt sort groups lastSelected s)).2 = some key := hlast
    have hqueue : (advance sort (groups s) (cursorAt sort groups lastSelected s)).1 = some mq := by
      rw [(advance_eq sort (groups s) _).2, hcursor, Option.bind_some, hmq]
    have hadvance : advance sort (groups s) (cursorAt sort groups lastSelected s) = (some mq, some key) :=
      Prod.ext hqueue hcursor
    rw [stateAt_eq, pick, hadvance]
  · rw [stateAt_eq] at hnothing
    obtain ⟨hcursor, hqueue⟩ := advance_eq sort (groups t) (cursorAt sort groups lastSelected t)
    obtain ⟨c, hc⟩ := exists_chosen (cursorAt sort groups lastSelected t)
      ((sort.perm compare _).mem_iff.2 hkey) (ready_iff.2 hne)
    -- a ready flow is found, and it has a queue
    obtain ⟨mq, hmq, -⟩ := ready_iff.1 (find?_some hc)
    rw [hcursor, hc, Option.bind_some, hmq] at hqueue
    have hnone : (advance sort (groups t) (cursorAt sort groups lastSelected t)).1 = none := Except.ok.inj hnothing
    rw [hqueue] at hnone
    cases hnone

/-- A queue that holds `n` requests. -/
def queueOf (id : String) (n : Int64) : ManagedQueue Request :=
  { newManagedQueue (.listQueue .newListQueue) Request.inOrder ⟨id, 0⟩ with len := n }

/-- Three flows, of which the second always has a request. -/
def threeFlows (others : Int64) : PriorityBandAccessor Request where
  band :=
    { fairnessPolicy := ⟨"round-robin-fairness-policy"⟩, config := Request.band 0, byteSize := 0, len := 0
      queues := ((AList.singleton "a" (queueOf "a" others)).insert "b" (queueOf "b" 1)).insert "c"
        (queueOf "c" others) }
  ids := ["b", "c", "a"]
  perm := by
    change ["b", "c", "a"].Perm ["c", "b", "a"]
    decide

/-- The others are empty in every other pick. -/
theorem picks_take_turns_three : ∃ s, 4 ≤ s ∧ s < 7 ∧
    pick .insertion (some (threeFlows (Int64.ofNat (s % 2))))
      (stateAt .insertion (fun t => threeFlows (Int64.ofNat (t % 2))) (some ⟨"b", 0⟩) s) = (.ok (some (queueOf "b" 1)), .roundRobinCursor (some ⟨"b", 0⟩)) := by
  obtain ⟨s, hs, hs', mq, hmq, hpick⟩ := (picks_take_turns .insertion (fun t => threeFlows (Int64.ofNat (t % 2)))
    (some ⟨"b", 0⟩) (fun _ => .refl _)).1 ⟨"b", 0⟩ (by decide) 4 fun s _ _ => ⟨queueOf "b" 1, rfl, by decide⟩
  cases hmq
  exact ⟨s, hs, hs', hpick⟩

end RoundRobin

end InferenceGateway.Fairness
