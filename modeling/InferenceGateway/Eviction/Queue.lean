import InferenceGateway.Lib.IndexedHeap
import InferenceGateway.Lib.Table
/-!
# The eviction queue

`eviction/queue.go`: all requests in flight, and a heap of those that may be evicted. An
entry of the heap is an object that knows its place, and the handles lead from a request
to its entry. `WellKept` says that they all fit together, which every method keeps.
-/

namespace InferenceGateway.Eviction

open Lib List Function

/-- A request as the queue sees it. Times are in nanoseconds. -/
structure EvictionItem where
  /-- From the headers; a client may use one again. -/
  requestID : String
  /-- `Request`: which request it is. -/
  request : ℕ
  priority : Int
  dispatchTime : Int
  targetURL : String
deriving DecidableEq, Inhabited

structure HeapEntry where
  item : EvictionItem
  index : Int
deriving Inhabited

/-- The heap, with the entries it points to. -/
structure EvictionHeap where
  entries : List ℕ
  mem : ℕ → HeapEntry

namespace EvictionHeap

variable (h : EvictionHeap)

def get (i : ℕ) : ℕ := h.entries.getD i 0

def setIndex (e : ℕ) (index : Int) : EvictionHeap :=
  { h with mem := update h.mem e { h.mem e with index := index } }

def swap (i j : ℕ) : EvictionHeap :=
  let h' := { h with entries := (h.entries.set i (h.get j)).set j (h.get i) }
  (h'.setIndex (h'.get i) i).setIndex (h'.get j) j

def push (e : ℕ) : EvictionHeap :=
  let h' := h.setIndex e h.entries.length
  { h' with entries := h.entries ++ [e] }

def pop : ℕ × EvictionHeap :=
  let e := h.get (h.entries.length - 1)
  (e, { h with entries := h.entries.dropLast }.setIndex e (-1))

end EvictionHeap

/-- `less` is the ordering policy. -/
def heapInterface (less : EvictionItem → EvictionItem → Bool) : HeapInterface EvictionHeap ℕ where
  len h := h.entries.length
  less h i j := less (h.mem (h.get i)).item (h.mem (h.get j)).item
  swap := EvictionHeap.swap
  push := EvictionHeap.push
  pop := EvictionHeap.pop

structure EvictionQueue where
  h : EvictionHeap
  handles : Table String ℕ
  allInFlight : Table String EvictionItem
  /-- The number of entries so far. -/
  made : ℕ

namespace EvictionQueue

variable (less : EvictionItem → EvictionItem → Bool) (accept : EvictionItem → Bool)

def new : EvictionQueue := ⟨⟨[], fun _ => default⟩, ∅, ∅, 0⟩

variable (q : EvictionQueue)

/-- The entry of a request leaves the heap, if it is there. -/
def dropEntry (requestID : String) : EvictionQueue :=
  match q.handles.lookup requestID with
  | some e =>
    { q with
      h := ((heapInterface less).heapRemove q.h (q.h.mem e).index.toNat).2
      handles := q.handles.erase requestID }
  | none => q

def track (item : EvictionItem) : EvictionQueue :=
  let q := q.dropEntry less item.requestID
  let q := { q with allInFlight := q.allInFlight.insert item.requestID item }
  if accept item then
    let e := q.made
    let h := { q.h with mem := update q.h.mem e ⟨item, 0⟩ }
    { q with
      h := (heapInterface less).heapPush h e
      handles := q.handles.insert item.requestID e
      made := q.made + 1 }
  else q

def untrack (requestID : String) : EvictionQueue :=
  let q := q.dropEntry less requestID
  { q with allInFlight := q.allInFlight.erase requestID }

/-- One round of `PopN`. -/
def popOne : Option (EvictionItem × EvictionQueue) :=
  if q.h.entries.length = 0 then none
  else
    let (e, h) := (heapInterface less).heapPop q.h
    let item := (h.mem e).item
    some (item, { q with
      h := h
      handles := q.handles.erase item.requestID
      allInFlight := q.allInFlight.erase item.requestID })

def popN : ℕ → EvictionQueue → List EvictionItem × EvictionQueue
  | 0, q => ([], q)
  | n + 1, q =>
    match q.popOne less with
    | none => ([], q)
    | some (item, q) =>
      let (items, q) := popN n q
      (item :: items, q)

end EvictionQueue

/-! ## Places -/

namespace EvictionHeap

variable {h : EvictionHeap}

/-- Every entry is in the heap once and knows its place. -/
structure Indexed (h : EvictionHeap) : Prop where
  nodup : h.entries.Nodup
  index : ∀ (i e : ℕ), h.entries[i]? = some e → (h.mem e).index = i

theorem setIndex_mem (e e' : ℕ) (index : Int) : ((h.setIndex e index).mem e').item = (h.mem e').item ∧
    ((h.setIndex e index).mem e').index = if e' = e then index else (h.mem e').index := by
  simp only [setIndex, update_apply]
  split
  · rw [‹e' = e›]
    exact ⟨rfl, rfl⟩
  · exact ⟨rfl, rfl⟩

/-- The entries are cells that know their place. -/
def cells (less : EvictionItem → EvictionItem → Bool) : CellHeap (heapInterface less) EvictionItem where
  entries := entries
  index h e := (h.mem e).index
  item h e := (h.mem e).item
  len _ := rfl
  entries_swap _ _ _ := rfl
  index_swap h i j e hi hj := by
    simp only [heapInterface, swap, setIndex_mem, get, getD_eq_getElem?_getD, getElem?_set, length_set, hi, hj, if_true]
    by_cases hij : j = i
    · rw [hij, if_pos rfl, Option.getD_some]
    · rw [if_neg hij, Option.getD_some, Option.getD_some]
  item_swap h i j e := (setIndex_mem ..).1.trans (setIndex_mem ..).1
  entries_push _ _ := rfl
  index_push h e e' := (setIndex_mem ..).2
  item_push h e e' := (setIndex_mem ..).1
  pop_fst _ := rfl
  entries_pop _ := rfl
  index_pop h e hne := (setIndex_mem ..).2.trans (if_neg hne)
  item_pop h e := (setIndex_mem ..).1

end EvictionHeap

/-! ## The queue -/

namespace EvictionQueue

/-- The heap, the handles and the requests in flight fit together. -/
structure WellKept (q : EvictionQueue) : Prop where
  indexed : q.h.Indexed
  below : ∀ e ∈ q.h.entries, e < q.made
  handles : ∀ id e, q.handles.lookup id = some e ↔ e ∈ q.h.entries ∧ (q.h.mem e).item.requestID = id
  inFlight : ∀ e ∈ q.h.entries, q.allInFlight.lookup (q.h.mem e).item.requestID = some (q.h.mem e).item

/-- The request is tracked: in flight, in the heap, or behind a handle. -/
def Tracks (q : EvictionQueue) (request : ℕ) : Prop :=
  (∃ id item, q.allInFlight.lookup id = some item ∧ item.request = request) ∨
    (∃ id e, q.handles.lookup id = some e ∧ (q.h.mem e).item.request = request) ∨
    ∃ e ∈ q.h.entries, (q.h.mem e).item.request = request

theorem WellKept.tracks_iff {q : EvictionQueue} (h : q.WellKept) {request : ℕ} :
    q.Tracks request ↔ ∃ id item, q.allInFlight.lookup id = some item ∧ item.request = request := by
  refine ⟨?_, .inl⟩
  rintro (hin | ⟨id, e, he, hrequest⟩ | ⟨e, he, hrequest⟩)
  · exact hin
  · exact ⟨_, _, h.inFlight e ((h.handles id e).1 he).1, hrequest⟩
  · exact ⟨_, _, h.inFlight e he, hrequest⟩

variable {id : String}

theorem WellKept.new : new.WellKept where
  indexed := ⟨.nil, fun i e h => (by cases h)⟩
  below e he := by cases he
  handles id e := ⟨fun h => (by cases h), fun h => (by cases h.1)⟩
  inFlight e he := by cases he

variable {less : EvictionItem → EvictionItem → Bool} {accept : EvictionItem → Bool} {q : EvictionQueue}

/-- No entry of the request is in the heap. -/
def Without (q : EvictionQueue) (id : String) : Prop := ∀ e ∈ q.h.entries, (q.h.mem e).item.requestID ≠ id

variable (h : q.WellKept)
include h

/-- An entry has left the heap, and its handle with it. -/
theorem WellKept.leave {e : ℕ} {h' : EvictionHeap} (hindexed : h'.Indexed)
    (hperm : q.h.entries.Perm (e :: h'.entries)) (hitems : ∀ e', (h'.mem e').item = (q.h.mem e').item)
    (hid : (q.h.mem e).item.requestID = id) :
    WellKept { q with h := h', handles := q.handles.erase id } ∧ Without { q with h := h', handles := q.handles.erase id } id := by
  have hmem : ∀ e', e' ∈ q.h.entries ↔ e' = e ∨ e' ∈ h'.entries := fun e' => hperm.mem_iff.trans mem_cons
  have hgone : e ∉ h'.entries := (nodup_cons.1 (hperm.nodup_iff.1 h.indexed.nodup)).1
  have hhandle : q.handles.lookup id = some e := (h.handles id e).2 ⟨(hmem e).2 (.inl rfl), hid⟩
  have hother : ∀ e' ∈ h'.entries, (h'.mem e').item.requestID ≠ id := by
    intro e' he' hsame
    rw [hitems] at hsame
    have hhandle' := (h.handles id e').2 ⟨(hmem e').2 (.inr he'), hsame⟩
    cases hhandle.symm.trans hhandle'
    exact hgone he'
  refine ⟨⟨hindexed, fun e' he' => h.below e' ((hmem e').2 (.inr he')), fun id' e' => ?_, fun e' he' => ?_⟩, hother⟩
  · rw [Table.lookup_erase_ite]
    split
    · subst id'
      exact ⟨fun hnone => (by cases hnone), fun ⟨he', hsame⟩ => absurd hsame (hother e' he')⟩
    · rw [h.handles, hmem, hitems]
      refine and_congr_left fun hsame => or_iff_right ?_
      rintro rfl
      exact ‹id' ≠ id› (hsame.symm.trans hid)
  · change q.allInFlight.lookup (h'.mem e').item.requestID = some (h'.mem e').item
    rw [hitems]
    exact h.inFlight e' ((hmem e').2 (.inr he'))

/-- The entry of a request leaves the heap, whether there was one or not. -/
theorem WellKept.dropEntry (less : EvictionItem → EvictionItem → Bool) (id : String) :
    (q.dropEntry less id).WellKept ∧ (q.dropEntry less id).Without id ∧ (q.dropEntry less id).allInFlight = q.allInFlight := by
  unfold EvictionQueue.dropEntry
  cases hhandle : q.handles.lookup id with
  | none =>
    refine ⟨h, fun e he hid => ?_, rfl⟩
    rw [(h.handles id e).2 ⟨he, hid⟩] at hhandle
    cases hhandle
  | some e =>
    obtain ⟨hmem, hid⟩ := (h.handles id e).1 hhandle
    obtain ⟨i, hi⟩ := List.getElem?_of_mem hmem
    have hindex : (q.h.mem e).index.toNat = i := by rw [h.indexed.index i e hi, Int.toNat_natCast]
    subst hindex
    obtain ⟨-, hindexed, hperm, hitems, -⟩ := (EvictionHeap.cells less).heapRemove_spec ⟨h.indexed.nodup, h.indexed.index⟩ hi
    obtain ⟨hkept, hwithout⟩ := h.leave ⟨hindexed.nodup, hindexed.index⟩ hperm hitems hid
    exact ⟨hkept, hwithout, rfl⟩

/-- The map of requests in flight may change where the heap has no entry. -/
theorem WellKept.setInFlight (hwithout : q.Without id) (allInFlight : Table String EvictionItem)
    (hsame : ∀ id', id' ≠ id → allInFlight.lookup id' = q.allInFlight.lookup id') :
    WellKept { q with allInFlight := allInFlight } :=
  { h with inFlight := fun e he => (hsame _ (hwithout e he)).trans (h.inFlight e he) }

theorem WellKept.untrack (less : EvictionItem → EvictionItem → Bool) (id : String) :
    (q.untrack less id).WellKept ∧ (q.untrack less id).allInFlight = q.allInFlight.erase id := by
  obtain ⟨hkept, hwithout, hsame⟩ := h.dropEntry less id
  refine ⟨hkept.setInFlight hwithout _ fun id' hne => AList.lookup_erase_ne hne, ?_⟩
  rw [EvictionQueue.untrack, hsame]

/-- An entry comes to the heap for a request in flight that has none. -/
theorem WellKept.enter {item : EvictionItem} (hwithout : q.Without item.requestID)
    (hitem : q.allInFlight.lookup item.requestID = some item) : WellKept { q with
      h := (heapInterface less).heapPush { q.h with mem := update q.h.mem q.made ⟨item, 0⟩ } q.made
      handles := q.handles.insert item.requestID q.made
      made := q.made + 1 } := by
  have hfresh : q.made ∉ q.h.entries := fun hmem => lt_irrefl _ (h.below _ hmem)
  have hmem : ∀ e ∈ q.h.entries, update q.h.mem q.made ⟨item, 0⟩ e = q.h.mem e := by
    intro e he
    have hne : e ≠ q.made := by
      rintro rfl
      exact hfresh he
    exact update_of_ne hne _ _
  have hindexed : (EvictionHeap.cells less).Indexed { q.h with mem := update q.h.mem q.made ⟨item, 0⟩ } := by
    refine ⟨h.indexed.nodup, fun i e he => ?_⟩
    change (update q.h.mem q.made ⟨item, 0⟩ e).index = i
    rw [hmem e (mem_of_getElem? he)]
    exact h.indexed.index i e he
  obtain ⟨⟨hnodup, hindex⟩, hperm, hitems, -⟩ := CellHeap.heapPush_spec hindexed hfresh
  generalize (heapInterface less).heapPush { q.h with mem := update q.h.mem q.made ⟨item, 0⟩ } q.made = h' at *
  have hitems : ∀ e, (h'.mem e).item = (update q.h.mem q.made ⟨item, 0⟩ e).item := hitems
  have hentries : ∀ e, e ∈ h'.entries ↔ e = q.made ∨ e ∈ q.h.entries := fun e => hperm.mem_iff.trans mem_cons
  have hnew : (h'.mem q.made).item = item := by
    rw [hitems]
    simp
  have hold : ∀ e ∈ q.h.entries, (h'.mem e).item = (q.h.mem e).item := by
    intro e he
    rw [hitems]
    simp only [hmem e he]
  refine ⟨⟨hnodup, hindex⟩, fun e he => ?_, fun id e => ?_, fun e he => ?_⟩
  · rcases (hentries e).1 he with rfl | he
    · exact Nat.lt_succ_self _
    · exact (h.below e he).trans (Nat.lt_succ_self _)
  · rw [Table.lookup_insert_ite, hentries]
    constructor
    · intro hlookup
      split at hlookup
      · cases hlookup
        exact ⟨.inl rfl, by rw [hnew, ‹id = _›]⟩
      · obtain ⟨he, hid⟩ := (h.handles id e).1 hlookup
        exact ⟨.inr he, by rw [hold e he, hid]⟩
    · rintro ⟨rfl | he, hid⟩
      · rw [hnew] at hid
        exact if_pos hid.symm
      · rw [hold e he] at hid
        rw [if_neg fun heq => hwithout e he (hid.trans heq)]
        exact (h.handles id e).2 ⟨he, hid⟩
  · change q.allInFlight.lookup (h'.mem e).item.requestID = some (h'.mem e).item
    rcases (hentries e).1 he with rfl | he
    · rw [hnew, hitem]
    · rw [hold e he, h.inFlight e he]

theorem WellKept.track (less : EvictionItem → EvictionItem → Bool) (accept : EvictionItem → Bool) (item : EvictionItem) :
    (q.track less accept item).WellKept ∧ (q.track less accept item).allInFlight = q.allInFlight.insert item.requestID item := by
  obtain ⟨hkept, hwithout, hsame⟩ := h.dropEntry less item.requestID
  have hkept' := hkept.setInFlight hwithout ((q.dropEntry less item.requestID).allInFlight.insert item.requestID item)
    fun id' hne => AList.lookup_insert_ne hne
  unfold EvictionQueue.track
  simp only
  split
  · exact ⟨hkept'.enter hwithout (AList.lookup_insert _), by rw [hsame]⟩
  · exact ⟨hkept', by rw [hsame]⟩

theorem WellKept.popOne {item : EvictionItem} {q' : EvictionQueue} (hpop : q.popOne less = some (item, q')) :
    q'.WellKept ∧ q'.allInFlight = q.allInFlight.erase item.requestID ∧ q.allInFlight.lookup item.requestID = some item := by
  unfold EvictionQueue.popOne at hpop
  split at hpop
  · cases hpop
  · obtain ⟨e, he⟩ : ∃ e, q.h.entries[0]? = some e := ⟨_, List.getElem?_eq_getElem (Nat.pos_of_ne_zero ‹_›)⟩
    obtain ⟨hfirst, hindexed, hperm, hitems⟩ := (EvictionHeap.cells less).heapPop_spec ⟨h.indexed.nodup, h.indexed.index⟩ he
    simp only [Option.some.injEq, Prod.mk.injEq] at hpop
    obtain ⟨rfl, rfl⟩ := hpop
    have hitem : (((heapInterface less).heapPop q.h).2.mem ((heapInterface less).heapPop q.h).1).item = (q.h.mem e).item := by
      rw [hfirst]
      exact hitems e
    obtain ⟨hkept, hwithout⟩ := h.leave ⟨hindexed.nodup, hindexed.index⟩ hperm hitems rfl
    rw [hitem]
    exact ⟨hkept.setInFlight hwithout _ fun id' hne => AList.lookup_erase_ne hne, rfl, h.inFlight e (mem_of_getElem? he)⟩

end EvictionQueue

end InferenceGateway.Eviction
