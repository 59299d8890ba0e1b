import InferenceGateway.Lib.Runs
import InferenceGateway.Queue.HeapOrder
import InferenceGateway.Registry.Shard
/-!
# Histories of a queue

Any sequence of operations of the `SafeQueue` contract on one queue, with no item added
twice. What was added is what the queue contains and what it has returned. The list queue
answers as a plain list does whose entries have handles that are never given again.
-/

namespace InferenceGateway.Queue

open List Function Registry

variable {α : Type}

/-- The items that an operation returns, or its error. -/
abbrev Answer (α : Type) := Except QueueError (List α)

def Answer.items : Answer α → List α
  | .ok xs => xs
  | .error _ => []

def added : QueueOp α → List α
  | .add x => [x]
  | _ => []

/-- A queue with what was added to it and what it has returned. -/
structure Session (σ α : Type) where
  queue : σ
  added : List α
  returned : List α

namespace Session

variable {σ : Type}

def step (perform : σ → QueueOp α → σ × Answer α) (s : Session σ α) (op : QueueOp α) : Except Empty (Session σ α) :=
  .ok ⟨(perform s.queue op).1, s.added ++ Queue.added op, s.returned ++ (perform s.queue op).2.items⟩

/-- No item is added twice. -/
def Fresh (s : Session σ α) (op : QueueOp α) : Prop := ∀ x ∈ Queue.added op, x ∉ s.added

instance [DecidableEq α] (s : Session σ α) (op : QueueOp α) : Decidable (s.Fresh op) :=
  inferInstanceAs (Decidable (∀ x ∈ _, _))

end Session

variable [QueueItemAccessor α]

def bytes (xs : List α) : UInt64 := (xs.map QueueItemAccessor.byteSize).sum

theorem bytes_perm {xs ys : List α} (h : xs.Perm ys) : bytes xs = bytes ys := (h.map _).sum_eq

theorem bytes_append (xs ys : List α) : bytes (xs ++ ys) = bytes xs + bytes ys := by simp [bytes]

theorem sub_bytes (b : UInt64) (x : α) :
    b + (~~~(QueueItemAccessor.byteSize x) + 1) + QueueItemAccessor.byteSize x = b := by
  rw [← UInt64.neg_eq_not_add, neg_add_cancel_right]

/-- What is subtracted item by item is the byte size of all of them. -/
theorem foldl_bytes {σ : Type} (size : σ → UInt64) {f : σ → α → σ}
    (hf : ∀ s x, size (f s x) = size s + (~~~(QueueItemAccessor.byteSize x) + 1)) (xs : List α) :
    ∀ s, size (xs.foldl f s) + bytes xs = size s := by
  induction xs with
  | nil => intro s; simp [bytes]
  | cons x xs ih =>
    intro s
    have hxs := ih (f s x)
    simp only [foldl_cons, bytes, map_cons, sum_cons] at hxs ⊢
    rw [add_left_comm, hxs, hf, add_comm, sub_bytes]

/-! ## The fields of a heap -/

namespace MaxMinHeap

variable {h h' : MaxMinHeap α}

theorem add_fields [DecidableEq α] (h : MaxMinHeap α) (x : α) :
    (h.add x).byteSize = h.byteSize + QueueItemAccessor.byteSize x ∧
      (h.add x).handleOf = update h.handleOf x (some h.next) ∧ (h.add x).next = h.next + 1 := by
  obtain ⟨hbytes, hof, hnext, -⟩ := (h.push_swaps x).fields
  exact ⟨congrArg (· + _) hbytes, hof, hnext⟩

theorem cleanup_fields (h : MaxMinHeap α) (predicate : α → Bool) :
    (h.cleanup predicate).2.byteSize + bytes (h.cleanup predicate).1 = h.byteSize ∧
      (h.cleanup predicate).2.handleOf = h.handleOf ∧ (h.cleanup predicate).2.next = h.next := by
  rw [cleanup_eq]
  split
  · simp [bytes]
  · obtain ⟨hbytes, hof, hnext, -⟩ :=
      (rebuild_swaps ((h.items.filter (fun x => !predicate x)).length / 2) (h.swept predicate)).fields
    obtain ⟨-, -, r1, r2⟩ := releaseAll_fields (h.items.filter predicate) h
    obtain ⟨-, -, f1, f2, -, f3⟩ := reindex_fields (h.items.filter (fun x => !predicate x)).zipIdx
      { h.releaseAll (h.items.filter predicate) with items := h.items.filter (fun x => !predicate x) }
    refine ⟨?_, hof.trans (f1.trans r1), hnext.trans (f2.trans r2)⟩
    rw [hbytes, swept, f3]
    exact foldl_bytes MaxMinHeap.byteSize (fun h x => by simp [subBytes]) _ h

theorem remove_fields {handle : QueueItemHandle} {x : α} (hs : h.Synced) (hr : h.remove handle = .ok (x, h')) :
    h'.byteSize + QueueItemAccessor.byteSize x = h.byteSize ∧ (h'.handleOf = h.handleOf ∧ h'.next = h.next) ∧
      ∀ s, handle = .own s → h'.invalidated s = true := by
  obtain ⟨s, it, rfl, hit⟩ := remove_own hr
  rw [remove_live hs hit, Except.ok.injEq, Prod.mk.injEq] at hr
  obtain ⟨rfl, rfl⟩ := hr
  have hinv : ∀ h : MaxMinHeap α, ∀ s', QueueItemHandle.own s = .own s' → (h.invalidate s).invalidated s' = true := by
    rintro h _ ⟨⟩
    exact update_self ..
  split
  · obtain ⟨hbytes, hof, hnext, -⟩ := ((h.vacated s it).down_swaps it.index).fields
    have hv : (h.vacated s it).byteSize = h.byteSize + (~~~(QueueItemAccessor.byteSize it.item) + 1) ∧
        (h.vacated s it).handleOf = h.handleOf ∧ (h.vacated s it).next = h.next := by
      simp [vacated, dropLast, subBytes, delete, (hs.place s it hit).2.1]
    refine ⟨?_, ⟨hof.trans hv.2.1, hnext.trans hv.2.2⟩, hinv _⟩
    rw [← sub_bytes h.byteSize it.item, ← hv.1, ← hbytes]
    rfl
  · exact ⟨sub_bytes .., ⟨rfl, rfl⟩, hinv _⟩

omit [QueueItemAccessor α] in
theorem drain_handleOf (h : MaxMinHeap α) : h.drain.2.handleOf = h.handleOf ∧ h.drain.2.next = h.next := by
  obtain ⟨h1, h2, -⟩ := drain_fields h.items h
  exact ⟨h1, h2⟩

end MaxMinHeap

/-! ## What goes in and comes out -/

namespace SafeQueue

def byteSize : SafeQueue α → UInt64
  | listQueue q => q.byteSize
  | maxMinHeap h => h.byteSize

variable [DecidableEq α]

def perform (q : SafeQueue α) : QueueOp α → SafeQueue α × Answer α
  | .add x => (q.add x, .ok [])
  | .remove handle => match q.remove handle with
    | .error e => (q, .error e)
    | .ok (x, q') => (q', .ok [x])
  | .cleanup predicate => ((q.cleanup predicate).2, .ok (q.cleanup predicate).1)
  | .drain => (q.drain.2, .ok q.drain.1)

/-- What was added is in the queue or was returned. -/
structure Account (q : SafeQueue α) (A R : List α) : Prop where
  ok : q.Ok
  size : q.byteSize = bytes q.items
  kept : (A : Multiset α) = q.items + R

variable {q : SafeQueue α} {A R : List α}

omit [DecidableEq α] in
theorem remove_byteSize {q' : SafeQueue α} {handle : QueueItemHandle} {x : α} (hq : q.Ok)
    (h : q.remove handle = .ok (x, q')) : q'.byteSize + QueueItemAccessor.byteSize x = q.byteSize := by
  cases q with
  | listQueue q =>
    obtain ⟨⟨y, r⟩, hr, he⟩ := Lib.map_ok h
    cases he
    obtain ⟨s, -, -, -, rfl⟩ := ListQueue.remove_own hr
    exact sub_bytes ..
  | maxMinHeap q =>
    obtain ⟨⟨y, r⟩, hr, he⟩ := Lib.map_ok h
    cases he
    exact (MaxMinHeap.remove_fields hq hr).1

omit [DecidableEq α] in
theorem cleanup_byteSize (q : SafeQueue α) (predicate : α → Bool) :
    (q.cleanup predicate).2.byteSize + bytes (q.cleanup predicate).1 = q.byteSize := by
  cases q with
  | listQueue q =>
    refine foldl_bytes ListQueue.byteSize (f := fun q x => (q.subBytes x).invalidateHandle x) (fun q x => ?_) _ q
    unfold ListQueue.invalidateHandle
    split <;> rfl
  | maxMinHeap h => exact (h.cleanup_fields predicate).1

/-- An operation that takes `xs` in and gives `ys` back. -/
structure Moves (q q' : SafeQueue α) (xs ys : List α) : Prop where
  ok : q'.Ok
  items : (q.items ++ xs).Perm (q'.items ++ ys)
  size : q'.byteSize + bytes ys = q.byteSize + bytes xs

omit [DecidableEq α] in
theorem Account.moves (h : q.Account A R) {q' : SafeQueue α} {xs ys : List α} (hm : q.Moves q' xs ys) :
    q'.Account (A ++ xs) (R ++ ys) := by
  refine ⟨hm.ok, ?_, ?_⟩
  · have hsize := hm.size
    rw [h.size, ← bytes_append, bytes_perm hm.items, bytes_append] at hsize
    exact add_right_cancel hsize
  · have hkept := Multiset.coe_eq_coe.2 hm.items
    simp only [← Multiset.coe_add] at hkept ⊢
    rw [h.kept, add_right_comm, hkept, add_assoc, add_comm (R : Multiset α)]

theorem moves_add (hq : q.Ok) {x : α} (hx : x ∉ q.items) : q.Moves (q.add x) [x] [] := by
  obtain ⟨hok, hperm⟩ := add_ok hq hx
  refine ⟨hok, ?_, ?_⟩
  · rw [append_nil]
    exact (perm_append_singleton ..).trans hperm.symm
  · cases q <;> simp [add, byteSize, bytes, ListQueue.add, MaxMinHeap.add_fields]

omit [DecidableEq α] in
theorem moves_remove {q' : SafeQueue α} {handle : QueueItemHandle} {x : α} (hq : q.Ok) (hr : q.remove handle = .ok (x, q')) :
    q.Moves q' [] [x] := by
  obtain ⟨hok, hperm⟩ := remove_ok hq hr
  refine ⟨hok, ?_, ?_⟩
  · rw [append_nil]
    exact hperm.trans (perm_append_singleton ..).symm
  · simpa [bytes] using remove_byteSize hq hr

omit [DecidableEq α] in
theorem moves_cleanup (hq : q.Ok) (predicate : α → Bool) : q.Moves (q.cleanup predicate).2 [] (q.cleanup predicate).1 := by
  obtain ⟨hok, hremoved, hkept⟩ := cleanup_ok hq predicate
  refine ⟨hok, ?_, (cleanup_byteSize q predicate).trans (add_zero _).symm⟩
  have hsplit := filter_append_perm predicate q.items
  rw [append_nil, hremoved]
  exact (hsplit.symm.trans perm_append_comm).trans (hkept.symm.append_right _)

omit [DecidableEq α] in
theorem moves_drain (hq : q.Ok) (hsize : q.byteSize = bytes q.items) : q.Moves q.drain.2 [] q.drain.1 := by
  obtain ⟨hok, hremoved, hkept⟩ := drain_ok hq
  have hzero : q.drain.2.byteSize = 0 := by cases q <;> rfl
  refine ⟨hok, by rw [append_nil, hremoved, hkept, nil_append], ?_⟩
  simp [hremoved, hsize, hzero, bytes]

theorem Account.perform (h : q.Account A R) (op : QueueOp α) (hfresh : ∀ x ∈ added op, x ∉ A) :
    (q.perform op).1.Account (A ++ added op) (R ++ (q.perform op).2.items) := by
  refine h.moves ?_
  cases op with
  | add x =>
    refine moves_add h.ok fun hx => hfresh x mem_cons_self ?_
    rw [← Multiset.mem_coe, h.kept]
    exact Multiset.mem_add.2 (.inl hx)
  | remove handle =>
    rw [SafeQueue.perform]
    split
    · exact ⟨h.ok, .refl _, rfl⟩
    · rename_i hr
      exact moves_remove h.ok hr
  | cleanup predicate => exact moves_cleanup h.ok predicate
  | drain => exact moves_drain h.ok h.size

end SafeQueue

/-! ## The heap's handles -/

section Heap
variable [DecidableEq α] {h : MaxMinHeap α} {A R : List α}

/-- Every item has a handle of its own. -/
structure MaxMinHeap.Given (h : MaxMinHeap α) (A : List α) : Prop where
  given : ∀ x ∈ A, h.handleOf x ≠ none
  own : ∀ x y s, h.handleOf x = some s → h.handleOf y = some s → x = y
  old : ∀ x s, h.handleOf x = some s → s < h.next

theorem MaxMinHeap.Given.add (hg : h.Given A) (x : α) : (h.add x).Given (A ++ [x]) := by
  obtain ⟨-, hof, hnext⟩ := h.add_fields x
  have hnew : ∀ y, h.handleOf y ≠ some h.next := fun y hy => Nat.lt_irrefl _ (hg.old y _ hy)
  refine ⟨fun y hy => ?_, fun y z s hy hz => ?_, fun y s hy => ?_⟩
  · rw [hof, update_apply]
    split
    · exact Option.some_ne_none _
    · rename_i hne
      exact hg.given y (by simpa [hne] using hy)
  · rw [hof, update_apply] at hy hz
    split_ifs at hy hz with hyx hzx hzx
    · rw [hyx, hzx]
    · exact absurd (hz.trans hy.symm) (hnew z)
    · exact absurd (hy.trans hz.symm) (hnew y)
    · exact hg.own y z s hy hz
  · rw [hof, update_apply] at hy
    rw [hnext]
    split_ifs at hy
    · cases hy
      exact Nat.lt_succ_self _
    · exact Nat.lt_succ_of_lt (hg.old y s hy)

theorem MaxMinHeap.Given.perform (hg : h.Given A) (hs : h.Synced) (op : QueueOp α) :
    ∃ h', ((SafeQueue.maxMinHeap h).perform op).1 = .maxMinHeap h' ∧ h'.Given (A ++ added op) := by
  -- Only `Add` gives a handle.
  have hkeep : ∀ {h' : MaxMinHeap α}, h'.handleOf = h.handleOf ∧ h'.next = h.next → h'.Given (A ++ []) := by
    rintro h' ⟨hof, hnext⟩
    rw [append_nil]
    exact ⟨by simpa [hof] using hg.given, by simpa [hof] using hg.own, by simpa [hof, hnext] using hg.old⟩
  cases op with
  | add x => exact ⟨h.add x, rfl, hg.add x⟩
  | remove handle =>
    rw [SafeQueue.perform]
    split
    · exact ⟨h, rfl, hkeep ⟨rfl, rfl⟩⟩
    · rename_i x q' hr
      obtain ⟨⟨y, h'⟩, hr', he⟩ := Lib.map_ok hr
      cases he
      exact ⟨h', rfl, hkeep (MaxMinHeap.remove_fields hs hr').2.1⟩
  | cleanup predicate => exact ⟨_, rfl, hkeep (h.cleanup_fields predicate).2⟩
  | drain => exact ⟨_, rfl, hkeep h.drain_handleOf⟩

omit [DecidableEq α] in
/-- A live handle is at the place of its item. -/
theorem MaxMinHeap.Synced.getElem?_index (hs : h.Synced) {s : Nat} {it : HeapItem α} (hit : h.handles s = some it) :
    h.items[it.index]? = some it.item := by
  obtain ⟨hi, hget, -⟩ := hs.place s it hit
  rw [getElem?_eq_getElem hi, ← MaxMinHeap.get_eq hi, hget]

omit [DecidableEq α] in
/-- Every place has one live handle. -/
theorem MaxMinHeap.Synced.existsUnique_handle (hs : h.Synced) {i : Nat} {x : α} (hx : h.items[i]? = some x) :
    ∃! s, h.handles s = some ⟨x, i⟩ := by
  obtain ⟨hi, rfl⟩ := List.getElem?_eq_some_iff.1 hx
  rw [← MaxMinHeap.get_eq hi]
  obtain ⟨s, it, hof, hit, hx⟩ := hs.handle _ (MaxMinHeap.get_mem hi)
  obtain ⟨hit', hget, -⟩ := hs.place s it hit
  obtain rfl := hs.get_inj hit' hi (hget.trans hx)
  refine ⟨s, by simpa [← hx] using hit, fun s' hs' => ?_⟩
  have hsame := (hs.place s' _ hs').2.2
  rw [hof, Option.some.injEq] at hsame
  exact hsame.symm

theorem MaxMinHeap.Synced.perform_remove (hs : h.Synced) {x : α} {s : Nat} (hof : h.handleOf x = some s) (hmem : x ∈ h.items) :
    ∃ h', (SafeQueue.maxMinHeap h).perform (.remove (.own s)) = (.maxMinHeap h', .ok [x]) ∧ h'.invalidated s = true := by
  obtain ⟨it, hit, rfl⟩ := hs.handle_of_mem hmem hof
  obtain ⟨h', hr, -⟩ := MaxMinHeap.remove_synced hs hit
  exact ⟨h', by simp [SafeQueue.perform, SafeQueue.remove, hr, Except.map], (MaxMinHeap.remove_fields hs hr).2.2 s rfl⟩

theorem MaxMinHeap.perform_remove_bad {handle : QueueItemHandle} (hbad : ∀ s, handle = .own s → h.handles s = none) :
    ∃ e, (SafeQueue.maxMinHeap h).perform (.remove handle) = (.maxMinHeap h, .error e) := by
  cases hr : h.remove handle with
  | error e => exact ⟨e, by simp [SafeQueue.perform, SafeQueue.remove, hr, Except.map]⟩
  | ok r =>
    obtain ⟨s, it, hs, hit⟩ := MaxMinHeap.remove_own hr
    rw [hbad s hs] at hit
    cases hit

omit [DecidableEq α] in
/-- The handle of an item that has left is not live. -/
theorem MaxMinHeap.Given.handles_eq_none (hg : h.Given A) (hs : h.Synced) {x : α} {s : Nat} (hof : h.handleOf x = some s)
    (hnot : x ∉ h.items) : h.handles s = none := by
  by_contra hne
  obtain ⟨it, hit⟩ := Option.ne_none_iff_exists'.1 hne
  obtain ⟨hi, hget, hof'⟩ := hs.place s it hit
  exact hnot (hg.own x _ s hof hof' ▸ hget ▸ MaxMinHeap.get_mem hi)

end Heap

/-- After any history: the live handles and the places of the heap are in bijection, the
byte size is that of the items, what was added is there or was returned, an item's handle
takes out the item and is then used up, and a handle that is not live changes nothing. -/
theorem maxMinHeap_history [DecidableEq α] (less : α → α → Bool) (s : Session (SafeQueue α) α)
    (hrun : Lib.Runs (Session.step SafeQueue.perform) Session.Fresh ⟨.maxMinHeap (.newMaxMinHeap less), [], []⟩ s) :
    ∃ h, s.queue = .maxMinHeap h ∧
      (∀ s it, h.handles s = some it → h.items[it.index]? = some it.item) ∧
      (∀ i x, h.items[i]? = some x → ∃! s, h.handles s = some ⟨x, i⟩) ∧
      h.byteSize = bytes h.items ∧ (s.added : Multiset α) = h.items + s.returned ∧
      (∀ x ∈ s.added, ∃ s, h.handleOf x = some s ∧ (x ∉ h.items → h.handles s = none) ∧
        (x ∈ h.items → ∃ h', (SafeQueue.maxMinHeap h).perform (.remove (.own s)) = (.maxMinHeap h', .ok [x]) ∧
          h'.invalidated s = true)) ∧
      ∀ handle, (∀ s, handle = .own s → h.handles s = none) →
        ∃ e, (SafeQueue.maxMinHeap h).perform (.remove handle) = (.maxMinHeap h, .error e) := by
  obtain ⟨h, hh, hg, ok, hsize, hkept⟩ := hrun.invariant
    (fun s => ∃ h, s.queue = .maxMinHeap h ∧ h.Given s.added ∧ s.queue.Account s.added s.returned)
    (by
      rintro ⟨_, A, R⟩ op s' ⟨h, rfl, hg, ha⟩ hfresh ⟨⟩
      obtain ⟨h', hh', hg'⟩ := hg.perform ha.ok op
      exact ⟨h', hh', hg', ha.perform op hfresh⟩)
    ⟨_, rfl, by constructor <;> simp [MaxMinHeap.newMaxMinHeap], MaxMinHeap.newMaxMinHeap_synced less, rfl, rfl⟩
  rw [hh] at ok hsize hkept
  have hs : h.Synced := ok
  refine ⟨h, hh, fun _ _ hit => hs.getElem?_index hit, fun _ _ hx => hs.existsUnique_handle hx, hsize, hkept, fun x hx => ?_,
    fun _ hbad => MaxMinHeap.perform_remove_bad hbad⟩
  obtain ⟨s, hof⟩ := Option.ne_none_iff_exists'.1 (hg.given x hx)
  exact ⟨s, hof, hg.handles_eq_none hs hof, hs.perform_remove hof⟩

open MaxMinHeap (Arrival)

/-- A handle is used twice, a foreign one and none at all are tried, and the last item is swept. -/
theorem maxMinHeap_history_three : ∃ s, Lib.Runs (Session.step SafeQueue.perform) Session.Fresh
    ⟨.maxMinHeap (.newMaxMinHeap Arrival.earlier), [], []⟩ s ∧ s.returned = [⟨1, 1⟩, ⟨3, 9⟩] ∧
      ∃ h, s.queue = .maxMinHeap h ∧ h.byteSize = bytes h.items ∧ (s.added : Multiset Arrival) = h.items + s.returned := by
  refine Lib.exists_runs [.add ⟨1, 1⟩, .add ⟨2, 7⟩, .add ⟨3, 9⟩, .remove (.own 0), .remove (.own 0), .remove (.foreign true false),
    .remove .nil, .cleanup fun x => x = ⟨3, 9⟩] _ (by decide +kernel) fun s hrun hs => ⟨hs, ?_⟩
  obtain ⟨h, hh, -, -, hsize, hkept, -⟩ := maxMinHeap_history Arrival.earlier s hrun
  exact ⟨h, hh, hsize, hkept⟩

/-! ## The list queue as a list -/

/-- Entries under handles that are never given again. -/
structure HandleList (α : Type) where
  entries : List (Nat × α)
  next : Nat

def HandleList.items (l : HandleList α) : List α := l.entries.map Prod.snd

def HandleList.perform (l : HandleList α) : QueueOp α → HandleList α × Answer α
  | .add x => (⟨l.entries ++ [(l.next, x)], l.next + 1⟩, .ok [])
  | .remove .nil => (l, .error .invalidQueueItemHandle)
  | .remove (.foreign sameType isInvalidated) =>
    (l, .error (if sameType && !isInvalidated then .queueItemNotFound else .invalidQueueItemHandle))
  | .remove (.own s) => match l.entries.find? (·.1 = s) with
    | some e => (⟨l.entries.filter (·.1 != s), l.next⟩, .ok [e.2])
    | none => (l, .error (if s < l.next then .invalidQueueItemHandle else .queueItemNotFound))
  | .cleanup predicate => (⟨l.entries.filter (!predicate ·.2), l.next⟩, .ok (l.items.filter predicate))
  | .drain => (⟨[], l.next⟩, .ok l.items)

/-- The queue holds the list, and an element has its value also after it has left. -/
structure ListQueue.Holds (q : ListQueue α) (l : HandleList α) : Prop where
  entries : q.requests = l.entries
  next : q.next = l.next
  made : ∀ s < q.next, q.value s ≠ none

omit [QueueItemAccessor α] in
theorem ListQueue.Synced.find_own {q : ListQueue α} (hs : q.Synced) (s : Nat) :
    q.requests.find? (·.1 = s) = if q.invalidated s then none else (q.value s).map fun x => (s, x) := by
  cases hfind : q.requests.find? (·.1 = s) with
  | some e =>
    obtain rfl : e.1 = s := by simpa using find?_some hfind
    obtain ⟨hv, -, hi, -⟩ := hs.element e (mem_of_find?_eq_some hfind)
    simp [hv, hi]
  | none =>
    have hnone := find?_eq_none.1 hfind
    split
    · rfl
    · rename_i hi
      cases hv : q.value s with
      | none => rfl
      | some x => exact absurd (hnone _ (hs.live s x hv (by simpa using hi))) (by simp)

theorem ListQueue.Holds.remove_own [DecidableEq α] {q : ListQueue α} {l : HandleList α} (h : q.Holds l) (hs : q.Synced) (s : Nat) :
    ((SafeQueue.listQueue q).perform (.remove (.own s))).2 = (l.perform (.remove (.own s))).2 ∧
      ∃ q', ((SafeQueue.listQueue q).perform (.remove (.own s))).1 = .listQueue q' ∧ q'.Holds (l.perform (.remove (.own s))).1 := by
  obtain ⟨entries, next⟩ := l
  obtain ⟨rfl, rfl, hmade⟩ := h
  have hsame : q.Holds ⟨q.requests, q.next⟩ := ⟨rfl, rfl, hmade⟩
  simp only [SafeQueue.perform, SafeQueue.remove, ListQueue.remove, HandleList.perform, hs.find_own]
  cases hi : q.invalidated s with
  | true =>
    have hlt : s < q.next := by
      by_contra hle
      rw [(hs.fresh s (by omega)).2] at hi
      cases hi
    exact ⟨by simp [Except.map, hlt], q, by simp [Except.map], hsame⟩
  | false =>
    cases hv : q.value s with
    | none =>
      have hge : ¬ s < q.next := fun hlt => hmade s hlt hv
      exact ⟨by simp [Except.map, hge], q, by simp [Except.map], hsame⟩
    | some x => exact ⟨rfl, q.unlink s x, rfl, rfl, rfl, hmade⟩

theorem ListQueue.Holds.perform [DecidableEq α] {q : ListQueue α} {l : HandleList α} (h : q.Holds l) (hs : q.Synced)
    (op : QueueOp α) : ((SafeQueue.listQueue q).perform op).2 = (l.perform op).2 ∧
      ∃ q', ((SafeQueue.listQueue q).perform op).1 = .listQueue q' ∧ q'.Holds (l.perform op).1 := by
  obtain ⟨entries, next⟩ := l
  obtain ⟨rfl, rfl, hmade⟩ := h
  have hsame : q.Holds ⟨q.requests, q.next⟩ := ⟨rfl, rfl, hmade⟩
  cases op with
  | add x =>
    refine ⟨rfl, q.add x, rfl, rfl, rfl, fun s hlt => ?_⟩
    simp only [ListQueue.add, update_apply] at hlt ⊢
    split
    · exact Option.some_ne_none _
    · exact hmade s (by omega)
  | remove handle =>
    cases handle with
    | nil => exact ⟨rfl, q, rfl, hsame⟩
    | foreign sameType isInvalidated => cases sameType <;> cases isInvalidated <;> exact ⟨rfl, q, rfl, hsame⟩
    | own s => exact hsame.remove_own hs s
  | cleanup predicate =>
    obtain ⟨-, hvalue, -, hnext, -⟩ := ListQueue.cleaned_invalidated (q.items.filter predicate) q
    refine ⟨rfl, _, rfl, rfl, hnext, ?_⟩
    simpa [ListQueue.cleanup, hvalue, hnext] using hmade
  | drain =>
    obtain ⟨-, hvalue, -, hnext, -⟩ := ListQueue.foldl_invalidated ListQueue.invalidateHandle_fields q.items q
    refine ⟨rfl, _, rfl, rfl, hnext, ?_⟩
    simpa [ListQueue.drain, hvalue, hnext] using hmade

/-- Two queues side by side, with the answer of the first. -/
def side {σ τ : Type} (f : σ → QueueOp α → σ × Answer α) (g : τ → QueueOp α → τ × Answer α) (s : σ × τ) (op : QueueOp α) :
    (σ × τ) × Answer α :=
  (((f s.1 op).1, (g s.2 op).1), (f s.1 op).2)

/-- After any history the list queue and the list have the same items in the same order, the
same head and tail, length and byte size, and answer every operation alike. -/
theorem listQueue_history [DecidableEq α] (s : Session (SafeQueue α × HandleList α) α)
    (hrun : Lib.Runs (Session.step (side SafeQueue.perform HandleList.perform)) Session.Fresh
      ⟨(.listQueue .newListQueue, ⟨[], 0⟩), [], []⟩ s) :
    ∃ q l, s.queue = (.listQueue q, l) ∧ (l.entries.map Prod.fst).Nodup ∧ q.items = l.items ∧
      q.peekHead = l.items.head? ∧ q.peekTail = l.items.getLast? ∧ q.len = l.items.length ∧
      q.byteSize = bytes l.items ∧ ∀ op, ((SafeQueue.listQueue q).perform op).2 = (l.perform op).2 := by
  obtain ⟨q, l, hq, hl, ok, hsize, -⟩ := hrun.invariant
    (fun s => ∃ q l, s.queue = (.listQueue q, l) ∧ q.Holds l ∧ s.queue.1.Account s.added s.returned)
    (by
      rintro ⟨_, A, R⟩ op s' ⟨q, l, rfl, hl, ha⟩ hfresh ⟨⟩
      obtain ⟨-, q', hq', hl'⟩ := hl.perform ha.ok op
      exact ⟨q', _, Prod.ext hq' rfl, hl', ha.perform op hfresh⟩)
    ⟨.newListQueue, ⟨[], 0⟩, rfl, ⟨rfl, rfl, nofun⟩, ListQueue.newListQueue_synced, rfl, rfl⟩
  rw [hq] at ok hsize
  have hs : q.Synced := ok
  have hitems : q.items = l.items := congrArg (map Prod.snd) hl.entries
  refine ⟨q, l, hq, ?_, hitems, congrArg head? hitems, congrArg getLast? hitems, ?_,
    hsize.trans (congrArg bytes hitems), fun op => (hl.perform hs op).1⟩
  · rw [← hl.entries]
    exact hs.requests_nodup.map_on fun e he e' he' => hs.element_inj he he'
  · rw [← hitems, ListQueue.items, length_map]
    rfl

/-- A handle is used twice, none at all is tried, and an item is swept. -/
theorem listQueue_history_three : ∃ s : Session (SafeQueue Arrival × HandleList Arrival) Arrival,
    Lib.Runs (Session.step (side SafeQueue.perform HandleList.perform)) Session.Fresh
      ⟨(.listQueue .newListQueue, ⟨[], 0⟩), [], []⟩ s ∧ s.queue.2.items = [⟨2, 7⟩] ∧
        ∃ q l, s.queue = (.listQueue q, l) ∧ q.items = l.items ∧ q.byteSize = bytes l.items := by
  refine Lib.exists_runs [.add ⟨1, 1⟩, .add ⟨2, 7⟩, .add ⟨3, 9⟩, .remove (.own 0), .remove (.own 0), .remove .nil,
    .cleanup fun x => x = ⟨3, 9⟩] _ (by decide +kernel) fun s hrun hs => ⟨hs, ?_⟩
  obtain ⟨q, l, hq, -, hitems, -, -, -, hsize, -⟩ := listQueue_history s hrun
  exact ⟨q, l, hq, hitems, hsize⟩

end InferenceGateway.Queue
