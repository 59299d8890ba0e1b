import InferenceGateway.Lib.Loop
import InferenceGateway.Lib.AltHeap
/-!
# The max-min heap queue

`maxminheap.go`, function by function. The queue keeps its items in an array
ordered as a max-min heap by the ordering policy's `Less` (the item that comes
first is on top), a map from each live handle to the item's place in the array,
and the total byte size.

A handle is a pointer. Seen from one queue it is `nil`, one that another queue
or package made, or the `s`-th one this queue made. Go reads a handle's place
only through the queue's map and its `isInvalidated` flag through the pointer,
so the two are kept apart here: `handles` is the map, `invalidated` the flags.
Reading past the end of the array panics in Go; here it gives `default`.
-/

namespace InferenceGateway.Queue

open Lib Function

/-- What the queues use of a `flowcontrol.QueueItemAccessor`. Items are
pointers, so equality is identity. -/
class QueueItemAccessor (α : Type) extends Inhabited α where
  byteSize : α → UInt64

/-- A `flowcontrol.QueueItemHandle` as one queue sees it. -/
inductive QueueItemHandle where
  | nil
  | foreign (sameType isInvalidated : Bool)
  | own (s : Nat)
deriving DecidableEq, Repr

inductive QueueError where
  | invalidQueueItemHandle
  | queueItemNotFound
deriving DecidableEq, Repr

structure HeapItem (α : Type) where
  item : α
  index : Nat
deriving DecidableEq, Repr

structure MaxMinHeap (α : Type) where
  items : List α
  handles : Nat → Option (HeapItem α)
  byteSize : UInt64
  /-- `policy.Less`. -/
  less : α → α → Bool
  /-- The `isInvalidated` flags of the handles this queue made. -/
  invalidated : Nat → Bool
  /-- `item.Handle()`. -/
  handleOf : α → Option Nat
  /-- The next handle to be allocated. -/
  next : Nat

/-- `isMinLevel`. The level is the floor of `log2(i+1)`, which the source takes
from `math.Log2`. -/
def isMinLevel (i : Nat) : Bool :=
  let level := Nat.log2 (i + 1)
  level % 2 != 0

namespace MaxMinHeap

variable {α : Type}

def newMaxMinHeap (less : α → α → Bool) : MaxMinHeap α where
  items := []
  handles := fun _ => none
  byteSize := 0
  less := less
  invalidated := fun _ => false
  handleOf := fun _ => none
  next := 0

variable (h : MaxMinHeap α)

def len : Nat := h.items.length

def peekHead : Option α := h.items.head?

/-- `h.handles[x.Handle()].index = i`. -/
def setIndex (x : α) (i : Nat) : MaxMinHeap α :=
  match h.handleOf x with
  | none => h
  | some s =>
    match h.handles s with
    | none => h
    | some it => { h with handles := update h.handles s (some { it with index := i }) }

def invalidate (s : Nat) : MaxMinHeap α :=
  { h with invalidated := update h.invalidated s true }

def delete (s : Nat) : MaxMinHeap α :=
  { h with handles := update h.handles s none }

section
variable [QueueItemAccessor α]

variable (h : MaxMinHeap α)

/-- `h.items[k]`. -/
def get (k : Nat) : α := h.items.getD k default

def peekTail : Option α :=
  let n := h.items.length
  if n = 0 then none
  else if n = 1 then some (h.get 0)
  else if n = 2 then some (h.get 1)
  else if h.less (h.get 1) (h.get 2) then some (h.get 2)
  else some (h.get 1)

/-- Subtracting from the byte size is adding the two's complement. -/
def subBytes (x : α) : MaxMinHeap α :=
  { h with byteSize := h.byteSize + (~~~(QueueItemAccessor.byteSize x) + 1) }

def swap (i j : Nat) : MaxMinHeap α :=
  let h1 := { h with items := (h.items.set i (h.get j)).set j (h.get i) }
  let h2 := h1.setIndex (h1.get i) i
  h2.setIndex (h2.get j) j

/-! ## Bubbling up -/

/-- One iteration of `upMin` and `upMax`: `beats` says that an entry moves above
its grandparent. -/
def upStep (beats : α → α → Bool) (s : MaxMinHeap α × Nat) : Option (MaxMinHeap α × Nat) :=
  let (h, i) := s
  let parentIndex := (i - 1) / 2
  if parentIndex = 0 then none
  else
    let grandparentIndex := (parentIndex - 1) / 2
    if beats (h.get i) (h.get grandparentIndex) then some (h.swap i grandparentIndex, grandparentIndex)
    else none

def upWith (beats : α → α → Bool) (h : MaxMinHeap α) (i : Nat) : MaxMinHeap α :=
  (loop (upStep beats) i (h, i)).1

variable (i : Nat)

def upMin : MaxMinHeap α := upWith (fun x y => h.less y x) h i

def upMax : MaxMinHeap α := upWith h.less h i

def up : MaxMinHeap α :=
  if i = 0 then h
  else
    let parentIndex := (i - 1) / 2
    if isMinLevel i then
      if h.less (h.get i) (h.get parentIndex) then (h.swap i parentIndex).upMax parentIndex
      else h.upMin i
    else
      if h.less (h.get parentIndex) (h.get i) then (h.swap i parentIndex).upMin parentIndex
      else h.upMax i

/-- A new handle, allocated at `h.next`. -/
def push [DecidableEq α] (h : MaxMinHeap α) (x : α) : MaxMinHeap α :=
  let h1 := { h with
    items := h.items ++ [x]
    handleOf := update h.handleOf x (some h.next)
    handles := update h.handles h.next (some { item := x, index := h.items.length })
    next := h.next + 1 }
  h1.up (h1.items.length - 1)

def add [DecidableEq α] (h : MaxMinHeap α) (x : α) : MaxMinHeap α :=
  let h1 := h.push x
  { h1 with byteSize := h1.byteSize + QueueItemAccessor.byteSize x }

/-! ## Trickling down -/

/-- The child or grandchild of `i` that wins against the others: a candidate
takes the lead when the leader is `behind` it. -/
def findChildOrGrandchild (behind : α → α → Bool) (h : MaxMinHeap α) (i : Nat) : Option Nat :=
  let leftChild := 2 * i + 1
  if leftChild ≥ h.items.length then none
  else
    let rightChild := 2 * i + 2
    let m := if rightChild < h.items.length && behind (h.get leftChild) (h.get rightChild) then rightChild else leftChild
    let grandchildStart := 2 * leftChild + 1
    some ((List.range' grandchildStart 4).foldl
      (fun m j => if j < h.items.length && behind (h.get m) (h.get j) then j else m) m)

def findSmallestChildOrGrandchild : Option Nat := findChildOrGrandchild h.less h i

def findLargestChildOrGrandchild : Option Nat :=
  findChildOrGrandchild (fun x y => h.less y x) h i

/-- One iteration of `downMin` and `downMax`. -/
def downStep (behind : α → α → Bool) (s : MaxMinHeap α × Nat) : Option (MaxMinHeap α × Nat) :=
  let (h, i) := s
  match findChildOrGrandchild behind h i with
  | none => none
  | some m =>
    if behind (h.get i) (h.get m) then
      let h1 := h.swap i m
      let parentOfM := (m - 1) / 2
      if parentOfM ≠ i then
        if behind (h1.get m) (h1.get parentOfM) then some (h1.swap m parentOfM, m) else some (h1, m)
      else some (h1, m)
    else none

def downWith (behind : α → α → Bool) (h : MaxMinHeap α) (i : Nat) : MaxMinHeap α :=
  (loop (downStep behind) h.items.length (h, i)).1

def downMin : MaxMinHeap α := downWith h.less h i

def downMax : MaxMinHeap α := downWith (fun x y => h.less y x) h i

def down : MaxMinHeap α :=
  if isMinLevel i then h.downMin i else h.downMax i

/-! ## Removing -/

/-- The end of `Remove`'s array: the last item goes, whichever it is by now. -/
def dropLast (s : Nat) (x : α) : MaxMinHeap α :=
  ({ h with items := h.items.take (h.items.length - 1) }.delete s).subBytes x

def remove (handle : QueueItemHandle) : Except QueueError (α × MaxMinHeap α) :=
  match handle with
  | .nil => .error .invalidQueueItemHandle
  | .foreign sameType isInvalidated =>
    if isInvalidated then .error .invalidQueueItemHandle
    else if !sameType then .error .invalidQueueItemHandle
    else .error .queueItemNotFound
  | .own s =>
    if h.invalidated s then .error .invalidQueueItemHandle
    else
      match h.handles s with
      | none => .error .queueItemNotFound
      | some heapItem =>
        let i := heapItem.index
        let x := h.get i
        let n := h.items.length - 1
        if i < n then .ok (x, (((h.swap i n).dropLast s x).down i).invalidate s)
        else .ok (x, (h.dropLast s x).invalidate s)

/-- The handle of an item that leaves the queue. -/
def release (x : α) : MaxMinHeap α :=
  match h.handleOf x with
  | none => h
  | some s => (h.invalidate s).delete s

/-- `for i := len(h.items)/2 - 1; i >= 0; i-- { h.down(i) }`, with `k` rounds to go. -/
def rebuild (h : MaxMinHeap α) : Nat → MaxMinHeap α
  | 0 => h
  | k + 1 => (h.down k).rebuild k

def cleanup (predicate : α → Bool) : List α × MaxMinHeap α :=
  let removedItems := h.items.filter predicate
  let itemsToKeep := h.items.filter (fun x => !predicate x)
  let h1 := removedItems.foldl (fun h x => (h.release x).subBytes x) h
  if removedItems.length > 0 then
    let h2 := { h1 with items := itemsToKeep }
    let h3 := itemsToKeep.zipIdx.foldl (fun h (x, i) => h.setIndex x i) h2
    (removedItems, h3.rebuild (itemsToKeep.length / 2))
  else (removedItems, h1)

def drain : List α × MaxMinHeap α :=
  let h1 := h.items.foldl (fun h x => match h.handleOf x with | none => h | some s => h.invalidate s) h
  (h.items, { h1 with items := [], handles := fun _ => none, byteSize := 0 })

end

end MaxMinHeap

end InferenceGateway.Queue
