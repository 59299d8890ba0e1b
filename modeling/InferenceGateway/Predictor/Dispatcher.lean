import InferenceGateway.Lib.Objects
import InferenceGateway.Lib.Runs
import InferenceGateway.Predictor.Coalescer
/-!
# Submissions on their way

The goroutines of `coalescer.go`: callers put their submissions into a buffered channel,
one dispatcher collects them until the window is over or enough rows are there, and a
goroutine for each batch waits for a slot, makes the call and hands out the results.
Any of them may be overtaken by the others and by the shutdown between two of its steps.
-/

namespace InferenceGateway.Predictor

open List

variable {F : Type}

abbrev Result (F : Type) := Except String (List (PredictionResponse F))

/-- A submission; its number stands for its pointer. -/
structure Submission (F : Type) where
  id : ℕ
  requests : List (PredictionRequest F)

structure DispatchConfig where
  /-- No limit unless positive. -/
  maxCoalescedRows : Int
  maxConcurrentDispatches : ℕ

/-- The goroutine of a batch. -/
inductive BatchRun (F : Type) where
  /-- Before a slot is there. -/
  | waiting (batch : List (Submission F))
  /-- With a slot; the call is under way. -/
  | calling (batch : List (Submission F))
  /-- The results that are still to be handed out. -/
  | sending (rest : List (Submission F × Result F)) (slot : Bool)
  | ended

structure Coalescer (F : Type) where
  /-- `done` is closed. -/
  done : Bool
  coalesceCh : List (Submission F)
  pending : List (Submission F)
  totalRows : ℕ
  /-- The timer is not nil. -/
  timer : Bool
  /-- The dispatcher has returned. -/
  stopped : Bool
  batches : List (BatchRun F)
  /-- The slots that are free. -/
  dispatchSem : ℕ
  /-- The results put into the channels of the submissions, in order. -/
  results : List (Submission F × Result F)
  /-- The submissions put into `coalesceCh`, in order. -/
  accepted : List (Submission F)
  /-- What callers have returned with, `none` when their context was done. -/
  returned : List (ℕ × Option (Result F))

def shuttingDown : String := "predictor shutting down"

namespace Coalescer

def new (config : DispatchConfig) : Coalescer F :=
  ⟨false, [], [], 0, false, false, [], config.maxConcurrentDispatches, [], [], []⟩

inductive Op (F : Type) where
  /-- A caller's send succeeds. -/
  | submit (requests : List (PredictionRequest F))
  /-- A caller gets their result. -/
  | collect (id : ℕ)
  /-- A caller's context is done. -/
  | leave (id : ℕ)
  /-- `Stop`. -/
  | stop
  /-- The three cases of the dispatcher. -/
  | receive
  | expire
  | notice
  /-- The goroutine of a batch gets a slot, or sees that the predictor shuts down. -/
  | acquire (j : ℕ)
  | reject (j : ℕ)
  /-- The call of a batch returns. -/
  | answered (j : ℕ) (answer : Result F)
  | send (j : ℕ)
  | release (j : ℕ)

/-- The steps that the dispatcher and the goroutines of batches make by themselves. -/
def Op.Internal : Op F → Prop
  | .submit _ | .collect _ | .leave _ | .stop => False
  | _ => True

def capacity : ℕ := 1024

variable (s : Coalescer F)

/-- The pending submissions, if any, become a batch with a goroutine. -/
def dispatch : Coalescer F :=
  { s with
    pending := []
    totalRows := if s.pending.isEmpty then s.totalRows else 0
    batches := if s.pending.isEmpty then s.batches else s.batches ++ [.waiting s.pending] }

def received (config : DispatchConfig) (sub : Submission F) (rest : List (Submission F)) : Coalescer F :=
  let s := { s with
    coalesceCh := rest
    pending := s.pending ++ [sub]
    totalRows := s.totalRows + sub.requests.length
    timer := true }
  if config.maxCoalescedRows > 0 ∧ (s.totalRows : Int) ≥ config.maxCoalescedRows then
    { s with timer := false }.dispatch
  else s

variable (batch : List (Submission F))

def reject : List (Submission F × Result F) :=
  batch.map fun sub => (sub, .error shuttingDown)

/-- What `dispatchBatch` sends, given the answer. -/
def handOut (answer : Result F) : List (Submission F × Result F) :=
  batch.zip (dispatchBatch (fun _ => answer) (batch.map (·.requests)))

/-- A step, or an error where it has to wait. -/
def step (config : DispatchConfig) : Op F → Except Unit (Coalescer F)
  | .submit requests =>
    if s.coalesceCh.length < capacity then
      let sub : Submission F := ⟨s.accepted.length, requests⟩
      .ok { s with coalesceCh := s.coalesceCh ++ [sub], accepted := s.accepted ++ [sub] }
    else .error ()
  | .collect id =>
    match s.results.find? (·.1.id = id) with
    | some (_, result) =>
      if id ∈ s.returned.map (·.1) then .error () else .ok { s with returned := s.returned ++ [(id, some result)] }
    | none => .error ()
  | .leave id =>
    if id ∈ s.returned.map (·.1) ∨ s.accepted.length ≤ id then .error ()
    else .ok { s with returned := s.returned ++ [(id, none)] }
  | .stop => if s.done then .error () else .ok { s with done := true }
  | .receive =>
    match s.stopped, s.coalesceCh with
    | false, sub :: rest => .ok (s.received config sub rest)
    | _, _ => .error ()
  | .expire => if s.stopped ∨ ¬ s.timer then .error () else .ok { s with timer := false }.dispatch
  | .notice =>
    if s.stopped ∨ ¬ s.done then .error ()
    -- what is pending is turned down; the channel is not drained
    else .ok { s with
      stopped := true
      timer := false
      pending := []
      batches := s.batches ++ [.sending (reject s.pending) false] }
  | .acquire j =>
    match s.batches[j]?, s.dispatchSem with
    | some (.waiting batch), n + 1 => .ok { s with dispatchSem := n, batches := s.batches.set j (.calling batch) }
    | _, _ => .error ()
  | .reject j =>
    match s.batches[j]?, s.done with
    | some (.waiting batch), true => .ok { s with batches := s.batches.set j (.sending (reject batch) false) }
    | _, _ => .error ()
  | .answered j answer =>
    match s.batches[j]? with
    | some (.calling batch) => .ok { s with batches := s.batches.set j (.sending (handOut batch answer) true) }
    | _ => .error ()
  | .send j =>
    match s.batches[j]? with
    | some (.sending (r :: rest) slot) =>
      .ok { s with results := s.results ++ [r], batches := s.batches.set j (.sending rest slot) }
    | _ => .error ()
  | .release j =>
    match s.batches[j]? with
    | some (.sending [] slot) =>
      .ok { s with
        dispatchSem := if slot then s.dispatchSem + 1 else s.dispatchSem
        batches := s.batches.set j .ended }
    | _ => .error ()

/-- The shutdown case of the dispatcher is taken with nothing left in the channel, and
nothing is put into the channel afterwards. -/
def Orderly : Op F → Prop
  | .notice => s.coalesceCh = []
  | .submit _ => s.stopped = false
  | _ => True

/-- The server answers with `f` of the rows, if `f` is given, and anything otherwise. -/
def Serves (f : Option (PredictionRequest F → PredictionResponse F)) : Op F → Prop
  | .answered j answer => ∀ g, f = some g → ∀ batch, s.batches[j]? = some (.calling batch) →
      answer = .ok ((batch.map (·.requests)).flatten.map g)
  | _ => True

end Coalescer

/-! ## What is handed out -/

theorem length_fanOut (predictions : List (PredictionResponse F)) (l : List (List (PredictionRequest F))) :
    ∀ start, (fanOut predictions start l).length = l.length := by
  induction l with
  | nil => intro start; rfl
  | cons sub l ih => intro start; rw [fanOut, length_cons, ih, length_cons]

theorem length_dispatchBatch (server : Server F) (l : List (List (PredictionRequest F))) :
    (dispatchBatch server l).length = l.length := by
  unfold dispatchBatch
  split
  · rw [length_map]
  · rw [length_fanOut]

/-- From a place on where the answer holds what belongs to the submissions that follow,
each gets what belongs to it. -/
theorem fanOut_map (g : PredictionRequest F → PredictionResponse F) (predictions : List (PredictionResponse F))
    (l : List (List (PredictionRequest F))) : ∀ start, start ≤ predictions.length →
    predictions.drop start = l.flatten.map g → fanOut predictions start l = l.map fun sub => .ok (sub.map g) := by
  induction l with
  | nil => intro start _ _; rfl
  | cons sub l ih =>
    intro start hstart h
    rw [flatten_cons, map_append] at h
    have hstop : start + sub.length ≤ predictions.length := by
      have hlen := congrArg List.length h
      simp only [length_drop, length_append, length_map] at hlen
      omega
    have hnext : predictions.drop (start + sub.length) = l.flatten.map g := by
      rw [← drop_drop, h, drop_append_of_le_length (by simp)]
      simp
    rw [fanOut, ih _ hstop hnext, map_cons, if_neg (by omega), h]
    simp

namespace Coalescer

theorem handOut_fst (answer : Result F) :
    (handOut batch answer).map (·.1) = batch := by
  rw [handOut, map_fst_zip]
  rw [length_dispatchBatch, length_map]

theorem length_handOut (answer : Result F) :
    (handOut batch answer).length = batch.length := by
  rw [← length_map (·.1), handOut_fst]

theorem reject_fst (batch : List (Submission F)) : (reject batch).map (·.1) = batch := by
  rw [reject, map_map]
  exact List.map_id _

theorem handOut_serves (g : PredictionRequest F → PredictionResponse F) (batch : List (Submission F)) :
    handOut batch (.ok ((batch.map (·.requests)).flatten.map g)) =
      batch.map fun sub => (sub, .ok (sub.requests.map g)) := by
  have hall := fanOut_map g ((batch.map (·.requests)).flatten.map g) (batch.map (·.requests)) 0 (Nat.zero_le _) rfl
  simp only [handOut, dispatchBatch, hall, map_map]
  nth_rewrite 1 [← List.map_id batch]
  exact zip_map'

end Coalescer

end InferenceGateway.Predictor
