import InferenceGateway.Lib.Instants
import InferenceGateway.Datastore.Endpoints
/-!
# The SLO deadline order

`slo_deadline.go`. A request's deadline is the time it was received and the
milliseconds that its header gives; a request without a valid header gets a
deadline that stands for none. The milliseconds are whatever the client sends,
the product with a million is taken in 64 bits, and the deadline that stands for
none is a date in 2262.
-/

namespace InferenceGateway.Ordering

open Lib

/-! ## The header -/

def toLower (text : String) : List Char := text.toList.map Char.toLower

/-- `GetHeader`; the entries are in the order of the iteration over the map. -/
def getHeader (headers : Table String String) (key : String) : String :=
  match headers.lookup key with
  | some v => v
  | none => ((headers.entries.find? fun e => toLower e.1 = toLower key).map fun e => e.2).getD ""

/-- `strconv.ParseInt` with base 10 and 64 bits. -/
def parseInt (text : List Char) : Option Int :=
  let (negative, digits) := match text with
    | '-' :: digits => (true, digits)
    | '+' :: digits => (false, digits)
    | digits => (false, digits)
  if digits.all Char.isDigit then Datastore.signed negative digits else none

def sloTtftHeader : String := "x-slo-ttft-ms"

/-- `InferenceRequest`, as far as it is read; `none` is a `nil` map. -/
structure InferenceRequest where
  headers : Option (Table String String)

structure FlowControlRequest where
  receivedTimestamp : Time
  inferenceRequest : Option InferenceRequest
  /-- The clock gave it. -/
  received_current : receivedTimestamp.Current

/-- `QueueItemAccessor`, as far as it is read. -/
structure QueueItem where
  originalRequest : Option FlowControlRequest

/-! ## The order -/

def sloMaxDeadlineTime : Time := .unix 0 (2 ^ 63 - 1)

/-- `time.Millisecond`, in nanoseconds. -/
def millisecond : Int64 := 1000000

def calculateSLODeadline (item : QueueItem) : Time :=
  match item.originalRequest with
  | none => sloMaxDeadlineTime
  | some req =>
    match req.inferenceRequest with
    | none => sloMaxDeadlineTime
    | some infReq =>
      match infReq.headers with
      | none => sloMaxDeadlineTime
      | some headers =>
        let sloTtft := getHeader headers sloTtftHeader
        if sloTtft = "" then sloMaxDeadlineTime
        else
          match parseInt (Datastore.trimSpace sloTtft.toList) with
          | none => sloMaxDeadlineTime
          | some ms =>
            if ms < 0 then sloMaxDeadlineTime
            else req.receivedTimestamp.add (Int64.ofInt ms * millisecond)

/-- `Less`; `none` is a `nil` item. -/
def less (a b : Option QueueItem) : Bool :=
  match a, b with
  | none, _ => false
  | some _, none => true
  | some a, some b =>
    let deadlineA := calculateSLODeadline a
    let deadlineB := calculateSLODeadline b
    if !deadlineA.equal deadlineB then deadlineA.before deadlineB
    else
      match a.originalRequest, b.originalRequest with
      | none, _ => false
      | some _, none => true
      | some reqA, some reqB => reqA.receivedTimestamp.before reqB.receivedTimestamp

/-! ## Valid headers -/

/-- The number in a request's header: what there is of it when every check is passed. -/
def sloOf (req : FlowControlRequest) : Option Int :=
  (req.inferenceRequest.bind (·.headers)).bind fun headers =>
    let sloTtft := getHeader headers sloTtftHeader
    if sloTtft = "" then none
    else (parseInt (Datastore.trimSpace sloTtft.toList)).filter fun ms => 0 ≤ ms

/-- The item's request has the number `ms` in its header. -/
def QueueItem.Carries (item : QueueItem) (req : FlowControlRequest) (ms : Int) : Prop :=
  item.originalRequest = some req ∧ sloOf req = some ms

/-- The item has no request, or one without a valid number. -/
def QueueItem.CarriesNone (item : QueueItem) : Prop := ∀ req, item.originalRequest = some req → sloOf req = none

/-- The item has no request, or one without a valid positive number. -/
def QueueItem.CarriesNoPositive (item : QueueItem) : Prop := ∀ req ms, item.Carries req ms → ms ≤ 0

theorem sloOf_nonneg {req : FlowControlRequest} {ms : Int} (h : sloOf req = some ms) : 0 ≤ ms := by
  obtain ⟨headers, -, hvalue⟩ := Option.bind_eq_some_iff.1 h
  simp only at hvalue
  split at hvalue
  · cases hvalue
  · simpa using (Option.filter_eq_some_iff.1 hvalue).2

/-- Without a positive number there is none, or it is zero. -/
theorem QueueItem.CarriesNoPositive.cases {item : QueueItem} (h : item.CarriesNoPositive) :
    item.CarriesNone ∨ ∃ req, item.Carries req 0 := by
  by_cases hnone : item.CarriesNone
  · exact .inl hnone
  · unfold QueueItem.CarriesNone at hnone
    push Not at hnone
    obtain ⟨req, hreq, hslo⟩ := hnone
    obtain ⟨ms, hms⟩ := Option.ne_none_iff_exists'.1 hslo
    have hzero : ms = 0 := le_antisymm (h req ms ⟨hreq, hms⟩) (sloOf_nonneg hms)
    exact .inr ⟨req, hreq, hzero ▸ hms⟩

theorem deadline_of_carries {item : QueueItem} {req : FlowControlRequest} {ms : Int} (h : item.Carries req ms) :
    calculateSLODeadline item = req.receivedTimestamp.add (Int64.ofInt ms * millisecond) := by
  obtain ⟨hreq, hslo⟩ := h
  obtain ⟨headers, hheaders, hvalue⟩ := Option.bind_eq_some_iff.1 hslo
  obtain ⟨infReq, hinf, hsome⟩ := Option.bind_eq_some_iff.1 hheaders
  simp only at hvalue
  split at hvalue
  · cases hvalue
  · rename_i hne
    obtain ⟨hparse, hpos⟩ := Option.filter_eq_some_iff.1 hvalue
    rw [decide_eq_true_eq] at hpos
    unfold calculateSLODeadline
    simp only [hreq, hinf, hsome, hparse, if_neg hne, if_neg (not_lt.2 hpos)]

theorem deadline_of_carriesNone {item : QueueItem} (h : item.CarriesNone) :
    calculateSLODeadline item = sloMaxDeadlineTime := by
  unfold calculateSLODeadline
  cases hreq : item.originalRequest with
  | none => rfl
  | some req =>
    have hslo := h req hreq
    unfold sloOf at hslo
    cases hinf : req.inferenceRequest with
    | none => simp only [hinf]
    | some infReq =>
      cases hheaders : infReq.headers with
      | none => simp only [hinf, hheaders]
      | some headers =>
        simp only [hinf, hheaders, Option.bind_some] at hslo ⊢
        split
        · rfl
        · rename_i hne
          rw [if_neg hne] at hslo
          cases hparse : parseInt (Datastore.trimSpace (getHeader headers sloTtftHeader).toList) with
          | none => rfl
          | some ms =>
            rw [hparse] at hslo
            simp only
            rw [if_pos]
            simpa using hslo

/-! ## When the order is right -/

/-- The milliseconds in nanoseconds, as far as 64 bits hold them. -/
def wrapped (ms : Int) : Int := (ms * 1000000).bmod (2 ^ 64)

theorem toInt_duration (ms : Int) : (Int64.ofInt ms * millisecond).toInt = wrapped ms := by
  have hmilli : millisecond.toInt = 1000000 := by decide
  rw [Int64.toInt_mul, Int64.toInt_ofInt, hmilli, Int.bmod_mul_bmod]
  rfl

/-- A smaller positive number is never after a greater one, and a positive number is before a request without one. -/
def RightlyOrdered (a b : QueueItem) : Prop :=
  ∀ reqA msA, a.Carries reqA msA → 0 < msA →
    (∀ reqB msB, b.Carries reqB msB → msA < msB → reqB.receivedTimestamp = reqA.receivedTimestamp →
      less (some b) (some a) = false) ∧
    (b.CarriesNoPositive → less (some a) (some b) = true)

/-- The numbers are in the same order after they have wrapped around; and a request without a number is behind if the
first one is due before the deadline that stands for none, one with the number zero if it was received after that. At
the same moment the one that was received first is first. -/
def InOrder (a b : QueueItem) : Prop :=
  ∀ reqA msA, a.Carries reqA msA → 0 < msA →
    (∀ reqB msB, b.Carries reqB msB → msA < msB → reqB.receivedTimestamp = reqA.receivedTimestamp →
      wrapped msA ≤ wrapped msB) ∧
    (b.CarriesNone → reqA.receivedTimestamp.nanos + wrapped msA < sloMaxDeadlineTime.nanos ∨
      reqA.receivedTimestamp.nanos + wrapped msA = sloMaxDeadlineTime.nanos ∧
        ∀ reqB, b.originalRequest = some reqB → reqA.receivedTimestamp.before reqB.receivedTimestamp = true) ∧
    ∀ reqB, b.Carries reqB 0 →
      let due := reqA.receivedTimestamp.add (Int64.ofInt msA * millisecond)
      due.before reqB.receivedTimestamp = true ∨
        due.equal reqB.receivedTimestamp = true ∧ reqA.receivedTimestamp.before reqB.receivedTimestamp = true

theorem less_iff {a b : QueueItem} {reqA : FlowControlRequest} (ha : a.originalRequest = some reqA) :
    less (some a) (some b) = true ↔ (calculateSLODeadline a).before (calculateSLODeadline b) = true ∨
      (calculateSLODeadline a).equal (calculateSLODeadline b) = true ∧
        ∀ reqB, b.originalRequest = some reqB → reqA.receivedTimestamp.before reqB.receivedTimestamp = true := by
  unfold less
  cases heq : (calculateSLODeadline a).equal (calculateSLODeadline b) with
  | false => simp [heq]
  | true =>
    have hnot := Time.not_before_of_equal heq
    cases hb : b.originalRequest with
    | none => simp [heq, ha, hb]
    | some reqB => simp [heq, ha, hb, hnot]

variable {a b : QueueItem} {reqA reqB : FlowControlRequest} {msA msB : Int}

/-- Received at the same time, requests are in the order of what is left of their numbers. -/
theorem less_of_carries (ha : a.Carries reqA msA) (hb : b.Carries reqB msB)
    (hsame : reqB.receivedTimestamp = reqA.receivedTimestamp) : less (some b) (some a) = false ↔ wrapped msA ≤ wrapped msB := by
  have hself : ¬ ∀ req, a.originalRequest = some req → reqB.receivedTimestamp.before req.receivedTimestamp = true := by
    intro h
    have hbefore := h reqA ha.1
    rw [hsame, Time.before_self] at hbefore
    cases hbefore
  obtain ⟨hbefore, -⟩ := reqA.received_current.add_before_add (Int64.ofInt msB * millisecond) (Int64.ofInt msA * millisecond)
  rw [← Bool.not_eq_true, less_iff hb.1, deadline_of_carries ha, deadline_of_carries hb, hsame, hbefore, toInt_duration,
    toInt_duration, ← hsame, not_or, not_lt]
  exact and_iff_left fun h => hself h.2

/-- A request with a number against one without. -/
theorem less_of_carriesNone (ha : a.Carries reqA msA) (hb : b.CarriesNone) : less (some a) (some b) = true ↔
    reqA.receivedTimestamp.nanos + wrapped msA < sloMaxDeadlineTime.nanos ∨
      reqA.receivedTimestamp.nanos + wrapped msA = sloMaxDeadlineTime.nanos ∧
        ∀ reqB, b.originalRequest = some reqB → reqA.receivedTimestamp.before reqB.receivedTimestamp = true := by
  -- the deadline that stands for none has no reading of the monotonic clock
  have hwall : sloMaxDeadlineTime.mono = none := rfl
  obtain ⟨hbefore, hequal⟩ := Time.before_of_wall (t := reqA.receivedTimestamp.add (Int64.ofInt msA * millisecond)) (.inr hwall)
  rw [less_iff ha.1, deadline_of_carries ha, deadline_of_carriesNone hb, hbefore, hequal, reqA.received_current.nanos_add,
    toInt_duration]

/-- The number zero is the time that the request was received. -/
theorem deadline_of_zero (hb : b.Carries reqB 0) : calculateSLODeadline b = reqB.receivedTimestamp := by
  rw [deadline_of_carries hb]
  exact reqB.received_current.add_zero

/-- Two requests are ordered rightly if and only if what is left of their numbers is in order. -/
theorem rightlyOrdered_iff (a b : QueueItem) : RightlyOrdered a b ↔ InOrder a b := by
  unfold RightlyOrdered InOrder
  refine forall₄_congr fun reqA msA ha hpos => and_congr ?_ ⟨fun h => ⟨fun hnone => ?_, fun reqB hzero => ?_⟩, fun h hno => ?_⟩
  · exact forall₅_congr fun reqB msB hb hlt hsame => less_of_carries ha hb hsame
  · refine (less_of_carriesNone ha hnone).1 (h fun req ms hms => ?_)
    have hslo := hms.2
    rw [hnone req hms.1] at hslo
    cases hslo
  · have hless := (less_iff ha.1).1 (h fun req ms hms => ?_)
    · rw [deadline_of_carries ha, deadline_of_zero hzero] at hless
      exact hless.imp_right fun heq => ⟨heq.1, heq.2 reqB hzero.1⟩
    · obtain ⟨hreq, hslo⟩ := hms
      rw [hzero.1, Option.some.injEq] at hreq
      subst hreq
      rw [hzero.2, Option.some.injEq] at hslo
      exact hslo.ge
  · rcases hno.cases with hnone | ⟨reqB, hzero⟩
    · exact (less_of_carriesNone ha hnone).2 (h.1 hnone)
    · rw [less_iff ha.1, deadline_of_carries ha, deadline_of_zero hzero]
      refine (h.2 reqB hzero).imp_right fun heq => ⟨heq.1, fun req hreq => ?_⟩
      rw [hzero.1, Option.some.injEq] at hreq
      exact hreq ▸ heq.2

/-- June 2025. -/
def june : Time := { Time.unix 1750000000 0 with
  mono := some 5000000000
  mono_range := by rintro m ⟨⟩; decide }

/-- A request with the given headers. -/
def requestWith (headers : Table String String) : FlowControlRequest := ⟨june, some ⟨some headers⟩, by unfold Time.Current; decide⟩

def itemWith (headers : Table String String) : QueueItem := ⟨some (requestWith headers)⟩

def sloHeader (value : String) : Table String String := AList.singleton "X-SLO-TTFT-MS" value

example : less (some (itemWith (sloHeader " 50 "))) (some (itemWith (sloHeader "+200"))) = true := by decide +kernel

/-- With the greater of two numbers the product wraps around: the request is before the one with the smaller number,
received at the same time. With a number whose product just fits, the deadline is after the one that stands for none.
And a request with the number zero is before one with a positive number. -/
theorem slo_order_wraps :
    ((itemWith (sloHeader "1")).Carries (requestWith (sloHeader "1")) 1 ∧
      (itemWith (sloHeader "9223372036855")).Carries (requestWith (sloHeader "9223372036855")) 9223372036855 ∧
      less (some (itemWith (sloHeader "9223372036855"))) (some (itemWith (sloHeader "1"))) = true) ∧
    ((itemWith (sloHeader "9223372036854")).Carries (requestWith (sloHeader "9223372036854")) 9223372036854 ∧
      (itemWith ∅).CarriesNone ∧ less (some (itemWith ∅)) (some (itemWith (sloHeader "9223372036854"))) = true) ∧
    (itemWith (sloHeader "0")).Carries (requestWith (sloHeader "0")) 0 ∧
      less (some (itemWith (sloHeader "0"))) (some (itemWith (sloHeader "1"))) = true := by
  refine ⟨⟨⟨rfl, by decide +kernel⟩, ⟨rfl, by decide +kernel⟩, by decide +kernel⟩,
    ⟨⟨rfl, by decide +kernel⟩, fun req hreq => ?_, by decide +kernel⟩, ⟨rfl, by decide +kernel⟩, by decide +kernel⟩
  cases hreq
  decide +kernel

end InferenceGateway.Ordering
