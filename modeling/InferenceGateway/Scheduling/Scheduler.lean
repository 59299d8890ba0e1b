import InferenceGateway.Lib.Floats
import InferenceGateway.Lib.Sorting
import InferenceGateway.RequestControl.Director
/-!
# The scheduler

`Schedule` of `scheduler.go` runs the profiles its handler picks until the handler picks
none, and has the handler read the results. A profile filters the candidates, adds up
the weighted scores of those left and has its picker choose. The plugins share a cycle
state of type `C`; scores are floating point numbers of type `F`.
-/

namespace InferenceGateway.Scheduling

open Lib Handlers RequestControl Floats

/-- Endpoints are pointers: two may have the same metadata. -/
structure Endpoint where
  id : ℕ
  metadata : EndpointMetadata
deriving DecidableEq

structure ScoredEndpoint (F : Type) where
  endpoint : Endpoint
  score : F

abbrev Filter (C : Type) := C → LLMRequest → List Endpoint → List Endpoint × C

structure WeightedScorer (C F : Type) where
  score : C → LLMRequest → List Endpoint → Table Endpoint F × C
  weight : F

abbrev Picker (C F : Type) := C → List (ScoredEndpoint F) → List (ScoredEndpoint F) × C

structure SchedulerProfile (C F : Type) where
  filters : List (Filter C)
  scorers : List (WeightedScorer C F)
  picker : Picker C F

variable {C F : Type}

/-! ## A profile -/

/-- Each filter gets what the one before has left; the first to leave nothing is the last. -/
def runFilterPlugins (request : LLMRequest) : List (Filter C) → C → List Endpoint → List Endpoint × C
  | [], cycleState, endpoints => (endpoints, cycleState)
  | filter :: filters, cycleState, endpoints =>
    let r := filter cycleState request endpoints
    if r.1.isEmpty then r else runFilterPlugins request filters r.2 r.1

variable [Floats F]

def enforceScoreRange (score : F) : F :=
  -- a NaN is neither below nor above, and stays
  if lt score zero then zero
  else if lt one score then one
  else score

/-- The scores of one scorer are added to the weighted scores. -/
def addScores (weight : F) (scores weighted : Table Endpoint F) : Table Endpoint F :=
  scores.entries.foldl (fun weighted e =>
    weighted.insert e.1 (add ((weighted.lookup e.1).getD zero)
      (mul (enforceScoreRange e.2) weight))) weighted

/-- The scorers from the given weighted scores on. -/
def runScorers (request : LLMRequest) (endpoints : List Endpoint) :
    List (WeightedScorer C F) → C → Table Endpoint F → Table Endpoint F × C
  | [], cycleState, weighted => (weighted, cycleState)
  | scorer :: scorers, cycleState, weighted =>
    let r := scorer.score cycleState request endpoints
    runScorers request endpoints scorers r.2 (addScores scorer.weight r.1 weighted)

namespace SchedulerProfile

variable (p : SchedulerProfile C F)

def runScorerPlugins (request : LLMRequest) (cycleState : C) (endpoints : List Endpoint) : Table Endpoint F × C :=
  runScorers request endpoints p.scorers cycleState (Table.insertAll endpoints zero ∅)

/-- A Go map is read in any order, which is left to the picker's shuffle. -/
def runPickerPlugin (cycleState : C) (weighted : Table Endpoint F) : List (ScoredEndpoint F) × C :=
  p.picker cycleState (weighted.entries.map fun e => ⟨e.1, e.2⟩)

def run (request : LLMRequest) (cycleState : C) (candidates : List Endpoint) :
    Except Error (List (ScoredEndpoint F)) × C :=
  let endpoints := runFilterPlugins request p.filters cycleState candidates
  if endpoints.1.isEmpty then (.error ⟨.internal, "no endpoints available for the given request"⟩, endpoints.2)
  else
    let weighted := p.runScorerPlugins request endpoints.2 endpoints.1
    let targets := p.runPickerPlugin weighted.2 weighted.1
    (.ok targets.1, targets.2)

end SchedulerProfile

/-! ## The scheduler -/

/-- The targets of the profiles that have run, `none` where one has failed. -/
abbrev ProfileRunResults (F : Type) := Table String (Option (List (ScoredEndpoint F)))

structure SchedulingResult (F : Type) where
  profileResults : ProfileRunResults F
  primaryProfileName : String

structure ProfileHandler (C F : Type) where
  pick : C → LLMRequest → Table String (SchedulerProfile C F) → ProfileRunResults F →
    Table String (SchedulerProfile C F) × C
  processResults : C → LLMRequest → ProfileRunResults F → Except String (SchedulingResult F)

structure Scheduler (C F : Type) where
  profileHandler : ProfileHandler C F
  profiles : Table String (SchedulerProfile C F)

namespace Scheduler

variable (s : Scheduler C F) (request : LLMRequest) (candidates : List Endpoint)

/-- The profiles that the handler has picked, one after the other. -/
def runPicked : List (Sigma fun _ : String => SchedulerProfile C F) → ProfileRunResults F × C → ProfileRunResults F × C
  | [], st => st
  | ⟨name, profile⟩ :: picked, (results, cycleState) =>
    let r := profile.run request cycleState candidates
    runPicked picked (results.insert name r.1.toOption, r.2)

/-- The loop around the handler, `none` when it has not ended within the bound. -/
def runProfiles : ℕ → ProfileRunResults F × C → Option (ProfileRunResults F × C)
  | 0, _ => none
  | fuel + 1, (results, cycleState) =>
    let picked := s.profileHandler.pick cycleState request s.profiles results
    if picked.1.entries.isEmpty then some (results, picked.2)
    else runProfiles fuel (runPicked request candidates picked.1.entries (results, picked.2))

def schedule (fuel : ℕ) (newCycleState : C) : Option (Except String (SchedulingResult F)) :=
  (s.runProfiles request candidates fuel (∅, newCycleState)).map fun st =>
    if st.1.entries.isEmpty then
      .error ("failed to run any scheduler profile for request " ++ request.requestId)
    else s.profileHandler.processResults st.2 request st.1

end Scheduler

/-! ## The single profile handler -/

namespace SingleProfileHandler

def pick (cycleState : C) (_request : LLMRequest) (profiles : Table String (SchedulerProfile C F))
    (profileResults : ProfileRunResults F) : Table String (SchedulerProfile C F) × C :=
  if profiles.entries.length = profileResults.entries.length then (∅, cycleState) else (profiles, cycleState)

def processResults (_cycleState : C) (_request : LLMRequest) (profileResults : ProfileRunResults F) :
    Except String (SchedulingResult F) :=
  match profileResults.entries with
  | [⟨singleProfileName, some _⟩] => .ok ⟨profileResults, singleProfileName⟩
  | [⟨singleProfileName, none⟩] => .error ("failed to run scheduler profile '" ++ singleProfileName ++ "'")
  | _ =>
    .error "single profile handler is intended to be used with a single profile, failed to process multiple profiles"

def handler : ProfileHandler C F := ⟨pick, processResults⟩

end SingleProfileHandler

/-! ## The max-score picker -/

/-- The limit is positive from its construction on. -/
structure MaxScorePicker where
  maxNumOfEndpoints : ℕ
  pos : 0 < maxNumOfEndpoints

def defaultMaxNumOfEndpoints : ℕ := 1

def newMaxScorePicker (maxNumOfEndpoints : Int) : MaxScorePicker :=
  if h : maxNumOfEndpoints ≤ 0 then ⟨defaultMaxNumOfEndpoints, by decide⟩
  else ⟨maxNumOfEndpoints.toNat, by omega⟩

/-- Highest score first. -/
def byScore (i j : ScoredEndpoint F) : Int :=
  if lt j.score i.score then -1
  else if lt i.score j.score then 1
  else 0

def MaxScorePicker.pick (p : MaxScorePicker) (shuffle : Shuffle (ScoredEndpoint F))
    (sort : SortFunc (ScoredEndpoint F)) : Picker C F := fun cycleState scoredEndpoints =>
  let scoredEndpoints := sort.run byScore (shuffle.run scoredEndpoints)
  (if p.maxNumOfEndpoints < scoredEndpoints.length then scoredEndpoints.take p.maxNumOfEndpoints
    else scoredEndpoints, cycleState)

/-! ## The director's side -/

/-- The candidates get a pointer each. -/
def toSchedulerEndpoints (candidates : List EndpointMetadata) : List Endpoint :=
  candidates.zipIdx.map fun c => ⟨c.2, c.1⟩

/-- What the director reads of a result: a profile that has failed is a nil to it. -/
def SchedulingResult.forDirector (r : SchedulingResult F) : RequestControl.SchedulingResult where
  profileResults := Table.filterMapVals (fun _ targets => targets.map (List.map (·.endpoint.metadata))) r.profileResults
  primaryProfileName := r.primaryProfileName

/-- The director's scheduler is this one, started on a new cycle state with each request. -/
def Calls {G : Type} (d : Director G) (s : Scheduler C F) (newCycleState : C) : Prop :=
  ∀ request candidates, ∃ bound answer,
    (∀ fuel, bound ≤ fuel →
      s.schedule request (toSchedulerEndpoints candidates) fuel newCycleState = some answer) ∧
    d.schedule request candidates = answer.map fun r => some r.forDirector

end InferenceGateway.Scheduling
