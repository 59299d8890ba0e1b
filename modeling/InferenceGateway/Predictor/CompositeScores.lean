import InferenceGateway.Lib.Draws
import InferenceGateway.Lib.Floats
import InferenceGateway.Lib.Table
import InferenceGateway.Predictor.Predictions
/-!
# Selection by composite scores

`helpers.go` of the predicted latency scorer. Each candidate has a weight made of its free
cache, its queue and its prefix score, and is drawn in proportion to it. The strategy
`composite-least` turns the weights round and keeps the total: the draws match the weights
only if turning them round does not change their sum.
-/

namespace InferenceGateway.Predictor

open Lib List Floats FloatArith

inductive HeadroomStrategy where
  | least
  | most
  | compositeLeast
  | compositeMost
  | compositeOnly
deriving DecidableEq

def minWeight : Int := 1

def wMax : Int := 100

def podSelectionMax : String := "max"

/-- `math.MaxInt32`. -/
def maxInt32 : Int := 2147483647

variable {F : Type}

/-- The configuration, as far as it is read here. -/
structure CompositeConfig (F : Type) where
  compositeKVWeight : F
  compositeQueueWeight : F
  compositePrefixWeight : F
  selectionMode : String

structure Choice (F : Type) where
  endpointName : Endpoint F
  weight : Int
deriving DecidableEq

structure QueueStats where
  minQ : Int
  maxQ : Int
  queueCounts : Table String Int

section Scores
variable [FloatArith F] (text : Option EndpointMetadata → String)

def QueueStats.add (stats : QueueStats) (e : EndpointPredictionResult F) : Except Panic QueueStats :=
  match e.endpoint.metrics with
  | none => .error .nilDereference
  | some metrics =>
    let q := metrics.waitingQueueSize
    .ok {
      minQ := if q < stats.minQ then q else stats.minQ
      maxQ := if q > stats.maxQ then q else stats.maxQ
      queueCounts := stats.queueCounts.insert (text e.endpoint.metadata) q }

variable (config : CompositeConfig F)

/-- The weights of the three scores, with the sum one. -/
def normalized : F × F × F :=
  let sumw := add (add config.compositeKVWeight config.compositeQueueWeight) config.compositePrefixWeight
  -- `sumw <= 0`, which a NaN is not
  if lt zero sumw = false ∧ isNaN sumw = false then (one, zero, zero)
  else
    (div config.compositeKVWeight sumw, div config.compositeQueueWeight sumw,
      div config.compositePrefixWeight sumw)

def compositeWeight (stats : QueueStats) (p : EndpointPredictionResult F) : Except Panic Int :=
  let (wkv, wq, wpref) := normalized config
  let den := ofInt (F := F) (stats.maxQ - stats.minQ)
  let q := (stats.queueCounts.lookup (text p.endpoint.metadata)).getD 0
  let relQueue :=
    if lt zero den then div (ofInt (stats.maxQ - q)) den else one
  match p.endpoint.metrics with
  | none => .error .nilDereference
  | some metrics =>
    let kvFree := sub one metrics.kvCacheUsagePercent
    let composite := add (add (mul wkv kvFree) (mul wq relQueue)) (mul wpref p.prefixCacheScore)
    .ok (round
      (add (ofInt minWeight) (mul (ofInt (wMax - minWeight)) composite)))

/-- A round of the second loop. -/
def addChoice (stats : QueueStats) (made : List (Choice F) × Int) (p : EndpointPredictionResult F) :
    Except Panic (List (Choice F) × Int) := do
  let w ← compositeWeight text config stats p
  pure (made.1 ++ [⟨p.endpoint, w⟩], made.2 + w)

/-- The choices, and the total of their weights. -/
def buildCompositeChoices (candidates : List (EndpointPredictionResult F)) :
    Except Panic (List (Choice F) × Int) := do
  let stats ← candidates.foldlM (QueueStats.add text) ⟨maxInt32, -1, ∅⟩
  candidates.foldlM (addChoice text config stats) ([], 0)

end Scores

/-- In the mode `max`: the first of the choices with the largest weight, if that is positive. -/
def largest (weightedChoices : List (Choice F)) : Option (Endpoint F) :=
  (weightedChoices.foldl (fun (best : Int × Option (Endpoint F)) c =>
    if c.weight > best.1 then (c.weight, some c.endpointName) else best) (0, none)).2

/-- With the first candidate, if none was selected. -/
def orFirst (candidates : List (EndpointPredictionResult F)) : Option (Endpoint F) → Except DrawPanic (Option (Endpoint F))
  | some selectedEndpoint => .ok (some selectedEndpoint)
  | none => do
    let first ← element candidates 0
    pure (some first.endpoint)

/-- The result is `none` for `nil`. -/
def performWeightedRandomSelection (selectionMode : String) (weightedChoices : List (Choice F)) (total : Int)
    (candidates : List (EndpointPredictionResult F)) (draw : ℕ) : Except DrawPanic (Option (Endpoint F)) :=
  if total = 0 then .ok none
  else if selectionMode = podSelectionMax then orFirst candidates (largest weightedChoices)
  else do
    let idx ← intn total draw
    orFirst candidates ((scanWeights Choice.weight weightedChoices idx).map Choice.endpointName)

/-- The choices with the weights that are drawn by. -/
def finalChoices (strategy : HeadroomStrategy) (choices : List (Choice F)) : List (Choice F) :=
  if strategy = .compositeLeast then choices.map fun c => { c with weight := minWeight + wMax - c.weight } else choices

def selectFromCompositeScores [FloatArith F] (text : Option EndpointMetadata → String) (config : CompositeConfig F)
    (allPreds : List (EndpointPredictionResult F)) (strategy : HeadroomStrategy) (draw : ℕ) :
    Except DrawPanic (Option (Endpoint F)) := do
  let (choices, total) ← (buildCompositeChoices text config allPreds).mapError DrawPanic.operation
  performWeightedRandomSelection config.selectionMode (finalChoices strategy choices) total allPreds draw

/-! ## The choices that are built -/

variable [FloatArith F] {text : Option EndpointMetadata → String} {config : CompositeConfig F} {stats : QueueStats}
  {candidates : List (EndpointPredictionResult F)} {choices : List (Choice F)} {total : Int} {strategy : HeadroomStrategy}

theorem addChoices_spec (config : CompositeConfig F) (stats : QueueStats) (candidates : List (EndpointPredictionResult F)) :
    ∀ {made r : List (Choice F) × Int}, candidates.foldlM (addChoice text config stats) made = .ok r →
      made.2 = (made.1.map Choice.weight).sum →
      r.1.map Choice.endpointName = made.1.map Choice.endpointName ++ candidates.map (·.endpoint) ∧
        r.2 = (r.1.map Choice.weight).sum := by
  induction candidates with
  | nil =>
    intro made r h hsum
    cases h
    exact ⟨by simp, hsum⟩
  | cons p candidates ih =>
    intro made r h hsum
    rw [foldlM_cons] at h
    cases hw : compositeWeight text config stats p with
    | error e =>
      rw [addChoice, hw] at h
      cases h
    | ok w =>
      rw [addChoice, hw] at h
      change candidates.foldlM (addChoice text config stats) (made.1 ++ [⟨p.endpoint, w⟩], made.2 + w) = .ok r at h
      obtain ⟨hnames, hr⟩ := ih h (by simp [hsum])
      exact ⟨by simp [hnames], hr⟩

/-- There is a choice for each candidate, and the total is that of the weights. -/
theorem buildCompositeChoices_spec (h : buildCompositeChoices text config candidates = .ok (choices, total)) :
    choices.map Choice.endpointName = candidates.map (·.endpoint) ∧ total = (choices.map Choice.weight).sum := by
  unfold buildCompositeChoices at h
  cases hstats : candidates.foldlM (QueueStats.add text) ⟨maxInt32, -1, ∅⟩ with
  | error e =>
    rw [hstats] at h
    cases h
  | ok stats =>
    rw [hstats] at h
    exact addChoices_spec config stats candidates h rfl

/-! ## The draws -/

omit [FloatArith F] in
@[simp] theorem finalChoices_names (strategy : HeadroomStrategy) (choices : List (Choice F)) :
    (finalChoices strategy choices).map Choice.endpointName = choices.map Choice.endpointName := by
  unfold finalChoices
  split
  · simp [Function.comp_def]
  · rfl

omit [FloatArith F] in
theorem sum_inverted (choices : List (Choice F)) :
    ((choices.map fun c => { c with weight := minWeight + wMax - c.weight }).map Choice.weight).sum =
      choices.length * (minWeight + wMax) - (choices.map Choice.weight).sum := by
  induction choices with
  | nil => simp
  | cons c choices ih =>
    simp only [map_cons, sum_cons, ih, length_cons]
    push_cast
    ring

omit [FloatArith F] in
/-- When the weights that are drawn by have the total that was built. -/
theorem finalChoices_sum : ((finalChoices strategy choices).map Choice.weight).sum = (choices.map Choice.weight).sum ↔
    (strategy = .compositeLeast → 2 * (choices.map Choice.weight).sum = choices.length * (minWeight + wMax)) := by
  unfold finalChoices
  split
  · rename_i hleast
    rw [sum_inverted]
    constructor
    · intro hsum _
      omega
    · intro hsum
      have hboth := hsum hleast
      omega
  · rename_i hother
    exact ⟨fun _ hleast => absurd hleast hother, fun _ => rfl⟩

omit [FloatArith F] in
theorem finalChoices_nonneg (hrange : ∀ c ∈ choices, minWeight ≤ c.weight ∧ c.weight ≤ wMax) :
    ∀ c ∈ finalChoices strategy choices, 0 ≤ c.weight := by
  intro c hc
  unfold finalChoices at hc
  split at hc
  · obtain ⟨c', hc', rfl⟩ := List.mem_map.1 hc
    have hle := (hrange c' hc').2
    simp only [minWeight]
    omega
  · exact le_trans (by decide) (hrange c hc).1

omit [FloatArith F] in
theorem performWeightedRandomSelection_linear {selectionMode : String} {r : ℕ} (hmode : selectionMode ≠ podSelectionMax)
    (hr : r < total) : performWeightedRandomSelection selectionMode choices total candidates r =
      orFirst candidates ((scanWeights Choice.weight choices r).map Choice.endpointName) := by
  rw [performWeightedRandomSelection, if_neg (by omega), if_neg hmode, intn_ok hr]
  rfl

theorem selectFromCompositeScores_eq (h : buildCompositeChoices text config candidates = .ok (choices, total)) (draw : ℕ) :
    selectFromCompositeScores text config candidates strategy draw =
      performWeightedRandomSelection config.selectionMode (finalChoices strategy choices) total candidates draw := by
  rw [selectFromCompositeScores, h]
  rfl

/-- Each draw below the total is of one candidate, which is selected without the fallback, and each candidate is selected
by as many draws as its final weight. -/
def Proportional (text : Option EndpointMetadata → String) (config : CompositeConfig F)
    (candidates : List (EndpointPredictionResult F)) (strategy : HeadroomStrategy) (choices : List (Choice F)) (total : Int) :
    Prop :=
  ∃ own : ℕ → ℕ, Shares ((finalChoices strategy choices).map fun c => c.weight.toNat) total.toNat own ∧
    ∀ r < total.toNat, ∃ p, candidates[own r]? = some p ∧
      (scanWeights Choice.weight (finalChoices strategy choices) r).map Choice.endpointName = some p.endpoint ∧
      selectFromCompositeScores text config candidates strategy r = .ok (some p.endpoint)

theorem proportional_of_sum (hmode : config.selectionMode ≠ podSelectionMax)
    (hbuild : buildCompositeChoices text config candidates = .ok (choices, total))
    (hnonneg : ∀ c ∈ finalChoices strategy choices, 0 ≤ c.weight)
    (hsum : ((finalChoices strategy choices).map Choice.weight).sum = total) :
    Proportional text config candidates strategy choices total := by
  obtain ⟨own, hshares, hscan⟩ := scanWeights_shares hnonneg
  rw [hsum] at hshares hscan
  refine ⟨own, hshares, fun r hr => ?_⟩
  obtain ⟨c, hc, hfound⟩ := hscan r hr
  -- the entry that is found is the choice of the candidate in the same place
  have hplace : (candidates[own r]?).map (·.endpoint) = some c.endpointName := by
    rw [← List.getElem?_map, ← (buildCompositeChoices_spec hbuild).1, ← finalChoices_names strategy, List.getElem?_map, hc]
    rfl
  obtain ⟨p, hp, hendpoint⟩ := Option.map_eq_some_iff.1 hplace
  refine ⟨p, hp, by rw [hfound, hendpoint]; rfl, ?_⟩
  rw [selectFromCompositeScores_eq hbuild, performWeightedRandomSelection_linear hmode (by omega), hfound, hendpoint]
  rfl

/-- In the linear mode, with weights in their range, the candidates are drawn in proportion to their final weights if and
only if the strategy does not turn the weights round, or their sum stays the same when it does. -/
theorem selectFromCompositeScores_shares_iff (text : Option EndpointMetadata → String) (config : CompositeConfig F)
    (candidates : List (EndpointPredictionResult F)) (strategy : HeadroomStrategy) (choices : List (Choice F)) (total : Int)
    (hmode : config.selectionMode ≠ podSelectionMax)
    (hbuild : buildCompositeChoices text config candidates = .ok (choices, total))
    (hrange : ∀ c ∈ choices, minWeight ≤ c.weight ∧ c.weight ≤ wMax) :
    Proportional text config candidates strategy choices total ↔
      (strategy = .compositeLeast → 2 * total = candidates.length * (minWeight + wMax)) := by
  obtain ⟨hnames, htotal⟩ := buildCompositeChoices_spec hbuild
  have hlen : candidates.length = choices.length := by
    have hmap := congrArg List.length hnames
    simpa using hmap.symm
  have hnonneg : ∀ c ∈ finalChoices strategy choices, 0 ≤ c.weight := finalChoices_nonneg hrange
  have hsame : ((finalChoices strategy choices).map Choice.weight).sum = total ↔
      (strategy = .compositeLeast → 2 * total = candidates.length * (minWeight + wMax)) := by
    rw [htotal, hlen]
    exact finalChoices_sum
  refine ⟨fun hshares => hsame.1 ?_, fun hsum => proportional_of_sum hmode hbuild hnonneg (hsame.2 hsum)⟩
  -- the shares have no more and no fewer draws than there are
  obtain ⟨own, hshares, -⟩ := hshares
  have hpos : 0 ≤ total := htotal ▸ sum_nonneg fun w hw => by
    obtain ⟨c, hc, rfl⟩ := List.mem_map.1 hw
    exact le_trans (by decide) (hrange c hc).1
  rw [sum_toNat hnonneg, ← hshares.total_eq, Int.toNat_of_nonneg hpos]

/-- A candidate that uses the given part of its cache. -/
def cached (kvCacheUsagePercent : ℚ) : EndpointPredictionResult (Option ℚ) :=
  ⟨⟨none, some ⟨some kvCacheUsagePercent, 0, 0⟩⟩, none, none, true, true, true, none, none, some 0⟩

/-- Only the free cache counts. -/
def cacheOnly : CompositeConfig (Option ℚ) := ⟨some 1, some 0, some 0, "linear"⟩

/-- A free and a full candidate, whose weights change places. -/
theorem selectFromCompositeScores_shares_iff_two :
    (finalChoices .compositeLeast [⟨(cached 0).endpoint, 100⟩, ⟨(cached 1).endpoint, 1⟩]).map Choice.weight = [1, 100] ∧
    ∃ own : ℕ → ℕ, Shares [1, 100] 101 own ∧ ∀ r < 101, ∃ p, [cached 0, cached 1][own r]? = some p ∧
      selectFromCompositeScores (fun _ => "") cacheOnly [cached 0, cached 1] .compositeLeast r = .ok (some p.endpoint) := by
  obtain ⟨own, hshares, hselect⟩ := (selectFromCompositeScores_shares_iff (fun _ => "") cacheOnly [cached 0, cached 1]
    .compositeLeast [⟨(cached 0).endpoint, 100⟩, ⟨(cached 1).endpoint, 1⟩] 101 (by decide) (by decide +kernel)
    (by decide +kernel)).2 (by decide +kernel)
  refine ⟨by decide +kernel, own, hshares, fun r hr => ?_⟩
  obtain ⟨p, hp, -, hselected⟩ := hselect r hr
  exact ⟨p, hp, hselected⟩

/-- A single free candidate has the weight 100 and, turned round, the weight 1: only the draw 0 selects it. -/
theorem selectFromCompositeScores_falls_back :
    buildCompositeChoices (fun _ => "") cacheOnly [cached 0] = .ok ([⟨(cached 0).endpoint, 100⟩], 100) ∧
    (finalChoices .compositeLeast [⟨(cached 0).endpoint, 100⟩]).map Choice.weight = [1] ∧
    ∀ r : ℕ, 1 ≤ r → r < 100 →
      scanWeights Choice.weight (finalChoices .compositeLeast [⟨(cached 0).endpoint, 100⟩]) r = none := by
  refine ⟨by decide +kernel, by decide +kernel, fun r hr _ => ?_⟩
  simp [finalChoices, scanWeights, minWeight, wMax]
  omega

end InferenceGateway.Predictor
