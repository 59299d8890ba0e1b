import InferenceGateway.Scheduling.Scheduler
/-!
# What the scheduler picks

With the single profile handler and max-score pickers: the loop around the handler ends
in its second round, and a result holds the best scored of the endpoints that the
filters have left. The score of an endpoint is said once more without the map that the
scorers share (`weightedScore`).
-/

namespace InferenceGateway.Scheduling

open Lib Handlers RequestControl List AList Table Floats SingleProfileHandler Scheduler

variable {C F : Type} [Floats F]

/-! ## Filters -/

omit [Floats F] in
theorem runFilterPlugins_subset {request : LLMRequest} {filters : List (Filter C)}
    (h : ∀ filter ∈ filters, ∀ c l, ∀ e ∈ (filter c request l).1, e ∈ l) :
    ∀ c endpoints, ∀ e ∈ (runFilterPlugins request filters c endpoints).1, e ∈ endpoints := by
  induction filters with
  | nil => intro c endpoints e he; exact he
  | cons filter filters ih =>
    intro c endpoints e he
    rw [runFilterPlugins] at he
    have hfirst := h filter (by simp) c endpoints
    split at he
    · exact hfirst e he
    · exact hfirst e (ih (fun f hf => h f (by simp [hf])) _ _ e he)

/-! ## Scores -/

/-- The sum of an endpoint's scores, each brought into range and weighted. -/
def weightedScore (request : LLMRequest) (endpoints : List Endpoint) (e : Endpoint) :
    List (WeightedScorer C F) → C → F → F
  | [], _, sum => sum
  | scorer :: scorers, cycleState, sum =>
    let r := scorer.score cycleState request endpoints
    weightedScore request endpoints e scorers r.2
      (match r.1.lookup e with
        | none => sum
        | some score => add sum (mul (enforceScoreRange score) scorer.weight))

theorem lookup_addScores (weight : F) (scores weighted : Table Endpoint F) (e : Endpoint) :
    (addScores weight scores weighted).lookup e =
      match scores.lookup e with
      | none => weighted.lookup e
      | some score => some (add ((weighted.lookup e).getD zero)
          (mul (enforceScoreRange score) weight)) :=
  lookup_foldl_update
    (g := fun old score => add (old.getD zero) (mul (enforceScoreRange score) weight))
    e scores.entries scores.nodupKeys weighted

/-- The map has a score for each endpoint that is scored, and for no other. -/
theorem lookup_runScorers {request : LLMRequest} {endpoints : List Endpoint} {scorers : List (WeightedScorer C F)}
    (h : ∀ scorer ∈ scorers, ∀ c, ∀ e ∈ (scorer.score c request endpoints).1, e ∈ endpoints) (e : Endpoint) :
    ∀ c (sum : F) (weighted : Table Endpoint F), weighted.lookup e = (if e ∈ endpoints then some sum else none) →
      (runScorers request endpoints scorers c weighted).1.lookup e =
        if e ∈ endpoints then some (weightedScore request endpoints e scorers c sum) else none := by
  induction scorers with
  | nil => intro c sum weighted hw; exact hw
  | cons scorer scorers ih =>
    intro c sum weighted hw
    have hgiven := h scorer (by simp) c e
    rw [runScorers, weightedScore]
    apply ih fun s hs => h s (by simp [hs])
    rw [lookup_addScores]
    cases hl : (scorer.score c request endpoints).1.lookup e with
    | none => exact hw
    | some score =>
      have he := hgiven (mem_of_lookup hl)
      simp only [hw, if_pos he, Option.getD_some]

/-! ## The picker -/

theorem byScore_nonpos {i j : ScoredEndpoint F} : byScore i j ≤ 0 ↔ lt i.score j.score = false := by
  unfold byScore
  cases hij : lt i.score j.score with
  | false => cases lt j.score i.score <;> simp
  | true => simp [lt_asymm _ _ hij]

theorem byScore_neg {i j : ScoredEndpoint F} : byScore i j < 0 ↔ lt j.score i.score = true := by
  unfold byScore
  cases hji : lt j.score i.score with
  | true => simp
  | false => cases lt i.score j.score <;> simp

/-- Without a NaN, the comparison of the picker is an order. -/
theorem byScore_orders {l : List (ScoredEndpoint F)} (h : ∀ i ∈ l, isNaN i.score = false) :
    OrdersOn byScore l where
  antisymm i _ j _ := by
    rw [byScore_neg, ← not_le, byScore_nonpos, Bool.not_eq_false]
  trans i _ j hj k _ := by
    simp only [byScore_nonpos]
    intro hij hjk
    cases hik : lt i.score k.score with
    | false => rfl
    | true =>
      rcases lt_or_lt _ _ _ hik (h j hj) with hlt | hlt
      · exact absurd hlt (by simp [hij])
      · exact absurd hlt (by simp [hjk])

section Picker

variable {p : MaxScorePicker} {shuffle : Shuffle (ScoredEndpoint F)} {sort : SortFunc (ScoredEndpoint F)}
  {scored : List (ScoredEndpoint F)} {c : C}

theorem pick_eq : (p.pick shuffle sort c scored).1 =
    (sort.run byScore (shuffle.run scored)).take p.maxNumOfEndpoints := by
  unfold MaxScorePicker.pick
  dsimp only
  split
  · rfl
  · rename_i h
    exact (take_of_length_le (not_lt.1 h)).symm

theorem sorted_perm : (sort.run byScore (shuffle.run scored)).Perm scored :=
  (sort.perm _ _).trans (shuffle.perm _)

theorem length_pick : (p.pick shuffle sort c scored).1.length = min p.maxNumOfEndpoints scored.length := by
  rw [pick_eq, length_take, sorted_perm.length_eq]

theorem mem_of_mem_pick {t : ScoredEndpoint F} (h : t ∈ (p.pick shuffle sort c scored).1) : t ∈ scored := by
  rw [pick_eq] at h
  exact sorted_perm.mem_iff.1 (mem_of_mem_take h)

theorem nodup_pick (h : (scored.map (·.endpoint)).Nodup) :
    ((p.pick shuffle sort c scored).1.map (·.endpoint)).Nodup := by
  rw [pick_eq, map_take]
  exact ((sorted_perm.map _).nodup_iff.2 h).sublist (take_sublist _ _)

/-- What is not picked does not score higher than what is. -/
theorem pick_highest (hnan : ∀ i ∈ scored, isNaN i.score = false) {t u : ScoredEndpoint F}
    (ht : t ∈ (p.pick shuffle sort c scored).1) (hu : u ∈ scored) (hnot : u ∉ (p.pick shuffle sort c scored).1) :
    lt t.score u.score = false := by
  have hord : OrdersOn byScore (shuffle.run scored) :=
    byScore_orders fun i hi => hnan i ((shuffle.perm _).mem_iff.1 hi)
  rw [pick_eq] at ht hnot
  -- in the sorted list, what is not among the first is among the rest
  have hsorted : u ∈ sort.run byScore (shuffle.run scored) := sorted_perm.mem_iff.2 hu
  rw [← take_append_drop p.maxNumOfEndpoints (sort.run byScore (shuffle.run scored)), mem_append] at hsorted
  exact byScore_nonpos.1 (take_first (sort.sorted _ _ hord) _ ht (hsorted.resolve_left hnot))

end Picker

/-! ## Profiles with a max-score picker -/

structure MaxScoreProfile (C F : Type) where
  filters : List (Filter C)
  scorers : List (WeightedScorer C F)
  picker : MaxScorePicker
  shuffle : Shuffle (ScoredEndpoint F)
  sort : SortFunc (ScoredEndpoint F)

namespace MaxScoreProfile

def toProfile (p : MaxScoreProfile C F) : SchedulerProfile C F :=
  ⟨p.filters, p.scorers, p.picker.pick p.shuffle p.sort⟩

/-- Filters take away endpoints and scorers score the ones they are given. -/
structure WellBehaved (p : MaxScoreProfile C F) : Prop where
  filters : ∀ filter ∈ p.filters, ∀ c request l, ∀ e ∈ (filter c request l).1, e ∈ l
  scorers : ∀ scorer ∈ p.scorers, ∀ c request l, ∀ e ∈ (scorer.score c request l).1, e ∈ l

variable (p : MaxScoreProfile C F) (request : LLMRequest) (c : C) (candidates : List Endpoint)

/-- The endpoints that every filter has left. -/
def survivors : List Endpoint := (runFilterPlugins request p.filters c candidates).1

/-- The clamped weighted score of an endpoint among the survivors. -/
def scoreOf (e : Endpoint) : F :=
  weightedScore request (p.survivors request c candidates) e p.scorers
    (runFilterPlugins request p.filters c candidates).2 zero

/-- What the picker chooses from: the survivors with their scores. -/
def scored : List (ScoredEndpoint F) :=
  (p.toProfile.runScorerPlugins request (runFilterPlugins request p.filters c candidates).2
    (p.survivors request c candidates)).1.entries.map fun e => ⟨e.1, e.2⟩

def targets : List (ScoredEndpoint F) :=
  (p.picker.pick p.shuffle p.sort c (p.scored request c candidates)).1

variable {p request c candidates}

theorem run_result : (p.toProfile.run request c candidates).1.toOption =
    if (p.survivors request c candidates).isEmpty then none else some (p.targets request c candidates) := by
  unfold SchedulerProfile.run
  dsimp only
  rw [show (runFilterPlugins request p.toProfile.filters c candidates).1 = p.survivors request c candidates from rfl]
  split <;> rfl

theorem mem_scored (h : p.WellBehaved) {t : ScoredEndpoint F} : t ∈ p.scored request c candidates ↔
    t.endpoint ∈ p.survivors request c candidates ∧ t.score = p.scoreOf request c candidates t.endpoint := by
  have hlookup := lookup_runScorers (fun s hs c' => h.scorers s hs c' request (p.survivors request c candidates))
    t.endpoint (runFilterPlugins request p.filters c candidates).2 zero
    (Table.insertAll (p.survivors request c candidates) zero ∅)
    (by rw [lookup_insertAll, lookup_empty])
  have hentry : t ∈ p.scored request c candidates ↔ (runScorers request (p.survivors request c candidates) p.scorers
      (runFilterPlugins request p.filters c candidates).2
      (Table.insertAll (p.survivors request c candidates) zero ∅)).1.lookup t.endpoint = some t.score := by
    rw [← lookup_mem_entries, scored, List.mem_map]
    constructor
    · rintro ⟨e, he, rfl⟩; exact he
    · intro he; exact ⟨_, he, rfl⟩
  rw [hentry, hlookup]
  split
  · rename_i hmem
    simp only [hmem, true_and, Option.some.injEq]
    exact eq_comm
  · rename_i hmem
    simp [hmem]

theorem nodup_scored : ((p.scored request c candidates).map (·.endpoint)).Nodup := by
  rw [scored, map_map]
  exact keys_nodup _

theorem length_scored (h : p.WellBehaved) :
    (p.scored request c candidates).length = (p.survivors request c candidates).toFinset.card := by
  rw [← length_map (f := (·.endpoint)), ← toFinset_card_of_nodup nodup_scored]
  congr 1
  ext e
  simp only [mem_toFinset, List.mem_map]
  constructor
  · rintro ⟨t, ht, rfl⟩
    exact ((mem_scored h).1 ht).1
  · intro he
    exact ⟨⟨e, p.scoreOf request c candidates e⟩, (mem_scored h).2 ⟨he, rfl⟩, rfl⟩

/-- The targets are the highest scored of the survivors. -/
structure Picks (p : MaxScoreProfile C F) (request : LLMRequest) (c : C) (candidates : List Endpoint)
    (targets : List (ScoredEndpoint F)) : Prop where
  length : targets.length = min p.picker.maxNumOfEndpoints (p.survivors request c candidates).toFinset.card
  distinct : (targets.map (·.endpoint)).Nodup
  survive : ∀ t ∈ targets, t.endpoint ∈ p.survivors request c candidates
  filtered : ∀ e ∈ p.survivors request c candidates, e ∈ candidates
  /-- A NaN compares with nothing, and leaves the others in no order. -/
  highest : (∀ e ∈ p.survivors request c candidates, isNaN (p.scoreOf request c candidates e) = false) →
    ∀ t ∈ targets, ∀ e ∈ p.survivors request c candidates, e ∉ targets.map (·.endpoint) →
      lt (p.scoreOf request c candidates t.endpoint) (p.scoreOf request c candidates e) = false

theorem picks_targets (h : p.WellBehaved) : p.Picks request c candidates (p.targets request c candidates) where
  length := by rw [targets, length_pick, length_scored h]
  distinct := nodup_pick nodup_scored
  survive t ht := ((mem_scored h).1 (mem_of_mem_pick ht)).1
  filtered := runFilterPlugins_subset (fun f hf c l => h.filters f hf c request l) c candidates
  highest hnan t ht e he hnot := by
    have hscored : ⟨e, p.scoreOf request c candidates e⟩ ∈ p.scored request c candidates := (mem_scored h).2 ⟨he, rfl⟩
    have hnumber : ∀ i ∈ p.scored request c candidates, isNaN i.score = false := by
      intro i hi
      obtain ⟨hi, hscore⟩ := (mem_scored h).1 hi
      rw [hscore]
      exact hnan i.endpoint hi
    have hlt := pick_highest hnumber ht hscored fun hpicked => hnot (mem_map_of_mem hpicked)
    rwa [((mem_scored h).1 (mem_of_mem_pick ht)).2] at hlt

theorem targets_ne_nil (h : p.WellBehaved) (hne : p.survivors request c candidates ≠ []) :
    p.targets request c candidates ≠ [] := by
  rw [← length_pos_iff, (picks_targets h).length]
  exact lt_min p.picker.pos (Finset.card_pos.2 (toFinset_nonempty_iff _ |>.2 hne))

end MaxScoreProfile

/-! ## The loop around the handler -/

namespace Scheduler

variable {request : LLMRequest} {candidates : List Endpoint}

/-- Every profile that runs leaves a result. -/
theorem length_runPicked (l : List (Sigma fun _ : String => SchedulerProfile C F)) :
    ∀ st : ProfileRunResults F × C, l.NodupKeys → (∀ e ∈ l, e.1 ∉ st.1) →
      (runPicked request candidates l st).1.entries.length = st.1.entries.length + l.length := by
  induction l with
  | nil => intro st _ _; rfl
  | cons e l ih =>
    rintro ⟨results, c⟩ hnd hfresh
    obtain ⟨name, profile⟩ := e
    obtain ⟨hname, hnd⟩ := nodupKeys_cons.1 hnd
    have hnew : name ∉ results := hfresh ⟨name, profile⟩ (by simp)
    rw [runPicked, ih _ hnd]
    · simp only [entries_insert_of_notMem hnew, length_cons]
      omega
    · intro e he hmem
      rcases mem_insert _ |>.1 hmem with heq | hmem
      · have hkey : e.1 ∈ l.keys := mem_keys_of_mem he
        rw [heq] at hkey
        exact hname hkey
      · exact hfresh e (by simp [he]) hmem

/-- The single profile handler has every profile run once, whatever the profiles do. -/
theorem runProfiles_ends (profiles : Table String (SchedulerProfile C F)) (c : C) {fuel : ℕ} (hfuel : 2 ≤ fuel) :
    (⟨handler, profiles⟩ : Scheduler C F).runProfiles request candidates fuel (∅, c) =
      some (runPicked request candidates profiles.entries (∅, c)) := by
  obtain ⟨fuel, rfl⟩ := Nat.exists_eq_add_of_le' hfuel
  have hlen : (runPicked request candidates profiles.entries ((∅, c) : ProfileRunResults F × C)).1.entries.length =
      0 + profiles.entries.length :=
    length_runPicked profiles.entries (∅, c) profiles.nodupKeys fun e _ => notMem_empty e.1
  generalize hst : runPicked request candidates profiles.entries (∅, c) = st at hlen
  obtain ⟨results, c'⟩ := st
  rw [zero_add] at hlen
  rw [runProfiles]
  by_cases hempty : profiles.entries = []
  · -- no profile: the handler picks none at once
    rw [hempty, runPicked] at hst
    simp [handler, pick, hempty, ← hst]
  · -- all run in the first round, and the second picks none
    have hpick : pick c request profiles (∅ : ProfileRunResults F) = (profiles, c) :=
      if_neg fun h => hempty (eq_nil_of_length_eq_zero h)
    have hdone : pick c' request profiles results = (∅, c') := if_pos hlen.symm
    simp [handler, hpick, hempty, hst, runProfiles, hdone]

end Scheduler

/-- The scheduler of the single profile handler. -/
def singleProfile (profiles : Table String (MaxScoreProfile C F)) : Scheduler C F :=
  ⟨handler, Table.mapVals (fun _ p => p.toProfile) profiles⟩

variable {profiles : Table String (MaxScoreProfile C F)}

theorem schedule_single {name : String} {p : MaxScoreProfile C F} (h : profiles.entries = [⟨name, p⟩])
    (request : LLMRequest) (candidates : List Endpoint) (c : C) {fuel : ℕ} (hfuel : 2 ≤ fuel) :
    (singleProfile profiles).schedule request candidates fuel c = some
      (if (p.survivors request c candidates).isEmpty then .error ("failed to run scheduler profile '" ++ name ++ "'")
        else .ok ⟨(∅ : ProfileRunResults F).insert name (some (p.targets request c candidates)), name⟩) := by
  rw [schedule, singleProfile, runProfiles_ends _ _ hfuel, Option.map_some]
  simp only [Table.mapVals, h, map_cons, map_nil, runPicked, MaxScoreProfile.run_result]
  split <;> rfl

omit [Floats F] in
theorem processResults_not_single {results : ProfileRunResults F} (h : results.entries.length ≠ 1) (c : C)
    (request : LLMRequest) : ∃ msg, processResults c request results = .error msg := by
  unfold processResults
  split
  · rename_i heq; simp [heq] at h
  · rename_i heq; simp [heq] at h
  · exact ⟨_, rfl⟩

theorem schedule_not_single (h : profiles.entries.length ≠ 1) (request : LLMRequest) (candidates : List Endpoint)
    (c : C) :
    ∃ msg, ∀ fuel, 2 ≤ fuel → (singleProfile profiles).schedule request candidates fuel c = some (.error msg) := by
  have hlen : (runPicked request candidates (singleProfile profiles).profiles.entries
      ((∅, c) : ProfileRunResults F × C)).1.entries.length ≠ 1 := by
    rw [length_runPicked _ _ (singleProfile profiles).profiles.nodupKeys
      fun e _ => notMem_empty e.1]
    simpa [singleProfile, Table.mapVals] using h
  have hends : ∀ fuel, 2 ≤ fuel → (singleProfile profiles).runProfiles request candidates fuel (∅, c) = some _ :=
    fun fuel => runProfiles_ends (singleProfile profiles).profiles c
  generalize runPicked request candidates (singleProfile profiles).profiles.entries (∅, c) = st at hlen hends
  by_cases hempty : st.1.entries.isEmpty
  · refine ⟨"failed to run any scheduler profile for request " ++ request.requestId, fun fuel hfuel => ?_⟩
    rw [schedule, hends fuel hfuel, Option.map_some, if_pos hempty]
  · obtain ⟨msg, hmsg⟩ := processResults_not_single hlen st.2 request
    refine ⟨msg, fun fuel hfuel => ?_⟩
    rw [schedule, hends fuel hfuel, Option.map_some, if_neg hempty]
    exact congrArg some hmsg

/-- What an answer says: the targets of the one profile there is, or that there are none. -/
def Answers (profiles : Table String (MaxScoreProfile C F)) (request : LLMRequest) (candidates : List Endpoint) (c : C) :
    Except String (SchedulingResult F) → Prop
  | .error _ => ∀ name p, profiles.entries = [⟨name, p⟩] → p.survivors request c candidates = []
  | .ok result => ∃ name p targets, profiles.entries = [⟨name, p⟩] ∧ result.primaryProfileName = name ∧
      result.profileResults.lookup name = some (some targets) ∧ targets ≠ [] ∧ p.Picks request c candidates targets

theorem schedule_answers (hwell : ∀ name p, profiles.lookup name = some p → p.WellBehaved) (request : LLMRequest)
    (candidates : List Endpoint) (c : C) :
    ∃ answer, (∀ fuel, 2 ≤ fuel → (singleProfile profiles).schedule request candidates fuel c = some answer) ∧
      Answers profiles request candidates c answer := by
  by_cases hone : profiles.entries.length = 1
  · obtain ⟨⟨name, p⟩, hentries⟩ := length_eq_one_iff.1 hone
    have hp : p.WellBehaved := hwell name p (lookup_mem_entries.1 (by rw [hentries]; simp))
    refine ⟨_, fun fuel => schedule_single hentries request candidates c, ?_⟩
    by_cases hempty : p.survivors request c candidates = []
    · rw [hempty]
      intro name' p' hentries'
      rw [hentries] at hentries'
      cases hentries'
      exact hempty
    · rw [if_neg (by simpa using hempty)]
      exact ⟨name, p, p.targets request c candidates, hentries, rfl, lookup_insert _,
        MaxScoreProfile.targets_ne_nil hp hempty, MaxScoreProfile.picks_targets hp⟩
  · obtain ⟨msg, hmsg⟩ := schedule_not_single hone request candidates c
    refine ⟨.error msg, hmsg, ?_⟩
    intro name p hentries
    exact absurd (by rw [hentries]; rfl) hone

/-- A result with targets gives the director its endpoint. -/
theorem place_scheduled {G : Type} {d : Director G} {c : C}
    (hwell : ∀ name p, profiles.lookup name = some p → p.WellBehaved) (hcalls : Calls d (singleProfile profiles) c)
    (hpre : ∀ request result, d.preRequest request result = .ok ()) (request : LLMRequest) (reqCtx : RequestContext)
    (panic : Panic) : (d.place reqCtx request).2 ≠ .error (.panic panic) := by
  obtain ⟨bound, answer, hanswer, hd⟩ := hcalls request d.locate
  obtain ⟨answer', hanswer', hsays⟩ := schedule_answers hwell request (toSchedulerEndpoints d.locate) c
  have heq : answer = answer' := by
    have h := (hanswer _ (le_max_left bound 2)).symm.trans (hanswer' _ (le_max_right bound 2))
    exact Option.some.inj h
  subst heq
  unfold Director.place
  split
  · simp
  · split
    · simp
    · split
      · simp
      · rw [hd]
        cases answer with
        | error msg => simp [Except.map]
        | ok result =>
          obtain ⟨name, p, targets, -, hname, hlookup, hne, -⟩ := hsays
          obtain ⟨t, ts, rfl⟩ := exists_cons_of_ne_nil hne
          have hdirector : result.forDirector.profileResults.lookup result.forDirector.primaryProfileName =
              some (t.endpoint.metadata :: ts.map (·.endpoint.metadata)) := by
            rw [SchedulingResult.forDirector, lookup_filterMapVals, hname, hlookup]
            rfl
          have hsome : result.forDirector.profileResults.entries ≠ [] := by
            intro hnil
            exact absurd (lookup_mem_entries.2 hdirector) (by simp [hnil])
          simp [Except.map, Director.prepareRequest, hsome, hdirector, hpre]

/-! ## The result -/

/-- Endpoints scored by their place: low for the first, high for the third. -/
def byPlace (second : Option ℚ) : WeightedScorer Unit (Option ℚ) where
  score _ _ endpoints := (Table.mapVals (fun e _ =>
    if e.id = 0 then some (1 / 10) else if e.id = 1 then second else some (9 / 10)) (Table.insertAll endpoints () ∅), ())
  weight := some 1

def pickOne (second : Option ℚ) : MaxScoreProfile Unit (Option ℚ) where
  filters := []
  scorers := [byPlace second]
  picker := newMaxScorePicker 1
  shuffle := .id
  sort := .insertion

theorem pickOne_wellBehaved (second : Option ℚ) : (pickOne second).WellBehaved where
  filters filter h := by cases h
  scorers scorer h c request l e he := by
    rw [show scorer = byPlace second from mem_singleton.1 h, byPlace, mem_mapVals, mem_iff_lookup] at he
    obtain ⟨_, hlookup⟩ := he
    rw [lookup_insertAll, lookup_empty] at hlookup
    by_contra hnot
    simp [hnot] at hlookup

def threeCandidates : List EndpointMetadata := [⟨"10.0.0.1", "8000"⟩, ⟨"10.0.0.2", "8000"⟩, ⟨"10.0.0.3", "8000"⟩]

def threeEndpoints : List Endpoint := toSchedulerEndpoints threeCandidates

def someRequest : LLMRequest := ⟨"r1", "llama", false, ∅, 0, 0⟩

/-- A score that is no number keeps the sort from moving the higher one past it. -/
theorem nan_hides_highest : (pickOne none).WellBehaved ∧ ∃ result targets,
    (singleProfile (AList.singleton "default" (pickOne none))).schedule someRequest threeEndpoints 2 () =
      some (.ok result) ∧
    result.profileResults.lookup "default" = some (some targets) ∧
    ∃ t ∈ targets, ∃ e ∈ (pickOne none).survivors someRequest () threeEndpoints, e ∉ targets.map (·.endpoint) ∧
      lt ((pickOne none).scoreOf someRequest () threeEndpoints t.endpoint)
        ((pickOne none).scoreOf someRequest () threeEndpoints e) = true := by
  have hentries : (AList.singleton "default" (pickOne none) : Table _ _).entries = [⟨"default", pickOne none⟩] := rfl
  refine ⟨pickOne_wellBehaved none, _, _,
    (schedule_single hentries someRequest threeEndpoints () le_rfl).trans (congrArg some (if_neg (by decide))),
    lookup_insert _, ?_⟩
  decide +kernel

/-- Scheduling ends, with the highest scored survivors of the one profile or an error;
the director that uses the scheduler does not panic over its results. -/
theorem schedule_highest_scored (profiles : Table String (MaxScoreProfile C F))
    (hwell : ∀ name p, profiles.lookup name = some p → p.WellBehaved) (request : LLMRequest)
    (candidates : List Endpoint) (newCycleState : C) :
    (∃ answer, (∀ fuel, 2 ≤ fuel →
        (singleProfile profiles).schedule request candidates fuel newCycleState = some answer) ∧
      Answers profiles request candidates newCycleState answer) ∧
    ∀ (G : Type) (d : Director G), Calls d (singleProfile profiles) newCycleState →
      (∀ request result, d.preRequest request result = .ok ()) →
      ∀ reqCtx panic, (d.place reqCtx request).2 ≠ .error (.panic panic) := by
  refine ⟨schedule_answers hwell request candidates newCycleState, ?_⟩
  intro G d hcalls hpre reqCtx panic
  exact place_scheduled hwell hcalls hpre request reqCtx panic

def numberProfiles : Table String (MaxScoreProfile Unit (Option ℚ)) := AList.singleton "default" (pickOne (some 0))

theorem numberProfiles_wellBehaved (name : String) (p : MaxScoreProfile Unit (Option ℚ)) (h : numberProfiles.lookup name = some p) :
    p.WellBehaved := by
  have hentry := lookup_mem_entries.2 h
  rw [show numberProfiles.entries = [⟨"default", pickOne (some 0)⟩] from rfl, mem_singleton] at hentry
  cases hentry
  exact pickOne_wellBehaved _

/-- A director with the three candidates; two rounds are enough for its scheduler. -/
def numberDirector : Director Unit where
  parseRequest _ _ := .ok (.error "")
  modelRewrite _ := none
  marshal _ := none
  objectiveGet _ := none
  admission _ _ := none
  locate := threeCandidates
  admitRequest _ _ := true
  schedule request candidates :=
    (((singleProfile numberProfiles).schedule request (toSchedulerEndpoints candidates) 2 ()).getD (.error "")).map fun r =>
      some r.forDirector
  preRequest _ _ := .ok ()
  getRandomEndpoint := none
  responseBody _ _ := none

theorem numberDirector_calls : Calls numberDirector (singleProfile numberProfiles) () := by
  intro request candidates
  obtain ⟨answer, hanswer, -⟩ := schedule_answers numberProfiles_wellBehaved request (toSchedulerEndpoints candidates) ()
  refine ⟨2, answer, hanswer, ?_⟩
  simp only [numberDirector, hanswer 2 le_rfl, Option.getD_some]

/-- Three numbers, and a director that places the request by them. -/
theorem schedule_highest_scored_three :
    (∃ answer, (∀ fuel, 2 ≤ fuel → (singleProfile numberProfiles).schedule someRequest threeEndpoints fuel () = some answer) ∧
      Answers numberProfiles someRequest threeEndpoints () answer) ∧
    ∀ reqCtx panic, (numberDirector.place reqCtx someRequest).2 ≠ .error (.panic panic) := by
  obtain ⟨hanswer, hplace⟩ := schedule_highest_scored numberProfiles numberProfiles_wellBehaved someRequest threeEndpoints ()
  exact ⟨hanswer, hplace Unit numberDirector numberDirector_calls fun _ _ => rfl⟩

end InferenceGateway.Scheduling
