import InferenceGateway.Predictor.Predictions
/-!
# One result per candidate

The results are those of the candidates, each from the prediction for its own request,
exactly where the length of the answer has been compared with the requests, or agrees
with them.
-/

namespace InferenceGateway.Predictor

open Lib List

variable {F : Type} [LT F] [DecidableLT F] [Zero F] [One F] [ToString F] [Sub F] [Mul F] [Min F]
  {s : PredictedLatency F} {ctx : PredictedLatencyCtx F} {config : PredictorConfig} {server : Server F}
  {coalescing : Coalescing F}

variable {requests : List (PredictionRequest F)}

omit [LT F] [DecidableLT F] [One F] [ToString F] [Sub F] [Mul F] [Min F] in
theorem buildRequests_length {label : String} : ∀ {cs : List (Candidate F)} {i : Nat},
    buildRequests label i cs = .ok requests → requests.length = cs.length := by
  intro cs
  induction cs generalizing requests with
  | nil => intro i h; cases h; rfl
  | cons c cs ih =>
    intro i h
    unfold buildRequests at h
    split at h
    · cases h
    · cases hb : buildRequests label (i + 1) cs with
      | error j => rw [hb] at h; cases h
      | ok rs =>
        rw [hb] at h
        cases h
        exact congrArg (· + 1) (ih hb)

omit [LT F] [DecidableLT F] [Zero F] [One F] [ToString F] [Sub F] [Mul F] [Min F] in
theorem prepare_returns {e : Endpoint F} : Returns (prepare s ctx e) ↔ e.metadata.isSome := by
  unfold prepare
  cases e.metadata with
  | none => exact ⟨nofun, nofun⟩
  | some m => exact ⟨fun _ => rfl, fun _ => returns_ok _⟩

variable {results : List (PredictionResponse F)}

omit [Sub F] [Mul F] [Min F] in
/-- What is returned for the requests is what the server predicts for each; with coalescing
on it has been cut to their number, and otherwise it is the answer as it came. -/
theorem predictBulkStrict_ok (h : predictBulkStrict config server coalescing requests = .ok results) :
    refusal config requests = none ∧
      (∀ i < requests.length, predictionFor config server coalescing requests i = results[i]?) ∧
      (config.coalesceWindow > 0 → results.length = requests.length) ∧
      (¬ config.coalesceWindow > 0 → server requests = .ok results) := by
  unfold predictBulkStrict at h
  split at h
  · cases h
  · rename_i href
    refine ⟨href, ?_⟩
    unfold predictionFor
    split at h
    · rename_i hw
      obtain ⟨earlier, later, answer, rfl, hs, hlen, rfl⟩ := submitCoalesced_ok h
      refine ⟨fun i hi => ?_, fun _ => hlen, fun hno => absurd hw hno⟩
      rw [if_pos hw]
      simp only [hs, Except.toOption, Option.bind_some]
      rw [List.getElem?_take_of_lt hi, List.getElem?_drop]
    · rename_i hw
      refine ⟨fun i _ => ?_, fun hyes => absurd hyes hw, fun _ => h⟩
      rw [if_neg hw, h]
      rfl

variable {cs : List (Candidate F)}

omit [Sub F] [Mul F] [Min F] in
/-- The three ways in which the call for the candidates ends. -/
theorem bulkPredictWithMetrics_cases (coalescing : Coalescing F) (hcs : cs ≠ []) :
    (∃ err, bulkPredictWithMetrics s config server coalescing cs = .ok (.error err) ∧
      ∀ requests answer, buildRequests s.endpointRoleLabel 0 cs = .ok requests → refusal config requests = none →
        server requests = .ok answer → config.coalesceWindow > 0) ∨
    ∃ requests results, buildRequests s.endpointRoleLabel 0 cs = .ok requests ∧
      predictBulkStrict config server coalescing requests = .ok results ∧
      (Returns (bulkPredictWithMetrics s config server coalescing cs) ↔ (s.trace → results.length ≤ cs.length)) ∧
      ∀ r, bulkPredictWithMetrics s config server coalescing cs = .ok r → r = .ok results := by
  unfold bulkPredictWithMetrics
  rw [if_neg (mt length_eq_zero_iff.1 hcs)]
  cases hb : buildRequests s.endpointRoleLabel 0 cs with
  | error i => exact .inl ⟨_, rfl, nofun⟩
  | ok requests =>
    have hlen := buildRequests_length hb
    cases hp : predictBulkStrict config server coalescing requests with
    | error err =>
      refine .inl ⟨err, by simp only [hp], fun requests' answer hreq href hs => ?_⟩
      cases hreq
      by_contra hw
      simp only [predictBulkStrict, href, if_neg hw, hs] at hp
      cases hp
    | ok results =>
      refine .inr ⟨requests, results, rfl, hp, ?_⟩
      simp only [hp]
      cases ht : s.trace with
      | false => simp
      | true =>
        rw [if_pos rfl, returns_map, forRange_index_returns, hlen]
        refine ⟨by simp, fun r hr => ?_⟩
        obtain ⟨-, -, hr⟩ := map_ok hr
        exact hr.symm

/-- In one of the two cases nothing comes back; in the other there is a result for each
candidate, from the prediction that has its index. -/
theorem generatePredictions_cases {es : List (Endpoint F)} (hcs : forRange (fun _ e => prepare s ctx e) 0 es = .ok cs)
    (hbulk : bulkPredictWithMetrics s config server coalescing cs = .ok (.ok results)) :
    (Returns (generatePredictions s ctx config server coalescing es) ↔ es.length ≤ results.length) ∧
      ∀ r, generatePredictions s ctx config server coalescing es = .ok r → ∃ ys, r = .ok ys ∧ ys.length = es.length ∧
        ∀ (i : Nat) e, es[i]? = some e → ∃ c prediction, prepare s ctx e = .ok c ∧ results[i]? = some prediction ∧
          ys[i]? = some (resultOf s ctx e c prediction) := by
  obtain ⟨hlen, hget⟩ := forRange_ok hcs
  have hzip : (es.zip cs).length = es.length := by rw [length_zip, hlen, Nat.min_self]
  simp only [generatePredictions, hcs, ok_bind, hbulk]
  refine ⟨by rw [returns_map, forRange_index_returns, hzip], fun r hr => ?_⟩
  obtain ⟨ys, hys, rfl⟩ := map_ok hr
  obtain ⟨hylen, hy⟩ := forRange_ok hys
  refine ⟨ys, rfl, hylen.trans hzip, fun i e he => ?_⟩
  obtain ⟨c, hc, hprep⟩ := hget i e he
  have hpair : (es.zip cs)[i]? = some (e, c) := by rw [List.getElem?_zip_eq_some]; exact ⟨he, hc⟩
  obtain ⟨y, hyi, hf⟩ := hy i (e, c) hpair
  obtain ⟨prediction, hp, rfl⟩ := map_ok hf
  rw [Nat.zero_add] at hp
  exact ⟨c, prediction, hprep, index_eq_ok.1 hp, hyi⟩

/-- Where something comes back from the call for the candidates, all hangs on its length. -/
theorem onePerCandidate_iff {es : List (Endpoint F)} (hcs : forRange (fun _ e => prepare s ctx e) 0 es = .ok cs)
    (hbuild : buildRequests s.endpointRoleLabel 0 cs = .ok requests)
    (hstrict : predictBulkStrict config server coalescing requests = .ok results)
    (hret : Returns (bulkPredictWithMetrics s config server coalescing cs) ↔ (s.trace → results.length ≤ cs.length))
    (hval : ∀ r, bulkPredictWithMetrics s config server coalescing cs = .ok r → r = .ok results) :
    OnePerCandidate s ctx config server coalescing es (generatePredictions s ctx config server coalescing es) ↔
      es.length ≤ results.length ∧ (s.trace → results.length ≤ es.length) := by
  have hlen := (forRange_ok hcs).1
  have hbulk : (s.trace → results.length ≤ es.length) → bulkPredictWithMetrics s config server coalescing cs = .ok (.ok results) := by
    intro ht
    obtain ⟨r, hr⟩ := hret.2 (hlen ▸ ht)
    rw [hr, hval r hr]
  constructor
  · rintro ⟨r, hr, -⟩
    have ht : s.trace → results.length ≤ es.length := by
      rw [← hlen, ← hret]
      have hall : Returns (generatePredictions s ctx config server coalescing es) := ⟨r, hr⟩
      simp only [generatePredictions, hcs, ok_bind, returns_bind] at hall
      obtain ⟨x, hx, -⟩ := hall
      exact ⟨x, hx⟩
    exact ⟨(generatePredictions_cases hcs (hbulk ht)).1.1 ⟨r, hr⟩, ht⟩
  · rintro ⟨hle, ht⟩
    obtain ⟨hgen, hys⟩ := generatePredictions_cases hcs (hbulk ht)
    obtain ⟨r, hr⟩ := hgen.2 hle
    obtain ⟨ys, rfl, hylen, hy⟩ := hys r hr
    refine ⟨_, hr, fun ys' hys' => ?_⟩
    cases hys'
    refine ⟨hylen, fun i e he => ?_⟩
    obtain ⟨c, prediction, hc, hp, hyi⟩ := hy i e he
    have hi : i < requests.length := by
      rw [buildRequests_length hbuild, hlen]
      exact (List.getElem?_eq_some_iff.1 he).1
    refine ⟨requests, c, prediction, ?_, hc, ?_, hyi⟩
    · simp only [requestsFor, hcs, Except.toOption, Option.bind_some, hbuild]
    · rw [(predictBulkStrict_ok hstrict).2.1 i hi, hp]

/-- For every list of candidates and every server, with or without coalescing, generating
predictions gives an error or one result per candidate, in their order and each from the
prediction for its own request, exactly where the answer matches. -/
theorem generatePredictions_onePerCandidate_iff (s : PredictedLatency F) (ctx : PredictedLatencyCtx F) (config : PredictorConfig)
    (server : Server F) (coalescing : Coalescing F) (es : List (Endpoint F)) :
    OnePerCandidate s ctx config server coalescing es (generatePredictions s ctx config server coalescing es) ↔
      Matched s ctx config server es := by
  by_cases hmeta : ∀ e ∈ es, e.metadata.isSome
  · obtain ⟨cs, hcs⟩ : Returns (forRange (fun _ e => prepare s ctx e) 0 es) :=
      forRange_returns.2 fun j e he => prepare_returns.2 (hmeta e (mem_of_getElem? he))
    have hlen := (forRange_ok hcs).1
    have hreq : requestsFor s ctx es = (buildRequests s.endpointRoleLabel 0 cs).toOption := by
      simp only [requestsFor, hcs, Except.toOption, Option.bind_some]
    rw [Matched, and_iff_right hmeta]
    by_cases hnil : cs = []
    · -- no candidates: nothing is sent
      subst hnil
      have hes : es = [] := length_eq_zero_iff.1 hlen.symm
      subst hes
      refine ⟨fun _ => .inr fun requests answer hr href => ?_, fun _ => ⟨.ok [], rfl, fun ys hys => ?_⟩⟩
      · cases hr
        cases href
      · cases hys
        exact ⟨rfl, nofun⟩
    · rcases bulkPredictWithMetrics_cases coalescing hnil with ⟨err, hb, hsent⟩ | ⟨requests, results, hbuild, hstrict, hret, hval⟩
      · refine ⟨fun _ => ?_, fun _ => ⟨.error err, ?_, nofun⟩⟩
        · refine or_iff_not_imp_left.2 fun hw requests answer hr href hs => ?_
          rw [hreq] at hr
          cases hb' : buildRequests s.endpointRoleLabel 0 cs with
          | error i => rw [hb'] at hr; cases hr
          | ok requests' =>
            rw [hb'] at hr
            cases hr
            exact absurd (hsent requests answer hb' href hs) hw
        · simp only [generatePredictions, hcs, ok_bind, hb]
      · obtain ⟨href, -, hco, hdirect⟩ := predictBulkStrict_ok hstrict
        rw [onePerCandidate_iff hcs hbuild hstrict hret hval]
        by_cases hw : config.coalesceWindow > 0
        · have hsame : results.length = es.length := by rw [hco hw, buildRequests_length hbuild, hlen]
          exact ⟨fun _ => .inl hw, fun _ => ⟨hsame.ge, fun _ => hsame.le⟩⟩
        · rw [or_iff_right hw]
          constructor
          · intro h requests' answer hr _ hs
            rw [hreq, hbuild] at hr
            cases hr
            rw [hdirect hw] at hs
            cases hs
            exact h
          · exact fun h => h requests results (by rw [hreq, hbuild]; rfl) href (hdirect hw)
  · -- an endpoint without metadata stops the first loop
    refine ⟨fun ⟨r, hr, _⟩ => absurd ?_ hmeta, fun h => absurd h.1 hmeta⟩
    have hall : Returns (generatePredictions s ctx config server coalescing es) := ⟨r, hr⟩
    obtain ⟨cs, hcs, -⟩ := returns_bind.1 hall
    intro e he
    obtain ⟨j, hj⟩ := List.getElem?_of_mem he
    exact prepare_returns.1 (forRange_returns.1 ⟨cs, hcs⟩ j e hj)

/-- Two endpoints and a plugin without objectives, over the integers. -/
def twoEndpoints : List (Endpoint Int) :=
  [⟨some ⟨⟨"default", "a"⟩, []⟩, some ⟨0, 0, 0⟩⟩, ⟨some ⟨⟨"default", "b"⟩, []⟩, some ⟨1, 2, 3⟩⟩]

def plainPlugin : PredictedLatency Int where
  endpointRoleLabel := ""
  streamingMode := true
  sloBufferFactor := 1
  prefillTokensInFlight _ := 0
  endpointMinTPOTSLO _ := 0
  trace := false

def plainRequest : PredictedLatencyCtx Int where
  promptText := "one two"
  ttftSLO := 100
  avgTPOTSLO := 10
  prefixCacheScoresForEndpoints _ := 0

/-- A server that answers two requests with one prediction. -/
theorem generatePredictions_short_answer :
    generatePredictions plainPlugin plainRequest ⟨100, 0⟩ (fun _ => .ok [⟨50, 5⟩]) (.abandoned "") twoEndpoints =
      .error .indexOutOfRange := by
  decide +kernel

end InferenceGateway.Predictor
