import InferenceGateway.Datastore.Precedence
import InferenceGateway.Lib.Draws
/-!
# Draws among the targets of a rewrite

`selectWeightedModel` of `director.go`. The weights are summed up in 32 bits. As long as the
sum fits, the targets are drawn in proportion to their weights. The API bounds each weight
but not the number of targets: with enough of them the sum wraps around, and the draw
panics, or falls to targets it should not fall to.
-/

namespace InferenceGateway.RequestControl

open Lib Datastore List

def totalWeight (models : List TargetModel) : Int32 := models.foldl (fun total model => total + model.weight) 0

/-- The loop over the models, with the sum of the weights so far. -/
def pickModel (randomNum : ℕ) : Int32 → List TargetModel → Option TargetModel
  | _, [] => none
  | currentWeight, model :: models =>
    let currentWeight := currentWeight + model.weight
    if randomNum < currentWeight.toInt then some model else pickModel randomNum currentWeight models

def selectWeightedModel (models : List TargetModel) (draw : ℕ) : Except DrawPanic String :=
  if models.length = 0 then .ok ""
  else if totalWeight models = 0 then do
    let i ← intn models.length draw
    let model ← element models i
    pure model.modelRewrite
  else do
    let randomNum ← intn (totalWeight models).toInt draw
    match pickModel randomNum 0 models with
    | some model => pure model.modelRewrite
    | none =>
      let model ← element models (models.length - 1)
      pure model.modelRewrite

/-- The new target, where `rewriteRule` is what the store has for the incoming model. -/
def applyWeightedModelRewrite (rewriteRule : Option (InferenceModelRewriteRule × String)) (targetModelName : String) (draw : ℕ) :
    Except DrawPanic String :=
  match rewriteRule with
  | none => .ok targetModelName
  | some (rule, _) => selectWeightedModel rule.targets draw

/-! ## Sums that fit -/

def weightOf (model : TargetModel) : Int := model.weight.toInt

/-- A weight that the API admits, or none. -/
def Admitted (model : TargetModel) : Prop := 0 ≤ weightOf model ∧ weightOf model ≤ 1000000

instance (model : TargetModel) : Decidable (Admitted model) := inferInstanceAs (Decidable (_ ∧ _))

variable {models : List TargetModel}

theorem sum_weightOf_nonneg (h : ∀ model ∈ models, Admitted model) : 0 ≤ (models.map weightOf).sum := by
  apply sum_nonneg
  intro w hw
  obtain ⟨model, hmodel, rfl⟩ := List.mem_map.1 hw
  exact (h model hmodel).1

theorem toInt_add_weight {current : Int32} {model : TargetModel} (h0 : 0 ≤ current.toInt) (hw : Admitted model)
    (hfit : current.toInt + weightOf model < 2 ^ 31) : (current + model.weight).toInt = current.toInt + weightOf model := by
  have hpos := hw.1
  rw [Int32.toInt_add]
  apply Int.bmod_eq_of_le
  · unfold weightOf at hpos
    omega
  · unfold weightOf at hfit
    omega

theorem toInt_foldl (models : List TargetModel) : ∀ current : Int32,
    (models.foldl (fun total model => total + model.weight) current).toInt =
      (current.toInt + (models.map weightOf).sum).bmod (2 ^ 32) := by
  induction models with
  | nil =>
    intro current
    rw [foldl_nil, map_nil, sum_nil, add_zero]
    exact (Int32.toInt_bmod current).symm
  | cons model models ih =>
    intro current
    rw [foldl_cons, ih, Int32.toInt_add, Int.bmod_add_bmod, map_cons, sum_cons, add_assoc]
    rfl

/-- The total is the sum of the weights, as far as 32 bits hold it. -/
theorem toInt_totalWeight (models : List TargetModel) :
    (totalWeight models).toInt = (models.map weightOf).sum.bmod (2 ^ 32) := by
  rw [totalWeight, toInt_foldl]
  simp

theorem totalWeight_eq (hw : ∀ model ∈ models, Admitted model) (hfit : (models.map weightOf).sum < 2 ^ 31) :
    (totalWeight models).toInt = (models.map weightOf).sum := by
  have hpos := sum_weightOf_nonneg hw
  rw [toInt_totalWeight]
  exact Int.bmod_eq_of_le (by omega) (by omega)

/-- The running sum against the number is what is left of the number against the weight. -/
theorem pickModel_eq (randomNum : ℕ) (models : List TargetModel) : ∀ {current : Int32}, 0 ≤ current.toInt →
    (∀ model ∈ models, Admitted model) → current.toInt + (models.map weightOf).sum < 2 ^ 31 →
    pickModel randomNum current models = scanWeights weightOf models (randomNum - current.toInt) := by
  induction models with
  | nil => simp [pickModel, scanWeights]
  | cons model models ih =>
    intro current h0 hw hfit
    rw [map_cons, sum_cons] at hfit
    have hmodel := hw model mem_cons_self
    have hmodels : ∀ m ∈ models, Admitted m := fun m hm => hw m (mem_cons_of_mem _ hm)
    have hrest := sum_weightOf_nonneg hmodels
    have hpos := hmodel.1
    have hadd := toInt_add_weight h0 hmodel (by omega)
    rw [pickModel, scanWeights, hadd, ih (by omega) hmodels (by omega), hadd, Int.sub_sub]
    by_cases hlt : (randomNum : Int) < current.toInt + weightOf model
    · rw [if_pos hlt, if_pos (by omega)]
    · rw [if_neg hlt, if_neg (by omega)]

/-! ## The draws -/

theorem selectWeightedModel_even (hne : models ≠ []) (htotal : totalWeight models = 0) (draw : ℕ) :
    ∃ model ∈ models, selectWeightedModel models draw = .ok model.modelRewrite := by
  have hlen := length_pos_iff.2 hne
  have hlt : draw % models.length < models.length := Nat.mod_lt _ hlen
  have hintn : intn models.length draw = .ok (draw % models.length) := by
    rw [intn, if_pos (by omega), Int.toNat_natCast]
  refine ⟨models[draw % models.length], getElem_mem hlt, ?_⟩
  rw [selectWeightedModel, if_neg (by omega), if_pos htotal, hintn]
  simp [element_ok (List.getElem?_eq_getElem hlt)]

theorem selectWeightedModel_picks {model : TargetModel} {draw : ℕ} (hne : models ≠ []) (htotal : totalWeight models ≠ 0)
    (hpos : 0 < (totalWeight models).toInt)
    (hpick : pickModel (draw % (totalWeight models).toInt.toNat) 0 models = some model) :
    selectWeightedModel models draw = .ok model.modelRewrite := by
  have hlen := length_pos_iff.2 hne
  rw [selectWeightedModel, if_neg (by omega), if_neg htotal, intn, if_pos hpos]
  simp only [Bind.bind, Except.bind, hpick]
  rfl

/-- With sums that fit, the loop is the scan of the weights. -/
theorem pickModel_shares (hw : ∀ model ∈ models, Admitted model) (hfit : (models.map weightOf).sum < 2 ^ 31) :
    ∃ own : ℕ → ℕ, Shares (models.map fun model => (weightOf model).toNat) (totalWeight models).toInt.toNat own ∧
      ∀ r < (totalWeight models).toInt.toNat, ∃ model, models[own r]? = some model ∧ pickModel r 0 models = some model := by
  obtain ⟨own, hshares, hscan⟩ := scanWeights_shares fun model hmodel => (hw model hmodel).1
  rw [← totalWeight_eq hw hfit] at hshares hscan
  refine ⟨own, hshares, fun r hr => ?_⟩
  obtain ⟨model, hmodel, hfound⟩ := hscan r hr
  refine ⟨model, hmodel, ?_⟩
  rw [pickModel_eq r models (by decide) hw (by simpa using hfit), ← hfound]
  simp

theorem selectWeightedModel_mem (hne : models ≠ []) (hw : ∀ model ∈ models, Admitted model)
    (hfit : (models.map weightOf).sum < 2 ^ 31) (draw : ℕ) :
    ∃ model ∈ models, selectWeightedModel models draw = .ok model.modelRewrite := by
  by_cases hzero : totalWeight models = 0
  · exact selectWeightedModel_even hne hzero draw
  · have hpos : 0 < (totalWeight models).toInt := by
      have hnonneg : 0 ≤ (totalWeight models).toInt := totalWeight_eq hw hfit ▸ sum_weightOf_nonneg hw
      rcases hnonneg.lt_or_eq with hlt | heq
      · exact hlt
      · exact absurd (Int32.toInt_inj.1 heq.symm) hzero
    obtain ⟨own, -, hpick⟩ := pickModel_shares hw hfit
    obtain ⟨model, hmodel, hfound⟩ := hpick (draw % (totalWeight models).toInt.toNat) (Nat.mod_lt _ (by omega))
    exact ⟨model, mem_of_getElem? hmodel, selectWeightedModel_picks hne hzero hpos hfound⟩

/-- How many numbers are drawn from: one for each model if the total is zero. -/
def drawRange (models : List TargetModel) : ℕ :=
  if totalWeight models = 0 then models.length else (totalWeight models).toInt.toNat

/-- The model that a number selects without the fallback to the last one. -/
def modelOf (models : List TargetModel) (r : ℕ) : Option TargetModel :=
  if totalWeight models = 0 then models[r]? else pickModel r 0 models

/-- The selection returns for every draw. If some weight is positive, each number that is drawn is of one target with a
positive weight, which it selects without the fallback, and each target has as many numbers as its weight. -/
def Weighted (models : List TargetModel) : Prop :=
  (∀ draw, ∃ name, selectWeightedModel models draw = .ok name) ∧
    ((∃ model ∈ models, 0 < weightOf model) → ∃ own : ℕ → ℕ,
      Shares (models.map fun model => (weightOf model).toNat) (drawRange models) own ∧
      ∀ r < drawRange models, ∃ model, models[own r]? = some model ∧ 0 < weightOf model ∧
        modelOf models r = some model ∧ selectWeightedModel models r = .ok model.modelRewrite)

theorem exists_heavy (hw : ∀ model ∈ models, Admitted model) (hsum : 0 < (models.map weightOf).sum) :
    ∃ model ∈ models, 0 < weightOf model := by
  by_contra! hlight
  have hzero : (models.map weightOf).sum = 0 := by
    refine sum_eq_zero fun w hmem => ?_
    obtain ⟨model, hmodel, rfl⟩ := List.mem_map.1 hmem
    exact le_antisymm (hlight model hmodel) (hw model hmodel).1
  omega

theorem ones_of_sum (hpos : ∀ model ∈ models, 0 < weightOf model) : (models.length : Int) ≤ (models.map weightOf).sum ∧
    ((models.map weightOf).sum = models.length → ∀ model ∈ models, weightOf model = 1) := by
  induction models with
  | nil => simp
  | cons model models ih =>
    obtain ⟨hle, hones⟩ := ih fun m hm => hpos m (mem_cons_of_mem _ hm)
    have hmodel := hpos model mem_cons_self
    rw [map_cons, sum_cons, length_cons, Nat.cast_add, Nat.cast_one]
    refine ⟨by omega, fun hsum m hm => ?_⟩
    rcases mem_cons.1 hm with rfl | hm
    · omega
    · exact hones (by omega) m hm

theorem weighted_of_fits (hne : models ≠ []) (hw : ∀ model ∈ models, Admitted model)
    (hfit : (models.map weightOf).sum < 2 ^ 31) : Weighted models := by
  refine ⟨fun draw => ?_, ?_⟩
  · obtain ⟨model, -, hselect⟩ := selectWeightedModel_mem hne hw hfit draw
    exact ⟨_, hselect⟩
  · rintro ⟨heavy, hheavy, hweight⟩
    have hpos : 0 < (totalWeight models).toInt := by
      rw [totalWeight_eq hw hfit]
      refine lt_of_lt_of_le hweight (single_le_sum ?_ _ (mem_map_of_mem hheavy))
      intro w hw'
      obtain ⟨model, hmodel, rfl⟩ := List.mem_map.1 hw'
      exact (hw model hmodel).1
    have hzero : totalWeight models ≠ 0 := by
      intro hzero
      rw [hzero] at hpos
      cases hpos
    obtain ⟨own, hshares, hpick⟩ := pickModel_shares hw hfit
    simp only [drawRange, modelOf, if_neg hzero]
    refine ⟨own, hshares, fun r hr => ?_⟩
    obtain ⟨model, hmodel, hfound⟩ := hpick r hr
    have hsome : 0 < (weightOf model).toNat := hshares.pos hr (by rw [List.getElem?_map, hmodel]; rfl)
    refine ⟨model, hmodel, by omega, hfound, selectWeightedModel_picks hne hzero hpos ?_⟩
    rw [Nat.mod_eq_of_lt hr, hfound]

/-- When the total is zero every target has one draw, which is right if all have the weight one. -/
theorem weighted_of_ones (hne : models ≠ []) (hzero : totalWeight models = 0) (hones : ∀ model ∈ models, weightOf model = 1) :
    Weighted models := by
  refine ⟨fun draw => ?_, fun _ => ⟨id, ⟨fun r hr => ?_, fun i w hi => ?_⟩, fun r hr => ?_⟩⟩
  · obtain ⟨model, -, hselect⟩ := selectWeightedModel_even hne hzero draw
    exact ⟨_, hselect⟩
  · rw [drawRange, if_pos hzero] at hr
    rwa [length_map]
  · rw [List.getElem?_map, Option.map_eq_some_iff] at hi
    obtain ⟨model, hmodel, rfl⟩ := hi
    have hlt : i < models.length := (List.getElem?_eq_some_iff.1 hmodel).1
    rw [hones model (mem_of_getElem? hmodel), drawRange, if_pos hzero]
    simp [Finset.filter_eq', hlt]
  · rw [drawRange, if_pos hzero] at hr
    have hmodel := List.getElem?_eq_getElem hr
    refine ⟨models[r], hmodel, by rw [hones _ (getElem_mem hr)]; decide, by rw [modelOf, if_pos hzero, hmodel], ?_⟩
    rw [selectWeightedModel, if_neg (by omega), if_pos hzero, intn_ok (by omega)]
    simp [element_ok hmodel]

/-- The targets are drawn in proportion to their weights if and only if the sum of the weights is below `2^31`, or a
multiple of `2^32` in which every weight is one. -/
theorem selectWeightedModel_shares_iff (models : List TargetModel) (hne : models ≠ []) (hw : ∀ model ∈ models, Admitted model) :
    Weighted models ↔ (models.map weightOf).sum < 2 ^ 31 ∨
      (2 ^ 32 ∣ (models.map weightOf).sum ∧ ∀ model ∈ models, weightOf model = 1) := by
  have hlen := length_pos_iff.2 hne
  constructor
  · rintro ⟨hreturns, hshares⟩
    by_contra! hbig
    obtain ⟨hbig, hones⟩ := hbig
    obtain ⟨own, hown, hmodels⟩ := hshares (exists_heavy hw (by omega))
    have htotal : (models.map weightOf).sum = drawRange models := by
      rw [sum_toNat fun model hmodel => (hw model hmodel).1, ← hown.total_eq]
    by_cases hzero : totalWeight models = 0
    · -- one draw for each target, and all of them have a weight
      rw [drawRange, if_pos hzero] at htotal hmodels
      have hdvd : 2 ^ 32 ∣ (models.map weightOf).sum := by
        have hwrapped := toInt_totalWeight models
        rw [hzero] at hwrapped
        exact Int.dvd_of_bmod_eq_zero hwrapped.symm
      have hpos : ∀ model ∈ models, 0 < weightOf model := by
        intro model hmodel
        obtain ⟨r, hr, rfl⟩ := mem_iff_getElem.1 hmodel
        obtain ⟨m, -, hm, hselected, -⟩ := hmodels r hr
        rw [modelOf, if_pos hzero, List.getElem?_eq_getElem hr, Option.some.injEq] at hselected
        rwa [hselected]
      obtain ⟨model, hmodel, hother⟩ := hones hdvd
      exact hother ((ones_of_sum hpos).2 htotal model hmodel)
    · rw [drawRange, if_neg hzero] at htotal
      have hlt := Int32.toInt_lt (totalWeight models)
      omega
  · rintro (hfit | ⟨hdvd, hones⟩)
    · exact weighted_of_fits hne hw hfit
    · refine weighted_of_ones hne (Int32.toInt_inj.1 ?_) hones
      rw [toInt_totalWeight, Int.bmod_eq_zero_of_dvd hdvd]
      rfl

/-- Three targets, one of them without weight. -/
theorem selectWeightedModel_shares_iff_three :
    ∃ own : ℕ → ℕ, Shares [3, 0, 1] 4 own ∧ ∀ r < 4, ∃ model,
      ([⟨3, "a"⟩, ⟨0, "b"⟩, ⟨1, "c"⟩] : List TargetModel)[own r]? = some model ∧
      selectWeightedModel [⟨3, "a"⟩, ⟨0, "b"⟩, ⟨1, "c"⟩] r = .ok model.modelRewrite := by
  obtain ⟨-, hweighted⟩ := (selectWeightedModel_shares_iff [⟨3, "a"⟩, ⟨0, "b"⟩, ⟨1, "c"⟩] (by decide) (by decide)).2
    (.inl (by decide))
  obtain ⟨own, hshares, hselect⟩ := hweighted ⟨_, mem_cons_self, by decide⟩
  refine ⟨own, hshares, fun r hr => ?_⟩
  obtain ⟨model, hmodel, -, -, hselected⟩ := hselect r hr
  exact ⟨model, hmodel, hselected⟩

/-- As many targets of the largest weight as it takes: the sum is negative, and every draw panics. -/
theorem selectWeightedModel_panics :
    (∀ model ∈ List.replicate 2148 (⟨1000000, "a"⟩ : TargetModel), Admitted model) ∧
    ∀ draw, selectWeightedModel (List.replicate 2148 ⟨1000000, "a"⟩) draw = .error .emptyRange := by
  refine ⟨fun model hmodel => ?_, fun draw => ?_⟩
  · rw [eq_of_mem_replicate hmodel]
    decide
  · have htotal : (totalWeight (List.replicate 2148 ⟨1000000, "a"⟩)).toInt = -2146967296 := by decide +kernel
    have hne : totalWeight (List.replicate 2148 ⟨1000000, "a"⟩) ≠ 0 := by
      intro hzero
      rw [hzero] at htotal
      cases htotal
    rw [selectWeightedModel, if_neg (by rw [length_replicate]; decide), if_neg hne, htotal]
    rfl

/-! ## Rewrites that come and go -/

/-- There are targets, and the sum of their weights fits. -/
abbrev Drawable (models : List TargetModel) : Prop :=
  models ≠ [] ∧ (∀ model ∈ models, Admitted model) ∧ (models.map weightOf).sum < 2 ^ 31

open ModelRewriteStore in
/-- After every history of sets and deletes, if targets can be drawn from each rule that is stored: the model is rewritten
to a target of a stored rule, a generic one only if none is for the model, and stays as it is if there is no rule. -/
theorem rewritten_to_stored_target {x : Session} (h : Runs Session.step (fun _ _ => True) .new x)
    (hweights : ∀ name rw, x.present.lookup name = some rw → ∀ rule ∈ rw.rules, Drawable rule.targets)
    (incoming target : String) (draw : ℕ) :
    ∃ selected, applyWeightedModelRewrite (x.store.getRule incoming) target draw = .ok selected ∧
      (selected = target ∧ ¬ Offered x.present (some incoming) ∧ ¬ Offered x.present none ∨
        ∃ name rw rule, x.present.lookup name = some rw ∧ rule ∈ rw.rules ∧ (∃ model ∈ rule.targets, selected = model.modelRewrite) ∧
          (rule.InClass (some incoming) ∨ ¬ Offered x.present (some incoming) ∧ rule.InClass none)) := by
  have hs := Session.sorted_of_runs h
  have hselect : ∀ c r, (x.store.rulesOf c).head? = some r → ∃ rw, x.present.lookup r.parentRewriteName = some rw ∧
      r.rule ∈ rw.rules ∧ r.rule.InClass c ∧ ∃ model ∈ r.rule.targets, selectWeightedModel r.rule.targets draw = .ok model.modelRewrite := by
    intro c r hr
    obtain ⟨hclass, rw, hrw, hmem⟩ := (hs.rules c r).1 (mem_of_head? hr)
    have hrule := (Session.mem_rulesWithMetadata hmem).1
    obtain ⟨hne, hw, hfit⟩ := hweights _ rw hrw _ hrule
    exact ⟨rw, hrw, hrule, hclass, selectWeightedModel_mem hne hw hfit draw⟩
  have hnone : ∀ c, (x.store.rulesOf c).head? = none → ¬ Offered x.present c := by
    intro c hc
    rw [hs.offered_iff, not_not]
    exact List.head?_eq_none_iff.1 hc
  rw [getRule_eq]
  cases hexact : (x.store.rulesOf (some incoming)).head? with
  | some r =>
    obtain ⟨rw, hrw, hrule, hclass, model, hmodel, hselected⟩ := hselect _ r hexact
    exact ⟨_, hselected, .inr ⟨_, rw, _, hrw, hrule, ⟨model, hmodel, rfl⟩, .inl hclass⟩⟩
  | none =>
    cases hgeneric : (x.store.rulesOf none).head? with
    | some r =>
      obtain ⟨rw, hrw, hrule, hclass, model, hmodel, hselected⟩ := hselect _ r hgeneric
      exact ⟨_, hselected, .inr ⟨_, rw, _, hrw, hrule, ⟨model, hmodel, rfl⟩, .inr ⟨hnone _ hexact, hclass⟩⟩⟩
    | none => exact ⟨target, rfl, .inl ⟨rfl, hnone _ hexact, hnone _ hgeneric⟩⟩

open Session in
theorem rewritten_to_stored_target_older : ∃ x : Session, Runs step (fun _ _ => True) new x ∧
    ∃ selected, applyWeightedModelRewrite (x.store.getRule "m") "m" 7 = .ok selected :=
  exists_runs [.set younger steady, .set older steady]
    (fun x => ∀ e ∈ x.present.entries, ∀ rule ∈ e.2.rules, Drawable rule.targets) (by decide +kernel) fun x hrun hx =>
      (rewritten_to_stored_target hrun (fun _ _ hrw => hx _ (Table.lookup_mem_entries.2 hrw)) "m" "m" 7).imp fun _ h => h.1

end InferenceGateway.RequestControl
