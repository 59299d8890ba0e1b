import InferenceGateway.Lib.Runs
import InferenceGateway.Lib.Table
/-!
# The store of model rewrites

`modelrewritestore.go`. The rules of all rewrites are kept in one list for the generic
ones and one for each model, sorted by the age of their rewrites; the first of a list
wins. `sort.Slice` gives a sorted permutation and no more: rules of the same age may
change places, as those of one rewrite are.
-/

namespace InferenceGateway.Datastore

open Lib List

structure TargetModel where
  weight : Int32
  modelRewrite : String
deriving DecidableEq

structure InferenceModelRewriteRule where
  /-- `Matches`: of each the model that it asks for, if it asks for one. -/
  criteria : List (Option String)
  targets : List TargetModel
deriving DecidableEq

structure InferenceModelRewrite where
  name : String
  creationTimestamp : Int
  rules : List InferenceModelRewriteRule
deriving DecidableEq

structure RewriteRuleWithMetadata where
  rule : InferenceModelRewriteRule
  createTimestamp : Int
  parentRewriteName : String
deriving DecidableEq

namespace InferenceModelRewriteRule

def isGeneric (rule : InferenceModelRewriteRule) : Bool := rule.criteria = []

/-- A set in the source. -/
def exactModels (rule : InferenceModelRewriteRule) : List String := (rule.criteria.filterMap id).dedup

/-- Among the generic rules, or among those of a model. -/
def InClass : Option String → InferenceModelRewriteRule → Prop
  | none, rule => rule.isGeneric = true
  | some model, rule => model ∈ rule.exactModels

instance (c : Option String) (rule : InferenceModelRewriteRule) : Decidable (InClass c rule) :=
  match c with
  | none => inferInstanceAs (Decidable (_ = true))
  | some _ => inferInstanceAs (Decidable (_ ∈ _))

end InferenceModelRewriteRule

open InferenceModelRewriteRule

def InferenceModelRewrite.rulesWithMetadata (rw : InferenceModelRewrite) : List RewriteRuleWithMetadata :=
  rw.rules.map fun rule => ⟨rule, rw.creationTimestamp, rw.name⟩

/-- What one call of `set` finds `sort.Slice` to do, to the list of a model or to the
generic rules. -/
structure Sorting where
  sort : Option String → List RewriteRuleWithMetadata → List RewriteRuleWithMetadata
  perm : ∀ c rules, (sort c rules).Perm rules
  sorted : ∀ c rules, (sort c rules).Pairwise fun r r' => r.createTimestamp ≤ r'.createTimestamp

structure ModelRewriteStore where
  genericRules : List RewriteRuleWithMetadata
  rulesByExactModelMatch : Table String (List RewriteRuleWithMetadata)
  allReWrites : Table String InferenceModelRewrite

namespace ModelRewriteStore

def new : ModelRewriteStore := ⟨[], ∅, ∅⟩

variable (ms : ModelRewriteStore)

def deleteInternal (n : String) : ModelRewriteStore :=
  if n ∈ ms.allReWrites then
    { genericRules := ms.genericRules.filter fun r => r.parentRewriteName ≠ n
      rulesByExactModelMatch := Table.filterMapVals (fun _ rules =>
        let newRules := rules.filter fun r => r.parentRewriteName ≠ n
        if newRules = [] then none else some newRules) ms.rulesByExactModelMatch
      allReWrites := ms.allReWrites.erase n }
  else ms

variable (r : RewriteRuleWithMetadata)

/-- The rule at the end of the list of one model. -/
def addExact (model : String) : ModelRewriteStore :=
  { ms with
    rulesByExactModelMatch :=
      ms.rulesByExactModelMatch.insert model ((ms.rulesByExactModelMatch.lookup model).getD [] ++ [r]) }

/-- One turn of the loop in `set`. -/
def addRule : ModelRewriteStore :=
  if r.rule.isGeneric then { ms with genericRules := ms.genericRules ++ [r] }
  else r.rule.exactModels.foldl (fun ms model => ms.addExact r model) ms

def sortRules (σ : Sorting) : ModelRewriteStore :=
  { ms with
    genericRules := σ.sort none ms.genericRules
    rulesByExactModelMatch := Table.mapVals (fun model rules => σ.sort (some model) rules) ms.rulesByExactModelMatch }

def set (σ : Sorting) (rw : InferenceModelRewrite) : ModelRewriteStore :=
  let ms := ms.deleteInternal rw.name
  let ms := { ms with allReWrites := ms.allReWrites.insert rw.name rw }
  (rw.rulesWithMetadata.foldl addRule ms).sortRules σ

def getRule (modelName : String) : Option (InferenceModelRewriteRule × String) :=
  match ms.rulesByExactModelMatch.lookup modelName with
  | some (r :: _) => some (r.rule, r.parentRewriteName)
  | _ =>
    match ms.genericRules with
    | r :: _ => some (r.rule, r.parentRewriteName)
    | [] => none

/-! ## The lists -/

/-- The generic rules, or those of a model. -/
def rulesOf : Option String → List RewriteRuleWithMetadata
  | none => ms.genericRules
  | some model => (ms.rulesByExactModelMatch.lookup model).getD []

variable {ms}

theorem getRule_eq (model : String) :
    ms.getRule model = ((ms.rulesOf (some model)).head?.or (ms.rulesOf none).head?).map fun r => (r.rule, r.parentRewriteName) := by
  simp only [getRule, rulesOf]
  generalize ms.rulesByExactModelMatch.lookup model = found
  rcases found with _ | _ | ⟨r, rest⟩
  · cases ms.genericRules <;> rfl
  · cases ms.genericRules <;> rfl
  · rfl

theorem rulesOf_addExact (model : String) (c : Option String) :
    (ms.addExact r model).rulesOf c = if c = some model then ms.rulesOf c ++ [r] else ms.rulesOf c := by
  cases c with
  | none => rfl
  | some model' =>
    by_cases h : model' = model
    · subst h
      simp [addExact, rulesOf]
    · rw [if_neg (by simpa using h)]
      simp [addExact, rulesOf, AList.lookup_insert_ne h]

theorem rulesOf_addExacts {models : List String} (hmodels : models.Nodup) (c : Option String) :
    (models.foldl (fun ms model => ms.addExact r model) ms).rulesOf c =
      if c ∈ models.map some then ms.rulesOf c ++ [r] else ms.rulesOf c := by
  induction models generalizing ms with
  | nil => rfl
  | cons model rest ih =>
    obtain ⟨hfirst, hrest⟩ := nodup_cons.1 hmodels
    rw [foldl_cons, ih hrest, rulesOf_addExact]
    by_cases h : c = some model
    · subst h
      simp [hfirst]
    · simp [h]

theorem rulesOf_addRule (c : Option String) :
    (ms.addRule r).rulesOf c = if InClass c r.rule then ms.rulesOf c ++ [r] else ms.rulesOf c := by
  unfold addRule
  split
  · rename_i hgeneric
    cases c with
    | none =>
      have hin : InClass none r.rule := hgeneric
      rw [if_pos hin]
      rfl
    | some model =>
      have hnone : ¬ InClass (some model) r.rule := by
        simp only [isGeneric, decide_eq_true_eq] at hgeneric
        simp [InClass, exactModels, hgeneric]
      rw [if_neg hnone]
      rfl
  · rename_i hexact
    have hmodels : r.rule.exactModels.Nodup := nodup_dedup _
    rw [rulesOf_addExacts r hmodels]
    refine if_congr ?_ rfl rfl
    cases c <;> simp [InClass, hexact]

theorem rulesOf_addRules (rules : List RewriteRuleWithMetadata) (c : Option String) :
    (rules.foldl addRule ms).rulesOf c = ms.rulesOf c ++ rules.filter fun r => InClass c r.rule := by
  induction rules generalizing ms with
  | nil => simp
  | cons r rest ih =>
    rw [foldl_cons, ih, rulesOf_addRule, filter_cons]
    split <;> simp [*]

theorem mem_rulesOf_addRules (rules : List RewriteRuleWithMetadata) (c : Option String) (r : RewriteRuleWithMetadata) :
    r ∈ (rules.foldl addRule ms).rulesOf c ↔ r ∈ ms.rulesOf c ∨ r ∈ rules ∧ InClass c r.rule := by
  rw [rulesOf_addRules, mem_append, mem_filter, decide_eq_true_eq]

theorem rulesOf_sortRules (σ : Sorting) (c : Option String) : (ms.sortRules σ).rulesOf c = σ.sort c (ms.rulesOf c) := by
  cases c with
  | none => rfl
  | some model =>
    rw [rulesOf, sortRules, Table.lookup_mapVals, rulesOf]
    cases ms.rulesByExactModelMatch.lookup model with
    | none => exact ((σ.perm (some model) []).eq_nil).symm
    | some rules => rfl

theorem rulesOf_deleteInternal {n : String} (hn : n ∈ ms.allReWrites) (c : Option String) :
    (ms.deleteInternal n).rulesOf c = (ms.rulesOf c).filter fun r => r.parentRewriteName ≠ n := by
  rw [deleteInternal, if_pos hn]
  cases c with
  | none => rfl
  | some model =>
    rw [rulesOf, Table.lookup_filterMapVals, rulesOf]
    cases ms.rulesByExactModelMatch.lookup model with
    | none => rfl
    | some rules =>
      simp only [Option.bind_some, Option.getD_some]
      split
      · rename_i hnil
        rw [hnil]; rfl
      · rfl

theorem lookup_deleteInternal (n name : String) :
    (ms.deleteInternal n).allReWrites.lookup name = if name = n then none else ms.allReWrites.lookup name := by
  unfold deleteInternal
  split
  · exact Table.lookup_erase_ite _ n name
  · rename_i hn
    by_cases h : name = n
    · rw [if_pos h, h, AList.lookup_eq_none.2 hn]
    · rw [if_neg h]

theorem allReWrites_addRule : (ms.addRule r).allReWrites = ms.allReWrites := by
  unfold addRule
  split
  · rfl
  · generalize r.rule.exactModels = models
    induction models generalizing ms with
    | nil => rfl
    | cons model rest ih => exact ih

theorem allReWrites_addRules (rules : List RewriteRuleWithMetadata) : (rules.foldl addRule ms).allReWrites = ms.allReWrites := by
  induction rules generalizing ms with
  | nil => rfl
  | cons r rest ih => rw [foldl_cons, ih, allReWrites_addRule]

end ModelRewriteStore

end InferenceGateway.Datastore
