import InferenceGateway.Datastore.Precedence
/-!
# The lists are the rewrites

The list of a model, and the generic one, has each rule of its class as often as the
rewrites that are stored have it, after every history of sets and deletes.
-/

namespace InferenceGateway.Datastore

open Lib InferenceModelRewriteRule List Table

/-- The rules of all rewrites, one after the other. -/
def flattened (all : Rewrites) : List RewriteRuleWithMetadata := all.entries.flatMap fun e => e.2.rulesWithMetadata

theorem flattened_insert (all : Rewrites) (rw : InferenceModelRewrite) :
    flattened (all.insert rw.name rw) = rw.rulesWithMetadata ++ flattened (all.erase rw.name) := by
  rw [flattened, AList.entries_insert, flatMap_cons]
  rfl

theorem mem_flattened {all : Rewrites} {r : RewriteRuleWithMetadata} :
    r ∈ flattened all ↔ ∃ name rw, all.lookup name = some rw ∧ r ∈ rw.rulesWithMetadata := by
  simp only [flattened, mem_flatMap, Sigma.exists, lookup_mem_entries]

namespace ModelRewriteStore

variable {ms : ModelRewriteStore}

/-- No model has an empty list. -/
def Filled (ms : ModelRewriteStore) : Prop := ∀ model, ms.rulesByExactModelMatch.lookup model ≠ some []

theorem Filled.deleteInternal (h : ms.Filled) (n : String) : (ms.deleteInternal n).Filled := by
  intro model
  unfold ModelRewriteStore.deleteInternal
  split
  · rw [lookup_filterMapVals]
    cases ms.rulesByExactModelMatch.lookup model with
    | none => simp
    | some rules =>
      simp only [Option.bind_some]
      split
      · simp
      · rename_i hne
        exact fun heq => hne (Option.some.inj heq)
  · exact h model

theorem Filled.addRule (h : ms.Filled) (r : RewriteRuleWithMetadata) : (ms.addRule r).Filled := by
  unfold ModelRewriteStore.addRule
  split
  · exact h
  · generalize r.rule.exactModels = models
    induction models generalizing ms with
    | nil => exact h
    | cons first rest ih =>
      refine ih fun model => ?_
      simp only [addExact, lookup_insert_ite]
      split
      · simp
      · exact h model

theorem Filled.addRules (h : ms.Filled) (rules : List RewriteRuleWithMetadata) :
    (rules.foldl ModelRewriteStore.addRule ms).Filled := by
  induction rules generalizing ms with
  | nil => exact h
  | cons r rest ih => exact ih (h.addRule r)

theorem Filled.set (h : ms.Filled) (σ : Sorting) (rw : InferenceModelRewrite) : (ms.set σ rw).Filled := by
  have hdeleted : Filled { ms.deleteInternal rw.name with
      allReWrites := (ms.deleteInternal rw.name).allReWrites.insert rw.name rw } := h.deleteInternal rw.name
  have hfilled := hdeleted.addRules rw.rulesWithMetadata
  intro model heq
  rw [ModelRewriteStore.set, sortRules, lookup_mapVals] at heq
  obtain ⟨rules, hlookup, hsort⟩ := Option.map_eq_some_iff.1 heq
  -- a sorted list is empty only if the list was
  have hnil : rules = [] := (hsort ▸ σ.perm (some model) rules).symm.eq_nil
  exact hfilled model (hnil ▸ hlookup)

end ModelRewriteStore

namespace Session

open ModelRewriteStore

structure Indexed (x : Session) : Prop where
  sorted : x.Sorted
  rules : ∀ c, (x.store.rulesOf c).Perm ((flattened x.store.allReWrites).filter fun r => InClass c r.rule)
  filled : x.store.Filled

variable {x : Session}

theorem Sorted.parent (h : x.Sorted) {name : String} {rw : InferenceModelRewrite} {r : RewriteRuleWithMetadata}
    (hrw : x.store.allReWrites.lookup name = some rw) (hr : r ∈ rw.rulesWithMetadata) : r.parentRewriteName = name :=
  (mem_rulesWithMetadata hr).2.2.trans (h.names name rw (h.all name ▸ hrw))

/-- To take the rules of a rewrite out of the flattening is to take out the rewrite. -/
theorem Sorted.filter_flattened (h : x.Sorted) {n : String} {rw : InferenceModelRewrite} (hrw : x.store.allReWrites.lookup n = some rw) :
    ((flattened x.store.allReWrites).filter fun r => r.parentRewriteName ≠ n).Perm (flattened (x.store.allReWrites.erase n)) := by
  have hperm : (flattened x.store.allReWrites).Perm (rw.rulesWithMetadata ++ flattened (x.store.allReWrites.erase n)) :=
    (entries_perm hrw).flatMap_right _
  have hown : rw.rulesWithMetadata.filter (fun r => r.parentRewriteName ≠ n) = [] :=
    filter_eq_nil_iff.2 fun r hr => by simp [h.parent hrw hr]
  have hother : (flattened (x.store.allReWrites.erase n)).filter (fun r => r.parentRewriteName ≠ n) =
      flattened (x.store.allReWrites.erase n) := by
    refine filter_eq_self.2 fun r hr => ?_
    obtain ⟨name, rw', hrw', hr⟩ := mem_flattened.1 hr
    rw [lookup_erase_ite] at hrw'
    split at hrw'
    · cases hrw'
    · simpa [h.parent hrw' hr]
  refine (hperm.filter _).trans ?_
  rw [filter_append, hown, hother, nil_append]

theorem Indexed.rules_delete (h : x.Indexed) (n : String) (c : Option String) :
    ((x.store.deleteInternal n).rulesOf c).Perm
      ((flattened (x.store.allReWrites.erase n)).filter fun r => InClass c r.rule) := by
  by_cases hn : n ∈ x.store.allReWrites
  · obtain ⟨rw, hrw⟩ := mem_iff_lookup.1 hn
    rw [rulesOf_deleteInternal hn]
    refine ((h.rules c).filter _).trans ?_
    rw [filter_comm]
    exact (h.sorted.filter_flattened hrw).filter _
  · rw [deleteInternal, if_neg hn, Table.erase_of_notMem hn]
    exact h.rules c

theorem allReWrites_deleteInternal (ms : ModelRewriteStore) (n : String) :
    (ms.deleteInternal n).allReWrites = ms.allReWrites.erase n := by
  unfold deleteInternal
  split
  · rfl
  · exact (Table.erase_of_notMem ‹_›).symm

theorem Indexed.delete (h : x.Indexed) (n : String) : Indexed ⟨x.present.erase n, x.store.deleteInternal n⟩ where
  sorted := h.sorted.delete n
  rules c := by
    rw [allReWrites_deleteInternal]
    exact h.rules_delete n c
  filled := h.filled.deleteInternal n

theorem Indexed.set (h : x.Indexed) (rw : InferenceModelRewrite) (σ : Sorting) :
    Indexed ⟨x.present.insert rw.name rw, x.store.set σ rw⟩ where
  sorted := h.sorted.set rw σ
  rules c := by
    have hgone : rw.name ∉ x.store.allReWrites.erase rw.name := AList.lookup_eq_none.1 (AList.lookup_erase _ _)
    have hall : (x.store.set σ rw).allReWrites = (x.store.allReWrites.erase rw.name).insert rw.name rw := by
      rw [← allReWrites_deleteInternal]
      exact allReWrites_addRules _
    rw [hall, flattened_insert, Table.erase_of_notMem hgone, filter_append, ModelRewriteStore.set, rulesOf_sortRules]
    refine (σ.perm c _).trans ?_
    rw [rulesOf_addRules]
    refine perm_append_comm.trans (List.Perm.append_left _ ?_)
    have hold := h.rules_delete rw.name c
    cases c <;> exact hold
  filled := h.filled.set σ rw

theorem indexed_of_runs (h : Runs step (fun _ _ => True) new x) : x.Indexed := by
  refine Runs.invariant Indexed ?_ ⟨new_sorted, fun c => ?_, fun _ => nofun⟩ h
  · intro x op x' hx _ hstep
    cases op with
    | set rw σ => cases hstep; exact hx.set rw σ
    | delete name => cases hstep; exact hx.delete name
    | clear => cases hstep; exact ⟨new_sorted, fun c => by cases c <;> exact .nil, fun _ => nofun⟩
  · cases c <;> exact .nil

/-- After every history the lists are the rules of the rewrites that are stored, sorted
by class, no rule is returned that is not of one of these, and no list is empty. -/
theorem lists_are_rewrites (h : Runs step (fun _ _ => True) new x) :
    (∀ name, x.store.allReWrites.lookup name = x.present.lookup name) ∧
    (∀ c, (x.store.rulesOf c).Perm ((flattened x.store.allReWrites).filter fun r => InClass c r.rule)) ∧
    (∀ model rule name, x.store.getRule model = some (rule, name) → ∃ rw, x.present.lookup name = some rw ∧ rule ∈ rw.rules) ∧
    ∀ model, x.store.rulesByExactModelMatch.lookup model ≠ some [] := by
  have hx := indexed_of_runs h
  refine ⟨hx.sorted.all, hx.rules, fun model rule name hrule => ?_, hx.filled⟩
  rw [getRule_eq] at hrule
  obtain ⟨r, hr, heq⟩ := Option.map_eq_some_iff.1 hrule
  cases heq
  have hmem : ∃ c, r ∈ x.store.rulesOf c := by
    rcases Option.or_eq_some_iff.1 hr with hr | ⟨-, hr⟩
    · exact ⟨_, mem_of_head? hr⟩
    · exact ⟨_, mem_of_head? hr⟩
  obtain ⟨c, hmem⟩ := hmem
  obtain ⟨-, rw, hrw, hmem⟩ := (hx.sorted.rules c r).1 hmem
  exact ⟨rw, hrw, (mem_rulesWithMetadata hmem).1⟩

/-- Of three sets and a delete one rewrite is left, with a rule under each of two models. -/
theorem lists_are_rewrites_older : ∃ x : Session, Runs step (fun _ _ => True) new x ∧ (x.store.rulesOf (some "n")).length = 1 ∧
    (x.store.rulesOf (some "m")).Perm ((flattened x.store.allReWrites).filter fun r => InClass (some "m") r.rule) :=
  exists_runs [.set younger pivoting, .set older pivoting, .delete "younger", .set older steady]
    (fun x => (x.store.rulesOf (some "n")).length = 1) (by decide +kernel)
    fun x hrun hx => ⟨hx, (lists_are_rewrites hrun).2.1 (some "m")⟩

end Session

end InferenceGateway.Datastore
