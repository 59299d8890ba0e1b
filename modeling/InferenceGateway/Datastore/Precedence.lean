import InferenceGateway.Datastore.ModelRewriteStore
/-!
# Which rule wins

Beside the store, a run keeps the rewrites that are present by their names. The lists of
the store hold the rules of these, and the first is of the oldest rewrite. If a rewrite
has no two rules for a model, there is only one that could come first.
-/

namespace InferenceGateway.Datastore

open Lib InferenceModelRewriteRule List ModelRewriteStore

/-! ## Precedence -/

/-- The rewrites that are present. -/
abbrev Rewrites := Table String InferenceModelRewrite

variable (present : Rewrites)

/-- There is a rule for the model, or a generic one. -/
def Offered (c : Option String) : Prop :=
  ∃ name rw, present.lookup name = some rw ∧ ∃ rule ∈ rw.rules, InClass c rule

/-- The first rule of its class in its rewrite, which is no younger than any other with one. -/
def Wins (c : Option String) (rule : InferenceModelRewriteRule) (name : String) : Prop :=
  ∃ rw, present.lookup name = some rw ∧ rw.rules.find? (fun r => InClass c r) = some rule ∧
    ∀ name' rw', present.lookup name' = some rw' → (∃ rule' ∈ rw'.rules, InClass c rule') →
      rw.creationTimestamp ≤ rw'.creationTimestamp

/-- An exact rule wins over a generic one. -/
def HighestPrecedence (model : String) : Option (InferenceModelRewriteRule × String) → Prop
  | some (rule, name) => Wins present (some model) rule name ∨ ¬ Offered present (some model) ∧ Wins present none rule name
  | none => ¬ Offered present (some model) ∧ ¬ Offered present none

/-- Two rules that are not both generic and not for the same model. -/
def Apart (rule rule' : InferenceModelRewriteRule) : Prop :=
  ¬ (rule.isGeneric = true ∧ rule'.isGeneric = true) ∧ ∀ model ∈ rule.exactModels, model ∉ rule'.exactModels

instance : DecidableRel Apart := fun _ _ => inferInstanceAs (Decidable (_ ∧ _))

theorem Apart.not_inClass {rule rule' : InferenceModelRewriteRule} (h : Apart rule rule') {c : Option String}
    (hrule : InClass c rule) : ¬ InClass c rule' := by
  cases c with
  | none => exact fun hrule' => h.1 ⟨hrule, hrule'⟩
  | some model => exact h.2 model hrule

theorem find_of_apart {rules : List InferenceModelRewriteRule} (h : rules.Pairwise Apart) {c : Option String}
    {rule : InferenceModelRewriteRule} (hmem : rule ∈ rules) (hclass : InClass c rule) :
    rules.find? (fun r => InClass c r) = some rule := by
  induction rules with
  | nil => cases hmem
  | cons first rest ih =>
    obtain ⟨hfirst, hrest⟩ := pairwise_cons.1 h
    rcases mem_cons.1 hmem with rfl | hmem
    · rw [List.find?_cons_of_pos (by simpa using hclass)]
    · have hne : ¬ InClass c first := fun hc => (hfirst rule hmem).not_inClass hc hclass
      rw [List.find?_cons_of_neg (by simpa using hne)]
      exact ih hrest hmem

/-- No two rewrites are of the same age. -/
def DistinctAges : Prop :=
  ∀ n rw n' rw', present.lookup n = some rw → present.lookup n' = some rw' →
    rw.creationTimestamp = rw'.creationTimestamp → n = n'

section Winners
variable {present : Rewrites} {c : Option String} {model name name' : String} {rule rule' : InferenceModelRewriteRule}

theorem Wins.offered (h : Wins present c rule name) : Offered present c := by
  obtain ⟨rw, hrw, hfirst, -⟩ := h
  exact ⟨name, rw, hrw, rule, mem_of_find?_eq_some hfirst, by simpa using List.find?_some hfirst⟩

theorem Wins.unique (hages : DistinctAges present) (h : Wins present c rule name) (h' : Wins present c rule' name') :
    rule = rule' ∧ name = name' := by
  obtain ⟨rw, hrw, hfirst, holdest⟩ := h
  obtain ⟨rw', hrw', hfirst', holdest'⟩ := h'
  have hage : rw.creationTimestamp = rw'.creationTimestamp := by
    refine le_antisymm (holdest name' rw' hrw' ⟨rule', mem_of_find?_eq_some hfirst', ?_⟩)
      (holdest' name rw hrw ⟨rule, mem_of_find?_eq_some hfirst, ?_⟩)
    · simpa using List.find?_some hfirst'
    · simpa using List.find?_some hfirst
  obtain rfl := hages name rw name' rw' hrw hrw' hage
  rw [hrw] at hrw'
  cases hrw'
  rw [hfirst] at hfirst'
  exact ⟨Option.some.inj hfirst', rfl⟩

/-- With different ages only one rule can win. -/
theorem HighestPrecedence.unique (hages : DistinctAges present) {found found' : Option (InferenceModelRewriteRule × String)}
    (h : HighestPrecedence present model found) (h' : HighestPrecedence present model found') : found = found' := by
  match found, found' with
  | none, none => rfl
  | none, some _ =>
    rcases h' with hwins | ⟨-, hwins⟩
    · exact absurd hwins.offered h.1
    · exact absurd hwins.offered h.2
  | some _, none =>
    rcases h with hwins | ⟨-, hwins⟩
    · exact absurd hwins.offered h'.1
    · exact absurd hwins.offered h'.2
  | some (rule, name), some (rule', name') =>
    have hsame : rule = rule' ∧ name = name' := by
      rcases h with hwins | ⟨hno, hwins⟩ <;> rcases h' with hwins' | ⟨hno', hwins'⟩
      · exact hwins.unique hages hwins'
      · exact absurd hwins.offered hno'
      · exact absurd hwins'.offered hno
      · exact hwins.unique hages hwins'
    rw [hsame.1, hsame.2]

end Winners

/-! ## Runs -/

structure Session where
  present : Rewrites
  store : ModelRewriteStore

inductive RewriteOp where
  /-- A rewrite is created, or it has changed. -/
  | set (rw : InferenceModelRewrite) (σ : Sorting)
  | delete (name : String)
  | clear

namespace Session

def new : Session := ⟨∅, .new⟩

def step (x : Session) : RewriteOp → Except Empty Session
  | .set rw σ => .ok ⟨x.present.insert rw.name rw, x.store.set σ rw⟩
  | .delete name => .ok ⟨x.present.erase name, x.store.deleteInternal name⟩
  | .clear => .ok new

/-- A rule of a rewrite that is present. -/
def Present (present : Rewrites) (r : RewriteRuleWithMetadata) : Prop :=
  ∃ rw, present.lookup r.parentRewriteName = some rw ∧ r ∈ rw.rulesWithMetadata

structure Sorted (x : Session) : Prop where
  all : ∀ name, x.store.allReWrites.lookup name = x.present.lookup name
  names : ∀ name rw, x.present.lookup name = some rw → rw.name = name
  rules : ∀ c r, r ∈ x.store.rulesOf c ↔ InClass c r.rule ∧ Present x.present r
  ages : ∀ c, (x.store.rulesOf c).Pairwise fun r r' => r.createTimestamp ≤ r'.createTimestamp

theorem new_sorted : new.Sorted where
  all _ := rfl
  names _ _ h := by cases h
  rules c r := by
    constructor
    · intro h
      cases c <;> cases h
    · rintro ⟨-, rw, h, -⟩
      cases h
  ages c := by cases c <;> exact .nil

variable {x : Session}

theorem mem_rulesWithMetadata {rw : InferenceModelRewrite} {r : RewriteRuleWithMetadata} (h : r ∈ rw.rulesWithMetadata) :
    r.rule ∈ rw.rules ∧ r.createTimestamp = rw.creationTimestamp ∧ r.parentRewriteName = rw.name := by
  obtain ⟨rule, hrule, rfl⟩ := List.mem_map.1 h
  exact ⟨hrule, rfl, rfl⟩

theorem Sorted.mem_delete (h : x.Sorted) (n : String) (c : Option String) (r : RewriteRuleWithMetadata) :
    r ∈ (x.store.deleteInternal n).rulesOf c ↔ r ∈ x.store.rulesOf c ∧ r.parentRewriteName ≠ n := by
  by_cases hn : n ∈ x.store.allReWrites
  · rw [rulesOf_deleteInternal hn, mem_filter, decide_eq_true_eq]
  · rw [deleteInternal, if_neg hn, iff_self_and]
    rintro hr rfl
    obtain ⟨-, rw, hrw, -⟩ := (h.rules c r).1 hr
    rw [← h.all, AList.lookup_eq_none.2 hn] at hrw
    cases hrw

theorem Sorted.delete (h : x.Sorted) (n : String) : Sorted ⟨x.present.erase n, x.store.deleteInternal n⟩ where
  all name := by rw [lookup_deleteInternal, Table.lookup_erase_ite, h.all]
  names name rw hrw := by
    rw [Table.lookup_erase_ite] at hrw
    split at hrw
    · cases hrw
    · exact h.names name rw hrw
  rules c r := by
    rw [h.mem_delete, h.rules]
    unfold Present
    rw [Table.lookup_erase_ite]
    split <;> simp [*]
  ages c := by
    by_cases hn : n ∈ x.store.allReWrites
    · rw [rulesOf_deleteInternal hn]
      exact (h.ages c).filter _
    · rw [deleteInternal, if_neg hn]
      exact h.ages c

theorem Sorted.set (h : x.Sorted) (rw : InferenceModelRewrite) (σ : Sorting) :
    Sorted ⟨x.present.insert rw.name rw, x.store.set σ rw⟩ where
  all name := by
    have hall : (x.store.set σ rw).allReWrites = (x.store.deleteInternal rw.name).allReWrites.insert rw.name rw :=
      allReWrites_addRules _
    rw [hall, Table.lookup_insert_ite, Table.lookup_insert_ite, lookup_deleteInternal, h.all]
    split <;> rfl
  names name rw' hrw := by
    rw [Table.lookup_insert_ite] at hrw
    split at hrw
    · cases hrw
      rename_i hname
      exact hname.symm
    · exact h.names name rw' hrw
  rules c r := by
    rw [ModelRewriteStore.set, ModelRewriteStore.rulesOf_sortRules, (σ.perm c _).mem_iff, ModelRewriteStore.mem_rulesOf_addRules]
    have hbase : r ∈ rulesOf
        { x.store.deleteInternal rw.name with allReWrites := (x.store.deleteInternal rw.name).allReWrites.insert rw.name rw } c ↔
        InClass c r.rule ∧ Present x.present r ∧ r.parentRewriteName ≠ rw.name := by
      rw [← and_assoc, ← h.rules, ← h.mem_delete]
      cases c <;> rfl
    rw [hbase]
    unfold Present
    rw [Table.lookup_insert_ite]
    constructor
    · rintro (⟨hclass, hpresent, hne⟩ | ⟨hmem, hclass⟩)
      · rw [if_neg hne]
        exact ⟨hclass, hpresent⟩
      · rw [if_pos (mem_rulesWithMetadata hmem).2.2]
        exact ⟨hclass, rw, rfl, hmem⟩
    · rintro ⟨hclass, rw', hrw', hmem⟩
      split at hrw'
      · cases hrw'
        exact .inr ⟨hmem, hclass⟩
      · rename_i hne
        exact .inl ⟨hclass, ⟨rw', hrw', hmem⟩, hne⟩
  ages c := by
    rw [ModelRewriteStore.set, ModelRewriteStore.rulesOf_sortRules]
    exact σ.sorted c _

theorem Sorted.step (h : x.Sorted) {op : RewriteOp} {x' : Session} (hstep : x.step op = .ok x') : x'.Sorted := by
  cases op with
  | set rw σ => cases hstep; exact h.set rw σ
  | delete name => cases hstep; exact h.delete name
  | clear => cases hstep; exact new_sorted

theorem sorted_of_runs (h : Runs step (fun _ _ => True) new x) : x.Sorted :=
  Runs.invariant Sorted (fun _ _ _ hx _ hstep => hx.step hstep) new_sorted h

/-! ## The winner -/

theorem Sorted.mem_rulesOf (h : x.Sorted) {name : String} {rw : InferenceModelRewrite} (hrw : x.present.lookup name = some rw)
    {c : Option String} {rule : InferenceModelRewriteRule} (hrule : rule ∈ rw.rules) (hclass : InClass c rule) :
    ⟨rule, rw.creationTimestamp, rw.name⟩ ∈ x.store.rulesOf c := by
  refine (h.rules c _).2 ⟨hclass, rw, ?_, List.mem_map.2 ⟨rule, hrule, rfl⟩⟩
  rw [h.names name rw hrw]
  exact hrw

theorem Sorted.offered_iff (h : x.Sorted) (c : Option String) : Offered x.present c ↔ x.store.rulesOf c ≠ [] := by
  constructor
  · rintro ⟨name, rw, hrw, rule, hrule, hclass⟩
    exact ne_nil_of_mem (h.mem_rulesOf hrw hrule hclass)
  · intro hne
    obtain ⟨r, hr⟩ := exists_mem_of_ne_nil _ hne
    obtain ⟨hclass, rw, hrw, hmem⟩ := (h.rules c r).1 hr
    exact ⟨_, rw, hrw, r.rule, (mem_rulesWithMetadata hmem).1, hclass⟩

/-- The first rule of a list is of the oldest rewrite. -/
theorem Sorted.wins (h : x.Sorted) (hapart : ∀ name rw, x.present.lookup name = some rw → rw.rules.Pairwise Apart)
    {c : Option String} {r : RewriteRuleWithMetadata} (hr : (x.store.rulesOf c).head? = some r) :
    Wins x.present c r.rule r.parentRewriteName := by
  obtain ⟨rest, hlist⟩ := List.head?_eq_some_iff.1 hr
  have hages := h.ages c
  rw [hlist, pairwise_cons] at hages
  obtain ⟨hclass, rw, hrw, hmem⟩ := (h.rules c r).1 (by rw [hlist]; exact mem_cons_self)
  obtain ⟨hrule, hage, -⟩ := mem_rulesWithMetadata hmem
  refine ⟨rw, hrw, find_of_apart (hapart _ rw hrw) hrule hclass, ?_⟩
  rintro name' rw' hrw' ⟨rule', hrule', hclass'⟩
  have hmem' := h.mem_rulesOf hrw' hrule' hclass'
  rw [hlist] at hmem'
  rcases mem_cons.1 hmem' with heq | hrest
  · rw [← hage, ← heq]
  · rw [← hage]
    exact hages.1 _ hrest

theorem Sorted.highestPrecedence (h : x.Sorted)
    (hapart : ∀ name rw, x.present.lookup name = some rw → rw.rules.Pairwise Apart) (model : String) :
    HighestPrecedence x.present model (x.store.getRule model) := by
  rw [getRule_eq]
  cases hexact : (x.store.rulesOf (some model)).head? with
  | some r => exact .inl (h.wins hapart hexact)
  | none =>
    have hno : ¬ Offered x.present (some model) := by
      rw [h.offered_iff, not_not]
      exact List.head?_eq_none_iff.1 hexact
    cases hgeneric : (x.store.rulesOf none).head? with
    | some r => exact .inr ⟨hno, h.wins hapart hgeneric⟩
    | none =>
      refine ⟨hno, ?_⟩
      rw [h.offered_iff, not_not]
      exact List.head?_eq_none_iff.1 hgeneric

theorem HighestPrecedence.congr {present present' : Rewrites} (h : ∀ name, present'.lookup name = present.lookup name)
    {model : String} {found : Option (InferenceModelRewriteRule × String)} (hfound : HighestPrecedence present' model found) :
    HighestPrecedence present model found := by
  cases found <;> simpa only [HighestPrecedence, Wins, Offered, h] using hfound

/-- If no present rewrite has two rules for a model or two generic ones, the rule that is
found is the one of highest precedence. What was set and deleted before, and in which
order, does not matter then. -/
theorem highest_precedence_found {x : Session} (h : Runs step (fun _ _ => True) new x)
    (hapart : ∀ name rw, x.present.lookup name = some rw → rw.rules.Pairwise Apart) (model : String) :
    HighestPrecedence x.present model (x.store.getRule model) ∧
      ∀ x' : Session, Runs step (fun _ _ => True) new x' → (∀ name, x'.present.lookup name = x.present.lookup name) →
        DistinctAges x.present → x'.store.getRule model = x.store.getRule model := by
  have hfound := (sorted_of_runs h).highestPrecedence hapart model
  refine ⟨hfound, fun x' h' hsame hages => ?_⟩
  have hapart' : ∀ name rw, x'.present.lookup name = some rw → rw.rules.Pairwise Apart := by
    intro name rw hrw
    exact hapart name rw (by rw [← hsame, hrw])
  have hfound' := HighestPrecedence.congr hsame ((sorted_of_runs h').highestPrecedence hapart' model)
  exact hfound'.unique hages hfound

/-! ### Two sorts -/

/-- Rules by the age of their rewrites. -/
abbrev Older (r r' : RewriteRuleWithMetadata) : Prop := r.createTimestamp ≤ r'.createTimestamp

instance : Std.Total Older := ⟨fun r r' => le_total r.createTimestamp r'.createTimestamp⟩

instance : IsTrans RewriteRuleWithMetadata Older := ⟨fun _ _ _ => le_trans⟩

/-- Rules of the same age stay as they are. -/
def steady : Sorting where
  sort _ rules := rules.insertionSort Older
  perm _ rules := perm_insertionSort Older rules
  sorted _ rules := pairwise_insertionSort Older rules

/-- What `sort.Slice` does to thirteen rules of which only the first is out of place: with more than twelve it
partitions by the rule in the middle, which comes first among those of its age. -/
def pivoting : Sorting where
  sort _ rules := (((rules.drop (rules.length / 4 * 2)).take 1 ++ rules.take (rules.length / 4 * 2)) ++
    (rules.drop (rules.length / 4 * 2)).drop 1).insertionSort Older
  perm _ rules := by
    refine (perm_insertionSort Older _).trans ?_
    conv_rhs => rw [← take_append_drop (rules.length / 4 * 2) rules, ← take_append_drop 1 (rules.drop _), ← append_assoc]
    exact perm_append_comm.append_right _
  sorted _ _ := pairwise_insertionSort Older _

/-- A rule with one target. -/
def ruleTo (criteria : List (Option String)) (target : String) : InferenceModelRewriteRule := ⟨criteria, [⟨1, target⟩]⟩

/-- A rule for `m` and a generic one, and an older rule for `m`. -/
def younger : InferenceModelRewrite := ⟨"younger", 5, [ruleTo [] "a", ruleTo [some "m"] "b"]⟩

def older : InferenceModelRewrite := ⟨"older", 3, [ruleTo [some "m", none, some "n"] "c"]⟩

theorem highest_precedence_found_older : ∃ x : Session, Runs step (fun _ _ => True) new x ∧
    x.store.getRule "m" = some (ruleTo [some "m", none, some "n"] "c", "older") ∧
      HighestPrecedence x.present "m" (x.store.getRule "m") := by
  refine exists_runs [.set younger steady, .set older steady]
    (fun x => x.store.getRule "m" = some (ruleTo [some "m", none, some "n"] "c", "older") ∧
      ∀ e ∈ x.present.entries, e.2.rules.Pairwise Apart) (by decide +kernel) ?_
  intro x hrun hx
  refine ⟨hx.1, (highest_precedence_found hrun (fun name rw hrw => ?_) "m").1⟩
  exact hx.2 ⟨name, rw⟩ (Table.lookup_mem_entries.2 hrw)

/-- Twelve generic rules, with the targets 0 to 11. -/
def dozen : InferenceModelRewrite := ⟨"dozen", 3, (range 12).map fun n => ruleTo [] (toString n)⟩

/-- A generic rule, and then a dozen older ones of one rewrite, of which the sixth is found. -/
theorem sixth_rule_found : ∃ x : Session, Runs step (fun _ _ => True) new x ∧
    x.store.getRule "n" = some (ruleTo [] "5", "dozen") ∧ ¬ HighestPrecedence x.present "n" (x.store.getRule "n") := by
  refine exists_runs [.set ⟨"young", 5, [ruleTo [] "a"]⟩ steady, .set dozen pivoting]
    (fun x => x.store.getRule "n" = some (ruleTo [] "5", "dozen") ∧ x.present.lookup "dozen" = some dozen) (by decide +kernel) ?_
  rintro x - ⟨hfound, hpresent⟩
  refine ⟨hfound, ?_⟩
  rw [hfound]
  rintro (⟨rw, hrw, hfirst, -⟩ | ⟨-, rw, hrw, hfirst, -⟩)
  all_goals
    rw [hpresent] at hrw
    cases hrw
    revert hfirst
    decide +kernel

end Session

end InferenceGateway.Datastore
