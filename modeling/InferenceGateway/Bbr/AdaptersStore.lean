import InferenceGateway.Datastore.Endpoints
import InferenceGateway.Lib.Runs
/-!
# The store of adapters

`adapters_store.go`: which base model a LoRA adapter belongs to, kept up with ConfigMaps
as they come, change and go. The store does not keep whole ConfigMaps: it has the
adapters of each, one base model for each adapter, and a count for each base model. As
long as a ConfigMap keeps its base model and no adapter is taken away that another one
lists too, these are what the ConfigMaps say.
-/

namespace InferenceGateway.Bbr

open Lib Datastore Table

structure ConfigMap where
  namespace_ : String
  name : String
  data : Table String String

def ConfigMap.namespacedName (cm : ConfigMap) : NamespacedName := ⟨cm.namespace_, cm.name⟩

structure AdaptersStore where
  loraAdapterToBaseModel : Table String String
  configmapAdapters : Table NamespacedName (List String)
  /-- The number of ConfigMaps of a base model. -/
  baseModels : Table String Int

/-- `strings.TrimSpace`. -/
def trim (text : String) : String := String.ofList (trimSpace text.toList)

def parseBaseModelFromConfigMap (cm : ConfigMap) : Except String String :=
  match cm.data.lookup "baseModel" with
  | none => .error "missing or empty baseModel in configmap"
  | some baseModel => if trim baseModel = "" then .error "missing or empty baseModel in configmap" else .ok (trim baseModel)

/-- The adapters in a list, without empty ones. -/
def adapterSet (list : List String) : List String :=
  list.foldl (fun adapters adapter => if trim adapter = "" then adapters else adapters.insert (trim adapter)) []

variable (unmarshal : String → Except String (List String))

/-- `unmarshal` is `yaml.Unmarshal` to a list of strings. -/
def parseConfigMap (cm : ConfigMap) : Except String (String × List String) :=
  match parseBaseModelFromConfigMap cm with
  | .error _ => .error ("failed to parse configmap " ++ cm.namespace_ ++ "/" ++ cm.name)
  | .ok baseModel =>
    match cm.data.lookup "adapters" with
    | none => .ok (baseModel, [])
    | some raw =>
      if trim raw = "" then .ok (baseModel, [])
      else
        match unmarshal raw with
        | .error err => .error ("failed to parse adapters: " ++ err)
        | .ok list => .ok (baseModel, adapterSet list)

namespace AdaptersStore

def new : AdaptersStore := ⟨∅, ∅, ∅⟩

/-- One more ConfigMap of a base model. -/
def countUp (baseModels : Table String Int) (baseModel : String) : Table String Int :=
  match baseModels.lookup baseModel with
  | some count => baseModels.insert baseModel (count + 1)
  | none => baseModels.insert baseModel 1

def countDown (baseModels : Table String Int) (baseModel : String) : Table String Int :=
  let count := (baseModels.lookup baseModel).getD 0
  if count = 1 then baseModels.erase baseModel else baseModels.insert baseModel (count - 1)

variable (store : AdaptersStore)

/-- The part under the lock, with what has been parsed. -/
def put (name : NamespacedName) (baseModel : String) (newAdapters : List String) : AdaptersStore :=
  let previous := store.configmapAdapters.lookup name
  let adaptersToRemove := (previous.getD []).filter (· ∉ newAdapters)
  { loraAdapterToBaseModel :=
      eraseAll adaptersToRemove (insertAll newAdapters baseModel store.loraAdapterToBaseModel)
    configmapAdapters := store.configmapAdapters.insert name newAdapters
    baseModels := if previous.isNone then countUp store.baseModels baseModel else store.baseModels }

def configMapUpdateOrAddIfNotExist (cm : ConfigMap) :
    Except String AdaptersStore :=
  match parseConfigMap unmarshal cm with
  | .error err => .error ("failed to parse configmap - " ++ err)
  | .ok (baseModel, newAdapters) => .ok (store.put cm.namespacedName baseModel newAdapters)

def configMapDelete (cm : ConfigMap) : AdaptersStore :=
  match store.configmapAdapters.lookup cm.namespacedName with
  | none => store
  | some adapters =>
    { loraAdapterToBaseModel := eraseAll adapters store.loraAdapterToBaseModel
      configmapAdapters := store.configmapAdapters.erase cm.namespacedName
      baseModels :=
        match parseBaseModelFromConfigMap cm with
        | .error _ => store.baseModels
        | .ok baseModel => countDown store.baseModels baseModel }

def getBaseModel (modelName : String) : String :=
  match store.loraAdapterToBaseModel.lookup (trim modelName) with
  | some baseModel => baseModel
  | none => if trim modelName ∈ store.baseModels then trim modelName else ""

end AdaptersStore

/-! ## What the ConfigMaps say -/

structure Version where
  baseModel : String
  adapters : List String

/-- The ConfigMaps that are alive, each as it was last parsed. -/
abbrev Live : Type := Table NamespacedName Version

namespace Live

def Lists (live : Live) (adapter : String) : Prop := ∃ name v, live.lookup name = some v ∧ adapter ∈ v.adapters

def HasBase (live : Live) (baseModel : String) : Prop := ∃ name v, live.lookup name = some v ∧ v.baseModel = baseModel

/-- The number of ConfigMaps of a base model. -/
def count (live : Live) (baseModel : String) : Int := total (fun _ v => if v.baseModel = baseModel then 1 else 0) live

/-- The base model of a name: of a ConfigMap that lists it, or else the name itself if it is one. -/
def IsBaseModel (live : Live) (name result : String) : Prop :=
  (live.Lists name → ∃ cm v, live.lookup cm = some v ∧ name ∈ v.adapters ∧ result = v.baseModel) ∧
  (¬live.Lists name → live.HasBase name → result = name) ∧
  (¬live.Lists name → ¬live.HasBase name → result = "")

end Live

/-- The store and the ConfigMaps. -/
structure Models where
  store : AdaptersStore
  live : Live

namespace Models

inductive Op where
  /-- A ConfigMap is created or updated. -/
  | update (cm : ConfigMap)
  | delete (cm : ConfigMap)

def new : Models := ⟨.new, ∅⟩

def step (s : Models) : Op → Except Empty Models
  | .update cm =>
    .ok {
      store := ((s.store.configMapUpdateOrAddIfNotExist unmarshal cm).toOption).getD s.store
      live := match parseConfigMap unmarshal cm with
        | .error _ => s.live
        | .ok (baseModel, adapters) => s.live.insert cm.namespacedName ⟨baseModel, adapters⟩ }
  | .delete cm => .ok ⟨s.store.configMapDelete cm, s.live.erase cm.namespacedName⟩

/-- No other ConfigMap lists the adapter. -/
def Unshared (live : Live) (name : NamespacedName) (adapter : String) : Prop :=
  ∀ name' v, name' ≠ name → live.lookup name' = some v → adapter ∉ v.adapters

/-- A ConfigMap keeps its base model, and the adapters that it gives up are listed by no other. -/
def Steady (s : Models) : Op → Prop
  | .update cm => ∀ baseModel adapters v, parseConfigMap unmarshal cm = .ok (baseModel, adapters) →
      s.live.lookup cm.namespacedName = some v →
      v.baseModel = baseModel ∧ ∀ a ∈ v.adapters, a ∉ adapters → Unshared s.live cm.namespacedName a
  | .delete cm => ∀ v, s.live.lookup cm.namespacedName = some v →
      parseBaseModelFromConfigMap cm = .ok v.baseModel ∧ ∀ a ∈ v.adapters, Unshared s.live cm.namespacedName a

instance (live : Live) (name : NamespacedName) (adapter : String) : Decidable (Unshared live name adapter) :=
  decidable_of_iff (∀ e ∈ live.entries, e.1 ≠ name → adapter ∉ e.2.adapters)
    ⟨fun h name' v hne hv => h ⟨name', v⟩ (lookup_mem_entries.2 hv) hne,
      fun h e he hne => h e.1 e.2 hne (lookup_mem_entries.1 he)⟩

instance (s : Models) : ∀ op, Decidable (s.Steady unmarshal op)
  | .update cm => decidable_of_iff (∀ parsed ∈ (parseConfigMap unmarshal cm).toOption, ∀ v ∈ s.live.lookup cm.namespacedName,
      v.baseModel = parsed.1 ∧ ∀ a ∈ v.adapters, a ∉ parsed.2 → Unshared s.live cm.namespacedName a)
    ⟨fun h baseModel adapters v hparse hv => h (baseModel, adapters) (by rw [hparse]; rfl) v hv, fun h parsed hparsed v hv => by
      cases hparse : parseConfigMap unmarshal cm with
      | error err => rw [hparse] at hparsed; cases hparsed
      | ok _ =>
        rw [hparse] at hparsed
        cases hparsed
        exact h parsed.1 parsed.2 v hparse hv⟩
  | .delete cm => inferInstanceAs (Decidable (∀ v ∈ s.live.lookup cm.namespacedName,
      parseBaseModelFromConfigMap cm = .ok v.baseModel ∧ ∀ a ∈ v.adapters, Unshared s.live cm.namespacedName a))

end Models

/-! ## Refinement -/

/-- The store says what the ConfigMaps say. -/
structure Refines (store : AdaptersStore) (live : Live) : Prop where
  adapters : ∀ name, store.configmapAdapters.lookup name = (live.lookup name).map Version.adapters
  listed : ∀ a, live.Lists a → ∃ b, store.loraAdapterToBaseModel.lookup a = some b
  lora : ∀ a b, store.loraAdapterToBaseModel.lookup a = some b → ∃ name v, live.lookup name = some v ∧ a ∈ v.adapters ∧ b = v.baseModel
  counts : ∀ b, store.baseModels.lookup b = if live.count b = 0 then none else some (live.count b)

theorem Live.count_pos {live : Live} {name : NamespacedName} {v : Version} (h : live.lookup name = some v) :
    0 < live.count v.baseModel := by
  have hle := le_total (f := fun (_ : NamespacedName) (v' : Version) => if v'.baseModel = v.baseModel then (1 : Int) else 0)
    (fun _ v' _ => by split <;> decide) h
  rw [if_pos rfl] at hle
  exact Int.lt_of_lt_of_le Int.one_pos hle

theorem Live.count_eq_zero {live : Live} {baseModel : String} (h : ¬live.HasBase baseModel) : live.count baseModel = 0 := by
  have hzero : live.count baseModel = total (fun _ _ => (0 : Int)) live :=
    total_congr fun name v hv => if_neg fun hbase => h ⟨name, v, hv, hbase⟩
  rw [hzero, total]
  simp

namespace AdaptersStore

theorem lookup_countUp (baseModels : Table String Int) (b b' : String) : (countUp baseModels b).lookup b' =
    if b' = b then some ((baseModels.lookup b).getD 0 + 1) else baseModels.lookup b' := by
  unfold countUp
  cases baseModels.lookup b with
  | none | some count => exact lookup_insert_ite ..

theorem lookup_countDown (baseModels : Table String Int) (b b' : String) : (countDown baseModels b).lookup b' =
    if b' = b then (if (baseModels.lookup b).getD 0 = 1 then none else some ((baseModels.lookup b).getD 0 - 1))
    else baseModels.lookup b' := by
  unfold countDown
  simp only
  split
  · exact lookup_erase_ite ..
  · exact lookup_insert_ite ..

end AdaptersStore

namespace Refines

variable {store : AdaptersStore} {live : Live}

variable (h : Refines store live)
include h

theorem getD_count (b : String) : (store.baseModels.lookup b).getD 0 = live.count b := by
  rw [h.counts]
  split
  · exact Eq.symm ‹_›
  · rfl

/-- The counts, when a ConfigMap is put in the place of one with the same base model or of none. -/
theorem counts_put (name : NamespacedName) (v : Version)
    (hbase : ∀ v₀, live.lookup name = some v₀ → v₀.baseModel = v.baseModel) (b : String) :
    (store.put name v.baseModel v.adapters).baseModels.lookup b =
      if Live.count (live.insert name v) b = 0 then none else some (Live.count (live.insert name v) b) := by
  simp only [AdaptersStore.put, h.adapters]
  cases hold : live.lookup name with
  | some v₀ =>
    have hsame : Live.count (live.insert name v) b = live.count b := by
      rw [Live.count, total_insert_old hold, hbase v₀ hold, sub_self, add_zero, Live.count]
    rw [hsame]
    exact h.counts b
  | none =>
    have hnew : Live.count (live.insert name v) b = (if v.baseModel = b then 1 else 0) + live.count b := by
      rw [Live.count, total_insert_new (AList.lookup_eq_none.1 hold), Live.count]
    have hnonneg : 0 ≤ live.count b := total_nonneg fun _ v' _ => by split <;> decide
    change (AdaptersStore.countUp store.baseModels v.baseModel).lookup b = _
    rw [AdaptersStore.lookup_countUp, h.getD_count, hnew]
    by_cases hb : v.baseModel = b
    · subst hb
      rw [if_pos rfl, if_pos rfl, if_neg (by omega), add_comm]
    · rw [if_neg (Ne.symm hb), if_neg hb, zero_add, h.counts]

theorem put (name : NamespacedName) (v : Version)
    (hsteady : ∀ v₀, live.lookup name = some v₀ →
      v₀.baseModel = v.baseModel ∧ ∀ a ∈ v₀.adapters, a ∉ v.adapters → Models.Unshared live name a) :
    Refines (store.put name v.baseModel v.adapters) (live.insert name v) := by
  -- what goes is what the ConfigMap had listed and lists no more
  have hlookup : ∀ a, (store.put name v.baseModel v.adapters).loraAdapterToBaseModel.lookup a =
      if a ∈ ((store.configmapAdapters.lookup name).getD []).filter (· ∉ v.adapters) then none
      else if a ∈ v.adapters then some v.baseModel else store.loraAdapterToBaseModel.lookup a := by
    intro a
    rw [← lookup_insertAll, ← lookup_eraseAll]
    rfl
  have hremoved : ∀ a, a ∈ ((store.configmapAdapters.lookup name).getD []).filter (· ∉ v.adapters) ↔
      ∃ v₀, live.lookup name = some v₀ ∧ a ∈ v₀.adapters ∧ a ∉ v.adapters := by
    intro a
    rw [List.mem_filter, decide_eq_true_eq, h.adapters]
    cases live.lookup name with
    | none | some v₀ => simp
  refine ⟨fun name' => ?_, fun a => ?_, fun a b hab => ?_, h.counts_put name v fun v₀ hv₀ => (hsteady v₀ hv₀).1⟩
  · rw [AdaptersStore.put, lookup_insert_ite, lookup_insert_ite, h.adapters]
    split <;> rfl
  · rintro ⟨name', v', hv', ha⟩
    rw [lookup_insert_ite] at hv'
    have hkept : a ∉ ((store.configmapAdapters.lookup name).getD []).filter (· ∉ v.adapters) := by
      rw [hremoved]
      rintro ⟨v₀, hv₀, ha₀, hgone⟩
      split at hv'
      · cases hv'
        exact hgone ha
      · exact (hsteady v₀ hv₀).2 a ha₀ hgone name' v' ‹_› hv' ha
    rw [hlookup, if_neg hkept]
    split at hv'
    · cases hv'
      exact ⟨_, if_pos ha⟩
    · obtain ⟨b, hb⟩ := h.listed a ⟨name', v', hv', ha⟩
      split
      · exact ⟨_, rfl⟩
      · exact ⟨b, hb⟩
  · rw [hlookup] at hab
    split at hab
    · cases hab
    · rename_i hkept
      split at hab
      · cases hab
        exact ⟨name, v, AList.lookup_insert _, ‹_›, rfl⟩
      · obtain ⟨name', v', hv', ha, rfl⟩ := h.lora a b hab
        refine ⟨name', v', ?_, ha, rfl⟩
        rw [lookup_insert_ite, if_neg]
        · exact hv'
        · rintro rfl
          exact hkept ((hremoved a).2 ⟨v', hv', ha, ‹_›⟩)

theorem delete {cm : ConfigMap} {v : Version} (hv : live.lookup cm.namespacedName = some v)
    (hbase : parseBaseModelFromConfigMap cm = .ok v.baseModel) (hunshared : ∀ a ∈ v.adapters, Models.Unshared live cm.namespacedName a) :
    Refines (store.configMapDelete cm) (live.erase cm.namespacedName) := by
  have hadapters : store.configmapAdapters.lookup cm.namespacedName = some v.adapters := by rw [h.adapters, hv, Option.map_some]
  simp only [AdaptersStore.configMapDelete, hadapters, hbase]
  refine ⟨fun name' => ?_, fun a => ?_, fun a b hab => ?_, fun b => ?_⟩
  · rw [lookup_erase_ite, lookup_erase_ite, h.adapters]
    split <;> rfl
  · rintro ⟨name', v', hv', ha⟩
    rw [lookup_erase_ite] at hv'
    split at hv'
    · cases hv'
    · rw [lookup_eraseAll, if_neg fun hmem => hunshared a hmem name' v' ‹_› hv' ha]
      exact h.listed a ⟨name', v', hv', ha⟩
  · rw [lookup_eraseAll] at hab
    split at hab
    · cases hab
    · obtain ⟨name', v', hv', ha, rfl⟩ := h.lora a b hab
      refine ⟨name', v', ?_, ha, rfl⟩
      rw [lookup_erase_ite, if_neg]
      · exact hv'
      · rintro rfl
        cases hv.symm.trans hv'
        contradiction
  · have hcount : live.count b = (if v.baseModel = b then 1 else 0) + Live.count (live.erase cm.namespacedName) b :=
      total_eq_add_erase hv
    rw [AdaptersStore.lookup_countDown, h.getD_count]
    by_cases hb : v.baseModel = b
    · subst hb
      rw [if_pos rfl] at hcount
      rw [if_pos rfl]
      split
      · rw [if_pos (by omega)]
      · rw [if_neg (by omega), hcount, add_sub_cancel_left]
    · rw [if_neg hb, zero_add] at hcount
      rw [if_neg (Ne.symm hb), h.counts, hcount]

theorem delete_unknown {cm : ConfigMap} (hv : live.lookup cm.namespacedName = none) :
    Refines (store.configMapDelete cm) (live.erase cm.namespacedName) := by
  have hadapters : store.configmapAdapters.lookup cm.namespacedName = none := by rw [h.adapters, hv, Option.map_none]
  rw [AdaptersStore.configMapDelete, hadapters, erase_of_notMem (AList.lookup_eq_none.1 hv)]
  exact h

/-- What the store answers is what the ConfigMaps say. -/
theorem getBaseModel (modelName : String) : live.IsBaseModel (trim modelName) (store.getBaseModel modelName) := by
  unfold AdaptersStore.getBaseModel
  have hmem : trim modelName ∈ store.baseModels ↔ live.HasBase (trim modelName) := by
    rw [← AList.lookup_isSome, h.counts]
    constructor
    · intro hsome
      by_contra hno
      rw [Live.count_eq_zero hno] at hsome
      cases hsome
    · rintro ⟨name, v, hv, hbase⟩
      rw [if_neg (hbase ▸ (Live.count_pos hv).ne')]
      rfl
  cases hlora : store.loraAdapterToBaseModel.lookup (trim modelName) with
  | some b =>
    obtain ⟨name, v, hv, ha, rfl⟩ := h.lora _ _ hlora
    exact ⟨fun _ => ⟨name, v, hv, ha, rfl⟩, fun hno => absurd ⟨name, v, hv, ha⟩ hno, fun hno => absurd ⟨name, v, hv, ha⟩ hno⟩
  | none =>
    refine ⟨fun hlists => ?_, fun _ hbase => if_pos (hmem.2 hbase), fun _ hbase => if_neg (mt hmem.1 hbase)⟩
    obtain ⟨b, hb⟩ := h.listed _ hlists
    rw [hlora] at hb
    cases hb

end Refines

/-! ## Runs -/

namespace Models

variable {unmarshal : String → Except String (List String)}

theorem refines_step {s s' : Models} {op : Op} (h : Refines s.store s.live) (hop : s.Steady unmarshal op)
    (hstep : s.step unmarshal op = .ok s') : Refines s'.store s'.live := by
  cases op with
  | update cm =>
    cases hstep
    rw [AdaptersStore.configMapUpdateOrAddIfNotExist]
    cases hparse : parseConfigMap unmarshal cm with
    | error err => exact h
    | ok parsed =>
      obtain ⟨baseModel, adapters⟩ := parsed
      exact h.put cm.namespacedName ⟨baseModel, adapters⟩ fun v hv => hop baseModel adapters v hparse hv
  | delete cm =>
    cases hstep
    cases hv : s.live.lookup cm.namespacedName with
    | none => exact h.delete_unknown hv
    | some v =>
      obtain ⟨hbase, hunshared⟩ := hop v hv
      exact h.delete hv hbase hunshared

/-- In every run that keeps to the condition, the store answers as the ConfigMaps say, and counts them. -/
theorem store_agrees {s : Models} (hrun : Runs (step unmarshal) (Steady unmarshal) new s) :
    (∀ modelName, s.live.IsBaseModel (trim modelName) (s.store.getBaseModel modelName)) ∧
    ∀ b, (s.store.baseModels.lookup b).getD 0 = s.live.count b := by
  have hrefines : Refines s.store s.live := by
    refine Runs.invariant (fun s => Refines s.store s.live) (fun s op s' h hop hstep => refines_step h hop hstep) ?_ hrun
    exact ⟨fun _ => rfl, fun a ⟨_, _, hv, _⟩ => (by cases hv), fun _ _ h => (by cases h), fun _ => rfl⟩
  exact ⟨hrefines.getBaseModel, hrefines.getD_count⟩

/-- A ConfigMap with one adapter. -/
def configMapOf (baseModel : String) : ConfigMap where
  namespace_ := "default"
  name := "adapters"
  data := ((∅ : Table String String).insert "baseModel" baseModel).insert "adapters" "[tweet]"

def unmarshalTweet (_ : String) : Except String (List String) := .ok [" tweet"]

/-- A ConfigMap `more`, with these adapters. -/
def moreAdapters (adapters : String) : ConfigMap where
  namespace_ := "default"
  name := "more"
  data := ((∅ : Table String String).insert "baseModel" "qwen").insert "adapters" adapters

def unmarshalWords (text : String) : Except String (List String) := .ok ((text.toList.splitOn ',').map String.ofList)

/-- Two ConfigMaps are created, one gives an adapter up, and the other is deleted. -/
theorem store_agrees_after_delete : ∃ s, Runs (step unmarshalWords) (Steady unmarshalWords) new s ∧
    (s.store.getBaseModel " poem" = "qwen" ∧ s.store.getBaseModel "song" = "" ∧ s.store.getBaseModel "llama" = "") ∧
    s.live.IsBaseModel (trim " poem") (s.store.getBaseModel " poem") ∧ (s.store.baseModels.lookup "qwen").getD 0 = s.live.count "qwen" := by
  refine exists_runs [.update (configMapOf "llama"), .update (moreAdapters "song, poem"), .update (moreAdapters "poem"),
      .delete (configMapOf "llama")]
    (fun s => s.store.getBaseModel " poem" = "qwen" ∧ s.store.getBaseModel "song" = "" ∧ s.store.getBaseModel "llama" = "")
    (by decide +kernel) fun s hrun hs => ⟨hs, ?_⟩
  obtain ⟨hbase, hcount⟩ := store_agrees hrun
  exact ⟨hbase " poem", hcount "qwen"⟩

/-- A ConfigMap gets another base model, which the store does not know then. -/
theorem changed_base_unknown : ∃ s, Runs (step unmarshalTweet) (fun _ _ => True) new s ∧ s.live.HasBase "qwen" ∧
    ¬s.live.Lists "qwen" ∧ s.store.getBaseModel "qwen" = "" ∧ ¬s.live.IsBaseModel (trim "qwen") (s.store.getBaseModel "qwen") := by
  refine exists_runs [.update (configMapOf "llama"), .update (configMapOf "qwen")]
    (fun s => ((s.live.lookup ⟨"default", "adapters"⟩).any fun v => v.baseModel = "qwen") ∧
      (s.live.entries.all fun entry => "qwen" ∉ entry.2.adapters) ∧ s.store.getBaseModel "qwen" = "") (by decide +kernel) ?_
  rintro s - ⟨hbase, hlists, hget⟩
  obtain ⟨v, hv, hbase⟩ := (Option.any_eq_true _ _).1 hbase
  have hbase : s.live.HasBase "qwen" := ⟨_, v, hv, of_decide_eq_true hbase⟩
  have hlists : ¬s.live.Lists "qwen" := by
    rintro ⟨name, v, hv, ha⟩
    exact of_decide_eq_true (List.all_eq_true.1 hlists ⟨name, v⟩ (lookup_mem_entries.2 hv)) ha
  refine ⟨hbase, hlists, hget, fun his => ?_⟩
  have htrim : trim "qwen" = "qwen" := by decide +kernel
  rw [htrim, hget] at his
  exact absurd (his.2.1 hlists hbase) (by decide)

end Models

end InferenceGateway.Bbr
