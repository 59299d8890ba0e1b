import InferenceGateway.Bbr.AdaptersStore
/-!
# The reconciler of the ConfigMaps

`configmap_reconciler.go`. The store is told which ConfigMap to forget by the object that
the client has filled in; of an object that is gone the client has filled in nothing, not
even the name.
-/

namespace InferenceGateway.Bbr

open Lib Datastore

inductive GetError where
  | notFound
  | other (message : String)
deriving DecidableEq

/-- What `Get` returns, and what it has made of the object that it was given. -/
structure GetResult where
  err : Option GetError
  configmap : ConfigMap
  labels : Table String String
  /-- `none` is the zero time. -/
  deletionTimestamp : Option Int

def bbrManagedLabel : String := "inference.networking.k8s.io/bbr-managed"

def hasBbrManagedLabel (got : GetResult) : Bool := got.labels.lookup bbrManagedLabel = some "true"

/-- The object of a ConfigMap that is not there. -/
def GetResult.gone : GetResult := ⟨some .notFound, ⟨"", "", ∅⟩, ∅, none⟩

variable (unmarshal : String → Except String (List String)) (get : NamespacedName → GetResult)

/-- The store, and the error that is returned. -/
def reconcile (store : AdaptersStore) (req : NamespacedName) : AdaptersStore × Option String :=
  match (get req).err with
  | some (.other err) => (store, some ("unable to get ConfigMap - " ++ err))
  | err =>
    if err = some .notFound ∨ (get req).deletionTimestamp ≠ none ∨ hasBbrManagedLabel (get req) = false then
      (store.configMapDelete (get req).configmap, none)
    else
      match store.configMapUpdateOrAddIfNotExist unmarshal (get req).configmap with
      | .error err => (store, some ("failed to add or update ConfigMap - " ++ err))
      | .ok store => (store, none)

/-- Everything that a ConfigMap contributed is out of the store: its adapters do not resolve,
except those that another ConfigMap lists, and its base model counts one less. -/
def AdaptersStore.Forgets (store store' : AdaptersStore) (name : NamespacedName) (baseModel : String) : Prop :=
  (∀ adapters, store.configmapAdapters.lookup name = some adapters → ∀ a ∈ adapters,
    (∀ other list, other ≠ name → store.configmapAdapters.lookup other = some list → a ∉ list) →
      store'.loraAdapterToBaseModel.lookup a = none) ∧
  (store'.baseModels.lookup baseModel).getD 0 = (store.baseModels.lookup baseModel).getD 0 - 1

variable {unmarshal get} {store : AdaptersStore} {req : NamespacedName}

/-- What is handed over of an object that is gone has no name. -/
theorem reconcile_of_gone (hgone : get req = .gone) :
    reconcile unmarshal get store req = (store.configMapDelete ⟨"", "", ∅⟩, none) := by
  unfold reconcile
  rw [hgone]
  simp [GetResult.gone]

theorem configMapDelete_nameless (hempty : ⟨"", ""⟩ ∉ store.configmapAdapters) :
    store.configMapDelete ⟨"", "", ∅⟩ = store := by
  have hnone : store.configmapAdapters.lookup (ConfigMap.namespacedName ⟨"", "", ∅⟩) = none := AList.lookup_eq_none.2 hempty
  simp only [AdaptersStore.configMapDelete, hnone]

/-- Even if there were a ConfigMap without a name, no base model would count less. -/
theorem baseModels_configMapDelete_nameless : (store.configMapDelete ⟨"", "", ∅⟩).baseModels = store.baseModels := by
  have hbase : parseBaseModelFromConfigMap ⟨"", "", ∅⟩ = .error "missing or empty baseModel in configmap" := rfl
  unfold AdaptersStore.configMapDelete
  split
  · rfl
  · simp only [hbase]

/-- Nothing is forgotten of a ConfigMap that is gone: whatever the store knows, the reconcile
leaves it as it is. -/
theorem reconcile_gone (hgone : get req = .gone) (baseModel : String) :
    (⟨"", ""⟩ ∉ store.configmapAdapters → reconcile unmarshal get store req = (store, none)) ∧
      ¬ store.Forgets (reconcile unmarshal get store req).1 req baseModel := by
  rw [reconcile_of_gone hgone]
  refine ⟨fun hempty => by rw [configMapDelete_nameless hempty], fun hforgets => ?_⟩
  have hcount := hforgets.2
  rw [baseModels_configMapDelete_nameless] at hcount
  omega

/-- The store after one ConfigMap with the adapter `tweet` of the base model `llama`. -/
def tweetStore : AdaptersStore := AdaptersStore.new.put ⟨"default", "adapters"⟩ "llama" ["tweet"]

theorem reconcile_gone_tweet :
    ¬ tweetStore.Forgets (reconcile Models.unmarshalTweet (fun _ => .gone) tweetStore ⟨"default", "adapters"⟩).1
      ⟨"default", "adapters"⟩ "llama" :=
  (reconcile_gone rfl "llama").2

/-- The object is gone, and its adapter still belongs to its base model, which still counts it. -/
theorem gone_still_resolves :
    let store' := (reconcile Models.unmarshalTweet (fun _ => .gone) tweetStore ⟨"default", "adapters"⟩).1
    tweetStore.configmapAdapters.lookup ⟨"default", "adapters"⟩ = some ["tweet"] ∧ store'.getBaseModel "tweet" = "llama" ∧
      store'.baseModels.lookup "llama" = some 1 := by
  rw [reconcile_of_gone rfl, configMapDelete_nameless (by decide +kernel)]
  decide +kernel

end InferenceGateway.Bbr
