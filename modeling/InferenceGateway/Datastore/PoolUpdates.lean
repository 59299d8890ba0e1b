import InferenceGateway.Datastore.Reflection
import InferenceGateway.Lib.Runs
/-!
# Pool updates and pod events, one after the other

The reconcilers of the pool and of pods over a cluster. A pool update that needs a resync
lists the pods, which may fail. Then the pool has been replaced already, and the next
attempt with the same pool finds that nothing has changed. As long as that does not
happen, the endpoints are those of the pods in the cluster.
-/

namespace InferenceGateway.Datastore

open Lib List PodList

variable {Φ : Type} (labelsPkg : LabelsPackage)

/-! ## Reconcilers -/

def poolLabelsMatch (labels : Table String String) : Prog (World Φ) Bool :=
  .readWhen (fun w => !w.locked) fun w => w.pool.any fun pool => labelsPkg.selectorMatches pool.selector labels

def poolHasSynced : Prog (World Φ) Bool := .readWhen (fun w => !w.locked) fun w => w.pool.isSome

/-- The filter of events asks for one pod after the other. -/
def anyLabelsMatch : List Pod → Prog (World Φ) Bool
  | [] => return false
  | pod :: pods => do
    if ← poolLabelsMatch labelsPkg pod.labels then return true
    else anyLabelsMatch pods

section
variable (f : EndpointFactory Φ) (modelServerMetricsPort : Int)

def updateDatastore (pod : Pod) : Prog (World Φ) Unit := do
  if !isPodReady pod then podDelete f pod.name
  else if !(← poolLabelsMatch labelsPkg pod.labels) then podDelete f pod.name
  else discard (podUpdate f modelServerMetricsPort pod)

/-- `PodReconciler.Reconcile`. `pod` is what the client gets. -/
def reconcilePod (name : NamespacedName) (pod : Option Pod) : Prog (World Φ) Unit := do
  if ← poolHasSynced then
    match pod with
    | none => podDelete f name.name
    | some pod => updateDatastore labelsPkg f modelServerMetricsPort pod

/-- A pod is created, updated or deleted. -/
def podEvent (name : NamespacedName) (old new : Option Pod) : Prog (World Φ) Unit := do
  if ← anyLabelsMatch labelsPkg (old.toList ++ new.toList) then reconcilePod labelsPkg f modelServerMetricsPort name new

end

/-! ## The cluster -/

namespace PodList

def get (l : PodList) (name : NamespacedName) : Option Pod := l.items.find? fun pod => pod.namespacedName = name

def put (l : PodList) (name : NamespacedName) : Option Pod → PodList
  | none => l.erase name
  | some pod => l.set pod

/-- What `reader.List` finds for a pool. -/
def listed (l : PodList) (pool : EndpointPool) : PodList :=
  l.filter fun pod => pod.namespace_ = pool.namespace_ ∧ labelsPkg.selectorMatches pool.selector pod.labels

end PodList

structure Site (Φ : Type) where
  world : World Φ
  cluster : PodList
  /-- The last call of `PoolSet` has returned an error. -/
  failed : Bool

inductive Change where
  /-- The pool is reconciled; `none` when it is gone. The listing may fail. -/
  | pool (pool : Option EndpointPool) (err : Option String)
  /-- A pod is created or updated. -/
  | pod (pod : Pod)
  | podGone (name : NamespacedName)

namespace Site

def listing (s : Site Φ) (err : Option String) : Option EndpointPool → Except String (List Pod)
  | none => .ok []
  | some pool =>
    match err with
    | some err => .error err
    | none => .ok (s.cluster.listed labelsPkg pool).items

variable (f : EndpointFactory Φ) (modelServerMetricsPort : Int)

def event (s : Site Φ) (name : NamespacedName) (new : Option Pod) : Site Φ :=
  { s with
    world := ((podEvent labelsPkg f modelServerMetricsPort name (s.cluster.get name) new).exec s.world).2
    cluster := s.cluster.put name new }

def step (s : Site Φ) : Change → Except Empty (Site Φ)
  | .pool pool err =>
    let (result, world) := (poolSet labelsPkg f modelServerMetricsPort (s.listing labelsPkg err pool) pool).exec s.world
    .ok { s with world := world, failed := !result.isOk }
  | .pod pod => .ok (s.event labelsPkg f modelServerMetricsPort pod.namespacedName (some pod))
  | .podGone name => .ok (s.event labelsPkg f modelServerMetricsPort name none)

/-- All is in one namespace, and after a failed attempt comes one with another selector or other ports. -/
def Orderly (ns : String) (s : Site Φ) : Change → Prop
  | .pool none _ => True
  | .pool (some pool) _ => pool.namespace_ = ns ∧ (s.failed = true → needsResync labelsPkg s.world.pool pool = true)
  | .pod pod => pod.namespace_ = ns
  | .podGone name => name.namespace_ = ns

end Site

/-! ## Events -/

namespace PodList

variable {l : PodList} {pod : Pod}

theorem get_eq_some {name : NamespacedName} : l.get name = some pod ↔ pod ∈ l.items ∧ pod.namespacedName = name := by
  unfold get
  constructor
  · intro h
    have hname := List.find?_some h
    rw [decide_eq_true_eq] at hname
    exact ⟨mem_of_find?_eq_some h, hname⟩
  · rintro ⟨hpod, rfl⟩
    cases hfind : l.items.find? fun pod' => pod'.namespacedName = pod.namespacedName with
    | none => exact absurd (decide_eq_true rfl) (List.find?_eq_none.1 hfind pod hpod)
    | some pod' =>
      have hname := List.find?_some hfind
      rw [decide_eq_true_eq] at hname
      rw [l.eq_of_namespacedName (mem_of_find?_eq_some hfind) hpod hname]

theorem mem_put {name : NamespacedName} {new : Option Pod} (hnew : ∀ pod ∈ new, pod.namespacedName = name) :
    pod ∈ (l.put name new).items ↔ new = some pod ∨ pod ∈ l.items ∧ pod.namespacedName ≠ name := by
  cases new with
  | none => rw [put, mem_erase, or_iff_right nofun]
  | some pod' =>
    cases hnew pod' rfl
    rw [put, mem_set, Option.some.injEq, eq_comm]

theorem mem_listed_ready {pool : EndpointPool} : pod ∈ (l.listed labelsPkg pool).ready.items ↔
    pod ∈ l.items ∧ pod.namespace_ = pool.namespace_ ∧ labelsPkg.selectorMatches pool.selector pod.labels = true ∧ isPodReady pod = true := by
  rw [ready, listed, filter, mem_filter, mem_filter, decide_eq_true_eq]
  tauto

end PodList

variable {labelsPkg} {f : EndpointFactory Φ} {metricsPort : Int} {R : Φ → Pods → Prop} {w : World Φ}

/-- Selectors that have the same labels match the same pods. -/
theorem LabelsPackage.selectorMatches_congr {a b : Table String String} (h : labelsPkg.equals a b = true) (labels : Table String String) :
    labelsPkg.selectorMatches a labels = labelsPkg.selectorMatches b labels := by
  have hlookup := (labelsPkg.equals_iff a b).1 h
  rw [Bool.eq_iff_iff, labelsPkg.selectorMatches_iff, labelsPkg.selectorMatches_iff]
  simp only [hlookup]

theorem exec_anyLabelsMatch (pods : List Pod) (w : World Φ) : (anyLabelsMatch labelsPkg pods).exec w =
    (pods.any fun pod => w.pool.any fun pool => labelsPkg.selectorMatches pool.selector pod.labels, w) := by
  induction pods with
  | nil => rfl
  | cons pod pods ih =>
    cases h : w.pool.any fun pool => labelsPkg.selectorMatches pool.selector pod.labels with
    | true => simp [anyLabelsMatch, poolLabelsMatch, h]
    | false => simp [anyLabelsMatch, poolLabelsMatch, h, ih]

variable {name : NamespacedName} {new : Option Pod}

/-- What an event does: nothing, a removal or an addition. -/
theorem exec_podEvent (labelsPkg : LabelsPackage) (f : EndpointFactory Φ) (metricsPort : Int) (old : Option Pod)
    (hnew : ∀ pod ∈ new, pod.namespacedName = name) {pool : EndpointPool} (hpool : w.pool = some pool) :
    let world := ((podEvent labelsPkg f metricsPort name old new).exec w).2
    (world = w ∧ ∀ pod, old = some pod ∨ new = some pod → labelsPkg.selectorMatches pool.selector pod.labels = false) ∨
    (world = ((podDelete f name.name).exec w).2 ∧ ∀ pod, new = some pod →
      ¬(labelsPkg.selectorMatches pool.selector pod.labels = true ∧ isPodReady pod = true)) ∨
    ∃ pod, new = some pod ∧ world = ((podUpdate f metricsPort pod).exec w).2 ∧
      labelsPkg.selectorMatches pool.selector pod.labels = true ∧ isPodReady pod = true := by
  simp only [podEvent, Prog.exec_bind, exec_anyLabelsMatch, hpool, Option.any_some]
  cases hany : (old.toList ++ new.toList).any fun pod => labelsPkg.selectorMatches pool.selector pod.labels with
  | false =>
    refine .inl ⟨rfl, fun pod hpod => ?_⟩
    rw [any_eq_false] at hany
    refine Bool.eq_false_iff.2 (hany pod (mem_append.2 ?_))
    simpa only [Option.mem_toList] using hpod
  | true =>
    have hsynced : ∀ p : Prog (World Φ) Unit, ((do if ← poolHasSynced then p : Prog (World Φ) Unit).exec w).2 = (p.exec w).2 := by
      intro p
      simp [poolHasSynced, hpool]
    refine .inr ?_
    simp only [if_true, reconcilePod, hsynced]
    cases new with
    | none => exact .inl ⟨rfl, nofun⟩
    | some pod =>
      obtain rfl := hnew pod rfl
      simp only [updateDatastore]
      cases hready : isPodReady pod with
      | false =>
        refine .inl ⟨rfl, fun pod' hpod' => ?_⟩
        cases hpod'
        simp [hready]
      | true =>
        simp only [Bool.not_true, Bool.false_eq_true, if_false, poolLabelsMatch, Prog.exec_bind, Prog.exec_readWhen, hpool,
          Option.any_some]
        cases hmatch : labelsPkg.selectorMatches pool.selector pod.labels with
        | false =>
          refine .inl ⟨rfl, fun pod' hpod' => ?_⟩
          cases hpod'
          simp [hmatch]
        | true => exact .inr ⟨pod, rfl, Prod.ext_iff.1 (Prog.exec_discard ..) |>.2, hmatch, hready⟩

theorem exec_podEvent_of_pool_none (labelsPkg : LabelsPackage) (f : EndpointFactory Φ) (metricsPort : Int) (name : NamespacedName) (old new : Option Pod)
    (hpool : w.pool = none) : ((podEvent labelsPkg f metricsPort name old new).exec w).2 = w := by
  simp [podEvent, exec_anyLabelsMatch, hpool]

/-- An event keeps the endpoints those of the pods that are listed and ready. -/
theorem Reflects.podEvent {ns : String} {cluster : PodList} {pool : EndpointPool}
    (h : Reflects R metricsPort (cluster.listed labelsPkg pool).ready w) (hf : Serves f R) (hpool : w.pool = some pool)
    (hns : pool.namespace_ = ns) (hcluster : ∀ pod ∈ cluster.items, pod.namespace_ = ns)
    (hnew : ∀ pod ∈ new, pod.namespacedName = name) (hname : name.namespace_ = ns) :
    Reflects R metricsPort ((cluster.put name new).listed labelsPkg pool).ready
      ((podEvent labelsPkg f metricsPort name (cluster.get name) new).exec w).2 := by
  have hnewns : ∀ pod, new = some pod → pod.namespace_ = pool.namespace_ := by
    intro pod hpod
    have hsame := hnew pod hpod
    rw [← hsame] at hname
    exact hname.trans hns.symm
  rcases exec_podEvent labelsPkg f metricsPort (cluster.get name) hnew hpool with ⟨hexec, hmatch⟩ | ⟨hexec, hmatch⟩ |
    ⟨pod, rfl, hexec, hmatch, hready⟩
  · rw [hexec]
    refine h.congr fun pod => ?_
    rw [PodList.mem_listed_ready, PodList.mem_listed_ready, PodList.mem_put hnew]
    have hold : pod ∈ cluster.items → pod.namespacedName = name → labelsPkg.selectorMatches pool.selector pod.labels = false :=
      fun hpod hn => hmatch pod (.inl (get_eq_some.2 ⟨hpod, hn⟩))
    have hnone : new = some pod → labelsPkg.selectorMatches pool.selector pod.labels = false := fun hpod => hmatch pod (.inr hpod)
    constructor
    · rintro ⟨hpod, hrest⟩
      refine ⟨.inr ⟨hpod, fun hn => ?_⟩, hrest⟩
      rw [hold hpod hn] at hrest
      cases hrest.2.1
    · rintro ⟨hpod | hpod, hrest⟩
      · rw [hnone hpod] at hrest
        cases hrest.2.1
      · exact ⟨hpod.1, hrest⟩
  · rw [hexec]
    refine (h.podDelete hf name.name).congr fun pod => ?_
    rw [PodList.filter, mem_filter, PodList.mem_listed_ready, PodList.mem_listed_ready, PodList.mem_put hnew, decide_eq_true_eq]
    -- in one namespace the name of a pod tells it
    have hsame : pod ∈ cluster.items → (pod.name = name.name ↔ pod.namespacedName = name) := by
      intro hpod
      have hpodns := hcluster pod hpod
      constructor
      · intro hn
        rw [Pod.namespacedName, hn, hpodns, ← hname]
      · rintro rfl
        rfl
    constructor
    · rintro ⟨⟨hpod, hrest⟩, hne⟩
      exact ⟨.inr ⟨hpod, mt (hsame hpod).2 hne⟩, hrest⟩
    · rintro ⟨hpod | hpod, hrest⟩
      · exact absurd hrest.2 (hmatch pod hpod)
      · exact ⟨⟨hpod.1, hrest⟩, mt (hsame hpod.1).1 hpod.2⟩
  · rw [hexec]
    obtain rfl := hnew pod rfl
    refine (h.podUpdate hf pod).congr fun pod' => ?_
    rw [PodList.mem_set, PodList.mem_listed_ready, PodList.mem_listed_ready, PodList.mem_put hnew]
    constructor
    · rintro (rfl | ⟨⟨hpod', hrest⟩, hne⟩)
      · exact ⟨.inl rfl, hnewns _ rfl, hmatch, hready⟩
      · exact ⟨.inr ⟨hpod', hne⟩, hrest⟩
    · rintro ⟨heq | hpod', hrest⟩
      · cases heq
        exact .inl rfl
      · exact .inr ⟨⟨hpod'.1, hrest⟩, hpod'.2⟩

/-- Whatever the endpoints are, an event serves the factory well. -/
theorem serves_podEvent (labelsPkg : LabelsPackage) (hf : Serves f R) (hR : R w.epf w.pods) (metricsPort : Int) (old : Option Pod)
    (hnew : ∀ pod ∈ new, pod.namespacedName = name) :
    let world := ((podEvent labelsPkg f metricsPort name old new).exec w).2
    R world.epf world.pods ∧ world.pool = w.pool := by
  cases hpool : w.pool with
  | none =>
    rw [exec_podEvent_of_pool_none labelsPkg f metricsPort name old new hpool]
    exact ⟨hR, hpool⟩
  | some pool =>
    rcases exec_podEvent labelsPkg f metricsPort old hnew hpool with ⟨hexec, -⟩ | ⟨hexec, -⟩ | ⟨pod, -, hexec, -⟩
    · rw [hexec]
      exact ⟨hR, hpool⟩
    · have hprogress := Progress.podDelete hf hR name.name
      rw [hexec]
      exact ⟨hprogress.serves, hprogress.pool.trans hpool⟩
    · rw [hexec, ← hpool]
      exact serves_podUpdate hf hR metricsPort pod

namespace Site

/-- The namespaces agree, and the endpoints are right unless the last attempt has failed. -/
structure Sound (labelsPkg : LabelsPackage) (R : Φ → Pods → Prop) (modelServerMetricsPort : Int) (ns : String) (s : Site Φ) : Prop where
  serves : R s.world.epf s.world.pods
  cluster : ∀ pod ∈ s.cluster.items, pod.namespace_ = ns
  pool : ∀ pool, s.world.pool = some pool → pool.namespace_ = ns
  shows : s.failed = false → ∀ pool, s.world.pool = some pool →
    Reflects R modelServerMetricsPort (s.cluster.listed labelsPkg pool).ready s.world

variable {ns : String} {s : Site Φ}

variable (h : s.Sound labelsPkg R metricsPort ns)
include h

theorem Sound.event (hf : Serves f R)
    (hnew : ∀ pod ∈ new, pod.namespacedName = name) (hname : name.namespace_ = ns) :
    (s.event labelsPkg f metricsPort name new).Sound labelsPkg R metricsPort ns := by
  obtain ⟨hserves, hpool⟩ := serves_podEvent labelsPkg hf h.serves metricsPort (s.cluster.get name) hnew
  refine ⟨hserves, fun pod hpod => ?_, fun pool hp => h.pool pool (hpool.symm.trans hp), fun hok pool hp => ?_⟩
  · rcases (PodList.mem_put hnew).1 hpod with hpod | ⟨hpod, -⟩
    · rw [← hname, ← hnew pod hpod]
      rfl
    · exact h.cluster pod hpod
  · have hp := hpool.symm.trans hp
    exact (h.shows hok pool hp).podEvent hf hp (h.pool pool hp) h.cluster hnew hname

theorem Sound.poolSet (hf : Serves f R) {pool : EndpointPool} (hns : pool.namespace_ = ns)
    (hretry : s.failed = true → needsResync labelsPkg s.world.pool pool = true) (err : Option String) {s' : Site Φ}
    (hstep : s.step labelsPkg f metricsPort (.pool (some pool) err) = .ok s') : s'.Sound labelsPkg R metricsPort ns := by
  have hnamespaces : ∀ pool', some pool = some pool' → pool'.namespace_ = ns := by
    rintro pool' ⟨⟩
    exact hns
  rw [Site.step] at hstep
  cases hneeds : needsResync labelsPkg s.world.pool pool with
  | false =>
    -- the pods are those of the pool before
    obtain ⟨pool', hpool', hselector, hports⟩ := exists_of_needsResync_eq_false hneeds
    have hok : s.failed = false := by
      cases hfailed : s.failed with
      | false => rfl
      | true =>
        rw [hretry hfailed] at hneeds
        cases hneeds
    rw [exec_poolSet_same hneeds] at hstep
    cases hstep
    refine ⟨h.serves, h.cluster, hnamespaces, ?_⟩
    rintro - pool'' ⟨⟩
    refine (((h.shows hok pool' hpool').of_same_ports hpool' hports).unlocked).congr fun pod => ?_
    rw [PodList.mem_listed_ready, PodList.mem_listed_ready, h.pool pool' hpool', hns, LabelsPackage.selectorMatches_congr hselector]
  | true =>
    cases err with
    | some err =>
      rw [listing, exec_poolSet_error hneeds] at hstep
      cases hstep
      exact ⟨h.serves, h.cluster, hnamespaces, nofun⟩
    | none =>
      rw [listing, exec_poolSet_resync hneeds] at hstep
      cases hstep
      obtain ⟨hreflects, hpool⟩ := Reflects.resync (w := { s.world with locked := true, pool := some pool }) hf h.serves
        metricsPort rfl (s.cluster.listed labelsPkg pool)
      refine ⟨hreflects.serves, h.cluster, fun pool' hp => hnamespaces pool' (hpool.symm.trans hp), fun _ pool' hp => ?_⟩
      cases hpool.symm.trans hp
      exact hreflects.unlocked

/-- What has been made with a pool is for that pool, and with the pods in the cluster. -/
theorem Sound.step (hf : Serves f R) {change : Change} (hchange : s.Orderly labelsPkg ns change)
    {s' : Site Φ} (hstep : s.step labelsPkg f metricsPort change = .ok s') : s'.Sound labelsPkg R metricsPort ns := by
  match change with
  | .pool none err =>
    obtain ⟨hR, hpods, hpool⟩ := exec_clear hf h.serves
    rw [Site.step, exec_poolSet_none] at hstep
    cases hstep
    refine ⟨by rwa [hpods], h.cluster, fun pool hp => ?_, fun _ pool hp => ?_⟩
    · cases hpool.symm.trans hp
    · cases hpool.symm.trans hp
  | .pool (some pool) err => exact h.poolSet hf hchange.1 hchange.2 err hstep
  | .pod pod =>
    cases hstep
    exact h.event hf (fun pod' hpod' => by cases hpod'; rfl) hchange
  | .podGone name =>
    cases hstep
    exact h.event hf nofun hchange

omit h

/-- The start, with the pods that are there. -/
def initial (φ : Φ) (cluster : PodList) : Site Φ := ⟨⟨false, none, .empty, φ, []⟩, cluster, false⟩

/-- Whenever the last attempt has not failed, the endpoints are those of the pods that are listed and ready at their
active ports. -/
theorem endpoints_exact (hf : Serves f R) (modelServerMetricsPort : Int) {φ : Φ} (hφ : R φ .empty) {ns : String} {cluster : PodList}
    (hcluster : ∀ pod ∈ cluster.items, pod.namespace_ = ns) {s : Site Φ}
    (hrun : Runs (step labelsPkg f modelServerMetricsPort) (Orderly labelsPkg ns) (initial φ cluster) s) (hok : s.failed = false) {pool : EndpointPool}
    (hpool : s.world.pool = some pool) (n : NamespacedName) (m : EndpointMetadata) :
    (∃ id, s.world.pods.load n = some ⟨id, m⟩) ↔ ∃ pod ∈ (s.cluster.listed labelsPkg pool).items, isPodReady pod = true ∧ ∃ idx port,
      pool.targetPorts[idx]? = some port ∧ port ∈ extractActivePorts pod pool.targetPorts ∧
      n = createEndpointNamespacedName pod idx ∧ m = endpointMetadata modelServerMetricsPort pool pod idx port := by
  have hsound : s.Sound labelsPkg R modelServerMetricsPort ns := by
    refine Runs.invariant (Sound labelsPkg R modelServerMetricsPort ns) (fun s change s' h hchange hstep => h.step hf hchange hstep)
      ⟨hφ, hcluster, fun _ h => (by cases h), fun _ _ h => (by cases h)⟩ hrun
  have hshows := (hsound.shows hok pool hpool).shows_of_pool hpool n
  rw [Pods.exists_endpoint_iff, hshows, ready_wanted_eq_some]

def clusterOne : PodList := ⟨[podOne], by decide⟩

/-- The labels are compared key by key. -/
def keyByKey : LabelsPackage where
  equals a b := (a.keys ++ b.keys).all fun k => a.lookup k = b.lookup k
  equals_iff a b := by
    simp only [all_eq_true, mem_append, decide_eq_true_eq]
    refine ⟨fun h k => ?_, fun h k _ => h k⟩
    by_cases hk : k ∈ a.keys ∨ k ∈ b.keys
    · exact h k hk
    · rw [not_or] at hk
      rw [AList.lookup_eq_none.2 hk.1, AList.lookup_eq_none.2 hk.2]
  selectorMatches selector labels := selector.keys.all fun k => labels.lookup k = selector.lookup k
  selectorMatches_iff selector labels := by
    simp only [all_eq_true, decide_eq_true_eq]
    constructor
    · intro h k v hv
      rw [h k (AList.lookup_isSome.1 (Option.isSome_of_eq_some hv)), hv]
    · intro h k hk
      obtain ⟨v, hv⟩ := Option.isSome_iff_exists.1 (AList.lookup_isSome.2 hk)
      rw [h k v hv, hv]

theorem podOne_listed : podOne ∈ (clusterOne.listed keyByKey poolTwoPorts).items :=
  mem_filter.2 ⟨mem_singleton_self podOne, by decide +kernel⟩

def poolOther : EndpointPool := { poolTwoPorts with selector := AList.insert "app" "b" ∅ }

/-- The listing for a pool fails, and the one for a pool with another selector does not. -/
theorem endpoints_exact_other_pool : ∃ s, Runs (step keyByKey podMetricsFactory 0) (Orderly keyByKey "default") (initial 0 clusterOne) s ∧
    s.failed = false ∧ ∃ id, s.world.pods.load (createEndpointNamespacedName podOne 1) =
      some ⟨id, endpointMetadata 0 poolTwoPorts podOne 1 8001⟩ := by
  have hserves := serves_of_neverNil podMetricsFactory_neverNil
  have hfirst : (initial 0 clusterOne).step keyByKey podMetricsFactory 0 (.pool (some poolOther) (some "timeout")) =
      .ok ⟨⟨false, some poolOther, .empty, 0, []⟩, clusterOne, true⟩ := by
    rw [step, listing, exec_poolSet_error rfl]
    rfl
  have hchanged : needsResync keyByKey (some poolOther) poolTwoPorts = true := by decide +kernel
  have hsecond : Site.step keyByKey podMetricsFactory 0 ⟨⟨false, some poolOther, .empty, 0, []⟩, clusterOne, true⟩
      (.pool (some poolTwoPorts) none) = .ok
      ⟨{ ((podResyncAll podMetricsFactory 0 poolTwoPorts (clusterOne.listed keyByKey poolTwoPorts).items).exec
        ⟨true, some poolTwoPorts, .empty, 0, []⟩).2 with locked := false }, clusterOne, false⟩ := by
    rw [step, listing, exec_poolSet_resync hchanged]
    rfl
  obtain ⟨-, hpool⟩ := Reflects.resync (w := ⟨true, some poolTwoPorts, .empty, 0, []⟩) hserves trivial 0 rfl
    (clusterOne.listed keyByKey poolTwoPorts)
  have hrun : Runs (step keyByKey podMetricsFactory 0) (Orderly keyByKey "default") (initial 0 clusterOne) _ :=
    .tail (.single ⟨.pool (some poolOther) (some "timeout"), ⟨rfl, nofun⟩, hfirst⟩)
      ⟨.pool (some poolTwoPorts) none, ⟨rfl, fun _ => hchanged⟩, hsecond⟩
  refine ⟨_, hrun, rfl, ?_⟩
  exact (endpoints_exact hserves 0 trivial (by decide +kernel) hrun rfl hpool _ _).2
    ⟨podOne, podOne_listed, by decide +kernel, 1, 8001, rfl, by decide +kernel, rfl, rfl⟩

/-- A listing fails, and the second attempt with the same pool does not list the pods: `PoolSet` returns no error, and the
pod has no endpoint. -/
theorem retry_without_endpoints : ∃ s, Runs (step keyByKey podMetricsFactory 0) (fun _ _ => True) (initial 0 clusterOne) s ∧
    s.failed = false ∧ s.world.pool = some poolTwoPorts ∧ podOne ∈ (s.cluster.listed keyByKey poolTwoPorts).items ∧
    isPodReady podOne = true ∧ 8001 ∈ extractActivePorts podOne poolTwoPorts.targetPorts ∧
    s.world.pods.load (createEndpointNamespacedName podOne 1) = none := by
  have hfirst : (initial 0 clusterOne).step keyByKey podMetricsFactory 0 (.pool (some poolTwoPorts) (some "timeout")) =
      .ok ⟨⟨false, some poolTwoPorts, .empty, 0, []⟩, clusterOne, true⟩ := by
    rw [step, listing, exec_poolSet_error rfl]
    rfl
  have hsecond : Site.step keyByKey podMetricsFactory 0 ⟨⟨false, some poolTwoPorts, .empty, 0, []⟩, clusterOne, true⟩
      (.pool (some poolTwoPorts) none) = .ok ⟨⟨false, some poolTwoPorts, .empty, 0, []⟩, clusterOne, false⟩ := by
    rw [step, exec_poolSet_same (by decide +kernel)]
    rfl
  refine ⟨_, .tail (.single ⟨_, trivial, hfirst⟩) ⟨_, trivial, hsecond⟩, rfl, rfl, podOne_listed, by decide +kernel, by decide +kernel, rfl⟩

end Site

end InferenceGateway.Datastore
