import InferenceGateway.Datastore.Progress
/-!
# A resync

A resync adds the endpoints of the pods that are listed and ready, and then removes every
other one. The names are what holds the two together: the first part goes through all
names that the pods may have, and the second leaves those alone.
-/

namespace InferenceGateway.Datastore

open Lib List

variable {Φ : Type} {f : EndpointFactory Φ} {metricsPort : Int}

/-- What a list of pods gives. No pod is in it twice. -/
structure PodList where
  items : List Pod
  distinct : (items.map Pod.namespacedName).Nodup

namespace PodList

def ready (l : PodList) : PodList where
  items := l.items.filter isPodReady
  distinct := l.distinct.sublist (filter_sublist.map _)

theorem eq_of_namespacedName (l : PodList) {pod pod' : Pod} (h : pod ∈ l.items) (h' : pod' ∈ l.items)
    (hname : pod.namespacedName = pod'.namespacedName) : pod = pod' :=
  inj_on_of_nodup_map l.distinct h h' hname

/-- The endpoint that is to be under a name, for these pods. -/
def wanted (l : PodList) (modelServerMetricsPort : Int) (pool : EndpointPool) (n : NamespacedName) : Option EndpointMetadata :=
  (l.items.flatMap (endpointsOf modelServerMetricsPort pool)).find? fun m => m.namespacedName = n

variable {l : PodList} {pool : EndpointPool} {n : NamespacedName} {m : EndpointMetadata}

theorem of_wanted (h : l.wanted metricsPort pool n = some m) :
    m.namespacedName = n ∧ ∃ pod ∈ l.items, ∃ idx port,
      pool.targetPorts[idx]? = some port ∧ port ∈ extractActivePorts pod pool.targetPorts ∧
      m = endpointMetadata metricsPort pool pod idx port := by
  unfold wanted at h
  obtain ⟨pod, hpod, hm⟩ := mem_flatMap.1 (mem_of_find?_eq_some h)
  have hname := List.find?_some h
  rw [decide_eq_true_eq] at hname
  exact ⟨hname, pod, hpod, mem_endpointsOf.1 hm⟩

theorem wanted_eq_some :
    l.wanted metricsPort pool n = some m ↔ ∃ pod ∈ l.items, ∃ idx port, pool.targetPorts[idx]? = some port ∧
      port ∈ extractActivePorts pod pool.targetPorts ∧ n = createEndpointNamespacedName pod idx ∧
      m = endpointMetadata metricsPort pool pod idx port := by
  constructor
  · intro h
    obtain ⟨hname, pod, hpod, idx, port, hport, hactive, rfl⟩ := of_wanted h
    exact ⟨pod, hpod, idx, port, hport, hactive, hname.symm, rfl⟩
  · rintro ⟨pod, hpod, idx, port, hport, hactive, rfl, rfl⟩
    cases hfind : l.wanted metricsPort pool (createEndpointNamespacedName pod idx) with
    | none =>
      have hmem : endpointMetadata metricsPort pool pod idx port ∈
          l.items.flatMap (endpointsOf metricsPort pool) :=
        mem_flatMap.2 ⟨pod, hpod, mem_endpointsOf.2 ⟨idx, port, hport, hactive, rfl⟩⟩
      have hno := List.find?_eq_none.1 hfind _ hmem
      exact absurd (decide_eq_true rfl) hno
    | some m =>
      -- the name tells the pod and the rank
      obtain ⟨hname, pod', hpod', idx', port', hport', -, rfl⟩ := of_wanted hfind
      obtain ⟨hpods, rfl⟩ := createEndpointNamespacedName_inj hname
      cases l.eq_of_namespacedName hpod' hpod hpods
      cases hport.symm.trans hport'
      rfl

theorem wantsPod (l : PodList) (pool : EndpointPool) {pod : Pod} (hpod : pod ∈ l.items) :
    WantsPod metricsPort pool (l.wanted metricsPort pool) pod := by
  intro idx port hport
  split
  · exact wanted_eq_some.2 ⟨pod, hpod, idx, port, hport, ‹_›, rfl, rfl⟩
  · cases hwanted : l.wanted metricsPort pool (createEndpointNamespacedName pod idx) with
    | none => rfl
    | some m =>
      obtain ⟨pod', hpod', idx', port', hport', hactive, hname, -⟩ := wanted_eq_some.1 hwanted
      obtain ⟨hpods, rfl⟩ := createEndpointNamespacedName_inj hname
      cases l.eq_of_namespacedName hpod hpod' hpods
      cases hport.symm.trans hport'
      exact absurd hactive ‹_›

/-- All names that these pods may have. -/
def names (l : PodList) (pool : EndpointPool) : Set NamespacedName := {n | ∃ pod ∈ l.items, n ∈ podNamesOf pool pod}

theorem ready_wanted_eq_some :
    l.ready.wanted metricsPort pool n = some m ↔ ∃ pod ∈ l.items, isPodReady pod = true ∧ ∃ idx port,
      pool.targetPorts[idx]? = some port ∧ port ∈ extractActivePorts pod pool.targetPorts ∧
      n = createEndpointNamespacedName pod idx ∧ m = endpointMetadata metricsPort pool pod idx port := by
  rw [wanted_eq_some]
  refine exists_congr fun pod => ?_
  rw [← and_assoc]
  exact and_congr_left fun _ => mem_filter

theorem wanted_of_notMem (h : n ∉ l.names pool) : l.wanted metricsPort pool n = none := by
  cases hwanted : l.wanted metricsPort pool n with
  | none => rfl
  | some m =>
    obtain ⟨pod, hpod, idx, port, hport, -, rfl, -⟩ := wanted_eq_some.1 hwanted
    exact absurd ⟨pod, hpod, idx, (List.getElem?_eq_some_iff.1 hport).1, rfl⟩ h

theorem mem_activeEndpoints : n ∈ activeEndpoints pool l.items ↔ n ∈ l.ready.names pool := by
  rw [activeEndpoints, mem_flatMap]
  refine exists_congr fun pod => and_congr_right fun _ => ?_
  rw [List.mem_map]
  constructor
  · rintro ⟨idx, hidx, rfl⟩
    exact ⟨idx, mem_range.1 hidx, rfl⟩
  · rintro ⟨idx, hidx, rfl⟩
    exact ⟨idx, mem_range.2 hidx, rfl⟩

end PodList

variable {R : Φ → Pods → Prop} {w : World Φ}

/-- The pods are added one after the other, and no two share a name. -/
theorem Progress.podUpdates (hf : Serves f R) (hR : R w.epf w.pods) (metricsPort : Int) (pool : EndpointPool)
    (l : PodList) :
    Progress R (l.wanted metricsPort pool) w (l.names pool)
      ((l.items.forM fun pod => discard (podUpdateOrAddIfNotExist f metricsPort pod (some pool))).exec w).2 := by
  have hloop := Prog.exec_forM (fun pod => discard (podUpdateOrAddIfNotExist f metricsPort pod (some pool)))
    (fun pods w' => Progress R (l.wanted metricsPort pool) w {n | ∃ pod ∈ pods, n ∈ podNamesOf pool pod} w') l.items
    (fun before pod later w' hsplit hprogress => ?_) ((Progress.refl hR).congr _ fun n => ?_)
  · exact hloop
  · have hpod : pod ∈ l.items := by rw [hsplit]; simp
    have hfresh : ∀ n ∈ podNamesOf pool pod, n ∉ ({n | ∃ pod ∈ before, n ∈ podNamesOf pool pod} : Set NamespacedName) := by
      rintro n ⟨idx, -, rfl⟩ ⟨pod', hpod', idx', -, hname⟩
      have hapart := l.distinct
      rw [hsplit, map_append, nodup_append] at hapart
      exact hapart.2.2 _ (mem_map_of_mem hpod') _ mem_cons_self (createEndpointNamespacedName_inj hname).1.symm
    have hnext := hprogress.podUpdate hf hfresh (l.wantsPod pool hpod)
    rw [Prog.exec_discard]
    refine hnext.congr _ fun n => ?_
    change (∃ pod' ∈ before ++ [pod], n ∈ podNamesOf pool pod') ↔ (∃ pod' ∈ before, n ∈ podNamesOf pool pod') ∨ n ∈ podNamesOf pool pod
    simp only [mem_append, mem_singleton, or_and_right, exists_or, exists_eq_left]
  · simp

/-- After a resync every name has what is wanted. -/
theorem Progress.podResyncAll (hf : Serves f R) (hR : R w.epf w.pods) (metricsPort : Int) (pool : EndpointPool)
    (l : PodList) :
    Progress R (l.ready.wanted metricsPort pool) w Set.univ
      ((podResyncAll f metricsPort pool l.items).exec w).2 := by
  have hadded := Progress.podUpdates hf hR metricsPort pool l.ready
  generalize hw' : ((l.ready.items.forM fun pod =>
    discard (podUpdateOrAddIfNotExist f metricsPort pod (some pool))).exec w).2 = w' at hadded
  have hremoved := hadded.visitAll hf (AList.keys_nodup w'.pods.table)
    (fun ep => ep.metadata.namespacedName ∉ activeEndpoints pool l.items) fun n hn => ?_
  · have hexec : ((Datastore.podResyncAll f metricsPort pool l.items).exec w).2 = ((w'.pods.table.keys.forM
        (removeIf f fun ep => ep.metadata.namespacedName ∉ activeEndpoints pool l.items)).exec w').2 := by
      rw [← hw']
      simp [Datastore.podResyncAll, podNames, PodList.ready]
    rw [hexec]
    -- the names that were not visited have no entry, and none is wanted
    refine ⟨hremoved.serves, hremoved.pool, hremoved.locked, fun n m _ hm => ?_, fun n _ hnone => ?_, fun n hn => absurd trivial hn, ?_⟩
    · exact hremoved.made n m (.inl (by_contra fun h => by rw [PodList.wanted_of_notMem h] at hm; cases hm)) hm
    · by_cases hn : n ∈ l.ready.names pool ∪ {n | n ∈ w'.pods.table.keys}
      · exact hremoved.gone n hn hnone
      · rw [Set.mem_union, not_or] at hn
        rw [hremoved.others n (by rintro (h | h); exacts [hn.1 h, hn.2 h]), ← hadded.others n hn.1]
        exact AList.lookup_eq_none.2 hn.2
    · obtain ⟨L, hL, hnodup, hmem⟩ := hremoved.released
      refine ⟨L, hL, hnodup, fun ep => (hmem ep).trans ⟨fun ⟨n, _, hrest⟩ => ⟨n, trivial, hrest⟩, ?_⟩⟩
      rintro ⟨n, -, hnone, hep⟩
      refine ⟨n, by_contra fun hn => ?_, hnone, hep⟩
      rw [Set.mem_union, not_or] at hn
      rw [← hadded.others n hn.1] at hep
      exact hn.2 (Table.mem_of_lookup hep)
  · by_cases hactive : n ∈ l.ready.names pool
    · refine .inl ⟨hactive, ?_⟩
      rintro ep rfl
      exact decide_eq_false (not_not.2 (PodList.mem_activeEndpoints.2 hactive))
    · refine .inr ⟨hactive, (PodList.wanted_of_notMem hactive).trans ?_⟩
      cases hload : w.pods.load n with
      | none => rfl
      | some ep =>
        have hname : ep.metadata.namespacedName = n := w.pods.keyed n ep hload
        refine (if_pos ?_).symm
        rw [hname]
        exact decide_eq_true (mt PodList.mem_activeEndpoints.1 hactive)

/-! ## With a factory that makes endpoints -/

theorem serves_of_neverNil (hf : ∀ m φ, ((f.newEndpoint m).exec φ).1 ≠ none) : Serves f fun _ _ => True where
  new φ _ m _ _ := by
    obtain ⟨id, hid⟩ := Option.ne_none_iff_exists'.1 (hf m φ)
    exact ⟨id, _, Prod.ext hid rfl, trivial⟩
  update _ _ _ _ _ _ := trivial
  release _ _ _ _ _ := trivial

/-- A resync leaves one endpoint for each pod that is listed and ready and each position of an active port. Of the
endpoints that were there it keeps those under a name that is still wanted, and releases each of the others once. -/
theorem podResyncAll_exact (hf : ∀ m φ, ((f.newEndpoint m).exec φ).1 ≠ none) (modelServerMetricsPort : Int) (w : World Φ)
    (pool : EndpointPool) (l : PodList) :
    let w' := ((podResyncAll f modelServerMetricsPort pool l.items).exec w).2
    (∀ n m, (∃ id, w'.pods.load n = some ⟨id, m⟩) ↔ ∃ pod ∈ l.items, isPodReady pod = true ∧ ∃ idx port,
      pool.targetPorts[idx]? = some port ∧ port ∈ extractActivePorts pod pool.targetPorts ∧
      n = createEndpointNamespacedName pod idx ∧ m = endpointMetadata modelServerMetricsPort pool pod idx port) ∧
    (∀ pod pod' idx idx', createEndpointNamespacedName pod idx = createEndpointNamespacedName pod' idx' →
      pod.namespacedName = pod'.namespacedName ∧ idx = idx') ∧
    (∀ n ep ep', w.pods.load n = some ep → w'.pods.load n = some ep' → ep'.id = ep.id) ∧
    ∃ L, w'.released = w.released ++ L ∧ L.Nodup ∧ ∀ ep, ep ∈ L ↔ ∃ n, w.pods.load n = some ep ∧ w'.pods.load n = none := by
  have hprogress := Progress.podResyncAll (serves_of_neverNil hf) (w := w) trivial modelServerMetricsPort pool l
  intro w'
  have hload : ∀ n m, (∃ id, w'.pods.load n = some ⟨id, m⟩) ↔ l.ready.wanted modelServerMetricsPort pool n = some m := by
    intro n m
    rw [Pods.exists_endpoint_iff, hprogress.shows (fun n hn => absurd (Set.mem_univ n) hn)]
  refine ⟨fun n m => ?_, fun _ _ _ _ => createEndpointNamespacedName_inj, fun n ep ep' hep hep' => ?_, ?_⟩
  · rw [hload, PodList.ready_wanted_eq_some]
  · obtain ⟨id, m⟩ := ep'
    obtain ⟨id', hid', hsame⟩ := hprogress.made n m trivial ((hload n m).1 ⟨id, hep'⟩)
    cases hep'.symm.trans hid'
    exact (hsame ep hep).symm
  · obtain ⟨L, hL, hnodup, hmem⟩ := hprogress.released
    refine ⟨L, hL, hnodup, fun ep => (hmem ep).trans (exists_congr fun n => ?_)⟩
    rw [and_comm (a := w.pods.load n = some ep), and_iff_right (Set.mem_univ n)]
    refine and_congr_left fun _ => ⟨hprogress.gone n trivial, fun hnone => ?_⟩
    cases hwanted : l.ready.wanted modelServerMetricsPort pool n with
    | none => rfl
    | some m =>
      obtain ⟨id, hid⟩ := (hload n m).2 hwanted
      rw [hnone] at hid
      cases hid

/-- `PodMetricsFactory`: every call makes a new object. The state is the number of objects so far. -/
def podMetricsFactory : EndpointFactory ℕ where
  newEndpoint _ := do
    let id ← Prog.read fun made => made
    Prog.write fun made => made + 1
    return some id
  releaseEndpoint _ := return ()

theorem podMetricsFactory_neverNil (m : EndpointMetadata) (made : ℕ) : ((podMetricsFactory.newEndpoint m).exec made).1 ≠ none := by
  simp [podMetricsFactory]

def podOne : Pod := ⟨"a", "default", ∅, some "8001", "10.0.0.1", false, [("Ready", true)]⟩

def poolTwoPorts : EndpointPool := ⟨∅, [8000, 8001], "default"⟩

/-- The second of two ports is active. -/
theorem podResyncAll_exact_one : (∀ m made, ((podMetricsFactory.newEndpoint m).exec made).1 ≠ none) ∧
    ∃ id, ((podResyncAll podMetricsFactory 0 poolTwoPorts [podOne]).exec ⟨true, some poolTwoPorts, .empty, 0, []⟩).2.pods.load
      (createEndpointNamespacedName podOne 1) = some ⟨id, endpointMetadata 0 poolTwoPorts podOne 1 8001⟩ := by
  refine ⟨podMetricsFactory_neverNil, ?_⟩
  have hexact := podResyncAll_exact podMetricsFactory_neverNil 0 ⟨true, some poolTwoPorts, .empty, 0, []⟩ poolTwoPorts
    ⟨[podOne], by decide⟩
  exact (hexact.1 _ _).2 ⟨podOne, mem_singleton_self _, by decide +kernel, 1, 8001, rfl, by decide +kernel, rfl, rfl⟩

end InferenceGateway.Datastore
