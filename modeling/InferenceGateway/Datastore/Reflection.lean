import InferenceGateway.Datastore.Resync
/-!
# The pods that the endpoints stand for

Run alone, every operation of the datastore leaves it with the endpoints of some pods:
an addition puts one pod in the place of an older one, a removal takes away those of a
name, a resync starts over from the list, and without a pool there is no endpoint.
-/

namespace InferenceGateway.Datastore

open Lib List

variable {Φ : Type} {f : EndpointFactory Φ} {metricsPort : Int} {R : Φ → Pods → Prop} {w : World Φ}

namespace PodList

def filter (l : PodList) (p : Pod → Bool) : PodList where
  items := l.items.filter p
  distinct := l.distinct.sublist (filter_sublist.map _)

def erase (l : PodList) (name : NamespacedName) : PodList := l.filter fun pod => pod.namespacedName ≠ name

variable {l : PodList} {pod : Pod}

theorem mem_erase {name : NamespacedName} : pod ∈ (l.erase name).items ↔ pod ∈ l.items ∧ pod.namespacedName ≠ name := by
  rw [erase, filter, mem_filter, decide_eq_true_eq]

def set (l : PodList) (pod : Pod) : PodList where
  items := pod :: (l.erase pod.namespacedName).items
  distinct := by
    refine nodup_cons.2 ⟨fun hmem => ?_, (l.erase pod.namespacedName).distinct⟩
    obtain ⟨pod', hpod', hname⟩ := List.mem_map.1 hmem
    exact (mem_erase.1 hpod').2 hname

theorem mem_set {pod' : Pod} :
    pod' ∈ (l.set pod).items ↔ pod' = pod ∨ pod' ∈ l.items ∧ pod'.namespacedName ≠ pod.namespacedName :=
  mem_cons.trans (or_congr_right mem_erase)

/-- Of the pool only the ports matter, and of the list its members. -/
theorem wanted_congr {l' : PodList} (hl : ∀ pod, pod ∈ l.items ↔ pod ∈ l'.items) {pool pool' : EndpointPool}
    (hports : pool.targetPorts = pool'.targetPorts) (n : NamespacedName) :
    l.wanted metricsPort pool n = l'.wanted metricsPort pool' n := by
  refine Option.ext fun m => ?_
  rw [wanted_eq_some, wanted_eq_some]
  refine exists_congr fun pod => and_congr (hl pod) ?_
  simp only [endpointMetadata, hports]

theorem wanted_set_of_notMem (l : PodList) {pool : EndpointPool} {n : NamespacedName} (h : n ∉ podNamesOf pool pod) :
    (l.set pod).wanted metricsPort pool n = l.wanted metricsPort pool n := by
  refine Option.ext fun m => ?_
  rw [wanted_eq_some, wanted_eq_some]
  constructor
  · rintro ⟨pod', hpod', idx, port, hport, hactive, rfl, hm⟩
    rcases mem_set.1 hpod' with rfl | ⟨hold, -⟩
    · exact absurd ⟨idx, (List.getElem?_eq_some_iff.1 hport).1, rfl⟩ h
    · exact ⟨pod', hold, idx, port, hport, hactive, rfl, hm⟩
  · rintro ⟨pod', hpod', idx, port, hport, hactive, rfl, hm⟩
    refine ⟨pod', mem_set.2 (.inr ⟨hpod', fun hname => h ⟨idx, (List.getElem?_eq_some_iff.1 hport).1, ?_⟩⟩), idx, port, hport,
      hactive, rfl, hm⟩
    exact createEndpointNamespacedName_congr hname idx

/-- The pods of other names. -/
theorem wanted_filter_name (l : PodList) (pool : EndpointPool) (podName : String) (n : NamespacedName) :
    (l.filter fun pod => pod.name ≠ podName).wanted metricsPort pool n =
      (l.wanted metricsPort pool n).bind fun m => if m.podName = podName then none else some m := by
  refine Option.ext fun m => ?_
  rw [wanted_eq_some, Option.bind_eq_some_iff]
  constructor
  · rintro ⟨pod, hpod, idx, port, hport, hactive, rfl, rfl⟩
    rw [filter, mem_filter, decide_eq_true_eq] at hpod
    exact ⟨_, wanted_eq_some.2 ⟨pod, hpod.1, idx, port, hport, hactive, rfl, rfl⟩, if_neg hpod.2⟩
  · rintro ⟨m', hm', hif⟩
    obtain ⟨pod, hpod, idx, port, hport, hactive, rfl, rfl⟩ := wanted_eq_some.1 hm'
    split at hif
    · cases hif
    · cases hif
      exact ⟨pod, mem_filter.2 ⟨hpod, decide_eq_true ‹_›⟩, idx, port, hport, hactive, rfl, rfl⟩

end PodList

/-- The endpoints are those of these pods, for the pool that is set. -/
structure Reflects (R : Φ → Pods → Prop) (modelServerMetricsPort : Int) (l : PodList) (w : World Φ) : Prop where
  serves : R w.epf w.pods
  shows : ∀ n, (w.pods.load n).map Endpoint.metadata = w.pool.bind fun pool => l.wanted modelServerMetricsPort pool n

/-- A removal goes through all names. -/
theorem Progress.podDelete (hf : Serves f R) (hR : R w.epf w.pods) (podName : String) :
    Progress R (fun n => (w.pods.load n).bind fun ep => if decide (ep.metadata.podName = podName) then none else some ep.metadata) w
      {n | n ∈ w.pods.table.keys} ((podDelete f podName).exec w).2 := by
  have hexec : ((Datastore.podDelete f podName).exec w).2 =
      ((w.pods.table.keys.forM (removeIf f fun ep => ep.metadata.podName = podName)).exec w).2 := by
    simp [Datastore.podDelete, podNames]
  rw [hexec]
  exact ((Progress.refl hR).visitAll hf (AList.keys_nodup w.pods.table) (fun ep => ep.metadata.podName = podName)
    fun n _ => .inr ⟨id, rfl⟩).congr _ fun n => (or_iff_right id).symm

theorem exec_podUpdate (f : EndpointFactory Φ) (metricsPort : Int) (pod : Pod) (w : World Φ) :
    (podUpdate f metricsPort pod).exec w = (podUpdateOrAddIfNotExist f metricsPort pod w.pool).exec w := by
  simp [podUpdate]

/-- The factory is served well also when the endpoints are not those of the pods. -/
theorem serves_podUpdate (hf : Serves f R) (hR : R w.epf w.pods) (metricsPort : Int) (pod : Pod) :
    let w' := ((podUpdate f metricsPort pod).exec w).2
    R w'.epf w'.pods ∧ w'.pool = w.pool := by
  simp only [exec_podUpdate]
  cases hpool : w.pool with
  | none => exact ⟨hR, hpool⟩
  | some pool =>
    have hwants : WantsPod metricsPort pool ((PodList.mk [pod] (by simp)).wanted metricsPort pool) pod :=
      PodList.wantsPod _ pool (mem_singleton_self pod)
    have hprogress := (Progress.refl hR).podUpdate hf (fun _ _ hn => hn.elim) hwants
    exact ⟨hprogress.serves, hprogress.pool.trans hpool⟩

namespace Reflects

variable {l : PodList}

theorem of_pool_none (hR : R w.epf w.pods) (hpool : w.pool = none) (hload : ∀ n, w.pods.load n = none) (l : PodList) :
    Reflects R metricsPort l w := by
  refine ⟨hR, fun n => ?_⟩
  rw [hload, hpool]
  rfl

variable (h : Reflects R metricsPort l w)
include h

theorem congr {l' : PodList} (hl : ∀ pod, pod ∈ l.items ↔ pod ∈ l'.items) :
    Reflects R metricsPort l' w := by
  refine ⟨h.serves, fun n => (h.shows n).trans ?_⟩
  cases w.pool with
  | none => rfl
  | some pool => exact PodList.wanted_congr hl rfl n

theorem load_of_pool_none (hpool : w.pool = none) (n : NamespacedName) :
    w.pods.load n = none := by
  have hshows := h.shows n
  rw [hpool] at hshows
  exact Option.map_eq_none_iff.1 hshows

theorem shows_of_pool {pool : EndpointPool} (hpool : w.pool = some pool)
    (n : NamespacedName) : (w.pods.load n).map Endpoint.metadata = l.wanted metricsPort pool n := by
  rw [h.shows, hpool]
  rfl

omit h

theorem of_progress {w₀ : World Φ} {done : Set NamespacedName} {pool : EndpointPool}
    (hpool : w₀.pool = some pool) (h : Progress R (l.wanted metricsPort pool) w₀ done w)
    (hrest : ∀ n ∉ done, (w₀.pods.load n).map Endpoint.metadata = l.wanted metricsPort pool n) :
    Reflects R metricsPort l w := by
  refine ⟨h.serves, fun n => ?_⟩
  rw [h.shows hrest, h.pool, hpool]
  rfl

theorem podUpdate (h : Reflects R metricsPort l w) (hf : Serves f R) (pod : Pod) :
    Reflects R metricsPort (l.set pod) ((podUpdate f metricsPort pod).exec w).2 := by
  rw [exec_podUpdate]
  cases hpool : w.pool with
  | none => exact of_pool_none h.serves hpool (h.load_of_pool_none hpool) _
  | some pool =>
    have hwants : WantsPod metricsPort pool ((l.set pod).wanted metricsPort pool) pod :=
      (l.set pod).wantsPod pool mem_cons_self
    have hprogress := (Progress.refl h.serves).podUpdate hf (fun _ _ hn => hn.elim) hwants
    refine of_progress hpool hprogress fun n hn => ?_
    rw [h.shows_of_pool hpool, PodList.wanted_set_of_notMem]
    exact fun hmem => hn (.inr hmem)

theorem podDelete (h : Reflects R metricsPort l w) (hf : Serves f R) (podName : String) :
    Reflects R metricsPort (l.filter fun pod => pod.name ≠ podName) ((podDelete f podName).exec w).2 := by
  have hprogress := Progress.podDelete hf h.serves podName
  refine ⟨hprogress.serves, fun n => ?_⟩
  rw [hprogress.shows, hprogress.pool]
  · -- of what was there, the endpoints of other pods
    cases hpool : w.pool with
    | none =>
      rw [h.load_of_pool_none hpool]
      rfl
    | some pool =>
      change _ = (l.filter _).wanted metricsPort pool n
      rw [PodList.wanted_filter_name, ← h.shows_of_pool hpool]
      cases w.pods.load n with
      | none => rfl
      | some ep => simp only [Option.bind_some, Option.map_some, decide_eq_true_eq]
  · intro n hn
    have hload : w.pods.load n = none := AList.lookup_eq_none.2 hn
    rw [hload]
    rfl

end Reflects

/-! ## Without a pool -/

theorem Pods.eq_empty {p : Pods} (h : ∀ n, p.load n = none) : p = .empty := by
  have htable : p.table = ∅ := by
    refine AList.ext (eq_nil_iff_forall_not_mem.2 fun x hx => ?_)
    have hlookup := h x.1
    rw [Pods.load, AList.mem_lookup_iff.2 hx] at hlookup
    cases hlookup
  cases p
  cases htable
  rfl

theorem exec_clear (hf : Serves f R) (hR : R w.epf w.pods) :
    let w' := ((clear f).exec w).2
    R w'.epf .empty ∧ w'.pods = .empty ∧ w'.pool = none := by
  -- the endpoints leave the factory one after the other, and the map all at once
  have hloop : ∀ body : NamespacedName → Prog (World Φ) Unit,
      (∀ name ep w', w'.pods.load name = some ep → ((body name).exec w').2 = ((releaseEndpoint f ep).exec w').2) →
      let w' := ((w.pods.table.keys.forM body).exec { w with locked := true, pool := none }).2
      R w'.epf .empty ∧ w'.pool = none := by
    intro body hbody
    have hloop := Prog.exec_forM body
      (fun done (w' : World Φ) => w'.pods = w.pods ∧ w'.pool = none ∧
        ∃ pods, R w'.epf pods ∧ ∀ n, pods.load n = if n ∈ done then none else w.pods.load n) w.pods.table.keys
      (fun done name later w' hsplit => ?_) (s := { w with locked := true, pool := none }) ⟨rfl, rfl, w.pods, hR, fun n => by simp⟩
    · obtain ⟨-, hpool, pods, hpods, hload⟩ := hloop
      have hnone : pods = .empty := Pods.eq_empty fun n => by
        rw [hload]
        split
        · rfl
        · exact AList.lookup_eq_none.2 ‹_›
      rw [hnone] at hpods
      exact ⟨hpods, hpool⟩
    · rintro ⟨hsame, hpool, pods, hpods, hload⟩
      have hmem : name ∈ w.pods.table.keys := by
        rw [hsplit]
        simp
      obtain ⟨ep, hep⟩ := Option.isSome_iff_exists.1 (AList.lookup_isSome.2 (AList.mem_keys.1 hmem))
      have hname : ep.metadata.namespacedName = name := w.pods.keyed name ep hep
      have hnew : name ∉ done := by
        have hnodup := AList.keys_nodup w.pods.table
        rw [hsplit, nodup_append] at hnodup
        exact fun hmem => hnodup.2.2 name hmem name mem_cons_self rfl
      have hrelease := hf.release w'.epf pods ep hpods (by rw [hname, hload, if_neg hnew]; exact hep)
      have hold : w'.pods.load name = some ep := by
        rw [hsame]
        exact hep
      rw [hbody name ep w' hold]
      simp only [releaseEndpoint, Prog.exec_bind, Prog.exec_write, exec_withFactory]
      refine ⟨hsame, hpool, _, hrelease, fun n => ?_⟩
      rw [Pods.load_delete, hload, hname]
      by_cases hn : n = name
      · simp [hn]
      · simp [hn]
  simp only [clear, lock, podNames, unlock, Prog.exec_bind, Prog.exec_await, Prog.exec_write, Prog.exec_read]
  refine And.imp_right (fun hpool => ⟨trivial, hpool⟩) (hloop _ fun name ep w' hold => ?_)
  simp only [loadPod, Prog.exec_bind, Prog.exec_read, hold]

/-! ## With a pool -/

variable {labelsPkg : LabelsPackage}

theorem exec_poolSet_none (labelsPkg : LabelsPackage) (f : EndpointFactory Φ) (metricsPort : Int) (listed : Except String (List Pod)) (w : World Φ) :
    (poolSet labelsPkg f metricsPort listed none).exec w = (.ok (), ((clear f).exec w).2) := by
  simp [poolSet]

section
variable {pool : EndpointPool}

theorem exec_poolSet_same (h : needsResync labelsPkg w.pool pool = false) (listed : Except String (List Pod)) :
    (poolSet labelsPkg f metricsPort listed (some pool)).exec w = (.ok (), { w with locked := false, pool := some pool }) := by
  simp [poolSet, lock, unlock, h]

theorem exec_poolSet_error (h : needsResync labelsPkg w.pool pool = true) (err : String) :
    (poolSet labelsPkg f metricsPort (.error err) (some pool)).exec w =
      (.error ("failed to update pods according to the pool selector - failed to list pods - " ++ err),
        { w with locked := false, pool := some pool }) := by
  simp [poolSet, lock, unlock, h]

theorem exec_poolSet_resync (h : needsResync labelsPkg w.pool pool = true) (podList : List Pod) :
    (poolSet labelsPkg f metricsPort (.ok podList) (some pool)).exec w =
      (.ok (), { ((podResyncAll f metricsPort pool podList).exec { w with locked := true, pool := some pool }).2 with
        locked := false }) := by
  simp [poolSet, lock, unlock, h]

end

namespace Reflects

variable {l : PodList}

/-- A resync does not depend on what was there. -/
theorem resync (hf : Serves f R) (hR : R w.epf w.pods) (metricsPort : Int) {pool : EndpointPool} (hpool : w.pool = some pool)
    (listed : PodList) :
    let w' := ((podResyncAll f metricsPort pool listed.items).exec w).2
    Reflects R metricsPort listed.ready w' ∧ w'.pool = some pool := by
  have hprogress := Progress.podResyncAll hf hR metricsPort pool listed
  exact ⟨of_progress hpool hprogress fun n hn => absurd trivial hn, hprogress.pool.trans hpool⟩

theorem of_same_ports (h : Reflects R metricsPort l w) {pool pool' : EndpointPool} (hpool : w.pool = some pool)
    (hports : pool.targetPorts = pool'.targetPorts) : Reflects R metricsPort l { w with pool := some pool' } := by
  refine ⟨h.serves, fun n => (h.shows n).trans ?_⟩
  rw [hpool]
  exact PodList.wanted_congr (fun _ => Iff.rfl) hports n

theorem unlocked (h : Reflects R metricsPort l w) : Reflects R metricsPort l { w with locked := false } :=
  ⟨h.serves, h.shows⟩

end Reflects

theorem exists_of_needsResync_eq_false {old : Option EndpointPool} {pool : EndpointPool} (h : needsResync labelsPkg old pool = false) :
    ∃ pool', old = some pool' ∧ labelsPkg.equals pool'.selector pool.selector = true ∧ pool'.targetPorts = pool.targetPorts := by
  cases old with
  | none => cases h
  | some pool' =>
    rw [needsResync, Bool.or_eq_false_iff, Bool.not_eq_false', decide_eq_false_iff_not, not_not] at h
    exact ⟨pool', rfl, h⟩

end InferenceGateway.Datastore
