import InferenceGateway.Datastore.Store
/-!
# Going through names

The functions of the datastore, run alone, go from name to name and bring the entry under
each to what it is to be. `Progress` says how far they are: the names that are done have
the endpoint that is wanted, which is the old one if there was one, the others are as
they were, and what has been released are the endpoints that are gone, each once.
-/

namespace InferenceGateway.Datastore

open Lib List

variable {Φ : Type} {f : EndpointFactory Φ} {metricsPort : Int}

/-- The factory makes an endpoint when there is none of that name, as long as what it
keeps agrees with the map in the sense of `R`. -/
structure Serves (f : EndpointFactory Φ) (R : Φ → Pods → Prop) : Prop where
  new : ∀ φ pods m, R φ pods → pods.load m.namespacedName = none →
    ∃ id φ', (f.newEndpoint m).exec φ = (some id, φ') ∧ R φ' (pods.store ⟨id, m⟩)
  update : ∀ φ pods ep m, R φ pods → pods.load m.namespacedName = some ep → R φ (pods.store ⟨ep.id, m⟩)
  release : ∀ φ pods ep, R φ pods → pods.load ep.metadata.namespacedName = some ep →
    R ((f.releaseEndpoint ep).exec φ).2 (pods.delete ep.metadata.namespacedName)

theorem exec_withFactory {α : Type} (p : Prog Φ α) (w : World Φ) :
    (withFactory p).exec w = ((p.exec w.epf).1, { w with epf := (p.exec w.epf).2 }) :=
  Prog.exec_on World.epf (fun w φ => { w with epf := φ }) (fun _ _ => rfl) (fun _ => rfl) (fun _ _ _ => rfl) p w

/-! ## Single names -/

variable {m : EndpointMetadata} {w : World Φ} {ep : Endpoint}

theorem exec_addOrUpdate_some (h : w.pods.load m.namespacedName = some ep) :
    ((addOrUpdate f m).exec w).2 = { w with pods := w.pods.store ⟨ep.id, m⟩ } := by
  simp [addOrUpdate, loadPod, updateMetadata, h, Pods.update_of_load _ h]

theorem exec_addOrUpdate_none {id : ℕ} {φ : Φ} (h : w.pods.load m.namespacedName = none)
    (hnew : (f.newEndpoint m).exec w.epf = (some id, φ)) :
    ((addOrUpdate f m).exec w).2 = { w with pods := (w.pods.store ⟨id, m⟩).store ⟨id, m⟩, epf := φ } := by
  have hload : (w.pods.store ⟨id, m⟩).load m.namespacedName = some ⟨id, m⟩ := by rw [Pods.load_store, if_pos rfl]
  simp [addOrUpdate, loadPod, exec_withFactory, updateMetadata, storePod, h, hnew, Pods.update_of_load _ hload]

variable {name : NamespacedName}

theorem exec_removeIf_none (h : w.pods.load name = none) (drop : Endpoint → Bool) :
    ((removeIf f drop name).exec w).2 = w := by
  simp [removeIf, loadPod, h]

theorem exec_removeIf_keep (h : w.pods.load name = some ep) {drop : Endpoint → Bool} (hdrop : drop ep = false) :
    ((removeIf f drop name).exec w).2 = w := by
  simp [removeIf, loadPod, h, hdrop]

theorem exec_removeIf_drop (h : w.pods.load name = some ep) {drop : Endpoint → Bool} (hdrop : drop ep = true) :
    ((removeIf f drop name).exec w).2 =
      { w with pods := w.pods.delete name, epf := ((f.releaseEndpoint ep).exec w.epf).2, released := w.released ++ [ep] } := by
  simp [removeIf, loadPod, deletePod, releaseEndpoint, exec_withFactory, h, hdrop]

/-! ## Progress -/

structure Progress (R : Φ → Pods → Prop) (wanted : NamespacedName → Option EndpointMetadata) (w₀ : World Φ)
    (done : Set NamespacedName) (w : World Φ) : Prop where
  serves : R w.epf w.pods
  pool : w.pool = w₀.pool
  locked : w.locked = w₀.locked
  made : ∀ n m, n ∈ done → wanted n = some m →
    ∃ id, w.pods.load n = some ⟨id, m⟩ ∧ ∀ ep, w₀.pods.load n = some ep → ep.id = id
  gone : ∀ n, n ∈ done → wanted n = none → w.pods.load n = none
  others : ∀ n, n ∉ done → w.pods.load n = w₀.pods.load n
  released : ∃ L, w.released = w₀.released ++ L ∧ L.Nodup ∧
    ∀ ep, ep ∈ L ↔ ∃ n ∈ done, wanted n = none ∧ w₀.pods.load n = some ep

variable {R : Φ → Pods → Prop} {wanted : NamespacedName → Option EndpointMetadata} {w₀ w : World Φ} {done : Set NamespacedName}

theorem Progress.refl (hR : R w.epf w.pods) : Progress R wanted w ∅ w where
  serves := hR
  pool := rfl
  locked := rfl
  made _ _ h := h.elim
  gone _ h := h.elim
  others _ _ := rfl
  released := ⟨[], (append_nil _).symm, .nil, fun _ => ⟨nofun, fun ⟨_, h, _⟩ => h.elim⟩⟩

variable (h : Progress R wanted w₀ done w)
include h

/-- Where all that is not done yet is as it is to be, everything is. -/
theorem Progress.shows (hrest : ∀ n ∉ done, (w₀.pods.load n).map Endpoint.metadata = wanted n) (n : NamespacedName) :
    (w.pods.load n).map Endpoint.metadata = wanted n := by
  by_cases hn : n ∈ done
  · cases hwanted : wanted n with
    | none => rw [h.gone n hn hwanted, Option.map_none]
    | some m =>
      obtain ⟨id, hid, -⟩ := h.made n m hn hwanted
      rw [hid, Option.map_some]
  · rw [h.others n hn, hrest n hn]

theorem Progress.congr (done' : Set NamespacedName) (hset : ∀ n, n ∈ done' ↔ n ∈ done) :
    Progress R wanted w₀ done' w := by
  rwa [Set.ext hset]

/-- The endpoint under a new name is the one that is wanted. -/
theorem Progress.store (hnew : m.namespacedName ∉ done)
    (hwanted : wanted m.namespacedName = some m) (id : ℕ)
    (hid : ∀ ep, w.pods.load m.namespacedName = some ep → ep.id = id) {w' : World Φ} (hserves : R w'.epf w'.pods)
    (hpool : w'.pool = w.pool) (hlocked : w'.locked = w.locked) (hreleased : w'.released = w.released)
    (hload : ∀ n, w'.pods.load n = if n = m.namespacedName then some ⟨id, m⟩ else w.pods.load n) :
    Progress R wanted w₀ (insert m.namespacedName done) w' where
  serves := hserves
  pool := hpool.trans h.pool
  locked := hlocked.trans h.locked
  made n m' hn hm' := by
    by_cases hname : n = m.namespacedName
    · subst hname
      rw [hwanted] at hm'
      cases hm'
      exact ⟨id, by rw [hload, if_pos rfl], fun ep hep => hid ep (by rwa [h.others _ hnew])⟩
    · rw [hload, if_neg hname]
      exact h.made n m' (hn.resolve_left hname) hm'
  gone n hn hnone := by
    have hname : n ≠ m.namespacedName := by
      rintro rfl
      rw [hwanted] at hnone
      cases hnone
    rw [hload, if_neg hname]
    exact h.gone n (hn.resolve_left hname) hnone
  others n hn := by
    rw [Set.mem_insert_iff, not_or] at hn
    rw [hload, if_neg hn.1]
    exact h.others n hn.2
  released := by
    obtain ⟨L, hL, hnodup, hmem⟩ := h.released
    refine ⟨L, hreleased.trans hL, hnodup, fun ep => (hmem ep).trans ?_⟩
    constructor
    · rintro ⟨n, hn, hrest⟩
      exact ⟨n, .inr hn, hrest⟩
    · rintro ⟨n, rfl | hn, hnone, hep⟩
      · rw [hwanted] at hnone
        cases hnone
      · exact ⟨n, hn, hnone, hep⟩

theorem Progress.addOrUpdate (hf : Serves f R) (hnew : m.namespacedName ∉ done)
    (hwanted : wanted m.namespacedName = some m) :
    Progress R wanted w₀ (insert m.namespacedName done) ((addOrUpdate f m).exec w).2 := by
  cases hload : w.pods.load m.namespacedName with
  | some ep =>
    rw [exec_addOrUpdate_some hload]
    refine h.store hnew hwanted ep.id (fun ep' hep => ?_) (hf.update _ _ _ _ h.serves hload) rfl rfl rfl fun n => Pods.load_store ..
    cases hload.symm.trans hep
    rfl
  | none =>
    obtain ⟨id, φ, hexec, hR⟩ := hf.new _ _ m h.serves hload
    rw [exec_addOrUpdate_none hload hexec]
    have hstored : (w.pods.store ⟨id, m⟩).load m.namespacedName = some ⟨id, m⟩ := by rw [Pods.load_store, if_pos rfl]
    refine h.store hnew hwanted id (fun ep hep => ?_) (hf.update _ _ _ m hR hstored) rfl rfl rfl fun n => ?_
    · rw [hload] at hep
      cases hep
    · simp only [Pods.load_store]
      split <;> rfl

variable {n : NamespacedName}

/-- A name whose entry is as it is to be. -/
theorem Progress.mark (hnew : n ∉ done)
    (hwanted : wanted n = (w₀.pods.load n).map Endpoint.metadata) : Progress R wanted w₀ (insert n done) w where
  serves := h.serves
  pool := h.pool
  locked := h.locked
  made := by
    rintro n' m (rfl | hn') hm
    · obtain ⟨ep, hep, rfl⟩ := Option.map_eq_some_iff.1 (hwanted.symm.trans hm)
      refine ⟨ep.id, (h.others n' hnew).trans hep, fun ep' hep' => ?_⟩
      cases hep.symm.trans hep'
      rfl
    · exact h.made n' m hn' hm
  gone := by
    rintro n' (rfl | hn') hnone
    · exact (h.others n' hnew).trans (Option.map_eq_none_iff.1 (hwanted.symm.trans hnone))
    · exact h.gone n' hn' hnone
  others n' hn' := h.others n' fun hd => hn' (.inr hd)
  released := by
    obtain ⟨L, hL, hnodup, hmem⟩ := h.released
    refine ⟨L, hL, hnodup, fun ep => (hmem ep).trans ?_⟩
    constructor
    · rintro ⟨n', hn', hrest⟩
      exact ⟨n', .inr hn', hrest⟩
    · rintro ⟨n', rfl | hn', hnone, hep⟩
      · rw [hwanted, hep] at hnone
        cases hnone
      · exact ⟨n', hn', hnone, hep⟩

/-- The entry under a new name goes. -/
theorem Progress.drop (hf : Serves f R) (hnew : n ∉ done) (hwanted : wanted n = none)
    (hload : w.pods.load n = some ep) : Progress R wanted w₀ (insert n done)
      { w with pods := w.pods.delete n, epf := ((f.releaseEndpoint ep).exec w.epf).2, released := w.released ++ [ep] } := by
  have hname : ep.metadata.namespacedName = n := w.pods.keyed n ep hload
  have hold : w₀.pods.load n = some ep := (h.others n hnew).symm.trans hload
  obtain ⟨L, hL, hnodup, hmem⟩ := h.released
  refine ⟨?_, h.pool, h.locked, ?_, ?_, fun n' hn' => ?_, L ++ [ep], ?_, ?_, fun ep' => ?_⟩
  · have hR := hf.release w.epf w.pods ep h.serves (by rwa [hname])
    rwa [hname] at hR
  · rintro n' m (rfl | hn') hm
    · rw [hwanted] at hm
      cases hm
    · have hne : n' ≠ n := by
        rintro rfl
        exact hnew hn'
      simp only [Pods.load_delete, if_neg hne]
      exact h.made n' m hn' hm
  · rintro n' (rfl | hn') hnone
    · exact (Pods.load_delete ..).trans (if_pos rfl)
    · simp only [Pods.load_delete]
      split
      · rfl
      · exact h.gone n' hn' hnone
  · rw [Set.mem_insert_iff, not_or] at hn'
    simp only [Pods.load_delete, if_neg hn'.1]
    exact h.others n' hn'.2
  · simp only [hL, append_assoc]
  · -- it was not released before: each endpoint is under one name only
    refine hnodup.append (nodup_singleton ep) ?_
    intro ep' hep' hsingle
    cases mem_singleton.1 hsingle
    obtain ⟨n', hn', -, hep⟩ := (hmem ep).1 hep'
    have hsame : ep.metadata.namespacedName = n' := w₀.pods.keyed n' ep hep
    rw [← hsame, hname] at hn'
    exact hnew hn'
  · rw [mem_append, mem_singleton, hmem]
    constructor
    · rintro (⟨n', hn', hrest⟩ | rfl)
      · exact ⟨n', .inr hn', hrest⟩
      · exact ⟨n, .inl rfl, hwanted, hold⟩
    · rintro ⟨n', rfl | hn', hnone, hep⟩
      · rw [hold] at hep
        cases hep
        exact .inr rfl
      · exact .inl ⟨n', hn', hnone, hep⟩

/-- A name is visited: its entry goes if it is to be dropped. -/
theorem Progress.visit (hf : Serves f R) {drop : Endpoint → Bool}
    (hcase : (n ∈ done ∧ ∀ ep, w.pods.load n = some ep → drop ep = false) ∨
      (n ∉ done ∧ wanted n = (w₀.pods.load n).bind fun ep => if drop ep then none else some ep.metadata)) :
    Progress R wanted w₀ (insert n done) ((removeIf f drop n).exec w).2 := by
  rcases hcase with ⟨hdone, hkeep⟩ | ⟨hnew, hwanted⟩
  · rw [Set.insert_eq_of_mem hdone]
    cases hload : w.pods.load n with
    | none => rwa [exec_removeIf_none hload]
    | some ep => rwa [exec_removeIf_keep hload (hkeep ep hload)]
  · have hold := h.others n hnew
    cases hload : w.pods.load n with
    | none =>
      rw [exec_removeIf_none hload]
      refine h.mark hnew (hwanted.trans ?_)
      rw [← hold, hload]
      rfl
    | some ep =>
      rw [← hold, hload] at hwanted
      cases hdrop : drop ep with
      | true =>
        rw [exec_removeIf_drop hload hdrop]
        exact h.drop hf hnew (hwanted.trans (if_pos hdrop)) hload
      | false =>
        rw [exec_removeIf_keep hload hdrop]
        refine h.mark hnew (hwanted.trans ?_)
        rw [← hold, hload]
        exact if_neg (by simp [hdrop])

omit h

/-! ## Loops -/

theorem mem_union_snoc {names : List NamespacedName} {n' : NamespacedName} :
    n' ∈ done ∪ {x | x ∈ names ++ [n]} ↔ n' ∈ insert n (done ∪ {x | x ∈ names}) := by
  simp only [Set.mem_union, Set.mem_insert_iff]
  change n' ∈ done ∨ n' ∈ names ++ [n] ↔ n' = n ∨ n' ∈ done ∨ n' ∈ names
  rw [mem_append, mem_singleton]
  tauto

theorem Progress.addAll (h : Progress R wanted w₀ done w) (hf : Serves f R) {ms : List EndpointMetadata}
    (hapart : ms.Pairwise fun a b => a.namespacedName ≠ b.namespacedName)
    (hms : ∀ m ∈ ms, m.namespacedName ∉ done ∧ wanted m.namespacedName = some m) (b : Bool) :
    Progress R wanted w₀ (done ∪ {n | n ∈ ms.map EndpointMetadata.namespacedName})
      ((ms.foldlM (fun result metadata => do return (← Datastore.addOrUpdate f metadata) && result) b).exec w).2 := by
  refine Prog.exec_foldlM _ (fun ms w => Progress R wanted w₀ (done ∪ {n | n ∈ ms.map EndpointMetadata.namespacedName}) w) _
    (fun before m later b w hsplit hprogress => ?_) b (h.congr _ fun n => by simp)
  obtain ⟨hnew, hwanted⟩ := hms m (by rw [hsplit]; simp)
  rw [hsplit, pairwise_append] at hapart
  have hfresh : m.namespacedName ∉ done ∪ {n | n ∈ before.map EndpointMetadata.namespacedName} := by
    rintro (hd | hb)
    · exact hnew hd
    · obtain ⟨m', hm', hname⟩ := List.mem_map.1 hb
      exact hapart.2.2 m' hm' m mem_cons_self hname
  have hnext := hprogress.addOrUpdate hf hfresh hwanted
  have hexec : ((do return (← Datastore.addOrUpdate f m) && b : Prog (World Φ) Bool).exec w).2 =
      ((Datastore.addOrUpdate f m).exec w).2 := by simp
  rw [hexec, map_append]
  exact hnext.congr _ fun n => mem_union_snoc

theorem Progress.visitAll (h : Progress R wanted w₀ done w) (hf : Serves f R) {ns : List NamespacedName} (hnodup : ns.Nodup)
    (drop : Endpoint → Bool) (hcase : ∀ n ∈ ns, (n ∈ done ∧ ∀ ep, ep.metadata.namespacedName = n → drop ep = false) ∨
      (n ∉ done ∧ wanted n = (w₀.pods.load n).bind fun ep => if drop ep then none else some ep.metadata)) :
    Progress R wanted w₀ (done ∪ {n | n ∈ ns}) ((ns.forM (removeIf f drop)).exec w).2 := by
  refine Prog.exec_forM _ (fun ns w => Progress R wanted w₀ (done ∪ {n | n ∈ ns}) w) _
    (fun before n later w hsplit hprogress => ?_) (h.congr _ fun n => by simp)
  have hn := hcase n (by rw [hsplit]; simp)
  rw [hsplit, nodup_append] at hnodup
  refine (hprogress.visit hf ?_).congr _ fun n => mem_union_snoc
  rcases hn with ⟨hdone, hkeep⟩ | ⟨hnew, hwanted⟩
  · exact .inl ⟨.inl hdone, fun ep hep => hkeep ep (w.pods.keyed n ep hep)⟩
  · refine .inr ⟨?_, hwanted⟩
    rintro (hd | hb)
    · exact hnew hd
    · exact hnodup.2.2 n hb n mem_cons_self rfl

/-! ## The endpoints of a pod -/

/-- The names that the endpoints of a pod may have. -/
def podNamesOf (pool : EndpointPool) (pod : Pod) : Set NamespacedName :=
  {n | ∃ idx < pool.targetPorts.length, n = createEndpointNamespacedName pod idx}

variable {pool : EndpointPool} {pod : Pod}

theorem mem_endpointsOf :
    m ∈ endpointsOf metricsPort pool pod ↔ ∃ idx port, pool.targetPorts[idx]? = some port ∧
      port ∈ extractActivePorts pod pool.targetPorts ∧ m = endpointMetadata metricsPort pool pod idx port := by
  rw [endpointsOf, mem_filterMap]
  constructor
  · rintro ⟨⟨port, idx⟩, hmem, hm⟩
    rw [mem_zipIdx_iff_getElem?] at hmem
    simp only [Option.ite_none_right_eq_some, Option.some.injEq] at hm
    exact ⟨idx, port, hmem, hm.1, hm.2.symm⟩
  · rintro ⟨idx, port, hport, hactive, rfl⟩
    exact ⟨(port, idx), mem_zipIdx_iff_getElem?.2 hport, if_pos hactive⟩

theorem mem_inactiveNames : n ∈ inactiveNames pool pod ↔ ∃ idx port, pool.targetPorts[idx]? = some port ∧
      port ∉ extractActivePorts pod pool.targetPorts ∧ n = createEndpointNamespacedName pod idx := by
  rw [inactiveNames, mem_filterMap]
  constructor
  · rintro ⟨⟨port, idx⟩, hmem, hn⟩
    rw [mem_zipIdx_iff_getElem?] at hmem
    simp only [Option.ite_none_left_eq_some, Option.some.injEq] at hn
    exact ⟨idx, port, hmem, hn.1, hn.2.symm⟩
  · rintro ⟨idx, port, hport, hactive, rfl⟩
    exact ⟨(port, idx), mem_zipIdx_iff_getElem?.2 hport, if_neg hactive⟩

/-- Positions of a list are distinct. -/
theorem zipIdx_apart (ports : List Int) : ports.zipIdx.Pairwise fun a b => a.2 ≠ b.2 := by
  have hnodup : (ports.zipIdx.map Prod.snd).Nodup := by
    rw [zipIdx_map_snd]
    exact nodup_range'
  exact pairwise_map.1 hnodup

theorem endpointsOf_apart (metricsPort : Int) (pool : EndpointPool) (pod : Pod) :
    (endpointsOf metricsPort pool pod).Pairwise fun a b => a.namespacedName ≠ b.namespacedName := by
  refine List.Pairwise.filterMap _ ?_ (zipIdx_apart pool.targetPorts)
  rintro ⟨port, idx⟩ ⟨port', idx'⟩ hne m hm m' hm' hname
  simp only [Option.ite_none_right_eq_some, Option.some.injEq] at hm hm'
  rw [← hm.2, ← hm'.2] at hname
  exact hne (createEndpointNamespacedName_inj hname).2

theorem inactiveNames_apart (pool : EndpointPool) (pod : Pod) : (inactiveNames pool pod).Nodup := by
  refine List.Pairwise.filterMap _ ?_ (zipIdx_apart pool.targetPorts)
  rintro ⟨port, idx⟩ ⟨port', idx'⟩ hne n hn n' hn' hname
  simp only [Option.ite_none_left_eq_some, Option.some.injEq] at hn hn'
  rw [← hn.2, ← hn'.2] at hname
  exact hne (createEndpointNamespacedName_inj hname).2

/-- What is wanted of a pod: the endpoints at its active ports. -/
def WantsPod (modelServerMetricsPort : Int) (pool : EndpointPool) (wanted : NamespacedName → Option EndpointMetadata) (pod : Pod) : Prop :=
  ∀ idx port, pool.targetPorts[idx]? = some port → wanted (createEndpointNamespacedName pod idx) =
    if port ∈ extractActivePorts pod pool.targetPorts then some (endpointMetadata modelServerMetricsPort pool pod idx port) else none

theorem mem_podNamesOf (metricsPort : Int) : n ∈ podNamesOf pool pod ↔
    n ∈ (endpointsOf metricsPort pool pod).map EndpointMetadata.namespacedName ∨ n ∈ inactiveNames pool pod := by
  constructor
  · rintro ⟨idx, hidx, rfl⟩
    have hport := List.getElem?_eq_getElem hidx
    by_cases hactive : pool.targetPorts[idx] ∈ extractActivePorts pod pool.targetPorts
    · exact .inl (List.mem_map.2 ⟨_, mem_endpointsOf.2 ⟨idx, _, hport, hactive, rfl⟩, rfl⟩)
    · exact .inr (mem_inactiveNames.2 ⟨idx, _, hport, hactive, rfl⟩)
  · rintro (hn | hn)
    · obtain ⟨m, hm, rfl⟩ := List.mem_map.1 hn
      obtain ⟨idx, port, hport, -, rfl⟩ := mem_endpointsOf.1 hm
      exact ⟨idx, (List.getElem?_eq_some_iff.1 hport).1, rfl⟩
    · obtain ⟨idx, port, hport, -, rfl⟩ := mem_inactiveNames.1 hn
      exact ⟨idx, (List.getElem?_eq_some_iff.1 hport).1, rfl⟩

theorem WantsPod.active (h : WantsPod metricsPort pool wanted pod)
    (hm : m ∈ endpointsOf metricsPort pool pod) : wanted m.namespacedName = some m := by
  obtain ⟨idx, port, hport, hactive, rfl⟩ := mem_endpointsOf.1 hm
  exact (h idx port hport).trans (if_pos hactive)

theorem WantsPod.inactive (h : WantsPod metricsPort pool wanted pod) (hn : n ∈ inactiveNames pool pod) :
    wanted n = none := by
  obtain ⟨idx, port, hport, hinactive, rfl⟩ := mem_inactiveNames.1 hn
  exact (h idx port hport).trans (if_neg hinactive)

/-- Adding a pod goes through the names it may have. -/
theorem Progress.podUpdate (h : Progress R wanted w₀ done w) (hf : Serves f R)
    (hnew : ∀ n ∈ podNamesOf pool pod, n ∉ done) (hwanted : WantsPod metricsPort pool wanted pod) :
    Progress R wanted w₀ (done ∪ podNamesOf pool pod)
      ((podUpdateOrAddIfNotExist f metricsPort pod (some pool)).exec w).2 := by
  have hadded := h.addAll hf (endpointsOf_apart metricsPort pool pod)
    (fun m hm => ⟨hnew _ ((mem_podNamesOf metricsPort).2 (.inl (mem_map_of_mem hm))), hwanted.active hm⟩) true
  have hremoved := hadded.visitAll hf (inactiveNames_apart pool pod) (fun _ => true) fun n hn => ?_
  · have hexec := hremoved.congr (done ∪ podNamesOf pool pod) fun n => ?_
    · simpa [podUpdateOrAddIfNotExist] using hexec
    · change n ∈ done ∨ n ∈ podNamesOf pool pod ↔ (n ∈ done ∨ _) ∨ n ∈ inactiveNames pool pod
      rw [mem_podNamesOf metricsPort, or_assoc]
      rfl
  · refine .inr ⟨?_, ?_⟩
    · rintro (hd | ha)
      · exact hnew n ((mem_podNamesOf metricsPort).2 (.inr hn)) hd
      · obtain ⟨m, hm, rfl⟩ := List.mem_map.1 ha
        have hsome := hwanted.active hm
        rw [hwanted.inactive hn] at hsome
        cases hsome
    · rw [hwanted.inactive hn]
      cases w₀.pods.load n <;> rfl

end InferenceGateway.Datastore
