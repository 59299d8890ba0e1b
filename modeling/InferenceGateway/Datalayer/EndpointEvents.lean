import InferenceGateway.Lib.Runs
import InferenceGateway.Datalayer.Runtime
/-!
# The events of an endpoint

Endpoints come from `NewEndpoint`, may get other metadata, and go to `ReleaseEndpoint`
once. An extractor is told of the coming of an endpoint only if a poller is configured,
and of its going always. With a poller every extractor is told both, in that order.
-/

namespace InferenceGateway.Datalayer

open Lib Datastore List

/-- What an extractor has been told of an endpoint. -/
def Runtime.history (r : Runtime) (ext : Extractor) (id : ℕ) : List EventType :=
  (r.seen.filter fun call => call.1 = ext ∧ call.2.endpoint.id = id).map fun call => call.2.type

structure Lifecycle where
  runtime : Runtime
  /-- The endpoints that `NewEndpoint` has returned, until they are released. -/
  live : List Endpoint
  released : List Endpoint

namespace Lifecycle

inductive Op where
  | create (metadata : EndpointMetadata)
  /-- `UpdateMetadata`. -/
  | update (id : ℕ) (metadata : EndpointMetadata)
  /-- The endpoint of this number is released, if it is there. -/
  | release (id : ℕ)

def new : Lifecycle := ⟨.new, [], []⟩

def step (src : Sources) (s : Lifecycle) : Op → Except Empty Lifecycle
  | .create metadata =>
    let made := (Runtime.newEndpoint src metadata).exec s.runtime
    .ok { s with runtime := made.2, live := s.live ++ (made.1.map (⟨·, metadata⟩)).toList }
  | .update id metadata => .ok { s with live := s.live.map fun ep => if ep.id = id then ⟨id, metadata⟩ else ep }
  | .release id =>
    match s.live.find? fun ep => ep.id = id with
    | none => .ok s
    | some ep =>
      .ok ⟨((Runtime.releaseEndpoint src ep).exec s.runtime).2, s.live.filter fun ep' => ep'.id ≠ ep.id, s.released ++ [ep]⟩

end Lifecycle

namespace Sources

/-- The endpoint extractors of all endpoint sources. -/
def listeners (src : Sources) : List Extractor :=
  src.endpointSources.entries.flatMap fun entry => ((src.sourceExtractors.lookup entry.1).getD []).filter Extractor.endpoint

/-- The sources pass on what they are told, as `EndpointDataSource` does. -/
def PassOn (src : Sources) : Prop := ∀ entry ∈ src.endpointSources.entries, ∀ event, entry.2 event = .ok (some event)

theorem deliveries_of_passOn {src : Sources} (h : src.PassOn) (event : EndpointEvent) :
    Runtime.deliveries src event = src.listeners.map (·, event) := by
  rw [Runtime.deliveries, listeners, map_flatMap]
  refine flatMap_congr fun entry hentry => ?_
  rw [Runtime.deliveriesTo, h entry hentry event]

end Sources

/-! ## Pairs of events -/

/-- Of the numbers below `made`, those that are live have been announced, and those that are released called off too. -/
structure Paired (made : ℕ) (live released : List ℕ) (told : ℕ → List EventType) : Prop where
  below : ∀ id ∈ live ++ released, id < made
  nodup : (live ++ released).Nodup
  told_live : ∀ id ∈ live, told id = [.addOrUpdate]
  told_released : ∀ id ∈ released, told id = [.addOrUpdate, .delete]
  told_other : ∀ id ∉ live ++ released, told id = []

namespace Paired

variable {made : ℕ} {live released : List ℕ} {told told' : ℕ → List EventType}

variable (h : Paired made live released told)
include h

theorem skip : Paired (made + 1) live released told :=
  { h with below := fun id hid => (h.below id hid).trans (Nat.lt_succ_self made) }

theorem come
    (htold : ∀ id, told' id = told id ++ if made = id then [.addOrUpdate] else []) : Paired (made + 1) (live ++ [made]) released told' := by
  have hmem : ∀ id, id ∈ live ++ [made] ++ released ↔ id = made ∨ id ∈ live ++ released := by
    intro id
    simp only [mem_append, mem_singleton]
    tauto
  have hfresh : made ∉ live ++ released := fun hmade => lt_irrefl _ (h.below _ hmade)
  have hold : ∀ id ∈ live ++ released, told' id = told id := by
    intro id hid
    rw [htold, if_neg (h.below id hid).ne', append_nil]
  refine ⟨fun id hid => ?_, ?_, fun id hid => ?_, fun id hid => ?_, fun id hid => ?_⟩
  · rcases (hmem id).1 hid with rfl | hid
    · exact Nat.lt_succ_self _
    · exact (h.below id hid).trans (Nat.lt_succ_self made)
  · rw [append_assoc, singleton_append, nodup_middle]
    exact nodup_cons.2 ⟨hfresh, h.nodup⟩
  · rcases mem_append.1 hid with hid | hid
    · rw [hold id (mem_append_left _ hid), h.told_live id hid]
    · rw [mem_singleton.1 hid, htold, h.told_other made hfresh, if_pos rfl, nil_append]
  · rw [hold id (mem_append_right _ hid), h.told_released id hid]
  · rw [hmem, not_or] at hid
    rw [htold, h.told_other id hid.2, if_neg (Ne.symm hid.1), nil_append]

theorem go {id₀ : ℕ} (hlive : id₀ ∈ live)
    (htold : ∀ id, told' id = told id ++ if id₀ = id then [.delete] else []) :
    Paired made (live.filter (· ≠ id₀)) (released ++ [id₀]) told' := by
  have hmem : ∀ id, id ∈ live.filter (· ≠ id₀) ++ (released ++ [id₀]) ↔ id ∈ live ++ released := by
    intro id
    by_cases hid : id = id₀
    · simp [hid, hlive]
    · simp [hid]
  obtain ⟨hnodup, hreleased, hapart⟩ := nodup_append.1 h.nodup
  have hother : ∀ id, id ≠ id₀ → told' id = told id := by
    intro id hid
    rw [htold, if_neg (Ne.symm hid), append_nil]
  refine ⟨fun id hid => h.below id ((hmem id).1 hid), ?_, fun id hid => ?_, fun id hid => ?_, fun id hid => ?_⟩
  · refine nodup_append.2 ⟨hnodup.filter _, nodup_append.2 ⟨hreleased, nodup_singleton _, ?_⟩, ?_⟩
    · rintro id hid id' hid' rfl
      exact hapart id₀ hlive id hid (mem_singleton.1 hid').symm
    · rintro id hid id' hid' rfl
      rcases mem_append.1 hid' with hid' | hid'
      · exact hapart id (mem_of_mem_filter hid) id hid' rfl
      · exact of_decide_eq_true (mem_filter.1 hid).2 (mem_singleton.1 hid')
  · obtain ⟨hid, hne⟩ := mem_filter.1 hid
    rw [hother id (of_decide_eq_true hne), h.told_live id hid]
  · rcases mem_append.1 hid with hid | hid
    · rw [hother id fun heq => hapart id₀ hlive id hid heq.symm, h.told_released id hid]
    · rw [mem_singleton.1 hid, htold, h.told_live id₀ hlive, if_pos rfl]
      rfl
  · rw [hmem] at hid
    rw [hother id fun heq => hid (mem_append_left _ (heq ▸ hlive)), h.told_other id hid]

end Paired

/-! ## Runs -/

/-- An extractor that is configured once is told each event once. -/
theorem Runtime.history_dispatch {src : Sources} {ext : Extractor} (hpass : src.PassOn) (hext : src.listeners.count ext = 1)
    {event : EndpointEvent} {r r' : Runtime} (hseen : r'.seen = r.seen ++ deliveries src event) (id : ℕ) :
    r'.history ext id = r.history ext id ++ if event.endpoint.id = id then [event.type] else [] := by
  rw [history, hseen, filter_append, map_append, Sources.deliveries_of_passOn hpass, filter_map, map_map]
  refine congrArg (r.history ext id ++ ·) ?_
  split
  · have honce : src.listeners.filter (fun ext' => ext' = ext) = [ext] := by
      rw [filter_eq, hext]
      rfl
    have hsame : ((fun call : Extractor × EndpointEvent => decide (call.1 = ext ∧ call.2.endpoint.id = id)) ∘ (·, event)) =
        fun ext' => decide (ext' = ext) := by
      funext ext'
      simp [*]
    rw [hsame, honce]
    rfl
  · simp [*]

namespace Lifecycle

variable {src : Sources} {ext : Extractor} {s s' : Lifecycle}

/-- The pairs of events that an extractor has been told of. -/
def PairedFor (ext : Extractor) (s : Lifecycle) : Prop :=
  Paired s.runtime.made (s.live.map Endpoint.id) (s.released.map Endpoint.id) (s.runtime.history ext)

variable (h : s.PairedFor ext)
include h

theorem PairedFor.create (hpollers : src.pollers ≠ []) (hpass : src.PassOn) (hext : src.listeners.count ext = 1)
    {metadata : EndpointMetadata} (hstep : s.step src (.create metadata) = .ok s') : s'.PairedFor ext := by
  have hexec := Runtime.exec_newEndpoint src metadata s.runtime
  simp only [step] at hstep hexec
  generalize (Runtime.newEndpoint src metadata).exec s.runtime = made at hstep hexec
  cases hstep
  rw [if_neg hpollers] at hexec
  obtain ⟨result, runtime⟩ := made
  simp only at hexec
  obtain ⟨hmade, ⟨rfl, hseen⟩ | ⟨rfl, hseen⟩⟩ := hexec
  -- no endpoint has come of it: its number is used up, and nobody is told
  · have hsame : runtime.history ext = s.runtime.history ext := funext fun id => by rw [Runtime.history, hseen, Runtime.history]
    simp only [PairedFor, hmade, hsame, Option.map_none, Option.toList_none, append_nil]
    exact Paired.skip h
  · simp only [PairedFor, hmade, Option.map_some, Option.toList_some, map_append, map_singleton]
    exact Paired.come h (Runtime.history_dispatch hpass hext hseen)

theorem PairedFor.update {id : ℕ} {metadata : EndpointMetadata}
    (hstep : s.step src (.update id metadata) = .ok s') : s'.PairedFor ext := by
  cases hstep
  have hids : (s.live.map fun ep => if ep.id = id then ⟨id, metadata⟩ else ep).map Endpoint.id = s.live.map Endpoint.id := by
    rw [map_map]
    refine map_congr_left fun ep _ => ?_
    rw [Function.comp_apply]
    split
    · exact Eq.symm ‹_›
    · rfl
  rw [PairedFor, hids]
  exact h

theorem PairedFor.release (hpass : src.PassOn) (hext : src.listeners.count ext = 1) {id : ℕ}
    (hstep : s.step src (.release id) = .ok s') : s'.PairedFor ext := by
  simp only [step] at hstep
  cases hfind : s.live.find? fun ep => ep.id = id with
  | none =>
    rw [hfind] at hstep
    cases hstep
    exact h
  | some ep =>
    rw [hfind] at hstep
    cases hstep
    obtain ⟨hmade, hseen⟩ := Runtime.exec_releaseEndpoint src ep s.runtime
    have hgo := Paired.go h (mem_map_of_mem (mem_of_find?_eq_some hfind)) (Runtime.history_dispatch hpass hext hseen)
    rw [filter_map] at hgo
    rw [PairedFor, hmade, map_append, map_singleton]
    exact hgo

theorem PairedFor.step (hpollers : src.pollers ≠ []) (hpass : src.PassOn) (hext : src.listeners.count ext = 1)
    {op : Op} (hstep : s.step src op = .ok s') : s'.PairedFor ext := by
  cases op with
  | create metadata => exact h.create hpollers hpass hext hstep
  | update id metadata => exact h.update hstep
  | release id => exact h.release hpass hext hstep

omit h

theorem PairedFor.new (ext : Extractor) : new.PairedFor ext :=
  ⟨fun _ h => absurd h not_mem_nil, .nil, fun _ h => absurd h not_mem_nil, fun _ h => absurd h not_mem_nil, fun _ _ => rfl⟩

/-- With a poller, an extractor is told of every endpoint once that it has come, and after that once that it has gone. -/
theorem add_before_delete (hpollers : src.pollers ≠ []) (hpass : src.PassOn) (hext : src.listeners.count ext = 1)
    (hrun : Runs (Lifecycle.step src) (fun _ _ => True) new s) :
    (∀ ep ∈ s.live, s.runtime.history ext ep.id = [.addOrUpdate]) ∧
    (∀ ep ∈ s.released, s.runtime.history ext ep.id = [.addOrUpdate, .delete]) ∧
    ∀ id, (∀ ep ∈ s.live ++ s.released, ep.id ≠ id) → s.runtime.history ext id = [] := by
  have hpaired : s.PairedFor ext := by
    refine Runs.invariant (PairedFor ext) (fun s op s' h _ hstep => h.step hpollers hpass hext hstep) (.new ext) hrun
  refine ⟨fun ep hep => hpaired.told_live _ (mem_map_of_mem hep), fun ep hep => hpaired.told_released _ (mem_map_of_mem hep),
    fun id hid => hpaired.told_other id ?_⟩
  rw [← map_append, List.mem_map]
  rintro ⟨ep, hep, heq⟩
  exact hid ep hep heq

/-- One endpoint source with one extractor, and these pollers. -/
def oneListener (pollers : List String) : Sources where
  pollers := pollers
  endpointSources := (∅ : Table String NotifyEndpoint).insert "endpoints" fun event => .ok (some event)
  sourceExtractors := (∅ : Table String (List Extractor)).insert "endpoints" [⟨"load", true⟩]
  startFails _ := false

theorem passOn_oneListener (pollers : List String) : (oneListener pollers).PassOn := by
  intro entry hentry event
  cases mem_singleton.1 hentry
  rfl

def metadataOne : EndpointMetadata := ⟨⟨"default", "a-rank-0"⟩, "a", "10.0.0.1", "8000", "10.0.0.1:8000", ∅⟩

theorem add_before_delete_poller : ∃ s, Runs (Lifecycle.step (oneListener ["metrics"])) (fun _ _ => True) new s ∧
    s.released.length = 1 ∧ ∀ ep ∈ s.released, s.runtime.history ⟨"load", true⟩ ep.id = [.addOrUpdate, .delete] := by
  refine exists_runs [.create metadataOne, .release 0] (fun s => s.released.length = 1) (by decide +kernel) fun s hrun hs => ⟨hs, ?_⟩
  exact (add_before_delete (by decide) (passOn_oneListener ["metrics"]) (by decide +kernel) hrun).2.1

/-- Without a poller an endpoint goes that has not come. -/
theorem delete_without_add : ∃ s, Runs (Lifecycle.step (oneListener [])) (fun _ _ => True) new s ∧
    s.runtime.history ⟨"load", true⟩ 0 = [.delete] :=
  exists_runs [.create metadataOne, .release 0] _ (by decide +kernel) fun _ _ h => h

end Lifecycle

end InferenceGateway.Datalayer
