import InferenceGateway.Datastore.Endpoints
import InferenceGateway.InFlightLoad.Producer
/-!
# Deleted pods

`ExtractNotification` drops the counters that are kept under the name of the deleted pod.
Requests are counted under the names of endpoints, and these have the rank after the name
of the pod. So an entry goes only when a pod is deleted that is called as the endpoint is.
-/

namespace InferenceGateway.InFlightLoad

open Lib Datastore List

def endpointID (pod : Pod) (idx : ℕ) : String := (createEndpointNamespacedName pod idx).string

inductive Input where
  | schedule (request : Request)
  | advance (j : ℕ)
  /-- `ExtractNotification` for a deleted pod, up to one of the trackers. -/
  | podDeleted (kind : Kind) (pod : Pod)

def Input.event : Input → Event
  | schedule request => .schedule request
  | advance j => .advance j
  | podDeleted kind pod => .delete kind pod.namespacedName.string

namespace Producer

def next (p : Producer) (x : Input) : Producer :=
  match p.step x.event with
  | .ok p' => p'

def after (inputs : List Input) : Producer := inputs.foldl next new

/-- An addition with the lock held, which makes the counter if there is none. -/
def Makes (p : Producer) (kind : Kind) (eid : String) : Input → Prop
  | .advance j => ∃ s a rest, p.serving[j]? = some s ∧ s.todo = a :: rest ∧ s.found = some none ∧ a.kind = kind ∧ a.endpointID = eid
  | _ => False

/-- The counter is dropped. -/
def Drops (kind : Kind) (eid : String) (x : Input) : Prop :=
  ∃ pod : Pod, x = .podDeleted kind pod ∧ pod.namespacedName.string = eid

end Producer

theorem ConcurrencyTracker.mem_addLocked (ct : ConcurrencyTracker) (eid eid' : String) (delta : Int64) :
    eid' ∈ (ct.addLocked eid delta).counts ↔ eid' = eid ∨ eid' ∈ ct.counts := by
  unfold ConcurrencyTracker.addLocked
  cases hfound : ct.counts.lookup eid with
  | some counter =>
    refine ⟨.inr, ?_⟩
    rintro (rfl | hmem)
    · exact Table.mem_of_lookup hfound
    · exact hmem
  | none => exact AList.mem_insert ct.counts

namespace Producer

variable {p : Producer}

/-- What an access does to the entries. -/
theorem mem_advance (j : ℕ) (s : Serving) (hs : p.serving[j]? = some s) (kind : Kind) (eid : String) :
    eid ∈ ((p.advance j s).trackers kind).counts ↔ p.Makes kind eid (.advance j) ∨ eid ∈ (p.trackers kind).counts := by
  have hmakes : p.Makes kind eid (.advance j) ↔
      ∃ a rest, s.todo = a :: rest ∧ s.found = some none ∧ a.kind = kind ∧ a.endpointID = eid := by
    constructor
    · rintro ⟨s', a, rest, hs', htodo, hfound, hkind, heid⟩
      cases hs.symm.trans hs'
      exact ⟨a, rest, htodo, hfound, hkind, heid⟩
    · rintro ⟨a, rest, htodo, hfound, hkind, heid⟩
      exact ⟨s, a, rest, hs, htodo, hfound, hkind, heid⟩
  rw [hmakes]
  obtain ⟨request, todo, found⟩ := s
  unfold Producer.advance
  match todo, found with
  | [], _ => simp
  | a :: rest, none => simp [setServing_trackers]
  | a :: rest, some (some counter) =>
    simp only [setServing_trackers, reduceCtorEq, Option.some.injEq, false_and, and_false, exists_false, false_or]
    by_cases hkind : kind = a.kind
    · subst hkind
      rw [setTracker_same]
      exact Iff.rfl
    · rw [setTracker_other p hkind]
  | a :: rest, some none =>
    rw [setServing_trackers]
    by_cases hkind : kind = a.kind
    · subst hkind
      rw [setTracker_same, ConcurrencyTracker.mem_addLocked]
      simp [eq_comm]
    · rw [setTracker_other p hkind]
      simp [Ne.symm hkind]

/-- One step: an entry is there when it is made, or was there and is not dropped. -/
theorem mem_next (x : Input) (kind : Kind) (eid : String) :
    eid ∈ ((p.next x).trackers kind).counts ↔ p.Makes kind eid x ∨ (eid ∈ (p.trackers kind).counts ∧ ¬ Drops kind eid x) := by
  cases x with
  | schedule request => simp [next, Input.event, step, Makes, Drops]
  | advance j =>
    cases hs : p.serving[j]? with
    | none => simp [next, Input.event, step, Makes, Drops, hs]
    | some s =>
      have hdrops : ¬ Drops kind eid (.advance j) := by rintro ⟨pod, hx, -⟩; cases hx
      rw [and_iff_left hdrops, ← mem_advance j s hs]
      simp [next, Input.event, step, hs]
  | podDeleted kind' pod =>
    have hdrops : Drops kind eid (.podDeleted kind' pod) ↔ kind' = kind ∧ pod.namespacedName.string = eid := by
      constructor
      · rintro ⟨pod', hx, heid⟩
        cases hx
        exact ⟨rfl, heid⟩
      · rintro ⟨rfl, heid⟩
        exact ⟨pod, rfl, heid⟩
    rw [hdrops]
    simp only [next, Input.event, step, Makes, false_or]
    by_cases hkind : kind = kind'
    · subst hkind
      rw [setTracker_same, ConcurrencyTracker.delete, AList.mem_erase]
      simp [and_comm, eq_comm]
    · rw [setTracker_other p hkind]
      simp [Ne.symm hkind]

/-- An entry is there when it has been made and not dropped since. -/
theorem mem_after (kind : Kind) (eid : String) (inputs : List Input) :
    eid ∈ ((after inputs).trackers kind).counts ↔ ∃ before x later, inputs = before ++ x :: later ∧
      (after before).Makes kind eid x ∧ ∀ y ∈ later, ¬ Drops kind eid y := by
  induction inputs using List.reverseRecOn with
  | nil =>
    constructor
    · intro hmem
      cases hmem
    · rintro ⟨before, x, later, hnil, -⟩
      simp at hnil
  | append_singleton inputs x ih =>
    have hstep : after (inputs ++ [x]) = (after inputs).next x := by simp [after]
    rw [hstep, mem_next, ih]
    constructor
    · rintro (hmakes | ⟨⟨before, y, later, rfl, hmakes, hkept⟩, hdrops⟩)
      · exact ⟨inputs, x, [], rfl, hmakes, nofun⟩
      · refine ⟨before, y, later ++ [x], by simp, hmakes, fun z hz => ?_⟩
        rcases mem_append.1 hz with hz | hz
        · exact hkept z hz
        · rwa [mem_singleton.1 hz]
    · rintro ⟨before, y, later, hsplit, hmakes, hkept⟩
      -- the addition is the last step, or an earlier one
      rcases eq_nil_or_concat later with rfl | ⟨later, z, rfl⟩
      · obtain ⟨rfl, hx⟩ := append_inj' hsplit rfl
        cases hx
        exact .inl hmakes
      · have hsplit' : inputs ++ [x] = (before ++ y :: later) ++ [z] := by simp [hsplit]
        obtain ⟨rfl, hx⟩ := append_inj' hsplit' rfl
        cases hx
        exact .inr ⟨⟨before, y, later, rfl, hmakes, fun w hw => hkept w (by simp [hw])⟩, hkept x (by simp)⟩

end Producer

/-- A pod is not called as one of its endpoints. -/
theorem string_ne_endpointID (pod : Pod) (idx : ℕ) : pod.namespacedName.string ≠ endpointID pod idx := by
  intro h
  have hlen := congrArg String.length h
  simp only [NamespacedName.string, Pod.namespacedName, endpointID, createEndpointNamespacedName, String.length_append] at hlen
  have hrank : "-rank-".length = 6 := by decide
  omega

namespace Producer

/-- The trackers have no entry for an endpoint of a pod just when after each addition that made one a pod has been
deleted that is called as the endpoint is, which is another pod. -/
theorem no_rank_entry_iff (pod : Pod) (idx : ℕ) (kind : Kind) (inputs : List Input) :
    endpointID pod idx ∉ ((after inputs).trackers kind).counts ↔ ∀ before x later, inputs = before ++ x :: later →
      (after before).Makes kind (endpointID pod idx) x → ∃ other : Pod, other.namespacedName ≠ pod.namespacedName ∧
        other.namespacedName.string = endpointID pod idx ∧ Input.podDeleted kind other ∈ later := by
  rw [mem_after]
  constructor
  · intro hnone before x later hsplit hmakes
    by_contra hother
    refine hnone ⟨before, x, later, hsplit, hmakes, ?_⟩
    rintro y hy ⟨other, rfl, heid⟩
    refine hother ⟨other, fun hname => ?_, heid, hy⟩
    rw [hname] at heid
    exact string_ne_endpointID pod idx heid
  · rintro hdropped ⟨before, x, later, hsplit, hmakes, hkept⟩
    obtain ⟨other, -, heid, hmem⟩ := hdropped before x later hsplit hmakes
    exact hkept _ hmem ⟨other, rfl, heid⟩

/-- One request to the first endpoint of a pod, served to its end, and the notification that the pod is deleted. -/
def podA : Pod := ⟨"a", "default", ∅, none, "10.0.0.1", false, [("Ready", true)]⟩

theorem rank_entry_left : endpointID podA 0 ∈ ((after (.schedule ⟨40, none, [endpointID podA 0]⟩ ::
      List.replicate 8 (.advance 0) ++ [.podDeleted .requests podA, .podDeleted .tokens podA])).trackers .requests).counts ∧
    ∀ s ∈ (after (.schedule ⟨40, none, [endpointID podA 0]⟩ :: List.replicate 8 (.advance 0) ++
      [.podDeleted .requests podA, .podDeleted .tokens podA])).serving, s.todo = [] := by
  decide +kernel

end Producer

end InferenceGateway.InFlightLoad
