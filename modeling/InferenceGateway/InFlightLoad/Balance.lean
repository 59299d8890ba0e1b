import InferenceGateway.InFlightLoad.Producer
import InferenceGateway.Lib.Runs
import InferenceGateway.Registry.Counters
/-!
# The balance of the load in flight

What a request still has to add for an endpoint is, with the sign turned, what it counts
for there. A counter stands for the sum of that over all requests, in every run in which
each request has one target and no counter is dropped while a request is between its
first and its last addition to it. So no counter is negative, and all are zero in the end.
-/

namespace InferenceGateway.InFlightLoad

open Lib List Function ConcurrencyTracker Serving

/-! ## One tracker -/

namespace ConcurrencyTracker

/-- Counters in the map are allocated, each for one endpoint. -/
structure Sound (ct : ConcurrencyTracker) : Prop where
  allocated : ∀ eid counter, ct.counts.lookup eid = some counter → counter < ct.next
  single : ∀ eid eid' counter, ct.counts.lookup eid = some counter → ct.counts.lookup eid' = some counter → eid = eid'

/-- An addition that has reached the counter of its endpoint. -/
structure Added (ct ct' : ConcurrencyTracker) (eid : String) (delta : Int64) : Prop where
  sound : ct'.Sound
  kept : ∀ eid' counter, ct.counts.lookup eid' = some counter → ct'.counts.lookup eid' = some counter
  get : ∀ eid', ct'.get eid' = ct.get eid' + if eid = eid' then delta else 0

theorem new_sound : new.Sound where
  allocated _ _ h := by cases h
  single _ _ _ h := by cases h

variable {ct : ConcurrencyTracker}

theorem Sound.addTo (h : ct.Sound) {eid : String} {counter : ℕ} (hfound : ct.counts.lookup eid = some counter)
    (delta : Int64) : ct.Added (ct.addTo counter delta) eid delta where
  sound := ⟨h.allocated, h.single⟩
  kept _ _ hkept := hkept
  get eid' := by
    by_cases he : eid = eid'
    · subst he
      simp only [ConcurrencyTracker.get, ConcurrencyTracker.addTo, hfound, update_self, if_true]
    · rw [if_neg he, Int64.add_zero]
      unfold ConcurrencyTracker.get ConcurrencyTracker.addTo
      cases hother : ct.counts.lookup eid' with
      | none => rfl
      | some other =>
        refine update_of_ne ?_ _ _
        rintro rfl
        exact he (h.single _ _ _ hfound hother)

theorem Sound.addLocked (h : ct.Sound) (eid : String) (delta : Int64) : ct.Added (ct.addLocked eid delta) eid delta := by
  unfold ConcurrencyTracker.addLocked
  cases hfound : ct.counts.lookup eid with
  | some counter => exact h.addTo hfound delta
  | none =>
    have hfresh : ∀ eid' counter, ct.counts.lookup eid' = some counter → eid' ≠ eid ∧ counter ≠ ct.next := by
      intro eid' counter hother
      refine ⟨?_, (h.allocated eid' counter hother).ne⟩
      rintro rfl
      rw [hfound] at hother
      cases hother
    refine ⟨⟨fun eid' counter hlookup => ?_, fun eid₁ eid₂ counter h₁ h₂ => ?_⟩, fun eid' counter hkept => ?_, fun eid' => ?_⟩
    · rw [Table.lookup_insert_ite] at hlookup
      split at hlookup
      · cases hlookup
        exact Nat.lt_succ_self _
      · exact Nat.lt_succ_of_lt (h.allocated eid' counter hlookup)
    · rw [Table.lookup_insert_ite] at h₁ h₂
      split at h₁ <;> split at h₂
      · simp only [*]
      · cases h₁
        exact absurd rfl (hfresh _ _ h₂).2
      · cases h₂
        exact absurd rfl (hfresh _ _ h₁).2
      · exact h.single eid₁ eid₂ counter h₁ h₂
    · rw [Table.lookup_insert_ite, if_neg (hfresh eid' counter hkept).1]
      exact hkept
    · unfold ConcurrencyTracker.get
      simp only [Table.lookup_insert_ite]
      by_cases he : eid = eid'
      · subst he
        simp only [if_true, hfound, update_self, Int64.zero_add]
      · rw [if_neg (Ne.symm he), if_neg he, Int64.add_zero]
        cases hother : ct.counts.lookup eid' with
        | none => rfl
        | some other => exact update_of_ne (hfresh eid' other hother).2 _ _

theorem Sound.delete (h : ct.Sound) (eid : String) : (ct.delete eid).Sound where
  allocated eid' counter hlookup := by
    rw [ConcurrencyTracker.delete, Table.lookup_erase_ite] at hlookup
    split at hlookup
    · cases hlookup
    · exact h.allocated eid' counter hlookup
  single eid₁ eid₂ counter h₁ h₂ := by
    rw [ConcurrencyTracker.delete, Table.lookup_erase_ite] at h₁ h₂
    split at h₁
    · cases h₁
    · split at h₂
      · cases h₂
      · exact h.single eid₁ eid₂ counter h₁ h₂

theorem get_delete (eid eid' : String) : (ct.delete eid).get eid' = if eid' = eid then 0 else ct.get eid' := by
  unfold get delete
  simp only [Table.lookup_erase_ite]
  by_cases he : eid' = eid
  · rw [if_pos he, if_pos he]
  · rw [if_neg he, if_neg he]

end ConcurrencyTracker

/-! ## What a request counts for -/

variable (kind : Kind)

variable (eid : String)

/-- The share of an addition in one counter. -/
def Addition.share (a : Addition) : Int :=
  if a.kind = kind ∧ a.endpointID = eid then a.delta else 0

/-- What has been added to a counter and is still to be taken away. -/
def counted (todo : List Addition) : Int := -(todo.map (Addition.share kind eid)).sum

namespace Serving

/-- The most that a request can count for, until it is done. -/
def weight (s : Serving) : Int :=
  if s.todo = [] then 0
  else
    match kind with
    | .requests => 1
    | .tokens => estimate s.request

/-- The request has added nothing yet, or has no more to add to this counter. -/
def Clear (s : Serving) : Prop :=
  s.todo = additions s.request ∧ s.found = none ∨ ∀ a ∈ s.todo, ¬ (a.kind = kind ∧ a.endpointID = eid)

instance (s : Serving) : Decidable (s.Clear kind eid) :=
  inferInstanceAs (Decidable (_ ∨ _))

/-- One target at most, of whose additions some are left, and a counter that was found is
the one in the map. -/
structure Ordered (trackers : Kind → ConcurrencyTracker) (s : Serving) : Prop where
  target : s.request.targetEndpoints.length ≤ 1
  part : s.todo <:+ additions s.request
  found : ∀ counter, s.found = some (some counter) → ∀ a rest, s.todo = a :: rest →
    (trackers a.kind).counts.lookup a.endpointID = some counter

end Serving

theorem counted_cons (a : Addition) (rest : List Addition) :
    counted kind eid (a :: rest) = counted kind eid rest - a.share kind eid := by
  rw [counted, counted, map_cons, sum_cons]
  omega

theorem counted_of_absent {kind : Kind} {eid : String} {todo : List Addition}
    (h : ∀ a ∈ todo, ¬ (a.kind = kind ∧ a.endpointID = eid)) : counted kind eid todo = 0 := by
  rw [counted, neg_eq_zero]
  refine sum_eq_zero fun x hx => ?_
  obtain ⟨a, ha, rfl⟩ := List.mem_map.1 hx
  exact if_neg (h a ha)

variable {request : Request}

/-- A request with one target makes four additions, the last two of which undo the others. -/
theorem additions_eq (h : request.targetEndpoints.length ≤ 1) :
    additions request = [] ∨ ∃ eid, additions request = [⟨.requests, eid, 1⟩, ⟨.tokens, eid, estimate request⟩,
      ⟨.requests, eid, -1⟩, ⟨.tokens, eid, -estimate request⟩] := by
  unfold additions preRequest
  match hts : request.targetEndpoints with
  | [] => exact .inl rfl
  | [eid] => exact .inr ⟨eid, rfl⟩
  | _ :: _ :: _ =>
    rw [hts, length_cons, length_cons] at h
    omega

theorem counted_additions (h : request.targetEndpoints.length ≤ 1) (kind : Kind) (eid : String) :
    counted kind eid (additions request) = 0 := by
  rcases additions_eq h with hnone | ⟨target, hall⟩
  · rw [hnone]
    rfl
  · rw [hall]
    simp only [counted_cons, Addition.share]
    by_cases he : target = eid <;> cases kind <;> simp [counted, he]

variable {trackers : Kind → ConcurrencyTracker} {s : Serving}

theorem Serving.Ordered.counted_bounds (h : s.Ordered trackers) (kind : Kind) (eid : String) :
    0 ≤ counted kind eid s.todo ∧ counted kind eid s.todo ≤ s.weight kind := by
  have hpart := h.part
  rcases additions_eq h.target with hnone | ⟨target, hall⟩
  · rw [hnone, suffix_nil] at hpart
    simp [hpart, counted, weight]
  · rw [hall] at hpart
    unfold weight
    -- one case for each number of additions that are left
    simp only [suffix_cons_iff, suffix_nil] at hpart
    by_cases he : target = eid <;> cases kind <;>
      rcases hpart with htodo | htodo | htodo | htodo | htodo <;>
      simp [htodo, counted, Addition.share, he]

theorem Serving.Ordered.counted_clear (h : s.Ordered trackers) {kind : Kind} {eid : String} (hclear : s.Clear kind eid) :
    counted kind eid s.todo = 0 := by
  rcases hclear with ⟨htodo, -⟩ | habsent
  · rw [htodo]
    exact counted_additions h.target kind eid
  · exact counted_of_absent habsent

theorem Serving.Ordered.mono {trackers' : Kind → ConcurrencyTracker} (h : s.Ordered trackers)
    (hkept : ∀ kind eid counter, (trackers kind).counts.lookup eid = some counter →
      (trackers' kind).counts.lookup eid = some counter) : s.Ordered trackers' :=
  ⟨h.target, h.part, fun counter hfound a rest htodo => hkept _ _ _ (h.found counter hfound a rest htodo)⟩

/-! ## Runs -/

namespace Producer

/-- A request is scheduled to one endpoint at most while the sums fit the counters, and a
counter is dropped while no request is in the midst of its additions to it. -/
def Orderly (p : Producer) : Event → Prop
  | .schedule request => request.targetEndpoints.length ≤ 1 ∧
      ∀ kind, (p.serving.map (weight kind)).sum + weight kind ⟨request, additions request, none⟩ < 2 ^ 63
  | .advance _ => True
  | .delete kind eid => ∀ s ∈ p.serving, s.Clear kind eid

instance (p : Producer) : ∀ e, Decidable (p.Orderly e)
  | .schedule _ => inferInstanceAs (Decidable (_ ∧ _))
  | .advance _ => inferInstanceAs (Decidable True)
  | .delete kind eid => inferInstanceAs (Decidable (∀ s ∈ _, Serving.Clear kind eid s))

structure Balanced (p : Producer) : Prop where
  sound : ∀ kind, (p.trackers kind).Sound
  ordered : ∀ s ∈ p.serving, s.Ordered p.trackers
  balance : ∀ kind eid, (p.trackers kind).get eid = .ofInt (p.serving.map fun s => counted kind eid s.todo).sum
  fits : ∀ kind, (p.serving.map (weight kind)).sum < 2 ^ 63

theorem new_balanced : new.Balanced where
  sound _ := new_sound
  ordered _ h := by cases h
  balance _ _ := rfl
  fits _ := by norm_num [new]

variable {p : Producer}

theorem Balanced.schedule (h : p.Balanced) (horderly : p.Orderly (.schedule request)) :
    Balanced { p with serving := p.serving ++ [⟨request, additions request, none⟩] } where
  sound := h.sound
  ordered s hs := by
    rcases mem_append.1 hs with hold | hnew
    · exact h.ordered s hold
    · rw [mem_singleton.1 hnew]
      exact ⟨horderly.1, suffix_refl _, fun _ hfound => by cases hfound⟩
  balance kind eid := by
    rw [h.balance, map_append, sum_append, map_singleton, sum_singleton,
      counted_additions horderly.1, add_zero]
  fits kind := by
    rw [map_append, sum_append, map_singleton, sum_singleton]
    exact horderly.2 kind

variable {j : ℕ}

/-- The map has been read: nothing is counted yet. -/
theorem Balanced.read (h : p.Balanced) (hs : p.serving[j]? = some s) {a : Addition} {rest : List Addition}
    (htodo : s.todo = a :: rest) :
    (p.setServing j { s with found := some ((p.trackers a.kind).counts.lookup a.endpointID) }).Balanced where
  sound := h.sound
  ordered s' hs' := by
    rcases mem_or_eq_of_mem_set hs' with hold | rfl
    · exact h.ordered s' hold
    · have hordered := h.ordered s (mem_of_getElem? hs)
      refine ⟨hordered.target, hordered.part, fun counter hfound a' rest' htodo' => ?_⟩
      cases htodo.symm.trans htodo'
      exact Option.some.inj hfound
  balance kind eid := by
    have hsum := sum_map_set (fun s => counted kind eid s.todo) hs
      { s with found := some ((p.trackers a.kind).counts.lookup a.endpointID) } (add_zero _).symm
    rw [setServing, hsum, add_zero, h.balance]
  fits kind := by
    have hsum := sum_map_set (weight kind) hs
      { s with found := some ((p.trackers a.kind).counts.lookup a.endpointID) } (add_zero _).symm
    rw [setServing, hsum, add_zero]
    exact h.fits kind

theorem weight_rest_le (request : Request) (a : Addition) (rest : List Addition) (found : Option (Option ℕ)) (kind : Kind) :
    weight kind ⟨request, rest, none⟩ ≤ weight kind ⟨request, a :: rest, found⟩ := by
  unfold weight
  rw [if_neg (cons_ne_nil a rest)]
  split
  · cases kind
    · exact Int.one_nonneg
    · exact Int.natCast_nonneg _
  · exact le_rfl

/-- An addition that reaches its counter moves its share from what is to be done to what is counted. -/
theorem Balanced.added (h : p.Balanced) {a : Addition} {rest : List Addition}
    {found : Option (Option ℕ)} (hs : p.serving[j]? = some ⟨request, a :: rest, found⟩) {ct : ConcurrencyTracker}
    (hadded : (p.trackers a.kind).Added ct a.endpointID (.ofInt a.delta)) :
    ((p.setTracker a.kind ct).setServing j ⟨request, rest, none⟩).Balanced where
  sound kind := by
    rw [setServing_trackers]
    by_cases hkind : kind = a.kind
    · subst hkind
      rw [setTracker_same]
      exact hadded.sound
    · rw [setTracker_other p hkind]
      exact h.sound kind
  ordered s' hs' := by
    have hordered := h.ordered _ (mem_of_getElem? hs)
    have hkept : ∀ kind eid counter, (p.trackers kind).counts.lookup eid = some counter →
        ((p.setTracker a.kind ct).trackers kind).counts.lookup eid = some counter := by
      intro kind eid counter hlookup
      by_cases hkind : kind = a.kind
      · subst hkind
        rw [setTracker_same]
        exact hadded.kept eid counter hlookup
      · rwa [setTracker_other p hkind]
    rcases mem_or_eq_of_mem_set hs' with hold | rfl
    · exact (h.ordered s' hold).mono hkept
    · exact ⟨hordered.target, (suffix_cons a rest).trans hordered.part, fun _ hfound => by cases hfound⟩
  balance kind eid := by
    have hcounted : counted kind eid rest = counted kind eid (a :: rest) + a.share kind eid := by
      rw [counted_cons]
      omega
    have hsum := sum_map_set (fun s : Serving => counted kind eid s.todo) hs ⟨request, rest, none⟩ hcounted
    change _ = Int64.ofInt ((p.serving.set j _).map _).sum
    rw [hsum, Int64.ofInt_add, ← h.balance, setServing_trackers]
    by_cases hkind : kind = a.kind
    · subst hkind
      rw [setTracker_same, hadded.get, Addition.share]
      by_cases heid : a.endpointID = eid
      · rw [if_pos heid, if_pos ⟨rfl, heid⟩]
      · rw [if_neg heid, if_neg fun hboth => heid hboth.2]
        rfl
    · rw [setTracker_other p hkind, Addition.share, if_neg fun hboth => hkind hboth.1.symm]
      exact (Int64.add_zero _).symm
  fits kind := by
    have hle := weight_rest_le request a rest found kind
    have hsum := sum_map_set (weight kind) hs ⟨request, rest, none⟩ (add_sub_cancel _ _).symm
    have hfits := h.fits kind
    rw [setServing, setTracker, hsum]
    omega

theorem Balanced.advance (h : p.Balanced) (hs : p.serving[j]? = some s) : (p.advance j s).Balanced := by
  have hordered := h.ordered s (mem_of_getElem? hs)
  obtain ⟨request, todo, found⟩ := s
  unfold Producer.advance
  match todo, found with
  | [], _ => exact h
  | a :: rest, none => exact h.read hs rfl
  | a :: rest, some (some counter) => exact h.added hs ((h.sound a.kind).addTo (hordered.found counter rfl a rest rfl) _)
  | a :: rest, some none => exact h.added hs ((h.sound a.kind).addLocked a.endpointID _)

theorem sum_counted_eq_zero {serving : List Serving} {kind : Kind} {eid : String}
    (h : ∀ s ∈ serving, counted kind eid s.todo = 0) : (serving.map fun s => counted kind eid s.todo).sum = 0 := by
  refine sum_eq_zero fun x hx => ?_
  obtain ⟨s, hs, rfl⟩ := List.mem_map.1 hx
  exact h s hs

/-- The counter that goes was zero, and nobody holds it. -/
theorem Balanced.delete (h : p.Balanced) {kind : Kind} {eid : String} (horderly : p.Orderly (.delete kind eid)) :
    (p.setTracker kind ((p.trackers kind).delete eid)).Balanced where
  sound kind' := by
    by_cases hkind : kind' = kind
    · subst hkind
      rw [setTracker_same]
      exact (h.sound kind').delete eid
    · rw [setTracker_other p hkind]
      exact h.sound kind'
  ordered s hs := by
    have hordered := h.ordered s hs
    refine ⟨hordered.target, hordered.part, fun counter hfound a rest htodo => ?_⟩
    have hlookup := hordered.found counter hfound a rest htodo
    rcases horderly s hs with ⟨-, hnone⟩ | habsent
    · rw [hfound] at hnone
      cases hnone
    · have hother := habsent a (by rw [htodo]; exact mem_cons_self)
      by_cases hkind : a.kind = kind
      · subst hkind
        rw [setTracker_same, ConcurrencyTracker.delete, Table.lookup_erase_ite, if_neg fun heid => hother ⟨rfl, heid⟩]
        exact hlookup
      · rwa [setTracker_other p hkind]
  balance kind' eid' := by
    by_cases hkind : kind' = kind
    · subst hkind
      rw [setTracker_same, get_delete]
      split
      · rename_i heid
        subst heid
        have hzero := sum_counted_eq_zero fun s hs => (h.ordered s hs).counted_clear (horderly s hs)
        exact (congrArg Int64.ofInt hzero).symm
      · exact h.balance kind' eid'
    · rw [setTracker_other p hkind]
      exact h.balance kind' eid'
  fits := h.fits

theorem Balanced.step (h : p.Balanced) {e : Event} (horderly : p.Orderly e) {p' : Producer} (hstep : p.step e = .ok p') :
    p'.Balanced := by
  cases e with
  | schedule request =>
    cases hstep
    exact h.schedule horderly
  | advance j =>
    cases hstep
    cases hs : p.serving[j]? with
    | none => exact h
    | some s => exact h.advance hs
  | delete kind eid =>
    cases hstep
    exact h.delete horderly

theorem Balanced.sum_bounds (h : p.Balanced) (kind : Kind) (eid : String) :
    0 ≤ (p.serving.map fun s => counted kind eid s.todo).sum ∧
      (p.serving.map fun s => counted kind eid s.todo).sum < 2 ^ 63 := by
  constructor
  · refine sum_nonneg fun x hx => ?_
    obtain ⟨s, hs, rfl⟩ := List.mem_map.1 hx
    exact ((h.ordered s hs).counted_bounds kind eid).1
  · refine lt_of_le_of_lt (sum_le_sum fun s hs => ?_) (h.fits kind)
    exact ((h.ordered s hs).counted_bounds kind eid).2

/-- In every orderly run no counter is negative, and all are zero once all requests are done. -/
theorem load_in_flight_balanced {p : Producer} (h : Runs step Orderly new p) :
    (∀ kind eid, 0 ≤ ((p.trackers kind).get eid).toInt) ∧
      ((∀ s ∈ p.serving, s.todo = []) → ∀ kind eid, (p.trackers kind).get eid = 0) := by
  have hbalanced : p.Balanced := Runs.invariant Balanced (fun _ _ _ hp horderly hstep => hp.step horderly hstep) new_balanced h
  refine ⟨fun kind eid => ?_, fun hdone kind eid => ?_⟩
  · obtain ⟨hnonneg, hlt⟩ := hbalanced.sum_bounds kind eid
    rw [hbalanced.balance, Registry.toInt_ofInt_of_lt hnonneg hlt]
    exact hnonneg
  · have hzero : (p.serving.map fun s => counted kind eid s.todo).sum = 0 :=
      sum_counted_eq_zero fun s hs => by rw [hdone s hs]; rfl
    rw [hbalanced.balance, hzero]
    rfl

/-- Two requests for one endpoint side by side, of which the first is done, and a deletion after the second. -/
theorem load_in_flight_balanced_two : ∃ p : Producer, p.serving.length = 2 ∧ (∀ s ∈ p.serving, s.todo = []) ∧
    ∀ kind eid, (p.trackers kind).get eid = 0 := by
  obtain ⟨p, hrun, hlength, hdone⟩ : ∃ p, Runs step Orderly new p ∧ p.serving.length = 2 ∧ ∀ s ∈ p.serving, s.todo = [] :=
    exists_runs ([.schedule ⟨40, none, ["default/a"]⟩, .advance 0, .schedule ⟨0, some 10, ["default/a"]⟩, .advance 1] ++
      List.replicate 7 (.advance 0) ++ List.replicate 7 (.advance 1) ++ [.delete .requests "default/a"]) _ (by decide +kernel)
      fun _ _ h => h
  exact ⟨p, hlength, hdone, (load_in_flight_balanced hrun).2 hdone⟩

/-- A request with two targets leaves the second one loaded. A request whose endpoint is deleted
before the response ends leaves counters below zero. -/
theorem load_in_flight_unbalanced :
    (∃ p : Producer, Runs step (fun _ _ => True) new p ∧ (∀ s ∈ p.serving, s.todo = []) ∧
      (p.trackers .requests).get "default/b" = 1 ∧ (p.trackers .tokens).get "default/b" = 25) ∧
    ∃ p : Producer, Runs step (fun _ _ => True) new p ∧ (∀ s ∈ p.serving, s.request.targetEndpoints = ["default/a"]) ∧
      ((p.trackers .requests).get "default/a").toInt = -1 ∧ ((p.trackers .tokens).get "default/a").toInt = -25 := by
  constructor
  · exact exists_runs (.schedule ⟨40, none, ["default/a", "default/b"]⟩ :: List.replicate 12 (.advance 0)) _ (by decide +kernel)
      fun _ _ h => h
  · exact exists_runs (.schedule ⟨40, none, ["default/a"]⟩ :: List.replicate 4 (.advance 0) ++
      [.delete .requests "default/a", .delete .tokens "default/a"] ++ List.replicate 4 (.advance 0)) _ (by decide +kernel)
      fun _ _ h => h

end Producer

end InferenceGateway.InFlightLoad
