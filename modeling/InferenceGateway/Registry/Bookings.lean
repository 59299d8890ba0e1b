import InferenceGateway.Registry.Connections
/-!
# The states of flows

What a call has to do with the state of its flow, and what holds of these states in
every interleaving: a state that a call has pinned and confirmed is the one in the
map, unless its provisioning has failed. This needs that a failed call deletes no
state but its own.
-/

namespace InferenceGateway.Registry

open Lib Queue Function LeaseMap Sessions Collecting

/-- Inside the `Once`. -/
def ConnPhase.inside : ConnPhase → Bool
  | looking | ensuring | synchronizing => true
  | _ => false

/-- What a call in this phase knows of its flow. -/
def ConnPhase.Ok (init : Nat → Init) (flows : LeaseMap FlowKey) (c : Conn) : ConnPhase → Prop
  | initializing | leaving => True
  | looking | ensuring | synchronizing => init c.state = .running
  | running => init c.state = .done true
  | failing => init c.state = .done false
  | loadingBand | unpinningBand _ => init c.state = .done false ∧ flows.load c.key ≠ some c.state

namespace Call

/-- The state that the call has a lease of. -/
def pinned : Call → Option Nat
  | pinningFlow _ (.confirming o _) => some o
  | pinningFlow _ (.backingOff o) => some o
  | pinningBand _ o _ => some o
  | connected c _ => some c.state
  | _ => none

/-- The state that the call is about to pin. -/
def tried : Call → Option Nat
  | pinningFlow _ (.trying o _) => some o
  | _ => none

/-- The flow that the call has pinned and confirmed. -/
def used : Call → Option (FlowKey × Nat)
  | pinningBand key o _ => some (key, o)
  | connected c _ => some (c.key, c.state)
  | _ => none

theorem pinned_of_used {c : Call} {k : FlowKey} {o : Nat} (h : c.used = some (k, o)) : c.pinned = some o := by
  cases c with
  | idle | pinningFlow key p => cases h
  | pinningBand key o' p | connected c ph => cases h; rfl

end Call

namespace Cycle

/-- The flow that the collector is busy with. -/
def visitingFlow : Cycle → Option (FlowKey × Nat)
  | flows c => c.visiting
  | _ => none

/-- The flow whose state is marked and not yet deleted. -/
def doomedFlow : Cycle → Option (FlowKey × Nat)
  | flows c => c.doomed
  | _ => none

theorem visitingFlow_of_doomed {g : Cycle} {x : FlowKey × Nat} (h : g.doomedFlow = some x) : g.visitingFlow = some x := by
  cases g with
  | flows c =>
    cases c with
    | deleting now found k o => exact h
    | ranging now found | checking now found k o => cases h
  | _ => cases h

end Cycle

namespace Sessions

variable {α : Type} {s s' : Sessions α}

/-- A call whose provisioning has failed deletes no state but its own, and none that the
collector is busy with. -/
def Tidy (s : Sessions α) (i : Nat) : Prop :=
  match s.calls i with
  | .connected c .failing =>
    (s.flows.load c.key = none ∨ s.flows.load c.key = some c.state) ∧ s.gc.visitingFlow.map Prod.fst ≠ some c.key
  | _ => True

instance (s : Sessions α) (i : Nat) : Decidable (s.Tidy i) := by
  unfold Tidy
  split <;> infer_instance

structure FlowInv (s : Sessions α) : Prop where
  idle : ∀ i, s.started ≤ i → s.calls i = .idle
  counted : s.flows.Counted (fun i o => (s.calls i).pinned = some o) s.gc.doomedFlow
  visiting : ∀ k o, s.gc.visitingFlow = some (k, o) → s.flows.load k = some o
  tried : ∀ i o, (s.calls i).tried = some o → o < s.flows.next
  used : ∀ i k o, (s.calls i).used = some (k, o) → s.flows.load k = some o ∨ s.init o = .done false
  untouched : ∀ o, s.flows.next ≤ o → s.init o = .fresh
  phases : ∀ i c ph, s.calls i = .connected c ph → ph.Ok s.init s.flows c
  once : ∀ i j c c' ph ph', s.calls i = .connected c ph → s.calls j = .connected c' ph' → ph.inside = true →
    ph'.inside = true → c.state = c'.state → i = j

theorem start_flowInv (r : FlowRegistry α) : (start r).FlowInv where
  idle := fun _ _ => rfl
  counted := counted_empty nofun
  visiting := nofun
  tried := nofun
  used := nofun
  untouched := fun _ _ => rfl
  phases := fun _ _ _ hc => by cases hc
  once := fun _ _ _ _ _ _ hc => by cases hc

variable {i : Nat}

/-- Only calls that have begun are anywhere. -/
theorem FlowInv.started (h : s.FlowInv) {c : Call} (hc : s.calls i = c) (hbegun : c ≠ .idle) : i < s.started :=
  lt_of_not_ge fun hle => hbegun (hc.symm.trans (h.idle i hle))

theorem calls_setCall (s : Sessions α) (i j : Nat) (c : Call) :
    (s.setCall i c).calls j = if j = i then c else s.calls j := by
  unfold setCall
  split
  · subst j; exact update_self ..
  · exact update_of_ne ‹_› ..

variable {c : Conn} {flows : LeaseMap FlowKey} {ph : ConnPhase}

/-- What a call knows of its flow stays true when entries are added for new states. -/
theorem ok_mono {init init' : Nat → Init} {flows' : LeaseMap FlowKey} (h : ph.Ok init flows c)
    (hinit : init' c.state = init c.state) (hlt : c.state < flows.next)
    (hnew : ∀ k o, flows'.load k = some o → flows.load k = some o ∨ flows.next ≤ o) : ph.Ok init' flows' c := by
  have hload : flows.load c.key ≠ some c.state → flows'.load c.key ≠ some c.state := by
    intro hne hl
    rcases hnew _ _ hl with hl | hle
    · exact hne hl
    · exact absurd hlt (not_lt.2 hle)
  cases ph with
  | initializing | leaving => trivial
  | loadingBand | unpinningBand b => exact ⟨hinit.trans h.1, hload h.2⟩
  | _ => exact hinit.trans h

variable {registry : FlowRegistry α} {bands : LeaseMap Int}

variable (h : s.FlowInv)
include h

/-- A call goes on, and deletes nothing but a state whose provisioning has failed. The `Once`
of a state may move on, if those who have the state know nothing against it. -/
theorem FlowInv.move {c : Call} (hi : i < s.started) {init : Nat → Init}
    (hnext : s.flows.next ≤ flows.next)
    (hvisit : ∀ k o, s.gc.visitingFlow = some (k, o) → s.flows.load k = some o → flows.load k = some o)
    (hkept : ∀ k o, s.flows.load k = some o → flows.load k = some o ∨ init o = .done false)
    (hnew : ∀ k o, flows.load k = some o → s.flows.load k = some o ∨ s.flows.next ≤ o)
    (hcounted : flows.Counted (fun j o => ((s.setCall i c).calls j).pinned = some o) s.gc.doomedFlow)
    (hinit : ∀ o, init o = s.init o ∨ (o < s.flows.next ∧ s.init o ≠ .done false ∧
      ∀ j c' ph', j ≠ i → s.calls j = .connected c' ph' → c'.state = o → ph'.Ok init flows c'))
    (htried : ∀ o, c.tried = some o → o < flows.next)
    (hused : ∀ k o, c.used = some (k, o) → flows.load k = some o ∨ init o = .done false)
    (hphase : ∀ c' ph', c = .connected c' ph' → ph'.Ok init flows c')
    (hinside : ∀ c' ph', c = .connected c' ph' → ph'.inside = true → ∀ j c₁ ph₁, j ≠ i → s.calls j = .connected c₁ ph₁ →
      ph₁.inside = true → c₁.state ≠ c'.state) :
    FlowInv { s.setCall i c with flows := flows, bands := bands, registry := registry, init := init } := by
  refine ⟨fun j hj => ?_, hcounted, fun k o hv => hvisit k o hv (h.visiting k o hv), fun j o hj => ?_, fun j k o hj => ?_,
    fun o ho => ?_, fun j c' ph' hj => ?_, fun j j' c₁ c₂ ph₁ ph₂ hj hj' hin₁ hin₂ heq => ?_⟩
  · show (s.setCall i c).calls j = _
    rw [calls_setCall, if_neg]
    · exact h.idle j hj
    · rintro rfl
      exact absurd hi (not_lt.2 hj)
  · change ((s.setCall i c).calls j).tried = _ at hj
    rw [calls_setCall] at hj
    split at hj
    · exact htried o hj
    · exact (h.tried j o hj).trans_le hnext
  · change ((s.setCall i c).calls j).used = _ at hj
    rw [calls_setCall] at hj
    split at hj
    · exact hused k o hj
    · refine (h.used j k o hj).elim (hkept k o) fun hf => .inr ?_
      rcases hinit o with he | ⟨-, hne, -⟩
      · exact he.trans hf
      · exact absurd hf hne
  · rcases hinit o with he | ⟨hlt, -, -⟩
    · exact he.trans (h.untouched o (hnext.trans ho))
    · exact absurd (hlt.trans_le hnext) (not_lt.2 ho)
  · change (s.setCall i c).calls j = _ at hj
    rw [calls_setCall] at hj
    split at hj
    · exact hphase c' ph' hj
    · rcases hinit c'.state with he | ⟨-, -, hok⟩
      · exact ok_mono (h.phases j c' ph' hj) he (h.counted.allocated j _ (by rw [hj]; rfl)) hnew
      · exact hok j c' ph' ‹_› hj rfl
  · change (s.setCall i c).calls j = _ at hj
    change (s.setCall i c).calls j' = _ at hj'
    rw [calls_setCall] at hj hj'
    by_cases hji : j = i <;> by_cases hji' : j' = i
    · rw [hji, hji']
    · rw [if_pos hji] at hj
      rw [if_neg hji'] at hj'
      exact absurd heq.symm (hinside c₁ ph₁ hj hin₁ j' c₂ ph₂ hji' hj' hin₂)
    · rw [if_neg hji] at hj
      rw [if_pos hji'] at hj'
      exact absurd heq (hinside c₂ ph₂ hj' hin₂ j c₁ ph₁ hji hj hin₁)
    · rw [if_neg hji] at hj
      rw [if_neg hji'] at hj'
      exact h.once j j' c₁ c₂ ph₁ ph₂ hj hj' hin₁ hin₂ heq

/-- The leases stay when the call keeps its own. -/
theorem FlowInv.counted_same {c : Call} (hc : c.pinned = (s.calls i).pinned) :
    s.flows.Counted (fun j o => ((s.setCall i c).calls j).pinned = some o) s.gc.doomedFlow := by
  refine h.counted.congr fun j o => ?_
  rw [calls_setCall]
  split
  · subst j; rw [hc]
  · exact Iff.rfl

/-- A call goes on and changes no state of a flow. -/
theorem FlowInv.shift {c₀ c : Call} (hc₀ : s.calls i = c₀) (hbegun : c₀ ≠ .idle) (hpin : c.pinned = c₀.pinned)
    (htried : ∀ o, c.tried = some o → o < s.flows.next)
    (hused : ∀ k o, c.used = some (k, o) → s.flows.load k = some o ∨ s.init o = .done false)
    (hphase : ∀ c' ph', c = .connected c' ph' → ph'.Ok s.init s.flows c')
    (hinside : ∀ c' ph', c = .connected c' ph' → ph'.inside = true → ∃ ph, c₀ = .connected c' ph ∧ ph.inside = true) :
    FlowInv { s.setCall i c with bands := bands, registry := registry } := by
  subst hc₀
  refine h.move (h.started rfl hbegun) le_rfl (fun _ _ _ hl => hl) (fun _ _ hl => .inl hl) (fun _ _ hl => .inl hl)
    (h.counted_same hpin) (fun _ => .inl rfl) htried hused hphase fun c' ph' hc hin j c₁ ph₁ hj hcj hin₁ heq => hj ?_
  obtain ⟨ph, hci, hph⟩ := hinside c' ph' hc hin
  exact h.once j i c₁ c' ph₁ ph hcj hci hin₁ hph heq

/-! ## Calls -/

theorem FlowInv.connect (key : FlowKey) :
    FlowInv { s.setCall s.started (.pinningFlow key .loading) with started := s.started + 1 } := by
  have hnext : FlowInv { s with started := s.started + 1 } :=
    { h with idle := fun i hi => h.idle i ((Nat.le_succ _).trans hi) }
  exact hnext.move (Nat.lt_succ_self _) le_rfl (fun _ _ _ hl => hl) (fun _ _ hl => .inl hl) (fun _ _ hl => .inl hl)
    (hnext.counted_same (by rw [show (_ : Sessions α).calls _ = _ from h.idle _ le_rfl]; rfl)) (fun _ => .inl rfl) nofun nofun nofun nofun

variable {key : FlowKey} {o : Nat} {p : Pinning}

/-- A call that has looked its flow up tries to pin the state it has found. -/
theorem FlowInv.found (hc : s.calls i = .pinningFlow key p) (hpin : (Call.pinningFlow key p).pinned = none)
    (hl : s.flows.load key = some o) : FlowInv (s.setCall i (.pinningFlow key (.trying o false))) := by
  refine h.shift hc nofun hpin.symm (fun o' ho => ?_) nofun nofun nofun
  cases ho
  exact h.counted.stored key o hl

/-- A call stores a new state for its flow. -/
theorem FlowInv.stored (hc : s.calls i = .pinningFlow key .storing) (hl : s.flows.load key = none) :
    FlowInv { s.setCall i (.pinningFlow key (.trying s.flows.next true)) with
      flows := s.flows.store key } := by
  refine h.move (h.started hc nofun) (Nat.le_succ _) (fun _ _ _ hk => load_store_of_some hl hk)
    (fun _ _ hk => .inl (load_store_of_some hl hk)) (fun k o hk => ?_) ?_ (fun _ => .inl rfl) (fun o ho => ?_) nofun nofun nofun
  · rw [load_store] at hk
    split at hk
    · cases hk; exact .inr le_rfl
    · exact .inl hk
  · exact (h.counted_same (by rw [hc]; rfl)).store hl
  · cases ho
    exact Nat.lt_succ_self _

/-- A call has found that the state it has pinned is the one in the map. -/
theorem FlowInv.confirmed {isNew : Bool} (hc : s.calls i = .pinningFlow key (.confirming o isNew))
    (hl : s.flows.load key = some o) : FlowInv (s.setCall i (s.afterFlow key o isNew)) := by
  cases isNew with
  | true => exact h.shift hc nofun rfl nofun (fun k o' hu => by cases hu; exact .inl hl) nofun nofun
  | false =>
    refine h.shift hc nofun rfl nofun (fun k o' hu => by cases hu; exact .inl hl) (fun c' ph' he => ?_) ?_
    · cases he; trivial
    · rintro c' ph' he hin
      cases he; cases hin

/-- A call gives its lease back. -/
theorem FlowInv.release {c : Call} (hpin : (s.calls i).pinned = some o) (hnone : c.pinned = none)
    (htried : c.tried = none) (since : Int) : FlowInv { s.setCall i c with flows := s.flows.unpin o since } := by
  have hi : i < s.started := h.started rfl fun hidle => by rw [hidle] at hpin; cases hpin
  refine h.move hi le_rfl (fun _ _ _ hl => hl) (fun _ _ hl => .inl hl) (fun _ _ hl => .inl hl) ?_ (fun _ => .inl rfl)
    (fun o' ho => ?_) (fun k o' hu => ?_) (fun c' ph' he => ?_) (fun c' ph' he => ?_)
  · refine h.counted.unpin hpin since fun j o' => ?_
    rw [calls_setCall]
    split
    · subst j
      simp [hpin, hnone, eq_comm]
    · simp [‹_›]
  · rw [htried] at ho; cases ho
  · rw [Call.pinned_of_used hu] at hnone; cases hnone
  · rw [he] at hnone; cases hnone
  · rw [he] at hnone; cases hnone

/-- A step of `pinLeasedResource` for the flow. -/
theorem FlowInv.pinningFlow (hc : s.calls i = .pinningFlow key p)
    (hok : s.callStep i (.pinningFlow key p) = .ok s') : s'.FlowInv := by
  cases p with
  | loading =>
    simp only [callStep, Pinning.step] at hok
    cases hl : s.flows.load key with
    | some o =>
      rw [hl] at hok
      cases hok
      exact h.found hc rfl hl
    | none =>
      rw [hl] at hok
      cases hok
      exact h.shift hc (by simp) rfl (fun _ he => by cases he) (fun _ _ he => by cases he) (by simp) (by simp)
  | storing =>
    simp only [callStep, Pinning.step] at hok
    cases hl : s.flows.load key with
    | some o =>
      rw [loadOrStore_of_some hl] at hok
      cases hok
      exact h.found hc rfl hl
    | none =>
      rw [loadOrStore_of_none hl] at hok
      cases hok
      exact h.stored hc hl
  | trying o isNew =>
    have hlt := h.tried i o (by rw [hc]; rfl)
    simp only [callStep, Pinning.step] at hok
    cases hpin : (s.flows.states o).tryPin with
    | some ls =>
      rw [hpin] at hok
      cases hok
      refine h.move (h.started hc (by simp)) le_rfl (fun _ _ _ hl => hl) (fun _ _ hl => .inl hl) (fun _ _ hl => .inl hl) ?_
        (fun _ => .inl rfl) (fun _ he => by cases he) (fun _ _ he => by cases he) (by simp) (by simp)
      refine h.counted.pin hpin hlt (i := i) (by rw [hc]; simp [Call.pinned]) fun j o' => ?_
      rw [calls_setCall]
      split
      · subst j
        rw [hc]
        simp [Call.pinned, eq_comm]
      · simp [‹_›]
    | none =>
      rw [hpin] at hok
      cases hok
      exact h.shift hc (by simp) rfl (fun _ he => by cases he) (fun _ _ he => by cases he) (by simp) (by simp)
  | confirming o isNew =>
    simp only [callStep, Pinning.step] at hok
    by_cases hl : s.flows.load key = some o
    · rw [if_pos hl] at hok
      cases hok
      exact h.confirmed hc hl
    · rw [if_neg hl] at hok
      cases hok
      exact h.shift hc (by simp) rfl (fun _ he => by cases he) (fun _ _ he => by cases he) (by simp) (by simp)
  | backingOff o =>
    simp only [callStep, Pinning.step] at hok
    cases hok
    exact h.release (by rw [hc]; rfl) rfl rfl s.registry.clock

theorem FlowInv.pinningBand (hc : s.calls i = .pinningBand key o p)
    (hok : s.callStep i (.pinningBand key o p) = .ok s') : s'.FlowInv := by
  have hu := h.used i key o (by rw [hc]; rfl)
  simp only [callStep] at hok
  split at hok
  · cases hok
    exact h.shift hc nofun rfl nofun (fun k o' he => by cases he; exact hu) nofun nofun
  · cases hok
    refine h.shift hc nofun rfl nofun (fun k o' he => by cases he; exact hu) (fun c' ph' he => ?_) ?_
    · cases he; trivial
    · rintro c' ph' he hin
      cases he; cases hin

/-- A call that has its leases goes from one phase to another, and changes no state of
a flow. -/
theorem FlowInv.phase {ph' : ConnPhase} (hc : s.calls i = .connected c ph)
    (hok : ph'.Ok s.init s.flows c) (hinside : ph'.inside = true → ph.inside = true) :
    FlowInv { s.setCall i (.connected c ph') with bands := bands, registry := registry } := by
  have hu := h.used i c.key c.state (by rw [hc]; rfl)
  refine h.shift hc nofun rfl nofun (fun k o' he => by cases he; exact hu) (fun c' ph₁ he => ?_) ?_
  · cases he; exact hok
  · rintro c' ph₁ he hin
    cases he
    exact ⟨ph, rfl, hinside hin⟩

/-- The `Once` of the call's state moves on. Of those who have the state nobody has come out
yet, and nobody else is inside. -/
theorem FlowInv.advance {ph' : ConnPhase} {v : Init} (hc : s.calls i = .connected c ph) (hnot : ∀ ok, s.init c.state ≠ .done ok)
    (hothers : ∀ j c' ph', j ≠ i → s.calls j = .connected c' ph' → c'.state = c.state → ph'.inside = false)
    (hok : ph'.Ok (update s.init c.state v) s.flows c) :
    FlowInv { s.setCall i (.connected c ph') with registry := registry, init := update s.init c.state v } := by
  have hlt := h.counted.allocated i c.state (by rw [hc]; rfl)
  refine h.move (h.started hc nofun) le_rfl (fun _ _ _ hl => hl) (fun _ _ hl => .inl hl) (fun _ _ hl => .inl hl)
    (h.counted_same (by rw [hc]; rfl)) (fun o => ?_) nofun (fun k o hu => ?_) (fun c' ph' he => ?_)
    fun c' ph' he _ j c₁ ph₁ hj hcj hin heq => ?_
  · by_cases ho : o = c.state
    · subst ho
      refine .inr ⟨hlt, hnot false, fun j c' ph' hj hcj heq => ?_⟩
      have hph := h.phases j c' ph' hcj
      have hout := hothers j c' ph' hj hcj heq
      cases ph' with
      | initializing | leaving => trivial
      | looking | ensuring | synchronizing => cases hout
      | loadingBand | unpinningBand b => exact absurd (heq ▸ hph.1) (hnot false)
      | running => exact absurd (heq ▸ hph) (hnot true)
      | failing => exact absurd (heq ▸ hph) (hnot false)
    · exact .inl (update_of_ne ho ..)
  · cases hu
    exact .inl ((h.used i c.key c.state (by rw [hc]; rfl)).resolve_right (hnot false))
  · cases he
    exact hok
  · cases he
    rw [hothers j c₁ ph₁ hj hcj heq] at hin
    cases hin

/-- The call enters the `Once`. -/
theorem FlowInv.enter (hc : s.calls i = .connected c .initializing) (hf : s.init c.state = .fresh) :
    FlowInv { s.setCall i (.connected c .looking) with init := update s.init c.state .running } := by
  refine h.advance hc (by rw [hf]; nofun) (fun j c' ph' _ hcj heq => ?_) (update_self ..)
  have hph := h.phases j c' ph' hcj
  cases ph' with
  | looking | ensuring | synchronizing => rw [ConnPhase.Ok, heq, hf] at hph; cases hph
  | _ => rfl

/-- The call comes out of the `Once`. -/
theorem FlowInv.synchronized (hc : s.calls i = .connected c .synchronizing) (ok : Bool) :
    FlowInv { s.setCall i (.connected c (afterInit ok)) with
      registry := registry, init := update s.init c.state (.done ok) } := by
  have hrun : s.init c.state = .running := h.phases i c _ hc
  refine h.advance hc (by rw [hrun]; nofun) (fun j c' ph' hj hcj heq => ?_) (by cases ok <;> exact update_self ..)
  rw [Bool.eq_false_iff]
  exact fun hin => hj (h.once j i c' c _ _ hcj hc hin rfl heq)

/-- A call whose provisioning has failed deletes its flow. -/
theorem FlowInv.delete (hc : s.calls i = .connected c .failing) (htidy : s.Tidy i) :
    FlowInv { s.setCall i (.connected c (if c.isNewFlow then .loadingBand else .leaving)) with
      flows := s.flows.delete c.key } := by
  simp only [Tidy, hc] at htidy
  have hfail : s.init c.state = .done false := h.phases i c _ hc
  have hvisit : ∀ k o, s.gc.visitingFlow = some (k, o) → k ≠ c.key := by
    rintro k o hv rfl
    exact htidy.2 (by rw [hv]; rfl)
  have hgone : ∀ ph : ConnPhase, ph = (if c.isNewFlow then .loadingBand else .leaving) →
      ph.Ok s.init (s.flows.delete c.key) c ∧ ph.inside = false := by
    rintro ph rfl
    split
    · exact ⟨⟨hfail, by rw [load_delete, if_pos rfl]; simp⟩, rfl⟩
    · exact ⟨trivial, rfl⟩
  refine h.move (h.started hc (by simp)) le_rfl (fun k o hv hl => ?_) (fun k o hl => ?_)
    (fun _ _ hl => .inl (load_of_load_delete hl).2) ?_ (fun _ => .inl rfl) (fun _ he => by cases he) (fun k o hu => ?_)
    (fun c' ph' he => ?_) fun c' ph' he hin => ?_
  · rw [load_delete, if_neg (hvisit k o hv), hl]
  · -- what goes is the state of the call
    rw [load_delete]
    split
    · subst k
      rcases htidy.1 with hn | hs
      · rw [hn] at hl; cases hl
      · rw [hs] at hl; cases hl; exact .inr hfail
    · exact .inl hl
  · exact (h.counted_same (by rw [hc]; rfl)).delete fun o hd => hvisit _ o (Cycle.visitingFlow_of_doomed hd) rfl
  · cases hu
    exact .inr hfail
  · rw [Call.connected.injEq] at he
    obtain ⟨rfl, hph⟩ := he
    exact (hgone ph' hph.symm).1
  · rw [Call.connected.injEq] at he
    rw [(hgone ph' he.2.symm).2] at hin
    cases hin

/-- The deferred `unpin`. -/
theorem FlowInv.leave (hc : s.calls i = .connected c .leaving) :
    FlowInv { s.setCall i .idle with flows := s.flows.unpin c.state c.since } :=
  h.release (by rw [hc]; rfl) rfl rfl c.since

theorem FlowInv.connStep (hc : s.calls i = .connected c ph) (htidy : s.Tidy i)
    (hok : s.connStep i c ph = .ok s') : s'.FlowInv := by
  have hph := h.phases i c ph hc
  cases ph with
  | initializing =>
    simp only [connStep] at hok
    split at hok
    · cases hok; exact h.enter hc ‹_›
    · cases hok; exact h
    · rename_i ok hdone
      cases hok
      cases ok <;> exact h.phase hc hdone fun hin => by cases hin
  | looking =>
    simp only [connStep] at hok
    split_ifs at hok
    · cases hok; exact h
    · cases hok; exact h.phase hc hph fun _ => rfl
    · cases hok; exact h.phase hc hph fun _ => rfl
  | ensuring =>
    simp only [connStep] at hok
    split_ifs at hok
    · cases hok; exact h
    · cases hok; exact h.phase hc hph fun _ => rfl
    · split at hok
      · cases hok
      · cases hok; exact h.phase hc hph fun _ => rfl
  | synchronizing =>
    simp only [connStep] at hok
    split_ifs at hok
    · cases hok; exact h
    · split at hok
      · cases hok
      · cases hok; exact h.synchronized hc _
  | failing =>
    cases hok
    exact h.delete hc htidy
  | loadingBand =>
    simp only [connStep] at hok
    split at hok
    · cases hok; exact h.phase hc hph fun hin => by cases hin
    · cases hok; exact h.phase hc trivial fun hin => by cases hin
  | unpinningBand b =>
    cases hok
    exact h.phase hc trivial fun hin => by cases hin
  | running =>
    cases hok
    exact h
  | leaving =>
    cases hok
    exact h.leave hc

theorem FlowInv.callStep (htidy : s.Tidy i) (hok : s.callStep i (s.calls i) = .ok s') : s'.FlowInv := by
  cases hc : s.calls i with
  | idle => rw [hc] at hok; cases hok; exact h
  | pinningFlow key p => rw [hc] at hok; exact h.pinningFlow hc hok
  | pinningBand key o p => rw [hc] at hok; exact h.pinningBand hc hok
  | connected c ph => rw [hc] at hok; exact h.connStep hc htidy hok

/-! ## The collector -/

/-- The collector takes no state out of the map that a call has pinned. -/
theorem FlowInv.collector {g : Cycle} (hcounted : flows.Counted (fun i o => (s.calls i).pinned = some o) g.doomedFlow)
    (hvisit : ∀ k o, g.visitingFlow = some (k, o) → flows.load k = some o) (hnext : flows.next = s.flows.next)
    (hold : ∀ k o, flows.load k = some o → s.flows.load k = some o)
    (hkeep : ∀ i k o, (s.calls i).pinned = some o → s.flows.load k = some o → flows.load k = some o) :
    FlowInv { s with flows := flows, bands := bands, registry := registry, gc := g } where
  idle := h.idle
  counted := hcounted
  visiting := hvisit
  tried := fun i o hi => (h.tried i o hi).trans_eq hnext.symm
  used := fun i k o hi => (h.used i k o hi).imp_left (hkeep i k o (Call.pinned_of_used hi))
  untouched := fun o ho => h.untouched o (hnext.symm.trans_le ho)
  phases := fun i c ph hi =>
    ok_mono (h.phases i c ph hi) rfl (h.counted.allocated i _ (by rw [hi]; rfl)) fun k o hl => .inl (hold k o hl)
  once := h.once

/-- Where the collector is not busy with flows it may do what it likes. -/
theorem FlowInv.elsewhere {g₀ g : Cycle} (hg : s.gc = g₀) (hd : g.doomedFlow = g₀.doomedFlow)
    (hv : g.visitingFlow = none) : FlowInv { s with bands := bands, registry := registry, gc := g } := by
  subst hg
  refine h.collector (hd ▸ h.counted) (fun k o he => ?_) rfl (fun _ _ hl => hl) fun _ _ _ _ hl => hl
  rw [hv] at he
  cases he

theorem FlowInv.collecting {c : Collecting FlowKey} (hg : s.gc = .flows c) (timeout : Int) :
    FlowInv { s with flows := (c.step s.flows timeout).1, gc := .flows (c.step s.flows timeout).2 } := by
  have hcounted := h.counted
  have hvisiting := h.visiting
  rw [hg] at hcounted hvisiting
  exact h.collector (counted_step hcounted hvisiting timeout) (fun _ _ => visiting_step hvisiting)
    (next_step ..) (fun _ _ => load_of_step) fun _ _ _ => load_step hcounted timeout

theorem FlowInv.gcStep : (s.gcStep s.gc).FlowInv := by
  cases hg : s.gc with
  | idle => exact h
  | flows c =>
    cases c with
    | ranging now found => exact h.elsewhere hg rfl rfl
    | checking now found k o | deleting now found k o => exact h.collecting hg _
  | releasing todo keys =>
    cases todo with
    | nil => exact h.elsewhere hg rfl rfl
    | cons x todo =>
      simp only [Sessions.gcStep]
      split <;> exact h.elsewhere hg rfl rfl
  | cleaningFlows keys =>
    cases keys with
    | nil => exact h.elsewhere hg rfl rfl
    | cons key keys =>
      simp only [Sessions.gcStep]
      split <;> exact h.elsewhere hg rfl rfl
  | bands c => cases c <;> exact h.elsewhere hg rfl rfl
  | cleaningBands ps =>
    cases ps with
    | nil => exact h.elsewhere hg rfl rfl
    | cons p ps =>
      simp only [Sessions.gcStep]
      split <;> exact h.elsewhere hg rfl rfl
  | _ => exact h.elsewhere hg rfl rfl

theorem FlowInv.visitFlow {c : Collecting FlowKey} (hg : s.gc = .flows c) (key : FlowKey) :
    FlowInv { s with gc := .flows (c.visit s.flows key) } := by
  have hcounted := h.counted
  have hvisiting := h.visiting
  rw [hg] at hcounted hvisiting
  refine h.collector ?_ (fun _ _ => visiting_visit hvisiting) rfl (fun _ _ hl => hl) fun _ _ _ _ hl => hl
  rw [Cycle.doomedFlow, doomed_visit]
  exact hcounted

theorem FlowInv.step {a : SessionAction} (htidy : ∀ i, a = .call i → s.Tidy i) (hok : s.step a = .ok s') :
    s'.FlowInv := by
  cases a with
  | connect key =>
    simp only [Sessions.step] at hok
    split at hok
    · cases hok; exact h
    · cases hok; exact h.connect key
  | call i => exact h.callStep (htidy i rfl) hok
  | hangUp i =>
    simp only [Sessions.step] at hok
    split at hok
    · cases hok; exact h.phase ‹_› trivial nofun
    · cases hok; exact h
  | collect | visitBand p =>
    simp only [Sessions.step] at hok
    split at hok
    · rename_i hg
      cases hok
      exact h.elsewhere hg rfl rfl
    · cases hok; exact h
  | visitFlow key =>
    simp only [Sessions.step] at hok
    split at hok
    · cases hok; exact h.visitFlow ‹_› key
    · cases hok; exact h
  | gc =>
    cases hok
    exact h.gcStep
  | tick d =>
    cases hok
    exact h.collector h.counted h.visiting rfl (fun _ _ hl => hl) fun _ _ _ _ hl => hl

end Sessions

end InferenceGateway.Registry
