import InferenceGateway.Registry.BandCounts
import InferenceGateway.Registry.Queues
/-!
# The queues of running callbacks

A flow in the map that has been provisioned has its queue on every shard: the
collector deletes the queues of a flow that is not in the map, and a band without
flows. For the second it is not enough that the band's state has no lease, as a flow
may be in the map, and provisioned by a later user of it, before the call that has
entered it has pinned the band.
-/

namespace InferenceGateway.Registry

open Lib Queue Function FlowRegistry RegistryShard Sessions

namespace Sessions

variable {α : Type} {s s' : Sessions α}

/-- The condition on a step: it is orderly, and when the collector is about to look
whether a band it has collected is back in the map, no call has entered a flow of the
band's priority without having pinned the band. -/
def Guarded (s : Sessions α) (a : SessionAction) : Prop :=
  s.Orderly a ∧
    match a, s.gc with
    | .gc, .cleaningBands (p :: _) => ∀ i < s.started, (s.calls i).creating.map (·.1.priority) ≠ some p
    | _, _ => True

instance (s : Sessions α) (a : SessionAction) : Decidable (s.Guarded a) :=
  have guard (P : Int → Prop) [DecidablePred P] : (g : Cycle) → Decidable
      (match a, g with
      | .gc, .cleaningBands (p :: _) => P p
      | _, _ => True) := by
    intro g
    split <;> infer_instance
  @instDecidableAnd _ _ inferInstance (guard (fun p => ∀ i < s.started, (s.calls i).creating.map (·.1.priority) ≠ some p) s.gc)

/-- The flow is in the map and provisioned. -/
def Live (s : Sessions α) (k : FlowKey) (o : Nat) : Prop := s.flows.load k = some o ∧ s.init o = .done true

structure LiveInv (s : Sessions α) : Prop where
  keyed : s.registry.config.Keyed
  active : s.registry.activeShards.Nodup
  all : s.registry.allShards.Nodup
  within : ∀ id ∈ s.registry.activeShards, id ∈ s.registry.allShards
  draining : s.registry.drainingShards = []
  queues : ∀ k o, s.Live k o → ∀ id ∈ s.registry.allShards, ((s.registry.shards id).managedQueue k).isSome
  flow : ∀ k keys, s.gc = .deletingFlow k keys → ∀ o, ¬ s.Live k o
  band : ∀ p ps, s.gc = .deletingBand p ps → ∀ k o, k.priority = p → ¬ s.Live k o

/-! ## Calls -/

/-- What a step of a call does to the registry, and to the flows that are provisioned. -/
inductive Effect (s s' : Sessions α) : Prop
  | none (hr : s'.registry = s.registry) (hlive : ∀ k o, s'.Live k o → s.Live k o)
  | band (p : Int) (hp : p ∉ s.registry.config.priorityBands) (hr : s.view.ensurePriorityBand p = .ok s'.registry)
    (hlive : ∀ k o, s'.Live k o → s.Live k o)
  | flow (key : FlowKey) (ok : Bool) (hg : s.gc.locked = false) (hr : s.view.synchronizeShards key = .ok (s'.registry, ok))
    (hlive : ∀ k o, s'.Live k o → s.Live k o ∨ (k = key ∧ ok = true))

variable {o : Nat}

theorem FlowInv.live_of (hf : s.FlowInv) {k : FlowKey} (h : s'.Live k o)
    (hload : ∀ k o, s'.flows.load k = some o → s.flows.load k = some o ∨ s.flows.next ≤ o)
    (hinit : ∀ o, s'.init o = .done true → s.init o = .done true) : s.Live k o := by
  have hdone := hinit o h.2
  refine ⟨(hload k o h.1).resolve_right fun hle => ?_, hdone⟩
  rw [hf.untouched o hle] at hdone
  cases hdone

theorem Pinning.load_of_step {K : Type} [DecidableEq K] {m : LeaseMap K} {k k' : K} {now : Int} {p : Pinning}
    (h : (p.step m k now).1.load k' = some o) : m.load k' = some o ∨ m.next ≤ o := by
  cases p with
  | storing =>
    simp only [Pinning.step] at h
    cases hk : m.load k with
    | some o' => rw [LeaseMap.loadOrStore_of_some hk] at h; exact .inl h
    | none =>
      rw [LeaseMap.loadOrStore_of_none hk, LeaseMap.load_store] at h
      split at h
      · cases h; exact .inr le_rfl
      · exact .inl h
  | backingOff o' => exact .inl h
  | _ =>
    simp only [Pinning.step] at h
    split at h <;> exact .inl h

variable {i : Nat}

theorem FlowInv.connEffect (hf : s.FlowInv) {c : Conn} {ph : ConnPhase} (hc : s.calls i = .connected c ph)
    (hok : s.connStep i c ph = .ok s') : s.Effect s' := by
  have hsame : ∀ {t : Sessions α}, t.flows = s.flows → t.init = s.init → ∀ k o, t.Live k o → s.Live k o :=
    fun hfl hin k o h => ⟨hfl ▸ h.1, hin ▸ h.2⟩
  cases ph with
  | initializing =>
    simp only [Sessions.connStep] at hok
    split at hok
    · cases hok
      refine .none rfl fun k o h => hf.live_of h (fun _ _ hl => .inl hl) fun o' hd => ?_
      change update s.init c.state .running o' = .done true at hd
      by_cases ho : o' = c.state
      · subst ho
        rw [update_self] at hd
        cases hd
      · rwa [update_of_ne ho] at hd
    · cases hok; exact .none rfl (hsame rfl rfl)
    · cases hok; exact .none rfl (hsame rfl rfl)
  | looking =>
    simp only [Sessions.connStep] at hok
    split_ifs at hok <;> cases hok <;> exact .none rfl (hsame rfl rfl)
  | ensuring =>
    simp only [Sessions.connStep] at hok
    split_ifs at hok with hg hp
    · cases hok; exact .none rfl (hsame rfl rfl)
    · cases hok; exact .none rfl (hsame rfl rfl)
    · split at hok
      · cases hok
      · rename_i r hr
        cases hok
        exact .band c.key.priority hp hr (hsame rfl rfl)
  | synchronizing =>
    simp only [Sessions.connStep] at hok
    split_ifs at hok with hg
    · cases hok; exact .none rfl (hsame rfl rfl)
    · split at hok
      · cases hok
      · rename_i r ok hr
        cases hok
        refine .flow c.key ok (by rwa [Bool.not_eq_true] at hg) hr fun k o h => ?_
        by_cases ho : o = c.state
        · -- the state that is done now is the one of the call's own flow
          subst ho
          have hdone : update s.init c.state (.done ok) c.state = .done true := h.2
          rw [update_self, Init.done.injEq] at hdone
          refine .inr ⟨?_, hdone⟩
          rcases hf.used i c.key c.state (by rw [hc]; rfl) with hl | hd
          · exact hf.counted.single k c.key c.state h.1 hl
          · rw [show s.init c.state = .running from hf.phases i c _ hc] at hd; cases hd
        · exact .inl ⟨h.1, (update_of_ne ho ..).symm.trans h.2⟩
  | failing =>
    cases hok
    exact .none rfl fun k o h => hf.live_of h (fun k' o' hl => .inl (LeaseMap.load_of_load_delete hl).2) fun _ hd => hd
  | loadingBand =>
    simp only [Sessions.connStep] at hok
    split at hok <;> cases hok <;> exact .none rfl (hsame rfl rfl)
  | unpinningBand b | running =>
    cases hok
    exact .none rfl (hsame rfl rfl)
  | leaving =>
    cases hok
    exact .none rfl fun k o h => hf.live_of h (fun _ _ hl => .inl hl) fun _ hd => hd

theorem FlowInv.callEffect (hf : s.FlowInv) (hok : s.callStep i (s.calls i) = .ok s') : s.Effect s' := by
  cases hc : s.calls i with
  | idle => rw [hc] at hok; cases hok; exact .none rfl fun _ _ h => h
  | pinningFlow key p =>
    rw [hc] at hok
    simp only [Sessions.callStep] at hok
    have hload : ∀ k o, (p.step s.flows key s.registry.clock).1.load k = some o → s.flows.load k = some o ∨ s.flows.next ≤ o :=
      fun _ _ => Pinning.load_of_step
    split at hok
    · rename_i flows p' hp
      rw [hp] at hload
      cases hok
      exact .none rfl fun k o h => hf.live_of h hload fun _ hd => hd
    · rename_i flows o' isNew hp
      rw [hp] at hload
      cases hok
      exact .none rfl fun k o h => hf.live_of h hload fun _ hd => hd
  | pinningBand key o p =>
    rw [hc] at hok
    simp only [Sessions.callStep] at hok
    split at hok <;> cases hok <;> exact .none rfl fun _ _ h => h
  | connected c ph => rw [hc] at hok; exact hf.connEffect hc hok

theorem gc_callStep {c : Call} (hok : s.callStep i c = .ok s') : s'.gc = s.gc := by
  cases c with
  | idle => cases hok; rfl
  | pinningFlow key p | pinningBand key o p =>
    simp only [callStep] at hok
    split at hok <;> cases hok <;> rfl
  | connected c ph =>
    cases ph <;> simp only [callStep, connStep] at hok <;> (repeat' split at hok) <;> cases hok <;> rfl

/-- Steps that leave the collector where it is. -/
theorem LiveInv.effect (h : s.LiveInv) (he : s.Effect s') (hg : s'.gc = s.gc) : s'.LiveInv := by
  cases he with
  | none hr hlive =>
    refine ⟨hr ▸ h.keyed, hr ▸ h.active, hr ▸ h.all, hr ▸ h.within, hr ▸ h.draining, fun k o hl => ?_, fun k keys hk o hl => ?_,
      fun p ps hp k o hk hl => ?_⟩
    · rw [hr]; exact h.queues k o (hlive k o hl)
    · exact h.flow k keys (hg ▸ hk) o (hlive k o hl)
    · exact h.band p ps (hg ▸ hp) k o hk (hlive k o hl)
  | band p hp hr hlive =>
    obtain ⟨shards₁, shards₂, hr', -, -⟩ := ensurePriorityBand_ok (r := s.view) h.active hp hr
    have hq := ensurePriorityBand_queues (r := s.view) h.active h.keyed hp hr
    refine ⟨?_, ?_, ?_, ?_, ?_, fun k o hl id hid => ?_, fun k keys hk o hl => ?_, fun p ps hp k o hk hl => ?_⟩
    · rw [hr']; exact withBand_keyed (r := s.view) h.keyed p
    · rw [hr']; exact h.active
    · rw [hr']; exact h.all
    · rw [hr']; exact h.within
    · rw [hr']; exact h.draining
    · rw [hq id k]
      rw [hr'] at hid
      exact h.queues k o (hlive k o hl) id hid
    · exact h.flow k keys (hg ▸ hk) o (hlive k o hl)
    · exact h.band p ps (hg ▸ hp) k o hk (hlive k o hl)
  | flow key ok hlock hr hlive =>
    obtain ⟨hkeep, hnew⟩ := synchronizeShards_queues (r := s.view) h.all hr
    have hlists : s'.registry.config = s.registry.config ∧ s'.registry.activeShards = s.registry.activeShards ∧
        s'.registry.allShards = s.registry.allShards ∧ s'.registry.drainingShards = s.registry.drainingShards := by
      rcases synchronizeShards_ok (r := s.view) h.all hr with ⟨-, hr'⟩ | ⟨-, -, shards, -, -, hr', -⟩ <;> rw [hr'] <;>
        exact ⟨rfl, rfl, rfl, rfl⟩
    obtain ⟨hcfg, hact, hall, hdr⟩ := hlists
    refine ⟨hcfg ▸ h.keyed, hact ▸ h.active, hall ▸ h.all, ?_, hdr ▸ h.draining, fun k o hl id hid => ?_,
      fun k keys hk => ?_, fun p ps hp => ?_⟩
    · rw [hact, hall]; exact h.within
    · rw [hall] at hid
      rcases hlive k o hl with hl | ⟨rfl, hok⟩
      · exact hkeep id k (h.queues k o hl id hid)
      · exact hnew hok id hid
    -- the collector does not hold the lock
    · rw [hg] at hk; rw [hk] at hlock; cases hlock
    · rw [hg] at hp; rw [hp] at hlock; cases hlock

/-! ## The collector -/

/-- The collector goes on, without touching the registry. -/
theorem LiveInv.elsewhere (h : s.LiveInv) {flows : LeaseMap FlowKey} {bands : LeaseMap Int} {g : Cycle}
    (hlive : ∀ k o, flows.load k = some o → s.flows.load k = some o)
    (hflow : ∀ k keys, g = .deletingFlow k keys → ∀ o, ¬ s.Live k o)
    (hband : ∀ p ps, g = .deletingBand p ps → ∀ k o, k.priority = p → ¬ s.Live k o) :
    LiveInv { s with flows := flows, bands := bands, gc := g } :=
  { h with
    queues := fun k o hl => h.queues k o ⟨hlive k o hl.1, hl.2⟩
    flow := fun k keys hg o hl => hflow k keys hg o ⟨hlive k o hl.1, hl.2⟩
    band := fun p ps hg k o hk hl => hband p ps hg k o hk ⟨hlive k o hl.1, hl.2⟩ }

/-- It deletes the queues of a flow that is not live. -/
theorem LiveInv.dropFlow (h : s.LiveInv) {key : FlowKey} (hno : ∀ o, ¬ s.Live key o) (keys : List FlowKey) :
    LiveInv { s with registry := s.registry.dropFlow key, gc := .cleaningFlows keys } := by
  refine ⟨h.keyed, h.active, h.all, h.within, h.draining, fun k o hl id hid => ?_, nofun, nofun⟩
  have hk : k ≠ key := by
    rintro rfl
    exact hno o hl
  change id ∈ s.registry.allShards at hid
  show (managedQueue (if id ∈ s.registry.allShards then _ else _) k).isSome
  rw [if_pos hid, managedQueue_deleteFlow, if_neg hk]
  exact h.queues k o hl id hid

/-- It deletes a band without live flows. -/
theorem LiveInv.dropBand (h : s.LiveInv) {p : Int} (hno : ∀ k o, k.priority = p → ¬ s.Live k o) (ps : List Int) :
    LiveInv { s with registry := s.registry.dropBand p, gc := .cleaningBands ps } := by
  refine ⟨?_, h.active, h.all, h.within, h.draining, fun k o hl id hid => ?_, nofun, nofun⟩
  · exact fun e he => h.keyed e ((List.kerase_sublist p _).subset he)
  · have hk : k.priority ≠ p := fun hk => hno k o hk hl
    change id ∈ s.registry.allShards at hid
    show (managedQueue (if id ∈ s.registry.allShards then _ else _) k).isSome
    rw [if_pos hid, managedQueue_deletePriorityBand, if_neg hk]
    exact h.queues k o hl id hid

/-- Without calls that have yet to pin the band, a band that is not in the map has no
flows. -/
theorem BandInv.no_flow (h : s.BandInv) (hf : s.FlowInv) {p : Int} (hp : s.bands.load p = none)
    (hcre : ∀ i < s.started, (s.calls i).creating.map (·.1.priority) ≠ some p) {k : FlowKey} (hk : k.priority = p) :
    s.flows.load k ≠ some o := by
  intro hl
  have hleased : s.leased (k, o) := by
    refine .inl ⟨hl, fun i hi => ?_⟩
    have hstarted := hf.started (i := i) rfl (by intro hc; rw [hc] at hi; cases hi)
    refine hcre i hstarted ?_
    rw [hi, Option.map_some, hk]
  obtain ⟨b, hb⟩ := h.leases.covered (k, o) hleased
  rw [hk, hp] at hb
  cases hb

theorem LiveInv.gcStep (h : s.LiveInv) (hf : s.FlowInv) (hb : s.BandInv) (hguard : s.Guarded .gc) :
    (s.gcStep s.gc).LiveInv := by
  cases hg : s.gc with
  | idle => exact h
  | flows c =>
    cases c with
    | ranging now found => exact h.elsewhere (fun _ _ hl => hl) (by simp) (by simp)
    | checking now found k o | deleting now found k o =>
      exact h.elsewhere (fun _ _ => Collecting.load_of_step) (by simp) (by simp)
  | releasing todo keys =>
    cases todo with
    | nil => exact h.elsewhere (fun _ _ hl => hl) (by simp) (by simp)
    | cons x todo =>
      simp only [Sessions.gcStep]
      split <;> exact h.elsewhere (fun _ _ hl => hl) (by simp) (by simp)
  | unpinning b x todo keys => exact h.elsewhere (fun _ _ hl => hl) (by simp) (by simp)
  | cleaningFlows keys =>
    cases keys with
    | nil => exact h.elsewhere (fun _ _ hl => hl) (by simp) (by simp)
    | cons key keys =>
      simp only [Sessions.gcStep]
      split
      · exact h.elsewhere (fun _ _ hl => hl) (by simp) (by simp)
      · rename_i hno
        refine h.elsewhere (fun _ _ hl => hl) (fun k keys' he o hl => ?_) (by simp)
        cases he
        rw [hl.1] at hno; cases hno
  | deletingFlow key keys => exact h.dropFlow (h.flow key keys hg) keys
  | bands c => cases c <;> exact h.elsewhere (fun _ _ hl => hl) (by simp) (by simp)
  | cleaningBands ps =>
    cases ps with
    | nil => exact h.elsewhere (fun _ _ hl => hl) (by simp) (by simp)
    | cons p ps =>
      simp only [Sessions.gcStep]
      split
      · exact h.elsewhere (fun _ _ hl => hl) (by simp) (by simp)
      · rename_i hno
        have hcre := hguard.2
        simp only [hg] at hcre
        refine h.elsewhere (fun _ _ hl => hl) (by simp) fun p' ps' he k o hk hl => ?_
        cases he
        exact hb.no_flow hf hno hcre hk hl.1
  | deletingBand p ps => exact h.dropBand (h.band p ps hg) ps
  | sweeping =>
    -- no shard is draining
    have hsweep : s.view.sweepDrainingShards = s.view := by
      unfold sweepDrainingShards
      simp [view, h.draining]
    simp only [Sessions.gcStep, hsweep]
    exact ⟨h.keyed, h.active, h.all, h.within, h.draining, h.queues, (by simp), (by simp)⟩

theorem LiveInv.step (h : s.LiveInv) (hf : s.FlowInv) (hb : s.BandInv) {a : SessionAction} (hguard : s.Guarded a)
    (hok : s.step a = .ok s') : s'.LiveInv := by
  cases a with
  | connect key =>
    simp only [Sessions.step] at hok
    split at hok
    · cases hok; exact h
    · cases hok; exact h.effect (.none rfl fun _ _ hl => hl) rfl
  | call i => exact h.effect (hf.callEffect hok) (gc_callStep hok)
  | hangUp i =>
    simp only [Sessions.step] at hok
    split at hok
    · cases hok; exact h.effect (.none rfl fun _ _ hl => hl) rfl
    · cases hok; exact h
  | gc =>
    cases hok
    exact h.gcStep hf hb hguard
  | tick d =>
    cases hok
    exact { h with }
  | _ =>
    simp only [Sessions.step] at hok
    split at hok
    · cases hok; exact h.elsewhere (fun _ _ hl => hl) (by simp) (by simp)
    · cases hok; exact h

/-! ## Runs -/

theorem start_liveInv (cfg : ValidConfig α) (now : Int) {r : FlowRegistry α}
    (h₀ : newFlowRegistry cfg.toConfig now = .ok r) : (start r).LiveInv := by
  obtain ⟨ht, -, -⟩ := newFlowRegistry_topology cfg now h₀
  refine ⟨ht.keyed, ht.nodup_active, ht.nodup_all, fun id hid => ht.mem_all.2 (.inl hid), ?_, ?_, nofun, nofun⟩
  · exact (newFlowRegistry_bare h₀).1
  · rintro k o ⟨hl, -⟩
    cases hl

/-- In every run whose steps meet the condition, every active shard has the band and a
managed queue of each flow that a callback is running for. -/
theorem callbacks_have_queues (cfg : ValidConfig α) (now : Int) (r : FlowRegistry α)
    (h₀ : newFlowRegistry cfg.toConfig now = .ok r) (s : Sessions α)
    (hrun : Runs step (fun s a => s.Guarded a) (start r) s) (i : Nat) (c : Conn)
    (hc : s.calls i = .connected c .running) (id : Nat) (hid : id ∈ s.registry.activeShards) :
    c.key.priority ∈ (s.registry.shards id).priorityBands ∧ ((s.registry.shards id).managedQueue c.key).isSome := by
  have hinv : s.FlowInv ∧ s.BandInv ∧ s.LiveInv := by
    refine Runs.invariant (fun s => s.FlowInv ∧ s.BandInv ∧ s.LiveInv) (fun s a s' hs hguard hok => ?_)
      ⟨start_flowInv r, start_bandInv r, start_liveInv cfg now h₀⟩ hrun
    refine ⟨hs.1.step (fun i hi => ?_) hok, hs.2.1.step hs.1 hguard.1 hok, hs.2.2.step hs.1 hs.2.1 hguard hok⟩
    subst hi
    exact hguard.1
  obtain ⟨hf, -, hl⟩ := hinv
  have hdone : s.init c.state = .done true := hf.phases i c _ hc
  have hload : s.flows.load c.key = some c.state :=
    (hf.used i c.key c.state (by rw [hc]; rfl)).resolve_right (by rw [hdone]; nofun)
  have hq := hl.queues c.key c.state ⟨hload, hdone⟩ id (hl.within id hid)
  obtain ⟨mq, hmq⟩ := Option.isSome_iff_exists.1 hq
  exact ⟨mem_bands_of_managedQueue hmq, hq⟩

/-- A flow is collected while the callback of another one runs. -/
theorem callbacks_have_queues_after_cycle : ∃ r : FlowRegistry Request, ∃ s : Sessions Request, ∃ c,
    newFlowRegistry Request.config.toConfig 1 = .ok r ∧
    Runs step (fun s a => s.Guarded a) (start r) s ∧ s.calls 1 = .connected c .running ∧
    1 ∈ s.registry.activeShards ∧ ((s.registry.shards 1).managedQueue c.key).isSome := by
  obtain ⟨r, s, hr, hrun, hc, hid⟩ : ∃ r s, newFlowRegistry Request.config.toConfig 1 = .ok r ∧
      Runs step (fun s a => s.Guarded a) (start r) s ∧ s.calls 1 = .connected ⟨⟨"b", 0⟩, 1, true, 1⟩ .running ∧
      1 ∈ s.registry.activeShards :=
    exists_run (connecting 0 ⟨"a", 0⟩ ++ connecting 1 ⟨"b", 0⟩ ++ [.hangUp 0, .call 0, .tick 5] ++ cycle ⟨"a", 0⟩ 12)
      (fun s : Sessions Request => _) (by decide +kernel) fun _ _ _ _ h => h
  exact ⟨r, s, _, hr, hrun, hc, hid, (callbacks_have_queues Request.config 1 r hr s hrun 1 _ hc 1 hid).2⟩

/-- The band has been idle for its timeout. One call enters a flow and has yet to pin the
band, another one uses the flow: the band is collected under its callback. -/
theorem band_collected_under_callback : ∃ r : FlowRegistry Request, ∃ s : Sessions Request, ∃ c,
    newFlowRegistry Request.config.toConfig 1 = .ok r ∧
    Runs step (fun _ _ => True) (start r) s ∧ s.calls 2 = .connected c .running ∧
    1 ∈ s.registry.activeShards ∧ c.key.priority ∉ (s.registry.shards 1).priorityBands ∧
    (s.registry.shards 1).managedQueue c.key = none := by
  obtain ⟨r, s, hr, hrun, hc, hid, hband, hq⟩ : ∃ r s, newFlowRegistry Request.config.toConfig 1 = .ok r ∧
      Runs step (fun _ _ => True) (start r) s ∧ s.calls 2 = .connected ⟨⟨"b", 0⟩, 1, false, 16⟩ .running ∧
      1 ∈ s.registry.activeShards ∧ 0 ∉ (s.registry.shards 1).priorityBands ∧
      ((s.registry.shards 1).managedQueue ⟨"b", 0⟩).isNone :=
    exists_run (connecting 0 ⟨"a", 0⟩ ++ [.hangUp 0, .call 0, .tick 5] ++ cycle ⟨"a", 0⟩ 12 ++ [.tick 10] ++
      .connect ⟨"b", 0⟩ :: List.replicate 4 (.call 1) ++ .connect ⟨"b", 0⟩ :: List.replicate 6 (.call 2) ++
      [.collect, .gc, .gc, .gc, .visitBand 0, .gc, .gc, .gc, .gc, .gc]) (fun s : Sessions Request => _) (by decide +kernel)
      fun _ _ _ _ h => h
  exact ⟨r, s, _, hr, hrun, hc, hid, hband, Option.isNone_iff_eq_none.1 hq⟩

end Sessions

end InferenceGateway.Registry
