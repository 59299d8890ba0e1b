import InferenceGateway.Registry.BandLeases
import InferenceGateway.Registry.BandSafety
/-!
# As many leases as flows

In every interleaving in which the collector leaves a flow alone until the call that
has entered it has pinned it, and in which a failed call deletes no state but its
own, the lease count of a band's state is the number of flows that have a lease.
Between the calls these are the flows in the map.
-/

namespace InferenceGateway.Registry

open Lib Queue List FlowRegistry Sessions Collecting

/-- The call is over, or in its callback. -/
def Call.settled : Call → Bool
  | .idle | .connected _ .running => true
  | _ => false

namespace Sessions

variable {α : Type} {s s' : Sessions α}

/-- The condition on a step. When the collector is about to look whether a flow is
idle, no call has entered the flow's state in the map without having pinned it. When a
call is about to delete a flow whose provisioning has failed, the entry is that
call's own or there is none, and the collector is not busy with the flow. -/
def Orderly (s : Sessions α) : SessionAction → Prop
  | .call i => s.Tidy i
  | .gc =>
    match s.gc with
    | .flows (.checking _ _ _ o) => ∀ i < s.started, (s.calls i).entered ≠ some o
    | _ => True
  | _ => True

instance (s : Sessions α) (a : SessionAction) : Decidable (s.Orderly a) := by
  unfold Orderly
  split
  · infer_instance
  · split <;> infer_instance
  · infer_instance

/-! ## The collector -/

variable (h : s.BandInv)
include h

/-- The collector goes on. -/
theorem BandInv.collector {flows : LeaseMap FlowKey} {bands : LeaseMap Int} {registry : FlowRegistry α} {g : Cycle}
    (hleases : Leases bands (leased { s with flows := flows, bands := bands, registry := registry, gc := g }) g.doomedBand)
    (hvisit : ∀ p b, g.visitingBand = some (p, b) → bands.load p = some b) (hknown : ∀ i, (s.calls i).BandOk bands)
    (hunmarked : ∀ i o, (s.calls i).entered = some o → (flows.states o).markedForDeletion = false)
    (hold : ∀ k o, flows.load k = some o → s.flows.load k = some o) (honce : g.owed.Nodup)
    (howed : ∀ x ∈ g.owed, x.2 < flows.next ∧ flows.load x.1 ≠ some x.2 ∧ ∀ i, (s.calls i).made ≠ some x)
    (hreleasing : ∀ b x todo keys, g = .unpinning b x todo keys → bands.load x.1.priority = some b) :
    BandInv { s with flows := flows, bands := bands, registry := registry, gc := g } where
  leases := hleases
  visiting := hvisit
  known := hknown
  makers := h.makers
  unmarked := hunmarked
  provisioned := fun k o hl => h.provisioned k o (hold k o hl)
  once := honce
  owed := howed
  releasing := hreleasing

/-- It goes on and changes neither map. -/
theorem BandInv.turn {registry : FlowRegistry α} {g₀ g : Cycle} (hg : s.gc = g₀) (hd : g.doomedBand = g₀.doomedBand)
    (hvisit : ∀ p b, g.visitingBand = some (p, b) → s.bands.load p = some b) (howed : g.owed = g₀.owed)
    (hreleasing : ∀ b x todo keys, g = .unpinning b x todo keys → s.bands.load x.1.priority = some b) :
    BandInv { s with registry := registry, gc := g } := by
  subst hg
  refine h.collector ?_ hvisit h.known h.unmarked (fun _ _ hl => hl) (howed ▸ h.once) (howed ▸ h.owed) hreleasing
  rw [hd]
  refine h.leases.congr fun x => ?_
  show _ ∨ _ ∨ x ∈ g.owed ↔ _
  rw [howed]
  rfl

/-- Where it is not at a band, it need not know one. -/
theorem BandInv.elsewhere {registry : FlowRegistry α} {g₀ g : Cycle} (hg : s.gc = g₀) (hd : g.doomedBand = g₀.doomedBand)
    (hvisit : g.visitingBand = none) (howed : g.owed = g₀.owed)
    (hreleasing : ∀ b x todo keys, g = .unpinning b x todo keys → s.bands.load x.1.priority = some b) :
    BandInv { s with registry := registry, gc := g } := by
  refine h.turn hg hd (fun p b he => ?_) howed hreleasing
  rw [hvisit] at he
  cases he

variable {k : FlowKey} {o : Nat}

/-- The flow that is looked at may be marked: nobody is about to pin it as its own. -/
theorem BandInv.checking (hf : s.FlowInv) {now : Int} {found : List (FlowKey × Nat)}
    (hg : s.gc = .flows (.checking now found k o)) (hentered : ∀ i < s.started, (s.calls i).entered ≠ some o) :
    (s.gcStep s.gc).BandInv := by
  have howed : (Cycle.flows ((Collecting.checking now found k o).step s.flows s.registry.config.flowGCTimeout).2).owed =
      s.gc.owed := by
    rw [hg]
    simp only [Collecting.step]
    split <;> rfl
  rw [hg]
  refine h.collector ?_ (fun _ _ he => by cases he) h.known (fun i o' hi => ?_) (fun _ _ hl => hl) (howed ▸ h.once)
    (howed ▸ h.owed) (by simp)
  · have hd : s.gc.doomedBand = none := by rw [hg]; rfl
    refine (hd ▸ h.leases).congr fun x => ?_
    show _ ∨ _ ∨ x ∈ Cycle.owed _ ↔ _
    rw [howed]
    rfl
  · have hne : o' ≠ o := by
      rintro rfl
      have hstarted := hf.started (i := i) rfl (by intro hc; rw [hc] at hi; cases hi)
      exact hentered i hstarted hi
    simp only [Collecting.step, LeaseMap.setState, Function.update_of_ne hne]
    exact h.unmarked i o' hi

/-- A flow that has been marked is nobody's own. -/
theorem BandInv.not_made_of_marked (hf : s.FlowInv) (hm : (s.flows.states o).markedForDeletion = true)
    (i : Nat) : (s.calls i).made ≠ some (k, o) := by
  intro hi
  rcases Call.in_hand_of_made hi with hp | he
  · rw [hf.counted.live i o hp] at hm; cases hm
  · rw [h.unmarked i o he] at hm; cases hm

/-- A flow that leaves the map is owed by the collector. -/
theorem BandInv.deleting (hf : s.FlowInv) {now : Int} {found : List (FlowKey × Nat)}
    (hg : s.gc = .flows (.deleting now found k o)) : (s.gcStep s.gc).BandInv := by
  obtain ⟨hl, hm⟩ := hf.counted.doom k o (by rw [hg]; rfl)
  have hno := h.not_made_of_marked hf (k := k) hm
  have howed : s.gc.owed = found := by rw [hg]; rfl
  have hold : ∀ k' o', (s.flows.delete k).load k' = some o' → k' ≠ k ∧ s.flows.load k' = some o' := fun _ _ =>
    LeaseMap.load_of_load_delete
  rw [hg]
  simp only [gcStep, Collecting.step, hl]
  refine h.collector (g := .flows (.ranging now (found ++ [(k, o)]))) ?_ (fun _ _ he => by cases he) h.known h.unmarked
    (fun k' o' hk => (hold k' o' hk).2) ?_ (fun x hx => ?_) (by simp)
  · have hd : s.gc.doomedBand = none := by rw [hg]; rfl
    refine (hd ▸ h.leases).congr fun x => ?_
    show ((s.flows.delete k).load x.1 = some x.2 ∧ _) ∨ _ ∨ x ∈ found ++ [(k, o)] ↔ (_ ∧ _) ∨ _ ∨ x ∈ s.gc.owed
    rw [howed, mem_append, mem_singleton]
    constructor
    · rintro (⟨hx, hcre⟩ | hx | hx | rfl)
      · exact .inl ⟨(hold _ _ hx).2, hcre⟩
      · exact .inr (.inl hx)
      · exact .inr (.inr hx)
      · exact .inl ⟨hl, fun i hi => hno i (Call.made_of_creating hi)⟩
    · rintro (⟨hx, hcre⟩ | hx | hx)
      · by_cases hk : x.1 = k
        · rw [hk, hl, Option.some.injEq] at hx
          exact .inr (.inr (.inr (Prod.ext hk hx.symm)))
        · exact .inl ⟨by rw [LeaseMap.load_delete, if_neg hk]; exact hx, hcre⟩
      · exact .inr (.inl hx)
      · exact .inr (.inr (.inl hx))
  · refine nodup_append.2 ⟨howed ▸ h.once, nodup_singleton _, fun x hx y hy he => ?_⟩
    rw [mem_singleton] at hy
    subst hy he
    exact (h.owed _ (howed ▸ hx)).2.1 hl
  · rcases mem_append.1 hx with hx | hx
    · obtain ⟨hlt, hload, hmade⟩ := h.owed x (howed ▸ hx)
      exact ⟨hlt, fun hk => hload (hold _ _ hk).2, hmade⟩
    · rw [mem_singleton] at hx
      subst hx
      exact ⟨hf.counted.stored _ _ hl, fun hk => (hold _ _ hk).1 rfl, hno⟩

/-- The collector gives a lease back. -/
theorem BandInv.release {b : Nat} {x : FlowKey × Nat} {todo : List (FlowKey × Nat)} {keys : List FlowKey}
    (hg : s.gc = .unpinning b x todo keys) : (s.gcStep s.gc).BandInv := by
  have howed : s.gc.owed = x :: todo := by rw [hg]; rfl
  have hnodup := h.once
  rw [howed, nodup_cons] at hnodup
  have hx : x ∈ s.gc.owed := by rw [howed]; exact mem_cons_self
  obtain ⟨-, hload, hmade⟩ := h.owed x hx
  have hl := h.releasing b x todo keys hg
  rw [hg]
  refine h.collector (g := .releasing todo keys) ?_ (fun _ _ he => by cases he)
    (fun i => bandOk_mono (h.known i) (s.bands.evolves_unpin ..) fun _ _ hb => hb) h.unmarked (fun _ _ hk => hk) hnodup.2
    (fun y hy => h.owed y (by rw [howed]; exact mem_cons_of_mem _ hy)) (by simp)
  have hd : s.gc.doomedBand = none := by rw [hg]; rfl
  refine (hd ▸ h.leases).unpin (x := x) (.inr (.inr hx)) hl _ fun y => ?_
  show _ ∨ _ ∨ y ∈ todo ↔ ((_ ∨ _ ∨ y ∈ s.gc.owed) ∧ y ≠ x)
  rw [howed, mem_cons]
  by_cases hy : y = x
  · subst hy
    simp only [ne_eq, not_true_eq_false, and_false, iff_false, not_or]
    refine ⟨fun hk => hload hk.1, fun hex => hex.elim fun i hi => hmade i (Call.made_of_owing hi),
      hnodup.1⟩
  · simp only [ne_eq, hy, not_false_eq_true, and_true, false_or]

theorem BandInv.collecting {c : Collecting Int} (hg : s.gc = .bands c) (timeout : Int) :
    BandInv { s with bands := (c.step s.bands timeout).1, gc := .bands (c.step s.bands timeout).2 } := by
  have hleases := h.leases
  have hvisiting := h.visiting
  rw [hg] at hleases hvisiting
  have howed : s.gc.owed = [] := by rw [hg]; rfl
  have hev := evolves hleases.counted timeout
  refine h.collector ?_ (fun _ _ => visiting_step hvisiting) (fun i => ?_) h.unmarked (fun _ _ hk => hk)
    nodup_nil (fun _ hx => by cases hx) (by simp)
  · refine (hleases.collect hvisiting timeout).congr fun x => ?_
    show _ ∨ _ ∨ x ∈ [] ↔ _ ∨ _ ∨ x ∈ s.gc.owed
    rw [howed]
  · -- what a call has of a band is leased for its flow
    have hk := h.known i
    have hkeep : ∀ x b, (s.calls i).owing = some x → s.bands.load x.1.priority = some b →
        (c.step s.bands timeout).1.load x.1.priority = some b :=
      fun x b hx hb => hleases.load_step timeout (.inr (.inl ⟨i, hx⟩)) hb
    cases hc : s.calls i with
    | idle | pinningFlow key p => trivial
    | pinningBand key o p =>
      rw [hc] at hk hkeep
      cases p with
      | trying b n =>
        refine ⟨hk.1.trans_le hev.next, ?_⟩
        rcases hk.2 with hb | hm
        · exact hev.entry _ _ hb
        · exact .inr (hev.mark b hk.1 hm)
      | confirming b n => exact hkeep (key, o) b rfl hk
      | backingOff b => exact hk.elim
      | loading | storing => trivial
    | connected c' ph =>
      rw [hc] at hk hkeep
      cases ph with
      | loadingBand => exact hk
      | unpinningBand b =>
        exact ⟨hk.1, hkeep (c'.key, c'.state) b (by rw [Call.owing, if_pos hk.1] <;> simp) hk.2⟩
      | _ => trivial

theorem BandInv.gcStep (hf : s.FlowInv) (hord : s.Orderly .gc) : (s.gcStep s.gc).BandInv := by
  cases hg : s.gc with
  | idle => exact h
  | flows c =>
    cases c with
    | ranging now found => exact h.elsewhere hg rfl rfl rfl (by simp)
    | checking now found k o =>
      simp only [Orderly, hg] at hord
      exact hg ▸ h.checking hf hg hord
    | deleting now found k o => exact hg ▸ h.deleting hf hg
  | releasing todo keys =>
    cases todo with
    | nil => exact h.elsewhere hg rfl rfl rfl (by simp)
    | cons x todo =>
      obtain ⟨b, hb⟩ := h.leases.covered x (.inr (.inr (by rw [hg]; exact mem_cons_self)))
      simp only [Sessions.gcStep, hb]
      refine h.elsewhere (g := .unpinning b x todo keys) hg rfl rfl rfl fun b' x' _ _ he => ?_
      cases he
      exact hb
  | unpinning b x todo keys => exact hg ▸ h.release hg
  | cleaningFlows keys =>
    cases keys with
    | nil => exact h.elsewhere hg rfl rfl rfl (by simp)
    | cons key keys =>
      simp only [Sessions.gcStep]
      split <;> exact h.elsewhere hg rfl rfl rfl (by simp)
  | bands c =>
    cases c with
    | ranging now found => exact h.elsewhere hg rfl rfl rfl (by simp)
    | checking now found k o | deleting now found k o => exact h.collecting hg _
  | cleaningBands ps =>
    cases ps with
    | nil => exact h.elsewhere hg rfl rfl rfl (by simp)
    | cons p ps =>
      simp only [Sessions.gcStep]
      split <;> exact h.elsewhere hg rfl rfl rfl (by simp)
  | _ => exact h.elsewhere hg rfl rfl rfl (by simp)

theorem BandInv.step (hf : s.FlowInv) {a : SessionAction} (hord : s.Orderly a) (hok : s.step a = .ok s') :
    s'.BandInv := by
  cases a with
  | connect key =>
    simp only [Sessions.step] at hok
    split at hok
    · cases hok; exact h
    · cases hok; exact h.connect hf key
  | call i =>
    simp only [Sessions.step] at hok
    cases hc : s.calls i with
    | idle => rw [hc] at hok; cases hok; exact h
    | pinningFlow key p => rw [hc] at hok; exact h.pinningFlow hf hc hok
    | pinningBand key o p => rw [hc] at hok; exact h.pinningBand hf hc hok
    | connected c ph => rw [hc] at hok; exact h.connStep hf hc hord hok
  | hangUp i =>
    simp only [Sessions.step] at hok
    split at hok
    · rename_i hc
      cases hok
      exact h.phase hf hc .leaving rfl trivial fun _ hd => hd
    · cases hok; exact h
  | collect =>
    simp only [Sessions.step] at hok
    split at hok
    · rename_i hg
      cases hok
      exact h.elsewhere hg rfl rfl rfl (by simp)
    · cases hok; exact h
  | visitFlow key =>
    simp only [Sessions.step] at hok
    split at hok
    · rename_i c hg
      cases hok
      exact h.elsewhere hg rfl rfl (resourcesToClean_visit ..) (by simp)
    · cases hok; exact h
  | visitBand p =>
    simp only [Sessions.step] at hok
    split at hok
    · rename_i c hg
      cases hok
      have hvisiting := h.visiting
      rw [hg] at hvisiting
      exact h.turn hg (doomed_visit ..) (fun _ _ => visiting_visit hvisiting) rfl (by simp)
    · cases hok; exact h
  | gc =>
    cases hok
    exact h.gcStep hf hord
  | tick d =>
    cases hok
    exact h.turn rfl rfl h.visiting rfl h.releasing

omit h

/-- Both invariants hold in every state that an orderly run reaches. -/
theorem orderly_inv {r : FlowRegistry α} (hrun : Runs Sessions.step (fun s a => s.Orderly a) (start r) s) :
    s.FlowInv ∧ s.BandInv := by
  refine Runs.invariant (fun s => s.FlowInv ∧ s.BandInv) (fun s a s' hs hord hok => ?_) ⟨start_flowInv r, start_bandInv r⟩ hrun
  refine ⟨hs.1.step (fun i hi => ?_) hok, hs.2.step hs.1 hord hok⟩
  subst hi
  exact hord

/-! ## The count -/

/-- The flows in the map at a priority. -/
def flowsAt (s : Sessions α) (p : Int) : List FlowKey := s.flows.entries.keys.filter (·.priority = p)

theorem mem_flowsAt {p : Int} : k ∈ s.flowsAt p ↔ (∃ o, s.flows.load k = some o) ∧ k.priority = p := by
  unfold flowsAt LeaseMap.load
  rw [mem_filter, decide_eq_true_eq, ← AList.mem_keys, ← AList.lookup_isSome, Option.isSome_iff_exists]

theorem leased_of_settled (hset : ∀ i, (s.calls i).settled = true) (x : FlowKey × Nat) :
    s.leased x ↔ s.flows.load x.1 = some x.2 ∨ x ∈ s.gc.owed := by
  have hnone : ∀ i, (s.calls i).creating = none ∧ (s.calls i).owing = none := by
    intro i
    have hi := hset i
    cases hc : s.calls i with
    | idle => exact ⟨rfl, rfl⟩
    | connected c ph => rw [hc] at hi; cases ph <;> cases hi; exact ⟨rfl, rfl⟩
    | pinningFlow key p | pinningBand key o p => rw [hc] at hi; cases hi
  simp [leased, hnone]

/-- Between the calls the leases of a band are for the flows in the map, and for those
that the collector has taken out and not dealt with. -/
theorem BandInv.count (h : s.BandInv) (hset : ∀ i, (s.calls i).settled = true) {p : Int} {b : Nat}
    (hb : s.bands.load p = some b) : (s.bands.states b).leaseCount =
      (s.flowsAt p).length + (s.gc.owed.filter (·.1.priority = p)).length := by
  -- both sides count the same pairs of a key and a state
  set entry : FlowKey → FlowKey × Nat := fun k => (k, (s.flows.load k).getD 0) with hentry
  set pairs := (s.flowsAt p).map entry ++ s.gc.owed.filter (·.1.priority = p) with hpairs
  have hmem : ∀ x, x ∈ (s.flowsAt p).map entry ↔ s.flows.load x.1 = some x.2 ∧ x.1.priority = p := by
    intro x
    rw [List.mem_map]
    constructor
    · rintro ⟨k, hk, rfl⟩
      obtain ⟨⟨o, ho⟩, hp⟩ := mem_flowsAt.1 hk
      exact ⟨by simp [hentry, ho], hp⟩
    · rintro ⟨hl, hp⟩
      exact ⟨x.1, mem_flowsAt.2 ⟨⟨_, hl⟩, hp⟩, by simp [hentry, hl]⟩
  have hnodup : pairs.Nodup := by
    refine nodup_append.2 ⟨?_, h.once.filter _, fun x hx y hy he => ?_⟩
    · exact (List.Nodup.filter _ s.flows.entries.keys_nodup).map fun k k' he => congrArg Prod.fst he
    · subst he
      exact (h.owed x (mem_filter.1 hy).1).2.1 ((hmem x).1 hx).1
  have hcount := Counts.of_nodup hnodup
  rw [hpairs, length_append, length_map, Nat.cast_add] at hcount
  refine (h.leases.counted.count b).unique (hcount.congr fun x => ?_)
  rw [leased_of_settled hset, mem_append, hmem, mem_filter, decide_eq_true_eq, ← or_and_right]
  refine and_congr_right fun _ => ⟨fun hx => ?_, fun hx => hx ▸ hb⟩
  exact h.leases.counted.single _ _ b hx hb

/-- Every call is over or in its callback. -/
def Quiet (s : Sessions α) : Prop := ∀ i < s.started, (s.calls i).settled = true

instance (s : Sessions α) : Decidable s.Quiet := by unfold Quiet; infer_instance

theorem FlowInv.settled (h : s.FlowInv) (hq : s.Quiet) (i : Nat) : (s.calls i).settled = true := by
  by_cases hi : i < s.started
  · exact hq i hi
  · rw [h.idle i (not_lt.1 hi)]; rfl

/-- In every orderly run the lease count of a band's state is never negative, and when
every call is over or in its callback it is the number of flow states registered at
the priority and of those that have left the map in the cycle under way and whose
leases are yet to be given back: without such flows the two numbers agree. -/
theorem band_leases_eq_flows (r : FlowRegistry α) (s : Sessions α)
    (hrun : Runs Sessions.step (fun s a => s.Orderly a) (start r) s) (p : Int) (b : Nat) (hb : s.bands.load p = some b) :
    0 ≤ (s.bands.states b).leaseCount ∧
    (s.Quiet → (s.bands.states b).leaseCount = (s.flowsAt p).length + (s.gc.owed.filter (·.1.priority = p)).length) ∧
    (s.Quiet → (∀ x ∈ s.gc.owed, x.1.priority ≠ p) → (s.bands.states b).leaseCount = (s.flowsAt p).length) := by
  obtain ⟨hf, h⟩ := orderly_inv hrun
  refine ⟨(h.leases.counted.count b).nonneg, fun hq => h.count (hf.settled hq) hb, fun hq hg => ?_⟩
  have hnone : s.gc.owed.filter (·.1.priority = p) = [] := by
    refine filter_eq_nil_iff.2 fun x hx => ?_
    rw [decide_eq_true_eq]
    exact hg x hx
  rw [h.count (hf.settled hq) hb, hnone, length_nil, Nat.cast_zero, add_zero]

/-- A call for a new flow runs until it is in its callback. -/
def connecting (i : Nat) (key : FlowKey) : List SessionAction := .connect key :: List.replicate 11 (.call i)

/-- A cycle of the collector that looks at one flow, and takes `n` steps. -/
def cycle (key : FlowKey) (n : Nat) : List SessionAction := .collect :: .visitFlow key :: List.replicate n .gc

/-- Two flows of one priority, of which one is collected again. -/
theorem band_leases_eq_flows_after_cycle : ∃ r : FlowRegistry Request, ∃ s,
    newFlowRegistry Request.config.toConfig 1 = .ok r ∧
    Runs Sessions.step (fun s a => s.Orderly a) (start r) s ∧ s.Quiet ∧ s.gc = .idle ∧ s.bands.load 0 = some 0 ∧
    s.flowsAt 0 = [⟨"b", 0⟩] ∧ (s.bands.states 0).leaseCount = (s.flowsAt 0).length := by
  refine exists_run (connecting 0 ⟨"a", 0⟩ ++ connecting 1 ⟨"b", 0⟩ ++ [.hangUp 0, .call 0, .tick 5] ++ cycle ⟨"a", 0⟩ 12)
    (fun s => s.Quiet ∧ s.gc = .idle ∧ s.bands.load 0 = some 0 ∧ s.flowsAt 0 = [⟨"b", 0⟩]) (by decide +kernel) ?_
  rintro r s - hrun ⟨hq, hg, hb, hfl⟩
  exact ⟨hq, hg, hb, hfl, (band_leases_eq_flows r s hrun 0 0 hb).2.2 hq (by rw [hg]; nofun)⟩

/-- The collector takes a flow that its call has entered and not pinned yet, and gives
back a lease which that call has not taken. The call comes with another state of the
flow. In the end there are two flows and one lease. -/
theorem band_lease_missing : ∃ r : FlowRegistry Request, ∃ s,
    newFlowRegistry Request.config.toConfig 1 = .ok r ∧
    Runs Sessions.step (fun _ _ => True) (start r) s ∧ s.Quiet ∧ s.gc = .idle ∧ s.bands.load 0 = some 0 ∧
    (s.flowsAt 0).length = 2 ∧ (s.bands.states 0).leaseCount = 1 :=
  exists_run (connecting 0 ⟨"a", 0⟩ ++ [.connect ⟨"b", 0⟩, .call 1, .call 1] ++ cycle ⟨"b", 0⟩ 7 ++ [.tick 5] ++
    cycle ⟨"b", 0⟩ 12 ++ List.replicate 11 (.call 1)) (fun s : Sessions Request => _) (by decide +kernel) fun _ _ _ _ h => h

end Sessions

end InferenceGateway.Registry
