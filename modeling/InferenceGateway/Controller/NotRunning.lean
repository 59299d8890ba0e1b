import InferenceGateway.Controller.Workers
/-!
# Stopped workers

A worker is stopped when its shard is not among those that the supervisor has seen. This
is right as long as no shard is added while the supervisor goes through the workers, and a
shard is swept only when no call has it in view and its worker has no item outside the
queues: the sweep looks at the queues alone.
-/

namespace InferenceGateway.Controller

open List Function

/-- The shards that a call has still to look at. -/
def CallPhase.shards : CallPhase → List Nat
  | selecting shards _ => shards
  | _ => []

/-- The workers that a call may still turn to. -/
def CallPhase.candidates : CallPhase → List Nat
  | selecting _ candidates => candidates
  | distributing todo candidates => todo ++ candidates
  | submitting w todo candidates => w :: (todo ++ candidates)
  | blocking w => [w]
  | _ => []

/-- The item that a worker has taken from its channel and not yet let go of. -/
def WorkerPhase.hand : WorkerPhase → Option Nat
  | enqueueing i => some i
  | adding i => some i
  | _ => none

namespace FlowController

variable {cap : Nat} {s s' : FlowController}

/-- The worker has items that no shard counts. -/
def Busy (o : Worker) : Prop := o.enqueueChan ≠ [] ∨ o.phase.hand ≠ none

/-- The shard has been swept. -/
def Retired (s : FlowController) (id : Nat) : Prop :=
  id < s.nextShardID ∧ id ∉ s.activeShards ∧ id ∉ s.drainingShards

/-- Nobody has anything to do with the shard, but for its queues. -/
structure Unused (s : FlowController) (id : Nat) : Prop where
  shards : ∀ i, id ∉ (s.calls i).shards
  candidates : ∀ i, ∀ w ∈ (s.calls i).candidates, (s.objects w).shard ≠ id
  idle : ∀ w < s.started, (s.objects w).shard = id → ¬ Busy (s.objects w)

/-- No shard is added between `ShardStats` and the end of the range over the workers, and no shard is swept that is
in use. -/
structure Calm (s s' : FlowController) : Prop where
  scaleUp : s.nextShardID < s'.nextShardID → s.supervisor = .idle
  sweep : ∀ id ∈ s.drainingShards, id ∉ s'.drainingShards → s.Unused id

/-- The runs all of whose steps meet `C`. -/
def Run (cap : Nat) (C : FlowController → FlowController → Prop) : FlowController → FlowController → Prop :=
  Relation.ReflTransGen fun s s' => Step cap s s' ∧ C s s'

/-! ## The invariant -/

/-- The supervisor has seen the shard, or is not at work. -/
def Saw (s : FlowController) (id : Nat) : Prop :=
  match s.supervisor with
  | .idle => True
  | .ranging seen => id ∈ seen
  | .deleting seen _ => id ∈ seen

/-- The call has only shards and workers in view that are in use. -/
structure CallOk (s : FlowController) (p : CallPhase) : Prop where
  shards : ∀ id ∈ p.shards, id < s.nextShardID ∧ ¬ s.Retired id
  candidates : ∀ w ∈ p.candidates, w < s.started ∧ ¬ s.Retired (s.objects w).shard
  running : p ≠ .returned .notRunning

/-- The worker shuts down only when its shard has been swept, and has no item then. -/
structure WorkerOk (s : FlowController) (o : Worker) : Prop where
  made : o.shard < s.nextShardID
  stopping : o.phase.isShuttingDown = true → o.cancelled = true
  cancelled : o.cancelled = true → s.Retired o.shard
  idle : s.Retired o.shard → ¬ Busy o

structure Sound (s : FlowController) : Prop where
  listed : ∀ id ∈ s.activeShards ++ s.drainingShards, id < s.nextShardID
  saw : ∀ id ∈ s.activeShards ++ s.drainingShards, s.Saw id
  named : ∀ id w, s.workers id = some w → w < s.started ∧ (s.objects w).shard = id
  unmade : ∀ w, s.started ≤ w → (s.objects w).phase = .returned
  workers : ∀ w < s.started, s.WorkerOk (s.objects w)
  queues : ∀ id, s.Retired id → s.queues id = []
  calls : ∀ i, s.CallOk (s.calls i)

theorem callOk_plain {p : CallPhase} (hs : p.shards = []) (hc : p.candidates = []) (hr : p ≠ .returned .notRunning) :
    s.CallOk p := by
  refine ⟨fun id hid => ?_, fun w hw => ?_, hr⟩
  · rw [hs] at hid; cases hid
  · rw [hc] at hw; cases hw

theorem init_sound : init.Sound where
  listed := nofun
  saw := nofun
  named := nofun
  unmade := fun _ _ => rfl
  workers := nofun
  queues := fun _ _ => rfl
  calls := fun _ => callOk_plain rfl rfl nofun

/-- Shards that are there stay in use, and workers keep their shards. -/
theorem CallOk.mono {p : CallPhase} (h : s.CallOk p) (hnext : s.nextShardID ≤ s'.nextShardID) (hstart : s.started ≤ s'.started)
    (hret : ∀ id, s'.Retired id → s.Retired id) (hshard : ∀ w < s.started, (s'.objects w).shard = (s.objects w).shard) :
    s'.CallOk p := by
  refine ⟨fun id hid => ?_, fun w hw => ?_, h.running⟩
  · obtain ⟨hlt, hr⟩ := h.shards id hid
    exact ⟨lt_of_lt_of_le hlt hnext, fun hr' => hr (hret id hr')⟩
  · obtain ⟨hlt, hr⟩ := h.candidates w hw
    exact ⟨lt_of_lt_of_le hlt hstart, fun hr' => hr (hshard w hlt ▸ hret _ hr')⟩

theorem WorkerOk.congr {o : Worker} (h : s.WorkerOk o) (hnext : s.nextShardID ≤ s'.nextShardID)
    (hret : ∀ id, s'.Retired id ↔ s.Retired id) : s'.WorkerOk o where
  made := lt_of_lt_of_le h.made hnext
  stopping := h.stopping
  cancelled := fun hc => (hret _).2 (h.cancelled hc)
  idle := fun hr => h.idle ((hret _).1 hr)

namespace Sound

/-! ## Parts -/

variable {p : CallPhase}

variable (h : s.Sound)
include h

theorem of_call (i : Nat) (hp : s.CallOk p) : (s.setCall i p).Sound := by
  have same : ∀ q, s.CallOk q → (s.setCall i p).CallOk q := fun q hq => { hq with }
  refine ⟨h.listed, h.saw, h.named, h.unmade, fun w hw => { h.workers w hw with }, h.queues, fun k => same _ ?_⟩
  simp only [setCall, update_apply]
  split
  · exact hp
  · exact h.calls k

theorem of_finalize (i : Nat) (hp : s.CallOk p) : (s.finalize i p).Sound := by
  unfold finalize
  split
  · exact h.of_call i hp
  · exact h

variable {id : Nat}

theorem of_queue {items : List Nat} (hq : s.Retired id → items = []) : (s.setQueue id items).Sound := by
  refine ⟨h.listed, h.saw, h.named, h.unmade, fun w hw => { h.workers w hw with }, fun k hk => ?_,
    fun k => { h.calls k with }⟩
  simp only [setQueue, update_apply]
  split
  · rename_i hkid
    exact hq (hkid ▸ hk)
  · exact h.queues k hk

variable {w : Nat}

theorem of_worker (hw : w < s.started) {o : Worker} (hshard : o.shard = (s.objects w).shard)
    (ho : s.WorkerOk o) : (s.setWorker w o).Sound := by
  have hsame : ∀ v, ((s.setWorker w o).objects v).shard = (s.objects v).shard := by
    intro v
    simp only [setWorker, update_apply]
    split
    · rename_i hv
      rw [hshard, hv]
    · rfl
  refine ⟨h.listed, h.saw, fun id v hv => ?_, fun v hv => ?_, fun v hv => ?_, h.queues, fun k => ?_⟩
  · exact ⟨(h.named id v hv).1, (hsame v).trans (h.named id v hv).2⟩
  · have hne : v ≠ w := fun he => absurd hw (not_lt.2 (he ▸ hv))
    simp only [setWorker, update_of_ne hne]
    exact h.unmade v hv
  · have hok : s.WorkerOk ((s.setWorker w o).objects v) := by
      simp only [setWorker, update_apply]
      split
      · exact ho
      · exact h.workers v hv
    exact { hok with }
  · exact (h.calls k).mono le_rfl le_rfl (fun _ hr => hr) fun v _ => hsame v

theorem of_supervisor (sup : Supervisor)
    (hs : ∀ id ∈ s.activeShards ++ s.drainingShards, { s with supervisor := sup }.Saw id) :
    { s with supervisor := sup }.Sound where
  listed := h.listed
  saw := hs
  named := h.named
  unmade := h.unmade
  workers := fun w hw => { h.workers w hw with }
  queues := h.queues
  calls := fun k => { h.calls k with }

theorem startWorker (hlt : id < s.nextShardID) (hr : ¬ s.Retired id) : (s.startWorker id).Sound := by
  have hold : ∀ v < s.started, (s.startWorker id).objects v = s.objects v := fun v hv =>
    update_of_ne (Nat.ne_of_lt hv) _ _
  have hnew : (s.startWorker id).objects s.started = ⟨id, false, .running, []⟩ := update_self ..
  refine ⟨h.listed, h.saw, fun k w hw => ?_, fun v hv => ?_, fun v hv => ?_, h.queues, fun k => ?_⟩
  · simp only [FlowController.startWorker, update_apply] at hw
    split at hw
    · rename_i hk
      cases hw
      rw [hnew, hk]
      exact ⟨Nat.lt_succ_self _, rfl⟩
    · obtain ⟨h1, h2⟩ := h.named k w hw
      rw [hold w h1]
      exact ⟨Nat.lt_succ_of_lt h1, h2⟩
  · have hle : s.started + 1 ≤ v := hv
    have hne : v ≠ s.started := by omega
    simp only [FlowController.startWorker, update_of_ne hne]
    exact h.unmade v (by omega)
  · have hcase : v < s.started ∨ v = s.started := Nat.lt_succ_iff_lt_or_eq.1 hv
    rcases hcase with hv | rfl
    · rw [hold v hv]
      exact { h.workers v hv with }
    · rw [hnew]
      exact ⟨hlt, nofun, nofun, fun hr' => absurd hr' hr⟩
  · exact (h.calls k).mono le_rfl (Nat.le_succ _) (fun _ hr => hr) fun v hv => by rw [hold v hv]

/-- Shards are added or marked, and none is swept. -/
theorem of_shards {active draining : List Nat} {next : Nat} (hnext : s.nextShardID ≤ next)
    (hlisted : ∀ id ∈ active ++ draining, id < next) (hsaw : ∀ id ∈ active ++ draining, s.Saw id)
    (hret : ∀ id, (id < next ∧ id ∉ active ∧ id ∉ draining) ↔ s.Retired id) :
    { s with activeShards := active, drainingShards := draining, nextShardID := next }.Sound where
  listed := hlisted
  saw := hsaw
  named := h.named
  unmade := h.unmade
  workers := fun w hw => (h.workers w hw).congr hnext hret
  queues := fun id hr => h.queues id ((hret id).1 hr)
  calls := fun k => (h.calls k).mono hnext le_rfl (fun id hr => (hret id).1 hr) fun _ _ => rfl

theorem scaleUp (n : Nat) (hidle : s.supervisor = .idle) :
    { s with activeShards := s.activeShards ++ List.range' s.nextShardID n, nextShardID := s.nextShardID + n }.Sound := by
  refine h.of_shards (Nat.le_add_right _ _) (fun id hid => ?_) (fun id _ => by simp [Saw, hidle]) fun id => ?_
  · simp only [mem_append, mem_range'_1] at hid
    rcases hid with (hid | hid) | hid
    · exact Nat.lt_add_right _ (h.listed id (mem_append_left _ hid))
    · exact hid.2
    · exact Nat.lt_add_right _ (h.listed id (mem_append_right _ hid))
  · simp only [Retired, mem_append, not_or, mem_range'_1]
    constructor
    · rintro ⟨hlt, ⟨ha, hn⟩, hd⟩
      exact ⟨by omega, ha, hd⟩
    · rintro ⟨hlt, ha, hd⟩
      exact ⟨by omega, ⟨ha, by omega⟩, hd⟩

theorem scaleDown (n : Nat) :
    { s with activeShards := s.activeShards.take n, drainingShards := s.drainingShards ++ s.activeShards.drop n }.Sound := by
  have hmem : ∀ id, id ∈ s.activeShards ↔ id ∈ s.activeShards.take n ∨ id ∈ s.activeShards.drop n := fun id => by
    rw [← mem_append, take_append_drop]
  have hall : ∀ id, id ∈ s.activeShards.take n ++ (s.drainingShards ++ s.activeShards.drop n) →
      id ∈ s.activeShards ++ s.drainingShards := by
    intro id hid
    simp only [mem_append] at hid ⊢
    rw [hmem]
    tauto
  refine h.of_shards le_rfl (fun id hid => h.listed id (hall id hid)) (fun id hid => h.saw id (hall id hid)) fun id => ?_
  simp only [Retired, mem_append, not_or, hmem]
  tauto

/-- A shard that is swept has no items, and nobody turns to it any more. -/
theorem sweepDrainingShards {draining : List Nat} (hsub : ∀ id ∈ draining, id ∈ s.drainingShards)
    (hq : ∀ id ∈ s.drainingShards, id ∉ draining → s.queues id = [])
    (hu : ∀ id ∈ s.drainingShards, id ∉ draining → s.Unused id) : { s with drainingShards := draining }.Sound := by
  have hall : ∀ id ∈ s.activeShards ++ draining, id ∈ s.activeShards ++ s.drainingShards := by
    intro id hid
    simp only [mem_append] at hid ⊢
    exact hid.imp_right (hsub id)
  have hret : ∀ id, { s with drainingShards := draining }.Retired id →
      s.Retired id ∨ id ∈ s.drainingShards ∧ id ∉ draining := by
    rintro id ⟨hlt, ha, hd⟩
    by_cases hold : id ∈ s.drainingShards
    · exact .inr ⟨hold, hd⟩
    · exact .inl ⟨hlt, ha, hold⟩
  refine ⟨fun id hid => h.listed id (hall id hid), fun id hid => h.saw id (hall id hid), h.named, h.unmade,
    fun w hw => ?_, fun id hr => ?_, fun k => ?_⟩
  · have hok := h.workers w hw
    refine ⟨hok.made, hok.stopping, fun hc => ?_, fun hr => ?_⟩
    · obtain ⟨hlt, ha, hd⟩ := hok.cancelled hc
      exact ⟨hlt, ha, fun hmem => hd (hsub _ hmem)⟩
    · rcases hret _ hr with hr | ⟨h1, h2⟩
      · exact hok.idle hr
      · exact (hu _ h1 h2).idle w hw rfl
  · rcases hret id hr with hr | ⟨h1, h2⟩
    · exact h.queues id hr
    · exact hq id h1 h2
  · have hok := h.calls k
    refine ⟨fun id hid => ⟨(hok.shards id hid).1, fun hr => ?_⟩, fun w hw => ⟨(hok.candidates w hw).1, fun hr => ?_⟩,
      hok.running⟩
    · rcases hret id hr with hr | ⟨h1, h2⟩
      · exact (hok.shards id hid).2 hr
      · exact (hu id h1 h2).shards k hid
    · rcases hret _ hr with hr | ⟨h1, h2⟩
      · exact (hok.candidates w hw).2 hr
      · exact (hu _ h1 h2).candidates k w hw rfl

/-! ## Steps -/

variable {ph : WorkerPhase}

theorem started_of_phase (hp : (s.objects w).phase = ph) (hne : ph ≠ .returned) : w < s.started :=
  not_le.1 fun hle => hne (hp.symm.trans (h.unmade w hle))

variable {i : Nat}

theorem calls_of (hp : s.calls i = p) : s.CallOk p := hp ▸ h.calls i

/-- A candidate is at work. -/
theorem candidate_running (hp : s.calls i = p) (hw : w ∈ p.candidates) :
    (s.objects w).cancelled = false ∧ (s.objects w).phase.isShuttingDown = false := by
  obtain ⟨hlt, hr⟩ := (h.calls_of hp).candidates w hw
  have hok := h.workers w hlt
  have hnot : (s.objects w).cancelled ≠ true := fun hc => hr (hok.cancelled hc)
  exact ⟨by simpa using hnot, by simpa using fun hs => hnot (hok.stopping hs)⟩

omit h

theorem mem_candidates_of_offers (h : p.offers = some w) : w ∈ p.candidates := by
  cases p <;> simp_all [CallPhase.offers, CallPhase.candidates]

variable (h : s.Sound)
include h

/-- A worker that shuts down has nothing to finalize. -/
theorem nothing_left (hp : (s.objects w).phase = ph) (hne : ph ≠ .returned) (hs : ph.isShuttingDown = true) :
    (s.objects w).enqueueChan = [] ∧ s.queues (s.objects w).shard = [] := by
  have hok := h.workers w (h.started_of_phase hp hne)
  have hr := hok.cancelled (hok.stopping (hp ▸ hs))
  exact ⟨not_not.1 fun hne => hok.idle hr (.inl hne), h.queues _ hr⟩

/-- The worker goes on with another phase and channel. -/
theorem worker_moves (hlt : w < s.started) (phase : WorkerPhase) (chan : List Nat)
    (hs : phase.isShuttingDown = true → (s.objects w).cancelled = true)
    (hi : s.Retired (s.objects w).shard → chan = [] ∧ phase.hand = none) :
    (s.setWorker w { s.objects w with phase := phase, enqueueChan := chan }).Sound := by
  have hok := h.workers w hlt
  refine h.of_worker hlt rfl ⟨hok.made, hs, hok.cancelled, fun hr hbusy => ?_⟩
  obtain ⟨hc, hh⟩ := hi hr
  rcases hbusy with hne | hne
  · exact hne hc
  · exact hne hh

theorem idle_of_retired (hlt : w < s.started) (hr : s.Retired (s.objects w).shard) :
    (s.objects w).enqueueChan = [] ∧ (s.objects w).phase.hand = none := by
  have hidle := (h.workers w hlt).idle hr
  exact ⟨not_not.1 fun hne => hidle (.inl hne), not_not.1 fun hne => hidle (.inr hne)⟩

/-- The worker has an item in hand: its shard has not been swept. -/
theorem not_retired_of_hand (hp : (s.objects w).phase = ph) (hh : ph.hand = some i) :
    w < s.started ∧ ¬ s.Retired (s.objects w).shard := by
  have hlt : w < s.started := h.started_of_phase hp fun hret => by rw [hret] at hh; cases hh
  refine ⟨hlt, fun hr => ?_⟩
  rw [← hp, (h.idle_of_retired hlt hr).2] at hh
  cases hh

/-- The worker lets the item in its hand go. -/
theorem lets_go (hp : (s.objects w).phase = ph) (hh : ph.hand = some i) :
    (s.setWorker w { s.objects w with phase := .running }).Sound := by
  obtain ⟨hlt, hnot⟩ := h.not_retired_of_hand hp hh
  exact h.worker_moves hlt _ _ nofun fun hr => absurd hr hnot

theorem removes (id i : Nat) : (s.setQueue id ((s.queues id).erase i)).Sound :=
  h.of_queue fun hr => by rw [h.queues id hr]; rfl

theorem getWorker {shards candidates : List Nat} (hasQueue : Bool)
    (hc : s.CallOk (.selecting (id :: shards) candidates)) (hw : w < s.started) (hs : (s.objects w).shard = id) :
    (s.setCall i (.selecting shards (if hasQueue then candidates ++ [w] else candidates))).Sound := by
  refine h.of_call i ⟨fun k hk => hc.shards k (mem_cons_of_mem _ hk), fun v hv => ?_, nofun⟩
  have hcase : v ∈ candidates ∨ v = w := by
    cases hasQueue with
    | false => exact .inl hv
    | true => simpa [CallPhase.candidates] using hv
  rcases hcase with hv | rfl
  · exact hc.candidates v hv
  · rw [hs]
    exact ⟨hw, (hc.shards id mem_cons_self).2⟩

theorem cancel {seen : List Nat} (hsup : s.supervisor = .ranging seen) (hw : s.workers id = some w)
    (hid : id ∉ seen) :
    { s.setWorker w { s.objects w with cancelled := true } with supervisor := .deleting seen id }.Sound := by
  obtain ⟨hlt, hshard⟩ := h.named id w hw
  have hok := h.workers w hlt
  have hsaw : ∀ k ∈ s.activeShards ++ s.drainingShards, k ∈ seen := by
    intro k hk
    have hs := h.saw k hk
    rwa [Saw, hsup] at hs
  -- the supervisor has seen every shard that is left
  have hret : s.Retired (s.objects w).shard := by
    rw [hshard]
    refine ⟨hshard ▸ hok.made, fun ha => hid (hsaw id (mem_append_left _ ha)), fun hd => hid (hsaw id ?_)⟩
    exact mem_append_right _ hd
  have hnew := h.of_worker (o := { s.objects w with cancelled := true }) hlt rfl
    ⟨hok.made, fun _ => rfl, fun _ => hret, hok.idle⟩
  exact hnew.of_supervisor _ hsaw

theorem delete {seen : List Nat} (hsup : s.supervisor = .deleting seen id) :
    { s with workers := update s.workers id none, supervisor := .ranging seen }.Sound := by
  have hsaw : ∀ k ∈ s.activeShards ++ s.drainingShards, k ∈ seen := by
    intro k hk
    have hs := h.saw k hk
    rwa [Saw, hsup] at hs
  have hnamed : ∀ k w, update s.workers id none k = some w → w < s.started ∧ (s.objects w).shard = k := by
    intro k w hw
    rw [update_apply] at hw
    split at hw
    · cases hw
    · exact h.named k w hw
  have hr := h.of_supervisor (.ranging seen) hsaw
  exact ⟨hr.listed, hr.saw, hnamed, hr.unmade, fun w hw => { hr.workers w hw with }, hr.queues, fun k => { hr.calls k with }⟩

theorem step (hst : Step cap s s') (hc : s.Calm s') : s'.Sound := by
  cases hst with
  | scaleUp n hn => exact h.scaleUp n (hc.scaleUp (Nat.lt_add_of_pos_right hn))
  | scaleDown n hn => exact h.scaleDown n
  | sweepDrainingShards =>
    refine h.sweepDrainingShards (fun id hid => (mem_filter.1 hid).1) (fun id hid hnot => ?_) hc.sweep
    by_contra hne
    exact hnot (mem_filter.2 ⟨hid, by simpa using hne⟩)
  | shardStats hsup => exact h.of_supervisor _ fun id hid => hid
  | cancel seen id w hsup hw hid => exact h.cancel hsup hw hid
  | delete seen id hsup => exact h.delete hsup
  | reconciled seen hsup => exact h.of_supervisor _ fun _ _ => trivial
  | activeShards i hp =>
    refine h.of_call i ⟨fun id hid => ?_, nofun, nofun⟩
    exact ⟨h.listed id (mem_append_left _ hid), fun hr => hr.2.1 hid⟩
  | getWorker i id w shards candidates hasQueue hp hw =>
    obtain ⟨hlt, hshard⟩ := h.named id w hw
    exact h.getWorker hasQueue (h.calls_of hp) hlt hshard
  | startWorker i id shards candidates hasQueue hp hw =>
    obtain ⟨hlt, hr⟩ := (h.calls_of hp).shards id mem_cons_self
    have hnew := h.startWorker hlt hr
    refine hnew.getWorker hasQueue (hnew.calls_of (p := .selecting (id :: shards) candidates) hp) (Nat.lt_succ_self _) ?_
    simp [FlowController.startWorker]
  | noShards i hp | blockExpires i w hp | expire i hp => exact h.of_call i (callOk_plain rfl rfl nofun)
  | rank i candidates ranked hp hne hr =>
    refine h.of_call i ⟨nofun, fun w hw => (h.calls_of hp).candidates w ?_, nofun⟩
    rcases mem_append.1 hw with hw | hw
    · exact hr.mem_iff.1 hw
    · exact hr.mem_iff.1 hw
  | submitFails i w todo candidates hp hf | refused i w todo candidates hp =>
    exact h.of_call i ⟨nofun, fun v hv => (h.calls_of hp).candidates v (mem_cons_of_mem _ hv), nofun⟩
  | submit i w todo candidates hp hf => exact h.of_call i ⟨nofun, (h.calls_of hp).candidates, nofun⟩
  | blockFails i w candidates hp hf =>
    have hrun := (h.candidate_running hp mem_cons_self).2
    rw [hf] at hrun
    cases hrun
  | block i w candidates hp hf =>
    refine h.of_call i ⟨nofun, fun v hv => (h.calls_of hp).candidates v ?_, nofun⟩
    rw [mem_singleton.1 hv]
    exact mem_cons_self
  | blockCancelled i w hp hcan =>
    have hrun := (h.candidate_running hp mem_cons_self).1
    rw [hcan] at hrun
    cases hrun
  | send i w hp hlen =>
    have hcand := mem_candidates_of_offers hp
    obtain ⟨hlt, hr⟩ := (h.calls i).candidates w hcand
    have hmoved := h.worker_moves hlt (s.objects w).phase ((s.objects w).enqueueChan ++ [i])
      (h.workers w hlt).stopping fun hret => absurd hret hr
    exact hmoved.of_call i (callOk_plain rfl rfl nofun)
  | handOver i w hp hchan hphase =>
    have hcand := mem_candidates_of_offers hp
    obtain ⟨hlt, hr⟩ := (h.calls i).candidates w hcand
    have hmoved := h.worker_moves hlt (.enqueueing i) (s.objects w).enqueueChan nofun fun hret => absurd hret hr
    exact hmoved.of_call i (callOk_plain rfl rfl nofun)
  | handOverDraining i w hp hchan hphase =>
    have hrun := (h.candidate_running rfl (mem_candidates_of_offers hp)).2
    rw [hphase] at hrun
    cases hrun
  | take w i rest hp hchan =>
    have hlt := h.started_of_phase hp nofun
    refine h.worker_moves hlt _ _ nofun fun hret => ?_
    have hempty := (h.idle_of_retired hlt hret).1
    rw [hchan] at hempty
    cases hempty
  | discard w i hp hf => exact h.lets_go hp rfl
  | reject w i hp | refuse w i hp hd =>
    exact (h.lets_go hp rfl).of_finalize i (callOk_plain rfl rfl nofun)
  | check w i hp hd =>
    obtain ⟨hlt, hnot⟩ := h.not_retired_of_hand hp rfl
    exact h.worker_moves hlt _ _ nofun fun hret => absurd hret hnot
  | add w i hp =>
    exact (h.lets_go hp rfl).of_queue fun hret => absurd hret (h.not_retired_of_hand hp rfl).2
  | dispatch w i hp hi => exact (h.removes _ i).of_finalize i (callOk_plain rfl rfl nofun)
  | sweepFinalizedItems w i hp hi hf => exact h.removes _ i
  | shutdown w hp hcan =>
    have hlt := h.started_of_phase hp nofun
    exact h.worker_moves hlt _ _ (fun _ => hcan) fun hret => ⟨(h.idle_of_retired hlt hret).1, rfl⟩
  | drain w i rest hp hchan =>
    have hempty := (h.nothing_left hp nofun rfl).1
    rw [hchan] at hempty
    cases hempty
  | drained w hp hchan =>
    have hlt := h.started_of_phase hp nofun
    refine h.worker_moves hlt _ _ (fun _ => (h.workers w hlt).stopping (by rw [hp]; rfl)) fun _ => ⟨hchan, rfl⟩
  | evict w i hp hi =>
    have hempty := (h.nothing_left hp nofun rfl).2
    rw [hempty] at hi
    cases hi
  | evicted w hp hq =>
    have hlt := h.started_of_phase hp nofun
    exact h.worker_moves hlt _ _ (fun _ => (h.workers w hlt).stopping (by rw [hp]; rfl)) fun hret =>
      ⟨(h.idle_of_retired hlt hret).1, rfl⟩

theorem run (hrun : Run cap Calm s s') : s'.Sound := by
  induction hrun with
  | refl => exact h
  | tail _ hlast ih => exact ih.step hlast.1 hlast.2

end Sound

/-- In every run in which no shard is added while the supervisor goes through the workers, and none is swept that a call
has in view or whose worker has an item outside the queues: no call ends with the error of a controller that is not
running, and a worker that has been stopped belongs to a shard that is not active and has no item. -/
theorem stopped_workers_idle (cap : Nat) (s : FlowController) (hrun : Run cap Calm init s) :
    (∀ i, s.calls i ≠ .returned .notRunning) ∧
      ∀ w < s.started, (s.objects w).cancelled = true → (s.objects w).shard ∉ s.activeShards ∧
        ¬ Busy (s.objects w) ∧ s.queues (s.objects w).shard = [] := by
  have h := init_sound.run hrun
  refine ⟨fun i => (h.calls i).running, fun w hw hc => ?_⟩
  have hret := (h.workers w hw).cancelled hc
  exact ⟨hret.2.1, (h.workers w hw).idle hret, h.queues _ hret⟩

theorem Calm.of_same (hn : s'.nextShardID = s.nextShardID) (hd : ∀ id ∈ s.drainingShards, id ∈ s'.drainingShards) :
    s.Calm s' :=
  ⟨fun hlt => absurd hlt (by omega), fun id hid hnot => absurd (hd id hid) hnot⟩

/-- A call is dispatched on the second shard, which is then scaled down and swept; its worker is stopped. -/
theorem stopped_workers_idle_second : ∃ s, Run 1 Calm init s ∧ s.calls 0 = .returned .dispatched ∧ 1 < s.started ∧
    (s.objects 1).cancelled = true ∧ (s.objects 1).shard ∉ s.activeShards ∧ ¬ Busy (s.objects 1) := by
  have same : ∀ {s s' : FlowController}, Run 1 Calm init s → Step 1 s s' → s'.nextShardID = s.nextShardID →
      (∀ id ∈ s.drainingShards, id ∈ s'.drainingShards) → Run 1 Calm init s' :=
    fun hrun hst hn hd => hrun.tail ⟨hst, .of_same hn hd⟩
  have scaled : Run 1 Calm init _ := .single ⟨.scaleUp 2 (by decide), fun _ => rfl, nofun⟩
  have looked := same scaled (.activeShards 0 rfl) rfl nofun
  have first := same looked (.startWorker 0 0 [1] [] true rfl rfl) rfl nofun
  have second := same first (.startWorker 0 1 [] [0] true rfl rfl) rfl nofun
  have ranked := same second (.rank 0 [0, 1] [1, 0] rfl (by decide) (by decide)) rfl nofun
  have submitted := same ranked (.submit 0 1 [0] [1, 0] rfl rfl) rfl nofun
  have sent := same submitted (.send 0 1 rfl (by decide)) rfl nofun
  have taken := same sent (.take 1 0 [] rfl rfl) rfl nofun
  have checked := same taken (.check 1 0 rfl (by decide)) rfl nofun
  have added := same checked (.add 1 0 rfl) rfl nofun
  have dispatched := same added (.dispatch 1 0 rfl (by decide)) rfl nofun
  have marked := same dispatched (.scaleDown 1 (by decide)) rfl nofun
  have swept := marked.tail ⟨.sweepDrainingShards, fun hlt => absurd hlt (by decide), fun id hid _ => by
    cases mem_singleton.1 hid
    refine ⟨fun i hi => ?_, fun i w hw => ?_, fun w hw hs hb => ?_⟩
    · rcases i with _ | i <;> cases hi
    · rcases i with _ | i <;> cases hw
    · rcases w with _ | _ | w
      · cases hs
      · exact hb.elim (fun hne => hne rfl) fun hne => hne rfl
      · exact absurd hw (Nat.not_lt.2 (Nat.le_add_left 2 w))⟩
  have seen := same swept (.shardStats rfl) rfl nofun
  have cancelled := same seen (.cancel [0] 1 1 rfl rfl (by decide)) rfl nofun
  have stopped := (stopped_workers_idle 1 _ cancelled).2 1 (by decide) rfl
  exact ⟨_, cancelled, rfl, by decide, rfl, stopped.1, stopped.2.1⟩

/-- A shard is added after the supervisor has looked: its worker is stopped while the shard is active, and a call that
has been accepted by it ends as if the controller were not running. So does a call whose item is in the channel of a
worker when its shard is scaled down, swept as empty, and the worker stopped. -/
theorem not_running_while_running : (∃ s, Run 1 (fun _ _ => True) init s ∧ s.calls 0 = .returned .notRunning ∧
      1 < s.started ∧ (s.objects 1).cancelled = true ∧ (s.objects 1).shard ∈ s.activeShards) ∧
    ∃ s s', Run 1 (fun _ _ => True) init s ∧ Run 1 (fun _ _ => True) s s' ∧ 1 < s.started ∧
      (s.objects 1).cancelled = true ∧ Busy (s.objects 1) ∧ s'.calls 0 = .returned .notRunning := by
  constructor
  · have scaled : Run 1 (fun _ _ => True) init _ := .single ⟨.scaleUp 1 (by decide), trivial⟩
    have seen := scaled.tail ⟨.shardStats rfl, trivial⟩
    have added := seen.tail ⟨.scaleUp 1 (by decide), trivial⟩
    have looked := added.tail ⟨.activeShards 0 rfl, trivial⟩
    have first := looked.tail ⟨.startWorker 0 0 [1] [] true rfl rfl, trivial⟩
    have second := first.tail ⟨.startWorker 0 1 [] [0] true rfl rfl, trivial⟩
    have ranked := second.tail ⟨.rank 0 [0, 1] [1, 0] rfl (by decide) (by decide), trivial⟩
    have submitted := ranked.tail ⟨.submit 0 1 [0] [1, 0] rfl rfl, trivial⟩
    have sent := submitted.tail ⟨.send 0 1 rfl (by decide), trivial⟩
    have cancelled := sent.tail ⟨.cancel [0] 1 1 rfl rfl (by decide), trivial⟩
    have stopped := cancelled.tail ⟨.shutdown 1 rfl rfl, trivial⟩
    have drained := stopped.tail ⟨.drain 1 0 [] rfl rfl, trivial⟩
    exact ⟨_, drained, rfl, by decide, rfl, by decide⟩
  · have scaled : Run 1 (fun _ _ => True) init _ := .single ⟨.scaleUp 2 (by decide), trivial⟩
    have looked := scaled.tail ⟨.activeShards 0 rfl, trivial⟩
    have first := looked.tail ⟨.startWorker 0 0 [1] [] true rfl rfl, trivial⟩
    have second := first.tail ⟨.startWorker 0 1 [] [0] true rfl rfl, trivial⟩
    have ranked := second.tail ⟨.rank 0 [0, 1] [1, 0] rfl (by decide) (by decide), trivial⟩
    have submitted := ranked.tail ⟨.submit 0 1 [0] [1, 0] rfl rfl, trivial⟩
    have sent := submitted.tail ⟨.send 0 1 rfl (by decide), trivial⟩
    have marked := sent.tail ⟨.scaleDown 1 (by decide), trivial⟩
    have swept := marked.tail ⟨.sweepDrainingShards, trivial⟩
    have seen := swept.tail ⟨.shardStats rfl, trivial⟩
    have cancelled := seen.tail ⟨.cancel [0] 1 1 rfl rfl (by decide), trivial⟩
    refine ⟨_, _, cancelled, .tail (.single ⟨.shutdown 1 rfl rfl, trivial⟩) ⟨.drain 1 0 [] rfl rfl, trivial⟩, by decide, rfl,
      .inl nofun, rfl⟩

end FlowController

end InferenceGateway.Controller
