import InferenceGateway.Processor.Bounds
import InferenceGateway.Processor.Enqueue
/-!
# Runs within the limits

Every step of the traffic is a step of the view, or none. So the invariant of the
view holds in every run, and with it the bound on what is queued.
-/

namespace InferenceGateway.Processor

open Lib Queue Registry List Function RegistryShard Option Admission Traffic

namespace Traffic

variable {α : Type} [QueueItemAccessor α] [DecidableEq α] {s s' : Traffic α}

/-! ## Every step is a step of the view -/

theorem arrived_step (h : Step s s') : ∃ new, s'.arrived = new ++ s.arrived := by
  cases h with
  | receive key x hw hx => exact ⟨[x], rfl⟩
  | _ => exact ⟨[], rfl⟩

theorem Fits.of_step (hfit : Fits (loadOf s'.arrived)) (h : Step s s') : Fits (loadOf s.arrived) := by
  obtain ⟨new, hnew⟩ := arrived_step h
  refine hfit.mono ?_
  have happ : loadOf (new ++ s.arrived) = loadOf new + loadOf s.arrived := by
    simp only [loadOf, map_append, sum_append]
  rw [hnew, happ]
  exact le_add_of_nonneg_left (loadOf_nonneg new)

omit [DecidableEq α] in
theorem offered_lt (hfit : Fits (loadOf s.arrived)) (c : Counter) : s.view.offered c < 2 ^ 63 := by
  cases c with
  | totalByteSize | byteSize p => exact hfit.2
  | totalLen | len p => exact hfit.1

section View
variable {limit : Counter → Int}

omit [DecidableEq α] in
theorem amount_lt (hinv : Admission.Inv limit s.view) (hfit : Fits (loadOf s.arrived)) (c : Counter) :
    s.shard.amount c < 2 ^ 63 := by
  have h1 := hinv.pending c
  have h2 := hinv.released_nonneg c
  have h3 := hinv.weight_nonneg c
  have h4 := offered_lt hfit c
  change s.view.stored c < 2 ^ 63
  omega

variable {c : Counter} {d : Int64}

omit [DecidableEq α] in
/-- One addition to a counter, in the figures. -/
theorem counter_write (hfit : Fits (loadOf s.arrived)) (hhas : s.shard.Has c)
    (hrange : -s.view.offered c ≤ s.view.counter c + d.toInt ∧
      s.view.counter c + d.toInt ≤ s.view.offered c) : (fun c' => ((s.shard.addCounter c d).counter c').toInt) =
      update s.view.counter c (s.view.counter c + d.toInt) := by
  funext c'
  rw [counter_addCounter hhas]
  have hlt := offered_lt hfit c
  by_cases hc : c' = c
  · subst hc
    rw [if_pos rfl, update_self]
    refine toInt_add_of_range ?_ ?_
    · exact le_trans (by omega) hrange.1
    · exact lt_of_le_of_lt hrange.2 hlt
  · rw [if_neg hc, update_of_ne hc]
    rfl

omit [DecidableEq α] in
theorem view_work (s : Traffic α) (w : Work α) (ha : w.adds = s.work.adds) (hr : w.releases = s.work.releases) :
    view { s with work := w } = { s.view with phase := w.phase } := by
  simp only [view, releases, ha, hr]

variable {key : FlowKey} {x : α}

omit [DecidableEq α] in
theorem view_read (hinv : Admission.Inv limit s.view) {seen : Counter → Option UInt64} {rest : List Counter}
    (hw : s.work = .reading key x seen (c :: rest)) :
    view { s with work := .reading key x (update seen c (some (s.shard.counter c).toUInt64)) rest } =
      { s.view with
        phase := .reading ((load x).at key.priority)
          (update (fun c => (seen c).map fun v => (v.toNat : Int)) c (some (s.view.counter c))) } := by
  have hphase : s.view.phase ≠ .counting := by simp only [view, hw]; nofun
  have hnonneg : 0 ≤ s.view.counter c := by
    rw [hinv.counter_eq hphase]
    exact add_nonneg (hinv.stored_nonneg c) (hinv.released_nonneg c)
  have hseen : (fun c' => (update seen c (some (s.shard.counter c).toUInt64) c').map fun v => (v.toNat : Int)) =
      update (fun c => (seen c).map fun v => (v.toNat : Int)) c (some (s.view.counter c)) := by
    funext c'
    by_cases hc : c' = c
    · subst hc
      rw [update_self, update_self, map_some, toNat_toUInt64 hnonneg]
      rfl
    · rw [update_of_ne hc, update_of_ne hc]
  rw [s.view_work (.reading key x _ rest) (by rw [hw]; rfl) (by rw [hw]; rfl), Work.phase, hseen]

omit [DecidableEq α] in
/-- What `hasCapacity` has found is what the view asks for. -/
theorem admits {limit : Counter → UInt64} (hlim : ∀ c, s.shard.limit c = limit c) (hflow : s.Flowing)
    (hinv : Admission.Inv (fun c => ((limit c).toNat : Int)) s.view) (hfit : Fits (loadOf s.arrived))
    {seen : Counter → Option UInt64} (hw : s.work = .reading key x seen [])
    (hcap : hasCapacity (s.shard.stats fun c => (seen c).getD 0) key.priority (QueueItemAccessor.byteSize x) = true)
    (c : Counter) (hl : ((limit c).toNat : Int) ≠ 0) (hx : (load x).at key.priority c ≠ 0) :
    ∃ v, (seen c).map (fun v => (v.toNat : Int)) = some v ∧ v + (load x).at key.priority c ≤ (limit c).toNat := by
  obtain ⟨hp, hle⟩ := hasCapacity_limit hcap
  obtain ⟨hcon, hunit⟩ := load_at_ne_zero hx
  have hhas : s.shard.Has c := by
    cases c with
    | totalByteSize | totalLen => trivial
    | byteSize q | len q => cases hcon; exact hp
  have hread := hflow.reads c hhas
  rw [hw] at hread
  obtain ⟨v, hv⟩ := isSome_iff_exists.1 (hread.resolve_left not_mem_nil)
  refine ⟨v.toNat, by rw [hv]; rfl, ?_⟩
  have hbound := (hinv.seen _ _ (by simp only [view, hw]; rfl) c v.toNat (by simp only [hv, map_some])).2
  have hlt := offered_lt hfit c
  have hne : s.shard.limit c ≠ 0 := by
    rw [hlim]
    intro h0
    rw [h0] at hl
    exact hl rfl
  have hchk := hle c hcon hne
  simp only [hv, getD_some] at hchk
  rw [hunit] at hbound ⊢
  have := add_le_of_not_lt hchk (by omega)
  rw [hlim] at this
  exact_mod_cast this

omit [DecidableEq α] in
/-- A removal, by the processor or a sweep worker, with what it sends up. -/
theorem view_take {mq mq' : ManagedQueue α} {d : Option StatsDelta} (hinv : Admission.Inv limit s.view)
    (hfit : Fits (loadOf s.arrived)) (hf : s.shard.Refills s'.shard key mq mq') (hr : mq.Removes mq' d)
    (hrel : ∀ c, owed s'.releases c =
      (shown (d.getD ⟨0, 0⟩).len (d.getD ⟨0, 0⟩).byteSize).at key.priority c + owed s.releases c)
    (ha : s'.work.adds = s.work.adds) (ho : s'.arrived = s.arrived) (hp : s'.work.phase = s.work.phase) :
    Admission.Step limit s.view s'.view := by
  obtain ⟨r, hr0, hle, hamount, hd⟩ := removed_load hf hr (amount_lt hinv hfit)
  have hview : s'.view = { s.view with
      stored := s.view.stored - r.at key.priority, released := s.view.released + r.at key.priority } := by
    refine Admission.State.ext hamount ?_ ?_ (by simp only [view, ha]) (by simp only [view, ho]) hp
    · simp only [view, hf.counter]
    · funext c
      simp only [view, Pi.add_apply, hrel, hd, Load.neg_at, Pi.neg_apply]
      ring
  rw [hview]
  exact .take _ (Load.at_nonneg hr0 _) hle

omit [DecidableEq α] in
/-- One addition of a release. -/
theorem view_lower (hinv : Admission.Inv limit s.view) (hfit : Fits (loadOf s.arrived))
    (hmem : d.toInt ≤ 0 ∧ s.shard.Has c) (others : Propagation) (hothers : ∀ e ∈ others, e.2.toInt ≤ 0)
    (hs : s'.shard = s.shard.addCounter c d) (hrel : ∀ c', owed s.releases c' = owed ((c, d) :: others) c')
    (hrel' : ∀ c', owed s'.releases c' = owed others c') (ha : s'.work.adds = s.work.adds) (ho : s'.arrived = s.arrived)
    (hp : s'.work.phase = s.work.phase) : Admission.Step limit s.view s'.view := by
  have hreleased : s.view.released c = -d.toInt - owed others c := by
    simp only [view, hrel, owed_cons, if_true]; ring
  have hothers' := owed_nonpos hothers c
  have hn : -d.toInt ≤ s.view.released c := by omega
  have hafter := (hinv.lower (neg_nonneg.2 hmem.1) hn).counter_range c
  simp only [update_self, sub_neg_eq_add] at hafter
  have hcounter := counter_write hfit hmem.2 hafter
  have hrest : s'.view.released = update s.view.released c (s.view.released c - -d.toInt) := by
    funext c'
    by_cases hc : c' = c
    · subst hc
      rw [update_self, hreleased]
      simp only [view, hrel']
      ring
    · rw [update_of_ne hc]
      simp only [view, hrel, hrel', owed_cons, if_neg (Ne.symm hc), zero_add]
  have hview : s'.view = { s.view with
      counter := update s.view.counter c (s.view.counter c - -d.toInt)
      released := update s.view.released c (s.view.released c - -d.toInt) } := by
    refine Admission.State.ext ?_ ?_ hrest (by simp only [view, ha]) (by simp only [view, ho]) hp
    · simp only [view, hs, (s.shard.recounts_addCounter c d).amount]
    · rw [sub_neg_eq_add, ← hcounter]
      simp only [view, hs]
  rw [hview]
  exact .lower c _ (neg_nonneg.2 hmem.1) hn

omit [DecidableEq α] in
/-- One addition of an `Add`. -/
theorem view_raise (hinv : Admission.Inv limit s.view) (hfit : Fits (loadOf s.arrived)) (hflow : s.Flowing)
    {rest : Propagation} (hw : s.work = .adding ((c, d) :: rest)) :
    Admission.Step limit s.view (view { s with shard := s.shard.addCounter c d, work := .adding rest }) := by
  have hadds : ∀ e ∈ (c, d) :: rest, 0 ≤ e.2.toInt ∧ s.shard.Has e.1 := fun e he => hflow.adds e (by rw [hw]; exact he)
  have hd := hadds (c, d) mem_cons_self
  have howed : s.view.owed = owed ((c, d) :: rest) := by simp only [view, hw, Work.adds]
  have hphase : s.view.phase = .counting := by simp only [view, hw, Work.phase]
  have hrest := owed_nonneg (fun e he => (hadds e (mem_cons_of_mem _ he)).1) c
  have hn : d.toInt ≤ s.view.owed c := by
    rw [howed, owed_cons, if_pos rfl]
    exact le_add_of_nonneg_right hrest
  have hafter := (hinv.raise hphase hd.1 hn).counter_range c
  simp only [update_self] at hafter
  have howed' : owed rest = update s.view.owed c (s.view.owed c - d.toInt) := by
    funext c'
    by_cases hc : c' = c
    · subst hc
      rw [update_self, howed, owed_cons, if_pos rfl]
      ring
    · rw [update_of_ne hc, howed, owed_cons, if_neg (Ne.symm hc), zero_add]
  have hview : view { s with shard := s.shard.addCounter c d, work := .adding rest } = { s.view with
      counter := update s.view.counter c (s.view.counter c + d.toInt)
      owed := update s.view.owed c (s.view.owed c - d.toInt) } := by
    refine Admission.State.ext (s.shard.recounts_addCounter c d).amount (counter_write hfit hd.2 hafter) ?_ howed' rfl ?_
    · simp only [view, releases, hw, Work.releases]
    · exact hphase.symm
  rw [hview]
  exact .raise c d.toInt hphase hd.1 hn

theorem view_add (hs : s.Stocked) (hfit : Fits (loadOf s.arrived)) {mq mq' : ManagedQueue α} {d : StatsDelta}
    (hw : s.work = .admitted key x) (hq : s.shard.managedQueue key = some mq)
    (ha : mq.add s.shard.isDraining x = .ok (mq', some d)) : Admission.Step limit s.view (view { s with
      shard := s.shard.setQueue key mq', work := .adding (statsWrites key.priority d) }) := by
  obtain ⟨hd, hp⟩ := hs.added_delta hw hq ha hfit
  have hf := refills_setQueue hq mq'
  have hload : loadOf mq'.items - loadOf mq.items = load x := by
    rw [loadOf_perm hp, loadOf_cons, add_sub_cancel_right]
  have hview : view { s with
      shard := s.shard.setQueue key mq', work := .adding (statsWrites key.priority d) } = { s.view with
      stored := s.view.stored + (load x).at key.priority, owed := (load x).at key.priority, phase := .counting } := by
    refine Admission.State.ext (by rw [← hload]; exact hf.amount) ?_ ?_ ?_ rfl rfl
    · simp only [view, hf.counter]
    · simp only [view, releases, hw, Work.releases]
    · exact (owed_statsWrites key.priority d).trans (congrArg (Load.at · key.priority) hd)
  rw [hview]
  exact .add _ (by simp only [view, hw]; rfl)

/-- The steps of the traffic are steps of the view, or change nothing there. -/
theorem view_step {limit : Counter → UInt64} (hlim : ∀ c, s.shard.limit c = limit c) (hs : s.Stocked) (hflow : s.Flowing)
    (hinv : Admission.Inv (fun c => ((limit c).toNat : Int)) s.view) (hst : Step s s') (hfit : Fits (loadOf s.arrived)) :
    Admission.Step (fun c => ((limit c).toNat : Int)) s.view s'.view ∨ s'.view = s.view := by
  cases hst with
  | synchronizeFlow key policy name q shard hq hsync =>
    obtain ⟨-, -, hcounter, hamount, -⟩ :=
      recounts_synchronizeFlow (SafeQueue.newQueueFromName_ok hq) hsync
    exact .inr (Admission.State.ext hamount (by simp only [view, hcounter]) rfl rfl rfl rfl)
  | receive key x hw hx =>
    have hview : view { s with work := .looking key x, arrived := x :: s.arrived } = { s.view with
        offered := s.view.offered + (load x).figure, phase := .reading ((load x).at key.priority) fun _ => none } := by
      refine Admission.State.ext rfl rfl ?_ ?_ ?_ rfl
      · simp only [view, releases, hw, Work.releases]
      · simp only [view, hw, Work.adds]
      · funext c
        cases c <;> simp [view, Load.figure, add_comm]
    rw [hview]
    exact .inl (.offer _ _ (by simp only [view, hw]; rfl) (Load.at_nonneg (load_nonneg x) _)
      (Load.at_le_figure (load_nonneg x) _))
  | discard key x hw | reject key x seen hw hc =>
    rw [s.view_work .idle (by rw [hw]; rfl) (by rw [hw]; rfl)]
    exact .inl (.refuse _ _ (by simp only [view, hw]; rfl))
  | check key x hw hq =>
    rw [s.view_work (.reading key x _ _) (by rw [hw]; rfl) (by rw [hw]; rfl)]
    exact .inr (Admission.State.ext rfl rfl rfl rfl rfl (by simp only [view, hw]; rfl))
  | read key x seen c rest hw =>
    rw [view_read hinv hw]
    exact .inl (.read c _ _ (by simp only [view, hw]; rfl))
  | approve key x seen hw hc =>
    rw [s.view_work (.admitted key x) (by rw [hw]; rfl) (by rw [hw]; rfl)]
    exact .inl (.approve _ _ (by simp only [view, hw]; rfl) (admits hlim hflow hinv hfit hw hc))
  | addRefused key x mq mq' hw hq ha =>
    rw [s.view_work .idle (by rw [hw]; rfl) (by rw [hw]; rfl)]
    exact .inl (.withdraw _ (by simp only [view, hw]; rfl))
  | add key x mq mq' d hw hq ha => exact .inl (view_add hs hfit hw hq ha)
  | addWrites c d rest hw => exact .inl (view_raise hinv hfit hflow hw)
  | added hw =>
    rw [s.view_work .idle (by rw [hw]; rfl) (by rw [hw]; rfl)]
    exact .inl (.counted (by simp only [view, hw]; rfl) (by simp only [view, hw]; rfl))
  | dispatch key handle mq mq' d hw hq hr =>
    refine .inl (view_take hinv hfit (refills_setQueue hq mq')
      (ManagedQueue.remove_removes (hs.queues key mq hq) hr) (fun c => ?_) ?_ rfl ?_)
    · simp only [releases, hw, Work.releases, owed_append, owed_statsWrites, owed_nil, zero_add]
      rfl
    · rw [hw]; rfl
    · rw [hw]; rfl
  | dispatchWrites c d rest hw =>
    have hrel : s.releases = (c, d) :: (rest ++ s.sweeps.flatten) := by rw [releases, hw]; rfl
    have hneg : ∀ e ∈ (c, d) :: (rest ++ s.sweeps.flatten), e.2.toInt ≤ 0 ∧ s.shard.Has e.1 := fun e he =>
      hflow.releases e (by rw [hrel]; exact he)
    refine .inl (view_lower hinv hfit (hneg _ mem_cons_self) (rest ++ s.sweeps.flatten)
      (fun e he => (hneg e (mem_cons_of_mem _ he)).1) rfl (fun c' => by rw [hrel]) (fun c' => rfl) ?_ rfl ?_)
    · rw [hw]; rfl
    · rw [hw]; rfl
  | dispatched hw =>
    rw [s.view_work .idle (by rw [hw]; rfl) (by rw [hw]; rfl)]
    exact .inr (Admission.State.ext rfl rfl rfl rfl rfl (by simp only [view, hw]; rfl))
  | sweep key predicate mq mq' d hq hc =>
    refine .inl (view_take hinv hfit (refills_setQueue hq mq')
      (ManagedQueue.cleanup_removes (hs.queues key mq hq) hc) (fun c => ?_) rfl rfl rfl)
    cases d with
    | none =>
      have hzero : Load.at (shown 0 0) key.priority c = 0 := by cases c <;> simp [Load.at, shown]
      simp only [map_none, toList_none, nil_append, getD_none, hzero, zero_add]
      rfl
    | some d =>
      simp only [releases, map_some, toList_some, singleton_append, flatten_cons,
        owed_append, owed_statsWrites, getD_some]
      change _ + (Load.at (shown d.len d.byteSize) key.priority c + _) = _
      ring
  | sweepWrites before after c d rest hsw =>
    have hneg : ∀ e ∈ s.releases, e.2.toInt ≤ 0 ∧ s.shard.Has e.1 := hflow.releases
    simp only [releases, hsw, flatten_append, flatten_cons] at hneg
    refine .inl (view_lower hinv hfit (hneg (c, d) (by simp))
      (s.work.releases ++ (before.flatten ++ (rest ++ after.flatten)))
      (fun e he => (hneg e (by simp only [mem_append, mem_cons] at he ⊢; tauto)).1) rfl (fun c' => ?_)
      (fun c' => ?_) rfl rfl rfl)
    · simp only [releases, hsw, flatten_append, flatten_cons, owed_append, owed_cons]
      ring
    · simp only [releases, flatten_append, flatten_cons]
  | swept before after hsw =>
    refine .inr (Admission.State.ext rfl rfl ?_ rfl rfl rfl)
    simp [view, releases, hsw]

end View

/-! ## Every run -/

structure Sound (limit : Counter → UInt64) (s : Traffic α) : Prop where
  limits : ∀ c, s.shard.limit c = limit c
  stocked : s.Stocked
  flowing : s.Flowing
  inv : Admission.Inv (fun c => ((limit c).toNat : Int)) s.view

theorem Sound.step {limit : Counter → UInt64} (h : s.Sound limit) (hst : Step s s') (hfit : Fits (loadOf s'.arrived)) :
    s'.Sound limit := by
  have hfit' := Fits.of_step hfit hst
  refine ⟨fun c => ?_, h.stocked.step hst, h.flowing.step h.stocked hfit' (amount_lt h.inv hfit') hst, ?_⟩
  · rw [(of_frame (frame_step hst) c).1, h.limits c]
  · rcases view_step h.limits h.stocked h.flowing h.inv hst hfit' with hview | hview
    · exact h.inv.step hview
    · rw [hview]; exact h.inv

theorem Sound.run {limit : Counter → UInt64} (h : s.Sound limit) (hr : Run s s') (hfit : Fits (loadOf s'.arrived)) :
    s'.Sound limit := by
  induction hr with
  | refl => exact h
  | tail _ hst ih => exact (ih (Fits.of_step hfit hst)).step hst hfit

omit [DecidableEq α] in
/-- An empty shard, before its first request. -/
theorem start_sound {shard : RegistryShard α} (hex : shard.Exact) (h₀ : shard.load = 0) :
    (start shard).Sound shard.limit := by
  have hband : ∀ p band, shard.priorityBands.lookup p = some band → band.load = 0 := fun p band hb =>
    le_antisymm (h₀ ▸ band_le hb) band.load_nonneg
  have hitems : ∀ key mq, shard.managedQueue key = some mq → mq.items = [] := by
    intro key mq hmq
    obtain ⟨band, hb, hq⟩ := bind_eq_some_iff.1 hmq
    have hle : loadOf mq.items ≤ band.load := Table.le_total (fun _ mq _ => loadOf_nonneg mq.items) hq
    have hlen : (loadOf mq.items).1 ≤ 0 := (hband _ _ hb ▸ hle).1
    rw [loadOf_fst] at hlen
    exact length_eq_zero_iff.1 (by omega)
  have hbandLoad : ∀ p, shard.bandLoad p = 0 := fun p =>
    le_antisymm (h₀ ▸ shard.bandLoad_le p) (shard.bandLoad_nonneg p)
  have hview : (start shard).view = Admission.start := by
    refine Admission.State.ext ?_ ?_ rfl rfl (funext fun c => by cases c <;> rfl) rfl
    · funext c
      cases c <;> simp [view, start, Admission.start, amount, h₀, hbandLoad]
    · funext c
      have htotal := hex.counters
      rw [h₀, wrap_zero, StatsDelta.mk.injEq] at htotal
      have hcounts : ∀ p band, shard.priorityBands.lookup p = some band → band.len = 0 ∧ band.byteSize = 0 := by
        intro p band hb
        have hb' := (hex.bands p band hb).counters
        rwa [hband p band hb, wrap_zero, StatsDelta.mk.injEq] at hb'
      cases c with
      | totalByteSize => simp [view, start, Admission.start, counter, htotal.2]
      | totalLen => simp [view, start, Admission.start, counter, htotal.1]
      | byteSize p =>
        cases hb : shard.priorityBands.lookup p with
        | none => simp [view, start, Admission.start, counter, hb]
        | some band => simp [view, start, Admission.start, counter, hb, (hcounts p band hb).2]
      | len p =>
        cases hb : shard.priorityBands.lookup p with
        | none => simp [view, start, Admission.start, counter, hb]
        | some band => simp [view, start, Admission.start, counter, hb, (hcounts p band hb).1]
  refine ⟨fun _ => rfl, ⟨fun key mq hmq => ?_, fun key mq hmq x hx => ?_, fun x hx => ?_⟩,
    ⟨fun x hx => ?_, fun x hx => ?_, fun _ _ => trivial⟩, ?_⟩
  · obtain ⟨band, hb, hq⟩ := bind_eq_some_iff.1 hmq
    exact (hex.bands _ _ hb).queues _ _ hq
  · rw [hitems key mq hmq] at hx; cases hx
  · cases hx
  · cases hx
  · cases hx
  · rw [hview]
    exact start_inv fun c => Int.natCast_nonneg _

/-- In every run on an empty shard, whatever sweeps and expires in between, what is
queued on the shard and in each band stays within the nonzero limits, and so do the
counters; provided that all requests together are below 2^63 in number and bytes. -/
theorem queued_within_limits {shard : RegistryShard α} (hex : shard.Exact) (h₀ : shard.load = 0) {s : Traffic α}
    (h : Run (start shard) s) (hfit : Fits (loadOf s.arrived)) (c : Counter) (hc : shard.limit c ≠ 0) :
    s.shard.amount c ≤ (shard.limit c).toNat ∧ (s.shard.counter c).toInt ≤ (shard.limit c).toNat := by
  have hsound := (start_sound hex h₀).run h hfit
  have hne : ((shard.limit c).toNat : Int) ≠ 0 := by
    intro hz
    exact hc (UInt64.toNat_inj.1 (by simpa using hz))
  exact ⟨hsound.inv.stored_le hne, hsound.inv.counter_le hne⟩

/-- A shard for one request, and two that come. -/
theorem second_request_rejected : ∃ s : Traffic Request,
    Run (start (.newShard 0 ⟨0, 1, AList.singleton 0 (Request.band 0)⟩)) s ∧ s.arrived.length = 2 ∧
    s.shard.amount .totalLen ≤ 1 ∧ (s.shard.counter .totalLen).toInt ≤ 1 := by
  obtain ⟨s, hrun, hp⟩ : ∃ s, Runs apply (fun _ _ => True) (start (.newShard 0 ⟨0, 1, AList.singleton 0 (Request.band 0)⟩)) s ∧
      s.arrived = [⟨2, 20⟩, ⟨1, 10⟩] :=
    exists_runs [.connect ⟨"a", 0⟩ Request.inOrder "ListQueue", .enqueue ⟨"a", 0⟩ ⟨1, 10⟩, .enqueue ⟨"a", 0⟩ ⟨2, 20⟩] _
      (by decide +kernel) fun _ _ h => h
  have hblank := (FlowRegistry.blank_newShard 0 ⟨0, 1, AList.singleton 0 (Request.band 0)⟩).exact
  have hrun' := (run_of_runs rfl hrun).1
  refine ⟨s, hrun', by rw [hp]; rfl, queued_within_limits hblank.1 hblank.2 hrun' ?_ .totalLen (by decide +kernel)⟩
  rw [hp]
  exact ⟨by decide, by decide⟩

end Traffic

end InferenceGateway.Processor
