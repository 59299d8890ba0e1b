import InferenceGateway.Processor.System
/-!
# Where an item can be

An item belongs to one goroutine at a time: to its request until it is handed
over, and then to the processor, which has it in the channel, in hand, or in a
queue. An item that has left the processor is gone for good.
-/

namespace InferenceGateway.Processor

open List Function Phase

/-- The item that the processor has taken from the channel and not yet decided on. -/
def Phase.hand : Phase → List Nat
  | enqueue x => [x]
  | admitting x => [x]
  | _ => []

/-- The item that a request has not yet handed over. -/
def RequestPhase.pending : RequestPhase → Option Nat
  | distributing x => some x
  | sending x => some x
  | _ => none

theorem settle_pending (fs : FinalState) (x : Nat) (w : Bool) : (settle fs x w).pending = none := by
  unfold settle
  split <;> rfl

namespace System

variable {cap : Nat} {s s' : System}

/-- The items the processor has. -/
def held (s : System) : List Nat := s.enqueueChan ++ s.processor.hand ++ s.queued

def pending (s : System) (i : Nat) : Option Nat := (s.requests i).pending

/-- The item is neither with a request nor with the processor. -/
structure Gone (s : System) (x : Nat) : Prop where
  allocated : x < s.next
  notHeld : x ∉ s.held
  notPending : ∀ i, s.pending i ≠ some x

/-- The item is finalized, or the processor or an eviction is about to do it. -/
inductive Parted (s : System) (x : Nat) : Prop where
  | final (h : (s.items x).finalState.isSome)
  | processor (j : Job) (n : Next) (h : s.processor = .finalizing j n) (hx : j.item = x)
  | eviction (j : Job) (h : s.evictions x = some j)

/-- What a step does to the places of items. -/
inductive PlaceMove (s s' : System) : Prop where
  /-- Items may leave, and none is left unfinalized. -/
  | leave (hn : s'.next = s.next) (hh : ∃ l, s.held.Perm (l ++ s'.held) ∧ ∀ x ∈ l, s'.Parted x)
      (hp : ∀ i, s'.pending i = s.pending i ∨ s'.pending i = none)
  /-- A new item belongs to its request. -/
  | create (i : Nat) (hn : s'.next = s.next + 1) (hh : s'.held = s.held) (hi : s'.pending i = some s.next)
      (hp : ∀ k, k ≠ i → s'.pending k = s.pending k)
  /-- An item goes from its request to the processor. -/
  | enter (i x : Nat) (hn : s'.next = s.next) (hh : s'.held.Perm (x :: s.held)) (hx : s.pending i = some x)
      (hi : s'.pending i = none) (hp : ∀ k, k ≠ i → s'.pending k = s.pending k)

/-- Only the phase of one request changes, and it has no new item. -/
theorem PlaceMove.of_request {i : Nat} {p : RequestPhase} (hn : s'.next = s.next) (hh : s'.held = s.held)
    (hr : s'.requests = update s.requests i p) (hp : p.pending = s.pending i ∨ p.pending = none) :
    PlaceMove s s' := by
  refine .leave hn ⟨[], by rw [hh]; exact .refl _, nofun⟩ fun k => ?_
  unfold pending
  rw [hr]
  by_cases hk : k = i
  · subst hk
    rw [update_self]
    exact hp
  · rw [update_of_ne hk]
    exact .inl rfl

/-- Only the processor's side changes, and its items stay. -/
theorem PlaceMove.of_processor (hn : s'.next = s.next) (hr : s'.requests = s.requests) (hh : s.held.Perm s'.held) :
    PlaceMove s s' :=
  .leave hn ⟨[], hh, nofun⟩ fun i => .inl (by rw [pending, hr]; rfl)

variable {x : Nat}

/-- One item leaves the processor. -/
theorem PlaceMove.of_parted (hn : s'.next = s.next) (hr : s'.requests = s.requests) (hh : s.held.Perm (x :: s'.held))
    (hx : s'.Parted x) : PlaceMove s s' :=
  .leave hn ⟨[x], hh, by simpa using hx⟩ fun i => .inl (by rw [pending, hr]; rfl)

theorem held_erase {q : List Nat} (hx : x ∈ q) (c h : List Nat) : (c ++ h ++ q).Perm (x :: (c ++ h ++ q.erase x)) := by
  have hq : (c ++ h ++ q).Perm (c ++ h ++ x :: q.erase x) := (perm_cons_erase hx).append_left _
  exact hq.trans perm_middle

theorem placeMove_of_accept {i : Nat} (h : s.requests i = .sending x) (hn : s'.next = s.next)
    (hr : s'.requests = update s.requests i (.awaiting x)) (hh : s'.held.Perm (x :: s.held)) :
    PlaceMove s s' := by
  refine .enter i x hn hh (by rw [pending, h]; rfl) ?_ fun k hk => ?_
  · rw [pending, hr, update_self]; rfl
  · rw [pending, hr, update_of_ne hk]; rfl

/-- Every step is one of the three. -/
theorem place_move (h : Step cap s s') : PlaceMove s s' := by
  cases h with
  | cancelParent | cancelProcessor | evictionRuns x j j' it h hr | evictionRan x j it h hr | sweepEnds hd =>
    exact .of_processor rfl rfl (.refl _)
  | create i h =>
    refine .create i rfl rfl ?_ fun k hk => ?_
    · simp only [pending, setRequest, update_self]; rfl
    · simp only [pending, setRequest, update_of_ne hk]; rfl
  | check i x h | refused i x h => exact .of_request rfl rfl rfl (.inl (by rw [pending, h]; rfl))
  | send i x h =>
    refine placeMove_of_accept h rfl rfl ?_
    simp only [held, append_assoc, accept, setRequest]
    exact perm_middle
  | handOver i x h hc hp =>
    refine placeMove_of_accept h rfl rfl ?_
    simp [held, accept, setRequest, hand, hc, hp]
  | handOverDraining i x h hc hp =>
    refine .of_request rfl ?_ rfl (.inr rfl)
    simp [held, accept, setRequest, hand, hp]
  | receive i x fs h hd | load i x w fs h hf => exact .of_request rfl rfl rfl (.inr (settle_pending _ _ _))
  | take x rest h hc =>
    refine .of_processor rfl rfl ?_
    simp only [held, h, hc, hand, nil_append, append_nil, cons_append, append_assoc]
    exact perm_middle.symm
  | tick h | stop h | look x h hf | select x h hx | cycleEnds h | removeFails x h hx | setFlag h | drained h hc
  | evicted h hq he | «return» h hs => exact .of_processor rfl rfl (by simp [held, h, hand])
  | discard x h hf =>
    refine .of_parted rfl rfl ?_ (.final hf)
    simp only [held, h, hand, append_nil, append_assoc]
    exact perm_middle
  | reject x fs hr h =>
    refine .of_parted rfl rfl ?_ (.processor _ _ rfl rfl)
    simp only [held, h, hand, append_nil, append_assoc]
    exact perm_middle
  | add x h =>
    refine .of_processor rfl rfl ?_
    simp only [held, h, hand, setItem, append_nil, append_assoc]
    exact perm_append_comm.append_left _
  | remove x h hx =>
    refine .of_parted rfl rfl ?_ (.processor _ _ rfl rfl)
    simp only [held, h, hand]
    exact held_erase hx _ _
  | processorRuns j j' next it h hr => exact .of_processor rfl rfl (by simp [held, h, hand, setItem])
  | processorRan j next it h hr =>
    exact .of_processor rfl rfl (by cases next <;> simp [held, h, hand, setItem, Next.phase])
  | drain x rest h hc =>
    refine .of_parted rfl rfl ?_ (.processor _ _ rfl rfl)
    simp only [held, h, hc, hand]
    exact .refl _
  | evict x h hx => exact .of_parted rfl rfl (held_erase hx _ _) (.eviction _ (update_self ..))
  | sweep x hs hx hf => exact .of_parted rfl rfl (held_erase hx _ _) (.final hf)
  | _ => exact .of_request rfl rfl rfl (.inr rfl)

/-! ## The invariant -/

structure Placed (s : System) : Prop where
  nodup : s.held.Nodup
  below : ∀ x ∈ s.held, x < s.next
  pending : ∀ i x, s.pending i = some x → x < s.next ∧ x ∉ s.held
  inj : ∀ i k x, s.pending i = some x → s.pending k = some x → i = k

theorem init_placed : init.Placed := by
  refine ⟨nodup_nil, ?_, ?_, ?_⟩
  · intro x hx; cases hx
  · intro i x hx; cases hx
  · intro i k x hx; cases hx

theorem Placed.move (h : s.Placed) (hm : PlaceMove s s') : s'.Placed := by
  cases hm with
  | leave hn hh hp =>
    obtain ⟨l, hl, -⟩ := hh
    have hsub : ∀ x ∈ s'.held, x ∈ s.held := fun x hx => hl.mem_iff.2 (mem_append_right _ hx)
    have hold : ∀ i x, s'.pending i = some x → s.pending i = some x := by
      intro i x hx
      rcases hp i with hi | hi
      · rwa [hi] at hx
      · rw [hi] at hx; cases hx
    refine ⟨(nodup_append.1 (hl.nodup_iff.1 h.nodup)).2.1, fun x hx => ?_, fun i x hx => ?_, fun i k x hi hk => ?_⟩
    · rw [hn]; exact h.below x (hsub x hx)
    · have hx' := h.pending i x (hold i x hx)
      rw [hn]
      exact ⟨hx'.1, fun hmem => hx'.2 (hsub x hmem)⟩
    · exact h.inj i k x (hold i x hi) (hold k x hk)
  | create i hn hh hi hp =>
    have hnew : ∀ k x, s'.pending k = some x → (k = i ∧ x = s.next) ∨ (k ≠ i ∧ s.pending k = some x) := by
      intro k x hx
      by_cases hk : k = i
      · subst hk
        rw [hi, Option.some.injEq] at hx
        exact .inl ⟨rfl, hx.symm⟩
      · rw [hp k hk] at hx
        exact .inr ⟨hk, hx⟩
    refine ⟨by rw [hh]; exact h.nodup, fun x hx => ?_, fun k x hx => ?_, fun k k' x hk hk' => ?_⟩
    · rw [hh] at hx; rw [hn]
      exact Nat.lt_succ_of_lt (h.below x hx)
    · rw [hn, hh]
      rcases hnew k x hx with ⟨-, rfl⟩ | ⟨-, hx⟩
      · exact ⟨Nat.lt_succ_self _, fun hmem => Nat.lt_irrefl _ (h.below _ hmem)⟩
      · exact ⟨Nat.lt_succ_of_lt (h.pending k x hx).1, (h.pending k x hx).2⟩
    · rcases hnew k x hk with ⟨rfl, rfl⟩ | ⟨-, hx⟩ <;> rcases hnew k' _ hk' with ⟨rfl, hx'⟩ | ⟨-, hx'⟩
      · rfl
      · exact absurd (h.pending _ _ hx').1 (Nat.lt_irrefl _)
      · exact absurd (hx' ▸ (h.pending _ _ hx).1) (Nat.lt_irrefl _)
      · exact h.inj _ _ _ hx hx'
  | enter i x hn hh hx hi hp =>
    have hold : ∀ k y, s'.pending k = some y → k ≠ i ∧ s.pending k = some y := by
      intro k y hy
      by_cases hk : k = i
      · subst hk; rw [hi] at hy; cases hy
      · rw [hp k hk] at hy; exact ⟨hk, hy⟩
    have hxs := h.pending i x hx
    refine ⟨hh.nodup_iff.2 (nodup_cons.2 ⟨hxs.2, h.nodup⟩), fun y hy => ?_, fun k y hy => ?_, fun k k' y hk hk' => ?_⟩
    · rw [hn]
      rcases mem_cons.1 (hh.mem_iff.1 hy) with rfl | hy
      · exact hxs.1
      · exact h.below y hy
    · obtain ⟨hk, hy⟩ := hold k y hy
      rw [hn]
      refine ⟨(h.pending k y hy).1, fun hmem => ?_⟩
      rcases mem_cons.1 (hh.mem_iff.1 hmem) with rfl | hmem
      · exact hk (h.inj k i y hy hx)
      · exact (h.pending k y hy).2 hmem
    · exact h.inj k k' y (hold k y hk).2 (hold k' y hk').2

/-- What has gone stays gone: only a request's own item enters. -/
theorem Gone.move (h : s.Gone x) (hm : PlaceMove s s') : s'.Gone x := by
  cases hm with
  | leave hn hh hp =>
    obtain ⟨l, hl, -⟩ := hh
    refine ⟨hn ▸ h.allocated, fun hx => h.notHeld (hl.mem_iff.2 (mem_append_right _ hx)), fun i => ?_⟩
    rcases hp i with hi | hi
    · rw [hi]; exact h.notPending i
    · rw [hi]; nofun
  | create i hn hh hi hp =>
    refine ⟨hn ▸ Nat.lt_succ_of_lt h.allocated, hh ▸ h.notHeld, fun k => ?_⟩
    by_cases hk : k = i
    · subst hk
      rw [hi]
      intro he
      rw [Option.some.injEq] at he
      exact absurd (he ▸ h.allocated) (Nat.lt_irrefl _)
    · rw [hp k hk]; exact h.notPending k
  | enter i y hn hh hy hi hp =>
    have hne : x ≠ y := fun he => h.notPending i (he ▸ hy)
    refine ⟨hn ▸ h.allocated, fun hx => ?_, fun k => ?_⟩
    · rcases mem_cons.1 (hh.mem_iff.1 hx) with he | hx
      · exact hne he
      · exact h.notHeld hx
    · by_cases hk : k = i
      · subst hk; rw [hi]; nofun
      · rw [hp k hk]; exact h.notPending k

/-- An item that the processor lets go of. -/
theorem Placed.gone_of_leave (h : s.Placed) (hn : s'.next = s.next) (hr : s'.requests = s.requests)
    (hh : s.held.Perm (x :: s'.held)) : s'.Gone x := by
  have hx : x ∈ s.held := hh.mem_iff.2 mem_cons_self
  refine ⟨hn ▸ h.below x hx, (nodup_cons.1 (hh.nodup_iff.1 h.nodup)).1, fun i hi => ?_⟩
  unfold System.pending at hi
  rw [hr] at hi
  exact (h.pending i x hi).2 hx

end System

end InferenceGateway.Processor
