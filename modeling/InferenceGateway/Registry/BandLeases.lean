import InferenceGateway.Registry.Bookings
/-!
# The leases of bands

A band's state is to be leased once for every flow in the map. The lease is taken by
the call that has entered the flow, after it has entered it, and is given back by
that call or by the collector, after the flow has left the map. In between the two
do not agree; `leased` says which flows have a lease at any time.
-/

namespace InferenceGateway.Registry

open Lib Queue Function LeaseMap Call

namespace Call

/-- The flow that the call has entered in the map and whose band it has not pinned yet. -/
def creating : Call → Option (FlowKey × Nat)
  | pinningFlow key (.trying o true) => some (key, o)
  | pinningFlow key (.confirming o true) => some (key, o)
  | pinningBand key o .loading => some (key, o)
  | pinningBand key o .storing => some (key, o)
  | pinningBand key o (.trying _ _) => some (key, o)
  | _ => none

/-- The flow that the call has pinned the band for, as long as it may have to take that
back. -/
def owing : Call → Option (FlowKey × Nat)
  | pinningBand key o (.confirming _ _) => some (key, o)
  | connected _ .running => none
  | connected _ .leaving => none
  | connected c _ => if c.isNewFlow then some (c.key, c.state) else none
  | _ => none

def made (c : Call) : Option (FlowKey × Nat) := c.creating.or c.owing

variable {c : Call} {x : FlowKey × Nat}

theorem made_of_creating (h : c.creating = some x) : c.made = some x := by
  rw [made, h, Option.some_or]

theorem made_of_owing (h : c.owing = some x) : c.made = some x := by
  cases c with
  | idle | pinningFlow key p => cases h
  | pinningBand key o p => cases p <;> first | cases h; done | exact h
  | connected c ph => exact h

theorem made_cases (h : c.made = some x) : c.creating = some x ∨ c.owing = some x :=
  (Option.or_eq_some_iff.1 h).imp_right And.right

/-- One call does not do both. -/
theorem not_owing_of_creating {y : FlowKey × Nat} (h : c.creating = some x) : c.owing ≠ some y := by
  cases c with
  | idle | pinningFlow key p => nofun
  | pinningBand key o p => cases p <;> first | cases h; done | nofun
  | connected c ph => cases h

/-- The state that the call has entered in the map and has not pinned yet. -/
def entered : Call → Option Nat
  | pinningFlow _ (.trying o true) => some o
  | _ => none

theorem tried_of_entered {o : Nat} (h : c.entered = some o) : c.tried = some o := by
  unfold entered at h
  split at h
  · exact h
  · cases h

/-- The state of a flow that a call has made is in its hands. -/
theorem in_hand_of_made {k : FlowKey} {o : Nat} (h : c.made = some (k, o)) :
    c.pinned = some o ∨ c.entered = some o := by
  rcases made_cases h with h | h
  · unfold creating at h
    split at h <;> cases h <;> first | exact .inl rfl | exact .inr rfl
  · cases c with
    | idle | pinningFlow key p => cases h
    | pinningBand key o' p => cases p <;> cases h; exact .inl rfl
    | connected c ph =>
      cases ph <;> simp only [owing, reduceCtorEq, Option.ite_none_right_eq_some, Option.some.injEq, Prod.mk.injEq] at h <;>
        exact .inl (by rw [pinned, h.2.2])

/-- What the call knows of the states of bands it has in its hands. -/
def BandOk (bands : LeaseMap Int) : Call → Prop
  | pinningBand key _ (.trying b _) =>
    b < bands.next ∧ (bands.load key.priority = some b ∨ (bands.states b).markedForDeletion = true)
  | pinningBand key _ (.confirming b _) => bands.load key.priority = some b
  | pinningBand _ _ (.backingOff _) => False
  | connected c .loadingBand => c.isNewFlow = true
  | connected c (.unpinningBand b) => c.isNewFlow = true ∧ bands.load c.key.priority = some b
  | _ => True

end Call

namespace Cycle

/-- The flows that have left the map and whose bands the collector has yet to unpin. -/
def owed : Cycle → List (FlowKey × Nat)
  | flows c => c.resourcesToClean
  | releasing todo _ => todo
  | unpinning _ x todo _ => x :: todo
  | _ => []

def visitingBand : Cycle → Option (Int × Nat)
  | bands c => c.visiting
  | _ => none

def doomedBand : Cycle → Option (Int × Nat)
  | bands c => c.doomed
  | _ => none

end Cycle

/-! ## Leases of a set of flows -/

/-- The states of the bands are leased for the flows in `L`, and for each of them there
is one. -/
structure Leases (bands : LeaseMap Int) (L : FlowKey × Nat → Prop) (doomed : Option (Int × Nat)) : Prop where
  counted : bands.Counted (fun x b => L x ∧ bands.load x.1.priority = some b) doomed
  covered : ∀ x, L x → ∃ b, bands.load x.1.priority = some b

namespace Leases

variable {bands : LeaseMap Int} {L L' : FlowKey × Nat → Prop} {doomed : Option (Int × Nat)} {p : Int} {b : Nat}
  {x : FlowKey × Nat}

variable (h : Leases bands L doomed)
include h

theorem congr (hL : ∀ x, L' x ↔ L x) : Leases bands L' doomed := by
  rwa [show L' = L from funext fun x => propext (hL x)]

theorem store (hp : bands.load p = none) : Leases (bands.store p) L doomed := by
  have hload : ∀ x, L x → (bands.store p).load x.1.priority = bands.load x.1.priority := by
    intro x hx
    obtain ⟨b, hb⟩ := h.covered x hx
    rw [load_store, if_neg]
    intro he
    rw [he, hp] at hb
    cases hb
  refine ⟨(h.counted.store hp).congr fun x b => and_congr_right fun hx => by rw [hload x hx], fun x hx => ?_⟩
  rw [hload x hx]
  exact h.covered x hx

theorem loadOrStore (p : Int) : Leases (bands.loadOrStore p).1 L doomed := by
  cases hp : bands.load p with
  | some b => rwa [loadOrStore_of_some hp]
  | none => rw [loadOrStore_of_none hp]; exact h.store hp

theorem pin {ls : LeasedState} (hpin : (bands.states b).tryPin = some ls)
    (hx : bands.load x.1.priority = some b) (hn : ¬ L x) (hL : ∀ y, L' y ↔ L y ∨ y = x) :
    Leases (bands.setState b ls) L' doomed := by
  refine ⟨h.counted.pin hpin (h.counted.stored _ _ hx) (i := x) (fun hp => hn hp.1) fun y b' => ?_, fun y hy => ?_⟩
  · rw [load_setState, hL]
    constructor
    · rintro ⟨hy | rfl, hb⟩
      · exact .inl ⟨hy, hb⟩
      · rw [hx, Option.some.injEq] at hb
        exact .inr ⟨rfl, hb.symm⟩
    · rintro (⟨hy, hb⟩ | ⟨rfl, rfl⟩)
      · exact ⟨.inl hy, hb⟩
      · exact ⟨.inr rfl, hx⟩
  · rcases (hL y).1 hy with hy | rfl
    · exact h.covered y hy
    · exact ⟨b, hx⟩

theorem unpin (hx : L x) (hl : bands.load x.1.priority = some b) (now : Int)
    (hL : ∀ y, L' y ↔ L y ∧ y ≠ x) : Leases (bands.unpin b now) L' doomed := by
  refine ⟨h.counted.unpin (i := x) ⟨hx, hl⟩ now fun y b' => ?_, fun y hy => h.covered y ((hL y).1 hy).1⟩
  rw [load_unpin, hL]
  constructor
  · rintro ⟨⟨hy, hne⟩, hb⟩
    exact ⟨⟨hy, hb⟩, fun he => hne he.1⟩
  · rintro ⟨⟨hy, hb⟩, hne⟩
    refine ⟨⟨hy, ?_⟩, hb⟩
    rintro rfl
    rw [hl, Option.some.injEq] at hb
    exact hne ⟨rfl, hb.symm⟩

omit h

variable {c : Collecting Int}

/-- The collector deletes no band that is leased. -/
theorem load_step (h : Leases bands L c.doomed) (timeout : Int) (hx : L x) (hl : bands.load x.1.priority = some b) :
    (c.step bands timeout).1.load x.1.priority = some b :=
  Collecting.load_step h.counted timeout (i := x) ⟨hx, hl⟩ hl

theorem collect (h : Leases bands L c.doomed) (hv : ∀ p b, c.visiting = some (p, b) → bands.load p = some b) (timeout : Int) :
    Leases (c.step bands timeout).1 L (c.step bands timeout).2.doomed := by
  refine ⟨(Collecting.counted_step h.counted hv timeout).congr fun x b => and_congr_right fun hx => ?_, fun x hx => ?_⟩
  · exact ⟨Collecting.load_of_step, h.load_step timeout hx⟩
  · obtain ⟨b, hb⟩ := h.covered x hx
    exact ⟨b, h.load_step timeout hx hb⟩

end Leases

namespace Sessions

variable {α : Type} {s s' : Sessions α}

/-- The flow has a lease of its band. -/
def leased (s : Sessions α) (x : FlowKey × Nat) : Prop :=
  (s.flows.load x.1 = some x.2 ∧ ∀ i, (s.calls i).creating ≠ some x) ∨ (∃ i, (s.calls i).owing = some x) ∨ x ∈ s.gc.owed

structure BandInv (s : Sessions α) : Prop where
  leases : Leases s.bands s.leased s.gc.doomedBand
  visiting : ∀ p b, s.gc.visitingBand = some (p, b) → s.bands.load p = some b
  known : ∀ i, (s.calls i).BandOk s.bands
  makers : ∀ i j x, (s.calls i).made = some x → (s.calls j).made = some x → i = j
  unmarked : ∀ i o, (s.calls i).entered = some o → (s.flows.states o).markedForDeletion = false
  provisioned : ∀ k o, s.flows.load k = some o → s.init o = .done true ∨ ∃ i, (s.calls i).made = some (k, o)
  once : s.gc.owed.Nodup
  owed : ∀ x ∈ s.gc.owed, x.2 < s.flows.next ∧ s.flows.load x.1 ≠ some x.2 ∧ ∀ i, (s.calls i).made ≠ some x
  releasing : ∀ b x todo keys, s.gc = .unpinning b x todo keys → s.bands.load x.1.priority = some b

theorem start_bandInv (r : FlowRegistry α) : (start r).BandInv where
  leases := by
    have hno : ∀ x, ¬ (start r).leased x := by
      rintro x (⟨hl, -⟩ | ⟨i, hi⟩ | hx)
      · cases hl
      · cases hi
      · cases hx
    exact ⟨counted_empty fun x b h => hno x h.1, fun x hx => absurd hx (hno x)⟩
  visiting := nofun
  known := fun _ => trivial
  makers := nofun
  unmarked := nofun
  provisioned := nofun
  once := List.nodup_nil
  owed := nofun
  releasing := nofun

variable {i o : Nat}

/-- What a call has made is an address in use. -/
theorem FlowInv.made_lt (h : s.FlowInv) {k : FlowKey} (hm : (s.calls i).made = some (k, o)) : o < s.flows.next := by
  rcases in_hand_of_made hm with hp | ht
  · exact h.counted.allocated i o hp
  · exact h.tried i o (tried_of_entered ht)

/-! ## Calls -/

variable {c : Call} {bands : LeaseMap Int}

theorem bandOk_mono {bands' : LeaseMap Int} (h : c.BandOk bands) (hev : bands.Evolves bands')
    (hload : ∀ p b, bands.load p = some b → bands'.load p = some b) : c.BandOk bands' := by
  unfold Call.BandOk at h ⊢
  split
  · exact ⟨h.1.trans_le hev.next, h.2.imp (hload _ _) (hev.mark _ h.1)⟩
  · exact hload _ _ h
  · exact h
  · exact h
  · exact ⟨h.1, hload _ _ h.2⟩
  · trivial

variable {registry : FlowRegistry α} {init : Nat → Init}

variable {flows : LeaseMap FlowKey}

/-- A call goes on. No band is deleted, and no flow is marked. -/
theorem BandInv.move (h : s.BandInv) (hf : s.FlowInv)
    (hleases : Leases bands (leased { s.setCall i c with flows := flows, bands := bands, registry := registry, init := init })
      s.gc.doomedBand) (hev : s.bands.Evolves bands) (hbands : ∀ p b, s.bands.load p = some b → bands.load p = some b)
    (hknown : c.BandOk bands) (hmade : ∀ k o, c.made = some (k, o) → (s.calls i).made = some (k, o) ∨ s.flows.next ≤ o)
    (hnext : s.flows.next ≤ flows.next)
    (hnew : ∀ k o, flows.load k = some o → s.flows.load k = some o ∨ s.flows.next ≤ o)
    (hmark : ∀ o < s.flows.next, (flows.states o).markedForDeletion = (s.flows.states o).markedForDeletion)
    (hentered : ∀ o, c.entered = some o → (flows.states o).markedForDeletion = false)
    (hprov : ∀ k o, flows.load k = some o → init o = .done true ∨ ∃ j, ((s.setCall i c).calls j).made = some (k, o)) :
    BandInv { s.setCall i c with flows := flows, bands := bands, registry := registry, init := init } := by
  refine ⟨hleases, fun p b hv => hbands p b (h.visiting p b hv), fun j => ?_, fun j j' x hj hj' => ?_, fun j o hj => ?_, hprov,
    h.once, fun x hx => ?_, fun b x todo keys hg => hbands _ _ (h.releasing b x todo keys hg)⟩
  · show ((s.setCall i c).calls j).BandOk bands
    rw [calls_setCall]
    split
    · exact hknown
    · exact bandOk_mono (h.known j) hev hbands
  · have hmi : ∀ j, j ≠ i → c.made = some x → (s.calls j).made ≠ some x := by
      intro j hji hc hj
      rcases hmade x.1 x.2 hc with hi | hle
      · exact hji (h.makers j i x hj hi)
      · exact absurd (hf.made_lt hj) (not_lt.2 hle)
    change ((s.setCall i c).calls j).made = _ at hj
    change ((s.setCall i c).calls j').made = _ at hj'
    rw [calls_setCall] at hj hj'
    by_cases hji : j = i <;> by_cases hji' : j' = i
    · rw [hji, hji']
    · rw [if_pos hji] at hj
      rw [if_neg hji'] at hj'
      exact absurd hj' (hmi j' hji' hj)
    · rw [if_neg hji] at hj
      rw [if_pos hji'] at hj'
      exact absurd hj (hmi j hji hj')
    · rw [if_neg hji] at hj
      rw [if_neg hji'] at hj'
      exact h.makers j j' x hj hj'
  · change ((s.setCall i c).calls j).entered = _ at hj
    rw [calls_setCall] at hj
    split at hj
    · exact hentered o hj
    · exact (hmark o (hf.tried j o (tried_of_entered hj))).trans (h.unmarked j o hj)
  · obtain ⟨hlt, hload, hno⟩ := h.owed x hx
    refine ⟨hlt.trans_le hnext, fun hl => ?_, fun j hj => ?_⟩
    · rcases hnew _ _ hl with hl | hle
      · exact hload hl
      · exact absurd hlt (not_lt.2 hle)
    · change ((s.setCall i c).calls j).made = _ at hj
      rw [calls_setCall] at hj
      split at hj
      · rcases hmade x.1 x.2 hj with hi | hle
        · exact hno i hi
        · exact absurd hlt (not_lt.2 hle)
      · exact hno j hj

theorem leased_setCall {x : FlowKey × Nat} :
    leased { s.setCall i c with flows := flows, bands := bands, registry := registry, init := init } x ↔
      (flows.load x.1 = some x.2 ∧ ∀ j, ((s.setCall i c).calls j).creating ≠ some x) ∨
      (∃ j, ((s.setCall i c).calls j).owing = some x) ∨ x ∈ s.gc.owed :=
  Iff.rfl

theorem calls_setCall_role {β : Type} {f : Call → β} (hc : f c = f (s.calls i)) (j : Nat) :
    f ((s.setCall i c).calls j) = f (s.calls j) := by
  rw [calls_setCall]
  split
  · subst j; exact hc
  · rfl

variable (h : s.BandInv)
include h

/-- A flow stays with the call that has made it, when that one keeps it. -/
theorem BandInv.maker_kept {k : FlowKey} (hl : s.flows.load k = some o)
    (hi : (s.calls i).made = some (k, o) → c.made = some (k, o)) :
    s.init o = .done true ∨ ∃ j, ((s.setCall i c).calls j).made = some (k, o) := by
  refine (h.provisioned k o hl).imp_right fun ⟨j, hj⟩ => ⟨j, ?_⟩
  rw [calls_setCall]
  split
  · subst j
    exact hi hj
  · exact hj

/-- A call goes on, in the role it has, and leaves the entries of flows alone. -/
theorem BandInv.steady (hf : s.FlowInv) {c₀ : Call} (hc : s.calls i = c₀)
    (hcre : c.creating = c₀.creating) (howe : c.owing = c₀.owing)
    (hleases : Leases bands s.leased s.gc.doomedBand) (hev : s.bands.Evolves bands)
    (hbands : ∀ p b, s.bands.load p = some b → bands.load p = some b) (hknown : c.BandOk bands)
    (hnext : flows.next = s.flows.next) (hload : ∀ k, flows.load k = s.flows.load k)
    (hmark : ∀ o, (flows.states o).markedForDeletion = (s.flows.states o).markedForDeletion)
    (hentered : c.entered = none) (hinit : ∀ o, s.init o = .done true → init o = .done true) :
    BandInv { s.setCall i c with flows := flows, bands := bands, registry := registry, init := init } := by
  subst hc
  have hmade : c.made = (s.calls i).made := by rw [made, hcre, howe]; rfl
  refine h.move hf (hleases.congr fun x => ?_) hev hbands hknown (fun k o hc => .inl (hmade ▸ hc)) hnext.ge
    (fun k o hl => .inl (hload k ▸ hl)) (fun o _ => hmark o) (fun o he => by rw [hentered] at he; cases he) fun k o hl => ?_
  · simp only [leased_setCall, hload, calls_setCall_role hcre, calls_setCall_role howe]
    rfl
  · exact (h.maker_kept (hload k ▸ hl) fun hm => hmade.trans hm).imp_left (hinit o)

/-- A call goes on, and changes nothing but the registry. -/
theorem BandInv.shift (hf : s.FlowInv) {c₀ : Call} (hc : s.calls i = c₀) (hcre : c.creating = c₀.creating)
    (howe : c.owing = c₀.owing) (hknown : c.BandOk s.bands) (hentered : c.entered = none) :
    BandInv { s.setCall i c with registry := registry } :=
  h.steady hf hc hcre howe h.leases (.refl _) (fun _ _ hl => hl) hknown rfl (fun _ => rfl) (fun _ => rfl) hentered fun _ hd => hd

theorem BandInv.connect (hf : s.FlowInv) (key : FlowKey) :
    BandInv { s.setCall s.started (.pinningFlow key .loading) with started := s.started + 1 } := by
  have hnext : BandInv { s.setCall s.started (.pinningFlow key .loading) with registry := s.registry } :=
    h.shift hf (hf.idle s.started le_rfl) rfl rfl trivial rfl
  exact { hnext with }

variable {key : FlowKey}

variable (hf : s.FlowInv)
include hf

/-- A new flow is entered: it is not leased before its band is pinned. -/
theorem BandInv.store (hc : s.calls i = .pinningFlow key .storing)
    (hl : s.flows.load key = none) :
    BandInv { s.setCall i (.pinningFlow key (.trying s.flows.next true)) with flows := s.flows.store key } := by
  have howe : (pinningFlow key (.trying s.flows.next true)).owing = (s.calls i).owing := by rw [hc]; rfl
  have hload : ∀ k o, s.flows.load k = some o → k ≠ key := by
    rintro k o hk rfl
    rw [hl] at hk; cases hk
  refine h.move hf (h.leases.congr fun x => ?_) (.refl _) (fun _ _ hb => hb) trivial (fun k o hm => ?_) (Nat.le_succ _)
    (fun k o hk => ?_) (fun o ho => by rw [states_store key ho]) (fun o ho => ?_) fun k o hk => ?_
  · refine or_congr ?_ (or_congr_left (exists_congr fun j => by rw [← calls_setCall_role howe j]))
    show ((s.flows.store key).load x.1 = some x.2 ∧ ∀ j, ((s.setCall i _).calls j).creating ≠ some x) ↔ _
    rw [load_store]
    split
    · rename_i hx
      constructor
      · rintro ⟨he, hno⟩
        rw [Option.some.injEq] at he
        refine absurd ?_ (hno i)
        rw [calls_setCall, if_pos rfl, creating, he, ← hx]
      · rintro ⟨he, -⟩
        exact absurd hx (hload _ _ he)
    · rename_i hx
      refine and_congr_right fun _ => forall_congr' fun j => not_congr ?_
      rw [calls_setCall]
      split
      · subst j
        rw [hc]
        constructor
        · intro he
          cases he
          exact absurd rfl hx
        · intro he; cases he
      · exact Iff.rfl
  · cases hm
    exact .inr le_rfl
  · rw [load_store] at hk
    split at hk
    · cases hk; exact .inr le_rfl
    · exact .inl hk
  · cases ho
    simp [LeaseMap.store, LeasedState.fresh]
  · rw [load_store] at hk
    split at hk
    · subst k
      cases hk
      refine .inr ⟨i, ?_⟩
      rw [calls_setCall, if_pos rfl]
      rfl
    · exact h.maker_kept hk fun hm => by rw [hc] at hm; cases hm

/-- A call whose new flow has left the map gives it up. -/
theorem BandInv.giveUp {isNew : Bool}
    (hc : s.calls i = .pinningFlow key (.confirming o isNew)) (hl : s.flows.load key ≠ some o) :
    BandInv (s.setCall i (.pinningFlow key (.backingOff o))) := by
  have howe : (pinningFlow key (.backingOff o)).owing = (s.calls i).owing := by rw [hc]; rfl
  have hrole : ∀ x, (s.calls i).made = some x → s.flows.load x.1 ≠ some x.2 := by
    intro x hx
    rw [hc] at hx
    cases isNew
    · cases hx
    · cases hx; exact hl
  refine h.move hf (h.leases.congr fun x => ?_) (.refl _) (fun _ _ hb => hb) trivial nofun le_rfl (fun k o hk => .inl hk)
    (fun o _ => rfl) nofun fun k o' hk => ?_
  · refine or_congr (and_congr_right fun hx => ?_) (or_congr_left (exists_congr fun j => by rw [← calls_setCall_role howe j]))
    refine forall_congr' fun j => not_congr ?_
    show ((s.setCall i _).calls j).creating = some x ↔ _
    rw [calls_setCall]
    split
    · subst j
      exact ⟨nofun, fun he => absurd hx (hrole x (made_of_creating he))⟩
    · exact Iff.rfl
  · exact h.maker_kept hk fun hm => absurd hk (hrole _ hm)

theorem BandInv.pinningFlow {p : Pinning} (hc : s.calls i = .pinningFlow key p)
    (hok : s.callStep i (.pinningFlow key p) = .ok s') : s'.BandInv := by
  cases p with
  | loading =>
    simp only [callStep, Pinning.step] at hok
    cases hl : s.flows.load key with
    | some o | none => rw [hl] at hok; cases hok; exact h.shift hf hc rfl rfl trivial rfl
  | storing =>
    simp only [callStep, Pinning.step] at hok
    cases hl : s.flows.load key with
    | some o =>
      rw [loadOrStore_of_some hl] at hok
      cases hok
      exact h.shift hf hc rfl rfl trivial rfl
    | none =>
      rw [loadOrStore_of_none hl] at hok
      cases hok
      exact h.store hf hc hl
  | trying o isNew =>
    simp only [callStep, Pinning.step] at hok
    cases hpin : (s.flows.states o).tryPin with
    | some ls =>
      rw [hpin] at hok
      cases hok
      refine h.steady hf hc (by cases isNew <;> rfl) rfl h.leases (.refl _) (fun _ _ hb => hb) trivial rfl
        (fun _ => rfl) (fun o' => ?_) rfl fun _ hd => hd
      by_cases ho : o' = o
      · subst ho
        unfold LeasedState.tryPin at hpin
        split at hpin <;> cases hpin
        simp [setState]
      · simp only [setState, update_of_ne ho]
    | none =>
      rw [hpin] at hok
      cases hok
      have hold : isNew = false := by
        rw [Bool.eq_false_iff]
        rintro rfl
        rw [LeasedState.tryPin, h.unmarked i o (by rw [hc]; rfl)] at hpin
        cases hpin
      subst hold
      exact h.shift hf hc rfl rfl trivial rfl
  | confirming o isNew =>
    simp only [callStep, Pinning.step] at hok
    by_cases hl : s.flows.load key = some o
    · rw [if_pos hl] at hok
      cases hok
      unfold afterFlow
      cases isNew with
      | true | false => exact h.shift hf hc rfl rfl trivial rfl
    · rw [if_neg hl] at hok
      cases hok
      exact h.giveUp hf hc hl
  | backingOff o =>
    simp only [callStep, Pinning.step] at hok
    cases hok
    refine h.steady hf hc rfl rfl h.leases (.refl _) (fun _ _ hb => hb) trivial rfl (fun _ => rfl)
      (fun o' => ?_) rfl fun _ hd => hd
    exact marked_unpin ..

/-- The band of a new flow is pinned: now the flow is leased. -/
theorem BandInv.pin {b : Nat} {isNew : Bool} {ls : LeasedState}
    (hc : s.calls i = .pinningBand key o (.trying b isNew)) (hpin : (s.bands.states b).tryPin = some ls) :
    BandInv { s.setCall i (.pinningBand key o (.confirming b isNew)) with bands := s.bands.setState b ls } := by
  have hcre : (s.calls i).creating = some (key, o) := by rw [hc]; rfl
  have hmade : (pinningBand key o (.confirming b isNew)).made = (s.calls i).made := by rw [hc]; rfl
  have hlive : (s.bands.states b).markedForDeletion = false := by
    rw [Bool.eq_false_iff]
    intro hm
    rw [LeasedState.tryPin, if_pos hm] at hpin
    cases hpin
  have hload : s.bands.load key.priority = some b := by
    have hk := h.known i
    rw [hc] at hk
    refine hk.2.resolve_right ?_
    rw [hlive]
    simp
  have hnot : ¬ s.leased (key, o) := by
    rintro (⟨-, hno⟩ | ⟨j, hj⟩ | hx)
    · exact hno i hcre
    · have hji := h.makers j i _ (made_of_owing hj) (made_of_creating hcre)
      subst hji
      exact not_owing_of_creating hcre hj
    · exact (h.owed _ hx).2.2 i (made_of_creating hcre)
  have hev : s.bands.Evolves (s.bands.setState b ls) := evolves_setState fun hm => by rw [hlive] at hm; cases hm
  refine h.move hf (h.leases.pin (x := (key, o)) hpin hload hnot fun y => ?_) hev (fun _ _ hb => hb) hload
    (fun k o' hm => .inl (hmade ▸ hm)) le_rfl (fun _ _ hl => .inl hl) (fun _ _ => rfl) (fun _ he => by cases he)
    fun k o' hl => ?_
  · -- the call is no longer creating the flow, and it owes it
    have hcre' : ∀ j, ((s.setCall i (.pinningBand key o (.confirming b isNew))).calls j).creating = some y ↔
        (s.calls j).creating = some y ∧ y ≠ (key, o) := by
      intro j
      rw [calls_setCall]
      split
      · subst j
        rw [hcre]
        refine ⟨fun he => (by cases he), fun he => ?_⟩
        cases he.1
        exact absurd rfl he.2
      · refine ⟨fun he => ⟨he, ?_⟩, And.left⟩
        rintro rfl
        exact absurd (h.makers j i _ (made_of_creating he) (made_of_creating hcre)) ‹_›
    have howe' : ∀ j, ((s.setCall i (.pinningBand key o (.confirming b isNew))).calls j).owing = some y ↔
        (s.calls j).owing = some y ∨ (j = i ∧ y = (key, o)) := by
      intro j
      rw [calls_setCall]
      split
      · subst j
        rw [hc]
        simp [owing, eq_comm]
      · simp [‹_›]
    rw [leased_setCall]
    by_cases hy : y = (key, o)
    · refine ⟨fun _ => .inr hy, fun _ => .inr (.inl ⟨i, (howe' i).2 (.inr ⟨rfl, hy⟩)⟩)⟩
    · simp only [ne_eq, hcre', howe', hy, not_false_eq_true, and_true, and_false, or_false]
      rfl
  · exact h.maker_kept hl fun hm => hmade.trans hm

theorem BandInv.pinningBand {p : Pinning} (hc : s.calls i = .pinningBand key o p)
    (hok : s.callStep i (.pinningBand key o p) = .ok s') : s'.BandInv := by
  have hknown := h.known i
  rw [hc] at hknown
  cases p with
  | loading =>
    simp only [callStep, Pinning.step] at hok
    cases hl : s.bands.load key.priority with
    | some b =>
      rw [hl] at hok
      cases hok
      exact h.shift hf hc rfl rfl ⟨h.leases.counted.stored _ _ hl, .inl hl⟩ rfl
    | none =>
      rw [hl] at hok
      cases hok
      exact h.shift hf hc rfl rfl trivial rfl
  | storing =>
    simp only [callStep, Pinning.step] at hok
    cases hl : s.bands.load key.priority with
    | some b =>
      rw [loadOrStore_of_some hl] at hok
      cases hok
      exact h.shift hf hc rfl rfl ⟨h.leases.counted.stored _ _ hl, .inl hl⟩ rfl
    | none =>
      rw [loadOrStore_of_none hl] at hok
      cases hok
      refine h.steady hf hc rfl rfl (h.leases.store hl) (evolves_store hl)
        (fun p b hb => load_store_of_some hl hb) ⟨Nat.lt_succ_self _, .inl ?_⟩ rfl (fun _ => rfl) (fun _ => rfl) rfl
        fun _ hd => hd
      rw [load_store, if_pos rfl]
  | trying b isNew =>
    simp only [callStep, Pinning.step] at hok
    cases hpin : (s.bands.states b).tryPin with
    | some ls => rw [hpin] at hok; cases hok; exact h.pin hf hc hpin
    | none => rw [hpin] at hok; cases hok; exact h.shift hf hc rfl rfl trivial rfl
  | confirming b isNew =>
    simp only [callStep, Pinning.step, if_pos (show s.bands.load key.priority = some b from hknown)] at hok
    cases hok
    exact h.shift hf hc rfl rfl trivial rfl
  | backingOff b => exact hknown.elim

omit hf

variable {ph : ConnPhase}

variable (hf : s.FlowInv)
include hf

/-- A call with its leases goes from one phase to another and stays in its role. -/
theorem BandInv.phase {c : Conn} (hc : s.calls i = .connected c ph) (ph' : ConnPhase)
    (howe : (connected c ph').owing = (connected c ph).owing) (hknown : (connected c ph').BandOk s.bands)
    (hinit : ∀ o, s.init o = .done true → init o = .done true) :
    BandInv { s.setCall i (.connected c ph') with registry := registry, init := init } :=
  h.steady hf hc rfl howe h.leases (.refl _) (fun _ _ hb => hb) hknown rfl (fun _ => rfl)
    (fun _ => rfl) rfl hinit

/-- The flow is provisioned: its lease is now one for a flow in the map. -/
theorem BandInv.settle {c : Conn} (hc : s.calls i = .connected c ph)
    (hnot : s.init c.state ≠ .done false) (hinit : ∀ o, s.init o = .done true → init o = .done true)
    (hdone : init c.state = .done true) :
    BandInv { s.setCall i (.connected c .running) with registry := registry, init := init } := by
  have hload : s.flows.load c.key = some c.state := (hf.used i c.key c.state (by rw [hc]; rfl)).resolve_right hnot
  have hcre : (connected c .running).creating = (s.calls i).creating := by rw [hc]; rfl
  have hrole : ∀ x, (s.calls i).owing = some x → x = (c.key, c.state) := by
    intro x hx
    rw [hc] at hx
    cases ph <;> simp only [owing, reduceCtorEq, Option.ite_none_right_eq_some, Option.some.injEq] at hx <;> exact hx.2.symm
  refine h.move hf (h.leases.congr fun x => ?_) (.refl _) (fun _ _ hb => hb) trivial nofun le_rfl (fun _ _ hl => .inl hl)
    (fun _ _ => rfl) nofun fun k o hl => ?_
  · simp only [leased_setCall, calls_setCall_role hcre]
    constructor
    · rintro (hx | ⟨j, hj⟩ | hx)
      · exact .inl hx
      · rw [calls_setCall] at hj
        split at hj
        · cases hj
        · exact .inr (.inl ⟨j, hj⟩)
      · exact .inr (.inr hx)
    · rintro (hx | ⟨j, hj⟩ | hx)
      · exact .inl hx
      · by_cases hji : j = i
        · subst hji
          have he := hrole x hj
          subst he
          refine .inl ⟨hload, fun j' hj' => ?_⟩
          have hjj := h.makers j' j _ (made_of_creating hj') (made_of_owing hj)
          subst hjj
          exact not_owing_of_creating hj' hj
        · refine .inr (.inl ⟨j, ?_⟩)
          rwa [calls_setCall, if_neg hji]
      · exact .inr (.inr hx)
  · rcases h.provisioned k o hl with hd | ⟨j, hj⟩
    · exact .inl (hinit o hd)
    · by_cases hji : j = i
      · subst hji
        rcases made_cases hj with hj | hj
        · rw [hc] at hj; cases hj
        cases hrole (k, o) hj
        exact .inl hdone
      · refine .inr ⟨j, ?_⟩
        rwa [calls_setCall, if_neg hji]

/-- The flow that goes when its provisioning has failed is still owed by the call that
has made it. -/
theorem BandInv.delete {c : Conn} (hc : s.calls i = .connected c .failing)
    (htidy : s.Tidy i) : BandInv { s.setCall i (.connected c (if c.isNewFlow then .loadingBand else .leaving)) with
      flows := s.flows.delete c.key } := by
  simp only [Tidy, hc] at htidy
  have hfail : s.init c.state = .done false := hf.phases i c _ hc
  have hcre : (connected c (if c.isNewFlow then .loadingBand else .leaving)).creating = (s.calls i).creating := by
    rw [hc]; rfl
  have howe : (connected c (if c.isNewFlow then .loadingBand else .leaving)).owing = (s.calls i).owing := by
    rw [hc]
    cases hn : c.isNewFlow <;> simp [owing, hn]
  have hmade : (connected c (if c.isNewFlow then .loadingBand else .leaving)).made = (s.calls i).made := by
    rw [made, hcre, howe]; rfl
  have hold : ∀ k o, (s.flows.delete c.key).load k = some o → s.flows.load k = some o := fun _ _ hl =>
    (load_of_load_delete hl).2
  refine h.move hf (h.leases.congr fun x => ?_) (.refl _) (fun _ _ hb => hb) ?_ (fun k o hm => .inl (hmade ▸ hm)) le_rfl
    (fun k o hl => .inl (hold k o hl)) (fun _ _ => rfl) (fun _ he => by cases he) fun k o hl => ?_
  · simp only [leased_setCall, calls_setCall_role hcre, calls_setCall_role howe]
    constructor
    · rintro (⟨hl, hno⟩ | hx)
      · exact .inl ⟨hold _ _ hl, hno⟩
      · exact .inr hx
    · rintro (⟨hl, hno⟩ | hx)
      · by_cases hk : x.1 = c.key
        · rcases htidy.1 with hn | hs
          · rw [hk, hn] at hl; cases hl
          · rcases h.provisioned _ _ hl with hd | ⟨j, hj⟩
            · rw [hk, hs, Option.some.injEq] at hl
              rw [← hl, hfail] at hd
              cases hd
            · exact .inr (.inl ⟨j, (made_cases hj).resolve_left (hno j)⟩)
        · refine .inl ⟨?_, hno⟩
          rw [load_delete, if_neg hk]
          exact hl
      · exact .inr hx
  · cases hn : c.isNewFlow
    · trivial
    · exact hn
  · exact h.maker_kept (hold k o hl) fun hm => hmade.trans hm

/-- The call that has made the flow gives the lease back. -/
theorem BandInv.unpin {c : Conn} {b : Nat}
    (hc : s.calls i = .connected c (.unpinningBand b)) (now : Int) :
    BandInv { s.setCall i (.connected c .leaving) with bands := s.bands.unpin b now } := by
  have hknown := h.known i
  rw [hc] at hknown
  obtain ⟨hnew, hload⟩ := hknown
  have howe : (s.calls i).owing = some (c.key, c.state) := by rw [hc, owing, if_pos hnew] <;> nofun
  have hcre : (connected c .leaving).creating = (s.calls i).creating := by rw [hc]; rfl
  have hgone : s.flows.load c.key ≠ some c.state := (hf.phases i c _ hc).2
  have howe' : ∀ x j, ((s.setCall i (.connected c .leaving)).calls j).owing = some x ↔
      (s.calls j).owing = some x ∧ x ≠ (c.key, c.state) := by
    intro x j
    rw [calls_setCall]
    split
    · subst j
      rw [howe]
      refine ⟨nofun, fun ⟨he, hne⟩ => ?_⟩
      cases he
      exact absurd rfl hne
    · refine ⟨fun he => ⟨he, ?_⟩, And.left⟩
      rintro rfl
      exact absurd (h.makers j i _ (made_of_owing he) (made_of_owing howe)) ‹_›
  refine h.move hf (h.leases.unpin (x := (c.key, c.state)) (.inr (.inl ⟨i, howe⟩)) hload now fun x => ?_)
    (s.bands.evolves_unpin b now) (fun _ _ hb => hb) trivial nofun le_rfl (fun _ _ hl => .inl hl) (fun _ _ => rfl) nofun
    fun k o hl => ?_
  · simp only [leased_setCall, calls_setCall_role hcre, howe']
    by_cases hx : x = (c.key, c.state)
    · subst hx
      simp only [ne_eq, not_true_eq_false, and_false, exists_false, false_or, iff_false, not_or]
      exact ⟨fun hl => hgone hl.1, fun hmem => (h.owed _ hmem).2.2 i (made_of_owing howe)⟩
    · simp only [ne_eq, hx, not_false_eq_true, and_true]
      rfl
  · refine h.maker_kept hl fun hm => ?_
    have hko := (made_of_owing howe).symm.trans hm
    cases hko
    exact absurd hl hgone

theorem BandInv.connStep {c : Conn} (hc : s.calls i = .connected c ph)
    (htidy : s.Tidy i) (hok : s.connStep i c ph = .ok s') : s'.BandInv := by
  have hph := hf.phases i c ph hc
  cases ph with
  | initializing =>
    simp only [Sessions.connStep] at hok
    split at hok
    · rename_i hfresh
      cases hok
      refine h.phase hf hc .looking rfl trivial fun o hd => ?_
      rw [update_of_ne]
      · exact hd
      · rintro rfl
        rw [hfresh] at hd; cases hd
    · cases hok; exact h
    · rename_i ok hdone
      cases hok
      cases ok with
      | true => exact h.settle hf hc (by rw [hdone]; simp) (fun _ hd => hd) hdone
      | false => exact h.phase hf hc .failing rfl trivial fun _ hd => hd
  | looking =>
    simp only [Sessions.connStep] at hok
    split_ifs at hok
    · cases hok; exact h
    · cases hok; exact h.phase hf hc .synchronizing rfl trivial fun _ hd => hd
    · cases hok; exact h.phase hf hc .ensuring rfl trivial fun _ hd => hd
  | ensuring =>
    simp only [Sessions.connStep] at hok
    split_ifs at hok
    · cases hok; exact h
    · cases hok; exact h.phase hf hc .synchronizing rfl trivial fun _ hd => hd
    · split at hok
      · cases hok
      · cases hok
        exact h.steady hf hc rfl rfl (h.leases.loadOrStore _) (evolves_loadOrStore ..)
          (fun _ _ => load_loadOrStore) trivial rfl (fun _ => rfl) (fun _ => rfl) rfl fun _ hd => hd
  | synchronizing =>
    simp only [Sessions.connStep] at hok
    split_ifs at hok
    · cases hok; exact h
    · split at hok
      · cases hok
      · rename_i r ok _
        cases hok
        have hinit : ∀ o, s.init o = .done true → update s.init c.state (.done ok) o = .done true := by
          intro o hd
          rw [update_of_ne]
          · exact hd
          · rintro rfl
            rw [show s.init c.state = .running from hph] at hd; cases hd
        cases ok with
        | true =>
          exact h.settle hf hc (by rw [show s.init c.state = .running from hph]; simp) hinit (update_self ..)
        | false => exact h.phase hf hc .failing rfl trivial hinit
  | failing =>
    cases hok
    exact h.delete hf hc htidy
  | loadingBand =>
    have hnew : c.isNewFlow = true := by
      have hk := h.known i
      rwa [hc] at hk
    simp only [Sessions.connStep] at hok
    split at hok
    · cases hok; exact h.phase hf hc (.unpinningBand _) rfl ⟨hnew, ‹_›⟩ fun _ hd => hd
    · -- the lease is one of a band that is there
      rename_i hn
      obtain ⟨b, hb⟩ := h.leases.covered (c.key, c.state) (.inr (.inl ⟨i, by rw [hc, owing, if_pos hnew] <;> simp⟩))
      rw [hn] at hb; cases hb
  | unpinningBand b =>
    cases hok
    exact h.unpin hf hc _
  | running =>
    cases hok
    exact h
  | leaving =>
    cases hok
    exact h.steady hf hc rfl rfl h.leases (.refl _) (fun _ _ hb => hb) trivial rfl (fun _ => rfl)
      (fun _ => marked_unpin ..) rfl fun _ hd => hd

end Sessions

end InferenceGateway.Registry
