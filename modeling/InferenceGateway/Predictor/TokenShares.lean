import InferenceGateway.Predictor.TokensInFlight
/-!
# What is due back for a request

What is booked for a request is due back: the share of the prefill pod with the first
token, that of the decode pod at the end of the stream or the eviction, and that of the
prefill pod then, too, if there was no first token. Whether there was one is read off the
time it took: a first token within the millisecond has taken none, so that the share of
the prefill pod is given back once more with every part of the response that follows.
-/

namespace InferenceGateway.Predictor

open Lib List Access TokensInFlight

/-! ## Shares -/

def Access.raised (key : String) : Access → ℕ
  | raise k n => if k = key then n else 0
  | _ => 0

def Access.lowered (key : String) : Access → ℕ
  | lower k n => if k = key then n else 0
  | _ => 0

/-- An access of `PreRequest`. -/
def Access.Early : Access → Prop
  | raise _ _ | record _ _ => True
  | lower _ _ | delete _ | forget => False

namespace Tracked

variable (r : Tracked) (key : String)

def toRaise : ℕ := (r.todo.map (raised key)).sum

def toLower : ℕ := (r.todo.map (lowered key)).sum

/-- The tokens that a pod has of the request. -/
def share (pod : Option String) : ℕ := if pod = some key then r.inputTokenCount else 0

/-- What `PreRequest` books for a pod. -/
def due : ℕ := r.share key r.prefillTargetMetadata + r.share key r.targetMetadata

/-- What is to be given back so far. -/
def paid : ℕ :=
  if r.ended then r.due key
  else if r.ttft = 0 then 0
  else r.share key r.prefillTargetMetadata

/-- What the counter of a pod has of the request. -/
def net : ℤ := (r.added key : ℤ) - r.subtracted key

variable {r key}

theorem paid_le_due (r : Tracked) (key : String) : r.paid key ≤ r.due key := by
  unfold paid due
  split
  · exact le_rfl
  · split
    · exact Nat.zero_le _
    · exact Nat.le_add_right _ _

theorem sum_lowered_giveBack (pod : Option String) : ((r.giveBack pod).map (lowered key)).sum = r.share key pod := by
  cases pod with
  | none => rfl
  | some k =>
    simp only [giveBack, share, Option.elim, map_cons, map_nil, sum_cons, sum_nil, lowered,
      Option.some.injEq, add_zero]

theorem sum_raised_booking : (r.booking.map (raised key)).sum = r.due key := by
  unfold booking due share
  cases r.prefillTargetMetadata <;> cases r.targetMetadata <;> simp [raised]

theorem sum_lowered_booking : (r.booking.map (lowered key)).sum = 0 := by
  unfold booking
  cases r.prefillTargetMetadata <;> cases r.targetMetadata <;> simp [lowered]

variable {a : Access}

theorem early_of_mem_booking (h : a ∈ r.booking) : a.Early := by
  unfold booking at h
  cases hp : r.prefillTargetMetadata <;> cases ht : r.targetMetadata <;> simp [hp, ht] at h
  all_goals rcases h with rfl | rfl | rfl | rfl <;> trivial

theorem not_early_of_mem_giveBack {pod : Option String} (h : a ∈ r.giveBack pod) : ¬ a.Early := by
  cases pod with
  | none => cases h
  | some key =>
    cases mem_singleton.1 h
    exact id

theorem sum_raised_of_late {l : List Access} (h : ∀ a ∈ l, ¬ a.Early) : (l.map (raised key)).sum = 0 := by
  apply sum_eq_zero
  intro n hn
  obtain ⟨a, ha, rfl⟩ := List.mem_map.1 hn
  cases a with
  | raise k n => exact absurd trivial (h _ ha)
  | _ => rfl

variable {rest : List Access} {t : String}

/-- Nothing comes after the decode pod's count is noted. -/
theorem rest_of_record (h : record false t :: rest <:+ r.booking) : rest = [] := by
  unfold booking at h
  cases hp : r.prefillTargetMetadata <;> cases ht : r.targetMetadata <;>
    simp [hp, ht, suffix_cons_iff] at h
  all_goals exact h.2

/-! ## A request in good order -/

structure Good (predictor : Bool) (id : String) (r : Tracked) : Prop where
  unbooked : r.targetMetadata = none → r.prefillTargetMetadata = none ∧ r.todo = [] ∧ r.ttft = 0
  target : ∀ t, r.targetMetadata = some t → r.targetPod = some t
  raised : ∀ key, r.added key + r.toRaise key = r.due key
  lowered : ∀ key, r.subtracted key + r.toLower key = r.paid key
  /-- While `PreRequest` is under way, nothing is due back. -/
  early : (∃ a ∈ r.todo, a.Early) → r.ttft = 0 ∧ r.ended = false ∧ r.todo <:+ r.booking
  noted : ∀ t, r.targetMetadata = some t → 0 < r.inputTokenCount →
    .record false t ∈ r.todo ∨ 0 < r.prefillTokensAtDispatch
  closed : r.ended = true → r.stored = .absent ∨ .forget ∈ r.todo
  gone : r.targetMetadata ≠ none → r.stored = .absent ∨ .forget ∈ r.todo → r.ended = true
  known : r.stored = .valid → r.targetPod ≠ none → predictor = true → r.targetMetadata ≠ none
  named : r.stored ≠ .absent → id ≠ ""
  begun : r.ended = true ∨ r.stored ≠ .absent → r.prepared = true

variable {predictor : Bool} {id : String}

theorem good_new : Good predictor id new where
  unbooked _ := ⟨rfl, rfl, rfl⟩
  target _ h := by cases h
  raised _ := rfl
  lowered _ := rfl
  early := by rintro ⟨a, h, -⟩; cases h
  noted _ h := by cases h
  closed h := by cases h
  gone h := absurd rfl h
  known h := by cases h
  named h := absurd rfl h
  begun h := h.elim (fun h => (by cases h)) fun h => absurd rfl h

variable (h : r.Good predictor id)
include h

/-- No more is given back than has been booked. -/
theorem Good.subtracted_le (key : String) : r.subtracted key ≤ r.added key := by
  have hraised := h.raised key
  have hlowered := h.lowered key
  have hle := paid_le_due r key
  by_cases hearly : ∃ a ∈ r.todo, a.Early
  · obtain ⟨httft, hended, -⟩ := h.early hearly
    have hpaid : r.paid key = 0 := by simp [paid, httft, hended]
    omega
  · have hdone : r.toRaise key = 0 := sum_raised_of_late fun a ha he => hearly ⟨a, ha, he⟩
    omega

theorem Good.net_nonneg (key : String) : 0 ≤ r.net key := by
  have := h.subtracted_le key
  unfold net
  omega

/-- All is given back when the request is finished. -/
theorem Good.finished (hfin : TokensInFlight.Finished r) (key : String) :
    r.subtracted key = r.added key := by
  obtain ⟨htodo, hgone⟩ := hfin
  have hraised := h.raised key
  have hlowered := h.lowered key
  simp only [toRaise, toLower, htodo, map_nil, sum_nil, add_zero] at hraised hlowered
  rw [hraised, hlowered]
  cases ht : r.targetMetadata with
  | none =>
    have hdue : r.due key = 0 := by simp [due, share, ht, (h.unbooked ht).1]
    have := paid_le_due r key
    omega
  | some t =>
    have hended := h.gone (by simp [ht]) (Or.inl (hgone.resolve_right (by simp [ht])))
    rw [paid, if_pos hended]

/-! ## Hooks -/

theorem Good.idle (hpod : r.targetPod = none) : r.targetMetadata = none := by
  cases ht : r.targetMetadata with
  | none => rfl
  | some t => rw [h.target t ht] at hpod; cases hpod

theorem Good.open_ (hstored : r.stored ≠ .absent) (htodo : r.todo = []) : r.ended = false := by
  cases hended : r.ended with
  | false => rfl
  | true =>
    rcases h.closed hended with habsent | hforget
    · exact absurd habsent hstored
    · rw [htodo] at hforget; cases hforget

/-- Without a booking the counters have nothing of the request. -/
theorem Good.untouched (ht : r.targetMetadata = none) (key : String) :
    r.added key = 0 ∧ r.subtracted key = 0 := by
  have hraised := h.raised key
  have hle := h.subtracted_le key
  have hdue : r.due key = 0 := by simp [due, share, ht, (h.unbooked ht).1]
  omega

theorem Good.prepare (hid : id ≠ "") (hnew : r.prepared = false) (hpod : r.targetPod = none) (n : ℕ) :
    ({ r with prepared := true, stored := .valid, inputTokenCount := n } : Tracked).Good predictor id := by
  have ht := h.idle hpod
  obtain ⟨hprefill, htodo, httft⟩ := h.unbooked ht
  have hended : r.ended = false := by
    cases hended : r.ended with
    | false => rfl
    | true => rw [h.begun (Or.inl hended)] at hnew; cases hnew
  exact {
    unbooked := h.unbooked
    target := h.target
    raised := fun key => by simp [toRaise, due, share, ht, hprefill, htodo, (h.untouched ht key).1]
    lowered := fun key => by simp [toLower, paid, hended, httft, htodo, (h.untouched ht key).2]
    early := by rintro ⟨a, ha, -⟩; rw [htodo] at ha; cases ha
    noted := fun t ht' => by rw [ht] at ht'; cases ht'
    closed := fun hend => by rw [hended] at hend; cases hend
    gone := fun hne => absurd ht hne
    known := fun _ hne => absurd hpod hne
    named := fun _ => hid
    begun := fun _ => rfl }

theorem Good.preRequest (hpod : r.targetPod = none) (target : String) (prefill : Option String)
    (now : Int) : (r.preRequest predictor id target prefill now).Good predictor id := by
  have ht := h.idle hpod
  obtain ⟨hprefill, htodo, httft⟩ := h.unbooked ht
  unfold Tracked.preRequest
  dsimp only
  split
  · rename_i hskip
    -- the hook returns before it has booked anything
    exact { h with
      target := fun t ht' => by rw [ht] at ht'; cases ht'
      known := fun hvalid _ hpred => by
        rcases hskip with hno | hno | hno
        · exact absurd hpred hno
        · exact absurd hno (h.named fun habsent => by rw [habsent] at hvalid; cases hvalid)
        · exact absurd hvalid hno }
  · rename_i hbook
    have hvalid : r.stored = .valid := by
      by_contra hne
      exact hbook (Or.inr (Or.inr hne))
    have hended : r.ended = false := h.open_ (by simp [hvalid]) htodo
    have hforget : ∀ b : Tracked, forget ∉ b.booking := fun b hmem => early_of_mem_booking hmem
    exact {
      unbooked := fun hnone => by cases hnone
      target := fun t ht' => by cases ht'; rfl
      raised := fun key => by
        rw [(h.untouched ht key).1, zero_add]
        exact sum_raised_booking
      lowered := fun key => by
        rw [(h.untouched ht key).2, zero_add]
        refine sum_lowered_booking.trans ?_
        simp [paid, hended, httft]
      early := fun _ => ⟨httft, hended, suffix_refl _⟩
      noted := fun t ht' _ => by
        cases ht'
        exact Or.inl (mem_append_right _ (by simp))
      closed := fun hend => by rw [hended] at hend; cases hend
      gone := fun _ hgone => hgone.elim (fun habsent => by rw [hvalid] at habsent; cases habsent)
        fun hmem => absurd hmem (hforget _)
      known := fun _ _ _ => nofun
      named := h.named
      begun := h.begun }

/-- The first token: the share of the prefill pod is due back, and the time tells so. -/
theorem Good.firstToken (htodo : r.todo = []) (hvalid : r.stored = .valid)
    (hbooked : r.targetMetadata ≠ none) (httft : r.ttft = 0) {now : Int}
    (hlate : r.prefillTargetMetadata ≠ none → r.elapsed now ≠ 0) :
    ({ r with ttft := r.elapsed now, todo := r.giveBack r.prefillTargetMetadata } : Tracked).Good predictor id := by
  have hended : r.ended = false := h.open_ (by simp [hvalid]) htodo
  have hlate' : ∀ a ∈ r.giveBack r.prefillTargetMetadata, ¬ a.Early := fun a => not_early_of_mem_giveBack
  have hforget : .forget ∉ r.giveBack r.prefillTargetMetadata := by cases r.prefillTargetMetadata <;> simp [giveBack]
  exact { h with
    unbooked := fun hnone => absurd hnone hbooked
    raised := fun key => by
      have hraised := h.raised key
      simp only [toRaise, htodo, map_nil, sum_nil] at hraised
      simp only [toRaise, sum_raised_of_late hlate']
      exact hraised
    lowered := fun key => by
      have hlowered := h.lowered key
      simp only [toLower, htodo, map_nil, sum_nil, paid, hended, httft] at hlowered
      simp only [toLower, sum_lowered_giveBack, paid, hended, share]
      cases hp : r.prefillTargetMetadata with
      | none => simpa using hlowered
      | some k => simpa [hlate (by simp [hp])] using hlowered
    early := fun ⟨a, ha, he⟩ => absurd he (hlate' a ha)
    noted := fun t ht hn => by
      have hnoted := h.noted t ht hn
      rw [htodo] at hnoted
      exact Or.inr (hnoted.resolve_left (by simp))
    closed := fun hend => by rw [hended] at hend; cases hend
    gone := fun _ hgone => hgone.elim (fun habsent => by rw [hvalid] at habsent; cases habsent) fun hmem => absurd hmem hforget }

/-- The end, by the last part of the response or by eviction: the rest is due back. -/
theorem Good.finish (htodo : r.todo = []) (hstored : r.stored ≠ .absent) {ttft : Int}
    {stored : Stored} {todo : List Access} (hlate : ∀ a ∈ todo, ¬ a.Early)
    (hrest : ∀ key, r.paid key + (todo.map (Access.lowered key)).sum = r.due key)
    (hsame : stored = .absent ∨ stored = r.stored) (hclosed : stored = .absent ∨ .forget ∈ todo)
    (hunbooked : r.targetMetadata = none → todo = [] ∧ ttft = 0) :
    ({ r with ttft := ttft, stored := stored, todo := todo, ended := true } : Tracked).Good predictor id where
  unbooked hnone := ⟨(h.unbooked hnone).1, hunbooked hnone⟩
  target := h.target
  raised key := by
    have hraised := h.raised key
    simp only [toRaise, htodo, map_nil, sum_nil] at hraised
    simp only [toRaise, sum_raised_of_late hlate]
    exact hraised
  lowered key := by
    have hlowered := h.lowered key
    simp only [toLower, htodo, map_nil, sum_nil, add_zero] at hlowered
    simp only [toLower, paid, if_true]
    rw [hlowered]
    exact hrest key
  early := fun ⟨a, ha, he⟩ => absurd he (hlate a ha)
  noted t ht hn := by
    have hnoted := h.noted t ht hn
    rw [htodo] at hnoted
    exact Or.inr (hnoted.resolve_left (by simp))
  closed _ := hclosed
  gone _ _ := rfl
  known hvalid hpod hpred := by
    rcases hsame with habsent | hsame
    · cases habsent.symm.trans hvalid
    · exact h.known (hsame.symm.trans hvalid) hpod hpred
  named hne := h.named hstored
  begun _ := h.begun (Or.inr hstored)

theorem Good.responseBody {target : String} (hpod : r.targetPod = some target) (htodo : r.todo = [])
    (streamingMode endOfStream : Bool) (now : Int) (hlate : endOfStream = false → streamingMode = true → r.ttft = 0 →
      r.prefillTargetMetadata ≠ none → r.elapsed now ≠ 0) :
    (r.responseBody predictor streamingMode endOfStream target now).Good predictor id := by
  unfold Tracked.responseBody
  split
  · exact h
  · rename_i hgo
    have hpred : predictor = true := by
      by_contra hne
      exact hgo (Or.inl hne)
    have hvalid : r.stored = .valid := by
      by_contra hne
      exact hgo (Or.inr hne)
    have ht : r.targetMetadata = some target := by
      obtain ⟨t, ht⟩ := Option.ne_none_iff_exists'.1 (h.known hvalid (by simp [hpod]) hpred)
      rw [ht, ← hpod, h.target t ht]
    have hended : r.ended = false := h.open_ (by simp [hvalid]) htodo
    cases endOfStream with
    | false =>
      simp only [Bool.false_eq_true, not_false_eq_true, and_true, if_false]
      split
      · rename_i hfirst
        exact h.firstToken htodo hvalid (by simp [ht]) hfirst.1 (hlate rfl hfirst.2 hfirst.1)
      · exact h
    | true =>
      simp only [not_true_eq_false, and_false, if_false, if_true, htodo, nil_append]
      refine h.finish htodo (by simp [hvalid]) ?_ ?_ (Or.inr rfl) (Or.inr (by simp)) (fun hnone => by simp [ht] at hnone)
      · intro a ha
        simp only [mem_append, mem_singleton] at ha
        rcases ha with (ha | ha) | rfl
        · split at ha
          · exact not_early_of_mem_giveBack ha
          · cases ha
        · exact not_early_of_mem_giveBack ha
        · exact fun he => he
      · intro key
        simp only [map_append, sum_append, sum_lowered_giveBack, map_cons, map_nil, sum_cons,
          sum_nil, Access.lowered, paid, due, hended, ht]
        by_cases httft : r.ttft = 0
        · simp [httft, sum_lowered_giveBack]
        · simp [httft]

theorem Good.expire (hvalid : r.stored = .valid) :
    ({ r with stored := .expired } : Tracked).Good predictor id := by
  have hhere : r.stored ≠ .absent := by simp [hvalid]
  exact { h with
    closed := fun hend => Or.inr ((h.closed hend).resolve_left hhere)
    gone := fun ht hgone => h.gone ht (Or.inr (hgone.resolve_left (by simp)))
    known := fun hvalid => by cases hvalid
    named := fun _ => h.named hhere
    begun := fun _ => h.begun (Or.inr hhere) }

theorem Good.onEviction (hexpired : r.stored = .expired) (htodo : r.todo = []) :
    r.onEviction.Good predictor id := by
  have hended : r.ended = false := h.open_ (by simp [hexpired]) htodo
  unfold Tracked.onEviction
  rw [htodo, nil_append]
  refine h.finish htodo (by simp [hexpired]) ?_ ?_ (Or.inl rfl) (Or.inl rfl) ?_
  · intro a ha
    split at ha
    · rcases mem_append.1 ha with ha | ha
      · split at ha
        · exact not_early_of_mem_giveBack ha
        · cases ha
      · exact not_early_of_mem_giveBack ha
    · cases ha
  · intro key
    split
    · by_cases httft : r.ttft = 0
      · simp [httft, sum_lowered_giveBack, paid, due, hended]
      · simp [httft, sum_lowered_giveBack, paid, due, hended]
    · -- the count noted at dispatch is positive unless there are no tokens
      rename_i hguard
      have hzero : r.due key = 0 := by
        cases ht : r.targetMetadata with
        | none => simp [due, share, ht, (h.unbooked ht).1]
        | some t =>
          have hn : r.inputTokenCount = 0 := by
            by_contra hne
            have hnoted := h.noted t ht (Nat.pos_of_ne_zero hne)
            rw [htodo] at hnoted
            exact hguard (Or.inl (hnoted.resolve_left (by simp)))
          simp [due, share, hn]
      have := paid_le_due r key
      simp only [map_nil, sum_nil]
      omega
  · intro hnone
    obtain ⟨hprefill, -, httft⟩ := h.unbooked hnone
    exact ⟨by simp [hnone, hprefill, giveBack], httft⟩

/-! ## Accesses -/

/-- What an access may change: the sums of what is done and what is to do stay the same. -/
theorem Good.access {rest' : List Access} (htodo : r.todo = a :: rest)
    {added subtracted : String → ℕ} {stored : Stored} {atDispatch onPrefill : Int} {holding : Option ℕ}
    (hraised : ∀ key, added key + (rest'.map (Access.raised key)).sum = r.added key + r.toRaise key)
    (hlowered : ∀ key, subtracted key + (rest'.map (Access.lowered key)).sum = r.subtracted key + r.toLower key)
    (hsuffix : (∃ b ∈ rest', b.Early) → rest' = rest)
    (hnoted : ∀ t, r.targetMetadata = some t → 0 < r.inputTokenCount → .record false t ∈ rest' ∨ 0 < atDispatch)
    (hforget : (stored = .absent ∨ .forget ∈ rest') ↔ (r.stored = .absent ∨ .forget ∈ r.todo))
    (hstored : stored = r.stored ∨ stored = .absent) : ({ r with
      todo := rest', holding := holding, added := added, subtracted := subtracted, stored := stored
      prefillTokensAtDispatch := atDispatch
      prefillTokensAtDispatchOnPrefill := onPrefill } : Tracked).Good predictor id := by
  have hkept : stored ≠ .absent → stored = r.stored := fun hne => hstored.resolve_right hne
  exact {
    unbooked := fun hnone => by
      have hempty := (h.unbooked hnone).2.1
      rw [htodo] at hempty
      cases hempty
    target := h.target
    raised := fun key => (hraised key).trans (h.raised key)
    lowered := fun key => (hlowered key).trans (h.lowered key)
    early := fun ⟨b, hb, he⟩ => by
      have hrest := hsuffix ⟨b, hb, he⟩
      have hin : b ∈ r.todo := by rw [htodo, ← hrest]; exact mem_cons_of_mem a hb
      obtain ⟨httft, hended, hsuff⟩ := h.early ⟨b, hin, he⟩
      rw [htodo, ← hrest] at hsuff
      exact ⟨httft, hended, (suffix_cons a rest').trans hsuff⟩
    noted := hnoted
    closed := fun hend => hforget.2 (h.closed hend)
    gone := fun ht hgone => h.gone ht (hforget.1 hgone)
    known := fun hvalid => h.known ((hkept fun habsent => by cases habsent.symm.trans hvalid).symm.trans hvalid)
    named := fun hne => h.named (by rw [← hkept hne]; exact hne)
    begun := fun hor => h.begun (hor.imp_right fun hne => by rw [← hkept hne]; exact hne) }

/-- What is left of the accesses still notes the count, if the one that is made does not. -/
theorem Good.noted_rest (htodo : r.todo = a :: rest) (ha : ∀ t, a ≠ .record false t)
    (ht : r.targetMetadata = some t) (hn : 0 < r.inputTokenCount) :
    .record false t ∈ rest ∨ 0 < r.prefillTokensAtDispatch := by
  have hnoted := h.noted t ht hn
  rw [htodo] at hnoted
  exact hnoted.imp_left fun hin => (mem_cons.1 hin).resolve_left fun heq => ha t heq.symm

omit h

theorem forget_mem_rest (htodo : r.todo = a :: rest) (ha : a ≠ .forget) :
    (r.stored = .absent ∨ .forget ∈ rest) ↔ (r.stored = .absent ∨ .forget ∈ r.todo) := by
  rw [htodo, mem_cons, or_iff_right ha.symm]

variable (h : r.Good predictor id)
include h

theorem Good.raise {key : String} {n : ℕ} (htodo : r.todo = .raise key n :: rest) :
    ({ r with todo := rest, holding := none, added := bump r.added key n } : Tracked).Good predictor id := by
  refine h.access htodo ?_ ?_ (fun _ => rfl) (fun t => h.noted_rest htodo (by simp)) (forget_mem_rest htodo (by simp))
    (Or.inl rfl)
  · intro k
    simp only [toRaise, htodo, map_cons, sum_cons, Access.raised, bump, eq_comm]
    split <;> omega
  · intro k
    simp only [toLower, htodo, map_cons, sum_cons, Access.lowered, zero_add]

theorem Good.record {onPrefill : Bool} {key : String}
    (htodo : r.todo = .record onPrefill key :: rest) (atDispatch atPrefill : Int)
    (hnoted : ∀ t, r.targetMetadata = some t → 0 < r.inputTokenCount → .record false t ∈ rest ∨ 0 < atDispatch) :
    ({ r with
      todo := rest, holding := none
      prefillTokensAtDispatch := atDispatch
      prefillTokensAtDispatchOnPrefill := atPrefill } : Tracked).Good predictor id := by
  refine h.access htodo ?_ ?_ (fun _ => rfl) hnoted (forget_mem_rest htodo (by simp)) (Or.inl rfl)
  · intro k
    simp only [toRaise, htodo, map_cons, sum_cons, Access.raised, zero_add]
  · intro k
    simp only [toLower, htodo, map_cons, sum_cons, Access.lowered, zero_add]

theorem Good.lower {key : String} {n : ℕ} (htodo : r.todo = .lower key n :: rest)
    (zero : Prop) [Decidable zero] : ({ r with
      todo := if zero then .delete key :: rest else rest
      holding := none
      subtracted := bump r.subtracted key n } : Tracked).Good predictor id := by
  have hsum : ∀ (f : Access → ℕ), f (.delete key) = 0 →
      ((if zero then delete key :: rest else rest).map f).sum = (rest.map f).sum := by
    intro f hf
    split
    · rw [map_cons, sum_cons, hf, zero_add]
    · rfl
  have hmem : ∀ b : Access, b ≠ .delete key → (b ∈ (if zero then delete key :: rest else rest) ↔ b ∈ rest) := by
    intro b hb
    split
    · rw [mem_cons, or_iff_right hb]
    · rfl
  refine h.access htodo ?_ ?_ ?_ ?_ ?_ (Or.inl rfl)
  · intro k
    rw [hsum _ rfl]
    simp only [toRaise, htodo, map_cons, sum_cons, Access.raised, zero_add]
  · intro k
    rw [hsum _ rfl]
    simp only [toLower, htodo, map_cons, sum_cons, Access.lowered, bump, eq_comm]
    split <;> omega
  · -- the accesses of `PreRequest` are over
    rintro ⟨b, hb, he⟩
    have hb' : b ∈ rest := (hmem b (by rintro rfl; exact he)).1 hb
    have hearly := (h.early ⟨b, by rw [htodo]; exact mem_cons_of_mem _ hb', he⟩).2.2
    rw [htodo] at hearly
    exact absurd (early_of_mem_booking (hearly.subset mem_cons_self)) fun he => he
  · intro t ht hn
    rw [hmem _ (by simp)]
    exact h.noted_rest htodo (by simp) ht hn
  · rw [hmem _ (by simp)]
    exact forget_mem_rest htodo (by simp)

theorem Good.delete {key : String} (htodo : r.todo = .delete key :: rest) :
    ({ r with todo := rest } : Tracked).Good predictor id := by
  refine h.access htodo ?_ ?_ (fun _ => rfl) (fun t => h.noted_rest htodo (by simp)) (forget_mem_rest htodo (by simp))
    (Or.inl rfl)
  · intro k
    simp only [toRaise, htodo, map_cons, sum_cons, Access.raised, zero_add]
  · intro k
    simp only [toLower, htodo, map_cons, sum_cons, Access.lowered, zero_add]

theorem Good.forget (htodo : r.todo = .forget :: rest) :
    ({ r with todo := rest, stored := .absent } : Tracked).Good predictor id := by
  refine h.access htodo ?_ ?_ (fun _ => rfl) (fun t => h.noted_rest htodo (by simp)) ?_ (Or.inr rfl)
  · intro k
    simp only [toRaise, htodo, map_cons, sum_cons, Access.raised, zero_add]
  · intro k
    simp only [toLower, htodo, map_cons, sum_cons, Access.lowered, zero_add]
  · simp [htodo]

theorem Good.record_target {key : String} (htodo : r.todo = .record false key :: rest) :
    r.targetMetadata = some key := by
  obtain ⟨-, -, hsuffix⟩ := h.early ⟨.record false key, by rw [htodo]; exact mem_cons_self, trivial⟩
  rw [htodo] at hsuffix
  have hin := hsuffix.subset mem_cons_self
  unfold booking at hin
  cases hp : r.prefillTargetMetadata <;> cases ht : r.targetMetadata <;> simp_all

/-- While the count of the decode pod is being noted, the counter has the tokens of the request. -/
theorem Good.net_at_record (ht : r.targetMetadata = some t)
    (htodo : r.todo = .record false t :: rest) : (r.inputTokenCount : ℤ) ≤ r.net t := by
  obtain ⟨httft, hended, hsuffix⟩ := h.early ⟨.record false t, by rw [htodo]; exact mem_cons_self, trivial⟩
  rw [htodo] at hsuffix
  have hraised := h.raised t
  have hlowered := h.lowered t
  rw [toRaise, htodo, rest_of_record hsuffix] at hraised
  rw [paid, hended, httft] at hlowered
  simp only [map_cons, map_nil, sum_cons, sum_nil, Access.raised, add_zero, due, share, ht,
    if_true, Bool.false_eq_true, if_false] at hraised hlowered
  unfold net
  omega

end Tracked

end InferenceGateway.Predictor
