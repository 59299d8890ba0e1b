import InferenceGateway.Predictor.TokenShares
/-!
# The counters of prefill tokens balance

The counter of a pod is the sum of what the requests have booked on it and not given back.
A hook that has loaded a counter has it in hand until it has used it; the sums hold as
long as no counter is deleted that another hook has in hand or has added to.
-/

namespace InferenceGateway.Predictor

open Lib Tracked CounterMap

namespace TokensInFlight

variable {config : LatencyConfig} {s s' : TokensInFlight}

/-- What a hook has in hand is the counter of the pod that it accesses next. -/
def Holds (m : CounterMap String) (r : Tracked) : Prop :=
  ∀ p, r.holding = some p → ∃ a rest key, r.todo = a :: rest ∧ a.counter = some key ∧ m.pointers.lookup key = some p

variable {r : Tracked} {m : CounterMap String}

theorem Holds.of_none (h : r.holding = none) : Holds m r := by
  intro p hp
  rw [h] at hp
  cases hp

theorem Holds.idle (h : Holds m r) (htodo : r.todo = []) : r.holding = none := by
  cases hp : r.holding with
  | none => rfl
  | some p =>
    obtain ⟨a, rest, key, hne, -⟩ := h p hp
    rw [htodo] at hne
    cases hne

structure Kept (config : LatencyConfig) (s : TokensInFlight) : Prop where
  good : ∀ id r, s.requests.lookup id = some r → r.Good config.predictor id
  holds : ∀ id r, s.requests.lookup id = some r → Holds s.prefillTokensInFlight r
  /-- A counter has what requests have booked and not given back. -/
  total : ∀ key, s.prefillTokensInFlight.value key = Table.total (fun _ r => r.net key) s.requests

theorem Kept.good_get (h : s.Kept config) (id : String) : (s.get id).Good config.predictor id := by
  unfold get
  cases hr : s.requests.lookup id with
  | none => exact good_new
  | some r => exact h.good id r hr

theorem Kept.holds_get (h : s.Kept config) (id : String) : Holds s.prefillTokensInFlight (s.get id) := by
  unfold get
  cases hr : s.requests.lookup id with
  | none => exact .of_none rfl
  | some r => exact h.holds id r hr

theorem total_insert_get (s : TokensInFlight) (id : String) (r : Tracked) (key : String) :
    Table.total (fun _ r => r.net key) (s.requests.insert id r) =
      Table.total (fun _ r => r.net key) s.requests + (r.net key - (s.get id).net key) := by
  unfold get
  cases hr : s.requests.lookup id with
  | none =>
    have hnot : id ∉ s.requests := AList.lookup_eq_none.1 hr
    have hnew : Tracked.new.net key = 0 := rfl
    rw [Table.total_insert_new hnot, Option.getD_none, hnew, sub_zero, add_comm]
  | some r₀ => rw [Table.total_insert_old hr, Option.getD_some]

variable {id : String}

variable (h : s.Kept config)
include h

/-- A step of one request: the others keep what they have in hand. -/
theorem Kept.update (hgood : r.Good config.predictor id) (hholds : Holds m r)
    (hothers : ∀ id' r' p key, s.requests.lookup id' = some r' → r'.holding = some p →
      s.prefillTokensInFlight.pointers.lookup key = some p → m.pointers.lookup key = some p)
    (hvalue : ∀ key, m.value key = s.prefillTokensInFlight.value key + (r.net key - (s.get id).net key)) :
    Kept config ⟨m, s.requests.insert id r⟩ where
  good id' r' hr' := by
    rw [Table.lookup_insert_ite] at hr'
    split at hr'
    · rename_i heq
      cases hr'
      rw [heq]
      exact hgood
    · exact h.good id' r' hr'
  holds id' r' hr' := by
    rw [Table.lookup_insert_ite] at hr'
    split at hr'
    · cases hr'
      exact hholds
    · intro p hp
      obtain ⟨a, rest, key, htodo, hcounter, hlookup⟩ := h.holds id' r' hr' p hp
      exact ⟨a, rest, key, htodo, hcounter, hothers id' r' p key hr' hp hlookup⟩
  total key := by rw [total_insert_get, hvalue, h.total]

/-- A step that leaves the counters alone. -/
theorem Kept.put (hgood : r.Good config.predictor id) (hholds : Holds s.prefillTokensInFlight r)
    (hadded : r.added = (s.get id).added) (hsubtracted : r.subtracted = (s.get id).subtracted) :
    (s.put id r).Kept config := by
  refine h.update hgood hholds (fun _ _ _ _ _ _ hlookup => hlookup) fun key => ?_
  rw [net, net, hadded, hsubtracted, sub_self, add_zero]

theorem Kept.value_ge (id key : String) : (s.get id).net key ≤ s.prefillTokensInFlight.value key := by
  rw [h.total]
  have hnonneg : ∀ id r, s.requests.lookup id = some r → 0 ≤ r.net key := fun id r hr => (h.good id r hr).net_nonneg key
  unfold get
  cases hr : s.requests.lookup id with
  | none => exact Table.total_nonneg hnonneg
  | some r => exact Table.le_total hnonneg hr

variable {a : Access} {rest : List Access}

/-- A hook loads the counter that it needs next. -/
theorem Kept.load {key : String} (htodo : (s.get id).todo = a :: rest)
    (hcounter : a.counter = some key) : Kept config ⟨(s.prefillTokensInFlight.loadOrStore key).2,
      s.requests.insert id { s.get id with holding := some (s.prefillTokensInFlight.loadOrStore key).1 }⟩ := by
  refine h.update ?_ ?_ (fun _ _ _ _ _ _ => lookup_loadOrStore_of_some) fun k => ?_
  · exact { h.good_get id with }
  · intro p hp
    cases hp
    exact ⟨a, rest, key, htodo, hcounter, lookup_loadOrStore _ _⟩
  · rw [value_loadOrStore, net, net, sub_self, add_zero]

theorem Kept.access {p : ℕ} (htodo : (s.get id).todo = a :: rest)
    (hp : ∀ key, a.counter = some key → s.prefillTokensInFlight.pointers.lookup key = some p)
    (hdelete : ∀ key, a = .delete key → s.prefillTokensInFlight.value key = 0 ∧
      ∀ id' r p, s.requests.lookup id' = some r → r.holding = some p →
        s.prefillTokensInFlight.pointers.lookup key ≠ some p) (hnone : a.counter = none → (s.get id).holding = none) :
    (s.access id (s.get id) p rest a).Kept config := by
  have hgood := h.good_get id
  cases a with
  | raise key n =>
    refine h.update (hgood.raise htodo) (.of_none rfl) (fun _ _ _ _ _ _ hlookup => hlookup) fun k => ?_
    rw [value_add (hp key rfl)]
    simp only [net, bump]
    split
    · push_cast; ring
    · ring
  | record onPrefill key =>
    cases onPrefill with
    | true => exact h.put (hgood.record htodo _ _ fun t => hgood.noted_rest htodo (by simp)) (.of_none rfl) rfl rfl
    | false =>
      refine h.put (hgood.record htodo _ _ fun t ht hn => Or.inr ?_) (.of_none rfl) rfl rfl
      have hkey : key = t := Option.some.inj ((hgood.record_target htodo).symm.trans ht)
      subst hkey
      have hnet := hgood.net_at_record ht htodo
      have hvalue := h.value_ge id key
      rw [load_eq_value (hp key rfl)]
      omega
  | lower key n =>
    refine h.update (hgood.lower htodo _) (.of_none rfl) (fun _ _ _ _ _ _ hlookup => hlookup) fun k => ?_
    rw [value_add (hp key rfl)]
    simp only [net, bump]
    split
    · push_cast; ring
    · ring
  | delete key =>
    obtain ⟨hzero, hfree⟩ := hdelete key rfl
    refine h.update (hgood.delete htodo) (.of_none (hnone rfl)) ?_ fun k => ?_
    · intro id' r' p' k hr' hp' hlookup
      rw [lookup_delete, if_neg]
      · exact hlookup
      · rintro rfl
        exact hfree id' r' p' hr' hp' hlookup
    · rw [value_delete, net, net, sub_self, add_zero]
      split
      · rename_i hk
        rw [hk, hzero]
      · rfl
  | forget => exact h.put (hgood.forget htodo) (.of_none (hnone rfl)) rfl rfl

theorem Kept.advance (htodo : (s.get id).todo = a :: rest)
    (hdelete : ∀ key, a = .delete key → s.prefillTokensInFlight.value key = 0 ∧
      ∀ id' r p, s.requests.lookup id' = some r → r.holding = some p →
        s.prefillTokensInFlight.pointers.lookup key ≠ some p) : (s.advance id (s.get id) a rest).Kept config := by
  -- what is in hand is the counter of the head, so that the head has one
  have hhead : ∀ p, (s.get id).holding = some p →
      ∃ key, a.counter = some key ∧ s.prefillTokensInFlight.pointers.lookup key = some p := by
    intro p hp
    obtain ⟨a', rest', key, heq, hcounter, hlookup⟩ := h.holds_get id p hp
    rw [htodo] at heq
    cases heq
    exact ⟨key, hcounter, hlookup⟩
  unfold TokensInFlight.advance
  cases hcounter : a.counter with
  | none =>
    have hnone : (s.get id).holding = none := by
      cases hp : (s.get id).holding with
      | none => rfl
      | some p =>
        obtain ⟨key, hkey, -⟩ := hhead p hp
        rw [hcounter] at hkey
        cases hkey
    exact h.access htodo (fun key hkey => by rw [hcounter] at hkey; cases hkey) hdelete fun _ => hnone
  | some key =>
    cases hp : (s.get id).holding with
    | none => exact h.load htodo hcounter
    | some p =>
      obtain ⟨key', hkey', hlookup⟩ := hhead p hp
      refine h.access htodo ?_ hdelete fun hno => by rw [hcounter] at hno; cases hno
      intro k hk
      rw [hkey'] at hk
      cases hk
      exact hlookup

theorem Kept.step {op : Op} (hcond : s.Cond config op) (hstep : s.step config op = .ok s') :
    s'.Kept config := by
  cases op with
  | prepare id n =>
    simp only [TokensInFlight.step] at hstep
    split at hstep
    · cases hstep
    · rename_i hcan
      cases hstep
      have hid : id ≠ "" := fun heq => hcan (Or.inl heq)
      have hnew : (s.get id).prepared = false := by simpa using fun heq => hcan (Or.inr heq)
      have htodo := ((h.good_get id).unbooked ((h.good_get id).idle hcond)).2.1
      exact h.put ((h.good_get id).prepare hid hnew hcond n) (.of_none ((h.holds_get id).idle htodo)) rfl rfl
  | preRequest id target prefill now =>
    simp only [TokensInFlight.step] at hstep
    split at hstep
    · cases hstep
    · rename_i hfirst
      cases hstep
      have hpod : (s.get id).targetPod = none := by simpa using hfirst
      have htodo := ((h.good_get id).unbooked ((h.good_get id).idle hpod)).2.1
      have hidle := (h.holds_get id).idle htodo
      refine h.put ((h.good_get id).preRequest hpod target prefill now) (.of_none ?_) ?_ ?_
      all_goals
        unfold preRequest
        dsimp only
        split <;> first | exact hidle | rfl
  | responseBody id endOfStream now =>
    simp only [TokensInFlight.step] at hstep
    split at hstep
    · rename_i target hpod htodo
      cases hstep
      have hidle := (h.holds_get id).idle htodo
      refine h.put ((h.good_get id).responseBody hpod htodo _ _ now ?_) (.of_none ?_) ?_ ?_
      · rintro rfl
        exact hcond
      all_goals
        unfold responseBody
        dsimp only
        split
        · first | exact hidle | rfl
        · split <;> split <;> first | exact hidle | rfl
    · cases hstep
  | expire id =>
    simp only [TokensInFlight.step] at hstep
    split at hstep
    · rename_i hvalid
      cases hstep
      exact h.put ((h.good_get id).expire hvalid) (h.holds_get id) rfl rfl
    · cases hstep
  | evict id =>
    simp only [TokensInFlight.step] at hstep
    split at hstep
    · rename_i hexpired
      cases hstep
      exact h.put ((h.good_get id).onEviction hexpired hcond) (.of_none ((h.holds_get id).idle hcond)) rfl rfl
    · cases hstep
  | advance id =>
    simp only [TokensInFlight.step] at hstep
    split at hstep
    · cases hstep
    · rename_i a rest htodo
      cases hstep
      refine h.advance htodo fun key ha => ?_
      obtain ⟨hzero, hfree⟩ := hcond key (by simp [deleting, htodo, ha])
      exact ⟨hzero, fun id' r p hr hp => hfree ⟨id', r⟩ (Table.lookup_mem_entries.2 hr) p hp⟩

omit h

theorem kept_new : Kept config new where
  good _ _ h := by cases h
  holds _ _ h := by cases h
  total _ := rfl

/-! ## Every run -/

def advances (n : ℕ) : List Op := List.replicate n (.advance "r1")

/-- A request of five tokens, with its accesses; the parts of its response come at the given times. -/
def oneRequest (first second : Int) : List Op :=
  [[.prepare "r1" 5, .preRequest "r1" "d" (some "p") 0], advances 8, [.responseBody "r1" false first], advances 3,
    [.responseBody "r1" false second]].flatten

/-- When the first token comes within the millisecond, the next part of the response takes the
tokens of the prefill pod away once more. -/
theorem given_back_twice : ∃ s : TokensInFlight, Runs (fun s op => s.step ⟨true, true⟩ op) (fun _ _ => True) new s ∧
    (s.get "r1").added "p" = 5 ∧ (s.get "r1").subtracted "p" = 10 ∧ s.prefillTokensInFlight.value "p" = -5 :=
  exists_runs (oneRequest 100000 200000 ++ advances 2) _ (by decide +kernel) fun _ _ h => h

/-- In every run whose steps meet the condition: for each request no more is taken from a counter
than was added, and as much when the request is finished; a counter has what is left of
all requests, and is zero when all are finished. -/
theorem prefill_tokens_balanced {s : TokensInFlight} (hrun : Runs (fun s op => s.step config op) (Cond · config) new s) :
    (∀ id r, s.requests.lookup id = some r → ∀ key, r.subtracted key ≤ r.added key ∧
      (Finished r → r.subtracted key = r.added key)) ∧
    (∀ key, s.prefillTokensInFlight.value key =
      Table.total (fun _ r => (r.added key : ℤ) - r.subtracted key) s.requests) ∧
    ((∀ id r, s.requests.lookup id = some r → Finished r) → ∀ key, s.prefillTokensInFlight.value key = 0) := by
  have h : s.Kept config := Runs.invariant (Kept config) (fun _ _ _ h hC hstep => h.step hC hstep) kept_new hrun
  refine ⟨fun id r hr key => ⟨(h.good id r hr).subtracted_le key, fun hfin => (h.good id r hr).finished hfin key⟩,
    h.total, fun hall key => ?_⟩
  have hzero : ∀ id r, s.requests.lookup id = some r → r.net key = 0 := by
    intro id r hr
    rw [net, (h.good id r hr).finished (hall id r hr) key, sub_self]
  rw [h.total, Table.total_congr hzero]
  simp [Table.total]

/-- A first token after two milliseconds, and the end of the stream. -/
theorem prefill_tokens_balanced_one : ∃ s : TokensInFlight,
    Runs (fun s op => s.step ⟨true, true⟩ op) (Cond · ⟨true, true⟩) new s ∧
    (s.get "r1").added "p" = 5 ∧ (s.get "r1").stored = .absent ∧
    ((∀ id r, s.requests.lookup id = some r → Finished r) → ∀ key, s.prefillTokensInFlight.value key = 0) :=
  exists_runs (oneRequest 2000000 3000000 ++ .responseBody "r1" true 4000000 :: advances 4)
    (fun s => (s.get "r1").added "p" = 5 ∧ (s.get "r1").stored = .absent) (by decide +kernel)
    fun s hrun hs => ⟨hs.1, hs.2, (prefill_tokens_balanced hrun).2.2⟩

end TokensInFlight

end InferenceGateway.Predictor
