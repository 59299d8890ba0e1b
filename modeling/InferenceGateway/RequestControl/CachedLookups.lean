import InferenceGateway.Lib.Runs
import InferenceGateway.RequestControl.Candidates
/-!
# Lookups through the cache

Against a datastore that does not change, the cache holds for every key what each lookup
with that key would find, if the lists that are looked up can be told from their keys.
The datastore shows its endpoints in any order, so that answers are compared without it.
-/

namespace InferenceGateway.RequestControl

open Lib Parsers Handlers

variable {F : Type}

theorem DatastoreEndpointCandidates.locate_perm (d : DatastoreEndpointCandidates) {order pods : List Endpoint}
    (h : order.Perm pods) (m : Metadata F) : (d.locate order m).Perm (d.locate pods m) := by
  unfold locate
  split
  · exact h
  · split
    · exact h
    · exact .refl _
    · exact h.filter _

/-- What happens to the cache under its lock. A lookup that has missed may find the lock
taken, so that others are served before it looks again. -/
inductive CacheStep (F : Type) where
  | locate (l : Lookup F)
  | refresh (l : Lookup F)
  | cleanup (now : Int)

namespace CachedEndpointCandidates

def step (c : CachedEndpointCandidates) : CacheStep F → Except Empty CachedEndpointCandidates
  | .locate l => .ok (c.locate l).1
  | .refresh l => .ok (c.refresh l).1
  | .cleanup now => .ok (c.cleanup now)

/-- The datastore has these endpoints whenever it is asked, and it is asked for lists that
can be told from their keys. -/
def Usual (pods : List Endpoint) (c : CachedEndpointCandidates) : CacheStep F → Prop
  | .locate l | .refresh l => c.delegate.Plain l.requestMetadata ∧ l.order.Perm pods
  | .cleanup _ => True

instance (pods : List Endpoint) (c : CachedEndpointCandidates) (op : CacheStep F) : Decidable (Usual pods c op) :=
  match op with
  | .locate _ | .refresh _ => inferInstanceAs (Decidable (_ ∧ _))
  | .cleanup _ => inferInstanceAs (Decidable True)

/-- Every entry holds what the lookup would give. -/
structure Faithful (F : Type) (d : DatastoreEndpointCandidates) (pods : List Endpoint) (c : CachedEndpointCandidates) : Prop where
  delegate : c.delegate = d
  entries : ∀ (m : Metadata F) (entry : CacheEntry), d.Plain m → c.cache.lookup (generateCacheKey m) = some entry →
    entry.pods.Perm (d.locate pods m)

variable {d : DatastoreEndpointCandidates} {pods : List Endpoint} {c : CachedEndpointCandidates} {l : Lookup F}

variable (h : Faithful F d pods c)
include h

theorem Faithful.fresh {m : Metadata F} (hm : d.Plain m) {now : Int} {found : List Endpoint}
    (hfound : c.fresh (generateCacheKey m) now = some found) : found.Perm (d.locate pods m) := by
  obtain ⟨entry, hentry, rfl⟩ := Option.map_eq_some_iff.1 hfound
  exact h.entries m entry hm (Option.filter_eq_some_iff.1 hentry).1

theorem Faithful.refresh (hl : d.Plain l.requestMetadata) (horder : l.order.Perm pods) :
    Faithful F d pods (c.refresh l).1 ∧ (c.refresh l).2.Perm (d.locate pods l.requestMetadata) := by
  unfold CachedEndpointCandidates.refresh
  dsimp only
  split
  · rename_i found hfound
    exact ⟨h, h.fresh hl hfound⟩
  · rw [h.delegate]
    have hfetched : (d.locate l.order l.requestMetadata).Perm (d.locate pods l.requestMetadata) := d.locate_perm horder _
    refine ⟨⟨rfl, fun m entry hm hentry => ?_⟩, hfetched⟩
    by_cases hkey : generateCacheKey m = generateCacheKey l.requestMetadata
    · rw [hkey, AList.lookup_insert] at hentry
      cases hentry
      rw [d.locate_of_key hm hl hkey]
      exact hfetched
    · rw [AList.lookup_insert_ne hkey] at hentry
      exact h.entries m entry hm hentry

theorem Faithful.locate (hl : d.Plain l.requestMetadata) (horder : l.order.Perm pods) :
    Faithful F d pods (c.locate l).1 ∧ (c.locate l).2.Perm (d.locate pods l.requestMetadata) := by
  unfold CachedEndpointCandidates.locate
  split
  · rename_i found hfound
    exact ⟨h, h.fresh hl hfound⟩
  · exact h.refresh hl horder

theorem Faithful.cleanup (now : Int) : Faithful F d pods (c.cleanup now) := by
  refine ⟨h.delegate, fun m entry hm hentry => ?_⟩
  rw [CachedEndpointCandidates.cleanup, Table.lookup_filterMapVals] at hentry
  obtain ⟨old, hold, hkept⟩ := Option.bind_eq_some_iff.1 hentry
  split at hkept
  · cases hkept
  · cases hkept
    exact h.entries m _ hm hold

theorem Faithful.step {op : CacheStep F} (hop : Usual pods c op) {c' : CachedEndpointCandidates}
    (hstep : c.step op = .ok c') : Faithful F d pods c' := by
  cases op with
  | locate l =>
    cases hstep
    exact (h.locate (h.delegate ▸ hop.1) hop.2).1
  | refresh l =>
    cases hstep
    exact (h.refresh (h.delegate ▸ hop.1) hop.2).1
  | cleanup now =>
    cases hstep
    exact h.cleanup now

omit h

theorem new_faithful (d : DatastoreEndpointCandidates) (ttl : Int) (pods : List Endpoint) : Faithful F d pods (new d ttl) :=
  ⟨rfl, fun _ _ _ hentry => by cases hentry⟩

/-- Whatever was looked up before, a lookup gives what it would without the cache. -/
theorem cached_lookups_agree (d : DatastoreEndpointCandidates) (ttl : Int) (pods : List Endpoint)
    {c : CachedEndpointCandidates} (h : Runs step (Usual (F := F) pods) (new d ttl) c) :
    (∀ m m' : Metadata F, d.Plain m → d.Plain m' → generateCacheKey m = generateCacheKey m' →
      d.locate pods m = d.locate pods m') ∧
    ∀ l : Lookup F, d.Plain l.requestMetadata → l.order.Perm pods →
      (c.locate l).2.Perm (d.locate pods l.requestMetadata) ∧ (c.refresh l).2.Perm (d.locate pods l.requestMetadata) := by
  have hfaithful : Faithful F d pods c :=
    Runs.invariant (Faithful F d pods) (fun _ _ _ hc hop hstep => hc.step hop hstep) (new_faithful d ttl pods) h
  refine ⟨fun m m' hm hm' hkey => d.locate_of_key hm hm' hkey pods, fun l hl horder => ?_⟩
  exact ⟨(hfaithful.locate hl horder).2, (hfaithful.refresh hl horder).2⟩

/-- Metadata that lists these entries. -/
def listing (entries : List (Any Unit)) : Metadata Unit :=
  some [(subsetFilterNamespace, .map [(subsetFilterKey, .arr entries)])]

def twoPods : List Endpoint := [⟨"p", some ⟨"10.0.0.1", "80"⟩⟩, ⟨"q", some ⟨"10.0.0.2", "80"⟩⟩]

/-- A lookup at this time, the endpoints shown in their order. -/
def lookupAt (now : Int) (m : Metadata Unit) : Lookup Unit := ⟨m, now, now, now, twoPods⟩

/-- Two lists of the same endpoints, one after the other. -/
theorem cached_lookups_agree_two : ∃ c : CachedEndpointCandidates,
    (c.locate (lookupAt 1 (listing [.str "10.0.0.2:80", .nil, .str "10.0.0.3:80"]))).2.Perm [⟨"q", some ⟨"10.0.0.2", "80"⟩⟩] ∧
      (c.fresh "10.0.0.2:80|10.0.0.3:80" 1).isSome = true := by
  obtain ⟨c, hrun, hfresh⟩ : ∃ c, Runs step (Usual twoPods) (new ⟨false⟩ 0) c ∧
      (c.fresh "10.0.0.2:80|10.0.0.3:80" 1).isSome = true :=
    exists_runs [.locate (lookupAt 0 (listing [.str "10.0.0.3:80", .str "10.0.0.2:80"]))] _ (by decide +kernel) fun _ _ h => h
  refine ⟨c, ?_, hfresh⟩
  exact ((cached_lookups_agree ⟨false⟩ 0 twoPods hrun).2 (lookupAt 1 (listing [.str "10.0.0.2:80", .nil, .str "10.0.0.3:80"]))
    (by decide +kernel) (.refl _)).1

/-- A list that is not one of strings has the key of no list at all, and two addresses in
one entry that of two entries. -/
theorem cached_lookups_differ :
    let d : DatastoreEndpointCandidates := ⟨false⟩
    let joined := [Any.str "10.0.0.1|10.0.0.2"]
    let parted := [Any.str "10.0.0.1", .str "10.0.0.2"]
    generateCacheKey (listing [.nil]) = generateCacheKey (none : Metadata Unit) ∧
      d.locate twoPods (listing [.nil]) = [] ∧ d.locate twoPods (none : Metadata Unit) = twoPods ∧
      (((new d 0).locate (lookupAt 0 none)).1.locate (lookupAt 1 (listing [.nil]))).2 = twoPods ∧
      generateCacheKey (listing joined) = generateCacheKey (listing parted) ∧
      d.locate twoPods (listing joined) = [] ∧ d.locate twoPods (listing parted) = twoPods ∧
      (((new d 0).locate (lookupAt 0 (listing parted))).1.locate (lookupAt 1 (listing joined))).2 = twoPods := by
  decide +kernel

end CachedEndpointCandidates

end InferenceGateway.RequestControl
