import InferenceGateway.Handlers.RequestContext
import InferenceGateway.Parsers.Json
/-!
# Candidates for a request, with and without a cache

The two `Locate`s of `candidates.go`. The metadata of a request may list the endpoints it
is to be served by. The one lookup keeps the endpoints with a listed address; the other
keeps its answers under a key made of the list. The key is a text that different lists
may share: it stands for the list if no entry has the separator in it and the entries do
not spell one of the reserved keys.
-/

namespace InferenceGateway.RequestControl

open Lib Parsers Handlers List

variable {F : Type}

structure Endpoint where
  name : String
  metadata : Option EndpointMetadata
deriving DecidableEq, Repr

def subsetFilterNamespace : String := "envoy.lb.subset_hint"

def subsetFilterKey : String := "x-gateway-destination-endpoint-subset"

/-- Metadata is a map, or `nil`. -/
abbrev Metadata (F : Type) := Option (List (String × Any F))

/-- The list in the metadata, where there is one. -/
def endpointSubsetList (requestMetadata : Metadata F) : Option (List (Any F)) :=
  match requestMetadata with
  | none => none
  | some m =>
    match Any.get m subsetFilterNamespace with
    | .map subsetMap =>
      match Any.get subsetMap subsetFilterKey with
      | .arr list => some list
      | _ => none
    | _ => none

/-- The strings in a list; anything else is ignored. -/
def stringsOf (list : List (Any F)) : List String :=
  list.filterMap fun
    | .str s => some s
    | _ => none

/-- What is before the last colon. -/
def addressOf (endpoint : String) : String :=
  match endpoint.toList.reverse.dropWhile (· ≠ ':') with
  | [] => endpoint
  | _ :: rest => String.ofList rest.reverse

/-! ## The lookup -/

structure DatastoreEndpointCandidates where
  disableEndpointSubsetFilter : Bool

/-- `pods` are the endpoints of the datastore, in the order in which they are visited. -/
def DatastoreEndpointCandidates.locate (d : DatastoreEndpointCandidates) (pods : List Endpoint) (requestMetadata : Metadata F) :
    List Endpoint :=
  if d.disableEndpointSubsetFilter then pods
  else
    match endpointSubsetList requestMetadata with
    | none => pods
    | some [] => []
    | some list => pods.filter fun ep => ep.metadata.any fun pod => pod.address ∈ (stringsOf list).map addressOf

/-! ## The cache -/

def defaultCacheTTL : Int := 50000000

def defaultCacheKey : String := "__default__"

def emptySubsetCacheKey : String := "__explicit_empty__"

def generateCacheKey (reqMetadata : Metadata F) : String :=
  match endpointSubsetList reqMetadata with
  | none => defaultCacheKey
  | some [] => emptySubsetCacheKey
  | some [.str s] => s
  | some [_] => defaultCacheKey
  | some list => "|".intercalate ((stringsOf list).insertionSort (· ≤ ·))

structure CacheEntry where
  pods : List Endpoint
  expiry : Int

structure CachedEndpointCandidates where
  delegate : DatastoreEndpointCandidates
  ttl : Int
  cache : Table String CacheEntry

/-- A call of `Locate`: the times at which it reads the clock, and the order in which the
datastore shows its endpoints if it is asked. -/
structure Lookup (F : Type) where
  requestMetadata : Metadata F
  started : Int
  locked : Int
  fetched : Int
  order : List Endpoint

namespace CachedEndpointCandidates

def new (delegate : DatastoreEndpointCandidates) (ttl : Int) : CachedEndpointCandidates :=
  ⟨delegate, if ttl ≤ 0 then defaultCacheTTL else ttl, ∅⟩

variable (c : CachedEndpointCandidates)

/-- An entry that has not expired. -/
def fresh (key : String) (now : Int) : Option (List Endpoint) :=
  ((c.cache.lookup key).filter fun entry => now < entry.expiry).map CacheEntry.pods

/-- The slow path, under the lock: the entry is looked up once more. -/
def refresh (l : Lookup F) : CachedEndpointCandidates × List Endpoint :=
  let key := generateCacheKey l.requestMetadata
  match c.fresh key l.locked with
  | some pods => (c, pods)
  | none =>
    let freshPods := c.delegate.locate l.order l.requestMetadata
    ({ c with cache := c.cache.insert key ⟨freshPods, l.fetched + c.ttl⟩ }, freshPods)

def locate (l : Lookup F) : CachedEndpointCandidates × List Endpoint :=
  match c.fresh (generateCacheKey l.requestMetadata) l.started with
  | some pods => (c, pods)
  | none => c.refresh l

/-- `cleanup`: what has expired is deleted. -/
def cleanup (now : Int) : CachedEndpointCandidates :=
  { c with cache := Table.filterMapVals (fun _ entry => if entry.expiry < now then none else some entry) c.cache }

end CachedEndpointCandidates

/-! ## What a key stands for -/

/-- One entry that is not a string. -/
def isLoneOther : List (Any F) → Bool
  | [.str _] => false
  | [_] => true
  | _ => false

/-- The list can be told from its key. -/
def PlainList (list : List (Any F)) : Prop :=
  isLoneOther list = false ∧ (∀ s ∈ stringsOf list, '|' ∉ s.toList) ∧
    stringsOf list ∉ [[defaultCacheKey], [emptySubsetCacheKey], [""]]

instance (list : List (Any F)) : Decidable (PlainList list) := inferInstanceAs (Decidable (_ ∧ _ ∧ _))

/-- There is no list to go by, or it can be told from its key. -/
def DatastoreEndpointCandidates.Plain (d : DatastoreEndpointCandidates) (requestMetadata : Metadata F) : Prop :=
  d.disableEndpointSubsetFilter = true ∨ ∀ list ∈ endpointSubsetList requestMetadata, PlainList list

instance (d : DatastoreEndpointCandidates) (requestMetadata : Metadata F) : Decidable (d.Plain requestMetadata) :=
  inferInstanceAs (Decidable (_ ∨ _))

/-- The strings a key is put together from. -/
def keyParts (requestMetadata : Metadata F) : List String :=
  match endpointSubsetList requestMetadata with
  | none => [defaultCacheKey]
  | some [] => [emptySubsetCacheKey]
  | some list => (stringsOf list).insertionSort (· ≤ ·)

variable {parts : List String}

variable (hsep : ∀ s ∈ parts, '|' ∉ s.toList)
include hsep

theorem split_join (hparts : parts ≠ []) :
    ("|".intercalate parts).toList.splitOn '|' = parts.map String.toList := by
  rw [String.toList_intercalate]
  refine splitOn_intercalate '|' ?_ (by simpa using hparts)
  rintro _ hmem
  obtain ⟨s, hs, rfl⟩ := List.mem_map.1 hmem
  exact hsep s hs

/-- Only the one empty string is joined to the empty one. -/
theorem join_eq_empty (hempty : parts ≠ [""]) (h : "|".intercalate parts = "") :
    parts = [] := by
  by_contra hparts
  have hsplit := split_join hsep hparts
  rw [h] at hsplit
  refine hempty (map_injective_iff.2 (fun _ _ => String.toList_injective) ?_)
  rw [← hsplit]
  rfl

theorem join_inj {parts' : List String} (hsep' : ∀ s ∈ parts', '|' ∉ s.toList)
    (hempty : parts ≠ [""]) (hempty' : parts' ≠ [""]) (h : "|".intercalate parts = "|".intercalate parts') :
    parts = parts' := by
  by_cases hparts : parts = []
  · subst hparts
    exact (join_eq_empty hsep' hempty' h.symm).symm
  · by_cases hparts' : parts' = []
    · subst hparts'
      exact join_eq_empty hsep hempty h
    · refine map_injective_iff.2 (fun _ _ => String.toList_injective) ?_
      rw [← split_join hsep hparts, ← split_join hsep' hparts', h]

omit hsep

theorem insertionSort_eq_singleton {strings : List String} {s : String} (h : strings.insertionSort (· ≤ ·) = [s]) :
    strings = [s] := by
  have hperm := perm_insertionSort (· ≤ ·) strings
  rw [h] at hperm
  exact (perm_singleton.1 hperm.symm)

variable {m : Metadata F}

theorem generateCacheKey_eq (h : ∀ list ∈ endpointSubsetList m, PlainList list) :
    generateCacheKey m = "|".intercalate (keyParts m) := by
  unfold generateCacheKey keyParts
  cases hlist : endpointSubsetList m with
  | none => rfl
  | some list =>
    obtain ⟨hother, -, -⟩ := h list hlist
    rcases list with - | ⟨x, - | ⟨y, rest⟩⟩
    · rfl
    · cases x with
      | str s => simp [stringsOf]
      | _ => cases hother
    · cases x <;> rfl

theorem PlainList.sorted_ne {list : List (Any F)} (h : PlainList list) :
    (stringsOf list).insertionSort (· ≤ ·) ∉ [[defaultCacheKey], [emptySubsetCacheKey], [""]] := by
  intro hmem
  obtain ⟨s, hs⟩ : ∃ s, (stringsOf list).insertionSort (· ≤ ·) = [s] := by
    simp only [mem_cons, not_mem_nil, or_false] at hmem
    rcases hmem with hs | hs | hs <;> exact ⟨_, hs⟩
  rw [hs, ← insertionSort_eq_singleton hs] at hmem
  exact h.2.2 hmem

theorem keyParts_plain (h : ∀ list ∈ endpointSubsetList m, PlainList list) :
    (∀ s ∈ keyParts m, '|' ∉ s.toList) ∧ keyParts m ≠ [""] := by
  unfold keyParts
  split
  · decide
  · decide
  · rename_i list _ hlist
    refine ⟨fun s hs => (h list hlist).2.1 s ((mem_insertionSort _).1 hs), fun hempty => (h list hlist).sorted_ne ?_⟩
    rw [hempty]
    decide

/-- The reserved keys stand for what they are reserved for. -/
theorem keyParts_reserved (h : ∀ list ∈ endpointSubsetList m, PlainList list) :
    (keyParts m = [defaultCacheKey] ↔ endpointSubsetList m = none) ∧
      (keyParts m = [emptySubsetCacheKey] ↔ endpointSubsetList m = some []) := by
  unfold keyParts
  split
  · rename_i hlist
    simp [hlist, defaultCacheKey, emptySubsetCacheKey]
  · rename_i hlist
    simp [hlist, defaultCacheKey, emptySubsetCacheKey]
  · rename_i list hne hlist
    have hsorted := (h list hlist).sorted_ne
    simp only [mem_cons, not_or] at hsorted
    have hcons : list ≠ [] := by
      rintro rfl
      exact hne rfl
    simp [hsorted.1, hsorted.2.1, hlist, hcons]

/-- Lists that can be told from their keys select the same if they have the same key. -/
theorem DatastoreEndpointCandidates.locate_of_key {d : DatastoreEndpointCandidates} {m' : Metadata F} (hm : d.Plain m)
    (hm' : d.Plain m') (hkey : generateCacheKey m = generateCacheKey m') (pods : List Endpoint) :
    d.locate pods m = d.locate pods m' := by
  by_cases hdisabled : d.disableEndpointSubsetFilter = true
  · simp only [locate, if_pos hdisabled]
  · have hplain := hm.resolve_left hdisabled
    have hplain' := hm'.resolve_left hdisabled
    have hparts : keyParts m = keyParts m' := by
      rw [generateCacheKey_eq hplain, generateCacheKey_eq hplain'] at hkey
      exact join_inj (keyParts_plain hplain).1 (keyParts_plain hplain').1 (keyParts_plain hplain).2 (keyParts_plain hplain').2 hkey
    have hnone : endpointSubsetList m = none ↔ endpointSubsetList m' = none := by
      rw [← (keyParts_reserved hplain).1, hparts, (keyParts_reserved hplain').1]
    have hnil : endpointSubsetList m = some [] ↔ endpointSubsetList m' = some [] := by
      rw [← (keyParts_reserved hplain).2, hparts, (keyParts_reserved hplain').2]
    simp only [locate, if_neg hdisabled]
    match hlist : endpointSubsetList m, hlist' : endpointSubsetList m' with
    | none, none => rfl
    | some [], some [] => rfl
    | none, some _ => simp [hlist, hlist'] at hnone
    | some _, none => simp [hlist, hlist'] at hnone
    | some [], some (_ :: _) => simp [hlist, hlist'] at hnil
    | some (_ :: _), some [] => simp [hlist, hlist'] at hnil
    | some (x :: xs), some (y :: ys) =>
      unfold keyParts at hparts
      simp only [hlist, hlist'] at hparts
      have hstrings : (stringsOf (x :: xs)).Perm (stringsOf (y :: ys)) :=
        (perm_insertionSort (· ≤ ·) _).symm.trans (hparts ▸ perm_insertionSort (· ≤ ·) _)
      simp only [(hstrings.map addressOf).mem_iff]

end InferenceGateway.RequestControl
