import InferenceGateway.Lib.Lru
import InferenceGateway.Lib.Panics
import InferenceGateway.Lib.Table
/-!
# The index of cached prefixes

`indexer.go`. For every server an LRU cache holds the blocks it is thought to have; the
other way round, the servers of every block are kept in a map, which the caches keep up
to date when they evict a block. A cache that could not be made is a `nil` pointer. The
library of caches is a parameter.
-/

namespace InferenceGateway.ApproximatePrefix

open Lib List AList

abbrev BlockHash := UInt64

structure ServerID where
  namespace_ : String
  name : String
deriving DecidableEq

structure Server where
  serverID : ServerID
  numOfGPUBlocks : Int

abbrev PodsByHash := Table BlockHash (Finset ServerID)

structure Indexer (C : Type) where
  hashToPods : PodsByHash
  podToLRU : Table ServerID (Option C)
  defaultLRUSize : Int

variable {C : Type}

/-- What a cache does for a block it evicts. -/
def evict (pod : ServerID) (hashToPods : PodsByHash) (hash : BlockHash) : PodsByHash :=
  match hashToPods.lookup hash with
  | some podSet =>
    if podSet.erase pod = ∅ then hashToPods.erase hash else hashToPods.insert hash (podSet.erase pod)
  | none => hashToPods

/-- A change of a cache, and the callback for what goes. -/
def withEviction (change : C → BlockHash → C × Option BlockHash) (pod : ServerID) (s : C × PodsByHash) (hash : BlockHash) :
    C × PodsByHash :=
  match change s.1 hash with
  | (lru, some evicted) => (lru, evict pod s.2 evicted)
  | (lru, none) => (lru, s.2)

/-- One turn of the first loop of `Add`. -/
abbrev load (lib : LruLibrary C BlockHash) := withEviction lib.add

/-- One turn of the second loop of `Add`. -/
def list (pod : ServerID) (hashToPods : PodsByHash) (hash : BlockHash) : PodsByHash :=
  hashToPods.insert hash (insert pod ((hashToPods.lookup hash).getD ∅))

/-- One turn of the loop of `RemovePod`. -/
abbrev unload (lib : LruLibrary C BlockHash) := withEviction lib.remove

namespace Indexer

def new (defaultLRUSize : Int) : Indexer C := ⟨∅, ∅, defaultLRUSize⟩

variable (lib : LruLibrary C BlockHash) (i : Indexer C)

/-- The cache of a server, which is made if there is none. -/
def lruForPod (pod : Server) : Option C :=
  (i.podToLRU.lookup pod.serverID).getD (lib.new (if pod.numOfGPUBlocks ≤ 0 then i.defaultLRUSize else pod.numOfGPUBlocks))

def add (hashes : List BlockHash) (pod : Server) : Except Panic (Indexer C) :=
  match i.lruForPod lib pod, hashes with
  | none, [] => .ok { i with podToLRU := i.podToLRU.insert pod.serverID none }
  | none, _ :: _ => .error .nilDereference
  | some lru, hashes =>
    let s := hashes.foldl (load lib pod.serverID) (lru, i.hashToPods)
    .ok { i with
      hashToPods := hashes.foldl (list pod.serverID) s.2
      podToLRU := i.podToLRU.insert pod.serverID (some s.1) }

/-- `nil` is the empty set. -/
def get (hash : BlockHash) : Finset ServerID := (i.hashToPods.lookup hash).getD ∅

def removePod (pod : ServerID) : Except Panic (Indexer C) :=
  match i.podToLRU.lookup pod with
  | none => .ok i
  | some none => .error .nilDereference
  | some (some lru) =>
    .ok { i with
      hashToPods := ((lib.keys lru).foldl (unload lib pod) (lru, i.hashToPods)).2
      podToLRU := i.podToLRU.erase pod }

end Indexer

/-! ## The servers of a block -/

/-- The server is in the set of the block. -/
def Listed (hashToPods : PodsByHash) (pod : ServerID) (hash : BlockHash) : Prop := pod ∈ (hashToPods.lookup hash).getD ∅

/-- A block without servers is not kept. -/
def NoneEmpty (hashToPods : PodsByHash) : Prop := ∀ hash, hashToPods.lookup hash ≠ some ∅

variable {hashToPods : PodsByHash} {pod p : ServerID} {hash x : BlockHash}

theorem lookup_evict (h : x ≠ hash) : (evict pod hashToPods hash).lookup x = hashToPods.lookup x := by
  unfold evict
  split
  · split
    · exact lookup_erase_ne h
    · exact lookup_insert_ne h
  · rfl

theorem lookup_evict_self :
    ((evict pod hashToPods hash).lookup hash).getD ∅ = ((hashToPods.lookup hash).getD ∅).erase pod := by
  unfold evict
  split
  · rename_i podSet hset
    split
    · rename_i hempty
      rw [lookup_erase, hset, Option.getD_some, hempty]
      rfl
    · rw [lookup_insert, hset, Option.getD_some, Option.getD_some]
  · rename_i hnone
    rw [hnone, Option.getD_none, Finset.erase_empty]

theorem listed_evict :
    Listed (evict pod hashToPods hash) p x ↔ Listed hashToPods p x ∧ ¬ (p = pod ∧ x = hash) := by
  unfold Listed
  by_cases hx : x = hash
  · subst hx
    rw [lookup_evict_self, Finset.mem_erase]
    simp [and_comm]
  · rw [lookup_evict hx]
    simp [hx]

theorem noneEmpty_evict (h : NoneEmpty hashToPods) : NoneEmpty (evict pod hashToPods hash) := by
  intro x hx
  by_cases hxh : x = hash
  · subst hxh
    unfold evict at hx
    split at hx
    · split at hx
      · rw [lookup_erase] at hx
        cases hx
      · rename_i hne
        rw [lookup_insert] at hx
        exact hne (Option.some.inj hx)
    · exact h x hx
  · rw [lookup_evict hxh] at hx
    exact h x hx

theorem listed_list : Listed (list pod hashToPods hash) p x ↔ Listed hashToPods p x ∨ p = pod ∧ x = hash := by
  unfold Listed list
  by_cases hx : x = hash
  · subst hx
    rw [lookup_insert, Option.getD_some, Finset.mem_insert]
    simp [or_comm]
  · rw [lookup_insert_ne hx]
    simp [hx]

theorem noneEmpty_list (h : NoneEmpty hashToPods) : NoneEmpty (list pod hashToPods hash) := by
  intro x hx
  unfold list at hx
  by_cases hxh : x = hash
  · subst hxh
    rw [lookup_insert] at hx
    exact absurd (Option.some.inj hx) (Finset.insert_ne_empty _ _)
  · rw [lookup_insert_ne hxh] at hx
    exact h x hx

theorem listed_lists (hashes : List BlockHash) :
    Listed (hashes.foldl (list pod) hashToPods) p x ↔ Listed hashToPods p x ∨ p = pod ∧ x ∈ hashes := by
  induction hashes generalizing hashToPods with
  | nil => simp
  | cons hash rest ih =>
    rw [foldl_cons, ih, listed_list, mem_cons, or_assoc, and_or_left]

theorem noneEmpty_lists (h : NoneEmpty hashToPods) (hashes : List BlockHash) :
    NoneEmpty (hashes.foldl (list pod) hashToPods) := by
  induction hashes generalizing hashToPods with
  | nil => exact h
  | cons hash rest ih => exact ih (noneEmpty_list h)

/-! ## Changes of a cache -/

variable {change : C → BlockHash → C × Option BlockHash} {s : C × PodsByHash}

theorem withEviction_fst : (withEviction change pod s hash).1 = (change s.1 hash).1 := by
  unfold withEviction
  split <;> simp_all

/-- The callback removes what goes, and nothing else. -/
theorem listed_withEviction :
    Listed (withEviction change pod s hash).2 p x ↔ Listed s.2 p x ∧ ¬ (p = pod ∧ (change s.1 hash).2 = some x) := by
  unfold withEviction
  split
  · rename_i lru evicted h
    rw [listed_evict, h]
    simp [eq_comm]
  · rename_i lru h
    simp [h]

theorem noneEmpty_withEviction (h : NoneEmpty s.2) : NoneEmpty (withEviction change pod s hash).2 := by
  unfold withEviction
  split
  · exact noneEmpty_evict h
  · exact h

theorem noneEmpty_withEvictions (h : NoneEmpty s.2) (hashes : List BlockHash) :
    NoneEmpty (hashes.foldl (withEviction change pod) s).2 := by
  induction hashes generalizing s with
  | nil => exact h
  | cons hash rest ih => exact ih (noneEmpty_withEviction h)

/-- Other servers are not touched. -/
theorem listed_withEvictions_ne (hp : p ≠ pod) (hashes : List BlockHash) :
    Listed (hashes.foldl (withEviction change pod) s).2 p x ↔ Listed s.2 p x := by
  induction hashes generalizing s with
  | nil => rfl
  | cons hash rest ih =>
    rw [foldl_cons, ih, listed_withEviction]
    simp [hp]

theorem loads_fst (lib : LruLibrary C BlockHash) (hashes : List BlockHash) :
    (hashes.foldl (load lib pod) s).1 = lib.addAll s.1 hashes := by
  induction hashes generalizing s with
  | nil => rfl
  | cons hash rest ih => rw [foldl_cons, ih, withEviction_fst]; rfl

end InferenceGateway.ApproximatePrefix
