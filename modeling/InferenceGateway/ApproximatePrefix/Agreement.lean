import InferenceGateway.ApproximatePrefix.Indexer
import InferenceGateway.Lib.Runs
/-!
# The two maps of the index

A block is listed for a server while the server's cache holds it, in every run in which
no list is added that has more blocks than the cache has room for: such a list is listed
as a whole when the first of its blocks are gone again.
-/

namespace InferenceGateway.ApproximatePrefix

open Lib List AList

section Caches
variable {C : Type} {lib : LruLibrary C BlockHash}

/-- The blocks of a server are those its cache holds. -/
def Agrees (lib : LruLibrary C BlockHash) (pod : ServerID) (s : C × PodsByHash) : Prop := ∀ x, Listed s.2 pod x ↔ x ∈ lib.keys s.1

/-- While blocks are loaded, those that have been may not be listed yet. -/
def Loading (lib : LruLibrary C BlockHash) (pod : ServerID) (loaded : List BlockHash) (s : C × PodsByHash) : Prop :=
  (∀ x, Listed s.2 pod x → x ∈ lib.keys s.1) ∧ ∀ x, x ∈ lib.keys s.1 → Listed s.2 pod x ∨ x ∈ loaded

variable (hlib : lib.Lawful) {pod p : ServerID} {x : BlockHash} {s : C × PodsByHash}
include hlib

theorem Loading.load {loaded : List BlockHash} (h : Loading lib pod loaded s) (hash : BlockHash) :
    Loading lib pod (loaded ++ [hash]) (load lib pod s hash) := by
  constructor
  · intro x hx
    rw [listed_withEviction] at hx
    rw [withEviction_fst, hlib.mem_add]
    exact ⟨.inr (h.1 x hx.1), fun hgone => hx.2 ⟨rfl, hgone⟩⟩
  · intro x hx
    rw [withEviction_fst, hlib.mem_add] at hx
    rw [listed_withEviction, mem_append, mem_singleton]
    rcases hx with ⟨rfl | hkept, hstays⟩
    · exact .inr (.inr rfl)
    · rcases h.2 x hkept with hlisted | hloaded
      · exact .inl ⟨hlisted, fun hgone => hstays hgone.2⟩
      · exact .inr (.inl hloaded)

theorem Agrees.loads (h : Agrees lib pod s) (hashes : List BlockHash) : Loading lib pod hashes (hashes.foldl (load lib pod) s) := by
  induction hashes using List.reverseRecOn with
  | nil => exact ⟨fun x => (h x).1, fun x hx => .inl ((h x).2 hx)⟩
  | append_singleton hashes hash ih =>
    rw [foldl_append]
    exact ih.load hlib hash

/-- A list that the cache has room for is there as a whole when it is listed. -/
theorem Agrees.add (h : Agrees lib pod s) {hashes : List BlockHash} (hroom : hashes.toFinset.card ≤ lib.capacity s.1) :
    Agrees lib pod ((hashes.foldl (load lib pod) s).1, hashes.foldl (list pod) (hashes.foldl (load lib pod) s).2) := by
  obtain ⟨hkept, hlisted⟩ := h.loads hlib hashes
  intro x
  rw [listed_lists]
  constructor
  · rintro (hx | ⟨-, hx⟩)
    · exact hkept x hx
    · rw [loads_fst]
      exact hlib.mem_addAll hroom hx
  · intro hx
    rcases hlisted x hx with hx | hx
    · exact .inl hx
    · exact .inr ⟨rfl, hx⟩

theorem Agrees.remove (h : Agrees lib pod s) (hash : BlockHash) : Agrees lib pod (unload lib pod s hash) := by
  intro x
  rw [listed_withEviction, withEviction_fst, hlib.mem_remove, h x]
  simp

theorem Agrees.removes (h : Agrees lib pod s) (hashes : List BlockHash) : Agrees lib pod (hashes.foldl (unload lib pod) s) := by
  induction hashes generalizing s with
  | nil => exact h
  | cons hash rest ih => exact ih (h.remove hlib hash)

theorem mem_unloads (hashes : List BlockHash) (h : x ∈ lib.keys (hashes.foldl (unload lib pod) s).1) :
    x ∈ lib.keys s.1 ∧ x ∉ hashes := by
  induction hashes generalizing s with
  | nil => exact ⟨h, not_mem_nil⟩
  | cons hash rest ih =>
    obtain ⟨hkept, hrest⟩ := ih h
    rw [withEviction_fst, hlib.mem_remove] at hkept
    refine ⟨hkept.1, fun hmem => ?_⟩
    rcases mem_cons.1 hmem with rfl | hmem
    · exact hkept.2 (by rw [(hlib.remove_key ..).2, if_pos hkept.1])
    · exact hrest hmem

/-- Once all of its blocks are removed, the server is not listed. -/
theorem Agrees.removeAll (h : Agrees lib pod s) (x : BlockHash) : ¬ Listed ((lib.keys s.1).foldl (unload lib pod) s).2 pod x := by
  intro hlisted
  obtain ⟨hkept, hgone⟩ := mem_unloads hlib _ ((h.removes hlib _ x).1 hlisted)
  exact hgone hkept

end Caches

/-! ## Runs -/

inductive IndexOp where
  | add (hashes : List BlockHash) (pod : Server)
  | removePod (pod : ServerID)

namespace Indexer

variable {C : Type} (lib : LruLibrary C BlockHash) (i : Indexer C)

def step : IndexOp → Except Panic (Indexer C)
  | .add hashes pod => i.add lib hashes pod
  | .removePod pod => i.removePod lib pod

/-- The server has a cache, which holds the block. -/
def Cached (pod : ServerID) (hash : BlockHash) : Prop :=
  ∃ lru, i.podToLRU.lookup pod = some (some lru) ∧ hash ∈ lib.keys lru

instance (pod : ServerID) (hash : BlockHash) : Decidable (i.Cached lib pod hash) :=
  match h : i.podToLRU.lookup pod with
  | none | some none => isFalse (by simp [Cached, h])
  | some (some lru) => decidable_of_iff (hash ∈ lib.keys lru) (by simp [Cached, h])

/-- A list goes to a cache that has room for its blocks. -/
def Fits : IndexOp → Prop
  | .add hashes pod => ∃ lru ∈ i.lruForPod lib pod, hashes.toFinset.card ≤ lib.capacity lru
  | .removePod _ => True

instance (op : IndexOp) : Decidable (i.Fits lib op) :=
  match op with
  | .add hashes pod =>
    match h : i.lruForPod lib pod with
    | none => isFalse (by simp [Fits, h])
    | some lru => decidable_of_iff (hashes.toFinset.card ≤ lib.capacity lru) (by simp [Fits, h])
  | .removePod _ => isTrue trivial

structure Consistent (i : Indexer C) : Prop where
  listed : ∀ pod hash, Listed i.hashToPods pod hash ↔ i.Cached lib pod hash
  noneEmpty : NoneEmpty i.hashToPods
  made : ∀ pod, i.podToLRU.lookup pod ≠ some none

variable {lib} {i i' : Indexer C}

theorem new_consistent (defaultLRUSize : Int) : (new defaultLRUSize).Consistent lib where
  listed pod hash := by
    constructor
    · intro h
      exact absurd h (Finset.notMem_empty _)
    · rintro ⟨lru, h, -⟩
      cases h
  noneEmpty hash h := by cases h
  made pod h := by cases h

theorem cached_insert (i : Indexer C) (hashToPods : PodsByHash) (pod : ServerID) (lru : C) (p : ServerID) (x : BlockHash) :
    Cached lib { i with hashToPods := hashToPods, podToLRU := i.podToLRU.insert pod (some lru) } p x ↔
      if p = pod then x ∈ lib.keys lru else i.Cached lib p x := by
  unfold Cached
  split
  · rename_i hp
    subst hp
    simp
  · rename_i hp
    simp only [lookup_insert_ne hp]

variable (hlib : lib.Lawful)
include hlib

theorem Consistent.agrees (h : i.Consistent lib) {server : Server} {lru : C} (hlru : i.lruForPod lib server = some lru) :
    Agrees lib server.serverID (lru, i.hashToPods) := by
  intro x
  rw [h.listed]
  unfold lruForPod at hlru
  cases hfound : i.podToLRU.lookup server.serverID with
  | some found =>
    rw [hfound, Option.getD_some] at hlru
    subst hlru
    constructor
    · rintro ⟨lru', hlru', hx⟩
      rw [hfound] at hlru'
      cases hlru'
      exact hx
    · exact fun hx => ⟨lru, hfound, hx⟩
  | none =>
    -- a new cache is empty, and nothing is listed for a server without one
    rw [hfound, Option.getD_none] at hlru
    rw [(hlib.new_empty _ _ hlru).1]
    refine iff_of_false ?_ not_mem_nil
    rintro ⟨lru', hlru', -⟩
    rw [hfound] at hlru'
    cases hlru'

theorem Consistent.add (h : i.Consistent lib) {hashes : List BlockHash} {server : Server} (hfits : i.Fits lib (.add hashes server))
    (hadd : i.add lib hashes server = .ok i') : i'.Consistent lib := by
  obtain ⟨lru, hlru, hroom⟩ := hfits
  unfold Indexer.add at hadd
  rw [hlru] at hadd
  cases hadd
  refine ⟨fun p x => ?_, noneEmpty_lists (noneEmpty_withEvictions h.noneEmpty _) _, fun p hp => ?_⟩
  · rw [cached_insert]
    split
    · rename_i hp
      subst hp
      exact (h.agrees hlib hlru).add hlib hroom x
    · rename_i hp
      rw [← h.listed, listed_lists, listed_withEvictions_ne hp]
      simp [hp]
  · by_cases hpod : p = server.serverID
    · subst hpod
      rw [lookup_insert] at hp
      cases hp
    · rw [lookup_insert_ne hpod] at hp
      exact h.made p hp

/-- A server can be removed, and is not listed any more. -/
theorem Consistent.removePod (h : i.Consistent lib) (pod : ServerID) :
    ∃ i', i.removePod lib pod = .ok i' ∧ i'.Consistent lib ∧ i'.podToLRU.lookup pod = none := by
  unfold Indexer.removePod
  split
  · rename_i hnone
    exact ⟨i, rfl, h, hnone⟩
  · rename_i hnil
    exact absurd hnil (h.made pod)
  · rename_i lru hlru
    refine ⟨_, rfl, ⟨fun p x => ?_, noneEmpty_withEvictions h.noneEmpty _, fun p hp => ?_⟩, lookup_erase _ _⟩
    · by_cases hp : p = pod
      · subst hp
        have hagrees : Agrees lib p (lru, i.hashToPods) := by
          intro y
          rw [h.listed]
          simp [Cached, hlru]
        refine iff_of_false (hagrees.removeAll hlib x) ?_
        rintro ⟨lru', hlru', -⟩
        rw [lookup_erase] at hlru'
        cases hlru'
      · rw [listed_withEvictions_ne hp, h.listed]
        simp only [Cached, lookup_erase_ne hp]
    · by_cases hpod : p = pod
      · subst hpod
        rw [lookup_erase] at hp
        cases hp
      · rw [lookup_erase_ne hpod] at hp
        exact h.made p hp

theorem Consistent.step (h : i.Consistent lib) {op : IndexOp} (hfits : i.Fits lib op) (hstep : i.step lib op = .ok i') :
    i'.Consistent lib := by
  cases op with
  | add hashes server => exact h.add hlib hfits hstep
  | removePod pod =>
    obtain ⟨i₁, hok, hconsistent, -⟩ := h.removePod hlib pod
    change i.removePod lib pod = .ok i' at hstep
    rw [hok] at hstep
    cases hstep
    exact hconsistent

/-! ## The size of the index -/

omit hlib

/-- The number of servers listed, over all blocks. -/
def size (i : Indexer C) : ℕ := ∑ hash ∈ i.hashToPods.keys.toFinset, (i.get hash).card

/-- The number of blocks that a server's cache has room for. -/
def capacityOf (lib : LruLibrary C BlockHash) (i : Indexer C) (pod : ServerID) : ℕ :=
  ((i.podToLRU.lookup pod).getD none).elim 0 lib.capacity

def capacity (lib : LruLibrary C BlockHash) (i : Indexer C) : ℕ := ∑ pod ∈ i.podToLRU.keys.toFinset, i.capacityOf lib pod

/-- Every block that is kept has a server. -/
theorem Consistent.keys_le_size (h : i.Consistent lib) : i.hashToPods.keys.length ≤ i.size := by
  rw [← toFinset_card_of_nodup i.hashToPods.keys_nodup, Finset.card_eq_sum_ones, size]
  refine Finset.sum_le_sum fun hash hhash => ?_
  rw [Nat.one_le_iff_ne_zero, Finset.card_ne_zero, Finset.nonempty_iff_ne_empty]
  obtain ⟨pods, hpods⟩ := Table.mem_iff_lookup.1 (mem_keys.2 (mem_toFinset.1 hhash))
  rw [get, hpods, Option.getD_some]
  rintro rfl
  exact h.noneEmpty hash hpods

theorem Consistent.blocks_le (hlib : lib.Lawful) (h : i.Consistent lib) (pod : ServerID) :
    (i.hashToPods.keys.toFinset.filter fun hash => pod ∈ i.get hash).card ≤ i.capacityOf lib pod := by
  by_cases hcache : ∃ lru, i.podToLRU.lookup pod = some (some lru)
  · obtain ⟨lru, hlru⟩ := hcache
    calc (i.hashToPods.keys.toFinset.filter fun hash => pod ∈ i.get hash).card
        ≤ (lib.keys lru).toFinset.card := by
          refine Finset.card_le_card fun hash hhash => ?_
          obtain ⟨lru', hlru', hkept⟩ := (h.listed pod hash).1 (Finset.mem_filter.1 hhash).2
          rw [hlru] at hlru'
          cases hlru'
          exact mem_toFinset.2 hkept
      _ ≤ (lib.keys lru).length := toFinset_card_le _
      _ ≤ lib.capacity lru := hlib.keys_bounded lru
      _ = i.capacityOf lib pod := by rw [capacityOf, hlru]; rfl
  · have hempty : i.hashToPods.keys.toFinset.filter (fun hash => pod ∈ i.get hash) = ∅ := by
      refine Finset.filter_eq_empty_iff.2 fun hash _ hpod => hcache ?_
      obtain ⟨lru, hlru, -⟩ := (h.listed pod hash).1 hpod
      exact ⟨lru, hlru⟩
    rw [hempty, Finset.card_empty]
    exact Nat.zero_le _

/-- Counted by servers, the blocks of each are no more than its cache holds. -/
theorem Consistent.size_le_capacity (hlib : lib.Lawful) (h : i.Consistent lib) : i.size ≤ i.capacity lib := by
  have hmem : ∀ pod hash, pod ∈ i.get hash → pod ∈ i.podToLRU.keys.toFinset := by
    intro pod hash hpod
    obtain ⟨lru, hlru, -⟩ := (h.listed pod hash).1 hpod
    exact mem_toFinset.2 (mem_keys.1 (Table.mem_of_lookup hlru))
  calc i.size
      = ∑ hash ∈ i.hashToPods.keys.toFinset, (i.podToLRU.keys.toFinset.filter fun pod => pod ∈ i.get hash).card := by
        refine Finset.sum_congr rfl fun hash _ => congrArg Finset.card ?_
        ext pod
        rw [Finset.mem_filter]
        exact ⟨fun hpod => ⟨hmem pod hash hpod, hpod⟩, fun hpod => hpod.2⟩
    _ = ∑ pod ∈ i.podToLRU.keys.toFinset, (i.hashToPods.keys.toFinset.filter fun hash => pod ∈ i.get hash).card :=
        Finset.sum_card_bipartiteAbove_eq_sum_card_bipartiteBelow fun hash pod => pod ∈ i.get hash
    _ ≤ i.capacity lib := Finset.sum_le_sum fun pod _ => h.blocks_le hlib pod

/-! ## The index -/

/-- With every lawful library of caches: in every run whose lists fit, a server is listed for
the blocks in its cache, it is gone when it has been removed, and the index is no larger
than the caches together. -/
theorem listed_as_cached (lib : LruLibrary C BlockHash) (hlib : lib.Lawful) (defaultLRUSize : Int) {i : Indexer C}
    (h : Runs (step lib) (Fits lib) (new defaultLRUSize) i) :
    (∀ pod hash, pod ∈ i.get hash ↔ i.Cached lib pod hash) ∧
      (∀ pod, ∃ i', i.removePod lib pod = .ok i' ∧ ∀ hash, pod ∉ i'.get hash) ∧
      i.hashToPods.keys.length ≤ i.size ∧ i.size ≤ i.capacity lib := by
  have hconsistent : i.Consistent lib :=
    Runs.invariant (Consistent lib) (fun _ _ _ hi hfits hstep => hi.step hlib hfits hstep) (new_consistent defaultLRUSize) h
  refine ⟨hconsistent.listed, fun pod => ?_, hconsistent.keys_le_size, hconsistent.size_le_capacity hlib⟩
  obtain ⟨i', hok, hconsistent', hgone⟩ := hconsistent.removePod hlib pod
  refine ⟨i', hok, fun hash hlisted => ?_⟩
  obtain ⟨lru, hlru, -⟩ := (hconsistent'.listed pod hash).1 hlisted
  rw [hgone] at hlru
  cases hlru

/-- Two servers with room for two blocks. -/
def serverA : Server := ⟨⟨"default", "a"⟩, 2⟩

def serverB : Server := ⟨⟨"default", "b"⟩, 2⟩

theorem listed_as_cached_two : ∃ i : Indexer (Lru BlockHash), i.get 1 = {serverB.serverID} ∧
    (∃ i', i.removePod Lru.library serverB.serverID = .ok i' ∧ ∀ hash, serverB.serverID ∉ i'.get hash) ∧
    i.size ≤ i.capacity Lru.library := by
  obtain ⟨i, hrun, hi⟩ : ∃ i : Indexer (Lru BlockHash), Runs (step Lru.library) (Fits Lru.library) (new 0) i ∧
      i.get 1 = {serverB.serverID} :=
    exists_runs [.add [1, 2] serverA, .add [1] serverB, .add [3, 2] serverA] _ (by decide +kernel) fun _ _ h => h
  obtain ⟨-, hremoved, -, hsize⟩ := listed_as_cached Lru.library Lru.library_lawful 0 hrun
  exact ⟨i, hi, hremoved serverB.serverID, hsize⟩

/-- Three blocks for a cache of two: the first is listed and not cached, and stays when the
server is removed. -/
theorem evicted_block_listed : ∃ i i' : Indexer (Lru BlockHash), Runs (step Lru.library) (fun _ _ => True) (new 0) i ∧
    serverA.serverID ∈ i.get 1 ∧ ¬ i.Cached Lru.library serverA.serverID 1 ∧ i.capacity Lru.library < i.size ∧
      i.removePod Lru.library serverA.serverID = .ok i' ∧ serverA.serverID ∈ i'.get 1 := by
  obtain ⟨i, hrun, ⟨hlisted, huncached, hsize⟩, hremoved⟩ : ∃ i : Indexer (Lru BlockHash),
      Runs (step Lru.library) (fun _ _ => True) (new 0) i ∧
      (serverA.serverID ∈ i.get 1 ∧ ¬ i.Cached Lru.library serverA.serverID 1 ∧ i.capacity Lru.library < i.size) ∧
      ((i.removePod Lru.library serverA.serverID).toOption.any fun i' => serverA.serverID ∈ i'.get 1) = true :=
    exists_runs [.add [1, 2, 3] serverA] _ (by decide +kernel) fun _ _ h => h
  cases hremove : i.removePod Lru.library serverA.serverID with
  | error e => rw [hremove] at hremoved; cases hremoved
  | ok i' =>
    rw [hremove] at hremoved
    exact ⟨i, i', hrun, hlisted, huncached, hsize, hremove, of_decide_eq_true hremoved⟩

end Indexer

end InferenceGateway.ApproximatePrefix
