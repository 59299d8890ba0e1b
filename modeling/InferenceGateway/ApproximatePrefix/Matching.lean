import InferenceGateway.ApproximatePrefix.Agreement
/-!
# The longest prefix

`matchLongestPrefix` of `plugin.go`. It counts the blocks of a server up to the first one
that no server has. That is the length of the server's prefix if it has no block after
one it lacks; caches evict the blocks of a prefix from the front.
-/

namespace InferenceGateway.ApproximatePrefix

open Lib List

/-! ## Prefixes -/

section Prefixes
variable {α : Type} (p : α → Bool)

/-- The longest prefix of elements that all have a property. -/
theorem isGreatest_takeWhile (l : List α) :
    IsGreatest {n | n ≤ l.length ∧ ∀ x ∈ l.take n, p x = true} (l.takeWhile p).length := by
  constructor
  · refine ⟨(takeWhile_sublist p).length_le, fun x hx => ?_⟩
    rw [← prefix_iff_eq_take.1 (List.takeWhile_prefix p)] at hx
    exact mem_takeWhile_imp hx
  · rintro n ⟨hn, hall⟩
    induction l generalizing n with
    | nil => exact hn
    | cons x l ih =>
      cases n with
      | zero => exact Nat.zero_le _
      | succ n =>
        rw [take_succ_cons, forall_mem_cons] at hall
        rw [takeWhile_cons_of_pos hall.1, length_cons]
        exact Nat.succ_le_succ (ih (Nat.le_of_succ_le_succ hn) hall.2)

theorem countP_eq_takeWhile (l : List α) : l.countP p = (l.takeWhile p).length + (l.dropWhile p).countP p := by
  conv_lhs => rw [← takeWhile_append_dropWhile (p := p) (l := l), countP_append]
  rw [countP_eq_length.2 fun x hx => mem_takeWhile_imp hx]

end Prefixes

namespace Indexer

variable {C : Type} (i : Indexer C)

/-- The loop; a key that is missing in a map counts as zero. -/
def matchLoop : List BlockHash → (ServerID → ℕ) → ServerID → ℕ
  | [], res => res
  | hash :: hashes, res =>
    if i.get hash = ∅ then res
    else matchLoop hashes fun server => if server ∈ i.get hash then res server + 1 else res server

variable (hashes : List BlockHash)

def matchLongestPrefix : ServerID → ℕ := i.matchLoop hashes fun _ => 0

/-- The blocks up to the first one without a server. -/
def scanned : List BlockHash := hashes.takeWhile fun hash => i.get hash ≠ ∅

variable {i}

theorem matchLoop_eq (res : ServerID → ℕ) (server : ServerID) :
    i.matchLoop hashes res server = res server + (i.scanned hashes).countP fun hash => server ∈ i.get hash := by
  induction hashes generalizing res with
  | nil => rfl
  | cons hash hashes ih =>
    rw [matchLoop, scanned]
    split
    · rename_i hempty
      rw [takeWhile_cons_of_neg (by simp [hempty])]
      rfl
    · rename_i hsome
      rw [ih, takeWhile_cons_of_pos (by simp [hsome]), countP_cons, scanned]
      by_cases hserver : server ∈ i.get hash
      · simp only [hserver, if_true, decide_true]
        omega
      · simp [hserver]

/-- A block of a server is one of some server. -/
theorem takeWhile_scanned (server : ServerID) :
    (i.scanned hashes).takeWhile (fun hash => server ∈ i.get hash) = hashes.takeWhile fun hash => server ∈ i.get hash := by
  induction hashes with
  | nil => rfl
  | cons hash hashes ih =>
    by_cases hserver : server ∈ i.get hash
    · have hsome : i.get hash ≠ ∅ := Finset.ne_empty_of_mem hserver
      rw [scanned, takeWhile_cons_of_pos (by simp [hsome]), takeWhile_cons_of_pos (by simpa using hserver),
        takeWhile_cons_of_pos (by simpa using hserver), ← ih, scanned]
    · rw [takeWhile_cons_of_neg (a := hash) (by simpa using hserver), scanned, takeWhile_cons]
      split
      · rw [takeWhile_cons_of_neg (by simpa using hserver)]
      · rfl

/-- The length that is reported is that of the longest prefix exactly if the server has no
block after one it lacks, among those before the first that no server has. -/
theorem matchLongestPrefix_iff {C : Type} (i : Indexer C) (hashes : List BlockHash) (server : ServerID) :
    IsGreatest {n | n ≤ hashes.length ∧ ∀ hash ∈ hashes.take n, server ∈ i.get hash} (i.matchLongestPrefix hashes server) ↔
      ∀ hash ∈ (i.scanned hashes).dropWhile (fun hash => server ∈ i.get hash), server ∉ i.get hash := by
  have hlongest : IsGreatest {n | n ≤ hashes.length ∧ ∀ hash ∈ hashes.take n, server ∈ i.get hash}
      (hashes.takeWhile fun hash => server ∈ i.get hash).length := by
    simpa using isGreatest_takeWhile (fun hash => decide (server ∈ i.get hash)) hashes
  have hcount : i.matchLongestPrefix hashes server = (hashes.takeWhile fun hash => server ∈ i.get hash).length +
      ((i.scanned hashes).dropWhile fun hash => server ∈ i.get hash).countP fun hash => server ∈ i.get hash := by
    rw [matchLongestPrefix, matchLoop_eq, Nat.zero_add, countP_eq_takeWhile, takeWhile_scanned]
  calc IsGreatest _ (i.matchLongestPrefix hashes server)
      ↔ i.matchLongestPrefix hashes server = (hashes.takeWhile fun hash => server ∈ i.get hash).length :=
        ⟨fun h => h.unique hlongest, fun h => h ▸ hlongest⟩
    _ ↔ ((i.scanned hashes).dropWhile fun hash => server ∈ i.get hash).countP (fun hash => server ∈ i.get hash) = 0 := by
        rw [hcount]
        omega
    _ ↔ _ := by simp [countP_eq_zero]

/-- A server with room for one block. -/
def serverC : Server := ⟨⟨"default", "c"⟩, 1⟩

/-- A server that has evicted the first block of a prefix is reported to have one of it. -/
theorem evicted_front_matched : ∃ i : Indexer (Lru BlockHash), Runs (step Lru.library) (Fits Lru.library) (new 0) i ∧
    serverC.serverID ∉ i.get 1 ∧ i.matchLongestPrefix [1, 2] serverC.serverID = 1 :=
  exists_runs [.add [1] serverC, .add [2] serverC, .add [1, 2] serverB] _ (by decide +kernel) fun _ _ h => h

end Indexer

end InferenceGateway.ApproximatePrefix
