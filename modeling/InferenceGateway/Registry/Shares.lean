import InferenceGateway.Registry.Stats
/-!
# Shares of the limits

The partition of a limit over the shards: the shares add up to the limit, and each
of them is nonzero when the limit is at least the number of shards. A shard that is
in step with the configuration has its share of every limit.
-/

namespace InferenceGateway.Registry

open Lib Queue List RegistryShard

variable {i n : Nat} {total : UInt64}

theorem toNat_partitionUint64 (ht : total ≠ 0) (hi : i < n) (hn : n < 2 ^ 64) :
    (partitionUint64 total i n).toNat = total.toNat / n + if i < total.toNat % n then 1 else 0 := by
  have hnat : (UInt64.ofNat n).toNat = n := UInt64.toNat_ofNat_of_lt' hn
  have hinat : (UInt64.ofNat i).toNat = i := UInt64.toNat_ofNat_of_lt' (hi.trans hn)
  have hlt : (UInt64.ofNat i < total % UInt64.ofNat n) ↔ i < total.toNat % n := by
    rw [UInt64.lt_iff_toNat_lt, UInt64.toNat_mod, hnat, hinat]
  unfold partitionUint64
  rw [if_neg ht]
  simp only [hlt]
  split
  · rename_i hrem
    -- the quotient can be increased: it is below the total
    have hle : total.toNat / n + 1 ≤ total.toNat := by
      have h1 := Nat.div_add_mod total.toNat n
      have h2 : total.toNat / n ≤ n * (total.toNat / n) := Nat.le_mul_of_pos_left _ (by omega)
      omega
    have hmax := total.toNat_lt
    rw [UInt64.toNat_add, UInt64.toNat_div, hnat, UInt64.toNat_one, Nat.mod_eq_of_lt (by omega)]
  · rw [UInt64.toNat_div, hnat, add_zero]

theorem sum_if_lt {m : Nat} (h : m ≤ n) : ((List.range n).map fun i => if i < m then 1 else 0).sum = m := by
  induction n with
  | zero => simp; omega
  | succ n ih =>
    rw [range_succ, map_append, sum_append]
    by_cases hm : m ≤ n
    · have hlast : ¬n < m := by omega
      rw [ih hm]
      simp [hlast]
    · have hall : (List.range n).map (fun i => if i < m then 1 else 0) = (List.range n).map fun _ => 1 :=
        map_congr_left fun i hi => if_pos (by rw [mem_range] at hi; omega)
      have hlast : n < m := by omega
      rw [hall]
      simp [hlast]
      omega

/-- The shares add up to the limit. -/
theorem sum_partitionUint64 (total : UInt64) (h₀ : 0 < n) (hn : n < 2 ^ 64) :
    ((List.range n).map fun i => (partitionUint64 total i n).toNat).sum = total.toNat := by
  by_cases ht : total = 0
  · subst ht
    have hzero : (fun i => (partitionUint64 0 i n).toNat) = fun _ => 0 := rfl
    rw [hzero, map_const', sum_replicate, smul_zero]
    rfl
  · have hshare : (List.range n).map (fun i => (partitionUint64 total i n).toNat) =
        (List.range n).map fun i => total.toNat / n + if i < total.toNat % n then 1 else 0 :=
      map_congr_left fun i hi => toNat_partitionUint64 ht (mem_range.1 hi) hn
    rw [hshare, sum_map_add, sum_if_lt (Nat.mod_lt _ h₀).le]
    simp only [map_const', sum_replicate, length_range, smul_eq_mul]
    exact Nat.div_add_mod _ _

/-- Every shard has a share when there is enough for all. -/
theorem partitionUint64_ne_zero (hi : i < n) (hle : n ≤ total.toNat) : partitionUint64 total i n ≠ 0 := by
  have ht : total ≠ 0 := by
    rintro rfl
    simp only [UInt64.toNat_zero] at hle
    omega
  have hshare := toNat_partitionUint64 ht hi (hle.trans_lt total.toNat_lt)
  have hpos : 0 < total.toNat / n := Nat.div_pos hle (by omega)
  intro h0
  rw [h0, UInt64.toNat_zero] at hshare
  omega

variable {α : Type}

/-- The limits of the configuration, by the counters they are for. -/
def Config.limit (c : Config α) : Counter → UInt64
  | .totalByteSize => c.maxBytes
  | .totalLen => c.maxRequests
  | .byteSize p => ((c.priorityBands.lookup p).map (·.maxBytes)).getD 0
  | .len p => ((c.priorityBands.lookup p).map (·.maxRequests)).getD 0

/-- A shard's limits are its shares. -/
theorem RegistryShard.Carries.limit {s : RegistryShard α} {c : Config α} (h : s.Carries c i n) (k : Counter) :
    s.limit k = partitionUint64 (c.limit k) i n := by
  have hzero : partitionUint64 0 i n = 0 := rfl
  cases k with
  | totalByteSize => exact h.totals.1
  | totalLen => exact h.totals.2
  | byteSize p =>
    rw [(limit_frame s p).1, (h.bands p).2]
    cases hb : c.priorityBands.lookup p with
    | none => simp [Config.limit, hb, hzero]
    | some b => simp [Config.limit, hb, PriorityBandConfig.partition]
  | len p =>
    rw [(limit_frame s p).2, (h.bands p).2]
    cases hb : c.priorityBands.lookup p with
    | none => simp [Config.limit, hb, hzero]
    | some b => simp [Config.limit, hb, PriorityBandConfig.partition]

end InferenceGateway.Registry
