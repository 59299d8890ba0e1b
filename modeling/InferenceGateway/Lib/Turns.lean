import Mathlib
/-!
# Taking turns

A list of keys is scanned in a circle, from the key after the one chosen last, and the first
ready key is chosen. A key that stays ready moves towards the front of the scan each time another
one is chosen, whatever the others do.
-/

namespace InferenceGateway.Lib

open List

variable {K : Type} [DecidableEq K] {keys : List K} {ready : K → Bool} {last : Option K} {k c : K}

/-- The keys in the order of a scan that starts after `last`. -/
def turns (keys : List K) : Option K → List K
  | none => keys
  | some k => if k ∈ keys then keys.rotate (keys.idxOf k + 1) else keys

theorem turns_eq_rotate (keys : List K) (last : Option K) : ∃ m, turns keys last = keys.rotate m := by
  unfold turns
  split
  · exact ⟨0, (rotate_zero _).symm⟩
  · split
    · exact ⟨_, rfl⟩
    · exact ⟨0, (rotate_zero _).symm⟩

theorem turns_perm (keys : List K) (last : Option K) : (turns keys last).Perm keys := by
  obtain ⟨m, hm⟩ := turns_eq_rotate keys last
  rw [hm]
  exact rotate_perm keys m

/-- After a key, the scan goes on with what came after it, and ends with the key itself. -/
theorem turns_some (hn : keys.Nodup) {before after : List K} (h : turns keys last = before ++ k :: after) :
    turns keys (some k) = after ++ (before ++ [k]) := by
  obtain ⟨m, hm⟩ := turns_eq_rotate keys last
  rw [h] at hm
  have hlen : before.length < (keys.rotate m).length := by
    rw [← hm, length_append, length_cons]
    omega
  have hget : (keys.rotate m)[before.length] = k := by
    simp only [← hm, getElem_append_right (Nat.le_refl _), Nat.sub_self, getElem_cons_zero]
  rw [getElem_rotate] at hget
  have hidx : keys.idxOf k = (before.length + m) % keys.length := by
    rw [← hget]
    exact hn.idxOf_getElem _ _
  have hmem : k ∈ keys := hget ▸ getElem_mem _
  have hsplit : before ++ k :: after = before ++ [k] ++ after := by simp
  rw [turns, if_pos hmem, hidx, ← rotate_rotate, rotate_mod, rotate_rotate, Nat.add_assoc, Nat.add_comm m 1,
    ← Nat.add_assoc, Nat.add_comm, ← rotate_rotate, ← hm, hsplit]
  have hrot := rotate_append_length_eq (before ++ [k]) after
  rwa [length_append, length_singleton] at hrot

/-- A ready key comes nearer when another one is chosen. -/
theorem idxOf_turns_lt (hn : keys.Nodup) (hk : k ∈ keys) (hready : ready k = true)
    (hc : (turns keys last).find? ready = some c) (hne : c ≠ k) :
    (turns keys (some c)).idxOf k < (turns keys last).idxOf k := by
  obtain ⟨-, before, after, hsplit, hbefore⟩ := List.find?_eq_some_iff_append.1 hc
  -- the scan stopped before it met `k`
  have hnot : k ∉ before := fun hmem => by simpa [hready] using hbefore k hmem
  have hafter : k ∈ after := by
    have hmem := (turns_perm keys last).mem_iff.2 hk
    rw [hsplit, mem_append, mem_cons] at hmem
    exact (hmem.resolve_left hnot).resolve_left hne.symm
  rw [turns_some hn hsplit, hsplit, idxOf_append_of_mem hafter, idxOf_append_of_notMem hnot,
    idxOf_cons_ne _ hne]
  omega

theorem exists_chosen (last : Option K) (hk : k ∈ keys) (hready : ready k = true) :
    ∃ c, (turns keys last).find? ready = some c := by
  rw [← Option.isSome_iff_exists, List.find?_isSome]
  exact ⟨k, (turns_perm keys last).mem_iff.2 hk, hready⟩

/-- Each choice follows the one before it. -/
def TakesTurns (keys : List K) (ready : Nat → K → Bool) (last : Nat → Option K) : Prop :=
  ∀ t, last (t + 1) = (turns keys (last t)).find? (ready t)

/-- A key that is ready is chosen by the time the scan would have come round to it. -/
theorem TakesTurns.chosen_within {ready : Nat → K → Bool} {last : Nat → Option K} (h : TakesTurns keys ready last)
    (hn : keys.Nodup) (hk : k ∈ keys) (d : Nat) : ∀ t, (turns keys (last t)).idxOf k < d →
    (∀ s, t ≤ s → s < t + d → ready s k = true) → ∃ s, t ≤ s ∧ s < t + d ∧ last (s + 1) = some k := by
  induction d with
  | zero => intro t hlt; omega
  | succ d ih =>
    intro t hlt hready
    have hnow := hready t le_rfl (by omega)
    obtain ⟨c, hc⟩ := exists_chosen (last t) hk hnow
    have hnext : last (t + 1) = some c := (h t).trans hc
    by_cases hck : c = k
    · exact ⟨t, le_rfl, by omega, by rw [hnext, hck]⟩
    · have hnear := idxOf_turns_lt hn hk hnow hc hck
      rw [← hnext] at hnear
      obtain ⟨s, hs, hs', hlast⟩ := ih (t + 1) (by omega) fun s hs hs' => hready s (by omega) (by omega)
      exact ⟨s, by omega, by omega, hlast⟩

/-- In as many choices as there are keys, every key that stays ready is chosen. -/
theorem TakesTurns.chosen {ready : Nat → K → Bool} {last : Nat → Option K} (h : TakesTurns keys ready last)
    (hn : keys.Nodup) (hk : k ∈ keys) (t : Nat) (hready : ∀ s, t ≤ s → s < t + keys.length → ready s k = true) :
    ∃ s, t ≤ s ∧ s < t + keys.length ∧ last (s + 1) = some k := by
  refine h.chosen_within hn hk keys.length t ?_ hready
  rw [← (turns_perm keys (last t)).length_eq, idxOf_lt_length_iff]
  exact (turns_perm keys (last t)).mem_iff.2 hk

end InferenceGateway.Lib
