import Mathlib
/-!
# Instants

Go's `time.Time`: the wall clock in seconds and nanoseconds and, for a time that the clock gave,
a reading of the monotonic clock. Two times that both have a reading are compared by it, others by
the wall clock. A time with a reading keeps its seconds in 33 bits; `Add` drops the reading when
these or the reading itself overflow, and seconds without a reading stop at the ends of their range.
-/

namespace InferenceGateway.Lib

/-- The range of an `int64`. -/
def InInt64 (n : Int) : Prop := -2 ^ 63 ≤ n ∧ n < 2 ^ 63

instance (n : Int) : Decidable (InInt64 n) := inferInstanceAs (Decidable (_ ∧ _))

/-- Nanoseconds in a second. -/
def second : Int := 1000000000

/-- The seconds of 1885, where the 33 bits begin. -/
def wallToInternal : Int := 59453308800

/-- The seconds of 1970. -/
def unixToInternal : Int := 62135596800

/-- Seconds are counted from the year 1. -/
structure Time where
  sec : Int
  nsec : Int
  mono : Option Int
  sec_range : InInt64 sec
  nsec_range : 0 ≤ nsec ∧ nsec < second
  mono_range : ∀ m, mono = some m → InInt64 m
deriving DecidableEq

namespace Time

/-- The wall clock in nanoseconds. -/
def nanos (t : Time) : Int := t.sec * second + t.nsec

/-- The addition of `addSec`, which does not wrap around. -/
def addSeconds (sec d : Int) : Int :=
  if InInt64 (sec + d) then sec + d else if d > 0 then 2 ^ 63 - 1 else -(2 ^ 63 - 1)

theorem addSeconds_range (sec d : Int) : InInt64 (addSeconds sec d) := by
  unfold addSeconds
  split_ifs with h
  · exact h
  · decide
  · decide

/-- Whole seconds and the nanoseconds left over, of a sum of nanoseconds. -/
def carry (nsec d : Int) : Int × Int :=
  let n := nsec + d.tmod second
  if second ≤ n then (d.tdiv second + 1, n - second)
  else if n < 0 then (d.tdiv second - 1, n + second)
  else (d.tdiv second, n)

theorem carry_spec {nsec d : Int} (h : 0 ≤ nsec ∧ nsec < second) :
    (0 ≤ (carry nsec d).2 ∧ (carry nsec d).2 < second) ∧ (carry nsec d).1 * second + (carry nsec d).2 = nsec + d := by
  have hdm := Int.tmod_add_mul_tdiv d second
  have hlt : d.tmod second < second := Int.tmod_lt_of_pos d (by decide)
  have hgt : -second < d.tmod second := Int.lt_tmod_of_pos d (by decide)
  unfold carry
  simp only
  split_ifs
  all_goals
    simp only [second] at *
    omega

/-- `Add`. -/
def add (t : Time) (d : Int64) : Time where
  sec := addSeconds t.sec (carry t.nsec d.toInt).1
  nsec := (carry t.nsec d.toInt).2
  mono := t.mono.bind fun m =>
    let wall := t.sec + (carry t.nsec d.toInt).1 - wallToInternal
    if 0 ≤ wall ∧ wall < 2 ^ 33 ∧ InInt64 (m + d.toInt) then some (m + d.toInt) else none
  sec_range := addSeconds_range _ _
  nsec_range := (carry_spec t.nsec_range).1
  mono_range := by
    intro m h
    obtain ⟨k, -, hk⟩ := Option.bind_eq_some_iff.1 h
    simp only at hk
    split at hk
    · rename_i hfits
      cases hk
      exact hfits.2.2
    · cases hk

/-- `time.Unix`. -/
def unix (sec nsec : Int) : Time where
  sec := addSeconds (sec + nsec / second) unixToInternal
  nsec := nsec % second
  mono := none
  sec_range := addSeconds_range _ _
  nsec_range := ⟨Int.emod_nonneg _ (by decide), Int.emod_lt_of_pos _ (by decide)⟩
  mono_range := nofun

def before (t u : Time) : Bool :=
  match t.mono, u.mono with
  | some m, some k => m < k
  | _, _ => t.sec < u.sec ∨ t.sec = u.sec ∧ t.nsec < u.nsec

def equal (t u : Time) : Bool :=
  match t.mono, u.mono with
  | some m, some k => m = k
  | _, _ => t.sec = u.sec ∧ t.nsec = u.nsec

variable {t u : Time}

theorem nanos_lt_iff : t.nanos < u.nanos ↔ t.sec < u.sec ∨ t.sec = u.sec ∧ t.nsec < u.nsec := by
  have ht := t.nsec_range
  have hu := u.nsec_range
  unfold nanos
  simp only [second] at *
  omega

theorem nanos_eq_iff : t.nanos = u.nanos ↔ t.sec = u.sec ∧ t.nsec = u.nsec := by
  have ht := t.nsec_range
  have hu := u.nsec_range
  unfold nanos
  simp only [second] at *
  omega

/-- The readings count when both times have one. -/
theorem before_of_mono {m k : Int} (ht : t.mono = some m) (hu : u.mono = some k) :
    (t.before u = true ↔ m < k) ∧ (t.equal u = true ↔ m = k) := by
  simp only [before, equal, ht, hu, decide_eq_true_eq, and_self]

/-- Otherwise the wall clock counts. -/
theorem before_of_wall (h : t.mono = none ∨ u.mono = none) :
    (t.before u = true ↔ t.nanos < u.nanos) ∧ (t.equal u = true ↔ t.nanos = u.nanos) := by
  rw [nanos_lt_iff, nanos_eq_iff]
  unfold before equal
  rcases h with h | h
  · simp only [h, decide_eq_true_eq, and_self]
  · rw [h]
    cases t.mono <;> simp only [decide_eq_true_eq, and_self]

theorem not_before_of_equal (h : t.equal u = true) : t.before u = false := by
  unfold equal at h
  unfold before
  split at h
  · simp only [decide_eq_true_eq] at h
    simp [h]
  · simp only [decide_eq_true_eq] at h
    simp [h.1, h.2]

/-- The seconds fit in 33 bits, as those of every time that the clock gives. -/
def Current (t : Time) : Prop := 0 ≤ t.sec - wallToInternal ∧ t.sec - wallToInternal < 2 ^ 33

theorem before_self (t : Time) : t.before t = false := by
  unfold before
  cases t.mono <;> simp

variable {d : Int64}

/-- From such a time on the seconds stay in their range. -/
theorem Current.nanos_add (h : t.Current) (d : Int64) : (t.add d).nanos = t.nanos + d.toInt := by
  obtain ⟨hn, hsum⟩ := carry_spec (d := d.toInt) t.nsec_range
  have ht := t.nsec_range
  have hlow := Int64.le_toInt d
  have hhigh := Int64.toInt_lt d
  have hexact : addSeconds t.sec (carry t.nsec d.toInt).1 = t.sec + (carry t.nsec d.toInt).1 := by
    rw [addSeconds, if_pos]
    unfold Current InInt64 at *
    simp only [second, wallToInternal] at *
    omega
  unfold nanos at *
  simp only [add, hexact]
  simp only [second] at *
  omega

theorem Current.add_zero (h : t.Current) : t.add 0 = t := by
  have hcarry : carry t.nsec (0 : Int64).toInt = (0, t.nsec) := by
    have ht := t.nsec_range
    simp [carry, not_le.2 ht.2, not_lt.2 ht.1]
  have hsec : addSeconds t.sec 0 = t.sec := by rw [addSeconds, Int.add_zero, if_pos t.sec_range]
  cases hm : t.mono with
  | none => cases t; simp_all [add]
  | some m =>
    have hfits := t.mono_range m hm
    unfold Current at h
    cases t
    simp_all [add]

theorem mono_add {m : Int} (h : (t.add d).mono = some m) : ∃ k, t.mono = some k ∧ m = k + d.toInt := by
  simp only [add, Option.bind_eq_some_iff] at h
  obtain ⟨k, hk, hif⟩ := h
  split at hif
  · cases hif
    exact ⟨k, hk, rfl⟩
  · cases hif

/-- The ends of two durations are in the order of these, by whichever clock they are compared. -/
theorem Current.add_before_add (h : t.Current) (d e : Int64) :
    ((t.add d).before (t.add e) = true ↔ d.toInt < e.toInt) ∧ ((t.add d).equal (t.add e) = true ↔ d.toInt = e.toInt) := by
  by_cases hwall : (t.add d).mono = none ∨ (t.add e).mono = none
  · obtain ⟨hbefore, hequal⟩ := before_of_wall hwall
    rw [hbefore, hequal, h.nanos_add, h.nanos_add]
    omega
  · rw [not_or] at hwall
    obtain ⟨m, hm⟩ := Option.ne_none_iff_exists'.1 hwall.1
    obtain ⟨k, hk⟩ := Option.ne_none_iff_exists'.1 hwall.2
    obtain ⟨m₀, hm₀, rfl⟩ := mono_add hm
    obtain ⟨k₀, hk₀, rfl⟩ := mono_add hk
    cases hm₀.symm.trans hk₀
    obtain ⟨hbefore, hequal⟩ := before_of_mono hm hk
    rw [hbefore, hequal]
    omega

end Time

end InferenceGateway.Lib
