import Mathlib.Data.List.Basic
import Mathlib.Data.Nat.ModEq

/-!
# Walks around a ring

The positions of a ring of `n` are `0` to `n - 1`, and `n - 1` is followed by `0`. The loop

    for (i = start; i != stop; i = (i + 1) % n) …

goes around it until it meets `stop`, which it does within `n` steps or never.

* `Ring.walk n start stop` — the positions the loop visits, `stop` included, or `none` where it does not end.
* `walk_eq` and `walk_eq_none` — it ends exactly if `stop` is a position; `mem_walk_iff` says what it visits.
-/

namespace Ns3.Lib.Ring

/-- How far the position `i` is ahead of `start`. -/
def ahead (n start i : ℕ) : ℕ := (i + n - start) % n

/-- The positions from `i` to `stop`, unless there are more than `fuel` steps between them. -/
def walkFor (n stop : ℕ) : ℕ → ℕ → Option (List ℕ)
  | fuel, i =>
    if i = stop then some [i]
    else
      match fuel with
      | 0 => none
      | fuel + 1 => (walkFor n stop fuel ((i + 1) % n)).map (i :: ·)

/-- The positions from `start` to `stop`. After `n` steps the walk is back where it began. -/
def walk (n start stop : ℕ) : Option (List ℕ) := walkFor n stop n start

variable {n start stop : ℕ}

theorem ahead_lt (hn : 0 < n) (i : ℕ) : ahead n start i < n := Nat.mod_lt _ hn

theorem add_ahead {i : ℕ} (hstart : start < n) (hi : i < n) : (start + ahead n start i) % n = i := by
  rw [ahead, Nat.add_mod_mod, Nat.add_sub_of_le (by omega), Nat.add_mod_right, Nat.mod_eq_of_lt hi]

theorem ahead_inj {i j : ℕ} (hstart : start < n) (hi : i < n) (hj : j < n) (h : ahead n start i = ahead n start j) :
    i = j := by
  rw [← add_ahead hstart hi, h, add_ahead hstart hj]

@[simp] theorem ahead_self : ahead n start start = 0 := by rw [ahead, Nat.add_sub_cancel_left, Nat.mod_self]

section

variable (hstart : start < n)
include hstart

theorem ahead_add {d : ℕ} (hd : d < n) : ahead n start ((start + d) % n) = d := by
  have hmod : (start + d) % n = start + d ∨ (start + d) % n + n = start + d := by
    rcases Nat.lt_or_ge (start + d) n with h | h
    · exact .inl (Nat.mod_eq_of_lt h)
    · rw [Nat.mod_eq_sub_mod h, Nat.mod_eq_of_lt (by omega)]
      exact .inr (Nat.sub_add_cancel h)
  rw [ahead]
  rcases hmod with h | h
  · rw [h, show start + d + n - start = d + n by omega, Nat.add_mod_right, Nat.mod_eq_of_lt hd]
  · rw [h, Nat.add_sub_cancel_left, Nat.mod_eq_of_lt hd]

theorem ahead_eq_ite {i : ℕ} (hi : i < n) : ahead n start i = if start ≤ i then i - start else i + n - start := by
  rw [ahead]
  split_ifs with h
  · rw [show i + n - start = i - start + n by omega, Nat.add_mod_right, Nat.mod_eq_of_lt (by omega)]
  · exact Nat.mod_eq_of_lt (by omega)

/-- Distances from another position. -/
theorem ahead_of_ahead {m i : ℕ} (hm : m < n) (hi : i < n) :
    ahead n m i = if ahead n start m ≤ ahead n start i then ahead n start i - ahead n start m
      else ahead n start i + n - ahead n start m := by
  rw [ahead_eq_ite hm hi, ahead_eq_ite hstart hm, ahead_eq_ite hstart hi]
  split_ifs <;> omega

theorem ahead_add_of_lt {i j : ℕ} (hi : i < n) (h : ahead n start i + j < n) :
    ahead n start ((i + j) % n) = ahead n start i + j := by
  have hmod : (i + j) % n = (start + (ahead n start i + j)) % n := by
    rw [← Nat.add_assoc, ← Nat.mod_add_mod (start + _), add_ahead hstart hi]
  rw [hmod, ahead_add hstart h]

theorem ahead_pred {i : ℕ} (hi : i < n) (h : 0 < ahead n start i) :
    ahead n start ((i + (n - 1)) % n) = ahead n start i - 1 := by
  have hlt : ahead n start i < n := ahead_lt (by omega) i
  have hsum : start + ahead n start i + (n - 1) = start + (ahead n start i - 1) + n := by omega
  have hmod : (i + (n - 1)) % n = (start + (ahead n start i - 1)) % n := by
    calc (i + (n - 1)) % n = ((start + ahead n start i) % n + (n - 1)) % n := by rw [add_ahead hstart hi]
      _ = (start + (ahead n start i - 1)) % n := by rw [Nat.mod_add_mod, hsum, Nat.add_mod_right]
  rw [hmod, ahead_add hstart (by omega)]

/-- The positions between two others. -/
theorem ahead_le_ahead_iff {a b i : ℕ} (ha : a < n) (hb : b < n) (hi : i < n)
    (hab : ahead n start a ≤ ahead n start b) :
    ahead n a i ≤ ahead n a b ↔ ahead n start a ≤ ahead n start i ∧ ahead n start i ≤ ahead n start b := by
  have hn : 0 < n := by omega
  have hai : ahead n start i < n := ahead_lt hn i
  have hbi : ahead n start b < n := ahead_lt hn b
  rw [ahead_of_ahead hstart ha hi, ahead_of_ahead hstart ha hb, if_pos hab]
  split_ifs <;> omega

/-- The positions of a window that begins further on. -/
theorem ahead_lt_iff {m i size : ℕ} (hm : m < n) (hi : i < n) (hsize : ahead n start m + size ≤ n) :
    ahead n m i < size ↔ ahead n start m ≤ ahead n start i ∧ ahead n start i < ahead n start m + size := by
  have hn : 0 < n := by omega
  have hai : ahead n start i < n := ahead_lt hn i
  rw [ahead_of_ahead hstart hm hi]
  split_ifs <;> omega

theorem add_mod_inj {d e : ℕ} (hd : d < n) (he : e < n) (h : (start + d) % n = (start + e) % n) : d = e := by
  rw [← ahead_add hstart hd, h, ahead_add hstart he]

theorem walkFor_eq {d fuel : ℕ} (hd : d < n) (hfuel : d ≤ fuel) :
    walkFor n ((start + d) % n) fuel start = some ((List.range (d + 1)).map fun k => (start + k) % n) := by
  induction fuel generalizing d start with
  | zero =>
    obtain rfl := Nat.le_zero.mp hfuel
    simp [walkFor, Nat.mod_eq_of_lt hstart]
  | succ fuel ih =>
    cases d with
    | zero => simp [walkFor, Nat.mod_eq_of_lt hstart]
    | succ d =>
      have hzero : (start + 0) % n = start := Nat.mod_eq_of_lt hstart
      have hne : start ≠ (start + (d + 1)) % n := by
        intro h
        exact Nat.noConfusion (add_mod_inj hstart (by omega) hd (hzero.trans h))
      have hnext : ∀ k, ((start + 1) % n + k) % n = (start + (k + 1)) % n := by
        intro k
        rw [Nat.mod_add_mod, Nat.add_assoc, Nat.add_comm 1 k]
      have hwalk := ih (Nat.mod_lt (start + 1) (by omega : n > 0)) (by omega : d < n) (by omega)
      rw [hnext] at hwalk
      rw [walkFor, if_neg hne]
      rw [hwalk, Option.map_some, List.range_succ_eq_map (n := d + 1), List.map_cons, List.map_map, hzero]
      simp only [Function.comp_def, hnext, Nat.succ_eq_add_one]

/-- A walk to a position of the ring ends, and visits every position up to it. -/
theorem walk_eq (hstop : stop < n) :
    walk n start stop = some ((List.range (ahead n start stop + 1)).map fun k => (start + k) % n) := by
  have hahead : ahead n start stop < n := ahead_lt (by omega) stop
  have hwalk := walkFor_eq hstart hahead hahead.le
  rwa [add_ahead hstart hstop] at hwalk

theorem mem_walk_iff {i : ℕ} {l : List ℕ} (hstop : stop < n) (h : walk n start stop = some l) :
    i ∈ l ↔ i < n ∧ ahead n start i ≤ ahead n start stop := by
  obtain rfl := Option.some.inj ((walk_eq hstart hstop).symm.trans h)
  have hn : 0 < n := by omega
  have hahead : ahead n start stop < n := ahead_lt hn stop
  rw [List.mem_map]
  constructor
  · rintro ⟨k, hk, rfl⟩
    rw [List.mem_range] at hk
    refine ⟨Nat.mod_lt _ hn, ?_⟩
    rw [ahead_add hstart (by omega)]
    omega
  · rintro ⟨hi, hle⟩
    exact ⟨ahead n start i, List.mem_range.mpr (by omega), add_ahead hstart hi⟩

end

/-- A walk to what is no position of the ring does not end, however long it goes on. -/
theorem walkFor_eq_none {fuel : ℕ} (hn : 0 < n) (hstart : start < n) (hstop : n ≤ stop) :
    walkFor n stop fuel start = none := by
  induction fuel generalizing start with
  | zero => rw [walkFor, if_neg (by omega)]
  | succ fuel ih =>
    rw [walkFor, if_neg (by omega)]
    rw [ih (Nat.mod_lt _ hn), Option.map_none]

theorem walk_eq_none (hstart : start < n) (hstop : n ≤ stop) : walk n start stop = none :=
  walkFor_eq_none (by omega) hstart hstop

end Ns3.Lib.Ring
