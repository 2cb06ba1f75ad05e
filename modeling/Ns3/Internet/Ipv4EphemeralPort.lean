import Ns3.Internet.Ipv4EndPointDemux
import Ns3.Lib.Ring

/-!
# The allocation of ephemeral ports

`AllocateEphemeralPort` counts a signed budget down while a port goes around the range of the ephemeral ports.

* `ephemeralLoop` — the loop, for a number of rounds. The budget lets it try as many ports as the range has, and then it
  ends (`ephemeralLoop_eq`).
* `place` — the port it tries after so many steps. Over one turn each port of the range is tried (`exists_place_eq`).
-/

namespace Ns3

open Lib

namespace Ipv4EndPointDemux

/-- The loop of `AllocateEphemeralPort` with its budget: what it returns, if it ends within the given rounds. -/
def ephemeralLoop (d : Ipv4EndPointDemux) : ℕ → ℤ → ℕ → Option ℕ
  | 0, _, _ => none
  | rounds + 1, count, port =>
    if count < 0 then some 0
    else
      let port := (port + 1) % 2 ^ 16
      let port := if port < d.portFirst ∨ d.portLast < port then d.portFirst else port
      if d.lookupPortLocal port then d.ephemeralLoop rounds (count - 1) port else some port

/-- The range is one of 16-bit numbers, and the port is in it. -/
structure InRange (d : Ipv4EndPointDemux) (port : ℕ) : Prop where
  first_le : d.portFirst ≤ port
  le_last : port ≤ d.portLast
  last_lt : d.portLast < 2 ^ 16

/-- The number of ports in the range. -/
def ports (d : Ipv4EndPointDemux) : ℕ := d.portLast - d.portFirst + 1

/-- The port some steps on from a port. -/
def place (d : Ipv4EndPointDemux) (port k : ℕ) : ℕ := d.portFirst + (port - d.portFirst + k) % d.ports

variable {d : Ipv4EndPointDemux} {port : ℕ}

theorem ports_pos : 0 < d.ports := Nat.succ_pos _

theorem inRange_place (h : d.InRange port) (k : ℕ) : d.InRange (d.place port k) := by
  have hfirst := h.first_le
  have hlast := h.le_last
  have hlt := Nat.mod_lt (port - d.portFirst + k) (d.ports_pos)
  refine ⟨Nat.le_add_right _ _, ?_, h.last_lt⟩
  rw [place]
  rw [ports] at hlt ⊢
  omega

/-- One step of the loop. -/
theorem place_one (h : d.InRange port) :
    (if (port + 1) % 2 ^ 16 < d.portFirst ∨ d.portLast < (port + 1) % 2 ^ 16 then d.portFirst
      else (port + 1) % 2 ^ 16) = d.place port 1 := by
  obtain ⟨hfirst, hlast, hlt⟩ := h
  rw [place, ports]
  rcases Nat.eq_or_lt_of_le hlast with rfl | hinside
  · -- behind the last port comes the first
    rw [Nat.mod_self]
    by_cases hwraps : d.portLast + 1 < 2 ^ 16
    · rw [Nat.mod_eq_of_lt hwraps, if_pos (.inr (Nat.lt_succ_self _)), Nat.add_zero]
    · rw [show d.portLast + 1 = 2 ^ 16 by omega, Nat.mod_self]
      split_ifs with hzero <;> omega
  · rw [Nat.mod_eq_of_lt (show port + 1 < 2 ^ 16 by omega), Nat.mod_eq_of_lt (by omega), if_neg (by omega)]
    omega

theorem place_place (k : ℕ) : d.place (d.place port 1) k = d.place port (k + 1) := by
  rw [place, place, place, Nat.add_sub_cancel_left, Nat.mod_add_mod, Nat.add_assoc, Nat.add_comm 1 k]

theorem exists_place_eq {q : ℕ} (hq : d.InRange q) : ∃ k < d.ports, d.place port (k + 1) = q := by
  have hfirst := hq.first_le
  have hlast := hq.le_last
  have hstart : (port - d.portFirst + 1) % d.ports < d.ports := Nat.mod_lt _ d.ports_pos
  have hturn := Ring.add_ahead hstart (show q - d.portFirst < d.ports by rw [ports]; omega)
  refine ⟨_, @Ring.ahead_lt d.ports ((port - d.portFirst + 1) % d.ports) d.ports_pos (q - d.portFirst), ?_⟩
  rw [Nat.mod_add_mod, Nat.add_assoc, Nat.add_comm 1] at hturn
  rw [place, hturn]
  exact Nat.add_sub_of_le hfirst

/-- What `nextPort` returns: the first port it tries that is not in use. -/
theorem nextPort_cases (h : d.InRange port) (count : ℕ) :
    (∃ k < count, d.nextPort count port = d.place port (k + 1) ∧ d.lookupPortLocal (d.place port (k + 1)) = false) ∨
      d.nextPort count port = 0 ∧ ∀ k < count, d.lookupPortLocal (d.place port (k + 1)) = true := by
  induction count generalizing port with
  | zero => exact .inr ⟨rfl, fun k hk => absurd hk (Nat.not_lt_zero k)⟩
  | succ count ih =>
    rw [nextPort, place_one h]
    by_cases hused : d.lookupPortLocal (d.place port 1) = true
    · rw [if_pos hused]
      rcases ih (inRange_place h 1) with ⟨k, hk, heq, hfree⟩ | ⟨hzero, hall⟩
      · rw [place_place] at heq hfree
        exact .inl ⟨k + 1, Nat.succ_lt_succ hk, heq, hfree⟩
      · refine .inr ⟨hzero, fun k hk => ?_⟩
        cases k with
        | zero => exact hused
        | succ k =>
          have hnext := hall k (Nat.lt_of_succ_lt_succ hk)
          rw [place_place] at hnext
          exact hnext
    · rw [if_neg hused]
      exact .inl ⟨0, Nat.succ_pos count, rfl, Bool.eq_false_iff.mpr hused⟩

theorem ephemeralLoop_eq (count : ℕ) : d.ephemeralLoop (count + 1) (count - 1) port = some (d.nextPort count port) := by
  induction count generalizing port with
  | zero => rfl
  | succ count ih =>
    rw [ephemeralLoop, if_neg (by omega), nextPort]
    dsimp only
    split_ifs with hused <;> first | rfl | skip
    all_goals
      rw [show ((count + 1 : ℕ) : ℤ) - 1 - 1 = count - 1 by omega]
      exact ih

theorem lookupPortLocal_iff : d.lookupPortLocal port = true ↔ ∃ e ∈ d.endPoints, e.localPort = port := by
  rw [lookupPortLocal, List.any_eq_true]
  simp only [decide_eq_true_eq]

/-- `AllocateEphemeralPort` ends with a port of the range that is not in use, or with zero exactly if there is none. -/
theorem allocateEphemeralPort_spec (hfirst : d.portFirst = 49152) (hlast : d.portLast = 65535)
    (hephemeral : 49152 ≤ d.ephemeral ∧ d.ephemeral ≤ 65535) :
    ∃ port, (∃ rounds, d.ephemeralLoop rounds (d.portLast - d.portFirst) d.ephemeral = some port) ∧
      d.allocateEphemeralPort.1 = port ∧
      (port ≠ 0 → 49152 ≤ port ∧ port ≤ 65535 ∧ ∀ e ∈ d.endPoints, e.localPort ≠ port) ∧
      (port = 0 ↔ ∀ q, 49152 ≤ q → q ≤ 65535 → ∃ e ∈ d.endPoints, e.localPort = q) := by
  have hrange : d.InRange d.ephemeral := ⟨by omega, by omega, by omega⟩
  have hloop := @ephemeralLoop_eq d d.ephemeral d.ports
  rw [show ((d.ports : ℕ) : ℤ) - 1 = d.portLast - d.portFirst by rw [ports]; omega] at hloop
  have hallocate : d.allocateEphemeralPort.1 = d.nextPort d.ports d.ephemeral := by
    rw [allocateEphemeralPort, ports]
    split_ifs with hzero
    · exact hzero.symm
    · rfl
  refine ⟨_, ⟨_, hloop⟩, hallocate, ?_⟩
  rcases nextPort_cases hrange d.ports with ⟨k, -, heq, hfree⟩ | ⟨hzero, hall⟩
  · have hin := inRange_place hrange (k + 1)
    have hnone := mt lookupPortLocal_iff.mpr (Bool.eq_false_iff.mp hfree)
    have hpos := hin.first_le
    have hle := hin.le_last
    rw [heq]
    refine ⟨fun _ => ⟨by omega, by omega, fun e he hport => hnone ⟨e, he, hport⟩⟩, ?_⟩
    refine iff_of_false (by omega) fun hused => hnone (hused _ (by omega) (by omega))
  · rw [hzero]
    refine ⟨fun hne => absurd rfl hne, iff_of_true rfl fun q hq hq' => ?_⟩
    obtain ⟨k, hk, rfl⟩ := @exists_place_eq d d.ephemeral q ⟨by omega, by omega, by omega⟩
    exact lookupPortLocal_iff.mp (hall k hk)

/-- The last port of the range is the only one in use. -/
def lastUsed : Ipv4EndPointDemux :=
  { Ipv4EndPointDemux.new with ephemeral := 65535, endPoints := [.new 0 .any 65535], made := 1 }

/-- The next one is the first of the range. -/
theorem allocateEphemeralPort_last :
    ∃ port, lastUsed.allocateEphemeralPort.1 = port ∧ port = 49152 ∧ ∀ e ∈ lastUsed.endPoints, e.localPort ≠ port := by
  obtain ⟨port, -, hport, hfree, -⟩ := @allocateEphemeralPort_spec lastUsed rfl rfl ⟨by decide, by decide⟩
  have hfirst : port = 49152 := hport ▸ by decide +kernel
  exact ⟨port, hport, hfirst, (hfree (by omega)).2.2⟩

end Ipv4EndPointDemux

end Ns3
