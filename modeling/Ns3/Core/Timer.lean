import Mathlib.Algebra.Group.Int.Defs
import Mathlib.Algebra.Group.Nat.Defs

/-!
# Simulated time and timers

A time is `Time::m_data` at the default resolution: a signed number of nanoseconds, here an
integer. A `Timer` is what the agents can see of an `ns3::Timer`: the instant its event is due
while it is running, and nothing once it was cancelled or has expired.
-/

namespace Ns3

namespace Time

/-- `Seconds (n)` for a whole number of seconds. -/
def seconds (n : ℕ) : ℤ := n * 1000000000

/-- `MilliSeconds (n)`. -/
def milliSeconds (n : ℕ) : ℤ := n * 1000000

/-- `MicroSeconds (n)`. -/
def microSeconds (n : ℤ) : ℤ := n * 1000

/-- `Time::GetMicroSeconds`: `ToInteger` divides the nanoseconds as a `uint64_t`, which the factor is. -/
def getMicroSeconds (t : ℤ) : ℤ := t % 2 ^ 64 / 1000

/-- The whole seconds of a time, `(int64_t) GetSeconds ()`. -/
def getSeconds (t : ℤ) : ℤ := Int.tdiv t 1000000000

/-- `MicroSeconds (t.GetMicroSeconds ())`: the nanoseconds are an `int64_t` again. -/
def cutToMicroSeconds (t : ℤ) : ℤ := Int.bmod (microSeconds (getMicroSeconds t)) (2 ^ 64)

theorem cutToMicroSeconds_cutToMicroSeconds (t : ℤ) :
    cutToMicroSeconds (cutToMicroSeconds t) = cutToMicroSeconds t := by
  have hnanos : cutToMicroSeconds t % (2 ^ 64 : ℕ) = t % 2 ^ 64 / 1000 * 1000 := by
    rw [cutToMicroSeconds, Int.bmod_emod, microSeconds, getMicroSeconds]
    omega
  have h : getMicroSeconds (cutToMicroSeconds t) = getMicroSeconds t := by
    rw [getMicroSeconds, getMicroSeconds]
    omega
  rw [cutToMicroSeconds, h, cutToMicroSeconds]

theorem seconds_pos {n : ℕ} (h : 0 < n) : 0 < seconds n := by
  unfold seconds
  omega

end Time

/-- `ns3::Timer`: the instant the timer expires, while it is running. -/
abbrev Timer := Option ℤ

namespace Timer

/-- A timer that does not run. -/
def cancel : Timer := none

/-- `Timer::Schedule` with `SetDelay (delay)`, at time `now`. -/
def schedule (now delay : ℤ) : Timer := some (now + delay)

/-- The timer is due at `now`: the simulator runs its function. -/
def Due (t : Timer) (now : ℤ) : Prop := t = some now
deriving Decidable

/-- Time may go on to `now` with the timer pending: the simulator runs events in the order of
their time stamps, so it does not pass one that is due. -/
def Allows (t : Timer) (now : ℤ) : Prop := ∀ d, t = some d → now ≤ d

instance (t : Timer) (now : ℤ) : Decidable (t.Allows now) :=
  match t with
  | none => isTrue (by simp [Allows])
  | some d => decidable_of_iff (now ≤ d) (by simp [Allows])

@[simp] theorem allows_none (now : ℤ) : Allows none now := by simp [Allows]

@[simp] theorem allows_some (d now : ℤ) : Allows (some d) now ↔ now ≤ d := by simp [Allows]

theorem allows_schedule {now delay : ℤ} (h : 0 ≤ delay) : (schedule now delay).Allows now := by
  rw [schedule, allows_some]
  omega

end Timer

end Ns3
