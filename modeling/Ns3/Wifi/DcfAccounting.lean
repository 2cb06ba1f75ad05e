import Mathlib.Order.MinMax
import Ns3.Lib.Pointwise
import Ns3.Wifi.DcfManager

/-!
# The accounting of the backoff

What `UpdateBackoff` counts, and what it is worth. The time for which the medium has been idle is kept in a `uint32_t`
of microseconds, so that it starts again after 2 ^ 32 of them, and so do the products of slots and their duration.

* `updateBackoffFor_some` — what `UpdateBackoff` does with a state.
* `exact_iff` — when it counts exactly the slots that have passed, and leaves the end of the backoff.
* `Accounts` — the invariant of a run: the slots that were counted off were idle, each after SIFS and AIFSN slots.
-/

namespace Ns3

open Lib

namespace DcfManager

variable {m m' : DcfManager} {now : ℤ} {s s' : DcfState} {i : ℕ}

/-- The duration of slots, in nanoseconds. -/
def slotsTime (m : DcfManager) (n : ℕ) : ℤ := (n * m.slotTimeUs.toNat * 1000 : ℕ)

/-- The microseconds from the start of the backoff on. -/
def idleUs (m : DcfManager) (now : ℤ) (s : DcfState) : ℕ := ((now - m.getBackoffStartFor s) / 1000).toNat

/-- The idle time of the state, and the end of its backoff, fit in 32 bits of microseconds, or what is cut off makes no
difference. -/
def Countable (m : DcfManager) (now : ℤ) (s : DcfState) : Prop :=
  m.getBackoffStartFor s ≤ now → m.slotTimeUs ≠ 0 ∧
    (m.idleUs now s < 2 ^ 32 ∨ s.backoffSlots.toNat * m.slotTimeUs.toNat ≤ m.idleUs now s % 2 ^ 32) ∧
    min (m.idleUs now s / m.slotTimeUs.toNat) s.backoffSlots.toNat * m.slotTimeUs.toNat ≤
      s.backoffSlots.toNat * m.slotTimeUs.toNat % 2 ^ 32
deriving Decidable

/-- The end of the backoff stays, and the slots that have passed are counted off. -/
structure Exact (m m' : DcfManager) (now : ℤ) (s s' : DcfState) : Prop where
  backoffEnd : m'.getBackoffEndFor s' = m.getBackoffEndFor s
  slots : s'.backoffSlots.toNat =
    s.backoffSlots.toNat - ((now - m.getBackoffStartFor s) / (1000 * m.slotTimeUs.toNat)).toNat

/-! ### One state -/

theorem passed_eq (m : DcfManager) (now : ℤ) (s : DcfState) :
    ((now - m.getBackoffStartFor s) / (1000 * m.slotTimeUs.toNat)).toNat = m.idleUs now s / m.slotTimeUs.toNat := by
  rw [← Int.ediv_ediv_of_nonneg (by decide), idleUs]
  generalize (now - m.getBackoffStartFor s) / 1000 = idle
  cases idle with
  | ofNat idle => exact Int.toNat_natCast _
  | negSucc idle =>
    rw [Int.toNat_negSucc, Nat.zero_div, Int.toNat_eq_zero]
    by_cases hslot : m.slotTimeUs.toNat = 0
    · rw [hslot]
      exact Int.le_of_eq (Int.ediv_zero _)
    · exact Int.le_of_lt (Int.ediv_neg_of_neg_of_pos (Int.negSucc_lt_zero idle) (by omega))

theorem microSeconds_mul (a b : UInt32) : microSeconds (a * b) = (a.toNat * b.toNat % 2 ^ 32 : ℕ) * 1000 := by
  rw [microSeconds, UInt32.toNat_mul]

/-- How many slots `UpdateBackoff` counts off. -/
def counted (m : DcfManager) (now : ℤ) (s : DcfState) : ℕ :=
  min (m.idleUs now s % 2 ^ 32 / m.slotTimeUs.toNat) s.backoffSlots.toNat

theorem counted_mul_le (m : DcfManager) (now : ℤ) (s : DcfState) :
    m.counted now s * m.slotTimeUs.toNat ≤ m.idleUs now s % 2 ^ 32 :=
  Nat.le_trans (Nat.mul_le_mul_right _ (Nat.min_le_left _ _)) (Nat.div_mul_le_self _ _)

theorem toNat_ne_zero {x : UInt32} (h : x ≠ 0) : x.toNat ≠ 0 := fun heq => h (UInt32.toNat_inj.mp heq)

/-- What `UpdateBackoff` does with a state whose backoff has started. -/
theorem updateBackoffFor_started (hstart : m.getBackoffStartFor s ≤ now) (h : m.updateBackoffFor now s = some s') :
    m.slotTimeUs ≠ 0 ∧ s'.aifsn = s.aifsn ∧ s'.accessRequested = s.accessRequested ∧
      s'.backoffSlots.toNat = s.backoffSlots.toNat - m.counted now s ∧
      s'.backoffStart = m.getBackoffStartFor s + m.slotsTime (m.counted now s) := by
  simp only [updateBackoffFor, if_pos hstart] at h
  split_ifs at h with hslot
  cases h
  have hn : (min (UInt32.ofNat ((now - m.getBackoffStartFor s) / 1000).toNat / m.slotTimeUs) s.backoffSlots).toNat =
      m.counted now s := by
    rw [toNat_min, UInt32.toNat_div, UInt32.toNat_ofNat', counted, idleUs]
  have hle : m.counted now s ≤ s.backoffSlots.toNat := Nat.min_le_right _ _
  have hfits : m.counted now s * m.slotTimeUs.toNat < 2 ^ 32 :=
    Nat.lt_of_le_of_lt (m.counted_mul_le now s) (Nat.mod_lt _ (by decide))
  refine ⟨hslot, rfl, rfl, ?_, ?_⟩
  · rw [DcfState.updateBackoffSlotsNow, UInt32.toNat_sub_of_le, hn]
    exact UInt32.le_iff_toNat_le.mpr (hn ▸ hle)
  · rw [DcfState.updateBackoffSlotsNow, microSeconds_mul, hn, Nat.mod_eq_of_lt hfits, slotsTime,
      Int.natCast_mul _ 1000]
    rfl

theorem updateBackoffFor_waits (hstart : ¬ m.getBackoffStartFor s ≤ now) : m.updateBackoffFor now s = some s := by
  simp only [updateBackoffFor, if_neg hstart]

theorem exists_updateBackoffFor (hslot : m.slotTimeUs ≠ 0) : ∃ s', m.updateBackoffFor now s = some s' := by
  by_cases hstart : m.getBackoffStartFor s ≤ now
  · simp only [updateBackoffFor, if_pos hstart, if_neg hslot]
    exact ⟨_, rfl⟩
  · exact ⟨s, updateBackoffFor_waits hstart⟩

theorem updateBackoffFor_le (h : m.updateBackoffFor now s = some s') : s'.backoffSlots ≤ s.backoffSlots := by
  by_cases hstart : m.getBackoffStartFor s ≤ now
  · obtain ⟨-, -, -, hslots, -⟩ := updateBackoffFor_started hstart h
    rw [UInt32.le_iff_toNat_le, hslots]
    exact Nat.sub_le _ _
  · obtain rfl := Option.some.inj ((updateBackoffFor_waits hstart).symm.trans h)
    exact UInt32.le_refl _

/-- The sum of what is counted off and of what is left, where the product of all slots does not fit. -/
theorem add_mod_eq_mod_iff {a b : ℕ} (ha : a < 2 ^ 32) : a + b % 2 ^ 32 = (a + b) % 2 ^ 32 ↔ a ≤ (a + b) % 2 ^ 32 := by
  omega

theorem div_lt_div_of_wraps {idle slot : ℕ} (hslot : slot ≠ 0) (hlt : slot < 2 ^ 32) (hle : 2 ^ 32 ≤ idle) :
    idle % 2 ^ 32 / slot < idle / slot := by
  have hsum : idle % 2 ^ 32 + slot ≤ idle := by omega
  calc idle % 2 ^ 32 / slot < idle % 2 ^ 32 / slot + 1 := Nat.lt_succ_self _
    _ = (idle % 2 ^ 32 + slot) / slot := (Nat.add_div_right _ (Nat.pos_of_ne_zero hslot)).symm
    _ ≤ idle / slot := Nat.div_le_div_right hsum

theorem sub_counted_iff (hslot : m.slotTimeUs ≠ 0) :
    s.backoffSlots.toNat - m.counted now s = s.backoffSlots.toNat - m.idleUs now s / m.slotTimeUs.toNat ↔
      m.idleUs now s < 2 ^ 32 ∨ s.backoffSlots.toNat * m.slotTimeUs.toNat ≤ m.idleUs now s % 2 ^ 32 := by
  have hpos : 0 < m.slotTimeUs.toNat := Nat.pos_of_ne_zero (toNat_ne_zero hslot)
  rw [counted]
  generalize m.idleUs now s = idle
  by_cases hlt : idle < 2 ^ 32
  · rw [Nat.mod_eq_of_lt hlt]
    exact iff_of_true (by omega) (.inl hlt)
  · have hwraps := div_lt_div_of_wraps (toNat_ne_zero hslot) m.slotTimeUs.toNat_lt (Nat.le_of_not_lt hlt)
    rw [or_iff_right hlt, ← Nat.le_div_iff_mul_le hpos]
    omega

theorem counted_le (m : DcfManager) (now : ℤ) (s : DcfState) : m.counted now s ≤ s.backoffSlots.toNat :=
  Nat.min_le_right _ _

/-- The slots that are left start where those that were counted off end. -/
theorem getBackoffStartFor_updated (hstart : m.getBackoffStartFor s ≤ now) (h : m.updateBackoffFor now s = some s') :
    m.getBackoffStartFor s' = m.getBackoffStartFor s + m.slotsTime (m.counted now s) := by
  obtain ⟨-, haifsn, -, -, hbound⟩ := updateBackoffFor_started hstart h
  have hle : m.getAccessGrantStart + microSeconds (s.aifsn * m.slotTimeUs) ≤ m.getBackoffStartFor s :=
    Int.le_max_right _ _
  have htime : 0 ≤ m.slotsTime (m.counted now s) := Int.natCast_nonneg _
  rw [getBackoffStartFor, haifsn, hbound, max_eq_left (by omega)]

/-- When the end of the backoff stays. -/
theorem getBackoffEndFor_updated_iff (hstart : m.getBackoffStartFor s ≤ now) (h : m.updateBackoffFor now s = some s') :
    m.getBackoffEndFor s' = m.getBackoffEndFor s ↔
      m.counted now s * m.slotTimeUs.toNat ≤ s.backoffSlots.toNat * m.slotTimeUs.toNat % 2 ^ 32 := by
  obtain ⟨-, -, -, hslots, -⟩ := updateBackoffFor_started hstart h
  have hfits : m.counted now s * m.slotTimeUs.toNat < 2 ^ 32 :=
    Nat.lt_of_le_of_lt (m.counted_mul_le now s) (Nat.mod_lt _ (by decide))
  have hsum : m.counted now s * m.slotTimeUs.toNat + (s.backoffSlots.toNat - m.counted now s) * m.slotTimeUs.toNat =
      s.backoffSlots.toNat * m.slotTimeUs.toNat := by
    rw [← Nat.add_mul, Nat.add_sub_cancel' (m.counted_le now s)]
  have hiff := @add_mod_eq_mod_iff _ ((s.backoffSlots.toNat - m.counted now s) * m.slotTimeUs.toNat) hfits
  rw [hsum] at hiff
  rw [← hiff, getBackoffEndFor, getBackoffEndFor, getBackoffStartFor_updated hstart h, microSeconds_mul,
    microSeconds_mul, hslots, slotsTime]
  omega

/-- When the round of a state is exact. -/
theorem exact_iff (hm : ∀ s, m'.getBackoffStartFor s = m.getBackoffStartFor s) (hslots : m'.slotTimeUs = m.slotTimeUs) :
    (∃ s', m.updateBackoffFor now s = some s' ∧ Exact m m' now s s') ↔ m.Countable now s := by
  by_cases hstart : m.getBackoffStartFor s ≤ now
  case neg =>
    refine iff_of_true ⟨s, updateBackoffFor_waits hstart, ?_, ?_⟩ fun h => absurd h hstart
    · rw [getBackoffEndFor, getBackoffEndFor, hm, hslots]
    · have hneg : (now - m.getBackoffStartFor s) / 1000 < 0 := by omega
      rw [passed_eq, idleUs, Int.toNat_of_nonpos (Int.le_of_lt hneg), Nat.zero_div, Nat.sub_zero]
  case pos =>
    have hends : ∀ s', m'.getBackoffEndFor s' = m.getBackoffEndFor s' := fun s' => by
      rw [getBackoffEndFor, getBackoffEndFor, hm, hslots]
    constructor
    · rintro ⟨s', hs', hend, hexact⟩ -
      obtain ⟨hslot, -, -, hleft, -⟩ := updateBackoffFor_started hstart hs'
      rw [hends, getBackoffEndFor_updated_iff hstart hs'] at hend
      rw [passed_eq, hleft] at hexact
      have hcounted : min (m.idleUs now s / m.slotTimeUs.toNat) s.backoffSlots.toNat = m.counted now s := by
        have hle := m.counted_le now s
        omega
      exact ⟨hslot, (sub_counted_iff hslot).mp hexact, hcounted ▸ hend⟩
    · intro hcount
      obtain ⟨hslot, hidle, hfits⟩ := hcount hstart
      obtain ⟨s', hs'⟩ := @exists_updateBackoffFor m now s hslot
      obtain ⟨-, -, -, hleft, -⟩ := updateBackoffFor_started hstart hs'
      have hexact := (sub_counted_iff hslot).mpr hidle
      have hcounted : m.counted now s = min (m.idleUs now s / m.slotTimeUs.toNat) s.backoffSlots.toNat := by
        have hle := m.counted_le now s
        omega
      refine ⟨s', hs', ?_, ?_⟩
      · rw [hends, getBackoffEndFor_updated_iff hstart hs', hcounted]
        exact hfits
      · rw [passed_eq, hleft, hexact]

/-! ### All states -/

theorem updateBackoff_some (h : m.updateBackoff now = some m') :
    ∃ states, m.states.mapM (m.updateBackoffFor now) = some states ∧ m' = { m with states := states } := by
  obtain ⟨states, hstates, rfl⟩ := Option.map_eq_some_iff.mp h
  exact ⟨states, hstates, rfl⟩

theorem updateBackoff_le (h : m.updateBackoff now = some m') :
    List.Forall₂ (fun s s' => s'.backoffSlots ≤ s.backoffSlots) m.states m'.states := by
  obtain ⟨states, hstates, rfl⟩ := updateBackoff_some h
  exact (mapM_eq_some_iff.mp hstates).imp fun s s' => updateBackoffFor_le

/-- When `UpdateBackoff` is exact. -/
theorem updateBackoff_exact_iff :
    (∃ m', m.updateBackoff now = some m' ∧ List.Forall₂ (Exact m m' now) m.states m'.states) ↔
      ∀ s ∈ m.states, m.Countable now s := by
  have hsame : ∀ states, Exact m { m with states := states } now = Exact m m now := fun states => by
    funext s s'
    exact propext ⟨fun h => ⟨h.backoffEnd, h.slots⟩, fun h => ⟨h.backoffEnd, h.slots⟩⟩
  rw [← forall₂_congr fun s _ => @exact_iff m m now s (fun _ => rfl) rfl, ← exists_forall₂_iff]
  constructor
  · rintro ⟨m', h, hexact⟩
    obtain ⟨states, hstates, rfl⟩ := updateBackoff_some h
    rw [hsame] at hexact
    exact ⟨states, forall₂_and.mpr ⟨mapM_eq_some_iff.mp hstates, hexact⟩⟩
  · rintro ⟨states, h⟩
    refine ⟨{ m with states := states }, ?_, ?_⟩
    · rw [updateBackoff, mapM_eq_some_iff.mpr (h.imp fun _ _ h => h.1)]
      rfl
    · rw [hsame]
      exact h.imp fun _ _ h => h.2

/-! ### Access -/

/-- The places of the states that are ready. -/
def ready (m : DcfManager) (now : ℤ) : List ℕ :=
  ((m.states.zipIdx).filter fun x => m.Ready now x.1).map Prod.snd

theorem internalCollisions_eq (m : DcfManager) (now : ℤ) (j : ℕ) (states : List DcfState) :
    m.internalCollisions now j states = ((states.zipIdx j).filter fun x => m.Ready now x.1).map Prod.snd := by
  induction states generalizing j with
  | nil => rfl
  | cons s states ih =>
    rw [internalCollisions, List.zipIdx_cons, ih]
    split_ifs with hready
    · rw [List.filter_cons_of_pos (by exact decide_eq_true hready), List.map_cons]
    · rw [List.filter_cons_of_neg (by simpa using hready)]

theorem granted_eq (m : DcfManager) (now : ℤ) (i : ℕ) (states : List DcfState) :
    m.granted now i states =
      match ((states.zipIdx i).filter fun x => m.Ready now x.1).map Prod.snd with
      | [] => none
      | first :: rest => some (first, rest) := by
  induction states generalizing i with
  | nil => rfl
  | cons s states ih =>
    rw [granted, List.zipIdx_cons]
    split_ifs with hready
    · rw [List.filter_cons_of_pos (by exact decide_eq_true hready), List.map_cons, internalCollisions_eq]
    · rw [List.filter_cons_of_neg (by simpa using hready), ih]

theorem doGrantAccess_eq (m : DcfManager) (now : ℤ) :
    m.doGrantAccess now =
      match m.ready now with
      | [] => (m, [])
      | first :: rest =>
        (m.modifyState first fun s => { s with accessRequested := false },
          .accessGranted first :: rest.map .internalCollision) := by
  rw [doGrantAccess, granted_eq, ready]
  cases ((m.states.zipIdx).filter fun x => m.Ready now x.1).map Prod.snd <;> rfl

/-! ### Runs -/

/-- The medium is busy, as the manager knows at the last event. -/
def BusyNow (m : DcfManager) (t : ℤ) : Prop :=
  m.rxing = true ∨
    ∃ busyEnd ∈ [m.lastTxStart + m.lastTxDuration, m.lastNavStart + m.lastNavDuration,
      m.lastBusyStart + m.lastBusyDuration, m.lastSwitchingStart + m.lastSwitchingDuration,
      m.lastAckTimeoutEnd, m.lastCtsTimeoutEnd], t < busyEnd

/-- The medium was busy at some time of a run. -/
def BusyAt (tr : List (Station × Event)) (t : ℤ) : Prop :=
  ∃ x ∈ tr, x.1.now ≤ t ∧ t < x.2.time x.1 ∧ x.1.manager.BusyNow t

/-- A medium that is busy at some times is idle from `lo` to `hi`. -/
def Idle (busy : ℤ → Prop) (lo hi : ℤ) : Prop := ∀ t, lo ≤ t → t < hi → ¬ busy t

/-- What a state drew last. -/
structure Draw where
  slots : UInt32
  time : ℤ

/-- `StartBackoffNow` draws slots, and the switching of the channel takes back those that are left. -/
def draw (s : Station) : Event → (ℕ → Draw) → ℕ → Draw
  | .call time (.startBackoffNow i nSlots), ds => Function.update ds i ⟨nSlots, time⟩
  | .task, ds =>
    match s.tasks with
    | .resetBackoff i :: _ =>
      if ∃ state ∈ s.manager.states[i]?, 0 < state.backoffSlots then Function.update ds i ⟨0, s.now⟩ else ds
    | _ => ds
  | _, ds => ds

/-- What the states drew in a run. -/
def draws (tr : List (Station × Event)) : ℕ → Draw := Lib.Machine.history draw (fun _ => ⟨0, 0⟩) tr

/-- SIFS and the AIFSN slots of a state. -/
def defer (m : DcfManager) (s : DcfState) : ℤ := m.sifs + m.slotsTime s.aifsn.toNat

/-- A state has waited long enough: the medium has been idle for SIFS and its AIFSN slots, and for each of the slots
that it drew there is one in which it was idle, after SIFS and AIFSN slots too. -/
structure Waited (busy : ℤ → Prop) (m : DcfManager) (now : ℤ) (s : DcfState) (d : Draw) : Prop where
  last : Idle busy (now - m.defer s) now
  slots : ∃ starts : List ℤ, starts.length = d.slots.toNat ∧ starts.Pairwise (fun a b => a + m.slotsTime 1 ≤ b) ∧
    ∀ a ∈ starts, d.time ≤ a ∧ a + m.slotsTime 1 ≤ now ∧ Idle busy (a - m.defer s) (a + m.slotsTime 1)

/-- The slots that are drawn. -/
def drawnSlots : Event → UInt32
  | .call _ (.startBackoffNow _ nSlots) => nSlots
  | _ => 0

/-- A reception ends when it was announced to, and the slots that are drawn fit in 32 bits of microseconds. -/
def Timely (s : Station) (e : Event) : Prop :=
  (s.manager.rxing = true → e.time s ≤ s.manager.lastRxStart + s.manager.lastRxDuration) ∧
    (drawnSlots e).toNat * s.manager.slotTimeUs.toNat < 2 ^ 32
deriving Decidable

/-! ### The slots of a state -/

/-- The ends of what keeps the medium busy, as `GetAccessGrantStart` has them. -/
def lastEnds (m : DcfManager) : List ℤ :=
  [if m.rxing = false then m.lastRxEnd else m.lastRxStart + m.lastRxDuration, m.lastTxStart + m.lastTxDuration,
    m.lastNavStart + m.lastNavDuration, m.lastBusyStart + m.lastBusyDuration,
    m.lastSwitchingStart + m.lastSwitchingDuration, m.lastAckTimeoutEnd, m.lastCtsTimeoutEnd]

theorem le_getAccessGrantStart {busyEnd : ℤ} (h : busyEnd ∈ m.lastEnds) : busyEnd + m.sifs ≤ m.getAccessGrantStart := by
  have hrx : (if m.rxing = false then m.lastRxEnd else m.lastRxStart + m.lastRxDuration) + (m.sifs : ℤ) ≤
      if m.rxing = false then m.lastRxEnd + m.sifs + if m.lastRxReceivedOk = false then (m.eifsNoDifs : ℤ) else 0
      else m.lastRxStart + m.lastRxDuration + m.sifs := by
    split_ifs <;> omega
  simp only [lastEnds, List.mem_cons, List.not_mem_nil, or_false] at h
  simp only [getAccessGrantStart, le_max_iff]
  rcases h with rfl | rfl | rfl | rfl | rfl | rfl | rfl
  · exact .inl (.inl (.inl hrx))
  · exact .inl (.inr (.inl (Int.le_refl _)))
  · exact .inl (.inr (.inr (Int.le_refl _)))
  · exact .inl (.inl (.inr (Int.le_refl _)))
  · exact .inr (.inr (Int.le_refl _))
  · exact .inr (.inl (.inl (Int.le_refl _)))
  · exact .inr (.inl (.inr (Int.le_refl _)))

theorem slotsTime_add (m : DcfManager) (a b : ℕ) : m.slotsTime (a + b) = m.slotsTime a + m.slotsTime b := by
  rw [slotsTime, slotsTime, slotsTime, Nat.add_mul, Nat.add_mul, Int.natCast_add]

theorem slotsTime_nonneg (m : DcfManager) (n : ℕ) : 0 ≤ m.slotsTime n := Int.natCast_nonneg _

/-- The slots of a state that were counted off, and how many are left. -/
structure Counted (busy : ℤ → Prop) (m : DcfManager) (now : ℤ) (s : DcfState) (d : Draw) : Prop where
  slots : ∃ starts : List ℤ, starts.length + s.backoffSlots.toNat = d.slots.toNat ∧
    starts.Pairwise (fun a b => a + m.slotsTime 1 ≤ b) ∧
    ∀ a ∈ starts, d.time ≤ a ∧ a + m.slotsTime 1 ≤ s.backoffStart ∧ Idle busy (a - m.defer s) (a + m.slotsTime 1)
  time : d.time ≤ s.backoffStart
  start : s.backoffStart ≤ now
  fits : d.slots.toNat * m.slotTimeUs.toNat < 2 ^ 32
  aifs : s.aifsn.toNat * m.slotTimeUs.toNat < 2 ^ 32

variable {busy busy' : ℤ → Prop} {now' : ℤ} {d : Draw}

section

variable (h : m.Counted busy now s d)
include h

/-- The medium has been idle for SIFS and AIFSN slots when the backoff starts. -/
theorem Counted.idle (hbusy : ∀ t, busy t → ∃ busyEnd ∈ m.lastEnds, t < busyEnd) {lo : ℤ}
    (hlo : m.getBackoffStartFor s ≤ lo) (hi : ℤ) : Idle busy (lo - m.defer s) hi := by
  intro t hlower _ ht
  obtain ⟨busyEnd, hmem, hlt⟩ := hbusy t ht
  have hgrant := le_getAccessGrantStart hmem
  have hstart : m.getAccessGrantStart + m.slotsTime s.aifsn.toNat ≤ m.getBackoffStartFor s := by
    have hle : m.getAccessGrantStart + microSeconds (s.aifsn * m.slotTimeUs) ≤ m.getBackoffStartFor s :=
      Int.le_max_right _ _
    rw [microSeconds_mul, Nat.mod_eq_of_lt h.aifs] at hle
    rw [slotsTime]
    omega
  rw [defer] at hlower
  omega

/-- The slots that follow are counted off too. -/
theorem Counted.extend (hbusy : ∀ t, busy t → ∃ busyEnd ∈ m.lastEnds, t < busyEnd) {n : ℕ}
    (hn : n ≤ s.backoffSlots.toNat) (hnow : m.getBackoffStartFor s + m.slotsTime n ≤ now) (haifsn : s'.aifsn = s.aifsn)
    (hslots : s'.backoffSlots.toNat = s.backoffSlots.toNat - n)
    (hstart : s'.backoffStart = m.getBackoffStartFor s + m.slotsTime n) : m.Counted busy now s' d := by
  have hfrom : s.backoffStart ≤ m.getBackoffStartFor s := Int.le_max_left _ _
  have hdefer : m.defer s' = m.defer s := by rw [defer, defer, haifsn]
  have htime := h.time
  have hnonneg := m.slotsTime_nonneg n
  obtain ⟨starts, hlength, hpairwise, hstarts⟩ := h.slots
  refine ⟨⟨starts ++ (List.range n).map fun k => m.getBackoffStartFor s + m.slotsTime k, ?_, ?_, ?_⟩, by omega,
    by omega, h.fits, haifsn ▸ h.aifs⟩
  · rw [List.length_append, List.length_map, List.length_range, hslots]
    omega
  · refine List.pairwise_append.mpr ⟨hpairwise, List.pairwise_map.mpr (List.pairwise_lt_range.imp ?_), ?_⟩
    · intro a b hab
      obtain ⟨c, rfl⟩ := Nat.exists_eq_add_of_lt hab
      have hsum := m.slotsTime_add (a + 1) c
      have hone := m.slotsTime_add a 1
      have hc := m.slotsTime_nonneg c
      rw [show a + c + 1 = a + 1 + c by omega]
      omega
    · intro a ha b hb
      obtain ⟨k, -, rfl⟩ := List.mem_map.mp hb
      have hk := m.slotsTime_nonneg k
      have hend := (hstarts a ha).2.1
      omega
  · intro a ha
    rw [hdefer]
    rcases List.mem_append.mp ha with ha | ha
    · obtain ⟨hdraw, hend, hidle⟩ := hstarts a ha
      exact ⟨hdraw, by omega, hidle⟩
    · obtain ⟨k, hk, rfl⟩ := List.mem_map.mp ha
      obtain ⟨c, rfl⟩ := Nat.exists_eq_add_of_lt (List.mem_range.mp hk)
      have hsum := m.slotsTime_add (k + 1) c
      have hone := m.slotsTime_add k 1
      have hc := m.slotsTime_nonneg c
      have hkn := m.slotsTime_nonneg k
      rw [show k + c + 1 = k + 1 + c by omega] at hstart
      exact ⟨by omega, by omega, h.idle hbusy (by omega) _⟩

theorem Counted.updateBackoffFor
    (hbusy : ∀ t, busy t → ∃ busyEnd ∈ m.lastEnds, t < busyEnd) (hs : m.updateBackoffFor now s = some s') :
    m.Counted busy now s' d := by
  by_cases hstart : m.getBackoffStartFor s ≤ now
  · obtain ⟨-, haifsn, -, hslots, hbound⟩ := updateBackoffFor_started hstart hs
    refine h.extend hbusy (m.counted_le now s) ?_ haifsn hslots hbound
    have hle := m.counted_mul_le now s
    have hmod := Nat.mod_le (m.idleUs now s) (2 ^ 32)
    have hidle : (m.idleUs now s : ℤ) = (now - m.getBackoffStartFor s) / 1000 := by
      rw [idleUs]
      omega
    rw [slotsTime]
    omega
  · obtain rfl := Option.some.inj ((updateBackoffFor_waits hstart).symm.trans hs)
    exact h

/-- A state that is ready has waited long enough. -/
theorem Counted.waited (hbusy : ∀ t, busy t → ∃ busyEnd ∈ m.lastEnds, t < busyEnd)
    (hready : m.getBackoffEndFor s ≤ now) : m.Waited busy now s d := by
  have hfits : s.backoffSlots.toNat * m.slotTimeUs.toNat < 2 ^ 32 := by
    obtain ⟨starts, hlength, -⟩ := h.slots
    exact Nat.lt_of_le_of_lt (Nat.mul_le_mul_right _ (hlength ▸ Nat.le_add_left _ _)) h.fits
  have hend : m.getBackoffStartFor s + m.slotsTime s.backoffSlots.toNat ≤ now := by
    rw [getBackoffEndFor, microSeconds_mul, Nat.mod_eq_of_lt hfits] at hready
    rw [slotsTime]
    omega
  have hnonneg := m.slotsTime_nonneg s.backoffSlots.toNat
  have hall : m.Counted busy now
      { s with backoffSlots := 0, backoffStart := m.getBackoffStartFor s + m.slotsTime s.backoffSlots.toNat } d :=
    h.extend hbusy (Nat.le_refl _) hend rfl (Nat.sub_self _).symm rfl
  obtain ⟨starts, hlength, hpairwise, hstarts⟩ := hall.slots
  refine ⟨h.idle hbusy (by omega) now, starts, hlength, hpairwise, fun a ha => ?_⟩
  obtain ⟨hdraw, hle, hidle⟩ := hstarts a ha
  exact ⟨hdraw, Int.le_trans hle hend, hidle⟩

end

/-! ### The invariant of a run -/

/-- What is known of the medium covers when it was busy, and the slots of all states were counted off rightly. -/
structure Accounts (busy : ℤ → Prop) (now : ℤ) (ds : ℕ → Draw) (m : DcfManager) : Prop where
  past : ∀ t, busy t → t < now
  known : ∀ t, busy t → ∃ busyEnd ∈ m.lastEnds, t < busyEnd
  states : ∀ i s, m.states[i]? = some s → m.Counted busy now s (ds i)

variable {ds ds' : ℕ → Draw}

/-- The ends of what keeps the medium busy stay, are put off, or are not before now. -/
def Later (now : ℤ) (m m' : DcfManager) : Prop :=
  List.Forall₂ (fun busyEnd busyEnd' => busyEnd ≤ busyEnd' ∨ now ≤ busyEnd') m.lastEnds m'.lastEnds

theorem later_iff : Later now m m' ↔
    ((if m.rxing = false then m.lastRxEnd else m.lastRxStart + m.lastRxDuration) ≤
        (if m'.rxing = false then m'.lastRxEnd else m'.lastRxStart + m'.lastRxDuration) ∨
      now ≤ if m'.rxing = false then m'.lastRxEnd else m'.lastRxStart + m'.lastRxDuration) ∧
    (m.lastTxStart + m.lastTxDuration ≤ m'.lastTxStart + m'.lastTxDuration ∨
      now ≤ m'.lastTxStart + m'.lastTxDuration) ∧
    (m.lastNavStart + m.lastNavDuration ≤ m'.lastNavStart + m'.lastNavDuration ∨
      now ≤ m'.lastNavStart + m'.lastNavDuration) ∧
    (m.lastBusyStart + m.lastBusyDuration ≤ m'.lastBusyStart + m'.lastBusyDuration ∨
      now ≤ m'.lastBusyStart + m'.lastBusyDuration) ∧
    (m.lastSwitchingStart + m.lastSwitchingDuration ≤ m'.lastSwitchingStart + m'.lastSwitchingDuration ∨
      now ≤ m'.lastSwitchingStart + m'.lastSwitchingDuration) ∧
    (m.lastAckTimeoutEnd ≤ m'.lastAckTimeoutEnd ∨ now ≤ m'.lastAckTimeoutEnd) ∧
    (m.lastCtsTimeoutEnd ≤ m'.lastCtsTimeoutEnd ∨ now ≤ m'.lastCtsTimeoutEnd) := by
  simp only [Later, lastEnds, List.forall₂_cons, List.Forall₂.nil, and_true]

theorem Counted.of_eq (h : m.Counted busy now s d) (hslot : m'.slotTimeUs = m.slotTimeUs) (hsifs : m'.sifs = m.sifs) :
    m'.Counted busy now s d := by
  have htime : m'.slotsTime = m.slotsTime := by
    funext n
    rw [slotsTime, slotsTime, hslot]
  have hdefer : m'.defer s = m.defer s := by rw [defer, defer, htime, hsifs]
  exact ⟨by rw [htime, hdefer]; exact h.slots, h.time, h.start, hslot ▸ h.fits, hslot ▸ h.aifs⟩

/-- Something else is known of the medium. -/
theorem Accounts.later (h : Accounts busy now ds m) (hlater : Later now m m') (hstates : m'.states = m.states)
    (hslot : m'.slotTimeUs = m.slotTimeUs) (hsifs : m'.sifs = m.sifs) : Accounts busy now ds m' := by
  refine ⟨h.past, fun t ht => ?_, fun i s hs => ?_⟩
  · obtain ⟨busyEnd, hmem, hlt⟩ := h.known t ht
    obtain ⟨k, hk⟩ := List.mem_iff_getElem?.mp hmem
    obtain ⟨hlength, hget⟩ := List.forall₂_iff_get.mp hlater
    obtain ⟨hk', rfl⟩ := List.getElem?_eq_some_iff.mp hk
    have hpast := h.past t ht
    refine ⟨m'.lastEnds.get ⟨k, hlength ▸ hk'⟩, List.get_mem _ _, ?_⟩
    rcases hget k hk' (hlength ▸ hk') with hle | hle
    · exact Int.lt_of_lt_of_le hlt hle
    · exact Int.lt_of_lt_of_le hpast hle
  · rw [hstates] at hs
    exact (h.states i s hs).of_eq hslot hsifs

/-- What keeps the medium busy until now or later. -/
inductive Mark (now : ℤ) where
  | tx (duration : ℕ)
  | nav (duration : ℕ)
  | cca (duration : ℕ)
  | switching (duration : ℕ)
  | ackTimeout (busyEnd : ℤ) (h : now ≤ busyEnd)
  | ctsTimeout (busyEnd : ℤ) (h : now ≤ busyEnd)

/-- It is recorded. -/
def mark (m : DcfManager) : Mark now → DcfManager
  | .tx duration => { m with lastTxStart := now, lastTxDuration := duration }
  | .nav duration => { m with lastNavStart := now, lastNavDuration := duration }
  | .cca duration => { m with lastBusyStart := now, lastBusyDuration := duration }
  | .switching duration => { m with lastSwitchingStart := now, lastSwitchingDuration := duration }
  | .ackTimeout busyEnd _ => { m with lastAckTimeoutEnd := busyEnd }
  | .ctsTimeout busyEnd _ => { m with lastCtsTimeoutEnd := busyEnd }

theorem later_mark (m : DcfManager) (k : Mark now) : Later now m (m.mark k) := by
  cases k <;> refine later_iff.mpr ⟨.inl (Int.le_refl _), ?_⟩ <;> dsimp only [mark] <;> omega

section

variable (h : Accounts busy now ds m)
include h

theorem Accounts.mark (k : Mark now) : Accounts busy now ds (m.mark k) := by
  refine h.later (later_mark m k) ?_ ?_ ?_ <;> cases k <;> rfl

theorem Accounts.updateBackoff (hm : m.updateBackoff now = some m') :
    Accounts busy now ds m' := by
  obtain ⟨states, hstates, rfl⟩ := updateBackoff_some hm
  obtain ⟨hlength, hget⟩ := List.forall₂_iff_get.mp (mapM_eq_some_iff.mp hstates)
  refine ⟨h.past, h.known, fun i s' hs' => ?_⟩
  obtain ⟨hi, rfl⟩ := List.getElem?_eq_some_iff.mp hs'
  have hi' : i < m.states.length := hlength ▸ hi
  have hcounted := h.states i (m.states[i]) (List.getElem?_eq_getElem hi')
  exact (hcounted.updateBackoffFor h.known (hget i hi' hi)).of_eq rfl rfl

/-- The state at place `i` changes. -/
theorem Accounts.set {states : List DcfState}
    (hother : ∀ j, j ≠ i → states[j]? = m.states[j]? ∧ ds' j = ds j)
    (hi : ∀ s', states[i]? = some s' → m.Counted busy now s' (ds' i)) :
    Accounts busy now ds' { m with states := states } := by
  refine ⟨h.past, h.known, fun j s hs => ?_⟩
  by_cases hj : j = i
  · subst hj
    exact (hi s hs).of_eq rfl rfl
  · obtain ⟨hsame, hdraw⟩ := hother j hj
    rw [hdraw]
    exact (h.states j s (hsame ▸ hs)).of_eq rfl rfl

theorem Accounts.modifyState {f : DcfState → DcfState}
    (hother : ∀ j, j ≠ i → ds' j = ds j)
    (hf : ∀ s, m.states[i]? = some s → m.Counted busy now s (ds i) → m.Counted busy now (f s) (ds' i)) :
    Accounts busy now ds' (m.modifyState i f) := by
  refine h.set (i := i) (fun j hj => ⟨?_, hother j hj⟩) fun s' hs' => ?_
  · exact List.getElem?_modify_ne _ _ (Ne.symm hj)
  · rw [List.getElem?_modify_eq] at hs'
    obtain ⟨s, hs, rfl⟩ := Option.map_eq_some_iff.mp hs'
    exact hf s hs (h.states i s hs)

end

theorem Counted.accessRequested (h : m.Counted busy now s d) (b : Bool) :
    m.Counted busy now { s with accessRequested := b } d :=
  ⟨h.slots, h.time, h.start, h.fits, h.aifs⟩

theorem Counted.reset (h : m.Counted busy now s d) : m.Counted busy now (resetBackoff now s)
    (if 0 < s.backoffSlots then ⟨0, now⟩ else d) := by
  rw [resetBackoff]
  refine Counted.accessRequested ?_ false
  split_ifs with hpos
  · refine ⟨⟨[], ?_, .nil, fun a ha => absurd ha List.not_mem_nil⟩, Int.le_refl _, Int.le_refl _, ?_, h.aifs⟩
    · rw [DcfState.updateBackoffSlotsNow, UInt32.sub_self]
      rfl
    · rw [UInt32.toNat_zero, Nat.zero_mul]
      decide
  · exact h

theorem Accounts.restart (h : Accounts busy now ds m) :
    Accounts busy now ds (m.doRestartAccessTimeoutIfNeeded now) := by
  have hsame : ∃ due, m.doRestartAccessTimeoutIfNeeded now = { m with accessTimeout := due } := by
    rw [doRestartAccessTimeoutIfNeeded]
    split
    · exact ⟨m.accessTimeout, rfl⟩
    · split <;> exact ⟨_, rfl⟩
  obtain ⟨due, hdue⟩ := hsame
  rw [hdue]
  exact ⟨h.past, h.known, fun i s hs => (h.states i s hs).of_eq rfl rfl⟩

/-- What a task does. -/
theorem Accounts.perform {s : Station} {task : Task} {rest : List Task} (h : Accounts busy s.now ds s.manager)
    (htasks : s.tasks = task :: rest) :
    Accounts busy s.now (draw s .task ds) (s.manager.perform s.now task).1 := by
  rw [draw, htasks]
  cases task with
  | tell notice => exact h
  | grantAccess =>
    change Accounts busy s.now ds (s.manager.doGrantAccess s.now).1
    rw [doGrantAccess]
    split
    · exact h
    · exact h.modifyState (fun _ _ => rfl) fun _ _ hs => hs.accessRequested false
  | restartAccessTimeout => exact h.restart
  | resetBackoff i =>
    dsimp only
    refine h.modifyState (i := i) (fun j hj => ?_) fun state hs hcounted => ?_
    · split_ifs
      · exact Function.update_of_ne hj _ _
      · rfl
    · have hreset := hcounted.reset
      simp only [hs, Option.mem_def, Option.some.injEq, exists_eq_left']
      split_ifs at hreset ⊢ with hpos
      · rw [Function.update_self]
        exact hreset
      · exact hreset
  | switchingStart duration =>
    exact h.mark (.switching duration)

theorem Accounts.stopRx (h : Accounts busy now ds m) : Accounts busy now ds (m.stopRx now) := by
  rw [DcfManager.stopRx]
  split_ifs with hrx
  · refine h.later (later_iff.mpr ?_) rfl rfl rfl
    dsimp only
    rw [if_pos rfl]
    omega
  · exact h

theorem Accounts.notifyRxEnd (h : Accounts busy now ds m) (ok : Bool) :
    Accounts busy now ds (m.notifyRxEnd now ok) := by
  rw [DcfManager.notifyRxEnd]
  refine h.later (later_iff.mpr ?_) rfl rfl rfl
  dsimp only
  rw [if_pos rfl]
  omega

theorem Accounts.cutShort (h : Accounts busy now ds m) : Accounts busy now ds (m.cutShort now) := by
  refine h.stopRx.later (later_iff.mpr ⟨.inl (Int.le_refl _), ?_⟩) rfl rfl rfl
  dsimp only [DcfManager.cutShort]
  split_ifs <;> omega

/-- What a call does at once. -/
theorem Accounts.call {s : Station} {c : Call} {tasks : List Task} (h : Accounts busy now ds s.manager)
    (hcall : s.manager.call now c = some (m', tasks)) (htimely : Timely s (.call now c)) :
    Accounts busy now (draw s (.call now c) ds) m' := by
  cases c with
  | requestAccess i =>
    simp only [DcfManager.call, requestAccess, Option.bind_eq_bind, Option.bind_eq_some_iff] at hcall
    obtain ⟨m₁, hm₁, state, hstate, hcall⟩ := hcall
    by_cases hrequested : state.accessRequested = true
    · rw [if_pos hrequested] at hcall
      cases hcall
    rw [if_neg hrequested] at hcall
    obtain ⟨rfl, -⟩ := Prod.mk.inj (Option.some.inj hcall)
    have h₁ := h.updateBackoff hm₁
    refine h₁.set (i := i) (fun j hj => ⟨List.getElem?_set_ne (Ne.symm hj), rfl⟩) fun s' hs' => ?_
    rw [List.getElem?_set_self (List.getElem?_eq_some_iff.mp hstate).1] at hs'
    cases hs'
    exact (h₁.states i state hstate).accessRequested true
  | accessTimeout =>
    simp only [DcfManager.call, Option.bind_eq_bind, Option.bind_eq_some_iff] at hcall
    obtain ⟨m₁, hm₁, hcall⟩ := hcall
    obtain ⟨rfl, -⟩ := Prod.mk.inj (Option.some.inj hcall)
    have h₀ : Accounts busy now ds { s.manager with accessTimeout := none } :=
      h.later (later_iff.mpr (by dsimp only; omega)) rfl rfl rfl
    exact h₀.updateBackoff hm₁
  | startBackoffNow i nSlots =>
    simp only [DcfManager.call, Option.bind_eq_bind, Option.bind_eq_some_iff] at hcall
    obtain ⟨state, hstate, state', hstate', hcall⟩ := hcall
    obtain ⟨rfl, -⟩ := Prod.mk.inj (Option.some.inj hcall)
    refine h.set (i := i) (fun j hj => ⟨List.getElem?_set_ne (Ne.symm hj), Function.update_of_ne hj _ _⟩)
      fun s' hs' => ?_
    rw [List.getElem?_set_self (List.getElem?_eq_some_iff.mp hstate).1] at hs'
    cases hs'
    rw [DcfState.startBackoffNow] at hstate'
    split_ifs at hstate'
    cases hstate'
    rw [draw, Function.update_self]
    exact ⟨⟨[], Nat.zero_add _, .nil, fun a ha => absurd ha List.not_mem_nil⟩, Int.le_refl _, Int.le_refl _,
      htimely.2, (h.states i state hstate).aifs⟩
  | notifyRxStartNow duration =>
    simp only [DcfManager.call, Option.bind_eq_bind, Option.bind_eq_some_iff] at hcall
    obtain ⟨m₁, hm₁, hcall⟩ := hcall
    obtain ⟨rfl, -⟩ := Prod.mk.inj (Option.some.inj hcall)
    refine (h.updateBackoff hm₁).later (later_iff.mpr ?_) rfl rfl rfl
    dsimp only
    rw [if_neg (by decide : ¬ true = false)]
    omega
  | notifyRxEndOkNow =>
    obtain ⟨rfl, -⟩ := Prod.mk.inj (Option.some.inj hcall)
    exact h.notifyRxEnd _
  | notifyRxEndErrorNow =>
    obtain ⟨rfl, -⟩ := Prod.mk.inj (Option.some.inj hcall)
    exact h.notifyRxEnd _
  | notifyTxStartNow duration =>
    simp only [DcfManager.call, Option.map_eq_some_iff] at hcall
    obtain ⟨m₂, hm₂, hcall⟩ := hcall
    obtain ⟨rfl, -⟩ := Prod.mk.inj hcall
    rw [notifyTxStartNow] at hm₂
    split_ifs at hm₂
    simp only [Option.bind_eq_bind, Option.bind_eq_some_iff] at hm₂
    obtain ⟨m₁, hm₁, hm₂⟩ := hm₂
    cases hm₂
    exact (h.stopRx.updateBackoff hm₁).mark (.tx duration)
  | notifyMaybeCcaBusyStartNow duration =>
    simp only [DcfManager.call, Option.bind_eq_bind, Option.bind_eq_some_iff] at hcall
    obtain ⟨m₁, hm₁, hcall⟩ := hcall
    obtain ⟨rfl, -⟩ := Prod.mk.inj (Option.some.inj hcall)
    exact (h.updateBackoff hm₁).mark (.cca duration)
  | notifySwitchingStartNow duration =>
    simp only [DcfManager.call, notifySwitchingStartNow] at hcall
    split_ifs at hcall
    obtain ⟨rfl, -⟩ := Prod.mk.inj (Option.some.inj hcall)
    exact h.cutShort
  | notifyNavResetNow duration =>
    simp only [DcfManager.call, notifyNavResetNow, Option.map_eq_some_iff, Option.bind_eq_bind,
      Option.bind_eq_some_iff] at hcall
    obtain ⟨m₃, ⟨m₁, hm₁, m₂, hm₂, hm₃⟩, hcall⟩ := hcall
    obtain ⟨rfl, -⟩ := Prod.mk.inj hcall
    cases hm₃
    exact (((h.updateBackoff hm₁).mark (.nav duration)).updateBackoff hm₂).restart
  | notifyNavStartNow duration =>
    simp only [DcfManager.call, Option.map_eq_some_iff] at hcall
    obtain ⟨m₂, hm₂, hcall⟩ := hcall
    obtain ⟨rfl, -⟩ := Prod.mk.inj hcall
    rw [notifyNavStartNow] at hm₂
    split_ifs at hm₂
    simp only [Option.bind_eq_bind, Option.bind_eq_some_iff] at hm₂
    obtain ⟨m₁, hm₁, hm₂⟩ := hm₂
    split_ifs at hm₂ with hlater
    · cases hm₂
      exact (h.updateBackoff hm₁).mark (.nav duration)
    · cases hm₂
      exact h.updateBackoff hm₁
  | notifyAckTimeoutStartNow duration =>
    simp only [DcfManager.call] at hcall
    split_ifs at hcall
    obtain ⟨rfl, -⟩ := Prod.mk.inj (Option.some.inj hcall)
    exact h.mark (.ackTimeout _ (Int.le_add_of_nonneg_right (Int.natCast_nonneg _)))
  | notifyAckTimeoutResetNow =>
    obtain ⟨rfl, -⟩ := Prod.mk.inj (Option.some.inj hcall)
    exact (h.mark (.ackTimeout now (Int.le_refl _))).restart
  | notifyCtsTimeoutStartNow duration =>
    obtain ⟨rfl, -⟩ := Prod.mk.inj (Option.some.inj hcall)
    exact h.mark (.ctsTimeout _ (Int.le_add_of_nonneg_right (Int.natCast_nonneg _)))
  | notifyCtsTimeoutResetNow =>
    obtain ⟨rfl, -⟩ := Prod.mk.inj (Option.some.inj hcall)
    exact (h.mark (.ctsTimeout now (Int.le_refl _))).restart

variable {tr : List (Station × Event)}

/-- Until the next event, the medium is busy as the manager knows. -/
theorem Accounts.advance {s : Station} {e : Event} (h : Accounts (BusyAt tr) s.now ds s.manager)
    (hle : s.now ≤ e.time s) (htimely : Timely s e) : Accounts (BusyAt (tr ++ [(s, e)])) (e.time s) ds s.manager := by
  have hcases : ∀ t, BusyAt (tr ++ [(s, e)]) t →
      BusyAt tr t ∨ s.now ≤ t ∧ t < e.time s ∧ s.manager.BusyNow t := by
    rintro t ⟨x, hx, hbusy⟩
    rcases List.mem_append.mp hx with hx | hx
    · exact .inl ⟨x, hx, hbusy⟩
    · obtain rfl := List.mem_singleton.mp hx
      exact .inr hbusy
  have hidle : ∀ {lo hi : ℤ}, hi ≤ s.now → Idle (BusyAt tr) lo hi → Idle (BusyAt (tr ++ [(s, e)])) lo hi := by
    intro lo hi hhi hidle t hlo hlt hbusy
    rcases hcases t hbusy with hbusy | ⟨hnow, -⟩
    · exact hidle t hlo hlt hbusy
    · omega
  refine ⟨fun t ht => ?_, fun t ht => ?_, fun i state hstate => ?_⟩
  · rcases hcases t ht with hbusy | ⟨-, hlt, -⟩
    · exact Int.lt_of_lt_of_le (h.past t hbusy) hle
    · exact hlt
  · rcases hcases t ht with hbusy | ⟨-, hlt, hrx | ⟨busyEnd, hmem, hbefore⟩⟩
    · exact h.known t hbusy
    · refine ⟨_, List.mem_cons_self, ?_⟩
      rw [if_neg (by rw [hrx]; decide)]
      exact Int.lt_of_lt_of_le hlt (htimely.1 hrx)
    · exact ⟨busyEnd, List.mem_cons_of_mem _ hmem, hbefore⟩
  · have hcounted := h.states i state hstate
    obtain ⟨starts, hlength, hpairwise, hstarts⟩ := hcounted.slots
    refine ⟨⟨starts, hlength, hpairwise, fun a ha => ?_⟩, hcounted.time, Int.le_trans hcounted.start hle,
      hcounted.fits, hcounted.aifs⟩
    obtain ⟨hdraw, hend, hwas⟩ := hstarts a ha
    exact ⟨hdraw, hend, hidle (Int.le_trans hend hcounted.start) hwas⟩

/-- One event. -/
theorem Accounts.step {s s' : Station} {e : Event} (h : Accounts (BusyAt tr) s.now ds s.manager)
    (hstep : machine.Step s e s') (htimely : Timely s e) :
    Accounts (BusyAt (tr ++ [(s, e)])) s'.now (draw s e ds) s'.manager := by
  obtain ⟨henabled, hexec⟩ := hstep
  cases e with
  | call time c =>
    obtain ⟨⟨m', tasks⟩, hcall, rfl⟩ := Option.map_eq_some_iff.mp hexec
    exact (h.advance (e := .call time c) henabled.1 htimely).call hcall htimely
  | task =>
    cases htasks : s.tasks with
    | nil => exact absurd htasks henabled
    | cons task rest =>
      simp only [machine, exec, htasks, Option.some.injEq] at hexec
      subst hexec
      exact (h.advance (Int.le_refl _) htimely).perform htasks

/-- In a run whose steps are timely, all slots are accounted for. -/
theorem accounts_of_run {aifsns : List UInt32} {slotTimeUs : UInt32} {sifs eifsNoDifs : ℕ} {s : Station}
    (h : machine.Run (init aifsns slotTimeUs sifs eifsNoDifs) tr s) (htimely : Lib.Machine.Meets Timely tr)
    (hfits : ∀ a ∈ aifsns, a.toNat * slotTimeUs.toNat < 2 ^ 32) : Accounts (BusyAt tr) s.now (draws tr) s.manager := by
  induction h with
  | nil =>
    have hnever : ∀ t, ¬ BusyAt [] t := by
      rintro t ⟨x, hx, -⟩
      exact absurd hx List.not_mem_nil
    refine ⟨fun t ht => absurd ht (hnever t), fun t ht => absurd ht (hnever t), fun i state hstate => ?_⟩
    obtain ⟨a, ha, rfl⟩ := List.mem_map.mp (List.mem_of_getElem? hstate)
    refine ⟨⟨[], rfl, .nil, fun a ha => absurd ha List.not_mem_nil⟩, Int.le_refl _, Int.le_refl _, ?_, hfits a ha⟩
    rw [draws, Lib.Machine.history]
    exact Nat.lt_of_le_of_lt (Nat.le_of_eq (Nat.zero_mul _)) (by decide)
  | snoc _ hstep ih =>
    obtain ⟨htr, he⟩ := Lib.Machine.meets_snoc.mp htimely
    rw [draws, Lib.Machine.history_snoc]
    exact (ih htr).step hstep he

instance : ∀ (s : Station) (e : Event), Decidable (machine.enabled s e)
  | s, .call time call => inferInstanceAs (Decidable (s.now ≤ time ∧ (∀ due ∈ s.manager.accessTimeout, time ≤ due) ∧
      (call = .accessTimeout → s.tasks = [] ∧ s.manager.accessTimeout = some time) ∧
      (s.tasks ≠ [] → time = s.now ∧ telling s.tasks = true)))
  | _, .task => inferInstanceAs (Decidable (_ ≠ _))

end DcfManager

end Ns3
