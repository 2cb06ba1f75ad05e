import Ns3.Internet.TcpReassembly
import Ns3.Lib.Calls
import Ns3.Lib.Pointwise
import Mathlib.Data.List.MinMax

/-!
# The samples of the round trip time

Karn's rule for `RttEstimator` (`internet/model/rtt-estimator.cc`): a measurement is taken, and the multiplier of the
timeout is reset, only for a segment no byte of which was sent again. `SentSeq` marks one entry of the history for a
range that is sent again, the one that the range begins in: the entries behind it that the range also reaches are not
marked, and an entry that grows beyond `next` may have others behind it.

* `markRetx_cases` — what the loop of `SentSeq` does.
* `Logs.sentSeq`, `Logs.ackSeq` — one call keeps what is known of the history, if the range that is sent again reaches
  no entry behind that is not marked (`Fits`).
* `karn_of_fits` — so do all calls.
-/

namespace Ns3

open Lib Lib.Span

namespace RttEstimator

/-! ### Calls -/

/-- A call. The bytes are counted from the first one that is sent, which has the sequence number one. -/
inductive Call where
  /-- `SentSeq`, of the bytes from `first` on. -/
  | sentSeq (now : Int) (first : ℕ) (c : UInt32)
  /-- `AckSeq`, of the bytes before `place`. -/
  | ackSeq (place : ℕ)

/-- The estimator, with all ranges that were sent and the first byte that is not acknowledged. -/
structure Sender where
  estimator : RttEstimator
  sent : List Span
  acked : ℕ

namespace Sender

/-- Before the first segment. -/
def start : Sender := ⟨new, [], 0⟩

/-- The sender after a call. -/
def call (s : Sender) : Call → Sender
  | .sentSeq now first c =>
    { s with estimator := s.estimator.sentSeq now (seqOf 1 first) c, sent := ⟨first, c.toNat⟩ :: s.sent }
  | .ackSeq place => { s with estimator := s.estimator.ackSeq (seqOf 1 place), acked := max place s.acked }

/-- The byte behind the highest that was sent. -/
def highest (s : Sender) : ℕ := (s.sent.map Span.stop).foldr max 0

/-- How often a byte was sent. -/
def timesSent (sent : List Span) (p : ℕ) : ℕ := sent.countP fun x => x.first ≤ p ∧ p < x.stop

/-- New segments start at the highest byte sent, others in the range that is not acknowledged. -/
def Legal (s : Sender) : Call → Prop
  | .sentSeq _ first _ => first = s.highest ∨ s.acked ≤ first ∧ first < s.highest
  | .ackSeq _ => True

instance (s : Sender) : ∀ c : Call, Decidable (s.Legal c)
  | .sentSeq _ first _ => inferInstanceAs (Decidable (first = s.highest ∨ s.acked ≤ first ∧ first < s.highest))
  | .ackSeq _ => .isTrue trivial

/-- The entry of the history is the range. -/
def IsRange (h : RttHistory) (x : Span) : Prop := h.seq = seqOf 1 x.first ∧ h.count.toNat = x.length

/-- The entries of the history are ranges that follow each other up to `next`, among the last 2^31 bytes that were
sent. -/
structure Ranges (s : Sender) (l : List Span) (b n : ℕ) : Prop where
  history : List.Forall₂ IsRange s.estimator.history l
  joins : Joins b l n
  next_eq : s.estimator.next = seqOf 1 n
  next_le : n ≤ s.highest
  highest_lt : s.highest < b + 2 ^ 31

/-- Karn's rule: the history covers the bytes up to `next`, and no byte of an entry that a sample is taken from was sent
again. -/
def Karn (s : Sender) : Prop :=
  ∃ l b n, s.Ranges l b n ∧ ∀ now a, (s.estimator.sample now a).isSome → ∀ x ∈ l.head?, ∀ p, x.first ≤ p → p < x.stop →
    timesSent s.sent p ≤ 1

/-- The first number in the history, or else the next one. -/
def front (s : Sender) : SequenceNumber32 := (s.estimator.history.head?.map RttHistory.seq).getD s.estimator.next

/-- The numbers that are compared are fewer than 2^31 apart. A range that starts at `next` was not sent before. Another
one reaches no entry behind its first number, unless that is marked already, and extends the last entry only. -/
def Fits (s : Sender) : Call → Prop
  | .sentSeq _ first c =>
    s.highest < first + 2 ^ 31 ∧ first + c.toNat + (seqOf 1 s.highest).ahead s.front < s.highest + 2 ^ 31 ∧
      if seqOf 1 first = s.estimator.next then s.highest ≤ first
      else
        (∀ h ∈ s.estimator.history, h.retx = true ∨ h.count.toNat = 0 ∨ h.seq.ahead (seqOf 1 first) = 0 ∨
          c.toNat ≤ h.seq.ahead (seqOf 1 first)) ∧
        (c.toNat ≤ s.estimator.next.ahead (seqOf 1 first) ∨
          ∀ h ∈ s.estimator.history.dropLast, h.count.toNat ≤ (seqOf 1 first).ahead h.seq)
  | .ackSeq _ => True

instance (s : Sender) : ∀ c : Call, Decidable (s.Fits c)
  | .sentSeq _ _ _ => inferInstanceAs (Decidable (_ ∧ _ ∧ ite _ _ _))
  | .ackSeq _ => .isTrue trivial

/-! ### The loop of `SentSeq` -/

/-- The loop ends at this entry. -/
def endsAt (s : SequenceNumber32) (h : RttHistory) : Bool := s.ge h.seq && s.lt (h.seq.plus h.count)

/-- The loop changes no entry, or the first one that it ends at. -/
theorem markRetx_cases (next s : SequenceNumber32) (c : UInt32) (history : List RttHistory) :
    (∀ h ∈ history, endsAt s h = false) ∧ markRetx next s c history = (next, history) ∨
    ∃ before h rest, history = before ++ h :: rest ∧ (∀ h' ∈ before, endsAt s h' = false) ∧ endsAt s h = true ∧
      markRetx next s c history =
        if (s.plus c).gt next then
          (s.plus c, before ++ { h with retx := true, count := (s.plus c).minus h.seq } :: rest)
        else (next, before ++ { h with retx := true } :: rest) := by
  induction history with
  | nil => exact .inl ⟨fun h hh => absurd hh List.not_mem_nil, rfl⟩
  | cons h history ih =>
    rw [markRetx, ← endsAt]
    by_cases hends : endsAt s h = true
    · rw [if_pos hends]
      exact .inr ⟨[], h, history, rfl, fun h' hh => absurd hh List.not_mem_nil, hends, rfl⟩
    · rw [if_neg hends]
      rcases ih with ⟨hnone, heq⟩ | ⟨before, h', rest, rfl, hbefore, hfound, heq⟩
      · refine .inl ⟨List.forall_mem_cons.mpr ⟨Bool.eq_false_iff.mpr hends, hnone⟩, ?_⟩
        rw [heq]
      · refine .inr ⟨h :: before, h', rest, rfl, List.forall_mem_cons.mpr ⟨Bool.eq_false_iff.mpr hends, hbefore⟩,
          hfound, ?_⟩
        rw [heq]
        split_ifs <;> rfl

/-! ### What the history records -/

section Records

variable {sent : List Span} {h : RttHistory} {x y : Span} {p : ℕ}

theorem timesSent_cons : timesSent (y :: sent) p = timesSent sent p + if y.first ≤ p ∧ p < y.stop then 1 else 0 := by
  rw [timesSent, List.countP_cons, timesSent]
  simp only [decide_eq_true_eq]

/-- The entry is the range, and no byte of it was sent again unless it is marked. -/
structure Records (sent : List Span) (h : RttHistory) (x : Span) : Prop where
  isRange : IsRange h x
  timesSent_le : h.retx = false → ∀ p, x.first ≤ p → p < x.stop → timesSent sent p ≤ 1

theorem ahead_seqOf {p q : ℕ} (hpq : p ≤ q) (hq : q < p + 2 ^ 32) : (seqOf 1 q).ahead (seqOf 1 p) = q - p := by
  have hpv := toNat_value_seqOf 1 p
  have hqv := toNat_value_seqOf 1 q
  rw [SequenceNumber.ahead, BitVec.toNat_sub, hpv, hqv]
  omega

theorem Records.endsAt_iff (hx : Records sent h x) {first : ℕ} (hfirst : Near first x.first)
    (hstop : Near first x.stop) : endsAt (seqOf 1 first) h = true ↔ x.first ≤ first ∧ first < x.stop := by
  obtain ⟨⟨hseq, hcount⟩, -⟩ := hx
  have hplus : h.seq.plus h.count = seqOf 1 x.stop := by
    rw [hseq, ← @UInt32.ofNat_toNat h.count, seqOf_plus, hcount]
    rfl
  rw [endsAt, hplus, hseq, ge_seqOf hfirst, lt_seqOf hstop, Bool.and_eq_true, decide_eq_true_eq, decide_eq_true_eq]

theorem Records.sent_cons (hx : Records sent h x)
    (hapart : h.retx = false → ∀ p, x.first ≤ p → p < x.stop → ¬ (y.first ≤ p ∧ p < y.stop)) :
    Records (y :: sent) h x := by
  refine ⟨hx.isRange, fun hretx p hp hlt => ?_⟩
  rw [timesSent_cons, if_neg (hapart hretx p hp hlt)]
  exact hx.timesSent_le hretx p hp hlt

/-- A range that does not begin in the entry has no byte of it, if it fits. -/
theorem Records.behind (hx : Records sent h x) (hy : ¬ (x.first ≤ y.first ∧ y.first < x.stop))
    (hnear : x.first < y.first + 2 ^ 32)
    (hfits : h.retx = true ∨ h.count.toNat = 0 ∨ h.seq.ahead (seqOf 1 y.first) = 0 ∨
      y.length ≤ h.seq.ahead (seqOf 1 y.first)) : Records (y :: sent) h x := by
  refine hx.sent_cons fun hretx p hp hlt hboth => ?_
  obtain ⟨hseq, hcount⟩ := hx.isRange
  have hstop : x.stop = x.first + x.length := rfl
  have hystop : y.stop = y.first + y.length := rfl
  have hbefore : y.first < x.first := by omega
  rw [hseq, ahead_seqOf (Nat.le_of_lt hbefore) hnear, hretx] at hfits
  simp only [Bool.false_eq_true, false_or] at hfits
  omega

theorem Records.marked (hrange : IsRange h x) (hretx : h.retx = true) : Records sent h x :=
  ⟨hrange, fun hnot => by simp [hretx] at hnot⟩

end Records

theorem stop_le_highest {s : Sender} {x : Span} (hx : x ∈ s.sent) : x.stop ≤ s.highest :=
  List.le_max_of_le' 0 (List.mem_map_of_mem hx) (Nat.le_refl _)

theorem timesSent_eq_zero {s : Sender} {p : ℕ} (hp : s.highest ≤ p) : timesSent s.sent p = 0 := by
  rw [timesSent, List.countP_eq_zero]
  intro x hx
  have hle := stop_le_highest hx
  simp only [decide_eq_true_eq]
  omega

/-- The entries record the ranges, which follow each other up to `next`. -/
structure Logs (s : Sender) (l : List Span) (b n : ℕ) : Prop where
  history : List.Forall₂ (Records s.sent) s.estimator.history l
  joins : Joins b l n
  next_eq : s.estimator.next = seqOf 1 n
  next_le : n ≤ s.highest
  highest_lt : s.highest < b + 2 ^ 31

section Keeps

variable {s : Sender} {l : List Span} {b n first : ℕ} {c : UInt32} {now : Int}

theorem logs_start : Logs start [] 0 0 where
  history := .nil
  joins := rfl
  next_eq := rfl
  next_le := Nat.le_refl _
  highest_lt := by decide

theorem Logs.front_eq (h : Logs s l b n) : s.front = seqOf 1 b := by
  have hjoins := h.joins
  rw [front]
  rcases List.forall₂_iff _ _ _ |>.mp h.history with ⟨hnil, rfl⟩ | ⟨entry, x, history, l, hx, -, hcons, rfl⟩
  · rw [hnil, h.next_eq, show b = n from hjoins]
    rfl
  · rw [hcons, ← hjoins.1]
    exact hx.isRange.1

/-- A new segment is the last entry. -/
theorem Logs.append (h : Logs s l b first) (hnew : s.highest ≤ first) (hfar : first + c.toNat < b + 2 ^ 31) :
    Logs (s.call (.sentSeq now first c)) (l ++ [⟨first, c.toNat⟩]) b (first + c.toNat) := by
  have hsent : (s.call (.sentSeq now first c)).estimator =
      ⟨s.estimator.next.plus c, s.estimator.history ++ [⟨s.estimator.next, c, now, false⟩]⟩ := by
    rw [call, sentSeq, ← h.next_eq, if_pos rfl]
  have hhighest : (s.call (.sentSeq now first c)).highest = max (first + c.toNat) s.highest := rfl
  refine ⟨?_, joins_append.mpr ⟨first, h.joins, rfl, rfl⟩, ?_, by omega, by omega⟩
  · rw [hsent]
    refine List.rel_append ?_ (.cons ⟨⟨h.next_eq, rfl⟩, fun _ p hp _ => ?_⟩ .nil)
    · -- the bytes of the other entries lie before
      refine forall₂_imp_mem h.history fun entry _ x hx hrecords => hrecords.sent_cons fun _ p _ hlt hboth => ?_
      have hstop := (h.joins.mem hx).2
      exact Nat.lt_irrefl p (Nat.lt_of_lt_of_le hlt (Nat.le_trans hstop hboth.1))
    · rw [call, timesSent_cons, timesSent_eq_zero (Nat.le_trans hnew hp)]
      split_ifs <;> decide
  · rw [hsent, h.next_eq, ← @UInt32.ofNat_toNat c, seqOf_plus, UInt32.ofNat_toNat]

/-- Bytes that are sent again: the entry that they begin in is marked, and may grow if it is the last one. -/
theorem Logs.resend (h : Logs s l b n) (hne : seqOf 1 first ≠ s.estimator.next) (hnear : s.highest < first + 2 ^ 31)
    (hfar : first + c.toNat < b + 2 ^ 31)
    (hreach : ∀ entry ∈ s.estimator.history, entry.retx = true ∨ entry.count.toNat = 0 ∨
      entry.seq.ahead (seqOf 1 first) = 0 ∨ c.toNat ≤ entry.seq.ahead (seqOf 1 first))
    (hlast : c.toNat ≤ s.estimator.next.ahead (seqOf 1 first) ∨
      ∀ entry ∈ s.estimator.history.dropLast, entry.count.toNat ≤ (seqOf 1 first).ahead entry.seq) :
    ∃ l' n', Logs (s.call (.sentSeq now first c)) l' b n' := by
  have hsent : (s.call (.sentSeq now first c)).estimator =
      ⟨(markRetx s.estimator.next (seqOf 1 first) c s.estimator.history).1,
        (markRetx s.estimator.next (seqOf 1 first) c s.estimator.history).2⟩ := by
    rw [call, sentSeq, if_neg hne]
  have hhighest : (s.call (.sentSeq now first c)).highest = max (first + c.toNat) s.highest := rfl
  have hnext := h.next_le
  have hbn := h.joins.le
  have hgreater := h.highest_lt
  have hends : ∀ entry, ∀ x ∈ l, Records s.sent entry x →
      (endsAt (seqOf 1 first) entry = true ↔ x.first ≤ first ∧ first < x.stop) := by
    intro entry x hx hrecords
    have hmem := h.joins.mem hx
    have hle := x.first_le_stop
    exact hrecords.endsAt_iff ⟨by omega, by omega⟩ ⟨by omega, by omega⟩
  have hkeeps : ∀ entry ∈ s.estimator.history, ∀ x ∈ l, Records s.sent entry x →
      ¬ (x.first ≤ first ∧ first < x.stop) → Records (⟨first, c.toNat⟩ :: s.sent) entry x := by
    intro entry hentry x hx hrecords hnot
    have hmem := h.joins.mem hx
    have hle := x.first_le_stop
    exact hrecords.behind hnot (by dsimp only; omega) (hreach entry hentry)
  rcases markRetx_cases s.estimator.next (seqOf 1 first) c s.estimator.history with
    ⟨hnone, heq⟩ | ⟨before, entry, rest, hhistory, hbefore, hfound, heq⟩
  · rw [heq] at hsent
    refine ⟨l, n, ?_, h.joins, by rw [hsent, h.next_eq], by omega, by omega⟩
    rw [hsent]
    refine forall₂_imp_mem h.history fun entry hentry x hx hrecords => hkeeps entry hentry x hx hrecords fun hin => ?_
    exact Bool.eq_false_iff.mp (hnone entry hentry) ((hends entry x hx hrecords).mpr hin)
  · have hrel := h.history
    rw [hhistory] at hrel hkeeps
    obtain ⟨ls, x, l', rfl, hls, hx, hl'⟩ := forall₂_append_cons hrel
    obtain ⟨m, hjoins, rfl, hjoins'⟩ := joins_append.mp h.joins
    have hxl : x ∈ ls ++ x :: l' := List.mem_append_right _ List.mem_cons_self
    obtain ⟨hle, hlt⟩ := (hends entry x hxl hx).mp hfound
    have hbx := hjoins.le
    have hstop : x.stop ≤ n := (h.joins.mem hxl).2
    have hls' : List.Forall₂ (Records (⟨first, c.toNat⟩ :: s.sent)) before ls := by
      refine forall₂_imp_mem hls fun entry' hentry y hy hrecords => ?_
      refine hkeeps entry' (List.mem_append_left _ hentry) y (List.mem_append_left _ hy) hrecords fun hin => ?_
      exact Bool.eq_false_iff.mp (hbefore entry' hentry)
        ((hends entry' y (List.mem_append_left _ hy) hrecords).mpr hin)
    have hrest : List.Forall₂ (Records (⟨first, c.toNat⟩ :: s.sent)) rest l' := by
      refine forall₂_imp_mem hl' fun entry' hentry y hy hrecords => ?_
      refine hkeeps entry' (List.mem_append_right _ (List.mem_cons_of_mem _ hentry)) y
        (List.mem_append_right _ (List.mem_cons_of_mem _ hy)) hrecords fun hin => ?_
      have hbegin := (hjoins'.mem hy).1
      omega
    have hgt : ((seqOf 1 first).plus c).gt s.estimator.next = decide (n < first + c.toNat) := by
      rw [h.next_eq, ← @UInt32.ofNat_toNat c, seqOf_plus, UInt32.ofNat_toNat, gt_seqOf ⟨by omega, by omega⟩]
    rw [hgt] at heq
    by_cases hextends : n < first + c.toNat
    · -- nothing follows the entry that grows
      have hempty : rest = [] := by
        by_contra hsome
        have hahead : s.estimator.next.ahead (seqOf 1 first) = n - first := by
          rw [h.next_eq]
          exact ahead_seqOf (by omega) (by omega)
        have hmem : entry ∈ s.estimator.history.dropLast := by
          rw [hhistory, List.dropLast_append_of_ne_nil (List.cons_ne_nil _ _), List.dropLast_cons_of_ne_nil hsome]
          exact List.mem_append_right _ List.mem_cons_self
        have hcount := hlast.resolve_left (by omega) entry hmem
        rw [hx.isRange.1, hx.isRange.2, ahead_seqOf hle (by omega)] at hcount
        rw [stop] at hlt
        omega
      subst hempty
      obtain rfl := List.forall₂_nil_left_iff.mp hrest
      rw [if_pos (decide_eq_true hextends)] at heq
      rw [heq] at hsent
      have hend : (seqOf 1 first).plus c = seqOf 1 (first + c.toNat) := by
        rw [← seqOf_plus, UInt32.ofNat_toNat]
      refine ⟨ls ++ [⟨x.first, first + c.toNat - x.first⟩], first + c.toNat, ?_, ?_, ?_, by omega, by omega⟩
      · rw [hsent]
        refine List.rel_append hls' (.cons (Records.marked ⟨hx.isRange.1, ?_⟩ rfl) .nil)
        dsimp only
        rw [hend, hx.isRange.1, minus_seqOf (by omega), UInt32.toNat_ofNat', Nat.mod_eq_of_lt (by omega)]
      · have hbegin : x.first ≤ first + c.toNat := by omega
        exact joins_append.mpr ⟨x.first, hjoins, rfl, Nat.add_sub_cancel' hbegin⟩
      · rw [hsent, hend]
    · rw [if_neg (by simpa using hextends)] at heq
      rw [heq] at hsent
      refine ⟨ls ++ x :: l', n, ?_, h.joins, by rw [hsent, h.next_eq], by omega, by omega⟩
      rw [hsent]
      exact List.rel_append hls' (.cons (Records.marked hx.isRange rfl) hrest)

theorem Logs.sentSeq (h : Logs s l b n) (hfits : s.Fits (.sentSeq now first c)) :
    ∃ l' n', Logs (s.call (.sentSeq now first c)) l' b n' := by
  obtain ⟨hnear, hfar, hfits⟩ := hfits
  have hbn := h.joins.le
  have hnext := h.next_le
  have hgreater := h.highest_lt
  rw [h.front_eq, ahead_seqOf (by omega) (by omega)] at hfar
  split_ifs at hfits with hnew
  · have hfirst : first = n := (seqOf_inj ⟨by omega, by omega⟩).mp (hnew.trans h.next_eq)
    subst hfirst
    exact ⟨_, _, h.append hfits (by omega)⟩
  · exact h.resend hnew hnear (by omega) hfits.1 hfits.2

/-- Entries are taken out at the front. -/
theorem Logs.ackSeq (h : Logs s l b n) (place : ℕ) : ∃ l' b', Logs (s.call (.ackSeq place)) l' b' n := by
  have hdrop : ∀ (q : RttHistory → Bool) {history : List RttHistory} {l : List Span} {b : ℕ},
      List.Forall₂ (Records s.sent) history l → Joins b l n →
      ∃ l' b', List.Forall₂ (Records s.sent) (history.dropWhile q) l' ∧ Joins b' l' n ∧ b ≤ b' := by
    intro q history l b hrel
    induction hrel generalizing b with
    | nil => exact fun hjoins => ⟨[], b, .nil, hjoins, Nat.le_refl b⟩
    | @cons entry x history l hx hrel ih =>
      intro hjoins
      rw [List.dropWhile_cons]
      split_ifs
      · obtain ⟨l', b', hrel', hjoins', hle⟩ := ih hjoins.2
        exact ⟨l', b', hrel', hjoins', Nat.le_trans (hjoins.1 ▸ x.first_le_stop) hle⟩
      · exact ⟨x :: l, b, .cons hx hrel, hjoins, Nat.le_refl b⟩
  obtain ⟨l', b', hrel, hjoins, hle⟩ := hdrop _ h.history h.joins
  have hgreater := h.highest_lt
  exact ⟨l', b', hrel, hjoins, h.next_eq, h.next_le, Nat.lt_of_lt_of_le hgreater (Nat.add_le_add_right hle _)⟩

theorem Logs.karn (h : Logs s l b n) : s.Karn := by
  refine ⟨l, b, n, ⟨h.history.imp fun _ _ hx => hx.isRange, h.joins, h.next_eq, h.next_le, h.highest_lt⟩, ?_⟩
  intro now a hsample x hx
  cases hrel : s.estimator.history with
  | nil => simp [sample, hrel] at hsample
  | cons entry history =>
    have hhistory := h.history
    rw [hrel] at hhistory
    obtain ⟨y, l, hy, -, rfl⟩ := List.forall₂_cons_left_iff.mp hhistory
    obtain rfl : y = x := by simpa using hx
    refine hy.timesSent_le ?_
    rw [sample, hrel] at hsample
    cases hretx : entry.retx with
    | false => rfl
    | true => simp [hretx] at hsample

end Keeps

/-- After any calls that fit, Karn's rule holds. -/
theorem karn_of_fits (l : List Call) (h : Each call start Fits l) : (l.foldl call start).Karn := by
  have hlogs : ∃ r b n, Logs (l.foldl call start) r b n := by
    refine @Each.invariant _ _ call _ Fits l (fun s => ∃ r b n, Logs s r b n) h ⟨[], 0, 0, logs_start⟩ ?_
    rintro s c ⟨r, b, n, hr⟩ hfits
    cases c with
    | sentSeq now first c =>
      obtain ⟨r', n', hsent⟩ := hr.sentSeq hfits
      exact ⟨r', b, n', hsent⟩
    | ackSeq place =>
      obtain ⟨r', b', hacked⟩ := hr.ackSeq place
      exact ⟨r', b', n, hacked⟩
  obtain ⟨r, b, n, hr⟩ := hlogs
  exact hr.karn

/-- Two segments, the second of which is sent again and grows, and an acknowledgement of the first. -/
theorem karn_resent : (Sender.call (Sender.call (Sender.call (Sender.call start (.sentSeq 0 0 5)) (.sentSeq 1 5 5))
    (.sentSeq 2 5 8)) (.ackSeq 5)).Karn :=
  karn_of_fits [.sentSeq 0 0 5, .sentSeq 1 5 5, .sentSeq 2 5 8, .ackSeq 5] (by decide +kernel)

/-- Two segments are sent again as one. The second one is not marked, and a sample is taken from it. -/
theorem not_karn_merged : ¬ ∀ l : List Call, Each call start Legal l → (l.foldl call start).Karn := by
  intro h
  have hlegal : Each call start Legal [.sentSeq 0 0 5, .sentSeq 1 5 5, .sentSeq 2 0 10, .ackSeq 5] := by decide +kernel
  obtain ⟨l, b, n, hranges, hsample⟩ := h _ hlegal
  have hhistory := hranges.history
  rw [show (List.foldl call start [.sentSeq 0 0 5, .sentSeq 1 5 5, .sentSeq 2 0 10, .ackSeq 5]).estimator.history =
    [⟨seqOf 1 5, 5, 1, false⟩] by decide +kernel] at hhistory
  obtain ⟨x, rest, ⟨hseq, hlength⟩, hrest, rfl⟩ := List.forall₂_cons_left_iff.mp hhistory
  obtain rfl := List.forall₂_nil_left_iff.mp hrest
  have hstop : x.stop ≤ 10 := Nat.le_trans (Nat.le_of_eq hranges.joins.2) hranges.next_le
  have hstop_eq : x.stop = x.first + 5 := congrArg (x.first + ·) hlength.symm
  have hfirst : 5 = x.first := (seqOf_inj ⟨by omega, by omega⟩).mp hseq
  have honce := hsample 3 (seqOf 1 10) (by decide +kernel) x rfl 5 (Nat.le_of_eq hfirst.symm) (by omega)
  exact absurd honce (by decide +kernel)

end Sender

end RttEstimator

end Ns3
